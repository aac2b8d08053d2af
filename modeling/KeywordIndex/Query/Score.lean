import KeywordIndex.Query.Similarity
import KeywordIndex.Text.Alphanumeric
import KeywordIndex.Text.Blank
import KeywordIndex.Text.Lowercase
import KeywordIndex.Text.Split

namespace KeywordIndex.Query

open Text

/-!
# Scores

A name matches a query if the characters of the query appear in it in order, in any case. The score
grows with the similarity of the two, with the closeness of the match, and with the characters of the
query that stand at the start of a word.
-/

/-- Whether a word starts after the given character, or at the start of the name. -/
def startsWord : Option Char → Bool
  | none => true
  | some before => !isAlphanumeric before

/-- What follows the first `c`. -/
def afterFirst? (c : Char) : List Char → Option (List Char)
  | [] => none
  | d :: ds => if d = c then some ds else afterFirst? c ds

/-- What follows the first `c` that starts a word and still leaves room for `query`. The character before
the text is `before`. -/
def afterWordStart? (c : Char) (query : List Char) (before : Option Char) :
    List Char → Option (List Char)
  | [] => none
  | d :: ds =>
    if d = c && startsWord before && query.isSublist ds then some ds
    else afterWordStart? c query (some d) ds

/-- Looks for the characters of a query in a name that goes on with `name` after `before`. Word starts
are preferred, and the answer is how many of the characters stand at one. -/
def wordStartsFrom (before : Option Char) (name : List Char) : List Char → Option Nat
  | [] => some 0
  | c :: query =>
    match afterFirst? c name with
    | none => none
    | some behind =>
      match afterWordStart? c query before name with
      | some behind => (wordStartsFrom (some c) behind query).map (· + 1)
      | none => wordStartsFrom (some c) behind query

/-- How many characters of the query stand at the start of a word of the name, if the name matches. -/
def wordStarts? (query name : List Char) : Option Nat := wordStartsFrom none name query

/-- What is added for the closeness of a match. -/
def closeness (query name : List Char) : Float :=
  if name = query then 3.0
  else if query.isPrefixOf name then 2.0
  else if occurs query name then 1.0
  else 0.0

/-- The score of a name for a query, if the name matches. An empty query gives every name the same. -/
def score? (query name : List Char) : Option Float :=
  let query := lower (trim query)
  if query.isEmpty then some 1.0
  else
    let name := lower name
    (wordStarts? query name).map fun count =>
      similarity query name + closeness query name +
        0.5 * Float.ofNat count / Float.ofNat query.length

/-- The rank of a score among all doubles: their bits are ordered as they are above zero and the other
way round below. -/
def rank (score : Float) : Int :=
  let bits := score.toBits.toNat
  if bits < 0x8000000000000000 then bits else 0x7FFFFFFFFFFFFFFF - (bits : Int)

end KeywordIndex.Query
