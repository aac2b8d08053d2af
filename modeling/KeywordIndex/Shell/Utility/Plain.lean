import KeywordIndex.Shell.Job
import KeywordIndex.Shell.Printing

namespace KeywordIndex.Shell.Utility

open KeywordIndex.Shell.Job

/-!
# Small programs

Programs that do nothing, and the ones that write their arguments.
-/

/-- Ends with a status. -/
def ends (status : Nat) : Program := throw status

/-- Replaces the escapes in a word. Escapes of octets have a zero or an `x` before their digits. -/
def echoEscapes : Nat → List Char → List Char × Bool
  | 0, _ => ([], true)
  | _ + 1, [] => ([], true)
  | fuel + 1, '\\' :: cs =>
    let go (c : Char) (rest : List Char) : List Char × Bool :=
      let (text, more) := echoEscapes fuel rest
      (c :: text, more)
    match cs with
    | 'c' :: _ => ([], false)
    | 'x' :: rest =>
      let digits := (rest.take 2).takeWhile (isDigitIn 16)
      if digits.isEmpty then go '\\' cs else go (Char.ofNat (numberIn 16 digits)) (rest.drop digits.length)
    | '0' :: rest =>
      let digits := (rest.take 3).takeWhile isOctal
      go (octet digits) (rest.drop digits.length)
    | c :: rest =>
      match controlCharacter? c with
      | some d => go d rest
      | none => go '\\' cs
    | [] => go '\\' []
  | fuel + 1, c :: cs =>
    let (text, more) := echoEscapes fuel cs
    (c :: text, more)

/-- Writes its words. Words of the letters e, E and n behind a dash are options as long as they come
first. -/
def echo : Program := do
  let isOption (word : List Char) : Bool :=
    match word with
    | '-' :: c :: cs => (c :: cs).all fun c => c == 'e' || c == 'E' || c == 'n'
    | _ => false
  let arguments := (← get).arguments
  let letters := (arguments.takeWhile isOption).flatten
  let words := arguments.dropWhile isOption
  let text := [' '].intercalate words
  let escapes := (letters.reverse.find? fun c => c == 'e' || c == 'E') == some 'e'
  let (text, more) := if escapes then echoEscapes (text.length + 1) text else (text, true)
  out (text ++ if letters.contains 'n' || !more then [] else ['\n'])

/-- Writes a format. -/
def printf : Program := do
  match (← get).arguments with
  | [] => misuse 1 "missing operand".toList
  | format :: words =>
    let p := Shell.printf format words
    p.warnings.forM fun w => do
      let word := w.takeWhile (· ≠ ':')
      let reason :=
        match String.ofList (w.drop (word.length + 2)) with
        | "expected numeric value" => "expected a numeric value".toList
        | "not completely converted" => "value not completely converted".toList
        | other => other.toList
      warn (quoted word ++ ": ".toList ++ reason)
    out p.text
    match p.halted with
    | some (c :: cs) => fail 1 (c :: cs)
    | some [] => return
    | none =>
      match p.words with
      | extra :: _ =>
        warn ("warning: ignoring excess arguments, starting with ".toList ++ quoted extra)
      | [] => return
    if !p.warnings.isEmpty then mark 1

end KeywordIndex.Shell.Utility
