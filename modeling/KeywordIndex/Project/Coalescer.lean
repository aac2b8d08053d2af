namespace KeywordIndex

/-!
# Coalescing of runs

At most one run is in progress. Requests that are made meanwhile are folded into one run after it.
-/

/-- What to do about a request. -/
inductive Admission where
  /-- Nothing is in progress; the run begins. -/
  | run
  /-- A run is in progress, and another one will follow it. -/
  | scheduled
  deriving DecidableEq, Repr

/-- The state of the runs. -/
structure Coalescer where
  /-- Whether a run is in progress. -/
  isRunning : Bool := false
  /-- Whether another run is to follow. -/
  isPending : Bool := false
  deriving DecidableEq, Repr

namespace Coalescer

/-- No run is in progress, and none is to follow. -/
def idle : Coalescer := {}

/-- Makes a request. -/
def begin (c : Coalescer) : Coalescer × Admission :=
  if c.isRunning then ({ c with isPending := true }, .scheduled)
  else ({ c with isRunning := true }, .run)

/-- Ends a run, and says whether another one follows it. -/
def finish (c : Coalescer) : Coalescer × Bool :=
  if c.isPending then ({ c with isPending := false }, true)
  else ({ c with isRunning := false }, false)

/-- Makes some requests. -/
def request (c : Coalescer) : Nat → Coalescer × List Admission
  | 0 => (c, [])
  | n + 1 =>
    let (c, first) := c.begin
    let (c, others) := c.request n
    (c, first :: others)

end Coalescer

/-- What a run of a job comes to: how many requests it makes itself, and its result. -/
structure JobRun (α : Type) where
  requests : Nat
  result : α

/-- A job that is run again as long as requests are made: its runs in order, and the result of a run after
them, which makes no request. -/
structure Job (α : Type) where
  runs : List (JobRun α)
  last : α

namespace Job

/-- What the run after `n` others comes to. -/
def nth {α : Type} (job : Job α) (n : Nat) : JobRun α := job.runs.getD n ⟨0, job.last⟩

/-- A job whose runs make the listed numbers of requests and tell how often it has run. -/
def counting (requests : List Nat) : Job Nat where
  runs := requests.mapIdx fun n r => ⟨r, n + 1⟩
  last := requests.length + 1

end Job

namespace Coalescer

/-- What came of running under coalescing. -/
structure Runs (α : Type) where
  coalescer : Coalescer
  /-- How often the job ran. -/
  count : Nat
  /-- The result of the last run. -/
  result : α
  /-- What was said to the requests made meanwhile. -/
  admissions : List Admission

/-- Goes on with a run that has begun, after `count` others, until none is to follow. -/
def runAll {α : Type} (c : Coalescer) (last : α) (count : Nat) : List (JobRun α) → Runs α
  | [] =>
    match c.finish with
    | (c, true) => ⟨c.finish.1, count + 2, last, []⟩
    | (c, false) => ⟨c, count + 1, last, []⟩
  | current :: rest =>
    let (c, admissions) := c.request current.requests
    match c.finish with
    | (c, true) =>
      let later := c.runAll last (count + 1) rest
      { later with admissions := admissions ++ later.admissions }
    | (c, false) => ⟨c, count + 1, current.result, admissions⟩

/-- Makes a request to run a job. The answer is nothing if the request is folded into a run in progress. -/
def runJob {α : Type} (c : Coalescer) (job : Job α) : Coalescer × Option (Runs α) :=
  match c.begin with
  | (c, .scheduled) => (c, none)
  | (c, .run) =>
    let runs := c.runAll job.last 0 job.runs
    (runs.coalescer, some runs)

/-- Makes a request for runs that make the listed numbers of requests themselves. -/
def run (c : Coalescer) (requests : List Nat) : Coalescer × Option (Runs Nat) :=
  c.runJob (.counting requests)

end Coalescer

end KeywordIndex
