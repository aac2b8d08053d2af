import KeywordIndex.Project.Coalescer
import Mathlib.Data.List.Basic

namespace KeywordIndex.Coalescer

/-! # Coalescing is safe

Any number of clients share a coalescer. A client whose request is answered with a run performs it and then
says that it has ended, and performs another one whenever it is told to.

* The invariant is `Shared.Balanced`: what the coalescer says of runs in progress is so, there is never more
  than one, and none is to follow without one. One call keeps it (`balanced_step`), so all calls do.
* A request that is scheduled leaves the coalescer pending until a run starts (`pending_steps`).
* A run starts with nothing pending, so whether another one follows it depends on the requests since then
  alone (`finish_after_start`).

`requests_coalesced` puts these together, with what they come to for one job that makes requests itself
(`runJob_of_idle`).
-/

/-! ## The two flags -/

section Flags

variable (c : Coalescer)

@[simp] theorem isRunning_idle : idle.isRunning = false := rfl

@[simp] theorem isPending_idle : idle.isPending = false := rfl

theorem begin_of_running {c : Coalescer} (h : c.isRunning = true) :
    c.begin = ({ c with isPending := true }, .scheduled) := if_pos h

theorem begin_of_not_running {c : Coalescer} (h : c.isRunning = false) :
    c.begin = ({ c with isRunning := true }, .run) := if_neg (by simp [h])

theorem finish_of_pending {c : Coalescer} (h : c.isPending = true) :
    c.finish = ({ c with isPending := false }, true) := if_pos h

theorem finish_of_not_pending {c : Coalescer} (h : c.isPending = false) : c.finish = (idle, false) := by
  obtain ⟨running, pending⟩ := c
  obtain rfl : pending = false := h
  rfl

@[simp] theorem isRunning_begin : c.begin.1.isRunning = true := by
  cases h : c.isRunning with
  | true => rw [begin_of_running h, h]
  | false => rw [begin_of_not_running h]

@[simp] theorem isPending_begin : c.begin.1.isPending = (c.isRunning || c.isPending) := by
  cases h : c.isRunning with
  | true => rw [begin_of_running h, Bool.true_or]
  | false => rw [begin_of_not_running h, Bool.false_or]

@[simp] theorem admission_begin : c.begin.2 = if c.isRunning then .scheduled else .run := by
  cases h : c.isRunning with
  | true => rw [begin_of_running h, if_pos rfl]
  | false => rw [begin_of_not_running h, if_neg Bool.false_ne_true]

@[simp] theorem isRunning_finish : c.finish.1.isRunning = (c.isPending && c.isRunning) := by
  cases h : c.isPending with
  | true => rw [finish_of_pending h, Bool.true_and]
  | false => rw [finish_of_not_pending h, Bool.false_and, isRunning_idle]

@[simp] theorem isPending_finish : c.finish.1.isPending = false := by
  cases h : c.isPending with
  | true => rw [finish_of_pending h]
  | false => rw [finish_of_not_pending h, isPending_idle]

@[simp] theorem again_finish : c.finish.2 = c.isPending := by
  cases h : c.isPending with
  | true => rw [finish_of_pending h]
  | false => rw [finish_of_not_pending h]

theorem not_pending {c : Coalescer} (h : c.isPending = true → c.isRunning = true)
    (hidle : c.isRunning = false) : c.isPending = false := by
  by_contra hpending
  rw [h (by simpa using hpending)] at hidle
  cases hidle

theorem eq_idle_iff {c : Coalescer} : c = .idle ↔ c.isRunning = false ∧ c.isPending = false := by
  cases c
  simp [idle]

end Flags

/-! ## Clients -/

variable {Client : Type}

/-- What a client does, and what it is answered. -/
inductive Event (Client : Type) where
  | request (client : Client) (admission : Admission)
  /-- A run of the client has ended, and the client performs another one if it is told to. -/
  | finish (client : Client) (again : Bool)

namespace Event

def client : Event Client → Client
  | .request client _ => client
  | .finish client _ => client

def isRequest : Event Client → Bool
  | .request _ _ => true
  | .finish _ _ => false

/-- Whether the client starts a run. -/
def starts : Event Client → Bool
  | .request _ admission => admission = .run
  | .finish _ again => again

end Event

/-- A coalescer, and the clients whose runs are in progress, once for every run. -/
structure Shared (Client : Type) where
  coalescer : Coalescer := .idle
  performing : List Client := []

namespace Shared

/-- What the coalescer says of a run in progress is so, there is no other one, and another one follows only
while one is in progress. -/
structure Balanced (s : Shared Client) : Prop where
  length_eq : s.performing.length = if s.coalescer.isRunning then 1 else 0
  running : s.coalescer.isPending = true → s.coalescer.isRunning = true

namespace Balanced

variable {s : Shared Client}

theorem length_le (h : s.Balanced) : s.performing.length ≤ 1 := by
  have hlength := h.length_eq
  split at hlength <;> omega

theorem performing_eq_nil_iff (h : s.Balanced) :
    s.performing = [] ↔ s.coalescer.isRunning = false := by
  rw [← List.length_eq_zero_iff, h.length_eq]
  cases s.coalescer.isRunning <;> simp

theorem performing_eq (h : s.Balanced) {client : Client} (hclient : client ∈ s.performing) :
    s.performing = [client] := by
  have hlength := h.length_le
  cases hperforming : s.performing with
  | nil => simp [hperforming] at hclient
  | cons first rest =>
    rw [hperforming] at hlength hclient
    obtain rfl : rest = [] := by simpa using hlength
    simpa using Eq.symm (List.mem_singleton.mp hclient)

end Balanced

theorem balanced_start : ({} : Shared Client).Balanced := ⟨rfl, by simp⟩

variable [DecidableEq Client]

/-- A client has made a request, and performs a run if it is admitted. -/
def requested (s : Shared Client) (client : Client) : Shared Client where
  coalescer := s.coalescer.begin.1
  performing := if s.coalescer.begin.2 = .run then client :: s.performing else s.performing

/-- A client has ended a run, and performs another one if it is told to. -/
def finished (s : Shared Client) (client : Client) : Shared Client where
  coalescer := s.coalescer.finish.1
  performing := if s.coalescer.finish.2 then s.performing else s.performing.erase client

end Shared

variable [DecidableEq Client]

/-- One call of one client. Only who performs a run ends one. -/
inductive Step : Shared Client → Event Client → Shared Client → Prop where
  | request (s : Shared Client) (client : Client) :
    Step s (.request client s.coalescer.begin.2) (s.requested client)
  | finish {s : Shared Client} {client : Client} (h : client ∈ s.performing) :
    Step s (.finish client s.coalescer.finish.2) (s.finished client)

/-- Calls one after another, of any clients. -/
inductive Steps : Shared Client → List (Event Client) → Shared Client → Prop where
  | nil (s : Shared Client) : Steps s [] s
  | cons {s next later : Shared Client} {e : Event Client} {log : List (Event Client)}
      (step : Step s e next) (rest : Steps next log later) : Steps s (e :: log) later

variable {s later : Shared Client} {e : Event Client} {log before after : List (Event Client)}

theorem Steps.of_append (h : Steps s (before ++ after) later) :
    ∃ middle, Steps s before middle ∧ Steps middle after later := by
  induction before generalizing s with
  | nil => exact ⟨s, .nil s, h⟩
  | cons e before ih =>
    cases h with
    | cons step rest =>
      obtain ⟨middle, hbefore, hafter⟩ := ih rest
      exact ⟨middle, .cons step hbefore, hafter⟩

/-! ## One run at a time -/

theorem balanced_step (h : s.Balanced) (step : Step s e later) : later.Balanced := by
  have hlength := h.length_eq
  cases step with
  | request client =>
    refine ⟨?_, by simp [Shared.requested]⟩
    simp only [Shared.requested, isRunning_begin, admission_begin, if_true]
    cases hrunning : s.coalescer.isRunning with
    | false => simp_all
    | true => simp_all
  | finish hclient =>
    refine ⟨?_, by simp [Shared.finished]⟩
    have herase := List.length_erase_of_mem hclient
    simp only [Shared.finished, isRunning_finish, again_finish]
    cases hpending : s.coalescer.isPending with
    | true =>
      -- the run that ends and the one that starts are of the same client
      rw [h.running hpending] at hlength ⊢
      simpa using hlength
    | false =>
      have hpositive := List.length_pos_of_mem hclient
      simp only [Bool.false_and, Bool.false_eq_true, if_false, herase]
      split at hlength <;> omega

theorem balanced_steps (h : s.Balanced) (steps : Steps s log later) : later.Balanced := by
  induction steps with
  | nil => exact h
  | cons step _ ih => exact ih (balanced_step h step)

/-- Whatever was called, the coalescer tells the truth. -/
theorem balanced_of_steps (steps : Steps {} log s) : s.Balanced := balanced_steps Shared.balanced_start steps

theorem request_of_nobody (h : s.Balanced) (hnobody : s.performing = []) {client : Client}
    {admission : Admission} (step : Step s (.request client admission) later) :
    admission = .run ∧ later.performing = [client] := by
  have hrunning := h.performing_eq_nil_iff.mp hnobody
  cases step with
  | request => simp [Shared.requested, hrunning, hnobody]

/-! ## Scheduled requests -/

theorem pending_of_scheduled {client : Client} (step : Step s (.request client .scheduled) later) :
    later.coalescer.isPending = true := by
  generalize he : Event.request client .scheduled = e at step
  cases step with
  | request client' =>
    -- it would have been admitted if nothing had run
    have hadmission : s.coalescer.begin.2 = .scheduled := (Event.request.inj he).2.symm
    simp only [Shared.requested, isPending_begin]
    cases hrunning : s.coalescer.isRunning with
    | true => rw [Bool.true_or]
    | false => simp [hrunning] at hadmission
  | finish _ => cases he

theorem pending_step (h : s.coalescer.isPending = true) (step : Step s e later) :
    e.starts = true ∨ later.coalescer.isPending = true := by
  cases step with
  | request client =>
    right
    simp [Shared.requested, h]
  | finish hclient =>
    left
    simpa [Event.starts] using h

/-- What is pending stays so until a run starts. -/
theorem pending_steps (h : s.coalescer.isPending = true) (steps : Steps s log later) :
    (∃ e ∈ log, e.starts = true) ∨ later.coalescer.isPending = true := by
  induction steps with
  | nil => exact Or.inr h
  | cons step _ ih =>
    rcases pending_step h step with hstarts | hpending
    · exact Or.inl ⟨_, List.mem_cons_self, hstarts⟩
    · rcases ih hpending with ⟨e, he, hstarts⟩ | hlater
      · exact Or.inl ⟨e, List.mem_cons_of_mem _ he, hstarts⟩
      · exact Or.inr hlater

/-- No scheduled request is forgotten. -/
theorem start_after_scheduled {client : Client} (h : s.Balanced)
    (steps : Steps s (before ++ .request client .scheduled :: after) later)
    (hidle : later.coalescer.isRunning = false) : ∃ e ∈ after, e.starts = true := by
  obtain ⟨middle, -, hafter⟩ := steps.of_append
  cases hafter with
  | cons step rest =>
    rcases pending_steps (pending_of_scheduled step) rest with hstart | hpending
    · exact hstart
    · rw [not_pending (balanced_steps h steps).running hidle] at hpending
      cases hpending

/-! ## What follows a run -/

/-- A run starts with nothing pending, and is the only one in progress. -/
theorem fresh_of_starts (h : s.Balanced) (hstarts : e.starts = true) (step : Step s e later) :
    later.coalescer.isPending = false ∧ later.performing = [e.client] := by
  have hlater := balanced_step h step
  cases step with
  | request client =>
    have hadmission : s.coalescer.begin.2 = .run := by simpa [Event.starts] using hstarts
    have hclient : client ∈ (s.requested client).performing := by
      simp only [Shared.requested, hadmission, if_true]
      exact List.mem_cons_self
    refine ⟨?_, hlater.performing_eq hclient⟩
    cases hrunning : s.coalescer.isRunning with
    | false => simp [Shared.requested, hrunning, not_pending h.running hrunning]
    | true => simp [hrunning] at hadmission
  | finish hclient =>
    have hagain : s.coalescer.finish.2 = true := hstarts
    have hmem : ∀ {client}, client ∈ s.performing → client ∈ (s.finished client).performing := by
      intro client hclient
      simpa only [Shared.finished, hagain, if_true] using hclient
    exact ⟨by simp [Shared.finished], hlater.performing_eq (hmem hclient)⟩

/-- Requests that are made while a run is in progress leave it at that, and are pending if there are any. -/
theorem requests_meanwhile {client : Client} (h : s.Balanced) (hperforming : s.performing = [client])
    (hrequests : ∀ e ∈ log, e.isRequest = true) (steps : Steps s log later) :
    later.performing = [client] ∧
      later.coalescer.isPending = (s.coalescer.isPending || !log.isEmpty) := by
  induction steps with
  | nil => simp [hperforming]
  | @cons s next later e log step rest ih =>
    have hrunning : s.coalescer.isRunning = true := by
      by_contra hidle
      rw [Bool.not_eq_true, ← h.performing_eq_nil_iff, hperforming] at hidle
      cases hidle
    have hnext := balanced_step h step
    cases step with
    | request other =>
      have hsame : (s.requested other).performing = [client] := by
        simp [Shared.requested, hrunning, hperforming]
      have hrest := ih hnext hsame fun e he => hrequests e (List.mem_cons_of_mem _ he)
      simpa [Shared.requested, hrunning] using hrest
    | finish hclient =>
      have hfinish := hrequests _ List.mem_cons_self
      cases hfinish

/-- Whether a run is followed by another one of the same client depends on the requests since its start. -/
theorem finish_after_start {start : Event Client} {requests : List (Event Client)} {client : Client}
    {again : Bool} (h : s.Balanced) (hstart : start.starts = true)
    (hrequests : ∀ e ∈ requests, e.isRequest = true)
    (steps : Steps s (start :: requests ++ [.finish client again]) later) :
    client = start.client ∧ again = !requests.isEmpty := by
  obtain ⟨middle, hbefore, hafter⟩ := steps.of_append
  cases hbefore with
  | @cons _ next _ _ _ step rest =>
    obtain ⟨hpending, hperforming⟩ := fresh_of_starts h hstart step
    obtain ⟨hsame, hagain⟩ := requests_meanwhile (balanced_step h step) hperforming hrequests rest
    rw [hpending, Bool.false_or] at hagain
    cases hafter with
    | cons last _ =>
      cases last with
      | finish hclient =>
        rw [hsame, List.mem_singleton] at hclient
        rw [again_finish]
        exact ⟨hclient, hagain⟩

/-! ## One job -/

section Job

variable {α : Type}

/-- Requests that are made while a run is in progress are scheduled. -/
theorem request_of_running {c : Coalescer} (h : c.isRunning = true) (n : Nat) :
    c.request n = ({ c with isPending := c.isPending || n != 0 }, List.replicate n .scheduled) := by
  induction n generalizing c with
  | zero => simp [request]
  | succ n ih =>
    have hrest := ih (c := { c with isPending := true }) h
    unfold request
    simp only [begin_of_running h, hrest]
    simp [List.replicate_succ]

/-- From its start on, a run is repeated until the first run in which no request is made. -/
theorem runAll_spec {c : Coalescer} (hrunning : c.isRunning = true) (hpending : c.isPending = false)
    (last : α) (count : Nat) (runs : List (JobRun α)) :
    ∃ n, (c.runAll last count runs).count = count + n + 1 ∧
      (∀ i < n, ((⟨runs, last⟩ : Job α).nth i).requests ≠ 0) ∧
      ((⟨runs, last⟩ : Job α).nth n).requests = 0 ∧
      (c.runAll last count runs).result = ((⟨runs, last⟩ : Job α).nth n).result ∧
      (c.runAll last count runs).coalescer = idle ∧
      ∀ admission ∈ (c.runAll last count runs).admissions, admission = .scheduled := by
  induction runs generalizing count with
  | nil =>
    have hrun : c.runAll last count [] = ⟨idle, count + 1, last, []⟩ := by
      simp only [runAll, finish_of_not_pending hpending]
    rw [hrun]
    refine ⟨0, rfl, ?_, rfl, rfl, rfl, ?_⟩
    · intro i hi
      omega
    · intro admission hadmission
      cases hadmission
  | cons current rest ih =>
    have hrequests : c.request current.requests =
        ({ c with isPending := current.requests != 0 }, List.replicate current.requests .scheduled) := by
      rw [request_of_running hrunning, hpending, Bool.false_or]
    by_cases hquiet : current.requests = 0
    · have hfinish : ({ c with isPending := current.requests != 0 } : Coalescer).finish = (idle, false) :=
        finish_of_not_pending (by simp [hquiet])
      have hrun : c.runAll last count (current :: rest) =
          ⟨idle, count + 1, current.result, List.replicate current.requests .scheduled⟩ := by
        simp only [runAll, hrequests, hfinish]
      rw [hrun]
      refine ⟨0, rfl, ?_, hquiet, rfl, rfl, by simp [hquiet]⟩
      intro i hi
      omega
    · -- the run that follows starts as this one did
      have hfinish : ({ c with isPending := current.requests != 0 } : Coalescer).finish = (c, true) := by
        rw [finish_of_pending (by simpa using hquiet), ← hpending]
      obtain ⟨n, hcount, hbusy, hlast, hresult, hidle, hadmissions⟩ := ih (count + 1)
      simp only [runAll, hrequests, hfinish]
      refine ⟨n + 1, by omega, ?_, hlast, hresult, hidle, ?_⟩
      · intro i hi
        cases i with
        | zero => exact hquiet
        | succ i => exact hbusy i (by omega)
      · intro admission hadmission
        rcases List.mem_append.mp hadmission with hmem | hmem
        · exact List.eq_of_mem_replicate hmem
        · exact hadmissions admission hmem

theorem runJob_of_idle (job : Job α) :
    ∃ runs n, idle.runJob job = (idle, some runs) ∧ runs.count = n + 1 ∧
      (∀ i < n, (job.nth i).requests ≠ 0) ∧ (job.nth n).requests = 0 ∧
      runs.result = (job.nth n).result ∧
      ∀ admission ∈ runs.admissions, admission = .scheduled := by
  let c : Coalescer := { idle with isRunning := true }
  obtain ⟨n, hcount, hbusy, hlast, hresult, hidle, hadmissions⟩ :=
    runAll_spec (c := c) rfl rfl job.last 0 job.runs
  refine ⟨c.runAll job.last 0 job.runs, n, ?_, by omega, hbusy, hlast, hresult, hadmissions⟩
  simp only [runJob, begin_of_not_running isRunning_idle]
  rw [hidle]

theorem runJob_of_running {c : Coalescer} (h : c.isRunning = true) (job : Job α) :
    c.runJob job = ({ c with isPending := true }, none) := by
  simp only [runJob, begin_of_running h]

end Job

/-- Whatever any number of clients call, in any order: at most one run is in progress; another one is
pending only while one is, and a request runs at once if none is; after a request that was scheduled a run
starts before the coalescer is idle again; and after a run its client performs another one exactly if there
were requests since its start, however many. A job that makes requests itself is run until the first run in
which it makes none, whose result is returned, and is not run at all while another run is in progress. -/
theorem requests_coalesced :
    (∀ (log : List (Event Client)) (s : Shared Client), Steps {} log s →
      s.performing.length ≤ 1 ∧
      (s.coalescer.isPending = true → s.coalescer.isRunning = true ∧ s.performing ≠ []) ∧
      (s.performing = [] → ∀ client admission later, Step s (.request client admission) later →
        admission = .run ∧ later.performing = [client])) ∧
    (∀ (before after : List (Event Client)) (client : Client) (s : Shared Client),
      Steps {} (before ++ .request client .scheduled :: after) s →
        s.coalescer.isRunning = false → ∃ e ∈ after, e.starts = true) ∧
    (∀ (before requests : List (Event Client)) (start : Event Client) (client : Client) (again : Bool)
        (s : Shared Client), start.starts = true → (∀ e ∈ requests, e.isRequest = true) →
      Steps {} (before ++ (start :: requests ++ [.finish client again])) s →
        client = start.client ∧ again = !requests.isEmpty) ∧
    (∀ (α : Type) (c : Coalescer) (job : Job α), (c.isPending = true → c.isRunning = true) →
      (c.isRunning = true → c.runJob job = ({ c with isPending := true }, none)) ∧
      (c.isRunning = false → ∃ runs n, c.runJob job = (idle, some runs) ∧ runs.count = n + 1 ∧
        (∀ i < n, (job.nth i).requests ≠ 0) ∧ (job.nth n).requests = 0 ∧
        runs.result = (job.nth n).result ∧
        ∀ admission ∈ runs.admissions, admission = .scheduled)) := by
  refine ⟨?_, ?_, ?_, ?_⟩
  · intro log s steps
    have hbalanced := balanced_of_steps steps
    refine ⟨hbalanced.length_le, ?_, ?_⟩
    · intro hpending
      have hrunning := hbalanced.running hpending
      refine ⟨hrunning, fun hnobody => ?_⟩
      rw [hbalanced.performing_eq_nil_iff.mp hnobody] at hrunning
      cases hrunning
    · intro hnobody client admission later step
      exact request_of_nobody hbalanced hnobody step
  · intro before after client s steps hidle
    exact start_after_scheduled Shared.balanced_start steps hidle
  · intro before requests start client again s hstart hrequests steps
    obtain ⟨middle, hbefore, hafter⟩ := steps.of_append
    exact finish_after_start (balanced_of_steps hbefore) hstart hrequests hafter
  · intro α c job hpending
    refine ⟨fun hrunning => runJob_of_running hrunning job, fun hidle => ?_⟩
    rw [eq_idle_iff.mpr ⟨hidle, not_pending hpending hidle⟩]
    exact runJob_of_idle job

/-- Two requests that are made while a client performs a run. -/
def meanwhile : List (Event Nat) := [.request 1 .scheduled, .request 2 .scheduled]

/-- They are served by one run of that client. -/
theorem requests_coalesced_meanwhile :
    Steps ({} : Shared Nat) (.request 0 .run :: meanwhile ++ [.finish 0 true, .finish 0 false]) {} ∧
      (∃ e ∈ [Event.request 2 .scheduled, .finish 0 true, .finish 0 false], e.starts = true) ∧
      true = !meanwhile.isEmpty := by
  have hfirst : Steps ({} : Shared Nat) ([] ++ (.request 0 .run :: meanwhile ++ [.finish 0 true]))
      ⟨{ isRunning := true }, [0]⟩ :=
    .cons (.request _ 0) (.cons (.request _ 1) (.cons (.request _ 2)
      (.cons (.finish List.mem_cons_self) (.nil _))))
  have hlog : Steps ({} : Shared Nat)
      ([.request 0 .run] ++ .request 1 .scheduled ::
        [.request 2 .scheduled, .finish 0 true, .finish 0 false]) {} :=
    .cons (.request _ 0) (.cons (.request _ 1) (.cons (.request _ 2)
      (.cons (.finish List.mem_cons_self) (.cons (.finish List.mem_cons_self) (.nil _)))))
  obtain ⟨-, hserved, hfollowed, -⟩ := @requests_coalesced Nat _
  refine ⟨hlog, hserved _ _ _ _ hlog rfl, (hfollowed [] meanwhile _ 0 true _ rfl ?_ hfirst).2⟩
  intro e he
  simp only [meanwhile, List.mem_cons, List.not_mem_nil, or_false] at he
  rcases he with rfl | rfl <;> rfl

end KeywordIndex.Coalescer
