import KeywordIndex.Shell.Evaluation
import Mathlib.Data.List.Basic

namespace KeywordIndex.Shell

/-! # Channels and copies of scripts

Scripts that run side by side meet in the channels of the world alone.

* What one transfer does to a pipe (`Transfer.conserves`) is done by any number of them: what is read from a
  pipe is what was written to it, in order, and the rest waits (`conserves_run`). So what a program writes
  arrives as it is written (`holds_runJob`).
* A copy of a script gives back the world and its status (`sameScript_inSubshell`), and so do all copies that
  are run in a pipeline (`sameScript_runPipeline`).
* A sequence is run by running one part of it behind another, until the script is left
  (`runCommand_sequence_append`).
-/

/-! ## Pipes -/

namespace World

/-- The channel is a pipe in which the text waits. -/
def Holds (w : World) (number : Nat) (cs : List Char) : Prop :=
  ∃ content pieces, w.channels[number]? = some (.pipe content pieces) ∧
    cs = content ++ pieces.reverse.flatten

variable {w : World} {number other : Nat} {cs more : List Char}

theorem Holds.waiting (h : w.Holds number cs) : w.waiting number = cs := by
  obtain ⟨content, pieces, hchannel, rfl⟩ := h
  simp only [World.waiting, hchannel]

/-- Whether a channel holds a text depends on that channel alone. -/
theorem Holds.congr {later : World} (h : w.Holds number cs)
    (hchannel : later.channels[number]? = w.channels[number]?) : later.Holds number cs := by
  unfold Holds
  rwa [hchannel]

theorem channels_write (hother : other ≠ number) :
    (w.write other more).channels[number]? = w.channels[number]? := by
  unfold write
  split
  · rw [Array.getElem?_modify, if_neg hother]
  · split
    · rfl
    · split
      · rw [Array.getElem?_modify, if_neg hother]
      · rfl
  · rfl

theorem channels_advance (hother : other ≠ number) (count : Nat) :
    (w.advance other count).channels[number]? = w.channels[number]? := by
  unfold advance
  split
  · rw [Array.getElem?_modify, if_neg hother]
  · rw [Array.getElem?_modify, if_neg hother]
  · rfl

theorem Holds.write (h : w.Holds number cs) (more : List Char) :
    (w.write number more).Holds number (cs ++ more) := by
  obtain ⟨content, pieces, hchannel, rfl⟩ := h
  refine ⟨content, more :: pieces, ?_, by simp⟩
  simp only [World.write, hchannel, Array.getElem?_modify, if_true, Option.map_some]

theorem Holds.advance (h : w.Holds number cs) (count : Nat) :
    (w.advance number count).Holds number (cs.drop count) := by
  have hwaiting := h.waiting
  obtain ⟨content, pieces, hchannel, -⟩ := h
  refine ⟨cs.drop count, [], ?_, by simp⟩
  simp only [World.advance, hchannel, hwaiting, Array.getElem?_modify, if_true, Option.map_some]

end World

/-- What is done to a channel. -/
inductive Transfer where
  | write (channel : Nat) (cs : List Char)
  | read (channel count : Nat)

namespace Transfer

variable (number : Nat)

/-- The world after a transfer. -/
def apply (w : World) : Transfer → World
  | write channel cs => w.write channel cs
  | read channel count => w.advance channel count

/-- What is written to a channel. -/
def written : Transfer → List Char
  | write channel cs => if channel = number then cs else []
  | read _ _ => []

/-- What is read from a channel. -/
def taken (w : World) : Transfer → List Char
  | write _ _ => []
  | read channel count => if channel = number then (w.waiting number).take count else []

/-- What some transfers read from a channel, one after another. -/
def takenAll : World → List Transfer → List Char
  | _, [] => []
  | w, t :: rest => t.taken number w ++ takenAll (t.apply w) rest

variable {number} {w : World} {cs : List Char}

/-- A transfer neither loses anything in a pipe nor adds anything to it but what is written. -/
theorem conserves (h : w.Holds number cs) (t : Transfer) :
    ∃ rest, (t.apply w).Holds number rest ∧ t.taken number w ++ rest = cs ++ t.written number := by
  cases t with
  | write channel more =>
    by_cases hchannel : channel = number
    · subst hchannel
      exact ⟨cs ++ more, h.write more, by simp [taken, written]⟩
    · exact ⟨cs, h.congr (World.channels_write hchannel), by simp [taken, written, hchannel]⟩
  | read channel count =>
    by_cases hchannel : channel = number
    · subst hchannel
      refine ⟨cs.drop count, h.advance count, ?_⟩
      simp [taken, written, h.waiting]
    · exact ⟨cs, h.congr (World.channels_advance hchannel count), by simp [taken, written, hchannel]⟩

/-- What is read from a pipe, and then what waits in it, is what waited at first and what was written to it,
in order. -/
theorem conserves_run (h : w.Holds number cs) (ts : List Transfer) :
    ∃ rest, (ts.foldl apply w).Holds number rest ∧
      takenAll number w ts ++ rest = cs ++ ts.flatMap (·.written number) := by
  induction ts generalizing w cs with
  | nil => exact ⟨cs, h, by simp [takenAll]⟩
  | cons t rest ih =>
    obtain ⟨middle, hmiddle, hstep⟩ := conserves h t
    obtain ⟨last, hlast, hrun⟩ := ih hmiddle
    refine ⟨last, hlast, ?_⟩
    rw [takenAll, List.append_assoc, hrun, ← List.append_assoc, hstep, List.append_assoc, List.flatMap_cons]

end Transfer

/-! ## Programs -/

namespace Session

variable {s : Session} {number : Nat} {cs : List Char}

theorem channel?_write (s : Session) (descriptor other : Nat) (more : List Char) :
    (s.write descriptor more).channel? other = s.channel? other := by
  unfold write
  split
  · rfl
  · split <;> rfl

theorem channel?_advance (s : Session) (descriptor count other : Nat) :
    (s.advance descriptor count).channel? other = s.channel? other := by
  unfold advance
  split <;> rfl

/-- What is written to a descriptor goes to the channel that it leads to. -/
theorem holds_write (h : s.world.Holds number cs) (descriptor : Nat) (more : List Char) :
    (s.write descriptor more).world.Holds number
      (cs ++ if s.channel? descriptor = some number then more else []) := by
  unfold write channel?
  cases hlookup : s.descriptors.lookup descriptor with
  | none =>
    simp only [reduceCtorEq, if_false, List.append_nil]
    split <;> exact h
  | some channel =>
    by_cases hchannel : channel = number
    · subst hchannel
      simpa using h.write more
    · simpa [hchannel] using h.congr (World.channels_write hchannel)

/-- What is read from a descriptor is taken from no other channel. -/
theorem holds_advance (h : s.world.Holds number cs) {descriptor : Nat}
    (hother : s.channel? descriptor ≠ some number) (count : Nat) :
    (s.advance descriptor count).world.Holds number cs := by
  unfold advance
  split
  · next channel hlookup =>
    refine h.congr (World.channels_advance (fun hchannel => hother ?_) count)
    rw [channel?, hlookup, hchannel]
  · exact h

/-- What is written to the descriptors arrives in a pipe in the order of the writes that lead to it. -/
theorem holds_foldl_write (h : s.world.Holds number cs) (writes : List (Nat × List Char)) :
    (writes.foldl (fun s (descriptor, cs) => s.write descriptor cs) s).world.Holds number
      (cs ++ (writes.filter fun write => s.channel? write.1 = some number).flatMap (·.2)) := by
  induction writes generalizing s cs with
  | nil => simpa using h
  | cons write rest ih =>
    obtain ⟨descriptor, more⟩ := write
    have hrest := ih (holds_write h descriptor more)
    simp only [channel?_write] at hrest
    rw [List.foldl_cons, List.filter_cons]
    by_cases hleads : s.channel? descriptor = some number
    · rw [if_pos hleads] at hrest
      rw [if_pos (decide_eq_true hleads), List.flatMap_cons, ← List.append_assoc]
      exact hrest
    · rw [if_neg hleads, List.append_nil] at hrest
      rwa [if_neg (by simpa using hleads)]

/-- What a program writes to the descriptors that lead to a pipe arrives there as it was written, if the
program does not read from that pipe itself. -/
theorem holds_runJob (h : s.world.Holds number cs) (hinput : s.channel? 0 ≠ some number) (program : Program)
    (name : List Char) (arguments : List (List Char)) :
    let job := Job.run program (s.jobOf name arguments)
    (s.runJob program name arguments).world.Holds number
      (cs ++ (job.writes.reverse.filter fun write => s.channel? write.1 = some number).flatMap (·.2)) := by
  intro job
  let changed : Session := { s with world := { s.world with disk := job.disk } }
  have hchanged : changed.world.Holds number cs := h.congr rfl
  let after := if job.inputRead then changed.advance 0 job.input.length else changed
  have hafter : after.world.Holds number cs ∧
      ∀ descriptor, after.channel? descriptor = s.channel? descriptor := by
    by_cases hread : job.inputRead = true
    · rw [show after = changed.advance 0 job.input.length from if_pos hread]
      exact ⟨holds_advance hchanged hinput _, channel?_advance changed 0 _⟩
    · rw [show after = changed from if_neg hread]
      exact ⟨hchanged, fun _ => rfl⟩
  have hwritten := holds_foldl_write hafter.1 job.writes.reverse
  simp only [hafter.2] at hwritten
  exact hwritten

/-! ## Copies of a script -/

/-- The script as it was, but for the world, its status and how it goes on. -/
def SameScript (s later : Session) : Prop :=
  later = { s with world := later.world, status := later.status, flow := later.flow }

theorem SameScript.trans {later last : Session} (h : SameScript s later) (hlast : SameScript later last) :
    SameScript s last := by
  unfold SameScript at h hlast ⊢
  rw [hlast, h]

/-- Whatever a copy of a script does, the script itself keeps. -/
theorem sameScript_inSubshell (inner : Evaluator) (s : Session) (body : Session → Session) :
    SameScript s (inSubshell inner s body) ∧ (inSubshell inner s body).status < 256 := by
  unfold inSubshell
  simp only
  split
  · exact ⟨rfl, Nat.mod_lt _ (by decide)⟩
  · exact ⟨rfl, Nat.mod_lt _ (by decide)⟩

/-- The commands of a pipeline, each run by a copy of the script, leave the script as it was. -/
theorem sameScript_runPipeline (inner : Evaluator) (commands : List Command) (s : Session) :
    SameScript s (runPipeline inner commands s) ∧
      (commands ≠ [] → (runPipeline inner commands s).status < 256) := by
  have general : ∀ input, SameScript s (runPipeline.go inner input commands s) ∧
      (commands ≠ [] → (runPipeline.go inner input commands s).status < 256) := by
    induction commands generalizing s with
    | nil => exact fun input => ⟨rfl, fun hne => absurd rfl hne⟩
    | cons command rest ih =>
      intro input
      by_cases hlast : rest = []
      · subst hlast
        rw [runPipeline.go, if_pos List.isEmpty_nil]
        exact (sameScript_inSubshell inner s _).imp_right fun hstatus _ => hstatus
      · -- the pipe to the next command is new in the world
        let fresh : Session := { s with world := (s.world.addChannel (.pipe [] [])).2 }
        obtain ⟨body, hbody⟩ : ∃ body, runPipeline.go inner input (command :: rest) s =
            let after := inSubshell inner fresh body
            if after.isGoing then
              runPipeline.go inner (some (s.world.addChannel (.pipe [] [])).1) rest after
            else after :=
          ⟨_, by rw [runPipeline.go, if_neg (by simpa using hlast)]⟩
        have hcopy : SameScript s (inSubshell inner fresh body) := (sameScript_inSubshell inner fresh body).1
        rw [hbody]
        simp only
        split
        · obtain ⟨hsame, hstatus⟩ := ih (inSubshell inner fresh body) _
          exact ⟨hcopy.trans hsame, fun _ => hstatus hlast⟩
        · exact ⟨hcopy, fun _ => (sameScript_inSubshell inner fresh body).2⟩
  exact general none

/-! ## Sequences -/

/-- Nothing is run in a script that was left. -/
theorem runCommand_sequence_of_left (inner : Evaluator) (tested : Bool) (hleft : s.isGoing = false)
    (commands : List Command) : runCommand inner tested (.sequence commands) s = s := by
  simp only [runCommand]
  induction commands with
  | nil => rfl
  | cons command rest ih => rw [List.foldl_cons, hleft, if_neg Bool.false_ne_true, ih]

/-- A sequence goes on behind its first part, if that has not left the script. -/
theorem runCommand_sequence_append (inner : Evaluator) (tested : Bool) (first second : List Command)
    (s : Session) :
    runCommand inner tested (.sequence (first ++ second)) s =
      let middle := runCommand inner tested (.sequence first) s
      if middle.isGoing then runCommand inner tested (.sequence second) middle else middle := by
  have hboth : runCommand inner tested (.sequence (first ++ second)) s =
      runCommand inner tested (.sequence second) (runCommand inner tested (.sequence first) s) := by
    simp only [runCommand, List.foldl_append]
  rw [hboth]
  simp only
  split
  · rfl
  · next hleft => exact runCommand_sequence_of_left inner tested (by simpa using hleft) second

end Session

end KeywordIndex.Shell
