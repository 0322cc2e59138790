import Ccp.Lib.Run
import Ccp.Uuid

namespace Ccp.Worker.ClamScan

open Lib

-- A "virus check" event of a file, its outcome Pass or Fail.
structure Event where
  file : UUID
  passed : Bool
deriving DecidableEq

-- What the row of the file says of its size.
inductive RowSize
  | missing
  | raised
  | found (size : Option Nat)
deriving DecidableEq

inductive Verdict
  | raised
  | result (passed : Option Bool)
deriving DecidableEq

-- The client of the antivirus: its version is asked for before the scan and again
-- for the event.
structure Scanner where
  versionRaises : Bool
  verdict : Verdict
  eventRaises : Bool
deriving DecidableEq

-- What one call of scan_file is given and meets. The file is none for "None", the
-- scanner where none can be set up.
structure Scan where
  file : Option UUID
  lookupRaises : Bool
  rowSize : RowSize
  pathSize : Option Nat
  maxFileSize : Nat
  maxScanSize : Nat
  scanner : Option Scanner
deriving DecidableEq

-- get_size; it only raises where the row is looked for.
def Scan.size (s : Scan) : Except Unit (Option Nat) :=
  if s.file = none then .ok s.pathSize
  else
    match s.rowSize with
    | .missing => .ok s.pathSize
    | .raised => .error ()
    | .found size => .ok size

-- What the try block leaves behind: whether it has returned 1, and the variables
-- passed and scanner.
structure Attempt where
  failed : Bool
  passed : Option Bool
  scanner : Option Scanner
deriving DecidableEq

def Scan.validScan (s : Scan) (size : Nat) : Bool :=
  size ≤ s.maxFileSize * 1024 * 1024 ∧ size ≤ s.maxScanSize * 1024 * 1024

def Scan.attempt (s : Scan) : Attempt :=
  match s.size with
  | .error _ => ⟨true, some false, none⟩
  | .ok none => ⟨true, some false, none⟩
  | .ok (some size) =>
      if s.validScan size then
        match s.scanner with
        | none => ⟨true, some false, none⟩
        | some scanner =>
            if scanner.versionRaises then ⟨true, some false, some scanner⟩
            else
              match scanner.verdict with
              | .raised => ⟨true, some false, some scanner⟩
              | .result passed => ⟨false, passed, some scanner⟩
      else ⟨false, none, none⟩

-- The event that is added to the queue, no result where its text cannot be made.
def queueEvent (file : Option UUID) (scanner : Option Scanner) (passed : Option Bool) :
    Option (List Event) :=
  match passed, file with
  | some passed, some file =>
      if scanner.any (·.eventRaises) then none else some [⟨file, passed⟩]
  | _, _ => some []

def fileAlreadyScanned (recorded : List Event) (file : Option UUID) : Bool :=
  file.any fun file => recorded.any (·.file = file)

-- The exit code, 1 for an exception, and the events for the queue.
def scanFile (recorded : List Event) (s : Scan) : Nat × List Event :=
  if s.file ≠ none ∧ s.lookupRaises then (1, [])
  else if fileAlreadyScanned recorded s.file then (0, [])
  else
    match queueEvent s.file s.attempt.scanner s.attempt.passed with
    | none => (1, [])
    | some events => (if s.attempt.failed ∨ s.attempt.passed = some false then 1 else 0, events)

-- A call that has ended, with the events that were recorded then.
structure Call where
  file : Option UUID
  code : Nat
  recorded : List Event
deriving DecidableEq

structure State where
  recorded : List Event
  -- the events of the batches that are not over
  queue : Nat → List Event
  calls : List Call

inductive Action
  | scan (batch : Nat) (s : Scan)
  -- the transaction at the end of a batch
  | insert (batch : Nat) (stored : Bool)

def setQueue (queue : Nat → List Event) (batch : Nat) (events : List Event) : Nat → List Event :=
  fun b => if b = batch then events else queue b

def step (st : State) : Action → Option State
  | .scan batch s =>
      let scanned := scanFile st.recorded s
      some
        { st with
          queue := setQueue st.queue batch (st.queue batch ++ scanned.2)
          calls := st.calls ++ [⟨s.file, scanned.1, st.recorded⟩] }
  | .insert batch stored =>
      some
        { st with
          recorded := if stored then st.recorded ++ st.queue batch else st.recorded
          queue := setQueue st.queue batch [] }

def start (recorded : List Event) : State := ⟨recorded, fun _ => [], []⟩

-- A call that ends with 0 has no Fail of its file on record.
def Honest (st : State) : Prop :=
  ∀ c ∈ st.calls, c.code = 0 → ∀ file, c.file = some file → ⟨file, false⟩ ∉ c.recorded

-- A file with a Fail on record is not looked at again.
def Unfailed (st : State) : Action → Prop
  | .scan _ s => ∀ file, s.file = some file → ⟨file, false⟩ ∈ st.recorded → s.lookupRaises
  | .insert _ _ => True

theorem scanFile_of_recorded {recorded : List Event} {s : Scan} {file : UUID}
    (hfile : s.file = some file) {passed : Bool} (h : ⟨file, passed⟩ ∈ recorded) :
    (scanFile recorded s).1 = if s.lookupRaises then 1 else 0 := by
  have hscanned : fileAlreadyScanned recorded s.file = true := by
    rw [hfile]
    exact List.any_eq_true.mpr ⟨_, h, by simp⟩
  unfold scanFile
  rw [hscanned, hfile]
  cases s.lookupRaises <;> rfl

theorem honest_step_iff {st next : State} {action : Action} (h : Honest st)
    (hstep : step st action = some next) : Honest next ↔ Unfailed st action := by
  cases action with
  | insert batch stored =>
      obtain rfl := Option.some.inj hstep
      exact ⟨fun _ => trivial, fun _ => h⟩
  | scan batch s =>
      obtain rfl := Option.some.inj hstep
      constructor
      · intro hnext file hfile hfail
        by_contra hraises
        have hcode : (scanFile st.recorded s).1 = 0 := by
          rw [scanFile_of_recorded hfile hfail, if_neg hraises]
        exact hnext _ (List.mem_append_right _ (List.mem_singleton_self _)) hcode file hfile hfail
      · intro hunfailed c hc hcode file hfile
        rcases List.mem_append.mp hc with hc | hc
        · exact h c hc hcode file hfile
        · obtain rfl := List.mem_singleton.mp hc
          intro hfail
          have hraises := hunfailed file hfile hfail
          have hcode' := scanFile_of_recorded hfile hfail
          rw [if_pos hraises] at hcode'
          exact absurd (hcode.symm.trans hcode') (by decide)

-- A Fail for the queue is of the file of the call, and the call ends with 1.
theorem code_of_mem_scanFile {recorded : List Event} {s : Scan} {e : Event}
    (h : e ∈ (scanFile recorded s).2) (hfail : e.passed = false) :
    s.file = some e.file ∧ (scanFile recorded s).1 = 1 := by
  by_cases hlookup : s.file ≠ none ∧ s.lookupRaises
  · rw [scanFile, if_pos hlookup] at h
    cases h
  by_cases hscanned : fileAlreadyScanned recorded s.file
  · rw [scanFile, if_neg hlookup, if_pos hscanned] at h
    cases h
  rw [scanFile, if_neg hlookup, if_neg hscanned] at h ⊢
  cases hqueue : queueEvent s.file s.attempt.scanner s.attempt.passed with
  | none =>
      rw [hqueue] at h
      cases h
  | some events =>
      simp only [hqueue] at h ⊢
      unfold queueEvent at hqueue
      split at hqueue
      · next passed file hpassed hfile =>
          split_ifs at hqueue
          obtain rfl := Option.some.inj hqueue
          obtain rfl := List.mem_singleton.mp h
          have hfalse : passed = false := hfail
          rw [hpassed, hfalse]
          exact ⟨hfile, if_pos (Or.inr rfl)⟩
      · obtain rfl := Option.some.inj hqueue
        cases h

-- The Fail events, on record or in a queue, are those of calls that ended with 1.
def Known (st : State) : Prop :=
  ∀ e, e ∈ st.recorded ∨ (∃ batch, e ∈ st.queue batch) → e.passed = false →
    ∃ c ∈ st.calls, c.file = some e.file ∧ c.code = 1

theorem mem_setQueue {queue : Nat → List Event} {batch b : Nat} {events : List Event} {e : Event}
    (h : e ∈ setQueue queue batch events b) : e ∈ events ∨ e ∈ queue b := by
  unfold setQueue at h
  split_ifs at h
  · exact Or.inl h
  · exact Or.inr h

theorem known_step {st next : State} {action : Action} (h : Known st)
    (hstep : step st action = some next) : Known next := by
  cases action with
  | insert batch stored =>
      obtain rfl := Option.some.inj hstep
      intro e he hfail
      refine h e ?_ hfail
      rcases he with he | ⟨b, he⟩
      · dsimp only at he
        split_ifs at he
        · rcases List.mem_append.mp he with he | he
          · exact Or.inl he
          · exact Or.inr ⟨batch, he⟩
        · exact Or.inl he
      · rcases mem_setQueue he with he | he
        · cases he
        · exact Or.inr ⟨b, he⟩
  | scan batch s =>
      obtain rfl := Option.some.inj hstep
      intro e he hfail
      have hold : e ∈ st.recorded ∨ (∃ b, e ∈ st.queue b) ∨ e ∈ (scanFile st.recorded s).2 := by
        rcases he with he | ⟨b, he⟩
        · exact Or.inl he
        · rcases mem_setQueue he with he | he
          · rcases List.mem_append.mp he with he | he
            · exact Or.inr (Or.inl ⟨batch, he⟩)
            · exact Or.inr (Or.inr he)
          · exact Or.inr (Or.inl ⟨b, he⟩)
      rcases or_assoc.mpr hold with hold | hnew
      · obtain ⟨c, hc, hfile, hcode⟩ := h e hold hfail
        exact ⟨c, List.mem_append_left _ hc, hfile, hcode⟩
      · obtain ⟨hfile, hcode⟩ := code_of_mem_scanFile hnew hfail
        exact ⟨_, List.mem_append_right _ (List.mem_singleton_self _), hfile, hcode⟩

-- What a file has on record against it, some call of the run has found.
theorem failed_call_of_recorded {actions : List Action} {st : State}
    (h : run step (start []) actions = some st) {file : UUID} (hfail : ⟨file, false⟩ ∈ st.recorded) :
    ∃ c ∈ st.calls, c.file = some file ∧ c.code = 1 := by
  have hstart : Known (start []) := by
    rintro e (he | ⟨b, he⟩)
    · cases he
    · cases he
  exact run_invariant step Known (fun _ _ _ => known_step) hstart h ⟨file, false⟩ (Or.inl hfail) rfl

-- The calls of a run are honest exactly as long as no file with a Fail on record is
-- scanned again.
theorem always_honest_iff (recorded : List Event) (actions : List Action) :
    Always step Honest (start recorded) actions ↔ Meets step Unfailed (start recorded) actions := by
  refine always_iff_meets step (fun _ => True) Honest Unfailed (fun _ _ _ _ _ => trivial) ?_
    actions trivial ?_
  · intro st action next _ hhonest hstep
    exact honest_step_iff hhonest hstep
  · intro c hc
    cases hc

def infected : Scan where
  file := some ⟨0x7⟩
  lookupRaises := false
  rowSize := .found (some 1024)
  pathSize := some 1024
  maxFileSize := 42
  maxScanSize := 42
  scanner := some ⟨false, .result (some false), false⟩

-- An infected file that is scanned a second time.
theorem not_always_honest :
    ¬ Always step Honest (start []) [.scan 0 infected, .insert 0 true, .scan 1 infected] := by
  rw [always_iff_run]
  intro h
  obtain ⟨st, hrun⟩ : ∃ st, run step (start [])
      [.scan 0 infected, .insert 0 true, .scan 1 infected] = some st := ⟨_, rfl⟩
  have hhonest := h _ [] st (List.append_nil _).symm hrun
  have hcalls : st.calls = [⟨some ⟨0x7⟩, 1, []⟩, ⟨some ⟨0x7⟩, 0, [⟨⟨0x7⟩, false⟩]⟩] := by
    obtain rfl := Option.some.inj hrun
    decide
  exact hhonest ⟨some ⟨0x7⟩, 0, [⟨⟨0x7⟩, false⟩]⟩ (by rw [hcalls]; simp) rfl ⟨0x7⟩ rfl (by simp)

end Ccp.Worker.ClamScan
