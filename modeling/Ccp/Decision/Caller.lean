import Ccp.Decision.Theorems
import Ccp.Lib.Calls
import Ccp.Package

namespace Ccp.Decision

open Lib Lib.Calls

-- The parts of a decision that change: its lock, its flag and its channel.
structure Cell where
  readers : Nat
  writer : Bool
  resolved : Bool
  res : Option Int
deriving DecidableEq

-- A call that nobody else gets in the way of either returns or waits for ever.
inductive Stop
  | blocked
deriving DecidableEq

abbrev CallM := EStateM Stop Cell

def rLock : CallM Unit := fun c =>
  if c.writer then .error .blocked c else .ok () { c with readers := c.readers + 1 }

def rUnlock : CallM Unit := modify fun c => { c with readers := c.readers - 1 }

def lock : CallM Unit := fun c =>
  if c.writer ∨ c.readers ≠ 0 then .error .blocked c else .ok () { c with writer := true }

def unlock : CallM Unit := modify fun c => { c with writer := false }

def send (pos : Int) : CallM Unit := fun c =>
  match c.res with
  | none => .ok () { c with res := some pos }
  | some _ => .error .blocked c

def setResolved : CallM Unit := modify fun c => { c with resolved := true }

-- Once the lock is held.
def sendPos (pos : Int) : CallM (Option String) := do
  send pos
  setResolved
  unlock
  return none

-- By the flag of the decision: the error return keeps the read lock.
def tested (x : CallM (Option String)) : Bool → CallM (Option String)
  | true => pure (some "decision is not pending resolution")
  | false => do
      rUnlock
      lock
      x

def whenPending (x : CallM (Option String)) : CallM (Option String) := do
  rLock
  tested x (← get).resolved

def resolveWithPos (pos : Int) : CallM (Option String) := whenPending (sendPos pos)

-- So does the one for a text that names no choice, of the write lock.
def resolveWithChoice (choices : List Choice) (choice : Str) : CallM (Option String) :=
  whenPending
    (match matchChoice choices choice with
    | none => pure (some "position unmatched")
    | some pos => sendPos pos)

def resolve (choices : List Choice) : Arg → CallM (Option String)
  | .pos p => resolveWithPos p
  | .choice c => resolveWithChoice choices c

-- The decision as the API shows it, its choices with their position.
structure Message where
  id : Str
  name : Str
  choice : List (Int × Str)
  packageId : Str
  packagePath : Str
  packageType : Str
  jobId : Str
deriving DecidableEq

-- int32 of a Go int.
def int32 (n : Int) : Int := n.bmod 4294967296

def convert (d : Decision) (pkg : Package) : CallM Message := do
  rLock
  let ret : Message :=
    { id := d.id.string
      name := d.name
      choice := d.choices.zipIdx.map fun item => (int32 item.2, item.1.label)
      packageId := pkg.id.string
      packagePath := pkg.pathForDB
      packageType := pkg.packageType.string
      jobId := d.jobID.string }
  rUnlock
  return ret

-- The call that is in the state of the machine, for a caller that is alone.
def State.cell (s : State) : Cell := ⟨s.readers, s.writer.isSome, s.resolved, s.res⟩

section Calls

variable {c c' : Cell} {choices : List Choice}

theorem rLock_ok_iff {u : Unit} :
    rLock c = .ok u c' ↔ c.writer = false ∧ c' = { c with readers := c.readers + 1 } := by
  unfold rLock
  cases c.writer <;> simp [eq_comm]

theorem lock_ok_iff {u : Unit} :
    lock c = .ok u c' ↔ c.writer = false ∧ c.readers = 0 ∧ c' = { c with writer := true } := by
  unfold lock
  split_ifs with h
  · simp only [false_iff]
    rintro ⟨hwriter, hreaders, -⟩
    simp [hwriter, hreaders] at h
  · simp only [not_or, Bool.not_eq_true, not_not] at h
    simp [h, eq_comm]

theorem send_ok_iff {pos : Int} {u : Unit} :
    send pos c = .ok u c' ↔ c.res = none ∧ c' = { c with res := some pos } := by
  unfold send
  cases hres : c.res with
  | none => simp [eq_comm]
  | some p => simp

theorem sendPos_ok_iff {pos : Int} {err : Option String} :
    sendPos pos c = .ok err c' ↔
      err = none ∧ c.res = none ∧ c' = { c with writer := false, resolved := true, res := some pos } := by
  simp only [sendPos, setResolved, unlock, bind_ok_iff, send_ok_iff, modify_ok_iff, pure_ok_iff]
  constructor
  · rintro ⟨_, _, ⟨hres, rfl⟩, _, _, rfl, _, _, rfl, rfl, rfl⟩
    exact ⟨rfl, hres, rfl⟩
  · rintro ⟨rfl, hres, rfl⟩
    exact ⟨(), _, ⟨hres, rfl⟩, (), _, rfl, (), _, rfl, rfl, rfl⟩

-- What a call alone can do: it is refused, or it gets the lock and goes on.
theorem whenPending_ok_iff {x : CallM (Option String)} {err : Option String} :
    whenPending x c = .ok err c' ↔ c.writer = false ∧
      (c.resolved = true ∧ err = some "decision is not pending resolution" ∧
          c' = { c with readers := c.readers + 1 } ∨
        c.resolved = false ∧ c.readers = 0 ∧ x { c with writer := true } = .ok err c') := by
  obtain ⟨readers, writer, resolved, res⟩ := c
  simp only [whenPending, bind_ok_iff, rLock_ok_iff, get_ok_iff]
  cases resolved with
  | true =>
      constructor
      · rintro ⟨_, _, ⟨hwriter, rfl⟩, _, _, ⟨rfl, rfl⟩, h⟩
        obtain ⟨rfl, rfl⟩ := pure_ok_iff.mp h
        exact ⟨hwriter, Or.inl ⟨rfl, rfl, rfl⟩⟩
      · rintro ⟨hwriter, ⟨-, rfl, rfl⟩ | ⟨h, -⟩⟩
        · exact ⟨(), _, ⟨hwriter, rfl⟩, _, _, ⟨rfl, rfl⟩, rfl⟩
        · cases h
  | false =>
      constructor
      · rintro ⟨_, _, ⟨hwriter, rfl⟩, _, _, ⟨rfl, rfl⟩, h⟩
        simp only [tested, rUnlock, bind_ok_iff, modify_ok_iff, lock_ok_iff] at h
        obtain ⟨_, _, rfl, _, _, ⟨-, hreaders, rfl⟩, h⟩ := h
        exact ⟨hwriter, Or.inr ⟨rfl, hreaders, h⟩⟩
      · rintro ⟨hwriter, ⟨h, -⟩ | ⟨-, hreaders, h⟩⟩
        · cases h
        · obtain rfl : writer = false := hwriter
          obtain rfl : readers = 0 := hreaders
          have hlock : (lock >>= fun _ => x) ⟨0, false, false, res⟩ = .ok err c' :=
            bind_ok_iff.mpr ⟨(), _, lock_ok_iff.mpr ⟨rfl, rfl, rfl⟩, h⟩
          exact ⟨(), _, ⟨rfl, rfl⟩, _, _, ⟨rfl, rfl⟩,
            bind_ok_iff.mpr ⟨(), _, modify_ok_iff.mpr rfl, hlock⟩⟩

theorem resolve_ok_iff {arg : Arg} {err : Option String} :
    resolve choices arg c = .ok err c' ↔ c.writer = false ∧
      (c.resolved = true ∧ err = some "decision is not pending resolution" ∧
          c' = { c with readers := c.readers + 1 } ∨
        c.resolved = false ∧ c.readers = 0 ∧
          (namedPos choices arg = none ∧ err = some "position unmatched" ∧
              c' = { c with writer := true } ∨
            c.res = none ∧ ∃ pos, namedPos choices arg = some pos ∧ err = none ∧
              c' = { c with resolved := true, res := some pos })) := by
  obtain ⟨readers, writer, resolved, res⟩ := c
  cases arg with
  | pos p =>
      simp only [resolve, resolveWithPos, whenPending_ok_iff, sendPos_ok_iff, namedPos]
      constructor
      · rintro ⟨rfl, h | ⟨hres, hreaders, rfl, hroom, rfl⟩⟩
        · exact ⟨rfl, Or.inl h⟩
        · exact ⟨rfl, Or.inr ⟨hres, hreaders, Or.inr ⟨hroom, p, rfl, rfl, rfl⟩⟩⟩
      · rintro ⟨rfl, h | ⟨hres, hreaders, ⟨h, -⟩ | ⟨hroom, _, ⟨⟩, rfl, rfl⟩⟩⟩
        · exact ⟨rfl, Or.inl h⟩
        · cases h
        · exact ⟨rfl, Or.inr ⟨hres, hreaders, rfl, hroom, rfl⟩⟩
  | choice text =>
      simp only [resolve, resolveWithChoice, whenPending_ok_iff, namedPos]
      cases hmatch : matchChoice choices text with
      | none =>
          constructor
          · rintro ⟨rfl, h | ⟨hres, hreaders, h⟩⟩
            · exact ⟨rfl, Or.inl h⟩
            · obtain ⟨rfl, rfl⟩ := pure_ok_iff.mp h
              exact ⟨rfl, Or.inr ⟨hres, hreaders, Or.inl ⟨rfl, rfl, rfl⟩⟩⟩
          · rintro ⟨rfl, h | ⟨hres, hreaders, ⟨-, rfl, rfl⟩ | ⟨-, _, ⟨⟩, -⟩⟩⟩
            · exact ⟨rfl, Or.inl h⟩
            · exact ⟨rfl, Or.inr ⟨hres, hreaders, rfl⟩⟩
      | some i =>
          simp only [sendPos_ok_iff]
          constructor
          · rintro ⟨rfl, h | ⟨hres, hreaders, rfl, hroom, rfl⟩⟩
            · exact ⟨rfl, Or.inl h⟩
            · exact ⟨rfl, Or.inr ⟨hres, hreaders, Or.inr ⟨hroom, i, rfl, rfl, rfl⟩⟩⟩
          · rintro ⟨rfl, h | ⟨hres, hreaders, ⟨h, -⟩ | ⟨hroom, _, ⟨⟩, rfl, rfl⟩⟩⟩
            · exact ⟨rfl, Or.inl h⟩
            · cases h
            · exact ⟨rfl, Or.inr ⟨hres, hreaders, rfl, hroom, rfl⟩⟩

theorem convert_ok_iff {d : Decision} {pkg : Package} :
    (∃ m c', convert d pkg c = .ok m c') ↔ c.writer = false := by
  simp only [convert, rUnlock, bind_ok_iff, rLock_ok_iff, modify_ok_iff, pure_ok_iff]
  constructor
  · rintro ⟨_, _, _, _, ⟨hwriter, -⟩, -⟩
    exact hwriter
  · intro hwriter
    exact ⟨_, _, (), _, ⟨hwriter, rfl⟩, (), _, rfl, rfl, rfl⟩

end Calls

section Machine

variable {s : State} {n : Nat} {arg : Arg} {choices : List Choice}

-- The steps of one call of the machine, without those of other calls.
def Event.own (n : Nat) : Event → Bool
  | .call m _ => m = n
  | .check m => m = n
  | .lock m => m = n
  | .write m => m = n
  | _ => false

-- A call that is alone does what the machine lets it do with no other call between
-- its steps.
theorem machine_of_resolve {err : Option String} {c : Cell} (hnew : s.calls n = none)
    (h : resolve choices arg s.cell = .ok err c) :
    ∃ es next, (∀ e ∈ es, Event.own n e) ∧ run (step choices) s es = some next ∧
      next.calls n = some ⟨arg, .returned err⟩ ∧ next.cell = c := by
  obtain ⟨hwriter, h⟩ := resolve_ok_iff.mp h
  have hfree : s.writer = none := by simpa [State.cell] using hwriter
  rcases h with ⟨hres, rfl, rfl⟩ | ⟨hres, hreaders, h⟩
  · have hres : s.resolved = true := hres
    refine ⟨[.call n arg, .check n],
      { (s.set n arg .called).set n arg (.returned (some "decision is not pending resolution")) with
        readers := s.readers + 1 }, by simp [Event.own], ?_, calls_set_self _ n arg _, rfl⟩
    simp [run_cons, step, hnew, State.set, hfree, hres]
  · have hres : s.resolved = false := hres
    have hreaders : s.readers = 0 := hreaders
    have hlocked : run (step choices) s [.call n arg, .check n, .lock n] =
        some { s.set n arg .locking with writer := some n } := by
      simp [run_cons, step, hnew, State.set, hfree, hres]
    rcases h with ⟨hpos, rfl, rfl⟩ | ⟨hroom, pos, hpos, rfl, rfl⟩
    · refine ⟨[.call n arg, .check n, .lock n] ++ [.write n],
        { s.set n arg (.returned (some "position unmatched")) with writer := some n },
        by simp [Event.own], ?_, calls_set_self s n arg _, rfl⟩
      refine (run_snoc_eq_some _).mpr ⟨_, hlocked, ?_⟩
      simp [step, State.set, hreaders, hpos]
    · have hroom : s.res = none := hroom
      refine ⟨[.call n arg, .check n, .lock n] ++ [.write n],
        { s.set n arg (.returned none) with res := some pos, resolved := true, writer := none },
        by simp [Event.own], ?_, calls_set_self s n arg _, ?_⟩
      · refine (run_snoc_eq_some _).mpr ⟨_, hlocked, ?_⟩
        simp [step, State.set, hreaders, hpos, hroom]
      · simp [State.cell, State.set, hfree]

end Machine

-- A call that gives an error leaves no trace, so that the decision can be listed, and
-- resolved by a call that names a choice if it was pending.
def Harmless (d : Decision) (pkg : Package) (arg : Arg) (c : Cell) : Prop :=
  ∀ err c', resolve d.choices arg c = .ok (some err) c' →
    c' = c ∧ c'.readers = 0 ∧ c'.writer = false ∧
      (∃ m c'', convert d pkg c' = .ok m c'') ∧
      (c'.resolved = false → ∀ arg', namedPos d.choices arg' ≠ none →
        ∃ c'', resolve d.choices arg' c' = .ok none c'')

-- The call gives no error: a lock that was kept before lets it wait for ever, or the
-- decision is pending and its argument names a choice.
def NoError (choices : List Choice) (arg : Arg) (c : Cell) : Prop :=
  c.writer = true ∨ c.resolved = false ∧ (c.readers ≠ 0 ∨ namedPos choices arg ≠ none)

theorem harmless_iff (d : Decision) (pkg : Package) (arg : Arg) (c : Cell) :
    Harmless d pkg arg c ↔ NoError d.choices arg c := by
  constructor
  · intro h
    by_contra hno
    simp only [NoError, not_or, not_and, not_not, Bool.not_eq_true] at hno
    obtain ⟨hwriter, hno⟩ := hno
    cases hres : c.resolved with
    | true =>
        -- the read lock is kept
        obtain ⟨hsame, -⟩ := h _ _ (resolve_ok_iff.mpr ⟨hwriter, Or.inl ⟨hres, rfl, rfl⟩⟩)
        have hreaders := congrArg Cell.readers hsame
        simp at hreaders
    | false =>
        obtain ⟨hreaders, hpos⟩ := hno hres
        -- the write lock is kept
        obtain ⟨hsame, -⟩ := h _ _
          (resolve_ok_iff.mpr ⟨hwriter, Or.inr ⟨hres, hreaders, Or.inl ⟨hpos, rfl, rfl⟩⟩⟩)
        have hkept := congrArg Cell.writer hsame
        cases hkept.trans hwriter
  · rintro hno err c' h
    obtain ⟨hwriter, h⟩ := resolve_ok_iff.mp h
    rcases hno with hheld | ⟨hpending, hno⟩
    · exact absurd (hwriter.symm.trans hheld) (by decide)
    · rcases h with ⟨hres, -⟩ | ⟨-, hreaders, ⟨hpos, -⟩ | ⟨-, _, -, h, -⟩⟩
      · exact absurd (hpending.symm.trans hres) (by decide)
      · exact absurd hpos (hno.resolve_left (not_not.mpr hreaders))
      · cases h

def fresh : Cell := ⟨0, false, false, none⟩

def approval : Decision := ⟨⟨7⟩, "Approve transfer".toList, approveOrReject, ⟨8⟩⟩

def package : Package where
  id := ⟨5⟩
  unit := .transfer "default".toList
  sharedDir := "/shared/".toList
  path := "/shared/currentlyProcessing/a/".toList
  startAtChainID := UUID.nil
  startAtLinkID := UUID.nil

-- A text that is no choice of a decision just made: its lock stays taken, and neither
-- the list of decisions nor a call with a valid choice returns.
theorem unmatched_not_harmless : ¬ Harmless approval package (.choice "Approve".toList) fresh ∧
    ∃ c, resolve approval.choices (.choice "Approve".toList) fresh =
        .ok (some "position unmatched") c ∧ (¬ ∃ m c', convert approval package c = .ok m c') ∧
      ∀ arg err c', resolve approval.choices arg c ≠ .ok err c' := by
  have hpos : namedPos approval.choices (.choice "Approve".toList) = none := by decide
  have hcall : resolve approval.choices (.choice "Approve".toList) fresh =
      .ok (some "position unmatched") { fresh with writer := true } :=
    resolve_ok_iff.mpr ⟨rfl, Or.inr ⟨rfl, rfl, Or.inl ⟨hpos, rfl, rfl⟩⟩⟩
  refine ⟨fun h => ?_, _, hcall, ?_, fun arg err c' h => ?_⟩
  · obtain ⟨hsame, -⟩ := h _ _ hcall
    exact absurd hsame (by decide)
  · rw [convert_ok_iff]
    decide
  · exact absurd (resolve_ok_iff.mp h).1 (by decide)

end Ccp.Decision
