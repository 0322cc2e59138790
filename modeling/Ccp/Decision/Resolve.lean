import Ccp.Decision
import Ccp.Lib.Run
import Mathlib.Logic.Function.Basic

namespace Ccp.Decision

open Lib

-- resolveWithPos or resolveWithChoice, by its argument.
inductive Arg
  | pos (p : Int)
  | choice (c : Str)
deriving DecidableEq

-- The loop of resolveWithChoice has no break: the last match counts.
def matchChoice (choices : List Choice) (c : Str) : Option Nat :=
  choices.zipIdx.foldl (fun pos item => if item.1.nextLink.string = c then some item.2 else pos) none

def namedPos (choices : List Choice) : Arg → Option Int
  | .pos p => some p
  | .choice c => (matchChoice choices c).map Int.ofNat

-- choices[pos], none where Go panics.
def choiceAt (choices : List Choice) (pos : Int) : Option Choice :=
  if 0 ≤ pos then choices[pos.toNat]? else none

inductive CallPhase
  | called
  -- past the test of resolved, the read lock given back
  | checked
  -- in d.Lock(), or holding the lock and sending
  | locking
  | returned (err : Option String)
deriving DecidableEq

structure Call where
  arg : Arg
  phase : CallPhase
deriving DecidableEq

inductive Await
  | waiting
  | acted (c : Choice)
  | panicked
  | canceled
deriving DecidableEq

structure State where
  resolved : Bool
  -- the channel, which has room for one position
  res : Option Int
  -- read locks that were not given back
  readers : Nat
  -- the call in d.Lock(), or whose write lock was not given back
  writer : Option Nat
  calls : Nat → Option Call
  await : Await

def init : State := ⟨false, none, 0, none, fun _ => none, .waiting⟩

inductive Event
  | call (n : Nat) (arg : Arg)
  | check (n : Nat)
  | lock (n : Nat)
  | write (n : Nat)
  | receive
  | cancel
deriving DecidableEq

def State.set (s : State) (n : Nat) (arg : Arg) (phase : CallPhase) : State :=
  { s with calls := Function.update s.calls n (some ⟨arg, phase⟩) }

def awaitOutcome (choices : List Choice) (pos : Int) : Await :=
  match choiceAt choices pos with
  | none => .panicked
  | some c => .acted c

-- RLock waits for a writer that holds the lock or is in line for it, Lock for
-- the other writers and for the readers. The error returns keep their lock.
def step (choices : List Choice) (s : State) : Event → Option State
  | .call n arg => if s.calls n = none then some (s.set n arg .called) else none
  | .check n =>
      match s.calls n with
      | some ⟨arg, .called⟩ =>
          if s.writer = none then
            if s.resolved then
              some { s.set n arg (.returned (some "decision is not pending resolution")) with
                readers := s.readers + 1 }
            else some (s.set n arg .checked)
          else none
      | _ => none
  | .lock n =>
      match s.calls n with
      | some ⟨arg, .checked⟩ =>
          if s.writer = none then some { s.set n arg .locking with writer := some n } else none
      | _ => none
  | .write n =>
      match s.calls n with
      | some ⟨arg, .locking⟩ =>
          if s.readers = 0 then
            match namedPos choices arg with
            | none => some (s.set n arg (.returned (some "position unmatched")))
            | some pos =>
                if s.res = none then
                  some { s.set n arg (.returned none) with
                    res := some pos, resolved := true, writer := none }
                else none
          else none
      | _ => none
  | .receive =>
      match s.await, s.res with
      | .waiting, some pos => some { s with res := none, await := awaitOutcome choices pos }
      | _, _ => none
  | .cancel => if s.await = .waiting then some { s with await := .canceled } else none

end Ccp.Decision
