import Ccp.Decision.Resolve
import Ccp.Job

namespace Ccp.Iterator

open Lib Workflow

def init (wf : Document) (a : Answers) : M Unit := do
  write a (.packageStatus .processing)
  match wf.chains.lookup (← get).pkg.startAtChainID with
  | none => throw (.failed "can't process a job without a chain")
  | some wc => modify fun w => { w with nextLink := wc.id }

-- The link a new chain starts with, or the one that bypasses its start.
def firstLink (pkg : Package) (wc : Chain) : UUID :=
  if wc.id = pkg.startAtChainID ∧ pkg.startAtLinkID ≠ UUID.nil then pkg.startAtLinkID else wc.linkID

def startChain (a : Answers) (wc : Chain) : M Unit := do
  modify fun w => { w with chain := some wc, context := [] }
  withContext "load context" (loadChain a)
  modify fun w => { w with nextLink := firstLink w.pkg wc }

-- An error that is only logged.
def logged (x : M Unit) : M Unit := fun w =>
  match x w with
  | .ok _ w' => .ok () w'
  | .error _ w' => .ok () w'

def execContext (wl : Link) : String :=
  "exec job for link " ++ String.ofList wl.id.string ++ " with manager " ++ wl.manager ++ " (" ++
    String.ofList wl.description.string ++ ") "

-- What next makes of the error of an executed job.
def finish (a : Answers) (wl : Link) : Err → M Unit
  | .eof =>
      if wl.ends then do
        logged (write a (.packageStatus .done))
        throw .terminator
      else throw .eof
  | .wait decision updates => throw (.wait decision updates)
  | .noOrder => throw .noOrder
  | err => do
      logged (write a (.packageStatus .failed))
      throw (err.wrap (execContext wl))

def nextJob (wf : Document) (a : Answers) (wl : Link) : M Unit :=
  match newJob wl with
  | .error text =>
      throw (.failed ("build job for link " ++ String.ofList wl.id.string ++ ": build job: " ++ text))
  | .ok runner => fun w =>
      match execJob wf a wl runner w with
      | .ok id w' => .ok () { w' with nextLink := id }
      | .error err w' => finish a wl err w'

-- The part of next that follows the start of the iterator.
def linkCall (wf : Document) (a : Answers) (w : World) : M Unit :=
  match wf.chains.lookup w.nextLink with
  | some wc => startChain a wc
  | none =>
      if w.chain.isNone then throw (.failed "can't process a job without a chain")
      else
        match wf.links.lookup w.nextLink with
        | none => throw (.failed "link not found in workflow document")
        | some wl => nextJob wf a wl

def followLink (wf : Document) (a : Answers) : M Unit := do
  linkCall wf a (← get)

def next (wf : Document) (a : Answers) : M Unit := do
  if a.ctxErr then throw .canceled
  else if (← get).nextLink = UUID.nil then
    init wf a
    followLink wf a
  else followLink wf a

-- The choice of a replacement goes to the context, where it has one.
def setChoice (updatesContext : Bool) (c : Choice) (w : World) : World :=
  if updatesContext ∧ c.value.1 ≠ [] then
    { w with context := setContext w.context (percent c.value.1) c.value.2 }
  else w

-- decide of the two kinds of decision jobs.
def decide (a : Answers) (decision : Decision) (updatesContext : Bool) (c : Choice) : M Unit := do
  modify (setChoice updatesContext c)
  markComplete a decision.jobID

-- The part of the controller's await that follows a resolution.
def resume (a : Answers) (decision : Decision) (updatesContext : Bool) (c : Choice) : M Unit := do
  Iterator.decide a decision updatesContext c
  modify fun w => { w with nextLink := c.nextLink }

-- One package in the hands of its goroutine.

inductive Phase
  | running
  | awaiting (decision : Decision) (updatesContext : Bool)
  -- with the error the goroutine ends with
  | stopped (err : Option Err)
  -- a position that is not one of the choices
  | crashed
deriving DecidableEq

structure State where
  world : World
  phase : Phase
  -- how often init was entered
  inits : Nat

inductive Event
  | next (a : Answers)
  | resolve (a : Answers) (pos : Int)
  | cancel

-- The loop of the goroutine on the error of a call.
def outcome (inits : Nat) : EStateM.Result Err World Unit → Option State
  | .ok _ w => some ⟨w, .running, inits⟩
  | .error (.wait decision updates) w => some ⟨w, .awaiting decision updates, inits⟩
  | .error .terminator w => some ⟨w, .stopped none, inits⟩
  | .error .eof w => some ⟨w, .stopped none, inits⟩
  | .error .noOrder _ => none
  | .error err w => some ⟨w, .stopped (some err), inits⟩

def initsAfter (s : State) (a : Answers) : Nat :=
  if ¬ a.ctxErr ∧ s.world.nextLink = UUID.nil then s.inits + 1 else s.inits

def step (wf : Document) (s : State) : Event → Option State
  | .next a => if s.phase = .running then outcome (initsAfter s a) (next wf a s.world) else none
  | .resolve a pos =>
      match s.phase with
      | .awaiting decision updates =>
          match Decision.choiceAt decision.choices pos with
          | none => some { s with phase := .crashed }
          | some c => outcome s.inits (resume a decision updates c s.world)
      | _ => none
  | .cancel =>
      match s.phase with
      | .awaiting _ _ => some { s with phase := .stopped (some .canceled) }
      | _ => none

-- A package as it comes from the queue, its rows those of earlier chains.
def start (pkg : Package) (status : PackageStatus) (jobs : GoMap UUID JobRow) : State :=
  ⟨⟨pkg, status, jobs, UUID.nil, none, [], false⟩, .running, 0⟩

end Ccp.Iterator
