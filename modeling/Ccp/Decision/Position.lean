import Ccp.Decision.Caller
import Ccp.Iterator
import Ccp.Lib.Strconv

namespace Ccp.Decision

open Lib Lib.Calls

-- A decision that the controller has in its list, with the package that waits.
structure Awaiting where
  decision : Decision
  pkg : Package
  cell : Cell

-- What a caller of the API gets: an error, no answer at all, or nil, with the
-- decision as the call left it.
inductive Reply
  | failed (text : String)
  | blocked
  | resolved (dec : Awaiting)

-- The loop over the packages goes on after a match, the one over the decisions of a
-- package does not.
def findAwaiting (awaiting : List (List Awaiting)) (p : Awaiting → Bool) : Option Awaiting :=
  awaiting.foldl (fun found decisions => (decisions.find? p).or found) none

def replied (m : Awaiting) : EStateM.Result Stop Cell (Option String) → Reply
  | .ok none c => .resolved { m with cell := c }
  | .ok (some text) _ => .failed text
  | .error .blocked _ => .blocked

-- derrors.Add
def Reply.add (context : String) : Reply → Reply
  | .failed text => .failed (context ++ ": " ++ text)
  | reply => reply

-- The decision that is found, once the active agent is stored.
def withMatch (found : Option Awaiting) (missing : String) (agentErr : Option String)
    (call : Awaiting → Reply) : Reply :=
  match found, agentErr with
  | none, _ => .failed missing
  | some _, some text => .failed ("update active agent: " ++ text)
  | some m, none => call m

def resolveDecision (awaiting : List (List Awaiting)) (agentErr : Option String) (id : UUID)
    (pos : Int) : Reply :=
  (withMatch (findAwaiting awaiting (·.decision.id = id)) "decision cannot be found" agentErr
    fun m => replied m (resolveWithPos pos m.cell)).add "ResolveDecision()"

def resolveDecisionLegacy (awaiting : List (List Awaiting)) (agentErr : Option String)
    (jobID : UUID) (choice : Str) : Reply :=
  withMatch (findAwaiting awaiting (·.decision.jobID = jobID)) "package is not awaiting" agentErr
    fun m =>
      match Strconv.atoi choice with
      | some pos => replied m (resolveWithPos pos m.cell)
      | none => replied m (resolveWithChoice m.decision.choices choice m.cell)

-- A call with a position that gets nil, and the decision after it.
inductive Accepts (awaiting : List (List Awaiting)) (pos : Int) (dec : Awaiting) : Prop
  | byID (agentErr : Option String) (id : UUID)
      (h : resolveDecision awaiting agentErr id pos = .resolved dec)
  | byJob (agentErr : Option String) (jobID : UUID) (choice : Str)
      (hchoice : Strconv.atoi choice = some pos)
      (h : resolveDecisionLegacy awaiting agentErr jobID choice = .resolved dec)

theorem replied_resolved_iff {m dec : Awaiting} {r : EStateM.Result Stop Cell (Option String)} :
    replied m r = .resolved dec ↔ ∃ c, r = .ok none c ∧ dec = { m with cell := c } := by
  unfold replied
  split
  · simp [eq_comm]
  · simp
  · simp

theorem withMatch_resolved {found : Option Awaiting} {missing : String} {agentErr : Option String}
    {call : Awaiting → Reply} {dec : Awaiting}
    (h : withMatch found missing agentErr call = .resolved dec) :
    ∃ m, found = some m ∧ call m = .resolved dec := by
  unfold withMatch at h
  split at h
  · cases h
  · cases h
  · exact ⟨_, rfl, h⟩

theorem add_resolved_iff {context : String} {reply : Reply} {dec : Awaiting} :
    reply.add context = .resolved dec ↔ reply = .resolved dec := by
  unfold Reply.add
  split
  · simp
  · rfl

-- The position is in the channel of the decision, whatever it is.
theorem Accepts.sent {awaiting : List (List Awaiting)} {pos : Int} {dec : Awaiting}
    (h : Accepts awaiting pos dec) : dec.cell.res = some pos := by
  have hsent : ∀ m, replied m (resolveWithPos pos m.cell) = .resolved dec →
      dec.cell.res = some pos := by
    intro m hm
    obtain ⟨c, hcall, rfl⟩ := replied_resolved_iff.mp hm
    have hok : resolve [] (.pos pos) m.cell = .ok none c := hcall
    obtain ⟨-, ⟨-, h, -⟩ | ⟨-, -, ⟨-, h, -⟩ | ⟨-, p, hp, -, rfl⟩⟩⟩ := resolve_ok_iff.mp hok
    · cases h
    · cases h
    · exact hp.symm
  cases h with
  | byID agentErr id h =>
      obtain ⟨m, -, hm⟩ := withMatch_resolved (add_resolved_iff.mp h)
      exact hsent m hm
  | byJob agentErr jobID choice hchoice h =>
      obtain ⟨m, -, hm⟩ := withMatch_resolved h
      rw [hchoice] at hm
      exact hsent m hm

-- The package that waits for the decision acts on the choice at the position, or ends
-- with an error where there is none.
structure Handles (wf : Workflow.Document) (a : Answers) (s : Iterator.State) (decision : Decision)
    (updatesContext : Bool) (pos : Int) : Prop where
  applied : ∀ c, 0 ≤ pos → decision.choices[pos.toNat]? = some c →
    Iterator.step wf s (.resolve a pos) =
      Iterator.outcome s.inits (Iterator.resume a decision updatesContext c s.world)
  refused : ¬ (0 ≤ pos ∧ pos < decision.choices.length) →
    ∃ next err, Iterator.step wf s (.resolve a pos) = some next ∧ next.phase = .stopped (some err)

section Resolution

variable {wf : Workflow.Document} {a : Answers} {s : Iterator.State} {decision : Decision}
  {updatesContext : Bool} {pos : Int}

theorem step_of_choiceAt_none (hs : s.phase = .awaiting decision updatesContext)
    (h : choiceAt decision.choices pos = none) :
    Iterator.step wf s (.resolve a pos) = some { s with phase := .crashed } := by
  simp only [Iterator.step, hs, h]

theorem step_of_choiceAt_some {c : Choice} (hs : s.phase = .awaiting decision updatesContext)
    (h : choiceAt decision.choices pos = some c) :
    Iterator.step wf s (.resolve a pos) =
      Iterator.outcome s.inits (Iterator.resume a decision updatesContext c s.world) := by
  simp only [Iterator.step, hs, h]

theorem choiceAt_eq_none_iff (choices : List Choice) (pos : Int) :
    choiceAt choices pos = none ↔ ¬ (0 ≤ pos ∧ pos < choices.length) := by
  unfold choiceAt
  split_ifs with hpos
  · rw [List.getElem?_eq_none_iff]
    omega
  · simp [hpos]

end Resolution

theorem handles_iff {awaiting : List (List Awaiting)} {pos : Int} {dec : Awaiting}
    (h : Accepts awaiting pos dec) {wf : Workflow.Document} {a : Answers} {s : Iterator.State}
    {updatesContext : Bool} (hs : s.phase = .awaiting dec.decision updatesContext) :
    dec.cell.res = some pos ∧
      (Handles wf a s dec.decision updatesContext pos ↔
        0 ≤ pos ∧ pos < dec.decision.choices.length) := by
  refine ⟨h.sent, fun hhandles => ?_, fun hrange => ⟨fun c hpos hc => ?_, fun hout => ?_⟩⟩
  · by_contra hout
    obtain ⟨next, err, hnext, hphase⟩ := hhandles.refused hout
    have hcrash : Iterator.step wf s (.resolve a pos) = some { s with phase := .crashed } :=
      step_of_choiceAt_none hs ((choiceAt_eq_none_iff _ pos).mpr hout)
    rw [hcrash] at hnext
    obtain rfl := Option.some.inj hnext
    cases hphase
  · refine step_of_choiceAt_some hs ?_
    rw [choiceAt, if_pos hpos, hc]
  · exact absurd hrange hout

def workflow : Workflow.Document where
  chains := ∅
  links := ∅
  chains_id := Workflow.chains_id_empty
  links_id := Workflow.links_id_empty

def waiting : Iterator.State where
  world := ⟨package, .processing, ∅, UUID.nil, none, [], false⟩
  phase := .awaiting approval false
  inits := 1

def listed : List (List Awaiting) := [[⟨approval, package, fresh⟩]]

def resolvedWith (pos : Int) : Awaiting := ⟨approval, package, { fresh with resolved := true, res := some pos }⟩

theorem accepts_listed (pos : Int) : Accepts listed pos (resolvedWith pos) := .byID none approval.id rfl

theorem handles_iff_rejected : Handles workflow quiet waiting approval false 1 :=
  (handles_iff (accepts_listed 1) rfl).2.mpr (by decide)

-- One past the last choice, and the process is gone.
theorem accepted_out_of_range : Accepts listed 2 (resolvedWith 2) ∧
    (Iterator.step workflow waiting (.resolve quiet 2)).map Iterator.State.phase = some .crashed ∧
    ¬ Handles workflow quiet waiting approval false 2 := by
  have hcrash : Iterator.step workflow waiting (.resolve quiet 2) =
      some { waiting with phase := .crashed } := step_of_choiceAt_none rfl (by decide)
  refine ⟨accepts_listed 2, by rw [hcrash]; rfl, fun h => ?_⟩
  obtain ⟨next, err, hnext, hphase⟩ := h.refused (by decide)
  rw [hcrash] at hnext
  obtain rfl := Option.some.inj hnext
  cases hphase

end Ccp.Decision
