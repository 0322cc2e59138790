import Ccp.Job.Lemmas

namespace Ccp

open Lib Lib.Calls Workflow

-- The answer that the configuration has for a link, empty where it has none.
def preconfigured (configured : List Workflow.Choice) (linkID : UUID) : Str :=
  ((configured.find? fun c => c.linkID = linkID).map (·.goToChain)).getD []

def Answers.configured (a : Answers) (choices : List Workflow.Choice) : Answers :=
  { a with processingConfig := .ok choices }

section NextChain

variable (wf : Document) (choices : List UUID)

def IsChain (item : UUID) : Bool := (wf.chains.lookup item).isSome

-- A choice of the link that is a chain of the document.
def Available (cid : UUID) : Prop := cid ∈ choices ∧ IsChain wf cid = true

-- What the job should make of the answer for its link.
structure ChainContract (answer : Str) (w : World) (outcome : EStateM.Result Err World UUID) :
    Prop where
  returned : ∀ cid w', outcome = .ok cid w' → UUID.parse answer = some cid ∧ Available wf choices cid
  refused : answer ≠ [] → (∀ cid, UUID.parse answer = some cid → ¬ Available wf choices cid) →
    ∃ text, outcome = .error (.failed text) w
  awaits : answer = [] → ∃ d, outcome = .error (.wait d false) w ∧
    d.choices.map Choice.nextLink = choices.filter (IsChain wf) ∧
    ∀ c ∈ d.choices, ∃ ch, wf.chains.lookup c.nextLink = some ch ∧ c.label = ch.description.string

variable {wf choices} {a : Answers} {wl : Link} {configured : List Workflow.Choice} {w : World}

theorem chainChoices_nextLink :
    (chainChoices wf choices).map Choice.nextLink = choices.filter (IsChain wf) := by
  rw [chainChoices, List.map_filterMap]
  induction choices with
  | nil => rfl
  | cons item rest ih =>
      cases hitem : wf.chains.lookup item with
      | none =>
          rw [List.filterMap_cons_none (by rw [hitem]; rfl), ih,
            List.filter_cons_of_neg (by simp [IsChain, hitem])]
      | some ch =>
          rw [List.filterMap_cons_some (b := item) (by rw [hitem]; rfl), ih,
            List.filter_cons_of_pos (by simp [IsChain, hitem])]

theorem chainChoices_label {c : Choice} (h : c ∈ chainChoices wf choices) :
    ∃ ch, wf.chains.lookup c.nextLink = some ch ∧ c.label = ch.description.string := by
  obtain ⟨item, -, hitem⟩ := List.mem_filterMap.mp h
  obtain ⟨ch, hch, rfl⟩ := Option.map_eq_some_iff.mp hitem
  exact ⟨ch, hch, rfl⟩

-- The ways of the job, by the answer for the link.

theorem execNextChainDecision_of_none (h : preconfigured configured wl.id = []) :
    execNextChainDecision wf (a.configured configured) wl choices w =
      .error (.wait ⟨a.decisionID, wl.description.string, chainChoices wf choices, a.jobID⟩ false) w := by
  change (if preconfigured configured wl.id = [] then _ else _ : M UUID) w = _
  rw [if_pos h]
  rfl

theorem execNextChainDecision_of_some (h : preconfigured configured wl.id ≠ []) :
    execNextChainDecision wf (a.configured configured) wl choices w =
      (parseUUID (preconfigured configured wl.id) >>= fun cid =>
        if choices.any (IsChain wf) then pure cid
        else throw (.failed ("choice " ++ String.ofList (preconfigured configured wl.id) ++
          " is not one of the available choices"))) w := by
  change (if preconfigured configured wl.id = [] then _ else _ : M UUID) w = _
  rw [if_neg h]
  rfl

theorem execNextChainDecision_of_parse {cid : UUID}
    (h : UUID.parse (preconfigured configured wl.id) = some cid) :
    execNextChainDecision wf (a.configured configured) wl choices w =
      if choices.any (IsChain wf) then .ok cid w
      else .error (.failed ("choice " ++ String.ofList (preconfigured configured wl.id) ++
        " is not one of the available choices")) w := by
  have hne : preconfigured configured wl.id ≠ [] := by
    intro hnil
    have hparse : UUID.parse [] = none := by decide
    rw [hnil, hparse] at h
    cases h
  rw [execNextChainDecision_of_some hne, parseUUID, h]
  cases choices.any (IsChain wf) <;> rfl

theorem execNextChainDecision_of_not_parse (hne : preconfigured configured wl.id ≠ [])
    (h : UUID.parse (preconfigured configured wl.id) = none) :
    execNextChainDecision wf (a.configured configured) wl choices w =
      .error (.failed (UUID.parseError (preconfigured configured wl.id))) w := by
  rw [execNextChainDecision_of_some hne, parseUUID, h]
  rfl

-- No configured choice is a chain, or the answer is one of those that are.
def Checked (wf : Document) (choices : List UUID) (answer : Str) : Prop :=
  ∀ cid, UUID.parse answer = some cid →
    Available wf choices cid ∨ ∀ item ∈ choices, wf.chains.lookup item = none

theorem any_isChain_eq_false_iff :
    choices.any (IsChain wf) = false ↔ ∀ item ∈ choices, wf.chains.lookup item = none := by
  simp [IsChain]

theorem Available.any {cid : UUID} (h : Available wf choices cid) :
    choices.any (IsChain wf) = true :=
  List.any_eq_true.mpr ⟨cid, h.1, h.2⟩

theorem contract_of_checked (h : Checked wf choices (preconfigured configured wl.id)) :
    ChainContract wf choices (preconfigured configured wl.id) w
      (execNextChainDecision wf (a.configured configured) wl choices w) := by
  by_cases hempty : preconfigured configured wl.id = []
  · rw [execNextChainDecision_of_none hempty]
    exact
      { returned := fun cid w' hok => nomatch hok
        refused := fun hne => absurd hempty hne
        awaits := fun _ => ⟨_, rfl, chainChoices_nextLink, fun c hc => chainChoices_label hc⟩ }
  cases hparse : UUID.parse (preconfigured configured wl.id) with
  | none =>
      rw [execNextChainDecision_of_not_parse hempty hparse]
      exact
        { returned := fun cid w' hok => nomatch hok
          refused := fun _ _ => ⟨_, rfl⟩
          awaits := fun h => absurd h hempty }
  | some cid =>
      rw [execNextChainDecision_of_parse hparse]
      cases h cid hparse with
      | inl havailable =>
          rw [if_pos havailable.any]
          exact
            { returned := fun cid' w' hok => by cases hok; exact ⟨hparse, havailable⟩
              refused := fun _ hnot => absurd havailable (hnot cid hparse)
              awaits := fun h => absurd h hempty }
      | inr hnone =>
          rw [any_isChain_eq_false_iff.mpr hnone, if_neg Bool.false_ne_true]
          exact
            { returned := fun cid w' hok => nomatch hok
              refused := fun _ _ => ⟨_, rfl⟩
              awaits := fun h => absurd h hempty }

-- An identifier that is not among the choices is only refused where no choice is a chain.
theorem not_contract_of_unchecked {cid : UUID}
    (hparse : UUID.parse (preconfigured configured wl.id) = some cid)
    (hnot : ¬ Available wf choices cid) (hany : choices.any (IsChain wf) = true) :
    ¬ ChainContract wf choices (preconfigured configured wl.id) w
      (execNextChainDecision wf (a.configured configured) wl choices w) := by
  intro h
  rw [execNextChainDecision_of_parse hparse, if_pos hany] at h
  exact hnot (h.returned cid w rfl).2

end NextChain

-- The job keeps its contract exactly where the check of the answer comes to what the choices
-- say of it.
theorem execNextChainDecision_contract_iff (wf : Document) (a : Answers) (wl : Link)
    (choices : List UUID) (configured : List Workflow.Choice) (w : World) :
    ChainContract wf choices (preconfigured configured wl.id) w
        (execNextChainDecision wf (a.configured configured) wl choices w) ↔
      Checked wf choices (preconfigured configured wl.id) := by
  constructor
  · intro h cid hparse
    by_cases havailable : Available wf choices cid
    · exact Or.inl havailable
    · right
      rw [← any_isChain_eq_false_iff, ← Bool.not_eq_true]
      intro hany
      exact not_contract_of_unchecked hparse havailable hany h
  · exact contract_of_checked

-- A link that offers one chain, and a configuration that asks for another.
namespace Approval

def approve : Workflow.Chain := ⟨⟨0x6953950b⟩, ∅, ⟨2⟩⟩

def workflow : Document where
  chains := Finmap.singleton approve.id approve
  links := ∅
  chains_id id ch h := by
    have hid : id = approve.id := (Finmap.mem_singleton _ _ _).mp (Finmap.mem_of_lookup_eq_some h)
    rw [hid, Finmap.lookup_singleton_eq] at h
    obtain rfl := Option.some.inj h
    exact hid.symm
  links_id := Workflow.links_id_empty

def link : Link where
  id := ⟨1⟩
  manager := "linkTaskManagerChoice"
  config := .microServiceChainChoice [approve.id]
  description := ∅
  exitCodes := ∅
  fallbackJobStatus := "Failed"
  fallbackLinkID := UUID.nil
  group := ∅
  ends := false

def other : UUID := ⟨0x61cfa825⟩

def configured : List Workflow.Choice := [⟨link.id.string, other.string⟩]

def world : World := ⟨⟨⟨7⟩, .transfer [], [], [], ⟨1⟩, UUID.nil⟩, .unknown, ∅, UUID.nil, none, [], false⟩

theorem other_not_refused :
    ¬ ∀ (wf : Document) (a : Answers) (wl : Link) (choices : List UUID)
        (configured : List Workflow.Choice) (w : World),
      ChainContract wf choices (preconfigured configured wl.id) w
        (execNextChainDecision wf (a.configured configured) wl choices w) := by
  intro h
  have hparse : UUID.parse (preconfigured configured link.id) = some other := by decide +kernel
  have hnot : ¬ Available workflow [approve.id] other := fun h => absurd h.1 (by decide)
  have hchain : IsChain workflow approve.id = true := by
    rw [IsChain, workflow, Finmap.lookup_singleton_eq]
    rfl
  have hany : [approve.id].any (IsChain workflow) = true :=
    Available.any ⟨List.mem_singleton_self _, hchain⟩
  exact not_contract_of_unchecked hparse hnot hany
    (h workflow quiet link [approve.id] configured world)

end Approval

end Ccp
