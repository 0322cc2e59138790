import Ccp.Job.FormatChoices
import Ccp.Path
import Ccp.Workflow.ConfigForm

namespace Ccp

open Lib Lib.Calls Workflow

-- The processing configurations on the disk, by path, as their XML parses.
abbrev ConfigFiles := Str → Option (Except String (List Workflow.Choice))

def processingMCP : Str := "processingMCP.xml".toList

namespace Package

-- The file is looked for under the path that is kept, a missing one is no error.
def parseProcessingConfig (p : Package) (files : ConfigFiles) : Except String (List Workflow.Choice) :=
  match files (FilePath.join [p.path, processingMCP]) with
  | none => .ok []
  | some (.error text) => .error ("parse: " ++ text)
  | some (.ok choices) => .ok choices

-- The disk on which the configuration of the package has just one choice.
def configured (p : Package) (choice : Workflow.Choice) : ConfigFiles := fun path =>
  if path = FilePath.join [p.realPath, processingMCP] then some (.ok [choice]) else none

-- The path that is kept leads to the file of the package.
def Opens (p : Package) : Prop :=
  FilePath.join [p.path, processingMCP] = FilePath.join [p.realPath, processingMCP]

theorem parseProcessingConfig_configured (p : Package) (choice : Workflow.Choice) :
    p.Opens ∧ p.parseProcessingConfig (p.configured choice) = .ok [choice] ∨
      ¬ p.Opens ∧ p.parseProcessingConfig (p.configured choice) = .ok [] := by
  by_cases h : p.Opens
  · have hfile : p.configured choice (FilePath.join [p.path, processingMCP]) =
        some (.ok [choice]) := if_pos h
    exact Or.inl ⟨h, by rw [parseProcessingConfig, hfile]⟩
  · have hfile : p.configured choice (FilePath.join [p.path, processingMCP]) = none := if_neg h
    exact Or.inr ⟨h, by rw [parseProcessingConfig, hfile]⟩

end Package

def Answers.reading (a : Answers) (p : Package) (files : ConfigFiles) : Answers :=
  { a with processingConfig := p.parseProcessingConfig files }

-- The chain's context has the items, between percent signs, and what it had.
def Adds (items : GoMap Str Str) (before after : List (Str × Str)) : Prop :=
  ∀ key, Dict.get? after key = ((unpercent key).bind items.lookup).or (Dict.get? before key)

-- The link goes on with the chain, or with the items of the replacement, where it
-- has items and its identifier is not one that stands for another.
def Passes (wf : Document) (a : Answers) (p : Package) (wl : Link) (value : UUID) : Prop :=
  match wl.config with
  | .microServiceChainChoice _ =>
      ∃ runner, newJob wl = .ok runner ∧ ∀ w, w.pkg = p → runner.exec wf a wl w = .ok value w
  | .microServiceChoiceReplacementDic replacements =>
      choiceMapping.lookup value = none → ∀ r ∈ replacements, r.id = value → r.items ≠ ∅ →
        ∃ runner, newJob wl = .ok runner ∧ ∀ w, w.pkg = p → ∃ context,
          runner.exec wf a wl w = .ok (exitCodeLinkID wl 0) { w with context := context } ∧
            Adds r.items w.context context
  | _ => False

-- When the form and the jobs agree on a link.
def Agrees (a : Answers) (p : Package) (wl : Link) (value : UUID) : Prop :=
  match wl.config with
  | .microServiceChainChoice _ => wl.manager = "linkTaskManagerChoice" ∧ p.Opens
  | .microServiceChoiceReplacementDic replacements =>
      choiceMapping.lookup value = none → ∀ r ∈ replacements, r.id = value → r.items ≠ ∅ →
        wl.manager = "linkTaskManagerReplacementDicFromChoice" ∧ p.Opens ∧
          (∃ first, replacements.find? (·.id = value) = some first ∧ first.items = r.items) ∧
          InOrder (a.visits r.items) r.items
  | _ => False

variable {wf : Document} {a : Answers} {p : Package} {wl : Link} {value : UUID}

theorem get?_map_set (c : List (Str × Str)) (k v key : Str) :
    Dict.get? (c.map fun e => if e.1 = k then (k, v) else e) key =
      if k = key then (Dict.get? c k).map fun _ => v else Dict.get? c key := by
  induction c with
  | nil => simp
  | cons e c ih =>
      obtain ⟨k₀, v₀⟩ := e
      by_cases hk : k₀ = k
      · subst hk
        simp only [List.map_cons, if_true, Dict.get?_cons, ih, Option.map_some]
        split_ifs <;> rfl
      · simp only [List.map_cons, hk, if_false, Dict.get?_cons, ih]
        by_cases hkey : k₀ = key
        · simp [← hkey, Ne.symm hk]
        · simp [hkey]

theorem get?_setContext (c : List (Str × Str)) (k v key : Str) :
    Dict.get? (setContext c k v) key = if k = key then some v else Dict.get? c key := by
  by_cases hk : c.any (·.1 = k)
  · have hmem : k ∈ c.map Prod.fst := by simpa using hk
    obtain ⟨v₀, hv₀⟩ := Option.ne_none_iff_exists'.mp (mt Dict.get?_eq_none_iff.mp (not_not.mpr hmem))
    rw [setContext, if_pos hk, get?_map_set, hv₀, Option.map_some]
  · have hmem : k ∉ c.map Prod.fst := by simpa using hk
    rw [setContext, if_neg hk, ← Dict.set_eq_append hmem, Dict.get?_set]

-- The entries of a dictionary, one after the other.
theorem get?_foldl_setContext {l : List (Str × Str)} (h : (l.map Prod.fst).Nodup)
    (c : List (Str × Str)) (key : Str) :
    Dict.get? (l.foldl (fun c e => setContext c e.1 e.2) c) key =
      (Dict.get? l key).or (Dict.get? c key) := by
  induction l generalizing c with
  | nil => simp
  | cons e l ih =>
      rw [List.map_cons, List.nodup_cons] at h
      rw [List.foldl_cons, ih h.2, get?_setContext, Dict.get?_cons]
      by_cases hk : e.1 = key
      · subst hk
        simp [Dict.get?_eq_none_iff.mpr h.1]
      · simp [hk]

theorem nodup_of_visits {dict : GoMap Str Str} (h : a.Visits dict) :
    ((a.entries dict).map Prod.fst).Nodup := by
  have hkeys := dict.nodupKeys
  rw [← h] at hkeys
  simpa [List.NodupKeys, List.keys, Function.comp_def] using Multiset.coe_nodupKeys.mp hkeys

theorem get?_entries {dict : GoMap Str Str} (h : a.Visits dict) (key : Str) :
    Dict.get? (a.entries dict) key = dict.lookup key := by
  ext v
  rw [Dict.get?_eq_some_iff (nodup_of_visits h), Finmap.lookup_eq_some_iff, ← h]
  simp

theorem newJob_chain_iff {choices : List UUID} {runner : Runner}
    (h : wl.config = .microServiceChainChoice choices) :
    newJob wl = .ok runner ↔
      wl.manager = "linkTaskManagerChoice" ∧ .nextChainDecisionJob choices = runner := by
  unfold newJob
  rw [h]
  split <;> simp_all

theorem newJob_replacement_iff {replacements : List ConfigReplacement} {runner : Runner}
    (h : wl.config = .microServiceChoiceReplacementDic replacements) :
    newJob wl = .ok runner ↔ wl.manager = "linkTaskManagerReplacementDicFromChoice" ∧
      .updateContextDecisionJob replacements = runner := by
  unfold newJob
  rw [h]
  split <;> simp_all

theorem linkID_string (id value : UUID) : (⟨id.string, value.string⟩ : Workflow.Choice).linkID = id := by
  simp only [Choice.linkID, UUID.parse_string, Option.getD_some]

-- A choice of a chain that has its link's answer goes on with it.
theorem passes_chain_iff {choices : List UUID} (hconfig : wl.config = .microServiceChainChoice choices)
    (hmem : value ∈ choices) (hchain : (wf.chains.lookup value).isSome) :
    Passes wf (a.reading p (p.configured ⟨wl.id.string, value.string⟩)) p wl value ↔
      wl.manager = "linkTaskManagerChoice" ∧ p.Opens := by
  have hany : choices.any fun item => (wf.chains.lookup item).isSome :=
    List.any_eq_true.mpr ⟨value, hmem, hchain⟩
  simp only [Passes, hconfig, newJob_chain_iff hconfig]
  rcases p.parseProcessingConfig_configured ⟨wl.id.string, value.string⟩ with
    ⟨hopens, hread⟩ | ⟨hopens, hread⟩
  · constructor
    · rintro ⟨runner, ⟨hmanager, -⟩, -⟩
      exact ⟨hmanager, hopens⟩
    · rintro ⟨hmanager, -⟩
      refine ⟨_, ⟨hmanager, rfl⟩, fun w _ => execNextChainDecision_ok_iff.mpr ⟨?_, rfl⟩⟩
      refine ⟨_, ⟨wl.id.string, value.string⟩, hread, ?_, UUID.parse_string value, hany⟩
      simp [linkID_string]
  · constructor
    · rintro ⟨runner, ⟨-, rfl⟩, hexec⟩
      have hok := hexec ⟨p, .unknown, ∅, UUID.nil, none, [], false⟩ rfl
      obtain ⟨⟨configured, c, hconf, hfind, -⟩, -⟩ := execNextChainDecision_ok_iff.mp hok
      rw [Answers.reading, hread] at hconf
      obtain rfl := Except.ok.inj hconf
      cases hfind
    · rintro ⟨-, h⟩
      exact absurd h hopens

theorem canonical_of_field {spec : FieldSpec} (h : spec ∈ processingConfigFields) :
    canonical spec.linkID = spec.linkID := by
  have hall : ∀ spec ∈ processingConfigFields, canonical spec.linkID = spec.linkID := by decide
  exact hall spec h

theorem loadPreconfiguredContext_configured {replacements : List ConfigReplacement} {w : World}
    (hself : wf.links.lookup wl.id = some wl)
    (hconfig : wl.config = .microServiceChoiceReplacementDic replacements)
    (hid : canonical wl.id = wl.id) (hvalue : canonical value = value)
    (hread : a.processingConfig = .ok [⟨wl.id.string, value.string⟩]) :
    loadPreconfiguredContext wf a wl w =
      match replacements.find? (·.id = value) with
      | some r => formatChoices a r.items w
      | none => .ok ∅ w := by
  have happly : applyChoice wf a wl.id ∅ ⟨wl.id.string, value.string⟩ w =
      match replacements.find? (·.id = value) with
      | some r => formatChoices a r.items w
      | none => .ok ∅ w := by
    simp only [applyChoice, parseUUID, UUID.parse_string, pure_bind, hself, hconfig, hvalue]
    cases replacements.find? (·.id = value) <;> rfl
  simp only [loadPreconfiguredContext, hread, ofExcept, pure_bind, hid, List.filter_cons,
    decide_true, if_true, List.filter_nil, List.foldlM_cons, List.foldlM_nil, bind_pure]
  exact happly

theorem execUpdateContextDecision_ok_iff {replacements : List ConfigReplacement} {w w' : World}
    {id : UUID} (hne : replacements ≠ []) :
    execUpdateContextDecision wf a wl replacements w = .ok id w' ↔
      ∃ dict, loadPreconfiguredContext wf a wl w = .ok dict w ∧ dict ≠ ∅ ∧ a.Visits dict ∧
        exitCodeLinkID wl 0 = id ∧
        { w with context := (a.entries dict).foldl (fun c e => setContext c e.1 e.2) w.context } =
          w' := by
  have hsame : ∀ dict w₁, loadPreconfiguredContext wf a wl w = .ok dict w₁ → w₁ = w := by
    intro dict w₁ h
    have hkeeps : Keeps (fun w => w) (loadPreconfiguredContext wf a wl) :=
      keeps_loadPreconfiguredContext
    exact hkeeps.ok h
  simp only [execUpdateContextDecision, databaseContext, hne, if_false, pure_bind, useContext,
    if_true, execPreconfigured, bind_ok_iff, withContext_ok_iff]
  constructor
  · rintro ⟨dict, w₁, hload, h⟩
    obtain rfl := hsame dict w₁ hload
    split_ifs at h with hdict
    · exact absurd h awaitReplacement_ne_ok
    · obtain ⟨u, w₂, hupdate, hpure⟩ := bind_ok_iff.mp h
      obtain ⟨hvisits, rfl⟩ := updateChain_ok_iff.mp hupdate
      obtain ⟨rfl, rfl⟩ := pure_ok_iff.mp hpure
      exact ⟨dict, hload, hdict, hvisits, rfl, rfl⟩
  · rintro ⟨dict, hload, hdict, hvisits, rfl, rfl⟩
    refine ⟨dict, w, hload, ?_⟩
    rw [if_neg hdict]
    exact bind_ok_iff.mpr ⟨(), _, updateChain_ok_iff.mpr ⟨hvisits, rfl⟩, pure_ok_iff.mpr ⟨rfl, rfl⟩⟩

theorem ne_empty_of_wrapped {items formatted : GoMap Str Str} (h : Wrapped items formatted)
    (hne : items ≠ ∅) : formatted ≠ ∅ := by
  rintro rfl
  apply hne
  apply Finmap.ext_lookup
  intro k
  have hk := h (percent k)
  rw [unpercent_eq_some_iff.mpr rfl, Option.bind_some] at hk
  rw [← hk, Finmap.lookup_empty, Finmap.lookup_empty]

theorem items_eq_of_wrapped {items items' formatted : GoMap Str Str} (h : Wrapped items formatted)
    (h' : Wrapped items' formatted) : items = items' := by
  apply Finmap.ext_lookup
  intro k
  have hk := (h (percent k)).symm.trans (h' (percent k))
  rwa [unpercent_eq_some_iff.mpr rfl, Option.bind_some, Option.bind_some] at hk

-- What the job does with the first replacement of the identifier.
theorem exec_replacement_iff {replacements : List ConfigReplacement} {r : ConfigReplacement}
    (hself : wf.links.lookup wl.id = some wl)
    (hconfig : wl.config = .microServiceChoiceReplacementDic replacements)
    (hid : canonical wl.id = wl.id) (hvalue : canonical value = value) (hr : r ∈ replacements)
    (hitems : r.items ≠ ∅) (hvisits : ∀ dict, a.Visits dict)
    (hread : a.processingConfig = .ok [⟨wl.id.string, value.string⟩]) :
    (∀ w, w.pkg = p → ∃ context, execUpdateContextDecision wf a wl replacements w =
        .ok (exitCodeLinkID wl 0) { w with context := context } ∧ Adds r.items w.context context) ↔
      ∃ first formatted, replacements.find? (·.id = value) = some first ∧
        formatLoop (a.visits first.items) first.items first.items.keys = some formatted ∧
        Wrapped r.items formatted := by
  have hne : replacements ≠ [] := List.ne_nil_of_mem hr
  simp only [execUpdateContextDecision_ok_iff hne,
    loadPreconfiguredContext_configured hself hconfig hid hvalue hread]
  constructor
  · intro h
    obtain ⟨context, ⟨dict, hload, hdict, -, -, hcontext⟩, hadds⟩ :=
      h ⟨p, .unknown, ∅, UUID.nil, none, [], false⟩ rfl
    cases hfind : replacements.find? (·.id = value) with
    | none =>
        rw [hfind] at hload
        cases hload
        exact absurd rfl hdict
    | some first =>
        rw [hfind] at hload
        simp only [formatChoices] at hload
        split at hload
        · cases hload
        · next formatted hloop =>
            cases hload
            refine ⟨first, dict, rfl, hloop, fun key => ?_⟩
            have hlast : (a.entries dict).foldl (fun c e => setContext c e.1 e.2) [] = context :=
              congrArg World.context hcontext
            have hkey := hadds key
            rw [← hlast, get?_foldl_setContext (nodup_of_visits (hvisits _)),
              get?_entries (hvisits _)] at hkey
            simpa using hkey
  · rintro ⟨first, formatted, hfind, hloop, hwrapped⟩ w -
    refine ⟨_, ⟨formatted, ?_, ne_empty_of_wrapped hwrapped hitems, hvisits _, trivial, rfl⟩, ?_⟩
    · rw [hfind]
      simp only [formatChoices, hloop]
    · intro key
      rw [get?_foldl_setContext (nodup_of_visits (hvisits _)), get?_entries (hvisits _), hwrapped key]

theorem eq_empty_of_formatLoop {ks : List Str} {formatted : GoMap Str Str} {left : Finset Str}
    (h : formatLoop ks ∅ left = some formatted) : formatted = ∅ := by
  cases ks with
  | nil =>
      simp only [formatLoop] at h
      split_ifs at h
      exact (Option.some.inj h).symm
  | cons k ks =>
      obtain ⟨v, hv, -⟩ := formatLoop_cons h
      simp at hv

theorem passes_replacement_iff {replacements : List ConfigReplacement}
    (hself : wf.links.lookup wl.id = some wl)
    (hconfig : wl.config = .microServiceChoiceReplacementDic replacements)
    (hid : canonical wl.id = wl.id) (hvisits : ∀ dict, a.Visits dict) :
    Passes wf (a.reading p (p.configured ⟨wl.id.string, value.string⟩)) p wl value ↔
      Agrees a p wl value := by
  simp only [Passes, Agrees, hconfig, newJob_replacement_iff hconfig]
  refine forall_congr' fun halias => ?_
  have hvalue : canonical value = value := by
    rw [canonical, halias, Option.getD_none]
  rcases p.parseProcessingConfig_configured ⟨wl.id.string, value.string⟩ with
    ⟨hopens, hread⟩ | ⟨hopens, hread⟩
  · have hexec_iff : ∀ r ∈ replacements, r.items ≠ ∅ → _ := fun r hr hitems =>
      exec_replacement_iff (a := a.reading p (p.configured ⟨wl.id.string, value.string⟩)) (p := p)
        hself hconfig hid hvalue hr hitems hvisits hread
    constructor
    · intro h r hr hrid hitems
      obtain ⟨runner, ⟨hmanager, rfl⟩, hexec⟩ := h r hr hrid hitems
      obtain ⟨first, formatted, hfind, hloop, hwrapped⟩ := (hexec_iff r hr hitems).mp hexec
      have hmem : first ∈ replacements := List.mem_of_find?_eq_some hfind
      have hfirst : first.id = value := by simpa using List.find?_some hfind
      have hnonempty : first.items ≠ ∅ := by
        intro hempty
        rw [hempty] at hloop
        exact ne_empty_of_wrapped hwrapped hitems (eq_empty_of_formatLoop hloop)
      -- the first replacement is one of those that the link has to pass with
      obtain ⟨runner, ⟨-, rfl⟩, hexec'⟩ := h first hmem hfirst hnonempty
      obtain ⟨first', formatted', hfind', hloop', hwrapped'⟩ :=
        (hexec_iff first hmem hnonempty).mp hexec'
      obtain rfl := Option.some.inj (hfind.symm.trans hfind')
      obtain rfl := Option.some.inj (hloop.symm.trans hloop')
      have hsame := items_eq_of_wrapped hwrapped' hwrapped
      refine ⟨hmanager, hopens, ⟨first, hfind, hsame⟩, ?_⟩
      rw [← hsame]
      exact exists_wrapped_iff.mp ⟨formatted, hloop', hwrapped'⟩
    · intro h r hr hrid hitems
      obtain ⟨hmanager, -, ⟨first, hfind, hsame⟩, horder⟩ := h r hr hrid hitems
      obtain ⟨formatted, hloop, hwrapped⟩ := exists_wrapped_iff.mpr horder
      refine ⟨_, ⟨hmanager, rfl⟩, (hexec_iff r hr hitems).mpr ⟨first, formatted, hfind, ?_, hwrapped⟩⟩
      rw [hsame]
      exact hloop
  · refine forall₄_congr fun r hr hrid hitems => ?_
    constructor
    · rintro ⟨runner, ⟨-, rfl⟩, hexec⟩
      obtain ⟨context, hok, -⟩ := hexec ⟨p, .unknown, ∅, UUID.nil, none, [], false⟩ rfl
      obtain ⟨dict, hload, hdict, -⟩ :=
        (execUpdateContextDecision_ok_iff (List.ne_nil_of_mem hr)).mp hok
      simp only [loadPreconfiguredContext, Answers.reading, hread, ofExcept, pure_bind,
        List.filter_nil, List.foldlM_nil, pure_ok_iff] at hload
      exact absurd hload.1.symm hdict
    · rintro ⟨-, h, -⟩
      exact absurd h hopens

theorem passes_iff_agrees (hself : wf.links.lookup wl.id = some wl) (h : Offers wf wl value)
    (hvisits : ∀ dict, a.Visits dict) :
    Passes wf (a.reading p (p.configured ⟨wl.id.string, value.string⟩)) p wl value ↔
      Agrees a p wl value := by
  cases h with
  | chain choices hconfig hmem hchain =>
      rw [passes_chain_iff hconfig hmem hchain]
      simp only [Agrees, hconfig]
  | replacement replacements hconfig hmem hfield =>
      obtain ⟨spec, hspec, -, hlink⟩ := hfield
      exact passes_replacement_iff hself hconfig (hlink ▸ canonical_of_field hspec) hvisits

-- Every pair of the form takes its package past the link of the pair exactly when
-- the two agree there.
theorem newProcessingConfigForm_passes_iff {orders : Str → Nat → List UUID}
    {fields : List ConfigField} (h : newProcessingConfigForm wf orders = some fields)
    {f : ConfigField} (hf : f ∈ fields) {c : FieldChoice} (hc : c ∈ f.choices)
    {applies : AppliesTo} (hmem : applies ∈ c.appliesTo) :
    ∃ wl value, wf.links.lookup wl.id = some wl ∧ applies.linkID = wl.id.string ∧
      applies.value = value.string ∧ Offers wf wl value ∧
      ∀ a p, (∀ dict, Answers.Visits a dict) →
        (Passes wf (a.reading p (p.configured ⟨applies.linkID, applies.value⟩)) p wl value ↔
          Agrees a p wl value) := by
  obtain ⟨wl, value, hself, hlink, hvalue, hoffers⟩ :=
    offered_of_newProcessingConfigForm h hf hc hmem
  refine ⟨wl, value, hself, hlink, hvalue, hoffers, fun a p hvisits => ?_⟩
  rw [hlink, hvalue]
  exact passes_iff_agrees hself hoffers hvisits

-- "Assign UUIDs to directories?" with the answer that stands for yes, and links
-- with nothing to choose for the other fields.
namespace AssignUUIDs

def item : Str := "AssignUUIDsToDirs".toList

def yes : ConfigReplacement where
  id := ⟨0x2dc3f487e4b04e07a4b36216ed24ca14⟩
  description := ∅
  items := Finmap.singleton item "True".toList

def linkFor (spec : FieldSpec) : Link where
  id := spec.linkID
  manager :=
    match spec.builder with
    | .replaceDictField => "linkTaskManagerReplacementDicFromChoice"
    | _ => "linkTaskManagerChoice"
  config :=
    match spec.builder with
    | .replaceDictField =>
        .microServiceChoiceReplacementDic
          (if spec.name = "assign_uuids_to_directories".toList then [yes] else [])
    | _ => .microServiceChainChoice []
  description := ∅
  exitCodes := ∅
  fallbackJobStatus := "Failed"
  fallbackLinkID := UUID.nil
  group := ∅
  ends := false

def spec : FieldSpec :=
  ⟨"assign_uuids_to_directories".toList, ⟨0xbd899573694e4d338c9bdf0af802437d⟩, .replaceDictField⟩

def link : Link := linkFor spec

def addLinks (links : GoMap UUID Link) (specs : List FieldSpec) : GoMap UUID Link :=
  specs.foldl (fun links spec => links.insert spec.linkID (linkFor spec)) links

theorem addLinks_id {links : GoMap UUID Link}
    (h : ∀ id link, links.lookup id = some link → link.id = id) (specs : List FieldSpec) :
    ∀ id link, (addLinks links specs).lookup id = some link → link.id = id := by
  induction specs generalizing links with
  | nil => exact h
  | cons spec specs ih =>
      refine ih fun id link hlookup => ?_
      by_cases hid : id = spec.linkID
      · subst hid
        rw [Finmap.lookup_insert] at hlookup
        obtain rfl := Option.some.inj hlookup
        rfl
      · rw [Finmap.lookup_insert_of_ne _ hid] at hlookup
        exact h id link hlookup

def workflow : Document where
  chains := ∅
  links := addLinks ∅ processingConfigFields
  chains_id := Workflow.chains_id_empty
  links_id := addLinks_id Workflow.links_id_empty processingConfigFields

theorem spec_mem : spec ∈ processingConfigFields := .tail _ (.head _)

theorem lookup_linkFor {spec : FieldSpec} (h : spec ∈ processingConfigFields) :
    workflow.links.lookup spec.linkID = some (linkFor spec) := by
  have hnodup : (processingConfigFields.map FieldSpec.linkID).Nodup := by decide
  exact GoMap.lookup_foldl_insert FieldSpec.linkID linkFor processingConfigFields hnodup ∅ h

theorem offers_yes : Offers workflow link yes.id :=
  .replacement [yes] rfl ⟨yes, List.mem_singleton_self yes, rfl⟩ ⟨spec, spec_mem, rfl, rfl⟩

def choicesFor (spec : FieldSpec) : List FieldChoice :=
  match spec.builder with
  | .replaceDictField =>
      (if spec.name = "assign_uuids_to_directories".toList then [yes] else []).map fun item =>
        ⟨item.id.string, item.description, [⟨spec.linkID.string, item.id.string, ∅⟩]⟩
  | _ => []

theorem build_eq {spec : FieldSpec} (h : spec ∈ processingConfigFields) (orders : Nat → List UUID) :
    spec.build workflow orders = some ⟨spec.linkID.string, spec.name, ∅, choicesFor spec⟩ := by
  obtain ⟨name, linkID, builder⟩ := spec
  rw [FieldSpec.build, lookup_linkFor h]
  cases builder <;> rfl

-- The pair of the link and the answer is in the form.
theorem exists_field : ∃ fields f c applies,
    newProcessingConfigForm workflow (fun _ _ => []) = some fields ∧ f ∈ fields ∧ c ∈ f.choices ∧
      applies ∈ c.appliesTo ∧ applies.linkID = link.id.string ∧
      applies.value = yes.id.string := by
  have hform : newProcessingConfigForm workflow (fun _ _ => []) = some
      (processingConfigFields.map fun spec =>
        ⟨spec.linkID.string, spec.name, ∅, choicesFor spec⟩) :=
    MapM.mapM_eq_some_map fun spec hspec => build_eq hspec _
  exact ⟨_, _, _, _, hform, List.mem_map_of_mem spec_mem, List.mem_singleton_self _,
    List.mem_singleton_self _, rfl, rfl⟩

def transfer : Package where
  id := ⟨0x5⟩
  unit := .transfer "default".toList
  sharedDir := "/shared/".toList
  path := "/shared/currentlyProcessing/a/".toList
  startAtChainID := UUID.nil
  startAtLinkID := UUID.nil

-- Range loops in some order, with the visits of formatChoices as given.
noncomputable def visiting (ks : List Str) : Answers :=
  { quiet with
    visits := fun _ => ks
    entries := fun dict => dict.entries.toList.map fun e => (e.1, e.2) }

theorem visits_visiting (ks : List Str) (dict : GoMap Str Str) : (visiting ks).Visits dict := by
  simp only [Answers.Visits, GoMap.RangeOrder, visiting, List.map_map, Function.comp_def]
  rw [List.map_id']
  exact dict.entries.coe_toList

theorem agrees_visiting : Agrees (visiting [item]) transfer link yes.id := by
  intro halias r hr hid hitems
  obtain rfl := List.mem_singleton.mp hr
  have hkeys : [item].toFinset = yes.items.keys := by decide
  have hopens : transfer.Opens := by
    unfold Package.Opens
    decide
  refine ⟨rfl, hopens, ⟨yes, rfl, rfl⟩, List.nodup_singleton item, hkeys, ?_⟩
  intro front k back hcut hmem
  have hcut : [item] = front ++ k :: back := hcut
  have hk : k = item := List.mem_singleton.mp (hcut ▸ List.mem_append_right front List.mem_cons_self)
  rw [← hkeys, hk] at hmem
  exact absurd (by simpa using hmem) (percent_ne item)

theorem newProcessingConfigForm_passes_iff_assignUUIDs :
    Passes workflow ((visiting [item]).reading transfer
      (transfer.configured ⟨link.id.string, yes.id.string⟩)) transfer link yes.id := by
  obtain ⟨fields, f, c, applies, hform, hf, hc, hmem, hlink, hvalue⟩ := exists_field
  obtain ⟨wl, value, hself, hlink', hvalue', -, hiff⟩ :=
    newProcessingConfigForm_passes_iff hform hf hc hmem
  have hid : wl.id = link.id := by
    have hparse := UUID.parse_string wl.id
    rw [← hlink', hlink, UUID.parse_string] at hparse
    exact (Option.some.inj hparse).symm
  have hyes : value = yes.id := by
    have hparse := UUID.parse_string value
    rw [← hvalue', hvalue, UUID.parse_string] at hparse
    exact (Option.some.inj hparse).symm
  rw [hid] at hself
  obtain rfl : link = wl := Option.some.inj ((lookup_linkFor spec_mem).symm.trans hself)
  subst hyes
  rw [← hlink, ← hvalue]
  exact (hiff (visiting [item]) transfer (visits_visiting _)).mpr agrees_visiting

-- The loop may visit the entry that it has just added.
theorem not_passes_revisited :
    (formatLoop [item, percent item] yes.items yes.items.keys).isSome ∧
      (∀ dict, (visiting [item, percent item]).Visits dict) ∧
      ∃ fields f c applies, newProcessingConfigForm workflow (fun _ _ => []) = some fields ∧
        f ∈ fields ∧ c ∈ f.choices ∧ applies ∈ c.appliesTo ∧ applies.linkID = link.id.string ∧
        applies.value = yes.id.string ∧
        ¬ Passes workflow ((visiting [item, percent item]).reading transfer
          (transfer.configured ⟨applies.linkID, applies.value⟩)) transfer link yes.id := by
  obtain ⟨fields, f, c, applies, hform, hf, hc, hmem, hlink, hvalue⟩ := exists_field
  refine ⟨by decide, visits_visiting _, fields, f, c, applies, hform, hf, hc, hmem, hlink, hvalue, ?_⟩
  rw [hlink, hvalue, passes_iff_agrees (lookup_linkFor spec_mem) offers_yes (visits_visiting _)]
  intro hagrees
  obtain ⟨-, -, -, -, hkeys, -⟩ := hagrees (by decide) yes (List.mem_singleton_self yes) rfl (by decide)
  exact absurd hkeys (by decide)

end AssignUUIDs

end Ccp
