import Ccp.Lib.MapM
import Ccp.Workflow

namespace Ccp.Workflow

open Lib

-- One answer to one link that a choice of the form stands for.
structure AppliesTo where
  linkID : Str
  value : Str
  label : I18nField

structure FieldChoice where
  value : Str
  label : I18nField
  appliesTo : List AppliesTo

-- ProcessingConfigField, as the builders leave it.
structure ConfigField where
  id : Str
  name : Str
  label : I18nField
  choices : List FieldChoice

inductive FieldBuilder
  | sharedChainChoicesField (relatedLinks : List UUID)
  | replaceDictField
  | chainChoicesField (ignoredChoices : List Str) (findDuplicates : Str)

structure FieldSpec where
  name : Str
  linkID : UUID
  builder : FieldBuilder

def LinkConfig.chainChoices? : LinkConfig → Option (List UUID)
  | .microServiceChainChoice choices => some choices
  | _ => none

def LinkConfig.replacements? : LinkConfig → Option (List ConfigReplacement)
  | .microServiceChoiceReplacementDic replacements => some replacements
  | _ => none

variable (wf : Document)

-- The builders panic where a link or a chain is missing or a configuration is of
-- another type: there is no result then.
namespace Build

-- The answers of one link that have the description of the choice.
def sharedLink (desc : Str) (linkID : UUID) : Option (List AppliesTo) := do
  let link ← wf.links.lookup linkID
  let choices ← link.config.chainChoices?
  let chains ← choices.mapM fun chainID => (wf.chains.lookup chainID).map fun chain => (chainID, chain)
  return (chains.filter fun c => c.2.description.string = desc).map fun c =>
    ⟨linkID.string, c.1.string, c.2.description⟩

-- The value is that of the last answer of the field's own link.
def sharedChoice (linkID : UUID) (relatedLinks : List UUID) (desc : I18nField) :
    Option FieldChoice := do
  let appliesTo ← (linkID :: relatedLinks).mapM (sharedLink wf desc.string)
  let own := appliesTo.flatten.filter (·.linkID = linkID.string)
  return ⟨(own.getLast?.map (·.value)).getD [], desc, appliesTo.flatten⟩

def sharedChainChoices (link : Link) (linkID : UUID) (relatedLinks : List UUID) :
    Option (List FieldChoice) := do
  let config ← link.config.chainChoices?
  let choices ← config.mapM fun chainID => (wf.chains.lookup chainID).map (·.description)
  choices.mapM (sharedChoice wf linkID relatedLinks)

def replaceDict (link : Link) (linkID : UUID) : Option (List FieldChoice) := do
  let config ← link.config.replacements?
  return config.map fun item =>
    ⟨item.id.string, item.description, [⟨linkID.string, item.id.string, link.description⟩]⟩

-- The answers of another link of the same description; its missing chains are
-- passed over.
def duplicate (findDuplicates desc : Str) (linkID id : UUID) : List AppliesTo :=
  if id = linkID then []
  else
    match wf.links.lookup id with
    | none => []
    | some dup =>
        if dup.description.string ≠ findDuplicates then []
        else
          ((dup.config.chainChoices?.getD []).filterMap wf.chains.lookup).filterMap fun ch =>
            if ch.description.string = desc then
              some ⟨dup.id.string, ch.id.string, ch.description⟩
            else none

-- The range loop over the links takes its own order for each of the choices.
def chainChoice (link : Link) (linkID : UUID) (findDuplicates : Str) (order : List UUID)
    (chainID : UUID) (chain : Chain) : FieldChoice where
  value := chainID.string
  label := chain.description
  appliesTo := ⟨link.id.string, chain.id.string, chain.description⟩ ::
    if findDuplicates = [] then []
    else order.flatMap (duplicate wf findDuplicates chain.description.string linkID)

def chainChoices (link : Link) (linkID : UUID) (ignoredChoices : List Str) (findDuplicates : Str)
    (orders : Nat → List UUID) : Option (List FieldChoice) := do
  let config ← link.config.chainChoices?
  let chains ← config.mapM fun chainID => (wf.chains.lookup chainID).map fun chain => (chainID, chain)
  return (chains.zipIdx.filter fun c => !ignoredChoices.contains c.1.2.description.string).map fun c =>
    chainChoice wf link linkID findDuplicates (orders c.2) c.1.1 c.1.2

def choices (spec : FieldSpec) (link : Link) (orders : Nat → List UUID) :
    Option (List FieldChoice) :=
  match spec.builder with
  | .sharedChainChoicesField relatedLinks => sharedChainChoices wf link spec.linkID relatedLinks
  | .replaceDictField => replaceDict link spec.linkID
  | .chainChoicesField ignoredChoices findDuplicates =>
      chainChoices wf link spec.linkID ignoredChoices findDuplicates orders

end Build

def FieldSpec.build (spec : FieldSpec) (orders : Nat → List UUID) : Option ConfigField := do
  let link ← wf.links.lookup spec.linkID
  let choices ← Build.choices wf spec link orders
  return ⟨spec.linkID.string, spec.name, link.description, choices⟩

def processingConfigFields : List FieldSpec := [
  ⟨"virus_scanning".toList, ⟨0x856d2d65cd2549fa8da9cabb78292894⟩,
    .sharedChainChoicesField
      [⟨0x1dad74a295df4825bbbadca8b91d2371⟩, ⟨0x7e81f94e64414430a12d76df09181b66⟩,
        ⟨0x390d650750294daebcd4ce7178c9b560⟩, ⟨0x97a5ddc0d4e043aca5719722405a0a9b⟩]⟩,
  ⟨"assign_uuids_to_directories".toList, ⟨0xbd899573694e4d338c9bdf0af802437d⟩, .replaceDictField⟩,
  ⟨"generate_transfer_structure".toList, ⟨0x56eebd4556004768a8c2ec0114555a3d⟩,
    .chainChoicesField [] []⟩,
  ⟨"select_format_id_tool_transfer".toList, ⟨0xf09847c2ee51429a9478a860477f6b8d⟩, .replaceDictField⟩,
  ⟨"extract_packages".toList, ⟨0xdec97e3c55984b99b26ef87a435a6b7f⟩, .chainChoicesField [] []⟩,
  ⟨"delete_packages".toList, ⟨0xf19926dd8fb54c798adec83f61f55b40⟩, .replaceDictField⟩,
  ⟨"policy_checks_originals".toList, ⟨0x70fc7040d4fb4d19a0e6792387ca1006⟩, .chainChoicesField [] []⟩,
  ⟨"examine_contents".toList, ⟨0xaccea2bfba744a3abb97614775c74459⟩, .chainChoicesField [] []⟩,
  ⟨"create_sip".toList, ⟨0xbb194013597c4e4a8493b36d190f8717⟩,
    .chainChoicesField ["Reject transfer".toList] []⟩,
  ⟨"select_format_id_tool_ingest".toList, ⟨0x7a024896c4f74808a24044c87c762bc5⟩, .replaceDictField⟩,
  ⟨"normalize".toList, ⟨0xcb8e5706e73f472fad9bd1236af8095f⟩,
    .chainChoicesField ["Reject SIP".toList] "Normalize".toList⟩,
  ⟨"normalize_transfer".toList, ⟨0xde909a42c5b546e19985c031b50e9d30⟩,
    .chainChoicesField ["Redo".toList, "Reject".toList] []⟩,
  ⟨"normalize_thumbnail_mode".toList, ⟨0x498f7a6d1b8c431aaa5d83f14f3c5e65⟩, .replaceDictField⟩,
  ⟨"policy_checks_preservation_derivatives".toList, ⟨0x153c5f413cfb47ba91502dd44ebc27df⟩,
    .chainChoicesField [] []⟩,
  ⟨"policy_checks_access_derivatives".toList, ⟨0x8ce07e946130498796f02399ad45c5c2⟩,
    .chainChoicesField [] []⟩,
  ⟨"bind_pids".toList, ⟨0xa2ba5278459a463892d938eb1588717d⟩, .chainChoicesField [] []⟩,
  ⟨"normative_structmap".toList, ⟨0xd0dfa5fce3c246389edaf96eea1070e0⟩, .chainChoicesField [] []⟩,
  ⟨"reminder".toList, ⟨0xeeb2350957e2452988579d62525db048⟩, .chainChoicesField [] []⟩,
  ⟨"transcribe_file".toList, ⟨0x82ee9ad22c744c7c853ee4eaf68fc8b6⟩, .chainChoicesField [] []⟩,
  ⟨"select_format_id_tool_submissiondocs".toList, ⟨0x087d27bec71947d89bbb9a7d8b609c44⟩,
    .replaceDictField⟩,
  ⟨"compression_algo".toList, ⟨0x01d64f5882954b7b9cab8f1b153a504f⟩, .replaceDictField⟩,
  ⟨"compression_level".toList, ⟨0x01c651cbc1744ba4b9851d87a44d6754⟩, .replaceDictField⟩,
  ⟨"store_aip".toList, ⟨0x2d32235c02d4468688a696f4d6c7b1c3⟩,
    .chainChoicesField ["Reject AIP".toList] []⟩,
  ⟨"upload_dip".toList, ⟨0x92879a2945bf4f0bac43e64474f0f2f9⟩, .chainChoicesField [] []⟩,
  ⟨"store_dip".toList, ⟨0x5e58066de1134383b20bf301ed4d751c⟩, .chainChoicesField [] []⟩]

-- The orders that the range loops over the links take, by field and choice.
def newProcessingConfigForm (orders : Str → Nat → List UUID) : Option (List ConfigField) :=
  processingConfigFields.mapM fun spec => spec.build wf (orders spec.name)

theorem LinkConfig.chainChoices?_eq_some_iff {config : LinkConfig} {choices : List UUID} :
    config.chainChoices? = some choices ↔ config = .microServiceChainChoice choices := by
  cases config <;> simp [LinkConfig.chainChoices?]

theorem LinkConfig.replacements?_eq_some_iff {config : LinkConfig}
    {replacements : List ConfigReplacement} :
    config.replacements? = some replacements ↔
      config = .microServiceChoiceReplacementDic replacements := by
  cases config <;> simp [LinkConfig.replacements?]

-- The link of an answer, which has the value among its choices. The links with
-- replacements are those of the fields themselves.
inductive Offers (wl : Link) (value : UUID) : Prop
  | chain (choices : List UUID) (hconfig : wl.config = .microServiceChainChoice choices)
      (hmem : value ∈ choices) (hchain : (wf.chains.lookup value).isSome)
  | replacement (replacements : List ConfigReplacement)
      (hconfig : wl.config = .microServiceChoiceReplacementDic replacements)
      (hmem : ∃ r ∈ replacements, r.id = value)
      (hfield : ∃ spec ∈ processingConfigFields,
        spec.builder = .replaceDictField ∧ spec.linkID = wl.id)

def AppliesTo.Offered (applies : AppliesTo) : Prop :=
  ∃ wl value, wf.links.lookup wl.id = some wl ∧ applies.linkID = wl.id.string ∧
    applies.value = value.string ∧ Offers wf wl value

variable {wf} {link : Link} {linkID : UUID} {applies : AppliesTo}

theorem lookup_id (hlink : wf.links.lookup linkID = some link) :
    link.id = linkID ∧ wf.links.lookup link.id = some link := by
  have hid := wf.links_id linkID link hlink
  exact ⟨hid, hid ▸ hlink⟩

theorem offered_sharedLink {desc : Str} {answers : List AppliesTo}
    (h : Build.sharedLink wf desc linkID = some answers) (hmem : applies ∈ answers) :
    applies.Offered wf := by
  simp only [Build.sharedLink, Option.bind_eq_bind, Option.bind_eq_some_iff] at h
  obtain ⟨wl, hlink, choices, hchoices, chains, hchains, hret⟩ := h
  obtain rfl := Option.some.inj hret
  obtain ⟨hid, hself⟩ := lookup_id hlink
  obtain ⟨c, hc, rfl⟩ := List.mem_map.mp hmem
  obtain ⟨chainID, hchoice, hchain⟩ := (MapM.mem_mapM hchains).mp (List.mem_of_mem_filter hc)
  obtain ⟨chain, hlookup, rfl⟩ := Option.map_eq_some_iff.mp hchain
  refine ⟨wl, chainID, hself, by rw [hid], rfl, ?_⟩
  exact .chain choices (LinkConfig.chainChoices?_eq_some_iff.mp hchoices) hchoice (by simp [hlookup])

theorem offered_sharedChainChoices {relatedLinks : List UUID} {choices : List FieldChoice}
    (h : Build.sharedChainChoices wf link linkID relatedLinks = some choices) {c : FieldChoice}
    (hc : c ∈ choices) (hmem : applies ∈ c.appliesTo) : applies.Offered wf := by
  simp only [Build.sharedChainChoices, Option.bind_eq_bind, Option.bind_eq_some_iff] at h
  obtain ⟨config, -, descs, -, hchoices⟩ := h
  obtain ⟨desc, -, hchoice⟩ := (MapM.mem_mapM hchoices).mp hc
  simp only [Build.sharedChoice, Option.bind_eq_bind, Option.bind_eq_some_iff] at hchoice
  obtain ⟨answers, hanswers, hret⟩ := hchoice
  obtain rfl := Option.some.inj hret
  obtain ⟨own, hown, hin⟩ := List.mem_flatten.mp hmem
  obtain ⟨linkID', -, hshared⟩ := (MapM.mem_mapM hanswers).mp hown
  exact offered_sharedLink hshared hin

theorem offered_replaceDict {spec : FieldSpec} (hspec : spec ∈ processingConfigFields)
    (hbuilder : spec.builder = .replaceDictField) (hlink : wf.links.lookup spec.linkID = some link)
    {choices : List FieldChoice} (h : Build.replaceDict link spec.linkID = some choices)
    {c : FieldChoice} (hc : c ∈ choices) (hmem : applies ∈ c.appliesTo) : applies.Offered wf := by
  simp only [Build.replaceDict, Option.bind_eq_bind, Option.bind_eq_some_iff] at h
  obtain ⟨replacements, hconfig, hret⟩ := h
  obtain rfl := Option.some.inj hret
  obtain ⟨hid, hself⟩ := lookup_id hlink
  obtain ⟨item, hitem, rfl⟩ := List.mem_map.mp hc
  obtain rfl := List.mem_singleton.mp hmem
  refine ⟨link, item.id, hself, by rw [hid], rfl, ?_⟩
  exact .replacement replacements (LinkConfig.replacements?_eq_some_iff.mp hconfig)
    ⟨item, hitem, rfl⟩ ⟨spec, hspec, hbuilder, hid.symm⟩

theorem offered_duplicate {findDuplicates desc : Str} {id : UUID}
    (h : applies ∈ Build.duplicate wf findDuplicates desc linkID id) : applies.Offered wf := by
  unfold Build.duplicate at h
  split_ifs at h with hid
  · cases h
  · split at h
    · cases h
    · next dup hdup =>
        split_ifs at h with hdesc
        · cases h
        · obtain ⟨hdupid, hself⟩ := lookup_id hdup
          obtain ⟨ch, hch, hsome⟩ := List.mem_filterMap.mp h
          obtain ⟨cid, hcid, hlookup⟩ := List.mem_filterMap.mp hch
          split_ifs at hsome
          obtain rfl := Option.some.inj hsome
          have hchid := wf.chains_id cid ch hlookup
          cases hchoices : dup.config.chainChoices? with
          | none => simp [hchoices] at hcid
          | some choices =>
              rw [hchoices, Option.getD_some] at hcid
              refine ⟨dup, ch.id, hself, rfl, rfl, ?_⟩
              exact .chain choices (LinkConfig.chainChoices?_eq_some_iff.mp hchoices)
                (hchid ▸ hcid) (by rw [hchid, hlookup]; rfl)

theorem offered_chainChoices {ignoredChoices : List Str} {findDuplicates : Str}
    {orders : Nat → List UUID} (hlink : wf.links.lookup linkID = some link)
    {choices : List FieldChoice}
    (h : Build.chainChoices wf link linkID ignoredChoices findDuplicates orders = some choices)
    {c : FieldChoice} (hc : c ∈ choices) (hmem : applies ∈ c.appliesTo) : applies.Offered wf := by
  simp only [Build.chainChoices, Option.bind_eq_bind, Option.bind_eq_some_iff] at h
  obtain ⟨config, hconfig, chains, hchains, hret⟩ := h
  obtain rfl := Option.some.inj hret
  obtain ⟨item, hitem, rfl⟩ := List.mem_map.mp hc
  rcases List.mem_cons.mp hmem with rfl | hmem
  · have hin : item.1 ∈ chains := List.fst_mem_of_mem_zipIdx (List.mem_of_mem_filter hitem)
    obtain ⟨chainID, hchoice, hchain⟩ := (MapM.mem_mapM hchains).mp hin
    obtain ⟨chain, hlookup, heq⟩ := Option.map_eq_some_iff.mp hchain
    have hchid := wf.chains_id chainID chain hlookup
    refine ⟨link, chainID, (lookup_id hlink).2, rfl, ?_, ?_⟩
    · rw [← heq, hchid]
    · exact .chain config (LinkConfig.chainChoices?_eq_some_iff.mp hconfig) hchoice
        (by simp [hlookup])
  · split_ifs at hmem
    · cases hmem
    · obtain ⟨id, -, hdup⟩ := List.mem_flatMap.mp hmem
      exact offered_duplicate hdup

-- Every answer of the form belongs to a link that offers it.
theorem offered_of_newProcessingConfigForm {orders : Str → Nat → List UUID}
    {fields : List ConfigField} (h : newProcessingConfigForm wf orders = some fields)
    {f : ConfigField} (hf : f ∈ fields) {c : FieldChoice} (hc : c ∈ f.choices)
    (hmem : applies ∈ c.appliesTo) : applies.Offered wf := by
  obtain ⟨spec, hspec, hbuild⟩ := (MapM.mem_mapM h).mp hf
  simp only [FieldSpec.build, Option.bind_eq_bind, Option.bind_eq_some_iff] at hbuild
  obtain ⟨link, hlink, choices, hchoices, hret⟩ := hbuild
  obtain rfl := Option.some.inj hret
  unfold Build.choices at hchoices
  split at hchoices
  · exact offered_sharedChainChoices hchoices hc hmem
  · next hbuilder => exact offered_replaceDict hspec hbuilder hlink hchoices hc hmem
  · exact offered_chainChoices hlink hchoices hc hmem

end Ccp.Workflow
