import Ccp.Worker.Mets.References

namespace Ccp.Worker.Mets

open Lib PosixPath Lib.Calls MetsState

namespace Sip

variable {sip : Sip} {st st' : MetsState} {promised promised' : List Str}

-- The sections for a path in the CSV files.
def csvSections (sip : Sip) (path : Str) : Nat :=
  csvSectionsFrom false false ((Dict.get? sip.csvMetadata path).getD [])

theorem grows_createDMDIDsFromCSVMetadata {path dmdIDs : Str}
    (h : sip.createDMDIDsFromCSVMetadata path st = .ok dmdIDs st') :
    Grows promised promised (sip.csvSections path) [] false st st' ∧
      (st'.errorCount = 0 → Listed st' dmdIDs) ∧ (sip.csvSections path = 0 → dmdIDs = []) := by
  rw [createDMDIDsFromCSVMetadata] at h
  obtain ⟨made, t, hmade, h⟩ := bind_ok_iff.mp h
  obtain ⟨rfl, rfl⟩ := pure_ok_iff.mp h
  obtain ⟨hgrows, hlength, htoken, hmem⟩ :=
    @grows_createDmdSecsFromCSVParsedMetadata _ _ promised _ _ _ _ hmade
  refine ⟨hgrows, fun hclean => listed_intercalate htoken (hmem hclean), fun hzero => ?_⟩
  rw [csvSections] at hzero
  rw [hzero, List.length_eq_zero_iff] at hlength
  rw [hlength]
  rfl

theorem trimFileMetadata_ok {f : File} {u : Unit} (h : sip.trimFileMetadata f st = .ok u st') :
    st = st' := by
  unfold trimFileMetadata at h
  rcases hrows : sip.trimRows f with _ | ⟨m, _ | ⟨m', rest⟩⟩ <;> rw [hrows] at h
  · exact absurd h throw_ne_ok
  · exact (pure_ok_iff.mp h).2
  · exact absurd h throw_ne_ok

theorem trimmed_eq_zero (h : st.trimStructMapObjects.isNone = true) : st.trimmed = 0 := by
  rw [Option.isNone_iff_eq_none] at h
  simp [trimmed, h]

theorem grows_createTrimStructMap {u : Unit} (hnone : st.trimStructMapObjects.isNone = true)
    (h : createTrimStructMap st = .ok u st') :
    Grows promised promised 0 [] true st st' := by
  rw [createTrimStructMap] at h
  obtain ⟨dmdID, s₁, hadd, h⟩ := bind_ok_iff.mp h
  obtain ⟨amdID, s₂, hcount, h⟩ := bind_ok_iff.mp h
  obtain ⟨digiprovMD, s₃, hd, h⟩ := bind_ok_iff.mp h
  rw [modify_ok_iff] at h
  obtain ⟨c₁, rfl, hissued₁, htoken₁, hdmd₁⟩ := addDmdSec_ok hadd
  obtain ⟨c₂, rfl, hissued₂, htoken₂, hdmd₂⟩ := count_ok hcount
  obtain ⟨c₃, rfl, hissued₃, hrefs₃, hdmd₃⟩ := numbers_newSections (by decide) 1 _ _ _ hd
  subst h
  have hrefs : ∀ e ∈ [newSection .dmdSec dmdID []] ++ [newSection .amdSec amdID digiprovMD],
      ∀ t, t ∉ refs e := by
    intro e he t
    rw [List.singleton_append, List.mem_cons, List.mem_singleton] at he
    rcases he with rfl | rfl
    · simp [mem_refs_newSection]
    · rw [mem_refs_newSection]
      rintro ⟨d, hd, ht⟩
      exact hrefs₃ d hd t ht
  have hgrows := @grows_sections promised [] 1 st c₃ [newSection .dmdSec dmdID []]
    [newSection .amdSec amdID digiprovMD] _ (hissued₁.append (hissued₂.append hissued₃)) (by simp)
    hrefs (hdmd₃.trans (hdmd₂.trans hdmd₁))
  have hzero := trimmed_eq_zero hnone
  refine ⟨hgrows.errors, hgrows.structMaps, hgrows.issued, fun hclean => ?_, fun hclean hst => ?_, ?_⟩
  · have hcount := hgrows.count hclean
    simp only [trimmed] at hcount hzero ⊢
    simp only [Option.isSome_some, if_true]
    omega
  · refine (hgrows.resolved hclean hst).setTrim (by simp [Dict.get?_cons]) fun t ht => Or.inl ?_
    have ht' : t = dmdID ∨ t = amdID := by
      simpa [mem_refs_mk, mem_ownRefs, Dict.get?_cons, htoken₁.tokens_eq, htoken₂.tokens_eq] using ht
    rcases ht' with rfl | rfl <;> simp [MetsState.ids]
  · rw [hzero]
    rfl

theorem grows_startTrim {f : File} {u : Unit} (h : startTrim f st = .ok u st') :
    Grows promised promised 0 [] (f.transferType = some trim) st st' := by
  rw [startTrim] at h
  obtain ⟨s, s₁, hget, h⟩ := bind_ok_iff.mp h
  obtain ⟨rfl, rfl⟩ := get_ok_iff.mp hget
  by_cases htrim : f.transferType = some trim
  · by_cases hnone : st.trimStructMapObjects.isNone = true
    · rw [if_pos ⟨htrim, hnone⟩] at h
      rw [decide_eq_true htrim]
      exact grows_createTrimStructMap hnone h
    · rw [if_neg fun hstart => hnone hstart.2] at h
      obtain ⟨-, rfl⟩ := pure_ok_iff.mp h
      have hsome : st.trimmed = 1 := by
        rw [Option.isNone_iff_eq_none, ← Ne, ← Option.isSome_iff_ne_none] at hnone
        rw [trimmed, if_pos hnone]
      exact { Grows.refl promised st with trimmed := by simp [hsome, htrim] }
  · rw [if_neg fun hstart => htrim hstart.1] at h
    obtain ⟨-, rfl⟩ := pure_ok_iff.mp h
    rw [decide_eq_false htrim]
    exact Grows.refl promised st

-- The place of a TRIM file refers to the file itself, which is not there yet.
theorem grows_addTrimFile {f : File} {u : Unit} (hfile : fileID f ∈ promised) (h : sip.addTrimFile f st = .ok u st') :
    Grows promised promised (if f.transferType = some trim then 1 else 0) [] false st st' := by
  rw [addTrimFile] at h
  by_cases htrim : f.transferType = some trim
  · rw [if_pos htrim] at h ⊢
    obtain ⟨u, s₁, hmetadata, h⟩ := bind_ok_iff.mp h
    obtain rfl := trimFileMetadata_ok hmetadata
    obtain ⟨dmdID, s₂, hadd, h⟩ := bind_ok_iff.mp h
    rw [modify_ok_iff] at h
    subst h
    obtain ⟨hgrows, hdmd, hmem⟩ := @grows_addDmdSec _ _ promised _ hadd
    refine ⟨hgrows.errors, hgrows.structMaps, hgrows.issued, fun hclean => ?_, fun hclean hst => ?_, ?_⟩
    · have hcount := hgrows.count hclean
      simpa only [trimmed, Option.isSome_map] using hcount
    · have hres := hgrows.resolved hclean hst
      cases hobjects : s₂.trimStructMapObjects with
      | none => simpa only [hobjects, Option.map_none] using ⟨hres.sections, hres.files,
          by simp, hres.names⟩
      | some objects =>
          obtain ⟨hids, hrefs⟩ := hres.trim objects hobjects
          obtain ⟨tag, attrib, children⟩ := objects
          rw [ids_mk] at hids
          refine hres.setTrim ?_ fun t ht => ?_
          · simpa [trimFileDiv, Dict.get?_cons, Element.tag, Element.attrib, Element.children]
              using hids
          · rcases mem_refs_append.mp ht with ht | ⟨c, hc, ht⟩
            · exact hrefs t ht
            · obtain rfl := List.mem_singleton.mp hc
              have ht' : t = dmdID ∨ t = fileID f := by
                simpa [trimFileDiv, mem_refs_mk, mem_ownRefs, Dict.get?_cons, hdmd.tokens_eq,
                  (token_fileID f).tokens_eq] using ht
              rcases ht' with rfl | rfl
              · exact Or.inl hmem
              · exact Or.inr hfile
    · have htrimmed := hgrows.trimmed
      simpa only [trimmed, Option.isSome_map] using htrimmed
  · rw [if_neg htrim] at h ⊢
    obtain ⟨-, rfl⟩ := pure_ok_iff.mp h
    exact Grows.refl promised st

-- The sections that a file gets from CSV files, and from TRIM.
def describedSections (sip : Sip) (f : File) : Nat :=
  if describable f then
    sip.csvSections (transferPath f) + if f.transferType = some trim then 1 else 0
  else 0

theorem grows_describe {f : File} {dmdIDs : Str} (hfile : fileID f ∈ promised)
    (h : sip.describe f st = .ok dmdIDs st') :
    Grows promised promised (sip.describedSections f) [] false st st' ∧
      (st'.errorCount = 0 → Listed st' dmdIDs) ∧
      (describable f = false ∨ sip.csvSections (transferPath f) = 0 → dmdIDs = []) := by
  rw [describe] at h
  cases hdescribable : describable f with
  | false =>
      rw [hdescribable, if_neg Bool.false_ne_true] at h
      obtain ⟨rfl, rfl⟩ := pure_ok_iff.mp h
      rw [describedSections, hdescribable, if_neg Bool.false_ne_true]
      exact ⟨Grows.refl promised st, fun _ => listed_nil st, fun _ => rfl⟩
  | true =>
      rw [hdescribable, if_pos rfl] at h
      obtain ⟨ids, s₁, hcsv, h⟩ := bind_ok_iff.mp h
      obtain ⟨u, s₂, htrim, h⟩ := bind_ok_iff.mp h
      obtain ⟨rfl, rfl⟩ := pure_ok_iff.mp h
      obtain ⟨hgrows, hlisted, hnone⟩ := @grows_createDMDIDsFromCSVMetadata _ _ _ promised _ _ hcsv
      have hgrows' := grows_addTrimFile hfile htrim
      rw [describedSections, hdescribable, if_pos rfl]
      refine ⟨hgrows.trans hgrows', fun hclean => ?_, fun hzero => ?_⟩
      · exact (hlisted (hgrows'.clean hclean)).grows hgrows' hclean
      · exact hnone (hzero.resolve_left (by decide))

theorem getOne_ok {α : Type} {l : List α} {a : α} (h : getOne l st = .ok a st') : st = st' := by
  rcases l with _ | ⟨b, _ | ⟨b', rest⟩⟩
  · exact absurd h throw_ne_ok
  · exact (pure_ok_iff.mp h).2
  · exact absurd h throw_ne_ok

-- The use of a DSpace METS file is not changed with its group, nor is one made.
theorem group_ok {f : File} {path : Str} {made : Str × Str} (h : sip.group f path st = .ok made st') :
    st = st' ∧ (made.2 = dspaceMets ↔ f.filegrpuse = dspaceMets) := by
  have hmetadata : "metadata".toList ≠ dspaceMets := by decide
  have horiginal : original ≠ dspaceMets := by decide
  unfold group at h
  split_ifs at h with hgroup htrim hown hmaildir hdspace hderived hservice hcontainer
  · obtain ⟨rfl, rfl⟩ := pure_ok_iff.mp h
    refine ⟨rfl, iff_of_false hmetadata fun hmets => ?_⟩
    exact absurd (htrim.symm.trans hmets) (by decide)
  · obtain ⟨rfl, rfl⟩ := pure_ok_iff.mp h
    exact ⟨rfl, Iff.rfl⟩
  · obtain ⟨rfl, rfl⟩ := pure_ok_iff.mp h
    refine ⟨rfl, iff_of_false horiginal fun hmets => ?_⟩
    exact absurd (hmaildir.symm.trans hmets) (by decide)
  · obtain ⟨rfl, rfl⟩ := pure_ok_iff.mp h
    exact ⟨rfl, Iff.rfl⟩
  · obtain ⟨rfl, rfl⟩ := pure_ok_iff.mp h
    exact ⟨rfl, Iff.rfl⟩
  · obtain ⟨d, s₁, hone, h⟩ := bind_ok_iff.mp h
    obtain ⟨rfl, rfl⟩ := pure_ok_iff.mp h
    exact ⟨getOne_ok hone, Iff.rfl⟩
  · obtain ⟨o, s₁, hone, h⟩ := bind_ok_iff.mp h
    obtain ⟨rfl, rfl⟩ := pure_ok_iff.mp h
    exact ⟨getOne_ok hone, Iff.rfl⟩
  · obtain ⟨rfl, rfl⟩ := pure_ok_iff.mp h
    refine ⟨rfl, iff_of_false hmetadata fun hmets => ?_⟩
    exact absurd (hcontainer.symm.trans hmets) (by decide)
  · obtain ⟨rfl, rfl⟩ := pure_ok_iff.mp h
    exact ⟨rfl, Iff.rfl⟩

theorem get?_append_dmdAttr (attrib : Dict Attr Str) (value : Str) (key : Attr) :
    Dict.get? (attrib ++ dmdAttr value) key = (Dict.get? attrib key).or
      (if value ≠ [] ∧ key = .dmdID then some value else none) := by
  rw [Dict.get?, List.find?_append, Option.map_or]
  congr 1
  rw [dmdAttr]
  by_cases hvalue : value = []
  · simp [hvalue]
  · rw [if_neg hvalue]
    by_cases hkey : key = .dmdID
    · subst hkey
      simp [hvalue]
    · simp [hkey, Ne.symm hkey]

theorem ids_dmdAttr (tag : Tag) (attrib : Dict Attr Str) (value : Str) (children : List Xml) :
    ids (.mk tag (attrib ++ dmdAttr value) children) =
      (Dict.get? attrib .id).toList ++ children.flatMap ids := by
  rw [ids_mk, get?_append_dmdAttr]
  simp

-- The div of a file or of a directory refers to its sections only.
theorem mem_refs_dmdAttr {tag : Tag} {attrib : Dict Attr Str} {value t : Str} {children : List Xml}
    (hnone : ∀ key ∈ [Attr.dmdID, .admID, .fileID], Dict.get? attrib key = none)
    (h : t ∈ refs (.mk tag (attrib ++ dmdAttr value) children)) :
    t ∈ tokens value ∨ ∃ c ∈ children, t ∈ refs c := by
  rcases mem_refs_mk.mp h with h | h
  · obtain ⟨key, hkey, v, hv, ht⟩ := mem_ownRefs.mp h
    rw [get?_append_dmdAttr, hnone key hkey, Option.none_or] at hv
    split_ifs at hv
    obtain rfl := Option.some.inj hv
    exact Or.inl ht
  · exact Or.inr h

-- What the turns for a directory have made so far refers to what is there.
structure Loop.Resolved (st : MetsState) (loop : Loop) : Prop where
  ids : ∀ c ∈ loop.children, Mets.ids c = []
  refs : ∀ c ∈ loop.children, ∀ t ∈ Mets.refs c, t ∈ st.ids
  dmdID : Listed st loop.dmdID
  parentDmdID : Listed st loop.parentDmdID
  dspaceMetsDMDID : Listed st loop.dspaceMetsDMDID

theorem Loop.Resolved.grows {loop : Loop} {brought : List Str} {n : Nat} {trims : Bool}
    (h : loop.Resolved st) (hgrows : Grows promised promised' n brought trims st st') (hclean : st'.errorCount = 0) :
    loop.Resolved st' where
  ids := h.ids
  refs c hc t ht := hgrows.mem_ids hclean (h.refs c hc t ht)
  dmdID := h.dmdID.grows hgrows hclean
  parentDmdID := h.parentDmdID.grows hgrows hclean
  dspaceMetsDMDID := h.dspaceMetsDMDID.grows hgrows hclean

theorem grows_createDSpaceDMDSec {path dmdIDs : Str}
    (h : sip.createDSpaceDMDSec path st = .ok dmdIDs st') :
    Grows promised promised (if sip.dspaceIdentified path then 2 else 1) [] false st st' ∧
      Listed st' dmdIDs := by
  rw [createDSpaceDMDSec] at h
  obtain ⟨dmdID, s₁, hcount, h⟩ := bind_ok_iff.mp h
  obtain ⟨c₁, rfl, hissued₁, htoken₁, hdmd₁⟩ := count_ok hcount
  split_ifs at h ⊢
  · obtain ⟨dcID, s₂, hcount, h⟩ := bind_ok_iff.mp h
    obtain ⟨c₂, rfl, hissued₂, htoken₂, hdmd₂⟩ := count_ok hcount
    obtain ⟨u, s₃, hmodify, h⟩ := bind_ok_iff.mp h
    obtain ⟨rfl, rfl⟩ := pure_ok_iff.mp h
    obtain rfl := modify_ok_iff.mp hmodify
    have hgrows := @grows_sections promised [] 2 st c₂
      [newSection .dmdSec dmdID [], newSection .dmdSec dcID []] [] _ (hissued₁.append hissued₂)
      (by simp) (by simp [mem_refs_newSection]) (hdmd₂.trans (congrArg (· + 1) hdmd₁))
    rw [List.append_nil] at hgrows
    refine ⟨hgrows, listed_intercalate ?_ ?_⟩
    · simp [htoken₁, htoken₂]
    · simp [MetsState.ids]
  · obtain ⟨rfl, rfl⟩ := pure_ok_iff.mp h
    -- the number of the section is lost
    have hgrows := @grows_sections promised [] 1 st c₁ [] [] [] (.nil hissued₁.le) (by simp)
      (by simp) hdmd₁
    rw [List.append_nil, List.append_nil] at hgrows
    exact ⟨hgrows, listed_nil _⟩

theorem numbers_rightsSections (f : File) (use : Str) : Numbers (sip.rightsSections f use) := by
  unfold rightsSections
  split
  · exact numbers_newSections (by decide) _
  · exact numbers_nil

theorem numbers_transferSections (f : File) (use : Str) : Numbers (sip.transferSections f use) := by
  unfold transferSections
  split
  · exact numbers_newSections (by decide) _
  · split
    · intro st secs st' h
      obtain ⟨u, t, htrim, h⟩ := bind_ok_iff.mp h
      obtain rfl := trimFileMetadata_ok htrim
      exact numbers_newSections (by decide) 1 _ _ _ h
    · exact numbers_nil

-- The section of a file has its parts in the order in which they get their numbers.
theorem getAMDSec_ok {f : File} {use : Str} {made : Xml × Str}
    (h : sip.getAMDSec f use st = .ok made st') :
    ∃ c, st' = { st with counter := c } ∧ Issued Kind.ident st.counter c (ids made.1) ∧
      Token made.2 ∧ made.2 ∈ ids made.1 ∧ (∀ t, t ∉ refs made.1) ∧
      c .dmdSec = st.counter .dmdSec := by
  rw [getAMDSec] at h
  obtain ⟨amdID, s₁, hcount, h⟩ := bind_ok_iff.mp h
  obtain ⟨techMD, s₂, htech, h⟩ := bind_ok_iff.mp h
  obtain ⟨rights, s₃, hr, h⟩ := bind_ok_iff.mp h
  obtain ⟨special, s₄, hs, h⟩ := bind_ok_iff.mp h
  obtain ⟨digiprovMD, s₅, hd, h⟩ := bind_ok_iff.mp h
  obtain ⟨rfl, rfl⟩ := pure_ok_iff.mp h
  obtain ⟨c₁, rfl, hi₁, htoken, hdmd₁⟩ := count_ok hcount
  obtain ⟨c₂, rfl, hi₂, href₂, hdmd₂⟩ := numbers_newSections (by decide) 1 _ _ _ htech
  obtain ⟨c₃, rfl, hi₃, href₃, hdmd₃⟩ := numbers_rightsSections f use _ _ _ hr
  obtain ⟨c₄, rfl, hi₄, href₄, hdmd₄⟩ := numbers_transferSections f use _ _ _ hs
  obtain ⟨c₅, rfl, hi₅, href₅, hdmd₅⟩ := numbers_newSections (by decide) _ _ _ _ hd
  refine ⟨c₅, rfl, ?_, htoken, by simp, fun t => ?_, ?_⟩
  · have hall := hi₁.append (hi₂.append (hi₃.append (hi₄.append hi₅)))
    simpa using hall
  · rw [mem_refs_newSection]
    rintro ⟨e, he, ht⟩
    simp only [List.mem_append] at he
    rcases he with ((he | he) | he) | he
    · exact href₂ e he t ht
    · exact href₃ e he t ht
    · exact href₄ e he t ht
    · exact href₅ e he t ht
  · exact hdmd₅.trans (hdmd₄.trans (hdmd₃.trans (hdmd₂.trans hdmd₁)))

-- The sections for the METS file of a DSpace item.
def dspaceSections (sip : Sip) (f : File) (path : Str) : Nat :=
  if f.transferType = some dspace ∧ f.filegrpuse = dspaceMets then
    if sip.dspaceIdentified path then 2 else 1
  else 0

theorem grows_dspaceProcessing {f : File} {path groupID use : Str} {loop : Loop}
    {made : Loop × Str × Str} (huse : use = dspaceMets ↔ f.filegrpuse = dspaceMets)
    (h : sip.dspaceProcessing f path groupID use loop st = .ok made st') :
    Grows promised promised (sip.dspaceSections f path) [] false st st' ∧
      made.1.children = loop.children ∧
      (st'.errorCount = 0 → loop.Resolved st → made.1.Resolved st') := by
  rw [dspaceProcessing] at h
  rw [dspaceSections]
  by_cases hmets : f.transferType = some dspace ∧ f.filegrpuse = dspaceMets
  · rw [if_pos ⟨hmets.1, huse.mpr hmets.2⟩] at h
    rw [if_pos hmets]
    obtain ⟨ids, s₁, hcreate, h⟩ := bind_ok_iff.mp h
    obtain ⟨hgrows, hlisted⟩ := @grows_createDSpaceDMDSec _ _ _ promised _ _ hcreate
    by_cases hgroup : groupID = []
    · rw [if_pos hgroup] at h
      obtain ⟨rfl, rfl⟩ := pure_ok_iff.mp h
      refine ⟨hgrows, by split_ifs <;> rfl, fun hclean hloop => ?_⟩
      have hloop' := hloop.grows hgrows hclean
      split_ifs
      · exact hloop'
      · exact { hloop' with parentDmdID := hlisted }
    · rw [if_neg hgroup] at h
      obtain ⟨rfl, rfl⟩ := pure_ok_iff.mp h
      refine ⟨hgrows, by split_ifs <;> rfl, fun hclean hloop => ?_⟩
      have hloop' := hloop.grows hgrows hclean
      split_ifs
      · exact hloop'
      · exact { hloop' with dspaceMetsDMDID := hlisted }
  · rw [if_neg fun hboth => hmets ⟨hboth.1, huse.mp hboth.2⟩] at h
    rw [if_neg hmets]
    obtain ⟨rfl, rfl⟩ := pure_ok_iff.mp h
    exact ⟨Grows.refl promised st, rfl, fun _ hloop => hloop⟩

-- Both kinds of IDs on one div would be one word.
theorem grows_dataverseProcessing {f : File} {dmdIDs value : Str}
    (h : sip.dataverseProcessing f dmdIDs st = .ok value st') :
    Grows promised promised 0 (sip.tabIDs f) false st st' ∧
      (Listed st dmdIDs → (∀ id ∈ sip.tabIDs f, Token id) → (dmdIDs = [] ∨ sip.tabIDs f = []) →
        Listed st' value) := by
  rw [dataverseProcessing] at h
  obtain ⟨u, s₁, hmodify, h⟩ := bind_ok_iff.mp h
  obtain ⟨rfl, rfl⟩ := pure_ok_iff.mp h
  obtain rfl := modify_ok_iff.mp hmodify
  have hids : ((sip.tabIDs f).map fun id => newSection .dmdSec id []).flatMap ids = sip.tabIDs f := by
    rw [List.flatMap_map]
    simp
  have hgrows := @grows_sections promised (sip.tabIDs f) 0 st st.counter
    ((sip.tabIDs f).map fun id => newSection .dmdSec id []) [] [] (.nil fun _ => Nat.le_refl _)
    (by rw [List.append_nil, hids]; simp) (by simp [mem_refs_newSection]) rfl
  rw [List.append_nil] at hgrows
  refine ⟨hgrows, fun hlisted htoken hone => ?_⟩
  rcases hone with rfl | hnone
  · refine listed_intercalate htoken fun id hid => ?_
    simp only [MetsState.ids, List.flatMap_append, hids]
    simp [hid]
  · rw [hnone]
    simpa [MetsState.ids, hnone, Listed] using hlisted

theorem fileAttrib_ok {f : File} {groupID use : Str} {attrib : Dict Attr Str}
    (h : sip.fileAttrib f groupID use st = .ok attrib st') :
    ∃ c amds, st' = { st with counter := c, amdSecs := st.amdSecs ++ amds } ∧
      Grows promised promised 0 [] false st st' ∧ Dict.get? attrib .id = some (fileID f) ∧
      ∀ t ∈ ownRefs attrib, t ∈ st'.ids := by
  rw [fileAttrib] at h
  split_ifs at h
  · obtain ⟨made, s₁, hamd, h⟩ := bind_ok_iff.mp h
    obtain ⟨amd, amdID⟩ := made
    obtain ⟨u, s₂, hmodify, h⟩ := bind_ok_iff.mp h
    obtain ⟨rfl, rfl⟩ := pure_ok_iff.mp h
    obtain rfl := modify_ok_iff.mp hmodify
    obtain ⟨c, rfl, hissued, htoken, hmem, hrefs, hdmd⟩ := getAMDSec_ok hamd
    have hgrows := @grows_sections promised [] 0 st c [] [amd] _ hissued (by simp)
      (by simpa using hrefs) hdmd
    rw [List.append_nil] at hgrows
    refine ⟨c, [amd], rfl, hgrows, rfl, fun t ht => ?_⟩
    have ht' : t = amdID := by
      simpa [mem_ownRefs, Dict.get?_cons, htoken.tokens_eq] using ht
    subst ht'
    simp only [MetsState.ids, List.flatMap_append]
    simp [hmem]
  · obtain ⟨rfl, rfl⟩ := pure_ok_iff.mp h
    refine ⟨st.counter, [], by rw [List.append_nil], Grows.refl promised st, rfl, fun t ht => ?_⟩
    simp [mem_ownRefs, Dict.get?_cons] at ht

-- The elements of the groups when one is put to a group that is there.
theorem flatMap_set {groups : Dict Str (List Xml)} {use : Str} {old : List Xml} (elem : Xml)
    (h : Dict.get? groups use = some old) :
    ((Dict.set groups use (old ++ [elem])).flatMap Prod.snd).Perm
      (groups.flatMap Prod.snd ++ [elem]) := by
  induction groups with
  | nil => simp at h
  | cons grp groups ih =>
      obtain ⟨key, files⟩ := grp
      rw [Dict.get?_cons] at h
      by_cases hkey : key = use
      · rw [if_pos hkey] at h
        obtain rfl := Option.some.inj h
        rw [Dict.set, if_pos hkey, List.flatMap_cons, List.flatMap_cons, List.append_assoc,
          List.append_assoc]
        exact List.perm_append_comm.append_left files
      · rw [if_neg hkey] at h
        rw [Dict.set, if_neg hkey, List.flatMap_cons, List.flatMap_cons, List.append_assoc]
        exact (ih h).append_left files

-- A file element keeps the promise of its ID.
theorem grows_addElem {use id : Str} {old : List Xml} {elem : Xml}
    (hgroup : Dict.get? st.globalFileGrps use = some old) (hid : ids elem = [id])
    (hrefs : ∀ t ∈ refs elem, t ∈ st.ids) :
    Grows [id] [] 0 [id] false st
      { st with globalFileGrps := Dict.set st.globalFileGrps use (old ++ [elem]) } := by
  have hperm := flatMap_set elem hgroup
  have hids : MetsState.ids { st with
      globalFileGrps := Dict.set st.globalFileGrps use (old ++ [elem]) } = st.ids + ↑[id] := by
    have hfiles := Multiset.coe_eq_coe.mpr (hperm.flatMap_right ids)
    rw [List.flatMap_append, List.flatMap_singleton, hid, ← Multiset.coe_add] at hfiles
    simp only [MetsState.ids, MetsState.files, hfiles]
    abel
  have hmem : ∀ t, t ∈ st.ids ∨ t ∈ [id] → t ∈ MetsState.ids { st with
      globalFileGrps := Dict.set st.globalFileGrps use (old ++ [elem]) } ∨ t ∈ ([] : List Str) := by
    intro t ht
    rw [hids, Multiset.mem_add]
    exact Or.inl ht
  refine ⟨Nat.le_refl _, rfl, fun _ => ⟨[], .nil fun _ => Nat.le_refl _, ?_⟩, fun _ => rfl,
    fun _ hst => ⟨hst.sections, fun e he t ht => hmem t ?_, fun e he => ?_, fun path i hi => ?_⟩, ?_⟩
  · rw [hids]
    simp
  · rcases List.mem_append.mp (hperm.mem_iff.mp he) with he | he
    · exact hst.files e he t ht
    · obtain rfl := List.mem_singleton.mp he
      exact Or.inl (hrefs t ht)
  · exact ⟨(hst.trim e he).1, fun t ht => hmem t ((hst.trim e he).2 t ht)⟩
  · exact ⟨(hst.names path i hi).1, hmem i (hst.names path i hi).2⟩
  · exact (Nat.max_zero _).symm

theorem grows_addFileElem {f : File} {path groupID use : Str} {loop made : Loop}
    (h : sip.addFileElem f path groupID use loop st = .ok made st') :
    Grows [fileID f] [] 0 [fileID f] false st st' ∧
      (st'.errorCount = 0 → fileID f ∈ st'.ids ∧ (loop.Resolved st' → made.Resolved st')) := by
  rw [addFileElem] at h
  obtain ⟨s, s₁, hget, h⟩ := bind_ok_iff.mp h
  obtain ⟨rfl, rfl⟩ := get_ok_iff.mp hget
  cases hgroup : Dict.get? st.globalFileGrps use with
  | none =>
      rw [hgroup] at h
      obtain ⟨u, s₂, hmodify, h⟩ := bind_ok_iff.mp h
      obtain ⟨rfl, rfl⟩ := pure_ok_iff.mp h
      obtain rfl := modify_ok_iff.mp hmodify
      -- the file has no element, and the error is counted
      have herror : ∀ {p : Prop}, st.errorCount + 1 = 0 → p := fun hclean => absurd hclean (by omega)
      exact ⟨⟨Nat.le_succ _, rfl, herror, herror, herror, by simp [MetsState.trimmed]⟩, herror⟩
  | some old =>
      rw [hgroup] at h
      obtain ⟨attrib, s₂, hattrib, h⟩ := bind_ok_iff.mp h
      obtain ⟨u, s₃, hmodify, h⟩ := bind_ok_iff.mp h
      obtain ⟨rfl, rfl⟩ := pure_ok_iff.mp h
      obtain rfl := modify_ok_iff.mp hmodify
      obtain ⟨c, amds, rfl, hgrows, hid, hrefs⟩ := @fileAttrib_ok _ _ _ [fileID f] _ _ _ _ hattrib
      have hkeeps := @grows_addElem { st with counter := c, amdSecs := st.amdSecs ++ amds } use
        (fileID f) old (.mk .file attrib [.mk .fLocat [(.href, path)] []]) hgroup
        (by simp [hid, Dict.get?_cons]) (by simpa [mem_refs_mk, mem_ownRefs, Dict.get?_cons] using hrefs)
      dsimp only
      rw [hgroup, Option.getD_some]
      refine ⟨hgrows.trans hkeeps, fun hclean => ⟨?_, fun hloop => ?_⟩⟩
      · obtain ⟨issued, -, hids⟩ := hkeeps.issued hclean
        rw [hids, Multiset.mem_add]
        exact Or.inr (List.mem_singleton_self _)
      · split_ifs
        · exact { hloop with }
        · exact hloop

theorem grows_promise (promised : List Str) (st : MetsState) :
    Grows [] promised 0 [] false st st :=
  { Grows.refl [] st with
    resolved := fun _ hst =>
      { sections := hst.sections
        files := fun e he t ht => Or.inl ((hst.files e he t ht).resolve_right List.not_mem_nil)
        trim := fun e he => ⟨(hst.trim e he).1,
          fun t ht => Or.inl (((hst.trim e he).2 t ht).resolve_right List.not_mem_nil)⟩
        names := fun path id hid => ⟨(hst.names path id hid).1,
          Or.inl ((hst.names path id hid).2.resolve_right List.not_mem_nil)⟩ } }

theorem grows_setName {f : File} (hfile : fileID f ∈ promised) (path : Str) :
    Grows promised promised 0 [] false st
      { st with fileNameToFileID := Dict.set st.fileNameToFileID path (fileID f) } :=
  { Grows.refl promised st with
    resolved := fun _ hst =>
      { hst with
        names := fun p id hid => by
          dsimp only at hid
          rw [Dict.get?_set] at hid
          split_ifs at hid
          · obtain rfl := Option.some.inj hid
            exact ⟨token_fileID f, Or.inr hfile⟩
          · exact hst.names p id hid } }

theorem grows_checkGroup {groupID : Str} {u : Unit} (h : checkGroup groupID st = .ok u st') :
    Grows promised promised 0 [] false st st' := by
  unfold checkGroup at h
  split_ifs at h
  · obtain rfl := modify_ok_iff.mp h
    have herror : ∀ {p : Prop}, st.errorCount + 1 = 0 → p := fun hclean => absurd hclean (by omega)
    exact ⟨Nat.le_succ _, rfl, herror, herror, herror, (Nat.max_zero _).symm⟩
  · obtain ⟨-, rfl⟩ := pure_ok_iff.mp h
    exact Grows.refl promised st

-- The row of the file at a path, when there is one.
def row (sip : Sip) (path : Str) : Option File :=
  match sip.rows path with
  | [f] => some f
  | _ => none

-- What the file at a path adds: dmdSecs, IDs, and a TRIM container.
def fileSections (sip : Sip) (path : Str) : Nat :=
  (sip.row path).elim 0 fun f => sip.describedSections f + sip.dspaceSections f path

def fileIDs (sip : Sip) (path : Str) : List Str :=
  (sip.row path).elim [] fun f => sip.tabIDs f ++ [fileID f]

def fileTrims (sip : Sip) (path : Str) : Bool :=
  (sip.row path).elim false fun f => f.transferType = some trim

-- The IDs that Dataverse has for a file can stand on its div: they are identifiers,
-- and the file has none from a CSV file.
def Joinable (sip : Sip) (f : File) : Prop :=
  (∀ id ∈ sip.tabIDs f, Token id) ∧
    (describable f = true → sip.csvSections (transferPath f) ≠ 0 → sip.tabIDs f = [])

theorem grows_addFile {path name : Str} {loop made : Loop}
    (h : sip.addFile path name loop st = .ok made st') :
    Grows [] [] (sip.fileSections path) (sip.fileIDs path) (sip.fileTrims path) st st' ∧
      (st'.errorCount = 0 → (∀ f ∈ sip.row path, sip.Joinable f) → loop.Resolved st →
        made.Resolved st') := by
  unfold addFile at h
  rcases hrows : sip.rows path with _ | ⟨f, _ | ⟨f', rest⟩⟩ <;> rw [hrows] at h
  · have hrow : sip.row path = none := by rw [row, hrows]
    obtain ⟨u, s₁, hmodify, h⟩ := bind_ok_iff.mp h
    obtain ⟨rfl, rfl⟩ := pure_ok_iff.mp h
    obtain rfl := modify_ok_iff.mp hmodify
    have herror : ∀ {p : Prop}, st.errorCount + 1 = 0 → p := fun hclean => absurd hclean (by omega)
    rw [fileTrims, hrow]
    exact ⟨⟨Nat.le_succ _, rfl, herror, herror, herror, (Nat.max_zero _).symm⟩, herror⟩
  · have hrow : sip.row path = some f := by rw [row, hrows]
    obtain ⟨u₁, s₁, htrim, h⟩ := bind_ok_iff.mp h
    obtain ⟨u₂, s₂, hname, h⟩ := bind_ok_iff.mp h
    obtain ⟨⟨groupID, use⟩, s₃, hgroup, h⟩ := bind_ok_iff.mp h
    obtain ⟨hsame, huse⟩ := group_ok hgroup
    rw [← hsame] at h
    obtain ⟨dmdIDs, s₄, hdescribe, h⟩ := bind_ok_iff.mp h
    obtain ⟨⟨loop', groupID', use'⟩, s₅, hdspace, h⟩ := bind_ok_iff.mp h
    obtain ⟨value, s₆, hdataverse, h⟩ := bind_ok_iff.mp h
    obtain ⟨u₃, s₇, hcheck, h⟩ := bind_ok_iff.mp h
    have hfile : fileID f ∈ [fileID f] := List.mem_singleton_self _
    have g₁ := @grows_startTrim _ _ [fileID f] _ _ htrim
    have g₂ := @grows_setName s₁ _ _ hfile (replaceFirst sip.base [] path)
    rw [modify_ok_iff.mp hname] at g₂
    obtain ⟨g₄, hlisted, hnone⟩ := grows_describe hfile hdescribe
    obtain ⟨g₅, hchildren, hloop⟩ := @grows_dspaceProcessing _ _ _ [fileID f] _ _ _ _ _ _ huse hdspace
    obtain ⟨g₆, hvalue⟩ := @grows_dataverseProcessing _ _ _ [fileID f] _ _ _ hdataverse
    have g₇ := @grows_checkGroup _ _ [fileID f] _ _ hcheck
    obtain ⟨g₈, hadded⟩ := grows_addFileElem h
    have hall := (grows_promise [fileID f] st).trans (g₁.trans (g₂.trans (g₄.trans (g₅.trans
      (g₆.trans (g₇.trans g₈))))))
    refine ⟨?_, fun hclean hjoin hres => ?_⟩
    · simpa [fileSections, fileIDs, fileTrims, hrow] using hall
    · have c₆ := (g₇.trans g₈).clean hclean
      have c₅ := g₆.clean c₆
      have c₄ := g₅.clean c₅
      have hres' := hloop c₅ (hres.grows (g₁.trans (g₂.trans g₄)) c₄)
      have hdiv := hres'.grows (g₆.trans (g₇.trans g₈)) hclean
      obtain ⟨htoken, hjoin⟩ := hjoin f hrow
      have hone : dmdIDs = [] ∨ sip.tabIDs f = [] := by
        by_cases htab : sip.tabIDs f = []
        · exact Or.inr htab
        · refine Or.inl (hnone ?_)
          cases hdescribable : describable f with
          | false => exact Or.inl rfl
          | true =>
              refine Or.inr ?_
              by_contra hcsv
              exact htab (hjoin hdescribable hcsv)
      have hvalue' := (hvalue ((hlisted c₄).grows g₅ c₅) htoken hone).grows (g₇.trans g₈) hclean
      obtain ⟨hmem, hmade⟩ := hadded hclean
      refine hmade { hdiv with ids := fun c hc => ?_, refs := fun c hc t ht => ?_ }
      · rcases List.mem_append.mp hc with hc | hc
        · exact hdiv.ids c hc
        · obtain rfl := List.mem_singleton.mp hc
          rw [ids_dmdAttr]
          simp [Dict.get?_cons]
      · rcases List.mem_append.mp hc with hc | hc
        · exact hdiv.refs c hc t ht
        · obtain rfl := List.mem_singleton.mp hc
          rcases mem_refs_dmdAttr (by simp [Dict.get?_cons]) ht with ht | ⟨c, hc, ht⟩
          · exact hvalue' t ht
          · obtain rfl := List.mem_singleton.mp hc
            have ht' : t = fileID f := by
              simpa [mem_refs_mk, mem_ownRefs, Dict.get?_cons, (token_fileID f).tokens_eq] using ht
            exact ht' ▸ hmem
  · exact absurd h throw_ne_ok

-- The sections of a directory.
def dirSections (sip : Sip) (directoryPath : Str) : Nat :=
  (if sip.hasRow (replaceFirst sip.base [] directoryPath) then 1 else 0) +
    sip.csvSections (replaceFirst sip.base [] directoryPath)

theorem grows_dirDmdSec {path id : Str} (h : sip.dirDmdSec path st = .ok id st') :
    Grows promised promised (if sip.hasRow path then 1 else 0) [] false st st' ∧ Listed st' id := by
  unfold dirDmdSec at h
  split_ifs at h ⊢
  · obtain ⟨hgrows, htoken, hmem⟩ := @grows_addDmdSec _ _ promised _ h
    refine ⟨hgrows, fun t ht => ?_⟩
    rw [htoken.tokens_eq, List.mem_singleton] at ht
    exact ht ▸ hmem
  · obtain ⟨rfl, rfl⟩ := pure_ok_iff.mp h
    exact ⟨Grows.refl promised st, listed_nil st⟩

theorem grows_beginDirectory {path : Str} {loop : Loop} (h : sip.beginDirectory path st = .ok loop st') :
    Grows promised promised (sip.dirSections path) [] false st st' ∧
      (st'.errorCount = 0 → loop.Resolved st') := by
  rw [beginDirectory] at h
  obtain ⟨dirDmdID, s₁, hdir, h⟩ := bind_ok_iff.mp h
  obtain ⟨dmdIDs, s₂, hcsv, h⟩ := bind_ok_iff.mp h
  obtain ⟨rfl, rfl⟩ := pure_ok_iff.mp h
  obtain ⟨g₁, hlisted₁⟩ := @grows_dirDmdSec _ _ _ promised _ _ hdir
  obtain ⟨g₂, hlisted₂, -⟩ := @grows_createDMDIDsFromCSVMetadata _ _ _ promised _ _ hcsv
  refine ⟨g₁.trans g₂, fun hclean => ⟨by simp, by simp, fun t ht => ?_, listed_nil _, listed_nil _⟩⟩
  have hboth : t ∈ tokens dirDmdID ∨ t ∈ tokens dmdIDs := by
    dsimp only at ht
    split_ifs at ht with hne
    · rwa [tokens_append_space, List.mem_append] at ht
    · rcases not_and_or.mp hne with hnil | hnil
      · rw [not_not.mp hnil, List.nil_append] at ht
        exact Or.inr ht
      · rw [not_not.mp hnil, List.append_nil] at ht
        exact Or.inl ht
  rcases hboth with ht | ht
  · exact (hlisted₁.grows g₂ hclean) t ht
  · exact hlisted₂ hclean t ht

theorem ids_setDspaceDMDID (loop : Loop) (e : Xml) : ids (setDspaceDMDID loop e) = ids e := by
  unfold setDspaceDMDID
  split_ifs
  · exact ids_set (by decide) _ e
  · rfl

theorem mem_refs_setDspaceDMDID {loop : Loop} {e : Xml} {t : Str}
    (h : t ∈ refs (setDspaceDMDID loop e)) : t ∈ refs e ∨ t ∈ tokens loop.dspaceMetsDMDID := by
  unfold setDspaceDMDID at h
  split_ifs at h
  · exact mem_refs_set h
  · exact Or.inl h

theorem grows_endDirectory {path : Str} {loop : Loop} {div : Xml}
    (hloop : st.errorCount = 0 → loop.Resolved st) (h : endDirectory path loop st = .ok div st') :
    Grows [] [] 0 [] false st st' ∧
      (st'.errorCount = 0 → ids div = [] ∧ ∀ t ∈ refs div, t ∈ st'.ids) := by
  rw [endDirectory] at h
  obtain ⟨u, s₁, hmodify, h⟩ := bind_ok_iff.mp h
  obtain ⟨rfl, rfl⟩ := pure_ok_iff.mp h
  obtain rfl := modify_ok_iff.mp hmodify
  have hfiles : MetsState.files { st with
      globalFileGrps := st.globalFileGrps.map fun grp =>
        (grp.1, grp.2.map (setDspaceDMDID loop)) } = st.files.map (setDspaceDMDID loop) := by
    simp only [MetsState.files, List.flatMap_map, List.map_flatMap]
  have hids : MetsState.ids { st with
      globalFileGrps := st.globalFileGrps.map fun grp =>
        (grp.1, grp.2.map (setDspaceDMDID loop)) } = st.ids := by
    rw [MetsState.ids, hfiles, List.flatMap_map]
    simp only [ids_setDspaceDMDID]
    rfl
  refine ⟨⟨Nat.le_refl _, rfl, fun _ => ⟨[], .nil fun _ => Nat.le_refl _, ?_⟩, fun _ => rfl,
    fun hclean hst => ⟨hst.sections, fun e he t ht => ?_, fun e he => ?_, fun p id hid => ?_⟩,
    (Nat.max_zero _).symm⟩, fun hclean => ⟨?_, fun t ht => ?_⟩⟩
  · rw [hids]
    simp
  · rw [hfiles] at he
    rw [hids]
    obtain ⟨file, hfile, rfl⟩ := List.mem_map.mp he
    rcases mem_refs_setDspaceDMDID ht with ht | ht
    · exact hst.files file hfile t ht
    · exact Or.inl ((hloop hclean).dspaceMetsDMDID t ht)
  · rw [hids]
    exact hst.trim e he
  · rw [hids]
    exact hst.names p id hid
  · rw [ids_dmdAttr]
    simpa [Dict.get?_cons] using (hloop hclean).ids
  · rw [hids]
    rcases mem_refs_dmdAttr (by simp [Dict.get?_cons]) ht with ht | ⟨c, hc, ht⟩
    · exact (hloop hclean).dmdID t ht
    · exact (hloop hclean).refs c hc t ht

end Sip

-- The directories and files that are visited below a directory.
inductive Visit
  | dir (path : Str)
  | file (path : Str)
deriving DecidableEq

def Visit.path : Visit → Str
  | dir path => path
  | file path => path

def Listing.visits (directoryPath : Str) : Listing → List Visit
  | nil => []
  | other _ rest => rest.visits directoryPath
  | file name rest => .file (join directoryPath name) :: rest.visits directoryPath
  | dir name sub rest => .dir (join directoryPath name) ::
      (sub.visits (join directoryPath name) ++ rest.visits directoryPath)

namespace Sip

variable {sip : Sip} {st st' : MetsState}

-- The row of a file that is visited.
def visited (sip : Sip) : Visit → Option File
  | .dir _ => none
  | .file path => sip.row path

def sections (sip : Sip) : Visit → Nat
  | .dir path => sip.dirSections path
  | .file path => sip.fileSections path

def brought (sip : Sip) : Visit → List Str
  | .dir _ => []
  | .file path => sip.fileIDs path

def trims (sip : Sip) : Visit → Bool
  | .dir _ => false
  | .file path => sip.fileTrims path

theorem Loop.Resolved.addDir {loop : Loop} {div : Xml} {parentDmdID : Str} (h : loop.Resolved st)
    (hids : Mets.ids div = []) (hrefs : ∀ t ∈ Mets.refs div, t ∈ st.ids)
    (hparent : Listed st parentDmdID) :
    (loop.addDir div parentDmdID).Resolved st := by
  refine ⟨fun c hc => ?_, fun c hc => ?_, ?_, h.parentDmdID, h.dspaceMetsDMDID⟩
  · rcases List.mem_append.mp hc with hc | hc
    · exact h.ids c hc
    · exact List.mem_singleton.mp hc ▸ hids
  · rcases List.mem_append.mp hc with hc | hc
    · exact h.refs c hc
    · exact List.mem_singleton.mp hc ▸ hrefs
  · dsimp only [Loop.addDir]
    split_ifs
    · exact h.dmdID
    · exact hparent

-- By induction on what the directory holds, from the file and the directory at a time.
theorem grows_items {listing : Listing} {path : Str} {loop made : Loop}
    (hjoin : ∀ v ∈ listing.visits path, ∀ f ∈ sip.visited v, sip.Joinable f)
    (hloop : st.errorCount = 0 → loop.Resolved st)
    (h : sip.items path listing loop st = .ok made st') :
    Grows [] [] ((listing.visits path).map sip.sections).sum
        ((listing.visits path).flatMap sip.brought) ((listing.visits path).any sip.trims) st st' ∧
      (st'.errorCount = 0 → made.Resolved st') := by
  induction listing generalizing path loop made st st' with
  | nil =>
      obtain ⟨rfl, rfl⟩ := pure_ok_iff.mp h
      exact ⟨Grows.refl [] st, hloop⟩
  | other name rest ih => exact ih hjoin hloop h
  | file name rest ih =>
      rw [items] at h
      obtain ⟨loop', s₁, hfile, h⟩ := bind_ok_iff.mp h
      obtain ⟨g₁, hresolved⟩ := grows_addFile hfile
      have hjoin₁ := hjoin (.file (join path name)) List.mem_cons_self
      obtain ⟨g₂, hmade⟩ := ih (fun v hv => hjoin v (List.mem_cons_of_mem _ hv))
        (fun hclean => hresolved hclean hjoin₁ (hloop (g₁.clean hclean))) h
      rw [Listing.visits]
      exact ⟨g₁.trans g₂, hmade⟩
  | dir name sub rest ihsub ihrest =>
      rw [items] at h
      obtain ⟨below, s₁, hbegin, h⟩ := bind_ok_iff.mp h
      obtain ⟨below', s₂, hitems, h⟩ := bind_ok_iff.mp h
      obtain ⟨div, s₃, hend, h⟩ := bind_ok_iff.mp h
      rw [Listing.visits] at hjoin ⊢
      obtain ⟨g₁, hbelow⟩ := @grows_beginDirectory _ _ _ [] _ _ hbegin
      obtain ⟨g₂, hbelow'⟩ := ihsub
        (fun v hv => hjoin v (List.mem_cons_of_mem _ (List.mem_append_left _ hv))) hbelow hitems
      obtain ⟨g₃, hdiv⟩ := grows_endDirectory hbelow' hend
      have hloop' : s₃.errorCount = 0 → (loop.addDir div below'.parentDmdID).Resolved s₃ := by
        intro hclean
        have hfirst := (hloop ((g₁.trans (g₂.trans g₃)).clean hclean)).grows
          (g₁.trans (g₂.trans g₃)) hclean
        exact hfirst.addDir (hdiv hclean).1 (hdiv hclean).2
          ((hbelow' (g₃.clean hclean)).parentDmdID.grows g₃ hclean)
      obtain ⟨g₄, hmade⟩ := ihrest
        (fun v hv => hjoin v (List.mem_cons_of_mem _ (List.mem_append_right _ hv))) hloop' h
      refine ⟨?_, hmade⟩
      have hall := g₁.trans (g₂.trans (g₃.trans g₄))
      simpa [sections, brought, trims, Nat.add_assoc] using hall

end Sip

end Ccp.Worker.Mets
