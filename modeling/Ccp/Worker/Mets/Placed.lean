import Ccp.Worker.Mets.SipDiv

namespace Ccp.Worker.Mets

open Lib PosixPath Lib.Calls

section Elements

variable {tag : Tag} {attrib : Dict Attr Str} {children : List Xml} {e : Xml} {id value : Str}

-- The identifiers in the DMDID of a div or a file.
def ownDescribed (tag : Tag) (attrib : Dict Attr Str) : List Str :=
  if tag = .div ∨ tag = .file then tokens ((Dict.get? attrib .dmdID).getD []) else []

-- Those of the element and of all below it.
def described (e : Xml) : List Str := e.iter.flatMap fun d => ownDescribed d.tag d.attrib

-- Every section of the document is the one of a div or a file.
def Described (root : Xml) : Prop :=
  ∀ e ∈ root.findall .dmdSec, ∃ id, e.get .id = some id ∧ id ∈ described root

theorem described_mk (tag : Tag) (attrib : Dict Attr Str) (children : List Xml) :
    described (.mk tag attrib children) = ownDescribed tag attrib ++ children.flatMap described := by
  rw [described, Element.iter_mk, List.flatMap_cons, List.flatMap_assoc]
  rfl

theorem mem_described_mk : id ∈ described (.mk tag attrib children) ↔
    id ∈ ownDescribed tag attrib ∨ ∃ c ∈ children, id ∈ described c := by
  rw [described_mk, List.mem_append, List.mem_flatMap]

theorem mem_described_append {more : List Xml} : id ∈ described (.mk tag attrib (children ++ more)) ↔
    id ∈ described (.mk tag attrib children) ∨ ∃ c ∈ more, id ∈ described c := by
  simp only [mem_described_mk, List.mem_append, or_and_right, exists_or, or_assoc]

theorem ownDescribed_set_of_ne {key : Attr} (hkey : key ≠ .dmdID) (tag : Tag) (attrib : Dict Attr Str)
    (value : Str) : ownDescribed tag (Dict.set attrib key value) = ownDescribed tag attrib := by
  rw [ownDescribed, Dict.get?_set, if_neg hkey, ownDescribed]

theorem described_set_of_ne {key : Attr} (hkey : key ≠ .dmdID) (value : Str) (e : Xml) :
    described (e.set key value) = described e := by
  obtain ⟨tag, attrib, children⟩ := e
  rw [Element.set, described_mk, described_mk, ownDescribed_set_of_ne hkey]

-- A DMDID that holds what the old one held.
theorem mem_described_set (hvalue : ∀ t ∈ tokens ((e.get .dmdID).getD []), t ∈ tokens value)
    (h : id ∈ described e) : id ∈ described (e.set .dmdID value) := by
  obtain ⟨tag, attrib, children⟩ := e
  rw [mem_described_mk] at h
  rw [Element.set, mem_described_mk]
  refine h.imp_left fun hown => ?_
  unfold ownDescribed at hown ⊢
  split_ifs at hown ⊢ with htag
  · rw [Dict.get?_set, if_pos rfl, Option.getD_some]
    exact hvalue id hown
  · exact hown

theorem mem_described_set_self (htag : e.tag = .div ∨ e.tag = .file) (h : id ∈ tokens value) :
    id ∈ described (e.set .dmdID value) := by
  obtain ⟨tag, attrib, children⟩ := e
  have htag' : tag = .div ∨ tag = .file := htag
  rw [Element.set, mem_described_mk, ownDescribed, if_pos htag', Dict.get?_set, if_pos rfl]
  exact Or.inl h

theorem mem_described_dmdAttr (hnone : Dict.get? attrib .dmdID = none) :
    id ∈ described (.mk .div (attrib ++ Sip.dmdAttr value) children) ↔
      id ∈ tokens value ∨ ∃ c ∈ children, id ∈ described c := by
  rw [mem_described_mk, ownDescribed, if_pos (Or.inl rfl), Sip.get?_append_dmdAttr, hnone, Option.none_or]
  by_cases hvalue : value = []
  · simp [hvalue]
  · simp [hvalue]

end Elements

namespace MetsState

variable {hit hit' later : List Str} {back back' : Str → Prop} {st st' st'' : MetsState} {id i : Str}

def sectionIDs (st : MetsState) : List (Option Str) := st.dmdSecs.map (·.get .id)

-- The element of a file, and one with the identifier of a section in its DMDID.
def Present (st : MetsState) (i : Str) : Prop := ∃ e ∈ st.files, e.tag = .file ∧ e.get .id = some i

def FileRef (st : MetsState) (i id : Str) : Prop :=
  ∃ e ∈ st.files, e.tag = .file ∧ e.get .id = some i ∧ id ∈ tokens ((e.get .dmdID).getD [])

-- A section has a place for good: in the structMap of TRIM, or with a file that gets
-- no DMDID any more.
def Placed (later : List Str) (st : MetsState) (id : Str) : Prop :=
  (∃ o ∈ st.trimStructMapObjects, id ∈ described o) ∨ ∃ i, i ∉ later ∧ FileRef st i id

theorem Placed.mono {later' : List Str} (h : Placed later st id) (hsub : later' ⊆ later) :
    Placed later' st id := by
  rcases h with htrim | ⟨i, hi, href⟩
  · exact Or.inl htrim
  · exact Or.inr ⟨i, fun hin => hi (hsub hin), href⟩

-- What a call does with the sections that it makes: each is handed back or has a
-- place. The files whose DMDID it sets are those that are hit, and no others lose a
-- place.
structure Places (hit : List Str) (back : Str → Prop) (st st' : MetsState) : Prop where
  made : ∀ o ∈ st'.sectionIDs, o ∈ st.sectionIDs ∨
    ∃ id, o = some id ∧ (back id ∨ ∀ later, hit.Disjoint later → Placed later st' id)
  keep : ∀ later id, Placed (hit ++ later) st id → Placed later st' id
  present : ∀ i, Present st i → Present st' i
  trim : st.trimStructMapObjects.isSome → st'.trimStructMapObjects.isSome
  amd : (∀ e ∈ st.amdSecs, e.tag = .amdSec) → ∀ e ∈ st'.amdSecs, e.tag = .amdSec

theorem Places.mono (h : Places hit back st st') (hback : ∀ id, back id → back' id) :
    Places hit back' st st' :=
  { h with
    made := fun o ho => (h.made o ho).imp_right fun ⟨id, hid, hplace⟩ =>
      ⟨id, hid, hplace.imp_left (hback id)⟩ }

theorem places_refl (st : MetsState) : Places [] back st st :=
  ⟨fun _ ho => Or.inl ho, fun _ _ h => h, fun _ h => h, fun h => h, fun h => h⟩

theorem Places.hits (h : Places hit back st st') (hsub : hit ⊆ hit') : Places hit' back st st' :=
  { h with
    made := fun o ho => (h.made o ho).imp_right fun ⟨id, hid, hplace⟩ =>
      ⟨id, hid, hplace.imp_right fun hplaced later hlater =>
        hplaced later (List.disjoint_of_subset_left hsub hlater)⟩
    keep := fun later id hplaced => by
      refine h.keep later id (hplaced.mono fun i hi => ?_)
      exact List.mem_append.mpr ((List.mem_append.mp hi).imp_left (@hsub i)) }

-- What the first call hands back is handed back again, or the second one finds a place
-- for it.
theorem Places.settle (h : Places hit back st st') (h' : Places hit' back' st' st'')
    (hdisjoint : hit.Disjoint hit')
    (hback : ∀ id, back id → back' id ∨ ∀ later, hit'.Disjoint later → Placed later st'' id) :
    Places (hit ++ hit') back' st st'' where
  made o ho := by
    rcases h'.made o ho with ho | ⟨id, rfl, hback' | hplaced⟩
    · rcases h.made o ho with ho | ⟨id, rfl, hid | hplaced⟩
      · exact Or.inl ho
      · refine Or.inr ⟨id, rfl, (hback id hid).imp_right fun hplaced later hlater => ?_⟩
        exact hplaced later (List.disjoint_append_left.mp hlater).2
      · refine Or.inr ⟨id, rfl, Or.inr fun later hlater => h'.keep later id (hplaced _ ?_)⟩
        exact List.disjoint_append_right.mpr ⟨hdisjoint, (List.disjoint_append_left.mp hlater).1⟩
    · exact Or.inr ⟨id, rfl, Or.inl hback'⟩
    · exact Or.inr ⟨id, rfl, Or.inr fun later hlater =>
        hplaced later (List.disjoint_append_left.mp hlater).2⟩
  keep later id hplaced := h'.keep later id (h.keep _ id (by rwa [List.append_assoc] at hplaced))
  present i hi := h'.present i (h.present i hi)
  trim htrim := h'.trim (h.trim htrim)
  amd hamd := h'.amd (h.amd hamd)

theorem Places.trans (h : Places hit back st st') (h' : Places hit' back' st' st'')
    (hdisjoint : hit.Disjoint hit') :
    Places (hit ++ hit') (fun id => back id ∨ back' id) st st'' :=
  h.settle (h'.mono fun _ => Or.inr) hdisjoint fun _ hid => Or.inl (Or.inl hid)

-- New sections, and none of the others is touched.
theorem places_sections {c : Kind → Nat} {dmds amds : List Xml}
    (hdmds : ∀ e ∈ dmds, ∃ id, e.get .id = some id ∧ back id) (hamds : ∀ e ∈ amds, e.tag = .amdSec) :
    Places [] back st { st with
      counter := c, dmdSecs := st.dmdSecs ++ dmds, amdSecs := st.amdSecs ++ amds } where
  made o ho := by
    rw [sectionIDs, List.map_append, List.mem_append] at ho
    refine ho.imp_right fun ho => ?_
    obtain ⟨e, he, rfl⟩ := List.mem_map.mp ho
    obtain ⟨id, hid, hback⟩ := hdmds e he
    exact ⟨id, hid, Or.inl hback⟩
  keep _ _ h := h
  present _ h := h
  trim h := h
  amd h e he := (List.mem_append.mp he).elim (h e) (hamds e)

theorem places_counter (c : Kind → Nat) : Places [] back st { st with counter := c } := by
  have h := @places_sections back st c [] [] (by simp) (by simp)
  rwa [List.append_nil, List.append_nil] at h

end MetsState

open MetsState

section Sections

variable {st st' : MetsState}

theorem get_newSection (kind : Kind) (id : Str) (children : List Xml) :
    (newSection kind id children).get .id = some id := rfl

theorem places_addDmdSec {id : Str} (h : addDmdSec st = .ok id st') : Places [] (· = id) st st' := by
  obtain ⟨c, rfl, -, -, -⟩ := addDmdSec_ok h
  have hplaces := @places_sections (· = id) st c [newSection .dmdSec id []] []
    (by simp [get_newSection]) (by simp)
  rwa [List.append_nil] at hplaces

theorem places_createDmdSecsFromCSVParsedMetadata {dc other : Bool} {metadata : Dict Str (List Str)}
    {made : List Str} (h : createDmdSecsFromCSVParsedMetadata dc other metadata st = .ok made st') :
    Places [] (· ∈ made) st st' := by
  induction metadata generalizing dc other st made with
  | nil =>
      obtain ⟨rfl, rfl⟩ := pure_ok_iff.mp h
      exact places_refl st
  | cons item metadata ih =>
      obtain ⟨key, value⟩ := item
      rw [createDmdSecsFromCSVParsedMetadata] at h
      by_cases hmade : (if isDC key then dc else other) = true
      · rw [if_pos hmade] at h
        exact ih h
      · rw [if_neg hmade] at h
        obtain ⟨id, t, hadd, h⟩ := bind_ok_iff.mp h
        obtain ⟨rest, u, hrest, h⟩ := bind_ok_iff.mp h
        obtain ⟨rfl, rfl⟩ := pure_ok_iff.mp h
        refine ((places_addDmdSec hadd).trans (ih hrest) (List.disjoint_nil_left _)).mono ?_
        rintro i (rfl | hi)
        · exact List.mem_cons_self
        · exact List.mem_cons_of_mem _ hi

end Sections

namespace Sip

variable {sip : Sip} {st st' : MetsState}

theorem places_createDMDIDsFromCSVMetadata {path dmdIDs : Str}
    (h : sip.createDMDIDsFromCSVMetadata path st = .ok dmdIDs st') :
    Places [] (· ∈ tokens dmdIDs) st st' := by
  rw [createDMDIDsFromCSVMetadata] at h
  obtain ⟨made, t, hmade, h⟩ := bind_ok_iff.mp h
  obtain ⟨rfl, rfl⟩ := pure_ok_iff.mp h
  obtain ⟨-, -, htoken, -⟩ := @grows_createDmdSecsFromCSVParsedMetadata _ _ [] _ _ _ _ hmade
  rw [tokens_intercalate htoken]
  exact places_createDmdSecsFromCSVParsedMetadata hmade

theorem places_createTrimStructMap {u : Unit} (hnone : st.trimStructMapObjects.isNone = true)
    (h : createTrimStructMap st = .ok u st') :
    Places [] (fun _ => False) st st' ∧ st'.trimStructMapObjects.isSome := by
  rw [createTrimStructMap] at h
  obtain ⟨dmdID, s₁, hadd, h⟩ := bind_ok_iff.mp h
  obtain ⟨amdID, s₂, hcount, h⟩ := bind_ok_iff.mp h
  obtain ⟨digiprovMD, s₃, hd, h⟩ := bind_ok_iff.mp h
  rw [modify_ok_iff] at h
  obtain ⟨c₁, rfl, -, htoken, -⟩ := addDmdSec_ok hadd
  obtain ⟨c₂, rfl, -, -, -⟩ := count_ok hcount
  obtain ⟨c₃, rfl, -, -, -⟩ := numbers_newSections (by decide) 1 _ _ _ hd
  subst h
  refine ⟨⟨fun o ho => ?_, fun later id hplaced => ?_, fun _ hi => hi, fun _ => rfl, fun hamd e he => ?_⟩, rfl⟩
  · rw [sectionIDs, List.map_append, List.mem_append] at ho
    refine ho.imp_right fun ho => ⟨dmdID, List.mem_singleton.mp ho, Or.inr fun later _ => Or.inl ?_⟩
    refine ⟨_, rfl, mem_described_mk.mpr (Or.inl ?_)⟩
    simp [ownDescribed, Dict.get?_cons, htoken.tokens_eq]
  · refine Or.inr (hplaced.resolve_left ?_)
    rw [Option.isNone_iff_eq_none] at hnone
    simp [hnone]
  · rcases List.mem_append.mp he with he | he
    · exact hamd e he
    · exact List.mem_singleton.mp he ▸ rfl

theorem places_startTrim {f : File} {u : Unit} (h : startTrim f st = .ok u st') :
    Places [] (fun _ => False) st st' ∧
      (f.transferType = some trim → st'.trimStructMapObjects.isSome) := by
  rw [startTrim] at h
  obtain ⟨s, s₁, hget, h⟩ := bind_ok_iff.mp h
  obtain ⟨rfl, rfl⟩ := get_ok_iff.mp hget
  split_ifs at h with hstart
  · obtain ⟨hplaces, hsome⟩ := places_createTrimStructMap hstart.2 h
    exact ⟨hplaces, fun _ => hsome⟩
  · obtain ⟨-, rfl⟩ := pure_ok_iff.mp h
    refine ⟨places_refl st, fun htrim => ?_⟩
    rw [not_and, Bool.not_eq_true, Option.isNone_eq_false_iff] at hstart
    exact hstart htrim

-- The place of a TRIM file is in the structMap that was begun for its transfer.
theorem places_addTrimFile {f : File} {u : Unit}
    (hsome : f.transferType = some trim → st.trimStructMapObjects.isSome)
    (h : sip.addTrimFile f st = .ok u st') : Places [] (fun _ => False) st st' := by
  rw [addTrimFile] at h
  split_ifs at h with htrim
  · obtain ⟨u, s₁, hmetadata, h⟩ := bind_ok_iff.mp h
    obtain rfl := trimFileMetadata_ok hmetadata
    obtain ⟨dmdID, s₂, hadd, h⟩ := bind_ok_iff.mp h
    rw [modify_ok_iff] at h
    obtain ⟨c, rfl, -, htoken, -⟩ := addDmdSec_ok hadd
    subst h
    obtain ⟨⟨tag, attrib, children⟩, hobjects⟩ := Option.isSome_iff_exists.mp (hsome htrim)
    refine ⟨fun o ho => ?_, fun later id hplaced => ?_, fun _ hi => hi, fun _ => ?_, fun hamd => hamd⟩
    · rw [sectionIDs, List.map_append, List.mem_append] at ho
      refine ho.imp_right fun ho => ⟨dmdID, List.mem_singleton.mp ho, Or.inr fun later _ => Or.inl ?_⟩
      refine ⟨_, by rw [hobjects]; rfl, mem_described_append.mpr (Or.inr ⟨_, List.mem_singleton_self _, ?_⟩)⟩
      rw [trimFileDiv, mem_described_mk]
      simp [ownDescribed, Dict.get?_cons, htoken.tokens_eq]
    · refine hplaced.imp_left ?_
      rintro ⟨o, ho, hid⟩
      obtain rfl := Option.some.inj (hobjects.symm.trans ho)
      exact ⟨_, by rw [hobjects]; rfl, mem_described_append.mpr (Or.inl hid)⟩
    · rw [hobjects]
      rfl
  · obtain ⟨-, rfl⟩ := pure_ok_iff.mp h
    exact places_refl st

theorem places_describe {f : File} {dmdIDs : Str}
    (hsome : f.transferType = some trim → st.trimStructMapObjects.isSome)
    (h : sip.describe f st = .ok dmdIDs st') : Places [] (· ∈ tokens dmdIDs) st st' := by
  rw [describe] at h
  split_ifs at h
  · obtain ⟨ids, s₁, hcsv, h⟩ := bind_ok_iff.mp h
    obtain ⟨u, s₂, htrim, h⟩ := bind_ok_iff.mp h
    obtain ⟨rfl, rfl⟩ := pure_ok_iff.mp h
    have hplaces := places_createDMDIDsFromCSVMetadata hcsv
    have htrim := places_addTrimFile (fun hf => hplaces.trim (hsome hf)) htrim
    refine (hplaces.trans htrim (List.disjoint_nil_left _)).mono fun id hid => ?_
    exact hid.resolve_right not_false
  · obtain ⟨rfl, rfl⟩ := pure_ok_iff.mp h
    exact places_refl st

theorem places_createDSpaceDMDSec {path dmdIDs : Str}
    (h : sip.createDSpaceDMDSec path st = .ok dmdIDs st') :
    Places [] (· ∈ tokens dmdIDs) st st' ∧ (dmdIDs ≠ [] → sip.dspaceIdentified path = true) := by
  rw [createDSpaceDMDSec] at h
  obtain ⟨dmdID, s₁, hcount, h⟩ := bind_ok_iff.mp h
  obtain ⟨c₁, rfl, -, htoken₁, -⟩ := count_ok hcount
  split_ifs at h with hidentified
  · obtain ⟨dcID, s₂, hcount, h⟩ := bind_ok_iff.mp h
    obtain ⟨c₂, rfl, -, htoken₂, -⟩ := count_ok hcount
    obtain ⟨u, s₃, hmodify, h⟩ := bind_ok_iff.mp h
    obtain ⟨rfl, rfl⟩ := pure_ok_iff.mp h
    obtain rfl := modify_ok_iff.mp hmodify
    refine ⟨?_, fun _ => hidentified⟩
    rw [tokens_intercalate (by simp [htoken₁, htoken₂])]
    have hplaces := @places_sections (· ∈ [dmdID, dcID]) st c₂
      [newSection .dmdSec dmdID [], newSection .dmdSec dcID []] [] (by simp [get_newSection]) (by simp)
    rwa [List.append_nil] at hplaces
  · obtain ⟨rfl, rfl⟩ := pure_ok_iff.mp h
    exact ⟨places_counter c₁, fun hne => absurd rfl hne⟩

theorem places_dataverseProcessing {f : File} {dmdIDs value : Str}
    (htoken : ∀ id ∈ sip.tabIDs f, Token id) (hone : dmdIDs = [] ∨ sip.tabIDs f = [])
    (h : sip.dataverseProcessing f dmdIDs st = .ok value st') :
    Places [] (· ∈ tokens value) st st' ∧ ∀ t ∈ tokens dmdIDs, t ∈ tokens value := by
  rw [dataverseProcessing] at h
  obtain ⟨u, s₁, hmodify, h⟩ := bind_ok_iff.mp h
  obtain ⟨rfl, rfl⟩ := pure_ok_iff.mp h
  obtain rfl := modify_ok_iff.mp hmodify
  have hvalue : tokens (dmdIDs ++ List.intercalate [' '] (sip.tabIDs f)) =
      tokens dmdIDs ++ sip.tabIDs f := by
    rcases hone with rfl | hnone
    · rw [List.nil_append, tokens_intercalate htoken, tokens_nil, List.nil_append]
    · rw [hnone, List.intercalate_nil, List.append_nil, List.append_nil]
  rw [hvalue]
  refine ⟨?_, fun t ht => List.mem_append_left _ ht⟩
  have hplaces := @places_sections (· ∈ tokens dmdIDs ++ sip.tabIDs f) st st.counter
    ((sip.tabIDs f).map fun id => newSection .dmdSec id []) [] (fun e he => by
      obtain ⟨id, hid, rfl⟩ := List.mem_map.mp he
      exact ⟨id, rfl, List.mem_append_right _ hid⟩) (by simp)
  rwa [List.append_nil] at hplaces

theorem tag_getAMDSec {f : File} {use : Str} {made : Xml × Str}
    (h : sip.getAMDSec f use st = .ok made st') : made.1.tag = .amdSec := by
  rw [getAMDSec] at h
  obtain ⟨amdID, s₁, -, h⟩ := bind_ok_iff.mp h
  obtain ⟨techMD, s₂, -, h⟩ := bind_ok_iff.mp h
  obtain ⟨rights, s₃, -, h⟩ := bind_ok_iff.mp h
  obtain ⟨special, s₄, -, h⟩ := bind_ok_iff.mp h
  obtain ⟨digiprovMD, s₅, -, h⟩ := bind_ok_iff.mp h
  obtain ⟨rfl, -⟩ := pure_ok_iff.mp h
  rfl

theorem places_fileAttrib {f : File} {groupID use : Str} {attrib : Dict Attr Str}
    (h : sip.fileAttrib f groupID use st = .ok attrib st') :
    Places [] (fun _ => False) st st' ∧ Dict.get? attrib .id = some (fileID f) ∧
      st'.globalFileGrps = st.globalFileGrps := by
  rw [fileAttrib] at h
  split_ifs at h
  · obtain ⟨made, s₁, hamd, h⟩ := bind_ok_iff.mp h
    obtain ⟨amd, amdID⟩ := made
    obtain ⟨u, s₂, hmodify, h⟩ := bind_ok_iff.mp h
    obtain ⟨rfl, rfl⟩ := pure_ok_iff.mp h
    obtain rfl := modify_ok_iff.mp hmodify
    have htag := tag_getAMDSec hamd
    obtain ⟨c, rfl, -⟩ := getAMDSec_ok hamd
    refine ⟨?_, rfl, rfl⟩
    have hplaces := @places_sections (fun _ => False) st c [] [amd] (by simp) (by simpa using htag)
    rwa [List.append_nil] at hplaces
  · obtain ⟨rfl, rfl⟩ := pure_ok_iff.mp h
    exact ⟨places_refl st, rfl, rfl⟩

-- A new file element takes nothing from those that are there.
theorem places_addElem {use : Str} {old : List Xml} (elem : Xml)
    (hgroup : Dict.get? st.globalFileGrps use = some old) :
    Places [] (fun _ => False) st
        { st with globalFileGrps := Dict.set st.globalFileGrps use (old ++ [elem]) } ∧
      elem ∈ MetsState.files { st with
        globalFileGrps := Dict.set st.globalFileGrps use (old ++ [elem]) } := by
  have hperm := flatMap_set elem hgroup
  have hmem : ∀ e ∈ st.files, e ∈ MetsState.files { st with
      globalFileGrps := Dict.set st.globalFileGrps use (old ++ [elem]) } := fun e he =>
    hperm.mem_iff.mpr (List.mem_append_left _ he)
  refine ⟨⟨fun _ ho => Or.inl ho, fun later id hplaced => ?_, fun i hi => ?_, fun h => h, fun h => h⟩,
    hperm.mem_iff.mpr (List.mem_append_right _ (List.mem_singleton_self _))⟩
  · refine hplaced.imp_right ?_
    rintro ⟨i, hi, e, he, href⟩
    exact ⟨i, hi, e, hmem e he, href⟩
  · obtain ⟨e, he, hid⟩ := hi
    exact ⟨e, hmem e he, hid⟩

theorem places_addError : Places [] (fun _ => False) st { st with errorCount := st.errorCount + 1 } :=
  ⟨fun _ ho => Or.inl ho, fun _ _ h => h, fun _ h => h, fun h => h, fun h => h⟩

theorem places_addFileElem {f : File} {path groupID use : Str} {loop made : Loop}
    (h : sip.addFileElem f path groupID use loop st = .ok made st') (hclean : st'.errorCount = 0) :
    Places [] (fun _ => False) st st' ∧ Present st' (fileID f) ∧
      made = if use = original then
        { loop with filesInThisDirectory := loop.filesInThisDirectory ++ [fileID f] } else loop := by
  rw [addFileElem] at h
  obtain ⟨s, s₁, hget, h⟩ := bind_ok_iff.mp h
  obtain ⟨rfl, rfl⟩ := get_ok_iff.mp hget
  cases hgroup : Dict.get? st.globalFileGrps use with
  | none =>
      rw [hgroup] at h
      obtain ⟨u, s₂, hmodify, h⟩ := bind_ok_iff.mp h
      obtain ⟨rfl, rfl⟩ := pure_ok_iff.mp h
      obtain rfl := modify_ok_iff.mp hmodify
      exact absurd hclean (Nat.succ_ne_zero _)
  | some old =>
      rw [hgroup] at h
      obtain ⟨attrib, s₂, hattrib, h⟩ := bind_ok_iff.mp h
      obtain ⟨u, s₃, hmodify, h⟩ := bind_ok_iff.mp h
      obtain ⟨rfl, rfl⟩ := pure_ok_iff.mp h
      obtain rfl := modify_ok_iff.mp hmodify
      obtain ⟨hplaces, hid, hgroups⟩ := places_fileAttrib hattrib
      rw [← hgroups] at hgroup
      obtain ⟨hadded, hmem⟩ := places_addElem (.mk .file attrib [.mk .fLocat [(.href, path)] []]) hgroup
      rw [hgroup, Option.getD_some]
      refine ⟨(hplaces.trans hadded (List.disjoint_nil_left _)).mono (by simp), ⟨_, hmem, rfl, hid⟩, rfl⟩

end Sip

end Ccp.Worker.Mets
