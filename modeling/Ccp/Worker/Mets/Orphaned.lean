import Ccp.Worker.Mets.Referred
import Ccp.Worker.Mets.Topped

namespace Ccp.Worker.Mets

open Lib PosixPath Lib.Calls MetsState

namespace Sip

variable {sip : Sip} {st st' : MetsState}

theorem orphan_createSipDiv {name : Str} {result : Xml × Option Str} (hforeign : sip.Foreign) (hknown : Known st)
    (hclean : st'.errorCount = 0) (h : sip.createSipDiv name st = .ok result st') :
    Clear result.1 ∧ (sip.Orphan st st' result.1 ∨ sip.OneSource) := by
  rw [createSipDiv] at h
  obtain ⟨aipDmdID, s₁, haip, h⟩ := bind_ok_iff.mp h
  obtain ⟨objects, s₂, hobjects, h⟩ := bind_ok_iff.mp h
  obtain ⟨objectsDiv, s₃, hsource, h⟩ := bind_ok_iff.mp h
  obtain ⟨metadata, s₄, hmetadata, h⟩ := bind_ok_iff.mp h
  obtain ⟨dc, s₅, hdc, h⟩ := bind_ok_iff.mp h
  obtain ⟨objectsDiv', s₆, hdataverse, h⟩ := bind_ok_iff.mp h
  obtain ⟨rfl, rfl⟩ := pure_ok_iff.mp h
  obtain rfl := addDataverse_state hdataverse
  have hclean₄ : s₄.errorCount = 0 := by
    obtain ⟨c, n, rfl, -⟩ := createDublincore_ok hdc
    exact (Nat.add_eq_zero_iff.mp hclean).1
  have hclean₃ : s₃.errorCount = 0 := Nat.le_zero.mp (hclean₄ ▸ errors_createFileSec hmetadata)
  have hclean₂ : s₂.errorCount = 0 := by
    rcases addObjectMetadata_ok hsource with ⟨-, rfl⟩ | ⟨div, amdID, -, -, -, hsame⟩
    · exact hclean₃
    · rw [← hsame, hclean₃]
  obtain ⟨hstill₁, hgiven, hrow, hnil⟩ := given_row haip
  obtain ⟨hbegun, hfresh⟩ := apart_begin hknown hgiven (mt hnil.mp)
  have hknown₁ := hstill₁.known hknown
  have hobjectsEnded := ended_createFileSec hforeign hknown₁ hclean₂ hobjects
  obtain ⟨objects', rfl, hsnd, hended⟩ := hobjectsEnded.addObjectMetadata hsource
  have hended' := ended_createFileSec hforeign (hended.still.known hknown₁) hclean₄ hmetadata
  obtain ⟨hrest, hsections, hsome, hnew⟩ := still_createDublincore hdc
  have hset : ∀ d ∈ (objects'.map Prod.fst).map (setDublinCore dc), d.tag = .div ∧ Clear d := by
    intro d hd
    obtain ⟨e, he, rfl⟩ := Option.mem_map.mp hd
    obtain ⟨m, hm, rfl⟩ := Option.mem_map.mp he
    obtain ⟨htag, hclear⟩ := hended.clear m hm
    cases dc with
    | none => exact ⟨htag, hclear⟩
    | some d => exact ⟨(tag_get_set (by decide : Attr.dmdID ≠ .id) _ _).1.trans htag, hclear.set fun _ => htag⟩
  have hplaced := of_described_addDataverse hset hdataverse
  refine ⟨clear_div fun c hc => ?_,
    (?_ : sip.Topped st s₁ s₃ s₄ _ aipDmdID objects' metadata dc _).orphan_or_oneSource⟩
  · rcases List.mem_append.mp hc with hc | hc
    · exact (hplaced c (Option.mem_toList.mp hc)).1
    · obtain ⟨m, hm, rfl⟩ := Option.mem_map.mp (Option.mem_toList.mp hc)
      exact (hended'.clear m hm).2
  · refine ⟨hstill₁, hknown₁, hbegun, hfresh, ?_, hended, hended', hrest, hsections, hsome, hnew,
      fun id hold hid => ?_⟩
    · exact hnil.not.symm.trans hrow.symm
    · rw [mem_described_dmdAttr (by simp [Dict.get?_cons])] at hid
      rcases hid with hid | ⟨c, hc, hid⟩
      · rw [← parentDmdID_congr hsnd] at hid
        cases objects' with
        | some m => exact Or.inl ⟨Or.inr rfl, hid⟩
        | none =>
            cases dc with
            | none => exact Or.inl ⟨Or.inl rfl, hid⟩
            | some d =>
                have hd : id ∈ tokens d := hid
                rw [(hnew d rfl).1.tokens_eq, List.mem_singleton] at hd
                exact Or.inr (Or.inl (congrArg some hd.symm))
      · rcases List.mem_append.mp hc with hc | hc
        · rcases (hplaced c (Option.mem_toList.mp hc)).2 id hid with ⟨d, hd, hid⟩ | ⟨i, hi, hid⟩
          · obtain ⟨e, he, rfl⟩ := Option.mem_map.mp hd
            obtain ⟨m, hm, rfl⟩ := Option.mem_map.mp he
            rcases of_described_setDublinCore hid with ⟨d, hd, hid⟩ | hid | hid
            · rw [(hnew d hd).1.tokens_eq, List.mem_singleton] at hid
              exact Or.inr (Or.inl (hid ▸ hd))
            · exact Or.inr (Or.inr (Or.inl ⟨m, hm, Or.inl hid⟩))
            · exact Or.inr (Or.inr (Or.inl ⟨m, hm, Or.inr hid⟩))
          · obtain ⟨n, -, rfl⟩ := hold
            exact absurd hid (hforeign.dataverse i hi n)
        · obtain ⟨m, hm, rfl⟩ := Option.mem_map.mp (Option.mem_toList.mp hc)
          exact Or.inr (Or.inr (Or.inr ⟨m, hm, hid⟩))

-- The document of a SIP of which something is replaced.
theorem oneSource_buildMets {root : Xml} (hforeign : sip.Foreign) (hclean : st.errorCount = 0)
    (h : sip.buildMets MetsState.new = .ok root st) (hdescribed : Described root) : sip.OneSource := by
  rw [buildMets] at h
  obtain ⟨u, s₁, hmodify, h⟩ := bind_ok_iff.mp h
  obtain rfl := modify_ok_iff.mp hmodify
  obtain ⟨s, s₂, hget, h⟩ := bind_ok_iff.mp h
  obtain ⟨rfl, rfl⟩ := get_ok_iff.mp hget
  obtain ⟨normative, s₃, hnormative, h⟩ := bind_ok_iff.mp h
  obtain ⟨⟨sipDiv, dc⟩, s₄, hsipDiv, h⟩ := bind_ok_iff.mp h
  obtain ⟨custom, s₅, hcustom, h⟩ := bind_ok_iff.mp h
  obtain ⟨arranged, s₆, harranged, h⟩ := bind_ok_iff.mp h
  obtain ⟨s, s₇, hget, h⟩ := bind_ok_iff.mp h
  obtain ⟨rfl, rfl⟩ := get_ok_iff.mp hget
  obtain ⟨hroot, rfl⟩ := pure_ok_iff.mp h
  obtain ⟨-, c, n, rfl⟩ := includeCustomStructmap_ok (by simp) hcustom
  obtain ⟨-, rfl⟩ := buildArrangedStructmap_ok harranged
  have hempty : Known { MetsState.new with globalStructMapCounter := MetsState.new.globalStructMapCounter + 1 } := by
    rintro n (⟨e, he, -⟩ | ⟨o, ho, -⟩ | ⟨e, he, -⟩)
    · simp [MetsState.files, MetsState.new] at he
    · cases ho
    · cases he
  obtain ⟨hknown, hold⟩ := known_getNormative hempty hnormative
  obtain ⟨hclear, horphan | hone⟩ :=
    orphan_createSipDiv hforeign hknown (Nat.add_eq_zero_iff.mp hclean).1 hsipDiv
  · obtain ⟨id, hsection, hid⟩ := horphan
    have hin : id ∈ described root := by
      have hfound : ∃ e ∈ root.findall .dmdSec, e.get .id = some id := by
        rcases hsection with hsection | hsection
        · obtain ⟨e, he, htag, hget⟩ := mem_dmdSecIDs.mp hsection
          refine ⟨e, List.mem_filter.mpr ⟨?_, by simp [htag]⟩, hget⟩
          simp [← hroot, Element.children, he]
        · have hmem : newSection .dmdSec id [] ∈ (dc.toList ++ sip.dataverse).map (newSection .dmdSec · []) :=
            List.mem_map_of_mem (List.mem_append_right _ hsection)
          refine ⟨newSection .dmdSec id [], List.mem_filter.mpr ⟨?_, decide_eq_true rfl⟩, rfl⟩
          simp only [← hroot, Element.children, List.mem_append, hmem, true_or, or_true]
      obtain ⟨e, he, hget⟩ := hfound
      obtain ⟨i, hi, hin⟩ := hdescribed e he
      obtain rfl := Option.some.inj (hget.symm.trans hi)
      exact hin
    rcases hid with hnot | ⟨hnew, ⟨m, hm, rfl⟩, hplace, href⟩
    · obtain ⟨d, -, hd⟩ := List.mem_flatMap.mp hin
      unfold ownDescribed at hd
      split_ifs at hd
      · exact absurd (token_of_mem_tokens hd) hnot
      · cases hd
    · rw [← hroot] at hin
      rcases of_described_document (by simp [Dict.get?_cons]) hclear
        (described_buildArrangedStructmap harranged) hin with hid | hid | ⟨e, he, hid⟩ | ⟨e, he, hid⟩
      · exact absurd hid href
      · exact absurd hid hplace
      · exact absurd (hold e he m hid) hnew
      · obtain ⟨doc, hdoc, hdescribed⟩ := (described_includeCustomStructmap hcustom e he).resolve_left
          List.not_mem_nil
        exact absurd (hdescribed _ hid) (hforeign.customs doc hdoc m)
  · exact hone

-- When no place gets its sections from two sources, every section that is in the
-- document of a SIP is the one of a div or of a file; and only then, if none of the
-- identifiers that are brought along is one that the script gives.
theorem main_described_iff (sip : Sip) : ∀ root ∈ sip.main,
    (sip.OneSource → Described root) ∧ (sip.Foreign → Described root → sip.OneSource) := by
  intro root hroot
  obtain ⟨st, hbuild, hclean⟩ := main_ok hroot
  exact ⟨fun hone => described_buildMets hone hclean hbuild,
    fun hforeign => oneSource_buildMets hforeign hclean hbuild⟩

end Sip

theorem named_letter : ∀ l ∈ some (Listing.file "letter".toList .nil), l.Named := by
  rintro l ⟨⟩
  exact ⟨⟨by decide, by decide⟩, by decide, trivial⟩

def letter : File where
  uuid := ⟨1⟩
  currentlocation := "%SIPDirectory%objects/letter".toList
  originallocation := "%transferDirectory%objects/letter".toList
  filegrpuse := original
  filegrpuuid := []
  label := []
  transferType := some "Standard".toList

-- A SIP with one file, which a CSV file describes.
def letters : Sip where
  sipType := "SIP".toList
  baseDirectoryPath := "/sip".toList
  includeAmdSec := false
  createNormativeStructmap := false
  walked := none
  objects := some (.file "letter".toList .nil)
  metadata := none
  objects_named := named_letter
  metadata_named := by
    intro l hl
    cases hl
  files := [letter]
  files_nodup := List.nodup_singleton _
  directories := []
  sipRow := false
  derivations := []
  rights := fun _ => 0
  dspaceRights := fun _ => 0
  digiprov := fun _ => 0
  csvMetadata := [("objects/letter".toList, [("dc.title".toList, ["Letter".toList])])]
  dspaceIdentified := fun _ => false
  dataverse := []
  tabfile := fun _ => []
  dublinCore := true
  dublinCoreFiles := []
  transferMetadata := []
  sourceMetadata := []
  bagInfo := []
  customStructmaps := []
  fixup := id
  arrange := []
  uuid4 := ⟨2⟩
  writes := fun _ => true

theorem oneSource_letters : letters.OneSource where
  files v _ f _ := by
    have htab : letters.tabIDs f = [] := ite_self _
    exact ⟨by simp [htab], fun _ _ => htab⟩
  objects := by
    rintro l ⟨⟩
    exact ⟨⟨by decide, by decide, by decide, by decide⟩, trivial⟩
  metadata := by
    intro l hl
    cases hl
  top := by decide
  dublinCore _ := ⟨by decide, by decide⟩
  dataverse := by
    intro id hid
    cases hid

set_option maxRecDepth 8000 in
theorem isSome_letters : letters.main.isSome = true := by decide

theorem foreign_letters : letters.Foreign where
  tabs f _ value n hid := by
    have htab : letters.tabIDs f = [] := ite_self _
    rwa [htab, List.intercalate_nil, List.append_nil] at hid
  dataverse := by
    intro id hid
    cases hid
  customs := by
    intro doc hdoc
    cases hdoc

theorem main_described_iff_letters : ∃ root ∈ letters.main, Described root ∧ letters.OneSource := by
  obtain ⟨root, hroot⟩ := Option.isSome_iff_exists.mp isSome_letters
  obtain ⟨hdescribed, hone⟩ := Sip.main_described_iff letters root hroot
  exact ⟨root, hroot, hdescribed oneSource_letters, hone foreign_letters (hdescribed oneSource_letters)⟩

-- The CSV file describes the objects, which the Dublin Core describes as well.
def collection : Sip :=
  { letters with csvMetadata := [("objects".toList, [("dc.title".toList, ["Letters".toList])])] }

-- The sections of a document that no div and no file has.
def orphans (root : Xml) : List Xml :=
  (root.findall .dmdSec).filter fun e => !(e.get .id).any (described root).contains

set_option maxRecDepth 8000 in
theorem orphans_collection : (collection.main.map fun root => (orphans root).length) = some 1 := by decide

theorem collection_orphaned : ∃ root ∈ collection.main, ¬ Described root := by
  obtain ⟨root, hroot, horphans⟩ := Option.map_eq_some_iff.mp orphans_collection
  refine ⟨root, hroot, fun hdescribed => ?_⟩
  have hne : orphans root ≠ [] := List.ne_nil_of_length_pos (by omega)
  obtain ⟨e, he⟩ := List.exists_mem_of_ne_nil _ hne
  obtain ⟨he, hnot⟩ := List.mem_filter.mp he
  obtain ⟨id, hid, hin⟩ := hdescribed e he
  simp [hid, hin] at hnot

end Ccp.Worker.Mets
