import Ccp.Worker.Mets.Customs
import Ccp.Worker.Mets.Orphaned

namespace Ccp.Worker.Mets

open Lib PosixPath Lib.Calls MetsState

variable {t : Str} {known : Str → Prop}

theorem plain_mk_iff {tag : Tag} {attrib : Dict Attr Str} {children : List Xml} :
    Plain known (.mk tag attrib children) ↔
      Dict.get? attrib .id = none ∧ (∀ t ∈ ownRefs attrib, known t) ∧ ∀ c ∈ children, Plain known c := by
  constructor
  · rintro ⟨hids, hrefs⟩
    rw [ids_mk, List.append_eq_nil_iff, List.flatMap_eq_nil_iff, Option.toList_eq_nil_iff] at hids
    refine ⟨hids.1, fun t ht => hrefs t (mem_refs_mk.mpr (Or.inl ht)), fun c hc => ⟨hids.2 c hc, fun t ht => ?_⟩⟩
    exact hrefs t (mem_refs_mk.mpr (Or.inr ⟨c, hc, ht⟩))
  · rintro ⟨hid, hown, hchildren⟩
    refine ⟨?_, fun t ht => ?_⟩
    · rw [ids_mk, hid, List.flatMap_eq_nil_iff.mpr fun c hc => (hchildren c hc).ids]
      rfl
    · rcases mem_refs_mk.mp ht with ht | ⟨c, hc, ht⟩
      · exact hown t ht
      · exact (hchildren c hc).refs t ht

-- The type of an element is none of the attributes with identifiers.
theorem plain_retype {tag : Tag} {attrib : Dict Attr Str} {children children' : List Xml} (type : Option Str)
    (h : Plain known (.mk tag attrib children)) (hchildren : ∀ c ∈ children', Plain known c) :
    Plain known (.mk tag (retype type attrib) children') := by
  have hget : ∀ key, key ≠ Attr.type → Dict.get? (retype type attrib) key = Dict.get? attrib key := by
    intro key hkey
    cases type with
    | none => exact (Dict.get?_erase ..).trans (if_neg (Ne.symm hkey))
    | some type => exact (Dict.get?_set ..).trans (if_neg (Ne.symm hkey))
  obtain ⟨hid, hown, -⟩ := plain_mk_iff.mp h
  refine plain_mk_iff.mpr ⟨(hget _ (by decide)).trans hid, fun t ht => hown t ?_, hchildren⟩
  obtain ⟨key, hkey, v, hv, ht⟩ := mem_ownRefs.mp ht
  refine mem_ownRefs.mpr ⟨key, hkey, v, ?_, ht⟩
  rw [← hv, hget key]
  rintro rfl
  simp at hkey

theorem plain_retag {tags : Str → Option Str} {path : Str} {e : Xml} (h : Plain known e) :
    Plain known (retag tags path e) :=
  ⟨(ids_retag tags path e).1.trans h.ids, fun t ht => h.refs t ((ids_retag tags path e).2 t ht)⟩

-- The groups without files are left out.
theorem ids_fileSec (st : MetsState) : ids (Sip.fileSec st) = st.files.flatMap ids := by
  rw [Sip.fileSec, ids_mk, MetsState.files]
  generalize st.globalFileGrps = groups
  induction groups with
  | nil => rfl
  | cons grp groups ih =>
      rw [List.flatMap_cons, List.flatMap_append, ← ih, List.filter_cons]
      split_ifs with hne
      · simp [Dict.get?_cons]
      · have hnil : grp.2 = [] := by simpa using hne
        rw [hnil, List.flatMap_nil, List.nil_append]

theorem mem_refs_fileSec {st : MetsState} (h : t ∈ refs (Sip.fileSec st)) : ∃ e ∈ st.files, t ∈ refs e := by
  rcases mem_refs_mk.mp h with h | ⟨c, hc, ht⟩
  · cases h
  · obtain ⟨grp, hgrp, rfl⟩ := List.mem_map.mp hc
    rcases mem_refs_mk.mp ht with ht | ⟨e, he, ht⟩
    · simp [mem_ownRefs, Dict.get?_cons] at ht
    · exact ⟨e, List.mem_flatMap.mpr ⟨grp, List.mem_of_mem_filter hgrp, he⟩, ht⟩

namespace Sip

variable {sip : Sip} {st st' : MetsState} {promised : List Str}

def arrangedID (sip : Sip) : Str := "structMap_".toList ++ sip.uuid4.string

theorem ids_buildArrangedStructmap {sipDiv : Xml} {made : Option Xml} (hplain : Plain known sipDiv)
    (h : sip.buildArrangedStructmap sipDiv st = .ok made st') :
    ∀ e ∈ made, ids e = [sip.arrangedID] ∧ ∀ t ∈ refs e, known t := by
  unfold buildArrangedStructmap at h
  split_ifs at h
  · obtain ⟨rfl, -⟩ := pure_ok_iff.mp h
    simp
  · cases hobjects : sipDiv.children.findIdx? (hasLabel "objects".toList) with
    | none =>
        rw [hobjects] at h
        exact absurd h throw_ne_ok
    | some i =>
        rw [hobjects] at h
        obtain ⟨rfl, -⟩ := pure_ok_iff.mp h
        rintro e ⟨⟩
        obtain ⟨tag, attrib, children⟩ := sipDiv
        have hchildren := (plain_mk_iff.mp hplain).2.2
        have harranged : Plain known (.mk tag (retype none attrib) (children.modify i fun objects =>
            .mk objects.tag (retype ((Dict.get? sip.arrange ".".toList).filter (· ≠ [])) objects.attrib)
              (retagAll (fun path => (Dict.get? sip.arrange path).filter (· ≠ [])) []
                ((objects.children.eraseP (hasLabel "submissionDocumentation".toList)).eraseP
                  (hasLabel "metadata".toList))))) := by
          refine plain_retype none hplain fun c hc => ?_
          obtain ⟨j, hj, rfl⟩ := List.mem_iff_getElem.mp hc
          have hchild : j < children.length := by
            rwa [List.length_modify] at hj
          rw [List.getElem_modify]
          split_ifs
          · have hplain := hchildren _ (List.getElem_mem hchild)
            generalize children[j] = objects at hplain
            obtain ⟨tag', attrib', children'⟩ := objects
            refine plain_retype _ hplain fun c hc => ?_
            rw [retagAll_eq_map] at hc
            obtain ⟨d, hd, rfl⟩ := List.mem_map.mp hc
            exact plain_retag ((plain_mk_iff.mp hplain).2.2 d
              (List.mem_of_mem_eraseP (List.mem_of_mem_eraseP hd)))
          · exact hchildren _ (List.getElem_mem hchild)
        refine ⟨?_, fun t ht => ?_⟩
        · rw [ids_mk, List.flatMap_singleton]
          exact congrArg _ harranged.ids
        · rcases mem_refs_mk.mp ht with ht | ⟨c, hc, ht⟩
          · simp [mem_ownRefs, Dict.get?_cons] at ht
          · obtain rfl := List.mem_singleton.mp hc
            exact harranged.refs t ht

-- What is found on the disk for the normative structMap, and how many of the
-- directories are empty.
def fsItems (sip : Sip) : List FSItem :=
  match sip.walked with
  | none => []
  | some entries => getPathsAsFsitems sip.base (join sip.base "objects".toList) entries

def emptySections (sip : Sip) : Nat :=
  if sip.createNormativeStructmap then sip.fsItems.countP FSItem.sectioned else 0

theorem getNormative_ok {name : Str} {made : Option Xml} (h : sip.getNormative name st = .ok made st') :
    ∃ mid, Grows [] [] sip.emptySections [] false st mid ∧
      st' = { mid with globalStructMapCounter := st.globalStructMapCounter + made.toList.length } ∧
      made.isSome = sip.createNormativeStructmap ∧
      ∀ e ∈ made, ids e = [structMapID (st.globalStructMapCounter + 1)] ∧ ∀ t ∈ refs e, t ∈ mid.ids := by
  unfold getNormative at h
  rw [emptySections]
  split_ifs at h ⊢ with hcreate
  · obtain ⟨u, s₁, hmodify, h⟩ := bind_ok_iff.mp h
    obtain rfl := modify_ok_iff.mp hmodify
    obtain ⟨s, s₂, hget, h⟩ := bind_ok_iff.mp h
    obtain ⟨rfl, rfl⟩ := get_ok_iff.mp hget
    dsimp only at h
    generalize hbuild : addNormativeStructmapDiv _ _ = built at h
    cases built with
    | none => exact absurd h throw_ne_ok
    | some b =>
        obtain ⟨u, s₃, hset, h⟩ := bind_ok_iff.mp h
        obtain ⟨rfl, rfl⟩ := pure_ok_iff.mp h
        obtain ⟨-, rfl⟩ := EStateM.Result.ok.inj hset
        have hwalked : addNormativeStructmapDiv sip.fsItems _ = some b := hbuild
        obtain ⟨made, hcounter, hsecs, hissued, hdescribed⟩ := sectioned_addNormativeStructmapDiv hwalked
        rw [List.nil_append] at hsecs
        have hgrows := @grows_sections [] [] (sip.fsItems.countP FSItem.sectioned) st
          (Function.update st.counter .dmdSec b.globalDmdSecCounter)
          (b.dmdSecs.map fun id => newSection .dmdSec id []) [] b.dmdSecs
          (by
            rw [hsecs]
            simpa using hissued st.counter)
          (by simp [List.flatMap_map, ids_newSection]) (by simp [mem_refs_newSection])
          (by rw [Function.update_self, hcounter])
        rw [List.append_nil] at hgrows
        refine ⟨_, hgrows, rfl, hcreate.symm, ?_⟩
        rintro e ⟨⟩
        refine ⟨?_, fun t ht => ?_⟩
        · rw [ids_mk, List.flatMap_singleton, (ids_xml b.root).1]
          rfl
        · rcases mem_refs_mk.mp ht with ht | ⟨c, hc, ht⟩
          · simp [mem_ownRefs, Dict.get?_cons] at ht
          · obtain rfl := List.mem_singleton.mp hc
            have hin := hdescribed (by simp [mem_described_xml]) t ((ids_xml b.root).2 t ht)
            simp [MetsState.ids, List.flatMap_map, ids_newSection, hin]
  · obtain ⟨rfl, rfl⟩ := pure_ok_iff.mp h
    exact ⟨st, Grows.refl [] st, rfl, by simp [hcreate], by simp⟩

-- The files that have a turn.
def turns (sip : Sip) : List File := sip.visits.filterMap sip.visited

theorem perm_visits (listing : Listing) (path : Str) :
    (((listing.visits path).filterMap sip.visited).map fileID).Perm
      ((listing.filePaths path).flatMap sip.fileNames) := by
  induction listing generalizing path with
  | nil => exact List.Perm.nil
  | other name rest ih => exact ih path
  | file name rest ih =>
      refine List.Perm.trans ?_ ((Listing.filePaths_file name rest path).symm.flatMap_right _)
      rw [Listing.visits, List.filterMap_cons, List.flatMap_cons, visited, fileNames]
      cases sip.row (join path name) with
      | none => exact ih path
      | some f => exact (ih path).cons (fileID f)
  | dir name sub rest ihsub ihrest =>
      rw [Listing.visits, List.filterMap_cons, visited, List.filterMap_append, List.map_append,
        Listing.filePaths_dir, List.flatMap_append]
      exact (ihsub _).append (ihrest path)

theorem perm_dirVisits (path : Str) (listing : Option Listing) :
    (((dirVisits path listing).filterMap sip.visited).map fileID).Perm (sip.dirFiles path listing) := by
  rw [dirFiles_eq]
  cases listing with
  | none => exact List.Perm.nil
  | some listing =>
      rw [dirVisits, List.filterMap_cons, visited]
      exact perm_visits listing path

theorem nodup_turns (sip : Sip) : (sip.turns.map fileID).Nodup := by
  rw [turns, visits, List.filterMap_append, List.map_append]
  exact ((perm_dirVisits _ _).append (perm_dirVisits _ _)).nodup_iff.mpr sip.nodup_files

theorem perm_brought (visits : List Visit) :
    (visits.flatMap sip.brought).Perm ((visits.filterMap sip.visited).flatMap sip.tabIDs ++
      (visits.filterMap sip.visited).map fileID) := by
  induction visits with
  | nil => exact List.Perm.nil
  | cons v visits ih =>
      have hskip : sip.brought v = [] → sip.visited v = none → ((v :: visits).flatMap sip.brought).Perm
          (((v :: visits).filterMap sip.visited).flatMap sip.tabIDs ++
            ((v :: visits).filterMap sip.visited).map fileID) := by
        intro hbrought hvisited
        rw [List.flatMap_cons, hbrought, List.nil_append, List.filterMap_cons_none hvisited]
        exact ih
      cases v with
      | dir path => exact hskip rfl rfl
      | file path =>
          cases hrow : sip.row path with
          | none => exact hskip (by rw [brought, fileIDs, hrow]; rfl) hrow
          | some f =>
              have hvisited : sip.visited (.file path) = some f := hrow
              rw [List.flatMap_cons, brought, fileIDs, hrow, Option.elim_some, List.filterMap_cons_some hvisited,
                List.flatMap_cons, List.map_cons, List.append_assoc, List.append_assoc, List.singleton_append]
              exact ((ih.cons _).trans List.perm_middle.symm).append_left _

theorem perm_broughtIDs (sip : Sip) :
    sip.broughtIDs.Perm (sip.turns.flatMap sip.tabIDs ++ (sip.turns.map fileID ++ sip.sourceIDs)) := by
  have hall : sip.broughtIDs.Perm (sip.visits.flatMap sip.brought ++ sip.sourceIDs) := by
    rw [broughtIDs, visits, List.flatMap_append, List.append_assoc]
    exact List.perm_append_comm.append_left _
  refine hall.trans (((perm_brought sip.visits).append_right _).trans ?_)
  rw [List.append_assoc]
  exact List.Perm.refl _

-- How many dmdSecs get a number.
def dmdSecNumber (sip : Sip) : Nat :=
  sip.emptySections + ((if sip.sipRow then 1 else 0) + (sip.visits.map sip.sections).sum) +
    (if sip.visits.any sip.trims then 1 else 0) + if sip.hasDublinCore then 1 else 0

-- The IDs that the script itself can give.
inductive Gives (sip : Sip) : Str → Prop
  | counted (kind : Kind) (n : Nat) (h : kind = .dmdSec → n ≤ sip.dmdSecNumber) : Gives sip (kind.ident n)
  | source (n : Nat) : Gives sip (numbered "sourceMD".toList n)
  | structMap (n : Nat) : Gives sip (structMapID n)
  | file (f : File) : Gives sip (fileID f)
  | arranged : Gives sip sip.arrangedID

-- Those that come from elsewhere: from the METS files of Dataverse and the structMaps
-- that are brought along.
def outsideIDs (sip : Sip) : List Str :=
  sip.dataverse ++ (sip.turns.flatMap sip.tabIDs ++ sip.customStructmaps.flatMap customIDs)

-- What comes from elsewhere fits together with what the script gives.
structure Coherent (sip : Sip) : Prop where
  -- what Dataverse has is put into a DMDID, behind what a CSV file has without a space
  joinable : ∀ f ∈ sip.turns, sip.Joinable f
  dataverse : ∀ id ∈ sip.dataverse, Token id
  -- an amdSec of the objects without a source is left out, but their ADMID is not
  sourced : sip.Sourced
  -- the structMap of TRIM is the second, also where another one already is
  second : sip.visits.any sip.trims = true →
    sip.createNormativeStructmap = false ∧ sip.customStructmaps.countP unnumbered = 0
  distinct : sip.outsideIDs.Nodup
  apart : ∀ id ∈ sip.outsideIDs, ¬ sip.Gives id
  -- a structMap that is brought along cannot know the numbers of the sections
  customs : ∀ doc ∈ sip.customStructmaps, ∀ t ∈ customRefs doc,
    t ∈ sip.outsideIDs ∨ t ∈ sip.turns.map fileID ∨ t ∈ sip.sourceIDs

-- The IDs of the structMaps that are numbered: the physical one, the normative one,
-- those that are brought along and that of TRIM.
def structMapIDsGiven (sip : Sip) : List Str :=
  structMapID 1 :: ((if sip.createNormativeStructmap then [structMapID 2] else []) ++
    (structMapIDs (1 + if sip.createNormativeStructmap then 1 else 0) (sip.customStructmaps.countP unnumbered) ++
      if sip.visits.any sip.trims then [structMapID 2] else []))

theorem structMapID_injective : Function.Injective structMapID := fun _ _ h =>
  (numbered_inj (by decide : '_' ∉ "structMap".toList) h).2

theorem exists_of_mem_structMapIDs {n k : Nat} {id : Str} (h : id ∈ structMapIDs n k) : ∃ m, id = structMapID m := by
  obtain ⟨m, -, rfl⟩ := List.mem_map.mp h
  exact ⟨m, rfl⟩

-- They are the numbers from one on.
theorem Coherent.structMapIDsGiven (hcoherent : sip.Coherent) :
    ∃ n, sip.structMapIDsGiven = structMapIDs 0 n := by
  rw [Sip.structMapIDsGiven]
  generalize hn : (if sip.createNormativeStructmap then 1 else 0) = n
  have hnormative : (if sip.createNormativeStructmap then [structMapID 2] else []) = structMapIDs 1 n := by
    rw [← hn]
    split_ifs <;> rfl
  rw [hnormative]
  cases htrims : sip.visits.any sip.trims with
  | true =>
      obtain ⟨hcreate, hzero⟩ := hcoherent.second htrims
      rw [hcreate, if_neg Bool.false_ne_true] at hn
      rw [← hn, hzero]
      exact ⟨2, rfl⟩
  | false =>
      refine ⟨1 + (n + sip.customStructmaps.countP unnumbered), ?_⟩
      rw [if_neg Bool.false_ne_true, List.append_nil, structMapIDs_add, structMapIDs_add]
      rfl

-- What a document is made of: the IDs that were given, and those that came along.
structure Parts (sip : Sip) (root : Xml) (made arranged : List Str) : Prop where
  issued : ∃ c, Issued Kind.ident (fun _ => 0) c made ∧ c .dmdSec = sip.dmdSecNumber
  copy : arranged = [] ∨ arranged = [sip.arrangedID]
  ids : (ids root).Perm (made ++ (sip.broughtIDs ++ (sip.structMapIDsGiven ++ (arranged ++
    (sip.dataverse ++ sip.customStructmaps.flatMap customIDs)))))
  refs : ∀ t ∈ refs root, t ∈ Mets.ids root

-- What is written of the sections and the structMaps.
def document (st : MetsState) (heads : List Str) (structMap : Xml) (normative arranged : Option Xml)
    (custom : List Xml) : Xml :=
  .mk .mets [] ([.mk .metsHdr [] []] ++ heads.map (newSection .dmdSec · []) ++ st.dmdSecs ++ st.amdSecs ++
    [fileSec st, structMap] ++ normative.toList.map (updateNormativeStructmapDmdids · structMap) ++ custom ++
    (trimStructMap st).toList ++ arranged.toList)

theorem ids_document {heads : List Str} {structMap : Xml} {normative arranged : Option Xml} {custom : List Xml} :
    ids (document st heads structMap normative arranged custom) =
    heads ++ (st.dmdSecs.flatMap ids ++ (st.amdSecs.flatMap ids ++ (st.files.flatMap ids ++ (ids structMap ++
      (normative.toList.flatMap ids ++ (custom.flatMap ids ++ ((trimStructMap st).toList.flatMap ids ++
        arranged.toList.flatMap ids))))))) := by
  have hheads : (heads.map (newSection .dmdSec · [])).flatMap ids = heads := by
    simp [List.flatMap_map, ids_newSection]
  have hnormative : (normative.toList.map (updateNormativeStructmapDmdids · structMap)).flatMap ids =
      normative.toList.flatMap ids := by
    rw [List.flatMap_map]
    exact List.flatMap_congr fun e _ => (ids_updateNormativeStructmapDmdids e structMap).1
  rw [document, ids_mk]
  simp only [List.flatMap_append, hheads, hnormative, List.flatMap_cons, List.flatMap_nil, ids_fileSec,
    List.append_nil, List.append_assoc]
  rfl

theorem mem_refs_document {heads : List Str} {structMap : Xml} {normative arranged : Option Xml} {custom : List Xml}
    (h : t ∈ refs (document st heads structMap normative arranged custom)) :
    (∃ e ∈ st.dmdSecs ++ st.amdSecs, t ∈ refs e) ∨ (∃ e ∈ st.files, t ∈ refs e) ∨ t ∈ refs structMap ∨
      (∃ e ∈ normative, t ∈ refs e) ∨ (∃ e ∈ custom, t ∈ refs e) ∨
      (∃ e ∈ st.trimStructMapObjects, t ∈ refs e) ∨ ∃ e ∈ arranged, t ∈ refs e := by
  obtain ⟨e, he, ht⟩ := (mem_refs_mk.mp h).resolve_left List.not_mem_nil
  simp only [List.mem_append, List.mem_cons, List.not_mem_nil, or_false, Option.mem_toList] at he ⊢
  rcases he with (((((((rfl | he) | he) | he) | rfl | rfl) | he) | he) | he) | he
  · simp [mem_refs_mk, mem_ownRefs] at ht
  · obtain ⟨i, -, rfl⟩ := List.mem_map.mp he
    simp [mem_refs_newSection] at ht
  · exact Or.inl ⟨e, Or.inl he, ht⟩
  · exact Or.inl ⟨e, Or.inr he, ht⟩
  · exact Or.inr (Or.inl (mem_refs_fileSec ht))
  · exact Or.inr (Or.inr (Or.inl ht))
  · obtain ⟨d, hd, rfl⟩ := List.mem_map.mp he
    rcases (ids_updateNormativeStructmapDmdids d structMap).2 t ht with ht | ht
    · exact Or.inr (Or.inr (Or.inr (Or.inl ⟨d, Option.mem_toList.mp hd, ht⟩)))
    · exact Or.inr (Or.inr (Or.inl ht))
  · exact Or.inr (Or.inr (Or.inr (Or.inr (Or.inl ⟨e, he, ht⟩))))
  · obtain ⟨objects, hobjects, rfl⟩ := Option.map_eq_some_iff.mp he
    refine Or.inr (Or.inr (Or.inr (Or.inr (Or.inr (Or.inl ⟨objects, hobjects, ?_⟩)))))
    rcases mem_refs_mk.mp ht with ht | ⟨c, hc, ht⟩
    · simp [mem_ownRefs, Dict.get?_cons] at ht
    · exact List.mem_singleton.mp hc ▸ ht
  · exact Or.inr (Or.inr (Or.inr (Or.inr (Or.inr (Or.inr ⟨e, he, ht⟩)))))

theorem ids_trimStructMap (hresolved : st.Resolved promised) :
    (trimStructMap st).toList.flatMap ids = if st.trimStructMapObjects.isSome then [structMapID 2] else [] := by
  rw [trimStructMap]
  cases hobjects : st.trimStructMapObjects with
  | none => rfl
  | some objects =>
      rw [Option.map_some, Option.toList_some, List.flatMap_singleton, ids_mk, List.flatMap_singleton,
        (hresolved.trim objects hobjects).1]
      rfl

-- The state when the normative structMap is made.
def begun : MetsState := { MetsState.new with globalStructMapCounter := 1 }

theorem begun_empty : begun.ids = 0 ∧ begun.trimmed = 0 ∧ begun.Resolved [] := by
  have hfiles : begun.files = [] := by simp [MetsState.files, begun, MetsState.new]
  have hsections : begun.dmdSecs = [] ∧ begun.amdSecs = [] := ⟨rfl, rfl⟩
  refine ⟨by simp [MetsState.ids, hfiles, hsections], rfl, ?_⟩
  exact ⟨by simp [begun, MetsState.new], by simp [hfiles], by simp [begun, MetsState.new],
    by simp [begun, MetsState.new]⟩

-- The state when the divs are made: all the sections are in it but for the Dublin Core.
structure Filled (sip : Sip) (made : List Str) (st : MetsState) : Prop where
  issued : Issued Kind.ident (fun _ => 0) st.counter made
  ids : st.ids = ↑(made ++ sip.broughtIDs)
  count : st.counter .dmdSec =
    sip.emptySections + ((if sip.sipRow then 1 else 0) + (sip.visits.map sip.sections).sum) +
      if sip.visits.any sip.trims then 1 else 0
  trimmed : st.trimStructMapObjects.isSome = sip.visits.any sip.trims
  resolved : st.Resolved []

theorem filled_of_grows {mid mid' : MetsState} {k : Nat}
    (h : Grows [] [] sip.emptySections [] false begun mid)
    (h' : Grows [] [] ((if sip.sipRow then 1 else 0) + (sip.visits.map sip.sections).sum) sip.broughtIDs
      (sip.visits.any sip.trims) { mid with globalStructMapCounter := k } mid')
    (hclean : mid'.errorCount = 0) : ∃ made, sip.Filled made mid' := by
  have hclean₁ : mid.errorCount = 0 := h'.clean hclean
  obtain ⟨hids₀, htrimmed₀, hresolved₀⟩ := begun_empty
  obtain ⟨made, hmade, hids⟩ := h.issued hclean₁
  obtain ⟨made', hmade', hids'⟩ := h'.issued hclean
  obtain ⟨hsections, hfiles, htrim, hnames⟩ := h.resolved hclean₁ hresolved₀
  have htrimmed : mid.trimmed = 0 := by
    rw [h.trimmed, htrimmed₀]
    rfl
  have hsame : MetsState.ids { mid with globalStructMapCounter := k } = mid.ids := rfl
  have htrimmed' : mid'.trimmed = if sip.visits.any sip.trims then 1 else 0 := by
    rw [h'.trimmed]
    change max mid.trimmed _ = _
    rw [htrimmed, Nat.zero_max]
  refine ⟨made ++ made', hmade.append hmade', ?_, ?_, ?_, h'.resolved hclean ⟨hsections, hfiles, htrim, hnames⟩⟩
  · rw [hids', hsame, hids, hids₀, zero_add, Multiset.coe_nil, add_zero, Multiset.coe_add, Multiset.coe_add]
  · have hfirst := h.count hclean₁
    have hsecond : mid'.counter .dmdSec + mid.trimmed = mid.counter .dmdSec + _ + mid'.trimmed := h'.count hclean
    have hzero : begun.counter .dmdSec = 0 := rfl
    rw [htrimmed, htrimmed'] at hsecond
    rw [htrimmed, htrimmed₀, hzero] at hfirst
    omega
  · rw [MetsState.trimmed] at htrimmed'
    cases hsome : mid'.trimStructMapObjects.isSome <;> cases hany : sip.visits.any sip.trims <;>
      simp [hsome, hany] at htrimmed' ⊢

-- The parts of a document: the state when its divs are made, the div of the SIP, the
-- section of the Dublin Core and the structMaps.
structure Built (sip : Sip) (made : List Str) (st : MetsState) (sipDiv : Xml) (dc : Option Str)
    (normative arranged : Option Xml) (custom : List Xml) : Prop where
  filled : sip.Filled made st
  sipDiv : Plain (fun t => t ∈ st.ids ∨ t ∈ dc ∨ t ∈ sip.dataverse) sipDiv
  created : normative.isSome = sip.createNormativeStructmap
  normative : ∀ e ∈ normative, ids e = [structMapID 2] ∧ ∀ t ∈ refs e, t ∈ st.ids
  customs : (custom.flatMap ids).Perm
    (structMapIDs (1 + if sip.createNormativeStructmap then 1 else 0) (sip.customStructmaps.countP unnumbered) ++
      sip.customStructmaps.flatMap customIDs)
  pointed : ∀ e ∈ custom, ∀ t ∈ refs e, (∃ doc ∈ sip.customStructmaps, t ∈ customRefs doc) ∨ Named st t
  arranged : ∀ e ∈ arranged, ids e = [sip.arrangedID] ∧
    ∀ t ∈ refs e, t ∈ st.ids ∨ t ∈ dc ∨ t ∈ sip.dataverse

section Built

variable {made : List Str} {sipDiv root : Xml} {dc : Option Str} {normative arranged : Option Xml}
  {custom : List Xml}

def physical (sipDiv : Xml) : Xml :=
  .mk .structMap [(.type, "physical".toList), (.id, structMapID 1), (.label, "Archivematica default".toList)]
    [sipDiv]

theorem built_of_buildMets (hcoherent : sip.Coherent) (hclean : st.errorCount = 0)
    (h : sip.buildMets MetsState.new = .ok root st) :
    ∃ made mid sipDiv dc c normative arranged custom, sip.Built made mid sipDiv dc normative arranged custom ∧
      Issued Kind.ident mid.counter c dc.toList ∧ c .dmdSec = sip.dmdSecNumber ∧
      document mid (dc.toList ++ sip.dataverse) (physical sipDiv) normative arranged custom = root := by
  rw [buildMets] at h
  obtain ⟨u, s₁, hmodify, h⟩ := bind_ok_iff.mp h
  obtain rfl := modify_ok_iff.mp hmodify
  obtain ⟨s, s₂, hget, h⟩ := bind_ok_iff.mp h
  obtain ⟨rfl, rfl⟩ := get_ok_iff.mp hget
  obtain ⟨normative, s₃, hnormative, h⟩ := bind_ok_iff.mp h
  obtain ⟨⟨sipDiv, dc⟩, s₄, hsipDiv, h⟩ := bind_ok_iff.mp h
  obtain ⟨custom, s₅, hcustom, h⟩ := bind_ok_iff.mp h
  obtain ⟨arranged, s₆, harranged, h⟩ := bind_ok_iff.mp h
  obtain ⟨s, s₇, hget, h⟩ := bind_ok_iff.mp h
  obtain ⟨rfl, rfl⟩ := get_ok_iff.mp hget
  obtain ⟨hroot, rfl⟩ := pure_ok_iff.mp h
  obtain ⟨-, rfl⟩ := buildArrangedStructmap_ok harranged
  obtain ⟨mid, g₁, rfl, hcreated, hnormativeIDs⟩ := getNormative_ok hnormative
  obtain ⟨mid', c, n, g₂, rfl, hissued, hdmd, hplain⟩ := createSipDiv_ok (fun v hv f hf =>
    hcoherent.joinable f (List.mem_filterMap.mpr ⟨v, hv, hf⟩)) hsipDiv
  obtain ⟨rfl, hcustomIDs, hcustomRefs⟩ := includeCustomStructmap_ids (by simp) hclean hcustom
  have hmid' : mid'.errorCount = 0 := (Nat.add_eq_zero_iff.mp hclean).1
  obtain ⟨made, hfilled⟩ := filled_of_grows g₁ g₂ hmid'
  replace hplain := hplain hclean hcoherent.sourced hcoherent.dataverse
  have hcounter : mid'.globalStructMapCounter = 1 + if sip.createNormativeStructmap then 1 else 0 := by
    have hstructMaps : mid'.globalStructMapCounter = 1 + normative.toList.length := g₂.structMaps
    rw [hstructMaps, ← hcreated]
    cases normative <;> rfl
  refine ⟨made, mid', sipDiv, dc, c, normative, arranged, custom, ?_, hissued, ?_, hroot⟩
  · exact {
      filled := hfilled
      sipDiv := hplain
      created := hcreated
      normative e he := (hnormativeIDs e he).imp_right fun hrefs t ht => g₂.mem_ids hmid' (hrefs t ht)
      customs := hcounter ▸ hcustomIDs
      pointed e he := (hcustomRefs e he).resolve_left List.not_mem_nil
      arranged := ids_buildArrangedStructmap hplain harranged }
  · rw [hdmd, hfilled.count]
    rfl

-- What is in the document has an ID that was given, or one that came along.
theorem Built.perm_ids (h : sip.Built made st sipDiv dc normative arranged custom) :
    (ids (document st (dc.toList ++ sip.dataverse) (physical sipDiv) normative arranged custom)).Perm
      (made ++ dc.toList ++ (sip.broughtIDs ++ (sip.structMapIDsGiven ++
        (arranged.toList.flatMap ids ++ (sip.dataverse ++ sip.customStructmaps.flatMap customIDs))))) := by
  have hnormative : normative.toList.flatMap ids =
      if sip.createNormativeStructmap then [structMapID 2] else [] := by
    rw [← h.created]
    cases normative with
    | none => rfl
    | some e => exact (List.flatMap_singleton ..).trans (h.normative e rfl).1
  have hphysical : ids (physical sipDiv) = [structMapID 1] := by
    rw [physical, ids_mk, List.flatMap_singleton, h.sipDiv.ids, List.append_nil]
    rfl
  have hfilled : (↑(st.dmdSecs.flatMap ids) + ↑(st.amdSecs.flatMap ids) + ↑(st.files.flatMap ids) :
      Multiset Str) = ↑made + ↑sip.broughtIDs := h.filled.ids.trans (Multiset.coe_add ..).symm
  have hnumbered := Multiset.coe_eq_coe.mpr h.customs
  rw [← Multiset.coe_eq_coe, ids_document, hphysical, hnormative, ids_trimStructMap h.filled.resolved,
    h.filled.trimmed, structMapIDsGiven]
  simp only [← Multiset.coe_add, ← Multiset.cons_coe, ← Multiset.singleton_add, Multiset.coe_nil, add_zero]
    at hnumbered ⊢
  generalize (↑(st.dmdSecs.flatMap ids) : Multiset Str) = dmdIDs at hfilled ⊢
  generalize (↑(st.amdSecs.flatMap ids) : Multiset Str) = amdIDs at hfilled ⊢
  generalize (↑(st.files.flatMap ids) : Multiset Str) = fileIDs at hfilled ⊢
  generalize (↑(custom.flatMap ids) : Multiset Str) = customs at hnumbered ⊢
  have hsplit : ∀ x y z u v w : Multiset Str,
      x + y + (dmdIDs + (amdIDs + (fileIDs + (z + (u + (customs + (v + w))))))) =
        (dmdIDs + amdIDs + fileIDs) + (customs + (x + y + z + u + v + w)) := by
    intro x y z u v w
    abel
  rw [hsplit, hfilled, hnumbered]
  abel

theorem Built.mem_ids_outside (h : sip.Built made st sipDiv dc normative arranged custom)
    (ht : t ∈ sip.outsideIDs ∨ t ∈ sip.turns.map fileID ∨ t ∈ sip.sourceIDs) :
    t ∈ ids (document st (dc.toList ++ sip.dataverse) (physical sipDiv) normative arranged custom) := by
  have hbrought : ∀ {t : Str}, t ∈ sip.turns.flatMap sip.tabIDs ++ (sip.turns.map fileID ++ sip.sourceIDs) →
      t ∈ ids (document st (dc.toList ++ sip.dataverse) (physical sipDiv) normative arranged custom) := fun ht =>
    h.perm_ids.mem_iff.mpr
      (List.mem_append_right _ (List.mem_append_left _ (sip.perm_broughtIDs.mem_iff.mpr ht)))
  have hlast : ∀ {t : Str}, t ∈ sip.dataverse ++ sip.customStructmaps.flatMap customIDs →
      t ∈ ids (document st (dc.toList ++ sip.dataverse) (physical sipDiv) normative arranged custom) := fun ht =>
    h.perm_ids.mem_iff.mpr (List.mem_append_right _ (List.mem_append_right _
      (List.mem_append_right _ (List.mem_append_right _ ht))))
  rcases ht with ht | ht
  · rcases List.mem_append.mp ht with ht | ht
    · exact hlast (List.mem_append_left _ ht)
    · rcases List.mem_append.mp ht with ht | ht
      · exact hbrought (List.mem_append_left _ ht)
      · exact hlast (List.mem_append_right _ ht)
  · exact hbrought (List.mem_append_right _ (List.mem_append.mpr ht))

theorem Built.mem_ids_known (h : sip.Built made st sipDiv dc normative arranged custom)
    (ht : t ∈ st.ids ∨ t ∈ dc ∨ t ∈ sip.dataverse) :
    t ∈ ids (document st (dc.toList ++ sip.dataverse) (physical sipDiv) normative arranged custom) := by
  rcases ht with ht | ht | ht
  · rw [h.filled.ids, Multiset.mem_coe, List.mem_append] at ht
    rcases ht with ht | ht
    · exact h.perm_ids.mem_iff.mpr (List.mem_append_left _ (List.mem_append_left _ ht))
    · exact h.perm_ids.mem_iff.mpr (List.mem_append_right _ (List.mem_append_left _ ht))
  · exact h.perm_ids.mem_iff.mpr
      (List.mem_append_left _ (List.mem_append_right _ (Option.mem_toList.mpr ht)))
  · exact h.mem_ids_outside (Or.inl (List.mem_append_left _ ht))

-- What a part refers to is there.
theorem Built.mem_ids (h : sip.Built made st sipDiv dc normative arranged custom) (hcoherent : sip.Coherent)
    (ht : t ∈ refs (document st (dc.toList ++ sip.dataverse) (physical sipDiv) normative arranged custom)) :
    t ∈ ids (document st (dc.toList ++ sip.dataverse) (physical sipDiv) normative arranged custom) := by
  have hresolved := h.filled.resolved
  rcases mem_refs_document ht with ⟨e, he, ht⟩ | ⟨e, he, ht⟩ | ht | ⟨e, he, ht⟩ | ⟨e, he, ht⟩ | ⟨e, he, ht⟩ |
    ⟨e, he, ht⟩
  · exact absurd ht (hresolved.sections e he t)
  · exact h.mem_ids_known (Or.inl ((hresolved.files e he t ht).resolve_right List.not_mem_nil))
  · rcases mem_refs_mk.mp ht with ht | ⟨c, hc, ht⟩
    · simp [mem_ownRefs, Dict.get?_cons] at ht
    · rw [List.mem_singleton.mp hc] at ht
      exact h.mem_ids_known (h.sipDiv.refs t ht)
  · exact h.mem_ids_known (Or.inl ((h.normative e he).2 t ht))
  · rcases h.pointed e he t ht with ⟨doc, hdoc, ht⟩ | ⟨path, id, hid, ht⟩
    · exact h.mem_ids_outside (hcoherent.customs doc hdoc t ht)
    · obtain ⟨htoken, hid⟩ := hresolved.names path id hid
      rw [htoken.tokens_eq, List.mem_singleton] at ht
      exact ht ▸ h.mem_ids_known (Or.inl (hid.resolve_right List.not_mem_nil))
  · exact h.mem_ids_known (Or.inl (((hresolved.trim e he).2 t ht).resolve_right List.not_mem_nil))
  · exact h.mem_ids_known ((h.arranged e he).2 t ht)

theorem parts_buildMets (hcoherent : sip.Coherent) (hclean : st.errorCount = 0)
    (h : sip.buildMets MetsState.new = .ok root st) :
    ∃ made arranged, sip.Parts root made arranged := by
  obtain ⟨made, mid, sipDiv, dc, c, normative, arranged, custom, hbuilt, hissued, hcount, rfl⟩ :=
    built_of_buildMets hcoherent hclean h
  have hcopy : arranged.toList.flatMap ids = [] ∨ arranged.toList.flatMap ids = [sip.arrangedID] := by
    cases arranged with
    | none => exact Or.inl rfl
    | some e => exact Or.inr ((List.flatMap_singleton ..).trans (hbuilt.arranged e rfl).1)
  exact ⟨made ++ dc.toList, arranged.toList.flatMap ids, ⟨c, hbuilt.filled.issued.append hissued, hcount⟩, hcopy,
    hbuilt.perm_ids, fun t ht => hbuilt.mem_ids hcoherent ht⟩

end Built

-- The names that the IDs begin with keep the kinds apart.
def word (id : Str) : Str := id.takeWhile fun c => c ≠ '_' ∧ c ≠ '-'

theorem word_append (name : Str) {rest : Str} {c : Char}
    (hname : (name.all fun d => d ≠ '_' ∧ d ≠ '-') = true) (hc : ¬ (c ≠ '_' ∧ c ≠ '-')) :
    word (name ++ c :: rest) = name := by
  rw [word, List.takeWhile_append_of_pos (List.all_eq_true.mp hname),
    List.takeWhile_cons_of_neg (by simpa using hc), List.append_nil]

theorem word_ident (kind : Kind) (n : Nat) : word (kind.ident n) = kind.name :=
  word_append _ (by cases kind <;> decide) (by decide)

theorem word_sourceMD (n : Nat) : word (numbered "sourceMD".toList n) = "sourceMD".toList :=
  word_append _ (by decide) (by decide)

theorem word_structMapID (n : Nat) : word (structMapID n) = "structMap".toList :=
  word_append _ (by decide) (by decide)

theorem word_fileID (f : File) : word (fileID f) = "file".toList :=
  word_append "file".toList (by decide) (by decide)

theorem structMapID_ne_arrangedID (n : Nat) : structMapID n ≠ sip.arrangedID := by
  intro h
  have hdigits : (toString n).toList = sip.uuid4.string :=
    List.append_cancel_left (show "structMap_".toList ++ _ = "structMap_".toList ++ _ from h)
  have hdash : '-' ∈ (toString n).toList := by
    rw [hdigits, UUID.string]
    simp
  rw [toList_toString] at hdash
  exact absurd (Nat.isDigit_of_mem_toDigits (by decide) (by decide) hdash) (by decide)

-- The IDs that the script gives.
def givenIDs (sip : Sip) (made arranged : List Str) : List Str :=
  made ++ (sip.turns.map fileID ++ (sip.sourceIDs ++ (sip.structMapIDsGiven ++ arranged)))

theorem Parts.perm {root : Xml} {made arranged : List Str} (h : sip.Parts root made arranged) :
    (Mets.ids root).Perm (sip.givenIDs made arranged ++ sip.outsideIDs) := by
  have hbrought := Multiset.coe_eq_coe.mpr sip.perm_broughtIDs
  rw [← Multiset.coe_eq_coe, Multiset.coe_eq_coe.mpr h.ids, givenIDs, outsideIDs]
  simp only [← Multiset.coe_add] at hbrought ⊢
  rw [hbrought]
  abel

theorem gives_of_mem {root : Xml} {made arranged : List Str} (hcoherent : sip.Coherent)
    (h : sip.Parts root made arranged) {id : Str} (hid : id ∈ sip.givenIDs made arranged) : sip.Gives id := by
  simp only [givenIDs, List.mem_append] at hid
  rcases hid with hid | hid | hid | hid | hid
  · obtain ⟨c, hissued, hcount⟩ := h.issued
    obtain ⟨kind, n, rfl, -, hn⟩ := hissued.exists_of_mem hid
    refine .counted kind n ?_
    rintro rfl
    exact hcount ▸ hn
  · obtain ⟨f, -, rfl⟩ := List.mem_map.mp hid
    exact .file f
  · obtain ⟨n, -, rfl⟩ := List.mem_map.mp hid
    exact .source (n + 1)
  · obtain ⟨n, hn⟩ := hcoherent.structMapIDsGiven
    rw [hn] at hid
    obtain ⟨m, rfl⟩ := exists_of_mem_structMapIDs hid
    exact .structMap m
  · rcases h.copy with hcopy | hcopy
    · rw [hcopy] at hid
      cases hid
    · rw [hcopy, List.mem_singleton] at hid
      exact hid ▸ .arranged

theorem nodup_givenIDs {root : Xml} {made arranged : List Str} (hcoherent : sip.Coherent)
    (h : sip.Parts root made arranged) : (sip.givenIDs made arranged).Nodup := by
  have hdisjoint : ∀ {l l' : List Str}, (∀ a ∈ l, ∀ b ∈ l', word a ≠ word b) → l.Disjoint l' :=
    fun h a ha ha' => h a ha a ha' rfl
  obtain ⟨c, hissued, -⟩ := h.issued
  obtain ⟨n, hnumbers⟩ := hcoherent.structMapIDsGiven
  have hmade : ∀ id ∈ made, ∃ kind : Kind, word id = kind.name := by
    intro id hid
    obtain ⟨kind, m, rfl, -, -⟩ := hissued.exists_of_mem hid
    exact ⟨kind, word_ident kind m⟩
  have hfiles : ∀ id ∈ sip.turns.map fileID, word id = "file".toList := by
    intro id hid
    obtain ⟨f, -, rfl⟩ := List.mem_map.mp hid
    exact word_fileID f
  have hsources : ∀ id ∈ sip.sourceIDs, word id = "sourceMD".toList := by
    intro id hid
    obtain ⟨m, -, rfl⟩ := List.mem_map.mp hid
    exact word_sourceMD (m + 1)
  have hstructMaps : ∀ id ∈ sip.structMapIDsGiven ++ arranged, word id = "structMap".toList := by
    intro id hid
    rcases List.mem_append.mp hid with hid | hid
    · rw [hnumbers] at hid
      obtain ⟨m, rfl⟩ := exists_of_mem_structMapIDs hid
      exact word_structMapID m
    · rcases h.copy with hcopy | hcopy
      · rw [hcopy] at hid
        cases hid
      · rw [hcopy, List.mem_singleton] at hid
        rw [hid]
        exact word_append "structMap".toList (by decide) (by decide)
  have hstructMapsNodup : (sip.structMapIDsGiven ++ arranged).Nodup := by
    rw [hnumbers]
    refine (List.Nodup.map structMapID_injective (List.nodup_range' 1)).append ?_ ?_
    · rcases h.copy with hcopy | hcopy <;> simp [hcopy]
    · intro id hid hcopied
      obtain ⟨m, rfl⟩ := exists_of_mem_structMapIDs hid
      rcases h.copy with hcopy | hcopy
      · simp [hcopy] at hcopied
      · rw [hcopy, List.mem_singleton] at hcopied
        exact structMapID_ne_arrangedID m hcopied
  have hsourcesNodup : sip.sourceIDs.Nodup := by
    refine List.Nodup.map (fun m m' h => ?_) List.nodup_range
    exact Nat.succ_injective (numbered_inj (by decide) h).2
  refine (hissued.nodup Kind.ident_inj).append (sip.nodup_turns.append (hsourcesNodup.append hstructMapsNodup ?_) ?_) ?_
  · refine hdisjoint fun a ha b hb => ?_
    rw [hsources a ha, hstructMaps b hb]
    decide
  · refine hdisjoint fun a ha b hb => ?_
    rw [hfiles a ha]
    rcases List.mem_append.mp hb with hb | hb
    · rw [hsources b hb]
      decide
    · rw [hstructMaps b hb]
      decide
  · refine hdisjoint fun a ha b hb => ?_
    obtain ⟨kind, hkind⟩ := hmade a ha
    rw [hkind]
    rcases List.mem_append.mp hb with hb | hb
    · rw [hfiles b hb]
      cases kind <;> decide
    · rcases List.mem_append.mp hb with hb | hb
      · rw [hsources b hb]
        cases kind <;> decide
      · rw [hstructMaps b hb]
        cases kind <;> decide

-- The document of a SIP whose parts fit together has no ID twice, and each identifier
-- that it refers to is one of them.
theorem main_coherent (sip : Sip) (hcoherent : sip.Coherent) :
    ∀ root ∈ sip.main, (ids root).Nodup ∧ ∀ t ∈ refs root, t ∈ ids root := by
  intro root hroot
  obtain ⟨st, hbuild, hclean⟩ := main_ok hroot
  obtain ⟨made, arranged, hparts⟩ := parts_buildMets hcoherent hclean hbuild
  refine ⟨?_, hparts.refs⟩
  rw [hparts.perm.nodup_iff]
  exact (nodup_givenIDs hcoherent hparts).append hcoherent.distinct fun id hid hin =>
    hcoherent.apart id hin (gives_of_mem hcoherent hparts hid)

end Sip

-- A structMap with two places for the letter, which is one of the files.
def shelves : Xml :=
  .mk .mets [] [.mk .structMap [(.id, "shelves".toList)]
    [.mk .div [] [.mk .fptr [(.contentIDs, "objects/letter".toList)] [],
      .mk .fptr [(.contentIDs, "objects/letter".toList)] []]]]

def shelved : Sip :=
  { letters with
    includeAmdSec := true
    createNormativeStructmap := true
    sipRow := true
    customStructmaps := [shelves] }

set_option maxRecDepth 8000 in
theorem isSome_shelved : shelved.main.isSome = true := by decide +kernel

theorem outsideIDs_shelved : shelved.outsideIDs = ["shelves".toList] := by
  have htab : ∀ f, shelved.tabIDs f = [] := fun f => ite_self _
  have hfiles : shelved.turns.flatMap shelved.tabIDs = [] := List.flatMap_eq_nil_iff.mpr fun f _ => htab f
  have hcustoms : shelved.customStructmaps.flatMap customIDs = ["shelves".toList] := by decide
  rw [Sip.outsideIDs, hfiles, hcustoms]
  rfl

theorem coherent_shelved : shelved.Coherent where
  joinable f _ := by
    have htab : shelved.tabIDs f = [] := ite_self _
    exact ⟨by simp [htab], fun _ _ => htab⟩
  dataverse := by
    intro id hid
    cases hid
  sourced h := absurd rfl h
  second h := absurd h (by decide)
  distinct := outsideIDs_shelved ▸ List.nodup_singleton _
  apart id hid hgives := by
    rw [outsideIDs_shelved, List.mem_singleton] at hid
    subst hid
    generalize hshelves : "shelves".toList = id at hgives
    have hword : Sip.word id = "shelves".toList := hshelves ▸ rfl
    cases hgives with
    | counted kind n h =>
        rw [Sip.word_ident] at hword
        cases kind <;> exact absurd hword (by decide)
    | source n => exact absurd ((Sip.word_sourceMD n).symm.trans hword) (by decide)
    | structMap n => exact absurd ((Sip.word_structMapID n).symm.trans hword) (by decide)
    | file f => exact absurd ((Sip.word_fileID f).symm.trans hword) (by decide)
    | arranged => exact absurd hword (by decide +kernel)
  customs := by
    have hnone : ∀ doc ∈ shelved.customStructmaps, customRefs doc = [] := by decide
    intro doc hdoc t ht
    rw [hnone doc hdoc] at ht
    cases ht

theorem main_coherent_shelved :
    ∃ root ∈ shelved.main, (ids root).Nodup ∧ ∀ t ∈ refs root, t ∈ ids root := by
  obtain ⟨root, hroot⟩ := Option.isSome_iff_exists.mp isSome_shelved
  exact ⟨root, hroot, Sip.main_coherent shelved coherent_shelved root hroot⟩

end Ccp.Worker.Mets
