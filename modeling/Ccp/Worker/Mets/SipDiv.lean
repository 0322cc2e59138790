import Ccp.Worker.Mets.FileSec

namespace Ccp.Worker.Mets

open Lib PosixPath Lib.Calls MetsState

-- An element without IDs that refers only to what is known.
structure Plain (known : Str → Prop) (e : Xml) : Prop where
  ids : Mets.ids e = []
  refs : ∀ t ∈ Mets.refs e, known t

theorem Plain.mono {known known' : Str → Prop} {e : Xml} (h : Plain known e)
    (hknown : ∀ t, known t → known' t) : Plain known' e :=
  ⟨h.ids, fun t ht => hknown t (h.refs t ht)⟩

theorem Plain.set {known : Str → Prop} {e : Xml} {key : Attr} {value : Str} (h : Plain known e)
    (hkey : key ≠ .id) (hvalue : ∀ t ∈ tokens value, known t) : Plain known (e.set key value) := by
  refine ⟨(ids_set hkey value e).trans h.ids, fun t ht => ?_⟩
  rcases mem_refs_set ht with ht | ht
  · exact h.refs t ht
  · exact hvalue t ht

namespace Sip

variable {sip : Sip} {st st' : MetsState} {promised : List Str}

-- The visits of one of the two directories.
def dirVisits (path : Str) : Option Listing → List Visit
  | none => []
  | some listing => .dir path :: listing.visits path

theorem grows_createFileSec {path : Str} {listing : Option Listing} {made : Option (Xml × Str)}
    (hjoin : ∀ v ∈ dirVisits path listing, ∀ f ∈ sip.visited v, sip.Joinable f)
    (h : sip.createFileSec path listing st = .ok made st') :
    Grows [] [] ((dirVisits path listing).map sip.sections).sum
        ((dirVisits path listing).flatMap sip.brought) ((dirVisits path listing).any sip.trims) st st' ∧
      (st'.errorCount = 0 → ∀ m ∈ made, Plain (· ∈ st'.ids) m.1 ∧ Listed st' m.2) ∧
      (made.isSome = listing.isSome) := by
  cases listing with
  | none =>
      obtain ⟨rfl, rfl⟩ := pure_ok_iff.mp h
      exact ⟨Grows.refl [] st, by simp, rfl⟩
  | some listing =>
      rw [createFileSec] at h
      obtain ⟨loop, s₁, hbegin, h⟩ := bind_ok_iff.mp h
      obtain ⟨loop', s₂, hitems, h⟩ := bind_ok_iff.mp h
      obtain ⟨div, s₃, hend, h⟩ := bind_ok_iff.mp h
      obtain ⟨rfl, rfl⟩ := pure_ok_iff.mp h
      obtain ⟨g₁, hloop⟩ := @grows_beginDirectory _ _ _ [] _ _ hbegin
      obtain ⟨g₂, hloop'⟩ := grows_items (fun v hv => hjoin v (List.mem_cons_of_mem _ hv)) hloop hitems
      obtain ⟨g₃, hdiv⟩ := grows_endDirectory hloop' hend
      refine ⟨?_, fun hclean m hm => ?_, rfl⟩
      · have hall := g₁.trans (g₂.trans g₃)
        simpa [dirVisits, sections, brought, trims] using hall
      · obtain rfl := Option.some.inj hm
        exact ⟨⟨(hdiv hclean).1, (hdiv hclean).2⟩,
          (hloop' (g₃.clean hclean)).parentDmdID.grows g₃ hclean⟩

-- The sections of the sources, one for each file and each bag with tags.
def sourceIDs (sip : Sip) : List Str :=
  (List.range (sip.transferMetadata.length + sip.sourceMetadata.length +
    (sip.bagInfo.filter (· ≠ [])).length)).map fun i => numbered "sourceMD".toList (i + 1)

-- Where the objects get a section there is something in it.
def Sourced (sip : Sip) : Prop := sip.bagInfo ≠ [] → sip.sourceIDs ≠ []

theorem createObjectMetadata_ok {made : Option (Xml × Str)}
    (h : sip.createObjectMetadata st = .ok made st') :
    (made = none ∧ sip.sourceIDs = [] ∧ st = st') ∨
      ∃ c el amdID, made = some (el, amdID) ∧ st' = { st with counter := c } ∧
        Issued Kind.ident st.counter c [amdID] ∧ Token amdID ∧
        c .dmdSec = st.counter .dmdSec ∧ ids el = amdID :: sip.sourceIDs ∧ (∀ t, t ∉ refs el) ∧
        el.children.length = sip.sourceIDs.length ∧ (sip.Sourced → sip.sourceIDs ≠ []) := by
  rw [createObjectMetadata] at h
  split_ifs at h with hnone
  · obtain ⟨rfl, rfl⟩ := pure_ok_iff.mp h
    refine Or.inl ⟨rfl, ?_, rfl⟩
    simp [sourceIDs, hnone]
  · obtain ⟨amdID, s₁, hcount, h⟩ := bind_ok_iff.mp h
    obtain ⟨rfl, rfl⟩ := pure_ok_iff.mp h
    obtain ⟨c, rfl, hissued, htoken, hdmd⟩ := count_ok hcount
    refine Or.inr ⟨c, _, amdID, rfl, rfl, hissued, htoken, hdmd, ?_, fun t => ?_, ?_, fun hsourced => ?_⟩
    · rw [ids_newSection, List.flatMap_map, sourceIDs]
      simp [Dict.get?_cons, List.map_eq_flatMap]
    · simp [mem_refs_newSection, mem_refs_mk, mem_ownRefs, Dict.get?_cons]
    · simp [newSection, Element.children, sourceIDs]
    · by_cases hbags : sip.bagInfo = []
      · simp only [hbags, and_true, not_and_or] at hnone
        simp only [sourceIDs, ne_eq, List.map_eq_nil_iff, List.range_eq_nil]
        rcases hnone with hne | hne
        · have hpos := List.length_pos_iff.mpr hne
          omega
        · have hpos := List.length_pos_iff.mpr hne
          omega
      · exact hsourced hbags

theorem grows_addObjectMetadata {objectsDiv made : Option Xml}
    (hdiv : st.errorCount = 0 → ∀ d ∈ objectsDiv, Plain (· ∈ st.ids) d)
    (h : sip.addObjectMetadata objectsDiv st = .ok made st') :
    Grows promised promised 0 sip.sourceIDs false st st' ∧
      (st'.errorCount = 0 → sip.Sourced → ∀ d ∈ made, Plain (· ∈ st'.ids) d) ∧
      made.isSome = objectsDiv.isSome := by
  rw [addObjectMetadata] at h
  obtain ⟨found, s₁, hcreate, h⟩ := bind_ok_iff.mp h
  rcases createObjectMetadata_ok hcreate with ⟨rfl, hnone, rfl⟩ | ⟨c, el, amdID, rfl, rfl, hissued,
    htoken, hdmd, hids, hrefs, hchildren, hsourced⟩
  · obtain ⟨rfl, rfl⟩ := pure_ok_iff.mp h
    rw [hnone]
    exact ⟨Grows.refl promised st, fun hclean _ => hdiv hclean, rfl⟩
  · cases objectsDiv with
    | none => exact absurd h throw_ne_ok
    | some div =>
        obtain ⟨u, s₂, happend, h⟩ := bind_ok_iff.mp h
        obtain ⟨rfl, rfl⟩ := pure_ok_iff.mp h
        unfold appendAmdSec at happend
        by_cases hempty : sip.sourceIDs = []
        · -- the section is dropped, and its ID is lost
          rw [if_neg (by rw [hchildren, hempty]; simp)] at happend
          obtain ⟨-, rfl⟩ := pure_ok_iff.mp happend
          have hgrows := @grows_sections promised [] 0 st c [] [] [] (.nil hissued.le) (by simp)
            (by simp) hdmd
          rw [List.append_nil, List.append_nil] at hgrows
          rw [hempty]
          exact ⟨hgrows, fun _ hcond => absurd hempty (hsourced hcond), rfl⟩
        · rw [if_pos (by rw [hchildren]; simpa using hempty)] at happend
          obtain rfl := modify_ok_iff.mp happend
          have hgrows := @grows_sections promised sip.sourceIDs 0 st c [] [el] [amdID] hissued
            (by simp [hids]) (by simpa using hrefs) hdmd
          rw [List.append_nil] at hgrows
          refine ⟨hgrows, fun hclean _ d hd => ?_, rfl⟩
          obtain rfl := Option.some.inj hd
          refine ((hdiv hclean div rfl).mono fun t ht => hgrows.mem_ids hclean ht).set (by decide)
            fun t ht => ?_
          rw [htoken.tokens_eq, List.mem_singleton] at ht
          subst ht
          simp [MetsState.ids, hids]

-- The Dublin Core of the SIP that is found.
def hasDublinCore (sip : Sip) : Bool := sip.dublinCore || sip.dublinCoreFiles.any id

-- The ID of the Dublin Core is not in the state: its section goes to the document.
theorem createDublincore_ok {dc : Option Str}
    (h : sip.createDublincoreDMDSecFromDBData st = .ok dc st') :
    ∃ c n, st' = { st with counter := c, errorCount := st.errorCount + n } ∧
      Issued Kind.ident st.counter c dc.toList ∧ (∀ id ∈ dc, Token id) ∧
      c .dmdSec = st.counter .dmdSec + if sip.hasDublinCore then 1 else 0 := by
  rw [createDublincoreDMDSecFromDBData] at h
  rw [hasDublinCore]
  cases hrow : sip.dublinCore with
  | true =>
      rw [hrow, if_pos rfl] at h
      obtain ⟨id, s₁, hcount, h⟩ := bind_ok_iff.mp h
      obtain ⟨rfl, rfl⟩ := pure_ok_iff.mp h
      obtain ⟨c, rfl, hissued, htoken, hdmd⟩ := count_ok hcount
      exact ⟨c, 0, rfl, hissued, by simpa using htoken, hdmd⟩
  | false =>
      rw [hrow, if_neg Bool.false_ne_true] at h
      obtain ⟨u, s₁, hmodify, h⟩ := bind_ok_iff.mp h
      obtain rfl := modify_ok_iff.mp hmodify
      cases hfile : sip.dublinCoreFiles.any id with
      | true =>
          rw [hfile, if_pos rfl] at h
          obtain ⟨id, s₂, hcount, h⟩ := bind_ok_iff.mp h
          obtain ⟨rfl, rfl⟩ := pure_ok_iff.mp h
          obtain ⟨c, rfl, hissued, htoken, hdmd⟩ := count_ok hcount
          exact ⟨c, _, rfl, hissued, by simpa using htoken, hdmd⟩
      | false =>
          rw [hfile, if_neg Bool.false_ne_true] at h
          obtain ⟨rfl, rfl⟩ := pure_ok_iff.mp h
          exact ⟨st.counter, _, rfl, .nil fun _ => Nat.le_refl _, by simp, rfl⟩

theorem addDataverse_state {objectsDiv made : Option Xml} {ids : List Str}
    (h : addDataverse objectsDiv ids st = .ok made st') : st = st' := by
  induction ids generalizing objectsDiv with
  | nil => exact (pure_ok_iff.mp h).2
  | cons id ids ih =>
      cases objectsDiv with
      | none => exact absurd h throw_ne_ok
      | some div => exact ih h

theorem plain_addDataverse {known : Str → Prop} {objectsDiv made : Option Xml} {ids : List Str}
    (hdiv : ∀ d ∈ objectsDiv, Plain known d) (hids : ∀ id ∈ ids, Token id ∧ known id)
    (h : addDataverse objectsDiv ids st = .ok made st') : ∀ d ∈ made, Plain known d := by
  induction ids generalizing objectsDiv with
  | nil =>
      obtain ⟨rfl, -⟩ := pure_ok_iff.mp h
      exact hdiv
  | cons id ids ih =>
      cases objectsDiv with
      | none => exact absurd h throw_ne_ok
      | some div =>
          rw [addDataverse] at h
          refine ih (fun d hd => ?_) (fun i hi => hids i (List.mem_cons_of_mem _ hi)) h
          obtain rfl := Option.some.inj hd
          refine (hdiv div rfl).set (by decide) fun t ht => ?_
          rw [tokens_append_space, (hids id List.mem_cons_self).1.tokens_eq, List.mem_append,
            List.mem_singleton] at ht
          rcases ht with ht | rfl
          · refine (hdiv div rfl).refs t ?_
            obtain ⟨tag, attrib, children⟩ := div
            refine mem_refs_mk.mpr (Or.inl (mem_ownRefs.mpr ⟨.dmdID, by simp, ?_⟩))
            cases hget : Dict.get? attrib .dmdID with
            | none => simp [Element.get, Element.attrib, hget] at ht
            | some v => exact ⟨v, rfl, by simpa [Element.get, Element.attrib, hget] using ht⟩
          · exact (hids t List.mem_cons_self).2

theorem grows_aipDmdSec {id : Str} (h : sip.aipDmdSec st = .ok id st') :
    Grows promised promised (if sip.sipRow then 1 else 0) [] false st st' ∧ Listed st' id := by
  unfold aipDmdSec at h
  split_ifs at h ⊢
  · obtain ⟨hgrows, htoken, hmem⟩ := @grows_addDmdSec _ _ promised _ h
    refine ⟨hgrows, fun t ht => ?_⟩
    rw [htoken.tokens_eq, List.mem_singleton] at ht
    exact ht ▸ hmem
  · obtain ⟨rfl, rfl⟩ := pure_ok_iff.mp h
    exact ⟨Grows.refl promised st, listed_nil st⟩

theorem listed_parentDmdID {dmdID : Str} {made : Option (Xml × Str)} (h : Listed st dmdID)
    (hmade : ∀ m ∈ made, Listed st m.2) : Listed st (parentDmdID dmdID made) := by
  cases made with
  | none => exact h
  | some m =>
      dsimp only [parentDmdID]
      split_ifs
      · exact h
      · exact hmade m rfl

def objectsVisits (sip : Sip) : List Visit := dirVisits (join sip.base "objects".toList) sip.objects

def metadataVisits (sip : Sip) : List Visit :=
  dirVisits (join sip.base "metadata".toList) sip.metadata

-- All that is visited, the objects first.
def visits (sip : Sip) : List Visit := sip.objectsVisits ++ sip.metadataVisits

-- The IDs that the files and the sources bring in.
def broughtIDs (sip : Sip) : List Str :=
  sip.objectsVisits.flatMap sip.brought ++ (sip.sourceIDs ++ sip.metadataVisits.flatMap sip.brought)

theorem createSipDiv_ok {name : Str} {made : Xml × Option Str}
    (hjoin : ∀ v ∈ sip.visits, ∀ f ∈ sip.visited v, sip.Joinable f)
    (h : sip.createSipDiv name st = .ok made st') :
    ∃ mid c n, Grows [] [] ((if sip.sipRow then 1 else 0) + (sip.visits.map sip.sections).sum)
        sip.broughtIDs (sip.visits.any sip.trims) st mid ∧
      st' = { mid with counter := c, errorCount := mid.errorCount + n } ∧
      Issued Kind.ident mid.counter c made.2.toList ∧
      c .dmdSec = mid.counter .dmdSec + (if sip.hasDublinCore then 1 else 0) ∧
      (st'.errorCount = 0 → sip.Sourced → (∀ id ∈ sip.dataverse, Token id) →
        Plain (fun t => t ∈ mid.ids ∨ t ∈ made.2 ∨ t ∈ sip.dataverse) made.1) := by
  rw [createSipDiv] at h
  obtain ⟨aipDmdID, s₁, haip, h⟩ := bind_ok_iff.mp h
  obtain ⟨objects, s₂, hobjects, h⟩ := bind_ok_iff.mp h
  obtain ⟨objectsDiv, s₃, hsource, h⟩ := bind_ok_iff.mp h
  obtain ⟨metadata, s₄, hmetadata, h⟩ := bind_ok_iff.mp h
  obtain ⟨dc, s₅, hdc, h⟩ := bind_ok_iff.mp h
  obtain ⟨objectsDiv', s₆, hdataverse, h⟩ := bind_ok_iff.mp h
  obtain ⟨rfl, rfl⟩ := pure_ok_iff.mp h
  obtain ⟨g₁, haipID⟩ := @grows_aipDmdSec _ _ _ [] _ haip
  obtain ⟨g₂, hobjectsDiv, -⟩ :=
    grows_createFileSec (fun v hv => hjoin v (List.mem_append_left _ hv)) hobjects
  obtain ⟨g₃, hsourced, -⟩ := @grows_addObjectMetadata _ _ _ [] _ _ (fun hclean d hd => by
    obtain ⟨m, hm, rfl⟩ := Option.mem_map.mp hd
    exact (hobjectsDiv hclean m hm).1) hsource
  obtain ⟨g₄, hmetadataDiv, -⟩ :=
    grows_createFileSec (fun v hv => hjoin v (List.mem_append_right _ hv)) hmetadata
  obtain ⟨c, n, rfl, hissued, htoken, hdmd⟩ := createDublincore_ok hdc
  have hsame := addDataverse_state hdataverse
  refine ⟨s₄, c, n, ?_, hsame.symm, hissued, hdmd, fun hclean hcond hids => ?_⟩
  · have hall := g₁.trans (g₂.trans (g₃.trans g₄))
    simpa [visits, broughtIDs, objectsVisits, metadataVisits, Nat.add_assoc] using hall
  · have c₄ : s₄.errorCount = 0 := by
      rw [← hsame] at hclean
      exact (Nat.add_eq_zero_iff.mp hclean).1
    have c₃ := g₄.clean c₄
    have hdc : ∀ id ∈ dc, ∀ t ∈ tokens id, t ∈ s₄.ids ∨ t ∈ dc ∨ t ∈ sip.dataverse := by
      intro id hid t ht
      rw [(htoken id hid).tokens_eq, List.mem_singleton] at ht
      exact Or.inr (Or.inl (ht ▸ hid))
    have hdiv : ∀ d ∈ objectsDiv, Plain (fun t => t ∈ s₄.ids ∨ t ∈ dc ∨ t ∈ sip.dataverse) d :=
      fun d hd => (hsourced c₃ hcond d hd).mono fun t ht => Or.inl (g₄.mem_ids c₄ ht)
    have hset : ∀ d ∈ objectsDiv.map (setDublinCore dc),
        Plain (fun t => t ∈ s₄.ids ∨ t ∈ dc ∨ t ∈ sip.dataverse) d := by
      intro d hd
      obtain ⟨d, hd', rfl⟩ := Option.mem_map.mp hd
      cases dc with
      | none => exact hdiv d hd'
      | some id => exact (hdiv d hd').set (by decide) (hdc id rfl)
    have hobjects' := plain_addDataverse hset
      (fun id hid => ⟨hids id hid, Or.inr (Or.inr hid)⟩) hdataverse
    have hparent : Listed s₄ (parentDmdID (parentDmdID aipDmdID objects) metadata) := by
      refine listed_parentDmdID (listed_parentDmdID ?_ fun m hm => ?_) fun m hm => ?_
      · exact haipID.grows (g₂.trans (g₃.trans g₄)) c₄
      · exact (hobjectsDiv (g₃.clean c₃) m hm).2.grows (g₃.trans g₄) c₄
      · exact (hmetadataDiv c₄ m hm).2
    have hall : ∀ d ∈ objectsDiv'.toList ++ (metadata.map Prod.fst).toList,
        Plain (fun t => t ∈ s₄.ids ∨ t ∈ dc ∨ t ∈ sip.dataverse) d := by
      intro d hd
      rcases List.mem_append.mp hd with hd | hd
      · exact hobjects' d (Option.mem_toList.mp hd)
      · obtain ⟨m, hm, rfl⟩ := Option.mem_map.mp (Option.mem_toList.mp hd)
        exact (hmetadataDiv c₄ m hm).1.mono fun t ht => Or.inl ht
    refine ⟨?_, fun t ht => ?_⟩
    · rw [ids_dmdAttr, List.flatMap_eq_nil_iff.mpr fun d hd => (hall d hd).ids]
      rfl
    · rcases mem_refs_dmdAttr (by simp [Dict.get?_cons]) ht with ht | ⟨d, hd, ht⟩
      · split_ifs at ht
        · cases hdc' : dc with
          | none =>
              rw [hdc', Option.getD_none] at ht
              exact Or.inl (hparent t ht)
          | some id =>
              rw [hdc', Option.getD_some] at ht
              rw [← hdc']
              exact hdc id hdc' t ht
        · exact Or.inl (hparent t ht)
      · exact (hall d hd).refs t ht

end Sip

end Ccp.Worker.Mets
