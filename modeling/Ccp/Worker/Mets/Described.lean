import Ccp.Worker.Mets.Files
import Ccp.Worker.Mets.StructMaps

namespace Ccp.Worker.Mets

open Lib PosixPath Lib.Calls MetsState

namespace Sip

variable {sip : Sip} {st st' : MetsState}

-- The directory gets sections of its own, or from a directory in it, and the div
-- above it gets some from it.
def dirDescribed (sip : Sip) (path : Str) (listing : Option Listing) : Bool :=
  listing.any fun l => sip.dirSections path ≠ 0 ∨ l.countDirs sip.dirSetsAbove path ≠ 0

def dirSets (sip : Sip) (path : Str) (listing : Option Listing) : Bool :=
  listing.any (sip.dirSetsAbove path)

theorem places_createFileSec {path : Str} {listing : Option Listing} {made : Option (Xml × Str)}
    (hjoin : ∀ v ∈ dirVisits path listing, ∀ f ∈ sip.visited v, sip.Joinable f)
    (hdir : ∀ l ∈ listing, sip.Single path l ∧ sip.Separate path l)
    (hnodup : (sip.dirFiles path listing).Nodup) (hclean : st'.errorCount = 0)
    (h : sip.createFileSec path listing st = .ok made st') :
    Places (sip.dirFiles path listing) (fun id => ∃ m ∈ made, id ∈ described m.1 ∨ id ∈ tokens m.2) st st' ∧
      ∀ m ∈ made, m.1.tag = .div ∧ (m.2 ≠ [] → sip.dirSets path listing = true) ∧
        (sip.dirDescribed path listing = false → m.1.get .dmdID = none) := by
  cases listing with
  | none =>
      obtain ⟨rfl, rfl⟩ := pure_ok_iff.mp h
      exact ⟨places_refl st, by simp⟩
  | some listing =>
      rw [createFileSec] at h
      obtain ⟨loop, s₁, hbegin, h⟩ := bind_ok_iff.mp h
      obtain ⟨loop', s₂, hitems, h⟩ := bind_ok_iff.mp h
      obtain ⟨div, s₃, hend, h⟩ := bind_ok_iff.mp h
      obtain ⟨rfl, rfl⟩ := pure_ok_iff.mp h
      obtain ⟨hsingle, hseparate⟩ := hdir listing rfl
      have hwalks := walks_items (fun v hv => hjoin v (List.mem_cons_of_mem _ hv)) hseparate
        (List.nodup_append'.mp hnodup).1
      obtain ⟨hplaces, hparent, htag, hnone⟩ :=
        places_directory hwalks hsingle hnodup hclean hbegin hitems hend
      refine ⟨hplaces.mono fun id hid => ⟨_, rfl, hid⟩, ?_⟩
      rintro m ⟨⟩
      refine ⟨htag, hparent, fun hfalse => ?_⟩
      rw [dirDescribed, Option.any_some, decide_eq_false_iff_not, not_or, not_not, not_not] at hfalse
      exact hnone hfalse.1 hfalse.2

theorem places_appendAmdSec {el : Xml} {u : Unit} (htag : el.tag = .amdSec)
    (h : appendAmdSec el st = .ok u st') : Places [] (fun _ => False) st st' := by
  unfold appendAmdSec at h
  split_ifs at h
  · obtain rfl := modify_ok_iff.mp h
    have hplaces := @places_sections (fun _ => False) st st.counter [] [el] (by simp) (by simpa using htag)
    rwa [List.append_nil] at hplaces
  · obtain ⟨-, rfl⟩ := pure_ok_iff.mp h
    exact places_refl st

-- The objects get an attribute that is no DMDID.
theorem places_addObjectMetadata {objectsDiv made : Option Xml}
    (h : sip.addObjectMetadata objectsDiv st = .ok made st') :
    Places [] (fun _ => False) st st' ∧ ∃ g : Xml → Xml, made = objectsDiv.map g ∧
      ∀ e, described (g e) = described e ∧ (g e).tag = e.tag ∧ (g e).get .dmdID = e.get .dmdID := by
  rw [addObjectMetadata] at h
  obtain ⟨found, s₁, hcreate, h⟩ := bind_ok_iff.mp h
  unfold createObjectMetadata at hcreate
  split_ifs at hcreate
  · obtain ⟨rfl, rfl⟩ := pure_ok_iff.mp hcreate
    obtain ⟨rfl, rfl⟩ := pure_ok_iff.mp h
    exact ⟨places_refl st, id, Option.map_id'.symm, fun e => ⟨rfl, rfl, rfl⟩⟩
  · obtain ⟨amdID, s₂, hcount, hcreate⟩ := bind_ok_iff.mp hcreate
    obtain ⟨rfl, rfl⟩ := pure_ok_iff.mp hcreate
    obtain ⟨c, rfl, -, -, -⟩ := count_ok hcount
    cases objectsDiv with
    | none => exact absurd h throw_ne_ok
    | some div =>
        obtain ⟨u, s₂, happend, h⟩ := bind_ok_iff.mp h
        obtain ⟨rfl, rfl⟩ := pure_ok_iff.mp h
        refine ⟨?_, (·.set .admID amdID), rfl, fun e =>
          ⟨described_set_of_ne (by decide) _ e, tag_get_set (by decide) _ e⟩⟩
        exact (places_counter c).settle (places_appendAmdSec rfl happend) (List.disjoint_nil_left _)
          fun _ => Or.inl

theorem places_createDublincore {dc : Option Str} (h : sip.createDublincoreDMDSecFromDBData st = .ok dc st') :
    Places [] (fun _ => False) st st' ∧ (∀ id ∈ dc, Token id) ∧ (dc.isSome → sip.hasDublinCore = true) := by
  have hplaces : ∀ (c : Kind → Nat) (n : Nat), Places [] (fun _ => False) st
      { st with counter := c, errorCount := st.errorCount + n } := fun _ _ =>
    ⟨fun _ ho => Or.inl ho, fun _ _ h => h, fun _ h => h, fun h => h, fun h => h⟩
  obtain ⟨c, n, rfl, -, htoken, -⟩ := createDublincore_ok h
  refine ⟨hplaces c n, htoken, fun hsome => ?_⟩
  rw [createDublincoreDMDSecFromDBData] at h
  rw [hasDublinCore, Bool.or_eq_true]
  by_cases hrow : sip.dublinCore = true
  · exact Or.inl hrow
  · refine Or.inr ?_
    rw [if_neg hrow] at h
    obtain ⟨u, s₁, -, h⟩ := bind_ok_iff.mp h
    by_cases hfile : sip.dublinCoreFiles.any id = true
    · exact hfile
    · rw [if_neg hfile] at h
      obtain ⟨rfl, -⟩ := pure_ok_iff.mp h
      cases hsome

-- The sections of Dataverse are put to the others.
theorem described_addDataverse {objectsDiv made : Option Xml} {ids : List Str} (hids : ∀ id ∈ ids, Token id)
    (htag : ∀ d ∈ objectsDiv, d.tag = .div) (h : addDataverse objectsDiv ids st = .ok made st') :
    (∀ id, (∃ d ∈ objectsDiv, id ∈ described d) → ∃ d ∈ made, id ∈ described d) ∧
      ∀ id ∈ ids, ∃ d ∈ made, id ∈ described d := by
  induction ids generalizing objectsDiv with
  | nil =>
      obtain ⟨rfl, -⟩ := pure_ok_iff.mp h
      exact ⟨fun _ hid => hid, by simp⟩
  | cons i ids ih =>
      cases objectsDiv with
      | none => exact absurd h throw_ne_ok
      | some div =>
          rw [addDataverse] at h
          have hdiv := htag div rfl
          have hi := hids i List.mem_cons_self
          have htokens : tokens ((div.get .dmdID).getD [] ++ ' ' :: i) =
              tokens ((div.get .dmdID).getD []) ++ [i] := by
            rw [tokens_append_space, hi.tokens_eq]
          obtain ⟨hkeeps, hmade⟩ := ih (fun id hid => hids id (List.mem_cons_of_mem _ hid)) (by
            rintro d ⟨⟩
            obtain ⟨tag, attrib, children⟩ := div
            exact hdiv) h
          refine ⟨?_, fun id hid => ?_⟩
          · rintro id ⟨d, hd, hid⟩
            obtain rfl := Option.some.inj hd
            refine hkeeps id ⟨_, rfl, mem_described_set (fun t ht => ?_) hid⟩
            rw [htokens]
            exact List.mem_append_left _ ht
          · rcases List.mem_cons.mp hid with rfl | hid
            · refine hkeeps id ⟨_, rfl, mem_described_set_self (Or.inl hdiv) ?_⟩
              rw [htokens]
              exact List.mem_append_right _ (List.mem_singleton_self _)
            · exact hmade id hid

theorem mem_parentDmdID {dmdID id : Str} {made : Option (Xml × Str)}
    (h : id ∈ tokens dmdID ∧ (∀ m ∈ made, m.2 = []) ∨ ∃ m ∈ made, id ∈ tokens m.2) :
    id ∈ tokens (parentDmdID dmdID made) := by
  cases made with
  | none => exact (h.resolve_right (by simp)).1
  | some m =>
      obtain ⟨div, parent⟩ := m
      dsimp only [parentDmdID]
      rcases h with ⟨hid, hnil⟩ | ⟨m, hm, hid⟩
      · rw [if_pos (hnil _ rfl)]
        exact hid
      · obtain rfl := Option.some.inj hm
        rw [if_neg]
        · exact hid
        · rintro rfl
          cases hid

-- No div and no file is given sections twice, where the second replace the first.
structure OneSource (sip : Sip) : Prop where
  files : ∀ v ∈ sip.visits, ∀ f ∈ sip.visited v, sip.Joinable f
  objects : ∀ l ∈ sip.objects, sip.Single (join sip.base "objects".toList) l ∧
    sip.Separate (join sip.base "objects".toList) l
  metadata : ∀ l ∈ sip.metadata, sip.Single (join sip.base "metadata".toList) l ∧
    sip.Separate (join sip.base "metadata".toList) l
  -- the div of the SIP: its row, and what the two directories set above them
  top : (if sip.sipRow then 1 else 0) +
    ((if sip.dirSets (join sip.base "objects".toList) sip.objects then 1 else 0) +
      if sip.dirSets (join sip.base "metadata".toList) sip.metadata then 1 else 0) ≤ 1
  -- the Dublin Core of the SIP takes the place of all that the objects have, and
  -- without objects of all that the SIP has
  dublinCore : sip.hasDublinCore = true →
    sip.dirDescribed (join sip.base "objects".toList) sip.objects = false ∧
      (sip.objects = none → sip.sipRow = false ∧
        sip.dirSets (join sip.base "metadata".toList) sip.metadata = false)
  dataverse : ∀ id ∈ sip.dataverse, Token id

theorem places_aipDmdSec {id : Str} (h : sip.aipDmdSec st = .ok id st') :
    Places [] (· ∈ tokens id) st st' ∧ (id ≠ [] → sip.sipRow = true) := by
  unfold aipDmdSec at h
  split_ifs at h with hrow
  · obtain ⟨-, htoken, -⟩ := @grows_addDmdSec _ _ [] _ h
    refine ⟨(places_addDmdSec h).mono ?_, fun _ => hrow⟩
    rintro i rfl
    rw [htoken.tokens_eq]
    exact List.mem_singleton_self _
  · obtain ⟨rfl, rfl⟩ := pure_ok_iff.mp h
    exact ⟨places_refl st, fun hne => absurd rfl hne⟩

-- What the div of the SIP gets from its row and from the two directories below it is
-- from one of them.
theorem mem_sipDmdID {aip id : Str} {objects metadata : Option (Xml × Str)} {sipRow atObjects atMetadata : Bool}
    (haip : aip ≠ [] → sipRow = true) (hobjects : ∀ m ∈ objects, m.2 ≠ [] → atObjects = true)
    (hmetadata : ∀ m ∈ metadata, m.2 ≠ [] → atMetadata = true)
    (htop : (if sipRow then 1 else 0) + ((if atObjects then 1 else 0) + if atMetadata then 1 else 0) ≤ 1)
    (h : id ∈ tokens aip ∨ (∃ m ∈ objects, id ∈ tokens m.2) ∨ ∃ m ∈ metadata, id ∈ tokens m.2) :
    id ∈ tokens (parentDmdID (parentDmdID aip objects) metadata) ∧
      (sipRow = true ∨ atObjects = true ∨ atMetadata = true) := by
  have hne : ∀ {s : Str}, id ∈ tokens s → s ≠ [] := by
    rintro s hid rfl
    cases hid
  have hnone : ∀ {made : Option (Xml × Str)} {at' : Bool}, (∀ m ∈ made, m.2 ≠ [] → at' = true) →
      at' = false → ∀ m ∈ made, m.2 = [] := by
    intro made at' hmade hfalse m hm
    by_contra hset
    rw [hmade m hm hset] at hfalse
    cases hfalse
  rcases h with hid | ⟨m, hm, hid⟩ | ⟨m, hm, hid⟩
  · have hrow := haip (hne hid)
    rw [if_pos hrow] at htop
    have hfalse : atObjects = false ∧ atMetadata = false := by
      cases atObjects <;> cases atMetadata <;> simp_all
    exact ⟨mem_parentDmdID (Or.inl ⟨mem_parentDmdID (Or.inl ⟨hid, hnone hobjects hfalse.1⟩),
      hnone hmetadata hfalse.2⟩), Or.inl hrow⟩
  · have hat := hobjects m hm (hne hid)
    rw [if_pos hat] at htop
    have hfalse : atMetadata = false := by
      cases atMetadata <;> simp_all
    exact ⟨mem_parentDmdID (Or.inl ⟨mem_parentDmdID (Or.inr ⟨m, hm, hid⟩), hnone hmetadata hfalse⟩),
      Or.inr (Or.inl hat)⟩
  · exact ⟨mem_parentDmdID (Or.inr ⟨m, hm, hid⟩), Or.inr (Or.inr (hmetadata m hm (hne hid)))⟩

-- The Dublin Core is put where the objects have nothing.
theorem described_setDublinCore {dc : Option Str} {div : Xml} (htoken : ∀ id ∈ dc, Token id)
    (htag : div.tag = .div) (hnone : dc.isSome → div.get .dmdID = none) :
    (∀ id ∈ described div, id ∈ described (setDublinCore dc div)) ∧
      (∀ id ∈ dc, id ∈ described (setDublinCore dc div)) ∧ (setDublinCore dc div).tag = .div := by
  cases dc with
  | none => exact ⟨fun _ hid => hid, by simp, htag⟩
  | some id =>
      refine ⟨fun i hi => mem_described_set (fun t ht => ?_) hi, ?_, ?_⟩
      · rw [hnone rfl] at ht
        cases ht
      · rintro i ⟨⟩
        refine mem_described_set_self (Or.inl htag) ?_
        rw [(htoken id rfl).tokens_eq]
        exact List.mem_singleton_self _
      · obtain ⟨tag, attrib, children⟩ := div
        exact htag

-- What the div of the SIP is made of: the section of its row, the divs of the two directories
-- with what they set above them, and the Dublin Core.
structure Pieces (sip : Sip) (aip : Str) (objects metadata : Option (Xml × Str)) (dc : Option Str) : Prop where
  row : aip ≠ [] → sip.sipRow = true
  isSome : objects.isSome = sip.objects.isSome
  objects : ∀ m ∈ objects, m.1.tag = .div ∧
    (m.2 ≠ [] → sip.dirSets (join sip.base "objects".toList) sip.objects = true) ∧
      (sip.dirDescribed (join sip.base "objects".toList) sip.objects = false → m.1.get .dmdID = none)
  metadata : ∀ m ∈ metadata, m.2 ≠ [] → sip.dirSets (join sip.base "metadata".toList) sip.metadata = true
  token : ∀ id ∈ dc, Token id
  found : dc.isSome → sip.hasDublinCore = true

section Pieces

variable {aip : Str} {objects metadata : Option (Xml × Str)} {dc : Option Str} {g : Xml → Xml}

-- The DMDID of the div of the SIP.
def sipDmdID (aip : Str) (objects metadata : Option (Xml × Str)) (dc : Option Str) (g : Xml → Xml) : Str :=
  if ((objects.map Prod.fst).map g).isNone then dc.getD (parentDmdID (parentDmdID aip objects) metadata)
  else parentDmdID (parentDmdID aip objects) metadata

theorem Pieces.mem_tokens (h : sip.Pieces aip objects metadata dc) (hone : sip.OneSource) {id : Str}
    (hid : id ∈ tokens aip ∨ (∃ m ∈ objects, id ∈ tokens m.2) ∨ ∃ m ∈ metadata, id ∈ tokens m.2) :
    id ∈ tokens (sipDmdID aip objects metadata dc g) := by
  obtain ⟨hparent, hsets⟩ := mem_sipDmdID h.row (fun m hm => (h.objects m hm).2.1) h.metadata hone.top hid
  rw [sipDmdID]
  split_ifs with hnone
  · cases hdc : dc with
    | none => exact hparent
    | some d =>
        have hobjects : sip.objects = none := by
          rw [Option.isNone_map, Option.isNone_map, ← Option.not_isSome, h.isSome] at hnone
          simpa using hnone
        obtain ⟨hrow, hmetadata⟩ := (hone.dublinCore (h.found (by rw [hdc]; rfl))).2 hobjects
        rw [hrow, hmetadata, hobjects] at hsets
        simp [dirSets] at hsets
  · exact hparent

theorem Pieces.described_objects (h : sip.Pieces aip objects metadata dc) (hone : sip.OneSource)
    (hg : ∀ e, described (g e) = described e ∧ (g e).tag = e.tag ∧ (g e).get .dmdID = e.get .dmdID)
    {m : Xml × Str} (hm : m ∈ objects) :
    (∀ id ∈ described m.1, id ∈ described (setDublinCore dc (g m.1))) ∧
      (∀ id ∈ dc, id ∈ described (setDublinCore dc (g m.1))) ∧ (setDublinCore dc (g m.1)).tag = .div := by
  obtain ⟨htag, -, hnone⟩ := h.objects m hm
  obtain ⟨hdescribed, hsame, hget⟩ := hg m.1
  rw [← hdescribed]
  refine described_setDublinCore h.token (hsame.trans htag) fun hsome => ?_
  rw [hget]
  exact hnone (hone.dublinCore (h.found hsome)).1

-- All that the pieces describe the div describes.
theorem Pieces.mem_div (h : sip.Pieces aip objects metadata dc) (hone : sip.OneSource)
    (hg : ∀ e, described (g e) = described e ∧ (g e).tag = e.tag ∧ (g e).get .dmdID = e.get .dmdID)
    {objectsDiv : Option Xml} (name : Str)
    (hdataverse : addDataverse (((objects.map Prod.fst).map g).map (setDublinCore dc)) sip.dataverse st =
      .ok objectsDiv st') (id : Str)
    (hid : id ∈ tokens aip ∨ (∃ m ∈ objects, id ∈ described m.1 ∨ id ∈ tokens m.2) ∨
      (∃ m ∈ metadata, id ∈ described m.1 ∨ id ∈ tokens m.2) ∨ id ∈ dc ∨ id ∈ sip.dataverse) :
    id ∈ described (.mk .div
      ([(.type, "Directory".toList), (.label, name)] ++ dmdAttr (sipDmdID aip objects metadata dc g))
      (objectsDiv.toList ++ (metadata.map Prod.fst).toList)) := by
  obtain ⟨hkeeps, hmade⟩ := described_addDataverse hone.dataverse (fun d hd => by
    obtain ⟨e, he, rfl⟩ := Option.mem_map.mp hd
    obtain ⟨m, hm, rfl⟩ := Option.mem_map.mp he
    obtain ⟨m, hm', rfl⟩ := Option.mem_map.mp hm
    exact (h.described_objects hone hg hm').2.2) hdataverse
  have hset : ∀ m ∈ objects, setDublinCore dc (g m.1) ∈
      ((objects.map Prod.fst).map g).map (setDublinCore dc) := fun m hm =>
    Option.mem_map_of_mem _ (Option.mem_map_of_mem _ (Option.mem_map_of_mem _ hm))
  refine (mem_described_dmdAttr (by simp [Dict.get?_cons])).mpr ?_
  have hbelow : ∀ {id}, ((∃ d ∈ objectsDiv, id ∈ described d) ∨ ∃ m ∈ metadata, id ∈ described m.1) →
      ∃ c ∈ objectsDiv.toList ++ (metadata.map Prod.fst).toList, id ∈ described c := by
    rintro id (⟨d, hd, hid⟩ | ⟨m, hm, hid⟩)
    · exact ⟨d, List.mem_append_left _ (Option.mem_toList.mpr hd), hid⟩
    · exact ⟨m.1, List.mem_append_right _ (Option.mem_toList.mpr (Option.mem_map_of_mem _ hm)), hid⟩
  rcases hid with hid | ⟨m, hm, hid | hid⟩ | ⟨m, hm, hid | hid⟩ | hid | hid
  · exact Or.inl (h.mem_tokens hone (Or.inl hid))
  · exact Or.inr (hbelow (Or.inl (hkeeps id ⟨_, hset m hm, (h.described_objects hone hg hm).1 id hid⟩)))
  · exact Or.inl (h.mem_tokens hone (Or.inr (Or.inl ⟨m, hm, hid⟩)))
  · exact Or.inr (hbelow (Or.inr ⟨m, hm, hid⟩))
  · exact Or.inl (h.mem_tokens hone (Or.inr (Or.inr ⟨m, hm, hid⟩)))
  · cases hobjects : objects with
    | none =>
        obtain rfl := Option.mem_def.mp hid
        exact Or.inl ((h.token id rfl).tokens_eq ▸ List.mem_singleton_self _)
    | some m =>
        exact Or.inr (hbelow (Or.inl
          (hkeeps id ⟨_, hset m hobjects, (h.described_objects hone hg hobjects).2.1 id hid⟩)))
  · exact Or.inr (hbelow (Or.inl (hmade id hid)))

end Pieces

theorem places_createSipDiv {name : Str} {made : Xml × Option Str} (hone : sip.OneSource)
    (hclean : st'.errorCount = 0) (h : sip.createSipDiv name st = .ok made st') :
    (∃ hit, Places hit (· ∈ described made.1) st st') ∧ (∀ id ∈ made.2, id ∈ described made.1) ∧
      ∀ id ∈ sip.dataverse, id ∈ described made.1 := by
  rw [createSipDiv] at h
  obtain ⟨aipDmdID, s₁, haip, h⟩ := bind_ok_iff.mp h
  obtain ⟨objects, s₂, hobjects, h⟩ := bind_ok_iff.mp h
  obtain ⟨objectsDiv, s₃, hsource, h⟩ := bind_ok_iff.mp h
  obtain ⟨metadata, s₄, hmetadata, h⟩ := bind_ok_iff.mp h
  obtain ⟨dc, s₅, hdc, h⟩ := bind_ok_iff.mp h
  obtain ⟨objectsDiv', s₆, hdataverse, h⟩ := bind_ok_iff.mp h
  obtain ⟨rfl, rfl⟩ := pure_ok_iff.mp h
  obtain rfl := addDataverse_state hdataverse
  have hfiles : (∀ v ∈ sip.objectsVisits, ∀ f ∈ sip.visited v, sip.Joinable f) ∧
      ∀ v ∈ sip.metadataVisits, ∀ f ∈ sip.visited v, sip.Joinable f :=
    ⟨fun v hv => hone.files v (List.mem_append_left _ hv),
      fun v hv => hone.files v (List.mem_append_right _ hv)⟩
  -- no call before the last one has counted an error
  have hclean₄ : s₄.errorCount = 0 := by
    obtain ⟨c, n, rfl, -⟩ := createDublincore_ok hdc
    exact (Nat.add_eq_zero_iff.mp hclean).1
  have hclean₃ := (grows_createFileSec hfiles.2 hmetadata).1.clean hclean₄
  obtain ⟨-, hplain, hsome⟩ := grows_createFileSec hfiles.1 hobjects
  obtain ⟨g₃, -, -⟩ := @grows_addObjectMetadata _ _ _ [] _ _ (fun hclean d hd => by
    obtain ⟨m, hm, rfl⟩ := Option.mem_map.mp hd
    exact (hplain hclean m hm).1) hsource
  obtain ⟨hobjectsNodup, hmetadataNodup, hdisjoint⟩ := List.nodup_append'.mp sip.nodup_files
  obtain ⟨p₁, hrow⟩ := places_aipDmdSec haip
  obtain ⟨p₂, hobjectsDiv⟩ :=
    places_createFileSec hfiles.1 hone.objects hobjectsNodup (g₃.clean hclean₃) hobjects
  obtain ⟨p₃, g, rfl, hg⟩ := places_addObjectMetadata hsource
  obtain ⟨p₄, hmetadataDiv⟩ := places_createFileSec hfiles.2 hone.metadata hmetadataNodup hclean₄ hmetadata
  obtain ⟨p₅, htoken, hfound⟩ := places_createDublincore hdc
  have hpieces : sip.Pieces aipDmdID objects metadata dc :=
    ⟨hrow, hsome, hobjectsDiv, fun m hm => (hmetadataDiv m hm).2.1, htoken, hfound⟩
  have hmem := hpieces.mem_div hone hg name hdataverse
  refine ⟨⟨_, ((((p₁.trans p₂ (List.disjoint_nil_left _)).trans p₃ (List.disjoint_nil_right _)).trans p₄
    ?_).trans p₅ (List.disjoint_nil_right _)).mono fun id hid => ?_⟩,
    fun id hid => hmem id (Or.inr (Or.inr (Or.inr (Or.inl hid)))),
    fun id hid => hmem id (Or.inr (Or.inr (Or.inr (Or.inr hid))))⟩
  · simpa using hdisjoint
  · rcases hid with (((hid | hid) | hid) | hid) | hid
    · exact hmem id (Or.inl hid)
    · exact hmem id (Or.inr (Or.inl hid))
    · exact hid.elim
    · exact hmem id (Or.inr (Or.inr (Or.inl hid)))
    · exact hid.elim

theorem mem_described_fileSec {e : Xml} {id : Str} (he : e ∈ st.files) (hid : id ∈ described e) :
    id ∈ described (fileSec st) := by
  obtain ⟨grp, hgrp, hin⟩ := List.mem_flatMap.mp he
  rw [fileSec, mem_described_mk]
  refine Or.inr ⟨_, List.mem_map_of_mem (List.mem_filter.mpr ⟨hgrp, ?_⟩),
    mem_described_mk.mpr (Or.inr ⟨e, hin, hid⟩)⟩
  rw [decide_eq_true_iff, Ne, List.length_eq_zero_iff]
  exact List.ne_nil_of_mem hin

theorem mem_described_trimStructMap {o : Xml} {id : Str} (ho : o ∈ st.trimStructMapObjects)
    (hid : id ∈ described o) : ∃ e ∈ trimStructMap st, id ∈ described e :=
  ⟨_, Option.mem_map_of_mem _ ho, mem_described_mk.mpr (Or.inr ⟨o, List.mem_singleton_self _, hid⟩)⟩

-- The sections of the document are those in the state and those that go to it with
-- their identifiers; the structMaps and the fileSec have their places.
theorem described_document {ids : List Str} {attrib : Dict Attr Str} {sipDiv : Xml}
    {normative arranged : Option Xml} {custom : List Xml} (hamd : ∀ e ∈ st.amdSecs, e.tag = .amdSec)
    (hnormative : ∀ e ∈ normative, e.tag = .structMap) (hcustom : ∀ e ∈ custom, e.tag = .structMap)
    (harranged : ∀ e ∈ arranged, e.tag = .structMap) (hids : ∀ id ∈ ids, id ∈ described sipDiv)
    (hsections : ∀ o ∈ st.sectionIDs, ∃ id, o = some id ∧
      (((∃ e ∈ normative, id ∈ described e) ∨ id ∈ described sipDiv) ∨ Placed [] st id)) :
    Described (.mk .mets [] ([.mk .metsHdr [] []] ++ ids.map (newSection .dmdSec · []) ++ st.dmdSecs ++
      st.amdSecs ++ [fileSec st, .mk .structMap attrib [sipDiv]] ++
      normative.toList.map (updateNormativeStructmapDmdids · (.mk .structMap attrib [sipDiv])) ++
      custom ++ (trimStructMap st).toList ++ arranged.toList)) := by
  generalize hdoc : [.mk .metsHdr [] []] ++ ids.map (newSection .dmdSec · []) ++ st.dmdSecs ++
    st.amdSecs ++ [fileSec st, .mk .structMap attrib [sipDiv]] ++
    normative.toList.map (updateNormativeStructmapDmdids · (.mk .structMap attrib [sipDiv])) ++
    custom ++ (trimStructMap st).toList ++ arranged.toList = doc
  have hin : ∀ {c : Xml} {id : Str}, c ∈ doc → id ∈ described c → id ∈ described (.mk .mets [] doc) :=
    fun hc hid => mem_described_mk.mpr (Or.inr ⟨_, hc, hid⟩)
  have hsip : ∀ id ∈ described sipDiv, id ∈ described (.mk .mets [] doc) := fun id hid =>
    hin (by simp [← hdoc]) (mem_described_mk.mpr (Or.inr ⟨sipDiv, List.mem_singleton_self _, hid⟩) :
      id ∈ described (.mk .structMap attrib [sipDiv]))
  have hplaced : ∀ id, Placed [] st id → id ∈ described (.mk .mets [] doc) := by
    rintro id (⟨o, ho, hid⟩ | ⟨i, -, e, he, htag, -, hid⟩)
    · obtain ⟨e, he, hid⟩ := mem_described_trimStructMap ho hid
      exact hin (by simp [← hdoc, Option.mem_def.mp he]) hid
    · refine hin (c := fileSec st) (by simp [← hdoc]) (mem_described_fileSec he ?_)
      obtain ⟨tag, attrib, inner⟩ := e
      have htag : tag = .div ∨ tag = .file := Or.inr htag
      rw [mem_described_mk, ownDescribed, if_pos htag]
      exact Or.inl hid
  have hsection : ∀ e ∈ st.dmdSecs, ∃ id, e.get .id = some id ∧ id ∈ described (.mk .mets [] doc) := by
    intro e he
    obtain ⟨id, hget, (⟨d, hd, hid⟩ | hid) | hid⟩ := hsections _ (List.mem_map_of_mem he)
    · have hupdated := enriched_updateNormativeStructmapDmdids d (.mk .structMap attrib [sipDiv])
      exact ⟨id, hget, hin (by simp [← hdoc, Option.mem_def.mp hd]) (hupdated.described id hid)⟩
    · exact ⟨id, hget, hsip id hid⟩
    · exact ⟨id, hget, hplaced id hid⟩
  intro e he
  obtain ⟨he, htag⟩ := List.mem_filter.mp he
  have htag : e.tag = .dmdSec := of_decide_eq_true htag
  have hnot : ∀ (t : Tag) {p : Prop}, t ≠ .dmdSec → e.tag = t → p := fun t _ hne ht =>
    absurd (ht.symm.trans htag) hne
  have hcases : e ∈ doc := he
  rw [← hdoc] at hcases
  simp only [List.mem_append, List.mem_cons, List.not_mem_nil, or_false, List.mem_map, Option.mem_toList,
    or_assoc] at hcases
  rcases hcases with rfl | ⟨id, hid, rfl⟩ | he | he | rfl | rfl | ⟨d, hd, rfl⟩ | he | he | he
  · exact hnot .metsHdr (by decide) rfl
  · exact ⟨id, rfl, hsip id (hids id hid)⟩
  · exact hsection e he
  · exact hnot .amdSec (by decide) (hamd e he)
  · exact hnot .fileSec (by decide) rfl
  · exact hnot .structMap (by decide) rfl
  · exact hnot .structMap (by decide)
      ((enriched_updateNormativeStructmapDmdids d _).tag.trans (hnormative d hd))
  · exact hnot .structMap (by decide) (hcustom e he)
  · obtain ⟨o, -, rfl⟩ := Option.mem_map.mp he
    exact hnot .structMap (by decide) rfl
  · exact hnot .structMap (by decide) (harranged e he)

theorem described_buildMets {root : Xml} (hone : sip.OneSource) (hclean : st.errorCount = 0)
    (h : sip.buildMets MetsState.new = .ok root st) : Described root := by
  rw [buildMets] at h
  obtain ⟨u, s₁, hmodify, h⟩ := bind_ok_iff.mp h
  obtain rfl := modify_ok_iff.mp hmodify
  obtain ⟨s, s₂, hget, h⟩ := bind_ok_iff.mp h
  obtain ⟨rfl, rfl⟩ := get_ok_iff.mp hget
  obtain ⟨normative, s₃, hnormative, h⟩ := bind_ok_iff.mp h
  obtain ⟨⟨sipDiv, dc⟩, s₄, hsipDiv, h⟩ := bind_ok_iff.mp h
  obtain ⟨custom, s₅, hcustom, h⟩ := bind_ok_iff.mp h
  obtain ⟨arranged, s₆, harranged, h⟩ := bind_ok_iff.mp h
  obtain ⟨s, s₇, hget, h⟩ := bind_ok_iff.mp h
  obtain ⟨rfl, rfl⟩ := get_ok_iff.mp hget
  obtain ⟨rfl, rfl⟩ := pure_ok_iff.mp h
  obtain ⟨hcustomTag, c, n, rfl⟩ := includeCustomStructmap_ok (by simp) hcustom
  obtain ⟨harrangedTag, rfl⟩ := buildArrangedStructmap_ok harranged
  obtain ⟨p₁, hnormativeTag⟩ := places_getNormative hnormative
  obtain ⟨⟨hit, p₂⟩, hdc, hdataverse⟩ :=
    places_createSipDiv hone (Nat.add_eq_zero_iff.mp hclean).1 hsipDiv
  have hplaces := p₁.trans p₂ (List.disjoint_nil_left _)
  refine described_document (hplaces.amd (by simp [MetsState.new])) hnormativeTag hcustomTag harrangedTag
    (fun id hid => ?_) fun o ho => ?_
  · rcases List.mem_append.mp hid with hid | hid
    · exact hdc id (Option.mem_toList.mp hid)
    · exact hdataverse id hid
  · rcases hplaces.made o ho with ho | ⟨id, hid, hback⟩
    · simp [sectionIDs, MetsState.new] at ho
    · exact ⟨id, hid, hback.imp_right fun hplaced => hplaced [] (List.disjoint_nil_right _)⟩

theorem main_ok {root : Xml} (h : root ∈ sip.main) :
    ∃ st, sip.buildMets MetsState.new = .ok root st ∧ st.errorCount = 0 := by
  rw [main] at h
  split_ifs at h
  · cases h
  · cases hbuild : sip.buildMets MetsState.new with
    | error e st =>
        rw [hbuild] at h
        cases h
    | ok made st =>
        rw [hbuild] at h
        dsimp only at h
        split_ifs at h with hwrites
        · obtain rfl := Option.some.inj h
          exact ⟨st, rfl, hwrites.2⟩
        · cases h

end Sip

end Ccp.Worker.Mets
