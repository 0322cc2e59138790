import Ccp.Worker.Mets.Outside

namespace Ccp.Worker.Mets

open Lib PosixPath Lib.Calls MetsState

variable {t : Str}

-- What a mets_structmap.xml brings along: its structMap, the IDs that are in it and
-- what it refers to, but for the FILEIDs that are set by a path.

def structMapOf (doc : Xml) : Option Xml := doc.children.find? fun e => e.tag = .structMap

def unnumbered (doc : Xml) : Bool := (structMapOf doc).any fun e => (e.get .id).getD [] = []

def customIDs (doc : Xml) : List Str :=
  (structMapOf doc).elim [] fun e => if (e.get .id).getD [] = [] then e.children.flatMap ids else ids e

def unnamed (attrib : Dict Attr Str) : Dict Attr Str :=
  if (Dict.get? attrib .contentIDs).isSome then Dict.erase attrib .fileID else attrib

def customRefs (doc : Xml) : List Str := (structMapOf doc).elim [] fun e => refs (e.mapAttrib unnamed)

-- A file of the structMap is one that the script has met.
def Named (st : MetsState) (t : Str) : Prop :=
  ∃ path id, Dict.get? st.fileNameToFileID path = some id ∧ t ∈ tokens id

theorem mem_ownRefs_setFileID {names : Str → Option Str} {attrib : Dict Attr Str}
    (hnames : ∀ path, Dict.get? attrib .contentIDs = some path → (names path).isSome)
    (h : t ∈ ownRefs (setFileID names attrib)) :
    t ∈ ownRefs (unnamed attrib) ∨ ∃ path id, names path = some id ∧ t ∈ tokens id := by
  rw [setFileID] at h
  cases hpath : Dict.get? attrib .contentIDs with
  | none =>
      rw [hpath] at h
      rw [unnamed, hpath]
      exact Or.inl h
  | some path =>
      obtain ⟨id, hid⟩ := Option.isSome_iff_exists.mp (hnames path hpath)
      rw [hpath, Option.bind_some, hid] at h
      rw [unnamed, hpath, if_pos Option.isSome_some, mem_ownRefs]
      obtain ⟨key, hkey, v, hv, ht⟩ := mem_ownRefs.mp h
      rw [Dict.get?_set] at hv
      split_ifs at hv with hfile
      · obtain rfl := Option.some.inj hv
        exact Or.inr ⟨path, id, hid, ht⟩
      · exact Or.inl ⟨key, hkey, v, by rwa [Dict.get?_erase, if_neg hfile], ht⟩

theorem get?_setFileID_id (names : Str → Option Str) (attrib : Dict Attr Str) :
    Dict.get? (setFileID names attrib) .id = Dict.get? attrib .id := by
  unfold setFileID
  cases (Dict.get? attrib .contentIDs).bind names with
  | none => rfl
  | some id => exact (Dict.get?_set ..).trans (if_neg (by decide))

-- Each element below is one of the document.
theorem mem_refs_setFileID {names : Str → Option Str} {e : Xml}
    (hnames : ∀ path ∈ e.values .contentIDs, (names path).isSome)
    (h : t ∈ refs (e.mapAttrib (setFileID names))) :
    t ∈ refs (e.mapAttrib unnamed) ∨ ∃ path id, names path = some id ∧ t ∈ tokens id := by
  induction e using Element.induction with
  | mk tag attrib children ih =>
      rw [Element.values_mk] at hnames
      rw [Element.mapAttrib, Element.mapAttribAll_eq_map, mem_refs_mk] at h ⊢
      rcases h with h | ⟨c, hc, ht⟩
      · refine (mem_ownRefs_setFileID (fun path hpath => hnames path ?_) h).imp_left Or.inl
        exact List.mem_append_left _ (Option.mem_toList.mpr hpath)
      · obtain ⟨d, hd, rfl⟩ := List.mem_map.mp hc
        refine (ih d hd (fun path hpath => hnames path ?_) ht).imp_left fun ht =>
          Or.inr ⟨_, List.mem_map_of_mem hd, ht⟩
        exact List.mem_append_right _ (List.mem_flatMap.mpr ⟨d, hd, hpath⟩)

theorem numberStructmap_ids {e made : Xml} {st st' : MetsState} (h : Sip.numberStructmap e st = .ok made st') :
    ∃ n, st' = { st with globalStructMapCounter := st.globalStructMapCounter + n } ∧
      n = (if (e.get .id).getD [] = [] then 1 else 0) ∧
      ids made = (if (e.get .id).getD [] = [] then [structMapID (st.globalStructMapCounter + 1)] else []) ++
        (if (e.get .id).getD [] = [] then e.children.flatMap ids else ids e) ∧
      (made.values .contentIDs = e.values .contentIDs) ∧
      ∀ t ∈ refs (made.mapAttrib unnamed), t ∈ refs (e.mapAttrib unnamed) := by
  unfold Sip.numberStructmap at h
  split_ifs at h ⊢ with hid
  · obtain ⟨u, s₁, hmodify, h⟩ := bind_ok_iff.mp h
    obtain rfl := modify_ok_iff.mp hmodify
    obtain ⟨s, s₂, hget, h⟩ := bind_ok_iff.mp h
    obtain ⟨rfl, rfl⟩ := get_ok_iff.mp hget
    obtain ⟨rfl, rfl⟩ := pure_ok_iff.mp h
    obtain ⟨tag, attrib, children⟩ := e
    refine ⟨1, rfl, rfl, ?_, ?_, fun t ht => ?_⟩
    · rw [Element.set, ids_mk, Dict.get?_set, if_pos rfl]
      rfl
    · rw [Element.set, Element.values_mk, Element.values_mk, Dict.get?_set, if_neg (by decide)]
    · rw [Element.set, Element.mapAttrib, mem_refs_mk, mem_ownRefs] at ht
      rw [Element.mapAttrib, mem_refs_mk, mem_ownRefs]
      refine ht.imp_left ?_
      rintro ⟨key, hkey, v, hv, ht⟩
      refine ⟨key, hkey, v, ?_, ht⟩
      have hne : Attr.id ≠ key := by
        rintro rfl
        simp at hkey
      have hcontent : Dict.get? (Dict.set attrib .id (structMapID (st.globalStructMapCounter + 1))) .contentIDs =
          Dict.get? attrib .contentIDs := (Dict.get?_set ..).trans (if_neg (by decide))
      unfold unnamed at hv ⊢
      rw [hcontent] at hv
      split_ifs at hv ⊢
      · rw [Dict.get?_erase, Dict.get?_set, if_neg hne] at hv
        rw [Dict.get?_erase]
        exact hv
      · rwa [Dict.get?_set, if_neg hne] at hv
  · obtain ⟨rfl, rfl⟩ := pure_ok_iff.mp h
    exact ⟨0, rfl, rfl, rfl, rfl, fun t ht => ht⟩

namespace Sip

variable {sip : Sip} {st st' : MetsState}

theorem customStructmap_ids {doc : Xml} {made : Option Xml} (hclean : st'.errorCount = 0)
    (h : sip.customStructmap doc st = .ok made st') :
    ∃ e, made = some e ∧
      st' = { st with
        globalStructMapCounter := st.globalStructMapCounter + if unnumbered doc then 1 else 0 } ∧
      ids e = (if unnumbered doc then [structMapID (st.globalStructMapCounter + 1)] else []) ++ customIDs doc ∧
      ∀ t ∈ refs e, t ∈ customRefs doc ∨ Named st t := by
  unfold customStructmap at h
  cases hfound : doc.children.find? fun e => e.tag = .structMap with
  | none =>
      rw [hfound] at h
      exact absurd h throw_ne_ok
  | some structMap =>
      have hof : structMapOf doc = some structMap := hfound
      rw [hfound] at h
      obtain ⟨numbered, s₁, hnumber, h⟩ := bind_ok_iff.mp h
      obtain ⟨n, rfl, hn, hids, hcontent, hrefs⟩ := numberStructmap_ids hnumber
      obtain ⟨s, s₂, hget, h⟩ := bind_ok_iff.mp h
      obtain ⟨rfl, rfl⟩ := get_ok_iff.mp hget
      dsimp only at h
      split_ifs at h with hbad
      · obtain ⟨u, s₃, hmodify, h⟩ := bind_ok_iff.mp h
        obtain ⟨rfl, rfl⟩ := pure_ok_iff.mp h
        obtain rfl := modify_ok_iff.mp hmodify
        exact absurd hclean (Nat.succ_ne_zero _)
      · obtain ⟨rfl, rfl⟩ := pure_ok_iff.mp h
        simp only [not_or, List.any_eq_true, decide_eq_true_eq, not_exists, not_and] at hbad
        have hnames : ∀ path ∈ numbered.values .contentIDs,
            (Dict.get? st.fileNameToFileID (sip.fixup path)).isSome := by
          intro path hpath
          have hin : path ∈ doc.values .contentIDs := by
            obtain ⟨tag, attrib, children⟩ := doc
            rw [hcontent] at hpath
            rw [Element.values_mk]
            exact List.mem_append_right _
              (List.mem_flatMap.mpr ⟨structMap, List.mem_of_find?_eq_some hfound, hpath⟩)
          have hpath := (hbad.2.2 path hin).2
          rwa [Bool.not_eq_true, Option.isNone_eq_false_iff] at hpath
        refine ⟨_, rfl, ?_, ?_, fun t ht => ?_⟩
        · simp only [hn, unnumbered, hof, Option.any_some, decide_eq_true_eq]
        · rw [ids_mapAttrib (get?_setFileID_id _), hids]
          simp only [unnumbered, customIDs, hof, Option.any_some, decide_eq_true_eq, Option.elim_some]
        · rcases mem_refs_setFileID hnames ht with ht | ⟨path, id, hid, ht⟩
          · refine Or.inl ?_
            rw [customRefs, hof, Option.elim_some]
            exact hrefs t ht
          · exact Or.inr ⟨_, id, hid, ht⟩

-- The numbers that the structMaps get from a counter on.
def structMapIDs (n k : Nat) : List Str := (List.range' (n + 1) k).map structMapID

theorem structMapIDs_add (n k k' : Nat) : structMapIDs n (k + k') = structMapIDs n k ++ structMapIDs (n + k) k' := by
  rw [structMapIDs, structMapIDs, structMapIDs, ← List.map_append, Nat.add_right_comm, List.range'_append_1]

theorem includeCustomStructmap_ids {ret docs made : List Xml} (hret : ∀ e ∈ ret, e.tag = .structMap)
    (hclean : st'.errorCount = 0) (h : sip.includeCustomStructmap ret docs st = .ok made st') :
    st' = { st with globalStructMapCounter := st.globalStructMapCounter + docs.countP unnumbered } ∧
      (made.flatMap ids).Perm (ret.flatMap ids ++
        (structMapIDs st.globalStructMapCounter (docs.countP unnumbered) ++ docs.flatMap customIDs)) ∧
      ∀ e ∈ made, e ∈ ret ∨ ∀ t ∈ refs e, (∃ doc ∈ docs, t ∈ customRefs doc) ∨ Named st t := by
  induction docs generalizing ret st with
  | nil =>
      obtain ⟨rfl, rfl⟩ := pure_ok_iff.mp h
      exact ⟨rfl, by simp [structMapIDs], fun e he => Or.inl he⟩
  | cons doc docs ih =>
      rw [includeCustomStructmap] at h
      obtain ⟨custom, s₁, hcustom, h⟩ := bind_ok_iff.mp h
      have htag := (customStructmap_ok hcustom).1
      have hclean₁ : s₁.errorCount = 0 := by
        cases custom with
        | none =>
            obtain ⟨-, rfl⟩ := pure_ok_iff.mp h
            exact hclean
        | some structMap =>
            obtain ⟨-, c, n, rfl⟩ := includeCustomStructmap_ok (fun e he => by
              rcases List.mem_append.mp he with he | he
              · exact hret e he
              · exact htag e (List.mem_singleton.mp he ▸ rfl)) h
            exact (Nat.add_eq_zero_iff.mp hclean).1
      obtain ⟨structMap, rfl, rfl, hids, hrefs⟩ := customStructmap_ids hclean₁ hcustom
      have hret' : ∀ e ∈ ret ++ [structMap], e.tag = .structMap := fun e he => by
        rcases List.mem_append.mp he with he | he
        · exact hret e he
        · exact htag e (List.mem_singleton.mp he ▸ rfl)
      obtain ⟨hstate, hperm, hmade⟩ := ih hret' h
      have hcount : (doc :: docs).countP unnumbered = (if unnumbered doc then 1 else 0) + docs.countP unnumbered := by
        rw [List.countP_cons, Nat.add_comm]
      refine ⟨?_, hperm.trans ?_, fun e he => ?_⟩
      · rw [hstate, hcount, Nat.add_assoc]
      · have hfirst : structMapIDs st.globalStructMapCounter (if unnumbered doc then 1 else 0) =
            if unnumbered doc then [structMapID (st.globalStructMapCounter + 1)] else [] := by
          split_ifs <;> rfl
        rw [hcount, structMapIDs_add, hfirst, List.flatMap_append, List.flatMap_singleton, hids,
          List.flatMap_cons]
        simp only [List.append_assoc, List.perm_append_left_iff]
        exact List.perm_append_comm_assoc _ _ _
      · rcases hmade e he with he | he
        · rcases List.mem_append.mp he with he | he
          · exact Or.inl he
          · obtain rfl := List.mem_singleton.mp he
            exact Or.inr fun t ht => (hrefs t ht).imp_left fun ht => ⟨doc, List.mem_cons_self, ht⟩
        · refine Or.inr fun t ht => (he t ht).imp_left ?_
          rintro ⟨doc', hdoc', ht⟩
          exact ⟨doc', List.mem_cons_of_mem _ hdoc', ht⟩

end Sip

end Ccp.Worker.Mets
