import Ccp.Worker.Mets.Referred

namespace Ccp.Worker.Mets

open Lib PosixPath Lib.Calls MetsState

variable {e e' : Xml} {t : Str}

-- What is set on an element and on those below it, apart from their IDs.

theorem ids_mapAttrib {f : Dict Attr Str → Dict Attr Str}
    (hf : ∀ attrib, Dict.get? (f attrib) .id = Dict.get? attrib .id) (e : Xml) :
    ids (e.mapAttrib f) = ids e := by
  induction e using Element.induction with
  | mk tag attrib children ih =>
      rw [Element.mapAttrib, Element.mapAttribAll_eq_map, ids_mk, ids_mk, hf, List.flatMap_map,
        List.flatMap_congr ih]

-- The structMaps that are made of the physical one.

theorem ids_setDmdID {path dmdID : Str} {labels : List Str} (h : setDmdID path dmdID labels e = some e') :
    ids e' = ids e ∧ ∀ t ∈ refs e', t ∈ refs e ∨ t ∈ tokens dmdID := by
  induction e using Element.induction generalizing labels e' with
  | mk tag attrib children ih =>
      have hall : ∀ (es : List Xml) (labels : List Str) (es' : List Xml), (∀ e ∈ es, e ∈ children) →
          setDmdIDAll path dmdID labels es = some es' → es'.flatMap ids = es.flatMap ids ∧
            ∀ t, (∃ c ∈ es', t ∈ refs c) → (∃ c ∈ es, t ∈ refs c) ∨ t ∈ tokens dmdID := by
        intro es
        induction es with
        | nil =>
            intro labels es' _ hset
            cases hset
        | cons c es ihes =>
            intro labels es' hsub hset
            rw [setDmdIDAll] at hset
            cases hrest : setDmdIDAll path dmdID labels es with
            | some rest =>
                rw [hrest] at hset
                obtain rfl := Option.some.inj hset
                obtain ⟨hids, hrefs⟩ := ihes labels rest (fun e he => hsub e (List.mem_cons_of_mem _ he)) hrest
                refine ⟨by rw [List.flatMap_cons, List.flatMap_cons, hids], fun t ht => ?_⟩
                simp only [List.exists_mem_cons_iff, or_assoc] at ht ⊢
                exact ht.imp_right (hrefs t)
            | none =>
                rw [hrest] at hset
                obtain ⟨c', hc', rfl⟩ := Option.map_eq_some_iff.mp hset
                obtain ⟨hids, hrefs⟩ := ih c (hsub c List.mem_cons_self) hc'
                refine ⟨by rw [List.flatMap_cons, List.flatMap_cons, hids], fun t ht => ?_⟩
                simp only [List.exists_mem_cons_iff, or_assoc] at ht ⊢
                rcases ht with ht | ht
                · exact (hrefs t ht).imp_right Or.inr
                · exact Or.inr (Or.inl ht)
      rw [setDmdID] at h
      cases hbelow : setDmdIDAll path dmdID labels children with
      | some es =>
          rw [hbelow] at h
          obtain rfl := Option.some.inj h
          obtain ⟨hids, hrefs⟩ := hall children labels es (fun _ he => he) hbelow
          refine ⟨by rw [ids_mk, ids_mk, hids], fun t ht => ?_⟩
          rw [mem_refs_mk] at ht ⊢
          rw [or_assoc]
          exact ht.imp_right (hrefs t)
      | none =>
          rw [hbelow] at h
          dsimp only at h
          split_ifs at h
          obtain rfl := Option.some.inj h
          refine ⟨ids_set (by decide) _ (.mk tag attrib children), fun t ht => ?_⟩
          rcases mem_refs_set (e := .mk tag attrib children) ht with ht | ht
          · exact Or.inl ht
          · cases hget : Dict.get? attrib .dmdID with
            | none => exact Or.inr (by simpa [hget] using ht)
            | some v =>
                rw [hget, Option.map_some, Option.getD_some, List.append_assoc, List.singleton_append,
                  tokens_append_space, List.mem_append] at ht
                refine ht.imp_left fun ht => mem_refs_mk.mpr (Or.inl (mem_ownRefs.mpr ?_))
                exact ⟨.dmdID, by simp, v, hget, ht⟩

theorem ids_updateNormativeStructmapDmdids (normative structMap : Xml) :
    ids (updateNormativeStructmapDmdids normative structMap) = ids normative ∧
      ∀ t ∈ refs (updateNormativeStructmapDmdids normative structMap),
        t ∈ refs normative ∨ t ∈ refs structMap := by
  have hfold : ∀ (ds : List (Str × Str)) (e : Xml), (∀ d ∈ ds, d.2 ∈ structMap.values .dmdID) →
      ids (ds.foldl (fun e d => (setDmdID d.1 d.2 [] e).getD e) e) = ids e ∧
        ∀ t ∈ refs (ds.foldl (fun e d => (setDmdID d.1 d.2 [] e).getD e) e),
          t ∈ refs e ∨ t ∈ refs structMap := by
    intro ds
    induction ds with
    | nil => exact fun e _ => ⟨rfl, fun t => Or.inl⟩
    | cons d ds ih =>
        intro e hds
        obtain ⟨hids, hrefs⟩ := ih ((setDmdID d.1 d.2 [] e).getD e) fun d hd => hds d (List.mem_cons_of_mem _ hd)
        have hd : ∀ t ∈ tokens d.2, t ∈ refs structMap := fun t ht =>
          List.mem_flatMap.mpr ⟨d.2, List.mem_append_left _ (List.mem_append_left _ (hds d List.mem_cons_self)), ht⟩
        rw [List.foldl_cons]
        cases hset : setDmdID d.1 d.2 [] e with
        | none =>
            rw [hset, Option.getD_none] at hids hrefs
            exact ⟨hids, hrefs⟩
        | some e' =>
            rw [hset, Option.getD_some] at hids hrefs
            obtain ⟨hids', hrefs'⟩ := ids_setDmdID hset
            refine ⟨hids.trans hids', fun t ht => ?_⟩
            rcases hrefs t ht with ht | ht
            · exact (hrefs' t ht).imp_right (hd t)
            · exact Or.inr ht
  exact hfold _ _ fun d hd => snd_mem_values_of_dmdIDs hd

theorem ids_retag (tags : Str → Option Str) (path : Str) (e : Xml) :
    ids (retag tags path e) = ids e ∧ ∀ t ∈ refs (retag tags path e), t ∈ refs e := by
  induction e using Element.induction generalizing path with
  | mk tag attrib children ih =>
      have hget : ∀ key, key ≠ Attr.type →
          Dict.get? (if tag = .div then retype (tags path) attrib else attrib) key = Dict.get? attrib key := by
        intro key hkey
        split_ifs
        · cases tags path with
          | none => exact (Dict.get?_erase ..).trans (if_neg (Ne.symm hkey))
          | some v => exact (Dict.get?_set ..).trans (if_neg (Ne.symm hkey))
        · rfl
      rw [retag, retagAll_eq_map]
      refine ⟨?_, fun t ht => ?_⟩
      · rw [ids_mk, ids_mk, hget _ (by decide), List.flatMap_map, List.flatMap_congr fun e he => (ih e he _).1]
      · rw [mem_refs_mk, mem_ownRefs] at ht
        rw [mem_refs_mk, mem_ownRefs]
        rcases ht with ⟨key, hkey, v, hv, ht⟩ | ⟨c, hc, ht⟩
        · refine Or.inl ⟨key, hkey, v, ?_, ht⟩
          rw [← hv, hget key]
          rintro rfl
          simp at hkey
        · obtain ⟨d, hd, rfl⟩ := List.mem_map.mp hc
          exact Or.inr ⟨d, hd, (ih d hd _).2 t ht⟩

-- The normative structMap.

theorem Div.induction {motive : Div → Prop}
    (mk : ∀ type label dmdID children, (∀ d ∈ children, motive d) → motive (.mk type label dmdID children)) :
    ∀ d, motive d
  | .mk type label dmdID children => mk type label dmdID children fun d _ => Div.induction mk d

theorem ids_xml (d : Div) : ids d.xml = [] ∧ ∀ t ∈ refs d.xml, t ∈ described d.xml := by
  induction d using Div.induction with
  | mk type label dmdID children ih =>
      simp only [Div.xml, xmlAll_eq_map]
      refine ⟨?_, fun t ht => ?_⟩
      · rw [ids_mk, List.flatMap_map, List.flatMap_eq_nil_iff.mpr fun c hc => (ih c hc).1]
        cases dmdID <;> simp [Dict.get?_cons]
      · rw [mem_refs_mk] at ht
        rw [mem_described_mk]
        rcases ht with ht | ⟨c, hc, ht⟩
        · refine Or.inl ?_
          cases dmdID with
          | none => simp [mem_ownRefs, Dict.get?_cons] at ht
          | some v => simpa [mem_ownRefs, ownDescribed, Dict.get?_cons] using ht
        · obtain ⟨d, hd, rfl⟩ := List.mem_map.mp hc
          exact Or.inr ⟨_, List.mem_map_of_mem hd, (ih d hd).2 t ht⟩

-- The sections that the walk of a build has made, and their number.
structure Build.Sectioned (b b' : Build) (n : Nat) (made : List Str) : Prop where
  counter : b'.globalDmdSecCounter = b.globalDmdSecCounter + n
  dmdSecs : b'.dmdSecs = b.dmdSecs ++ made
  issued : ∀ c : Kind → Nat, Issued Kind.ident (Function.update c .dmdSec b.globalDmdSecCounter)
    (Function.update c .dmdSec b'.globalDmdSecCounter) made
  described : (∀ t ∈ described b.root.xml, t ∈ b.dmdSecs) → ∀ t ∈ described b'.root.xml, t ∈ b'.dmdSecs

-- An empty directory gets a section.
def FSItem.sectioned (item : FSItem) : Bool := item.isEmpty && !transfers.isPrefixOf item.path

theorem sectioned_addDiv {b b' : Build} {item : FSItem} (h : addDiv b item = some b') :
    ∃ made, b.Sectioned b' (if item.sectioned then 1 else 0) made := by
  rw [addDiv] at h
  obtain ⟨parent, -, h⟩ := Option.bind_eq_some_iff.mp h
  obtain ⟨x, hat, h⟩ := Option.map_eq_some_iff.mp h
  have hplain : (∀ t ∈ described b.root.xml, t ∈ b.dmdSecs) → ∀ t ∈ described (b.root.modifyAt parent
      (·.add [.mk (.of item.type) (basename item.path) none []])).xml, t ∈ b.dmdSecs := by
    intro hb t ht
    rcases of_described_added ht with ht | ⟨c, hc, ht⟩
    · exact hb t ht
    · obtain rfl := List.mem_singleton.mp hc
      simp [mem_described_xml] at ht
  have hnil : ∀ c : Kind → Nat, Issued Kind.ident (Function.update c .dmdSec b.globalDmdSecCounter)
      (Function.update c .dmdSec b.globalDmdSecCounter) [] := fun c => .nil fun _ => Nat.le_refl _
  rw [FSItem.sectioned]
  dsimp only at h
  split_ifs at h with hempty htransfers
  · subst h
    refine ⟨[], by simp [hempty, htransfers], (List.append_nil _).symm, hnil, hplain⟩
  · subst h
    refine ⟨[dmdSecID (b.globalDmdSecCounter + 1)], by simp [hempty, htransfers], rfl, fun c => ?_, ?_⟩
    · have hsingle := @Issued.single _ _ Kind.ident _
        (Function.update c .dmdSec b.globalDmdSecCounter) .dmdSec
      rwa [Function.update_self, Function.update_idem] at hsingle
    · intro hb t ht
      rcases of_described_added ht with ht | ⟨c, hc, ht⟩
      · exact List.mem_append_left _ (hb t ht)
      · obtain rfl := List.mem_singleton.mp hc
        rw [mem_described_xml] at ht
        rcases ht with ⟨v, hv, ht⟩ | ⟨c, hc, -⟩
        · obtain rfl := Option.some.inj hv
          rw [dmdSecID_eq, (Kind.token_ident _ _).tokens_eq] at ht
          exact List.mem_append_right _ ht
        · cases hc
  · subst h
    exact ⟨[], by simp [hempty], (List.append_nil _).symm, hnil, hplain⟩

theorem sectioned_addNormativeStructmapDiv {items : List FSItem} {b b' : Build}
    (h : addNormativeStructmapDiv items b = some b') :
    ∃ made, b.Sectioned b' (items.countP FSItem.sectioned) made := by
  induction items generalizing b with
  | nil =>
      obtain rfl := Option.some.inj h
      exact ⟨[], rfl, (List.append_nil _).symm, fun c => .nil fun _ => Nat.le_refl _, fun hb => hb⟩
  | cons item items ih =>
      rw [addNormativeStructmapDiv, List.foldlM_cons] at h
      obtain ⟨b₁, hadd, h⟩ := Option.bind_eq_some_iff.mp h
      obtain ⟨made, hmade⟩ := sectioned_addDiv hadd
      obtain ⟨made', hmade'⟩ := ih h
      refine ⟨made ++ made', ?_, ?_, fun c => (hmade.issued c).append (hmade'.issued c), fun hb =>
        hmade'.described (hmade.described hb)⟩
      · rw [hmade'.counter, hmade.counter, List.countP_cons]
        omega
      · rw [hmade'.dmdSecs, hmade.dmdSecs, List.append_assoc]

end Ccp.Worker.Mets
