import Ccp.Worker.Mets.Lost

namespace Ccp.Worker.Mets

open Lib PosixPath Lib.Calls MetsState

variable {id : Str}

-- The normative structMap refers to its own sections.

theorem of_described_added {new : List Div} {address : List Nat} {d : Div}
    (h : id ∈ described (d.modifyAt address (·.add new)).xml) :
    id ∈ described d.xml ∨ ∃ c ∈ new, id ∈ described c.xml := by
  induction address generalizing d with
  | nil =>
      obtain ⟨type, label, dmdID, children⟩ := d
      rw [Div.modifyAt, Div.add, mem_described_xml] at h
      rw [mem_described_xml]
      rcases h with hown | ⟨c, hc, hid⟩
      · exact Or.inl (Or.inl hown)
      · exact (List.mem_append.mp hc).imp (fun hc => Or.inr ⟨c, hc, hid⟩) fun hc => ⟨c, hc, hid⟩
  | cons i address ih =>
      obtain ⟨type, label, dmdID, children⟩ := d
      rw [Div.modifyAt, mem_described_xml] at h
      rw [mem_described_xml]
      rcases h with hown | ⟨c, hc, hid⟩
      · exact Or.inl (Or.inl hown)
      · obtain ⟨j, hj, rfl⟩ := List.mem_iff_getElem.mp hc
        have hchild : j < children.length := by
          rwa [List.length_modify] at hj
        rw [List.getElem_modify] at hid
        split_ifs at hid
        · exact (ih hid).imp_left fun hid => Or.inr ⟨_, List.getElem_mem hchild, hid⟩
        · exact Or.inl (Or.inr ⟨_, List.getElem_mem hchild, hid⟩)

-- The identifiers that a build refers to were given by its counter.
def Build.Counted (b : Build) : Prop :=
  ∀ n, Kind.dmdSec.ident n ∈ described b.root.xml → n ≤ b.globalDmdSecCounter

theorem counted_addDiv {b b' : Build} {item : FSItem} (hb : b.Counted) (h : addDiv b item = some b') :
    b.globalDmdSecCounter ≤ b'.globalDmdSecCounter ∧ b'.Counted := by
  rw [addDiv] at h
  obtain ⟨parent, -, h⟩ := Option.bind_eq_some_iff.mp h
  obtain ⟨x, hat, h⟩ := Option.map_eq_some_iff.mp h
  have hplain : ∀ n, Kind.dmdSec.ident n ∈ described (b.root.modifyAt parent
      (·.add [.mk (.of item.type) (basename item.path) none []])).xml → n ≤ b.globalDmdSecCounter := by
    intro n hn
    rcases of_described_added hn with hn | ⟨c, hc, hn⟩
    · exact hb n hn
    · obtain rfl := List.mem_singleton.mp hc
      simp [mem_described_xml] at hn
  dsimp only at h
  split_ifs at h
  · subst h
    exact ⟨Nat.le_refl _, hplain⟩
  · subst h
    refine ⟨Nat.le_succ _, fun n hn => ?_⟩
    rcases of_described_added hn with hn | ⟨c, hc, hn⟩
    · exact (hb n hn).trans (Nat.le_succ _)
    · obtain rfl := List.mem_singleton.mp hc
      rw [mem_described_xml] at hn
      rcases hn with ⟨v, hv, hn⟩ | ⟨c, hc, -⟩
      · obtain rfl := Option.some.inj hv
        rw [dmdSecID_eq, (Kind.token_ident _ _).tokens_eq, List.mem_singleton] at hn
        obtain ⟨-, rfl⟩ := Kind.ident_inj _ _ _ _ hn
        exact Nat.le_refl _
      · cases hc
  · subst h
    exact ⟨Nat.le_refl _, hplain⟩

theorem counted_addNormativeStructmapDiv {items : List FSItem} {b b' : Build} (hb : b.Counted)
    (h : addNormativeStructmapDiv items b = some b') :
    b.globalDmdSecCounter ≤ b'.globalDmdSecCounter ∧ b'.Counted := by
  induction items generalizing b with
  | nil =>
      obtain rfl := Option.some.inj h
      exact ⟨Nat.le_refl _, hb⟩
  | cons item items ih =>
      rw [addNormativeStructmapDiv, List.foldlM_cons] at h
      obtain ⟨b₁, hadd, h⟩ := Option.bind_eq_some_iff.mp h
      obtain ⟨hle, hcounted⟩ := counted_addDiv hb hadd
      obtain ⟨hle', hcounted'⟩ := ih hcounted h
      exact ⟨hle.trans hle', hcounted'⟩

theorem snd_mem_values_of_dmdIDs {e : Xml} {labels : List Str} {d : Str × Str} (h : d ∈ dmdIDs labels e) :
    d.2 ∈ e.values .dmdID := by
  induction e using Element.induction generalizing labels with
  | mk tag attrib children ih =>
      have hall : ∀ es : List Xml, (∀ e ∈ es, e ∈ children) → d ∈ dmdIDsAll labels es →
          ∃ e ∈ children, d.2 ∈ e.values .dmdID := by
        intro es hsub hd
        induction es with
        | nil => cases hd
        | cons e es ihes =>
            rw [dmdIDsAll, List.mem_append] at hd
            rcases hd with hd | hd
            · have he := hsub e List.mem_cons_self
              exact ⟨e, he, ih e he hd⟩
            · exact ihes (fun e he => hsub e (List.mem_cons_of_mem _ he)) hd
      rw [dmdIDs, List.mem_append] at h
      rw [Element.values_mk, List.mem_append, List.mem_flatMap]
      rcases h with h | h
      · obtain ⟨v, hv, rfl⟩ := List.mem_map.mp h
        exact Or.inl hv
      · exact Or.inr (hall children (fun _ he => he) h)

-- With the DMDIDs of the physical one.
theorem described_updateNormativeStructmapDmdids {normative structMap : Xml} (hclear : Clear structMap)
    (h : id ∈ described (updateNormativeStructmapDmdids normative structMap)) :
    id ∈ described normative ∨ id ∈ described structMap := by
  refine ((enriched_updateNormativeStructmapDmdids normative structMap).only id h).imp_right ?_
  rintro ⟨d, hd, hid⟩
  exact hclear.described (snd_mem_values_of_dmdIDs hd) hid

-- What is done to the structMaps that are brought along, and to a copy of the
-- physical one, keeps its DMDIDs.

theorem described_mapAttrib {f : Dict Attr Str → Dict Attr Str}
    (hf : ∀ attrib, Dict.get? (f attrib) .dmdID = Dict.get? attrib .dmdID) (e : Xml) :
    described (e.mapAttrib f) = described e := by
  induction e using Element.induction with
  | mk tag attrib children ih =>
      rw [Element.mapAttrib, Element.mapAttribAll_eq_map, described_mk, described_mk, ownDescribed, hf,
        List.flatMap_map, ownDescribed, List.flatMap_congr ih]

theorem get?_setFileID (names : Str → Option Str) (attrib : Dict Attr Str) :
    Dict.get? (setFileID names attrib) .dmdID = Dict.get? attrib .dmdID := by
  unfold setFileID
  cases (Dict.get? attrib .contentIDs).bind names with
  | none => rfl
  | some id => exact (Dict.get?_set ..).trans (if_neg (by decide))

theorem get?_retype (tag : Option Str) (attrib : Dict Attr Str) :
    Dict.get? (retype tag attrib) .dmdID = Dict.get? attrib .dmdID := by
  cases tag with
  | none => exact (Dict.get?_erase ..).trans (if_neg (by decide))
  | some tag => exact (Dict.get?_set ..).trans (if_neg (by decide))

theorem retagAll_eq_map (tags : Str → Option Str) (path : Str) (es : List Xml) :
    retagAll tags path es = es.map fun e => retag tags (join path (labelOf e)) e := by
  induction es with
  | nil => rfl
  | cons e es ih => rw [retagAll, ih, List.map_cons]

theorem described_retag (tags : Str → Option Str) (path : Str) (e : Xml) :
    described (retag tags path e) = described e := by
  induction e using Element.induction generalizing path with
  | mk tag attrib children ih =>
      have hown : ownDescribed tag (if tag = .div then retype (tags path) attrib else attrib) =
          ownDescribed tag attrib := by
        split_ifs
        · rw [ownDescribed, get?_retype, ownDescribed]
        · rfl
      rw [retag, retagAll_eq_map, described_mk, described_mk, hown, List.flatMap_map,
        List.flatMap_congr fun e he => ih e he _]

theorem of_described_arranged {tags : Str → Option Str} {tag : Option Str} {p q : Xml → Bool} {objects : Xml}
    (h : id ∈ described (.mk objects.tag (retype tag objects.attrib)
      (retagAll tags [] ((objects.children.eraseP p).eraseP q)))) : id ∈ described objects := by
  obtain ⟨t, attrib, children⟩ := objects
  rw [mem_described_mk, ownDescribed, get?_retype, retagAll_eq_map] at h
  rw [mem_described_mk]
  refine h.imp_right ?_
  rintro ⟨c, hc, hid⟩
  obtain ⟨d, hd, rfl⟩ := List.mem_map.mp hc
  rw [described_retag] at hid
  exact ⟨d, List.mem_of_mem_eraseP (List.mem_of_mem_eraseP hd), hid⟩

namespace Sip

variable {sip : Sip} {st st' : MetsState}

theorem described_customStructmap {doc : Xml} {made : Option Xml}
    (h : sip.customStructmap doc st = .ok made st') : ∀ e ∈ made, ∀ id ∈ described e, id ∈ described doc := by
  unfold customStructmap at h
  cases hfound : doc.children.find? fun e => e.tag = .structMap with
  | none =>
      rw [hfound] at h
      exact absurd h throw_ne_ok
  | some structMap =>
      rw [hfound] at h
      obtain ⟨numbered, s₁, hnumber, h⟩ := bind_ok_iff.mp h
      obtain ⟨s, s₂, hget, h⟩ := bind_ok_iff.mp h
      obtain ⟨rfl, rfl⟩ := get_ok_iff.mp hget
      have hdescribed : described numbered = described structMap := by
        unfold numberStructmap at hnumber
        split_ifs at hnumber
        · obtain ⟨u, s₃, -, hnumber⟩ := bind_ok_iff.mp hnumber
          obtain ⟨s, s₄, -, hnumber⟩ := bind_ok_iff.mp hnumber
          obtain ⟨rfl, -⟩ := pure_ok_iff.mp hnumber
          exact described_set_of_ne (by decide) _ _
        · obtain ⟨rfl, -⟩ := pure_ok_iff.mp hnumber
          rfl
      dsimp only at h
      split_ifs at h
      · obtain ⟨u, s₃, -, h⟩ := bind_ok_iff.mp h
        obtain ⟨rfl, -⟩ := pure_ok_iff.mp h
        simp
      · obtain ⟨rfl, -⟩ := pure_ok_iff.mp h
        rintro e ⟨⟩ id hid
        rw [described_mapAttrib (get?_setFileID _), hdescribed] at hid
        obtain ⟨tag, attrib, children⟩ := doc
        exact mem_described_mk.mpr (Or.inr ⟨structMap, List.mem_of_find?_eq_some hfound, hid⟩)

theorem described_includeCustomStructmap {ret docs made : List Xml}
    (h : sip.includeCustomStructmap ret docs st = .ok made st') :
    ∀ e ∈ made, e ∈ ret ∨ ∃ doc ∈ docs, ∀ id ∈ described e, id ∈ described doc := by
  induction docs generalizing ret st with
  | nil =>
      obtain ⟨rfl, -⟩ := pure_ok_iff.mp h
      exact fun e he => Or.inl he
  | cons doc docs ih =>
      rw [includeCustomStructmap] at h
      obtain ⟨custom, s₁, hcustom, h⟩ := bind_ok_iff.mp h
      have hdescribed := described_customStructmap hcustom
      cases custom with
      | none =>
          obtain ⟨rfl, -⟩ := pure_ok_iff.mp h
          simp
      | some structMap =>
          intro e he
          rcases ih h e he with hret | ⟨doc', hdoc', hid⟩
          · rcases List.mem_append.mp hret with hret | hret
            · exact Or.inl hret
            · obtain rfl := List.mem_singleton.mp hret
              exact Or.inr ⟨doc, List.mem_cons_self, hdescribed _ rfl⟩
          · exact Or.inr ⟨doc', List.mem_cons_of_mem _ hdoc', hid⟩

-- A child of the div is left out, or stays with a part of what it had.
theorem described_buildArrangedStructmap {sipDiv : Xml} {made : Option Xml}
    (h : sip.buildArrangedStructmap sipDiv st = .ok made st') :
    ∀ e ∈ made, ∀ id ∈ described e, id ∈ described sipDiv := by
  unfold buildArrangedStructmap at h
  split_ifs at h
  · obtain ⟨rfl, -⟩ := pure_ok_iff.mp h
    simp
  · cases hobjects : sipDiv.children.findIdx? (hasLabel "objects".toList) with
    | none =>
        rw [hobjects] at h
        exact absurd h throw_ne_ok
    | some i =>
        rw [hobjects] at h
        obtain ⟨rfl, -⟩ := pure_ok_iff.mp h
        rintro e ⟨⟩ id hid
        obtain ⟨tag, attrib, children⟩ := sipDiv
        have herase : ∀ attrib : Dict Attr Str,
            Dict.get? (Dict.erase attrib .type) .dmdID = Dict.get? attrib .dmdID :=
          get?_retype none
        rw [mem_described_mk] at hid
        rw [mem_described_mk]
        rcases hid with hid | ⟨c, hc, hid⟩
        · simp [ownDescribed] at hid
        · obtain rfl := List.mem_singleton.mp hc
          rw [mem_described_mk] at hid
          refine hid.imp (fun hown => ?_) ?_
          · rwa [ownDescribed, herase] at hown
          · rintro ⟨c, hc, hid⟩
            obtain ⟨j, hj, rfl⟩ := List.mem_iff_getElem.mp hc
            have hchild : j < children.length := by
              rwa [List.length_modify] at hj
            refine ⟨children[j], List.getElem_mem hchild, ?_⟩
            rw [List.getElem_modify] at hid
            split_ifs at hid
            · exact of_described_arranged hid
            · exact hid

-- The normative structMap is the first to get numbers.
theorem known_getNormative {name : Str} {made : Option Xml} (hknown : Known st)
    (h : sip.getNormative name st = .ok made st') :
    Known st' ∧ ∀ e ∈ made, ∀ n, Kind.dmdSec.ident n ∈ described e → Old st' (Kind.dmdSec.ident n) := by
  unfold getNormative at h
  split_ifs at h
  · obtain ⟨u, s₁, hmodify, h⟩ := bind_ok_iff.mp h
    obtain rfl := modify_ok_iff.mp hmodify
    obtain ⟨s, s₂, hget, h⟩ := bind_ok_iff.mp h
    obtain ⟨rfl, rfl⟩ := get_ok_iff.mp hget
    dsimp only at h
    generalize hbuild : addNormativeStructmapDiv _ _ = built at h
    cases built with
    | none => exact absurd h throw_ne_ok
    | some b =>
        obtain ⟨u, s₃, hset, h⟩ := bind_ok_iff.mp h
        obtain ⟨rfl, rfl⟩ := pure_ok_iff.mp h
        obtain ⟨-, rfl⟩ := EStateM.Result.ok.inj hset
        obtain ⟨hle, hcounted⟩ := counted_addNormativeStructmapDiv (fun n hn => by
          simp [mem_described_xml] at hn) hbuild
        have hold : ∀ n ≤ b.globalDmdSecCounter, Old { st with
            globalStructMapCounter := st.globalStructMapCounter + 1
            counter := Function.update st.counter .dmdSec b.globalDmdSecCounter
            dmdSecs := st.dmdSecs ++ b.dmdSecs.map fun id => newSection .dmdSec id [] }
            (Kind.dmdSec.ident n) := by
          intro n hn
          refine ⟨n, ?_, rfl⟩
          dsimp only
          rwa [Function.update_self]
        refine ⟨fun n href => ?_, ?_⟩
        · have hmade : ∀ e ∈ b.dmdSecs.map (newSection .dmdSec · []) ++ [], ∀ t, t ∉ refs e := by
            simp [mem_refs_newSection]
          have hrefers : Refers st (Kind.dmdSec.ident n) := by
            rcases href with hfile | htrim | hsection
            · exact Or.inl hfile
            · exact Or.inr (Or.inl htrim)
            · exact refers_of_section hmade (by rwa [List.append_nil])
          obtain ⟨m, hm, hid⟩ := hknown n hrefers
          rw [hid]
          exact hold m (hm.trans hle)
        · rintro e ⟨⟩ n hn
          rw [mem_described_mk] at hn
          rcases hn with hn | ⟨c, hc, hn⟩
          · simp [ownDescribed] at hn
          · obtain rfl := List.mem_singleton.mp hc
            exact hold n (hcounted n hn)
  · obtain ⟨rfl, rfl⟩ := pure_ok_iff.mp h
    exact ⟨hknown, by simp⟩

-- All that the document refers to.
theorem of_described_document {ids : List Str} {attrib : Dict Attr Str} {sipDiv : Xml}
    {normative arranged : Option Xml} {custom : List Xml} (hattrib : Dict.get? attrib .dmdID = none)
    (hclear : Clear sipDiv)
    (harranged : ∀ e ∈ arranged, ∀ id ∈ described e, id ∈ described sipDiv)
    (h : id ∈ described (.mk .mets [] ([.mk .metsHdr [] []] ++ ids.map (newSection .dmdSec · []) ++ st.dmdSecs ++
      st.amdSecs ++ [fileSec st, .mk .structMap attrib [sipDiv]] ++
      normative.toList.map (updateNormativeStructmapDmdids · (.mk .structMap attrib [sipDiv])) ++
      custom ++ (trimStructMap st).toList ++ arranged.toList))) :
    Refers st id ∨ id ∈ described sipDiv ∨ (∃ e ∈ normative, id ∈ described e) ∨
      ∃ e ∈ custom, id ∈ described e := by
  have hown : ∀ {tag : Tag} {attrib : Dict Attr Str} {children : List Xml}, ¬ (tag = .div ∨ tag = .file) →
      id ∈ described (.mk tag attrib children) → ∃ c ∈ children, id ∈ described c := by
    intro tag attrib children htag hid
    refine (mem_described_mk.mp hid).resolve_left ?_
    rw [ownDescribed, if_neg htag]
    exact List.not_mem_nil
  have hstructMap : id ∈ described (.mk .structMap attrib [sipDiv]) → id ∈ described sipDiv := fun hid => by
    simpa using hown (by decide) hid
  obtain ⟨c, hc, hid⟩ := hown (by decide) h
  simp only [List.mem_append, List.mem_cons, List.not_mem_nil, or_false, List.mem_map, Option.mem_toList,
    or_assoc] at hc
  rcases hc with rfl | ⟨d, -, rfl⟩ | hc | hc | rfl | rfl | ⟨d, hd, rfl⟩ | hc | hc | hc
  · obtain ⟨c, hc, -⟩ := hown (by decide) hid
    cases hc
  · obtain ⟨c, hc, -⟩ := hown (by decide) hid
    cases hc
  · exact Or.inl (Or.inr (Or.inr ⟨c, List.mem_append_left _ hc, hid⟩))
  · exact Or.inl (Or.inr (Or.inr ⟨c, List.mem_append_right _ hc, hid⟩))
  · obtain ⟨c, hc, hid⟩ := hown (by decide) hid
    obtain ⟨grp, hgrp, rfl⟩ := List.mem_map.mp hc
    obtain ⟨e, he, hid⟩ := hown (by decide) hid
    exact Or.inl (Or.inl ⟨e, List.mem_flatMap.mpr ⟨grp, List.mem_of_mem_filter hgrp, he⟩, hid⟩)
  · exact Or.inr (Or.inl (hstructMap hid))
  · have hphysical : Clear (.mk .structMap attrib [sipDiv]) :=
      clear_of_none hattrib (by simpa using hclear)
    rcases described_updateNormativeStructmapDmdids hphysical hid with hid | hid
    · exact Or.inr (Or.inr (Or.inl ⟨d, hd, hid⟩))
    · exact Or.inr (Or.inl (hstructMap hid))
  · exact Or.inr (Or.inr (Or.inr ⟨c, hc, hid⟩))
  · obtain ⟨o, ho, rfl⟩ := Option.map_eq_some_iff.mp hc
    obtain ⟨d, hd, hin⟩ := hown (by decide) hid
    obtain rfl := List.mem_singleton.mp hd
    exact Or.inl (Or.inr (Or.inl ⟨_, ho, hin⟩))
  · exact Or.inr (Or.inl (harranged c hc id hid))

end Sip

end Ccp.Worker.Mets
