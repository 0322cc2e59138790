import Ccp.Worker.Mets.Placed

namespace Ccp.Worker.Mets

open Lib PosixPath Lib.Calls MetsState

-- The normative structMap.

theorem xmlAll_eq_map (ds : List Div) : Div.xmlAll ds = ds.map Div.xml := by
  induction ds with
  | nil => rfl
  | cons d ds ih => rw [Div.xmlAll, ih, List.map_cons]

theorem mem_described_xml {type : DivType} {label id : Str} {dmdID : Option Str} {children : List Div} :
    id ∈ described (Div.mk type label dmdID children).xml ↔
      (∃ v ∈ dmdID, id ∈ tokens v) ∨ ∃ c ∈ children, id ∈ described c.xml := by
  simp only [Div.xml, mem_described_mk, xmlAll_eq_map, ownDescribed, true_or, if_true, List.mem_map,
    exists_exists_and_eq_and]
  cases dmdID with
  | none => simp [Dict.get?_cons]
  | some v => simp [Dict.get?_cons]

theorem described_add {d : Div} {id : Str} (new : List Div) (h : id ∈ described d.xml) :
    id ∈ described (d.add new).xml := by
  obtain ⟨type, label, dmdID, children⟩ := d
  rw [Div.add, mem_described_xml]
  refine (mem_described_xml.mp h).imp_right ?_
  rintro ⟨c, hc, hid⟩
  exact ⟨c, List.mem_append_left _ hc, hid⟩

theorem described_modifyAt {f : Div → Div} {id : Str}
    (hf : ∀ d : Div, id ∈ described d.xml → id ∈ described (f d).xml) {address : List Nat} {d : Div}
    (h : id ∈ described d.xml) : id ∈ described (d.modifyAt address f).xml := by
  induction address generalizing d with
  | nil => exact hf d h
  | cons i address ih =>
      obtain ⟨type, label, dmdID, children⟩ := d
      rw [Div.modifyAt, mem_described_xml]
      refine (mem_described_xml.mp h).imp_right ?_
      rintro ⟨c, hc, hid⟩
      obtain ⟨j, hj, rfl⟩ := List.mem_iff_getElem.mp hc
      have hmodified : j < (children.modify i (Div.modifyAt address f)).length := by
        rwa [List.length_modify]
      refine ⟨(children.modify i (Div.modifyAt address f))[j], List.getElem_mem _, ?_⟩
      rw [List.getElem_modify]
      split_ifs
      · exact ih hid
      · exact hid

-- What is added somewhere is described there.
theorem described_added {new : List Div} {c x : Div} {id : Str} (hc : c ∈ new) (hid : id ∈ described c.xml)
    {address : List Nat} {d : Div} (h : d.at? address = some x) :
    id ∈ described (d.modifyAt address (·.add new)).xml := by
  induction address generalizing d with
  | nil =>
      obtain ⟨type, label, dmdID, children⟩ := d
      rw [Div.modifyAt, Div.add, mem_described_xml]
      exact Or.inr ⟨c, List.mem_append_right _ hc, hid⟩
  | cons i address ih =>
      obtain ⟨type, label, dmdID, children⟩ := d
      obtain ⟨child, hchild, hat⟩ := Option.bind_eq_some_iff.mp h
      obtain ⟨hi, rfl⟩ := List.getElem?_eq_some_iff.mp hchild
      rw [Div.modifyAt, mem_described_xml]
      have hmodified : i < (children.modify i (Div.modifyAt address (·.add new))).length := by
        rwa [List.length_modify]
      refine Or.inr ⟨(children.modify i (Div.modifyAt address (·.add new)))[i], List.getElem_mem _, ?_⟩
      rw [List.getElem_modify, if_pos rfl]
      exact ih hat

-- The sections of the empty directories are those of their divs.
theorem described_addDiv {b b' : Build} {item : FSItem} (hb : ∀ id ∈ b.dmdSecs, id ∈ described b.root.xml)
    (h : addDiv b item = some b') : ∀ id ∈ b'.dmdSecs, id ∈ described b'.root.xml := by
  rw [addDiv] at h
  obtain ⟨parent, -, h⟩ := Option.bind_eq_some_iff.mp h
  obtain ⟨x, hat, h⟩ := Option.map_eq_some_iff.mp h
  have hkeeps : ∀ dmdID, ∀ id ∈ b.dmdSecs, id ∈ described (b.root.modifyAt parent
      (·.add [.mk (.of item.type) (basename item.path) dmdID []])).xml := fun dmdID id hid =>
    described_modifyAt (fun d => described_add _) (hb id hid)
  dsimp only at h
  split_ifs at h
  · subst h
    exact hkeeps none
  · subst h
    intro id hid
    rcases List.mem_append.mp hid with hid | hid
    · exact hkeeps _ id hid
    · obtain rfl := List.mem_singleton.mp hid
      refine described_added (List.mem_singleton_self _) (mem_described_xml.mpr (Or.inl ⟨_, rfl, ?_⟩)) hat
      rw [dmdSecID_eq, (Kind.token_ident _ _).tokens_eq]
      exact List.mem_singleton_self _
  · subst h
    exact hkeeps none

theorem described_addNormativeStructmapDiv {items : List FSItem} {b b' : Build}
    (hb : ∀ id ∈ b.dmdSecs, id ∈ described b.root.xml) (h : addNormativeStructmapDiv items b = some b') :
    ∀ id ∈ b'.dmdSecs, id ∈ described b'.root.xml := by
  induction items generalizing b with
  | nil =>
      obtain rfl := Option.some.inj h
      exact hb
  | cons item items ih =>
      rw [addNormativeStructmapDiv, List.foldlM_cons] at h
      obtain ⟨b₁, hadd, h⟩ := Option.bind_eq_some_iff.mp h
      exact ih (described_addDiv hb hadd) h

-- More DMDIDs, and none less.
structure Enriched (added : Str → Prop) (e e' : Xml) : Prop where
  tag : e'.tag = e.tag
  described : ∀ id ∈ Mets.described e, id ∈ Mets.described e'
  only : ∀ id ∈ Mets.described e', id ∈ Mets.described e ∨ added id

theorem enriched_setDmdID {path dmdID : Str} {e : Xml} {labels : List Str} {e' : Xml}
    (h : setDmdID path dmdID labels e = some e') : Enriched (· ∈ tokens dmdID) e e' := by
  induction e using Element.induction generalizing labels e' with
  | mk tag attrib children ih =>
      have hall : ∀ (es : List Xml) (labels : List Str) (es' : List Xml), (∀ e ∈ es, e ∈ children) →
          setDmdIDAll path dmdID labels es = some es' →
          ∀ id, ((∃ c ∈ es, id ∈ described c) → ∃ c ∈ es', id ∈ described c) ∧
            ((∃ c ∈ es', id ∈ described c) → (∃ c ∈ es, id ∈ described c) ∨ id ∈ tokens dmdID) := by
        intro es
        induction es with
        | nil =>
            intro labels es' _ hset
            cases hset
        | cons c es ihes =>
            intro labels es' hsub hset id
            rw [setDmdIDAll] at hset
            cases hrest : setDmdIDAll path dmdID labels es with
            | some rest =>
                rw [hrest] at hset
                obtain rfl := Option.some.inj hset
                obtain ⟨hkeeps, honly⟩ := ihes labels rest (fun e he => hsub e (List.mem_cons_of_mem _ he)) hrest id
                simp only [List.exists_mem_cons_iff, or_assoc]
                exact ⟨Or.imp_right hkeeps, Or.imp_right honly⟩
            | none =>
                rw [hrest] at hset
                obtain ⟨c', hc', rfl⟩ := Option.map_eq_some_iff.mp hset
                obtain ⟨-, hkeeps, honly⟩ := ih c (hsub c List.mem_cons_self) hc'
                simp only [List.exists_mem_cons_iff, or_assoc]
                refine ⟨Or.imp_left (hkeeps id), ?_⟩
                rintro (hid | hid)
                · exact (honly id hid).imp_right Or.inr
                · exact Or.inr (Or.inl hid)
      rw [setDmdID] at h
      cases hbelow : setDmdIDAll path dmdID labels children with
      | some es =>
          rw [hbelow] at h
          obtain rfl := Option.some.inj h
          have hboth := hall children labels es (fun _ he => he) hbelow
          refine ⟨rfl, fun id hid => ?_, fun id hid => ?_⟩
          · exact mem_described_mk.mpr ((mem_described_mk.mp hid).imp_right (hboth id).1)
          · rw [mem_described_mk, or_assoc]
            exact (mem_described_mk.mp hid).imp_right (hboth id).2
      | none =>
          rw [hbelow] at h
          dsimp only at h
          split_ifs at h
          obtain rfl := Option.some.inj h
          have htokens : tokens (((Dict.get? attrib .dmdID).map (· ++ [' '])).getD [] ++ dmdID) =
              tokens ((Dict.get? attrib .dmdID).getD []) ++ tokens dmdID := by
            cases Dict.get? attrib .dmdID with
            | none => rfl
            | some v =>
                rw [Option.map_some, Option.getD_some, List.append_assoc, List.singleton_append,
                  tokens_append_space, Option.getD_some]
          refine ⟨rfl, fun id hid => mem_described_set (fun t ht => ?_) hid, fun id hid => ?_⟩
          · rw [htokens]
            exact List.mem_append_left _ ht
          · rw [mem_described_mk, or_right_comm]
            refine (mem_described_mk.mp hid).imp_left fun hown => ?_
            unfold ownDescribed at hown ⊢
            split_ifs at hown ⊢
            · rw [Dict.get?_set, if_pos rfl, Option.getD_some, htokens] at hown
              exact List.mem_append.mp hown
            · cases hown

theorem enriched_updateNormativeStructmapDmdids (normative structMap : Xml) :
    Enriched (fun id => ∃ d ∈ dmdIDs [] structMap, id ∈ tokens d.2) normative
      (updateNormativeStructmapDmdids normative structMap) := by
  rw [updateNormativeStructmapDmdids]
  generalize dmdIDs [] structMap = ids
  induction ids generalizing normative with
  | nil => exact ⟨rfl, fun _ hid => hid, fun _ => Or.inl⟩
  | cons d ids ih =>
      have hlater : ∀ id, (∃ d ∈ ids, id ∈ tokens d.2) → ∃ d' ∈ d :: ids, id ∈ tokens d'.2 :=
        fun id ⟨d', hd', hid⟩ => ⟨d', List.mem_cons_of_mem _ hd', hid⟩
      rw [List.foldl_cons]
      cases hset : setDmdID d.1 d.2 [] normative with
      | none => exact { ih normative with only := fun id hid => ((ih normative).only id hid).imp_right (hlater id) }
      | some e =>
          have hfirst := enriched_setDmdID hset
          have hrest := ih e
          refine ⟨hrest.tag.trans hfirst.tag, fun id hid => hrest.described id (hfirst.described id hid),
            fun id hid => ?_⟩
          rcases hrest.only id hid with hid | hid
          · exact (hfirst.only id hid).imp_right fun hid => ⟨d, List.mem_cons_self, hid⟩
          · exact Or.inr (hlater id hid)

namespace Sip

variable {sip : Sip} {st st' : MetsState}

theorem places_getNormative {name : Str} {made : Option Xml} (h : sip.getNormative name st = .ok made st') :
    Places [] (fun id => ∃ e ∈ made, id ∈ described e) st st' ∧ (∀ e ∈ made, e.tag = .structMap) := by
  unfold getNormative at h
  split_ifs at h
  · obtain ⟨u, s₁, hmodify, h⟩ := bind_ok_iff.mp h
    obtain rfl := modify_ok_iff.mp hmodify
    obtain ⟨s, s₂, hget, h⟩ := bind_ok_iff.mp h
    obtain ⟨rfl, rfl⟩ := get_ok_iff.mp hget
    dsimp only at h
    generalize hbuild : addNormativeStructmapDiv _ _ = built at h
    cases built with
    | none => exact absurd h throw_ne_ok
    | some b =>
        obtain ⟨u, s₃, hset, h⟩ := bind_ok_iff.mp h
        obtain ⟨rfl, rfl⟩ := pure_ok_iff.mp h
        obtain ⟨-, rfl⟩ := EStateM.Result.ok.inj hset
        have hdescribed := described_addNormativeStructmapDiv (by simp) hbuild
        refine ⟨?_, by simp [Element.tag]⟩
        have hplaces := @places_sections (fun id => id ∈ described b.root.xml) st
          (Function.update st.counter .dmdSec b.globalDmdSecCounter)
          (b.dmdSecs.map fun id => newSection .dmdSec id []) [] (fun e he => by
            obtain ⟨id, hid, rfl⟩ := List.mem_map.mp he
            exact ⟨id, rfl, hdescribed id hid⟩) (by simp)
        rw [List.append_nil] at hplaces
        refine Places.mono ⟨hplaces.made, hplaces.keep, hplaces.present, hplaces.trim, hplaces.amd⟩ ?_
        intro id hid
        exact ⟨_, rfl, mem_described_mk.mpr (Or.inr ⟨_, List.mem_singleton_self _, hid⟩)⟩
  · obtain ⟨rfl, rfl⟩ := pure_ok_iff.mp h
    exact ⟨places_refl st, by simp⟩

theorem tag_mapAttrib (f : Dict Attr Str → Dict Attr Str) (e : Xml) : (e.mapAttrib f).tag = e.tag := by
  obtain ⟨tag, attrib, children⟩ := e
  rfl

theorem numberStructmap_ok {structMap made : Xml} (h : numberStructmap structMap st = .ok made st') :
    made.tag = structMap.tag ∧ ∃ c, st' = { st with globalStructMapCounter := c } := by
  unfold numberStructmap at h
  split_ifs at h
  · obtain ⟨u, s₁, hmodify, h⟩ := bind_ok_iff.mp h
    obtain rfl := modify_ok_iff.mp hmodify
    obtain ⟨s, s₂, hget, h⟩ := bind_ok_iff.mp h
    obtain ⟨rfl, rfl⟩ := get_ok_iff.mp hget
    obtain ⟨rfl, rfl⟩ := pure_ok_iff.mp h
    obtain ⟨tag, attrib, children⟩ := structMap
    exact ⟨rfl, _, rfl⟩
  · obtain ⟨rfl, rfl⟩ := pure_ok_iff.mp h
    exact ⟨rfl, st.globalStructMapCounter, rfl⟩

theorem customStructmap_ok {doc : Xml} {made : Option Xml} (h : sip.customStructmap doc st = .ok made st') :
    (∀ e ∈ made, e.tag = .structMap) ∧
      ∃ c n, st' = { st with globalStructMapCounter := c, errorCount := st.errorCount + n } := by
  unfold customStructmap at h
  cases hfound : doc.children.find? fun e => e.tag = .structMap with
  | none =>
      rw [hfound] at h
      exact absurd h throw_ne_ok
  | some structMap =>
      rw [hfound] at h
      obtain ⟨numbered, s₁, hnumber, h⟩ := bind_ok_iff.mp h
      obtain ⟨htag, c, rfl⟩ := numberStructmap_ok hnumber
      obtain ⟨s, s₂, hget, h⟩ := bind_ok_iff.mp h
      obtain ⟨rfl, rfl⟩ := get_ok_iff.mp hget
      dsimp only at h
      split_ifs at h
      · obtain ⟨u, s₃, hmodify, h⟩ := bind_ok_iff.mp h
        obtain ⟨rfl, rfl⟩ := pure_ok_iff.mp h
        obtain rfl := modify_ok_iff.mp hmodify
        exact ⟨by simp, c, 1, rfl⟩
      · obtain ⟨rfl, rfl⟩ := pure_ok_iff.mp h
        refine ⟨?_, c, 0, rfl⟩
        rintro e ⟨⟩
        rw [tag_mapAttrib, htag]
        simpa using List.find?_some hfound

theorem includeCustomStructmap_ok {ret docs made : List Xml} (hret : ∀ e ∈ ret, e.tag = .structMap)
    (h : sip.includeCustomStructmap ret docs st = .ok made st') :
    (∀ e ∈ made, e.tag = .structMap) ∧
      ∃ c n, st' = { st with globalStructMapCounter := c, errorCount := st.errorCount + n } := by
  induction docs generalizing ret st with
  | nil =>
      obtain ⟨rfl, rfl⟩ := pure_ok_iff.mp h
      exact ⟨hret, st.globalStructMapCounter, 0, rfl⟩
  | cons doc docs ih =>
      rw [includeCustomStructmap] at h
      obtain ⟨custom, s₁, hcustom, h⟩ := bind_ok_iff.mp h
      obtain ⟨htag, c, n, rfl⟩ := customStructmap_ok hcustom
      cases custom with
      | none =>
          obtain ⟨rfl, rfl⟩ := pure_ok_iff.mp h
          exact ⟨by simp, c, n, rfl⟩
      | some structMap =>
          obtain ⟨hmade, c', n', rfl⟩ := ih (fun e he => by
            rcases List.mem_append.mp he with he | he
            · exact hret e he
            · exact htag e (List.mem_singleton.mp he ▸ rfl)) h
          exact ⟨hmade, c', n + n', by rw [← Nat.add_assoc]⟩

theorem buildArrangedStructmap_ok {sipDiv : Xml} {made : Option Xml}
    (h : sip.buildArrangedStructmap sipDiv st = .ok made st') :
    (∀ e ∈ made, e.tag = .structMap) ∧ st = st' := by
  unfold buildArrangedStructmap at h
  split_ifs at h
  · obtain ⟨rfl, rfl⟩ := pure_ok_iff.mp h
    exact ⟨by simp, rfl⟩
  · cases hobjects : sipDiv.children.findIdx? (hasLabel "objects".toList) with
    | none =>
        rw [hobjects] at h
        exact absurd h throw_ne_ok
    | some i =>
        rw [hobjects] at h
        obtain ⟨rfl, rfl⟩ := pure_ok_iff.mp h
        refine ⟨?_, rfl⟩
        rintro e ⟨⟩
        rfl

end Sip

end Ccp.Worker.Mets
