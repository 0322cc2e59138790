import Ccp.Worker.Mets.Described
import Ccp.Worker.Mets.Walked

namespace Ccp.Worker.Mets

open Lib PosixPath Lib.Calls MetsState

theorem Clear.set {key : Attr} {value : Str} {e : Xml} (h : Clear e) (hkey : key = .dmdID → e.tag = .div) :
    Clear (e.set key value) := by
  obtain ⟨tag, attrib, children⟩ := e
  obtain ⟨hown, hchildren⟩ := clear_mk_iff.mp h
  refine clear_mk_iff.mpr ⟨fun hsome => ?_, hchildren⟩
  rw [Dict.get?_set] at hsome
  split_ifs at hsome with hset
  · exact Or.inl (hkey hset)
  · exact hown hsome

namespace Sip

variable {sip : Sip} {st st' s₁ : MetsState} {loop done : Loop} {div : Xml} {path parentDmdID : Str}
  {listing : Listing} {made : Option (Xml × Str)}

-- What is done later to the div of a directory leaves its DMDIDs as they are.
theorem Closed.later {div' : Xml} (h : sip.Closed path listing st s₁ parentDmdID div) (hstill : Still s₁ st')
    (htag : div'.tag = div.tag)
    (hdescribed : described div' = described div) (hchildren : div'.children = div.children)
    (hclear : Clear div') : sip.Closed path listing st st' parentDmdID div' where
  still := h.still.trans hstill
  tag := htag.trans h.tag
  brings := by
    refine ⟨hclear, fun n hn => ?_, h.brings.given.later hstill, fun t ht => ?_⟩
    · rw [hdescribed] at hn
      exact (h.brings.described n hn).imp_right hstill.old
    · rw [hdescribed]
      exact h.brings.apart t ht
  sets := h.sets
  filled := h.filled
  outcome := by
    rw [hdescribed]
    exact h.outcome.imp_left fun hlost => hlost.later hstill fun _ _ hid => hid
  own hown := by
    obtain ⟨t, hsection, hnew, hold, href, happart, hbelow⟩ := h.own hown
    rw [hchildren]
    exact ⟨t, hstill.sections _ hsection, hnew, hstill.old hold, fun hid => href (hstill.refers t hold hid),
      happart, hbelow⟩

-- What a directory comes to when it is there.
inductive Ended (sip : Sip) (path : Str) (st : MetsState) :
    Option Listing → Option (Xml × Str) → MetsState → Prop
  | missing : Ended sip path st none none st
  | closed {listing : Listing} {st' : MetsState} {parentDmdID : Str} {div : Xml}
      (h : sip.Closed path listing st st' parentDmdID div) :
      Ended sip path st (some listing) (some (div, parentDmdID)) st'

theorem ended_createFileSec {listing : Option Listing} (hforeign : sip.Foreign) (hknown : Known st)
    (hclean : st'.errorCount = 0) (h : sip.createFileSec path listing st = .ok made st') :
    sip.Ended path st listing made st' := by
  cases listing with
  | none =>
      obtain ⟨rfl, rfl⟩ := pure_ok_iff.mp h
      exact .missing
  | some listing =>
      rw [createFileSec] at h
      obtain ⟨loop, s₁, hbegin, h⟩ := bind_ok_iff.mp h
      obtain ⟨loop', s₂, hitems, h⟩ := bind_ok_iff.mp h
      obtain ⟨div, s₃, hend, h⟩ := bind_ok_iff.mp h
      obtain ⟨rfl, rfl⟩ := pure_ok_iff.mp h
      have hclean₂ : s₂.errorCount = 0 := by
        obtain ⟨u, s₄, hmodify, hend⟩ := bind_ok_iff.mp hend
        obtain ⟨-, rfl⟩ := pure_ok_iff.mp hend
        obtain rfl := modify_ok_iff.mp hmodify
        exact hclean
      exact .closed (closed_directory (walked_items hforeign hclean₂ hitems) hknown hbegin hend)

theorem errors_createFileSec {listing : Option Listing} (h : sip.createFileSec path listing st = .ok made st') :
    st.errorCount ≤ st'.errorCount := by
  cases listing with
  | none =>
      obtain ⟨-, rfl⟩ := pure_ok_iff.mp h
      exact Nat.le_refl _
  | some listing =>
      rw [createFileSec] at h
      obtain ⟨loop, s₁, hbegin, h⟩ := bind_ok_iff.mp h
      obtain ⟨loop', s₂, hitems, h⟩ := bind_ok_iff.mp h
      obtain ⟨div, s₃, hend, h⟩ := bind_ok_iff.mp h
      obtain ⟨rfl, rfl⟩ := pure_ok_iff.mp h
      have herrors : s₂.errorCount = s₃.errorCount := by
        obtain ⟨u, s₄, hmodify, hend⟩ := bind_ok_iff.mp hend
        obtain ⟨-, rfl⟩ := pure_ok_iff.mp hend
        obtain rfl := modify_ok_iff.mp hmodify
        rfl
      exact ((@grows_beginDirectory _ _ _ [] _ _ hbegin).1.errors.trans (errors_items hitems)).trans herrors.le

theorem addObjectMetadata_ok {objectsDiv objectsDiv' : Option Xml}
    (h : sip.addObjectMetadata objectsDiv st = .ok objectsDiv' st') :
    objectsDiv' = objectsDiv ∧ st = st' ∨
      ∃ div amdID, objectsDiv = some div ∧ objectsDiv' = some (div.set .admID amdID) ∧ Still st st' ∧
        st'.errorCount = st.errorCount := by
  rw [addObjectMetadata] at h
  obtain ⟨found, s₁, hcreate, h⟩ := bind_ok_iff.mp h
  rcases createObjectMetadata_ok hcreate with ⟨rfl, -, rfl⟩ | ⟨c, el, amdID, rfl, rfl, -, -, hdmd, -, hrefs, -⟩
  · obtain ⟨rfl, rfl⟩ := pure_ok_iff.mp h
    exact Or.inl ⟨rfl, rfl⟩
  · cases objectsDiv with
    | none => exact absurd h throw_ne_ok
    | some div =>
        obtain ⟨u, s₂, happend, h⟩ := bind_ok_iff.mp h
        obtain ⟨rfl, rfl⟩ := pure_ok_iff.mp h
        refine Or.inr ⟨div, amdID, rfl, rfl, ?_⟩
        unfold appendAmdSec at happend
        split_ifs at happend
        · obtain rfl := modify_ok_iff.mp happend
          have hstill := @still_of_made st c [] [el] hdmd.ge (by simpa using hrefs)
          rw [List.append_nil] at hstill
          exact ⟨hstill, rfl⟩
        · obtain ⟨-, rfl⟩ := pure_ok_iff.mp happend
          exact ⟨still_of_counter hdmd.ge, rfl⟩

theorem Ended.addObjectMetadata {listing : Option Listing} {objectsDiv : Option Xml}
    (hended : sip.Ended path st listing made s₁)
    (h : sip.addObjectMetadata (made.map Prod.fst) s₁ = .ok objectsDiv st') :
    ∃ made', objectsDiv = made'.map Prod.fst ∧ made'.map Prod.snd = made.map Prod.snd ∧
      sip.Ended path st listing made' st' := by
  rcases addObjectMetadata_ok h with ⟨rfl, rfl⟩ | ⟨div, amdID, hdiv, rfl, hstill, -⟩
  · exact ⟨made, rfl, rfl, hended⟩
  · cases hended with
    | missing => cases hdiv
    | @closed listing s₁ parentDmdID e hclosed =>
        obtain rfl := Option.some.inj hdiv
        refine ⟨some (e.set .admID amdID, parentDmdID), rfl, rfl, .closed (hclosed.later hstill ?_ ?_ ?_ ?_)⟩
        · obtain ⟨tag, attrib, children⟩ := e
          rfl
        · exact described_set_of_ne (by decide) _ _
        · obtain ⟨tag, attrib, children⟩ := e
          rfl
        · exact hclosed.brings.clear.set (by simp)

def Loop.addMade (loop : Loop) : Option (Xml × Str) → Loop
  | none => loop
  | some (div, parentDmdID) => loop.addDir div parentDmdID

theorem Loop.dmdID_addMade (loop : Loop) (made : Option (Xml × Str)) :
    (loop.addMade made).dmdID = Sip.parentDmdID loop.dmdID made := by
  cases made <;> rfl

theorem Loop.children_addMade (loop : Loop) (made : Option (Xml × Str)) :
    (loop.addMade made).children = loop.children ++ (made.map Prod.fst).toList := by
  cases made with
  | none => exact (List.append_nil _).symm
  | some m => rfl

theorem parentDmdID_congr {dmdID : Str} {made' : Option (Xml × Str)}
    (h : made'.map Prod.snd = made.map Prod.snd) : Sip.parentDmdID dmdID made' = Sip.parentDmdID dmdID made := by
  rcases made with _ | ⟨div, p⟩ <;> rcases made' with _ | ⟨div', p'⟩
  · rfl
  · cases h
  · cases h
  · obtain rfl : p' = p := Option.some.inj h
    rfl

-- The Dublin Core has a new identifier, whose section is in the document only.
theorem still_createDublincore {dc : Option Str} (h : sip.createDublincoreDMDSecFromDBData st = .ok dc st') :
    Still st st' ∧ st'.dmdSecIDs = st.dmdSecIDs ∧ dc.isSome = sip.hasDublinCore ∧
      ∀ d ∈ dc, Token d ∧ ¬ Old st d := by
  have hstill : ∀ (c : Kind → Nat) (n : Nat), st.counter .dmdSec ≤ c .dmdSec →
      Still st { st with counter := c, errorCount := st.errorCount + n } := fun c n hc =>
    ⟨hc, fun _ ho => ho, fun _ _ h => h, fun hknown m href => (still_of_counter hc).old (hknown m href)⟩
  have hnew : ∀ {s : MetsState} {id : Str}, count .dmdSec s = .ok id st' → s.counter = st.counter →
      ∃ c, st.counter .dmdSec ≤ c .dmdSec ∧ st' = { s with counter := c } ∧ Token id ∧ ¬ Old st id := by
    intro s id hcount hs
    obtain ⟨rfl, c, hc, rfl⟩ := count_dmdSec_ok hcount
    rw [hs] at hc ⊢
    refine ⟨c, by omega, rfl, Kind.token_ident _ _, ?_⟩
    rintro ⟨m, hm, hid⟩
    obtain ⟨-, rfl⟩ := Kind.ident_inj _ _ _ _ hid
    omega
  rw [createDublincoreDMDSecFromDBData] at h
  rw [hasDublinCore]
  cases hrow : sip.dublinCore with
  | true =>
      rw [hrow, if_pos rfl] at h
      obtain ⟨id, s₁, hcount, h⟩ := bind_ok_iff.mp h
      obtain ⟨rfl, rfl⟩ := pure_ok_iff.mp h
      obtain ⟨c, hc, rfl, hid⟩ := hnew hcount rfl
      exact ⟨hstill c 0 hc, rfl, rfl, by simpa using hid⟩
  | false =>
      rw [hrow, if_neg Bool.false_ne_true] at h
      obtain ⟨u, s₁, hmodify, h⟩ := bind_ok_iff.mp h
      obtain rfl := modify_ok_iff.mp hmodify
      cases hfile : sip.dublinCoreFiles.any id with
      | true =>
          rw [hfile, if_pos rfl] at h
          obtain ⟨id, s₂, hcount, h⟩ := bind_ok_iff.mp h
          obtain ⟨rfl, rfl⟩ := pure_ok_iff.mp h
          obtain ⟨c, hc, rfl, hid⟩ := hnew hcount rfl
          exact ⟨hstill c _ hc, rfl, rfl, by simpa using hid⟩
      | false =>
          rw [hfile, if_neg Bool.false_ne_true] at h
          obtain ⟨rfl, rfl⟩ := pure_ok_iff.mp h
          exact ⟨hstill st.counter _ (Nat.le_refl _), rfl, rfl, by simp⟩

-- The DMDIDs of the objects when Dublin Core and Dataverse are set on them.
theorem of_described_setDublinCore {dc : Option Str} {id : Str} (h : id ∈ described (setDublinCore dc div)) :
    (∃ d ∈ dc, id ∈ tokens d) ∨ (∃ c ∈ div.children, id ∈ described c) ∨ dc = none ∧ id ∈ described div := by
  cases dc with
  | none => exact Or.inr (Or.inr ⟨rfl, h⟩)
  | some d =>
      obtain ⟨tag, attrib, children⟩ := div
      rw [setDublinCore, Element.set, mem_described_mk] at h
      rcases h with hown | hchild
      · refine Or.inl ⟨d, rfl, ?_⟩
        unfold ownDescribed at hown
        split_ifs at hown
        · rwa [Dict.get?_set, if_pos rfl] at hown
        · cases hown
      · exact Or.inr (Or.inl hchild)

theorem of_described_addDataverse {objectsDiv objectsDiv' : Option Xml} {ids : List Str}
    (hclear : ∀ d ∈ objectsDiv, d.tag = .div ∧ Clear d)
    (h : addDataverse objectsDiv ids st = .ok objectsDiv' st') :
    ∀ d' ∈ objectsDiv', Clear d' ∧
      ∀ id ∈ described d', (∃ d ∈ objectsDiv, id ∈ described d) ∨ ∃ i ∈ ids, id ∈ tokens i := by
  induction ids generalizing objectsDiv with
  | nil =>
      obtain ⟨rfl, -⟩ := pure_ok_iff.mp h
      exact fun d hd => ⟨(hclear d hd).2, fun id hid => Or.inl ⟨d, hd, hid⟩⟩
  | cons i ids ih =>
      cases objectsDiv with
      | none => exact absurd h throw_ne_ok
      | some div =>
          rw [addDataverse] at h
          obtain ⟨htag, hdiv⟩ := hclear div rfl
          have hset : ∀ id ∈ described (div.set .dmdID ((div.get .dmdID).getD [] ++ ' ' :: i)),
              id ∈ described div ∨ id ∈ tokens i := by
            intro id hid
            obtain ⟨tag, attrib, children⟩ := div
            rw [Element.set, mem_described_mk] at hid
            rw [mem_described_mk]
            rcases hid with hown | hchild
            · unfold ownDescribed at hown ⊢
              split_ifs at hown ⊢
              · rw [Dict.get?_set, if_pos rfl, Option.getD_some, tokens_append_space] at hown
                exact (List.mem_append.mp hown).imp_left Or.inl
              · cases hown
            · exact Or.inl (Or.inr hchild)
          intro d' hd'
          obtain ⟨hmade, honly⟩ := ih (by
            rintro d ⟨⟩
            exact ⟨(tag_get_set (by decide : Attr.dmdID ≠ .id) _ _).1.trans htag, hdiv.set fun _ => htag⟩) h d' hd'
          refine ⟨hmade, fun id hid => ?_⟩
          rcases honly id hid with ⟨d, hd, hid⟩ | ⟨j, hj, hid⟩
          · obtain rfl := Option.some.inj hd
            exact (hset id hid).imp (fun hid => ⟨div, rfl, hid⟩) fun hid => ⟨i, List.mem_cons_self, hid⟩
          · exact Or.inr ⟨j, List.mem_cons_of_mem _ hj, hid⟩

theorem Ended.exists_closed (h : sip.Ended path st (some listing) made st') :
    ∃ div parentDmdID, made = some (div, parentDmdID) ∧ sip.Closed path listing st st' parentDmdID div := by
  cases h with
  | closed hclosed => exact ⟨_, _, rfl, hclosed⟩

theorem Ended.eq_none (h : sip.Ended path st none made st') : made = none ∧ st = st' := by
  cases h with
  | missing => exact ⟨rfl, rfl⟩

-- What is made is new.
theorem Ended.not_old {sub : Option Listing} (h : sip.Ended path st sub made st') {id : Str} (hold : Old st id) :
    ∀ m ∈ made, id ∉ described m.1 ∧ id ∉ tokens m.2 := by
  cases h with
  | missing => simp
  | closed hclosed =>
      rintro m ⟨⟩
      exact ⟨hclosed.brings.not_old hold, fun hid => (hclosed.brings.given id hid).1 hold⟩

theorem Ended.clear {sub : Option Listing} (h : sip.Ended path st sub made st') :
    ∀ m ∈ made, m.1.tag = .div ∧ Clear m.1 := by
  cases h with
  | missing => simp
  | closed hclosed =>
      rintro m ⟨⟩
      exact ⟨hclosed.tag, hclosed.brings.clear⟩

theorem Ended.still {sub : Option Listing} (h : sip.Ended path st sub made st') : Still st st' := by
  cases h with
  | missing => exact Still.refl st
  | closed hclosed => exact hclosed.still

-- A section of the document that no div, no file and no section refers to.
def Orphan (sip : Sip) (st st' : MetsState) (sipDiv : Xml) : Prop :=
  ∃ id, (id ∈ st'.dmdSecIDs ∨ id ∈ sip.dataverse) ∧
    (¬ Token id ∨ ¬ Old st id ∧ Old st' id ∧ id ∉ described sipDiv ∧ ¬ Refers st' id)

-- The div of the SIP is like that of a directory with two in it.
def top (aipDmdID : Str) : Loop := ⟨[], aipDmdID, [], [], []⟩

def withDir (name : Str) (sub : Option Listing) (rest : Listing) : Listing := sub.elim rest (.dir name · rest)

def listed (sip : Sip) : Listing :=
  withDir "objects".toList sip.objects (withDir "metadata".toList sip.metadata .nil)

section WithDir

variable (path name : Str) (sub : Option Listing) (rest : Listing)

theorem visits_withDir : (withDir name sub rest).visits path = dirVisits (join path name) sub ++ rest.visits path := by
  cases sub <;> rfl

theorem separate_withDir : sip.Separate path (withDir name sub rest) ↔
    (∀ l ∈ sub, sip.Single (join path name) l ∧ sip.Separate (join path name) l) ∧ sip.Separate path rest := by
  cases sub with
  | none => simp [withDir]
  | some l =>
      rw [withDir, Option.elim_some, Separate, ← and_assoc]
      refine and_congr_left fun _ => ⟨?_, fun h => h l rfl⟩
      rintro h l ⟨⟩
      exact h

theorem countDirs_withDir : (withDir name sub rest).countDirs sip.dirSetsAbove path =
    (if sip.dirSets (join path name) sub then 1 else 0) + rest.countDirs sip.dirSetsAbove path := by
  cases sub with
  | none => exact (Nat.zero_add _).symm
  | some l => rfl

end WithDir

theorem Ended.walked {name : Str} {sub : Option Listing} {rest : Listing}
    (h : sip.Ended (join path name) st sub made s₁) (hknown : Known st) (hapart : loop.Apart st)
    (hrest : Known s₁ → (loop.addMade made).Apart s₁ →
      sip.Walked path rest (loop.addMade made) done s₁ st') :
    sip.Walked path (withDir name sub rest) loop done st st' := by
  cases h with
  | missing => exact hrest hknown hapart
  | closed hclosed => exact hclosed.walked hknown hapart hrest

-- How the div of the SIP comes about.
structure Topped (sip : Sip) (st s₁ s₃ s₄ st' : MetsState) (aipDmdID : Str) (objects metadata : Option (Xml × Str))
    (dc : Option Str) (sipDiv : Xml) : Prop where
  still : Still st s₁
  known : Known s₁
  begun : Loop.Apart s₁ (top aipDmdID)
  fresh : ∀ id, (top aipDmdID).Holds id → ¬ Old st id
  row : aipDmdID ≠ [] ↔ sip.sipRow = true
  atObjects : sip.Ended (join sip.base "objects".toList) s₁ sip.objects objects s₃
  atMetadata : sip.Ended (join sip.base "metadata".toList) s₃ sip.metadata metadata s₄
  rest : Still s₄ st'
  sections : st'.dmdSecIDs = s₄.dmdSecIDs
  dublinCore : dc.isSome = sip.hasDublinCore
  new : ∀ d ∈ dc, Token d ∧ ¬ Old s₄ d
  -- what the script gave is on the div from one of these
  described : ∀ id, Old st' id → id ∈ Mets.described sipDiv →
    (dc = none ∨ objects.isSome) ∧ id ∈ tokens (Sip.parentDmdID (Sip.parentDmdID aipDmdID objects) metadata) ∨
      id ∈ dc ∨ (∃ m ∈ objects, (∃ c ∈ m.1.children, id ∈ Mets.described c) ∨
        dc = none ∧ id ∈ Mets.described m.1) ∨ ∃ m ∈ metadata, id ∈ Mets.described m.1

section Topped

variable {s₃ s₄ : MetsState} {aipDmdID : Str} {objects metadata : Option (Xml × Str)} {dc : Option Str}
  {sipDiv : Xml}

theorem Topped.walked (h : sip.Topped st s₁ s₃ s₄ st' aipDmdID objects metadata dc sipDiv) :
    sip.Walked sip.base sip.listed (top aipDmdID) (((top aipDmdID).addMade objects).addMade metadata) s₁ s₄ :=
  h.atObjects.walked h.known h.begun fun hknown hapart =>
    h.atMetadata.walked hknown hapart fun _ hapart => walked_nil hapart

theorem Topped.held (h : sip.Topped st s₁ s₃ s₄ st' aipDmdID objects metadata dc sipDiv) {id : Str}
    (hold : Old s₄ id) (hid : id ∈ Mets.described sipDiv) :
    (((top aipDmdID).addMade objects).addMade metadata).Holds id := by
  have hchildren : ∀ {made : Option (Xml × Str)}, made = objects ∨ made = metadata →
      (∃ m ∈ made, id ∈ Mets.described m.1) → (((top aipDmdID).addMade objects).addMade metadata).Holds id := by
    rintro made hmade ⟨m, hm, hid⟩
    refine Or.inl ⟨m.1, ?_, hid⟩
    rw [Loop.children_addMade, Loop.children_addMade, top, List.nil_append, List.mem_append, Option.mem_toList,
      Option.mem_toList]
    rcases hmade with rfl | rfl
    · exact Or.inl (Option.mem_map_of_mem _ hm)
    · exact Or.inr (Option.mem_map_of_mem _ hm)
  rcases h.described id (h.rest.old hold) hid with ⟨-, hid⟩ | hdc | ⟨m, hm, hid⟩ | hid
  · refine Loop.holds_iff.mpr (Or.inr ⟨.own, ?_⟩)
    rwa [Loop.slot, Loop.dmdID_addMade, Loop.dmdID_addMade]
  · exact absurd hold (h.new id hdc).2
  · refine hchildren (Or.inl rfl) ⟨m, hm, ?_⟩
    rcases hid with hid | ⟨-, hid⟩
    · obtain ⟨⟨tag, attrib, children⟩, p⟩ := m
      exact mem_described_mk.mpr (Or.inr hid)
    · exact hid
  · exact hchildren (Or.inr rfl) hid

theorem Topped.orphan_of_lost (h : sip.Topped st s₁ s₃ s₄ st' aipDmdID objects metadata dc sipDiv)
    (hlost : Lost ((top aipDmdID).Source s₁) s₄ (((top aipDmdID).addMade objects).addMade metadata).Holds) :
    sip.Orphan st st' sipDiv := by
  obtain ⟨id, hsection, hid⟩ := hlost
  refine ⟨id, Or.inl (h.sections ▸ hsection), hid.imp_right ?_⟩
  rintro ⟨hsource, hold, hheld, href⟩
  refine ⟨fun hfirst => ?_, h.rest.old hold, fun hin => hheld (h.held hold hin),
    fun hin => href (h.rest.refers id hold hin)⟩
  rcases hsource with hnew | htop
  · exact hnew (h.still.old hfirst)
  · exact h.fresh id htop hfirst

theorem of_mem_parentDmdID {dmdID id : Str} (h : id ∈ tokens (Sip.parentDmdID dmdID made)) :
    id ∈ tokens dmdID ∨ ∃ m ∈ made, id ∈ tokens m.2 := by
  cases made with
  | none => exact Or.inl h
  | some m =>
      dsimp only [Sip.parentDmdID] at h
      split_ifs at h
      · exact Or.inl h
      · exact Or.inr ⟨m, rfl, h⟩

-- The Dublin Core replaces what the objects have.
theorem Topped.orphan_objects (h : sip.Topped st s₁ s₃ s₄ st' aipDmdID objects metadata dc sipDiv)
    (hdc : sip.hasDublinCore = true)
    (hset : sip.dirDescribed (join sip.base "objects".toList) sip.objects = true) : sip.Orphan st st' sipDiv := by
  have hsome : dc ≠ none := Option.isSome_iff_ne_none.mp (h.dublinCore.trans hdc)
  cases hobjects : sip.objects with
  | none =>
      rw [hobjects] at hset
      cases hset
  | some l =>
      have hended := h.atObjects
      rw [hobjects] at hset hended
      rw [dirDescribed, Option.any_some, decide_eq_true_iff] at hset
      obtain ⟨div, p, rfl, hclosed⟩ := hended.exists_closed
      obtain ⟨t, hsection, hnew, hold, href, habove, hbelow⟩ := hclosed.own hset
      have hstill := h.atMetadata.still.trans h.rest
      refine ⟨t, Or.inl (h.sections ▸ h.atMetadata.still.sections _ hsection),
        Or.inr ⟨fun hfirst => hnew (h.still.old hfirst), hstill.old hold, fun hin => ?_,
          fun hin => href (hstill.refers t hold hin)⟩⟩
      have hlast := h.atMetadata.not_old hold
      rcases h.described t (hstill.old hold) hin with ⟨-, hin⟩ | hin | ⟨m, hm, hin⟩ | ⟨m, hm, hin⟩
      · rcases of_mem_parentDmdID hin with hin | ⟨m, hm, hin⟩
        · rcases of_mem_parentDmdID hin with hin | ⟨m, hm, hin⟩
          · exact hnew (h.begun.given .own t hin).1
          · obtain rfl := Option.some.inj hm
            exact habove hin
        · exact (hlast m hm).2 hin
      · exact (h.new t hin).2 (h.atMetadata.still.old hold)
      · obtain rfl := Option.some.inj hm
        rcases hin with ⟨c, hc, hin⟩ | ⟨hnone, -⟩
        · exact hbelow c hc hin
        · exact hsome hnone
      · exact (hlast m hm).1 hin

-- Without objects it replaces what the SIP has.
theorem Topped.orphan_sip (h : sip.Topped st s₁ s₃ s₄ st' aipDmdID objects metadata dc sipDiv)
    (hdc : sip.hasDublinCore = true) (hnone : sip.objects = none)
    (hset : sip.sipRow = true ∨ sip.dirSets (join sip.base "metadata".toList) sip.metadata = true) :
    sip.Orphan st st' sipDiv := by
  have hsome : dc ≠ none := Option.isSome_iff_ne_none.mp (h.dublinCore.trans hdc)
  have hwalked := h.walked
  have hended := h.atObjects
  rw [hnone] at hended
  obtain ⟨rfl, rfl⟩ := hended.eq_none
  have hcounts : sip.dirSets (join sip.base "metadata".toList) sip.metadata = true →
      sip.counts sip.base sip.listed .own ≠ 0 := by
    intro hset
    rw [counts, listed, countDirs_withDir, countDirs_withDir, if_pos hset]
    omega
  have hfull : (((top aipDmdID).addMade none).addMade metadata).slot .own ≠ [] := by
    refine (hwalked.slots .own).mpr (hset.imp (fun hrow => ?_) hcounts)
    exact h.row.mpr hrow
  obtain ⟨t, ht⟩ := List.exists_mem_of_ne_nil _ (hwalked.apart.filled .own hfull)
  obtain ⟨hold, hsection⟩ := hwalked.apart.given .own t ht
  obtain ⟨href, hbelow⟩ := hwalked.apart.alone .own t ht
  refine ⟨t, Or.inl (h.sections ▸ hsection), Or.inr ⟨fun hfirst => ?_, h.rest.old hold, fun hin => ?_,
    fun hin => href (h.rest.refers t hold hin)⟩⟩
  · refine h.fresh t (hwalked.holds t (h.still.old hfirst) ?_) hfirst
    exact Loop.holds_iff.mpr (Or.inr ⟨.own, ht⟩)
  · rcases h.described t (h.rest.old hold) hin with ⟨hno, -⟩ | hin | ⟨m, hm, -⟩ | ⟨m, hm, hin⟩
    · rcases hno with hno | hno
      · exact hsome hno
      · cases hno
    · exact (h.new t hin).2 hold
    · cases hm
    · refine hbelow m.1 ?_ hin
      rw [Loop.children_addMade, List.mem_append, Option.mem_toList]
      exact Or.inr (Option.mem_map_of_mem _ hm)

theorem Topped.orphan_or_oneSource (h : sip.Topped st s₁ s₃ s₄ st' aipDmdID objects metadata dc sipDiv) :
    sip.Orphan st st' sipDiv ∨ sip.OneSource := by
  rcases h.walked.outcome with hlost | ⟨hfits, hseparate, hjoined⟩
  · exact Or.inl (h.orphan_of_lost hlost)
  · rw [listed, separate_withDir, separate_withDir] at hseparate
    by_cases hobjects : sip.hasDublinCore = true ∧
        sip.dirDescribed (join sip.base "objects".toList) sip.objects = true
    · exact Or.inl (h.orphan_objects hobjects.1 hobjects.2)
    · by_cases hsip : sip.hasDublinCore = true ∧ sip.objects = none ∧
          (sip.sipRow = true ∨ sip.dirSets (join sip.base "metadata".toList) sip.metadata = true)
      · exact Or.inl (h.orphan_sip hsip.1 hsip.2.1 hsip.2.2)
      · by_cases htoken : ∀ id ∈ sip.dataverse, Token id
        · refine Or.inr ⟨?_, ?_, ?_, ?_, fun hdc => ⟨?_, fun hnone => ?_⟩, htoken⟩
          · rwa [listed, visits_withDir, visits_withDir, Listing.visits, List.append_nil] at hjoined
          · exact hseparate.1
          · exact hseparate.2.1
          · have hfit := hfits .own
            rw [counts, listed, countDirs_withDir, countDirs_withDir, Listing.countDirs, Nat.add_zero] at hfit
            have hsame : (if sip.sipRow then 1 else 0) = if aipDmdID = [] then 0 else 1 := by
              by_cases hnil : aipDmdID = []
              · rw [if_pos hnil, if_neg (h.row.not.mp (not_not.mpr hnil))]
              · rw [if_neg hnil, if_pos (h.row.mp hnil)]
            rw [hsame]
            exact hfit
          · exact Bool.not_eq_true _ ▸ fun hset => hobjects ⟨hdc, hset⟩
          · have hno : ¬ (sip.sipRow = true ∨ sip.dirSets (join sip.base "metadata".toList) sip.metadata = true) :=
              fun hset => hsip ⟨hdc, hnone, hset⟩
            simpa only [not_or, Bool.not_eq_true] using hno
        · simp only [not_forall] at htoken
          obtain ⟨id, hid, hnot⟩ := htoken
          exact Or.inl ⟨id, Or.inr hid, Or.inl hnot⟩

end Topped

end Sip

end Ccp.Worker.Mets
