import Ccp.Worker.Mets.Given

namespace Ccp.Worker.Mets

open Lib PosixPath Lib.Calls MetsState

-- Only a div or a file has a DMDID.
def Clear (e : Xml) : Prop := ∀ d ∈ e.iter, (d.get .dmdID).isSome → d.tag = .div ∨ d.tag = .file

theorem clear_mk_iff {tag : Tag} {attrib : Dict Attr Str} {children : List Xml} :
    Clear (.mk tag attrib children) ↔
      ((Dict.get? attrib .dmdID).isSome → tag = .div ∨ tag = .file) ∧ ∀ c ∈ children, Clear c := by
  rw [Clear, Element.iter_mk, List.forall_mem_cons]
  refine and_congr Iff.rfl ⟨fun h c hc d hd => ?_, fun h d hd => ?_⟩
  · exact h d (List.mem_flatMap.mpr ⟨c, hc, hd⟩)
  · obtain ⟨c, hc, hd⟩ := List.mem_flatMap.mp hd
    exact h c hc d hd

theorem clear_div {attrib : Dict Attr Str} {children : List Xml} (h : ∀ c ∈ children, Clear c) :
    Clear (.mk .div attrib children) := clear_mk_iff.mpr ⟨fun _ => Or.inl rfl, h⟩

theorem clear_of_none {tag : Tag} {attrib : Dict Attr Str} {children : List Xml}
    (hnone : Dict.get? attrib .dmdID = none) (h : ∀ c ∈ children, Clear c) : Clear (.mk tag attrib children) := by
  refine clear_mk_iff.mpr ⟨fun hsome => ?_, h⟩
  rw [hnone] at hsome
  cases hsome

theorem Clear.described {e : Xml} {v t : Str} (h : Clear e) (hv : v ∈ e.values .dmdID) (ht : t ∈ tokens v) :
    t ∈ Mets.described e := by
  obtain ⟨d, hd, hget⟩ := List.mem_filterMap.mp hv
  have hdmdID : Dict.get? d.attrib .dmdID = some v := hget
  refine List.mem_flatMap.mpr ⟨d, hd, ?_⟩
  rwa [ownDescribed, if_pos (h d hd (Option.isSome_of_mem hget)), hdmdID]

namespace Sip

-- What the turns for a directory have in hand for a DMDID: that of its own div, that of
-- the div above and that of the original files here.
inductive Slot
  | own | above | here
deriving DecidableEq

def Loop.slot (loop : Loop) : Slot → Str
  | .own => loop.dmdID
  | .above => loop.parentDmdID
  | .here => loop.dspaceMetsDMDID

theorem Loop.holds_iff {loop : Loop} {id : Str} :
    loop.Holds id ↔ (∃ c ∈ loop.children, id ∈ described c) ∨ ∃ s, id ∈ tokens (loop.slot s) := by
  rw [Holds]
  refine or_congr_right ⟨?_, ?_⟩
  · rintro (h | h | h)
    · exact ⟨.own, h⟩
    · exact ⟨.above, h⟩
    · exact ⟨.here, h⟩
  · rintro ⟨s, h⟩
    cases s with
    | own => exact Or.inl h
    | above => exact Or.inr (Or.inl h)
    | here => exact Or.inr (Or.inr h)

-- What can be lost in a call: what it gives, and what was in hand for it.
def Loop.Source (st : MetsState) (loop : Loop) (id : Str) : Prop := ¬ Old st id ∨ loop.Holds id

-- A section has an identifier that is none, or one that has no place and is not in
-- hand any more.
def Lost (source : Str → Prop) (st : MetsState) (held : Str → Prop) : Prop :=
  ∃ id, id ∈ st.dmdSecIDs ∧ (¬ Token id ∨ source id ∧ Old st id ∧ ¬ held id ∧ ¬ Refers st id)

variable {sip : Sip} {st st' : MetsState} {source source' held held' : Str → Prop} {loop made : Loop} {div : Xml}
  {ids : Str} {sets : Slot → Bool}

theorem Lost.later (h : Lost source st held) (hstill : Still st st')
    (hback : ∀ id, Old st id → held' id → held id) : Lost source st' held' := by
  obtain ⟨id, hsection, hid⟩ := h
  refine ⟨id, hstill.sections _ hsection, hid.imp_right ?_⟩
  rintro ⟨hsource, hold, hheld, href⟩
  exact ⟨hsource, hstill.old hold, fun h => hheld (hback id hold h),
    fun h => href (hstill.refers id hold h)⟩

theorem Lost.mono (h : Lost source st held) (hsource : ∀ id, source id → source' id) :
    Lost source' st held := by
  obtain ⟨id, hsection, hid⟩ := h
  exact ⟨id, hsection, hid.imp_right fun hid => ⟨hsource id hid.1, hid.2⟩⟩

-- What is in hand was given for it, and each identifier is in one place.
structure Loop.Apart (st : MetsState) (loop : Loop) : Prop where
  clear : ∀ c ∈ loop.children, Clear c
  known : ∀ c ∈ loop.children, ∀ n, Kind.dmdSec.ident n ∈ described c → Old st (Kind.dmdSec.ident n)
  given : ∀ s, ∀ t ∈ tokens (loop.slot s), Old st t ∧ t ∈ st.dmdSecIDs
  filled : ∀ s, loop.slot s ≠ [] → tokens (loop.slot s) ≠ []
  alone : ∀ s, ∀ t ∈ tokens (loop.slot s), ¬ Refers st t ∧ ∀ c ∈ loop.children, t ∉ described c
  disjoint : ∀ s s', s ≠ s' → (tokens (loop.slot s)).Disjoint (tokens (loop.slot s'))

-- What a file or a directory brings between two states: a div, and identifiers for a
-- slot.
structure Brings (st st' : MetsState) (ids : Str) (div : Xml) : Prop where
  clear : Clear div
  described : ∀ n, Kind.dmdSec.ident n ∈ Mets.described div →
    ¬ Old st (Kind.dmdSec.ident n) ∧ Old st' (Kind.dmdSec.ident n)
  given : Given st st' (tokens ids)
  apart : ∀ t ∈ tokens ids, t ∉ Mets.described div

structure Turn (sets : Slot → Bool) (ids : Str) (div : Xml) (loop made : Loop) : Prop where
  children : made.children = loop.children ++ [div]
  slots : ∀ s, made.slot s = if sets s then ids else loop.slot s
  one : ∀ s s', sets s = true → sets s' = true → s = s'
  filled : ∀ s, sets s = true → tokens ids ≠ []

theorem Brings.not_old (h : Brings st st' ids div) {t : Str} (hold : Old st t) : t ∉ Mets.described div := by
  obtain ⟨n, hn, rfl⟩ := hold
  exact fun ht => (h.described n ht).1 ⟨n, hn, rfl⟩

theorem Loop.Apart.not_given (h : loop.Apart st) (hgiven : Given st st' (tokens ids)) {t : Str}
    (ht : t ∈ tokens ids) : ∀ c ∈ loop.children, t ∉ described c := by
  intro c hc hin
  obtain ⟨hnew, ⟨n, hn, rfl⟩, -⟩ := hgiven t ht
  exact hnew (h.known c hc n hin)

theorem Loop.Apart.turn (h : loop.Apart st) (hknown : Known st) (hstill : Still st st')
    (hbrings : Brings st st' ids div) (hturn : Turn sets ids div loop made) : made.Apart st' where
  clear c hc := by
    rw [hturn.children, List.mem_append, List.mem_singleton] at hc
    rcases hc with hc | rfl
    · exact h.clear c hc
    · exact hbrings.clear
  known c hc n hid := by
    rw [hturn.children, List.mem_append, List.mem_singleton] at hc
    rcases hc with hc | rfl
    · exact hstill.old (h.known c hc n hid)
    · exact (hbrings.described n hid).2
  given s t ht := by
    rw [hturn.slots s] at ht
    split_ifs at ht
    · obtain ⟨-, hold, hsection, -⟩ := hbrings.given t ht
      exact ⟨hold, hsection⟩
    · obtain ⟨hold, hsection⟩ := h.given s t ht
      exact ⟨hstill.old hold, hstill.sections _ hsection⟩
  filled s hne := by
    rw [hturn.slots s] at hne ⊢
    split_ifs at hne ⊢ with hset
    · exact hturn.filled s hset
    · exact h.filled s hne
  alone s t ht := by
    rw [hturn.slots s] at ht
    rw [hturn.children]
    simp only [List.mem_append, List.mem_singleton]
    split_ifs at ht
    · obtain ⟨-, -, -, hplace⟩ := hbrings.given t ht
      refine ⟨hplace hknown, ?_⟩
      rintro c (hc | rfl)
      · exact h.not_given hbrings.given ht c hc
      · exact hbrings.apart t ht
    · obtain ⟨hold, -⟩ := h.given s t ht
      refine ⟨fun href => (h.alone s t ht).1 (hstill.refers t hold href), ?_⟩
      rintro c (hc | rfl)
      · exact (h.alone s t ht).2 c hc
      · exact hbrings.not_old hold
  disjoint s s' hne t ht ht' := by
    rw [hturn.slots s] at ht
    rw [hturn.slots s'] at ht'
    split_ifs at ht ht' with hset hset' hset'
    · exact hne (hturn.one s s' hset hset')
    · exact (hbrings.given t ht).1 (h.given s' t ht').1
    · exact (hbrings.given t ht').1 (h.given s t ht).1
    · exact h.disjoint s s' hne ht ht'

-- Nothing that was given comes to hand anew.
theorem Turn.holds (hturn : Turn sets ids div loop made) (hbrings : Brings st st' ids div) {id : Str}
    (hold : Old st id) (hid : made.Holds id) : loop.Holds id := by
  rw [Loop.holds_iff] at hid ⊢
  rcases hid with ⟨c, hc, hid⟩ | ⟨s, hid⟩
  · rw [hturn.children, List.mem_append, List.mem_singleton] at hc
    rcases hc with hc | rfl
    · exact Or.inl ⟨c, hc, hid⟩
    · exact absurd hid (hbrings.not_old hold)
  · rw [hturn.slots s] at hid
    split_ifs at hid
    · exact absurd hold (hbrings.given id hid).1
    · exact Or.inr ⟨s, hid⟩

-- What was in a slot is lost where something else is set.
theorem Turn.replaces (hturn : Turn sets ids div loop made) (h : loop.Apart st) (hstill : Still st st')
    (hbrings : Brings st st' ids div) {s : Slot} (hset : sets s = true) (hne : loop.slot s ≠ []) :
    Lost (loop.Source st) st' made.Holds := by
  obtain ⟨t, ht⟩ := List.exists_mem_of_ne_nil _ (h.filled s hne)
  obtain ⟨hold, hsection⟩ := h.given s t ht
  obtain ⟨href, hchildren⟩ := h.alone s t ht
  refine ⟨t, hstill.sections _ hsection, Or.inr ⟨Or.inr (Loop.holds_iff.mpr (Or.inr ⟨s, ht⟩)),
    hstill.old hold, fun hheld => ?_, fun hplace => href (hstill.refers t hold hplace)⟩⟩
  rcases Loop.holds_iff.mp hheld with ⟨c, hc, hid⟩ | ⟨s', hid⟩
  · rw [hturn.children, List.mem_append, List.mem_singleton] at hc
    rcases hc with hc | rfl
    · exact hchildren c hc hid
    · exact hbrings.not_old hold hid
  · rw [hturn.slots s'] at hid
    split_ifs at hid with hset'
    · exact (hbrings.given t hid).1 hold
    · refine h.disjoint s s' ?_ ht hid
      rintro rfl
      exact hset' hset

-- An identifier that is made between two states and is in none of the places.
def Dropped (st st' : MetsState) (ids : Str) (div : Xml) : Prop :=
  ∃ id, id ∈ st'.dmdSecIDs ∧
    (¬ Token id ∨ ¬ Old st id ∧ Old st' id ∧ id ∉ described div ∧ id ∉ tokens ids ∧
      (Known st → ¬ Refers st' id))

theorem Turn.lost_of_dropped (hturn : Turn sets ids div loop made) (h : loop.Apart st) (hknown : Known st)
    (hdropped : Dropped st st' ids div) : Lost (loop.Source st) st' made.Holds := by
  obtain ⟨id, hsection, hid⟩ := hdropped
  refine ⟨id, hsection, hid.imp_right ?_⟩
  rintro ⟨hnew, hold, hdiv, hids, hplace⟩
  refine ⟨Or.inl hnew, hold, fun hheld => ?_, hplace hknown⟩
  rcases Loop.holds_iff.mp hheld with ⟨c, hc, hin⟩ | ⟨s, hin⟩
  · rw [hturn.children, List.mem_append, List.mem_singleton] at hc
    rcases hc with hc | rfl
    · obtain ⟨n, hn, rfl⟩ := hold
      exact hnew (h.known c hc n hin)
    · exact hdiv hin
  · rw [hturn.slots s] at hin
    split_ifs at hin
    · exact hids hin
    · exact hnew (h.given s id hin).1

end Sip

end Ccp.Worker.Mets
