import Ccp.Replacement

namespace Ccp.ReplacementMapping

open Lib

instance : Nontrivial Char := ⟨'a', 'b', by decide⟩

-- The simultaneous substitution of the mapping into a command whose places are
-- marked: the result in every order of the map, and in every turn of the loop
-- the places that are replaced are those the command had for the key.
structure Simultaneous (rm : ReplacementMapping) (input : Str) (t : List (Piece Char)) : Prop where
  places : text t = input
  result : ∀ order, GoMap.RangeOrder rm order →
    replaceValues order input = fill (fun k => (rm.lookup k).map Replacement.value) t
  turns : ∀ front key v back, GoMap.RangeOrder rm (front ++ ⟨key, v⟩ :: back) → input ≠ [] →
    ∀ new, replaceAll (replaceEach input (pairs front)) key new =
      fill (assign (pairs front ++ [(key, new)])) t

-- Whatever other keys have been filled in, the text is cut by a search for a key
-- at the places of that key.
def Apart (rm : ReplacementMapping) (t : List (Piece Char)) : Prop :=
  ∀ front key v, ((front ++ [⟨key, v⟩] : List (Σ _ : Str, Str)) : Multiset _) ≤ rm.entries →
    Separate (assign (pairs front)) t key

theorem assign_pairs {rm : ReplacementMapping} {order : List (Σ _ : Str, Str)}
    (h : GoMap.RangeOrder rm order) :
    assign (pairs order) = fun k => (rm.lookup k).map Replacement.value := by
  have hkeys : ((pairs order).map Prod.fst).Nodup := by
    have hnodup : order.NodupKeys := by
      have := rm.nodupKeys
      rwa [← h] at this
    simpa [pairs, List.map_map, Function.comp_def, List.NodupKeys, List.keys] using hnodup
  funext k
  ext v
  rw [assign_eq_some_iff hkeys, Option.map_eq_some_iff]
  simp only [pairs, List.mem_map, Prod.mk.injEq]
  constructor
  · rintro ⟨⟨k', w⟩, hin, rfl, rfl⟩
    refine ⟨w, ?_, rfl⟩
    have hentry : (⟨k', w⟩ : Σ _ : Str, Str) ∈ rm.entries := by
      rw [← h]
      exact Multiset.mem_coe.mpr hin
    exact Option.mem_def.mp (Finmap.mem_lookup_iff.mpr hentry)
  · rintro ⟨w, hw, rfl⟩
    have hentry : (⟨k, w⟩ : Σ _ : Str, Str) ∈ rm.entries := Finmap.mem_lookup_iff.mp hw
    rw [← h] at hentry
    exact ⟨⟨k, w⟩, Multiset.mem_coe.mp hentry, rfl, rfl⟩

-- Any selection of the entries comes first in some order of the map.
theorem exists_order {rm : ReplacementMapping} {front : List (Σ _ : Str, Str)}
    (h : (front : Multiset _) ≤ rm.entries) : ∃ back, GoMap.RangeOrder rm (front ++ back) := by
  obtain ⟨rest, hrest⟩ := Multiset.le_iff_exists_add.mp h
  obtain ⟨back, rfl⟩ := Quotient.exists_rep rest
  exact ⟨back, by rw [GoMap.RangeOrder, hrest, ← Multiset.coe_add]; rfl⟩

theorem separate_front {rm : ReplacementMapping} {t : List (Piece Char)} (h : Apart rm t)
    {front back : List (Σ _ : Str, Str)} {key v : Str}
    (horder : GoMap.RangeOrder rm (front ++ ⟨key, v⟩ :: back)) :
    Separate (assign (pairs front)) t key := by
  refine h front key v ?_
  have hsplit : front ++ ⟨key, v⟩ :: back = (front ++ [⟨key, v⟩]) ++ back := by simp
  rw [← horder, hsplit, ← Multiset.coe_add _ back]
  exact Multiset.le_add_right _ _

theorem replaceEach_front {rm : ReplacementMapping} {t : List (Piece Char)} (h : Apart rm t)
    {front back : List (Σ _ : Str, Str)} (horder : GoMap.RangeOrder rm (front ++ back)) :
    replaceEach (text t) (pairs front) = fill (assign (pairs front)) t := by
  refine replaceEach_eq_fill fun start e rest hsplit => ?_
  obtain ⟨first, last, rfl, rfl, hlast⟩ := List.map_eq_append_iff.mp hsplit
  obtain ⟨⟨key, v⟩, rest, rfl, rfl, rfl⟩ := List.map_eq_cons_iff.mp hlast
  rw [List.append_assoc, List.cons_append] at horder
  exact separate_front h horder

theorem simultaneous_of_apart {rm : ReplacementMapping} {t : List (Piece Char)}
    (h : Apart rm t) (hne : text t ≠ []) : Simultaneous rm (text t) t := by
  refine ⟨rfl, fun order horder => ?_, fun front key v back horder _ new => ?_⟩
  · have hall := @replaceEach_front rm t h order [] (by simpa using horder)
    rw [replaceValues, if_neg hne, hall, assign_pairs horder]
  · rw [replaceEach_front h horder, assign_concat]
    exact separate_iff.mp (separate_front h horder) new

-- The turns of one order give the state before each turn, and with it what the
-- key of the turn is found at.
theorem Simultaneous.replaceEach_front {rm : ReplacementMapping} {input : Str}
    {t : List (Piece Char)} (h : Simultaneous rm input t) (hne : input ≠ [])
    {front back : List (Σ _ : Str, Str)} (horder : GoMap.RangeOrder rm (front ++ back)) :
    replaceEach input (pairs front) = fill (assign (pairs front)) t := by
  cases front using List.reverseRecOn with
  | nil => exact h.places.symm
  | append_singleton front e =>
      obtain ⟨key, v⟩ := e
      rw [List.append_assoc] at horder
      have hturn := h.turns front key v back horder hne (Replacement.value v)
      rw [← replaceEach_concat] at hturn
      simpa [pairs] using hturn

theorem apart_of_simultaneous {rm : ReplacementMapping} {input : Str} {t : List (Piece Char)}
    (h : Simultaneous rm input t) (hne : input ≠ []) : Apart rm t := by
  intro front key v hle
  obtain ⟨back, horder⟩ := exists_order hle
  rw [List.append_assoc] at horder
  refine separate_iff.mpr fun new => ?_
  rw [← assign_concat, ← h.turns front key v back horder hne new,
    h.replaceEach_front hne horder]

theorem replaceValues_simultaneous_iff (rm : ReplacementMapping) (input : Str) :
    (∃ t, Simultaneous rm input t) ↔ input = [] ∨ ∃ t, text t = input ∧ Apart rm t := by
  by_cases hne : input = []
  · subst hne
    refine ⟨fun _ => Or.inl rfl, fun _ => ⟨[], rfl, fun order _ => rfl, ?_⟩⟩
    exact fun _ _ _ _ _ habsurd => absurd rfl habsurd
  · constructor
    · rintro ⟨t, ht⟩
      exact Or.inr ⟨t, ht.places, apart_of_simultaneous ht hne⟩
    · rintro (hempty | ⟨t, rfl, happart⟩)
      · exact absurd hempty hne
      · exact ⟨t, simultaneous_of_apart happart hne⟩

-- A transfer whose name is the placeholder of another value.
def misnamed : ReplacementMapping :=
  (Finmap.singleton "%SIPUUID%".toList "5be85dd4".toList).insert
    "%SIPName%".toList "%SIPUUID%".toList

theorem order_changes_result :
    ∃ order order', GoMap.RangeOrder misnamed order ∧ GoMap.RangeOrder misnamed order' ∧
      replaceValues order "%SIPName%".toList ≠ replaceValues order' "%SIPName%".toList := by
  refine ⟨[⟨"%SIPName%".toList, "%SIPUUID%".toList⟩, ⟨"%SIPUUID%".toList, "5be85dd4".toList⟩],
    [⟨"%SIPUUID%".toList, "5be85dd4".toList⟩, ⟨"%SIPName%".toList, "%SIPUUID%".toList⟩], ?_, ?_, ?_⟩
  · decide
  · decide
  · decide

end Ccp.ReplacementMapping
