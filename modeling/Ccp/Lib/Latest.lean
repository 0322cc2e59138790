import Mathlib.Data.List.Sort

namespace Ccp.Lib

-- Elements that are sorted by a key and looked at from the end on.

variable {α κ : Type*} [LinearOrder κ] (key : α → κ)

def newestFirst (l : List α) : List α := (l.insertionSort fun a b => key a ≤ key b).reverse

def latest (p : α → Bool) (l : List α) : Option α := (newestFirst key l).find? p

variable {key} {p : α → Bool} {l : List α} {a b : α}

@[simp] theorem mem_newestFirst : a ∈ newestFirst key l ↔ a ∈ l := by
  rw [newestFirst, List.mem_reverse, (List.perm_insertionSort _ l).mem_iff]

theorem pairwise_newestFirst (key : α → κ) (l : List α) :
    (newestFirst key l).Pairwise fun a b => key b ≤ key a := by
  have : Std.Total fun a b : α => key a ≤ key b := ⟨fun a b => le_total (key a) (key b)⟩
  have : IsTrans α fun a b => key a ≤ key b := ⟨fun a b c => le_trans⟩
  rw [newestFirst, List.pairwise_reverse]
  exact List.pairwise_insertionSort _ l

theorem latest_eq_none_iff : latest key p l = none ↔ ∀ a ∈ l, p a = false := by
  rw [latest, List.find?_eq_none]
  simp

-- Of those that pass the test, none has a greater key.
theorem latest_eq_some (h : latest key p l = some a) :
    a ∈ l ∧ p a = true ∧ ∀ b ∈ l, p b = true → key b ≤ key a := by
  rw [latest, List.find?_eq_some_iff_append] at h
  obtain ⟨hp, front, back, hsplit, hfront⟩ := h
  have hmem : a ∈ newestFirst key l := by simp [hsplit]
  refine ⟨mem_newestFirst.mp hmem, hp, fun b hb hpb => ?_⟩
  have hsorted := pairwise_newestFirst key l
  replace hb : b ∈ newestFirst key l := mem_newestFirst.mpr hb
  rw [hsplit] at hb
  rw [hsplit, List.pairwise_append, List.pairwise_cons] at hsorted
  rcases List.mem_append.mp hb with hb | hb
  · exact absurd hpb (by simpa using hfront b hb)
  · rcases List.mem_cons.mp hb with rfl | hb
    · exact le_refl _
    · exact hsorted.2.1.1 b hb

section Places

omit [LinearOrder κ] in
theorem not_sublist_swap (hl : l.Nodup) (h : [a, b].Sublist l) : ¬ [b, a].Sublist l := by
  induction l with
  | nil => cases h
  | cons c l ih =>
      obtain ⟨hc, hl⟩ := List.nodup_cons.mp hl
      intro hswap
      cases h with
      | cons _ h =>
          cases hswap with
          | cons _ hswap => exact ih hl h hswap
          | cons_cons _ hswap => exact hc (h.subset (by simp))
      | cons_cons _ h =>
          cases hswap with
          | cons _ hswap => exact hc (hswap.subset (by simp))
          | cons_cons _ hswap => exact hc (h.subset (by simp))

omit [LinearOrder κ] in
theorem pair_sublist {front back : List α} (h : b ∈ back) : [a, b].Sublist (front ++ a :: back) :=
  ((List.singleton_sublist.mpr h).cons_cons a).trans (List.sublist_append_right _ _)

-- The places of a list by a key, of equal keys the later place.
structure IsLatest (key : ℕ → κ) (p : ℕ → Bool) (n i : ℕ) : Prop where
  lt : i < n
  test : p i = true
  last : ∀ j < n, p j = true → key j ≤ key i ∧ (i < j → key j < key i)

variable {key : ℕ → κ} {p : ℕ → Bool} {n i j : ℕ}

theorem IsLatest.unique (hi : IsLatest key p n i) (hj : IsLatest key p n j) : i = j := by
  rcases Nat.lt_trichotomy i j with h | h | h
  · exact absurd (hj.last i hi.lt hi.test).1 (not_le.mpr ((hi.last j hj.lt hj.test).2 h))
  · exact h
  · exact absurd (hi.last j hj.lt hj.test).1 (not_le.mpr ((hj.last i hi.lt hi.test).2 h))

theorem mem_back_of_lt {front back : List ℕ} (hcut : List.range n = front ++ i :: back) (hij : i < j)
    (hj : j < n) : j ∈ back := by
  have hsorted : (List.range n).Pairwise (· < ·) := List.pairwise_lt_range
  have hmem : j ∈ front ++ i :: back := hcut ▸ List.mem_range.mpr hj
  rcases List.mem_append.mp hmem with hfront | hback
  · rw [hcut, List.pairwise_append] at hsorted
    exact absurd (hsorted.2.2 j hfront i List.mem_cons_self) (by omega)
  · exact (List.mem_cons.mp hback).resolve_left (by omega)

-- The sort is stable: of equal keys the later place comes first.
theorem isLatest_of_latest (h : latest key p (List.range n) = some i) : IsLatest key p n i := by
  obtain ⟨hmem, hp, hle⟩ := latest_eq_some h
  refine ⟨List.mem_range.mp hmem, hp, fun j hj hpj => ⟨hle j (List.mem_range.mpr hj) hpj, fun hij => ?_⟩⟩
  by_contra hnot
  obtain ⟨front, back, hcut⟩ := List.append_of_mem hmem
  have hrange : [i, j].Sublist (List.range n) := by
    rw [hcut]
    exact pair_sublist (mem_back_of_lt hcut hij hj)
  have hpair : [j, i].Sublist (newestFirst key (List.range n)) :=
    (List.pair_sublist_insertionSort (r := fun a b => key a ≤ key b) (not_lt.mp hnot) hrange).reverse
  have hnodup : (newestFirst key (List.range n)).Nodup := by
    rw [newestFirst, List.nodup_reverse]
    exact (List.perm_insertionSort _ _).nodup_iff.mpr List.nodup_range
  rw [latest, List.find?_eq_some_iff_append] at h
  obtain ⟨-, front, back, hsplit, hfront⟩ := h
  have hback : j ∈ back := by
    have hmem : j ∈ front ++ i :: back := hsplit ▸ mem_newestFirst.mpr (List.mem_range.mpr hj)
    rcases List.mem_append.mp hmem with hmem | hmem
    · exact absurd hpj (by simpa using hfront j hmem)
    · exact (List.mem_cons.mp hmem).resolve_left (by omega)
  refine not_sublist_swap hnodup hpair ?_
  rw [hsplit]
  exact pair_sublist hback

theorem latest_range_eq_some_iff : latest key p (List.range n) = some i ↔ IsLatest key p n i := by
  refine ⟨isLatest_of_latest, fun h => ?_⟩
  cases hlatest : latest key p (List.range n) with
  | none =>
      have hno := latest_eq_none_iff.mp hlatest i (List.mem_range.mpr h.lt)
      rw [h.test] at hno
      cases hno
  | some j => rw [(isLatest_of_latest hlatest).unique h]

end Places

end Ccp.Lib
