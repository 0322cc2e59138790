import Ccp.Lib.Text
import Mathlib.Data.List.Perm.Subperm

namespace Ccp.Lib

section Perm

variable {β : Type*} {front back l : List β} {a : β}

theorem subperm_of_perm (h : (front ++ a :: back).Perm l) : (front ++ [a]).Subperm l := by
  have hsub : (front ++ [a]).Sublist (front ++ a :: back) :=
    List.Sublist.append_left (List.singleton_sublist.mpr List.mem_cons_self) front
  exact hsub.subperm.trans h.subperm

-- Any selection of the entries comes first in some order.
theorem exists_perm (h : front.Subperm l) : ∃ back, (front ++ back).Perm l := by
  obtain ⟨part, hperm, hsub⟩ := h
  obtain ⟨back, hback⟩ := hsub.exists_perm_append
  exact ⟨back, (hperm.symm.append_right back).trans hback.symm⟩

end Perm

section Substitution

variable {α : Type*} [DecidableEq α] {pairs front back order : List (List α × List α)}
  {s : List α} {t : List (Piece α)} {e : List α × List α}

-- Keys one after the other that come to the substitution of all at once, in any order: each
-- turn of the loop replaces the places that the text had for its key.
structure AtOnce (pairs : List (List α × List α)) (s : List α) (t : List (Piece α)) : Prop where
  places : text t = s
  result : ∀ order, order.Perm pairs → replaceEach s order = fill (assign pairs) t
  turns : ∀ front e back, (front ++ e :: back).Perm pairs → ∀ new,
    replaceAll (replaceEach s front) e.1 new = fill (assign (front ++ [(e.1, new)])) t

-- Whatever other keys have been filled in, a search for a key finds the places of that key.
def Unmixed (pairs : List (List α × List α)) (t : List (Piece α)) : Prop :=
  ∀ front e, (front ++ [e]).Subperm pairs → Separate (assign front) t e.1

theorem assign_perm (hkeys : (pairs.map Prod.fst).Nodup) (h : order.Perm pairs) :
    assign order = assign pairs := by
  have hkeys' : (order.map Prod.fst).Nodup := (h.map Prod.fst).nodup_iff.mpr hkeys
  funext key
  ext v
  rw [assign_eq_some_iff hkeys', assign_eq_some_iff hkeys]
  exact h.mem_iff

-- The turns of an order give what is left before each of them.
theorem AtOnce.replaceEach_front (h : AtOnce pairs s t) (horder : (front ++ back).Perm pairs) :
    replaceEach s front = fill (assign front) t := by
  cases front using List.reverseRecOn with
  | nil => exact h.places.symm
  | append_singleton front e =>
      rw [List.append_assoc] at horder
      rw [replaceEach_concat]
      exact h.turns front e back horder e.2

section Nontrivial

variable [Nontrivial α]

theorem Unmixed.replaceEach_front (h : Unmixed pairs t) (horder : (front ++ back).Perm pairs) :
    replaceEach (text t) front = fill (assign front) t := by
  refine replaceEach_eq_fill fun start e rest hsplit => h start e ?_
  rw [hsplit, List.append_assoc] at horder
  exact subperm_of_perm horder

theorem Unmixed.atOnce (hkeys : (pairs.map Prod.fst).Nodup) (h : Unmixed pairs t) :
    AtOnce pairs (text t) t := by
  refine ⟨rfl, fun order horder => ?_, fun front e back horder new => ?_⟩
  · have hall := @Unmixed.replaceEach_front _ _ pairs order [] t _ h (by rwa [List.append_nil])
    rw [hall, assign_perm hkeys horder]
  · rw [h.replaceEach_front horder, assign_concat]
    exact separate_iff.mp (h front e (subperm_of_perm horder)) new

theorem AtOnce.unmixed (h : AtOnce pairs s t) : Unmixed pairs t := by
  intro front e hsub
  obtain ⟨back, horder⟩ := exists_perm hsub
  rw [List.append_assoc] at horder
  refine separate_iff.mpr fun new => ?_
  rw [← assign_concat, ← h.turns front e back horder new, h.replaceEach_front horder]

theorem atOnce_iff (hkeys : (pairs.map Prod.fst).Nodup) :
    AtOnce pairs s t ↔ text t = s ∧ Unmixed pairs t := by
  constructor
  · intro h
    exact ⟨h.places, h.unmixed⟩
  · rintro ⟨rfl, h⟩
    exact h.atOnce hkeys

end Nontrivial

end Substitution

end Ccp.Lib
