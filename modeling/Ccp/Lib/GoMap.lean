import Mathlib.Algebra.BigOperators.Group.Multiset.Basic
import Mathlib.Data.Finmap

namespace Ccp.Lib

-- A Go map: finitely many entries, distinct keys, no order of its own.
abbrev GoMap (κ ν : Type*) := Finmap fun _ : κ => ν

namespace GoMap

variable {κ ν : Type*}

-- The entries in an order in which a range loop that does not change the map
-- may visit them.
def RangeOrder (m : GoMap κ ν) (order : List (Σ _ : κ, ν)) : Prop :=
  (order : Multiset (Σ _ : κ, ν)) = m.entries

instance [DecidableEq κ] [DecidableEq ν] (m : GoMap κ ν) (order : List (Σ _ : κ, ν)) :
    Decidable (RangeOrder m order) :=
  inferInstanceAs (Decidable (_ = _))

def total (f : ν → Nat) (m : GoMap κ ν) : Nat :=
  (m.entries.map fun e => f e.2).sum

variable [DecidableEq κ]

theorem forall_lookup_empty {p : κ → ν → Prop} :
    ∀ k v, (∅ : GoMap κ ν).lookup k = some v → p k v := by
  intro k v h
  rw [Finmap.lookup_empty] at h
  cases h

theorem lookup_singleton (k k' : κ) (v : ν) :
    (Finmap.singleton k v : GoMap κ ν).lookup k' = if k' = k then some v else none := by
  by_cases h : k' = k
  · subst h
    simp
  · simp only [h, if_false]
    rw [Finmap.lookup_eq_none]
    simpa using h

theorem entries_eq_cons_erase {m : GoMap κ ν} {k : κ} {v : ν} (h : m.lookup k = some v) :
    m.entries = ⟨k, v⟩ ::ₘ (m.erase k).entries := by
  have hins : m = (m.erase k).insert k v := by
    apply Finmap.ext_lookup
    intro x
    by_cases hx : x = k
    · subst hx
      rw [h, Finmap.lookup_insert]
    · rw [Finmap.lookup_insert_of_ne _ hx, Finmap.lookup_erase_ne hx]
  conv_lhs => rw [hins]
  exact Finmap.entries_insert_of_notMem Finmap.notMem_erase_self

theorem total_eq_add_erase (f : ν → Nat) {m : GoMap κ ν} {k : κ} {v : ν}
    (h : m.lookup k = some v) : total f m = f v + total f (m.erase k) := by
  simp only [total, entries_eq_cons_erase h, Multiset.map_cons, Multiset.sum_cons]

theorem total_insert (f : ν → Nat) (m : GoMap κ ν) (k : κ) (v : ν) :
    total f (m.insert k v) = f v + total f (m.erase k) := by
  have he : (m.insert k v).erase k = m.erase k := by
    apply Finmap.ext_lookup
    intro x
    by_cases hx : x = k
    · subst hx
      simp only [Finmap.lookup_erase]
    · rw [Finmap.lookup_erase_ne hx, Finmap.lookup_erase_ne hx, Finmap.lookup_insert_of_ne _ hx]
  rw [total_eq_add_erase f (Finmap.lookup_insert m), he]

theorem erase_of_lookup_eq_none {m : GoMap κ ν} {k : κ} (h : m.lookup k = none) :
    m.erase k = m := by
  apply Finmap.ext_lookup
  intro x
  by_cases hx : x = k
  · subst hx
    rw [h, Finmap.lookup_erase]
  · rw [Finmap.lookup_erase_ne hx]

theorem lookup_foldl_insert_of_notMem {α : Type*} (key : α → κ) (val : α → ν) {items : List α}
    {k : κ} (hk : k ∉ items.map key) (m : GoMap κ ν) :
    (items.foldl (fun m a => m.insert (key a) (val a)) m).lookup k = m.lookup k := by
  induction items generalizing m with
  | nil => rfl
  | cons b items ih =>
      simp only [List.map_cons, List.mem_cons, not_or] at hk
      rw [List.foldl_cons, ih hk.2, Finmap.lookup_insert_of_ne _ hk.1]

theorem exists_of_lookup_foldl_insert {α : Type*} {key : α → κ} {val : α → ν} {items : List α}
    {m : GoMap κ ν} {k : κ} {v : ν}
    (h : (items.foldl (fun m a => m.insert (key a) (val a)) m).lookup k = some v) :
    (∃ a ∈ items, key a = k ∧ val a = v) ∨ m.lookup k = some v := by
  induction items generalizing m with
  | nil => exact Or.inr h
  | cons b items ih =>
      cases ih h with
      | inl hlater =>
          obtain ⟨a, ha, hkey, hval⟩ := hlater
          exact Or.inl ⟨a, List.mem_cons_of_mem b ha, hkey, hval⟩
      | inr hbefore =>
          by_cases hk : k = key b
          · subst hk
            rw [Finmap.lookup_insert] at hbefore
            exact Or.inl ⟨b, List.mem_cons_self, rfl, Option.some.inj hbefore⟩
          · rw [Finmap.lookup_insert_of_ne _ hk] at hbefore
            exact Or.inr hbefore

theorem lookup_foldl_insert {α : Type*} (key : α → κ) (val : α → ν) (items : List α)
    (hnodup : (items.map key).Nodup) (m : GoMap κ ν) {a : α} (ha : a ∈ items) :
    (items.foldl (fun m a => m.insert (key a) (val a)) m).lookup (key a) = some (val a) := by
  induction items generalizing m with
  | nil => cases ha
  | cons b items ih =>
      simp only [List.map_cons, List.nodup_cons] at hnodup
      rw [List.foldl_cons]
      rcases List.mem_cons.mp ha with rfl | ha
      · rw [lookup_foldl_insert_of_notMem key val hnodup.1, Finmap.lookup_insert]
      · exact ih hnodup.2 _ ha

end GoMap

end Ccp.Lib
