import Ccp.Lib.Dict
import Mathlib.Data.List.Dedup
import Mathlib.Data.List.Induction
import Mathlib.Data.List.Perm.Basic

namespace Ccp.Lib.Dict

variable {κ ν : Type*} [DecidableEq κ]

-- A dictionary of lists: a value goes to the end of the list of its key.
def push (d : Dict κ (List ν)) (k : κ) (v : ν) : Dict κ (List ν) :=
  set d k ((get? d k).getD [] ++ [v])

def group (items : List (κ × ν)) : Dict κ (List ν) :=
  items.foldl (fun d item => push d item.1 item.2) []

-- The values of a key, in their order.
def valuesOf (items : List (κ × ν)) (k : κ) : List ν := (items.filter (·.1 = k)).map Prod.snd

variable {items : List (κ × ν)} {k : κ}

theorem group_concat (items : List (κ × ν)) (item : κ × ν) :
    group (items ++ [item]) = push (group items) item.1 item.2 := by
  rw [group, List.foldl_append]
  rfl

theorem valuesOf_concat (items : List (κ × ν)) (item : κ × ν) (k : κ) :
    valuesOf (items ++ [item]) k =
      if item.1 = k then valuesOf items k ++ [item.2] else valuesOf items k := by
  rw [valuesOf, List.filter_append, List.map_append]
  by_cases h : item.1 = k
  · simp [valuesOf, h]
  · simp [valuesOf, h]

theorem valuesOf_eq_nil_iff : valuesOf items k = [] ↔ k ∉ items.map Prod.fst := by
  rw [valuesOf, List.map_eq_nil_iff, List.filter_eq_nil_iff, List.mem_map]
  simp only [decide_eq_true_eq, not_exists, not_and]

theorem getD_group (items : List (κ × ν)) (k : κ) :
    (get? (group items) k).getD [] = valuesOf items k := by
  induction items using List.reverseRecOn with
  | nil => rfl
  | append_singleton items item ih =>
      rw [group_concat, push, get?_set, valuesOf_concat]
      by_cases h : item.1 = k
      · subst h
        rw [if_pos rfl, if_pos rfl, Option.getD_some, ih]
      · rw [if_neg h, if_neg h, ih]

theorem mem_keys_group : k ∈ (group items).map Prod.fst ↔ k ∈ items.map Prod.fst := by
  induction items using List.reverseRecOn with
  | nil => rfl
  | append_singleton items item ih =>
      rw [group_concat, push, List.map_append, List.mem_append, ← ih, ← not_iff_not,
        ← get?_eq_none_iff, get?_set, not_or, ← get?_eq_none_iff]
      by_cases h : item.1 = k
      · simp [h]
      · simp [h, Ne.symm h]

theorem keys_group_nodup (items : List (κ × ν)) : ((group items).map Prod.fst).Nodup := by
  induction items using List.reverseRecOn with
  | nil => exact List.nodup_nil
  | append_singleton items item ih =>
      rw [group_concat]
      exact keys_set_nodup ih _ _

theorem mem_group_iff {values : List ν} :
    (k, values) ∈ group items ↔ k ∈ items.map Prod.fst ∧ values = valuesOf items k := by
  rw [← get?_eq_some_iff (keys_group_nodup items), ← mem_keys_group, ← getD_group]
  cases hget : get? (group items) k with
  | none => simp [get?_eq_none_iff.mp hget]
  | some values' =>
      have hmem : k ∈ (group items).map Prod.fst := List.mem_map.mpr ⟨_, mem_of_get? hget, rfl⟩
      simp [hmem, eq_comm]

theorem length_group (items : List (κ × ν)) :
    (group items).length = (items.map Prod.fst).dedup.length := by
  have hperm : ((group items).map Prod.fst).Perm (items.map Prod.fst).dedup := by
    rw [List.perm_ext_iff_of_nodup (keys_group_nodup items) (List.nodup_dedup _)]
    intro k
    rw [mem_keys_group, List.mem_dedup]
  rw [← hperm.length_eq, List.length_map]

theorem group_eq_nil_iff : group items = [] ↔ items = [] := by
  rw [← List.map_eq_nil_iff (f := Prod.fst), List.eq_nil_iff_forall_not_mem,
    ← List.map_eq_nil_iff (f := Prod.fst) (l := items), List.eq_nil_iff_forall_not_mem]
  simp only [mem_keys_group]

end Ccp.Lib.Dict
