import Mathlib.Data.List.Induction

namespace Ccp.Lib

-- The elements of a list that are the first with their key. An element may have no key.

variable {α κ : Type*}

-- Every element with those before it.
def withEarlier : (earlier : List α) → List α → List (List α × α)
  | _, [] => []
  | earlier, a :: l => (earlier, a) :: withEarlier (earlier ++ [a]) l

variable [DecidableEq κ] (key : α → Option κ)

def isFirst (p : List α × α) : Bool := (key p.2).isSome && !(p.1.map key).contains (key p.2)

def firsts (l : List α) : List α := ((withEarlier [] l).filter (isFirst key)).map Prod.snd

variable {key} {l : List α} {a : α}

theorem withEarlier_concat (earlier l : List α) (a : α) :
    withEarlier earlier (l ++ [a]) = withEarlier earlier l ++ [(earlier ++ l, a)] := by
  induction l generalizing earlier with
  | nil =>
      rw [List.append_nil]
      rfl
  | cons b l ih =>
      rw [List.cons_append, withEarlier, withEarlier, ih, List.append_assoc]
      rfl

theorem firsts_concat (l : List α) (a : α) :
    firsts key (l ++ [a]) = if isFirst key (l, a) then firsts key l ++ [a] else firsts key l := by
  rw [firsts, withEarlier_concat, List.filter_append, List.map_append, List.nil_append]
  by_cases h : isFirst key (l, a) = true
  · rw [if_pos h, List.filter_cons_of_pos h]
    rfl
  · rw [if_neg h, List.filter_cons_of_neg h, List.filter_nil, List.map_nil, List.append_nil]
    rfl

theorem isFirst_iff : isFirst key (l, a) = true ↔ key a ≠ none ∧ key a ∉ l.map key := by
  rw [isFirst, Bool.and_eq_true, Option.isSome_iff_ne_none, Bool.not_eq_true', List.contains_eq_mem,
    decide_eq_false_iff_not]

theorem key_ne_none_of_mem_firsts (h : a ∈ firsts key l) : key a ≠ none := by
  obtain ⟨⟨earlier, b⟩, hp, rfl⟩ := List.mem_map.mp h
  exact (isFirst_iff.mp (List.mem_filter.mp hp).2).1

-- Every key of the list is one of its first elements.
theorem key_mem_firsts_iff {k : κ} : some k ∈ (firsts key l).map key ↔ some k ∈ l.map key := by
  induction l using List.reverseRecOn with
  | nil => rfl
  | append_singleton l a ih =>
      rw [firsts_concat, List.map_append, List.mem_append, ← ih]
      by_cases h : isFirst key (l, a) = true
      · rw [if_pos h, List.map_append, List.mem_append]
      · rw [if_neg h, List.map_cons, List.map_nil, List.mem_singleton]
        refine (or_iff_left_of_imp fun ha => ?_).symm
        rw [isFirst_iff, not_and, not_not, ← ha] at h
        exact ih.mpr (h (Option.some_ne_none k))

end Ccp.Lib
