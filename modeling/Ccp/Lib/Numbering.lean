import Mathlib.Data.List.Nodup
import Mathlib.Data.List.Perm.Subperm

namespace Ccp.Lib

-- Names with a number, given out by one counter for each kind.

variable {κ ι : Type*} {name : κ → Nat → ι}

-- The names that are given out while the counters go from c to c'.
structure Issued (name : κ → Nat → ι) (c c' : κ → Nat) (made : List ι) : Prop where
  le : ∀ k, c k ≤ c' k
  numbers : ∃ ns : List (κ × Nat), ns.Nodup ∧ (∀ p ∈ ns, c p.1 < p.2 ∧ p.2 ≤ c' p.1) ∧
    made = ns.map fun p => name p.1 p.2

namespace Issued

variable {c c' c'' : κ → Nat} {made made' : List ι}

-- A number that is not used is lost.
theorem nil (h : ∀ k, c k ≤ c' k) : Issued name c c' [] :=
  ⟨h, [], List.nodup_nil, by simp, rfl⟩

theorem single [DecidableEq κ] (c : κ → Nat) (k : κ) :
    Issued name c (Function.update c k (c k + 1)) [name k (c k + 1)] := by
  have hle : ∀ k', c k' ≤ Function.update c k (c k + 1) k' := by
    intro k'
    by_cases hk : k' = k
    · subst hk
      simp
    · simp [hk]
  refine ⟨hle, [(k, c k + 1)], List.nodup_singleton _, ?_, rfl⟩
  simp

theorem append (h : Issued name c c' made) (h' : Issued name c' c'' made') :
    Issued name c c'' (made ++ made') := by
  obtain ⟨hle, ns, hnodup, hns, rfl⟩ := h
  obtain ⟨hle', ns', hnodup', hns', rfl⟩ := h'
  refine ⟨fun k => Nat.le_trans (hle k) (hle' k), ns ++ ns', ?_, ?_, by rw [List.map_append]⟩
  · -- the later numbers are above those that the first counters reached
    refine List.nodup_append.mpr ⟨hnodup, hnodup', ?_⟩
    rintro p hp q hq rfl
    have hlow := (hns p hp).2
    have hhigh := (hns' p hq).1
    omega
  · intro p hp
    have hfirst := hle p.1
    have hsecond := hle' p.1
    rcases List.mem_append.mp hp with hp | hp
    · have hbounds := hns p hp
      omega
    · have hbounds := hns' p hp
      omega

theorem exists_of_mem (h : Issued name c c' made) {x : ι} (hx : x ∈ made) :
    ∃ k n, x = name k n ∧ c k < n ∧ n ≤ c' k := by
  obtain ⟨-, ns, -, hns, rfl⟩ := h
  obtain ⟨p, hp, rfl⟩ := List.mem_map.mp hx
  exact ⟨p.1, p.2, rfl, hns p hp⟩

theorem nodup (h : Issued name c c' made)
    (hname : ∀ k n k' n', name k n = name k' n' → k = k' ∧ n = n') : made.Nodup := by
  obtain ⟨-, ns, hnodup, -, rfl⟩ := h
  refine hnodup.map fun p q hpq => ?_
  obtain ⟨hk, hn⟩ := hname _ _ _ _ hpq
  exact Prod.ext hk hn

end Issued

-- The first number whose name is not taken.
def firstFree [DecidableEq ι] (taken : List ι) (name : Nat → ι) : Option Nat :=
  (List.range (taken.length + 1)).find? fun n => !taken.contains (name n)

-- There are more numbers to try than names that are taken.
theorem firstFree_spec [DecidableEq ι] (taken : List ι) {name : Nat → ι}
    (hname : Function.Injective name) :
    ∃ n, firstFree taken name = some n ∧ name n ∉ taken ∧ ∀ m < n, name m ∈ taken := by
  have hfree : ∃ n ∈ List.range (taken.length + 1), name n ∉ taken := by
    by_contra h
    push Not at h
    have hnodup : ((List.range (taken.length + 1)).map name).Nodup := List.nodup_range.map hname
    have hsub : (List.range (taken.length + 1)).map name ⊆ taken := by
      intro x hx
      obtain ⟨n, hn, rfl⟩ := List.mem_map.mp hx
      exact h n hn
    have hlen := (hnodup.subperm hsub).length_le
    rw [List.length_map, List.length_range] at hlen
    omega
  obtain ⟨k, hk, hkfree⟩ := hfree
  cases hfind : firstFree taken name with
  | none =>
      have hall := List.find?_eq_none.mp hfind k hk
      rw [Bool.not_eq_true', Bool.not_eq_false, List.contains_iff_mem] at hall
      exact absurd hall hkfree
  | some n =>
      obtain ⟨hn, -, hless⟩ := List.find?_range_eq_some.mp hfind
      rw [Bool.not_eq_true', List.contains_eq_mem, decide_eq_false_iff_not] at hn
      refine ⟨n, rfl, hn, fun m hm => ?_⟩
      have htaken := hless m hm
      rwa [Bool.not_not, List.contains_iff_mem] at htaken

end Ccp.Lib
