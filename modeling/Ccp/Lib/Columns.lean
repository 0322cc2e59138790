import Mathlib.Data.List.Count
import Mathlib.Data.List.Infix

namespace Ccp.Lib

-- The columns of a table whose rows do not all have the same ones.

variable {α : Type*} [BEq α] [LawfulBEq α]

def longer (longest row : List α) : List α :=
  if longest != row && decide (longest.length < row.length) then row else longest

-- The first of the longest rows.
def longest (front : List α) (rows : List (List α)) : List α := rows.foldl longer front

-- What a row has more comes before the mark; without a mark there is no place for it.
def insertDifference (mark : α) (headers row : List α) : Option (List α) :=
  if row != headers then
    (headers.idxOf? mark).map fun idx =>
      headers.take idx ++ row.filter (fun h => !headers.contains h) ++ headers.drop idx
  else some headers

def mergeColumns (mark : α) (headers : List α) (rows : List (List α)) : Option (List α) :=
  rows.foldlM (insertDifference mark) headers

-- No row is longer, and none before it is as long.
def Leads (rows : List (List α)) (i : ℕ) (row : List α) : Prop :=
  rows[i]? = some row ∧
    ∀ j row', rows[j]? = some row' → row'.length ≤ row.length ∧ (j < i → row'.length < row.length)

variable {mark h : α} {headers headers' row row' front : List α} {rows : List (List α)}

omit [BEq α] [LawfulBEq α] in
theorem Leads.unique {i j : ℕ} (hi : Leads rows i row) (hj : Leads rows j row') : row = row' := by
  have hle := (hi.2 j row' hj.1).1
  have hge := (hj.2 i row hi.1).1
  rcases Nat.lt_trichotomy i j with hlt | rfl | hlt
  · have := (hj.2 i row hi.1).2 hlt
    omega
  · exact Option.some.inj (hi.1.symm.trans hj.1)
  · have := (hi.2 j row' hj.1).2 hlt
    omega

omit [BEq α] [LawfulBEq α] in
theorem leads_concat {i : ℕ} (hlead : Leads rows i row) (hle : row'.length ≤ row.length) :
    Leads (rows ++ [row']) i row := by
  have hi := (List.getElem?_eq_some_iff.mp hlead.1).1
  refine ⟨by rw [List.getElem?_append_left hi]; exact hlead.1, fun j other hother => ?_⟩
  rcases Nat.lt_or_ge j rows.length with hj | hj
  · rw [List.getElem?_append_left hj] at hother
    exact hlead.2 j other hother
  · rw [List.getElem?_append_right hj, List.getElem?_singleton] at hother
    split_ifs at hother with hzero
    obtain rfl := Option.some.inj hother
    exact ⟨hle, fun hlt => by omega⟩

omit [BEq α] [LawfulBEq α] in
theorem leads_concat_of_longer {i : ℕ} (hlead : Leads rows i row) (hlt : row.length < row'.length) :
    Leads (rows ++ [row']) rows.length row' := by
  refine ⟨by simp, fun j other hother => ?_⟩
  rcases Nat.lt_or_ge j rows.length with hj | hj
  · rw [List.getElem?_append_left hj] at hother
    have := (hlead.2 j other hother).1
    exact ⟨by omega, fun _ => by omega⟩
  · rw [List.getElem?_append_right hj, List.getElem?_singleton] at hother
    split_ifs at hother with hzero
    obtain rfl := Option.some.inj hother
    exact ⟨le_rfl, fun hlt => by omega⟩

theorem exists_leads (front : List α) (rows : List (List α)) :
    ∃ i, Leads (front :: rows) i (longest front rows) := by
  induction rows using List.reverseRecOn with
  | nil =>
      refine ⟨0, rfl, fun j row hrow => ?_⟩
      rw [List.getElem?_singleton] at hrow
      split_ifs at hrow with hzero
      obtain rfl := Option.some.inj hrow
      exact ⟨le_rfl, fun hlt => by omega⟩
  | append_singleton rows row ih =>
      obtain ⟨i, hlead⟩ := ih
      have hlongest : longest front (rows ++ [row]) = longer (longest front rows) row := by
        rw [longest, List.foldl_append]
        rfl
      rw [hlongest, longer, ← List.cons_append]
      by_cases hlonger : (longest front rows).length < row.length
      · have hne : longest front rows ≠ row := fun heq => by simp [heq] at hlonger
        rw [if_pos (by simp [hne, hlonger])]
        exact ⟨_, leads_concat_of_longer hlead hlonger⟩
      · rw [if_neg (by simp [hlonger])]
        exact ⟨i, leads_concat hlead (by omega)⟩

-- The places of a column afterwards.
theorem insertDifference_split (hinsert : insertDifference mark headers row = some headers') :
    row = headers ∧ headers' = headers ∨
      ∃ idx, headers' = headers.take idx ++ row.filter (fun h => !headers.contains h) ++ headers.drop idx := by
  unfold insertDifference at hinsert
  split_ifs at hinsert with hne
  · obtain ⟨idx, _, rfl⟩ := Option.map_eq_some_iff.mp hinsert
    exact Or.inr ⟨idx, rfl⟩
  · exact Or.inl ⟨by simpa using hne, (Option.some.inj hinsert).symm⟩

omit [LawfulBEq α] in
theorem count_split (h : α) (headers added : List α) (idx : ℕ) :
    (headers.take idx ++ added ++ headers.drop idx).count h = headers.count h + added.count h := by
  have hsplit := congrArg (List.count h) (List.take_append_drop idx headers)
  rw [List.count_append] at hsplit
  rw [List.count_append, List.count_append]
  omega

theorem count_insertDifference_of_mem (hinsert : insertDifference mark headers row = some headers')
    (hmem : h ∈ headers) : headers'.count h = headers.count h := by
  rcases insertDifference_split hinsert with ⟨_, rfl⟩ | ⟨idx, rfl⟩
  · rfl
  · have hnone : (row.filter fun h => !headers.contains h).count h = 0 := by
      rw [List.count_eq_zero]
      simp [hmem]
    rw [count_split, hnone, Nat.add_zero]

theorem count_insertDifference_of_new (hinsert : insertDifference mark headers row = some headers')
    (hnew : h ∉ headers) : headers'.count h = row.count h := by
  rcases insertDifference_split hinsert with ⟨rfl, rfl⟩ | ⟨idx, rfl⟩
  · rfl
  · have hall : (row.filter fun h => !headers.contains h).count h = row.count h :=
      List.count_filter (by simpa using hnew)
    rw [count_split, hall, List.count_eq_zero.mpr hnew, Nat.zero_add]

-- What is there keeps its number of places.
theorem count_mergeColumns_of_mem (hmerge : mergeColumns mark headers rows = some headers')
    (hmem : h ∈ headers) : headers'.count h = headers.count h := by
  induction rows generalizing headers with
  | nil =>
      obtain rfl := Option.some.inj hmerge
      rfl
  | cons row rows ih =>
      rw [mergeColumns, List.foldlM_cons] at hmerge
      obtain ⟨next, hinsert, hrest⟩ := Option.bind_eq_some_iff.mp hmerge
      have hnext := count_insertDifference_of_mem hinsert hmem
      have hmem' : h ∈ next := by
        rw [← List.count_pos_iff] at hmem ⊢
        omega
      rw [ih hrest hmem', hnext]

-- What no row has twice comes in once.
theorem count_mergeColumns_of_new (hmerge : mergeColumns mark headers rows = some headers')
    (hnew : h ∉ headers) (hrow : row ∈ rows) (hmem : h ∈ row)
    (honce : ∀ row ∈ rows, row.count h ≤ 1) : headers'.count h = 1 := by
  induction rows generalizing headers with
  | nil => exact absurd hrow List.not_mem_nil
  | cons first rows ih =>
      rw [mergeColumns, List.foldlM_cons] at hmerge
      obtain ⟨next, hinsert, hrest⟩ := Option.bind_eq_some_iff.mp hmerge
      have hnext := count_insertDifference_of_new hinsert hnew
      by_cases hfirst : h ∈ first
      · have hpos := List.count_pos_iff.mpr hfirst
        have hle := honce first List.mem_cons_self
        have hmem' : h ∈ next := List.count_pos_iff.mp (by omega)
        rw [count_mergeColumns_of_mem hrest hmem']
        omega
      · have hnew' : h ∉ next := by
          rw [← List.count_eq_zero, hnext, List.count_eq_zero.mpr hfirst]
        have hrow' : row ∈ rows := by
          rcases List.mem_cons.mp hrow with rfl | hlater
          · exact absurd hmem hfirst
          · exact hlater
        exact ih hrest hnew' hrow' fun r hr => honce r (List.mem_cons_of_mem _ hr)

end Ccp.Lib
