import Ccp.Lib.Dict
import Mathlib.Data.List.Nodup

namespace Ccp.Lib.Batched

-- New values for rows, collected in an index by a key and given to the rows whenever
-- the index has reached a size, and at the end.

variable {κ ν : Type*} [DecidableEq κ] (key : ν → κ)

-- What a row that has a value has after one index.
def apply (index : Dict κ ν) (v : ν) : ν := (Dict.get? index (key v)).getD v

-- What it has at the end.
def settle (size : ℕ) : Dict κ ν → List (κ × ν) → ν → ν
  | index, [], v => apply key index v
  | index, c :: changes, v =>
      let index := Dict.set index c.1 c.2
      if size ≤ index.length then settle size [] changes (apply key index v)
      else settle size index changes v

variable {key} {size : ℕ} {index : Dict κ ν} {changes front back : List (κ × ν)} {v w : ν}

theorem settle_cons (c : κ × ν) : settle key size index (c :: changes) v =
    if size ≤ (Dict.set index c.1 c.2).length then
      settle key size [] changes (apply key (Dict.set index c.1 c.2) v)
    else settle key size (Dict.set index c.1 c.2) changes v := rfl

theorem apply_of_get? (h : Dict.get? index (key v) = some w) : apply key index v = w := by
  rw [apply, h, Option.getD_some]

theorem apply_of_get?_eq_none (h : Dict.get? index (key v) = none) : apply key index v = v := by
  rw [apply, h, Option.getD_none]

-- A row without a new value keeps the one that it has.
theorem settle_of_notMem (hindex : Dict.get? index (key v) = none) (h : key v ∉ changes.map Prod.fst) :
    settle key size index changes v = v := by
  induction changes generalizing index with
  | nil => exact apply_of_get?_eq_none hindex
  | cons c changes ih =>
      rw [List.map_cons, List.mem_cons, not_or] at h
      have hset : Dict.get? (Dict.set index c.1 c.2) (key v) = none := by
        rw [Dict.get?_set, if_neg (Ne.symm h.1), hindex]
      rw [settle_cons]
      split_ifs
      · rw [apply_of_get?_eq_none hset]
        exact ih (Dict.get?_nil _) h.2
      · exact ih hset h.2

-- One whose new value is in the index has it at the end, where none of the other changes
-- is for what it has, or will have.
theorem settle_of_get? (hindex : Dict.get? index (key v) = some w) (h : key v ∉ changes.map Prod.fst)
    (hnew : key w ∉ changes.map Prod.fst) : settle key size index changes v = w := by
  induction changes generalizing index with
  | nil => exact apply_of_get? hindex
  | cons c changes ih =>
      rw [List.map_cons, List.mem_cons, not_or] at h hnew
      have hset : Dict.get? (Dict.set index c.1 c.2) (key v) = some w := by
        rw [Dict.get?_set, if_neg (Ne.symm h.1), hindex]
      rw [settle_cons]
      split_ifs
      · rw [apply_of_get? hset]
        exact settle_of_notMem (Dict.get?_nil _) hnew.2
      · exact ih hset h.2 hnew.2

theorem settle_append (hindex : Dict.get? index (key v) = none) (hfront : key v ∉ front.map Prod.fst)
    (hback : key v ∉ back.map Prod.fst) (hnew : key w ∉ back.map Prod.fst) :
    settle key size index (front ++ (key v, w) :: back) v = w := by
  induction front generalizing index with
  | nil =>
      have hset : Dict.get? (Dict.set index (key v) w) (key v) = some w := by
        rw [Dict.get?_set, if_pos rfl]
      rw [List.nil_append, settle_cons]
      split_ifs
      · rw [apply_of_get? hset]
        exact settle_of_notMem (Dict.get?_nil _) hnew
      · exact settle_of_get? hset hback hnew
  | cons c front ih =>
      rw [List.map_cons, List.mem_cons, not_or] at hfront
      have hset : Dict.get? (Dict.set index c.1 c.2) (key v) = none := by
        rw [Dict.get?_set, if_neg (Ne.symm hfront.1), hindex]
      rw [List.cons_append, settle_cons]
      split_ifs
      · rw [apply_of_get?_eq_none hset]
        exact ih (Dict.get?_nil _) hfront.2
      · exact ih hset hfront.2

-- The index takes all changes when it may hold as many: the last one for a key counts.
theorem length_set_le (d : Dict κ ν) (k : κ) (v : ν) : (Dict.set d k v).length ≤ d.length + 1 := by
  induction d with
  | nil => simp [Dict.set_nil]
  | cons item d ih =>
      rw [Dict.set_cons]
      split_ifs
      · exact Nat.le_succ _
      · exact Nat.succ_le_succ ih

theorem settle_of_lt (h : index.length + changes.length < size) :
    settle key size index changes v =
      apply key (changes.foldl (fun d c => Dict.set d c.1 c.2) index) v := by
  induction changes generalizing index with
  | nil => rfl
  | cons c changes ih =>
      have hlength := length_set_le index c.1 c.2
      rw [List.length_cons] at h
      rw [settle_cons, if_neg (by omega), List.foldl_cons]
      exact ih (by omega)

theorem get?_foldl_set_ne_none {k : κ}
    (h : Dict.get? index k ≠ none ∨ k ∈ changes.map Prod.fst) :
    Dict.get? (changes.foldl (fun d c => Dict.set d c.1 c.2) index) k ≠ none := by
  induction changes generalizing index with
  | nil => exact h.resolve_right (by simp)
  | cons c changes ih =>
      rw [List.foldl_cons]
      refine ih ?_
      rw [List.map_cons, List.mem_cons] at h
      rw [Dict.get?_set]
      by_cases hc : c.1 = k
      · rw [if_pos hc]
        exact Or.inl (Option.some_ne_none _)
      · rw [if_neg hc]
        exact h.imp_right fun hmem => hmem.resolve_left (Ne.symm hc)

-- Two rows that a change is for have one value then.
theorem settle_eq_of_lt (hsize : changes.length < size) (hkey : key v = key w)
    (h : key v ∈ changes.map Prod.fst) :
    settle key size [] changes v = settle key size [] changes w := by
  have hfound : Dict.get? (changes.foldl (fun d c => Dict.set d c.1 c.2) []) (key v) ≠ none :=
    get?_foldl_set_ne_none (Or.inr h)
  obtain ⟨new, hnew⟩ := Option.ne_none_iff_exists'.mp hfound
  rw [settle_of_lt (by simpa using hsize), settle_of_lt (by simpa using hsize),
    apply_of_get? hnew, apply_of_get? (hkey ▸ hnew)]

-- One after the other, when the index is full with one change.
theorem settle_one_cons (c : κ × ν) (changes : List (κ × ν)) (v : ν) :
    settle key 1 [] (c :: changes) v = settle key 1 [] changes (if c.1 = key v then c.2 else v) := by
  rw [settle_cons, if_pos (by simp [Dict.set_nil])]
  congr 1
  rw [apply, Dict.set_nil, Dict.get?_cons]
  split_ifs <;> rfl

theorem settle_one_eq_or (changes : List (κ × ν)) (v : ν) :
    settle key 1 [] changes v = v ∨ settle key 1 [] changes v ∈ changes.map Prod.snd := by
  induction changes generalizing v with
  | nil => exact Or.inl rfl
  | cons c changes ih =>
      rw [settle_one_cons, List.map_cons, List.mem_cons]
      rcases ih (if c.1 = key v then c.2 else v) with heq | hmem
      · rw [heq]
        split_ifs
        · exact Or.inr (Or.inl rfl)
        · exact Or.inl rfl
      · exact Or.inr (Or.inr hmem)

theorem settle_one_append (front back : List (κ × ν)) (v : ν) :
    settle key 1 [] (front ++ back) v = settle key 1 [] back (settle key 1 [] front v) := by
  induction front generalizing v with
  | nil => rfl
  | cons c front ih => rw [List.cons_append, settle_one_cons, settle_one_cons, ih]

-- A row that meets a change takes a value that a change has, its own one no more.
theorem settle_one_mem (h : key v ∈ changes.map Prod.fst) :
    settle key 1 [] changes v ∈ changes.map Prod.snd := by
  induction changes with
  | nil => cases h
  | cons c changes ih =>
      rw [settle_one_cons, List.map_cons]
      by_cases hc : c.1 = key v
      · rw [if_pos hc, List.mem_cons]
        exact settle_one_eq_or changes c.2
      · rw [if_neg hc]
        rw [List.map_cons, List.mem_cons] at h
        exact List.mem_cons_of_mem _ (ih (h.resolve_left (Ne.symm hc)))

section Entries

variable [DecidableEq ν] (key) (entries : List (ν × ν))

-- The changes of things that have one value before and one after, where the two differ.
def changesOf : List (κ × ν) := (entries.filter fun e => e.1 ≠ e.2).map fun e => (key e.1, e.2)

-- The key of a change is that of no other thing, and no thing gets the key of one that is
-- changed after it.
structure Apart : Prop where
  once : ∀ e ∈ entries, e.1 ≠ e.2 → ∀ e' ∈ entries, e' ≠ e → key e'.1 ≠ key e.1
  later : entries.Pairwise fun e e' => e'.1 ≠ e'.2 → key e.2 ≠ key e'.1

variable {key entries}

omit [DecidableEq κ] in
theorem mem_changesOf_keys {k : κ} :
    k ∈ (changesOf key entries).map Prod.fst ↔ ∃ e ∈ entries, e.1 ≠ e.2 ∧ key e.1 = k := by
  simp [changesOf, and_assoc]

omit [DecidableEq κ] in
theorem mem_changesOf_values {v : ν} :
    v ∈ (changesOf key entries).map Prod.snd ↔ ∃ e ∈ entries, e.1 ≠ e.2 ∧ e.2 = v := by
  simp [changesOf, and_assoc]

omit [DecidableEq κ] in
theorem length_changesOf_le : (changesOf key entries).length ≤ entries.length := by
  rw [changesOf, List.length_map]
  exact List.length_filter_le _ _

omit [DecidableEq κ] in
theorem changesOf_append (front back : List (ν × ν)) :
    changesOf key (front ++ back) = changesOf key front ++ changesOf key back := by
  rw [changesOf, List.filter_append, List.map_append]
  rfl

theorem settle_changesOf {front back : List (ν × ν)} {e : ν × ν} (size : ℕ)
    (hother : ∀ e' ∈ front ++ back, e'.1 ≠ e'.2 → key e'.1 ≠ key e.1)
    (hnew : ∀ e' ∈ back, e'.1 ≠ e'.2 → key e'.1 ≠ key e.2) :
    settle key size [] (changesOf key (front ++ e :: back)) e.1 = e.2 := by
  have hnot : ∀ l ⊆ front ++ back, key e.1 ∉ (changesOf key l).map Prod.fst := by
    intro l hl hmem
    obtain ⟨e', he', hne, hkey⟩ := mem_changesOf_keys.mp hmem
    exact hother e' (hl he') hne hkey
  have hfront := hnot front (List.subset_append_left front back)
  have hback := hnot back (List.subset_append_right front back)
  rw [changesOf_append]
  by_cases hsame : e.1 = e.2
  · have hskip : changesOf key (e :: back) = changesOf key back := by
      rw [changesOf, List.filter_cons_of_neg (by simpa using hsame), changesOf]
    rw [hskip, settle_of_notMem (Dict.get?_nil _), hsame]
    rw [List.map_append, List.mem_append, not_or]
    exact ⟨hfront, hback⟩
  · have hcons : changesOf key (e :: back) = (key e.1, e.2) :: changesOf key back := by
      rw [changesOf, List.filter_cons_of_pos (by simpa using hsame), changesOf, List.map_cons]
    rw [hcons]
    refine settle_append (Dict.get?_nil _) hfront hback ?_
    intro hmem
    obtain ⟨e', he', hne, hkey⟩ := mem_changesOf_keys.mp hmem
    exact hnew e' he' hne hkey

theorem settle_of_apart (hnodup : entries.Nodup) (h : Apart key entries) (size : ℕ) {e : ν × ν}
    (he : e ∈ entries) : settle key size [] (changesOf key entries) e.1 = e.2 := by
  obtain ⟨front, back, rfl⟩ := List.append_of_mem he
  have hnot : e ∉ front ++ back := (List.nodup_middle.mp hnodup).notMem
  refine settle_changesOf size (fun e' he' hne hkey => ?_) fun e' he' hne hkey => ?_
  · have hmem : e' ∈ front ++ e :: back :=
      List.mem_append.mpr ((List.mem_append.mp he').imp_right (List.mem_cons_of_mem e))
    refine h.once e' hmem hne e he ?_ hkey.symm
    rintro rfl
    exact hnot he'
  · exact List.rel_of_pairwise_cons (List.pairwise_append.mp h.later).2.1 he' hne hkey.symm

-- When the index takes all changes, two rows with the key of one end as one. When it
-- takes one of them, what a row has gone on to is changed again.
theorem apart_of_settle (hafter : (entries.map Prod.snd).Nodup)
    (h : ∀ size, ∀ e ∈ entries, settle key size [] (changesOf key entries) e.1 = e.2) :
    Apart key entries := by
  have honce : ∀ e ∈ entries, e.1 ≠ e.2 → ∀ e' ∈ entries, e' ≠ e → key e'.1 ≠ key e.1 := by
    intro e he hne e' he' hdiff hkey
    have hsize : (changesOf key entries).length < entries.length + 1 :=
      Nat.lt_succ_of_le length_changesOf_le
    have hmem : key e'.1 ∈ (changesOf key entries).map Prod.fst :=
      mem_changesOf_keys.mpr ⟨e, he, hne, hkey.symm⟩
    have heq := settle_eq_of_lt hsize hkey hmem
    rw [h _ e he, h _ e' he'] at heq
    exact hdiff (List.inj_on_of_nodup_map hafter he' he heq)
  refine ⟨honce, List.pairwise_iff_forall_sublist.mpr ?_⟩
  intro e e' hsub hne hkey
  obtain ⟨r₁, r₂, rfl, he, he'⟩ := List.cons_sublist_iff.mp hsub
  rw [List.singleton_sublist] at he'
  obtain ⟨front, r, rfl⟩ := List.append_of_mem he
  rw [List.append_assoc, List.cons_append] at h honce hafter
  have hnot : ∀ x ∈ r ++ r₂, x.2 ≠ e.2 := by
    intro x hx heq
    rw [List.map_append, List.map_cons] at hafter
    have hcons := (List.nodup_append.mp hafter).2.1
    exact (List.nodup_cons.mp hcons).1 (heq ▸ List.mem_map_of_mem hx)
  have hmid : e ∈ front ++ e :: (r ++ r₂) := by simp
  -- up to its own change nothing is for it
  have hfront : settle key 1 [] (changesOf key (front ++ [e])) e.1 = e.2 := by
    refine settle_changesOf 1 (fun x hx hne => ?_) (by simp)
    rw [List.append_nil] at hx
    refine (honce x (List.mem_append_left _ hx) hne e hmid ?_).symm
    rintro rfl
    have hmap := List.nodup_middle.mp (List.Nodup.of_map _ hafter)
    exact hmap.notMem (List.mem_append_left _ hx)
  have hlast := h 1 e hmid
  rw [List.append_cons, changesOf_append, settle_one_append, hfront] at hlast
  have hmem : key e.2 ∈ (changesOf key (r ++ r₂)).map Prod.fst :=
    mem_changesOf_keys.mpr ⟨e', List.mem_append_right r he', hne, hkey.symm⟩
  have hvalue := settle_one_mem hmem
  rw [hlast] at hvalue
  obtain ⟨x, hx, -, heq⟩ := mem_changesOf_values.mp hvalue
  exact hnot x hx heq

-- Whatever the size, every row ends with the new value of its thing.
theorem settle_iff (hafter : (entries.map Prod.snd).Nodup) :
    (∀ size, ∀ e ∈ entries, settle key size [] (changesOf key entries) e.1 = e.2) ↔
      Apart key entries :=
  ⟨apart_of_settle hafter, fun h size _ he => settle_of_apart (List.Nodup.of_map _ hafter) h size he⟩

end Entries

section Rows

variable {ρ : Type*}

-- A column of the rows that are looked at.
structure Column (ν ρ : Type*) where
  mine : ρ → Bool
  get : ρ → ν
  put : ρ → ν → ρ
  mine_put : ∀ r v, mine (put r v) = mine r
  get_put : ∀ r v, get (put r v) = v
  put_get : ∀ r, put r (get r) = r
  put_put : ∀ r v w, put (put r v) w = put r w

-- The rows, and what is still to be written to them.
structure Batch (κ ν ρ : Type*) where
  rows : List ρ
  index : Dict κ ν

def Column.write (c : Column ν ρ) (f : ν → ν) (r : ρ) : ρ :=
  if c.mine r then c.put r (f (c.get r)) else r

theorem Column.write_write (c : Column ν ρ) (f g : ν → ν) (r : ρ) :
    c.write f (c.write g r) = c.write (f ∘ g) r := by
  by_cases h : c.mine r = true
  · simp only [write, h, if_true, c.mine_put, c.get_put, c.put_put, Function.comp_apply]
  · simp only [write, h, Bool.false_eq_true, if_false]

theorem Column.get_write (c : Column ν ρ) (f : ν → ν) {r : ρ} (h : c.mine r = true) :
    c.get (c.write f r) = f (c.get r) := by
  rw [write, if_pos h, c.get_put]

-- Only the column is written.
theorem Column.write_eq_put (c : Column ν ρ) (f : ν → ν) (r : ρ) :
    c.write f r = c.put r (c.get (c.write f r)) := by
  rw [write]
  split_ifs
  · rw [c.get_put]
  · rw [c.put_get]

variable (key) (column : Column ν ρ) (size)

def Batch.flush (b : Batch κ ν ρ) : Batch κ ν ρ :=
  ⟨b.rows.map (column.write (apply key b.index)), []⟩

def Batch.add (b : Batch κ ν ρ) (c : κ × ν) : Batch κ ν ρ :=
  let index := Dict.set b.index c.1 c.2
  if size ≤ index.length then (Batch.mk b.rows index).flush key column else ⟨b.rows, index⟩

theorem Batch.rows_flush_foldl_add (b : Batch κ ν ρ) (changes : List (κ × ν)) :
    ((changes.foldl (Batch.add key size column) b).flush key column).rows =
      b.rows.map (column.write (settle key size b.index changes)) := by
  induction changes generalizing b with
  | nil => rfl
  | cons c changes ih =>
      rw [List.foldl_cons, ih]
      simp only [add, settle]
      split_ifs with hsize
      · simp only [flush, List.map_map]
        exact List.map_congr_left fun r _ => column.write_write _ _ r
      · rfl

end Rows

end Ccp.Lib.Batched
