import Mathlib.Data.List.Nodup

namespace Ccp.Lib

-- A Python dictionary: its items in the order in which their keys came in.
abbrev Dict (κ ν : Type*) := List (κ × ν)

namespace Dict

variable {κ ν : Type*} [DecidableEq κ]

def get? (d : Dict κ ν) (k : κ) : Option ν := (d.find? (·.1 = k)).map (·.2)

-- A key that is there keeps its place.
def set : Dict κ ν → κ → ν → Dict κ ν
  | [], k, v => [(k, v)]
  | (k', v') :: d, k, v => if k' = k then (k', v) :: d else (k', v') :: set d k v

theorem set_nil (k : κ) (v : ν) : set ([] : Dict κ ν) k v = [(k, v)] := rfl

theorem set_cons (item : κ × ν) (d : Dict κ ν) (k : κ) (v : ν) :
    set (item :: d) k v = if item.1 = k then (item.1, v) :: d else item :: set d k v := rfl

@[simp] theorem get?_nil (k : κ) : get? ([] : Dict κ ν) k = none := rfl

theorem get?_cons (k' : κ) (v' : ν) (d : Dict κ ν) (k : κ) :
    get? ((k', v') :: d) k = if k' = k then some v' else get? d k := by
  by_cases h : k' = k
  · simp [get?, h]
  · simp [get?, h]

theorem get?_set (d : Dict κ ν) (k k' : κ) (v : ν) :
    get? (set d k v) k' = if k = k' then some v else get? d k' := by
  induction d with
  | nil => rw [set_nil, get?_cons]
  | cons item d ih =>
      obtain ⟨k₀, v₀⟩ := item
      by_cases hk : k₀ = k
      · subst hk
        simp only [set_cons, if_true, get?_cons]
        split <;> rfl
      · simp only [set_cons, hk, if_false, get?_cons, ih]
        by_cases hk' : k₀ = k'
        · subst hk'
          simp [Ne.symm hk]
        · simp [hk']

theorem set_eq_append {d : Dict κ ν} {k : κ} (h : k ∉ d.map Prod.fst) (v : ν) :
    set d k v = d ++ [(k, v)] := by
  induction d with
  | nil => rfl
  | cons item d ih =>
      simp only [List.map_cons, List.mem_cons, not_or] at h
      simp only [set_cons, Ne.symm h.1, if_false, List.cons_append, ih h.2]

-- The first item with the key counts.

theorem get?_append_cons {front : Dict κ ν} {k : κ} (h : k ∉ front.map Prod.fst) (v : ν)
    (back : Dict κ ν) : get? (front ++ (k, v) :: back) k = some v := by
  induction front with
  | nil => simp [get?_cons]
  | cons item front ih =>
      simp only [List.map_cons, List.mem_cons, not_or] at h
      rw [List.cons_append, get?_cons, if_neg (Ne.symm h.1), ih h.2]

theorem set_append_cons {front : Dict κ ν} {k : κ} (h : k ∉ front.map Prod.fst) (v v' : ν)
    (back : Dict κ ν) : set (front ++ (k, v) :: back) k v' = front ++ (k, v') :: back := by
  induction front with
  | nil => simp [set_cons]
  | cons item front ih =>
      simp only [List.map_cons, List.mem_cons, not_or] at h
      simp only [List.cons_append, set_cons, Ne.symm h.1, if_false, ih h.2]

theorem keys_set_of_mem {d : Dict κ ν} {k : κ} (h : k ∈ d.map Prod.fst) (v : ν) :
    (set d k v).map Prod.fst = d.map Prod.fst := by
  induction d with
  | nil => exact absurd h List.not_mem_nil
  | cons item d ih =>
      obtain ⟨k', v'⟩ := item
      by_cases hk : k' = k
      · rw [set_cons, if_pos hk]
        rfl
      · rw [List.map_cons, List.mem_cons] at h
        rw [set_cons, if_neg hk, List.map_cons, List.map_cons,
          ih (h.resolve_left fun heq => hk heq.symm)]

theorem get?_eq_none_iff {d : Dict κ ν} {k : κ} : get? d k = none ↔ k ∉ d.map Prod.fst := by
  induction d with
  | nil => simp
  | cons item d ih =>
      rw [get?_cons, List.map_cons, List.mem_cons, not_or, ← ih]
      by_cases h : item.1 = k
      · simp [h]
      · simp [h, Ne.symm h]

-- del of a key that may be missing.
def erase (d : Dict κ ν) (k : κ) : Dict κ ν := d.filter (·.1 ≠ k)

theorem get?_erase (d : Dict κ ν) (k k' : κ) :
    get? (erase d k) k' = if k = k' then none else get? d k' := by
  induction d with
  | nil => simp [erase]
  | cons item d ih =>
      obtain ⟨k₀, v₀⟩ := item
      rw [erase] at ih
      by_cases hk : k₀ = k
      · subst hk
        rw [erase, List.filter_cons_of_neg (by simp), ih, get?_cons]
        split_ifs <;> rfl
      · rw [erase, List.filter_cons_of_pos (by simpa using hk), get?_cons, get?_cons, ih]
        by_cases hk' : k₀ = k'
        · simp [← hk', Ne.symm hk]
        · simp [hk']

-- d[k] = f(d[k]) where there is such a key.
def modify (d : Dict κ ν) (k : κ) (f : ν → ν) : Dict κ ν :=
  match get? d k with
  | none => d
  | some v => set d k (f v)

theorem get?_modify (d : Dict κ ν) (k k' : κ) (f : ν → ν) :
    get? (modify d k f) k' = if k = k' then (get? d k').map f else get? d k' := by
  unfold modify
  cases hk : get? d k with
  | none =>
      split_ifs with h
      · rw [← h, hk]
        rfl
      · rfl
  | some v =>
      rw [get?_set]
      split_ifs with h
      · rw [← h, hk]
        rfl
      · rfl

theorem mem_of_get? {d : Dict κ ν} {k : κ} {v : ν} (h : get? d k = some v) : (k, v) ∈ d := by
  obtain ⟨item, hitem, rfl⟩ := Option.map_eq_some_iff.mp h
  have hk : item.1 = k := by simpa using List.find?_some hitem
  exact hk ▸ List.mem_of_find?_eq_some hitem

theorem get?_eq_some_iff {d : Dict κ ν} (h : (d.map Prod.fst).Nodup) {k : κ} {v : ν} :
    get? d k = some v ↔ (k, v) ∈ d := by
  induction d with
  | nil => simp
  | cons item d ih =>
      rw [List.map_cons, List.nodup_cons] at h
      rw [get?_cons, List.mem_cons, ← ih h.2]
      by_cases hk : item.1 = k
      · have hnone : get? d k = none := get?_eq_none_iff.mpr (hk ▸ h.1)
        simp [hk, hnone, Prod.ext_iff, eq_comm]
      · simp [hk, Prod.ext_iff, Ne.symm hk]

theorem keys_set_nodup {d : Dict κ ν} (h : (d.map Prod.fst).Nodup) (k : κ) (v : ν) :
    ((set d k v).map Prod.fst).Nodup := by
  by_cases hk : k ∈ d.map Prod.fst
  · rwa [keys_set_of_mem hk]
  · rw [set_eq_append hk, List.map_append, List.map_singleton, List.nodup_append_comm,
      List.singleton_append, List.nodup_cons]
    exact ⟨hk, h⟩

theorem keys_modify (d : Dict κ ν) (k : κ) (f : ν → ν) :
    (modify d k f).map Prod.fst = d.map Prod.fst := by
  unfold modify
  cases hk : get? d k with
  | none => rfl
  | some v =>
      have hmem : k ∈ d.map Prod.fst := List.mem_map.mpr ⟨(k, v), mem_of_get? hk, rfl⟩
      exact keys_set_of_mem hmem (f v)

theorem get?_foldl_modify {α : Type*} (key : α → κ) (f : α → ν → ν) (l : List α) (d : Dict κ ν) (k : κ) :
    get? (l.foldl (fun d a => modify d (key a) (f a)) d) k =
      (get? d k).map fun v => (l.filter (key · = k)).foldl (fun v a => f a v) v := by
  induction l generalizing d with
  | nil => simp
  | cons a l ih =>
      rw [List.foldl_cons, ih, get?_modify]
      by_cases hk : key a = k
      · rw [if_pos hk, List.filter_cons_of_pos (by simpa using hk), Option.map_map]
        rfl
      · rw [if_neg hk, List.filter_cons_of_neg (by simpa using hk)]

theorem keys_foldl_modify {α : Type*} (key : α → κ) (f : α → ν → ν) (l : List α) (d : Dict κ ν) :
    (l.foldl (fun d a => modify d (key a) (f a)) d).map Prod.fst = d.map Prod.fst := by
  induction l generalizing d with
  | nil => rfl
  | cons a l ih => rw [List.foldl_cons, ih, keys_modify]

theorem get?_map (f : κ → ν → ν) (d : Dict κ ν) (k : κ) :
    get? (d.map fun e => (e.1, f e.1 e.2)) k = (get? d k).map (f k) := by
  induction d with
  | nil => rfl
  | cons e d ih =>
      rw [List.map_cons, get?_cons, ih, get?_cons]
      by_cases hk : e.1 = k
      · rw [if_pos hk, if_pos hk, hk]
        rfl
      · rw [if_neg hk, if_neg hk]

-- A dictionary that is filled from a list has the last item of each key.
section Filled

variable {α : Type*} (key : α → κ) (val : α → ν)

theorem get?_foldl_set (l : List α) (d : Dict κ ν) (k : κ) :
    get? (l.foldl (fun d a => set d (key a) (val a)) d) k =
      ((l.reverse.find? fun a => key a = k).map val).or (get? d k) := by
  induction l generalizing d with
  | nil => rfl
  | cons a l ih =>
      rw [List.foldl_cons, ih, List.reverse_cons, List.find?_append, get?_set, Option.map_or,
        Option.or_assoc]
      congr 1
      by_cases h : key a = k
      · simp [h]
      · simp [h]

theorem keys_foldl_set_nodup (l : List α) {d : Dict κ ν} (h : (d.map Prod.fst).Nodup) :
    ((l.foldl (fun d a => set d (key a) (val a)) d).map Prod.fst).Nodup := by
  induction l generalizing d with
  | nil => exact h
  | cons a l ih => exact ih (keys_set_nodup h (key a) (val a))

end Filled

-- New keys, each of them once, go to the end.
theorem foldl_set_eq_append {α : Type*} (key : α → κ) (val : α → ν) {l : List α} {d : Dict κ ν}
    (hnodup : (l.map key).Nodup) (hnew : ∀ a ∈ l, key a ∉ d.map Prod.fst) :
    l.foldl (fun d a => set d (key a) (val a)) d = d ++ l.map fun a => (key a, val a) := by
  induction l generalizing d with
  | nil => simp
  | cons a l ih =>
      rw [List.map_cons, List.nodup_cons] at hnodup
      rw [List.foldl_cons, set_eq_append (hnew a List.mem_cons_self), ih hnodup.2]
      · simp
      · intro b hb hmem
        rw [List.map_append, List.mem_append] at hmem
        rcases hmem with hmem | hmem
        · exact hnew b (List.mem_cons_of_mem a hb) hmem
        · have hkey : key b = key a := by simpa using hmem
          exact hnodup.1 (hkey ▸ List.mem_map_of_mem hb)

end Dict

end Ccp.Lib
