import Mathlib.Data.List.Basic

namespace Ccp.Lib

-- Arrays by their number, each as far as it has been written.
abbrev Heap (α : Type*) := List (List α)

-- A window on an array that other windows may share.
structure Slice where
  array : Nat
  off : Nat
  len : Nat
  cap : Nat
deriving DecidableEq

namespace Slice

variable {α : Type*}

def cells (h : Heap α) (s : Slice) : List α := h[s.array]?.getD []

def read (h : Heap α) (s : Slice) : List α := ((s.cells h).drop s.off).take s.len

-- What the window shows has been written.
def Valid (h : Heap α) (s : Slice) : Prop :=
  s.array < h.length ∧ s.off + s.len ≤ (s.cells h).length

def write (cells : List α) (i : Nat) (a : α) : List α := cells.take i ++ a :: cells.drop (i + 1)

-- Within its capacity a slice grows over what stands behind it in the array. A
-- new array has a capacity of the runtime's choice.
def append (h : Heap α) (s : Slice) (a : α) : Heap α × Slice :=
  if s.len < s.cap then
    (h.set s.array (write (s.cells h) (s.off + s.len) a), { s with len := s.len + 1 })
  else (h ++ [s.read h ++ [a]], ⟨h.length, 0, s.len + 1, 2 * s.cap + 1⟩)

-- s[i:]
def drop (s : Slice) (i : Nat) : Slice := ⟨s.array, s.off + i, s.len - i, s.cap - i⟩

-- s[:i]
def take (s : Slice) (i : Nat) : Slice := { s with len := i }

variable {h : Heap α} {s : Slice}

theorem length_read (hv : s.Valid h) : (s.read h).length = s.len := by
  have hbound := hv.2
  simp only [read, List.length_take, List.length_drop]
  omega

theorem read_append (hv : s.Valid h) (a : α) :
    (append h s a).2.read (append h s a).1 = s.read h ++ [a] := by
  obtain ⟨harray, hbound⟩ := hv
  unfold append
  split_ifs with hcap
  · have hcells : cells (h.set s.array (write (s.cells h) (s.off + s.len) a))
        { s with len := s.len + 1 } = write (s.cells h) (s.off + s.len) a := by
      simp [cells, harray]
    rw [read, hcells, read, write, List.drop_append_of_le_length (by simp; omega),
      List.drop_take, Nat.add_sub_cancel_left, List.take_append]
    simp only [List.length_take, List.length_drop, List.take_take]
    rw [Nat.min_eq_right (Nat.le_succ _), Nat.min_eq_left (by omega), Nat.add_sub_cancel_left]
    rfl
  · have hcells : cells (h ++ [s.read h ++ [a]]) ⟨h.length, 0, s.len + 1, 2 * s.cap + 1⟩ =
        s.read h ++ [a] := by
      simp [cells]
    rw [read, hcells]
    simp only [List.drop_zero]
    exact List.take_of_length_le (by simp [length_read ⟨harray, hbound⟩])

theorem valid_append (hv : s.Valid h) (a : α) : (append h s a).2.Valid (append h s a).1 := by
  obtain ⟨harray, hbound⟩ := hv
  unfold append
  split_ifs with hcap
  · refine ⟨by simpa using harray, ?_⟩
    simp only [cells, List.getElem?_set, harray, if_true, Option.getD_some, write] at hbound ⊢
    simp only [List.length_append, List.length_take, List.length_cons, List.length_drop]
    omega
  · exact ⟨by simp, by simp [cells, length_read ⟨harray, hbound⟩]⟩

@[simp] theorem len_append (h : Heap α) (s : Slice) (a : α) : (append h s a).2.len = s.len + 1 := by
  unfold append
  split_ifs <;> rfl

theorem valid_take (hv : s.Valid h) {i : Nat} (hi : i ≤ s.len) : (s.take i).Valid h := by
  obtain ⟨harray, hbound⟩ := hv
  refine ⟨harray, ?_⟩
  simp only [take, cells] at hbound ⊢
  omega

end Slice

end Ccp.Lib
