import Ccp.Lib.Disk.Track
import Ccp.Lib.PosixPath
import Ccp.Worker.FileOperations
import Mathlib.Data.List.Perm.Subperm

namespace Ccp.Worker.ChangeNames

open Lib FileOperations

-- ALLOWED_CHARS, the characters that are not replaced.
def allowed (c : Char) : Bool := c.isAlphanum || "-_.()".toList.contains c

def replacementChar : Char := '_'

-- unidecode is a package of its own, and any text may be what it makes of a name.
variable (unidecode : Str → Str)

def decodedName (basename : Name) : Str :=
  if unidecode basename.val = [] then basename.val else unidecode basename.val

def changedText (basename : Name) : Str :=
  (decodedName unidecode basename).map fun c => if allowed c then c else replacementChar

variable {unidecode}

theorem allowed_of_mem_changedText {basename : Name} {c : Char}
    (h : c ∈ changedText unidecode basename) : allowed c = true := by
  obtain ⟨c', -, rfl⟩ := List.mem_map.mp h
  split_ifs with hc
  · exact hc
  · decide

theorem toNat_lt_of_allowed {c : Char} (hc : allowed c = true) : c.toNat < 128 := by
  rw [allowed, Bool.or_eq_true] at hc
  rcases hc with hletter | hmark
  · -- the ranges of the letters and the digits
    have hranges : (decide ('A'.val ≤ c.val ∧ c.val ≤ 'Z'.val) ||
        (decide ('a'.val ≤ c.val) && decide (c.val ≤ 'z'.val)) ||
          (decide ('0'.val ≤ c.val) && decide (c.val ≤ '9'.val))) = true := hletter
    simp only [Bool.or_eq_true, Bool.and_eq_true, decide_eq_true_eq, UInt32.le_iff_toNat_le]
      at hranges
    have hval : c.toNat = c.val.toNat := rfl
    simp at hranges
    omega
  · have hmarks : "-_.()".toList.all (fun c => decide (c.toNat < 128)) = true := by decide
    exact of_decide_eq_true (List.all_eq_true.mp hmarks c (List.contains_iff_mem.mp hmark))

theorem name_of_allowed {s : Str} (hne : s ≠ []) (h : ∀ c ∈ s, allowed c = true) :
    s ≠ [] ∧ '/' ∉ s :=
  ⟨hne, fun hslash => absurd (h '/' hslash) (by decide)⟩

theorem changedText_ne_nil (basename : Name) : changedText unidecode basename ≠ [] := by
  rw [changedText, Ne, List.map_eq_nil_iff, decodedName]
  split_ifs with h
  · exact basename.2.1
  · exact h

variable (unidecode)

def changeName (basename : Name) : Name :=
  ⟨changedText unidecode basename,
    name_of_allowed (changedText_ne_nil basename) fun _ => allowed_of_mem_changedText⟩

-- s[:k]
def sliceTo (s : Str) (k : ℤ) : Str :=
  if 0 ≤ k then s.take k.toNat else s.take (s.length - (-k).toNat)

-- The n-th name that is tried for an entry.
def candidate (maxFilename : ℕ) (changedName : Name) (n : ℕ) : Str :=
  let title := (PosixPath.splitext changedName.val).1
  let ext := (PosixPath.splitext changedName.val).2
  let maxFileTitle : ℤ := maxFilename - ext.length
  if n = 0 then sliceTo title maxFileTitle ++ ext
  else
    sliceTo title (maxFileTitle - (1 + (Nat.toDigits 10 n).length)) ++
      replacementChar :: (Nat.toDigits 10 n ++ ext)

theorem name_of_not {s : Str} (h : ¬ (s = [] ∨ s.contains '/' = true ∨ s = ['.'] ∨ s = ['.', '.'])) :
    s ≠ [] ∧ '/' ∉ s := by
  rw [not_or, not_or, List.contains_iff_mem] at h
  exact ⟨h.1, h.2.1⟩

-- What can be the name of an entry. With any other text the path is that of the directory,
-- or of the one that it is in.
def entryName (s : Str) : Option Name :=
  if h : s = [] ∨ s.contains '/' = true ∨ s = ['.'] ∨ s = ['.', '.'] then none
  else some ⟨s, name_of_not h⟩

-- The first of the names that does not exist in a directory with so many entries.
def freeName (maxFilename : ℕ) (taken : Name → Bool) (entries : ℕ) (changedName : Name) :
    Option Name :=
  (List.range (entries + 2)).findSome? fun n =>
    (entryName (candidate maxFilename changedName n)).filter (!taken ·)

variable {α : Type*}

-- The name of the entry afterwards. A name that is too long for the file system exists
-- nowhere and cannot be given.
def changePath (maxFilename : ℕ) (dirname : List Name) (basename : Name) (d : Disk Name α) :
    Option (Disk Name α × Name) :=
  if basename = changeName unidecode basename then some (d, basename)
  else
    (freeName maxFilename (fun n => d.found (dirname ++ [n])) (d.listdir dirname).length
      (changeName unidecode basename)).bind fun name =>
        if maxFilename < name.val.length then none
        else (d.move (dirname ++ [basename]) (dirname ++ [name])).map (·, name)

-- What scandir gives for a directory, and then for those in it, in the order in which the
-- entries come.
inductive Listing
  | nil
  | file (name : Name) (rest : Listing)
  | dir (name : Name) (sub rest : Listing)

structure Change where
  oldPath : List Name
  changedPath : List Name
  isDir : Bool
deriving DecidableEq

-- Whether the name of the entry, or of a directory that it is in, was changed.
def Change.wasChanged (y : Change) : Bool := y.changedPath ≠ y.oldPath

def changeTree (maxFilename : ℕ) : Listing → (startPath oldStartPath : List Name) → Disk Name α →
    Option (Disk Name α × List Change)
  | .nil, _, _, d => some (d, [])
  | .file name rest, start, old, d =>
      (changePath unidecode maxFilename start name d).bind fun p =>
        (changeTree maxFilename rest start old p.1).map fun q =>
          (q.1, ⟨old ++ [name], start ++ [p.2], false⟩ :: q.2)
  | .dir name sub rest, start, old, d =>
      (changePath unidecode maxFilename start name d).bind fun p =>
        (changeTree maxFilename sub (start ++ [p.2]) (old ++ [name]) p.1).bind fun q =>
          (changeTree maxFilename rest start old q.1).map fun r =>
            (r.1, ⟨old ++ [name], start ++ [p.2], true⟩ :: q.2 ++ r.2)

variable {unidecode} {maxFilename : ℕ} {changedName : Name}

theorem entryName_eq_some_iff {s : Str} {name : Name} :
    entryName s = some name ↔ name.val = s ∧ s ≠ ['.'] ∧ s ≠ ['.', '.'] := by
  rw [entryName]
  constructor
  · intro h
    split_ifs at h with hs
    cases h
    simp only [not_or] at hs
    exact ⟨rfl, hs.2.2⟩
  · rintro ⟨rfl, hdot⟩
    rw [dif_neg (by simp [name.2.1, name.2.2, hdot])]

theorem allowed_of_mem_changeName {basename : Name} {c : Char}
    (h : c ∈ (changeName unidecode basename).val) : allowed c = true :=
  allowed_of_mem_changedText h

theorem allowed_of_mem_splitext {p : Str} (hp : ∀ c ∈ p, allowed c = true) {c : Char}
    (h : c ∈ (PosixPath.splitext p).1 ∨ c ∈ (PosixPath.splitext p).2) : allowed c = true := by
  simp only [PosixPath.splitext] at h
  split_ifs at h
  · rcases h with h | h
    · exact hp c (List.mem_of_mem_take h)
    · rcases List.mem_cons.mp h with rfl | h
      · decide
      · refine hp c ?_
        rw [← List.mem_reverse]
        exact List.takeWhile_subset _ (List.takeWhile_subset _ (List.mem_reverse.mp h))
  · rcases h with h | h
    · exact hp c h
    · cases h

theorem mem_of_mem_sliceTo {s : Str} {k : ℤ} {c : Char} (h : c ∈ sliceTo s k) : c ∈ s := by
  rw [sliceTo] at h
  split_ifs at h <;> exact List.mem_of_mem_take h

-- What is added to a name is allowed too.
theorem allowed_of_mem_candidate (h : ∀ c ∈ changedName.val, allowed c = true) {n : ℕ} {c : Char}
    (hc : c ∈ candidate maxFilename changedName n) : allowed c = true := by
  have hpart := fun c => allowed_of_mem_splitext (c := c) h
  rw [candidate] at hc
  split_ifs at hc
  · rcases List.mem_append.mp hc with hc | hc
    · exact hpart c (Or.inl (mem_of_mem_sliceTo hc))
    · exact hpart c (Or.inr hc)
  · rcases List.mem_append.mp hc with hc | hc
    · exact hpart c (Or.inl (mem_of_mem_sliceTo hc))
    · rcases List.mem_cons.mp hc with rfl | hc
      · decide
      · rcases List.mem_append.mp hc with hc | hc
        · have hdigit := Nat.isDigit_of_mem_toDigits (by decide) (by decide) hc
          simp [allowed, Char.isAlphanum, hdigit]
        · exact hpart c (Or.inr hc)

-- With a number there is always a name, and another one for another number.
theorem exists_entryName (h : ∀ c ∈ changedName.val, allowed c = true) (n : ℕ) :
    ∃ name, entryName (candidate maxFilename changedName (n + 1)) = some name := by
  have hmem : replacementChar ∈ candidate maxFilename changedName (n + 1) := by
    simp [candidate]
  refine ⟨⟨_, name_of_allowed (List.ne_nil_of_mem hmem) fun _ => allowed_of_mem_candidate h⟩,
    entryName_eq_some_iff.mpr ⟨rfl, ?_, ?_⟩⟩
  · intro heq
    rw [heq] at hmem
    revert hmem
    decide
  · intro heq
    rw [heq] at hmem
    revert hmem
    decide

theorem candidate_injective {m n : ℕ}
    (h : candidate maxFilename changedName (m + 1) = candidate maxFilename changedName (n + 1)) :
    m = n := by
  simp only [candidate, Nat.succ_ne_zero, if_false, ← List.cons_append, ← List.append_assoc,
    List.append_cancel_right_eq] at h
  have hdigits : ∀ n, replacementChar ∉ Nat.toDigits 10 n := fun _ => Nat.underscore_not_in_toDigits
  have hcut := congrArg (rpartition replacementChar) h
  rw [rpartition_append (hdigits _), rpartition_append (hdigits _)] at hcut
  have hnumber := congrArg (Nat.ofDigitChars 10 · 0) (Prod.mk.inj (Option.some.inj hcut)).2
  simp only [Nat.ofDigitChars_ten_toDigits] at hnumber
  exact Nat.succ.inj hnumber

theorem freeName_eq_some {taken : Name → Bool} {entries : ℕ} {name : Name}
    (h : freeName maxFilename taken entries changedName = some name) :
    taken name = false ∧ ∃ n, name.val = candidate maxFilename changedName n := by
  obtain ⟨n, -, hn⟩ := List.exists_of_findSome?_eq_some h
  obtain ⟨hname, htaken⟩ := Option.filter_eq_some_iff.mp hn
  exact ⟨by simpa using htaken, n, (entryName_eq_some_iff.mp hname).1⟩

-- The search ends: the names that are tried are more than those in the directory.
theorem freeName_ne_none (h : ∀ c ∈ changedName.val, allowed c = true) {taken : Name → Bool}
    {names : List Name} (htaken : ∀ name, taken name = true → name ∈ names) :
    freeName maxFilename taken names.length changedName ≠ none := by
  intro hnone
  rw [freeName, List.findSome?_eq_none_iff] at hnone
  have hsub : (List.range (names.length + 1)).map
      (fun n => candidate maxFilename changedName (n + 1)) ⊆ names.map Subtype.val := by
    intro s hs
    obtain ⟨n, hn, rfl⟩ := List.mem_map.mp hs
    have hexists : ∃ name, entryName (candidate maxFilename changedName (n + 1)) = some name :=
      exists_entryName h n
    obtain ⟨name, hname⟩ := hexists
    have hn' := hnone (n + 1) (List.mem_range.mpr (Nat.succ_lt_succ (List.mem_range.mp hn)))
    rw [hname, Option.filter_some] at hn'
    refine List.mem_map.mpr ⟨name, htaken name ?_, (entryName_eq_some_iff.mp hname).1⟩
    by_contra hfree
    simp [hfree] at hn'
  have hnodup : ((List.range (names.length + 1)).map
      fun n => candidate maxFilename changedName (n + 1)).Nodup :=
    List.nodup_range.map fun _ _ => candidate_injective
  have hlength := (hnodup.subperm hsub).length_le
  simp only [List.length_map, List.length_range] at hlength
  omega

end Ccp.Worker.ChangeNames
