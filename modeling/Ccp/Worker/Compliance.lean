import Ccp.Lib.Attempt
import Ccp.Worker.Reingest.Restructure

namespace Ccp.Worker.Compliance

open Lib FileOperations CreateSIP TransferBag Reingest.Restructure

variable {α : Type*}

section Restructure

def createDirectory (d : Disk Name α) (directory : List Name) : Option (Disk Name α) :=
  if d.isdir directory then some d else d.makedirs directory

-- item in REQUIRED_DIRECTORIES
def isRequiredItem (item : Name) : Bool := CreateSIP.requiredDirectories.any (· = [item])

def moveItem (d : Disk Name α) (item : Name) : Option (Disk Name α) :=
  if d.isdir [item] ∧ ¬ isRequiredItem item then d.move [item] [objects]
  else if d.isfile [item] ∧ ¬ isOptional item then d.move [item] [objects]
  else some d

-- The disk as it is left, and whether nothing was raised.
def restructureTransfer (d : Disk Name α) : Disk Name α × Bool :=
  match attempt createDirectory d CreateSIP.requiredDirectories with
  | (d, false) => (d, false)
  | (d, true) => attempt moveItem d (d.listdir [])

-- The route of a transfer that is no AIP, with the exit code.
def restructureForCompliance (d : Disk Name α) : Disk Name α × ℕ :=
  match restructureTransfer d with
  | (d, true) => (d, 0)
  | (d, false) => (d, 1)

end Restructure

section Verify

-- REQUIRED_DIRECTORIES and ALLOWABLE_FILES of the verification
def verifiedDirectories : List (List Name) :=
  [[objects], [logs], [metadata], [metadata, submissionDocumentation]]

def allowableFiles : List Name := [processingMCP]

def verifyDirectoriesExist (d : Disk Name α) (ret : ℕ) : ℕ :=
  verifiedDirectories.foldl (fun ret directory => if d.isdir directory then ret else ret + 1) ret

def verifyNothingElseAtTopLevel (d : Disk Name α) (ret : ℕ) : ℕ :=
  (d.listdir []).foldl
    (fun ret entry =>
      if d.isdir [entry] then
        if verifiedDirectories.any (· = [entry]) then ret else ret + 1
      else if entry ∈ allowableFiles then ret else ret + 1)
    ret

def isFile : Node α → Bool
  | .file _ => true
  | .dir => false

def verifyThereAreFiles (d : Disk Name α) (ret : ℕ) : ℕ :=
  if d.entries.any fun e => isFile e.2 then ret else ret + 1

-- checkDirectory walks the disk, and os.walk passes its errors over.
def verifyTransferCompliance (d : Disk Name α) : ℕ :=
  verifyThereAreFiles d (verifyNothingElseAtTopLevel d (verifyDirectoriesExist d 0))

end Verify

def HasFile (d : Disk Name α) : Prop := ∃ p c, d.node p = some (.file c)

structure Compliant (d : Disk Name α) : Prop where
  directories : ∀ p ∈ verifiedDirectories, d.node p = some .dir
  topDirectories : ∀ n, d.node [n] = some .dir → [n] ∈ verifiedDirectories
  topFiles : ∀ n c, d.node [n] = some (.file c) → n ∈ allowableFiles
  files : HasFile d

-- An item of the top level that has to go to the objects.
def Goes (d : Disk Name α) (n : Name) : Prop :=
  (d.node [n] = some .dir ∧ isRequiredItem n = false) ∨
    (∃ c, d.node [n] = some (.file c)) ∧ isOptional n = false

def goes (d : Disk Name α) (n : Name) : Bool :=
  d.isdir [n] && !isRequiredItem n || d.isfile [n] && !isOptional n

structure Restructurable (d : Disk Name α) : Prop where
  directories : ∀ p ∈ CreateSIP.requiredDirectories, d.isfile p = false
  places : ∀ n, Goes d n → d.node [objects, n] = none

-- Where a path of the transfer leads from once the items are under the objects.
def home (items : List Name) : List Name → List Name
  | [] => []
  | n :: r => if n ∈ items then objects :: n :: r else n :: r

-- Each file has one place, with its contents, and there are no others.
structure Kept (items : List Name) (d d' : Disk Name α) : Prop where
  goes : ∀ n ∈ items, Goes d n
  there : ∀ p c, d.node p = some (.file c) → d'.node (home items p) = some (.file c)
  back : ∀ q c, d'.node q = some (.file c) → ∃ p, home items p = q ∧ d.node p = some (.file c)
  apart : ∀ p p' c c', d.node p = some (.file c) → d.node p' = some (.file c') →
    home items p = home items p' → p = p'

section Accepted

variable {d : Disk Name α}

-- A count that starts from nothing comes to nothing where no item is counted.
theorem foldl_eq_zero_iff {ι : Type*} {f : ℕ → ι → ℕ} {P : ι → Prop}
    (h : ∀ ret x, f ret x = 0 ↔ ret = 0 ∧ P x) (ret : ℕ) (l : List ι) :
    l.foldl f ret = 0 ↔ ret = 0 ∧ ∀ x ∈ l, P x := by
  induction l generalizing ret with
  | nil => simp
  | cons x l ih => rw [List.foldl_cons, ih, h, List.forall_mem_cons, and_assoc]

theorem verifyDirectoriesExist_iff (ret : ℕ) :
    verifyDirectoriesExist d ret = 0 ↔ ret = 0 ∧ ∀ p ∈ verifiedDirectories, d.node p = some .dir := by
  rw [verifyDirectoriesExist, foldl_eq_zero_iff (P := fun p => d.node p = some .dir)]
  intro ret p
  rw [← Disk.isdir_iff]
  split <;> simp_all

theorem verifyNothingElseAtTopLevel_iff (ret : ℕ) :
    verifyNothingElseAtTopLevel d ret = 0 ↔ ret = 0 ∧
      (∀ n, d.node [n] = some .dir → [n] ∈ verifiedDirectories) ∧
      ∀ n c, d.node [n] = some (.file c) → n ∈ allowableFiles := by
  rw [verifyNothingElseAtTopLevel, foldl_eq_zero_iff (P := fun n =>
    (d.node [n] = some .dir → [n] ∈ verifiedDirectories) ∧
      (d.node [n] ≠ some .dir → n ∈ allowableFiles))]
  · refine and_congr_right fun _ => ⟨fun h => ⟨fun n hn => ?_, fun n c hn => ?_⟩, fun h n hn => ⟨h.1 n, ?_⟩⟩
    · exact (h n (Disk.mem_listdir.mpr (by simp [hn]))).1 hn
    · exact (h n (Disk.mem_listdir.mpr (by simp [hn]))).2 (by simp [hn])
    · intro hne
      obtain ⟨x, hx⟩ := Option.ne_none_iff_exists'.mp (Disk.mem_listdir.mp hn)
      cases x with
      | dir => exact absurd hx hne
      | file c => exact h.2 n c hx
  · intro ret n
    have hrequired : verifiedDirectories.any (· = [n]) = true ↔ [n] ∈ verifiedDirectories := by simp
    by_cases hdir : d.node [n] = some .dir
    · rw [if_pos (Disk.isdir_iff.mpr hdir)]
      split_ifs with h
      · simp [hdir, hrequired.mp h]
      · have hno : [n] ∉ verifiedDirectories := fun hmem => h (hrequired.mpr hmem)
        simp [hdir, hno]
    · rw [if_neg fun h => hdir (Disk.isdir_iff.mp h)]
      split_ifs with h <;> simp [hdir, h]

theorem hasFile_iff : HasFile d ↔ (d.entries.any fun e => isFile e.2) = true := by
  rw [List.any_eq_true]
  constructor
  · rintro ⟨p, c, h⟩
    rcases Disk.mem_of_node h with rfl | hmem
    · cases h
    · exact ⟨_, hmem, rfl⟩
  · rintro ⟨⟨p, x⟩, hmem, hx⟩
    cases x with
    | dir => cases hx
    | file c => exact ⟨p, c, (Disk.node_eq_some_iff (d.closed _ hmem).1).mpr hmem⟩

theorem verifyTransferCompliance_iff : verifyTransferCompliance d = 0 ↔ Compliant d := by
  have hfiles : ∀ ret, verifyThereAreFiles d ret = 0 ↔ ret = 0 ∧ HasFile d := by
    intro ret
    rw [verifyThereAreFiles, hasFile_iff]
    split_ifs with h
    · exact ⟨fun hret => ⟨hret, h⟩, And.left⟩
    · exact ⟨fun hret => hret.elim, fun hboth => absurd hboth.2 h⟩
  rw [verifyTransferCompliance, hfiles, verifyNothingElseAtTopLevel_iff, verifyDirectoriesExist_iff]
  constructor
  · rintro ⟨⟨⟨-, hdirs⟩, htop, htopFiles⟩, hfile⟩
    exact ⟨hdirs, htop, htopFiles, hfile⟩
  · intro h
    exact ⟨⟨⟨rfl, h.directories⟩, h.topDirectories, h.topFiles⟩, h.files⟩

-- What the verification allows at the top level is nothing that has to go.
theorem not_goes_of_compliant (h : Compliant d) (n : Name) : ¬ Goes d n := by
  rintro (⟨hdir, hrequired⟩ | ⟨⟨c, hfile⟩, hoptional⟩)
  · have hmem := h.topDirectories n hdir
    revert hrequired hmem
    simp only [verifiedDirectories, List.mem_cons, List.not_mem_nil, or_false, List.cons.injEq, and_true]
    rintro hrequired (rfl | rfl | rfl | ⟨rfl, hnil⟩)
    · exact absurd hrequired (by decide)
    · exact absurd hrequired (by decide)
    · exact absurd hrequired (by decide)
    · cases hnil
  · have hmem := h.topFiles n c hfile
    rw [allowableFiles, List.mem_singleton] at hmem
    rw [hmem] at hoptional
    exact absurd hoptional (by decide)

end Accepted

end Ccp.Worker.Compliance
