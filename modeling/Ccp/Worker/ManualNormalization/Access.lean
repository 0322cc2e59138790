import Ccp.Lib.Numbering
import Ccp.Lib.Table
import Ccp.Worker.ManualNormalization
import Mathlib.Data.Nat.Digits.Defs

namespace Ccp.Worker.ManualNormalization

open Lib

namespace Access

-- The exceptions of the second script: a name that was given no value, an option that the
-- parser does not have, a path that is not there.
inductive Fault
  | unboundLocal
  | attributeError
  | osError
deriving DecidableEq

structure Disk where
  dirs : List Str
  files : List Str
deriving DecidableEq

def Disk.paths (d : Disk) : List Str := d.dirs ++ d.files

inductive Result
  | moved (original : Row) (d : Disk)
  | status (code : Int)
deriving DecidableEq

def accessDirectory (sip : Directory) : Str :=
  PosixPath.join (PosixPath.join (PosixPath.join sip.path "objects".toList)
    "manualNormalization".toList) "access".toList

-- filePathLike, and filePathLike2 where it is given a value.
def filePathLike (sip : Directory) (filePath : Str) : Str × Option Str :=
  let like := replaceFirst (accessDirectory sip) "%SIPDirectory%objects".toList filePath
  match rpartition '.' like with
  | some (name, _) => (name ++ ['.'], some name)
  | none => (like, none)

-- The keyword arguments of both queries.
def isLive (row : Row) : Bool := !row.removed && row.filegrpuse = "original".toList

def startingWith (rows : List Row) (like : Str) : List Row :=
  rows.filter fun row => row.startsWith like && isLive row

def locatedAt (rows : List Row) (location : Str) : List Row :=
  rows.filter fun row => row.currentlocation = some location && isLive row

-- The text of both messages asks the options for SIPDirectory; they have sipDirectory.
def optsSIPDirectory : Except Fault Str := .error .attributeError

-- The original, or the status that the script returns without one.
def findOriginal (sip : Directory) (rows : List Row) (filePath : Str) : Except Fault (Row ⊕ Int) :=
  let like := filePathLike sip filePath
  match Table.get (startingWith rows like.1) with
  | .row f => .ok (.inl f)
  | _ =>
      match like.2 with
      | none => .error .unboundLocal
      | some like2 =>
          match Table.get (locatedAt rows like2) with
          | .row f => .ok (.inl f)
          | .missing => optsSIPDirectory.map fun _ => .inr 3
          | .several => optsSIPDirectory.map fun _ => .inr 2

def dip (sip : Directory) : Str := PosixPath.join sip.path "DIP".toList

def dstDir (sip : Directory) : Str := PosixPath.join (dip sip) "objects".toList

def dstFile (original : UUID) (filePath : Str) (i : ℕ) : Str :=
  if i = 0 then original.string ++ '-' :: PosixPath.basename filePath
  else original.string ++ '-' :: (Nat.toDigits 10 i ++ '-' :: PosixPath.basename filePath)

-- os.mkdir, without effect where it raises.
def Disk.mkdir (d : Disk) (path : Str) : Disk :=
  if d.paths.contains path || !d.dirs.contains (PosixPath.dirname path) then d
  else { d with dirs := path :: d.dirs }

-- os.makedirs in the directory of the SIP, its exceptions passed over.
def makedirs (sip : Directory) (d : Disk) : Disk :=
  if d.dirs.contains (dstDir sip) then d else (d.mkdir (dip sip)).mkdir (dstDir sip)

def rename (src : Str) (dir name : Str) (d : Disk) : Except Fault Disk :=
  if d.files.contains src && d.dirs.contains dir then
    .ok { d with files := PosixPath.join dir name :: d.files.erase src }
  else .error .osError

-- The first name that does not exist.
def uniqueName (sip : Directory) (original : UUID) (filePath : Str) (d : Disk) : Str :=
  dstFile original filePath ((firstFree d.paths fun i =>
    PosixPath.join (dstDir sip) (dstFile original filePath i)).getD 0)

def main (sip : Directory) (filePath : Str) (rows : List Row) (d : Disk) : Except Fault Result :=
  match findOriginal sip rows filePath with
  | .error e => .error e
  | .ok (.inr code) => .ok (.status code)
  | .ok (.inl f) =>
      (rename filePath (dstDir sip) (uniqueName sip f.uuid filePath d) (makedirs sip d)).map
        (.moved f)

end Access

-- The name that the original has to have, alone or before a dot.
def stem (rel : Str) : Str :=
  if (PosixPath.basename rel).contains '.' then ((rpartition '.' rel).map (·.1)).getD rel else rel

def originals (rows : List Row) (rel : Str) : List Row :=
  rows.filter (·.isOriginal (objects ++ stem rel))

-- The two files of one relative name.
def preservationFile (sip : Directory) (rel : Str) : Str :=
  onDisk sip (objects ++ manualNormalization ++ rel)

def accessFile (sip : Directory) (rel : Str) : Str :=
  onDisk sip (objects ++ ("manualNormalization/access/".toList ++ rel))

-- The world after the file was renamed and its row updated.
def World.renamed (w : World) (sip : Directory) (uuid : UUID) (src dst : Str) : World :=
  { w with
    disk := dst :: w.disk.erase src
    rows := w.rows.map fun row =>
      if row.uuid = uuid then
        { row with currentlocation := some (replaceFirst sip.path sipDirectory dst) } else row }

-- The preservation file is beside the original, and the database has it there, with the
-- event of the original and, where that is new, the derivation.
structure Linked (sip : Directory) (w w' : World) (o : Row) (uuid : UUID) (src dst : Str) : Prop where
  disk : w'.disk = dst :: w.disk.erase src
  rows : w'.rows = w.rows.map fun row =>
    if row.uuid = uuid then
      { row with currentlocation := some (replaceFirst sip.path sipDirectory dst) } else row
  event : ∃ e ∈ w'.events, e.fileUUID = o.uuid ∧ e.eventType = normalization ∧
    e.eventOutcomeDetail = replaceFirst sip.path sipDirectory dst
  derivation : w.normalizations o.uuid = [] → (o.uuid, uuid) ∈ w'.derivations

-- The access file is among the objects of the DIP, under a new name with the identifier of
-- the original.
structure Moved (sip : Directory) (d d' : Access.Disk) (o : Row) (src : Str) : Prop where
  dir : Access.dstDir sip ∈ d'.dirs
  files : ∃ name, o.uuid.string ++ ['-'] <+: name ∧
    PosixPath.join (Access.dstDir sip) name ∉ d.paths ∧
    d'.files = PosixPath.join (Access.dstDir sip) name :: d.files.erase src

-- What both scripts are to do for one relative name. A status leaves the disk and the
-- database as they are.
structure Contract (sip : Directory) (w : World) (d : Access.Disk) (uuid : UUID) (rel : Str) :
    Prop where
  one : ∀ o, originals w.rows rel = [o] →
    (∃ w', main sip uuid (preservationFile sip rel) w = .ok (.paired o w') ∧
      Linked sip w w' o uuid (preservationFile sip rel)
        (destination sip o.key uuid (preservationFile sip rel))) ∧
    ∃ d', Access.main sip (accessFile sip rel) w.rows d = .ok (.moved o d') ∧
      Moved sip d d' o (accessFile sip rel)
  missing : originals w.rows rel = [] →
    main sip uuid (preservationFile sip rel) w = .ok (.status 3) ∧
      Access.main sip (accessFile sip rel) w.rows d = .ok (.status 3)
  several : 2 ≤ (originals w.rows rel).length →
    main sip uuid (preservationFile sip rel) w = .ok (.status 2) ∧
      Access.main sip (accessFile sip rel) w.rows d = .ok (.status 2)

-- The name has an extension and one original, and both files can be moved.
def Single (sip : Directory) (w : World) (d : Access.Disk) (uuid : UUID) (rel : Str) : Prop :=
  '.' ∈ PosixPath.basename rel ∧ ∃ o, originals w.rows rel = [o] ∧
    Movable w (preservationFile sip rel) (destination sip o.key uuid (preservationFile sip rel)) ∧
    (w.normalizations o.uuid).length ≤ 1 ∧ accessFile sip rel ∈ d.files ∧
    Access.dstDir sip ∈ (Access.makedirs sip d).dirs

theorem stem_append {s ext : Str} (hdot : '.' ∉ ext) (hslash : '/' ∉ ext) :
    stem (s ++ '.' :: ext) = s := by
  have hmem : '.' ∈ PosixPath.basename (s ++ '.' :: ext) :=
    PosixPath.dot_mem_basename_iff.mpr ⟨s, ext, rfl, hdot, hslash⟩
  rw [stem, if_pos (List.contains_iff_mem.mpr hmem), rpartition_append hdot]
  rfl

section Preservation

variable {sip : Directory} {w : World} {uuid : UUID} {rel : Str} {o : Row}

theorem filePathLike_of_dot (h : '.' ∈ PosixPath.basename rel) :
    filePathLike sip (preservationFile sip rel) = some (objects ++ stem rel) := by
  obtain ⟨s, ext, rfl, hdot, hslash⟩ := PosixPath.dot_mem_basename_iff.mp h
  rw [stem_append hdot hslash]
  exact filePathLike_eq_some_iff.mpr ⟨s, ext, rfl, hdot, hslash, rfl⟩

theorem filePathLike_of_not_dot (h : '.' ∉ PosixPath.basename rel) :
    filePathLike sip (preservationFile sip rel) = none := by
  rw [Option.eq_none_iff_forall_ne_some]
  intro like hlike
  obtain ⟨s, ext, hrel, hdot, hslash, -⟩ := filePathLike_eq_some_iff.mp hlike
  exact h (PosixPath.dot_mem_basename_iff.mpr ⟨s, ext, hrel, hdot, hslash⟩)

-- A status of the script itself is only that of a file in the way.
theorem main_eq_ok {r : Result} (h : main sip uuid (preservationFile sip rel) w = .ok r) :
    '.' ∈ PosixPath.basename rel ∧ ∃ o, originals w.rows rel = [o] ∧
      relocate sip o uuid (preservationFile sip rel) w = .ok r := by
  rw [main] at h
  by_cases hdot : '.' ∈ PosixPath.basename rel
  · rw [filePathLike_of_dot hdot] at h
    dsimp only at h
    split at h
    · next o ho => exact ⟨hdot, o, ho, h⟩
    · cases h
  · rw [filePathLike_of_not_dot hdot] at h
    cases h

theorem main_of_single (hdot : '.' ∈ PosixPath.basename rel) (ho : originals w.rows rel = [o]) :
    main sip uuid (preservationFile sip rel) w =
      relocate sip o uuid (preservationFile sip rel) w := by
  rw [originals] at ho
  rw [main, filePathLike_of_dot hdot]
  dsimp only
  rw [ho]

theorem link_spec {dstR : Str} (hevents : (w.normalizations o.uuid).length ≤ 1) :
    ∃ w', link o.uuid uuid dstR w = .ok w' ∧ w'.disk = w.disk ∧ w'.rows = w.rows ∧
      (∃ e ∈ w'.events, e.fileUUID = o.uuid ∧ e.eventType = normalization ∧
        e.eventOutcomeDetail = dstR) ∧
      (w.normalizations o.uuid = [] → (o.uuid, uuid) ∈ w'.derivations) := by
  unfold link
  match hn : w.normalizations o.uuid with
  | [] =>
      refine ⟨_, rfl, rfl, rfl, ⟨_, List.mem_append_right _ (List.mem_singleton_self _), rfl, rfl, rfl⟩,
        fun _ => List.mem_append_right _ (List.mem_singleton_self _)⟩
  | [event] =>
      have hmem : event ∈ w.normalizations o.uuid := hn ▸ List.mem_singleton_self event
      obtain ⟨hevent, hof⟩ := List.mem_filter.mp hmem
      obtain ⟨hfile, htype⟩ := of_decide_eq_true hof
      refine ⟨_, rfl, rfl, rfl, ⟨{ event with eventOutcomeDetail := dstR },
        List.mem_map.mpr ⟨event, hevent, if_pos rfl⟩, hfile, htype, rfl⟩, nofun⟩
  | a :: b :: rest =>
      rw [hn] at hevents
      simp at hevents

theorem relocate_of_movable {filePath : Str}
    (hmove : Movable w filePath (destination sip o.key uuid filePath))
    (hevents : (w.normalizations o.uuid).length ≤ 1) :
    ∃ w', relocate sip o uuid filePath w = .ok (.paired o w') ∧
      Linked sip w w' o uuid filePath (destination sip o.key uuid filePath) := by
  have hfree : ¬ w.disk.contains (destination sip o.key uuid filePath) = true := fun h =>
    hmove.free (List.contains_iff_mem.mp h)
  have hthere : (w.disk.contains filePath &&
      w.disk.contains (PosixPath.dirname (destination sip o.key uuid filePath))) = true := by
    rw [Bool.and_eq_true, List.contains_iff_mem, List.contains_iff_mem]
    exact ⟨hmove.there, hmove.directory⟩
  have hrelocate : relocate sip o uuid filePath w =
      (link o.uuid uuid (replaceFirst sip.path sipDirectory (destination sip o.key uuid filePath))
        (w.renamed sip uuid filePath (destination sip o.key uuid filePath))).map
          (Result.paired o) := by
    simp only [relocate]
    rw [if_neg hfree, if_pos hthere]
    rfl
  have hrenamed : ((w.renamed sip uuid filePath
      (destination sip o.key uuid filePath)).normalizations o.uuid).length ≤ 1 := hevents
  obtain ⟨w', hlink, hdisk, hrows, hevent, hderivation⟩ := link_spec hrenamed
  rw [hrelocate, hlink]
  exact ⟨w', rfl, hdisk, hrows, hevent, hderivation⟩

end Preservation

namespace Access

variable {sip : Directory} {rows : List Row} {d : Disk} {rel : Str} {o f : Row}

theorem accessDirectory_eq (sip : Directory) :
    accessDirectory sip = sip.path ++ "objects/manualNormalization/access".toList := by
  have hobjects : PosixPath.join sip.path "objects".toList = sip.path ++ "objects".toList := by
    rw [PosixPath.join, if_neg (by decide), if_pos (Or.inr sip.trailing)]
  have hrest : PosixPath.join (PosixPath.join "objects".toList "manualNormalization".toList)
      "access".toList = "objects/manualNormalization/access".toList := by decide
  rw [accessDirectory, hobjects, PosixPath.join_append (by decide) (by decide),
    PosixPath.join_append (by decide) (by decide), hrest]

theorem accessFile_eq (sip : Directory) (rel : Str) :
    accessFile sip rel = accessDirectory sip ++ '/' :: rel := by
  have htext : "objects/".toList ++ "manualNormalization/access/".toList =
      "objects/manualNormalization/access".toList ++ ['/'] := by decide
  rw [accessFile, onDisk_objects, accessDirectory_eq, ← List.append_assoc _ _ rel, htext]
  simp only [List.append_assoc, List.singleton_append]

theorem filePathLike_of_dot (h : '.' ∈ PosixPath.basename rel) :
    filePathLike sip (accessFile sip rel) =
      (objects ++ stem rel ++ ['.'], some (objects ++ stem rel)) := by
  obtain ⟨s, ext, rfl, hdot, hslash⟩ := PosixPath.dot_mem_basename_iff.mp h
  rw [stem_append hdot hslash, filePathLike, accessFile_eq, replaceFirst_self_append,
    ← objects_append, ← List.append_assoc, rpartition_append hdot]

theorem isOriginal_eq (row : Row) (like : Str) : row.isOriginal like =
    (row.startsWith (like ++ ['.']) && isLive row ||
      (decide (row.currentlocation = some like) && isLive row)) := by
  rw [Row.isOriginal, isLive, ← Bool.and_or_distrib_right, Bool.and_assoc]

-- Of two queries whose rows together are one row, the first or else the second has it.
theorem filter_of_or {p q : Row → Bool} (h : rows.filter (fun r => p r || q r) = [o]) :
    rows.filter p = [o] ∨ rows.filter p = [] ∧ rows.filter q = [o] := by
  have hsub : ∀ c : Row → Bool, (∀ r, c r = true → (p r || q r) = true) →
      rows.filter c = [o].filter c := by
    intro c hc
    rw [← h, List.filter_filter]
    refine List.filter_congr fun r _ => ?_
    cases hr : c r with
    | false => rfl
    | true => rw [hc r hr]; rfl
  have hp := hsub p fun r hr => by rw [hr, Bool.true_or]
  have hq := hsub q fun r hr => by rw [hr, Bool.or_true]
  have ho : (p o || q o) = true := by
    have hmem : o ∈ rows.filter fun r => p r || q r := h ▸ List.mem_singleton_self o
    exact (List.mem_filter.mp hmem).2
  cases hpo : p o with
  | true =>
      rw [List.filter_singleton, hpo] at hp
      exact Or.inl hp
  | false =>
      rw [hpo, Bool.false_or] at ho
      rw [List.filter_singleton, hpo] at hp
      rw [List.filter_singleton, ho] at hq
      exact Or.inr ⟨hp, hq⟩

theorem findOriginal_of_single (hdot : '.' ∈ PosixPath.basename rel)
    (ho : originals rows rel = [o]) :
    findOriginal sip rows (accessFile sip rel) = .ok (.inl o) := by
  simp only [originals, isOriginal_eq] at ho
  rw [findOriginal, filePathLike_of_dot hdot]
  dsimp only
  rcases filter_of_or ho with hone | ⟨hnone, hone⟩
  · have hget : Table.get (startingWith rows (objects ++ stem rel ++ ['.'])) = .row o :=
      Table.get_eq_row_iff.mpr hone
    rw [hget]
  · have hget : Table.get (startingWith rows (objects ++ stem rel ++ ['.'])) = .missing :=
      Table.get_eq_missing_iff.mpr hnone
    have hgot : Table.get (locatedAt rows (objects ++ stem rel)) = .row o :=
      Table.get_eq_row_iff.mpr hone
    rw [hget]
    dsimp only
    rw [hgot]

-- The messages raise before a status is returned.
theorem findOriginal_ne_inr (filePath : Str) (code : Int) :
    findOriginal sip rows filePath ≠ .ok (.inr code) := by
  intro h
  rw [findOriginal] at h
  split at h
  · cases h
  · split at h
    · cases h
    · split at h
      · cases h
      · cases h
      · cases h

theorem main_of_found {filePath : Str} (h : findOriginal sip rows filePath = .ok (.inl f)) :
    main sip filePath rows d =
      (rename filePath (dstDir sip) (uniqueName sip f.uuid filePath d) (makedirs sip d)).map
        (.moved f) := by
  rw [main, h]

theorem main_ne_status (filePath : Str) (code : Int) :
    main sip filePath rows d ≠ .ok (.status code) := by
  intro h
  rcases hfound : findOriginal sip rows filePath with e | f | c
  · rw [main, hfound] at h
    cases h
  · rw [main_of_found hfound] at h
    cases hmoved : rename filePath (dstDir sip) (uniqueName sip f.uuid filePath d)
        (makedirs sip d) with
    | error e =>
        rw [hmoved] at h
        cases h
    | ok d' =>
        rw [hmoved] at h
        cases h
  · exact findOriginal_ne_inr filePath c hfound

theorem rename_eq_ok_iff {src dir name : Str} {d' : Disk} :
    rename src dir name d = .ok d' ↔ src ∈ d.files ∧ dir ∈ d.dirs ∧
      d' = { d with files := PosixPath.join dir name :: d.files.erase src } := by
  rw [rename]
  split_ifs with h
  · rw [Bool.and_eq_true, List.contains_iff_mem, List.contains_iff_mem] at h
    constructor
    · intro hok
      exact ⟨h.1, h.2, (Except.ok.inj hok).symm⟩
    · rintro ⟨-, -, rfl⟩
      rfl
  · rw [Bool.and_eq_true, List.contains_iff_mem, List.contains_iff_mem] at h
    constructor
    · intro hok
      cases hok
    · rintro ⟨hsrc, hdir, -⟩
      exact absurd ⟨hsrc, hdir⟩ h

@[simp] theorem mkdir_files (d : Disk) (path : Str) : (d.mkdir path).files = d.files := by
  unfold Disk.mkdir
  split_ifs
  · rfl
  · rfl

@[simp] theorem makedirs_files (sip : Directory) (d : Disk) : (makedirs sip d).files = d.files := by
  unfold makedirs
  split_ifs
  · rfl
  · rw [mkdir_files, mkdir_files]

theorem dstFile_injective (original : UUID) (filePath : Str) :
    Function.Injective (dstFile original filePath) := by
  intro i j h
  unfold dstFile at h
  split_ifs at h with hi hj hj
  · rw [hi, hj]
  · have hlen := congrArg List.length (List.append_cancel_left h)
    simp at hlen
    omega
  · have hlen := congrArg List.length (List.append_cancel_left h)
    simp at hlen
    omega
  · have htail := (List.cons.inj (List.append_cancel_left h)).2
    have hdigits := congrArg (Nat.ofDigitChars 10 · 0) (List.append_cancel_right htail)
    simpa only [Nat.ofDigitChars_ten_toDigits] using hdigits

theorem dstDir_eq (sip : Directory) : dstDir sip = sip.path ++ "DIP/objects".toList := by
  have hdip : dip sip = sip.path ++ "DIP".toList := by
    rw [dip, PosixPath.join, if_neg (by decide), if_pos (Or.inr sip.trailing)]
  have hrest : PosixPath.join "DIP".toList "objects".toList = "DIP/objects".toList := by decide
  rw [dstDir, hdip, PosixPath.join_append (by decide) (by decide), hrest]

theorem prefix_dstFile (original : UUID) (filePath : Str) (i : ℕ) :
    original.string ++ ['-'] <+: dstFile original filePath i := by
  unfold dstFile
  split_ifs
  · exact ⟨PosixPath.basename filePath, by rw [List.append_assoc, List.singleton_append]⟩
  · exact ⟨Nat.toDigits 10 i ++ '-' :: PosixPath.basename filePath,
      by rw [List.append_assoc, List.singleton_append]⟩

-- An identifier begins with a digit, so that the name is not a path of its own.
theorem dstFile_head?_ne (original : UUID) (filePath : Str) (i : ℕ) :
    (dstFile original filePath i).head? ≠ some '/' := by
  obtain ⟨rest, hrest⟩ := prefix_dstFile original filePath i
  intro hhead
  rw [← hrest, List.head?_append_of_ne_nil _ (by simp)] at hhead
  rcases List.mem_append.mp (List.mem_of_mem_head? hhead) with hmem | hmem
  · exact original.slash_notMem_string hmem
  · exact absurd (List.mem_singleton.mp hmem) (by decide)

theorem uniqueName_spec (sip : Directory) (original : UUID) (filePath : Str) (d : Disk) :
    original.string ++ ['-'] <+: uniqueName sip original filePath d ∧
      PosixPath.join (dstDir sip) (uniqueName sip original filePath d) ∉ d.paths := by
  have hopen : dstDir sip ≠ [] ∧ (dstDir sip).getLast? ≠ some '/' := by
    rw [dstDir_eq, List.getLast?_append_of_ne_nil _ (by decide)]
    exact ⟨List.append_ne_nil_of_right_ne_nil _ (by decide), by decide⟩
  have hjoin : ∀ i, PosixPath.join (dstDir sip) (dstFile original filePath i) =
      dstDir sip ++ '/' :: dstFile original filePath i := by
    intro i
    rw [PosixPath.join, if_neg (dstFile_head?_ne original filePath i), if_neg]
    rintro (hnil | hslash)
    · exact hopen.1 hnil
    · exact hopen.2 hslash
  have hinjective : Function.Injective fun i =>
      PosixPath.join (dstDir sip) (dstFile original filePath i) := by
    intro i j h
    simp only [hjoin] at h
    exact dstFile_injective original filePath (List.cons.inj (List.append_cancel_left h)).2
  obtain ⟨i, hi, hfree, -⟩ := firstFree_spec d.paths hinjective
  rw [uniqueName, hi]
  exact ⟨prefix_dstFile original filePath i, hfree⟩

theorem main_of_single (hdot : '.' ∈ PosixPath.basename rel) (ho : originals rows rel = [o])
    (hfile : accessFile sip rel ∈ d.files) (hdir : dstDir sip ∈ (makedirs sip d).dirs) :
    ∃ d', main sip (accessFile sip rel) rows d = .ok (.moved o d') ∧
      Moved sip d d' o (accessFile sip rel) := by
  obtain ⟨hname, hfree⟩ := uniqueName_spec sip o.uuid (accessFile sip rel) d
  have hsrc : accessFile sip rel ∈ (makedirs sip d).files := by
    rwa [makedirs_files]
  rw [main_of_found (findOriginal_of_single hdot ho), rename_eq_ok_iff.mpr ⟨hsrc, hdir, rfl⟩]
  refine ⟨_, rfl, hdir, _, hname, hfree, ?_⟩
  rw [makedirs_files]

theorem movable_of_main (hdot : '.' ∈ PosixPath.basename rel) (ho : originals rows rel = [o])
    {d' : Disk} (h : main sip (accessFile sip rel) rows d = .ok (.moved o d')) :
    accessFile sip rel ∈ d.files ∧ dstDir sip ∈ (makedirs sip d).dirs := by
  rw [main_of_found (findOriginal_of_single hdot ho)] at h
  rcases hmoved : rename (accessFile sip rel) (dstDir sip)
    (uniqueName sip o.uuid (accessFile sip rel) d) (makedirs sip d) with e | d''
  · rw [hmoved] at h
    cases h
  · obtain ⟨hfile, hdir, -⟩ := rename_eq_ok_iff.mp hmoved
    exact ⟨makedirs_files sip d ▸ hfile, hdir⟩

end Access

-- Both scripts do what they are to do exactly for the names with one original.
theorem contract_iff (sip : Directory) (w : World) (d : Access.Disk) (uuid : UUID) (rel : Str) :
    Contract sip w d uuid rel ↔ Single sip w d uuid rel := by
  constructor
  · intro h
    match ho : originals w.rows rel with
    | [] => exact absurd (h.missing ho).2 (Access.main_ne_status _ _)
    | [o] =>
        obtain ⟨⟨w', hmain, -⟩, d', haccess, -⟩ := h.one o ho
        obtain ⟨hdot, o', ho', hrelocate⟩ := main_eq_ok hmain
        obtain ⟨rfl, hmove, hevents⟩ := relocate_eq_paired_iff.mp ⟨w', hrelocate⟩
        obtain ⟨hfile, hdir⟩ := Access.movable_of_main hdot ho' haccess
        exact ⟨hdot, o', ho', hmove, hevents, hfile, hdir⟩
    | a :: b :: rest =>
        have hlen : 2 ≤ (originals w.rows rel).length := by
          rw [ho]
          exact Nat.le_add_left 2 rest.length
        exact absurd (h.several hlen).2 (Access.main_ne_status _ _)
  · rintro ⟨hdot, o, ho, hmove, hevents, hfile, hdir⟩
    refine ⟨fun o' ho' => ?_, fun hnone => ?_, fun hlen => ?_⟩
    · obtain rfl : o' = o := List.head_eq_of_cons_eq (ho'.symm.trans ho)
      rw [main_of_single hdot ho]
      exact ⟨relocate_of_movable hmove hevents, Access.main_of_single hdot ho hfile hdir⟩
    · rw [ho] at hnone
      cases hnone
    · rw [ho, List.length_singleton] at hlen
      omega

-- A name without an original, and one without an extension whose original has that name.
theorem no_original_raises :
    (originals [Photo.nef] "xyz.tif".toList = [] ∧
      main Photo.sip ⟨2⟩ (preservationFile Photo.sip "xyz.tif".toList) (Photo.world [Photo.nef]) =
        .error .typeError ∧
      Access.main Photo.sip (accessFile Photo.sip "xyz.tif".toList) [Photo.nef] ⟨[], []⟩ =
        .error .attributeError) ∧
    (originals [{ Photo.nef with currentlocation := some (objects ++ "abc".toList) }] "abc".toList =
        [{ Photo.nef with currentlocation := some (objects ++ "abc".toList) }] ∧
      main Photo.sip ⟨2⟩ (preservationFile Photo.sip "abc".toList)
        (Photo.world [{ Photo.nef with currentlocation := some (objects ++ "abc".toList) }]) =
          .error .unboundLocal) ∧
    ¬ Contract Photo.sip (Photo.world [Photo.nef]) ⟨[], []⟩ ⟨2⟩ "xyz.tif".toList := by
  have hnone : originals [Photo.nef] "xyz.tif".toList = [] := by decide
  have hmain : main Photo.sip ⟨2⟩ (preservationFile Photo.sip "xyz.tif".toList)
      (Photo.world [Photo.nef]) = .error .typeError := by decide
  refine ⟨⟨hnone, hmain, by decide⟩, ⟨by decide, by decide⟩, fun h => ?_⟩
  have hstatus := (h.missing hnone).1
  rw [hmain] at hstatus
  cases hstatus

end Ccp.Worker.ManualNormalization
