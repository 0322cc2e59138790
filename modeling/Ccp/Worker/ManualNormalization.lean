import Ccp.Lib.PosixPath
import Ccp.Lib.Table
import Ccp.Lib.Text
import Ccp.Uuid
import Mathlib.Data.Char
import Mathlib.Data.List.Lex
import Mathlib.Data.List.Nodup
import Mathlib.Data.List.Sort

namespace Ccp.Worker.ManualNormalization

open Lib

def sipDirectory : Str := "%SIPDirectory%".toList

def objects : Str := "%SIPDirectory%objects/".toList

-- Where the files normalized by hand are, under the objects.
def manualNormalization : Str := "manualNormalization/preservation/".toList

-- A directory as the server writes it.
structure Directory where
  path : Str
  trailing : path.getLast? = some '/'

-- A row of the SIP.
structure Row where
  uuid : UUID
  currentlocation : Option Str
  removed : Bool
  filegrpuse : Str
deriving DecidableEq

def Row.startsWith (row : Row) (path : Str) : Bool :=
  match row.currentlocation with
  | none => false
  | some location => path.isPrefixOf location

-- The text that a row is sorted by.
def Row.key (row : Row) : Str := row.currentlocation.getD []

-- Without a normalization.csv any file with the right name is taken.
def findByPath (rows : List Row) (path : Str) : Option Row :=
  match rows.filter (·.startsWith path) with
  | [] => none
  | [row] => some row
  | found => (found.insertionSort fun a b => a.key ≤ b.key).head?

def checkManualNormalization (sip : Directory) (rows : List Row) (purpose filePath : Str) :
    Option Row :=
  let path := (PosixPath.splitext (replaceFirst sip.path sipDirectory filePath)).1
  if occursIn "preservation".toList purpose then
    findByPath rows (replaceAll path objects (objects ++ manualNormalization))
  else if occursIn "access".toList purpose then
    findByPath rows (replaceAll path objects (objects ++ "manualNormalization/access/".toList))
  else none

structure Event where
  fileUUID : UUID
  eventType : Str
  eventDetail : Str
  eventOutcomeDetail : Str
deriving DecidableEq

-- The rows of the SIP with their events and derivations, and the paths of the disk.
structure World where
  rows : List Row
  events : List Event
  derivations : List (UUID × UUID)
  disk : List Str
deriving DecidableEq

-- The exceptions that leave main: a name that was given no value, isinstance with three
-- arguments, a path that is not there, more than one event.
inductive Fault
  | unboundLocal
  | typeError
  | fileNotFound
  | multipleObjectsReturned
deriving DecidableEq

-- What main ends with: the original of the preservation file, or a status of its own.
inductive Result
  | paired (original : Row) (w : World)
  | status (code : Int)
deriving DecidableEq

def preservationDirectory (sip : Directory) : Str :=
  PosixPath.join (PosixPath.join (PosixPath.join sip.path "objects".toList)
    "manualNormalization".toList) "preservation".toList

-- filePathLike2, the name that an original has, alone or with an extension; none where it
-- has no value.
def filePathLike (sip : Directory) (filePath : Str) : Option Str :=
  let like := replaceFirst (preservationDirectory sip) "%SIPDirectory%objects".toList filePath
  if (PosixPath.basename filePath).contains '.' then (rpartition '.' like).map (·.1) else none

def Row.isOriginal (row : Row) (like : Str) : Bool :=
  (row.startsWith (like ++ ['.']) || row.currentlocation = some like) && !row.removed &&
    row.filegrpuse = "original".toList

-- The new path of the preservation file: beside the original, with its identifier.
def destination (sip : Directory) (original : Str) (fileUUID : UUID) (filePath : Str) : Str :=
  let basename := PosixPath.basename filePath
  let dstFile :=
    match rpartition '.' basename with
    | some (name, ext) => name ++ '-' :: fileUUID.string ++ '.' :: ext
    | none => basename.dropLast ++ '-' :: fileUUID.string ++ basename.drop (basename.length - 1)
  PosixPath.join (PosixPath.dirname (replaceFirst sipDirectory sip.path original)) dstFile

def normalization : Str := "normalization".toList

def World.normalizations (w : World) (original : UUID) : List Event :=
  w.events.filter fun e => e.fileUUID = original ∧ e.eventType = normalization

-- The event of the original, updated or new, and with a new one the derivation.
def link (original fileUUID : UUID) (dstR : Str) (w : World) : Except Fault World :=
  match w.normalizations original with
  | [] => .ok
      { w with
        events := w.events ++ [⟨original, normalization, "manual normalization".toList, dstR⟩]
        derivations := w.derivations ++ [(original, fileUUID)] }
  | [event] => .ok
      { w with
        events := w.events.map fun e =>
          if e = event then { e with eventOutcomeDetail := dstR } else e }
  | _ => .error .multipleObjectsReturned

def relocate (sip : Directory) (original : Row) (fileUUID : UUID) (filePath : Str) (w : World) :
    Except Fault Result :=
  let dst := destination sip original.key fileUUID filePath
  let dstR := replaceFirst sip.path sipDirectory dst
  if w.disk.contains dst then .ok (.status 2)
  else if w.disk.contains filePath && w.disk.contains (PosixPath.dirname dst) then
    let w := { w with
      disk := dst :: w.disk.erase filePath
      rows := w.rows.map fun row =>
        if row.uuid = fileUUID then { row with currentlocation := some dstR } else row }
    (link original.uuid fileUUID dstR w).map (.paired original)
  else .error .fileNotFound

-- The SIP has no normalization.csv to turn to where there is not one original.
def main (sip : Directory) (fileUUID : UUID) (filePath : Str) (w : World) : Except Fault Result :=
  match filePathLike sip filePath with
  | none => .error .unboundLocal
  | some like =>
      match w.rows.filter (·.isOriginal like) with
      | [original] => relocate sip original fileUUID filePath w
      | _ => .error .typeError

-- The path on the disk of a location of the SIP.
def onDisk (sip : Directory) (location : Str) : Str := replaceFirst sipDirectory sip.path location

-- The start of the locations that are taken for a file normalized by hand, for the
-- original with this path under the objects.
def preservationPath (rel : Str) : Str :=
  replaceAll (objects ++ (PosixPath.splitext rel).1) objects (objects ++ manualNormalization)

theorem preservationPath_eq (rel : Str) :
    ∃ rest, preservationPath rel = objects ++ manualNormalization ++ rest :=
  ⟨_, replaceAll_self_append (by decide) _ _⟩

theorem onDisk_append (sip : Directory) (rest : Str) :
    onDisk sip (sipDirectory ++ rest) = sip.path ++ rest :=
  replaceFirst_self_append _ _ _

-- The texts in the parts that the functions cut them into.
theorem objects_eq : objects = sipDirectory ++ "objects/".toList := by decide

theorem objects_eq_slash : objects = "%SIPDirectory%objects".toList ++ ['/'] := by decide

theorem objects_append (rel : Str) :
    objects ++ rel = "%SIPDirectory%objects".toList ++ '/' :: rel := by
  rw [objects_eq_slash, List.append_assoc, List.singleton_append]

theorem onDisk_objects (sip : Directory) (rel : Str) :
    onDisk sip (objects ++ rel) = sip.path ++ ("objects/".toList ++ rel) := by
  rw [objects_eq, List.append_assoc, onDisk_append]

theorem check_eq (sip : Directory) (rows : List Row) (rel : Str) :
    checkManualNormalization sip rows "preservation".toList (onDisk sip (objects ++ rel)) =
      findByPath rows (preservationPath rel) := by
  have hpurpose : occursIn "preservation".toList "preservation".toList = true := by decide
  have hlocation : replaceFirst sip.path sipDirectory (onDisk sip (objects ++ rel)) =
      "%SIPDirectory%objects".toList ++ '/' :: rel := by
    rw [onDisk_objects, replaceFirst_self_append, ← List.append_assoc, ← objects_eq, objects_append]
  rw [checkManualNormalization, hlocation, PosixPath.splitext_append, if_pos hpurpose,
    ← objects_append, preservationPath]

theorem findByPath_eq_some {rows : List Row} {path : Str} {p : Row}
    (h : findByPath rows path = some p) :
    p ∈ rows ∧ p.startsWith path = true ∧
      ∀ m ∈ rows, m.startsWith path = true → p.key ≤ m.key := by
  have hfirst : p ∈ rows.filter (·.startsWith path) ∧
      ∀ m ∈ rows.filter (·.startsWith path), p.key ≤ m.key := by
    rw [findByPath] at h
    split at h
    · cases h
    · next row hrow =>
        obtain rfl := Option.some.inj h
        rw [hrow]
        simp
    · have hsorted := List.pairwise_insertionSort (fun a b : Row => a.key ≤ b.key)
        (rows.filter (·.startsWith path))
      have hperm := List.perm_insertionSort (fun a b : Row => a.key ≤ b.key)
        (rows.filter (·.startsWith path))
      obtain ⟨rest, hrest⟩ := List.head?_eq_some_iff.mp h
      rw [hrest] at hsorted hperm
      refine ⟨hperm.mem_iff.mp List.mem_cons_self, fun m hm => ?_⟩
      rcases List.mem_cons.mp (hperm.mem_iff.mpr hm) with rfl | hm
      · exact le_refl _
      · exact (List.pairwise_cons.mp hsorted).1 m hm
  simp only [List.mem_filter, and_imp] at hfirst
  exact ⟨hfirst.1.1, hfirst.1.2, hfirst.2⟩

theorem Row.startsWith_iff {row : Row} {path : Str} :
    row.startsWith path = true ↔ ∃ location, row.currentlocation = some location ∧ path <+: location := by
  rw [Row.startsWith]
  split
  · next h => simp [h]
  · next location h => simp [h]

theorem Directory.path_ne_nil (sip : Directory) : sip.path ≠ [] := by
  intro h
  have htrailing := sip.trailing
  rw [h] at htrailing
  cases htrailing

theorem preservationDirectory_eq (sip : Directory) :
    preservationDirectory sip = sip.path ++ "objects/manualNormalization/preservation".toList := by
  have hobjects : PosixPath.join sip.path "objects".toList = sip.path ++ "objects".toList := by
    rw [PosixPath.join, if_neg (by decide), if_pos (Or.inr sip.trailing)]
  have hrest : PosixPath.join (PosixPath.join "objects".toList "manualNormalization".toList)
      "preservation".toList = "objects/manualNormalization/preservation".toList := by decide
  rw [preservationDirectory, hobjects, PosixPath.join_append (by decide) (by decide),
    PosixPath.join_append (by decide) (by decide), hrest]

-- The name that the original of a preservation file has to have.
theorem filePathLike_eq_some_iff {sip : Directory} {r like : Str} :
    filePathLike sip (onDisk sip (objects ++ manualNormalization ++ r)) = some like ↔
      ∃ stem ext, r = stem ++ '.' :: ext ∧ '.' ∉ ext ∧ '/' ∉ ext ∧ like = objects ++ stem := by
  have hpath : onDisk sip (objects ++ manualNormalization ++ r) = preservationDirectory sip ++ '/' :: r := by
    have htext : "objects/".toList ++ manualNormalization =
        "objects/manualNormalization/preservation".toList ++ ['/'] := by decide
    rw [preservationDirectory_eq, List.append_assoc, onDisk_objects, ← List.append_assoc _ _ r, htext]
    simp only [List.append_assoc, List.singleton_append]
  rw [hpath, filePathLike, PosixPath.basename_append_path, replaceFirst_self_append]
  constructor
  · intro h
    split_ifs at h with hdot
    obtain ⟨stem, ext, rfl, hext, hslash⟩ :=
      PosixPath.dot_mem_basename_iff.mp (List.contains_iff_mem.mp hdot)
    refine ⟨stem, ext, rfl, hext, hslash, ?_⟩
    rw [← objects_append, ← List.append_assoc, rpartition_append hext] at h
    exact (Option.some.inj h).symm
  · rintro ⟨stem, ext, rfl, hext, hslash, rfl⟩
    have hdot := PosixPath.dot_mem_basename_iff.mpr ⟨stem, ext, rfl, hext, hslash⟩
    rw [if_pos (List.contains_iff_mem.mpr hdot), ← objects_append, ← List.append_assoc,
      rpartition_append hext]
    rfl

-- The second script makes the original the source of the preservation file.
def Pairs (sip : Directory) (w : World) (o p : Row) : Prop :=
  ∃ w', main sip p.uuid (onDisk sip p.key) w = .ok (.paired o w')

def Shortest (w : World) (rel : Str) (p : Row) : Prop :=
  ∀ m ∈ w.rows, m.startsWith (preservationPath rel) = true → p.key.length ≤ m.key.length

-- The disk lets the file be moved from the one path to the other.
structure Movable (w : World) (src dst : Str) : Prop where
  there : src ∈ w.disk
  free : dst ∉ w.disk
  directory : PosixPath.dirname dst ∈ w.disk

theorem relocate_eq_paired_iff {sip : Directory} {w : World} {original o : Row} {uuid : UUID}
    {filePath : Str} :
    (∃ w', relocate sip original uuid filePath w = .ok (.paired o w')) ↔
      original = o ∧ Movable w filePath (destination sip original.key uuid filePath) ∧
        (w.normalizations original.uuid).length ≤ 1 := by
  have hlink : ∀ (w' : World) (dstR : Str), w'.events = w.events →
      ((∃ w'', (link original.uuid uuid dstR w').map (Result.paired original) = .ok (.paired o w'')) ↔
        original = o ∧ (w.normalizations original.uuid).length ≤ 1) := by
    intro w' dstR hevents
    have hsame : w'.normalizations original.uuid = w.normalizations original.uuid := by
      rw [World.normalizations, hevents, World.normalizations]
    rw [link, hsame]
    split
    · next h => simp [Except.map, h]
    · next h => simp [Except.map, h]
    · next hnone hone =>
        constructor
        · rintro ⟨w'', h⟩
          cases h
        · rintro ⟨-, hlen⟩
          match hn : w.normalizations original.uuid with
          | [] => exact absurd hn hnone
          | [e] => exact absurd hn (hone e)
          | a :: b :: rest => simp [hn] at hlen
  simp only [relocate]
  split_ifs with hfree hthere
  · constructor
    · rintro ⟨w', h⟩
      cases h
    · rintro ⟨-, hmove, -⟩
      exact absurd (List.contains_iff_mem.mp hfree) hmove.free
  · rw [Bool.and_eq_true, List.contains_iff_mem, List.contains_iff_mem] at hthere
    rw [List.contains_iff_mem] at hfree
    refine (hlink _ _ ?_).trans ?_
    · rfl
    exact and_congr_right fun _ => (and_iff_right ⟨hthere.1, hfree, hthere.2⟩).symm
  · constructor
    · rintro ⟨w', h⟩
      cases h
    · rintro ⟨-, hmove, -⟩
      rw [Bool.and_eq_true, List.contains_iff_mem, List.contains_iff_mem] at hthere
      exact absurd ⟨hmove.there, hmove.directory⟩ hthere

-- One of the locations that are taken for a file normalized by hand is before all the
-- others, by its text and by its length. It has an extension, and without it it is the
-- name of the original, alone or before a dot, and of no other original. Its file can be
-- moved, and the original has one normalization at most.
def Regular (sip : Directory) (w : World) (o : Row) (rel : Str) (uuid : UUID) : Prop :=
  ∃ stem ext location, location = objects ++ manualNormalization ++ (stem ++ '.' :: ext) ∧
    '.' ∉ ext ∧ '/' ∉ ext ∧ (∃ m ∈ w.rows, m.currentlocation = some location) ∧
    preservationPath rel <+: location ∧
    (∀ m ∈ w.rows, m.startsWith (preservationPath rel) = true →
      location ≤ m.key ∧ location.length ≤ m.key.length) ∧
    (∀ m ∈ w.rows, m.isOriginal (objects ++ stem) = true ↔ m = o) ∧
    Movable w (onDisk sip location) (destination sip o.key uuid (onDisk sip location)) ∧
    (w.normalizations o.uuid).length ≤ 1

theorem main_eq_paired_iff {sip : Directory} {w : World} {o : Row} {uuid : UUID} {r : Str}
    (hnodup : w.rows.Nodup) (ho : o ∈ w.rows) :
    (∃ w', main sip uuid (onDisk sip (objects ++ manualNormalization ++ r)) w = .ok (.paired o w')) ↔
      ∃ stem ext, r = stem ++ '.' :: ext ∧ '.' ∉ ext ∧ '/' ∉ ext ∧
        (∀ m ∈ w.rows, m.isOriginal (objects ++ stem) = true ↔ m = o) ∧
        Movable w (onDisk sip (objects ++ manualNormalization ++ r))
          (destination sip o.key uuid (onDisk sip (objects ++ manualNormalization ++ r))) ∧
        (w.normalizations o.uuid).length ≤ 1 := by
  rw [main]
  rcases hlike : filePathLike sip (onDisk sip (objects ++ manualNormalization ++ r)) with _ | like
  · constructor
    · rintro ⟨w', h⟩
      cases h
    · rintro ⟨stem, ext, hr, hdot, hslash, -⟩
      cases hlike.symm.trans (filePathLike_eq_some_iff.mpr ⟨stem, ext, hr, hdot, hslash, rfl⟩)
  · obtain ⟨stem, ext, rfl, hdot, hslash, rfl⟩ := filePathLike_eq_some_iff.mp hlike
    have hstem : ∀ {stem' ext' : Str}, stem ++ '.' :: ext = stem' ++ '.' :: ext' → '.' ∉ ext' →
        stem = stem' := by
      intro stem' ext' heq hdot'
      have hparts := congrArg (rpartition '.') heq
      rw [rpartition_append hdot, rpartition_append hdot'] at hparts
      exact (Prod.mk.inj (Option.some.inj hparts)).1
    have hone := Table.filter_eq_singleton_iff hnodup ho fun m => m.isOriginal (objects ++ stem)
    dsimp only
    constructor
    · rintro ⟨w', h⟩
      split at h
      · next original horiginal =>
          obtain ⟨rfl, hmove, hevents⟩ := relocate_eq_paired_iff.mp ⟨w', h⟩
          exact ⟨stem, ext, rfl, hdot, hslash, hone.mp horiginal, hmove, hevents⟩
      · cases h
    · rintro ⟨stem', ext', heq, hdot', -, hunique, hmove, hevents⟩
      obtain rfl := hstem heq hdot'
      rw [hone.mpr hunique]
      exact relocate_eq_paired_iff.mpr ⟨rfl, hmove, hevents⟩

-- The two scripts agree on a pair, and the shortest location is taken, exactly where the
-- names are regular.
theorem pairs_iff {sip : Directory} {w : World} {o p : Row} {rel : Str} (hnodup : w.rows.Nodup)
    (ho : o ∈ w.rows) (hlocation : o.currentlocation = some (objects ++ rel))
    (hcheck : checkManualNormalization sip w.rows "preservation".toList (onDisk sip o.key) = some p) :
    Pairs sip w o p ∧ Shortest w rel p ↔ Regular sip w o rel p.uuid := by
  have hkey : o.key = objects ++ rel := by rw [Row.key, hlocation, Option.getD_some]
  rw [hkey, check_eq] at hcheck
  obtain ⟨hp, hstarts, hfirst⟩ := findByPath_eq_some hcheck
  obtain ⟨location, hat, hpre⟩ := Row.startsWith_iff.mp hstarts
  have hpkey : p.key = location := by rw [Row.key, hat, Option.getD_some]
  obtain ⟨front, hfront⟩ := preservationPath_eq rel
  obtain ⟨rest, rfl⟩ := hpre
  rw [hfront, List.append_assoc _ front] at hat hpkey
  have hmain := @main_eq_paired_iff sip w o p.uuid (front ++ rest) hnodup ho
  rw [Pairs, hpkey, hmain]
  have hfrontpre : preservationPath rel <+: objects ++ manualNormalization ++ (front ++ rest) := by
    rw [hfront, ← List.append_assoc]
    exact List.prefix_append _ _
  constructor
  · rintro ⟨⟨stem, ext, hr, hdot, hslash, hunique, hmove, hevents⟩, hshort⟩
    rw [hr] at hmove hat hpkey hfrontpre
    refine ⟨stem, ext, _, rfl, hdot, hslash, ⟨p, hp, hat⟩, hfrontpre, fun m hm hmatch => ?_, hunique,
      hmove, hevents⟩
    rw [← hpkey]
    exact ⟨hfirst m hm hmatch, hshort m hm hmatch⟩
  · rintro ⟨stem, ext, location, rfl, hdot, hslash, ⟨m, hm, hmat⟩, hmpre, hleast, hunique, hmove,
      hevents⟩
    have hmkey : m.key = objects ++ manualNormalization ++ (stem ++ '.' :: ext) := by
      rw [Row.key, hmat, Option.getD_some]
    have hmatch := Row.startsWith_iff.mpr ⟨_, hmat, hmpre⟩
    -- the first of the locations by their texts is the one that is returned
    have hsame : p.key = objects ++ manualNormalization ++ (stem ++ '.' :: ext) :=
      le_antisymm (hmkey ▸ hfirst m hm hmatch) (hleast p hp hstarts).1
    have hr : front ++ rest = stem ++ '.' :: ext := List.append_cancel_left (hpkey.symm.trans hsame)
    rw [hr]
    refine ⟨⟨stem, ext, rfl, hdot, hslash, hunique, hmove, hevents⟩, fun m' hm' hmatch' => ?_⟩
    rw [hsame]
    exact (hleast m' hm' hmatch').2

namespace Photo

-- An original with a preservation file of its name, and with one more whose name goes on.

def sip : Directory := ⟨"/shared/currentlyProcessing/photos/".toList, by decide⟩

def nef : Row := ⟨⟨1⟩, some (objects ++ "abc.NEF".toList), false, "original".toList⟩

def tif : Row :=
  ⟨⟨2⟩, some (objects ++ manualNormalization ++ "abc.tif".toList), false, "manualNormalization".toList⟩

def other : Row :=
  ⟨⟨3⟩, some (objects ++ manualNormalization ++ "abc-1.tif".toList), false,
    "manualNormalization".toList⟩

def world (rows : List Row) : World :=
  ⟨rows, [], [], "/shared/currentlyProcessing/photos/objects".toList ::
    rows.map fun row => onDisk sip row.key⟩

end Photo

theorem pairs_iff_photo :
    checkManualNormalization Photo.sip (Photo.world [Photo.nef, Photo.tif]).rows "preservation".toList
        (onDisk Photo.sip Photo.nef.key) = some Photo.tif ∧
      (Pairs Photo.sip (Photo.world [Photo.nef, Photo.tif]) Photo.nef Photo.tif ∧
        Shortest (Photo.world [Photo.nef, Photo.tif]) "abc.NEF".toList Photo.tif ↔
        Regular Photo.sip (Photo.world [Photo.nef, Photo.tif]) Photo.nef "abc.NEF".toList
          Photo.tif.uuid) := by
  have hcheck : checkManualNormalization Photo.sip (Photo.world [Photo.nef, Photo.tif]).rows
      "preservation".toList (onDisk Photo.sip Photo.nef.key) = some Photo.tif := by decide
  exact ⟨hcheck, pairs_iff (by decide) List.mem_cons_self rfl hcheck⟩

set_option maxRecDepth 4000 in
-- The dash sorts before the dot: the longer name is taken, and no original has it.
theorem other_taken :
    checkManualNormalization Photo.sip (Photo.world [Photo.nef, Photo.tif, Photo.other]).rows
        "preservation".toList (onDisk Photo.sip Photo.nef.key) = some Photo.other ∧
      main Photo.sip Photo.other.uuid (onDisk Photo.sip Photo.other.key)
        (Photo.world [Photo.nef, Photo.tif, Photo.other]) = .error .typeError ∧
      ¬ Pairs Photo.sip (Photo.world [Photo.nef, Photo.tif, Photo.other]) Photo.nef Photo.other ∧
      ¬ Shortest (Photo.world [Photo.nef, Photo.tif, Photo.other]) "abc.NEF".toList Photo.other := by
  have hmain : main Photo.sip Photo.other.uuid (onDisk Photo.sip Photo.other.key)
      (Photo.world [Photo.nef, Photo.tif, Photo.other]) = .error .typeError := by decide
  refine ⟨by decide, hmain, ?_, ?_⟩
  · rintro ⟨w', h⟩
    rw [hmain] at h
    cases h
  · intro h
    exact absurd (h Photo.tif (by decide) (by decide)) (by decide)

end Ccp.Worker.ManualNormalization
