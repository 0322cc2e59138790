import Ccp.Lib.Table
import Ccp.Worker.MetadataCSV
import Ccp.Worker.TrimRestructure

namespace Ccp.Worker.TrimVerify

open Lib FileOperations
open TrimRestructure (getFileUUIDLike)

structure Event where
  file : UUID
  eventType : Str
  eventOutcome : Str
  eventOutcomeDetailNote : Str
deriving DecidableEq

-- The disk, and what is read of its files: the MD5 of a file, and the text of Document/MD5
-- where the file can be parsed and has one.
structure FileSystem where
  listdir : Str → List Str
  isdir : Str → Bool
  isfile : Str → Bool
  md5 : Str → Str
  documentMD5 : Str → Option (Option Str)

structure Args where
  transferUUID : UUID
  transferPath : Str

namespace Args

variable (args : Args)

def unit : UnitRef := ⟨args.transferUUID, .transferId, "%transferDirectory%".toList⟩

def location (path : Str) : Str := replaceAll path args.transferPath args.unit.pathReplaceWith

-- The rows that a verified path is looked up as, and their events.
def fileID (rows : List File) (path : Str) : Dict Str UUID :=
  getFileUUIDLike args.unit (args.location path) rows

def passEvents (rows : List File) (eventType note path : Str) : List Event :=
  (args.fileID rows path).map fun e => ⟨e.2, eventType, "Pass".toList, note⟩

end Args

-- trim_verify_checksums.py

section Checksums

variable (fs : FileSystem) (args : Args) (rows : List File)

structure Report where
  exitCode : ℕ
  events : List Event

def xmlFile (transferFile : Str) : Str :=
  ((rpartition '.' transferFile).map Prod.fst).getD transferFile ++ "_Metadata.xml".toList

def skipped (dirPath transferFile : Str) : Bool :=
  transferFile = "ContainerMetadata.xml".toList || "Metadata.xml".toList.isSuffixOf transferFile ||
    !fs.isfile (PosixPath.join dirPath transferFile)

def checkFile (dirPath : Str) (r : Report) (transferFile : Str) : Report :=
  let filePath := PosixPath.join dirPath transferFile
  if skipped fs dirPath transferFile then r
  else
    match fs.documentMD5 (PosixPath.join dirPath (xmlFile transferFile)) with
    | none => { r with exitCode := r.exitCode + 1 }
    | some xmlMD5 =>
        if some (fs.md5 filePath) = xmlMD5 then
          { r with
            events := r.events ++ args.passEvents rows "fixity check".toList
              (xmlFile transferFile ++ " verified".toList) filePath }
        else { r with exitCode := r.exitCode + 1 }

def checkDirectory (r : Report) (transferDir : Str) : Report :=
  let dirPath := PosixPath.join args.transferPath transferDir
  if fs.isdir dirPath then (fs.listdir dirPath).foldl (checkFile fs args rows dirPath) r else r

def verifyChecksums : Report := (fs.listdir args.transferPath).foldl (checkDirectory fs args rows) ⟨0, []⟩

-- The files whose checksum is that of their metadata.

def isVerified (dirPath transferFile : Str) : Bool :=
  !skipped fs dirPath transferFile &&
    fs.documentMD5 (PosixPath.join dirPath (xmlFile transferFile)) =
      some (some (fs.md5 (PosixPath.join dirPath transferFile)))

def verifiedIn (dirPath : Str) : List Str :=
  ((fs.listdir dirPath).filter (isVerified fs dirPath)).map (PosixPath.join dirPath)

def verifiedFiles : List Str :=
  (((fs.listdir args.transferPath).map (PosixPath.join args.transferPath)).filter fs.isdir).flatMap
    (verifiedIn fs)

end Checksums

-- trim_verify_manifest.py

section Manifest

-- The method lower of a text.
variable (lower : Str → Str) (fs : FileSystem) (args : Args) (rows : List File)

structure Reader where
  topDirectory : Option Str
  currentDirectory : Str

def enter (reader : Reader) (line : Str) : Reader :=
  if " Directory of ".toList.isPrefixOf line then
    match reader.topDirectory with
    | none => ⟨some (strip line), args.transferPath⟩
    | some topDirectory =>
        ⟨some topDirectory,
          replaceAll (replaceFirst (topDirectory ++ ['\\']) args.transferPath (strip line)) ['\\'] ['/']⟩
  else reader

-- Lines of files and directories do not start with whitespace.
def isEntry (line : Str) : Bool :=
  strip line ≠ [] && line.head? ≠ some ' ' && line.head? ≠ some '\t'

def isDirLine (line : Str) : Bool := occursIn "<DIR>".toList line

-- The last section, for a name without spaces.
def baseName (line : Str) : Str := ((strip line).reverse.takeWhile fun c => !isSpace c).reverse

def pathOf (reader : Reader) (line : Str) : Str :=
  PosixPath.join (PosixPath.join args.transferPath reader.currentDirectory) (baseName line)

-- The file that the path leads to, with an extension in lower case where the path itself
-- leads to none.
def existing (path : Str) : Option (Str × Str) :=
  if fs.isfile path then some (path, "Verified file exists".toList)
  else
    match rpartition '.' path with
    | none => none
    | some (front, ext) =>
        let path2 := front ++ lower ('.' :: ext)
        if fs.isfile path2 then
          some (path2, "Verified file exists, but with implicit extension case".toList)
        else none

structure Check where
  reader : Reader
  fileCount : ℕ
  exitCode : ℕ
  events : List Event

def checkEntry (c : Check) (line : Str) : Check :=
  let path := pathOf args c.reader line
  if isDirLine line then
    if baseName line = "..".toList then c
    else if fs.isdir path then c
    else { c with exitCode := c.exitCode + 1 }
  else
    match existing lower fs path with
    | none => { c with exitCode := c.exitCode + 1 }
    | some (found, note) =>
        { c with
          fileCount := c.fileCount + 1
          exitCode := if (args.fileID rows found).isEmpty then c.exitCode + 1 else c.exitCode
          events := c.events ++ args.passEvents rows "manifest check".toList note found }

def checkLine (c : Check) (line : Str) : Check :=
  let c := { c with reader := enter args c.reader line }
  if isEntry line then checkEntry lower fs args rows c line else c

-- The lines of the manifest.
def verifyManifest (lines : List Str) : Report :=
  let c := lines.foldl (checkLine lower fs args rows) ⟨⟨none, []⟩, 0, 0, []⟩
  ⟨if c.fileCount = 0 then 255 else c.exitCode, c.events⟩

-- The files that the lines list and that exist.

def listedAt (reader : Reader) (line : Str) : List Str :=
  if isEntry line && !isDirLine line then
    (existing lower fs (pathOf args reader line)).toList.map Prod.fst
  else []

def listedFrom : Reader → List Str → List Str
  | _, [] => []
  | reader, line :: rest =>
      listedAt lower fs args (enter args reader line) line ++ listedFrom (enter args reader line) rest

def listedFiles (lines : List Str) : List Str := listedFrom lower fs args ⟨none, []⟩ lines

end Manifest

section Recorded

variable (u : UnitRef) (rows : List File)

-- The row of an event is at a location.
def isRowAt (location : Str) (uuid : UUID) : Bool :=
  rows.any fun f => f.uuid = uuid && u.owns f && f.currentlocation = location

-- The events are those of the files at the locations, one for each.
structure Recorded (verified : List Str) (events : List Event) : Prop where
  only : ∀ e ∈ events, ∃ l ∈ verified, isRowAt u rows l e.file = true
  once : ∀ l ∈ verified, (events.filter fun e => isRowAt u rows l e.file).length = 1

-- A location that is verified has a row, and is in that of no other row.
structure Clear (verified : List Str) : Prop where
  once : verified.Nodup
  row : ∀ l ∈ verified, ∃ f ∈ rows, u.owns f = true ∧ f.currentlocation = l
  alone : ∀ l ∈ verified, ∀ f ∈ rows, u.owns f = true → l <:+: f.currentlocation → f.currentlocation = l

end Recorded

section Lookup

variable {u : UnitRef} {rows : List File} {l l' : Str} {events : List Event} {verified : List Str}

theorem isRowAt_iff {uuid : UUID} : isRowAt u rows l uuid = true ↔
    ∃ f ∈ rows, f.uuid = uuid ∧ u.owns f = true ∧ f.currentlocation = l := by
  simp [isRowAt, and_assoc]

theorem nodup_getFileUUIDLike (srcDB : Str) : ((getFileUUIDLike u srcDB rows).map Prod.fst).Nodup :=
  Dict.keys_foldl_set_nodup File.currentlocation File.uuid _ List.nodup_nil

theorem get?_getFileUUIDLike (srcDB location : Str) :
    Dict.get? (getFileUUIDLike u srcDB rows) location =
      ((rows.filter fun f => u.owns f && occursIn srcDB f.currentlocation).reverse.find?
        fun f => f.currentlocation = location).map File.uuid := by
  rw [getFileUUIDLike, Dict.get?_foldl_set File.currentlocation File.uuid, Dict.get?_nil, Option.or_none]

theorem mem_like {f : File}
    (h : f ∈ (rows.filter fun f => u.owns f && occursIn l f.currentlocation).reverse) :
    f ∈ rows ∧ u.owns f = true ∧ l <:+: f.currentlocation := by
  rw [List.mem_reverse, List.mem_filter, Bool.and_eq_true, occursIn_iff] at h
  exact h

-- Another row whose location has the text in it, at the location.
def reaches (u : UnitRef) (rows : List File) (l l' : Str) : Bool :=
  rows.any fun f => u.owns f && occursIn l f.currentlocation && f.currentlocation = l'

theorem reaches_iff : reaches u rows l l' = true ↔
    ∃ f ∈ rows, u.owns f = true ∧ l <:+: f.currentlocation ∧ f.currentlocation = l' := by
  simp [reaches, and_assoc, occursIn_iff]

theorem mem_getFileUUIDLike {e : Str × UUID} (h : e ∈ getFileUUIDLike u l rows) :
    ∃ f ∈ rows, u.owns f = true ∧ l <:+: f.currentlocation ∧ f.currentlocation = e.1 ∧ f.uuid = e.2 := by
  have hget := (Dict.get?_eq_some_iff (nodup_getFileUUIDLike l)).mpr h
  rw [get?_getFileUUIDLike, Option.map_eq_some_iff] at hget
  obtain ⟨f, hfind, huuid⟩ := hget
  obtain ⟨hf, howns, hin⟩ := mem_like (List.mem_of_find?_eq_some hfind)
  have hlocation : f.currentlocation = e.1 := by simpa using List.find?_some hfind
  exact ⟨f, hf, howns, hin, hlocation, huuid⟩

theorem exists_of_reaches (h : reaches u rows l l' = true) : ∃ uuid, (l', uuid) ∈ getFileUUIDLike u l rows := by
  obtain ⟨f, hf, howns, hin, hlocation⟩ := reaches_iff.mp h
  have hmem : f ∈ (rows.filter fun f => u.owns f && occursIn l f.currentlocation).reverse := by
    rw [List.mem_reverse, List.mem_filter, Bool.and_eq_true, occursIn_iff]
    exact ⟨hf, howns, hin⟩
  have hfound : ((rows.filter fun f => u.owns f && occursIn l f.currentlocation).reverse.find?
      fun f => f.currentlocation = l').isSome = true :=
    List.find?_isSome.mpr ⟨f, hmem, decide_eq_true hlocation⟩
  obtain ⟨g, hg⟩ := Option.isSome_iff_exists.mp hfound
  refine ⟨g.uuid, (Dict.get?_eq_some_iff (nodup_getFileUUIDLike l)).mp ?_⟩
  rw [get?_getFileUUIDLike, hg, Option.map_some]

variable (huuid : (rows.map File.uuid).Nodup)
include huuid

-- The item of a location is the one whose row is there.
theorem isRowAt_of_mem {e : Str × UUID} (h : e ∈ getFileUUIDLike u l rows) :
    isRowAt u rows l' e.2 = decide (e.1 = l') := by
  obtain ⟨f, hf, howns, -, hlocation, heq⟩ := mem_getFileUUIDLike h
  rw [Bool.eq_iff_iff, isRowAt_iff, decide_eq_true_eq]
  constructor
  · rintro ⟨g, hg, hguuid, -, hglocation⟩
    obtain rfl := List.inj_on_of_nodup_map huuid hg hf (hguuid.trans heq.symm)
    rw [← hlocation, hglocation]
  · rintro rfl
    exact ⟨f, hf, heq, howns, hlocation⟩

theorem length_filter_marks (l l' : Str) :
    (((getFileUUIDLike u l rows).map Prod.snd).filter (isRowAt u rows l')).length =
      if reaches u rows l l' then 1 else 0 := by
  have hfilter : (getFileUUIDLike u l rows).filter (isRowAt u rows l' ∘ Prod.snd) =
      (getFileUUIDLike u l rows).filter fun e => e.1 = l' :=
    List.filter_congr fun e he => isRowAt_of_mem huuid he
  rw [List.filter_map, List.length_map, hfilter]
  by_cases h : reaches u rows l l' = true
  · obtain ⟨uuid, hmem⟩ := exists_of_reaches h
    have hone := Table.filter_of_nodup (nodup_getFileUUIDLike l) hmem
    rw [if_pos h, hone, List.length_singleton]
  · rw [if_neg h, List.length_eq_zero_iff, List.filter_eq_nil_iff]
    intro e he hlocation
    obtain ⟨f, hf, howns, hin, heq, -⟩ := mem_getFileUUIDLike he
    exact h (reaches_iff.mpr ⟨f, hf, howns, hin, heq.trans (of_decide_eq_true hlocation)⟩)

theorem length_filter_flatMap (verified : List Str) (l' : Str) :
    ((verified.flatMap fun l => (getFileUUIDLike u l rows).map Prod.snd).filter (isRowAt u rows l')).length =
      (verified.filter fun l => reaches u rows l l').length := by
  induction verified with
  | nil => rfl
  | cons l verified ih =>
      rw [List.flatMap_cons, List.filter_append, List.length_append, length_filter_marks huuid, ih,
        List.filter_cons]
      split_ifs with h
      · rw [List.length_cons, Nat.add_comm]
      · rw [Nat.zero_add]

-- The events of verified locations: each of them marks the rows it is looked up as.
theorem recorded_iff_clear
    (hevents : events.map Event.file = verified.flatMap fun l => (getFileUUIDLike u l rows).map Prod.snd) :
    Recorded u rows verified events ↔ Clear u rows verified := by
  have hcount (l : Str) : (events.filter fun e => isRowAt u rows l e.file).length =
      (verified.filter fun l' => reaches u rows l' l).length := by
    rw [← length_filter_flatMap huuid, ← hevents, List.filter_map, List.length_map]
    rfl
  have hself {l : Str} (h : ∃ f ∈ rows, u.owns f = true ∧ f.currentlocation = l) : reaches u rows l l = true := by
    obtain ⟨f, hf, howns, hlocation⟩ := h
    exact reaches_iff.mpr ⟨f, hf, howns, hlocation ▸ List.infix_rfl, hlocation⟩
  constructor
  · intro h
    have hone (l : Str) (hl : l ∈ verified) := (hcount l).symm.trans (h.once l hl)
    have hrow : ∀ l ∈ verified, ∃ f ∈ rows, u.owns f = true ∧ f.currentlocation = l := by
      intro l hl
      obtain ⟨l', hl'⟩ := List.exists_mem_of_length_pos (by rw [hone l hl]; exact Nat.one_pos)
      obtain ⟨f, hf, howns, -, hlocation⟩ := reaches_iff.mp (List.mem_filter.mp hl').2
      exact ⟨f, hf, howns, hlocation⟩
    -- two locations that reach one are the same
    have hsame {l l' : Str} (hl : l ∈ verified) (hl' : l' ∈ verified) (hreach : reaches u rows l' l = true) :
        l' = l := by
      obtain ⟨x, hx⟩ := List.length_eq_one_iff.mp (hone l hl)
      have hin : l ∈ verified.filter fun l' => reaches u rows l' l :=
        List.mem_filter.mpr ⟨hl, hself (hrow l hl)⟩
      have hin' : l' ∈ verified.filter fun l' => reaches u rows l' l := List.mem_filter.mpr ⟨hl', hreach⟩
      rw [hx, List.mem_singleton] at hin hin'
      rw [hin, hin']
    refine ⟨?_, hrow, fun l hl f hf howns hin => ?_⟩
    · rw [List.nodup_iff_sublist]
      intro l hle
      have hl : l ∈ verified := hle.subset List.mem_cons_self
      have hreach := hself (hrow l hl)
      have htwo := (hle.filter fun l' => reaches u rows l' l).length_le
      rw [hone l hl] at htwo
      simp [hreach] at htwo
    · obtain ⟨uuid, hmem⟩ := exists_of_reaches (reaches_iff.mpr ⟨f, hf, howns, hin, rfl⟩)
      have hfile : uuid ∈ events.map Event.file := by
        rw [hevents]
        exact List.mem_flatMap.mpr ⟨l, hl, List.mem_map.mpr ⟨_, hmem, rfl⟩⟩
      obtain ⟨e, he, rfl⟩ := List.mem_map.mp hfile
      obtain ⟨l', hl', hat⟩ := h.only e he
      rw [isRowAt_of_mem huuid hmem, decide_eq_true_eq] at hat
      exact hat.trans (hsame hl' hl (reaches_iff.mpr ⟨f, hf, howns, hin, hat⟩)).symm
  · intro h
    refine ⟨fun e he => ?_, fun l hl => ?_⟩
    · have hfile : e.file ∈ verified.flatMap fun l => (getFileUUIDLike u l rows).map Prod.snd := by
        rw [← hevents]
        exact List.mem_map_of_mem he
      obtain ⟨l, hl, hmem⟩ := List.mem_flatMap.mp hfile
      obtain ⟨item, hitem, heq⟩ := List.mem_map.mp hmem
      obtain ⟨f, hf, howns, hin, -, huuid'⟩ := mem_getFileUUIDLike hitem
      exact ⟨l, hl, isRowAt_iff.mpr ⟨f, hf, huuid'.trans heq, howns, h.alone l hl f hf howns hin⟩⟩
    · have hreach : ∀ l' ∈ verified, reaches u rows l' l = decide (l' = l) := by
        intro l' hl'
        rw [Bool.eq_iff_iff, decide_eq_true_eq]
        constructor
        · intro hreach
          obtain ⟨f, hf, howns, hin, hlocation⟩ := reaches_iff.mp hreach
          exact (h.alone l' hl' f hf howns hin).symm.trans hlocation
        · rintro rfl
          exact hself (h.row l' hl')
      have hown : verified.filter (fun l' => id l' = id l) = [l] :=
        Table.filter_of_nodup (by rw [List.map_id]; exact h.once) hl
      rw [hcount, List.filter_congr hreach]
      exact congrArg List.length hown

end Lookup

section Runs

variable {lower : Str → Str} {fs : FileSystem} {args : Args} {rows : List File}

-- The rows that an event is written for.
theorem file_passEvents (eventType note path : Str) :
    (args.passEvents rows eventType note path).map Event.file =
      (getFileUUIDLike args.unit (args.location path) rows).map Prod.snd := by
  rw [Args.passEvents, List.map_map]
  rfl

theorem events_checkFile (dirPath : Str) (r : Report) (transferFile : Str) :
    (checkFile fs args rows dirPath r transferFile).events =
      r.events ++ if isVerified fs dirPath transferFile then
        args.passEvents rows "fixity check".toList (xmlFile transferFile ++ " verified".toList)
          (PosixPath.join dirPath transferFile) else [] := by
  simp only [checkFile, isVerified]
  by_cases hskipped : skipped fs dirPath transferFile = true
  · simp [hskipped]
  · rw [Bool.not_eq_true] at hskipped
    simp only [hskipped, Bool.false_eq_true, if_false, Bool.not_false, Bool.true_and]
    cases fs.documentMD5 (PosixPath.join dirPath (xmlFile transferFile)) with
    | none => simp
    | some xmlMD5 =>
        by_cases heq : some (fs.md5 (PosixPath.join dirPath transferFile)) = xmlMD5
        · simp [heq]
        · simp [heq, Ne.symm heq]

theorem file_foldl_checkFile (dirPath : Str) (files : List Str) (r : Report) :
    (files.foldl (checkFile fs args rows dirPath) r).events.map Event.file =
      r.events.map Event.file ++
        ((files.filter (isVerified fs dirPath)).map (PosixPath.join dirPath)).flatMap fun path =>
          (args.fileID rows path).map Prod.snd := by
  induction files generalizing r with
  | nil => simp
  | cons transferFile files ih =>
      rw [List.foldl_cons, ih, events_checkFile, List.map_append, List.append_assoc]
      congr 1
      by_cases hverified : isVerified fs dirPath transferFile = true
      · rw [if_pos hverified, file_passEvents, List.filter_cons_of_pos hverified, List.map_cons,
          List.flatMap_cons]
        rfl
      · rw [if_neg hverified, List.filter_cons_of_neg hverified]
        rfl

theorem file_foldl_checkDirectory (dirs : List Str) (r : Report) :
    (dirs.foldl (checkDirectory fs args rows) r).events.map Event.file =
      r.events.map Event.file ++
        (((dirs.map (PosixPath.join args.transferPath)).filter fs.isdir).flatMap (verifiedIn fs)).flatMap
          fun path => (args.fileID rows path).map Prod.snd := by
  induction dirs generalizing r with
  | nil => simp
  | cons dir dirs ih =>
      rw [List.foldl_cons, ih, checkDirectory, List.map_cons]
      by_cases hdir : fs.isdir (PosixPath.join args.transferPath dir) = true
      · rw [if_pos hdir, file_foldl_checkFile, List.filter_cons_of_pos hdir, List.flatMap_cons,
          List.flatMap_append, List.append_assoc]
        rfl
      · rw [if_neg hdir, List.filter_cons_of_neg hdir]

theorem file_verifyChecksums :
    (verifyChecksums fs args rows).events.map Event.file =
      ((verifiedFiles fs args).map args.location).flatMap fun l =>
        (getFileUUIDLike args.unit l rows).map Prod.snd := by
  rw [verifyChecksums, file_foldl_checkDirectory, List.flatMap_map]
  rfl

theorem events_checkLine (c : Check) (line : Str) :
    (checkLine lower fs args rows c line).reader = enter args c.reader line ∧
      (checkLine lower fs args rows c line).events.map Event.file = c.events.map Event.file ++
        (listedAt lower fs args (enter args c.reader line) line).flatMap fun path =>
          (args.fileID rows path).map Prod.snd := by
  rw [checkLine, listedAt]
  by_cases hentry : isEntry line = true
  · simp only [hentry, if_true, Bool.true_and, checkEntry]
    by_cases hdir : isDirLine line = true
    · simp only [hdir, if_true, Bool.not_true, Bool.false_eq_true, if_false, List.flatMap_nil, List.append_nil]
      split_ifs <;> exact ⟨rfl, rfl⟩
    · rw [Bool.not_eq_true] at hdir
      simp only [hdir, Bool.false_eq_true, if_false, Bool.not_false, if_true]
      cases existing lower fs (pathOf args (enter args c.reader line) line) with
      | none => simp
      | some item =>
          refine ⟨rfl, ?_⟩
          rw [List.map_append, file_passEvents]
          simp [Args.fileID]
  · rw [Bool.not_eq_true] at hentry
    simp [hentry]

theorem events_foldl_checkLine (lines : List Str) (c : Check) :
    (lines.foldl (checkLine lower fs args rows) c).events.map Event.file = c.events.map Event.file ++
      (listedFrom lower fs args c.reader lines).flatMap fun path => (args.fileID rows path).map Prod.snd := by
  induction lines generalizing c with
  | nil => simp [listedFrom]
  | cons line lines ih =>
      obtain ⟨hreader, hevents⟩ := @events_checkLine lower fs args rows c line
      rw [List.foldl_cons, ih, hreader, hevents, listedFrom, List.flatMap_append, List.append_assoc]

theorem file_verifyManifest (lines : List Str) :
    (verifyManifest lower fs args rows lines).events.map Event.file =
      ((listedFiles lower fs args lines).map args.location).flatMap fun l =>
        (getFileUUIDLike args.unit l rows).map Prod.snd := by
  rw [verifyManifest, events_foldl_checkLine, List.flatMap_map]
  rfl

end Runs

-- Each script records what it verified, and only that.
theorem recorded_iff (lower : Str → Str) (fs : FileSystem) (args : Args) {rows : List File}
    (huuid : (rows.map File.uuid).Nodup) (lines : List Str) :
    (Recorded args.unit rows ((verifiedFiles fs args).map args.location) (verifyChecksums fs args rows).events ↔
      Clear args.unit rows ((verifiedFiles fs args).map args.location)) ∧
    (Recorded args.unit rows ((listedFiles lower fs args lines).map args.location)
        (verifyManifest lower fs args rows lines).events ↔
      Clear args.unit rows ((listedFiles lower fs args lines).map args.location)) :=
  ⟨recorded_iff_clear huuid file_verifyChecksums, recorded_iff_clear huuid (file_verifyManifest lines)⟩

section Example

def args : Args := ⟨UUID.nil, "/t/".toList⟩

-- A container with two letters, which are checked and listed.
def letterbox : FileSystem where
  listdir path := if path = "/t/".toList then ["c".toList] else ["a".toList, "b".toList]
  isdir path := path = "/t/c".toList
  isfile path := path = "/t/c/a".toList || path = "/t/c/b".toList
  md5 _ := "0".toList
  documentMD5 _ := some (some "0".toList)

def listing : List Str :=
  [" Directory of X:\\t\n".toList, " Directory of X:\\t\\c\n".toList, "01/02/2010  5 a\n".toList,
    "01/02/2010  7 b\n".toList]

def letters : List File :=
  [⟨⟨1⟩, some UUID.nil, none, false, "%transferDirectory%c/a".toList⟩,
    ⟨⟨2⟩, some UUID.nil, none, false, "%transferDirectory%c/b".toList⟩,
    ⟨⟨3⟩, some ⟨9⟩, none, false, "%transferDirectory%c/a".toList⟩]

theorem recorded_documents :
    Recorded args.unit letters ["%transferDirectory%c/a".toList, "%transferDirectory%c/b".toList]
        (verifyChecksums letterbox args letters).events ∧
      Recorded args.unit letters ["%transferDirectory%c/a".toList, "%transferDirectory%c/b".toList]
        (verifyManifest id letterbox args letters listing).events := by
  have hverified : (verifiedFiles letterbox args).map args.location =
      ["%transferDirectory%c/a".toList, "%transferDirectory%c/b".toList] := by decide +kernel
  have hlisted : (listedFiles id letterbox args listing).map args.location =
      ["%transferDirectory%c/a".toList, "%transferDirectory%c/b".toList] := by decide +kernel
  have hclear : Clear args.unit letters
      ["%transferDirectory%c/a".toList, "%transferDirectory%c/b".toList] := by
    refine ⟨by decide, by decide +kernel, ?_⟩
    simp only [← occursIn_iff]
    decide +kernel
  have hnodup : (letters.map File.uuid).Nodup := by decide
  obtain ⟨hchecksums, hmanifest⟩ := recorded_iff id letterbox args hnodup listing
  rw [hverified] at hchecksums
  rw [hlisted] at hmanifest
  exact ⟨hchecksums.mpr hclear, hmanifest.mpr hclear⟩

-- A container with two documents, of which the first one is checked.
def container : FileSystem where
  listdir path := if path = "/t/".toList then ["c".toList] else ["a".toList, "ab".toList]
  isdir path := path = "/t/c".toList
  isfile path := path = "/t/c/a".toList || path = "/t/c/ab".toList
  md5 _ := "0".toList
  documentMD5 path := if path = "/t/c/a_Metadata.xml".toList then some (some "0".toList) else none

def manifest : List Str :=
  [" Directory of X:\\t\n".toList, " Directory of X:\\t\\c\n".toList, "01/02/2010  5 a\n".toList]

def documents : List File :=
  [⟨⟨1⟩, some UUID.nil, none, false, "%transferDirectory%c/a".toList⟩,
    ⟨⟨2⟩, some UUID.nil, none, false, "%transferDirectory%c/ab".toList⟩]

theorem nodup_documents : (documents.map File.uuid).Nodup := by decide

-- The location of the one document is in that of the other one.
theorem unchecked_passed :
    (verifiedFiles container args).map args.location = ["%transferDirectory%c/a".toList] ∧
    (verifyChecksums container args documents).events.map Event.file = [⟨1⟩, ⟨2⟩] ∧
    ¬ Recorded args.unit documents ((verifiedFiles container args).map args.location)
      (verifyChecksums container args documents).events ∧
    (listedFiles id container args manifest).map args.location = ["%transferDirectory%c/a".toList] ∧
    (verifyManifest id container args documents manifest).events.map Event.file = [⟨1⟩, ⟨2⟩] ∧
    ¬ Recorded args.unit documents ((listedFiles id container args manifest).map args.location)
      (verifyManifest id container args documents manifest).events := by
  have hclear : ¬ Clear args.unit documents ["%transferDirectory%c/a".toList] := by
    intro h
    have heq := h.alone _ List.mem_cons_self ⟨⟨2⟩, some UUID.nil, none, false, "%transferDirectory%c/ab".toList⟩
      (by simp [documents]) rfl (occursIn_iff.mp rfl)
    exact absurd heq (by decide)
  have hverified : (verifiedFiles container args).map args.location = ["%transferDirectory%c/a".toList] := by
    decide +kernel
  have hlisted : (listedFiles id container args manifest).map args.location =
      ["%transferDirectory%c/a".toList] := by
    decide +kernel
  refine ⟨hverified, by decide +kernel, ?_, hlisted, by decide +kernel, ?_⟩
  · rw [recorded_iff_clear nodup_documents file_verifyChecksums, hverified]
    exact hclear
  · rw [recorded_iff_clear nodup_documents (file_verifyManifest manifest), hlisted]
    exact hclear

end Example

end Ccp.Worker.TrimVerify
