import Ccp.Lib.Dict
import Ccp.Lib.PosixPath
import Ccp.Package
import Ccp.Replacement

namespace Ccp

open Lib

-- File of the store.
structure StoreFile where
  id : UUID
  currentLocation : Str
  originalLocation : Str
  fileGrpUse : Str
deriving DecidableEq

namespace Package

def name (p : Package) : Str :=
  replaceFirst ('-' :: p.id.string) [] (FilePath.base (FilePath.clean p.realPath))

end Package

-- The error of filepath.Abs is not looked at, its path is then empty.
def dirBasename (cwd : Option Str) (path : Str) : Str :=
  FilePath.base ((FilePath.abs cwd path).getD [])

def baseReplacements (cwd : Option Str) (p : Package) : ReplacementMapping :=
  let path := p.realPath
  ReplacementMapping.update ∅ [
    ("%SIPUUID%".toList, p.id.string),
    ("%SIPName%".toList, p.name),
    ("%SIPLogsDirectory%".toList, joinPath [path, "logs".toList, []]),
    ("%SIPObjectsDirectory%".toList, joinPath [path, "objects".toList, []]),
    ("%SIPDirectory%".toList, path),
    ("%SIPDirectoryBasename%".toList, dirBasename cwd path),
    ("%relativeLocation%".toList, p.pathForDB)]

-- strings.TrimSuffix.
def trimSuffix (s suffix : Str) : Str :=
  if suffix.isSuffixOf s then s.take (s.length - suffix.length) else s

def fileReplacements (cwd : Option Str) (pkg : Package) (f : StoreFile) : ReplacementMapping :=
  let dirName := FilePath.dir f.currentLocation
  let ext := FilePath.ext f.currentLocation
  let extWithDot := '.' :: ext
  let name := FilePath.base (trimSuffix f.currentLocation ext)
  let absolutePath := replaceAll f.currentLocation "%SIPDirectory%".toList (joinPath [pkg.realPath, []])
  let absolutePath := replaceAll absolutePath "%transferDirectory%".toList (joinPath [pkg.realPath, []])
  ReplacementMapping.update (baseReplacements cwd pkg) [
    ("%fileUUID%".toList, f.id.string),
    ("%originalLocation%".toList, f.originalLocation),
    ("%currentLocation%".toList, f.currentLocation),
    ("%fileGrpUse%".toList, f.fileGrpUse),
    ("%fileDirectory%".toList, dirName),
    ("%fileName%".toList, name),
    ("%fileExtension%".toList, ext),
    ("%fileExtensionWithDot%".toList, extWithDot),
    ("%relativeLocation%".toList, absolutePath),
    ("%inputFile%".toList, absolutePath),
    ("%fileFullName%".toList, absolutePath)]

-- A foreign key of a row: without a value, with the row it leads to, or with a value
-- that leads to no row, at which reading it raises.
inductive ForeignKey (α : Type)
  | null
  | row (a : α)
  | missing
deriving DecidableEq

namespace ForeignKey

variable {α β : Type}

-- The object that the attribute holds, none where reading it raises.
def get : ForeignKey α → Option (Option α)
  | null => some none
  | row a => some (some a)
  | missing => none

-- An attribute of the object, which None does not have.
def attr (key : ForeignKey α) (f : α → β) : Option β :=
  key.get.join.map f

end ForeignKey

-- The rows of the models as far as the dictionary reads them.
structure SIPRow where
  uuid : UUID
  currentpath : Option Str
deriving DecidableEq

structure TransferRow where
  uuid : UUID
  currentlocation : Str
deriving DecidableEq

structure FileRow where
  uuid : UUID
  sip : ForeignKey SIPRow
  transfer : ForeignKey TransferRow
  originallocation : Str
  currentlocation : Option Str
  filegrpuse : Str
deriving DecidableEq

-- The row as the store of the server reads it, none where its location is NULL, which
-- does not scan.
def FileRow.stored (f : FileRow) : Option StoreFile :=
  f.currentlocation.map fun location =>
    { id := f.uuid
      currentLocation := location
      originalLocation := f.originallocation
      fileGrpUse := f.filegrpuse }

-- The unit of a dictionary, which is a SIP or a transfer.
inductive UnitRow
  | sip (row : SIPRow)
  | transfer (row : TransferRow)
deriving DecidableEq

namespace UnitRow

def uuid : UnitRow → UUID
  | sip row => row.uuid
  | transfer row => row.uuid

def relativeLocation : UnitRow → Option Str
  | sip row => row.currentpath
  | transfer row => some row.currentlocation

end UnitRow

inductive ReplacementType
  | file
  | sip
  | transfer
deriving DecidableEq

-- config of dicts.py, with the working directory of the process.
structure DictsConfig where
  sharedDirectory : Str
  processingDirectory : Str
  rejectedDirectory : Str
  watchDirectory : Str
  cwd : Str
deriving DecidableEq

abbrev ReplacementDict := Dict Str Str

namespace ReplacementDict

-- The assignments of a run of statements, in their order.
def assign (rd : ReplacementDict) (items : List (Str × Str)) : ReplacementDict :=
  items.foldl (fun rd item => rd.set item.1 item.2) rd

def rstripSlash (s : Str) : Str := (s.reverse.dropWhile (· = '/')).reverse

-- The unit to read where none is given: that of the file.
def sipOf (sip : Option UnitRow) (file_ : Option FileRow) : Option (Option UnitRow) :=
  match sip, file_ with
  | some sip, _ => some (some sip)
  | none, none => some none
  | none, some f =>
      match f.sip.get with
      | some sip => some (sip.map .sip)
      | none => f.transfer.get.map (·.map .transfer)

def sipDirectory (config : DictsConfig) (expandPath : Bool) (relativeLocation : Str) : Str :=
  if expandPath then replaceAll relativeLocation Package.sharedPath config.sharedDirectory
  else relativeLocation

def sipItems (config : DictsConfig) (type_ : ReplacementType) (sip : UnitRow)
    (relativeLocation sipdir : Str) : List (Str × Str) :=
  [("%SIPUUID%".toList, sip.uuid.string),
    ("%SIPName%".toList,
      replaceAll (PosixPath.basename (rstripSlash sipdir)) ('-' :: sip.uuid.string) []),
    ("%currentPath%".toList, sipdir),
    ("%SIPDirectory%".toList, sipdir),
    ("%SIPDirectoryBasename%".toList, PosixPath.basename (PosixPath.abspath config.cwd sipdir)),
    ("%SIPLogsDirectory%".toList, PosixPath.join (PosixPath.join sipdir "logs".toList) []),
    ("%SIPObjectsDirectory%".toList, PosixPath.join (PosixPath.join sipdir "objects".toList) [])] ++
  match type_ with
  | .file => []
  | .sip => [("%relativeLocation%".toList, relativeLocation)]
  | .transfer =>
      [("%transferDirectory%".toList, sipdir), ("%relativeLocation%".toList, relativeLocation)]

-- The path of the unit that the row belongs to, the SIP before the transfer.
def baseLocation (f : FileRow) : Option (Option Str) :=
  match f.sip.attr (·.currentpath) with
  | some path => some path
  | none => (f.transfer.attr (·.currentlocation)).map some

-- The original and the current location, with the directories put in where the
-- unit is known.
def locations (config : DictsConfig) (expandPath : Bool) (sipdir : Option Str) (f : FileRow) :
    Option (Str × Str) := do
  let base ← baseLocation f
  match expandPath, sipdir with
  | true, some sipdir =>
      let base := replaceAll (← base) Package.sharedPath config.sharedDirectory
      let origin := replaceAll f.originallocation "%transferDirectory%".toList base
      let current := replaceAll (← f.currentlocation) "%transferDirectory%".toList base
      return (origin, replaceAll current "%SIPDirectory%".toList sipdir)
  | _, _ => return (f.originallocation, ← f.currentlocation)

def fileItems (type_ : ReplacementType) (f : FileRow) (origin current : Str) : List (Str × Str) :=
  let (name, ext) := PosixPath.splitext current
  [("%fileUUID%".toList, f.uuid.string),
    ("%originalLocation%".toList, origin),
    ("%currentLocation%".toList, current),
    ("%fileDirectory%".toList, PosixPath.dirname current),
    ("%fileGrpUse%".toList, f.filegrpuse)] ++
  (if type_ = .file then [("%relativeLocation%".toList, current)] else []) ++
  [("%inputFile%".toList, current),
    ("%fileFullName%".toList, current),
    ("%fileName%".toList, PosixPath.basename name),
    ("%fileExtension%".toList, ext.drop 1),
    ("%fileExtensionWithDot%".toList, ext)]

def configItems (config : DictsConfig) : List (Str × Str) :=
  [("%tmpDirectory%".toList,
      PosixPath.join (PosixPath.join config.sharedDirectory "tmp".toList) []),
    ("%processingDirectory%".toList, config.processingDirectory),
    ("%watchDirectoryPath%".toList, config.watchDirectory),
    ("%rejectedDirectory%".toList, config.rejectedDirectory)]

-- The items of the unit and the directory that the locations of the file are under.
def unitPart (config : DictsConfig) (type_ : ReplacementType) (expandPath : Bool) :
    Option UnitRow → Option (List (Str × Str) × Option Str)
  | none => some ([], none)
  | some sip => do
      let relativeLocation ← sip.relativeLocation
      let sipdir := sipDirectory config expandPath relativeLocation
      return (sipItems config type_ sip relativeLocation sipdir, some sipdir)

def filePart (config : DictsConfig) (type_ : ReplacementType) (expandPath : Bool)
    (sipdir : Option Str) : Option FileRow → Option (List (Str × Str))
  | none => some []
  | some f => do
      let (origin, current) ← locations config expandPath sipdir f
      return fileItems type_ f origin current

-- None where it raises.
def frommodel (config : DictsConfig) (type_ : ReplacementType) (sip : Option UnitRow)
    (file_ : Option FileRow) (expandPath : Bool) : Option ReplacementDict := do
  let sip ← sipOf sip file_
  let (unitItems, sipdir) ← unitPart config type_ expandPath sip
  let fileItems ← filePart config type_ expandPath sipdir file_
  return assign (assign (assign [] unitItems) fileItems) (configItems config)

end ReplacementDict

theorem ReplacementMapping.lookup_update {context : List (Str × Str)}
    (hnodup : (context.map Prod.fst).Nodup) (rm : ReplacementMapping) {key v : Str}
    (h : (key, v) ∈ context) : (rm.update context).lookup key = some v :=
  GoMap.lookup_foldl_insert Prod.fst Prod.snd context hnodup rm h

theorem fileReplacements_currentLocation (cwd : Option Str) (pkg : Package) (f : StoreFile) :
    (fileReplacements cwd pkg f).lookup "%currentLocation%".toList = some f.currentLocation := by
  refine ReplacementMapping.lookup_update ?_ _ ?_
  · simp only [List.map_cons, List.map_nil]
    decide
  · simp

theorem fileReplacements_extensionWithDot (cwd : Option Str) (pkg : Package) (f : StoreFile) :
    (fileReplacements cwd pkg f).lookup "%fileExtensionWithDot%".toList =
      some ('.' :: FilePath.ext f.currentLocation) := by
  refine ReplacementMapping.lookup_update ?_ _ ?_
  · simp only [List.map_cons, List.map_nil]
    decide
  · simp

namespace ReplacementDict

-- The last assignment of a key counts.
theorem get?_assign (rd : ReplacementDict) (items : List (Str × Str)) (key : Str) :
    (assign rd items).get? key = (Dict.get? items.reverse key).or (rd.get? key) := by
  induction items using List.reverseRecOn with
  | nil => simp [assign]
  | append_singleton items item ih =>
      have hlast : assign rd (items ++ [item]) = (assign rd items).set item.1 item.2 := by
        simp [assign, List.foldl_append]
      rw [hlast, Dict.get?_set, ih, List.reverse_append, List.reverse_singleton,
        List.singleton_append, Dict.get?_cons]
      split_ifs <;> rfl

theorem get?_frommodel {config : DictsConfig} {type_ : ReplacementType} {sip : Option UnitRow}
    {f : FileRow} {expandPath : Bool} {rd : ReplacementDict}
    (h : frommodel config type_ sip (some f) expandPath = some rd) :
    ∃ current, rd.get? "%currentLocation%".toList = some current ∧
      rd.get? "%fileExtensionWithDot%".toList = some (PosixPath.splitext current).2 := by
  simp only [frommodel, filePart, Option.bind_eq_bind, Option.bind_eq_some_iff, Option.pure_def,
    Option.some.injEq] at h
  obtain ⟨sip', -, ⟨unitItems, sipdir⟩, -, items, ⟨⟨origin, current⟩, -, rfl⟩, rfl⟩ := h
  refine ⟨current, ?_, ?_⟩
  · rw [get?_assign, get?_assign]
    cases type_ <;> rfl
  · rw [get?_assign, get?_assign]
    cases type_ <;> rfl

theorem currentlocation_of_frommodel {config : DictsConfig} {type_ : ReplacementType}
    {sip : Option UnitRow} {f : FileRow} {expandPath : Bool} {rd : ReplacementDict}
    (h : frommodel config type_ sip (some f) expandPath = some rd) :
    ∃ location, f.currentlocation = some location := by
  simp only [frommodel, filePart, Option.bind_eq_bind, Option.bind_eq_some_iff] at h
  obtain ⟨sip', -, ⟨unitItems, sipdir⟩, -, items, ⟨places, hplaces, -⟩, -⟩ := h
  simp only [locations, Option.bind_eq_bind, Option.bind_eq_some_iff] at hplaces
  obtain ⟨base, -, hplaces⟩ := hplaces
  split at hplaces
  · obtain ⟨base', -, location, hlocation, -⟩ := by
      simpa only [Option.bind_eq_some_iff] using hplaces
    exact ⟨location, hlocation⟩
  · obtain ⟨location, hlocation, -⟩ := by
      simpa only [Option.bind_eq_some_iff] using hplaces
    exact ⟨location, hlocation⟩

end ReplacementDict

-- Every key that both define has one value.
def Agree (m : ReplacementMapping) (rd : ReplacementDict) : Prop :=
  ∀ key v w, m.lookup key = some v → rd.get? key = some w → v = w

-- Where the two know one location of the file, the server has a dot more before its
-- extension than any extension has.
theorem not_agree_of_frommodel {config : DictsConfig} {type_ : ReplacementType}
    {sip : Option UnitRow} {f : FileRow} {expandPath : Bool} {rd : ReplacementDict}
    (h : ReplacementDict.frommodel config type_ sip (some f) expandPath = some rd)
    (cwd : Option Str) (pkg : Package) (g : StoreFile) : ¬ Agree (fileReplacements cwd pkg g) rd := by
  intro hagree
  obtain ⟨current, hcurrent, hext⟩ := ReplacementDict.get?_frommodel h
  have hsame : g.currentLocation = current :=
    hagree _ _ _ (fileReplacements_currentLocation cwd pkg g) hcurrent
  have hdot : '.' :: FilePath.ext g.currentLocation = (PosixPath.splitext current).2 :=
    hagree _ _ _ (fileReplacements_extensionWithDot cwd pkg g) hext
  rw [hsame] at hdot
  exact PosixPath.dot_ext_ne_splitext current hdot

-- Every row that the worker has a dictionary for has one at the server, and in no such
-- case are the two the same on what both define.
theorem not_agree {config : DictsConfig} {sip : Option UnitRow} {f : FileRow} {expandPath : Bool}
    {rd : ReplacementDict}
    (h : ReplacementDict.frommodel config .file sip (some f) expandPath = some rd)
    (cwd : Option Str) (pkg : Package) :
    ∃ g, f.stored = some g ∧ ¬ Agree (fileReplacements cwd pkg g) rd := by
  obtain ⟨location, hlocation⟩ := ReplacementDict.currentlocation_of_frommodel h
  exact ⟨_, by rw [FileRow.stored, hlocation, Option.map_some], not_agree_of_frommodel h cwd pkg _⟩

namespace Letter

-- A text file of a SIP, at the server and at the worker.

def config : DictsConfig where
  sharedDirectory := "/shared/".toList
  processingDirectory := "/shared/currentlyProcessing/".toList
  rejectedDirectory := "/shared/rejected/".toList
  watchDirectory := "/shared/watchedDirectories/".toList
  cwd := "/".toList

def sip : SIPRow where
  uuid := .nil
  currentpath := some "%sharedPath%currentlyProcessing/papers/".toList

def row : FileRow where
  uuid := .nil
  sip := .row sip
  transfer := .null
  originallocation := "%transferDirectory%objects/letter.txt".toList
  currentlocation := some "%SIPDirectory%objects/letter.txt".toList
  filegrpuse := "original".toList

def pkg : Package where
  id := .nil
  unit := .sip "SIP".toList []
  sharedDir := "/shared/".toList
  path := "/shared/currentlyProcessing/papers/".toList
  startAtChainID := .nil
  startAtLinkID := .nil

end Letter

theorem not_agree_letter :
    ∃ rd, ReplacementDict.frommodel Letter.config .file none (some Letter.row) true = some rd ∧
      ∃ g, Letter.row.stored = some g ∧ ¬ Agree (fileReplacements none Letter.pkg g) rd := by
  obtain ⟨rd, hrd⟩ :
      ∃ rd, ReplacementDict.frommodel Letter.config .file none (some Letter.row) true = some rd :=
    ⟨_, rfl⟩
  exact ⟨rd, hrd, not_agree hrd none Letter.pkg⟩

-- With the directories left as they are the two have one location and one name, and the
-- extension of the one has a dot, or a dot more.
theorem letter_extensions :
    ∃ g rd, Letter.row.stored = some g ∧
      ReplacementDict.frommodel Letter.config .file none (some Letter.row) false = some rd ∧
      (fileReplacements none Letter.pkg g).lookup "%fileName%".toList = some "letter".toList ∧
      rd.get? "%fileName%".toList = some "letter".toList ∧
      (fileReplacements none Letter.pkg g).lookup "%fileExtension%".toList = some ".txt".toList ∧
      rd.get? "%fileExtension%".toList = some "txt".toList ∧
      (fileReplacements none Letter.pkg g).lookup "%fileExtensionWithDot%".toList =
        some "..txt".toList ∧
      rd.get? "%fileExtensionWithDot%".toList = some ".txt".toList ∧
      ¬ Agree (fileReplacements none Letter.pkg g) rd := by
  refine ⟨_, _, rfl, rfl, rfl, rfl, rfl, rfl, rfl, rfl, ?_⟩
  exact @not_agree_of_frommodel Letter.config .file none Letter.row false _ rfl none Letter.pkg _

end Ccp
