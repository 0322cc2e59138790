import Ccp.Lib.Dict
import Ccp.Lib.PosixPath
import Ccp.Lib.Text
import Ccp.Uuid

namespace Ccp.Worker.Dataverse

open Lib

-- convert_dataverse_structure.py

-- What the script reads of a file in dataset.json.
structure DataFile where
  filename : Option Str
  originalFormatLabel : Option Str
  md5 : Option Str

structure FileJson where
  label : Option Str
  dataFile : Option DataFile

inductive EntryType
  | directory
  | item
deriving DecidableEq

-- An entry is known by its place in the list of those that were made, also as the one that
-- another is derived from. The checksum is an MD5.
structure Entry where
  id : ℕ
  type : EntryType
  path : Str
  use : Option Str
  derivedFrom : Option ℕ
  checksum : Option Str
deriving DecidableEq

namespace Entry

-- An entry without a label has its base name.
def label (e : Entry) : Str := PosixPath.basename e.path

end Entry

def original : Str := "original".toList

def derivative : Str := "derivative".toList

def metadata : Str := "metadata".toList

def unknown : Str := "UNKNOWN".toList

def rData : Str := "R Data".toList

def extensionMapping : Dict Str Str :=
  [("Comma Separated Values".toList, ".csv".toList), ("MS Excel (XLSX)".toList, ".xlsx".toList),
    ("R Data".toList, ".RData".toList), ("SPSS Portable".toList, ".por".toList),
    ("SPSS SAV".toList, ".sav".toList), ("Stata Binary".toList, ".dta".toList),
    ("Stata 13 Binary".toList, ".dta".toList), ("UNKNOWN".toList, "UNKNOWN".toList)]

-- label[:-4]
def baseName (label : Str) : Str := label.take (label.length - 4)

def originalName (base filename : Str) (dataFile : DataFile) : Str :=
  let ext := (Dict.get? extensionMapping (dataFile.originalFormatLabel.getD [])).getD unknown
  if ext = unknown then filename else base ++ ext

def inBundle (base name : Str) : Str := base ++ '/' :: name

-- What comes with the original file, with its use.
def derivedFiles (base filename : Str) (dataFile : DataFile) : List (Str × Str) :=
  (if dataFile.originalFormatLabel ≠ some rData then [(base ++ ".RData".toList, derivative)] else []) ++
    [(filename, derivative), (base ++ "-ddi.xml".toList, metadata),
      (base ++ "citation-endnote.xml".toList, metadata), (base ++ "citation-ris.ris".toList, metadata),
      (base ++ "citation-bib.bib".toList, metadata)]

def bundleOf (n : ℕ) (base filename : Str) (dataFile : DataFile) (checksum : Str) : List Entry :=
  ⟨n, .directory, base, none, none, none⟩ ::
    ⟨n + 1, .item, inBundle base (originalName base filename dataFile), some original, none, some checksum⟩ ::
      ((derivedFiles base filename dataFile).zipIdx (n + 2)).map fun file =>
        ⟨file.2, .item, inBundle base file.1.1, some file.1.2, some (n + 1), none⟩

-- None for a bundle without a label or a checksum.
def createBundle (n : ℕ) (tabfile : FileJson) (filename : Str) (dataFile : DataFile) : Option (List Entry) := do
  let tabfileName ← tabfile.label
  let checksum ← dataFile.md5
  some (bundleOf n (baseName tabfileName) filename dataFile checksum)

def tab : Str := ".tab".toList

def addPlainFile (entries : List Entry) (path : Str) (dataFile : DataFile) : Option (List Entry) :=
  if path = [] then none
  else dataFile.md5.map fun checksum =>
    entries ++ [⟨entries.length, .item, path, some original, none, some checksum⟩]

def addDatasetFile (entries : List Entry) (file : FileJson) : Option (List Entry) := do
  let dataFile ← file.dataFile
  let filename ← dataFile.filename
  if tab.isSuffixOf filename then
    (createBundle entries.length file filename dataFile).map (entries ++ ·)
  else addPlainFile entries filename dataFile

def addDatasetFilesToMd (entries : List Entry) (files : List FileJson) : Option (List Entry) :=
  if files = [] then none else files.foldlM addDatasetFile entries

def addMdDirToStructmap (entries : List Entry) : List Entry :=
  entries ++ [⟨entries.length, .directory, "metadata".toList, none, none, none⟩,
    ⟨entries.length + 1, .item, "metadata/dataset.json".toList, some metadata, none, none⟩]

-- The entries of the METS of a data set with these files.
def convertDataverseToMets (files : List FileJson) : Option (List Entry) :=
  (addDatasetFilesToMd [⟨0, .directory, "None".toList, none, none, none⟩] files).map addMdDirToStructmap

-- parse_dataverse_mets.py

structure File where
  uuid : UUID
  transfer : UUID
  originallocation : Str
  currentlocation : Option Str
  removed : Bool
  filegrpuse : Option Str
deriving DecidableEq

structure Event where
  file : UUID
  eventType : Str
  eventOutcome : Str
deriving DecidableEq

-- The event is known by its place in the table.
structure Derivation where
  sourceFile : UUID
  derivedFile : UUID
  event : ℕ
deriving DecidableEq

structure Db where
  files : List File
  events : List Event
  derivations : List Derivation

-- What is on the disk: which paths are directories, and the checksums of the files.
structure Disk where
  isdir : Str → Bool
  checksum : Str → Option Str

inductive Lookup
  | missing
  | found (file : File)
  | many

-- File.objects.get
def lookup (files : List File) (transfer : UUID) (location : Str) : Lookup :=
  match files.filter fun f => f.transfer = transfer ∧ f.originallocation = location with
  | [] => .missing
  | [file] => .found file
  | _ => .many

def transferObjectsDirectory : Str := "%transferDirectory%objects".toList

def location (path : Str) : Str := PosixPath.join transferObjectsDirectory path

-- A file that is gone, as the extraction of packages leaves it.
def File.gone (f : File) : Bool := f.currentlocation = none ∧ f.removed = true

def File.kept (f : File) : Option File := if f.gone then none else some f

-- Nothing when there is no one row; a file that is gone is left out.
def getDbObject (files : List File) (transfer : UUID) (e : Entry) : Option (Option File) :=
  match lookup files transfer (location e.path) with
  | .found file => some file.kept
  | _ =>
      match lookup files transfer (location (PosixPath.basename e.path)) with
      | .found file => some file.kept
      | _ => none

abbrev Mapping := List (Entry × File)

def datasetJson : Str := "dataset.json".toList

def Entry.skipped (e : Entry) : Bool := e.type = .directory ∨ e.label = datasetJson

def addObject (files : List File) (transfer : UUID) (mapping : Mapping) (e : Entry) : Option Mapping :=
  if e.skipped then some mapping
  else (getDbObject files transfer e).map fun file => mapping ++ file.toList.map fun f => (e, f)

def getDbObjects (files : List File) (transfer : UUID) (allFiles : List Entry) : Option Mapping :=
  allFiles.foldlM (addObject files transfer) []

def Db.setUse (db : Db) (item : Entry × File) : Db :=
  ⟨db.files.map fun f => if f.uuid = item.2.uuid then ⟨f.uuid, f.transfer, f.originallocation,
    f.currentlocation, f.removed, item.1.use⟩ else f, db.events, db.derivations⟩

def updateFileUse (mapping : Mapping) (db : Db) : Db := mapping.foldl Db.setUse db

def Mapping.get? (mapping : Mapping) (id : ℕ) : Option File :=
  (mapping.find? fun item => item.1.id = id).map Prod.snd

def Db.addDerivation (db : Db) (source derived : UUID) : Db :=
  ⟨db.files, db.events ++ [⟨source, "derivation".toList, []⟩],
    db.derivations ++ [⟨source, derived, db.events.length⟩]⟩

-- mapping[entry.derived_from] is an error when the original is not in the mapping.
def createDbEntry (mapping : Mapping) (db : Db) (item : Entry × File) : Option Db :=
  match item.1.derivedFrom with
  | none => some db
  | some source =>
      if item.1.use = some derivative then
        (mapping.get? source).map fun file => db.addDerivation file.uuid item.2.uuid
      else some db

def createDbEntries (mapping : Mapping) (db : Db) : Option Db := mapping.foldlM (createDbEntry mapping) db

def Db.addFixity (db : Db) (file : UUID) (outcome : Str) : Db :=
  ⟨db.files, db.events ++ [⟨file, "fixity check".toList, outcome⟩], db.derivations⟩

def verifyChecksum (disk : Disk) (file : UUID) (path checksum : Str) (db : Db) : Option Db :=
  (disk.checksum path).map fun generated =>
    db.addFixity file (if checksum ≠ generated then "Fail".toList else "Pass".toList)

def transferDirectory : Str := "%transferDirectory%".toList

-- A file whose location is not known is an error, also one that cannot be read.
def validateChecksum (disk : Disk) (unitPath : Str) (db : Db) (item : Entry × File) : Option Db :=
  if item.1.checksum.getD [] = [] ∨ item.2.gone = true then some db
  else item.2.currentlocation.bind fun current =>
    let path := replaceAll current transferDirectory unitPath
    if disk.isdir path then some db
    else verifyChecksum disk item.2.uuid path (item.1.checksum.getD []) db

def validateChecksums (disk : Disk) (unitPath : Str) (mapping : Mapping) (db : Db) : Option Db :=
  mapping.foldlM (validateChecksum disk unitPath) db

-- all_files of the METS is a set: its order is any.
def parseDataverseMets (disk : Disk) (unitPath : Str) (transfer : UUID) (allFiles : List Entry) (db : Db) :
    Option (Mapping × Db) := do
  let mapping ← getDbObjects db.files transfer allFiles
  let db ← createDbEntries mapping (updateFileUse mapping db)
  let db ← validateChecksums disk unitPath mapping db
  some (mapping, db)

end Ccp.Worker.Dataverse
