import Ccp.Lib.PosixPath
import Ccp.Worker.FileOperations

namespace Ccp.Worker.TrimRestructure

open Lib FileOperations

-- What a row says of the use of its file, and of the file that this one belongs to.
structure Group where
  filegrpuse : Str
  filegrpuuid : Option UUID
deriving DecidableEq

-- The transfer, with the groups of the rows by their keys.
structure Transfer (α : Type*) extends State α where
  groups : UUID → Group

def requiredDirectories : List (List Name) :=
  [[logs], [logs, fileMeta], [metadata], [metadata, submissionDocumentation], [objects]]

-- item in REQUIRED_DIRECTORIES
def isRequired (item : Name) : Bool := requiredDirectories.any fun r => r = [item]

def isMetadata (item : Name) : Bool := "Metadata.xml".toList.isSuffixOf item.1

def setUse (groups : UUID → Group) (fileUUID : UUID) (fileGrpUse : Str) : UUID → Group :=
  fun uuid => if uuid = fileUUID then { groups uuid with filegrpuse := fileGrpUse } else groups uuid

def setGroup (groups : UUID → Group) (fileUUID : UUID) (fileGrpUse : Str) (fileGrpUUID : UUID) :
    UUID → Group :=
  fun uuid => if uuid = fileUUID then ⟨fileGrpUse, some fileGrpUUID⟩ else groups uuid

section Restructure

variable {α : Type*} (u : UnitRef)

-- The rows whose location has the text in it, by their locations.
def getFileUUIDLike (srcDB : Str) (files : List File) : Dict Str UUID :=
  (files.filter fun f => u.owns f && occursIn srcDB f.currentlocation).foldl
    (fun d f => d.set f.currentlocation f.uuid) []

-- fileUUID and fileGrpUUID, each the last of its kind.
def pairOf (files : Dict Str UUID) : Option UUID × Option UUID :=
  files.foldl (fun pair e =>
    if "Metadata.xml".toList.isSuffixOf e.1 then (some e.2, pair.2) else (pair.1, some e.2))
      (none, none)

def pairUp (groups : UUID → Group) (files : Dict Str UUID) : UUID → Group :=
  match pairOf files with
  | (some fileUUID, some fileGrpUUID) =>
      setGroup groups fileUUID "TRIM file metadata".toList fileGrpUUID
  | (some fileUUID, none) => setUse groups fileUUID "TRIM container metadata".toList
  | (none, _) => groups

-- TRIMfileID: the path of the container, and the name without what comes with the id.
def trimFileID (item item2 : Name) : Str :=
  PosixPath.join item.1 (item2.1.take (item2.1.length - (1 + "Metadata.xml".length)))

-- The pattern of the query, in which the wildcards of SQL are ordinary characters.
def pattern (item item2 : Name) : Str := '%' :: (trimFileID item item2 ++ ['%'])

def moveContained (item : Name) (t : Transfer α) (item2 : Name) : Option (Transfer α) :=
  (updateFileLocation2 u [item, item2] [objects, item, item2] t.toState).map fun s =>
    { s with
      groups :=
        if isMetadata item2 then
          pairUp t.groups (getFileUUIDLike u (pattern item item2) s.files)
        else t.groups }

def moveContainer (item : Name) (t : Transfer α) : Option (Transfer α) := do
  let disk ← t.disk.mkdir [objects, item]
  let t ← (disk.listdir [item]).foldlM (moveContained u item) { t with disk }
  let disk ← t.disk.rmdir [item]
  return { t with disk }

def destination (item : Name) : List Name :=
  if item.1 = "manifest.txt".toList then [metadata, submissionDocumentation, item]
  else [metadata, item]

def moveTopLevel (item : Name) (t : Transfer α) : Option (Transfer α) :=
  (updateFileLocation2 u [item] (destination item) t.toState).map fun s =>
    { s with
      groups := (getFileUUIDLike u (u.location (destination item)) s.files).foldl
        (fun groups e => setUse groups e.2 "TRIM metadata".toList) t.groups }

def restructureItem (t : Transfer α) (item : Name) : Option (Transfer α) :=
  if isRequired item then some t
  else if t.disk.isdir [item] then moveContainer u item t
  else moveTopLevel u item t

def createDirectory (t : Transfer α) (r : List Name) : Option (Transfer α) :=
  if t.disk.isdir r then some t else (t.disk.makedirs r).map fun disk => { t with disk }

def restructureTRIMForComplianceFileUUIDsAssigned (t : Transfer α) : Option (Transfer α) := do
  let t ← requiredDirectories.foldlM createDirectory t
  (t.disk.listdir []).foldlM (restructureItem u) t

end Restructure

section Compliance

variable {α : Type*}

-- Every row of the unit leads to a file and every file has a row; rows are told apart by
-- their keys.
structure Tree (u : UnitRef) (t : Transfer α) : Prop where
  rows : ∀ f ∈ t.files, u.owns f = true → ∃ c, Holds u t.disk f c
  files : ∀ p c, t.disk.node p = some (.file c) →
    ∃ f ∈ t.files, u.owns f = true ∧ f.currentlocation = u.location p
  keys : (t.files.map (·.uuid)).Nodup

def IsContainer (d : Disk Name α) (item : Name) : Prop :=
  isRequired item = false ∧ d.isdir [item] = true

-- The metadata file of an id, and a document of it.
def IsMetadataOf (m : Name) (id : Str) : Prop := m.1 = id ++ "_Metadata.xml".toList

def IsDocument (d : Disk Name α) (item : Name) (id : Str) (doc : Name) : Prop :=
  d.isfile [item, doc] = true ∧ isMetadata doc = false ∧ ∃ ext, doc.1 = id ++ '.' :: ext

-- A row of a metadata file in a container.
structure MetadataRow (u : UnitRef) (t : Transfer α) (item m : Name) (f : File) : Prop where
  container : IsContainer t.disk item
  isfile : t.disk.isfile [item, m] = true
  name : isMetadata m = true
  mem : f ∈ t.files
  owns : u.owns f = true
  location : f.currentlocation = u.location [item, m]

structure Compliant (u : UnitRef) (t t' : Transfer α) : Prop where
  located : Follows u t.toState t'.toState
  paired : ∀ item m f id, MetadataRow u t item m f → IsMetadataOf m id →
    (∃ doc, IsDocument t.disk item id doc) →
    (t'.groups f.uuid).filegrpuse = "TRIM file metadata".toList ∧
      ∃ doc g, IsDocument t.disk item id doc ∧ g ∈ t.files ∧ u.owns g = true ∧
        g.currentlocation = u.location [item, doc] ∧ (t'.groups f.uuid).filegrpuuid = some g.uuid
  single : ∀ item m f, MetadataRow u t item m f →
    (∀ id, IsMetadataOf m id → ¬ ∃ doc, IsDocument t.disk item id doc) →
    (t'.groups f.uuid).filegrpuse = "TRIM container metadata".toList

-- No container has a metadata file, and no file of the top level comes to a place that is
-- taken.
structure Clear (d : Disk Name α) : Prop where
  containers : ∀ item m, IsContainer d item → isMetadata m = true → d.isfile [item, m] = false
  places : ∀ n, isRequired n = false → d.isfile [n] = true → n ≠ submissionDocumentation ∧
    (d.node (destination n) = none ∨ d.node (destination n) = d.node [n])

-- No name has the wildcard in it, and no row is marked before.
structure Ordinary (u : UnitRef) (t : Transfer α) : Prop where
  path : u.pathReplaceWith = "%transferDirectory%".toList
  names : ∀ f ∈ t.files, u.owns f = true → ∀ p, f.currentlocation = u.location p → '%' ∉ text p
  unmarked : ∀ uuid, (t.groups uuid).filegrpuse ≠ "TRIM file metadata".toList ∧
    (t.groups uuid).filegrpuse ≠ "TRIM container metadata".toList

end Compliance

end Ccp.Worker.TrimRestructure
