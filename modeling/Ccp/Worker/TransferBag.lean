import Ccp.Worker.FileOperations
import Ccp.Worker.MoveOrMerge

namespace Ccp.Worker.TransferBag

open Lib FileOperations MoveOrMerge

def data : Name := ⟨"data".toList, by decide⟩

def bagIt : Name := ⟨"BagIt".toList, by decide⟩

@[simp] theorem data_ne : data ≠ logs ∧ data ≠ metadata ∧ data ≠ objects := by decide

@[simp] theorem logs_ne : logs ≠ data ∧ logs ≠ metadata ∧ logs ≠ objects := by decide

@[simp] theorem metadata_ne : metadata ≠ data ∧ metadata ≠ logs ∧ metadata ≠ objects := by decide

@[simp] theorem objects_ne : objects ≠ data ∧ objects ≠ logs ∧ objects ≠ metadata := by decide

def bagFileDefaultDest : List Name := [logs, bagIt]

-- A directory of the list, by its path from the unit on. The last one is written with
-- the path of the unit, and a join leaves such a path as it is.
structure Required where
  path : List Name
  absolute : Bool
deriving DecidableEq

def Required.dataPath (r : Required) : List Name := if r.absolute then r.path else data :: r.path

-- MY_REQUIRED_DIRECTORIES
def requiredDirectories : List Required :=
  [⟨[logs], false⟩, ⟨[logs, fileMeta], false⟩, ⟨[metadata], false⟩,
    ⟨[metadata, submissionDocumentation], false⟩, ⟨[objects], false⟩, ⟨bagFileDefaultDest, true⟩]

def isRequired (item : Name) : Bool :=
  requiredDirectories.any fun r => !r.absolute && r.path = [item]

def isOptional (item : Name) : Bool :=
  item.1 = "processingMCP.xml".toList || item.1 = "README.html".toList

def isManifest (item : Name) : Bool := "manifest".toList.isPrefixOf item.1

section Restructure

variable {α : Type*} [DecidableEq α] (u : UnitRef)

-- A directory of the payload goes to the top level, after the metadata of the top level
-- has been merged into that of the payload.
def requireDirectory (s : State α) (r : Required) : Option (State α) :=
  if s.disk.isdir r.dataPath then
    if r.path = [metadata] ∧ s.disk.isdir r.path then
      (moveOrMerge r.path r.dataPath s.disk).bind fun disk =>
        updateDirectoryLocation u r.dataPath r.path { s with disk }
    else updateDirectoryLocation u r.dataPath r.path s
  else if s.disk.isdir r.path then some s
  else (s.disk.makedirs r.path).map fun disk => { s with disk }

def moveTopLevel (s : State α) (item : Name) : Option (State α) :=
  if s.disk.isfile [item] then
    if isManifest item then updateFileLocation2 u [item] [metadata, item] s
    else if isOptional item then some s
    else updateFileLocation2 u [item] (bagFileDefaultDest ++ [item]) s
  else some s

def movePayload (s : State α) (item : Name) : Option (State α) :=
  if s.disk.isdir [data, item] ∧ ¬ isRequired item then
    updateDirectoryLocation u [data, item] [objects, item] s
  else if s.disk.isfile [data, item] ∧ ¬ isOptional item then
    updateFileLocation2 u [data, item] [objects, item] s
  else if isOptional item then updateFileLocation2 u [data, item] [item] s
  else some s

def restructureBagForComplianceFileUUIDsAssigned (s : State α) : Option (State α) := do
  let s ← requiredDirectories.foldlM (requireDirectory u) s
  let s ← (s.disk.listdir []).foldlM (moveTopLevel u) s
  if s.disk.isdir [data] then
    let s ← (s.disk.listdir [data]).foldlM (movePayload u) s
    (s.disk.rmdir [data]).map fun disk => { s with disk }
  else none

end Restructure

section Separate

variable {α : Type*}

-- The directory that becomes the objects of the unit.
def objectsBefore (d : Disk Name α) : List Name :=
  if d.isdir [objects] then [objects] else [data, objects]

-- The metadata of the unit have an entry of this name once the two are one. A merge takes
-- no directory over that has no file in it.
def MetadataHas (d : Disk Name α) (n : Name) : Prop :=
  d.found [data, metadata, n] = true ∨
    if d.isdir [data, metadata] then ¬ NoFile d [metadata, n] else d.found [metadata, n] = true

-- Nothing that is moved finds its place taken.
structure Separate (u : UnitRef) (d : Disk Name α) : Prop where
  logs : d.isdir [logs] = true → d.isdir [data, logs] = true → NoFile d [data, logs]
  objects : d.isdir [objects] = true → d.isdir [data, objects] = true → NoFile d [data, objects]
  metadata : ∀ r c, d.node ([metadata] ++ r) = some (.file c) →
    d.isdir ([data, metadata] ++ r) = false
  manifests : ∀ n, isManifest n = true → d.isfile [n] = true → ¬ MetadataHas d n
  payloadDirs : ∀ n, isRequired n = false → d.isdir [data, n] = true →
    d.isdir (objectsBefore d ++ [n]) = true → NoFile d [data, n]
  payloadFiles : ∀ n, isOptional n = false → d.isfile [data, n] = true →
    d.found (objectsBefore d ++ [n]) = false
  optionalFiles : ∀ n, isOptional n = true → d.isfile [data, n] = true → d.found [n] = false
  plain : ∀ n, d.isdir [data, n] = true → Plain u d [data, n]

end Separate

end Ccp.Worker.TransferBag
