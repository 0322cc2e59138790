import Ccp.Lib.Paging
import Ccp.Lib.PosixPath
import Ccp.Worker.TransferMets
import Mathlib.Data.Char
import Mathlib.Data.List.Lex

namespace Ccp.Worker.TransferMets

open Lib Tuple
open Rights (Statement)

-- The tags of the data of events and agents.
inductive EventTag
  | event
  | eventIdentifier
  | eventIdentifierType
  | eventIdentifierValue
  | eventType
  | eventDateTime
  | eventDetailInformation
  | eventDetail
  | eventOutcomeInformation
  | eventOutcome
  | eventOutcomeDetail
  | eventOutcomeDetailNote
  | linkingAgentIdentifier
  | linkingAgentIdentifierType
  | linkingAgentIdentifierValue
  | agent
  | agentIdentifier
  | agentIdentifierType
  | agentIdentifierValue
  | agentName
  | agentType
deriving DecidableEq

abbrev EventData := Tuple EventTag (Atom Empty)

structure Agent where
  identifiertype : Option Str
  identifiervalue : Option Str
  name : Option Str
  agenttype : Str

-- event_datetime is as metsrw writes it.
structure Event where
  eventID : Option UUID
  eventType : Str
  eventDatetime : Str
  eventDetail : Str
  eventOutcome : Str
  eventOutcomeDetail : Str
  agents : List Agent

-- A row of the files with what is asked for beside it. The agents are those of its
-- events, each of them once.
structure FileRow where
  file : File
  currentlocation : Option Str
  events : List Event
  agents : List Agent

structure DirectoryRow where
  uuid : UUID
  originallocation : Str
  currentlocation : Option Str
  identifiers : List Identifier

-- The agent of the preservation system comes before those of the query.
def extendQuerysetWithPreservationSystem (system : Agent) (agents : List Agent) : List Agent := system :: agents

def eventToPremis (system : Agent) (e : Event) : EventData :=
  node .event (
    [atom .premisMeta,
      node .eventIdentifier [
        leaf .eventIdentifierType "UUID".toList,
        leaf .eventIdentifierValue (e.eventID.elim strNone UUID.string)],
      leaf .eventType e.eventType,
      leaf .eventDateTime e.eventDatetime,
      node .eventDetailInformation [leaf .eventDetail e.eventDetail],
      node .eventOutcomeInformation [
        leaf .eventOutcome e.eventOutcome,
        node .eventOutcomeDetail [leaf .eventOutcomeDetailNote e.eventOutcomeDetail]]] ++
    (extendQuerysetWithPreservationSystem system e.agents).map fun a =>
      node .linkingAgentIdentifier [
        leaf .linkingAgentIdentifierType (a.identifiertype.getD []),
        leaf .linkingAgentIdentifierValue (a.identifiervalue.getD [])])

def agentToPremis (a : Agent) : EventData :=
  node .agent [
    atom .premisMeta,
    node .agentIdentifier [
      leaf .agentIdentifierType (a.identifiertype.getD []),
      leaf .agentIdentifierValue (a.identifiervalue.getD [])],
    leaf .agentName (a.name.getD []),
    leaf .agentType a.agenttype]

-- What an intellectual entity has after its root.
def dirObjToPremis (d : DirectoryRow) : List (Data Empty) :=
  getPremisObjectIdentifiers d.uuid d.identifiers ++ [leaf .originalName d.originallocation]

-- What scandir finds in a directory, in any order.
inductive Entries
  | nil
  | file (name : Str) (rest : Entries)
  | directory (name : Str) (entries rest : Entries)

-- The entries of a directory, the data of an item and of a directory beside them.
inductive FSEntries (α β : Type)
  | nil
  | item (path label : Str) (data : α) (rest : FSEntries α β)
  | directory (path label : Str) (data : β) (children rest : FSEntries α β)

-- What an entry is told about its file.
structure Item (X : Type) where
  fileUUID : Option Str
  checksum : Option Str
  checksumtype : Option Str
  premisObjects : List (Data X)
  premisEvents : List EventData
  premisAgents : List EventData
  premisRights : List (Data X)

-- The entries that the tree is made of, by their paths in the database.
structure Index (X : Type) where
  files : Dict Str (Item X)
  dirs : Dict Str (List (List (Data Empty)))

-- The rows of a query, and their order when it is asked the k-th time.
structure QuerySet (α : Type) where
  rows : List α
  order : ℕ → List α
  perm : ∀ k, (order k).Perm rows

-- What the rights of a file are asked for by is its UUID, NULL where it has none.
structure Database where
  files : QuerySet FileRow
  transferRights : List Statement
  fileRights : Option Str → List Statement
  directories : QuerySet DirectoryRow

namespace Entries

-- Before the first entry of a name that is not smaller.
def insort (name : Str) (entry : Entries → Entries) : Entries → Entries
  | nil => entry nil
  | file other rest =>
      if name ≤ other then entry (file other rest) else file other (insort name entry rest)
  | directory other entries rest =>
      if name ≤ other then entry (directory other entries rest) else directory other entries (insort name entry rest)

-- sorted(os.scandir(path), key=name), in every directory.
def sorted : Entries → Entries
  | nil => nil
  | file name rest => insort name (file name) rest.sorted
  | directory name entries rest => insort name (directory name entries.sorted) rest.sorted

end Entries

section Scan

variable {X : Type}

def Item.new : Item X := ⟨none, none, none, [], [], [], []⟩

variable (dbBasePath : Str)

-- relpath goes from the root to the entry: the path of its directory and its name.
def buildTree (path : Str) : Entries → Index X → FSEntries Str Str × Index X
  | .nil, index => (.nil, index)
  | .file name rest, index =>
      let entryRelativePath := PosixPath.join path name
      let dbPath := dbBasePath ++ entryRelativePath
      let (entries, index) := buildTree path rest { index with files := Dict.set index.files dbPath Item.new }
      (.item entryRelativePath name dbPath entries, index)
  | .directory name children rest, index =>
      let entryRelativePath := PosixPath.join path name
      let dbPath := dbBasePath ++ entryRelativePath ++ ['/']
      let (below, index) :=
        buildTree entryRelativePath children { index with dirs := Dict.set index.dirs dbPath [] }
      let (entries, index) := buildTree path rest index
      (.directory entryRelativePath name dbPath below entries, index)

def queryBatchSize : ℕ := 2000

-- Batches are asked for as long as the offset is less than the number of rows.
def batchQuery {α : Type} (queryset : QuerySet α) : List α :=
  Paging.pages queryBatchSize queryset.order ((queryset.rows.length + queryBatchSize - 1) / queryBatchSize)

def loadFile (fromstring : Str → Option X) (system : Agent) (item : Item X) (r : FileRow) : Option (Item X) := do
  let premisObject ← fileObjToPremis fromstring r.file
  return { item with
    fileUUID := some r.file.uuid.string
    checksum := some r.file.checksum
    checksumtype := some (convertToPremisHashFunction r.file.checksumtype)
    premisObjects := item.premisObjects ++ [premisObject]
    premisEvents := item.premisEvents ++ r.events.map (eventToPremis system)
    premisAgents := item.premisAgents ++ (extendQuerysetWithPreservationSystem system r.agents).map agentToPremis }

-- A row whose file is not in the index is passed over.
def loadFileDataFromDB (fromstring : Str → Option X) (system : Agent) (rows : List FileRow)
    (fileIndex : Dict Str (Item X)) : Option (Dict Str (Item X)) :=
  rows.foldlM (fun fileIndex r => do
    let location ← r.currentlocation
    match Dict.get? fileIndex location with
    | Option.none => return fileIndex
    | Option.some item => return Dict.set fileIndex location (← loadFile fromstring system item r)) fileIndex

-- str(uuid.uuid4()) may be any text each time.
def addRights (getCodeForCountry : Str → Option Str) (uuid4 : Str → ℕ → Str) (dbPath : Str) (item : Item X)
    (rights : Statement) : Item X :=
  { item with
    premisRights := item.premisRights ++ [rightsToPremis getCodeForCountry (uuid4 dbPath item.premisRights.length)
      (item.fileUUID.getD strNone) rights] }

def loadRightsDataFromDB (getCodeForCountry : Str → Option Str) (uuid4 : Str → ℕ → Str)
    (transferRights : List Statement) (fileRights : Option Str → List Statement) (fileIndex : Dict Str (Item X)) :
    Dict Str (Item X) :=
  let fileIndex := transferRights.foldl (fun fileIndex rights =>
    fileIndex.map fun e => (e.1, addRights getCodeForCountry uuid4 e.1 e.2 rights)) fileIndex
  fileIndex.map fun e => (e.1, (fileRights e.2.fileUUID).foldl (addRights getCodeForCountry uuid4 e.1) e.2)

def loadDirUUIDsFromDB (rows : List DirectoryRow) (dirIndex : Dict Str (List (List (Data Empty)))) :
    Option (Dict Str (List (List (Data Empty)))) :=
  rows.foldlM (fun dirIndex d => do
    let location ← d.currentlocation
    return Dict.modify dirIndex location (· ++ [dirObjToPremis d])) dirIndex

-- The entry leaves the children of its parent.
def FSEntries.removeChild (t : FSEntries Str Str) (dbPath : Str) : FSEntries Str Str :=
  match t with
  | .nil => .nil
  | .item path label key rest => if key = dbPath then rest else .item path label key (rest.removeChild dbPath)
  | .directory path label key children rest =>
      .directory path label key (children.removeChild dbPath) (rest.removeChild dbPath)

def checkForMissingFileUUIDs (fileIndex : Dict Str (Item X)) (t : FSEntries Str Str) : FSEntries Str Str :=
  ((fileIndex.filter fun e => e.2.fileUUID.isNone).map Prod.fst).foldl FSEntries.removeChild t

def FSEntries.map {α β α' β' : Type} (f : α → α') (g : β → β') : FSEntries α β → FSEntries α' β'
  | .nil => .nil
  | .item path label data rest => .item path label (f data) (rest.map f g)
  | .directory path label data children rest => .directory path label (g data) (children.map f g) (rest.map f g)

-- The root of the tree after the scan, none where a row could not be read.
def scan (fromstring : Str → Option X) (system : Agent) (getCodeForCountry : Str → Option Str)
    (uuid4 : Str → ℕ → Str) (db : Database) (entries : Entries) :
    Option (FSEntries (Item X) (List (List (Data Empty)))) := do
  let (rootNode, index) := buildTree dbBasePath [] entries.sorted ⟨[], []⟩
  let files ← loadFileDataFromDB fromstring system (batchQuery db.files) index.files
  let files := loadRightsDataFromDB getCodeForCountry uuid4 db.transferRights db.fileRights files
  let dirs ← loadDirUUIDsFromDB (batchQuery db.directories) index.dirs
  return (checkForMissingFileUUIDs files rootNode).map
    (fun key => (Dict.get? files key).getD Item.new) fun key => (Dict.get? dirs key).getD []

end Scan

end Ccp.Worker.TransferMets
