import Ccp.Lib.Xml
import Ccp.Worker.Mets

namespace Ccp.Worker.Mets

open Lib PosixPath

-- The elements and the attributes of METS that the script writes or reads. What a
-- section wraps or refers to is of another vocabulary, or has none of the four
-- attributes with identifiers, and is left out.
inductive Tag
  | mets | metsHdr | dmdSec | amdSec | techMD | rightsMD | digiprovMD | sourceMD
  | fileSec | fileGrp | file | fLocat | structMap | div | fptr | area
  | other (name : Str)
deriving DecidableEq

inductive Attr
  | id | dmdID | admID | fileID
  | type | label | use | groupID | href | contentIDs
  | other (name : Str)
deriving DecidableEq

abbrev Xml := Element Tag Attr

def ids (e : Xml) : List Str := e.values .id

-- The identifiers that the element and those below it refer to.
def refs (e : Xml) : List Str :=
  (e.values .dmdID ++ e.values .admID ++ e.values .fileID).flatMap tokens

-- The sections that are numbered, each kind by a counter of its own.
inductive Kind
  | dmdSec | amdSec | techMD | rightsMD | digiprovMD
deriving DecidableEq

namespace Kind

def tag : Kind → Tag
  | dmdSec => .dmdSec
  | amdSec => .amdSec
  | techMD => .techMD
  | rightsMD => .rightsMD
  | digiprovMD => .digiprovMD

def name : Kind → Str
  | dmdSec => "dmdSec".toList
  | amdSec => "amdSec".toList
  | techMD => "techMD".toList
  | rightsMD => "rightsMD".toList
  | digiprovMD => "digiprovMD".toList

end Kind

-- A name with a number, such as dmdSec_1.
def numbered (name : Str) (n : Nat) : Str := name ++ '_' :: (toString n).toList

def Kind.ident (kind : Kind) (n : Nat) : Str := numbered kind.name n

def structMapID (n : Nat) : Str := numbered "structMap".toList n

def newSection (kind : Kind) (id : Str) (children : List Xml) : Xml := .mk kind.tag [(.id, id)] children

structure MetsState where
  globalFileGrps : Dict Str (List Xml)
  amdSecs : List Xml
  dmdSecs : List Xml
  counter : Kind → Nat
  fileNameToFileID : Dict Str Str
  globalStructMapCounter : Nat
  trimStructMapObjects : Option Xml
  errorCount : Nat

def globalFileGrpsUses : List Str :=
  ["original".toList, "submissionDocumentation".toList, "preservation".toList, "service".toList,
    "access".toList, "license".toList, "text/ocr".toList, "metadata".toList, "derivative".toList]

def MetsState.new : MetsState where
  globalFileGrps := globalFileGrpsUses.map fun use => (use, [])
  amdSecs := []
  dmdSecs := []
  counter := fun _ => 0
  fileNameToFileID := []
  globalStructMapCounter := 0
  trimStructMapObjects := none
  errorCount := 0

-- What ends the script before it has written the document.
inductive Raised
  | doesNotExist
  | multipleObjectsReturned
  | attributeError
  | keyError
  | errors

abbrev M := EStateM Raised MetsState

-- The row of a file, with the type of its transfer.
structure File where
  uuid : UUID
  currentlocation : Str
  originallocation : Str
  filegrpuse : Str
  filegrpuuid : Str
  label : Str
  transferType : Option Str

-- What a directory holds as the script lists it: names in order, links followed.
inductive Listing
  | nil
  | file (name : Str) (rest : Listing)
  | dir (name : Str) (sub : Listing) (rest : Listing)
  | other (name : Str) (rest : Listing)

namespace Listing

def names : Listing → List Str
  | nil => []
  | file name rest => name :: rest.names
  | dir name _ rest => name :: rest.names
  | other name rest => name :: rest.names

-- A directory has no name twice.
def Named : Listing → Prop
  | nil => True
  | file name rest => Name name ∧ name ∉ rest.names ∧ rest.Named
  | dir name sub rest => Name name ∧ name ∉ rest.names ∧ sub.Named ∧ rest.Named
  | other name rest => Name name ∧ name ∉ rest.names ∧ rest.Named

end Listing

-- What the script finds on the disk and in the database, and how it is called.
structure Sip where
  sipType : Str
  baseDirectoryPath : Str
  includeAmdSec : Bool
  createNormativeStructmap : Bool
  -- the objects before and after the empty directories are deleted, and the
  -- directory of the metadata of an AIC
  walked : Option Entries
  objects : Option Listing
  metadata : Option Listing
  objects_named : ∀ l ∈ objects, l.Named
  metadata_named : ∀ l ∈ metadata, l.Named
  -- the rows of the SIP: files that are not removed, by their keys
  files : List File
  files_nodup : (files.map File.uuid).Nodup
  directories : List Str
  sipRow : Bool
  derivations : List (UUID × UUID)
  -- how many elements there are about a file: rights, those of DSpace, events and agents
  rights : UUID → Nat
  dspaceRights : UUID → Nat
  digiprov : UUID → Nat
  -- the metadata.csv files, by path
  csvMetadata : Dict Str (Dict Str (List Str))
  -- a METS file of DSpace has an identifier and the collection that it is part of
  dspaceIdentified : Str → Bool
  -- the IDs of the sections of the Dataverse METS files: those of directories, and
  -- those of an item, by the name of its file
  dataverse : List Str
  tabfile : Str → List Str
  -- the Dublin Core row of the SIP, or the dublincore.xml files that parse or do not
  dublinCore : Bool
  dublinCoreFiles : List Bool
  -- the files with the metadata of the transfers and of the sources, and bag-info
  transferMetadata : List Str
  sourceMetadata : List Str
  bagInfo : List (Dict Str (List Str))
  -- the mets_structmap.xml files, and the fix-up of a path in one
  customStructmaps : List Xml
  fixup : Str → Str
  arrange : Dict Str Str
  uuid4 : UUID
  -- metsrw reads, completes and writes the document
  writes : Xml → Bool

def sipDirVar : Str := "%SIPDirectory%".toList
def original : Str := "original".toList
def trim : Str := "TRIM".toList
def dspace : Str := "Dspace".toList
def dspaceMets : Str := "DSPACEMETS".toList

def fileID (f : File) : Str := "file-".toList ++ f.uuid.string
def groupOf (uuid : Str) : Str := "Group-".toList ++ uuid

def rstrip (s : Str) : Str := (s.reverse.dropWhile (· = '/')).reverse

section Sections

def addError : M Unit := modify fun st => { st with errorCount := st.errorCount + 1 }

def count (kind : Kind) : M Str := do
  let st ← get
  let n := st.counter kind + 1
  set { st with counter := Function.update st.counter kind n }
  return kind.ident n

-- As many new sections of a kind.
def newSections (kind : Kind) : Nat → M (List Xml)
  | 0 => pure []
  | n + 1 => do
      let id ← count kind
      let rest ← newSections kind n
      return newSection kind id [] :: rest

def addDmdSec : M Str := do
  let id ← count .dmdSec
  modify fun st => { st with dmdSecs := st.dmdSecs ++ [newSection .dmdSec id []] }
  return id

def isDC (key : Str) : Bool := "dc.".toList.isPrefixOf key || "dcterms.".toList.isPrefixOf key

-- A section for the Dublin Core elements and one for the others, when the first of
-- their kind is met.
def createDmdSecsFromCSVParsedMetadata (dc other : Bool) : Dict Str (List Str) → M (List Str)
  | [] => pure []
  | (key, _) :: metadata =>
      if (if isDC key then dc else other) then createDmdSecsFromCSVParsedMetadata dc other metadata
      else do
        let id ← addDmdSec
        let rest ← createDmdSecsFromCSVParsedMetadata (dc || isDC key) (other || !isDC key) metadata
        return id :: rest

end Sections

namespace Sip

variable (sip : Sip)

-- The path of the SIP with a separator at its end.
def base : Str := join sip.baseDirectoryPath []

def createDMDIDsFromCSVMetadata (path : Str) : M Str := do
  let ids ← createDmdSecsFromCSVParsedMetadata false false ((Dict.get? sip.csvMetadata path).getD [])
  return List.intercalate [' '] ids

-- The one row that a query is for.
def getOne {α : Type} : List α → M α
  | [a] => pure a
  | [] => throw .doesNotExist
  | _ => throw .multipleObjectsReturned

def trimRows (f : File) : List File :=
  sip.files.filter fun m =>
    m.filegrpuuid = f.uuid.string ∧ m.filegrpuse = "TRIM file metadata".toList

-- The file with what TRIM says about the original; without one there is no section
-- to set an attribute of.
def trimFileMetadata (f : File) : M Unit :=
  match sip.trimRows f with
  | [_] => pure ()
  | [] => throw .attributeError
  | _ => throw .multipleObjectsReturned

-- What only the original files have: rights, and what DSpace or TRIM says of them.
def rightsSections (f : File) (use : Str) : M (List Xml) :=
  if use = original then newSections .rightsMD (sip.rights f.uuid) else pure []

def transferSections (f : File) (use : Str) : M (List Xml) :=
  if use = original ∧ f.transferType = some dspace then
    newSections .rightsMD (sip.dspaceRights f.uuid)
  else if use = original ∧ f.transferType = some trim then do
    sip.trimFileMetadata f
    newSections .digiprovMD 1
  else pure []

def getAMDSec (f : File) (use : Str) : M (Xml × Str) := do
  let amdID ← count .amdSec
  let techMD ← newSections .techMD 1
  let rights ← sip.rightsSections f use
  let special ← sip.transferSections f use
  let digiprovMD ← newSections .digiprovMD (sip.digiprov f.uuid)
  return (newSection .amdSec amdID (techMD ++ rights ++ special ++ digiprovMD), amdID)

-- The structMap of a TRIM container, begun for the first file of its transfer.
def createTrimStructMap : M Unit := do
  let dmdID ← addDmdSec
  let amdID ← count .amdSec
  let digiprovMD ← newSections .digiprovMD 1
  modify fun st => { st with
    amdSecs := st.amdSecs ++ [newSection .amdSec amdID digiprovMD]
    trimStructMapObjects := some (.mk .div
      [(.type, "File".toList), (.label, "objects".toList), (.dmdID, dmdID), (.admID, amdID)] []) }

def startTrim (f : File) : M Unit := do
  let st ← get
  if f.transferType = some trim ∧ st.trimStructMapObjects.isNone then createTrimStructMap
  else pure ()

def trimFileDiv (f : File) (dmdID : Str) : Xml :=
  .mk .div [(.type, "Item".toList), (.dmdID, dmdID)] [.mk .fptr [(.fileID, fileID f)] []]

def addTrimFile (f : File) : M Unit :=
  if f.transferType = some trim then do
    sip.trimFileMetadata f
    let dmdID ← addDmdSec
    modify fun st => { st with
      trimStructMapObjects := st.trimStructMapObjects.map fun objects =>
        .mk objects.tag objects.attrib (objects.children ++ [trimFileDiv f dmdID]) }
  else pure ()

-- These files are in a group defined by themselves.
def ownGroup (f : File) : Bool :=
  f.filegrpuuid = [] ∧ ["original".toList, "submissionDocumentation".toList, "metadata".toList,
    "maildirFile".toList].contains f.filegrpuse

-- The original files in such a group can have metadata in a CSV file.
def describable (f : File) : Bool :=
  f.filegrpuuid = [] ∧ ["original".toList, "maildirFile".toList].contains f.filegrpuse

-- The path of the file in its transfer.
def transferPath (f : File) : Str :=
  replaceFirst "%transferDirectory%".toList [] f.originallocation

-- The group and the use of a file.
def group (f : File) (itemdirectoryPath : Str) : M (Str × Str) :=
  let use := f.filegrpuse
  if f.filegrpuuid ≠ [] then
    pure (groupOf f.filegrpuuid,
      if use = "TRIM file metadata".toList then "metadata".toList else use)
  else if ownGroup f then
    pure (groupOf f.uuid.string, if use = "maildirFile".toList then original else use)
  else if f.transferType = some dspace ∧
      ["license".toList, "text/ocr".toList, dspaceMets].contains use then
    let found := sip.files.find? fun o =>
      o.filegrpuse = original ∧ (dirname f.originallocation).isPrefixOf o.originallocation
    pure ((found.map fun o => groupOf o.uuid.string).getD [], use)
  else if ["preservation".toList, "text/ocr".toList, "derivative".toList].contains use then do
    let d ← getOne (sip.derivations.filter fun d => d.1 = f.uuid)
    return (groupOf d.2.string, use)
  else if use = "service".toList then do
    let path := replaceAll itemdirectoryPath (sip.base ++ "objects/service/".toList)
      (sipDirVar ++ "objects/".toList)
    let path := (path.reverse.dropWhile (· ≠ '.')).reverse
    let o ← getOne (sip.files.filter fun o =>
      o.filegrpuse = original ∧ path.isPrefixOf o.currentlocation)
    return (groupOf o.uuid.string, use)
  else if use = "TRIM container metadata".toList then
    pure (groupOf f.uuid.string, "metadata".toList)
  else pure ([], use)

-- The section with the reference to the METS file of DSpace is dropped when that has
-- no identifier. The other section is in the list already, but an element that is
-- appended twice is there once, where it came last.
def createDSpaceDMDSec (itemdirectoryPath : Str) : M Str := do
  let dmdID ← count .dmdSec
  if sip.dspaceIdentified itemdirectoryPath then do
    let dcID ← count .dmdSec
    modify fun st => { st with
      dmdSecs := st.dmdSecs ++ [newSection .dmdSec dmdID [], newSection .dmdSec dcID []] }
    return List.intercalate [' '] [dmdID, dcID]
  else return []

-- The IDs that the Dataverse METS has for a file.
def tabIDs (f : File) : List Str :=
  if ".tab".toList.isSuffixOf f.originallocation then sip.tabfile (basename f.originallocation) else []

-- What the turns for the items of a directory have made so far: the children of its
-- div, the DMDID of that and of the div above it, the original files in it and the
-- sections that these get.
structure Loop where
  children : List Xml
  dmdID : Str
  parentDmdID : Str
  filesInThisDirectory : List Str
  dspaceMetsDMDID : Str

-- An attribute is set to a value that is not empty.
def dmdAttr (dmdID : Str) : Dict Attr Str := if dmdID = [] then [] else [(.dmdID, dmdID)]

-- The sections that the metadata of a CSV file gives to a file, and its place in the
-- structMap of TRIM.
def describe (f : File) : M Str :=
  if describable f then do
    let dmdIDs ← sip.createDMDIDsFromCSVMetadata (transferPath f)
    sip.addTrimFile f
    return dmdIDs
  else pure []

-- The METS file of a DSpace item: what it applies to, and the group and the use of
-- the file.
def dspaceProcessing (f : File) (itemdirectoryPath groupID use : Str) (loop : Loop) :
    M (Loop × Str × Str) :=
  if f.transferType = some dspace ∧ use = dspaceMets then do
    let ids ← sip.createDSpaceDMDSec itemdirectoryPath
    let use := "submissionDocumentation".toList
    if groupID = [] then
      -- it is an AIP identifier
      return (if ids = [] then loop else { loop with parentDmdID := ids }, f.uuid.string, use)
    else return (if ids = [] then loop else { loop with dspaceMetsDMDID := ids }, groupID, use)
  else pure (loop, groupID, use)

-- The IDs are put behind those that the div has, without a space.
def dataverseProcessing (f : File) (dmdIDs : Str) : M Str := do
  modify fun st => { st with
    dmdSecs := st.dmdSecs ++ (sip.tabIDs f).map fun id => newSection .dmdSec id [] }
  return dmdIDs ++ List.intercalate [' '] (sip.tabIDs f)

-- The attributes of the file element, with its section.
def fileAttrib (f : File) (groupID use : Str) : M (Dict Attr Str) :=
  if sip.includeAmdSec then do
    let (amd, admID) ← sip.getAMDSec f use
    modify fun st => { st with amdSecs := st.amdSecs ++ [amd] }
    return [(.id, fileID f), (.groupID, groupID), (.admID, admID)]
  else pure [(.id, fileID f), (.groupID, groupID)]

-- The file element in the group of its use.
def addFileElem (f : File) (directoryPathSTR groupID use : Str) (loop : Loop) : M Loop := do
  match Dict.get? (← get).globalFileGrps use with
  | none =>
      addError
      return loop
  | some _ =>
      let attrib ← sip.fileAttrib f groupID use
      let elem := .mk .file attrib [.mk .fLocat [(.href, directoryPathSTR)] []]
      modify fun st => { st with
        globalFileGrps := Dict.set st.globalFileGrps use
          ((Dict.get? st.globalFileGrps use).getD [] ++ [elem]) }
      return if use = original then
        { loop with filesInThisDirectory := loop.filesInThisDirectory ++ [fileID f] }
      else loop

def checkGroup (groupID : Str) : M Unit := if groupID = [] then addError else pure ()

-- The row of the file at a path.
def rows (itemdirectoryPath : Str) : List File :=
  sip.files.filter fun f => f.currentlocation = replaceFirst sip.base sipDirVar itemdirectoryPath

-- One turn for a file.
def addFile (itemdirectoryPath name : Str) (loop : Loop) : M Loop := do
  match sip.rows itemdirectoryPath with
  | [] =>
      addError
      return loop
  | [f] =>
      let directoryPathSTR := replaceFirst sip.base [] itemdirectoryPath
      startTrim f
      modify fun st => { st with
        fileNameToFileID := Dict.set st.fileNameToFileID directoryPathSTR (fileID f) }
      let (groupID, use) ← sip.group f itemdirectoryPath
      let dmdIDs ← sip.describe f
      let (loop, groupID, use) ← sip.dspaceProcessing f itemdirectoryPath groupID use loop
      let dmdIDs ← sip.dataverseProcessing f dmdIDs
      checkGroup groupID
      let label := if f.label = [] then name else f.label
      let fileDiv := .mk .div ([(.label, label), (.type, "Item".toList)] ++ dmdAttr dmdIDs)
        [.mk .fptr [(.fileID, fileID f)] []]
      sip.addFileElem f directoryPathSTR groupID use
        { loop with children := loop.children ++ [fileDiv] }
  | _ => throw .multipleObjectsReturned

-- A directory that was assigned a UUID has a row.
def hasRow (path : Str) : Bool :=
  let relativeDirectoryPath := sipDirVar ++ join path []
  (sip.directories.map rstrip).contains relativeDirectoryPath ||
    (sip.directories.map rstrip).contains (rstrip relativeDirectoryPath)

def dirDmdSec (path : Str) : M Str := if sip.hasRow path then addDmdSec else pure []

-- The sections of a directory that has a row or metadata in a CSV file.
def beginDirectory (directoryPath : Str) : M Loop := do
  let path := replaceFirst sip.base [] directoryPath
  let dirDmdID ← sip.dirDmdSec path
  let dmdIDs ← sip.createDMDIDsFromCSVMetadata path
  let both := if dirDmdID ≠ [] ∧ dmdIDs ≠ [] then dirDmdID ++ ' ' :: dmdIDs else dirDmdID ++ dmdIDs
  return ⟨[], both, [], [], []⟩

-- The original files of the directory get the sections of its DSpace METS file.
def setDspaceDMDID (loop : Loop) (e : Xml) : Xml :=
  if loop.dspaceMetsDMDID ≠ [] ∧ (e.get .id).any loop.filesInThisDirectory.contains then
    e.set .dmdID loop.dspaceMetsDMDID
  else e

def endDirectory (directoryPath : Str) (loop : Loop) : M Xml := do
  modify fun st => { st with
    globalFileGrps := st.globalFileGrps.map fun grp => (grp.1, grp.2.map (setDspaceDMDID loop)) }
  return .mk .div ([(.type, "Directory".toList), (.label, basename directoryPath)] ++
    dmdAttr loop.dmdID) loop.children

-- The div of a directory below, and the DMDID that the one above gets from it.
def Loop.addDir (loop : Loop) (div : Xml) (parentDmdID : Str) : Loop :=
  { loop with
    children := loop.children ++ [div]
    dmdID := if parentDmdID = [] then loop.dmdID else parentDmdID }

-- The turns for the items of a directory.
def items (directoryPath : Str) : Listing → Loop → M Loop
  | .nil, loop => pure loop
  | .other _ rest, loop => items directoryPath rest loop
  | .file name rest, loop => do
      let loop ← sip.addFile (join directoryPath name) name loop
      items directoryPath rest loop
  | .dir name sub rest, loop => do
      let below ← sip.beginDirectory (join directoryPath name)
      let below ← items (join directoryPath name) sub below
      let div ← endDirectory (join directoryPath name) below
      items directoryPath rest (loop.addDir div below.parentDmdID)

-- The div of the directory and the DMDID that its parent gets, nothing for a
-- directory that does not exist.
def createFileSec (directoryPath : Str) : Option Listing → M (Option (Xml × Str))
  | none => pure none
  | some listing => do
      let loop ← sip.beginDirectory directoryPath
      let loop ← sip.items directoryPath listing loop
      let div ← endDirectory directoryPath loop
      return some (div, loop.parentDmdID)

-- The section with the metadata of the transfers and of the sources, and its ID for
-- the div of the objects. A bag without tags gets no element.
def createObjectMetadata : M (Option (Xml × Str)) :=
  if sip.transferMetadata = [] ∧ sip.sourceMetadata = [] ∧ sip.bagInfo = [] then pure none
  else do
    let amdID ← count .amdSec
    let n := sip.transferMetadata.length + sip.sourceMetadata.length +
      (sip.bagInfo.filter (· ≠ [])).length
    let sourceMD := (List.range n).map fun i =>
      .mk .sourceMD [(.id, numbered "sourceMD".toList (i + 1))] []
    return some (newSection .amdSec amdID sourceMD, amdID)

-- The Dublin Core of the SIP: its row, or the first dublincore.xml that can be parsed.
def createDublincoreDMDSecFromDBData : M (Option Str) := do
  if sip.dublinCore then
    let id ← count .dmdSec
    return some id
  else
    modify fun st => { st with
      errorCount := st.errorCount + (sip.dublinCoreFiles.takeWhile (!·)).length }
    if sip.dublinCoreFiles.any id then
      let id ← count .dmdSec
      return some id
    else return none

end Sip

-- NormativeStructMapElement.build_path: the labels below the structMap, from the
-- last to the first.
def buildPath (labels : List Str) : Str :=
  '/' :: labels.foldr (fun label path =>
    if label = "Archivematica default".toList then path
    else label ++ if path = [] then [] else '/' :: path) []

def labelOf (e : Xml) : Str := (e.get .label).getD []

-- The elements that have a DMDID, by the path of their labels.
mutual

def dmdIDs (labels : List Str) : Xml → List (Str × Str)
  | .mk tag attrib children =>
      ((Element.mk tag attrib children).get .dmdID).toList.map (buildPath labels, ·) ++
        dmdIDsAll labels children

def dmdIDsAll (labels : List Str) : List Xml → List (Str × Str)
  | [] => []
  | e :: es => dmdIDs (labels ++ [labelOf e]) e ++ dmdIDsAll labels es

end

-- set_dmdid: of the elements with one path the index has the last.
mutual

def setDmdID (path dmdID : Str) (labels : List Str) : Xml → Option Xml
  | .mk tag attrib children =>
      match setDmdIDAll path dmdID labels children with
      | some children => some (.mk tag attrib children)
      | none =>
          if buildPath labels = path then
            let before := (Dict.get? attrib .dmdID).map (· ++ [' '])
            some (.mk tag (Dict.set attrib .dmdID (before.getD [] ++ dmdID)) children)
          else none

def setDmdIDAll (path dmdID : Str) (labels : List Str) : List Xml → Option (List Xml)
  | [] => none
  | e :: es =>
      match setDmdIDAll path dmdID labels es with
      | some es => some (e :: es)
      | none => (setDmdID path dmdID (labels ++ [labelOf e]) e).map (· :: es)

end

def updateNormativeStructmapDmdids (normative structMap : Xml) : Xml :=
  (dmdIDs [] structMap).foldl (fun e d => (setDmdID d.1 d.2 [] e).getD e) normative

-- The div of the normative structMap as an element.
mutual

def Div.xml : Div → Xml
  | .mk type label dmdID children =>
      .mk .div ([(.type, match type with
          | .directory => "Directory".toList
          | .item => "Item".toList), (.label, label)] ++ dmdID.toList.map (.dmdID, ·))
        (Div.xmlAll children)

def Div.xmlAll : List Div → List Xml
  | [] => []
  | d :: ds => d.xml :: Div.xmlAll ds

end

-- The elements with a path in CONTENTIDS get the ID of the file there.
def setFileID (names : Str → Option Str) (attrib : Dict Attr Str) : Dict Attr Str :=
  match (Dict.get? attrib .contentIDs).bind names with
  | some id => Dict.set attrib .fileID id
  | none => attrib

def retype (tag : Option Str) (attrib : Dict Attr Str) : Dict Attr Str :=
  match tag with
  | some tag => Dict.set attrib .type tag
  | none => Dict.erase attrib .type

-- The type of an element by its place below the objects, as far as one was arranged.
mutual

def retag (tags : Str → Option Str) (path : Str) : Xml → Xml
  | .mk tag attrib children =>
      .mk tag (if tag = .div then retype (tags path) attrib else attrib) (retagAll tags path children)

def retagAll (tags : Str → Option Str) (path : Str) : List Xml → List Xml
  | [] => []
  | e :: es => retag tags (join path (labelOf e)) e :: retagAll tags path es

end

-- The first div child with a label.
def hasLabel (label : Str) (e : Xml) : Bool := e.tag = .div ∧ e.get .label = some label

namespace Sip

variable (sip : Sip)

-- A structMap without an ID gets a number.
def numberStructmap (structMap : Xml) : M Xml :=
  if (structMap.get .id).getD [] = [] then do
    modify fun st => { st with globalStructMapCounter := st.globalStructMapCounter + 1 }
    let st ← get
    return structMap.set .id (structMapID st.globalStructMapCounter)
  else pure structMap

-- The structMap of one mets_structmap.xml, nothing when a path in it is not the path
-- of a file.
def customStructmap (doc : Xml) : M (Option Xml) := do
  match doc.children.find? fun e => e.tag = .structMap with
  | none => throw .attributeError
  | some structMap =>
      let structMap ← numberStructmap structMap
      let st ← get
      let names := fun path => Dict.get? st.fileNameToFileID (sip.fixup path)
      let paths := doc.values .contentIDs
      let targets := doc.iter.filter fun e => e.tag = .fptr ∨ e.tag = .area
      if paths = [] ∨ paths.length < targets.length ∨
          paths.any fun path => path = [] ∨ (names path).isNone then
        addError
        return none
      else return some (structMap.mapAttrib (setFileID names))

def includeCustomStructmap (ret : List Xml) : List Xml → M (List Xml)
  | [] => pure ret
  | doc :: docs => do
      match ← sip.customStructmap doc with
      | none => pure []
      | some structMap => includeCustomStructmap (ret ++ [structMap]) docs

-- A copy of the structMap with the levels of description as types. What is not
-- arranged is left out.
def buildArrangedStructmap (sipDiv : Xml) : M (Option Xml) :=
  if sip.arrange = [] then pure none
  else
    let tags := fun path => (Dict.get? sip.arrange path).filter (· ≠ [])
    match sipDiv.children.findIdx? (hasLabel "objects".toList) with
    | none => throw .attributeError
    | some i =>
        let arranged := sipDiv.children.modify i fun objects =>
          let children := (objects.children.eraseP (hasLabel "submissionDocumentation".toList)).eraseP
            (hasLabel "metadata".toList)
          .mk objects.tag (retype (tags ".".toList) objects.attrib) (retagAll tags [] children)
        pure (some (.mk .structMap
          [(.type, "logical".toList), (.id, "structMap_".toList ++ sip.uuid4.string),
            (.label, "Hierarchical".toList)]
          [.mk sipDiv.tag (Dict.erase sipDiv.attrib .type) arranged]))

-- The normative structMap, with the sections of the empty directories.
def getNormative (sipDirName : Str) : M (Option Xml) := do
  if sip.createNormativeStructmap then
    modify fun st => { st with globalStructMapCounter := st.globalStructMapCounter + 1 }
    let st ← get
    let items := match sip.walked with
      | none => []
      | some entries => getPathsAsFsitems sip.base (join sip.base "objects".toList) entries
    match addNormativeStructmapDiv items
        ⟨.mk .directory sipDirName none [], [([], [])], st.counter .dmdSec, []⟩ with
    | none => throw .keyError
    | some b =>
        set { st with
          counter := Function.update st.counter .dmdSec b.globalDmdSecCounter
          dmdSecs := st.dmdSecs ++ b.dmdSecs.map fun id => newSection .dmdSec id [] }
        return some (.mk .structMap
          [(.type, "logical".toList), (.id, structMapID st.globalStructMapCounter),
            (.label, normativeLabel)] [b.root.xml])
  else return none

-- An element without children is false.
def appendAmdSec (el : Xml) : M Unit :=
  if el.children.length ≠ 0 then modify fun st => { st with amdSecs := st.amdSecs ++ [el] }
  else pure ()

-- The section that is set on the objects.
def addObjectMetadata (objectsDiv : Option Xml) : M (Option Xml) := do
  match ← sip.createObjectMetadata, objectsDiv with
  | none, _ => return objectsDiv
  | some _, none => throw .attributeError
  | some (el, amdID), some div =>
      appendAmdSec el
      return some (div.set .admID amdID)

-- The DMDID of the div above a directory.
def parentDmdID (dmdID : Str) : Option (Xml × Str) → Str
  | some (_, id) => if id = [] then dmdID else id
  | none => dmdID

-- The Dublin Core takes the place of the sections that the objects had.
def setDublinCore : Option Str → Xml → Xml
  | some id, div => div.set .dmdID id
  | none, div => div

-- The sections of Dataverse are put to those of the objects.
def addDataverse (objectsDiv : Option Xml) : List Str → M (Option Xml)
  | [] => pure objectsDiv
  | id :: ids =>
      match objectsDiv with
      | none => throw .attributeError
      | some div =>
          addDataverse (some (div.set .dmdID ((div.get .dmdID).getD [] ++ ' ' :: id))) ids

-- The section of the whole AIP.
def aipDmdSec : M Str := if sip.sipRow then addDmdSec else pure []

-- The div of the SIP, and the ID of its Dublin Core.
def createSipDiv (sipDirName : Str) : M (Xml × Option Str) := do
  let aipDmdID ← sip.aipDmdSec
  let objects ← sip.createFileSec (join sip.base "objects".toList) sip.objects
  let objectsDiv ← sip.addObjectMetadata (objects.map Prod.fst)
  let metadata ← sip.createFileSec (join sip.base "metadata".toList) sip.metadata
  let dc ← sip.createDublincoreDMDSecFromDBData
  let sipDmdID := parentDmdID (parentDmdID aipDmdID objects) metadata
  let sipDmdID := if objectsDiv.isNone then dc.getD sipDmdID else sipDmdID
  let objectsDiv ← addDataverse (objectsDiv.map (setDublinCore dc)) sip.dataverse
  return (.mk .div ([(.type, "Directory".toList), (.label, sipDirName)] ++ dmdAttr sipDmdID)
    (objectsDiv.toList ++ (metadata.map Prod.fst).toList), dc)

-- The groups that have files.
def fileSec (st : MetsState) : Xml :=
  .mk .fileSec [] ((st.globalFileGrps.filter (·.2.length ≠ 0)).map fun grp =>
    .mk .fileGrp [(.use, grp.1)] grp.2)

def trimStructMap (st : MetsState) : Option Xml :=
  st.trimStructMapObjects.map fun objects =>
    .mk .structMap [(.type, "logical".toList), (.id, structMapID 2),
      (.label, "Hierarchical arrangement".toList)] [objects]

-- The document of a SIP that is not ingested again.
def buildMets : M Xml := do
  modify fun st => { st with globalStructMapCounter := st.globalStructMapCounter + 1 }
  let physicalID := structMapID (← get).globalStructMapCounter
  let sipDirName := basename (rstrip sip.base)
  let normative ← sip.getNormative sipDirName
  let (sipDiv, dc) ← sip.createSipDiv sipDirName
  let structMap := .mk .structMap
    [(.type, "physical".toList), (.id, physicalID), (.label, "Archivematica default".toList)] [sipDiv]
  let custom ← sip.includeCustomStructmap [] sip.customStructmaps
  let arranged ← sip.buildArrangedStructmap sipDiv
  let st ← get
  return .mk .mets [] ([.mk .metsHdr [] []] ++
    (dc.toList ++ sip.dataverse).map (newSection .dmdSec · []) ++ st.dmdSecs ++ st.amdSecs ++
    [fileSec st, structMap] ++ normative.toList.map (updateNormativeStructmapDmdids · structMap) ++
    custom ++ (trimStructMap st).toList ++ arranged.toList)

-- The document that the script has built when it succeeds. A SIP that is ingested
-- again has one already, which is only modified.
def main : Option Xml :=
  if occursIn "REIN".toList sip.sipType then none
  else
    match sip.buildMets MetsState.new with
    | .ok root st => if sip.writes root ∧ st.errorCount = 0 then some root else none
    | .error _ _ => none

end Sip

end Ccp.Worker.Mets
