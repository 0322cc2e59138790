import Ccp.Lib.XmlEdit
import Ccp.Worker.ParseMets.Files

namespace Ccp.Worker.Reingest.UpdateObject

open Lib Lib.Element ParseMets.Files

inductive Space
  | premis
  | premis2
  | other (uri : Str)
deriving DecidableEq

-- The elements that are looked for or written.
inductive Name
  | object
  | objectIdentifierValue
  | originalName
  | objectCharacteristics
  | fixity
  | messageDigestAlgorithm
  | messageDigest
  | size
  | format
  | formatDesignation
  | formatName
  | formatVersion
  | formatRegistry
  | formatRegistryName
  | formatRegistryKey
  | objectCharacteristicsExtension
  | relationship
  | relationshipType
  | relationshipSubType
  | relatedObjectIdentifier
  | relatedObjectIdentifierType
  | relatedObjectIdentifierValue
  | relatedEventIdentifier
  | relatedEventIdentifierType
  | relatedEventIdentifierValue
  | other (name : Str)
deriving DecidableEq

structure Tag where
  space : Space
  name : Name
  nsPrefix : Option Str
deriving DecidableEq

inductive Attr
  | text
  | named (name : Str)
deriving DecidableEq

abbrev El := Element Tag Attr

def inPremis (names : List Name) (t : Tag) : Bool := t.space = .premis && names.contains t.name

def inPremis2 (names : List Name) (t : Tag) : Bool := t.space = .premis2 && names.contains t.name

def isPremis (name : Name) : Tag → Bool := inPremis [name]

def premisTag (name : Name) : Tag := ⟨.premis, name, some "premis".toList⟩

def leaf (name : Name) (text : Str) : El := .mk (premisTag name) [(.text, text)] []

def node (name : Name) (children : List El) : El := .mk (premisTag name) [] children

-- _create_premis_object, of a file
def createPremisObject (children : List El) : El :=
  .mk (premisTag .object)
    [(.named "schemaLocation".toList,
        "http://www.loc.gov/premis/v3 https://www.loc.gov/standards/premis/premis.xsd".toList),
      (.named "type".toList, "premis:file".toList), (.named "version".toList, "3.0".toList)]
    children

def toPremis (t : Tag) : Tag :=
  if t.nsPrefix = some "premis".toList ∨ t.nsPrefix = none then
    if t.space = .premis2 then { t with space := .premis } else t
  else t

def updatePremisObject (e : El) : Option El :=
  if isPremis .object e.tag then some e
  else if inPremis2 [.object] e.tag then some (createPremisObject (e.children.map (mapTag toPremis)))
  else none

-- The rows of the database.

structure FileRow where
  uuid : UUID
  checksumtype : Str
  checksum : Str

structure FileID where
  file : Option UUID
  formatName : Str
  formatVersion : Str
  formatRegistryName : Str
  formatRegistryKey : Str

-- The output of a command, with the purpose of its rule.
structure FPCommandOutput where
  file : UUID
  purpose : Str
  content : Option Str

structure Derivation where
  source : UUID
  derived : UUID
  event : Option UUID

structure Env where
  -- the file and the type of each event
  events : List (Option UUID × Str)
  files : List FileRow
  fileIDs : List FileID
  outputs : List FPCommandOutput
  derivations : List Derivation
  -- the root of a document, and the text of a UUID
  xml : Str → Option El
  toPython : Str → Option UUID

-- metsrw's document.

inductive Contents
  | mdRef
  | mdWrap (document : El)

structure SubSection where
  subsection : Str
  status : Option Str
  contents : Contents

structure AmdSection where
  id : Str
  subsections : List SubSection

structure FSEntry where
  use : Option Str
  type : Str
  fileUUID : Option Str
  amdsecs : List AmdSection

def SubSection.isTechMD (s : SubSection) : Bool := s.subsection = "techMD".toList

def statusCurrent : Str := "current".toList

def SubSection.isCurrent (s : SubSection) : Bool :=
  s.isTechMD && (s.status = none || s.status = some [] || s.status = some statusCurrent)

namespace Env

variable (env : Env) (u : UUID)

def fileIDsOf : List FileID := env.fileIDs.filter fun row => row.file = some u

def outputsOf : List FPCommandOutput :=
  env.outputs.filter fun row =>
    row.file = u && ["characterization".toList, "default_characterization".toList].contains row.purpose

-- The derivations with an event, where the file is the source and where it is the derived one.

def derivativesOf : List (UUID × UUID) :=
  env.derivations.filterMap fun d =>
    if d.source = u then d.event.map fun event => (d.derived, event) else none

def sourcesOf : List (UUID × UUID) :=
  env.derivations.filterMap fun d =>
    if d.derived = u then d.event.map fun event => (d.source, event) else none

-- What there is something new for.

def redigested : Bool := env.events.contains (some u, "message digest calculation".toList)

def identified : Bool := !(env.fileIDsOf u).isEmpty

def characterized : Bool := !(env.outputsOf u).isEmpty

def derives : Bool := !(env.derivativesOf u).isEmpty

def modified : Bool := env.redigested u || env.identified u || env.characterized u || env.derives u

def formatElement (row : FileID) : El :=
  node .format
    [node .formatDesignation [leaf .formatName row.formatName, leaf .formatVersion row.formatVersion],
      node .formatRegistry
        [leaf .formatRegistryName row.formatRegistryName, leaf .formatRegistryKey row.formatRegistryKey]]

def createPremisObjectFormats : List El :=
  if (env.fileIDsOf u).isEmpty then
    [node .format [node .formatDesignation [leaf .formatName "Unknown".toList]]]
  else (env.fileIDsOf u).map formatElement

-- The content of a row may be missing, or no XML.
def createPremisObjectCharacteristicsExtensions : Option (List El) :=
  ((env.outputsOf u).mapM fun (row : FPCommandOutput) => row.content.bind env.xml).map fun documents =>
    if documents.isEmpty then [] else [node .objectCharacteristicsExtension documents]

def relationshipElement (subType : Str) (related : UUID × UUID) : El :=
  node .relationship
    [leaf .relationshipType "derivation".toList,
      leaf .relationshipSubType subType,
      node .relatedObjectIdentifier
        [leaf .relatedObjectIdentifierType "UUID".toList,
          leaf .relatedObjectIdentifierValue related.1.string],
      node .relatedEventIdentifier
        [leaf .relatedEventIdentifierType "UUID".toList,
          leaf .relatedEventIdentifierValue related.2.string]]

def hasSource : Str := "has source".toList

def createPremisObjectDerivations : List El :=
  (env.derivativesOf u).map (relationshipElement isSourceOf) ++
    (env.sourcesOf u).map (relationshipElement hasSource)

def row : Option FileRow :=
  match Table.get (env.files.filter fun f => f.uuid = u) with
  | .row f => some f
  | _ => none

end Env

-- The changes to the elements in the object.

def setText (text : Str) : El → El := Element.set .text text

-- find, and the text of what it finds
def setTextOf (name : Name) (text : Str) : List El → Option (List El) :=
  replaceFirst? fun e => if isPremis name e.tag then some [setText text e] else none

def setFixity (row : FileRow) (fixity : El) : Option El :=
  (setTextOf .messageDigestAlgorithm row.checksumtype fixity.children).bind fun children =>
    (setTextOf .messageDigest row.checksum children).map (.mk fixity.tag fixity.attrib)

def dropNamed (name : Name) (es : List El) : List El := es.filter fun e => !isPremis name e.tag

def dropInCharacteristics (name : Name) (es : List El) : List El :=
  es.map fun e =>
    if isPremis .objectCharacteristics e.tag then .mk e.tag e.attrib (dropNamed name e.children) else e

-- addnext of one after the other.
def addAfterSize (new : List El) : List El → Option (List El) :=
  replaceFirst? fun e =>
    if isPremis .objectCharacteristics e.tag then
      (replaceFirst? (fun d => if isPremis .size d.tag then some (d :: new.reverse) else none)
        e.children).map fun children => [.mk e.tag e.attrib children]
    else none

def appendToCharacteristics (new : List El) : List El → Option (List El) :=
  replaceFirst? fun e =>
    if isPremis .objectCharacteristics e.tag then some [.mk e.tag e.attrib (e.children ++ new)] else none

def step (needed : Bool) (change : List El → Option (List El)) (es : List El) : Option (List El) :=
  if needed then change es else some es

namespace Env

variable (env : Env) (u : UUID)

def updateChecksum (es : List El) : Option (List El) :=
  (env.row u).bind fun row => modifyFirstAll (isPremis .fixity) (setFixity row) es

def updateFormats (es : List El) : Option (List El) :=
  addAfterSize (env.createPremisObjectFormats u) (dropInCharacteristics .format es)

def updateExtension (es : List El) : Option (List El) :=
  (env.createPremisObjectCharacteristicsExtensions u).bind fun new =>
    appendToCharacteristics new (dropInCharacteristics .objectCharacteristicsExtension es)

def updateRelationships (es : List El) : Option (List El) :=
  some (dropNamed .relationship es ++ env.createPremisObjectDerivations u)

def updateContents (new : El) : Option El :=
  (((step (env.redigested u) (env.updateChecksum u) new.children).bind
    (step (env.identified u) (env.updateFormats u))).bind
    (step (env.characterized u) (env.updateExtension u))).bind
    (step (env.derives u) (env.updateRelationships u)) |>.map (.mk new.tag new.attrib)

end Env

-- replace_with: the statuses that metsrw writes for the two.
def replaceWith (i : ℕ) (new : El) (subsections : List SubSection) : List SubSection :=
  subsections.modify i (fun old => { old with status := some superseded }) ++
    [⟨"techMD".toList, some statusCurrent, .mdWrap new⟩]

-- One turn of the loop of update_object.
def updateEntry (env : Env) (f : FSEntry) : Option FSEntry :=
  if f.use ≠ some "original".toList ∨ f.type ≠ "Item".toList ∨ f.fileUUID = some [] then some f
  else
    match f.amdsecs with
    | [] => none
    | a :: rest =>
        (a.subsections.findIdx? SubSection.isCurrent).bind fun i =>
          match (a.subsections[i]?).map SubSection.contents with
          | some (.mdWrap document) =>
              (updatePremisObject document).bind fun new =>
                -- str(None) is no UUID
                (f.fileUUID.bind env.toPython).bind fun u =>
                  if env.modified u then
                    (env.updateContents u new).map fun new =>
                      { f with amdsecs := { a with subsections := replaceWith i new a.subsections } :: rest }
                  else some f
          | _ => none

def updateObject (env : Env) (files : List FSEntry) : Option (List FSEntry) :=
  files.mapM (updateEntry env)

end Ccp.Worker.Reingest.UpdateObject
