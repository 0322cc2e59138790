import Ccp.Lib.Firsts
import Ccp.Lib.PurePath
import Ccp.Lib.Table
import Ccp.Lib.Text
import Ccp.Worker.ParseMets.DublinCore
import Ccp.Worker.RightsCSV

namespace Ccp.Worker.XmlMetadata

open Lib
open RightsCSV (Csv Row)

-- A document, with what is read of its root element.
structure Tree where
  root : Str
  noNamespaceSchemaLocation : Option Str
  schemaLocation : Option Str
  namespaceUri : Str
  localName : Str
deriving DecidableEq

-- What a validation that fails reports.
structure ErrorLog where
  first : Str
  rest : List Str

def ErrorLog.toList (log : ErrorLog) : List Str := log.first :: log.rest

-- Nothing where a document is valid.
abbrev Schema := Tree → Option ErrorLog

-- id stands for the object, of which METSDocument.all_files has each once.
structure FSEntry where
  id : ℕ
  use : Option Str
  type : Option Str
  path : Option Str
  fileUuid : Option Str

structure FileRow where
  uuid : UUID
  sip : Option UUID
  currentlocation : Option Str

structure World where
  -- the setting, which is empty or false where nothing is validated
  xmlValidation : Dict Str (Option Str)
  isDir : PurePath → Bool
  iterdir : PurePath → List Str
  isFile : PurePath → Bool
  -- nothing for a file that cannot be opened
  csv : PurePath → Option Csv
  -- etree.parse, which raises for a file that is missing or malformed
  parse : Str → Option Tree
  -- UUIDField's to_python
  toPython : Str → Option UUID
  files : List FileRow
  -- the text at a URI, where it can be opened
  urlopen : Str → Option Str
  -- lxml for schemas: the error of a text that is not well formed, and the errors of its classes,
  -- of XMLSchema without and with the resolver
  xmlSyntaxError : Str → Option Str
  dtd : Str → Except Str Schema
  xmlSchema : (resolver : Bool) → Str → Except Str Schema
  relaxNG : Str → Except Str Schema
  lxmlVersion : Str
  -- whether delete_dmdsec does not raise for an object and a type
  deletes : ℕ → Str → Bool

structure Args where
  sipDir : Str
  sipUUID : Str
  sipType : Str

def Args.reingest (args : Args) : Bool := occursIn "REIN".toList args.sipType

-- What is appended to the errors: a text, or the ValueError of _get_schema_uri.
inductive Err
  | text (s : Str)
  | schemaNotFound (checkedKeys : List Str)
deriving DecidableEq

structure DmdSec where
  entry : ℕ
  root : Str
  mdtype : Str
  othermdtype : Str
  status : Str
deriving DecidableEq

structure EventRow where
  fileUUID : UUID
  eventType : Str
  eventDetail : Str
  eventOutcome : Str
  eventOutcomeDetailNote : Str

-- What the script does, in its order.
inductive Effect
  | addDmdsec (dmdSec : DmdSec)
  | deleteDmdsec (entry : ℕ) (mdtype othermdtype : Str)
  | insertEvent (event : EventRow)
  | addPremisEvent (entry : ℕ) (event : EventRow)
  | appendError (err : Err)

def Effect.dmdSec? : Effect → Option DmdSec
  | addDmdsec dmdSec => some dmdSec
  | _ => none

def Effect.err? : Effect → Option Err
  | appendError err => some err
  | _ => none

section Mapping

-- A row of a source-metadata.csv file.
structure SourceRow where
  source : PurePath
  row : Row

def SourceRow.cell (r : SourceRow) (key : Str) : Str := ((Dict.get? r.row.cells key).join).getD []

def SourceRow.filename (r : SourceRow) : Str := r.cell "filename".toList

def SourceRow.type (r : SourceRow) : Str := r.cell "type".toList

-- None and an empty text, which are both false, are nothing.
def SourceRow.xmlPath (r : SourceRow) : Option PurePath :=
  if r.cell "metadata".toList = [] then none else some (r.source.parent.join (r.cell "metadata".toList))

abbrev Mapping := Dict Str (Dict Str (Option PurePath))

def missingError (source : PurePath) : Err :=
  .text ("A row in ".toList ++ source.str ++ " is missing the filename and/or type".toList)

def customError (source : PurePath) : Err :=
  .text ("A row in ".toList ++ source.str ++ " is using CUSTOM, a reserved type".toList)

def repeatedError (source : PurePath) (filename type : Str) : Err :=
  .text ("More than one entry in ".toList ++ source.str ++ " for path ".toList ++ filename ++
    " and type ".toList ++ type)

-- Nothing where it raises, here and in what follows.
def addRow (result : Mapping × List Err) (r : SourceRow) : Option (Mapping × List Err) :=
  if r.filename = [] ∨ r.type = [] then some (result.1, result.2 ++ [missingError r.source])
  else if r.type = "CUSTOM".toList then some (result.1, result.2 ++ [customError r.source])
  else
    let types := (Dict.get? result.1 r.filename).getD []
    if (Dict.get? types r.type).isSome then
      some (result.1, result.2 ++ [repeatedError r.source r.filename r.type])
    else
      (Dict.get? r.row.cells "metadata".toList).map fun _ =>
        (Dict.set result.1 r.filename (Dict.set types r.type r.xmlPath), result.2)

def rowsAt (source : PurePath) (csv : Csv) : List SourceRow := csv.rows.map (SourceRow.mk source)

variable (w : World)

def readSource (result : Mapping × List Err) (source : PurePath) : Option (Mapping × List Err) :=
  if w.isFile source then
    (w.csv source).bind fun csv =>
      ((rowsAt source csv).foldlM addRow result).bind fun result => if csv.broken then none else some result
  else some result

def metadataPath (sipPath : Str) : PurePath := ((PurePath.ofStr sipPath).join "objects".toList).join "metadata".toList

def sourceMetadata : Str := "source-metadata.csv".toList

def sourceMetadataPaths (sipPath : Str) (reingest : Bool) : List PurePath :=
  let transfers := (metadataPath sipPath).join "transfers".toList
  if reingest then [(metadataPath sipPath).join sourceMetadata]
  else if w.isDir transfers then (w.iterdir transfers).map fun name => (transfers.join name).join sourceMetadata
  else []

def getXmlMetadataMapping (sipPath : Str) (reingest : Bool) : Option (Mapping × List Err) :=
  (sourceMetadataPaths w sipPath reingest).foldlM (readSource w) ([], [])

end Mapping

section Schema

-- The value of a key that is neither missing nor empty.
def known (xmlValidation : Dict Str (Option Str)) (key : Str) : Option (Option Str) :=
  if key = [] then none else Dict.get? xmlValidation key

def schemaUriByName (tree : Tree) (xmlValidation : Dict Str (Option Str)) (checkedKeys : List Str) :
    Except (List Str) (Option Str) :=
  match known xmlValidation tree.namespaceUri with
  | some uri => .ok uri
  | none =>
      match known xmlValidation tree.localName with
      | some uri => .ok uri
      | none => .error (checkedKeys ++ [tree.namespaceUri, tree.localName])

-- split()[-1], which raises an IndexError for a text of white space.
def lastLocation (schemaLocation : Str) : Option Str := (ParseMets.DublinCore.split (strip schemaLocation)).getLast?

def schemaUriByLocation (tree : Tree) (xmlValidation : Dict Str (Option Str)) (checkedKeys : List Str) :
    Option (Except (List Str) (Option Str)) :=
  match tree.schemaLocation with
  | none => some (schemaUriByName tree xmlValidation checkedKeys)
  | some location =>
      (lastLocation location).map fun key =>
        match known xmlValidation key with
        | some uri => .ok uri
        | none => schemaUriByName tree xmlValidation (checkedKeys ++ [key])

-- The error is the ValueError with the keys.
def getSchemaUri (tree : Tree) (xmlValidation : Dict Str (Option Str)) : Option (Except (List Str) (Option Str)) :=
  match tree.noNamespaceSchemaLocation with
  | none => schemaUriByLocation tree xmlValidation []
  | some location =>
      match known xmlValidation (strip location) with
      | some uri => some (.ok uri)
      | none => schemaUriByLocation tree xmlValidation [strip location]

variable (w : World)

-- XMLSchema has a second try, with a resolver for what the schema imports.
def xsd (contents : Str) : Except Str Schema :=
  match w.xmlSyntaxError contents with
  | some err => .error err
  | none =>
      match w.xmlSchema false contents with
      | .ok schema => .ok schema
      | .error _ => w.xmlSchema true contents

def rng (contents : Str) : Except Str Schema :=
  match w.xmlSyntaxError contents with
  | some err => .error err
  | none => w.relaxNG contents

-- Nothing for a type that is not known.
def parseSchema (schemaType contents : Str) : Except Str (Option Schema) :=
  if schemaType = "dtd".toList then (w.dtd contents).map some
  else if schemaType = "xsd".toList then (xsd w contents).map some
  else if schemaType = "rng".toList then (rng w contents).map some
  else .ok none

-- split(".")[-1]
def schemaType (schemaUri : Str) : Str := (schemaUri.reverse.takeWhile (· ≠ '.')).reverse

def validate (tree : Tree) (schemaUri schemaType : Str) : Except Str (Option Schema) → Bool × List Str
  | .error err => (false, ["Could not parse schema file: ".toList ++ schemaUri, err])
  | .ok none => (false, ["Unknown XML validation schema type: ".toList ++ schemaType])
  | .ok (some schema) =>
      match schema tree with
      | none => (true, [])
      | some log => (false, log.toList)

def isLocal (schemaUri : Str) : Bool := (urlparse schemaUri).scheme = [] && (urlparse schemaUri).path = schemaUri

-- The URI that is opened, where the path of a local file is not relative.
def openedUri (schemaUri : Str) : Option Str :=
  if isLocal schemaUri then (PurePath.ofStr schemaUri).asUri else some schemaUri

def validateXml (tree : Tree) (schemaUri : Str) : Option (Bool × List Str) :=
  match openedUri schemaUri with
  | none => some (false, ["XML schema local path ".toList ++ schemaUri ++ " must be absolute".toList])
  | some uri => (w.urlopen uri).map fun contents =>
      validate tree uri (schemaType schemaUri) (parseSchema w (schemaType schemaUri) contents)

end Schema

section Process

variable (w : World) (mets : List FSEntry) (args : Args)

def eventDetail (schemaUri : Str) : Str :=
  "type=\"metadata\"; validation-source-type=\"".toList ++ schemaType schemaUri ++
    "\"; validation-source=\"".toList ++ schemaUri ++ "\"; program=\"lxml\"; version=\"".toList ++
      w.lxmlVersion ++ "\"".toList

def validationEvent (fileUUID : UUID) (schemaUri : Str) (result : Bool × List Str) : EventRow where
  fileUUID := fileUUID
  eventType := "validation".toList
  eventDetail := eventDetail w schemaUri
  eventOutcome := if result.1 then "pass".toList else "fail".toList
  eventOutcomeDetailNote := ['\n'].intercalate result.2

def getFile (fileUUID : UUID) : Option FSEntry := mets.find? fun entry => entry.fileUuid = some fileUUID.string

-- A file without an entry is None, to which no event can be added.
def addValidationEvent (fileUUID : UUID) (schemaUri : Str) (result : Bool × List Str) : Option (List Effect) :=
  (getFile mets fileUUID).map fun entry =>
    [.insertEvent (validationEvent w fileUUID schemaUri result),
      .addPremisEvent entry.id (validationEvent w fileUUID schemaUri result)]

-- A UUID that is none is a ValidationError, which counts as a file that does not exist.
def metadataFile (xmlRelPath : PurePath) : Table.Got FileRow :=
  match w.toPython args.sipUUID with
  | none => .missing
  | some sip => Table.get (w.files.filter fun f =>
      f.sip = some sip ∧ f.currentlocation = some ("%SIPDirectory%".toList ++ xmlRelPath.str))

variable (entry : FSEntry) (xmlType : Str)

def addedDmdSec (tree : Tree) : DmdSec where
  entry := entry.id
  root := tree.root
  mdtype := "OTHER".toList
  othermdtype := xmlType
  status := if args.reingest then "update".toList else "original".toList

def appendErrors (errors : List Str) : List Effect := errors.map fun err => .appendError (.text err)

def processRegistered (tree : Tree) (schemaUri : Str) (fileUUID : UUID) : Option (List Effect) :=
  (validateXml w tree schemaUri).bind fun result =>
    (addValidationEvent w mets fileUUID schemaUri result).map fun effects =>
      effects ++ if result.1 then [.addDmdsec (addedDmdSec args entry xmlType tree)] else appendErrors result.2

def noUuidError (xmlRelPath : PurePath) : Err := .text ("No uuid for file: ".toList ++ xmlRelPath.str)

def processWithSchema (tree : Tree) (schemaUri : Str) (xmlPath : PurePath) : Option (List Effect) :=
  (xmlPath.relativeTo (PurePath.ofStr args.sipDir)).bind fun xmlRelPath =>
    match metadataFile w args xmlRelPath with
    | .missing => some [.appendError (noUuidError xmlRelPath)]
    | .several => none
    | .row file => processRegistered w mets args entry xmlType tree schemaUri file.uuid

def truthy (s : Option Str) : Option Str := s.filter (· ≠ [])

def processTree (xmlPath : PurePath) (tree : Tree) : Except (List Str) (Option Str) → Option (List Effect)
  | .error checkedKeys => some [.appendError (.schemaNotFound checkedKeys)]
  | .ok uri =>
      match truthy uri with
      | none => some [.addDmdsec (addedDmdSec args entry xmlType tree)]
      | some schemaUri => processWithSchema w mets args entry xmlType tree schemaUri xmlPath

def processItem : Option PurePath → Option (List Effect)
  | none => if w.deletes entry.id xmlType then some [.deleteDmdsec entry.id "OTHER".toList xmlType] else none
  | some xmlPath =>
      (w.parse xmlPath.str).bind fun tree =>
        (getSchemaUri tree w.xmlValidation).bind (processTree w mets args entry xmlType xmlPath tree)

-- An original file or a directory.
def isProcessed (entry : FSEntry) : Bool := entry.use = some "original".toList || entry.type = some "Directory".toList

def itemsAt (mapping : Mapping) : Option Str → Dict Str (Option PurePath)
  | none => []
  | some path => (Dict.get? mapping path).getD []

def processEntry (mapping : Mapping) : Option (List Effect) :=
  if isProcessed entry then
    ((itemsAt mapping entry.path).mapM fun item => processItem w mets args entry item.1 item.2).map List.flatten
  else some []

-- The METS document and the errors that are returned, by what is done.
def processXmlMetadata : Option (List Effect) :=
  if w.xmlValidation = [] then some []
  else
    (getXmlMetadataMapping w args.sipDir args.reingest).bind fun result =>
      (mets.mapM fun entry => processEntry w mets args entry result.1).map fun effects =>
        result.2.map .appendError ++ effects.flatten

end Process

section Contract

-- The path and the type of a row that is not rejected for itself.
def SourceRow.pair (r : SourceRow) : Option (Str × Str) :=
  if r.filename = [] ∨ r.type = [] ∨ r.type = "CUSTOM".toList then none else some (r.filename, r.type)

variable (w : World) (mets : List FSEntry) (args : Args)

-- The rows of all files that are there, in their order.
def sourceRows : List SourceRow :=
  if w.xmlValidation = [] then []
  else ((sourceMetadataPaths w args.sipDir args.reingest).filter w.isFile).flatMap fun source =>
    ((w.csv source).map (rowsAt source)).getD []

def rowsFor (path : Option Str) : List SourceRow :=
  (firsts SourceRow.pair (sourceRows w args)).filter fun r => some r.filename = path

-- What can be the key of the schema, by its precedence.
def schemaKeys (tree : Tree) : List Str :=
  (tree.noNamespaceSchemaLocation.map strip).toList ++ (tree.schemaLocation.bind lastLocation).toList ++
    [tree.namespaceUri, tree.localName]

def configured (tree : Tree) : Option (Option Str) := (schemaKeys tree).findSome? (known w.xmlValidation)

def isRow : Table.Got FileRow → Bool
  | .row _ => true
  | .missing | .several => false

def isRegistered (xmlPath : PurePath) : Bool :=
  (xmlPath.relativeTo (PurePath.ofStr args.sipDir)).any fun xmlRelPath => isRow (metadataFile w args xmlRelPath)

def validFor (tree : Tree) (xmlPath : PurePath) : Option Str → Bool
  | none => true
  | some schemaUri => isRegistered w args xmlPath && (validateXml w tree schemaUri).any Prod.fst

-- The file has a schema that is known, and where this is not none it is registered and valid.
def isValid (xmlPath : PurePath) (tree : Tree) : Bool :=
  (configured w tree).any fun uri => validFor w args tree xmlPath (truthy uri)

-- The document that the metadata of a row names, where it is as it should be.
def accepted (r : SourceRow) : Option Tree :=
  r.xmlPath.bind fun xmlPath => (w.parse xmlPath.str).filter (isValid w args xmlPath)

-- All objects have the sections of their first rows, and what is rejected leaves an error.
structure Contract : Prop where
  exists_effects : ∃ effects, ∃ rowErrors : List SourceRow × SourceRow → List Err,
    ∃ fileErrors : FSEntry → SourceRow → List Err, processXmlMetadata w mets args = some effects ∧
      effects.filterMap Effect.dmdSec? = ((mets.filter isProcessed).flatMap fun entry =>
        (rowsFor w args entry.path).filterMap fun r => (accepted w args r).map (addedDmdSec args entry r.type)) ∧
      effects.filterMap Effect.err? = (withEarlier [] (sourceRows w args)).flatMap rowErrors ++
        (mets.filter isProcessed).flatMap (fun entry => (rowsFor w args entry.path).flatMap (fileErrors entry)) ∧
      (∀ p ∈ withEarlier [] (sourceRows w args), rowErrors p ≠ [] ↔ isFirst SourceRow.pair p = false) ∧
      ∀ entry ∈ mets.filter isProcessed, ∀ r ∈ rowsFor w args entry.path,
        fileErrors entry r ≠ [] ↔ r.xmlPath.isSome = true ∧ accepted w args r = none

-- What of an XML file that is well formed does not raise.
structure ClearFile (tree : Tree) (xmlPath : PurePath) : Prop where
  location : (∃ location, tree.noNamespaceSchemaLocation = some location ∧
      (known w.xmlValidation (strip location)).isSome = true) ∨
    ∀ location, tree.schemaLocation = some location → (lastLocation location).isSome = true
  schema : ∀ uri schemaUri, configured w tree = some uri → truthy uri = some schemaUri →
    ∃ xmlRelPath, xmlPath.relativeTo (PurePath.ofStr args.sipDir) = some xmlRelPath ∧
      metadataFile w args xmlRelPath ≠ .several ∧ ∀ file, metadataFile w args xmlRelPath = .row file →
        (∀ opened, openedUri schemaUri = some opened → (w.urlopen opened).isSome = true) ∧
        (getFile mets file.uuid).isSome = true

structure Clear : Prop where
  sources : w.xmlValidation ≠ [] → ∀ source ∈ sourceMetadataPaths w args.sipDir args.reingest,
    w.isFile source = true → ∃ csv, w.csv source = some csv ∧ csv.broken = false
  metadata : ∀ r ∈ firsts SourceRow.pair (sourceRows w args),
    (Dict.get? r.row.cells "metadata".toList).isSome = true
  deleted : ∀ entry ∈ mets.filter isProcessed, ∀ r ∈ rowsFor w args entry.path,
    r.xmlPath = none → w.deletes entry.id r.type = true
  files : ∀ entry ∈ mets.filter isProcessed, ∀ r ∈ rowsFor w args entry.path,
    ∀ xmlPath, r.xmlPath = some xmlPath → ∃ tree, w.parse xmlPath.str = some tree ∧
      ClearFile w mets args tree xmlPath

end Contract

end Ccp.Worker.XmlMetadata
