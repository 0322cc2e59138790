import Ccp.Lib.Columns
import Ccp.Lib.Grouped
import Ccp.Lib.MapM
import Ccp.Lib.Text
import Ccp.Worker.MetadataCSV

namespace Ccp.Worker.RestructureDip

open Lib

-- An element of the metadata. Its tag is the name without the namespace, which is kept apart.
structure Element where
  ns : Str
  tag : Str
  text : Option Str
  name : tag.all (· ≠ ' ') = true

structure MdWrap where
  mdtype : Option Str
  othermdtype : Option Str

-- A dmdSec with the mdWraps in it and what is below its first xmlData, in the order of the document.
structure DmdSec where
  mdWraps : List MdWrap
  xmlData : Option (List Element)

-- A div with the FILEID of its first fptr, when it has one.
structure Div where
  dmdid : Option Str
  label : Option Str
  fptr : Option (Option Str)

inductive PackageType
  | simple
  | compoundDirs
  | compoundFiles
deriving DecidableEq

-- "dirs" in package_type
def PackageType.dirs : PackageType → Bool
  | compoundDirs => true
  | simple => false
  | compoundFiles => false

abbrev Metadata := Dict Str (List Str)

structure DmdSecPair where
  dc : Option Metadata
  nonDc : Option Metadata

def DmdSecPair.setDc (pair : DmdSecPair) (metadata : Metadata) : DmdSecPair := ⟨some metadata, pair.nonDc⟩

def DmdSecPair.setNonDc (pair : DmdSecPair) (metadata : Metadata) : DmdSecPair := ⟨pair.dc, some metadata⟩

def placeholderTitle : Str := "[Placeholder title]".toList

def titleTag : Str := "title".toList

def identifierTag : Str := "identifier".toList

def dcterms : Str := "http://purl.org/dc/terms/".toList

def dublincore : Str := "dublincore".toList

def aipUUID : Str := "AIP UUID".toList

def fileUUID : Str := "file UUID".toList

def directoryName : Str := "Directory name".toList

def filename : Str := "Filename".toList

-- What xpath finds is a list, which is never equal to a text.
def listEqText (_ : List Str) (_ : Str) : Bool := false

def elementsDict (dmdSec : DmdSec) (label : Str) : Metadata :=
  if listEqText (dmdSec.mdWraps.filterMap (·.mdtype)) "DC".toList then
    if (dmdSec.xmlData.getD []).any fun e => e.ns = dcterms ∧ e.tag = titleTag then []
    else Dict.push [] titleTag label
  else []

def DmdSec.pairs (dmdSec : DmdSec) : List (Str × Str) :=
  ((dmdSec.xmlData.getD []).filter (·.tag ≠ dublincore)).map fun e => (e.tag, e.text.getD [])

-- A dmdSec without xmlData is an error.
def parseDmdSec (dmdSec : Option DmdSec) (label : Str) : Option Metadata :=
  match dmdSec with
  | none => some [(titleTag, [label])]
  | some sec => sec.xmlData.map fun _ =>
      sec.pairs.foldl (fun d item => Dict.push d item.1 item.2) (elementsDict sec label)

def MdWrap.custom (mdWrap : MdWrap) : Bool :=
  mdWrap.mdtype = some "OTHER".toList ∧ mdWrap.othermdtype = some "CUSTOM".toList

def MdWrap.isDC (mdWrap : MdWrap) : Bool := mdWrap.mdtype = some "DC".toList

def addNonDc (pair : DmdSecPair) (dmdSec : DmdSec) (mdWrap : MdWrap) : Option DmdSecPair :=
  if mdWrap.custom then (parseDmdSec (some dmdSec) placeholderTitle).map pair.setNonDc else some pair

def addDc (pair : DmdSecPair) (dmdSec : DmdSec) (mdWrap : MdWrap) : Option DmdSecPair :=
  if mdWrap.isDC then (parseDmdSec (some dmdSec) placeholderTitle).map pair.setDc else some pair

-- A dmdSec without an mdWrap is an error.
def addDmdSec (pair : DmdSecPair) (dmdSec : DmdSec) : Option DmdSecPair :=
  dmdSec.mdWraps.head?.bind fun mdWrap =>
    (addNonDc pair dmdSec mdWrap).bind fun pair => addDc pair dmdSec mdWrap

def splitDmdSecs (dmdSecs : List DmdSec) : Option DmdSecPair :=
  if 2 < dmdSecs.length then some ⟨none, none⟩
  else (dmdSecs.foldlM addDmdSec ⟨none, none⟩).bind fun pair =>
    if dmdSecs.length = 0 then (parseDmdSec none placeholderTitle).map pair.setDc else some pair

def addAipUuidToDcMetadata (dipUuid : Str) : Option Metadata → Option Metadata
  | none => none
  | some [] => none
  | some dcMetadata => some (Dict.push dcMetadata identifierTag dipUuid)

-- The dc metadata when the other one is None or empty.
def metadataOr : Option Metadata → Option Metadata → Metadata
  | some (item :: metadata), _ => item :: metadata
  | _, dc => dc.getD []

-- The header and the values of a row, each value with its header.
abbrev Row := List (Str × Str)

def Row.csvHeader (row : Row) : List Str := row.map Prod.fst

-- The values of a repeated element.
def joined (values : List Str) : Str := ("; ".toList.intercalate values).filter fun c => c ≠ '\r' ∧ c ≠ '\n'

-- fptr.get("FILEID")[-36:]
def Div.fileUuid (div : Div) (packageType : PackageType) : Option Str :=
  if packageType.dirs then some []
  else match div.fptr with
    | none => some []
    | some fileid => fileid.map fun id => id.drop (id.length - 36)

def makeRow (packageType : PackageType) (dipuuid : Str) (metadata : Metadata) (fileUuid name : Str) : Row :=
  let row := metadata.map (fun item => (item.1, joined item.2)) ++ [(aipUUID, dipuuid), (fileUUID, fileUuid)]
  if packageType.dirs then (directoryName, name) :: row else row ++ [(filename, name)]

-- div.get("DMDID").split()
def Div.dmdids (div : Div) : List Str := ((div.dmdid.getD []).splitOnP isSpace).filter (· ≠ [])

-- The row of a div, if there is one: a div without metadata is skipped.
def rowOf (packageType : PackageType) (dmdsecs : Dict Str DmdSec) (dipuuid : Str) (div : Div) :
    Option (Option Row) := do
  let dmdSecs ← div.dmdids.mapM (Dict.get? dmdsecs)
  let pair ← splitDmdSecs dmdSecs
  let metadata := metadataOr pair.nonDc (addAipUuidToDcMetadata dipuuid pair.dc)
  if metadata.isEmpty then some none
  else
    let fileUuid ← div.fileUuid packageType
    let name ← div.label
    some (some (makeRow packageType dipuuid metadata fileUuid name))

def getCsvHeaders : List Row → Option (List Str)
  | [] => some []
  | row :: rows =>
      mergeColumns aipUUID (longest row.csvHeader (rows.map Row.csvHeader))
        ((row :: rows).map Row.csvHeader)

-- What DictWriter.writerow gets of a row.
def csvValues (headers : List Str) (row : Row) : Dict Str Str :=
  headers.foldl (fun values header =>
    match Dict.get? row header with
    | none => values
    | some value => Dict.set values header value) []

def writerow (headers : List Str) (values : Dict Str Str) : List Str :=
  headers.map fun header => (Dict.get? values header).getD []

structure TabFile where
  headers : List Str
  lines : List (List Str)

def withDmdid (structmap : List Div) : List Div := structmap.filter (·.dmdid.isSome)

-- The structMap is the list of its divs in the order of the document. Some when the file is written.
def generateProjectClientPackage (packageType : PackageType) (structmap : List Div)
    (dmdsecs : Dict Str DmdSec) (dipuuid : Str) : Option TabFile := do
  let rows ← (withDmdid structmap).mapM (rowOf packageType dmdsecs dipuuid)
  let headers ← getCsvHeaders rows.reduceOption
  some ⟨headers, rows.reduceOption.map fun row => writerow headers (csvValues headers row)⟩

end Ccp.Worker.RestructureDip
