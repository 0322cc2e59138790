import Ccp.Lib.Tuple
import Ccp.Worker.Rights

namespace Ccp.Worker.TransferMets

open Lib Tuple
open Rights (Kind Dates DocumentationIdentifier Information Copyright License Statute OtherRights
  Granted Statement lower open_)

-- The tags of the nested data, rights_type being the kind of the information.
inductive Tag
  | object
  | objectIdentifier
  | objectIdentifierType
  | objectIdentifierValue
  | objectCharacteristics
  | compositionLevel
  | fixity
  | messageDigestAlgorithm
  | messageDigest
  | size
  | format
  | formatDesignation
  | formatName
  | formatVersion
  | formatRegistry
  | formatRegistryName
  | formatRegistryKey
  | creatingApplication
  | dateCreatedByApplication
  | objectCharacteristicsExtension
  | originalName
  | relationship
  | relationshipType
  | relationshipSubType
  | relatedObjectIdentification
  | relatedObjectIdentifierType
  | relatedObjectIdentifierValue
  | relatedEventIdentification
  | relatedEventIdentifierType
  | relatedEventIdentifierValue
  | rights
  | rightsStatement
  | rightsStatementIdentifier
  | rightsStatementIdentifierType
  | rightsStatementIdentifierValue
  | rightsBasis
  | information (k : Kind)
  | documentationIdentifier (k : Kind)
  | documentationIdentifierType (k : Kind)
  | documentationIdentifierValue (k : Kind)
  | documentationRole (k : Kind)
  | note (k : Kind)
  | applicableDates (k : Kind)
  | startDate
  | endDate
  | copyrightStatus
  | copyrightJurisdiction
  | copyrightStatusDeterminationDate
  | licenseTerms
  | statuteJurisdiction
  | statuteCitation
  | statuteInformationDeterminationDate
  | otherRightsBasis
  | rightsGranted
  | act
  | restriction
  | termOfGrant
  | termOfRestriction
  | rightsGrantedNote
  | linkingObjectIdentifier
  | linkingObjectIdentifierType
  | linkingObjectIdentifierValue
deriving DecidableEq

-- What is in the data beside tags and texts: the attributes of the two roots, and the XML
-- that a characterization tool has written.
inductive Atom (X : Type)
  | filePremisMeta
  | premisMeta
  | element (e : X)

abbrev Data (X : Type) := Tuple Tag (Atom X)

variable {X : Type}

-- The rows of a file.

structure FileID where
  formatName : Str
  formatVersion : Str
  formatRegistryName : Str
  formatRegistryKey : Str

structure Derivation where
  sourceFileID : UUID
  derivedFileID : UUID
  eventID : UUID

structure Identifier where
  type_ : Option Str
  value : Option Str

-- modificationtime is as strftime writes it.
structure File where
  uuid : UUID
  originallocation : Str
  checksum : Str
  checksumtype : Str
  size : Option Int
  modificationtime : Option Str
  fileIDs : List FileID
  identifiers : List Identifier
  characterizationDocuments : List (Option Str)
  relatedIsSourceOf : List Derivation
  relatedHasSource : List Derivation

def upper (s : Str) : Str := s.map Char.toUpper

def convertToPremisHashFunction (hashType : Str) : Str :=
  if "sha".toList.isPrefixOf (lower hashType) && !hashType.contains '-' then
    "SHA-".toList ++ (upper hashType).drop 3
  else if lower hashType = "md5".toList then "MD5".toList
  else hashType

def cleanDate (date : Str) : Str := replaceAll date ['/'] ['-']

-- str.
def strNone : Str := "None".toList

def getPremisFormatData (fileIDs : List FileID) : List (Data X) :=
  let formatData := fileIDs.flatMap fun fileID => [
    tag .format,
    node .formatDesignation [
      leaf .formatName fileID.formatName, leaf .formatVersion fileID.formatVersion],
    node .formatRegistry [
      leaf .formatRegistryName fileID.formatRegistryName,
      leaf .formatRegistryKey fileID.formatRegistryKey]]
  if formatData.isEmpty then
    [tag .format, node .formatDesignation [leaf .formatName "Unknown".toList]]
  else formatData

def relationship (subType : Str) (relatedObject event : UUID) : Data X :=
  node .relationship [
    leaf .relationshipType "derivation".toList,
    leaf .relationshipSubType subType,
    node .relatedObjectIdentification [
      leaf .relatedObjectIdentifierType "UUID".toList,
      leaf .relatedObjectIdentifierValue relatedObject.string],
    node .relatedEventIdentification [
      leaf .relatedEventIdentifierType "UUID".toList,
      leaf .relatedEventIdentifierValue event.string]]

def getPremisRelationshipData (derivations originals : List Derivation) : List (Data X) :=
  (derivations.map fun d => relationship "is source of".toList d.derivedFileID d.eventID) ++
    originals.map fun d => relationship "has source".toList d.sourceFileID d.eventID

-- None where a document has no content, or none that is XML.
def getPremisObjectCharacteristicsExtension (fromstring : Str → Option X)
    (documents : List (Option Str)) : Option (List (Data X)) :=
  documents.mapM fun content =>
    (content.bind fromstring).map fun e => node .objectCharacteristicsExtension [atom (.element e)]

def getPremisObjectIdentifiers (uuid : UUID) (additional : List Identifier) : List (Data X) :=
  node .objectIdentifier [
    leaf .objectIdentifierType "UUID".toList, leaf .objectIdentifierValue uuid.string] ::
  additional.map fun i =>
    node .objectIdentifier [
      node .objectIdentifierType [i.type_.elim Tuple.none text],
      leaf .objectIdentifierValue (i.value.getD strNone)]

def objectCharacteristics (f : File) (modificationtime : Str) (extensions : List (Data X)) : Data X :=
  node .objectCharacteristics (
    [leaf .compositionLevel "0".toList,
      node .fixity [
        leaf .messageDigestAlgorithm (convertToPremisHashFunction f.checksumtype),
        leaf .messageDigest f.checksum],
      leaf .size (f.size.elim strNone fun size => (toString size).toList),
      tuple (getPremisFormatData f.fileIDs),
      node .creatingApplication [leaf .dateCreatedByApplication modificationtime]] ++
    extensions)

-- The data that goes to metsrw, none where it raises before.
def fileObjToPremis (fromstring : Str → Option X) (f : File) : Option (Data X) := do
  let extensions ← getPremisObjectCharacteristicsExtension fromstring f.characterizationDocuments
  let modificationtime ← f.modificationtime
  return node .object (
    atom .filePremisMeta :: getPremisObjectIdentifiers f.uuid f.identifiers ++
    [objectCharacteristics f modificationtime extensions, leaf .originalName f.originallocation] ++
    getPremisRelationshipData f.relatedIsSourceOf f.relatedHasSource)

-- The rights of a file. The rows are those that the METS of the AIP is written from.

def getPremisRightsDocumentationIdentifiers (k : Kind) (identifiers : List DocumentationIdentifier) :
    List (Data X) :=
  identifiers.map fun i =>
    node (.documentationIdentifier k) [
      leaf (.documentationIdentifierType k) i.type_,
      leaf (.documentationIdentifierValue k) i.value,
      leaf (.documentationRole k) i.role]

def getPremisRightsApplicableDates (k : Kind) (d : Dates) : Data X :=
  let endDate := if d.endOpen then open_ else d.end_
  node (.applicableDates k) (
    (if d.start = [] then [] else [leaf .startDate (cleanDate d.start)]) ++
    if endDate = [] then [] else [leaf .endDate (cleanDate endDate)])

-- getCodeForCountry(...) or "".
def copyrightJurisdictionCode (getCodeForCountry : Str → Option Str) (jurisdiction : Str) : Str :=
  (getCodeForCountry (upper jurisdiction)).getD []

def notes (k : Kind) (notes : List Str) : List (Data X) := notes.map (leaf (.note k))

-- What is collected for one section; the sections are put one after the other.

def copyrightInfo (getCodeForCountry : Str → Option Str) (c : Information Copyright) : List (Data X) :=
  [tag (.information .copyright),
    leaf .copyrightStatus c.detail.status,
    leaf .copyrightJurisdiction (copyrightJurisdictionCode getCodeForCountry c.detail.jurisdiction),
    leaf .copyrightStatusDeterminationDate (cleanDate c.detail.determinationDate)] ++
  notes .copyright c.notes ++
  getPremisRightsDocumentationIdentifiers .copyright c.identifiers ++
  [getPremisRightsApplicableDates .copyright c.dates]

def licenseInfo (l : Information License) : List (Data X) :=
  [tag (.information .license)] ++
  getPremisRightsDocumentationIdentifiers .license l.identifiers ++
  [leaf .licenseTerms l.detail.terms] ++
  notes .license l.notes ++
  [getPremisRightsApplicableDates .license l.dates]

def statuteInfo (s : Information Statute) : List (Data X) :=
  [tag (.information .statute),
    leaf .statuteJurisdiction s.detail.jurisdiction,
    leaf .statuteCitation s.detail.citation,
    leaf .statuteInformationDeterminationDate (cleanDate s.detail.determinationDate)] ++
  notes .statute s.notes ++
  getPremisRightsDocumentationIdentifiers .statute s.identifiers ++
  [getPremisRightsApplicableDates .statute s.dates]

def otherRightsBasis (rightsbasis : Str) (o : OtherRights) : Str :=
  if o.basis = [] then rightsbasis else o.basis

def otherInfo (rightsbasis : Str) (o : Information OtherRights) : List (Data X) :=
  [tag (.information .otherRights)] ++
  getPremisRightsDocumentationIdentifiers .otherRights o.identifiers ++
  [leaf .otherRightsBasis (otherRightsBasis rightsbasis o.detail)] ++
  [getPremisRightsApplicableDates .otherRights o.dates] ++
  notes .otherRights o.notes

def getPremisCopyrightInformation (getCodeForCountry : Str → Option Str) (s : Statement) :
    List (Data X) := s.copyrights.flatMap (copyrightInfo getCodeForCountry)

def getPremisLicenseInformation (s : Statement) : List (Data X) := s.licenses.flatMap licenseInfo

def getPremisStatuteInformation (s : Statement) : List (Data X) := s.statutes.flatMap statuteInfo

def getPremisOtherRightsInformation (s : Statement) : List (Data X) :=
  s.others.flatMap (otherInfo s.rightsbasis)

def grantEndDate (g : Granted) : Str := if g.dates.endOpen then open_ else cleanDate g.dates.end_

def grantTag (restriction : Str) : Tag :=
  if lower restriction = "allow".toList then .termOfGrant else .termOfRestriction

def termOf (g : Granted) (restriction : Str) : Data X :=
  node (grantTag restriction) [
    leaf .startDate (cleanDate g.dates.start), leaf .endDate (grantEndDate g)]

def grantInfo (g : Granted) : List (Data X) :=
  [tag .rightsGranted, leaf .act g.act] ++
  (g.restrictions.flatMap fun r => [leaf .restriction r, termOf g r]) ++
  g.notes.map (leaf .rightsGrantedNote)

def getPremisRightsGranted (s : Statement) : List (Data X) := s.granted.flatMap grantInfo

def validRightsBases : List Str :=
  ["copyright".toList, "institutional policy".toList, "license".toList, "statute".toList]

def rightsBasis (s : Statement) : Str :=
  if validRightsBases.contains (lower s.rightsbasis) then s.rightsbasis else "Other".toList

def basisType (s : Statement) : Str := lower (rightsBasis s)

-- A tuple that is empty is not put in.
def nonempty (data : List (Data X)) : List (Data X) := if data.isEmpty then [] else [tuple data]

def basisInformation (getCodeForCountry : Str → Option Str) (s : Statement) : List (Data X) :=
  if basisType s = "copyright".toList then
    nonempty (getPremisCopyrightInformation getCodeForCountry s)
  else if basisType s = "license".toList then nonempty (getPremisLicenseInformation s)
  else if basisType s = "statute".toList then nonempty (getPremisStatuteInformation s)
  else if basisType s = "other".toList then nonempty (getPremisOtherRightsInformation s)
  else []

def rightsStatementIdentifier (uuid4 : Str) (s : Statement) : Data X :=
  let (idType, idValue) :=
    if s.identifierValue = [] then ("UUID".toList, uuid4) else (s.identifierType, s.identifierValue)
  node .rightsStatementIdentifier [
    leaf .rightsStatementIdentifierType idType, leaf .rightsStatementIdentifierValue idValue]

def rightsStatement (getCodeForCountry : Str → Option Str) (uuid4 fileUUID : Str) (s : Statement) :
    Data X :=
  node .rightsStatement (
    [rightsStatementIdentifier uuid4 s, leaf .rightsBasis (rightsBasis s)] ++
    basisInformation getCodeForCountry s ++
    nonempty (getPremisRightsGranted s) ++
    [node .linkingObjectIdentifier [
      leaf .linkingObjectIdentifierType "UUID".toList, leaf .linkingObjectIdentifierValue fileUUID]])

def rightsToPremis (getCodeForCountry : Str → Option Str) (uuid4 fileUUID : Str) (s : Statement) :
    Data X :=
  node .rights [atom .premisMeta, rightsStatement getCodeForCountry uuid4 fileUUID s]

end Ccp.Worker.TransferMets
