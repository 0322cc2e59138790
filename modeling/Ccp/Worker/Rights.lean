import Ccp.Lib.Text
import Ccp.Lib.Xml
import Ccp.Uuid

namespace Ccp.Worker.Rights

open Lib

-- The rows of a rights statement. A text that is NULL and one that is empty are alike to
-- the writer and are both the empty text here.

structure Dates where
  start : Str
  end_ : Str
  endOpen : Bool
deriving DecidableEq

structure DocumentationIdentifier where
  type_ : Str
  value : Str
  role : Str
deriving DecidableEq

-- The information of one basis: what is particular to the basis, and what all have.
structure Information (α : Type) where
  detail : α
  dates : Dates
  notes : List Str
  identifiers : List DocumentationIdentifier
deriving DecidableEq

structure Copyright where
  status : Str
  jurisdiction : Str
  determinationDate : Str
deriving DecidableEq

structure License where
  terms : Str
deriving DecidableEq

structure Statute where
  jurisdiction : Str
  citation : Str
  determinationDate : Str
deriving DecidableEq

structure OtherRights where
  basis : Str
deriving DecidableEq

structure Granted where
  act : Str
  dates : Dates
  restrictions : List Str
  notes : List Str
deriving DecidableEq

structure Statement where
  identifierType : Str
  identifierValue : Str
  rightsbasis : Str
  copyrights : List (Information Copyright)
  licenses : List (Information License)
  statutes : List (Information Statute)
  others : List (Information OtherRights)
  granted : List Granted
deriving DecidableEq

-- The elements for one basis have its name before the one here: copyrightNote,
-- licenseNote, statuteNote, otherRightsNote.
inductive Kind
  | copyright
  | license
  | statute
  | otherRights
deriving DecidableEq

inductive Tag
  | mets
  | amdSec
  | rightsMD
  | mdWrap
  | xmlData
  | rightsStatement
  | rightsStatementIdentifier
  | rightsStatementIdentifierType
  | rightsStatementIdentifierValue
  | rightsBasis
  | information (k : Kind)
  | documentationIdentifier (k : Kind)
  | documentationIdentifierType (k : Kind)
  | documentationIdentifierValue (k : Kind)
  | documentationRole (k : Kind)
  | note (k : Kind)
  | applicableDates (k : Kind)
  | copyrightStatus
  | jurisdiction (k : Kind)
  | copyrightStatusDeterminationDate
  | licenseTerms
  | statuteCitation
  | statuteInformationDeterminationDate
  | otherRightsBasis
  | startDate
  | endDate
  | rightsGranted
  | act
  | restriction
  | termOfGrant
  | termOfRestriction
  | rightsGrantedNote
  | linkingObjectIdentifier
  | linkingObjectIdentifierType
  | linkingObjectIdentifierValue
deriving DecidableEq

-- The attributes that are read, with the text of an element as one of them.
inductive Attr
  | text
  | status
  | mdtype
deriving DecidableEq

abbrev El := Element Tag Attr

def leaf (t : Tag) (text : Str) : El := .mk t [(.text, text)] []

def node (t : Tag) (children : List El) : El := .mk t [] children

-- The writer.

def formatDate (date : Str) : Str := replaceAll date ['/'] ['-']

def open_ : Str := "OPEN".toList

-- _add_start_end_date_complex_type.
def startEndDate (name : Tag) (d : Dates) : List El :=
  if d.start = [] ∧ d.end_ = [] ∧ d.endOpen = false then []
  else
    let end_ := if d.endOpen then open_ else formatDate d.end_
    [node name (leaf .startDate (formatDate d.start) ::
      if end_ = [] then [] else [leaf .endDate end_])]

def documentationIdentifier (k : Kind) (i : DocumentationIdentifier) : El :=
  node (.documentationIdentifier k) [
    leaf (.documentationIdentifierType k) i.type_,
    leaf (.documentationIdentifierValue k) i.value,
    leaf (.documentationRole k) i.role]

-- The code of a country that has one; the names of the countries are in capitals.
def copyrightJurisdiction (getCodeForCountry : Str → Option Str) (jurisdiction : Str) : Str :=
  (getCodeForCountry jurisdiction).getD jurisdiction

def copyrightInformation (getCodeForCountry : Str → Option Str) (c : Information Copyright) : El :=
  node (.information .copyright) (
    [leaf .copyrightStatus c.detail.status,
      leaf (.jurisdiction .copyright) (copyrightJurisdiction getCodeForCountry c.detail.jurisdiction),
      leaf .copyrightStatusDeterminationDate (formatDate c.detail.determinationDate)] ++
    c.notes.map (leaf (.note .copyright)) ++
    c.identifiers.map (documentationIdentifier .copyright) ++
    startEndDate (.applicableDates .copyright) c.dates)

def licenseInformation (l : Information License) : El :=
  node (.information .license) (
    l.identifiers.map (documentationIdentifier .license) ++
    [leaf .licenseTerms l.detail.terms] ++
    l.notes.map (leaf (.note .license)) ++
    startEndDate (.applicableDates .license) l.dates)

def statuteInformation (s : Information Statute) : El :=
  node (.information .statute) (
    [leaf (.jurisdiction .statute) s.detail.jurisdiction,
      leaf .statuteCitation s.detail.citation,
      leaf .statuteInformationDeterminationDate (formatDate s.detail.determinationDate)] ++
    s.notes.map (leaf (.note .statute)) ++
    s.identifiers.map (documentationIdentifier .statute) ++
    startEndDate (.applicableDates .statute) s.dates)

def rightsBasisOther : List Str := ["Policy".toList, "Donor".toList]

-- The children of otherRightsInformation for one row: all rows share the element.
def otherRights (rightsbasis : Str) (o : Information OtherRights) : List El :=
  let basis :=
    if o.detail.basis = [] ∨ rightsBasisOther.contains rightsbasis then rightsbasis else o.detail.basis
  o.identifiers.map (documentationIdentifier .otherRights) ++
    [leaf .otherRightsBasis basis] ++
    startEndDate (.applicableDates .otherRights) o.dates ++
    o.notes.map (leaf (.note .otherRights))

def lower (s : Str) : Str := s.map Char.toLower

-- The last of the restrictions decides on the term, none where it is not one of the three.
def term (g : Granted) : Option Tag :=
  let restriction := lower ((g.restrictions.getLast?).getD "Undefined".toList)
  if restriction = "allow".toList then some .termOfGrant
  else if restriction = "disallow".toList ∨ restriction = "conditional".toList then
    some .termOfRestriction
  else none

-- Without a term for its dates the rest of the grant is passed over.
def rightsGranted (g : Granted) : El :=
  let dated := g.dates.start ≠ [] ∨ g.dates.end_ ≠ [] ∨ g.dates.endOpen
  node .rightsGranted (
    leaf .act g.act :: g.restrictions.map (leaf .restriction) ++
    if dated then
      match term g with
      | none => []
      | some term => startEndDate term g.dates ++ g.notes.map (leaf .rightsGrantedNote)
    else g.notes.map (leaf .rightsGrantedNote))

def statementInformation (getCodeForCountry : Str → Option Str) (s : Statement) : List El :=
  let basis := lower s.rightsbasis
  if basis = "copyright".toList then s.copyrights.map (copyrightInformation getCodeForCountry)
  else if basis = "license".toList then s.licenses.map licenseInformation
  else if basis = "statute".toList then s.statutes.map statuteInformation
  else if basis = "donor".toList ∨ basis = "policy".toList ∨ basis = "other".toList then
    [node (.information .otherRights) (s.others.flatMap (otherRights s.rightsbasis))]
  else []

def rightsStatementIdentifier (uuid4 : Str) (s : Statement) : El :=
  let (type_, value) :=
    if s.identifierValue = [] then ("UUID".toList, uuid4) else (s.identifierType, s.identifierValue)
  node .rightsStatementIdentifier [
    leaf .rightsStatementIdentifierType type_, leaf .rightsStatementIdentifierValue value]

def rightsBasis (s : Statement) : Str :=
  if rightsBasisOther.contains s.rightsbasis then "Other".toList else s.rightsbasis

def linkingObjectIdentifier (fileUUID : UUID) : El :=
  node .linkingObjectIdentifier [
    leaf .linkingObjectIdentifierType "UUID".toList,
    leaf .linkingObjectIdentifierValue fileUUID.string]

def createRightsStatement (getCodeForCountry : Str → Option Str) (uuid4 : Str) (fileUUID : UUID)
    (s : Statement) : El :=
  node .rightsStatement (
    [rightsStatementIdentifier uuid4 s, leaf .rightsBasis (rightsBasis s)] ++
    statementInformation getCodeForCountry s ++
    s.granted.map rightsGranted ++
    [linkingObjectIdentifier fileUUID])

def premisRights : Str := "PREMIS:RIGHTS".toList

def rightsMD (statement : El) : El :=
  node .rightsMD [.mk .mdWrap [(.mdtype, premisRights)] [node .xmlData [statement]]]

-- A file of the SIP, which has rights where it is an original one.
structure File where
  uuid : UUID
  original : Bool
deriving DecidableEq

-- getAMDSec, as far as the rights of the SIP are in it.
def amdSec (getCodeForCountry : Str → Option Str) (uuid4 : File → Statement → Str)
    (statements : List Statement) (file : File) : El :=
  node .amdSec (
    if file.original then
      statements.map fun s =>
        rightsMD (createRightsStatement getCodeForCountry (uuid4 file s) file.uuid s)
    else [])

def document (getCodeForCountry : Str → Option Str) (uuid4 : File → Statement → Str)
    (files : List File) (statements : List Statement) : El :=
  node .mets (files.map (amdSec getCodeForCountry uuid4 statements))

-- The reader. No element is in the namespace of PREMIS 2, which it falls back to.

def findtext (found : List El) (default : Str) : Str :=
  match found.head? with
  | none => default
  | some e =>
      let text := (e.get .text).getD []
      if text = [] then default else text

def readDates (start end_ : Str) : Dates :=
  if end_ = open_ then ⟨start, [], true⟩ else ⟨start, end_, false⟩

def findDates (k : Kind) (statement : El) : Dates :=
  let dates := statement.findBelow (.applicableDates k)
  readDates (findtext (dates.flatMap (·.findall .startDate)) [])
    (findtext (dates.flatMap (·.findall .endDate)) [])

def findIdentifier (k : Kind) (statement : El) : DocumentationIdentifier where
  type_ := findtext (statement.findBelow (.documentationIdentifierType k)) []
  value := findtext (statement.findBelow (.documentationIdentifierValue k)) []
  role := findtext (statement.findBelow (.documentationRole k)) []

-- One row, with one identifier and one note.
def findInformation {α : Type} (k : Kind) (detail : α) (statement : El) : Information α where
  detail := detail
  dates := findDates k statement
  notes := [findtext (statement.findBelow (.note k)) []]
  identifiers := [findIdentifier k statement]

def findCopyright (statement : El) : Copyright where
  status := findtext (statement.findBelow .copyrightStatus) []
  jurisdiction := findtext (statement.findBelow (.jurisdiction .copyright)) []
  determinationDate := findtext (statement.findBelow .copyrightStatusDeterminationDate) []

def findLicense (statement : El) : License where
  terms := findtext (statement.findBelow .licenseTerms) []

def findStatute (statement : El) : Statute where
  jurisdiction := findtext (statement.findBelow (.jurisdiction .statute)) []
  citation := findtext (statement.findBelow .statuteCitation) []
  determinationDate := findtext (statement.findBelow .statuteInformationDeterminationDate) []

def other : Str := "Other".toList

def findGranted (granted : El) : Granted where
  act := findtext (granted.findall .act) []
  dates := readDates (findtext (granted.findBelow .startDate) []) (findtext (granted.findBelow .endDate) [])
  restrictions := [findtext (granted.findall .restriction) []]
  notes := [findtext (granted.findall .rightsGrantedNote) []]

def parseStatement (statement : El) : Statement :=
  let basis := findtext (statement.findall .rightsBasis) []
  let rights : Statement :=
    { identifierType := []
      identifierValue := []
      rightsbasis := basis
      copyrights := []
      licenses := []
      statutes := []
      others := []
      granted := (statement.findBelow .rightsGranted).map findGranted }
  if basis = "Copyright".toList then
    { rights with copyrights := [findInformation .copyright (findCopyright statement) statement] }
  else if basis = "License".toList then
    { rights with licenses := [findInformation .license (findLicense statement) statement] }
  else if basis = "Statute".toList then
    { rights with statutes := [findInformation .statute (findStatute statement) statement] }
  else if basis = "Donor".toList ∨ basis = "Policy".toList ∨ basis = other then
    let otherBasis := findtext (statement.findBelow .otherRightsBasis) other
    { rights with
      rightsbasis := otherBasis
      others := [findInformation .otherRights ⟨otherBasis⟩ statement] }
  else rights

def current (rightsMD : El) : Bool :=
  match rightsMD.get .status with
  | none => true
  | some status => status = "current".toList

-- The statements of the first amdSec that has any, which are those of the SIP afterwards.
def parseRights (root : El) : List Statement :=
  match (root.findall .amdSec).filter fun amd => !(amd.findall .rightsMD).isEmpty with
  | [] => []
  | amd :: _ =>
      let mdWraps := ((amd.findall .rightsMD).filter current).flatMap fun rightsMD =>
        (rightsMD.findall .mdWrap).filter (·.get .mdtype = some premisRights)
      let statements := mdWraps.flatMap fun mdWrap =>
        mdWrap.children.flatMap (·.findall .rightsStatement)
      statements.map parseStatement

end Ccp.Worker.Rights
