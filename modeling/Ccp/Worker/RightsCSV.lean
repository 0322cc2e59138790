import Ccp.Lib.Dict
import Ccp.Worker.MetadataCSV

namespace Ccp.Worker.RightsCSV

open Lib

-- allowed_column_names.
inductive Column
  | basis
  | status
  | determinationDate
  | startDate
  | endDate
  | jurisdiction
  | terms
  | citation
  | note
  | grantAct
  | grantRestriction
  | grantStartDate
  | grantEndDate
  | grantNote
  | docIDType
  | docIDValue
  | docIDRole
  | file
deriving DecidableEq

namespace Column

def name : Column → Str
  | basis => "basis".toList
  | status => "status".toList
  | determinationDate => "determination_date".toList
  | startDate => "start_date".toList
  | endDate => "end_date".toList
  | jurisdiction => "jurisdiction".toList
  | terms => "terms".toList
  | citation => "citation".toList
  | note => "note".toList
  | grantAct => "grant_act".toList
  | grantRestriction => "grant_restriction".toList
  | grantStartDate => "grant_start_date".toList
  | grantEndDate => "grant_end_date".toList
  | grantNote => "grant_note".toList
  | docIDType => "doc_id_type".toList
  | docIDValue => "doc_id_value".toList
  | docIDRole => "doc_id_role".toList
  | file => "file".toList

def optional : List Column :=
  [basis, status, determinationDate, startDate, endDate, jurisdiction, terms, citation, note,
    grantAct, grantRestriction, grantStartDate, grantEndDate, grantNote, docIDType, docIDValue,
    docIDRole]

def required : List Column := [file]

def allowed : List Column := optional ++ required

end Column

-- A row of csv.DictReader: a short record leaves None under the keys it does not reach, and
-- what is too much of a long one is kept under None.
structure Row where
  cells : Dict Str (Option Str)
  rest : Bool
deriving DecidableEq

def dictRow (fieldnames record : List Str) : Row where
  cells := (fieldnames.zip (record.map some ++
    List.replicate (fieldnames.length - record.length) none)).foldl
      (fun cells item => Dict.set cells item.1 item.2) []
  rest := fieldnames.length < record.length

def Row.keys (row : Row) : List (Option Str) :=
  row.cells.map (fun item => some item.1) ++ if row.rest then [none] else []

-- The file as the reader gives it, which may raise after the last of these records.
structure Csv where
  fieldnames : List Str
  records : List (List Str)
  broken : Bool

-- A record without a field is no row.
def Csv.rows (csv : Csv) : List Row :=
  (csv.records.filter (· ≠ [])).map (dictRow csv.fieldnames)

inductive Failure
  | rightsRow (message : Str)
  | attributeError
  | typeError
  | validationError
  | doesNotExist
  | multipleObjectsReturned
  | databaseError
  | transactionManagementError
  | csvError
deriving DecidableEq

-- The rows of the rights tables. What is saved for a row of the file refers to the statement
-- of the row, or to its information or grant, so it belongs to the statement saved last.

structure Dates where
  start : Option Str
  end_ : Option Str
  endOpen : Bool
deriving DecidableEq

inductive Detail
  | copyright (status jurisdiction : Str) (determinationDate : Option Str)
  | license (terms : Option Str)
  | statute (jurisdiction citation determinationDate : Option Str)
  | otherRights (basis : Str)
deriving DecidableEq

structure Statement where
  appliesToType : Option ℕ
  appliesToIdentifier : UUID
  basis : Str
  status : Str
deriving DecidableEq

inductive Record
  | statement (s : Statement)
  | information (detail : Detail) (dates : Dates)
  | documentationIdentifier (type_ value : Str) (role : Option Str)
  | note (text : Str)
  | granted (act : Option Str) (dates : Dates)
  | restriction (text : Str)
  | grantedNote (text : Str)
deriving DecidableEq

-- A column that may not be NULL is.
def Record.incomplete : Record → Bool
  | .statement s => s.appliesToType.isNone
  | .information (.statute jurisdiction citation _) _ => jurisdiction.isNone || citation.isNone
  | .granted act _ => act.isNone
  | _ => false

-- File as far as it is looked for.
structure File where
  uuid : UUID
  originalLocation : Str
  transfer : Option UUID

-- str.lower and str.capitalize, the files, MetadataAppliesToType of files, and what else the
-- database refuses to save.
structure Env where
  lower : Str → Str
  capitalize : Str → Str
  files : List File
  nodup : (files.map File.uuid).Nodup
  appliesTo : Option ℕ
  refuses : Record → Bool

-- The rights tables within the transaction, in the order of saving.
structure Db where
  stored : List Record
  needsRollback : Bool
deriving DecidableEq

-- What is read before the next save, and the record that is saved then, if one is.
abbrev Step := Except Failure (Option Record)

variable (env : Env)

def Env.refused (r : Record) : Bool := r.incomplete || env.refuses r

def normalize (s : Str) : Str := env.capitalize (env.lower s)

-- column_value.
def columnValue (row : Row) (c : Column) : Except Failure (Option Str) :=
  match Dict.get? row.cells c.name with
  | none => .ok none
  | some none => .error .attributeError
  | some (some value) => .ok (if strip value = [] then none else some (strip value))

def prefix' : Str := "%transferDirectory%".toList

-- File.objects.get; an argument that is no UUID is not looked for.
def getFile (transfer : Option UUID) (filepath : Str) : Except Failure File :=
  match transfer with
  | none => .error .validationError
  | some t =>
      match env.files.filter fun f => f.originalLocation = prefix' ++ filepath && f.transfer = some t with
      | [] => .error .doesNotExist
      | [f] => .ok f
      | _ => .error .multipleObjectsReturned

def rightsRowException (rowsProcessed : ℕ) (message : Str) : Failure :=
  .rightsRow ("[Row ".toList ++ (toString (rowsProcessed + 1)).toList ++ "] ".toList ++ message)

def rightsBasisChoices : List Str :=
  ["Copyright".toList, "Statute".toList, "License".toList, "Donor".toList, "Policy".toList,
    "Other".toList]

-- The basis of the row, where None has no lower.
def basisValue (row : Row) : Except Failure Str := do
  match ← columnValue row .basis with
  | none => throw .attributeError
  | some basis => pure (normalize env basis)

def generateRightsStatement (transfer : Option UUID) (rowsProcessed : ℕ) (row : Row) :
    Except Failure Statement := do
  let basis ← basisValue env row
  if !rightsBasisChoices.contains basis then
    throw (rightsRowException rowsProcessed ("Invalid basis: ".toList ++ basis))
  match ← columnValue row .file with
  | none => throw .typeError
  | some filepath =>
      let transferFile ← getFile env transfer filepath
      pure {
        appliesToType := env.appliesTo
        appliesToIdentifier := transferFile.uuid
        basis := basis
        status := "ORIGINAL".toList }

-- end_date and end_date.lower() == "open".
def isOpen (endDate : Option Str) : Bool :=
  endDate.any fun value => env.lower value = "open".toList

def dates (start endDate : Option Str) : Dates where
  start := start
  end_ := if isOpen env endDate then none else endDate
  endOpen := isOpen env endDate

def storeDocID (row : Row) : Step := do
  let idType ← columnValue row .docIDType
  let idValue ← columnValue row .docIDValue
  let idRole ← columnValue row .docIDRole
  if idType.isSome || idValue.isSome || idRole.isSome then
    pure (some (.documentationIdentifier (idType.getD []) (idValue.getD []) idRole))
  else pure none

-- The note of each of the four.
def storeNote (row : Row) : Step := do
  let note ← columnValue row .note
  pure (note.map .note)

-- The method lower of the end date is compared with the text.
def storeCopyrightInfo (row : Row) : List Step :=
  [do
    let status ← columnValue row .status
    let jurisdiction ← columnValue row .jurisdiction
    let determinationDate ← columnValue row .determinationDate
    let startDate ← columnValue row .startDate
    let endDate ← columnValue row .endDate
    pure (some (.information
      (.copyright (status.getD "unknown".toList) (jurisdiction.getD []) determinationDate)
      { start := startDate, end_ := endDate, endOpen := false })),
    storeDocID row, storeNote row]

def storeLicenseInfo (row : Row) : List Step :=
  [do
    let terms ← columnValue row .terms
    let startDate ← columnValue row .startDate
    let endDate ← columnValue row .endDate
    pure (some (.information (.license terms) (dates env startDate endDate))),
    storeDocID row, storeNote row]

def storeStatuteInfo (row : Row) : List Step :=
  [do
    let jurisdiction ← columnValue row .jurisdiction
    let citation ← columnValue row .citation
    let determinationDate ← columnValue row .determinationDate
    let startDate ← columnValue row .startDate
    let endDate ← columnValue row .endDate
    pure (some (.information (.statute jurisdiction citation determinationDate)
      (dates env startDate endDate))),
    storeDocID row, storeNote row]

def storeOtherInfo (row : Row) : List Step :=
  [do
    let basis ← basisValue env row
    let startDate ← columnValue row .startDate
    let endDate ← columnValue row .endDate
    pure (some (.information (.otherRights basis) (dates env startDate endDate))),
    storeDocID row, storeNote row]

def storeGrantInfo (row : Row) : List Step :=
  [do
    let act ← columnValue row .grantAct
    let startDate ← columnValue row .grantStartDate
    let endDate ← columnValue row .grantEndDate
    pure (some (.granted act (dates env startDate endDate))),
    do
    let restriction ← columnValue row .grantRestriction
    pure (restriction.map .restriction),
    do
    let note ← columnValue row .grantNote
    pure (note.map .grantedNote)]

def storeInfo (basis : Str) (row : Row) : List Step :=
  if basis = "Copyright".toList then storeCopyrightInfo row
  else if basis = "License".toList then storeLicenseInfo env row
  else if basis = "Statute".toList then storeStatuteInfo env row
  else if ["Other".toList, "Donor".toList, "Policy".toList].contains basis then storeOtherInfo env row
  else []

-- store_row, for the basis and whether there is an act, as parse_row has them.
def storeRow (transfer : Option UUID) (rowsProcessed : ℕ) (basis : Str) (hasAct : Bool) (row : Row) :
    List Step :=
  (generateRightsStatement env transfer rowsProcessed row).map (fun s => some (.statement s)) ::
    (storeInfo env basis row ++ if hasAct then storeGrantInfo env row else [])

-- The reader between two rows: whether it has had one, and object_basis_act_usage as the
-- combinations of file, basis and act that are in it.
structure Reader where
  hasRow : Bool
  rowsProcessed : ℕ
  usage : List (Str × Str × Option Str)

def Reader.start : Reader := ⟨false, 0, []⟩

def Reader.next (r : Reader) (usage : List (Str × Str × Option Str)) : Reader :=
  ⟨true, r.rowsProcessed + 1, usage⟩

def validateColumns (r : Reader) (row : Row) : Except Failure Unit := do
  match row.keys.find? fun key => !(Column.allowed.map fun c => some c.name).contains key with
  | some key =>
      throw (rightsRowException r.rowsProcessed
        ("Invalid column found: ".toList ++ key.getD "None".toList))
  | none => pure ()
  match (Column.required.map Column.name).find? fun name => (Dict.get? row.cells name).isNone with
  | some name =>
      throw (rightsRowException r.rowsProcessed ("Missing required column: ".toList ++ name))
  | none => pure ()

def restrictions : List Str := ["disallow".toList, "conditional".toList, "allow".toList]

-- The combination of file, basis and act that parse_row reads.
def readCombination (r : Reader) (row : Row) : Except Failure (Str × Str × Option Str) := do
  match ← columnValue row .file with
  | none => throw (rightsRowException r.rowsProcessed "No file specified".toList)
  | some filepath =>
      let restriction ← columnValue row .grantRestriction
      if restriction.any fun value => !restrictions.contains (env.lower value) then
        throw (rightsRowException r.rowsProcessed
          "The value of element restriction must be: 'Allow', 'Disallow', or 'Conditional'".toList)
      let basis ← basisValue env row
      let act ← columnValue row .grantAct
      pure (filepath, basis, act.map (normalize env))

-- parse_row up to there: the columns are checked at the first row.
def checkRow (r : Reader) (row : Row) : Except Failure (Str × Str × Option Str) := do
  if !r.hasRow then validateColumns r row
  readCombination env r row

-- A save that is refused leaves the transaction to be rolled back.
def save (r : Record) (db : Db) : Option Failure × Db :=
  if db.needsRollback then (some .transactionManagementError, db)
  else if env.refused r then (some .databaseError, { db with needsRollback := true })
  else (none, { db with stored := db.stored ++ [r] })

def saveAll : List Step → Db → Option Failure × Db
  | [], db => (none, db)
  | .error e :: _, db => (some e, db)
  | .ok none :: steps, db => saveAll steps db
  | .ok (some r) :: steps, db =>
      match save env r db with
      | (some e, db) => (some e, db)
      | (none, db) => saveAll steps db

def parseRow (transfer : Option UUID) (r : Reader) (row : Row) (db : Db) :
    Except Failure Reader × Db :=
  match checkRow env r row with
  | .error e => (.error e, db)
  | .ok key =>
      if r.usage.contains key then (.ok (r.next r.usage), db)
      else match saveAll env (storeRow env transfer r.rowsProcessed key.2.1 key.2.2.isSome row) db with
        | (some e, db) => (.error e, db)
        | (none, db) => (.ok (r.next (r.usage ++ [key])), db)

def parseRows (transfer : Option UUID) : Reader → List Row → Db → Except Failure Reader × Db
  | r, [], db => (.ok r, db)
  | r, row :: rows, db =>
      match parseRow env transfer r row db with
      | (.error e, db) => (.error e, db)
      | (.ok r, db) => parseRows transfer r rows db

-- parse; its first query raises within a transaction that is to be rolled back.
def parse (transfer : Option UUID) (csv : Csv) (db : Db) : Except Failure ℕ × Db :=
  if db.needsRollback then (.error .transactionManagementError, db)
  else match parseRows env transfer Reader.start csv.rows db with
    | (.error e, db) => (.error e, db)
    | (.ok r, db) => if csv.broken then (.error .csvError, db) else (.ok r.rowsProcessed, db)

-- A job, with its file where there is one.
structure Job where
  transfer : Option UUID
  csv : Option Csv

-- What happens within JobContext: the job has the status 1 after each of the failures.
def importJob (job : Job) (db : Db) : Except Failure (Option ℕ) × Db :=
  match job.csv with
  | none => (.ok none, db)
  | some csv => let (result, db) := parse env job.transfer csv db; (result.map some, db)

def importJobs : List Job → Db → List (Except Failure (Option ℕ)) × Db
  | [], db => ([], db)
  | job :: jobs, db =>
      let (result, db) := importJob env job db
      let (results, db) := importJobs jobs db
      (result :: results, db)

-- call: no exception of a job leaves the block of the transaction.
def call (jobs : List Job) (stored : List Record) : List (Except Failure (Option ℕ)) × List Record :=
  let (results, db) := importJobs env jobs ⟨stored, false⟩
  (results, if db.needsRollback then stored else db.stored)

end Ccp.Worker.RightsCSV
