import Ccp.Lib.Calls
import Ccp.Lib.PosixPath
import Ccp.Lib.Text
import Ccp.Uuid
import Mathlib.Data.List.Nodup

namespace Ccp.Worker.OnceNormalized

open Lib Calls

-- The rows of the tables that a normalization writes to.

structure File where
  uuid : UUID
  sip : UUID
  originallocation : Str
  currentlocation : Str
  filegrpuse : Str
  size : Option ℕ
  checksum : Str
  checksumtype : Str
deriving DecidableEq

structure Event where
  eventId : UUID
  fileUUID : UUID
  eventType : Str
  eventDetail : Str
  eventOutcomeDetail : Str
deriving DecidableEq

structure Derivation where
  sourceFile : UUID
  derivedFile : UUID
  event : Option UUID
deriving DecidableEq

-- The tables, and how often an identifier has been made.
structure Db where
  sips : List UUID
  files : List File
  events : List Event
  derivations : List Derivation
  formatVersions : List (UUID × UUID)
  fileIDs : List (UUID × Str)
  calls : ℕ
deriving DecidableEq

def Db.hasFile (db : Db) (uuid : UUID) : Bool := (db.files.map (·.uuid)).contains uuid

def Db.hasEvent (db : Db) (uuid : UUID) : Bool := (db.events.map (·.eventId)).contains uuid

-- What the script asks of the disk. Nothing has the empty path.
structure Disk where
  isfile : Str → Bool
  isdir : Str → Bool
  walk : Str → List (Str × List Str)
  getsize : Str → ℕ
  checksum : Str → Str
  empty : isfile [] = false ∧ isdir [] = false

structure NormalizeArgs where
  purpose : Str
  fileUUID : UUID
  sipPath : Str
  sipUUID : UUID
  taskUUID : UUID
deriving DecidableEq

-- The command of the rule, with the output of its event detail command where it has one.
-- An output format is known by its version and by the description of its format.
structure Command where
  uuid : UUID
  outputLocation : Option Str
  outputFormat : Option (UUID × Str)
  eventDetail : Option Str
deriving DecidableEq

inductive Fault
  | integrityError
deriving DecidableEq

abbrev Call := EStateM Fault Db

section OnceNormalized

-- checksumType is a setting, uuid4 makes a new identifier at each call.
variable (disk : Disk) (checksumType : Str) (uuid4 : ℕ → UUID) (opts : NormalizeArgs)
  (command : Command)

def newUUID : Call UUID := fun db => .ok (uuid4 db.calls) { db with calls := db.calls + 1 }

-- A statement that the database refuses where a key is taken or a row is missing.
def write (accepts : Db → Bool) (change : Db → Db) : Call Unit := fun db =>
  if accepts db then .ok () (change db) else .error .integrityError db

def insertIntoFiles (row : File) : Call Unit :=
  write (fun db => !db.hasFile row.uuid && db.sips.contains row.sip)
    fun db => { db with files := db.files ++ [row] }

def insertEvent (event : Event) : Call Unit :=
  write (fun db => !db.hasEvent event.eventId && db.hasFile event.fileUUID)
    fun db => { db with events := db.events ++ [event] }

-- Without an identifier the event gets a new one.
def insertIntoEvents (fileUUID : UUID) (eventType eventDetail eventOutcomeDetail : Str) : Call Unit := do
  let eventId ← newUUID uuid4
  insertEvent ⟨eventId, fileUUID, eventType, eventDetail, eventOutcomeDetail⟩

def insertIntoDerivations (derivation : Derivation) : Call Unit :=
  write (fun db => db.hasFile derivation.sourceFile && db.hasFile derivation.derivedFile &&
      derivation.event.all db.hasEvent)
    fun db => { db with derivations := db.derivations ++ [derivation] }

-- The row of a new file, before its size is known.
def newFile (location : Str) : File :=
  ⟨opts.taskUUID, opts.sipUUID, location, location, opts.purpose, none, [], []⟩

def addFileToSIP (location : Str) : Call Unit := do
  insertIntoFiles (newFile opts location)
  insertIntoEvents uuid4 opts.taskUUID "creation".toList [] []

def setSizeAndChecksum (filePath : Str) (row : File) : File :=
  { row with
    size := some (disk.getsize filePath)
    checksum := disk.checksum filePath
    checksumtype := checksumType }

def digestDetail : Str :=
  "program=\"python\"; module=\"hashlib.".toList ++ checksumType ++ "()\"".toList

-- An identifier is made for the event, which does not use it.
def updateSizeAndChecksum (filePath : Str) : Call Unit := do
  let _ ← newUUID uuid4
  modify fun db =>
    { db with
      files := db.files.map fun row =>
        if row.uuid = opts.taskUUID then setSizeAndChecksum disk checksumType filePath row else row }
  insertIntoEvents uuid4 opts.taskUUID "message digest calculation".toList
    (digestDetail checksumType)
    (disk.checksum filePath)

def insertDerivationEvent (derivationUUID : UUID) (eventDetailOutput outcomeDetailNote : Str) :
    Call Unit := do
  insertEvent ⟨derivationUUID, opts.fileUUID, "normalization".toList, eventDetailOutput,
    outcomeDetailNote⟩
  insertIntoDerivations ⟨opts.fileUUID, opts.taskUUID, some derivationUUID⟩

def isPreservation : Bool := occursIn "preservation".toList opts.purpose

def derive (derivationUUID : UUID) (eventDetailOutput outcomeDetailNote : Str) : Call Unit :=
  if isPreservation opts then
    insertDerivationEvent opts derivationUUID eventDetailOutput outcomeDetailNote
  else insertIntoDerivations ⟨opts.fileUUID, opts.taskUUID, none⟩

-- The identification of the file as the output format of the command. There is no row
-- without a format.
def identify : Call Unit :=
  match command.outputFormat with
  | none => throw .integrityError
  | some (version, description) => do
      write (fun db => db.hasFile opts.taskUUID)
        fun db => { db with formatVersions := db.formatVersions ++ [(opts.taskUUID, version)] }
      write (fun db => db.hasFile opts.taskUUID)
        fun db => { db with fileIDs := db.fileIDs ++ [(opts.taskUUID, description)] }

def relativeToSIP (ef : Str) : Str := replaceFirst opts.sipPath "%SIPDirectory%".toList ef

-- The body of the loop over the output files.
def register (derivationUUID : UUID) (eventDetailOutput : Str) (ef : Str) : Call Unit := do
  addFileToSIP uuid4 opts (relativeToSIP opts ef)
  updateSizeAndChecksum disk checksumType uuid4 opts ef
  derive opts derivationUUID eventDetailOutput (relativeToSIP opts ef)
  identify opts command

def outputLocation : Str := command.outputLocation.getD []

def transcodedFiles : List Str :=
  let location := outputLocation command
  if disk.isfile location then [location]
  else if disk.isdir location then
    (disk.walk location).flatMap fun w => (w.2.map (PosixPath.join w.1)).filter disk.isfile
  else []

-- command.exit_code where it is set.
def exitCode : Option Int :=
  let location := outputLocation command
  if disk.isfile location || disk.isdir location || location = [] then none else some (-2)

def eventDetailOutput : Str :=
  "ArchivematicaFPRCommandID=\"".toList ++ command.uuid.string ++ '"' ::
    match command.eventDetail with
    | none => []
    | some stdOut => "; ".toList ++ stdOut

def isThumbnails : Bool := occursIn "thumbnails".toList opts.purpose

def registerAll (derivationUUID : UUID) : List Str → Call Unit
  | [] => pure ()
  | ef :: rest => do
      register disk checksumType uuid4 opts command derivationUUID (eventDetailOutput command) ef
      registerAll derivationUUID rest

def onceNormalized : Call (Option Int) := do
  let derivationUUID ← newUUID uuid4
  if isThumbnails opts then return exitCode disk command
  else do
    registerAll disk checksumType uuid4 opts command derivationUUID (transcodedFiles disk command)
    return exitCode disk command

end OnceNormalized

section Contract

variable (disk : Disk) (checksumType : Str) (opts : NormalizeArgs) (command : Command)

-- The row of an output file.
def fileOf (ef : Str) (uuid : UUID) : File :=
  setSizeAndChecksum disk checksumType ef
    ⟨uuid, opts.sipUUID, relativeToSIP opts ef, relativeToSIP opts ef, opts.purpose, none, [], []⟩

def normalizationOf (ef : Str) (eventId : UUID) : Event :=
  ⟨eventId, opts.fileUUID, "normalization".toList, eventDetailOutput command, relativeToSIP opts ef⟩

def isNormalization (event : Event) : Bool :=
  event.fileUUID = opts.fileUUID && event.eventType = "normalization".toList

-- Every output file has a row of its own, with its size and checksum, its format and the
-- derivation from the original; a preservation file with an event of its own.
structure Registered (before after : Db) (efs : List Str) (ids events : List UUID) : Prop where
  length : ids.length = efs.length
  nodup : ids.Nodup
  fresh : ∀ id ∈ ids, before.hasFile id = false
  original : efs ≠ [] → before.hasFile opts.fileUUID = true
  files : after.files = before.files ++ List.zipWith (fileOf disk checksumType opts) efs ids
  identified : efs ≠ [] → command.outputFormat.isSome = true
  formatVersions : after.formatVersions = before.formatVersions ++
    ids.flatMap fun id => command.outputFormat.toList.map fun f => (id, f.1)
  fileIDs : after.fileIDs = before.fileIDs ++
    ids.flatMap fun id => command.outputFormat.toList.map fun f => (id, f.2)
  preservation : isPreservation opts = true →
    events.length = efs.length ∧ events.Nodup ∧
      after.derivations = before.derivations ++
        List.zipWith (fun id event => ⟨opts.fileUUID, id, some event⟩) ids events ∧
      after.events.filter (isNormalization opts) = before.events.filter (isNormalization opts) ++
        List.zipWith (normalizationOf opts command) efs events
  others : isPreservation opts = false →
    after.derivations = before.derivations ++ ids.map fun id => ⟨opts.fileUUID, id, none⟩

-- The callback sets a failing code, or registers what the command wrote.
def Meets (uuid4 : ℕ → UUID) (before : Db) : Prop :=
  ∃ code after, onceNormalized disk checksumType uuid4 opts command before = .ok code after ∧
    ((∃ c, code = some c ∧ c ≠ 0) ∨ ∃ ids events,
      Registered disk checksumType opts command before after (transcodedFiles disk command) ids events)

-- There is one output file at most, and nothing is in the way of its rows.
def Single (before : Db) : Prop :=
  transcodedFiles disk command = [] ∨
    ((∃ ef, transcodedFiles disk command = [ef]) ∧ before.hasFile opts.taskUUID = false ∧
      before.sips.contains opts.sipUUID = true ∧ before.hasFile opts.fileUUID = true ∧
      command.outputFormat.isSome = true)

end Contract

-- The identifiers of the next calls are new, and differ from one another.
structure Fresh (uuid4 : ℕ → UUID) (db : Db) (n : ℕ) : Prop where
  new : ∀ i < n, db.hasEvent (uuid4 (db.calls + i)) = false
  inj : ∀ i < n, ∀ j < n, uuid4 (db.calls + i) = uuid4 (db.calls + j) → i = j

section Writes

variable {disk : Disk} {checksumType : Str} {uuid4 : ℕ → UUID} {opts : NormalizeArgs}
  {command : Command} {db db' : Db}

theorem write_ok_iff {accepts : Db → Bool} {change : Db → Db} {r : Unit} :
    write accepts change db = .ok r db' ↔ accepts db = true ∧ db' = change db := by
  unfold write
  split_ifs with h
  · constructor
    · intro hok
      cases hok
      exact ⟨h, rfl⟩
    · rintro ⟨-, rfl⟩
      rfl
  · constructor
    · intro hok
      cases hok
    · rintro ⟨hnot, -⟩
      exact absurd hnot h

theorem keeps_write {τ : Type} {p : Db → τ} {accepts : Db → Bool} {change : Db → Db}
    (h : ∀ db, p (change db) = p db) : Keeps p (write accepts change) := by
  intro db
  unfold write
  split_ifs
  · exact h db
  · rfl

-- The keys of the files, which only the first statement of the loop adds to.
def keys (db : Db) : List UUID := db.files.map (·.uuid)

theorem keeps_newUUID : Keeps keys (newUUID uuid4) := fun _ => rfl

theorem keeps_insertEvent (event : Event) : Keeps keys (insertEvent event) :=
  keeps_write fun _ => rfl

theorem keeps_insertIntoEvents (fileUUID : UUID) (eventType eventDetail note : Str) :
    Keeps keys (insertIntoEvents uuid4 fileUUID eventType eventDetail note) :=
  keeps_bind keeps_newUUID fun _ => keeps_insertEvent _

theorem keeps_updateSizeAndChecksum (filePath : Str) :
    Keeps keys (updateSizeAndChecksum disk checksumType uuid4 opts filePath) := by
  refine keeps_bind keeps_newUUID fun _ => keeps_bind (keeps_modify fun db => ?_) fun _ =>
    keeps_insertIntoEvents _ _ _ _
  rw [keys, keys, List.map_map]
  refine List.map_congr_left fun row _ => ?_
  rw [Function.comp_apply]
  split_ifs
  · rfl
  · rfl

theorem keeps_derive (derivationUUID : UUID) (eventDetail note : Str) :
    Keeps keys (derive opts derivationUUID eventDetail note) := by
  unfold derive
  split_ifs
  · exact keeps_bind (keeps_insertEvent _) fun _ => keeps_write fun _ => rfl
  · exact keeps_write fun _ => rfl

theorem keeps_identify : Keeps keys (identify opts command) := by
  unfold identify
  split
  · exact keeps_throw _
  · exact keeps_bind (keeps_write fun _ => rfl) fun _ => keeps_write fun _ => rfl

theorem hasFile_eq (db : Db) (uuid : UUID) : db.hasFile uuid = (keys db).contains uuid := rfl

-- A row of the task is new when its file is registered, and there afterwards.
theorem register_ok {derivationUUID : UUID} {eventDetail ef : Str} {r : Unit}
    (h : register disk checksumType uuid4 opts command derivationUUID eventDetail ef db = .ok r db') :
    db.hasFile opts.taskUUID = false ∧ db.sips.contains opts.sipUUID = true ∧
      keys db' = keys db ++ [opts.taskUUID] := by
  obtain ⟨_, db₁, hadd, h⟩ := bind_ok_iff.mp h
  obtain ⟨_, db₂, hupdate, h⟩ := bind_ok_iff.mp h
  obtain ⟨_, db₃, hderive, hidentify⟩ := bind_ok_iff.mp h
  obtain ⟨_, db₀, hinsert, hevent⟩ := bind_ok_iff.mp hadd
  obtain ⟨haccepts, rfl⟩ := write_ok_iff.mp hinsert
  rw [Bool.and_eq_true, Bool.not_eq_true'] at haccepts
  refine ⟨haccepts.1, haccepts.2, ?_⟩
  rw [keeps_identify.ok hidentify, (keeps_derive _ _ _).ok hderive,
    (keeps_updateSizeAndChecksum _).ok hupdate, (keeps_insertIntoEvents _ _ _ _).ok hevent]
  simp only [keys, List.map_append, List.map_cons, List.map_nil, newFile]

-- The second file finds the key of the first.
theorem registerAll_not_ok {derivationUUID : UUID} {ef ef' : Str} {rest : List Str} {r : Unit} :
    registerAll disk checksumType uuid4 opts command derivationUUID (ef :: ef' :: rest) db ≠
      .ok r db' := by
  intro h
  obtain ⟨_, db₁, hfirst, h⟩ := bind_ok_iff.mp h
  obtain ⟨_, db₂, hsecond, -⟩ := bind_ok_iff.mp h
  obtain ⟨-, -, hkeys⟩ := register_ok hfirst
  obtain ⟨hfresh, -, -⟩ := register_ok hsecond
  rw [hasFile_eq, hkeys, ← Bool.not_eq_true, List.contains_iff_mem] at hfresh
  exact hfresh (List.mem_append_right _ (List.mem_singleton_self _))

end Writes

section Single

variable {disk : Disk} {checksumType : Str} {uuid4 : ℕ → UUID} {opts : NormalizeArgs}
  {command : Command} {db : Db}

def creation (opts : NormalizeArgs) (eventId : UUID) : Event :=
  ⟨eventId, opts.taskUUID, "creation".toList, [], []⟩

def digest (disk : Disk) (checksumType : Str) (opts : NormalizeArgs) (ef : Str) (eventId : UUID) :
    Event :=
  ⟨eventId, opts.taskUUID, "message digest calculation".toList, digestDetail checksumType,
    disk.checksum ef⟩

theorem hasEvent_append {db' : Db} {e : Event} (hdb : db'.events = db.events ++ [e]) (uuid : UUID) :
    db'.hasEvent uuid = (db.hasEvent uuid || e.eventId = uuid) := by
  rw [Db.hasEvent, hdb, List.map_append, Bool.eq_iff_iff, Bool.or_eq_true, Db.hasEvent,
    List.contains_iff_mem, List.contains_iff_mem, decide_eq_true_eq, List.mem_append,
    List.map_singleton, List.mem_singleton, @eq_comm _ uuid]

theorem hasFile_of_keys {db' : Db} {uuid : UUID} (hkeys : keys db' = keys db ++ [opts.taskUUID])
    (h : uuid = opts.taskUUID ∨ db.hasFile uuid = true) : db'.hasFile uuid = true := by
  rw [hasFile_eq, hkeys, List.contains_iff_mem, List.mem_append, List.mem_singleton]
  exact h.symm.imp_left List.contains_iff_mem.mp

-- The tables with the row of a file, before its size is known and after.

def added (uuid4 : ℕ → UUID) (opts : NormalizeArgs) (location : Str) (db : Db) : Db :=
  { db with
    files := db.files ++ [newFile opts location]
    events := db.events ++ [creation opts (uuid4 db.calls)]
    calls := db.calls + 1 }

theorem keys_added (location : Str) : keys (added uuid4 opts location db) = keys db ++ [opts.taskUUID] := by
  simp only [keys, added, List.map_append, List.map_cons, List.map_nil, newFile]

theorem addFileToSIP_eq (location : Str) (hfile : db.hasFile opts.taskUUID = false)
    (hsip : db.sips.contains opts.sipUUID = true) (hnew : db.hasEvent (uuid4 db.calls) = false) :
    addFileToSIP uuid4 opts location db = .ok () (added uuid4 opts location db) := by
  refine bind_ok_iff.mpr ⟨(), _, write_ok_iff.mpr ⟨?_, rfl⟩, bind_ok_iff.mpr
    ⟨_, _, rfl, write_ok_iff.mpr ⟨?_, rfl⟩⟩⟩
  · rw [newFile, hfile, hsip]
    rfl
  · have hthere : (added uuid4 opts location db).hasFile opts.taskUUID = true :=
      hasFile_of_keys (keys_added location) (Or.inl rfl)
    rw [Bool.and_eq_true, Bool.not_eq_true']
    exact ⟨hnew, hthere⟩

def sized (disk : Disk) (checksumType : Str) (uuid4 : ℕ → UUID) (opts : NormalizeArgs) (ef : Str)
    (db : Db) : Db :=
  { db with
    files := db.files.map fun row =>
      if row.uuid = opts.taskUUID then setSizeAndChecksum disk checksumType ef row else row
    events := db.events ++ [digest disk checksumType opts ef (uuid4 (db.calls + 1))]
    calls := db.calls + 2 }

theorem keys_sized (ef : Str) : keys (sized disk checksumType uuid4 opts ef db) = keys db := by
  rw [keys, keys, sized, List.map_map]
  refine List.map_congr_left fun row _ => ?_
  rw [Function.comp_apply]
  split_ifs
  · rfl
  · rfl

theorem updateSizeAndChecksum_eq (ef : Str) (hfile : db.hasFile opts.taskUUID = true)
    (hnew : db.hasEvent (uuid4 (db.calls + 1)) = false) :
    updateSizeAndChecksum disk checksumType uuid4 opts ef db =
      .ok () (sized disk checksumType uuid4 opts ef db) := by
  have hthere : (sized disk checksumType uuid4 opts ef db).hasFile opts.taskUUID = true := by
    rw [hasFile_eq, keys_sized]
    exact hfile
  refine bind_ok_iff.mpr ⟨_, _, rfl, bind_ok_iff.mpr ⟨_, _, rfl, bind_ok_iff.mpr
    ⟨_, _, rfl, write_ok_iff.mpr ⟨?_, rfl⟩⟩⟩⟩
  rw [Bool.and_eq_true, Bool.not_eq_true']
  exact ⟨hnew, hthere⟩

def derived (opts : NormalizeArgs) (derivationUUID : UUID) (eventDetail note : Str) (db : Db) : Db :=
  if isPreservation opts then
    { db with
      events := db.events ++
        [⟨derivationUUID, opts.fileUUID, "normalization".toList, eventDetail, note⟩]
      derivations := db.derivations ++ [⟨opts.fileUUID, opts.taskUUID, some derivationUUID⟩] }
  else { db with derivations := db.derivations ++ [⟨opts.fileUUID, opts.taskUUID, none⟩] }

theorem derive_eq (derivationUUID : UUID) (eventDetail note : Str)
    (horiginal : db.hasFile opts.fileUUID = true) (hfile : db.hasFile opts.taskUUID = true)
    (hnew : db.hasEvent derivationUUID = false) :
    derive opts derivationUUID eventDetail note db =
      .ok () (derived opts derivationUUID eventDetail note db) := by
  unfold derive derived
  split_ifs
  · refine bind_ok_iff.mpr ⟨(), _, write_ok_iff.mpr ⟨?_, rfl⟩, write_ok_iff.mpr ⟨?_, rfl⟩⟩
    · rw [hnew, horiginal]
      rfl
    · have hevent : ({ db with events := db.events ++
          [⟨derivationUUID, opts.fileUUID, "normalization".toList, eventDetail, note⟩] } : Db).hasEvent
            derivationUUID = true := by
        rw [@hasEvent_append db _ _ rfl, Bool.or_eq_true, decide_eq_true_eq]
        exact Or.inr rfl
      rw [Bool.and_eq_true, Bool.and_eq_true]
      exact ⟨⟨horiginal, hfile⟩, hevent⟩
  · refine write_ok_iff.mpr ⟨?_, rfl⟩
    rw [Bool.and_eq_true, Bool.and_eq_true]
    exact ⟨⟨horiginal, hfile⟩, rfl⟩

def identified (opts : NormalizeArgs) (version : UUID) (description : Str) (db : Db) : Db :=
  { db with
    formatVersions := db.formatVersions ++ [(opts.taskUUID, version)]
    fileIDs := db.fileIDs ++ [(opts.taskUUID, description)] }

theorem identify_eq {version : UUID} {description : Str}
    (hformat : command.outputFormat = some (version, description))
    (hfile : db.hasFile opts.taskUUID = true) :
    identify opts command db = .ok () (identified opts version description db) := by
  unfold identify
  rw [hformat]
  exact bind_ok_iff.mpr ⟨(), _, write_ok_iff.mpr ⟨hfile, rfl⟩, write_ok_iff.mpr ⟨hfile, rfl⟩⟩

-- The tables after the one file has been registered.
def final (disk : Disk) (checksumType : Str) (uuid4 : ℕ → UUID) (opts : NormalizeArgs)
    (derivationUUID : UUID) (eventDetail ef : Str) (format : UUID × Str) (db : Db) : Db :=
  identified opts format.1 format.2 (derived opts derivationUUID eventDetail (relativeToSIP opts ef)
    (sized disk checksumType uuid4 opts ef (added uuid4 opts (relativeToSIP opts ef) db)))

theorem keys_derived (derivationUUID : UUID) (eventDetail note : Str) :
    keys (derived opts derivationUUID eventDetail note db) = keys db := by
  unfold derived
  split_ifs
  · rfl
  · rfl

theorem register_eq {derivationUUID : UUID} {format : UUID × Str} (eventDetail ef : Str)
    (hfile : db.hasFile opts.taskUUID = false) (hsip : db.sips.contains opts.sipUUID = true)
    (horiginal : db.hasFile opts.fileUUID = true) (hformat : command.outputFormat = some format)
    (hfresh : Fresh uuid4 db 3) (hderivation : db.hasEvent derivationUUID = false)
    (hother : ∀ i < 3, uuid4 (db.calls + i) ≠ derivationUUID) :
    register disk checksumType uuid4 opts command derivationUUID eventDetail ef db =
      .ok () (final disk checksumType uuid4 opts derivationUUID eventDetail ef format db) := by
  have hkeys := @keys_added uuid4 opts db (relativeToSIP opts ef)
  have hthere := hasFile_of_keys hkeys (Or.inl rfl)
  have hevent : ∀ uuid, (added uuid4 opts (relativeToSIP opts ef) db).hasEvent uuid =
      (db.hasEvent uuid || uuid4 db.calls = uuid) :=
    @hasEvent_append db (added uuid4 opts (relativeToSIP opts ef) db) (creation opts (uuid4 db.calls))
      rfl
  have hsized : keys (sized disk checksumType uuid4 opts ef
      (added uuid4 opts (relativeToSIP opts ef) db)) = keys db ++ [opts.taskUUID] :=
    (keys_sized ef).trans hkeys
  refine bind_ok_iff.mpr ⟨(), _, addFileToSIP_eq _ hfile hsip (hfresh.new 0 (by omega)), bind_ok_iff.mpr
    ⟨(), _, updateSizeAndChecksum_eq ef hthere ?_, bind_ok_iff.mpr
      ⟨(), _, derive_eq _ _ _ ?_ ?_ ?_, identify_eq hformat ?_⟩⟩⟩
  · have hcalls : (added uuid4 opts (relativeToSIP opts ef) db).calls + 1 = db.calls + 2 := rfl
    rw [hevent, hcalls, hfresh.new 2 (by omega), Bool.false_or, decide_eq_false_iff_not]
    intro heq
    have hindex := hfresh.inj 0 (by omega) 2 (by omega) heq
    omega
  · exact hasFile_of_keys hsized (Or.inr horiginal)
  · exact hasFile_of_keys hsized (Or.inl rfl)
  · have hlast := @hasEvent_append (added uuid4 opts (relativeToSIP opts ef) db) (sized disk
      checksumType uuid4 opts ef (added uuid4 opts (relativeToSIP opts ef) db))
      (digest disk checksumType opts ef (uuid4 (db.calls + 2))) rfl derivationUUID
    have hfirst : uuid4 db.calls ≠ derivationUUID := hother 0 (by omega)
    have hsecond : (digest disk checksumType opts ef (uuid4 (db.calls + 2))).eventId ≠
        derivationUUID := hother 2 (by omega)
    rw [hlast, hevent, hderivation, decide_eq_false hfirst, decide_eq_false hsecond]
    rfl
  · rw [hasFile_eq, keys_derived]
    exact hasFile_of_keys hsized (Or.inl rfl)

theorem registered_final {derivationUUID : UUID} {format : UUID × Str} {before : Db} {ef : Str}
    (hfiles : db.files = before.files) (hevents : db.events = before.events)
    (hderivations : db.derivations = before.derivations)
    (hversions : db.formatVersions = before.formatVersions) (hids : db.fileIDs = before.fileIDs)
    (hfile : before.hasFile opts.taskUUID = false) (horiginal : before.hasFile opts.fileUUID = true)
    (hformat : command.outputFormat = some format) :
    Registered disk checksumType opts command before
      (final disk checksumType uuid4 opts derivationUUID (eventDetailOutput command) ef format db)
      [ef] [opts.taskUUID] [derivationUUID] where
  length := rfl
  nodup := List.nodup_singleton _
  fresh id hid := List.mem_singleton.mp hid ▸ hfile
  original _ := horiginal
  files := by
    have hfinal : (final disk checksumType uuid4 opts derivationUUID (eventDetailOutput command) ef
        format db).files = (db.files ++ [newFile opts (relativeToSIP opts ef)]).map fun row =>
          if row.uuid = opts.taskUUID then setSizeAndChecksum disk checksumType ef row else row := by
      unfold final identified derived
      split_ifs
      · rfl
      · rfl
    have hothers : ∀ row ∈ before.files, row.uuid ≠ opts.taskUUID := by
      intro row hrow heq
      have hmem : opts.taskUUID ∈ keys before := heq ▸ List.mem_map_of_mem hrow
      rw [hasFile_eq, ← Bool.not_eq_true, List.contains_iff_mem] at hfile
      exact hfile hmem
    have hsame : (before.files.map fun row =>
        if row.uuid = opts.taskUUID then setSizeAndChecksum disk checksumType ef row else row) =
          before.files := by
      conv_rhs => rw [← List.map_id before.files]
      exact List.map_congr_left fun row hrow => if_neg (hothers row hrow)
    have huuid : (newFile opts (relativeToSIP opts ef)).uuid = opts.taskUUID := rfl
    rw [hfinal, hfiles, List.map_append, List.map_singleton, hsame, if_pos huuid]
    rfl
  identified _ := by rw [hformat]; rfl
  formatVersions := by
    have hfinal : (final disk checksumType uuid4 opts derivationUUID (eventDetailOutput command) ef
        format db).formatVersions = db.formatVersions ++ [(opts.taskUUID, format.1)] := by
      unfold final identified derived
      split_ifs
      · rfl
      · rfl
    rw [hfinal, hversions, hformat]
    rfl
  fileIDs := by
    have hfinal : (final disk checksumType uuid4 opts derivationUUID (eventDetailOutput command) ef
        format db).fileIDs = db.fileIDs ++ [(opts.taskUUID, format.2)] := by
      unfold final identified derived
      split_ifs
      · rfl
      · rfl
    rw [hfinal, hids, hformat]
    rfl
  preservation hpreservation := by
    refine ⟨rfl, List.nodup_singleton _, ?_, ?_⟩
    · have hfinal : (final disk checksumType uuid4 opts derivationUUID (eventDetailOutput command) ef
          format db).derivations =
            db.derivations ++ [⟨opts.fileUUID, opts.taskUUID, some derivationUUID⟩] := by
        unfold final identified derived
        rw [if_pos hpreservation]
        rfl
      rw [hfinal, hderivations]
      rfl
    · have hfinal : (final disk checksumType uuid4 opts derivationUUID (eventDetailOutput command) ef
          format db).events = db.events ++ [creation opts (uuid4 db.calls)] ++
            [digest disk checksumType opts ef (uuid4 (db.calls + 2))] ++
              [normalizationOf opts command ef derivationUUID] := by
        unfold final identified derived
        rw [if_pos hpreservation]
        rfl
      have hnot : ∀ e : Event, e.eventType ≠ "normalization".toList → isNormalization opts e = false := by
        intro e he
        rw [isNormalization, decide_eq_false he, Bool.and_false]
      have his : isNormalization opts (normalizationOf opts command ef derivationUUID) = true := by
        simp [isNormalization, normalizationOf]
      rw [hfinal, hevents, List.filter_append, List.filter_append, List.filter_append,
        List.filter_singleton, List.filter_singleton, List.filter_singleton, his,
        hnot (creation opts (uuid4 db.calls)) (by simp only [creation]; decide),
        hnot (digest disk checksumType opts ef (uuid4 (db.calls + 2))) (by simp only [digest]; decide)]
      simp
  others hothers := by
    have hfinal : (final disk checksumType uuid4 opts derivationUUID (eventDetailOutput command) ef
        format db).derivations = db.derivations ++ [⟨opts.fileUUID, opts.taskUUID, none⟩] := by
      unfold final identified derived
      rw [if_neg (by simp [hothers])]
      rfl
    rw [hfinal, hderivations]
    rfl

end Single

-- What the callback does where there is nothing to register.
theorem registered_nil {disk : Disk} {checksumType : Str} {opts : NormalizeArgs} {command : Command}
    {before after : Db} (hfiles : after.files = before.files) (hevents : after.events = before.events)
    (hderivations : after.derivations = before.derivations)
    (hversions : after.formatVersions = before.formatVersions) (hids : after.fileIDs = before.fileIDs) :
    Registered disk checksumType opts command before after [] [] [] where
  length := rfl
  nodup := List.nodup_nil
  fresh := nofun
  original h := absurd rfl h
  files := by simp [hfiles]
  identified h := absurd rfl h
  formatVersions := by simp [hversions]
  fileIDs := by simp [hids]
  preservation _ := ⟨rfl, List.nodup_nil, by simp [hderivations], by simp [hevents]⟩
  others _ := by simp [hderivations]

theorem exitCode_of_ne_nil {disk : Disk} {command : Command} (h : transcodedFiles disk command ≠ []) :
    exitCode disk command = none := by
  by_cases hfile : disk.isfile (outputLocation command) = true
  · simp [exitCode, hfile]
  · by_cases hdir : disk.isdir (outputLocation command) = true
    · simp [exitCode, hdir]
    · exact absurd (by rw [transcodedFiles, if_neg hfile, if_neg hdir]) h

-- The command's output is registered exactly where there is one file of it at most.
theorem meets_iff {disk : Disk} {uuid4 : ℕ → UUID} {opts : NormalizeArgs} {before : Db}
    (checksumType : Str) (command : Command) (hpurpose : isThumbnails opts = false)
    (hfresh : Fresh uuid4 before (1 + 3 * (transcodedFiles disk command).length)) :
    Meets disk checksumType opts command uuid4 before ↔ Single disk opts command before := by
  have hrun : onceNormalized disk checksumType uuid4 opts command before =
      (do
        registerAll disk checksumType uuid4 opts command (uuid4 before.calls)
          (transcodedFiles disk command)
        return exitCode disk command) { before with calls := before.calls + 1 } := by
    unfold onceNormalized
    rw [hpurpose]
    rfl
  rw [Meets, hrun]
  constructor
  · rintro ⟨code, after, hok, hmeets⟩
    obtain ⟨_, db, hall, hcode⟩ := bind_ok_iff.mp hok
    obtain ⟨rfl, rfl⟩ := pure_ok_iff.mp hcode
    match hefs : transcodedFiles disk command with
    | [] => exact Or.inl hefs
    | [ef] =>
        rw [hefs] at hall hmeets
        obtain ⟨_, db, hregister, -⟩ := bind_ok_iff.mp hall
        obtain ⟨hfile, hsip, -⟩ := register_ok hregister
        rcases hmeets with ⟨c, hc, -⟩ | ⟨ids, events, hregistered⟩
        · rw [exitCode_of_ne_nil (by simp [hefs])] at hc
          cases hc
        · exact Or.inr ⟨⟨ef, hefs⟩, hfile, hsip, hregistered.original (by simp),
            hregistered.identified (by simp)⟩
    | ef :: ef' :: rest =>
        rw [hefs] at hall
        exact absurd hall registerAll_not_ok
  · rintro (hefs | ⟨⟨ef, hefs⟩, hfile, hsip, horiginal, hformat⟩)
    · rw [hefs]
      exact ⟨exitCode disk command, _, bind_ok_iff.mpr ⟨(), _, rfl, rfl⟩, Or.inr
        ⟨[], [], registered_nil rfl rfl rfl rfl rfl⟩⟩
    · obtain ⟨format, hformat⟩ := Option.isSome_iff_exists.mp hformat
      rw [hefs] at hfresh
      have hshift : ∀ i, before.calls + 1 + i = before.calls + (1 + i) := fun i => Nat.add_assoc _ 1 i
      have hfresh' : Fresh uuid4 { before with calls := before.calls + 1 } 3 := by
        refine ⟨fun i hi => ?_, fun i hi j hj heq => ?_⟩
        · have hnew := hfresh.new (1 + i) (by simp; omega)
          rwa [← hshift i] at hnew
        · simp only [hshift] at heq
          have hindex := hfresh.inj (1 + i) (by simp; omega) (1 + j) (by simp; omega) heq
          omega
      have hother : ∀ i < 3, uuid4 (before.calls + 1 + i) ≠ uuid4 before.calls := by
        intro i hi heq
        rw [hshift i] at heq
        have hindex := hfresh.inj (1 + i) (by simp; omega) 0 (by simp) heq
        omega
      have hregister := @register_eq disk checksumType uuid4 opts command
        { before with calls := before.calls + 1 } (uuid4 before.calls) format
        (eventDetailOutput command) ef hfile hsip horiginal hformat hfresh'
        (hfresh.new 0 (by simp)) hother
      rw [hefs]
      refine ⟨exitCode disk command, _, bind_ok_iff.mpr ⟨(), _, bind_ok_iff.mpr
        ⟨(), _, hregister, rfl⟩, rfl⟩, Or.inr ⟨[opts.taskUUID], [uuid4 before.calls], ?_⟩⟩
      exact registered_final rfl rfl rfl rfl rfl hfile horiginal hformat

section Examples

def original : File :=
  ⟨⟨1⟩, ⟨2⟩, "%SIPDirectory%objects/a.doc".toList, "%SIPDirectory%objects/a.doc".toList,
    "original".toList, some 1, [], []⟩

def sip : Db := ⟨[⟨2⟩], [original], [], [], [], [], 0⟩

def args : NormalizeArgs := ⟨"access".toList, ⟨1⟩, "/sip/".toList, ⟨2⟩, ⟨3⟩⟩

def toDirectory : Command := ⟨⟨4⟩, some "/sip/DIP/objects/a".toList, some (⟨5⟩, "JPEG".toList), none⟩

-- A directory with so many pages in it.
def pages (names : List Str) : Disk where
  isfile path := path ≠ [] && path ≠ "/sip/DIP/objects/a".toList
  isdir path := path = "/sip/DIP/objects/a".toList
  walk path := [(path, names)]
  getsize _ := 1
  checksum path := path
  empty := ⟨rfl, rfl⟩

def numbered (n : ℕ) : UUID := ⟨BitVec.ofNat 128 (n + 10)⟩

theorem fresh_numbered (n : ℕ) (h : n ≤ 8) : Fresh numbered sip n := by
  have hinj : ∀ i < 8, ∀ j < 8, numbered i = numbered j → i = j := by decide
  refine ⟨fun _ _ => rfl, fun i hi j hj heq => ?_⟩
  have hcalls : ∀ k, sip.calls + k = k := fun k => Nat.zero_add k
  rw [hcalls, hcalls] at heq
  exact hinj i (by omega) j (by omega) heq

theorem meets_onePage : Meets (pages ["1.jpg".toList]) "sha256".toList args toDirectory numbered sip := by
  refine (meets_iff "sha256".toList toDirectory (by decide) (fresh_numbered _ (by decide))).mpr
    (Or.inr ⟨⟨"/sip/DIP/objects/a/1.jpg".toList, by decide⟩, by decide, by decide, by decide, by decide⟩)

-- The second page gets the identifier of the first.
theorem twoPages_integrityError :
    (∃ db, onceNormalized (pages ["1.jpg".toList, "2.jpg".toList]) "sha256".toList numbered args
      toDirectory sip = .error .integrityError db) ∧
    ¬ Meets (pages ["1.jpg".toList, "2.jpg".toList]) "sha256".toList args toDirectory numbered sip := by
  have herror : ∃ db, onceNormalized (pages ["1.jpg".toList, "2.jpg".toList]) "sha256".toList numbered
      args toDirectory sip = .error .integrityError db := ⟨_, rfl⟩
  refine ⟨herror, ?_⟩
  rintro ⟨code, after, hok, -⟩
  obtain ⟨db, herror⟩ := herror
  rw [herror] at hok
  cases hok

end Examples

end Ccp.Worker.OnceNormalized
