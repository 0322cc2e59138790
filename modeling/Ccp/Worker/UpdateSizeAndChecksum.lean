import Ccp.Lib.Table
import Ccp.Lib.Text
import Ccp.Worker.ParseMets.Files

namespace Ccp.Worker.UpdateSizeAndChecksum

open Lib

-- The rows of the tables.

structure Transfer where
  uuid : UUID
  type : Str
deriving DecidableEq

structure File where
  uuid : UUID
  transfer : Option Transfer
  sip : Option UUID
  currentlocation : Option Str
  size : Option ℤ
  checksum : Str
  checksumtype : Str
deriving DecidableEq

def archivematicaAIP : Str := "Archivematica AIP".toList

def File.inReingestedAip (f : File) : Bool :=
  (f.transfer.any fun transfer => transfer.type = archivematicaAIP) && f.sip.isNone

structure Event where
  fileUUID : UUID
  eventType : Str
  eventDetail : Str
  eventOutcomeDetail : Str
deriving DecidableEq

-- The derivations and the formats are pairs of a file and what belongs to it.
@[ext] structure Db where
  files : List File
  events : List Event
  derivations : List (UUID × UUID)
  formats : List (UUID × UUID)
  nodup : (files.map File.uuid).Nodup

-- The METS file as metsrw gives it, where get_file looks for the text of an identifier.

structure Relationship where
  subType : Option Str
  relatedEvent : Option Str
  relatedObject : Option Str

structure PremisObject where
  size : Option Str
  messageDigest : Option Str
  messageDigestAlgorithm : Option Str
  relationship : List Relationship

structure FSEntry where
  use : Option Str
  premisObjects : List PremisObject
  -- the type of an event of the file
  premisEvent : Option Str → Option Str
  -- the documents of the PREMIS objects in its first amdSec
  documents : List ParseMets.Files.PremisObject

structure Mets where
  getFile : Option Str → Option FSEntry

-- What is at a path: its size and the checksums of it, those that do not raise.
structure Entry where
  size : ℕ
  digest : Str → Option Str

-- What the script finds outside of the tables that it writes to.
structure World where
  disk : Str → Option Entry
  -- the setting, and the only METS file in the metadata of a directory
  checksumType : Str
  findMetsFile : Str → Option Str
  fromfile : Str → Option Mets
  fpr : ParseMets.Files.Fpr
  -- UUIDField's to_python, and Python's int for a number that the column can hold
  toPython : Str → Option UUID
  toInt : Str → Option ℤ

inductive Size
  | number (n : ℕ)
  | text (s : Str)
deriving DecidableEq

def Size.truthy : Size → Bool
  | number n => n ≠ 0
  | text s => s ≠ []

def Size.toInt (w : World) : Size → Option ℤ
  | number n => some n
  | text s => w.toInt s

-- What the METS file says of a file.
structure MetsInfo where
  fileSize : Option Str
  checksum : Option Str
  checksumType : Option Str
  derivation : Option Str
  formatVersion : Option UUID

-- The keywords of updateSizeAndChecksum as they are before the file is read.
structure Keywords where
  fileSize : Option Str
  checksum : Option Str
  checksumType : Option Str
  addEvent : Bool
  derivation : Option Str
  formatVersion : Option UUID

structure Sized where
  fileSize : Size
  checksum : Str
  checksumType : Str
deriving DecidableEq

structure FileInfo where
  filePath : Str
  sized : Sized
  addEvent : Bool
  derivation : Option Str
  formatVersion : Option UUID

structure Args where
  sipUUID : Option UUID
  transferUUID : Option UUID
  sipDirectory : Str
  filterSubdir : Option Str

section Read

variable (w : World)

def truthy (s : Option Str) : Option Str := s.filter (· ≠ [])

-- Nothing where the file cannot be read.
def getSizeAndChecksum (filePath : Str) (fileSize : Option Size) (checksum checksumType : Option Str) :
    Option Sized :=
  let type := (truthy checksumType).getD w.checksumType
  ((fileSize.filter Size.truthy).or ((w.disk filePath).map fun entry => .number entry.size)).bind fun size =>
    ((truthy checksum).or ((w.disk filePath).bind fun entry => entry.digest type)).map fun checksum =>
      ⟨size, checksum, type⟩

-- A preservation copy that the METS file has.
def isDerivation (mets : Mets) (fsentry : FSEntry) (relationship : Relationship) : Bool :=
  relationship.subType = some "is source of".toList &&
    fsentry.premisEvent relationship.relatedEvent = some "normalization".toList &&
      (mets.getFile relationship.relatedObject).bind (·.use) = some "preservation".toList

-- The inner value is missing where the METS file does not describe the file, the outer one where
-- the look-up raises.
def getFileInfoFromMets (mets : Mets) (f : File) : Option (Option MetsInfo) :=
  match mets.getFile (some f.uuid.string) with
  | none => some none
  | some fsentry =>
      match fsentry.premisObjects.head? with
      | none => some none
      | some object => fsentry.documents.head?.bind fun document =>
          (ParseMets.Files.parseFormatVersion w.fpr document).map fun formatVersion =>
            some
              { fileSize := object.size
                checksum := object.messageDigest
                checksumType := object.messageDigestAlgorithm
                derivation := (object.relationship.find? (isDerivation mets fsentry)).bind (·.relatedObject)
                formatVersion := formatVersion }

def keywords (mets : Option Mets) (f : File) : Option Keywords :=
  match mets with
  | none => some ⟨none, none, none, true, none, none⟩
  | some mets =>
      if f.inReingestedAip then
        -- without a description the first key is missing, which raises
        (getFileInfoFromMets w mets f).join.map fun info =>
          ⟨info.fileSize, info.checksum, info.checksumType, false, truthy info.derivation, info.formatVersion⟩
      else some ⟨none, none, none, true, none, none⟩

def replacementPathString (args : Args) : Str :=
  if args.transferUUID.isSome then "%transferDirectory%".toList else "%SIPDirectory%".toList

def pathOf (args : Args) (location : Str) : Str :=
  replaceAll location (replacementPathString args) args.sipDirectory

-- The inner value is missing where there is no file.
def getSizeAndChecksumForFile (mets : Option Mets) (args : Args) (f : File) : Option (Option FileInfo) :=
  f.currentlocation.bind fun location =>
    if (w.disk (pathOf args location)).isSome then
      (keywords w mets f).bind fun kw =>
        (getSizeAndChecksum w (pathOf args location) (kw.fileSize.map .text) kw.checksum kw.checksumType).map
          fun sized => some ⟨pathOf args location, sized, kw.addEvent, kw.derivation, kw.formatVersion⟩
    else some none

end Read

section Call

variable (w : World)

-- A file with what was read for it in the first pass.
structure Pending where
  fileUUID : UUID
  info : FileInfo

def filterQuerysetBySubdir (files : List File) (path : Str) (filterSubdir : Option Str) : List File :=
  match truthy filterSubdir with
  | none => files
  | some subdir => files.filter fun f => f.currentlocation.any fun location => (path ++ subdir).isPrefixOf location

def getFiles (db : Db) (args : Args) : List File :=
  match args.sipUUID with
  | some sip =>
      filterQuerysetBySubdir (db.files.filter fun f => f.sip = some sip) "%SIPDirectory%".toList args.filterSubdir
  | none =>
      filterQuerysetBySubdir (db.files.filter fun f => f.transfer.map Transfer.uuid = args.transferUUID)
        "%transferDirectory%".toList args.filterSubdir

-- What is read before an error, and whether there was none.
def collectFiles (mets : Option Mets) (args : Args) : List File → List Pending × Bool
  | [] => ([], true)
  | f :: files =>
      match getSizeAndChecksumForFile w mets args f with
      | none => ([], false)
      | some none => collectFiles mets args files
      | some (some info) =>
          let rest := collectFiles mets args files
          (⟨f.uuid, info⟩ :: rest.1, rest.2)

-- Nothing where the METS file cannot be read.
def readMets (sipDirectory : Str) : Option (Option Mets) :=
  match w.findMetsFile sipDirectory with
  | none => some none
  | some path => (w.fromfile path).map some

-- The status of a job, which an error makes one, and what it has read.
def runJob (db : Db) (args : Args) : ℕ × List Pending :=
  if args.sipUUID.isSome = args.transferUUID.isSome then (2, [])
  else
    match readMets w args.sipDirectory with
    | none => (1, [])
    | some mets =>
        let result := collectFiles w mets args (getFiles db args)
        (if result.2 then 0 else 1, result.1)

def setSized (size : ℤ) (sized : Sized) (f : File) : File :=
  { f with size := some size, checksum := sized.checksum, checksumtype := sized.checksumType }

theorem nodup_update {files : List File} (h : (files.map File.uuid).Nodup) (uuid : UUID) (size : ℤ)
    (sized : Sized) :
    ((files.map fun f => if f.uuid = uuid then setSized size sized f else f).map File.uuid).Nodup := by
  have hsame : File.uuid ∘ (fun f => if f.uuid = uuid then setSized size sized f else f) = File.uuid := by
    funext f
    rw [Function.comp_apply]
    split_ifs <;> rfl
  rwa [List.map_map, hsame]

def messageDigest (uuid : UUID) (sized : Sized) : Event where
  fileUUID := uuid
  eventType := "message digest calculation".toList
  eventDetail := "program=\"python\"; module=\"hashlib.".toList ++ sized.checksumType ++ "()\"".toList
  eventOutcomeDetail := sized.checksum

-- Nothing where it raises, here and in what follows.
def updateSizeAndChecksum (db : Db) (uuid : UUID) (info : FileInfo) : Option Db :=
  (getSizeAndChecksum w info.filePath (some info.sized.fileSize) (some info.sized.checksum)
    (some info.sized.checksumType)).bind fun sized =>
      (sized.fileSize.toInt w).map fun size =>
        { db with
          files := db.files.map fun f => if f.uuid = uuid then setSized size sized f else f
          events := if info.addEvent then db.events ++ [messageDigest uuid sized] else db.events
          nodup := nodup_update db.nodup uuid size sized }

-- The file that is derived has to have a row.
def insertIntoDerivations (db : Db) (uuid : UUID) (derivation : Str) : Option Db :=
  (w.toPython derivation).bind fun derived =>
    if (db.files.map File.uuid).contains derived then
      some { db with derivations := db.derivations ++ [(uuid, derived)] }
    else none

def insertDerivation (db : Db) (uuid : UUID) : Option Str → Option Db
  | none => some db
  | some derivation => insertIntoDerivations w db uuid derivation

def applyInfo (db : Db) (pending : Pending) : Option Db :=
  (insertDerivation w db pending.fileUUID pending.info.derivation).bind fun db =>
    updateSizeAndChecksum w
      { db with formats := db.formats ++ (pending.info.formatVersion.map (pending.fileUUID, ·)).toList }
      pending.fileUUID pending.info

-- All jobs are read first, then one transaction writes.
def call (jobs : List Args) (db : Db) : List ℕ × Option Db :=
  let results := jobs.map (runJob w db)
  (results.map Prod.fst, (results.flatMap Prod.snd).foldlM (applyInfo w) db)

end Call

section Wanted

variable (w : World) (db : Db)

-- The two kinds of units that the script is called for.
inductive UnitArgs
  | sip (uuid : UUID)
  | transfer (uuid : UUID)

def argsOf (unit : UnitArgs) (sipDirectory : Str) (filterSubdir : Option Str) : Args :=
  match unit with
  | .sip uuid => ⟨some uuid, none, sipDirectory, filterSubdir⟩
  | .transfer uuid => ⟨none, some uuid, sipDirectory, filterSubdir⟩

variable (args : Args)

-- What is on disk for a row.
def entryOf (f : File) : Option Entry := f.currentlocation.bind fun location => w.disk (pathOf args location)

-- The METS file where there is one and it can be read.
def metsOf : Option Mets := (readMets w args.sipDirectory).join

-- The entry of a reingested file with its PREMIS object.
def describedIn (mets : Mets) (f : File) : Option (FSEntry × PremisObject) :=
  (mets.getFile (some f.uuid.string)).bind fun fsentry =>
    fsentry.premisObjects.head?.map fun object => (fsentry, object)

def described (f : File) : Option PremisObject :=
  if f.inReingestedAip then (metsOf w args).bind fun mets => (describedIn mets f).map Prod.snd else none

-- The values of the METS file, as far as it has them, or else those of the file.

def wantedType (f : File) : Str :=
  (truthy ((described w args f).bind (·.messageDigestAlgorithm))).getD w.checksumType

def wantedChecksum (f : File) (entry : Entry) : Option Str :=
  (truthy ((described w args f).bind (·.messageDigest))).or (entry.digest (wantedType w args f))

def wantedSize (f : File) (entry : Entry) : Size :=
  ((truthy ((described w args f).bind (·.size))).map Size.text).getD (.number entry.size)

def wanted (f : File) : Option (ℤ × Sized) :=
  (entryOf w args f).bind fun entry =>
    (wantedChecksum w args f entry).bind fun checksum =>
      ((wantedSize w args f entry).toInt w).map fun size =>
        (size, ⟨wantedSize w args f entry, checksum, wantedType w args f⟩)

def inUnit (f : File) : Prop := f ∈ getFiles db args

instance (f : File) : Decidable (inUnit db args f) := inferInstanceAs (Decidable (f ∈ getFiles db args))

def expectedFile (f : File) : File :=
  if inUnit db args f then (wanted w args f).elim f fun pair => setSized pair.1 pair.2 f else f

def expectedEvent (f : File) : Option Event :=
  if (described w args f).isSome then none
  else (wanted w args f).map fun pair => messageDigest f.uuid pair.2

-- The call does not fail, and the rows of the unit whose files are on disk have their values.
structure Contract : Prop where
  exists_db : ∃ db', call w [args] db = ([0], some db') ∧ db'.files = db.files.map (expectedFile w db args) ∧
    db'.events = db.events ++ (getFiles db args).filterMap (expectedEvent w args)

-- What the METS file has to say of a reingested file.
structure ClearMets (mets : Mets) (f : File) : Prop where
  described : ∃ fsentry object, mets.getFile (some f.uuid.string) = some fsentry ∧
    fsentry.premisObjects.head? = some object ∧
    (∃ document, fsentry.documents.head? = some document ∧
      (ParseMets.Files.parseFormatVersion w.fpr document).isSome = true) ∧
    ∀ derivation, truthy ((object.relationship.find? (isDerivation mets fsentry)).bind (·.relatedObject)) =
      some derivation → ∃ derived, w.toPython derivation = some derived ∧ derived ∈ db.files.map File.uuid

structure ClearFile (f : File) : Prop where
  location : f.currentlocation.isSome = true
  mets : ∀ mets, metsOf w args = some mets → f.inReingestedAip = true → (entryOf w args f).isSome = true →
    ClearMets w db mets f
  values : (entryOf w args f).isSome = true → (wanted w args f).isSome = true

structure Clear : Prop where
  mets : (readMets w args.sipDirectory).isSome = true
  files : ∀ f ∈ getFiles db args, ClearFile w db args f

end Wanted

end Ccp.Worker.UpdateSizeAndChecksum
