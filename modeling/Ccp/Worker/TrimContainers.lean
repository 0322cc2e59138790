import Ccp.Lib.PosixPath
import Ccp.Worker.CreateSIP

namespace Ccp.Worker.TrimContainers

open Lib Calls FileOperations
open CreateSIP (requiredDirectories manualNormalizationDirectories resolve)

-- The exceptions that end the script.
inductive PyError
  | attributeError (name : Str)
  | typeError
  | indexError
  | validationError
  | osError
deriving DecidableEq

section Values

-- str.encode
def encode (s : Str) : List UInt8 := s.flatMap String.utf8EncodeChar

def hexPair (b : UInt8) : Str := [UUID.hexDigit (b.toNat / 16), UUID.hexDigit (b.toNat % 16)]

-- The text of bytes as a literal, with the quote that they do not have themselves.
def reprBytes (b : List UInt8) : Str :=
  let single := (39 : UInt8)
  let double := (34 : UInt8)
  let quote := if b.contains single && !b.contains double then double else single
  let escaped := b.flatMap fun c =>
    if c = quote || c = 92 then ['\\', Char.ofNat c.toNat]
    else if c = 9 then ['\\', 't']
    else if c = 10 then ['\\', 'n']
    else if c = 13 then ['\\', 'r']
    else if c < 32 || 127 ≤ c then '\\' :: 'x' :: hexPair c
    else [Char.ofNat c.toNat]
  'b' :: Char.ofNat quote.toNat :: escaped ++ [Char.ofNat quote.toNat]

-- What a path of a file can be in Python.
inductive Value
  | text (s : Str)
  | bytes (b : List UInt8)
deriving DecidableEq

def Value.str : Value → Str
  | .text s => s
  | .bytes b => reprBytes b

-- The method replace takes texts for a text and bytes for bytes.
def Value.replace : Value → Value → Value → Except PyError Value
  | .text s, .text old, .text new => .ok (.text (replaceAll s old new))
  | .bytes b, .bytes old, .bytes new => .ok (.bytes (replaceAll b old new))
  | _, _, _ => .error .typeError

-- What the column of a location is saved as.
def Value.stored : Value → List UInt8
  | .text s => encode s
  | .bytes b => b

def deUnicode (unicodeString : Option Value) : Option Value :=
  unicodeString.map fun value => .bytes (encode value.str)

-- An attribute of a job: one of the fields that it is made with, or a method.
inductive Attribute
  | text (s : Str)
  | list (l : List Str)
  | other
deriving DecidableEq

structure Job where
  name : Str
  uuid : Str
  arguments : List Str
deriving DecidableEq

def Job.fields (job : Job) : List (Str × Attribute) :=
  [("name".toList, .text job.name), ("uuid".toList, .text job.uuid),
    ("args".toList, .list (job.name :: job.arguments)), ("capture_output".toList, .other),
    ("int_code".toList, .other), ("status_code".toList, .text []), ("output".toList, .text []),
    ("error".toList, .text []), ("start_time".toList, .other), ("end_time".toList, .other)]

def Job.methods : List Str :=
  ["bulk_set_start_times".toList, "bulk_mark_failed".toList, "log_results".toList,
    "update_task_status".toList, "set_status".toList, "write_output".toList, "write_error".toList,
    "print_output".toList, "print_error".toList, "pyprint".toList, "get_exit_code".toList,
    "get_stdout".toList, "get_stderr".toList, "JobContext".toList]

def Job.getattr (job : Job) (name : Str) : Except PyError Attribute :=
  match job.fields.find? fun field => field.1 = name with
  | some field => .ok field.2
  | none => if methods.any fun m => m = name then .ok .other else .error (.attributeError name)

-- The element of a list, or the character of a text.
def Attribute.item (i : ℕ) : Attribute → Except PyError Str
  | .list l => (l[i]?).elim (.error .indexError) .ok
  | .text s => (s[i]?).elim (.error .indexError) fun c => .ok [c]
  | .other => .error .typeError

end Values

structure File where
  uuid : UUID
  transfer : Option UUID
  sip : Option UUID
  removed : Bool
  currentlocation : Option (List UInt8)
deriving DecidableEq

structure SIP where
  uuid : UUID
  currentpath : Str
  sipType : Str
deriving DecidableEq

-- The disk under the root, the rows, and how many UUIDs were made.
structure World (α : Type) where
  disk : Disk Name α
  files : List File
  sips : List SIP
  minted : ℕ

structure Arguments where
  objectsDirectory : Str
  transferName : Str
  transferUUID : Str
  processingDirectory : Str
  autoProcessSIPDirectory : Str
  sharedPath : Str

def transferObjectsDirectory : Str := "%transferDirectory%objects".toList

section Call

variable {α : Type} (toPython : Str → Option UUID) (uuid4 : ℕ → UUID)

abbrev M (α : Type) := EStateM PyError (World α)

def lift {β : Type} : Except PyError β → M α β
  | .ok b => pure b
  | .error e => throw e

def fs (op : Disk Name α → Option (Disk Name α)) : M α Unit := do
  let w ← get
  match op w.disk with
  | some disk => set { w with disk }
  | none => throw .osError

def listdir (path : Str) : M α (List Name) := do
  let w ← get
  if w.disk.isdir (resolve path) then pure (w.disk.listdir (resolve path)) else throw .osError

def move (src dst : Str) : M α Unit := fs (·.move (resolve src) (resolve dst))

def createDirectories (directories : List (List Name)) (basepath : Str) : M α Unit :=
  directories.forM fun directory => do
    let w ← get
    if w.disk.isdir (resolve basepath ++ directory) then pure ()
    else fs (·.makedirs (resolve basepath ++ directory))

def mint : M α UUID := do
  let w ← get
  set { w with minted := w.minted + 1 }
  return uuid4 w.minted

def createSIP (path : Str) (uuid : UUID) : M α Unit :=
  modify fun w => { w with sips := w.sips ++ [⟨uuid, path, "SIP".toList⟩] }

-- The live rows of the transfer whose location begins with the text.
def startingWith (transfer : UUID) (directory : Str) (files : List File) : List File :=
  files.filter fun f =>
    !f.removed && f.transfer = some transfer && f.currentlocation.any (encode directory).isPrefixOf

def query (transferUUID : Str) (directory : Str) : M α (List File) := do
  let w ← get
  match toPython transferUUID with
  | none => throw .validationError
  | some transfer => pure (startingWith transfer directory w.files)

def Value.isfile (d : Disk Name α) (value : Value) : Bool := d.isfile (resolve value.str)

def saveFile (directory tmpSIPDir : Str) (sipUUID : UUID) (f : File) : M α Unit := do
  match deUnicode (f.currentlocation.map .bytes) with
  | none => throw (.attributeError "replace".toList)
  | some location => do
    let currentPath ← lift (location.replace (.text directory) (.text transferObjectsDirectory))
    let currentSIPFilePath ← lift (currentPath.replace (.text "%transferDirectory%".toList) (.text tmpSIPDir))
    let w ← get
    if currentSIPFilePath.isfile w.disk then do
      let saved ← lift (currentPath.replace (.text "%transferDirectory%".toList) (.text "%SIPDirectory%".toList))
      modify fun w => { w with
        files := w.files.map fun g =>
          if g.uuid = f.uuid then { g with currentlocation := some saved.stored, sip := some sipUUID } else g }
    else pure ()

def createContainerSIP (a : Arguments) (sipUUID : UUID) (container : Name) : M α Unit := do
  let containerPath := PosixPath.join a.objectsDirectory container.1
  let sipName := a.transferName ++ '-' :: container.1
  let tmpSIPDir := PosixPath.join a.processingDirectory sipName ++ ['/']
  let destSIPDir := PosixPath.join a.autoProcessSIPDirectory sipName ++ ['/']
  createDirectories requiredDirectories tmpSIPDir
  createDirectories manualNormalizationDirectories tmpSIPDir
  createSIP (replaceAll destSIPDir a.sharedPath "%sharedPath%".toList) sipUUID
  let items ← listdir containerPath
  items.forM fun item =>
    move (PosixPath.join containerPath item.1)
      (PosixPath.join (PosixPath.join tmpSIPDir "objects".toList) item.1)
  let directory := PosixPath.join transferObjectsDirectory container.1
  let files ← query toPython a.transferUUID directory
  files.forM (saveFile directory tmpSIPDir sipUUID)
  move tmpSIPDir destSIPDir

def handleContainer (a : Arguments) (container : Name) : M α Unit := do
  let sipUUID ← mint uuid4
  let w ← get
  if w.disk.isdir (resolve (PosixPath.join a.objectsDirectory container.1)) then
    createContainerSIP toPython a sipUUID container
  else pure ()

-- The loop over what is in the directory of the objects.
def createSIPs (a : Arguments) : M α Unit := do
  let containers ← listdir a.objectsDirectory
  containers.forM (handleContainer toPython uuid4 a)

def argument (job : Job) (name : Str) (i : ℕ) : M α Str := lift ((job.getattr name).bind (Attribute.item i))

def call (job : Job) : M α Unit := do
  let objectsDirectory ← argument job "args".toList 1
  let transferName ← argument job "args".toList 2
  let transferUUID ← argument job "args".toList 3
  let processingDirectory ← argument job "args".toList 4
  let autoProcessSIPDirectory ← argument job "args".toList 5
  let sharedPath ← argument job "argv".toList 6
  createSIPs toPython uuid4
    ⟨objectsDirectory, transferName, transferUUID, processingDirectory, autoProcessSIPDirectory, sharedPath⟩

end Call

section Created

variable {α : Type} (a : Arguments) (transfer : UUID)

def containersOf (w : World α) : List Name :=
  (w.disk.listdir (resolve a.objectsDirectory)).filter fun container =>
    w.disk.isdir (resolve a.objectsDirectory ++ [container])

-- The row is one of the transfer, of the file at the path in the container.
def IsIn (f : File) (container : Name) (rest : Str) : Prop :=
  f.removed = false ∧ f.transfer = some transfer ∧
    f.currentlocation = some (encode (transferObjectsDirectory ++ '/' :: (container.1 ++ '/' :: rest)))

-- One SIP for each container, with the rows of the container and no others.
structure Created (w w' : World α) (sipOf : Name → UUID) : Prop where
  apart : ((containersOf a w).map sipOf).Nodup
  sips : w'.sips.map SIP.uuid = w.sips.map SIP.uuid ++ (containersOf a w).map sipOf
  rows : List.Forall₂ (fun f f' => f'.uuid = f.uuid ∧
    (∀ container ∈ containersOf a w, ∀ rest, IsIn transfer f container rest →
      f'.sip = some (sipOf container) ∧
        f'.currentlocation = some (encode ("%SIPDirectory%objects/".toList ++ rest))) ∧
    ((∀ container ∈ containersOf a w, ∀ rest, ¬ IsIn transfer f container rest) → f' = f)) w.files w'.files

-- The script succeeds, and every container has its SIP.
def Contract (w : World α) (result : EStateM.Result PyError (World α) Unit) : Prop :=
  ∃ w' sipOf, result = .ok () w' ∧ Created a transfer w w' sipOf

end Created

section Never

variable {α : Type} {toPython : Str → Option UUID} {uuid4 : ℕ → UUID} {job : Job} {w w' : World α}

-- A job has the list of its arguments under another name.
theorem getattr_argv (job : Job) : job.getattr "argv".toList = .error (.attributeError "argv".toList) := rfl

theorem argument_argv_ne_ok (job : Job) (i : ℕ) (s : Str) :
    (argument job "argv".toList i : M α Str) w ≠ .ok s w' := by
  rw [argument, getattr_argv]
  exact throw_ne_ok

theorem call_ne_ok (job : Job) (w w' : World α) : call toPython uuid4 job w ≠ .ok () w' := by
  intro h
  rw [call] at h
  obtain ⟨_, w1, -, h⟩ := bind_ok_iff.mp h
  obtain ⟨_, w2, -, h⟩ := bind_ok_iff.mp h
  obtain ⟨_, w3, -, h⟩ := bind_ok_iff.mp h
  obtain ⟨_, w4, -, h⟩ := bind_ok_iff.mp h
  obtain ⟨_, w5, -, h⟩ := bind_ok_iff.mp h
  obtain ⟨s, w6, hargv, -⟩ := bind_ok_iff.mp h
  exact argument_argv_ne_ok job 6 s hargv

-- Whatever the job and the transfer are.
theorem never_created (toPython : Str → Option UUID) (uuid4 : ℕ → UUID) (job : Job) (a : Arguments)
    (transfer : UUID) (w : World α) : ¬ Contract a transfer w (call toPython uuid4 job w) := by
  rintro ⟨w', -, hok, -⟩
  exact call_ne_ok job w w' hok

end Never

section Conversion

variable {α : Type} {toPython : Str → Option UUID} {uuid4 : ℕ → UUID} {a : Arguments} {w w' : World α}

theorem keeps_fs (op : Disk Name α → Option (Disk Name α)) : Keeps World.files (fs op) := by
  refine keeps_of (fun w _ w' h => ?_) (fun w e w' h => ?_)
  · obtain ⟨w1, w2, hget, hrest⟩ := bind_ok_iff.mp h
    obtain ⟨rfl, rfl⟩ := get_ok_iff.mp hget
    cases hop : op w.disk with
    | none =>
        rw [hop] at hrest
        exact absurd hrest throw_ne_ok
    | some disk =>
        rw [hop] at hrest
        cases hrest
        rfl
  · rcases bind_error_iff.mp h with hget | ⟨w1, w2, hget, hrest⟩
    · exact absurd hget get_ne_error
    · obtain ⟨rfl, rfl⟩ := get_ok_iff.mp hget
      cases hop : op w.disk with
      | none =>
          rw [hop] at hrest
          rw [(throw_error_iff.mp hrest).2]
      | some disk =>
          rw [hop] at hrest
          cases hrest

theorem keeps_listdir (path : Str) : Keeps World.files (listdir path : M α (List Name)) := by
  refine keeps_bind keeps_get fun w => ?_
  split_ifs
  · exact keeps_pure _
  · exact keeps_throw _

theorem keeps_createDirectories (directories : List (List Name)) (basepath : Str) :
    Keeps World.files (createDirectories directories basepath : M α Unit) := by
  refine keeps_forM (fun directory => keeps_bind keeps_get fun w => ?_) directories
  split_ifs
  · exact keeps_pure _
  · exact keeps_fs _

theorem keeps_mint : Keeps World.files (mint uuid4 : M α UUID) := by
  refine keeps_of (fun w _ w' h => ?_) (fun w e w' h => ?_)
  · cases h
    rfl
  · cases h

-- The text of the directory is no bytes.
theorem saveFile_ne_ok (directory tmpSIPDir : Str) (sipUUID : UUID) (f : File) :
    saveFile directory tmpSIPDir sipUUID f w ≠ .ok () w' := by
  cases hlocation : f.currentlocation with
  | none =>
      rw [saveFile, hlocation]
      exact throw_ne_ok
  | some location =>
      rw [saveFile, hlocation]
      intro h
      obtain ⟨_, _, hreplace, -⟩ := bind_ok_iff.mp h
      exact throw_ne_ok hreplace

theorem forM_saveFile_ok {directory tmpSIPDir : Str} {sipUUID : UUID} {files : List File}
    (h : files.forM (saveFile directory tmpSIPDir sipUUID) w = .ok () w') : files = [] := by
  cases files with
  | nil => rfl
  | cons f files =>
      obtain ⟨_, _, hsave, -⟩ := bind_ok_iff.mp h
      exact absurd hsave (saveFile_ne_ok directory tmpSIPDir sipUUID f)

theorem files_of_createContainerSIP {sipUUID : UUID} {container : Name}
    (h : createContainerSIP toPython a sipUUID container w = .ok () w') : w'.files = w.files := by
  rw [createContainerSIP] at h
  obtain ⟨_, w1, h1, h⟩ := bind_ok_iff.mp h
  obtain ⟨_, w2, h2, h⟩ := bind_ok_iff.mp h
  obtain ⟨_, w3, h3, h⟩ := bind_ok_iff.mp h
  obtain ⟨_, w4, h4, h⟩ := bind_ok_iff.mp h
  obtain ⟨_, w5, h5, h⟩ := bind_ok_iff.mp h
  obtain ⟨files, w6, h6, h⟩ := bind_ok_iff.mp h
  obtain ⟨_, w7, h7, hmove⟩ := bind_ok_iff.mp h
  have hquery : Keeps World.files (query toPython a.transferUUID
      (PosixPath.join transferObjectsDirectory container.1) : M α (List File)) := by
    refine keeps_bind keeps_get fun w => ?_
    cases toPython a.transferUUID with
    | none => exact keeps_throw _
    | some transfer => exact keeps_pure _
  obtain rfl := forM_saveFile_ok h7
  obtain ⟨-, rfl⟩ := pure_ok_iff.mp h7
  calc w'.files = w6.files := (keeps_fs _).ok hmove
    _ = w5.files := hquery.ok h6
    _ = w4.files := (keeps_forM (fun item => keeps_fs _) _).ok h5
    _ = w3.files := (keeps_listdir _).ok h4
    _ = w2.files := (modify_ok_iff.mp h3) ▸ rfl
    _ = w1.files := (keeps_createDirectories _ _).ok h2
    _ = w.files := (keeps_createDirectories _ _).ok h1

theorem files_of_handleContainer {container : Name}
    (h : handleContainer toPython uuid4 a container w = .ok () w') : w'.files = w.files := by
  rw [handleContainer] at h
  obtain ⟨sipUUID, w1, hmint, h⟩ := bind_ok_iff.mp h
  obtain ⟨w2, w3, hget, h⟩ := bind_ok_iff.mp h
  obtain ⟨rfl, rfl⟩ := get_ok_iff.mp hget
  rw [← keeps_mint.ok hmint]
  split_ifs at h
  · exact files_of_createContainerSIP h
  · rw [(pure_ok_iff.mp h).2]

theorem files_of_forM {containers : List Name}
    (h : containers.forM (handleContainer toPython uuid4 a) w = .ok () w') : w'.files = w.files := by
  induction containers generalizing w with
  | nil => rw [(pure_ok_iff.mp h).2]
  | cons container containers ih =>
      obtain ⟨_, w1, hhead, htail⟩ := bind_ok_iff.mp h
      rw [← files_of_handleContainer hhead]
      exact ih htail

-- With the shared path at hand the script still assigns no row: it succeeds only where no
-- container has one.
theorem files_of_createSIPs (h : createSIPs toPython uuid4 a w = .ok () w') : w'.files = w.files := by
  obtain ⟨containers, w1, hlist, h⟩ := bind_ok_iff.mp h
  rw [← (keeps_listdir _).ok hlist]
  exact files_of_forM h

end Conversion

section Example

def top : Name := ⟨"o".toList, by decide⟩

def box : Name := ⟨"c".toList, by decide⟩

def leaf : Name := ⟨"f".toList, by decide⟩

def entries : Dict (List Name) (Node Unit) := [([top], .dir), ([top, box], .dir), ([top, box, leaf], .file ())]

theorem nodup_entries : (entries.map Prod.fst).Nodup := by decide

theorem closed_entries : ∀ e ∈ entries, e.1 ≠ [] ∧ (e.1.dropLast = [] ∨ (e.1.dropLast, Node.dir) ∈ entries) := by
  decide

-- One container with one file and its row.
def boxed : World Unit where
  disk := ⟨entries, nodup_entries, closed_entries⟩
  files := [⟨⟨1⟩, some UUID.nil, none, false, some (encode "%transferDirectory%objects/c/f".toList)⟩]
  sips := []
  minted := 0

def arguments : Arguments :=
  ⟨"/o/".toList, "t".toList, UUID.nil.string, "/p/".toList, "/s/w/".toList, "/s/".toList⟩

def job : Job :=
  ⟨"createsipsfromtrimtransfercontainers_v0.0".toList, [],
    [arguments.objectsDirectory, arguments.transferName, arguments.transferUUID,
      arguments.processingDirectory, arguments.autoProcessSIPDirectory, arguments.sharedPath]⟩

theorem boxed_fails : containersOf arguments boxed = [box] ∧
    call UUID.parse (fun n => ⟨n⟩) job boxed = .error (.attributeError "argv".toList) boxed ∧
    ¬ Contract arguments UUID.nil boxed (call UUID.parse (fun n => ⟨n⟩) job boxed) := by
  refine ⟨by decide, rfl, ?_⟩
  rintro ⟨w', -, hok, -⟩
  exact call_ne_ok job boxed w' hok

end Example

end Ccp.Worker.TrimContainers
