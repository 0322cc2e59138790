import Ccp.Lib.Calls
import Ccp.Worker.FileOperations

namespace Ccp.Worker.CreateSIP

open Lib FileOperations

def requiredDirectories : List (List Name) :=
  [[logs], [logs, fileMeta], [metadata],
    [metadata, submissionDocumentation], [objects]]

def manualNormalization : Name := ⟨"manualNormalization".toList, by decide⟩

def manualNormalizationDirectories : List (List Name) :=
  [[objects, manualNormalization, ⟨"access".toList, by decide⟩],
    [objects, manualNormalization, ⟨"preservation".toList, by decide⟩]]

def dcJson : Name := ⟨"dc.json".toList, by decide⟩

def processingMCP : Name := ⟨"processingMCP.xml".toList, by decide⟩

def transferDirectory : Str := "%transferDirectory%".toList

def sipDirectory : Str := "%SIPDirectory%".toList

structure Directory where
  uuid : UUID
  transfer : Option UUID
  sip : Option UUID
  currentlocation : Str
deriving DecidableEq

structure SIP where
  uuid : UUID
  currentpath : Str
  sipType : Str
  diruuids : Bool
deriving DecidableEq

-- The disk under the root, the rows, and how many operations on the file system are still
-- to succeed before one fails.
structure World (α : Type) where
  disk : Disk Name α
  transfers : List (UUID × Str)
  directories : List Directory
  files : List File
  sips : List SIP
  left : Nat

-- The arguments of one run, the UUID that it makes if it needs one, and the operations
-- that succeed. The transfer and the temporary directory of the SIP are beside each other.
structure Run where
  objectsDirectory : List Name
  transferName : Name
  transferUUID : UUID
  processingDirectory : List Name
  autoProcessSIPDirectory : List Name
  sharedPath : List Name
  uuid4 : UUID
  operations : Nat
  outside : ¬ objectsDirectory.dropLast <+: processingDirectory ++ [transferName]
  beside : ¬ processingDirectory ++ [transferName] <+: objectsDirectory

-- An absolute path as a text.
def absolute (p : List Name) : Str := '/' :: text p

theorem name_of_text {s : Str} (h : s.isEmpty = false ∧ s.contains '/' = false) :
    s ≠ [] ∧ '/' ∉ s := by
  simpa using h

def named (s : Str) : Option Name :=
  if h : s.isEmpty = false ∧ s.contains '/' = false then some ⟨s, name_of_text h⟩ else none

-- The path that a text is.
def resolve (s : Str) : List Name := (s.splitOn '/').filterMap named

section Call

variable {α : Type} (toPython : Str → Option UUID) (r : Run)

abbrev M (α : Type) := EStateM Unit (World α)

-- An operation on the file system.
def fs (op : Disk Name α → Option (Disk Name α)) : M α Unit := do
  let w ← get
  match w.left, op w.disk with
  | left + 1, some disk => set { w with disk, left }
  | _, _ => throw ()

def listdir (p : List Name) : M α (List Name) := do
  let w ← get
  fs fun d => if d.isdir p then some d else none
  return w.disk.listdir p

def createDirectories (directories : List (List Name)) (basepath : List Name) : M α Unit :=
  directories.forM fun directory => do
    let w ← get
    if w.disk.isdir (basepath ++ directory) then pure ()
    else fs (·.makedirs (basepath ++ directory))

-- tmpSIPDir
def Run.tmpSIPDir : List Name := r.processingDirectory ++ [r.transferName]

def Run.transferDirectory : List Name := r.objectsDirectory.dropLast

-- The identifier that the METS file of a reingested AIP is named after.
def uuidOfMets (item : Name) : Str :=
  replaceAll (replaceAll item.1 "METS.".toList []) ".xml".toList []

def isMets (item : Name) : Bool := "METS".toList.isPrefixOf item.1

def isReingest (type : Str) : Bool := type = "Archivematica AIP".toList

-- The type of the SIP and its UUID.
def sipIdentity (type : Str) : M α (Str × Str) :=
  if isReingest type then do
    let items ← listdir (r.transferDirectory ++ [metadata])
    return ("AIP-REIN".toList, (((items.filter isMets).getLast?).map uuidOfMets).getD r.uuid4.string)
  else return ("SIP".toList, r.uuid4.string)

def inObjects (transfer : Option UUID) (location : Str) : Bool :=
  transfer = some r.transferUUID &&
    (CreateSIP.transferDirectory ++ "objects".toList).isPrefixOf location

def getOrCreate (sip : SIP) : M α Unit :=
  modify fun w =>
    { w with
      sips :=
        if w.sips.any (·.uuid = sip.uuid) then
          w.sips.map fun s =>
            if s.uuid = sip.uuid then
              { s with diruuids := sip.diruuids, currentpath := sip.currentpath }
            else s
        else w.sips ++ [sip] }

-- Move one item of the objects, or what is in it if there is something in its place.
def moveItem (item : Name) : M α Unit := do
  let src := r.objectsDirectory ++ [item]
  let dst := r.tmpSIPDir ++ [objects, item]
  let w ← get
  if w.disk.found dst && w.disk.isdir src then do
    let subitems ← listdir src
    subitems.forM fun subitem => fs (·.move (src ++ [subitem]) dst)
  else fs (·.move src dst)

-- The place in the new directory that a location tells of.
def Run.currentPath (location : Str) : Str :=
  replaceAll location CreateSIP.transferDirectory (absolute r.tmpSIPDir ++ ['/'])

def isdirText (d : Disk Name α) (s : Str) : Bool := d.isdir (resolve s)

-- No path to a file ends with a separator.
def isfileText (d : Disk Name α) (s : Str) : Bool := s.getLast? ≠ some '/' && d.isfile (resolve s)

def relocated (location : Str) : Str := replaceAll location CreateSIP.transferDirectory sipDirectory

def updateDirectory (d : Disk Name α) (sip : UUID) (k : Directory) : Directory :=
  if inObjects r k.transfer k.currentlocation && isdirText d (r.currentPath k.currentlocation) then
    { k with currentlocation := relocated k.currentlocation, sip := some sip }
  else k

def updateFile (d : Disk Name α) (sip : UUID) (f : File) : File :=
  if inObjects r f.transfer f.currentlocation && !f.removed &&
      isfileText d (r.currentPath f.currentlocation) then
    { f with currentlocation := relocated f.currentlocation, sip := some sip }
  else f

def lookupPath (destSIPDir : List Name) : Str :=
  replaceAll (absolute destSIPDir) (absolute r.sharedPath ++ ['/']) "%sharedPath%".toList ++ ['/']

-- The identity of the SIP and the place it goes to.
def call : M α (UUID × List Name) := do
  createDirectories requiredDirectories r.tmpSIPDir
  let w ← get
  match w.transfers.lookup r.transferUUID with
  | none => throw ()
  | some type =>
    let (sipType, sipUUID) ← sipIdentity r type
    match named (r.transferName.1 ++ '-' :: sipUUID), toPython sipUUID with
    | some name, some uuid =>
      let destSIPDir := r.autoProcessSIPDirectory ++ [name]
      let w ← get
      getOrCreate
        { uuid
          currentpath := lookupPath r destSIPDir
          sipType
          diruuids := w.directories.any fun k => inObjects r k.transfer k.currentlocation }
      let items ← listdir r.objectsDirectory
      items.forM (moveItem r)
      modify fun w => { w with directories := w.directories.map (updateDirectory r w.disk uuid) }
      modify fun w => { w with files := w.files.map (updateFile r w.disk uuid) }
      createDirectories manualNormalizationDirectories r.tmpSIPDir
      let w ← get
      let dc := r.transferDirectory ++ [metadata, dcJson]
      if w.disk.found dc then fs (·.copy dc (r.tmpSIPDir ++ [metadata, dcJson])) else pure ()
      fs (·.copy (r.transferDirectory ++ [processingMCP]) (r.tmpSIPDir ++ [processingMCP]))
      fs (·.move r.tmpSIPDir destSIPDir)
      return (uuid, destSIPDir)
    | _, _ => throw ()

-- What a run leaves, however it ends.
def step (w : World α) (r : Run) : World α :=
  Calls.after (call toPython r { w with left := r.operations })

end Call

section Produced

variable {α : Type}

-- What the SIP of the run can be named after: the new UUID, or a METS file of a reingested
-- AIP.
def Identity (r : Run) (w : World α) (s : Str) : Prop :=
  s = r.uuid4.string ∨
    (w.transfers.lookup r.transferUUID).any isReingest = true ∧
      ∃ item, isMets item = true ∧
        w.disk.node (r.transferDirectory ++ [metadata, item]) ≠ none ∧ s = uuidOfMets item

-- What the objects of the temporary directory hold before the first of the transfer's own
-- comes to them: no file that stays, and no directory that a file would go into.
structure Vacant (r : Run) (d : Disk Name α) : Prop where
  files : ∀ p c, d.node (r.tmpSIPDir ++ objects :: p) = some (.file c) →
    ∃ n, p = [n] ∧ d.isfile (r.objectsDirectory ++ [n]) = true
  dirs : ∀ n, d.isfile (r.objectsDirectory ++ [n]) = true →
    d.isdir (r.tmpSIPDir ++ [objects, n]) = false

-- The SIP has a place of its own, and no file a path that is rewritten twice.
structure Clear (r : Run) (w : World α) : Prop extends Vacant r w.disk where
  destination : ∀ s, Identity r w s → ∀ name, named (r.transferName.1 ++ '-' :: s) = some name →
    w.disk.isdir (r.autoProcessSIPDirectory ++ [name]) = false ∧
      ¬ r.autoProcessSIPDirectory ++ [name] <+: r.tmpSIPDir
  plain : ∀ p, w.disk.isfile (r.objectsDirectory ++ p) = true →
    ¬ transferDirectory <:+: text (objects :: p)

-- The row of an object of the transfer after the run, which belongs to the SIP.
def Owned (r : Run) (w : World α) (uuid : UUID) (f f' : File) : Prop :=
  ∀ p, f.transfer = some r.transferUUID → f.removed = false →
    f.currentlocation = transferDirectory ++ text (objects :: p) →
    w.disk.isfile (r.objectsDirectory ++ p) = true →
    f'.sip = some uuid ∧ f'.currentlocation = sipDirectory ++ text (objects :: p)

-- The SIP that a run has made has the files of the objects of the transfer, no others, and
-- their rows.
structure Produced (r : Run) (w w' : World α) (uuid : UUID) (destSIPDir : List Name) : Prop where
  objects : ∀ p c, w'.disk.node (destSIPDir ++ objects :: p) = some (.file c) ↔
    w.disk.node (r.objectsDirectory ++ p) = some (.file c)
  sip : ∃ s ∈ w'.sips, s.uuid = uuid ∧
    s.currentpath = lookupPath r destSIPDir
  rows : List.Forall₂ (fun f f' => f'.uuid = f.uuid ∧ Owned r w uuid f f') w.files w'.files

end Produced

end Ccp.Worker.CreateSIP
