import Ccp.Lib.PosixPath
import Ccp.Lib.Table
import Ccp.Lib.Text
import Ccp.Worker.FileOperations

namespace Ccp.Worker.AccessDirectory

open Lib
open FileOperations (Name)

-- A row with what the queries of the script look at.
structure File where
  uuid : UUID
  sip : Option UUID
  removed : Bool
  currentlocation : Option Str
deriving DecidableEq

structure Event where
  file : UUID
  eventType : Str
  eventOutcomeDetailNote : Str
deriving DecidableEq

-- A file of the disk is known by the path that it has at first.
structure Placed where
  file : Str
  path : Str
deriving DecidableEq

structure State where
  disk : List Placed
  files : List File
  events : List Event

-- Another dot after the name, in an extension or in the name of a directory.
def dotted (like : Str) (f : File) : Bool :=
  f.currentlocation.any fun location => (replaceFirst like [] location).contains '.'

-- The directory of a SIP, as the placeholder of the workflow has it.
structure SIPDirectory where
  path : Str
  rooted : path.head? = some '/'
  trailing : path.getLast? = some '/'

def marker : Str := "%SIPDirectory%".toList

-- The arguments of main.
structure Args where
  sipDirectory : Str
  accessDirectory : Str
  objectsDirectory : Str
  dipDirectory : Str
  sipUUID : UUID
  copy : Bool

-- What call makes of the options that the workflow gives.
def SIPDirectory.args (sip : SIPDirectory) (sipUUID : UUID) (copy : Bool) : Args where
  sipDirectory := sip.path
  accessDirectory := PosixPath.join sip.path "objects/access/".toList
  objectsDirectory := PosixPath.join sip.path "objects/".toList
  dipDirectory := PosixPath.join sip.path "DIP".toList
  sipUUID := sipUUID
  copy := copy

namespace Args

variable (args : Args)

-- The text that a row has for a path.
def location (path : Str) : Str := replaceAll path args.sipDirectory marker

def objectPath (accessPath : Str) : Str :=
  replaceFirst args.accessDirectory args.objectsDirectory accessPath

-- The name with its last dot; a name without one is passed over.
def objectName (accessPath : Str) : Option Str :=
  (rpartition '.' (PosixPath.basename (args.objectPath accessPath))).map fun name => name.1 ++ ['.']

def objectNameLike (accessPath : Str) : Option Str :=
  (args.objectName accessPath).map fun name =>
    replaceFirst args.sipDirectory marker
      (PosixPath.join (PosixPath.dirname (args.objectPath accessPath)) name)

def live (f : File) : Bool := !f.removed && f.sip = some args.sipUUID

def startingWith (like : Str) (files : List File) : List File :=
  files.filter fun f => args.live f && f.currentlocation.any like.isPrefixOf

def dipPath (uuid : UUID) (accessPath : Str) : Str :=
  PosixPath.join (PosixPath.join args.dipDirectory "objects".toList)
    (uuid.string ++ '-' :: PosixPath.basename accessPath)

end Args

section Main

-- The exit code of mv for a source that is there.
variable (mv : Str → Str → ℕ) (args : Args)

def State.move (src dst : Str) (s : State) : State :=
  { s with
    disk := (s.disk.filter fun e => e.path ≠ dst).map fun e =>
      if e.path = src then { e with path := dst } else e }

-- What is at the destination is overwritten.
def rename (src dst : Str) (s : State) : ℕ × State :=
  if src = dst then (0, s)
  else if s.disk.all (fun e => e.path ≠ src) then (1, s)
  else if mv src dst ≠ 0 then (mv src dst, s)
  else (0, s.move src dst)

-- The moves of one access file, with what is to be saved after them; a move that fails
-- ends the script.
def moveAll (like accessPath : Str) : List File → State → Except (ℕ × State) (List (Str × Str) × State)
  | [], s => .ok ([], s)
  | f :: rest, s =>
      if dotted like f then moveAll like accessPath rest s
      else if args.copy then moveAll like accessPath rest s
      else
        let dest := args.dipPath f.uuid accessPath
        let (status, s) := rename mv accessPath dest s
        if status ≠ 0 then .error (status, s)
        else (moveAll like accessPath rest s).map fun (update, s) =>
          ((args.location accessPath, args.location dest) :: update, s)

def File.setLocation (location : Str) (f : File) : File := { f with currentlocation := some location }

def isAt (location : Str) (f : File) : Bool := args.live f && f.currentlocation = some location

def updateFileLocation (src dst : Str) (s : State) : Option State :=
  match Table.get (s.files.filter (isAt args src)) with
  | .row f =>
      some { s with
        files := s.files.map fun g => if g.uuid = f.uuid then g.setLocation dst else g
        events := s.events ++ [⟨f.uuid, "movement".toList,
          "moved from=\"".toList ++ src ++ "\"; moved to=\"".toList ++ dst ++ "\"".toList⟩] }
  | _ => none

-- How the work on a file ends: on to the next one with the exit code so far, out of main
-- with a status, or with an exception.
inductive Outcome
  | next (exitCode : ℕ) (s : State)
  | returned (status : ℕ) (s : State)
  | raised

def handleFile (accessPath : Str) (exitCode : ℕ) (s : State) : Outcome :=
  match args.objectNameLike accessPath with
  | none => .next exitCode s
  | some like =>
      let files := args.startingWith like s.files
      match moveAll mv args like accessPath files s with
      | .error (status, s) => .returned status s
      | .ok (update, s) =>
          match update.foldlM (fun s e => updateFileLocation args e.1 e.2 s) s with
          | none => .raised
          | some s => .next (if files.isEmpty then 1 else exitCode) s

def handleFiles : List Str → ℕ → State → Option (ℕ × State)
  | [], exitCode, s => some (exitCode, s)
  | accessPath :: rest, exitCode, s =>
      match handleFile mv args accessPath exitCode s with
      | .next exitCode s => handleFiles rest exitCode s
      | .returned status s => some (status, s)
      | .raised => none

-- The files under the access directory, in the order of the walk.
def main (walk : List Str) (s : State) : Option (ℕ × State) := handleFiles mv args walk 179 s

end Main

section Kept

variable (mv : Str → Str → ℕ) (args : Args)

-- The rows that an access file goes with.
def goesWith (like : Str) (f : File) : Bool := f.currentlocation.any like.isPrefixOf && !dotted like f

def candidates (files : List File) (accessPath : Str) : List File :=
  match args.objectNameLike accessPath with
  | none => []
  | some like => files.filter fun f => args.live f && goesWith like f

-- The access files and their rows before the script runs: every file is where it is known
-- to be, and has a row of its own.
structure Start (walk : List Str) (s : State) : Prop where
  paths : ∀ p ∈ walk, ∃ rel : List Name, rel ≠ [] ∧ p = args.accessDirectory ++ FileOperations.text rel
  once : walk.Nodup
  disk : ∀ e ∈ s.disk, e.path = e.file
  known : (s.disk.map Placed.file).Nodup
  found : ∀ p ∈ walk, ⟨p, p⟩ ∈ s.disk
  uuids : (s.files.map File.uuid).Nodup
  rows : ∀ p ∈ walk, ∃ f, s.files.filter (isAt args (args.location p)) = [f]
  apart : ∀ p ∈ walk, ∀ q ∈ walk, args.location p = args.location q → p = q

-- The file is on the disk once, and the row that it had at first is located there.
def Kept (files : List File) (p : Str) (s : State) : Prop :=
  ∃ path, s.disk.filter (fun e => e.file = p) = [⟨p, path⟩] ∧
    ∀ f ∈ files, isAt args (args.location p) f = true →
      ∃ g ∈ s.files, g.uuid = f.uuid ∧ isAt args (args.location path) g = true

def relocate (src dst : Str) (files : List File) : List File :=
  files.map fun f => if isAt args src f then f.setLocation dst else f

-- No file that a move takes to the one row has another row, up to the first move that
-- fails.
def Clear : List Str → List File → Prop
  | [], _ => True
  | p :: rest, files =>
      match candidates args files p with
      | [] => Clear rest files
      | [f] => mv p (args.dipPath f.uuid p) ≠ 0 ∨
          Clear rest (relocate args (args.location p) (args.location (args.dipPath f.uuid p)) files)
      | f :: _ :: _ => mv p (args.dipPath f.uuid p) ≠ 0

end Kept

end Ccp.Worker.AccessDirectory
