import Ccp.Lib.PosixPath
import Ccp.Lib.Run
import Ccp.Lib.Table
import Ccp.Lib.Text
import Ccp.Uuid
import Mathlib.Data.List.Nodup

namespace Ccp.Worker.ExtractContents

open Lib

def transferDirectory : Str := "%transferDirectory%".toList

-- A row of a transfer. Its place is the location of a file that was not removed.
structure File where
  uuid : UUID
  transfer : UUID
  originallocation : Str
  place : Option Str
deriving DecidableEq

structure Event where
  fileUUID : UUID
  eventType : Str
  eventDetail : Str
deriving DecidableEq

-- The rows of the database, and beside them the packages that were extracted, in the
-- order of the commands that succeeded.
structure State where
  files : List File
  events : List Event
  extracted : List UUID
deriving DecidableEq

def unpacking : Str := "unpacking".toList

def File.startsWith (k : File) (location : Str) : Bool :=
  match k.place with
  | none => false
  | some place => location.isPrefixOf place

def alreadyExtracted (s : State) (f : File) (location : Str) : Bool :=
  let files := s.files.filter fun k =>
    k.transfer = f.transfer ∧ k.startsWith location ∧ k.uuid ≠ f.uuid
  s.events.any fun e =>
    files.any (·.uuid = e.fileUUID) && e.eventType = unpacking && occursIn location e.eventDetail

inductive ScriptType
  | command
  | bashScript
  | pythonScript
  | asIs
deriving DecidableEq

structure FPCommand where
  scriptType : ScriptType
  command : Str
deriving DecidableEq

-- The command that is executed, and its arguments.
def FPCommand.invocation (c : FPCommand) (inputFile outputDirectory : Str) : Str × List Str :=
  if c.scriptType = .command ∨ c.scriptType = .bashScript then
    (replaceAll (replaceAll c.command "%inputFile%".toList inputFile) "%outputDirectory%".toList
      outputDirectory, [])
  else (c.command, [inputFile, outputDirectory])

-- A file under the directory of a package, with the identifier that it is given. Where its
-- name is not UTF-8 it does not encode, and of a dangling link no size can be taken.
structure Found where
  uuid : UUID
  path : Str
  relative : path.head? ≠ some '/'
  encodes : Bool
  measured : Bool
deriving DecidableEq

-- What a command leaves: its status, and the files under its directory.
structure Exec where
  exitstatus : Int
  tree : List Found
  -- the names of the directories encode
  directories : Bool
  -- the package can be removed
  removable : Bool
deriving DecidableEq

-- One run of the script. The command is that of the rules for the format of a file, missing
-- where it was not identified or no rule is for it.
structure Run where
  sipDirectory : Str
  date : Str
  delete : Bool
  diruuids : Bool
  accessionid : Str
  checksumType : Str
  files : List File
  command : UUID → Table.Got FPCommand
  executeOrRun : UUID → ScriptType → Str × List Str → Exec

namespace Run

variable (r : Run)

def inputFile (location : Str) : Str := replaceAll location transferDirectory r.sipDirectory

-- The cache of the source holds this value for every path.
def temporaryDirectory (filePath : Str) : Str := filePath ++ '-' :: r.date

def exec (file_ : File) (location : Str) (command : FPCommand) : Exec :=
  r.executeOrRun file_.uuid command.scriptType
    (command.invocation (r.inputFile location) (r.temporaryDirectory (r.inputFile location)))

end Run

-- The text of the event of a file that came out of a package.
def unpackedFrom (packagePath : Str) (packageUUID : UUID) : Str :=
  "Unpacked from: ".toList ++ packagePath ++ (" (".toList ++ packageUUID.string ++ ")".toList)

def hashEvent (checksumType : Str) : Str :=
  "program=\"python\"; module=\"hashlib.".toList ++ checksumType ++ "()\"".toList

-- The row of a file that came out of a package.
def newRow (t : UUID) (r : Run) (file_ : File) (packageFilename : Str) (found : Found) : File :=
  let target := r.temporaryDirectory packageFilename
  let filename := PosixPath.join target found.path
  let relativePath := replaceFirst r.sipDirectory transferDirectory filename
  let original := replaceFirst target file_.originallocation filename
  { uuid := found.uuid
    transfer := t
    originallocation := if original = [] then relativePath else original
    place := some relativePath }

-- The events of addFileToTransfer and of updateSizeAndChecksum, which raises before its own
-- one where it can take no size or no checksum.
def newEvents (r : Run) (file_ : File) (packageFilename : Str) (found : Found) : List Event :=
  let relativePackagePath := replaceFirst r.sipDirectory transferDirectory packageFilename
  let registration : List Event :=
    if r.accessionid = [] then [] else [⟨found.uuid, "registration".toList, []⟩]
  let digest : List Event :=
    if found.measured then
      [⟨found.uuid, "message digest calculation".toList, hashEvent r.checksumType⟩]
    else []
  ⟨found.uuid, unpacking, unpackedFrom relativePackagePath file_.uuid⟩ :: registration ++ digest

-- The rows after a part of the script, and whether it raised.
structure Done where
  state : State
  raised : Bool
deriving DecidableEq

-- A loop ends where a turn raises.
def loop {α : Type} (turn : State → α → Done) : State → List α → Done
  | s, [] => ⟨s, false⟩
  | s, item :: items =>
      let done := turn s item
      if done.raised then done else loop turn done.state items

def assignUUID (t : UUID) (r : Run) (file_ : File) (packageFilename : Str) (s : State)
    (found : Found) : Done :=
  if found.encodes then
    { state :=
        { s with
          files := s.files ++ [newRow t r file_ packageFilename found]
          events := s.events ++ newEvents r file_ packageFilename found }
      raised := !found.measured }
  else ⟨s, true⟩

def fileWasRemoved (file_ : File) (location : Str) (s : State) : State :=
  { s with
    files := s.files.map fun k => if k.uuid = file_.uuid then { k with place := none } else k
    events := s.events ++ [⟨file_.uuid, "file removed".toList, "removed from: ".toList ++ location⟩] }

-- What follows a command that succeeded.
def record (t : UUID) (r : Run) (file_ : File) (location : Str) (exec : Exec) (s : State) : Done :=
  let s := { s with extracted := s.extracted ++ [file_.uuid] }
  let done := loop (assignUUID t r file_ (r.inputFile location)) s exec.tree
  if done.raised || r.diruuids && !exec.directories then ⟨done.state, true⟩
  else if r.delete then
    if exec.removable then ⟨fileWasRemoved file_ location done.state, false⟩ else ⟨done.state, true⟩
  else ⟨done.state, false⟩

-- One turn of the loop of main. Several commands raise.
def turn (t : UUID) (r : Run) (s : State) (file_ : File) : Done :=
  match r.command file_.uuid, file_.place with
  | .several, _ => ⟨s, true⟩
  | .row command, some location =>
      if alreadyExtracted s file_ location then ⟨s, false⟩
      else
        let exec := r.exec file_ location command
        if exec.exitstatus = 0 then record t r file_ location exec s else ⟨s, false⟩
  | _, _ => ⟨s, false⟩

-- The rows of the transfer that were not removed.
def State.rows (s : State) (t : UUID) : List File :=
  s.files.filter fun f => f.transfer = t ∧ f.place.isSome

-- The rows are read once, before the loop. JobContext catches what is raised, and what was
-- written before stays.
def main (t : UUID) (r : Run) (s : State) : State × Int :=
  let done := loop (turn t r) s r.files
  (done.state,
    if done.raised then 1 else if done.state.extracted.length = s.extracted.length then 255 else 0)

-- The files that get a row: those up to the first that raises, which has one if its name encodes.
def recorded : List Found → List Found
  | [] => []
  | found :: tree =>
      if found.encodes then found :: (if found.measured then recorded tree else []) else []

-- Nothing of what a command leaves raises.
structure Exec.Complete (r : Run) (exec : Exec) : Prop where
  files : ∀ found ∈ exec.tree, found.encodes = true ∧ found.measured = true
  directories : r.diruuids = true → exec.directories = true
  removable : r.delete = true → exec.removable = true

theorem loop_assignUUID (t : UUID) (r : Run) (file_ : File) (package : Str) (tree : List Found)
    (s : State) :
    (loop (assignUUID t r file_ package) s tree).state =
      { s with
        files := s.files ++ (recorded tree).map (newRow t r file_ package)
        events := s.events ++ (recorded tree).flatMap (newEvents r file_ package) } := by
  induction tree generalizing s with
  | nil => simp [loop, recorded]
  | cons found tree ih =>
      cases hencodes : found.encodes with
      | false => simp [loop, assignUUID, recorded, hencodes]
      | true =>
          cases hmeasured : found.measured with
          | false => simp [loop, assignUUID, recorded, hencodes, hmeasured]
          | true => simp [loop, assignUUID, recorded, hencodes, hmeasured, ih]

theorem raised_loop_assignUUID (t : UUID) (r : Run) (file_ : File) (package : Str) (tree : List Found)
    (s : State) :
    (loop (assignUUID t r file_ package) s tree).raised = false ↔
      ∀ found ∈ tree, found.encodes = true ∧ found.measured = true := by
  induction tree generalizing s with
  | nil => simp [loop]
  | cons found tree ih =>
      rw [List.forall_mem_cons]
      cases hencodes : found.encodes with
      | false => simp [loop, assignUUID, hencodes]
      | true =>
          cases hmeasured : found.measured with
          | false => simp [loop, assignUUID, hencodes, hmeasured]
          | true => simp [loop, assignUUID, hencodes, hmeasured, ih]

theorem raised_record_iff {t : UUID} {r : Run} {file_ : File} {location : Str} {exec : Exec} {s : State} :
    (record t r file_ location exec s).raised = false ↔ exec.Complete r := by
  have hloop := fun s => raised_loop_assignUUID t r file_ (r.inputFile location) exec.tree s
  rw [record]
  constructor
  · intro h
    split_ifs at h with hraised hdelete hremovable
    · rw [Bool.or_eq_true, not_or, Bool.not_eq_true] at hraised
      exact ⟨(hloop _).mp hraised.1, fun hdir => by simpa [hdir] using hraised.2, fun _ => hremovable⟩
    · rw [Bool.or_eq_true, not_or, Bool.not_eq_true] at hraised
      exact ⟨(hloop _).mp hraised.1, fun hdir => by simpa [hdir] using hraised.2,
        fun hdel => absurd hdel hdelete⟩
  · intro h
    have hfalse := fun s => (hloop s).mpr h.files
    have hdirectories : (r.diruuids && !exec.directories) = false := by
      cases hdir : r.diruuids with
      | false => rfl
      | true => simp [h.directories hdir]
    simp only [hfalse, hdirectories, Bool.or_false, Bool.false_eq_true, if_false]
    split_ifs with hdelete hremovable
    · rfl
    · exact absurd (h.removable hdelete) hremovable
    · rfl

-- The row with the identifier is one of the transfer, and its file is there.
def Located (t : UUID) (s : State) (uuid : UUID) (location : Str) : Prop :=
  ∃ f ∈ s.files, f.transfer = t ∧ f.uuid = uuid ∧ f.place = some location

-- The name of the transfer's directory is the start of the location and nothing else in it.
def Plain (location : Str) : Prop :=
  ∃ rest, location = transferDirectory ++ rest ∧ ¬ transferDirectory <:+: rest

theorem relative_package {location : Str} (h : Plain location) (r : Run) :
    replaceFirst r.sipDirectory transferDirectory (r.inputFile location) = location := by
  obtain ⟨rest, rfl, hrest⟩ := h
  rw [Run.inputFile, replaceAll_append (by decide) hrest, replaceFirst_self_append]

-- Where a file comes to stand that comes out of a package.
def unpackedLocation (r : Run) (location path : Str) : Str :=
  PosixPath.join (location ++ '-' :: r.date) path

theorem relative_file {location : Str} (h : Plain location) (r : Run) (found : Found) :
    replaceFirst r.sipDirectory transferDirectory
      (PosixPath.join (r.temporaryDirectory (r.inputFile location)) found.path) =
        unpackedLocation r location found.path := by
  obtain ⟨rest, rfl, hrest⟩ := h
  have hdash : rest ++ '-' :: r.date ≠ [] := by simp
  rw [Run.temporaryDirectory, Run.inputFile, replaceAll_append (by decide) hrest,
    List.append_assoc, PosixPath.join_append hdash found.relative, replaceFirst_self_append,
    unpackedLocation, List.append_assoc, PosixPath.join_append hdash found.relative]

theorem unpackedLocation_eq (r : Run) (location : Str) (found : Found) :
    ∃ rest, unpackedLocation r location found.path = location ++ '-' :: rest := by
  rw [unpackedLocation, PosixPath.join_append (by simp) found.relative, PosixPath.join,
    if_neg found.relative]
  by_cases hlast : '-' :: r.date = [] ∨ ('-' :: r.date).getLast? = some '/'
  · exact ⟨r.date ++ found.path, by rw [if_pos hlast, List.cons_append]⟩
  · exact ⟨r.date ++ '/' :: found.path, by rw [if_neg hlast, List.cons_append]⟩

-- The packages that were extracted, each once, are those the rows and events show as
-- extracted.
structure Sound (t : UUID) (s : State) : Prop where
  keys : (s.files.map (·.uuid)).Nodup
  nodup : s.extracted.Nodup
  known : ∀ e ∈ s.events, e.fileUUID ∈ s.files.map (·.uuid)
  unpacked : ∀ e ∈ s.events, e.eventType = unpacking → ∀ location, Located t s e.fileUUID location →
    ∃ g ∈ s.extracted, ∃ place, Located t s g place ∧ place.head? = some '%' ∧
      e.eventDetail = unpackedFrom place g ∧ ∃ rest, location = place ++ '-' :: rest
  evidence : ∀ g ∈ s.extracted, ∃ place, Located t s g place ∧
    ∃ e ∈ s.events, e.eventType = unpacking ∧ e.eventDetail = unpackedFrom place g ∧
      e.fileUUID ≠ g ∧ ∃ location, Located t s e.fileUUID location ∧ place <+: location
  -- no other package is named by the start of the name of one that was extracted
  separate : ∀ f location g place, Located t s f location → g ∈ s.extracted → Located t s g place →
    location <+: place → f ∈ s.extracted

variable {t : UUID} {s : State}

theorem File.eq_of_uuid (hkeys : (s.files.map (·.uuid)).Nodup) {f g : File} (hf : f ∈ s.files)
    (hg : g ∈ s.files) (h : f.uuid = g.uuid) : f = g :=
  List.inj_on_of_nodup_map hkeys hf hg h

theorem Located.unique (hkeys : (s.files.map (·.uuid)).Nodup) {u : UUID} {a b : Str}
    (ha : Located t s u a) (hb : Located t s u b) : a = b := by
  obtain ⟨f, hf, -, rfl, hplace⟩ := ha
  obtain ⟨g, hg, -, huuid, hplace'⟩ := hb
  obtain rfl := File.eq_of_uuid hkeys hg hf huuid
  exact Option.some.inj (hplace.symm.trans hplace')

theorem Located.mem_keys {u : UUID} {a : Str} (h : Located t s u a) :
    u ∈ s.files.map (·.uuid) := by
  obtain ⟨f, hf, -, rfl, -⟩ := h
  exact List.mem_map_of_mem hf

theorem alreadyExtracted_iff {f : File} {location : Str} (ht : f.transfer = t) :
    alreadyExtracted s f location = true ↔
      ∃ e ∈ s.events, e.eventType = unpacking ∧ location <:+: e.eventDetail ∧ e.fileUUID ≠ f.uuid ∧
        ∃ place, Located t s e.fileUUID place ∧ location <+: place := by
  simp only [alreadyExtracted, List.any_eq_true, List.mem_filter, Bool.and_eq_true,
    decide_eq_true_eq, occursIn_iff, ht]
  constructor
  · rintro ⟨e, he, ⟨⟨k, ⟨hk, hkt, hstarts, hne⟩, huuid⟩, htype⟩, hdetail⟩
    refine ⟨e, he, htype, hdetail, huuid ▸ hne, ?_⟩
    rcases hplace : k.place with _ | place
    · simp [File.startsWith, hplace] at hstarts
    · rw [File.startsWith, hplace] at hstarts
      exact ⟨place, ⟨k, hk, hkt, huuid, hplace⟩, List.isPrefixOf_iff_prefix.mp hstarts⟩
  · rintro ⟨e, he, htype, hdetail, hne, place, ⟨k, hk, hkt, huuid, hplace⟩, hpre⟩
    refine ⟨e, he, ⟨⟨k, ⟨hk, hkt, ?_, huuid ▸ hne⟩, huuid⟩, htype⟩, hdetail⟩
    rw [File.startsWith, hplace]
    exact List.isPrefixOf_iff_prefix.mpr hpre

theorem percent_notMem_string (u : UUID) : '%' ∉ u.string :=
  UUID.notMem_string (by decide) (by decide) u

-- A name that begins the name of a file out of a package and is in the text of its event
-- begins the name of the package.
theorem prefix_of_unpacked {location place rest : Str} {g : UUID} (hplace : place.head? = some '%')
    (hpre : location <+: place ++ '-' :: rest) (hin : location <:+: unpackedFrom place g) :
    location <+: place := by
  rcases List.prefix_or_prefix_of_prefix hpre (List.prefix_append place _) with h | ⟨more, rfl⟩
  · exact h
  · cases more with
    | nil => simp
    | cons c more =>
        rw [List.prefix_append_right_inj, List.cons_prefix_cons] at hpre
        obtain ⟨rfl, -⟩ := hpre
        have hafter : '%' ∉ " (".toList ++ g.string ++ ")".toList := by
          simp [percent_notMem_string g]
        refine absurd hin (not_infix_of_next hplace (by decide) hafter ?_)
        simp

theorem Sound.faithful (h : Sound t s) {f : File} {location : Str} (hf : f ∈ s.files)
    (ht : f.transfer = t) (hplace : f.place = some location) :
    alreadyExtracted s f location = true ↔ f.uuid ∈ s.extracted := by
  have hat : Located t s f.uuid location := ⟨f, hf, ht, rfl, hplace⟩
  rw [alreadyExtracted_iff ht]
  constructor
  · rintro ⟨e, he, htype, hdetail, -, place, hk, hpre⟩
    obtain ⟨g, hg, package, hpackage, hhead, htext, rest, rfl⟩ := h.unpacked e he htype place hk
    rw [htext] at hdetail
    exact h.separate f.uuid location g package hat hg hpackage
      (prefix_of_unpacked hhead hpre hdetail)
  · intro hmem
    obtain ⟨place, hg, e, he, htype, htext, hne, k, hk, hpre⟩ := h.evidence f.uuid hmem
    obtain rfl := hat.unique h.keys hg
    refine ⟨e, he, htype, ?_, hne, k, hk, hpre⟩
    rw [htext]
    exact ⟨_, _, rfl⟩

-- The command for the package succeeds, and these files under its directory get a row.
def Succeeds (r : Run) (file_ : File) (location : Str) (tree : List Found) : Prop :=
  ∃ command, r.command file_.uuid = .row command ∧ file_.place = some location ∧
    (r.exec file_ location command).exitstatus = 0 ∧
    recorded (r.exec file_ location command).tree = tree

-- uuid4 gives identifiers that no row has.
def Fresh (r : Run) (s : State) (file_ : File) : Prop :=
  ∀ location tree, Succeeds r file_ location tree →
    (tree.map (·.uuid)).Nodup ∧ ∀ found ∈ tree, found.uuid ∉ s.files.map (·.uuid)

-- The names of a package, of the files that come out of it and of the rows there are keep
-- the package apart from the others.
structure Clear (t : UUID) (r : Run) (s : State) (file_ : File) (location : Str)
    (tree : List Found) : Prop where
  some : tree ≠ []
  plain : Plain location
  package : ∀ f place, Located t s f place → place <+: location → f = file_.uuid ∨ f ∈ s.extracted
  files : ∀ found ∈ tree, ∀ g ∈ s.extracted, ∀ place, Located t s g place →
    ¬ unpackedLocation r location found.path <+: place

section Record

variable {r : Run} {file_ : File} {location : Str} {exec : Exec}

theorem record_eq (hdelete : r.delete = false) :
    (record t r file_ location exec s).state =
      { files := s.files ++ (recorded exec.tree).map (newRow t r file_ (r.inputFile location))
        events := s.events ++ (recorded exec.tree).flatMap (newEvents r file_ (r.inputFile location))
        extracted := s.extracted ++ [file_.uuid] } := by
  rw [record, hdelete]
  split_ifs with hraised hfalse
  · exact loop_assignUUID ..
  · cases hfalse
  · cases hfalse
  · exact loop_assignUUID ..

theorem located_record (hplain : Plain location) (hdelete : r.delete = false) {u : UUID} {l : Str} :
    Located t (record t r file_ location exec s).state u l ↔
      Located t s u l ∨
        ∃ found ∈ recorded exec.tree, found.uuid = u ∧ unpackedLocation r location found.path = l := by
  rw [record_eq hdelete]
  simp only [Located, List.mem_append, List.mem_map, or_and_right, exists_or, exists_exists_and_eq_and,
    newRow, relative_file hplain, Option.some.injEq, true_and]

theorem of_mem_newEvents {package : Str} {found : Found} {e : Event}
    (h : e ∈ newEvents r file_ package found) :
    e.fileUUID = found.uuid ∧
      (e.eventType = unpacking → e.eventDetail =
        unpackedFrom (replaceFirst r.sipDirectory transferDirectory package) file_.uuid) := by
  have hregistration : "registration".toList ≠ unpacking := by decide
  have hdigest : "message digest calculation".toList ≠ unpacking := by decide
  simp only [newEvents, List.cons_append, List.mem_cons, List.mem_append] at h
  rcases h with rfl | h | h
  · exact ⟨rfl, fun _ => rfl⟩
  · split_ifs at h
    · cases h
    · rw [List.mem_singleton] at h
      rw [h]
      exact ⟨rfl, fun htype => absurd htype hregistration⟩
  · split_ifs at h
    · rw [List.mem_singleton] at h
      rw [h]
      exact ⟨rfl, fun htype => absurd htype hdigest⟩
    · cases h

theorem mem_events_record (hdelete : r.delete = false) {e : Event} :
    e ∈ (record t r file_ location exec s).state.events ↔
      e ∈ s.events ∨ ∃ found ∈ recorded exec.tree, e ∈ newEvents r file_ (r.inputFile location) found := by
  rw [record_eq hdelete]
  simp only [List.mem_append, List.mem_flatMap]

theorem Plain.head? (h : Plain location) : location.head? = some '%' := by
  obtain ⟨rest, rfl, -⟩ := h
  rfl

theorem not_unpackedLocation_begins (r : Run) (location : Str) (found : Found) :
    ¬ unpackedLocation r location found.path <+: location := by
  obtain ⟨rest, hrest⟩ := unpackedLocation_eq r location found
  intro h
  have hlen := h.length_le
  rw [hrest, List.length_append, List.length_cons] at hlen
  omega

theorem extracted_record (hdelete : r.delete = false) :
    (record t r file_ location exec s).state.extracted = s.extracted ++ [file_.uuid] := by
  rw [record_eq hdelete]

theorem keys_record (hdelete : r.delete = false) :
    (record t r file_ location exec s).state.files.map (·.uuid) =
      s.files.map (·.uuid) ++ (recorded exec.tree).map (·.uuid) := by
  rw [record_eq hdelete]
  simp [newRow, Function.comp_def]

theorem nodup_keys_record (h : Sound t s) (hdelete : r.delete = false)
    (hfresh : ((recorded exec.tree).map (·.uuid)).Nodup ∧
      ∀ found ∈ recorded exec.tree, found.uuid ∉ s.files.map (·.uuid)) :
    ((record t r file_ location exec s).state.files.map (·.uuid)).Nodup := by
  rw [keys_record hdelete, List.nodup_append]
  refine ⟨h.keys, hfresh.1, ?_⟩
  intro u hu v hv heq
  obtain ⟨found, hf, rfl⟩ := List.mem_map.mp hv
  exact hfresh.2 found hf (heq ▸ hu)

-- An event of unpacking names the package of a row that was there or of one that came out.
theorem unpacked_record (h : Sound t s) (hdelete : r.delete = false)
    (hfile : Located t s file_.uuid location)
    (hfresh : ((recorded exec.tree).map (·.uuid)).Nodup ∧
      ∀ found ∈ recorded exec.tree, found.uuid ∉ s.files.map (·.uuid))
    (hplain : Plain location) {e : Event} (he : e ∈ (record t r file_ location exec s).state.events)
    (htype : e.eventType = unpacking) {l : Str}
    (hl : Located t (record t r file_ location exec s).state e.fileUUID l) :
    ∃ g ∈ (record t r file_ location exec s).state.extracted, ∃ place,
      Located t (record t r file_ location exec s).state g place ∧ place.head? = some '%' ∧
        e.eventDetail = unpackedFrom place g ∧ ∃ rest, l = place ++ '-' :: rest := by
  have hloc := @located_record t s r file_ location exec hplain hdelete
  rw [extracted_record hdelete]
  rcases (mem_events_record hdelete).mp he with he | ⟨found, hf, he⟩
  · rcases hloc.mp hl with hl | ⟨found, hf, huuid, -⟩
    · obtain ⟨g, hg, place, hplace, hrest⟩ := h.unpacked e he htype l hl
      exact ⟨g, List.mem_append_left _ hg, place, hloc.mpr (Or.inl hplace), hrest⟩
    · exact absurd (h.known e he) (huuid ▸ hfresh.2 found hf)
  · obtain ⟨huuid, htext⟩ := of_mem_newEvents he
    rw [huuid] at hl
    obtain rfl := hl.unique (nodup_keys_record h hdelete hfresh) (hloc.mpr (Or.inr ⟨found, hf, rfl, rfl⟩))
    refine ⟨file_.uuid, by simp, location, hloc.mpr (Or.inl hfile), hplain.head?, ?_,
      unpackedLocation_eq r location found⟩
    rw [htext htype, relative_package hplain]

-- A file came out of the package, and its event is the evidence.
theorem evidence_record (h : Sound t s) (hdelete : r.delete = false)
    (hfile : Located t s file_.uuid location)
    (hfresh : ∀ found ∈ recorded exec.tree, found.uuid ∉ s.files.map (·.uuid))
    (hplain : Plain location) (hsome : recorded exec.tree ≠ []) {g : UUID}
    (hg : g ∈ (record t r file_ location exec s).state.extracted) :
    ∃ place, Located t (record t r file_ location exec s).state g place ∧
      ∃ e ∈ (record t r file_ location exec s).state.events, e.eventType = unpacking ∧
        e.eventDetail = unpackedFrom place g ∧ e.fileUUID ≠ g ∧
          ∃ l, Located t (record t r file_ location exec s).state e.fileUUID l ∧ place <+: l := by
  have hloc := @located_record t s r file_ location exec hplain hdelete
  have hevents := @mem_events_record t s r file_ location exec hdelete
  rw [extracted_record hdelete, List.mem_append, List.mem_singleton] at hg
  rcases hg with hg | rfl
  · obtain ⟨place, hplace, e, he, htype, htext, hne, l, hl, hpre⟩ := h.evidence g hg
    exact ⟨place, hloc.mpr (Or.inl hplace), e, hevents.mpr (Or.inl he), htype, htext, hne, l,
      hloc.mpr (Or.inl hl), hpre⟩
  · obtain ⟨found, hf⟩ := List.exists_mem_of_ne_nil _ hsome
    obtain ⟨rest, hrest⟩ := unpackedLocation_eq r location found
    have hne : found.uuid ≠ file_.uuid := fun heq => hfresh found hf (heq ▸ hfile.mem_keys)
    refine ⟨location, hloc.mpr (Or.inl hfile), ⟨found.uuid, unpacking, unpackedFrom location file_.uuid⟩,
      hevents.mpr (Or.inr ⟨found, hf, ?_⟩), rfl, rfl, hne, _,
      hloc.mpr (Or.inr ⟨found, hf, rfl, rfl⟩), hrest ▸ List.prefix_append _ _⟩
    rw [newEvents, relative_package hplain]
    exact List.mem_cons_self

-- The names stay apart.
theorem separate_record (h : Sound t s) (hdelete : r.delete = false)
    (hfile : Located t s file_.uuid location)
    (hfresh : ∀ found ∈ recorded exec.tree, found.uuid ∉ s.files.map (·.uuid))
    (hclear : Clear t r s file_ location (recorded exec.tree)) {f g : UUID} {l place : Str}
    (hf : Located t (record t r file_ location exec s).state f l)
    (hg : g ∈ (record t r file_ location exec s).state.extracted)
    (hplace : Located t (record t r file_ location exec s).state g place) (hpre : l <+: place) :
    f ∈ (record t r file_ location exec s).state.extracted := by
  have hloc := @located_record t s r file_ location exec hclear.plain hdelete
  rw [extracted_record hdelete, List.mem_append, List.mem_singleton] at hg ⊢
  rcases hloc.mp hplace with hplace | ⟨found, hfound, rfl, -⟩
  · rcases hloc.mp hf with hold | ⟨found, hfound, rfl, rfl⟩
    · rcases hg with hg | rfl
      · exact Or.inl (h.separate f l g place hold hg hplace hpre)
      · obtain rfl := hplace.unique h.keys hfile
        exact (hclear.package f l hold hpre).symm
    · rcases hg with hg | rfl
      · exact absurd hpre (hclear.files found hfound g hg place hplace)
      · obtain rfl := hplace.unique h.keys hfile
        exact absurd hpre (not_unpackedLocation_begins r _ found)
  · -- a file that came out in this turn was not extracted before it
    rcases hg with hg | heq
    · obtain ⟨place', hplace', -⟩ := h.evidence _ hg
      exact absurd hplace'.mem_keys (hfresh found hfound)
    · exact absurd hfile.mem_keys (heq ▸ hfresh found hfound)

theorem sound_record (h : Sound t s) (hdelete : r.delete = false) (hfile : Located t s file_.uuid location)
    (hnew : file_.uuid ∉ s.extracted)
    (hfresh : ((recorded exec.tree).map (·.uuid)).Nodup ∧
      ∀ found ∈ recorded exec.tree, found.uuid ∉ s.files.map (·.uuid))
    (hclear : Clear t r s file_ location (recorded exec.tree)) :
    Sound t (record t r file_ location exec s).state := by
  refine ⟨nodup_keys_record h hdelete hfresh, ?_, ?_, ?_, ?_, ?_⟩
  · rw [extracted_record hdelete, List.nodup_append]
    refine ⟨h.nodup, List.nodup_singleton _, ?_⟩
    intro u hu v hv heq
    exact hnew (List.mem_singleton.mp hv ▸ heq ▸ hu)
  · intro e he
    rw [keys_record hdelete, List.mem_append]
    rcases (mem_events_record hdelete).mp he with he | ⟨found, hf, he⟩
    · exact Or.inl (h.known e he)
    · exact Or.inr ((of_mem_newEvents he).1 ▸ List.mem_map_of_mem hf)
  · intro e he htype l hl
    exact unpacked_record h hdelete hfile hfresh hclear.plain he htype hl
  · intro g hg
    exact evidence_record h hdelete hfile hfresh.2 hclear.plain hclear.some hg
  · intro f l g place hf hg hplace hpre
    exact separate_record h hdelete hfile hfresh.2 hclear hf hg hplace hpre

end Record

-- A turn leaves the rows as they are, or it extracts a package.
theorem turn_cases (t : UUID) (r : Run) (s : State) (file_ : File) :
    (turn t r s file_).state = s ∨
      ∃ command location, r.command file_.uuid = .row command ∧ file_.place = some location ∧
        alreadyExtracted s file_ location = false ∧ (r.exec file_ location command).exitstatus = 0 ∧
        turn t r s file_ = record t r file_ location (r.exec file_ location command) s := by
  rw [turn]
  rcases hcommand : r.command file_.uuid with _ | command | _
  · exact Or.inl rfl
  · rcases hplace : file_.place with _ | location
    · exact Or.inl rfl
    · cases hdone : alreadyExtracted s file_ location with
      | true => exact Or.inl (by simp [hdone])
      | false =>
          by_cases hstatus : (r.exec file_ location command).exitstatus = 0
          · exact Or.inr ⟨command, location, rfl, rfl, hdone, hstatus, by simp [hdone, hstatus]⟩
          · exact Or.inl (by simp [hdone, hstatus])
  · exact Or.inl rfl

-- A turn takes up a row of the transfer that is still there.
theorem sound_turn {r : Run} {file_ : File} (h : Sound t s) (hdelete : r.delete = false)
    (hmem : file_ ∈ s.files) (ht : file_.transfer = t) (hfresh : Fresh r s file_)
    (hclear : ∀ location tree, Succeeds r file_ location tree → file_.uuid ∉ s.extracted →
      Clear t r s file_ location tree) : Sound t (turn t r s file_).state := by
  rcases turn_cases t r s file_ with heq | ⟨command, location, hcommand, hplace, hdone, hstatus, heq⟩
  · rw [heq]
    exact h
  · rw [heq]
    have hsucceeds : Succeeds r file_ location (recorded (r.exec file_ location command).tree) :=
      ⟨command, hcommand, hplace, hstatus, rfl⟩
    have hnew : file_.uuid ∉ s.extracted := fun hin => by
      rw [(h.faithful hmem ht hplace).mpr hin] at hdone
      cases hdone
    exact sound_record h hdelete ⟨file_, hmem, ht, rfl, hplace⟩ hnew (hfresh _ _ hsucceeds)
      (hclear _ _ hsucceeds hnew)

-- Without delete a turn only adds.
theorem subset_turn {r : Run} (hdelete : r.delete = false) (file_ : File) :
    s.files ⊆ (turn t r s file_).state.files ∧ s.extracted ⊆ (turn t r s file_).state.extracted := by
  rcases turn_cases t r s file_ with heq | ⟨command, location, -, -, -, -, heq⟩
  · rw [heq]
    exact ⟨List.Subset.refl _, List.Subset.refl _⟩
  · rw [heq, record_eq hdelete]
    exact ⟨List.subset_append_left _ _, List.subset_append_left _ _⟩

theorem subset_loop {r : Run} (hdelete : r.delete = false) (files : List File) :
    s.files ⊆ (loop (turn t r) s files).state.files ∧
      s.extracted ⊆ (loop (turn t r) s files).state.extracted := by
  induction files generalizing s with
  | nil => exact ⟨List.Subset.refl _, List.Subset.refl _⟩
  | cons file_ files ih =>
      obtain ⟨hfiles, hextracted⟩ := @subset_turn t s r hdelete file_
      rw [loop]
      split_ifs
      · exact ⟨hfiles, hextracted⟩
      · exact ⟨List.Subset.trans hfiles ih.1, List.Subset.trans hextracted ih.2⟩

theorem loop_append {α : Type} (turn : State → α → Done) (s : State) (front back : List α) :
    loop turn s (front ++ back) =
      if (loop turn s front).raised then loop turn s front
      else loop turn (loop turn s front).state back := by
  induction front generalizing s with
  | nil => rfl
  | cons item front ih =>
      rw [List.cons_append, loop, loop]
      by_cases hraised : (turn s item).raised
      · rw [if_pos hraised, if_pos hraised, if_pos hraised]
      · rw [if_neg hraised, if_neg hraised, ih]

-- The loop of one run, turn by turn up to one that raises, and the runs one after the other.
def turnStep (t : UUID) (r : Run) (done : Done) (file_ : File) : Option Done :=
  if done.raised then none else some (turn t r done.state file_)

def step (t : UUID) (s : State) (r : Run) : Option State := some (main t r s).1

-- A run without delete, over the rows that it reads in some order.
structure Given (t : UUID) (s : State) (r : Run) : Prop where
  keep : r.delete = false
  files : r.files.Perm (s.rows t)
  fresh : Meets (turnStep t r) (fun done => Fresh r done.state) ⟨s, false⟩ r.files

-- Every package that the run is the first to extract is clear of the others.
def RunClear (t : UUID) (s : State) (r : Run) : Prop :=
  Meets (turnStep t r)
    (fun done file_ => ∀ location tree, Succeeds r file_ location tree →
      file_.uuid ∉ done.state.extracted → Clear t r done.state file_ location tree) ⟨s, false⟩ r.files

-- What is inferred of each package is what happened, and none was extracted twice.
def Faithful (t : UUID) (s : State) : Prop :=
  (∀ f ∈ s.rows t, ∀ location, f.place = some location →
    (alreadyExtracted s f location = true ↔ f.uuid ∈ s.extracted)) ∧ s.extracted.Nodup

-- A package whose command succeeds has been extracted when the run ends, if the run comes to
-- it: nothing raises before.
def NoneSkipped (t : UUID) (s : State) (r : Run) : Prop :=
  ∀ front f back, r.files = front ++ f :: back → (loop (turn t r) s front).raised = false →
    ∀ location tree, Succeeds r f location tree → f.uuid ∈ (main t r s).1.extracted

theorem mem_rows {f : File} : f ∈ s.rows t ↔ f ∈ s.files ∧ f.transfer = t ∧ f.place.isSome := by
  simp [State.rows]

theorem run_turnStep {r : Run} {front : List File} (h : (loop (turn t r) s front).raised = false) :
    run (turnStep t r) ⟨s, false⟩ front = some (loop (turn t r) s front) := by
  induction front generalizing s with
  | nil => rfl
  | cons file_ front ih =>
      have hstep : turnStep t r ⟨s, false⟩ file_ = some (turn t r s file_) := rfl
      rw [run_cons, hstep, Option.bind_some]
      rw [loop] at h ⊢
      cases hraised : (turn t r s file_).raised with
      | true => simp [hraised] at h
      | false =>
          simp only [hraised, Bool.false_eq_true, if_false] at h ⊢
          have hturn : turn t r s file_ = ⟨(turn t r s file_).state, false⟩ := by rw [← hraised]
          rw [hturn]
          exact ih h

-- The state before each turn of a run, and after it.
theorem sound_front {r : Run} (h : Sound t s) (hgiven : Given t s r) (hclear : RunClear t s r)
    {front back : List File} (hfiles : r.files = front ++ back) :
    Sound t (loop (turn t r) s front).state := by
  have hrows : ∀ f ∈ r.files, f ∈ s.files ∧ f.transfer = t := by
    intro f hf
    obtain ⟨hmem, ht, -⟩ := mem_rows.mp (hgiven.files.mem_iff.mp hf)
    exact ⟨hmem, ht⟩
  induction front using List.reverseRecOn generalizing back with
  | nil => exact h
  | append_singleton front file_ ih =>
      rw [List.append_assoc, List.singleton_append] at hfiles
      have hsound := ih hfiles
      rw [loop_append]
      split_ifs with hraised
      · exact hsound
      · have hrun := run_turnStep (Bool.eq_false_iff.mpr hraised)
        have hstep : turnStep t r (loop (turn t r) s front) file_ =
            some (turn t r (loop (turn t r) s front).state file_) := if_neg hraised
        have hin : file_ ∈ r.files := hfiles ▸ by simp
        have hkept := (@subset_loop t s r hgiven.keep front).1
        have hfresh := (meets_iff_run _ _ _ _).mp hgiven.fresh front file_ back _ _ hfiles hrun hstep
        have hhere := (meets_iff_run _ _ _ _).mp hclear front file_ back _ _ hfiles hrun hstep
        have hturn := sound_turn hsound hgiven.keep (hkept (hrows file_ hin).1) (hrows file_ hin).2 hfresh hhere
        rw [loop]
        split_ifs
        · exact hturn
        · exact hturn

theorem sound_main {r : Run} (h : Sound t s) (hgiven : Given t s r) (hclear : RunClear t s r) :
    Sound t (main t r s).1 :=
  sound_front h hgiven hclear (List.append_nil r.files).symm

theorem noneSkipped_main {r : Run} (h : Sound t s) (hgiven : Given t s r)
    (hclear : RunClear t s r) : NoneSkipped t s r := by
  intro front f back hfiles hraised location tree hsucceeds
  obtain ⟨hmem, ht, -⟩ := mem_rows.mp (hgiven.files.mem_iff.mp (hfiles ▸ by simp : f ∈ r.files))
  have hsound := sound_front h hgiven hclear hfiles
  have hkept := (@subset_loop t s r hgiven.keep front).1
  have hturn : f.uuid ∈ (turn t r (loop (turn t r) s front).state f).state.extracted := by
    obtain ⟨command, hcommand, hplace, hstatus, -⟩ := hsucceeds
    simp only [turn, hcommand, hplace, hstatus, if_true]
    split_ifs with hdone
    · exact (hsound.faithful (hkept hmem) ht hplace).mp hdone
    · rw [record_eq hgiven.keep]
      simp
  rw [main, hfiles, loop_append, hraised, if_neg Bool.false_ne_true, loop]
  simp only []
  split_ifs
  · exact hturn
  · exact (subset_loop hgiven.keep back).2 hturn

theorem Sound.toFaithful (h : Sound t s) : Faithful t s := by
  refine ⟨fun f hf location hplace => ?_, h.nodup⟩
  obtain ⟨hmem, ht, -⟩ := mem_rows.mp hf
  exact h.faithful hmem ht hplace

-- The rows of a transfer of which nothing was extracted so far.
structure Start (t : UUID) (s : State) : Prop where
  keys : (s.files.map (·.uuid)).Nodup
  known : ∀ e ∈ s.events, e.fileUUID ∈ s.files.map (·.uuid)
  packed : ∀ e ∈ s.events, e.eventType = unpacking → ∀ location, ¬ Located t s e.fileUUID location
  extracted : s.extracted = []

theorem Start.sound (h : Start t s) : Sound t s := by
  refine ⟨h.keys, ?_, h.known, ?_, ?_, ?_⟩
  · rw [h.extracted]
    exact List.nodup_nil
  · exact fun e he htype location hlocation => absurd hlocation (h.packed e he htype location)
  · simp [h.extracted]
  · simp [h.extracted]

-- Along every sequence of runs the packages that are inferred to be extracted are those
-- that were, each was extracted once, and none was passed over.
theorem extracted_exactly {runs : List Run} (hstart : Start t s)
    (hgiven : Meets (step t) (Given t) s runs) (hclear : Meets (step t) (RunClear t) s runs) :
    Always (step t) (Faithful t) s runs ∧ Meets (step t) (NoneSkipped t) s runs := by
  have hboth : Meets (step t) (fun s r => Given t s r ∧ RunClear t s r) s runs := by
    refine (meets_iff_run _ _ s _).mpr fun front r back mid next hruns hrun hstep => ⟨?_, ?_⟩
    · exact (meets_iff_run _ _ s _).mp hgiven front r back mid next hruns hrun hstep
    · exact (meets_iff_run _ _ s _).mp hclear front r back mid next hruns hrun hstep
  have hkeep : ∀ s r next, Sound t s → Given t s r ∧ RunClear t s r → step t s r = some next →
      Sound t next := by
    intro s r next hs hr hstep
    obtain rfl := Option.some.inj hstep
    exact sound_main hs hr.1 hr.2
  constructor
  · exact always_of_meets (step t) (Sound t) (Faithful t) _ hkeep (fun _ hs => hs.toFaithful) runs
      hstart.sound hboth
  · exact meets_of_meets (step t) (Sound t) _ (NoneSkipped t) hkeep
      (fun _ r _ hs hr _ => noneSkipped_main hs hr.1 hr.2) runs hstart.sound hboth

namespace Example

-- Two archives, the name of the second being the start of the name of the first.

def package (n : Nat) (name : Str) : File :=
  ⟨⟨n⟩, .nil, transferDirectory ++ name, some (transferDirectory ++ name)⟩

def zip : File := package 1 "objects/a.zip".toList

def bare : File := package 2 "objects/a".toList

def start (files : List File) : State := ⟨files, [], []⟩

-- The two archives have one file each.
def one (uuid : UUID) : List Found :=
  if uuid = zip.uuid then [⟨⟨3⟩, "letter.txt".toList, by decide, true, true⟩]
  else [⟨⟨4⟩, "note.txt".toList, by decide, true, true⟩]

-- Every command of the run succeeds and leaves these files.
def run (files : List File) (tree : UUID → List Found) : Run where
  sipDirectory := "/shared/currentlyProcessing/papers/".toList
  date := "2024-08-01".toList
  delete := false
  diruuids := false
  accessionid := []
  checksumType := "sha256".toList
  files := files
  command := fun _ => .row ⟨.command, "unar -o %outputDirectory% %inputFile%".toList⟩
  executeOrRun := fun uuid _ _ => ⟨0, tree uuid, true, true⟩

theorem tree_eq {files : List File} {tree : UUID → List Found} {tree' : List Found} {f : File}
    {location : Str} (h : Succeeds (run files tree) f location tree') : tree' = recorded (tree f.uuid) := by
  obtain ⟨command, -, -, -, rfl⟩ := h
  rfl

theorem start_packed {files : List File} (hkeys : (files.map (·.uuid)).Nodup) :
    Start .nil (start files) :=
  ⟨hkeys, by simp [start], by simp [start], rfl⟩

theorem fresh_of_decide {files : List File} {tree : UUID → List Found} {s : State} {f : File}
    (h : ((recorded (tree f.uuid)).map (·.uuid)).Nodup ∧
      ∀ u ∈ (recorded (tree f.uuid)).map (·.uuid), u ∉ s.files.map (·.uuid)) : Fresh (run files tree) s f := by
  intro location tree' hsucceeds
  rw [tree_eq hsucceeds]
  exact ⟨h.1, fun found hfound => h.2 _ (List.mem_map_of_mem hfound)⟩

end Example

theorem extracted_exactly_zip :
    Start .nil (Example.start [Example.zip]) ∧
      Always (step .nil) (Faithful .nil) (Example.start [Example.zip])
        [Example.run [Example.zip] Example.one] ∧
      Meets (step .nil) (NoneSkipped .nil) (Example.start [Example.zip])
        [Example.run [Example.zip] Example.one] := by
  have hstart : Start .nil (Example.start [Example.zip]) := Example.start_packed (by decide)
  refine ⟨hstart, extracted_exactly hstart ⟨⟨rfl, List.Perm.refl _, ?_, trivial⟩, trivial⟩
    ⟨⟨?_, trivial⟩, trivial⟩⟩
  · exact Example.fresh_of_decide (by decide)
  · intro location tree h hnew
    obtain rfl := Example.tree_eq h
    obtain ⟨-, -, hplace, -, -⟩ := h
    obtain rfl : transferDirectory ++ "objects/a.zip".toList = location := Option.some.inj hplace
    refine ⟨by decide, ⟨"objects/a.zip".toList, rfl, ?_⟩, ?_, ?_⟩
    · rw [← occursIn_iff]
      decide
    · rintro f place ⟨k, hk, -, rfl, -⟩ -
      rw [List.mem_singleton.mp hk]
      exact Or.inl rfl
    · simp [Example.start]

-- An archive without files is extracted again by the next run, and an archive whose name
-- begins the name of another is passed over once that one is extracted.
theorem inferred_wrong :
    (Start .nil (Example.start [Example.zip]) ∧
      Meets (step .nil) (Given .nil) (Example.start [Example.zip])
        [Example.run [Example.zip] fun _ => [], Example.run [Example.zip] fun _ => []] ∧
      ¬ Always (step .nil) (Faithful .nil) (Example.start [Example.zip])
        [Example.run [Example.zip] fun _ => [], Example.run [Example.zip] fun _ => []]) ∧
    (Start .nil (Example.start [Example.zip, Example.bare]) ∧
      Meets (step .nil) (Given .nil) (Example.start [Example.zip, Example.bare])
        [Example.run [Example.zip, Example.bare] Example.one] ∧
      ¬ Always (step .nil) (Faithful .nil) (Example.start [Example.zip, Example.bare])
        [Example.run [Example.zip, Example.bare] Example.one] ∧
      ¬ Meets (step .nil) (NoneSkipped .nil) (Example.start [Example.zip, Example.bare])
        [Example.run [Example.zip, Example.bare] Example.one]) := by
  refine ⟨⟨Example.start_packed (by decide), ⟨?_, ?_, trivial⟩, ?_⟩,
    Example.start_packed (by decide), ⟨?_, trivial⟩, ?_, ?_⟩
  · exact ⟨rfl, List.Perm.refl _, Example.fresh_of_decide (by decide), trivial⟩
  · exact ⟨rfl, List.Perm.refl _, Example.fresh_of_decide (by decide), trivial⟩
  · rintro ⟨-, -, -, htwice⟩
    exact absurd htwice (by decide)
  · exact ⟨rfl, List.Perm.refl _, Example.fresh_of_decide (by decide),
      Example.fresh_of_decide (by decide), trivial⟩
  · rintro ⟨-, hinferred, -⟩
    have hbare := (hinferred Example.bare (by decide) _ rfl).mp (by decide)
    exact absurd hbare (by decide)
  · rintro ⟨hnone, -⟩
    have hbare := hnone [Example.zip] Example.bare [] rfl (by decide) _ _ ⟨_, rfl, rfl, rfl, rfl⟩
    exact absurd hbare (by decide)

end Ccp.Worker.ExtractContents
