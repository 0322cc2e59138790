import Ccp.Lib.PosixPath
import Ccp.Lib.Text
import Ccp.Uuid
import Mathlib.Data.List.Perm.Basic

namespace Ccp.Worker.Maildir

open Lib

-- What is read of the header of a part: whether the subject can be decoded and the addresses be
-- parsed, the parameters of its Content-Disposition, and its file name, which may not decode.
structure Header where
  subject : Bool
  addresses : Bool
  messageId : Option Str
  disposition : List (Str × Str)
  filename : Option (Option Str)

-- A part of a message with what its payload decodes to, or with the parts in it: those of a
-- multipart, or the message that is attached.
inductive Part
  | leaf (header : Header) (data : List UInt8)
  | multipart (header : Header) (parts : List Part)

def Part.header : Part → Header
  | leaf header _ => header
  | multipart header _ => header

-- What the script takes from the standard library: the parser of messages, if the name is there,
-- and StringIO of some bytes, if that is not an error.
structure Library where
  parser : Option (List UInt8 → Part)
  stringIO : List UInt8 → Option Str

-- The package email has no name Parser any more, and StringIO takes texts only.
def python3 : Library := ⟨none, fun _ => none⟩

structure Attachment where
  name : Str
  content : Str
  part : Part

structure File where
  uuid : UUID
  currentlocation : Str

-- A file that was written for an attachment.
structure Extracted where
  part : Part
  uuid : UUID

-- The failures are those of the whole run, which the script itself does not count.
structure State where
  errorCount : ℕ
  failures : ℕ
  sourceFilePath : Option Str
  attachments : List Attachment
  files : List File
  extracted : List Extracted
  calls : ℕ

namespace State

def error (s : State) : State := { s with errorCount := s.errorCount + 1, failures := s.failures + 1 }

def attach (s : State) (a : Attachment) : State := { s with attachments := s.attachments ++ [a] }

def call (s : State) : State := { s with calls := s.calls + 1 }

-- What parse begins with.
def reset (s : State) : State := { s with errorCount := 0, attachments := [] }

def setPath (s : State) (path : Str) : State := { s with sourceFilePath := some path }

def addFile (s : State) (f : File) : State := { s with files := s.files ++ [f] }

def extract (s : State) (e : Extracted) : State := { s with extracted := s.extracted ++ [e] }

end State

-- maildir.py

def Header.attachment (h : Header) : Bool := (h.disposition.map Prod.fst).contains "attachment".toList

def removeNewlines (name : Str) : Str := name.filter fun c => c ≠ '\r' ∧ c ≠ '\n'

section Parse

variable (lib : Library) (uuid4 : ℕ → UUID)

-- An attachment without a file name gets a random one.
def nameAttachment (part : Part) (content : Str) (s : State) : State :=
  match part.header.filename with
  | some none => s.error
  | some (some name) => s.attach ⟨removeNewlines name, content, part⟩
  | none => s.call.attach ⟨removeNewlines (uuid4 s.calls).string, content, part⟩

def leafAttachment (header : Header) (data : List UInt8) (s : State) : State :=
  if header.attachment then
    match lib.stringIO data with
    | none => s.error
    | some content => nameAttachment uuid4 (.leaf header data) content s
  else s

-- parse_attachment catches what parse2 raises.
def recover : State × Bool → State
  | (s, raised) => if raised then s.error else s

mutual

-- parse_attachment of the part and of those below it, in the order of walk.
def walk : Part → State → State
  | .leaf header data, s => leafAttachment lib uuid4 header data s
  | .multipart header parts, s =>
      walkAll parts (if header.attachment then recover (parse2All parts s) else s)

def walkAll : List Part → State → State
  | [], s => s
  | part :: parts, s => walkAll parts (walk part s)

-- parse2 of each of the messages, up to one that raises.
def parse2All : List Part → State → State × Bool
  | [], s => (s, false)
  | part :: parts, s =>
      if part.header.subject then
        if part.header.addresses then parse2All parts (walk part s) else (walk part s, true)
      else (s, true)

end

-- None for a message that is not parsed.
def parse (content : List UInt8) (s : State) : State × Option Part :=
  match lib.parser with
  | none => (s.reset, none)
  | some parser =>
      match parse2All lib uuid4 [parser content] s.reset with
      | (s, true) => (s, none)
      | (s, false) => (s, some (parser content))

end Parse

-- extract_maildir_attachments.py

-- A message of a Maildir, with the parts that it has; without a subdirectory or a file it cannot be
-- read.
structure Item where
  key : Str
  subdir : Option Str
  file : Option (List UInt8)
  message : Part

-- The keys fail when the directory is not a Maildir.
structure Sub where
  name : Str
  keys : Option (List Item)

-- The run: where the transfer is, and which files can be written and get their rows.
structure Job where
  transferDir : Str
  writable : Str → Bool

def transferDirectory : Str := "%transferDirectory%".toList

def relative (job : Job) (path : Str) : Str := replaceFirst job.transferDir transferDirectory path

def objectsDir (job : Job) (parts : List Str) : Str :=
  parts.foldl PosixPath.join (PosixPath.join job.transferDir "objects".toList)

-- Whether the source file has at most one row.
def sourceFileFound (files : List File) (path : Str) : Bool :=
  (files.filter fun f => path.isPrefixOf f.currentlocation).length ≤ 1

def rtfBody : Str := "rtf-body.rtf".toList

section Run

variable (lib : Library) (uuid4 : ℕ → UUID) (job : Job)

def handleAttachment (sub : Sub) (subDir : Str) (s : State) (a : Attachment) : State :=
  if a.name = rtfBody then s
  else
    let uuid := uuid4 s.calls
    let path := objectsDir job ["attachments".toList, sub.name, subDir, uuid.string ++ '_' :: a.name]
    if job.writable path then (s.call.extract ⟨a.part, uuid⟩).addFile ⟨uuid, relative job path⟩
    else s.call.error

-- The except branch names sourceFilePath: true when that has no value yet.
def failItem (s : State) : State × Bool := (s.error, s.sourceFilePath.isNone)

def handleParsed (sub : Sub) (subDir : Str) : State × Option Part → State × Bool
  | (s, none) => failItem s
  | (s, some message) =>
      if s.attachments.isEmpty then (s, false)
      else match message.header.messageId with
        | none => failItem s
        | some _ => (s.attachments.foldl (handleAttachment uuid4 job sub subDir) s, false)

def handleItem (sub : Sub) (s : State) (item : Item) : State × Bool :=
  match item.subdir with
  | none => failItem s
  | some subDir =>
      let path := relative job (objectsDir job ["Maildir".toList, sub.name, subDir, item.key])
      if sourceFileFound s.files path then
        match item.file with
        | none => failItem (s.setPath path)
        | some content => handleParsed uuid4 job sub subDir (parse lib uuid4 content (s.setPath path))
      else failItem (s.setPath path)

def handleItems (sub : Sub) : List Item → State → State × Bool
  | [], s => (s, false)
  | item :: items, s =>
      match handleItem lib uuid4 job sub s item with
      | (s, true) => (s, true)
      | (s, false) => handleItems sub items s

def addKeyFile (sub : Sub) (s : State) : State :=
  s.call.addFile ⟨uuid4 s.calls,
    relative job (objectsDir job ["attachments".toList, sub.name ++ ".archivematicaMaildir".toList])⟩

-- The status of the job with what it leaves behind.
def handleSubs : List Sub → State → ℕ × State
  | [], s => (s.errorCount, s)
  | sub :: subs, s =>
      match sub.keys with
      | none => (246, s)
      | some items =>
          match handleItems lib uuid4 job sub items s with
          | (s, true) => (246, s)
          | (s, false) => handleSubs subs (addKeyFile uuid4 job sub s)

def handleJob (subs : List Sub) (files : List File) : ℕ × State :=
  handleSubs lib uuid4 job subs ⟨0, 0, none, [], files, [], 0⟩

end Run

-- What there is to extract.

mutual

def named : Part → List Part
  | .leaf header data => if header.attachment && header.filename.isSome then [.leaf header data] else []
  | .multipart _ parts => namedAll parts

def namedAll : List Part → List Part
  | [] => []
  | part :: parts => named part ++ namedAll parts

end

def Sub.attachments (sub : Sub) : List Part := (sub.keys.getD []).flatMap fun item => named item.message

-- Each attachment is extracted once, with one row, and the status tells whether anything failed.
structure Contract (subs : List Sub) (result : ℕ × State) : Prop where
  extracted : (result.2.extracted.map Extracted.part).Perm (subs.flatMap Sub.attachments)
  rows : ∀ e ∈ result.2.extracted, (result.2.files.filter fun f => f.uuid = e.uuid).length = 1
  status : result.1 = 0 ↔ result.2.failures = 0

-- The counter of the script is zero only where nothing has failed.
def Synced (s : State) : Prop := s.errorCount = 0 ↔ s.failures = 0

section Python3

variable (uuid4 : ℕ → UUID) (job : Job) (sub : Sub)

theorem synced_failItem (s : State) : Synced (failItem s).1 ∧ (failItem s).1.failures ≠ 0 ∧
    (failItem s).1.extracted = s.extracted := by
  refine ⟨?_, Nat.succ_ne_zero _, rfl⟩
  constructor
  · intro h
    exact absurd h (Nat.succ_ne_zero _)
  · intro h
    exact absurd h (Nat.succ_ne_zero _)

theorem parse_python3 (content : List UInt8) (s : State) :
    parse python3 uuid4 content s = (s.reset, none) := rfl

-- Every message fails.
theorem handleItem_python3 (s : State) (item : Item) :
    ∃ s', handleItem python3 uuid4 job sub s item = failItem s' ∧ s'.extracted = s.extracted := by
  unfold handleItem
  cases item.subdir with
  | none => exact ⟨s, rfl, rfl⟩
  | some subDir =>
      simp only [parse_python3, handleParsed]
      split_ifs
      · cases item.file with
        | none => exact ⟨_, rfl, rfl⟩
        | some content => exact ⟨_, rfl, rfl⟩
      · exact ⟨_, rfl, rfl⟩

structure Followed (s : State) (result : State × Bool) : Prop where
  extracted : result.1.extracted = s.extracted
  synced : Synced s → Synced result.1
  crashed : result.2 = true → result.1.failures ≠ 0

theorem handleItems_python3 (items : List Item) (s : State) :
    Followed s (handleItems python3 uuid4 job sub items s) := by
  induction items generalizing s with
  | nil => exact ⟨rfl, id, fun h => absurd h Bool.false_ne_true⟩
  | cons item items ih =>
      obtain ⟨s', hitem, hsame⟩ := handleItem_python3 uuid4 job sub s item
      obtain ⟨hsynced, hfailures, hextracted⟩ := synced_failItem s'
      rw [handleItems, hitem]
      rcases hfail : failItem s' with ⟨next, crash⟩
      rw [hfail] at hsynced hfailures hextracted
      cases crash with
      | true => exact ⟨hextracted.trans hsame, fun _ => hsynced, fun _ => hfailures⟩
      | false =>
          have hrest := ih next
          exact ⟨hrest.extracted.trans (hextracted.trans hsame), fun _ => hrest.synced hsynced, hrest.crashed⟩

theorem handleSubs_python3 (subs : List Sub) (hmaildir : ∀ sub ∈ subs, sub.keys.isSome = true) (s : State)
    (hs : Synced s) :
    (handleSubs python3 uuid4 job subs s).2.extracted = s.extracted ∧
      ((handleSubs python3 uuid4 job subs s).1 = 0 ↔ (handleSubs python3 uuid4 job subs s).2.failures = 0) := by
  induction subs generalizing s with
  | nil => exact ⟨rfl, hs⟩
  | cons sub subs ih =>
      rw [List.forall_mem_cons] at hmaildir
      obtain ⟨items, hitems⟩ := Option.isSome_iff_exists.mp hmaildir.1
      have hfollowed := handleItems_python3 uuid4 job sub items s
      rw [handleSubs, hitems]
      simp only
      rcases hrun : handleItems python3 uuid4 job sub items s with ⟨next, crash⟩
      rw [hrun] at hfollowed
      cases crash with
      | true =>
          refine ⟨hfollowed.extracted, ?_⟩
          constructor
          · intro h
            cases h
          · intro h
            exact absurd h (hfollowed.crashed rfl)
      | false =>
          obtain ⟨hextracted, hstatus⟩ := ih hmaildir.2 (addKeyFile uuid4 job sub next) (hfollowed.synced hs)
          exact ⟨hextracted.trans hfollowed.extracted, hstatus⟩

theorem extractedOnce_iff (subs : List Sub) (files : List File) (hmaildir : ∀ sub ∈ subs, sub.keys.isSome = true) :
    Contract subs (handleJob python3 uuid4 job subs files) ↔ ∀ sub ∈ subs, sub.attachments = [] := by
  obtain ⟨hextracted, hstatus⟩ := handleSubs_python3 uuid4 job subs hmaildir
    ⟨0, 0, none, [], files, [], 0⟩ (Iff.refl _)
  have hnone : (handleJob python3 uuid4 job subs files).2.extracted = [] := hextracted
  rw [← List.flatMap_eq_nil_iff]
  constructor
  · intro h
    have hperm := h.extracted
    rw [hnone, List.map_nil] at hperm
    exact hperm.nil_eq.symm
  · intro h
    refine ⟨by rw [hnone, h]; rfl, fun e he => ?_, hstatus⟩
    rw [hnone] at he
    exact absurd he List.not_mem_nil

end Python3

-- A message with one attachment, and one without.

def attached : Header :=
  ⟨true, true, some "<1@example>".toList, [("attachment".toList, []), ("filename".toList, "a.txt".toList)],
    some (some "a.txt".toList)⟩

def body : Header := ⟨true, true, some "<2@example>".toList, [], none⟩

def inbox (message : Part) : List Sub :=
  [⟨"inbox".toList, some [⟨"1:2,S".toList, some "cur".toList, some [104, 105], message⟩]⟩]

def onDisk : Job := ⟨"/transfer/".toList, fun _ => true⟩

theorem contract_body :
    Contract (inbox (.leaf body [104, 105])) (handleJob python3 (fun _ => UUID.nil) onDisk
      (inbox (.leaf body [104, 105])) []) :=
  (extractedOnce_iff _ onDisk _ [] (by decide)).mpr (by decide)

theorem attachment_not_extracted :
    ¬ Contract (inbox (.leaf attached [104, 105])) (handleJob python3 (fun _ => UUID.nil) onDisk
      (inbox (.leaf attached [104, 105])) []) := by
  intro h
  have hlength := h.extracted.length_eq
  rw [List.length_map] at hlength
  exact absurd hlength (by decide)

end Ccp.Worker.Maildir
