import Ccp.Lib.PosixPath
import Ccp.Lib.Text
import Ccp.Worker.OnceNormalized

namespace Ccp.Worker.RetryNormalize

open Lib
open OnceNormalized (Derivation)

-- A row of a file with what the removal of normalized files reads and writes of it.
structure File where
  uuid : UUID
  sip : UUID
  currentlocation : Option Str
  filegrpuse : Str
  removed : Bool
deriving DecidableEq

structure Db where
  files : List File
  events : List OnceNormalized.Event
  derivations : List Derivation

def preservation : Str := "preservation".toList

def manualNormalization : Str := "manualNormalization".toList

def normalization : Str := "normalization".toList

-- What the rows of a file and of the SIP say.

def Db.hasSip (db : Db) (sip uuid : UUID) : Bool := db.files.any fun f => f.uuid = uuid ∧ f.sip = sip

def Db.used (db : Db) (uuid : UUID) (use : Str) : Bool := db.files.any fun f => f.uuid = uuid ∧ f.filegrpuse = use

-- retry_normalize_remove_normalized.py

structure State where
  db : Db
  disk : List Str

def pathOf (sipDirectory : Str) (f : File) : Option Str :=
  f.currentlocation.map (replaceFirst "%SIPDirectory%".toList sipDirectory)

def File.livePreservation (sip : UUID) (f : File) : Bool :=
  f.sip = sip ∧ f.removed = false ∧ f.filegrpuse = preservation

def mark (uuid : UUID) (f : File) : File := if f.uuid = uuid then { f with removed := true } else f

-- os.remove of a file that is not there is an error that is logged only.
def removeFile (sipDirectory : Str) (s : State) (f : File) : State :=
  ⟨⟨s.db.files.map (mark f.uuid), s.db.events, s.db.derivations⟩,
    match pathOf sipDirectory f with
    | none => s.disk
    | some path => s.disk.filter (· ≠ path)⟩

def Db.deleteManualLinks (sip : UUID) (db : Db) : Db :=
  ⟨db.files, db.events, db.derivations.filter fun d =>
    !(db.used d.derivedFile manualNormalization && db.hasSip sip d.derivedFile)⟩

def Db.isNormalization (sip : UUID) (db : Db) (e : OnceNormalized.Event) : Bool :=
  e.eventType = normalization && db.hasSip sip e.fileUUID

-- The derivations go with their events.
def Db.deleteNormalizationEvents (sip : UUID) (db : Db) : Db :=
  ⟨db.files, db.events.filter fun e => !db.isNormalization sip e, db.derivations.filter fun d =>
    !(d.event.any fun id => db.events.any fun e => e.eventId = id && db.isNormalization sip e)⟩

def removePreservationFiles (sipDirectory : Str) (sip : UUID) (s : State) : State :=
  let removed := (s.db.files.filter (File.livePreservation sip)).foldl (removeFile sipDirectory) s
  ⟨(removed.db.deleteManualLinks sip).deleteNormalizationEvents sip, removed.disk⟩

def under (directory path : Str) : Bool := (directory ++ ['/']).isPrefixOf path

def rmtree (directory : Str) (s : State) : State := ⟨s.db, s.disk.filter fun path => !under directory path⟩

def thumbnailsDirectory (sipDirectory : Str) : Str := PosixPath.join sipDirectory "thumbnails".toList

def dipDirectory (sipDirectory : Str) : Str := PosixPath.join sipDirectory "DIP".toList

structure Options where
  preservation : Bool
  thumbnails : Bool
  access : Bool

def call (opts : Options) (sipDirectory : Str) (sip : UUID) (s : State) : State :=
  let s := if opts.preservation then removePreservationFiles sipDirectory sip s else s
  let s := if opts.thumbnails then rmtree (thumbnailsDirectory sipDirectory) s else s
  if opts.access then rmtree (dipDirectory sipDirectory) s else s

def retry (sipDirectory : Str) (sip : UUID) (s : State) : State := call ⟨true, true, true⟩ sipDirectory sip s

-- normalize.py

inductive Purpose
  | preservation
  | access
  | thumbnail
deriving DecidableEq

def Purpose.text : Purpose → Str
  | preservation => "preservation".toList
  | access => "access".toList
  | thumbnail => "thumbnail".toList

-- A file that once_normalized registers, with the event that a preservation file has.
structure Output where
  original : UUID
  uuid : UUID
  purpose : Purpose
  location : Str
  event : Option OnceNormalized.Event

def Db.register (sip : UUID) (db : Db) (o : Output) : Db :=
  ⟨db.files ++ [⟨o.uuid, sip, some o.location, o.purpose.text, false⟩], db.events ++ o.event.toList,
    db.derivations ++ [⟨o.original, o.uuid, o.event.map (·.eventId)⟩]⟩

def deletedUse : Str := "deleted".toList

-- The derivations that main cleans up before it normalizes again, for one purpose.
def Db.earlier (db : Db) (original : UUID) (purpose : Purpose) : List Derivation :=
  db.derivations.filter fun d => d.sourceFile = original && db.used d.derivedFile purpose.text

def Db.markDeleted (uuids : List UUID) (f : File) : File :=
  if uuids.contains f.uuid then { f with filegrpuse := deletedUse } else f

-- An event of a deletion is none of a normalization.
def Db.cleanUp (db : Db) (original : UUID) (purpose : Purpose) : Db :=
  ⟨db.files.map (Db.markDeleted ((db.earlier original purpose).map (·.derivedFile))), db.events,
    db.derivations.filter fun d => !(d.sourceFile = original && db.used d.derivedFile purpose.text)⟩

def Db.normalize (sip : UUID) (db : Db) (o : Output) : Db := (db.cleanUp o.original o.purpose).register sip o

-- The derivations from an original to live files of a purpose.
def Db.liveDerivations (db : Db) (original : UUID) (purpose : Purpose) : List Derivation :=
  db.derivations.filter fun d => d.sourceFile = original &&
    db.files.any fun f => f.uuid = d.derivedFile ∧ f.removed = false ∧ f.filegrpuse = purpose.text

-- New files, no two of them for one purpose of one original.
structure Fresh (db : Db) (outputs : List Output) : Prop where
  pairs : (outputs.map fun o => (o.original, o.purpose)).Nodup
  nodup : (outputs.map Output.uuid).Nodup
  new : ∀ o ∈ outputs, o.uuid ∉ db.files.map File.uuid

-- What is left of a SIP: each row that is not removed has kept its file, no derivation goes to a file
-- that was removed, there are no normalization events, and normalizing again gives one file each.
structure Contract (sipDirectory : Str) (sip : UUID) (before after : State) : Prop where
  files : ∀ f ∈ after.db.files, f.removed = false → ∀ path, pathOf sipDirectory f = some path →
    path ∈ before.disk → path ∈ after.disk
  derivations : ∀ d ∈ after.db.derivations, ∀ f ∈ before.db.files, f.uuid = d.derivedFile →
    f.removed = false → f ∈ after.db.files ∧ ∀ path, pathOf sipDirectory f = some path →
      path ∈ before.disk → path ∈ after.disk
  events : ∀ e ∈ after.db.events, after.db.isNormalization sip e = false
  again : ∀ outputs, Fresh after.db outputs → ∀ o ∈ outputs,
    ((outputs.foldl (Db.normalize sip) after.db).liveDerivations o.original o.purpose).length = 1

-- Where a call deletes: the two directories, and the preservation files.
def gone (sipDirectory : Str) (sip : UUID) (files : List File) (path : Str) : Bool :=
  under (dipDirectory sipDirectory) path || under (thumbnailsDirectory sipDirectory) path ||
    files.any fun f => f.livePreservation sip && pathOf sipDirectory f = some path

-- No other row that is live has its file there.
def Clear (sipDirectory : Str) (sip : UUID) (s : State) : Prop :=
  ∀ f ∈ s.db.files, f.removed = false → f.livePreservation sip = false →
    ∀ path, pathOf sipDirectory f = some path → path ∈ s.disk → gone sipDirectory sip s.db.files path = false

-- A SIP with the files that once_normalized has registered for it.
structure Normalized (sip : UUID) (base db : Db) (outputs : List Output) : Prop where
  registered : db = outputs.foldl (Db.register sip) base
  derivations : base.derivations = []
  uuids : (db.files.map File.uuid).Nodup
  originals : ∀ o ∈ outputs, base.hasSip sip o.original = true
  events : ∀ o ∈ outputs, o.purpose = .preservation →
    ∃ e, o.event = some e ∧ e.fileUUID = o.original ∧ e.eventType = normalization

-- What the call does.

section Retry

variable {sipDirectory : Str} {sip : UUID}

def markAll (uuids : List UUID) (f : File) : File := if uuids.contains f.uuid then { f with removed := true } else f

theorem markAll_cons (uuid : UUID) (uuids : List UUID) (f : File) :
    markAll uuids (mark uuid f) = markAll (uuid :: uuids) f := by
  unfold markAll mark
  rw [List.contains_cons]
  by_cases h : f.uuid = uuid
  · simp [h]
  · simp [h]

theorem removeFiles_eq (fs : List File) (s : State) :
    fs.foldl (removeFile sipDirectory) s =
      ⟨⟨s.db.files.map (markAll (fs.map File.uuid)), s.db.events, s.db.derivations⟩,
        s.disk.filter fun path => !fs.any fun f => pathOf sipDirectory f = some path⟩ := by
  induction fs generalizing s with
  | nil =>
      have hid : markAll [] = id := rfl
      simp [hid]
  | cons f fs ih =>
      have hfiles : (s.db.files.map (mark f.uuid)).map (markAll (fs.map File.uuid)) =
          s.db.files.map (markAll ((f :: fs).map File.uuid)) := by
        rw [List.map_map]
        exact List.map_congr_left fun f' _ => markAll_cons f.uuid (fs.map File.uuid) f'
      have hdisk : (removeFile sipDirectory s f).disk.filter
            (fun path => !fs.any fun f => pathOf sipDirectory f = some path) =
          s.disk.filter fun path => !(f :: fs).any fun f => pathOf sipDirectory f = some path := by
        unfold removeFile
        cases hpath : pathOf sipDirectory f with
        | none => simp [hpath]
        | some path =>
            simp only [List.filter_filter]
            refine List.filter_congr fun other _ => ?_
            by_cases heq : other = path
            · simp [heq, hpath]
            · simp [heq, Ne.symm heq, hpath]
      rw [List.foldl_cons, ih, hdisk]
      exact congrArg (fun files => (⟨⟨files, s.db.events, s.db.derivations⟩, _⟩ : State)) hfiles

-- The rows of the preservation files are those that are marked.
def marked (sip : UUID) (files : List File) : List File :=
  files.map (markAll ((files.filter (File.livePreservation sip)).map File.uuid))

theorem retry_files (s : State) : (retry sipDirectory sip s).db.files = marked sip s.db.files := by
  rw [retry, call]
  simp only [if_true, rmtree, removePreservationFiles, removeFiles_eq]
  rfl

theorem mem_disk_retry {s : State} {path : Str} :
    path ∈ (retry sipDirectory sip s).disk ↔ path ∈ s.disk ∧ gone sipDirectory sip s.db.files path = false := by
  rw [retry, call]
  simp only [if_true, rmtree, removePreservationFiles, removeFiles_eq, List.mem_filter, gone,
    List.any_filter, Bool.not_eq_true', Bool.or_eq_false_iff]
  constructor
  · rintro ⟨⟨⟨hmem, hfile⟩, hthumbnails⟩, hdip⟩
    exact ⟨hmem, ⟨hdip, hthumbnails⟩, hfile⟩
  · rintro ⟨hmem, ⟨hdip, hthumbnails⟩, hfile⟩
    exact ⟨⟨⟨hmem, hfile⟩, hthumbnails⟩, hdip⟩

theorem markAll_fields (uuids : List UUID) (f : File) :
    (markAll uuids f).uuid = f.uuid ∧ (markAll uuids f).sip = f.sip ∧
      (markAll uuids f).filegrpuse = f.filegrpuse := by
  unfold markAll
  split_ifs
  · exact ⟨rfl, rfl, rfl⟩
  · exact ⟨rfl, rfl, rfl⟩

theorem uuids_marked (files : List File) : (marked sip files).map File.uuid = files.map File.uuid := by
  rw [marked, List.map_map]
  exact List.map_congr_left fun f _ => (markAll_fields _ f).1

theorem hasSip_marked {db : Db} {files : List File} (h : db.files = marked sip files) (sip' uuid : UUID) :
    db.hasSip sip' uuid = files.any fun f => f.uuid = uuid ∧ f.sip = sip' := by
  rw [Db.hasSip, h, marked, List.any_map]
  congr 1
  funext f
  obtain ⟨huuid, hsip, _⟩ := markAll_fields ((files.filter (File.livePreservation sip)).map File.uuid) f
  rw [Function.comp_apply, huuid, hsip]

section Unique

variable {files : List File} (huuids : (files.map File.uuid).Nodup) {f : File} (hf : f ∈ files)
include huuids hf

theorem markAll_of_mem :
    markAll ((files.filter (File.livePreservation sip)).map File.uuid) f =
      if f.livePreservation sip then { f with removed := true } else f := by
  have hcontains : ((files.filter (File.livePreservation sip)).map File.uuid).contains f.uuid =
      f.livePreservation sip := by
    rw [Bool.eq_iff_iff, List.contains_iff_mem, List.mem_map]
    constructor
    · rintro ⟨f', hf', huuid⟩
      obtain ⟨hmem, hlive⟩ := List.mem_filter.mp hf'
      rwa [List.inj_on_of_nodup_map huuids hmem hf huuid] at hlive
    · intro hlive
      exact ⟨f, List.mem_filter.mpr ⟨hf, hlive⟩, rfl⟩
  rw [markAll, hcontains]

omit hf in
theorem mem_marked_live {f' : File} :
    f' ∈ marked sip files ∧ f'.removed = false ↔
      f' ∈ files ∧ f'.removed = false ∧ f'.livePreservation sip = false := by
  constructor
  · rintro ⟨hmem, hlive⟩
    obtain ⟨f, hf, rfl⟩ := List.mem_map.mp hmem
    rw [markAll_of_mem huuids hf] at hlive ⊢
    split_ifs at hlive ⊢ with hpreservation
    exact ⟨hf, hlive, by simpa using hpreservation⟩
  · rintro ⟨hmem, hlive, hnot⟩
    refine ⟨List.mem_map.mpr ⟨f', hmem, ?_⟩, hlive⟩
    rw [markAll_of_mem huuids hmem, hnot]
    rfl

end Unique

theorem mem_derivations_retry {s : State} {d : Derivation} (h : d ∈ (retry sipDirectory sip s).db.derivations) :
    d ∈ s.db.derivations ∧ ∀ e ∈ s.db.events, d.event = some e.eventId → s.db.isNormalization sip e = false := by
  rw [retry, call] at h
  simp only [if_true, rmtree, removePreservationFiles, removeFiles_eq, Db.deleteNormalizationEvents,
    Db.deleteManualLinks, List.mem_filter] at h
  obtain ⟨⟨hmem, _⟩, hevent⟩ := h
  refine ⟨hmem, fun e he hid => ?_⟩
  rw [hid, Option.any_some, Bool.not_eq_true', List.any_eq_false] at hevent
  have hnot := hevent e he
  rw [decide_eq_true (rfl : e.eventId = e.eventId), Bool.true_and, Bool.not_eq_true, Db.isNormalization,
    @hasSip_marked _ _ s.db.files rfl] at hnot
  exact hnot

theorem events_retry {s : State} {e : OnceNormalized.Event} (h : e ∈ (retry sipDirectory sip s).db.events) :
    (retry sipDirectory sip s).db.isNormalization sip e = false := by
  rw [retry, call] at h ⊢
  simp only [if_true, rmtree, removePreservationFiles, Db.deleteNormalizationEvents, List.mem_filter,
    Bool.not_eq_true'] at h
  exact h.2

end Retry

-- What was registered.

section Normalized

variable {sip : UUID} {base db : Db} {outputs : List Output}

theorem register_all (outputs : List Output) (base : Db) :
    outputs.foldl (Db.register sip) base =
      ⟨base.files ++ outputs.map (fun o => ⟨o.uuid, sip, some o.location, o.purpose.text, false⟩),
        base.events ++ outputs.flatMap (fun o => o.event.toList),
        base.derivations ++ outputs.map fun o => ⟨o.original, o.uuid, o.event.map (·.eventId)⟩⟩ := by
  induction outputs generalizing base with
  | nil => simp
  | cons o outputs ih =>
      rw [List.foldl_cons, ih]
      simp [Db.register]

variable (h : Normalized sip base db outputs)
include h

theorem exists_output {d : Derivation} (hd : d ∈ db.derivations) :
    ∃ o ∈ outputs, d = ⟨o.original, o.uuid, o.event.map (·.eventId)⟩ ∧
      ⟨o.uuid, sip, some o.location, o.purpose.text, false⟩ ∈ db.files := by
  rw [h.registered, register_all] at hd ⊢
  simp only [h.derivations, List.nil_append] at hd
  obtain ⟨o, ho, rfl⟩ := List.mem_map.mp hd
  exact ⟨o, ho, rfl, List.mem_append_right _ (List.mem_map.mpr ⟨o, ho, rfl⟩)⟩

theorem derived_nodup : (db.derivations.map (·.derivedFile)).Nodup := by
  have huuids := h.uuids
  rw [h.registered, register_all] at huuids ⊢
  simp only [h.derivations, List.nil_append, List.map_append, List.map_map] at huuids ⊢
  exact (List.nodup_append.mp huuids).2.1

theorem derived_mem {d : Derivation} (hd : d ∈ db.derivations) : d.derivedFile ∈ db.files.map File.uuid := by
  obtain ⟨o, _, rfl, hrow⟩ := exists_output h hd
  exact List.mem_map_of_mem hrow

theorem hasSip_of_base {uuid : UUID} (hbase : base.hasSip sip uuid = true) : db.hasSip sip uuid = true := by
  rw [h.registered, register_all, Db.hasSip, List.any_append]
  rw [Db.hasSip] at hbase
  rw [hbase, Bool.true_or]

-- The derivation of a preservation file has an event that goes.
theorem normalization_of_preservation {d : Derivation} (hd : d ∈ db.derivations) {f : File} (hf : f ∈ db.files)
    (huuid : f.uuid = d.derivedFile) (hpreservation : f.livePreservation sip = true) :
    ∃ e ∈ db.events, d.event = some e.eventId ∧ db.isNormalization sip e = true := by
  obtain ⟨o, ho, rfl, hrow⟩ := exists_output h hd
  have hsame := List.inj_on_of_nodup_map h.uuids hf hrow huuid
  have huse : o.purpose.text = preservation := by
    have hlive := of_decide_eq_true hpreservation
    rw [hsame] at hlive
    exact hlive.2.2
  have hpurpose : o.purpose = .preservation := by
    cases hp : o.purpose with
    | preservation => rfl
    | access =>
        rw [hp] at huse
        exact absurd huse (by decide)
    | thumbnail =>
        rw [hp] at huse
        exact absurd huse (by decide)
  obtain ⟨e, he, hfile, htype⟩ := h.events o ho hpurpose
  refine ⟨e, ?_, by rw [he]; rfl, ?_⟩
  · rw [h.registered, register_all]
    exact List.mem_append_right _ (List.mem_flatMap.mpr ⟨o, ho, by rw [he]; exact List.mem_singleton_self e⟩)
  · rw [Db.isNormalization, htype, hfile, hasSip_of_base h (h.originals o ho)]
    rfl

end Normalized

end Ccp.Worker.RetryNormalize
