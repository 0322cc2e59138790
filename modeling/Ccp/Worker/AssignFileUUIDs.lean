import Ccp.Lib.MapM
import Ccp.Lib.Table
import Ccp.Lib.Text
import Ccp.Uuid
import Mathlib.Data.List.Nodup

namespace Ccp.Worker.AssignFileUUIDs

open Lib

def transferDirectory : Str := "%transferDirectory%".toList

def sipDirectory : Str := "%SIPDirectory%".toList

-- A row of the files.
structure File where
  uuid : UUID
  transfer : Option UUID
  originallocation : Str
  currentlocation : Option Str
  filegrpuse : Str
deriving DecidableEq

-- What metsrw gives for a file of the document, with the premis:originalName of each techMD of
-- its first amdSec.
structure FSEntry where
  path : Option Str
  fileUUID : Option Str
  use : Option Str
  originalNames : List Str
  originalNames_ne : originalNames ≠ []

structure Info where
  uuid : Option Str
  filegrpuse : Option Str
  currentPath : Str
  originalPath : Str

-- The arguments of one job. The walk has, for each directory, the paths of its files from the
-- directory of the unit on.
structure Job where
  sipDirectory : Str
  transferUUID : UUID
  archivematicaAIP : Bool
  mets : Option (List FSEntry)
  use : Str
  walk : List (List Str)
  walk_nodup : walk.flatten.Nodup

-- metsrw's get_file with a path.
def getFile (mets : List FSEntry) (path : Str) : Option FSEntry :=
  mets.find? fun e => e.path = some path

def lookupPath (path : Str) : Str :=
  replaceFirst AssignFileUUIDs.sipDirectory [] (replaceFirst transferDirectory [] path)

-- There is none for a file that the document does not list. Of several techMDs the last counts.
def getFileInfoFromMets (mets : List FSEntry) (path : Str) : Option Info :=
  (getFile mets (lookupPath path)).map fun entry =>
    { uuid := entry.fileUUID
      filegrpuse := entry.use
      currentPath := path
      originalPath := entry.originalNames.getLast entry.originalNames_ne }

-- chunk_iterable: the fill value at the end is passed over by the caller.
def chunkIterable {α : Type} (size : ℕ) : List α → List α → List (List α)
  | [], [] => []
  | chunk, [] => [chunk]
  | chunk, a :: l =>
      if chunk.length + 1 = size then (chunk ++ [a]) :: chunkIterable size [] l
      else chunkIterable size (chunk ++ [a]) l

section Script

-- uuid4 for a file, and UUIDField's to_python.
variable (uuid4 : Str → UUID) (toPython : Str → Option UUID) (job : Job)

-- The UUID that a row gets, of a text that is not empty or of uuid4.
def rowUUID (rel : Str) : Option Str → Option UUID
  | none => some (uuid4 rel)
  | some [] => some (uuid4 rel)
  | some (c :: text) => toPython (c :: text)

-- The row is refused where the key is taken, or a column that may not be NULL is.
def addFileToTransfer (path : Str) (uuid : Option UUID) (use : Option Str) (files : List File) :
    Option (List File) :=
  match uuid, use with
  | some uuid, some use =>
      Table.insert File.uuid files ⟨uuid, some job.transferUUID, path, some path, use⟩
  | _, _ => none

def updateCurrentLocation (uuid : Option UUID) (path : Str) (files : List File) : List File :=
  Table.updateWhere (fun f => some f.uuid = uuid) (fun f => { f with currentlocation := some path })
    files

def onDisk (rel : Str) : Str :=
  replaceFirst job.sipDirectory transferDirectory (job.sipDirectory ++ rel)

-- Where the job is for a reingest, the current location is put right at the end.
def assignTransferFileUUID (files : List File) (rel : Str) : Option (List File) :=
  let path := onDisk job rel
  match job.archivematicaAIP, job.mets with
  | true, some mets =>
      let info := getFileInfoFromMets mets path
      let uuid := rowUUID uuid4 toPython rel (info.bind (·.uuid))
      let use := match info with
        | some info => info.filegrpuse
        | none => some job.use
      (addFileToTransfer job ((info.map (·.originalPath)).getD path) uuid use files).bind fun files =>
        info.map fun info => updateCurrentLocation uuid info.currentPath files
  | _, _ => addFileToTransfer job path (some (uuid4 rel)) (some job.use) files

-- A chunk is a transaction; what earlier ones have written stays.
def assignChunks : List (List Str) → List File → Except (List File) (List File)
  | [], files => .ok files
  | chunk :: chunks, files =>
      match chunk.foldlM (assignTransferFileUUID uuid4 toPython job) files with
      | some files => assignChunks chunks files
      | none => .error files

def assignUUIDsToFilesInDir (files : List File) : Except (List File) (List File) :=
  assignChunks uuid4 toPython job (job.walk.flatMap (chunkIterable 10 [])) files

end Script

theorem flatten_chunkIterable {α : Type} (size : ℕ) (chunk l : List α) :
    (chunkIterable size chunk l).flatten = chunk ++ l := by
  induction l generalizing chunk with
  | nil => cases chunk <;> simp [chunkIterable]
  | cons a l ih =>
      rw [chunkIterable]
      split_ifs
      · rw [List.flatten_cons, ih]
        simp
      · rw [ih]
        simp

theorem flatten_flatMap_chunkIterable {α : Type} (size : ℕ) (walk : List (List α)) :
    (walk.flatMap (chunkIterable size [])).flatten = walk.flatten := by
  induction walk with
  | nil => rfl
  | cons l walk ih =>
      rw [List.flatMap_cons, List.flatten_append, flatten_chunkIterable, ih]
      rfl

section Run

variable {uuid4 : Str → UUID} {toPython : Str → Option UUID} {job : Job} {files files' : List File}

-- A run that does not fail does the files one after the other.
theorem assignChunks_eq_ok_iff {chunks : List (List Str)} :
    assignChunks uuid4 toPython job chunks files = .ok files' ↔
      chunks.flatten.foldlM (assignTransferFileUUID uuid4 toPython job) files = some files' := by
  induction chunks generalizing files with
  | nil => simp [assignChunks]
  | cons chunk chunks ih =>
      rw [assignChunks, List.flatten_cons, List.foldlM_append]
      cases hchunk : chunk.foldlM (assignTransferFileUUID uuid4 toPython job) files with
      | none => simp
      | some files₁ => exact ih

theorem assignUUIDsToFilesInDir_eq_ok_iff :
    assignUUIDsToFilesInDir uuid4 toPython job files = .ok files' ↔
      job.walk.flatten.foldlM (assignTransferFileUUID uuid4 toPython job) files = some files' := by
  rw [assignUUIDsToFilesInDir, assignChunks_eq_ok_iff, flatten_flatMap_chunkIterable]

theorem onDisk_eq (job : Job) (rel : Str) : onDisk job rel = transferDirectory ++ rel := by
  rw [onDisk, replaceFirst_self_append]

theorem lookupPath_onDisk (job : Job) (rel : Str) :
    lookupPath (onDisk job rel) = replaceFirst AssignFileUUIDs.sipDirectory [] rel := by
  rw [lookupPath, onDisk_eq, replaceFirst_self_append, List.nil_append]

end Run

section Reingest

variable (uuid4 : Str → UUID) (toPython : Str → Option UUID) (job : Job) (mets : List FSEntry)

-- The entry that a file gets its row from.
def entryOf (rel : Str) : Option FSEntry := getFile mets (replaceFirst AssignFileUUIDs.sipDirectory [] rel)

def uuidOf (rel : Str) : Option UUID :=
  (entryOf mets rel).bind fun e => rowUUID uuid4 toPython rel e.fileUUID

def rowOf (rel : Str) : Option File :=
  (entryOf mets rel).bind fun e =>
    (rowUUID uuid4 toPython rel e.fileUUID).bind fun uuid =>
      e.use.map fun use =>
        ⟨uuid, some job.transferUUID, e.originalNames.getLast e.originalNames_ne,
          some (transferDirectory ++ rel), use⟩

variable {uuid4 toPython job mets} {files : List File} {rel : Str} {f : File}

theorem assignTransferFileUUID_eq (haip : job.archivematicaAIP = true) (hmets : job.mets = some mets)
    (files : List File) (rel : Str) :
    assignTransferFileUUID uuid4 toPython job files rel =
      (rowOf uuid4 toPython job mets rel).bind (Table.insert File.uuid files) := by
  have hinfo : getFileInfoFromMets mets (onDisk job rel) = (entryOf mets rel).map fun entry =>
      { uuid := entry.fileUUID
        filegrpuse := entry.use
        currentPath := transferDirectory ++ rel
        originalPath := entry.originalNames.getLast entry.originalNames_ne } := by
    rw [getFileInfoFromMets, lookupPath_onDisk, onDisk_eq, entryOf]
  rw [assignTransferFileUUID]
  simp only [haip, hmets, hinfo, rowOf]
  cases entryOf mets rel with
  | none => simp
  | some e =>
      simp only [Option.map_some, Option.bind_some, Option.getD_some]
      cases rowUUID uuid4 toPython rel e.fileUUID with
      | none => rfl
      | some uuid =>
          cases e.use with
          | none => rfl
          | some use =>
              simp only [addFileToTransfer, Option.bind_some, Option.map_some, Table.insert]
              split_ifs with hkey
              · rfl
              · have hkept : updateCurrentLocation (some uuid) (transferDirectory ++ rel) files = files :=
                  Table.updateWhere_of_none fun f hf heq =>
                    hkey (Option.some.inj heq ▸ List.mem_map_of_mem hf)
                rw [updateCurrentLocation, Table.updateWhere] at hkept
                rw [Option.bind_some, updateCurrentLocation, Table.updateWhere, List.map_append, hkept]
                simp

theorem rowOf_eq_some (h : rowOf uuid4 toPython job mets rel = some f) :
    f.transfer = some job.transferUUID ∧ f.currentlocation = some (transferDirectory ++ rel) ∧
      uuidOf uuid4 toPython mets rel = some f.uuid ∧
      ∃ e, entryOf mets rel = some e ∧ e.use ≠ none := by
  obtain ⟨e, he, h⟩ := Option.bind_eq_some_iff.mp h
  obtain ⟨uuid, huuid, h⟩ := Option.bind_eq_some_iff.mp h
  obtain ⟨use, huse, rfl⟩ := Option.map_eq_some_iff.mp h
  exact ⟨rfl, rfl, by rw [uuidOf, he, Option.bind_some, huuid], e, he, by simp [huse]⟩

theorem exists_rowOf (huuid : uuidOf uuid4 toPython mets rel ≠ none)
    (huse : ∀ e, entryOf mets rel = some e → e.use ≠ none) :
    (rowOf uuid4 toPython job mets rel).isSome = true := by
  obtain ⟨uuid, hbind⟩ := Option.ne_none_iff_exists'.mp huuid
  obtain ⟨e, he, huuid⟩ := Option.bind_eq_some_iff.mp hbind
  obtain ⟨use, huse⟩ := Option.ne_none_iff_exists'.mp (huse e he)
  simp [rowOf, he, huuid, huse]

theorem assignUUIDsToFilesInDir_ok_iff (haip : job.archivematicaAIP = true)
    (hmets : job.mets = some mets) {files' : List File} :
    assignUUIDsToFilesInDir uuid4 toPython job files = .ok files' ↔
      ∃ news, job.walk.flatten.mapM (rowOf uuid4 toPython job mets) = some news ∧
        files' = files ++ news ∧ (news.map File.uuid).Nodup ∧
        ∀ f ∈ news, f.uuid ∉ files.map File.uuid := by
  rw [assignUUIDsToFilesInDir_eq_ok_iff, ← Table.foldlM_insert_eq_some_iff]
  have heq : assignTransferFileUUID uuid4 toPython job = fun files rel =>
      (rowOf uuid4 toPython job mets rel).bind (Table.insert File.uuid files) := by
    funext files rel
    exact assignTransferFileUUID_eq haip hmets files rel
  rw [heq]

variable (uuid4 toPython job mets) (files : List File)

-- The row of the transfer for what is at the path.
def isAt (rel : Str) (f : File) : Bool :=
  f.transfer = some job.transferUUID ∧ f.currentlocation = some (transferDirectory ++ rel)

-- No failure; each file has one row at its path, with its UUID in the document where it is
-- listed with one.
def Contract : Prop :=
  ∃ after, assignUUIDsToFilesInDir uuid4 toPython job files = .ok after ∧
    ∀ rel ∈ job.walk.flatten, ∃ f, after.filter (isAt job rel) = [f] ∧
      ∀ e, getFile mets rel = some e → ∀ c text, e.fileUUID = some (c :: text) →
        toPython (c :: text) = some f.uuid

structure Clear : Prop where
  -- every file is listed, in a group with a use
  listed : ∀ rel ∈ job.walk.flatten, ∃ e, entryOf mets rel = some e ∧ e.use ≠ none
  -- the text that it has is a UUID, and that of the entry at its own path
  readable : ∀ rel ∈ job.walk.flatten, uuidOf uuid4 toPython mets rel ≠ none
  own : ∀ rel ∈ job.walk.flatten, ∀ e, getFile mets rel = some e → ∀ c text,
    e.fileUUID = some (c :: text) → toPython (c :: text) = uuidOf uuid4 toPython mets rel
  -- no UUID is there twice, and none is in use
  distinct : (job.walk.flatten.map (uuidOf uuid4 toPython mets)).Nodup
  unused : ∀ rel ∈ job.walk.flatten, ∀ f ∈ files, uuidOf uuid4 toPython mets rel ≠ some f.uuid
  -- the transfer has no row at the path of a file yet
  vacant : ∀ rel ∈ job.walk.flatten, ∀ f ∈ files, isAt job rel f = false

variable {uuid4 toPython job mets files}

theorem isAt_rowOf (h : rowOf uuid4 toPython job mets rel = some f) (rel' : Str) :
    isAt job rel' f = true ↔ rel = rel' := by
  obtain ⟨htransfer, hlocation, -⟩ := rowOf_eq_some h
  simp [isAt, htransfer, hlocation]

theorem map_uuid {l : List Str} {news : List File}
    (h : l.mapM (rowOf uuid4 toPython job mets) = some news) :
    l.map (uuidOf uuid4 toPython mets) = (news.map File.uuid).map some := by
  induction l generalizing news with
  | nil =>
      obtain rfl : [] = news := by simpa using h
      rfl
  | cons rel l ih =>
      rw [List.mapM_cons] at h
      obtain ⟨f, hf, h⟩ := Option.bind_eq_some_iff.mp h
      obtain ⟨rest, hrest, h⟩ := Option.bind_eq_some_iff.mp h
      obtain rfl := Option.some.inj h
      rw [List.map_cons, ih hrest, (rowOf_eq_some hf).2.2.1]
      rfl

-- Each of the new rows is at the path of one file.
theorem filter_isAt {news : List File} (hnodup : (news.map File.uuid).Nodup)
    (h : job.walk.flatten.mapM (rowOf uuid4 toPython job mets) = some news)
    (hrel : rel ∈ job.walk.flatten) : ∃ f, rowOf uuid4 toPython job mets rel = some f ∧
      news.filter (isAt job rel) = [f] := by
  obtain ⟨f, hf⟩ : ∃ f, rowOf uuid4 toPython job mets rel = some f := by
    have hmap := MapM.mapM_eq_some_iff.mp h
    have hmem : rowOf uuid4 toPython job mets rel ∈ news.map some :=
      hmap ▸ List.mem_map_of_mem hrel
    obtain ⟨f, -, hf⟩ := List.mem_map.mp hmem
    exact ⟨f, hf.symm⟩
  have hmem : f ∈ news := (MapM.mem_mapM h).mpr ⟨rel, hrel, hf⟩
  refine ⟨f, hf, (Table.filter_eq_singleton_iff hnodup.of_map hmem _).mpr fun g hg => ?_⟩
  obtain ⟨rel', -, hg⟩ := (MapM.mem_mapM h).mp hg
  constructor
  · intro hat
    obtain rfl := (isAt_rowOf hg rel).mp hat
    exact Option.some.inj (hg.symm.trans hf)
  · rintro rfl
    exact (isAt_rowOf hf rel).mpr rfl

theorem assign_contract_iff (haip : job.archivematicaAIP = true) (hmets : job.mets = some mets) :
    Contract uuid4 toPython job mets files ↔ Clear uuid4 toPython job mets files := by
  constructor
  · rintro ⟨after, hrun, hall⟩
    obtain ⟨news, hnews, rfl, hnodup, hfresh⟩ :=
      (assignUUIDsToFilesInDir_ok_iff haip hmets).mp hrun
    have hrow : ∀ rel ∈ job.walk.flatten, ∃ f ∈ news, rowOf uuid4 toPython job mets rel = some f ∧
        files.filter (isAt job rel) = [] ∧ ∀ e, getFile mets rel = some e → ∀ c text,
          e.fileUUID = some (c :: text) → toPython (c :: text) = some f.uuid := by
      intro rel hrel
      obtain ⟨f, hf, hfilter⟩ := filter_isAt hnodup hnews hrel
      obtain ⟨g, hg, hown⟩ := hall rel hrel
      rw [List.filter_append, hfilter] at hg
      obtain ⟨hnil, hfg⟩ := List.append_inj' (hg.trans (List.nil_append [g]).symm) rfl
      obtain rfl := List.singleton_inj.mp hfg
      exact ⟨f, (MapM.mem_mapM hnews).mpr ⟨rel, hrel, hf⟩, hf, hnil, hown⟩
    refine ⟨fun rel hrel => ?_, fun rel hrel => ?_, fun rel hrel e he c text htext => ?_, ?_,
      fun rel hrel g hg heq => ?_, fun rel hrel g hg => ?_⟩
    · obtain ⟨f, -, hf, -⟩ := hrow rel hrel
      exact (rowOf_eq_some hf).2.2.2
    · obtain ⟨f, -, hf, -⟩ := hrow rel hrel
      simp [(rowOf_eq_some hf).2.2.1]
    · obtain ⟨f, -, hf, -, hown⟩ := hrow rel hrel
      rw [hown e he c text htext, (rowOf_eq_some hf).2.2.1]
    · rw [map_uuid hnews]
      exact hnodup.map (Option.some_injective UUID)
    · obtain ⟨f, hmem, hf, -⟩ := hrow rel hrel
      have huuid : f.uuid = g.uuid := Option.some.inj ((rowOf_eq_some hf).2.2.1.symm.trans heq)
      exact hfresh f hmem (huuid ▸ List.mem_map_of_mem hg)
    · obtain ⟨f, -, -, hnil, -⟩ := hrow rel hrel
      simpa using List.filter_eq_nil_iff.mp hnil g hg
  · intro h
    obtain ⟨news, hnews⟩ := MapM.exists_mapM (l := job.walk.flatten)
      (f := rowOf uuid4 toPython job mets) fun rel hrel =>
        exists_rowOf (h.readable rel hrel) fun e he => by
          obtain ⟨e', he', huse⟩ := h.listed rel hrel
          rwa [Option.some.inj (he.symm.trans he')]
    have hnodup : (news.map File.uuid).Nodup := by
      refine List.Nodup.of_map some ?_
      rw [← map_uuid hnews]
      exact h.distinct
    refine ⟨files ++ news, (assignUUIDsToFilesInDir_ok_iff haip hmets).mpr
      ⟨news, hnews, rfl, hnodup, fun f hf hmem => ?_⟩, fun rel hrel => ?_⟩
    · obtain ⟨rel, hrel, hrow⟩ := (MapM.mem_mapM hnews).mp hf
      obtain ⟨g, hg, huuid⟩ := List.mem_map.mp hmem
      exact h.unused rel hrel g hg (by rw [(rowOf_eq_some hrow).2.2.1, huuid])
    · obtain ⟨f, hf, hfilter⟩ := filter_isAt hnodup hnews hrel
      have hvacant : files.filter (isAt job rel) = [] :=
        List.filter_eq_nil_iff.mpr fun g hg => by simp [h.vacant rel hrel g hg]
      refine ⟨f, by rw [List.filter_append, hvacant, hfilter, List.nil_append], ?_⟩
      intro e he c text htext
      rw [h.own rel hrel e he c text htext, (rowOf_eq_some hf).2.2.1]

end Reingest

-- An AIP with a file that its document does not list.
namespace Unlisted

def uuid : UUID := ⟨1⟩

def toPython (text : Str) : Option UUID := if text = uuid.string then some uuid else none

def mets : List FSEntry :=
  [⟨some "objects/a".toList, some uuid.string, some "original".toList, ["a".toList],
    List.cons_ne_nil _ _⟩]

theorem walk_nodup : [["objects/a".toList, "objects/b".toList]].flatten.Nodup := by decide

def job : Job where
  sipDirectory := "/s/".toList
  transferUUID := ⟨2⟩
  archivematicaAIP := true
  mets := some mets
  use := "original".toList
  walk := [["objects/a".toList, "objects/b".toList]]
  walk_nodup := walk_nodup

theorem unlisted_fails : ¬ Contract (fun _ => ⟨3⟩) toPython job mets [] := by
  rintro ⟨after, hrun, -⟩
  have hfails : (assignUUIDsToFilesInDir (fun _ => ⟨3⟩) toPython job []).toOption = none := by decide
  rw [hrun] at hfails
  cases hfails

theorem assign_contract_iff_unlisted :
    Contract (fun _ => ⟨3⟩) toPython job mets [] ↔ Clear (fun _ => ⟨3⟩) toPython job mets [] :=
  assign_contract_iff rfl rfl

end Unlisted

end Ccp.Worker.AssignFileUUIDs
