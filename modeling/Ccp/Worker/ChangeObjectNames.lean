import Ccp.Lib.Batched
import Ccp.Worker.ChangeNames.Tree
import Ccp.Worker.CreateSIP
import Ccp.Worker.Events

namespace Ccp.Worker.ChangeObjectNames

open Lib FileOperations ChangeNames CreateSIP

inductive GroupType
  | sip
  | transfer
deriving DecidableEq

def GroupType.text : GroupType → Str
  | .sip => sipDirectory
  | .transfer => transferDirectory

-- What a script knows of the unit. Both paths are taken from the top of the disk on, that of
-- the objects from the unit on, and a unit has rows for its directories when these have UUIDs.
structure NameChanger where
  groupType : GroupType
  groupSql : UnitIdentifierType
  sipUUID : UUID
  diruuids : Bool
  agents : Finset ℕ
  sipPath : List Name
  sipPath_ne : sipPath ≠ []
  objectsDirectory : List Name

-- The rows of both tables with their indexes, and the events.
structure State where
  files : Batched.Batch Str Str File
  dirs : Batched.Batch Str Str Directory
  events : List Event

def eventDetail : Str :=
  ("prohibited characters removed: program=\"change_names\"; version=\"1.10." ++
    "3ed60176f8059746220e5baf22fd6f28b9b63cc7\"").toList

def eventOutcomeDetail (old new : Str) : Str :=
  "Original name=\"".toList ++ old ++ "\"; new name=\"".toList ++ new ++ "\"".toList

namespace NameChanger

-- A batch is applied when its index has BATCH_SIZE entries.
variable {α : Type*} (nfc unidecode : Str → Str) (maxFilename batchSize : ℕ) (nc : NameChanger)

def ref : UnitRef := ⟨nc.sipUUID, nc.groupSql, nc.groupType.text⟩

-- A path of the unit as the file system has it.
def absolute (p : List Name) : Str := '/' :: text (nc.sipPath ++ p)

def sipPathText : Str := '/' :: text nc.sipPath ++ ['/']

-- file_queryset
def fileColumn : Batched.Column Str File where
  mine := nc.ref.owns
  get f := f.currentlocation
  put f v := { f with currentlocation := v }
  mine_put _ _ := rfl
  get_put _ _ := rfl
  put_get _ := rfl
  put_put _ _ _ := rfl

def ownsDirectory (d : Directory) : Bool :=
  match nc.groupSql with
  | .transferId => d.transfer = some nc.sipUUID
  | .sipId => d.sip = some nc.sipUUID

-- directory_queryset, where it is one.
def directoryColumn : Batched.Column Str Directory where
  mine := nc.ownsDirectory
  get d := d.currentlocation
  put d v := { d with currentlocation := v }
  mine_put _ _ := rfl
  get_put _ _ := rfl
  put_get _ := rfl
  put_put _ _ _ := rfl

def normalizePathForDb (path : Str) : Str :=
  replaceFirst nc.sipPathText nc.groupType.text (nfc path)

def changeEvent (index : Dict Str Str) (f : File) : Option Event :=
  if nc.ref.owns f then
    (Dict.get? index (nfc f.currentlocation)).map fun changed =>
      { fileUUID := some f.uuid
        eventType := "filename change".toList
        eventDetail
        eventOutcome := []
        eventOutcomeDetail := eventOutcomeDetail (nfc f.currentlocation) changed
        agents := ∅ }
  else none

def applyFileUpdates (s : State) : State :=
  { s with
    files := s.files.flush nfc nc.fileColumn
    events := Event.bulkCreate nc.agents
      (s.files.rows.filterMap (nc.changeEvent nfc s.files.index)) s.events }

def applyDirUpdates (s : State) : State :=
  if nc.diruuids then { s with dirs := s.dirs.flush nfc nc.directoryColumn } else s

def addFileToBatch (oldPath newPath : Str) (s : State) : State :=
  let oldPath := nc.normalizePathForDb nfc oldPath
  let newPath := nc.normalizePathForDb nfc newPath
  let index := Dict.set s.files.index oldPath newPath
  let s := { s with files := ⟨s.files.rows, index⟩ }
  if batchSize ≤ index.length then nc.applyFileUpdates nfc s else s

def addDirToBatch (oldPath newPath : Str) (s : State) : State :=
  let oldPath := PosixPath.join (nc.normalizePathForDb nfc oldPath) []
  let newPath := PosixPath.join (nc.normalizePathForDb nfc newPath) []
  let index := Dict.set s.dirs.index oldPath newPath
  let s := { s with dirs := ⟨s.dirs.rows, index⟩ }
  if batchSize ≤ index.length then nc.applyDirUpdates nfc s else s

def visit (s : State) (y : Change) : State :=
  if y.wasChanged then
    if y.isDir then nc.addDirToBatch nfc batchSize (nc.absolute y.oldPath) (nc.absolute y.changedPath) s
    else nc.addFileToBatch nfc batchSize (nc.absolute y.oldPath) (nc.absolute y.changedPath) s
  else s

def changeObjects (l : Listing) (d : Disk Name α) (s : State) : Option (Disk Name α × State) :=
  (changeTree unidecode maxFilename l nc.objectsDirectory nc.objectsDirectory d).map fun r =>
    (r.1, nc.applyDirUpdates nfc (nc.applyFileUpdates nfc (r.2.foldl (nc.visit nfc batchSize) s)))

end NameChanger

-- What is known of the NFC form: ASCII texts have it, it is made on both sides of a character
-- that combines with none, and neither a separator nor an empty text comes from anything else.
structure Normalizes (nfc : Str → Str) : Prop where
  ascii : ∀ s : Str, (∀ c ∈ s, c.toNat < 128) → nfc s = s
  split : ∀ (a : Str) (c : Char) (b : Str), c = '/' ∨ c = '%' → nfc (a ++ c :: b) = nfc a ++ c :: nfc b
  slash : ∀ s : Str, '/' ∈ nfc s → '/' ∈ s
  ne_nil : ∀ s : Str, nfc s = [] → s = []

namespace Normalizes

variable {nfc : Str → Str} (h : Normalizes nfc)

-- The NFC form of a name.
def name (n : Name) : Name :=
  ⟨nfc n.val, fun hnil => n.2.1 (h.ne_nil _ hnil), fun hslash => n.2.2 (h.slash _ hslash)⟩

include h

theorem nil : nfc [] = [] := h.ascii [] (by simp)

theorem text_eq (p : List Name) : nfc (text p) = text (p.map h.name) := by
  induction p with
  | nil => exact h.nil
  | cons n p ih =>
      by_cases hp : p = []
      · subst hp
        simp [FileOperations.text, name]
      · have hmap : p.map h.name ≠ [] := by simpa using hp
        rw [← List.singleton_append, text_append (by simp) hp, h.split _ _ _ (Or.inl rfl), ih,
          List.map_append, text_append (by simp) hmap]
        simp [FileOperations.text, name]

theorem slash_text (p : List Name) : nfc ('/' :: text p) = '/' :: text (p.map h.name) := by
  have hsplit := h.split [] '/' (text p) (Or.inl rfl)
  rwa [List.nil_append, h.nil, List.nil_append, h.text_eq] at hsplit

theorem group_append (g : GroupType) (s : Str) : nfc (g.text ++ s) = g.text ++ nfc s := by
  have hgroup : ∀ a : Str, (∀ c ∈ a, c.toNat < 128) → nfc (a ++ '%' :: s) = a ++ '%' :: nfc s :=
    fun a ha => by rw [h.split a '%' s (Or.inr rfl), h.ascii a ha]
  cases g with
  | sip =>
      have hascii : "%SIPDirectory".toList.all (fun c => decide (c.toNat < 128)) = true := by decide
      exact hgroup _ fun c hc => of_decide_eq_true (List.all_eq_true.mp hascii c hc)
  | transfer =>
      have hascii : "%transferDirectory".toList.all (fun c => decide (c.toNat < 128)) = true := by
        decide
      exact hgroup _ fun c hc => of_decide_eq_true (List.all_eq_true.mp hascii c hc)

theorem name_of_allowed {n : Name} (hn : ∀ c ∈ n.val, allowed c = true) : h.name n = n :=
  Subtype.ext (h.ascii _ fun c hc => toNat_lt_of_allowed (hn c hc))

theorem map_of_sanitised {unidecode : Str → Str} {maxFilename : ℕ} {r s : List Name}
    (hall : List.Forall₂ (Sanitised unidecode maxFilename) r s) : s.map h.name = s := by
  induction hall with
  | nil => rfl
  | cons hn _ ih => rw [List.map_cons, ih, h.name_of_allowed hn.allowed]

end Normalizes

namespace NameChanger

variable {nfc unidecode : Str → Str} {maxFilename batchSize : ℕ} (nc : NameChanger)

-- What the row of an entry has.
def place (isDir : Bool) (p : List Name) : Str :=
  nc.ref.location p ++ if isDir then ['/'] else []

-- What an index has for a path.
def written (nfc : Str → Str) (isDir : Bool) (p : List Name) : Str :=
  if isDir then PosixPath.join (nc.normalizePathForDb nfc (nc.absolute p)) []
  else nc.normalizePathForDb nfc (nc.absolute p)

variable {nc} {isDir : Bool} {p q : List Name}

theorem place_injective (h : nc.place isDir p = nc.place isDir q) : p = q :=
  UnitRef.location_injective (List.append_cancel_right h)

theorem nfc_place (h : Normalizes nfc) (isDir : Bool) (p : List Name) :
    nfc (nc.place isDir p) = nc.place isDir (p.map h.name) := by
  have hgroup : ∀ q, nc.ref.location q = nc.groupType.text ++ text q := fun _ => rfl
  rw [place, place, hgroup, hgroup, List.append_assoc, List.append_assoc, h.group_append]
  cases isDir with
  | true => rw [if_pos rfl, h.split _ _ _ (Or.inl rfl), h.nil, h.text_eq]
  | false => rw [if_neg (by simp), List.append_nil, List.append_nil, h.text_eq]

theorem nfc_absolute (h : Normalizes nfc) (p : List Name) :
    nfc (nc.absolute p) = '/' :: text ((nc.sipPath ++ p).map h.name) :=
  h.slash_text _

theorem head?_location (p : List Name) : (nc.ref.location p).head? = some '%' := by
  have hgroup : ∀ g : GroupType, g.text.head? = some '%' := fun g => by cases g <;> rfl
  rw [ref, UnitRef.location, List.head?_append, hgroup]
  rfl

theorem getLast?_text (hp : p ≠ []) : (text p).getLast? ≠ some '/' := by
  intro hlast
  obtain ⟨z, hz⟩ := List.getLast?_eq_some_iff.mp hlast
  have hsplit := splitOn_text hp
  rw [hz, List.splitOn_append_cons_self] at hsplit
  -- a name would be empty
  have hmem : [] ∈ p.map Subtype.val := by
    rw [← hsplit]
    simp
  obtain ⟨n, -, hn⟩ := List.mem_map.mp hmem
  exact n.2.1 hn

-- os.path.join with nothing puts a separator at the end, unless there is one.
theorem join_location (hp : p ≠ []) :
    PosixPath.join (nc.ref.location p) [] = nc.ref.location p ++ ['/'] := by
  have hne : text p ≠ [] := text_ne_nil hp
  rw [PosixPath.join, if_neg (by simp), if_neg, UnitRef.location]
  rw [UnitRef.location, List.getLast?_append_of_ne_nil _ hne, not_or]
  exact ⟨by simp [hne], getLast?_text hp⟩

theorem head?_join {s : Str} (h : s.head? = some '/') :
    (PosixPath.join s []).head? = some '/' := by
  rw [PosixPath.join, if_neg (by simp)]
  split_ifs <;> simp [List.head?_append, h]

theorem normalizePathForDb_cases (nc : NameChanger) (h : Normalizes nfc) (hp : p ≠ []) :
    (nc.sipPath.map h.name = nc.sipPath ∧
      nc.normalizePathForDb nfc (nc.absolute p) = nc.ref.location (p.map h.name)) ∨
    (nc.sipPath.map h.name ≠ nc.sipPath ∧
      (nc.normalizePathForDb nfc (nc.absolute p)).head? = some '/') := by
  have hmap : p.map h.name ≠ [] := by simpa using hp
  rw [normalizePathForDb, nfc_absolute h]
  by_cases hroot : nc.sipPath.map h.name = nc.sipPath
  · refine Or.inl ⟨hroot, ?_⟩
    have htext : '/' :: text ((nc.sipPath ++ p).map h.name) =
        nc.sipPathText ++ text (p.map h.name) := by
      rw [List.map_append, hroot, text_append nc.sipPath_ne hmap, sipPathText]
      simp
    rw [htext, replaceFirst_self_append]
    rfl
  · refine Or.inr ⟨hroot, ?_⟩
    have hnot : ¬ nc.sipPathText.isPrefixOf ('/' :: text ((nc.sipPath ++ p).map h.name)) = true := by
      rw [List.isPrefixOf_iff_prefix, sipPathText, List.cons_append, List.cons_prefix_cons,
        text_prefix_iff nc.sipPath_ne]
      rintro ⟨-, r, -, hr⟩
      rw [List.map_append] at hr
      exact hroot (List.append_inj_left hr (by simp))
    rw [replaceFirst, if_neg hnot]
    rfl

theorem written_cases (nc : NameChanger) (h : Normalizes nfc) (isDir : Bool) (hp : p ≠ []) :
    (nc.sipPath.map h.name = nc.sipPath ∧
      nc.written nfc isDir p = nc.place isDir (p.map h.name)) ∨
    (nc.sipPath.map h.name ≠ nc.sipPath ∧ (nc.written nfc isDir p).head? = some '/') := by
  rcases normalizePathForDb_cases nc h hp with ⟨hroot, heq⟩ | ⟨hroot, hhead⟩
  · refine Or.inl ⟨hroot, ?_⟩
    rw [written, place, heq]
    cases isDir with
    | true =>
        rw [if_pos rfl, if_pos rfl, join_location (by simpa using hp)]
    | false => rw [if_neg (by simp), if_neg (by simp), List.append_nil]
  · refine Or.inr ⟨hroot, ?_⟩
    rw [written]
    cases isDir with
    | true =>
        rw [if_pos rfl]
        exact head?_join hhead
    | false => rwa [if_neg (by simp)]

-- The entries of one kind, and the changes that are written down for its rows.

def entries (nc : NameChanger) (isDir : Bool) (ys : List Change) : List (Str × Str) :=
  (ys.filter (·.isDir = isDir)).map fun y =>
    (nc.place isDir y.oldPath, nc.place isDir y.changedPath)

def changes (nc : NameChanger) (nfc : Str → Str) (isDir : Bool) (ys : List Change) :
    List (Str × Str) :=
  (ys.filter fun y => y.isDir = isDir ∧ y.wasChanged = true).map fun y =>
    (nc.written nfc isDir y.oldPath, nc.written nfc isDir y.changedPath)

-- The NFC form leaves the path of the directory alone when names in it are changed, and the
-- entries are told apart by the NFC forms of their paths.
structure Clear (nc : NameChanger) (nfc : Str → Str) (isDir : Bool) (ys : List Change) : Prop where
  stable : (∃ y ∈ ys, y.isDir = isDir ∧ y.wasChanged = true) →
    nfc (nc.absolute nc.objectsDirectory) = nc.absolute nc.objectsDirectory
  apart : Batched.Apart nfc (nc.entries isDir ys)

variable {α : Type*} {d d' : Disk Name α} {ys : List Change}

theorem stable_iff (h : Normalizes nfc) :
    nfc (nc.absolute nc.objectsDirectory) = nc.absolute nc.objectsDirectory ↔
      nc.sipPath.map h.name = nc.sipPath ∧
        nc.objectsDirectory.map h.name = nc.objectsDirectory := by
  rw [nfc_absolute h, absolute, List.cons_inj_right]
  constructor
  · intro heq
    have hmap := text_injective heq
    rw [List.map_append] at hmap
    exact List.append_inj hmap (by simp)
  · rintro ⟨hroot, hstart⟩
    rw [List.map_append, hroot, hstart]

-- The parts of the two paths of an entry that stand under the directory.
theorem exists_under {y : Change} (hk : Kept unidecode maxFilename nc.objectsDirectory d d' ys)
    (h : Normalizes nfc) (hy : y ∈ ys) :
    ∃ r s, r ≠ [] ∧ s ≠ [] ∧ s.map h.name = s ∧ y.oldPath = nc.objectsDirectory ++ r ∧
      y.changedPath = nc.objectsDirectory ++ s := by
  obtain ⟨r, s, hold, hnew, hall⟩ := hk.path y hy
  obtain ⟨-, r', hr', heq⟩ := (hk.entries y.oldPath).mp ⟨y, hy, rfl⟩
  obtain rfl := List.append_cancel_left (hold.symm.trans heq)
  refine ⟨r, s, hr', ?_, h.map_of_sanitised hall, hold, hnew⟩
  rintro rfl
  cases hall
  exact hr' rfl

theorem changes_eq (hk : Kept unidecode maxFilename nc.objectsDirectory d d' ys)
    (h : Normalizes nfc) (hstable : (∃ y ∈ ys, y.isDir = isDir ∧ y.wasChanged = true) →
      nfc (nc.absolute nc.objectsDirectory) = nc.absolute nc.objectsDirectory) :
    nc.changes nfc isDir ys = Batched.changesOf nfc (nc.entries isDir ys) := by
  rw [changes, Batched.changesOf, entries, List.filter_map, List.map_map, List.filter_filter]
  have hfilter : (ys.filter fun y => y.isDir = isDir ∧ y.wasChanged = true) =
      ys.filter fun y => decide (nc.place isDir y.oldPath ≠ nc.place isDir y.changedPath) &&
        decide (y.isDir = isDir) := by
    refine List.filter_congr fun y _ => ?_
    have hne : nc.place isDir y.oldPath ≠ nc.place isDir y.changedPath ↔ y.wasChanged = true := by
      rw [Change.wasChanged, decide_eq_true_eq, Ne, Ne, not_iff_not]
      exact ⟨fun heq => (place_injective heq).symm, fun heq => by rw [heq]⟩
    rw [Bool.eq_iff_iff, Bool.and_eq_true, decide_eq_true_eq, decide_eq_true_eq,
      decide_eq_true_eq, hne, and_comm]
  rw [hfilter]
  refine List.map_congr_left fun y hy => ?_
  have hmem := hfilter ▸ hy
  simp only [List.mem_filter, decide_eq_true_eq] at hmem
  obtain ⟨hy, hkind, hchanged⟩ := hmem
  obtain ⟨hroot, hstart⟩ := (stable_iff h).mp (hstable ⟨y, hy, hkind, hchanged⟩)
  obtain ⟨r, s, hr, hs, hname, hold, hnew⟩ := exists_under hk h hy
  have hwritten : ∀ p, p ≠ [] → nc.written nfc isDir p = nc.place isDir (p.map h.name) :=
    fun p hp => ((written_cases nc h isDir hp).resolve_right fun hnot => hnot.1 hroot).2
  refine Prod.ext ?_ ?_
  · exact (hwritten _ (by simp [hold, hr])).trans (nfc_place h isDir _).symm
  · refine (hwritten _ (by simp [hnew, hs])).trans (congrArg _ ?_)
    rw [hnew, List.map_append, hstart, hname]

-- Without the NFC form for the directory nothing that is written is the path of an entry.
theorem stable_of_written {y y' : Change}
    (hk : Kept unidecode maxFilename nc.objectsDirectory d d' ys) (h : Normalizes nfc)
    (hy : y ∈ ys) (hy' : y' ∈ ys)
    (heq : nc.written nfc isDir y'.changedPath = nc.place isDir y.changedPath) :
    nfc (nc.absolute nc.objectsDirectory) = nc.absolute nc.objectsDirectory := by
  obtain ⟨r, s, -, hs, -, -, hnew⟩ := exists_under hk h hy
  obtain ⟨r', s', -, hs', -, -, hnew'⟩ := exists_under hk h hy'
  have hne : y'.changedPath ≠ [] := by simp [hnew', hs']
  rcases written_cases nc h isDir hne with ⟨hroot, hplace⟩ | ⟨-, hhead⟩
  · have hpath := place_injective (hplace.symm.trans heq)
    rw [hnew, hnew', List.map_append] at hpath
    exact (stable_iff h).mpr ⟨hroot, List.append_inj_left hpath (by simp)⟩
  · rw [heq, place, List.head?_append, head?_location] at hhead
    cases hhead

theorem nodup_entries (hk : Kept unidecode maxFilename nc.objectsDirectory d d' ys) (isDir : Bool) :
    ((nc.entries isDir ys).map Prod.snd).Nodup := by
  have hmap : (nc.entries isDir ys).map Prod.snd =
      ((ys.filter (·.isDir = isDir)).map Change.changedPath).map (nc.place isDir) := by
    rw [entries, List.map_map, List.map_map]
    rfl
  rw [hmap]
  exact (hk.apart.sublist (List.filter_sublist.map _)).map fun _ _ => place_injective

-- Rows of one kind end with the new paths of their entries, whatever the size.
theorem settles_iff (hk : Kept unidecode maxFilename nc.objectsDirectory d d' ys)
    (h : Normalizes nfc) :
    (∀ size, ∀ y ∈ ys, y.isDir = isDir →
      Batched.settle nfc size [] (nc.changes nfc isDir ys) (nc.place isDir y.oldPath) =
        nc.place isDir y.changedPath) ↔ nc.Clear nfc isDir ys := by
  have hentries : ∀ {f : ℕ → Str → Str}, (∀ size, ∀ e ∈ nc.entries isDir ys, f size e.1 = e.2) ↔
      ∀ size, ∀ y ∈ ys, y.isDir = isDir →
        f size (nc.place isDir y.oldPath) = nc.place isDir y.changedPath := by
    intro f
    simp only [entries, List.forall_mem_map, List.mem_filter, decide_eq_true_eq, and_imp]
  rw [← hentries]
  constructor
  · intro hsettle
    have hstable : (∃ y ∈ ys, y.isDir = isDir ∧ y.wasChanged = true) →
        nfc (nc.absolute nc.objectsDirectory) = nc.absolute nc.objectsDirectory := by
      rintro ⟨y, hy, hkind, hchanged⟩
      have hlast := hentries.mp hsettle 1 y hy hkind
      have hvalue : Batched.settle nfc 1 [] (nc.changes nfc isDir ys) (nc.place isDir y.oldPath) =
            nc.place isDir y.oldPath ∨
          Batched.settle nfc 1 [] (nc.changes nfc isDir ys) (nc.place isDir y.oldPath) ∈
            (nc.changes nfc isDir ys).map Prod.snd := Batched.settle_one_eq_or _ _
      rcases hvalue with heq | hmem
      · rw [heq] at hlast
        rw [Change.wasChanged, decide_eq_true_eq] at hchanged
        exact absurd (place_injective hlast).symm hchanged
      · rw [hlast, changes, List.map_map] at hmem
        obtain ⟨y', hy', heq⟩ := List.mem_map.mp hmem
        exact stable_of_written hk h hy (List.mem_of_mem_filter hy') heq
    refine ⟨hstable, ?_⟩
    rw [changes_eq hk h hstable] at hsettle
    exact (Batched.settle_iff (nodup_entries hk isDir)).mp hsettle
  · intro hclear
    rw [changes_eq hk h hclear.stable]
    exact (Batched.settle_iff (nodup_entries hk isDir)).mpr hclear.apart

section Rows

variable {ρ : Type*} (column : Batched.Column Str ρ)

-- Every row that pointed to an entry of the tree points to the new path of that entry.
def Follows (nc : NameChanger) (isDir : Bool) (ys : List Change) (rows rows' : List ρ) : Prop :=
  List.Forall₂ (fun r r' => r' = column.put r (column.get r') ∧
    ∀ y ∈ ys, y.isDir = isDir → column.mine r = true →
      column.get r = nc.place isDir y.oldPath → column.get r' = nc.place isDir y.changedPath)
    rows rows'

variable {column}

theorem follows_map {f : Str → Str} (h : ∀ y ∈ ys, y.isDir = isDir →
      f (nc.place isDir y.oldPath) = nc.place isDir y.changedPath) (rows : List ρ) :
    Follows column nc isDir ys rows (rows.map (column.write f)) := by
  rw [Follows, List.forall₂_map_right_iff]
  refine List.forall₂_same.mpr fun r _ => ⟨column.write_eq_put f r, ?_⟩
  intro y hy hkind hmine hplace
  rw [column.get_write f hmine, hplace, h y hy hkind]

theorem of_follows_singleton {f : Str → Str} {y : Change} {r : ρ} (hy : y ∈ ys)
    (hkind : y.isDir = isDir) (hmine : column.mine r = true)
    (hplace : column.get r = nc.place isDir y.oldPath)
    (h : Follows column nc isDir ys [r] ([r].map (column.write f))) :
    f (nc.place isDir y.oldPath) = nc.place isDir y.changedPath := by
  rw [Follows, List.map_cons, List.forall₂_cons] at h
  rw [← hplace, ← column.get_write f hmine]
  exact h.1.2 y hy hkind hmine hplace

end Rows

variable {s : State} {y : Change}

theorem files_addFileToBatch (nc : NameChanger) (p q : List Name) (s : State) :
    (nc.addFileToBatch nfc batchSize (nc.absolute p) (nc.absolute q) s).files =
      s.files.add nfc batchSize nc.fileColumn (nc.written nfc false p, nc.written nfc false q) := by
  have hwritten : ∀ p, nc.written nfc false p = nc.normalizePathForDb nfc (nc.absolute p) :=
    fun _ => rfl
  simp only [addFileToBatch, Batched.Batch.add, hwritten]
  split_ifs <;> rfl

theorem dirs_addFileToBatch (nc : NameChanger) (oldPath newPath : Str) (s : State) :
    (nc.addFileToBatch nfc batchSize oldPath newPath s).dirs = s.dirs := by
  simp only [addFileToBatch]
  split_ifs <;> rfl

theorem files_addDirToBatch (nc : NameChanger) (oldPath newPath : Str) (s : State) :
    (nc.addDirToBatch nfc batchSize oldPath newPath s).files = s.files := by
  simp only [addDirToBatch, applyDirUpdates]
  split_ifs <;> rfl

theorem dirs_addDirToBatch (hdirs : nc.diruuids = true) (p q : List Name) (s : State) :
    (nc.addDirToBatch nfc batchSize (nc.absolute p) (nc.absolute q) s).dirs =
      s.dirs.add nfc batchSize nc.directoryColumn
        (nc.written nfc true p, nc.written nfc true q) := by
  have hwritten : ∀ p, nc.written nfc true p =
      PosixPath.join (nc.normalizePathForDb nfc (nc.absolute p)) [] := fun _ => rfl
  simp only [addDirToBatch, applyDirUpdates, Batched.Batch.add, hwritten, hdirs, if_true]
  split_ifs <;> rfl

theorem files_visit (nc : NameChanger) (s : State) (y : Change) :
    (nc.visit nfc batchSize s y).files =
      if y.isDir = false ∧ y.wasChanged = true then
        s.files.add nfc batchSize nc.fileColumn
          (nc.written nfc false y.oldPath, nc.written nfc false y.changedPath)
      else s.files := by
  rw [visit]
  cases y.wasChanged with
  | false => simp
  | true =>
      cases y.isDir with
      | true => simp [files_addDirToBatch]
      | false => simp [files_addFileToBatch]

theorem dirs_visit (hdirs : nc.diruuids = true) (s : State) (y : Change) :
    (nc.visit nfc batchSize s y).dirs =
      if y.isDir = true ∧ y.wasChanged = true then
        s.dirs.add nfc batchSize nc.directoryColumn
          (nc.written nfc true y.oldPath, nc.written nfc true y.changedPath)
      else s.dirs := by
  rw [visit]
  cases y.wasChanged with
  | false => simp
  | true =>
      cases y.isDir with
      | true => simp [dirs_addDirToBatch hdirs]
      | false => simp [dirs_addFileToBatch]

-- The changes of one kind, one after the other.
theorem foldl_visit {ρ : Type*} {column : Batched.Column Str ρ}
    (batch : State → Batched.Batch Str Str ρ)
    (hstep : ∀ s y, batch (nc.visit nfc batchSize s y) =
      if y.isDir = isDir ∧ y.wasChanged = true then
        (batch s).add nfc batchSize column
          (nc.written nfc isDir y.oldPath, nc.written nfc isDir y.changedPath)
      else batch s) (ys : List Change) (s : State) :
    batch (ys.foldl (nc.visit nfc batchSize) s) =
      (nc.changes nfc isDir ys).foldl (Batched.Batch.add nfc batchSize column) (batch s) := by
  induction ys generalizing s with
  | nil => rfl
  | cons y ys ih =>
      rw [List.foldl_cons, ih, hstep, changes, changes, List.filter_cons]
      by_cases hy : y.isDir = isDir ∧ y.wasChanged = true
      · rw [if_pos hy, if_pos (decide_eq_true hy), List.map_cons, List.foldl_cons]
      · rw [if_neg hy, if_neg (by simpa using hy)]

variable {l : Listing} {files : List File} {dirs : List Directory} {events : List Event}

-- What is left at the end is written too.
theorem rows_changeObjects {s' : State}
    (htree : changeTree unidecode maxFilename l nc.objectsDirectory nc.objectsDirectory d =
      some (d', ys))
    (h : nc.changeObjects nfc unidecode maxFilename batchSize l d ⟨⟨files, []⟩, ⟨dirs, []⟩, events⟩ =
      some (d', s')) :
    s'.files.rows = files.map (nc.fileColumn.write
      (Batched.settle nfc batchSize [] (nc.changes nfc false ys))) ∧
    (nc.diruuids = true → s'.dirs.rows = dirs.map (nc.directoryColumn.write
      (Batched.settle nfc batchSize [] (nc.changes nfc true ys)))) := by
  rw [changeObjects, htree, Option.map_some] at h
  obtain rfl := (Prod.mk.inj (Option.some.inj h)).2
  let start : State := ⟨⟨files, []⟩, ⟨dirs, []⟩, events⟩
  have hfiles : (ys.foldl (nc.visit nfc batchSize) start).files = (nc.changes nfc false ys).foldl
      (Batched.Batch.add nfc batchSize nc.fileColumn) ⟨files, []⟩ :=
    foldl_visit State.files (files_visit nc) ys start
  constructor
  · rw [← Batched.Batch.rows_flush_foldl_add nfc batchSize nc.fileColumn ⟨files, []⟩, ← hfiles,
      applyDirUpdates]
    split_ifs <;> rfl
  · intro hdirs
    have hbatch : (ys.foldl (nc.visit nfc batchSize) start).dirs = (nc.changes nfc true ys).foldl
        (Batched.Batch.add nfc batchSize nc.directoryColumn) ⟨dirs, []⟩ :=
      foldl_visit State.dirs (dirs_visit hdirs) ys start
    rw [← Batched.Batch.rows_flush_foldl_add nfc batchSize nc.directoryColumn ⟨dirs, []⟩,
      ← hbatch, applyDirUpdates, if_pos hdirs]
    rfl

theorem exists_file (nc : NameChanger) (v : Str) :
    ∃ f, nc.fileColumn.mine f = true ∧ nc.fileColumn.get f = v := by
  refine ⟨⟨.nil, some nc.sipUUID, some nc.sipUUID, false, v⟩, ?_, rfl⟩
  cases hsql : nc.groupSql <;> simp [fileColumn, UnitRef.owns, ref, hsql]

theorem exists_directory (nc : NameChanger) (v : Str) :
    ∃ r, nc.directoryColumn.mine r = true ∧ nc.directoryColumn.get r = v := by
  refine ⟨⟨.nil, some nc.sipUUID, some nc.sipUUID, v⟩, ?_, rfl⟩
  cases hsql : nc.groupSql <;> simp [directoryColumn, ownsDirectory, hsql]

-- Whatever the batches and the rows, the tree is kept and every row goes with its entry.
theorem changeObjects_contract_iff (h : Normalizes nfc) (hlists : l.Lists d nc.objectsDirectory)
    (hdone : l.changes unidecode maxFilename nc.objectsDirectory nc.objectsDirectory l.names =
      some ys) :
    (∀ size files dirs events d' s',
      nc.changeObjects nfc unidecode maxFilename size l d
        ⟨⟨files, []⟩, ⟨dirs, []⟩, events⟩ = some (d', s') →
      Kept unidecode maxFilename nc.objectsDirectory d d' ys ∧
        Follows nc.fileColumn nc false ys files s'.files.rows ∧
          (nc.diruuids = true → Follows nc.directoryColumn nc true ys dirs s'.dirs.rows)) ↔
      nc.Clear nfc false ys ∧ (nc.diruuids = true → nc.Clear nfc true ys) := by
  obtain ⟨d', htree⟩ := exists_changeTree hlists hdone
  have hk := (changeTree_kept hlists htree).2
  have hrun : ∀ size files dirs events, ∃ s',
      nc.changeObjects nfc unidecode maxFilename size l d
        ⟨⟨files, []⟩, ⟨dirs, []⟩, events⟩ = some (d', s') := by
    intro size files dirs events
    rw [changeObjects, htree, Option.map_some]
    exact ⟨_, rfl⟩
  constructor
  · intro hall
    refine ⟨(settles_iff hk h).mp fun size y hy hkind => ?_,
      fun hdirs => (settles_iff hk h).mp fun size y hy hkind => ?_⟩
    · obtain ⟨f, hmine, hplace⟩ := nc.exists_file (nc.place false y.oldPath)
      obtain ⟨s', hs'⟩ := hrun size [f] [] []
      have hfollows := (hall size [f] [] [] d' s' hs').2.1
      rw [(rows_changeObjects htree hs').1] at hfollows
      exact of_follows_singleton hy hkind hmine hplace hfollows
    · obtain ⟨r, hmine, hplace⟩ := nc.exists_directory (nc.place true y.oldPath)
      obtain ⟨s', hs'⟩ := hrun size [] [r] []
      have hfollows := (hall size [] [r] [] d' s' hs').2.2 hdirs
      rw [(rows_changeObjects htree hs').2 hdirs] at hfollows
      exact of_follows_singleton hy hkind hmine hplace hfollows
  · rintro ⟨hfiles, hdirs⟩ size files dirs events d'' s' hs'
    obtain ⟨s₀, hs₀⟩ := hrun size files dirs events
    obtain ⟨hfile, hdir⟩ := rows_changeObjects htree hs₀
    rw [hs₀, Option.some.injEq, Prod.mk.injEq] at hs'
    obtain ⟨rfl, rfl⟩ := hs'
    refine ⟨hk, ?_, fun huuids => ?_⟩
    · rw [hfile]
      exact follows_map ((settles_iff hk h).mpr hfiles size) files
    · rw [hdir huuids]
      exact follows_map ((settles_iff hk h).mpr (hdirs huuids) size) dirs

end NameChanger

-- Two files with names that are one name in the NFC form.
namespace Angstrom

def nfc (s : Str) : Str := s.map fun c => if c = '\u212b' then '\u00c5' else c

def unidecode (s : Str) : Str := s.map fun c => if c = '\u212b' ∨ c = '\u00c5' then 'A' else c

def sign : Name := ⟨['\u212b'], by decide⟩

def letter : Name := ⟨['\u00c5'], by decide⟩

def changer : NameChanger where
  groupType := .transfer
  groupSql := .transferId
  sipUUID := ⟨1⟩
  diruuids := true
  agents := ∅
  sipPath := [⟨['u'], by decide⟩]
  sipPath_ne := List.cons_ne_nil _ _
  objectsDirectory := [objects]

def tree : List (List Name × Node ℕ) :=
  [([objects], .dir), ([objects, sign], .file 1), ([objects, letter], .file 2)]

theorem tree_nodup : (tree.map Prod.fst).Nodup := by decide

theorem tree_closed : ∀ e ∈ tree, e.1 ≠ [] ∧ (e.1.dropLast = [] ∨ (e.1.dropLast, Node.dir) ∈ tree) := by
  decide

def disk : Disk Name ℕ := ⟨tree, tree_nodup, tree_closed⟩

def listing : Listing := .file sign (.file letter .nil)

def plain : Name := ⟨['A'], by decide⟩

def number : Name := ⟨"A_1".toList, by decide⟩

def changes : List Change :=
  [⟨[objects, sign], [objects, plain], false⟩, ⟨[objects, letter], [objects, number], false⟩]

def row (p : List Name) : File := ⟨⟨2⟩, some ⟨1⟩, none, false, changer.place false p⟩

def rows : List File := [row [objects, sign], row [objects, letter]]

theorem normalizes : Normalizes nfc where
  ascii s hs := by
    refine (List.map_congr_left fun c hc => if_neg ?_).trans (List.map_id s)
    rintro rfl
    exact absurd (hs _ hc) (by decide)
  split a c b hc := by
    rw [nfc, List.map_append, List.map_cons]
    rcases hc with rfl | rfl <;> rfl
  slash s hs := by
    obtain ⟨c, hc, heq⟩ := List.mem_map.mp hs
    split_ifs at heq with hsign
    · exact absurd heq (by decide)
    · exact heq ▸ hc
  ne_nil s hs := List.map_eq_nil_iff.mp hs

theorem lists : listing.Lists disk [objects] where
  scanned := by
    refine ⟨by decide, fun n => ?_⟩
    rw [← Disk.mem_listdir, show disk.listdir [objects] = listing.names by decide]
  shows := by
    refine ⟨?_, ?_, trivial⟩ <;> decide

theorem locations_after :
    (changer.changeObjects nfc unidecode 255 2000 listing disk ⟨⟨rows, []⟩, ⟨[], []⟩, []⟩).map
      (fun r => r.2.files.rows.map File.currentlocation) =
    some [changer.place false [objects, number], changer.place false [objects, number]] := by
  decide

-- The row of the first file goes where the second file goes.
theorem row_goes_astray : ¬ ∀ d' s',
    changer.changeObjects nfc unidecode 255 2000 listing disk ⟨⟨rows, []⟩, ⟨[], []⟩, []⟩ =
      some (d', s') →
    Kept unidecode 255 changer.objectsDirectory disk d' changes ∧
      changer.Follows changer.fileColumn false changes rows s'.files.rows := by
  intro h
  obtain ⟨r, hrun, hlocations⟩ := Option.map_eq_some_iff.mp locations_after
  have hfollows := (h r.1 r.2 hrun).2
  obtain ⟨first, rest, ⟨-, hfirst⟩, -, hrows⟩ := List.forall₂_cons_left_iff.mp hfollows
  rw [hrows, List.map_cons] at hlocations
  have hplace : first.currentlocation = changer.place false [objects, plain] :=
    hfirst ⟨[objects, sign], [objects, plain], false⟩ (by decide) rfl (by decide) rfl
  rw [hplace] at hlocations
  exact absurd (List.cons.inj hlocations).1 (by decide)

theorem changeObjects_contract_iff_angstrom :
    (∀ size files dirs events d' s',
      changer.changeObjects nfc unidecode 255 size listing disk
        ⟨⟨files, []⟩, ⟨dirs, []⟩, events⟩ = some (d', s') →
      Kept unidecode 255 changer.objectsDirectory disk d' changes ∧
        changer.Follows changer.fileColumn false changes files s'.files.rows ∧
          (changer.diruuids = true →
            changer.Follows changer.directoryColumn true changes dirs s'.dirs.rows)) ↔
      changer.Clear nfc false changes ∧ (changer.diruuids = true → changer.Clear nfc true changes) :=
  NameChanger.changeObjects_contract_iff normalizes lists (by decide)

end Angstrom

end Ccp.Worker.ChangeObjectNames
