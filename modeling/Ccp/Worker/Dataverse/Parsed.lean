import Ccp.Worker.Dataverse
import Mathlib.Data.List.Nodup
import Mathlib.Data.List.Perm.Basic
import Mathlib.Data.List.Range

namespace Ccp.Worker.Dataverse

open Lib

-- The rows of a path of the transfer.
def rowsAt (files : List File) (transfer : UUID) (path : Str) : List File :=
  files.filter fun f => f.transfer = transfer ∧ f.originallocation = location path

-- The row of an entry, unless the entry is left out or the file is gone.
def present (files : List File) (transfer : UUID) (e : Entry) : Option File :=
  if e.skipped then none else (rowsAt files transfer e.path).head?.bind File.kept

-- A derivative whose own file and original are present, as the files of both.
def derivationOf (files : List File) (transfer : UUID) (entries : List Entry) (e : Entry) :
    Option (UUID × UUID) :=
  match e.derivedFrom with
  | none => none
  | some id =>
      if e.use = some derivative then
        ((entries.find? fun o => o.id = id).bind (present files transfer)).bind fun source =>
          (present files transfer e).map fun derived => (source.uuid, derived.uuid)
      else none

def Derivation.ends (d : Derivation) : UUID × UUID := (d.sourceFile, d.derivedFile)

-- The run succeeds, and what it writes is what the entries say.
structure Parsed (disk : Disk) (unitPath : Str) (transfer : UUID) (entries allFiles : List Entry) (db : Db)
    (mapping : Mapping) (after : Db) : Prop where
  run : parseDataverseMets disk unitPath transfer allFiles db = some (mapping, after)
  distinct : (mapping.map fun item => item.2.uuid).Nodup
  derivations : ∃ created, after.derivations = db.derivations ++ created ∧
    (created.map Derivation.ends).Perm (entries.filterMap (derivationOf db.files transfer entries)) ∧
    (created.map Derivation.ends).Nodup ∧ ∀ d ∈ created, d.sourceFile ≠ d.derivedFile

-- No two entries that are present have one path, and a derivative is not present without its original.
structure Clear (files : List File) (transfer : UUID) (entries : List Entry) : Prop where
  paths : ∀ e ∈ entries, ∀ e' ∈ entries, (present files transfer e).isSome = true →
    (present files transfer e').isSome = true → e.path = e'.path → e = e'
  originals : ∀ e ∈ entries, (present files transfer e).isSome = true → e.use = some derivative →
    ∀ id, e.derivedFrom = some id →
      ∃ o ∈ entries, o.id = id ∧ (present files transfer o).isSome = true

-- What convert_dataverse_structure.py lists.

-- Entries are numbered from a place on, and none is derived from itself.
def Numbered (n : ℕ) (entries : List Entry) : Prop :=
  entries.map Entry.id = List.range' n entries.length ∧ ∀ e ∈ entries, e.derivedFrom ≠ some e.id

theorem Numbered.append {n : ℕ} {entries more : List Entry} (h : Numbered n entries)
    (hmore : Numbered (n + entries.length) more) : Numbered n (entries ++ more) := by
  constructor
  · rw [List.map_append, h.1, hmore.1, List.length_append, List.range'_append_1]
  · intro e he
    rcases List.mem_append.mp he with hmem | hmem
    · exact h.2 e hmem
    · exact hmore.2 e hmem

theorem numbered_single {n : ℕ} {e : Entry} (hid : e.id = n) (hfrom : e.derivedFrom = none) :
    Numbered n [e] := by
  refine ⟨by rw [List.map_singleton, hid]; rfl, fun e' he' => ?_⟩
  obtain rfl := List.mem_singleton.mp he'
  rw [hfrom]
  exact (Option.some_ne_none _).symm

theorem numbered_derived (base : Str) (files : List (Str × Str)) (n : ℕ) :
    Numbered (n + 1) ((files.zipIdx (n + 1)).map fun file =>
      (⟨file.2, .item, inBundle base file.1.1, some file.1.2, some n, none⟩ : Entry)) := by
  constructor
  · rw [List.map_map, List.length_map, List.length_zipIdx]
    exact List.zipIdx_map_snd _ _
  · intro e he
    obtain ⟨file, hfile, rfl⟩ := List.mem_map.mp he
    have hle := List.le_snd_of_mem_zipIdx hfile
    intro heq
    have hid : n = file.2 := Option.some.inj heq
    omega

theorem numbered_bundleOf (n : ℕ) (base filename : Str) (dataFile : DataFile) (checksum : Str) :
    Numbered n (bundleOf n base filename dataFile checksum) := by
  have hdirectory : Numbered n [⟨n, .directory, base, none, none, none⟩] := numbered_single rfl rfl
  have horiginal : Numbered (n + 1) [⟨n + 1, .item, inBundle base (originalName base filename dataFile),
    some original, none, some checksum⟩] := numbered_single rfl rfl
  exact hdirectory.append (horiginal.append (numbered_derived base _ (n + 1)))

theorem numbered_addDatasetFile {entries entries' : List Entry} {file : FileJson} (hn : Numbered 0 entries)
    (h : addDatasetFile entries file = some entries') : Numbered 0 entries' := by
  obtain ⟨dataFile, _, hrest⟩ := Option.bind_eq_some_iff.mp h
  obtain ⟨filename, _, hadd⟩ := Option.bind_eq_some_iff.mp hrest
  split_ifs at hadd with htab
  · obtain ⟨bundle, hbundle, rfl⟩ := Option.map_eq_some_iff.mp hadd
    obtain ⟨label, _, hlast⟩ := Option.bind_eq_some_iff.mp hbundle
    obtain ⟨checksum, _, hsome⟩ := Option.bind_eq_some_iff.mp hlast
    obtain rfl := Option.some.inj hsome
    refine hn.append ?_
    rw [Nat.zero_add]
    exact numbered_bundleOf _ _ _ _ _
  · unfold addPlainFile at hadd
    split_ifs at hadd
    obtain ⟨checksum, _, rfl⟩ := Option.map_eq_some_iff.mp hadd
    refine hn.append (numbered_single ?_ rfl)
    rw [Nat.zero_add]

theorem numbered_addDatasetFiles {files : List FileJson} {entries entries' : List Entry}
    (hn : Numbered 0 entries) (h : files.foldlM addDatasetFile entries = some entries') :
    Numbered 0 entries' := by
  induction files generalizing entries with
  | nil =>
      obtain rfl := Option.some.inj h
      exact hn
  | cons file files ih =>
      rw [List.foldlM_cons] at h
      obtain ⟨next, hnext, hrest⟩ := Option.bind_eq_some_iff.mp h
      exact ih (numbered_addDatasetFile hn hnext) hrest

theorem numbered_of_convert {files : List FileJson} {entries : List Entry}
    (h : convertDataverseToMets files = some entries) : Numbered 0 entries := by
  obtain ⟨added, hadd, rfl⟩ := Option.map_eq_some_iff.mp h
  unfold addDatasetFilesToMd at hadd
  split_ifs at hadd
  have hadded := numbered_addDatasetFiles (numbered_single rfl rfl) hadd
  have hlast : Numbered (0 + added.length) ([⟨added.length, .directory, "metadata".toList, none, none, none⟩] ++
      [⟨added.length + 1, .item, "metadata/dataset.json".toList, some metadata, none, none⟩]) := by
    rw [Nat.zero_add]
    exact (numbered_single rfl rfl).append (numbered_single rfl rfl)
  exact hadded.append hlast

theorem nodup_of_numbered {n : ℕ} {entries : List Entry} (h : Numbered n entries) :
    (entries.map Entry.id).Nodup := by
  rw [h.1]
  exact List.nodup_range'

-- The entry of a number is one.
theorem find?_eq_some_iff {entries : List Entry} (h : (entries.map Entry.id).Nodup) {id : ℕ} {o : Entry} :
    (entries.find? fun o => o.id = id) = some o ↔ o ∈ entries ∧ o.id = id := by
  constructor
  · intro hfind
    exact ⟨List.mem_of_find?_eq_some hfind, of_decide_eq_true
      (List.find?_some (p := fun o : Entry => decide (o.id = id)) hfind)⟩
  · rintro ⟨hmem, hid⟩
    have hsome : (entries.find? fun o => o.id = id).isSome := List.find?_isSome.mpr ⟨o, hmem, by simp [hid]⟩
    obtain ⟨o', ho'⟩ := Option.isSome_iff_exists.mp hsome
    have hid' : o'.id = id := of_decide_eq_true
      (List.find?_some (p := fun o : Entry => decide (o.id = id)) ho')
    rw [ho', List.inj_on_of_nodup_map h (List.mem_of_find?_eq_some ho') hmem (hid'.trans hid.symm)]

-- What parse_dataverse_mets.py does with them.

section Parse

variable {files : List File} {transfer : UUID} {entries allFiles : List Entry} {e : Entry} {f : File}

theorem lookup_of_rowsAt (h : rowsAt files transfer e.path = [f]) :
    lookup files transfer (location e.path) = .found f := by
  rw [rowsAt] at h
  rw [lookup, h]

def mappingOf (files : List File) (transfer : UUID) (allFiles : List Entry) : Mapping :=
  allFiles.filterMap fun e => (present files transfer e).map fun f => (e, f)

theorem mem_mappingOf {item : Entry × File} :
    item ∈ mappingOf files transfer allFiles ↔
      item.1 ∈ allFiles ∧ present files transfer item.1 = some item.2 := by
  rw [mappingOf, List.mem_filterMap]
  constructor
  · rintro ⟨e, he, hmap⟩
    obtain ⟨f, hf, rfl⟩ := Option.map_eq_some_iff.mp hmap
    exact ⟨he, hf⟩
  · rintro ⟨he, hf⟩
    exact ⟨item.1, he, by rw [hf]; rfl⟩

-- One row for each path that is listed and looked up: the one of dataset.json is not.
def OneRow (files : List File) (transfer : UUID) (entries : List Entry) : Prop :=
  ∀ e ∈ entries, e.skipped = false → ∃ f, rowsAt files transfer e.path = [f]

theorem addObject_eq (hone : OneRow files transfer entries) (he : e ∈ entries) (mapping : Mapping) :
    addObject files transfer mapping e =
      some (mapping ++ ((present files transfer e).map fun f => (e, f)).toList) := by
  unfold addObject
  cases hskipped : e.skipped with
  | true => simp [present, hskipped]
  | false =>
      obtain ⟨f, hf⟩ := hone e he hskipped
      have hget : getDbObject files transfer e = some f.kept := by
        rw [getDbObject, lookup_of_rowsAt hf]
      have hpresent : present files transfer e = f.kept := by
        rw [present, hskipped, hf]
        rfl
      rw [if_neg Bool.false_ne_true, hget, hpresent]
      cases f.kept with
      | none => rfl
      | some kept => rfl

theorem foldlM_addObject (hone : OneRow files transfer entries) (hmem : ∀ e ∈ allFiles, e ∈ entries)
    (mapping : Mapping) :
    allFiles.foldlM (addObject files transfer) mapping =
      some (mapping ++ mappingOf files transfer allFiles) := by
  induction allFiles generalizing mapping with
  | nil =>
      rw [mappingOf, List.filterMap_nil, List.append_nil]
      rfl
  | cons e allFiles ih =>
      rw [List.foldlM_cons, addObject_eq hone (hmem e List.mem_cons_self)]
      refine (ih (fun e' he' => hmem e' (List.mem_cons_of_mem _ he')) _).trans ?_
      rw [mappingOf, mappingOf, List.filterMap_cons, List.append_assoc]
      cases (present files transfer e).map fun f => (e, f) with
      | none => rfl
      | some item => rfl

theorem getDbObjects_eq (hone : OneRow files transfer entries) (hmem : ∀ e ∈ allFiles, e ∈ entries) :
    getDbObjects files transfer allFiles = some (mappingOf files transfer allFiles) := by
  rw [getDbObjects, foldlM_addObject hone hmem, List.nil_append]

theorem updateFileUse_derivations (mapping : Mapping) (db : Db) :
    (updateFileUse mapping db).derivations = db.derivations := by
  induction mapping generalizing db with
  | nil => rfl
  | cons item mapping ih =>
      rw [updateFileUse, List.foldl_cons]
      exact ih (db.setUse item)

-- The derivation of an item of the mapping, where the mapping has its original.
def pairOf (mapping : Mapping) (item : Entry × File) : Option (UUID × UUID) :=
  match item.1.derivedFrom with
  | none => none
  | some id =>
      if item.1.use = some derivative then
        (mapping.get? id).map fun source => (source.uuid, item.2.uuid)
      else none

def Resolved (mapping : Mapping) (item : Entry × File) : Prop :=
  item.1.use = some derivative → ∀ id, item.1.derivedFrom = some id → (mapping.get? id).isSome = true

theorem createDbEntry_eq_some_iff {mapping : Mapping} {item : Entry × File} {db : Db} :
    (∃ db', createDbEntry mapping db item = some db') ↔ Resolved mapping item := by
  unfold createDbEntry Resolved
  cases hfrom : item.1.derivedFrom with
  | none => simp
  | some id =>
      by_cases huse : item.1.use = some derivative
      · cases hget : mapping.get? id with
        | none => simp [huse, hget]
        | some source => simp [huse, hget]
      · simp [huse]

theorem createDbEntry_spec {mapping : Mapping} {item : Entry × File} {db db' : Db}
    (h : createDbEntry mapping db item = some db') : ∃ created,
      db'.derivations = db.derivations ++ created ∧
        created.map Derivation.ends = (pairOf mapping item).toList := by
  unfold createDbEntry at h
  unfold pairOf
  cases hfrom : item.1.derivedFrom with
  | none =>
      rw [hfrom] at h
      obtain rfl := Option.some.inj h
      exact ⟨[], (List.append_nil _).symm, rfl⟩
  | some id =>
      simp only [hfrom] at h ⊢
      split_ifs at h ⊢ with huse
      · obtain ⟨source, hsource, rfl⟩ := Option.map_eq_some_iff.mp h
        exact ⟨_, rfl, by rw [hsource]; rfl⟩
      · obtain rfl := Option.some.inj h
        exact ⟨[], (List.append_nil _).symm, rfl⟩

theorem foldlM_createDbEntry_spec {whole mapping : Mapping} {db db' : Db}
    (h : mapping.foldlM (createDbEntry whole) db = some db') : ∃ created,
      db'.derivations = db.derivations ++ created ∧
        created.map Derivation.ends = mapping.filterMap (pairOf whole) := by
  induction mapping generalizing db with
  | nil =>
      obtain rfl := Option.some.inj h
      exact ⟨[], (List.append_nil _).symm, rfl⟩
  | cons item mapping ih =>
      rw [List.foldlM_cons] at h
      obtain ⟨next, hnext, hrest⟩ := Option.bind_eq_some_iff.mp h
      obtain ⟨first, hfirst, hpair⟩ := createDbEntry_spec hnext
      obtain ⟨later, hlater, hpairs⟩ := ih hrest
      refine ⟨first ++ later, by rw [hlater, hfirst, List.append_assoc], ?_⟩
      rw [List.map_append, hpair, hpairs, List.filterMap_cons]
      cases pairOf whole item with
      | none => rfl
      | some pair => rfl

theorem exists_foldlM_createDbEntry_iff {whole mapping : Mapping} {db : Db} :
    (∃ db', mapping.foldlM (createDbEntry whole) db = some db') ↔ ∀ item ∈ mapping, Resolved whole item := by
  induction mapping generalizing db with
  | nil => exact ⟨fun _ item hitem => absurd hitem List.not_mem_nil, fun _ => ⟨db, rfl⟩⟩
  | cons item mapping ih =>
      rw [List.foldlM_cons, List.forall_mem_cons]
      constructor
      · rintro ⟨db', hrun⟩
        obtain ⟨next, hnext, hrest⟩ := Option.bind_eq_some_iff.mp hrun
        exact ⟨createDbEntry_eq_some_iff.mp ⟨next, hnext⟩, ih.mp ⟨db', hrest⟩⟩
      · rintro ⟨hitem, hrest⟩
        obtain ⟨next, hnext⟩ := createDbEntry_eq_some_iff.mpr hitem
        obtain ⟨db', hdb'⟩ := (@ih next).mpr hrest
        exact ⟨db', by rw [hnext]; exact hdb'⟩

-- The file is where its row says.
def File.Readable (disk : Disk) (unitPath : Str) (f : File) : Prop :=
  ∃ current, f.currentlocation = some current ∧
    (disk.isdir (replaceAll current transferDirectory unitPath) = true ∨
      (disk.checksum (replaceAll current transferDirectory unitPath)).isSome = true)

-- The files of the transfer that are listed and not gone are there.
def OnDisk (disk : Disk) (unitPath : Str) (files : List File) (transfer : UUID) (entries : List Entry) : Prop :=
  ∀ e ∈ entries, ∀ f, present files transfer e = some f → f.Readable disk unitPath

theorem exists_validateChecksum {disk : Disk} {unitPath : Str} {item : Entry × File}
    (hitem : item.2.Readable disk unitPath) (db : Db) :
    ∃ db', validateChecksum disk unitPath db item = some db' ∧ db'.derivations = db.derivations := by
  unfold validateChecksum
  split_ifs
  · exact ⟨db, rfl, rfl⟩
  · obtain ⟨current, hcurrent, hreadable⟩ := hitem
    simp only [hcurrent, Option.bind_some]
    split_ifs with hdir
    · exact ⟨db, rfl, rfl⟩
    · obtain ⟨generated, hgenerated⟩ := Option.isSome_iff_exists.mp (hreadable.resolve_left hdir)
      rw [verifyChecksum, hgenerated]
      exact ⟨_, rfl, rfl⟩

theorem exists_validateChecksums {disk : Disk} {unitPath : Str} {mapping : Mapping}
    (hmem : ∀ item ∈ mapping, item.2.Readable disk unitPath) (db : Db) :
    ∃ db', validateChecksums disk unitPath mapping db = some db' ∧ db'.derivations = db.derivations := by
  induction mapping generalizing db with
  | nil => exact ⟨db, rfl, rfl⟩
  | cons item mapping ih =>
      rw [List.forall_mem_cons] at hmem
      obtain ⟨next, hnext, hsame⟩ := exists_validateChecksum hmem.1 db
      obtain ⟨db', hdb', hsame'⟩ := ih hmem.2 next
      refine ⟨db', ?_, hsame'.trans hsame⟩
      rw [validateChecksums, List.foldlM_cons, hnext]
      exact hdb'

-- What it is for a file to be present.
structure Shown (files : List File) (transfer : UUID) (e : Entry) (f : File) : Prop where
  listed : e.skipped = false
  mem : f ∈ files
  originallocation : f.originallocation = location e.path
  kept : f.gone = false

theorem shown_of_present (h : present files transfer e = some f) : Shown files transfer e f := by
  unfold present at h
  split_ifs at h with hskipped
  obtain ⟨row, hhead, hkept⟩ := Option.bind_eq_some_iff.mp h
  unfold File.kept at hkept
  split_ifs at hkept with hgone
  obtain rfl := Option.some.inj hkept
  have hrow := List.mem_filter.mp (List.mem_of_head? hhead)
  exact ⟨by simpa using hskipped, hrow.1, (of_decide_eq_true hrow.2).2, by simpa using hgone⟩

theorem present_congr {e' : Entry} (hpath : e.path = e'.path) (he : (present files transfer e).isSome = true)
    (he' : (present files transfer e').isSome = true) : present files transfer e = present files transfer e' := by
  obtain ⟨f, hf⟩ := Option.isSome_iff_exists.mp he
  obtain ⟨f', hf'⟩ := Option.isSome_iff_exists.mp he'
  rw [present, present, (shown_of_present hf).listed, (shown_of_present hf').listed, hpath]

theorem location_injective {p q : Str} (h : location p = location q) : p = q := by
  have hjoin (r : Str) : location r = if r.head? = some '/' then r else transferObjectsDirectory ++ '/' :: r := by
    have hopen : ¬ (transferObjectsDirectory = [] ∨ transferObjectsDirectory.getLast? = some '/') := by decide
    rw [location, PosixPath.join, if_neg hopen]
  rw [hjoin, hjoin] at h
  have hslash (r r' : Str) : r.head? = some '/' → r ≠ transferObjectsDirectory ++ '/' :: r' := by
    intro hr heq
    have hhead : (transferObjectsDirectory ++ '/' :: r').head? = some '%' := rfl
    rw [heq, hhead] at hr
    cases hr
  split_ifs at h with hp hq hq
  · exact h
  · exact absurd h (hslash p q hp)
  · exact absurd h.symm (hslash q p hq)
  · exact (List.cons.inj (List.append_cancel_left h)).2

section Order

variable (hids : (entries.map Entry.id).Nodup) (horder : allFiles.Perm entries)
include hids horder

theorem nodup_allFiles : allFiles.Nodup := horder.nodup_iff.mpr (List.Nodup.of_map Entry.id hids)

theorem eq_of_id {e' : Entry} (he : e ∈ allFiles) (he' : e' ∈ allFiles) (h : e.id = e'.id) : e = e' :=
  List.inj_on_of_nodup_map hids (horder.mem_iff.mp he) (horder.mem_iff.mp he') h

theorem get?_mappingOf (id : ℕ) :
    (mappingOf files transfer allFiles).get? id =
      (entries.find? fun o => o.id = id).bind (present files transfer) := by
  refine Option.ext fun f => ?_
  rw [Option.bind_eq_some_iff, Mapping.get?, Option.map_eq_some_iff]
  constructor
  · rintro ⟨item, hfind, rfl⟩
    have hid : item.1.id = id := of_decide_eq_true
      (List.find?_some (p := fun item : Entry × File => decide (item.1.id = id)) hfind)
    obtain ⟨hmem, hpresent⟩ := mem_mappingOf.mp (List.mem_of_find?_eq_some hfind)
    exact ⟨item.1, (find?_eq_some_iff hids).mpr ⟨horder.mem_iff.mp hmem, hid⟩, hpresent⟩
  · rintro ⟨o, ho, hpresent⟩
    obtain ⟨hmem, hid⟩ := (find?_eq_some_iff hids).mp ho
    have hitem : (o, f) ∈ mappingOf files transfer allFiles :=
      mem_mappingOf.mpr ⟨horder.mem_iff.mpr hmem, hpresent⟩
    have hsome : ((mappingOf files transfer allFiles).find? fun item => item.1.id = id).isSome :=
      List.find?_isSome.mpr ⟨(o, f), hitem, by simp [hid]⟩
    obtain ⟨item, hfind⟩ := Option.isSome_iff_exists.mp hsome
    have hid' : item.1.id = id := of_decide_eq_true
      (List.find?_some (p := fun item : Entry × File => decide (item.1.id = id)) hfind)
    obtain ⟨hmem', hpresent'⟩ := mem_mappingOf.mp (List.mem_of_find?_eq_some hfind)
    have hsame := eq_of_id hids horder hmem' (horder.mem_iff.mpr hmem) (hid'.trans hid.symm)
    rw [hsame, hpresent] at hpresent'
    exact ⟨item, hfind, (Option.some.inj hpresent').symm⟩

omit hids horder in
theorem bind_pairOf {whole : Mapping} (hget : ∀ id, whole.get? id =
      (entries.find? fun o => o.id = id).bind (present files transfer)) (e : Entry) :
    ((present files transfer e).map fun f => (e, f)).bind (pairOf whole) =
      derivationOf files transfer entries e := by
  unfold derivationOf
  cases hfrom : e.derivedFrom with
  | none =>
      cases present files transfer e with
      | none => rfl
      | some f => simp [pairOf, hfrom]
  | some id =>
      cases present files transfer e with
      | none =>
          simp only [Option.map_none, Option.bind_none]
          split_ifs
          · cases (entries.find? fun o => o.id = id).bind (present files transfer) with
            | none => rfl
            | some source => rfl
          · rfl
      | some f =>
          simp only [Option.map_some, Option.bind_some, pairOf, hfrom, hget]
          split_ifs
          · cases (entries.find? fun o => o.id = id).bind (present files transfer) with
            | none => rfl
            | some source => rfl
          · rfl

-- The derivations of the mapping are those of the entries.
theorem filterMap_pairOf :
    (mappingOf files transfer allFiles).filterMap (pairOf (mappingOf files transfer allFiles)) =
      allFiles.filterMap (derivationOf files transfer entries) := by
  have hget := @get?_mappingOf files transfer _ _ hids horder
  have hbind := bind_pairOf hget
  rw [← funext hbind, ← List.filterMap_filterMap]
  rfl

theorem resolved_iff {item : Entry × File} :
    Resolved (mappingOf files transfer allFiles) item ↔ (item.1.use = some derivative →
      ∀ id, item.1.derivedFrom = some id →
        ∃ o ∈ entries, o.id = id ∧ (present files transfer o).isSome = true) := by
  refine forall_congr' fun _ => forall_congr' fun id => forall_congr' fun _ => ?_
  rw [get?_mappingOf hids horder, Option.isSome_iff_exists]
  constructor
  · rintro ⟨f, hf⟩
    obtain ⟨o, ho, hpresent⟩ := Option.bind_eq_some_iff.mp hf
    obtain ⟨hmem, hid⟩ := (find?_eq_some_iff hids).mp ho
    exact ⟨o, hmem, hid, by rw [hpresent]; rfl⟩
  · rintro ⟨o, hmem, hid, hsome⟩
    obtain ⟨f, hpresent⟩ := Option.isSome_iff_exists.mp hsome
    exact ⟨f, Option.bind_eq_some_iff.mpr ⟨o, (find?_eq_some_iff hids).mpr ⟨hmem, hid⟩, hpresent⟩⟩

variable (huuid : (files.map File.uuid).Nodup)
include huuid

theorem distinct_iff :
    ((mappingOf files transfer allFiles).map fun item => item.2.uuid).Nodup ↔
      ∀ e ∈ entries, ∀ e' ∈ entries, (present files transfer e).isSome = true →
        (present files transfer e').isSome = true → e.path = e'.path → e = e' := by
  constructor
  · intro hnodup e he e' he' hsome hsome' hpath
    have hsame := present_congr hpath hsome hsome'
    obtain ⟨f, hf⟩ := Option.isSome_iff_exists.mp hsome
    have hitem : (e, f) ∈ mappingOf files transfer allFiles :=
      mem_mappingOf.mpr ⟨horder.mem_iff.mpr he, hf⟩
    have hitem' : (e', f) ∈ mappingOf files transfer allFiles :=
      mem_mappingOf.mpr ⟨horder.mem_iff.mpr he', hsame ▸ hf⟩
    exact congrArg Prod.fst (List.inj_on_of_nodup_map hnodup hitem hitem' rfl)
  · intro hpaths
    have hnodup : (mappingOf files transfer allFiles).Nodup := by
      refine List.Nodup.filterMap (fun e e' item hitem hitem' => ?_) (nodup_allFiles hids horder)
      obtain ⟨f, _, rfl⟩ := Option.map_eq_some_iff.mp hitem
      obtain ⟨f', _, heq⟩ := Option.map_eq_some_iff.mp hitem'
      exact (congrArg Prod.fst heq).symm
    refine List.Nodup.map_on (fun item hitem item' hitem' heq => ?_) hnodup
    obtain ⟨hmem, hpresent⟩ := mem_mappingOf.mp hitem
    obtain ⟨hmem', hpresent'⟩ := mem_mappingOf.mp hitem'
    have hshown := shown_of_present hpresent
    have hshown' := shown_of_present hpresent'
    have hfile : item.2 = item'.2 := List.inj_on_of_nodup_map huuid hshown.mem hshown'.mem heq
    have hpath : item.1.path = item'.1.path := by
      refine location_injective ?_
      rw [← hshown.originallocation, ← hshown'.originallocation, hfile]
    have hentry := hpaths item.1 (horder.mem_iff.mp hmem) item'.1 (horder.mem_iff.mp hmem')
      (by rw [hpresent]; rfl) (by rw [hpresent']; rfl) hpath
    exact Prod.ext hentry hfile

end Order

end Parse

section Run

variable {transfer : UUID} {entries allFiles : List Entry} {db : Db} {disk : Disk} {unitPath : Str}

-- A pair of the mapping has the row of its derivative, and another one for the original.
theorem pairOf_spec {mapping : Mapping} {item : Entry × File} {pair : UUID × UUID}
    (h : pairOf mapping item = some pair) :
    pair.2 = item.2.uuid ∧ ∃ source ∈ mapping, item.1.derivedFrom = some source.1.id ∧
      pair.1 = source.2.uuid := by
  unfold pairOf at h
  cases hfrom : item.1.derivedFrom with
  | none => simp [hfrom] at h
  | some id =>
      simp only [hfrom] at h
      split_ifs at h
      obtain ⟨source, hsource, rfl⟩ := Option.map_eq_some_iff.mp h
      obtain ⟨found, hfind, rfl⟩ := Option.map_eq_some_iff.mp hsource
      have hid : found.1.id = id := of_decide_eq_true
        (List.find?_some (p := fun item : Entry × File => decide (item.1.id = id)) hfind)
      exact ⟨rfl, found, List.mem_of_find?_eq_some hfind, by rw [hid], rfl⟩

theorem nodup_pairs {mapping : Mapping} (h : (mapping.map fun item => item.2.uuid).Nodup) :
    (mapping.filterMap (pairOf mapping)).Nodup := by
  have hsecond : ((mapping.filterMap (pairOf mapping)).map Prod.snd).Nodup := by
    refine h.sublist ?_
    have hsub (l : Mapping) : ((l.filterMap (pairOf mapping)).map Prod.snd).Sublist
        (l.map fun item => item.2.uuid) := by
      induction l with
      | nil => exact List.Sublist.refl _
      | cons item l ih =>
          rw [List.filterMap_cons, List.map_cons]
          cases hpair : pairOf mapping item with
          | none => exact ih.cons _
          | some pair =>
              rw [List.map_cons, (pairOf_spec hpair).1]
              exact ih.cons_cons _
    exact hsub mapping
  exact List.Nodup.of_map _ hsecond

-- No entry is derived from itself, so none of the files is.
theorem ne_of_pairOf (hnumbered : Numbered 0 entries) (horder : allFiles.Perm entries)
    (hdistinct : ((mappingOf db.files transfer allFiles).map fun item => item.2.uuid).Nodup)
    {item : Entry × File} (hitem : item ∈ mappingOf db.files transfer allFiles) {pair : UUID × UUID}
    (h : pairOf (mappingOf db.files transfer allFiles) item = some pair) : pair.1 ≠ pair.2 := by
  obtain ⟨hderived, source, hsource, hfrom, hpair⟩ := pairOf_spec h
  intro heq
  have huuid : source.2.uuid = item.2.uuid := hpair.symm.trans (heq.trans hderived)
  have hsame : source = item := List.inj_on_of_nodup_map hdistinct hsource hitem huuid
  rw [hsame] at hfrom
  exact hnumbered.2 item.1 (horder.mem_iff.mp (mem_mappingOf.mp hitem).1) hfrom

theorem parse_eq (hone : OneRow db.files transfer entries) (horder : allFiles.Perm entries) :
    parseDataverseMets disk unitPath transfer allFiles db =
      ((createDbEntries (mappingOf db.files transfer allFiles)
        (updateFileUse (mappingOf db.files transfer allFiles) db)).bind fun db' =>
          (validateChecksums disk unitPath (mappingOf db.files transfer allFiles) db').bind fun after =>
            some (mappingOf db.files transfer allFiles, after)) := by
  have hobjects := getDbObjects_eq hone fun e he => horder.mem_iff.mp he
  unfold parseDataverseMets
  rw [hobjects]
  rfl

-- The METS that is parsed lists what the other script made of dataset.json, in any order.
theorem parsed_iff {json : List FileJson} (hconvert : convertDataverseToMets json = some entries)
    (horder : allFiles.Perm entries) (hone : OneRow db.files transfer entries)
    (huuid : (db.files.map File.uuid).Nodup) (hdisk : OnDisk disk unitPath db.files transfer entries) :
    (∃ mapping after, Parsed disk unitPath transfer entries allFiles db mapping after) ↔
      Clear db.files transfer entries := by
  have hnumbered := numbered_of_convert hconvert
  have hids := nodup_of_numbered hnumbered
  have hparse := @parse_eq transfer _ _ _ disk unitPath hone horder
  have hpaths := @distinct_iff _ transfer _ _ hids horder huuid
  constructor
  · rintro ⟨mapping, after, hparsed⟩
    have hrun := hparsed.run
    rw [hparse] at hrun
    obtain ⟨db', hcreate, hvalidate⟩ := Option.bind_eq_some_iff.mp hrun
    obtain ⟨after', _, hpair⟩ := Option.bind_eq_some_iff.mp hvalidate
    obtain ⟨rfl, rfl⟩ := Prod.mk.inj (Option.some.inj hpair)
    have hresolved := exists_foldlM_createDbEntry_iff.mp ⟨db', hcreate⟩
    refine ⟨hpaths.mp hparsed.distinct, fun e he hsome huse id hfrom => ?_⟩
    obtain ⟨f, hf⟩ := Option.isSome_iff_exists.mp hsome
    have hitem : (e, f) ∈ mappingOf db.files transfer allFiles :=
      mem_mappingOf.mpr ⟨horder.mem_iff.mpr he, hf⟩
    exact (resolved_iff hids horder).mp (hresolved _ hitem) huse id hfrom
  · intro hclear
    have hdistinct := hpaths.mpr hclear.paths
    have hresolved : ∀ item ∈ mappingOf db.files transfer allFiles,
        Resolved (mappingOf db.files transfer allFiles) item := by
      intro item hitem
      obtain ⟨hmem, hpresent⟩ := mem_mappingOf.mp hitem
      rw [resolved_iff hids horder]
      exact hclear.originals item.1 (horder.mem_iff.mp hmem) (by rw [hpresent]; rfl)
    obtain ⟨db', hcreate⟩ := exists_foldlM_createDbEntry_iff.mpr hresolved
    have hreadable : ∀ item ∈ mappingOf db.files transfer allFiles, item.2.Readable disk unitPath := by
      intro item hitem
      obtain ⟨hmem, hpresent⟩ := mem_mappingOf.mp hitem
      exact hdisk item.1 (horder.mem_iff.mp hmem) item.2 hpresent
    obtain ⟨after, hafter, hsame⟩ := exists_validateChecksums hreadable db'
    obtain ⟨created, hcreated, hends⟩ := foldlM_createDbEntry_spec hcreate
    refine ⟨mappingOf db.files transfer allFiles, after, ?_, hdistinct, created, ?_, ?_, ?_, fun d hd => ?_⟩
    · rw [hparse, createDbEntries, hcreate, Option.bind_some, hafter, Option.bind_some]
    · rw [hsame, hcreated, updateFileUse_derivations]
    · rw [hends, filterMap_pairOf hids horder]
      exact horder.filterMap _
    · rw [hends]
      exact nodup_pairs hdistinct
    · have hmem : d.ends ∈ created.map Derivation.ends := List.mem_map_of_mem hd
      rw [hends] at hmem
      obtain ⟨item, hitem, hpair⟩ := List.mem_filterMap.mp hmem
      exact ne_of_pairOf hnumbered horder hdistinct hitem hpair

end Run

-- A bundle of one table, and the rows of its files.

def survey (originalFormatLabel : Str) : List FileJson :=
  [⟨some "survey.tab".toList, some ⟨some "survey.tab".toList, some originalFormatLabel, some "d41d8".toList⟩⟩]

def surveyTransfer : UUID := ⟨1⟩

def rowOf (uuid : BitVec 128) (name : Str) : File :=
  ⟨⟨uuid⟩, surveyTransfer, location name, some (location name), false, none⟩

def surveyRows : List File :=
  [rowOf 2 "survey/survey.tab".toList, rowOf 3 "survey/survey.RData".toList, rowOf 4 "survey/survey.csv".toList,
    rowOf 5 "survey/survey-ddi.xml".toList, rowOf 6 "survey/surveycitation-endnote.xml".toList,
    rowOf 7 "survey/surveycitation-ris.ris".toList, rowOf 8 "survey/surveycitation-bib.bib".toList]

def allThere : Disk := ⟨fun _ => false, fun _ => some "d41d8".toList⟩

def surveyDb : Db := ⟨surveyRows, [], []⟩

def csvLabel : Str := "Comma Separated Values".toList

def sasLabel : Str := "SAS".toList

theorem onDisk_survey (entries : List Entry) : OnDisk allThere [] surveyRows surveyTransfer entries := by
  intro e _ f hf
  have hcurrent : surveyRows.all (fun f => f.currentlocation.isSome) = true := by decide
  obtain ⟨current, hsome⟩ := Option.isSome_iff_exists.mp (List.all_eq_true.mp hcurrent f (shown_of_present hf).mem)
  exact ⟨current, hsome, Or.inr rfl⟩

def entriesOf (originalFormatLabel : Str) : List Entry :=
  (convertDataverseToMets (survey originalFormatLabel)).getD []

theorem convert_survey (originalFormatLabel : Str) :
    convertDataverseToMets (survey originalFormatLabel) = some (entriesOf originalFormatLabel) := rfl

theorem oneRow_of_all {files : List File} {transfer : UUID} {entries : List Entry}
    (h : (entries.all fun e => e.skipped = true ∨ (rowsAt files transfer e.path).length = 1) = true) :
    OneRow files transfer entries := by
  intro e he hskipped
  have hone := of_decide_eq_true (List.all_eq_true.mp h e he)
  rw [hskipped] at hone
  exact List.length_eq_one_iff.mp (hone.resolve_left Bool.false_ne_true)

theorem clear_survey : Clear surveyRows surveyTransfer (entriesOf csvLabel) := by
  have hpaths : ((entriesOf csvLabel).map Entry.path).Nodup := by decide
  have hderived : ((entriesOf csvLabel).all fun e => e.derivedFrom.all fun id => id = 2) = true := by decide
  have horiginal : ((entriesOf csvLabel).any fun e =>
      e.id = 2 ∧ (present surveyRows surveyTransfer e).isSome = true) = true := by decide
  refine ⟨fun e he e' he' _ _ hpath => List.inj_on_of_nodup_map hpaths he he' hpath,
    fun e he _ _ id hfrom => ?_⟩
  have hid := List.all_eq_true.mp hderived e he
  rw [hfrom, Option.all_some] at hid
  obtain rfl : id = 2 := of_decide_eq_true hid
  obtain ⟨o, ho, hpresent⟩ := List.any_eq_true.mp horiginal
  exact ⟨o, ho, of_decide_eq_true hpresent⟩

theorem nodup_surveyRows : (surveyRows.map File.uuid).Nodup := by decide

theorem parsed_survey :
    ∃ mapping after, Parsed allThere [] surveyTransfer (entriesOf csvLabel) (entriesOf csvLabel) surveyDb
      mapping after :=
  (parsed_iff (convert_survey csvLabel) (List.Perm.refl _) (oneRow_of_all (by decide)) nodup_surveyRows
    (onDisk_survey _)).mpr clear_survey

-- A label that the mapping does not know: the original has the name of the table that comes from it.
theorem not_parsed_unmapped :
    OneRow surveyRows surveyTransfer (entriesOf sasLabel) ∧
      ¬ ∃ mapping after, Parsed allThere [] surveyTransfer (entriesOf sasLabel) (entriesOf sasLabel) surveyDb
        mapping after := by
  refine ⟨oneRow_of_all (by decide), ?_⟩
  rintro ⟨mapping, after, hparsed⟩
  have hrun : (parseDataverseMets allThere [] surveyTransfer (entriesOf sasLabel) surveyDb).map
      (fun result => result.1.map fun item => item.2.uuid) =
        some [⟨2⟩, ⟨3⟩, ⟨2⟩, ⟨5⟩, ⟨6⟩, ⟨7⟩, ⟨8⟩] := by decide
  have hsame : some (mapping.map fun item => item.2.uuid) = some [⟨2⟩, ⟨3⟩, ⟨2⟩, ⟨5⟩, ⟨6⟩, ⟨7⟩, ⟨8⟩] := by
    rw [← hrun, hparsed.run]
    rfl
  have hdistinct := hparsed.distinct
  rw [Option.some.inj hsame] at hdistinct
  exact absurd hdistinct (by decide)

end Ccp.Worker.Dataverse
