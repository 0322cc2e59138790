import Ccp.Worker.TransferMets.Scan

namespace Ccp.Worker.TransferMets

open Lib
open Rights (Statement)

-- The batches have every row once exactly where none is in two of them.
theorem batchQuery_perm_iff {α : Type} {queryset : QuerySet α} (hrows : queryset.rows.Nodup) :
    (batchQuery queryset).Perm queryset.rows ↔ Paging.Apart queryBatchSize queryset.order := by
  have hsize : 0 < queryBatchSize := by decide
  have hcover : queryset.rows.length ≤
      (queryset.rows.length + queryBatchSize - 1) / queryBatchSize * queryBatchSize := by
    have hmod := Nat.div_add_mod (queryset.rows.length + queryBatchSize - 1) queryBatchSize
    have hlt := Nat.mod_lt (queryset.rows.length + queryBatchSize - 1) hsize
    rw [Nat.mul_comm] at hmod
    omega
  have hle : (queryset.rows.length + queryBatchSize - 1) / queryBatchSize ≤
      queryset.rows.length + queryBatchSize - 1 := Nat.div_le_self _ _
  rw [batchQuery, ← Paging.pages_of_le queryset.perm hcover hle]
  refine ⟨fun hperm => ?_, Paging.pages_perm hrows queryset.perm hsize (by omega)⟩
  exact (Paging.nodup_pages_iff hrows queryset.perm hsize (by omega)).mp (hperm.nodup_iff.mpr hrows)

-- The tree before any data is read, whose entries stand for their places in the index.
def Entries.tree (dbBasePath path : Str) : Entries → FSEntries Str Str
  | .nil => .nil
  | .file name rest =>
      .item (PosixPath.join path name) name (dbBasePath ++ PosixPath.join path name) (rest.tree dbBasePath path)
  | .directory name children rest =>
      .directory (PosixPath.join path name) name (dbBasePath ++ PosixPath.join path name ++ ['/'])
        (children.tree dbBasePath (PosixPath.join path name)) (rest.tree dbBasePath path)

namespace FSEntries

variable {α β : Type}

def items : FSEntries α β → List α
  | .nil => []
  | .item _ _ data rest => data :: rest.items
  | .directory _ _ _ children rest => children.items ++ rest.items

def directories : FSEntries α β → List β
  | .nil => []
  | .item _ _ _ rest => rest.directories
  | .directory _ _ data children rest => data :: (children.directories ++ rest.directories)

-- The tree without some of its items.
def without (drop : α → Bool) : FSEntries α β → FSEntries α β
  | .nil => .nil
  | .item path label data rest => if drop data then rest.without drop else .item path label data (rest.without drop)
  | .directory path label data children rest =>
      .directory path label data (children.without drop) (rest.without drop)

theorem items_without (drop : α → Bool) (t : FSEntries α β) : (t.without drop).items = t.items.filter (!drop ·) := by
  induction t with
  | nil => rfl
  | item path label data rest ih =>
      rw [without, items, List.filter_cons]
      cases hdrop : drop data with
      | true => simpa using ih
      | false => simpa [items] using ih
  | directory path label data children rest ihc ihr => rw [without, items, items, ihc, ihr, List.filter_append]

theorem without_of_forall {drop : α → Bool} {t : FSEntries α β} (h : ∀ k ∈ t.items, drop k = false) :
    t.without drop = t := by
  induction t with
  | nil => rfl
  | item path label data rest ih =>
      obtain ⟨hdata, hrest⟩ := List.forall_mem_cons.mp h
      rw [without, hdata, if_neg Bool.false_ne_true, ih hrest]
  | directory path label data children rest ihc ihr =>
      rw [items, List.forall_mem_append] at h
      rw [without, ihc h.1, ihr h.2]

theorem without_without (drop drop' : α → Bool) (t : FSEntries α β) :
    (t.without drop).without drop' = t.without fun k => drop k || drop' k := by
  induction t with
  | nil => rfl
  | item path label data rest ih =>
      rw [without, without]
      cases hdrop : drop data with
      | true => simpa using ih
      | false => simp [without, ih]
  | directory path label data children rest ihc ihr => rw [without, without, without, ihc, ihr]

theorem removeChild_eq {t : FSEntries Str Str} (h : t.items.Nodup) (k : Str) :
    t.removeChild k = t.without (· = k) := by
  induction t with
  | nil => rfl
  | item path label key rest ih =>
      obtain ⟨hkey, hrest⟩ := List.nodup_cons.mp h
      rw [removeChild, without]
      by_cases hk : key = k
      · rw [if_pos hk, if_pos (decide_eq_true hk), without_of_forall]
        rintro k' hk'
        exact decide_eq_false fun hsame => hkey (hk.trans hsame.symm ▸ hk')
      · rw [if_neg hk, if_neg (by simpa using hk), ih hrest]
  | directory path label key children rest ihc ihr =>
      obtain ⟨hchildren, hrest, -⟩ := List.nodup_append.mp h
      rw [removeChild, without, ihc hchildren, ihr hrest]

theorem foldl_removeChild {t : FSEntries Str Str} (h : t.items.Nodup) (ks : List Str) :
    ks.foldl removeChild t = t.without (· ∈ ks) := by
  induction ks generalizing t with
  | nil => exact (without_of_forall fun k _ => by simp).symm
  | cons k ks ih =>
      rw [List.foldl_cons, removeChild_eq h, ih, without_without]
      · congr 1
        funext k'
        simp
      · rw [items_without]
        exact h.filter _

end FSEntries

section Build

variable {X : Type} {dbBasePath : Str}

theorem buildTree_tree (dbBasePath : Str) (es : Entries) (path : Str) (index : Index X) :
    (buildTree dbBasePath path es index).1 = es.tree dbBasePath path := by
  induction es generalizing path index with
  | nil => rfl
  | file name rest ih => simp only [buildTree, Entries.tree, ih]
  | directory name children rest ihc ihr => simp only [buildTree, Entries.tree, ihc, ihr]

theorem get?_files_buildTree (es : Entries) (path : Str) (index : Index X) (k : Str) :
    Dict.get? (buildTree dbBasePath path es index).2.files k =
      if k ∈ (es.tree dbBasePath path).items then some Item.new else Dict.get? index.files k := by
  induction es generalizing path index with
  | nil => rfl
  | file name rest ih =>
      simp only [buildTree, Entries.tree, FSEntries.items, ih, Dict.get?_set, List.mem_cons]
      by_cases hk : k ∈ (rest.tree dbBasePath path).items
      · simp [hk]
      · simp [hk, eq_comm]
  | directory name children rest ihc ihr =>
      simp only [buildTree, Entries.tree, FSEntries.items, ihr, ihc, List.mem_append]
      by_cases hk : k ∈ (rest.tree dbBasePath path).items
      · simp [hk]
      · simp [hk]

theorem get?_dirs_buildTree (es : Entries) (path : Str) (index : Index X) (k : Str) :
    Dict.get? (buildTree dbBasePath path es index).2.dirs k =
      if k ∈ (es.tree dbBasePath path).directories then some [] else Dict.get? index.dirs k := by
  induction es generalizing path index with
  | nil => rfl
  | file name rest ih => simp only [buildTree, Entries.tree, FSEntries.directories, ih]
  | directory name children rest ihc ihr =>
      simp only [buildTree, Entries.tree, FSEntries.directories, ihr, ihc, Dict.get?_set, List.mem_cons,
        List.mem_append]
      by_cases hk : k ∈ (rest.tree dbBasePath path).directories
      · simp [hk]
      · by_cases hc : k ∈ (children.tree dbBasePath (PosixPath.join path name)).directories
        · simp [hc]
        · simp [hk, hc, eq_comm]

end Build

section Proper

-- Names that a directory can have in it.
namespace Entries

def names : Entries → List Str
  | nil => []
  | file name rest => name :: rest.names
  | directory name _ rest => name :: rest.names

def Proper : Entries → Prop
  | nil => True
  | file name rest => PosixPath.Name name ∧ name ∉ rest.names ∧ rest.Proper
  | directory name entries rest => PosixPath.Name name ∧ name ∉ rest.names ∧ entries.Proper ∧ rest.Proper

-- A cell of the directory: its name, and what it adds to the names and the properness.
structure Cell (name : Str) (entry : Entries → Entries) : Prop where
  names : ∀ rest, (entry rest).names = name :: rest.names
  proper : ∀ rest, rest.Proper → name ∉ rest.names → (entry rest).Proper

theorem names_insort {name : Str} {entry : Entries → Entries} (h : Cell name entry) (es : Entries) :
    (insort name entry es).names.Perm (name :: es.names) := by
  induction es with
  | nil => rw [insort, h.names]
  | file other rest ih =>
      rw [insort]
      split_ifs
      · rw [h.names]
      · exact (ih.cons other).trans (List.Perm.swap name other _)
  | directory other entries rest ihc ihr =>
      rw [insort]
      split_ifs
      · rw [h.names]
      · exact (ihr.cons other).trans (List.Perm.swap name other _)

theorem proper_insort {name : Str} {entry : Entries → Entries} (h : Cell name entry) {es : Entries}
    (hes : es.Proper) (hname : name ∉ es.names) : (insort name entry es).Proper := by
  have hother : ∀ {other : Str} {rest : Entries}, other ∉ rest.names → other ≠ name →
      other ∉ (insort name entry rest).names := by
    intro other rest hother hne hmem
    rcases List.mem_cons.mp ((names_insort h rest).mem_iff.mp hmem) with hsame | hin
    · exact hne hsame
    · exact hother hin
  induction es with
  | nil => exact h.proper nil hes hname
  | file other rest ih =>
      rw [insort]
      split_ifs
      · exact h.proper _ hes hname
      · rw [names, List.mem_cons, not_or] at hname
        exact ⟨hes.1, hother hes.2.1 (Ne.symm hname.1), ih hes.2.2 hname.2⟩
  | directory other entries rest ihc ihr =>
      rw [insort]
      split_ifs
      · exact h.proper _ hes hname
      · rw [names, List.mem_cons, not_or] at hname
        exact ⟨hes.1, hother hes.2.1 (Ne.symm hname.1), hes.2.2.1, ihr hes.2.2.2 hname.2⟩

theorem cell_file {name : Str} (h : PosixPath.Name name) : Cell name (file name) :=
  ⟨fun _ => rfl, fun _ hrest hname => ⟨h, hname, hrest⟩⟩

theorem cell_directory {name : Str} {entries : Entries} (h : PosixPath.Name name) (hentries : entries.Proper) :
    Cell name (directory name entries) :=
  ⟨fun _ => rfl, fun _ hrest hname => ⟨h, hname, hentries, hrest⟩⟩

theorem sorted_of_proper {es : Entries} (h : es.Proper) : es.sorted.Proper ∧ es.sorted.names.Perm es.names := by
  induction es with
  | nil => exact ⟨trivial, List.Perm.refl _⟩
  | file name rest ih =>
      obtain ⟨hrest, hperm⟩ := ih h.2.2
      have hcell := cell_file h.1
      exact ⟨proper_insort hcell hrest (mt hperm.mem_iff.mp h.2.1), (names_insort hcell _).trans (hperm.cons name)⟩
  | directory name entries rest ihc ihr =>
      obtain ⟨hrest, hperm⟩ := ihr h.2.2.2
      have hcell := cell_directory h.1 (ihc h.2.2.1).1
      exact ⟨proper_insort hcell hrest (mt hperm.mem_iff.mp h.2.1), (names_insort hcell _).trans (hperm.cons name)⟩

end Entries

-- A path of the tree, the root's being empty.
def Within (path : Str) : Prop := path = [] ∨ PosixPath.Open path

def lead (path : Str) : Str := if path = [] then [] else path ++ ['/']

theorem join_of_within {path name : Str} (h : Within path) (hname : PosixPath.Name name) :
    PosixPath.join path name = lead path ++ name := by
  rcases h with rfl | hopen
  · rw [PosixPath.join_nil_of_name hname]
    rfl
  · rw [PosixPath.join_of_open hopen hname, lead, if_neg hopen.1, List.append_assoc]
    rfl

theorem open_join {path name : Str} (h : Within path) (hname : PosixPath.Name name) :
    PosixPath.Open (PosixPath.join path name) := by
  rcases h with rfl | hopen
  · rw [PosixPath.join_nil_of_name hname]
    exact hname.isOpen
  · exact PosixPath.open_join hopen hname

-- What comes after a name in a path.
def Below (rest : Str) : Prop := rest = [] ∨ rest.head? = some '/'

theorem name_inj {name name' rest rest' : Str} (hname : '/' ∉ name) (hname' : '/' ∉ name') (hrest : Below rest)
    (hrest' : Below rest') (h : name ++ rest = name' ++ rest') : name = name' := by
  have htake : ∀ {name rest : Str}, '/' ∉ name → Below rest → (name ++ rest).takeWhile (· ≠ '/') = name := by
    intro name rest hname hrest
    have hall : ∀ c ∈ name, decide (c ≠ '/') = true := by
      intro c hc
      exact decide_eq_true fun hslash => hname (hslash ▸ hc)
    rw [List.takeWhile_append_of_pos hall]
    rcases hrest with rfl | hhead
    · simp
    · obtain ⟨tail, rfl⟩ := List.head?_eq_some_iff.mp hhead
      simp
  rw [← htake hname hrest, h, htake hname' hrest']

variable {dbBasePath : Str}

-- The entries below a path have the names of its directory first.
theorem mem_items_tree {es : Entries} (hes : es.Proper) {path : Str} (hpath : Within path) {k : Str}
    (hk : k ∈ (es.tree dbBasePath path).items) :
    ∃ name ∈ es.names, ∃ rest, Below rest ∧ '/' ∉ name ∧ k = dbBasePath ++ (lead path ++ (name ++ rest)) := by
  induction es generalizing path with
  | nil => cases hk
  | file name rest ih =>
      rcases List.mem_cons.mp hk with rfl | hrest
      · refine ⟨name, List.mem_cons_self, [], Or.inl rfl, hes.1.2, ?_⟩
        rw [join_of_within hpath hes.1, List.append_nil]
      · obtain ⟨name', hname', hform⟩ := ih hes.2.2 hpath hrest
        exact ⟨name', List.mem_cons_of_mem name hname', hform⟩
  | directory name children rest ihc ihr =>
      rcases List.mem_append.mp hk with hchildren | hrest
      · have hopen := open_join hpath hes.1
        obtain ⟨name', -, rest', -, -, rfl⟩ := ihc hes.2.2.1 (Or.inr hopen) hchildren
        refine ⟨name, List.mem_cons_self, '/' :: (name' ++ rest'), Or.inr rfl, hes.1.2, ?_⟩
        rw [lead, if_neg hopen.1, join_of_within hpath hes.1]
        simp
      · obtain ⟨name', hname', hform⟩ := ihr hes.2.2.2 hpath hrest
        exact ⟨name', List.mem_cons_of_mem name hname', hform⟩

theorem key_inj {path name name' rest rest' : Str} (hname : '/' ∉ name) (hname' : '/' ∉ name') (hrest : Below rest)
    (hrest' : Below rest')
    (h : dbBasePath ++ (lead path ++ (name ++ rest)) = dbBasePath ++ (lead path ++ (name' ++ rest'))) :
    name = name' :=
  name_inj hname hname' hrest hrest' (List.append_cancel_left (List.append_cancel_left h))

-- No two items stand at one place of the index.
theorem nodup_items_tree {es : Entries} (hes : es.Proper) {path : Str} (hpath : Within path) :
    (es.tree dbBasePath path).items.Nodup := by
  induction es generalizing path with
  | nil => exact List.nodup_nil
  | file name rest ih =>
      refine List.nodup_cons.mpr ⟨fun hmem => ?_, ih hes.2.2 hpath⟩
      obtain ⟨name', hname', below, hbelow, hslash, hkey⟩ := mem_items_tree hes.2.2 hpath hmem
      rw [join_of_within hpath hes.1, ← List.append_nil name] at hkey
      obtain rfl := key_inj hes.1.2 hslash (Or.inl rfl) hbelow hkey
      exact hes.2.1 hname'
  | directory name children rest ihc ihr =>
      have hopen := open_join hpath hes.1
      refine List.nodup_append.mpr ⟨ihc hes.2.2.1 (Or.inr hopen), ihr hes.2.2.2 hpath, ?_⟩
      rintro k hchild _ hrest rfl
      -- an item below the directory and one beside it
      obtain ⟨inner, -, after, -, -, rfl⟩ := mem_items_tree hes.2.2.1 (Or.inr hopen) hchild
      obtain ⟨name', hname', below, hbelow, hslash, hkey⟩ := mem_items_tree hes.2.2.2 hpath hrest
      have hbeside : dbBasePath ++ (lead (PosixPath.join path name) ++ (inner ++ after)) =
          dbBasePath ++ (lead path ++ (name ++ '/' :: (inner ++ after))) := by
        rw [lead, if_neg hopen.1, join_of_within hpath hes.1]
        simp
      rw [hbeside] at hkey
      obtain rfl := key_inj hes.1.2 hslash (Or.inr rfl) hbelow hkey
      exact hes.2.1 hname'

end Proper

section Load

variable {X : Type} (fromstring : Str → Option X) (system : Agent)

-- What a row of the files adds to its entry.
def Item.load (item : Item X) (r : FileRow) : Item X :=
  { item with
    fileUUID := some r.file.uuid.string
    checksum := some r.file.checksum
    checksumtype := some (convertToPremisHashFunction r.file.checksumtype)
    premisObjects := item.premisObjects ++ (fileObjToPremis fromstring r.file).toList
    premisEvents := item.premisEvents ++ r.events.map (eventToPremis system)
    premisAgents := item.premisAgents ++ (extendQuerysetWithPreservationSystem system r.agents).map agentToPremis }

def loadedFiles (rows : List FileRow) (files : Dict Str (Item X)) : Dict Str (Item X) :=
  rows.foldl (fun files r => Dict.modify files (r.currentlocation.getD []) (·.load fromstring system r)) files

def placedDirectories (rows : List DirectoryRow) (dirs : Dict Str (List (List (Data Empty)))) :
    Dict Str (List (List (Data Empty))) :=
  rows.foldl (fun dirs d => Dict.modify dirs (d.currentlocation.getD []) (· ++ [dirObjToPremis d])) dirs

-- A row has a location, and the data of an object where there is a file for it.
def FileRow.Readable (present : Str → Prop) (r : FileRow) : Prop :=
  ∃ location, r.currentlocation = some location ∧
    (present location → (fileObjToPremis fromstring r.file).isSome)

theorem loadFile_eq_some_iff {item item' : Item X} {r : FileRow} :
    loadFile fromstring system item r = some item' ↔
      (fileObjToPremis fromstring r.file).isSome ∧ item.load fromstring system r = item' := by
  unfold loadFile
  cases hobject : fileObjToPremis fromstring r.file with
  | none => simp
  | some object => simp [Item.load, hobject]

section Rows

variable {r : FileRow} {rows : List FileRow} {files : Dict Str (Item X)} {location : Str}

theorem loadFileDataFromDB_of_none (h : r.currentlocation = none) :
    loadFileDataFromDB fromstring system (r :: rows) files = none := by
  rw [loadFileDataFromDB, List.foldlM_cons, h]
  rfl

theorem loadFileDataFromDB_of_absent (h : r.currentlocation = some location)
    (hget : Dict.get? files location = none) :
    loadFileDataFromDB fromstring system (r :: rows) files =
      loadFileDataFromDB fromstring system rows files := by
  rw [loadFileDataFromDB, List.foldlM_cons, h]
  simp only [Option.bind_eq_bind, Option.bind_some, hget, Option.pure_def]
  rfl

theorem loadFileDataFromDB_of_found {item : Item X} (h : r.currentlocation = some location)
    (hget : Dict.get? files location = some item) :
    loadFileDataFromDB fromstring system (r :: rows) files =
      (loadFile fromstring system item r).bind fun loaded =>
        loadFileDataFromDB fromstring system rows (Dict.set files location loaded) := by
  rw [loadFileDataFromDB, List.foldlM_cons, h]
  simp only [Option.bind_eq_bind, Option.bind_some, hget, Option.pure_def, Option.bind_assoc]
  rfl

end Rows

-- By induction on the rows: an entry that is in the index stays in it.
theorem loadFileDataFromDB_eq_some_iff {rows : List FileRow} {files files' : Dict Str (Item X)} :
    loadFileDataFromDB fromstring system rows files = some files' ↔
      (∀ r ∈ rows, r.Readable fromstring (· ∈ files.map Prod.fst)) ∧
        loadedFiles fromstring system rows files = files' := by
  induction rows generalizing files with
  | nil => simp [loadFileDataFromDB, loadedFiles]
  | cons r rows ih =>
      rw [List.forall_mem_cons, loadedFiles, List.foldl_cons, ← loadedFiles]
      cases hlocation : r.currentlocation with
      | none =>
          have hno : ¬ r.Readable fromstring (· ∈ files.map Prod.fst) := by
            rintro ⟨location, hsome, -⟩
            rw [hlocation] at hsome
            cases hsome
          rw [loadFileDataFromDB_of_none fromstring system hlocation]
          exact iff_of_false (by simp) fun h => hno h.1.1
      | some location =>
          have hread : r.Readable fromstring (· ∈ files.map Prod.fst) ↔
              (location ∈ files.map Prod.fst → (fileObjToPremis fromstring r.file).isSome) := by
            simp [FileRow.Readable, hlocation]
          rw [hread, Option.getD_some, Dict.modify]
          cases hget : Dict.get? files location with
          | none =>
              have hnot := Dict.get?_eq_none_iff.mp hget
              rw [loadFileDataFromDB_of_absent fromstring system hlocation hget, ih]
              simp only [hnot, false_implies, true_and]
          | some item =>
              have hmem : location ∈ files.map Prod.fst := List.mem_map.mpr ⟨_, Dict.mem_of_get? hget, rfl⟩
              have hkeys := Dict.keys_set_of_mem hmem (item.load fromstring system r)
              rw [loadFileDataFromDB_of_found fromstring system hlocation hget]
              simp only [hmem, true_implies]
              cases hload : loadFile fromstring system item r with
              | none =>
                  have hno : ¬ (fileObjToPremis fromstring r.file).isSome := by
                    intro hsome
                    have hloaded : loadFile fromstring system item r = some _ :=
                      (loadFile_eq_some_iff fromstring system).mpr ⟨hsome, rfl⟩
                    rw [hload] at hloaded
                    cases hloaded
                  simp [hno]
              | some loaded =>
                  obtain ⟨hsome, rfl⟩ := (loadFile_eq_some_iff fromstring system).mp hload
                  simp only [Option.bind_some, ih, hkeys, hsome, true_and]

theorem loadDirUUIDsFromDB_eq_some_iff {rows : List DirectoryRow} {dirs dirs' : Dict Str (List (List (Data Empty)))} :
    loadDirUUIDsFromDB rows dirs = some dirs' ↔
      (∀ d ∈ rows, d.currentlocation ≠ none) ∧ placedDirectories rows dirs = dirs' := by
  induction rows generalizing dirs with
  | nil => simp [loadDirUUIDsFromDB, placedDirectories]
  | cons d rows ih =>
      have hrows : loadDirUUIDsFromDB (d :: rows) dirs =
          (d.currentlocation.map fun location =>
            Dict.modify dirs location (· ++ [dirObjToPremis d])).bind (loadDirUUIDsFromDB rows) := by
        cases hlocation : d.currentlocation <;> simp [loadDirUUIDsFromDB, hlocation]
      rw [hrows, List.forall_mem_cons, placedDirectories, List.foldl_cons, ← placedDirectories]
      cases hlocation : d.currentlocation with
      | none => simp
      | some location => simp [ih]

variable (getCodeForCountry : Str → Option Str) (uuid4 : Str → ℕ → Str)

-- What the rows of a location say about the file there, the last one which file it is.
def Item.described (transferRights : List Statement) (fileRights : Option Str → List Statement) (dbPath : Str)
    (rows : List FileRow) : Option (Item X) :=
  rows.getLast?.map fun last =>
    { fileUUID := some last.file.uuid.string
      checksum := some last.file.checksum
      checksumtype := some (convertToPremisHashFunction last.file.checksumtype)
      premisObjects := rows.filterMap (fileObjToPremis fromstring ·.file)
      premisEvents := rows.flatMap fun r => r.events.map (eventToPremis system)
      premisAgents := rows.flatMap fun r => (extendQuerysetWithPreservationSystem system r.agents).map agentToPremis
      premisRights := (transferRights ++ fileRights (some last.file.uuid.string)).zipIdx.map fun rights =>
        rightsToPremis getCodeForCountry (uuid4 dbPath rights.2) last.file.uuid.string rights.1 }

theorem foldl_load (rows : List FileRow) :
    rows.foldl (Item.load fromstring system) (Item.new : Item X) =
      { fileUUID := rows.getLast?.map (·.file.uuid.string)
        checksum := rows.getLast?.map (·.file.checksum)
        checksumtype := rows.getLast?.map (convertToPremisHashFunction ·.file.checksumtype)
        premisObjects := rows.filterMap (fileObjToPremis fromstring ·.file)
        premisEvents := rows.flatMap fun r => r.events.map (eventToPremis system)
        premisAgents := rows.flatMap fun r => (extendQuerysetWithPreservationSystem system r.agents).map agentToPremis
        premisRights := [] } := by
  induction rows using List.reverseRecOn with
  | nil => rfl
  | append_singleton rows r ih =>
      rw [List.foldl_append, ih]
      cases hobject : fileObjToPremis fromstring r.file <;> simp [Item.load, hobject]

theorem foldl_addRights (dbPath : Str) (item : Item X) (rights : List Statement) :
    rights.foldl (addRights getCodeForCountry uuid4 dbPath) item =
      { item with
        premisRights := item.premisRights ++ (rights.zipIdx item.premisRights.length).map fun r =>
          rightsToPremis getCodeForCountry (uuid4 dbPath r.2) (item.fileUUID.getD strNone) r.1 } := by
  induction rights generalizing item with
  | nil => simp
  | cons r rights ih => simp [ih, addRights, List.zipIdx_cons]

theorem get?_loadRights (transferRights : List Statement) (fileRights : Option Str → List Statement)
    (files : Dict Str (Item X)) (k : Str) :
    Dict.get? (loadRightsDataFromDB getCodeForCountry uuid4 transferRights fileRights files) k =
      (Dict.get? files k).map fun item =>
        (transferRights ++ fileRights item.fileUUID).foldl (addRights getCodeForCountry uuid4 k) item := by
  have htransfer : Dict.get? (transferRights.foldl (fun files rights =>
      files.map fun e => (e.1, addRights getCodeForCountry uuid4 e.1 e.2 rights)) files) k =
        (Dict.get? files k).map fun item => transferRights.foldl (addRights getCodeForCountry uuid4 k) item := by
    induction transferRights generalizing files with
    | nil => simp
    | cons rights transferRights ih =>
        rw [List.foldl_cons, ih,
          Dict.get?_map (fun dbPath item => addRights getCodeForCountry uuid4 dbPath item rights), Option.map_map]
        rfl
  rw [loadRightsDataFromDB,
    Dict.get?_map (fun dbPath item => (fileRights item.fileUUID).foldl (addRights getCodeForCountry uuid4 dbPath) item),
    htransfer, Option.map_map]
  congr 1
  funext item
  have huuid : (transferRights.foldl (addRights getCodeForCountry uuid4 k) item).fileUUID = item.fileUUID := by
    rw [foldl_addRights]
  rw [Function.comp_apply, huuid, List.foldl_append]

end Load

section Scanned

variable {X : Type} (dbBasePath : Str) (fromstring : Str → Option X) (system : Agent)
  (getCodeForCountry : Str → Option Str) (uuid4 : Str → ℕ → Str)

-- The entries of the directory, from the first to the last by their names, without the
-- files that no row is about.
def Entries.described {α β : Type} (fileOf : Str → Option α) (dirOf : Str → β) (path : Str) :
    Entries → FSEntries α β
  | .nil => .nil
  | .file name rest =>
      match fileOf (dbBasePath ++ PosixPath.join path name) with
      | none => rest.described fileOf dirOf path
      | some data => .item (PosixPath.join path name) name data (rest.described fileOf dirOf path)
  | .directory name children rest =>
      .directory (PosixPath.join path name) name (dirOf (dbBasePath ++ PosixPath.join path name ++ ['/']))
        (children.described fileOf dirOf (PosixPath.join path name)) (rest.described fileOf dirOf path)

theorem map_without {α β : Type} {fileOf : Str → Option α} {dirOf : Str → β} {drop : Str → Bool} {f : Str → α}
    {g : Str → β} {es : Entries} {path : Str}
    (hitems : ∀ k ∈ (es.tree dbBasePath path).items, fileOf k = if drop k then none else some (f k))
    (hdirs : ∀ k ∈ (es.tree dbBasePath path).directories, dirOf k = g k) :
    ((es.tree dbBasePath path).without drop).map f g = es.described dbBasePath fileOf dirOf path := by
  induction es generalizing path with
  | nil => rfl
  | file name rest ih =>
      obtain ⟨hitem, hrest⟩ := List.forall_mem_cons.mp hitems
      rw [Entries.tree, FSEntries.without, Entries.described, hitem, ← ih hrest hdirs]
      cases hdrop : drop (dbBasePath ++ PosixPath.join path name) <;> simp [FSEntries.map]
  | directory name children rest ihc ihr =>
      obtain ⟨hchildren, hrest⟩ := List.forall_mem_append.mp hitems
      obtain ⟨hdir, hdirs⟩ := List.forall_mem_cons.mp hdirs
      obtain ⟨hbelow, hbeside⟩ := List.forall_mem_append.mp hdirs
      rw [Entries.tree, FSEntries.without, Entries.described, FSEntries.map, hdir, ihc hchildren hbelow,
        ihr hrest hbeside]

def Entries.Present (entries : Entries) (location : Str) : Prop :=
  location ∈ (entries.sorted.tree dbBasePath []).items

-- What the tree has of a file and of a directory.

def fileAt (db : Database) (files : List FileRow) (location : Str) : Option (Item X) :=
  Item.described fromstring system getCodeForCountry uuid4 db.transferRights db.fileRights location
    (files.filter (·.currentlocation = some location))

def directoryAt (directories : List DirectoryRow) (location : Str) : List (List (Data Empty)) :=
  (directories.filter (·.currentlocation = some location)).map dirObjToPremis

theorem filter_location {α : Type} {locationOf : α → Option Str} {rows : List α}
    (h : ∀ r ∈ rows, locationOf r ≠ none) (location : Str) :
    rows.filter (fun r => (locationOf r).getD [] = location) = rows.filter (fun r => locationOf r = some location) := by
  refine List.filter_congr fun r hr => ?_
  obtain ⟨found, hfound⟩ := Option.ne_none_iff_exists'.mp (h r hr)
  simp [hfound]

theorem foldl_dirs (rows : List DirectoryRow) (objects : List (List (Data Empty))) :
    rows.foldl (fun objects d => objects ++ [dirObjToPremis d]) objects = objects ++ rows.map dirObjToPremis := by
  induction rows generalizing objects with
  | nil => simp
  | cons d rows ih => simp [ih]

variable {dbBasePath fromstring system getCodeForCountry uuid4}

-- The item of a file after the rights are there.
theorem fileAt_eq {db : Database} {files : List FileRow} {location : Str} {item : Item X}
    (hitem : item = (files.filter (·.currentlocation = some location)).foldl (Item.load fromstring system) Item.new) :
    fileAt fromstring system getCodeForCountry uuid4 db files location =
      if item.fileUUID.isNone then none
      else some ((db.transferRights ++ db.fileRights item.fileUUID).foldl
        (addRights getCodeForCountry uuid4 location) item) := by
  rw [hitem, foldl_load, fileAt, Item.described]
  cases hlast : (files.filter (·.currentlocation = some location)).getLast? with
  | none => rfl
  | some last => simp [foldl_addRights, List.zipIdx_append]

-- The index after the tree is built: its entries are those of the items and directories.
structure Indexed (dbBasePath : Str) (entries : Entries) (index : Index X) : Prop where
  files : ∀ k, entries.Present dbBasePath k → Dict.get? index.files k = some Item.new
  present : ∀ k, k ∈ index.files.map Prod.fst ↔ entries.Present dbBasePath k
  nodup : (index.files.map Prod.fst).Nodup
  dirs : ∀ k ∈ (entries.sorted.tree dbBasePath []).directories, Dict.get? index.dirs k = some []

theorem nodup_files_buildTree (es : Entries) (path : Str) {index : Index X}
    (h : (index.files.map Prod.fst).Nodup) :
    ((buildTree dbBasePath path es index).2.files.map Prod.fst).Nodup := by
  induction es generalizing path index with
  | nil => exact h
  | file name rest ih => exact ih path (Dict.keys_set_nodup h _ _)
  | directory name children rest ihc ihr => exact ihr path (ihc _ h)

theorem indexed_buildTree (entries : Entries) :
    Indexed dbBasePath entries (buildTree dbBasePath [] entries.sorted (⟨[], []⟩ : Index X)).2 where
  files k hk := (get?_files_buildTree entries.sorted [] _ k).trans (if_pos hk)
  present k := by
    rw [← not_iff_not, ← Dict.get?_eq_none_iff, get?_files_buildTree, Entries.Present]
    split_ifs with hmem
    · simp [hmem]
    · simp [hmem]
  nodup := nodup_files_buildTree _ _ List.nodup_nil
  dirs k hk := by rw [get?_dirs_buildTree, if_pos hk]

variable (fromstring system) in
def itemAt (rows : List FileRow) (location : Str) : Item X :=
  (rows.filter (·.currentlocation = some location)).foldl (Item.load fromstring system) Item.new

theorem get?_loaded {db : Database} {rows : List FileRow} (hrows : ∀ r ∈ rows, r.currentlocation ≠ none)
    {entries : Entries} {index : Index X} (hindex : Indexed dbBasePath entries index) {k : Str}
    (hk : entries.Present dbBasePath k) :
    Dict.get? (loadRightsDataFromDB getCodeForCountry uuid4 db.transferRights db.fileRights
      (loadedFiles fromstring system rows index.files)) k =
        some ((db.transferRights ++ db.fileRights (itemAt fromstring system rows k).fileUUID).foldl
          (addRights getCodeForCountry uuid4 k) (itemAt fromstring system rows k)) := by
  rw [get?_loadRights, loadedFiles, Dict.get?_foldl_modify (fun r : FileRow => r.currentlocation.getD []),
    hindex.files k hk, filter_location hrows k]
  rfl

theorem nodup_loadRights {transferRights : List Statement} {fileRights : Option Str → List Statement}
    {files : Dict Str (Item X)} (h : (files.map Prod.fst).Nodup) :
    ((loadRightsDataFromDB getCodeForCountry uuid4 transferRights fileRights files).map Prod.fst).Nodup := by
  have hkeys : (transferRights.foldl (fun files rights =>
      files.map fun e => (e.1, addRights getCodeForCountry uuid4 e.1 e.2 rights)) files).map Prod.fst =
        files.map Prod.fst := by
    clear h
    induction transferRights generalizing files with
    | nil => rfl
    | cons rights transferRights ih =>
        rw [List.foldl_cons, ih, List.map_map]
        rfl
  rw [loadRightsDataFromDB, List.map_map]
  exact (congrArg List.Nodup hkeys).mpr h

-- An entry is missing where no row was found for it.
theorem mem_missing_iff {db : Database} {rows : List FileRow} (hrows : ∀ r ∈ rows, r.currentlocation ≠ none)
    {entries : Entries} {index : Index X} (hindex : Indexed dbBasePath entries index) {k : Str}
    (hk : entries.Present dbBasePath k) :
    k ∈ ((loadRightsDataFromDB getCodeForCountry uuid4 db.transferRights db.fileRights
      (loadedFiles fromstring system rows index.files)).filter fun e => e.2.fileUUID.isNone).map Prod.fst ↔
        (itemAt fromstring system rows k).fileUUID.isNone = true := by
  have hget : Dict.get? (loadRightsDataFromDB getCodeForCountry uuid4 db.transferRights db.fileRights
      (loadedFiles fromstring system rows index.files)) k = _ := get?_loaded hrows hindex hk
  have hnodup : ((loadRightsDataFromDB getCodeForCountry uuid4 db.transferRights db.fileRights
      (loadedFiles fromstring system rows index.files)).map Prod.fst).Nodup := by
    refine nodup_loadRights ?_
    rw [loadedFiles, Dict.keys_foldl_modify]
    exact hindex.nodup
  generalize loadRightsDataFromDB getCodeForCountry uuid4 db.transferRights db.fileRights
    (loadedFiles fromstring system rows index.files) = loaded at hget hnodup
  have huuid : ∀ rights : List Statement, (rights.foldl (addRights getCodeForCountry uuid4 k)
      (itemAt fromstring system rows k)).fileUUID = (itemAt fromstring system rows k).fileUUID := by
    intro rights
    rw [foldl_addRights]
  constructor
  · intro hmem
    obtain ⟨⟨k', item⟩, hitem, hkey⟩ := List.mem_map.mp hmem
    obtain ⟨hitem, hnone⟩ := List.mem_filter.mp hitem
    obtain rfl : k' = k := hkey
    rw [← Option.some.inj (hget.symm.trans ((Dict.get?_eq_some_iff hnodup).mpr hitem)), huuid] at hnone
    exact hnone
  · intro hnone
    refine List.mem_map.mpr ⟨(k, _), List.mem_filter.mpr ⟨(Dict.get?_eq_some_iff hnodup).mp hget, ?_⟩, rfl⟩
    rwa [huuid]

-- The tree that is left, where all rows could be read.
theorem checked_eq {db : Database} {files : List FileRow} (hfiles : ∀ r ∈ files, r.currentlocation ≠ none)
    {directories : List DirectoryRow} (hdirectories : ∀ d ∈ directories, d.currentlocation ≠ none)
    {entries : Entries} (hproper : entries.Proper) {index : Index X} (hindex : Indexed dbBasePath entries index) :
    (checkForMissingFileUUIDs (loadRightsDataFromDB getCodeForCountry uuid4 db.transferRights db.fileRights
      (loadedFiles fromstring system files index.files)) (entries.sorted.tree dbBasePath [])).map
        (fun key => (Dict.get? (loadRightsDataFromDB getCodeForCountry uuid4 db.transferRights db.fileRights
          (loadedFiles fromstring system files index.files)) key).getD Item.new)
        (fun key => (Dict.get? (placedDirectories directories index.dirs) key).getD []) =
      entries.sorted.described dbBasePath (fileAt fromstring system getCodeForCountry uuid4 db files)
        (directoryAt directories) [] := by
  rw [checkForMissingFileUUIDs,
    FSEntries.foldl_removeChild (nodup_items_tree (Entries.sorted_of_proper hproper).1 (Or.inl rfl))]
  refine map_without dbBasePath (fun k hk => ?_) (fun k hk => ?_)
  · rw [fileAt_eq (rfl : itemAt fromstring system files k = _), get?_loaded hfiles hindex hk, Option.getD_some]
    simp only [mem_missing_iff hfiles hindex hk, decide_eq_true_eq]
  · rw [placedDirectories, Dict.get?_foldl_modify (fun d : DirectoryRow => d.currentlocation.getD []),
      hindex.dirs k hk, filter_location hdirectories k, Option.map_some, Option.getD_some, foldl_dirs]
    rfl

theorem scan_of_rows {db : Database} {entries : Entries} (hproper : entries.Proper)
    {t : FSEntries (Item X) (List (List (Data Empty)))} :
    scan dbBasePath fromstring system getCodeForCountry uuid4 db entries = some t ↔
      (∀ r ∈ batchQuery db.files, r.Readable fromstring (entries.Present dbBasePath)) ∧
        (∀ d ∈ batchQuery db.directories, d.currentlocation ≠ none) ∧
          entries.sorted.described dbBasePath
            (fileAt fromstring system getCodeForCountry uuid4 db (batchQuery db.files))
            (directoryAt (batchQuery db.directories)) [] = t := by
  have htree := buildTree_tree dbBasePath entries.sorted [] (⟨[], []⟩ : Index X)
  have hindex : Indexed dbBasePath entries (buildTree dbBasePath [] entries.sorted (⟨[], []⟩ : Index X)).2 :=
    indexed_buildTree entries
  unfold scan
  generalize buildTree dbBasePath [] entries.sorted (⟨[], []⟩ : Index X) = built at htree hindex
  obtain ⟨rootNode, index⟩ := built
  obtain rfl : rootNode = entries.sorted.tree dbBasePath [] := htree
  have hpresent : (· ∈ index.files.map Prod.fst) = entries.Present dbBasePath :=
    funext fun k => propext (hindex.present k)
  have hlocated : (∀ r ∈ batchQuery db.files, r.Readable fromstring (entries.Present dbBasePath)) →
      ∀ r ∈ batchQuery db.files, r.currentlocation ≠ none := by
    intro hread r hr
    obtain ⟨location, hlocation, -⟩ := hread r hr
    exact hlocation ▸ Option.some_ne_none location
  simp only [Option.bind_eq_bind, Option.bind_eq_some_iff, loadFileDataFromDB_eq_some_iff,
    loadDirUUIDsFromDB_eq_some_iff, Option.pure_def, hpresent, Option.some.injEq]
  constructor
  · rintro ⟨files, ⟨hread, rfl⟩, dirs, ⟨hplaced, rfl⟩, rfl⟩
    exact ⟨hread, hplaced, (checked_eq (hlocated hread) hplaced hproper hindex).symm⟩
  · rintro ⟨hread, hplaced, rfl⟩
    exact ⟨_, ⟨hread, rfl⟩, _, ⟨hplaced, rfl⟩, checked_eq (hlocated hread) hplaced hproper hindex⟩

-- The tree has the entries of the directory in the order of their names, each file with
-- what the rows of the batches and their rights say, and each directory with its own rows; it
-- is without the files that no row is about. The batches are all the rows, each once, where no
-- row is in two of them.
theorem scan_eq_some_iff {db : Database} {entries : Entries} (hproper : entries.Proper) :
    (∀ t : FSEntries (Item X) (List (List (Data Empty))),
      scan dbBasePath fromstring system getCodeForCountry uuid4 db entries = some t ↔
        (∀ r ∈ batchQuery db.files, r.Readable fromstring (entries.Present dbBasePath)) ∧
          (∀ d ∈ batchQuery db.directories, d.currentlocation ≠ none) ∧
            entries.sorted.described dbBasePath
              (fileAt fromstring system getCodeForCountry uuid4 db (batchQuery db.files))
              (directoryAt (batchQuery db.directories)) [] = t) ∧
    (db.files.rows.Nodup →
      ((batchQuery db.files).Perm db.files.rows ↔ Paging.Apart queryBatchSize db.files.order)) ∧
    (db.directories.rows.Nodup →
      ((batchQuery db.directories).Perm db.directories.rows ↔
        Paging.Apart queryBatchSize db.directories.order)) :=
  ⟨fun _ => scan_of_rows hproper, batchQuery_perm_iff, batchQuery_perm_iff⟩

-- A transfer of a file in its objects and of one beside them that no row is about; of the
-- two rows, one is about a file that is not there.

def reportRow : FileRow where
  file := ⟨⟨0x6⟩, "%transferDirectory%objects/report.txt".toList, "d41d8cd9".toList, "md5".toList, some 0,
    some "2024-01-01T00:00:00Z".toList, [], [], [], [], []⟩
  currentlocation := some "%transferDirectory%objects/report.txt".toList
  events := []
  agents := []

def goneRow (location : Str) : FileRow :=
  { reportRow with currentlocation := some ("%transferDirectory%objects/gone".toList ++ location) }

def objectsRow : DirectoryRow :=
  ⟨⟨0x7⟩, "%transferDirectory%objects/".toList, some "%transferDirectory%objects/".toList, []⟩

def transferEntries : Entries :=
  .directory "objects".toList (.file "report.txt".toList .nil) (.file "Thumbs.db".toList .nil)

def databaseOf (rows : List FileRow) : Database where
  files := ⟨rows, fun _ => rows, fun _ => List.Perm.refl _⟩
  transferRights := []
  fileRights _ := []
  directories := ⟨[objectsRow], fun _ => [objectsRow], fun _ => List.Perm.refl _⟩

def archivematica : Agent :=
  ⟨some "preservation system".toList, some "Archivematica-1.17".toList, some "Archivematica".toList,
    "software".toList⟩

theorem proper_transferEntries : transferEntries.Proper :=
  ⟨⟨by decide, by decide⟩, by decide, ⟨⟨by decide, by decide⟩, by decide, trivial⟩, ⟨by decide, by decide⟩,
    by decide, trivial⟩

-- More rows than a batch has.
def manyRows : List FileRow := (List.range 4001).map fun n => goneRow (List.replicate n 'e')

theorem nodup_manyRows : manyRows.Nodup := by
  refine List.Nodup.map (fun m n h => ?_) List.nodup_range
  have hlocation := List.append_cancel_left (Option.some.inj (congrArg FileRow.currentlocation h))
  simpa using congrArg List.length hlocation

set_option maxRecDepth 8000 in
theorem scan_eq_some_iff_transfer :
    (∃ t : FSEntries (Item Empty) (List (List (Data Empty))),
      scan "%transferDirectory%".toList (fun _ => none) archivematica (fun _ => none) (fun _ _ => [])
        (databaseOf [reportRow, goneRow []]) transferEntries = some t ∧
          t.items.map Item.fileUUID = [some reportRow.file.uuid.string] ∧
            t.directories.map List.length = [1]) ∧
      (batchQuery (databaseOf manyRows).files).Perm manyRows := by
  constructor
  · have hscan := (@scan_eq_some_iff Empty "%transferDirectory%".toList (fun _ => none) archivematica
      (fun _ => none) (fun _ _ => []) (databaseOf [reportRow, goneRow []]) _ proper_transferEntries).1
    have hrows : batchQuery (databaseOf [reportRow, goneRow []]).files = [reportRow, goneRow []] := rfl
    have hdirectories : batchQuery (databaseOf [reportRow, goneRow []]).directories = [objectsRow] := rfl
    rw [hrows, hdirectories] at hscan
    refine ⟨_, (hscan _).mpr ⟨?_, ?_, rfl⟩, by decide, by decide⟩
    · intro r hr
      rcases List.mem_pair.mp hr with rfl | rfl
      · exact ⟨_, rfl, fun _ => rfl⟩
      · exact ⟨_, rfl, fun _ => rfl⟩
    · intro d hd
      obtain rfl := List.mem_singleton.mp hd
      exact Option.some_ne_none _
  · exact ((@scan_eq_some_iff Empty [] (fun _ => none) archivematica (fun _ => none) (fun _ _ => [])
      (databaseOf manyRows) _ proper_transferEntries).2.1 nodup_manyRows).mpr
        (Paging.apart_const nodup_manyRows)

end Scanned

end Ccp.Worker.TransferMets
