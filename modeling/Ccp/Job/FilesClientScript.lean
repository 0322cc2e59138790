import Ccp.Package.Files
import Ccp.TaskBackend

namespace Ccp

open Lib Workflow

namespace FilesClientScript

-- The order of each range loop over a mapping, the same in all runs that are compared.
abbrev RangeOrders := ReplacementMapping → List (Σ _ : Str, Str)

-- What is submitted for a file, with the mapping that the loop has by then.
def request (order : RangeOrders) (config : LinkStandardTaskConfig) (rm : ReplacementMapping) :
    TaskBackend.Request where
  rm := rm
  args := ReplacementMapping.replaceValues (order rm) config.arguments
  wantsOutput := false
  stdoutFilePath := ReplacementMapping.replaceValues (order rm) config.stdoutFile
  stderrFilePath := ReplacementMapping.replaceValues (order rm) config.stderrFile

-- The loop of submitTasks: the mapping of a file is put over that of all files before it.
def submitTasks (order : RangeOrders) (config : LinkStandardTaskConfig) (rm : ReplacementMapping) :
    List ReplacementMapping → List TaskBackend.Request
  | [] => []
  | fileReplacements :: files =>
      let rm := rm.withInput fileReplacements
      request order config rm :: submitTasks order config rm files

-- A list of mappings that Files gives for the package.
def Given (cwd : Str) (p : Package) (files : List ReplacementMapping) : Prop :=
  ∃ stat root filterFilenameEnd filterSubdir answer,
    p.files cwd stat root filterFilenameEnd filterSubdir answer = .ok files

-- The mapping of a file that the store has.
def HasRow (mapping : ReplacementMapping) : Prop := "%inputFile%".toList ∈ mapping

instance (mapping : ReplacementMapping) : Decidable (HasRow mapping) :=
  inferInstanceAs (Decidable (_ ∈ mapping))

-- What a file takes over from the files before it: the mapping of the last one that has a row.
def carried (rm : ReplacementMapping) (before : List ReplacementMapping) : ReplacementMapping :=
  match (before.filter fun mapping => HasRow mapping).getLast? with
  | none => rm
  | some mapping => rm.withInput mapping

def foundKeys : List Str := ["%relativeLocation".toList, "%fileUUID%".toList, "%fileGrpUse%".toList]

section Mappings

variable {rm m m' : ReplacementMapping}

theorem mem_update {context : List (Str × Str)} {key : Str} :
    key ∈ rm.update context ↔ key ∈ context.map Prod.fst ∨ key ∈ rm := by
  rw [ReplacementMapping.update]
  induction context generalizing rm with
  | nil => simp
  | cons el context ih =>
      rw [List.foldl_cons, ih, Finmap.mem_insert, List.map_cons, List.mem_cons]
      tauto

-- What is put over a mapping counts for its own keys.
theorem lookup_withInput (rm m : ReplacementMapping) (key : Str) :
    (rm.withInput m).lookup key = if key ∈ m then m.lookup key else rm.lookup key := by
  rw [ReplacementMapping.withInput]
  split_ifs with hkey
  · exact Finmap.lookup_union_left hkey
  · exact Finmap.lookup_union_right hkey

theorem withInput_withInput (h : ∀ key, key ∈ m → key ∈ m') :
    (rm.withInput m).withInput m' = rm.withInput m' := by
  apply Finmap.ext_lookup
  intro key
  rw [lookup_withInput, lookup_withInput, lookup_withInput]
  split_ifs with hkey' hkey
  · rfl
  · exact absurd (h key hkey) hkey'
  · rfl

theorem withInput_eq_iff {rm' : ReplacementMapping} :
    rm.withInput m = rm'.withInput m ↔ ∀ key, key ∉ m → rm.lookup key = rm'.lookup key := by
  constructor
  · intro h key hkey
    have hlookup := congrArg (Finmap.lookup key) h
    rwa [lookup_withInput, lookup_withInput, if_neg hkey, if_neg hkey] at hlookup
  · intro h
    apply Finmap.ext_lookup
    intro key
    rw [lookup_withInput, lookup_withInput]
    split_ifs with hkey
    · rfl
    · exact h key hkey

theorem mem_fileReplacements {cwd : Option Str} {p : Package} {f f' : StoreFile} {key : Str} :
    key ∈ fileReplacements cwd p f ↔ key ∈ fileReplacements cwd p f' := by
  simp only [fileReplacements, mem_update, List.map_cons, List.map_nil]

theorem mem_foundReplacements {path key : Str} :
    key ∈ Package.foundReplacements path ↔ key ∈ foundKeys := by
  rw [Package.foundReplacements, mem_update]
  exact or_iff_left Finmap.notMem_empty

theorem hasRow_fileReplacements (cwd : Option Str) (p : Package) (f : StoreFile) :
    HasRow (fileReplacements cwd p f) := by
  rw [HasRow, fileReplacements, mem_update]
  left
  simp

theorem not_hasRow_foundReplacements (path : Str) : ¬ HasRow (Package.foundReplacements path) := by
  rw [HasRow, mem_foundReplacements]
  decide

end Mappings

section Loop

variable {order : RangeOrders} {config : LinkStandardTaskConfig} {cwd : Option Str} {p : Package}

-- The mapping that the loop has after some files.
def accumulated (rm : ReplacementMapping) (before : List ReplacementMapping) : ReplacementMapping :=
  before.foldl ReplacementMapping.withInput rm

theorem getElem?_submitTasks (rm : ReplacementMapping) (files : List ReplacementMapping) (i : ℕ) :
    (submitTasks order config rm files)[i]? = files[i]?.map fun mapping =>
      request order config ((accumulated rm (files.take i)).withInput mapping) := by
  induction files generalizing rm i with
  | nil => rfl
  | cons mapping files ih =>
      cases i with
      | zero => rfl
      | succ i =>
          rw [submitTasks, List.getElem?_cons_succ, ih, List.getElem?_cons_succ, List.take_succ_cons,
            accumulated, accumulated, List.foldl_cons]

theorem request_injective {rm rm' : ReplacementMapping}
    (h : request order config rm = request order config rm') : rm = rm' :=
  congrArg TaskBackend.Request.rm h

-- The mappings of rows have the same keys: the last one of them is all that is left.
theorem accumulated_rows (rm : ReplacementMapping) (rows : List StoreFile) (f : StoreFile) :
    (accumulated rm (rows.map (fileReplacements cwd p))).withInput (fileReplacements cwd p f) =
      rm.withInput (fileReplacements cwd p f) := by
  induction rows generalizing rm with
  | nil => rfl
  | cons f' rows ih =>
      change (accumulated (rm.withInput (fileReplacements cwd p f'))
        (rows.map (fileReplacements cwd p))).withInput (fileReplacements cwd p f) = _
      rw [ih]
      exact withInput_withInput fun key hkey => mem_fileReplacements.mp hkey

theorem accumulated_found (rm : ReplacementMapping) (paths : List Str) (path : Str) :
    (accumulated rm (paths.map Package.foundReplacements)).withInput (Package.foundReplacements path) =
      rm.withInput (Package.foundReplacements path) := by
  induction paths generalizing rm with
  | nil => rfl
  | cons path' paths ih =>
      change (accumulated (rm.withInput (Package.foundReplacements path'))
        (paths.map Package.foundReplacements)).withInput (Package.foundReplacements path) = _
      rw [ih]
      exact withInput_withInput fun key hkey =>
        mem_foundReplacements.mpr (mem_foundReplacements.mp hkey)

variable (cwd p) in
theorem filter_hasRow (rows : List StoreFile) (paths : List Str) :
    (rows.map (fileReplacements cwd p) ++ paths.map Package.foundReplacements).filter
      (fun mapping => HasRow mapping) = rows.map (fileReplacements cwd p) := by
  have hrows : (rows.map (fileReplacements cwd p)).filter (fun mapping => HasRow mapping) =
      rows.map (fileReplacements cwd p) := by
    apply List.filter_eq_self.mpr
    intro mapping hmapping
    obtain ⟨f, -, rfl⟩ := List.mem_map.mp hmapping
    exact decide_eq_true (hasRow_fileReplacements cwd p f)
  have hfound : (paths.map Package.foundReplacements).filter (fun mapping => HasRow mapping) = [] := by
    apply List.filter_eq_nil_iff.mpr
    intro mapping hmapping
    obtain ⟨path, -, rfl⟩ := List.mem_map.mp hmapping
    simpa using not_hasRow_foundReplacements path
  rw [List.filter_append, hrows, hfound, List.append_nil]

theorem accumulated_eq_carried (rm : ReplacementMapping) (rows : List StoreFile) :
    accumulated rm (rows.map (fileReplacements cwd p)) =
      carried rm (rows.map (fileReplacements cwd p)) := by
  have hfilter := filter_hasRow cwd p rows []
  rw [List.map_nil, List.append_nil] at hfilter
  rw [carried, hfilter]
  cases List.eq_nil_or_concat rows with
  | inl hnil =>
      rw [hnil]
      rfl
  | inr hconcat =>
      obtain ⟨front, f, rfl⟩ := hconcat
      rw [List.concat_eq_append, List.map_append, List.map_singleton, List.getLast?_concat,
        accumulated, List.foldl_append]
      exact accumulated_rows rm front f

-- The files with a row come first, so that a file is met after files of its kind, or after
-- all that have a row.
theorem take_of_getElem? {rows : List StoreFile} {paths : List Str} {i : ℕ} {m : ReplacementMapping}
    (h : (rows.map (fileReplacements cwd p) ++ paths.map Package.foundReplacements)[i]? = some m) :
    (∃ (rows' : List StoreFile) (f : StoreFile),
      (rows.map (fileReplacements cwd p) ++ paths.map Package.foundReplacements).take i =
        rows'.map (fileReplacements cwd p) ∧ m = fileReplacements cwd p f) ∨
      ∃ (paths' : List Str) (path : Str),
        (rows.map (fileReplacements cwd p) ++ paths.map Package.foundReplacements).take i =
        rows.map (fileReplacements cwd p) ++ paths'.map Package.foundReplacements ∧
          m = Package.foundReplacements path := by
  by_cases hi : i < (rows.map (fileReplacements cwd p)).length
  · left
    rw [List.getElem?_append_left hi, List.getElem?_map] at h
    obtain ⟨f, -, rfl⟩ := Option.map_eq_some_iff.mp h
    exact ⟨rows.take i, f, by rw [List.take_append_of_le_length hi.le, List.map_take], rfl⟩
  · right
    have hle := Nat.le_of_not_lt hi
    rw [List.getElem?_append_right hle, List.getElem?_map] at h
    obtain ⟨path, -, rfl⟩ := Option.map_eq_some_iff.mp h
    refine ⟨paths.take (i - (rows.map (fileReplacements cwd p)).length), path, ?_, rfl⟩
    rw [List.take_append, List.take_of_length_le hle, List.map_take]

-- What the loop has for a file with a row is its own, for another one what it takes over.
theorem withInput_accumulated {rows : List StoreFile} {paths : List Str} {i : ℕ}
    {m : ReplacementMapping}
    (h : (rows.map (fileReplacements cwd p) ++ paths.map Package.foundReplacements)[i]? = some m)
    (rm : ReplacementMapping) :
    HasRow m ∧ (accumulated rm ((rows.map (fileReplacements cwd p) ++
        paths.map Package.foundReplacements).take i)).withInput m = rm.withInput m ∨
      ¬ HasRow m ∧ (∀ key, key ∈ m ↔ key ∈ foundKeys) ∧
        (accumulated rm ((rows.map (fileReplacements cwd p) ++
          paths.map Package.foundReplacements).take i)).withInput m =
        (carried rm ((rows.map (fileReplacements cwd p) ++
          paths.map Package.foundReplacements).take i)).withInput m := by
  rcases take_of_getElem? h with ⟨rows', f, htake, rfl⟩ | ⟨paths', path, htake, rfl⟩
  · left
    refine ⟨hasRow_fileReplacements cwd p f, ?_⟩
    rw [htake]
    exact accumulated_rows rm rows' f
  · right
    refine ⟨not_hasRow_foundReplacements path, fun key => mem_foundReplacements, ?_⟩
    have hcarried : carried rm (rows.map (fileReplacements cwd p) ++
        paths'.map Package.foundReplacements) = accumulated rm (rows.map (fileReplacements cwd p)) := by
      rw [accumulated_eq_carried, carried, carried, filter_hasRow]
      have hfilter := filter_hasRow cwd p rows []
      rw [List.map_nil, List.append_nil] at hfilter
      rw [hfilter]
    rw [htake, hcarried, accumulated, List.foldl_append]
    exact accumulated_found _ paths' path

-- Files gives the files with a row first, then those that are only on the disk.
theorem eq_append_of_given {cwd : Str} {files : List ReplacementMapping} (h : Given cwd p files) :
    ∃ (rows : List StoreFile) (paths : List Str),
      files = rows.map (fileReplacements (some cwd) p) ++ paths.map Package.foundReplacements := by
  obtain ⟨stat, root, filterFilenameEnd, filterSubdir, answer, hfiles⟩ := h
  obtain ⟨found, visits, -, -, hret⟩ := Package.files_eq_ok hfiles
  refine ⟨p.onDisk stat found, (visits.filter fun v => Package.passes filterFilenameEnd v &&
    !((p.onDisk stat found).map p.inputFile).contains v.path).map WalkDir.Visit.path, ?_⟩
  rw [hret, List.map_map]
  rfl

-- Two lists with the same mapping at one place: its task is the same exactly where the
-- file has a row or the two runs bring the same values to it.
theorem submitTasks_eq_iff {cwd : Str} {rm m : ReplacementMapping}
    {files files' : List ReplacementMapping} {i : ℕ} (hfiles : Given cwd p files)
    (hfiles' : Given cwd p files') (hi : files[i]? = some m) (hi' : files'[i]? = some m) :
    (submitTasks order config rm files)[i]? = (submitTasks order config rm files')[i]? ↔
      HasRow m ∨ ∀ key, key ∉ foundKeys →
        (carried rm (files.take i)).lookup key = (carried rm (files'.take i)).lookup key := by
  obtain ⟨rows, paths, rfl⟩ := eq_append_of_given hfiles
  obtain ⟨rows', paths', rfl⟩ := eq_append_of_given hfiles'
  rw [getElem?_submitTasks, getElem?_submitTasks, hi, hi', Option.map_some, Option.map_some,
    Option.some_inj]
  rcases withInput_accumulated hi rm with ⟨hrow, hown⟩ | ⟨hrow, hkeys, hcarried⟩
  · rcases withInput_accumulated hi' rm with ⟨-, hown'⟩ | ⟨hrow', -, -⟩
    · rw [hown, hown']
      exact iff_of_true rfl (Or.inl hrow)
    · exact absurd hrow hrow'
  · rcases withInput_accumulated hi' rm with ⟨hrow', -⟩ | ⟨-, -, hcarried'⟩
    · exact absurd hrow' hrow
    · rw [hcarried, hcarried', or_iff_right hrow]
      constructor
      · intro h key hkey
        exact withInput_eq_iff.mp (request_injective h) key fun hmem => hkey ((hkeys key).mp hmem)
      · intro h
        exact congrArg (request order config) (withInput_eq_iff.mpr fun key hkey =>
          h key fun hmem => hkey ((hkeys key).mpr hmem))

end Loop

-- A transfer with two files on the disk, of which the store has one or none.
namespace Twin

open Package.Leaf

def root : WalkDir.Root := .dir none (.file "a".toList true (.file "b".toList true .nil))

def config : LinkStandardTaskConfig where
  arguments := "%currentLocation%".toList
  execute := "identifyFileFormat_v0.0".toList
  filterFileEnd := []
  filterSubdir := []
  stderrFile := []
  stdoutFile := []

def first : ReplacementMapping := fileReplacements (some []) transfer stored

def found (name : Str) : ReplacementMapping := Package.foundReplacements ("/s/t/".toList ++ name)

theorem given_stored : Given [] transfer [first, found "b".toList] := by
  refine ⟨stat, root, [], [], .ok [stored], ?_⟩
  rw [Package.files_ok rfl]
  decide +kernel

theorem given_alone : Given [] transfer [first] := by
  refine ⟨stat, Package.Leaf.root, [], [], .ok [stored], ?_⟩
  decide +kernel

theorem given_found : Given [] transfer [found "a".toList, found "b".toList] := by
  refine ⟨stat, root, [], [], .ok [], ?_⟩
  decide +kernel

theorem submitTasks_eq_iff_first :
    (submitTasks (fun rm => rm.entries.toList) config ∅ [first, found "b".toList])[0]? =
      (submitTasks (fun rm => rm.entries.toList) config ∅ [first])[0]? :=
  (submitTasks_eq_iff given_stored given_alone rfl rfl).mpr
    (Or.inl (hasRow_fileReplacements _ _ _))

-- The second file is the same one in both runs. The location of the first comes with it
-- in the run in which the first has a row.
theorem location_taken_over :
    ¬ ∀ (order : RangeOrders) (config : LinkStandardTaskConfig) (cwd : Str) (p : Package)
      (rm m : ReplacementMapping) (files files' : List ReplacementMapping) (i : ℕ),
      (∀ rm, GoMap.RangeOrder rm (order rm)) → Given cwd p files → Given cwd p files' →
      files[i]? = some m → files'[i]? = some m →
      (submitTasks order config rm files)[i]? = (submitTasks order config rm files')[i]? := by
  intro h
  have htask := h (fun rm => rm.entries.toList) config [] transfer ∅ (found "b".toList)
    [first, found "b".toList] [found "a".toList, found "b".toList] 1
    (fun rm => Multiset.coe_toList rm.entries) given_stored given_found rfl rfl
  rw [getElem?_submitTasks, getElem?_submitTasks] at htask
  have hlocation := congrArg (Finmap.lookup "%currentLocation%".toList)
    (request_injective (Option.some.inj htask))
  revert hlocation
  decide +kernel

end Twin

end FilesClientScript

end Ccp
