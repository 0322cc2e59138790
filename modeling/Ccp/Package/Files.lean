import Ccp.Lib.WalkDir
import Ccp.Store.Files

namespace Ccp

open Lib

namespace Package

def replacementPath (p : Package) : Str :=
  match p.unit with
  | .transfer _ => "%transferDirectory%".toList
  | .sip _ _ => "%SIPDirectory%".toList
  | .dip => "%SIPDirectory%".toList

-- The path of a file that the store has, with the package's own path for its variable.
def inputFile (p : Package) (f : StoreFile) : Str :=
  replaceAll (replaceAll f.currentLocation "%SIPDirectory%".toList (joinPath [p.realPath, []]))
    "%transferDirectory%".toList (joinPath [p.realPath, []])

-- The mapping of a file that is only on the disk. Its first key has no percent sign at the end.
def foundReplacements (path : Str) : ReplacementMapping :=
  ReplacementMapping.update ∅ [
    ("%relativeLocation".toList, path),
    ("%fileUUID%".toList, "None".toList),
    ("%fileGrpUse%".toList, [])]

-- A file as the walk of Files tests its name.
def passes (filterFilenameEnd : Str) (v : WalkDir.Visit) : Bool :=
  filterFilenameEnd.isEmpty || filterFilenameEnd.isPrefixOf v.name

-- The query that Files makes.
def query (p : Package) (filterFilenameEnd filterSubdir : Str) : Files.Query where
  id := p.id
  packageType := p.packageType
  filterFilenameEnd := filterFilenameEnd
  filterSubdir := filterSubdir
  replacementPath := p.replacementPath

section Files

-- The working directory, the paths of which os.Stat does not say that nothing is there, and
-- what is under the path of the walk.
variable (cwd : Str) (stat : Str → Bool) (root : WalkDir.Root)

-- Files, with the answer of the store.
def files (p : Package) (filterFilenameEnd filterSubdir : Str)
    (answer : Except String (List StoreFile)) : Except String (List ReplacementMapping) :=
  match answer with
  | .error err => .error err
  | .ok found =>
      let kept := (found.map (fileReplacements (some cwd) p)).filter fun mapping =>
        match mapping.lookup "%inputFile%".toList with
        | none => false
        | some inputFile => stat inputFile
      let seen := kept.filterMap (·.lookup "%inputFile%".toList)
      match root.visits (p.realPath ++ filterSubdir) with
      | .error err => .error ("walk dir: " ++ err)
      | .ok visits =>
          .ok (kept ++ (visits.filter fun v => passes filterFilenameEnd v && !seen.contains v.path).map
            fun v => foundReplacements v.path)

end Files

section Mappings

variable {cwd : Option Str} {p : Package} {f : StoreFile}

theorem lookup_fileReplacements {key v : Str}
    (h : (key, v) ∈ [("%fileUUID%".toList, f.id.string), ("%relativeLocation%".toList, p.inputFile f),
      ("%inputFile%".toList, p.inputFile f)]) :
    (fileReplacements cwd p f).lookup key = some v := by
  refine ReplacementMapping.lookup_update ?_ _ ?_
  · simp only [List.map_cons, List.map_nil]
    decide
  · simp only [List.mem_cons, List.not_mem_nil, or_false, Prod.mk.injEq] at h ⊢
    rcases h with ⟨rfl, rfl⟩ | ⟨rfl, rfl⟩ | ⟨rfl, rfl⟩
    · exact Or.inl ⟨rfl, rfl⟩
    · simp [inputFile]
    · simp [inputFile]

theorem lookup_foundReplacements (path : Str) :
    (foundReplacements path).lookup "%relativeLocation%".toList = none := by
  have hkey : "%relativeLocation%".toList ∉ [("%relativeLocation".toList, path),
      ("%fileUUID%".toList, "None".toList), ("%fileGrpUse%".toList, [])].map Prod.fst := by
    simp only [List.map_cons, List.map_nil]
    decide
  exact (GoMap.lookup_foldl_insert_of_notMem Prod.fst Prod.snd hkey ∅).trans (Finmap.lookup_empty _)

end Mappings

section Listed

variable (cwd : Str) (stat : Str → Bool) (root : WalkDir.Root) (p : Package)
variable (filterFilenameEnd filterSubdir : Str)

-- The files of the store that are on the disk.
def onDisk (found : List StoreFile) : List StoreFile := found.filter fun f => stat (p.inputFile f)

-- The absolute paths of the regular files under the path whose names have the end.
def wanted : List Str :=
  ((root.regulars (p.realPath ++ filterSubdir)).filter fun v => filterFilenameEnd.isSuffixOf v.name).map
    fun v => (FilePath.abs (some cwd) v.path).getD []

-- The package's rows, each with a file that the store reads from it.
def HasRow (t : Files.Table) (f : StoreFile) : Prop :=
  ∃ r ∈ t.rows, (p.query filterFilenameEnd filterSubdir).owns r = true ∧ r.scan = .ok f

-- Every file has one mapping, with its path and the identifier of its row.
structure Listed (t : Files.Table) (ret : List ReplacementMapping) : Prop where
  once : (ret.map (·.lookup "%relativeLocation%".toList)).Perm
    ((wanted cwd root p filterFilenameEnd filterSubdir).map some)
  uuid : ∀ mapping ∈ ret, ∀ path, mapping.lookup "%relativeLocation%".toList = some path →
    (∃ f, HasRow p filterFilenameEnd filterSubdir t f ∧ p.inputFile f = path ∧
      mapping.lookup "%fileUUID%".toList = some f.id.string) ∨
    ((∀ f, HasRow p filterFilenameEnd filterSubdir t f → p.inputFile f ≠ path) ∧
      mapping.lookup "%fileUUID%".toList = some "None".toList)

-- The files of the store that are on the disk are the wanted ones, one for one, and the
-- walk gets to its end and to no file besides whose name begins with the end.
structure Covered (found : List StoreFile) : Prop where
  rows : ((p.onDisk stat found).map p.inputFile).Perm (wanted cwd root p filterFilenameEnd filterSubdir)
  walk : ∃ visits, root.visits (p.realPath ++ filterSubdir) = .ok visits ∧
    ∀ v ∈ visits, passes filterFilenameEnd v = true → v.path ∈ (p.onDisk stat found).map p.inputFile

variable {cwd stat root p filterFilenameEnd filterSubdir} {found : List StoreFile}

theorem kept_eq : ((found.map (fileReplacements (some cwd) p)).filter fun mapping =>
      match mapping.lookup "%inputFile%".toList with
      | none => false
      | some inputFile => stat inputFile) =
    (p.onDisk stat found).map (fileReplacements (some cwd) p) := by
  rw [List.filter_map, onDisk]
  refine congrArg (List.map _) (List.filter_congr fun f _ => ?_)
  have hlookup : (fileReplacements (some cwd) p f).lookup "%inputFile%".toList = some (p.inputFile f) :=
    lookup_fileReplacements (by simp)
  simp only [Function.comp_apply, hlookup]

theorem seen_eq (fs : List StoreFile) :
    (fs.map (fileReplacements (some cwd) p)).filterMap (·.lookup "%inputFile%".toList) =
      fs.map p.inputFile := by
  induction fs with
  | nil => rfl
  | cons f fs ih =>
      have hlookup : (fileReplacements (some cwd) p f).lookup "%inputFile%".toList =
          some (p.inputFile f) := lookup_fileReplacements (by simp)
      rw [List.map_cons, List.filterMap_cons_some hlookup, ih, List.map_cons]

-- The mappings are those of the rows on the disk and those of what else the walk comes to.
theorem files_ok {visits : List WalkDir.Visit}
    (h : root.visits (p.realPath ++ filterSubdir) = .ok visits) :
    p.files cwd stat root filterFilenameEnd filterSubdir (.ok found) =
      .ok ((p.onDisk stat found).map (fileReplacements (some cwd) p) ++
        (visits.filter fun v => passes filterFilenameEnd v &&
          !((p.onDisk stat found).map p.inputFile).contains v.path).map
            fun v => foundReplacements v.path) := by
  simp only [files, kept_eq, seen_eq, h]

theorem files_eq_ok {answer : Except String (List StoreFile)} {ret : List ReplacementMapping}
    (h : p.files cwd stat root filterFilenameEnd filterSubdir answer = .ok ret) :
    ∃ found visits, answer = .ok found ∧ root.visits (p.realPath ++ filterSubdir) = .ok visits ∧
      ret = (p.onDisk stat found).map (fileReplacements (some cwd) p) ++
        (visits.filter fun v => passes filterFilenameEnd v &&
          !((p.onDisk stat found).map p.inputFile).contains v.path).map
            fun v => foundReplacements v.path := by
  cases answer with
  | error err => cases h
  | ok found =>
      cases hwalk : root.visits (p.realPath ++ filterSubdir) with
      | error err =>
          simp only [files, hwalk] at h
          cases h
      | ok visits =>
          rw [files_ok hwalk] at h
          exact ⟨found, visits, rfl, rfl, (Except.ok.inj h).symm⟩

theorem map_relativeLocation (fs : List StoreFile) :
    (fs.map (fileReplacements (some cwd) p)).map (·.lookup "%relativeLocation%".toList) =
      (fs.map p.inputFile).map some := by
  rw [List.map_map, List.map_map]
  apply List.map_congr_left
  intro f _
  exact lookup_fileReplacements (by simp)

-- Nothing that the walk adds has the key.
theorem eq_nil_of_listed {t : Files.Table} {fs : List StoreFile} {vs : List WalkDir.Visit}
    (h : Listed cwd root p filterFilenameEnd filterSubdir t
      (fs.map (fileReplacements (some cwd) p) ++ vs.map fun v => foundReplacements v.path)) :
    vs = [] := by
  cases vs with
  | nil => rfl
  | cons v vs =>
      have hmem : none ∈ (fs.map (fileReplacements (some cwd) p) ++
          (v :: vs).map fun v => foundReplacements v.path).map
            (·.lookup "%relativeLocation%".toList) := by
        rw [List.map_append, List.map_cons, List.map_cons, lookup_foundReplacements]
        exact List.mem_append_right _ List.mem_cons_self
      obtain ⟨path, -, hpath⟩ := List.mem_map.mp (h.once.mem_iff.mp hmem)
      cases hpath

theorem listed_of_covered {t : Files.Table}
    (hrow : ∀ f ∈ found, HasRow p filterFilenameEnd filterSubdir t f)
    (hrows : ((p.onDisk stat found).map p.inputFile).Perm
      (wanted cwd root p filterFilenameEnd filterSubdir)) :
    Listed cwd root p filterFilenameEnd filterSubdir t
      ((p.onDisk stat found).map (fileReplacements (some cwd) p)) := by
  refine ⟨?_, ?_⟩
  · rw [map_relativeLocation]
    exact hrows.map some
  · intro mapping hmapping path hpath
    obtain ⟨f, hf, rfl⟩ := List.mem_map.mp hmapping
    have hlookup : (fileReplacements (some cwd) p f).lookup "%relativeLocation%".toList =
        some (p.inputFile f) := lookup_fileReplacements (by simp)
    rw [hlookup] at hpath
    exact Or.inl ⟨f, hrow f (List.mem_of_mem_filter hf), Option.some.inj hpath,
      lookup_fileReplacements (by simp)⟩

-- Every wanted file has its mapping, and no other file, exactly where the rows that the
-- store gives cover the disk.
theorem files_listed_iff {t : Files.Table}
    {orders : Files.Orders ((p.query filterFilenameEnd filterSubdir).matching t)}
    {answer : Except String (List StoreFile)}
    (hanswer : Files.Returns (p.query filterFilenameEnd filterSubdir) t orders answer) :
    (∃ ret, p.files cwd stat root filterFilenameEnd filterSubdir answer = .ok ret ∧
        Listed cwd root p filterFilenameEnd filterSubdir t ret) ↔
      ∃ found, answer = .ok found ∧ Covered cwd stat root p filterFilenameEnd filterSubdir found := by
  constructor
  · rintro ⟨ret, hret, hlisted⟩
    obtain ⟨found, visits, rfl, hwalk, rfl⟩ := files_eq_ok hret
    have hnil := eq_nil_of_listed hlisted
    refine ⟨found, rfl, ?_, visits, hwalk, fun v hv hpasses => ?_⟩
    · have honce := hlisted.once
      rw [hnil, List.map_nil, List.append_nil, map_relativeLocation] at honce
      exact (List.map_perm_map_iff (Option.some_injective _)).mp honce
    · by_contra hnew
      have hmem : v ∈ visits.filter fun v => passes filterFilenameEnd v &&
          !((p.onDisk stat found).map p.inputFile).contains v.path := by
        rw [List.mem_filter, hpasses, Bool.true_and, Bool.not_eq_true', List.contains_eq_mem,
          decide_eq_false_iff_not]
        exact ⟨hv, hnew⟩
      rw [hnil] at hmem
      cases hmem
  · rintro ⟨found, rfl, hrows, visits, hwalk, hcovered⟩
    have hnil : (visits.filter fun v => passes filterFilenameEnd v &&
        !((p.onDisk stat found).map p.inputFile).contains v.path) = [] := by
      rw [List.filter_eq_nil_iff]
      intro v hv htrue
      obtain ⟨hpasses, hnew⟩ := Bool.and_eq_true_iff.mp htrue
      rw [Bool.not_eq_true', List.contains_eq_mem, decide_eq_false_iff_not] at hnew
      exact hnew (hcovered v hv hpasses)
    refine ⟨_, files_ok hwalk, ?_⟩
    rw [hnil, List.map_nil, List.append_nil]
    exact listed_of_covered (fun f hf => Files.exists_row_of_returns hanswer hf) hrows

end Listed

-- A transfer with one file, which the store has or has not.
namespace Leaf

def transfer : Package where
  id := ⟨5⟩
  unit := .transfer []
  sharedDir := "/s/".toList
  path := "/s/t/".toList
  startAtChainID := UUID.nil
  startAtLinkID := UUID.nil

def root : WalkDir.Root := .dir none (.file "a".toList true .nil)

def row : Files.Row where
  fileUUID := ⟨7⟩
  originalLocation := "%transferDirectory%a".toList
  currentLocation := some "%transferDirectory%a".toList
  fileGrpUse := "original".toList
  sipUUID := none
  transferUUID := some ⟨5⟩

def stored : StoreFile where
  id := ⟨7⟩
  currentLocation := "%transferDirectory%a".toList
  originalLocation := "%transferDirectory%a".toList
  fileGrpUse := "original".toList

def known : Files.Table := ⟨[row], List.nodup_singleton _⟩

def unknown : Files.Table := ⟨[], List.nodup_nil⟩

def inOrder (t : Files.Table) : Files.Orders ((transfer.query [] []).matching t) :=
  ⟨fun _ => (transfer.query [] []).matching t, fun _ => .refl _⟩

def stat (path : Str) : Bool := path = "/s/t/a".toList

theorem returns_known :
    Files.Returns (transfer.query [] []) known (inOrder known) (.ok [stored]) := ⟨2, rfl⟩

theorem returns_unknown :
    Files.Returns (transfer.query [] []) unknown (inOrder unknown) (.ok []) := ⟨1, rfl⟩

theorem covered_known : Covered [] stat root transfer [] [] [stored] := by
  have hrows : (transfer.onDisk stat [stored]).map transfer.inputFile = ["/s/t/a".toList] := by
    decide +kernel
  have hwanted : wanted [] root transfer [] [] = ["/s/t/a".toList] := by decide +kernel
  refine ⟨by rw [hrows, hwanted], _, rfl, fun v hv _ => ?_⟩
  rw [hrows, List.mem_singleton.mp hv]
  decide +kernel

theorem files_listed_iff_known :
    ∃ ret, transfer.files [] stat root [] [] (.ok [stored]) = .ok ret ∧
      Listed [] root transfer [] [] known ret :=
  (files_listed_iff returns_known).mpr ⟨_, rfl, covered_known⟩

-- The file gets a mapping in which its path is under another key.
theorem unknown_not_listed :
    ¬ ∀ (cwd : Str) (stat : Str → Bool) (root : WalkDir.Root) (p : Package)
      (filterFilenameEnd filterSubdir : Str) (t : Files.Table)
      (orders : Files.Orders ((p.query filterFilenameEnd filterSubdir).matching t))
      (answer : Except String (List StoreFile)), (t.rows.map Files.Row.currentLocation).Nodup →
      Files.Returns (p.query filterFilenameEnd filterSubdir) t orders answer →
      ∃ ret, p.files cwd stat root filterFilenameEnd filterSubdir answer = .ok ret ∧
        Listed cwd root p filterFilenameEnd filterSubdir t ret := by
  intro h
  obtain ⟨ret, hret, hlisted⟩ :=
    h [] stat root transfer [] [] unknown (inOrder unknown) (.ok []) List.nodup_nil returns_unknown
  obtain ⟨found, visits, hfound, hwalk, rfl⟩ := files_eq_ok hret
  obtain rfl : [] = found := Except.ok.inj hfound
  obtain rfl : [⟨"/s/t/a".toList, "a".toList, true⟩] = visits := by
    rw [← Except.ok.inj hwalk]
    decide +kernel
  have hnil := eq_nil_of_listed hlisted
  revert hnil
  decide +kernel

end Leaf

end Package

end Ccp
