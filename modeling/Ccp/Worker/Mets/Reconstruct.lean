import Ccp.Worker.Mets.Normative
import Mathlib.Data.Finset.Insert

namespace Ccp.Worker.Mets

open Lib PosixPath

namespace Div

def type : Div → DivType
  | mk type _ _ _ => type

def label : Div → Str
  | mk _ label _ _ => label

def children : Div → List Div
  | mk _ _ _ children => children

end Div

def metadata : Str := "metadata".toList

def submissionDocumentation : Str := "submissionDocumentation".toList

mutual

def divElToDirPaths (parent : Str) (included : Bool) : Div → List Str
  | .mk _ label _ children =>
      if parent = [] ∧ (label = metadata ∨ label = submissionDocumentation) then []
      else
        let path := if included then join parent label else parent
        (if included then [path] else []) ++ subDivPaths path children

-- The turns of the loop over the children of TYPE Directory.
def subDivPaths (path : Str) : List Div → List Str
  | [] => []
  | d :: ds =>
      (if d.type = .directory then divElToDirPaths path true d else []) ++ subDivPaths path ds

end

-- The objects directory on the disk, by the names that lead from it to what it holds.
structure Disk where
  dirs : Finset (List Str)
  files : Finset (List Str)
deriving DecidableEq

def mkdir (disk : Disk) (names : List Str) : Option Disk :=
  if names ∈ disk.dirs then some disk
  else if names ∈ disk.files then none
  else some { disk with dirs := insert names disk.dirs }

-- os.makedirs: the directories on the way first.
def makedirs (disk : Disk) (names : List Str) : Option Disk := names.inits.foldlM mkdir disk

def makeMissing (disk : Disk) (path : Str) : Option Disk :=
  if path.splitOn '/' ∈ disk.dirs then some disk else makedirs disk (path.splitOn '/')

-- Nothing is done without a METS file, an objects directory, the structMap or its
-- div for objects.
def reconstructEmptyDirectories (mets : Option (List StructMap)) (disk : Disk) : Option Disk :=
  match mets with
  | none => some disk
  | some doc =>
      if [] ∉ disk.dirs then some disk
      else
        match doc.find? fun sm => sm.type = "logical".toList ∧ sm.label = normativeLabel with
        | none => some disk
        | some sm =>
            match (sm.divs.flatMap Div.children).find? fun d => d.label = objects with
            | none => some disk
            | some root => (divElToDirPaths [] false root).foldlM makeMissing disk

-- Reading.

theorem subDivPaths_append (path : Str) (xs ys : List Div) :
    subDivPaths path (xs ++ ys) = subDivPaths path xs ++ subDivPaths path ys := by
  induction xs with
  | nil => rfl
  | cons d xs ih => rw [List.cons_append, subDivPaths, subDivPaths, ih, List.append_assoc]

theorem subDivPaths_items (path : Str) (names : List Str) :
    subDivPaths path (names.map fun name => .mk .item name none []) = [] := by
  induction names with
  | nil => rfl
  | cons name names ih =>
      rw [List.map_cons, subDivPaths, ih]
      rfl

-- The directories that are left out, by the first name.
def Excluded (names : List Str) : Prop :=
  names.head? = some metadata ∨ names.head? = some submissionDocumentation

instance (names : List Str) : Decidable (Excluded names) := inferInstanceAs (Decidable (_ ∨ _))

-- The directories that the reader takes from a div whose path is p: only where it
-- has none are some left out.
def Entries.read (p : Str) (entries : Entries) : List (List Str) :=
  entries.dirs.filter fun names => ¬ (p = [] ∧ Excluded names)

theorem Entries.read_eq_dirs {p : Str} (h : p ≠ []) (entries : Entries) :
    entries.read p = entries.dirs := by
  rw [read, List.filter_eq_self]
  intro names _
  simp [h]

theorem Entries.read_dir (p name : Str) (sub rest : Entries) :
    (Entries.dir name sub rest).read p =
      (if p = [] ∧ (name = metadata ∨ name = submissionDocumentation) then []
        else [name] :: sub.dirs.map (name :: ·)) ++ rest.read p := by
  have hhead : ∀ names ∈ [name] :: sub.dirs.map (name :: ·),
      (Excluded names ↔ name = metadata ∨ name = submissionDocumentation) := by
    intro names hnames
    rcases List.mem_cons.mp hnames with rfl | hnames
    · simp [Excluded]
    · obtain ⟨names', -, rfl⟩ := List.mem_map.mp hnames
      simp [Excluded]
  rw [read, dirs, List.filter_append]
  congr 1
  split_ifs with hexcluded
  · rw [List.filter_eq_nil_iff]
    intro names hnames
    rw [decide_eq_true_iff, hhead names hnames]
    exact not_not.mpr hexcluded
  · rw [List.filter_eq_self]
    intro names hnames
    rw [decide_eq_true_iff, hhead names hnames]
    exact hexcluded

theorem subDivPaths_shows {p : Str} {entries : Entries} {inner : List Div} (h : Shows entries inner)
    (hnamed : entries.Named) (hp : p = [] ∨ Open p) :
    subDivPaths p inner = (entries.read p).map fun names => names.foldl join p := by
  induction h generalizing p with
  | nil => rfl
  | file h ih => exact ih hnamed.2 hp
  | link h ih => exact ih hnamed.2 hp
  | @dir name sub rest inner divs dmdID hsub hrest ihsub ihrest =>
      obtain ⟨hname, hsubNamed, hrestNamed⟩ := hnamed
      have hopen : Open (join p name) := by
        rcases hp with rfl | hp
        · rw [join_nil_of_name hname]
          exact ⟨hname.1, fun hlast => hname.2 (List.mem_of_getLast? hlast)⟩
        · exact open_join hp hname
      rw [subDivPaths, ihrest hrestNamed hp, Entries.read_dir, List.map_append]
      congr 1
      simp only [Div.type, if_true, divElToDirPaths]
      split_ifs with hexcluded
      · rfl
      · rw [subDivPaths_append, subDivPaths_items, List.nil_append, ihsub hsubNamed (Or.inr hopen),
          Entries.read_eq_dirs hopen.1]
        simp [Function.comp_def]

-- The names of a path, from its text.

theorem foldl_join {p : Str} (hp : Open p) {names : List Str} (h : ∀ name ∈ names, Name name) :
    names.foldl join p = ['/'].intercalate (p :: names) := by
  induction names generalizing p with
  | nil => rw [List.foldl_nil, List.intercalate_singleton]
  | cons name names ih =>
      have hname := h name List.mem_cons_self
      rw [List.foldl_cons, ih (open_join hp hname) fun n hn => h n (List.mem_cons_of_mem name hn),
        join_of_open hp hname]
      cases names with
      | nil => simp
      | cons n names => simp

theorem splitOn_foldl_join {names : List Str} (hne : names ≠ []) (h : ∀ name ∈ names, Name name) :
    (names.foldl join []).splitOn '/' = names := by
  cases names with
  | nil => exact absurd rfl hne
  | cons name names =>
      have hname := h name List.mem_cons_self
      have hopen : Open name := ⟨hname.1, fun hlast => hname.2 (List.mem_of_getLast? hlast)⟩
      rw [List.foldl_cons, join_nil_of_name hname,
        foldl_join hopen fun n hn => h n (List.mem_cons_of_mem name hn)]
      exact List.splitOn_intercalate '/' (fun n hn => (h n hn).2) hne

theorem Entries.name_of_mem_dirs {entries : Entries} (h : entries.Named) :
    ∀ names ∈ entries.dirs, names ≠ [] ∧ ∀ name ∈ names, Name name := by
  induction entries with
  | nil =>
      intro names hnames
      cases hnames
  | file n rest ih => exact ih h.2
  | link n rest ih => exact ih h.2
  | dir n sub rest ihsub ihrest =>
      intro names hnames
      rw [dirs, List.cons_append, List.mem_cons, List.mem_append] at hnames
      rcases hnames with rfl | hnames | hnames
      · exact ⟨by simp, by simpa using h.1⟩
      · obtain ⟨names', hnames', rfl⟩ := List.mem_map.mp hnames
        exact ⟨by simp, List.forall_mem_cons.mpr ⟨h.1, (ihsub h.2.1 names' hnames').2⟩⟩
      · exact ihrest h.2.2 names hnames

theorem Entries.mem_dirs_of_prefix_le {entries : Entries} {names front : List Str}
    (h : names ∈ entries.dirs) (hfront : front <+: names) (hne : front ≠ []) :
    front ∈ entries.dirs := by
  induction entries generalizing names front with
  | nil => cases h
  | file n rest ih => exact ih h hfront hne
  | link n rest ih => exact ih h hfront hne
  | dir n sub rest ihsub ihrest =>
      rw [dirs, List.cons_append, List.mem_cons, List.mem_append] at h ⊢
      cases front with
      | nil => exact absurd rfl hne
      | cons m front =>
          rcases h with rfl | h | h
          · obtain ⟨rfl, hnil⟩ := List.cons_prefix_cons.mp hfront
            rw [List.prefix_nil.mp hnil]
            exact Or.inl rfl
          · obtain ⟨names', hnames', rfl⟩ := List.mem_map.mp h
            obtain ⟨rfl, hfront'⟩ := List.cons_prefix_cons.mp hfront
            by_cases hnil : front = []
            · rw [hnil]
              exact Or.inl rfl
            · exact Or.inr (Or.inl (List.mem_map_of_mem (ihsub hnames' hfront' hnil)))
          · exact Or.inr (Or.inr (ihrest h hfront hne))

-- Writing.

-- What a call adds to the disk: no more than the directories that it may, and all
-- that it has to.
structure Adds (disk disk' : Disk) (must may : List Str → Prop) : Prop where
  files : disk'.files = disk.files
  keeps : ∀ names ∈ disk.dirs, names ∈ disk'.dirs
  made : ∀ names, must names → names ∈ disk'.dirs
  only : ∀ names ∈ disk'.dirs, names ∈ disk.dirs ∨ may names

theorem exists_foldlM {α : Type} {f : Disk → α → Option Disk} {must : α → List Str → Prop}
    {may : List Str → Prop} {F : Finset (List Str)} {l : List α}
    (h : ∀ a ∈ l, ∀ disk : Disk, disk.files = F → ∃ disk', f disk a = some disk' ∧
      Adds disk disk' (must a) may) {disk : Disk} (hdisk : disk.files = F) :
    ∃ disk', l.foldlM f disk = some disk' ∧
      Adds disk disk' (fun names => ∃ a ∈ l, must a names) may := by
  induction l generalizing disk with
  | nil => exact ⟨disk, rfl, rfl, fun _ h => h, by simp, fun _ h => Or.inl h⟩
  | cons a l ih =>
      obtain ⟨disk₁, hf, hadds⟩ := h a List.mem_cons_self disk hdisk
      obtain ⟨disk₂, hfold, hadds'⟩ :=
        ih (fun b hb => h b (List.mem_cons_of_mem a hb)) (hadds.files.trans hdisk)
      refine ⟨disk₂, ?_, hadds'.files.trans hadds.files,
        fun names hn => hadds'.keeps names (hadds.keeps names hn), ?_, ?_⟩
      · rw [List.foldlM_cons, hf]
        exact hfold
      · rintro names ⟨b, hb, hmust⟩
        rcases List.mem_cons.mp hb with rfl | hb
        · exact hadds'.keeps names (hadds.made names hmust)
        · exact hadds'.made names ⟨b, hb, hmust⟩
      · intro names hnames
        rcases hadds'.only names hnames with hnames | hmay
        · exact hadds.only names hnames
        · exact Or.inr hmay

theorem exists_mkdir {disk : Disk} {names : List Str} (h : names ∉ disk.files)
    {may : List Str → Prop} (hmay : may names) :
    ∃ disk', mkdir disk names = some disk' ∧ Adds disk disk' (· = names) may := by
  by_cases hdir : names ∈ disk.dirs
  · refine ⟨disk, if_pos hdir, rfl, fun _ hn => hn, ?_, fun _ hn => Or.inl hn⟩
    rintro _ rfl
    exact hdir
  · refine ⟨{ disk with dirs := insert names disk.dirs }, ?_, rfl, ?_, ?_, ?_⟩
    · rw [mkdir, if_neg hdir, if_neg h]
    · exact fun _ hn => Finset.mem_insert_of_mem hn
    · rintro _ rfl
      exact Finset.mem_insert_self _ _
    · intro n hn
      rcases Finset.mem_insert.mp hn with rfl | hn
      · exact Or.inr hmay
      · exact Or.inl hn

theorem exists_makeMissing {disk : Disk} {path : Str} {may : List Str → Prop}
    (h : ∀ front, front <+: path.splitOn '/' → front ∉ disk.files ∧ may front) :
    ∃ disk', makeMissing disk path = some disk' ∧
      Adds disk disk' (· = path.splitOn '/') may := by
  by_cases hdir : path.splitOn '/' ∈ disk.dirs
  · refine ⟨disk, if_pos hdir, rfl, fun _ hn => hn, ?_, fun _ hn => Or.inl hn⟩
    rintro _ rfl
    exact hdir
  · have hmkdir : ∀ front ∈ (path.splitOn '/').inits, ∀ disk₁ : Disk, disk₁.files = disk.files →
        ∃ disk', mkdir disk₁ front = some disk' ∧ Adds disk₁ disk' (· = front) may := by
      intro front hfront disk₁ hfiles
      obtain ⟨hfile, hmay⟩ := h front ((List.mem_inits _ _).mp hfront)
      exact exists_mkdir (hfiles ▸ hfile) hmay
    obtain ⟨disk', hmake, hadds⟩ := exists_foldlM hmkdir rfl
    refine ⟨disk', ?_, hadds.files, hadds.keeps, ?_, hadds.only⟩
    · rw [makeMissing, if_neg hdir]
      exact hmake
    · rintro _ rfl
      exact hadds.made _ ⟨_, (List.mem_inits _ _).mpr (List.prefix_refl _), rfl⟩

-- The directories of the tree that are to be there again.
def Entries.Restored (entries : Entries) (names : List Str) : Prop :=
  names ∈ entries.dirs ∧ ¬ Excluded names

theorem Entries.restored_of_front {entries : Entries} {names front : List Str}
    (h : entries.Restored names) (hfront : front <+: names) (hne : front ≠ []) :
    entries.Restored front := by
  refine ⟨mem_dirs_of_prefix_le h.1 hfront hne, fun hexcluded => h.2 ?_⟩
  obtain ⟨back, rfl⟩ := hfront
  rwa [Excluded, List.head?_append_of_ne_nil front hne]

theorem reconstructEmptyDirectories_eq {physical : StructMap}
    (hphysical : physical.type = "physical".toList) (others : List StructMap) {label : Str}
    {root : Div} (hlabel : root.label = objects) {disk : Disk} (hobjects : [] ∈ disk.dirs) :
    reconstructEmptyDirectories (some (physical ::
      ⟨"logical".toList, normativeLabel, [.mk .directory label none [root]]⟩ :: others)) disk =
      (divElToDirPaths [] false root).foldlM makeMissing disk := by
  simp only [reconstructEmptyDirectories, hobjects, not_true_eq_false, if_false]
  rw [List.find?_cons_of_neg (by simp [hphysical]), List.find?_cons_of_pos (by simp)]
  simp [Div.children, hlabel]

-- The document that is made from a directory tree brings its directories back, but
-- for those below the two first names, and makes no others.
theorem reconstruct_getNormativeStructmap {base : Str} (hbase : base.getLast? = some '/')
    {entries : Entries} (hnamed : entries.Named) (globalDmdSecCounter : Nat)
    {physical : StructMap} (hphysical : physical.type = "physical".toList)
    (others : List StructMap) {disk : Disk} (hobjects : [] ∈ disk.dirs) (hroot : [] ∉ disk.files)
    (hclear : ∀ names, entries.Restored names → names ∉ disk.files) :
    ∃ normative disk', getNormativeStructmap base (join base objects) entries globalDmdSecCounter =
        some normative ∧
      reconstructEmptyDirectories (some (physical :: normative :: others)) disk = some disk' ∧
      disk'.files = disk.files ∧
      ∀ names, names ∈ disk'.dirs ↔ names ∈ disk.dirs ∨ entries.Restored names := by
  obtain ⟨label, dmdID, inner, hbuild, hshows⟩ :=
    getNormativeStructmap_eq hbase hnamed globalDmdSecCounter
  have hpaths : divElToDirPaths [] false (.mk .directory objects dmdID
      ((entries.files.map fun name => .mk .item name none []) ++ inner)) =
      (entries.read []).map fun names => names.foldl join [] := by
    rw [divElToDirPaths, if_neg (by decide)]
    simp only [Bool.false_eq_true, if_false, List.nil_append]
    rw [subDivPaths_append, subDivPaths_items, List.nil_append,
      subDivPaths_shows hshows hnamed (Or.inl rfl)]
  have hread : ∀ names, names ∈ entries.read [] ↔ entries.Restored names := by
    intro names
    simp [Entries.read, Entries.Restored]
  have hsplit : ∀ names ∈ entries.read [], (names.foldl join []).splitOn '/' = names := by
    intro names hnames
    obtain ⟨hne, hname⟩ := Entries.name_of_mem_dirs hnamed names ((hread names).mp hnames).1
    exact splitOn_foldl_join hne hname
  have hmake : ∀ names ∈ entries.read [], ∀ disk₁ : Disk, disk₁.files = disk.files →
      ∃ disk', makeMissing disk₁ (names.foldl join []) = some disk' ∧
        Adds disk₁ disk' (· = names) (fun names => names = [] ∨ entries.Restored names) := by
    intro names hnames disk₁ hfiles
    have hmissing := @exists_makeMissing disk₁ (names.foldl join [])
      (fun names => names = [] ∨ entries.Restored names)
    rw [hsplit names hnames] at hmissing
    refine hmissing fun front hfront => ?_
    rw [hfiles]
    by_cases hne : front = []
    · exact ⟨hne ▸ hroot, Or.inl hne⟩
    · have hrestored := Entries.restored_of_front ((hread names).mp hnames) hfront hne
      exact ⟨hclear front hrestored, Or.inr hrestored⟩
  obtain ⟨disk', hfold, hadds⟩ := exists_foldlM hmake rfl
  refine ⟨_, disk', hbuild, ?_, hadds.files, fun names => ⟨fun hnames => ?_, ?_⟩⟩
  · rw [reconstructEmptyDirectories_eq hphysical others rfl hobjects, hpaths, List.foldlM_map]
    exact hfold
  · rcases hadds.only names hnames with hnames | rfl | hrestored
    · exact Or.inl hnames
    · exact Or.inl hobjects
    · exact Or.inr hrestored
  · rintro (hnames | hrestored)
    · exact hadds.keeps names hnames
    · exact hadds.made names ⟨names, (hread names).mpr hrestored, rfl⟩

-- An empty directory two levels down, with an excluded name, beside an excluded one.
def album : Entries := .dir "a".toList (.dir metadata .nil .nil) (.dir metadata .nil .nil)

theorem reconstruct_getNormativeStructmap_album : ∃ normative disk',
    getNormativeStructmap "/sip/".toList (join "/sip/".toList objects) album 0 = some normative ∧
      reconstructEmptyDirectories (some [⟨"physical".toList, [], []⟩, normative]) ⟨{[]}, ∅⟩ =
        some disk' ∧
      ["a".toList, metadata] ∈ disk'.dirs ∧ [metadata] ∉ disk'.dirs := by
  have hmetadata : Name metadata := ⟨by decide, by decide⟩
  have hnamed : album.Named :=
    ⟨⟨by decide, by decide⟩, ⟨hmetadata, trivial, trivial⟩, hmetadata, trivial, trivial⟩
  obtain ⟨normative, disk', hbuild, hreconstruct, -, hdirs⟩ :=
    @reconstruct_getNormativeStructmap "/sip/".toList (by decide) album hnamed 0
      ⟨"physical".toList, [], []⟩ rfl [] ⟨{[]}, ∅⟩ (Finset.mem_singleton_self [])
      (Finset.notMem_empty _) (fun names _ => Finset.notMem_empty names)
  refine ⟨normative, disk', hbuild, hreconstruct, (hdirs _).mpr (Or.inr ⟨by decide, by decide⟩), ?_⟩
  rw [hdirs]
  rintro (h | ⟨-, h⟩)
  · exact absurd h (by decide)
  · exact h (by decide)

end Ccp.Worker.Mets
