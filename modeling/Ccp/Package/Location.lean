import Ccp.Job.Lemmas
import Ccp.Lib.Run
import Ccp.Path

namespace Ccp

open Lib Lib.Calls

-- uuidFromPath: an identifier at the end of the path.
def uuidFromPath (path : Str) : UUID :=
  let path := (path.reverse.dropWhile (· = '/')).reverse
  if path.length < 36 then UUID.nil else (UUID.parse (path.drop (path.length - 36))).getD UUID.nil

namespace Package

def newPackage (sharedDir : Str) (unit : PackageUnit) : Package where
  id := UUID.nil
  unit := unit
  sharedDir := joinPath [sharedDir, []]
  path := []
  startAtChainID := UUID.nil
  startAtLinkID := UUID.nil

-- What the store has of the packages of one type: the location of an identifier,
-- the identifier at a location, and a new identifier.
structure Rows where
  location : UUID → Option Str
  withLocation : Str → Option UUID
  new : UUID

-- hydrate of the three units, with the location that Upsert or Ensure writes:
-- UpsertDIP leaves a row that is there alone.
def hydrate (p : Package) (path : Str) (db : Rows) : Package × Option Str :=
  let path := joinPath [replaceFirst p.sharedDir sharedPath path, []]
  let id := uuidFromPath path
  if id ≠ UUID.nil then
    ({ p with id := id, path := path },
      match db.location id, p.packageType with
      | none, _ => some path
      | some _, .dip => none
      | some location, _ => if location = path then none else some path)
  else
    match db.withLocation path with
    | some id => ({ p with id := id, path := path }, none)
    | none => ({ p with id := db.new, path := path }, some path)

-- reload: a DIP does not look at its row again.
def reloaded (p : Package) (location : Str) : Package :=
  match p.unit with
  | .transfer _ | .sip _ _ => p.updatePath location
  | .dip => p

-- It is what a job does to its package before it is saved.
theorem reload_path {a : Answers} {w w' : World} {location aipFilename sipType : Str}
    (htransfer : a.transferLocation = .ok location) (hsip : a.sip = .ok (location, aipFilename, sipType))
    (h : reload a w = .ok () w') : w'.pkg.path = (w.pkg.reloaded location).path := by
  unfold reload at h
  split at h
  · next config hunit =>
      simp only [reloadTransfer, bind_ok_iff, ofExcept_ok_iff, modify_ok_iff] at h
      obtain ⟨path, w₁, ⟨hpath, rfl⟩, _, w₂, rfl, h⟩ := h
      obtain rfl := Except.ok.inj (htransfer.symm.trans hpath)
      have hread : (w.pkg.reloaded location).path = (w.pkg.updatePath location).path := by
        simp only [reloaded, hunit]
      rw [hread]
      cases hconfig : a.processingConfiguration with
      | notFound =>
          rw [hconfig, modify_ok_iff] at h
          rw [← h]
      | failed text =>
          rw [hconfig] at h
          exact absurd h throw_ne_ok
      | found name =>
          rw [hconfig, modify_ok_iff] at h
          rw [← h]
  · next sipType' aipFilename' hunit =>
      simp only [reloadSIP, bind_ok_iff, ofExcept_ok_iff, modify_ok_iff] at h
      obtain ⟨sip, w₁, ⟨hpath, rfl⟩, rfl⟩ := h
      obtain rfl := Except.ok.inj (hsip.symm.trans hpath)
      simp only [reloaded, hunit]
  · next hunit =>
      simp only [reloaded, hunit]
      cases h
      rfl

-- Where a package is: its real path, and whether it is a directory there.
structure Place where
  path : Str
  isDir : Bool

-- A package and its row, the place at which it is, and the locations that were
-- written for it, each with the place of that time.
structure Life where
  pkg : Package
  location : Str
  real : Place
  writes : List (Place × Str)

inductive Creation
  -- NewPackage, for a path that was seen in a watched directory; a SIP or a DIP that is
  -- no directory is refused, a transfer may be a file
  | watched (unit : PackageUnit) (path : Str) (isDir : Bool) (db : Rows)
      (h : unit.packageType = .transfer ∨ isDir = true)
  -- NewTransferPackage, with the copy; the update of the row may fail
  | submitted (copy : Place) (id : UUID) (updated : Bool)

def create (sharedDir : Str) : Creation → Life
  | .watched unit path isDir db _ =>
      let hydrated := hydrate (newPackage sharedDir unit) path db
      ⟨hydrated.1, hydrated.1.path, ⟨path, isDir⟩,
        hydrated.2.toList.map fun location => (⟨path, isDir⟩, location)⟩
  | .submitted copy id updated =>
      let pkg := { newPackage sharedDir (.transfer []) with id := id }.updatePath copy.path
      if updated then ⟨pkg, copy.path, copy, [(copy, copy.path)]⟩ else ⟨pkg, [], copy, []⟩

inductive Event
  -- a script of the worker moves the package and writes its new location, where the
  -- package is a directory or a file
  | moved (location : Str) (isDir : Bool)
  -- a job is saved, with the location of the package as its directory
  | save (wl : Workflow.Link)

def step (s : Life) : Event → Option Life
  | .moved location isDir =>
      some { s with
        location := location
        real := ⟨replaceFirst sharedPath s.pkg.sharedDir location, isDir⟩ }
  | .save wl =>
      let pkg := s.pkg.reloaded s.location
      some { s with pkg := pkg, writes := s.writes ++ [(s.real, (jobRow pkg wl).directory)] }

-- A clean path below a directory, or that path with a separator at its end.
def Under (dir real : Str) : Prop :=
  ∃ rest : List Str, rest ≠ [] ∧ (∀ e ∈ rest, FilePath.Proper e) ∧
    (real = FilePath.render (FilePath.rooted dir) (FilePath.elems dir ++ rest) ∨
      real = FilePath.render (FilePath.rooted dir) (FilePath.elems dir ++ rest) ++ ['/'])

-- A path leads to a place: its real path, to which a separator may be added where it is
-- a directory.
def Place.Leads (p : Place) (path : Str) : Prop := path = p.path ∨ p.isDir = true ∧ path = p.path ++ ['/']

-- A location for a real path below the shared directory starts with the variable
-- and is read back as that path.
def Faithful (sharedDir : Str) (write : Place × Str) : Prop :=
  Under sharedDir write.1.path → sharedPath <+: write.2 ∧
    write.1.Leads ((newPackage sharedDir .dip).updatePath write.2).path

section Paths

open FilePath

theorem joinPath_dir {dir : Str} (h : dir ≠ []) :
    joinPath [dir, []] = render (rooted dir) (elems dir) ++ ['/'] := by
  have hjoin : FilePath.join [dir, []] = render (rooted dir) (elems dir) := by
    have htext : ['/'].intercalate [dir, []] = dir ++ ['/'] := by
      rw [List.intercalate_cons_of_ne_nil (by simp)]
      simp
    have hroot : rooted (dir ++ ['/']) = rooted dir := by
      cases dir with
      | nil => exact absurd rfl h
      | cons c dir => rfl
    rw [FilePath.join]
    simp only [List.dropWhile_cons, h, decide_false, Bool.false_eq_true, if_false, htext]
    rw [clean_eq_render (by simp), elems_append_sep h, hroot]
  simp [joinPath, hjoin]

variable {sharedDir : Str}

theorem ne_nil_of_elems (h : elems sharedDir ≠ []) : sharedDir ≠ [] := by
  rintro rfl
  exact h rfl

-- A path below the shared directory is its text and what follows it.
theorem render_eq_append (h : elems sharedDir ≠ []) {rest : List Str} (hrest : rest ≠ []) :
    render (rooted sharedDir) (elems sharedDir ++ rest) =
      joinPath [sharedDir, []] ++ ['/'].intercalate rest := by
  rw [joinPath_dir (ne_nil_of_elems h), render_append h hrest fun e => ne_nil_of_mem_elems]
  simp

-- A directory that ends in a separator is below another one as the path before it.
theorem Under.of_append_sep (h : elems sharedDir ≠ []) {path : Str}
    (hreal : Under sharedDir (path ++ ['/'])) :
    ∃ rest, rest ≠ [] ∧ (∀ e ∈ rest, Proper e) ∧
      path = joinPath [sharedDir, []] ++ ['/'].intercalate rest := by
  obtain ⟨rest, hrest, hproper, heq | heq⟩ := hreal
  · exfalso
    rw [render_eq_append h hrest] at heq
    have hlast := congrArg List.getLast? heq
    have hne := intercalate_ne_nil hrest fun e he => (hproper e he).1
    rw [List.getLast?_append_of_ne_nil _ hne, List.getLast?_concat] at hlast
    exact getLast?_intercalate hrest hproper hlast.symm
  · refine ⟨rest, hrest, hproper, ?_⟩
    rw [← render_eq_append h hrest]
    exact List.append_cancel_right heq

theorem sharedPath_ne_nil : sharedPath ≠ [] := by decide

theorem joinPath_ne_nil (h : elems sharedDir ≠ []) : joinPath [sharedDir, []] ≠ [] := by
  rw [joinPath_dir (ne_nil_of_elems h)]
  simp

-- The variable before the first element makes it another one.
theorem exists_elems_sharedPath {rest : List Str} (hrest : rest ≠ []) (hproper : ∀ e ∈ rest, Proper e) :
    ∃ es : List Str, es ≠ [] ∧ (∀ e ∈ es, Proper e) ∧ es.length = rest.length ∧
      sharedPath ++ ['/'].intercalate rest = ['/'].intercalate es := by
  cases rest with
  | nil => exact absurd rfl hrest
  | cons e es =>
      have he := hproper e List.mem_cons_self
      refine ⟨(sharedPath ++ e) :: es, by simp, fun e' he' => ?_, rfl, ?_⟩
      · rcases List.mem_cons.mp he' with rfl | he'
        · have hlong : 2 < (sharedPath ++ e).length := by
            rw [List.length_append]
            exact Nat.lt_add_right _ (by decide)
          have hne : ∀ short : Str, short.length ≤ 2 → sharedPath ++ e ≠ short := by
            rintro short hshort rfl
            omega
          refine ⟨hne [] (by simp), hne _ (by simp), hne _ (by simp), ?_⟩
          rw [List.mem_append, not_or]
          exact ⟨by decide, he.2.2.2⟩
        · exact hproper e' (List.mem_cons_of_mem e he')
      · by_cases hnil : es = []
        · subst hnil
          simp
        · rw [List.intercalate_cons_of_ne_nil hnil, List.intercalate_cons_of_ne_nil hnil]
          simp

-- The variable takes the place of the shared directory, and cleaning keeps it.
theorem hydrated_eq (h : elems sharedDir ≠ []) {rest : List Str} (hrest : rest ≠ [])
    (hproper : ∀ e ∈ rest, Proper e) :
    joinPath [replaceFirst (joinPath [sharedDir, []]) sharedPath
      (joinPath [sharedDir, []] ++ ['/'].intercalate rest), []] =
      sharedPath ++ (['/'].intercalate rest ++ ['/']) := by
  obtain ⟨es, hes, hfirst, -, htext⟩ := exists_elems_sharedPath hrest hproper
  have hne := intercalate_ne_nil hes fun e he => (hfirst e he).1
  rw [replaceFirst_append (joinPath_ne_nil h), ← List.append_assoc, htext, joinPath_dir hne,
    elems_intercalate hes hfirst, rooted_intercalate hes hfirst]
  simp only [render, Bool.false_eq_true, if_false, hne]

end Paths

section Runs

variable {sharedDir : Str}

-- Below the shared directory there are only packages that were found there, as directories.
def Creation.Located (sharedDir : Str) : Creation → Prop
  | .watched _ path isDir _ _ => isDir = true ∨ ¬ Under sharedDir path
  | .submitted copy _ _ => ¬ Under sharedDir copy.path

-- What the package will read, or keeps, stands for its real path.
structure Located (sharedDir : Str) (s : Life) : Prop where
  dir : s.pkg.sharedDir = joinPath [sharedDir, []]
  faithful : ∀ w ∈ s.writes, Faithful sharedDir w
  row : Under sharedDir s.real.path → s.pkg.unit ≠ .dip →
    s.real.Leads (replaceFirst sharedPath (joinPath [sharedDir, []]) s.location)
  kept : Under sharedDir s.real.path → s.pkg.unit = .dip →
    sharedPath <+: s.pkg.path ∧
      s.real.Leads (replaceFirst sharedPath (joinPath [sharedDir, []]) s.pkg.path)

theorem hydrate_path (p : Package) (path : Str) (db : Rows) :
    (hydrate p path db).1.path = joinPath [replaceFirst p.sharedDir sharedPath path, []] ∧
      (hydrate p path db).1.sharedDir = p.sharedDir ∧ (hydrate p path db).1.unit = p.unit ∧
      ∀ loc ∈ (hydrate p path db).2, loc = (hydrate p path db).1.path := by
  dsimp only [hydrate]
  split_ifs
  · refine ⟨rfl, rfl, rfl, fun loc hloc => ?_⟩
    dsimp only at hloc
    split at hloc
    · exact (Option.some.inj hloc).symm
    · cases hloc
    · split_ifs at hloc
      · cases hloc
      · exact (Option.some.inj hloc).symm
  · split
    · exact ⟨rfl, rfl, rfl, fun loc hloc => by cases hloc⟩
    · exact ⟨rfl, rfl, rfl, fun loc hloc => (Option.some.inj hloc).symm⟩

theorem unit_reloaded (p : Package) (location : Str) : (p.reloaded location).unit = p.unit := by
  unfold reloaded
  split <;> rfl

end Runs

-- A SIP that is found, saved with a job, moved and saved again.
def link : Workflow.Link :=
  ⟨⟨1⟩, "linkTaskManagerSetUnitVariable", .taskConfigSetUnitVariable [] ⟨1⟩, ∅, ∅, "Failed", ⟨2⟩, ∅, false⟩

end Package

end Ccp
