import Ccp.Job.Preconfigured
import Ccp.Package.Location

namespace Ccp

open Lib

-- The choices of the configuration in a directory.
def configuredIn (files : ConfigFiles) (dir : Str) : Except String (List Workflow.Choice) :=
  match files (FilePath.join [dir, processingMCP]) with
  | none => .ok []
  | some (.error text) => .error ("parse: " ++ text)
  | some (.ok choices) => .ok choices

namespace Package

-- The package has the choices of its real directory, whatever the disk has.
def Sees (p : Package) : Prop :=
  ∀ files, p.parseProcessingConfig files = configuredIn files p.realPath

-- The path leads to the same configuration once the variable in it is replaced.
def Settled (dir path : Str) : Prop :=
  FilePath.join [path, processingMCP] = FilePath.join [replaceFirst sharedPath dir path, processingMCP]

-- The path that a job finds in its package: a DIP has the one that it was created with,
-- the others have read their location.
def kept (sharedDir : Str) (unit : PackageUnit) (path location : Str) : Str :=
  let dir := joinPath [sharedDir, []]
  match unit with
  | .dip => joinPath [replaceFirst dir sharedPath path, []]
  | .transfer _ => replaceFirst sharedPath dir location
  | .sip _ _ => replaceFirst sharedPath dir location

theorem parseProcessingConfig_eq (p : Package) (files : ConfigFiles) :
    p.parseProcessingConfig files = configuredIn files p.path := rfl

theorem sees_iff_opens {p : Package} : p.Sees ↔ p.Opens := by
  constructor
  · intro h
    have hreal : configuredIn (p.configured ⟨[], []⟩) p.realPath = .ok [⟨[], []⟩] := by
      have hfile : p.configured ⟨[], []⟩ (FilePath.join [p.realPath, processingMCP]) =
          some (.ok [⟨[], []⟩]) := if_pos rfl
      rw [configuredIn, hfile]
    rcases p.parseProcessingConfig_configured ⟨[], []⟩ with ⟨hopens, -⟩ | ⟨-, hnone⟩
    · exact hopens
    · rw [h, hreal] at hnone
      cases hnone
  · intro h files
    rw [parseProcessingConfig_eq, configuredIn, configuredIn, h]

section Runs

variable {sharedDir path : Str} {unit : PackageUnit} {isDir : Bool} {db : Rows}
  {h : unit.packageType = .transfer ∨ isDir = true}

-- What no event changes, and where a DIP is all along.
structure Created (sharedDir : Str) (unit : PackageUnit) (path : Str) (s : Life) : Prop where
  dir : s.pkg.sharedDir = joinPath [sharedDir, []]
  kind : s.pkg.unit = unit
  dip : unit = .dip → s.pkg.path = joinPath [replaceFirst (joinPath [sharedDir, []]) sharedPath path, []]

theorem created_create : Created sharedDir unit path (create sharedDir (.watched unit path isDir db h)) := by
  obtain ⟨hpath, hdir, hunit, -⟩ := hydrate_path (newPackage sharedDir unit) path db
  exact ⟨hdir, hunit, fun _ => hpath⟩

theorem created_step {s next : Life} {e : Event} (hs : Created sharedDir unit path s)
    (hstep : step s e = some next) : Created sharedDir unit path next := by
  cases e with
  | moved location isDir =>
      obtain rfl := Option.some.inj hstep
      exact ⟨hs.dir, hs.kind, hs.dip⟩
  | save wl =>
      obtain rfl := Option.some.inj hstep
      have hdir : (s.pkg.reloaded s.location).sharedDir = s.pkg.sharedDir := by
        unfold reloaded
        split <;> rfl
      refine ⟨hdir.trans hs.dir, (unit_reloaded _ _).trans hs.kind, fun hdip => ?_⟩
      have hsame : s.pkg.reloaded s.location = s.pkg := by
        simp only [reloaded, hs.kind, hdip]
      dsimp only
      rw [hsame]
      exact hs.dip hdip

-- The package that a job of a run has once it is saved.
theorem path_of_save {es : List Event} {wl : Workflow.Link} {s : Life}
    (hrun : run step (create sharedDir (.watched unit path isDir db h)) (es ++ [.save wl]) = some s) :
    s.pkg.sharedDir = joinPath [sharedDir, []] ∧ s.pkg.path = kept sharedDir unit path s.location := by
  obtain ⟨before, hbefore, hsave⟩ := (run_snoc_eq_some step).mp hrun
  have hcreated := run_invariant step (Created sharedDir unit path)
    (fun _ _ _ hs hstep => created_step hs hstep) created_create hbefore
  refine ⟨(created_step hcreated hsave).dir, ?_⟩
  obtain rfl := Option.some.inj hsave
  cases hunit : unit with
  | dip => exact (created_step hcreated hsave).dip hunit
  | transfer config =>
      simp only [reloaded, hcreated.kind, hunit, kept, updatePath, hcreated.dir]
  | sip sipType aipFilename =>
      simp only [reloaded, hcreated.kind, hunit, kept, updatePath, hcreated.dir]

end Runs

section Dip

open FilePath

variable {sharedDir path location : Str}

theorem elems_join_processingMCP {dir : Str} (h : dir ≠ []) :
    elems (FilePath.join [dir, processingMCP]) = elems dir ++ [processingMCP] := by
  have htext : ['/'].intercalate [dir, processingMCP] = dir ++ '/' :: ['/'].intercalate [processingMCP] := by
    rw [List.intercalate_cons_of_ne_nil (by simp)]
    simp
  have hjoin : FilePath.join [dir, processingMCP] = clean (['/'].intercalate [dir, processingMCP]) := by
    simp [FilePath.join, h]
  rw [hjoin, elems_clean, htext, elems_append_intercalate h (by simp)]
  intro e he
  rw [List.mem_singleton.mp he]
  exact ⟨by decide, by decide, by decide, by decide⟩

-- The variable stands for all the elements of the shared directory.
theorem not_settled_dip (h : elems sharedDir ≠ []) (hunder : Under sharedDir (path ++ ['/'])) :
    ¬ Settled (joinPath [sharedDir, []]) (kept sharedDir .dip path location) := by
  obtain ⟨rest, hrest, hproper, rfl⟩ := hunder.of_append_sep h
  obtain ⟨es, hes, hfirst, hlength, htext⟩ := exists_elems_sharedPath hrest hproper
  have hkept : kept sharedDir .dip (joinPath [sharedDir, []] ++ ['/'].intercalate rest) location =
      sharedPath ++ (['/'].intercalate rest ++ ['/']) := hydrated_eq h hrest hproper
  have hshort : elems (sharedPath ++ (['/'].intercalate rest ++ ['/'])) = es := by
    rw [← List.append_assoc, htext,
      elems_append_sep (intercalate_ne_nil hes fun e he => (hfirst e he).1),
      elems_intercalate hes hfirst]
  have hlong : elems (joinPath [sharedDir, []] ++ (['/'].intercalate rest ++ ['/'])) =
      elems sharedDir ++ rest := by
    have hdir : render (rooted sharedDir) (elems sharedDir) = clean sharedDir :=
      (clean_eq_render (ne_nil_of_elems h)).symm
    have hne : clean sharedDir ≠ [] := by
      intro hnil
      have helems := elems_clean sharedDir
      rw [hnil] at helems
      exact h helems.symm
    rw [joinPath_dir (ne_nil_of_elems h), hdir, ← List.append_assoc,
      elems_append_sep (by simp [hne]), List.append_assoc]
    change elems (clean sharedDir ++ '/' :: ['/'].intercalate rest) = _
    rw [elems_append_intercalate hne hrest hproper, elems_clean]
  intro hsettled
  rw [hkept, Settled, replaceFirst_append sharedPath_ne_nil] at hsettled
  have helems := congrArg elems hsettled
  rw [elems_join_processingMCP (by simp [sharedPath_ne_nil]),
    elems_join_processingMCP (by simp), hshort, hlong] at helems
  have hcount := congrArg List.length helems
  simp only [List.length_append, hlength] at hcount
  exact h (List.eq_nil_of_length_eq_zero (by omega))

end Dip

section Sees

variable {sharedDir path : Str} {unit : PackageUnit} {isDir : Bool} {db : Rows}
  {h : unit.packageType = .transfer ∨ isDir = true}

theorem settled_of_nothing_left {dir path : Str} (h : ¬ sharedPath <:+: path) : Settled dir path := by
  rw [Settled, replaceFirst_of_absent h]

theorem sees_iff_settled_of_save {es : List Event} {wl : Workflow.Link} {s : Life}
    (hrun : run step (create sharedDir (.watched unit path isDir db h)) (es ++ [.save wl]) = some s) :
    s.pkg.Sees ↔ Settled (joinPath [sharedDir, []]) (kept sharedDir unit path s.location) := by
  obtain ⟨hdir, hpath⟩ := path_of_save hrun
  rw [sees_iff_opens, Opens, realPath, hdir, hpath]
  rfl

-- A job sees the configuration of its package exactly where the path that the package keeps
-- leads to it as it is: never for a DIP of the shared directory, and for a transfer or a SIP
-- at least where nothing is left to replace in its location.
theorem sees_iff_settled {es : List Event} {wl : Workflow.Link} {s : Life}
    (hrun : run step (create sharedDir (.watched unit path isDir db h)) (es ++ [.save wl]) = some s) :
    (s.pkg.Sees ↔ Settled (joinPath [sharedDir, []]) (kept sharedDir unit path s.location)) ∧
      (unit = .dip → FilePath.elems sharedDir ≠ [] → Under sharedDir (path ++ ['/']) →
        ¬ s.pkg.Sees) ∧
      (unit ≠ .dip → ¬ sharedPath <:+: kept sharedDir unit path s.location → s.pkg.Sees) := by
  have hiff := sees_iff_settled_of_save hrun
  refine ⟨hiff, ?_, fun _ hleft => hiff.mpr (settled_of_nothing_left hleft)⟩
  rintro rfl hdir hunder hsees
  exact not_settled_dip hdir hunder (hiff.mp hsees)

end Sees

-- A DIP and a SIP below the shared directory, each with a job.

def uploaded : Str := "/shared/watched/a".toList

def noRows : Rows := ⟨fun _ => none, fun _ => none, ⟨3⟩⟩

def saved (unit : PackageUnit) : Life :=
  let start := create "/shared".toList (.watched unit uploaded true noRows (Or.inr rfl))
  { start with
    pkg := start.pkg.reloaded start.location
    writes := start.writes ++ [(start.real, (jobRow (start.pkg.reloaded start.location) link).directory)] }

theorem run_saved (unit : PackageUnit) :
    run step (create "/shared".toList (.watched unit uploaded true noRows (Or.inr rfl))) ([] ++ [.save link]) =
      some (saved unit) := rfl

theorem sees_iff_settled_sip :
    (saved (.sip [] [])).pkg.Sees ↔ Settled (joinPath ["/shared".toList, []])
      (kept "/shared".toList (.sip [] []) uploaded (saved (.sip [] [])).location) :=
  (sees_iff_settled (run_saved (.sip [] []))).1

theorem under_uploaded : Under "/shared".toList (uploaded ++ ['/']) := by
  refine ⟨["watched".toList, ['a']], by decide, ?_, Or.inr (by decide)⟩
  simp only [List.mem_cons, List.not_mem_nil, or_false, FilePath.Proper]
  rintro e (rfl | rfl) <;> decide

theorem dip_not_seen :
    ¬ ∀ (sharedDir path : Str) (unit : PackageUnit) (db : Rows) (es : List Event)
      (wl : Workflow.Link) (s : Life), Under sharedDir (path ++ ['/']) →
      run step (create sharedDir (.watched unit path true db (Or.inr rfl))) (es ++ [.save wl]) = some s →
        s.pkg.Sees := by
  intro h
  have hsees := h "/shared".toList uploaded .dip noRows [] link _ under_uploaded (run_saved .dip)
  exact not_settled_dip (by decide) under_uploaded
    ((sees_iff_settled_of_save (run_saved .dip)).mp hsees)

end Package

end Ccp
