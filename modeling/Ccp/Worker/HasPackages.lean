import Ccp.Lib.Table
import Ccp.Worker.ExtractContents

namespace Ccp.Worker.HasPackages

open Lib ExtractContents

-- The format policy registry and the formats that files were identified as.

structure FPRule where
  enabled : Bool
  purpose : Str
  format : UUID
  command : UUID

structure RegistryCommand where
  enabled : Bool
  uuid : UUID
  command : FPCommand

structure FileFormatVersion where
  fileUUID : UUID
  formatVersion : Option UUID

structure Registry where
  rules : List FPRule
  commands : List RegistryCommand
  identified : List FileFormatVersion

def extract : Str := "extract".toList

namespace Registry

variable (registry : Registry)

def formats (f : File) : List (Option UUID) :=
  (registry.identified.filter (·.fileUUID = f.uuid)).map (·.formatVersion)

-- FPRule.active with the purpose; no rule is for a format that is null.
def extractRules (format : Option UUID) : List FPRule :=
  registry.rules.filter fun rule =>
    rule.enabled = true ∧ rule.purpose = extract ∧ some rule.format = format

-- FPCommand.active: a row for each rule that joins a command.
def extractCommands (format : UUID) : List FPCommand :=
  (registry.extractRules (some format)).flatMap fun rule =>
    (registry.commands.filter fun c => c.enabled = true ∧ c.uuid = rule.command).map (·.command)

-- There is no value where the call raises.
def isExtractable (f : File) : Option Bool :=
  match Table.get (registry.formats f) with
  | .missing => some false
  | .row format => some (!(registry.extractRules format).isEmpty)
  | .several => none

-- extract_contents passes over a file whatever is wrong with its rows.
def command (f : File) : Table.Got FPCommand :=
  match Table.get (registry.formats f) with
  | .row (some format) => Table.get (registry.extractCommands format)
  | _ => .missing

end Registry

def Extracted (s : State) (f : File) : Bool := f.place.any (alreadyExtracted s f)

section Scripts

variable (registry : Registry) (t : UUID) (r : Run) (s : State)

def scan : List File → Option ℤ
  | [] => some 1
  | f :: files =>
      match registry.isExtractable f with
      | none => none
      | some true => if Extracted s f then scan files else some 0
      | some false => scan files

-- has_packages
def main : Option ℤ := scan registry s (s.rows t)

-- The state, and the files that a command was executed for.
structure Progress where
  state : State
  executed : List UUID

-- There is no value where the turn raises.
def turn (x : Progress) (f : File) : Option Progress :=
  match registry.command f with
  | .missing => some x
  | .several => none
  | .row c =>
      if Extracted x.state f then some x
      else
        let done := ExtractContents.turn t { r with command := fun _ => .row c } x.state f
        if done.raised then none
        else some { state := done.state, executed := x.executed ++ [f.uuid] }

-- extract_contents
def extractContents : Option Progress := run (turn registry t r) ⟨s, []⟩ (s.rows t)

-- Neither script fails, and has_packages finds a package where one is going to be extracted.
def Agree : Prop :=
  ∃ code x, main registry t s = some code ∧ extractContents registry t r s = some x ∧
    (code = 0 ↔ x.executed ≠ [])

-- What a command leaves that is executed for the file and succeeds.
def Leaves (x : Progress) (f : File) : Prop :=
  ∀ c location, registry.command f = .row c → f.place = some location → Extracted x.state f = false →
    (r.exec f location c).exitstatus = 0 → (r.exec f location c).Complete r

-- has_packages stops here, before it looks at any other file.
def Packed (f : File) : Prop := registry.isExtractable f = some true ∧ Extracted s f = false

structure Clear : Prop where
  -- a file of several formats comes after a package
  formats : ∀ front f back, s.rows t = front ++ f :: back → 2 ≤ (registry.formats f).length →
    ∃ g ∈ front, Packed registry s g
  -- no format has two commands to choose from
  commands : ∀ f ∈ s.rows t, ∀ format, registry.formats f = [some format] →
    (registry.extractCommands format).length ≤ 1
  -- what comes out of the packages can be named and measured
  complete : ∀ front f back x, s.rows t = front ++ f :: back →
    run (turn registry t r) ⟨s, []⟩ front = some x → Leaves registry r x f
  -- where there are packages, there is one that has a command
  enabled : (∃ f ∈ s.rows t, Packed registry s f) →
    ∃ f ∈ s.rows t, Extracted s f = false ∧
      ∃ format, registry.formats f = [some format] ∧ registry.extractCommands format ≠ []

end Scripts

variable {registry : Registry} {t : UUID} {r : Run} {s : State} {f : File} {files : List File}
  {x : Progress}

theorem isExtractable_eq_none_iff :
    registry.isExtractable f = none ↔ 2 ≤ (registry.formats f).length := by
  rw [← Table.get_eq_several_iff, Registry.isExtractable]
  cases Table.get (registry.formats f) with
  | missing => simp
  | row format => simp
  | several => simp

theorem command_eq_row_iff {c : FPCommand} : registry.command f = .row c ↔
    ∃ format, registry.formats f = [some format] ∧ registry.extractCommands format = [c] := by
  rw [Registry.command]
  constructor
  · intro h
    rcases hget : Table.get (registry.formats f) with _ | _ | _
    · simp [hget] at h
    · rename_i format
      cases format with
      | none => simp [hget] at h
      | some format =>
          rw [hget] at h
          exact ⟨format, Table.get_eq_row_iff.mp hget, Table.get_eq_row_iff.mp h⟩
    · simp [hget] at h
  · rintro ⟨format, hformats, hcommands⟩
    rw [hformats]
    exact Table.get_eq_row_iff.mpr hcommands

theorem command_eq_several_iff : registry.command f = .several ↔
    ∃ format, registry.formats f = [some format] ∧ 2 ≤ (registry.extractCommands format).length := by
  rw [Registry.command]
  constructor
  · intro h
    rcases hget : Table.get (registry.formats f) with _ | _ | _
    · simp [hget] at h
    · rename_i format
      cases format with
      | none => simp [hget] at h
      | some format =>
          rw [hget] at h
          exact ⟨format, Table.get_eq_row_iff.mp hget, Table.get_eq_several_iff.mp h⟩
    · simp [hget] at h
  · rintro ⟨format, hformats, hcommands⟩
    rw [hformats]
    exact Table.get_eq_several_iff.mpr hcommands

-- A command comes from a rule, which is all that has_packages asks for.
theorem isExtractable_of_command {format : UUID} (hformats : registry.formats f = [some format])
    (h : registry.extractCommands format ≠ []) : registry.isExtractable f = some true := by
  have hrules : registry.extractRules (some format) ≠ [] := by
    rintro hnil
    exact h (by rw [Registry.extractCommands, hnil, List.flatMap_nil])
  rw [Registry.isExtractable, hformats, Table.get]
  simpa using hrules

-- The first file that is a package, or that raises, decides.
def Decided (registry : Registry) (s : State) (files : List File) (result : Option ℤ) : Prop :=
  (result = some 1 ∧ ∀ f ∈ files, registry.isExtractable f ≠ none ∧ ¬ Packed registry s f) ∨
    ∃ front f back, files = front ++ f :: back ∧
      (∀ g ∈ front, registry.isExtractable g ≠ none ∧ ¬ Packed registry s g) ∧
      (result = some 0 ∧ Packed registry s f ∨ result = none ∧ registry.isExtractable f = none)

theorem Decided.cons {result : Option ℤ} (hf : registry.isExtractable f ≠ none ∧ ¬ Packed registry s f)
    (h : Decided registry s files result) : Decided registry s (f :: files) result := by
  rcases h with ⟨hend, hall⟩ | ⟨front, g, back, rfl, hfront, hlast⟩
  · exact Or.inl ⟨hend, List.forall_mem_cons.mpr ⟨hf, hall⟩⟩
  · exact Or.inr ⟨f :: front, g, back, rfl, List.forall_mem_cons.mpr ⟨hf, hfront⟩, hlast⟩

theorem scan_decided (registry : Registry) (s : State) (files : List File) :
    Decided registry s files (scan registry s files) := by
  induction files with
  | nil => exact Or.inl ⟨rfl, by simp⟩
  | cons f files ih =>
      rcases hextractable : registry.isExtractable f with _ | _ | _
      · exact Or.inr ⟨[], f, files, rfl, by simp, Or.inr ⟨by rw [scan, hextractable], hextractable⟩⟩
      · have heq : scan registry s (f :: files) = scan registry s files := by
          rw [scan, hextractable]
        exact heq ▸ ih.cons ⟨by simp [hextractable], by simp [Packed, hextractable]⟩
      · cases hextracted : Extracted s f with
        | true =>
            have heq : scan registry s (f :: files) = scan registry s files := by
              simp [scan, hextractable, hextracted]
            exact heq ▸ ih.cons ⟨by simp [hextractable], by simp [Packed, hextracted]⟩
        | false =>
            have hzero : scan registry s (f :: files) = some 0 := by
              simp [scan, hextractable, hextracted]
            exact Or.inr ⟨[], f, files, rfl, by simp, Or.inl ⟨hzero, hextractable, hextracted⟩⟩

theorem extracted_eq {location : Str} (hplace : f.place = some location) :
    Extracted s f = alreadyExtracted s f location := by
  rw [Extracted, hplace, Option.any_some]

theorem raised_turn_iff {c : FPCommand} {location : Str} (hplace : f.place = some location)
    (hextracted : Extracted s f = false) :
    (ExtractContents.turn t { r with command := fun _ => .row c } s f).raised = false ↔
      ((r.exec f location c).exitstatus = 0 → (r.exec f location c).Complete r) := by
  have hdone : alreadyExtracted s f location = false := (extracted_eq hplace).symm.trans hextracted
  have hexec : Run.exec { r with command := fun _ => .row c } f location c = r.exec f location c := rfl
  simp only [ExtractContents.turn, hplace, hdone, Bool.false_eq_true, if_false, hexec]
  split_ifs with hstatus
  · rw [raised_record_iff]
    exact ⟨fun h _ => ⟨h.files, h.directories, h.removable⟩,
      fun h => ⟨(h hstatus).files, (h hstatus).directories, (h hstatus).removable⟩⟩
  · simp [hstatus]

theorem turn_eq_none_iff (hplace : f.place.isSome) :
    turn registry t r x f = none ↔ registry.command f = .several ∨ ¬ Leaves registry r x f := by
  obtain ⟨location, hlocation⟩ := Option.isSome_iff_exists.mp hplace
  rw [turn, Leaves]
  rcases hcommand : registry.command f with _ | c | _
  · simp
  · cases hextracted : Extracted x.state f with
    | true => simp
    | false =>
        have hraised := raised_turn_iff (t := t) (r := r) (c := c) hlocation hextracted
        have hleaves : (∀ c' location', Table.Got.row c = .row c' → f.place = some location' →
            false = false → (r.exec f location' c').exitstatus = 0 → (r.exec f location' c').Complete r) ↔
              ((r.exec f location c).exitstatus = 0 → (r.exec f location c).Complete r) := by
          simp [hlocation]
        rw [hleaves, ← hraised, Bool.not_eq_false]
        simp
  · simp

theorem turn_eq_some {y : Progress} (h : turn registry t r x f = some y) :
    (y = x ∧ (Extracted x.state f = true ∨ ∀ c, registry.command f ≠ .row c)) ∨
      (Extracted x.state f = false ∧ (∃ c, registry.command f = .row c) ∧ y.executed ≠ []) := by
  rw [turn] at h
  rcases hcommand : registry.command f with _ | c | _
  · rw [hcommand] at h
    exact Or.inl ⟨(Option.some.inj h).symm, Or.inr (by simp)⟩
  · cases hextracted : Extracted x.state f with
    | true =>
        simp only [hcommand, hextracted, if_true] at h
        exact Or.inl ⟨(Option.some.inj h).symm, Or.inl rfl⟩
    | false =>
        simp only [hcommand, hextracted, Bool.false_eq_true, if_false] at h
        split_ifs at h
        obtain rfl := Option.some.inj h
        exact Or.inr ⟨rfl, ⟨c, rfl⟩, by simp⟩
  · rw [hcommand] at h
    cases h

-- Until a command is executed the state is that of the start, so the first one is decided there.
theorem executed_run {y : Progress} (h : run (turn registry t r) x files = some y) :
    y.executed ≠ [] ↔ x.executed ≠ [] ∨
      ∃ f ∈ files, Extracted x.state f = false ∧ ∃ c, registry.command f = .row c := by
  induction files generalizing x with
  | nil =>
      obtain rfl := Option.some.inj h
      simp
  | cons f files ih =>
      rw [List.exists_mem_cons_iff]
      obtain ⟨x', hturn, hrest⟩ := Option.bind_eq_some_iff.mp h
      rcases turn_eq_some hturn with ⟨rfl, hpassed⟩ | ⟨hextracted, hrow, hexecuted⟩
      · have hnot : ¬ (Extracted x'.state f = false ∧ ∃ c, registry.command f = .row c) := by
          rintro ⟨hextracted, c, hrow⟩
          rcases hpassed with htrue | hnone
          · simp [htrue] at hextracted
          · exact hnone c hrow
        rw [ih hrest, or_iff_right hnot]
      · exact ⟨fun _ => Or.inr (Or.inl ⟨hextracted, hrow⟩),
          fun _ => (ih hrest).mpr (Or.inl hexecuted)⟩

theorem main_eq_some_iff : (∃ code, main registry t s = some code) ↔
    ∀ front f back, s.rows t = front ++ f :: back → 2 ≤ (registry.formats f).length →
      ∃ g ∈ front, Packed registry s g := by
  simp only [← isExtractable_eq_none_iff]
  rcases scan_decided registry s (s.rows t) with ⟨hend, hall⟩ |
      ⟨front, f, back, hrows, hfront, ⟨hscan, hpacked⟩ | ⟨hscan, hnone⟩⟩
  · refine iff_of_true ⟨1, hend⟩ fun front f back hrows hnone => ?_
    exact absurd hnone (hall f (by simp [hrows])).1
  · refine iff_of_true ⟨0, hscan⟩ fun front' g back' hrows' hnone => ?_
    -- the package comes first
    rw [hrows] at hrows'
    rcases List.append_eq_append_iff.mp hrows' with ⟨more, rfl, hmore⟩ | ⟨more, rfl, hmore⟩
    · cases more with
      | nil =>
          obtain ⟨rfl, -⟩ := List.cons.inj hmore
          rw [hpacked.1] at hnone
          cases hnone
      | cons g' more =>
          obtain ⟨rfl, -⟩ := List.cons.inj hmore
          exact ⟨f, by simp, hpacked⟩
    · cases more with
      | nil =>
          obtain ⟨rfl, -⟩ := List.cons.inj hmore
          rw [hpacked.1] at hnone
          cases hnone
      | cons g' more =>
          obtain ⟨rfl, -⟩ := List.cons.inj hmore
          exact absurd hnone (hfront g (by simp)).1
  · refine iff_of_false ?_ fun h => ?_
    · rintro ⟨code, hcode⟩
      rw [main, hscan] at hcode
      cases hcode
    · obtain ⟨g, hg, hpacked⟩ := h front f back hrows hnone
      exact (hfront g hg).2 hpacked

theorem main_eq_zero_iff {code : ℤ} (h : main registry t s = some code) :
    code = 0 ↔ ∃ f ∈ s.rows t, Packed registry s f := by
  rcases scan_decided registry s (s.rows t) with ⟨hend, hall⟩ |
      ⟨front, f, back, hrows, -, ⟨hscan, hpacked⟩ | ⟨hscan, -⟩⟩
  · obtain rfl := Option.some.inj (hend.symm.trans h)
    refine iff_of_false (by decide) ?_
    rintro ⟨f, hf, hpacked⟩
    exact (hall f hf).2 hpacked
  · obtain rfl := Option.some.inj (hscan.symm.trans h)
    exact iff_of_true rfl ⟨f, by simp [hrows], hpacked⟩
  · rw [main, hscan] at h
    cases h

theorem extractContents_eq_some_iff : (∃ x, extractContents registry t r s = some x) ↔
    (∀ f ∈ s.rows t, ∀ format, registry.formats f = [some format] →
      (registry.extractCommands format).length ≤ 1) ∧
    ∀ front f back x, s.rows t = front ++ f :: back →
      run (turn registry t r) ⟨s, []⟩ front = some x → Leaves registry r x f := by
  have hone : (∀ f ∈ s.rows t, ∀ format, registry.formats f = [some format] →
      (registry.extractCommands format).length ≤ 1) ↔ ∀ f ∈ s.rows t, registry.command f ≠ .several := by
    simp only [Ne, command_eq_several_iff, not_exists, not_and, not_le, Nat.lt_succ_iff]
  have hturn : ∀ {front f back x}, s.rows t = front ++ f :: back →
      (turn registry t r x f ≠ none ↔ registry.command f ≠ .several ∧ Leaves registry r x f) := by
    intro front f back x hrows
    have hmem : f ∈ s.rows t := hrows ▸ by simp
    rw [Ne, turn_eq_none_iff (mem_rows.mp hmem).2.2, not_or, not_not]
  rw [extractContents, hone]
  constructor
  · rintro ⟨final, hrun⟩
    have hsteps := (exists_run_iff _).mp ⟨final, hrun⟩
    refine ⟨fun f hf => ?_, fun front f back x hrows hfront =>
      ((hturn hrows).mp (hsteps front f back x hrows hfront)).2⟩
    obtain ⟨front, back, hrows⟩ := List.append_of_mem hf
    rw [hrows, run_append] at hrun
    obtain ⟨mid, hfront, -⟩ := Option.bind_eq_some_iff.mp hrun
    exact ((hturn hrows).mp (hsteps front f back mid hrows hfront)).1
  · rintro ⟨hcommands, hleaves⟩
    refine (exists_run_iff _).mpr fun front f back x hrows hfront => (hturn hrows).mpr ⟨?_, ?_⟩
    · exact hcommands f (hrows ▸ by simp)
    · exact hleaves front f back x hrows hfront

theorem packages_agree_iff : Agree registry t r s ↔ Clear registry t r s := by
  have hone : (∀ f ∈ s.rows t, ∀ format, registry.formats f = [some format] →
      (registry.extractCommands format).length ≤ 1) → ∀ f ∈ s.rows t,
        ((∃ c, registry.command f = .row c) ↔
          ∃ format, registry.formats f = [some format] ∧ registry.extractCommands format ≠ []) := by
    intro hcommands f hf
    constructor
    · rintro ⟨c, hrow⟩
      obtain ⟨format, hformats, hcommand⟩ := command_eq_row_iff.mp hrow
      exact ⟨format, hformats, by simp [hcommand]⟩
    · rintro ⟨format, hformats, hne⟩
      have hlength := hcommands f hf format hformats
      obtain ⟨c, hcommand⟩ := List.length_eq_one_iff.mp
        (le_antisymm hlength (List.length_pos_iff.mpr hne))
      exact ⟨c, command_eq_row_iff.mpr ⟨format, hformats, hcommand⟩⟩
  constructor
  · rintro ⟨code, x, hmain, hextract, hiff⟩
    obtain ⟨hcommands, hcomplete⟩ := extractContents_eq_some_iff.mp ⟨x, hextract⟩
    refine ⟨main_eq_some_iff.mp ⟨code, hmain⟩, hcommands, hcomplete, fun hpacked => ?_⟩
    have hexecuted := hiff.mp ((main_eq_zero_iff hmain).mpr hpacked)
    obtain hnil | ⟨f, hf, hextracted, hrow⟩ := (executed_run hextract).mp hexecuted
    · exact absurd rfl hnil
    · exact ⟨f, hf, hextracted, (hone hcommands f hf).mp hrow⟩
  · intro h
    obtain ⟨code, hmain⟩ := main_eq_some_iff.mpr h.formats
    obtain ⟨x, hextract⟩ := extractContents_eq_some_iff |>.mpr ⟨h.commands, h.complete⟩
    refine ⟨code, x, hmain, hextract, ?_⟩
    rw [main_eq_zero_iff hmain, executed_run hextract]
    constructor
    · intro hpacked
      obtain ⟨f, hf, hextracted, hformat⟩ := h.enabled hpacked
      exact Or.inr ⟨f, hf, hextracted, (hone h.commands f hf).mpr hformat⟩
    · rintro (hnil | ⟨f, hf, hextracted, hrow⟩)
      · exact absurd rfl hnil
      · obtain ⟨format, hformats, hne⟩ := (hone h.commands f hf).mp hrow
        exact ⟨f, hf, isExtractable_of_command hformats hne, hextracted⟩

-- A rule whose command was disabled: the package is found, and nothing is extracted.
namespace Disabled

def zip : File := ⟨⟨1⟩, ⟨0⟩, [], some (transferDirectory ++ "objects/a.zip".toList)⟩

def policies : Registry where
  rules := [⟨true, extract, ⟨5⟩, ⟨6⟩⟩]
  commands := [⟨false, ⟨6⟩, ⟨.command, "unar -o %outputDirectory% %inputFile%".toList⟩⟩]
  identified := [⟨⟨1⟩, some ⟨5⟩⟩]

def state : State := ⟨[zip], [], []⟩

theorem found_and_not_extracted (r : Run) :
    main policies ⟨0⟩ state = some 0 ∧
      extractContents policies ⟨0⟩ r state = some ⟨state, []⟩ := by
  constructor
  · decide
  · rfl

theorem disagree : ¬ ∀ r, Agree policies ⟨0⟩ r state := by
  intro h
  let r : Run := ⟨[], [], false, false, [], [], [], fun _ => .missing, fun _ _ _ => ⟨0, [], true, true⟩⟩
  obtain ⟨code, x, hmain, hextract, hiff⟩ := h r
  obtain ⟨hzero, hnothing⟩ := found_and_not_extracted r
  obtain rfl := Option.some.inj (hzero.symm.trans hmain)
  obtain rfl := Option.some.inj (hnothing.symm.trans hextract)
  exact hiff.mp rfl rfl

end Disabled

end Ccp.Worker.HasPackages
