import Ccp.Job.FilesClientScript
import Ccp.Job.Lemmas
import Ccp.Store.CreateUnitVar

namespace Ccp

open Lib Workflow

namespace FilterSubdir

-- What the embedded interpreter gives for an expression, as far as a dictionary of
-- strings is read from it.
inductive Value
  | string (s : Str)
  | dict (items : List (Value × Value))
  | other

def Value.asString : Value → Option Str
  | .string s => some s
  | _ => none

-- An item counts where its key and its value are strings.
def collect (result : GoMap Str Str) (item : Value × Value) : GoMap Str Str :=
  match item.1.asString, item.2.asString with
  | some key, some value => result.insert key value
  | _, _ => result

section Evaluator

-- The interpreter: the value of a text, none where it does not parse or evaluate.
variable (eval : Str → Option Value)

def evalMap (literal : Str) : Option (GoMap Str Str) :=
  match eval literal with
  | some (.dict items) => some (items.foldl collect ∅)
  | _ => none

-- What a stored value says of the subdirectory.
def override (val : Str) : Option Str :=
  (evalMap eval val).bind fun m => m.lookup "filterSubDir".toList

-- The subdirectory that a files link should get with the row of its variable.
def wanted (config : LinkStandardTaskConfig) : Option UnitVars.Row → Str
  | none => config.filterSubdir
  | some r =>
      if r.readValue = [] then config.filterSubdir
      else (override eval r.readValue).getD config.filterSubdir

end Evaluator

-- ReadUnitVar, with the row that the database gives.
def readUnitVar : Option UnitVars.Row → StoreRead Str
  | none => .notFound
  | some r => .found r.readValue

-- A package's variable is named after the script of the link.
def key (fold : Str → Str) (p : Package) (config : LinkStandardTaskConfig) : UnitVars.Key :=
  UnitVars.Key.folded fold ⟨p.packageType.string, p.id.string, config.execute⟩

-- What the store and the interpreter answer the job, with the row of the link's variable.
structure Answered (fold : Str → Str) (rows : List UnitVars.Row) (eval : Str → Option Value)
    (p : Package) (config : LinkStandardTaskConfig) (found : Option UnitVars.Row) (a : Answers) :
    Prop where
  read : UnitVars.Reads fold rows (key fold p config) found
  store : a.filterSubDir = readUnitVar found
  map : a.evalMap = evalMap eval

section Job

variable (a : Answers) (order : FilesClientScript.RangeOrders) (config : LinkStandardTaskConfig)
  (p : Package) (cwd : Str) (stat : Str → Bool) (root : WalkDir.Root)
  (replacements : Str → ReplacementMapping) (readFiles : Str → Except String (List StoreFile))

-- The tasks of the files of a subdirectory.
def tasksIn (filterSubdir : Str) : M (List TaskBackend.Request) := do
  let files ← ofExcept (p.files cwd stat root config.filterFileEnd filterSubdir
    (readFiles filterSubdir))
  return FilesClientScript.submitTasks order config (replacements filterSubdir) files

-- What the job submits.
def submitted : M (List TaskBackend.Request) := do
  let filterSubdir ← withContext "look up filterSubDir" (filterSubDir a config)
  withContext "submit task" (tasksIn order config p cwd stat root replacements readFiles filterSubdir)

-- The subdirectory that is looked up, and the files of which are submitted.
structure Processes (w : World) (dir : Str) : Prop where
  lookup : filterSubDir a config w = .ok dir w
  files : submitted a order config p cwd stat root replacements readFiles w =
    withContext "submit task" (tasksIn order config p cwd stat root replacements readFiles dir) w

end Job

section Lookup

variable {a : Answers} {eval : Str → Option Value} {order : FilesClientScript.RangeOrders}
  {config : LinkStandardTaskConfig} {p : Package} {cwd : Str} {stat : Str → Bool}
  {root : WalkDir.Root} {replacements : Str → ReplacementMapping}
  {readFiles : Str → Except String (List StoreFile)} {found : Option UnitVars.Row} {w : World}

-- A value that evaluates is not looked into, and one that does not has nothing in it.
theorem filterSubDir_eq (hstore : a.filterSubDir = readUnitVar found) :
    filterSubDir a config w = .ok config.filterSubdir w := by
  cases found with
  | none => rw [filterSubDir, hstore]; rfl
  | some r =>
      rw [filterSubDir, hstore]
      simp only [readUnitVar]
      split_ifs
      · rfl
      · cases a.evalMap r.readValue <;> rfl

theorem processes_of_lookup {dir : Str} (h : filterSubDir a config w = .ok dir w) :
    Processes a order config p cwd stat root replacements readFiles w dir := by
  refine ⟨h, ?_⟩
  have hdir : withContext "look up filterSubDir" (filterSubDir a config) w = .ok dir w := by
    rw [withContext, h]
  change EStateM.bind _ _ w = _
  rw [EStateM.bind, hdir]

theorem wanted_eq_iff :
    wanted eval config found = config.filterSubdir ↔
      ∀ r, found = some r → r.readValue ≠ [] → ∀ dir, override eval r.readValue = some dir →
        dir = config.filterSubdir := by
  cases found with
  | none => simp [wanted]
  | some r =>
      rw [wanted]
      by_cases hval : r.readValue = []
      · simp [hval]
      · cases hdir : override eval r.readValue <;> simp [hval, hdir]

-- The configured subdirectory is taken whatever the variable says.
theorem processes_wanted_iff {fold : Str → Str} {rows : List UnitVars.Row}
    (ha : Answered fold rows eval p config found a) :
    Processes a order config p cwd stat root replacements readFiles w (wanted eval config found) ↔
      ∀ r, found = some r → r.readValue ≠ [] → ∀ dir, override eval r.readValue = some dir →
        dir = config.filterSubdir := by
  rw [← wanted_eq_iff]
  constructor
  · intro h
    have hlookup := h.lookup
    rw [filterSubDir_eq ha.store] at hlookup
    injection hlookup with hdir
    exact hdir.symm
  · intro hwanted
    rw [hwanted]
    exact processes_of_lookup (filterSubDir_eq ha.store)

end Lookup

-- A transfer with attachments, whose variable for the normalization script is that of the
-- workflow's own link.
namespace Attachments

def config : LinkStandardTaskConfig where
  arguments := "preservation \"%fileUUID%\"".toList
  execute := "normalize_v1.0".toList
  filterFileEnd := []
  filterSubdir := "objects/".toList
  stderrFile := []
  stdoutFile := []

def literal : Str := "\x7b'filterSubDir':'objects/attachments'\x7d".toList

def eval (text : Str) : Option Value :=
  if text = literal then
    some (.dict [(.string "filterSubDir".toList, .string "objects/attachments".toList)])
  else none

def row : UnitVars.Row where
  pk := ⟨3⟩
  unitType := some "Transfer".toList
  unitUUID := some (UUID.string ⟨5⟩)
  name := some "normalize_v1.0".toList
  value := some literal
  linkID := none

def answers : Answers := { quiet with filterSubDir := .found literal, evalMap := evalMap eval }

def world : World where
  pkg := Package.Leaf.transfer
  status := .processing
  jobs := ∅
  nextLink := UUID.nil
  chain := none
  context := []
  recorded := false

theorem answered : Answered id [row] eval Package.Leaf.transfer config (some row) answers where
  read := by decide +kernel
  store := rfl
  map := rfl

theorem override_literal : override eval row.readValue = some "objects/attachments".toList := by
  decide +kernel

theorem processes_wanted_iff_attachments :
    Processes answers (fun rm => rm.entries.toList) config Package.Leaf.transfer [] Package.Leaf.stat
        Package.Leaf.root (fun _ => ∅) (fun _ => .ok []) world (wanted eval config (some row)) ↔
      ∀ r, some row = some r → r.readValue ≠ [] → ∀ dir, override eval r.readValue = some dir →
        dir = config.filterSubdir :=
  processes_wanted_iff answered

theorem objects_for_attachments :
    Answered id [row] eval Package.Leaf.transfer config (some row) answers ∧
      wanted eval config (some row) = "objects/attachments".toList ∧
      filterSubDir answers config world = .ok "objects/".toList world ∧
      ¬ Processes answers (fun rm => rm.entries.toList) config Package.Leaf.transfer []
        Package.Leaf.stat Package.Leaf.root (fun _ => ∅) (fun _ => .ok []) world
        (wanted eval config (some row)) := by
  have hwanted : wanted eval config (some row) = "objects/attachments".toList := by
    rw [wanted, override_literal]
    decide +kernel
  have hdir : filterSubDir answers config world = .ok "objects/".toList world :=
    filterSubDir_eq answered.store
  refine ⟨answered, hwanted, hdir, fun h => ?_⟩
  have hlookup := h.lookup
  rw [hdir, hwanted] at hlookup
  injection hlookup with hne
  revert hne
  decide

end Attachments

end FilterSubdir

end Ccp
