import Ccp.Decision
import Ccp.Package
import Ccp.Workflow

namespace Ccp

open Lib Workflow

-- What ends a call with an error. Texts are kept for those that nothing tests for.
inductive Err
  | canceled
  | eof
  | terminator
  | wait (decision : Decision) (updatesContext : Bool)
  | failed (text : String)
  -- the answers give an order that no range loop takes
  | noOrder
deriving DecidableEq

-- Context added to an error that keeps what it wraps.
def Err.wrap (context : String) : Err → Err
  | .failed text => .failed (context ++ ": " ++ text)
  | err => err

inductive JobStep
  | unknown
  | awaitingDecision
  | completedSuccessfully
  | executingCommands
  | failed
deriving DecidableEq

structure JobRow where
  type : Str
  directory : Str
  sipID : UUID
  unitType : String
  currentStep : JobStep
  microserviceGroup : Str
  linkID : UUID
deriving DecidableEq

-- What one package's goroutine changes, in memory and in the store.
structure World where
  pkg : Package
  -- the stored status of the package and its stored jobs
  status : PackageStatus
  jobs : GoMap UUID JobRow
  nextLink : UUID
  chain : Option Chain
  -- the context of the chain, an ordered map
  context : List (Str × Str)
  -- finalStatusRecorded of the job being executed
  recorded : Bool

abbrev M := EStateM Err World

inductive StoreWrite
  | packageStatus (status : PackageStatus)
  | createJob (id : UUID) (row : JobRow)
  | jobStatus (id : UUID) (status : String)
  | unitVar (name value : Str) (linkID : UUID)
deriving DecidableEq

inductive StoreRead (α : Type)
  | found (a : α)
  | notFound
  | failed (text : String)
deriving DecidableEq

structure TaskResult where
  exitCode : Int
  finishedAt : Str
  stdout : Str
  stderr : Str
deriving DecidableEq

-- What the outside answers during one call: the store, the file system, the
-- workers, the clock's and the random generator's identifiers, the order of the
-- range loops.
structure Answers where
  ctxErr : Bool
  -- the error of a write, if it has one
  write : StoreWrite → Option String
  -- replacementDict variables, none where there is no dictionary to read
  unitVars : Except String (List (Option (List (Str × Str))))
  transferLocation : Except String Str
  processingConfiguration : StoreRead Str
  sip : Except String (Str × Str × Str)
  processingConfig : Except String (List Workflow.Choice)
  dict : Except String (GoMap Str Str)
  unitLinkID : StoreRead UUID
  filterSubDir : StoreRead Str
  evalMap : Str → Option (GoMap Str Str)
  -- of submitTasks, in the order of the range loop over them
  taskResults : Except String (List TaskResult)
  jobID : UUID
  decisionID : UUID
  -- keys of a dictionary in the order in which formatChoices visits them
  visits : GoMap Str Str → List Str
  -- the first key of the items of each replacement
  firstItem : Nat → Str
  -- entries of a dictionary in the order in which chain.update visits them
  entries : GoMap Str Str → List (Str × Str)

-- Store.

def JobStep.ofStatus (status : String) : Option JobStep :=
  if status = "Unknown" ∨ status = "STATUS_UNKNOWN" ∨ status = "" then some .unknown
  else if status = "Awaiting decision" ∨ status = "STATUS_AWAITING_DECISION" then
    some .awaitingDecision
  else if status = "Completed successfully" ∨ status = "STATUS_COMPLETED_SUCCESSFULLY" then
    some .completedSuccessfully
  else if status = "Executing command(s)" ∨ status = "STATUS_EXECUTING_COMMANDS" then
    some .executingCommands
  else if status = "Failed" ∨ status = "STATUS_FAILED" then some .failed
  else none

-- The check that the store makes of a write before it sends it.
def StoreWrite.invalid : StoreWrite → Option String
  | .packageStatus _ => none
  | .createJob _ _ => none
  | .jobStatus _ status =>
      if JobStep.ofStatus status = none then some ("unknown status: " ++ status.quote) else none
  | .unitVar _ value linkID =>
      if value = [] ∧ linkID = UUID.nil then some "both value and linkID are zero"
      else if value ≠ [] ∧ linkID ≠ UUID.nil then some "both value and linkID are non-zero"
      else none

def setStep (jobs : GoMap UUID JobRow) (id : UUID) (step : JobStep) : GoMap UUID JobRow :=
  match jobs.lookup id with
  | none => jobs
  | some row => jobs.insert id { row with currentStep := step }

-- Unit variables are read through the answers only.
def StoreWrite.apply : StoreWrite → World → World
  | .packageStatus status, w => { w with status := status }
  | .createJob id row, w => { w with jobs := w.jobs.insert id row }
  | .jobStatus id status, w =>
      match JobStep.ofStatus status with
      | none => w
      | some step => { w with jobs := setStep w.jobs id step }
  | .unitVar _ _ _, w => w

def write (a : Answers) (op : StoreWrite) : M Unit := fun w =>
  match op.invalid with
  | some text => .error (.failed text) w
  | none =>
      match a.write op with
      | some text => .error (.failed text) w
      | none => .ok () (op.apply w)

-- fmt.Errorf("context: %v", err) on a call that fails.
def withContext {α : Type} (context : String) (x : M α) : M α := fun w =>
  match x w with
  | .ok a w' => .ok a w'
  | .error err w' => .error (err.wrap context) w'

-- Loading of the context.

def percent (key : Str) : Str := '%' :: key ++ ['%']

-- The loop of formatChoices changes the map it ranges over: an entry that it adds
-- may be visited or not, one that was there and is still there has to be.
def formatLoop : List Str → GoMap Str Str → Finset Str → Option (GoMap Str Str)
  | [], m, left => if left = ∅ then some m else none
  | k :: ks, m, left =>
      match m.lookup k with
      | none => none
      | some v => formatLoop ks ((m.erase k).insert (percent k) v) (left.erase k)

def formatChoices (a : Answers) (choices : GoMap Str Str) : M (GoMap Str Str) := fun w =>
  match formatLoop (a.visits choices) choices choices.keys with
  | none => .error .noOrder w
  | some formatted => .ok formatted w

-- Set of the ordered map: a key that is there keeps its place.
def setContext (context : List (Str × Str)) (key value : Str) : List (Str × Str) :=
  if context.any (·.1 = key) then context.map fun e => if e.1 = key then (key, value) else e
  else context ++ [(key, value)]

def updateChain (a : Answers) (dict : GoMap Str Str) : M Unit := fun w =>
  if GoMap.RangeOrder dict ((a.entries dict).map fun e => ⟨e.1, e.2⟩) then
    .ok () { w with context := (a.entries dict).foldl (fun c e => setContext c e.1 e.2) w.context }
  else .error .noOrder w

def loadChain (a : Answers) : M Unit := fun w =>
  match a.unitVars with
  | .error text => .error (.failed text) w
  | .ok vars =>
      let pairs := vars.reduceOption.flatten
      .ok () { w with context := pairs.foldl (fun c e => setContext c e.1 e.2) w.context }

-- Runners.

inductive Runner
  | nextChainDecisionJob (choices : List UUID)
  | updateContextDecisionJob (replacements : List ConfigReplacement)
  | directoryClientScriptJob (config : LinkStandardTaskConfig)
  | filesClientScriptJob (config : LinkStandardTaskConfig)
  | setUnitVarLinkJob (name : Str) (linkID : UUID)
  | getUnitVarLinkJob (name : Str) (linkID : UUID)

def incompatible : String := "config provided is not compatible with its type"

def newJob (wl : Link) : Except String Runner :=
  match wl.manager with
  | "linkTaskManagerChoice" =>
      match wl.config with
      | .microServiceChainChoice choices => .ok (.nextChainDecisionJob choices)
      | _ => .error incompatible
  | "linkTaskManagerReplacementDicFromChoice" =>
      match wl.config with
      | .microServiceChoiceReplacementDic replacements => .ok (.updateContextDecisionJob replacements)
      | _ => .error incompatible
  | "linkTaskManagerDirectories" =>
      match wl.config with
      | .standardTaskConfig config => .ok (.directoryClientScriptJob config)
      | _ => .error incompatible
  | "linkTaskManagerFiles" =>
      match wl.config with
      | .standardTaskConfig config => .ok (.filesClientScriptJob config)
      | _ => .error incompatible
  | "linkTaskManagerSetUnitVariable" =>
      match wl.config with
      | .taskConfigSetUnitVariable name linkID => .ok (.setUnitVarLinkJob name linkID)
      | _ => .error incompatible
  | "linkTaskManagerUnitVariableLinkPull" =>
      match wl.config with
      | .taskConfigUnitVariableLinkPull name linkID => .ok (.getUnitVarLinkJob name linkID)
      | _ => .error incompatible
  | manager => .error ("unknown job manager: " ++ manager.quote)

def exitCodeLinkID (l : Link) (code : Int) : UUID :=
  let ret := match l.exitCodes.lookup code with
    | some ec => ec.linkID.getD UUID.nil
    | none => UUID.nil
  if ret = UUID.nil then l.fallbackLinkID else ret

def createAwait {α : Type} (a : Answers) (wl : Link) (choices : List Choice)
    (updatesContext : Bool) : M α :=
  throw (.wait ⟨a.decisionID, wl.description.string, choices, a.jobID⟩ updatesContext)

def ofExcept {α : Type} : Except String α → M α
  | .ok x => pure x
  | .error text => throw (.failed text)

-- The first choice for the link in the processing configuration.
def preconfiguredChoice (a : Answers) (linkID : UUID) : M Str := do
  let choices ← ofExcept a.processingConfig
  return ((choices.find? fun c => c.linkID = linkID).map (·.goToChain)).getD []

def parseUUID (s : Str) : M UUID :=
  match UUID.parse s with
  | some id => pure id
  | none => throw (.failed (UUID.parseError s))

def chainChoices (wf : Document) (items : List UUID) : List Choice :=
  items.filterMap fun item =>
    (wf.chains.lookup item).map fun ch => ⟨ch.description.string, ([], []), item⟩

def execNextChainDecision (wf : Document) (a : Answers) (wl : Link) (choices : List UUID) :
    M UUID := do
  let chainID ← preconfiguredChoice a wl.id
  if chainID = [] then createAwait a wl (chainChoices wf choices) false
  else
    let cid ← parseUUID chainID
    -- any of the choices being a chain will do, not the one that was asked for
    if choices.any (wf.chains.lookup · |>.isSome) then return cid
    else throw (.failed ("choice " ++ String.ofList chainID ++
      " is not one of the available choices"))

-- Decision points and answers that stand for one another.
def choiceMapping : List (UUID × UUID) := [
  (⟨0x8882bad4561c412689c9f7f0c083d5d7⟩, ⟨0xbd899573694e4d338c9bdf0af802437d⟩),
  (⟨0xe10a31c356df4986af7e2794ddfe8686⟩, ⟨0xbd899573694e4d338c9bdf0af802437d⟩),
  (⟨0xd6f6f5db4cc2465292839ec6a6d181e5⟩, ⟨0xbd899573694e4d338c9bdf0af802437d⟩),
  (⟨0x1563f22ff5f74dfea9266ab50d408832⟩, ⟨0xbd899573694e4d338c9bdf0af802437d⟩),
  (⟨0x7e4cf404e62d4dc28d816141e390f66f⟩, ⟨0x2dc3f487e4b04e07a4b36216ed24ca14⟩),
  (⟨0x2732a043b1974cbc81ab4e2bee9b74d3⟩, ⟨0x2dc3f487e4b04e07a4b36216ed24ca14⟩),
  (⟨0xaa793efa1b62498c8f92cab187a99a2a⟩, ⟨0x2dc3f487e4b04e07a4b36216ed24ca14⟩),
  (⟨0xefd98ddb80a6420680bf81bf00f84416⟩, ⟨0x2dc3f487e4b04e07a4b36216ed24ca14⟩),
  (⟨0x0053c6703e614a3ea1883a2dd1eda426⟩, ⟨0x891f60d01ba848d3b39edd0934635d29⟩),
  (⟨0x8e93e52386bb47e1a03a4b33e13f8c5e⟩, ⟨0x891f60d01ba848d3b39edd0934635d29⟩),
  (⟨0x6dfbeff8c6b1435b833aed764229d413⟩, ⟨0x891f60d01ba848d3b39edd0934635d29⟩),
  (⟨0xdc0ee6b6ed5f42a3bc8fc9c7ead03ed1⟩, ⟨0x891f60d01ba848d3b39edd0934635d29⟩)]

def canonical (id : UUID) : UUID := (choiceMapping.lookup id).getD id

def loadDatabaseContext (wf : Document) (a : Answers) (wl : Link) : M (GoMap Str Str) :=
  match wf.links.lookup wl.fallbackLinkID with
  | some ⟨_, _, .standardTaskConfig config, _, _, _, _, _, _⟩ =>
      if config.execute = [] then pure ∅
      else do
        let dict ← ofExcept a.dict
        formatChoices a dict
  | _ => pure ∅

-- One turn of the loop over the preconfigured choices that apply.
def applyChoice (wf : Document) (a : Answers) (normalized : UUID) (ret : GoMap Str Str)
    (choice : Workflow.Choice) : M (GoMap Str Str) := do
  let parsed ← parseUUID choice.goToChain
  let desired := canonical parsed
  match wf.links.lookup normalized with
  | none => throw (.failed ("desired choice not found: " ++ String.ofList desired.string))
  | some ln =>
      match ln.config with
      | .microServiceChoiceReplacementDic replacements =>
          match replacements.find? (·.id = desired) with
          | some replacement => formatChoices a replacement.items
          | none => return ret
      | _ => throw (.failed ("desired choice doesn't have the expected type: " ++
          String.ofList desired.string))

def loadPreconfiguredContext (wf : Document) (a : Answers) (wl : Link) : M (GoMap Str Str) := do
  let normalized := canonical wl.id
  let choices ← ofExcept a.processingConfig
  (choices.filter (·.appliesTo = normalized.string)).foldlM (applyChoice wf a normalized) ∅

-- The value is the first pair that a range loop over the items meets.
def replacementChoice (a : Answers) (wl : Link) (item : ConfigReplacement) (i : Nat) :
    Option Choice :=
  let choice (value : Str × Str) : Choice := ⟨item.description.string, value, exitCodeLinkID wl 0⟩
  match item.items.lookup (a.firstItem i) with
  | some v => some (choice (a.firstItem i, v))
  | none => if item.items = ∅ then some (choice ([], [])) else none

-- A dictionary with entries is enough to go on.
def useContext (a : Answers) (wl : Link) (dict : GoMap Str Str) (otherwise : M UUID) : M UUID :=
  if dict = ∅ then otherwise
  else do
    updateChain a dict
    return exitCodeLinkID wl 0

def awaitReplacement (a : Answers) (wl : Link) (replacements : List ConfigReplacement) : M UUID :=
  match replacements.zipIdx.mapM fun item => replacementChoice a wl item.1 item.2 with
  | none => throw .noOrder
  | some choices => createAwait a wl choices true

-- Two links of the workflow have no replacements of their own.
def databaseContext (wf : Document) (a : Answers) (wl : Link)
    (replacements : List ConfigReplacement) : M (GoMap Str Str) :=
  if replacements = [] then withContext "load dict from db" (loadDatabaseContext wf a wl)
  else pure ∅

def execPreconfigured (wf : Document) (a : Answers) (wl : Link)
    (replacements : List ConfigReplacement) : M UUID := do
  let dict ← withContext "load context with preconfigured choice" (loadPreconfiguredContext wf a wl)
  useContext a wl dict (awaitReplacement a wl replacements)

def execUpdateContextDecision (wf : Document) (a : Answers) (wl : Link)
    (replacements : List ConfigReplacement) : M UUID := do
  let dict ← databaseContext wf a wl replacements
  useContext a wl dict (execPreconfigured wf a wl replacements)

def processTaskResults (results : List TaskResult) : Int :=
  results.foldl (fun max r => if max < r.exitCode then r.exitCode else max) 0

def exitCodeStatus (l : Link) (code : Int) : String :=
  match l.exitCodes.lookup code with
  | some ec => ec.jobStatus
  | none => l.fallbackJobStatus

def updateStatusFromExitCode (a : Answers) (wl : Link) (code : Int) : M Unit := do
  withContext "update job status from exit code"
    (write a (.jobStatus a.jobID (exitCodeStatus wl code)))
  modify fun w => { w with recorded := true }

-- Where a client script goes from its exit code, none at the end of a chain.
def exitCodeNext (l : Link) (code : Int) : Option UUID :=
  match l.exitCodes.lookup code with
  | some ec => ec.linkID
  | none => if l.fallbackLinkID = UUID.nil then none else some l.fallbackLinkID

def execClientScript (a : Answers) (wl : Link) : M UUID := do
  let results ← withContext "submit task" (ofExcept a.taskResults)
  let exitCode := processTaskResults results
  updateStatusFromExitCode a wl exitCode
  match exitCodeNext wl exitCode with
  | none => throw .eof
  | some linkID => return linkID

-- An override of the directory is only looked for where the stored text could
-- not be evaluated.
def filterSubDir (a : Answers) (config : LinkStandardTaskConfig) : M Str :=
  match a.filterSubDir with
  | .notFound => pure config.filterSubdir
  | .failed text => throw (.failed text)
  | .found val =>
      if val = [] then pure config.filterSubdir
      else
        match a.evalMap val with
        | some _ => pure config.filterSubdir
        | none => pure (((∅ : GoMap Str Str).lookup "filterSubDir".toList).getD config.filterSubdir)

def execFilesClientScript (a : Answers) (wl : Link) (config : LinkStandardTaskConfig) : M UUID := do
  let _ ← withContext "look up filterSubDir" (filterSubDir a config)
  execClientScript a wl

def execSetUnitVarLink (a : Answers) (wl : Link) (name : Str) (linkID : UUID) : M UUID := do
  withContext "save linkID" (write a (.unitVar name [] linkID))
  return exitCodeLinkID wl 0

def execGetUnitVarLink (a : Answers) (linkID : UUID) : M UUID :=
  match a.unitLinkID with
  | .notFound => pure linkID
  | .failed text => throw (.failed ("read: " ++ text))
  | .found stored => pure (if stored = UUID.nil then linkID else stored)

def Runner.exec (wf : Document) (a : Answers) (wl : Link) : Runner → M UUID
  | .nextChainDecisionJob choices => execNextChainDecision wf a wl choices
  | .updateContextDecisionJob replacements => execUpdateContextDecision wf a wl replacements
  | .directoryClientScriptJob _ => execClientScript a wl
  | .filesClientScriptJob config => execFilesClientScript a wl config
  | .setUnitVarLinkJob name linkID => execSetUnitVarLink a wl name linkID
  | .getUnitVarLinkJob _ linkID => execGetUnitVarLink a linkID

-- A job's life around its runner.

def reloadTransfer (a : Answers) : M Unit := do
  let path ← ofExcept a.transferLocation
  modify fun w => { w with pkg := w.pkg.updatePath path }
  match a.processingConfiguration with
  | .notFound => modify fun w => { w with pkg := { w.pkg with unit := .transfer "default".toList } }
  | .failed text => throw (.failed text)
  | .found name => modify fun w => { w with pkg := { w.pkg with unit := .transfer name } }

def reloadSIP (a : Answers) : M Unit := do
  let (path, aipFilename, sipType) ← ofExcept a.sip
  modify fun w => { w with pkg := { w.pkg.updatePath path with unit := .sip sipType aipFilename } }

def reload (a : Answers) : M Unit := fun w =>
  match w.pkg.unit with
  | .transfer _ => reloadTransfer a w
  | .sip _ _ => reloadSIP a w
  | .dip => .ok () w

def jobRow (pkg : Package) (wl : Link) : JobRow where
  type := wl.description.string
  directory := pkg.pathForDB
  sipID := pkg.id
  unitType := pkg.jobUnitType
  currentStep := .executingCommands
  microserviceGroup := wl.group.string
  linkID := wl.id

def save (a : Answers) (wl : Link) : M Unit := withContext "save" do
  withContext "reload package" (reload a)
  write a (.createJob a.jobID (jobRow (← get).pkg wl))

def markAwaitingDecision (a : Answers) (jobID : UUID) : M Unit :=
  withContext "mark awaiting decision" (write a (.jobStatus jobID "STATUS_AWAITING_DECISION"))

def markComplete (a : Answers) (jobID : UUID) : M Unit := do
  if (← get).recorded then return
  else
    withContext "mark complete" (write a (.jobStatus jobID "STATUS_COMPLETED_SUCCESSFULLY"))
    modify fun w => { w with recorded := true }

-- The status that the job gets after its runner, by the runner's error.
def settle (a : Answers) : EStateM.Result Err World UUID → EStateM.Result Err World UUID
  | .ok id w => (markComplete a a.jobID >>= fun _ => pure id : M UUID) w
  | .error (.wait decision updates) w =>
      (markAwaitingDecision a a.jobID >>= fun _ => throw (Err.wait decision updates) : M UUID) w
  | .error err w => .error err w

def execJob (wf : Document) (a : Answers) (wl : Link) (runner : Runner) : M UUID :=
  withContext "exec" do
    modify fun w => { w with recorded := false }
    save a wl
    fun w => settle a (runner.exec wf a wl w)

-- A store and workers that give no trouble and hold nothing of interest.
def quiet : Answers where
  ctxErr := false
  write := fun _ => none
  unitVars := .ok []
  transferLocation := .ok "/var/archivematica/sharedDirectory/currentlyProcessing/a".toList
  processingConfiguration := .notFound
  sip := .error "not found"
  processingConfig := .ok []
  dict := .error "not found"
  unitLinkID := .notFound
  filterSubDir := .notFound
  evalMap := fun _ => none
  taskResults := .ok []
  jobID := ⟨0x3f2ce6a0a7ab4d2b8d3f6e6c31a5fb3d⟩
  decisionID := ⟨0x9b2f53a6c70b4a57a5b8a9d6a4d7c8e1⟩
  visits := fun _ => []
  firstItem := fun _ => []
  entries := fun _ => []

end Ccp
