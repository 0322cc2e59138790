import Ccp.Job
import Ccp.Lib.Run
import Ccp.Lib.Slice
import Ccp.Replacement

namespace Ccp

open Lib

structure Task where
  id : UUID
  createdAt : Str
  args : Str
  wantsOutput : Bool
  rm : ReplacementMapping
  stdoutFilePath : Str
  stderrFilePath : Str

-- A row of the tasks table.
structure StoreTask where
  id : UUID
  createdAt : Str
  exec : Str
  arguments : Str
  jobID : UUID
  fileID : Option UUID
  filename : Str
deriving DecidableEq

-- What the worker says of a whole batch, decoded from the payload of a complete
-- update: a result that is null there is none.
abbrev TaskResults := GoMap UUID (Option TaskResult)

inductive JobUpdate
  | exception
  | fail
  -- none where the payload cannot be decoded
  | complete (results : Option TaskResults)
  -- the updates that no case of the switch names
  | other

namespace TaskBackend

def batchSize : Nat := 128

-- What a backend knows of its job and of the process.
structure Config where
  execute : Str
  jobID : UUID
  cwd : Option Str

-- The arguments of submit.
structure Request where
  rm : ReplacementMapping
  args : Str
  wantsOutput : Bool
  stdoutFilePath : Str
  stderrFilePath : Str

def newTask (id : UUID) (createdAt : Str) (req : Request) : Task where
  id := id
  createdAt := createdAt
  args := req.args
  wantsOutput := req.wantsOutput ∨ req.stdoutFilePath ≠ [] ∨ req.stderrFilePath ≠ []
  rm := req.rm
  stdoutFilePath := req.stdoutFilePath
  stderrFilePath := req.stderrFilePath

inductive Phase
  -- between two calls of the job
  | submitting
  -- in sendBatch, before the tasks are saved; called by wait for the last one
  | sending (batch : Slice) (last : Bool)
  -- in waitGroup
  | waiting
  | returned
  -- with the text of the error of submitTasks
  | failed (text : String)
  -- a null result
  | crashed
deriving DecidableEq

structure State where
  -- the arrays of the batches
  heap : Heap Task
  batch : Slice
  tasks : List Task
  count : Nat
  results : GoMap UUID (TaskResult × Task)
  phase : Phase
  -- the calls of CreateTasks, the payloads given to Gearman and the numbers of
  -- those whose goroutine has not left the wait group
  created : List (List StoreTask)
  payloads : List (GoMap UUID Task)
  pending : List Nat
  canceled : Bool
  -- what was given to be written to the output files
  outputs : List (Str × Str)

def newTaskBackend : State :=
  ⟨[[]], ⟨0, 0, 0, batchSize⟩, [], 0, ∅, .submitting, [], [], [], false, []⟩

-- saveTasks, one item.
def storeTask (cfg : Config) (item : Task) : StoreTask where
  id := item.id
  createdAt := item.createdAt
  exec := cfg.execute
  arguments := item.args
  jobID := cfg.jobID
  fileID := (item.rm.lookup "%fileUUID%".toList).bind UUID.parse
  filename := match item.rm.lookup "%relativeLocation%".toList with
    | none => []
    | some val => ((FilePath.abs cfg.cwd val).map FilePath.base).getD []

def payload (batch : List Task) : GoMap UUID Task :=
  batch.foldl (fun tasks item => tasks.insert item.id item) ∅

-- Where the caller of sendBatch goes on.
def after (last : Bool) : Phase := if last then .waiting else .submitting

-- sendBatch up to the call of saveTasks.
def sendBatch (last : Bool) (s : State) : State :=
  let ln := s.batch.len
  if ln = 0 then { s with phase := after last }
  else
    let size := if ln < batchSize then ln else batchSize
    let batch := s.batch.drop (ln - size)
    { s with
      batch := s.batch.take (ln - size)
      tasks := s.tasks ++ batch.read s.heap
      phase := .sending batch last }

def sendError (last : Bool) (text : String) : String :=
  (if last then "wait: " else "") ++ "send batch: " ++ text

def marshalError : String :=
  "marshal tasks: json: error calling MarshalJSON for type controller.tasks: map is empty"

-- The rest of sendBatch, with the answer of CreateTasks.
def saveBatch (cfg : Config) (batch : Slice) (last : Bool) (err : Option String) (s : State) :
    State :=
  let items := batch.read s.heap
  let s := { s with created := s.created ++ [items.map (storeTask cfg)] }
  match err with
  | some text => { s with phase := .failed (sendError last text) }
  | none =>
      if (payload items).keys = ∅ then { s with phase := .failed (sendError last marshalError) }
      else
        { s with
          payloads := s.payloads ++ [payload items]
          pending := s.pending ++ [s.payloads.length]
          count := s.count + 1
          phase := after last }

def writeOutput (t : Task) (r : TaskResult) : List (Str × Str) :=
  (if t.stdoutFilePath ≠ [] ∧ r.stdout ≠ [] then [(t.stdoutFilePath, r.stdout)] else []) ++
    if t.stderrFilePath ≠ [] ∧ r.stderr ≠ [] then [(t.stderrFilePath, r.stderr)] else []

-- One turn of the loop of handleJobUpdate.
def recordResult (res : TaskResults) (results : GoMap UUID (TaskResult × Task)) (t : Task) :
    GoMap UUID (TaskResult × Task) :=
  match res.lookup t.id with
  | some (some r) => results.insert t.id (r, t)
  | _ => results

-- What the same turn writes out.
def resultOutput (res : TaskResults) (t : Task) : List (Str × Str) :=
  match res.lookup t.id with
  | some (some r) => writeOutput t r
  | _ => []

def handleJobUpdate (u : JobUpdate) (s : State) : State :=
  if s.canceled then s
  else
    match u with
    | .complete (some res) =>
        if s.tasks.any fun t => res.lookup t.id = some none then { s with phase := .crashed }
        else
          { s with
            results := s.tasks.foldl (recordResult res) s.results
            outputs := s.outputs ++ s.tasks.flatMap (resultOutput res) }
    | _ => s

inductive Event
  | submit (id : UUID) (createdAt : Str) (req : Request)
  -- the answer of CreateTasks
  | save (err : Option String)
  | wait
  -- the first update of a payload, as its goroutine takes it or leaves without it
  | update (job : Nat) (u : JobUpdate)
  -- the end of waitGroup, by the group or by the context
  | done
  | stop
  | cancel

def submit (t : Task) (s : State) : State :=
  let (heap, batch) := Slice.append s.heap s.batch t
  let s := { s with heap := heap, batch := batch }
  if batch.len % batchSize = 0 then sendBatch false s else s

def wait (s : State) : State :=
  if 0 < s.batch.len then sendBatch true s else { s with phase := .waiting }

def step (cfg : Config) (s : State) : Event → Option State
  | .submit id createdAt req =>
      if s.phase = .submitting then some (submit (newTask id createdAt req) s) else none
  | .save err =>
      match s.phase with
      | .sending batch last => some (saveBatch cfg batch last err s)
      | _ => none
  | .wait => if s.phase = .submitting then some (wait s) else none
  | .update job u =>
      if s.phase ≠ .crashed ∧ job ∈ s.pending then
        some (handleJobUpdate u { s with pending := s.pending.erase job })
      else none
  | .done => if s.phase = .waiting ∧ s.pending = [] then some { s with phase := .returned } else none
  | .stop =>
      if s.phase = .waiting ∧ s.canceled then
        some { s with phase := .failed "wait: context canceled" }
      else none
  | .cancel => some { s with canceled := true }

-- What submitTasks gives its job, with the order of the loop over the results.
def submitTasks (s : State) (order : List (Σ _ : UUID, TaskResult × Task)) :
    Option (Except String (List TaskResult)) :=
  match s.phase with
  | .returned => some (.ok (order.map (·.2.1)))
  | .failed text => some (.error text)
  | _ => none

end TaskBackend

end Ccp
