import Ccp.Lib.Dict
import Ccp.Lib.Json
import Ccp.Lib.Rfc3339
import Ccp.Uuid

namespace Ccp

open Lib

namespace Worker

-- A job of the worker, for one task of the server.
structure Job where
  uuid : Str
  captureOutput : Bool
  intCode : Int
  output : Str
  error : Str
  endTime : Option Datetime

-- What a task is sent with, as far as its results depend on it.
structure TaskData where
  wantsOutput : Option Bool

-- A batch of tasks: the keys of a map that the server encodes.
structure Batch where
  tasks : Dict UUID TaskData
  nodup : (tasks.map Prod.fst).Nodup

def Batch.data (b : Batch) : Dict Str TaskData := b.tasks.map fun t => (t.1.string, t.2)

def prepareJobs (tasks : Dict Str TaskData) : List Job :=
  tasks.map fun t => ⟨t.1, t.2.wantsOutput.getD true, 0, [], [], none⟩

-- What a client script leaves in a job that it ran.
structure Outcome where
  intCode : Int
  output : Str
  error : Str

-- The client script, then update_task_status for each of the jobs.
def runTask (script : Str → Outcome) (now : Str → Datetime) (jobs : List Job) : List Job :=
  jobs.map fun job =>
    { job with
      intCode := (script job.uuid).intCode
      output := (script job.uuid).output
      error := (script job.uuid).error
      endTime := some (now job.uuid) }

def encodeTime : Option Datetime → Json
  | none => .null
  | some t => .str (Rfc3339.isoformat t)

def formatJob (job : Job) : Dict Str Json :=
  let result : Dict Str Json :=
    [("exitCode".toList, .num job.intCode), ("finishedTimestamp".toList, encodeTime job.endTime)]
  if job.captureOutput then
    (result.set "stdout".toList (.str job.output)).set "stderror".toList (.str job.error)
  else result

def formatJobResults (jobs : List Job) : Dict Str (Dict Str Json) :=
  jobs.foldl (fun results job => results.set job.uuid (formatJob job)) []

-- The answer to a Gearman job.
def handleJob (script : Str → Outcome) (now : Str → Datetime) (tasks : Dict Str TaskData) : Json :=
  .obj [("task_results".toList,
    .obj ((formatJobResults (runTask script now (prepareJobs tasks))).map fun r => (r.1, .obj r.2)))]

end Worker

end Ccp
