import Ccp.TaskBackend
import Ccp.Worker

namespace Ccp

open Lib

namespace TaskResult

-- The zero value of the struct.
protected def zero : TaskResult := ⟨0, "0001-01-01T00:00:00Z".toList, [], []⟩

def putTime (f : Str → TaskResult → TaskResult) : Json → TaskResult → Option TaskResult
  | .null, r => some r
  | .str t, r => if Rfc3339.valid t then some (f t r) else none
  | _, _ => none

def fields : List (Json.Field TaskResult) :=
  [⟨"exitCode".toList, Json.putInt fun n r => { r with exitCode := n }⟩,
    ⟨"finishedTimestamp".toList, putTime fun t r => { r with finishedAt := t }⟩,
    ⟨"stdout".toList, Json.putStr fun t r => { r with stdout := t }⟩,
    ⟨"stderr".toList, Json.putStr fun t r => { r with stderr := t }⟩]

-- A pointer: null is nil.
def decode : Json → Option (Option TaskResult)
  | .null => some none
  | .obj members => (Json.decodeStruct fields .zero members).map some
  | _ => none

end TaskResult

namespace TaskResults

def putResults : Json → TaskResults → Option TaskResults
  | .null, _ => some ∅
  | .obj members, m => Json.decodeMap UUID.parse TaskResult.decode members m
  | _, _ => none

def fields : List (Json.Field TaskResults) := [⟨"task_results".toList, putResults⟩]

def decode : Json → Option TaskResults
  | .null => some ∅
  | .obj members => Json.decodeStruct fields ∅ members
  | _ => none

end TaskResults

namespace Worker

-- What the server makes of the result of a job: the text under "stderror" is
-- under no name of the struct.
def received (job : Job) : TaskResult where
  exitCode := job.intCode
  finishedAt := (job.endTime.map Rfc3339.isoformat).getD TaskResult.zero.finishedAt
  stdout := if job.captureOutput then job.output else []
  stderr := []

theorem putMember_stderror (v : Json) (r : TaskResult) :
    Json.putMember TaskResult.fields ("stderror".toList, v) r = some r := rfl

theorem putTime_encodeTime (t : Option Datetime) (f : Str → TaskResult → TaskResult)
    (r : TaskResult) :
    TaskResult.putTime f (encodeTime t) r = some ((t.map fun t => f (Rfc3339.isoformat t) r).getD r) := by
  cases t with
  | none => rfl
  | some t => simp [encodeTime, TaskResult.putTime, Rfc3339.valid_isoformat]

theorem decode_formatJob (job : Job) :
    TaskResult.decode (.obj (formatJob job)) = some (some (received job)) := by
  have hcode : ∀ n r, Json.putMember TaskResult.fields ("exitCode".toList, .num n) r =
      some { r with exitCode := n } := fun n r => rfl
  have htime : ∀ t r, Json.putMember TaskResult.fields ("finishedTimestamp".toList, encodeTime t) r =
      some ((t.map fun t => { r with finishedAt := Rfc3339.isoformat t }).getD r) :=
    fun t r => putTime_encodeTime t _ r
  have hout : ∀ o r, Json.putMember TaskResult.fields ("stdout".toList, .str o) r =
      some { r with stdout := o } := fun o r => rfl
  obtain ⟨uuid, capture, code, output, error, endTime⟩ := job
  cases capture with
  | false =>
      have hmembers : formatJob ⟨uuid, false, code, output, error, endTime⟩ =
          [("exitCode".toList, .num code), ("finishedTimestamp".toList, encodeTime endTime)] := rfl
      simp only [TaskResult.decode, hmembers, Json.decodeStruct, List.foldlM_cons, hcode, htime,
        Option.bind_eq_bind, Option.bind_some, List.foldlM_nil]
      cases endTime <;> rfl
  | true =>
      have hmembers : formatJob ⟨uuid, true, code, output, error, endTime⟩ =
          [("exitCode".toList, .num code), ("finishedTimestamp".toList, encodeTime endTime),
            ("stdout".toList, .str output), ("stderror".toList, .str error)] := rfl
      simp only [TaskResult.decode, hmembers, Json.decodeStruct, List.foldlM_cons, hcode, htime, hout,
        putMember_stderror, Option.bind_eq_bind, Option.bind_some, List.foldlM_nil]
      cases endTime <;> rfl

-- Distinct jobs each keep their entry.
theorem formatJobResults_eq {jobs : List Job} (h : (jobs.map Job.uuid).Nodup) :
    formatJobResults jobs = jobs.map fun job => (job.uuid, formatJob job) := by
  induction jobs using List.reverseRecOn with
  | nil => rfl
  | append_singleton jobs job ih =>
      rw [List.map_append, List.nodup_append] at h
      have hnew : job.uuid ∉ (jobs.map fun job => (job.uuid, formatJob job)).map Prod.fst := by
        rw [List.map_map]
        exact fun hmem => h.2.2 _ hmem _ (by simp) rfl
      simp only [formatJobResults] at ih ⊢
      rw [List.foldl_append, ih h.1, List.foldl_cons, List.foldl_nil, Dict.set_eq_append hnew,
        List.map_append]
      rfl

variable (script : Str → Outcome) (now : Str → Datetime)

-- The job of a task when the script has ended.
def ranJob (t : UUID × TaskData) : Job where
  uuid := t.1.string
  captureOutput := t.2.wantsOutput.getD true
  intCode := (script t.1.string).intCode
  output := (script t.1.string).output
  error := (script t.1.string).error
  endTime := some (now t.1.string)

theorem decode_handleJob (batch : Batch) :
    TaskResults.decode (handleJob script now batch.data) =
      some (batch.tasks.foldl (fun m t => m.insert t.1 (some (received (ranJob script now t)))) ∅) := by
  have hjobs : runTask script now (prepareJobs batch.data) = batch.tasks.map (ranJob script now) := by
    simp only [runTask, prepareJobs, Batch.data, List.map_map]
    rfl
  have hnodup : ((batch.tasks.map (ranJob script now)).map Job.uuid).Nodup := by
    rw [List.map_map]
    have hstrings := batch.nodup.map UUID.string_injective
    rwa [List.map_map] at hstrings
  rw [handleJob, hjobs, formatJobResults_eq hnodup, List.map_map, List.map_map]
  have hmap := @Json.decodeMap_eq_some _ _ _ UUID.parse TaskResult.decode _
    (fun t : UUID × TaskData => t.1.string) (fun t => .obj (formatJob (ranJob script now t)))
    Prod.fst _ (fun t => t.1.parse_string) (fun t => decode_formatJob (ranJob script now t))
    batch.tasks ∅
  change (Json.decodeMap UUID.parse TaskResult.decode (batch.tasks.map fun t =>
    (t.1.string, .obj (formatJob (ranJob script now t)))) ∅).bind some = _
  rw [hmap]
  rfl

-- The server has for each task of the batch what its job recorded.
def Arrives (batch : Batch) : Prop :=
  ∃ results, TaskResults.decode (handleJob script now batch.data) = some results ∧
    ∀ t ∈ batch.tasks, ∃ r, results.lookup t.1 = some (some r) ∧
      r.exitCode = (script t.1.string).intCode ∧
      (t.2.wantsOutput.getD true →
        r.stdout = (script t.1.string).output ∧ r.stderr = (script t.1.string).error)

theorem lookup_results {batch : Batch} {t : UUID × TaskData} (ht : t ∈ batch.tasks) :
    (batch.tasks.foldl (fun m t => m.insert t.1 (some (received (ranJob script now t))))
      (∅ : TaskResults)).lookup t.1 = some (some (received (ranJob script now t))) :=
  GoMap.lookup_foldl_insert Prod.fst _ batch.tasks batch.nodup ∅ ht

variable {script now}

theorem error_eq_nil_of_arrives {batch : Batch} (h : Arrives script now batch) :
    ∀ t ∈ batch.tasks, t.2.wantsOutput.getD true → (script t.1.string).error = [] := by
  intro t ht hwants
  obtain ⟨results, hresults, hall⟩ := h
  rw [decode_handleJob] at hresults
  obtain rfl := Option.some.inj hresults
  obtain ⟨r, hr, -, hout⟩ := hall t ht
  rw [lookup_results script now ht] at hr
  obtain rfl := Option.some.inj (Option.some.inj hr)
  exact (hout hwants).2.symm

-- The results of a batch arrive exactly when no task that wants its output has
-- written to its standard error.
theorem arrives_iff (batch : Batch) :
    Arrives script now batch ↔
      ∀ t ∈ batch.tasks, t.2.wantsOutput.getD true → (script t.1.string).error = [] := by
  refine ⟨error_eq_nil_of_arrives, fun hempty => ?_⟩
  refine ⟨_, decode_handleJob script now batch, fun t ht => ?_⟩
  refine ⟨_, lookup_results script now ht, rfl, fun hwants => ⟨?_, (hempty t ht hwants).symm⟩⟩
  exact if_pos hwants

-- One task that wants its output and has one character on its standard error.
theorem not_arrives_error :
    ¬ Arrives (fun _ => ⟨1, [], ['x']⟩)
      (fun _ => ⟨2024, 4, 12, 5, 40, 20, 123456, by decide, by decide, by decide, by decide,
        by decide, by decide, by decide⟩) ⟨[(⟨1⟩, ⟨some true⟩)], by decide⟩ := by
  intro h
  have herror := error_eq_nil_of_arrives h (⟨1⟩, ⟨some true⟩) (by simp) rfl
  cases herror

end Worker

end Ccp
