import Ccp.TaskBackend.ExitCode
import Ccp.TaskBackend.Wire

namespace Ccp

open Lib

namespace Worker

-- The tasks of a payload, in the order that the map is encoded in.
def Sends (p : GoMap UUID Task) (batch : Batch) : Prop :=
  ∃ order, GoMap.RangeOrder p order ∧ batch.tasks = order.map fun e => (e.1, ⟨some e.2.wantsOutput⟩)

-- The result of a task whose client script has come to its end: its code, and its output where
-- that is wanted. What it has written to stderr does not arrive.
def resultOf (script : Str → Outcome) (now : Str → Datetime) (t : Task) : TaskResult where
  exitCode := (script t.id.string).intCode
  finishedAt := Rfc3339.isoformat (now t.id.string)
  stdout := if t.wantsOutput then (script t.id.string).output else []
  stderr := []

-- What of it is written to a file.
def outputOf (script : Str → Outcome) (t : Task) : List (Str × Str) :=
  if t.stdoutFilePath ≠ [] ∧ t.wantsOutput ∧ (script t.id.string).output ≠ [] then
    [(t.stdoutFilePath, (script t.id.string).output)]
  else []

-- What a worker makes of a payload: the script, or the preparation of its jobs, may raise.
inductive Worked (script : Str → Outcome) (now : Str → Datetime) (p : GoMap UUID Task) : JobUpdate → Prop
  | finished {batch : Batch} (hsends : Sends p batch) :
      Worked script now p (.complete (TaskResults.decode (handleJob script now batch.data)))
  | raised : Worked script now p .exception
  | failed : Worked script now p .fail

variable {script : Str → Outcome} {now : Str → Datetime} {p : GoMap UUID Task}

-- The results are those of the tasks of the payload.
theorem Worked.results {res : TaskResults} (h : Worked script now p (.complete (some res))) (id : UUID) :
    res.lookup id = (p.lookup id).map fun t => some (received (ranJob script now (id, ⟨some t.wantsOutput⟩))) := by
  generalize hu : JobUpdate.complete (some res) = u at h
  cases h with
  | @finished batch hsends =>
      have hres := JobUpdate.complete.inj hu
      rw [decode_handleJob] at hres
      obtain rfl := Option.some.inj hres
      obtain ⟨order, horder, htasks⟩ := hsends
      have hmem : ∀ t, (⟨id, t⟩ : Σ _ : UUID, Task) ∈ order ↔ p.lookup id = some t := by
        intro t
        rw [Finmap.lookup_eq_some_iff, ← horder, Multiset.mem_coe]
      cases hlookup : p.lookup id with
      | some t =>
          have ht : (id, (⟨some t.wantsOutput⟩ : TaskData)) ∈ batch.tasks := by
            rw [htasks]
            exact List.mem_map.mpr ⟨⟨id, t⟩, (hmem t).mpr hlookup, rfl⟩
          exact lookup_results script now ht
      | none =>
          have hnot : id ∉ batch.tasks.map Prod.fst := by
            rw [htasks, List.map_map]
            intro hin
            obtain ⟨⟨id', t⟩, ht, rfl⟩ := List.mem_map.mp hin
            exact nomatch hlookup.symm.trans ((hmem t).mp ht)
          exact (GoMap.lookup_foldl_insert_of_notMem Prod.fst _ hnot ∅).trans (Finmap.lookup_empty id)
  | raised => cases hu
  | failed => cases hu

end Worker

namespace TaskBackend

open Worker (Outcome Worked)

variable {cfg : Config}

theorem writeOutput_resultOf (script : Str → Outcome) (now : Str → Datetime) (t : Task) :
    writeOutput t (Worker.resultOf script now t) = Worker.outputOf script t := by
  have hstderr : ¬ (t.stderrFilePath ≠ [] ∧ (Worker.resultOf script now t).stderr ≠ []) := fun h => h.2 rfl
  have hstdout : (Worker.resultOf script now t).stdout =
      if t.wantsOutput then (script t.id.string).output else [] := rfl
  rw [writeOutput, if_neg hstderr, List.append_nil, hstdout, Worker.outputOf]
  cases t.wantsOutput with
  | false => simp
  | true => simp

-- A result of the task has come with some update.
def Came (es : List Event) (id : UUID) (r : TaskResult) : Prop :=
  ∃ job res, .update job (.complete (some res)) ∈ es ∧ res.lookup id = some (some r)

-- Updates speak of the tasks of their own payload.
def Own (es : List Event) (s : State) : Prop :=
  ∀ job res, .update job (.complete (some res)) ∈ es → ∃ p, s.payloads[job]? = some p ∧
    ∀ id, (res.lookup id ≠ none → id ∈ p) ∧ res.lookup id ≠ some none

def written (results : GoMap UUID (TaskResult × Task)) (t : Task) : List (Str × Str) :=
  ((results.lookup t.id).map fun v => writeOutput v.2 v.1).getD []

-- What came is what is there, and it was written out once.
structure Recorded (es : List Event) (s : State) : Prop where
  came : ∀ id r, (s.results.lookup id).map Prod.fst = some r ↔ Came es id r
  outputs : s.outputs.Perm (s.tasks.flatMap (written s.results))

theorem came_snoc {es : List Event} {e : Event} (he : ∀ job res, e ≠ .update job (.complete (some res)))
    (id : UUID) (r : TaskResult) : Came (es ++ [e]) id r ↔ Came es id r := by
  refine exists_congr fun job => exists_congr fun res => and_congr_left fun _ => ?_
  rw [List.mem_append, List.mem_singleton, or_iff_left (he job res).symm]

-- The tasks that are cut into a batch have nothing recorded.
theorem recorded_quiet {es : List Event} {s next : State} {e : Event}
    (hids : ((submitted (es ++ [e])).map Task.id).Nodup) (hknown : Known (submitted (es ++ [e])) next)
    (hattached : Attached s) (h : Recorded es s) (hresults : next.results = s.results)
    (houtputs : next.outputs = s.outputs) (htasks : s.tasks <+: next.tasks)
    (he : ∀ job res, e ≠ .update job (.complete (some res))) : Recorded (es ++ [e]) next := by
  obtain ⟨more, hmore⟩ := htasks
  refine ⟨fun id r => ?_, ?_⟩
  · rw [hresults, h.came, came_snoc he]
  · have hnew : more.flatMap (written s.results) = [] := by
      refine List.flatMap_eq_nil_iff.mpr fun t ht => ?_
      have hnone : s.results.lookup t.id = none := by
        refine Option.eq_none_iff_forall_ne_some.mpr fun v hv => ?_
        obtain ⟨hin, hid⟩ := hattached t.id v.1 v.2 hv
        obtain ⟨-, -, -, hall⟩ := hknown
        have hnodup := hids.sublist (hall.sublist.map Task.id)
        rw [← hmore, List.map_append] at hnodup
        exact (List.nodup_append.mp hnodup).2.2 _ (List.mem_map_of_mem hin) _ (List.mem_map_of_mem ht) hid
      rw [written, hnone]
      rfl
    rw [houtputs, hresults, ← hmore, List.flatMap_append, hnew, List.append_nil]
    exact h.outputs

section Heard

variable {es : List Event} {s : State} {job : Nat} {res : TaskResults} {id : UUID} {r : TaskResult}

theorem came_heard : Came (es ++ [.update job (.complete (some res))]) id r ↔
    Came es id r ∨ res.lookup id = some (some r) := by
  constructor
  · rintro ⟨job', res', hu, hr⟩
    rcases List.mem_append.mp hu with hbefore | hu
    · exact Or.inl ⟨job', res', hbefore, hr⟩
    · obtain ⟨rfl, rfl⟩ : job' = job ∧ res' = res := by simpa using hu
      exact Or.inr hr
  · rintro (⟨job', res', hbefore, hr⟩ | hr)
    · exact ⟨job', res', List.mem_append_left _ hbefore, hr⟩
    · exact ⟨job, res, by simp, hr⟩

-- A result that comes is the first of its task.
theorem none_of_heard (hids : ((submitted es).map Task.id).Nodup) (hknown : Known (submitted es) s)
    (hawaited : Awaited es s) (hown : Own (es ++ [.update job (.complete (some res))]) s)
    (h : Recorded es s) (hmem : job ∈ s.pending) (hr : res.lookup id = some (some r)) :
    s.results.lookup id = none := by
  obtain ⟨p, hp, hres⟩ := hown job res (by simp)
  refine Option.eq_none_iff_forall_ne_some.mpr fun v hv => ?_
  obtain ⟨job', res', hbefore, hr'⟩ := (h.came id v.1).mp (by rw [hv]; rfl)
  obtain ⟨p', hp', hres'⟩ := hown job' res' (List.mem_append_left _ hbefore)
  have hin := (hres id).1 (by rw [hr]; exact Option.some_ne_none _)
  have hin' := (hres' id).1 (by rw [hr']; exact Option.some_ne_none _)
  obtain rfl := hknown.index hids hp hp' hin hin'
  exact hawaited.fresh job hmem _ hbefore

-- It is recorded with its task.
theorem recorded_of_heard (hknown : Known (submitted es) s)
    (hown : Own (es ++ [.update job (.complete (some res))]) s) (hr : res.lookup id = some (some r)) :
    ∃ t ∈ s.tasks, t.id = id ∧
      (s.tasks.foldl (recordResult res) s.results).lookup id = some (r, t) := by
  obtain ⟨p, hp, hres⟩ := hown job res (by simp)
  obtain ⟨t, ht⟩ := Finmap.mem_iff.mp ((hres id).1 (by rw [hr]; exact Option.some_ne_none _))
  have hid : t.id = id := by
    obtain ⟨sent, hpayloads, -⟩ := hknown
    rw [hpayloads, List.getElem?_map, Option.map_eq_some_iff] at hp
    obtain ⟨b, -, rfl⟩ := hp
    exact (mem_of_lookup_payload ht).2
  exact lookup_foldl_recordResult hr s.results ⟨t, hknown.task hp ht, hid⟩

theorem lookup_of_unheard (hnone : res.lookup id = none) :
    (s.tasks.foldl (recordResult res) s.results).lookup id = s.results.lookup id :=
  lookup_foldl_recordResult_of_none s.results (Or.inl (by rw [hnone]; rfl))

theorem written_heard (hids : ((submitted es).map Task.id).Nodup) (hknown : Known (submitted es) s)
    (hawaited : Awaited es s) (hown : Own (es ++ [.update job (.complete (some res))]) s)
    (h : Recorded es s) (hmem : job ∈ s.pending) {t : Task} (ht : t ∈ s.tasks) :
    written (s.tasks.foldl (recordResult res) s.results) t = written s.results t ++ resultOutput res t := by
  obtain ⟨p, -, hres⟩ := hown job res (by simp)
  cases hlookup : res.lookup t.id with
  | none => rw [written, lookup_of_unheard hlookup, resultOutput, hlookup, List.append_nil, written]
  | some r' =>
      cases r' with
      | none => exact absurd hlookup (hres t.id).2
      | some r =>
          obtain ⟨t', ht', hid, hnow⟩ := recorded_of_heard hknown hown hlookup
          have hfirst := none_of_heard hids hknown hawaited hown h hmem hlookup
          obtain ⟨-, -, -, hall⟩ := hknown
          obtain rfl := eq_of_id hids (hall.subset ht') (hall.subset ht) hid
          rw [written, hnow, written, hfirst, resultOutput, hlookup]
          rfl

theorem recorded_heard {next : State} (hids : ((submitted es).map Task.id).Nodup)
    (hknown : Known (submitted es) s) (hawaited : Awaited es s)
    (hown : Own (es ++ [.update job (.complete (some res))]) s) (h : Recorded es s) (hmem : job ∈ s.pending)
    (hresults : next.results = s.tasks.foldl (recordResult res) s.results)
    (houtputs : next.outputs = s.outputs ++ s.tasks.flatMap (resultOutput res)) (htasks : next.tasks = s.tasks) :
    Recorded (es ++ [.update job (.complete (some res))]) next := by
  obtain ⟨p, -, hres⟩ := hown job res (by simp)
  constructor
  · intro id r
    rw [hresults, came_heard]
    cases hlookup : res.lookup id with
    | none => simp [lookup_of_unheard hlookup, h.came]
    | some r' =>
        cases r' with
        | none => exact absurd hlookup (hres id).2
        | some r' =>
            obtain ⟨t, -, -, hnow⟩ := recorded_of_heard hknown hown hlookup
            have hnever : ¬ Came es id r := by
              rw [← h.came, none_of_heard hids hknown hawaited hown h hmem hlookup]
              nofun
            simp [hnow, hnever]
  · rw [houtputs, hresults, htasks,
      List.flatMap_congr fun t ht => written_heard hids hknown hawaited hown h hmem ht]
    exact (h.outputs.append_right _).trans (List.flatMap_append_perm _ _ _)

end Heard

theorem outputs_sendBatch (last : Bool) (s : State) : (sendBatch last s).outputs = s.outputs := by
  unfold sendBatch
  dsimp only
  split_ifs <;> rfl

theorem outputs_submit (t : Task) (s : State) : (submit t s).outputs = s.outputs := by
  unfold submit
  dsimp only
  split_ifs
  · exact outputs_sendBatch false _
  · rfl

theorem outputs_wait (s : State) : (wait s).outputs = s.outputs := by
  unfold wait
  split_ifs
  · exact outputs_sendBatch true s
  · rfl

theorem outputs_saveBatch (batch : Slice) (last : Bool) (err : Option String) (s : State) :
    (saveBatch cfg batch last err s).outputs = s.outputs := by
  cases err with
  | some text => rfl
  | none =>
      unfold saveBatch
      dsimp only
      split_ifs <;> rfl

theorem same_saveBatch (batch : Slice) (last : Bool) (err : Option String) (s : State) :
    (saveBatch cfg batch last err s).results = s.results ∧ (saveBatch cfg batch last err s).tasks = s.tasks := by
  cases err with
  | some text => exact ⟨rfl, rfl⟩
  | none =>
      unfold saveBatch
      dsimp only
      split_ifs <;> exact ⟨rfl, rfl⟩

theorem recorded_step {es : List Event} {s next : State} {e : Event}
    (hids : ((submitted (es ++ [e])).map Task.id).Nodup) (hbefore : Known (submitted es) s)
    (hknown : Known (submitted (es ++ [e])) next) (hawaited : Awaited es s) (hattached : Attached s)
    (hctx : s.canceled = false) (hown : Own (es ++ [e]) next) (h : Recorded es s)
    (hstep : step cfg s e = some next) : Recorded (es ++ [e]) next := by
  have hidsBefore : ((submitted es).map Task.id).Nodup := hids.sublist ((submitted_extends es e).sublist.map Task.id)
  cases moves_of_step hstep with
  | submit hphase =>
      exact recorded_quiet hids hknown hattached h (same_submit _ s).results (outputs_submit _ s)
        (same_submit _ s).tasks
        nofun
  | @save batch last err hphase =>
      obtain ⟨hresults, htasks⟩ := @same_saveBatch cfg batch last err s
      exact recorded_quiet hids hknown hattached h hresults (outputs_saveBatch ..) (htasks ▸ List.prefix_rfl) nofun
  | wait hphase =>
      exact recorded_quiet hids hknown hattached h (same_wait s).results (outputs_wait s) (same_wait s).tasks nofun
  | @unheard job u hopen hmem hnone =>
      refine recorded_quiet hids hknown hattached h rfl rfl List.prefix_rfl ?_
      rintro job' res hevent
      obtain ⟨-, rfl⟩ := Event.update.inj hevent
      rcases hnone with hcanceled | hnone
      · exact nomatch hctx.symm.trans hcanceled
      · exact hnone res rfl
  | heard hopen hmem hctx' hnull => exact recorded_heard hidsBefore hbefore hawaited hown h hmem rfl rfl rfl
  | @crash job res t hopen hmem hctx' ht hnull =>
      obtain ⟨p, -, hres⟩ := hown job res (by simp)
      exact absurd hnull (hres t.id).2
  | done hphase hnone => exact recorded_quiet hids hknown hattached h rfl rfl List.prefix_rfl nofun
  | stop hphase hstopped => exact recorded_quiet hids hknown hattached h rfl rfl List.prefix_rfl nofun
  | cancel => exact recorded_quiet hids hknown hattached h rfl rfl List.prefix_rfl nofun

theorem own_of_snoc {es : List Event} {s next : State} {e : Event} (hawaited : Awaited es s)
    (hstep : step cfg s e = some next) (h : Own (es ++ [e]) next) : Own es s := by
  intro job res hu
  obtain ⟨p, hp, hres⟩ := h job res (List.mem_append_left _ hu)
  obtain ⟨more, hmore⟩ := payloads_extend hstep
  rw [← hmore, List.getElem?_append_left (hawaited.known job _ hu)] at hp
  exact ⟨p, hp, hres⟩

theorem recorded_run {es : List Event} {s : State} (hrun : run (step cfg) newTaskBackend es = some s)
    (hids : ((submitted es).map Task.id).Nodup) (hcancel : .cancel ∉ es) (hown : Own es s) : Recorded es s := by
  refine run_induction (step cfg) newTaskBackend (fun es s => ((submitted es).map Task.id).Nodup →
    .cancel ∉ es → Own es s → Recorded es s) ?_ ?_ es s hrun hids hcancel hown
  · refine fun _ _ _ => ⟨fun id r => iff_of_false nofun ?_, List.Perm.refl _⟩
    rintro ⟨job, res, hu, -⟩
    exact absurd hu List.not_mem_nil
  · intro es s e next hrun ih hstep hids hcancel hown
    have hawaited := awaited_run hrun
    have hidsBefore := hids.sublist ((submitted_extends es e).sublist.map Task.id)
    have hcancelBefore : .cancel ∉ es := fun hin => hcancel (List.mem_append_left _ hin)
    have hctx : s.canceled = false := by
      by_contra hcanceled
      exact hcancelBefore ((reached_run hrun).2 (by simpa using hcanceled))
    have hnext : run (step cfg) newTaskBackend (es ++ [e]) = some next :=
      (run_snoc_eq_some _).mpr ⟨s, hrun, hstep⟩
    have hown' := own_of_snoc hawaited hstep hown
    exact recorded_step hids (batched_run hrun).known (batched_run hnext).known hawaited (attached_run hrun) hctx hown
      (ih hidsBefore hcancelBefore hown') hstep

section Worked

variable {script : Str → Outcome} {now : Str → Datetime}

-- A result of the task has come.
def finished (es : List Event) (t : Task) : Bool :=
  es.any fun e =>
    match e with
    | .update _ u => (u.resultOf t.id).isSome
    | _ => false

def Serves (script : Str → Outcome) (now : Str → Datetime) (es : List Event) (s : State) : Prop :=
  ∀ job u, .update job u ∈ es → ∃ p, s.payloads[job]? = some p ∧ Worked script now p u

theorem own_of_serves {es : List Event} {s : State} (h : Serves script now es s) : Own es s := by
  intro job res hu
  obtain ⟨p, hp, hworked⟩ := h job _ hu
  refine ⟨p, hp, fun id => ?_⟩
  rw [hworked.results]
  cases hlookup : p.lookup id with
  | none => exact ⟨fun hne => absurd rfl hne, nofun⟩
  | some t => exact ⟨fun _ => Finmap.mem_of_lookup_eq_some hlookup, by simp⟩

-- The result that comes for a task is that of its own job.
theorem came_iff {es : List Event} {s : State} (hknown : Known (submitted es) s)
    (hids : ((submitted es).map Task.id).Nodup) (h : Serves script now es s) {t : Task} (ht : t ∈ submitted es)
    (r : TaskResult) : Came es t.id r ↔ finished es t = true ∧ Worker.resultOf script now t = r := by
  have hresult : ∀ {job res r}, .update job (.complete (some res)) ∈ es → res.lookup t.id = some (some r) →
      Worker.resultOf script now t = r := by
    intro job res r hu hr
    obtain ⟨p, hp, hworked⟩ := h job _ hu
    rw [hworked.results] at hr
    obtain ⟨t', hlookup, hresult⟩ := Option.map_eq_some_iff.mp hr
    obtain ⟨sent, hpayloads, hsent, hall⟩ := hknown
    rw [hpayloads, List.getElem?_map, Option.map_eq_some_iff] at hp
    obtain ⟨b, hb, rfl⟩ := hp
    obtain ⟨hin, hid⟩ := mem_of_lookup_payload hlookup
    have hmem := hall.subset (hsent.subset (List.mem_flatten.mpr ⟨b, List.mem_of_getElem? hb, hin⟩))
    obtain rfl := eq_of_id hids hmem ht hid
    exact Option.some.inj hresult
  rw [finished, List.any_eq_true]
  constructor
  · rintro ⟨job, res, hu, hr⟩
    refine ⟨⟨_, hu, ?_⟩, hresult hu hr⟩
    simp [JobUpdate.resultOf, hr]
  · rintro ⟨⟨e, he, hsome⟩, rfl⟩
    cases e with
    | update job u =>
        obtain ⟨r, hr⟩ := Option.isSome_iff_exists.mp hsome
        cases u with
        | complete results =>
            cases results with
            | none => cases hr
            | some res =>
                have hlookup : res.lookup t.id = some (some r) := Option.join_eq_some_iff.mp hr
                exact ⟨job, res, he, hresult he hlookup ▸ hlookup⟩
        | _ => cases hr
    | _ => cases hsome

theorem submitted_of_returned {es : List Event} {s : State} (hrun : run (step cfg) newTaskBackend es = some s)
    (hreturned : s.phase = .returned) : submitted es = s.tasks := by
  have hbatched := batched_run hrun
  rw [hreturned] at hbatched
  cases hbatched with
  | returned hsent hcut hsend hall => exact hall

def worst (codes : List Int) : Int := codes.foldl max 0

theorem processTaskResults_eq (results : List TaskResult) :
    processTaskResults results = worst (results.map TaskResult.exitCode) := by
  have hmax : ∀ (results : List TaskResult) (code : Int),
      results.foldl (fun max r => if max < r.exitCode then r.exitCode else max) code =
        (results.map TaskResult.exitCode).foldl max code := by
    intro results
    induction results with
    | nil => exact fun code => rfl
    | cons r results ih =>
        intro code
        rw [List.foldl_cons, List.map_cons, List.foldl_cons, ih]
        congr 1
        split_ifs with hlt
        · exact (max_eq_right hlt.le).symm
        · exact (max_eq_left (not_lt.mp hlt)).symm
  exact hmax results 0

theorem flatMap_of_filter {α β : Type} {l : List α} {p : α → Bool} {f g : α → List β}
    (h : ∀ x ∈ l, f x = if p x then g x else []) : l.flatMap f = (l.filter p).flatMap g := by
  induction l with
  | nil => rfl
  | cons x l ih =>
      obtain ⟨hx, hl⟩ := List.forall_mem_cons.mp h
      rw [List.flatMap_cons, hx, ih hl, List.filter_cons]
      cases p x <;> rfl

-- The tasks of the results, in the order that a loop visits them.
theorem perm_of_rangeOrder {results : GoMap UUID (TaskResult × Task)} {tasks : List Task}
    (hids : (tasks.map Task.id).Nodup) {p : Task → Bool} {f : Task → TaskResult}
    (hlookup : ∀ t ∈ tasks, results.lookup t.id = if p t then some (f t, t) else none)
    (hattached : ∀ id r t, results.lookup id = some (r, t) → t ∈ tasks ∧ t.id = id)
    {order : List (Σ _ : UUID, TaskResult × Task)} (horder : GoMap.RangeOrder results order) :
    (order.map (·.2.1)).Perm ((tasks.filter p).map f) := by
  have hentry : ∀ id v, (⟨id, v⟩ : Σ _ : UUID, TaskResult × Task) ∈ order ↔ results.lookup id = some v := by
    intro id v
    rw [Finmap.lookup_eq_some_iff, ← horder, Multiset.mem_coe]
  have hof : ∀ e ∈ order, e.2.2 ∈ tasks ∧ e.2.2.id = e.1 ∧ p e.2.2 = true ∧ e.2.1 = f e.2.2 := by
    rintro ⟨id, r, t⟩ he
    have hv := (hentry id (r, t)).mp he
    obtain ⟨ht, rfl⟩ := hattached id r t hv
    have hresult := (hlookup t ht).symm.trans hv
    split_ifs at hresult with hp
    exact ⟨ht, rfl, hp, (Prod.mk.inj (Option.some.inj hresult)).1.symm⟩
  have hkeys : (order.map Sigma.fst).Nodup := by
    have hnodup := results.nodupKeys
    rw [← horder] at hnodup
    exact Multiset.coe_nodupKeys.mp hnodup
  have htasks : (order.map (·.2.2)).Perm (tasks.filter p) := by
    have hnodup : (order.map (·.2.2)).Nodup := by
      refine List.Nodup.of_map Task.id ?_
      have hsame : order.map (Task.id ∘ fun e => e.2.2) = order.map Sigma.fst :=
        List.map_congr_left fun e he => (hof e he).2.1
      rwa [List.map_map, hsame]
    refine (List.perm_ext_iff_of_nodup hnodup (List.Nodup.of_map Task.id hids |>.filter p)).mpr fun t => ?_
    rw [List.mem_map, List.mem_filter]
    constructor
    · rintro ⟨e, he, rfl⟩
      exact ⟨(hof e he).1, (hof e he).2.2.1⟩
    · rintro ⟨ht, hp⟩
      exact ⟨⟨t.id, f t, t⟩, (hentry _ _).mpr (by rw [hlookup t ht, if_pos hp]), rfl⟩
  refine List.Perm.trans (List.Perm.of_eq ?_) (htasks.map f)
  rw [List.map_map]
  exact List.map_congr_left fun e he => (hof e he).2.2.2

-- What a job is left with when the worker has answered for all its batches. Each task has
-- the code and the output of its own script, or nothing where a worker has raised for its batch;
-- its output is written to its file once; and the code of the job is the worst of those that came.
theorem job_worked {es : List Event} {s : State} (hrun : run (step cfg) newTaskBackend es = some s)
    (hreturned : s.phase = .returned) (hids : ((submitted es).map Task.id).Nodup) (hcancel : .cancel ∉ es)
    (hserves : Serves script now es s) :
    (∀ t ∈ submitted es, s.results.lookup t.id =
        if finished es t then some (Worker.resultOf script now t, t) else none) ∧
      (∀ id r t, s.results.lookup id = some (r, t) → t ∈ submitted es ∧ t.id = id) ∧
      s.outputs.Perm (((submitted es).filter (finished es)).flatMap (Worker.outputOf script)) ∧
      ∀ order, GoMap.RangeOrder s.results order → processTaskResults (order.map (·.2.1)) =
        worst (((submitted es).filter (finished es)).map fun t => (script t.id.string).intCode) := by
  have hrecorded := recorded_run hrun hids hcancel (own_of_serves hserves)
  have hknown := (batched_run hrun).known
  have hattached := attached_run hrun
  have htasks := submitted_of_returned hrun hreturned
  have hlookup : ∀ t ∈ submitted es, s.results.lookup t.id =
      if finished es t then some (Worker.resultOf script now t, t) else none := by
    intro t ht
    split_ifs with hfinished
    · have hcame := (hrecorded.came t.id _).mpr ((came_iff hknown hids hserves ht _).mpr ⟨hfinished, rfl⟩)
      obtain ⟨⟨r, t'⟩, hv, hr⟩ := Option.map_eq_some_iff.mp hcame
      obtain ⟨hin, hid⟩ := hattached t.id r t' hv
      obtain rfl := eq_of_id hids (htasks ▸ hin) ht hid
      rw [hv, ← hr]
    · refine Option.eq_none_iff_forall_ne_some.mpr fun v hv => hfinished ?_
      exact ((came_iff hknown hids hserves ht v.1).mp ((hrecorded.came t.id v.1).mp (by rw [hv]; rfl))).1
  refine ⟨hlookup, fun id r t hv => htasks ▸ hattached id r t hv, ?_, fun order horder => ?_⟩
  · refine hrecorded.outputs.trans (List.Perm.of_eq ?_)
    rw [← htasks]
    refine flatMap_of_filter fun t ht => ?_
    rw [written, hlookup t ht]
    split_ifs
    · exact writeOutput_resultOf script now t
    · rfl
  · rw [processTaskResults_eq, worst, worst]
    have hperm := perm_of_rangeOrder hids hlookup (fun id r t hv => htasks ▸ hattached id r t hv) horder
    refine ((hperm.map TaskResult.exitCode).foldl_eq 0).trans ?_
    rw [List.map_map]
    rfl

-- A task whose output is wanted in a file beside one whose output is not.

def identifyRequest : Request := ⟨∅, "--file".toList, true, "/tmp/identify.log".toList, "/tmp/identify.err".toList⟩

def identifies : Str → Outcome := fun uuid =>
  if uuid = (⟨0x1⟩ : UUID).string then ⟨0, "fmt/43".toList, "slow".toList⟩ else ⟨2, [], []⟩

def noon : Str → Datetime := fun _ =>
  ⟨2024, 4, 12, 12, 0, 0, 0, by decide, by decide, by decide, by decide, by decide, by decide, by decide⟩

def sentBatch : Worker.Batch := ⟨[(⟨0x2⟩, ⟨some false⟩), (⟨0x1⟩, ⟨some true⟩)], by decide⟩

def identified : List Event := [
  .submit ⟨0x1⟩ [] identifyRequest,
  .submit ⟨0x2⟩ [] plainRequest,
  .wait,
  .save none,
  .update 0 (.complete (TaskResults.decode (Worker.handleJob identifies noon sentBatch.data))),
  .done]

theorem sends_identified :
    Worker.Sends (payload [newTask ⟨0x1⟩ [] identifyRequest, newTask ⟨0x2⟩ [] plainRequest]) sentBatch :=
  ⟨[⟨⟨0x2⟩, newTask ⟨0x2⟩ [] plainRequest⟩, ⟨⟨0x1⟩, newTask ⟨0x1⟩ [] identifyRequest⟩], rfl, rfl⟩

theorem job_worked_identified :
    ∃ s, run (step assignFileUUIDs) newTaskBackend identified = some s ∧
      s.outputs.Perm [("/tmp/identify.log".toList, "fmt/43".toList)] ∧
      ∀ order, GoMap.RangeOrder s.results order → processTaskResults (order.map (·.2.1)) = 2 := by
  have hphase : (run (step assignFileUUIDs) newTaskBackend identified).map State.phase = some .returned := by
    decide +kernel
  have hpayloads : (run (step assignFileUUIDs) newTaskBackend identified).map State.payloads =
      some [payload [newTask ⟨0x1⟩ [] identifyRequest, newTask ⟨0x2⟩ [] plainRequest]] := rfl
  obtain ⟨s, hrun, hreturned⟩ := Option.map_eq_some_iff.mp hphase
  rw [hrun, Option.map_some, Option.some.injEq] at hpayloads
  have hserves : Serves identifies noon identified s := by
    intro job u hu
    obtain ⟨rfl, rfl⟩ : job = 0 ∧ _ := by simpa [identified] using hu
    exact ⟨_, by rw [hpayloads]; rfl, .finished sends_identified⟩
  obtain ⟨-, -, houtputs, hcode⟩ := job_worked hrun hreturned (by decide) (by simp [identified]) hserves
  exact ⟨s, hrun, houtputs, fun order horder => (hcode order horder).trans (by decide)⟩

end Worked

end TaskBackend

end Ccp
