import Ccp.TaskBackend.Delivery

namespace Ccp

open Lib

-- A client script job from the exit code on: its status, and its next link.
def endWithExitCode (a : Answers) (wl : Workflow.Link) (code : Int) : M UUID := do
  updateStatusFromExitCode a wl code
  match exitCodeNext wl code with
  | none => throw .eof
  | some linkID => return linkID

theorem execClientScript_eq {a : Answers} {results : List TaskResult}
    (h : a.taskResults = .ok results) (wl : Workflow.Link) :
    execClientScript a wl = endWithExitCode a wl (processTaskResults results) := by
  funext w
  simp only [execClientScript, h]
  rfl

-- The loop never goes below where it starts, and stays there over codes that are
-- not larger.
theorem foldl_exitCode_eq_iff (results : List TaskResult) (code : Int) :
    results.foldl (fun max r => if max < r.exitCode then r.exitCode else max) code = code ↔
      ∀ r ∈ results, r.exitCode ≤ code := by
  have hle : ∀ (results : List TaskResult) (code : Int),
      code ≤ results.foldl (fun max r => if max < r.exitCode then r.exitCode else max) code := by
    intro results
    induction results with
    | nil => exact fun code => le_rfl
    | cons r results ih =>
        intro code
        rw [List.foldl_cons]
        refine le_trans ?_ (ih _)
        split_ifs with hlt
        · exact hlt.le
        · exact le_rfl
  induction results with
  | nil => simp
  | cons r results ih =>
      rw [List.foldl_cons, List.forall_mem_cons]
      split_ifs with hlt
      · have hgrown := hle results r.exitCode
        constructor
        · intro heq
          omega
        · intro h
          omega
      · refine ih.trans ?_
        exact ⟨fun h => ⟨not_lt.mp hlt, h⟩, fun h => h.2⟩

theorem processTaskResults_eq_zero_iff (results : List TaskResult) :
    processTaskResults results = 0 ↔ ∀ r ∈ results, r.exitCode ≤ 0 :=
  foldl_exitCode_eq_iff results 0

namespace TaskBackend

variable {cfg : Config}

-- The last result that came for a task of this id, among those that had been
-- cut into a batch by then, and before the context was done.
def hear (id : UUID) (s : State) (e : Event) (last : Option TaskResult) : Option TaskResult :=
  match e with
  | .update _ u =>
      if s.canceled = false ∧ ∃ t ∈ s.tasks, t.id = id then (u.resultOf id).or last else last
  | _ => last

def received (cfg : Config) (es : List Event) (id : UUID) : Option TaskResult :=
  follow (step cfg) (hear id) newTaskBackend es none

theorem crashed_step {s next : State} {e : Event} (h : s.phase = .crashed)
    (hstep : step cfg s e = some next) : next.phase = .crashed := by
  cases moves_of_step hstep with
  | submit hphase => exact nomatch h.symm.trans hphase
  | save hphase => exact nomatch h.symm.trans hphase
  | wait hphase => exact nomatch h.symm.trans hphase
  | unheard hopen hmem hnone => exact absurd h hopen
  | heard hopen hmem hctx hnull => exact absurd h hopen
  | crash hopen hmem hctx ht hnull => exact absurd h hopen
  | done hphase hnone => exact nomatch h.symm.trans hphase
  | stop hphase hctx => exact nomatch h.symm.trans hphase
  | cancel => exact h

theorem hear_of_call {id : UUID} {s : State} {e : Event} (he : ∀ job u, e ≠ .update job u)
    (last : Option TaskResult) : hear id s e last = last := by
  cases e with
  | update job u => exact absurd rfl (he job u)
  | _ => rfl

theorem received_step {s next : State} {e : Event} {id : UUID} (hphase : next.phase ≠ .crashed)
    (hstep : step cfg s e = some next) :
    (next.results.lookup id).map Prod.fst = hear id s e ((s.results.lookup id).map Prod.fst) := by
  cases effect_of_step hstep with
  | call he hsame => rw [hear_of_call he, hsame.results]
  | sent hpayloads hpending hresults htasks => rw [hear_of_call (e := .save _) nofun, hresults]
  | unheard hmem hpayloads hpending hresults htasks hnone =>
      rw [hresults, hear]
      rcases hnone with hctx | ⟨hcrashed, -⟩ | hnone
      · simp [hctx]
      · exact absurd hcrashed hphase
      · simp [hnone id]
  | @heard job res _ hmem hctx hpayloads hpending hresults htasks =>
      rw [hresults, hear]
      by_cases hknown : ∃ t ∈ s.tasks, t.id = id
      · rw [if_pos ⟨hctx, hknown⟩]
        cases hres : (res.lookup id).join with
        | none =>
            rw [lookup_foldl_recordResult_of_none _ (Or.inl hres), JobUpdate.resultOf, hres]
            rfl
        | some r =>
            have hsome : res.lookup id = some (some r) := Option.join_eq_some_iff.mp hres
            obtain ⟨t, -, -, hlookup⟩ := lookup_foldl_recordResult hsome s.results hknown
            rw [hlookup, JobUpdate.resultOf, hres]
            rfl
      · rw [if_neg fun h => hknown h.2, lookup_foldl_recordResult_of_none]
        exact Or.inr fun t ht hid => hknown ⟨t, ht, hid⟩

theorem received_run {es : List Event} {s : State}
    (hrun : run (step cfg) newTaskBackend es = some s) (hphase : s.phase ≠ .crashed) (id : UUID) :
    (s.results.lookup id).map Prod.fst = received cfg es id := by
  refine run_induction (step cfg) newTaskBackend (fun es s => s.phase ≠ .crashed →
    (s.results.lookup id).map Prod.fst = received cfg es id) ?_ ?_ es s hrun hphase
  · exact fun _ => rfl
  · intro es s e next hrun ih hstep hnext
    have hbefore := ih fun hcrashed => hnext (crashed_step hcrashed hstep)
    rw [received_step hnext hstep, hbefore, received, received, follow_snoc _ _ _ hrun hstep]

theorem processTaskResults_returned {es : List Event} {s : State}
    (hrun : run (step cfg) newTaskBackend es = some s) (hphase : s.phase = .returned)
    {order : List (Σ _ : UUID, TaskResult × Task)} (horder : GoMap.RangeOrder s.results order) :
    processTaskResults (order.map (·.2.1)) = 0 ↔
      ∀ t ∈ submitted es, ∀ r, received cfg es t.id = some r → r.exitCode ≤ 0 := by
  have hreceived : ∀ id, (s.results.lookup id).map Prod.fst = received cfg es id :=
    received_run hrun (by simp [hphase])
  have hentry : ∀ id v, (⟨id, v⟩ : Σ _ : UUID, TaskResult × Task) ∈ order ↔
      s.results.lookup id = some v := by
    intro id v
    rw [Finmap.lookup_eq_some_iff, ← horder, Multiset.mem_coe]
  have hall : submitted es = s.tasks := by
    have hbatched := batched_run hrun
    rw [hphase] at hbatched
    cases hbatched with
    | returned hsent hcut hsend hall => exact hall
  rw [processTaskResults_eq_zero_iff, List.forall_mem_map]
  constructor
  · intro h t ht r hr
    rw [← hreceived, Option.map_eq_some_iff] at hr
    obtain ⟨v, hv, rfl⟩ := hr
    exact h _ ((hentry t.id v).mpr hv)
  · rintro h ⟨id, r, t⟩ hmem
    have hlookup := (hentry id (r, t)).mp hmem
    obtain ⟨ht, rfl⟩ := attached_run hrun id r t hlookup
    refine h t (hall ▸ ht) r ?_
    rw [← hreceived, hlookup]
    rfl

-- The job is taken for a success that is none exactly where no positive code
-- came and some task has a negative one or none at all.
theorem success_sound_iff (cfg : Config) (es : List Event) (s : State)
    (order : List (Σ _ : UUID, TaskResult × Task)) (a : Answers)
    (hrun : run (step cfg) newTaskBackend es = some s) (hreturned : s.phase = .returned)
    (horder : GoMap.RangeOrder s.results order)
    (hresults : submitTasks s order = some a.taskResults) :
    (∀ wl, execClientScript a wl =
      endWithExitCode a wl (processTaskResults (order.map (·.2.1)))) ∧
    ((processTaskResults (order.map (·.2.1)) = 0 →
        ∀ t ∈ submitted es, ∃ r, received cfg es t.id = some r ∧ r.exitCode = 0) ↔
      (∃ t ∈ submitted es, ∃ r, received cfg es t.id = some r ∧ 0 < r.exitCode) ∨
        ∀ t ∈ submitted es, ∃ r, received cfg es t.id = some r ∧ 0 ≤ r.exitCode) := by
  have hok : a.taskResults = .ok (order.map (·.2.1)) := by
    rw [submitTasks, hreturned] at hresults
    exact (Option.some.inj hresults).symm
  refine ⟨execClientScript_eq hok, ?_⟩
  rw [processTaskResults_returned hrun hreturned horder]
  constructor
  · intro hsound
    by_cases hpositive : ∃ t ∈ submitted es, ∃ r, received cfg es t.id = some r ∧ 0 < r.exitCode
    · exact Or.inl hpositive
    · refine Or.inr fun t ht => ?_
      obtain ⟨r, hr, hzero⟩ := hsound (fun t ht r hr => not_lt.mp fun hlt =>
        hpositive ⟨t, ht, r, hr, hlt⟩) t ht
      exact ⟨r, hr, hzero.ge⟩
  · rintro (⟨t, ht, r, hr, hlt⟩ | hall) hnone u hu
    · exact absurd (hnone t ht r hr) (not_le.mpr hlt)
    · obtain ⟨r, hr, hge⟩ := hall u hu
      exact ⟨r, hr, le_antisymm (hnone u hu r hr) hge⟩

theorem success_sound_twoTasks :
    ∃ s order, run (step assignFileUUIDs) newTaskBackend (twoTasks ++ [.done]) = some s ∧
      GoMap.RangeOrder s.results order ∧
      (processTaskResults (order.map (·.2.1)) = 0 → ∀ t ∈ submitted (twoTasks ++ [.done]),
        ∃ r, received assignFileUUIDs (twoTasks ++ [.done]) t.id = some r ∧ r.exitCode = 0) := by
  let first := newTask ⟨0x1⟩ [] plainRequest
  let second := newTask ⟨0x2⟩ [] plainRequest
  let order : List (Σ _ : UUID, TaskResult × Task) :=
    [⟨second.id, exited 1, second⟩, ⟨first.id, exited 0, first⟩]
  have hrun : (run (step assignFileUUIDs) newTaskBackend (twoTasks ++ [.done])).isSome := rfl
  obtain ⟨s, hs⟩ := Option.isSome_iff_exists.mp hrun
  have hphase : (run (step assignFileUUIDs) newTaskBackend (twoTasks ++ [.done])).map State.phase =
      some .returned := rfl
  have hentries : (run (step assignFileUUIDs) newTaskBackend (twoTasks ++ [.done])).map
      (fun s => s.results.entries) = some (order : Multiset (Σ _ : UUID, TaskResult × Task)) := rfl
  rw [hs, Option.map_some, Option.some.injEq] at hphase hentries
  refine ⟨s, order, hs, hentries.symm, ?_⟩
  refine (success_sound_iff assignFileUUIDs (twoTasks ++ [.done]) s order
    { quiet with taskResults := .ok [exited 1, exited 0] } hs hphase hentries.symm ?_).2.mpr ?_
  · rw [submitTasks, hphase]
    rfl
  · exact Or.inl ⟨second, by simp [submitted, twoTasks, Event.submitted, second], exited 1, rfl,
      by decide⟩

-- One task whose script raises an exception in the worker.
def failedTask : List Event :=
  [.submit ⟨0x1⟩ [] plainRequest, .wait, .save none, .update 0 .fail, .done]

theorem failed_task_taken_for_success :
    ∃ s order, run (step assignFileUUIDs) newTaskBackend failedTask = some s ∧
      s.phase = .returned ∧ GoMap.RangeOrder s.results order ∧
      (∀ wl, execClientScript { quiet with taskResults := .ok (order.map (·.2.1)) } wl =
        endWithExitCode { quiet with taskResults := .ok (order.map (·.2.1)) } wl 0) ∧
      ¬ ∀ t ∈ submitted failedTask, ∃ r, received assignFileUUIDs failedTask t.id = some r ∧
        r.exitCode = 0 := by
  have hrun : (run (step assignFileUUIDs) newTaskBackend failedTask).map
      (fun s => (s.phase, s.results.entries)) = some (.returned, 0) := rfl
  obtain ⟨s, hs, hstate⟩ := Option.map_eq_some_iff.mp hrun
  obtain ⟨hphase, hentries⟩ := Prod.mk.inj hstate
  have hjob := @execClientScript_eq { quiet with taskResults := .ok [] } [] rfl
  refine ⟨s, [], hs, hphase, hentries.symm, hjob, fun hall => ?_⟩
  have hnone : received assignFileUUIDs failedTask ⟨0x1⟩ = none := rfl
  obtain ⟨r, hr, -⟩ := hall (newTask ⟨0x1⟩ [] plainRequest) (by
    simp [submitted, failedTask, Event.submitted])
  cases hnone.symm.trans hr

end TaskBackend

end Ccp
