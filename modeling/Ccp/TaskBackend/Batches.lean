import Ccp.TaskBackend

namespace Ccp.TaskBackend

open Lib

variable {cfg : Config}

inductive Moves (cfg : Config) (s : State) : Event → State → Prop
  | submit {id : UUID} {createdAt : Str} {req : Request} (hphase : s.phase = .submitting) :
      Moves cfg s (.submit id createdAt req) (submit (newTask id createdAt req) s)
  | save {batch : Slice} {last : Bool} {err : Option String}
      (hphase : s.phase = .sending batch last) :
      Moves cfg s (.save err) (saveBatch cfg batch last err s)
  | wait (hphase : s.phase = .submitting) : Moves cfg s .wait (wait s)
  | unheard {job : Nat} {u : JobUpdate} (hopen : s.phase ≠ .crashed) (hmem : job ∈ s.pending)
      (hnone : s.canceled ∨ ∀ res, u ≠ .complete (some res)) :
      Moves cfg s (.update job u) { s with pending := s.pending.erase job }
  | heard {job : Nat} {res : TaskResults} (hopen : s.phase ≠ .crashed) (hmem : job ∈ s.pending)
      (hctx : s.canceled = false) (hnull : ∀ t ∈ s.tasks, res.lookup t.id ≠ some none) :
      Moves cfg s (.update job (.complete (some res)))
        { s with
          pending := s.pending.erase job
          results := s.tasks.foldl (recordResult res) s.results
          outputs := s.outputs ++ s.tasks.flatMap (resultOutput res) }
  | crash {job : Nat} {res : TaskResults} {t : Task} (hopen : s.phase ≠ .crashed)
      (hmem : job ∈ s.pending) (hctx : s.canceled = false) (ht : t ∈ s.tasks)
      (hnull : res.lookup t.id = some none) :
      Moves cfg s (.update job (.complete (some res)))
        { s with pending := s.pending.erase job, phase := .crashed }
  | done (hphase : s.phase = .waiting) (hnone : s.pending = []) :
      Moves cfg s .done { s with phase := .returned }
  | stop (hphase : s.phase = .waiting) (hctx : s.canceled) :
      Moves cfg s .stop { s with phase := .failed "wait: context canceled" }
  | cancel : Moves cfg s .cancel { s with canceled := true }

theorem moves_update {s : State} {job : Nat} (u : JobUpdate) (hopen : s.phase ≠ .crashed)
    (hmem : job ∈ s.pending) :
    Moves cfg s (.update job u) (handleJobUpdate u { s with pending := s.pending.erase job }) := by
  unfold handleJobUpdate
  split_ifs with hctx
  · exact .unheard hopen hmem (Or.inl hctx)
  · split
    · next res =>
        split_ifs with hnull
        · obtain ⟨t, ht, hnull⟩ := List.any_eq_true.mp hnull
          exact .crash hopen hmem (by simpa using hctx) ht (by simpa using hnull)
        · refine .heard hopen hmem (by simpa using hctx) fun t ht hnone => hnull ?_
          exact List.any_eq_true.mpr ⟨t, ht, by simpa using hnone⟩
    · next hother => exact .unheard hopen hmem (Or.inr hother)

theorem moves_of_step {s next : State} {e : Event} (h : step cfg s e = some next) :
    Moves cfg s e next := by
  cases e with
  | submit id createdAt req =>
      simp only [step] at h
      split_ifs at h with hphase
      obtain rfl := Option.some.inj h
      exact .submit hphase
  | save err =>
      simp only [step] at h
      split at h
      · next batch last hphase =>
          obtain rfl := Option.some.inj h
          exact .save hphase
      · exact nomatch h
  | wait =>
      simp only [step] at h
      split_ifs at h with hphase
      obtain rfl := Option.some.inj h
      exact .wait hphase
  | update job u =>
      simp only [step] at h
      split_ifs at h with hopen
      obtain rfl := Option.some.inj h
      exact moves_update u hopen.1 hopen.2
  | done =>
      simp only [step] at h
      split_ifs at h with hphase
      obtain rfl := Option.some.inj h
      exact .done hphase.1 hphase.2
  | stop =>
      simp only [step] at h
      split_ifs at h with hphase
      obtain rfl := Option.some.inj h
      exact .stop hphase.1 hphase.2
  | cancel =>
      obtain rfl := Option.some.inj h
      exact .cancel

def Event.submitted : Event → Option Task
  | .submit id createdAt req => some (newTask id createdAt req)
  | _ => none

-- The tasks of the submit calls, in their order.
def submitted (es : List Event) : List Task := es.filterMap Event.submitted

theorem submitted_snoc_submit (es : List Event) (id : UUID) (createdAt : Str) (req : Request) :
    submitted (es ++ [.submit id createdAt req]) = submitted es ++ [newTask id createdAt req] := by
  simp [submitted, Event.submitted]

theorem submitted_snoc {es : List Event} {e : Event} (h : e.submitted = none) :
    submitted (es ++ [e]) = submitted es := by
  simp [submitted, h]

-- Every batch that submit cuts is full.
def Full (sent : List (List Task)) : Prop := ∀ b ∈ sent, b.length = batchSize

-- The batches that went out, in the store and to Gearman.
structure Sent (cfg : Config) (s : State) (sent : List (List Task)) : Prop where
  created : s.created = sent.map (·.map (storeTask cfg))
  payloads : s.payloads = sent.map payload
  count : s.count = sent.length

-- A batch that may be the last one.
def Sized (items : List Task) : Prop := 0 < items.length ∧ items.length ≤ batchSize

-- Batches as wait leaves them: all of them full but the last.
inductive Cut : List (List Task) → Prop
  | full {sent : List (List Task)} (hfull : Full sent) : Cut sent
  | rest {sent : List (List Task)} {items : List Task} (hfull : Full sent) (hsized : Sized items) :
      Cut (sent ++ [items])

-- What is left of this after an error.
def Known (tasks : List Task) (s : State) : Prop :=
  ∃ sent : List (List Task), s.payloads = sent.map payload ∧ sent.flatten <+: s.tasks ∧
    s.tasks <+: tasks

-- What holds of the submitted tasks at each point of the calls.
inductive Batched (cfg : Config) (tasks : List Task) (s : State) : Phase → Prop
  | submitting {sent : List (List Task)} (hsent : Sent cfg s sent) (hfull : Full sent)
      (hvalid : s.batch.Valid s.heap) (hlen : s.batch.len < batchSize)
      (hsend : s.tasks = sent.flatten) (hall : tasks = s.tasks ++ s.batch.read s.heap) :
      Batched cfg tasks s .submitting
  | sending {sent : List (List Task)} {batch : Slice} {last : Bool} (hsent : Sent cfg s sent)
      (hfull : Full sent) (hvalid : s.batch.Valid s.heap) (hempty : s.batch.len = 0)
      (hsized : Sized (batch.read s.heap))
      (hlast : last = false → (batch.read s.heap).length = batchSize)
      (hsend : s.tasks = sent.flatten ++ batch.read s.heap) (hall : tasks = s.tasks) :
      Batched cfg tasks s (.sending batch last)
  | waiting {sent : List (List Task)} (hsent : Sent cfg s sent) (hcut : Cut sent)
      (hsend : s.tasks = sent.flatten) (hall : tasks = s.tasks) : Batched cfg tasks s .waiting
  | returned {sent : List (List Task)} (hsent : Sent cfg s sent) (hcut : Cut sent)
      (hsend : s.tasks = sent.flatten) (hall : tasks = s.tasks) : Batched cfg tasks s .returned
  | failed (text : String) (hknown : Known tasks s) : Batched cfg tasks s (.failed text)
  | crashed (hknown : Known tasks s) : Batched cfg tasks s .crashed

theorem Batched.known {tasks : List Task} {s : State} {phase : Phase}
    (h : Batched cfg tasks s phase) : Known tasks s := by
  cases h with
  | submitting hsent _ _ _ hsend hall =>
      exact ⟨_, hsent.payloads, hsend ▸ List.prefix_rfl, hall ▸ List.prefix_append _ _⟩
  | sending hsent _ _ _ _ _ hsend hall =>
      exact ⟨_, hsent.payloads, hsend ▸ List.prefix_append _ _, hall ▸ List.prefix_rfl⟩
  | waiting hsent _ hsend hall =>
      exact ⟨_, hsent.payloads, hsend ▸ List.prefix_rfl, hall ▸ List.prefix_rfl⟩
  | returned hsent _ hsend hall =>
      exact ⟨_, hsent.payloads, hsend ▸ List.prefix_rfl, hall ▸ List.prefix_rfl⟩
  | failed text hknown => exact hknown
  | crashed hknown => exact hknown

theorem batched_newTaskBackend : Batched cfg [] newTaskBackend .submitting :=
  @Batched.submitting _ _ _ [] ⟨rfl, rfl, rfl⟩ nofun ⟨by decide, by decide⟩ (by decide) rfl rfl

-- A move of anything else keeps what is known of the batches.
theorem Batched.frame {tasks : List Task} {s : State} {phase : Phase}
    (h : Batched cfg tasks s phase) (pending : List Nat)
    (results : GoMap UUID (TaskResult × Task)) (outputs : List (Str × Str)) (canceled : Bool) :
    Batched cfg tasks
      { s with
        pending := pending
        results := results
        outputs := outputs
        canceled := canceled } phase := by
  cases h with
  | submitting hsent hfull hvalid hlen hsend hall =>
      exact .submitting ⟨hsent.1, hsent.2, hsent.3⟩ hfull hvalid hlen hsend hall
  | sending hsent hfull hvalid hempty hsized hlast hsend hall =>
      exact .sending ⟨hsent.1, hsent.2, hsent.3⟩ hfull hvalid hempty hsized hlast hsend hall
  | waiting hsent hcut hsend hall => exact .waiting ⟨hsent.1, hsent.2, hsent.3⟩ hcut hsend hall
  | returned hsent hcut hsend hall => exact .returned ⟨hsent.1, hsent.2, hsent.3⟩ hcut hsend hall
  | failed text hknown => exact .failed text hknown
  | crashed hknown => exact .crashed hknown

-- A slice that is not longer than a batch is sent whole.
theorem sendBatch_eq {s : State} {last : Bool} (hpos : 0 < s.batch.len)
    (hle : s.batch.len ≤ batchSize) :
    sendBatch last s = { s with
      batch := s.batch.take 0
      tasks := s.tasks ++ s.batch.read s.heap
      phase := .sending s.batch last } := by
  have hsize : s.batch.len - (if s.batch.len < batchSize then s.batch.len else batchSize) = 0 := by
    split_ifs <;> omega
  have hwhole : s.batch.drop 0 = s.batch := by simp [Slice.drop]
  simp only [sendBatch, Nat.pos_iff_ne_zero.mp hpos, if_false, hsize, hwhole]

theorem batched_sendBatch {tasks : List Task} {s : State} {sent : List (List Task)} {last : Bool}
    (hsent : Sent cfg s sent) (hfull : Full sent) (hvalid : s.batch.Valid s.heap)
    (hpos : 0 < s.batch.len) (hle : s.batch.len ≤ batchSize)
    (hlast : last = false → s.batch.len = batchSize) (hsend : s.tasks = sent.flatten)
    (hall : tasks = s.tasks ++ s.batch.read s.heap) :
    Batched cfg tasks (sendBatch last s) (sendBatch last s).phase := by
  have hlen := Slice.length_read hvalid
  rw [sendBatch_eq hpos hle]
  refine .sending ⟨hsent.1, hsent.2, hsent.3⟩ hfull (Slice.valid_take hvalid (Nat.zero_le _)) rfl
    ⟨?_, ?_⟩ ?_ ?_ hall
  · exact hlen ▸ hpos
  · exact hlen ▸ hle
  · exact fun h => hlen.trans (hlast h)
  · exact congrArg (· ++ _) hsend

theorem batched_submit {tasks : List Task} {s : State} (t : Task) (hphase : s.phase = .submitting)
    (h : Batched cfg tasks s s.phase) :
    Batched cfg (tasks ++ [t]) (submit t s) (submit t s).phase := by
  rw [hphase] at h
  cases h with
  | @submitting sent hsent hfull hvalid hlen hsend hall =>
      have hread := Slice.read_append hvalid t
      have hvalid' := Slice.valid_append hvalid t
      have hlen' := Slice.len_append s.heap s.batch t
      have hall' : tasks ++ [t] =
          s.tasks ++ (Slice.append s.heap s.batch t).2.read (Slice.append s.heap s.batch t).1 := by
        rw [hread, hall, List.append_assoc]
      unfold submit
      generalize Slice.append s.heap s.batch t = grown at hvalid' hlen' hall'
      obtain ⟨heap, batch⟩ := grown
      dsimp only at hvalid' hlen' hall' ⊢
      split_ifs with hmod
      · have heq : batch.len = batchSize := by
          obtain ⟨k, hk⟩ := Nat.dvd_of_mod_eq_zero hmod
          unfold batchSize at *
          omega
        have hsent' : Sent cfg { s with heap := heap, batch := batch } sent :=
          ⟨hsent.1, hsent.2, hsent.3⟩
        exact batched_sendBatch hsent' hfull hvalid' (by simp only; omega) heq.le (fun _ => heq)
          hsend hall'
      · have hne : batch.len ≠ batchSize := fun heq => hmod (by rw [heq, Nat.mod_self])
        rw [hphase]
        exact .submitting ⟨hsent.1, hsent.2, hsent.3⟩ hfull hvalid' (by simp only; omega) hsend hall'

theorem batched_wait {tasks : List Task} {s : State} (hphase : s.phase = .submitting)
    (h : Batched cfg tasks s s.phase) : Batched cfg tasks (wait s) (wait s).phase := by
  rw [hphase] at h
  cases h with
  | @submitting sent hsent hfull hvalid hlen hsend hall =>
      unfold wait
      split_ifs with hpos
      · exact batched_sendBatch hsent hfull hvalid hpos hlen.le nofun hsend hall
      · have hempty : s.batch.read s.heap = [] := by
          rw [← List.length_eq_zero_iff, Slice.length_read hvalid]
          omega
        rw [hempty, List.append_nil] at hall
        exact .waiting ⟨hsent.1, hsent.2, hsent.3⟩ (.full hfull) hsend hall

theorem mem_payload_of_mem {batch : List Task} {t : Task} (ht : t ∈ batch) :
    t.id ∈ (payload batch).keys := by
  induction batch using List.reverseRecOn with
  | nil => exact absurd ht List.not_mem_nil
  | append_singleton front last ih =>
      rw [payload, List.foldl_append, Finmap.mem_keys]
      rcases List.mem_append.mp ht with hfront | hlast
      · exact Finmap.mem_insert.mpr (Or.inr (Finmap.mem_keys.mp (ih hfront)))
      · obtain rfl := List.mem_singleton.mp hlast
        exact Finmap.mem_insert.mpr (Or.inl rfl)

theorem saveBatch_eq {s : State} {batch : Slice} {last : Bool}
    (hpos : 0 < (batch.read s.heap).length) :
    saveBatch cfg batch last none s = { s with
      created := s.created ++ [(batch.read s.heap).map (storeTask cfg)]
      payloads := s.payloads ++ [payload (batch.read s.heap)]
      pending := s.pending ++ [s.payloads.length]
      count := s.count + 1
      phase := after last } := by
  obtain ⟨t, ht⟩ := List.exists_mem_of_length_pos hpos
  have hkeys : (payload (batch.read s.heap)).keys ≠ ∅ :=
    Finset.ne_empty_of_mem (mem_payload_of_mem ht)
  simp only [saveBatch, hkeys, if_false]

theorem batched_saveBatch {tasks : List Task} {s : State} {batch : Slice} {last : Bool}
    (err : Option String) (hphase : s.phase = .sending batch last)
    (h : Batched cfg tasks s s.phase) :
    Batched cfg tasks (saveBatch cfg batch last err s) (saveBatch cfg batch last err s).phase := by
  cases err with
  | some text => exact .failed _ h.known
  | none =>
      rw [hphase] at h
      cases h with
      | @sending sent _ _ hsent hfull hvalid hempty hsized hlast hsend hall =>
          rw [saveBatch_eq hsized.1]
          have hsent' : Sent cfg { s with
              created := s.created ++ [(batch.read s.heap).map (storeTask cfg)]
              payloads := s.payloads ++ [payload (batch.read s.heap)]
              pending := s.pending ++ [s.payloads.length]
              count := s.count + 1
              phase := after last } (sent ++ [batch.read s.heap]) :=
            ⟨by simp [hsent.1], by simp [hsent.2], by simp [hsent.3]⟩
          have hsend' : s.tasks = (sent ++ [batch.read s.heap]).flatten := by simp [hsend]
          cases last with
          | true => exact .waiting hsent' (.rest hfull hsized) hsend' hall
          | false =>
              have hrest : s.batch.read s.heap = [] := by
                rw [← List.length_eq_zero_iff, Slice.length_read hvalid, hempty]
              refine .submitting hsent' (fun b hb => ?_) hvalid ?_ hsend' ?_
              · rcases List.mem_append.mp hb with hb | hb
                · exact hfull b hb
                · obtain rfl := List.mem_singleton.mp hb
                  exact hlast rfl
              · simp only [hempty]
                decide
              · simp only [hrest, List.append_nil, hall]

theorem batched_step {es : List Event} {s next : State} {e : Event}
    (h : Batched cfg (submitted es) s s.phase) (hstep : step cfg s e = some next) :
    Batched cfg (submitted (es ++ [e])) next next.phase := by
  cases moves_of_step hstep with
  | submit hphase =>
      rw [submitted_snoc_submit]
      exact batched_submit _ hphase h
  | save hphase =>
      rw [submitted_snoc rfl]
      exact batched_saveBatch _ hphase h
  | wait hphase =>
      rw [submitted_snoc rfl]
      exact batched_wait hphase h
  | unheard hopen hmem hnone =>
      rw [submitted_snoc rfl]
      exact h.frame (s.pending.erase _) s.results s.outputs s.canceled
  | heard hopen hmem hctx hnull =>
      rw [submitted_snoc rfl]
      exact h.frame (s.pending.erase _) (s.tasks.foldl (recordResult _) s.results)
        (s.outputs ++ s.tasks.flatMap (resultOutput _)) s.canceled
  | crash hopen hmem hctx ht hnull =>
      rw [submitted_snoc rfl]
      exact .crashed h.known
  | done hphase hnone =>
      rw [submitted_snoc rfl]
      rw [hphase] at h
      cases h with
      | waiting hsent hcut hsend hall =>
          exact .returned ⟨hsent.1, hsent.2, hsent.3⟩ hcut hsend hall
  | stop hphase hctx =>
      rw [submitted_snoc rfl]
      exact .failed _ h.known
  | cancel =>
      rw [submitted_snoc rfl]
      exact h.frame s.pending s.results s.outputs true

theorem batched_run {es : List Event} {s : State}
    (hrun : run (step cfg) newTaskBackend es = some s) :
    Batched cfg (submitted es) s s.phase :=
  run_induction (step cfg) newTaskBackend (fun es s => Batched cfg (submitted es) s s.phase)
    batched_newTaskBackend (fun _ _ _ _ _ => batched_step) es s hrun

theorem Cut.sized {sent : List (List Task)} (h : Cut sent) : ∀ b ∈ sent, Sized b := by
  have hsized : ∀ {sent : List (List Task)}, Full sent → ∀ b ∈ sent, Sized b := fun hfull b hb =>
    ⟨hfull b hb ▸ by decide, (hfull b hb).le⟩
  cases h with
  | full hfull => exact hsized hfull
  | rest hfull hlast =>
      intro b hb
      rcases List.mem_append.mp hb with hb | hb
      · exact hsized hfull b hb
      · obtain rfl := List.mem_singleton.mp hb
        exact hlast

theorem Full.length_flatten {sent : List (List Task)} (h : Full sent) :
    sent.flatten.length = sent.length * batchSize := by
  rw [List.length_flatten, List.map_eq_replicate_iff.mpr h, List.sum_replicate_nat]

-- As many batches as the tasks need.
theorem Cut.length {sent : List (List Task)} (h : Cut sent) :
    sent.length = (sent.flatten.length + (batchSize - 1)) / batchSize := by
  cases h with
  | full hfull =>
      rw [hfull.length_flatten]
      unfold batchSize
      omega
  | @rest sent items hfull hlast =>
      have hlen := hfull.length_flatten
      obtain ⟨hpos, hle⟩ := hlast
      simp only [List.flatten_append, List.length_append, hlen, List.flatten_singleton,
        List.length_singleton]
      unfold batchSize at *
      omega

end Ccp.TaskBackend
