import Ccp.TaskBackend.Batches

namespace Ccp

open Lib

-- What an update says of one task.
def JobUpdate.resultOf (id : UUID) : JobUpdate → Option TaskResult
  | .complete (some res) => (res.lookup id).join
  | _ => none

def JobUpdate.HasNull (u : JobUpdate) : Prop :=
  ∃ res id, u = .complete (some res) ∧ res.lookup id = some none

namespace TaskBackend

variable {cfg : Config}

-- Calls of the job leave what came from the workers alone.
structure Same (s next : State) : Prop where
  pending : next.pending = s.pending
  payloads : next.payloads = s.payloads
  results : next.results = s.results
  tasks : s.tasks <+: next.tasks

theorem same_sendBatch (last : Bool) (s : State) : Same s (sendBatch last s) := by
  unfold sendBatch
  dsimp only
  split
  · exact ⟨rfl, rfl, rfl, List.prefix_rfl⟩
  · exact ⟨rfl, rfl, rfl, List.prefix_append _ _⟩

theorem same_submit (t : Task) (s : State) : Same s (submit t s) := by
  unfold submit
  dsimp only
  split_ifs with hfull
  · obtain ⟨hpending, hpayloads, hresults, htasks⟩ := same_sendBatch false
      { s with heap := (Slice.append s.heap s.batch t).1, batch := (Slice.append s.heap s.batch t).2 }
    exact ⟨hpending, hpayloads, hresults, htasks⟩
  · exact ⟨rfl, rfl, rfl, List.prefix_rfl⟩

theorem same_wait (s : State) : Same s (wait s) := by
  unfold wait
  split_ifs with hrest
  · exact same_sendBatch true s
  · exact ⟨rfl, rfl, rfl, List.prefix_rfl⟩

-- A step by what it does to the payloads and to the results.
inductive Effect (s : State) : Event → State → Prop
  | call {e : Event} {next : State} (he : ∀ job u, e ≠ .update job u) (hsame : Same s next) :
      Effect s e next
  | sent {err : Option String} {next : State} {p : GoMap UUID Task}
      (hpayloads : next.payloads = s.payloads ++ [p])
      (hpending : next.pending = s.pending ++ [s.payloads.length])
      (hresults : next.results = s.results) (htasks : next.tasks = s.tasks) :
      Effect s (.save err) next
  | unheard {job : Nat} {u : JobUpdate} {next : State} (hmem : job ∈ s.pending)
      (hpayloads : next.payloads = s.payloads) (hpending : next.pending = s.pending.erase job)
      (hresults : next.results = s.results) (htasks : next.tasks = s.tasks)
      (hnone : s.canceled ∨ (next.phase = .crashed ∧ u.HasNull) ∨ ∀ id, u.resultOf id = none) :
      Effect s (.update job u) next
  | heard {job : Nat} {res : TaskResults} {next : State} (hmem : job ∈ s.pending)
      (hctx : s.canceled = false)
      (hpayloads : next.payloads = s.payloads) (hpending : next.pending = s.pending.erase job)
      (hresults : next.results = s.tasks.foldl (recordResult res) s.results)
      (htasks : next.tasks = s.tasks) : Effect s (.update job (.complete (some res))) next

theorem resultOf_eq_none {u : JobUpdate} (h : ∀ res, u ≠ .complete (some res)) (id : UUID) :
    u.resultOf id = none := by
  cases u with
  | complete results =>
      cases results with
      | none => rfl
      | some res => exact absurd rfl (h res)
  | _ => rfl

theorem effect_of_step {s next : State} {e : Event} (h : step cfg s e = some next) :
    Effect s e next := by
  cases moves_of_step h with
  | submit hphase => exact .call nofun (same_submit _ s)
  | @save batch last err hphase =>
      cases err with
      | some text => exact .call nofun ⟨rfl, rfl, rfl, List.prefix_rfl⟩
      | none =>
          unfold saveBatch
          dsimp only
          split_ifs with hempty
          · exact .call nofun ⟨rfl, rfl, rfl, List.prefix_rfl⟩
          · exact .sent rfl rfl rfl rfl
  | wait hphase => exact .call nofun (same_wait s)
  | unheard hopen hmem hnone =>
      exact .unheard hmem rfl rfl rfl rfl (hnone.imp_right fun h => Or.inr (resultOf_eq_none h))
  | heard hopen hmem hctx hnull => exact .heard hmem hctx rfl rfl rfl rfl
  | crash hopen hmem hctx ht hnull =>
      exact .unheard hmem rfl rfl rfl rfl (Or.inr (Or.inl ⟨rfl, _, _, rfl, hnull⟩))
  | done hphase hnone => exact .call nofun ⟨rfl, rfl, rfl, List.prefix_rfl⟩
  | stop hphase hctx => exact .call nofun ⟨rfl, rfl, rfl, List.prefix_rfl⟩
  | cancel => exact .call nofun ⟨rfl, rfl, rfl, List.prefix_rfl⟩

-- A payload is pending until its first update.
structure Awaited (es : List Event) (s : State) : Prop where
  nodup : s.pending.Nodup
  sent : ∀ job ∈ s.pending, job < s.payloads.length
  fresh : ∀ job ∈ s.pending, ∀ u, .update job u ∉ es
  answered : ∀ job < s.payloads.length, job ∉ s.pending → ∃ u, .update job u ∈ es
  known : ∀ job u, .update job u ∈ es → job < s.payloads.length

theorem awaited_update {es : List Event} {s next : State} {job : Nat} {u : JobUpdate}
    (h : Awaited es s) (hmem : job ∈ s.pending) (hpayloads : next.payloads = s.payloads)
    (hpending : next.pending = s.pending.erase job) : Awaited (es ++ [.update job u]) next := by
  constructor
  · exact hpending ▸ h.nodup.erase job
  · intro k hk
    rw [hpending] at hk
    exact hpayloads ▸ h.sent k (List.mem_of_mem_erase hk)
  · intro k hk v hv
    rw [hpending, h.nodup.mem_erase_iff] at hk
    rcases List.mem_append.mp hv with hv | hv
    · exact h.fresh k hk.2 v hv
    · obtain ⟨rfl, rfl⟩ : k = job ∧ v = u := by simpa using hv
      exact hk.1 rfl
  · intro k hk hnot
    rw [hpayloads] at hk
    rw [hpending, h.nodup.mem_erase_iff] at hnot
    by_cases hjob : k = job
    · subst hjob
      exact ⟨u, by simp⟩
    · obtain ⟨v, hv⟩ := h.answered k hk fun hin => hnot ⟨hjob, hin⟩
      exact ⟨v, List.mem_append_left _ hv⟩
  · intro k v hv
    rw [hpayloads]
    rcases List.mem_append.mp hv with hv | hv
    · exact h.known k v hv
    · obtain ⟨rfl, rfl⟩ : k = job ∧ v = u := by simpa using hv
      exact h.sent k hmem

theorem awaited_step {es : List Event} {s next : State} {e : Event} (h : Awaited es s)
    (hstep : step cfg s e = some next) : Awaited (es ++ [e]) next := by
  cases effect_of_step hstep with
  | call he hsame =>
      have hupdate : ∀ job u, .update job u ∈ es ++ [e] ↔ .update job u ∈ es := by
        intro job u
        simp [(he job u).symm]
      constructor
      · exact hsame.pending ▸ h.nodup
      · exact hsame.pending ▸ hsame.payloads ▸ h.sent
      · simpa only [hupdate, hsame.pending] using h.fresh
      · simpa only [hupdate, hsame.pending, hsame.payloads] using h.answered
      · simpa only [hupdate, hsame.payloads] using h.known
  | @sent err _ p hpayloads hpending hresults htasks =>
      have hupdate : ∀ job u, .update job u ∈ es ++ [.save err] ↔ .update job u ∈ es := by simp
      have hlen : next.payloads.length = s.payloads.length + 1 := by simp [hpayloads]
      constructor
      · rw [hpending]
        refine h.nodup.append (List.nodup_singleton _) ?_
        rw [List.disjoint_singleton]
        exact fun hmem => absurd (h.sent _ hmem) (Nat.lt_irrefl _)
      · intro job hjob
        rw [hpending, List.mem_append, List.mem_singleton] at hjob
        rcases hjob with hjob | rfl
        · exact hlen ▸ Nat.lt_succ_of_lt (h.sent job hjob)
        · exact hlen ▸ Nat.lt_succ_self _
      · intro job hjob u hu
        rw [hpending, List.mem_append, List.mem_singleton] at hjob
        rcases hjob with hjob | rfl
        · exact h.fresh job hjob u ((hupdate job u).mp hu)
        · exact absurd (h.known _ u ((hupdate _ u).mp hu)) (Nat.lt_irrefl _)
      · intro job hjob hnot
        rw [hpending, List.mem_append, List.mem_singleton, not_or] at hnot
        obtain ⟨u, hu⟩ := h.answered job (by omega) hnot.1
        exact ⟨u, (hupdate job u).mpr hu⟩
      · intro job u hu
        exact hlen ▸ Nat.lt_succ_of_lt (h.known job u ((hupdate job u).mp hu))
  | unheard hmem hpayloads hpending hresults htasks hnone =>
      exact awaited_update h hmem hpayloads hpending
  | heard hmem hctx hpayloads hpending hresults htasks =>
      exact awaited_update h hmem hpayloads hpending

theorem awaited_run {es : List Event} {s : State}
    (hrun : run (step cfg) newTaskBackend es = some s) : Awaited es s :=
  run_induction (step cfg) newTaskBackend Awaited ⟨by decide, nofun, nofun, nofun, nofun⟩
    (fun _ _ _ _ _ => awaited_step) es s hrun

-- The loop of handleJobUpdate, entry by entry.

theorem lookup_foldl_recordResult {res : TaskResults} {id : UUID} {r : TaskResult}
    (hres : res.lookup id = some (some r)) {tasks : List Task}
    (results : GoMap UUID (TaskResult × Task)) (ht : ∃ t ∈ tasks, t.id = id) :
    ∃ t ∈ tasks, t.id = id ∧ (tasks.foldl (recordResult res) results).lookup id = some (r, t) := by
  induction tasks using List.reverseRecOn with
  | nil => simp at ht
  | append_singleton front last ih =>
      simp only [List.foldl_append, List.foldl_cons, List.foldl_nil]
      by_cases hid : last.id = id
      · refine ⟨last, by simp, hid, ?_⟩
        rw [recordResult, hid, hres]
        exact Finmap.lookup_insert _
      · obtain ⟨t, htin, htid, hlookup⟩ := ih (by
          obtain ⟨t, htin, htid⟩ := ht
          rcases List.mem_append.mp htin with htin | htin
          · exact ⟨t, htin, htid⟩
          · exact absurd (List.mem_singleton.mp htin ▸ htid) hid)
        refine ⟨t, List.mem_append_left _ htin, htid, ?_⟩
        unfold recordResult
        split
        · rw [Finmap.lookup_insert_of_ne _ (Ne.symm hid)]
          exact hlookup
        · exact hlookup

theorem lookup_foldl_recordResult_of_none {res : TaskResults} {id : UUID} {tasks : List Task}
    (results : GoMap UUID (TaskResult × Task))
    (hnone : (res.lookup id).join = none ∨ ∀ t ∈ tasks, t.id ≠ id) :
    (tasks.foldl (recordResult res) results).lookup id = results.lookup id := by
  induction tasks generalizing results with
  | nil => rfl
  | cons t tasks ih =>
      rw [List.foldl_cons, ih _ (hnone.imp_right fun h t ht => h t (List.mem_cons_of_mem _ ht))]
      unfold recordResult
      split
      · next r hr =>
          refine Finmap.lookup_insert_of_ne _ fun hid => ?_
          subst hid
          rcases hnone with hnone | hne
          · simp [hr] at hnone
          · exact hne t List.mem_cons_self rfl
      · rfl

end TaskBackend

end Ccp
