import Ccp.TaskBackend.Delivery

namespace Ccp.TaskBackend

open Lib

variable {cfg : Config}

-- What one backend has added to GearmanPendingJobsGauge and GearmanActiveJobsGauge.
structure Gauges where
  pending : ℤ
  active : ℤ
deriving DecidableEq

structure Metered where
  backend : State
  gauges : Gauges
  -- the payloads whose update has passed the context check of handleJobUpdate
  -- and is not counted yet
  taken : List Nat

def newMetered : Metered := ⟨newTaskBackend, ⟨0, 0⟩, []⟩

inductive Act
  | event (e : Event)
  -- the Dec of handleJobUpdate
  | dec (job : Nat)

-- The Inc of submit, ahead of sendBatch.
def submitGauges (t : Task) (s : State) (g : Gauges) : Gauges :=
  if (Slice.append s.heap s.batch t).2.len % batchSize = 0 then { g with pending := g.pending + 1 }
  else g

-- The Inc and the Dec of sendBatch, once the tasks are saved and marshaled.
def saveGauges (batch : Slice) (err : Option String) (s : State) (g : Gauges) : Gauges :=
  match err with
  | some _ => g
  | none =>
      if (payload (batch.read s.heap)).keys = ∅ then g
      else { pending := g.pending - 1, active := g.active + 1 }

def gaugesAfter (s : State) (g : Gauges) : Event → Gauges
  | .submit id createdAt req => submitGauges (newTask id createdAt req) s g
  | .save err =>
      match s.phase with
      | .sending batch _ => saveGauges batch err s g
      | _ => g
  | _ => g

-- Where the context is canceled, handleJobUpdate is left before the Dec.
def takenAfter (s : State) (taken : List Nat) : Event → List Nat
  | .update job _ => if s.canceled then taken else taken ++ [job]
  | _ => taken

-- The wait group lasts until the goroutines are out of handleJobUpdate.
def held (m : Metered) : Event → Bool
  | .done => !m.taken.isEmpty
  | _ => false

def meter (cfg : Config) (m : Metered) : Act → Option Metered
  | .event e =>
      if held m e then none
      else
        (step cfg m.backend e).map fun next =>
          { backend := next
            gauges := gaugesAfter m.backend m.gauges e
            taken := takenAfter m.backend m.taken e }
  | .dec job =>
      if job ∈ m.taken then
        some { m with
          gauges := { m.gauges with active := m.gauges.active - 1 }
          taken := m.taken.erase job }
      else none

def Act.event? : Act → Option Event
  | .event e => some e
  | .dec _ => none

def Act.dec? : Act → Option Nat
  | .event _ => none
  | .dec job => some job

-- The run of the backend itself.
def events (acts : List Act) : List Event := acts.filterMap Act.event?

-- The payloads whose update has been counted.
def counted (acts : List Act) : List Nat := acts.filterMap Act.dec?

@[simp] theorem events_snoc_event (acts : List Act) (e : Event) :
    events (acts ++ [.event e]) = events acts ++ [e] := by
  simp [events, Act.event?]

@[simp] theorem events_snoc_dec (acts : List Act) (job : Nat) :
    events (acts ++ [.dec job]) = events acts := by
  simp [events, Act.event?]

@[simp] theorem counted_snoc_event (acts : List Act) (e : Event) :
    counted (acts ++ [.event e]) = counted acts := by
  simp [counted, Act.dec?]

@[simp] theorem counted_snoc_dec (acts : List Act) (job : Nat) :
    counted (acts ++ [.dec job]) = counted acts ++ [job] := by
  simp [counted, Act.dec?]

theorem meter_event_eq_some {m next : Metered} {e : Event}
    (h : meter cfg m (.event e) = some next) :
    (e = .done → m.taken = []) ∧ step cfg m.backend e = some next.backend ∧
      next.gauges = gaugesAfter m.backend m.gauges e ∧
      next.taken = takenAfter m.backend m.taken e := by
  simp only [meter] at h
  split_ifs at h with hheld
  obtain ⟨s, hs, rfl⟩ := Option.map_eq_some_iff.mp h
  refine ⟨?_, hs, rfl, rfl⟩
  rintro rfl
  simpa [held] using hheld

theorem meter_dec_eq_some {m next : Metered} {job : Nat} (h : meter cfg m (.dec job) = some next) :
    job ∈ m.taken ∧ next.backend = m.backend ∧ next.taken = m.taken.erase job ∧
      next.gauges = { m.gauges with active := m.gauges.active - 1 } := by
  simp only [meter] at h
  split_ifs at h with hmem
  obtain rfl := Option.some.inj h
  exact ⟨hmem, rfl, rfl, rfl⟩

-- The gauges do not change what the backend does.
theorem run_backend {acts : List Act} {m : Metered}
    (hrun : run (meter cfg) newMetered acts = some m) :
    run (step cfg) newTaskBackend (events acts) = some m.backend := by
  refine run_induction (meter cfg) newMetered
    (fun acts m => run (step cfg) newTaskBackend (events acts) = some m.backend) rfl ?_ acts m hrun
  intro acts m a next _ ih hstep
  cases a with
  | event e =>
      rw [events_snoc_event]
      exact (run_snoc_eq_some _).mpr ⟨_, ih, (meter_event_eq_some hstep).2.1⟩
  | dec job =>
      rw [events_snoc_dec, (meter_dec_eq_some hstep).2.1]
      exact ih

-- The active gauge.

theorem active_gaugesAfter {s next : State} {e : Event} (g : Gauges)
    (h : step cfg s e = some next) :
    (gaugesAfter s g e).active + s.payloads.length = g.active + next.payloads.length := by
  cases moves_of_step h with
  | submit hphase =>
      rw [(same_submit _ s).payloads]
      simp only [gaugesAfter, submitGauges]
      split_ifs <;> rfl
  | @save batch last err hphase =>
      simp only [gaugesAfter, hphase]
      cases err with
      | some text => rfl
      | none =>
          simp only [saveGauges, saveBatch]
          split_ifs with hempty
          · rfl
          · simp only [List.length_append, List.length_singleton]
            omega
  | wait hphase =>
      rw [(same_wait s).payloads]
      rfl
  | _ => rfl

-- As many as there are payloads less those that were counted.
theorem active_run {acts : List Act} {m : Metered}
    (hrun : run (meter cfg) newMetered acts = some m) :
    m.gauges.active + (counted acts).length = m.backend.payloads.length := by
  refine run_induction (meter cfg) newMetered
    (fun acts m => m.gauges.active + (counted acts).length = m.backend.payloads.length) rfl ?_
    acts m hrun
  intro acts m a next _ ih hstep
  cases a with
  | event e =>
      obtain ⟨-, hbackend, hgauges, -⟩ := meter_event_eq_some hstep
      have hactive := active_gaugesAfter m.gauges hbackend
      rw [counted_snoc_event, hgauges]
      omega
  | dec job =>
      obtain ⟨-, hbackend, -, hgauges⟩ := meter_dec_eq_some hstep
      rw [counted_snoc_dec, hgauges, hbackend]
      simp only [List.length_append, List.length_singleton]
      omega

-- The payloads by what has become of their update.
def jobs (acts : List Act) (m : Metered) : List Nat :=
  counted acts ++ (m.taken ++ m.backend.pending)

-- Every payload is counted at most once, and where the context is not canceled
-- none is lost.
structure Tallied (acts : List Act) (m : Metered) : Prop where
  nodup : (jobs acts m).Nodup
  sent : ∀ job ∈ jobs acts m, job < m.backend.payloads.length
  complete : m.backend.canceled = false →
    ∀ job < m.backend.payloads.length, job ∈ jobs acts m

theorem Tallied.perm {acts acts' : List Act} {m m' : Metered} (h : Tallied acts m)
    (hjobs : (jobs acts' m').Perm (jobs acts m))
    (hpayloads : m'.backend.payloads = m.backend.payloads)
    (hctx : m'.backend.canceled = false → m.backend.canceled = false) : Tallied acts' m' := by
  constructor
  · exact hjobs.nodup_iff.mpr h.nodup
  · intro job hjob
    exact hpayloads ▸ h.sent job (hjobs.mem_iff.mp hjob)
  · intro hcanceled job hjob
    exact hjobs.mem_iff.mpr (h.complete (hctx hcanceled) job (hpayloads ▸ hjob))

theorem canceled_of_step {s next : State} {e : Event} (h : step cfg s e = some next)
    (hctx : next.canceled = false) : s.canceled = false := by
  cases moves_of_step h with
  | submit hphase =>
      unfold submit at hctx
      dsimp only at hctx
      split_ifs at hctx with hfull
      · rwa [canceled_sendBatch] at hctx
      · exact hctx
  | save hphase =>
      unfold saveBatch at hctx
      dsimp only at hctx
      split at hctx
      · exact hctx
      · split_ifs at hctx <;> exact hctx
  | wait hphase =>
      unfold wait at hctx
      split_ifs at hctx with hrest
      · rwa [canceled_sendBatch] at hctx
      · exact hctx
  | cancel => cases hctx
  | _ => exact hctx

theorem tallied_update {acts : List Act} {m next : Metered} {job : Nat} {u : JobUpdate}
    (h : Tallied acts m) (hmem : job ∈ m.backend.pending)
    (hpayloads : next.backend.payloads = m.backend.payloads)
    (hpending : next.backend.pending = m.backend.pending.erase job)
    (htaken : next.taken = takenAfter m.backend m.taken (.update job u))
    (hctx : next.backend.canceled = false → m.backend.canceled = false) :
    Tallied (acts ++ [.event (.update job u)]) next := by
  have hjobs : jobs (acts ++ [.event (.update job u)]) next =
      counted acts ++ (next.taken ++ m.backend.pending.erase job) := by
    rw [jobs, counted_snoc_event, hpending]
  by_cases hcanceled : m.backend.canceled = true
  · -- the goroutine leaves and nobody counts the payload any more
    have hsub : (jobs (acts ++ [.event (.update job u)]) next).Sublist (jobs acts m) := by
      rw [hjobs, htaken, takenAfter, if_pos hcanceled]
      exact (List.erase_sublist.append_left _).append_left _
    refine ⟨h.nodup.sublist hsub, fun k hk => ?_, fun hnext => ?_⟩
    · exact hpayloads ▸ h.sent k (hsub.subset hk)
    · rw [hctx hnext] at hcanceled
      cases hcanceled
  · refine h.perm ?_ hpayloads hctx
    rw [hjobs, htaken, takenAfter, if_neg hcanceled, List.append_assoc]
    exact ((List.perm_cons_erase hmem).symm.append_left _).append_left _

theorem tallied_step {acts : List Act} {m next : Metered} {a : Act} (h : Tallied acts m)
    (hstep : meter cfg m a = some next) : Tallied (acts ++ [a]) next := by
  cases a with
  | dec job =>
      obtain ⟨hmem, hbackend, htaken, -⟩ := meter_dec_eq_some hstep
      refine h.perm ?_ (by rw [hbackend]) (by rw [hbackend]; exact id)
      rw [jobs, counted_snoc_dec, htaken, hbackend, List.append_assoc]
      exact ((List.perm_cons_erase hmem).symm.append_right _).append_left _
  | event e =>
      obtain ⟨-, hbackend, -, htaken⟩ := meter_event_eq_some hstep
      have hctx := canceled_of_step hbackend
      cases effect_of_step hbackend with
      | call he hsame =>
          refine h.perm (List.Perm.of_eq ?_) hsame.payloads hctx
          have htaken' : takenAfter m.backend m.taken e = m.taken := by
            cases e with
            | update job u => exact absurd rfl (he job u)
            | _ => rfl
          rw [jobs, counted_snoc_event, htaken, htaken', hsame.pending, jobs]
      | @sent err _ p hpayloads hpending hresults htasks =>
          have hjobs : jobs (acts ++ [.event (.save err)]) next =
              jobs acts m ++ [m.backend.payloads.length] := by
            rw [jobs, counted_snoc_event, htaken, hpending, jobs]
            simp only [takenAfter, List.append_assoc]
          have hlen : next.backend.payloads.length = m.backend.payloads.length + 1 := by
            simp [hpayloads]
          constructor
          · rw [hjobs]
            refine List.nodup_append.mpr ⟨h.nodup, List.nodup_singleton _, ?_⟩
            intro job hjob _ hlast heq
            have hlt := h.sent job hjob
            rw [heq, List.mem_singleton.mp hlast] at hlt
            omega
          · intro job hjob
            rw [hjobs, List.mem_append, List.mem_singleton] at hjob
            rcases hjob with hjob | rfl
            · have hlt := h.sent job hjob
              omega
            · omega
          · intro hcanceled job hjob
            rw [hjobs, List.mem_append, List.mem_singleton]
            by_cases hlast : job = m.backend.payloads.length
            · exact Or.inr hlast
            · exact Or.inl (h.complete (hctx hcanceled) job (by omega))
      | unheard hmem hpayloads hpending hresults htasks hnone =>
          exact tallied_update h hmem hpayloads hpending htaken hctx
      | heard hmem hctx' hpayloads hpending hresults htasks =>
          exact tallied_update h hmem hpayloads hpending htaken hctx

theorem tallied_run {acts : List Act} {m : Metered}
    (hrun : run (meter cfg) newMetered acts = some m) : Tallied acts m :=
  run_induction (meter cfg) newMetered Tallied ⟨List.nodup_nil, nofun, nofun⟩
    (fun _ _ _ _ _ => tallied_step) acts m hrun

theorem length_counted_le {acts : List Act} {m : Metered} (h : Tallied acts m) :
    (counted acts).length ≤ m.backend.payloads.length := by
  have hsub : counted acts ⊆ List.range m.backend.payloads.length := fun job hjob =>
    List.mem_range.mpr (h.sent job (List.mem_append_left _ hjob))
  have hle := ((List.nodup_append.mp h.nodup).1.subperm hsub).length_le
  rwa [List.length_range] at hle

theorem active_nonneg {acts : List Act} {m : Metered}
    (hrun : run (meter cfg) newMetered acts = some m) : 0 ≤ m.gauges.active := by
  have hle := length_counted_le (tallied_run hrun)
  have hactive := active_run hrun
  omega

theorem active_eq_zero_iff {acts : List Act} {m : Metered}
    (hrun : run (meter cfg) newMetered acts = some m) :
    m.gauges.active = 0 ↔ ∀ job < m.backend.payloads.length, job ∈ counted acts := by
  have htallied := tallied_run hrun
  have hnodup := (List.nodup_append.mp htallied.nodup).1
  have hle := length_counted_le htallied
  have hactive := active_run hrun
  have hsub : counted acts ⊆ List.range m.backend.payloads.length := fun job hjob =>
    List.mem_range.mpr (htallied.sent job (List.mem_append_left _ hjob))
  constructor
  · intro hzero job hjob
    have hlen : (List.range m.backend.payloads.length).length ≤ (counted acts).length := by
      rw [List.length_range]
      omega
    have hperm := (hnodup.subperm hsub).perm_of_length_le hlen
    exact hperm.mem_iff.mpr (List.mem_range.mpr hjob)
  · intro hall
    have hrange : List.range m.backend.payloads.length ⊆ counted acts := fun job hjob =>
      hall job (List.mem_range.mp hjob)
    have hge := (List.nodup_range.subperm hrange).length_le
    rw [List.length_range] at hge
    omega

-- The pending gauge.

-- wait has sent what was left, and its tasks were saved.
def Flushes (es : List Event) : Prop :=
  ∃ front back, es = front ++ .wait :: back ∧ .save none ∈ back

theorem wait_mem_of_flushes {es : List Event} (h : Flushes es) : .wait ∈ es := by
  obtain ⟨front, back, rfl, -⟩ := h
  simp

theorem flushes_snoc_iff {es : List Event} {e : Event} :
    Flushes (es ++ [e]) ↔ Flushes es ∨ .wait ∈ es ∧ e = .save none := by
  constructor
  · rintro ⟨front, back, hcut, hsave⟩
    rcases List.eq_nil_or_concat' back with rfl | ⟨back, last, rfl⟩
    · cases hsave
    · rw [← List.cons_append, ← List.append_assoc] at hcut
      obtain ⟨rfl, hlast⟩ := List.append_inj' hcut rfl
      obtain rfl := List.singleton_inj.mp hlast
      rcases List.mem_append.mp hsave with hsave | hsave
      · exact Or.inl ⟨front, back, rfl, hsave⟩
      · exact Or.inr ⟨by simp, (List.mem_singleton.mp hsave).symm⟩
  · rintro (⟨front, back, rfl, hsave⟩ | ⟨hwait, rfl⟩)
    · exact ⟨front, back ++ [e], by simp, List.mem_append_left _ hsave⟩
    · obtain ⟨front, back, rfl⟩ := List.append_of_mem hwait
      exact ⟨front, back ++ [.save none], by simp, by simp⟩

-- From the call of wait on, the gauge is down by the batch that wait has sent.
def Owes (es : List Event) (pending : ℤ) : Prop :=
  (Flushes es → pending = -1) ∧ (¬ Flushes es → pending = 0)

def Loose (es : List Event) (pending : ℤ) : Prop :=
  (.wait ∈ es → Owes es pending) ∧ (.wait ∉ es → 0 ≤ pending)

-- Tasks are left for wait to send.
def Leaves (es : List Event) : Prop := ¬ batchSize ∣ (submitted es).length

-- What the pending gauge stands at, at each point of the calls.
inductive Stands (es : List Event) (pending : ℤ) : Phase → Prop
  | submitting (hwait : .wait ∉ es) (hpending : pending = 0) : Stands es pending .submitting
  | cut {batch : Slice} (hwait : .wait ∉ es) (hpending : pending = 1) :
      Stands es pending (.sending batch false)
  | rest {batch : Slice} (hwait : .wait ∈ es) (hflush : ¬ Flushes es) (hpending : pending = 0)
      (hleaves : Leaves es) : Stands es pending (.sending batch true)
  | waiting (hwait : .wait ∈ es) (howes : Owes es pending) (hleaves : Flushes es ↔ Leaves es) :
      Stands es pending .waiting
  | returned (hwait : .wait ∈ es) (howes : Owes es pending) (hleaves : Flushes es ↔ Leaves es) :
      Stands es pending .returned
  | failed (text : String) (hloose : Loose es pending) : Stands es pending (.failed text)
  | crashed (hloose : Loose es pending) : Stands es pending .crashed

theorem loose_of_wait_notMem {es : List Event} {pending : ℤ} (hwait : .wait ∉ es)
    (hpending : 0 ≤ pending) : Loose es pending :=
  ⟨fun hin => absurd hin hwait, fun _ => hpending⟩

theorem Stands.loose {es : List Event} {pending : ℤ} {phase : Phase}
    (h : Stands es pending phase) : Loose es pending := by
  cases h with
  | submitting hwait hpending => exact loose_of_wait_notMem hwait hpending.ge
  | cut hwait hpending => exact loose_of_wait_notMem hwait (by omega)
  | rest hwait hflush hpending hleaves =>
      exact ⟨fun _ => ⟨fun hin => absurd hin hflush, fun _ => hpending⟩, fun hnot => absurd hwait hnot⟩
  | waiting hwait howes hleaves => exact ⟨fun _ => howes, fun hnot => absurd hwait hnot⟩
  | returned hwait howes hleaves => exact ⟨fun _ => howes, fun hnot => absurd hwait hnot⟩
  | failed text hloose => exact hloose
  | crashed hloose => exact hloose

-- An event that does not bear on the gauge.
structure Idle (e : Event) : Prop where
  wait : e ≠ .wait
  save : e ≠ .save none
  submit : e.submitted = none

theorem Idle.wait_mem_iff {es : List Event} {e : Event} (he : Idle e) :
    .wait ∈ es ++ [e] ↔ .wait ∈ es := by
  simp [he.wait.symm]

theorem Idle.flushes_iff {es : List Event} {e : Event} (he : Idle e) :
    Flushes (es ++ [e]) ↔ Flushes es := by
  simp [flushes_snoc_iff, he.save]

theorem Idle.leaves_iff {es : List Event} {e : Event} (he : Idle e) :
    Leaves (es ++ [e]) ↔ Leaves es := by
  rw [Leaves, submitted_snoc he.submit, Leaves]

theorem Idle.owes_iff {es : List Event} {e : Event} {pending : ℤ} (he : Idle e) :
    Owes (es ++ [e]) pending ↔ Owes es pending := by
  simp only [Owes, he.flushes_iff]

theorem Idle.loose_iff {es : List Event} {e : Event} {pending : ℤ} (he : Idle e) :
    Loose (es ++ [e]) pending ↔ Loose es pending := by
  simp only [Loose, he.wait_mem_iff, he.owes_iff]

theorem Stands.snoc {es : List Event} {pending : ℤ} {phase : Phase} {e : Event}
    (h : Stands es pending phase) (he : Idle e) : Stands (es ++ [e]) pending phase := by
  cases h with
  | submitting hwait hpending => exact .submitting (mt he.wait_mem_iff.mp hwait) hpending
  | cut hwait hpending => exact .cut (mt he.wait_mem_iff.mp hwait) hpending
  | rest hwait hflush hpending hleaves =>
      exact .rest (he.wait_mem_iff.mpr hwait) (mt he.flushes_iff.mp hflush) hpending
        (he.leaves_iff.mpr hleaves)
  | waiting hwait howes hleaves =>
      refine .waiting (he.wait_mem_iff.mpr hwait) (he.owes_iff.mpr howes) ?_
      rw [he.flushes_iff, he.leaves_iff, hleaves]
  | returned hwait howes hleaves =>
      refine .returned (he.wait_mem_iff.mpr hwait) (he.owes_iff.mpr howes) ?_
      rw [he.flushes_iff, he.leaves_iff, hleaves]
  | failed text hloose => exact .failed text (he.loose_iff.mpr hloose)
  | crashed hloose => exact .crashed (he.loose_iff.mpr hloose)

theorem exists_phase_sendBatch (last : Bool) {s : State} (hpos : 0 < s.batch.len) :
    ∃ batch, (sendBatch last s).phase = .sending batch last := by
  unfold sendBatch
  dsimp only
  rw [if_neg (Nat.pos_iff_ne_zero.mp hpos)]
  exact ⟨_, rfl⟩

theorem stands_submit {es : List Event} {s : State} {g : Gauges} {id : UUID} {createdAt : Str}
    {req : Request} (hphase : s.phase = .submitting) (h : Stands es g.pending s.phase) :
    Stands (es ++ [.submit id createdAt req]) (submitGauges (newTask id createdAt req) s g).pending
      (submit (newTask id createdAt req) s).phase := by
  rw [hphase] at h
  cases h with
  | submitting hwait hpending =>
      have hwait' : .wait ∉ es ++ [.submit id createdAt req] := by simp [hwait]
      have hlen := Slice.len_append s.heap s.batch (newTask id createdAt req)
      unfold submitGauges submit
      generalize Slice.append s.heap s.batch (newTask id createdAt req) = grown at hlen
      obtain ⟨heap, batch⟩ := grown
      dsimp only at hlen ⊢
      split_ifs with hfull
      · have hpos : 0 < ({ s with heap := heap, batch := batch } : State).batch.len := by
          dsimp only
          omega
        obtain ⟨cut, hcut⟩ := exists_phase_sendBatch false hpos
        rw [hcut]
        exact .cut hwait' (by simp [hpending])
      · rw [hphase]
        exact .submitting hwait' hpending

-- wait finds what is left of the last batch and nothing of the others.
theorem leaves_iff_of_batched {es : List Event} {s : State}
    (h : Batched cfg (submitted es) s .submitting) : 0 < s.batch.len ↔ Leaves es := by
  cases h with
  | @submitting sent hsent hfull hvalid hlen hsend hall =>
      have htotal : (submitted es).length = sent.length * batchSize + s.batch.len := by
        rw [hall, hsend, List.length_append, hfull.length_flatten, Slice.length_read hvalid]
      rw [Leaves, htotal, Nat.dvd_add_right (Nat.dvd_mul_left _ _)]
      constructor
      · intro hpos hdvd
        have hle := Nat.le_of_dvd hpos hdvd
        omega
      · intro hnot
        apply Nat.pos_of_ne_zero
        intro hzero
        exact hnot (hzero ▸ Nat.dvd_zero _)

theorem stands_wait {es : List Event} {s : State} {pending : ℤ} (hphase : s.phase = .submitting)
    (hbatched : Batched cfg (submitted es) s s.phase) (h : Stands es pending s.phase) :
    Stands (es ++ [.wait]) pending (wait s).phase := by
  rw [hphase] at h hbatched
  cases h with
  | submitting hwait hpending =>
      have hflush : ¬ Flushes (es ++ [.wait]) := by
        rw [flushes_snoc_iff]
        rintro (hin | ⟨-, hsave⟩)
        · exact hwait (wait_mem_of_flushes hin)
        · cases hsave
      have hleaves : 0 < s.batch.len ↔ Leaves (es ++ [.wait]) := by
        rw [leaves_iff_of_batched hbatched, Leaves, Leaves, submitted_snoc rfl]
      unfold wait
      split_ifs with hrest
      · obtain ⟨batch, hbatch⟩ := exists_phase_sendBatch true hrest
        rw [hbatch]
        exact .rest (by simp) hflush hpending (hleaves.mp hrest)
      · refine .waiting (by simp) ⟨fun hin => absurd hin hflush, fun _ => hpending⟩ ?_
        rw [← hleaves]
        exact ⟨fun hin => absurd hin hflush, fun hpos => absurd hpos hrest⟩

theorem stands_save {es : List Event} {s : State} {g : Gauges} {batch : Slice} {last : Bool}
    (err : Option String) (hphase : s.phase = .sending batch last)
    (hbatched : Batched cfg (submitted es) s s.phase) (h : Stands es g.pending s.phase) :
    Stands (es ++ [.save err]) (saveGauges batch err s g).pending
      (saveBatch cfg batch last err s).phase := by
  cases err with
  | some text =>
      have hnext : Stands (es ++ [.save (some text)]) g.pending s.phase :=
        h.snoc ⟨nofun, nofun, rfl⟩
      exact .failed _ hnext.loose
  | none =>
      rw [hphase] at h hbatched
      cases hbatched with
      | sending hsent hfull hvalid hempty hsized hlast hsend hall =>
          obtain ⟨t, ht⟩ := List.exists_mem_of_length_pos hsized.1
          have hkeys : (payload (batch.read s.heap)).keys ≠ ∅ :=
            Finset.ne_empty_of_mem (mem_payload_of_mem ht)
          rw [saveBatch_eq hsized.1]
          simp only [saveGauges, if_neg hkeys]
          cases h with
          | cut hwait hpending => exact .submitting (by simp [hwait]) (by omega)
          | rest hwait hflush hpending hleaves =>
              have hflush' : Flushes (es ++ [.save none]) :=
                flushes_snoc_iff.mpr (Or.inr ⟨hwait, rfl⟩)
              have hleaves' : Leaves (es ++ [.save none]) := by
                rw [Leaves, submitted_snoc rfl]
                exact hleaves
              refine .waiting (List.mem_append_left _ hwait) ⟨fun _ => by omega, ?_⟩ ?_
              · exact fun hnot => absurd hflush' hnot
              · exact ⟨fun _ => hleaves', fun _ => hflush'⟩

theorem stands_step {es : List Event} {s next : State} {e : Event} {g : Gauges}
    (hbatched : Batched cfg (submitted es) s s.phase) (h : Stands es g.pending s.phase)
    (hstep : step cfg s e = some next) :
    Stands (es ++ [e]) (gaugesAfter s g e).pending next.phase := by
  cases moves_of_step hstep with
  | submit hphase => exact stands_submit hphase h
  | save hphase =>
      simp only [gaugesAfter, hphase]
      exact stands_save _ hphase hbatched h
  | wait hphase => exact stands_wait hphase hbatched h
  | unheard hopen hmem hnone => exact h.snoc ⟨nofun, nofun, rfl⟩
  | heard hopen hmem hctx hnull => exact h.snoc ⟨nofun, nofun, rfl⟩
  | @crash job res t hopen hmem hctx ht hnull =>
      have hnext : Stands (es ++ [.update job (.complete (some res))]) g.pending s.phase :=
        h.snoc ⟨nofun, nofun, rfl⟩
      exact .crashed hnext.loose
  | done hphase hnone =>
      have hnext : Stands (es ++ [.done]) g.pending s.phase := h.snoc ⟨nofun, nofun, rfl⟩
      rw [hphase] at hnext
      cases hnext with
      | waiting hwait howes hleaves => exact .returned hwait howes hleaves
  | stop hphase hctx =>
      have hnext : Stands (es ++ [.stop]) g.pending s.phase := h.snoc ⟨nofun, nofun, rfl⟩
      exact .failed _ hnext.loose
  | cancel => exact h.snoc ⟨nofun, nofun, rfl⟩

theorem stands_run {acts : List Act} {m : Metered}
    (hrun : run (meter cfg) newMetered acts = some m) :
    Stands (events acts) m.gauges.pending m.backend.phase := by
  refine run_induction (meter cfg) newMetered
    (fun acts m => Stands (events acts) m.gauges.pending m.backend.phase) ?_ ?_ acts m hrun
  · exact .submitting nofun rfl
  · intro acts m a next hrun ih hstep
    cases a with
    | event e =>
        obtain ⟨-, hbackend, hgauges, -⟩ := meter_event_eq_some hstep
        rw [events_snoc_event, hgauges]
        exact stands_step (batched_run (run_backend hrun)) ih hbackend
    | dec job =>
        obtain ⟨-, hbackend, -, hgauges⟩ := meter_dec_eq_some hstep
        rw [events_snoc_dec, hgauges, hbackend]
        exact ih

-- What the gauges are for.

def WaitReturned (acts : List Act) (m : Metered) : Prop :=
  .wait ∈ events acts ∧ (m.backend.phase = .returned ∨ ∃ text, m.backend.phase = .failed text)

def Sound (acts : List Act) (m : Metered) : Prop :=
  0 ≤ m.gauges.pending ∧ 0 ≤ m.gauges.active ∧
    (WaitReturned acts m → m.gauges.pending = 0 ∧ m.gauges.active = 0)

-- No batch was sent by wait, and none is left uncounted when wait returns.
def Clear (acts : List Act) (m : Metered) : Prop :=
  ¬ Flushes (events acts) ∧
    (WaitReturned acts m → ∀ job < m.backend.payloads.length, job ∈ counted acts)

theorem sound_iff {acts : List Act} {m : Metered}
    (hrun : run (meter cfg) newMetered acts = some m) : Sound acts m ↔ Clear acts m := by
  obtain ⟨howes, hpending⟩ := (stands_run hrun).loose
  have hactive := active_eq_zero_iff hrun
  constructor
  · rintro ⟨hnonneg, -, hzero⟩
    refine ⟨fun hflush => ?_, fun hreturned => hactive.mp (hzero hreturned).2⟩
    have hdown := (howes (wait_mem_of_flushes hflush)).1 hflush
    omega
  · rintro ⟨hflush, hcounted⟩
    refine ⟨?_, active_nonneg hrun, fun hreturned => ?_⟩
    · by_cases hwait : .wait ∈ events acts
      · exact ((howes hwait).2 hflush).ge
      · exact hpending hwait
    · exact ⟨(howes hreturned.1).2 hflush, hactive.mpr (hcounted hreturned)⟩

-- When wait returns the results, it is down by one for tasks that do not fill
-- their batches.
theorem pending_of_returned {acts : List Act} {m : Metered}
    (hrun : run (meter cfg) newMetered acts = some m) (hphase : m.backend.phase = .returned) :
    m.gauges.pending = if batchSize ∣ (submitted (events acts)).length then 0 else -1 := by
  have hstands := stands_run hrun
  rw [hphase] at hstands
  cases hstands with
  | returned hwait howes hleaves =>
      split_ifs with hdvd
      · exact howes.2 fun hflush => hleaves.mp hflush hdvd
      · exact howes.1 (hleaves.mpr hdvd)

theorem phase_sendBatch_ne (last : Bool) (s : State) : (sendBatch last s).phase ≠ .returned := by
  intro hreturned
  rcases phase_sendBatch last s with hphase | ⟨batch, hphase⟩
  · rw [hphase] at hreturned
    cases last <;> cases hreturned
  · rw [hphase] at hreturned
    cases hreturned

theorem phase_submit_ne (t : Task) {s : State} (hphase : s.phase = .submitting) :
    (submit t s).phase ≠ .returned := by
  unfold submit
  dsimp only
  split_ifs with hfull
  · exact phase_sendBatch_ne false _
  · intro hreturned
    rw [hphase] at hreturned
    cases hreturned

theorem phase_wait_ne (s : State) : (wait s).phase ≠ .returned := by
  unfold wait
  split_ifs with hrest
  · exact phase_sendBatch_ne true s
  · intro hreturned
    cases hreturned

theorem phase_saveBatch_ne (batch : Slice) (last : Bool) (err : Option String) (s : State) :
    (saveBatch cfg batch last err s).phase ≠ .returned := by
  intro hreturned
  cases err with
  | some text => cases hreturned
  | none =>
      simp only [saveBatch] at hreturned
      split_ifs at hreturned with hempty
      cases last <;> cases hreturned

-- wait returns the results after every goroutine.
theorem drained_step {m next : Metered} {a : Act} (hstep : meter cfg m a = some next)
    (h : m.backend.phase = .returned → m.taken = [] ∧ m.backend.pending = [])
    (hphase : next.backend.phase = .returned) : next.taken = [] ∧ next.backend.pending = [] := by
  cases a with
  | dec job =>
      obtain ⟨hmem, hbackend, -, -⟩ := meter_dec_eq_some hstep
      rw [hbackend] at hphase
      rw [(h hphase).1] at hmem
      cases hmem
  | event e =>
      obtain ⟨hdone, hbackend, -, htaken⟩ := meter_event_eq_some hstep
      obtain ⟨backend, gauges, taken⟩ := next
      dsimp only at hbackend hphase htaken ⊢
      cases moves_of_step hbackend with
      | submit hphase' => exact absurd hphase (phase_submit_ne _ hphase')
      | save hphase' => exact absurd hphase (phase_saveBatch_ne _ _ _ _)
      | wait hphase' => exact absurd hphase (phase_wait_ne _)
      | unheard hopen hmem hnone =>
          rw [(h hphase).2] at hmem
          cases hmem
      | heard hopen hmem hctx hnull =>
          rw [(h hphase).2] at hmem
          cases hmem
      | crash hopen hmem hctx ht hnull => cases hphase
      | done hphase' hnone => exact ⟨htaken.trans (hdone rfl), hnone⟩
      | stop hphase' hctx => cases hphase
      | cancel => exact ⟨htaken.trans (h hphase).1, (h hphase).2⟩

theorem drained_run {acts : List Act} {m : Metered}
    (hrun : run (meter cfg) newMetered acts = some m) (hphase : m.backend.phase = .returned) :
    m.taken = [] ∧ m.backend.pending = [] :=
  run_induction (meter cfg) newMetered
    (fun _ m => m.backend.phase = .returned → m.taken = [] ∧ m.backend.pending = []) nofun
    (fun _ _ _ _ _ h hstep => drained_step hstep h) acts m hrun hphase

-- Without a cancellation, nothing is left active when wait returns the results.
theorem active_of_returned {acts : List Act} {m : Metered}
    (hrun : run (meter cfg) newMetered acts = some m) (hphase : m.backend.phase = .returned)
    (hctx : m.backend.canceled = false) : m.gauges.active = 0 := by
  obtain ⟨htaken, hpending⟩ := drained_run hrun hphase
  refine (active_eq_zero_iff hrun).mpr fun job hjob => ?_
  have hin := (tallied_run hrun).complete hctx job hjob
  rw [jobs, htaken, hpending, List.append_nil, List.append_nil] at hin
  exact hin

-- The gauges are right all along a run exactly when wait has no batch to send and
-- returns after every batch was counted.
theorem gauges_iff (cfg : Config) (acts : List Act) :
    (∀ front back m, acts = front ++ back → run (meter cfg) newMetered front = some m →
      Sound front m) ↔
    ∀ front back m, acts = front ++ back → run (meter cfg) newMetered front = some m →
      Clear front m := by
  constructor
  · intro h front back m hcut hrun
    exact (sound_iff hrun).mp (h front back m hcut hrun)
  · intro h front back m hcut hrun
    exact (sound_iff hrun).mpr (h front back m hcut hrun)

-- Two tasks that wait sends, and everything goes well.
def flushed : List Act := twoTasks.map .event ++ [.dec 0, .event .done]

theorem gauges_flushed :
    ∃ m, run (meter assignFileUUIDs) newMetered flushed = some m ∧ WaitReturned flushed m ∧
      m.gauges = { pending := -1, active := 0 } ∧ ¬ Sound flushed m := by
  have hrun : (run (meter assignFileUUIDs) newMetered flushed).isSome := rfl
  obtain ⟨m, hm⟩ := Option.isSome_iff_exists.mp hrun
  have hphase : (run (meter assignFileUUIDs) newMetered flushed).map (·.backend.phase) =
      some .returned := rfl
  have hgauges : (run (meter assignFileUUIDs) newMetered flushed).map Metered.gauges =
      some { pending := -1, active := 0 } := rfl
  rw [hm, Option.map_some, Option.some.injEq] at hphase hgauges
  have hwait : .wait ∈ events flushed := by simp [flushed, events, twoTasks, Act.event?]
  refine ⟨m, hm, ⟨hwait, Or.inl hphase⟩, hgauges, fun hsound => ?_⟩
  have hnonneg := hsound.1
  rw [hgauges] at hnonneg
  exact absurd hnonneg (by decide)

end Ccp.TaskBackend
