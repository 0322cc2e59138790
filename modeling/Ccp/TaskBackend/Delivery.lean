import Ccp.TaskBackend.Results

namespace Ccp.TaskBackend

open Lib

variable {cfg : Config}

-- A result is stored with a task of its own id.
def Attached (s : State) : Prop :=
  ∀ id r t, s.results.lookup id = some (r, t) → t ∈ s.tasks ∧ t.id = id

theorem attached_foldl {res : TaskResults} {tasks known : List Task} (hsub : tasks ⊆ known)
    {results : GoMap UUID (TaskResult × Task)}
    (h : ∀ id r t, results.lookup id = some (r, t) → t ∈ known ∧ t.id = id) :
    ∀ id r t, (tasks.foldl (recordResult res) results).lookup id = some (r, t) →
      t ∈ known ∧ t.id = id := by
  induction tasks generalizing results with
  | nil => exact h
  | cons t tasks ih =>
      obtain ⟨hmem, hsub⟩ := List.cons_subset.mp hsub
      refine ih hsub fun id r t' hlookup => ?_
      unfold recordResult at hlookup
      split at hlookup
      · by_cases hid : id = t.id
        · subst hid
          rw [Finmap.lookup_insert] at hlookup
          obtain ⟨rfl, rfl⟩ := Prod.mk.inj (Option.some.inj hlookup)
          exact ⟨hmem, rfl⟩
        · rw [Finmap.lookup_insert_of_ne _ hid] at hlookup
          exact h id r t' hlookup
      · exact h id r t' hlookup

theorem attached_step {s next : State} {e : Event} (h : Attached s)
    (hstep : step cfg s e = some next) : Attached next := by
  intro id r t hlookup
  cases effect_of_step hstep with
  | call he hsame =>
      obtain ⟨ht, hid⟩ := h id r t (hsame.results ▸ hlookup)
      exact ⟨hsame.tasks.subset ht, hid⟩
  | sent hpayloads hpending hresults htasks => exact htasks ▸ h id r t (hresults ▸ hlookup)
  | unheard hmem hpayloads hpending hresults htasks hnone =>
      exact htasks ▸ h id r t (hresults ▸ hlookup)
  | heard hmem hctx hpayloads hpending hresults htasks =>
      exact htasks ▸ attached_foldl (List.Subset.refl _) h id r t (hresults ▸ hlookup)

theorem attached_run {es : List Event} {s : State}
    (hrun : run (step cfg) newTaskBackend es = some s) : Attached s :=
  run_invariant (step cfg) Attached (fun _ _ _ => attached_step) (fun id _ _ h => by
    exact nomatch (Finmap.lookup_empty id).symm.trans h) hrun

-- Payloads of tasks with ids of their own.

theorem mem_of_lookup_payload {batch : List Task} {id : UUID} {t : Task}
    (h : (payload batch).lookup id = some t) : t ∈ batch ∧ t.id = id := by
  induction batch using List.reverseRecOn with
  | nil => exact nomatch (Finmap.lookup_empty id).symm.trans h
  | append_singleton front last ih =>
      simp only [payload, List.foldl_append, List.foldl_cons, List.foldl_nil] at h
      by_cases hid : id = last.id
      · subst hid
        rw [Finmap.lookup_insert] at h
        obtain rfl := Option.some.inj h
        exact ⟨by simp, rfl⟩
      · rw [Finmap.lookup_insert_of_ne _ hid] at h
        obtain ⟨ht, htid⟩ := ih h
        exact ⟨List.mem_append_left _ ht, htid⟩

theorem eq_of_id {tasks : List Task} (hids : (tasks.map Task.id).Nodup) {t t' : Task}
    (ht : t ∈ tasks) (ht' : t' ∈ tasks) (hid : t.id = t'.id) : t = t' :=
  List.inj_on_of_nodup_map hids ht ht' hid

theorem lookup_payload_of_mem {batch : List Task} (hids : (batch.map Task.id).Nodup) {t : Task}
    (ht : t ∈ batch) : (payload batch).lookup t.id = some t := by
  obtain ⟨t', hlookup⟩ := Finmap.mem_iff.mp (Finmap.mem_keys.mp (mem_payload_of_mem ht))
  obtain ⟨ht', hid⟩ := mem_of_lookup_payload hlookup
  rwa [eq_of_id hids ht' ht hid] at hlookup

-- Two batches with a task of the same id are the same batch.
theorem index_of_id {sent : List (List Task)} (hids : (sent.flatten.map Task.id).Nodup)
    {k k' : Nat} {b b' : List Task} (hb : sent[k]? = some b) (hb' : sent[k']? = some b')
    {t t' : Task} (ht : t ∈ b) (ht' : t' ∈ b') (hid : t.id = t'.id) : k = k' := by
  by_contra hne
  rw [List.map_flatten, List.nodup_flatten] at hids
  have hdisjoint := List.pairwise_iff_getElem.mp hids.2
  obtain ⟨hk, rfl⟩ := List.getElem?_eq_some_iff.mp hb
  obtain ⟨hk', rfl⟩ := List.getElem?_eq_some_iff.mp hb'
  have hmem : t.id ∈ sent[k].map Task.id := List.mem_map_of_mem ht
  have hmem' : t.id ∈ sent[k'].map Task.id := hid ▸ List.mem_map_of_mem ht'
  rcases Nat.lt_or_gt_of_ne hne with hlt | hlt
  · exact hdisjoint k k' (by simpa using hk) (by simpa using hk') hlt (by simpa using hmem)
      (by simpa using hmem')
  · exact hdisjoint k' k (by simpa using hk') (by simpa using hk) hlt (by simpa using hmem')
      (by simpa using hmem)

-- The events that must have been there for a phase.
def Reached (es : List Event) : Phase → Prop
  | .submitting => .wait ∉ es
  | .sending _ last => last = false → .wait ∉ es
  | .waiting => True
  | .returned => .done ∈ es
  | .failed _ => .cancel ∈ es ∨ ∃ text, .save (some text) ∈ es
  | .crashed => ∃ job u, .update job u ∈ es ∧ u.HasNull

theorem Reached.snoc {es : List Event} {phase : Phase} (h : Reached es phase) {e : Event}
    (he : e ≠ .wait) : Reached (es ++ [e]) phase := by
  have hwait : .wait ∉ es → .wait ∉ es ++ [e] := fun hnot => by simp [hnot, he.symm]
  cases phase with
  | submitting => exact hwait h
  | sending batch last => exact fun hlast => hwait (h hlast)
  | waiting => trivial
  | returned => exact List.mem_append_left _ h
  | failed text =>
      exact h.imp (List.mem_append_left _) fun ⟨text, htext⟩ => ⟨text, List.mem_append_left _ htext⟩
  | crashed =>
      obtain ⟨job, u, hu, hnull⟩ := h
      exact ⟨job, u, List.mem_append_left _ hu, hnull⟩

theorem phase_sendBatch (last : Bool) (s : State) :
    (sendBatch last s).phase = after last ∨ ∃ batch, (sendBatch last s).phase = .sending batch last := by
  unfold sendBatch
  dsimp only
  split
  · exact Or.inl rfl
  · exact Or.inr ⟨_, rfl⟩

theorem canceled_sendBatch (last : Bool) (s : State) : (sendBatch last s).canceled = s.canceled := by
  unfold sendBatch
  dsimp only
  split <;> rfl

theorem reached_sendBatch {es : List Event} {last : Bool} {s : State}
    (h : last = false → .wait ∉ es) : Reached es (sendBatch last s).phase := by
  rcases phase_sendBatch last s with hphase | ⟨batch, hphase⟩
  · rw [hphase]
    cases last with
    | true => trivial
    | false => exact h rfl
  · rw [hphase]
    exact h

theorem reached_step {es : List Event} {s next : State} {e : Event}
    (hbatched : Batched cfg (submitted es) s s.phase)
    (h : Reached es s.phase ∧ (s.canceled → .cancel ∈ es)) (hstep : step cfg s e = some next) :
    Reached (es ++ [e]) next.phase ∧ (next.canceled → .cancel ∈ es ++ [e]) := by
  obtain ⟨hreached, hcanceled⟩ := h
  have hcanceled' : s.canceled → .cancel ∈ es ++ [e] := fun hc =>
    List.mem_append_left _ (hcanceled hc)
  cases moves_of_step hstep with
  | @submit id createdAt req hphase =>
      rw [hphase] at hreached
      have hnot : .wait ∉ es ++ [.submit id createdAt req] := hreached.snoc nofun
      unfold submit
      dsimp only
      split
      · refine ⟨reached_sendBatch fun _ => hnot, ?_⟩
        rw [canceled_sendBatch]
        exact hcanceled'
      · refine ⟨?_, hcanceled'⟩
        rw [hphase]
        exact hnot
  | @save batch last err hphase =>
      rw [hphase] at hreached hbatched
      cases err with
      | some text => exact ⟨Or.inr ⟨text, by simp⟩, hcanceled'⟩
      | none =>
          cases hbatched with
          | sending hsent hfull hvalid hempty hsized hlast hsend hall =>
              rw [saveBatch_eq hsized.1]
              refine ⟨?_, hcanceled'⟩
              cases last with
              | true => trivial
              | false => exact hreached.snoc nofun rfl
  | wait hphase =>
      unfold wait
      split
      · refine ⟨reached_sendBatch nofun, ?_⟩
        rw [canceled_sendBatch]
        exact hcanceled'
      · exact ⟨trivial, hcanceled'⟩
  | unheard hopen hmem hnone => exact ⟨hreached.snoc nofun, hcanceled'⟩
  | heard hopen hmem hctx hnull => exact ⟨hreached.snoc nofun, hcanceled'⟩
  | @crash job res t hopen hmem hctx ht hnull =>
      exact ⟨⟨job, _, List.mem_append_right _ (List.mem_singleton_self _), res, t.id, rfl, hnull⟩,
        hcanceled'⟩
  | done hphase hnone => exact ⟨by simp [Reached], hcanceled'⟩
  | stop hphase hctx => exact ⟨Or.inl (hcanceled' hctx), hcanceled'⟩
  | cancel => exact ⟨hreached.snoc nofun, fun _ => by simp⟩

theorem reached_run {es : List Event} {s : State}
    (hrun : run (step cfg) newTaskBackend es = some s) :
    Reached es s.phase ∧ (s.canceled → .cancel ∈ es) :=
  run_induction (step cfg) newTaskBackend
    (fun es s => Reached es s.phase ∧ (s.canceled → .cancel ∈ es)) ⟨nofun, nofun⟩
    (fun _ _ _ _ hrun => reached_step (batched_run hrun)) es s hrun

-- The worker has a result for every task of the payload and for nothing else.
def Complete (p : GoMap UUID Task) (u : JobUpdate) : Prop :=
  ∃ res, u = .complete (some res) ∧
    ∀ id, (id ∈ p → ∃ r, res.lookup id = some (some r)) ∧ (id ∉ p → res.lookup id = none)

def Replies (es : List Event) (s : State) : Prop :=
  ∀ job u, .update job u ∈ es → ∃ p, s.payloads[job]? = some p ∧ Complete p u

-- Every task of a payload that was answered has the result that came for it.
def Answered (es : List Event) (s : State) : Prop :=
  ∀ job u p t, .update job u ∈ es → s.payloads[job]? = some p → p.lookup t.id = some t →
    ∃ r, u.resultOf t.id = some r ∧ s.results.lookup t.id = some (r, t)

theorem not_hasNull_of_complete {p : GoMap UUID Task} {u : JobUpdate} (h : Complete p u) :
    ¬ u.HasNull := by
  rintro ⟨res', id, hu, hnull⟩
  obtain ⟨res, rfl, hres⟩ := h
  obtain rfl : res = res' := by simpa using hu
  by_cases hid : id ∈ p
  · obtain ⟨r, hr⟩ := (hres id).1 hid
    exact nomatch hnull.symm.trans hr
  · exact nomatch hnull.symm.trans ((hres id).2 hid)

theorem payloads_extend {s next : State} {e : Event} (hstep : step cfg s e = some next) :
    s.payloads <+: next.payloads := by
  cases effect_of_step hstep with
  | call he hsame => exact hsame.payloads ▸ List.prefix_rfl
  | sent hpayloads hpending hresults htasks => exact hpayloads ▸ List.prefix_append _ _
  | unheard hmem hpayloads hpending hresults htasks hnone => exact hpayloads ▸ List.prefix_rfl
  | heard hmem hctx hpayloads hpending hresults htasks => exact hpayloads ▸ List.prefix_rfl

theorem submitted_extends (es : List Event) (e : Event) : submitted es <+: submitted (es ++ [e]) := by
  rw [submitted, submitted, List.filterMap_append]
  exact List.prefix_append _ _

-- With ids of their own, the tasks of the payloads are known one by one.
theorem Known.task {tasks : List Task} {s : State} (h : Known tasks s) {job : Nat}
    {p : GoMap UUID Task} {id : UUID} {t : Task} (hp : s.payloads[job]? = some p)
    (ht : p.lookup id = some t) : t ∈ s.tasks := by
  obtain ⟨sent, hpayloads, hsent, -⟩ := h
  rw [hpayloads, List.getElem?_map, Option.map_eq_some_iff] at hp
  obtain ⟨b, hb, rfl⟩ := hp
  exact hsent.subset (List.mem_flatten.mpr ⟨b, List.mem_of_getElem? hb, (mem_of_lookup_payload ht).1⟩)

theorem Known.index {tasks : List Task} {s : State} (h : Known tasks s)
    (hids : (tasks.map Task.id).Nodup) {job job' : Nat} {p p' : GoMap UUID Task} {id : UUID}
    (hp : s.payloads[job]? = some p) (hp' : s.payloads[job']? = some p') (hid : id ∈ p)
    (hid' : id ∈ p') : job = job' := by
  obtain ⟨sent, hpayloads, hsent, htasks⟩ := h
  rw [hpayloads, List.getElem?_map, Option.map_eq_some_iff] at hp hp'
  obtain ⟨b, hb, rfl⟩ := hp
  obtain ⟨b', hb', rfl⟩ := hp'
  obtain ⟨t, ht⟩ := Finmap.mem_iff.mp hid
  obtain ⟨t', ht'⟩ := Finmap.mem_iff.mp hid'
  have hnodup : (sent.flatten.map Task.id).Nodup :=
    hids.sublist ((hsent.trans htasks).sublist.map Task.id)
  exact index_of_id hnodup hb hb' (mem_of_lookup_payload ht).1 (mem_of_lookup_payload ht').1
    ((mem_of_lookup_payload ht).2.trans (mem_of_lookup_payload ht').2.symm)

theorem answered_update {es : List Event} {s next : State} {job : Nat} {u : JobUpdate}
    (hids : ((submitted es).map Task.id).Nodup) (hknown : Known (submitted es) s)
    (hawaited : Awaited es s) (hctx : s.canceled = false) (h : Answered es s)
    (hanswers : Replies (es ++ [.update job u]) next)
    (hstep : step cfg s (.update job u) = some next) : Answered (es ++ [.update job u]) next := by
  obtain ⟨p₀, hp₀, hcomplete⟩ := hanswers job u (by simp)
  intro k v p t hv hp ht
  cases effect_of_step hstep with
  | call he hsame => exact absurd rfl (he job u)
  | unheard hmem hpayloads hpending hresults htasks hnone =>
      rcases hnone with hc | ⟨-, hnull⟩ | hnone
      · exact nomatch hctx.symm.trans hc
      · exact absurd hnull (not_hasNull_of_complete hcomplete)
      · rcases List.mem_append.mp hv with hv | hv
        · obtain ⟨r, hr, hlookup⟩ := h k v p t hv (hpayloads ▸ hp) ht
          exact ⟨r, hr, hresults ▸ hlookup⟩
        · obtain ⟨rfl, rfl⟩ : k = job ∧ v = u := by simpa using hv
          obtain rfl := Option.some.inj (hp₀.symm.trans hp)
          obtain ⟨res, rfl, hres⟩ := hcomplete
          obtain ⟨r, hr⟩ := (hres t.id).1 (Finmap.mem_of_lookup_eq_some ht)
          have hnot := hnone t.id
          simp only [JobUpdate.resultOf, hr] at hnot
          exact nomatch hnot
  | @heard _ res _ hmem hctx' hpayloads hpending hresults htasks =>
      rw [hpayloads] at hp hp₀
      obtain ⟨res', hu, hres⟩ := hcomplete
      obtain rfl : res = res' := by simpa using hu
      rcases List.mem_append.mp hv with hold | hv
      · obtain ⟨r, hr, hlookup⟩ := h k v p t hold hp ht
        refine ⟨r, hr, ?_⟩
        rw [hresults, lookup_foldl_recordResult_of_none, hlookup]
        refine Or.inl ?_
        have hne : t.id ∉ p₀ := fun hin => by
          obtain rfl := hknown.index hids hp hp₀ (Finmap.mem_of_lookup_eq_some ht) hin
          exact hawaited.fresh k hmem v hold
        rw [(hres t.id).2 hne]
        rfl
      · obtain ⟨rfl, rfl⟩ : k = job ∧ v = .complete (some res) := by simpa using hv
        obtain rfl := Option.some.inj (hp₀.symm.trans hp)
        obtain ⟨r, hr⟩ := (hres t.id).1 (Finmap.mem_of_lookup_eq_some ht)
        have hin := hknown.task hp ht
        obtain ⟨t', ht', hid, hlookup⟩ := lookup_foldl_recordResult hr s.results ⟨t, hin, rfl⟩
        obtain ⟨-, -, -, hall⟩ := hknown
        obtain rfl := eq_of_id hids (hall.subset ht') (hall.subset hin) hid
        refine ⟨r, ?_, hresults ▸ hlookup⟩
        simp only [JobUpdate.resultOf, hr]
        rfl

theorem answered_step {es : List Event} {s next : State} {e : Event}
    (hids : ((submitted es).map Task.id).Nodup) (hknown : Known (submitted es) s)
    (hawaited : Awaited es s) (hctx : s.canceled = false) (h : Answered es s)
    (hanswers : Replies (es ++ [e]) next) (hstep : step cfg s e = some next) :
    Answered (es ++ [e]) next := by
  have hquiet : next.results = s.results → (∀ job u, e ≠ .update job u) →
      Answered (es ++ [e]) next := by
    intro hresults he job u p t hu hp ht
    have hu' : .update job u ∈ es := by simpa [(he job u).symm] using hu
    have hjob := hawaited.known job u hu'
    obtain ⟨more, hmore⟩ := payloads_extend hstep
    rw [← hmore, List.getElem?_append_left hjob] at hp
    exact hresults ▸ h job u p t hu' hp ht
  cases effect_of_step hstep with
  | call he hsame => exact hquiet hsame.results he
  | sent hpayloads hpending hresults htasks => exact hquiet hresults nofun
  | unheard hmem hpayloads hpending hresults htasks hnone =>
      exact answered_update hids hknown hawaited hctx h hanswers hstep
  | heard hmem hctx' hpayloads hpending hresults htasks =>
      exact answered_update hids hknown hawaited hctx h hanswers hstep

theorem answered_run {es : List Event} {s : State}
    (hrun : run (step cfg) newTaskBackend es = some s)
    (hids : ((submitted es).map Task.id).Nodup) (hcancel : .cancel ∉ es) (hanswers : Replies es s) :
    Answered es s := by
  refine run_induction (step cfg) newTaskBackend (fun es s => ((submitted es).map Task.id).Nodup →
    .cancel ∉ es → Replies es s → Answered es s) ?_ ?_ es s hrun hids hcancel hanswers
  · exact fun _ _ _ _ _ _ _ h => nomatch h
  · intro es s e next hrun ih hstep hids hcancel hanswers
    have hids' : ((submitted es).map Task.id).Nodup :=
      hids.sublist ((submitted_extends es e).sublist.map Task.id)
    have hcancel' : .cancel ∉ es := fun hin => hcancel (List.mem_append_left _ hin)
    have hctx : s.canceled = false :=
      Bool.eq_false_iff.mpr fun hc => hcancel' ((reached_run hrun).2 hc)
    have hawaited := awaited_run hrun
    have hanswers' : Replies es s := by
      intro job u hu
      obtain ⟨p, hp, hcomplete⟩ := hanswers job u (List.mem_append_left _ hu)
      obtain ⟨more, hmore⟩ := payloads_extend hstep
      rw [← hmore, List.getElem?_append_left (hawaited.known job u hu)] at hp
      exact ⟨p, hp, hcomplete⟩
    exact answered_step hids' (batched_run hrun).known hawaited hctx (ih hids' hcancel' hanswers')
      hanswers hstep

-- Calls of submit and then wait, that the store never refused, and a complete
-- answer to every payload, in whatever order.
structure Concluded (es : List Event) (s : State) : Prop where
  -- what uuid.New is for
  ids : ((submitted es).map Task.id).Nodup
  waits : .wait ∈ es
  saves : ∀ text, .save (some text) ∉ es
  saved : ∀ batch last, s.phase ≠ .sending batch last
  context : .cancel ∉ es
  notDone : .done ∉ es
  answers : Replies es s
  answered : ∀ job < s.payloads.length, ∃ u, .update job u ∈ es

theorem Concluded.phase {es : List Event} {s : State}
    (hrun : run (step cfg) newTaskBackend es = some s) (h : Concluded es s) :
    s.phase = .waiting := by
  have hreached := (reached_run hrun).1
  cases hphase : s.phase with
  | waiting => rfl
  | submitting =>
      rw [hphase] at hreached
      exact absurd h.waits hreached
  | sending batch last => exact absurd hphase (h.saved batch last)
  | returned =>
      rw [hphase] at hreached
      exact absurd hreached h.notDone
  | failed text =>
      rw [hphase] at hreached
      rcases hreached with hcancel | ⟨text, htext⟩
      · exact absurd hcancel h.context
      · exact absurd htext (h.saves text)
  | crashed =>
      rw [hphase] at hreached
      obtain ⟨job, u, hu, hnull⟩ := hreached
      obtain ⟨p, -, hcomplete⟩ := h.answers job u hu
      exact absurd hnull (not_hasNull_of_complete hcomplete)

theorem Concluded.pending {es : List Event} {s : State}
    (hrun : run (step cfg) newTaskBackend es = some s) (h : Concluded es s) : s.pending = [] := by
  have hawaited := awaited_run hrun
  refine List.eq_nil_iff_forall_not_mem.mpr fun job hjob => ?_
  obtain ⟨u, hu⟩ := h.answered job (hawaited.sent job hjob)
  exact hawaited.fresh job hjob u hu

-- What has become of the submitted tasks.
structure Delivered (cfg : Config) (es : List Event) (s : State) (batches : List (List Task)) :
    Prop where
  order : batches.flatten = submitted es
  size : ∀ b ∈ batches, 1 ≤ b.length ∧ b.length ≤ batchSize
  number : batches.length = ((submitted es).length + (batchSize - 1)) / batchSize
  created : s.created = batches.map (·.map (storeTask cfg))
  payloads : s.payloads = batches.map payload
  count : s.count = batches.length
  onePayload : ∀ t ∈ submitted es, ∃! job : Nat, ∃ p : GoMap UUID Task,
    s.payloads[job]? = some p ∧ p.lookup t.id = some t
  oneRow : ∀ t ∈ submitted es, s.created.flatten.count (storeTask cfg t) = 1
  results : s.results.keys = ((submitted es).map Task.id).toFinset
  attached : ∀ t ∈ submitted es, ∃ (job : Nat) (u : JobUpdate) (p : GoMap UUID Task) (r : TaskResult),
    .update job u ∈ es ∧ s.payloads[job]? = some p ∧ p.lookup t.id = some t ∧
    u.resultOf t.id = some r ∧ s.results.lookup t.id = some (r, t)

-- Each task can be looked up in a payload.
theorem Sent.exists_payload {s : State} {sent : List (List Task)} (hsent : Sent cfg s sent)
    (hids : (sent.flatten.map Task.id).Nodup) {t : Task} (ht : t ∈ sent.flatten) :
    ∃ (job : Nat) (p : GoMap UUID Task), s.payloads[job]? = some p ∧ p.lookup t.id = some t := by
  obtain ⟨b, hb, htb⟩ := List.mem_flatten.mp ht
  obtain ⟨job, hjob⟩ := List.getElem?_of_mem hb
  have hbatch : (b.map Task.id).Nodup := hids.sublist ((List.sublist_flatten_of_mem hb).map Task.id)
  refine ⟨job, payload b, ?_, lookup_payload_of_mem hbatch htb⟩
  rw [hsent.payloads, List.getElem?_map, hjob, Option.map_some]

-- The ids tell the rows apart.
theorem count_storeTask {b : List Task} (hids : (b.map Task.id).Nodup) {t : Task} (ht : t ∈ b) :
    (b.map (storeTask cfg)).count (storeTask cfg t) = 1 := by
  refine List.count_eq_one_of_mem ?_ (List.mem_map_of_mem ht)
  refine List.Nodup.of_map StoreTask.id ?_
  rwa [List.map_map]

theorem Concluded.sent {es : List Event} {s : State}
    (hrun : run (step cfg) newTaskBackend es = some s) (h : Concluded es s) :
    ∃ sent, Sent cfg s sent ∧ Cut sent ∧ sent.flatten = submitted es ∧ s.tasks = submitted es := by
  have hbatched := batched_run hrun
  rw [h.phase hrun] at hbatched
  cases hbatched with
  | @waiting sent hsent hcut hsend hall =>
      exact ⟨sent, hsent, hcut, hsend.symm.trans hall.symm, hall.symm⟩

theorem Concluded.attached {es : List Event} {s : State}
    (hrun : run (step cfg) newTaskBackend es = some s) (h : Concluded es s) {t : Task}
    (ht : t ∈ submitted es) :
    ∃ (job : Nat) (u : JobUpdate) (p : GoMap UUID Task) (r : TaskResult), .update job u ∈ es ∧
      s.payloads[job]? = some p ∧ p.lookup t.id = some t ∧ u.resultOf t.id = some r ∧
      s.results.lookup t.id = some (r, t) := by
  obtain ⟨sent, hsent, -, hflat, -⟩ := h.sent hrun
  obtain ⟨job, p, hp, hlookup⟩ := hsent.exists_payload (hflat ▸ h.ids) (hflat ▸ ht)
  obtain ⟨u, hu⟩ := h.answered job (List.getElem?_eq_some_iff.mp hp).1
  obtain ⟨r, hr, hresult⟩ :=
    answered_run hrun h.ids h.context h.answers job u p t hu hp hlookup
  exact ⟨job, u, p, r, hu, hp, hlookup, hr, hresult⟩

theorem Concluded.keys {es : List Event} {s : State}
    (hrun : run (step cfg) newTaskBackend es = some s) (h : Concluded es s) :
    s.results.keys = ((submitted es).map Task.id).toFinset := by
  obtain ⟨-, -, -, -, hall⟩ := h.sent hrun
  ext id
  rw [Finmap.mem_keys, List.mem_toFinset, List.mem_map]
  constructor
  · intro hid
    obtain ⟨⟨r, t⟩, hlookup⟩ := Finmap.mem_iff.mp hid
    obtain ⟨ht, hid⟩ := attached_run hrun id r t hlookup
    exact ⟨t, hall ▸ ht, hid⟩
  · rintro ⟨t, ht, rfl⟩
    obtain ⟨-, -, -, r, -, -, -, -, hlookup⟩ := h.attached hrun ht
    exact Finmap.mem_of_lookup_eq_some hlookup

theorem tasks_delivered (cfg : Config) (es : List Event) (s : State)
    (hrun : run (step cfg) newTaskBackend es = some s) (h : Concluded es s) :
    ∃ final batches, run (step cfg) newTaskBackend (es ++ [.done]) = some final ∧
      final.phase = .returned ∧ Delivered cfg es final batches := by
  obtain ⟨sent, hsent, hcut, hflat, hall⟩ := h.sent hrun
  refine ⟨{ s with phase := .returned }, sent, ?_, rfl, ?_⟩
  · rw [run_snoc_eq_some]
    exact ⟨s, hrun, if_pos ⟨h.phase hrun, h.pending hrun⟩⟩
  · constructor
    · exact hflat
    · exact hcut.sized
    · exact hflat ▸ hcut.length
    · exact hsent.created
    · exact hsent.payloads
    · exact hsent.count
    · intro t ht
      obtain ⟨job, p, hp, hlookup⟩ := hsent.exists_payload (hflat ▸ h.ids) (hflat ▸ ht)
      refine ⟨job, ⟨p, hp, hlookup⟩, ?_⟩
      rintro job' ⟨p', hp', hlookup'⟩
      exact (batched_run hrun).known.index h.ids hp' hp (Finmap.mem_of_lookup_eq_some hlookup')
        (Finmap.mem_of_lookup_eq_some hlookup)
    · intro t ht
      have hrows : s.created.flatten = (submitted es).map (storeTask cfg) := by
        rw [hsent.created, ← List.map_flatten, hflat]
      exact hrows ▸ count_storeTask h.ids ht
    · exact (h.keys hrun :)
    · exact fun t ht => h.attached hrun ht

def assignFileUUIDs : Config := ⟨"assignFileUUIDs_v0.0".toList, ⟨0x5⟩, none⟩

def plainRequest : Request := ⟨∅, "--fileUUID".toList, false, [], []⟩

def exited (code : Int) : TaskResult := ⟨code, [], [], []⟩

def resultsOf (results : List (UUID × TaskResult)) : TaskResults :=
  results.foldl (fun res r => res.insert r.1 (some r.2)) ∅

def twoResults : TaskResults := resultsOf [(⟨0x1⟩, exited 0), (⟨0x2⟩, exited 1)]

-- Two tasks, and one answer for both of them.
def twoTasks : List Event := [
  .submit ⟨0x1⟩ [] plainRequest,
  .submit ⟨0x2⟩ [] plainRequest,
  .wait,
  .save none,
  .update 0 (.complete (some twoResults))]

theorem tasks_delivered_twoTasks :
    ∃ final batches, run (step assignFileUUIDs) newTaskBackend (twoTasks ++ [.done]) = some final ∧
      final.phase = .returned ∧ Delivered assignFileUUIDs twoTasks final batches := by
  have hrun : (run (step assignFileUUIDs) newTaskBackend twoTasks).isSome := rfl
  obtain ⟨s, hs⟩ := Option.isSome_iff_exists.mp hrun
  have hphase : (run (step assignFileUUIDs) newTaskBackend twoTasks).map State.phase =
      some .waiting := rfl
  have hpayloads : (run (step assignFileUUIDs) newTaskBackend twoTasks).map State.payloads =
      some [payload [newTask ⟨0x1⟩ [] plainRequest, newTask ⟨0x2⟩ [] plainRequest]] := rfl
  rw [hs, Option.map_some, Option.some.injEq] at hphase hpayloads
  refine tasks_delivered assignFileUUIDs twoTasks s hs ⟨by decide, by simp [twoTasks],
    by simp [twoTasks], by simp [hphase], by simp [twoTasks], by simp [twoTasks], ?_, ?_⟩
  · intro job u hu
    obtain ⟨rfl, rfl⟩ : job = 0 ∧ _ := by simpa [twoTasks] using hu
    refine ⟨_, by rw [hpayloads]; rfl, _, rfl, fun id => ⟨fun hid => ?_, fun hid => ?_⟩⟩
    · obtain rfl | rfl : id = ⟨0x2⟩ ∨ id = ⟨0x1⟩ := by
        simpa [payload, newTask, Finmap.notMem_empty] using hid
      · exact ⟨exited 1, rfl⟩
      · exact ⟨exited 0, rfl⟩
    · rw [Finmap.lookup_eq_none]
      simpa [payload, newTask, twoResults, resultsOf, Finmap.notMem_empty] using hid
  · intro job hjob
    rw [hpayloads, List.length_singleton, Nat.lt_one_iff] at hjob
    subst hjob
    exact ⟨.complete (some twoResults), by simp [twoTasks]⟩

end Ccp.TaskBackend
