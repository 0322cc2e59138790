import Ccp.Controller.History

namespace Ccp.Controller

open Lib

theorem length_dequeueFromAwait {s : State} (h : Accounting s) (hfree : s.picking = none)
    {g : Goroutine} (hg : g ∈ s.group) {dec : Decision} (hphase : g.phase = .awaiting dec) :
    (s.controller.dequeueFromAwait g.pkg dec).activePackages.length =
      s.controller.activePackages.length + 1 := by
  have hmem := mem_decisions_of_awaiting h (by rw [workers_of_free hfree]; exact hg) hphase
  rw [dequeueFromAwait_of_mem hmem]
  simp

theorem length_queueToAwait_le (c : Controller) (pkg : Package) (dec : Decision) :
    (((c.queueToAwait pkg dec).toOption).getD c).activePackages.length ≤
      c.activePackages.length := by
  unfold queueToAwait
  split_ifs
  · exact List.length_eraseP_le
  · exact Nat.le_refl _

-- Nothing but the end of an await puts a package on the active list without
-- the test of pick, and in a reachable state it always does.
theorem active_le_max_iff (es : List Event) :
    Always step (fun s => s.controller.activePackages.length ≤ maxConcurrentPackages) init es ↔
      Meets step (fun s e => ∀ n, e = .dequeueFromAwait n →
        s.controller.activePackages.length < maxConcurrentPackages) init es := by
  refine always_iff_meets step Accounting _ _ (fun _ _ _ => accounting_step) ?_ es
    accounting_init (Nat.zero_le _)
  intro s e next hacc hle hstep
  cases moves_of_step hstep with
  | queue => exact iff_of_true hle (fun _ he => nomatch he)
  | pickNone => simpa using hle
  | pickTake pkg rest hfree hmax =>
      have hlt : s.controller.activePackages.length < maxConcurrentPackages := lt_of_le_of_ne hle hmax
      refine iff_of_true ?_ (fun _ he => nomatch he)
      rw [List.length_append, List.length_singleton]
      exact hlt
  | start => simpa using hle
  | queueToAwait n dec g =>
      have hlen := length_queueToAwait_le s.controller g.pkg dec
      exact iff_of_true (hlen.trans hle) (fun _ he => nomatch he)
  | resolveDecision => simpa using hle
  | cancel => simpa using hle
  | dequeueFromAwait n dec g hfree hg hn hphase =>
      have hlen := length_dequeueFromAwait hacc hfree hg hphase
      simp only [hlen, Event.dequeueFromAwait.injEq, forall_eq']
      omega
  | deactivate n g =>
      have hlen : (s.controller.deactivate g.pkg).activePackages.length ≤
          s.controller.activePackages.length := List.length_eraseP_le
      exact iff_of_true (hlen.trans hle) (fun _ he => nomatch he)
  | done => simpa using hle

-- Four packages, the first two of which wait for a decision while the other
-- two are picked; then both decisions are answered.
def overfull : List Event :=
  [.queue (pkgOf 1), .queue (pkgOf 2), .queue (pkgOf 3), .queue (pkgOf 4),
    .pick, .start, .pick, .start, .queueToAwait 0 (decisionOf 1), .queueToAwait 1 (decisionOf 2),
    .pick, .start, .pick, .start, .resolveDecision ⟨1⟩, .resolveDecision ⟨2⟩,
    .dequeueFromAwait 0, .dequeueFromAwait 1]

theorem active_exceeds_max :
    ¬ Always step (fun s => s.controller.activePackages.length ≤ maxConcurrentPackages)
      init overfull := by
  intro h
  obtain ⟨s, hs, hlen⟩ : ∃ s, run step init overfull = some s ∧
      s.controller.activePackages.length = 4 := by
    have hmap : (run step init overfull).map (fun s => s.controller.activePackages.length) =
        some 4 := by decide
    exact Option.map_eq_some_iff.mp hmap
  have hle := (always_iff_run step _ init overfull).mp h overfull [] s (by simp) hs
  simp [hlen, maxConcurrentPackages] at hle

-- Some continuation puts an answer into the decision's channel.
def Deliverable (s : State) (dec : Decision) : Prop :=
  ∃ es next, run step s es = some next ∧ dec.id ∈ next.resolved

def Stuck (s : State) : Prop :=
  s.group ≠ [] ∧ ∀ g ∈ s.group, ∃ dec, g.phase = .awaiting dec ∧ ¬ Deliverable s dec

-- group.Go has room for the goroutine that a pick hands to it.
def HasRoom (s : State) : Prop := s.picking ≠ none → occupied s < groupLimit

theorem isAwaiting_of_mem {c : Controller} {dec : Decision} {id : UUID}
    (h : dec.id ∈ (c.decisions id).map Decision.id) : c.isAwaiting dec.id = true := by
  obtain ⟨item, hitem, hid⟩ := List.mem_map.mp h
  have hkey : id ∈ c.awaitingPackages.keys := by
    by_contra hno
    have hnone := Finmap.lookup_eq_none.mpr fun hmem => hno (Finmap.mem_keys.mpr hmem)
    simp [decisions, hnone] at hitem
  exact decide_eq_true ⟨id, hkey, List.any_eq_true.mpr ⟨item, hitem, by simp [hid]⟩⟩

theorem deliverable_of_hasRoom {s : State} (hacc : Accounting s) (hroom : HasRoom s)
    {g : Goroutine} (hg : g ∈ s.group) {dec : Decision} (hphase : g.phase = .awaiting dec) :
    Deliverable s dec := by
  have hmem := mem_decisions_of_awaiting hacc (List.mem_append_right _ hg) hphase
  have hawait := isAwaiting_of_mem hmem
  cases hpick : s.picking with
  | none =>
      refine ⟨[.resolveDecision dec.id], { s with resolved := dec.id :: s.resolved }, ?_, by simp⟩
      simp [step, critical, hpick, hawait]
  | some g' =>
      have hlt := hroom (by simp [hpick])
      refine ⟨[.start, .resolveDecision dec.id],
        { s with group := g' :: s.group, picking := none, resolved := dec.id :: s.resolved },
        ?_, by simp⟩
      simp [run_cons, step, critical, hpick, hlt, hawait]

theorem not_stuck_of_hasRoom {s : State} (hacc : Accounting s) (hroom : HasRoom s) :
    ¬ Stuck s := by
  rintro ⟨hne, hall⟩
  obtain ⟨g, hg⟩ := List.exists_mem_of_ne_nil s.group hne
  obtain ⟨dec, hphase, hno⟩ := hall g hg
  exact hno (deliverable_of_hasRoom hacc hroom hg hphase)

-- While pick waits for a place it keeps mu. Where the goroutines that have not come to
-- their end fill the group, nothing but a cancellation and the end of others happens any more.
theorem blocked_run {s next : State} {es : List Event} (hpick : s.picking ≠ none)
    (hfull : groupLimit ≤ s.group.length) (hrun : run step s es = some next) :
    next.picking = s.picking ∧ next.group = s.group ∧ next.resolved = s.resolved := by
  refine run_invariant step (fun t => t.picking = s.picking ∧ t.group = s.group ∧
    t.resolved = s.resolved) ?_ ⟨rfl, rfl, rfl⟩ hrun
  rintro t e u ⟨hp, hg, hr⟩ hstep
  have hbusy : t.picking ≠ none := hp ▸ hpick
  cases moves_of_step hstep with
  | start g _ hlimit =>
      rw [occupied, hg] at hlimit
      omega
  | cancel => exact ⟨hp, hg, hr⟩
  | done => exact ⟨hp, hg, hr⟩
  | _ => contradiction

-- The condition reads the two collections of the controller, not the group: an awaiting
-- package has left the active list but keeps its goroutine. A goroutine that has deactivated
-- its package is in neither, and keeps its place until it returns.
theorem pick_never_blocks_iff (es : List Event) :
    Always step (fun s => HasRoom s ∧ ¬ Stuck s) init es ↔
      Meets step (fun s e => e = .pick →
        s.controller.activePackages.length ≠ maxConcurrentPackages →
        s.controller.queuedPackages ≠ [] →
        s.controller.activePackages.length + s.controller.awaitingCount + s.returning.length <
          groupLimit) init es := by
  have hroom : ∀ s, Accounting s → (HasRoom s ∧ ¬ Stuck s ↔ HasRoom s) := fun s hacc =>
    and_iff_left_of_imp (not_stuck_of_hasRoom hacc)
  have hinit : HasRoom init := fun h => absurd rfl h
  refine always_iff_meets step Accounting _ _ (fun _ _ _ => accounting_step) ?_ es
    accounting_init ((hroom init accounting_init).mpr hinit)
  intro s e next hacc hp hstep
  rw [hroom next (accounting_step hacc hstep)]
  have hfree : s.picking = none → ∀ {t : State}, t.picking = s.picking → HasRoom t :=
    fun hnone t ht hbusy => absurd (ht.trans hnone) hbusy
  cases moves_of_step hstep with
  | queue _ hnone => exact iff_of_true (hfree hnone rfl) (fun he => nomatch he)
  | pickNone hnone hidle =>
      refine iff_of_true (hfree hnone rfl) fun _ hmax hne => ?_
      rcases hidle with hidle | hidle
      · exact absurd hidle hmax
      · exact absurd hidle hne
  | pickTake pkg rest hnone hmax hqueue =>
      have hb := hacc.balance
      rw [workers_of_free hnone] at hb
      simp only [HasRoom, occupied, ne_eq, reduceCtorEq, not_false_eq_true, forall_const, hqueue, hmax]
      omega
  | start => exact iff_of_true (fun hbusy => absurd rfl hbusy) (fun he => nomatch he)
  | queueToAwait _ _ _ hnone => exact iff_of_true (hfree hnone rfl) (fun he => nomatch he)
  | resolveDecision _ hnone => exact iff_of_true (hfree hnone rfl) (fun he => nomatch he)
  | cancel => exact iff_of_true hp.1 (fun he => nomatch he)
  | dequeueFromAwait _ _ _ hnone => exact iff_of_true (hfree hnone rfl) (fun he => nomatch he)
  | deactivate _ _ hnone => exact iff_of_true (hfree hnone rfl) (fun he => nomatch he)
  | done n =>
      have hle : (s.returning.erase n).length ≤ s.returning.length := List.length_erase_le
      refine iff_of_true (fun hbusy => ?_) (fun he => nomatch he)
      exact (Nat.add_le_add_left hle _).trans_lt (hp.1 hbusy)

-- Ten packages wait for decisions and an eleventh is picked.
def tenAwaiting : List Event :=
  (List.range 10).flatMap (fun i =>
    [.queue (pkgOf i), .pick, .start, .queueToAwait i (decisionOf i)]) ++
  [.queue (pkgOf 10), .pick]

theorem pick_blocks_for_ever :
    ∃ s, run step init tenAwaiting = some s ∧ ¬ HasRoom s ∧ Stuck s := by
  have hmap : (run step init tenAwaiting).map (fun s => (s.picking.isSome, s.group.length,
      s.group.all (fun g => g.phase ≠ .running), s.resolved)) = some (true, 10, true, []) := by
    decide
  obtain ⟨s, hs, hview⟩ := Option.map_eq_some_iff.mp hmap
  simp only [Prod.mk.injEq] at hview
  obtain ⟨hpick, hlen, hphase, hres⟩ := hview
  have hbusy : s.picking ≠ none := Option.isSome_iff_ne_none.mp hpick
  refine ⟨s, hs, fun h => ?_, ?_, ?_⟩
  · have hlt := h hbusy
    simp only [occupied, hlen, groupLimit] at hlt
    omega
  · exact List.ne_nil_of_length_pos (by omega)
  · intro g hg
    have hne : g.phase ≠ .running := by simpa using List.all_eq_true.mp hphase g hg
    cases hg' : g.phase with
    | running => exact absurd hg' hne
    | awaiting dec =>
        refine ⟨dec, rfl, ?_⟩
        rintro ⟨es, next, hrun, hmem⟩
        have hkeep := (blocked_run hbusy (by simp [hlen, groupLimit]) hrun).2.2
        simp [hkeep, hres] at hmem

end Ccp.Controller
