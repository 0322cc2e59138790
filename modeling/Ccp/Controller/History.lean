import Ccp.Controller.Accounting
import Mathlib.Data.List.Nodup

namespace Ccp.Controller

open Lib

def Event.queued? : Event → Option Package
  | .queue pkg => some pkg
  | _ => none

def Event.deactivated? : Event → Option Nat
  | .deactivate n => some n
  | _ => none

-- The packages passed to queue, and the numbers of the goroutines that ended.
def queuedIn (es : List Event) : List Package := es.filterMap Event.queued?

def deactivatedIn (es : List Event) : List Nat := es.filterMap Event.deactivated?

theorem queuedIn_snoc (es : List Event) (e : Event) :
    queuedIn (es ++ [e]) = queuedIn es ++ e.queued?.toList := by
  cases he : e.queued? <;> simp [queuedIn, he]

theorem deactivatedIn_snoc (es : List Event) (e : Event) :
    deactivatedIn (es ++ [e]) = deactivatedIn es ++ e.deactivated?.toList := by
  cases he : e.deactivated? <;> simp [deactivatedIn, he]

-- How the state follows from the events so far.
structure History (es : List Event) (s : State) : Prop where
  queued : s.controller.queuedPackages = (queuedIn es).drop s.picked
  picked : s.picked ≤ (queuedIn es).length
  pkg : ∀ g ∈ workers s, (queuedIn es)[g.n]? = some g.pkg
  numbers : ((workers s).map Goroutine.n ++ deactivatedIn es).Perm (List.range s.picked)

theorem history_init : History [] init where
  queued := rfl
  picked := Nat.le_refl _
  pkg _ h := by simp [workers, init] at h
  numbers := .nil

-- An event that is neither queue, pick nor deactivate only moves a goroutine.
theorem History.of_moved {es : List Event} {s next : State} (h : History es s) {e : Event}
    (hq : e.queued? = none) (hd : e.deactivated? = none)
    (hqueue : next.controller.queuedPackages = s.controller.queuedPackages)
    (hpicked : next.picked = s.picked)
    (hn : ((workers next).map Goroutine.n).Perm ((workers s).map Goroutine.n))
    (hpkg : ∀ g ∈ workers next, ∃ g' ∈ workers s, g'.n = g.n ∧ g'.pkg = g.pkg) :
    History (es ++ [e]) next := by
  have hes : queuedIn (es ++ [e]) = queuedIn es := by simp [queuedIn_snoc, hq]
  have hds : deactivatedIn (es ++ [e]) = deactivatedIn es := by simp [deactivatedIn_snoc, hd]
  refine ⟨?_, ?_, ?_, ?_⟩
  · rw [hes, hqueue, hpicked, h.queued]
  · rw [hes, hpicked]
    exact h.picked
  · intro g hg
    obtain ⟨g', hg', hn', hp'⟩ := hpkg g hg
    rw [hes, ← hn', ← hp']
    exact h.pkg g' hg'
  · rw [hds, hpicked]
    exact (hn.append_right _).trans h.numbers

theorem History.of_replace {es : List Event} {s : State} (h : History es s) {e : Event}
    (hq : e.queued? = none) (hd : e.deactivated? = none) (hfree : s.picking = none)
    {g : Goroutine} (hg : g ∈ s.group) (phase : Phase) {c : Controller}
    (hc : c.queuedPackages = s.controller.queuedPackages) :
    History (es ++ [e]) { s with controller := c, group := replace s g phase } := by
  have hw : workers { s with controller := c, group := replace s g phase } =
      { g with phase } :: s.group.erase g := by simp [workers, hfree, replace]
  refine @History.of_moved es s { s with controller := c, group := replace s g phase } h e
    hq hd hc rfl ?_ ?_
  · rw [hw]
    exact ((workers_replace hfree hg).map Goroutine.n).symm
  · intro g' hg'
    rw [hw] at hg'
    rw [workers_of_free hfree]
    rcases List.mem_cons.mp hg' with rfl | hmem
    · exact ⟨g, hg, rfl, rfl⟩
    · exact ⟨g', List.mem_of_mem_erase hmem, rfl, rfl⟩

theorem queuedPackages_dequeueFromAwait (c : Controller) (pkg : Package) (dec : Decision) :
    (c.dequeueFromAwait pkg dec).queuedPackages = c.queuedPackages := by
  unfold dequeueFromAwait
  split
  · rfl
  · split_ifs <;> rfl

theorem queuedPackages_queueToAwait (c : Controller) (pkg : Package) (dec : Decision) :
    (((c.queueToAwait pkg dec).toOption).getD c).queuedPackages = c.queuedPackages := by
  unfold queueToAwait
  split_ifs <;> rfl

theorem history_pick {es : List Event} {s : State} (h : History es s) (hfree : s.picking = none)
    {pkg : Package} {rest : List Package} (hqueue : s.controller.queuedPackages = pkg :: rest) :
    History (es ++ [.pick]) { s with
      controller := { s.controller with
        activePackages := s.controller.activePackages ++ [pkg], queuedPackages := rest }
      picking := some ⟨s.picked, pkg, .running⟩
      picked := s.picked + 1 } := by
  have hes : queuedIn (es ++ [.pick]) = queuedIn es := by simp [queuedIn_snoc, Event.queued?]
  have hds : deactivatedIn (es ++ [.pick]) = deactivatedIn es := by
    simp [deactivatedIn_snoc, Event.deactivated?]
  have hdrop : (queuedIn es).drop s.picked = pkg :: rest := h.queued ▸ hqueue
  have hlt : s.picked < (queuedIn es).length := by
    by_contra hle
    rw [List.drop_eq_nil_of_le (by omega)] at hdrop
    exact nomatch hdrop
  have hget : (queuedIn es)[s.picked]? = some pkg := by
    rw [← List.head?_drop, hdrop]
    rfl
  refine ⟨?_, ?_, ?_, ?_⟩
  · rw [hes, ← List.drop_drop, hdrop]
    rfl
  · rw [hes]
    exact hlt
  · intro g hg
    rw [hes]
    simp only [workers, Option.toList_some, List.singleton_append, List.mem_cons] at hg
    rcases hg with rfl | hg
    · exact hget
    · exact h.pkg g (by rw [workers_of_free hfree]; exact hg)
  · rw [hds, List.range_succ]
    have hn := h.numbers
    rw [workers_of_free hfree] at hn
    simp only [workers, Option.toList_some, List.map_cons, List.cons_append]
    exact (hn.cons s.picked).trans (List.perm_append_singleton _ _).symm

theorem history_step {es : List Event} {s next : State} {e : Event} (h : History es s)
    (hstep : step s e = some next) : History (es ++ [e]) next := by
  cases moves_of_step hstep with
  | queue pkg hfree =>
      have hes : queuedIn (es ++ [.queue pkg]) = queuedIn es ++ [pkg] := queuedIn_snoc es _
      have hds : deactivatedIn (es ++ [.queue pkg]) = deactivatedIn es := by
        simp [deactivatedIn_snoc, Event.deactivated?]
      have hle := h.picked
      refine ⟨?_, ?_, ?_, ?_⟩
      · rw [hes, List.drop_append_of_le_length h.picked, ← h.queued]
        rfl
      · simp only [hes, List.length_append]
        omega
      · intro g hg
        have hget := h.pkg g hg
        rw [hes, List.getElem?_append_left (List.getElem?_eq_some_iff.mp hget).1]
        exact hget
      · rw [hds]
        exact h.numbers
  | pickNone =>
      exact h.of_moved rfl rfl rfl rfl (.refl _) fun g hg => ⟨g, hg, rfl, rfl⟩
  | pickTake pkg rest hfree hmax hqueue => exact history_pick h hfree hqueue
  | start g hpick =>
      have hw : workers { s with group := g :: s.group, picking := none } = workers s := by
        simp [workers, hpick]
      refine h.of_moved rfl rfl rfl rfl (hw ▸ .refl _) fun g hg => ⟨g, ?_, rfl, rfl⟩
      rwa [hw] at hg
  | queueToAwait n dec g hfree hg =>
      exact h.of_replace rfl rfl hfree hg _ (queuedPackages_queueToAwait _ _ _)
  | resolveDecision => exact h.of_moved rfl rfl rfl rfl (.refl _) fun g hg => ⟨g, hg, rfl, rfl⟩
  | cancel => exact h.of_moved rfl rfl rfl rfl (.refl _) fun g hg => ⟨g, hg, rfl, rfl⟩
  | dequeueFromAwait n dec g hfree hg =>
      exact h.of_replace rfl rfl hfree hg _ (queuedPackages_dequeueFromAwait _ _ _)
  | deactivate n g hfree hg hn =>
      have hes : queuedIn (es ++ [.deactivate n]) = queuedIn es := by
        simp [queuedIn_snoc, Event.queued?]
      have hds : deactivatedIn (es ++ [.deactivate n]) = deactivatedIn es ++ [n] :=
        deactivatedIn_snoc es _
      have hw : workers { s with
          controller := s.controller.deactivate g.pkg
          group := s.group.erase g
          returning := n :: s.returning } = s.group.erase g := by simp [workers, hfree]
      refine ⟨?_, ?_, ?_, ?_⟩
      · rw [hes]
        exact h.queued
      · rw [hes]
        exact h.picked
      · intro g' hg'
        rw [hw] at hg'
        rw [hes]
        exact h.pkg g' (by rw [workers_of_free hfree]; exact List.mem_of_mem_erase hg')
      · rw [hw, hds, ← List.append_assoc]
        have hperm := ((workers_replace hfree hg).map Goroutine.n).append_right (deactivatedIn es)
        rw [List.map_cons, hn] at hperm
        exact (List.perm_append_singleton _ _).trans (hperm.symm.trans h.numbers)
  | done => exact h.of_moved rfl rfl rfl rfl (.refl _) fun g hg => ⟨g, hg, rfl, rfl⟩

theorem history_of_run {es : List Event} {s : State} (h : run step init es = some s) :
    History es s :=
  run_induction step init History history_init
    (fun _ _ _ _ _ hist hstep => history_step hist hstep) es s h

-- Every worker of an id is in one of the two collections.
theorem countP_workers (gs : List Goroutine) (id : UUID) :
    gs.countP (fun g => g.pkg.id = id) =
      (gs.filterMap Goroutine.activeID).count id + (gs.filterMap (Goroutine.awaitedIn id)).length := by
  induction gs with
  | nil => rfl
  | cons g gs ih =>
      cases hphase : g.phase with
      | running =>
          by_cases hid : g.pkg.id = id
          · simp [Goroutine.activeID, Goroutine.awaitedIn, hphase, hid, ih]
            omega
          · simp [Goroutine.activeID, Goroutine.awaitedIn, hphase, hid, ih]
      | awaiting dec =>
          by_cases hid : g.pkg.id = id
          · simp [Goroutine.activeID, Goroutine.awaitedIn, hphase, hid, ih]
            omega
          · simp [Goroutine.activeID, Goroutine.awaitedIn, hphase, hid, ih]

theorem Accounting.countP_workers {s : State} (h : Accounting s) (id : UUID) :
    (workers s).countP (fun g => g.pkg.id = id) =
      s.controller.activePackages.countP (fun pkg => pkg.id = id) +
        (s.controller.decisions id).length := by
  have ha := h.active.count_eq id
  have hl := (h.awaiting id).length_eq
  have hc : (s.controller.activePackages.map Package.id).count id =
      s.controller.activePackages.countP fun pkg => pkg.id = id := by
    rw [List.count, List.countP_map]
    apply List.countP_congr
    simp
  rw [Controller.countP_workers, ← ha, ← hl, hc, List.length_map]

-- A number that pick has given out belongs to one worker until it is deactivated.
theorem History.filter_workers {es : List Event} {s : State} (h : History es s) {i : Nat}
    {pkg : Package} (hi : ((queuedIn es).take s.picked)[i]? = some pkg) :
    if i ∈ deactivatedIn es then (workers s).filter (fun g => g.n = i) = []
    else ∃ phase, (workers s).filter (fun g => g.n = i) = [⟨i, pkg, phase⟩] := by
  obtain ⟨hlt, -⟩ := List.getElem?_eq_some_iff.mp hi
  have hpicked : i < s.picked := by simp only [List.length_take] at hlt; omega
  rw [List.getElem?_take_of_lt hpicked] at hi
  have hcount := h.numbers.count_eq i
  rw [List.count_append, List.count_eq_one_of_mem List.nodup_range
    (List.mem_range.mpr hpicked)] at hcount
  have hfilter : ((workers s).map Goroutine.n).count i =
      ((workers s).filter fun g => g.n = i).length := by
    rw [List.count, List.countP_map, List.countP_eq_length_filter]
    congr 2
  split_ifs with hd
  · have hpos := List.count_pos_iff.mpr hd
    exact List.length_eq_zero_iff.mp (by omega)
  · rw [List.count_eq_zero_of_not_mem hd] at hcount
    obtain ⟨g, hg⟩ := List.length_eq_one_iff.mp (hfilter.symm.trans hcount)
    have hmem : g ∈ (workers s).filter fun g => g.n = i := hg ▸ List.mem_singleton_self g
    obtain ⟨hw, hn⟩ := List.mem_filter.mp hmem
    simp only [decide_eq_true_eq] at hn
    have hpkg := h.pkg g hw
    rw [hn, hi] at hpkg
    refine ⟨g.phase, ?_⟩
    rw [hg, ← hn, Option.some.inj hpkg]

-- Packages wait in FIFO order, keep one goroutine each from pick to
-- deactivate, and each goroutine is accounted for in exactly one collection.
-- While pick is between taking a package and the start of its goroutine that
-- goroutine counts as a worker; otherwise the workers are the group.
theorem packages_conserved (es : List Event) (s : State) (hrun : run step init es = some s) :
    queuedIn es = (queuedIn es).take s.picked ++ s.controller.queuedPackages ∧
    (∀ i pkg, ((queuedIn es).take s.picked)[i]? = some pkg →
      if i ∈ deactivatedIn es then (workers s).filter (fun g => g.n = i) = []
      else ∃ phase, (workers s).filter (fun g => g.n = i) = [⟨i, pkg, phase⟩]) ∧
    (∀ id, (workers s).countP (fun g => g.pkg.id = id) =
      s.controller.activePackages.countP (fun pkg => pkg.id = id) +
        (s.controller.decisions id).length) ∧
    (∀ id, (∀ g ∈ workers s, g.pkg.id ≠ id) →
      (∀ pkg ∈ s.controller.activePackages, pkg.id ≠ id) ∧
        id ∉ s.controller.awaitingPackages) ∧
    (s.picking = none → workers s = s.group) := by
  have hacc := accounting_of_run hrun
  have hist := history_of_run hrun
  refine ⟨?_, fun i pkg => hist.filter_workers, hacc.countP_workers, ?_, workers_of_free⟩
  · rw [hist.queued, List.take_append_drop]
  · intro id hid
    have hzero : (workers s).countP (fun g => g.pkg.id = id) = 0 :=
      List.countP_eq_zero.mpr (by simpa using hid)
    rw [hacc.countP_workers id] at hzero
    constructor
    · have hactive : s.controller.activePackages.countP (fun pkg => pkg.id = id) = 0 := by omega
      simpa using List.countP_eq_zero.mp hactive
    · intro hmem
      obtain ⟨ds, hds⟩ := Finmap.mem_iff.mp hmem
      have hlen : (s.controller.decisions id).length = 0 := by omega
      simp only [decisions, hds, Option.getD_some] at hlen
      exact hacc.nonempty id ds hds (List.length_eq_zero_iff.mp hlen)

def pkgOf (i : Nat) : Package := ⟨⟨i⟩, .dip, [], [], .nil, .nil⟩

def decisionOf (i : Nat) : Decision := ⟨⟨i⟩, [], [], .nil⟩

-- Two packages of one id await together; a cancellation ends the second.
def sameID : List Event :=
  [.queue (pkgOf 1), .queue (pkgOf 1), .queue (pkgOf 2), .pick, .start, .pick, .start,
    .queueToAwait 0 (decisionOf 1), .queueToAwait 1 (decisionOf 2), .cancel,
    .dequeueFromAwait 1, .deactivate 1]

theorem packages_conserved_sameID : ∃ s, run step init sameID = some s ∧
    queuedIn sameID = (queuedIn sameID).take s.picked ++ s.controller.queuedPackages ∧
    ∀ id, (workers s).countP (fun g => g.pkg.id = id) =
      s.controller.activePackages.countP (fun pkg => pkg.id = id) +
        (s.controller.decisions id).length := by
  obtain ⟨s, hs⟩ := Option.isSome_iff_exists.mp
    (show (run step init sameID).isSome = true by decide)
  obtain ⟨hqueue, -, hcount, -, -⟩ := packages_conserved sameID s hs
  exact ⟨s, hs, hqueue, hcount⟩

end Ccp.Controller
