import Ccp.Controller
import Mathlib.Data.List.Perm.Basic
import Mathlib.Data.Option.Basic

namespace Ccp.Controller

open Lib

-- What each event can do, guards included.
inductive Moves (s : State) : Event → State → Prop
  | queue (pkg : Package) (hfree : s.picking = none) :
      Moves s (.queue pkg) { s with controller := s.controller.queue pkg }
  | pickNone (hfree : s.picking = none)
      (hnone : s.controller.activePackages.length = maxConcurrentPackages ∨
        s.controller.queuedPackages = []) : Moves s .pick s
  | pickTake (pkg : Package) (rest : List Package) (hfree : s.picking = none)
      (hmax : s.controller.activePackages.length ≠ maxConcurrentPackages)
      (hqueue : s.controller.queuedPackages = pkg :: rest) :
      Moves s .pick { s with
        controller := { s.controller with
          activePackages := s.controller.activePackages ++ [pkg], queuedPackages := rest }
        picking := some ⟨s.picked, pkg, .running⟩
        picked := s.picked + 1 }
  | start (g : Goroutine) (hpick : s.picking = some g) (hlimit : occupied s < groupLimit) :
      Moves s .start { s with group := g :: s.group, picking := none }
  | queueToAwait (n : Nat) (dec : Decision) (g : Goroutine) (hfree : s.picking = none)
      (hg : g ∈ s.group) (hn : g.n = n) (hphase : g.phase = .running) :
      Moves s (.queueToAwait n dec) { s with
        controller := ((s.controller.queueToAwait g.pkg dec).toOption).getD s.controller
        group := replace s g (.awaiting dec) }
  | resolveDecision (id : UUID) (hfree : s.picking = none) (hawait : s.controller.isAwaiting id) :
      Moves s (.resolveDecision id) { s with resolved := id :: s.resolved }
  | cancel : Moves s .cancel { s with canceled := true }
  | dequeueFromAwait (n : Nat) (dec : Decision) (g : Goroutine) (hfree : s.picking = none)
      (hg : g ∈ s.group) (hn : g.n = n) (hphase : g.phase = .awaiting dec)
      (hres : dec.id ∈ s.resolved ∨ s.canceled) :
      Moves s (.dequeueFromAwait n) { s with
        controller := s.controller.dequeueFromAwait g.pkg dec
        group := replace s g .running }
  | deactivate (n : Nat) (g : Goroutine) (hfree : s.picking = none) (hg : g ∈ s.group)
      (hn : g.n = n) (hphase : g.phase = .running) :
      Moves s (.deactivate n) { s with
        controller := s.controller.deactivate g.pkg
        group := s.group.erase g
        returning := n :: s.returning }
  | done (n : Nat) (hn : n ∈ s.returning) :
      Moves s (.done n) { s with returning := s.returning.erase n }

theorem goroutine_eq_some {s : State} {n : Nat} {g : Goroutine} (h : goroutine s n = some g) :
    g ∈ s.group ∧ g.n = n :=
  ⟨List.mem_of_find?_eq_some h, by simpa using List.find?_some h⟩

theorem moves_of_critical {s next : State} {e : Event} (hfree : s.picking = none)
    (h : critical s e = some next) : Moves s e next := by
  cases e with
  | queue pkg =>
      obtain rfl := Option.some.inj h
      exact .queue pkg hfree
  | pick =>
      simp only [critical, pick] at h
      split_ifs at h with hmax
      · obtain rfl := Option.some.inj h
        exact .pickNone hfree (.inl hmax)
      · cases hq : s.controller.queuedPackages with
        | nil =>
            simp only [hq] at h
            obtain rfl := Option.some.inj h
            exact .pickNone hfree (.inr hq)
        | cons pkg rest =>
            simp only [hq] at h
            obtain rfl := Option.some.inj h
            exact .pickTake pkg rest hfree hmax hq
  | start => exact nomatch h
  | queueToAwait n dec =>
      simp only [critical, Option.bind_eq_bind, Option.bind_eq_some_iff, Option.some.injEq] at h
      obtain ⟨g, hg, _, hguard, rfl⟩ := h
      obtain ⟨hmem, hn⟩ := goroutine_eq_some hg
      exact .queueToAwait n dec g hfree hmem hn ((Option.guard_eq_some' _).mp hguard)
  | resolveDecision id =>
      simp only [critical] at h
      split_ifs at h with hawait
      obtain rfl := Option.some.inj h
      exact .resolveDecision id hfree hawait
  | cancel => exact nomatch h
  | dequeueFromAwait n =>
      simp only [critical, Option.bind_eq_bind, Option.bind_eq_some_iff] at h
      obtain ⟨g, hg, h⟩ := h
      obtain ⟨hmem, hn⟩ := goroutine_eq_some hg
      cases hphase : g.phase with
      | running => simp [hphase] at h
      | awaiting dec =>
          simp only [hphase, Option.bind_eq_some_iff, Option.some.injEq] at h
          obtain ⟨_, hguard, rfl⟩ := h
          exact .dequeueFromAwait n dec g hfree hmem hn hphase
            ((Option.guard_eq_some' _).mp hguard)
  | deactivate n =>
      simp only [critical, Option.bind_eq_bind, Option.bind_eq_some_iff, Option.some.injEq] at h
      obtain ⟨g, hg, _, hguard, rfl⟩ := h
      obtain ⟨hmem, hn⟩ := goroutine_eq_some hg
      exact .deactivate n g hfree hmem hn ((Option.guard_eq_some' _).mp hguard)
  | done => exact nomatch h

theorem moves_of_step {s next : State} {e : Event} (h : step s e = some next) :
    Moves s e next := by
  cases e with
  | cancel =>
      obtain rfl := Option.some.inj h
      exact .cancel
  | start =>
      simp only [step] at h
      cases hp : s.picking with
      | none => simp [hp] at h
      | some g =>
          simp only [hp] at h
          split_ifs at h with hlimit
          obtain rfl := Option.some.inj h
          exact .start g hp hlimit
  | done n =>
      simp only [step] at h
      split_ifs at h with hn
      obtain rfl := Option.some.inj h
      exact .done n hn
  | _ =>
      simp only [step] at h
      split_ifs at h with hfree
      exact moves_of_critical hfree h

-- The goroutines of the packages that pick has taken: those of the group and
-- the one that is on its way to it.
def workers (s : State) : List Goroutine := s.picking.toList ++ s.group

def Goroutine.activeID (g : Goroutine) : Option UUID :=
  if g.phase = .running then some g.pkg.id else none

def Goroutine.awaitedIn (id : UUID) (g : Goroutine) : Option UUID :=
  match g.phase with
  | .running => none
  | .awaiting dec => if g.pkg.id = id then some dec.id else none

-- The collections hold what the goroutines are doing, package id by package id.
structure Accounting (s : State) : Prop where
  picking : ∀ g, s.picking = some g → g.phase = .running
  active : (s.controller.activePackages.map Package.id).Perm
    ((workers s).filterMap Goroutine.activeID)
  awaiting : ∀ id, ((s.controller.decisions id).map Decision.id).Perm
    ((workers s).filterMap (Goroutine.awaitedIn id))
  nonempty : ∀ id ds, s.controller.awaitingPackages.lookup id = some ds → ds ≠ []
  balance : s.controller.activePackages.length + s.controller.awaitingCount = (workers s).length

theorem accounting_init : Accounting init where
  picking _ h := nomatch h
  active := .nil
  awaiting _ := .nil
  nonempty id ds h := by simp [init, new] at h
  balance := rfl

theorem workers_of_free {s : State} (h : s.picking = none) : workers s = s.group := by
  simp [workers, h]

theorem map_eraseP_id {α : Type} (f : α → UUID) (l : List α) (d : UUID) :
    (l.eraseP fun x => f x = d).map f = (l.map f).erase d := by
  rw [List.erase_eq_eraseP, List.eraseP_map]
  congr 1
  apply congrArg (fun p => List.eraseP p l)
  funext x
  simp [Function.comp, Bool.beq_eq_decide_eq, eq_comm]

theorem mem_active_of_running {s : State} (h : Accounting s) {g : Goroutine} (hg : g ∈ workers s)
    (hphase : g.phase = .running) : g.pkg.id ∈ s.controller.activePackages.map Package.id :=
  h.active.mem_iff.mpr (List.mem_filterMap.mpr ⟨g, hg, by simp [Goroutine.activeID, hphase]⟩)

theorem mem_decisions_of_awaiting {s : State} (h : Accounting s) {g : Goroutine}
    (hg : g ∈ workers s) {dec : Decision} (hphase : g.phase = .awaiting dec) :
    dec.id ∈ (s.controller.decisions g.pkg.id).map Decision.id :=
  (h.awaiting g.pkg.id).mem_iff.mpr
    (List.mem_filterMap.mpr ⟨g, hg, by simp [Goroutine.awaitedIn, hphase]⟩)

-- A put with the empty list stands for the delete of dequeueFromAwait.
def putDecisions (m : GoMap UUID (List Decision)) (id : UUID) (l : List Decision) :
    GoMap UUID (List Decision) :=
  if l = [] then m.erase id else m.insert id l

theorem lookup_putDecisions (m : GoMap UUID (List Decision)) (id : UUID) (l : List Decision)
    (x : UUID) :
    ((putDecisions m id l).lookup x).getD [] = if x = id then l else (m.lookup x).getD [] := by
  unfold putDecisions
  by_cases hx : x = id
  · subst hx
    rw [if_pos rfl]
    split_ifs with hl
    · rw [Finmap.lookup_erase, hl]
      rfl
    · rw [Finmap.lookup_insert]
      rfl
  · rw [if_neg hx]
    split_ifs with hl
    · rw [Finmap.lookup_erase_ne hx]
    · rw [Finmap.lookup_insert_of_ne _ hx]

theorem nonempty_putDecisions {m : GoMap UUID (List Decision)} {id : UUID} {l : List Decision}
    (h : ∀ x ds, m.lookup x = some ds → ds ≠ []) (x : UUID) (ds : List Decision)
    (hx : (putDecisions m id l).lookup x = some ds) : ds ≠ [] := by
  unfold putDecisions at hx
  by_cases hid : x = id
  · subst hid
    split_ifs at hx with hl
    · rw [Finmap.lookup_erase] at hx
      exact nomatch hx
    · rw [Finmap.lookup_insert] at hx
      exact Option.some.inj hx ▸ hl
  · split_ifs at hx with hl
    · exact h x ds (by rwa [Finmap.lookup_erase_ne hid] at hx)
    · exact h x ds (by rwa [Finmap.lookup_insert_of_ne _ hid] at hx)

theorem total_putDecisions (m : GoMap UUID (List Decision)) (id : UUID) (l : List Decision) :
    GoMap.total List.length (putDecisions m id l) + ((m.lookup id).getD []).length =
      GoMap.total List.length m + l.length := by
  have hput : GoMap.total List.length (putDecisions m id l) =
      l.length + GoMap.total List.length (m.erase id) := by
    unfold putDecisions
    split_ifs with hl
    · simp [hl]
    · exact GoMap.total_insert List.length m id l
  cases hm : m.lookup id with
  | none => simp [hput, GoMap.erase_of_lookup_eq_none hm, Nat.add_comm]
  | some old =>
      rw [hput, GoMap.total_eq_add_erase List.length hm]
      simp only [Option.getD_some]
      omega

theorem queueToAwait_of_mem {c : Controller} {pkg : Package} {dec : Decision}
    (h : pkg.id ∈ c.activePackages.map Package.id) :
    c.queueToAwait pkg dec = .ok { c with
      activePackages := c.activePackages.eraseP fun active => active.id = pkg.id
      awaitingPackages := putDecisions c.awaitingPackages pkg.id (c.decisions pkg.id ++ [dec]) } := by
  obtain ⟨active, hmem, hid⟩ := List.mem_map.mp h
  have hany : c.activePackages.any (fun active => active.id = pkg.id) = true :=
    List.any_eq_true.mpr ⟨active, hmem, by simp [hid]⟩
  simp only [queueToAwait, hany, if_true, putDecisions, decisions]
  split <;> rename_i hl <;> simp [hl]

theorem dequeueFromAwait_of_mem {c : Controller} {pkg : Package} {dec : Decision}
    (h : dec.id ∈ (c.decisions pkg.id).map Decision.id) :
    c.dequeueFromAwait pkg dec = { c with
      activePackages := c.activePackages ++ [pkg]
      awaitingPackages := putDecisions c.awaitingPackages pkg.id
        ((c.decisions pkg.id).eraseP fun item => item.id = dec.id) } := by
  obtain ⟨item, hmem, hid⟩ := List.mem_map.mp h
  unfold decisions at hmem ⊢
  cases hl : c.awaitingPackages.lookup pkg.id with
  | none => simp [hl] at hmem
  | some ds =>
      simp only [hl, Option.getD_some] at hmem ⊢
      have hany : ds.any (fun item => item.id = dec.id) = true :=
        List.any_eq_true.mpr ⟨item, hmem, by simp [hid]⟩
      simp only [dequeueFromAwait, hl, hany, if_true, putDecisions]

-- The goroutine leaves its place in the group and takes its new phase.
theorem workers_replace {s : State} (hfree : s.picking = none) {g : Goroutine} (hg : g ∈ s.group) :
    (workers s).Perm (g :: s.group.erase g) := by
  rw [workers_of_free hfree]
  exact List.perm_cons_erase hg

theorem length_eraseP_id {l : List Package} {id : UUID} (h : id ∈ l.map Package.id) :
    (l.eraseP fun item => item.id = id).length + 1 = l.length := by
  have hlen := congrArg List.length (map_eraseP_id Package.id l id)
  simp only [List.length_map, List.length_erase_of_mem h] at hlen
  have := List.length_pos_of_mem h
  simp only [List.length_map] at this
  omega

theorem accounting_pick {s : State} (h : Accounting s) (hfree : s.picking = none)
    (pkg : Package) (rest : List Package) :
    Accounting { s with
      controller := { s.controller with
        activePackages := s.controller.activePackages ++ [pkg], queuedPackages := rest }
      picking := some ⟨s.picked, pkg, .running⟩
      picked := s.picked + 1 } := by
  have hw : workers s = s.group := workers_of_free hfree
  refine ⟨?_, ?_, ?_, h.nonempty, ?_⟩
  · intro g hg
    obtain rfl := Option.some.inj hg
    rfl
  · have ha := h.active
    rw [hw] at ha
    simp only [workers, Option.toList_some, List.singleton_append, List.filterMap_cons,
      Goroutine.activeID, if_true, List.map_append, List.map_cons, List.map_nil]
    exact (List.perm_append_singleton _ _).trans (ha.cons _)
  · intro id
    have ha := h.awaiting id
    rw [hw] at ha
    exact ha
  · have hb := h.balance
    rw [hw] at hb
    simp only [workers, Option.toList_some, List.length_append, List.length_singleton,
      awaitingCount] at hb ⊢
    omega

theorem accounting_start {s : State} (h : Accounting s) {g : Goroutine}
    (hpick : s.picking = some g) : Accounting { s with group := g :: s.group, picking := none } := by
  have hw : workers { s with group := g :: s.group, picking := none } = workers s := by
    simp [workers, hpick]
  refine ⟨fun _ hg => ?_, hw ▸ h.active, hw ▸ h.awaiting, h.nonempty, hw ▸ h.balance⟩
  exact nomatch hg

theorem accounting_queueToAwait {s : State} (h : Accounting s) (hfree : s.picking = none)
    {g : Goroutine} (hg : g ∈ s.group) (hphase : g.phase = .running) (dec : Decision) :
    Accounting { s with
      controller := ((s.controller.queueToAwait g.pkg dec).toOption).getD s.controller
      group := replace s g (.awaiting dec) } := by
  have hperm := workers_replace hfree hg
  have hmem := mem_active_of_running h (by rw [workers_of_free hfree]; exact hg) hphase
  rw [queueToAwait_of_mem hmem]
  have hw : ∀ c, workers { s with controller := c, group := replace s g (.awaiting dec) } =
      { g with phase := .awaiting dec } :: s.group.erase g := by
    intro c
    simp [workers, hfree, replace]
  refine ⟨h.picking, ?_, ?_, nonempty_putDecisions h.nonempty, ?_⟩
  · rw [hw]
    have ha := h.active.trans (hperm.filterMap Goroutine.activeID)
    simp only [List.filterMap_cons, Goroutine.activeID, hphase, if_true] at ha
    simpa [Goroutine.activeID, Except.toOption, map_eraseP_id] using ha.erase g.pkg.id
  · intro id
    rw [hw]
    have ha := (h.awaiting id).trans (hperm.filterMap (Goroutine.awaitedIn id))
    simp only [List.filterMap_cons, Goroutine.awaitedIn, hphase] at ha
    simp only [Except.toOption, Option.getD_some, decisions, lookup_putDecisions,
      List.filterMap_cons, Goroutine.awaitedIn]
    by_cases hid : id = g.pkg.id
    · subst hid
      simp only [if_true, List.map_append, List.map_cons, List.map_nil]
      exact (List.perm_append_singleton _ _).trans (ha.cons _)
    · simp only [hid, Ne.symm hid, if_false]
      exact ha
  · rw [hw]
    have hb := h.balance
    have hl := hperm.length_eq
    have ht := total_putDecisions s.controller.awaitingPackages g.pkg.id
      (s.controller.decisions g.pkg.id ++ [dec])
    have he := length_eraseP_id hmem
    simp only [Except.toOption, Option.getD_some, awaitingCount, decisions, List.length_append,
      List.length_cons, List.length_nil] at *
    omega

theorem accounting_dequeueFromAwait {s : State} (h : Accounting s) (hfree : s.picking = none)
    {g : Goroutine} (hg : g ∈ s.group) {dec : Decision} (hphase : g.phase = .awaiting dec) :
    Accounting { s with
      controller := s.controller.dequeueFromAwait g.pkg dec
      group := replace s g .running } := by
  have hperm := workers_replace hfree hg
  have hmem := mem_decisions_of_awaiting h (by rw [workers_of_free hfree]; exact hg) hphase
  rw [dequeueFromAwait_of_mem hmem]
  have hw : ∀ c, workers { s with controller := c, group := replace s g .running } =
      { g with phase := .running } :: s.group.erase g := by
    intro c
    simp [workers, hfree, replace]
  refine ⟨h.picking, ?_, ?_, nonempty_putDecisions h.nonempty, ?_⟩
  · rw [hw]
    have ha := h.active.trans (hperm.filterMap Goroutine.activeID)
    simp only [List.filterMap_cons, Goroutine.activeID, hphase, reduceCtorEq, if_false] at ha
    simp only [List.map_append, List.map_cons, List.map_nil, List.filterMap_cons,
      Goroutine.activeID, if_true]
    exact (List.perm_append_singleton _ _).trans (ha.cons _)
  · intro id
    rw [hw]
    have ha := (h.awaiting id).trans (hperm.filterMap (Goroutine.awaitedIn id))
    simp only [List.filterMap_cons, Goroutine.awaitedIn, hphase] at ha
    simp only [decisions, lookup_putDecisions, List.filterMap_cons, Goroutine.awaitedIn]
    by_cases hid : id = g.pkg.id
    · subst hid
      simp only [if_true] at ha ⊢
      rw [map_eraseP_id]
      simpa [decisions] using ha.erase dec.id
    · simp only [hid, Ne.symm hid, if_false] at ha ⊢
      exact ha
  · rw [hw]
    have hb := h.balance
    have hl := hperm.length_eq
    have ht := total_putDecisions s.controller.awaitingPackages g.pkg.id
      ((s.controller.decisions g.pkg.id).eraseP fun item => item.id = dec.id)
    have he := congrArg List.length (map_eraseP_id Decision.id
      (s.controller.decisions g.pkg.id) dec.id)
    have hpos := List.length_pos_of_mem hmem
    rw [List.length_map, List.length_erase_of_mem hmem] at he
    simp only [awaitingCount, decisions, List.length_append, List.length_cons,
      List.length_nil, List.length_map] at *
    omega

theorem accounting_deactivate {s : State} (h : Accounting s) (hfree : s.picking = none)
    {g : Goroutine} (hg : g ∈ s.group) (hphase : g.phase = .running) (returning : List Nat) :
    Accounting { s with
      controller := s.controller.deactivate g.pkg
      group := s.group.erase g
      returning := returning } := by
  have hperm := workers_replace hfree hg
  have hmem := mem_active_of_running h (by rw [workers_of_free hfree]; exact hg) hphase
  have hw : ∀ c, workers { s with controller := c, group := s.group.erase g, returning := returning } =
      s.group.erase g := by
    intro c
    simp [workers, hfree]
  refine ⟨h.picking, ?_, ?_, h.nonempty, ?_⟩
  · rw [hw]
    have ha := h.active.trans (hperm.filterMap Goroutine.activeID)
    simp only [List.filterMap_cons, Goroutine.activeID, hphase, if_true] at ha
    simpa [Goroutine.activeID, deactivate, map_eraseP_id] using ha.erase g.pkg.id
  · intro id
    rw [hw]
    have ha := (h.awaiting id).trans (hperm.filterMap (Goroutine.awaitedIn id))
    simp only [List.filterMap_cons, Goroutine.awaitedIn, hphase] at ha
    exact ha
  · rw [hw]
    have hb := h.balance
    have hl := hperm.length_eq
    have he := length_eraseP_id hmem
    simp only [deactivate, awaitingCount, List.length_cons] at *
    omega

theorem accounting_step {s next : State} {e : Event} (h : Accounting s)
    (hstep : step s e = some next) : Accounting next := by
  cases moves_of_step hstep with
  | queue pkg hfree => exact ⟨h.picking, h.active, h.awaiting, h.nonempty, h.balance⟩
  | pickNone => exact h
  | pickTake pkg rest hfree => exact accounting_pick h hfree pkg rest
  | start g hpick => exact accounting_start h hpick
  | queueToAwait n dec g hfree hg hn hphase => exact accounting_queueToAwait h hfree hg hphase dec
  | resolveDecision => exact ⟨h.picking, h.active, h.awaiting, h.nonempty, h.balance⟩
  | cancel => exact ⟨h.picking, h.active, h.awaiting, h.nonempty, h.balance⟩
  | dequeueFromAwait n dec g hfree hg hn hphase =>
      exact accounting_dequeueFromAwait h hfree hg hphase
  | deactivate n g hfree hg hn hphase => exact accounting_deactivate h hfree hg hphase _
  | done => exact ⟨h.picking, h.active, h.awaiting, h.nonempty, h.balance⟩

theorem accounting_of_run {es : List Event} {s : State} (h : run step init es = some s) :
    Accounting s :=
  run_invariant step Accounting (fun _ _ _ => accounting_step) accounting_init h

end Ccp.Controller
