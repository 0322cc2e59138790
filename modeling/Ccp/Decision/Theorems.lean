import Ccp.Decision.Resolve

namespace Ccp.Decision

open Lib

variable {choices : List Choice}

inductive Moves (choices : List Choice) (s : State) : Event → State → Prop
  | call (n : Nat) (arg : Arg) (hnew : s.calls n = none) :
      Moves choices s (.call n arg) (s.set n arg .called)
  | refuse (n : Nat) (arg : Arg) (hcall : s.calls n = some ⟨arg, .called⟩)
      (hwriter : s.writer = none) (hres : s.resolved = true) :
      Moves choices s (.check n)
        { s.set n arg (.returned (some "decision is not pending resolution")) with
          readers := s.readers + 1 }
  | pass (n : Nat) (arg : Arg) (hcall : s.calls n = some ⟨arg, .called⟩)
      (hwriter : s.writer = none) (hres : s.resolved = false) :
      Moves choices s (.check n) (s.set n arg .checked)
  | lock (n : Nat) (arg : Arg) (hcall : s.calls n = some ⟨arg, .checked⟩)
      (hwriter : s.writer = none) :
      Moves choices s (.lock n) { s.set n arg .locking with writer := some n }
  | unmatched (n : Nat) (arg : Arg) (hcall : s.calls n = some ⟨arg, .locking⟩)
      (hreaders : s.readers = 0) (hpos : namedPos choices arg = none) :
      Moves choices s (.write n) (s.set n arg (.returned (some "position unmatched")))
  | send (n : Nat) (arg : Arg) (pos : Int) (hcall : s.calls n = some ⟨arg, .locking⟩)
      (hreaders : s.readers = 0) (hpos : namedPos choices arg = some pos) (hroom : s.res = none) :
      Moves choices s (.write n) { s.set n arg (.returned none) with
        res := some pos, resolved := true, writer := none }
  | receive (pos : Int) (hawait : s.await = .waiting) (hres : s.res = some pos) :
      Moves choices s .receive { s with res := none, await := awaitOutcome choices pos }
  | cancel (hawait : s.await = .waiting) : Moves choices s .cancel { s with await := .canceled }

theorem moves_of_step {s next : State} {e : Event} (h : step choices s e = some next) :
    Moves choices s e next := by
  cases e with
  | call n arg =>
      simp only [step] at h
      split_ifs at h with hnew
      obtain rfl := Option.some.inj h
      exact .call n arg hnew
  | check n =>
      simp only [step] at h
      split at h
      · rename_i arg hcall
        split_ifs at h with hwriter hres
        · obtain rfl := Option.some.inj h
          exact .refuse n arg hcall hwriter hres
        · obtain rfl := Option.some.inj h
          exact .pass n arg hcall hwriter (by simpa using hres)
      · exact nomatch h
  | lock n =>
      simp only [step] at h
      split at h
      · rename_i arg hcall
        split_ifs at h with hwriter
        obtain rfl := Option.some.inj h
        exact .lock n arg hcall hwriter
      · exact nomatch h
  | write n =>
      simp only [step] at h
      split at h
      · rename_i arg hcall
        cases hpos : namedPos choices arg with
        | none =>
            simp only [hpos] at h
            split_ifs at h with hreaders
            obtain rfl := Option.some.inj h
            exact .unmatched n arg hcall hreaders hpos
        | some pos =>
            simp only [hpos] at h
            split_ifs at h with hreaders hroom
            obtain rfl := Option.some.inj h
            exact .send n arg pos hcall hreaders hpos hroom
      · exact nomatch h
  | receive =>
      simp only [step] at h
      split at h
      · rename_i pos hawait hres
        obtain rfl := Option.some.inj h
        exact .receive pos hawait hres
      · exact nomatch h
  | cancel =>
      simp only [step] at h
      split_ifs at h with hawait
      obtain rfl := Option.some.inj h
      exact .cancel hawait

-- A call between its test of resolved and its return.
def CallPhase.busy : CallPhase → Bool
  | .called => false
  | .checked => true
  | .locking => true
  | .returned _ => false

def busy (calls : Nat → Option Call) (n : Nat) : Bool :=
  (calls n).any fun c => c.phase.busy

def ReturnedNil (s : State) (n : Nat) (arg : Arg) : Prop :=
  s.calls n = some ⟨arg, .returned none⟩

def Returned (s : State) (n : Nat) : Prop :=
  ∃ arg err, s.calls n = some ⟨arg, .returned err⟩

def namedChoice (choices : List Choice) (arg : Arg) : Option Choice :=
  (namedPos choices arg).bind (choiceAt choices)

-- The steps of a resolve call that has started.
def Event.resolves : Event → Bool
  | .check _ => true
  | .lock _ => true
  | .write _ => true
  | _ => false

-- What every state of a run should satisfy: one nil at most, the choice that
-- await acted on is the one named by that call, and every call can still return
-- by steps of the calls alone.
structure Sound (choices : List Choice) (s : State) : Prop where
  once : ∀ i j arg arg', ReturnedNil s i arg → ReturnedNil s j arg' → i = j
  named : ∀ c, s.await = .acted c → ∃ i arg, ReturnedNil s i arg ∧ namedChoice choices arg = some c
  live : ∀ n, s.calls n ≠ none → ∃ es next, (∀ e ∈ es, Event.resolves e) ∧
    run (step choices) s es = some next ∧ Returned next n

-- No call tests resolved while another is past its test, and the text given to
-- resolveWithChoice names one of the choices.
def Orderly (choices : List Choice) (s : State) : Event → Prop
  | .call _ arg => namedPos choices arg ≠ none
  | .check _ => ∀ i, busy s.calls i = false
  | _ => True

-- One call at a time is past its test, and holds the lock if it got that far.
structure Locks (choices : List Choice) (s : State) : Prop where
  alone : ∀ i j, busy s.calls i → busy s.calls j → i = j
  pending : ∀ i, busy s.calls i → s.resolved = false
  writer : ∀ i, s.writer = some i ↔ ∃ arg, s.calls i = some ⟨arg, .locking⟩
  matched : ∀ i c, s.calls i = some c → namedPos choices c.arg ≠ none
  unread : s.resolved = false → s.readers = 0

-- What was sent is what the one call that returned nil has named.
structure Nils (choices : List Choice) (s : State) : Prop where
  empty : s.resolved = false → s.res = none
  unsent : s.resolved = false → ∀ i arg, ¬ ReturnedNil s i arg
  idle : s.resolved = false → ∀ c, s.await ≠ .acted c
  once : ∀ i j arg arg', ReturnedNil s i arg → ReturnedNil s j arg' → i = j
  sent : ∀ pos, s.res = some pos → ∃ i arg, ReturnedNil s i arg ∧ namedPos choices arg = some pos
  acted : ∀ c, s.await = .acted c → ∃ i arg, ReturnedNil s i arg ∧ namedChoice choices arg = some c

structure Serial (choices : List Choice) (s : State) : Prop extends Locks choices s, Nils choices s

theorem serial_init : Serial choices init := by
  refine ⟨⟨?_, ?_, ?_, ?_, ?_⟩, ⟨?_, ?_, ?_, ?_, ?_, ?_⟩⟩ <;> simp [busy, ReturnedNil, init]

theorem busy_of_calls {calls : Nat → Option Call} {n : Nat} {c : Call} (h : calls n = some c) :
    busy calls n = c.phase.busy := by
  simp [busy, h]

theorem busy_update (calls : Nat → Option Call) (n : Nat) (c : Call) (i : Nat) :
    busy (Function.update calls n (some c)) i = if i = n then c.phase.busy else busy calls i := by
  simp only [busy, Function.update_apply]
  split_ifs <;> rfl

theorem calls_set (s : State) (n : Nat) (arg : Arg) (phase : CallPhase) (i : Nat) :
    (s.set n arg phase).calls i = if i = n then some ⟨arg, phase⟩ else s.calls i := by
  simp only [State.set, Function.update_apply]

theorem busy_of_busy_set {s : State} {n i : Nat} {arg : Arg} {phase : CallPhase}
    (hphase : phase.busy = false) (h : busy (s.set n arg phase).calls i) :
    i ≠ n ∧ busy s.calls i := by
  simp only [State.set, busy_update] at h
  split_ifs at h with hi
  · exact nomatch hphase.symm.trans h
  · exact ⟨hi, h⟩

theorem matched_set {s : State} (h : Locks choices s) {n : Nat} {arg : Arg} (phase : CallPhase)
    (harg : namedPos choices arg ≠ none) (i : Nat) (c : Call)
    (hcall : (s.set n arg phase).calls i = some c) : namedPos choices c.arg ≠ none := by
  rw [calls_set] at hcall
  split_ifs at hcall with hi
  · obtain rfl := Option.some.inj hcall
    exact harg
  · exact h.matched i c hcall

theorem locking_of_set {s : State} {n i : Nat} {arg arg' : Arg} {phase : CallPhase}
    (h : (s.set n arg phase).calls i = some ⟨arg', .locking⟩) (hphase : phase ≠ .locking) :
    i ≠ n ∧ s.calls i = some ⟨arg', .locking⟩ := by
  rw [calls_set] at h
  split_ifs at h with hi
  · exact absurd (Call.mk.inj (Option.some.inj h)).2 hphase
  · exact ⟨hi, h⟩

-- A call that neither has the lock nor takes it.
theorem writer_set {s : State} (h : Locks choices s) {n : Nat} (arg : Arg) {phase : CallPhase}
    (hphase : phase ≠ .locking) (hcall : ∀ arg', s.calls n ≠ some ⟨arg', .locking⟩) (i : Nat) :
    s.writer = some i ↔ ∃ arg', (s.set n arg phase).calls i = some ⟨arg', .locking⟩ := by
  rw [h.writer i]
  constructor
  · rintro ⟨arg', hlocking⟩
    have hi : i ≠ n := fun heq => hcall arg' (heq ▸ hlocking)
    exact ⟨arg', by rw [calls_set, if_neg hi, hlocking]⟩
  · rintro ⟨arg', hlocking⟩
    exact ⟨arg', (locking_of_set hlocking hphase).2⟩

theorem no_locking_of_free {s : State} (h : Locks choices s) (hfree : s.writer = none) (i : Nat)
    (arg : Arg) : s.calls i ≠ some ⟨arg, .locking⟩ := fun hi =>
  nomatch hfree.symm.trans ((h.writer i).mpr ⟨arg, hi⟩)

theorem locks_call {s : State} (h : Locks choices s) {n : Nat} {arg : Arg}
    (hnew : s.calls n = none) (harg : namedPos choices arg ≠ none) :
    Locks choices (s.set n arg .called) where
  alone i j hi hj := h.alone i j (busy_of_busy_set rfl hi).2 (busy_of_busy_set rfl hj).2
  pending i hi := h.pending i (busy_of_busy_set rfl hi).2
  writer := writer_set h arg nofun (by simp [hnew])
  matched := matched_set h _ harg
  unread := h.unread

theorem locks_refuse {s : State} (h : Locks choices s) {n : Nat} {arg : Arg}
    (hcall : s.calls n = some ⟨arg, .called⟩) (hres : s.resolved = true) (err : Option String) :
    Locks choices { s.set n arg (.returned err) with readers := s.readers + 1 } where
  alone i j hi hj := h.alone i j (busy_of_busy_set rfl hi).2 (busy_of_busy_set rfl hj).2
  pending i hi := h.pending i (busy_of_busy_set rfl hi).2
  writer := writer_set h arg nofun (by simp [hcall])
  matched := matched_set h _ (h.matched n _ hcall)
  unread hpend := nomatch hres.symm.trans hpend

theorem locks_pass {s : State} (h : Locks choices s) {n : Nat} {arg : Arg}
    (hcall : s.calls n = some ⟨arg, .called⟩) (hres : s.resolved = false)
    (hidle : ∀ i, busy s.calls i = false) : Locks choices (s.set n arg .checked) := by
  have honly : ∀ i, busy (s.set n arg .checked).calls i → i = n := by
    intro i hi
    simp only [State.set, busy_update, hidle] at hi
    split_ifs at hi with heq
    exact heq
  constructor
  · exact fun i j hi hj => (honly i hi).trans (honly j hj).symm
  · exact fun _ _ => hres
  · exact writer_set h arg nofun (by simp [hcall])
  · exact matched_set h _ (h.matched n _ hcall)
  · exact h.unread

theorem locks_lock {s : State} (h : Locks choices s) {n : Nat} {arg : Arg}
    (hcall : s.calls n = some ⟨arg, .checked⟩) (hfree : s.writer = none) :
    Locks choices { s.set n arg .locking with writer := some n } := by
  have hbusy : ∀ i, busy (s.set n arg .locking).calls i → busy s.calls i := by
    intro i hi
    simp only [State.set, busy_update] at hi
    split_ifs at hi with heq
    · exact heq ▸ busy_of_calls hcall
    · exact hi
  constructor
  · exact fun i j hi hj => h.alone i j (hbusy i hi) (hbusy j hj)
  · exact fun i hi => h.pending i (hbusy i hi)
  · intro i
    by_cases hi : i = n
    · subst hi
      exact ⟨fun _ => ⟨arg, by rw [calls_set, if_pos rfl]⟩, fun _ => rfl⟩
    · constructor
      · exact fun hn => absurd (Option.some.inj hn).symm hi
      · rintro ⟨arg', hlocking⟩
        rw [calls_set, if_neg hi] at hlocking
        exact absurd hlocking (no_locking_of_free h hfree i arg')
  · exact matched_set h _ (h.matched n _ hcall)
  · exact h.unread

theorem locks_send {s : State} (h : Locks choices s) {n : Nat} {arg : Arg}
    (hcall : s.calls n = some ⟨arg, .locking⟩) (pos : Int) :
    Locks choices { s.set n arg (.returned none) with
      res := some pos, resolved := true, writer := none } := by
  have hidle : ∀ i, ¬ busy (s.set n arg (.returned none)).calls i := by
    intro i hi
    obtain ⟨hne, hi⟩ := busy_of_busy_set rfl hi
    exact hne (h.alone i n hi (busy_of_calls hcall))
  constructor
  · exact fun i j hi => absurd hi (hidle i)
  · exact fun i hi => absurd hi (hidle i)
  · intro i
    constructor
    · exact nofun
    · rintro ⟨arg', hlocking⟩
      exact absurd (busy_of_calls hlocking) (hidle i)
  · exact matched_set h _ (h.matched n _ hcall)
  · exact nofun

-- A step that neither sends nor receives leaves the returned calls as they are.
theorem Nils.same {s next : State} (h : Nils choices s) (hresolved : next.resolved = s.resolved)
    (hres : next.res = s.res) (hawait : next.await = s.await)
    (hnil : ∀ i arg, ReturnedNil next i arg ↔ ReturnedNil s i arg) : Nils choices next where
  empty := hresolved ▸ hres ▸ h.empty
  unsent hpend i arg hret := h.unsent (hresolved ▸ hpend) i arg ((hnil i arg).mp hret)
  idle := hresolved ▸ hawait ▸ h.idle
  once i j arg arg' hi hj := h.once i j arg arg' ((hnil i arg).mp hi) ((hnil j arg').mp hj)
  sent pos hpos := by
    simp only [hnil]
    exact h.sent pos (hres ▸ hpos)
  acted c hc := by
    simp only [hnil]
    exact h.acted c (hawait ▸ hc)

theorem returnedNil_set {s : State} {n : Nat} {arg : Arg} {phase : CallPhase}
    (hphase : phase ≠ .returned none) (hcall : ∀ arg', s.calls n ≠ some ⟨arg', .returned none⟩)
    (i : Nat) (arg' : Arg) : ReturnedNil (s.set n arg phase) i arg' ↔ ReturnedNil s i arg' := by
  simp only [ReturnedNil, calls_set]
  split_ifs with hi
  · subst hi
    simp [hphase, hcall]
  · rfl

theorem nils_send {s : State} (h : Nils choices s) {n : Nat} {arg : Arg} {pos : Int}
    (hpend : s.resolved = false) (hpos : namedPos choices arg = some pos) :
    Nils choices { s.set n arg (.returned none) with
      res := some pos, resolved := true, writer := none } := by
  have honly : ∀ i arg', (s.set n arg (.returned none)).calls i = some ⟨arg', .returned none⟩ →
      i = n := by
    intro i arg' hi
    rw [calls_set] at hi
    split_ifs at hi with heq
    · exact heq
    · exact absurd hi (h.unsent hpend i arg')
  constructor
  · exact nofun
  · exact nofun
  · exact nofun
  · exact fun i j arg₁ arg₂ hi hj => (honly i arg₁ hi).trans (honly j arg₂ hj).symm
  · rintro pos' hsent
    obtain rfl := Option.some.inj hsent
    exact ⟨n, arg, by rw [ReturnedNil, calls_set, if_pos rfl], hpos⟩
  · exact fun c hc => absurd hc (h.idle hpend c)

theorem nils_receive {s : State} (h : Nils choices s) {pos : Int} (hres : s.res = some pos) :
    Nils choices { s with res := none, await := awaitOutcome choices pos } := by
  have hresolved : s.resolved ≠ false := fun hpend => nomatch hres.symm.trans (h.empty hpend)
  constructor
  · exact fun _ => rfl
  · exact h.unsent
  · exact fun hpend => absurd hpend hresolved
  · exact h.once
  · exact nofun
  · intro c hc
    obtain ⟨i, arg, hret, hpos⟩ := h.sent pos hres
    refine ⟨i, arg, hret, ?_⟩
    rw [namedChoice, hpos, Option.bind_some]
    unfold awaitOutcome at hc
    split at hc
    · exact nomatch hc
    · obtain rfl := Await.acted.inj hc
      assumption

theorem nils_cancel {s : State} (h : Nils choices s) : Nils choices { s with await := .canceled } where
  empty := h.empty
  unsent := h.unsent
  idle _ := nofun
  once := h.once
  sent := h.sent
  acted := nofun

theorem serial_step {s next : State} {e : Event} (h : Serial choices s)
    (hc : Orderly choices s e) (hstep : step choices s e = some next) : Serial choices next := by
  obtain ⟨hlocks, hnils⟩ := h
  cases moves_of_step hstep with
  | call n arg hnew =>
      exact ⟨locks_call hlocks hnew hc,
        hnils.same rfl rfl rfl (returnedNil_set nofun (by simp [hnew]))⟩
  | refuse n arg hcall hwriter hres =>
      exact ⟨locks_refuse hlocks hcall hres _,
        hnils.same rfl rfl rfl (returnedNil_set nofun (by simp [hcall]))⟩
  | pass n arg hcall hwriter hres =>
      exact ⟨locks_pass hlocks hcall hres hc,
        hnils.same rfl rfl rfl (returnedNil_set nofun (by simp [hcall]))⟩
  | lock n arg hcall hwriter =>
      exact ⟨locks_lock hlocks hcall hwriter,
        hnils.same rfl rfl rfl (returnedNil_set nofun (by simp [hcall]))⟩
  | unmatched n arg hcall hreaders hpos => exact absurd hpos (hlocks.matched n _ hcall)
  | send n arg pos hcall hreaders hpos hroom =>
      have hpend := hlocks.pending n (busy_of_calls hcall)
      exact ⟨locks_send hlocks hcall pos, nils_send hnils hpend hpos⟩
  | receive pos hawait hres =>
      obtain ⟨halone, hpending, hwriter, hmatched, hunread⟩ := hlocks
      exact ⟨⟨halone, hpending, hwriter, hmatched, hunread⟩, nils_receive hnils hres⟩
  | cancel hawait =>
      obtain ⟨halone, hpending, hwriter, hmatched, hunread⟩ := hlocks
      exact ⟨⟨halone, hpending, hwriter, hmatched, hunread⟩, nils_cancel hnils⟩

theorem calls_set_self (s : State) (n : Nat) (arg : Arg) (phase : CallPhase) :
    (s.set n arg phase).calls n = some ⟨arg, phase⟩ := by
  rw [calls_set, if_pos rfl]

theorem returned_set (s : State) (n : Nat) (arg : Arg) (err : Option String) :
    Returned (s.set n arg (.returned err)) n :=
  ⟨arg, err, calls_set_self s n arg _⟩

-- The call has returned and left the lock to the others.
structure Finished (s next : State) (n : Nat) : Prop where
  returned : Returned next n
  free : next.writer = none
  resolved : next.resolved = true
  others : ∀ i, i ≠ n → next.calls i = s.calls i

theorem locking_finishes {s : State} {n : Nat} {arg : Arg} (h : Serial choices s)
    (hcall : s.calls n = some ⟨arg, .locking⟩) :
    ∃ next, step choices s (.write n) = some next ∧ Finished s next n := by
  have hpend : s.resolved = false := h.pending n (busy_of_calls hcall)
  obtain ⟨pos, hpos⟩ := Option.ne_none_iff_exists'.mp (h.matched n _ hcall)
  refine ⟨{ s.set n arg (.returned none) with res := some pos, resolved := true, writer := none },
    ?_, returned_set s n arg none, rfl, rfl, fun i hi => ?_⟩
  · simp [step, hcall, hpos, h.empty hpend, h.unread hpend]
  · simp [State.set, hi]

theorem checked_finishes {s : State} {n : Nat} {arg : Arg} (h : Serial choices s)
    (hcall : s.calls n = some ⟨arg, .checked⟩) :
    ∃ next, run (step choices) s [.lock n, .write n] = some next ∧ Finished s next n := by
  have hfree : s.writer = none := by
    rw [Option.eq_none_iff_forall_ne_some]
    intro i hi
    obtain ⟨arg', hlocking⟩ := (h.writer i).mp hi
    obtain rfl := h.alone i n (busy_of_calls hlocking) (busy_of_calls hcall)
    simp [hcall] at hlocking
  have hlock : step choices s (.lock n) = some { s.set n arg .locking with writer := some n } := by
    simp [step, hcall, hfree]
  have hmid := serial_step h (show Orderly choices s (.lock n) from trivial) hlock
  obtain ⟨next, hwrite, hfin⟩ := locking_finishes hmid (calls_set_self s n arg .locking)
  refine ⟨next, by simp [run_cons, hlock, hwrite], hfin.returned, hfin.free, hfin.resolved, ?_⟩
  intro i hi
  rw [hfin.others i hi]
  simp [State.set, hi]

theorem busy_finishes {s : State} {n : Nat} (h : Serial choices s) (hbusy : busy s.calls n) :
    ∃ es next, (∀ e ∈ es, Event.resolves e) ∧ run (step choices) s es = some next ∧
      Finished s next n := by
  obtain ⟨⟨arg, phase⟩, hcall, hphase⟩ : ∃ c, s.calls n = some c ∧ c.phase.busy := by
    simpa only [busy, Option.any_eq_true] using hbusy
  cases phase with
  | called => simp [CallPhase.busy] at hphase
  | checked =>
      obtain ⟨next, hrun, hfin⟩ := checked_finishes h hcall
      exact ⟨[.lock n, .write n], next, by simp [Event.resolves], hrun, hfin⟩
  | locking =>
      obtain ⟨next, hstep, hfin⟩ := locking_finishes h hcall
      exact ⟨[.write n], next, by simp [Event.resolves], by simpa using hstep, hfin⟩
  | returned err => simp [CallPhase.busy] at hphase

theorem refused_returns (choices : List Choice) {s : State} {n : Nat} {arg : Arg}
    (hcall : s.calls n = some ⟨arg, .called⟩) (hfree : s.writer = none) (hres : s.resolved = true) :
    ∃ next, step choices s (.check n) = some next ∧ Returned next n := by
  simp only [step, hcall, hfree, hres, if_true]
  exact ⟨_, rfl, returned_set s n arg _⟩

-- A call that has not tested resolved yet lets the busy one finish first, if
-- there is one, and is refused then.
theorem called_returns {s : State} {n : Nat} {arg : Arg} (h : Serial choices s)
    (hcall : s.calls n = some ⟨arg, .called⟩) :
    ∃ es next, (∀ e ∈ es, Event.resolves e) ∧ run (step choices) s es = some next ∧
      Returned next n := by
  by_cases hbusy : ∃ i, busy s.calls i
  · obtain ⟨i, hi⟩ := hbusy
    obtain ⟨es, mid, hes, hrun, hfin⟩ := busy_finishes h hi
    have hne : n ≠ i := by
      rintro rfl
      simp [busy_of_calls hcall, CallPhase.busy] at hi
    obtain ⟨next, hcheck, hret⟩ := refused_returns choices
      ((hfin.others n hne).trans hcall) hfin.free hfin.resolved
    refine ⟨es ++ [.check n], next, ?_, (run_snoc_eq_some _).mpr ⟨mid, hrun, hcheck⟩, hret⟩
    simpa [or_imp, forall_and, Event.resolves] using hes
  · have hidle : ∀ i, busy s.calls i = false := by simpa using hbusy
    have hfree : s.writer = none := by
      rw [Option.eq_none_iff_forall_ne_some]
      intro i hi
      obtain ⟨arg', hlocking⟩ := (h.writer i).mp hi
      simpa [busy_of_calls hlocking, CallPhase.busy] using hidle i
    cases hres : s.resolved with
    | true =>
        obtain ⟨next, hcheck, hret⟩ := refused_returns choices hcall hfree hres
        exact ⟨[.check n], next, by simp [Event.resolves], by simpa using hcheck, hret⟩
    | false =>
        have hcheck : step choices s (.check n) = some (s.set n arg .checked) := by
          simp [step, hcall, hfree, hres]
        have hmid := serial_step h (show Orderly choices s (.check n) from hidle) hcheck
        obtain ⟨next, hrun, hfin⟩ := checked_finishes hmid (calls_set_self s n arg .checked)
        refine ⟨[.check n, .lock n, .write n], next, by simp [Event.resolves], ?_, hfin.returned⟩
        rw [run_cons, hcheck]
        exact hrun

theorem sound_of_serial {s : State} (h : Serial choices s) : Sound choices s := by
  refine ⟨h.once, h.acted, fun n hn => ?_⟩
  obtain ⟨⟨arg, phase⟩, hcall⟩ := Option.ne_none_iff_exists'.mp hn
  by_cases hbusy : busy s.calls n
  · obtain ⟨es, next, hes, hrun, hfin⟩ := busy_finishes h hbusy
    exact ⟨es, next, hes, hrun, hfin.returned⟩
  · cases phase with
    | called => exact called_returns h hcall
    | checked => exact absurd (busy_of_calls hcall) hbusy
    | locking => exact absurd (busy_of_calls hcall) hbusy
    | returned err => exact ⟨[], s, by simp, rfl, arg, err, hcall⟩

theorem sound_of_orderly (choices : List Choice) (es : List Event)
    (h : Meets (step choices) (Orderly choices) init es) :
    Always (step choices) (Sound choices) init es :=
  always_of_meets (step choices) (Serial choices) (Sound choices) (Orderly choices)
    (fun _ _ _ => serial_step) (fun _ => sound_of_serial) es serial_init h

def approveOrReject : List Choice :=
  [⟨"Approve".toList, ([], []), ⟨1⟩⟩, ⟨"Reject".toList, ([], []), ⟨2⟩⟩]

theorem sound_of_orderly_resolved_once :
    Always (step approveOrReject) (Sound approveOrReject) init
      [.call 0 (.pos 1), .check 0, .lock 0, .write 0, .receive, .call 1 (.pos 0), .check 1] := by
  refine sound_of_orderly approveOrReject _ ?_
  have hidle : ∀ i, busy init.calls i = false := fun i => rfl
  refine ⟨nofun, fun i => ?_, trivial, trivial, trivial, nofun, fun i => ?_, trivial⟩
  · simp only [busy_update, State.set, CallPhase.busy, hidle, ite_self]
  · simp only [busy_update, State.set, CallPhase.busy, hidle]
    split_ifs <;> rfl

-- Both calls test resolved before either of them sets it.
def raced : List Event :=
  [.call 0 (.pos 0), .call 1 (.pos 1), .check 0, .check 1, .lock 0, .write 0, .receive,
    .lock 1, .write 1]

theorem two_calls_return_nil : ¬ Always (step approveOrReject) (Sound approveOrReject) init raced := by
  intro h
  obtain ⟨s, hs⟩ := Option.isSome_iff_exists.mp
    (show (run (step approveOrReject) init raced).isSome by decide)
  have hsound := (always_iff_run ..).mp h raced [] s rfl hs
  have hnil : ∀ i, (run (step approveOrReject) init raced).map (fun s => s.calls i) = some (s.calls i) :=
    fun i => by rw [hs]; rfl
  have h0 : ReturnedNil s 0 (.pos 0) := Option.some.inj ((hnil 0).symm.trans (by decide))
  have h1 : ReturnedNil s 1 (.pos 1) := Option.some.inj ((hnil 1).symm.trans (by decide))
  exact absurd (hsound.once 0 1 _ _ h0 h1) (by decide)

theorem writer_of_locking {s : State} {es : List Event} (hrun : run (step choices) init es = some s) :
    ∀ i arg, s.calls i = some ⟨arg, .locking⟩ → s.writer = some i := by
  refine run_invariant (step choices)
    (fun t => ∀ i arg, t.calls i = some ⟨arg, .locking⟩ → t.writer = some i) ?_
    (fun i arg h => by simp [init] at h) hrun
  intro t e next h hstep i arg hlocking
  cases moves_of_step hstep with
  | call n a hnew => exact h i arg (locking_of_set hlocking nofun).2
  | refuse n a hcall hwriter hres => exact h i arg (locking_of_set hlocking nofun).2
  | pass n a hcall hwriter hres => exact h i arg (locking_of_set hlocking nofun).2
  | lock n a hcall hwriter =>
      rw [calls_set] at hlocking
      split_ifs at hlocking with hi
      · rw [hi]
      · cases hwriter.symm.trans (h i arg hlocking)
  | unmatched n a hcall hreaders hpos => exact h i arg (locking_of_set hlocking nofun).2
  | send n a pos hcall hreaders hpos hroom =>
      obtain ⟨hne, hi⟩ := locking_of_set hlocking nofun
      exact absurd (Option.some.inj ((h i arg hi).symm.trans (h n a hcall))) hne
  | receive pos hawait hres => exact h i arg hlocking
  | cancel hawait => exact h i arg hlocking

-- A lock that was not given back keeps every later call from returning.
theorem leaked_lock_blocks {s final : State} {front back : List Event} {n i : Nat} {arg arg' : Arg}
    {err : Option String} (hfront : run (step choices) init front = some s)
    (hwriter : s.writer = some n) (hleak : s.calls n = some ⟨arg, .returned err⟩)
    (hcall : s.calls i = some ⟨arg', .called⟩) (hback : run (step choices) s back = some final) :
    ¬ Returned final i := by
  have hnone : ∀ j a, s.calls j ≠ some ⟨a, .locking⟩ := by
    intro j a hj
    obtain rfl := Option.some.inj (hwriter.symm.trans (writer_of_locking hfront j a hj))
    simp [hleak] at hj
  have hkeep : final.writer = some n ∧ (∀ j a, final.calls j ≠ some ⟨a, .locking⟩) ∧
      final.calls i = some ⟨arg', .called⟩ := by
    refine run_invariant (step choices) (fun t => t.writer = some n ∧
      (∀ j a, t.calls j ≠ some ⟨a, .locking⟩) ∧ t.calls i = some ⟨arg', .called⟩) ?_
      ⟨hwriter, hnone, hcall⟩ hback
    rintro t e next ⟨hw, hn, hi⟩ hstep
    cases moves_of_step hstep with
    | call m a hnew =>
        refine ⟨hw, fun j b hj => hn j b (locking_of_set hj nofun).2, ?_⟩
        rw [calls_set, if_neg, hi]
        rintro rfl
        cases hnew.symm.trans hi
    | refuse m a hcall hfree hres => cases hfree.symm.trans hw
    | pass m a hcall hfree hres => cases hfree.symm.trans hw
    | lock m a hcall hfree => cases hfree.symm.trans hw
    | unmatched m a hcall hreaders hpos => exact absurd hcall (hn m a)
    | send m a pos hcall hreaders hpos hroom => exact absurd hcall (hn m a)
    | receive pos hawait hres => exact ⟨hw, hn, hi⟩
    | cancel hawait => exact ⟨hw, hn, hi⟩
  rintro ⟨a, b, hret⟩
  simp [hkeep.2.2] at hret

end Ccp.Decision
