import Mathlib.Data.List.Induction

namespace Ccp.Lib

section Run

variable {σ ε : Type*} (step : σ → ε → Option σ)

-- The state after a sequence of events, none when one of them is not enabled.
def run : σ → List ε → Option σ
  | s, [] => some s
  | s, e :: es => (step s e).bind fun next => run next es

-- Every state that the enabled part of the sequence visits, the first included.
def Always (p : σ → Prop) : σ → List ε → Prop
  | s, [] => p s
  | s, e :: es => p s ∧
      match step s e with
      | none => True
      | some next => Always p next es

-- Every step that is taken meets a condition on the state before it.
def Meets (c : σ → ε → Prop) : σ → List ε → Prop
  | _, [] => True
  | s, e :: es =>
      match step s e with
      | none => True
      | some next => c s e ∧ Meets c next es

-- A value kept beside a run, by the steps that are taken.
def follow {β : Type*} (f : σ → ε → β → β) : σ → List ε → β → β
  | _, [], b => b
  | s, e :: es, b =>
      match step s e with
      | none => b
      | some next => follow f next es (f s e b)

@[simp] theorem run_nil (s : σ) : run step s [] = some s := rfl

theorem run_cons (s : σ) (e : ε) (es : List ε) :
    run step s (e :: es) = (step s e).bind fun next => run step next es := rfl

theorem run_append (s : σ) (front back : List ε) :
    run step s (front ++ back) = (run step s front).bind fun mid => run step mid back := by
  induction front generalizing s with
  | nil => rfl
  | cons e es ih =>
      simp only [List.cons_append, run_cons]
      cases step s e with
      | none => rfl
      | some next => simpa only [Option.bind_some] using ih next

@[simp] theorem run_singleton (s : σ) (e : ε) : run step s [e] = step s e := by
  simp [run_cons]

theorem run_snoc_eq_some {s final : σ} {es : List ε} {e : ε} :
    run step s (es ++ [e]) = some final ↔
      ∃ mid, run step s es = some mid ∧ step mid e = some final := by
  simp only [run_append, Option.bind_eq_some_iff, run_singleton]

theorem follow_snoc {β : Type*} (f : σ → ε → β → β) {s mid next : σ} {es : List ε} {e : ε} (b : β)
    (hrun : run step s es = some mid) (hstep : step mid e = some next) :
    follow step f s (es ++ [e]) b = f mid e (follow step f s es b) := by
  induction es generalizing s b with
  | nil =>
      obtain rfl : s = mid := by simpa using hrun
      simp only [List.nil_append, follow, hstep]
  | cons first es ih =>
      rw [run_cons] at hrun
      obtain ⟨second, hsecond, hrest⟩ := Option.bind_eq_some_iff.mp hrun
      simp only [List.cons_append, follow, hsecond]
      exact ih _ hrest

-- A run comes to its end when none of its steps is refused.
theorem exists_run_iff {s : σ} {es : List ε} : (∃ final, run step s es = some final) ↔
    ∀ front e back mid, es = front ++ e :: back → run step s front = some mid → step mid e ≠ none := by
  induction es generalizing s with
  | nil => simp
  | cons first es ih =>
      rw [run_cons]
      cases hstep : step s first with
      | none =>
          refine iff_of_false (by simp) fun h => ?_
          exact h [] first es s rfl rfl hstep
      | some next =>
          rw [Option.bind_some, ih]
          constructor
          · intro h front e back mid hes hrun
            cases front with
            | nil =>
                obtain ⟨rfl, rfl⟩ := List.cons.inj hes
                obtain rfl := Option.some.inj hrun
                rw [hstep]
                exact Option.some_ne_none next
            | cons e' front =>
                obtain ⟨rfl, rfl⟩ := List.cons.inj hes
                rw [run_cons, hstep, Option.bind_some] at hrun
                exact h front e back mid rfl hrun
          · rintro h front e back mid rfl hrun
            refine h (first :: front) e back mid rfl ?_
            rw [run_cons, hstep, Option.bind_some]
            exact hrun

-- Induction over a run, with the events so far as history.
theorem run_induction (start : σ) (p : List ε → σ → Prop) (hstart : p [] start)
    (hstep : ∀ es s e next, run step start es = some s → p es s → step s e = some next →
      p (es ++ [e]) next)
    (es : List ε) (final : σ) (hrun : run step start es = some final) : p es final := by
  induction es using List.reverseRecOn generalizing final with
  | nil =>
      obtain rfl : start = final := by simpa using hrun
      exact hstart
  | append_singleton es e ih =>
      obtain ⟨mid, hmid, hlast⟩ := (run_snoc_eq_some step).mp hrun
      exact hstep es mid e final hmid (ih mid hmid) hlast

theorem run_invariant (inv : σ → Prop)
    (hstep : ∀ s e next, inv s → step s e = some next → inv next)
    {s final : σ} {es : List ε} (hs : inv s) (hrun : run step s es = some final) : inv final :=
  run_induction step s (fun _ s => inv s) hs (fun _ s e next _ => hstep s e next) es final hrun

theorem always_iff_run (p : σ → Prop) (s : σ) (es : List ε) :
    Always step p s es ↔
      ∀ front back mid, es = front ++ back → run step s front = some mid → p mid := by
  induction es generalizing s with
  | nil =>
      constructor
      · intro h front back mid he hrun
        obtain ⟨rfl, rfl⟩ := List.append_eq_nil_iff.mp he.symm
        obtain rfl : s = mid := by simpa using hrun
        exact h
      · exact fun h => h [] [] s rfl rfl
  | cons e es ih =>
      constructor
      · intro h front back mid he hrun
        cases front with
        | nil =>
            obtain rfl : s = mid := by simpa using hrun
            exact h.1
        | cons e' front =>
            obtain ⟨rfl, rfl⟩ := List.cons_eq_cons.mp he
            rw [run_cons] at hrun
            obtain ⟨next, hnext, hrest⟩ := Option.bind_eq_some_iff.mp hrun
            have htail := h.2
            simp only [hnext] at htail
            exact (ih next).mp htail front back mid rfl hrest
      · intro h
        refine ⟨h [] (e :: es) s rfl rfl, ?_⟩
        cases hnext : step s e with
        | none => trivial
        | some next =>
            refine (ih next).mpr fun front back mid he hrun => ?_
            exact h (e :: front) back mid (by rw [he]; rfl)
              (by rw [run_cons, hnext]; exact hrun)

theorem meets_iff_run (c : σ → ε → Prop) (s : σ) (es : List ε) :
    Meets step c s es ↔
      ∀ front e back mid next, es = front ++ e :: back → run step s front = some mid →
        step mid e = some next → c mid e := by
  induction es generalizing s with
  | nil =>
      refine ⟨fun _ front e back mid next he => ?_, fun _ => trivial⟩
      simp at he
  | cons first es ih =>
      constructor
      · intro h front e back mid next he hrun hstep
        cases front with
        | nil =>
            obtain rfl : s = mid := by simpa using hrun
            obtain ⟨rfl, rfl⟩ := List.cons_eq_cons.mp he
            simp only [Meets, hstep] at h
            exact h.1
        | cons e' front =>
            obtain ⟨rfl, rfl⟩ := List.cons_eq_cons.mp he
            rw [run_cons] at hrun
            obtain ⟨second, hsecond, hrest⟩ := Option.bind_eq_some_iff.mp hrun
            simp only [Meets, hsecond] at h
            exact (ih second).mp h.2 front e back mid next rfl hrest hstep
      · intro h
        cases hnext : step s first with
        | none => simp only [Meets, hnext]
        | some second =>
            simp only [Meets, hnext]
            refine ⟨h [] first es s second rfl rfl hnext, (ih second).mpr ?_⟩
            intro front e back mid next he hrun hstep
            exact h (first :: front) e back mid next (by rw [he]; rfl)
              (by rw [run_cons, hnext]; exact hrun) hstep

theorem meets_snoc (c : σ → ε → Prop) {s mid next : σ} {es : List ε} {e : ε}
    (hrun : run step s es = some mid) (hstep : step mid e = some next) :
    Meets step c s (es ++ [e]) ↔ Meets step c s es ∧ c mid e := by
  induction es generalizing s with
  | nil =>
      obtain rfl : s = mid := by simpa using hrun
      simp only [List.nil_append, Meets, hstep, and_true, true_and]
  | cons first es ih =>
      rw [run_cons] at hrun
      obtain ⟨second, hsecond, hrest⟩ := Option.bind_eq_some_iff.mp hrun
      simp only [List.cons_append, Meets, hsecond, ih hrest, and_assoc]

-- A property that holds at the start and survives exactly the steps that meet
-- the condition holds all along a run exactly when all its steps meet it. The
-- invariant is what every run keeps, whatever its steps.
theorem always_iff_meets (inv p : σ → Prop) (c : σ → ε → Prop)
    (hinv : ∀ s e next, inv s → step s e = some next → inv next)
    (hiff : ∀ s e next, inv s → p s → step s e = some next → (p next ↔ c s e))
    {s : σ} (es : List ε) (hs : inv s) (hp : p s) :
    Always step p s es ↔ Meets step c s es := by
  induction es generalizing s with
  | nil => exact ⟨fun _ => trivial, fun _ => hp⟩
  | cons e es ih =>
      cases hnext : step s e with
      | none => simp only [Always, Meets, hnext, hp, and_self]
      | some next =>
          have hi := hinv s e next hs hnext
          have hpc := hiff s e next hs hp hnext
          simp only [Always, Meets, hnext, hp, true_and]
          constructor
          · intro h
            have hpn : p next := by cases es <;> first | exact h | exact h.1
            exact ⟨hpc.mp hpn, (ih hi hpn).mp h⟩
          · rintro ⟨hc, hm⟩
            have hpn := hpc.mpr hc
            exact (ih hi hpn).mpr hm

-- One direction only: the condition keeps an invariant that gives the property.
theorem always_of_meets (inv p : σ → Prop) (c : σ → ε → Prop)
    (hinv : ∀ s e next, inv s → c s e → step s e = some next → inv next)
    (hp : ∀ s, inv s → p s)
    {s : σ} (es : List ε) (hs : inv s) (hm : Meets step c s es) : Always step p s es := by
  induction es generalizing s with
  | nil => exact hp s hs
  | cons e es ih =>
      refine ⟨hp s hs, ?_⟩
      cases hnext : step s e with
      | none => trivial
      | some next =>
          simp only [Meets, hnext] at hm
          exact ih (hinv s e next hs hm.1 hnext) hm.2

-- What every step gives that is taken where the invariant and the condition hold.
theorem meets_of_meets (inv : σ → Prop) (c d : σ → ε → Prop)
    (hinv : ∀ s e next, inv s → c s e → step s e = some next → inv next)
    (hd : ∀ s e next, inv s → c s e → step s e = some next → d s e)
    {s : σ} (es : List ε) (hs : inv s) (hm : Meets step c s es) : Meets step d s es := by
  induction es generalizing s with
  | nil => trivial
  | cons e es ih =>
      cases hnext : step s e with
      | none => simp only [Meets, hnext]
      | some next =>
          simp only [Meets, hnext] at hm ⊢
          exact ⟨hd s e next hs hm.1 hnext, ih (hinv s e next hs hm.1 hnext) hm.2⟩

end Run

end Ccp.Lib
