import Mathlib.Data.Set.Basic

namespace Ccp.Lib.Calls

-- Calls that change a state and may fail, the changes made before a failure kept.

variable {ε σ α β : Type}

theorem bind_ok_iff {x : EStateM ε σ α} {f : α → EStateM ε σ β} {s s' : σ} {b : β} :
    (x >>= f) s = .ok b s' ↔ ∃ a t, x s = .ok a t ∧ f a t = .ok b s' := by
  change EStateM.bind x f s = _ ↔ _
  unfold EStateM.bind
  cases x s with
  | ok a t =>
      constructor
      · exact fun h => ⟨a, t, rfl, h⟩
      · rintro ⟨_, _, ⟨⟩, h⟩
        exact h
  | error e t => simp

theorem bind_error_iff {x : EStateM ε σ α} {f : α → EStateM ε σ β} {s s' : σ} {e : ε} :
    (x >>= f) s = .error e s' ↔
      x s = .error e s' ∨ ∃ a t, x s = .ok a t ∧ f a t = .error e s' := by
  change EStateM.bind x f s = _ ↔ _
  unfold EStateM.bind
  cases x s with
  | ok a t =>
      constructor
      · exact fun h => Or.inr ⟨a, t, rfl, h⟩
      · rintro (h | ⟨_, _, ⟨⟩, h⟩)
        · exact nomatch h
        · exact h
  | error e t => simp

theorem pure_ok_iff {a b : α} {s s' : σ} :
    (pure a : EStateM ε σ α) s = .ok b s' ↔ a = b ∧ s = s' := by
  change EStateM.Result.ok a s = _ ↔ _
  simp

theorem pure_ne_error {a : α} {e : ε} {s s' : σ} :
    (pure a : EStateM ε σ α) s ≠ .error e s' := nofun

theorem throw_ne_ok {e : ε} {b : α} {s s' : σ} :
    (throw e : EStateM ε σ α) s ≠ .ok b s' := nofun

theorem throw_error_iff {e e' : ε} {s s' : σ} :
    (throw e : EStateM ε σ α) s = .error e' s' ↔ e = e' ∧ s = s' := by
  change EStateM.Result.error e s = _ ↔ _
  simp

theorem modify_ok_iff {f : σ → σ} {b : PUnit} {s s' : σ} :
    (modify f : EStateM ε σ PUnit) s = .ok b s' ↔ f s = s' := by
  change EStateM.Result.ok PUnit.unit (f s) = _ ↔ _
  simp

theorem modify_ne_error {f : σ → σ} {e : ε} {s s' : σ} :
    (modify f : EStateM ε σ PUnit) s ≠ .error e s' := nofun

theorem get_ok_iff {s s' t : σ} : (get : EStateM ε σ σ) s = .ok t s' ↔ s = t ∧ s = s' := by
  change EStateM.Result.ok s s = _ ↔ _
  simp

theorem get_ne_error {e : ε} {s s' : σ} : (get : EStateM ε σ σ) s ≠ .error e s' := nofun

-- A loop whose steps each add something to the state, or fail.
theorem forM_ok_iff {γ : Type} {f : β → EStateM ε σ PUnit} {ok : β → Prop} {gain : β → List γ}
    {extend : σ → List γ → σ} (hnil : ∀ s, extend s [] = s)
    (happend : ∀ s l l', extend (extend s l) l' = extend s (l ++ l'))
    (h : ∀ x s s', f x s = .ok PUnit.unit s' ↔ ok x ∧ s' = extend s (gain x)) (l : List β) (s s' : σ) :
    l.forM f s = .ok PUnit.unit s' ↔ (∀ x ∈ l, ok x) ∧ s' = extend s (l.flatMap gain) := by
  induction l generalizing s with
  | nil =>
      rw [List.flatMap_nil, hnil]
      refine pure_ok_iff.trans ?_
      simp [eq_comm]
  | cons x l ih =>
      refine bind_ok_iff.trans ?_
      simp only [h, ih, List.flatMap_cons, List.forall_mem_cons]
      constructor
      · rintro ⟨_, t, ⟨hx, rfl⟩, hl, rfl⟩
        exact ⟨⟨hx, hl⟩, happend s _ _⟩
      · rintro ⟨⟨hx, hl⟩, rfl⟩
        exact ⟨PUnit.unit, _, ⟨hx, rfl⟩, hl, (happend s _ _).symm⟩

-- The state a call leaves behind, whichever way it ends.
def after : EStateM.Result ε σ α → σ
  | .ok _ s => s
  | .error _ s => s

-- A part of the state that the call does not touch.
def Keeps {τ : Type} (p : σ → τ) (x : EStateM ε σ α) : Prop := ∀ s, p (after (x s)) = p s

section Keeps

variable {τ : Type} {p : σ → τ}

theorem Keeps.ok {x : EStateM ε σ α} (h : Keeps p x) {s s' : σ} {a : α} (hx : x s = .ok a s') :
    p s' = p s := by
  simpa [hx, after] using h s

theorem Keeps.error {x : EStateM ε σ α} (h : Keeps p x) {s s' : σ} {e : ε}
    (hx : x s = .error e s') : p s' = p s := by
  simpa [hx, after] using h s

theorem keeps_of {x : EStateM ε σ α} (hok : ∀ s a s', x s = .ok a s' → p s' = p s)
    (herror : ∀ s e s', x s = .error e s' → p s' = p s) : Keeps p x := by
  intro s
  cases hx : x s with
  | ok a s' => exact hok s a s' hx
  | error e s' => exact herror s e s' hx

theorem keeps_bind {x : EStateM ε σ α} {f : α → EStateM ε σ β} (hx : Keeps p x)
    (hf : ∀ a, Keeps p (f a)) : Keeps p (x >>= f) := by
  refine keeps_of (fun s b s' h => ?_) (fun s e s' h => ?_)
  · obtain ⟨a, t, hxa, hfb⟩ := bind_ok_iff.mp h
    rw [(hf a).ok hfb, hx.ok hxa]
  · rcases bind_error_iff.mp h with hxe | ⟨a, t, hxa, hfe⟩
    · exact hx.error hxe
    · rw [(hf a).error hfe, hx.ok hxa]

theorem keeps_pure (a : α) : Keeps p (pure a : EStateM ε σ α) := fun _ => rfl

theorem keeps_throw (e : ε) : Keeps p (throw e : EStateM ε σ α) := fun _ => rfl

theorem keeps_get : Keeps p (get : EStateM ε σ σ) := fun _ => rfl

theorem keeps_modify {f : σ → σ} (h : ∀ s, p (f s) = p s) :
    Keeps p (modify f : EStateM ε σ PUnit) := h

theorem keeps_foldlM {f : β → α → EStateM ε σ β}
    (h : ∀ b x, Keeps p (f b x)) (l : List α) (b : β) : Keeps p (l.foldlM f b) := by
  induction l generalizing b with
  | nil => exact keeps_pure b
  | cons x l ih =>
      rw [List.foldlM_cons]
      exact keeps_bind (h b x) fun b' => ih b'

theorem keeps_forM {f : β → EStateM ε σ PUnit} (h : ∀ x, Keeps p (f x)) (l : List β) :
    Keeps p (l.forM f) := by
  induction l with
  | nil => exact keeps_pure PUnit.unit
  | cons x l ih => exact keeps_bind (h x) fun _ => ih

end Keeps

-- The kind of errors that a call can end with.
def Raises (q : ε → Prop) (x : EStateM ε σ α) : Prop := ∀ s e s', x s = .error e s' → q e

section Raises

variable {q : ε → Prop}

theorem raises_bind {x : EStateM ε σ α} {f : α → EStateM ε σ β} (hx : Raises q x)
    (hf : ∀ a, Raises q (f a)) : Raises q (x >>= f) := by
  intro s e s' h
  rcases bind_error_iff.mp h with hxe | ⟨a, t, -, hfe⟩
  · exact hx s e s' hxe
  · exact hf a t e s' hfe

theorem raises_pure (a : α) : Raises q (pure a : EStateM ε σ α) := nofun

theorem raises_get : Raises q (get : EStateM ε σ σ) := nofun

theorem raises_modify (f : σ → σ) : Raises q (modify f : EStateM ε σ PUnit) := nofun

theorem raises_throw {e : ε} (h : q e) : Raises q (throw e : EStateM ε σ α) := by
  intro s e' s' he
  obtain ⟨rfl, -⟩ := throw_error_iff.mp he
  exact h

end Raises

end Ccp.Lib.Calls
