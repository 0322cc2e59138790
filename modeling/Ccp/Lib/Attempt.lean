import Mathlib.Data.List.Infix

namespace Ccp.Lib

variable {σ ι : Type*}

-- One item after the other, up to the first that cannot be done. What the items before it
-- did stays.
def attempt (step : σ → ι → Option σ) (s : σ) : List ι → σ × Bool
  | [] => (s, true)
  | item :: items =>
      match step s item with
      | none => (s, false)
      | some s' => attempt step s' items

-- An attempt stops at an item, after those before it.
structure Stops (step : σ → ι → Option σ) (s : σ) (items front : List ι) (s' : σ) (item : ι) :
    Prop where
  within : front ++ [item] <+: items
  done : front.foldlM step s = some s'
  refused : step s' item = none

theorem attempt_cases (step : σ → ι → Option σ) (s : σ) (items : List ι) :
    (∃ s', items.foldlM step s = some s' ∧ attempt step s items = (s', true)) ∨
      ∃ front s' item, Stops step s items front s' item ∧ attempt step s items = (s', false) := by
  induction items generalizing s with
  | nil => exact Or.inl ⟨s, rfl, rfl⟩
  | cons item items ih =>
      cases hstep : step s item with
      | none =>
          have hwithin : [] ++ [item] <+: item :: items := ⟨items, rfl⟩
          exact Or.inr ⟨[], s, item, ⟨hwithin, rfl, hstep⟩, by rw [attempt, hstep]⟩
      | some e =>
          have hhead : attempt step s (item :: items) = attempt step e items := by
            rw [attempt, hstep]
          have hdone : ∀ front, (item :: front).foldlM step s = front.foldlM step e := by
            intro front
            rw [List.foldlM_cons, hstep]
            rfl
          rcases ih e with ⟨s', hall, heq⟩ | ⟨front, s', i, hstops, heq⟩
          · exact Or.inl ⟨s', (hdone items).trans hall, hhead.trans heq⟩
          · refine Or.inr ⟨item :: front, s', i, ⟨?_, (hdone front).trans hstops.done, hstops.refused⟩,
              hhead.trans heq⟩
            exact List.cons_prefix_cons.mpr ⟨rfl, hstops.within⟩

end Ccp.Lib
