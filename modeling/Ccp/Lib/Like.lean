import Mathlib.Data.List.Basic
import Mathlib.Data.List.Infix

namespace Ccp.Lib.Like

-- The LIKE operator of SQL on texts over any alphabet: a pattern as its tokens.

variable {α : Type*}

inductive Token (α : Type*)
  | lit (c : α)
  | one
  | any
deriving DecidableEq

-- The characters that a pattern gives a meaning to.
structure Special (α : Type*) where
  any : α
  one : α
  escape : α

-- An escape takes the meaning of the character after it, and is one itself at the end.
def compile [DecidableEq α] (sp : Special α) : List α → List (Token α)
  | [] => []
  | [c] => [if c = sp.any then .any else if c = sp.one then .one else .lit c]
  | c :: d :: p =>
      if c = sp.escape then .lit d :: compile sp p
      else if c = sp.any then .any :: compile sp (d :: p)
      else if c = sp.one then .one :: compile sp (d :: p)
      else .lit c :: compile sp (d :: p)

def holds [DecidableEq α] : List (Token α) → List α → Bool
  | [], s => s.isEmpty
  | .lit c :: ts, s => s.head? = some c && holds ts s.tail
  | .one :: ts, s => !s.isEmpty && holds ts s.tail
  | .any :: ts, s => s.tails.any (holds ts)

-- A text that the pattern becomes when texts are put for its wildcards.
inductive Fills : List (Token α) → List α → Prop
  | nil : Fills [] []
  | lit {ts : List (Token α)} {s : List α} (c : α) (h : Fills ts s) : Fills (.lit c :: ts) (c :: s)
  | one {ts : List (Token α)} {s : List α} (c : α) (h : Fills ts s) : Fills (.one :: ts) (c :: s)
  | any {ts : List (Token α)} {s : List α} (t : List α) (h : Fills ts s) : Fills (.any :: ts) (t ++ s)

theorem holds_iff_fills [DecidableEq α] {ts : List (Token α)} {s : List α} : holds ts s = true ↔ Fills ts s := by
  induction ts generalizing s with
  | nil =>
      rw [holds, List.isEmpty_iff]
      constructor
      · rintro rfl
        exact .nil
      · intro h
        cases h
        rfl
  | cons t ts ih =>
      cases t with
      | lit c =>
          rw [holds, Bool.and_eq_true, ih, decide_eq_true_eq]
          constructor
          · rintro ⟨hhead, htail⟩
            obtain ⟨rest, rfl⟩ := List.head?_eq_some_iff.mp hhead
            exact .lit c htail
          · intro h
            cases h with
            | lit _ h => exact ⟨rfl, h⟩
      | one =>
          rw [holds, Bool.and_eq_true, ih, Bool.not_eq_true', List.isEmpty_eq_false_iff]
          constructor
          · rintro ⟨hne, htail⟩
            cases s with
            | nil => exact absurd rfl hne
            | cons c s => exact .one c htail
          · intro h
            cases h with
            | one c h => exact ⟨by simp, h⟩
      | any =>
          rw [holds, List.any_eq_true]
          constructor
          · rintro ⟨rest, hrest, hholds⟩
            obtain ⟨front, rfl⟩ := (List.mem_tails _ _).mp hrest
            exact .any front (ih.mp hholds)
          · intro h
            cases h with
            | any front h => exact ⟨_, (List.mem_tails _ _).mpr (List.suffix_append _ _), ih.mpr h⟩

theorem fills_lit_iff {ts : List (Token α)} {c : α} {s : List α} :
    Fills (.lit c :: ts) s ↔ ∃ r, s = c :: r ∧ Fills ts r := by
  constructor
  · intro h
    cases h with
    | lit c h => exact ⟨_, rfl, h⟩
  · rintro ⟨r, rfl, h⟩
    exact .lit c h

theorem fills_one_iff {ts : List (Token α)} {s : List α} :
    Fills (.one :: ts) s ↔ ∃ c r, s = c :: r ∧ Fills ts r := by
  constructor
  · intro h
    cases h with
    | one c h => exact ⟨c, _, rfl, h⟩
  · rintro ⟨c, r, rfl, h⟩
    exact .one c h

theorem fills_any_iff {ts : List (Token α)} {s : List α} :
    Fills (.any :: ts) s ↔ ∃ t r, s = t ++ r ∧ Fills ts r := by
  constructor
  · intro h
    cases h with
    | any t h => exact ⟨t, _, rfl, h⟩
  · rintro ⟨t, r, rfl, h⟩
    exact .any t h

structure Special.Distinct (sp : Special α) : Prop where
  any_ne_escape : sp.any ≠ sp.escape
  one_ne_escape : sp.one ≠ sp.escape
  one_ne_any : sp.one ≠ sp.any

-- No character of the pattern p, which q follows, is escaped.
def Unescaped (sp : Special α) (q p : List α) : Prop :=
  ∀ front back, p = front ++ sp.escape :: back → back ++ q = []

section Unescaped

variable {sp : Special α} {p q : List α} {c : α}

theorem unescaped_nil : Unescaped sp q [] := by
  intro front back h
  cases front <;> cases h

theorem unescaped_cons (hc : c ≠ sp.escape) : Unescaped sp q (c :: p) ↔ Unescaped sp q p := by
  constructor
  · intro h front back heq
    exact h (c :: front) back (by rw [heq]; rfl)
  · intro h front back heq
    cases front with
    | nil => exact absurd (List.head_eq_of_cons_eq heq) hc
    | cons c' front => exact h front back (List.tail_eq_of_cons_eq heq)

theorem unescaped_escape : Unescaped sp q (sp.escape :: p) ↔ p ++ q = [] := by
  constructor
  · intro h
    exact h [] p rfl
  · intro h front back heq
    obtain ⟨rfl, rfl⟩ := List.append_eq_nil_iff.mp h
    cases front with
    | nil =>
        obtain rfl := List.tail_eq_of_cons_eq heq
        rfl
    | cons c' front =>
        have hrest := List.tail_eq_of_cons_eq heq
        cases front <;> cases hrest

end Unescaped

section Departs

variable [DecidableEq α] (sp : Special α)

-- The text has another text than the pattern p has, in the place of one of its wildcards or of
-- an escape and its character, and what follows it fills the rest and q.
inductive Departs (q : List α) : List α → List α → Prop
  | one {p s : List α} (c : α) (hc : c ≠ sp.one) (h : Fills (compile sp (p ++ q)) s) :
      Departs q (sp.one :: p) (c :: s)
  | any {p s : List α} (t : List α) (ht : t ≠ [sp.any]) (h : Fills (compile sp (p ++ q)) s) :
      Departs q (sp.any :: p) (t ++ s)
  | escape {p r s : List α} (c : α) (hnext : p ++ q = c :: r) (h : Fills (compile sp r) s) :
      Departs q (sp.escape :: p) (c :: s)
  | later {p s : List α} (c : α) (hc : c ≠ sp.escape) (h : Departs q p s) : Departs q (c :: p) (c :: s)

variable {sp} {p q s : List α} {c : α}

theorem not_departs_nil : ¬ Departs sp q [] s := by
  intro h
  cases h

theorem departs_escape_iff (hsp : sp.Distinct) : Departs sp q (sp.escape :: p) s ↔
    ∃ c r rest, p ++ q = c :: r ∧ s = c :: rest ∧ Fills (compile sp r) rest := by
  constructor
  · generalize hpat : sp.escape :: p = pat
    intro h
    cases h with
    | one => exact absurd (List.head_eq_of_cons_eq hpat).symm hsp.one_ne_escape
    | any => exact absurd (List.head_eq_of_cons_eq hpat).symm hsp.any_ne_escape
    | escape c hnext h =>
        obtain rfl := List.tail_eq_of_cons_eq hpat
        exact ⟨c, _, _, hnext, rfl, h⟩
    | later _ hc => exact absurd (List.head_eq_of_cons_eq hpat).symm hc
  · rintro ⟨c, r, rest, hnext, rfl, h⟩
    exact .escape c hnext h

theorem departs_any_iff (hsp : sp.Distinct) : Departs sp q (sp.any :: p) s ↔
    (∃ t rest, t ≠ [sp.any] ∧ s = t ++ rest ∧ Fills (compile sp (p ++ q)) rest) ∨
      ∃ rest, s = sp.any :: rest ∧ Departs sp q p rest := by
  constructor
  · generalize hpat : sp.any :: p = pat
    intro h
    cases h with
    | one => exact absurd (List.head_eq_of_cons_eq hpat).symm hsp.one_ne_any
    | any t ht h =>
        obtain rfl := List.tail_eq_of_cons_eq hpat
        exact Or.inl ⟨t, _, ht, rfl, h⟩
    | escape => exact absurd (List.head_eq_of_cons_eq hpat) hsp.any_ne_escape
    | later c _ h =>
        obtain ⟨rfl, rfl⟩ := List.cons.inj hpat
        exact Or.inr ⟨_, rfl, h⟩
  · rintro (⟨t, rest, ht, rfl, h⟩ | ⟨rest, rfl, h⟩)
    · exact .any t ht h
    · exact .later _ hsp.any_ne_escape h

theorem departs_one_iff (hsp : sp.Distinct) : Departs sp q (sp.one :: p) s ↔
    (∃ c rest, c ≠ sp.one ∧ s = c :: rest ∧ Fills (compile sp (p ++ q)) rest) ∨
      ∃ rest, s = sp.one :: rest ∧ Departs sp q p rest := by
  constructor
  · generalize hpat : sp.one :: p = pat
    intro h
    cases h with
    | one c hc h =>
        obtain rfl := List.tail_eq_of_cons_eq hpat
        exact Or.inl ⟨c, _, hc, rfl, h⟩
    | any => exact absurd (List.head_eq_of_cons_eq hpat) hsp.one_ne_any
    | escape => exact absurd (List.head_eq_of_cons_eq hpat) hsp.one_ne_escape
    | later c _ h =>
        obtain ⟨rfl, rfl⟩ := List.cons.inj hpat
        exact Or.inr ⟨_, rfl, h⟩
  · rintro (⟨c, rest, hc, rfl, h⟩ | ⟨rest, rfl, h⟩)
    · exact .one c hc h
    · exact .later _ hsp.one_ne_escape h

theorem departs_lit_iff (hany : c ≠ sp.any) (hone : c ≠ sp.one) (hescape : c ≠ sp.escape) :
    Departs sp q (c :: p) s ↔ ∃ rest, s = c :: rest ∧ Departs sp q p rest := by
  constructor
  · generalize hpat : c :: p = pat
    intro h
    cases h with
    | one => exact absurd (List.head_eq_of_cons_eq hpat) hone
    | any => exact absurd (List.head_eq_of_cons_eq hpat) hany
    | escape => exact absurd (List.head_eq_of_cons_eq hpat) hescape
    | later c' _ h =>
        obtain ⟨rfl, rfl⟩ := List.cons.inj hpat
        exact ⟨_, rfl, h⟩
  · rintro ⟨rest, rfl, h⟩
    exact .later c hescape h

theorem compile_cons (hc : c ≠ sp.escape) : compile sp (c :: p) =
    (if c = sp.any then .any else if c = sp.one then .one else .lit c) :: compile sp p := by
  cases p with
  | nil => rfl
  | cons d p =>
      rw [compile, if_neg hc]
      split_ifs <;> rfl

-- The own text of the pattern, with what follows it.
def Own (sp : Special α) (q p s : List α) : Prop :=
  Unescaped sp q p ∧ ∃ rest, s = p ++ rest ∧ Fills (compile sp q) rest

theorem own_cons (hc : c ≠ sp.escape) : Own sp q (c :: p) s ↔ ∃ r, s = c :: r ∧ Own sp q p r := by
  unfold Own
  rw [unescaped_cons hc]
  constructor
  · rintro ⟨hp, rest, rfl, hrest⟩
    exact ⟨p ++ rest, rfl, hp, rest, rfl, hrest⟩
  · rintro ⟨r, rfl, hp, rest, rfl, hrest⟩
    exact ⟨hp, rest, rfl, hrest⟩

theorem fills_escape_iff (hsp : sp.Distinct) : Fills (compile sp (sp.escape :: p ++ q)) s ↔
    Own sp q (sp.escape :: p) s ∨ Departs sp q (sp.escape :: p) s := by
  rw [departs_escape_iff hsp, Own, unescaped_escape, List.cons_append]
  cases hnext : p ++ q with
  | nil =>
      obtain ⟨rfl, rfl⟩ := List.append_eq_nil_iff.mp hnext
      have hlast : compile sp [sp.escape] = .lit sp.escape :: compile sp [] := by
        rw [compile, compile, if_neg hsp.any_ne_escape.symm, if_neg hsp.one_ne_escape.symm]
      rw [hlast, fills_lit_iff]
      constructor
      · rintro ⟨r, rfl, h⟩
        exact Or.inl ⟨rfl, r, rfl, h⟩
      · rintro (⟨-, rest, rfl, h⟩ | ⟨c, r, rest, hcons, -⟩)
        · exact ⟨rest, rfl, h⟩
        · cases hcons
  | cons c r =>
      have hnext : compile sp (sp.escape :: c :: r) = .lit c :: compile sp r := by
        rw [compile, if_pos rfl]
      rw [hnext, fills_lit_iff]
      constructor
      · rintro ⟨rest, rfl, h⟩
        exact Or.inr ⟨c, r, rest, rfl, rfl, h⟩
      · rintro (⟨hnil, -⟩ | ⟨c', r', rest, hcons, rfl, h⟩)
        · cases hnil
        · obtain ⟨rfl, rfl⟩ := List.cons.inj hcons
          exact ⟨rest, rfl, h⟩

-- By induction on the pattern: a text fills it with its own text or departs from it.
theorem fills_iff_own_or_departs (hsp : sp.Distinct) :
    Fills (compile sp (p ++ q)) s ↔ Own sp q p s ∨ Departs sp q p s := by
  induction p generalizing s with
  | nil =>
      rw [List.nil_append, or_iff_left not_departs_nil]
      constructor
      · intro h
        exact ⟨unescaped_nil, s, rfl, h⟩
      · rintro ⟨-, rest, rfl, h⟩
        exact h
  | cons c p ih =>
      by_cases hescape : c = sp.escape
      · subst hescape
        exact fills_escape_iff hsp
      · rw [List.cons_append, compile_cons hescape, own_cons hescape]
        split_ifs with hany hone
        · subst hany
          rw [fills_any_iff, departs_any_iff hsp]
          constructor
          · rintro ⟨t, rest, rfl, h⟩
            by_cases ht : t = [sp.any]
            · subst ht
              rcases ih.mp h with hown | hdeparts
              · exact Or.inl ⟨rest, rfl, hown⟩
              · exact Or.inr (Or.inr ⟨rest, rfl, hdeparts⟩)
            · exact Or.inr (Or.inl ⟨t, rest, ht, rfl, h⟩)
          · rintro (⟨rest, rfl, hown⟩ | ⟨t, rest, -, rfl, h⟩ | ⟨rest, rfl, hdeparts⟩)
            · exact ⟨[sp.any], rest, rfl, ih.mpr (Or.inl hown)⟩
            · exact ⟨t, rest, rfl, h⟩
            · exact ⟨[sp.any], rest, rfl, ih.mpr (Or.inr hdeparts)⟩
        · subst hone
          rw [fills_one_iff, departs_one_iff hsp]
          constructor
          · rintro ⟨d, rest, rfl, h⟩
            by_cases hd : d = sp.one
            · subst hd
              rcases ih.mp h with hown | hdeparts
              · exact Or.inl ⟨rest, rfl, hown⟩
              · exact Or.inr (Or.inr ⟨rest, rfl, hdeparts⟩)
            · exact Or.inr (Or.inl ⟨d, rest, hd, rfl, h⟩)
          · rintro (⟨rest, rfl, hown⟩ | ⟨d, rest, -, rfl, h⟩ | ⟨rest, rfl, hdeparts⟩)
            · exact ⟨sp.one, rest, rfl, ih.mpr (Or.inl hown)⟩
            · exact ⟨d, rest, rfl, h⟩
            · exact ⟨sp.one, rest, rfl, ih.mpr (Or.inr hdeparts)⟩
        · rw [fills_lit_iff, departs_lit_iff hany hone hescape, ← exists_or]
          refine exists_congr fun rest => ?_
          rw [ih, and_or_left]

end Departs

end Ccp.Lib.Like
