import Mathlib.Data.List.Basic
import Mathlib.Data.Option.Basic
import Mathlib.Tactic.Common

namespace Ccp.Lib

-- Regular expressions that a backtracking search runs over a text. Of the matches, the one
-- that the search comes to first counts.
inductive Re (α : Type*)
  | empty
  | one (p : α → Bool)
  | seq (r t : Re α)
  -- as many as there are, then fewer
  | many (p : α → Bool)
  -- one, then none
  | option (p : α → Bool)
  -- what it matches is kept
  | group (r : Re α)

namespace Re

variable {α β : Type*}

-- A repetition that has a number.
def rep (r : Re α) : ℕ → Re α
  | 0 => empty
  | n + 1 => seq r (rep r n)

-- The longest run first, with the text and what comes after it given on.
def manyFrom (p : α → Bool) : List α → (List α → List α → Option β) → Option β
  | [], k => k [] []
  | c :: s, k =>
      if p c then (manyFrom p s fun l rest => k (c :: l) rest).or (k [] (c :: s)) else k [] (c :: s)

-- The continuation gets the text that was matched, the rest and the groups.
def go : Re α → List α → (List α → List α → List (List α) → Option β) → Option β
  | empty, s, k => k [] s []
  | one _, [], _ => none
  | one p, c :: s, k => if p c then k [c] s [] else none
  | seq r t, s, k =>
      r.go s fun l rest groups =>
        t.go rest fun l' rest' groups' => k (l ++ l') rest' (groups ++ groups')
  | many p, s, k => manyFrom p s fun l rest => k l rest []
  | option _, [], k => k [] [] []
  | option p, c :: s, k => if p c then (k [c] s []).or (k [] (c :: s) []) else k [] (c :: s) []
  | group r, s, k => r.go s fun l rest groups => k l rest (l :: groups)

-- The groups of a match of the whole text.
def submatch (r : Re α) (s : List α) : Option (List (List α)) :=
  r.go s fun _ rest groups => if rest.isEmpty then some groups else none

-- The texts that an expression stands for, with the groups in them.
def Matches : Re α → List α → List (List α) → Prop
  | empty, s, groups => s = [] ∧ groups = []
  | one p, s, groups => (∃ c, p c ∧ s = [c]) ∧ groups = []
  | seq r t, s, groups => ∃ l groupsL rest groupsRest,
      r.Matches l groupsL ∧ t.Matches rest groupsRest ∧ s = l ++ rest ∧ groups = groupsL ++ groupsRest
  | many p, s, groups => (∀ c ∈ s, p c) ∧ groups = []
  | option p, s, groups => (s = [] ∨ ∃ c, p c ∧ s = [c]) ∧ groups = []
  | group r, s, groups => ∃ inner, r.Matches s inner ∧ groups = s :: inner

section Many

variable {p : α → Bool} {s l rest : List α} {k : List α → List α → Option β} {b : β}

theorem manyFrom_ne_none (hl : ∀ c ∈ l, p c) (hk : k l rest ≠ none) :
    manyFrom p (l ++ rest) k ≠ none := by
  induction l generalizing k with
  | nil =>
      cases rest with
      | nil => exact hk
      | cons c rest =>
          rw [List.nil_append, manyFrom]
          split_ifs
          · rw [ne_eq, Option.or_eq_none_iff]
            exact fun h => hk h.2
          · exact hk
  | cons c l ih =>
      obtain ⟨hc, hl⟩ := List.forall_mem_cons.mp hl
      rw [List.cons_append, manyFrom, if_pos hc, ne_eq, Option.or_eq_none_iff]
      exact fun h => ih hl hk h.1

-- The run that is taken is the longest one with which the rest goes on.
theorem exists_of_manyFrom (h : manyFrom p s k = some b) :
    ∃ l rest, s = l ++ rest ∧ (∀ c ∈ l, p c) ∧ k l rest = some b ∧
      ∀ l' rest', s = l' ++ rest' → (∀ c ∈ l', p c) → k l' rest' ≠ none → l'.length ≤ l.length := by
  induction s generalizing k with
  | nil =>
      refine ⟨[], [], rfl, by simp, h, fun l' rest' hs _ _ => ?_⟩
      obtain rfl : l' = [] := (List.append_eq_nil_iff.mp hs.symm).1
      exact Nat.le_refl _
  | cons c s ih =>
      rw [manyFrom] at h
      by_cases hc : p c
      · rw [if_pos hc] at h
        rcases Option.or_eq_some_iff.mp h with hlong | ⟨hnone, hshort⟩
        · obtain ⟨l, rest, rfl, hl, hk, hmost⟩ := ih hlong
          refine ⟨c :: l, rest, rfl, List.forall_mem_cons.mpr ⟨hc, hl⟩, hk, ?_⟩
          intro l' rest' hs hl' hk'
          cases l' with
          | nil => exact Nat.zero_le _
          | cons d l' =>
              obtain ⟨hd, hrest⟩ := List.cons.inj hs
              subst hd
              exact Nat.succ_le_succ (hmost l' rest' hrest (List.forall_mem_cons.mp hl').2 hk')
        · refine ⟨[], c :: s, rfl, by simp, hshort, fun l' rest' hs hl' hk' => ?_⟩
          cases l' with
          | nil => exact Nat.le_refl _
          | cons d l' =>
              obtain ⟨rfl, rfl⟩ := List.cons.inj hs
              exact absurd hnone (manyFrom_ne_none (List.forall_mem_cons.mp hl').2 hk')
      · rw [if_neg hc] at h
        refine ⟨[], c :: s, rfl, by simp, h, fun l' rest' hs hl' _ => ?_⟩
        cases l' with
        | nil => exact Nat.le_refl _
        | cons d l' =>
            obtain ⟨rfl, -⟩ := List.cons.inj hs
            exact absurd (List.forall_mem_cons.mp hl').1 hc

end Many

section Search

variable {r t : Re α} {p : α → Bool} {s l : List α} {groups : List (List α)}

theorem exists_of_go {k : List α → List α → List (List α) → Option β} {b : β}
    (h : r.go s k = some b) :
    ∃ l rest groups, s = l ++ rest ∧ r.Matches l groups ∧ k l rest groups = some b := by
  induction r generalizing s k with
  | empty => exact ⟨[], s, [], rfl, ⟨rfl, rfl⟩, h⟩
  | one p =>
      cases s with
      | nil => cases h
      | cons c s =>
          rw [go] at h
          split_ifs at h with hc
          exact ⟨[c], s, [], rfl, ⟨⟨c, hc, rfl⟩, rfl⟩, h⟩
  | seq r t ihr iht =>
      obtain ⟨l, rest, groups, rfl, hr, hnext⟩ := ihr h
      obtain ⟨l', rest', groups', rfl, ht, hk⟩ := iht hnext
      exact ⟨l ++ l', rest', groups ++ groups', by rw [List.append_assoc],
        ⟨l, groups, l', groups', hr, ht, rfl, rfl⟩, hk⟩
  | many p =>
      obtain ⟨l, rest, hs, hl, hk, -⟩ := exists_of_manyFrom h
      exact ⟨l, rest, [], hs, ⟨hl, rfl⟩, hk⟩
  | option p =>
      cases s with
      | nil => exact ⟨[], [], [], rfl, ⟨Or.inl rfl, rfl⟩, h⟩
      | cons c s =>
          rw [go] at h
          split_ifs at h with hc
          · rcases Option.or_eq_some_iff.mp h with htaken | ⟨-, hleft⟩
            · exact ⟨[c], s, [], rfl, ⟨Or.inr ⟨c, hc, rfl⟩, rfl⟩, htaken⟩
            · exact ⟨[], c :: s, [], rfl, ⟨Or.inl rfl, rfl⟩, hleft⟩
          · exact ⟨[], c :: s, [], rfl, ⟨Or.inl rfl, rfl⟩, h⟩
  | group r ih =>
      obtain ⟨l, rest, groups, hs, hr, hk⟩ := ih h
      exact ⟨l, rest, l :: groups, hs, ⟨groups, hr, rfl⟩, hk⟩

theorem go_ne_none {rest : List α} {k : List α → List α → List (List α) → Option β}
    (h : r.Matches l groups) (hk : k l rest groups ≠ none) : r.go (l ++ rest) k ≠ none := by
  induction r generalizing l rest groups k with
  | empty =>
      obtain ⟨rfl, rfl⟩ := h
      exact hk
  | one p =>
      obtain ⟨⟨c, hc, rfl⟩, rfl⟩ := h
      rw [List.singleton_append, go, if_pos hc]
      exact hk
  | seq r t ihr iht =>
      obtain ⟨l, groupsL, l', groups', hr, ht, rfl, rfl⟩ := h
      rw [List.append_assoc]
      exact ihr hr (iht ht hk)
  | many p =>
      obtain ⟨hl, rfl⟩ := h
      exact manyFrom_ne_none hl hk
  | option p =>
      obtain ⟨rfl | ⟨c, hc, rfl⟩, rfl⟩ := h
      · cases rest with
        | nil => exact hk
        | cons c rest =>
            rw [List.nil_append, go]
            split_ifs
            · rw [ne_eq, Option.or_eq_none_iff]
              exact fun hnone => hk hnone.2
            · exact hk
      · rw [List.singleton_append, go, if_pos hc, ne_eq, Option.or_eq_none_iff]
        exact fun hnone => hk hnone.1
  | group r ih =>
      obtain ⟨inner, hr, rfl⟩ := h
      exact ih hr hk

theorem matches_of_submatch (h : r.submatch s = some groups) : r.Matches s groups := by
  obtain ⟨l, rest, groups', rfl, hr, hk⟩ := exists_of_go h
  split_ifs at hk with hrest
  obtain rfl := List.isEmpty_iff.mp hrest
  obtain rfl := Option.some.inj hk
  rwa [List.append_nil]

theorem exists_submatch (h : r.Matches s groups) : ∃ found, r.submatch s = some found := by
  rw [← Option.ne_none_iff_exists', ← List.append_nil s]
  exact go_ne_none h (by simp)

-- An expression that begins with a run takes the longest one with which the rest matches.
theorem longest_of_submatch (h : (seq (many p) t).submatch s = some groups) :
    ∃ l rest, s = l ++ rest ∧ (∀ c ∈ l, p c) ∧ t.Matches rest groups ∧
      ∀ l' rest' groups', s = l' ++ rest' → (∀ c ∈ l', p c) → t.Matches rest' groups' →
        l'.length ≤ l.length := by
  obtain ⟨l, rest, hs, hl, hk, hmost⟩ := exists_of_manyFrom h
  obtain ⟨l', rest', groups', rfl, ht, hk⟩ := exists_of_go hk
  have hall : (if rest'.isEmpty then some groups' else none) = some groups := hk
  split_ifs at hall with hrest
  obtain rfl := List.isEmpty_iff.mp hrest
  obtain rfl := Option.some.inj hall
  refine ⟨l, l' ++ [], hs, hl, by rwa [List.append_nil], fun l₂ rest₂ groups₂ hs₂ hl₂ ht₂ => ?_⟩
  refine hmost l₂ rest₂ hs₂ hl₂ ?_
  rw [← List.append_nil rest₂]
  exact go_ne_none ht₂ (by simp)

end Search

section Fixed

variable {r t : Re α} {ps qs : List (α → Bool)} {s : List α}

-- The text is one character of each class.
def fits : List (α → Bool) → List α → Bool
  | [], [] => true
  | p :: ps, c :: s => p c && fits ps s
  | _, _ => false

theorem fits_nil (s : List α) : fits [] s = s.isEmpty := by
  cases s <;> rfl

theorem fits_cons (p : α → Bool) (ps : List (α → Bool)) (c : α) (s : List α) :
    fits (p :: ps) (c :: s) = (p c && fits ps s) := rfl

-- An expression that stands for one character after the other, without a group.
def Fixed (r : Re α) (ps : List (α → Bool)) : Prop :=
  ∀ s groups, r.Matches s groups ↔ fits ps s ∧ groups = []

theorem length_of_fits (h : fits ps s) : s.length = ps.length := by
  induction ps generalizing s with
  | nil =>
      cases s with
      | nil => rfl
      | cons c s => cases h
  | cons p ps ih =>
      cases s with
      | nil => cases h
      | cons c s =>
          rw [fits_cons, Bool.and_eq_true] at h
          rw [List.length_cons, List.length_cons, ih h.2]

theorem fits_append_iff :
    fits (ps ++ qs) s ↔ ∃ l rest, s = l ++ rest ∧ fits ps l ∧ fits qs rest := by
  induction ps generalizing s with
  | nil =>
      constructor
      · exact fun h => ⟨[], s, rfl, rfl, h⟩
      · rintro ⟨l, rest, rfl, hl, hrest⟩
        obtain rfl := List.length_eq_zero_iff.mp (length_of_fits hl)
        exact hrest
  | cons p ps ih =>
      constructor
      · intro h
        cases s with
        | nil => cases h
        | cons c s =>
            rw [List.cons_append, fits_cons, Bool.and_eq_true] at h
            obtain ⟨l, rest, rfl, hl, hrest⟩ := ih.mp h.2
            exact ⟨c :: l, rest, rfl, by rw [fits_cons, h.1, hl]; rfl, hrest⟩
      · rintro ⟨l, rest, rfl, hl, hrest⟩
        cases l with
        | nil => cases hl
        | cons c l =>
            rw [fits_cons, Bool.and_eq_true] at hl
            rw [List.cons_append, List.cons_append, fits_cons, Bool.and_eq_true]
            exact ⟨hl.1, ih.mpr ⟨l, rest, rfl, hl.2, hrest⟩⟩

theorem exists_of_fits {p : α → Bool} {i : ℕ} (h : fits ps s) (hp : ps[i]? = some p) :
    ∃ c, s[i]? = some c ∧ p c := by
  induction ps generalizing s i with
  | nil => cases hp
  | cons q ps ih =>
      cases s with
      | nil => cases h
      | cons c s =>
          rw [fits_cons, Bool.and_eq_true] at h
          cases i with
          | zero =>
              obtain rfl : q = p := by simpa using hp
              exact ⟨c, rfl, h.1⟩
          | succ i => exact ih (s := s) (i := i) h.2 hp

theorem fits_of_getElem? (hlen : s.length = ps.length)
    (h : ∀ (i : ℕ) p c, ps[i]? = some p → s[i]? = some c → p c) : fits ps s := by
  induction ps generalizing s with
  | nil =>
      obtain rfl := List.length_eq_zero_iff.mp hlen
      rfl
  | cons p ps ih =>
      cases s with
      | nil => cases hlen
      | cons c s =>
          rw [fits_cons, Bool.and_eq_true]
          exact ⟨h 0 p c rfl rfl, ih (Nat.succ.inj hlen) fun i q d => h (i + 1) q d⟩

theorem forall_of_fits {P : α → Prop} (h : fits ps s) (hP : ∀ p ∈ ps, ∀ c, p c → P c) :
    ∀ c ∈ s, P c := by
  induction ps generalizing s with
  | nil =>
      obtain rfl := List.length_eq_zero_iff.mp (length_of_fits h)
      simp
  | cons p ps ih =>
      cases s with
      | nil => cases h
      | cons c s =>
          rw [fits_cons, Bool.and_eq_true] at h
          rw [List.forall_mem_cons] at hP ⊢
          exact ⟨hP.1 c h.1, ih h.2 hP.2⟩

theorem fixed_one (p : α → Bool) : Fixed (one p) [p] := by
  intro s groups
  simp only [Matches]
  refine and_congr_left fun _ => ?_
  constructor
  · rintro ⟨c, hc, rfl⟩
    simp [fits_cons, fits_nil, hc]
  · intro h
    obtain ⟨c, rfl⟩ := List.length_eq_one_iff.mp (length_of_fits h)
    exact ⟨c, by simpa [fits_cons, fits_nil] using h, rfl⟩

theorem fixed_seq (hr : Fixed r ps) (ht : Fixed t qs) : Fixed (seq r t) (ps ++ qs) := by
  intro s groups
  rw [fits_append_iff, Matches]
  constructor
  · rintro ⟨l, groupsL, rest, groupsRest, hl, hrest, rfl, rfl⟩
    obtain ⟨hfitsL, rfl⟩ := (hr l groupsL).mp hl
    obtain ⟨hfitsRest, rfl⟩ := (ht rest groupsRest).mp hrest
    exact ⟨⟨l, rest, rfl, hfitsL, hfitsRest⟩, rfl⟩
  · rintro ⟨⟨l, rest, rfl, hl, hrest⟩, rfl⟩
    exact ⟨l, [], rest, [], (hr l []).mpr ⟨hl, rfl⟩, (ht rest []).mpr ⟨hrest, rfl⟩, rfl, rfl⟩

theorem fixed_rep (hr : Fixed r ps) (n : ℕ) : Fixed (r.rep n) (List.replicate n ps).flatten := by
  induction n with
  | zero =>
      intro s groups
      cases s <;> simp [rep, Matches, fits_nil]
  | succ n ih =>
      rw [List.replicate_succ, List.flatten_cons]
      exact fixed_seq hr ih

end Fixed

end Re

end Ccp.Lib
