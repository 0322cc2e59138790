import Mathlib.Data.List.Induction
import Mathlib.Logic.Function.Basic

namespace Ccp.Lib

section Glue

variable {α : Type*}

-- Parts of a text with another text before each of them but the first.
def glue (new : List α) (p : List α × List (List α)) : List α := p.1 ++ p.2.flatMap (new ++ ·)

-- A text that is like no earlier part of itself shows where it was put.
theorem eq_of_marked {c d : α} (hne : c ≠ d) {n : Nat} {l m x y : List α} (hl : l.length ≤ n)
    (hm : m.length ≤ n)
    (h : l ++ (List.replicate n c ++ [d] ++ x) = m ++ (List.replicate n c ++ [d] ++ y)) : l = m := by
  have hle : ∀ {l m x y : List α}, m.length ≤ n →
      l ++ (List.replicate n c ++ [d] ++ x) = m ++ (List.replicate n c ++ [d] ++ y) →
      m.length ≤ l.length := by
    intro l m x y hm h
    by_contra hlt
    have hat := congrArg (·[l.length + n]?) h
    have hleft : (l ++ (List.replicate n c ++ [d] ++ x))[l.length + n]? = some d := by
      simp
    have hright : (m ++ (List.replicate n c ++ [d] ++ y))[l.length + n]? = some c := by
      have hsplit : m.length + (l.length + n - m.length) = l.length + n := by omega
      rw [← hsplit, List.getElem?_append_right (by omega), Nat.add_sub_cancel_left,
        List.append_assoc, List.getElem?_append_left (by simp; omega), List.getElem?_replicate,
        if_pos (by omega)]
    exact hne (Option.some.inj (hright.symm.trans (hat.symm.trans hleft)))
  exact (List.append_inj h (Nat.le_antisymm (hle hl h.symm) (hle hm h))).1

theorem length_glue (new : List α) (p : List α × List (List α)) :
    (glue new p).length = p.1.length + p.2.length * new.length + p.2.flatten.length := by
  obtain ⟨l, L⟩ := p
  simp only [glue, List.length_append]
  induction L with
  | nil => simp
  | cons l' L ih =>
      simp only [List.flatMap_cons, List.length_append, List.length_cons, List.flatten_cons,
        Nat.succ_mul] at ih ⊢
      omega

theorem glue_injective [Nontrivial α] {p q : List α × List (List α)}
    (h : ∀ new, glue new p = glue new q) : p = q := by
  obtain ⟨l, L⟩ := p
  obtain ⟨m, M⟩ := q
  obtain ⟨c, d, hne⟩ := exists_pair_ne α
  -- more places make more of a long text
  have hshort : ∀ {l m : List α} {L M : List (List α)},
      (∀ new, glue new (l, L) = glue new (m, M)) → M.length ≤ L.length := by
    intro l m L M h
    by_contra hlt
    let n := l.length + L.flatten.length + 1
    have hmul : (L.length + 1) * n ≤ M.length * n := Nat.mul_le_mul_right n (Nat.lt_of_not_le hlt)
    have hlen := congrArg List.length (h (List.replicate n c))
    simp only [length_glue, List.length_replicate] at hlen
    rw [Nat.succ_mul] at hmul
    omega
  induction L generalizing l m M with
  | nil =>
      obtain rfl : M = [] := List.length_eq_zero_iff.mp (Nat.le_zero.mp (hshort h))
      simpa [glue] using h []
  | cons l' L ih =>
      cases M with
      | nil =>
          have hlen := hshort fun new => (h new).symm
          simp at hlen
      | cons m' M =>
          have hcut : ∀ new, l ++ (new ++ glue new (l', L)) = m ++ (new ++ glue new (m', M)) := by
            intro new
            simpa [glue] using h new
          have hmark := hcut (List.replicate (l.length + m.length) c ++ [d])
          obtain rfl := eq_of_marked hne (by omega) (by omega) hmark
          have hrest : (l', L) = (m', M) := ih l' m' M fun new =>
            List.append_cancel_left (List.append_cancel_left (hcut new))
          rw [Prod.mk.injEq] at hrest ⊢
          exact ⟨rfl, by rw [hrest.1, hrest.2]⟩

end Glue

section Replace

variable {α : Type*} [DecidableEq α]

-- The scan for a text that is not empty, with the number of elements of the
-- last match that are still to be passed over.
def replaceFrom (old new : List α) : Nat → List α → List α
  | _, [] => []
  | skip + 1, _ :: s => replaceFrom old new skip s
  | 0, c :: s =>
      if old.isPrefixOf (c :: s) then new ++ replaceFrom old new (old.length - 1) s
      else c :: replaceFrom old new 0 s

-- strings.ReplaceAll: matches do not overlap, and the empty text is found at
-- the start and after every element.
def replaceAll (s old new : List α) : List α :=
  match old with
  | [] => new ++ s.flatMap fun c => c :: new
  | _ :: _ => replaceFrom old new 0 s

-- strings.Replace with a limit of one.
def replaceFirst (old new : List α) : List α → List α
  | [] => if old = [] then new else []
  | c :: s =>
      if old.isPrefixOf (c :: s) then new ++ (c :: s).drop old.length
      else c :: replaceFirst old new s

-- Whether the text is found anywhere in the other one.
def occursIn (old : List α) : List α → Bool
  | [] => old.isEmpty
  | c :: s => old.isPrefixOf (c :: s) || occursIn old s

theorem replaceFrom_cons (old new : List α) (c : α) (s : List α) :
    replaceFrom old new 0 (c :: s) =
      if old.isPrefixOf (c :: s) then new ++ replaceFrom old new (old.length - 1) s
      else c :: replaceFrom old new 0 s := rfl

theorem replaceFirst_nil (old new : List α) :
    replaceFirst old new [] = if old = [] then new else [] := rfl

theorem replaceFirst_cons (old new : List α) (c : α) (s : List α) :
    replaceFirst old new (c :: s) =
      if old.isPrefixOf (c :: s) then new ++ (c :: s).drop old.length
      else c :: replaceFirst old new s := rfl

theorem occursIn_iff {old s : List α} : occursIn old s = true ↔ old <:+: s := by
  induction s with
  | nil => simp [occursIn]
  | cons c s ih => simp [occursIn, List.infix_cons_iff, ih]

-- A text that begins with the one to replace.
theorem replaceFirst_append {old : List α} (h : old ≠ []) (new s : List α) :
    replaceFirst old new (old ++ s) = new ++ s := by
  cases old with
  | nil => exact absurd rfl h
  | cons c old =>
      have hfound : (c :: old).isPrefixOf (c :: (old ++ s)) = true := by
        rw [List.isPrefixOf_iff_prefix]
        exact List.prefix_append (c :: old) s
      simp only [List.cons_append, replaceFirst_cons, hfound, if_true]
      simp

theorem replaceFirst_of_absent {old s : List α} (h : ¬ old <:+: s) (new : List α) :
    replaceFirst old new s = s := by
  induction s with
  | nil =>
      have hne : old ≠ [] := fun heq => h (heq ▸ List.infix_refl _)
      simp [replaceFirst_nil, hne]
  | cons c s ih =>
      have hhere : ¬ old.isPrefixOf (c :: s) = true := by
        rw [List.isPrefixOf_iff_prefix]
        exact fun hpre => h hpre.isInfix
      have hthere : ¬ old <:+: s := fun hin => h (hin.trans (List.suffix_cons c s).isInfix)
      simp only [replaceFirst_cons, hhere, ih hthere]
      rfl

-- What is replaced is the first place where the text stands.
theorem exists_replaceFirst {old s : List α} (hne : old ≠ []) (h : old <:+: s) (new : List α) :
    ∃ x y, s = x ++ (old ++ y) ∧ ¬ old <:+: x ∧ replaceFirst old new s = x ++ (new ++ y) := by
  induction s with
  | nil => exact absurd (List.infix_nil.mp h) hne
  | cons c s ih =>
      by_cases hhere : old <+: c :: s
      · obtain ⟨y, hy⟩ := hhere
        refine ⟨[], y, hy.symm, fun hin => hne (List.infix_nil.mp hin), ?_⟩
        rw [← hy, replaceFirst_append hne, List.nil_append]
      · have hthere : old <:+: s := (List.infix_cons_iff.mp h).resolve_left hhere
        obtain ⟨x, y, rfl, hx, hreplaced⟩ := ih hthere
        refine ⟨c :: x, y, rfl, fun hin => ?_, ?_⟩
        · rcases List.infix_cons_iff.mp hin with hpre | hin
          · exact hhere (hpre.trans (List.prefix_append (c :: x) (old ++ y)))
          · exact hx hin
        · rw [replaceFirst_cons, if_neg (fun hpre => hhere (List.isPrefixOf_iff_prefix.mp hpre)),
            hreplaced, List.cons_append]

theorem replaceFirst_self_append (old new s : List α) :
    replaceFirst old new (old ++ s) = new ++ s := by
  by_cases h : old = []
  · subst h
    cases s <;> simp [replaceFirst_nil, replaceFirst_cons]
  · exact replaceFirst_append h new s

theorem replaceFrom_of_not_infix {old s : List α} (h : ¬ old <:+: s) (new : List α) :
    replaceFrom old new 0 s = s := by
  induction s with
  | nil => rfl
  | cons c s ih =>
      rw [List.infix_cons_iff, not_or] at h
      rw [replaceFrom_cons, if_neg (by simpa using h.1), ih h.2]

theorem replaceFrom_drop (old new : List α) (s : List α) (skip : Nat) :
    replaceFrom old new skip s = replaceFrom old new 0 (s.drop skip) := by
  induction s generalizing skip with
  | nil => cases skip <;> rfl
  | cons c s ih =>
      cases skip with
      | zero => rfl
      | succ skip => exact ih skip

theorem replaceAll_self_append {old : List α} (hne : old ≠ []) (new rest : List α) :
    replaceAll (old ++ rest) old new = new ++ replaceAll rest old new := by
  cases old with
  | nil => exact absurd rfl hne
  | cons c old =>
      have hfound : (c :: old).isPrefixOf (c :: (old ++ rest)) = true := by
        rw [List.isPrefixOf_iff_prefix]
        exact List.prefix_append (c :: old) rest
      rw [replaceAll, List.cons_append, replaceFrom_cons, if_pos hfound, replaceFrom_drop,
        List.length_cons, Nat.add_sub_cancel, List.drop_left]
      rfl

-- A text that begins with the one to replace and has it nowhere else.
theorem replaceAll_append {old rest : List α} (hne : old ≠ []) (h : ¬ old <:+: rest)
    (new : List α) : replaceAll (old ++ rest) old new = new ++ rest := by
  rw [replaceAll_self_append hne]
  cases old with
  | nil => exact absurd rfl hne
  | cons c old => rw [replaceAll, replaceFrom_of_not_infix h]

theorem replaceAll_singleton (s new : List α) (c : α) :
    replaceAll s [c] new = s.flatMap fun d => if d = c then new else [d] := by
  unfold replaceAll
  induction s with
  | nil => rfl
  | cons d s ih =>
      simp only [replaceFrom_cons, List.isPrefixOf, List.flatMap_cons, List.length_singleton,
        Nat.sub_self, beq_iff_eq, Bool.and_true, ih]
      by_cases h : d = c
      · simp [h]
      · simp [h, Ne.symm h]

-- What stands before the first match, and what follows each match.
def partsFrom (old : List α) : Nat → List α → List α × List (List α)
  | _, [] => ([], [])
  | skip + 1, _ :: s => partsFrom old skip s
  | 0, c :: s =>
      if old.isPrefixOf (c :: s) then
        let rest := partsFrom old (old.length - 1) s
        ([], rest.1 :: rest.2)
      else
        let rest := partsFrom old 0 s
        (c :: rest.1, rest.2)

def parts (s old : List α) : List α × List (List α) :=
  match old with
  | [] => ([], s.map ([·]) ++ [[]])
  | _ :: _ => partsFrom old 0 s

theorem replaceFrom_eq_glue (old new : List α) (skip : Nat) (s : List α) :
    replaceFrom old new skip s = glue new (partsFrom old skip s) := by
  induction s generalizing skip with
  | nil => cases skip <;> rfl
  | cons c s ih =>
      cases skip with
      | succ skip => exact ih skip
      | zero =>
          simp only [replaceFrom_cons, partsFrom]
          split_ifs with hmatch
          · rw [ih]
            simp [glue]
          · rw [ih]
            rfl

theorem replaceAll_eq_glue (s old new : List α) : replaceAll s old new = glue new (parts s old) := by
  cases old with
  | nil =>
      simp only [replaceAll, parts, glue, List.nil_append]
      induction s with
      | nil => simp
      | cons c s ih => simp [← ih]
  | cons c old => exact replaceFrom_eq_glue _ new 0 s

-- What stands before the last such element, and what stands after it.
def rpartition (c : α) (s : List α) : Option (List α × List α) :=
  if s.contains c then
    some (((s.reverse.dropWhile (· ≠ c)).drop 1).reverse, (s.reverse.takeWhile (· ≠ c)).reverse)
  else none

theorem rpartition_append {c : α} {b : List α} (h : c ∉ b) (a : List α) :
    rpartition c (a ++ c :: b) = some (a, b) := by
  have hrev : (a ++ c :: b).reverse = b.reverse ++ c :: a.reverse := by simp
  have hall : ∀ x ∈ b.reverse, (decide (x ≠ c)) = true := by
    intro x hx
    simpa using fun heq : x = c => h (heq ▸ List.mem_reverse.mp hx)
  rw [rpartition, if_pos (by simp), hrev, List.dropWhile_append_of_pos hall,
    List.takeWhile_append_of_pos hall]
  simp

theorem rpartition_eq_some_iff {c : α} {s a b : List α} :
    rpartition c s = some (a, b) ↔ s = a ++ c :: b ∧ c ∉ b := by
  constructor
  · intro h
    by_cases hmem : c ∈ s
    · obtain ⟨back, front, hsplit, hnot⟩ := List.eq_append_cons_of_mem (List.mem_reverse.mpr hmem)
      have hs : s = front.reverse ++ c :: back.reverse := by
        rw [← List.reverse_reverse s, hsplit]
        simp
      have hback : c ∉ back.reverse := fun h => hnot (List.mem_reverse.mp h)
      rw [hs, rpartition_append hback] at h
      obtain ⟨rfl, rfl⟩ := Prod.mk.inj (Option.some.inj h)
      exact ⟨hs, hback⟩
    · rw [rpartition, if_neg (by simpa using hmem)] at h
      cases h
  · rintro ⟨rfl, hnot⟩
    exact rpartition_append hnot a

-- A text that begins with an element that stands nowhere around it is found once there.
theorem not_infix_of_next {c d : α} {before s after t : List α} (hs : s.head? = some c)
    (hbefore : c ∉ before) (hafter : c ∉ after) (hnext : after.head? ≠ some d) :
    ¬ s ++ d :: t <:+: before ++ s ++ after := by
  rintro ⟨front, back, h⟩
  obtain ⟨s', rfl⟩ : ∃ s', s = c :: s' := List.head?_eq_some_iff.mp hs
  have hcount := congrArg (List.count c) h
  simp only [List.append_assoc, List.count_append, List.count_eq_zero_of_not_mem hbefore,
    List.count_eq_zero_of_not_mem hafter] at hcount
  have hfront : c ∉ front := List.count_eq_zero.mp (by omega)
  -- the first of these elements is where the text begins, on both sides
  have hsame : front = before := by
    have htake := congrArg (List.takeWhile (· ≠ c)) h
    have hcut : ∀ {l x : List α}, c ∉ l → (l ++ c :: x).takeWhile (· ≠ c) = l := by
      intro l x hl
      rw [List.takeWhile_append_of_pos]
      · simp
      · intro a ha
        simpa using fun heq : a = c => hl (heq ▸ ha)
    simpa only [List.append_assoc, List.cons_append, hcut hfront, hcut hbefore] using htake
  subst hsame
  simp only [List.append_assoc, List.append_cancel_left_eq, List.cons_append] at h
  exact hnext (by rw [← List.append_cancel_left (List.cons.inj h).2]; rfl)

end Replace

section Template

variable {α : Type*}

-- A text with places to fill in, each known by the text that stands there.
inductive Piece (α : Type*)
  | lit (a : α)
  | slot (key : List α)
deriving DecidableEq

def Piece.fill (values : List α → Option (List α)) : Piece α → List α
  | .lit a => [a]
  | .slot key => (values key).getD key

-- All the places at once, those without a value left as they are.
def fill (values : List α → Option (List α)) (t : List (Piece α)) : List α :=
  t.flatMap (Piece.fill values)

def text (t : List (Piece α)) : List α := fill (fun _ => none) t

variable [DecidableEq α]

-- The text cut at the places of one key, the other places filled in.
def slotParts (values : List α → Option (List α)) (key : List α) :
    List (Piece α) → List α × List (List α)
  | [] => ([], [])
  | .lit a :: t =>
      let rest := slotParts values key t
      (a :: rest.1, rest.2)
  | .slot k :: t =>
      let rest := slotParts values key t
      if k = key then ([], rest.1 :: rest.2) else ((values k).getD k ++ rest.1, rest.2)

-- The key is found at its own places and nowhere else.
def Separate (values : List α → Option (List α)) (t : List (Piece α)) (key : List α) : Prop :=
  parts (fill values t) key = slotParts values key t

theorem fill_update_eq_glue (values : List α → Option (List α)) (key new : List α)
    (t : List (Piece α)) :
    fill (Function.update values key (some new)) t = glue new (slotParts values key t) := by
  induction t with
  | nil => rfl
  | cons piece t ih =>
      rw [fill, List.flatMap_cons, ← fill, ih]
      cases piece with
      | lit a => rfl
      | slot k =>
          simp only [Piece.fill, slotParts, Function.update_apply]
          split_ifs with hk
          · simp [glue]
          · simp [glue]

-- What is put for the key then goes there and nowhere else.
theorem separate_iff [Nontrivial α] {values : List α → Option (List α)} {t : List (Piece α)}
    {key : List α} : Separate values t key ↔
      ∀ new, replaceAll (fill values t) key new = fill (Function.update values key (some new)) t := by
  simp only [replaceAll_eq_glue, fill_update_eq_glue]
  constructor
  · intro h new
    rw [h]
  · exact glue_injective

-- One text after the other, as a loop over the pairs does it.
def replaceEach (s : List α) (pairs : List (List α × List α)) : List α :=
  pairs.foldl (fun s e => replaceAll s e.1 e.2) s

def assign (pairs : List (List α × List α)) : List α → Option (List α) :=
  pairs.foldl (fun values e => Function.update values e.1 (some e.2)) fun _ => none

theorem assign_concat (pairs : List (List α × List α)) (key new : List α) :
    assign (pairs ++ [(key, new)]) = Function.update (assign pairs) key (some new) := by
  simp [assign, List.foldl_append]

theorem replaceEach_concat (s : List α) (pairs : List (List α × List α)) (key new : List α) :
    replaceEach s (pairs ++ [(key, new)]) = replaceAll (replaceEach s pairs) key new := by
  simp [replaceEach, List.foldl_append]

-- The texts one after the other are the texts all at once when every turn of the
-- loop finds its own places only.
theorem replaceEach_eq_fill [Nontrivial α] {t : List (Piece α)} {pairs : List (List α × List α)}
    (h : ∀ front e back, pairs = front ++ e :: back → Separate (assign front) t e.1) :
    replaceEach (text t) pairs = fill (assign pairs) t := by
  induction pairs using List.reverseRecOn with
  | nil => rfl
  | append_singleton pairs e ih =>
      have hfront := ih fun front e' back hsplit => h front e' (back ++ [e]) (by simp [hsplit])
      rw [replaceEach_concat, hfront, assign_concat]
      exact separate_iff.mp (h pairs e [] rfl) e.2

theorem assign_eq_some_iff {pairs : List (List α × List α)}
    (h : (pairs.map Prod.fst).Nodup) (key v : List α) :
    assign pairs key = some v ↔ (key, v) ∈ pairs := by
  induction pairs using List.reverseRecOn with
  | nil => simp [assign]
  | append_singleton pairs e ih =>
      obtain ⟨k, w⟩ := e
      simp only [List.map_append, List.map_cons, List.map_nil, List.nodup_append,
        List.mem_singleton, forall_eq] at h
      obtain ⟨hnodup, -, hnew⟩ := h
      rw [assign_concat, Function.update_apply]
      by_cases hk : key = k
      · subst hk
        have hout : (key, v) ∉ pairs := fun hin =>
          hnew key (List.mem_map.mpr ⟨(key, v), hin, rfl⟩) rfl
        simp [hout, eq_comm]
      · simp [hk, ih hnodup]

end Template

end Ccp.Lib
