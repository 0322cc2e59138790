import Mathlib.Data.List.TakeWhile
import Mathlib.Order.Basic

namespace Ccp.Lib.Printf

-- The % operator of Python with one text for its argument.

structure Spec where
  flags : List Char
  width : Option Nat
  precision : Option Nat
  conversion : Char

def isFlag (c : Char) : Bool := c = '-' || c = '+' || c = ' ' || c = '#' || c = '0'

def isModifier (c : Char) : Bool := c = 'h' || c = 'l' || c = 'L'

-- What may stand between the percent sign and the conversion.
def isInner (c : Char) : Bool := isFlag c || c.isDigit || c = '.' || isModifier c

-- A number may be left out. An asterisk would need a number for an argument.
def number (limit : Nat) (s : List Char) : Option (Option Nat × List Char) :=
  let digits := s.takeWhile Char.isDigit
  let value := digits.foldl (fun n c => 10 * n + (c.toNat - '0'.toNat)) 0
  if s.head? = some '*' ∨ limit < value then none
  else some (if digits = [] then none else some value, s.dropWhile Char.isDigit)

def precision (limit : Nat) (s : List Char) : Option (Option Nat × List Char) :=
  if s.head? = some '.' then (number limit s.tail).map fun n => (some (n.1.getD 0), n.2)
  else some (none, s)

def dropModifier : List Char → List Char
  | [] => []
  | c :: cs => if isModifier c then cs else c :: cs

-- What follows a percent sign. A key would need a mapping for an argument.
def specifier (s : List Char) : Option (Spec × List Char) :=
  if s.head? = some '(' then none
  else
    (number 9223372036854775807 (s.dropWhile isFlag)).bind fun w =>
      (precision 2147483647 w.2).bind fun p =>
        match dropModifier p.2 with
        | [] => none
        | c :: rest => some (⟨s.takeWhile isFlag, w.1, p.1, c⟩, rest)

def pad (spec : Spec) (t : List Char) : List Char :=
  let fill := List.replicate (spec.width.getD 0 - t.length) ' '
  if spec.flags.contains '-' then t ++ fill else fill ++ t

def cut (spec : Spec) (t : List Char) : List Char := spec.precision.elim t fun n => t.take n

-- shown c is what repr or ascii make of a text. The other conversions need a number.
def convert (shown : Char → List Char → List Char) (spec : Spec) (arg : List Char) :
    Option (List Char) :=
  if spec.conversion = 's' then some (pad spec (cut spec arg))
  else if spec.conversion = 'r' ∨ spec.conversion = 'a' then
    some (pad spec (cut spec (shown spec.conversion arg)))
  else if spec.conversion = 'c' ∧ arg.length = 1 then some (pad spec arg)
  else none

section Inner

variable {s t rest : List Char} {limit : Nat}

theorem dropWhile_isFlag (s : List Char) :
    ∃ mid, s = mid ++ s.dropWhile isFlag ∧ ∀ c ∈ mid, isInner c = true := by
  refine ⟨s.takeWhile isFlag, (List.takeWhile_append_dropWhile).symm, fun c hc => ?_⟩
  have hflag : isFlag c = true := List.mem_takeWhile_imp hc
  simp [isInner, hflag]

theorem number_rest {n : Option Nat} (h : number limit s = some (n, rest)) :
    ∃ mid, s = mid ++ rest ∧ ∀ c ∈ mid, isInner c = true := by
  rw [number] at h
  by_cases hno : s.head? = some '*' ∨
      limit < (s.takeWhile Char.isDigit).foldl (fun n c => 10 * n + (c.toNat - '0'.toNat)) 0
  · rw [if_pos hno] at h
    cases h
  rw [if_neg hno] at h
  obtain ⟨-, rfl⟩ := Prod.mk.inj (Option.some.inj h)
  refine ⟨s.takeWhile Char.isDigit, (List.takeWhile_append_dropWhile).symm, fun c hc => ?_⟩
  have hdigit : c.isDigit = true := List.mem_takeWhile_imp hc
  simp [isInner, hdigit]

theorem precision_rest {n : Option Nat} (h : precision limit s = some (n, rest)) :
    ∃ mid, s = mid ++ rest ∧ ∀ c ∈ mid, isInner c = true := by
  rw [precision] at h
  by_cases hdot : s.head? = some '.'
  · rw [if_pos hdot] at h
    obtain ⟨⟨n', rest'⟩, hnumber, heq⟩ := Option.map_eq_some_iff.mp h
    obtain ⟨-, rfl⟩ := Prod.mk.inj heq
    obtain ⟨mid, hmid, hinner⟩ := number_rest hnumber
    obtain ⟨cs, rfl⟩ := List.head?_eq_some_iff.mp hdot
    refine ⟨'.' :: mid, congrArg ('.' :: ·) hmid, ?_⟩
    exact List.forall_mem_cons.mpr ⟨by decide, hinner⟩
  · rw [if_neg hdot] at h
    obtain ⟨-, rfl⟩ := Prod.mk.inj (Option.some.inj h)
    exact ⟨[], rfl, fun _ hc => absurd hc List.not_mem_nil⟩

theorem dropModifier_rest (s : List Char) :
    ∃ mid, s = mid ++ dropModifier s ∧ ∀ c ∈ mid, isInner c = true := by
  rcases s with _ | ⟨c, cs⟩
  · exact ⟨[], rfl, fun _ hc => absurd hc List.not_mem_nil⟩
  · rw [dropModifier]
    by_cases hmodifier : isModifier c = true
    · rw [if_pos hmodifier]
      refine ⟨[c], rfl, List.forall_mem_singleton.mpr ?_⟩
      simp [isInner, hmodifier]
    · rw [if_neg hmodifier]
      exact ⟨[], rfl, fun _ hc => absurd hc List.not_mem_nil⟩

-- Before the conversion stand flags, digits, a dot and a modifier only.
theorem specifier_rest {spec : Spec} (h : specifier s = some (spec, rest)) :
    ∃ mid, s = mid ++ spec.conversion :: rest ∧ ∀ c ∈ mid, isInner c = true := by
  rw [specifier] at h
  split_ifs at h
  obtain ⟨⟨w, s₁⟩, hwidth, h⟩ := Option.bind_eq_some_iff.mp h
  obtain ⟨⟨p, s₂⟩, hprecision, h⟩ := Option.bind_eq_some_iff.mp h
  obtain ⟨m₁, h₁, hinner₁⟩ := dropWhile_isFlag s
  obtain ⟨m₂, h₂, hinner₂⟩ := number_rest hwidth
  obtain ⟨m₃, h₃, hinner₃⟩ := precision_rest hprecision
  obtain ⟨m₄, h₄, hinner₄⟩ := dropModifier_rest s₂
  cases hdrop : dropModifier s₂ with
  | nil =>
      simp only [hdrop] at h
      cases h
  | cons c cs =>
      simp only [hdrop] at h
      obtain ⟨rfl, rfl⟩ := Prod.mk.inj (Option.some.inj h)
      refine ⟨m₁ ++ (m₂ ++ (m₃ ++ m₄)), ?_, ?_⟩
      · rw [List.append_assoc, List.append_assoc, List.append_assoc, ← hdrop, ← h₄]
        exact h₁.trans (congrArg (m₁ ++ ·) (h₂.trans (congrArg (m₂ ++ ·) h₃)))
      · intro c hc
        simp only [List.mem_append] at hc
        rcases hc with hc | hc | hc | hc
        · exact hinner₁ c hc
        · exact hinner₂ c hc
        · exact hinner₃ c hc
        · exact hinner₄ c hc

theorem specifier_length {spec : Spec} (h : specifier s = some (spec, rest)) :
    rest.length < s.length := by
  obtain ⟨mid, rfl, -⟩ := specifier_rest h
  rw [List.length_append, List.length_cons]
  omega

end Inner

-- The text with its conversions, where arg is what is not converted yet.
def render (shown : Char → List Char → List Char) (arg : Option (List Char)) :
    List Char → Option (List Char)
  | [] => if arg.isNone then some [] else none
  | c :: cs =>
      if c ≠ '%' then (render shown arg cs).map (c :: ·)
      else
        match _ : specifier cs with
        | none => none
        | some (spec, rest) =>
            if spec.conversion = '%' then (render shown arg rest).map ('%' :: ·)
            else
              match arg with
              | none => none
              | some a => (convert shown spec a).bind fun t =>
                  (render shown none rest).map (t ++ ·)
termination_by s => s.length
decreasing_by
  · simp
  · have := specifier_length (by assumption)
    simp
    omega
  · have := specifier_length (by assumption)
    simp
    omega

def format (shown : Char → List Char → List Char) (template arg : List Char) : Option (List Char) :=
  render shown (some arg) template

section Render

variable {shown : Char → List Char → List Char} {arg : Option (List Char)} {t : List Char}

theorem render_nil : render shown arg [] = if arg.isNone then some [] else none := by
  rw [render]

theorem render_cons {c : Char} (h : c ≠ '%') (cs : List Char) :
    render shown arg (c :: cs) = (render shown arg cs).map (c :: ·) := by
  rw [render, if_pos h]

theorem render_none {cs : List Char} (h : specifier cs = none) :
    render shown arg ('%' :: cs) = none := by
  rw [render, if_neg (not_not.mpr rfl)]
  split <;> simp_all

theorem render_percent {cs rest : List Char} {spec : Spec} (h : specifier cs = some (spec, rest))
    (hpercent : spec.conversion = '%') :
    render shown arg ('%' :: cs) = (render shown arg rest).map ('%' :: ·) := by
  rw [render, if_neg (not_not.mpr rfl)]
  split <;> simp_all

theorem render_convert {cs rest : List Char} {spec : Spec} (h : specifier cs = some (spec, rest))
    (hpercent : spec.conversion ≠ '%') :
    render shown arg ('%' :: cs) =
      arg.bind fun a => (convert shown spec a).bind fun t => (render shown none rest).map (t ++ ·) := by
  rw [render, if_neg (not_not.mpr rfl)]
  split
  · simp_all
  · simp_all
    cases arg <;> rfl

theorem render_append_of_notMem (h : '%' ∉ t) (rest : List Char) :
    render shown arg (t ++ rest) = (render shown arg rest).map (t ++ ·) := by
  induction t with
  | nil => simp
  | cons c cs ih =>
      obtain ⟨hc, hcs⟩ := List.ne_and_not_mem_of_not_mem_cons h
      rw [List.cons_append, render_cons hc.symm, ih hcs, Option.map_map]
      rfl

-- A conversion that can convert a text, or a percent sign.
def converts (c : Char) : Bool := c = 's' || c = 'r' || c = 'a' || c = 'c' || c = '%'

theorem convert_eq_none {spec : Spec} (h : converts spec.conversion = false) (a : List Char) :
    convert shown spec a = none := by
  simp only [converts, Bool.or_eq_false_iff, decide_eq_false_iff_not] at h
  obtain ⟨⟨⟨⟨hs, hr⟩, ha⟩, hc⟩, -⟩ := h
  rw [convert, if_neg hs, if_neg (not_or.mpr ⟨hr, ha⟩), if_neg (fun h => hc h.1)]

section Tail

-- A tail of the text that begins with no conversion, up to a character that
-- cannot stand inside one.
variable {m p : List Char} {b : Char} (hm : ∀ c ∈ m, converts c = false)
  (hb : converts b = false) (hinner : isInner b = false)

include hm hb hinner

theorem specifier_append {u rest : List Char} {spec : Spec}
    (h : specifier (u ++ (m ++ b :: p)) = some (spec, rest)) :
    converts spec.conversion = false ∨ ∃ mid u', u = mid ++ spec.conversion :: u' ∧
      rest = u' ++ (m ++ b :: p) ∧ ∀ c ∈ mid, isInner c = true := by
  obtain ⟨mid, heq, hmid⟩ := specifier_rest h
  rcases List.append_eq_append_iff.mp heq with ⟨w, hw, hrest⟩ | ⟨w, hw, hrest⟩
  · -- the conversion is in the tail, not behind b
    left
    rcases List.append_eq_append_iff.mp hrest with ⟨v, hv, hrest⟩ | ⟨v, hv, hrest⟩
    · rcases v with _ | ⟨b', v⟩
      · obtain ⟨rfl, -⟩ := List.cons.inj hrest
        exact hb
      · obtain ⟨rfl, -⟩ := List.cons.inj hrest
        have hmem : b ∈ mid := by
          rw [hw, hv]
          simp
        rw [hmid b hmem] at hinner
        cases hinner
    · rcases v with _ | ⟨c, v⟩
      · obtain ⟨rfl, -⟩ := List.cons.inj hrest
        exact hb
      · obtain ⟨rfl, -⟩ := List.cons.inj hrest
        exact hm _ (by rw [hv]; simp)
  · rcases w with _ | ⟨c, w⟩
    · left
      rcases m with _ | ⟨c, m⟩
      · obtain ⟨rfl, -⟩ := List.cons.inj hrest
        exact hb
      · obtain ⟨rfl, -⟩ := List.cons.inj hrest
        exact hm _ List.mem_cons_self
    · right
      obtain ⟨rfl, rfl⟩ := List.cons.inj hrest
      exact ⟨mid, w, hw, rfl, hmid⟩

-- Without an argument a tail that needs one is not reached.
theorem render_none_append (htail : render shown none (m ++ b :: p) = none) (t : List Char) :
    render shown none (t ++ (m ++ b :: p)) = none := by
  induction hlength : t.length using Nat.strongRecOn generalizing t with
  | _ n ih =>
      rcases t with _ | ⟨c, cs⟩
      · exact htail
      rw [List.length_cons] at hlength
      by_cases hc : c = '%'
      · subst hc
        rw [List.cons_append]
        rcases hspec : specifier (cs ++ (m ++ b :: p)) with _ | ⟨spec, rest⟩
        · exact render_none hspec
        by_cases hpercent : spec.conversion = '%'
        · rw [render_percent hspec hpercent]
          rcases specifier_append hm hb hinner hspec with hno | ⟨mid, u, rfl, rfl, -⟩
          · rw [hpercent] at hno
            cases hno
          · rw [List.length_append, List.length_cons] at hlength
            rw [ih u.length (by omega) u rfl, Option.map_none]
        · exact render_convert hspec hpercent
      · rw [List.cons_append, render_cons hc, ih cs.length (by omega) cs rfl, Option.map_none]

-- Each percent sign of the text before the tail is one too many.
theorem render_append {a out tail : List Char} (hnone : render shown none (m ++ b :: p) = none)
    (htail : render shown (some a) (m ++ b :: p) = some tail)
    (h : render shown (some a) (t ++ (m ++ b :: p)) = some out) :
    ∃ t', out = t' ++ tail ∧ (t' = t ∧ '%' ∉ t ∨ t'.count '%' < t.count '%') := by
  induction hlength : t.length using Nat.strongRecOn generalizing t out with
  | _ n ih =>
      rcases t with _ | ⟨c, cs⟩
      · rw [List.nil_append, htail] at h
        exact ⟨[], (Option.some.inj h).symm, .inl ⟨rfl, List.not_mem_nil⟩⟩
      rw [List.length_cons] at hlength
      rw [List.cons_append] at h
      by_cases hc : c = '%'
      · subst hc
        rcases hspec : specifier (cs ++ (m ++ b :: p)) with _ | ⟨spec, rest⟩
        · rw [render_none hspec] at h
          cases h
        by_cases hpercent : spec.conversion = '%'
        · rw [render_percent hspec hpercent] at h
          rcases specifier_append hm hb hinner hspec with hno | ⟨mid, u, rfl, rfl, -⟩
          · rw [hpercent] at hno
            cases hno
          obtain ⟨out', hout, rfl⟩ := Option.map_eq_some_iff.mp h
          rw [List.length_append, List.length_cons] at hlength
          obtain ⟨t', rfl, hcount⟩ := ih u.length (by omega) hout rfl
          refine ⟨'%' :: t', rfl, .inr ?_⟩
          have hle : t'.count '%' ≤ u.count '%' := by
            rcases hcount with ⟨rfl, -⟩ | hlt
            · exact Nat.le_refl _
            · exact Nat.le_of_lt hlt
          rw [hpercent]
          simp only [List.count_cons_self, List.count_append]
          omega
        · rw [render_convert hspec hpercent, Option.bind_some] at h
          rcases specifier_append hm hb hinner hspec with hno | ⟨mid, u, rfl, rfl, -⟩
          · rw [convert_eq_none hno] at h
            cases h
          · rw [render_none_append hm hb hinner hnone] at h
            obtain ⟨t', -, ht'⟩ := Option.bind_eq_some_iff.mp h
            cases ht'
      · rw [render_cons hc] at h
        obtain ⟨out', hout, rfl⟩ := Option.map_eq_some_iff.mp h
        obtain ⟨t', rfl, hcount⟩ := ih cs.length (by omega) hout rfl
        refine ⟨c :: t', rfl, ?_⟩
        rcases hcount with ⟨rfl, hnotMem⟩ | hlt
        · exact .inl ⟨rfl, List.not_mem_cons_of_ne_of_not_mem (Ne.symm hc) hnotMem⟩
        · right
          rw [List.count_cons_of_ne hc, List.count_cons_of_ne hc]
          exact hlt

end Tail

end Render

end Ccp.Lib.Printf
