import Mathlib.Data.List.Basic

namespace Ccp.Lib.FilePath

-- One element of the path against the elements kept so far, the last one first.
def push (rooted : Bool) (kept : List (List Char)) (elem : List Char) : List (List Char) :=
  if elem = [] ∨ elem = ['.'] then kept
  else if elem = ['.', '.'] then
    match kept with
    | [] => if rooted then [] else [elem]
    | last :: rest => if last = ['.', '.'] then elem :: kept else rest
  else elem :: kept

-- filepath.Clean, by elements.
def clean (path : List Char) : List Char :=
  if path = [] then ['.']
  else
    let rooted := path.head? = some '/'
    let kept := ((path.splitOn '/').foldl (push rooted) []).reverse
    let joined := ['/'].intercalate kept
    if rooted then '/' :: joined else if joined = [] then ['.'] else joined

-- filepath.Join: what stands before the first element that is not empty is left out.
def join (elems : List (List Char)) : List Char :=
  match elems.dropWhile (· = []) with
  | [] => []
  | e :: es => clean (['/'].intercalate (e :: es))

-- filepath.Abs, none where the working directory is needed and not known.
def abs (cwd : Option (List Char)) (path : List Char) : Option (List Char) :=
  if path.head? = some '/' then some (clean path) else cwd.map fun dir => join [dir, path]

-- filepath.Base: the last element, without the separators that follow it.
def base (path : List Char) : List Char :=
  if path = [] then ['.']
  else
    let kept := (path.reverse.dropWhile (· = '/')).takeWhile (· ≠ '/')
    if kept = [] then ['/'] else kept.reverse

-- filepath.Dir: all but the last element, cleaned.
def dir (path : List Char) : List Char := clean (path.reverse.dropWhile (· ≠ '/')).reverse

-- filepath.Ext: what begins at the last dot of the last element.
def ext (path : List Char) : List Char :=
  let last := path.reverse.takeWhile (· ≠ '/')
  if last.contains '.' then '.' :: (last.takeWhile (· ≠ '.')).reverse else []

-- An element that cleaning keeps wherever it stands.
def Proper (elem : List Char) : Prop :=
  elem ≠ [] ∧ elem ≠ ['.'] ∧ elem ≠ ['.', '.'] ∧ '/' ∉ elem

def rooted (path : List Char) : Bool := path.head? = some '/'

-- The elements of a path once it is clean.
def elems (path : List Char) : List (List Char) :=
  ((path.splitOn '/').foldl (push (rooted path)) []).reverse

-- The clean path that has these elements.
def render (rooted : Bool) (elems : List (List Char)) : List Char :=
  if rooted then '/' :: ['/'].intercalate elems
  else if ['/'].intercalate elems = [] then ['.'] else ['/'].intercalate elems

theorem clean_eq_render {path : List Char} (h : path ≠ []) :
    clean path = render (rooted path) (elems path) := by
  simp only [clean, h, if_false, render, elems, rooted, decide_eq_true_eq]
  split_ifs <;> simp_all

theorem push_of_proper {r : Bool} {kept : List (List Char)} {e : List Char} (h : Proper e) :
    push r kept e = e :: kept := by
  simp [push, h.1, h.2.1, h.2.2.1]

theorem foldl_push_of_proper {r : Bool} {es : List (List Char)} (h : ∀ e ∈ es, Proper e)
    (kept : List (List Char)) : es.foldl (push r) kept = es.reverse ++ kept := by
  induction es generalizing kept with
  | nil => rfl
  | cons e es ih =>
      rw [List.foldl_cons, push_of_proper (h e List.mem_cons_self),
        ih fun e' he' => h e' (List.mem_cons_of_mem e he')]
      simp

-- A separator at the end of a path makes no element.
theorem elems_append_sep {path : List Char} (h : path ≠ []) : elems (path ++ ['/']) = elems path := by
  have hsplit : (path ++ ['/']).splitOn '/' = path.splitOn '/' ++ [[]] :=
    List.splitOn_append_cons_self path []
  have hroot : rooted (path ++ ['/']) = rooted path := by
    cases path with
    | nil => exact absurd rfl h
    | cons c path => rfl
  rw [elems, hsplit, hroot, List.foldl_append]
  simp [push, elems]

theorem ne_nil_of_mem_elems {path e : List Char} (h : e ∈ elems path) : e ≠ [] := by
  have hkept : ∀ (parts kept : List (List Char)) (r : Bool), (∀ e ∈ kept, e ≠ []) →
      ∀ e ∈ parts.foldl (push r) kept, e ≠ [] := by
    intro parts
    induction parts with
    | nil => exact fun kept r hall => hall
    | cons part parts ih =>
        intro kept r hall
        refine ih _ r fun e he => ?_
        simp only [push] at he
        split at he
        · exact hall e he
        · next hne =>
            have hpart : part ≠ [] := fun heq => hne (Or.inl heq)
            split at he
            · split at he
              · split at he
                · cases he
                · rw [List.mem_singleton] at he
                  rwa [he]
              · next last rest =>
                  split at he
                  · rcases List.mem_cons.mp he with rfl | he
                    · exact hpart
                    · exact hall e he
                  · exact hall e (List.mem_cons_of_mem _ he)
            · rcases List.mem_cons.mp he with rfl | he
              · exact hpart
              · exact hall e he
  rw [elems, List.mem_reverse] at h
  exact hkept _ [] _ (by simp) e h

theorem intercalate_append {a b : List (List Char)} (ha : a ≠ []) (hb : b ≠ []) :
    ['/'].intercalate (a ++ b) = ['/'].intercalate a ++ '/' :: ['/'].intercalate b := by
  induction a with
  | nil => exact absurd rfl ha
  | cons e a ih =>
      by_cases hnil : a = []
      · subst hnil
        rw [List.singleton_append, List.intercalate_cons_of_ne_nil hb]
        simp
      · rw [List.cons_append, List.intercalate_cons_of_ne_nil (by simp [hnil]), ih hnil,
          List.intercalate_cons_of_ne_nil hnil]
        simp

theorem intercalate_ne_nil {a : List (List Char)} (ha : a ≠ []) (h : ∀ e ∈ a, e ≠ []) :
    ['/'].intercalate a ≠ [] := by
  cases a with
  | nil => exact absurd rfl ha
  | cons e a =>
      have he := h e List.mem_cons_self
      by_cases hnil : a = []
      · subst hnil
        simpa using he
      · rw [List.intercalate_cons_of_ne_nil hnil]
        simp [he]

theorem render_append {r : Bool} {a b : List (List Char)} (ha : a ≠ []) (hb : b ≠ [])
    (h : ∀ e ∈ a, e ≠ []) : render r (a ++ b) = render r a ++ '/' :: ['/'].intercalate b := by
  have hne := intercalate_ne_nil ha h
  simp only [render, intercalate_append ha hb, hne]
  cases r <;> simp

-- The text of proper elements is clean already.
theorem elems_intercalate {es : List (List Char)} (hes : es ≠ []) (h : ∀ e ∈ es, Proper e) :
    elems (['/'].intercalate es) = es := by
  rw [elems, List.splitOn_intercalate _ (fun e he => (h e he).2.2.2) hes, foldl_push_of_proper h]
  simp

theorem rooted_intercalate {es : List (List Char)} (hes : es ≠ []) (h : ∀ e ∈ es, Proper e) :
    rooted (['/'].intercalate es) = false := by
  cases es with
  | nil => exact absurd rfl hes
  | cons e es =>
      have he := h e List.mem_cons_self
      cases e with
      | nil => exact absurd rfl he.1
      | cons c e =>
          have hc : c ≠ '/' := fun heq => he.2.2.2 (heq ▸ List.mem_cons_self)
          by_cases hnil : es = []
          · subst hnil
            simp [rooted, hc]
          · rw [List.intercalate_cons_of_ne_nil hnil]
            simp [rooted, hc]

theorem getLast?_intercalate {es : List (List Char)} (hes : es ≠ []) (h : ∀ e ∈ es, Proper e) :
    (['/'].intercalate es).getLast? ≠ some '/' := by
  have hlast := h (es.getLast hes) (List.getLast_mem hes)
  have hsplit := List.dropLast_append_getLast hes
  by_cases hnil : es.dropLast = []
  · rw [hnil, List.nil_append] at hsplit
    rw [← hsplit, List.intercalate_singleton]
    exact fun heq => hlast.2.2.2 (List.mem_of_getLast? heq)
  · rw [← hsplit, intercalate_append hnil (by simp), List.intercalate_singleton]
    rw [List.getLast?_append_of_ne_nil _ (by simp), List.getLast?_cons_of_ne_nil hlast.1]
    exact fun heq => hlast.2.2.2 (List.mem_of_getLast? heq)

-- The elements kept so far, the last one first: only the first ones lead upwards, and in
-- a rooted path none does.
def Kept (r : Bool) : List (List Char) → Prop
  | [] => True
  | e :: kept => e ≠ [] ∧ e ≠ ['.'] ∧ '/' ∉ e ∧
      (e = ['.', '.'] → r = false ∧ ∀ e' ∈ kept, e' = ['.', '.']) ∧ Kept r kept

theorem kept_push {r : Bool} {kept : List (List Char)} {e : List Char} (h : Kept r kept)
    (he : '/' ∉ e) : Kept r (push r kept e) := by
  by_cases hskip : e = [] ∨ e = ['.']
  · simpa only [push, if_pos hskip] using h
  simp only [push, if_neg hskip]
  by_cases hup : e = ['.', '.']
  · subst hup
    rw [if_pos rfl]
    cases kept with
    | nil =>
        cases r
        · exact ⟨by decide, by decide, by decide, fun _ => ⟨rfl, by simp⟩, trivial⟩
        · trivial
    | cons last rest =>
        dsimp only
        by_cases hlast : last = ['.', '.']
        · subst hlast
          rw [if_pos rfl]
          obtain ⟨hr, hall⟩ := h.2.2.2.1 rfl
          refine ⟨by decide, by decide, by decide, fun _ => ⟨hr, fun e' he' => ?_⟩, h⟩
          rcases List.mem_cons.mp he' with rfl | he'
          · rfl
          · exact hall e' he'
        · rw [if_neg hlast]
          exact h.2.2.2.2
  · rw [if_neg hup]
    rw [not_or] at hskip
    exact ⟨hskip.1, hskip.2, he, fun heq => absurd heq hup, h⟩

theorem not_mem_of_mem_splitOn {path e : List Char} (h : e ∈ path.splitOn '/') : '/' ∉ e := by
  induction path generalizing e with
  | nil =>
      rw [List.splitOn_nil, List.mem_singleton] at h
      subst h
      exact List.not_mem_nil
  | cons c path ih =>
      rw [List.splitOn_cons_eq_if_modifyHead] at h
      split_ifs at h with hc
      · rcases List.mem_cons.mp h with rfl | h
        · exact List.not_mem_nil
        · exact ih h
      · cases hsplit : path.splitOn '/' with
        | nil => exact absurd hsplit (List.splitOn_ne_nil '/' path)
        | cons first rest =>
            rw [hsplit, List.modifyHead_cons] at h
            rw [hsplit] at ih
            rcases List.mem_cons.mp h with rfl | h
            · rw [List.mem_cons, not_or]
              exact ⟨fun heq => hc (beq_iff_eq.mpr heq.symm), ih List.mem_cons_self⟩
            · exact ih (List.mem_cons_of_mem first h)

theorem kept_foldl {r : Bool} {parts kept : List (List Char)} (h : Kept r kept)
    (hparts : ∀ e ∈ parts, '/' ∉ e) : Kept r (parts.foldl (push r) kept) := by
  induction parts generalizing kept with
  | nil => exact h
  | cons e parts ih =>
      rw [List.foldl_cons]
      exact ih (kept_push h (hparts e List.mem_cons_self))
        fun e' he' => hparts e' (List.mem_cons_of_mem e he')

theorem kept_elems (path : List Char) : Kept (rooted path) (elems path).reverse := by
  rw [elems, List.reverse_reverse]
  exact kept_foldl trivial fun e he => not_mem_of_mem_splitOn he

-- What has been kept is kept again.
theorem foldl_push_of_kept {r : Bool} {kept : List (List Char)} (h : Kept r kept) :
    kept.reverse.foldl (push r) [] = kept := by
  induction kept with
  | nil => rfl
  | cons e kept ih =>
      obtain ⟨hne, hdot, -, hup, hrest⟩ := h
      rw [List.reverse_cons, List.foldl_append, ih hrest, List.foldl_cons, List.foldl_nil]
      simp only [push, hne, hdot, or_self, if_false]
      by_cases he : e = ['.', '.']
      · obtain ⟨hr, hall⟩ := hup he
        rw [if_pos he]
        cases kept with
        | nil => simp [hr]
        | cons last rest =>
            have hlast := hall last List.mem_cons_self
            simp [hlast]
      · rw [if_neg he]

theorem not_mem_of_kept {r : Bool} {kept : List (List Char)} (h : Kept r kept) :
    ∀ e ∈ kept, e ≠ [] ∧ '/' ∉ e := by
  induction kept with
  | nil => simp
  | cons e kept ih =>
      intro e' he'
      rcases List.mem_cons.mp he' with rfl | he'
      · exact ⟨h.1, h.2.2.1⟩
      · exact ih h.2.2.2.2 e' he'

theorem rooted_intercalate_of_ne {es : List (List Char)} (h : ∀ e ∈ es, e ≠ [] ∧ '/' ∉ e) :
    rooted (['/'].intercalate es) = false := by
  cases es with
  | nil => rfl
  | cons e es =>
      obtain ⟨hne, hsep⟩ := h e List.mem_cons_self
      obtain ⟨c, e, rfl⟩ := List.exists_cons_of_ne_nil hne
      have hc : c ≠ '/' := fun heq => hsep (heq ▸ List.mem_cons_self)
      by_cases hnil : es = []
      · subst hnil
        simp [rooted, hc]
      · rw [List.intercalate_cons_of_ne_nil hnil]
        simp [rooted, hc]

-- Cleaning makes no difference to the elements.
theorem elems_render (path : List Char) :
    elems (render (rooted path) (elems path)) = elems path ∧
      (elems path ≠ [] → rooted (render (rooted path) (elems path)) = rooted path) := by
  have hkept := kept_elems path
  have hparts : ∀ e ∈ elems path, e ≠ [] ∧ '/' ∉ e := fun e he =>
    not_mem_of_kept hkept e (List.mem_reverse.mpr he)
  generalize rooted path = r at hkept
  generalize elems path = es at hkept hparts
  by_cases hnil : es = []
  · subst hnil
    cases r
    · exact ⟨by decide, fun h => absurd rfl h⟩
    · exact ⟨by decide, fun h => absurd rfl h⟩
  have hfold := foldl_push_of_kept hkept
  rw [List.reverse_reverse] at hfold
  have hsplit : (['/'].intercalate es).splitOn '/' = es :=
    List.splitOn_intercalate '/' (fun e he => (hparts e he).2) hnil
  cases r with
  | true =>
      have hcut : ('/' :: ['/'].intercalate es).splitOn '/' = [] :: es := by
        rw [List.splitOn_cons_eq_if_modifyHead, if_pos (by decide), hsplit]
      refine ⟨?_, fun _ => rfl⟩
      change ((('/' :: ['/'].intercalate es).splitOn '/').foldl (push true) []).reverse = es
      rw [hcut, List.foldl_cons]
      change (es.foldl (push true) []).reverse = es
      rw [hfold, List.reverse_reverse]
  | false =>
      have hne := intercalate_ne_nil hnil fun e he => (hparts e he).1
      have htext : render false es = ['/'].intercalate es := by
        rw [render, if_neg Bool.false_ne_true, if_neg hne]
      have hroot := rooted_intercalate_of_ne hparts
      rw [htext]
      refine ⟨?_, fun _ => hroot⟩
      rw [elems, hsplit, hroot, hfold, List.reverse_reverse]

theorem elems_clean (path : List Char) : elems (clean path) = elems path := by
  by_cases h : path = []
  · subst h
    decide
  · rw [clean_eq_render h]
    exact (elems_render path).1

-- Elements that are put after a path.
theorem elems_append_intercalate {path : List Char} {es : List (List Char)} (h : path ≠ [])
    (hes : es ≠ []) (hproper : ∀ e ∈ es, Proper e) :
    elems (path ++ '/' :: ['/'].intercalate es) = elems path ++ es := by
  have hroot : rooted (path ++ '/' :: ['/'].intercalate es) = rooted path := by
    obtain ⟨c, path, rfl⟩ := List.exists_cons_of_ne_nil h
    rfl
  rw [elems, List.splitOn_append_cons_self, List.foldl_append,
    List.splitOn_intercalate '/' (fun e he => (hproper e he).2.2.2) hes, hroot,
    foldl_push_of_proper hproper]
  simp [elems]

-- What stands after the last separator, where it is no separator itself.
theorem base_append {front e : List Char} (he : e ≠ []) (hsep : '/' ∉ e)
    (hfront : front = [] ∨ ∃ path, front = path ++ ['/']) : base (front ++ e) = e := by
  have hdrop : (front ++ e).reverse.dropWhile (· = '/') = e.reverse ++ front.reverse := by
    rw [List.reverse_append]
    obtain ⟨c, rest, hrev⟩ := List.exists_cons_of_ne_nil (List.reverse_ne_nil_iff.mpr he)
    have hc : c ≠ '/' := fun heq =>
      hsep (heq ▸ List.mem_reverse.mp (hrev ▸ List.mem_cons_self))
    rw [hrev, List.cons_append, List.dropWhile_cons_of_neg (by simpa using hc)]
  have hall : ∀ c ∈ e.reverse, decide (c ≠ '/') = true := fun c hc =>
    decide_eq_true fun heq => hsep (heq ▸ List.mem_reverse.mp hc)
  have htake : (e.reverse ++ front.reverse).takeWhile (· ≠ '/') = e.reverse := by
    rw [List.takeWhile_append_of_pos hall]
    rcases hfront with rfl | ⟨path, rfl⟩
    · simp
    · rw [List.reverse_append, List.reverse_singleton, List.singleton_append,
        List.takeWhile_cons_of_neg (by simp), List.append_nil]
  have hne : front ++ e ≠ [] := fun h => he (List.append_eq_nil_iff.mp h).2
  rw [base, if_neg hne, hdrop, htake, if_neg (List.reverse_ne_nil_iff.mpr he), List.reverse_reverse]

theorem base_render {r : Bool} {es : List (List Char)} {e : List Char} (he : e ≠ [])
    (hsep : '/' ∉ e) : base (render r (es ++ [e])) = e := by
  have hlast : ∃ front, ['/'].intercalate (es ++ [e]) = front ++ e ∧
      (front = [] ∨ ∃ path, front = path ++ ['/']) := by
    by_cases hes : es = []
    · exact ⟨[], by simp [hes], Or.inl rfl⟩
    · refine ⟨['/'].intercalate es ++ ['/'], ?_, Or.inr ⟨_, rfl⟩⟩
      rw [intercalate_append hes (List.cons_ne_nil e []), List.intercalate_singleton,
        List.append_assoc, List.singleton_append]
  obtain ⟨front, htext, hfront⟩ := hlast
  have hne : front ++ e ≠ [] := fun h => he (List.append_eq_nil_iff.mp h).2
  cases r with
  | false =>
      rw [render, htext, if_neg Bool.false_ne_true, if_neg hne]
      exact base_append he hsep hfront
  | true =>
      rw [render, htext, if_pos rfl, ← List.cons_append]
      refine base_append he hsep (Or.inr ?_)
      rcases hfront with rfl | ⟨path, rfl⟩
      · exact ⟨[], rfl⟩
      · exact ⟨'/' :: path, rfl⟩

-- The last element of a path, with or without a separator at the end.
theorem base_clean {parent e : List Char} (he : Proper e) (slash : Bool) :
    base (clean (parent ++ '/' :: e ++ if slash then ['/'] else [])) = e := by
  have hplain : ∃ es, elems (parent ++ '/' :: e) = es ++ [e] := by
    by_cases hparent : parent = []
    · subst hparent
      have hcut : ('/' :: e).splitOn '/' = [[], e] := by
        rw [List.splitOn_cons_eq_if_modifyHead, if_pos (by decide),
          List.splitOn_eq_singleton he.2.2.2]
      refine ⟨[], ?_⟩
      rw [List.nil_append, elems, hcut, List.foldl_cons, List.foldl_cons, List.foldl_nil,
        push_of_proper he]
      rfl
    · have hone := elems_append_intercalate hparent (List.cons_ne_nil e [])
        (List.forall_mem_singleton.mpr he)
      rw [List.intercalate_singleton] at hone
      exact ⟨elems parent, hone⟩
  obtain ⟨es, hes⟩ := hplain
  have hne : parent ++ '/' :: e ≠ [] := by simp
  have helems : elems (parent ++ '/' :: e ++ if slash then ['/'] else []) = es ++ [e] := by
    cases slash with
    | false => rw [if_neg Bool.false_ne_true, List.append_nil, hes]
    | true => rw [if_pos rfl, elems_append_sep hne, hes]
  rw [clean_eq_render (fun h => hne (List.append_eq_nil_iff.mp h).1), helems]
  exact base_render he.1 he.2.2.2

end Ccp.Lib.FilePath
