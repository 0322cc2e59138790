import Mathlib.Data.List.Basic
import Mathlib.Data.List.Count

namespace Ccp.Lib.Shlex

inductive State
  -- between words
  | space
  -- inside a word
  | word
  -- inside a quotation
  | quote (q : Char)
  -- after a backslash, in a word or in the quotation that it returns to
  | escape (back : Option Char)
deriving DecidableEq

def isWhitespace (c : Char) : Bool := c = ' ' ∨ c = '\t' ∨ c = '\r' ∨ c = '\n'

def isQuote (c : Char) : Bool := c = '\'' ∨ c = '"'

-- A word that is empty counts when a part of it was quoted.
def emit (token : List Char) (quoted : Bool) : List (List Char) :=
  if token ≠ [] ∨ quoted then [token] else []

-- The POSIX mode of shlex with whitespace_split and without comments: the
-- words of the text from a state, the token so far and whether it was quoted.
def scan : State → List Char → Bool → List Char → Except String (List (List Char))
  | .space, token, quoted, [] => .ok (emit token quoted)
  | .word, token, quoted, [] => .ok (emit token quoted)
  | .quote _, _, _, [] => .error "No closing quotation"
  | .escape _, _, _, [] => .error "No escaped character"
  | .space, token, quoted, c :: cs =>
      if isWhitespace c then
        if token ≠ [] ∨ quoted then (token :: ·) <$> scan .space [] false cs
        else scan .space token quoted cs
      else if c = '\\' then scan (.escape none) token quoted cs
      else if isQuote c then scan (.quote c) token quoted cs
      else scan .word [c] quoted cs
  | .word, token, quoted, c :: cs =>
      if isWhitespace c then
        if token ≠ [] ∨ quoted then (token :: ·) <$> scan .space [] false cs
        else scan .space token quoted cs
      else if isQuote c then scan (.quote c) token quoted cs
      else if c = '\\' then scan (.escape none) token quoted cs
      else scan .word (token ++ [c]) quoted cs
  | .quote q, token, _, c :: cs =>
      if c = q then scan .word token true cs
      -- only the double quotation mark lets a backslash through as an escape
      else if c = '\\' ∧ q = '"' then scan (.escape (some q)) token true cs
      else scan (.quote q) (token ++ [c]) true cs
  | .escape none, token, quoted, c :: cs => scan .word (token ++ [c]) quoted cs
  | .escape (some q), token, quoted, c :: cs =>
      if c ≠ '\\' ∧ c ≠ q then scan (.quote q) (token ++ ['\\', c]) quoted cs
      else scan (.quote q) (token ++ [c]) quoted cs

def split (s : List Char) : Except String (List (List Char)) := scan .space [] false s

-- Inside double quotation marks.

theorem scan_plain {c : Char} (hquote : c ≠ '"') (hslash : c ≠ '\\') (token cs : List Char)
    (quoted : Bool) :
    scan (.quote '"') token quoted (c :: cs) = scan (.quote '"') (token ++ [c]) true cs := by
  simp [scan, hquote, hslash]

theorem scan_escaped {c : Char} (hc : c = '"' ∨ c = '\\') (token cs : List Char) (quoted : Bool) :
    scan (.quote '"') token quoted ('\\' :: c :: cs) =
      scan (.quote '"') (token ++ [c]) true cs := by
  rcases hc with rfl | rfl <;> simp [scan]

theorem scan_kept {c : Char} (hquote : c ≠ '"') (hslash : c ≠ '\\') (token cs : List Char)
    (quoted : Bool) :
    scan (.quote '"') token quoted ('\\' :: c :: cs) =
      scan (.quote '"') (token ++ ['\\', c]) true cs := by
  simp [scan, hquote, hslash]

theorem split_quoted {inner token : List Char}
    (h : scan (.quote '"') [] false (inner ++ ['"']) = scan (.quote '"') token true ['"']) :
    split ('"' :: inner ++ ['"']) = .ok [token] := by
  have hopen : split ('"' :: inner ++ ['"']) = scan (.quote '"') [] false (inner ++ ['"']) := rfl
  rw [hopen, h]
  simp [scan, emit]

-- What a character does to the state and the token, inside a word or before it.
inductive Step : State → List Char → Char → State → List Char → Prop
  | gap {st : State} {token : List Char} {c : Char} (hst : st = .space ∨ st = .word)
      (hc : isWhitespace c = true) : Step st token c .space token
  | backslash {st : State} {token : List Char} (hst : st = .space ∨ st = .word) :
      Step st token '\\' (.escape none) token
  | opening {st : State} {token : List Char} {c : Char} (hst : st = .space ∨ st = .word)
      (hc : isQuote c = true) : Step st token c (.quote c) token
  | first {token : List Char} {c : Char} (hc : isQuote c = false) (hslash : c ≠ '\\') :
      Step .space token c .word [c]
  | bare {token : List Char} {c : Char} (hc : isQuote c = false) (hslash : c ≠ '\\') :
      Step .word token c .word (token ++ [c])
  | closing {q : Char} {token : List Char} : Step (.quote q) token q .word token
  | escaping {token : List Char} : Step (.quote '"') token '\\' (.escape (some '"')) token
  | inner {q c : Char} {token : List Char} (hc : c ≠ q) : Step (.quote q) token c (.quote q) (token ++ [c])
  | escaped {token : List Char} {c : Char} : Step (.escape none) token c .word (token ++ [c])
  | kept {q c : Char} {token : List Char} (hc : c ≠ q) :
      Step (.escape (some q)) token c (.quote q) (token ++ ['\\', c])
  | unescaped {q c : Char} {token : List Char} (hc : c = '\\' ∨ c = q) :
      Step (.escape (some q)) token c (.quote q) (token ++ [c])

section Counts

variable {st st' : State} {token token' s cs : List Char} {quoted : Bool} {c : Char}
  {argv : List (List Char)}

theorem map_ok_iff {α β : Type} {f : α → β} {x : Except String α} {b : β} :
    f <$> x = .ok b ↔ ∃ a, x = .ok a ∧ f a = b := by
  cases x with
  | error e =>
      refine iff_of_false (fun h => ?_) ?_
      · cases h
      · rintro ⟨a, h, -⟩
        cases h
  | ok a =>
      constructor
      · intro h
        exact ⟨a, rfl, Except.ok.inj h⟩
      · rintro ⟨a', h, rfl⟩
        rw [Except.ok.inj h]
        rfl

-- Either a word ends here or the character is one step of it.
theorem step_of_scan (h : scan st token quoted (c :: cs) = .ok argv) :
    (∃ st' token' quoted', Step st token c st' token' ∧ scan st' token' quoted' cs = .ok argv) ∨
      ∃ rest, isWhitespace c = true ∧ argv = token :: rest ∧ scan .space [] false cs = .ok rest := by
  rcases st with _ | _ | q | _ | q
  · rw [scan] at h
    split_ifs at h with hspace hword hslash hquote
    · obtain ⟨rest, hrest, rfl⟩ := map_ok_iff.mp h
      exact .inr ⟨rest, hspace, rfl, hrest⟩
    · exact .inl ⟨_, _, _, .gap (.inl rfl) hspace, h⟩
    · subst hslash
      exact .inl ⟨_, _, _, .backslash (.inl rfl), h⟩
    · exact .inl ⟨_, _, _, .opening (.inl rfl) hquote, h⟩
    · exact .inl ⟨_, _, _, .first (by simpa using hquote) hslash, h⟩
  · rw [scan] at h
    split_ifs at h with hspace hword hquote hslash
    · obtain ⟨rest, hrest, rfl⟩ := map_ok_iff.mp h
      exact .inr ⟨rest, hspace, rfl, hrest⟩
    · exact .inl ⟨_, _, _, .gap (.inr rfl) hspace, h⟩
    · exact .inl ⟨_, _, _, .opening (.inr rfl) hquote, h⟩
    · subst hslash
      exact .inl ⟨_, _, _, .backslash (.inr rfl), h⟩
    · exact .inl ⟨_, _, _, .bare (by simpa using hquote) hslash, h⟩
  · rw [scan] at h
    split_ifs at h with hclose hslash
    · subst hclose
      exact .inl ⟨_, _, _, .closing, h⟩
    · obtain ⟨rfl, rfl⟩ := hslash
      exact .inl ⟨_, _, _, .escaping, h⟩
    · exact .inl ⟨_, _, _, .inner hclose, h⟩
  · exact .inl ⟨_, _, _, .escaped, h⟩
  · rw [scan] at h
    split_ifs at h with hkept
    · exact .inl ⟨_, _, _, .kept hkept.2, h⟩
    · exact .inl ⟨_, _, _, .unescaped (by rw [not_and_or, not_not, not_not] at hkept; exact hkept), h⟩

-- A backslash in a quotation waits for what follows it.
def pending : State → List Char
  | .escape (some _) => ['\\']
  | _ => []

theorem Step.count_le (h : Step st token c st' token') (d : Char) :
    token'.count d + (pending st').count d ≤ token.count d + [c].count d + (pending st).count d := by
  cases h <;> simp only [pending, List.count_append, List.count_nil, List.count_cons] <;> omega

-- No character comes to be in the words that is not in the text.
theorem count_le (h : scan st token quoted s = .ok argv) (d : Char) :
    argv.flatten.count d ≤ token.count d + s.count d + (pending st).count d := by
  induction s generalizing st token quoted argv with
  | nil =>
      have hemit (quoted : Bool) : (emit token quoted).flatten.count d ≤ token.count d := by
        rw [emit]
        split_ifs
        · simp
        · exact Nat.zero_le _
      rcases st with _ | _ | q | q
      · obtain rfl := Except.ok.inj h
        exact Nat.le_add_right_of_le (hemit quoted)
      · obtain rfl := Except.ok.inj h
        exact Nat.le_add_right_of_le (hemit quoted)
      · cases h
      · cases h
  | cons c cs ih =>
      have hcons : (c :: cs).count d = [c].count d + cs.count d := @List.count_append _ _ _ [c] cs
      rcases step_of_scan h with ⟨st', token', quoted', hstep, hscan⟩ | ⟨rest, -, rfl, hscan⟩
      · have hle := hstep.count_le d
        have hrest := ih hscan
        omega
      · have hrest := ih hscan
        simp only [pending, List.count_nil] at hrest
        rw [List.flatten_cons, List.count_append]
        omega

-- No step after a backslash, and none inside single quotation marks.
def Between (st : State) : Prop := st = .space ∨ st = .word ∨ st = .quote '"' ∨ st = .escape (some '"')

-- A double quotation mark gets into a word only where something else is lost.
theorem Step.loses (h : Step st token c st' token') (hst : Between st) :
    (Between st' ∧ token'.count '"' ≤ token.count '"') ∨
      ∃ d, (d = '\\' ∨ d = '\'') ∧ token'.count d + (pending st').count d <
        token.count d + [c].count d + (pending st).count d := by
  cases h with
  | gap => exact .inl ⟨.inl rfl, Nat.le_refl _⟩
  | backslash hst =>
      refine .inr ⟨'\\', .inl rfl, ?_⟩
      rcases hst with rfl | rfl <;> simp [pending]
  | opening hst hc =>
      rcases of_decide_eq_true hc with rfl | rfl
      · refine .inr ⟨'\'', .inr rfl, ?_⟩
        rcases hst with rfl | rfl <;> simp [pending]
      · exact .inl ⟨.inr (.inr (.inl rfl)), Nat.le_refl _⟩
  | first hc =>
      have hne : c ≠ '"' := fun h => by subst h; cases hc
      refine .inl ⟨.inr (.inl rfl), ?_⟩
      simp [hne]
  | bare hc =>
      have hne : c ≠ '"' := fun h => by subst h; cases hc
      refine .inl ⟨.inr (.inl rfl), ?_⟩
      simp [hne]
  | closing => exact .inl ⟨.inr (.inl rfl), Nat.le_refl _⟩
  | escaping => exact .inl ⟨.inr (.inr (.inr rfl)), Nat.le_refl _⟩
  | inner hc =>
      rcases hst with h | h | h | h
      · cases h
      · cases h
      · obtain rfl := State.quote.inj h
        refine .inl ⟨.inr (.inr (.inl rfl)), ?_⟩
        simp [hc]
      · cases h
  | escaped => rcases hst with h | h | h | h <;> cases h
  | kept hc =>
      rcases hst with h | h | h | h
      · cases h
      · cases h
      · cases h
      · obtain rfl := Option.some.inj (State.escape.inj h)
        refine .inl ⟨.inr (.inr (.inl rfl)), ?_⟩
        simp [hc]
  | unescaped hc =>
      refine .inr ⟨'\\', .inl rfl, ?_⟩
      rcases hst with h | h | h | h
      · cases h
      · cases h
      · cases h
      · simp [pending]

-- Where no backslash and no single quotation mark is lost, all the double ones are.
theorem count_quote_le (h : scan st token quoted s = .ok argv) (hst : Between st)
    (hkept : ∀ d, d = '\\' ∨ d = '\'' →
      token.count d + s.count d + (pending st).count d ≤ argv.flatten.count d) :
    argv.flatten.count '"' ≤ token.count '"' := by
  induction s generalizing st token quoted argv with
  | nil =>
      have hle := count_le h '"'
      have hpending : (pending st).count '"' = 0 := by
        rcases hst with rfl | rfl | rfl | rfl <;> rfl
      rw [List.count_nil, hpending] at hle
      exact hle
  | cons c cs ih =>
      have hcons (d : Char) : (c :: cs).count d = [c].count d + cs.count d := @List.count_append _ _ _ [c] cs
      rcases step_of_scan h with ⟨st', token', quoted', hstep, hscan⟩ | ⟨rest, -, rfl, hscan⟩
      · rcases hstep.loses hst with ⟨hst', hquote⟩ | ⟨d, hd, hlost⟩
        · refine Nat.le_trans (ih hscan hst' fun d hd => ?_) hquote
          have hle := hstep.count_le d
          have hall := hkept d hd
          rw [hcons] at hall
          omega
        · have hle := count_le hscan d
          have hall := hkept d hd
          rw [hcons] at hall
          omega
      · have hrest := ih hscan (.inl rfl) fun d hd => ?_
        · rw [List.flatten_cons, List.count_append]
          rw [List.count_nil] at hrest
          omega
        · have hall := hkept d hd
          rw [hcons, List.flatten_cons, List.count_append] at hall
          simp only [pending, List.count_nil]
          omega

end Counts

section Plain

variable {token s r : List Char} {quoted : Bool} {argv : List (List Char)}

-- A text that double quotation marks keep as it is.
structure Plain (s : List Char) : Prop where
  quote : '"' ∉ s
  backslashes : ¬ ['\\', '\\'] <:+: s
  last : s.getLast? ≠ some '\\'

theorem plain_nil : Plain [] := ⟨List.not_mem_nil, by simp, by simp⟩

theorem plain_cons {c : Char} (hc : c ≠ '\\') : Plain (c :: s) ↔ c ≠ '"' ∧ Plain s := by
  have hsub : ['\\', '\\'] <:+: c :: s ↔ ['\\', '\\'] <:+: s := by
    rw [List.infix_cons_iff]
    refine or_iff_right fun h => hc ?_
    exact (List.cons_prefix_cons.mp h).1.symm
  have hlast : (c :: s).getLast? = some '\\' ↔ s.getLast? = some '\\' := by
    rcases s with _ | ⟨d, s⟩
    · simp [hc]
    · rw [List.getLast?_cons_cons]
  constructor
  · rintro ⟨hquote, hslash, hend⟩
    obtain ⟨hne, hquote⟩ := List.ne_and_not_mem_of_not_mem_cons hquote
    exact ⟨hne.symm, hquote, fun h => hslash (hsub.mpr h), fun h => hend (hlast.mpr h)⟩
  · rintro ⟨hne, hquote, hslash, hend⟩
    exact ⟨List.not_mem_cons_of_ne_of_not_mem hne.symm hquote, fun h => hslash (hsub.mp h),
      fun h => hend (hlast.mp h)⟩

theorem plain_backslash {c : Char} : Plain ('\\' :: c :: s) ↔ c ≠ '\\' ∧ Plain (c :: s) := by
  have hsub : ['\\', '\\'] <:+: '\\' :: c :: s ↔ c = '\\' ∨ ['\\', '\\'] <:+: c :: s := by
    rw [List.infix_cons_iff, List.cons_prefix_cons, List.cons_prefix_cons]
    simp [eq_comm]
  have hquote : '"' ∈ '\\' :: c :: s ↔ '"' ∈ c :: s := by simp
  constructor
  · rintro ⟨hq, hslash, hend⟩
    rw [hsub, not_or] at hslash
    exact ⟨hslash.1, fun h => hq (hquote.mpr h), hslash.2, hend⟩
  · rintro ⟨hne, hq, hslash, hend⟩
    refine ⟨fun h => hq (hquote.mp h), fun h => ?_, hend⟩
    rcases hsub.mp h with heq | hin
    · exact hne heq
    · exact hslash hin

theorem scan_closed (s token r : List Char) (quoted : Bool) (h : Plain s) :
    scan (.quote '"') token quoted (s ++ '"' :: r) = scan .word (token ++ s) true r := by
  match s with
  | [] =>
      rw [List.append_nil]
      rfl
  | [c] =>
      have hc : c ≠ '\\' := fun heq => h.last (heq ▸ rfl)
      rw [List.singleton_append, scan_plain ((plain_cons hc).mp h).1 hc]
      rfl
  | c :: d :: s =>
      by_cases hc : c = '\\'
      · subst hc
        obtain ⟨hd, h⟩ := plain_backslash.mp h
        obtain ⟨hquote, h⟩ := (plain_cons hd).mp h
        rw [List.cons_append, List.cons_append, scan_kept hquote hd, scan_closed s _ _ _ h,
          List.append_assoc]
        rfl
      · obtain ⟨hquote, h⟩ := (plain_cons hc).mp h
        rw [List.cons_append, scan_plain hquote hc, scan_closed (d :: s) _ _ _ h, List.append_assoc]
        rfl

-- Any other text loses a backslash.
theorem count_lt_of_quoted (s token r : List Char) (quoted : Bool) (hquote : '"' ∉ s) (hs : ¬ Plain s)
    (h : scan (.quote '"') token quoted (s ++ '"' :: r) = .ok argv) :
    argv.flatten.count '\\' < token.count '\\' + s.count '\\' + r.count '\\' := by
  match s with
  | [] => exact absurd plain_nil hs
  | [c] =>
      have hc : c = '\\' := by
        by_contra hc
        exact hs ((plain_cons hc).mpr ⟨fun heq => hquote (heq ▸ List.mem_singleton_self c), plain_nil⟩)
      subst hc
      rw [List.singleton_append, scan_escaped (.inl rfl)] at h
      have hle := count_le h '\\'
      simp only [pending, List.count_append, List.count_nil, List.count_cons] at hle ⊢
      simp at hle ⊢
      omega
  | c :: d :: s =>
      obtain ⟨hne, hquote'⟩ := List.ne_and_not_mem_of_not_mem_cons hquote
      obtain ⟨hned, hquotes⟩ := List.ne_and_not_mem_of_not_mem_cons hquote'
      by_cases hc : c = '\\'
      · subst hc
        by_cases hd : d = '\\'
        · subst hd
          rw [List.cons_append, List.cons_append, scan_escaped (.inr rfl)] at h
          have hle := count_le h '\\'
          simp only [pending, List.count_append, List.count_nil, List.count_cons] at hle ⊢
          simp at hle ⊢
          omega
        · have hs' : ¬ Plain s := fun hp =>
            hs (plain_backslash.mpr ⟨hd, (plain_cons hd).mpr ⟨hned.symm, hp⟩⟩)
          rw [List.cons_append, List.cons_append, scan_kept hned.symm hd] at h
          have hlt := count_lt_of_quoted s _ _ _ hquotes hs' h
          simp only [List.count_append, List.count_nil, List.count_cons] at hlt ⊢
          omega
      · have hs' : ¬ Plain (d :: s) := fun hp => hs ((plain_cons hc).mpr ⟨hne.symm, hp⟩)
        rw [List.cons_append, scan_plain hne.symm hc] at h
        have hlt := count_lt_of_quoted (d :: s) _ _ _ hquote' hs' h
        simp only [List.count_append, List.count_nil, List.count_cons] at hlt ⊢
        omega

end Plain

section Word

variable {token s r : List Char} {quoted : Bool} {argv : List (List Char)}

-- A character that needs no quotation.
def isBare (c : Char) : Bool := !isWhitespace c && !isQuote c && c ≠ '\\'

-- A text that stands for itself without any quotation.
def Word (s : List Char) : Prop := s ≠ [] ∧ ∀ c ∈ s, isBare c = true

theorem word_of_all {s : List Char} (hne : s ≠ []) (h : s.all isBare = true) : Word s :=
  ⟨hne, fun _ hc => List.all_eq_true.mp h _ hc⟩

theorem scan_bare {c : Char} (hc : isBare c = true) (token cs : List Char) (quoted : Bool) :
    scan .word token quoted (c :: cs) = scan .word (token ++ [c]) quoted cs := by
  simp only [isBare, Bool.and_eq_true, Bool.not_eq_true', decide_eq_true_eq] at hc
  rw [scan, hc.1.1, hc.1.2]
  simp [hc.2]

theorem scan_first {c : Char} (hc : isBare c = true) (token cs : List Char) (quoted : Bool) :
    scan .space token quoted (c :: cs) = scan .word [c] quoted cs := by
  simp only [isBare, Bool.and_eq_true, Bool.not_eq_true', decide_eq_true_eq] at hc
  rw [scan, hc.1.1, hc.1.2]
  simp [hc.2]

theorem scan_word (h : ∀ c ∈ s, isBare c = true) (token : List Char) (quoted : Bool) :
    scan .word token quoted (s ++ r) = scan .word (token ++ s) quoted r := by
  induction s generalizing token with
  | nil => rw [List.nil_append, List.append_nil]
  | cons c cs ih =>
      obtain ⟨hc, hcs⟩ := List.forall_mem_cons.mp h
      rw [List.cons_append, scan_bare hc, ih hcs, List.append_assoc]
      rfl

theorem scan_gap {st : State} {c : Char} (hst : st = .space ∨ st = .word) (hc : isWhitespace c = true)
    (hword : token ≠ [] ∨ quoted = true) (cs : List Char) :
    scan st token quoted (c :: cs) = (token :: ·) <$> scan .space [] false cs := by
  rcases hst with rfl | rfl <;> rw [scan, if_pos hc, if_pos hword]

theorem scan_blank {c : Char} (hc : isWhitespace c = true) (cs : List Char) :
    scan .space [] false (c :: cs) = scan .space [] false cs := by
  rw [scan, if_pos hc, if_neg (by simp)]

theorem scan_space_word (h : Word s) : scan .space [] false (s ++ r) = scan .word s false r := by
  obtain ⟨hne, hbare⟩ := h
  obtain ⟨c, cs, rfl⟩ := List.exists_cons_of_ne_nil hne
  obtain ⟨hc, hcs⟩ := List.forall_mem_cons.mp hbare
  rw [List.cons_append, scan_first hc, scan_word hcs]
  rfl

theorem scan_word_gap (h : Word s) (r : List Char) :
    scan .space [] false (s ++ ' ' :: r) = (s :: ·) <$> scan .space [] false r := by
  rw [scan_space_word h, scan_gap (.inr rfl) (by decide) (.inl h.1)]

theorem scan_word_open (h : Word s) (r : List Char) :
    scan .space [] false (s ++ '"' :: r) = scan (.quote '"') s false r := by
  rw [scan_space_word h]
  rfl

theorem scan_open (r : List Char) : scan .space [] false ('"' :: r) = scan (.quote '"') [] false r := rfl

theorem scan_quoted_gap (h : Plain s) (token r : List Char) (quoted : Bool) :
    scan (.quote '"') token quoted (s ++ '"' :: ' ' :: r) =
      ((token ++ s) :: ·) <$> scan .space [] false r := by
  rw [scan_closed s token _ quoted h, scan_gap (.inr rfl) (by decide) (.inr rfl)]

theorem scan_quoted_end (h : Plain s) (token : List Char) (quoted : Bool) :
    scan (.quote '"') token quoted (s ++ ['"']) = .ok [token ++ s] := by
  rw [scan_closed s token [] quoted h, scan, emit, if_pos (.inr rfl)]

-- Without quotations and backslashes the words are what stands between the gaps.
theorem exists_words (h : ∀ c ∈ s, isQuote c = false ∧ c ≠ '\\') (token : List Char)
    (htoken : ∀ c ∈ token, isBare c = true) :
    ∃ words, (∀ w ∈ words, Word w) ∧
      scan (if token = [] then .space else .word) token false (s ++ ' ' :: r) =
        (words ++ ·) <$> scan .space [] false r := by
  induction s generalizing token with
  | nil =>
      by_cases hne : token = []
      · refine ⟨[], fun w hw => absurd hw List.not_mem_nil, ?_⟩
        rw [if_pos hne, hne, List.nil_append, scan_blank (by decide)]
        exact (id_map _).symm
      · refine ⟨[token], fun w hw => List.mem_singleton.mp hw ▸ ⟨hne, htoken⟩, ?_⟩
        rw [if_neg hne, List.nil_append, scan_gap (.inr rfl) (by decide) (.inl hne)]
        rfl
  | cons c cs ih =>
      obtain ⟨⟨hquote, hslash⟩, hcs⟩ := List.forall_mem_cons.mp h
      rw [List.cons_append]
      by_cases hspace : isWhitespace c = true
      · by_cases hne : token = []
        · subst hne
          obtain ⟨words, hwords, heq⟩ := ih hcs [] htoken
          refine ⟨words, hwords, ?_⟩
          rw [if_pos rfl] at heq ⊢
          rw [scan_blank hspace, heq]
        · obtain ⟨words, hwords, heq⟩ := ih hcs [] fun c hc => absurd hc List.not_mem_nil
          refine ⟨token :: words, List.forall_mem_cons.mpr ⟨⟨hne, htoken⟩, hwords⟩, ?_⟩
          rw [if_pos rfl] at heq
          rw [if_neg hne, scan_gap (.inr rfl) hspace (.inl hne), heq, ← comp_map]
          rfl
      · have hbare : isBare c = true := by simp [isBare, hspace, hquote, hslash]
        have htoken' : ∀ d ∈ token ++ [c], isBare d = true := by
          intro d hd
          rcases List.mem_append.mp hd with hd | hd
          · exact htoken d hd
          · exact List.mem_singleton.mp hd ▸ hbare
        obtain ⟨words, hwords, heq⟩ := ih hcs (token ++ [c]) htoken'
        refine ⟨words, hwords, ?_⟩
        rw [if_neg (by simp)] at heq
        rw [← heq]
        by_cases hne : token = []
        · rw [if_pos hne, hne, scan_first hbare]
          rfl
        · rw [if_neg hne, scan_bare hbare]

-- A mark that is not quoted is lost.
theorem count_lt_of_bare {st : State} (hst : st = .space ∨ st = .word) (hquote : '"' ∉ s)
    (hmark : ∃ d ∈ s, d = '\\' ∨ d = '\'') (h : scan st token quoted (s ++ r) = .ok argv) :
    ∃ e, (e = '\\' ∨ e = '\'') ∧ argv.flatten.count e < token.count e + s.count e + r.count e := by
  induction s generalizing st token quoted argv with
  | nil =>
      obtain ⟨d, hd, -⟩ := hmark
      exact absurd hd List.not_mem_nil
  | cons c cs ih =>
      obtain ⟨hne, hquotes⟩ := List.ne_and_not_mem_of_not_mem_cons hquote
      have hcons (d : Char) : (c :: cs).count d = [c].count d + cs.count d := @List.count_append _ _ _ [c] cs
      -- past a character that is no mark the induction goes on
      have hrest (hc : ¬ (c = '\\' ∨ c = '\'')) : ∃ d ∈ cs, d = '\\' ∨ d = '\'' := by
        obtain ⟨d, hd, hmark⟩ := hmark
        rcases List.mem_cons.mp hd with rfl | hd
        · exact absurd hmark hc
        · exact ⟨d, hd, hmark⟩
      have hspace (hc : isWhitespace c = true) : ¬ (c = '\\' ∨ c = '\'') := by
        rintro (rfl | rfl) <;> cases hc
      have hbare (hc : isQuote c = false) (hslash : c ≠ '\\') : ¬ (c = '\\' ∨ c = '\'') := by
        rintro (rfl | rfl)
        · exact hslash rfl
        · cases hc
      rw [List.cons_append] at h
      rcases step_of_scan h with ⟨st', token', quoted', hstep, hscan⟩ | ⟨rest, hc, rfl, hscan⟩
      · have hpending (e : Char) : (pending st).count e = 0 := by rcases hst with rfl | rfl <;> rfl
        have hgo (hst' : st' = .space ∨ st' = .word) (hc : ¬ (c = '\\' ∨ c = '\'')) :
            ∃ e, (e = '\\' ∨ e = '\'') ∧
              argv.flatten.count e < token.count e + (c :: cs).count e + r.count e := by
          obtain ⟨e, he, hlt⟩ := ih hst' hquotes (hrest hc) hscan
          refine ⟨e, he, ?_⟩
          have hle := hstep.count_le e
          rw [hpending] at hle
          rw [hcons]
          omega
        have hlost (e : Char) (he : e = '\\' ∨ e = '\'')
            (hlt : token'.count e + (pending st').count e < token.count e + [c].count e) :
            ∃ e, (e = '\\' ∨ e = '\'') ∧
              argv.flatten.count e < token.count e + (c :: cs).count e + r.count e := by
          refine ⟨e, he, ?_⟩
          have hle := count_le hscan e
          rw [List.count_append] at hle
          rw [hcons]
          omega
        cases hstep with
        | gap _ hc => exact hgo (.inl rfl) (hspace hc)
        | backslash => exact hlost '\\' (.inl rfl) (by simp [pending])
        | opening _ hc =>
            rcases of_decide_eq_true hc with rfl | rfl
            · exact hlost '\'' (.inr rfl) (by simp [pending])
            · exact absurd rfl hne
        | first hc hslash => exact hgo (.inr rfl) (hbare hc hslash)
        | bare hc hslash => exact hgo (.inr rfl) (hbare hc hslash)
        | closing => rcases hst with h | h <;> cases h
        | escaping => rcases hst with h | h <;> cases h
        | inner => rcases hst with h | h <;> cases h
        | escaped => rcases hst with h | h <;> cases h
        | kept => rcases hst with h | h <;> cases h
        | unescaped => rcases hst with h | h <;> cases h
      · obtain ⟨e, he, hlt⟩ := ih (.inl rfl) hquotes (hrest (hspace hc)) hscan
        refine ⟨e, he, ?_⟩
        rw [List.count_nil] at hlt
        rw [List.flatten_cons, List.count_append, hcons]
        omega

end Word

end Ccp.Lib.Shlex
