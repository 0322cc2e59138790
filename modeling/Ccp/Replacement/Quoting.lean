import Ccp.Lib.Shlex
import Ccp.Replacement

namespace Ccp.Replacement

open Lib

-- The worker's side of a command line.

-- _shlex_unescape: the characters beside their successors, the last one beside a dot.
def shlexUnescape (s : Str) : Str :=
  ((s.zip (s.drop 1 ++ ['.'])).filter fun p => p ≠ ('\\', '`')).map Prod.fst

def parseCommandLine (s : Str) : Except String (List Str) :=
  (Shlex.split s).map fun words => words.map shlexUnescape

theorem shlexUnescape_cons (c d : Char) (s : Str) :
    shlexUnescape (c :: d :: s) =
      if c = '\\' ∧ d = '`' then shlexUnescape (d :: s) else c :: shlexUnescape (d :: s) := by
  by_cases h : c = '\\' ∧ d = '`'
  · simp [shlexUnescape, h]
  · have hne : (c, d) ≠ ('\\', '`') := by simpa using h
    simp [shlexUnescape, h, hne]

-- How escape, the word splitting and the whole way back treat one character.

def escaped (c : Char) : Str :=
  if c = '\\' then ['\\', '\\', '\\', '\\'] else escapeChar c

def shlexed (c : Char) : Str :=
  if c = '\\' then ['\\', '\\'] else if c = '`' then ['\\', '`'] else [c]

def doubled (c : Char) : Str :=
  if c = '\\' then ['\\', '\\'] else [c]

theorem escape_eq_flatMap (v : Str) : escape v = v.flatMap escaped := by
  rw [escape, replaceAll_singleton, List.flatMap_assoc]
  congr 1
  funext c
  by_cases h : c = '\\'
  · subst h
    rfl
  · simp [escaped, h]

theorem scan_escaped (c : Char) (token rest : Str) (quoted : Bool) :
    Shlex.scan (.quote '"') token quoted (escaped c ++ rest) =
      Shlex.scan (.quote '"') (token ++ shlexed c) true rest := by
  by_cases hslash : c = '\\'
  · subst hslash
    have hpair := Shlex.scan_escaped (Or.inr rfl)
    calc Shlex.scan (.quote '"') token quoted ('\\' :: '\\' :: '\\' :: '\\' :: rest)
        = Shlex.scan (.quote '"') (token ++ ['\\']) true ('\\' :: '\\' :: rest) := hpair ..
      _ = Shlex.scan (.quote '"') (token ++ ['\\'] ++ ['\\']) true rest := hpair ..
      _ = Shlex.scan (.quote '"') (token ++ shlexed '\\') true rest := by simp [shlexed]
  by_cases hquote : c = '"'
  · subst hquote
    exact Shlex.scan_escaped (Or.inl rfl) ..
  by_cases htick : c = '`'
  · subst htick
    exact Shlex.scan_kept (by decide) (by decide) ..
  · simp only [escaped, escapeChar, shlexed, hslash, hquote, htick, or_self, if_false,
      List.singleton_append]
    exact Shlex.scan_plain hquote hslash ..

theorem scan_escape (v token : Str) (quoted : Bool) :
    Shlex.scan (.quote '"') token quoted (v.flatMap escaped ++ ['"']) =
      Shlex.scan (.quote '"') (token ++ v.flatMap shlexed) true ['"'] := by
  induction v generalizing token quoted with
  | nil => simp [Shlex.scan]
  | cons c v ih =>
      simp only [List.flatMap_cons, List.append_assoc]
      rw [scan_escaped, ih, List.append_assoc]

theorem head_shlexed_ne (v : Str) : (v.flatMap shlexed).head? ≠ some '`' := by
  cases v with
  | nil => simp
  | cons c v =>
      simp only [List.flatMap_cons, shlexed]
      split_ifs with hslash htick
      · simp
      · simp
      · simpa using htick

theorem shlexUnescape_cons_of_head_ne {c : Char} {s : Str} (h : s.head? ≠ some '`') :
    shlexUnescape (c :: s) = c :: shlexUnescape s := by
  cases s with
  | nil => simp [shlexUnescape]
  | cons d s =>
      have hd : d ≠ '`' := by simpa using h
      simp [shlexUnescape_cons, hd]

theorem shlexUnescape_shlexed (v : Str) : shlexUnescape (v.flatMap shlexed) = v.flatMap doubled := by
  induction v with
  | nil => rfl
  | cons c v ih =>
      have hhead := head_shlexed_ne v
      simp only [List.flatMap_cons, shlexed, doubled]
      split_ifs with hslash htick
      · rw [List.cons_append, List.singleton_append, shlexUnescape_cons_of_head_ne (by simp),
          shlexUnescape_cons_of_head_ne hhead, ih]
        rfl
      · rw [List.cons_append, List.singleton_append, shlexUnescape_cons, if_pos ⟨rfl, rfl⟩,
          shlexUnescape_cons_of_head_ne hhead, ih, htick]
        rfl
      · rw [List.singleton_append, shlexUnescape_cons_of_head_ne hhead, ih]
        rfl

-- What comes back is the value with its backslashes doubled.
theorem parseCommandLine_escape (v : Str) :
    parseCommandLine ('"' :: escape v ++ ['"']) = .ok [v.flatMap doubled] := by
  have hscan := scan_escape v [] false
  rw [parseCommandLine, escape_eq_flatMap, Shlex.split_quoted hscan]
  simp [Except.map, shlexUnescape_shlexed]

theorem length_doubled (v : Str) : (v.flatMap doubled).length = v.length + v.count '\\' := by
  induction v with
  | nil => rfl
  | cons c v ih =>
      simp only [List.flatMap_cons, List.length_append, List.length_cons, List.count_cons, ih,
        doubled, beq_iff_eq]
      split_ifs <;> simp <;> omega

theorem doubled_of_not_mem {v : Str} (h : '\\' ∉ v) : v.flatMap doubled = v := by
  induction v with
  | nil => rfl
  | cons c v ih =>
      rw [List.mem_cons, not_or] at h
      obtain ⟨hc, hv⟩ := h
      simp [doubled, Ne.symm hc, ih hv]

theorem parseCommandLine_escape_eq_iff (v : Str) :
    parseCommandLine ('"' :: escape v ++ ['"']) = .ok [v] ↔ '\\' ∉ v := by
  rw [parseCommandLine_escape]
  constructor
  · intro h
    have heq : v.flatMap doubled = v := by simpa using h
    have hlen := length_doubled v
    rw [heq] at hlen
    exact List.count_eq_zero.mp (by omega)
  · intro h
    rw [doubled_of_not_mem h]

theorem backslash_comes_back_twice :
    parseCommandLine ('"' :: escape "a\\b".toList ++ ['"']) ≠ .ok ["a\\b".toList] := by
  rw [parseCommandLine_escape]
  decide

end Ccp.Replacement
