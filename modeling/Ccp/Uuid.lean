import Mathlib.Data.List.Basic

namespace Ccp

-- Strings of both languages as their characters.
abbrev Str := List Char

structure UUID where
  bits : BitVec 128
deriving DecidableEq

namespace UUID

-- uuid.Nil, which the code also uses for "no link yet".
protected def nil : UUID := ⟨0⟩

def hexDigit (n : Nat) : Char :=
  if n < 10 then Char.ofNat ('0'.toNat + n) else Char.ofNat ('a'.toNat + (n - 10))

def hexDigits (u : UUID) : Str :=
  (List.range 32).map fun i => hexDigit ((u.bits.toNat >>> (4 * (31 - i))) % 16)

-- The canonical text: 8-4-4-4-12 lower-case digits.
protected def string (u : UUID) : Str :=
  let d := u.hexDigits
  d.take 8 ++ '-' :: (d.drop 8).take 4 ++ '-' :: (d.drop 12).take 4 ++
    '-' :: (d.drop 16).take 4 ++ '-' :: d.drop 20

def hexValue (c : Char) : Option Nat :=
  if '0' ≤ c ∧ c ≤ '9' then some (c.toNat - '0'.toNat)
  else if 'a' ≤ c ∧ c ≤ 'f' then some (c.toNat - 'a'.toNat + 10)
  else if 'A' ≤ c ∧ c ≤ 'F' then some (c.toNat - 'A'.toNat + 10)
  else none

def ofDigits (digits : Str) : Option UUID :=
  (digits.mapM hexValue).map fun ds => ⟨BitVec.ofNat 128 (ds.foldl (fun n d => 16 * n + d) 0)⟩

-- The dashed form; whatever follows its 36 characters is not looked at.
def parseDashed (s : Str) : Option UUID :=
  if s[8]? = some '-' ∧ s[13]? = some '-' ∧ s[18]? = some '-' ∧ s[23]? = some '-' then
    ofDigits (s.take 8 ++ (s.drop 9).take 4 ++ (s.drop 14).take 4 ++ (s.drop 19).take 4 ++
      (s.drop 24).take 12)
  else none

-- uuid.Parse: dashed, with a urn:uuid: label, in braces (any two characters of
-- one byte), or 32 digits.
def parse (s : Str) : Option UUID :=
  if s.length = 36 then parseDashed s
  else if s.length = 45 then
    if (s.take 9).map Char.toLower = "urn:uuid:".toList then parseDashed (s.drop 9) else none
  else if s.length = 38 ∧ s.all (·.toNat < 128) then parseDashed (s.drop 1)
  else if s.length = 32 then ofDigits s
  else none

-- The text of the error where parse has no result.
def parseError (s : Str) : String :=
  if s.length = 45 ∧ (s.take 9).map Char.toLower ≠ "urn:uuid:".toList then
    "invalid urn prefix: " ++ (String.ofList (s.take 9)).quote
  else if s.length = 36 ∨ s.length = 45 ∨ s.length = 38 ∨ s.length = 32 then "invalid UUID format"
  else "invalid UUID length: " ++ toString s.length

theorem hexValue_hexDigit : ∀ n < 16, hexValue (hexDigit n) = some n := by
  decide

-- The digits of a number below 16 ^ n, read back from the highest.
theorem foldl_digits (n x acc : Nat) (h : x >>> (4 * n) = 0) :
    ((List.range n).map fun i => (x >>> (4 * (n - 1 - i))) % 16).foldl (fun n d => 16 * n + d) acc =
      (acc <<< (4 * n)) + x := by
  induction n generalizing x with
  | zero =>
      have hx : x = 0 := by simpa using h
      simp [hx]
  | succ n ih =>
      have hshift : ∀ k, (x / 16) >>> k = x >>> (4 + k) := by
        intro k
        rw [Nat.shiftRight_add, Nat.shiftRight_eq_div_pow x 4]
      have hhigh : (x / 16) >>> (4 * n) = 0 := by
        rw [hshift, ← h]
        congr 1
        omega
      have hdigits : (List.range n).map (fun i => (x >>> (4 * (n + 1 - 1 - i))) % 16) =
          (List.range n).map fun i => ((x / 16) >>> (4 * (n - 1 - i))) % 16 := by
        apply List.map_congr_left
        intro i hi
        rw [List.mem_range] at hi
        rw [hshift]
        congr 2
        omega
      rw [List.range_succ, List.map_append, hdigits, List.foldl_append, ih _ hhigh]
      simp only [List.map_cons, List.map_nil, List.foldl_cons, List.foldl_nil]
      have hlow : n + 1 - 1 - n = 0 := by omega
      rw [hlow, Nat.mul_zero, Nat.shiftRight_zero, Nat.mul_succ, Nat.shiftLeft_add,
        Nat.shiftLeft_eq _ 4]
      omega

theorem ofDigits_hexDigits (u : UUID) : ofDigits u.hexDigits = some u := by
  have hread : u.hexDigits.mapM hexValue =
      some ((List.range 32).map fun i => (u.bits.toNat >>> (4 * (32 - 1 - i))) % 16) := by
    rw [hexDigits]
    induction List.range 32 with
    | nil => rfl
    | cons i is ih =>
        simp only [List.map_cons, List.mapM_cons, ih]
        rw [hexValue_hexDigit _ (Nat.mod_lt _ (by omega))]
        rfl
  have hlt : u.bits.toNat >>> (4 * 32) = 0 := by
    rw [Nat.shiftRight_eq_div_pow]
    exact Nat.div_eq_of_lt u.bits.isLt
  rw [ofDigits, hread, Option.map_some, foldl_digits _ _ _ hlt]
  simp

theorem length_hexDigits (u : UUID) : u.hexDigits.length = 32 := by
  simp [hexDigits]

theorem length_string (u : UUID) : u.string.length = 36 := by
  simp [UUID.string, length_hexDigits]

theorem parseDashed_glued {a b c d e : Str} (ha : a.length = 8) (hb : b.length = 4)
    (hc : c.length = 4) (hd : d.length = 4) (he : e.length = 12) :
    parseDashed (a ++ '-' :: b ++ '-' :: c ++ '-' :: d ++ '-' :: e) =
      ofDigits (a ++ b ++ c ++ d ++ e) := by
  have hdash : ∀ (p q : Str) (n : Nat), p.length = n → (p ++ '-' :: q)[n]? = some '-' := by
    rintro p q n rfl
    simp
  have hfield : ∀ (p q r : Str) (n k : Nat), p.length = n → q.length = k →
      ((p ++ (q ++ r)).drop n).take k = q := by
    rintro p q r n k rfl rfl
    simp
  have h8 := hdash a (b ++ '-' :: c ++ '-' :: d ++ '-' :: e) 8 ha
  have h13 := hdash (a ++ '-' :: b) (c ++ '-' :: d ++ '-' :: e) 13 (by simp [ha, hb])
  have h18 := hdash (a ++ '-' :: b ++ '-' :: c) (d ++ '-' :: e) 18 (by simp [ha, hb, hc])
  have h23 := hdash (a ++ '-' :: b ++ '-' :: c ++ '-' :: d) e 23 (by simp [ha, hb, hc, hd])
  have f0 := hfield [] a ('-' :: b ++ '-' :: c ++ '-' :: d ++ '-' :: e) 0 8 rfl ha
  have f1 := hfield (a ++ ['-']) b ('-' :: c ++ '-' :: d ++ '-' :: e) 9 4 (by simp [ha]) hb
  have f2 := hfield (a ++ '-' :: b ++ ['-']) c ('-' :: d ++ '-' :: e) 14 4 (by simp [ha, hb]) hc
  have f3 := hfield (a ++ '-' :: b ++ '-' :: c ++ ['-']) d ('-' :: e) 19 4
    (by simp [ha, hb, hc]) hd
  have f4 := hfield (a ++ '-' :: b ++ '-' :: c ++ '-' :: d ++ ['-']) e [] 24 12
    (by simp [ha, hb, hc, hd]) he
  simp only [List.append_assoc, List.cons_append, List.nil_append, List.append_nil,
    List.drop_zero] at h8 h13 h18 h23 f0 f1 f2 f3 f4 ⊢
  rw [parseDashed, if_pos ⟨h8, h13, h18, h23⟩, f0, f1, f2, f3, f4]
  simp only [List.append_assoc]

-- Every identifier is read back from its canonical text.
theorem parse_string (u : UUID) : parse u.string = some u := by
  have hlen := u.length_hexDigits
  have hparts : u.hexDigits.take 8 ++ (u.hexDigits.drop 8).take 4 ++ (u.hexDigits.drop 12).take 4 ++
      (u.hexDigits.drop 16).take 4 ++ u.hexDigits.drop 20 = u.hexDigits := by
    have hnext : ∀ n, (u.hexDigits.drop n).take 4 ++ u.hexDigits.drop (n + 4) =
        u.hexDigits.drop n := by
      intro n
      rw [← List.drop_drop, List.take_append_drop]
    simp only [List.append_assoc]
    rw [hnext 16, hnext 12, hnext 8, List.take_append_drop]
  rw [parse, if_pos u.length_string, UUID.string]
  rw [parseDashed_glued (by simp [hlen]) (by simp [hlen]) (by simp [hlen]) (by simp [hlen])
    (by simp [hlen]), hparts, ofDigits_hexDigits]

theorem string_injective : Function.Injective UUID.string := by
  intro u v h
  have hparse := congrArg parse h
  rw [parse_string, parse_string] at hparse
  exact Option.some.inj hparse

theorem eq_of_mem_string {u : UUID} {c : Char} (h : c ∈ u.string) :
    c = '-' ∨ ∃ n < 16, c = hexDigit n := by
  have hdigits : c ∈ u.hexDigits ∨ c = '-' := by
    simp only [UUID.string, List.mem_append, List.mem_cons] at h
    rcases h with (((h | h | h) | h | h) | h | h) | h | h
    · exact Or.inl (List.mem_of_mem_take h)
    · exact Or.inr h
    · exact Or.inl (List.mem_of_mem_drop (List.mem_of_mem_take h))
    · exact Or.inr h
    · exact Or.inl (List.mem_of_mem_drop (List.mem_of_mem_take h))
    · exact Or.inr h
    · exact Or.inl (List.mem_of_mem_drop (List.mem_of_mem_take h))
    · exact Or.inr h
    · exact Or.inl (List.mem_of_mem_drop h)
  rcases hdigits with hdigits | rfl
  · obtain ⟨i, -, rfl⟩ := List.mem_map.mp hdigits
    exact Or.inr ⟨_, Nat.mod_lt _ (by omega), rfl⟩
  · exact Or.inl rfl

theorem notMem_string {c : Char} (hdash : c ≠ '-') (hdigits : ∀ n < 16, c ≠ hexDigit n) (u : UUID) :
    c ∉ u.string := by
  intro h
  rcases eq_of_mem_string h with h | ⟨n, hn, h⟩
  · exact hdash h
  · exact hdigits n hn h

theorem slash_notMem_string (u : UUID) : '/' ∉ u.string :=
  notMem_string (by decide) (by decide) u

end UUID

end Ccp
