import Mathlib.Data.List.Basic

namespace Ccp.Lib

def daysIn (year month : Nat) : Nat :=
  if month = 2 then
    if year % 4 = 0 ∧ (year % 100 ≠ 0 ∨ year % 400 = 0) then 29 else 28
  else if month = 4 ∨ month = 6 ∨ month = 9 ∨ month = 11 then 30
  else 31

-- A point in time in UTC, to the microsecond.
structure Datetime where
  year : Nat
  month : Nat
  day : Nat
  hour : Nat
  minute : Nat
  second : Nat
  microsecond : Nat
  year_lt : year < 10000
  month_mem : 1 ≤ month ∧ month ≤ 12
  day_mem : 1 ≤ day ∧ day ≤ daysIn year month
  hour_lt : hour < 24
  minute_lt : minute < 60
  second_lt : second < 60
  microsecond_lt : microsecond < 1000000

namespace Rfc3339

def digit (n : Nat) : Char := Char.ofNat ('0'.toNat + n)

def two (n : Nat) : List Char := [digit (n / 10), digit (n % 10)]

-- A fraction of zero is left out.
def fraction (microsecond : Nat) : List Char :=
  if microsecond = 0 then []
  else '.' :: two (microsecond / 10000) ++ two (microsecond / 100 % 100) ++ two (microsecond % 100)

def isoformat (t : Datetime) : List Char :=
  two (t.year / 100) ++ two (t.year % 100) ++ '-' :: two t.month ++ '-' :: two t.day ++
    'T' :: two t.hour ++ ':' :: two t.minute ++ ':' :: two t.second ++
    (fraction t.microsecond ++ "+00:00".toList)

def digitValue (c : Char) : Option Nat :=
  if '0' ≤ c ∧ c ≤ '9' then some (c.toNat - '0'.toNat) else none

def readTwo (s : List Char) (i : Nat) : Option Nat :=
  match s[i]?.bind digitValue, s[i + 1]?.bind digitValue with
  | some a, some b => some (10 * a + b)
  | _, _ => none

-- What follows the seconds and their fraction.
def isZone : List Char → Bool
  | [c] => c = 'Z'
  | [sign, h, h', colon, m, m'] =>
      (sign = '+' ∨ sign = '-') ∧ colon = ':' ∧ (readTwo [h, h'] 0).any (· < 24) ∧
        (readTwo [m, m'] 0).any (· < 60)
  | _ => false

def skipFraction : List Char → List Char
  | '.' :: c :: s => if (digitValue c).isSome then s.dropWhile fun c => (digitValue c).isSome
      else '.' :: c :: s
  | s => s

-- The texts that time.Time takes from JSON.
def valid (s : List Char) : Bool :=
  match readTwo s 0, readTwo s 2, readTwo s 5, readTwo s 8, readTwo s 11, readTwo s 14,
    readTwo s 17 with
  | some century, some year, some month, some day, some hour, some minute, some second =>
      s[4]? = some '-' ∧ s[7]? = some '-' ∧ s[10]? = some 'T' ∧ s[13]? = some ':' ∧
        s[16]? = some ':' ∧ (1 ≤ month ∧ month ≤ 12) ∧
        (1 ≤ day ∧ day ≤ daysIn (100 * century + year) month) ∧ hour < 24 ∧ minute < 60 ∧
        second < 60 ∧ isZone (skipFraction (s.drop 19))
  | _, _, _, _, _, _, _ => false

@[simp] theorem digitValue_digit {n : Nat} (h : n < 10) : digitValue (digit n) = some n := by
  have hall : ∀ n < 10, digitValue (digit n) = some n := by decide
  exact hall n h

theorem readTwo_eq {s : List Char} {i n : Nat} (h : n < 100)
    (hhigh : s[i]? = some (digit (n / 10))) (hlow : s[i + 1]? = some (digit (n % 10))) :
    readTwo s i = some n := by
  have h10 : n / 10 < 10 := by omega
  have h1 : n % 10 < 10 := by omega
  simp only [readTwo, hhigh, hlow, Option.bind_some, digitValue_digit h10, digitValue_digit h1]
  congr 1
  omega

theorem skipFraction_fraction {n : Nat} (h : n < 1000000) :
    skipFraction (fraction n ++ "+00:00".toList) = "+00:00".toList := by
  by_cases hn : n = 0
  · subst hn
    rfl
  · have hstop : (digitValue '+').isSome = false := by decide
    simp (disch := omega) [fraction, hn, two, skipFraction, List.dropWhile_cons, hstop]

theorem daysIn_le (year month : Nat) : daysIn year month ≤ 31 := by
  simp only [daysIn]
  split_ifs <;> omega

-- A time written by one side is read by the other.
theorem valid_isoformat (t : Datetime) : valid (isoformat t) = true := by
  have hday := Nat.le_trans t.day_mem.2 (daysIn_le t.year t.month)
  have hyear := t.year_lt
  have hmonth := t.month_mem
  have hhour := t.hour_lt
  have hminute := t.minute_lt
  have hsecond := t.second_lt
  have hrest := skipFraction_fraction t.microsecond_lt
  have hzone : isZone "+00:00".toList = true := by decide
  have hcentury : 100 * (t.year / 100) + t.year % 100 = t.year := by omega
  rw [valid, readTwo_eq (n := t.year / 100) (by omega) rfl rfl,
    readTwo_eq (n := t.year % 100) (by omega) rfl rfl,
    readTwo_eq (n := t.month) (by omega) rfl rfl, readTwo_eq (n := t.day) (by omega) rfl rfl,
    readTwo_eq (n := t.hour) (by omega) rfl rfl, readTwo_eq (n := t.minute) (by omega) rfl rfl,
    readTwo_eq (n := t.second) (by omega) rfl rfl]
  have hdrop : (isoformat t).drop 19 = fraction t.microsecond ++ "+00:00".toList := rfl
  simp only [hcentury, hdrop, hrest, hzone, decide_eq_true_eq]
  exact ⟨rfl, rfl, rfl, rfl, rfl, t.month_mem, t.day_mem, hhour, hminute, hsecond, trivial⟩

end Rfc3339

end Ccp.Lib
