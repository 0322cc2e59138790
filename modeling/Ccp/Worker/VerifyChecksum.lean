import Ccp.Uuid
import Mathlib.Algebra.BigOperators.Group.List.Basic
import Mathlib.Algebra.Order.Ring.Int
import Mathlib.Data.Finset.Card

namespace Ccp.Worker.VerifyChecksum

-- The lines of a text, cut after each line feed, as getline gives them.
def lines : Str → List Str
  | [] => []
  | c :: s =>
      if c = '\n' then [] :: lines s
      else
        match lines s with
        | [] => [[c]]
        | l :: ls => (c :: l) :: ls

-- Universal newlines: what a file opened as text makes of a carriage return.
def universal : Str → Str
  | [] => []
  | '\r' :: '\n' :: s => '\n' :: universal s
  | '\r' :: s => '\n' :: universal s
  | c :: s => c :: universal s

def countLines (content : Str) : Nat := (lines (universal content)).length

-- HASHFILES_COMMANDS: checksum.md5 for md5sum, and so on.
inductive Algorithm
  | md5
  | sha1
  | sha256
  | sha512
deriving DecidableEq

def algorithms : List Algorithm := [.md5, .sha1, .sha256, .sha512]

inductive HashFile
  | absent
  -- there is something of that name, but no text to read
  | unreadable
  | text (content : Str)
deriving DecidableEq

-- How the call of a tool ends: with a return code, negative for a signal.
inductive Outcome
  | raised
  | exited (code : Int)
deriving DecidableEq

-- The entries of a checksum file: a name and a digest for each line that the tool
-- reads as one, comments are passed over.
def entries (parse : Str → Option (Str × Str)) (content : Str) : List (Str × Str) :=
  (lines content).filterMap parse

-- A transfer and its checksum files, with the tools that are run on them.
structure Transfer (F : Type) where
  objects : Finset F
  -- the files of the rows that are not removed
  rows : List F
  hashfile : Algorithm → HashFile
  -- the file that a name leads to from the objects directory
  resolve : Str → Option F
  digest : Algorithm → F → Option Str
  parse : Algorithm → Str → Option (Str × Str)
  tool : Algorithm → Str → Outcome
  -- whether the events of the files can be stored
  stores : Algorithm → Bool
  -- the tools compare the lines that they are given
  compares : ∀ a content, tool a content = .exited 0 → ∀ e ∈ entries (parse a) content,
    ∃ f, resolve e.1 = some f ∧ digest a f = some e.2

variable {F : Type} (t : Transfer F)

namespace Transfer

def compareHashes (a : Algorithm) (content : Str) : Outcome :=
  if countLines content ≠ t.objects.card then .exited 1 else t.tool a content

end Transfer

-- What the run does with one of the checksum files.
inductive Turn
  | skipped
  | raised
  | passed
  | failed (code : Int)
deriving DecidableEq

def Turn.code : Turn → Int
  | .failed code => code
  | _ => 0

namespace Transfer

def turn (a : Algorithm) : Turn :=
  match t.hashfile a with
  | .absent => .skipped
  | .unreadable => .raised
  | .text content =>
      match t.compareHashes a content with
      | .raised => .raised
      | .exited code =>
          if code ≠ 0 then .failed code else if t.stores a then .passed else .raised

-- The sum of the results and the events, a file and the checksum file of the pass.
def loop : List Algorithm → Int → List (F × Algorithm) → Option Int × List (F × Algorithm)
  | [], ret, events => (some ret, events)
  | a :: as, ret, events =>
      match t.turn a with
      | .skipped => loop as ret events
      | .raised => (none, events)
      | .passed => loop as ret (events ++ t.rows.map fun f => (f, a))
      | .failed code => loop as (ret + code) events

-- get_file_queryset raises where there are no rows.
def runHashsumCommands [DecidableEq F] : Option Int × List (F × Algorithm) :=
  if t.rows = [] then (none, []) else t.loop algorithms 0 []

-- JobContext makes an exception a status of 1.
def exitCode [DecidableEq F] : Int := t.runHashsumCommands.1.getD 1

def events [DecidableEq F] : List (F × Algorithm) := t.runHashsumCommands.2

-- The file is listed in the checksum file and has the digest that is there.
def Verified (a : Algorithm) (f : F) : Prop :=
  ∃ content, t.hashfile a = .text content ∧ ∃ e ∈ entries (t.parse a) content,
    t.resolve e.1 = some f ∧ t.digest a f = some e.2

-- What the exit code and the events stand for.
structure Verifies [DecidableEq F] : Prop where
  exit : t.exitCode = 0 → ∀ a, t.hashfile a ≠ .absent → ∀ f ∈ t.objects, t.Verified a f
  event : ∀ e ∈ t.events, t.Verified e.2 e.1

-- Each line that is counted names a file under objects, no two of them the same.
def OneToOne (a : Algorithm) : Prop :=
  ∀ content, t.hashfile a = .text content →
    (entries (t.parse a) content).length = countLines content ∧
      ((entries (t.parse a) content).map fun e => t.resolve e.1).Nodup ∧
      ∀ e ∈ entries (t.parse a) content, ∃ f ∈ t.objects, t.resolve e.1 = some f

-- The run gets to the checksum file, and it passes.
def Passes (a : Algorithm) : Prop :=
  t.rows ≠ [] ∧ t.turn a = .passed ∧
    ∃ front back, algorithms = front ++ a :: back ∧ ∀ b ∈ front, t.turn b ≠ .raised

-- The run comes to its end, and the codes of the checksum files that fail make up for each
-- other: the code of a tool that is ended by a signal is negative.
structure Cancels : Prop where
  rows : t.rows ≠ []
  ends : ∀ a, t.turn a ≠ .raised
  fails : ∃ a code, t.turn a = .failed code
  sum : (algorithms.map fun a => (t.turn a).code).sum = 0

-- The checksum files that fail list every object with its digest all the same.
def Complete : Prop := ∀ a code, t.turn a = .failed code → ∀ f ∈ t.objects, t.Verified a f

-- The checksum files that pass are lists of the objects, and so are the rows.
def Lists : Prop := ∀ a, t.Passes a → t.OneToOne a ∧ ∀ f ∈ t.rows, f ∈ t.objects

end Transfer

-- A carriage return makes no line go away.
theorem length_lines_cons (c : Char) (s : Str) :
    (lines (c :: s)).length = if c = '\n' then (lines s).length + 1 else max 1 (lines s).length := by
  by_cases hc : c = '\n'
  · simp [lines, hc]
  · rw [lines, if_neg hc, if_neg hc]
    cases lines s with
    | nil => rfl
    | cons l ls => simp

theorem length_lines_le_countLines (s : Str) : (lines s).length ≤ countLines s := by
  unfold countLines
  induction s using universal.induct with
  | case1 => exact le_rfl
  | case2 s ih =>
      rw [universal, length_lines_cons, length_lines_cons, length_lines_cons]
      simp only [Char.reduceEq, if_true, if_false]
      omega
  | case3 s hs ih =>
      rw [universal]
      · rw [length_lines_cons, length_lines_cons]
        simp only [Char.reduceEq, if_true, if_false]
        omega
      · exact hs
  | case4 c s hc hs ih =>
      rw [universal]
      · rw [length_lines_cons, length_lines_cons]
        split_ifs
        · omega
        · omega
      · exact hc
      · exact hs

-- As many names as there are files: all of them are there exactly when each name
-- is a file and no file is there twice.
theorem covers_iff [DecidableEq F] {objects : Finset F} {named : List (Option F)}
    (h : named.length ≤ objects.card) :
    (∀ f ∈ objects, some f ∈ named) ↔
      named.length = objects.card ∧ named.Nodup ∧ ∀ x ∈ named, ∃ f ∈ objects, x = some f := by
  have himage : (objects.image some).card = objects.card :=
    Finset.card_image_of_injective _ (Option.some_injective F)
  have hle := List.toFinset_card_le named
  constructor
  · intro hall
    have hsub : objects.image some ⊆ named.toFinset := by
      intro x hx
      obtain ⟨f, hf, rfl⟩ := Finset.mem_image.mp hx
      exact List.mem_toFinset.mpr (hall f hf)
    have heq := Finset.eq_of_subset_of_card_le hsub (by omega)
    have hcard : named.toFinset.card = named.length := by
      rw [← heq] at hle ⊢
      omega
    refine ⟨by rw [← hcard, ← heq, himage], ?_, fun x hx => ?_⟩
    · exact Multiset.coe_nodup.mp (Multiset.toFinset_card_eq_card_iff_nodup.mp hcard)
    · rw [← List.mem_toFinset, ← heq] at hx
      obtain ⟨f, hf, rfl⟩ := Finset.mem_image.mp hx
      exact ⟨f, hf, rfl⟩
  · rintro ⟨hlen, hnodup, hfiles⟩ f hf
    have hsub : named.toFinset ⊆ objects.image some := by
      intro x hx
      obtain ⟨f, hf, rfl⟩ := hfiles x (List.mem_toFinset.mp hx)
      exact Finset.mem_image_of_mem some hf
    have hcard := List.toFinset_card_of_nodup hnodup
    have heq := Finset.eq_of_subset_of_card_le hsub (by omega)
    rw [← List.mem_toFinset, heq]
    exact Finset.mem_image_of_mem some hf

namespace Transfer

variable {t} {a : Algorithm} {f : F}

theorem turn_cases (a : Algorithm) :
    t.hashfile a = .absent ∧ t.turn a = .skipped ∨ t.turn a = .raised ∨
      ∃ content, t.hashfile a = .text content ∧
        (countLines content = t.objects.card ∧ t.tool a content = .exited 0 ∧ t.turn a = .passed ∨
          ∃ code ≠ 0, (code = 1 ∨ t.tool a content = .exited code) ∧ t.turn a = .failed code) := by
  unfold turn
  cases hfile : t.hashfile a with
  | absent => exact Or.inl ⟨rfl, rfl⟩
  | unreadable => exact Or.inr (Or.inl rfl)
  | text content =>
      simp only
      by_cases hcount : countLines content ≠ t.objects.card
      · have hcompare : t.compareHashes a content = .exited 1 := if_pos hcount
        rw [hcompare]
        exact Or.inr (Or.inr ⟨content, rfl, Or.inr ⟨1, by simp, Or.inl rfl, rfl⟩⟩)
      · have hcompare : t.compareHashes a content = t.tool a content := if_neg hcount
        rw [hcompare]
        cases htool : t.tool a content with
        | raised => exact Or.inr (Or.inl rfl)
        | exited code =>
            simp only
            split_ifs with hcode hstores
            · exact Or.inr (Or.inr ⟨content, rfl, Or.inr ⟨code, hcode, Or.inr htool, rfl⟩⟩)
            · obtain rfl := not_not.mp hcode
              exact Or.inr (Or.inr ⟨content, rfl, Or.inl ⟨not_not.mp hcount, htool, rfl⟩⟩)
            · exact Or.inr (Or.inl rfl)

theorem turn_passed (h : t.turn a = .passed) : ∃ content, t.hashfile a = .text content ∧
    countLines content = t.objects.card ∧ t.tool a content = .exited 0 := by
  rcases t.turn_cases a with ⟨-, hturn⟩ | hturn | ⟨content, hfile, ⟨hcount, htool, -⟩ | hfailed⟩
  · simp [h] at hturn
  · simp [h] at hturn
  · exact ⟨content, hfile, hcount, htool⟩
  · obtain ⟨code, -, -, hturn⟩ := hfailed
    simp [h] at hturn

theorem passed_or_failed (hfile : t.hashfile a ≠ .absent) (hraised : t.turn a ≠ .raised) :
    t.turn a = .passed ∨ ∃ code, t.turn a = .failed code := by
  rcases t.turn_cases a with ⟨habsent, -⟩ | hturn | ⟨content, -, ⟨-, -, hturn⟩ | hfailed⟩
  · exact absurd habsent hfile
  · exact absurd hturn hraised
  · exact Or.inl hturn
  · obtain ⟨code, -, -, hturn⟩ := hfailed
    exact Or.inr ⟨code, hturn⟩

theorem hashfile_ne_absent_of_failed {code : Int} (h : t.turn a = .failed code) : t.hashfile a ≠ .absent := by
  intro habsent
  simp [turn, habsent] at h

theorem loop_ret_iff {as : List Algorithm} {ret r : Int} {events : List (F × Algorithm)} :
    (t.loop as ret events).1 = some r ↔
      (∀ a ∈ as, t.turn a ≠ .raised) ∧ r = ret + (as.map fun a => (t.turn a).code).sum := by
  induction as generalizing ret events with
  | nil => simp [loop, eq_comm]
  | cons a as ih =>
      cases hturn : t.turn a with
      | raised => simp [loop, hturn]
      | skipped => simp [loop, hturn, ih, Turn.code]
      | passed => simp [loop, hturn, ih, Turn.code]
      | failed code => simp [loop, hturn, ih, Turn.code, add_assoc]

theorem mem_loop_events {as : List Algorithm} {ret : Int} {events : List (F × Algorithm)}
    {e : F × Algorithm} :
    e ∈ (t.loop as ret events).2 ↔ e ∈ events ∨ e.1 ∈ t.rows ∧ t.turn e.2 = .passed ∧
      ∃ front back, as = front ++ e.2 :: back ∧ ∀ b ∈ front, t.turn b ≠ .raised := by
  induction as generalizing ret events with
  | nil => simp [loop]
  | cons a as ih =>
      -- the place of the checksum file is the head or further on
      have hcut : (∃ front back, a :: as = front ++ e.2 :: back ∧ ∀ b ∈ front, t.turn b ≠ .raised) ↔
          a = e.2 ∨ t.turn a ≠ .raised ∧
            ∃ front back, as = front ++ e.2 :: back ∧ ∀ b ∈ front, t.turn b ≠ .raised := by
        constructor
        · rintro ⟨front, back, heq, hfront⟩
          cases front with
          | nil => exact Or.inl (List.cons.inj heq).1
          | cons b front =>
              obtain ⟨rfl, hrest⟩ := List.cons.inj heq
              exact Or.inr ⟨hfront a List.mem_cons_self, front, back, hrest,
                fun b hb => hfront b (List.mem_cons_of_mem a hb)⟩
        · rintro (rfl | ⟨ha, front, back, rfl, hfront⟩)
          · exact ⟨[], as, rfl, by simp⟩
          · exact ⟨a :: front, back, rfl, by simpa using ⟨ha, hfront⟩⟩
      rw [hcut]
      cases hturn : t.turn a with
      | raised =>
          simp only [loop, hturn]
          grind
      | skipped =>
          simp only [loop, hturn, ih]
          grind
      | passed =>
          simp only [loop, hturn, ih]
          grind
      | failed code =>
          simp only [loop, hturn, ih]
          grind

variable [DecidableEq F]

theorem mem_events_iff {e : F × Algorithm} : e ∈ t.events ↔ e.1 ∈ t.rows ∧ t.Passes e.2 := by
  unfold events runHashsumCommands Passes
  split_ifs with hrows
  · simp [hrows]
  · rw [mem_loop_events]
    simp [hrows]

theorem mem_algorithms (a : Algorithm) : a ∈ algorithms := by
  cases a <;> decide

-- A zero of the whole run: there are rows, nothing is raised and the codes make no sum.
theorem exitCode_eq_zero_iff : t.exitCode = 0 ↔
    t.rows ≠ [] ∧ (∀ a, t.turn a ≠ .raised) ∧ (algorithms.map fun a => (t.turn a).code).sum = 0 := by
  unfold exitCode runHashsumCommands
  split_ifs with hrows
  · simp [hrows]
  · have hall : (∀ a ∈ algorithms, t.turn a ≠ .raised) ↔ ∀ a, t.turn a ≠ .raised :=
      ⟨fun h a => h a (mem_algorithms a), fun h a _ => h a⟩
    have hzero : (t.loop algorithms 0 []).1.getD 1 = 0 ↔ (t.loop algorithms 0 []).1 = some 0 := by
      cases (t.loop algorithms 0 []).1 <;> simp
    rw [hzero, loop_ret_iff, hall, zero_add, eq_comm]
    simp [hrows]

-- A checksum file that is there has passed then, or its code is made up for.
theorem passes_or_failed (h : t.exitCode = 0) (hfile : t.hashfile a ≠ .absent) :
    t.Passes a ∨ t.Cancels ∧ ∃ code, t.turn a = .failed code := by
  obtain ⟨hrows, hraised, hsum⟩ := exitCode_eq_zero_iff.mp h
  rcases passed_or_failed hfile (hraised a) with hpassed | ⟨code, hfailed⟩
  · obtain ⟨front, back, hcut⟩ := List.append_of_mem (mem_algorithms a)
    exact Or.inl ⟨hrows, hpassed, front, back, hcut, fun b _ => hraised b⟩
  · exact Or.inr ⟨⟨hrows, hraised, ⟨a, code, hfailed⟩, hsum⟩, code, hfailed⟩

-- On a checksum file that passes, to list all objects is to be one to one with them.
theorem verified_iff_oneToOne (h : t.turn a = .passed) :
    (∀ f ∈ t.objects, t.Verified a f) ↔ t.OneToOne a := by
  obtain ⟨content, hfile, hcount, htool⟩ := turn_passed h
  have hmatch := t.compares a content htool
  have hlen : ((entries (t.parse a) content).map fun e => t.resolve e.1).length ≤ t.objects.card := by
    rw [List.length_map, ← hcount]
    exact (List.length_filterMap_le _ _).trans (length_lines_le_countLines content)
  have hverified : ∀ f, t.Verified a f ↔
      some f ∈ (entries (t.parse a) content).map fun e => t.resolve e.1 := by
    intro f
    constructor
    · rintro ⟨content', hfile', e, he, hresolve, -⟩
      obtain rfl := HashFile.text.inj (hfile.symm.trans hfile')
      exact List.mem_map.mpr ⟨e, he, hresolve⟩
    · intro hmem
      obtain ⟨e, he, hresolve⟩ := List.mem_map.mp hmem
      obtain ⟨f', hf', hdigest⟩ := hmatch e he
      obtain rfl := Option.some.inj (hresolve.symm.trans hf')
      exact ⟨content, hfile, e, he, hresolve, hdigest⟩
  simp only [hverified, covers_iff hlen]
  unfold OneToOne
  constructor
  · rintro ⟨hlength, hnodup, hfiles⟩ content' hfile'
    obtain rfl := HashFile.text.inj (hfile.symm.trans hfile')
    refine ⟨by rw [hcount, ← hlength, List.length_map], hnodup, fun e he => ?_⟩
    exact hfiles _ (List.mem_map.mpr ⟨e, he, rfl⟩)
  · intro hone
    obtain ⟨hlength, hnodup, hfiles⟩ := hone content hfile
    refine ⟨by rw [List.length_map, hlength, hcount], hnodup, fun x hx => ?_⟩
    obtain ⟨e, he, rfl⟩ := List.mem_map.mp hx
    exact hfiles e he

omit [DecidableEq F] in
theorem mem_objects_of_verified (h : t.OneToOne a) (hf : t.Verified a f) : f ∈ t.objects := by
  obtain ⟨content, hfile, e, he, hresolve, -⟩ := hf
  obtain ⟨f', hf', hresolve'⟩ := (h content hfile).2.2 e he
  obtain rfl := Option.some.inj (hresolve.symm.trans hresolve')
  exact hf'

-- The run keeps its word where the lists are lists of the objects and no codes make up for
-- each other, or only those of files that are complete. Both have to be where each object has
-- a row.
theorem verifies_of_lists (t : Transfer F) :
    (t.Lists → (t.Cancels → t.Complete) → t.Verifies) ∧
      ((∀ f ∈ t.objects, f ∈ t.rows) → t.Verifies → t.Lists ∧ (t.Cancels → t.Complete)) := by
  constructor
  · intro hlists hcancels
    constructor
    · intro hexit a hfile
      rcases passes_or_failed hexit hfile with hpasses | ⟨hcancel, code, hfailed⟩
      · exact (verified_iff_oneToOne hpasses.2.1).mpr (hlists a hpasses).1
      · exact hcancels hcancel a code hfailed
    · intro e he
      obtain ⟨hrow, hpasses⟩ := mem_events_iff.mp he
      obtain ⟨hone, hrows⟩ := hlists e.2 hpasses
      exact (verified_iff_oneToOne hpasses.2.1).mpr hone e.1 (hrows e.1 hrow)
  · intro hobjects hverifies
    refine ⟨fun a hpasses => ?_, fun hcancel a code hfailed => ?_⟩
    · have hrow : ∀ f ∈ t.rows, t.Verified a f := fun f hf =>
        hverifies.event (f, a) (mem_events_iff.mpr ⟨hf, hpasses⟩)
      have hone := (verified_iff_oneToOne hpasses.2.1).mp fun f hf => hrow f (hobjects f hf)
      exact ⟨hone, fun f hf => mem_objects_of_verified hone (hrow f hf)⟩
    · have hexit := exitCode_eq_zero_iff.mpr ⟨hcancel.rows, hcancel.ends, hcancel.sum⟩
      exact hverifies.exit hexit a (hashfile_ne_absent_of_failed hfailed)

end Transfer

-- A line as the tools write it: the digest, a space, the mode and the name.
def checkLine (line : Str) : Option (Str × Str) :=
  let digest := line.takeWhile (· ≠ ' ')
  if line.head? = some '#' ∨ digest = [] ∨ digest = line then none
  else some (line.drop (digest.length + 2), digest)

-- Two objects with rows, and a file of MD5 sums.
def twoObjects (content : Str) : Transfer Str where
  objects := {"a".toList, "b".toList}
  rows := ["a".toList, "b".toList]
  hashfile := fun a => if a = .md5 then .text content else .absent
  resolve := some
  digest := fun _ f => some ('d' :: f)
  parse := fun _ => checkLine
  tool := fun _ content =>
    if entries checkLine content ≠ [] ∧
        ∀ e ∈ entries checkLine content, some ('d' :: e.1) = some e.2 then .exited 0
    else .exited 1
  stores := fun _ => true
  compares := by
    intro a content h e he
    split_ifs at h with hall
    · exact ⟨e.1, rfl, hall.2 e he⟩
    · simp at h

theorem verifies_twoObjects : (twoObjects "da  a\ndb  b\n".toList).Verifies := by
  refine (Transfer.verifies_of_lists _).1 ?_ fun hcancel => ?_
  · intro a hpasses
    obtain ⟨content, hfile, -⟩ := Transfer.turn_passed hpasses.2.1
    refine ⟨fun content' hfile' => ?_, by decide⟩
    have hmd5 : a = .md5 := by
      by_contra hne
      have habsent : (twoObjects "da  a\ndb  b\n".toList).hashfile a = .absent := if_neg hne
      rw [habsent] at hfile
      cases hfile
    subst hmd5
    obtain rfl : "da  a\ndb  b\n".toList = content' := HashFile.text.inj hfile'
    decide
  · obtain ⟨a, code, hfailed⟩ := hcancel.fails
    have hnone : ∀ a, (twoObjects "da  a\ndb  b\n".toList).turn a = .passed ∨
        (twoObjects "da  a\ndb  b\n".toList).turn a = .skipped := by
      intro a
      cases a <;> decide
    rcases hnone a with h | h
    · cases hfailed.symm.trans h
    · cases hfailed.symm.trans h

-- A file that is named twice makes up for one that is not named.
theorem not_verifies_repeated : ¬ (twoObjects "da  a\nda  a\n".toList).Verifies := by
  intro h
  have hevent : ("b".toList, Algorithm.md5) ∈ (twoObjects "da  a\nda  a\n".toList).events := by decide
  obtain ⟨content, hfile, e, he, hresolve, -⟩ := h.event _ hevent
  obtain rfl : "da  a\nda  a\n".toList = content := HashFile.text.inj hfile
  have hname : ∀ e ∈ entries checkLine "da  a\nda  a\n".toList, e.1 = "a".toList := by decide
  have hb : e.1 = "b".toList := Option.some.inj hresolve
  rw [hname e he] at hb
  exact absurd hb (by decide)

-- One result of 1 for the number of lines, and a second tool that is hung up.
def hungUp : Transfer Str :=
  { twoObjects [] with
    hashfile := fun a =>
      match a with
      | .md5 => .text []
      | .sha1 => .text "da  a\ndb  b\n".toList
      | _ => .absent
    tool := fun _ _ => .exited (-1)
    compares := by simp }

example : hungUp.exitCode = 0 := by decide

end Ccp.Worker.VerifyChecksum
