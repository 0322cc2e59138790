import Ccp.Lib.PosixPath
import Ccp.Lib.Printf
import Ccp.Lib.Shlex
import Ccp.Worker.FileOperations
import Mathlib.Data.List.Flatten
import Mathlib.Data.List.Perm.Subperm

namespace Ccp.Worker.ExtractZipped

open Lib

-- The exit code of a subprocess with what it has written.
structure Result where
  retcode : Int
  stdOut : Str
  stdErr : Str
deriving DecidableEq

section Launch

-- Popen starts a program with its arguments.
variable (popen : List Str → Result)

-- A command that is a text is split first.
def launchSubProcess (command : Str) : Result :=
  match Shlex.split command with
  | .ok arguments => popen arguments
  | .error _ => ⟨-1, "Execution failed:".toList, [' '].intercalate (command.map fun c => [c])⟩

end Launch

section Extract

-- What repr and ascii make of a text, and the current directory.
variable (shown : Char → Str → Str) (cwd : Str)

def isTar (target : Str) : Bool :=
  (PosixPath.splitext target).2 = ".tgz".toList || (PosixPath.splitext target).2 = ".gz".toList

def parentDir (destinationDirectory : Str) : Str :=
  PosixPath.abspath cwd (PosixPath.join destinationDirectory "..".toList)

def unzipCommand (target destinationDirectory : Str) : Str :=
  "/usr/bin/7z x -bd -o\"".toList ++ destinationDirectory ++ "\" \"".toList ++ target ++ "\" ".toList

-- The target is a part of the text that the percent sign formats.
def untarCommand (target parent : Str) : Option Str :=
  Printf.format shown ("tar zxvf ".toList ++ target ++ " --directory=\"%s\"".toList) parent

-- With nothing where the formatting raises an error.
def command (target destinationDirectory : Str) : Option Str :=
  if isTar target then untarCommand shown target (parentDir cwd destinationDirectory)
  else some (unzipCommand target destinationDirectory)

def extract (popen : List Str → Result) (target destinationDirectory : Str) : Option Int :=
  (command shown cwd target destinationDirectory).map fun text => (launchSubProcess popen text).retcode

end Extract

section Contract

variable (shown : Char → Str → Str) (cwd : Str)

-- The argument that says where to extract.
def directoryArgument (target destinationDirectory : Str) : Str :=
  if isTar target then "--directory=".toList ++ parentDir cwd destinationDirectory
  else "-o".toList ++ destinationDirectory

-- The subprocess has the target and the directory for two of its arguments.
structure Contract (target destinationDirectory : Str) : Prop where
  arguments : ∃ text argv, command shown cwd target destinationDirectory = some text ∧
    Shlex.split text = .ok argv ∧
    List.Subperm [target, directoryArgument cwd target destinationDirectory] argv

-- What the two ways of building the command leave as it is.
def Clear (target destinationDirectory : Str) : Prop :=
  if isTar target then
    Shlex.Word target ∧ '%' ∉ target ∧ Shlex.Plain (parentDir cwd destinationDirectory)
  else Shlex.Plain target ∧ Shlex.Plain destinationDirectory

end Contract

section Count

theorem count_flatten_le {l l' : List Str} (h : List.Subperm l l') (c : Char) :
    l.flatten.count c ≤ l'.flatten.count c := by
  obtain ⟨l'', hperm, hsub⟩ := h
  rw [← hperm.flatten.count_eq c]
  exact (List.Sublist.flatten hsub).count_le c

-- What the two arguments take of a character that is not in the text before the path.
theorem count_arguments {target start path : Str} {argv : List Str} {c : Char} (hstart : c ∉ start)
    (h : List.Subperm [target, start ++ path] argv) :
    target.count c + path.count c ≤ argv.flatten.count c := by
  have hle := count_flatten_le h c
  simp only [List.flatten_cons, List.flatten_nil, List.append_nil, List.count_append,
    List.count_eq_zero.mpr hstart, Nat.zero_add] at hle
  exact hle

end Count

section Unzip

variable {target destinationDirectory : Str} {argv : List Str}

theorem word_7z : Shlex.Word "/usr/bin/7z".toList := Shlex.word_of_all (by decide) (by decide)

theorem word_x : Shlex.Word "x".toList := Shlex.word_of_all (by decide) (by decide)

theorem word_bd : Shlex.Word "-bd".toList := Shlex.word_of_all (by decide) (by decide)

theorem word_o : Shlex.Word "-o".toList := Shlex.word_of_all (by decide) (by decide)

theorem split_unzipCommand (target destinationDirectory : Str) :
    Shlex.split (unzipCommand target destinationDirectory) =
      (["/usr/bin/7z".toList, "x".toList, "-bd".toList] ++ ·) <$>
        Shlex.scan (.quote '"') "-o".toList false
          (destinationDirectory ++ '"' :: ' ' :: '"' :: (target ++ '"' :: [' '])) := by
  have hstart : "/usr/bin/7z x -bd -o\"".toList = "/usr/bin/7z".toList ++ ' ' :: ("x".toList ++ ' ' ::
      ("-bd".toList ++ ' ' :: ("-o".toList ++ ['"']))) := by decide
  have hmiddle : "\" \"".toList = ['"', ' ', '"'] := by decide
  have hend : "\" ".toList = ['"', ' '] := by decide
  unfold unzipCommand
  rw [Shlex.split, hstart, hmiddle, hend]
  simp only [List.append_assoc, List.cons_append, List.nil_append]
  rw [Shlex.scan_word_gap word_7z, Shlex.scan_word_gap word_x, Shlex.scan_word_gap word_bd,
    Shlex.scan_word_open word_o, ← comp_map, ← comp_map]
  exact congrArg (· <$> _) (funext fun l => rfl)

theorem count_unzipCommand {c : Char} (hc : c = '\\' ∨ c = '\'') :
    (unzipCommand target destinationDirectory).count c = target.count c + destinationDirectory.count c := by
  have hstart : "/usr/bin/7z x -bd -o\"".toList.count c = 0 := by rcases hc with rfl | rfl <;> decide
  have hmiddle : "\" \"".toList.count c = 0 := by rcases hc with rfl | rfl <;> decide
  have hend : "\" ".toList.count c = 0 := by rcases hc with rfl | rfl <;> decide
  unfold unzipCommand
  rw [List.count_append, List.count_append, List.count_append, List.count_append, hstart, hmiddle, hend]
  exact (congrArg (· + _) (Nat.zero_add _)).trans (Nat.add_comm _ _)

theorem split_of_plain (htarget : Shlex.Plain target) (hdest : Shlex.Plain destinationDirectory) :
    Shlex.split (unzipCommand target destinationDirectory) = .ok ["/usr/bin/7z".toList, "x".toList,
      "-bd".toList, "-o".toList ++ destinationDirectory, target] := by
  rw [split_unzipCommand, Shlex.scan_quoted_gap hdest, Shlex.scan_open, Shlex.scan_quoted_gap htarget]
  rfl

theorem unzip_iff : (∃ argv, Shlex.split (unzipCommand target destinationDirectory) = .ok argv ∧
      List.Subperm [target, "-o".toList ++ destinationDirectory] argv) ↔
    Shlex.Plain target ∧ Shlex.Plain destinationDirectory := by
  constructor
  · rintro ⟨argv, hsplit, hsub⟩
    -- no quotation mark of the paths is left, as none can be kept by another mark
    have hquote : argv.flatten.count '"' ≤ 0 := by
      refine Shlex.count_quote_le hsplit (.inl rfl) fun c hc => ?_
      have hstart : c ∉ "-o".toList := by rcases hc with rfl | rfl <;> decide
      have hle := count_arguments hstart hsub
      rw [count_unzipCommand hc]
      simpa [Shlex.pending] using hle
    have hno := count_arguments (by decide) hsub |>.trans hquote
    have htarget : '"' ∉ target := List.count_eq_zero.mp (by omega)
    have hdest : '"' ∉ destinationDirectory := List.count_eq_zero.mp (by omega)
    -- and no backslash may be lost
    have hslash := count_arguments (c := '\\') (by decide) hsub
    rw [split_unzipCommand] at hsplit
    obtain ⟨rest, hrest, rfl⟩ := Shlex.map_ok_iff.mp hsplit
    have hstart (l : List Str) : (["/usr/bin/7z".toList, "x".toList, "-bd".toList] ++ l).flatten.count '\\' =
        l.flatten.count '\\' := by
      rw [List.flatten_append, List.count_append]
      exact Nat.zero_add _
    rw [hstart] at hslash
    have hplainDest : Shlex.Plain destinationDirectory := by
      by_contra hplain
      have hlt := Shlex.count_lt_of_quoted _ _ _ _ hdest hplain hrest
      simp at hlt
      omega
    refine ⟨?_, hplainDest⟩
    by_contra hplain
    rw [Shlex.scan_quoted_gap hplainDest, Shlex.scan_open] at hrest
    obtain ⟨rest', hrest', rfl⟩ := Shlex.map_ok_iff.mp hrest
    have hlt := Shlex.count_lt_of_quoted _ _ _ _ htarget hplain hrest'
    rw [List.flatten_cons, List.count_append] at hslash
    simp at hlt hslash
    omega
  · rintro ⟨htarget, hdest⟩
    refine ⟨_, split_of_plain htarget hdest, ?_⟩
    refine (List.Perm.swap _ _ _).subperm.trans (List.Sublist.subperm ?_)
    exact List.sublist_append_right ["/usr/bin/7z".toList, "x".toList, "-bd".toList] _

end Unzip

section Untar

variable {shown : Char → Str → Str} {target parent text : Str} {argv : List Str}

-- The option after the target, before and after the formatting.
def optionTemplate : Str := " --directory=\"%s\"".toList

def optionText (parent : Str) : Str := " --directory=\"".toList ++ parent ++ ['"']

theorem render_option (arg : Option Str) :
    Printf.render shown arg optionTemplate = arg.map optionText := by
  have htemplate : optionTemplate = " --directory=\"".toList ++ '%' :: ['s', '"'] := by decide
  have hspecifier : Printf.specifier ['s', '"'] = some (⟨[], none, none, 's'⟩, ['"']) := rfl
  have hstart : '%' ∉ " --directory=\"".toList := by decide
  rw [htemplate, Printf.render_append_of_notMem hstart, Printf.render_convert hspecifier (by decide)]
  cases arg with
  | none => rfl
  | some a =>
      have hconvert : Printf.convert shown ⟨[], none, none, 's'⟩ a = some a := by
        rw [Printf.convert, if_pos rfl]
        simp [Printf.pad, Printf.cut]
      have hend : Printf.render shown none ['"'] = some ['"'] := by
        rw [Printf.render_cons (by decide), Printf.render_nil]
        rfl
      rw [Option.bind_some, hconvert, Option.bind_some, hend, Option.map_some, Option.map_some,
        Option.map_some]
      unfold optionText
      rw [List.append_assoc]

def untarText (target parent : Str) : Str := "tar zxvf ".toList ++ (target ++ optionText parent)

theorem untarCommand_map (shown : Char → Str → Str) (target parent : Str) :
    untarCommand shown target parent =
      (Printf.render shown (some parent) (target ++ optionTemplate)).map ("tar zxvf ".toList ++ ·) := by
  have hstart : '%' ∉ "tar zxvf ".toList := by decide
  rw [← Printf.render_append_of_notMem hstart, ← List.append_assoc]
  rfl

-- The formatting leaves the target as it is, or with a percent sign less.
theorem untarCommand_eq (h : untarCommand shown target parent = some text) :
    ∃ t, text = untarText t parent ∧ (t = target ∧ '%' ∉ target ∨ t.count '%' < target.count '%') := by
  have htemplate : optionTemplate = [' ', '-', '-'] ++ 'd' :: "irectory=\"%s\"".toList := by decide
  have hall : ([' ', '-', '-'].all fun c => Printf.converts c = false) = true := by decide
  have hno : ∀ c ∈ [' ', '-', '-'], Printf.converts c = false :=
    fun c hc => of_decide_eq_true (List.all_eq_true.mp hall c hc)
  rw [untarCommand_map] at h
  obtain ⟨out, hout, rfl⟩ := Option.map_eq_some_iff.mp h
  rw [htemplate] at hout
  obtain ⟨t, rfl, ht⟩ := Printf.render_append hno (by decide) (by decide)
    (htemplate ▸ render_option none) (htemplate ▸ render_option (some parent)) hout
  exact ⟨t, rfl, ht⟩

theorem untarCommand_of_notMem (shown : Char → Str → Str) (parent : Str) (h : '%' ∉ target) :
    untarCommand shown target parent = some (untarText target parent) := by
  rw [untarCommand_map, Printf.render_append_of_notMem h, render_option]
  rfl

theorem count_optionText {c : Char} (hc : c = '\\' ∨ c = '\'' ∨ c = '%') :
    (optionText parent).count c = parent.count c := by
  have hoption : " --directory=\"".toList.count c = 0 := by rcases hc with rfl | rfl | rfl <;> decide
  have hend : ['"'].count c = 0 := by rcases hc with rfl | rfl | rfl <;> decide
  unfold optionText
  rw [List.count_append, List.count_append, hoption, hend]
  exact Nat.zero_add _

theorem count_untarText {c : Char} (hc : c = '\\' ∨ c = '\'' ∨ c = '%') :
    (untarText target parent).count c = target.count c + parent.count c := by
  have hstart : "tar zxvf ".toList.count c = 0 := by rcases hc with rfl | rfl | rfl <;> decide
  unfold untarText
  rw [List.count_append, List.count_append, hstart, count_optionText hc]
  exact Nat.zero_add _

theorem word_tar : Shlex.Word "tar".toList := Shlex.word_of_all (by decide) (by decide)

theorem word_zxvf : Shlex.Word "zxvf".toList := Shlex.word_of_all (by decide) (by decide)

theorem split_untarText (target parent : Str) : Shlex.split (untarText target parent) =
    (["tar".toList, "zxvf".toList] ++ ·) <$> Shlex.scan .space [] false (target ++ optionText parent) := by
  have hstart : "tar zxvf ".toList = "tar".toList ++ ' ' :: ("zxvf".toList ++ [' ']) := by decide
  unfold untarText
  rw [Shlex.split, hstart]
  simp only [List.append_assoc, List.cons_append, List.nil_append]
  rw [Shlex.scan_word_gap word_tar, Shlex.scan_word_gap word_zxvf, ← comp_map]
  exact congrArg (· <$> _) (funext fun l => rfl)

theorem optionText_eq (parent : Str) : optionText parent =
    ' ' :: ("--directory=".toList ++ '"' :: (parent ++ ['"'])) := by
  have hstart : " --directory=\"".toList = ' ' :: ("--directory=".toList ++ ['"']) := by decide
  unfold optionText
  rw [hstart]
  simp only [List.append_assoc, List.cons_append, List.nil_append]

theorem scan_option (parent : Str) :
    Shlex.scan .space [] false ("--directory=".toList ++ '"' :: (parent ++ ['"'])) =
      Shlex.scan (.quote '"') "--directory=".toList false (parent ++ ['"']) :=
  Shlex.scan_word_open (Shlex.word_of_all (by decide) (by decide)) _

theorem split_untarText_of_word (htarget : Shlex.Word target) (hparent : Shlex.Plain parent) :
    Shlex.split (untarText target parent) =
      .ok ["tar".toList, "zxvf".toList, target, "--directory=".toList ++ parent] := by
  rw [split_untarText, optionText_eq, Shlex.scan_word_gap htarget, scan_option,
    Shlex.scan_quoted_end hparent]
  rfl

-- Of a target that is split into words none is the target, unless it is a word.
theorem word_of_subperm {words : List Str} (hwords : ∀ w ∈ words, Shlex.Word w)
    (h : List.Subperm [target, parent] (["tar".toList, "zxvf".toList] ++ (words ++ [parent]))) :
    Shlex.Word target := by
  rw [← List.append_assoc] at h
  have hsub : List.Subperm [target] (["tar".toList, "zxvf".toList] ++ words) :=
    (List.subperm_append_right [parent]).mp h
  rcases List.mem_append.mp (hsub.subset (List.mem_singleton_self target)) with hmem | hmem
  · have hown : ∀ w ∈ ["tar".toList, "zxvf".toList], Shlex.Word w := by
      intro w hw
      rcases List.mem_cons.mp hw with rfl | hw
      · exact word_tar
      · obtain rfl := List.mem_singleton.mp hw
        exact word_zxvf
    exact hown target hmem
  · exact hwords target hmem

section Split

variable {t : Str} (hsplit : Shlex.split (untarText t parent) = .ok argv)
  (hsub : List.Subperm [t, "--directory=".toList ++ parent] argv)

include hsub

theorem count_kept {c : Char} (hc : c = '\\' ∨ c = '\'') :
    t.count c + parent.count c ≤ argv.flatten.count c :=
  count_arguments (by rcases hc with rfl | rfl <;> decide) hsub

include hsplit

-- No quotation mark is left, as none can be kept by another mark.
theorem quote_notMem : '"' ∉ t ∧ '"' ∉ parent := by
  have hquote : argv.flatten.count '"' ≤ 0 := by
    refine Shlex.count_quote_le hsplit (.inl rfl) fun c hc => ?_
    rw [count_untarText (by rcases hc with rfl | rfl <;> simp)]
    simpa [Shlex.pending] using count_kept hsub hc
  have hno := (count_arguments (c := '"') (by decide) hsub).trans hquote
  exact ⟨List.count_eq_zero.mp (by omega), List.count_eq_zero.mp (by omega)⟩

theorem exists_rest : ∃ rest, argv = ["tar".toList, "zxvf".toList] ++ rest ∧
    Shlex.scan .space [] false (t ++ optionText parent) = .ok rest ∧
    ∀ c, c = '\\' ∨ c = '\'' → t.count c + parent.count c ≤ rest.flatten.count c := by
  have hkept (c : Char) (hc : c = '\\' ∨ c = '\'') := count_kept hsub hc
  rw [split_untarText] at hsplit
  obtain ⟨rest, hrest, rfl⟩ := Shlex.map_ok_iff.mp hsplit
  refine ⟨rest, rfl, hrest, fun c hc => ?_⟩
  have hzero : ["tar".toList, "zxvf".toList].flatten.count c = 0 := by rcases hc with rfl | rfl <;> decide
  have hle := hkept c hc
  rw [List.flatten_append, List.count_append, hzero, Nat.zero_add] at hle
  exact hle

theorem bare_of_split : ∀ c ∈ t, Shlex.isQuote c = false ∧ c ≠ '\\' := by
  obtain ⟨rest, -, hrest, hkept⟩ := exists_rest hsplit hsub
  have htarget := (quote_notMem hsplit hsub).1
  intro c hc
  by_contra hmark
  have hmark : ∃ d ∈ t, d = '\\' ∨ d = '\'' := by
    refine ⟨c, hc, ?_⟩
    by_contra hneither
    obtain ⟨hslash, hsingle⟩ := not_or.mp hneither
    have hdouble : c ≠ '"' := fun heq => htarget (heq ▸ hc)
    exact hmark ⟨decide_eq_false (not_or.mpr ⟨hsingle, hdouble⟩), hslash⟩
  obtain ⟨e, he, hlt⟩ := Shlex.count_lt_of_bare (.inl rfl) htarget hmark hrest
  have hle := hkept e he
  rw [count_optionText (by rcases he with rfl | rfl <;> simp), List.count_nil] at hlt
  omega

theorem word_of_split : Shlex.Word t ∧ Shlex.Plain parent := by
  obtain ⟨rest, rfl, hrest, hkept⟩ := exists_rest hsplit hsub
  have hparent := (quote_notMem hsplit hsub).2
  obtain ⟨words, hwords, hscan⟩ := Shlex.exists_words
    (r := "--directory=".toList ++ '"' :: (parent ++ ['"'])) (bare_of_split hsplit hsub) []
    fun c hc => absurd hc List.not_mem_nil
  rw [if_pos rfl] at hscan
  rw [optionText_eq, hscan, scan_option] at hrest
  obtain ⟨last, hlast, rfl⟩ := Shlex.map_ok_iff.mp hrest
  have hplain : Shlex.Plain parent := by
    by_contra hplain
    have hlt := Shlex.count_lt_of_quoted _ _ _ _ hparent hplain hlast
    have hzero : "--directory=".toList.count '\\' = 0 := by decide
    have hwordsZero : words.flatten.count '\\' = 0 := by
      refine List.count_eq_zero.mpr fun hmem => ?_
      obtain ⟨w, hw, hslash⟩ := List.mem_flatten.mp hmem
      have hbare := (hwords w hw).2 _ hslash
      exact absurd hbare (by decide)
    have hle := hkept '\\' (.inl rfl)
    rw [List.flatten_append, List.count_append, hwordsZero] at hle
    rw [hzero, List.count_nil] at hlt
    omega
  rw [Shlex.scan_quoted_end hplain] at hlast
  obtain rfl := Except.ok.inj hlast
  exact ⟨word_of_subperm hwords hsub, hplain⟩

end Split

theorem untar_iff : (∃ text argv, untarCommand shown target parent = some text ∧
      Shlex.split text = .ok argv ∧ List.Subperm [target, "--directory=".toList ++ parent] argv) ↔
    Shlex.Word target ∧ '%' ∉ target ∧ Shlex.Plain parent := by
  constructor
  · rintro ⟨text, argv, htext, hsplit, hsub⟩
    obtain ⟨t, rfl, ht⟩ := untarCommand_eq htext
    -- a percent sign that is lost is not made up for
    rcases ht with ⟨rfl, hnotMem⟩ | hlt
    · obtain ⟨hword, hplain⟩ := word_of_split hsplit hsub
      exact ⟨hword, hnotMem, hplain⟩
    · have hle := count_arguments (c := '%') (by decide) hsub
      have hin := Shlex.count_le hsplit '%'
      rw [count_untarText (.inr (.inr rfl))] at hin
      simp [Shlex.pending] at hin
      omega
  · rintro ⟨htarget, hnotMem, hparent⟩
    refine ⟨_, _, untarCommand_of_notMem shown parent hnotMem, split_untarText_of_word htarget hparent, ?_⟩
    exact (List.sublist_append_right ["tar".toList, "zxvf".toList] _).subperm

end Untar

-- Whether the target and the directory are two arguments of the subprocess.
theorem arguments_iff (shown : Char → Str → Str) (cwd target destinationDirectory : Str) :
    Contract shown cwd target destinationDirectory ↔ Clear cwd target destinationDirectory := by
  constructor
  · rintro ⟨text, argv, hcommand, hsplit, hsub⟩
    by_cases htar : isTar target = true
    · rw [command, if_pos htar] at hcommand
      rw [directoryArgument, if_pos htar] at hsub
      rw [Clear, if_pos htar]
      exact untar_iff.mp ⟨text, argv, hcommand, hsplit, hsub⟩
    · rw [command, if_neg htar] at hcommand
      rw [directoryArgument, if_neg htar] at hsub
      rw [Clear, if_neg htar]
      obtain rfl := Option.some.inj hcommand
      exact unzip_iff.mp ⟨argv, hsplit, hsub⟩
  · intro hclear
    by_cases htar : isTar target = true
    · rw [Clear, if_pos htar] at hclear
      obtain ⟨text, argv, hcommand, hsplit, hsub⟩ := (@untar_iff shown _ _).mpr hclear
      refine ⟨text, argv, ?_, hsplit, ?_⟩
      · rw [command, if_pos htar, hcommand]
      · rw [directoryArgument, if_pos htar]
        exact hsub
    · rw [Clear, if_neg htar] at hclear
      obtain ⟨argv, hsplit, hsub⟩ := unzip_iff.mpr hclear
      refine ⟨_, argv, ?_, hsplit, ?_⟩
      · rw [command, if_neg htar]
      · rw [directoryArgument, if_neg htar]
        exact hsub

-- The program that is started gets them.
theorem extract_of_contract {shown : Char → Str → Str} {cwd target destinationDirectory : Str}
    (h : Contract shown cwd target destinationDirectory) :
    ∃ argv, List.Subperm [target, directoryArgument cwd target destinationDirectory] argv ∧
      ∀ popen, extract shown cwd popen target destinationDirectory = some (popen argv).retcode := by
  obtain ⟨text, argv, hcommand, hsplit, hsub⟩ := h
  refine ⟨argv, hsub, fun popen => ?_⟩
  rw [extract, hcommand, Option.map_some, launchSubProcess, hsplit]

section Example

-- A tarball with a space in its name.
def spacedTarball : Str := "/p/a b.tgz".toList

theorem spaced_splits : isTar spacedTarball = true ∧
    (command (fun _ s => s) "/".toList spacedTarball "/p/a b".toList).map Shlex.split =
      some (.ok ["tar".toList, "zxvf".toList, "/p/a".toList, "b.tgz".toList, "--directory=/p".toList]) ∧
    ¬ Contract (fun _ s => s) "/".toList spacedTarball "/p/a b".toList := by
  have htar : isTar spacedTarball = true := by decide +kernel
  have hparent : parentDir "/".toList "/p/a b".toList = "/p".toList := by decide +kernel
  have hcommand : command (fun _ s => s) "/".toList spacedTarball "/p/a b".toList =
      some (untarText spacedTarball "/p".toList) := by
    rw [command, if_pos htar, hparent]
    exact untarCommand_of_notMem _ _ (by decide)
  have hsplit : Shlex.split (untarText spacedTarball "/p".toList) =
      .ok ["tar".toList, "zxvf".toList, "/p/a".toList, "b.tgz".toList, "--directory=/p".toList] := rfl
  refine ⟨htar, ?_, ?_⟩
  · rw [hcommand, Option.map_some, hsplit]
  · rintro ⟨text, argv, htext, hargv, hsub⟩
    obtain rfl := Option.some.inj (hcommand.symm.trans htext)
    obtain rfl := Except.ok.inj (hsplit.symm.trans hargv)
    have hmem := hsub.subset List.mem_cons_self
    revert hmem
    decide

end Example

end Ccp.Worker.ExtractZipped
