import Ccp.Lib.Text
import Ccp.Replacement.Files
import Ccp.Worker.MetadataCSV

namespace Ccp

open Lib Worker

namespace ReplacementDict

-- Each key is replaced in the text that the keys before it have left.
def replace (rd : ReplacementDict) (s : Str) : Str := replaceEach s rd

-- A blank before each run of capital letters of ASCII, and then before each capital letter that small
-- ones follow.

def upper (c : Char) : Bool := 'A' ≤ c ∧ c ≤ 'Z'

def lower (c : Char) : Bool := 'a' ≤ c ∧ c ≤ 'z'

def spaceRuns : Bool → Str → Str
  | _, [] => []
  | inRun, c :: s => if upper c && !inRun then ' ' :: c :: spaceRuns true s else c :: spaceRuns (upper c) s

def spaceWords : Str → Str
  | [] => []
  | c :: s => if upper c && (s.head?.any lower) then ' ' :: c :: spaceWords s else c :: spaceWords s

def optname (key : Str) : Str :=
  let terms := ((spaceWords (spaceRuns false ((key.drop 1).dropLast))).splitOnP isSpace).filter (· ≠ [])
  (['-'].intercalate terms).map Char.toLower

def toGnuOptions (rd : ReplacementDict) : List Str :=
  rd.map fun item => "--".toList ++ optname item.1 ++ '=' :: item.2

end ReplacementDict

namespace Worker.Transcoder

inductive ScriptType
  | command
  | bashScript
  | pythonScript
  | asIs
deriving DecidableEq

-- A command of the format policy with those that verify its output and give the detail of its event.
inductive FPCommand
  | mk (command : Str) (scriptType : ScriptType) (outputLocation : Option Str)
      (verificationCommand eventDetailCommand : Option FPCommand)

-- The object that is made of it, with its own output location.
inductive Command
  | mk (command : Str) (type : ScriptType) (outputLocation : Option Str)
      (verificationCommand eventDetailCommand : Option Command)

namespace Command

def outputLocation : Command → Option Str
  | mk _ _ outputLocation _ _ => outputLocation

def verificationCommand : Command → Option Command
  | mk _ _ _ verificationCommand _ => verificationCommand

def eventDetailCommand : Command → Option Command
  | mk _ _ _ _ eventDetailCommand => eventDetailCommand

end Command

def outputLocationKey : Str := "%outputLocation%".toList

-- The location with what the dictionary puts in, unless it is None or empty.
def located (rd : ReplacementDict) : Option Str → Option Str
  | none => none
  | some [] => none
  | some (c :: path) => some (ReplacementDict.replace rd (c :: path))

def addLocation (rd : ReplacementDict) : Option Str → ReplacementDict
  | none => rd
  | some path => Dict.set rd outputLocationKey path

-- All constructors write to the one dictionary.
mutual

def init : FPCommand → ReplacementDict → Command × ReplacementDict
  | .mk command type out verification eventDetail, rd =>
      let own := located rd out
      let verified := initOption verification (addLocation rd own)
      let detailed := initOption eventDetail verified.2
      (.mk command type own verified.1 detailed.1, detailed.2)

def initOption : Option FPCommand → ReplacementDict → Option Command × ReplacementDict
  | none, rd => (none, rd)
  | some command, rd =>
      let made := init command rd
      (some made.1, made.2)

end

-- What executeOrRun is given.
structure Request where
  type : ScriptType
  command : Str
  args : List Str

def request (rd : ReplacementDict) (command : Str) : ScriptType → Request
  | .command => ⟨.command, ReplacementDict.replace rd command, []⟩
  | .bashScript => ⟨.bashScript, ReplacementDict.replace rd command, []⟩
  | .pythonScript => ⟨.pythonScript, command, ReplacementDict.toGnuOptions rd⟩
  | .asIs => ⟨.asIs, command, ReplacementDict.toGnuOptions rd⟩

inductive Step
  | verification
  | eventDetail
deriving DecidableEq

-- A command that was run: its own output location, and the one that it found in the dictionary.
structure Seen where
  own : Option Str
  found : Option Str

-- What execute returns, with the codes that it got on the way and the commands that were run.
structure Result where
  exitCode : ℤ
  command : ℤ
  verification : Option ℤ
  eventDetail : Option ℤ
  callback : Option ℤ
  seen : List Seen

-- A command is run once at most, so its code is known by its place and what is run.
section Execute

variable (run : List Step → Request → ℤ) (rd : ReplacementDict)

-- The code after a nested command that may not be there or not have been run.
def after (code : ℤ) (nested : Option Result) : ℤ := (nested.map Result.exitCode).getD code

-- The code that the callback leaves, where it is called.
def callbackCode (onSuccess : Option ℤ) (code : ℤ) : Option ℤ := if code = 0 then onSuccess else none

mutual

-- A nested command has no callback.
def execute (place : List Step) (onSuccess : Option ℤ) : Command → Result
  | .mk command type own verification eventDetail =>
      let code := run place (request rd command type)
      let verified := if code = 0 then executeOption (place ++ [.verification]) verification else none
      let code' := after code verified
      let detailed := if code' = 0 then executeOption (place ++ [.eventDetail]) eventDetail else none
      let called := callbackCode onSuccess code'
      ⟨called.getD code', code, verified.map Result.exitCode, detailed.map Result.exitCode, called,
        ⟨own, Dict.get? rd outputLocationKey⟩ :: (verified.toList ++ detailed.toList).flatMap Result.seen⟩

def executeOption (place : List Step) : Option Command → Option Result
  | none => none
  | some command => some (execute place none command)

end

end Execute

-- Command(...).execute() of a command of the format policy.
def executeCommand (run : List Step → Request → ℤ) (onSuccess : Option ℤ) (rd : ReplacementDict)
    (command : FPCommand) : Result :=
  execute run (init command rd).2 [] onSuccess (init command rd).1

-- A nested command that is there has been run and has returned 0.
def Succeeded (nested : Option Command) (code : Option ℤ) : Prop := nested.isSome = true → code = some 0

-- The result is that of all that was run, the callback comes last, and each command finds its own
-- output location.
structure Contract (command : Command) (r : Result) : Prop where
  returns : r.exitCode = 0 ↔ r.command = 0 ∧ Succeeded command.verificationCommand r.verification ∧
    Succeeded command.eventDetailCommand r.eventDetail ∧ r.callback.getD 0 = 0
  callback : r.callback.isSome = true → r.command = 0 ∧ Succeeded command.verificationCommand r.verification
  outputLocation : ∀ s ∈ r.seen, ∀ own, s.own = some own → s.found = some own

section Condition

variable (run : List Step → Request → ℤ) (rd : ReplacementDict)

-- The command returns 0 and so does its verification command, in the same sense.
mutual

def passes (place : List Step) : Command → Bool
  | .mk command type _ verification _ =>
      run place (request rd command type) = 0 ∧ passesOption (place ++ [.verification]) verification = true

def passesOption (place : List Step) : Option Command → Bool
  | none => true
  | some command => passes place command

end

-- The output locations of the commands that are run.
mutual

def reached (place : List Step) : Command → List (Option Str)
  | .mk command type own verification eventDetail =>
      own :: ((if run place (request rd command type) = 0 then
          reachedOption (place ++ [.verification]) verification else []) ++
        if run place (request rd command type) = 0 ∧ passesOption run rd (place ++ [.verification]) verification then
          reachedOption (place ++ [.eventDetail]) eventDetail else [])

def reachedOption (place : List Step) : Option Command → List (Option Str)
  | none => []
  | some command => reached place command

end

end Condition

-- All output locations, in the order of the constructors.
mutual

def locations : Command → List Str
  | .mk _ _ own verification eventDetail =>
      own.toList ++ locationsOption verification ++ locationsOption eventDetail

def locationsOption : Option Command → List Str
  | none => []
  | some command => locations command

end

-- An event detail command that is run passes, unless the callback marks the command as failed, and each
-- command that is run and has an output location has the one that was written last.
structure Clear (run : List Step → Request → ℤ) (onSuccess : Option ℤ) (rd : ReplacementDict)
    (command : Command) : Prop where
  eventDetail : passes run rd [] command = true → onSuccess.getD 0 = 0 →
    passesOption run rd [.eventDetail] command.eventDetailCommand = true
  outputLocation : ∀ own, some own ∈ reached run rd [] command → (locations command).getLast? = some own

-- What is written last stays.

theorem get?_addLocation (rd : ReplacementDict) (own : Option Str) :
    Dict.get? (addLocation rd own) outputLocationKey = own.or (Dict.get? rd outputLocationKey) := by
  cases own with
  | none => rfl
  | some path => rw [addLocation, Dict.get?_set, if_pos rfl, Option.some_or]

theorem getLast?_append_or (l l' : List Str) (d : Option Str) :
    (l ++ l').getLast?.or d = l'.getLast?.or (l.getLast?.or d) := by
  rw [List.getLast?_append, Option.or_assoc]

mutual

theorem get?_init (command : FPCommand) (rd : ReplacementDict) :
    Dict.get? (init command rd).2 outputLocationKey =
      (locations (init command rd).1).getLast?.or (Dict.get? rd outputLocationKey) := by
  cases command with
  | mk command type out verification eventDetail =>
      rw [init]
      simp only [locations]
      rw [get?_initOption eventDetail, get?_initOption verification, get?_addLocation, getLast?_append_or,
        getLast?_append_or]
      cases located rd out with
      | none => rfl
      | some own => rfl

theorem get?_initOption (command : Option FPCommand) (rd : ReplacementDict) :
    Dict.get? (initOption command rd).2 outputLocationKey =
      (locationsOption (initOption command rd).1).getLast?.or (Dict.get? rd outputLocationKey) := by
  cases command with
  | none => rfl
  | some command => exact get?_init command rd

end

section Run

variable {run : List Step → Request → ℤ} {rd : ReplacementDict}

-- The code after the verification command.
theorem after_eq_zero_iff {code : ℤ} {nested : Option Result} {passed : Bool}
    (h : after 0 nested = 0 ↔ passed = true) :
    after code (if code = 0 then nested else none) = 0 ↔ code = 0 ∧ passed = true := by
  by_cases hcode : code = 0
  · rw [if_pos hcode, hcode, h]
    simp
  · rw [if_neg hcode]
    simp [after, hcode]

-- Without a callback.
mutual

theorem execute_eq_zero_iff (place : List Step) (command : Command) :
    (execute run rd place none command).exitCode = 0 ↔ passes run rd place command = true := by
  cases command with
  | mk command type own verification eventDetail =>
      have hnone (code : ℤ) : (callbackCode none code).getD code = code := by
        rw [callbackCode]
        split_ifs <;> rfl
      have hcode := @after_eq_zero_iff (run place (request rd command type)) _ _
        (executeOption_eq_zero_iff (place ++ [.verification]) verification)
      rw [execute, passes, decide_eq_true_eq]
      simp only [hnone]
      exact hcode

theorem executeOption_eq_zero_iff (place : List Step) (command : Option Command) :
    after 0 (executeOption run rd place command) = 0 ↔ passesOption run rd place command = true := by
  cases command with
  | none => simp [executeOption, passesOption, after]
  | some command => exact execute_eq_zero_iff place command

end

mutual

theorem seen_execute (place : List Step) (onSuccess : Option ℤ) (command : Command) :
    (execute run rd place onSuccess command).seen =
      (reached run rd place command).map fun own => ⟨own, Dict.get? rd outputLocationKey⟩ := by
  cases command with
  | mk command type own verification eventDetail =>
      have hcode := @after_eq_zero_iff (run place (request rd command type)) _ _
        (@executeOption_eq_zero_iff run rd (place ++ [.verification]) verification)
      have hverified := seen_executeOption (place ++ [.verification]) verification
      have hdetailed := seen_executeOption (place ++ [.eventDetail]) eventDetail
      rw [execute, reached]
      simp only [hcode, List.map_cons, List.map_append, List.flatMap_append]
      congr 2
      · split_ifs
        · exact hverified
        · rfl
      · split_ifs
        · exact hdetailed
        · rfl

theorem seen_executeOption (place : List Step) (command : Option Command) :
    (executeOption run rd place command).toList.flatMap Result.seen =
      (reachedOption run rd place command).map fun own => ⟨own, Dict.get? rd outputLocationKey⟩ := by
  cases command with
  | none => rfl
  | some command =>
      rw [executeOption, reachedOption, ← seen_execute place none command]
      simp

end

-- Where the verification command is there, it has been run and has returned 0.
theorem succeeded_iff {code : ℤ} (hcode : code = 0) (place : List Step) (nested : Option Command) :
    Succeeded nested ((if code = 0 then executeOption run rd place nested else none).map Result.exitCode) ↔
      passesOption run rd place nested = true := by
  rw [if_pos hcode]
  cases nested with
  | none => simp [Succeeded, passesOption]
  | some command =>
      rw [executeOption, passesOption, ← execute_eq_zero_iff]
      simp [Succeeded]

theorem returns_iff (onSuccess : Option ℤ) (command : Command) :
    ((execute run rd [] onSuccess command).exitCode = 0 ↔ (execute run rd [] onSuccess command).command = 0 ∧
        Succeeded command.verificationCommand (execute run rd [] onSuccess command).verification ∧
        Succeeded command.eventDetailCommand (execute run rd [] onSuccess command).eventDetail ∧
        (execute run rd [] onSuccess command).callback.getD 0 = 0) ↔
      (passes run rd [] command = true → onSuccess.getD 0 = 0 →
        passesOption run rd [.eventDetail] command.eventDetailCommand = true) := by
  cases command with
  | mk command type own verification eventDetail =>
      have hcode := @after_eq_zero_iff (run [] (request rd command type)) _ _
        (@executeOption_eq_zero_iff run rd [.verification] verification)
      have hpasses : passes run rd [] (.mk command type own verification eventDetail) = true ↔
          run [] (request rd command type) = 0 ∧ passesOption run rd [.verification] verification = true := by
        rw [passes]
        simp
      rw [execute, Command.verificationCommand, Command.eventDetailCommand, hpasses]
      simp only [List.nil_append]
      by_cases hpassed : run [] (request rd command type) = 0 ∧
          passesOption run rd [.verification] verification = true
      · have hzero := hcode.mpr hpassed
        have hverified := (@succeeded_iff run rd _ hpassed.1 [.verification] verification).mpr hpassed.2
        rw [succeeded_iff hzero [.eventDetail] eventDetail, hzero, callbackCode, if_pos rfl]
        simp only [hpassed.1, if_true] at hverified ⊢
        simp only [hverified, hpassed.2, true_and, and_self, forall_true_left]
        tauto
      · have hne : ¬ after (run [] (request rd command type))
            (if run [] (request rd command type) = 0 then executeOption run rd [.verification] verification
              else none) = 0 := fun h => hpassed (hcode.mp h)
        rw [callbackCode, if_neg hne, Option.getD_none]
        constructor
        · intro _ hpass
          exact absurd hpass hpassed
        · intro _
          constructor
          · intro hzero
            exact absurd hzero hne
          · rintro ⟨hzero, hverified, _⟩
            exact absurd ⟨hzero, (succeeded_iff hzero [.verification] verification).mp hverified⟩ hpassed

mutual

theorem mem_locations (place : List Step) (command : Command) {own : Str}
    (h : some own ∈ reached run rd place command) : own ∈ locations command := by
  cases command with
  | mk command type out verification eventDetail =>
      rw [reached, List.mem_cons, List.mem_append] at h
      rw [locations, List.mem_append, List.mem_append]
      rcases h with hown | hverified | hdetailed
      · exact Or.inl (Or.inl (by simp [← hown]))
      · split_ifs at hverified
        · exact Or.inl (Or.inr (mem_locationsOption _ verification hverified))
        · exact absurd hverified List.not_mem_nil
      · split_ifs at hdetailed
        · exact Or.inr (mem_locationsOption _ eventDetail hdetailed)
        · exact absurd hdetailed List.not_mem_nil

theorem mem_locationsOption (place : List Step) (command : Option Command) {own : Str}
    (h : some own ∈ reachedOption run rd place command) : own ∈ locationsOption command := by
  cases command with
  | none => exact absurd h List.not_mem_nil
  | some command => exact mem_locations place command h

end

-- The callback is called where the command and its verification have returned 0.
theorem callback_after (onSuccess : Option ℤ) (command : Command)
    (h : (execute run rd [] onSuccess command).callback.isSome = true) :
    (execute run rd [] onSuccess command).command = 0 ∧
      Succeeded command.verificationCommand (execute run rd [] onSuccess command).verification := by
  cases command with
  | mk command type own verification eventDetail =>
      have hcode := @after_eq_zero_iff (run [] (request rd command type)) _ _
        (@executeOption_eq_zero_iff run rd [.verification] verification)
      rw [execute] at h ⊢
      simp only [List.nil_append] at h ⊢
      by_cases hzero : after (run [] (request rd command type))
          (if run [] (request rd command type) = 0 then executeOption run rd [.verification] verification
            else none) = 0
      · obtain ⟨hcommand, hpassed⟩ := hcode.mp hzero
        exact ⟨hcommand, (succeeded_iff hcommand [.verification] verification).mpr hpassed⟩
      · rw [callbackCode, if_neg hzero] at h
        cases h

theorem executed_iff (run : List Step → Request → ℤ) (onSuccess : Option ℤ) (rd : ReplacementDict)
    (command : FPCommand) :
    Contract (init command rd).1 (executeCommand run onSuccess rd command) ↔
      Clear run onSuccess (init command rd).2 (init command rd).1 := by
  have hwritten := get?_init command rd
  have hseen := @seen_execute run (init command rd).2 [] onSuccess (init command rd).1
  constructor
  · intro h
    refine ⟨(returns_iff onSuccess _).mp h.returns, fun own hown => ?_⟩
    have hmem : (⟨some own, Dict.get? (init command rd).2 outputLocationKey⟩ : Seen) ∈
        (executeCommand run onSuccess rd command).seen := by
      rw [executeCommand, hseen]
      exact List.mem_map.mpr ⟨some own, hown, rfl⟩
    have hfound := h.outputLocation _ hmem own rfl
    have hne := List.ne_nil_of_mem (mem_locations [] _ hown)
    obtain ⟨last, hlast⟩ := Option.ne_none_iff_exists'.mp fun hnone => hne (List.getLast?_eq_none_iff.mp hnone)
    rw [hwritten, hlast] at hfound
    rw [hlast, ← hfound]
    rfl
  · intro h
    refine ⟨(returns_iff onSuccess _).mpr h.eventDetail, callback_after onSuccess _, fun s hs own hown => ?_⟩
    rw [executeCommand, hseen] at hs
    obtain ⟨own', hown', rfl⟩ := List.mem_map.mp hs
    obtain rfl : own' = some own := hown
    rw [hwritten, h.outputLocation own hown']
    rfl

end Run

-- A command with a place for its output, and the command that tells about it.

def makeCopy (eventDetail : FPCommand) : FPCommand :=
  .mk "cp %fileFullName% %outputLocation%".toList .command (some "%outputFilePath%.tif".toList) none (some eventDetail)

def version : FPCommand := .mk "convert --version".toList .command none none none

def copyDict : ReplacementDict := [("%outputFilePath%".toList, "/out/a".toList)]

def detailFails : List Step → Request → ℤ := fun place _ => if place = [.eventDetail] then 1 else 0

-- An event detail command that fails is not noticed.
theorem eventDetail_ignored :
    (executeCommand detailFails none copyDict (makeCopy version)).eventDetail = some 1 ∧
      ¬ Contract (init (makeCopy version) copyDict).1
        (executeCommand detailFails none copyDict (makeCopy version)) := by
  refine ⟨by decide, fun h => ?_⟩
  have hcode : (executeCommand detailFails none copyDict (makeCopy version)).exitCode = 0 := by decide
  have hdetail := (h.returns.mp hcode).2.2.1 rfl
  exact absurd hdetail (by decide)

end Worker.Transcoder

end Ccp
