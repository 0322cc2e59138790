import Ccp.Uuid
import Mathlib.Algebra.Order.Group.Int
import Mathlib.Data.List.Basic

namespace Ccp.Worker

namespace JobContext

-- A record of the logging module, with its message.
structure LogRecord where
  levelno : ℤ
  message : Str
deriving DecidableEq

def INFO : ℤ := 20

def ERROR : ℤ := 40

-- A part of a job's output or error text, by where it comes from.
inductive Chunk
  | direct (text : Str)
  | logged (message : Str)
deriving DecidableEq

def Chunk.text : Chunk → Str
  | .direct text => text
  | .logged message => message

def Chunk.message? : Chunk → Option Str
  | .direct _ => none
  | .logged message => some message

structure Job where
  intCode : ℤ
  statusCode : Str
  output : List Chunk
  error : List Chunk
deriving DecidableEq

def Job.writeOutput (j : Job) (c : Chunk) : Job := { j with output := j.output ++ [c] }

def Job.writeError (j : Job) (c : Chunk) : Job := { j with error := j.error ++ [c] }

-- A code of zero leaves the one that is there.
def Job.setStatus (j : Job) (code : ℤ) (statusCode : Str) : Job :=
  { j with intCode := if code = 0 then j.intCode else code, statusCode := statusCode }

def Job.getStdout (j : Job) : Str := (j.output.map Chunk.text).flatten

-- The logged messages of a text.
def messages (chunks : List Chunk) : List Str := chunks.filterMap Chunk.message?

-- JobLogHandler: one record of the loop of flush.
def flushRecord (j : Job) (r : LogRecord) : Job :=
  if r.levelno ≥ ERROR then j.writeError (.logged r.message) else j.writeOutput (.logged r.message)

-- The job and the buffer of its handler.
structure Handler where
  job : Job
  buffer : List LogRecord
deriving DecidableEq

def Handler.flush (h : Handler) : Handler := ⟨h.buffer.foldl flushRecord h.job, []⟩

-- The capacity that JobContext gives its handler.
def capacity : ℕ := 100

-- emit of BufferingHandler.
def Handler.emit (h : Handler) (r : LogRecord) : Handler :=
  if (h.buffer ++ [r]).length ≥ capacity then Handler.flush { h with buffer := h.buffer ++ [r] }
  else { h with buffer := h.buffer ++ [r] }

-- What a script does inside the block.
inductive Action
  | log (r : LogRecord)
  | writeOutput (text : Str)
  | writeError (text : Str)
  | setStatus (code : ℤ) (statusCode : Str)
deriving DecidableEq

-- The logger hands a record on when it has the level of the handler.
def act (h : Handler) : Action → Handler
  | .log r => if r.levelno ≥ INFO then h.emit r else h
  | .writeOutput text => { h with job := h.job.writeOutput (.direct text) }
  | .writeError text => { h with job := h.job.writeError (.direct text) }
  | .setStatus code statusCode => { h with job := h.job.setStatus code statusCode }

inductive Ending
  | normal
  -- an Exception, its text and its traceback
  | exception (text traceback : Str)
  -- what is raised is no Exception, and goes on
  | other
deriving DecidableEq

def leave (j : Job) : Ending → Job
  | .normal => j
  | .exception text traceback =>
      ((j.writeError (.direct text)).writeError (.direct traceback)).setStatus 1 "error".toList
  | .other => j

-- The job after the block. The handler is detached with what its buffer has.
def jobContext (j : Job) (actions : List Action) (ending : Ending) : Job :=
  leave (actions.foldl act ⟨j, []⟩).job ending

-- The messages of the block that the handler gets.
def recordsOf (actions : List Action) : List LogRecord :=
  actions.filterMap fun
    | .log r => if r.levelno ≥ INFO then some r else none
    | _ => none

def below (records : List LogRecord) : List Str :=
  (records.filter fun r => r.levelno < ERROR).map LogRecord.message

def errors (records : List LogRecord) : List Str :=
  (records.filter fun r => ERROR ≤ r.levelno).map LogRecord.message

-- All messages of a block reach the job, each of them once and in order.
structure Delivered (j : Job) (actions : List Action) (ending : Ending) : Prop where
  output : messages (jobContext j actions ending).output =
    messages j.output ++ below (recordsOf actions)
  error : messages (jobContext j actions ending).error =
    messages j.error ++ errors (recordsOf actions)

section Buffer

variable {j : Job} {h : Handler} {records : List LogRecord} {actions : List Action}

@[simp] theorem messages_append (chunks chunks' : List Chunk) :
    messages (chunks ++ chunks') = messages chunks ++ messages chunks' := List.filterMap_append

theorem below_append (records records' : List LogRecord) :
    below (records ++ records') = below records ++ below records' := by
  rw [below, List.filter_append, List.map_append]
  rfl

theorem errors_append (records records' : List LogRecord) :
    errors (records ++ records') = errors records ++ errors records' := by
  rw [errors, List.filter_append, List.map_append]
  rfl

theorem length_below_add_errors (records : List LogRecord) :
    (below records).length + (errors records).length = records.length := by
  induction records with
  | nil => rfl
  | cons r records ih =>
      simp only [below, errors, List.length_map] at ih ⊢
      rcases lt_or_ge r.levelno ERROR with hr | hr
      · simp only [List.filter_cons, hr, not_le.mpr hr, decide_true, decide_false, if_true,
          Bool.false_eq_true, if_false, List.length_cons]
        omega
      · simp only [List.filter_cons, hr, not_lt.mpr hr, decide_true, decide_false, if_true,
          Bool.false_eq_true, if_false, List.length_cons]
        omega

-- What a job has of some records, after what it had before.
structure Has (j : Job) (records : List LogRecord) (j' : Job) : Prop where
  output : messages j'.output = messages j.output ++ below records
  error : messages j'.error = messages j.error ++ errors records

theorem has_nil (j : Job) : Has j [] j := ⟨(List.append_nil _).symm, (List.append_nil _).symm⟩

theorem Has.trans {j' j'' : Job} {records' : List LogRecord} (h : Has j records j')
    (h' : Has j' records' j'') : Has j (records ++ records') j'' where
  output := by rw [h'.output, h.output, below_append, List.append_assoc]
  error := by rw [h'.error, h.error, errors_append, List.append_assoc]

theorem has_flushRecord (j : Job) (r : LogRecord) : Has j [r] (flushRecord j r) := by
  unfold flushRecord
  split_ifs with hr
  · have hbelow : below [r] = [] := by simp [below, not_lt.mpr hr]
    have herrors : errors [r] = [r.message] := by simp [errors, hr]
    exact ⟨by rw [hbelow, List.append_nil]; rfl, by rw [herrors]; exact messages_append _ _⟩
  · have hbelow : below [r] = [r.message] := by simp [below, not_le.mp hr]
    have herrors : errors [r] = [] := by simp [errors, hr]
    exact ⟨by rw [hbelow]; exact messages_append _ _, by rw [herrors, List.append_nil]; rfl⟩

theorem has_foldl_flushRecord (j : Job) (records : List LogRecord) :
    Has j records (records.foldl flushRecord j) := by
  induction records generalizing j with
  | nil => exact has_nil j
  | cons r records ih => exact (has_flushRecord j r).trans (ih (flushRecord j r))

-- Every record that was handed on is with the job or in the buffer, and the job gets them
-- by full buffers.
structure Inv (j : Job) (records : List LogRecord) (h : Handler) : Prop where
  split : ∃ flushed, records = flushed ++ h.buffer ∧ flushed.length % capacity = 0 ∧ Has j flushed h.job
  room : h.buffer.length < capacity

theorem inv_begin (j : Job) : Inv j [] ⟨j, []⟩ := ⟨⟨[], rfl, rfl, has_nil j⟩, Nat.succ_pos 99⟩

theorem inv_emit (hinv : Inv j records h) (r : LogRecord) : Inv j (records ++ [r]) (h.emit r) := by
  obtain ⟨⟨flushed, hrecords, hlen, hhas⟩, hroom⟩ := hinv
  unfold Handler.emit
  split_ifs with hfull
  · refine ⟨⟨records ++ [r], (List.append_nil _).symm, ?_, ?_⟩, Nat.succ_pos 99⟩
    · simp only [List.length_append, List.length_singleton, hrecords, capacity] at hfull hroom hlen ⊢
      omega
    · rw [hrecords, List.append_assoc]
      exact hhas.trans (has_foldl_flushRecord h.job (h.buffer ++ [r]))
  · exact ⟨⟨flushed, by rw [hrecords, List.append_assoc], hlen, hhas⟩, not_le.mp hfull⟩

-- What is not logged is no message.
theorem Inv.congr {h' : Handler} (hinv : Inv j records h) (hbuffer : h'.buffer = h.buffer)
    (hout : messages h'.job.output = messages h.job.output)
    (herr : messages h'.job.error = messages h.job.error) : Inv j records h' := by
  obtain ⟨⟨flushed, hrecords, hlen, hhas⟩, hroom⟩ := hinv
  exact ⟨⟨flushed, by rw [hbuffer, hrecords], hlen, hout.trans hhas.output, herr.trans hhas.error⟩,
    by rw [hbuffer]; exact hroom⟩

theorem recordsOf_cons (action : Action) (actions : List Action) :
    recordsOf (action :: actions) = recordsOf [action] ++ recordsOf actions := by
  rw [← List.singleton_append, recordsOf, List.filterMap_append]
  rfl

theorem inv_act (hinv : Inv j records h) (action : Action) :
    Inv j (records ++ recordsOf [action]) (act h action) := by
  cases action with
  | log r =>
      by_cases hr : r.levelno ≥ INFO
      · have hrecords : recordsOf [Action.log r] = [r] := by simp [recordsOf, hr]
        rw [hrecords, act, if_pos hr]
        exact inv_emit hinv r
      · have hrecords : recordsOf [Action.log r] = [] := by simp [recordsOf, hr]
        rw [hrecords, act, if_neg hr, List.append_nil]
        exact hinv
  | writeOutput text =>
      exact (List.append_nil records).symm ▸ hinv.congr rfl (by simp [act, Job.writeOutput, messages,
        Chunk.message?]) rfl
  | writeError text =>
      exact (List.append_nil records).symm ▸ hinv.congr rfl rfl (by simp [act, Job.writeError, messages,
        Chunk.message?])
  | setStatus code statusCode => exact (List.append_nil records).symm ▸ hinv.congr rfl rfl rfl

theorem inv_foldl_act (hinv : Inv j records h) (actions : List Action) :
    Inv j (records ++ recordsOf actions) (actions.foldl act h) := by
  induction actions generalizing h records with
  | nil => rw [recordsOf, List.filterMap_nil, List.append_nil]; exact hinv
  | cons action actions ih =>
      rw [recordsOf_cons, ← List.append_assoc]
      exact ih (inv_act hinv action)

theorem messages_leave (j : Job) (ending : Ending) :
    messages (leave j ending).output = messages j.output ∧
      messages (leave j ending).error = messages j.error := by
  cases ending with
  | exception text traceback =>
      simp [leave, Job.writeError, Job.setStatus, messages, Chunk.message?]
  | _ => exact ⟨rfl, rfl⟩

end Buffer

section Delivered

variable {j : Job} {actions : List Action} {ending : Ending}

-- What the job gets: the messages up to the last full buffer.
theorem has_jobContext (j : Job) (actions : List Action) (ending : Ending) :
    ∃ flushed lost, recordsOf actions = flushed ++ lost ∧
      lost.length = (recordsOf actions).length % capacity ∧
      Has j flushed (jobContext j actions ending) := by
  obtain ⟨⟨flushed, hrecords, hlen, hhas⟩, hroom⟩ := inv_foldl_act (inv_begin j) actions
  obtain ⟨hout, herr⟩ := messages_leave (actions.foldl act ⟨j, []⟩).job ending
  rw [List.nil_append] at hrecords
  refine ⟨flushed, _, hrecords, ?_, hout.trans hhas.output, herr.trans hhas.error⟩
  rw [hrecords, List.length_append, Nat.add_mod, hlen, Nat.zero_add, Nat.mod_mod,
    Nat.mod_eq_of_lt hroom]

-- The messages all reach the job exactly where they fill the buffer a whole number of times.
theorem delivered_iff :
    Delivered j actions ending ↔ (recordsOf actions).length % 100 = 0 := by
  obtain ⟨flushed, lost, hrecords, hlen, hhas⟩ := has_jobContext j actions ending
  change lost.length = (recordsOf actions).length % 100 at hlen
  rw [← hlen, List.length_eq_zero_iff]
  constructor
  · rintro ⟨hout, herr⟩
    rw [hhas.output, hrecords, below_append] at hout
    rw [hhas.error, hrecords, errors_append] at herr
    have hbelow : below lost = [] := by simpa using hout
    have herrors : errors lost = [] := by simpa using herr
    have hcount := length_below_add_errors lost
    rw [hbelow, herrors] at hcount
    exact List.length_eq_zero_iff.mp hcount.symm
  · rintro rfl
    rw [List.append_nil] at hrecords
    exact ⟨hrecords ▸ hhas.output, hrecords ▸ hhas.error⟩

end Delivered

def fresh : Job := ⟨0, [], [], []⟩

-- A script that logs once.
theorem one_message_lost :
    ¬ Delivered fresh [.log ⟨20, "Moved".toList⟩] .normal ∧
      (jobContext fresh [.log ⟨20, "Moved".toList⟩] .normal).getStdout = [] :=
  ⟨fun h => absurd h.output (by decide), rfl⟩

end JobContext

end Ccp.Worker
