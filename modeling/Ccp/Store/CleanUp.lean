import Ccp.Lib.Table
import Ccp.Uuid
import Mathlib.Data.List.Forall2

namespace Ccp

open Lib Table

namespace CleanUp

-- The columns that the clean-up reads or writes; the others of a row are as they
-- are, and so is what the clock gives.
variable {α τ : Type}

structure Task (α : Type) where
  taskUUID : UUID
  jobuuid : UUID
  exitCode : Option Int
  stdError : Str
  other : α
deriving DecidableEq

structure Job (α : Type) where
  jobUUID : UUID
  currentStep : Int
  other : α
deriving DecidableEq

-- A row of Transfers or of SIPs.
structure PackageRow (α τ : Type) where
  id : UUID
  status : Nat
  completedAt : Option τ
  other : α
deriving DecidableEq

-- The tables, with the foreign key of Tasks.
structure Database (α τ : Type) where
  tasks : List (Task α)
  jobs : List (Job α)
  transfers : List (PackageRow α τ)
  sips : List (PackageRow α τ)
  foreign : ∀ t ∈ tasks, ∃ j ∈ jobs, j.jobUUID = t.jobuuid

def Job.Awaiting (j : Job α) : Prop := j.currentStep = 1

def Job.Executing (j : Job α) : Prop := j.currentStep = 3

def Task.Running (t : Task α) : Prop := t.exitCode = none

def PackageRow.Active (p : PackageRow α τ) : Prop := p.status = 0 ∨ p.status = 1

instance : DecidablePred (Job.Awaiting (α := α)) := fun _ => inferInstanceAs (Decidable (_ = _))

instance : DecidablePred (Job.Executing (α := α)) := fun _ => inferInstanceAs (Decidable (_ = _))

instance : DecidablePred (Task.Running (α := α)) := fun _ => inferInstanceAs (Decidable (_ = _))

instance : DecidablePred (PackageRow.Active (α := α) (τ := τ)) :=
  fun _ => inferInstanceAs (Decidable (_ ∨ _))

-- The task is one of a job that awaits.
def Task.OfAwaiting (jobs : List (Job α)) (t : Task α) : Prop := ∃ j ∈ jobs, j.Awaiting ∧ j.jobUUID = t.jobuuid

instance (jobs : List (Job α)) : DecidablePred (Task.OfAwaiting jobs) :=
  fun t => inferInstanceAs (Decidable (∃ j ∈ jobs, j.Awaiting ∧ j.jobUUID = t.jobuuid))

def Task.shutDown (t : Task α) : Task α :=
  { t with exitCode := some (-1), stdError := "MCP shut down while processing.".toList }

def Job.fail (j : Job α) : Job α := { j with currentStep := 4 }

def PackageRow.fail (now : τ) (p : PackageRow α τ) : PackageRow α τ :=
  { p with status := 4, completedAt := some now }

def cleanUpActiveTasks (db : Database α τ) : Option (Database α τ) :=
  some { db with
    tasks := updateWhere Task.Running Task.shutDown db.tasks
    foreign := by
      intro t ht
      obtain ⟨t₀, ht₀, rfl⟩ := mem_updateWhere.mp ht
      obtain ⟨j, hj, heq⟩ := db.foreign t₀ ht₀
      refine ⟨j, hj, ?_⟩
      split_ifs <;> exact heq }

def cleanUpActiveTransfers (now : τ) (db : Database α τ) : Option (Database α τ) :=
  some { db with transfers := updateWhere PackageRow.Active (PackageRow.fail now) db.transfers }

def cleanUpTasksWithAwaitingJobs (db : Database α τ) : Option (Database α τ) :=
  some { db with
    tasks := deleteWhere (Task.OfAwaiting db.jobs) db.tasks
    foreign := fun t ht => db.foreign t (mem_deleteWhere.mp ht).1 }

-- The foreign key refuses to let a job go that a task still refers to.
def cleanUpAwaitingJobs (db : Database α τ) : Option (Database α τ) :=
  if h : ∀ t ∈ db.tasks, ¬ Task.OfAwaiting db.jobs t then
    some { db with
      jobs := deleteWhere Job.Awaiting db.jobs
      foreign := by
        intro t ht
        obtain ⟨j, hj, heq⟩ := db.foreign t ht
        exact ⟨j, mem_deleteWhere.mpr ⟨hj, fun hawaits => h t ht ⟨j, hj, hawaits, heq⟩⟩, heq⟩ }
  else none

def cleanUpActiveSIPs (now : τ) (db : Database α τ) : Option (Database α τ) :=
  some { db with sips := updateWhere PackageRow.Active (PackageRow.fail now) db.sips }

def cleanUpActiveJobs (db : Database α τ) : Option (Database α τ) :=
  some { db with
    jobs := updateWhere Job.Executing Job.fail db.jobs
    foreign := by
      intro t ht
      obtain ⟨j, hj, heq⟩ := db.foreign t ht
      refine ⟨_, mem_updateWhere.mpr ⟨j, hj, rfl⟩, ?_⟩
      split_ifs <;> exact heq }

-- The statements in their order; each reads the clock for itself.
def statements (now now' : τ) : List (Database α τ → Option (Database α τ)) :=
  [cleanUpActiveTasks, cleanUpActiveTransfers now, cleanUpTasksWithAwaitingJobs, cleanUpAwaitingJobs,
    cleanUpActiveSIPs now', cleanUpActiveJobs]

-- One statement after the other, until one fails.
def exec (stmts : List (Database α τ → Option (Database α τ))) (db : Database α τ) :
    Option (Database α τ) :=
  stmts.foldlM (fun db stmt => stmt db) db

def removeTransientData (now now' : τ) (db : Database α τ) : Option (Database α τ) :=
  exec (statements now now') db

namespace Database

-- What a clean-up leaves of the tasks and the jobs.
def settledTasks (db : Database α τ) : List (Task α) :=
  updateWhere Task.Running Task.shutDown (deleteWhere (Task.OfAwaiting db.jobs) db.tasks)

def settledJobs (db : Database α τ) : List (Job α) :=
  updateWhere Job.Executing Job.fail (deleteWhere Job.Awaiting db.jobs)

end Database

-- The packages of two tables are the same, but that active ones may have failed.
def Closing (before now : List (PackageRow α τ)) : Prop :=
  List.Forall₂ (fun p p' => p' = p ∨ p.Active ∧ ∃ time, p' = p.fail time) before now

-- A state between two statements of a clean-up: it ends where the first one does.
structure Cleaning (db mid : Database α τ) : Prop where
  tasks : mid.settledTasks = db.settledTasks
  jobs : mid.settledJobs = db.settledJobs
  transfers : Closing db.transfers mid.transfers
  sips : Closing db.sips mid.sips

theorem Closing.refl (packages : List (PackageRow α τ)) : Closing packages packages :=
  List.forall₂_same.mpr fun _ _ => Or.inl rfl

theorem not_active_fail (now : τ) (p : PackageRow α τ) : ¬ (p.fail now).Active := by
  simp [PackageRow.Active, PackageRow.fail]

-- The status says what became of a row; it is active as long as it is the first one.
theorem Closing.updateWhere {before packages : List (PackageRow α τ)} (h : Closing before packages)
    (now : τ) : Closing before (updateWhere PackageRow.Active (PackageRow.fail now) packages) := by
  rw [Closing, Table.updateWhere, List.forall₂_map_right_iff]
  refine h.imp fun p p' hp => ?_
  rcases hp with rfl | ⟨hactive, time, rfl⟩
  · split_ifs with hactive
    · exact Or.inr ⟨hactive, now, rfl⟩
    · exact Or.inl rfl
  · rw [if_neg (not_active_fail time p)]
    exact Or.inr ⟨hactive, time, rfl⟩

theorem not_running_shutDown (t : Task α) (_ : t.Running) : ¬ t.shutDown.Running := by
  simp [Task.Running, Task.shutDown]

theorem not_executing_fail (j : Job α) (_ : j.Executing) : ¬ j.fail.Executing := by
  simp [Job.Executing, Job.fail]

theorem awaiting_fail_iff (j : Job α) (h : j.Executing) : j.fail.Awaiting ↔ j.Awaiting := by
  simp only [Job.Awaiting, Job.fail, Job.Executing] at h ⊢
  omega

theorem ofAwaiting_shutDown_iff (jobs : List (Job α)) (t : Task α) (_ : t.Running) :
    Task.OfAwaiting jobs t.shutDown ↔ Task.OfAwaiting jobs t := Iff.rfl

theorem cleaning_cleanUpActiveTasks {db mid next : Database α τ} (h : Cleaning db mid)
    (hnext : cleanUpActiveTasks mid = some next) : Cleaning db next := by
  obtain rfl := Option.some.inj hnext
  refine ⟨?_, h.jobs, h.transfers, h.sips⟩
  rw [← h.tasks, Database.settledTasks, Database.settledTasks]
  simp only
  rw [deleteWhere_updateWhere (ofAwaiting_shutDown_iff _),
    updateWhere_updateWhere not_running_shutDown]

theorem cleaning_cleanUpTasksWithAwaitingJobs {db mid next : Database α τ} (h : Cleaning db mid)
    (hnext : cleanUpTasksWithAwaitingJobs mid = some next) : Cleaning db next := by
  obtain rfl := Option.some.inj hnext
  refine ⟨?_, h.jobs, h.transfers, h.sips⟩
  rw [← h.tasks, Database.settledTasks, Database.settledTasks]
  simp only
  rw [deleteWhere_deleteWhere]

theorem cleaning_cleanUpAwaitingJobs {db mid next : Database α τ} (h : Cleaning db mid)
    (hnext : cleanUpAwaitingJobs mid = some next) : Cleaning db next := by
  unfold cleanUpAwaitingJobs at hnext
  split_ifs at hnext with hnone
  obtain rfl := Option.some.inj hnext
  refine ⟨?_, ?_, h.transfers, h.sips⟩
  · -- no task is left of a job that awaits, before and after
    have hnone' : ∀ t ∈ mid.tasks, ¬ Task.OfAwaiting (deleteWhere Job.Awaiting mid.jobs) t := by
      rintro t - ⟨j, hj, hawaits, -⟩
      exact not_of_mem_deleteWhere j hj hawaits
    rw [← h.tasks, Database.settledTasks, Database.settledTasks]
    simp only
    rw [deleteWhere_of_none hnone, deleteWhere_of_none hnone']
  · rw [← h.jobs, Database.settledJobs, Database.settledJobs]
    simp only
    rw [deleteWhere_deleteWhere]

theorem ofAwaiting_updateWhere_iff (jobs : List (Job α)) (t : Task α) :
    Task.OfAwaiting (updateWhere Job.Executing Job.fail jobs) t ↔ Task.OfAwaiting jobs t := by
  constructor
  · rintro ⟨j, hj, hawaits, heq⟩
    obtain ⟨j₀, hj₀, rfl⟩ := mem_updateWhere.mp hj
    split_ifs at hawaits heq with hexec
    · exact ⟨j₀, hj₀, (awaiting_fail_iff j₀ hexec).mp hawaits, heq⟩
    · exact ⟨j₀, hj₀, hawaits, heq⟩
  · rintro ⟨j, hj, hawaits, heq⟩
    refine ⟨j, mem_updateWhere.mpr ⟨j, hj, ?_⟩, hawaits, heq⟩
    rw [if_neg]
    simp only [Job.Awaiting, Job.Executing] at hawaits ⊢
    omega

theorem cleaning_cleanUpActiveJobs {db mid next : Database α τ} (h : Cleaning db mid)
    (hnext : cleanUpActiveJobs mid = some next) : Cleaning db next := by
  obtain rfl := Option.some.inj hnext
  refine ⟨?_, ?_, h.transfers, h.sips⟩
  · rw [← h.tasks, Database.settledTasks, Database.settledTasks]
    congr 1
    apply List.filter_congr
    intro t _
    simp only [ofAwaiting_updateWhere_iff]
  · rw [← h.jobs, Database.settledJobs, Database.settledJobs]
    simp only
    rw [deleteWhere_updateWhere awaiting_fail_iff, updateWhere_updateWhere not_executing_fail]

theorem cleaning_statement {db mid next : Database α τ} {now now' : τ}
    {stmt : Database α τ → Option (Database α τ)} (hstmt : stmt ∈ statements now now')
    (h : Cleaning db mid) (hnext : stmt mid = some next) : Cleaning db next := by
  simp only [statements, List.mem_cons, List.not_mem_nil, or_false] at hstmt
  rcases hstmt with rfl | rfl | rfl | rfl | rfl | rfl
  · exact cleaning_cleanUpActiveTasks h hnext
  · obtain rfl := Option.some.inj hnext
    exact ⟨h.tasks, h.jobs, h.transfers.updateWhere now, h.sips⟩
  · exact cleaning_cleanUpTasksWithAwaitingJobs h hnext
  · exact cleaning_cleanUpAwaitingJobs h hnext
  · obtain rfl := Option.some.inj hnext
    exact ⟨h.tasks, h.jobs, h.transfers, h.sips.updateWhere now'⟩
  · exact cleaning_cleanUpActiveJobs h hnext

theorem cleaning_exec {db mid final : Database α τ} {now now' : τ}
    {stmts : List (Database α τ → Option (Database α τ))}
    (hstmts : ∀ stmt ∈ stmts, stmt ∈ statements now now') (h : Cleaning db mid)
    (hexec : exec stmts mid = some final) : Cleaning db final := by
  induction stmts generalizing mid with
  | nil =>
      obtain rfl := Option.some.inj hexec
      exact h
  | cons stmt stmts ih =>
      obtain ⟨next, hnext, hrest⟩ := Option.bind_eq_some_iff.mp hexec
      exact ih (fun stmt' hmem => hstmts stmt' (List.mem_cons_of_mem stmt hmem))
        (cleaning_statement (hstmts stmt List.mem_cons_self) h hnext) hrest

-- No statement of a clean-up fails, whatever the database.
theorem removeTransientData_eq (db : Database α τ) (now now' : τ) :
    ∃ final, removeTransientData now now' db = some final ∧
      final.tasks = db.settledTasks ∧ final.jobs = db.settledJobs ∧
      final.transfers = updateWhere PackageRow.Active (PackageRow.fail now) db.transfers ∧
      final.sips = updateWhere PackageRow.Active (PackageRow.fail now') db.sips := by
  have hnone : ∀ t ∈ deleteWhere (Task.OfAwaiting db.jobs) (updateWhere Task.Running Task.shutDown
      db.tasks), ¬ Task.OfAwaiting db.jobs t := not_of_mem_deleteWhere
  simp only [removeTransientData, statements, exec, List.foldlM_cons, List.foldlM_nil,
    cleanUpActiveTasks, cleanUpActiveTransfers, cleanUpTasksWithAwaitingJobs, cleanUpAwaitingJobs,
    cleanUpActiveSIPs, cleanUpActiveJobs, Option.bind_eq_bind, Option.bind_some, dif_pos hnone]
  refine ⟨_, rfl, ?_, rfl, rfl, rfl⟩
  exact deleteWhere_updateWhere (ofAwaiting_shutDown_iff db.jobs)

theorem exec_append (stmts stmts' : List (Database α τ → Option (Database α τ)))
    (db : Database α τ) : exec (stmts ++ stmts') db = (exec stmts db).bind (exec stmts') := by
  simp only [exec, List.foldlM_append, Option.bind_eq_bind]
  rfl

theorem exists_exec_take (db : Database α τ) (now now' : τ) (k : Nat) :
    ∃ crashed, exec ((statements now now').take k) db = some crashed := by
  obtain ⟨final, hfinal, -⟩ := removeTransientData_eq db now now'
  rw [removeTransientData, ← List.take_append_drop k (statements now now'), exec_append] at hfinal
  obtain ⟨crashed, hcrashed, -⟩ := Option.bind_eq_some_iff.mp hfinal
  exact ⟨crashed, hcrashed⟩

-- All active packages have failed, at some time, and the others are as they were.
def Closed (before after : List (PackageRow α τ)) : Prop :=
  List.Forall₂ (fun p p' => if p.Active then ∃ time, p' = p.fail time else p' = p) before after

def PackageRow.untimed (p : PackageRow α τ) : PackageRow α τ := { p with completedAt := none }

theorem Closing.closed {before packages : List (PackageRow α τ)} (h : Closing before packages)
    (now : τ) : Closed before (Table.updateWhere PackageRow.Active (PackageRow.fail now) packages) := by
  rw [Closed, Table.updateWhere, List.forall₂_map_right_iff]
  refine h.imp fun p p' hp => ?_
  rcases hp with rfl | ⟨hactive, time, rfl⟩
  · by_cases hactive : p'.Active
    · rw [if_pos hactive, if_pos hactive]
      exact ⟨now, rfl⟩
    · rw [if_neg hactive, if_neg hactive]
  · rw [if_pos hactive, if_neg (not_active_fail time p)]
    exact ⟨time, rfl⟩

theorem Closed.untimed_eq {before after after' : List (PackageRow α τ)} (h : Closed before after)
    (h' : Closed before after') : after.map PackageRow.untimed = after'.map PackageRow.untimed := by
  induction h generalizing after' with
  | nil =>
      cases h'
      rfl
  | @cons p q before after hp _ ih =>
      cases h' with
      | @cons _ q' _ after' hp' hrest =>
          rw [List.map_cons, List.map_cons, ih hrest]
          congr 1
          by_cases hactive : p.Active
          · rw [if_pos hactive] at hp hp'
            obtain ⟨time, rfl⟩ := hp
            obtain ⟨time', rfl⟩ := hp'
            rfl
          · rw [if_neg hactive] at hp hp'
            rw [hp, hp']

-- The same tables, the times at which packages were completed aside.
def Database.Agrees (db db' : Database α τ) : Prop :=
  db.tasks = db'.tasks ∧ db.jobs = db'.jobs ∧
    db.transfers.map PackageRow.untimed = db'.transfers.map PackageRow.untimed ∧
    db.sips.map PackageRow.untimed = db'.sips.map PackageRow.untimed

-- Nothing is left that the processing engine would have to go on with.
structure Settled (db : Database α τ) : Prop where
  jobs : ∀ j ∈ db.jobs, ¬ j.Awaiting ∧ ¬ j.Executing
  transfers : ∀ p ∈ db.transfers, ¬ p.Active
  sips : ∀ p ∈ db.sips, ¬ p.Active
  tasks : ∀ t ∈ db.tasks, ¬ t.Running
  references : ∀ t ∈ db.tasks, ∃ j ∈ db.jobs, j.jobUUID = t.jobuuid

-- What has become of each row: a row that the clean-up is not about is as it was,
-- and no row is new.
structure Cleaned (db final : Database α τ) : Prop where
  tasks : final.tasks = db.settledTasks
  jobs : final.jobs = db.settledJobs
  transfers : Closed db.transfers final.transfers
  sips : Closed db.sips final.sips

theorem not_awaiting_settledJobs (db : Database α τ) :
    ∀ j ∈ db.settledJobs, ¬ j.Awaiting ∧ ¬ j.Executing := by
  intro j hj
  refine ⟨?_, not_of_mem_updateWhere not_executing_fail j hj⟩
  obtain ⟨j₀, hj₀, rfl⟩ := mem_updateWhere.mp hj
  have hnot := (mem_deleteWhere.mp hj₀).2
  split_ifs with hexec
  · rwa [awaiting_fail_iff j₀ hexec]
  · exact hnot

theorem removeTransientData_of_settled {db : Database α τ} (h : Settled db) (now now' : τ) :
    removeTransientData now now' db = some db := by
  obtain ⟨final, hfinal, htasks, hjobs, htransfers, hsips⟩ := removeTransientData_eq db now now'
  have hnone : ∀ t ∈ db.tasks, ¬ Task.OfAwaiting db.jobs t := by
    rintro t - ⟨j, hj, hawaits, -⟩
    exact (h.jobs j hj).1 hawaits
  rw [Database.settledTasks, deleteWhere_of_none hnone, updateWhere_of_none h.tasks] at htasks
  rw [Database.settledJobs, deleteWhere_of_none fun j hj => (h.jobs j hj).1,
    updateWhere_of_none fun j hj => (h.jobs j hj).2] at hjobs
  rw [updateWhere_of_none h.transfers] at htransfers
  rw [updateWhere_of_none h.sips] at hsips
  rw [hfinal]
  obtain ⟨tasks, jobs, transfers, sips, foreign⟩ := final
  obtain ⟨tasks', jobs', transfers', sips', foreign'⟩ := db
  simp only at htasks hjobs htransfers hsips
  subst htasks hjobs htransfers hsips
  rfl

theorem removeTransientData_cleaned {db crashed : Database α τ} (h : Cleaning db crashed)
    (now now' : τ) :
    ∃ final, removeTransientData now now' crashed = some final ∧ Cleaned db final ∧ Settled final := by
  obtain ⟨final, hfinal, htasks, hjobs, htransfers, hsips⟩ :=
    removeTransientData_eq crashed now now'
  refine ⟨final, hfinal, ⟨htasks.trans h.tasks, hjobs.trans h.jobs, ?_, ?_⟩, ?_⟩
  · rw [htransfers]
    exact h.transfers.closed now
  · rw [hsips]
    exact h.sips.closed now'
  · refine ⟨?_, ?_, ?_, ?_, final.foreign⟩
    · rw [hjobs]
      exact not_awaiting_settledJobs crashed
    · rw [htransfers]
      exact not_of_mem_updateWhere fun p _ => not_active_fail now p
    · rw [hsips]
      exact not_of_mem_updateWhere fun p _ => not_active_fail now' p
    · rw [htasks]
      exact not_of_mem_updateWhere not_running_shutDown

-- A clean-up that stopped after any number of its statements, and is then run
-- again, ends as one that was not stopped, whatever the clock says each time; and
-- one more changes nothing.
theorem removeTransientData_converges (db : Database α τ) (k : Nat) (now : Fin 4 → τ × τ) :
    ∃ crashed final once : Database α τ,
      exec ((statements (now 0).1 (now 0).2).take k) db = some crashed ∧
      removeTransientData (now 1).1 (now 1).2 crashed = some final ∧
      removeTransientData (now 2).1 (now 2).2 db = some once ∧
      final.Agrees once ∧ Cleaned db final ∧ Settled final ∧
      removeTransientData (now 3).1 (now 3).2 final = some final := by
  have hstart : Cleaning db db := ⟨rfl, rfl, .refl _, .refl _⟩
  obtain ⟨crashed, hcrashed⟩ := exists_exec_take db (now 0).1 (now 0).2 k
  have hcleaning : Cleaning db crashed :=
    cleaning_exec (fun _ hmem => List.mem_of_mem_take hmem) hstart hcrashed
  obtain ⟨final, hfinal, hcleaned, hsettled⟩ :=
    removeTransientData_cleaned hcleaning (now 1).1 (now 1).2
  obtain ⟨once, honce, hcleaned', -⟩ := removeTransientData_cleaned hstart (now 2).1 (now 2).2
  refine ⟨crashed, final, once, hcrashed, hfinal, honce, ?_, hcleaned, hsettled,
    removeTransientData_of_settled hsettled _ _⟩
  exact ⟨hcleaned.tasks.trans hcleaned'.tasks.symm, hcleaned.jobs.trans hcleaned'.jobs.symm,
    hcleaned.transfers.untimed_eq hcleaned'.transfers, hcleaned.sips.untimed_eq hcleaned'.sips⟩

end CleanUp

end Ccp
