import Ccp.Worker.RightsCSV

namespace Ccp.Worker.RightsCSV

open Lib

variable (env : Env)

-- A step that goes through.
def Good : Step → Prop
  | .error _ => False
  | .ok none => True
  | .ok (some r) => env.refused r = false

def recordOf : Step → List Record
  | .ok (some r) => [r]
  | _ => []

-- The database refuses a save to which the steps come.
def Refused (steps : List Step) : Prop :=
  ∃ front r back, steps = front ++ .ok (some r) :: back ∧ (∀ s ∈ front, Good env s) ∧
    env.refused r = true

section Steps

variable {env} {s : Step} {steps : List Step} {stored : List Record} {db : Db} {e : Failure}

theorem saveAll_cons_of_good (h : Good env s) : saveAll env (s :: steps) ⟨stored, false⟩ =
    saveAll env steps ⟨stored ++ recordOf s, false⟩ := by
  rcases s with e | _ | r
  · exact absurd h not_false
  · rw [saveAll, recordOf, List.append_nil]
    exact nofun
  · have hgood : env.refused r = false := h
    rw [saveAll, save, if_neg Bool.false_ne_true, hgood, if_neg Bool.false_ne_true]
    rfl

variable (stored) in
theorem saveAll_of_good (h : ∀ s ∈ steps, Good env s) : saveAll env steps ⟨stored, false⟩ =
    (none, ⟨stored ++ steps.flatMap recordOf, false⟩) := by
  induction steps generalizing stored with
  | nil =>
      rw [List.flatMap_nil, List.append_nil]
      rfl
  | cons s steps ih =>
      rw [List.forall_mem_cons] at h
      rw [saveAll_cons_of_good h.1, ih _ h.2, List.flatMap_cons, List.append_assoc]

theorem refused_cons_of_good (h : Good env s) : Refused env (s :: steps) ↔ Refused env steps := by
  constructor
  · rintro ⟨front, r, back, hsteps, hfront, hr⟩
    cases front with
    | nil =>
        obtain ⟨rfl, -⟩ := List.cons.inj hsteps
        exact absurd (hr.symm.trans h) (by decide)
    | cons s' front =>
        obtain ⟨-, rfl⟩ := List.cons.inj hsteps
        exact ⟨front, r, back, rfl, (List.forall_mem_cons.mp hfront).2, hr⟩
  · rintro ⟨front, r, back, rfl, hfront, hr⟩
    exact ⟨s :: front, r, back, rfl, List.forall_mem_cons.mpr ⟨h, hfront⟩, hr⟩

theorem not_refused_of_error : ¬ Refused env (.error e :: steps) := by
  rintro ⟨front, r, back, hsteps, hfront, -⟩
  cases front with
  | nil => cases (List.cons.inj hsteps).1
  | cons s' front =>
      obtain ⟨rfl, -⟩ := List.cons.inj hsteps
      exact (List.forall_mem_cons.mp hfront).1

theorem not_refused_of_good (h : ∀ s ∈ steps, Good env s) : ¬ Refused env steps := by
  rintro ⟨front, r, back, rfl, -, hr⟩
  have hgood : env.refused r = false := h (.ok (some r)) (by simp)
  rw [hr] at hgood
  cases hgood

variable (stored) in
-- Steps that do not all go through: the transaction is to be rolled back after a refused save
-- only, and what has been saved before stays in it.
theorem saveAll_of_not_good (h : ¬ ∀ s ∈ steps, Good env s) :
    ∃ e db, saveAll env steps ⟨stored, false⟩ = (some e, db) ∧ stored <+: db.stored ∧
      (db.needsRollback = true ↔ Refused env steps) := by
  induction steps generalizing stored with
  | nil => exact absurd (by simp) h
  | cons s steps ih =>
      by_cases hs : Good env s
      · have hrest : ¬ ∀ s ∈ steps, Good env s := fun hall =>
          h (List.forall_mem_cons.mpr ⟨hs, hall⟩)
        obtain ⟨e, db, heq, hpre, hroll⟩ := ih (stored ++ recordOf s) hrest
        refine ⟨e, db, ?_, (List.prefix_append _ _).trans hpre, ?_⟩
        · rw [saveAll_cons_of_good hs, heq]
        · rw [hroll, refused_cons_of_good hs]
      · rcases s with e | _ | r
        · refine ⟨e, ⟨stored, false⟩, rfl, List.prefix_rfl, ?_⟩
          exact iff_of_false Bool.false_ne_true not_refused_of_error
        · exact absurd trivial hs
        · have hr : env.refused r = true := (Bool.not_eq_false _).mp hs
          refine ⟨.databaseError, ⟨stored, true⟩, ?_, List.prefix_rfl, ?_⟩
          · rw [saveAll, save, if_neg Bool.false_ne_true, hr, if_pos rfl]
          · exact iff_of_true rfl ⟨[], r, steps, rfl, by simp, hr⟩

variable (steps stored) in
theorem saveAll_left : stored <+: (saveAll env steps ⟨stored, false⟩).2.stored ∧
    ((saveAll env steps ⟨stored, false⟩).2.needsRollback = true ↔ Refused env steps) := by
  by_cases h : ∀ s ∈ steps, Good env s
  · rw [saveAll_of_good stored h]
    exact ⟨List.prefix_append _ _, iff_of_false Bool.false_ne_true (not_refused_of_good h)⟩
  · obtain ⟨e, db, heq, hpre, hroll⟩ := saveAll_of_not_good stored h
    rw [heq]
    exact ⟨hpre, hroll⟩

end Steps

-- The steps of a row for a combination that has not been imported yet.
def rowSteps (transfer : Option UUID) (r : Reader) (row : Row) (key : Str × Str × Option Str) :
    List Step :=
  storeRow env transfer r.rowsProcessed key.2.1 key.2.2.isSome row

-- A row that is imported or passed over, with the reader after it.
def RowImports (transfer : Option UUID) (r : Reader) (row : Row) (r' : Reader) : Prop :=
  ∃ key, checkRow env r row = .ok key ∧
    (r.usage.contains key = true ∧ r' = r.next r.usage ∨
      r.usage.contains key = false ∧ (∀ s ∈ rowSteps env transfer r row key, Good env s) ∧
        r' = r.next (r.usage ++ [key]))

def RowRefused (transfer : Option UUID) (r : Reader) (row : Row) : Prop :=
  ∃ key, checkRow env r row = .ok key ∧ r.usage.contains key = false ∧
    Refused env (rowSteps env transfer r row key)

-- The first row that is not imported has a save that is refused.
def RowsRefused (transfer : Option UUID) : Reader → List Row → Prop
  | _, [] => False
  | r, row :: rows =>
      RowRefused env transfer r row ∨ ∃ r', RowImports env transfer r row r' ∧ RowsRefused transfer r' rows

-- A first row that fails before its statement is saved.
def Untouched (transfer : Option UUID) (row : Row) : Prop :=
  (∃ e, checkRow env Reader.start row = .error e) ∨
    ∃ e, generateRightsStatement env transfer 0 row = .error e

section Rows

variable {env} {transfer : Option UUID} {r r' : Reader} {row : Row} {rows : List Row}
  {stored : List Record} {db : Db} {e : Failure}

variable (transfer r row stored) in
theorem parseRow_cases :
    (∃ r' db, parseRow env transfer r row ⟨stored, false⟩ = (.ok r', db) ∧
      RowImports env transfer r row r' ∧ stored <+: db.stored ∧ db.needsRollback = false ∧
        ¬ RowRefused env transfer r row) ∨
    ∃ e db, parseRow env transfer r row ⟨stored, false⟩ = (.error e, db) ∧
      (¬ ∃ r', RowImports env transfer r row r') ∧ stored <+: db.stored ∧
        (db.needsRollback = true ↔ RowRefused env transfer r row) := by
  cases hcheck : checkRow env r row with
  | error e =>
      refine Or.inr ⟨e, ⟨stored, false⟩, by rw [parseRow, hcheck], ?_, List.prefix_rfl, ?_⟩
      · rintro ⟨r', key, hkey, -⟩
        rw [hcheck] at hkey
        cases hkey
      · refine iff_of_false Bool.false_ne_true ?_
        rintro ⟨key, hkey, -⟩
        rw [hcheck] at hkey
        cases hkey
  | ok key =>
      have hsame : ∀ {key'}, checkRow env r row = .ok key' → key' = key := fun h =>
        (Except.ok.inj (hcheck.symm.trans h)).symm
      cases hused : r.usage.contains key with
      | true =>
          refine Or.inl ⟨r.next r.usage, ⟨stored, false⟩, ?_, ⟨key, hcheck, Or.inl ⟨hused, rfl⟩⟩,
            List.prefix_rfl, rfl, ?_⟩
          · rw [parseRow, hcheck]
            simp only [hused, if_true]
          · rintro ⟨key', hkey, hfresh, -⟩
            rw [hsame hkey, hused] at hfresh
            cases hfresh
      | false =>
          by_cases hgood : ∀ s ∈ rowSteps env transfer r row key, Good env s
          · refine Or.inl ⟨_, ⟨stored ++ (rowSteps env transfer r row key).flatMap recordOf, false⟩, ?_,
              ⟨key, hcheck, Or.inr ⟨hused, hgood, rfl⟩⟩, List.prefix_append _ _, rfl, ?_⟩
            · have hall := saveAll_of_good stored hgood
              rw [rowSteps] at hall
              simp only [parseRow, hcheck, hused, Bool.false_eq_true, if_false, hall, rowSteps]
            · rintro ⟨key', hkey, -, hrefused⟩
              rw [hsame hkey] at hrefused
              exact not_refused_of_good hgood hrefused
          · obtain ⟨e, db, heq, hpre, hroll⟩ := saveAll_of_not_good stored hgood
            rw [rowSteps] at heq
            refine Or.inr ⟨e, db, ?_, ?_, hpre, ?_⟩
            · simp only [parseRow, hcheck, hused, Bool.false_eq_true, if_false, heq]
            · rintro ⟨r', key', hkey, ⟨hdup, -⟩ | ⟨-, hall, -⟩⟩
              · rw [hsame hkey, hused] at hdup
                cases hdup
              · rw [hsame hkey] at hall
                exact hgood hall
            · rw [hroll]
              constructor
              · exact fun hrefused => ⟨key, hcheck, hused, hrefused⟩
              · rintro ⟨key', hkey, -, hrefused⟩
                rwa [hsame hkey] at hrefused

-- The reader after an imported row is determined.
theorem rowImports_unique {r₁ r₂ : Reader} (h₁ : RowImports env transfer r row r₁)
    (h₂ : RowImports env transfer r row r₂) : r₁ = r₂ := by
  obtain ⟨key, hkey, hcase⟩ := h₁
  obtain ⟨key', hkey', hcase'⟩ := h₂
  obtain rfl := Except.ok.inj (hkey.symm.trans hkey')
  rcases hcase with ⟨hdup, rfl⟩ | ⟨hfresh, -, rfl⟩
  · rcases hcase' with ⟨-, rfl⟩ | ⟨hfresh, -, -⟩
    · rfl
    · rw [hdup] at hfresh
      cases hfresh
  · rcases hcase' with ⟨hdup, -⟩ | ⟨-, -, rfl⟩
    · rw [hfresh] at hdup
      cases hdup
    · rfl

variable (env transfer r rows stored) in
-- The rows up to the one that fails: what they saved stays, unless a save was refused.
theorem parseRows_left :
    stored <+: (parseRows env transfer r rows ⟨stored, false⟩).2.stored ∧
      ((parseRows env transfer r rows ⟨stored, false⟩).2.needsRollback = true ↔
        RowsRefused env transfer r rows) := by
  induction rows generalizing r stored with
  | nil => exact ⟨List.prefix_rfl, iff_of_false Bool.false_ne_true not_false⟩
  | cons row rows ih =>
      rcases parseRow_cases transfer r row stored with
        ⟨r', db, heq, himports, hpre, hroll, hnot⟩ | ⟨e, db, heq, hfails, hpre, hroll⟩
      · obtain ⟨stored', roll⟩ := db
        obtain rfl : roll = false := hroll
        obtain ⟨hrest, hrefused⟩ := ih r' stored'
        have hrows : parseRows env transfer r (row :: rows) ⟨stored, false⟩ =
            parseRows env transfer r' rows ⟨stored', false⟩ := by rw [parseRows, heq]
        rw [hrows]
        refine ⟨hpre.trans hrest, hrefused.trans ?_⟩
        rw [RowsRefused, or_iff_right hnot]
        constructor
        · exact fun h => ⟨r', himports, h⟩
        · rintro ⟨r'', hother, h⟩
          rwa [rowImports_unique himports hother]
      · have hrows : parseRows env transfer r (row :: rows) ⟨stored, false⟩ = (.error e, db) := by
          rw [parseRows, heq]
        rw [hrows]
        refine ⟨hpre, hroll.trans ?_⟩
        rw [RowsRefused, or_iff_left]
        rintro ⟨r', himports, -⟩
        exact hfails ⟨r', himports⟩

variable (stored) in
theorem parseRow_of_untouched (h : Untouched env transfer row) :
    ∃ e, parseRow env transfer Reader.start row ⟨stored, false⟩ = (.error e, ⟨stored, false⟩) := by
  cases hcheck : checkRow env Reader.start row with
  | error e => exact ⟨e, by rw [parseRow, hcheck]⟩
  | ok key =>
      obtain ⟨e, he⟩ : ∃ e, generateRightsStatement env transfer 0 row = .error e := by
        refine h.resolve_left ?_
        rintro ⟨e, he⟩
        rw [hcheck] at he
        cases he
      have hsteps : storeRow env transfer Reader.start.rowsProcessed key.2.1 key.2.2.isSome row =
          .error e :: (storeInfo env key.2.1 row ++
            if key.2.2.isSome then storeGrantInfo env row else []) := by
        rw [storeRow, show generateRightsStatement env transfer Reader.start.rowsProcessed row =
          .error e from he]
        rfl
      refine ⟨e, ?_⟩
      simp only [parseRow, hcheck, hsteps]
      rfl

variable (stored) in
-- Otherwise the statement of the first row is saved, unless it is refused.
theorem length_lt_of_touched (h : ¬ Untouched env transfer row)
    (hrefused : ¬ RowRefused env transfer Reader.start row) :
    stored.length < (parseRow env transfer Reader.start row ⟨stored, false⟩).2.stored.length := by
  cases hcheck : checkRow env Reader.start row with
  | error e => exact absurd (Or.inl ⟨e, hcheck⟩) h
  | ok key =>
      cases hgenerate : generateRightsStatement env transfer Reader.start.rowsProcessed row with
      | error e => exact absurd (Or.inr ⟨e, hgenerate⟩) h
      | ok statement =>
          have hsteps : rowSteps env transfer Reader.start row key =
              .ok (some (.statement statement)) :: (storeInfo env key.2.1 row ++
                if key.2.2.isSome then storeGrantInfo env row else []) := by
            rw [rowSteps, storeRow, hgenerate]
            rfl
          have hstatement : Good env (.ok (some (.statement statement))) := by
            refine Bool.eq_false_iff.mpr fun hr => ?_
            exact hrefused ⟨key, hcheck, rfl, [], _, _, hsteps, by simp, hr⟩
          have hparse : (parseRow env transfer Reader.start row ⟨stored, false⟩).2 =
              (saveAll env (rowSteps env transfer Reader.start row key) ⟨stored, false⟩).2 := by
            simp only [parseRow, hcheck, rowSteps]
            cases hall : saveAll env (storeRow env transfer Reader.start.rowsProcessed key.2.1
              key.2.2.isSome row) ⟨stored, false⟩ with
            | mk failure db => cases failure <;> rfl
          rw [hparse, hsteps, saveAll_cons_of_good hstatement]
          refine Nat.lt_of_lt_of_le (?_ : stored.length < (stored ++ [Record.statement statement]).length) ?_
          · rw [List.length_append]
            exact Nat.lt_succ_self _
          · exact (saveAll_left _ _).1.length_le

variable (env transfer r row rows stored) in
theorem parseRows_extends_first :
    (parseRow env transfer r row ⟨stored, false⟩).2.stored <+:
      (parseRows env transfer r (row :: rows) ⟨stored, false⟩).2.stored := by
  rcases parseRow_cases transfer r row stored with
    ⟨r', db, heq, -, -, hroll, -⟩ | ⟨e, db, heq, -⟩
  · obtain ⟨stored', roll⟩ := db
    obtain rfl : roll = false := hroll
    rw [parseRows, heq]
    exact (parseRows_left env transfer r' rows stored').1
  · have hsame : parseRows env transfer r (row :: rows) ⟨stored, false⟩ = (.error e, db) := by
      rw [parseRows, heq]
    simp only [heq, hsame, List.prefix_rfl]

variable (stored) in
-- The rows leave nothing exactly where the first one does.
theorem parseRows_unchanged_iff (hnot : ¬ RowsRefused env transfer Reader.start rows) :
    (parseRows env transfer Reader.start rows ⟨stored, false⟩).2.stored = stored ↔
      ∀ row ∈ rows.head?, Untouched env transfer row := by
  cases rows with
  | nil => exact iff_of_true rfl (by simp)
  | cons row rows =>
      simp only [List.head?_cons, Option.mem_def, Option.some.injEq, forall_eq']
      by_cases h : Untouched env transfer row
      · obtain ⟨e, heq⟩ := parseRow_of_untouched stored h
        rw [parseRows, heq]
        exact iff_of_true rfl h
      · refine iff_of_false (fun hsame => ?_) h
        have hlt := length_lt_of_touched stored h fun hrefused => hnot (Or.inl hrefused)
        have hle := (parseRows_extends_first env transfer Reader.start row rows stored).length_le
        rw [hsame] at hle
        exact absurd (hlt.trans_le hle) (Nat.lt_irrefl _)

end Rows

-- A job whose import comes to a save that the database refuses.
def RefusedIn (job : Job) : Prop :=
  ∃ csv, job.csv = some csv ∧ RowsRefused env job.transfer Reader.start csv.rows

-- A job whose import ends before the statement of its first row is saved.
def UntouchedIn (job : Job) : Prop :=
  ∃ csv, job.csv = some csv ∧ ∀ row ∈ csv.rows.head?, Untouched env job.transfer row

section Jobs

variable {env} {job : Job} {jobs before after : List Job} {stored : List Record} {db : Db} {e : Failure}

theorem parse_eq (transfer : Option UUID) (csv : Csv) :
    (parse env transfer csv ⟨stored, false⟩).2 =
      (parseRows env transfer Reader.start csv.rows ⟨stored, false⟩).2 := by
  rw [parse, if_neg Bool.false_ne_true]
  cases parseRows env transfer Reader.start csv.rows ⟨stored, false⟩ with
  | mk result db =>
      cases result with
      | error e => rfl
      | ok r =>
          dsimp only
          split_ifs <;> rfl

variable (env job stored) in
theorem importJob_left : stored <+: (importJob env job ⟨stored, false⟩).2.stored ∧
    ((importJob env job ⟨stored, false⟩).2.needsRollback = true ↔ RefusedIn env job) := by
  cases hcsv : job.csv with
  | none =>
      rw [importJob, hcsv]
      refine ⟨List.prefix_rfl, iff_of_false Bool.false_ne_true ?_⟩
      rintro ⟨csv, hsome, -⟩
      rw [hcsv] at hsome
      cases hsome
  | some csv =>
      have hleft := parseRows_left env job.transfer Reader.start csv.rows stored
      rw [importJob, hcsv]
      dsimp only
      rw [parse_eq]
      refine ⟨hleft.1, hleft.2.trans ⟨fun h => ⟨csv, hcsv, h⟩, ?_⟩⟩
      rintro ⟨csv', hsome, h⟩
      rw [hcsv] at hsome
      obtain rfl := Option.some.inj hsome
      exact h

theorem importJob_unchanged_iff (hfails : (importJob env job ⟨stored, false⟩).1 = .error e)
    (hnot : ¬ RefusedIn env job) :
    (importJob env job ⟨stored, false⟩).2.stored = stored ↔ UntouchedIn env job := by
  cases hcsv : job.csv with
  | none =>
      rw [importJob, hcsv] at hfails
      cases hfails
  | some csv =>
      rw [importJob, hcsv]
      dsimp only
      rw [parse_eq, parseRows_unchanged_iff stored fun h => hnot ⟨csv, hcsv, h⟩]
      constructor
      · exact fun h => ⟨csv, hcsv, h⟩
      · rintro ⟨csv', hsome, h⟩
        rw [hcsv] at hsome
        obtain rfl := Option.some.inj hsome
        exact h

-- Within a transaction that is to be rolled back a job saves nothing.
theorem importJob_of_needsRollback : (importJob env job ⟨stored, true⟩).2 = ⟨stored, true⟩ := by
  cases hcsv : job.csv with
  | none => rw [importJob, hcsv]
  | some csv =>
      rw [importJob, hcsv]
      rfl

theorem importJobs_of_needsRollback : (importJobs env jobs ⟨stored, true⟩).2 = ⟨stored, true⟩ := by
  induction jobs with
  | nil => rfl
  | cons job jobs ih =>
      rw [importJobs]
      dsimp only
      rw [importJob_of_needsRollback, ih]

variable (env jobs stored) in
theorem importJobs_left : stored <+: (importJobs env jobs ⟨stored, false⟩).2.stored ∧
    ((importJobs env jobs ⟨stored, false⟩).2.needsRollback = true ↔
      ∃ job ∈ jobs, RefusedIn env job) := by
  induction jobs generalizing stored with
  | nil => exact ⟨List.prefix_rfl, iff_of_false Bool.false_ne_true (by simp)⟩
  | cons job jobs ih =>
      obtain ⟨hpre, hroll⟩ := importJob_left env job stored
      rw [importJobs]
      dsimp only
      cases hdb : (importJob env job ⟨stored, false⟩).2 with
      | mk stored' roll =>
          rw [hdb] at hpre hroll
          cases roll with
          | true =>
              rw [importJobs_of_needsRollback]
              exact ⟨hpre, iff_of_true rfl ⟨job, List.mem_cons_self, hroll.mp rfl⟩⟩
          | false =>
              have hnot : ¬ RefusedIn env job := fun h => Bool.false_ne_true (hroll.mpr h)
              obtain ⟨hrest, hrefused⟩ := ih stored'
              refine ⟨hpre.trans hrest, hrefused.trans ?_⟩
              simp only [List.mem_cons, exists_eq_or_imp, or_iff_right hnot]

theorem importJobs_append (db : Db) : importJobs env (before ++ after) db =
    ((importJobs env before db).1 ++ (importJobs env after (importJobs env before db).2).1,
      (importJobs env after (importJobs env before db).2).2) := by
  induction before generalizing db with
  | nil => rfl
  | cons job before ih =>
      rw [List.cons_append, importJobs]
      dsimp only
      rw [ih, importJobs]
      rfl

theorem length_importJobs (db : Db) : (importJobs env jobs db).1.length = jobs.length := by
  induction jobs generalizing db with
  | nil => rfl
  | cons job jobs ih =>
      rw [importJobs]
      dsimp only
      rw [List.length_cons, ih, List.length_cons]

end Jobs

-- What the tables have, after the call, at the places where the job saved its records.
def keptOf (stored : List Record) (before : List Job) (job : Job) (after : List Job) : List Record :=
  let db := (importJobs env before ⟨stored, false⟩).2
  let count := (importJob env job db).2.stored.length - db.stored.length
  ((call env (before ++ job :: after) stored).2.drop db.stored.length).take count

section Kept

variable {env} {job : Job} {before after : List Job} {stored : List Record} {e : Failure}

theorem call_result : (call env (before ++ job :: after) stored).1[before.length]? =
    some (importJob env job (importJobs env before ⟨stored, false⟩).2).1 := by
  rw [call]
  dsimp only
  rw [importJobs_append, List.getElem?_append_right (length_importJobs _).le, length_importJobs,
    Nat.sub_self, importJobs]
  rfl

-- A failed import leaves nothing exactly where a save of the jobs was refused, or where it
-- ends before its first save.
theorem nothing_kept_iff
    (hfails : (call env (before ++ job :: after) stored).1[before.length]? = some (.error e)) :
    keptOf env stored before job after = [] ↔
      (∃ other ∈ before ++ job :: after, RefusedIn env other) ∨ UntouchedIn env job := by
  rw [call_result, Option.some.injEq] at hfails
  obtain ⟨hpre, hroll⟩ := importJobs_left env (before ++ job :: after) stored
  obtain ⟨hbefore, hbeforeRoll⟩ := importJobs_left env before stored
  by_cases hrefused : ∃ other ∈ before ++ job :: after, RefusedIn env other
  · have hfinal : (call env (before ++ job :: after) stored).2 = stored := by
      rw [call]
      dsimp only
      rw [if_pos (hroll.mpr hrefused)]
    rw [keptOf, hfinal, List.drop_eq_nil_of_le hbefore.length_le, List.take_nil]
    exact iff_of_true rfl (Or.inl hrefused)
  · have hnone : ∀ other ∈ before ++ job :: after, ¬ RefusedIn env other := fun other hmem h =>
      hrefused ⟨other, hmem, h⟩
    have hbeforeNone : (importJobs env before ⟨stored, false⟩).2.needsRollback = false := by
      refine Bool.eq_false_iff.mpr fun h => ?_
      obtain ⟨other, hmem, hother⟩ := hbeforeRoll.mp h
      exact hnone other (List.mem_append_left _ hmem) hother
    have hjob : ¬ RefusedIn env job := hnone job (by simp)
    have hfinal : (call env (before ++ job :: after) stored).2 =
        (importJobs env (before ++ job :: after) ⟨stored, false⟩).2.stored := by
      rw [call]
      dsimp only
      rw [if_neg fun h => hrefused (hroll.mp h)]
    have happend : (importJobs env (before ++ job :: after) ⟨stored, false⟩).2 =
        (importJobs env after (importJob env job (importJobs env before ⟨stored, false⟩).2).2).2 := by
      rw [importJobs_append, importJobs]
    rw [or_iff_right hrefused, keptOf, hfinal, happend]
    generalize (importJobs env before ⟨stored, false⟩).2 = db at hfails hbeforeNone
    obtain ⟨stored', roll⟩ := db
    obtain rfl : roll = false := hbeforeNone
    rw [← importJob_unchanged_iff hfails hjob]
    obtain ⟨⟨recs, hrecs⟩, hjobRoll⟩ := importJob_left env job stored'
    have hnot : (importJob env job ⟨stored', false⟩).2.needsRollback = false :=
      Bool.eq_false_iff.mpr fun h => hjob (hjobRoll.mp h)
    generalize (importJob env job ⟨stored', false⟩).2 = db at hrecs hnot
    obtain ⟨stored'', roll⟩ := db
    obtain rfl : roll = false := hnot
    obtain rfl : stored' ++ recs = stored'' := hrecs
    obtain ⟨more, hmore⟩ := (importJobs_left env after (stored' ++ recs)).1
    dsimp only
    rw [← hmore, List.append_assoc, List.drop_left, List.length_append, Nat.add_sub_cancel_left,
      List.take_left]
    simp

end Kept

-- Two rows, of which the second names no file.
namespace TwoRows

def oneFile : Env where
  lower s := s.map Char.toLower
  capitalize s := s.modifyHead Char.toUpper
  files := [⟨⟨1⟩, "%transferDirectory%objects/a".toList, some ⟨7⟩⟩]
  nodup := by decide
  appliesTo := some 1
  refuses _ := false

def job : Job where
  transfer := some ⟨7⟩
  csv := some {
    fieldnames := ["file".toList, "basis".toList]
    records := [["objects/a".toList, "license".toList], ["".toList, "license".toList]]
    broken := false }

def failure : Failure := .rightsRow "[Row 2] No file specified".toList

theorem nothing_kept_iff_twoRows : keptOf oneFile [] [] job [] = [] ↔
    (∃ other ∈ [job], RefusedIn oneFile other) ∨ UntouchedIn oneFile job :=
  have hfails : (call oneFile ([] ++ job :: []) []).1[([] : List Job).length]? =
    some (.error failure) := by decide +kernel
  nothing_kept_iff hfails

-- The import fails and the records of the first row stay.
theorem first_row_kept :
    (call oneFile [job] []).1 = [.error failure] ∧
      keptOf oneFile [] [] job [] =
        [.statement ⟨some 1, ⟨1⟩, "License".toList, "ORIGINAL".toList⟩,
          .information (.license none) ⟨none, none, false⟩] ∧
      (call oneFile [job] []).2 = keptOf oneFile [] [] job [] := by
  decide +kernel

end TwoRows

end Ccp.Worker.RightsCSV
