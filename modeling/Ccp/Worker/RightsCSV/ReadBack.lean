import Ccp.Lib.Table
import Ccp.Worker.RightsCSV.Transaction

namespace Ccp.Worker.RightsCSV

open Lib

-- A statement of the tables with the records that belong to it.
structure Stored where
  statement : Statement
  records : List Record
deriving DecidableEq

def Record.isStatement : Record → Bool
  | .statement _ => true
  | _ => false

def statements : List Record → List Stored
  | [] => []
  | .statement s :: rest => ⟨s, rest.takeWhile fun r => !r.isStatement⟩ :: statements rest
  | _ :: rest => statements rest

-- What is read for a column.
inductive Reading
  | blank
  | text (s : Str)
  | openEnd
deriving DecidableEq

def Reading.ofOption : Option Str → Reading
  | none => blank
  | some s => if s = [] then blank else text s

namespace Record

def information? : Record → Option (Detail × Dates)
  | information detail dates => some (detail, dates)
  | _ => none

def documentationIdentifier? : Record → Option (Str × Str × Option Str)
  | documentationIdentifier type_ value role => some (type_, value, role)
  | _ => none

def note? : Record → Option Str
  | note text => some text
  | _ => none

def granted? : Record → Option (Option Str × Dates)
  | granted act dates => some (act, dates)
  | _ => none

def restriction? : Record → Option Str
  | restriction text => some text
  | _ => none

def grantedNote? : Record → Option Str
  | grantedNote text => some text
  | _ => none

end Record

namespace Detail

def status : Detail → Option Str
  | copyright status _ _ => some status
  | _ => none

def jurisdiction : Detail → Option Str
  | copyright _ jurisdiction _ => some jurisdiction
  | statute jurisdiction _ _ => jurisdiction
  | _ => none

def determinationDate : Detail → Option Str
  | copyright _ _ determinationDate => determinationDate
  | statute _ _ determinationDate => determinationDate
  | _ => none

def terms : Detail → Option Str
  | license terms => terms
  | _ => none

def citation : Detail → Option Str
  | statute _ citation _ => citation
  | _ => none

end Detail

def Dates.readEnd (d : Dates) : Reading := if d.endOpen then .openEnd else .ofOption d.end_

variable (env : Env)

namespace Stored

variable (g : Stored)

def detail (f : Detail → Option Str) : Reading :=
  .ofOption ((g.records.findSome? Record.information?).bind fun i => f i.1)

def docID (f : Str × Str × Option Str → Option Str) : Reading :=
  .ofOption ((g.records.findSome? Record.documentationIdentifier?).bind f)

def column : Column → Reading
  | .file => .ofOption ((env.files.find? fun f => f.uuid = g.statement.appliesToIdentifier).map
      fun f => f.originalLocation.drop prefix'.length)
  | .basis => .ofOption (some g.statement.basis)
  | .status => g.detail Detail.status
  | .determinationDate => g.detail Detail.determinationDate
  | .startDate => .ofOption ((g.records.findSome? Record.information?).bind fun i => i.2.start)
  | .endDate => ((g.records.findSome? Record.information?).map fun i => i.2.readEnd).getD .blank
  | .jurisdiction => g.detail Detail.jurisdiction
  | .terms => g.detail Detail.terms
  | .citation => g.detail Detail.citation
  | .note => .ofOption (g.records.findSome? Record.note?)
  | .grantAct => .ofOption ((g.records.findSome? Record.granted?).bind Prod.fst)
  | .grantRestriction => .ofOption (g.records.findSome? Record.restriction?)
  | .grantStartDate => .ofOption ((g.records.findSome? Record.granted?).bind fun i => i.2.start)
  | .grantEndDate => ((g.records.findSome? Record.granted?).map fun i => i.2.readEnd).getD .blank
  | .grantNote => .ofOption (g.records.findSome? Record.grantedNote?)
  | .docIDType => g.docID fun i => some i.1
  | .docIDValue => g.docID fun i => some i.2.1
  | .docIDRole => g.docID fun i => i.2.2

end Stored

-- The columns that a basis has, those of the grant where there is an act.
def applies (basis : Str) (hasAct : Bool) : Column → Bool
  | .status => basis = "Copyright".toList
  | .determinationDate | .jurisdiction => basis = "Copyright".toList ∨ basis = "Statute".toList
  | .terms => basis = "License".toList
  | .citation => basis = "Statute".toList
  | .grantRestriction | .grantStartDate | .grantEndDate | .grantNote => hasAct
  | _ => true

-- The value of a column, none where it is blank or None.
def value (row : Row) (c : Column) : Option Str := (columnValue row c).toOption.bind id

def basisOf (row : Row) : Str := normalize env ((value row .basis).getD [])

-- What the columns are for the one who reads them: the basis in its normal form, an end date
-- that is open, and the status that a copyright has by default.
def expected (row : Row) : Column → Reading
  | .basis => .ofOption (some (basisOf env row))
  | .status => .ofOption (some ((value row .status).getD "unknown".toList))
  | .endDate => if isOpen env (value row .endDate) then .openEnd else .ofOption (value row .endDate)
  | .grantEndDate =>
      if isOpen env (value row .grantEndDate) then .openEnd else .ofOption (value row .grantEndDate)
  | c => .ofOption (value row c)

def ReadsBack (row : Row) (g : Stored) : Prop :=
  ∀ c, applies (basisOf env row) (value row .grantAct).isSome c → g.column env c = expected env row c

-- The same of every column that the row has a value in.
def ReadsBackAll (row : Row) (g : Stored) : Prop :=
  ReadsBack env row g ∧ ∀ c, value row c ≠ none → g.column env c = expected env row c

-- The file, the normal form of the basis and that of the act.
def combination (row : Row) : Str × Str × Option Str :=
  ((value row .file).getD [], basisOf env row, (value row .grantAct).map (normalize env))

-- The first row of each combination that has not been seen.
def firsts : List (Str × Str × Option Str) → List Row → List Row
  | _, [] => []
  | seen, row :: rows =>
      if seen.contains (combination env row) then firsts seen rows
      else row :: firsts (seen ++ [combination env row]) rows

-- Each combination of the rows is stored once, by a row that has it, and read back.
structure Faithful (reads : Row → Stored → Prop) (rows : List Row) (stored : List Stored) : Prop where
  distinct : ((firsts env [] rows).map (combination env)).Nodup
  all : ∀ row ∈ rows, combination env row ∈ (firsts env [] rows).map (combination env)
  reads : List.Forall₂ reads (firsts env [] rows) stored

section Values

variable {env} {row : Row} {c : Column} {rows : List Row} {seen : List (Str × Str × Option Str)}

theorem value_eq {v : Option Str} (h : columnValue row c = .ok v) : value row c = v := by
  rw [value, h]
  rfl

theorem bind_ok_iff {α β : Type} {x : Except Failure α} {f : α → Except Failure β} {b : β} :
    (x >>= f) = .ok b ↔ ∃ a, x = .ok a ∧ f a = .ok b := by
  cases x with
  | error e => exact iff_of_false nofun fun ⟨_, h, _⟩ => nomatch h
  | ok a =>
      constructor
      · exact fun h => ⟨a, rfl, h⟩
      · rintro ⟨_, ⟨⟩, h⟩
        exact h

theorem basisValue_eq {basis : Str} (h : basisValue env row = .ok basis) :
    basis = basisOf env row := by
  obtain ⟨v, hv, h⟩ := bind_ok_iff.mp h
  cases v with
  | none => cases h
  | some v =>
      obtain rfl := Except.ok.inj h
      rw [basisOf, value_eq hv]
      rfl

-- A step that goes through reads what the column has.
theorem recordOf_bind {f : Option Str → Step} {records : List Record}
    (h : Good env (columnValue row c >>= f))
    (hrest : Good env (f (value row c)) → recordOf (f (value row c)) = records) :
    recordOf (columnValue row c >>= f) = records := by
  cases hc : columnValue row c with
  | error e =>
      rw [hc] at h
      exact absurd h not_false
  | ok v =>
      rw [hc] at h
      rw [value_eq hc] at hrest
      exact hrest h

theorem recordOf_basisValue {f : Str → Step} {records : List Record}
    (h : Good env (basisValue env row >>= f))
    (hrest : Good env (f (basisOf env row)) → recordOf (f (basisOf env row)) = records) :
    recordOf (basisValue env row >>= f) = records := by
  cases hbasis : basisValue env row with
  | error e =>
      rw [hbasis] at h
      exact absurd h not_false
  | ok basis =>
      rw [hbasis] at h
      rw [← basisValue_eq hbasis] at hrest
      exact hrest h

theorem readCombination_eq {r : Reader} {key : Str × Str × Option Str}
    (h : readCombination env r row = .ok key) : key = combination env row := by
  obtain ⟨file, hfile, h⟩ := bind_ok_iff.mp h
  cases file with
  | none => cases h
  | some filepath =>
      obtain ⟨restriction, -, h⟩ := bind_ok_iff.mp h
      split_ifs at h
      · cases h
      · obtain ⟨basis, hbasis, h⟩ := bind_ok_iff.mp h
        obtain ⟨act, hact, h⟩ := bind_ok_iff.mp h
        obtain rfl := Except.ok.inj h
        rw [combination, value_eq hfile, value_eq hact, basisValue_eq hbasis]
        rfl

theorem checkRow_eq {r : Reader} {key : Str × Str × Option Str}
    (h : checkRow env r row = .ok key) : key = combination env row := by
  rw [checkRow] at h
  cases hfirst : !r.hasRow with
  | true =>
      rw [hfirst, if_pos rfl] at h
      obtain ⟨_, _, h⟩ := bind_ok_iff.mp h
      exact readCombination_eq h
  | false =>
      rw [hfirst, if_neg Bool.false_ne_true] at h
      exact readCombination_eq h

-- A statement is for the file that the row names.
theorem generateRightsStatement_eq {transfer : Option UUID} {n : ℕ} {s : Statement}
    (h : generateRightsStatement env transfer n row = .ok s) :
    s.basis = basisOf env row ∧ rightsBasisChoices.contains s.basis = true ∧
      ∃ filepath file, value row .file = some filepath ∧ file ∈ env.files ∧
        file.originalLocation = prefix' ++ filepath ∧ file.uuid = s.appliesToIdentifier := by
  obtain ⟨basis, hbasis, h⟩ := bind_ok_iff.mp h
  split_ifs at h with hchoice
  · cases h
  · obtain ⟨path, hpath, h⟩ := bind_ok_iff.mp h
    cases path with
    | none => cases h
    | some filepath =>
        obtain ⟨file, hfile, h⟩ := bind_ok_iff.mp h
        obtain rfl := Except.ok.inj h
        refine ⟨basisValue_eq hbasis, by simpa using hchoice, filepath, file, value_eq hpath, ?_⟩
        unfold getFile at hfile
        split at hfile
        · cases hfile
        · next t =>
            split at hfile
            · cases hfile
            · next f hone =>
                obtain rfl := Except.ok.inj hfile
                have hmem := hone ▸ List.mem_singleton_self f
                obtain ⟨hf, hloc⟩ := List.mem_filter.mp hmem
                simp only [Bool.and_eq_true, decide_eq_true_eq] at hloc
                exact ⟨hf, hloc.1, rfl⟩
            · cases hfile

theorem value_ne_nil {v : Str} (h : value row c = some v) : v ≠ [] := by
  cases hc : columnValue row c with
  | error e =>
      rw [value, hc] at h
      cases h
  | ok w =>
      rw [value_eq hc] at h
      subst h
      unfold columnValue at hc
      split at hc
      · cases hc
      · cases hc
      · rw [Except.ok.injEq] at hc
        split_ifs at hc with hblank
        rwa [← Option.some.inj hc]

theorem mem_firsts {row : Row} (h : row ∈ firsts env seen rows) :
    row ∈ rows ∧ combination env row ∉ seen := by
  induction rows generalizing seen with
  | nil => cases h
  | cons first rows ih =>
      rw [firsts] at h
      split_ifs at h with hseen
      · exact (ih h).imp_left (List.mem_cons_of_mem _)
      · rcases List.mem_cons.mp h with rfl | h
        · exact ⟨List.mem_cons_self, fun hmem => hseen (List.contains_iff_mem.mpr hmem)⟩
        · obtain ⟨hrow, hnot⟩ := ih h
          exact ⟨List.mem_cons_of_mem _ hrow, fun hmem => hnot (List.mem_append_left _ hmem)⟩

theorem nodup_firsts : ((firsts env seen rows).map (combination env)).Nodup := by
  induction rows generalizing seen with
  | nil => exact List.nodup_nil
  | cons row rows ih =>
      rw [firsts]
      split_ifs
      · exact ih
      · rw [List.map_cons, List.nodup_cons]
        refine ⟨fun hmem => ?_, ih⟩
        obtain ⟨row', hrow', heq⟩ := List.mem_map.mp hmem
        exact (mem_firsts hrow').2 (heq ▸ List.mem_append_right _ List.mem_cons_self)

theorem combination_mem_firsts (h : row ∈ rows) :
    combination env row ∈ seen ∨ combination env row ∈ (firsts env seen rows).map (combination env) := by
  induction rows generalizing seen with
  | nil => cases h
  | cons first rows ih =>
      rw [firsts]
      split_ifs with hseen
      · rcases List.mem_cons.mp h with rfl | h
        · exact Or.inl (List.contains_iff_mem.mp hseen)
        · exact ih h
      · rw [List.map_cons, List.mem_cons]
        rcases List.mem_cons.mp h with rfl | h
        · exact Or.inr (Or.inl rfl)
        · rcases @ih (seen ++ [combination env first]) h with hmem | hmem
          · rcases List.mem_append.mp hmem with hmem | hmem
            · exact Or.inl hmem
            · exact Or.inr (Or.inl (List.mem_singleton.mp hmem))
          · exact Or.inr (Or.inr hmem)

end Values

section Blocks

variable {env} {row : Row}

def docIDRecords (row : Row) : List Record :=
  if (value row .docIDType).isSome || (value row .docIDValue).isSome ||
      (value row .docIDRole).isSome then
    [.documentationIdentifier ((value row .docIDType).getD []) ((value row .docIDValue).getD [])
      (value row .docIDRole)]
  else []

def noteRecords (row : Row) : List Record := (value row .note).toList.map .note

variable (env) in
def grantRecords (row : Row) : List Record :=
  if (value row .grantAct).isSome then
    .granted (value row .grantAct) (dates env (value row .grantStartDate) (value row .grantEndDate)) ::
      ((value row .grantRestriction).toList.map .restriction ++
        (value row .grantNote).toList.map .grantedNote)
  else []

theorem recordOf_docID (h : Good env (storeDocID row)) :
    recordOf (storeDocID row) = docIDRecords row := by
  refine recordOf_bind h fun h => recordOf_bind h fun h => recordOf_bind h fun _ => ?_
  unfold docIDRecords
  split_ifs <;> rfl

theorem recordOf_map {c : Column} {f : Str → Record}
    (h : Good env (do let v ← columnValue row c; pure (v.map f))) :
    recordOf (do let v ← columnValue row c; pure (v.map f)) = (value row c).toList.map f := by
  refine recordOf_bind h fun _ => ?_
  cases value row c <;> rfl

theorem flatMap_tail {info : Step} {r : Record} (hinfo : recordOf info = [r])
    (hdoc : Good env (storeDocID row)) (hnote : Good env (storeNote row)) :
    [info, storeDocID row, storeNote row].flatMap recordOf =
      r :: (docIDRecords row ++ noteRecords row) := by
  rw [List.flatMap_cons, List.flatMap_cons, List.flatMap_singleton, hinfo, recordOf_docID hdoc]
  rw [storeNote, recordOf_map hnote]
  rfl

def infoDetail (env : Env) (row : Row) (basis : Str) : Detail :=
  if basis = "Copyright".toList then
    .copyright ((value row .status).getD "unknown".toList) ((value row .jurisdiction).getD [])
      (value row .determinationDate)
  else if basis = "License".toList then .license (value row .terms)
  else if basis = "Statute".toList then
    .statute (value row .jurisdiction) (value row .citation) (value row .determinationDate)
  else .otherRights (basisOf env row)

def infoDates (env : Env) (row : Row) (basis : Str) : Dates :=
  if basis = "Copyright".toList then
    { start := value row .startDate, end_ := value row .endDate, endOpen := false }
  else dates env (value row .startDate) (value row .endDate)

theorem flatMap_storeInfo {basis : Str} (hbasis : rightsBasisChoices.contains basis = true)
    (h : ∀ s ∈ storeInfo env basis row, Good env s) : (storeInfo env basis row).flatMap recordOf =
      
      .information (infoDetail env row basis) (infoDates env row basis) ::
        (docIDRecords row ++ noteRecords row) := by
  unfold storeInfo at h ⊢
  unfold infoDetail infoDates
  split_ifs at h ⊢ with hcopyright hlicense hstatute hother
  · simp only [storeCopyrightInfo, List.forall_mem_cons] at h ⊢
    obtain ⟨hinfo, hdoc, hnote, -⟩ := h
    exact flatMap_tail (recordOf_bind hinfo fun h => recordOf_bind h fun h => recordOf_bind h fun h =>
      recordOf_bind h fun h => recordOf_bind h fun _ => rfl) hdoc hnote
  · simp only [storeLicenseInfo, List.forall_mem_cons] at h ⊢
    obtain ⟨hinfo, hdoc, hnote, -⟩ := h
    exact flatMap_tail (recordOf_bind hinfo fun h => recordOf_bind h fun h =>
      recordOf_bind h fun _ => rfl) hdoc hnote
  · simp only [storeStatuteInfo, List.forall_mem_cons] at h ⊢
    obtain ⟨hinfo, hdoc, hnote, -⟩ := h
    exact flatMap_tail (recordOf_bind hinfo fun h => recordOf_bind h fun h => recordOf_bind h fun h =>
      recordOf_bind h fun h => recordOf_bind h fun _ => rfl) hdoc hnote
  · simp only [storeOtherInfo, List.forall_mem_cons] at h ⊢
    obtain ⟨hinfo, hdoc, hnote, -⟩ := h
    exact flatMap_tail (recordOf_basisValue hinfo fun h => recordOf_bind h fun h =>
      recordOf_bind h fun _ => rfl) hdoc hnote
  · simp only [rightsBasisChoices, List.contains_iff_mem, List.mem_cons, List.not_mem_nil,
      or_false] at hbasis hother
    tauto

theorem flatMap_storeGrantInfo (hact : (value row .grantAct).isSome = true)
    (h : ∀ s ∈ storeGrantInfo env row, Good env s) :
    (storeGrantInfo env row).flatMap recordOf = grantRecords env row := by
  simp only [storeGrantInfo, List.forall_mem_cons] at h
  obtain ⟨hgrant, hrestriction, hnote, -⟩ := h
  have hgranted := recordOf_bind hgrant fun h => recordOf_bind h fun h => recordOf_bind h fun _ => rfl
  rw [storeGrantInfo, List.flatMap_cons, List.flatMap_cons, List.flatMap_singleton, hgranted,
    recordOf_map hrestriction, recordOf_map hnote, grantRecords, if_pos hact]
  rfl

-- What belongs to the statement of a row: the information of the basis, and the grant.
def recordsOf (env : Env) (row : Row) : List Record :=
  .information (infoDetail env row (basisOf env row)) (infoDates env row (basisOf env row)) ::
    (docIDRecords row ++ noteRecords row ++ grantRecords env row)

theorem flatMap_rowSteps {transfer : Option UUID} {r : Reader}
    (h : ∀ s ∈ rowSteps env transfer r row (combination env row), Good env s) :
    ∃ s, generateRightsStatement env transfer r.rowsProcessed row = .ok s ∧
      (rowSteps env transfer r row (combination env row)).flatMap recordOf =
        .statement s :: recordsOf env row := by
  rw [rowSteps, storeRow, List.forall_mem_cons, List.forall_mem_append] at h
  obtain ⟨hstatement, hinfo, hgrant⟩ := h
  cases hs : generateRightsStatement env transfer r.rowsProcessed row with
  | error e =>
      rw [hs] at hstatement
      exact absurd hstatement not_false
  | ok s =>
      obtain ⟨hbasis, hchoice, -⟩ := generateRightsStatement_eq hs
      rw [hbasis] at hchoice
      have hgrants : (if (combination env row).2.2.isSome then storeGrantInfo env row else []).flatMap
          recordOf = grantRecords env row := by
        rw [combination, Option.isSome_map] at hgrant ⊢
        split_ifs at hgrant ⊢ with hact
        · exact flatMap_storeGrantInfo hact hgrant
        · rw [grantRecords, if_neg hact]
          rfl
      refine ⟨s, rfl, ?_⟩
      rw [rowSteps, storeRow, hs, List.flatMap_cons, List.flatMap_append, hgrants]
      rw [show (combination env row).2.1 = basisOf env row from rfl, flatMap_storeInfo hchoice hinfo]
      rfl

end Blocks

section Reading

variable {env} {row : Row} {s : Statement}

theorem mem_docIDRecords {r : Record} (h : r ∈ docIDRecords row) :
    ∃ type_ val role, r = .documentationIdentifier type_ val role := by
  unfold docIDRecords at h
  split_ifs at h
  · exact ⟨_, _, _, List.mem_singleton.mp h⟩
  · cases h

theorem mem_noteRecords {r : Record} (h : r ∈ noteRecords row) : ∃ text, r = .note text := by
  obtain ⟨text, -, rfl⟩ := List.mem_map.mp h
  exact ⟨text, rfl⟩

theorem mem_grantRecords {r : Record} (h : r ∈ grantRecords env row) :
    (∃ act d, r = .granted act d) ∨ (∃ text, r = .restriction text) ∨ ∃ text, r = .grantedNote text := by
  unfold grantRecords at h
  split_ifs at h
  · rcases List.mem_cons.mp h with rfl | h
    · exact Or.inl ⟨_, _, rfl⟩
    · rcases List.mem_append.mp h with h | h
      · obtain ⟨text, -, rfl⟩ := List.mem_map.mp h
        exact Or.inr (Or.inl ⟨text, rfl⟩)
      · obtain ⟨text, -, rfl⟩ := List.mem_map.mp h
        exact Or.inr (Or.inr ⟨text, rfl⟩)
  · cases h

theorem not_isStatement {r : Record} (h : r ∈ recordsOf env row) : r.isStatement = false := by
  simp only [recordsOf, List.mem_cons, List.mem_append] at h
  rcases h with rfl | (h | h) | h
  · rfl
  · obtain ⟨_, _, _, rfl⟩ := mem_docIDRecords h
    rfl
  · obtain ⟨_, rfl⟩ := mem_noteRecords h
    rfl
  · obtain ⟨_, _, rfl⟩ | ⟨_, rfl⟩ | ⟨_, rfl⟩ := mem_grantRecords h <;> rfl

-- Each kind of record is in one part only.
theorem findSome?_recordsOf {β : Type} (f : Record → Option β) (hinfo : ∀ d ds, f (.information d ds) = none) :
    (recordsOf env row).findSome? f = ((docIDRecords row).findSome? f).or
      (((noteRecords row).findSome? f).or ((grantRecords env row).findSome? f)) := by
  rw [recordsOf, List.findSome?_cons, hinfo, List.findSome?_append, List.findSome?_append,
    Option.or_assoc]

theorem find_information : (recordsOf env row).findSome? Record.information? =
    some (infoDetail env row (basisOf env row), infoDates env row (basisOf env row)) := by
  rw [recordsOf, List.findSome?_cons]
  rfl

theorem find_documentationIdentifier :
    (recordsOf env row).findSome? Record.documentationIdentifier? =
      (docIDRecords row).findSome? Record.documentationIdentifier? := by
  have hnote : (noteRecords row).findSome? Record.documentationIdentifier? = none :=
    List.findSome?_eq_none_iff.mpr fun r hr => by
      obtain ⟨_, rfl⟩ := mem_noteRecords hr
      rfl
  have hgrant : (grantRecords env row).findSome? Record.documentationIdentifier? = none :=
    List.findSome?_eq_none_iff.mpr fun r hr => by
      obtain ⟨_, _, rfl⟩ | ⟨_, rfl⟩ | ⟨_, rfl⟩ := mem_grantRecords hr <;> rfl
  rw [findSome?_recordsOf _ fun _ _ => rfl, hnote, hgrant, Option.or_none, Option.or_none]

theorem find_note : (recordsOf env row).findSome? Record.note? = value row .note := by
  have hdoc : (docIDRecords row).findSome? Record.note? = none :=
    List.findSome?_eq_none_iff.mpr fun r hr => by
      obtain ⟨_, _, _, rfl⟩ := mem_docIDRecords hr
      rfl
  have hgrant : (grantRecords env row).findSome? Record.note? = none :=
    List.findSome?_eq_none_iff.mpr fun r hr => by
      obtain ⟨_, _, rfl⟩ | ⟨_, rfl⟩ | ⟨_, rfl⟩ := mem_grantRecords hr <;> rfl
  rw [findSome?_recordsOf _ fun _ _ => rfl, hdoc, hgrant, Option.none_or, Option.or_none, noteRecords]
  cases value row .note <;> rfl

-- The rest of the columns is read from the grant.
theorem find_grant {β : Type} (f : Record → Option β) (hinfo : ∀ d ds, f (.information d ds) = none)
    (hdoc : ∀ type_ val role, f (.documentationIdentifier type_ val role) = none)
    (hnote : ∀ text, f (.note text) = none) :
    (recordsOf env row).findSome? f = (grantRecords env row).findSome? f := by
  have hdocs : (docIDRecords row).findSome? f = none :=
    List.findSome?_eq_none_iff.mpr fun r hr => by
      obtain ⟨_, _, _, rfl⟩ := mem_docIDRecords hr
      exact hdoc _ _ _
  have hnotes : (noteRecords row).findSome? f = none :=
    List.findSome?_eq_none_iff.mpr fun r hr => by
      obtain ⟨_, rfl⟩ := mem_noteRecords hr
      exact hnote _
  rw [findSome?_recordsOf f hinfo, hdocs, hnotes, Option.none_or, Option.none_or]

theorem ofOption_getD (v : Option Str) : Reading.ofOption (some (v.getD [])) = .ofOption v := by
  cases v <;> rfl

theorem readEnd_dates (start endDate : Option Str) : (dates env start endDate).readEnd =
    if isOpen env endDate then .openEnd else .ofOption endDate := by
  unfold Dates.readEnd dates
  dsimp only
  split_ifs <;> rfl

theorem docID_eq {f : Str × Str × Option Str → Option Str} {c : Column}
    (hsome : Reading.ofOption (f ((value row .docIDType).getD [], (value row .docIDValue).getD [],
      value row .docIDRole)) = .ofOption (value row c))
    (hnone : value row .docIDType = none → value row .docIDValue = none →
      value row .docIDRole = none → value row c = none) :
    Stored.docID ⟨s, recordsOf env row⟩ f = .ofOption (value row c) := by
  rw [Stored.docID, find_documentationIdentifier, docIDRecords]
  split_ifs with h
  · exact hsome
  · simp only [Bool.or_eq_true, not_or, Option.not_isSome_iff_eq_none] at h
    rw [hnone h.1.1 h.1.2 h.2]
    rfl

theorem find_granted : (recordsOf env row).findSome? Record.granted? =
    if (value row .grantAct).isSome then
      some (value row .grantAct, dates env (value row .grantStartDate) (value row .grantEndDate))
    else none := by
  rw [find_grant _ (fun _ _ => rfl) (fun _ _ _ => rfl) fun _ => rfl, grantRecords]
  split_ifs <;> rfl

theorem find_restriction : (recordsOf env row).findSome? Record.restriction? =
    if (value row .grantAct).isSome then value row .grantRestriction else none := by
  rw [find_grant _ (fun _ _ => rfl) (fun _ _ _ => rfl) fun _ => rfl, grantRecords]
  split_ifs
  · rw [List.findSome?_cons]
    cases value row .grantRestriction with
    | none => cases value row .grantNote <;> rfl
    | some text => rfl
  · rfl

theorem find_grantedNote : (recordsOf env row).findSome? Record.grantedNote? =
    if (value row .grantAct).isSome then value row .grantNote else none := by
  rw [find_grant _ (fun _ _ => rfl) (fun _ _ _ => rfl) fun _ => rfl, grantRecords]
  split_ifs
  · cases value row .grantRestriction <;> cases value row .grantNote <;> rfl
  · rfl

-- The copyright keeps the text of its end date, whatever it is.
def Lost (env : Env) (row : Row) : Prop :=
  basisOf env row = "Copyright".toList ∧ isOpen env (value row .endDate) = true

theorem column_endDate : Stored.column env ⟨s, recordsOf env row⟩ .endDate =
    expected env row .endDate ↔ ¬ Lost env row := by
  rw [Stored.column, find_information, Option.map_some, Option.getD_some, infoDates, expected, Lost]
  by_cases hbasis : basisOf env row = "Copyright".toList
  · rw [if_pos hbasis, and_iff_right hbasis, Dates.readEnd, if_neg Bool.false_ne_true]
    split_ifs with hopen
    · refine iff_of_false ?_ (not_not.mpr hopen)
      cases value row .endDate with
      | none => exact nofun
      | some v =>
          intro heq
          change (if v = [] then Reading.blank else Reading.text v) = _ at heq
          split_ifs at heq
    · exact iff_of_true rfl hopen
  · rw [if_neg hbasis, readEnd_dates]
    exact iff_of_true rfl fun h => hbasis h.1

-- A column that the basis does not have is blank.
theorem column_of_not_applies {c : Column}
    (h : applies (basisOf env row) (value row .grantAct).isSome c = false) :
    Stored.column env ⟨s, recordsOf env row⟩ c = .blank := by
  have hdetail : ∀ f : Detail → Option Str, f (infoDetail env row (basisOf env row)) = none →
      Stored.detail ⟨s, recordsOf env row⟩ f = .blank := by
    intro f hf
    rw [Stored.detail, find_information, Option.bind_some, hf]
    rfl
  cases c with
  | status =>
      have hnot : basisOf env row ≠ "Copyright".toList := of_decide_eq_false h
      refine hdetail Detail.status ?_
      rw [infoDetail, if_neg hnot]
      split_ifs <;> rfl
  | determinationDate =>
      obtain ⟨hcopyright, hstatute⟩ := not_or.mp (of_decide_eq_false h)
      refine hdetail Detail.determinationDate ?_
      rw [infoDetail, if_neg hcopyright, if_neg hstatute]
      split_ifs <;> rfl
  | jurisdiction =>
      obtain ⟨hcopyright, hstatute⟩ := not_or.mp (of_decide_eq_false h)
      refine hdetail Detail.jurisdiction ?_
      rw [infoDetail, if_neg hcopyright, if_neg hstatute]
      split_ifs <;> rfl
  | terms =>
      have hnot : basisOf env row ≠ "License".toList := of_decide_eq_false h
      refine hdetail Detail.terms ?_
      rw [infoDetail, if_neg hnot]
      split_ifs <;> rfl
  | citation =>
      have hnot : basisOf env row ≠ "Statute".toList := of_decide_eq_false h
      refine hdetail Detail.citation ?_
      rw [infoDetail, if_neg hnot]
      split_ifs <;> rfl
  | grantRestriction =>
      have hact : ¬ (value row .grantAct).isSome = true := Bool.eq_false_iff.mp h
      rw [Stored.column, find_restriction, if_neg hact]
      rfl
  | grantStartDate =>
      have hact : ¬ (value row .grantAct).isSome = true := Bool.eq_false_iff.mp h
      rw [Stored.column, find_granted, if_neg hact]
      rfl
  | grantEndDate =>
      have hact : ¬ (value row .grantAct).isSome = true := Bool.eq_false_iff.mp h
      rw [Stored.column, find_granted, if_neg hact]
      rfl
  | grantNote =>
      have hact : ¬ (value row .grantAct).isSome = true := Bool.eq_false_iff.mp h
      rw [Stored.column, find_grantedNote, if_neg hact]
      rfl
  | _ => cases h

theorem expected_ne_blank {c : Column} (hbasis : c ≠ .basis) (h : value row c ≠ none) :
    expected env row c ≠ .blank := by
  obtain ⟨v, hv⟩ := Option.ne_none_iff_exists'.mp h
  have htext : Reading.ofOption (some v) ≠ .blank := by
    rw [Reading.ofOption, if_neg (value_ne_nil hv)]
    exact nofun
  have hvalue : Reading.ofOption (value row c) ≠ .blank := by rwa [hv]
  cases c with
  | basis => exact absurd rfl hbasis
  | status =>
      rw [expected, hv]
      exact htext
  | endDate =>
      rw [expected, hv]
      split_ifs
      · exact nofun
      · exact htext
  | grantEndDate =>
      rw [expected, hv]
      split_ifs
      · exact nofun
      · exact htext
  | _ => exact hvalue

section Columns

variable {transfer : Option UUID} {n : ℕ} (hs : generateRightsStatement env transfer n row = .ok s)

include hs

theorem column_file : Stored.column env ⟨s, recordsOf env row⟩ .file = expected env row .file := by
  obtain ⟨-, -, filepath, file, hpath, hfile, hlocation, huuid⟩ := generateRightsStatement_eq hs
  have hfind : (env.files.find? fun f => f.uuid = s.appliesToIdentifier) = some file := by
    rw [← huuid]
    exact Table.find?_of_nodup env.nodup hfile
  rw [Stored.column, hfind, Option.map_some, hlocation, List.drop_left, expected, hpath]
  all_goals exact nofun

theorem readsBack_iff : ReadsBack env row ⟨s, recordsOf env row⟩ ↔ ¬ Lost env row := by
  refine ⟨fun h => column_endDate.mp (h .endDate rfl), fun h c happlies => ?_⟩
  obtain ⟨hbasis, -⟩ := generateRightsStatement_eq hs
  cases c with
  | file => exact column_file hs
  | endDate => exact column_endDate.mpr h
  | basis =>
      rw [Stored.column, hbasis]
      rfl
  | status =>
      have hcopyright : basisOf env row = "Copyright".toList := of_decide_eq_true happlies
      rw [Stored.column, Stored.detail, find_information, infoDetail, if_pos hcopyright]
      rfl
  | determinationDate =>
      rw [Stored.column, Stored.detail, find_information, infoDetail]
      rcases of_decide_eq_true happlies with hcase | hcase
      · rw [if_pos hcase]
        rfl
      · rw [if_neg (by rw [hcase]; decide), if_neg (by rw [hcase]; decide), if_pos hcase]
        rfl
  | jurisdiction =>
      rw [Stored.column, Stored.detail, find_information, infoDetail]
      rcases of_decide_eq_true happlies with hcase | hcase
      · rw [if_pos hcase]
        exact ofOption_getD _
      · rw [if_neg (by rw [hcase]; decide), if_neg (by rw [hcase]; decide), if_pos hcase]
        rfl
  | terms =>
      have hcase : basisOf env row = "License".toList := of_decide_eq_true happlies
      rw [Stored.column, Stored.detail, find_information, infoDetail,
        if_neg (by rw [hcase]; decide), if_pos hcase]
      rfl
  | citation =>
      have hcase : basisOf env row = "Statute".toList := of_decide_eq_true happlies
      rw [Stored.column, Stored.detail, find_information, infoDetail,
        if_neg (by rw [hcase]; decide), if_neg (by rw [hcase]; decide), if_pos hcase]
      rfl
  | startDate =>
      rw [Stored.column, find_information, infoDates]
      split_ifs <;> rfl
  | note =>
      rw [Stored.column, find_note]
      rfl
  | grantAct =>
      rw [Stored.column, find_granted, expected]
      · cases hact : value row .grantAct <;> rfl
      all_goals exact nofun
  | grantRestriction =>
      have hact : (value row .grantAct).isSome = true := happlies
      rw [Stored.column, find_restriction, if_pos hact]
      rfl
  | grantStartDate =>
      have hact : (value row .grantAct).isSome = true := happlies
      rw [Stored.column, find_granted, if_pos hact]
      rfl
  | grantEndDate =>
      have hact : (value row .grantAct).isSome = true := happlies
      rw [Stored.column, find_granted, if_pos hact]
      exact readEnd_dates _ _
  | grantNote =>
      have hact : (value row .grantAct).isSome = true := happlies
      rw [Stored.column, find_grantedNote, if_pos hact]
      rfl
  | docIDType => exact docID_eq (ofOption_getD _) fun h _ _ => h
  | docIDValue => exact docID_eq (ofOption_getD _) fun _ h _ => h
  | docIDRole => exact docID_eq rfl fun _ _ h => h

-- Every value of the row is read back where it has none that its basis has no place for.
theorem readsBackAll_iff : ReadsBackAll env row ⟨s, recordsOf env row⟩ ↔
    ¬ Lost env row ∧ ∀ c, value row c ≠ none →
      applies (basisOf env row) (value row .grantAct).isSome c = true := by
  rw [ReadsBackAll, readsBack_iff hs]
  refine and_congr_right fun hkept => forall_congr' fun c => forall_congr' fun hvalue => ?_
  cases happlies : applies (basisOf env row) (value row .grantAct).isSome c with
  | true => exact iff_of_true ((readsBack_iff hs).mpr hkept c happlies) rfl
  | false =>
      refine iff_of_false ?_ Bool.false_ne_true
      rw [column_of_not_applies happlies]
      refine fun heq => expected_ne_blank ?_ hvalue heq.symm
      rintro rfl
      cases happlies

end Columns

end Reading

-- What the tables have of a row.
def IsOf (transfer : Option UUID) (row : Row) (g : Stored) : Prop :=
  (∃ n, generateRightsStatement env transfer n row = .ok g.statement) ∧ g.records = recordsOf env row

section Runs

variable {env} {transfer : Option UUID} {r r' : Reader} {row : Row} {rows : List Row}
  {stored new tail : List Record} {db : Db} {s : Statement}

theorem statements_append (htail : ∀ x ∈ tail, x.isStatement = false)
    (hnew : ∀ x ∈ new.head?, x.isStatement = true) :
    statements (.statement s :: (tail ++ new)) = ⟨s, tail⟩ :: statements new := by
  have htake : (tail ++ new).takeWhile (fun x => !x.isStatement) = tail := by
    rw [List.takeWhile_append_of_pos fun x hx => by rw [htail x hx]; rfl]
    cases new with
    | nil => exact List.append_nil tail
    | cons x new =>
        rw [List.takeWhile_cons_of_neg (by rw [hnew x rfl]; decide), List.append_nil]
  have hskip : statements (tail ++ new) = statements new := by
    clear htake
    induction tail with
    | nil => rfl
    | cons x tail ih =>
        obtain ⟨hx, hrest⟩ := List.forall_mem_cons.mp htail
        cases x with
        | statement s => cases hx
        | _ => exact ih hrest
  rw [statements, htake, hskip]

theorem parseRow_ok (h : parseRow env transfer r row ⟨stored, false⟩ = (.ok r', db)) :
    (r.usage.contains (combination env row) = true ∧ r'.usage = r.usage ∧ db = ⟨stored, false⟩) ∨
      r.usage.contains (combination env row) = false ∧
        r'.usage = r.usage ++ [combination env row] ∧ ∃ g, IsOf env transfer row g ∧
          db = ⟨stored ++ .statement g.statement :: g.records, false⟩ := by
  rw [parseRow] at h
  cases hcheck : checkRow env r row with
  | error e =>
      rw [hcheck] at h
      cases h
  | ok key =>
      obtain rfl := checkRow_eq hcheck
      rw [hcheck] at h
      dsimp only at h
      cases hused : r.usage.contains (combination env row) with
      | true =>
          rw [hused, if_pos rfl] at h
          obtain ⟨hreader, rfl⟩ := Prod.mk.inj h
          obtain rfl := Except.ok.inj hreader
          exact Or.inl ⟨rfl, rfl, rfl⟩
      | false =>
          rw [hused, if_neg Bool.false_ne_true] at h
          by_cases hgood : ∀ s ∈ rowSteps env transfer r row (combination env row), Good env s
          · obtain ⟨s, hs, hrecords⟩ := flatMap_rowSteps hgood
            have hall := saveAll_of_good stored hgood
            rw [hrecords, rowSteps] at hall
            rw [hall] at h
            obtain ⟨hreader, rfl⟩ := Prod.mk.inj h
            obtain rfl := Except.ok.inj hreader
            exact Or.inr ⟨rfl, rfl, ⟨s, recordsOf env row⟩, ⟨⟨_, hs⟩, rfl⟩, rfl⟩
          · obtain ⟨e, db', hfail, -⟩ := saveAll_of_not_good stored hgood
            rw [rowSteps] at hfail
            rw [hfail] at h
            cases h

-- The tables after the rows: one statement for each combination that is new.
theorem parseRows_ok (h : parseRows env transfer r rows ⟨stored, false⟩ = (.ok r', db)) :
    ∃ new, db.stored = stored ++ new ∧ (∀ x ∈ new.head?, x.isStatement = true) ∧
      List.Forall₂ (IsOf env transfer) (firsts env r.usage rows) (statements new) := by
  induction rows generalizing r stored with
  | nil =>
      obtain ⟨-, rfl⟩ := Prod.mk.inj h
      exact ⟨[], (List.append_nil stored).symm, by simp, .nil⟩
  | cons row rows ih =>
      rw [parseRows] at h
      cases hrow : parseRow env transfer r row ⟨stored, false⟩ with
      | mk result db' =>
          cases result with
          | error e =>
              rw [hrow] at h
              cases h
          | ok r₁ =>
              rw [hrow] at h
              dsimp only at h
              rcases parseRow_ok hrow with ⟨hused, husage, rfl⟩ | ⟨hused, husage, g, hg, rfl⟩
              · obtain ⟨new, hnew, hhead, hall⟩ := ih h
                rw [husage] at hall
                refine ⟨new, hnew, hhead, ?_⟩
                rwa [firsts, if_pos hused]
              · obtain ⟨new, hnew, hhead, hall⟩ := ih h
                rw [husage] at hall
                refine ⟨.statement g.statement :: (g.records ++ new), ?_, ?_, ?_⟩
                · rw [hnew]
                  simp
                · rintro x ⟨⟩
                  rfl
                · rw [firsts, if_neg (by rw [hused]; decide), statements_append ?_ hhead]
                  · exact .cons hg hall
                  · rw [hg.2]
                    exact fun x hx => not_isStatement hx

theorem forall₂_iff {α β : Type} {R P : α → β → Prop} {Q : α → Prop} {l : List α} {l' : List β}
    (h : List.Forall₂ R l l') (hP : ∀ a b, R a b → (P a b ↔ Q a)) :
    List.Forall₂ P l l' ↔ ∀ a ∈ l, Q a := by
  induction h with
  | nil => exact iff_of_true .nil (by simp)
  | cons hR _ ih => rw [List.forall₂_cons, List.forall_mem_cons, hP _ _ hR, ih]

end Runs

section Faithful

variable {env} {transfer : Option UUID} {csv : Csv} {stored new : List Record} {n : ℕ}

theorem faithful_iff {reads : Row → Stored → Prop} {rows : List Row} {groups : List Stored} :
    Faithful env reads rows groups ↔ List.Forall₂ reads (firsts env [] rows) groups := by
  refine ⟨Faithful.reads, fun h => ⟨nodup_firsts, fun row hrow => ?_, h⟩⟩
  exact (combination_mem_firsts hrow).resolve_left List.not_mem_nil

-- What the import of a file stores is read back exactly where no copyright has an open end
-- date, and the whole of each row exactly where besides no row has a value that its basis
-- has no place for.
theorem import_faithful_iff
    (h : parse env transfer csv ⟨stored, false⟩ = (.ok n, ⟨stored ++ new, false⟩)) :
    (Faithful env (ReadsBack env) csv.rows (statements new) ↔
      ∀ row ∈ firsts env [] csv.rows, ¬ Lost env row) ∧
    (Faithful env (ReadsBackAll env) csv.rows (statements new) ↔
      ∀ row ∈ firsts env [] csv.rows, ¬ Lost env row ∧ ∀ c, value row c ≠ none →
        applies (basisOf env row) (value row .grantAct).isSome c = true) := by
  obtain ⟨r, hrows⟩ : ∃ r, parseRows env transfer Reader.start csv.rows ⟨stored, false⟩ =
      (.ok r, ⟨stored ++ new, false⟩) := by
    rw [parse, if_neg Bool.false_ne_true] at h
    cases hresult : parseRows env transfer Reader.start csv.rows ⟨stored, false⟩ with
    | mk result db =>
        cases result with
        | error e =>
            rw [hresult] at h
            cases h
        | ok r =>
            rw [hresult] at h
            dsimp only at h
            split_ifs at h
            · cases (Prod.mk.inj h).1
            · exact ⟨r, by rw [(Prod.mk.inj h).2]⟩
  obtain ⟨new', hnew, -, hall⟩ := parseRows_ok hrows
  obtain rfl := List.append_cancel_left hnew
  rw [faithful_iff, faithful_iff]
  refine ⟨forall₂_iff hall ?_, forall₂_iff hall ?_⟩
  · rintro row ⟨s, records⟩ ⟨⟨n, hs⟩, rfl⟩
    exact readsBack_iff hs
  · rintro row ⟨s, records⟩ ⟨⟨n, hs⟩, rfl⟩
    exact readsBackAll_iff hs

end Faithful

-- A copyright with an end, twice, and two grants of a license without one.
namespace OpenEnd

def grants : Csv where
  fieldnames := ["file".toList, "basis".toList, "end_date".toList, "grant_act".toList, "grant_restriction".toList]
  records := [
    ["objects/a".toList, "copyright".toList, "2030-12-31".toList, [], []],
    ["objects/a".toList, "license".toList, "open".toList, "disseminate".toList, "allow".toList],
    ["objects/a".toList, "Copyright".toList, "2030-12-31".toList, [], []],
    ["objects/a".toList, "license".toList, "open".toList, "publish".toList, "disallow".toList]]
  broken := false

def license (act restriction : String) : List Record :=
  [.statement ⟨some 1, ⟨1⟩, "License".toList, "ORIGINAL".toList⟩,
    .information (.license none) ⟨none, none, true⟩,
    .granted (some act.toList) ⟨none, none, false⟩,
    .restriction restriction.toList]

def granted : List Record :=
  [.statement ⟨some 1, ⟨1⟩, "Copyright".toList, "ORIGINAL".toList⟩,
    .information (.copyright "unknown".toList [] none) ⟨none, some "2030-12-31".toList, false⟩] ++
  license "disseminate" "allow" ++ license "publish" "disallow"

theorem import_faithful_iff_openEnd :
    parse TwoRows.oneFile (some ⟨7⟩) grants ⟨[], false⟩ = (.ok 4, ⟨[] ++ granted, false⟩) ∧
      Faithful TwoRows.oneFile (ReadsBack TwoRows.oneFile) grants.rows (statements granted) ∧
      Faithful TwoRows.oneFile (ReadsBackAll TwoRows.oneFile) grants.rows (statements granted) := by
  have himported : parse TwoRows.oneFile (some ⟨7⟩) grants ⟨[], false⟩ =
      (.ok 4, ⟨[] ++ granted, false⟩) := by
    decide +kernel
  have hkept : ∀ row ∈ firsts TwoRows.oneFile [] grants.rows, ¬ Lost TwoRows.oneFile row := by
    unfold Lost
    decide +kernel
  have hplaced : ∀ c, ∀ row ∈ firsts TwoRows.oneFile [] grants.rows, value row c ≠ none →
      applies (basisOf TwoRows.oneFile row) (value row .grantAct).isSome c = true := by
    intro c
    cases c <;> decide +kernel
  obtain ⟨hreads, hreadsAll⟩ := import_faithful_iff himported
  exact ⟨himported, hreads.mpr hkept, hreadsAll.mpr fun row hrow => ⟨hkept row hrow, fun c => hplaced c row hrow⟩⟩

-- One row of a copyright without an end.

def csv : Csv where
  fieldnames := ["file".toList, "basis".toList, "end_date".toList]
  records := [["objects/a".toList, "copyright".toList, "OPEN".toList]]
  broken := false

def row : Row :=
  dictRow csv.fieldnames ["objects/a".toList, "copyright".toList, "OPEN".toList]

def saved : List Record :=
  [.statement ⟨some 1, ⟨1⟩, "Copyright".toList, "ORIGINAL".toList⟩,
    .information (.copyright "unknown".toList [] none) ⟨none, some "OPEN".toList, false⟩]

theorem imported : parse TwoRows.oneFile (some ⟨7⟩) csv ⟨[], false⟩ = (.ok 1, ⟨[] ++ saved, false⟩) := by
  decide +kernel

-- The word is stored as a date and the flag is not set.
theorem word_stored_as_date :
    parse TwoRows.oneFile (some ⟨7⟩) csv ⟨[], false⟩ = (.ok 1, ⟨[] ++ saved, false⟩) ∧
      ¬ Faithful TwoRows.oneFile (ReadsBack TwoRows.oneFile) csv.rows (statements saved) := by
  refine ⟨imported, fun h => ?_⟩
  have hfirsts : firsts TwoRows.oneFile [] csv.rows = [row] := by decide +kernel
  have hreads := faithful_iff.mp h
  rw [hfirsts] at hreads
  cases hreads with
  | cons hread _ => exact absurd (hread .endDate rfl) (by decide +kernel)

end OpenEnd

end Ccp.Worker.RightsCSV
