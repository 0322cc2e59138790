import Ccp.Lib.Latest
import Ccp.Lib.MapM
import Ccp.Worker.Rights.RoundTrip
import Mathlib.Data.Char
import Mathlib.Data.List.Lex
import Mathlib.Data.List.NodupEquivFin
import Mathlib.Order.WithBot

namespace Ccp.Worker.Reingest.UpdateRights

open Lib Rights

inductive Status
  | original
  | reingest
  | updated
deriving DecidableEq

-- A rights statement of the SIP in the database.
structure Row where
  status : Status
  statement : Statement
deriving DecidableEq

inductive Contents
  | mdRef
  | premis (document : El)

-- What does not change of a rightsMD; one that is added has the row that it is built from.
structure Part where
  contents : Contents
  created : Option Str
  row : Option Row

structure RightsMD where
  part : Part
  status : Option Str

-- A file with the rightsMDs of its amdSecs.
structure OriginalFile where
  uuid : UUID
  amdsecs : List (List RightsMD)

def superseded : Str := "superseded".toList

def statusCurrent : Str := "current".toList

def rightsBasisChoices : List Str :=
  ["Copyright".toList, "Statute".toList, "License".toList, "Donor".toList, "Policy".toList, other]

def quotationMark : Char := Char.ofNat 34

structure Env where
  getCodeForCountry : Str → Option Str
  uuid4 : UUID → Row → Str
  -- the XPath expression for a basis with a quotation mark, which may not be one
  quoted : Str → Option (Contents → Bool)
  -- what replace_with leaves where a section replaces itself
  itself : Option Str

-- There is no text for an element without one.
def readBasis (document : El) : Option (Option Str) :=
  (document.findBelow .rightsBasis).head?.map fun rightsbasis =>
    if rightsbasis.get .text = some other then
      match (document.findBelow .otherRightsBasis).head? with
      | none => some other
      | some otherrightsbasis => otherrightsbasis.get .text
    else rightsbasis.get .text

def RightsMD.mark (status : Option Str) (r : RightsMD) : RightsMD := { r with status }

def RightsMD.supersede : RightsMD → RightsMD := RightsMD.mark (some superseded)

section Script

variable (rows : List Row)

def inDB (basis : Str) : Bool :=
  rows.any fun row => row.statement.rightsbasis = basis && row.status ≠ .original

-- A basis that is not one of the choices is not in rightsmds_db.
def supersedeDeleted (r : RightsMD) : Option RightsMD :=
  match r.part.contents with
  | .mdRef => some r
  | .premis document =>
      if r.status = some superseded then some r
      else
        match readBasis document with
        | none => some r
        | some none => none
        | some (some basis) =>
            if rightsBasisChoices.contains basis then
              some (if inDB rows basis then r else r.supersede)
            else none

def withStatus (status : Status) : List Row := rows.filter fun row => row.status = status

variable (env : Env) (fileUUID : UUID)

-- It has no date before the document is written.
def newPart (row : Row) : Part where
  contents :=
    .premis (createRightsStatement env.getCodeForCountry (env.uuid4 fileUUID row) fileUUID row.statement)
  created := none
  row := some row

def hasRightsBasis (basis : Str) : Contents → Bool
  | .mdRef => false
  | .premis document => (document.findBelow .rightsBasis).any fun e => e.get .text = some basis

def selects (basis : Str) : Option (Contents → Bool) :=
  if basis.contains quotationMark then env.quoted basis else some (hasRightsBasis basis)

def createdAt (parts : List Part) (i : ℕ) : WithBot Str := parts[i]?.bind (·.created)

-- The first one that matches, from the end of the sorted list on.
def pick (matching : Contents → Bool) (parts : List Part) : Option ℕ :=
  latest (createdAt parts) (fun i => parts[i]?.any fun part => matching part.contents)
    (List.range parts.length)

def replaceWith (i new : ℕ) (l : List RightsMD) : List RightsMD :=
  if i = new then l.modify i (RightsMD.mark env.itself)
  else (l.modify i RightsMD.supersede).modify new (RightsMD.mark (some statusCurrent))

-- One turn of the loops of add_rights_elements.
def addRightsElement (updated : Bool) (l : List RightsMD) (row : Row) : Option (List RightsMD) :=
  let l' := l ++ [⟨newPart env fileUUID row, none⟩]
  if updated then
    (selects env row.statement.rightsbasis).map fun matching =>
      match pick matching (l'.map RightsMD.part) with
      | some i => replaceWith env i l.length l'
      | none => l'
  else some l'

end Script

-- amdsecs[0]
def OriginalFile.onFirst (f : OriginalFile) (g : List RightsMD → Option (List RightsMD)) :
    Option OriginalFile :=
  match f.amdsecs with
  | [] => none
  | l :: rest => (g l).map fun l => { f with amdsecs := l :: rest }

def addRightsElements (env : Env) (rows : List Row) (updated : Bool) (f : OriginalFile) :
    Option OriginalFile :=
  f.onFirst fun l => rows.foldlM (addRightsElement env f.uuid updated) l

def updateRights (env : Env) (rows : List Row) (files : List OriginalFile) :
    Option (List OriginalFile) :=
  (files.mapM fun (f : OriginalFile) => f.onFirst fun l => l.mapM (supersedeDeleted rows)).bind fun files =>
    (files.mapM (addRightsElements env (withStatus rows .original) false)).bind fun files =>
      files.mapM (addRightsElements env (withStatus rows .updated) true)

-- What the function has to do.

-- A basis of Donor or Policy is the otherRightsBasis.
def basisOf : Contents → Option Str
  | .mdRef => none
  | .premis document =>
      (document.findBelow .rightsBasis).head?.bind fun rightsbasis =>
        if rightsbasis.get .text = some other then
          match (document.findBelow .otherRightsBasis).head?.bind (·.get .text) with
          | none => some other
          | some basis => if rightsBasisOther.contains basis then some basis else some other
        else rightsbasis.get .text

def RightsMD.isCurrent (basis : Str) (r : RightsMD) : Bool :=
  basisOf r.part.contents = some basis && r.status ≠ some superseded

section Contract

variable (rows : List Row)

def updatedOf (basis : Str) : List Row :=
  (withStatus rows .updated).filter fun row => row.statement.rightsbasis = basis

def Untouched (basis : Str) : Prop :=
  (∃ row ∈ rows, row.statement.rightsbasis = basis) ∧
    ∀ row ∈ rows, row.statement.rightsbasis = basis → row.status = .reingest

structure FileContract (before after : List RightsMD) : Prop where
  replaced : ∀ basis row, updatedOf rows basis = [row] →
    (before.filter (·.isCurrent basis)).length = 1 →
    ∃ (i : ℕ) (r : RightsMD), before.length ≤ i ∧ after[i]? = some r ∧ r.part.row = some row ∧
      ∀ (j : ℕ) r', after[j]? = some r' → (r'.isCurrent basis = true ↔ j = i)
  kept : ∀ (i : ℕ) r basis, before[i]? = some r → basisOf r.part.contents = some basis →
    Untouched rows basis → ∃ r', after[i]? = some r' ∧ r'.part = r.part ∧ r'.status = r.status

variable (env : Env)

structure Contract (files : List OriginalFile) : Prop where
  updated : ∃ after, updateRights env rows files = some after ∧
    List.Forall₂ (fun f f' => ∃ l l' rest, f.amdsecs = l :: rest ∧ f'.amdsecs = l' :: rest ∧
      FileContract rows l l') files after

-- There is no statement of its basis any more but new ones.
def Deleted (r : RightsMD) : Prop :=
  ∃ document basis, r.part.contents = .premis document ∧ readBasis document = some (some basis) ∧
    inDB rows basis = false

-- The basis of the section that a statement is written as: for Donor and Policy it is in the
-- information on other rights, where there is one.
def writtenBasis (s : Statement) : Str :=
  if Rights.rightsBasis s = other then
    match s.others.head? with
    | none => other
    | some o =>
        let basis :=
          if o.detail.basis = [] ∨ rightsBasisOther.contains s.rightsbasis then s.rightsbasis
          else o.detail.basis
        if rightsBasisOther.contains basis then basis else other
  else s.rightsbasis

-- The section has the basis of the row as its rightsBasis.
def finds (row : Row) (contents : Contents) : Bool :=
  (selects env row.statement.rightsbasis).any fun matching => matching contents

def RightsMD.date (r : RightsMD) : WithBot Str := r.part.created

variable (fileUUID : UUID) (l : List RightsMD)

-- The section at place i is the newest of the document that the row finds: one without a date
-- is older than all with one, and of one date the last is the newest.
structure Newest (row : Row) (i : ℕ) (r : RightsMD) : Prop where
  place : l[i]? = some r
  found : finds env row r.part.contents = true
  last : ∀ (j : ℕ) r', l[j]? = some r' → finds env row r'.part.contents = true →
    r'.date ≤ r.date ∧ (i < j → r'.date < r.date)

-- The statements whose sections are added, in this order.
def newRows : List Row := withStatus rows .original ++ withStatus rows .updated

def Adds (k : ℕ) (row : Row) : Prop := (newRows rows)[k]? = some row ∧ row.status = .updated

def findsNew (row row' : Row) : Bool := finds env row (newPart env fileUUID row').contents

-- The new sections have no date: of those up to its own, the row at place k finds that at
-- place j last.
structure LastNew (k : ℕ) (row : Row) (j : ℕ) : Prop where
  le : j ≤ k
  found : ∃ row', (newRows rows)[j]? = some row' ∧ findsNew env fileUUID row row' = true
  last : ∀ (j' : ℕ) row', j < j' → j' ≤ k → (newRows rows)[j']? = some row' →
    findsNew env fileUUID row row' = false

structure SupersededBy (k : ℕ) (row : Row) (i : ℕ) (r : RightsMD) : Prop where
  newest : Newest env l row i r
  dated : r.part.created = none → ∀ (j : ℕ) row', j ≤ k → (newRows rows)[j]? = some row' →
    findsNew env fileUUID row row' = false

structure ReplacesNew (k : ℕ) (row : Row) (j : ℕ) : Prop where
  last : LastNew rows env fileUUID k row j
  undated : ∀ r ∈ l, finds env row r.part.contents = true → r.part.created = none

def OldReplaced (i : ℕ) (r : RightsMD) : Prop :=
  ∃ k row, Adds rows k row ∧ SupersededBy rows env fileUUID l k row i r

def NewReplaced (j : ℕ) : Prop :=
  ∃ k row, Adds rows k row ∧ ReplacesNew rows env fileUUID l k row j ∧ (j = k → env.itself = some superseded)

-- The one updated row of a basis that has a current section.
structure Renewed (basis : Str) (row : Row) : Prop where
  written : writtenBasis row.statement = basis
  own : ∀ k : ℕ, (newRows rows)[k]? = some row → ¬ NewReplaced rows env fileUUID l k
  new : ∀ (k : ℕ) row', (newRows rows)[k]? = some row' → row' ≠ row → writtenBasis row'.statement = basis →
    NewReplaced rows env fileUUID l k
  old : ∀ (i : ℕ) r, l[i]? = some r → r.isCurrent basis = true →
    Deleted rows r ∨ OldReplaced rows env fileUUID l i r

structure FileClear : Prop where
  -- the basis of every section that is looked at is one of the choices
  known : ∀ r ∈ l, r.status ≠ some superseded → ∀ document basis, r.part.contents = .premis document →
    readBasis document = some basis → ∃ choice ∈ rightsBasisChoices, basis = some choice
  selected : ∀ row ∈ withStatus rows .updated, selects env row.statement.rightsbasis ≠ none
  renewed : ∀ basis row, updatedOf rows basis = [row] → (l.filter (·.isCurrent basis)).length = 1 →
    Renewed rows env fileUUID l basis row
  kept : ∀ (i : ℕ) r basis, l[i]? = some r → r.isCurrent basis = true → Untouched rows basis →
    ¬ Deleted rows r ∧ ¬ OldReplaced rows env fileUUID l i r

structure Clear (files : List OriginalFile) : Prop where
  file : ∀ f ∈ files, ∃ l rest, f.amdsecs = l :: rest ∧ FileClear rows env f.uuid l

end Contract

-- The same along the third pass, row by row.
section Gone

variable (rows : List Row) (env : Env)

-- The place that the section of each row gets, and that of the one it replaces.
def targets (fileUUID : UUID) : List Part → List Row → List (ℕ × Option ℕ)
  | _, [] => []
  | parts, row :: rest =>
      (parts.length, (selects env row.statement.rightsbasis).bind fun matching =>
        pick matching (parts ++ [newPart env fileUUID row])) ::
      targets fileUUID (parts ++ [newPart env fileUUID row]) rest

def Replaced (places : List (ℕ × Option ℕ)) (i : ℕ) : Prop :=
  ∃ t ∈ places, t.2 = some i ∧ (t.1 = i → env.itself = some superseded)

variable (fileUUID : UUID) (l : List RightsMD)

def oldParts : List Part :=
  l.map RightsMD.part ++ (withStatus rows .original).map (newPart env fileUUID)

def allParts : List Part := oldParts rows env fileUUID l ++ (withStatus rows .updated).map (newPart env fileUUID)

def Gone (i : ℕ) : Prop :=
  (∃ r, l[i]? = some r ∧ (r.status = some superseded ∨ Deleted rows r)) ∨
    Replaced env (targets env fileUUID (oldParts rows env fileUUID l) (withStatus rows .updated)) i

structure FileGone : Prop where
  known : ∀ r ∈ l, r.status ≠ some superseded → ∀ document basis, r.part.contents = .premis document →
    readBasis document = some basis → ∃ choice ∈ rightsBasisChoices, basis = some choice
  selected : ∀ row ∈ withStatus rows .updated, selects env row.statement.rightsbasis ≠ none
  replaced : ∀ basis row, updatedOf rows basis = [row] →
    (l.filter (·.isCurrent basis)).length = 1 →
    basisOf (newPart env fileUUID row).contents = some basis ∧
    ∃ k : ℕ, (withStatus rows .updated)[k]? = some row ∧
      ¬ Gone rows env fileUUID l ((oldParts rows env fileUUID l).length + k) ∧
      ∀ (i : ℕ) (part : Part), (allParts rows env fileUUID l)[i]? = some part →
        basisOf part.contents = some basis → i ≠ (oldParts rows env fileUUID l).length + k →
        Gone rows env fileUUID l i
  kept : ∀ (i : ℕ) r basis, l[i]? = some r → r.isCurrent basis = true → Untouched rows basis →
    ¬ Gone rows env fileUUID l i

end Gone

section Proofs

variable {rows added : List Row} {env : Env} {fileUUID : UUID} {l l' : List RightsMD} {r r' : RightsMD}
  {row : Row} {i : ℕ}

def Superseded (l : List RightsMD) (i : ℕ) : Prop := ∃ r, l[i]? = some r ∧ r.status = some superseded

-- The first pass, at one section.
theorem supersedeDeleted_eq_some (h : supersedeDeleted rows r = some r') :
    (r' = r ∧ (r.status = some superseded ∨ ¬ Deleted rows r)) ∨ (r' = r.supersede ∧ Deleted rows r) := by
  rw [supersedeDeleted] at h
  cases hcontents : r.part.contents with
  | mdRef =>
      rw [hcontents] at h
      refine Or.inl ⟨(Option.some.inj h).symm, Or.inr ?_⟩
      rintro ⟨document, basis, heq, -⟩
      rw [hcontents] at heq
      cases heq
  | premis document =>
      simp only [hcontents] at h
      split_ifs at h with hstatus
      · exact Or.inl ⟨(Option.some.inj h).symm, Or.inl hstatus⟩
      · rcases hbasis : readBasis document with _ | _ | basis
        · simp only [hbasis] at h
          refine Or.inl ⟨(Option.some.inj h).symm, Or.inr ?_⟩
          rintro ⟨document', basis, heq, hread, -⟩
          obtain rfl := Contents.premis.inj (hcontents.symm.trans heq)
          rw [hbasis] at hread
          cases hread
        · simp [hbasis] at h
        · simp only [hbasis] at h
          split_ifs at h with hchoice hdb
          · refine Or.inl ⟨(Option.some.inj h).symm, Or.inr ?_⟩
            rintro ⟨document', basis', heq, hread, hnone⟩
            obtain rfl := Contents.premis.inj (hcontents.symm.trans heq)
            obtain rfl := Option.some.inj (Option.some.inj (hbasis.symm.trans hread))
            rw [hdb] at hnone
            cases hnone
          · exact Or.inr ⟨(Option.some.inj h).symm, document, basis, hcontents, hbasis,
              Bool.eq_false_iff.mpr hdb⟩

def Known (r : RightsMD) : Prop :=
  r.status ≠ some superseded → ∀ document basis, r.part.contents = .premis document →
    readBasis document = some basis → ∃ choice ∈ rightsBasisChoices, basis = some choice

theorem isSome_supersedeDeleted_iff : (supersedeDeleted rows r).isSome ↔ Known r := by
  rw [supersedeDeleted, Known]
  cases r.part.contents with
  | mdRef => simp
  | premis document =>
      have hknown : (∀ document' basis, Contents.premis document = .premis document' →
          readBasis document' = some basis → ∃ choice ∈ rightsBasisChoices, basis = some choice) ↔
            ∀ basis, readBasis document = some basis →
              ∃ choice ∈ rightsBasisChoices, basis = some choice :=
        ⟨fun h basis => h document basis rfl, fun h document' basis heq => Contents.premis.inj heq ▸ h basis⟩
      rw [hknown]
      by_cases hstatus : r.status = some superseded
      · simp [hstatus]
      · simp only [ne_eq, hstatus, not_false_eq_true, forall_const]
        rcases readBasis document with _ | _ | basis
        · simp
        · simp
        · by_cases hmem : basis ∈ rightsBasisChoices
          · simp [hmem]
          · simp [hmem]

theorem foldlM_addRightsElement_new (added : List Row) (l : List RightsMD) :
    added.foldlM (addRightsElement env fileUUID false) l =
      some (l ++ added.map fun row => ⟨newPart env fileUUID row, none⟩) := by
  induction added generalizing l with
  | nil => simp
  | cons row added ih =>
      rw [List.foldlM_cons, addRightsElement]
      simp [ih]

-- The third pass, at one row and one section of the file: what the row has for its target.

def target (env : Env) (fileUUID : UUID) (parts : List Part) (row : Row) : Option ℕ :=
  (selects env row.statement.rightsbasis).bind fun matching =>
    pick matching (parts ++ [newPart env fileUUID row])

theorem lt_of_pick {matching : Contents → Bool} {parts : List Part} (h : pick matching parts = some i) :
    i < parts.length := List.mem_range.mp (latest_eq_some h).1

theorem getElem?_modify_mark (status : Option Str) (l : List RightsMD) (i j : ℕ) :
    (l.modify i (RightsMD.mark status))[j]? =
      l[j]?.map fun r => if i = j then r.mark status else r := by
  rw [List.getElem?_modify, Option.map_eq_map]

theorem part_modify_mark (status : Option Str) (l : List RightsMD) (i : ℕ) :
    (l.modify i (RightsMD.mark status)).map RightsMD.part = l.map RightsMD.part := by
  refine List.ext_getElem? fun j => ?_
  rw [List.getElem?_map, List.getElem?_map, getElem?_modify_mark, Option.map_map]
  refine congrFun (congrArg Option.map (funext fun r => ?_)) l[j]?
  rw [Function.comp_apply]
  split_ifs <;> rfl

theorem part_replaceWith (env : Env) (i new : ℕ) (l : List RightsMD) :
    (replaceWith env i new l).map RightsMD.part = l.map RightsMD.part := by
  rw [replaceWith, RightsMD.supersede]
  split_ifs
  · exact part_modify_mark _ l i
  · rw [part_modify_mark, part_modify_mark]

-- A section that is replaced by the new one, and the new one.
theorem getElem?_replaceWith (env : Env) (i new j : ℕ) (l : List RightsMD) :
    (replaceWith env i new l)[j]? = l[j]?.map fun r =>
      if i = j then r.mark (if j = new then env.itself else some superseded)
      else if j = new then r.mark (some statusCurrent) else r := by
  rw [replaceWith, RightsMD.supersede]
  by_cases heq : i = new
  · subst heq
    rw [if_pos rfl, getElem?_modify_mark]
    refine congrFun (congrArg Option.map (funext fun r => ?_)) l[j]?
    by_cases hj : i = j
    · rw [if_pos hj, if_pos hj, if_pos hj.symm]
    · rw [if_neg hj, if_neg hj, if_neg (Ne.symm hj)]
  · rw [if_neg heq, getElem?_modify_mark, getElem?_modify_mark, Option.map_map]
    refine congrFun (congrArg Option.map (funext fun r => ?_)) l[j]?
    rw [Function.comp_apply]
    by_cases hj : i = j
    · subst hj
      rw [if_neg (Ne.symm heq), if_pos rfl, if_pos rfl, if_neg heq]
    · rw [if_neg hj, if_neg hj]
      exact if_congr eq_comm rfl rfl

-- One row of the third pass: a section is superseded if it was or is the target.
theorem getElem?_addRightsElement (h : addRightsElement env fileUUID true l row = some l') :
    l'[i]? = (l ++ [(⟨newPart env fileUUID row, none⟩ : RightsMD)])[i]?.map fun r =>
      if target env fileUUID (l.map RightsMD.part) row = some i then
        r.mark (if i = l.length then env.itself else some superseded)
      else if i = l.length ∧ target env fileUUID (l.map RightsMD.part) row ≠ none then
        r.mark (some statusCurrent)
      else r := by
  rw [addRightsElement, if_pos rfl] at h
  obtain ⟨matching, hmatching, h⟩ := Option.map_eq_some_iff.mp h
  have htarget : target env fileUUID (l.map RightsMD.part) row =
      pick matching ((l ++ [(⟨newPart env fileUUID row, none⟩ : RightsMD)]).map RightsMD.part) := by
    rw [target, hmatching, Option.bind_some, List.map_append]
    rfl
  rw [htarget]
  cases hpick : pick matching ((l ++ [(⟨newPart env fileUUID row, none⟩ : RightsMD)]).map RightsMD.part) with
  | none =>
      rw [hpick] at h
      obtain rfl := h
      simp
  | some k =>
      rw [hpick] at h
      obtain rfl := h
      rw [getElem?_replaceWith]
      simp

theorem part_addRightsElement (h : addRightsElement env fileUUID true l row = some l') :
    l'.map RightsMD.part = l.map RightsMD.part ++ [newPart env fileUUID row] := by
  rw [addRightsElement, if_pos rfl] at h
  obtain ⟨matching, -, rfl⟩ := Option.map_eq_some_iff.mp h
  rcases pick matching ((l ++ [(⟨newPart env fileUUID row, none⟩ : RightsMD)]).map RightsMD.part) with _ | k
  · simp
  · simp only [part_replaceWith]
    simp

theorem kept_addRightsElement (h : addRightsElement env fileUUID true l row = some l')
    (hr : l[i]? = some r) (ht : target env fileUUID (l.map RightsMD.part) row ≠ some i) :
    l'[i]? = some r := by
  have hi := (List.getElem?_eq_some_iff.mp hr).1
  rw [getElem?_addRightsElement h, List.getElem?_append_left hi, hr, Option.map_some, if_neg ht,
    if_neg fun heq => hi.ne heq.1]

theorem superseded_addRightsElement (h : addRightsElement env fileUUID true l row = some l') :
    Superseded l' i ↔ Superseded l i ∨ (target env fileUUID (l.map RightsMD.part) row = some i ∧
      (i = l.length → env.itself = some superseded)) := by
  have hcurrent : statusCurrent ≠ superseded := by decide
  rw [Superseded, getElem?_addRightsElement h, Superseded]
  rcases Nat.lt_trichotomy i l.length with hi | rfl | hi
  · have hne := hi.ne
    rw [List.getElem?_append_left hi, List.getElem?_eq_getElem hi]
    by_cases ht : target env fileUUID (l.map RightsMD.part) row = some i
    · simp [ht, hne, RightsMD.mark]
    · simp [ht, hne]
  · by_cases ht : target env fileUUID (l.map RightsMD.part) row = some l.length
    · simp [ht, RightsMD.mark]
    · by_cases hnone : target env fileUUID (l.map RightsMD.part) row = none
      · simp [hnone]
      · simp [ht, hnone, RightsMD.mark, hcurrent]
  · have hlong : (l ++ [(⟨newPart env fileUUID row, none⟩ : RightsMD)]).length ≤ i := by simp; omega
    rw [List.getElem?_eq_none hlong, List.getElem?_eq_none hi.le]
    refine iff_of_false (by simp) fun h => ?_
    rcases h with ⟨r, hr, -⟩ | ⟨ht, -⟩
    · cases hr
    · obtain ⟨matching, -, hpick⟩ := Option.bind_eq_some_iff.mp ht
      have := lt_of_pick hpick
      simp at this
      omega

theorem targets_cons (parts : List Part) (row : Row) (rest : List Row) :
    targets env fileUUID parts (row :: rest) =
      (parts.length, target env fileUUID parts row) ::
        targets env fileUUID (parts ++ [newPart env fileUUID row]) rest := rfl

theorem replaced_cons_iff {place : ℕ × Option ℕ} {places : List (ℕ × Option ℕ)} :
    Replaced env (place :: places) i ↔
      (place.2 = some i ∧ (place.1 = i → env.itself = some superseded)) ∨ Replaced env places i := by
  simp [Replaced]

-- The third pass: which sections are replaced is known before it.
theorem run_addRightsElement (h : added.foldlM (addRightsElement env fileUUID true) l = some l') :
    l'.map RightsMD.part = l.map RightsMD.part ++ added.map (newPart env fileUUID) ∧
    ∀ i, (Superseded l' i ↔ Superseded l i ∨
        Replaced env (targets env fileUUID (l.map RightsMD.part) added) i) ∧
      ∀ r, l[i]? = some r → ¬ Replaced env (targets env fileUUID (l.map RightsMD.part) added) i →
        l'[i]? = some r := by
  induction added generalizing l with
  | nil =>
      obtain rfl := Option.some.inj h
      refine ⟨by simp, fun i => ⟨?_, fun r hr _ => hr⟩⟩
      simp [targets, Replaced]
  | cons row added ih =>
      obtain ⟨l₁, hstep, hrest⟩ := Option.bind_eq_some_iff.mp h
      have hparts := part_addRightsElement hstep
      obtain ⟨hall, hplaces⟩ := ih hrest
      rw [hparts] at hall hplaces
      refine ⟨by rw [hall]; simp, fun i => ?_⟩
      rw [targets_cons, replaced_cons_iff, List.length_map]
      refine ⟨?_, fun r hr hnot => ?_⟩
      · rw [(hplaces i).1, superseded_addRightsElement hstep, or_assoc]
        simp only [eq_comm]
      · rw [not_or] at hnot
        refine (hplaces i).2 r (kept_addRightsElement hstep hr fun ht => hnot.1 ⟨ht, fun heq => ?_⟩) hnot.2
        have := (List.getElem?_eq_some_iff.mp hr).1
        omega

theorem exists_addRightsElement (h : ∀ row ∈ added, selects env row.statement.rightsbasis ≠ none)
    (l : List RightsMD) :
    ∃ l', added.foldlM (addRightsElement env fileUUID true) l = some l' := by
  induction added generalizing l with
  | nil => exact ⟨l, rfl⟩
  | cons row added ih =>
      rw [List.forall_mem_cons] at h
      obtain ⟨matching, hmatching⟩ := Option.ne_none_iff_exists'.mp h.1
      have hstep : ∃ l₁, addRightsElement env fileUUID true l row = some l₁ := by
        rw [addRightsElement, if_pos rfl, hmatching]
        exact ⟨_, rfl⟩
      obtain ⟨l₁, hstep⟩ := hstep
      obtain ⟨l', hrest⟩ := ih h.2 l₁
      exact ⟨l', by rw [List.foldlM_cons, hstep]; exact hrest⟩

theorem selects_of_run (h : added.foldlM (addRightsElement env fileUUID true) l = some l') :
    ∀ row ∈ added, selects env row.statement.rightsbasis ≠ none := by
  induction added generalizing l with
  | nil => simp
  | cons row added ih =>
      obtain ⟨l₁, hstep, hrest⟩ := Option.bind_eq_some_iff.mp h
      rw [List.forall_mem_cons]
      refine ⟨fun hnone => ?_, ih hrest⟩
      rw [addRightsElement, if_pos rfl, hnone] at hstep
      cases hstep

-- One file.

variable (rows env) in
def updateFile (fileUUID : UUID) (l : List RightsMD) : Option (List RightsMD) :=
  (l.mapM (supersedeDeleted rows)).bind fun l =>
    ((withStatus rows .original).foldlM (addRightsElement env fileUUID false) l).bind fun l =>
      (withStatus rows .updated).foldlM (addRightsElement env fileUUID true) l

structure Updated (rows : List Row) (env : Env) (fileUUID : UUID) (l l' : List RightsMD) : Prop where
  parts : l'.map RightsMD.part = allParts rows env fileUUID l
  superseded : ∀ i, Superseded l' i ↔ Gone rows env fileUUID l i
  kept : ∀ (i : ℕ) r, l[i]? = some r → ¬ Gone rows env fileUUID l i → l'[i]? = some r

theorem part_supersedeDeleted (h : supersedeDeleted rows r = some r') : r.part = r'.part := by
  rcases supersedeDeleted_eq_some h with ⟨rfl, -⟩ | ⟨rfl, -⟩ <;> rfl

theorem status_supersedeDeleted (h : supersedeDeleted rows r = some r') :
    r'.status = some superseded ↔ r.status = some superseded ∨ Deleted rows r := by
  rcases supersedeDeleted_eq_some h with ⟨rfl, hstatus | hnot⟩ | ⟨rfl, hdeleted⟩
  · exact iff_of_true hstatus (Or.inl hstatus)
  · exact ⟨Or.inl, fun h => h.elim id fun hdeleted => absurd hdeleted hnot⟩
  · exact iff_of_true rfl (Or.inr hdeleted)

theorem getElem?_mapM {l₁ : List RightsMD} (h : l.mapM (supersedeDeleted rows) = some l₁) (i : ℕ) :
    l₁[i]? = l[i]?.bind (supersedeDeleted rows) := by
  have hmap := congrArg (fun out => out[i]?) (MapM.mapM_eq_some_iff.mp h)
  simp only [List.getElem?_map] at hmap
  cases hi : l[i]? with
  | none =>
      rw [hi, Option.map_none, Option.map_eq_none_iff] at hmap
      rw [hmap, Option.bind_none]
  | some r =>
      rw [hi, Option.map_some] at hmap
      obtain ⟨r', hr', heq⟩ := Option.map_eq_some_iff.mp hmap
      rw [hr', Option.bind_some, ← heq]

theorem updated_of_updateFile (h : updateFile rows env fileUUID l = some l') :
    Updated rows env fileUUID l l' := by
  obtain ⟨l₁, hdeleted, h⟩ := Option.bind_eq_some_iff.mp h
  obtain ⟨l₂, hadded, h⟩ := Option.bind_eq_some_iff.mp h
  rw [foldlM_addRightsElement_new] at hadded
  obtain rfl := Option.some.inj hadded
  obtain ⟨hparts, hplaces⟩ := run_addRightsElement h
  have hold : (l₁ ++ (withStatus rows .original).map fun row =>
      (⟨newPart env fileUUID row, none⟩ : RightsMD)).map RightsMD.part =
        oldParts rows env fileUUID l := by
    rw [List.map_append, List.map_map, oldParts,
      MapM.map_of_mapM hdeleted fun _ _ => part_supersedeDeleted]
    rfl
  rw [hold] at hparts hplaces
  have hfirst : ∀ i, Superseded (l₁ ++ (withStatus rows .original).map fun row =>
      (⟨newPart env fileUUID row, none⟩ : RightsMD)) i ↔
        ∃ r, l[i]? = some r ∧ (r.status = some superseded ∨ Deleted rows r) := by
    intro i
    rw [Superseded]
    rcases Nat.lt_or_ge i l₁.length with hi | hi
    · rw [List.getElem?_append_left hi, getElem?_mapM hdeleted]
      cases hr : l[i]? with
      | none => simp
      | some r =>
          obtain ⟨r', hr'⟩ := MapM.isSome_of_mapM hdeleted (List.mem_of_getElem? hr)
          simp [hr', status_supersedeDeleted hr']
    · have hnone : l[i]? = none :=
        List.getElem?_eq_none (by rw [← MapM.length_mapM hdeleted]; exact hi)
      rw [List.getElem?_append_right hi, hnone, List.getElem?_map]
      cases (withStatus rows .original)[i - l₁.length]? <;> simp
  refine ⟨hparts, fun i => by rw [(hplaces i).1, hfirst, Gone], fun i r hr hgone => ?_⟩
  rw [Gone, not_or] at hgone
  refine (hplaces i).2 r ?_ hgone.2
  obtain ⟨r', hr'⟩ := MapM.isSome_of_mapM hdeleted (List.mem_of_getElem? hr)
  have hlt : i < l₁.length := by
    rw [MapM.length_mapM hdeleted]
    exact (List.getElem?_eq_some_iff.mp hr).1
  rw [List.getElem?_append_left hlt, getElem?_mapM hdeleted, hr, Option.bind_some, hr']
  rcases supersedeDeleted_eq_some hr' with ⟨rfl, -⟩ | ⟨-, hdel⟩
  · rfl
  · exact absurd ⟨r, hr, Or.inr hdel⟩ hgone.1

theorem exists_updateFile_iff :
    (∃ l', updateFile rows env fileUUID l = some l') ↔ (∀ r ∈ l, Known r) ∧
      ∀ row ∈ withStatus rows .updated, selects env row.statement.rightsbasis ≠ none := by
  constructor
  · rintro ⟨l', h⟩
    obtain ⟨l₁, hdeleted, h⟩ := Option.bind_eq_some_iff.mp h
    obtain ⟨l₂, -, h⟩ := Option.bind_eq_some_iff.mp h
    refine ⟨fun r hr => ?_, selects_of_run h⟩
    obtain ⟨r', hr'⟩ := MapM.isSome_of_mapM hdeleted hr
    exact (@isSome_supersedeDeleted_iff rows _).mp (by rw [hr']; rfl)
  · rintro ⟨hknown, hselects⟩
    obtain ⟨l₁, hdeleted⟩ := MapM.exists_mapM fun r hr =>
      (@isSome_supersedeDeleted_iff rows _).mpr (hknown r hr)
    obtain ⟨l', hrun⟩ := @exists_addRightsElement _ env fileUUID hselects
      (l₁ ++ (withStatus rows .original).map fun row => ⟨newPart env fileUUID row, none⟩)
    exact ⟨l', by rw [updateFile, hdeleted, Option.bind_some, foldlM_addRightsElement_new,
      Option.bind_some, hrun]⟩

theorem current_iff (h : Updated rows env fileUUID l l') {part : Part} {basis : Str}
    (hpart : (allParts rows env fileUUID l)[i]? = some part) (hr : l'[i]? = some r') :
    r'.isCurrent basis = true ↔ basisOf part.contents = some basis ∧ ¬ Gone rows env fileUUID l i := by
  rw [← h.parts, List.getElem?_map, hr, Option.map_some] at hpart
  obtain rfl := Option.some.inj hpart
  rw [RightsMD.isCurrent, Bool.and_eq_true, decide_eq_true_eq, decide_eq_true_eq, ← h.superseded,
    Superseded, hr]
  simp

theorem getElem?_of_part (h : Updated rows env fileUUID l l') {part : Part}
    (hpart : (allParts rows env fileUUID l)[i]? = some part) :
    ∃ r', l'[i]? = some r' ∧ r'.part = part := by
  rw [← h.parts, List.getElem?_map] at hpart
  exact Option.map_eq_some_iff.mp hpart

theorem part_of_getElem? (h : Updated rows env fileUUID l l') (hr : l'[i]? = some r') :
    (allParts rows env fileUUID l)[i]? = some r'.part := by
  rw [← h.parts, List.getElem?_map, hr, Option.map_some]

theorem allParts_old (hr : l[i]? = some r) : (allParts rows env fileUUID l)[i]? = some r.part := by
  have hi := (List.getElem?_eq_some_iff.mp hr).1
  rw [allParts, oldParts, List.append_assoc, List.getElem?_append_left (by simpa using hi),
    List.getElem?_map, hr, Option.map_some]

theorem allParts_updated (k : ℕ) :
    (allParts rows env fileUUID l)[(oldParts rows env fileUUID l).length + k]? =
      (withStatus rows .updated)[k]?.map (newPart env fileUUID) := by
  rw [allParts, List.getElem?_append_right (by omega), Nat.add_sub_cancel_left, List.getElem?_map]

theorem mem_withStatus {status : Status} : row ∈ withStatus rows status ↔ row ∈ rows ∧ row.status = status := by
  rw [withStatus, List.mem_filter, decide_eq_true_eq]

-- A section that is built from an updated row has its place among those.
theorem exists_place (hrow : row ∈ withStatus rows .updated) {part : Part} (hle : l.length ≤ i)
    (hpart : (allParts rows env fileUUID l)[i]? = some part) (heq : part.row = some row) :
    ∃ k, i = (oldParts rows env fileUUID l).length + k ∧ (withStatus rows .updated)[k]? = some row ∧
      part = newPart env fileUUID row := by
  rcases Nat.lt_or_ge i (oldParts rows env fileUUID l).length with hi | hi
  · rw [allParts, List.getElem?_append_left hi, oldParts,
      List.getElem?_append_right (by simpa using hle), List.getElem?_map] at hpart
    obtain ⟨row', hrow', rfl⟩ := Option.map_eq_some_iff.mp hpart
    obtain rfl : row' = row := Option.some.inj heq
    have horiginal := (mem_withStatus.mp (List.mem_of_getElem? hrow')).2
    rw [(mem_withStatus.mp hrow).2] at horiginal
    cases horiginal
  · obtain ⟨k, rfl⟩ := Nat.exists_eq_add_of_le hi
    rw [allParts_updated] at hpart
    obtain ⟨row', hrow', rfl⟩ := Option.map_eq_some_iff.mp hpart
    obtain rfl : row' = row := Option.some.inj heq
    exact ⟨k, rfl, hrow', rfl⟩

theorem mem_of_updatedOf {basis : Str} (h : updatedOf rows basis = [row]) :
    row ∈ withStatus rows .updated := by
  have hmem : row ∈ updatedOf rows basis := by rw [h]; exact List.mem_singleton_self row
  exact List.mem_of_mem_filter hmem

theorem fileGone_of_contract (hrun : updateFile rows env fileUUID l = some l')
    (h : FileContract rows l l') : FileGone rows env fileUUID l := by
  have hupdated := updated_of_updateFile hrun
  obtain ⟨hknown, hselects⟩ := exists_updateFile_iff.mp ⟨l', hrun⟩
  refine ⟨hknown, hselects, fun basis row hone hcurrent => ?_, fun i r basis hr hcurrent huntouched hgone => ?_⟩
  · obtain ⟨i, r, hle, hr, hrow, honly⟩ := h.replaced basis row hone hcurrent
    have hpart := part_of_getElem? hupdated hr
    obtain ⟨k, rfl, hk, heq⟩ := exists_place (mem_of_updatedOf hone) hle hpart hrow
    obtain ⟨hbasis, hnot⟩ := (current_iff hupdated hpart hr).mp ((honly _ r hr).mpr rfl)
    refine ⟨by rw [← heq]; exact hbasis, k, hk, hnot, fun j part hpart' hbasis' hne => ?_⟩
    by_contra hgone
    obtain ⟨r', hr', -⟩ := getElem?_of_part hupdated hpart'
    exact hne ((honly j r' hr').mp ((current_iff hupdated hpart' hr').mpr ⟨hbasis', hgone⟩))
  · rw [RightsMD.isCurrent, Bool.and_eq_true, decide_eq_true_eq, decide_eq_true_eq] at hcurrent
    obtain ⟨r', hr', -, hstatus⟩ := h.kept i r basis hr hcurrent.1 huntouched
    obtain ⟨r'', hr'', hsuperseded⟩ := (hupdated.superseded i).mpr hgone
    obtain rfl := Option.some.inj (hr'.symm.trans hr'')
    exact hcurrent.2 (hstatus ▸ hsuperseded)

theorem contract_of_fileGone (h : FileGone rows env fileUUID l) :
    ∃ l', updateFile rows env fileUUID l = some l' ∧ FileContract rows l l' := by
  obtain ⟨l', hrun⟩ := exists_updateFile_iff.mpr ⟨h.known, h.selected⟩
  have hupdated := updated_of_updateFile hrun
  refine ⟨l', hrun, fun basis row hone hcurrent => ?_, fun i r basis hr hbasis huntouched => ?_⟩
  · obtain ⟨hbasis, k, hk, hnot, hothers⟩ := h.replaced basis row hone hcurrent
    have hpart := @allParts_updated rows env fileUUID l k
    rw [hk, Option.map_some] at hpart
    obtain ⟨r, hr, heq⟩ := getElem?_of_part hupdated hpart
    refine ⟨_, r, ?_, hr, by rw [heq]; rfl, fun j r' hr' => ⟨fun hcurrent' => ?_, ?_⟩⟩
    · rw [oldParts, List.length_append, List.length_map]
      omega
    · by_contra hne
      have hpart' := part_of_getElem? hupdated hr'
      obtain ⟨hbasis', hgone⟩ := (current_iff hupdated hpart' hr').mp hcurrent'
      exact hgone (hothers j r'.part hpart' hbasis' hne)
    · rintro rfl
      exact (current_iff hupdated hpart hr').mpr ⟨hbasis, hnot⟩
  · by_cases hgone : Gone rows env fileUUID l i
    · have hstatus : r.status = some superseded := by
        by_contra hstatus
        refine h.kept i r basis hr ?_ huntouched hgone
        rw [RightsMD.isCurrent, hbasis]
        simp [hstatus]
      obtain ⟨r', hr', hsuperseded⟩ := (hupdated.superseded i).mpr hgone
      have hpart := part_of_getElem? hupdated hr'
      rw [allParts_old hr] at hpart
      exact ⟨r', hr', (Option.some.inj hpart).symm, hsuperseded.trans hstatus.symm⟩
    · exact ⟨r, hupdated.kept i r hr hgone, rfl, rfl⟩

-- What is read of a new section.
section Written

variable {row' : Row}

theorem otherRightsBasis_newPart {s : Statement} {getCodeForCountry : Str → Option Str} {uuid4 : Str}
    (h : Rights.rightsBasis s = other) :
    ((createRightsStatement getCodeForCountry uuid4 fileUUID s).findBelow .otherRightsBasis).head?.bind
      (·.get .text) = s.others.head?.map fun o =>
        if o.detail.basis = [] ∨ rightsBasisOther.contains s.rightsbasis then s.rightsbasis
        else o.detail.basis := by
  obtain ⟨b, hb, hbasis⟩ : ∃ b : Basis, b.isOther ∧ s.rightsbasis = b.text := by
    rw [Rights.rightsBasis] at h
    split_ifs at h with hmem
    · simp only [rightsBasisOther, List.contains_cons, List.contains_nil, Bool.or_false, Bool.or_eq_true,
        beq_iff_eq] at hmem
      rcases hmem with hpolicy | hdonor
      · exact ⟨.policy, Or.inr (Or.inl rfl), hpolicy⟩
      · exact ⟨.donor, Or.inl rfl, hdonor⟩
    · exact ⟨.other, Or.inr (Or.inr rfl), h⟩
  rw [findBelow_of_basis rfl, statementInformation_isOther hb hbasis, List.flatMap_singleton, iter_node,
    List.filter_cons_of_neg (by simp)]
  cases hothers : s.others with
  | nil => rfl
  | cons o others =>
      rw [List.flatMap_cons, List.flatMap_append, List.filter_append, filter_otherRightsBasis]
      rfl

theorem basisOf_newPart : basisOf (newPart env fileUUID row).contents = some (writtenBasis row.statement) := by
  simp only [newPart, basisOf, findBelow_rightsBasis, List.head?_cons, Option.bind_some, writtenBasis]
  have hleaf : (leaf .rightsBasis (Rights.rightsBasis row.statement)).get .text =
      some (Rights.rightsBasis row.statement) := rfl
  rw [hleaf]
  by_cases hother : Rights.rightsBasis row.statement = other
  · rw [if_pos (congrArg some hother), if_pos hother, otherRightsBasis_newPart hother]
    cases row.statement.others.head? with
    | none => rfl
    | some o =>
        simp only [Option.map_some]
        split_ifs <;> rfl
  · rw [if_neg fun h => hother (Option.some.inj h), if_neg hother, Rights.rightsBasis]
    split_ifs with hmem
    · exact absurd (by rw [Rights.rightsBasis, if_pos hmem]; rfl) hother
    · rfl

theorem findsNew_iff (hquote : row.statement.rightsbasis.contains quotationMark = false) :
    findsNew env fileUUID row row' = true ↔
      Rights.rightsBasis row'.statement = row.statement.rightsbasis := by
  rw [findsNew, finds, selects, if_neg (by rw [hquote]; exact Bool.false_ne_true), Option.any_some]
  simp only [hasRightsBasis, newPart, findBelow_rightsBasis, List.any_cons, List.any_nil, Bool.or_false,
    decide_eq_true_eq]
  exact Option.some_inj

-- Where a row finds a new section by its basis it finds its own.
theorem findsNew_self (hquote : row.statement.rightsbasis.contains quotationMark = false)
    (h : findsNew env fileUUID row row' = true) : findsNew env fileUUID row row = true := by
  have hbasis := (findsNew_iff hquote).mp h
  rw [findsNew_iff hquote, Rights.rightsBasis]
  split_ifs with hmem
  · rw [← hbasis, Rights.rightsBasis] at hmem
    split_ifs at hmem with hmem'
    · exact absurd hmem (by decide)
    · exact absurd hmem hmem'
  · rfl

-- No statement replaces the new section of another one, and one of Donor or Policy not its own.
theorem replacesNew_iff {k j : ℕ} (hquote : row.statement.rightsbasis.contains quotationMark = false)
    (hrow : (newRows rows)[k]? = some row) :
    ReplacesNew rows env fileUUID l k row j ↔
      j = k ∧ Rights.rightsBasis row.statement = row.statement.rightsbasis ∧
        ∀ r ∈ l, finds env row r.part.contents = true → r.part.created = none := by
  have hself : findsNew env fileUUID row row = true ↔ _ := findsNew_iff hquote
  rw [← hself]
  constructor
  · rintro ⟨⟨hle, ⟨row', hrow', hfound⟩, hlast⟩, hundated⟩
    have hown := findsNew_self hquote hfound
    refine ⟨?_, hown, hundated⟩
    rcases Nat.lt_or_eq_of_le hle with hlt | heq
    · have hnot := hlast k row hlt le_rfl hrow
      rw [hown] at hnot
      cases hnot
    · exact heq
  · rintro ⟨rfl, hown, hundated⟩
    exact ⟨⟨le_rfl, ⟨row, hrow, hown⟩, fun j' _ hlt hle => absurd hle (by omega)⟩, hundated⟩

end Written

-- Which section is replaced, by the dates.
section Target

def Part.date (part : Part) : WithBot Str := part.created

theorem target_eq_some_iff {parts : List Part} : target env fileUUID parts row = some i ↔
    ∃ part, (parts ++ [newPart env fileUUID row])[i]? = some part ∧ finds env row part.contents = true ∧
      ∀ (j : ℕ) part', (parts ++ [newPart env fileUUID row])[j]? = some part' →
        finds env row part'.contents = true → part'.date ≤ part.date ∧ (i < j → part'.date < part.date) := by
  generalize hall : parts ++ [newPart env fileUUID row] = all
  have htarget : target env fileUUID parts row = (selects env row.statement.rightsbasis).bind fun matching =>
      pick matching all := by rw [target, hall]
  have hdate : ∀ {k part}, all[k]? = some part → createdAt all k = part.date := by
    intro k part hk
    rw [createdAt, hk]
    rfl
  rw [htarget]
  unfold finds
  cases hselects : selects env row.statement.rightsbasis with
  | none => simp
  | some matching =>
      rw [Option.bind_some, pick, latest_range_eq_some_iff]
      constructor
      · intro h
        obtain ⟨part, hpart, hfound⟩ := (Option.any_eq_true _ _).mp h.test
        refine ⟨part, hpart, hfound, fun j part' hpart' hfound' => ?_⟩
        have hj := (List.getElem?_eq_some_iff.mp hpart').1
        have hlast := h.last j hj ((Option.any_eq_true _ _).mpr ⟨part', hpart', hfound'⟩)
        rwa [hdate hpart, hdate hpart'] at hlast
      · rintro ⟨part, hpart, hfound, hlast⟩
        refine ⟨(List.getElem?_eq_some_iff.mp hpart).1, (Option.any_eq_true _ _).mpr ⟨part, hpart, hfound⟩,
          fun j _ htest => ?_⟩
        obtain ⟨part', hpart', hfound'⟩ := (Option.any_eq_true _ _).mp htest
        rw [hdate hpart, hdate hpart']
        exact hlast j part' hpart' hfound'

theorem getElem?_sections {new : List Row} {part : Part} :
    (l.map RightsMD.part ++ new.map (newPart env fileUUID))[i]? = some part ↔
      (∃ r, l[i]? = some r ∧ part = r.part) ∨
        ∃ j row', i = l.length + j ∧ new[j]? = some row' ∧ part = newPart env fileUUID row' := by
  rcases Nat.lt_or_ge i l.length with hi | hi
  · rw [List.getElem?_append_left (by simpa using hi), List.getElem?_map, Option.map_eq_some_iff]
    constructor
    · rintro ⟨r, hr, rfl⟩
      exact Or.inl ⟨r, hr, rfl⟩
    · rintro (⟨r, hr, rfl⟩ | ⟨j, row', rfl, -⟩)
      · exact ⟨r, hr, rfl⟩
      · omega
  · obtain ⟨j, rfl⟩ := Nat.exists_eq_add_of_le hi
    rw [List.getElem?_append_right (by simp), List.length_map, Nat.add_sub_cancel_left, List.getElem?_map,
      Option.map_eq_some_iff]
    constructor
    · rintro ⟨row', hrow', rfl⟩
      exact Or.inr ⟨j, row', rfl, hrow', rfl⟩
    · rintro (⟨r, hr, -⟩ | ⟨j', row', heq, hrow', rfl⟩)
      · exact absurd (List.getElem?_eq_some_iff.mp hr).1 (by omega)
      · obtain rfl := Nat.add_left_cancel heq
        exact ⟨row', hrow', rfl⟩

theorem getElem?_take_succ {new : List Row} {k j : ℕ} :
    (new.take (k + 1))[j]? = some row ↔ j ≤ k ∧ new[j]? = some row := by
  rw [List.getElem?_take]
  split_ifs with hj
  · exact ⟨fun h => ⟨by omega, h⟩, fun h => h.2⟩
  · exact iff_of_false (by simp) fun h => absurd h.1 (by omega)

-- A section of the document, or a new one where all that the row finds in it have no date.
theorem target_iff {k : ℕ} (hrow : (newRows rows)[k]? = some row) :
    target env fileUUID (l.map RightsMD.part ++ ((newRows rows).take k).map (newPart env fileUUID)) row = some i ↔
      (∃ r, SupersededBy rows env fileUUID l k row i r) ∨
        ∃ j, i = l.length + j ∧ ReplacesNew rows env fileUUID l k row j := by
  have hall : l.map RightsMD.part ++ ((newRows rows).take k).map (newPart env fileUUID) ++
      [newPart env fileUUID row] =
        l.map RightsMD.part ++ ((newRows rows).take (k + 1)).map (newPart env fileUUID) := by
    rw [List.append_assoc, List.take_add_one, hrow, List.map_append]
    rfl
  have hnew : ∀ row', (newPart env fileUUID row').date = ⊥ := fun _ => rfl
  rw [target_eq_some_iff, hall]
  simp only [getElem?_sections, getElem?_take_succ]
  constructor
  · rintro ⟨part, ⟨r, hr, rfl⟩ | ⟨j, row', rfl, ⟨hle, hrow'⟩, rfl⟩, hfound, hlast⟩
    · refine Or.inl ⟨r, ⟨hr, hfound, fun j r' hr' => hlast j r'.part (Or.inl ⟨r', hr', rfl⟩)⟩, ?_⟩
      intro hnone j row' hj hrow'
      by_contra hfound'
      have hlater := (hlast _ _ (Or.inr ⟨j, row', rfl, ⟨hj, hrow'⟩, rfl⟩) (Bool.not_eq_false _ ▸ hfound')).2
        (by have := (List.getElem?_eq_some_iff.mp hr).1; omega)
      rw [Part.date, Part.date, hnone] at hlater
      exact not_lt_bot hlater
    · refine Or.inr ⟨j, rfl, ⟨hle, ⟨row', hrow', hfound⟩, fun j' row'' hlt hle' hrow'' => ?_⟩,
        fun r hr hfound' => ?_⟩
      · by_contra hfound'
        have hlater := (hlast _ _ (Or.inr ⟨j', row'', rfl, ⟨hle', hrow''⟩, rfl⟩)
          (Bool.not_eq_false _ ▸ hfound')).2 (by omega)
        exact lt_irrefl _ hlater
      · obtain ⟨i', hi'⟩ := List.mem_iff_getElem?.mp hr
        have hle' := (hlast i' r.part (Or.inl ⟨r, hi', rfl⟩) hfound').1
        exact le_bot_iff.mp hle'
  · rintro (⟨r, hnewest, hdated⟩ | ⟨j, rfl, ⟨hle, ⟨row', hrow', hfound⟩, hlast⟩, hundated⟩)
    · refine ⟨r.part, Or.inl ⟨r, hnewest.place, rfl⟩, hnewest.found, ?_⟩
      rintro j part (⟨r', hr', rfl⟩ | ⟨j', row', rfl, ⟨hle, hrow'⟩, rfl⟩) hfound
      · exact hnewest.last j r' hr' hfound
      · have hlt : (newPart env fileUUID row').date < r.part.date := by
          refine bot_lt_iff_ne_bot.mpr fun hnone => ?_
          have hnot := hdated hnone j' row' hle hrow'
          rw [findsNew, hfound] at hnot
          cases hnot
        exact ⟨hlt.le, fun _ => hlt⟩
    · refine ⟨_, Or.inr ⟨j, row', rfl, ⟨hle, hrow'⟩, rfl⟩, hfound, ?_⟩
      rintro i part (⟨r', hr', rfl⟩ | ⟨j', row'', rfl, ⟨hle', hrow''⟩, rfl⟩) hfound'
      · refine ⟨?_, fun hlt => ?_⟩
        · rw [Part.date, hundated r' (List.mem_of_getElem? hr') hfound']
          exact bot_le
        · have := (List.getElem?_eq_some_iff.mp hr').1
          omega
      · refine ⟨le_rfl, fun hlt => ?_⟩
        have hnot := hlast j' row'' (by omega) hle' hrow''
        rw [findsNew, hfound'] at hnot
        cases hnot

end Target

theorem mem_targets_iff {t : ℕ × Option ℕ} {parts : List Part} :
    t ∈ targets env fileUUID parts added ↔ ∃ k row, added[k]? = some row ∧
      t = (parts.length + k, target env fileUUID (parts ++ (added.take k).map (newPart env fileUUID)) row) := by
  induction added generalizing parts with
  | nil => simp [targets]
  | cons row added ih =>
      rw [targets_cons, List.mem_cons, ih]
      constructor
      · rintro (rfl | ⟨k, row', hrow', rfl⟩)
        · exact ⟨0, row, rfl, by simp⟩
        · refine ⟨k + 1, row', by simpa using hrow', ?_⟩
          rw [List.take_succ_cons, List.map_cons, List.length_append, List.append_assoc, List.singleton_append,
            List.length_singleton, Nat.add_assoc, Nat.add_comm 1 k]
      · rintro ⟨k, row', hrow', rfl⟩
        cases k with
        | zero =>
            obtain rfl : row = row' := by simpa using hrow'
            exact Or.inl (by simp)
        | succ k =>
            refine Or.inr ⟨k, row', by simpa using hrow', ?_⟩
            rw [List.take_succ_cons, List.map_cons, List.length_append, List.append_assoc, List.singleton_append,
              List.length_singleton, Nat.add_assoc, Nat.add_comm 1 k]

theorem adds_iff {k : ℕ} : Adds rows k row ↔
    ∃ k', k = (withStatus rows .original).length + k' ∧ (withStatus rows .updated)[k']? = some row := by
  rw [Adds, newRows]
  constructor
  · rintro ⟨hrow, hstatus⟩
    rcases Nat.lt_or_ge k (withStatus rows .original).length with hk | hk
    · rw [List.getElem?_append_left hk] at hrow
      have horiginal := (mem_withStatus.mp (List.mem_of_getElem? hrow)).2
      rw [hstatus] at horiginal
      cases horiginal
    · obtain ⟨k', rfl⟩ := Nat.exists_eq_add_of_le hk
      rw [List.getElem?_append_right hk, Nat.add_sub_cancel_left] at hrow
      exact ⟨k', rfl, hrow⟩
  · rintro ⟨k', rfl, hrow⟩
    rw [List.getElem?_append_right (by omega), Nat.add_sub_cancel_left]
    exact ⟨hrow, (mem_withStatus.mp (List.mem_of_getElem? hrow)).2⟩

-- What the third pass replaces: the sections of the document, and the new ones.
theorem replaced_targets_iff :
    Replaced env (targets env fileUUID (oldParts rows env fileUUID l) (withStatus rows .updated)) i ↔
      (∃ r, OldReplaced rows env fileUUID l i r) ∨
        ∃ j, i = l.length + j ∧ NewReplaced rows env fileUUID l j := by
  have hplace : ∀ {k' row}, (withStatus rows .updated)[k']? = some row →
      ∃ k, k = (withStatus rows .original).length + k' ∧ Adds rows k row ∧
        (oldParts rows env fileUUID l).length + k' = l.length + k ∧
        oldParts rows env fileUUID l ++ ((withStatus rows .updated).take k').map (newPart env fileUUID) =
          l.map RightsMD.part ++ ((newRows rows).take k).map (newPart env fileUUID) := by
    intro k' row hrow
    refine ⟨_, rfl, adds_iff.mpr ⟨k', rfl, hrow⟩, by simp [oldParts, Nat.add_assoc], ?_⟩
    rw [oldParts, newRows, List.append_assoc, ← List.map_append, List.take_length_add_append]
  have hold : ∀ {k row r}, SupersededBy rows env fileUUID l k row i r → i < l.length := fun h =>
    (List.getElem?_eq_some_iff.mp h.newest.place).1
  rw [Replaced]
  simp only [mem_targets_iff]
  constructor
  · rintro ⟨t, ⟨k', row, hrow, rfl⟩, htarget, hitself⟩
    obtain ⟨k, -, hadds, hlength, hparts⟩ := hplace hrow
    simp only [hlength, hparts] at htarget hitself
    rcases (target_iff hadds.1).mp htarget with ⟨r, hsuperseded⟩ | ⟨j, rfl, hreplaces⟩
    · exact Or.inl ⟨r, k, row, hadds, hsuperseded⟩
    · exact Or.inr ⟨j, rfl, k, row, hadds, hreplaces, fun heq => hitself (by rw [heq])⟩
  · intro h
    have hturn : ∃ k row, Adds rows k row ∧
        target env fileUUID (l.map RightsMD.part ++ ((newRows rows).take k).map (newPart env fileUUID)) row =
          some i ∧ (l.length + k = i → env.itself = some superseded) := by
      rcases h with ⟨r, k, row, hadds, hsuperseded⟩ | ⟨j, rfl, k, row, hadds, hreplaces, hitself⟩
      · refine ⟨k, row, hadds, (target_iff hadds.1).mpr (Or.inl ⟨r, hsuperseded⟩), fun heq => ?_⟩
        have := hold hsuperseded
        omega
      · exact ⟨k, row, hadds, (target_iff hadds.1).mpr (Or.inr ⟨j, rfl, hreplaces⟩),
          fun heq => hitself (by omega)⟩
    obtain ⟨k, row, hadds, htarget, hitself⟩ := hturn
    obtain ⟨k', rfl, hrow⟩ := adds_iff.mp hadds
    obtain ⟨_, rfl, -, hlength, hparts⟩ := hplace hrow
    refine ⟨_, ⟨k', row, hrow, rfl⟩, ?_, ?_⟩
    · rw [hparts]
      exact htarget
    · rw [hlength]
      exact hitself

theorem gone_old_iff (hr : l[i]? = some r) : Gone rows env fileUUID l i ↔
    r.status = some superseded ∨ Deleted rows r ∨ OldReplaced rows env fileUUID l i r := by
  rw [Gone, replaced_targets_iff, hr]
  refine (or_congr (by simp) ⟨?_, fun h => Or.inl ⟨r, h⟩⟩).trans or_assoc
  rintro (⟨r', k, row, hadds, hsuperseded⟩ | ⟨j, rfl, -⟩)
  · obtain rfl := Option.some.inj (hr.symm.trans hsuperseded.newest.place)
    exact ⟨k, row, hadds, hsuperseded⟩
  · exact absurd (List.getElem?_eq_some_iff.mp hr).1 (by omega)

theorem gone_new_iff {j : ℕ} : Gone rows env fileUUID l (l.length + j) ↔ NewReplaced rows env fileUUID l j := by
  have hnone : l[l.length + j]? = none := List.getElem?_eq_none (by omega)
  rw [Gone, replaced_targets_iff, hnone]
  constructor
  · rintro (⟨r, hr, -⟩ | ⟨r, k, row, hadds, hsuperseded⟩ | ⟨j', heq, hreplaced⟩)
    · cases hr
    · exact absurd (hnone.symm.trans hsuperseded.newest.place) (by simp)
    · obtain rfl := Nat.add_left_cancel heq
      exact hreplaced
  · exact fun h => Or.inr (Or.inr ⟨j, rfl, h⟩)

theorem allParts_eq : allParts rows env fileUUID l =
    l.map RightsMD.part ++ (newRows rows).map (newPart env fileUUID) := by
  rw [allParts, oldParts, newRows, List.append_assoc, List.map_append]

theorem isCurrent_iff {basis : Str} : r.isCurrent basis = true ↔
    basisOf r.part.contents = some basis ∧ r.status ≠ some superseded := by
  rw [RightsMD.isCurrent, Bool.and_eq_true, decide_eq_true_eq, decide_eq_true_eq]

-- A row that is the only updated one of its basis is there once.
theorem place_eq_of_updatedOf {basis : Str} (h : updatedOf rows basis = [row]) {k k' : ℕ}
    (hk : (newRows rows)[k]? = some row) (hk' : (newRows rows)[k']? = some row) : k = k' := by
  have hupdated := mem_of_updatedOf h
  have hmem : row ∈ updatedOf rows basis := by rw [h]; exact List.mem_singleton_self row
  have horiginal : (withStatus rows .original).count row = 0 := by
    refine List.count_eq_zero.mpr fun hmem => ?_
    have hstatus := (mem_withStatus.mp hmem).2
    rw [(mem_withStatus.mp hupdated).2] at hstatus
    cases hstatus
  have hone : (withStatus rows .updated).count row = 1 := by
    rw [← List.count_filter (p := fun row : Row => decide (row.statement.rightsbasis = basis))
      (List.mem_filter.mp hmem).2]
    exact (congrArg (List.count row) h).trans List.count_singleton_self
  have hcount : ¬ (newRows rows).Duplicate row := by
    rw [List.duplicate_iff_two_le_count, newRows, List.count_append]
    omega
  obtain ⟨hlt, hget⟩ := List.getElem?_eq_some_iff.mp hk
  obtain ⟨hlt', hget'⟩ := List.getElem?_eq_some_iff.mp hk'
  rcases Nat.lt_trichotomy k k' with hcmp | rfl | hcmp
  · exact absurd (List.duplicate_iff_exists_distinct_get.mpr
      ⟨⟨k, hlt⟩, ⟨k', hlt'⟩, hcmp, hget.symm, hget'.symm⟩) hcount
  · rfl
  · exact absurd (List.duplicate_iff_exists_distinct_get.mpr
      ⟨⟨k', hlt'⟩, ⟨k, hlt⟩, hcmp, hget'.symm, hget.symm⟩) hcount

theorem fileGone_iff : FileGone rows env fileUUID l ↔ FileClear rows env fileUUID l := by
  have hlength : ∀ k, (oldParts rows env fileUUID l).length + k =
      l.length + ((withStatus rows .original).length + k) := by
    intro k
    simp [oldParts, Nat.add_assoc]
  refine ⟨fun h => ⟨h.known, h.selected, fun basis row hone hcurrent => ?_,
      fun i r basis hr hcurrent hrest => ?_⟩,
    fun h => ⟨h.known, h.selected, fun basis row hone hcurrent => ?_,
      fun i r basis hr hcurrent hrest => ?_⟩⟩
  · obtain ⟨hbasis, k, hk, hnot, hothers⟩ := h.replaced basis row hone hcurrent
    rw [hlength] at hnot hothers
    have hadds : Adds rows _ row := adds_iff.mpr ⟨k, rfl, hk⟩
    refine ⟨?_, fun k' hk' => ?_, fun k' row' hrow' hne hbasis' => ?_, fun i r hr hcurrent' => ?_⟩
    · exact Option.some.inj (basisOf_newPart.symm.trans hbasis)
    · obtain rfl := place_eq_of_updatedOf hone hadds.1 hk'
      rwa [gone_new_iff] at hnot
    · rw [← gone_new_iff]
      refine hothers _ (newPart env fileUUID row') ?_ (basisOf_newPart.trans (congrArg some hbasis')) ?_
      · rw [allParts_eq, getElem?_sections]
        exact Or.inr ⟨k', row', rfl, hrow', rfl⟩
      · intro heq
        obtain rfl := Nat.add_left_cancel heq
        exact hne (Option.some.inj (hrow'.symm.trans hadds.1))
    · obtain ⟨hbasis', hstatus⟩ := isCurrent_iff.mp hcurrent'
      have hi := (List.getElem?_eq_some_iff.mp hr).1
      have hgone := hothers i r.part (allParts_old hr) hbasis' (by omega)
      exact ((gone_old_iff hr).mp hgone).resolve_left hstatus
  · have hnot := h.kept i r basis hr hcurrent hrest
    rw [gone_old_iff hr, not_or, not_or] at hnot
    exact hnot.2
  · obtain ⟨hwritten, hown, hnew, hold⟩ := h.renewed basis row hone hcurrent
    obtain ⟨k, hk⟩ := List.mem_iff_getElem?.mp (mem_of_updatedOf hone)
    have hadds : Adds rows _ row := adds_iff.mpr ⟨k, rfl, hk⟩
    refine ⟨basisOf_newPart.trans (congrArg some hwritten), k, hk, ?_, fun i part hpart hbasis hne => ?_⟩
    · rw [hlength, gone_new_iff]
      exact hown _ hadds.1
    · rw [allParts_eq, getElem?_sections] at hpart
      rcases hpart with ⟨r, hr, rfl⟩ | ⟨j, row', rfl, hrow', rfl⟩
      · rw [gone_old_iff hr]
        by_cases hstatus : r.status = some superseded
        · exact Or.inl hstatus
        · exact Or.inr (hold i r hr (isCurrent_iff.mpr ⟨hbasis, hstatus⟩))
      · rw [gone_new_iff]
        refine hnew j row' hrow' ?_ (Option.some.inj (basisOf_newPart.symm.trans hbasis))
        rintro rfl
        exact hne (by rw [hlength, place_eq_of_updatedOf hone hrow' hadds.1])
  · obtain ⟨hdeleted, hreplaced⟩ := h.kept i r basis hr hcurrent hrest
    rw [gone_old_iff hr, not_or, not_or]
    exact ⟨(isCurrent_iff.mp hcurrent).2, hdeleted, hreplaced⟩

theorem onFirst_bind (f : OriginalFile) (g : List RightsMD → Option (List RightsMD))
    (k : UUID → List RightsMD → Option (List RightsMD)) :
    ((f.onFirst g).bind fun f => f.onFirst (k f.uuid)) = f.onFirst fun l => (g l).bind (k f.uuid) := by
  rw [OriginalFile.onFirst, OriginalFile.onFirst]
  cases f.amdsecs with
  | nil => rfl
  | cons l rest =>
      cases hg : g l with
      | none => simp [hg]
      | some l' => simp [hg, OriginalFile.onFirst]

theorem updateRights_eq (env : Env) (rows : List Row) (files : List OriginalFile) :
    updateRights env rows files = files.mapM fun (f : OriginalFile) => f.onFirst (updateFile rows env f.uuid) := by
  have hpasses : ∀ f : OriginalFile, (addRightsElements env (withStatus rows .original) false f).bind
      (addRightsElements env (withStatus rows .updated) true) = f.onFirst fun l =>
        ((withStatus rows .original).foldlM (addRightsElement env f.uuid false) l).bind fun l =>
          (withStatus rows .updated).foldlM (addRightsElement env f.uuid true) l := fun f =>
    onFirst_bind f _ fun fileUUID l =>
      (withStatus rows .updated).foldlM (addRightsElement env fileUUID true) l
  rw [updateRights]
  simp only [MapM.bind_mapM, hpasses]
  refine congrArg (fun step => files.mapM step) (funext fun f => ?_)
  exact onFirst_bind f _ fun fileUUID l =>
    ((withStatus rows .original).foldlM (addRightsElement env fileUUID false) l).bind fun l =>
      (withStatus rows .updated).foldlM (addRightsElement env fileUUID true) l

end Proofs

-- The function does what it has to exactly when all bases are among the choices, and by their
-- dates the sections of a renewed basis are superseded, those of an untouched one are not.
theorem updateRights_contract_iff (env : Env) (rows : List Row) (files : List OriginalFile) :
    Contract rows env files ↔ Clear rows env files := by
  constructor
  · intro h
    obtain ⟨after, hrun, hall⟩ := h.updated
    rw [updateRights_eq] at hrun
    refine ⟨fun f hf => ?_⟩
    obtain ⟨f', hf', l, l', rest, hamdsecs, hamdsecs', hcontract⟩ :=
      MapM.exists_mapM_forall₂.mp ⟨after, hrun, hall⟩ f hf
    rw [OriginalFile.onFirst, hamdsecs] at hf'
    obtain ⟨l'', hl'', rfl⟩ := Option.map_eq_some_iff.mp hf'
    obtain ⟨rfl, -⟩ := List.cons.inj hamdsecs'
    exact ⟨l, rest, hamdsecs, fileGone_iff.mp (fileGone_of_contract hl'' hcontract)⟩
  · intro h
    have hall := MapM.exists_mapM_forall₂ (f := fun f : OriginalFile => f.onFirst (updateFile rows env f.uuid))
      (R := fun f f' => ∃ l l' rest, f.amdsecs = l :: rest ∧ f'.amdsecs = l' :: rest ∧ FileContract rows l l')
      (l := files)
    rw [← updateRights_eq] at hall
    refine ⟨hall.mpr fun f hf => ?_⟩
    obtain ⟨l, rest, hamdsecs, hclear⟩ := h.file f hf
    obtain ⟨l', hrun, hcontract⟩ := contract_of_fileGone (fileGone_iff.mpr hclear)
    refine ⟨{ f with amdsecs := l' :: rest }, ?_, l, l', rest, hamdsecs, rfl, hcontract⟩
    rw [OriginalFile.onFirst, hamdsecs]
    simp only [hrun, Option.map_some]

-- A statement of a donor that is updated: nothing is found to be replaced.
namespace Donor

def donor : Str := "Donor".toList

def env : Env := ⟨fun _ => none, fun _ _ => [], fun _ => none, none⟩

def row : Row where
  status := .updated
  statement :=
    { identifierType := []
      identifierValue := []
      rightsbasis := donor
      copyrights := []
      licenses := []
      statutes := []
      others := [⟨⟨[]⟩, ⟨[], [], false⟩, [], []⟩]
      granted := [] }

-- The file with the section that the same statement gave in the first ingest.
def file : OriginalFile where
  uuid := ⟨1⟩
  amdsecs :=
    [[⟨{ newPart env ⟨1⟩ row with created := some "2024-01-01T00:00:00".toList, row := none },
      some statusCurrent⟩]]

theorem both_current : ¬ Contract [row] env [file] := by
  intro h
  obtain ⟨after, hrun, hall⟩ := h.updated
  have hcurrent : (updateRights env [row] [file]).map (fun files => files.map fun f =>
      f.amdsecs.map fun l => l.map (RightsMD.isCurrent donor)) = some [[[true, true]]] := by
    decide +kernel
  rw [hrun, Option.map_some, Option.some.injEq] at hcurrent
  cases hall with
  | cons hfile hnil =>
      cases hnil
      obtain ⟨l, l', rest, hl, hl', hcontract⟩ := hfile
      obtain ⟨rfl, rfl⟩ := List.cons.inj hl
      rw [List.map_cons, List.map_nil, hl'] at hcurrent
      have hboth : l'.map (RightsMD.isCurrent donor) = [true, true] := by simpa using hcurrent
      obtain ⟨i, r, -, -, -, honly⟩ := hcontract.replaced donor row (by decide +kernel) (by decide +kernel)
      obtain ⟨r₀, rest, rfl, h₀, hrest⟩ := List.map_eq_cons_iff.mp hboth
      obtain ⟨r₁, rest, rfl, h₁, -⟩ := List.map_eq_cons_iff.mp hrest
      have hzero := (honly 0 r₀ rfl).mp h₀
      have hone := (honly 1 r₁ rfl).mp h₁
      omega

end Donor

end Ccp.Worker.Reingest.UpdateRights
