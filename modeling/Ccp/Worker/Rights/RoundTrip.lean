import Ccp.Worker.Rights
import Mathlib.Data.List.Forall2

namespace Ccp.Worker.Rights

open Lib

-- The choices for the basis of a statement.
inductive Basis
  | copyright
  | license
  | statute
  | donor
  | policy
  | other
deriving DecidableEq

def Basis.text : Basis → Str
  | copyright => "Copyright".toList
  | license => "License".toList
  | statute => "Statute".toList
  | donor => "Donor".toList
  | policy => "Policy".toList
  | other => Rights.other

def restrictions : List Str := ["Allow".toList, "Disallow".toList, "Conditional".toList]

-- What is read against what was written, the dates and jurisdictions as they are rewritten.

structure SameDates (r d : Dates) : Prop where
  start : r.start = formatDate d.start
  end_ : r.end_ = formatDate d.end_
  endOpen : r.endOpen = d.endOpen

structure SameInformation {α : Type} (same : α → α → Prop) (r i : Information α) : Prop where
  detail : same r.detail i.detail
  dates : SameDates r.dates i.dates
  notes : r.notes.Perm i.notes
  identifiers : r.identifiers.Perm i.identifiers

structure SameGranted (r g : Granted) : Prop where
  act : r.act = g.act
  dates : SameDates r.dates g.dates
  restrictions : r.restrictions.Perm g.restrictions
  notes : r.notes.Perm g.notes

def SameCopyright (getCodeForCountry : Str → Option Str) (r c : Copyright) : Prop :=
  r.status = c.status ∧ r.jurisdiction = copyrightJurisdiction getCodeForCountry c.jurisdiction ∧
    r.determinationDate = formatDate c.determinationDate

def SameStatute (r s : Statute) : Prop :=
  r.jurisdiction = s.jurisdiction ∧ r.citation = s.citation ∧
    r.determinationDate = formatDate s.determinationDate

-- The rows of the basis; the other rights are known by the basis of the statement.
def SameRows (getCodeForCountry : Str → Option Str) (b : Basis) (r s : Statement) : Prop :=
  match b with
  | .copyright =>
      List.Forall₂ (SameInformation (SameCopyright getCodeForCountry)) r.copyrights s.copyrights
  | .license => List.Forall₂ (SameInformation (· = ·)) r.licenses s.licenses
  | .statute => List.Forall₂ (SameInformation SameStatute) r.statutes s.statutes
  | .donor | .policy | .other =>
      List.Forall₂ (SameInformation fun _ _ => True) r.others s.others

structure Same (getCodeForCountry : Str → Option Str) (r s : Statement) : Prop where
  basis : r.rightsbasis = s.rightsbasis
  rows : ∀ b : Basis, s.rightsbasis = b.text → SameRows getCodeForCountry b r s
  granted : List.Forall₂ SameGranted r.granted s.granted

-- What can be read back.

def Dates.Sane (d : Dates) : Prop := if d.endOpen then d.end_ = [] else d.end_ ≠ open_

structure Information.Single {α : Type} (i : Information α) : Prop where
  note : i.notes.length = 1
  identifier : i.identifiers.length = 1
  dates : i.dates.Sane

structure Granted.Single (g : Granted) : Prop where
  restriction : g.restrictions.length = 1
  note : g.notes.length = 1
  dates : g.dates.Sane

def SingleRow (b : Basis) (s : Statement) : Prop :=
  match b with
  | .copyright => ∃ i, s.copyrights = [i] ∧ i.Single
  | .license => ∃ i, s.licenses = [i] ∧ i.Single
  | .statute => ∃ i, s.statutes = [i] ∧ i.Single
  | .donor | .policy => ∃ i, s.others = [i] ∧ i.Single
  | .other => ∃ i, s.others = [i] ∧ i.Single ∧ (i.detail.basis = [] ∨ i.detail.basis = Rights.other)

structure Statement.Single (s : Statement) : Prop where
  row : ∀ b : Basis, s.rightsbasis = b.text → SingleRow b s
  granted : ∀ g ∈ s.granted, g.Single

-- Elements and the texts in them.

@[simp] theorem tag_leaf (t : Tag) (x : Str) : (leaf t x).tag = t := rfl

@[simp] theorem tag_node (t : Tag) (cs : List El) : (node t cs).tag = t := rfl

@[simp] theorem children_node (t : Tag) (cs : List El) : (node t cs).children = cs := rfl

@[simp] theorem get_text_leaf (t : Tag) (x : Str) : (leaf t x).get .text = some x := rfl

@[simp] theorem iter_leaf (t : Tag) (x : Str) : (leaf t x).iter = [leaf t x] := by
  rw [leaf, Element.iter_mk]
  rfl

@[simp] theorem iter_node (t : Tag) (cs : List El) :
    (node t cs).iter = node t cs :: cs.flatMap Element.iter := by
  rw [node, Element.iter_mk]

@[simp] theorem findtext_nil (d : Str) : findtext [] d = d := rfl

@[simp] theorem findtext_leaf (t : Tag) (x : Str) (rest : List El) :
    findtext (leaf t x :: rest) [] = x := by
  by_cases h : x = []
  · simp [findtext, h]
  · simp [findtext, h]

theorem formatDate_eq_map (x : Str) : formatDate x = x.map fun c => if c = '/' then '-' else c := by
  rw [formatDate, replaceAll_singleton, List.map_eq_flatMap]
  refine List.flatMap_congr fun c _ => ?_
  split_ifs <;> rfl

@[simp] theorem formatDate_eq_nil_iff {x : Str} : formatDate x = [] ↔ x = [] := by
  rw [formatDate_eq_map, List.map_eq_nil_iff]

theorem formatDate_eq_open_iff {x : Str} : formatDate x = open_ ↔ x = open_ := by
  have hsame : ∀ {x y : Str}, '-' ∉ y → formatDate x = y → x = y := by
    intro x
    induction x with
    | nil => exact fun _ h => h
    | cons c x ih =>
        intro y hy h
        rw [formatDate_eq_map, List.map_cons] at h
        subst h
        rw [List.mem_cons, not_or, ← formatDate_eq_map] at hy
        rw [← formatDate_eq_map, ← ih hy.2 rfl]
        split_ifs with hc
        · exact absurd (by rw [if_pos hc]) hy.1
        · rfl
  exact ⟨hsame (by decide), fun h => by rw [h]; decide⟩

-- What is read of the dates that were written.
def readBack (d : Dates) : Dates :=
  readDates (formatDate d.start) (if d.endOpen then open_ else formatDate d.end_)

theorem sameDates_readBack_iff {d : Dates} : SameDates (readBack d) d ↔ d.Sane := by
  have hsame : SameDates (readBack d) d ↔
      (readBack d).end_ = formatDate d.end_ ∧ (readBack d).endOpen = d.endOpen := by
    refine ⟨fun h => ⟨h.end_, h.endOpen⟩, fun h => ⟨?_, h.1, h.2⟩⟩
    rw [readBack, readDates]
    split_ifs <;> rfl
  rw [hsame, readBack, readDates, Dates.Sane]
  cases hopen : d.endOpen with
  | true =>
      simp only [if_true, and_true]
      rw [eq_comm, formatDate_eq_nil_iff]
  | false =>
      simp only [Bool.false_eq_true, if_false, formatDate_eq_open_iff]
      split_ifs with h <;> simp [h]

theorem readDates_startEndDate (name : Tag) (d : Dates) :
    readDates (findtext ((startEndDate name d).flatMap (·.findall .startDate)) [])
      (findtext ((startEndDate name d).flatMap (·.findall .endDate)) []) = readBack d := by
  by_cases hnone : d.start = [] ∧ d.end_ = [] ∧ d.endOpen = false
  · have hformat : formatDate [] = [] := rfl
    simp [startEndDate, hnone, readBack, hformat]
  · by_cases hend : (if d.endOpen then open_ else formatDate d.end_) = []
    · simp [startEndDate, hnone, readBack, hend, Element.findall]
    · simp [startEndDate, hnone, readBack, hend, Element.findall]

-- The elements of the dates and no others.
theorem filter_startEndDate {name t : Tag} (d : Dates) (hstart : t ≠ .startDate) (hend : t ≠ .endDate) :
    ((startEndDate name d).flatMap Element.iter).filter (·.tag = t) =
      if name = t then startEndDate name d else [] := by
  rw [startEndDate]
  split_ifs <;> simp_all [Ne.symm hstart, Ne.symm hend]

-- The elements that stand in the information of a basis only.
def Tag.ofBasis : Tag → Bool
  | .information _ | .documentationIdentifier _ | .documentationIdentifierType _ => true
  | .documentationIdentifierValue _ | .documentationRole _ | .note _ | .applicableDates _ => true
  | .copyrightStatus | .jurisdiction _ | .copyrightStatusDeterminationDate => true
  | .licenseTerms | .statuteCitation | .statuteInformationDeterminationDate => true
  | .otherRightsBasis => true
  | _ => false

-- The tags of the elements and of those below them.
def Within (p : Tag → Prop) (l : List El) : Prop := ∀ e ∈ l.flatMap Element.iter, p e.tag

section Within

variable {p : Tag → Prop} {t : Tag}

@[simp] theorem within_nil : Within p [] := by simp [Within]

@[simp] theorem within_append {a b : List El} : Within p (a ++ b) ↔ Within p a ∧ Within p b := by
  simp only [Within, List.flatMap_append, List.forall_mem_append]

@[simp] theorem within_leaf {x : Str} {l : List El} :
    Within p (leaf t x :: l) ↔ p t ∧ Within p l := by
  simp [Within]

@[simp] theorem within_node {cs l : List El} :
    Within p (node t cs :: l) ↔ p t ∧ Within p cs ∧ Within p l := by
  simp only [Within, List.flatMap_cons, iter_node, List.cons_append, List.forall_mem_cons,
    List.forall_mem_append, tag_node]

theorem within_map {α : Type} {f : α → El} (xs : List α) (h : ∀ x, Within p [f x]) :
    Within p (xs.map f) := by
  induction xs with
  | nil => exact within_nil
  | cons x xs ih =>
      rw [List.map_cons, ← List.singleton_append]
      exact within_append.mpr ⟨h x, ih⟩

theorem within_flatMap {α : Type} {f : α → List El} (xs : List α) (h : ∀ x, Within p (f x)) :
    Within p (xs.flatMap f) := by
  induction xs with
  | nil => exact within_nil
  | cons x xs ih => exact within_append.mpr ⟨h x, ih⟩

theorem within_notes (h : p t) (xs : List Str) : Within p (xs.map (leaf t)) :=
  within_map xs fun _ => within_leaf.mpr ⟨h, within_nil⟩

theorem within_dates {name : Tag} (d : Dates) (hname : p name) (hstart : p .startDate)
    (hend : p .endDate) : Within p (startEndDate name d) := by
  by_cases hnone : d.start = [] ∧ d.end_ = [] ∧ d.endOpen = false
  · simp [startEndDate, hnone]
  · by_cases hopen : (if d.endOpen then open_ else formatDate d.end_) = []
    · simp [startEndDate, hnone, hopen, hname, hstart]
    · simp [startEndDate, hnone, hopen, hname, hstart, hend]

theorem Within.filter_eq_nil {l : List El} (h : Within p l) (ht : ¬ p t) :
    (l.flatMap Element.iter).filter (·.tag = t) = [] := by
  rw [List.filter_eq_nil_iff]
  intro e he htag
  exact ht (by simpa [decide_eq_true_eq.mp htag] using h e he)

end Within

theorem tag_term {g : Granted} {name : Tag} (h : term g = some name) :
    name = .termOfGrant ∨ name = .termOfRestriction := by
  simp only [term] at h
  split_ifs at h <;> simp_all

-- The elements below a grant.
def Tag.ofGrant (t : Tag) : Prop := t.ofBasis = false ∧ t ≠ .rightsGranted ∧ t ≠ .rightsBasis

theorem within_rightsGranted (g : Granted) : Within Tag.ofGrant (rightsGranted g).children := by
  have hnotes := within_notes (p := Tag.ofGrant) (t := .rightsGrantedNote) ⟨rfl, by simp⟩ g.notes
  rw [rightsGranted, children_node, List.cons_append, within_leaf, within_append]
  refine ⟨⟨rfl, by simp⟩, within_notes ⟨rfl, by simp⟩ _, ?_⟩
  split_ifs
  · split
    · exact within_nil
    · next name hname =>
        refine within_append.mpr ⟨within_dates _ ?_ ⟨rfl, by simp⟩ ⟨rfl, by simp⟩, hnotes⟩
        rcases tag_term hname with rfl | rfl <;> exact ⟨rfl, by simp⟩
  · exact hnotes

-- The elements of the information of a basis.
def Tag.inBasis (t : Tag) : Prop := t.ofBasis = true ∨ t = .startDate ∨ t = .endDate

theorem within_identifiers (k : Kind) (is : List DocumentationIdentifier) :
    Within Tag.inBasis (is.map (documentationIdentifier k)) := by
  refine within_map is fun i => ?_
  simp [documentationIdentifier, Tag.inBasis, Tag.ofBasis]

theorem within_applicableDates (k : Kind) (d : Dates) :
    Within Tag.inBasis (startEndDate (.applicableDates k) d) :=
  within_dates d (Or.inl rfl) (Or.inr (Or.inl rfl)) (Or.inr (Or.inr rfl))

variable {getCodeForCountry : Str → Option Str} {s : Statement}

theorem within_statementInformation :
    Within Tag.inBasis (statementInformation getCodeForCountry s) := by
  have hnotes : ∀ k (xs : List Str), Within Tag.inBasis (xs.map (leaf (.note k))) :=
    fun k => within_notes (Or.inl rfl)
  simp only [statementInformation]
  split_ifs
  · refine within_map _ fun c => ?_
    simp [copyrightInformation, within_identifiers, within_applicableDates, hnotes,
      Tag.inBasis, Tag.ofBasis]
  · refine within_map _ fun l => ?_
    simp [licenseInformation, within_identifiers, within_applicableDates, hnotes,
      Tag.inBasis, Tag.ofBasis]
  · refine within_map _ fun st => ?_
    simp [statuteInformation, within_identifiers, within_applicableDates, hnotes,
      Tag.inBasis, Tag.ofBasis]
  · refine within_node.mpr ⟨Or.inl rfl, within_flatMap _ fun o => ?_, within_nil⟩
    simp [otherRights, within_identifiers, within_applicableDates, hnotes,
      Tag.inBasis, Tag.ofBasis]
  · exact within_nil

variable {uuid4 : Str} {file : UUID}

-- What is looked for in the information of the basis is found there.
theorem findBelow_of_basis {t : Tag} (ht : t.ofBasis = true) :
    (createRightsStatement getCodeForCountry uuid4 file s).findBelow t =
      ((statementInformation getCodeForCountry s).flatMap Element.iter).filter (·.tag = t) := by
  have hother : ¬ t.ofBasis = false := by simp [ht]
  have hfront : Within (·.ofBasis = false)
      [rightsStatementIdentifier uuid4 s, leaf .rightsBasis (rightsBasis s)] := by
    simp [rightsStatementIdentifier, Tag.ofBasis]
  have hgranted : Within (·.ofBasis = false) (s.granted.map rightsGranted) :=
    within_map _ fun g => within_node.mpr ⟨rfl, fun e he => (within_rightsGranted g e he).1, within_nil⟩
  have hlinking : Within (·.ofBasis = false) [linkingObjectIdentifier file] := by
    simp [linkingObjectIdentifier, Tag.ofBasis]
  rw [createRightsStatement, Element.findBelow, children_node, List.flatMap_append,
    List.flatMap_append, List.flatMap_append, List.filter_append, List.filter_append,
    List.filter_append, hfront.filter_eq_nil hother, hgranted.filter_eq_nil hother,
    hlinking.filter_eq_nil hother]
  simp

theorem filter_rightsGranted (gs : List Granted) :
    ((gs.map rightsGranted).flatMap Element.iter).filter (·.tag = .rightsGranted) =
      gs.map rightsGranted := by
  induction gs with
  | nil => rfl
  | cons g gs ih =>
      have hbelow := (within_rightsGranted g).filter_eq_nil (t := .rightsGranted) fun h => h.2.1 rfl
      have hiter : (rightsGranted g).iter =
          rightsGranted g :: (rightsGranted g).children.flatMap Element.iter := iter_node _ _
      rw [List.map_cons, List.flatMap_cons, List.filter_append, ih, hiter,
        List.filter_cons_of_pos (by rfl), hbelow]
      rfl

theorem findBelow_rightsGranted :
    (createRightsStatement getCodeForCountry uuid4 file s).findBelow .rightsGranted =
      s.granted.map rightsGranted := by
  have hfront : Within (· ≠ .rightsGranted)
      [rightsStatementIdentifier uuid4 s, leaf .rightsBasis (rightsBasis s)] := by
    simp [rightsStatementIdentifier]
  have hinformation := (@within_statementInformation getCodeForCountry s).filter_eq_nil (t := .rightsGranted)
    (by simp [Tag.inBasis, Tag.ofBasis])
  have hlinking : Within (· ≠ .rightsGranted) [linkingObjectIdentifier file] := by
    simp [linkingObjectIdentifier]
  rw [createRightsStatement, Element.findBelow, children_node, List.flatMap_append,
    List.flatMap_append, List.flatMap_append, List.filter_append, List.filter_append,
    List.filter_append, hfront.filter_eq_nil (by simp), hinformation, filter_rightsGranted,
    hlinking.filter_eq_nil (by simp)]
  simp

theorem findBelow_rightsBasis :
    (createRightsStatement getCodeForCountry uuid4 file s).findBelow .rightsBasis =
      [leaf .rightsBasis (rightsBasis s)] := by
  have hidentifier : Within (· ≠ .rightsBasis) [rightsStatementIdentifier uuid4 s] := by
    simp [rightsStatementIdentifier]
  have hinformation := (@within_statementInformation getCodeForCountry s).filter_eq_nil (t := .rightsBasis)
    (by simp [Tag.inBasis, Tag.ofBasis])
  have hgranted : Within (· ≠ .rightsBasis) (s.granted.map rightsGranted) :=
    within_map _ fun g => within_node.mpr ⟨by simp, fun e he => (within_rightsGranted g e he).2.2, within_nil⟩
  have hlinking : Within (· ≠ .rightsBasis) [linkingObjectIdentifier file] := by
    simp [linkingObjectIdentifier]
  have hleaf : ([leaf .rightsBasis (rightsBasis s)].flatMap Element.iter).filter (·.tag = .rightsBasis) =
      [leaf .rightsBasis (rightsBasis s)] := by
    simp
  rw [createRightsStatement, ← List.singleton_append, Element.findBelow, children_node, List.flatMap_append,
    List.flatMap_append, List.flatMap_append, List.flatMap_append, List.filter_append, List.filter_append,
    List.filter_append, List.filter_append, hidentifier.filter_eq_nil (by simp), hleaf, hinformation,
    hgranted.filter_eq_nil (by simp), hlinking.filter_eq_nil (by simp)]
  rfl

-- The information with one note and one identifier.
section Information

variable {n : Str} {i : DocumentationIdentifier} {e : El}

theorem findInformation_copyright {c : Information Copyright}
    (he : e = createRightsStatement getCodeForCountry uuid4 file s)
    (hinfo : statementInformation getCodeForCountry s = [copyrightInformation getCodeForCountry c])
    (hn : c.notes = [n]) (hi : c.identifiers = [i]) :
    findInformation .copyright (findCopyright e) e =
      ⟨⟨c.detail.status, copyrightJurisdiction getCodeForCountry c.detail.jurisdiction,
        formatDate c.detail.determinationDate⟩, readBack c.dates, [n], [i]⟩ := by
  have hfind : ∀ t : Tag, t.ofBasis = true →
      e.findBelow t = (copyrightInformation getCodeForCountry c).iter.filter (·.tag = t) := by
    intro t ht
    rw [he, findBelow_of_basis ht, hinfo, List.flatMap_singleton]
  simp (disch := decide) only [findInformation, findCopyright, findDates, findIdentifier, hfind]
  simp [copyrightInformation, hn, hi, documentationIdentifier, filter_startEndDate,
    readDates_startEndDate]

theorem findInformation_license {l : Information License}
    (he : e = createRightsStatement getCodeForCountry uuid4 file s)
    (hinfo : statementInformation getCodeForCountry s = [licenseInformation l])
    (hn : l.notes = [n]) (hi : l.identifiers = [i]) :
    findInformation .license (findLicense e) e = ⟨⟨l.detail.terms⟩, readBack l.dates, [n], [i]⟩ := by
  have hfind : ∀ t : Tag, t.ofBasis = true →
      e.findBelow t = (licenseInformation l).iter.filter (·.tag = t) := by
    intro t ht
    rw [he, findBelow_of_basis ht, hinfo, List.flatMap_singleton]
  simp (disch := decide) only [findInformation, findLicense, findDates, findIdentifier, hfind]
  simp [licenseInformation, hn, hi, documentationIdentifier, filter_startEndDate,
    readDates_startEndDate]

theorem findInformation_statute {st : Information Statute}
    (he : e = createRightsStatement getCodeForCountry uuid4 file s)
    (hinfo : statementInformation getCodeForCountry s = [statuteInformation st])
    (hn : st.notes = [n]) (hi : st.identifiers = [i]) :
    findInformation .statute (findStatute e) e =
      ⟨⟨st.detail.jurisdiction, st.detail.citation, formatDate st.detail.determinationDate⟩,
        readBack st.dates, [n], [i]⟩ := by
  have hfind : ∀ t : Tag, t.ofBasis = true →
      e.findBelow t = (statuteInformation st).iter.filter (·.tag = t) := by
    intro t ht
    rw [he, findBelow_of_basis ht, hinfo, List.flatMap_singleton]
  simp (disch := decide) only [findInformation, findStatute, findDates, findIdentifier, hfind]
  simp [statuteInformation, hn, hi, documentationIdentifier, filter_startEndDate,
    readDates_startEndDate]

theorem findInformation_other {o : Information OtherRights} {basis : OtherRights}
    (he : e = createRightsStatement getCodeForCountry uuid4 file s)
    (hinfo : statementInformation getCodeForCountry s =
      [node (.information .otherRights) (otherRights s.rightsbasis o)])
    (hn : o.notes = [n]) (hi : o.identifiers = [i]) :
    findInformation .otherRights basis e = ⟨basis, readBack o.dates, [n], [i]⟩ := by
  have hfind : ∀ t : Tag, t.ofBasis = true → e.findBelow t =
      (node (.information .otherRights) (otherRights s.rightsbasis o)).iter.filter (·.tag = t) := by
    intro t ht
    rw [he, findBelow_of_basis ht, hinfo, List.flatMap_singleton]
  simp (disch := decide) only [findInformation, findDates, findIdentifier, hfind]
  simp [otherRights, hn, hi, documentationIdentifier, filter_startEndDate, readDates_startEndDate]

end Information

-- A row of the other rights has one basis.
theorem filter_otherRightsBasis (rightsbasis : Str) (o : Information OtherRights) :
    ((otherRights rightsbasis o).flatMap Element.iter).filter (·.tag = .otherRightsBasis) =
      [leaf .otherRightsBasis
        (if o.detail.basis = [] ∨ rightsBasisOther.contains rightsbasis then rightsbasis
          else o.detail.basis)] := by
  have hids := (within_map (p := (· ≠ Tag.otherRightsBasis)) o.identifiers
    (f := documentationIdentifier .otherRights) fun i => by simp [documentationIdentifier]).filter_eq_nil
      (t := .otherRightsBasis) (by simp)
  have hnotes := (within_notes (p := (· ≠ Tag.otherRightsBasis)) (t := .note .otherRights) (by simp)
    o.notes).filter_eq_nil (t := .otherRightsBasis) (by simp)
  rw [otherRights, List.flatMap_append, List.flatMap_append, List.flatMap_append, List.filter_append,
    List.filter_append, List.filter_append, hids, hnotes, filter_startEndDate _ (by simp) (by simp)]
  simp

-- The basis of the other rights, which is read as the one of the statement.
theorem findBelow_otherRightsBasis {o : Information OtherRights}
    (hinfo : statementInformation getCodeForCountry s =
      [node (.information .otherRights) (otherRights s.rightsbasis o)]) :
    (createRightsStatement getCodeForCountry uuid4 file s).findBelow .otherRightsBasis =
      [leaf .otherRightsBasis
        (if o.detail.basis = [] ∨ rightsBasisOther.contains s.rightsbasis then s.rightsbasis
          else o.detail.basis)] := by
  rw [findBelow_of_basis rfl, hinfo, List.flatMap_singleton, iter_node,
    List.filter_cons_of_neg (by simp), filter_otherRightsBasis]

-- Rows of which one is read, with one note and one identifier.
theorem forall₂_single_iff {α : Type} {same : α → α → Prop} {rows : List (Information α)}
    {r : Information α} (hnotes : r.notes.length = 1) (hids : r.identifiers.length = 1)
    (hread : ∀ i n d, rows = [i] → i.notes = [n] → i.identifiers = [d] →
      ∃ detail, r = ⟨detail, readBack i.dates, [n], [d]⟩ ∧ same detail i.detail) :
    List.Forall₂ (SameInformation same) [r] rows ↔ ∃ i, rows = [i] ∧ i.Single := by
  constructor
  · intro h
    obtain ⟨i, rest, hsame, hrest, rfl⟩ := List.forall₂_cons_left_iff.mp h
    obtain rfl := List.forall₂_nil_left_iff.mp hrest
    have hn : i.notes.length = 1 := hsame.notes.length_eq ▸ hnotes
    have hd : i.identifiers.length = 1 := hsame.identifiers.length_eq ▸ hids
    obtain ⟨n, hn'⟩ := List.length_eq_one_iff.mp hn
    obtain ⟨d, hd'⟩ := List.length_eq_one_iff.mp hd
    obtain ⟨detail, rfl, -⟩ := hread i n d rfl hn' hd'
    exact ⟨i, rfl, hn, hd, sameDates_readBack_iff.mp hsame.dates⟩
  · rintro ⟨i, rfl, hn, hd, hdates⟩
    obtain ⟨n, hn'⟩ := List.length_eq_one_iff.mp hn
    obtain ⟨d, hd'⟩ := List.length_eq_one_iff.mp hd
    obtain ⟨detail, rfl, hdetail⟩ := hread i n d rfl hn' hd'
    refine List.Forall₂.cons ⟨hdetail, sameDates_readBack_iff.mpr hdates, ?_, ?_⟩ List.Forall₂.nil
    · rw [hn']
    · rw [hd']

-- A grant with one restriction and one note.

theorem filter_below_startEndDate {name t : Tag} (d : Dates) (hname : name ≠ t) :
    ((startEndDate name d).flatMap Element.iter).filter (·.tag = t) =
      (startEndDate name d).flatMap (·.findall t) := by
  by_cases hnone : d.start = [] ∧ d.end_ = [] ∧ d.endOpen = false
  · simp [startEndDate, hnone]
  · by_cases hopen : (if d.endOpen then open_ else formatDate d.end_) = []
    · simp [startEndDate, hnone, hopen, Element.findall, List.filter_cons, hname]
    · simp [startEndDate, hnone, hopen, Element.findall, List.filter_cons, hname]

theorem filter_top_startEndDate {name t : Tag} (d : Dates) (hname : name ≠ t) :
    (startEndDate name d).filter (·.tag = t) = [] := by
  rw [startEndDate]
  split_ifs <;> simp [hname]

theorem term_eq_some {g : Granted} {x : Str} (hx : x ∈ restrictions)
    (hrestrictions : g.restrictions = [x]) : ∃ name, term g = some name := by
  rw [restrictions, List.mem_cons, List.mem_cons, List.mem_singleton] at hx
  rcases hx with rfl | rfl | rfl
  · exact ⟨.termOfGrant, by rw [term, hrestrictions]; decide⟩
  · exact ⟨.termOfRestriction, by rw [term, hrestrictions]; decide⟩
  · exact ⟨.termOfRestriction, by rw [term, hrestrictions]; decide⟩

theorem findGranted_rightsGranted {g : Granted} {x n : Str} (hx : x ∈ restrictions)
    (hrestrictions : g.restrictions = [x]) (hnotes : g.notes = [n]) :
    findGranted (rightsGranted g) = ⟨g.act, readBack g.dates, [x], [n]⟩ := by
  obtain ⟨name, hname⟩ := term_eq_some hx hrestrictions
  -- without dates there is nothing to write for them
  have hgrant : rightsGranted g = node .rightsGranted ([leaf .act g.act, leaf .restriction x] ++
      startEndDate name g.dates ++ [leaf .rightsGrantedNote n]) := by
    by_cases hnone : g.dates.start = [] ∧ g.dates.end_ = [] ∧ g.dates.endOpen = false
    · simp [rightsGranted, hrestrictions, hnotes, startEndDate, hnone]
    · have hdated : g.dates.start ≠ [] ∨ g.dates.end_ ≠ [] ∨ g.dates.endOpen = true := by
        by_contra h
        simp only [not_or, not_not, Bool.not_eq_true] at h
        exact hnone h
      simp only [rightsGranted, hrestrictions, hnotes, hname, if_pos hdated]
      simp
  have hstart : name ≠ .startDate ∧ name ≠ .endDate ∧ name ≠ .act ∧ name ≠ .restriction ∧
      name ≠ .rightsGrantedNote := by
    rcases tag_term hname with rfl | rfl <;> simp
  have hdates := readDates_startEndDate name g.dates
  simp only [Element.findall] at hdates
  rw [findGranted, hgrant]
  simp only [Element.findall, Element.findBelow, children_node, List.filter_append,
    List.flatMap_append, filter_below_startEndDate _ hstart.1, filter_below_startEndDate _ hstart.2.1,
    filter_top_startEndDate _ hstart.2.2.1, filter_top_startEndDate _ hstart.2.2.2.1,
    filter_top_startEndDate _ hstart.2.2.2.2]
  simp [hdates]

theorem sameGranted_iff {g : Granted} (h : ∀ x ∈ g.restrictions, x ∈ restrictions) :
    SameGranted (findGranted (rightsGranted g)) g ↔ g.Single := by
  constructor
  · intro hsame
    have hr : g.restrictions.length = 1 := hsame.restrictions.length_eq.symm
    have hn : g.notes.length = 1 := hsame.notes.length_eq.symm
    obtain ⟨x, hx⟩ := List.length_eq_one_iff.mp hr
    obtain ⟨n, hn'⟩ := List.length_eq_one_iff.mp hn
    have hdates := hsame.dates
    rw [findGranted_rightsGranted (h x (by rw [hx]; exact List.mem_cons_self)) hx hn'] at hdates
    exact ⟨hr, hn, sameDates_readBack_iff.mp hdates⟩
  · rintro ⟨hr, hn, hdates⟩
    obtain ⟨x, hx⟩ := List.length_eq_one_iff.mp hr
    obtain ⟨n, hn'⟩ := List.length_eq_one_iff.mp hn
    rw [findGranted_rightsGranted (h x (by rw [hx]; exact List.mem_cons_self)) hx hn']
    exact ⟨rfl, sameDates_readBack_iff.mpr hdates, by rw [hx], by rw [hn']⟩

-- A statement and what is read of it.
section Statement

theorem findtext_rightsBasis :
    findtext ((createRightsStatement getCodeForCountry uuid4 file s).findall .rightsBasis) [] =
      rightsBasis s := by
  rw [createRightsStatement, Element.findall, children_node, List.append_assoc, List.append_assoc,
    List.cons_append, List.filter_cons_of_neg (by simp [rightsStatementIdentifier]),
    List.cons_append, List.filter_cons_of_pos (by rfl), findtext_leaf]

-- What is read for the grants of a statement, whatever its basis.
theorem forall₂_granted_iff (h : ∀ g ∈ s.granted, ∀ x ∈ g.restrictions, x ∈ restrictions) :
    List.Forall₂ SameGranted (((createRightsStatement getCodeForCountry uuid4 file s).findBelow
      .rightsGranted).map findGranted) s.granted ↔ ∀ g ∈ s.granted, g.Single := by
  rw [findBelow_rightsGranted, List.map_map, List.forall₂_map_left_iff, List.forall₂_same]
  exact forall₂_congr fun g hg => sameGranted_iff (h g hg)

theorem Basis.text_injective : Function.Injective Basis.text := by
  intro a b h
  cases a <;> cases b <;> first | rfl | exact absurd h (by decide)

-- The comparison where the basis is known.
theorem same_iff {r : Statement} {b : Basis} (hb : s.rightsbasis = b.text) :
    Same getCodeForCountry r s ↔
      r.rightsbasis = s.rightsbasis ∧ SameRows getCodeForCountry b r s ∧
        List.Forall₂ SameGranted r.granted s.granted := by
  constructor
  · exact fun h => ⟨h.basis, h.rows b hb, h.granted⟩
  · rintro ⟨hbasis, hrows, hgranted⟩
    refine ⟨hbasis, fun b' hb' => ?_, hgranted⟩
    exact Basis.text_injective (hb.symm.trans hb') ▸ hrows

theorem single_iff {b : Basis} (hb : s.rightsbasis = b.text) :
    s.Single ↔ SingleRow b s ∧ ∀ g ∈ s.granted, g.Single := by
  constructor
  · exact fun h => ⟨h.row b hb, h.granted⟩
  · rintro ⟨hrow, hgranted⟩
    refine ⟨fun b' hb' => ?_, hgranted⟩
    exact Basis.text_injective (hb.symm.trans hb') ▸ hrow

theorem rows_copyright (hb : s.rightsbasis = Basis.copyright.text) {e : El}
    (he : e = createRightsStatement getCodeForCountry uuid4 file s) :
    List.Forall₂ (SameInformation (SameCopyright getCodeForCountry))
      [findInformation .copyright (findCopyright e) e] s.copyrights ↔
        ∃ i, s.copyrights = [i] ∧ i.Single := by
  refine forall₂_single_iff rfl rfl fun i n d hrows hn hd => ?_
  have hinfo : statementInformation getCodeForCountry s = [copyrightInformation getCodeForCountry i] := by
    rw [statementInformation, hb, hrows]
    rfl
  exact ⟨_, findInformation_copyright he hinfo hn hd, rfl, rfl, rfl⟩

theorem rows_license (hb : s.rightsbasis = Basis.license.text) {e : El}
    (he : e = createRightsStatement getCodeForCountry uuid4 file s) :
    List.Forall₂ (SameInformation (· = ·)) [findInformation .license (findLicense e) e] s.licenses ↔
      ∃ i, s.licenses = [i] ∧ i.Single := by
  refine forall₂_single_iff rfl rfl fun i n d hrows hn hd => ?_
  have hinfo : statementInformation getCodeForCountry s = [licenseInformation i] := by
    rw [statementInformation, hb, hrows]
    rfl
  exact ⟨_, findInformation_license he hinfo hn hd, rfl⟩

theorem rows_statute (hb : s.rightsbasis = Basis.statute.text) {e : El}
    (he : e = createRightsStatement getCodeForCountry uuid4 file s) :
    List.Forall₂ (SameInformation SameStatute) [findInformation .statute (findStatute e) e]
      s.statutes ↔ ∃ i, s.statutes = [i] ∧ i.Single := by
  refine forall₂_single_iff rfl rfl fun i n d hrows hn hd => ?_
  have hinfo : statementInformation getCodeForCountry s = [statuteInformation i] := by
    rw [statementInformation, hb, hrows]
    rfl
  exact ⟨_, findInformation_statute he hinfo hn hd, rfl, rfl, rfl⟩

-- The three bases that share the element of the other rights.
def Basis.isOther (b : Basis) : Prop := b = .donor ∨ b = .policy ∨ b = .other

theorem statementInformation_isOther {b : Basis} (hother : b.isOther) (hb : s.rightsbasis = b.text) :
    statementInformation getCodeForCountry s =
      [node (.information .otherRights) (s.others.flatMap (otherRights s.rightsbasis))] := by
  rw [statementInformation, hb]
  rcases hother with rfl | rfl | rfl <;> rfl

theorem statementInformation_other {b : Basis} (hother : b.isOther) (hb : s.rightsbasis = b.text)
    {o : Information OtherRights} (hrows : s.others = [o]) :
    statementInformation getCodeForCountry s =
      [node (.information .otherRights) (otherRights s.rightsbasis o)] := by
  rw [statementInformation_isOther hother hb, hrows, List.flatMap_singleton]

theorem rows_other {b : Basis} (hother : b.isOther) (hb : s.rightsbasis = b.text) {e : El}
    (he : e = createRightsStatement getCodeForCountry uuid4 file s) (basis : OtherRights) :
    List.Forall₂ (SameInformation fun _ _ => True) [findInformation .otherRights basis e] s.others ↔
      ∃ i, s.others = [i] ∧ i.Single := by
  refine forall₂_single_iff rfl rfl fun i n d hrows hn hd => ?_
  have hinfo := @statementInformation_other getCodeForCountry s b hother hb i hrows
  exact ⟨_, findInformation_other he hinfo hn hd, trivial⟩

-- The basis that is read for the one row of the other rights.
theorem otherBasis_eq {b : Basis} (hother : b.isOther) (hb : s.rightsbasis = b.text)
    {o : Information OtherRights} (hrows : s.others = [o]) :
    findtext ((createRightsStatement getCodeForCountry uuid4 file s).findBelow .otherRightsBasis)
      Rights.other =
        if o.detail.basis = [] ∨ rightsBasisOther.contains s.rightsbasis then s.rightsbasis
        else o.detail.basis := by
  have hne : s.rightsbasis ≠ [] := by
    rw [hb]
    cases b <;> decide
  rw [findBelow_otherRightsBasis (statementInformation_other hother hb hrows)]
  split_ifs with hbasis
  · simp [findtext, hne]
  · have hnil : o.detail.basis ≠ [] := fun hnil => hbasis (Or.inl hnil)
    simp [findtext, hnil]

theorem parseStatement_other {b : Basis} (hother : b.isOther) (hb : s.rightsbasis = b.text) {e : El}
    (he : e = createRightsStatement getCodeForCountry uuid4 file s) :
    ∃ r : Statement, parseStatement e = r ∧
      r.rightsbasis = findtext (e.findBelow .otherRightsBasis) Rights.other ∧
      r.others = [findInformation .otherRights ⟨r.rightsbasis⟩ e] ∧
      r.granted = (e.findBelow .rightsGranted).map findGranted := by
  have hbasis : rightsBasis s = Rights.other := by
    rw [rightsBasis, hb]
    rcases hother with rfl | rfl | rfl <;> rfl
  have hread := @findtext_rightsBasis getCodeForCountry s uuid4 file
  rw [← he, hbasis] at hread
  refine ⟨_, rfl, ?_⟩
  simp only [parseStatement, hread]
  exact ⟨rfl, rfl, rfl⟩

theorem same_other_iff {b : Basis} (hother : b.isOther) (hb : s.rightsbasis = b.text)
    (h : ∀ g ∈ s.granted, ∀ x ∈ g.restrictions, x ∈ restrictions) {r : Statement}
    (hr : parseStatement (createRightsStatement getCodeForCountry uuid4 file s) = r) :
    r.rightsbasis = s.rightsbasis ∧
        List.Forall₂ (SameInformation fun _ _ => True) r.others s.others ∧
        List.Forall₂ SameGranted r.granted s.granted ↔
      (∃ i, s.others = [i] ∧ i.Single ∧
        (i.detail.basis = [] ∨ rightsBasisOther.contains s.rightsbasis ∨
          i.detail.basis = s.rightsbasis)) ∧ ∀ g ∈ s.granted, g.Single := by
  obtain ⟨r', hr', hbasis, hothers, hgranted⟩ :=
    @parseStatement_other getCodeForCountry s uuid4 file b hother hb _ rfl
  obtain rfl : r' = r := hr'.symm.trans hr
  rw [hothers, rows_other hother hb rfl, hgranted, forall₂_granted_iff h, hbasis]
  constructor
  · rintro ⟨hsame, ⟨i, hrows, hsingle⟩, hall⟩
    rw [otherBasis_eq hother hb hrows] at hsame
    refine ⟨⟨i, hrows, hsingle, ?_⟩, hall⟩
    split_ifs at hsame with hcase
    · exact hcase.imp_right Or.inl
    · exact Or.inr (Or.inr hsame)
  · rintro ⟨⟨i, hrows, hsingle, hcase⟩, hall⟩
    refine ⟨?_, ⟨i, hrows, hsingle⟩, hall⟩
    rw [otherBasis_eq hother hb hrows]
    split_ifs with hif
    · rfl
    · rcases hcase with hcase | hcase | hcase
      · exact absurd (Or.inl hcase) hif
      · exact absurd (Or.inr hcase) hif
      · exact hcase

theorem same_parseStatement_iff {b : Basis} (hb : s.rightsbasis = b.text)
    (h : ∀ g ∈ s.granted, ∀ x ∈ g.restrictions, x ∈ restrictions) :
    Same getCodeForCountry
      (parseStatement (createRightsStatement getCodeForCountry uuid4 file s)) s ↔ s.Single := by
  rw [same_iff hb, single_iff hb]
  have hgranted := @forall₂_granted_iff getCodeForCountry s uuid4 file h
  have hothers := fun hother => @same_other_iff getCodeForCountry s uuid4 file b hother hb h _ rfl
  generalize he : createRightsStatement getCodeForCountry uuid4 file s = e at *
  have hread : findtext (e.findall .rightsBasis) [] = rightsBasis s := he ▸ findtext_rightsBasis
  cases b with
  | copyright =>
      have hbasis : rightsBasis s = "Copyright".toList := by rw [rightsBasis, hb]; rfl
      have hrows := rows_copyright hb he.symm
      simp only [parseStatement, hread, hbasis]
      exact ⟨fun h => ⟨hrows.mp h.2.1, hgranted.mp h.2.2⟩,
        fun h => ⟨hb.symm, hrows.mpr h.1, hgranted.mpr h.2⟩⟩
  | license =>
      have hbasis : rightsBasis s = "License".toList := by rw [rightsBasis, hb]; rfl
      have hrows := rows_license hb he.symm
      simp only [parseStatement, hread, hbasis]
      exact ⟨fun h => ⟨hrows.mp h.2.1, hgranted.mp h.2.2⟩,
        fun h => ⟨hb.symm, hrows.mpr h.1, hgranted.mpr h.2⟩⟩
  | statute =>
      have hbasis : rightsBasis s = "Statute".toList := by rw [rightsBasis, hb]; rfl
      have hrows := rows_statute hb he.symm
      simp only [parseStatement, hread, hbasis]
      exact ⟨fun h => ⟨hrows.mp h.2.1, hgranted.mp h.2.2⟩,
        fun h => ⟨hb.symm, hrows.mpr h.1, hgranted.mpr h.2⟩⟩
  | donor =>
      have hcontains : rightsBasisOther.contains s.rightsbasis = true := by rw [hb]; decide
      simp only [hcontains, true_or, or_true, and_true] at hothers
      exact hothers (Or.inl rfl)
  | policy =>
      have hcontains : rightsBasisOther.contains s.rightsbasis = true := by rw [hb]; decide
      simp only [hcontains, true_or, or_true, and_true] at hothers
      exact hothers (Or.inr (Or.inl rfl))
  | other =>
      have hcontains : rightsBasisOther.contains s.rightsbasis = false := by rw [hb]; decide
      simp only [hcontains, Bool.false_eq_true, false_or] at hothers
      rw [hb] at hothers ⊢
      exact hothers (Or.inr (Or.inr rfl))

end Statement

-- The document with the statements in the sections of the original files.
section Document

variable {ids : File → Statement → Str} {files : List File} {statements : List Statement}

theorem findall_rightsMD (f : File) :
    (amdSec getCodeForCountry ids statements f).findall .rightsMD =
      if f.original then
        statements.map fun s =>
          rightsMD (createRightsStatement getCodeForCountry (ids f s) f.uuid s)
      else [] := by
  rw [amdSec, Element.findall, children_node, List.filter_eq_self]
  intro e he
  split_ifs at he
  · obtain ⟨s, -, rfl⟩ := List.mem_map.mp he
    rfl
  · cases he

theorem findall_amdSec :
    (document getCodeForCountry ids files statements).findall .amdSec =
      files.map (amdSec getCodeForCountry ids statements) := by
  rw [document, Element.findall, children_node, List.filter_eq_self]
  intro e he
  obtain ⟨f, -, rfl⟩ := List.mem_map.mp he
  rfl

theorem statements_of_rightsMD (f : File) (ss : List Statement) :
    ((((ss.map fun s => rightsMD (createRightsStatement getCodeForCountry (ids f s) f.uuid s)).filter
        current).flatMap fun md => (md.findall .mdWrap).filter (·.get .mdtype = some premisRights)).flatMap
      fun mdWrap => mdWrap.children.flatMap (·.findall .rightsStatement)) =
        ss.map fun s => createRightsStatement getCodeForCountry (ids f s) f.uuid s := by
  induction ss with
  | nil => rfl
  | cons s ss ih =>
      rw [List.map_cons, List.filter_cons_of_pos (by rfl), List.flatMap_cons, List.flatMap_append, ih,
        List.map_cons, ← List.singleton_append]
      rfl

theorem parseRights_document (h : ∃ f ∈ files, f.original = true) :
    ∃ f : File, parseRights (document getCodeForCountry ids files statements) =
      statements.map fun s =>
        parseStatement (createRightsStatement getCodeForCountry (ids f s) f.uuid s) := by
  obtain ⟨f₀, hf₀, horiginal⟩ := h
  by_cases hnone : statements = []
  · refine ⟨f₀, ?_⟩
    have hempty : ((document getCodeForCountry ids files statements).findall .amdSec).filter
        (fun amd => !(amd.findall .rightsMD).isEmpty) = [] := by
      rw [findall_amdSec, List.filter_eq_nil_iff]
      intro e he
      obtain ⟨f, -, rfl⟩ := List.mem_map.mp he
      rw [findall_rightsMD, hnone]
      simp
    rw [parseRights, hempty, hnone]
    rfl
  · have hsections : ((document getCodeForCountry ids files statements).findall .amdSec).filter
        (fun amd => !(amd.findall .rightsMD).isEmpty) =
          (files.filter (·.original)).map (amdSec getCodeForCountry ids statements) := by
      rw [findall_amdSec, List.filter_map]
      refine congrArg _ (List.filter_congr fun f _ => ?_)
      simp only [Function.comp_apply, findall_rightsMD]
      split_ifs with hf
      · simp [hf, hnone]
      · simp [hf]
    cases hfirst : files.filter (·.original) with
    | nil =>
        have hmem : f₀ ∈ files.filter (·.original) := List.mem_filter.mpr ⟨hf₀, horiginal⟩
        rw [hfirst] at hmem
        cases hmem
    | cons f rest =>
        have hf : f.original = true := by
          have hmem : f ∈ files.filter (·.original) := hfirst ▸ List.mem_cons_self
          exact (List.mem_filter.mp hmem).2
        refine ⟨f, ?_⟩
        rw [hfirst, List.map_cons] at hsections
        simp only [parseRights, hsections, findall_rightsMD, hf, if_true, statements_of_rightsMD,
          List.map_map]
        rfl

-- What is written is read back exactly when the reader, which makes one row of each sort,
-- has one row of each sort to read.
theorem restored_iff (hbasis : ∀ s ∈ statements, ∃ b : Basis, s.rightsbasis = b.text)
    (hrestrictions : ∀ s ∈ statements, ∀ g ∈ s.granted, ∀ x ∈ g.restrictions, x ∈ restrictions)
    (hfiles : ∃ f ∈ files, f.original = true) :
    List.Forall₂ (Same getCodeForCountry)
        (parseRights (document getCodeForCountry ids files statements)) statements ↔
      ∀ s ∈ statements, s.Single := by
  obtain ⟨f, hread⟩ := @parseRights_document getCodeForCountry ids files statements hfiles
  rw [hread, List.forall₂_map_left_iff, List.forall₂_same]
  refine forall₂_congr fun s hs => ?_
  obtain ⟨b, hb⟩ := hbasis s hs
  exact same_parseStatement_iff hb (hrestrictions s hs)

end Document

namespace Photograph

-- A photograph under copyright, with one note and with two.

def information (notes : List Str) : Information Copyright where
  detail := ⟨"copyrighted".toList, "ca".toList, "2020-01-01".toList⟩
  dates := ⟨"2011-01-01".toList, [], true⟩
  notes := notes
  identifiers := [⟨"local".toList, "42".toList, "deed".toList⟩]

def granted : Granted where
  act := "disseminate".toList
  dates := ⟨"2011-01-01".toList, "2030-01-01".toList, false⟩
  restrictions := ["Allow".toList]
  notes := ["On site only.".toList]

def statement (notes : List Str) : Statement where
  identifierType := []
  identifierValue := []
  rightsbasis := "Copyright".toList
  copyrights := [information notes]
  licenses := []
  statutes := []
  others := []
  granted := [granted]

def jpeg : File := ⟨.nil, true⟩

def one : List Str := ["Held by the heirs.".toList]

def two : List Str := ["Held by the heirs.".toList, "Renewed once.".toList]

def read (notes : List Str) : List Statement :=
  parseRights (document (fun _ => none) (fun _ _ => "0".toList) [jpeg] [statement notes])

end Photograph

theorem restored_iff_photograph :
    List.Forall₂ (Same fun _ => none) (Photograph.read Photograph.one)
        [Photograph.statement Photograph.one] ↔
      ∀ s ∈ [Photograph.statement Photograph.one], s.Single := by
  refine restored_iff ?_ ?_ ⟨Photograph.jpeg, by simp, rfl⟩
  · intro s hs
    rw [List.mem_singleton.mp hs]
    exact ⟨.copyright, rfl⟩
  · intro s hs g hg x hx
    obtain rfl := List.mem_singleton.mp hs
    obtain rfl := List.mem_singleton.mp hg
    obtain rfl := List.mem_singleton.mp hx
    decide

-- Of the two notes the reader has room for one.
theorem photograph_notes :
    ¬ List.Forall₂ (Same fun _ => none) (Photograph.read Photograph.two)
      [Photograph.statement Photograph.two] := by
  intro h
  obtain ⟨f, hread⟩ := @parseRights_document (fun _ => none) (fun _ _ => "0".toList)
    [Photograph.jpeg] [Photograph.statement Photograph.two] ⟨Photograph.jpeg, List.mem_cons_self, rfl⟩
  rw [Photograph.read, hread, List.map_cons, List.forall₂_cons] at h
  have hrestrictions : ∀ g ∈ (Photograph.statement Photograph.two).granted, ∀ x ∈ g.restrictions,
      x ∈ restrictions := by decide
  have hsingle := (same_parseStatement_iff (b := .copyright) rfl hrestrictions).mp h.1
  obtain ⟨i, hi, hone⟩ := hsingle.row .copyright rfl
  obtain rfl : Photograph.information Photograph.two = i := List.singleton_inj.mp hi
  exact absurd hone.note (by decide)

end Ccp.Worker.Rights
