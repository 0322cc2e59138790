import Ccp.Lib.MapM
import Ccp.Worker.TransferMets

namespace Ccp.Worker.TransferMets

open Lib Tuple
open Rights (Kind Dates DocumentationIdentifier Information Copyright License Statute OtherRights
  Granted Statement lower open_)

variable {X : Type}

-- What the data of a file has to be.

def formatNode (fileID : FileID) : Data X :=
  node .format [
    node .formatDesignation [
      leaf .formatName fileID.formatName, leaf .formatVersion fileID.formatVersion],
    node .formatRegistry [
      leaf .formatRegistryName fileID.formatRegistryName,
      leaf .formatRegistryKey fileID.formatRegistryKey]]

def unknownFormat : Data X :=
  node .format [node .formatDesignation [leaf .formatName "Unknown".toList]]

def formatNodes (f : File) : List (Data X) :=
  match f.fileIDs with
  | [] => [unknownFormat]
  | fileIDs => fileIDs.map formatNode

structure ObjectComplete (f : File) (data : Data X) : Prop where
  wellFormed : data.WellFormed
  formats : ∃ characteristics, data.named .objectCharacteristics = [characteristics] ∧
    characteristics.named .format = formatNodes f

-- What the data of a rights statement has to be. The fields of an item are the children of
-- its node, in some order.

def Holds (fields : List (Data X)) (node : Data X) : Prop := node.children.Perm fields

section Fields

variable {α : Type}

def informationFields (k : Kind) (detail : List (Data X)) (i : Information α) : List (Data X) :=
  detail ++ notes k i.notes ++ getPremisRightsDocumentationIdentifiers k i.identifiers ++
    [getPremisRightsApplicableDates k i.dates]

end Fields

def copyrightFields (getCodeForCountry : Str → Option Str) (c : Information Copyright) :
    List (Data X) :=
  informationFields .copyright [
    leaf .copyrightStatus c.detail.status,
    leaf .copyrightJurisdiction (copyrightJurisdictionCode getCodeForCountry c.detail.jurisdiction),
    leaf .copyrightStatusDeterminationDate (cleanDate c.detail.determinationDate)] c

def licenseFields (l : Information License) : List (Data X) :=
  informationFields .license [leaf .licenseTerms l.detail.terms] l

def statuteFields (s : Information Statute) : List (Data X) :=
  informationFields .statute [
    leaf .statuteJurisdiction s.detail.jurisdiction,
    leaf .statuteCitation s.detail.citation,
    leaf .statuteInformationDeterminationDate (cleanDate s.detail.determinationDate)] s

def otherFields (rightsbasis : Str) (o : Information OtherRights) : List (Data X) :=
  informationFields .otherRights [leaf .otherRightsBasis (otherRightsBasis rightsbasis o.detail)] o

def Dated (g : Granted) : Prop := g.dates.start ≠ [] ∨ g.dates.end_ ≠ [] ∨ g.dates.endOpen = true

-- A term has the dates of its grant and nothing else.
def IsTerm (g : Granted) (term : Data X) : Prop :=
  ∃ t, (t = Tag.termOfGrant ∨ t = Tag.termOfRestriction) ∧
    term = node t [leaf .startDate (cleanDate g.dates.start), leaf .endDate (grantEndDate g)]

def HoldsGrant (g : Granted) (node : Data X) : Prop :=
  ∃ terms, Holds (leaf .act g.act :: g.restrictions.map (leaf .restriction) ++
      g.notes.map (leaf .rightsGrantedNote) ++ terms) node ∧
    (∀ term ∈ terms, IsTerm g term) ∧ (Dated g → terms ≠ [])

structure RightsComplete (getCodeForCountry : Str → Option Str) (s : Statement) (data : Data X) :
    Prop where
  wellFormed : data.WellFormed
  statement : ∃ statement, data.named .rightsStatement = [statement] ∧
    List.Forall₂ (fun c => Holds (copyrightFields getCodeForCountry c)) s.copyrights
      (statement.named (.information .copyright)) ∧
    List.Forall₂ (fun l => Holds (licenseFields l)) s.licenses
      (statement.named (.information .license)) ∧
    List.Forall₂ (fun i => Holds (statuteFields i)) s.statutes
      (statement.named (.information .statute)) ∧
    List.Forall₂ (fun o => Holds (otherFields s.rightsbasis o)) s.others
      (statement.named (.information .otherRights)) ∧
    List.Forall₂ HoldsGrant s.granted (statement.named .rightsGranted)

-- One item at most is put one after the other as it has to be.

def basisText : Kind → Str
  | .copyright => "copyright".toList
  | .license => "license".toList
  | .statute => "statute".toList
  | .otherRights => "other".toList

-- The number of nodes that there can be.
def room (s : Statement) (k : Kind) : ℕ := if basisType s = basisText k then 1 else 0

structure Single (s : Statement) : Prop where
  copyrights : s.copyrights.length ≤ room s .copyright
  licenses : s.licenses.length ≤ room s .license
  statutes : s.statutes.length ≤ room s .statute
  others : s.others.length ≤ room s .otherRights
  granted : s.granted.length ≤ 1
  dated : ∀ g ∈ s.granted, Dated g → g.restrictions ≠ []

theorem named_format (f : File) (modificationtime : Str) (extensions : List (Data X))
    (hext : ∀ e ∈ extensions, e.tag? = some .objectCharacteristicsExtension) :
    (objectCharacteristics f modificationtime extensions).named .format =
      [tuple (getPremisFormatData f.fileIDs)] := by
  have hnil : withTag Tag.format extensions = [] := withTag_eq_nil fun e he => by simp [hext e he]
  have hformat : (tuple (getPremisFormatData f.fileIDs) : Data X).tag? = some .format := by
    cases f.fileIDs <;> rfl
  rw [named, objectCharacteristics, children_node, withTag_append, hnil, List.append_nil,
    withTag_cons_ne (by simp), withTag_cons_ne (by simp), withTag_cons_ne (by simp),
    withTag_cons_self hformat, withTag_cons_ne (by simp)]
  rfl

theorem formatNodes_eq_iff (f : File) :
    [(tuple (getPremisFormatData f.fileIDs) : Data X)] = formatNodes f ↔ f.fileIDs.length ≤ 1 := by
  unfold formatNodes
  match hids : f.fileIDs with
  | [] => exact ⟨fun _ => Nat.zero_le 1, fun _ => rfl⟩
  | [_] => exact ⟨fun _ => Nat.le_refl 1, fun _ => rfl⟩
  | _ :: _ :: rest =>
      constructor
      · intro h
        have hlen := congrArg List.length h
        simp at hlen
      · intro h
        simp at h

-- The rest of the data of a file.

theorem wellFormed_relationship (subType : Str) (relatedObject event : UUID) :
    (relationship subType relatedObject event : Data X).WellFormed := by
  have hpair : ∀ (t t' t'' : Tag) (s s' : Str),
      (node t [leaf t' s, leaf t'' s'] : Data X).WellFormed := fun _ _ _ _ _ =>
    (AllWellFormed.leaf (.leaf .nil)).node
  exact (AllWellFormed.leaf (.leaf (.cons (hpair ..) (.cons (hpair ..) .nil)))).node

theorem wellFormed_identifier_iff (i : Identifier) :
    (node .objectIdentifier [
      node .objectIdentifierType [i.type_.elim Tuple.none text],
      leaf .objectIdentifierValue (i.value.getD strNone)] : Data X).WellFormed ↔
      i.type_ ≠ Option.none := by
  constructor
  · intro h hnone
    have htype := wellFormed_of_node_mem h List.mem_cons_self
    rw [hnone, Option.elim_none] at htype
    rcases wellFormed_of_mem htype List.mem_cons_self with hwf | ⟨s, hs⟩
    · exact not_wellFormed_none hwf
    · cases hs
  · intro h
    obtain ⟨s, hs⟩ := Option.ne_none_iff_exists'.mp h
    rw [hs, Option.elim_some]
    exact (AllWellFormed.leaf (.leaf .nil)).node

theorem wellFormed_formatNode (fileID : FileID) : (formatNode fileID : Data X).WellFormed := by
  have hpair : ∀ (t t' t'' : Tag) (s s' : Str),
      (node t [leaf t' s, leaf t'' s'] : Data X).WellFormed := fun _ _ _ _ _ =>
    (AllWellFormed.leaf (.leaf .nil)).node
  exact (AllWellFormed.cons (hpair ..) (.cons (hpair ..) .nil)).node

theorem wellFormed_format {f : File} (h : f.fileIDs.length ≤ 1) :
    (tuple (getPremisFormatData f.fileIDs) : Data X).WellFormed := by
  have hone := (@formatNodes_eq_iff X f).mpr h
  unfold formatNodes at hone
  split at hone
  · rw [List.cons.injEq] at hone
    rw [hone.1]
    exact (AllWellFormed.cons (AllWellFormed.leaf .nil).node .nil).node
  · have hmem : (tuple (getPremisFormatData f.fileIDs) : Data X) ∈ f.fileIDs.map formatNode :=
      hone ▸ List.mem_singleton_self _
    obtain ⟨fileID, -, hfile⟩ := List.mem_map.mp hmem
    rw [← hfile]
    exact wellFormed_formatNode fileID

theorem wellFormed_objectCharacteristics {f : File} (h : f.fileIDs.length ≤ 1)
    (modificationtime : Str) {extensions : List (Data X)} (hext : AllWellFormed extensions) :
    (objectCharacteristics f modificationtime extensions).WellFormed := by
  have hfixity : (node .fixity [
      leaf .messageDigestAlgorithm (convertToPremisHashFunction f.checksumtype),
      leaf .messageDigest f.checksum] : Data X).WellFormed := (AllWellFormed.leaf (.leaf .nil)).node
  have hcreating : (node .creatingApplication [
      leaf .dateCreatedByApplication modificationtime] : Data X).WellFormed :=
    (AllWellFormed.leaf .nil).node
  refine (AllWellFormed.append ?_ hext).node
  exact .leaf (.cons hfixity (.leaf (.cons (wellFormed_format h) (.cons hcreating .nil))))

theorem wellFormed_extension {fromstring : Str → Option X} {documents : List (Option Str)}
    {extensions : List (Data X)}
    (h : getPremisObjectCharacteristicsExtension fromstring documents = some extensions) :
    ∀ e ∈ extensions, e.WellFormed ∧ e.tag? = some .objectCharacteristicsExtension := by
  intro e he
  obtain ⟨content, -, hcontent⟩ := (MapM.mem_mapM h).mp he
  obtain ⟨element, -, rfl⟩ := Option.map_eq_some_iff.mp hcontent
  exact ⟨(AllWellFormed.cons (.atom _) .nil).node, rfl⟩

theorem named_objectCharacteristics (f : File) (modificationtime : Str)
    (extensions : List (Data X)) :
    (node .object (
      atom .filePremisMeta :: getPremisObjectIdentifiers f.uuid f.identifiers ++
      [objectCharacteristics f modificationtime extensions, leaf .originalName f.originallocation] ++
      getPremisRelationshipData f.relatedIsSourceOf f.relatedHasSource)).named .objectCharacteristics =
      [objectCharacteristics f modificationtime extensions] := by
  have hidentifiers : withTag Tag.objectCharacteristics
      (getPremisObjectIdentifiers (X := X) f.uuid f.identifiers) = [] := by
    refine withTag_eq_nil fun e he => ?_
    rcases List.mem_cons.mp he with rfl | he
    · simp
    · obtain ⟨i, -, rfl⟩ := List.mem_map.mp he
      simp
  have hrelationship : withTag Tag.objectCharacteristics
      (getPremisRelationshipData (X := X) f.relatedIsSourceOf f.relatedHasSource) = [] := by
    refine withTag_eq_nil fun e he => ?_
    rcases List.mem_append.mp he with he | he <;>
    · obtain ⟨d, -, rfl⟩ := List.mem_map.mp he
      simp [relationship]
  rw [named, children_node, withTag_append, withTag_append, hrelationship, List.append_nil,
    withTag_cons_ne (by simp), hidentifiers, List.nil_append, withTag_cons_self rfl,
    withTag_cons_ne (by simp)]
  rfl

-- Every tag in its place, and one format node for each identification, exactly where there
-- is one of them at most.
theorem objectComplete_iff {fromstring : Str → Option X} {f : File} {data : Data X}
    (h : fileObjToPremis fromstring f = some data) :
    ObjectComplete f data ↔ f.fileIDs.length ≤ 1 ∧ ∀ i ∈ f.identifiers, i.type_ ≠ Option.none := by
  simp only [fileObjToPremis, Option.bind_eq_bind, Option.bind_eq_some_iff, Option.pure_def,
    Option.some.injEq] at h
  obtain ⟨extensions, hextensions, modificationtime, -, rfl⟩ := h
  have hext := wellFormed_extension hextensions
  have hformat := named_format f modificationtime extensions fun e he => (hext e he).2
  have hnamed := named_objectCharacteristics f modificationtime extensions
  constructor
  · rintro ⟨hwf, characteristics, hone, hformats⟩
    obtain rfl : objectCharacteristics f modificationtime extensions = characteristics := by
      rw [hnamed, List.cons.injEq] at hone
      exact hone.1
    rw [hformat] at hformats
    refine ⟨(formatNodes_eq_iff f).mp hformats, fun i hi => ?_⟩
    apply (wellFormed_identifier_iff (X := X) i).mp
    apply wellFormed_of_node_mem hwf
    simp only [List.cons_append, List.append_assoc, List.mem_cons, List.mem_append,
      getPremisObjectIdentifiers, List.mem_map]
    exact Or.inr (Or.inr (Or.inl ⟨i, hi, rfl⟩))
  · rintro ⟨hformats, hidentifiers⟩
    refine ⟨?_, _, hnamed, hformat.trans ((formatNodes_eq_iff f).mpr hformats)⟩
    have hids : AllWellFormed (getPremisObjectIdentifiers (X := X) f.uuid f.identifiers) := by
      refine .cons (AllWellFormed.leaf (.leaf .nil)).node fun e he => ?_
      obtain ⟨i, hi, rfl⟩ := List.mem_map.mp he
      exact (wellFormed_identifier_iff i).mpr (hidentifiers i hi)
    have hcharacteristics := wellFormed_objectCharacteristics hformats modificationtime
      fun e he => (hext e he).1
    have hrelationship : AllWellFormed
        (getPremisRelationshipData (X := X) f.relatedIsSourceOf f.relatedHasSource) :=
      (AllWellFormed.map (fun _ => wellFormed_relationship ..) _).append
        (AllWellFormed.map (fun _ => wellFormed_relationship ..) _)
    refine AllWellFormed.node (.append (.append (.cons (.atom _) hids) ?_) hrelationship)
    exact .cons hcharacteristics (.leaf .nil)

-- Items that are put one after the other make one node, with the tag of the first.

section Merged

variable {α : Type} {t t' : Tag} {l : List α} {info body : α → List (Data X)}

theorem nonempty_flatMap_cons (hinfo : ∀ a, info a = tag t :: body a) (a : α) (l : List α) :
    nonempty ((a :: l).flatMap info) = [node t (body a ++ l.flatMap info)] := by
  rw [List.flatMap_cons, hinfo a]
  rfl

theorem withTag_nonempty (hinfo : ∀ a, info a = tag t :: body a) (l : List α) :
    withTag t' (nonempty (l.flatMap info)) = if t = t' then nonempty (l.flatMap info) else [] := by
  cases l with
  | nil => split_ifs <;> rfl
  | cons a l =>
      rw [nonempty_flatMap_cons hinfo]
      split_ifs with ht
      · rw [withTag_cons_self (by rw [tag?_node, ht])]
        rfl
      · exact withTag_cons_ne (by simpa using ht) _

theorem forall₂_merged_iff {R : α → Data X → Prop} (hinfo : ∀ a, info a = tag t :: body a) :
    List.Forall₂ R l (nonempty (l.flatMap info)) ↔
      l.length ≤ 1 ∧ ∀ a ∈ l, R a (node t (body a)) := by
  match l with
  | [] => exact ⟨fun _ => ⟨Nat.zero_le 1, nofun⟩, fun _ => .nil⟩
  | [a] =>
      rw [nonempty_flatMap_cons hinfo, List.flatMap_nil, List.append_nil, List.forall₂_cons,
        List.forall_mem_singleton]
      exact ⟨fun h => ⟨Nat.le_refl 1, h.1⟩, fun h => ⟨h.2, .nil⟩⟩
  | a :: a' :: l =>
      rw [nonempty_flatMap_cons hinfo, List.forall₂_cons]
      constructor
      · intro h
        cases h.2
      · intro h
        simp at h

theorem allWellFormed_nonempty (hinfo : ∀ a, info a = tag t :: body a) (hlen : l.length ≤ 1)
    (hwf : ∀ a, AllWellFormed (body a)) : AllWellFormed (nonempty (l.flatMap info)) := by
  match l with
  | [] => exact .nil
  | [a] =>
      rw [nonempty_flatMap_cons hinfo, List.flatMap_nil, List.append_nil]
      exact .cons (hwf a).node .nil
  | a :: a' :: l => simp at hlen

end Merged

-- The sections of a kind, with what is collected for one of them after its tag.

def licenseBody (l : Information License) : List (Data X) :=
  getPremisRightsDocumentationIdentifiers .license l.identifiers ++
    [leaf .licenseTerms l.detail.terms] ++ notes .license l.notes ++
    [getPremisRightsApplicableDates .license l.dates]

def otherBody (rightsbasis : Str) (o : Information OtherRights) : List (Data X) :=
  getPremisRightsDocumentationIdentifiers .otherRights o.identifiers ++
    [leaf .otherRightsBasis (otherRightsBasis rightsbasis o.detail)] ++
    [getPremisRightsApplicableDates .otherRights o.dates] ++ notes .otherRights o.notes

def grantBody (g : Granted) : List (Data X) :=
  leaf .act g.act :: (g.restrictions.flatMap fun r => [leaf .restriction r, termOf g r]) ++
    g.notes.map (leaf .rightsGrantedNote)

theorem copyrightInfo_eq (getCodeForCountry : Str → Option Str) (c : Information Copyright) :
    (copyrightInfo getCodeForCountry c : List (Data X)) =
      tag (.information .copyright) :: copyrightFields getCodeForCountry c := rfl

theorem licenseInfo_eq (l : Information License) :
    (licenseInfo l : List (Data X)) = tag (.information .license) :: licenseBody l := rfl

theorem statuteInfo_eq (s : Information Statute) :
    (statuteInfo s : List (Data X)) = tag (.information .statute) :: statuteFields s := rfl

theorem otherInfo_eq (rightsbasis : Str) (o : Information OtherRights) :
    (otherInfo rightsbasis o : List (Data X)) =
      tag (.information .otherRights) :: otherBody rightsbasis o := rfl

theorem grantInfo_eq (g : Granted) :
    (grantInfo g : List (Data X)) = tag .rightsGranted :: grantBody g := rfl

theorem licenseBody_perm (l : Information License) :
    (licenseBody l : List (Data X)).Perm (licenseFields l) := by
  refine List.Perm.append_right _ ?_
  rw [List.append_assoc]
  exact List.perm_append_comm

theorem otherBody_perm (rightsbasis : Str) (o : Information OtherRights) :
    (otherBody rightsbasis o : List (Data X)).Perm (otherFields rightsbasis o) := by
  have hlast : ∀ front dates back : List (Data X),
      (front ++ dates ++ back).Perm (front ++ back ++ dates) := by
    intro front dates back
    rw [List.append_assoc, List.append_assoc]
    exact List.Perm.append_left front List.perm_append_comm
  refine (hlast _ _ _).trans (List.Perm.append_right _ ?_)
  rw [List.append_assoc]
  exact List.perm_append_comm

-- A grant that is alone has its own fields, and its dates where it has a restriction.
theorem holdsGrant_iff (g : Granted) :
    HoldsGrant g (node .rightsGranted (grantBody g) : Data X) ↔ (Dated g → g.restrictions ≠ []) := by
  have hparts : (g.restrictions.flatMap fun r => [leaf .restriction r, (termOf g r : Data X)]).Perm
      (g.restrictions.map (leaf .restriction) ++ g.restrictions.map (termOf g)) := by
    induction g.restrictions with
    | nil => exact .nil
    | cons r rs ih =>
        rw [List.flatMap_cons, List.map_cons, List.map_cons]
        exact ((ih.cons _).trans List.perm_middle.symm).cons _
  constructor
  · rintro ⟨terms, hperm, -, hdated⟩ hd hnil
    have hlen := hperm.length_eq
    rw [children_node, grantBody, hnil] at hlen
    have hterms : terms = [] := by
      apply List.length_eq_zero_iff.mp
      simpa [List.length_append] using hlen
    exact hdated hd hterms
  · intro h
    refine ⟨g.restrictions.map (termOf g), ?_, ?_, ?_⟩
    · rw [Holds, children_node, grantBody, List.cons_append, List.cons_append, List.cons_append]
      refine List.Perm.cons _ ((hparts.append_right _).trans ?_)
      rw [List.append_assoc, List.append_assoc]
      exact List.Perm.append_left _ List.perm_append_comm
    · intro term hterm
      obtain ⟨r, -, rfl⟩ := List.mem_map.mp hterm
      refine ⟨grantTag r, ?_, rfl⟩
      rw [grantTag]
      split_ifs
      · exact Or.inl rfl
      · exact Or.inr rfl
    · intro hd hnil
      exact h hd (List.map_eq_nil_iff.mp hnil)

-- The parts of a statement.

def sections (getCodeForCountry : Str → Option Str) (s : Statement) : Kind → List (Data X)
  | .copyright => getPremisCopyrightInformation getCodeForCountry s
  | .license => getPremisLicenseInformation s
  | .statute => getPremisStatuteInformation s
  | .otherRights => getPremisOtherRightsInformation s

theorem withTag_sections {t : Tag} (getCodeForCountry : Str → Option Str) (s : Statement) (k : Kind) :
    withTag t (nonempty (sections (X := X) getCodeForCountry s k)) =
      if .information k = t then nonempty (sections getCodeForCountry s k) else [] := by
  cases k with
  | copyright => exact withTag_nonempty (copyrightInfo_eq getCodeForCountry) _
  | license => exact withTag_nonempty licenseInfo_eq _
  | statute => exact withTag_nonempty statuteInfo_eq _
  | otherRights => exact withTag_nonempty (otherInfo_eq s.rightsbasis) _

theorem basisText_inj {k k' : Kind} (h : basisText k = basisText k') : k = k' := by
  cases k <;> cases k' <;> first | rfl | exact absurd h (by decide)

theorem basisInformation_cases (getCodeForCountry : Str → Option Str) (s : Statement) :
    (∃ k, basisType s = basisText k ∧
      basisInformation (X := X) getCodeForCountry s = nonempty (sections getCodeForCountry s k)) ∨
    (∀ k, basisType s ≠ basisText k) ∧ basisInformation (X := X) getCodeForCountry s = [] := by
  unfold basisInformation
  split_ifs with hcopyright hlicense hstatute hother
  · exact Or.inl ⟨.copyright, hcopyright, rfl⟩
  · exact Or.inl ⟨.license, hlicense, rfl⟩
  · exact Or.inl ⟨.statute, hstatute, rfl⟩
  · exact Or.inl ⟨.otherRights, hother, rfl⟩
  · refine Or.inr ⟨fun k => ?_, rfl⟩
    cases k with
    | copyright => exact hcopyright
    | license => exact hlicense
    | statute => exact hstatute
    | otherRights => exact hother

theorem withTag_basisInformation (getCodeForCountry : Str → Option Str) (s : Statement) (k : Kind) :
    withTag (.information k) (basisInformation (X := X) getCodeForCountry s) =
      if basisType s = basisText k then nonempty (sections getCodeForCountry s k) else [] := by
  rcases basisInformation_cases getCodeForCountry s with ⟨k', hbasis, h⟩ | ⟨hbasis, h⟩
  · rw [h, withTag_sections, hbasis]
    by_cases hk : k' = k
    · subst hk
      rw [if_pos rfl, if_pos rfl]
    · rw [if_neg (by simpa using hk), if_neg fun heq => hk (basisText_inj heq)]
  · rw [h, if_neg (hbasis k)]
    rfl

theorem withTag_basisInformation_rightsGranted (getCodeForCountry : Str → Option Str)
    (s : Statement) :
    withTag .rightsGranted (basisInformation (X := X) getCodeForCountry s) = [] := by
  rcases basisInformation_cases getCodeForCountry s with ⟨k, -, h⟩ | ⟨-, h⟩
  · rw [h, withTag_sections, if_neg nofun]
  · rw [h]
    rfl

theorem forall₂_sections_iff {α : Type} {s : Statement} {k : Kind} {l : List α}
    {info body fields : α → List (Data X)} (hinfo : ∀ a, info a = tag (.information k) :: body a)
    (hperm : ∀ a, (body a).Perm (fields a)) :
    List.Forall₂ (fun a => Holds (fields a)) l
      (if basisType s = basisText k then nonempty (l.flatMap info) else []) ↔ l.length ≤ room s k := by
  unfold room
  split_ifs
  · rw [forall₂_merged_iff hinfo]
    exact and_iff_left fun a _ => hperm a
  · rw [List.forall₂_nil_right_iff, Nat.le_zero, List.length_eq_zero_iff]

section Statement

variable (getCodeForCountry : Str → Option Str) (uuid4 fileUUID : Str) (s : Statement)

-- The nodes among the children of a statement that are no part of it in another place.
theorem named_rightsStatement {t : Tag} (ht : t ≠ .rightsStatementIdentifier) (ht' : t ≠ .rightsBasis)
    (ht'' : t ≠ .linkingObjectIdentifier) :
    (rightsStatement (X := X) getCodeForCountry uuid4 fileUUID s).named t =
      withTag t (basisInformation getCodeForCountry s) ++
        withTag t (nonempty (getPremisRightsGranted s)) := by
  rw [named, rightsStatement, children_node, withTag_append, withTag_append, withTag_append,
    withTag_cons_ne (by simpa [rightsStatementIdentifier] using ht.symm),
    withTag_cons_ne (by simpa using ht'.symm), withTag_cons_ne (by simpa using ht''.symm)]
  exact List.append_nil _

theorem named_information (k : Kind) :
    (rightsStatement (X := X) getCodeForCountry uuid4 fileUUID s).named (.information k) =
      if basisType s = basisText k then nonempty (sections getCodeForCountry s k) else [] := by
  have hgranted : withTag (.information k) (nonempty (getPremisRightsGranted (X := X) s)) = [] :=
    (withTag_nonempty grantInfo_eq s.granted).trans (if_neg nofun)
  rw [named_rightsStatement (t := .information k) _ _ _ _ nofun nofun nofun, hgranted, List.append_nil,
    withTag_basisInformation]

theorem named_rightsGranted :
    (rightsStatement (X := X) getCodeForCountry uuid4 fileUUID s).named .rightsGranted =
      nonempty (getPremisRightsGranted s) := by
  rw [named_rightsStatement (t := .rightsGranted) _ _ _ _ nofun nofun nofun,
    withTag_basisInformation_rightsGranted,
    List.nil_append]
  exact (withTag_nonempty grantInfo_eq s.granted).trans (if_pos rfl)

theorem granted_iff :
    List.Forall₂ HoldsGrant s.granted (nonempty (getPremisRightsGranted (X := X) s)) ↔
      s.granted.length ≤ 1 ∧ ∀ g ∈ s.granted, Dated g → g.restrictions ≠ [] := by
  rw [getPremisRightsGranted, forall₂_merged_iff grantInfo_eq]
  exact and_congr_right fun _ => forall₂_congr fun g _ => holdsGrant_iff g

-- Where nothing is put one after the other, every tag is in its place.

theorem allWellFormed_informationFields {α : Type} {k : Kind} {detail : List (Data X)}
    (hdetail : AllWellFormed detail) (i : Information α) :
    AllWellFormed (informationFields k detail i) := by
  have hnotes : AllWellFormed (notes (X := X) k i.notes) := AllWellFormed.map (.leaf _) _
  have hidentifiers : AllWellFormed
      (getPremisRightsDocumentationIdentifiers (X := X) k i.identifiers) :=
    AllWellFormed.map (fun _ => (AllWellFormed.leaf (.leaf (.leaf .nil))).node) _
  have hone : ∀ (c : Prop) [Decidable c] (t : Tag) (date : Str),
      AllWellFormed (if c then [] else [(leaf t date : Data X)]) := by
    intro c _ t date
    split_ifs
    · exact .nil
    · exact .leaf .nil
  have hdates : AllWellFormed [getPremisRightsApplicableDates (X := X) k i.dates] :=
    .cons (AllWellFormed.append (hone _ _ _) (hone _ _ _)).node .nil
  exact ((hdetail.append hnotes).append hidentifiers).append hdates

theorem allWellFormed_grantBody (g : Granted) : AllWellFormed (grantBody (X := X) g) := by
  refine .append (.leaf fun c hc => ?_) (AllWellFormed.map (.leaf _) _)
  obtain ⟨r, -, hc⟩ := List.mem_flatMap.mp hc
  have hpair : AllWellFormed [leaf .restriction r, (termOf g r : Data X)] :=
    .leaf (.cons (AllWellFormed.leaf (.leaf .nil)).node .nil)
  exact hpair c hc

theorem allWellFormed_basisInformation (h : Single s) :
    AllWellFormed (basisInformation (X := X) getCodeForCountry s) := by
  rcases basisInformation_cases (X := X) getCodeForCountry s with ⟨k, hbasis, hinfo⟩ | ⟨-, hinfo⟩
  · have hroom : room s k = 1 := if_pos hbasis
    rw [hinfo]
    cases k with
    | copyright =>
        refine allWellFormed_nonempty (copyrightInfo_eq _) (hroom ▸ h.copyrights) fun c => ?_
        exact allWellFormed_informationFields (.leaf (.leaf (.leaf .nil))) c
    | license =>
        refine allWellFormed_nonempty licenseInfo_eq (hroom ▸ h.licenses) fun l => ?_
        exact .of_perm (licenseBody_perm l) (allWellFormed_informationFields (.leaf .nil) l)
    | statute =>
        refine allWellFormed_nonempty statuteInfo_eq (hroom ▸ h.statutes) fun i => ?_
        exact allWellFormed_informationFields (.leaf (.leaf (.leaf .nil))) i
    | otherRights =>
        refine allWellFormed_nonempty (otherInfo_eq _) (hroom ▸ h.others) fun o => ?_
        exact .of_perm (otherBody_perm _ o) (allWellFormed_informationFields (.leaf .nil) o)
  · rw [hinfo]
    exact .nil

theorem wellFormed_rightsToPremis (h : Single s) :
    (rightsToPremis (X := X) getCodeForCountry uuid4 fileUUID s).WellFormed := by
  have hidentifier : (rightsStatementIdentifier (X := X) uuid4 s).WellFormed :=
    (AllWellFormed.leaf (.leaf .nil)).node
  have hlinking : (node .linkingObjectIdentifier [leaf .linkingObjectIdentifierType "UUID".toList,
      leaf .linkingObjectIdentifierValue fileUUID] : Data X).WellFormed :=
    (AllWellFormed.leaf (.leaf .nil)).node
  have hgranted : AllWellFormed (nonempty (getPremisRightsGranted (X := X) s)) :=
    allWellFormed_nonempty grantInfo_eq h.granted allWellFormed_grantBody
  refine AllWellFormed.node (.cons (.atom _) (.cons (AllWellFormed.node ?_) .nil))
  refine .append (.append (.append (.cons hidentifier (.leaf .nil)) ?_) hgranted) (.cons hlinking .nil)
  exact allWellFormed_basisInformation getCodeForCountry s h

theorem rightsComplete_iff :
    RightsComplete getCodeForCountry s
      (rightsToPremis (X := X) getCodeForCountry uuid4 fileUUID s) ↔ Single s := by
  have hnamed : (rightsToPremis (X := X) getCodeForCountry uuid4 fileUUID s).named .rightsStatement =
      [rightsStatement getCodeForCountry uuid4 fileUUID s] := rfl
  have hcopyrights := forall₂_sections_iff (X := X) (s := s) (l := s.copyrights)
    (copyrightInfo_eq getCodeForCountry) fun _ => .refl _
  have hlicenses := forall₂_sections_iff (X := X) (s := s) (l := s.licenses) licenseInfo_eq
    licenseBody_perm
  have hstatutes := forall₂_sections_iff (X := X) (s := s) (l := s.statutes) statuteInfo_eq
    fun _ => .refl _
  have hothers := forall₂_sections_iff (X := X) (s := s) (l := s.others)
    (otherInfo_eq s.rightsbasis) (otherBody_perm s.rightsbasis)
  have hgranted := granted_iff (X := X) s
  constructor
  · rintro ⟨-, statement, hone, h⟩
    obtain rfl : rightsStatement getCodeForCountry uuid4 fileUUID s = statement := by
      rw [hnamed, List.cons.injEq] at hone
      exact hone.1
    simp only [named_information, named_rightsGranted] at h
    exact ⟨hcopyrights.mp h.1, hlicenses.mp h.2.1, hstatutes.mp h.2.2.1, hothers.mp h.2.2.2.1,
      (hgranted.mp h.2.2.2.2).1, (hgranted.mp h.2.2.2.2).2⟩
  · intro h
    refine ⟨wellFormed_rightsToPremis getCodeForCountry uuid4 fileUUID s h, _, hnamed, ?_⟩
    simp only [named_information, named_rightsGranted]
    exact ⟨hcopyrights.mpr h.copyrights, hlicenses.mpr h.licenses, hstatutes.mpr h.statutes,
      hothers.mpr h.others, hgranted.mpr ⟨h.granted, h.dated⟩⟩

end Statement

-- The data of a file and that of a rights statement are well formed and complete exactly
-- when there is nothing to put one after the other, no grant has dates without a
-- restriction to put them with, and every further identifier has a type.
theorem premis_complete_iff {fromstring : Str → Option X} {f : File} {data : Data X}
    (h : fileObjToPremis fromstring f = some data) (getCodeForCountry : Str → Option Str)
    (uuid4 fileUUID : Str) (s : Statement) :
    ObjectComplete f data ∧
        RightsComplete getCodeForCountry s
          (rightsToPremis (X := X) getCodeForCountry uuid4 fileUUID s) ↔
      (f.fileIDs.length ≤ 1 ∧ ∀ i ∈ f.identifiers, i.type_ ≠ Option.none) ∧ Single s :=
  and_congr (objectComplete_iff h) (rightsComplete_iff getCodeForCountry uuid4 fileUUID s)

namespace Letter

-- A file that two tools have identified, with a grant that nothing restricts.

def pdf : FileID := ⟨"PDF".toList, "1.4".toList, "PRONOM".toList, "fmt/18".toList⟩

def file (fileIDs : List FileID) : File where
  uuid := ⟨1⟩
  originallocation := "%transferDirectory%objects/letter.pdf".toList
  checksum := "c0ffee".toList
  checksumtype := "sha256".toList
  size := some 3
  modificationtime := some "2026-01-01T00:00:00Z".toList
  fileIDs := fileIDs
  identifiers := []
  characterizationDocuments := []
  relatedIsSourceOf := []
  relatedHasSource := []

def granted : Granted := ⟨"use".toList, ⟨"2026/01/01".toList, [], true⟩, [], []⟩

def donor (granted : List Granted) : Statement where
  identifierType := []
  identifierValue := []
  rightsbasis := "Donor".toList
  copyrights := []
  licenses := []
  statutes := []
  others := []
  granted := granted

-- The file under an identifier of the archive, and a copyright that is granted until a day.
def filed : File :=
  { file [pdf] with
    identifiers := [⟨some "ARK".toList, some "ark:/1/letter".toList⟩]
    characterizationDocuments := [some "<jhove/>".toList] }

def copyrighted : Statement :=
  { donor [⟨"disseminate".toList, ⟨"2026/01/01".toList, "2030/01/01".toList, false⟩,
      ["Conditional".toList, "Disallow".toList], ["By the heirs.".toList]⟩] with
    rightsbasis := "Copyright".toList
    copyrights := [{
      detail := ⟨"copyrighted".toList, "Canada".toList, "2026/01/01".toList⟩
      dates := ⟨"1950/01/01".toList, [], true⟩
      notes := ["Letter to a friend.".toList, "Unpublished.".toList]
      identifiers := [⟨"local".toList, "7".toList, "deed".toList⟩] }] }

def countryCode (country : Str) : Option Str :=
  if country = "Canada".toList then some "ca".toList else Option.none

theorem single_copyrighted : Single copyrighted where
  copyrights := by decide
  licenses := by decide
  statutes := by decide
  others := by decide
  granted := by decide
  dated := by
    intro g hg _
    rw [List.mem_singleton.mp hg]
    exact List.cons_ne_nil _ _

end Letter

theorem premis_complete_letter :
    ∃ data, fileObjToPremis (X := Str) some Letter.filed = some data ∧ ObjectComplete Letter.filed data ∧
      RightsComplete Letter.countryCode Letter.copyrighted
        (rightsToPremis (X := Str) Letter.countryCode [] [] Letter.copyrighted) := by
  have hdata : (fileObjToPremis (X := Str) some Letter.filed).isSome = true := rfl
  obtain ⟨data, hdata⟩ := Option.isSome_iff_exists.mp hdata
  have htyped : ∀ i ∈ Letter.filed.identifiers, i.type_ ≠ Option.none := by
    intro i hi
    rw [List.mem_singleton.mp hi]
    exact Option.some_ne_none _
  exact ⟨data, hdata, (premis_complete_iff hdata Letter.countryCode [] [] Letter.copyrighted).mpr
    ⟨⟨Nat.le_refl 1, htyped⟩, Letter.single_copyrighted⟩⟩

-- Two identifications are one format node, which has a tag among its children, and of an
-- unrestricted grant the dates are missing.
theorem letter_incomplete :
    (∃ data, fileObjToPremis (X := Str) some (Letter.file [Letter.pdf, Letter.pdf]) = some data ∧
      ¬ ObjectComplete (Letter.file [Letter.pdf, Letter.pdf]) data) ∧
    ¬ RightsComplete (fun _ => Option.none) (Letter.donor [Letter.granted])
      (rightsToPremis (X := Str) (fun _ => Option.none) [] [] (Letter.donor [Letter.granted])) := by
  constructor
  · refine ⟨_, rfl, fun h => ?_⟩
    have hlen := ((@objectComplete_iff Str some _ _ rfl).mp h).1
    exact absurd hlen (by decide)
  · intro h
    have hsingle := (rightsComplete_iff _ _ _ _).mp h
    exact hsingle.dated Letter.granted List.mem_cons_self (Or.inl nofun) rfl

end Ccp.Worker.TransferMets
