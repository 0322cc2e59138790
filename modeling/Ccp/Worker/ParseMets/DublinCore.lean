import Ccp.Lib.Dict
import Ccp.Lib.Latest
import Ccp.Lib.Text
import Ccp.Worker.MetadataCSV
import Mathlib.Data.List.Lex
import Mathlib.Order.WithBot

namespace Ccp.Worker.ParseMets.DublinCore

open Lib MetadataCSV

def dctermsBNS : Str := "\x7bhttp://purl.org/dc/terms/\x7d".toList

def dcBNS : Str := "\x7bhttp://purl.org/dc/elements/1.1/\x7d".toList

-- What is in a dcterms:dublincore element; a comment has no tag that is a text.
inductive Child
  | element (tag : Str) (text : Option Str)
  | comment

-- A dmdSec with the types of its mdWraps and the first dcterms:dublincore in them.
structure DmdSec where
  id : Option Str
  created : Option Str
  mdtypes : List (Option Str)
  dublincore : Option (List Child)

-- A document with an objects div, of which this is the DMDID.
structure Root where
  dmdSecs : List DmdSec
  dmdid : Option Str

-- A row, with what is in the columns that are not blank.
structure Row where
  metadataappliestoidentifier : Str
  metadataappliestotype : Str
  status : Str
  terms : Dict Str Str
deriving DecidableEq

def mdTypeSIP : Str := "3e48343d-e2d2-4956-aaa3-b54d26eb9761".toList

def metadataStatusReingest : Str := "REINGEST".toList

def termsMatching : Dict Str Str :=
  ["title", "creator", "subject", "description", "publisher", "contributor", "date", "type", "format",
    "identifier", "source", "relation", "language", "coverage", "rights"].map
      (fun term => (term.toList, term.toList)) ++ [("isPartOf".toList, "is_part_of".toList)]

-- str.split
def split (s : Str) : List Str := (s.splitOnP isSpace).filter (· ≠ [])

def DmdSec.isDC (dmd : DmdSec) : Bool := dmd.mdtypes.contains (some "DC".toList)

-- The sort key: a section without CREATED comes before all others.
def DmdSec.key (dmd : DmdSec) : WithBot Str := dmd.created

def field? (tag : Str) : Option Str :=
  Dict.get? termsMatching (replaceFirst dcBNS [] (replaceFirst dctermsBNS [] tag))

-- setattr, for an element that has a text; a comment raises.
def setTerm (terms : Dict Str Str) : Child → Option (Dict Str Str)
  | .comment => none
  | .element tag text =>
      match field? tag, text with
      | some column, some text => some (Dict.set terms column text)
      | _, _ => some terms

inductive Result
  | raised
  | returned (dc : Option Row)
deriving DecidableEq

def Row.isOf (sipUUID : Str) (row : Row) : Bool :=
  row.metadataappliestoidentifier = sipUUID && row.metadataappliestotype = mdTypeSIP

def newRow (sipUUID : Str) (terms : Dict Str Str) : Row :=
  ⟨sipUUID, mdTypeSIP, metadataStatusReingest, terms⟩

def Root.dmds (root : Root) : List DmdSec := root.dmdSecs.filter DmdSec.isDC

def inDMDIDs (dmdids : Str) (dmd : DmdSec) : Bool :=
  dmd.id.any fun id => (split dmdids).contains id

-- The rows of the SIP go in any case. Without a section to take, dc_xml is not bound; without a
-- dcterms:dublincore in it, there is nothing to go through.
def parseDC (sipUUID : Str) (root : Root) (rows : List Row) : List Row × Result :=
  let rows := rows.filter fun row => !row.isOf sipUUID
  if root.dmds = [] then (rows, .returned none)
  else
    match root.dmdid with
    | none => (rows, .returned none)
    | some dmdids =>
        match (latest DmdSec.key (inDMDIDs dmdids) root.dmds).bind (·.dublincore) with
        | none => (rows, .raised)
        | some dcXml =>
            match dcXml.foldlM setTerm [] with
            | none => (rows, .raised)
            | some terms =>
                (rows ++ [newRow sipUUID terms], .returned (some (newRow sipUUID terms)))

-- What the elements have for the columns, one after the other.
def values (dcXml : List Child) : List (Str × Str) :=
  dcXml.filterMap fun
    | .comment => none
    | .element tag text => (field? tag).bind fun column => text.map (column, ·)

def DmdSec.values (dmd : DmdSec) : List (Str × Str) := DublinCore.values (dmd.dublincore.getD [])

-- The last text of a column counts.
def DmdSec.terms (dmd : DmdSec) : Dict Str Str :=
  dmd.values.foldl (fun terms v => Dict.set terms v.1 v.2) []

def Readable (dmd : DmdSec) : Prop := ∃ dcXml, dmd.dublincore = some dcXml ∧ .comment ∉ dcXml

theorem foldlM_setTerm (dcXml : List Child) (terms : Dict Str Str) :
    (.comment ∉ dcXml ∧ dcXml.foldlM setTerm terms =
      some ((values dcXml).foldl (fun terms v => Dict.set terms v.1 v.2) terms)) ∨
    (.comment ∈ dcXml ∧ dcXml.foldlM setTerm terms = none) := by
  induction dcXml generalizing terms with
  | nil => exact Or.inl ⟨by simp, rfl⟩
  | cons child dcXml ih =>
      cases child with
      | comment => exact Or.inr ⟨List.mem_cons_self, rfl⟩
      | element tag text =>
          have hstep : ∃ terms', setTerm terms (.element tag text) = some terms' ∧
              (values (.element tag text :: dcXml)).foldl (fun terms v => Dict.set terms v.1 v.2) terms =
                (values dcXml).foldl (fun terms v => Dict.set terms v.1 v.2) terms' := by
            cases hfield : field? tag with
            | none => exact ⟨terms, by simp [setTerm, hfield], by simp [values, hfield]⟩
            | some column =>
                cases text with
                | none => exact ⟨terms, by simp [setTerm, hfield], by simp [values, hfield]⟩
                | some text =>
                    exact ⟨Dict.set terms column text, by simp [setTerm, hfield],
                      by simp [values, hfield]⟩
          obtain ⟨terms', hset, hvalues⟩ := hstep
          rw [List.foldlM_cons, hset, hvalues]
          rcases ih terms' with ⟨hnot, heq⟩ | ⟨hmem, heq⟩
          · exact Or.inl ⟨by simp [hnot], heq⟩
          · exact Or.inr ⟨List.mem_cons_of_mem _ hmem, heq⟩

-- What parse_dc has to do.

section Contract

variable {τ : Type} [LinearOrder τ] (instant : Str → τ)

-- The instant of CREATED; a section without it is older than all others.
def DmdSec.time (dmd : DmdSec) : WithBot τ := dmd.created.map instant

def Root.References (root : Root) (dmd : DmdSec) : Prop :=
  dmd ∈ root.dmds ∧ ∃ dmdids, root.dmdid = some dmdids ∧ inDMDIDs dmdids dmd = true

-- One of the most recently created of those sections.
structure Root.Newest (root : Root) (dmd : DmdSec) : Prop where
  referenced : root.References dmd
  newest : ∀ dmd', root.References dmd' → dmd'.time instant ≤ dmd.time instant

-- Each column has a text that the section has for it, where it has one.
structure Stores (dmd : DmdSec) (terms : Dict Str Str) : Prop where
  text : ∀ column text, Dict.get? terms column = some text → (column, text) ∈ dmd.values
  blank : ∀ column, Dict.get? terms column = none → ∀ text, (column, text) ∉ dmd.values

structure Contract (sipUUID : Str) (root : Root) (rows : List Row) : Prop where
  stored : (∃ dmd, root.References dmd) → ∃ dmd terms, root.Newest instant dmd ∧ Stores dmd terms ∧
    parseDC sipUUID root rows = (rows.filter (fun row => !row.isOf sipUUID) ++ [newRow sipUUID terms],
      .returned (some (newRow sipUUID terms)))
  nothing : (¬ ∃ dmd, root.References dmd) →
    parseDC sipUUID root rows = (rows.filter (fun row => !row.isOf sipUUID), .returned none)

-- The section with the greatest text of CREATED, the last of several.
def Root.chosen (root : Root) : Option DmdSec :=
  root.dmdid.bind fun dmdids => latest DmdSec.key (inDMDIDs dmdids) root.dmds

structure Clear (root : Root) : Prop where
  -- the div does not reference other kinds only
  found : root.dmds ≠ [] → root.dmdid ≠ none → ∃ dmd, root.References dmd
  readable : ∀ dmd, root.chosen = some dmd → Readable dmd
  -- the order of the texts is that of the instants, or makes no difference
  newest : ∀ dmd, root.chosen = some dmd → ∃ dmd', root.Newest instant dmd' ∧ Stores dmd' dmd.terms

end Contract

variable {τ : Type} [LinearOrder τ] {instant : Str → τ} {root : Root} {dmd : DmdSec} {sipUUID : Str}
  {rows : List Row}

theorem chosen_eq_some (h : root.chosen = some dmd) : root.References dmd := by
  obtain ⟨dmdids, hdmdid, hlatest⟩ := Option.bind_eq_some_iff.mp h
  obtain ⟨hmem, hin, -⟩ := latest_eq_some hlatest
  exact ⟨hmem, dmdids, hdmdid, hin⟩

theorem exists_chosen (h : root.References dmd) : ∃ dmd, root.chosen = some dmd := by
  obtain ⟨hmem, dmdids, hdmdid, hin⟩ := h
  rw [Root.chosen, hdmdid, Option.bind_some, ← Option.ne_none_iff_exists']
  intro hnone
  rw [latest_eq_none_iff.mp hnone dmd hmem] at hin
  cases hin

theorem parseDC_of_chosen (h : root.chosen = some dmd) (hread : Readable dmd) (sipUUID : Str)
    (rows : List Row) : parseDC sipUUID root rows =
      (rows.filter (fun row => !row.isOf sipUUID) ++ [newRow sipUUID dmd.terms],
        .returned (some (newRow sipUUID dmd.terms))) := by
  obtain ⟨hmem, dmdids, hdmdid, -⟩ := chosen_eq_some h
  rw [Root.chosen, hdmdid, Option.bind_some] at h
  obtain ⟨dcXml, hxml, hcomment⟩ := hread
  have hterms : dcXml.foldlM setTerm [] = some dmd.terms := by
    rcases foldlM_setTerm dcXml [] with ⟨-, heq⟩ | ⟨hmem', -⟩
    · rw [heq, DmdSec.terms, DmdSec.values, hxml, Option.getD_some]
    · exact absurd hmem' hcomment
  have hne : root.dmds ≠ [] := List.ne_nil_of_mem hmem
  simp only [parseDC, if_neg hne, hdmdid, h, Option.bind_some, hxml, hterms]

theorem parseDC_raised (h : root.chosen = some dmd) (hread : ¬ Readable dmd) :
    (parseDC sipUUID root rows).2 = .raised := by
  obtain ⟨hmem, dmdids, hdmdid, -⟩ := chosen_eq_some h
  rw [Root.chosen, hdmdid, Option.bind_some] at h
  have hne : root.dmds ≠ [] := List.ne_nil_of_mem hmem
  simp only [parseDC, if_neg hne, hdmdid, h, Option.bind_some]
  cases hxml : dmd.dublincore with
  | none => rfl
  | some dcXml =>
      rcases foldlM_setTerm dcXml [] with ⟨hcomment, -⟩ | ⟨-, heq⟩
      · exact absurd ⟨dcXml, hxml, hcomment⟩ hread
      · simp [heq]

theorem parseDC_of_none (h : ¬ ∃ dmd, root.References dmd) (sipUUID : Str) (rows : List Row) :
    parseDC sipUUID root rows = (rows.filter (fun row => !row.isOf sipUUID),
      if root.dmds = [] ∨ root.dmdid = none then .returned none else .raised) := by
  by_cases hnil : root.dmds = []
  · simp only [parseDC, if_pos hnil, if_pos (Or.inl hnil)]
  · cases hdmdid : root.dmdid with
    | none => simp only [parseDC, if_neg hnil, hdmdid, if_pos (Or.inr trivial)]
    | some dmdids =>
        have hlatest : latest DmdSec.key (inDMDIDs dmdids) root.dmds = none := by
          rw [latest_eq_none_iff]
          intro dmd hdmd
          rw [Bool.eq_false_iff]
          exact fun hin => h ⟨dmd, hdmd, dmdids, hdmdid, hin⟩
        simp [parseDC, hnil, hdmdid, hlatest]

-- The script does what it has to exactly when the objects div references a section of Dublin
-- Core where there is one, and the one that is taken can be read and is the newest.
theorem parseDC_contract_iff : Contract instant sipUUID root rows ↔ Clear instant root := by
  constructor
  · intro h
    have hchosen : ∀ dmd, root.chosen = some dmd → Readable dmd ∧
        ∃ dmd', root.Newest instant dmd' ∧ Stores dmd' dmd.terms := by
      intro dmd hdmd
      obtain ⟨dmd', terms, hnewest, hstores, hrun⟩ := h.stored ⟨dmd, chosen_eq_some hdmd⟩
      by_cases hread : Readable dmd
      · rw [parseDC_of_chosen hdmd hread] at hrun
        have hrow := Option.some.inj (Result.returned.inj (Prod.mk.inj hrun).2)
        have hterms : dmd.terms = terms := congrArg Row.terms hrow
        exact ⟨hread, dmd', hnewest, hterms ▸ hstores⟩
      · have hraised := @parseDC_raised _ _ sipUUID rows hdmd hread
        rw [hrun] at hraised
        cases hraised
    refine ⟨fun hne hdmdid => ?_, fun dmd hdmd => (hchosen dmd hdmd).1,
      fun dmd hdmd => (hchosen dmd hdmd).2⟩
    by_contra hnone
    have hrun := h.nothing hnone
    rw [parseDC_of_none hnone, if_neg (not_or.mpr ⟨hne, hdmdid⟩)] at hrun
    cases (Prod.mk.inj hrun).2
  · intro h
    refine ⟨?_, fun hnone => ?_⟩
    · rintro ⟨dmd₀, hdmd₀⟩
      obtain ⟨dmd, hdmd⟩ := exists_chosen hdmd₀
      obtain ⟨dmd', hnewest, hstores⟩ := h.newest dmd hdmd
      exact ⟨dmd', dmd.terms, hnewest, hstores, parseDC_of_chosen hdmd (h.readable dmd hdmd) _ _⟩
    · rw [parseDC_of_none hnone, if_pos]
      by_contra hnot
      rw [not_or] at hnot
      exact hnone (h.found hnot.1 hnot.2)

-- Dublin Core of a file, and an objects div that references another kind.
def otherKind : Root where
  dmdSecs := [⟨some "dmdSec_1".toList, none, [some "DC".toList], some []⟩,
    ⟨some "dmdSec_2".toList, none, [some "PREMIS:OBJECT".toList], none⟩]
  dmdid := some "dmdSec_2".toList

theorem otherKind_raises : ¬ Contract id "s".toList otherKind [] := by
  intro h
  have hall : otherKind.dmds.all (fun dmd => !inDMDIDs "dmdSec_2".toList dmd) = true := by decide
  have hnone : ¬ ∃ dmd, otherKind.References dmd := by
    rintro ⟨dmd, hmem, dmdids, hdmdid, hin⟩
    obtain rfl : "dmdSec_2".toList = dmdids := Option.some.inj hdmdid
    have hnot := List.all_eq_true.mp hall dmd hmem
    rw [hin] at hnot
    cases hnot
  exact absurd (congrArg Prod.snd (h.nothing hnone)) (by decide)

end Ccp.Worker.ParseMets.DublinCore
