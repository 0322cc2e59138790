import Ccp.Lib.MapM
import Ccp.Worker.XmlMetadata

namespace Ccp.Worker.XmlMetadata

open Lib

-- What is left out of a list adds nothing.
theorem flatMap_filter {α β : Type*} (p : α → Bool) (f : α → List β) (l : List α) :
    (l.filter p).flatMap f = l.flatMap fun a => if p a then f a else [] := by
  induction l with
  | nil => rfl
  | cons a l ih =>
      by_cases h : p a = true
      · rw [List.filter_cons_of_pos h, List.flatMap_cons, List.flatMap_cons, ih, if_pos h]
      · rw [List.filter_cons_of_neg h, List.flatMap_cons, ih, if_neg h, List.nil_append]

section Mapping

variable {w : World} {args : Args} {result : Mapping × List Err}

-- A file that is not there has no rows.
def rowsOf (w : World) (source : PurePath) : List SourceRow :=
  if w.isFile source then ((w.csv source).map (rowsAt source)).getD [] else []

def Readable (w : World) (source : PurePath) : Prop :=
  w.isFile source = true → ∃ csv, w.csv source = some csv ∧ csv.broken = false

theorem readSource_eq_some_iff {source : PurePath} {start : Mapping × List Err} :
    readSource w start source = some result ↔
      Readable w source ∧ (rowsOf w source).foldlM addRow start = some result := by
  rw [readSource, Readable, rowsOf]
  by_cases hfile : w.isFile source = true
  · rw [if_pos hfile, if_pos hfile]
    cases hcsv : w.csv source with
    | none => simp [hfile]
    | some csv =>
        rw [Option.bind_some, Option.map_some, Option.getD_some]
        cases hbroken : csv.broken with
        | true => simp [hfile, hbroken]
        | false => simp [hbroken]
  · rw [if_neg hfile, if_neg hfile]
    simp [hfile]

theorem foldlM_readSource_iff (sources : List PurePath) (start : Mapping × List Err) :
    sources.foldlM (readSource w) start = some result ↔
      (∀ source ∈ sources, Readable w source) ∧
        (sources.flatMap (rowsOf w)).foldlM addRow start = some result := by
  induction sources generalizing start with
  | nil => simp
  | cons source sources ih =>
      simp only [List.foldlM_cons, List.flatMap_cons, List.foldlM_append, List.forall_mem_cons, Option.bind_eq_bind,
        Option.bind_eq_some_iff]
      constructor
      · rintro ⟨mid, hmid, hrest⟩
        obtain ⟨hread, hrows⟩ := readSource_eq_some_iff.mp hmid
        obtain ⟨hreads, hrest⟩ := (ih mid).mp hrest
        exact ⟨⟨hread, hreads⟩, mid, hrows, hrest⟩
      · rintro ⟨⟨hread, hreads⟩, mid, hrows, hrest⟩
        exact ⟨mid, readSource_eq_some_iff.mpr ⟨hread, hrows⟩, (ih mid).mpr ⟨hreads, hrest⟩⟩

theorem flatMap_rowsOf (h : w.xmlValidation ≠ []) :
    (sourceMetadataPaths w args.sipDir args.reingest).flatMap (rowsOf w) = sourceRows w args := by
  rw [sourceRows, if_neg h, flatMap_filter]
  rfl

end Mapping

section Rows

-- The error that a row leaves, by those before it.
def rowError (p : List SourceRow × SourceRow) : List Err :=
  if p.2.filename = [] ∨ p.2.type = [] then [missingError p.2.source]
  else if p.2.type = "CUSTOM".toList then [customError p.2.source]
  else if p.2.pair ∈ p.1.map SourceRow.pair then [repeatedError p.2.source p.2.filename p.2.type]
  else []

theorem rowError_ne_nil_iff (p : List SourceRow × SourceRow) :
    rowError p ≠ [] ↔ isFirst SourceRow.pair p = false := by
  obtain ⟨earlier, r⟩ := p
  rw [← Bool.not_eq_true, isFirst_iff, rowError]
  by_cases hmissing : r.filename = [] ∨ r.type = []
  · have hpair : r.pair = none := if_pos (or_assoc.mp (Or.inl hmissing))
    simp [hmissing, hpair]
  · by_cases hcustom : r.type = "CUSTOM".toList
    · have hpair : r.pair = none := if_pos (Or.inr (Or.inr hcustom))
      rw [if_neg hmissing, if_pos hcustom]
      simp [hpair]
    · have hpair : r.pair ≠ none := by
        rw [SourceRow.pair, if_neg (by rw [← or_assoc]; exact not_or.mpr ⟨hmissing, hcustom⟩)]
        exact Option.some_ne_none _
      rw [if_neg hmissing, if_neg hcustom]
      by_cases hmem : r.pair ∈ earlier.map SourceRow.pair
      · rw [if_pos hmem]
        simp [hmem]
      · rw [if_neg hmem]
        simp [hmem, hpair]

-- A first row is one of its file.
def addFirst (mapping : Mapping) (r : SourceRow) : Mapping :=
  Dict.set mapping r.filename (Dict.set ((Dict.get? mapping r.filename).getD []) r.type r.xmlPath)

def mappingOf (rows : List SourceRow) : Mapping := (firsts SourceRow.pair rows).foldl addFirst []

def errorsOf (rows : List SourceRow) : List Err := (withEarlier [] rows).flatMap rowError

variable {rows : List SourceRow} {r : SourceRow}

theorem pair_eq_some_iff {f t : Str} : r.pair = some (f, t) ↔
    f ≠ [] ∧ t ≠ [] ∧ t ≠ "CUSTOM".toList ∧ r.filename = f ∧ r.type = t := by
  rw [SourceRow.pair]
  by_cases h : r.filename = [] ∨ r.type = [] ∨ r.type = "CUSTOM".toList
  · rw [if_pos h]
    refine iff_of_false (fun h => nomatch h) ?_
    rintro ⟨hf, ht, hc, rfl, rfl⟩
    rcases h with h | h | h
    · exact hf h
    · exact ht h
    · exact hc h
  · rw [if_neg h, Option.some.injEq, Prod.mk.injEq]
    constructor
    · rintro ⟨rfl, rfl⟩
      rw [not_or, not_or] at h
      exact ⟨h.1, h.2.1, h.2.2, rfl, rfl⟩
    · rintro ⟨-, -, -, rfl, rfl⟩
      exact ⟨rfl, rfl⟩

theorem pair_of_ne_none (h : r.pair ≠ none) : r.pair = some (r.filename, r.type) := by
  obtain ⟨⟨f, t⟩, hpair⟩ := Option.ne_none_iff_exists'.mp h
  obtain ⟨-, -, -, rfl, rfl⟩ := pair_eq_some_iff.mp hpair
  exact hpair

theorem pair_of_mem_firsts (h : r ∈ firsts SourceRow.pair rows) : r.pair = some (r.filename, r.type) :=
  pair_of_ne_none (key_ne_none_of_mem_firsts h)

theorem mappingOf_concat (rows : List SourceRow) (r : SourceRow) : mappingOf (rows ++ [r]) =
    if isFirst SourceRow.pair (rows, r) then addFirst (mappingOf rows) r else mappingOf rows := by
  rw [mappingOf, firsts_concat]
  split_ifs
  · rw [List.foldl_append]
    rfl
  · rfl

-- What the mapping has for a file are its first rows.
theorem getD_mappingOf (rows : List SourceRow) (f : Str) :
    (Dict.get? (mappingOf rows) f).getD [] =
      ((firsts SourceRow.pair rows).filter fun r => r.filename = f).map fun r => (r.type, r.xmlPath) := by
  induction rows using List.reverseRecOn with
  | nil => rfl
  | append_singleton rows r ih =>
      rw [mappingOf_concat, firsts_concat]
      by_cases hfirst : isFirst SourceRow.pair (rows, r) = true
      · rw [if_pos hfirst, if_pos hfirst, addFirst, Dict.get?_set, List.filter_append, List.map_append]
        by_cases hf : r.filename = f
        · subst hf
          have hnew : r.type ∉ ((Dict.get? (mappingOf rows) r.filename).getD []).map Prod.fst := by
            rw [ih, List.map_map]
            intro hmem
            obtain ⟨q, hq, htype⟩ := List.mem_map.mp hmem
            obtain ⟨hq, hname⟩ := List.mem_filter.mp hq
            obtain ⟨hne, hnotMem⟩ := isFirst_iff.mp hfirst
            refine hnotMem ?_
            rw [pair_of_ne_none hne]
            refine key_mem_firsts_iff.mp (List.mem_map.mpr ⟨q, hq, ?_⟩)
            rw [pair_of_mem_firsts hq, of_decide_eq_true hname, show q.type = r.type from htype]
          rw [if_pos rfl, Option.getD_some, Dict.set_eq_append hnew, ih]
          simp
        · rw [if_neg hf, ih, List.filter_cons_of_neg (by simpa using hf)]
          simp
      · rw [if_neg hfirst, if_neg hfirst, ih]

theorem errorsOf_concat (rows : List SourceRow) (r : SourceRow) :
    errorsOf (rows ++ [r]) = errorsOf rows ++ rowError (rows, r) := by
  rw [errorsOf, withEarlier_concat, List.flatMap_append, List.nil_append, List.flatMap_singleton]
  rfl

theorem mem_keys_mappingOf {f t : Str} :
    t ∈ ((Dict.get? (mappingOf rows) f).getD []).map Prod.fst ↔
      some (f, t) ∈ (firsts SourceRow.pair rows).map SourceRow.pair := by
  rw [getD_mappingOf, List.map_map, List.mem_map, List.mem_map]
  constructor
  · rintro ⟨q, hq, rfl⟩
    obtain ⟨hq, hname⟩ := List.mem_filter.mp hq
    refine ⟨q, hq, ?_⟩
    rw [pair_of_mem_firsts hq, of_decide_eq_true hname]
    rfl
  · rintro ⟨q, hq, hpair⟩
    obtain ⟨-, -, -, rfl, rfl⟩ := pair_eq_some_iff.mp hpair
    exact ⟨q, List.mem_filter.mpr ⟨hq, decide_eq_true rfl⟩, rfl⟩

-- A row has its place in the mapping already, exactly when one before it has its file and type.
theorem isSome_type_iff (h : r.pair ≠ none) :
    (Dict.get? ((Dict.get? (mappingOf rows) r.filename).getD []) r.type).isSome = true ↔
      r.pair ∈ rows.map SourceRow.pair := by
  rw [Option.isSome_iff_ne_none, Ne, Dict.get?_eq_none_iff, not_not, mem_keys_mappingOf, key_mem_firsts_iff,
    pair_of_ne_none h]

-- One row more.
theorem addRow_eq (rows : List SourceRow) (r : SourceRow) :
    addRow (mappingOf rows, errorsOf rows) r =
      if isFirst SourceRow.pair (rows, r) && (Dict.get? r.row.cells "metadata".toList).isNone then none
      else some (mappingOf (rows ++ [r]), errorsOf (rows ++ [r])) := by
  have hnotFirst (h : rowError (rows, r) ≠ []) :
      (if isFirst SourceRow.pair (rows, r) && (Dict.get? r.row.cells "metadata".toList).isNone then none
        else some (mappingOf (rows ++ [r]), errorsOf (rows ++ [r]))) =
          some (mappingOf rows, errorsOf rows ++ rowError (rows, r)) := by
    have hfirst := (rowError_ne_nil_iff _).mp h
    rw [mappingOf_concat, errorsOf_concat, hfirst]
    rfl
  rw [addRow]
  by_cases hmissing : r.filename = [] ∨ r.type = []
  · have herror : rowError (rows, r) = [missingError r.source] := if_pos hmissing
    rw [if_pos hmissing, hnotFirst (by rw [herror]; exact List.cons_ne_nil _ _), herror]
  · rw [if_neg hmissing]
    by_cases hcustom : r.type = "CUSTOM".toList
    · have herror : rowError (rows, r) = [customError r.source] := by
        rw [rowError, if_neg hmissing, if_pos hcustom]
      rw [if_pos hcustom, hnotFirst (by rw [herror]; exact List.cons_ne_nil _ _), herror]
    · have hpair : r.pair ≠ none := by
        rw [SourceRow.pair, if_neg (by rw [← or_assoc]; exact not_or.mpr ⟨hmissing, hcustom⟩)]
        exact Option.some_ne_none _
      rw [if_neg hcustom]
      by_cases hmem : r.pair ∈ rows.map SourceRow.pair
      · have herror : rowError (rows, r) = [repeatedError r.source r.filename r.type] := by
          rw [rowError, if_neg hmissing, if_neg hcustom, if_pos hmem]
        rw [hnotFirst (by rw [herror]; exact List.cons_ne_nil _ _), herror]
        exact if_pos ((isSome_type_iff hpair).mpr hmem)
      · have herror : rowError (rows, r) = [] := by
          rw [rowError, if_neg hmissing, if_neg hcustom, if_neg hmem]
        have hfirst : isFirst SourceRow.pair (rows, r) = true := isFirst_iff.mpr ⟨hpair, hmem⟩
        rw [mappingOf_concat, errorsOf_concat, herror, hfirst, if_pos rfl, List.append_nil]
        refine (if_neg fun h => hmem ((isSome_type_iff hpair).mp h)).trans ?_
        cases Dict.get? r.row.cells "metadata".toList <;> rfl

theorem foldlM_addRow_iff (rows : List SourceRow) (result : Mapping × List Err) :
    rows.foldlM addRow ([], []) = some result ↔
      (∀ r ∈ firsts SourceRow.pair rows, (Dict.get? r.row.cells "metadata".toList).isSome = true) ∧
        result = (mappingOf rows, errorsOf rows) := by
  induction rows using List.reverseRecOn generalizing result with
  | nil =>
      refine ⟨fun h => ⟨fun _ hr => absurd hr List.not_mem_nil, (Option.some.inj h).symm⟩, fun h => ?_⟩
      rw [h.2]
      rfl
  | append_singleton rows r ih =>
      rw [List.foldlM_append, Option.bind_eq_bind, Option.bind_eq_some_iff]
      have hstep (mid : Mapping × List Err) : [r].foldlM addRow mid = addRow mid r := by
        rw [List.foldlM_cons]
        simp
      simp only [ih, hstep]
      rw [firsts_concat]
      by_cases hfirst : isFirst SourceRow.pair (rows, r) = true
      · rw [if_pos hfirst, List.forall_mem_append, List.forall_mem_singleton]
        constructor
        · rintro ⟨_, ⟨hrows, rfl⟩, hadd⟩
          rw [addRow_eq, hfirst, Bool.true_and] at hadd
          split_ifs at hadd with hnone
          rw [Option.isNone_iff_eq_none] at hnone
          exact ⟨⟨hrows, Option.isSome_iff_ne_none.mpr hnone⟩, (Option.some.inj hadd).symm⟩
        · rintro ⟨⟨hrows, hcell⟩, rfl⟩
          refine ⟨_, ⟨hrows, rfl⟩, ?_⟩
          have hnone : ¬ (Dict.get? r.row.cells "metadata".toList).isNone = true := by
            rw [Option.isNone_iff_eq_none]
            exact Option.isSome_iff_ne_none.mp hcell
          rw [addRow_eq, hfirst, Bool.true_and, if_neg hnone]
      · rw [if_neg hfirst]
        rw [Bool.not_eq_true] at hfirst
        constructor
        · rintro ⟨_, ⟨hrows, rfl⟩, hadd⟩
          rw [addRow_eq, hfirst, Bool.false_and] at hadd
          exact ⟨hrows, (Option.some.inj hadd).symm⟩
        · rintro ⟨hrows, rfl⟩
          refine ⟨_, ⟨hrows, rfl⟩, ?_⟩
          rw [addRow_eq, hfirst, Bool.false_and]
          rfl

end Rows

section Schema

variable {w : World} {tree : Tree} {keys : List Str} {result : Except (List Str) (Option Str)}

-- A look-up by keys ends with the value of the first that is known, or with the ValueError.
def Found (value : Option (Option Str)) (result : Except (List Str) (Option Str)) : Prop :=
  (∃ uri, value = some uri ∧ result = .ok uri) ∨ (value = none ∧ ∃ keys, result = .error keys)

theorem found_byName (tree : Tree) (keys : List Str) :
    Found ([tree.namespaceUri, tree.localName].findSome? (known w.xmlValidation))
      (schemaUriByName tree w.xmlValidation keys) := by
  rw [schemaUriByName, List.findSome?_cons, List.findSome?_singleton]
  cases known w.xmlValidation tree.namespaceUri with
  | some uri => exact Or.inl ⟨uri, rfl, rfl⟩
  | none =>
      cases known w.xmlValidation tree.localName with
      | some uri => exact Or.inl ⟨uri, rfl, rfl⟩
      | none => exact Or.inr ⟨rfl, _, rfl⟩

theorem found_byLocation (h : schemaUriByLocation tree w.xmlValidation keys = some result) :
    Found (((tree.schemaLocation.bind lastLocation).toList ++ [tree.namespaceUri, tree.localName]).findSome?
      (known w.xmlValidation)) result := by
  rw [schemaUriByLocation] at h
  cases hlocation : tree.schemaLocation with
  | none =>
      rw [hlocation] at h
      obtain rfl := Option.some.inj h
      exact found_byName tree keys
  | some location =>
      rw [hlocation] at h
      obtain ⟨key, hkey, hresult⟩ := Option.map_eq_some_iff.mp h
      rw [Option.bind_some, hkey, Option.toList_some, List.singleton_append, List.findSome?_cons]
      cases hknown : known w.xmlValidation key with
      | some uri =>
          rw [hknown] at hresult
          exact Or.inl ⟨uri, rfl, hresult.symm⟩
      | none =>
          rw [hknown] at hresult
          rw [← hresult]
          exact found_byName tree _

-- The schema is that of the first key that is known.
theorem found_getSchemaUri (h : getSchemaUri tree w.xmlValidation = some result) :
    Found (configured w tree) result := by
  rw [getSchemaUri] at h
  rw [configured, schemaKeys, List.append_assoc]
  cases hlocation : tree.noNamespaceSchemaLocation with
  | none =>
      rw [hlocation] at h
      exact found_byLocation h
  | some location =>
      rw [hlocation] at h
      rw [Option.map_some, Option.toList_some, List.singleton_append, List.findSome?_cons]
      cases hknown : known w.xmlValidation (strip location) with
      | some uri =>
          simp only [hknown] at h
          exact Or.inl ⟨uri, rfl, (Option.some.inj h).symm⟩
      | none =>
          simp only [hknown] at h
          exact found_byLocation h

theorem schemaUriByLocation_isSome_iff : (schemaUriByLocation tree w.xmlValidation keys).isSome = true ↔
    ∀ location, tree.schemaLocation = some location → (lastLocation location).isSome = true := by
  rw [schemaUriByLocation]
  cases tree.schemaLocation with
  | none => simp
  | some location => simp

theorem getSchemaUri_isSome_iff : (getSchemaUri tree w.xmlValidation).isSome = true ↔
    (∃ location, tree.noNamespaceSchemaLocation = some location ∧
      (known w.xmlValidation (strip location)).isSome = true) ∨
        ∀ location, tree.schemaLocation = some location → (lastLocation location).isSome = true := by
  rw [getSchemaUri]
  cases tree.noNamespaceSchemaLocation with
  | none => simpa using schemaUriByLocation_isSome_iff
  | some location =>
      cases hknown : known w.xmlValidation (strip location) with
      | some uri => simp [hknown]
      | none => simpa [hknown] using schemaUriByLocation_isSome_iff

theorem validateXml_isSome_iff {schemaUri : Str} : (validateXml w tree schemaUri).isSome = true ↔
    ∀ opened, openedUri schemaUri = some opened → (w.urlopen opened).isSome = true := by
  rw [validateXml]
  cases openedUri schemaUri with
  | none => simp
  | some opened => simp

-- A validation that fails has an error.
theorem errors_of_validateXml {schemaUri : Str} {result : Bool × List Str}
    (h : validateXml w tree schemaUri = some result) (hvalid : result.1 = false) : result.2 ≠ [] := by
  rw [validateXml] at h
  cases hopened : openedUri schemaUri with
  | none =>
      rw [hopened] at h
      obtain rfl := Option.some.inj h
      exact List.cons_ne_nil _ _
  | some uri =>
      rw [hopened] at h
      obtain ⟨contents, -, rfl⟩ := Option.map_eq_some_iff.mp h
      cases hparse : parseSchema w (schemaType schemaUri) contents with
      | error err => exact List.cons_ne_nil _ _
      | ok schema =>
          cases schema with
          | none => exact List.cons_ne_nil _ _
          | some schema =>
              cases hlog : schema tree with
              | none => simp [hparse, validate, hlog] at hvalid
              | some log => simp [validate, hlog, ErrorLog.toList]

end Schema

section Files

variable {w : World} {mets : List FSEntry} {args : Args} {entry : FSEntry} {xmlType : Str} {tree : Tree}
  {xmlPath : PurePath} {effects : List Effect}

-- A file leaves its section where it is accepted, and otherwise errors.
structure Leaves (args : Args) (entry : FSEntry) (xmlType : Str) (document : Option Tree) (effects : List Effect) :
    Prop where
  dmdSecs : effects.filterMap Effect.dmdSec? = (document.map (addedDmdSec args entry xmlType)).toList
  errors : effects.filterMap Effect.err? ≠ [] ↔ document = none

theorem leaves_added (tree : Tree) :
    Leaves args entry xmlType (some tree) [.addDmdsec (addedDmdSec args entry xmlType tree)] :=
  ⟨rfl, iff_of_false (fun h => h rfl) (fun h => nomatch h)⟩

theorem leaves_error (err : Err) : Leaves args entry xmlType none [.appendError err] :=
  ⟨rfl, iff_of_true (List.cons_ne_nil _ _) rfl⟩

theorem filterMap_appendErrors (errors : List Str) : (appendErrors errors).filterMap Effect.dmdSec? = [] ∧
    (appendErrors errors).filterMap Effect.err? = errors.map Err.text := by
  rw [appendErrors, List.filterMap_map, List.filterMap_map]
  constructor
  · exact List.filterMap_eq_nil_iff.mpr fun _ _ => rfl
  · exact congrFun List.filterMap_eq_map errors

theorem processRegistered_isSome_iff {schemaUri : Str} {fileUUID : UUID} :
    (processRegistered w mets args entry xmlType tree schemaUri fileUUID).isSome = true ↔
      (∀ opened, openedUri schemaUri = some opened → (w.urlopen opened).isSome = true) ∧
        (getFile mets fileUUID).isSome = true := by
  rw [← @validateXml_isSome_iff w tree, processRegistered]
  cases validateXml w tree schemaUri with
  | none => simp
  | some result => simp [addValidationEvent]

theorem leaves_registered {schemaUri : Str} {fileUUID : UUID}
    (h : processRegistered w mets args entry xmlType tree schemaUri fileUUID = some effects) :
    Leaves args entry xmlType (if (validateXml w tree schemaUri).any Prod.fst then some tree else none) effects := by
  obtain ⟨result, hresult, h⟩ := Option.bind_eq_some_iff.mp h
  obtain ⟨events, hevents, rfl⟩ := Option.map_eq_some_iff.mp h
  obtain ⟨metadataEntry, -, rfl⟩ := Option.map_eq_some_iff.mp hevents
  rw [hresult, Option.any_some]
  cases hvalid : result.1 with
  | true => exact ⟨rfl, iff_of_false (fun h => h rfl) (fun h => nomatch h)⟩
  | false =>
      obtain ⟨hsections, herrors⟩ := filterMap_appendErrors result.2
      refine ⟨hsections, iff_of_true ?_ rfl⟩
      have hne : result.2.map Err.text ≠ [] := by
        rw [Ne, List.map_eq_nil_iff]
        exact errors_of_validateXml hresult hvalid
      rwa [← herrors] at hne

theorem processWithSchema_isSome_iff {schemaUri : Str} :
    (processWithSchema w mets args entry xmlType tree schemaUri xmlPath).isSome = true ↔
      ∃ xmlRelPath, xmlPath.relativeTo (PurePath.ofStr args.sipDir) = some xmlRelPath ∧
        metadataFile w args xmlRelPath ≠ .several ∧ ∀ file, metadataFile w args xmlRelPath = .row file →
          (∀ opened, openedUri schemaUri = some opened → (w.urlopen opened).isSome = true) ∧
          (getFile mets file.uuid).isSome = true := by
  rw [processWithSchema]
  cases xmlPath.relativeTo (PurePath.ofStr args.sipDir) with
  | none => simp
  | some xmlRelPath =>
      rw [Option.bind_some]
      cases hfile : metadataFile w args xmlRelPath with
      | missing => simp [hfile]
      | several => simp [hfile]
      | row file => simp [hfile, processRegistered_isSome_iff]

theorem leaves_withSchema {schemaUri : Str}
    (h : processWithSchema w mets args entry xmlType tree schemaUri xmlPath = some effects) :
    Leaves args entry xmlType (if validFor w args tree xmlPath (some schemaUri) then some tree else none) effects := by
  obtain ⟨xmlRelPath, hpath, h⟩ := Option.bind_eq_some_iff.mp h
  rw [validFor, isRegistered, hpath, Option.any_some]
  cases hfile : metadataFile w args xmlRelPath with
  | missing =>
      rw [hfile] at h
      obtain rfl := Option.some.inj h
      exact leaves_error _
  | several =>
      rw [hfile] at h
      cases h
  | row file =>
      rw [hfile] at h
      exact leaves_registered h

theorem processItem_isSome_iff :
    (processItem w mets args entry xmlType (some xmlPath)).isSome = true ↔
      ∃ tree, w.parse xmlPath.str = some tree ∧ ClearFile w mets args tree xmlPath := by
  rw [processItem]
  cases w.parse xmlPath.str with
  | none => simp
  | some tree =>
      rw [Option.bind_some]
      simp only [Option.some.injEq, exists_eq_left']
      cases hschema : getSchemaUri tree w.xmlValidation with
      | none =>
          refine iff_of_false (fun h => nomatch h) fun hclear => ?_
          have hsome := getSchemaUri_isSome_iff.mpr hclear.location
          rw [hschema] at hsome
          cases hsome
      | some result =>
          have hlocation := getSchemaUri_isSome_iff.mp (Option.isSome_of_eq_some hschema)
          rw [Option.bind_some]
          rcases found_getSchemaUri hschema with ⟨uri, huri, rfl⟩ | ⟨hnone, keys, rfl⟩
          · rw [processTree]
            cases htruthy : truthy uri with
            | none =>
                refine iff_of_true rfl ⟨hlocation, fun uri' schemaUri huri' hschemaUri => ?_⟩
                obtain rfl := Option.some.inj (huri.symm.trans huri')
                rw [htruthy] at hschemaUri
                cases hschemaUri
            | some schemaUri =>
                refine processWithSchema_isSome_iff.trans ⟨fun h => ⟨hlocation, ?_⟩, fun hclear => ?_⟩
                · intro uri' schemaUri' huri' hschemaUri
                  obtain rfl := Option.some.inj (huri.symm.trans huri')
                  obtain rfl := Option.some.inj (htruthy.symm.trans hschemaUri)
                  exact h
                · exact hclear.schema uri schemaUri huri htruthy
          · refine iff_of_true rfl ⟨hlocation, fun uri schemaUri huri => ?_⟩
            rw [hnone] at huri
            cases huri

theorem leaves_item (h : processItem w mets args entry xmlType (some xmlPath) = some effects) :
    Leaves args entry xmlType ((w.parse xmlPath.str).filter (isValid w args xmlPath)) effects := by
  obtain ⟨tree, htree, h⟩ := Option.bind_eq_some_iff.mp h
  obtain ⟨result, hresult, h⟩ := Option.bind_eq_some_iff.mp h
  rw [htree, Option.filter_some, isValid]
  rcases found_getSchemaUri hresult with ⟨uri, huri, rfl⟩ | ⟨hnone, keys, rfl⟩
  · rw [huri, Option.any_some]
    rw [processTree] at h
    cases htruthy : truthy uri with
    | none =>
        rw [htruthy] at h
        obtain rfl := Option.some.inj h
        exact leaves_added tree
    | some schemaUri =>
        rw [htruthy] at h
        exact leaves_withSchema h
  · rw [hnone]
    obtain rfl := Option.some.inj h
    exact leaves_error _

-- What a first row leaves.
theorem processRow_isSome_iff (r : SourceRow) : (processItem w mets args entry r.type r.xmlPath).isSome = true ↔
    (r.xmlPath = none → w.deletes entry.id r.type = true) ∧
      ∀ xmlPath, r.xmlPath = some xmlPath →
        ∃ tree, w.parse xmlPath.str = some tree ∧ ClearFile w mets args tree xmlPath := by
  cases hpath : r.xmlPath with
  | none =>
      rw [processItem]
      cases w.deletes entry.id r.type <;> simp
  | some xmlPath => simpa using processItem_isSome_iff

theorem leaves_row {r : SourceRow} (h : processItem w mets args entry r.type r.xmlPath = some effects) :
    effects.filterMap Effect.dmdSec? = ((accepted w args r).map (addedDmdSec args entry r.type)).toList ∧
      (effects.filterMap Effect.err? ≠ [] ↔ r.xmlPath.isSome = true ∧ accepted w args r = none) := by
  rw [accepted]
  cases hpath : r.xmlPath with
  | none =>
      rw [hpath, processItem] at h
      split_ifs at h
      obtain rfl := Option.some.inj h
      exact ⟨rfl, iff_of_false (fun h => h rfl) (fun h => nomatch h.1)⟩
  | some xmlPath =>
      rw [hpath] at h
      obtain ⟨hsections, herrors⟩ := leaves_item h
      exact ⟨hsections, by simpa using herrors⟩

theorem leaves_getD {r : SourceRow} (h : (processItem w mets args entry r.type r.xmlPath).isSome = true) :
    ((processItem w mets args entry r.type r.xmlPath).getD []).filterMap Effect.dmdSec? =
        ((accepted w args r).map (addedDmdSec args entry r.type)).toList ∧
      (((processItem w mets args entry r.type r.xmlPath).getD []).filterMap Effect.err? ≠ [] ↔
        r.xmlPath.isSome = true ∧ accepted w args r = none) := by
  obtain ⟨effects, heffects⟩ := Option.isSome_iff_exists.mp h
  rw [heffects, Option.getD_some]
  exact leaves_row heffects

end Files

section Process

variable {w : World} {mets : List FSEntry} {args : Args} {effects : List Effect}

theorem itemsAt_mappingOf (path : Option Str) :
    itemsAt (mappingOf (sourceRows w args)) path = (rowsFor w args path).map fun r => (r.type, r.xmlPath) := by
  rw [rowsFor]
  cases path with
  | none =>
      rw [List.filter_eq_nil_iff.mpr fun _ _ => by simp]
      rfl
  | some f =>
      refine (getD_mappingOf (sourceRows w args) f).trans ?_
      simp only [Option.some.injEq]

-- What is done for an object of the METS file.
def entryEffects (w : World) (mets : List FSEntry) (args : Args) (entry : FSEntry) : List Effect :=
  (rowsFor w args entry.path).flatMap fun r => (processItem w mets args entry r.type r.xmlPath).getD []

theorem processEntry_eq_some_iff {entry : FSEntry} :
    processEntry w mets args entry (mappingOf (sourceRows w args)) = some effects ↔
      (isProcessed entry = true → ∀ r ∈ rowsFor w args entry.path,
        (processItem w mets args entry r.type r.xmlPath).isSome = true) ∧
        effects = if isProcessed entry then entryEffects w mets args entry else [] := by
  rw [processEntry]
  by_cases hprocessed : isProcessed entry = true
  · rw [if_pos hprocessed, if_pos hprocessed, itemsAt_mappingOf, MapM.flatten_mapM_eq_some_iff, List.forall_mem_map,
      List.flatMap_map, entryEffects]
    simp [hprocessed]
  · rw [if_neg hprocessed, if_neg hprocessed]
    constructor
    · exact fun h => ⟨fun h' => absurd h' hprocessed, (Option.some.inj h).symm⟩
    · exact fun h => congrArg some h.2.symm

theorem processEntry_isSome_iff {entry : FSEntry} :
    (processEntry w mets args entry (mappingOf (sourceRows w args))).isSome = true ↔
      (isProcessed entry = true → ∀ r ∈ rowsFor w args entry.path,
        (processItem w mets args entry r.type r.xmlPath).isSome = true) := by
  rw [Option.isSome_iff_exists]
  simp [processEntry_eq_some_iff]

theorem mapM_processEntry_iff :
    (mets.mapM fun entry => processEntry w mets args entry (mappingOf (sourceRows w args))).map List.flatten =
      some effects ↔
      (∀ entry ∈ mets.filter isProcessed, ∀ r ∈ rowsFor w args entry.path,
        (processItem w mets args entry r.type r.xmlPath).isSome = true) ∧
        effects = (mets.filter isProcessed).flatMap (entryEffects w mets args) := by
  rw [MapM.flatten_mapM_eq_some_iff, flatMap_filter]
  have hall : (∀ entry ∈ mets, (processEntry w mets args entry (mappingOf (sourceRows w args))).isSome = true) ↔
      ∀ entry ∈ mets.filter isProcessed, ∀ r ∈ rowsFor w args entry.path,
        (processItem w mets args entry r.type r.xmlPath).isSome = true := by
    simp only [processEntry_isSome_iff, List.mem_filter, and_imp]
  rw [← hall, and_congr_right_iff]
  intro hsome
  have heffects : (mets.flatMap fun entry =>
      (processEntry w mets args entry (mappingOf (sourceRows w args))).getD []) =
        mets.flatMap fun entry => if isProcessed entry then entryEffects w mets args entry else [] := by
    refine List.flatMap_congr fun entry hentry => ?_
    obtain ⟨own, hown⟩ := Option.isSome_iff_exists.mp (hsome entry hentry)
    rw [hown, Option.getD_some, (processEntry_eq_some_iff.mp hown).2]
  rw [heffects]

-- What the rows and the files need, for nothing to raise.
theorem clear_iff (w : World) (mets : List FSEntry) (args : Args) : Clear w mets args ↔
    (w.xmlValidation ≠ [] → ∀ source ∈ sourceMetadataPaths w args.sipDir args.reingest, Readable w source) ∧
      (∀ r ∈ firsts SourceRow.pair (sourceRows w args), (Dict.get? r.row.cells "metadata".toList).isSome = true) ∧
      ∀ entry ∈ mets.filter isProcessed, ∀ r ∈ rowsFor w args entry.path,
        (processItem w mets args entry r.type r.xmlPath).isSome = true := by
  simp only [processRow_isSome_iff]
  constructor
  · rintro ⟨hsources, hmetadata, hdeleted, hfiles⟩
    exact ⟨hsources, hmetadata, fun entry hentry r hr => ⟨hdeleted entry hentry r hr, hfiles entry hentry r hr⟩⟩
  · rintro ⟨hsources, hmetadata, hrows⟩
    exact ⟨hsources, hmetadata, fun entry hentry r hr => (hrows entry hentry r hr).1,
      fun entry hentry r hr => (hrows entry hentry r hr).2⟩

-- All that is done, where nothing raises.
theorem processXmlMetadata_eq_some_iff : processXmlMetadata w mets args = some effects ↔
    Clear w mets args ∧ effects = (errorsOf (sourceRows w args)).map .appendError ++
      (mets.filter isProcessed).flatMap (entryEffects w mets args) := by
  rw [clear_iff, processXmlMetadata]
  by_cases hoff : w.xmlValidation = []
  · have hrows : sourceRows w args = [] := if_pos hoff
    have hrowsFor (path : Option Str) : rowsFor w args path = [] := by
      rw [rowsFor, hrows]
      rfl
    have hnothing : (mets.filter isProcessed).flatMap (entryEffects w mets args) = [] := by
      refine List.flatMap_eq_nil_iff.mpr fun entry _ => ?_
      rw [entryEffects, hrowsFor, List.flatMap_nil]
    rw [if_pos hoff, hnothing, hrows]
    constructor
    · intro h
      refine ⟨⟨fun h => absurd hoff h, fun _ hr => absurd hr List.not_mem_nil, fun entry _ r hr => ?_⟩,
        (Option.some.inj h).symm⟩
      rw [hrowsFor] at hr
      exact absurd hr List.not_mem_nil
    · rintro ⟨-, rfl⟩
      rfl
  · rw [if_neg hoff, getXmlMetadataMapping, Option.bind_eq_some_iff]
    simp only [foldlM_readSource_iff, flatMap_rowsOf hoff, foldlM_addRow_iff]
    constructor
    · rintro ⟨_, ⟨hsources, hmetadata, rfl⟩, h⟩
      obtain ⟨lists, hlists, rfl⟩ := Option.map_eq_some_iff.mp h
      have hflatten : (mets.mapM fun entry => processEntry w mets args entry (mappingOf (sourceRows w args))).map
          List.flatten = some lists.flatten := by
        rw [hlists, Option.map_some]
      obtain ⟨hitems, heffects⟩ := mapM_processEntry_iff.mp hflatten
      exact ⟨⟨fun _ => hsources, hmetadata, hitems⟩, by rw [heffects]⟩
    · rintro ⟨⟨hsources, hmetadata, hitems⟩, rfl⟩
      refine ⟨_, ⟨hsources hoff, hmetadata, rfl⟩, ?_⟩
      obtain ⟨lists, hlists, hflatten⟩ := Option.map_eq_some_iff.mp (mapM_processEntry_iff.mpr ⟨hitems, rfl⟩)
      rw [hlists, Option.map_some, hflatten]

theorem filterMap_map_appendError (errors : List Err) :
    (errors.map Effect.appendError).filterMap Effect.dmdSec? = [] ∧
      (errors.map Effect.appendError).filterMap Effect.err? = errors := by
  rw [List.filterMap_map, List.filterMap_map]
  exact ⟨List.filterMap_eq_nil_iff.mpr fun _ _ => rfl, List.filterMap_some⟩

-- Whether the XML metadata are processed as they should be.
theorem processed_iff (w : World) (mets : List FSEntry) (args : Args) :
    Contract w mets args ↔ Clear w mets args := by
  constructor
  · rintro ⟨effects, -, -, hprocess, -⟩
    exact (processXmlMetadata_eq_some_iff.mp hprocess).1
  · intro hclear
    obtain ⟨hnoSection, herrors⟩ := filterMap_map_appendError (errorsOf (sourceRows w args))
    have hleaves (entry : FSEntry) (hentry : entry ∈ mets.filter isProcessed) (r : SourceRow)
        (hr : r ∈ rowsFor w args entry.path) :=
      leaves_getD (((clear_iff w mets args).mp hclear).2.2 entry hentry r hr)
    refine ⟨_, rowError, fun entry r => ((processItem w mets args entry r.type r.xmlPath).getD []).filterMap
      Effect.err?, processXmlMetadata_eq_some_iff.mpr ⟨hclear, rfl⟩, ?_, ?_, fun p _ => rowError_ne_nil_iff p,
      fun entry hentry r hr => (hleaves entry hentry r hr).2⟩
    · rw [List.filterMap_append, hnoSection, List.nil_append, List.filterMap_flatMap]
      refine List.flatMap_congr fun entry hentry => ?_
      rw [entryEffects, List.filterMap_flatMap, List.filterMap_eq_flatMap_toList]
      exact List.flatMap_congr fun r hr => (hleaves entry hentry r hr).1
    · rw [List.filterMap_append, herrors, List.filterMap_flatMap]
      refine congrArg (_ ++ ·) (List.flatMap_congr fun entry _ => ?_)
      rw [entryEffects, List.filterMap_flatMap]

end Process

section Example

def fooTree : Tree := ⟨"<foo/>".toList, none, none, [], "foo".toList⟩

-- Two files are named, of which the first is missing, and the other needs no validation.
def twoFiles : World where
  xmlValidation := [("foo".toList, none)]
  isDir := fun _ => true
  iterdir := fun _ => ["t".toList]
  isFile := fun _ => true
  csv := fun _ => some
    { fieldnames := ["filename".toList, "metadata".toList, "type".toList]
      records := [["objects/a".toList, "a.xml".toList, "m".toList], ["objects/b".toList, "b.xml".toList, "m".toList]]
      broken := false }
  parse := fun path => if path = "/s/objects/metadata/transfers/t/b.xml".toList then some fooTree else none
  toPython := fun _ => none
  files := []
  urlopen := fun _ => none
  xmlSyntaxError := fun _ => none
  dtd := fun _ => .error []
  xmlSchema := fun _ _ => .error []
  relaxNG := fun _ => .error []
  lxmlVersion := []
  deletes := fun _ _ => true

def twoEntries : List FSEntry :=
  [⟨1, some "original".toList, some "Item".toList, some "objects/a".toList, none⟩,
    ⟨2, some "original".toList, some "Item".toList, some "objects/b".toList, none⟩]

def sipArgs : Args := ⟨"/s/".toList, [], "SIP".toList⟩

theorem missing_file_raises : processXmlMetadata twoFiles twoEntries sipArgs = none ∧
    (rowsFor twoFiles sipArgs (some "objects/b".toList)).map (accepted twoFiles sipArgs) = [some fooTree] ∧
    ¬ Contract twoFiles twoEntries sipArgs := by
  have hraises : (processXmlMetadata twoFiles twoEntries sipArgs).isNone = true := by decide +kernel
  rw [Option.isNone_iff_eq_none] at hraises
  refine ⟨hraises, by decide +kernel, ?_⟩
  rintro ⟨effects, -, -, hprocess, -⟩
  rw [hraises] at hprocess
  cases hprocess

end Example

end Ccp.Worker.XmlMetadata
