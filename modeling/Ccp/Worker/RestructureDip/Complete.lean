import Ccp.Worker.RestructureDip
import Mathlib.Data.List.Forall2
import Mathlib.Data.List.ProdSigma

namespace Ccp.Worker.RestructureDip

open Lib

-- What a row is about: the elements of the dmdSec that it comes from, and the div.
structure Entry where
  fromDC : Bool
  pairs : List (Str × Str)
  fileUuid : Str
  name : Str

namespace Entry

def tags (e : Entry) : List Str := e.pairs.map Prod.fst

-- How many columns the elements need.
def columns (e : Entry) : ℕ := e.tags.dedup.length

def row (e : Entry) (packageType : PackageType) (dipuuid : Str) : Row :=
  makeRow packageType dipuuid (Dict.group e.pairs) e.fileUuid e.name

end Entry

def DmdSec.custom (dmdSec : DmdSec) : Bool := dmdSec.mdWraps.head?.any MdWrap.custom

def DmdSec.isDC (dmdSec : DmdSec) : Bool := dmdSec.mdWraps.head?.any MdWrap.isDC

-- The elements of the last of some dmdSecs.
def lastPairs (p : DmdSec → Bool) (dmdSecs : List DmdSec) : List (Str × Str) :=
  ((dmdSecs.filter p).getLast?.map DmdSec.pairs).getD []

def withIdentifier (dipuuid : Str) (pairs : List (Str × Str)) : List (Str × Str) :=
  if pairs = [] then [] else pairs ++ [(identifierTag, dipuuid)]

-- The custom metadata, or else the one of Dublin Core, which a div with an empty DMDID has too.
def source (dmdSecs : List DmdSec) (dipuuid : Str) : Bool × List (Str × Str) :=
  if 2 < dmdSecs.length then (false, [])
  else if lastPairs DmdSec.custom dmdSecs ≠ [] then (false, lastPairs DmdSec.custom dmdSecs)
  else if dmdSecs.length = 0 then (true, withIdentifier dipuuid [(titleTag, placeholderTitle)])
  else (true, withIdentifier dipuuid (lastPairs DmdSec.isDC dmdSecs))

def entryOf (packageType : PackageType) (dmdsecs : Dict Str DmdSec) (dipuuid : Str) (div : Div) :
    Option Entry :=
  let from_ := source (div.dmdids.filterMap (Dict.get? dmdsecs)) dipuuid
  if from_.2 = [] then none
  else some ⟨from_.1, from_.2, (div.fileUuid packageType).getD [], div.label.getD []⟩

def entries (packageType : PackageType) (structmap : List Div) (dmdsecs : Dict Str DmdSec)
    (dipuuid : Str) : List Entry :=
  (withDmdid structmap).filterMap (entryOf packageType dmdsecs dipuuid)

-- The header stands once in the file, and the line has the value under it.
def Cell (file : TabFile) (line : List Str) (header value : Str) : Prop :=
  file.headers.count header = 1 ∧ (header, value) ∈ file.headers.zip line

def nameHeader (packageType : PackageType) : Str :=
  if packageType.dirs then directoryName else filename

-- The joined titles of the row, or the placeholder where it has none.
def Entry.title (e : Entry) : Str :=
  if Dict.valuesOf e.pairs titleTag = [] then placeholderTitle
  else joined (Dict.valuesOf e.pairs titleTag)

structure Complete (packageType : PackageType) (dipuuid : Str) (file : TabFile) (e : Entry)
    (line : List Str) : Prop where
  metadata : ∀ tag ∈ e.tags, Cell file line tag (joined (Dict.valuesOf e.pairs tag))
  aipUUID : Cell file line aipUUID dipuuid
  fileUUID : Cell file line fileUUID e.fileUuid
  name : Cell file line (nameHeader packageType) e.name
  title : e.fromDC = true → Cell file line titleTag e.title

-- The first of the rows with the most columns.
def Widest (all : List Entry) (i : ℕ) (e : Entry) : Prop :=
  ∀ j e', all[j]? = some e' → e'.columns ≤ e.columns ∧ (j < i → e'.columns < e.columns)

-- Dublin Core comes with a title, and an element that is called as the column of the names
-- has the name too and is not in the row that the headers are taken from.
structure Clear (packageType : PackageType) (all : List Entry) : Prop where
  title : ∀ e ∈ all, e.fromDC = true → titleTag ∈ e.tags
  filename : packageType.dirs = false → ∀ i e, all[i]? = some e → filename ∈ e.tags →
    joined (Dict.valuesOf e.pairs filename) = e.name ∧ ¬ Widest all i e

variable {packageType : PackageType} {structmap : List Div} {dmdsecs : Dict Str DmdSec}
  {dipuuid header value : Str} {file : TabFile} {e : Entry} {all : List Entry}

-- What is parsed.

theorem parseDmdSec_some {dmdSec : DmdSec} {label : Str} {metadata : Metadata}
    (h : parseDmdSec (some dmdSec) label = some metadata) : metadata = Dict.group dmdSec.pairs := by
  obtain ⟨_, _, hparse⟩ := Option.map_eq_some_iff.mp h
  exact hparse.symm

theorem addNonDc_spec {pair pair' : DmdSecPair} {dmdSec : DmdSec} {mdWrap : MdWrap}
    (h : addNonDc pair dmdSec mdWrap = some pair') :
    pair'.dc = pair.dc ∧
      pair'.nonDc = if mdWrap.custom then some (Dict.group dmdSec.pairs) else pair.nonDc := by
  unfold addNonDc at h
  split_ifs at h with hcustom
  · obtain ⟨metadata, hparse, rfl⟩ := Option.map_eq_some_iff.mp h
    rw [if_pos hcustom, ← parseDmdSec_some hparse]
    exact ⟨rfl, rfl⟩
  · obtain rfl := Option.some.inj h
    rw [if_neg hcustom]
    exact ⟨rfl, rfl⟩

theorem addDc_spec {pair pair' : DmdSecPair} {dmdSec : DmdSec} {mdWrap : MdWrap}
    (h : addDc pair dmdSec mdWrap = some pair') :
    pair'.nonDc = pair.nonDc ∧
      pair'.dc = if mdWrap.isDC then some (Dict.group dmdSec.pairs) else pair.dc := by
  unfold addDc at h
  split_ifs at h with hdc
  · obtain ⟨metadata, hparse, rfl⟩ := Option.map_eq_some_iff.mp h
    rw [if_pos hdc, ← parseDmdSec_some hparse]
    exact ⟨rfl, rfl⟩
  · obtain rfl := Option.some.inj h
    rw [if_neg hdc]
    exact ⟨rfl, rfl⟩

theorem addDmdSec_spec {pair pair' : DmdSecPair} {dmdSec : DmdSec} (h : addDmdSec pair dmdSec = some pair') :
    pair'.dc = (if dmdSec.isDC then some (Dict.group dmdSec.pairs) else pair.dc) ∧
      pair'.nonDc = if dmdSec.custom then some (Dict.group dmdSec.pairs) else pair.nonDc := by
  obtain ⟨mdWrap, hhead, hrest⟩ := Option.bind_eq_some_iff.mp h
  obtain ⟨middle, hmiddle, hlast⟩ := Option.bind_eq_some_iff.mp hrest
  have hnonDc := addNonDc_spec hmiddle
  have hdc := addDc_spec hlast
  rw [DmdSec.isDC, DmdSec.custom, hhead, Option.any_some, Option.any_some]
  exact ⟨by rw [hdc.2, hnonDc.1], by rw [hdc.1, hnonDc.2]⟩

theorem getLast?_filter_concat (p : DmdSec → Bool) (dmdSecs : List DmdSec) (dmdSec : DmdSec) :
    ((dmdSecs ++ [dmdSec]).filter p).getLast? =
      if p dmdSec then some dmdSec else (dmdSecs.filter p).getLast? := by
  by_cases h : p dmdSec = true
  · rw [List.filter_append, List.filter_singleton, h, if_pos rfl, List.getLast?_append]
    rfl
  · rw [List.filter_append, List.filter_singleton, if_neg h]
    simp [h]

theorem addDmdSecs_spec {dmdSecs : List DmdSec} {pair : DmdSecPair}
    (h : dmdSecs.foldlM addDmdSec ⟨none, none⟩ = some pair) :
    pair.dc = (dmdSecs.filter DmdSec.isDC).getLast?.map (fun sec => Dict.group sec.pairs) ∧
      pair.nonDc = (dmdSecs.filter DmdSec.custom).getLast?.map fun sec => Dict.group sec.pairs := by
  induction dmdSecs using List.reverseRecOn generalizing pair with
  | nil =>
      obtain rfl := Option.some.inj h
      exact ⟨rfl, rfl⟩
  | append_singleton dmdSecs dmdSec ih =>
      rw [List.foldlM_append] at h
      obtain ⟨before, hbefore, hlast⟩ := Option.bind_eq_some_iff.mp h
      rw [List.foldlM_cons] at hlast
      obtain ⟨after, hafter, hnil⟩ := Option.bind_eq_some_iff.mp hlast
      obtain rfl := Option.some.inj hnil
      obtain ⟨hdc, hnonDc⟩ := ih hbefore
      have hspec := addDmdSec_spec hafter
      rw [hspec.1, hspec.2, hdc, hnonDc, getLast?_filter_concat, getLast?_filter_concat]
      constructor
      · split_ifs <;> rfl
      · split_ifs <;> rfl

theorem getD_group_lastPairs (p : DmdSec → Bool) (dmdSecs : List DmdSec) :
    ((dmdSecs.filter p).getLast?.map fun sec => Dict.group sec.pairs).getD [] =
      Dict.group (lastPairs p dmdSecs) := by
  rw [lastPairs]
  cases (dmdSecs.filter p).getLast? with
  | none => rfl
  | some sec => rfl

theorem addAipUuid_getD (dipUuid : Str) {dc : Option Metadata} {pairs : List (Str × Str)}
    (h : dc.getD [] = Dict.group pairs) :
    (addAipUuidToDcMetadata dipUuid dc).getD [] = Dict.group (withIdentifier dipUuid pairs) := by
  by_cases hempty : pairs = []
  · subst hempty
    rw [withIdentifier, if_pos rfl]
    rcases dc with _ | _ | ⟨item, rest⟩
    · rfl
    · rfl
    · exact absurd h (List.cons_ne_nil _ _)
  · rw [withIdentifier, if_neg hempty, Dict.group_concat, ← h]
    have hne : dc.getD [] ≠ [] := fun heq => hempty (Dict.group_eq_nil_iff.mp (h.symm.trans heq))
    rcases dc with _ | _ | ⟨item, rest⟩
    · exact absurd rfl hne
    · exact absurd rfl hne
    · rfl

theorem metadataOr_eq (nonDc dc : Option Metadata) :
    metadataOr nonDc dc = if nonDc.getD [] ≠ [] then nonDc.getD [] else dc.getD [] := by
  rcases nonDc with _ | _ | ⟨item, rest⟩
  · rfl
  · rfl
  · rfl

theorem metadata_eq {dmdSecs : List DmdSec} {pair : DmdSecPair} (h : splitDmdSecs dmdSecs = some pair)
    (dipUuid : Str) :
    metadataOr pair.nonDc (addAipUuidToDcMetadata dipUuid pair.dc) =
      Dict.group (source dmdSecs dipUuid).2 := by
  rw [splitDmdSecs] at h
  by_cases hmany : 2 < dmdSecs.length
  · rw [if_pos hmany] at h
    obtain rfl := Option.some.inj h
    rw [source, if_pos hmany]
    rfl
  · rw [if_neg hmany] at h
    obtain ⟨added, hadded, hrest⟩ := Option.bind_eq_some_iff.mp h
    obtain ⟨hdc, hnonDc⟩ := addDmdSecs_spec hadded
    have hcustom : added.nonDc.getD [] = Dict.group (lastPairs DmdSec.custom dmdSecs) := by
      rw [hnonDc, getD_group_lastPairs]
    rw [source, if_neg hmany, metadataOr_eq]
    by_cases hzero : dmdSecs.length = 0
    · rw [if_pos hzero] at hrest
      obtain rfl := Option.some.inj hrest
      obtain rfl := List.length_eq_zero_iff.mp hzero
      have hnone : added.nonDc.getD [] = [] := hcustom
      have hpair : (added.setDc [(titleTag, [placeholderTitle])]).nonDc = added.nonDc := rfl
      rw [hpair, if_neg (fun hne => hne hnone), if_neg (fun hne => hne rfl), if_pos hzero]
      exact @addAipUuid_getD dipUuid (some [(titleTag, [placeholderTitle])])
        [(titleTag, placeholderTitle)] rfl
    · rw [if_neg hzero] at hrest
      obtain rfl := Option.some.inj hrest
      have hdc' : added.dc.getD [] = Dict.group (lastPairs DmdSec.isDC dmdSecs) := by
        rw [hdc, getD_group_lastPairs]
      rw [hcustom, addAipUuid_getD dipUuid hdc']
      by_cases hempty : lastPairs DmdSec.custom dmdSecs = []
      · rw [if_neg (fun hne => hne (Dict.group_eq_nil_iff.mpr hempty)), if_neg (fun hne => hne hempty),
          if_neg hzero]
      · rw [if_pos (fun heq => hempty (Dict.group_eq_nil_iff.mp heq)), if_pos hempty]

theorem filterMap_of_mapM {ids : List Str} {dmdSecs : List DmdSec}
    (h : ids.mapM (Dict.get? dmdsecs) = some dmdSecs) : ids.filterMap (Dict.get? dmdsecs) = dmdSecs := by
  have hmap := congrArg (List.filterMap id) (MapM.mapM_eq_some_iff.mp h)
  rw [List.filterMap_map, List.filterMap_map] at hmap
  exact hmap.symm.trans (List.filterMap_some)

-- The row of a div as its entry says.
theorem rowOf_eq {div : Div} {row : Option Row} (h : rowOf packageType dmdsecs dipuuid div = some row) :
    row = (entryOf packageType dmdsecs dipuuid div).map fun e => e.row packageType dipuuid := by
  unfold rowOf at h
  obtain ⟨dmdSecs, hsecs, hrest⟩ := Option.bind_eq_some_iff.mp h
  obtain ⟨pair, hpair, hlast⟩ := Option.bind_eq_some_iff.mp hrest
  have hmetadata := metadata_eq hpair dipuuid
  rw [entryOf, filterMap_of_mapM hsecs]
  by_cases hempty : (source dmdSecs dipuuid).2 = []
  · rw [hempty] at hmetadata
    simp only [hmetadata] at hlast
    obtain rfl := Option.some.inj hlast
    simp only [hempty, if_true]
    rfl
  · have hne : (Dict.group (source dmdSecs dipuuid).2).isEmpty = false := by
      rw [List.isEmpty_eq_false_iff]
      exact fun heq => hempty (Dict.group_eq_nil_iff.mp heq)
    simp only [hmetadata, hne] at hlast
    obtain ⟨fileUuid, hfile, hname⟩ := Option.bind_eq_some_iff.mp hlast
    obtain ⟨name, hlabel, hrow⟩ := Option.bind_eq_some_iff.mp hname
    obtain rfl := Option.some.inj hrow
    simp only [hempty, if_false, hfile, hlabel]
    rfl

theorem rows_eq {rows : List (Option Row)}
    (h : (withDmdid structmap).mapM (rowOf packageType dmdsecs dipuuid) = some rows) :
    rows.reduceOption =
      (entries packageType structmap dmdsecs dipuuid).map fun e => e.row packageType dipuuid := by
  have hmap := MapM.map_of_mapM (k := id) h fun div row hrow => (rowOf_eq hrow).symm
  rw [List.map_id] at hmap
  have hreduce : rows.reduceOption = rows.filterMap id := rfl
  rw [hreduce, ← hmap, entries, List.filterMap_map, List.map_filterMap]
  rfl

-- The columns of a row.

theorem row_perm (e : Entry) (packageType : PackageType) (dipuuid : Str) :
    (e.row packageType dipuuid).Perm ((nameHeader packageType, e.name) ::
      ((Dict.group e.pairs).map (fun item => (item.1, joined item.2)) ++
        [(aipUUID, dipuuid), (fileUUID, e.fileUuid)])) := by
  rw [Entry.row, makeRow, nameHeader]
  cases packageType.dirs with
  | true => exact List.Perm.refl _
  | false => exact List.perm_append_singleton _ _

theorem mem_row_iff {item : Str × Str} :
    item ∈ e.row packageType dipuuid ↔ item = (nameHeader packageType, e.name) ∨
      (item.1 ∈ e.tags ∧ item.2 = joined (Dict.valuesOf e.pairs item.1)) ∨
        item = (aipUUID, dipuuid) ∨ item = (fileUUID, e.fileUuid) := by
  have hmeta : item ∈ (Dict.group e.pairs).map (fun item => (item.1, joined item.2)) ↔
      item.1 ∈ e.tags ∧ item.2 = joined (Dict.valuesOf e.pairs item.1) := by
    rw [List.mem_map]
    constructor
    · rintro ⟨⟨tag, values⟩, hmem, rfl⟩
      obtain ⟨htag, rfl⟩ := Dict.mem_group_iff.mp hmem
      exact ⟨htag, rfl⟩
    · rintro ⟨htag, hvalue⟩
      exact ⟨(item.1, Dict.valuesOf e.pairs item.1), Dict.mem_group_iff.mpr ⟨htag, rfl⟩,
        Prod.ext rfl hvalue.symm⟩
  rw [(row_perm e packageType dipuuid).mem_iff, List.mem_cons, List.mem_append, hmeta, List.mem_pair]

theorem header_perm (e : Entry) (packageType : PackageType) (dipuuid : Str) :
    (e.row packageType dipuuid).csvHeader.Perm
      (nameHeader packageType :: ((Dict.group e.pairs).map Prod.fst ++ [aipUUID, fileUUID])) := by
  have hperm := (row_perm e packageType dipuuid).map Prod.fst
  rw [List.map_cons, List.map_append, List.map_map] at hperm
  exact hperm

theorem length_header (e : Entry) (packageType : PackageType) (dipuuid : Str) :
    (e.row packageType dipuuid).csvHeader.length = e.columns + 3 := by
  rw [(header_perm e packageType dipuuid).length_eq, List.length_cons, List.length_append, List.length_map,
    Dict.length_group]
  rfl

-- The name of an element has no blank in it.
def Named (e : Entry) : Prop := ∀ tag ∈ e.tags, ' ' ∉ tag

theorem count_base_le (hnamed : Named e) (h : Str) :
    ((Dict.group e.pairs).map Prod.fst ++ [aipUUID, fileUUID]).count h ≤ 1 := by
  refine List.nodup_iff_count_le_one.mp ?_ h
  rw [List.nodup_append]
  refine ⟨Dict.keys_group_nodup _, by decide, fun tag htag other hother heq => ?_⟩
  have hblank := hnamed tag (Dict.mem_keys_group.mp htag)
  subst heq
  rcases List.mem_pair.mp hother with rfl | rfl
  · exact hblank (by decide)
  · exact hblank (by decide)

theorem count_header_le (hnamed : Named e)
    (hname : packageType.dirs = true ∨ header ≠ filename ∨ filename ∉ e.tags) :
    (e.row packageType dipuuid).csvHeader.count header ≤ 1 := by
  rw [(header_perm e packageType dipuuid).count_eq]
  by_cases heq : nameHeader packageType = header
  · subst heq
    have hnot : nameHeader packageType ∉ (Dict.group e.pairs).map Prod.fst ++ [aipUUID, fileUUID] := by
      rw [List.mem_append, Dict.mem_keys_group, not_or]
      cases hdirs : packageType.dirs with
      | true =>
          rw [nameHeader, if_pos hdirs]
          exact ⟨fun hmem => hnamed _ hmem (by decide), by decide⟩
      | false =>
          have hfilename : nameHeader packageType = filename := by
            rw [nameHeader, hdirs]
            rfl
          rw [hdirs, hfilename] at hname
          rw [hfilename]
          refine ⟨fun hmem => ?_, by decide⟩
          rcases hname with hfalse | hne | hnot
          · cases hfalse
          · exact hne rfl
          · exact hnot hmem
    rw [List.count_cons_self, List.count_eq_zero.mpr hnot]
  · rw [List.count_cons_of_ne heq]
    exact count_base_le hnamed header

-- The tags of the elements that are there have no blank in them.

theorem named_pairs (dmdSec : DmdSec) : ∀ item ∈ dmdSec.pairs, ' ' ∉ item.1 := by
  intro item hitem
  obtain ⟨element, _, rfl⟩ := List.mem_map.mp hitem
  intro hblank
  have hname := List.all_eq_true.mp element.name ' ' hblank
  simp at hname

theorem named_lastPairs (p : DmdSec → Bool) (dmdSecs : List DmdSec) :
    ∀ item ∈ lastPairs p dmdSecs, ' ' ∉ item.1 := by
  rw [lastPairs]
  cases (dmdSecs.filter p).getLast? with
  | none => exact fun item hitem => absurd hitem List.not_mem_nil
  | some dmdSec => exact named_pairs dmdSec

theorem not_blank_identifierTag : ' ' ∉ identifierTag := by decide

theorem named_withIdentifier {pairs : List (Str × Str)} (h : ∀ item ∈ pairs, ' ' ∉ item.1) (dipuuid : Str) :
    ∀ item ∈ withIdentifier dipuuid pairs, ' ' ∉ item.1 := by
  intro item hitem
  unfold withIdentifier at hitem
  split_ifs at hitem
  · exact absurd hitem List.not_mem_nil
  · rcases List.mem_append.mp hitem with hmem | hlast
    · exact h item hmem
    · obtain rfl := List.mem_singleton.mp hlast
      exact not_blank_identifierTag

theorem named_source (dmdSecs : List DmdSec) (dipuuid : Str) :
    ∀ item ∈ (source dmdSecs dipuuid).2, ' ' ∉ item.1 := by
  unfold source
  split_ifs
  · exact fun item hitem => absurd hitem List.not_mem_nil
  · exact named_lastPairs _ _
  · refine @named_withIdentifier [(titleTag, placeholderTitle)] (fun item hitem => ?_) dipuuid
    obtain rfl := List.mem_singleton.mp hitem
    decide
  · exact named_withIdentifier (named_lastPairs _ _) dipuuid

theorem named_of_mem (he : e ∈ entries packageType structmap dmdsecs dipuuid) : Named e := by
  obtain ⟨div, _, hentry⟩ := List.mem_filterMap.mp he
  unfold entryOf at hentry
  simp only at hentry
  split_ifs at hentry
  obtain rfl := Option.some.inj hentry
  intro tag htag
  obtain ⟨item, hitem, rfl⟩ := List.mem_map.mp htag
  exact named_source _ _ item hitem

-- What is written.

theorem get?_csvValues (headers : List Str) (row : Row) (header : Str) :
    Dict.get? (csvValues headers row) header =
      if headers.contains header then Dict.get? row header else none := by
  induction headers using List.reverseRecOn with
  | nil => rfl
  | append_singleton headers last ih =>
      have hnone (hget : Dict.get? row last = none) :
          csvValues (headers ++ [last]) row = csvValues headers row := by
        rw [csvValues, List.foldl_append, List.foldl_cons, List.foldl_nil, hget]
        rfl
      have hsome {value : Str} (hget : Dict.get? row last = some value) :
          csvValues (headers ++ [last]) row = Dict.set (csvValues headers row) last value := by
        rw [csvValues, List.foldl_append, List.foldl_cons, List.foldl_nil, hget]
        rfl
      by_cases heq : last = header
      · subst heq
        cases hget : Dict.get? row last with
        | none => simp [hnone hget, ih, hget]
        | some value => simp [hsome hget, Dict.get?_set]
      · cases hget : Dict.get? row last with
        | none => simp [hnone hget, ih, Ne.symm heq]
        | some value => simp [hsome hget, Dict.get?_set, ih, heq, Ne.symm heq]

def lineOf (headers : List Str) (row : Row) : List Str := writerow headers (csvValues headers row)

theorem mem_zip_lineOf_iff {headers : List Str} {row : Row} :
    (header, value) ∈ headers.zip (lineOf headers row) ↔
      header ∈ headers ∧ value = (Dict.get? row header).getD [] := by
  rw [lineOf, writerow, ← List.map_prod_left_eq_zip, List.mem_map]
  constructor
  · rintro ⟨other, hmem, heq⟩
    obtain ⟨rfl, rfl⟩ := Prod.mk.inj heq
    refine ⟨hmem, ?_⟩
    rw [get?_csvValues, if_pos (List.contains_iff_mem.mpr hmem)]
  · rintro ⟨hmem, rfl⟩
    refine ⟨header, hmem, ?_⟩
    rw [get?_csvValues, if_pos (List.contains_iff_mem.mpr hmem)]

theorem cell_lineOf_iff {row : Row} :
    Cell file (lineOf file.headers row) header value ↔
      file.headers.count header = 1 ∧ value = (Dict.get? row header).getD [] := by
  rw [Cell, mem_zip_lineOf_iff]
  constructor
  · rintro ⟨honce, _, hvalue⟩
    exact ⟨honce, hvalue⟩
  · rintro ⟨honce, hvalue⟩
    exact ⟨honce, List.count_pos_iff.mp (by omega), hvalue⟩

-- A row is complete when each of its values is in its cell, and a title is among them.
theorem complete_of_row {line : List Str}
    (hrow : ∀ item ∈ e.row packageType dipuuid, Cell file line item.1 item.2)
    (htitle : e.fromDC = true → titleTag ∈ e.tags) : Complete packageType dipuuid file e line := by
  have hmetadata : ∀ tag ∈ e.tags, Cell file line tag (joined (Dict.valuesOf e.pairs tag)) := fun tag htag =>
    hrow (tag, joined (Dict.valuesOf e.pairs tag)) (mem_row_iff.mpr (Or.inr (Or.inl ⟨htag, rfl⟩)))
  refine ⟨hmetadata, ?_, ?_, ?_, fun hdc => ?_⟩
  · exact hrow (aipUUID, dipuuid) (mem_row_iff.mpr (Or.inr (Or.inr (Or.inl rfl))))
  · exact hrow (fileUUID, e.fileUuid) (mem_row_iff.mpr (Or.inr (Or.inr (Or.inr rfl))))
  · exact hrow (nameHeader packageType, e.name) (mem_row_iff.mpr (Or.inl rfl))
  · have htitles : Dict.valuesOf e.pairs titleTag ≠ [] := fun hnil =>
      Dict.valuesOf_eq_nil_iff.mp hnil (htitle hdc)
    rw [Entry.title, if_neg htitles]
    exact hmetadata _ (htitle hdc)

-- Without a title among its elements the row has nothing in that column, and no placeholder.
theorem tag_of_cell_title (h : Cell file (lineOf file.headers (e.row packageType dipuuid)) titleTag e.title) :
    titleTag ∈ e.tags := by
  by_contra hnot
  have hvalue := (cell_lineOf_iff.mp h).2
  have hname : titleTag ≠ nameHeader packageType := by
    cases packageType with
    | simple => decide
    | compoundDirs => decide
    | compoundFiles => decide
  have hnone : Dict.get? (e.row packageType dipuuid) titleTag = none := by
    rw [Dict.get?_eq_none_iff]
    intro hmem
    obtain ⟨item, hitem, htag⟩ := List.mem_map.mp hmem
    rcases mem_row_iff.mp hitem with rfl | ⟨hin, -⟩ | rfl | rfl
    · exact hname htag.symm
    · exact hnot (htag ▸ hin)
    · have hne : aipUUID ≠ titleTag := by decide
      exact hne htag
    · have hne : fileUUID ≠ titleTag := by decide
      exact hne htag
  rw [Entry.title, if_pos (Dict.valuesOf_eq_nil_iff.mpr hnot), hnone] at hvalue
  exact absurd hvalue (by decide)

theorem generate_spec (h : generateProjectClientPackage packageType structmap dmdsecs dipuuid = some file) :
    getCsvHeaders ((entries packageType structmap dmdsecs dipuuid).map fun e => e.row packageType dipuuid) =
        some file.headers ∧
      file.lines = (entries packageType structmap dmdsecs dipuuid).map fun e =>
        lineOf file.headers (e.row packageType dipuuid) := by
  obtain ⟨rows, hrows, hrest⟩ := Option.bind_eq_some_iff.mp h
  obtain ⟨headers, hheaders, hfile⟩ := Option.bind_eq_some_iff.mp hrest
  obtain rfl := Option.some.inj hfile
  rw [rows_eq hrows] at hheaders ⊢
  refine ⟨hheaders, ?_⟩
  rw [List.map_map]
  rfl

theorem forall₂_complete_iff
    (h : generateProjectClientPackage packageType structmap dmdsecs dipuuid = some file) :
    List.Forall₂ (Complete packageType dipuuid file) (entries packageType structmap dmdsecs dipuuid) file.lines ↔
      ∀ e ∈ entries packageType structmap dmdsecs dipuuid,
        Complete packageType dipuuid file e (lineOf file.headers (e.row packageType dipuuid)) := by
  rw [(generate_spec h).2, List.forall₂_map_right_iff, List.forall₂_same]

-- The row that the headers are taken from.

theorem leads_iff_widest {i : ℕ} (he : all[i]? = some e) :
    Leads (all.map fun e => (e.row packageType dipuuid).csvHeader) i (e.row packageType dipuuid).csvHeader ↔
      Widest all i e := by
  constructor
  · intro hleads j e' he'
    have hrow : (all.map fun e => (e.row packageType dipuuid).csvHeader)[j]? =
        some (e'.row packageType dipuuid).csvHeader := by
      rw [List.getElem?_map, he']
      rfl
    obtain ⟨hle, hlt⟩ := hleads.2 j _ hrow
    rw [length_header, length_header] at hle hlt
    exact ⟨by omega, fun hji => by have := hlt hji; omega⟩
  · intro hwidest
    refine ⟨by rw [List.getElem?_map, he]; rfl, fun j row hrow => ?_⟩
    rw [List.getElem?_map] at hrow
    obtain ⟨e', he', rfl⟩ := Option.map_eq_some_iff.mp hrow
    obtain ⟨hle, hlt⟩ := hwidest j e' he'
    rw [length_header, length_header]
    exact ⟨by omega, fun hji => by have := hlt hji; omega⟩

-- The headers are those of one of the widest rows, with what other rows have more.
theorem exists_reference {headers : List Str} (hne : all ≠ [])
    (h : getCsvHeaders (all.map fun e => e.row packageType dipuuid) = some headers) :
    ∃ i e, all[i]? = some e ∧ Widest all i e ∧
      mergeColumns aipUUID (e.row packageType dipuuid).csvHeader
        (all.map fun e => (e.row packageType dipuuid).csvHeader) = some headers := by
  obtain ⟨first, rest, rfl⟩ := List.exists_cons_of_ne_nil hne
  rw [List.map_cons, getCsvHeaders, ← List.map_cons (f := fun e => Entry.row e packageType dipuuid),
    List.map_map, List.map_map] at h
  obtain ⟨i, hleads⟩ := exists_leads (first.row packageType dipuuid).csvHeader
    (rest.map fun e => (e.row packageType dipuuid).csvHeader)
  have hat := hleads.1
  rw [← List.map_cons (f := fun e => Row.csvHeader (Entry.row e packageType dipuuid)),
    List.getElem?_map] at hat
  obtain ⟨e, he, hheader⟩ := Option.map_eq_some_iff.mp hat
  rw [← hheader] at hleads
  refine ⟨i, e, he, (leads_iff_widest he).mp hleads, ?_⟩
  rw [hheader]
  exact h

theorem count_filename_header (hdirs : packageType.dirs = false) (htag : filename ∈ e.tags) :
    2 ≤ (e.row packageType dipuuid).csvHeader.count filename := by
  have hname : nameHeader packageType = filename := by
    rw [nameHeader, hdirs]
    rfl
  have hpos := List.count_pos_iff.mpr (Dict.mem_keys_group.mpr htag)
  rw [(header_perm e packageType dipuuid).count_eq, hname, List.count_cons_self, List.count_append]
  omega

theorem filename_mem_header (hdirs : packageType.dirs = false) :
    filename ∈ (e.row packageType dipuuid).csvHeader := by
  have hname : nameHeader packageType = filename := by
    rw [nameHeader, hdirs]
    rfl
  rw [(header_perm e packageType dipuuid).mem_iff, hname]
  exact List.mem_cons_self

section Headers

variable {headers : List Str} (h : getCsvHeaders (all.map fun e => e.row packageType dipuuid) = some headers)
include h

-- The row that the headers are taken from keeps what it has twice.
theorem not_widest_of_once (hdirs : packageType.dirs = false) (honce : headers.count filename = 1) {i : ℕ}
    (he : all[i]? = some e) (htag : filename ∈ e.tags) : ¬ Widest all i e := by
  intro hwidest
  obtain ⟨j, e', he', hwidest', hmerge⟩ := exists_reference (List.ne_nil_of_mem (List.mem_of_getElem? he)) h
  have hsame : (e.row packageType dipuuid).csvHeader = (e'.row packageType dipuuid).csvHeader :=
    Leads.unique ((leads_iff_widest he).mpr hwidest) ((leads_iff_widest he').mpr hwidest')
  have htwice : 2 ≤ (e.row packageType dipuuid).csvHeader.count filename :=
    count_filename_header hdirs htag
  have hmem : filename ∈ (e'.row packageType dipuuid).csvHeader := filename_mem_header hdirs
  have hkept := count_mergeColumns_of_mem hmerge hmem
  rw [hsame] at htwice
  omega

theorem count_headers (hclear : Clear packageType all) (hnamed : ∀ e ∈ all, Named e) (he : e ∈ all)
    (hmem : header ∈ (e.row packageType dipuuid).csvHeader) : headers.count header = 1 := by
  obtain ⟨i, first, hfirst, hwidest, hmerge⟩ := exists_reference (List.ne_nil_of_mem he) h
  by_cases hthere : header ∈ (first.row packageType dipuuid).csvHeader
  · have hname : packageType.dirs = true ∨ header ≠ filename ∨ filename ∉ first.tags := by
      cases hdirs : packageType.dirs with
      | true => exact Or.inl rfl
      | false => exact Or.inr (Or.inr fun htag => (hclear.filename hdirs i first hfirst htag).2 hwidest)
    have hle : (first.row packageType dipuuid).csvHeader.count header ≤ 1 :=
      count_header_le (hnamed first (List.mem_of_getElem? hfirst)) hname
    have hpos := List.count_pos_iff.mpr hthere
    rw [count_mergeColumns_of_mem hmerge hthere]
    omega
  · refine count_mergeColumns_of_new hmerge hthere (List.mem_map_of_mem he) hmem fun row hrow => ?_
    obtain ⟨e', he', rfl⟩ := List.mem_map.mp hrow
    refine count_header_le (hnamed e' he') ?_
    cases hdirs : packageType.dirs with
    | true => exact Or.inl rfl
    | false =>
        refine Or.inr (Or.inl fun heq => hthere ?_)
        rw [heq]
        exact filename_mem_header hdirs

end Headers

-- The one value under a header of the row.
def valueOf (packageType : PackageType) (dipuuid : Str) (e : Entry) (header : Str) : Str :=
  if header = nameHeader packageType then e.name
  else if header = aipUUID then dipuuid
  else if header = fileUUID then e.fileUuid
  else joined (Dict.valuesOf e.pairs header)

theorem nameHeader_ne (packageType : PackageType) :
    aipUUID ≠ nameHeader packageType ∧ fileUUID ≠ nameHeader packageType := by
  cases packageType with
  | simple => decide
  | compoundDirs => decide
  | compoundFiles => decide

theorem tag_eq_filename (hnamed : Named e) (htag : nameHeader packageType ∈ e.tags) :
    packageType.dirs = false ∧ nameHeader packageType = filename := by
  have hblank := hnamed _ htag
  cases hdirs : packageType.dirs with
  | true =>
      rw [nameHeader, if_pos hdirs] at hblank
      exact absurd (by decide) hblank
  | false =>
      rw [nameHeader, hdirs]
      exact ⟨rfl, rfl⟩

theorem value_eq (hnamed : Named e)
    (hname : packageType.dirs = false → filename ∈ e.tags → joined (Dict.valuesOf e.pairs filename) = e.name)
    {item : Str × Str} (hitem : item ∈ e.row packageType dipuuid) :
    item.2 = valueOf packageType dipuuid e item.1 := by
  obtain ⟨haip, hfile⟩ := nameHeader_ne packageType
  unfold valueOf
  rcases mem_row_iff.mp hitem with rfl | ⟨htag, hvalue⟩ | rfl | rfl
  · rw [if_pos rfl]
  · have hblank := hnamed _ htag
    have hnotAip : item.1 ≠ aipUUID := fun heq => hblank (heq ▸ (by decide))
    have hnotFile : item.1 ≠ fileUUID := fun heq => hblank (heq ▸ (by decide))
    by_cases heq : item.1 = nameHeader packageType
    · rw [heq] at htag hvalue
      obtain ⟨hdirs, hfilename⟩ := tag_eq_filename hnamed htag
      rw [hfilename] at htag hvalue
      rw [if_pos heq, hvalue, hname hdirs htag]
    · rw [if_neg heq, if_neg hnotAip, if_neg hnotFile, hvalue]
  · rw [if_neg haip, if_pos rfl]
  · have hne : fileUUID ≠ aipUUID := by decide
    rw [if_neg hfile, if_neg hne, if_pos rfl]

theorem get?_row (hnamed : Named e)
    (hname : packageType.dirs = false → filename ∈ e.tags → joined (Dict.valuesOf e.pairs filename) = e.name)
    {item : Str × Str} (hitem : item ∈ e.row packageType dipuuid) :
    Dict.get? (e.row packageType dipuuid) item.1 = some item.2 := by
  have hsome : Dict.get? (e.row packageType dipuuid) item.1 ≠ none := by
    rw [Ne, Dict.get?_eq_none_iff, not_not]
    exact List.mem_map_of_mem hitem
  obtain ⟨value, hvalue⟩ := Option.ne_none_iff_exists'.mp hsome
  have hother := value_eq hnamed hname (Dict.mem_of_get? hvalue)
  have hthis := value_eq hnamed hname hitem
  rw [hvalue, hthis, ← hother]

theorem clear_of_complete
    (h : getCsvHeaders (all.map fun e => e.row packageType dipuuid) = some file.headers)
    (hcomplete : ∀ e ∈ all, Complete packageType dipuuid file e
      (lineOf file.headers (e.row packageType dipuuid))) : Clear packageType all := by
  refine ⟨fun e he hdc => tag_of_cell_title ((hcomplete e he).title hdc), fun hdirs i e he htag => ?_⟩
  have hentry := hcomplete e (List.mem_of_getElem? he)
  have hname := hentry.name
  rw [nameHeader, hdirs] at hname
  have hcell := cell_lineOf_iff.mp (hentry.metadata _ htag)
  have hcell' := cell_lineOf_iff.mp hname
  exact ⟨hcell.2.trans hcell'.2.symm, not_widest_of_once h hdirs hcell.1 he htag⟩

theorem complete_of_clear
    (h : getCsvHeaders (all.map fun e => e.row packageType dipuuid) = some file.headers)
    (hclear : Clear packageType all) (hnamed : ∀ e ∈ all, Named e) (he : e ∈ all) :
    Complete packageType dipuuid file e (lineOf file.headers (e.row packageType dipuuid)) := by
  refine complete_of_row (fun item hitem => ?_) (hclear.title e he)
  have hname : packageType.dirs = false → filename ∈ e.tags →
      joined (Dict.valuesOf e.pairs filename) = e.name := by
    intro hdirs htag
    obtain ⟨i, hi⟩ := List.mem_iff_getElem?.mp he
    exact (hclear.filename hdirs i e hi htag).1
  rw [cell_lineOf_iff, get?_row (hnamed e he) hname hitem, Option.getD_some]
  exact ⟨count_headers h hclear hnamed he (List.mem_map_of_mem hitem), rfl⟩

theorem complete_iff (h : generateProjectClientPackage packageType structmap dmdsecs dipuuid = some file) :
    List.Forall₂ (Complete packageType dipuuid file) (entries packageType structmap dmdsecs dipuuid) file.lines ↔
      Clear packageType (entries packageType structmap dmdsecs dipuuid) := by
  have hheaders := (generate_spec h).1
  rw [forall₂_complete_iff h]
  constructor
  · exact clear_of_complete hheaders
  · intro hclear e he
    exact complete_of_clear hheaders hclear (fun e he => named_of_mem he) he

-- A page with one dmdSec of Dublin Core that has one element.

def pageDiv : Div :=
  ⟨some "dmdSec_1".toList, some "page.jpg".toList, some (some "file-dfc6cd94-b0f5-4f3a-9d3c-2ecf0a29e2b4".toList)⟩

def dublinCore (tag : Str) (h : tag.all (· ≠ ' ') = true) : DmdSec :=
  ⟨[⟨some "DC".toList, none⟩], some [⟨dcterms, tag, some "Maps".toList, h⟩]⟩

theorem titleTag_name : titleTag.all (· ≠ ' ') = true := by decide

theorem identifierTag_name : identifierTag.all (· ≠ ' ') = true := by decide

def titled : Dict Str DmdSec := [("dmdSec_1".toList, dublinCore titleTag titleTag_name)]

def untitled : Dict Str DmdSec := [("dmdSec_1".toList, dublinCore identifierTag identifierTag_name)]

def aip : Str := "9e7ba9c0-c5b6-4d8c-9d3b-8c7e4f3f2b11".toList

theorem generate_titled : (generateProjectClientPackage .simple [pageDiv] titled aip).isSome = true := by
  decide

theorem generate_untitled : (generateProjectClientPackage .simple [pageDiv] untitled aip).isSome = true := by
  decide

theorem complete_titled :
    ∃ file, generateProjectClientPackage .simple [pageDiv] titled aip = some file ∧
      List.Forall₂ (Complete .simple aip file) (entries .simple [pageDiv] titled aip) file.lines := by
  obtain ⟨file, hfile⟩ := Option.isSome_iff_exists.mp generate_titled
  have hentries : (entries .simple [pageDiv] titled aip).map Entry.tags = [[titleTag, identifierTag]] := by
    decide
  have htags : ∀ e ∈ entries .simple [pageDiv] titled aip, e.tags = [titleTag, identifierTag] := by
    intro e he
    have hmem := List.mem_map_of_mem (f := Entry.tags) he
    rw [hentries] at hmem
    exact List.mem_singleton.mp hmem
  refine ⟨file, hfile, (complete_iff hfile).mpr ⟨fun e he _ => ?_, fun _ i e he htag => ?_⟩⟩
  · rw [htags e he]
    exact List.mem_cons_self
  · rw [htags e (List.mem_of_getElem? he)] at htag
    exact absurd htag (by decide)

theorem untitled_not_complete :
    ∃ file, generateProjectClientPackage .simple [pageDiv] untitled aip = some file ∧
      ¬ List.Forall₂ (Complete .simple aip file) (entries .simple [pageDiv] untitled aip) file.lines := by
  obtain ⟨file, hfile⟩ := Option.isSome_iff_exists.mp generate_untitled
  refine ⟨file, hfile, fun hall => ?_⟩
  rw [forall₂_complete_iff hfile] at hall
  have hclear := clear_of_complete (generate_spec hfile).1 hall
  have hnot : ((entries .simple [pageDiv] untitled aip).all fun e =>
      !e.fromDC || e.tags.contains titleTag) = false := by decide
  have hyes : ((entries .simple [pageDiv] untitled aip).all fun e =>
      !e.fromDC || e.tags.contains titleTag) = true := by
    rw [List.all_eq_true]
    intro e he
    cases hdc : e.fromDC with
    | false => rfl
    | true => simpa using hclear.title e he hdc
  rw [hnot] at hyes
  cases hyes

end Ccp.Worker.RestructureDip
