import Ccp.Lib.Like
import Ccp.Lib.Paging
import Ccp.Replacement.Files

namespace Ccp

open Lib

namespace Files

-- A row of Files, as far as the query reads it.
structure Row where
  fileUUID : UUID
  originalLocation : Str
  currentLocation : Option Str
  fileGrpUse : Str
  sipUUID : Option UUID
  transferUUID : Option UUID
deriving DecidableEq

structure Table where
  rows : List Row
  nodup : (rows.map Row.fileUUID).Nodup

-- A NULL does not scan to a string.
def Row.scan (r : Row) : Except String StoreFile :=
  match r.currentLocation with
  | none => .error "scan structs: converting NULL to string is unsupported"
  | some location =>
      .ok
        { id := r.fileUUID
          currentLocation := location
          originalLocation := r.originalLocation
          fileGrpUse := r.fileGrpUse }

def utf8 (s : Str) : List UInt8 := s.flatMap String.utf8EncodeChar

-- The bytes of %, _ and the backslash.
def special : Like.Special UInt8 := ⟨37, 95, 92⟩

-- The column compares as bytes, and a NULL is like no pattern.
def like (column : Option Str) (pattern : Str) : Bool :=
  match column with
  | none => false
  | some s => Like.holds (Like.compile special (utf8 pattern)) (utf8 s)

-- The arguments of Files.
structure Query where
  id : UUID
  packageType : PackageType
  filterFilenameEnd : Str
  filterSubdir : Str
  replacementPath : Str

namespace Query

def owns (q : Query) (r : Row) : Bool :=
  match q.packageType with
  | .transfer => r.transferUUID = some q.id
  | .sip => r.sipUUID = some q.id
  | .dip => r.sipUUID = some q.id

-- The condition of the statement.
def selects (q : Query) (r : Row) : Bool :=
  (q.filterFilenameEnd.isEmpty || like r.currentLocation ('%' :: q.filterFilenameEnd)) &&
    (q.filterSubdir.isEmpty ||
      like r.currentLocation (q.replacementPath ++ q.filterSubdir ++ "%".toList)) &&
    q.owns r

def matching (q : Query) (t : Table) : List Row := t.rows.filter q.selects

end Query

def batchSize : ℕ := 250

-- The orders in which the rows of one result set come, query after query: the statement
-- has no ORDER BY.
structure Orders (rows : List Row) where
  order : ℕ → List Row
  perm : ∀ k, (order k).Perm rows

-- Files, as far as the fuel goes.
def files (q : Query) (t : Table) (orders : Orders (q.matching t)) (fuel : ℕ) :
    Option (Except String (List StoreFile)) :=
  Paging.collect batchSize Row.scan orders.order fuel 0 0 []

-- What the loop comes to.
def Returns (q : Query) (t : Table) (orders : Orders (q.matching t))
    (answer : Except String (List StoreFile)) : Prop :=
  ∃ fuel, files q t orders fuel = some answer

section Selection

-- The package's rows with the suffix and the prefix.
def Query.Meant (q : Query) (r : Row) : Prop :=
  q.owns r = true ∧ ∃ location, r.currentLocation = some location ∧
    utf8 q.filterFilenameEnd <:+ utf8 location ∧
    utf8 (q.replacementPath ++ q.filterSubdir) <+: utf8 location

-- The text is one that the pattern becomes with texts for its wildcards.
def Fits (pattern s : Str) : Prop := Like.Fills (Like.compile special (utf8 pattern)) (utf8 s)

theorem like_iff_fits {location pattern : Str} :
    like (some location) pattern = true ↔ Fits pattern location :=
  Like.holds_iff_fills

theorem utf8_append (s t : Str) : utf8 (s ++ t) = utf8 s ++ utf8 t := List.flatMap_append

theorem distinct_special : special.Distinct := ⟨by decide, by decide, by decide⟩

section Otherwise

variable {filter location : Str}

-- No backslash of the text takes the meaning of a byte after it: none at all, or only the last
-- byte of a text that ends the pattern.
def UnescapedEnd (filter : Str) : Prop := Like.Unescaped special [] (utf8 filter)

def UnescapedStart (filter : Str) : Prop := Like.Unescaped special (utf8 "%".toList) (utf8 filter)

def EndsWith (filter location : Str) : Prop := utf8 filter <:+ utf8 location

def StartsWith (filter location : Str) : Prop := utf8 filter <+: utf8 location

-- The location ends in the filter with another text in place of a wildcard or an escape.
def EndsOtherwise (filter location : Str) : Prop :=
  ∃ s, s <:+ utf8 location ∧ Like.Departs special [] (utf8 filter) s

-- The location starts with the filter, with another text in place of a wildcard or an escape.
def StartsOtherwise (filter location : Str) : Prop :=
  Like.Departs special (utf8 "%".toList) (utf8 filter) (utf8 location)

theorem fits_end_iff : Fits ('%' :: filter) location ↔
    UnescapedEnd filter ∧ EndsWith filter location ∨ EndsOtherwise filter location := by
  have hpattern : Like.compile special (utf8 ('%' :: filter)) =
      .any :: Like.compile special (utf8 filter ++ []) := by
    rw [List.append_nil]
    exact Like.compile_cons distinct_special.any_ne_escape
  rw [Fits, hpattern, Like.fills_any_iff]
  simp only [Like.fills_iff_own_or_departs distinct_special]
  constructor
  · rintro ⟨front, s, hs, ⟨hescape, rest, rfl, hrest⟩ | hdeparts⟩
    · cases hrest
      rw [List.append_nil] at hs
      exact Or.inl ⟨hescape, front, hs.symm⟩
    · exact Or.inr ⟨s, ⟨front, hs.symm⟩, hdeparts⟩
  · rintro (⟨hescape, front, hfront⟩ | ⟨s, ⟨front, hfront⟩, hdeparts⟩)
    · exact ⟨front, utf8 filter, hfront.symm, Or.inl ⟨hescape, [], (List.append_nil _).symm, .nil⟩⟩
    · exact ⟨front, s, hfront.symm, Or.inr hdeparts⟩

theorem fits_start_iff : Fits (filter ++ "%".toList) location ↔
    UnescapedStart filter ∧ StartsWith filter location ∨ StartsOtherwise filter location := by
  have hany : ∀ rest, Like.Fills (Like.compile special (utf8 "%".toList)) rest := by
    intro rest
    have h : Like.Fills [.any] (rest ++ []) := .any rest .nil
    rwa [List.append_nil] at h
  rw [Fits, utf8_append, Like.fills_iff_own_or_departs distinct_special]
  refine or_congr_left (and_congr_right fun _ => ?_)
  constructor
  · rintro ⟨rest, hrest, -⟩
    exact ⟨rest, hrest.symm⟩
  · rintro ⟨rest, hrest⟩
    exact ⟨rest, hrest.symm, hany rest⟩

end Otherwise

-- The text that the location of a file in the subdirectory starts with.
def Query.directory (q : Query) : Str := q.replacementPath ++ q.filterSubdir

-- The patterns of the statement that a location has to be like.
def Query.TakesEnd (q : Query) (location : Str) : Prop :=
  q.filterFilenameEnd ≠ [] → Fits ('%' :: q.filterFilenameEnd) location

def Query.TakesStart (q : Query) (location : Str) : Prop :=
  q.filterSubdir ≠ [] → Fits (q.directory ++ "%".toList) location

-- What the wildcards and the escapes of the filters do to a location of the package.
structure Query.Harmless (q : Query) (location : Str) : Prop where
  wildcardEnd : q.filterFilenameEnd ≠ [] → EndsOtherwise q.filterFilenameEnd location →
    q.TakesStart location → EndsWith q.filterFilenameEnd location
  wildcardStart : q.filterSubdir ≠ [] → StartsOtherwise q.directory location →
    q.TakesEnd location → StartsWith q.directory location
  -- without a subdirectory there is no pattern for the start
  unasked : q.filterSubdir = [] → q.TakesEnd location → StartsWith q.replacementPath location
  escapeEnd : ¬ UnescapedEnd q.filterFilenameEnd → EndsWith q.filterFilenameEnd location →
    StartsWith q.directory location → EndsOtherwise q.filterFilenameEnd location
  escapeStart : q.filterSubdir ≠ [] → ¬ UnescapedStart q.directory → StartsWith q.directory location →
    EndsWith q.filterFilenameEnd location → StartsOtherwise q.directory location

-- A row without a location is not taken where there is a filter.
structure Query.Literal (q : Query) (r : Row) : Prop where
  null : r.currentLocation = none → q.filterFilenameEnd ≠ [] ∨ q.filterSubdir ≠ []
  location : ∀ location, r.currentLocation = some location → q.Harmless location

theorem harmless_iff_meant {q : Query} {location : Str} : q.Harmless location ↔
    (q.TakesEnd location ∧ q.TakesStart location ↔
      EndsWith q.filterFilenameEnd location ∧ StartsWith q.directory location) := by
  have hdirectory : q.filterSubdir = [] → q.directory = q.replacementPath := fun h => by
    rw [Query.directory, h, List.append_nil]
  have hempty : q.filterFilenameEnd = [] →
      UnescapedEnd q.filterFilenameEnd ∧ EndsWith q.filterFilenameEnd location := by
    intro h
    rw [h]
    exact ⟨Like.unescaped_nil, List.nil_suffix⟩
  constructor
  · intro h
    constructor
    · rintro ⟨hend, hstart⟩
      constructor
      · by_cases hgiven : q.filterFilenameEnd = []
        · exact (hempty hgiven).2
        · rcases fits_end_iff.mp (hend hgiven) with ⟨-, hplain⟩ | hother
          · exact hplain
          · exact h.wildcardEnd hgiven hother hstart
      · by_cases hgiven : q.filterSubdir = []
        · rw [hdirectory hgiven]
          exact h.unasked hgiven hend
        · rcases fits_start_iff.mp (hstart hgiven) with ⟨-, hplain⟩ | hother
          · exact hplain
          · exact h.wildcardStart hgiven hother hend
    · rintro ⟨hend, hstart⟩
      refine ⟨fun _ => fits_end_iff.mpr ?_, fun hgiven => fits_start_iff.mpr ?_⟩
      · by_cases hescape : UnescapedEnd q.filterFilenameEnd
        · exact Or.inl ⟨hescape, hend⟩
        · exact Or.inr (h.escapeEnd hescape hend hstart)
      · by_cases hescape : UnescapedStart q.directory
        · exact Or.inl ⟨hescape, hstart⟩
        · exact Or.inr (h.escapeStart hgiven hescape hstart hend)
  · intro h
    constructor
    · exact fun _ hother hstart => (h.mp ⟨fun _ => fits_end_iff.mpr (Or.inr hother), hstart⟩).1
    · exact fun _ hother hend => (h.mp ⟨hend, fun _ => fits_start_iff.mpr (Or.inr hother)⟩).2
    · intro hnone hend
      rw [← hdirectory hnone]
      exact (h.mp ⟨hend, fun hgiven => absurd hnone hgiven⟩).2
    · intro hescape hend hstart
      have hgiven : q.filterFilenameEnd ≠ [] := fun hnil => hescape (hempty hnil).1
      exact (fits_end_iff.mp ((h.mpr ⟨hend, hstart⟩).1 hgiven)).resolve_left fun hplain => hescape hplain.1
    · intro hgiven hescape hstart hend
      exact (fits_start_iff.mp ((h.mpr ⟨hend, hstart⟩).2 hgiven)).resolve_left fun hplain => hescape hplain.1

theorem selects_none {q : Query} {r : Row} (h : r.currentLocation = none) (howns : q.owns r = true) :
    q.selects r = true ↔ q.filterFilenameEnd = [] ∧ q.filterSubdir = [] := by
  simp only [Query.selects, h, howns, like, Bool.or_false, Bool.and_true, Bool.and_eq_true,
    List.isEmpty_iff]

theorem selects_some {q : Query} {r : Row} {location : Str} (h : r.currentLocation = some location)
    (howns : q.owns r = true) : q.selects r = true ↔ q.TakesEnd location ∧ q.TakesStart location := by
  simp only [Query.selects, h, howns, Bool.and_true, Bool.and_eq_true, Bool.or_eq_true,
    List.isEmpty_iff, like_iff_fits, Query.TakesEnd, Query.TakesStart, Query.directory, or_iff_not_imp_left,
    ne_eq]

theorem meant_some {q : Query} {r : Row} {location : Str} (h : r.currentLocation = some location)
    (howns : q.owns r = true) :
    q.Meant r ↔ EndsWith q.filterFilenameEnd location ∧ StartsWith q.directory location := by
  constructor
  · rintro ⟨-, location', hlocation, hfilename, hsubdir⟩
    obtain rfl : location' = location := Option.some.inj (hlocation.symm.trans h)
    exact ⟨hfilename, hsubdir⟩
  · rintro ⟨hfilename, hsubdir⟩
    exact ⟨howns, location, h, hfilename, hsubdir⟩

theorem selects_iff_meant_of_owns {q : Query} {r : Row} (howns : q.owns r = true) :
    (q.selects r = true ↔ q.Meant r) ↔ q.Literal r := by
  cases hlocation : r.currentLocation with
  | none =>
      have hmeant : ¬ q.Meant r := by
        rintro ⟨-, location, h, -⟩
        rw [hlocation] at h
        cases h
      rw [selects_none hlocation howns, iff_false_right hmeant, not_and_or]
      constructor
      · intro h
        refine ⟨fun _ => h, fun location h => ?_⟩
        rw [hlocation] at h
        cases h
      · intro h
        exact h.null hlocation
  | some location =>
      rw [selects_some hlocation howns, meant_some hlocation howns, ← harmless_iff_meant]
      constructor
      · intro h
        refine ⟨fun hnone => ?_, fun location' hsome => ?_⟩
        · rw [hlocation] at hnone
          cases hnone
        · obtain rfl : location = location' := Option.some.inj (hlocation.symm.trans hsome)
          exact h
      · intro h
        exact h.location location hlocation

-- The rows that are selected are the rows that are meant exactly where the wildcards and the
-- escapes of the filters do no harm to a row of the package.
theorem selects_iff_meant (q : Query) (t : Table) :
    (∀ r ∈ t.rows, q.selects r = true ↔ q.Meant r) ↔
      ∀ r ∈ t.rows, q.owns r = true → q.Literal r := by
  constructor
  · intro h r hr howns
    exact (selects_iff_meant_of_owns howns).mp (h r hr)
  · intro h r hr
    by_cases howns : q.owns r = true
    · exact (selects_iff_meant_of_owns howns).mpr (h r hr howns)
    · constructor
      · intro hselects
        exact absurd (Bool.and_eq_true_iff.mp hselects).2 howns
      · rintro ⟨h, -⟩
        exact absurd h howns

end Selection

section Once

variable {q : Query} {t : Table} {orders : Orders (q.matching t)}

theorem Row.scan_eq_ok {r : Row} {f : StoreFile} (h : r.scan = .ok f) :
    r.currentLocation = some f.currentLocation ∧ f.id = r.fileUUID := by
  rw [Row.scan] at h
  cases hlocation : r.currentLocation with
  | none =>
      rw [hlocation] at h
      cases h
  | some location =>
      rw [hlocation] at h
      cases h
      exact ⟨rfl, rfl⟩

theorem Row.exists_scan_iff {r : Row} : (∃ f, r.scan = .ok f) ↔ r.currentLocation ≠ none := by
  constructor
  · rintro ⟨f, hf⟩
    rw [(Row.scan_eq_ok hf).1]
    exact Option.some_ne_none _
  · intro h
    obtain ⟨location, hlocation⟩ := Option.ne_none_iff_exists'.mp h
    rw [Row.scan, hlocation]
    exact ⟨_, rfl⟩

theorem nodup_matching (q : Query) (t : Table) : (q.matching t).Nodup :=
  (List.Nodup.of_map Row.fileUUID t.nodup).filter _

-- The identifier is the key of the table.
theorem eq_of_scan {r s : Row} (hr : r ∈ q.matching t) (hs : s ∈ q.matching t) {f : StoreFile}
    (hrf : r.scan = .ok f) (hsf : s.scan = .ok f) : r = s := by
  apply List.inj_on_of_nodup_map t.nodup (List.mem_of_mem_filter hr) (List.mem_of_mem_filter hs)
  rw [← (Row.scan_eq_ok hrf).2, (Row.scan_eq_ok hsf).2]

theorem returns_iff {answer : Except String (List StoreFile)} :
    Returns q t orders answer ↔ files q t orders ((q.matching t).length + 1) = some answer := by
  constructor
  · rintro ⟨fuel, hfuel⟩
    have hstop := Paging.collect_eq_pages orders.perm Row.scan (by decide : 0 < batchSize)
      (Nat.lt_succ_self (q.matching t).length)
    cases Nat.le_total fuel ((q.matching t).length + 1) with
    | inl hle => exact Paging.collect_of_le hle hfuel
    | inr hle =>
        rw [files, hstop, ← Paging.collect_of_le hle hstop]
        exact hfuel
  · intro h
    exact ⟨_, h⟩

-- What is returned has been read from rows that match.
theorem exists_row_of_returns {found : List StoreFile} (h : Returns q t orders (.ok found))
    {f : StoreFile} (hf : f ∈ found) : ∃ r ∈ t.rows, q.owns r = true ∧ r.scan = .ok f := by
  have hrun := returns_iff.mp h
  rw [files, Paging.collect_eq_pages orders.perm Row.scan (by decide) (Nat.lt_succ_self _)] at hrun
  have hscan := Paging.mapM_ok_iff.mp (Option.some.inj hrun)
  have hmem : (Except.ok f : Except String StoreFile) ∈ found.map Except.ok := List.mem_map_of_mem hf
  rw [hscan] at hmem
  obtain ⟨r, hr, hrf⟩ := List.mem_map.mp hmem
  obtain ⟨hrow, hselects⟩ := List.mem_filter.mp (Paging.windows_subset orders.perm _ hr)
  exact ⟨r, hrow, (Bool.and_eq_true_iff.mp hselects).2, hrf⟩

theorem exists_returns : ∃ answer, Returns q t orders answer := by
  exact ⟨_, _, Paging.collect_eq_pages orders.perm Row.scan (by decide : 0 < batchSize)
    (Nat.lt_succ_self _)⟩

theorem returns_perm_iff :
    (∃ found, Returns q t orders (.ok found) ∧
        (found.map Except.ok).Perm ((q.matching t).map Row.scan)) ↔
      (∀ r ∈ q.matching t, r.currentLocation ≠ none) ∧ Paging.Apart batchSize orders.order := by
  have h := Paging.collect_perm_iff (nodup_matching q t)
    (fun r hr s hs f hrf hsf => eq_of_scan hr hs hrf hsf) orders.perm (by decide : 0 < batchSize)
    (Nat.lt_succ_self _)
  simp only [Row.exists_scan_iff] at h
  simp only [returns_iff]
  exact h

end Once

-- The loop always ends, and has every row that matches once exactly where each of them
-- has a location and none comes in the pages of two queries.
theorem returns_once_iff (q : Query) (t : Table) (orders : Orders (q.matching t)) :
    (∃ answer, Returns q t orders answer) ∧
      ((∃ found, Returns q t orders (.ok found) ∧
          (found.map Except.ok).Perm ((q.matching t).map Row.scan)) ↔
        (∀ r ∈ q.matching t, r.currentLocation ≠ none) ∧
          Paging.Apart batchSize orders.order) :=
  ⟨exists_returns, returns_perm_iff⟩

section Examples

-- Two files of a SIP, in directories that differ where the filter has an underscore.
def inDirectory (n : BitVec 128) (directory : String) : Row where
  fileUUID := ⟨n⟩
  originalLocation := []
  currentLocation := some ("%SIPDirectory%".toList ++ directory.toList ++ "a".toList)
  fileGrpUse := []
  sipUUID := some ⟨7⟩
  transferUUID := none

def twoDirectories : Table where
  rows := [inDirectory 1 "x_/", inDirectory 2 "xy/"]
  nodup := by decide

def underscore : Query where
  id := ⟨7⟩
  packageType := .sip
  filterFilenameEnd := []
  filterSubdir := "x_/".toList
  replacementPath := "%SIPDirectory%".toList

theorem selects_other_directory :
    ¬ ∀ (q : Query) (t : Table), ∀ r ∈ t.rows, q.selects r = true ↔ q.Meant r := by
  intro h
  have hrow := h underscore twoDirectories (inDirectory 2 "xy/") (by decide)
  obtain ⟨-, location, hlocation, -, hprefix⟩ := hrow.mp (by decide +kernel)
  obtain rfl := Option.some.inj hlocation
  revert hprefix
  decide +kernel

-- One file more than a page has.
def inObjects (n : ℕ) : Row := inDirectory (BitVec.ofNat 128 n) "objects/"

theorem nodup_inObjects : (((List.range 251).map inObjects).map Row.fileUUID).Nodup := by
  rw [List.map_map]
  apply List.Nodup.map_on _ List.nodup_range
  intro m hm n hn heq
  have hnat : m % 2 ^ 128 = n % 2 ^ 128 := congrArg (fun u : UUID => u.bits.toNat) heq
  rw [List.mem_range] at hm hn
  omega

def manyFiles : Table where
  rows := (List.range 251).map inObjects
  nodup := nodup_inObjects

def everything : Query where
  id := ⟨7⟩
  packageType := .sip
  filterFilenameEnd := []
  filterSubdir := []
  replacementPath := "%SIPDirectory%".toList

theorem matching_manyFiles : everything.matching manyFiles = (List.range 251).map inObjects := by
  apply List.filter_eq_self.mpr
  intro r hr
  obtain ⟨n, -, rfl⟩ := List.mem_map.mp hr
  rfl

theorem turned_perm (k : ℕ) :
    (if k = 0 then everything.matching manyFiles else (everything.matching manyFiles).reverse).Perm
      (everything.matching manyFiles) := by
  split_ifs
  · exact .refl _
  · exact List.reverse_perm _

-- The second query has the rows from the last to the first.
def turned : Orders (everything.matching manyFiles) where
  order := fun k =>
    if k = 0 then everything.matching manyFiles else (everything.matching manyFiles).reverse
  perm := turned_perm

theorem turned_order (k : ℕ) : turned.order k =
    if k = 0 then everything.matching manyFiles else (everything.matching manyFiles).reverse :=
  rfl

theorem turned_not_once :
    ¬ ∀ (q : Query) (t : Table) (orders : Orders (q.matching t)), ∃ found,
      Returns q t orders (.ok found) ∧
        (found.map Except.ok).Perm ((q.matching t).map Row.scan) := by
  intro h
  obtain ⟨-, hapart⟩ := returns_perm_iff.mp (h everything manyFiles turned)
  -- the first file is in the page of the first query and in that of the second
  have hlength : (everything.matching manyFiles).length = 251 := by
    rw [matching_manyFiles, List.length_map, List.length_range]
  have hfirst : (everything.matching manyFiles)[0]? = some (inObjects 0) := by
    rw [matching_manyFiles, List.getElem?_map, List.getElem?_range (by decide), Option.map_some]
  have hlast : (everything.matching manyFiles).reverse[250]? = some (inObjects 0) := by
    rw [List.getElem?_reverse (by omega), hlength]
    exact hfirst
  have hpages := hapart 0 250 (by decide) (inObjects 0)
  rw [turned_order, turned_order, if_pos (by decide), if_neg (by decide)] at hpages
  exact hpages hfirst hlast

end Examples

end Files

end Ccp
