import Ccp.Lib.Dict
import Ccp.Uuid
import Mathlib.Data.Char
import Mathlib.Data.List.Dedup
import Mathlib.Data.List.Lex
import Mathlib.Data.List.Sort
import Mathlib.Order.Lattice

namespace Ccp.Worker

open Lib

-- str.isspace of one character.
def isSpace (c : Char) : Bool :=
  let n := c.toNat
  (0x9 ≤ n ∧ n ≤ 0xd) ∨ (0x1c ≤ n ∧ n ≤ 0x20) ∨ n = 0x85 ∨ n = 0xa0 ∨ n = 0x1680 ∨
    (0x2000 ≤ n ∧ n ≤ 0x200a) ∨ n = 0x2028 ∨ n = 0x2029 ∨ n = 0x202f ∨ n = 0x205f ∨ n = 0x3000

def strip (s : Str) : Str := ((s.dropWhile isSpace).reverse.dropWhile isSpace).reverse

def rstripSlash (s : Str) : Str := (s.reverse.dropWhile (· = '/')).reverse

namespace MetadataCSV

-- What an object of the JSON metadata has under a key.
inductive Value
  | str (s : Str)
  | list (l : List Str)
deriving DecidableEq

abbrev Object := Dict Str Value

def filename : Str := "filename".toList

-- fetch_keys: the greatest length of a list under each key.
def countKey (occurrenceCount : Dict Str Nat) (key : Str) : Value → Dict Str Nat
  | .str _ => occurrenceCount
  | .list l =>
      match Dict.get? occurrenceCount key with
      | none => Dict.set occurrenceCount key l.length
      | some n => if n < l.length then Dict.set occurrenceCount key l.length else occurrenceCount

def occurrences (objects : List Object) : Dict Str Nat :=
  objects.foldl (fun count o => o.foldl (fun count item => countKey count item.1 item.2) count) []

def sortedKeys (objects : List Object) : List Str :=
  (objects.flatMap (·.map Prod.fst)).dedup.insertionSort (· ≤ ·)

-- The column that has to be the first.
def leading (keys : List Str) : List Str :=
  if filename ∈ keys then filename :: keys.erase filename
  else if "parts".toList ∈ keys then "parts".toList :: keys.erase "parts".toList
  else keys

-- The other columns of a key go after its first one; there is no index of a key
-- that is not there.
def repeatKey (keys : List Str) (key : Str) (count : Nat) : Option (List Str) :=
  (keys.idxOf? key).map fun i =>
    (List.range (count - 1)).foldl (fun keys _ => keys.insertIdx (i + 1) key) keys

def fetchKeys (objects : List Object) : Option (List Str) :=
  (occurrences objects).foldlM (fun keys item => repeatKey keys item.1 item.2)
    (leading (sortedKeys objects))

-- object_to_row: a list gives one value to each of its columns, a text is taken
-- out of the object once it has been written.
def objectToRow : Object → Dict Str Nat → List Str → List (Option Str)
  | _, _, [] => []
  | row, headerIdx, header :: headers =>
      match Dict.get? row header with
      | none => none :: objectToRow row headerIdx headers
      | some (.list val) =>
          let idx := (Dict.get? headerIdx header).getD 0
          val[idx]? :: objectToRow row (Dict.set headerIdx header (idx + 1)) headers
      | some (.str val) => some val :: objectToRow (Dict.erase row header) headerIdx headers

-- The rows of the file as the reader sees them: None is written as an empty text.
def toCSV (objects : List Object) : Option (List (List Str)) :=
  (fetchKeys objects).map fun headers =>
    headers :: objects.map fun o => (objectToRow o [] headers).map (·.getD [])

-- __setitem__ of IgnoreEmptyStringValuesOrderedListsDict.
def setItem (values : Dict Str (List Str)) (key value : Str) : Dict Str (List Str) :=
  if value = [] then values
  else Dict.set values key ((Dict.get? values key).getD [] ++ [value])

def rowValues (header row : List Str) : Dict Str (List Str) :=
  (header.zip row).foldl (fun values cell => setItem values cell.1 cell.2) []

def readRow (header : List Str) (metadata : Dict Str (Dict Str (List Str))) :
    List Str → Dict Str (Dict Str (List Str))
  | [] => metadata
  | name :: row => Dict.set metadata (rstripSlash name) (rowValues header row)

-- A file without a header is an error.
def parseMetadataCSV : List (List Str) → Option (Dict Str (Dict Str (List Str)))
  | [] => none
  | header :: rows => some (rows.foldl (readRow ((header.drop 1).map strip)) [])

-- The cells of one column name, in their order.
def cells {α : Type} (key : Str) (header : List Str) (row : List α) : List α :=
  ((header.zip row).filter (·.1 = key)).map Prod.snd

theorem cells_cons {α : Type} (key h : Str) (header : List Str) (c : α) (row : List α) :
    cells key (h :: header) (c :: row) =
      if h = key then c :: cells key header row else cells key header row := by
  by_cases hk : h = key
  · simp [cells, hk]
  · simp [cells, hk]

-- What the cells of a key hold, from an index of its list on.
def cellsOf (value : Option Value) (idx : Nat) : Nat → List (Option Str)
  | 0 => []
  | n + 1 =>
      match value with
      | none => none :: cellsOf none idx n
      | some (.list l) => l[idx]? :: cellsOf value (idx + 1) n
      | some (.str s) => some s :: cellsOf none idx n

theorem cells_objectToRow (key : Str) (header : List Str) (row : Object) (headerIdx : Dict Str Nat) :
    cells key header (objectToRow row headerIdx header) =
      cellsOf (Dict.get? row key) ((Dict.get? headerIdx key).getD 0) (header.count key) := by
  induction header generalizing row headerIdx with
  | nil => rfl
  | cons h header ih =>
      by_cases hk : h = key
      · subst hk
        rw [List.count_cons_self]
        cases hrow : Dict.get? row h with
        | none => simp only [objectToRow, hrow, cells_cons, if_true, cellsOf, ih]
        | some value =>
            cases value with
            | str s =>
                simp only [objectToRow, hrow, cells_cons, if_true, cellsOf, ih, Dict.get?_erase]
            | list l =>
                simp only [objectToRow, hrow, cells_cons, if_true, cellsOf, ih, Dict.get?_set,
                  Option.getD_some]
      · rw [List.count_cons_of_ne hk]
        cases hrow : Dict.get? row h with
        | none => simp only [objectToRow, hrow, cells_cons, hk, if_false, ih]
        | some value =>
            cases value with
            | str s =>
                simp only [objectToRow, hrow, cells_cons, hk, if_false, ih, Dict.get?_erase]
            | list l => simp only [objectToRow, hrow, cells_cons, hk, if_false, ih, Dict.get?_set]

def texts (cells : List (Option Str)) : List Str := (cells.map (·.getD [])).filter (· ≠ [])

-- The values that are not empty, in their order.
def Value.texts : Option Value → List Str
  | none => []
  | some (.str s) => [s].filter (· ≠ [])
  | some (.list l) => l.filter (· ≠ [])

theorem texts_cellsOf_none (idx n : Nat) : texts (cellsOf none idx n) = [] := by
  induction n with
  | zero => rfl
  | succ n ih =>
      rw [cellsOf, texts, List.map_cons, Option.getD_none, List.filter_cons_of_neg (by simp)]
      exact ih

theorem texts_cellsOf_list {l : List Str} {idx n : Nat} (h : l.length ≤ idx + n) :
    texts (cellsOf (some (.list l)) idx n) = (l.drop idx).filter (· ≠ []) := by
  induction n generalizing idx with
  | zero => rw [List.drop_eq_nil_of_le (by omega)]; rfl
  | succ n ih =>
      have hrest := @ih (idx + 1) (by omega)
      by_cases hidx : idx < l.length
      · rw [List.drop_eq_getElem_cons hidx, cellsOf, List.getElem?_eq_getElem hidx]
        rw [texts, List.map_cons, Option.getD_some, List.filter_cons, List.filter_cons, ← hrest]
        rfl
      · rw [cellsOf, List.getElem?_eq_none (by omega), texts, List.map_cons, Option.getD_none,
          List.filter_cons_of_neg (by simp), List.drop_eq_nil_of_le (by omega)]
        rw [List.drop_eq_nil_of_le (by omega)] at hrest
        exact hrest

-- The columns that a value needs.
def Value.columns : Value → Nat
  | .str _ => 1
  | .list l => l.length

theorem texts_cellsOf {value : Option Value} {n : Nat} (h : ∀ v ∈ value, v.columns ≤ n) :
    texts (cellsOf value 0 n) = Value.texts value := by
  cases value with
  | none => exact texts_cellsOf_none 0 n
  | some v =>
      have hn := h v rfl
      cases v with
      | str s =>
          obtain ⟨m, rfl⟩ : ∃ m, n = m + 1 := ⟨n - 1, by simp only [Value.columns] at hn; omega⟩
          rw [cellsOf, texts, List.map_cons, Option.getD_some, Value.texts, List.filter_cons,
            List.filter_cons]
          have hrest := texts_cellsOf_none 0 m
          rw [texts] at hrest
          rw [hrest, List.filter_nil]
      | list l =>
          rw [texts_cellsOf_list (by simpa [Value.columns] using hn), List.drop_zero]
          rfl

-- Reading of a row.

theorem get?_setItem (values : Dict Str (List Str)) (key value k : Str) :
    Dict.get? (setItem values key value) k =
      if key = k ∧ value ≠ [] then some ((Dict.get? values k).getD [] ++ [value])
      else Dict.get? values k := by
  by_cases hvalue : value = []
  · simp [setItem, hvalue]
  · rw [setItem, if_neg hvalue, Dict.get?_set]
    by_cases hk : key = k
    · simp [hk, hvalue]
    · simp [hk]

theorem get?_foldl_setItem (header row : List Str) (values : Dict Str (List Str)) (k : Str) :
    Dict.get? ((header.zip row).foldl (fun values cell => setItem values cell.1 cell.2) values) k =
      if (cells k header row).filter (· ≠ []) = [] then Dict.get? values k
      else some ((Dict.get? values k).getD [] ++ (cells k header row).filter (· ≠ [])) := by
  induction header generalizing row values with
  | nil => simp [cells]
  | cons h header ih =>
      cases row with
      | nil => simp [cells]
      | cons c row =>
          rw [List.zip_cons_cons, List.foldl_cons, ih, get?_setItem, cells_cons]
          by_cases hk : h = k
          · by_cases hc : c = []
            · simp [hk, hc]
            · simp only [hk, hc, ne_eq, not_false_eq_true, and_self, if_true, Option.getD_some,
                List.filter_cons_of_pos, decide_true, List.cons_ne_nil, if_false]
              split_ifs with hempty
              · rw [hempty]
              · simp
          · simp [hk]

theorem cells_map {α β : Type} (f : α → β) (key : Str) (header : List Str) (row : List α) :
    cells key header (row.map f) = (cells key header row).map f := by
  induction header generalizing row with
  | nil => simp [cells]
  | cons h header ih =>
      cases row with
      | nil => simp [cells]
      | cons c row =>
          rw [List.map_cons, cells_cons, cells_cons, ih]
          split_ifs <;> rfl

-- Columns of the header.

theorem repeat_loop (key : Str) {keys : List Str} {i : Nat} (hi : i < keys.length) (m : Nat) :
    let result := (List.range m).foldl (fun keys _ => keys.insertIdx (i + 1) key) keys
    result.Perm (List.replicate m key ++ keys) ∧ result.head? = keys.head? := by
  induction m with
  | zero => exact ⟨List.Perm.refl _, rfl⟩
  | succ m ih =>
      obtain ⟨hperm, hhead⟩ := ih
      simp only [List.range_succ, List.foldl_append, List.foldl_cons, List.foldl_nil]
      have hlen : i + 1 ≤
          ((List.range m).foldl (fun keys _ => keys.insertIdx (i + 1) key) keys).length := by
        rw [hperm.length_eq]
        simp only [List.length_append]
        omega
      constructor
      · rw [List.replicate_succ, List.cons_append]
        exact (List.perm_insertIdx _ _ hlen).trans (hperm.cons key)
      · rw [← hhead]
        cases (List.range m).foldl (fun keys _ => keys.insertIdx (i + 1) key) keys with
        | nil => rfl
        | cons k keys' => rfl

-- The header has the columns that the counts ask for, after the same first one.
structure Extends (keys keys' : List Str) (counts : Dict Str Nat) : Prop where
  head : keys'.head? = keys.head?
  count_le : ∀ k, keys.count k ≤ keys'.count k
  enough : ∀ item ∈ counts, item.2 ≤ keys'.count item.1
  subset : ∀ k ∈ keys', k ∈ keys

theorem exists_repeatKey {keys : List Str} {key : Str} (h : key ∈ keys) (n : Nat) :
    ∃ keys', repeatKey keys key n = some keys' ∧ Extends keys keys' [(key, n)] := by
  obtain ⟨i, hidx⟩ := Option.isSome_iff_exists.mp (List.isSome_idxOf?.mpr h)
  obtain ⟨hi, -⟩ := List.idxOf?_eq_some_iff.mp hidx
  obtain ⟨hperm, hhead⟩ := repeat_loop key hi (n - 1)
  have hcount : ∀ k, _ = _ := fun k => hperm.count_eq k
  simp only [List.count_append] at hcount
  refine ⟨_, by rw [repeatKey, hidx, Option.map_some], hhead, ?_, ?_, ?_⟩
  · intro k
    rw [hcount k]
    omega
  · intro item hitem
    obtain rfl := List.mem_singleton.mp hitem
    have hpos : 0 < keys.count key := List.count_pos_iff.mpr h
    rw [hcount key, List.count_replicate_self]
    omega
  · intro k hk
    rcases List.mem_append.mp (hperm.mem_iff.mp hk) with hk | hk
    · exact (List.eq_of_mem_replicate hk).symm ▸ h
    · exact hk

theorem exists_foldlM_repeatKey {counts : Dict Str Nat} {keys : List Str}
    (h : ∀ item ∈ counts, item.1 ∈ keys) :
    ∃ keys', counts.foldlM (fun keys item => repeatKey keys item.1 item.2) keys = some keys' ∧
      Extends keys keys' counts := by
  induction counts generalizing keys with
  | nil => exact ⟨keys, rfl, rfl, fun k => le_rfl, by simp, fun k hk => hk⟩
  | cons item counts ih =>
      obtain ⟨keys₁, hrepeat, hext⟩ := exists_repeatKey (h item List.mem_cons_self) item.2
      have hmem : ∀ item ∈ counts, item.1 ∈ keys₁ := by
        intro item' hitem'
        have hpos := List.count_pos_iff.mpr (h item' (List.mem_cons_of_mem item hitem'))
        exact List.count_pos_iff.mp (hpos.trans_le (hext.count_le item'.1))
      obtain ⟨keys₂, hfold, hext'⟩ := ih hmem
      refine ⟨keys₂, ?_, hext'.head.trans hext.head,
        fun k => (hext.count_le k).trans (hext'.count_le k), ?_,
        fun k hk => hext.subset k (hext'.subset k hk)⟩
      · rw [List.foldlM_cons, hrepeat]
        exact hfold
      · intro item' hitem'
        rcases List.mem_cons.mp hitem' with rfl | hitem'
        · exact (hext.enough item' (List.mem_singleton_self item')).trans (hext'.count_le item'.1)
        · exact hext'.enough item' hitem'

-- The counts know of a list of this length under the key.
def Covers (counts : Dict Str Nat) (key : Str) (n : Nat) : Prop :=
  ∃ m, Dict.get? counts key = some m ∧ n ≤ m

theorem covers_countKey {counts : Dict Str Nat} {key : Str} {n : Nat} (h : Covers counts key n)
    (k : Str) (v : Value) : Covers (countKey counts k v) key n := by
  obtain ⟨m, hm, hle⟩ := h
  cases v with
  | str s => exact ⟨m, hm, hle⟩
  | list l =>
      by_cases hk : k = key
      · subst hk
        simp only [countKey, hm]
        split_ifs with hlt
        · exact ⟨l.length, by rw [Dict.get?_set, if_pos rfl], by omega⟩
        · exact ⟨m, hm, hle⟩
      · have hsame : Dict.get? (countKey counts k (.list l)) key = Dict.get? counts key := by
          simp only [countKey]
          split
          · rw [Dict.get?_set, if_neg hk]
          · split_ifs
            · rw [Dict.get?_set, if_neg hk]
            · rfl
        exact ⟨m, hsame.trans hm, hle⟩

theorem covers_countKey_self (counts : Dict Str Nat) (key : Str) (l : List Str) :
    Covers (countKey counts key (.list l)) key l.length := by
  simp only [countKey]
  split
  · exact ⟨l.length, by rw [Dict.get?_set, if_pos rfl], le_rfl⟩
  · next m hm =>
      split_ifs with hlt
      · exact ⟨l.length, by rw [Dict.get?_set, if_pos rfl], le_rfl⟩
      · exact ⟨m, hm, by omega⟩

theorem covers_foldl {items : List (Str × Value)} {counts : Dict Str Nat} {key : Str} {n : Nat}
    (h : Covers counts key n) :
    Covers (items.foldl (fun count item => countKey count item.1 item.2) counts) key n := by
  induction items generalizing counts with
  | nil => exact h
  | cons item items ih => exact ih (covers_countKey h item.1 item.2)

theorem covers_foldl_of_mem {items : List (Str × Value)} {counts : Dict Str Nat} {key : Str}
    {l : List Str} (h : (key, .list l) ∈ items) :
    Covers (items.foldl (fun count item => countKey count item.1 item.2) counts) key l.length := by
  obtain ⟨front, back, rfl⟩ := List.append_of_mem h
  rw [List.foldl_append, List.foldl_cons]
  exact covers_foldl (covers_countKey_self _ key l)

theorem occurrences_eq (objects : List Object) : occurrences objects =
    objects.flatten.foldl (fun count item => countKey count item.1 item.2) [] := by
  rw [List.foldl_flatten]
  rfl

theorem mem_keys_countKey {counts : Dict Str Nat} {key k : Str} {v : Value}
    (h : key ∈ (countKey counts k v).map Prod.fst) : key = k ∨ key ∈ counts.map Prod.fst := by
  by_contra hno
  rw [not_or] at hno
  have hnone := Dict.get?_eq_none_iff.mpr hno.2
  refine Dict.get?_eq_none_iff.mp ?_ h
  cases v with
  | str s => exact hnone
  | list l =>
      simp only [countKey]
      split
      · rwa [Dict.get?_set, if_neg (Ne.symm hno.1)]
      · split_ifs
        · rwa [Dict.get?_set, if_neg (Ne.symm hno.1)]
        · exact hnone

theorem mem_keys_foldl {items : List (Str × Value)} {counts : Dict Str Nat} {key : Str}
    (h : key ∈ (items.foldl (fun count item => countKey count item.1 item.2) counts).map Prod.fst) :
    key ∈ items.map Prod.fst ∨ key ∈ counts.map Prod.fst := by
  induction items generalizing counts with
  | nil => exact Or.inr h
  | cons item items ih =>
      rw [List.map_cons, List.mem_cons]
      rcases ih h with h | h
      · exact Or.inl (Or.inr h)
      · rcases mem_keys_countKey h with h | h
        · exact Or.inl (Or.inl h)
        · exact Or.inr h

theorem mem_sortedKeys {objects : List Object} {key : Str} :
    key ∈ sortedKeys objects ↔ ∃ o ∈ objects, key ∈ o.map Prod.fst := by
  rw [sortedKeys, (List.perm_insertionSort _ _).mem_iff, List.mem_dedup, List.mem_flatMap]

theorem leading_perm (keys : List Str) : (leading keys).Perm keys := by
  unfold leading
  split_ifs with hname hparts
  · exact (List.perm_cons_erase hname).symm
  · exact (List.perm_cons_erase hparts).symm
  · exact List.Perm.refl keys

theorem head?_leading {keys : List Str} (h : filename ∈ keys) :
    (leading keys).head? = some filename := by
  rw [leading, if_pos h]
  rfl

-- Every value of every object has its columns, after the one of the file names.
theorem exists_fetchKeys {objects : List Object} (hne : objects ≠ [])
    (hname : ∀ o ∈ objects, filename ∈ o.map Prod.fst) :
    ∃ rest, fetchKeys objects = some (filename :: rest) ∧
      (∀ key ∈ rest, ∃ o ∈ objects, key ∈ o.map Prod.fst) ∧
      ∀ o ∈ objects, ∀ key v, key ≠ filename → Dict.get? o key = some v →
        v.columns ≤ rest.count key := by
  have hmem : ∀ key, key ∈ leading (sortedKeys objects) ↔ ∃ o ∈ objects, key ∈ o.map Prod.fst :=
    fun key => (leading_perm _).mem_iff.trans mem_sortedKeys
  have hcounted : ∀ item ∈ occurrences objects, item.1 ∈ leading (sortedKeys objects) := by
    intro item hitem
    have hkey := List.mem_map_of_mem (f := Prod.fst) hitem
    rw [occurrences_eq] at hkey
    rcases mem_keys_foldl hkey with hkey | hkey
    · obtain ⟨pair, hpair, heq⟩ := List.mem_map.mp hkey
      obtain ⟨o, ho, hin⟩ := List.mem_flatten.mp hpair
      exact (hmem item.1).mpr ⟨o, ho, heq ▸ List.mem_map_of_mem hin⟩
    · cases hkey
  obtain ⟨keys, hfold, hext⟩ := exists_foldlM_repeatKey hcounted
  obtain ⟨o₀, ho₀⟩ := List.exists_mem_of_ne_nil objects hne
  have hhead : keys.head? = some filename := by
    rw [hext.head]
    exact head?_leading (mem_sortedKeys.mpr ⟨o₀, ho₀, hname o₀ ho₀⟩)
  obtain ⟨rest, rfl⟩ : ∃ rest, keys = filename :: rest := List.head?_eq_some_iff.mp hhead
  refine ⟨rest, hfold, fun key hkey => ?_, fun o ho key v hkey hv => ?_⟩
  · exact (hmem key).mp (hext.subset key (List.mem_cons_of_mem filename hkey))
  · have hcount : (filename :: rest).count key = rest.count key := List.count_cons_of_ne (Ne.symm hkey)
    rw [← hcount]
    have hin := Dict.mem_of_get? hv
    cases v with
    | str s =>
        have hpos := List.count_pos_iff.mpr ((hmem key).mpr ⟨o, ho, List.mem_map_of_mem hin⟩)
        exact hpos.trans_le (hext.count_le key)
    | list l =>
        obtain ⟨m, hm, hle⟩ : Covers (occurrences objects) key l.length := by
          rw [occurrences_eq]
          exact covers_foldl_of_mem (List.mem_flatten.mpr ⟨o, ho, hin⟩)
        exact hle.trans (hext.enough _ (Dict.mem_of_get? hm))

-- An object of the metadata, for the file or the directory of that name.
structure Entry where
  name : Str
  object : Object
  get?_filename : Dict.get? object filename = some (.str name)
  no_slash : name.getLast? ≠ some '/'
  stripped : ∀ item ∈ object, strip item.1 = item.1

theorem rstripSlash_of_no_slash {name : Str} (h : name.getLast? ≠ some '/') :
    rstripSlash name = name := by
  rw [← List.head?_reverse] at h
  cases hrev : name.reverse with
  | nil => rw [rstripSlash, hrev, List.dropWhile_nil, ← hrev, List.reverse_reverse]
  | cons c rev =>
      have hc : c ≠ '/' := by
        rintro rfl
        exact h (by rw [hrev]; rfl)
      rw [rstripSlash, hrev, List.dropWhile_cons_of_neg (by simpa using hc), ← hrev,
        List.reverse_reverse]

def Entry.texts (e : Entry) (key : Str) : List Str :=
  if key = filename then [] else Value.texts (Dict.get? e.object key)

-- The row of an object, as the reader takes it apart.
theorem rowValues_objectToRow {rest : List Str} (e : Entry)
    (hcolumns : ∀ key v, key ≠ filename → Dict.get? e.object key = some v →
      v.columns ≤ rest.count key) :
    ∃ row, (objectToRow e.object [] (filename :: rest)).map (·.getD []) = e.name :: row ∧
      ∀ key, Dict.get? (rowValues rest row) key =
        if e.texts key = [] then none else some (e.texts key) := by
  refine ⟨(objectToRow (Dict.erase e.object filename) [] rest).map (·.getD []), ?_, fun key => ?_⟩
  · simp only [objectToRow, e.get?_filename, List.map_cons, Option.getD_some]
  · have htexts : (cells key rest ((objectToRow (Dict.erase e.object filename) [] rest).map
        (·.getD []))).filter (· ≠ []) = e.texts key := by
      rw [cells_map, cells_objectToRow, Dict.get?_erase, Entry.texts]
      by_cases hkey : key = filename
      · rw [if_pos hkey.symm, if_pos hkey]
        exact texts_cellsOf_none _ _
      · rw [if_neg (Ne.symm hkey), if_neg hkey]
        exact texts_cellsOf fun v hv => hcolumns key v hkey hv
    rw [rowValues, get?_foldl_setItem, htexts]
    simp

-- The file read back has one entry for each object, with its texts under its keys.
theorem parseMetadataCSV_toCSV (entries : List Entry) (h : (entries.map Entry.name).Nodup) :
    ∃ metadata, (toCSV (entries.map Entry.object)).bind parseMetadataCSV = some metadata ∧
      metadata.map Prod.fst = entries.map Entry.name ∧
      ∀ e ∈ entries, ∃ values, Dict.get? metadata e.name = some values ∧
        ∀ key, Dict.get? values key = if e.texts key = [] then none else some (e.texts key) := by
  by_cases hne : entries = []
  · subst hne
    exact ⟨[], rfl, rfl, by simp⟩
  have hname : ∀ o ∈ entries.map Entry.object, filename ∈ o.map Prod.fst := by
    intro o ho
    obtain ⟨e, -, rfl⟩ := List.mem_map.mp ho
    exact List.mem_map_of_mem (Dict.mem_of_get? e.get?_filename)
  obtain ⟨rest, hkeys, hrest, hcolumns⟩ := exists_fetchKeys (by simpa using hne) hname
  have hstrip : rest.map strip = rest := by
    refine (List.map_congr_left fun key hkey => ?_).trans (List.map_id rest)
    obtain ⟨o, ho, hin⟩ := hrest key hkey
    obtain ⟨e, -, rfl⟩ := List.mem_map.mp ho
    obtain ⟨item, hitem, rfl⟩ := List.mem_map.mp hin
    exact e.stripped item hitem
  let values := fun e : Entry =>
    rowValues rest (((objectToRow e.object [] (filename :: rest)).map (·.getD [])).drop 1)
  have hrow : ∀ e ∈ entries, ∀ metadata,
      readRow rest metadata ((objectToRow e.object [] (filename :: rest)).map (·.getD [])) =
        Dict.set metadata e.name (values e) ∧
      ∀ key, Dict.get? (values e) key = if e.texts key = [] then none else some (e.texts key) := by
    intro e he metadata
    obtain ⟨row, heq, hget⟩ := rowValues_objectToRow e (hcolumns e.object (List.mem_map_of_mem he))
    refine ⟨?_, ?_⟩
    · simp only [values, heq, readRow, rstripSlash_of_no_slash e.no_slash, List.drop_one,
        List.tail_cons]
    · simpa only [values, heq, List.drop_one, List.tail_cons] using hget
  have hfold : (entries.map fun e => (objectToRow e.object [] (filename :: rest)).map (·.getD [])).foldl
      (readRow rest) [] = entries.map fun e => (e.name, values e) := by
    rw [List.foldl_map, List.foldl_ext _ _ _ fun metadata e he => (hrow e he metadata).1,
      Dict.foldl_set_eq_append Entry.name values h (by simp), List.nil_append]
  refine ⟨entries.map fun e => (e.name, values e), ?_, by simp, fun e he => ?_⟩
  · rw [toCSV, hkeys, Option.map_some, Option.bind_some, parseMetadataCSV, List.drop_one,
      List.tail_cons, hstrip, List.map_map]
    exact congrArg some hfold
  · refine ⟨values e, (Dict.get?_eq_some_iff ?_).mpr (List.mem_map_of_mem he), (hrow e he []).2⟩
    rw [List.map_map]
    exact h

def photo : Entry where
  name := "objects/foo.jpg".toList
  object := [(filename, .str "objects/foo.jpg".toList),
    ("dc.type".toList, .list ["Photograph".toList, [], "Still Image".toList])]
  get?_filename := rfl
  no_slash := by decide
  stripped := by decide

def album : Entry where
  name := "objects/bar".toList
  object := [("dc.type".toList, .str "Album".toList), (filename, .str "objects/bar".toList)]
  get?_filename := rfl
  no_slash := by decide
  stripped := by decide

theorem parseMetadataCSV_toCSV_photo :
    ∃ metadata, (toCSV [photo.object, album.object]).bind parseMetadataCSV = some metadata ∧
      ∃ values, Dict.get? metadata "objects/foo.jpg".toList = some values ∧
        Dict.get? values "dc.type".toList = some ["Photograph".toList, "Still Image".toList] := by
  obtain ⟨metadata, hparse, -, hvalues⟩ := parseMetadataCSV_toCSV [photo, album] (by decide)
  obtain ⟨values, hget, htexts⟩ := hvalues photo List.mem_cons_self
  exact ⟨metadata, hparse, values, hget, htexts "dc.type".toList⟩

end MetadataCSV

end Ccp.Worker
