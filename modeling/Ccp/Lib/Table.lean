import Mathlib.Data.List.Nodup

namespace Ccp.Lib

-- A table as its rows, and the two statements that change rows by a condition.
namespace Table

variable {α : Type*} (p : α → Prop) [DecidablePred p] (f : α → α)

def updateWhere (rows : List α) : List α := rows.map fun r => if p r then f r else r

def deleteWhere (rows : List α) : List α := rows.filter fun r => ¬ p r

variable {p f} {rows : List α}

theorem mem_deleteWhere {r : α} : r ∈ deleteWhere p rows ↔ r ∈ rows ∧ ¬ p r := by
  simp [deleteWhere]

theorem mem_updateWhere {r : α} :
    r ∈ updateWhere p f rows ↔ ∃ r₀ ∈ rows, r = if p r₀ then f r₀ else r₀ := by
  simp only [updateWhere, List.mem_map, eq_comm]

theorem updateWhere_of_none (h : ∀ r ∈ rows, ¬ p r) : updateWhere p f rows = rows := by
  rw [updateWhere]
  conv_rhs => rw [← List.map_id rows]
  apply List.map_congr_left
  intro r hr
  rw [if_neg (h r hr)]
  rfl

theorem deleteWhere_of_none (h : ∀ r ∈ rows, ¬ p r) : deleteWhere p rows = rows := by
  rw [deleteWhere, List.filter_eq_self]
  intro r hr
  simpa using h r hr

-- An update that makes its own condition false leaves no row that meets it.
theorem not_of_mem_updateWhere (hf : ∀ r, p r → ¬ p (f r)) : ∀ r ∈ updateWhere p f rows, ¬ p r := by
  intro r hr
  obtain ⟨r₀, -, rfl⟩ := mem_updateWhere.mp hr
  split_ifs with hp
  · exact hf r₀ hp
  · exact hp

theorem not_of_mem_deleteWhere : ∀ r ∈ deleteWhere p rows, ¬ p r :=
  fun _ hr => (mem_deleteWhere.mp hr).2

theorem updateWhere_updateWhere (hf : ∀ r, p r → ¬ p (f r)) :
    updateWhere p f (updateWhere p f rows) = updateWhere p f rows :=
  updateWhere_of_none (not_of_mem_updateWhere hf)

theorem deleteWhere_deleteWhere : deleteWhere p (deleteWhere p rows) = deleteWhere p rows :=
  deleteWhere_of_none not_of_mem_deleteWhere

-- A condition that the update does not change may be asked before it.
theorem deleteWhere_updateWhere {q : α → Prop} [DecidablePred q] (hq : ∀ r, p r → (q (f r) ↔ q r)) :
    deleteWhere q (updateWhere p f rows) = updateWhere p f (deleteWhere q rows) := by
  rw [deleteWhere, updateWhere, List.filter_map, updateWhere, deleteWhere]
  congr 1
  apply List.filter_congr
  intro r _
  simp only [Function.comp_apply]
  split_ifs with hp
  · simp [hq r hp]
  · rfl

-- An update of rows that are left out, before and after it.
theorem filter_updateWhere {q : α → Prop} [DecidablePred q] (hq : ∀ r, p r → ¬ q r ∧ ¬ q (f r)) :
    (updateWhere p f rows).filter (fun r => q r) = rows.filter fun r => q r := by
  induction rows with
  | nil => rfl
  | cons r rows ih =>
      rw [updateWhere] at ih ⊢
      rw [List.map_cons]
      by_cases hp : p r
      · rw [if_pos hp, List.filter_cons_of_neg (by simp [hq r hp]),
          List.filter_cons_of_neg (by simp [hq r hp]), ih]
      · rw [if_neg hp, List.filter_cons, List.filter_cons, ih]

-- A row is found by a key that no other row has.
theorem find?_of_nodup {κ : Type*} [DecidableEq κ] {key : α → κ} (h : (rows.map key).Nodup) {r : α}
    (hr : r ∈ rows) : (rows.find? fun r' => key r' = key r) = some r := by
  cases hfind : rows.find? fun r' => key r' = key r with
  | none => exact absurd (decide_eq_true rfl) (List.find?_eq_none.mp hfind r hr)
  | some r' =>
      have hkey : key r' = key r := by simpa using List.find?_some hfind
      rw [List.inj_on_of_nodup_map h (List.mem_of_find?_eq_some hfind) hr hkey]

theorem filter_eq_singleton_iff (h : rows.Nodup) {r : α} (hr : r ∈ rows) (c : α → Bool) :
    rows.filter c = [r] ↔ ∀ r' ∈ rows, c r' = true ↔ r' = r := by
  constructor
  · intro hfilter r' hr'
    have hmem : r' ∈ rows.filter c ↔ r' ∈ [r] := by rw [hfilter]
    rwa [List.mem_filter, List.mem_singleton, and_iff_right hr'] at hmem
  · intro hone
    refine List.perm_singleton.mp ((List.perm_ext_iff_of_nodup (h.filter c)
      (List.nodup_singleton r)).mpr fun r' => ?_)
    rw [List.mem_filter, List.mem_singleton]
    exact ⟨fun hr' => (hone r' hr'.1).mp hr'.2, fun hr' => hr' ▸ ⟨hr, (hone r hr).mpr rfl⟩⟩

theorem filter_of_nodup {κ : Type*} [DecidableEq κ] {key : α → κ} (h : (rows.map key).Nodup) {r : α}
    (hr : r ∈ rows) : (rows.filter fun r' => key r' = key r) = [r] := by
  refine (filter_eq_singleton_iff h.of_map hr _).mpr fun r' hr' => ?_
  rw [decide_eq_true_eq]
  exact ⟨List.inj_on_of_nodup_map h hr' hr, congrArg key⟩

-- What is found for a condition that is meant for one row.
inductive Got (α : Type*)
  | missing
  | row (a : α)
  | several

def get : List α → Got α
  | [] => .missing
  | [a] => .row a
  | _ :: _ :: _ => .several

theorem get_eq_missing_iff : get rows = .missing ↔ rows = [] := by
  rcases rows with _ | ⟨b, _ | ⟨c, rows⟩⟩
  · simp [get]
  · simp [get]
  · simp [get]

theorem get_eq_row_iff {a : α} : get rows = .row a ↔ rows = [a] := by
  rcases rows with _ | ⟨b, _ | ⟨c, rows⟩⟩
  · simp [get]
  · simp [get]
  · simp [get]

theorem get_eq_several_iff : get rows = .several ↔ 2 ≤ rows.length := by
  rcases rows with _ | ⟨b, _ | ⟨c, rows⟩⟩
  · simp [get]
  · simp [get]
  · simp [get]

section Insert

variable {κ β : Type*} [DecidableEq κ]

-- A row with a key of its own.
def insert (key : α → κ) (rows : List α) (r : α) : Option (List α) :=
  if key r ∈ rows.map key then none else some (rows ++ [r])

variable {key : α → κ} {r : α} {rows' : List α} {g : β → Option α} {l : List β}

theorem insert_eq_some_iff :
    insert key rows r = some rows' ↔ key r ∉ rows.map key ∧ rows' = rows ++ [r] := by
  rw [insert]
  split_ifs with h
  · simp [h]
  · simp [h, eq_comm]

-- Rows that are inserted one after the other are told apart by their keys, from one another
-- and from those that were there.
theorem foldlM_insert_eq_some_iff :
    l.foldlM (fun rows b => (g b).bind (insert key rows)) rows = some rows' ↔
      ∃ news, l.mapM g = some news ∧ rows' = rows ++ news ∧ (news.map key).Nodup ∧
        ∀ r ∈ news, key r ∉ rows.map key := by
  induction l generalizing rows with
  | nil => simp [eq_comm]
  | cons b l ih =>
      rw [List.foldlM_cons, List.mapM_cons]
      cases hg : g b with
      | none => simp
      | some r =>
          simp only [Option.bind_some]
          constructor
          · intro h
            obtain ⟨rows₁, hinsert, hrest⟩ := Option.bind_eq_some_iff.mp h
            obtain ⟨hkey, rfl⟩ := insert_eq_some_iff.mp hinsert
            obtain ⟨news, hnews, rfl, hnodup, hfresh⟩ := ih.mp hrest
            refine ⟨r :: news, by rw [hnews]; rfl, by simp, ?_, ?_⟩
            · rw [List.map_cons, List.nodup_cons]
              refine ⟨fun hmem => ?_, hnodup⟩
              obtain ⟨r', hr', heq⟩ := List.mem_map.mp hmem
              exact hfresh r' hr' (by simp [heq])
            · rw [List.forall_mem_cons]
              refine ⟨hkey, fun r' hr' hmem => hfresh r' hr' ?_⟩
              rw [List.map_append]
              exact List.mem_append_left _ hmem
          · rintro ⟨news, hnews, rfl, hnodup, hfresh⟩
            obtain ⟨r', hr', hnews⟩ := Option.bind_eq_some_iff.mp hnews
            obtain rfl := Option.some.inj hr'
            obtain ⟨rest, hrest, hcons⟩ := Option.bind_eq_some_iff.mp hnews
            obtain rfl := Option.some.inj hcons
            rw [List.map_cons, List.nodup_cons] at hnodup
            rw [List.forall_mem_cons] at hfresh
            refine Option.bind_eq_some_iff.mpr ⟨rows ++ [r], insert_eq_some_iff.mpr ⟨hfresh.1, rfl⟩, ?_⟩
            refine ih.mpr ⟨rest, hrest, by simp, hnodup.2, fun r' hr' hmem => ?_⟩
            rw [List.map_append, List.mem_append] at hmem
            rcases hmem with hmem | hmem
            · exact hfresh.2 r' hr' hmem
            · have heq : key r' = key r := by simpa using hmem
              exact hnodup.1 (heq ▸ List.mem_map_of_mem hr')

end Insert

section FilterMap

variable {α γ κ : Type*} {key : α → κ} {place : γ → κ}

-- Rows at different keys give changes at different keys.
theorem nodup_filterMap {g : α → Option γ} (hg : ∀ r c, g r = some c → place c = key r)
    {rows : List α} (hnodup : (rows.map key).Nodup) : ((rows.filterMap g).map place).Nodup := by
  have hsub : ((rows.filterMap g).map place).Sublist (rows.map key) := by
    clear hnodup
    induction rows with
    | nil => exact List.Sublist.refl []
    | cons r rows ih =>
        cases hc : g r with
        | none =>
            rw [List.filterMap_cons_none hc]
            exact ih.cons (key r)
        | some c =>
            rw [List.filterMap_cons_some hc, List.map_cons, hg r c hc]
            exact ih.cons_cons (key r)
  exact hnodup.sublist hsub

end FilterMap

section Changes

variable {α γ κ : Type*} [DecidableEq κ] {key : α → κ} {place : γ → κ}

-- Changes at different keys, one after the other, are the changes of all rows at once.
theorem foldl_update {f : γ → α → α} (hkey : ∀ c r, key (f c r) = key r) {changes : List γ}
    (hnodup : (changes.map place).Nodup) (rows : List α) :
    changes.foldl (fun rows c => rows.map fun r => if key r = place c then f c r else r) rows =
      rows.map fun r => (changes.find? fun c => place c = key r).elim r fun c => f c r := by
  induction changes generalizing rows with
  | nil => exact (List.map_id rows).symm
  | cons c changes ih =>
      obtain ⟨hc, hnodup⟩ := List.nodup_cons.mp hnodup
      rw [List.foldl_cons, ih hnodup, List.map_map]
      refine List.map_congr_left fun r _ => ?_
      rw [Function.comp_apply]
      by_cases hr : key r = place c
      · have hnone : (changes.find? fun c' => place c' = key r) = none := by
          refine List.find?_eq_none.mpr fun c' hc' heq => hc ?_
          rw [← hr, ← of_decide_eq_true heq]
          exact List.mem_map_of_mem hc'
        rw [if_pos hr, hkey, hnone, List.find?_cons_of_pos (by simpa using hr.symm)]
        rfl
      · rw [if_neg hr, List.find?_cons_of_neg (by simpa using Ne.symm hr)]

-- Of the changes made for rows of a table only its own is at the key of a row.
theorem find?_filterMap_of_nodup {g : α → Option γ} (hg : ∀ r c, g r = some c → place c = key r)
    {rows : List α} (hnodup : (rows.map key).Nodup) {r : α} (hr : r ∈ rows) :
    ((rows.filterMap g).find? fun c => place c = key r) = g r := by
  induction rows with
  | nil => exact absurd hr List.not_mem_nil
  | cons r' rows ih =>
      obtain ⟨hr', hnodup⟩ := List.nodup_cons.mp hnodup
      have hother (hmem : r ∈ rows) : key r' ≠ key r := fun heq => hr' (heq ▸ List.mem_map_of_mem hmem)
      cases hc : g r' with
      | none =>
          rw [List.filterMap_cons_none hc]
          rcases List.mem_cons.mp hr with rfl | hr
          · rw [hc]
            refine List.find?_eq_none.mpr fun c hmem heq => hr' ?_
            obtain ⟨r'', hr'', hgr''⟩ := List.mem_filterMap.mp hmem
            rw [← of_decide_eq_true heq, hg r'' c hgr'']
            exact List.mem_map_of_mem hr''
          · exact ih hnodup hr
      | some c =>
          rw [List.filterMap_cons_some hc]
          rcases List.mem_cons.mp hr with rfl | hr
          · rw [List.find?_cons_of_pos (by simpa using hg r c hc), hc]
          · have hne : place c ≠ key r := by
              rw [hg r' c hc]
              exact hother hr
            rw [List.find?_cons_of_neg (by simpa using hne)]
            exact ih hnodup hr

theorem find?_filterMap_of_notMem {g : α → Option γ} (hg : ∀ r c, g r = some c → place c = key r)
    {rows : List α} {k : κ} (hk : k ∉ rows.map key) :
    ((rows.filterMap g).find? fun c => place c = k) = none := by
  refine List.find?_eq_none.mpr fun c hmem heq => hk ?_
  obtain ⟨r, hr, hgr⟩ := List.mem_filterMap.mp hmem
  rw [← of_decide_eq_true heq, hg r c hgr]
  exact List.mem_map_of_mem hr

end Changes

end Table

end Ccp.Lib
