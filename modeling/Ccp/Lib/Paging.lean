import Mathlib.Data.List.Nodup
import Mathlib.Data.List.Perm.Subperm
import Mathlib.Data.List.Range
import Mathlib.Tactic.Ring.RingNF

namespace Ccp.Lib.Paging

-- A result set that is read page by page: every query has an order of its own, takes as many
-- rows as a page has from the offset on, and the first page without a row is the last.

variable {α β ε : Type}

def collect (size : ℕ) (scan : α → Except ε β) (order : ℕ → List α) :
    (fuel k offset : ℕ) → List β → Option (Except ε (List β))
  | 0, _, _, _ => none
  | fuel + 1, k, offset, ret =>
      match (((order k).drop offset).take size).mapM scan with
      | .error err => some (.error err)
      | .ok [] => some (.ok ret)
      | .ok (b :: page) =>
          collect size scan order fuel (k + 1) (offset + (b :: page).length) (ret ++ b :: page)

-- The page of a query, as far as the pages before it were full.
def window (size : ℕ) (order : ℕ → List α) (k : ℕ) : List α := ((order k).drop (k * size)).take size

-- No row has a place in the pages of two queries.
def Apart (size : ℕ) (order : ℕ → List α) : Prop :=
  ∀ i j, i / size ≠ j / size → ∀ r, (order (i / size))[i]? = some r → (order (j / size))[j]? ≠ some r

-- More fuel makes no difference to a loop that has stopped.
theorem collect_of_le {size : ℕ} {scan : α → Except ε β} {order : ℕ → List α} {fuel fuel' k offset : ℕ}
    {ret : List β} {answer : Except ε (List β)} (hle : fuel ≤ fuel')
    (h : collect size scan order fuel k offset ret = some answer) :
    collect size scan order fuel' k offset ret = some answer := by
  induction fuel generalizing fuel' k offset ret with
  | zero => cases h
  | succ fuel ih =>
      cases fuel' with
      | zero => exact absurd hle (Nat.not_succ_le_zero fuel)
      | succ fuel' =>
          rw [collect] at h ⊢
          cases hpage : (((order k).drop offset).take size).mapM scan with
          | error err =>
              rw [hpage] at h
              exact h
          | ok page =>
              rw [hpage] at h
              cases page with
              | nil => exact h
              | cons b page => exact ih (Nat.le_of_succ_le_succ hle) h

theorem mapM_ok_iff {scan : α → Except ε β} {rows : List α} {files : List β} :
    rows.mapM scan = .ok files ↔ files.map Except.ok = rows.map scan := by
  induction rows generalizing files with
  | nil =>
      rw [List.mapM_nil, List.map_nil, List.map_eq_nil_iff]
      constructor
      · intro h
        exact (Except.ok.inj h).symm
      · rintro rfl
        rfl
  | cons r rows ih =>
      rw [List.mapM_cons, List.map_cons]
      cases hr : scan r with
      | error err =>
          constructor
          · intro h
            cases h
          · intro h
            cases files with
            | nil => cases h
            | cons f files => cases (List.cons.inj h).1
      | ok f =>
          cases hrows : rows.mapM scan with
          | error err =>
              constructor
              · intro h
                cases h
              · intro h
                cases files with
                | nil => cases h
                | cons f files =>
                    rw [ih.mpr (List.cons.inj h).2] at hrows
                    cases hrows
          | ok rest =>
              have hrest := ih.mp hrows
              constructor
              · intro h
                obtain rfl : f :: rest = files := Except.ok.inj h
                rw [List.map_cons, hrest]
              · intro h
                cases files with
                | nil => cases h
                | cons f' files =>
                    obtain ⟨hf, hfiles⟩ := List.cons.inj h
                    rw [ih.mpr hfiles] at hrows
                    cases hf
                    cases hrows
                    rfl

section Order

variable {size : ℕ} {rows : List α} {order : ℕ → List α}

theorem length_window (horder : ∀ k, (order k).Perm rows) (k : ℕ) :
    (window size order k).length = min size (rows.length - k * size) := by
  rw [window, List.length_take, List.length_drop, (horder k).length_eq]

theorem window_eq_nil_of_le (horder : ∀ k, (order k).Perm rows) {k : ℕ}
    (h : rows.length ≤ k * size) : window size order k = [] := by
  apply List.eq_nil_of_length_eq_zero
  rw [length_window horder, Nat.sub_eq_zero_of_le h, Nat.min_zero]

theorem mem_window_iff {k : ℕ} {r : α} (hsize : 0 < size) :
    r ∈ window size order k ↔ ∃ i, i / size = k ∧ (order k)[i]? = some r := by
  rw [window, List.mem_iff_getElem?]
  constructor
  · rintro ⟨i, hi⟩
    rw [List.getElem?_take] at hi
    split_ifs at hi with hlt
    rw [List.getElem?_drop] at hi
    exact ⟨k * size + i, by rw [Nat.mul_comm, Nat.mul_add_div hsize, Nat.div_eq_of_lt hlt, Nat.add_zero], hi⟩
  · rintro ⟨i, rfl, hi⟩
    refine ⟨i % size, ?_⟩
    rw [List.getElem?_take, if_pos (Nat.mod_lt i hsize), List.getElem?_drop, Nat.mul_comm,
      Nat.div_add_mod]
    exact hi

-- The pages that are not empty make as many rows as the result set has.
theorem length_windows (horder : ∀ k, (order k).Perm rows) (hsize : 0 < size) (fuel k : ℕ)
    (hfuel : rows.length ≤ k * size + fuel) :
    ((List.range' k fuel).flatMap (window size order)).length = rows.length - k * size := by
  induction fuel generalizing k with
  | zero => simp only [List.range'_zero, List.flatMap_nil, List.length_nil]; omega
  | succ fuel ih =>
      have hnext : rows.length ≤ (k + 1) * size + fuel := by
        rw [Nat.succ_mul]
        omega
      rw [List.range'_succ, List.flatMap_cons, List.length_append, ih (k + 1) hnext,
        length_window horder, Nat.succ_mul]
      omega

theorem windows_subset (horder : ∀ k, (order k).Perm rows) (ks : List ℕ) :
    ks.flatMap (window size order) ⊆ rows := by
  intro r hr
  obtain ⟨k, -, hk⟩ := List.mem_flatMap.mp hr
  exact (horder k).mem_iff.mp (List.drop_subset _ _ (List.take_subset _ _ hk))

theorem windows_eq_nil (horder : ∀ k, (order k).Perm rows) {k : ℕ} (h : rows.length ≤ k * size)
    (n : ℕ) : (List.range' k n).flatMap (window size order) = [] := by
  rw [List.flatMap_eq_nil_iff]
  intro j hj
  apply window_eq_nil_of_le horder
  exact h.trans (Nat.mul_le_mul_right size (List.mem_range'_1.mp hj).1)

-- The loop stops, with the pages one after the other.
theorem collect_eq (horder : ∀ k, (order k).Perm rows) (scan : α → Except ε β) (hsize : 0 < size)
    (fuel k : ℕ) (ret : List β) (hfuel : rows.length < min (k * size) rows.length + fuel) :
    collect size scan order fuel k (min (k * size) rows.length) ret =
      some ((((List.range' k fuel).flatMap (window size order)).mapM scan).map (ret ++ ·)) := by
  induction fuel generalizing k ret with
  | zero => omega
  | succ fuel ih =>
      have hpage : ((order k).drop (min (k * size) rows.length)).take size = window size order k := by
        rw [window]
        cases Nat.le_total (k * size) rows.length with
        | inl hle => rw [Nat.min_eq_left hle]
        | inr hle =>
            rw [Nat.min_eq_right hle, List.drop_eq_nil_of_le (horder k).length_eq.le,
              List.drop_eq_nil_of_le ((horder k).length_eq.le.trans hle)]
      rw [collect, hpage]
      cases hread : (window size order k).mapM scan with
      | error err =>
          rw [List.range'_succ, List.flatMap_cons, List.mapM_append, hread]
          rfl
      | ok files =>
          have hlength := congrArg List.length (mapM_ok_iff.mp hread)
          rw [List.length_map, List.length_map, length_window horder] at hlength
          cases files with
          | nil =>
              have hdone : rows.length ≤ k * size := by
                rw [List.length_nil] at hlength
                omega
              rw [windows_eq_nil horder hdone]
              change some (Except.ok ret) = some (Except.ok (ret ++ []))
              rw [List.append_nil]
          | cons b page =>
              -- the rows before the next page are those of the full pages, or all of them
              have hoffset : min (k * size) rows.length + (b :: page).length =
                  min ((k + 1) * size) rows.length := by
                rw [Nat.succ_mul, hlength]
                omega
              have hmore : 0 < (b :: page).length := Nat.succ_pos _
              change collect size scan order fuel (k + 1)
                (min (k * size) rows.length + (b :: page).length) (ret ++ b :: page) = _
              rw [hoffset, ih (k + 1) (ret ++ b :: page) (by omega), List.range'_succ,
                List.flatMap_cons, List.mapM_append, hread]
              cases ((List.range' (k + 1) fuel).flatMap (window size order)).mapM scan with
              | error err => rfl
              | ok rest =>
                  change some (Except.ok ((ret ++ b :: page) ++ rest)) =
                    some (Except.ok (ret ++ (b :: page ++ rest)))
                  rw [List.append_assoc]

-- All the pages of enough queries.
def pages (size : ℕ) (order : ℕ → List α) (n : ℕ) : List α :=
  (List.range' 0 n).flatMap (window size order)

theorem length_pages (horder : ∀ k, (order k).Perm rows) (hsize : 0 < size) {n : ℕ}
    (hn : rows.length ≤ n) : (pages size order n).length = rows.length := by
  rw [pages, length_windows horder hsize n 0 (by omega), Nat.zero_mul, Nat.sub_zero]

theorem nodup_pages_iff (hrows : rows.Nodup) (horder : ∀ k, (order k).Perm rows) (hsize : 0 < size)
    {n : ℕ} (hn : rows.length ≤ n) : (pages size order n).Nodup ↔ Apart size order := by
  have hwindow : ∀ k, (window size order k).Nodup := fun k =>
    (((horder k).nodup_iff.mpr hrows).sublist (List.drop_sublist _ _)).sublist (List.take_sublist _ _)
  rw [pages, List.nodup_flatMap]
  constructor
  · rintro ⟨-, hdisjoint⟩ i j hne r hi hj
    have hlt : ∀ {i : ℕ}, (order (i / size))[i]? = some r → i / size ∈ List.range' 0 n := by
      intro i hi
      have hlen := (List.getElem?_eq_some_iff.mp hi).1
      rw [(horder _).length_eq] at hlen
      have := Nat.div_le_self i size
      exact List.mem_range'_1.mpr ⟨Nat.zero_le _, by omega⟩
    have hsymm : Std.Symm (Function.onFun List.Disjoint (window size order)) :=
      ⟨fun _ _ h _ hl hk => h hk hl⟩
    have h := hdisjoint.forall (hlt hi) (hlt hj) hne
    exact h ((mem_window_iff hsize).mpr ⟨i, rfl, hi⟩) ((mem_window_iff hsize).mpr ⟨j, rfl, hj⟩)
  · intro hapart
    refine ⟨fun k _ => hwindow k, ?_⟩
    apply List.Pairwise.imp_of_mem _ (List.nodup_range' (s := 0) (n := n))
    intro k l _ _ hne r hk hl
    obtain ⟨i, rfl, hi⟩ := (mem_window_iff hsize).mp hk
    obtain ⟨j, rfl, hj⟩ := (mem_window_iff hsize).mp hl
    exact hapart i j hne r hi hj

theorem collect_eq_pages (horder : ∀ k, (order k).Perm rows) (scan : α → Except ε β)
    (hsize : 0 < size) {fuel : ℕ} (hfuel : rows.length < fuel) :
    collect size scan order fuel 0 0 [] = some ((pages size order fuel).mapM scan) := by
  have h := collect_eq horder scan hsize fuel 0 [] (by omega)
  rw [Nat.zero_mul, Nat.zero_min] at h
  rw [h, pages]
  cases ((List.range' 0 fuel).flatMap (window size order)).mapM scan <;> rfl

theorem pages_perm (hrows : rows.Nodup) (horder : ∀ k, (order k).Perm rows) (hsize : 0 < size)
    {n : ℕ} (hn : rows.length ≤ n) (hapart : Apart size order) : (pages size order n).Perm rows := by
  have hnodup := (nodup_pages_iff hrows horder hsize hn).mpr hapart
  apply (hnodup.subperm (windows_subset horder _)).perm_of_length_le
  rw [length_pages horder hsize hn]

theorem pages_of_le (horder : ∀ k, (order k).Perm rows) {m n : ℕ} (hm : rows.length ≤ m * size) (hle : m ≤ n) :
    pages size order n = pages size order m := by
  obtain ⟨d, rfl⟩ := Nat.exists_eq_add_of_le hle
  have hrange : List.range' 0 (m + d) = List.range' 0 m ++ List.range' m d := by
    rw [← List.range'_append_1, Nat.zero_add]
  rw [pages, hrange, List.flatMap_append, windows_eq_nil horder hm, List.append_nil]
  rfl

-- The queries are answered in one order.
theorem apart_const (hrows : rows.Nodup) : Apart size fun _ => rows := by
  intro i j hne r hi hj
  have hlt := (List.getElem?_eq_some_iff.mp hi).1
  exact hne (congrArg (· / size) ((List.getElem?_inj hlt hrows).mp (hi.trans hj.symm)))

-- Every row comes once where all of them can be read and no row is in two pages.
theorem collect_perm_iff {scan : α → Except ε β} (hrows : rows.Nodup)
    (hscan : ∀ r ∈ rows, ∀ s ∈ rows, ∀ b, scan r = .ok b → scan s = .ok b → r = s)
    (horder : ∀ k, (order k).Perm rows) (hsize : 0 < size) {fuel : ℕ} (hfuel : rows.length < fuel) :
    (∃ files : List β, collect size scan order fuel 0 0 [] = some (.ok files) ∧
        (files.map Except.ok).Perm (rows.map scan)) ↔
      (∀ r ∈ rows, ∃ b, scan r = .ok b) ∧ Apart size order := by
  rw [collect_eq_pages horder scan hsize hfuel]
  constructor
  · rintro ⟨files, hrun, hperm⟩
    have hread : ∀ r ∈ rows, ∃ b, scan r = .ok b := by
      intro r hr
      obtain ⟨b, -, hb⟩ := List.mem_map.mp (hperm.mem_iff.mpr (List.mem_map_of_mem hr))
      exact ⟨b, hb.symm⟩
    have hdistinct : (rows.map scan).Nodup := by
      apply List.Nodup.map_on _ hrows
      intro r hr s hs heq
      obtain ⟨b, hb⟩ := hread r hr
      exact hscan r hr s hs b hb (heq ▸ hb)
    rw [mapM_ok_iff.mp (Option.some.inj hrun)] at hperm
    have hnodup := List.Nodup.of_map scan (hperm.nodup_iff.mpr hdistinct)
    exact ⟨hread, (nodup_pages_iff hrows horder hsize hfuel.le).mp hnodup⟩
  · rintro ⟨hread, hapart⟩
    have hperm := pages_perm hrows horder hsize hfuel.le hapart
    have hexists : ∀ ps : List α, (∀ r ∈ ps, ∃ f, scan r = .ok f) →
        ∃ files : List β, files.map Except.ok = ps.map scan := by
      intro ps hps
      induction ps with
      | nil => exact ⟨[], rfl⟩
      | cons r ps ih =>
          obtain ⟨f, hf⟩ := hps r List.mem_cons_self
          obtain ⟨files, hfiles⟩ := ih fun r hr => hps r (List.mem_cons_of_mem _ hr)
          exact ⟨f :: files, by rw [List.map_cons, List.map_cons, hf, hfiles]⟩
    obtain ⟨files, hfiles⟩ := hexists _ fun r hr => hread r (hperm.mem_iff.mp hr)
    exact ⟨files, congrArg some (mapM_ok_iff.mpr hfiles), hfiles ▸ hperm.map scan⟩

end Order

end Ccp.Lib.Paging
