import Mathlib.Data.List.Basic
import Mathlib.Data.List.Infix

namespace Ccp.Lib

structure Vertex (α : Type*) where
  value : α
  parent : Option ℕ

-- A forest as the list of its nodes, each with the place of its parent. A node is added at the
-- end, where it is the last of its siblings.
abbrev Forest (α : Type*) := List (Vertex α)

namespace Forest

variable {α β : Type*}

-- A node stands after its parent.
def Grounded (t : Forest α) : Prop := ∀ (i : ℕ) (n : Vertex α), t[i]? = some n → ∀ p, n.parent = some p → p < i

-- The labels on the way from a node down to another one.
inductive Chain (t : Forest α) (label : α → Option β) (top : ℕ) : List β → ℕ → Prop
  | here : Chain t label top [] top
  | step {labels : List β} {q i : ℕ} {n : Vertex α} {c : β} : Chain t label top labels q →
      t[i]? = some n → n.parent = some q → label n.value = some c →
      Chain t label top (labels ++ [c]) i

variable {t t' : Forest α} {n : Vertex α} {label : α → Option β} {top i j : ℕ} {labels labels' : List β}
  {c : β}

theorem getElem?_of_front (h : t <+: t') {m : Vertex α} (hm : t[i]? = some m) : t'[i]? = some m := by
  obtain ⟨rest, rfl⟩ := h
  rwa [List.getElem?_append_left (List.getElem?_eq_some_iff.mp hm).1]

theorem getElem?_of_lt (h : t <+: t') (hi : i < t.length) : t'[i]? = t[i]? := by
  obtain ⟨rest, rfl⟩ := h
  exact List.getElem?_append_left hi

theorem Grounded.of_front (hg : Grounded t') (h : t <+: t') : Grounded t :=
  fun i m hm => hg i m (getElem?_of_front h hm)

theorem Grounded.append (hg : Grounded t) (h : ∀ p, n.parent = some p → p < t.length) :
    Grounded (t ++ [n]) := by
  intro i m hm p hp
  rcases Nat.lt_or_ge i t.length with hi | hi
  · rw [List.getElem?_append_left hi] at hm
    exact hg i m hm p hp
  · rw [List.getElem?_append_right hi, List.getElem?_singleton] at hm
    split_ifs at hm with heq
    obtain rfl := Option.some.inj hm
    have := h p hp
    omega

theorem Chain.mono (h : t <+: t') (hc : Chain t label top labels i) : Chain t' label top labels i := by
  induction hc with
  | here => exact Chain.here
  | step _ hn hparent hlabel ih => exact Chain.step ih (getElem?_of_front h hn) hparent hlabel

theorem Chain.le (hg : Grounded t) (hc : Chain t label top labels i) : top ≤ i := by
  induction hc with
  | here => exact le_rfl
  | step _ hn hparent _ ih => exact ih.trans (hg _ _ hn _ hparent).le

-- What is added later is not on the way to an earlier node.
theorem Chain.of_mono (h : t <+: t') (hg : Grounded t') (hi : i < t.length)
    (hc : Chain t' label top labels i) : Chain t label top labels i := by
  induction hc with
  | here => exact Chain.here
  | step _ hn hparent hlabel ih =>
      have hq := hg _ _ hn _ hparent
      rw [getElem?_of_lt h hi] at hn
      exact Chain.step (ih (by omega)) hn hparent hlabel

theorem chain_concat_iff :
    Chain t label top (labels ++ [c]) i ↔ ∃ q m, Chain t label top labels q ∧ t[i]? = some m ∧
      m.parent = some q ∧ label m.value = some c := by
  constructor
  · generalize hlabels : labels ++ [c] = all
    intro hc
    cases hc with
    | here => simp at hlabels
    | step hq hn hparent hlabel =>
        obtain ⟨rfl, hlast⟩ := List.append_inj' hlabels rfl
        obtain rfl := List.singleton_inj.mp hlast
        exact ⟨_, _, hq, hn, hparent, hlabel⟩
  · rintro ⟨q, m, hq, hn, hparent, hlabel⟩
    exact Chain.step hq hn hparent hlabel

theorem Chain.unique (hg : Grounded t) (hc : Chain t label top labels i)
    (hc' : Chain t label top labels' i) : labels = labels' := by
  induction hc generalizing labels' with
  | here =>
      cases hc' with
      | here => rfl
      | step hq hn hparent _ =>
          have := hg _ _ hn _ hparent
          have := hq.le hg
          omega
  | step hq hn hparent hlabel ih =>
      cases hc' with
      | here =>
          have := hg _ _ hn _ hparent
          have := hq.le hg
          omega
      | step hq' hn' hparent' hlabel' =>
          obtain rfl := Option.some.inj (hn.symm.trans hn')
          obtain rfl := Option.some.inj (hparent.symm.trans hparent')
          obtain rfl := Option.some.inj (hlabel.symm.trans hlabel')
          rw [ih hq']

-- A node whose parent is a root.
def UnderRoot (t : Forest α) (i : ℕ) : Prop :=
  ∃ m root r, t[i]? = some m ∧ m.parent = some root ∧ t[root]? = some r ∧ r.parent = none

theorem UnderRoot.mono (h : t <+: t') (hi : UnderRoot t i) : UnderRoot t' i := by
  obtain ⟨m, root, r, hm, hparent, hr, hroot⟩ := hi
  exact ⟨m, root, r, getElem?_of_front h hm, hparent, getElem?_of_front h hr, hroot⟩

theorem Chain.parent_ne_none (htop : UnderRoot t top) (hc : Chain t label top labels i) {m : Vertex α}
    (hm : t[i]? = some m) : m.parent ≠ none := by
  cases hc with
  | here =>
      obtain ⟨m', root, -, hm', hparent, -⟩ := htop
      obtain rfl := Option.some.inj (hm.symm.trans hm')
      rw [hparent]
      exact Option.some_ne_none root
  | step _ hn hparent _ =>
      obtain rfl := Option.some.inj (hm.symm.trans hn)
      rw [hparent]
      exact Option.some_ne_none _

-- The labels are the same from whichever node under a root.
theorem Chain.unique_of_underRoot {top' : ℕ} (htop : UnderRoot t top) (htop' : UnderRoot t top')
    (hc : Chain t label top labels i) (hc' : Chain t label top' labels' i) : labels = labels' := by
  have hstop : ∀ {a b q : ℕ} {ls : List β}, UnderRoot t a → UnderRoot t b → Chain t label b ls q →
      ∀ {m : Vertex α}, t[a]? = some m → m.parent ≠ some q := by
    intro a b q ls ha hb hq m hm hparent
    obtain ⟨m', root, r, hm', hparent', hr, hroot⟩ := ha
    obtain rfl := Option.some.inj (hm.symm.trans hm')
    obtain rfl := Option.some.inj (hparent.symm.trans hparent')
    exact hq.parent_ne_none hb hr hroot
  induction hc generalizing labels' with
  | here =>
      cases hc' with
      | here => rfl
      | step hq hn hparent _ => exact absurd hparent (hstop htop htop' hq hn)
  | step hq hn hparent hlabel ih =>
      cases hc' with
      | here => exact absurd hparent (hstop htop' htop hq hn)
      | step hq' hn' hparent' hlabel' =>
          obtain rfl := Option.some.inj (hn.symm.trans hn')
          obtain rfl := Option.some.inj (hparent.symm.trans hparent')
          obtain rfl := Option.some.inj (hlabel.symm.trans hlabel')
          rw [ih hq']

-- On the way to a node there is one for each prefix of its labels.
theorem Chain.exists_front (hg : Grounded t) (hc : Chain t label top labels i) (h : labels' <+: labels) :
    ∃ j ≤ i, Chain t label top labels' j := by
  induction hc with
  | here =>
      rw [List.prefix_nil] at h
      exact ⟨top, le_rfl, h ▸ Chain.here⟩
  | step hq hn hparent hlabel ih =>
      rcases List.prefix_concat_iff.mp h with rfl | h
      · exact ⟨_, le_rfl, Chain.step hq hn hparent hlabel⟩
      · obtain ⟨j, hj, hchain⟩ := ih h
        exact ⟨j, hj.trans (hg _ _ hn _ hparent).le, hchain⟩

-- An order in which all nodes are gone through, and which a new node does not change.
structure Listing (α : Type*) where
  order : Forest α → List ℕ
  mem_order : ∀ {t i}, Grounded t → (i ∈ order t ↔ i < t.length)
  order_append : ∀ {t n}, Grounded (t ++ [n]) → (order (t ++ [n])).filter (· < t.length) = order t

namespace Listing

variable (order : Listing α) (p : α → Bool)

def find (t : Forest α) : Option ℕ := (order.order t).find? fun i => t[i]?.any fun n => p n.value

variable {order p}

theorem find_eq_some (h : order.find p t = some i) : ∃ m, t[i]? = some m ∧ p m.value = true := by
  have hany := List.find?_some h
  exact (Option.any_eq_true _ _).mp hany

theorem find_eq_none_iff (hg : Grounded t) : order.find p t = none ↔ ∀ m ∈ t, p m.value = false := by
  rw [find, List.find?_eq_none]
  constructor
  · intro h m hm
    obtain ⟨i, hi⟩ := List.mem_iff_getElem?.mp hm
    have hlt := (List.getElem?_eq_some_iff.mp hi).1
    simpa [hi] using h i ((order.mem_order hg).mpr hlt)
  · intro h i _
    cases hi : t[i]? with
    | none => simp
    | some m => simpa using h m (List.mem_of_getElem? hi)

theorem find_append_of_not (hg : Grounded (t ++ [n])) (hn : p n.value = false) :
    order.find p (t ++ [n]) = order.find p t := by
  have hsame : ∀ i, ((t ++ [n])[i]?.any fun m => p m.value) =
      decide (decide (i < t.length) = true ∧ (t[i]?.any fun m => p m.value) = true) := by
    intro i
    rcases Nat.lt_or_ge i t.length with hi | hi
    · simp [List.getElem?_append_left hi, hi]
    · rw [List.getElem?_append_right hi, List.getElem?_singleton, decide_eq_false (p := i < t.length) (by omega)]
      split_ifs
      · simpa using hn
      · simp
  rw [find, find, ← order.order_append hg, List.find?_filter]
  exact congrArg (fun q => List.find? q _) (funext hsame)

theorem find_append_of_none (hg : Grounded (t ++ [n])) (hnone : order.find p t = none)
    (hn : p n.value = true) : order.find p (t ++ [n]) = some t.length := by
  have ht : Grounded t := hg.of_front (List.prefix_append t [n])
  cases hfind : order.find p (t ++ [n]) with
  | none =>
      have := (find_eq_none_iff hg).mp hfind n (by simp)
      rw [hn] at this
      cases this
  | some i =>
      obtain ⟨m, hm, hp⟩ := find_eq_some hfind
      rcases Nat.lt_trichotomy i t.length with hi | hi | hi
      · rw [List.getElem?_append_left hi] at hm
        have := (find_eq_none_iff ht).mp hnone m (List.mem_of_getElem? hm)
        rw [hp] at this
        cases this
      · rw [hi]
      · have := (List.getElem?_eq_some_iff.mp hm).1
        simp at this
        omega

end Listing

section DocumentOrder

variable (t) in
def childrenOf (p : Option ℕ) : List ℕ :=
  (List.range t.length).filter fun i => t[i]?.any fun n => n.parent = p

variable (t) in
-- A node and all that is below it.
def subtree : ℕ → ℕ → List ℕ
  | 0, _ => []
  | fuel + 1, i => i :: (childrenOf t (some i)).flatMap (subtree fuel)

variable (t) in
def inDocumentOrder : List ℕ := (childrenOf t none).flatMap (subtree t t.length)

theorem mem_childrenOf {p : Option ℕ} : i ∈ childrenOf t p ↔ ∃ m, t[i]? = some m ∧ m.parent = p := by
  rw [childrenOf, List.mem_filter, List.mem_range, Option.any_eq_true]
  constructor
  · rintro ⟨-, m, hm, hp⟩
    exact ⟨m, hm, of_decide_eq_true hp⟩
  · rintro ⟨m, hm, hp⟩
    exact ⟨(List.getElem?_eq_some_iff.mp hm).1, m, hm, decide_eq_true hp⟩

theorem lt_of_mem_childrenOf {p : Option ℕ} (h : i ∈ childrenOf t p) : i < t.length := by
  obtain ⟨m, hm, -⟩ := mem_childrenOf.mp h
  exact (List.getElem?_eq_some_iff.mp hm).1

-- Fuel for all places after a node is enough.
theorem subtree_succ (hg : Grounded t) {fuel : ℕ} (hi : i < t.length) (h : t.length ≤ fuel + i) :
    subtree t (fuel + 1) i = subtree t fuel i := by
  induction fuel generalizing i with
  | zero => omega
  | succ fuel ih =>
      rw [subtree, subtree]
      congr 1
      refine List.flatMap_congr fun k hk => ?_
      obtain ⟨m, hm, hp⟩ := mem_childrenOf.mp hk
      have := hg k m hm i hp
      exact ih (lt_of_mem_childrenOf hk) (by omega)

theorem mem_subtree_of_parent (hj : j ∈ childrenOf t (some i)) {fuel r : ℕ} (h : i ∈ subtree t fuel r) :
    j ∈ subtree t (fuel + 1) r := by
  induction fuel generalizing r with
  | zero => cases h
  | succ fuel ih =>
      rw [subtree, List.mem_cons] at h ⊢
      refine Or.inr (List.mem_flatMap.mpr ?_)
      rcases h with rfl | h
      · exact ⟨j, hj, by rw [subtree]; exact List.mem_cons_self⟩
      · obtain ⟨k, hk, hi⟩ := List.mem_flatMap.mp h
        exact ⟨k, hk, ih hi⟩

theorem lt_of_mem_subtree {fuel r : ℕ} (hr : r < t.length) (h : i ∈ subtree t fuel r) : i < t.length := by
  induction fuel generalizing r with
  | zero => cases h
  | succ fuel ih =>
      rw [subtree, List.mem_cons] at h
      rcases h with rfl | h
      · exact hr
      · obtain ⟨k, hk, hi⟩ := List.mem_flatMap.mp h
        exact ih (lt_of_mem_childrenOf hk) hi

theorem subtree_mono {fuel fuel' r : ℕ} (h : fuel ≤ fuel') (hi : i ∈ subtree t fuel r) :
    i ∈ subtree t fuel' r := by
  induction fuel generalizing fuel' r with
  | zero => cases hi
  | succ fuel ih =>
      obtain ⟨k, rfl⟩ := Nat.exists_eq_add_of_le' h
      rw [← Nat.add_assoc]
      rw [subtree, List.mem_cons] at hi ⊢
      refine hi.imp_right fun hi => ?_
      obtain ⟨c, hc, hi⟩ := List.mem_flatMap.mp hi
      exact List.mem_flatMap.mpr ⟨c, hc, ih (by omega) hi⟩

-- Every node is below a root, at most as far as its place.
theorem exists_root (hg : Grounded t) (hi : i < t.length) :
    ∃ r ∈ childrenOf t none, ∃ fuel ≤ i + 1, i ∈ subtree t fuel r := by
  induction i using Nat.strong_induction_on with
  | _ i ih =>
      have hm : t[i]? = some t[i] := List.getElem?_eq_getElem hi
      cases hp : t[i].parent with
      | none =>
          refine ⟨i, mem_childrenOf.mpr ⟨_, hm, hp⟩, 1, by omega, ?_⟩
          rw [subtree]
          exact List.mem_cons_self
      | some p =>
          have hlt := hg i _ hm p hp
          obtain ⟨r, hr, fuel, hfuel, hmem⟩ := ih p hlt (by omega)
          exact ⟨r, hr, fuel + 1, by omega, mem_subtree_of_parent (mem_childrenOf.mpr ⟨_, hm, hp⟩) hmem⟩

theorem mem_inDocumentOrder (hg : Grounded t) : i ∈ inDocumentOrder t ↔ i < t.length := by
  rw [inDocumentOrder, List.mem_flatMap]
  constructor
  · rintro ⟨r, hr, h⟩
    exact lt_of_mem_subtree (lt_of_mem_childrenOf hr) h
  · intro hi
    obtain ⟨r, hr, fuel, hfuel, h⟩ := exists_root hg hi
    refine ⟨r, hr, subtree_mono ?_ h⟩
    omega

theorem childrenOf_append (t : Forest α) (n : Vertex α) (p : Option ℕ) :
    childrenOf (t ++ [n]) p = childrenOf t p ++ if n.parent = p then [t.length] else [] := by
  rw [childrenOf, List.length_append, List.length_singleton, List.range_succ, List.filter_append]
  congr 1
  · refine List.filter_congr fun i hi => ?_
    rw [List.getElem?_append_left (List.mem_range.mp hi)]
  · rw [List.filter_singleton, List.getElem?_append_right le_rfl]
    simp

theorem childrenOf_last (hg : Grounded (t ++ [n])) : childrenOf (t ++ [n]) (some t.length) = [] := by
  rw [List.eq_nil_iff_forall_not_mem]
  intro i hi
  obtain ⟨m, hm, hp⟩ := mem_childrenOf.mp hi
  have hlt := lt_of_mem_childrenOf hi
  have := hg i m hm _ hp
  rw [List.length_append, List.length_singleton] at hlt
  omega

theorem filter_subtree_last (hg : Grounded (t ++ [n])) (fuel : ℕ) :
    (subtree (t ++ [n]) fuel t.length).filter (· < t.length) = [] := by
  cases fuel with
  | zero => rfl
  | succ fuel => simp [subtree, childrenOf_last hg]

theorem filter_flatMap_append (hg : Grounded (t ++ [n])) {fuel : ℕ} {p : Option ℕ}
    (h : ∀ k ∈ childrenOf t p,
      (subtree (t ++ [n]) fuel k).filter (· < t.length) = subtree t fuel k) :
    ((childrenOf (t ++ [n]) p).flatMap (subtree (t ++ [n]) fuel)).filter (· < t.length) =
      (childrenOf t p).flatMap (subtree t fuel) := by
  have hlast : ((if n.parent = p then [t.length] else []).flatMap (subtree (t ++ [n]) fuel)).filter
      (· < t.length) = [] := by
    split_ifs
    · rw [List.flatMap_singleton, filter_subtree_last hg]
    · rfl
  rw [childrenOf_append, List.flatMap_append, List.filter_append, hlast, List.append_nil,
    List.filter_flatMap]
  exact List.flatMap_congr h

-- A new node has nothing below it.
theorem filter_subtree_append (hg : Grounded (t ++ [n])) {fuel : ℕ} (hi : i < t.length) :
    (subtree (t ++ [n]) fuel i).filter (· < t.length) = subtree t fuel i := by
  induction fuel generalizing i with
  | zero => rfl
  | succ fuel ih =>
      rw [subtree, subtree, List.filter_cons_of_pos (by simpa using hi),
        filter_flatMap_append hg fun k hk => ih (lt_of_mem_childrenOf hk)]

theorem inDocumentOrder_append (hg : Grounded (t ++ [n])) :
    (inDocumentOrder (t ++ [n])).filter (· < t.length) = inDocumentOrder t := by
  rw [inDocumentOrder, filter_flatMap_append hg, inDocumentOrder, List.length_append,
    List.length_singleton]
  · exact List.flatMap_congr fun k hk =>
      subtree_succ (hg.of_front (List.prefix_append t [n])) (lt_of_mem_childrenOf hk) (by omega)
  · exact fun k hk => filter_subtree_append hg (lt_of_mem_childrenOf hk)

-- The nodes as they stand in the document: each with all that is below it, before its next
-- sibling.
def documentOrder : Listing α where
  order := inDocumentOrder
  mem_order := mem_inDocumentOrder
  order_append := inDocumentOrder_append

end DocumentOrder

end Forest

end Ccp.Lib
