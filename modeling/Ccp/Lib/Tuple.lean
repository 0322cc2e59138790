import Mathlib.Data.List.Basic

namespace Ccp.Lib

-- Nested tuples that stand for a tree: a node is its tag and, after it, its children. An
-- atom is what a reader takes as it is.
inductive Tuple (τ α : Type)
  | none
  | tag (t : τ)
  | text (s : List Char)
  | atom (a : α)
  | tuple (items : List (Tuple τ α))

namespace Tuple

variable {τ α : Type} {t : τ} {l l' : List (Tuple τ α)}

def node (t : τ) (children : List (Tuple τ α)) : Tuple τ α := tuple (tag t :: children)

def leaf (t : τ) (s : List Char) : Tuple τ α := node t [text s]

-- Every tuple is a tag with a text, or with nodes and atoms.
inductive WellFormed : Tuple τ α → Prop
  | atom (a : α) : WellFormed (atom a)
  | leaf (t : τ) (s : List Char) : WellFormed (leaf t s)
  | node (t : τ) (children : List (Tuple τ α)) (h : ∀ c ∈ children, WellFormed c) :
      WellFormed (node t children)

theorem wellFormed_of_mem (h : WellFormed (node t l)) {c : Tuple τ α} (hc : c ∈ l) :
    WellFormed c ∨ ∃ s, c = text s := by
  generalize htree : node t l = tree at h
  cases h with
  | atom a => cases htree
  | leaf t' s =>
      obtain ⟨-, rfl⟩ : tag t = tag t' ∧ l = [text s] := by
        simpa only [node, leaf, tuple.injEq, List.cons.injEq] using htree
      exact Or.inr ⟨s, List.mem_singleton.mp hc⟩
  | node t' children' hall =>
      obtain ⟨-, rfl⟩ : tag t = tag t' ∧ l = children' := by
        simpa only [node, tuple.injEq, List.cons.injEq] using htree
      exact Or.inl (hall c hc)

-- A node whose children are not known to be nodes has those of its children that are.
theorem wellFormed_of_node_mem {t' : τ} (h : WellFormed (node t l)) (hc : node t' l' ∈ l) :
    WellFormed (node t' l') := by
  rcases wellFormed_of_mem h hc with hwf | ⟨s, hs⟩
  · exact hwf
  · cases hs

-- The children one after the other.

def AllWellFormed (l : List (Tuple τ α)) : Prop := ∀ c ∈ l, WellFormed c

namespace AllWellFormed

theorem nil : AllWellFormed ([] : List (Tuple τ α)) := nofun

theorem cons {c : Tuple τ α} (hc : c.WellFormed) (hl : AllWellFormed l) : AllWellFormed (c :: l) :=
  List.forall_mem_cons.mpr ⟨hc, hl⟩

theorem leaf {s : List Char} (hl : AllWellFormed l) : AllWellFormed (leaf t s :: l) :=
  hl.cons (.leaf t s)

theorem append (hl : AllWellFormed l) (hl' : AllWellFormed l') : AllWellFormed (l ++ l') :=
  List.forall_mem_append.mpr ⟨hl, hl'⟩

theorem map {β : Type} {f : β → Tuple τ α} (h : ∀ b, (f b).WellFormed) (bs : List β) :
    AllWellFormed (bs.map f) := List.forall_mem_map.mpr fun b _ => h b

theorem of_perm (hperm : l.Perm l') (h : AllWellFormed l') : AllWellFormed l :=
  fun c hc => h c (hperm.mem_iff.mp hc)

theorem node (hl : AllWellFormed l) : (node t l).WellFormed := .node t l hl

end AllWellFormed

theorem not_wellFormed_none : ¬ WellFormed (none : Tuple τ α) := nofun

-- The reader's view of a node.

def children : Tuple τ α → List (Tuple τ α)
  | tuple items => items.tail
  | _ => []

def tag? : Tuple τ α → Option τ
  | tuple (tag t :: _) => some t
  | _ => Option.none

@[simp] theorem children_node (t : τ) (l : List (Tuple τ α)) : (node t l).children = l := rfl

@[simp] theorem tag?_node (t : τ) (l : List (Tuple τ α)) : (node t l).tag? = some t := rfl

@[simp] theorem tag?_leaf (t : τ) (s : List Char) : (leaf t s : Tuple τ α).tag? = some t := rfl

@[simp] theorem tag?_atom (a : α) : (atom a : Tuple τ α).tag? = Option.none := rfl

section Named

variable [DecidableEq τ]

-- The nodes of a tag in a list, and among the children of a node.
def withTag (t : τ) (l : List (Tuple τ α)) : List (Tuple τ α) := l.filter (·.tag? = some t)

def named (t : τ) (p : Tuple τ α) : List (Tuple τ α) := withTag t p.children

theorem withTag_append (t : τ) (l l' : List (Tuple τ α)) :
    withTag t (l ++ l') = withTag t l ++ withTag t l' := List.filter_append l l'

theorem withTag_cons_self {p : Tuple τ α} (h : p.tag? = some t) (l : List (Tuple τ α)) :
    withTag t (p :: l) = p :: withTag t l := List.filter_cons_of_pos (by simpa using h)

theorem withTag_cons_ne {p : Tuple τ α} (h : p.tag? ≠ some t) (l : List (Tuple τ α)) :
    withTag t (p :: l) = withTag t l := List.filter_cons_of_neg (by simpa using h)

theorem withTag_eq_nil (h : ∀ p ∈ l, p.tag? ≠ some t) : withTag t l = [] := by
  rw [withTag, List.filter_eq_nil_iff]
  intro p hp
  simpa using h p hp

end Named

end Tuple

end Ccp.Lib
