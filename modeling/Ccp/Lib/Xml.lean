import Ccp.Lib.Dict

namespace Ccp.Lib

-- An XML element with its attributes and the elements in it.
inductive Element (τ κ : Type)
  | mk (tag : τ) (attrib : Dict κ (List Char)) (children : List (Element τ κ))

namespace Element

variable {τ κ : Type}

def tag : Element τ κ → τ
  | mk tag _ _ => tag

def attrib : Element τ κ → Dict κ (List Char)
  | mk _ attrib _ => attrib

def children : Element τ κ → List (Element τ κ)
  | mk _ _ children => children

-- The element and those below it, in the order of the document.
mutual

def iter : Element τ κ → List (Element τ κ)
  | mk tag attrib children => mk tag attrib children :: iterAll children

def iterAll : List (Element τ κ) → List (Element τ κ)
  | [] => []
  | e :: es => iter e ++ iterAll es

end

theorem iterAll_eq_flatMap (es : List (Element τ κ)) : iterAll es = es.flatMap iter := by
  induction es with
  | nil => rw [iterAll, List.flatMap_nil]
  | cons e es ih => rw [iterAll, ih, List.flatMap_cons]

theorem iter_mk (tag : τ) (attrib : Dict κ (List Char)) (children : List (Element τ κ)) :
    (mk tag attrib children).iter = mk tag attrib children :: children.flatMap iter := by
  rw [iter, iterAll_eq_flatMap]

section Find

variable [DecidableEq τ]

-- The elements in it that have the tag, and those anywhere below it.
def findall (t : τ) (e : Element τ κ) : List (Element τ κ) := e.children.filter (·.tag = t)

def findBelow (t : τ) (e : Element τ κ) : List (Element τ κ) :=
  (e.children.flatMap iter).filter (·.tag = t)

end Find

-- What holds of an element when it holds of those in it holds of every element.
@[elab_as_elim]
theorem induction {motive : Element τ κ → Prop}
    (mk : ∀ tag attrib children, (∀ c ∈ children, motive c) → motive (mk tag attrib children)) :
    ∀ e, motive e
  | .mk tag attrib children => mk tag attrib children fun c _ => induction mk c

-- A change to the attributes of the element and of each one below it.
mutual

def mapAttrib (f : Dict κ (List Char) → Dict κ (List Char)) : Element τ κ → Element τ κ
  | mk tag attrib children => mk tag (f attrib) (mapAttribAll f children)

def mapAttribAll (f : Dict κ (List Char) → Dict κ (List Char)) :
    List (Element τ κ) → List (Element τ κ)
  | [] => []
  | e :: es => mapAttrib f e :: mapAttribAll f es

end

theorem mapAttribAll_eq_map (f : Dict κ (List Char) → Dict κ (List Char))
    (es : List (Element τ κ)) : mapAttribAll f es = es.map (mapAttrib f) := by
  induction es with
  | nil => rw [mapAttribAll, List.map_nil]
  | cons e es ih => rw [mapAttribAll, ih, List.map_cons]

section Attributes

variable [DecidableEq κ]

def get (e : Element τ κ) (key : κ) : Option (List Char) := Dict.get? e.attrib key

def set (key : κ) (value : List Char) : Element τ κ → Element τ κ
  | mk tag attrib children => mk tag (Dict.set attrib key value) children

-- The values of an attribute in the element and below it.
def values (key : κ) (e : Element τ κ) : List (List Char) := e.iter.filterMap (·.get key)

theorem values_mk (key : κ) (tag : τ) (attrib : Dict κ (List Char))
    (children : List (Element τ κ)) :
    values key (mk tag attrib children) =
      (Dict.get? attrib key).toList ++ children.flatMap (values key) := by
  have hbelow : (children.flatMap iter).filterMap (·.get key) = children.flatMap (values key) := by
    induction children with
    | nil => rfl
    | cons e es ih => rw [List.flatMap_cons, List.filterMap_append, ih, List.flatMap_cons, values]
  rw [values, iter_mk, List.filterMap_cons, hbelow]
  cases hget : Dict.get? attrib key with
  | none => simp [get, Element.attrib, hget]
  | some value => simp [get, Element.attrib, hget]

end Attributes

end Element

-- White space of an attribute's value.
def blank (c : Char) : Bool := c = ' ' ∨ c = '\t' ∨ c = '\n' ∨ c = '\r'

-- The identifiers in a value that can hold several of them.
def tokens (s : List Char) : List (List Char) := (s.splitOnP blank).filter (· ≠ [])

-- A value that is one identifier.
def Token (s : List Char) : Prop := s ≠ [] ∧ ∀ c ∈ s, blank c = false

instance (s : List Char) : Decidable (Token s) :=
  decidable_of_iff ((!s.isEmpty && s.all (!blank ·)) = true) (by simp [Token])

@[simp] theorem tokens_nil : tokens [] = [] := rfl

theorem Token.tokens_eq {s : List Char} (h : Token s) : tokens s = [s] := by
  rw [tokens, List.splitOnP_eq_singleton h.2, List.filter_singleton]
  simp [h.1]

theorem token_of_mem_tokens {s t : List Char} (h : t ∈ tokens s) : Token t := by
  obtain ⟨ht, hne⟩ := List.mem_filter.mp h
  refine ⟨of_decide_eq_true hne, ?_⟩
  clear h hne
  induction s generalizing t with
  | nil =>
      obtain rfl := List.mem_singleton.mp ht
      simp
  | cons c s ih =>
      rw [List.splitOnP_cons_eq_if_modifyHead] at ht
      split_ifs at ht with hc
      · rcases List.mem_cons.mp ht with rfl | ht
        · simp
        · exact ih ht
      · cases hrest : s.splitOnP blank with
        | nil => exact absurd hrest (List.splitOnP_ne_nil blank s)
        | cons first rest =>
            rw [hrest, List.modifyHead_cons] at ht
            rw [hrest] at ih
            rcases List.mem_cons.mp ht with rfl | ht
            · exact List.forall_mem_cons.mpr ⟨Bool.not_eq_true _ ▸ hc, ih List.mem_cons_self⟩
            · exact ih (List.mem_cons_of_mem _ ht)

theorem tokens_append_space (s t : List Char) : tokens (s ++ ' ' :: t) = tokens s ++ tokens t := by
  rw [tokens, List.splitOnP_append_cons s t (by decide), List.filter_append, tokens, tokens]

-- Lists that are joined without a separator between them.
theorem intercalate_joined {α : Type*} (sep : List α) (init : List (List α)) (last first : List α)
    (rest : List (List α)) :
    sep.intercalate (init ++ [last]) ++ sep.intercalate (first :: rest) =
      sep.intercalate (init ++ (last ++ first) :: rest) := by
  induction init with
  | nil =>
      cases rest with
      | nil => simp
      | cons r rest => simp [List.intercalate_cons_cons]
  | cons a init ih =>
      have hfirst : init ++ [last] ≠ [] := by simp
      have hsecond : init ++ (last ++ first) :: rest ≠ [] := by simp
      rw [List.cons_append, List.cons_append, List.intercalate_cons_of_ne_nil hfirst,
        List.intercalate_cons_of_ne_nil hsecond, ← ih]
      simp only [List.append_assoc]

theorem tokens_intercalate {ids : List (List Char)} (h : ∀ id ∈ ids, Token id) :
    tokens (List.intercalate [' '] ids) = ids := by
  induction ids with
  | nil => rfl
  | cons id ids ih =>
      have hrest := ih fun i hi => h i (List.mem_cons_of_mem _ hi)
      cases ids with
      | nil =>
          rw [List.intercalate_singleton]
          exact (h id List.mem_cons_self).tokens_eq
      | cons next ids =>
          rw [List.intercalate_cons_cons, List.append_assoc]
          change tokens (id ++ ' ' :: List.intercalate [' '] (next :: ids)) = _
          rw [tokens_append_space, hrest, (h id List.mem_cons_self).tokens_eq, List.singleton_append]

end Ccp.Lib
