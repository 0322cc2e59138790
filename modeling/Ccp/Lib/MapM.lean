import Mathlib.Data.List.Basic
import Mathlib.Data.List.Forall2
import Mathlib.Data.Option.Basic

namespace Ccp.Lib

-- A function that may give nothing, over a list: all of its results, or nothing.
namespace MapM

variable {α β : Type*} {f : α → Option β} {l : List α} {out : List β}

theorem mapM_eq_some_iff : l.mapM f = some out ↔ out.map some = l.map f := by
  induction l generalizing out with
  | nil =>
      rw [List.mapM_nil, List.map_nil, List.map_eq_nil_iff]
      exact ⟨fun h => (Option.some.inj h).symm, fun h => h ▸ rfl⟩
  | cons a l ih =>
      rw [List.mapM_cons, List.map_cons]
      cases f a with
      | none =>
          refine iff_of_false (fun h => nomatch h) fun h => ?_
          cases out with
          | nil => cases h
          | cons b out => cases (List.cons.inj h).1
      | some b =>
          constructor
          · intro h
            obtain ⟨b', hb, h⟩ := Option.bind_eq_some_iff.mp h
            obtain ⟨rest, hrest, h⟩ := Option.bind_eq_some_iff.mp h
            obtain rfl := Option.some.inj h
            rw [List.map_cons, ih.mp hrest, hb]
          · intro h
            cases out with
            | nil => cases h
            | cons b' out =>
                obtain ⟨hb, hrest⟩ := List.cons.inj h
                obtain rfl := Option.some.inj hb
                rw [ih.mpr hrest]
                rfl

theorem mem_mapM (h : l.mapM f = some out) {b : β} : b ∈ out ↔ ∃ a ∈ l, f a = some b := by
  rw [← List.mem_map, ← mapM_eq_some_iff.mp h, List.mem_map_of_injective (Option.some_injective β)]

theorem isSome_of_mapM (h : l.mapM f = some out) {a : α} (ha : a ∈ l) : ∃ b, f a = some b := by
  have hmem : f a ∈ out.map some := mapM_eq_some_iff.mp h ▸ List.mem_map_of_mem ha
  obtain ⟨b, -, hb⟩ := List.mem_map.mp hmem
  exact ⟨b, hb.symm⟩

theorem mapM_eq_some_iff_forall₂ :
    l.mapM f = some out ↔ List.Forall₂ (fun a b => f a = some b) l out := by
  induction l generalizing out with
  | nil => simp [eq_comm]
  | cons a l ih =>
      rw [List.mapM_cons]
      constructor
      · intro h
        obtain ⟨b, hb, h⟩ := Option.bind_eq_some_iff.mp h
        obtain ⟨rest, hrest, h⟩ := Option.bind_eq_some_iff.mp h
        obtain rfl := Option.some.inj h
        exact List.Forall₂.cons hb (ih.mp hrest)
      · intro h
        cases h with
        | cons hb hrest =>
            rw [hb, ih.mpr hrest]
            rfl

-- What can be read off the results as off the elements.
theorem map_of_mapM {γ : Type*} {g : α → γ} {k : β → γ} (h : l.mapM f = some out)
    (hgk : ∀ a b, f a = some b → g a = k b) : l.map g = out.map k := by
  rw [mapM_eq_some_iff_forall₂] at h
  induction h with
  | nil => rfl
  | cons hab _ ih => rw [List.map_cons, List.map_cons, hgk _ _ hab, ih]

-- Two such functions, one after the other.
theorem bind_mapM {γ : Type*} (f : α → Option β) (g : β → Option γ) (l : List α) :
    (l.mapM f).bind (fun out => out.mapM g) = l.mapM fun a => (f a).bind g := by
  induction l with
  | nil => rfl
  | cons a l ih =>
      rw [List.mapM_cons, List.mapM_cons, ← ih]
      cases f a with
      | none => rfl
      | some b =>
          cases l.mapM f with
          | none =>
              simp only [Option.bind_eq_bind, Option.bind_some, Option.bind_none]
              exact (Option.bind_fun_none _).symm
          | some out => simp

theorem mapM_mapM {γ : Type*} {g : β → Option γ} (h : l.mapM f = some out) :
    out.mapM g = l.mapM fun a => (f a).bind g := by
  rw [← bind_mapM, h, Option.bind_some]

-- Every element has a result that stands to it as it should.
theorem exists_mapM_forall₂ {R : α → β → Prop} :
    (∃ out, l.mapM f = some out ∧ List.Forall₂ R l out) ↔ ∀ a ∈ l, ∃ b, f a = some b ∧ R a b := by
  constructor
  · rintro ⟨out, hout, hall⟩
    rw [mapM_eq_some_iff_forall₂] at hout
    induction hall with
    | nil => simp
    | cons hab _ ih =>
        cases hout with
        | cons hf hrest => exact List.forall_mem_cons.mpr ⟨⟨_, hf, hab⟩, ih hrest⟩
  · intro h
    induction l with
    | nil => exact ⟨[], rfl, List.Forall₂.nil⟩
    | cons a l ih =>
        rw [List.forall_mem_cons] at h
        obtain ⟨⟨b, hb, hab⟩, hl⟩ := h
        obtain ⟨out, hout, hall⟩ := ih hl
        exact ⟨b :: out, by rw [List.mapM_cons, hb, hout]; rfl, List.Forall₂.cons hab hall⟩

theorem length_mapM (h : l.mapM f = some out) : out.length = l.length := by
  simpa using congrArg List.length (mapM_eq_some_iff.mp h)

theorem mapM_eq_some_map {g : α → β} (h : ∀ a ∈ l, f a = some (g a)) : l.mapM f = some (l.map g) := by
  rw [mapM_eq_some_iff, List.map_map]
  exact (List.map_congr_left h).symm

theorem exists_mapM (h : ∀ a ∈ l, (f a).isSome) : ∃ out, l.mapM f = some out := by
  induction l with
  | nil => exact ⟨[], rfl⟩
  | cons a l ih =>
      obtain ⟨b, hb⟩ := Option.isSome_iff_exists.mp (h a List.mem_cons_self)
      obtain ⟨rest, hrest⟩ := ih fun a' ha' => h a' (List.mem_cons_of_mem a ha')
      exact ⟨b :: rest, by rw [List.mapM_cons, hb, hrest]; rfl⟩

-- What is left of the list by a test has the results that are left by the other.
theorem mapM_filter {q : α → Bool} {q' : β → Bool} (h : l.mapM f = some out)
    (hq : ∀ a ∈ l, ∀ b, f a = some b → q a = q' b) :
    (l.filter q).mapM f = some (out.filter q') := by
  induction l generalizing out with
  | nil =>
      obtain rfl : [] = out := by simpa using h
      rfl
  | cons a l ih =>
      rw [List.mapM_cons] at h
      obtain ⟨b, hb, h⟩ := Option.bind_eq_some_iff.mp h
      obtain ⟨rest, hrest, h⟩ := Option.bind_eq_some_iff.mp h
      obtain rfl := Option.some.inj h
      have hfilter := ih hrest fun a' ha' => hq a' (List.mem_cons_of_mem a ha')
      have hab := hq a List.mem_cons_self b hb
      rw [List.filter_cons, List.filter_cons, ← hab]
      split_ifs
      · rw [List.mapM_cons, hb, hfilter]
        rfl
      · exact hfilter

-- A function that gives lists, of which one is made.
theorem flatten_mapM_eq_some_iff {f : α → Option (List β)} {l : List α} {out : List β} :
    (l.mapM f).map List.flatten = some out ↔
      (∀ a ∈ l, (f a).isSome = true) ∧ out = l.flatMap fun a => (f a).getD [] := by
  constructor
  · intro h
    obtain ⟨lists, hlists, rfl⟩ := Option.map_eq_some_iff.mp h
    refine ⟨fun a ha => Option.isSome_iff_exists.mpr (isSome_of_mapM hlists ha), ?_⟩
    have hmap : lists = l.map fun a => (f a).getD [] := by
      have heq := congrArg (List.map fun o : Option (List β) => o.getD []) (mapM_eq_some_iff.mp hlists)
      rw [List.map_map, List.map_map] at heq
      exact (List.map_id lists).symm.trans heq
    rw [hmap, List.flatMap_def]
  · rintro ⟨hall, rfl⟩
    have hsome : l.mapM f = some (l.map fun a => (f a).getD []) := by
      refine mapM_eq_some_map fun a ha => ?_
      obtain ⟨b, hb⟩ := Option.isSome_iff_exists.mp (hall a ha)
      rw [hb, Option.getD_some]
    rw [hsome, Option.map_some, List.flatMap_def]

end MapM

end Ccp.Lib
