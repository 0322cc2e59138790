import Ccp.Lib.Xml

namespace Ccp.Lib

-- The first element that is given something for it, with that in its place.
def replaceFirst? {α : Type*} (g : α → Option (List α)) : List α → Option (List α)
  | [] => none
  | a :: l =>
      match g a with
      | some new => some (new ++ l)
      | none => (replaceFirst? g l).map (a :: ·)

theorem replaceFirst?_eq_some {α : Type*} {g : α → Option (List α)} {l l' : List α}
    (h : replaceFirst? g l = some l') :
    ∃ before a after new, l = before ++ a :: after ∧ (∀ b ∈ before, g b = none) ∧ g a = some new ∧
      l' = before ++ new ++ after := by
  induction l generalizing l' with
  | nil => cases h
  | cons a l ih =>
      rw [replaceFirst?] at h
      cases hnew : g a with
      | some new =>
          simp only [hnew, Option.some.injEq] at h
          exact ⟨[], a, l, new, rfl, by simp, hnew, by simp [h]⟩
      | none =>
          simp only [hnew, Option.map_eq_some_iff] at h
          obtain ⟨l', h, rfl⟩ := h
          obtain ⟨before, b, after, new, rfl, hbefore, hb, rfl⟩ := ih h
          exact ⟨a :: before, b, after, new, rfl, List.forall_mem_cons.mpr ⟨hnew, hbefore⟩, hb, rfl⟩

namespace Element

variable {τ κ : Type}

-- Another tag for the element and for each one below it.
mutual

def mapTag (f : τ → τ) : Element τ κ → Element τ κ
  | mk tag attrib children => mk (f tag) attrib (mapTagAll f children)

def mapTagAll (f : τ → τ) : List (Element τ κ) → List (Element τ κ)
  | [] => []
  | e :: es => mapTag f e :: mapTagAll f es

end

theorem mapTagAll_eq_map (f : τ → τ) (es : List (Element τ κ)) : mapTagAll f es = es.map (mapTag f) := by
  induction es with
  | nil => rw [mapTagAll, List.map_nil]
  | cons e es ih => rw [mapTagAll, ih, List.map_cons]

theorem iter_mapTag (f : τ → τ) (e : Element τ κ) : (e.mapTag f).iter = e.iter.map (mapTag f) := by
  induction e using Element.induction with
  | mk tag attrib children ih =>
      rw [mapTag, mapTagAll_eq_map, iter_mk, iter_mk, List.map_cons, mapTag, mapTagAll_eq_map,
        List.flatMap_map, List.map_flatMap, List.flatMap_congr ih]

@[simp] theorem tag_mapTag (f : τ → τ) (e : Element τ κ) : (e.mapTag f).tag = f e.tag := by
  cases e
  rw [mapTag, tag, tag]

@[simp] theorem attrib_mapTag (f : τ → τ) (e : Element τ κ) : (e.mapTag f).attrib = e.attrib := by
  cases e
  rw [mapTag, attrib, attrib]

-- No element of it has such a tag.

def free (p : τ → Bool) (e : Element τ κ) : Bool := e.iter.all fun x => !p x.tag

theorem free_mk (p : τ → Bool) (tag : τ) (attrib : Dict κ (List Char)) (children : List (Element τ κ)) :
    (mk tag attrib children).free p = (!p tag && children.all (·.free p)) := by
  rw [free, iter_mk, List.all_cons, List.all_flatMap, Element.tag]
  rfl

theorem free_iff {p : τ → Bool} {e : Element τ κ} :
    e.free p = true ↔ p e.tag = false ∧ ∀ c ∈ e.children, c.free p = true := by
  cases e
  simp [free_mk, tag, children]

theorem free_of_le {p q : τ → Bool} (hle : ∀ t, q t = true → p t = true) {e : Element τ κ}
    (h : e.free p = true) : e.free q = true := by
  rw [free, List.all_eq_true] at h ⊢
  intro x hx
  have := h x hx
  simp only [Bool.not_eq_true', Bool.eq_false_iff, ne_eq] at this ⊢
  exact fun hq => this (hle x.tag hq)

-- A change to the first element with such a tag, in the order of the document.
mutual

def modifyFirst (p : τ → Bool) (f : Element τ κ → Option (Element τ κ)) :
    Element τ κ → Option (Element τ κ)
  | mk tag attrib children =>
      if p tag then f (mk tag attrib children) else (modifyFirstAll p f children).map (mk tag attrib)

def modifyFirstAll (p : τ → Bool) (f : Element τ κ → Option (Element τ κ)) :
    List (Element τ κ) → Option (List (Element τ κ))
  | [] => none
  | e :: es =>
      if e.free p then (modifyFirstAll p f es).map (e :: ·) else (modifyFirst p f e).map (· :: es)

end

theorem modifyFirstAll_eq_some {p : τ → Bool} {f : Element τ κ → Option (Element τ κ)}
    {es es' : List (Element τ κ)}
    (h : modifyFirstAll p f es = some es') :
    ∃ before e after e', es = before ++ e :: after ∧ (∀ b ∈ before, b.free p = true) ∧
      e.free p = false ∧ modifyFirst p f e = some e' ∧ es' = before ++ [e'] ++ after := by
  induction es generalizing es' with
  | nil =>
      rw [modifyFirstAll] at h
      cases h
  | cons e es ih =>
      rw [modifyFirstAll] at h
      split_ifs at h with hfree
      · obtain ⟨es', hes', rfl⟩ := Option.map_eq_some_iff.mp h
        obtain ⟨before, b, after, b', rfl, hbefore, hb, hb', rfl⟩ := ih hes'
        exact ⟨e :: before, b, after, b', rfl, List.forall_mem_cons.mpr ⟨hfree, hbefore⟩, hb, hb', rfl⟩
      · obtain ⟨e', he', rfl⟩ := Option.map_eq_some_iff.mp h
        exact ⟨[], e, es, e', rfl, by simp, by simpa using hfree, he', rfl⟩

-- The values of an attribute where the tag is such a one, in a list of elements and below them.

section Texts

variable [DecidableEq κ]

def texts (key : κ) (p : τ → Bool) (es : List (Element τ κ)) : List (Option (List Char)) :=
  ((es.flatMap iter).filter fun e => p e.tag).map (·.get key)

variable {key : κ} {p q : τ → Bool} {e : Element τ κ} {es es' : List (Element τ κ)}

@[simp] theorem texts_nil : texts key p ([] : List (Element τ κ)) = [] := rfl

@[simp] theorem texts_append (es es' : List (Element τ κ)) :
    texts key p (es ++ es') = texts key p es ++ texts key p es' := by
  simp [texts]

theorem texts_cons (e : Element τ κ) (es : List (Element τ κ)) :
    texts key p (e :: es) = texts key p [e] ++ texts key p es := texts_append [e] es

theorem texts_mk (tag : τ) (attrib : Dict κ (List Char)) (children : List (Element τ κ)) :
    texts key p [mk tag attrib children] =
      (if p tag then [Dict.get? attrib key] else []) ++ texts key p children := by
  rw [texts, List.flatMap_singleton, iter_mk, List.filter_cons, Element.tag]
  split_ifs
  · rfl
  · rfl

theorem texts_mk_of_false {tag : τ} {attrib : Dict κ (List Char)} {children : List (Element τ κ)}
    (h : p tag = false) : texts key p [mk tag attrib children] = texts key p children := by
  simp [texts_mk, h]

theorem texts_eq_nil_of_free (h : ∀ e ∈ es, e.free p = true) : texts key p es = [] := by
  simp only [texts, List.map_eq_nil_iff, List.filter_eq_nil_iff, List.mem_flatMap, forall_exists_index,
    and_imp]
  intro x e he hx
  simpa using List.all_eq_true.mp (h e he) x hx

theorem texts_singleton_eq_nil (h : e.free p = true) : texts key p [e] = [] :=
  texts_eq_nil_of_free fun _ hmem => List.mem_singleton.mp hmem ▸ h

theorem texts_congr (h : ∀ e ∈ es, ∀ x ∈ e.iter, p x.tag = q x.tag) : texts key p es = texts key q es := by
  refine congrArg (List.map _) (List.filter_congr fun x hx => ?_)
  obtain ⟨e, he, hx⟩ := List.mem_flatMap.mp hx
  exact h e he x hx

theorem texts_map_mapTag (f : τ → τ) (es : List (Element τ κ)) :
    texts key p (es.map (mapTag f)) = texts key (fun t => p (f t)) es := by
  have hiter : (es.map (mapTag f)).flatMap iter = (es.flatMap iter).map (mapTag f) := by
    rw [List.flatMap_map, List.map_flatMap, List.flatMap_congr fun e _ => iter_mapTag f e]
  simp only [texts, hiter, List.filter_map, List.map_map]
  refine congr (congrArg List.map (funext fun e => ?_)) ?_
  · simp [get]
  · exact List.filter_congr fun e _ => by simp

-- The elements that go have nothing to be found.
theorem texts_filter (keep : Element τ κ → Bool) (h : ∀ e ∈ es, keep e = false → e.free p = true) :
    texts key p (es.filter keep) = texts key p es := by
  induction es with
  | nil => rfl
  | cons e es ih =>
      obtain ⟨he, hes⟩ := List.forall_mem_cons.mp h
      rw [texts_cons, ← ih hes, List.filter_cons]
      split_ifs with hkeep
      · rw [texts_cons]
      · rw [texts_singleton_eq_nil (he (by simpa using hkeep)), List.nil_append]

theorem texts_map {g : Element τ κ → Element τ κ} (h : ∀ e ∈ es, texts key p [g e] = texts key p [e]) :
    texts key p (es.map g) = texts key p es := by
  induction es with
  | nil => rfl
  | cons e es ih =>
      obtain ⟨he, hes⟩ := List.forall_mem_cons.mp h
      rw [List.map_cons, texts_cons, he, ih hes, ← texts_cons]

end Texts

end Element

end Ccp.Lib
