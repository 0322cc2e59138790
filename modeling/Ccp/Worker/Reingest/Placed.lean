import Ccp.Worker.Reingest.UpdateObject

namespace Ccp.Worker.Reingest.UpdateObject

open Lib Lib.Element ParseMets.Files

-- Where the elements that are read stand in an object.

def digestNames : List Name := [.fixity, .messageDigestAlgorithm, .messageDigest]

def registryNames : List Name := [.formatRegistryName, .formatRegistryKey]

def relationNames : List Name :=
  [.relationshipSubType, .relatedObjectIdentifierValue, .relatedEventIdentifierValue]

def otherNames : List Name := [.objectIdentifierValue, .originalName, .size]

def isPremis2 (t : Tag) : Bool := t.space = .premis2

def freeOf (names : List Name) (e : El) : Bool := e.free (inPremis names)

-- A digest and its algorithm are elements without such elements in them.
def placedInFixity (x : El) : Bool :=
  freeOf digestNames x ||
    inPremis [.messageDigestAlgorithm, .messageDigest] x.tag && x.children.all (freeOf digestNames)

def placedInCharacteristics (d : El) : Bool :=
  d.free isPremis2 &&
    if isPremis .fixity d.tag then
      freeOf (registryNames ++ relationNames ++ otherNames) d && d.children.all placedInFixity
    else if isPremis .format d.tag then freeOf (digestNames ++ relationNames ++ otherNames) d
    else if isPremis .objectCharacteristicsExtension d.tag then
      freeOf (digestNames ++ registryNames ++ relationNames ++ otherNames) d
    else freeOf (digestNames ++ registryNames ++ relationNames) d

def placed (c : El) : Bool :=
  c.free isPremis2 &&
    if isPremis .objectCharacteristics c.tag then c.children.all placedInCharacteristics
    else if isPremis .relationship c.tag then freeOf (digestNames ++ registryNames ++ otherNames) c
    else freeOf (digestNames ++ registryNames ++ relationNames) c

-- An object of one version of PREMIS, with prefixes that are known.
def versioned (e : El) : Bool :=
  isPremis .object e.tag && e.free isPremis2 ||
    inPremis2 [.object] e.tag &&
      e.iter.all fun x =>
        x.tag.space ≠ .premis && (x.tag.space = .premis2 → toPremis x.tag = { x.tag with space := .premis })

-- What xml_findtext_premis looks at.
def textsOf (name : Name) (e : El) : List Str :=
  let found := texts .text (isPremis name) [e]
  (if found = [] then texts .text (inPremis2 [name]) [e] else found).map (·.getD [])

section Texts

variable {env : Env} {u : UUID} {row : FileRow} {es es' m m' : List El} {name : Name} {names : List Name} {t : Tag}
  {c d x x' : El} {text : Str}

theorem freeOf_of_subset {names' : List Name} {e : El} (hsub : names' ⊆ names) (h : freeOf names e = true) :
    freeOf names' e = true := by
  refine free_of_le (fun t ht => ?_) h
  simp only [inPremis, Bool.and_eq_true, List.contains_iff_mem] at ht ⊢
  exact ⟨ht.1, hsub ht.2⟩

theorem free_isPremis {e : El} (hname : name ∈ names) (h : freeOf names e = true) : e.free (isPremis name) = true :=
  freeOf_of_subset (by simpa using hname) h

-- The texts of the elements with the name.
def found (name : Name) (es : List El) : List (Option Str) := texts .text (isPremis name) es

@[simp] theorem found_nil : found name [] = [] := rfl

@[simp] theorem found_append (es es' : List El) : found name (es ++ es') = found name es ++ found name es' :=
  texts_append es es'

theorem found_cons (e : El) (es : List El) : found name (e :: es) = found name [e] ++ found name es :=
  texts_cons e es

theorem found_mk (t : Tag) (attrib : Dict Attr Str) (children : List El) :
    found name [.mk t attrib children] =
      (if isPremis name t then [Dict.get? attrib .text] else []) ++ found name children :=
  texts_mk t attrib children

theorem found_mk_of_false {attrib : Dict Attr Str} {children : List El} (h : isPremis name t = false) :
    found name [.mk t attrib children] = found name children := texts_mk_of_false h

theorem found_eq_nil (hname : name ∈ names) (h : ∀ e ∈ es, freeOf names e = true) : found name es = [] :=
  texts_eq_nil_of_free fun e he => free_isPremis hname (h e he)

theorem found_singleton_eq_nil (hname : name ∈ names) (h : freeOf names x = true) : found name [x] = [] :=
  found_eq_nil hname fun _ hmem => List.mem_singleton.mp hmem ▸ h

theorem isPremis_iff : isPremis name t = true ↔ t.space = .premis ∧ t.name = name := by
  simp [isPremis, inPremis]

-- An element has one name.
theorem isPremis_eq_false {name' : Name} (hne : name ≠ name') (h : isPremis name' t = true) :
    isPremis name t = false := by
  rw [isPremis_iff] at h
  rw [Bool.eq_false_iff, ne_eq, isPremis_iff]
  rintro ⟨-, hname⟩
  exact hne (hname.symm.trans h.2)

-- Elements in one of the objectCharacteristics, with others in their place.
inductive Edit (m m' : List El) : List El → List El → Prop
  | mk (before : List El) (t : Tag) (attrib : Dict Attr Str) (l r after : List El)
      (ht : isPremis .objectCharacteristics t = true) :
      Edit m m' (before ++ .mk t attrib (l ++ m ++ r) :: after) (before ++ .mk t attrib (l ++ m' ++ r) :: after)

theorem Edit.found_eq (h : Edit m m' es es') (hname : name ≠ .objectCharacteristics) :
    ∃ A B, found name es = A ++ found name m ++ B ∧ found name es' = A ++ found name m' ++ B := by
  obtain ⟨before, t, attrib, l, r, after, ht⟩ := h
  refine ⟨found name before ++ found name l, found name r ++ found name after, ?_, ?_⟩
  all_goals
    rw [found_append, found_cons, found_mk_of_false (isPremis_eq_false hname ht), found_append, found_append]
    simp only [List.append_assoc]

theorem Edit.placed (h : Edit m m' es es') (hes : ∀ c ∈ es, placed c = true)
    (hm' : ∀ d ∈ m', placedInCharacteristics d = true) : ∀ c ∈ es', UpdateObject.placed c = true := by
  obtain ⟨before, t, attrib, l, r, after, ht⟩ := h
  have htag : isPremis2 t = false := by
    simp only [isPremis2, (isPremis_iff.mp ht).1]
    rfl
  simp only [List.mem_append, List.mem_cons, or_imp, forall_and, forall_eq] at hes ⊢
  refine ⟨hes.1, ?_, hes.2.2⟩
  have hc := hes.2.1
  simp only [UpdateObject.placed, free_mk, Element.tag, Element.children, ht, htag, if_true,
    Bool.and_eq_true, List.all_append, List.all_eq_true, Bool.not_false, true_and] at hc ⊢
  obtain ⟨⟨⟨hl, -⟩, hr⟩, ⟨hl', -⟩, hr'⟩ := hc
  refine ⟨⟨⟨hl, fun d hd => ?_⟩, hr⟩, ⟨hl', hm'⟩, hr'⟩
  have := hm' d hd
  rw [placedInCharacteristics, Bool.and_eq_true] at this
  exact this.1

-- The digest.

-- The first one has the text, the others are as before.
def HeadSet (text : Str) (before after : List (Option Str)) : Prop :=
  ∃ old rest, before = old :: rest ∧ after = some text :: rest

theorem HeadSet.append {before after : List (Option Str)} (h : HeadSet text before after) (l : List (Option Str)) :
    HeadSet text (before ++ l) (after ++ l) := by
  obtain ⟨old, rest, rfl, rfl⟩ := h
  exact ⟨old, rest ++ l, rfl, rfl⟩

theorem found_set (hx : isPremis name x.tag = true) :
    HeadSet text (found name [x]) (found name [setText text x]) := by
  obtain ⟨t, attrib, children⟩ := x
  rw [Element.tag] at hx
  refine ⟨Dict.get? attrib .text, found name children, ?_, ?_⟩
  · rw [found_mk, if_pos hx, List.singleton_append]
  · simp [setText, Element.set, found_mk, hx, Dict.get?_set]

theorem found_set_of_ne {name' : Name} (hne : name ≠ name') (hx : isPremis name' x.tag = true) :
    found name [setText text x] = found name [x] := by
  obtain ⟨t, attrib, children⟩ := x
  rw [Element.tag] at hx
  simp [setText, Element.set, found_mk, isPremis_eq_false hne hx]

theorem setTextOf_eq_some (h : setTextOf name text es = some es') :
    ∃ before x after, es = before ++ x :: after ∧ (∀ b ∈ before, isPremis name b.tag = false) ∧
      isPremis name x.tag = true ∧ es' = before ++ setText text x :: after := by
  obtain ⟨before, x, after, new, rfl, hbefore, hx, rfl⟩ := replaceFirst?_eq_some h
  have hx : isPremis name x.tag = true ∧ new = [setText text x] := by
    split_ifs at hx with htag
    exact ⟨htag, (Option.some.inj hx).symm⟩
  refine ⟨before, x, after, rfl, fun b hb => ?_, hx.1, by simp [hx.2]⟩
  have := hbefore b hb
  simpa using this

theorem found_setTextOf_of_ne {name' : Name} (hne : name ≠ name') (h : setTextOf name' text es = some es') :
    found name es' = found name es := by
  obtain ⟨before, x, after, rfl, -, hx, rfl⟩ := setTextOf_eq_some h
  rw [found_append, found_cons, found_set_of_ne hne hx, ← found_cons, ← found_append]

theorem found_eq_nil_of_placedInFixity (hname : name ∈ [Name.messageDigestAlgorithm, .messageDigest])
    (hx : placedInFixity x = true) (htag : isPremis name x.tag = false) : found name [x] = [] := by
  have hdigest : name ∈ digestNames := List.mem_cons_of_mem _ hname
  rw [placedInFixity, Bool.or_eq_true, Bool.and_eq_true, List.all_eq_true] at hx
  rcases hx with hfree | ⟨-, hchildren⟩
  · exact found_singleton_eq_nil hdigest hfree
  · obtain ⟨t, attrib, children⟩ := x
    rw [Element.tag] at htag
    rw [found_mk_of_false htag]
    exact found_eq_nil hdigest hchildren

theorem found_eq_flatMap (es : List El) : found name es = es.flatMap fun e => found name [e] := by
  induction es with
  | nil => rfl
  | cons e es ih => rw [found_cons, ih, List.flatMap_cons]

theorem found_setTextOf (hname : name ∈ [Name.messageDigestAlgorithm, .messageDigest])
    (hes : ∀ x ∈ es, placedInFixity x = true) (h : setTextOf name text es = some es') :
    HeadSet text (found name es) (found name es') := by
  obtain ⟨before, x, after, rfl, hbefore, hx, rfl⟩ := setTextOf_eq_some h
  have hnil : found name before = [] := by
    rw [found_eq_flatMap, List.flatMap_eq_nil_iff]
    exact fun b hb =>
      found_eq_nil_of_placedInFixity hname (hes b (List.mem_append_left _ hb)) (hbefore b hb)
  rw [found_append, found_append, found_cons x after, found_cons (setText text x) after, hnil,
    List.nil_append, List.nil_append]
  exact (found_set hx).append _

theorem placedInFixity_setText (hplaced : placedInFixity x = true) :
    placedInFixity (setText text x) = true := by
  obtain ⟨t, attrib, children⟩ := x
  simpa [placedInFixity, setText, Element.set, freeOf, free_mk, Element.tag, Element.children] using hplaced

theorem forall_setTextOf {P : El → Prop} (hP : ∀ x ∈ es, isPremis name x.tag = true → P x → P (setText text x))
    (hes : ∀ x ∈ es, P x) (h : setTextOf name text es = some es') : ∀ x ∈ es', P x := by
  obtain ⟨before, x, after, rfl, hbefore, hx, rfl⟩ := setTextOf_eq_some h
  simp only [List.mem_append, List.mem_cons, or_imp, forall_and, forall_eq] at hes hP ⊢
  exact ⟨hes.1, hP.2.1 hx hes.2.1, hes.2.2⟩

theorem setFixity_eq_some (h : setFixity row d = some x') :
    ∃ xs xs', setTextOf .messageDigestAlgorithm row.checksumtype d.children = some xs ∧
      setTextOf .messageDigest row.checksum xs = some xs' ∧ x' = .mk d.tag d.attrib xs' := by
  obtain ⟨xs, hxs, h⟩ := Option.bind_eq_some_iff.mp h
  obtain ⟨xs', hxs', rfl⟩ := Option.map_eq_some_iff.mp h
  exact ⟨xs, xs', hxs, hxs', rfl⟩

theorem free_setText (p : Tag → Bool) (x : El) : (setText text x).free p = x.free p := by
  obtain ⟨t, attrib, children⟩ := x
  simp [setText, Element.set, free_mk]

-- A fixity that has been set.
structure Set (row : FileRow) (d d' : El) : Prop where
  placed : placedInCharacteristics d' = true
  digest : HeadSet row.checksum (found .messageDigest [d]) (found .messageDigest [d'])
  algorithm : HeadSet row.checksumtype (found .messageDigestAlgorithm [d])
    (found .messageDigestAlgorithm [d'])
  other : ∀ name ∈ registryNames ++ relationNames ++ otherNames, found name [d'] = found name [d]

theorem set_of_setFixity (hd : isPremis .fixity d.tag = true) (hplaced : placedInCharacteristics d = true)
    (h : setFixity row d = some x') : Set row d x' := by
  obtain ⟨xs, xs', hxs, hxs', rfl⟩ := setFixity_eq_some h
  obtain ⟨t, attrib, children⟩ := d
  rw [Element.tag] at hd
  rw [Element.children] at hxs
  simp only [Element.tag, Element.attrib]
  simp only [placedInCharacteristics, Element.tag, Element.children, hd, if_true, Bool.and_eq_true,
    List.all_eq_true, freeOf, free_mk] at hplaced
  obtain ⟨⟨htag2, hfree2⟩, ⟨htag, hfree⟩, hin⟩ := hplaced
  have hin' : ∀ x ∈ xs, placedInFixity x = true :=
    forall_setTextOf (fun _ _ _ => placedInFixity_setText) hin hxs
  have hin'' : ∀ x ∈ xs', placedInFixity x = true :=
    forall_setTextOf (fun _ _ _ => placedInFixity_setText) hin' hxs'
  have hkept : ∀ p : Tag → Bool, (∀ x ∈ children, x.free p = true) → ∀ x ∈ xs', x.free p = true :=
    fun p hp => forall_setTextOf (fun x _ _ h => (free_setText p x).trans h)
      (forall_setTextOf (fun x _ _ h => (free_setText p x).trans h) hp hxs) hxs'
  refine ⟨?_, ?_, ?_, fun name hname => ?_⟩
  · simp only [placedInCharacteristics, Element.tag, Element.children, hd, if_true, Bool.and_eq_true,
      List.all_eq_true, freeOf, free_mk]
    exact ⟨⟨htag2, hkept _ hfree2⟩, ⟨htag, hkept _ hfree⟩, hin''⟩
  · rw [found_mk_of_false (isPremis_eq_false (by simp) hd), found_mk_of_false (isPremis_eq_false (by simp) hd),
      ← found_setTextOf_of_ne (by simp) hxs]
    exact found_setTextOf (by simp) hin' hxs'
  · rw [found_mk_of_false (isPremis_eq_false (by simp) hd), found_mk_of_false (isPremis_eq_false (by simp) hd),
      found_setTextOf_of_ne (by simp) hxs']
    exact found_setTextOf (by simp) hin hxs
  · have hne : name ≠ .messageDigest ∧ name ≠ .messageDigestAlgorithm ∧ name ≠ .fixity := by
      revert name
      decide
    rw [found_mk_of_false (isPremis_eq_false hne.2.2 hd), found_mk_of_false (isPremis_eq_false hne.2.2 hd),
      found_setTextOf_of_ne hne.1 hxs', found_setTextOf_of_ne hne.2.1 hxs]

-- The first fixity of an object that is placed is one of the objectCharacteristics.

theorem freeOf_digestNames (h : placedInCharacteristics d = true) (htag : isPremis .fixity d.tag = false) :
    freeOf digestNames d = true := by
  rw [placedInCharacteristics, Bool.and_eq_true, htag] at h
  have hrest := h.2
  simp only [Bool.false_eq_true, if_false] at hrest
  split_ifs at hrest
  all_goals exact freeOf_of_subset (by decide) hrest

theorem freeOf_digestNames_of_placed (h : placed c = true) (htag : isPremis .objectCharacteristics c.tag = false) :
    freeOf digestNames c = true := by
  rw [placed, Bool.and_eq_true, htag] at h
  have hrest := h.2
  simp only [Bool.false_eq_true, if_false] at hrest
  split_ifs at hrest
  all_goals exact freeOf_of_subset (by decide) hrest

theorem placedInCharacteristics_of_placed {attrib : Dict Attr Str} {children : List El}
    (h : placed (.mk t attrib children) = true) (ht : isPremis .objectCharacteristics t = true) :
    ∀ d ∈ children, placedInCharacteristics d = true := by
  rw [placed, Bool.and_eq_true, Element.tag, ht] at h
  exact List.all_eq_true.mp h.2

-- There is no digest where there is no fixity.

theorem found_digest_eq_nil (hname : name ∈ digestNames) (hes : ∀ d ∈ es, placedInCharacteristics d = true)
    (hfree : ∀ d ∈ es, d.free (isPremis .fixity) = true) : found name es = [] :=
  found_eq_nil hname fun d hd => freeOf_digestNames (hes d hd) (free_iff.mp (hfree d hd)).1

theorem found_digest_eq_nil_of_placed (hname : name ∈ digestNames) (hes : ∀ c ∈ es, placed c = true)
    (hfree : ∀ c ∈ es, c.free (isPremis .fixity) = true) : found name es = [] := by
  rw [found_eq_flatMap, List.flatMap_eq_nil_iff]
  intro c hc
  cases htag : isPremis .objectCharacteristics c.tag with
  | false => exact found_singleton_eq_nil hname (freeOf_digestNames_of_placed (hes c hc) htag)
  | true =>
      have hc' := hes c hc
      have hfixity := (free_iff.mp (hfree c hc)).2
      obtain ⟨t, attrib, children⟩ := c
      rw [Element.tag] at htag
      have hne : name ≠ .objectCharacteristics := by
        revert name
        decide
      rw [found_mk_of_false (isPremis_eq_false hne htag)]
      exact found_digest_eq_nil hname (placedInCharacteristics_of_placed hc' htag) hfixity

theorem modifyFirst_of_tag {p : Tag → Bool} {f : El → Option El} (hx : p x.tag = true) :
    modifyFirst p f x = f x := by
  obtain ⟨t, attrib, children⟩ := x
  rw [Element.tag] at hx
  rw [modifyFirst, if_pos hx]

theorem modifyFirst_fixity (hc : placed c = true) (hfree : c.free (isPremis .fixity) = false)
    (h : modifyFirst (isPremis .fixity) (setFixity row) c = some x) :
    ∃ t attrib l d d' r, c = .mk t attrib (l ++ [d] ++ r) ∧ x = .mk t attrib (l ++ [d'] ++ r) ∧
      isPremis .objectCharacteristics t = true ∧ (∀ e ∈ l, e.free (isPremis .fixity) = true) ∧
      isPremis .fixity d.tag = true ∧ setFixity row d = some d' := by
  have htag : isPremis .objectCharacteristics c.tag = true := by
    by_contra htag
    have hnone : c.free (isPremis .fixity) = true :=
      free_isPremis (by decide) (freeOf_digestNames_of_placed hc (Bool.eq_false_iff.mpr htag))
    rw [hfree] at hnone
    cases hnone
  obtain ⟨t, attrib, children⟩ := c
  rw [Element.tag] at htag
  rw [modifyFirst, if_neg (by rw [isPremis_eq_false (by decide) htag]; decide)] at h
  obtain ⟨children', hchildren', rfl⟩ := Option.map_eq_some_iff.mp h
  obtain ⟨l, d, r, d', rfl, hl, hd, hd', rfl⟩ := modifyFirstAll_eq_some hchildren'
  have hplaced := placedInCharacteristics_of_placed hc htag d (by simp)
  have hdtag : isPremis .fixity d.tag = true := by
    by_contra hdtag
    have hnone : d.free (isPremis .fixity) = true :=
      free_isPremis (by decide) (freeOf_digestNames hplaced (Bool.eq_false_iff.mpr hdtag))
    rw [hd] at hnone
    cases hnone
  rw [modifyFirst_of_tag hdtag] at hd'
  exact ⟨t, attrib, l, d, d', r, by simp, rfl, htag, hl, hdtag, hd'⟩

-- The object after its digest.
structure Checked (row : FileRow) (es es' : List El) : Prop where
  placed : ∀ c ∈ es', placed c = true
  digest : HeadSet row.checksum (found .messageDigest es) (found .messageDigest es')
  algorithm : HeadSet row.checksumtype (found .messageDigestAlgorithm es) (found .messageDigestAlgorithm es')
  other : ∀ name ∈ registryNames ++ relationNames ++ otherNames, found name es' = found name es

theorem checked_of_updateChecksum (hes : ∀ c ∈ es, placed c = true) (h : env.updateChecksum u es = some es') :
    ∃ row, env.row u = some row ∧ Checked row es es' := by
  obtain ⟨row, hrow, h⟩ := Option.bind_eq_some_iff.mp h
  obtain ⟨before, c, after, c', rfl, hbefore, hc, hc', rfl⟩ := modifyFirstAll_eq_some h
  have hplaced := hes c (by simp)
  obtain ⟨t, attrib, l, d, d', r, rfl, rfl, ht, hl, hd, hd'⟩ := modifyFirst_fixity hplaced hc hc'
  have hin := placedInCharacteristics_of_placed hplaced ht
  have hset := set_of_setFixity hd (hin d (by simp)) hd'
  -- there is no digest before the fixity
  have hfirst : ∀ name ∈ [Name.messageDigestAlgorithm, .messageDigest], ∀ d,
      found name (before ++ [.mk t attrib (l ++ [d] ++ r)] ++ after) =
        found name [d] ++ (found name r ++ found name after) := by
    intro name hname d
    have hdigest : name ∈ digestNames := List.mem_cons_of_mem _ hname
    have hne : name ≠ .objectCharacteristics := by
      revert name
      decide
    have hbefore' : found name before = [] :=
      found_digest_eq_nil_of_placed hdigest (fun c hc => hes c (List.mem_append_left _ hc)) hbefore
    have hl' : found name l = [] := found_digest_eq_nil hdigest (fun d hd => hin d (by simp [hd])) hl
    rw [found_append, found_append, found_mk_of_false (isPremis_eq_false hne ht), found_append, found_append,
      hbefore', hl', List.nil_append, List.nil_append, List.append_assoc]
  have hedit : Edit [d] [d'] (before ++ [.mk t attrib (l ++ [d] ++ r)] ++ after)
      (before ++ [.mk t attrib (l ++ [d'] ++ r)] ++ after) := by
    simpa using (Edit.mk before t attrib l r after ht : Edit [d] [d'] _ _)
  rw [List.append_cons] at hes ⊢
  refine ⟨row, hrow, hedit.placed hes (by simpa using hset.placed), ?_, ?_, ?_⟩
  · rw [hfirst _ (by simp), hfirst _ (by simp)]
    exact hset.digest.append _
  · rw [hfirst _ (by simp), hfirst _ (by simp)]
    exact hset.algorithm.append _
  · intro name hname
    have hne : name ≠ .objectCharacteristics := by
      revert name
      decide
    obtain ⟨A, B, hA, hB⟩ := hedit.found_eq hne
    rw [hA, hB, hset.other name hname]

-- The formats, which are the only ones with a registry.

theorem freeOf_registryNames (h : placedInCharacteristics d = true) (htag : isPremis .format d.tag = false) :
    freeOf registryNames d = true := by
  rw [placedInCharacteristics, Bool.and_eq_true, htag] at h
  have hrest := h.2
  simp only [Bool.false_eq_true, if_false] at hrest
  split_ifs at hrest
  · exact freeOf_of_subset (by decide) (Bool.and_eq_true_iff.mp hrest).1
  all_goals exact freeOf_of_subset (by decide) hrest

theorem freeOf_of_format (h : placedInCharacteristics d = true) (htag : isPremis .format d.tag = true) :
    freeOf (digestNames ++ relationNames ++ otherNames) d = true := by
  rw [placedInCharacteristics, Bool.and_eq_true, htag, isPremis_eq_false (by decide) htag] at h
  simpa using h.2

theorem freeOf_of_extension (h : placedInCharacteristics d = true)
    (htag : isPremis .objectCharacteristicsExtension d.tag = true) :
    freeOf (digestNames ++ registryNames ++ relationNames ++ otherNames) d = true := by
  rw [placedInCharacteristics, Bool.and_eq_true, htag, isPremis_eq_false (by decide) htag,
    isPremis_eq_false (by decide) htag] at h
  simpa using h.2

theorem freeOf_relationNames (h : placedInCharacteristics d = true) : freeOf relationNames d = true := by
  rw [placedInCharacteristics, Bool.and_eq_true] at h
  have hrest := h.2
  split_ifs at hrest
  · exact freeOf_of_subset (by decide) (Bool.and_eq_true_iff.mp hrest).1
  all_goals exact freeOf_of_subset (by decide) hrest

theorem freeOf_of_placed (h : placed c = true) (htag : isPremis .objectCharacteristics c.tag = false) :
    freeOf registryNames c = true := by
  rw [placed, Bool.and_eq_true, htag] at h
  have hrest := h.2
  simp only [Bool.false_eq_true, if_false] at hrest
  split_ifs at hrest
  all_goals exact freeOf_of_subset (by decide) hrest

theorem freeOf_of_relationship (h : placed c = true) (htag : isPremis .relationship c.tag = true) :
    freeOf (digestNames ++ registryNames ++ otherNames) c = true := by
  rw [placed, Bool.and_eq_true, htag, isPremis_eq_false (by decide) htag] at h
  simpa using h.2

theorem found_relation_eq_nil (hname : name ∈ relationNames) (h : placed c = true)
    (htag : isPremis .relationship c.tag = false) : found name [c] = [] := by
  cases hoc : isPremis .objectCharacteristics c.tag with
  | false =>
      rw [placed, Bool.and_eq_true, htag, hoc] at h
      have hfree : freeOf (digestNames ++ registryNames ++ relationNames) c = true := by simpa using h.2
      exact found_singleton_eq_nil (List.mem_append_right _ hname) hfree
  | true =>
      obtain ⟨t, attrib, children⟩ := c
      rw [Element.tag] at hoc
      have hne : name ≠ .objectCharacteristics := by
        revert name
        decide
      rw [found_mk_of_false (isPremis_eq_false hne hoc)]
      exact found_eq_nil hname fun d hd =>
        freeOf_relationNames (placedInCharacteristics_of_placed h hoc d hd)

-- What goes has none of the name.
theorem found_dropInCharacteristics {gone : Name} (hne : name ≠ .objectCharacteristics)
    (hes : ∀ c ∈ es, placed c = true)
    (hgone : ∀ d, placedInCharacteristics d = true → isPremis gone d.tag = true → d.free (isPremis name) = true) :
    found name (dropInCharacteristics gone es) = found name es := by
  refine texts_map fun c hc => ?_
  split_ifs with htag
  · have hc' := hes c hc
    obtain ⟨t, attrib, children⟩ := c
    rw [Element.tag] at htag
    have hdrop : found name (dropNamed gone children) = found name children :=
      texts_filter _ fun d hd hkeep =>
        hgone d (placedInCharacteristics_of_placed hc' htag d hd) (by simpa using hkeep)
    rw [Element.tag, Element.children, Element.attrib]
    exact (found_mk_of_false (isPremis_eq_false hne htag)).trans
      (hdrop.trans (found_mk_of_false (isPremis_eq_false hne htag)).symm)
  · rfl

theorem placed_dropInCharacteristics {gone : Name} (hes : ∀ c ∈ es, placed c = true) :
    ∀ c ∈ dropInCharacteristics gone es, placed c = true := by
  intro c' hc'
  obtain ⟨c, hc, rfl⟩ := List.mem_map.mp hc'
  have hplaced := hes c hc
  split_ifs with htag
  · obtain ⟨t, attrib, children⟩ := c
    rw [Element.tag] at htag
    simp only [placed, free_mk, Element.tag, Element.attrib, Element.children, htag, if_true, Bool.and_eq_true,
      List.all_eq_true] at hplaced ⊢
    exact ⟨⟨hplaced.1.1, fun d hd => hplaced.1.2 d (List.mem_of_mem_filter hd)⟩,
      fun d hd => hplaced.2 d (List.mem_of_mem_filter hd)⟩
  · exact hplaced

theorem found_registry_dropInCharacteristics (hname : name ∈ registryNames) (hes : ∀ c ∈ es, placed c = true) :
    found name (dropInCharacteristics .format es) = [] := by
  rw [found_eq_flatMap, List.flatMap_eq_nil_iff]
  intro c' hc'
  obtain ⟨c, hc, rfl⟩ := List.mem_map.mp hc'
  have hplaced := hes c hc
  split_ifs with htag
  · obtain ⟨t, attrib, children⟩ := c
    rw [Element.tag] at htag
    have hne : name ≠ .objectCharacteristics := by
      revert name
      decide
    rw [Element.tag, Element.attrib, Element.children, found_mk_of_false (isPremis_eq_false hne htag)]
    refine found_eq_nil hname fun d hd => ?_
    obtain ⟨hd, hformat⟩ := List.mem_filter.mp hd
    exact freeOf_registryNames (placedInCharacteristics_of_placed hplaced htag d hd) (by simpa using hformat)
  · exact found_singleton_eq_nil hname (freeOf_of_placed hplaced (Bool.eq_false_iff.mpr htag))

theorem edit_of_addAfterSize (h : addAfterSize m es = some es') : Edit [] m.reverse es es' := by
  obtain ⟨before, c, after, new, rfl, -, hc, rfl⟩ := replaceFirst?_eq_some h
  split_ifs at hc with htag
  obtain ⟨children, hchildren, rfl⟩ := Option.map_eq_some_iff.mp hc
  obtain ⟨l, size, r, new, hsplit, -, hsize, rfl⟩ := replaceFirst?_eq_some hchildren
  split_ifs at hsize
  obtain rfl := Option.some.inj hsize
  obtain ⟨t, attrib, children⟩ := c
  obtain rfl : children = l ++ size :: r := hsplit
  simpa [Element.tag, Element.attrib] using
    (Edit.mk before t attrib (l ++ [size]) r after htag : Edit [] m.reverse _ _)

theorem edit_of_appendToCharacteristics (h : appendToCharacteristics m es = some es') : Edit [] m es es' := by
  obtain ⟨before, c, after, new, rfl, -, hc, rfl⟩ := replaceFirst?_eq_some h
  split_ifs at hc with htag
  obtain rfl := Option.some.inj hc
  obtain ⟨t, attrib, children⟩ := c
  simpa [Element.tag, Element.attrib, Element.children] using
    (Edit.mk before t attrib children [] after htag : Edit [] m _ _)

structure Preserves (names : List Name) (es es' : List El) : Prop where
  placed : ∀ c ∈ es', placed c = true
  found : ∀ name ∈ names, found name es' = found name es

theorem found_map {α : Type} (g : α → El) (l : List α) :
    found name (l.map g) = l.flatMap fun a => found name [g a] := by
  rw [found_eq_flatMap, List.flatMap_map]

theorem found_formatRegistryName (row : FileID) :
    found .formatRegistryName [Env.formatElement row] = [some row.formatRegistryName] := rfl

theorem found_formatRegistryKey (row : FileID) :
    found .formatRegistryKey [Env.formatElement row] = [some row.formatRegistryKey] := rfl

theorem placedInCharacteristics_formatElement (row : FileID) :
    placedInCharacteristics (Env.formatElement row) = true := rfl

theorem createPremisObjectFormats_eq (h : env.identified u = true) :
    env.createPremisObjectFormats u = (env.fileIDsOf u).map Env.formatElement := by
  rw [Env.createPremisObjectFormats, if_neg]
  simpa [Env.identified] using h

-- What is put in has none of the name.
theorem Edit.found_of_nil (h : Edit [] m' es es') (hname : name ≠ .objectCharacteristics)
    (hm' : found name m' = []) : found name es' = found name es := by
  obtain ⟨A, B, hA, hB⟩ := h.found_eq hname
  rw [hA, hB, hm', found_nil]

-- There is none of the name but in what is put in.
theorem Edit.found_of_empty (h : Edit [] m' es es') (hname : name ≠ .objectCharacteristics)
    (hes : found name es = []) : found name es' = found name m' := by
  obtain ⟨A, B, hA, hB⟩ := h.found_eq hname
  rw [hA, found_nil, List.append_nil, List.append_eq_nil_iff] at hes
  rw [hB, hes.1, hes.2, List.nil_append, List.append_nil]

theorem found_reverse_formats (rows : List FileID) (f : FileID → Str)
    (hf : ∀ row, found name [Env.formatElement row] = [some (f row)]) :
    found name (rows.map Env.formatElement).reverse = (rows.map fun row => some (f row)).reverse := by
  rw [← List.map_reverse, found_map, ← List.map_reverse, List.map_eq_flatMap]
  exact List.flatMap_congr fun row _ => hf row

theorem preserves_updateFormats (hidentified : env.identified u = true) (hes : ∀ c ∈ es, placed c = true)
    (h : env.updateFormats u es = some es') :
    Preserves ([.messageDigestAlgorithm, .messageDigest] ++ relationNames ++ otherNames) es es' ∧
      found .formatRegistryName es' = ((env.fileIDsOf u).map fun row => some row.formatRegistryName).reverse ∧
      found .formatRegistryKey es' = ((env.fileIDsOf u).map fun row => some row.formatRegistryKey).reverse := by
  rw [Env.updateFormats, createPremisObjectFormats_eq hidentified] at h
  have hedit := edit_of_addAfterSize h
  have hdropped : ∀ c ∈ dropInCharacteristics .format es, placed c = true :=
    placed_dropInCharacteristics hes
  have hnew : ∀ d ∈ ((env.fileIDsOf u).map Env.formatElement).reverse, placedInCharacteristics d = true := by
    simp only [List.mem_reverse, List.mem_map, forall_exists_index, and_imp, forall_apply_eq_imp_iff₂]
    exact fun row _ => placedInCharacteristics_formatElement row
  refine ⟨⟨hedit.placed hdropped hnew, fun name hname => ?_⟩, ?_, ?_⟩
  · have hne : name ≠ .objectCharacteristics := by
      revert name
      decide
    have hin : name ∈ digestNames ++ relationNames ++ otherNames := by
      revert name
      decide
    rw [hedit.found_of_nil hne (found_eq_nil hin fun d hd => ?_),
      found_dropInCharacteristics hne hes fun d hd htag => free_isPremis hin (freeOf_of_format hd htag)]
    obtain ⟨row, -, rfl⟩ := List.mem_map.mp (List.mem_reverse.mp hd)
    exact freeOf_of_format (placedInCharacteristics_formatElement row) rfl
  · rw [hedit.found_of_empty (by decide) (found_registry_dropInCharacteristics (by decide) hes)]
    exact found_reverse_formats _ _ found_formatRegistryName
  · rw [hedit.found_of_empty (by decide) (found_registry_dropInCharacteristics (by decide) hes)]
    exact found_reverse_formats _ _ found_formatRegistryKey

-- The outputs of the characterization of the file have nothing of PREMIS in them.
def Plain (env : Env) (u : UUID) : Prop :=
  ∀ row ∈ env.outputsOf u, ∀ content document, row.content = some content → env.xml content = some document →
    ∀ x ∈ document.iter, x.tag.space ≠ .premis ∧ x.tag.space ≠ .premis2

theorem placedInCharacteristics_extension {documents : List El}
    (h : ∀ document ∈ documents, ∀ x ∈ document.iter, x.tag.space ≠ .premis ∧ x.tag.space ≠ .premis2) :
    placedInCharacteristics (node .objectCharacteristicsExtension documents) = true := by
  have hfree : ∀ document ∈ documents, ∀ names, freeOf names document = true := by
    intro document hdocument names
    rw [freeOf, free, List.all_eq_true]
    intro x hx
    simp [inPremis, (h document hdocument x hx).1]
  have hfree2 : ∀ document ∈ documents, document.free isPremis2 = true := by
    intro document hdocument
    rw [free, List.all_eq_true]
    intro x hx
    simp [isPremis2, (h document hdocument x hx).2]
  have htag : isPremis .objectCharacteristicsExtension (premisTag .objectCharacteristicsExtension) = true := rfl
  have hfixity : isPremis .fixity (premisTag .objectCharacteristicsExtension) = false := rfl
  have hformat : isPremis .format (premisTag .objectCharacteristicsExtension) = false := rfl
  rw [placedInCharacteristics, node, Element.tag, hfixity, hformat, htag, free_mk]
  simp only [Bool.false_eq_true, if_false, if_true, Bool.and_eq_true, List.all_eq_true]
  refine ⟨⟨rfl, hfree2⟩, ?_⟩
  rw [freeOf, free_mk, Bool.and_eq_true, List.all_eq_true]
  exact ⟨rfl, fun document hdocument => hfree document hdocument _⟩

theorem placed_of_createExtensions {new : List El} (hplain : Plain env u)
    (h : env.createPremisObjectCharacteristicsExtensions u = some new) :
    ∀ d ∈ new, placedInCharacteristics d = true ∧ isPremis .objectCharacteristicsExtension d.tag = true := by
  obtain ⟨documents, hdocuments, rfl⟩ := Option.map_eq_some_iff.mp h
  intro d hd
  split_ifs at hd
  · cases hd
  · obtain rfl := List.mem_singleton.mp hd
    refine ⟨placedInCharacteristics_extension fun document hdocument => ?_, rfl⟩
    obtain ⟨row, hrow, hread⟩ := (MapM.mem_mapM hdocuments).mp hdocument
    obtain ⟨content, hcontent, hxml⟩ := Option.bind_eq_some_iff.mp hread
    exact hplain row hrow content document hcontent hxml

theorem preserves_updateExtension (hplain : Plain env u) (hes : ∀ c ∈ es, placed c = true)
    (h : env.updateExtension u es = some es') :
    Preserves ([.messageDigestAlgorithm, .messageDigest] ++ registryNames ++ relationNames ++ otherNames) es es' := by
  obtain ⟨new, hnew, h⟩ := Option.bind_eq_some_iff.mp h
  have hplaced := placed_of_createExtensions hplain hnew
  have hedit := edit_of_appendToCharacteristics h
  have hdropped : ∀ c ∈ dropInCharacteristics .objectCharacteristicsExtension es, placed c = true :=
    placed_dropInCharacteristics hes
  refine ⟨hedit.placed hdropped fun d hd => (hplaced d hd).1, fun name hname => ?_⟩
  have hne : name ≠ .objectCharacteristics := by
    revert name
    decide
  have hin : name ∈ digestNames ++ registryNames ++ relationNames ++ otherNames := by
    revert name
    decide
  rw [hedit.found_of_nil hne (found_eq_nil hin fun d hd => freeOf_of_extension (hplaced d hd).1 (hplaced d hd).2),
    found_dropInCharacteristics hne hes fun d hd htag => free_isPremis hin (freeOf_of_extension hd htag)]

-- The relationships as they are read.
def Env.relationshipsOf (env : Env) (u : UUID) : List Relationship :=
  (env.derivativesOf u).map (fun related => ⟨[isSourceOf], [related.1.string], [related.2.string]⟩) ++
    (env.sourcesOf u).map fun related => ⟨[hasSource], [related.1.string], [related.2.string]⟩

theorem found_createPremisObjectDerivations {f : Relationship → List Str}
    (hf : ∀ subType (related : UUID × UUID), found name [Env.relationshipElement subType related] =
      (f ⟨[subType], [related.1.string], [related.2.string]⟩).map some) :
    found name (env.createPremisObjectDerivations u) = ((env.relationshipsOf u).flatMap f).map some := by
  simp only [Env.createPremisObjectDerivations, Env.relationshipsOf, found_append, found_map, hf,
    List.flatMap_append, List.map_append, List.flatMap_map, List.map_flatMap]

theorem placed_createPremisObjectDerivations :
    ∀ c ∈ env.createPremisObjectDerivations u, placed c = true ∧ isPremis .relationship c.tag = true := by
  simp only [Env.createPremisObjectDerivations, List.mem_append, List.mem_map]
  rintro c (⟨related, -, rfl⟩ | ⟨related, -, rfl⟩)
  · exact ⟨rfl, rfl⟩
  · exact ⟨rfl, rfl⟩

theorem preserves_updateRelationships (hes : ∀ c ∈ es, placed c = true)
    (h : env.updateRelationships u es = some es') :
    Preserves ([.messageDigestAlgorithm, .messageDigest] ++ registryNames ++ otherNames) es es' ∧
      found .relationshipSubType es' = ((env.relationshipsOf u).flatMap (·.relationshipSubType)).map some ∧
      found .relatedObjectIdentifierValue es' =
        ((env.relationshipsOf u).flatMap (·.relatedObjectIdentifierValue)).map some ∧
      found .relatedEventIdentifierValue es' =
        ((env.relationshipsOf u).flatMap (·.relatedEventIdentifierValue)).map some := by
  obtain rfl := Option.some.inj h
  have hnil : ∀ name ∈ relationNames, found name (dropNamed .relationship es) = [] := by
    intro name hname
    rw [found_eq_flatMap, List.flatMap_eq_nil_iff]
    intro c hc
    obtain ⟨hc, hkeep⟩ := List.mem_filter.mp hc
    exact found_relation_eq_nil hname (hes c hc) (by simpa using hkeep)
  refine ⟨⟨fun c hc => ?_, fun name hname => ?_⟩, ?_, ?_, ?_⟩
  · rcases List.mem_append.mp hc with hc | hc
    · exact hes c (List.mem_of_mem_filter hc)
    · exact (placed_createPremisObjectDerivations c hc).1
  · have hin : name ∈ digestNames ++ registryNames ++ otherNames := by
      revert name
      decide
    have hdrop : found name (dropNamed .relationship es) = found name es :=
      texts_filter _ fun c hc hkeep =>
        free_isPremis hin (freeOf_of_relationship (hes c hc) (by simpa using hkeep))
    have hnew : found name (env.createPremisObjectDerivations u) = [] := found_eq_nil hin fun c hc => by
      obtain ⟨hplaced, htag⟩ := placed_createPremisObjectDerivations c hc
      exact freeOf_of_relationship hplaced htag
    rw [found_append, hdrop, hnew, List.append_nil]
  · rw [found_append, hnil _ (by decide), List.nil_append]
    exact found_createPremisObjectDerivations fun _ _ => rfl
  · rw [found_append, hnil _ (by decide), List.nil_append]
    exact found_createPremisObjectDerivations fun _ _ => rfl
  · rw [found_append, hnil _ (by decide), List.nil_append]
    exact found_createPremisObjectDerivations fun _ _ => rfl

-- The four changes in turn.

theorem step_eq_some {needed : Bool} {change : List El → Option (List El)}
    (h : step needed change es = some es') :
    (needed = true ∧ change es = some es') ∨ (needed = false ∧ es' = es) := by
  rw [step] at h
  cases needed with
  | true => exact Or.inl ⟨rfl, h⟩
  | false => exact Or.inr ⟨rfl, (Option.some.inj h).symm⟩

def read (name : Name) (es : List El) : List Str := (found name es).map (·.getD [])

theorem HeadSet.read_eq (h : HeadSet text (found name es) (found name es')) :
    read name es' = text :: (read name es).tail := by
  obtain ⟨old, rest, hold, hnew⟩ := h
  simp [read, hold, hnew]

theorem read_eq_of_found_eq_map {l : List Str} (h : found name es = l.map some) : read name es = l := by
  simp [read, h]

-- What is read of the object, with what the database has for it.
def Env.object (env : Env) (u : UUID) (o : PremisObject) : PremisObject where
  objectIdentifier := o.objectIdentifier
  originalName := o.originalName
  messageDigest :=
    if env.redigested u then (env.row u).toList.map FileRow.checksum ++ o.messageDigest.tail
    else o.messageDigest
  messageDigestAlgorithm :=
    if env.redigested u then (env.row u).toList.map FileRow.checksumtype ++ o.messageDigestAlgorithm.tail
    else o.messageDigestAlgorithm
  size := o.size
  formatRegistryName :=
    if env.identified u then ((env.fileIDsOf u).map FileID.formatRegistryName).reverse
    else o.formatRegistryName
  formatRegistryKey :=
    if env.identified u then ((env.fileIDsOf u).map FileID.formatRegistryKey).reverse
    else o.formatRegistryKey
  relationship := if env.derives u then env.relationshipsOf u else o.relationship

structure ReadsFrom (texts : Name → List Str) (o : PremisObject) : Prop where
  objectIdentifier : o.objectIdentifier.map Prod.snd = texts .objectIdentifierValue
  originalName : o.originalName = texts .originalName
  messageDigest : o.messageDigest = texts .messageDigest
  messageDigestAlgorithm : o.messageDigestAlgorithm = texts .messageDigestAlgorithm
  size : o.size = texts .size
  formatRegistryName : o.formatRegistryName = texts .formatRegistryName
  formatRegistryKey : o.formatRegistryKey = texts .formatRegistryKey
  relationshipSubType : o.relationship.flatMap (·.relationshipSubType) = texts .relationshipSubType
  relatedObject :
    o.relationship.flatMap (·.relatedObjectIdentifierValue) = texts .relatedObjectIdentifierValue
  relatedEvent :
    o.relationship.flatMap (·.relatedEventIdentifierValue) = texts .relatedEventIdentifierValue

def Reads (e : El) (o : PremisObject) : Prop := ReadsFrom (fun name => textsOf name e) o

variable {o : PremisObject}

theorem preserves_of_step {needed : Bool} {change : List El → Option (List El)} (hes : ∀ c ∈ es, placed c = true)
    (h : step needed change es = some es')
    (hchange : needed = true → change es = some es' → Preserves names es es') : Preserves names es es' := by
  rcases step_eq_some h with ⟨hneeded, h⟩ | ⟨-, rfl⟩
  · exact hchange hneeded h
  · exact ⟨hes, fun _ _ => rfl⟩

theorem Preserves.read (h : Preserves names es es') (hname : name ∈ names) :
    read name es' = UpdateObject.read name es := congrArg (List.map _) (h.found name hname)

theorem Preserves.mono {names' : List Name} (h : Preserves names es es') (hsub : names' ⊆ names) :
    Preserves names' es es' := ⟨h.placed, fun name hname => h.found name (hsub hname)⟩

theorem Preserves.trans {es'' : List El} (h : Preserves names es es') (h' : Preserves names es' es'') :
    Preserves names es es'' :=
  ⟨h'.placed, fun name hname => (h'.found name hname).trans (h.found name hname)⟩

theorem preserves_checksum (hes : ∀ c ∈ es, placed c = true)
    (h : step (env.redigested u) (env.updateChecksum u) es = some es') :
    Preserves (registryNames ++ relationNames ++ otherNames) es es' := by
  refine preserves_of_step hes h fun _ h => ?_
  obtain ⟨row, -, hchecked⟩ := checked_of_updateChecksum hes h
  exact ⟨hchecked.placed, hchecked.other⟩

theorem read_checksum (hes : ∀ c ∈ es, placed c = true)
    (h : step (env.redigested u) (env.updateChecksum u) es = some es') :
    read .messageDigest es' =
        (if env.redigested u then (env.row u).toList.map FileRow.checksum ++ (read .messageDigest es).tail
          else read .messageDigest es) ∧
      read .messageDigestAlgorithm es' =
        if env.redigested u then
          (env.row u).toList.map FileRow.checksumtype ++ (read .messageDigestAlgorithm es).tail
        else read .messageDigestAlgorithm es := by
  rcases step_eq_some h with ⟨hneeded, h⟩ | ⟨hneeded, rfl⟩
  · obtain ⟨row, hrow, hchecked⟩ := checked_of_updateChecksum hes h
    simp [hneeded, hrow, hchecked.digest.read_eq, hchecked.algorithm.read_eq]
  · simp [hneeded]

theorem read_formats (hes : ∀ c ∈ es, placed c = true)
    (h : step (env.identified u) (env.updateFormats u) es = some es') :
    read .formatRegistryName es' =
        (if env.identified u then ((env.fileIDsOf u).map FileID.formatRegistryName).reverse
          else read .formatRegistryName es) ∧
      read .formatRegistryKey es' =
        if env.identified u then ((env.fileIDsOf u).map FileID.formatRegistryKey).reverse
        else read .formatRegistryKey es := by
  rcases step_eq_some h with ⟨hneeded, h⟩ | ⟨hneeded, rfl⟩
  · obtain ⟨-, hregistry, hkey⟩ := preserves_updateFormats hneeded hes h
    rw [hneeded, if_pos rfl, if_pos rfl]
    exact ⟨read_eq_of_found_eq_map (by simp [hregistry]), read_eq_of_found_eq_map (by simp [hkey])⟩
  · simp [hneeded]

theorem read_relationships (hes : ∀ c ∈ es, placed c = true)
    (h : step (env.derives u) (env.updateRelationships u) es = some es') (hderives : env.derives u = true) :
    read .relationshipSubType es' = (env.relationshipsOf u).flatMap (·.relationshipSubType) ∧
      read .relatedObjectIdentifierValue es' =
        (env.relationshipsOf u).flatMap (·.relatedObjectIdentifierValue) ∧
      read .relatedEventIdentifierValue es' =
        (env.relationshipsOf u).flatMap (·.relatedEventIdentifierValue) := by
  rw [step, if_pos hderives] at h
  obtain ⟨-, hsubType, hobject, hevent⟩ := preserves_updateRelationships hes h
  exact ⟨read_eq_of_found_eq_map hsubType, read_eq_of_found_eq_map hobject, read_eq_of_found_eq_map hevent⟩

theorem updateContents_eq_some {new new' : El} (h : env.updateContents u new = some new') :
    ∃ es₁ es₂ es₃ es₄, step (env.redigested u) (env.updateChecksum u) new.children = some es₁ ∧
      step (env.identified u) (env.updateFormats u) es₁ = some es₂ ∧
      step (env.characterized u) (env.updateExtension u) es₂ = some es₃ ∧
      step (env.derives u) (env.updateRelationships u) es₃ = some es₄ ∧
      new' = .mk new.tag new.attrib es₄ := by
  obtain ⟨es₄, hes, rfl⟩ := Option.map_eq_some_iff.mp h
  obtain ⟨es₃, hes, h₄⟩ := Option.bind_eq_some_iff.mp hes
  obtain ⟨es₂, hes, h₃⟩ := Option.bind_eq_some_iff.mp hes
  obtain ⟨es₁, h₁, h₂⟩ := Option.bind_eq_some_iff.mp hes
  exact ⟨es₁, es₂, es₃, es₄, h₁, h₂, h₃, h₄, rfl⟩

theorem readsFrom_updateContents {new new' : El} (hplain : Plain env u)
    (hplaced : ∀ c ∈ new.children, placed c = true)
    (h : env.updateContents u new = some new') (ho : ReadsFrom (fun name => read name new.children) o) :
    (∀ c ∈ new'.children, placed c = true) ∧
      ReadsFrom (fun name => read name new'.children) (env.object u o) := by
  obtain ⟨es₁, es₂, es₃, es₄, h₁, h₂, h₃, h₄, rfl⟩ := updateContents_eq_some h
  have k₁ := preserves_checksum hplaced h₁
  have k₂ := preserves_of_step k₁.placed h₂ fun hneeded h => (preserves_updateFormats hneeded k₁.placed h).1
  have k₃ := preserves_of_step k₂.placed h₃ fun _ h => preserves_updateExtension hplain k₂.placed h
  have k₄ := preserves_of_step k₃.placed h₄ fun _ h => (preserves_updateRelationships k₃.placed h).1
  have hother : Preserves otherNames new.children es₄ :=
    (k₁.mono (by decide)).trans ((k₂.mono (by decide)).trans ((k₃.mono (by decide)).trans (k₄.mono (by decide))))
  have hdigest : Preserves [.messageDigestAlgorithm, .messageDigest] es₁ es₄ :=
    (k₂.mono (by decide)).trans ((k₃.mono (by decide)).trans (k₄.mono (by decide)))
  have hregistry : Preserves registryNames es₂ es₄ := (k₃.mono (by decide)).trans (k₄.mono (by decide))
  have hregistry₁ : Preserves registryNames new.children es₁ := k₁.mono (by decide)
  have hrelation : Preserves relationNames new.children es₃ :=
    (k₁.mono (by decide)).trans ((k₂.mono (by decide)).trans (k₃.mono (by decide)))
  obtain ⟨hchecksum, hchecksumtype⟩ := read_checksum hplaced h₁
  obtain ⟨hformat, hkey⟩ := read_formats k₁.placed h₂
  refine ⟨k₄.placed, ?_⟩
  simp only [Element.children]
  constructor
  · exact ho.objectIdentifier.trans (hother.read (by decide)).symm
  · exact ho.originalName.trans (hother.read (by decide)).symm
  · rw [hdigest.read (by decide), hchecksum, ← ho.messageDigest]
    rfl
  · rw [hdigest.read (by decide), hchecksumtype, ← ho.messageDigestAlgorithm]
    rfl
  · exact ho.size.trans (hother.read (by decide)).symm
  · rw [hregistry.read (by decide), hformat, hregistry₁.read (by decide), ← ho.formatRegistryName]
    rfl
  · rw [hregistry.read (by decide), hkey, hregistry₁.read (by decide), ← ho.formatRegistryKey]
    rfl
  all_goals
    simp only [Env.object]
    cases hderives : env.derives u with
    | true =>
        obtain ⟨hsubType, hobject, hevent⟩ := read_relationships k₃.placed h₄ hderives
        simp [hsubType, hobject, hevent]
    | false =>
        rw [step, hderives] at h₄
        obtain rfl := Option.some.inj h₄
        rw [hrelation.read (by decide)]
        simp [ho.relationshipSubType, ho.relatedObject, ho.relatedEvent]

-- What is found in the document as it was.

theorem found_eq_texts_of_versioned {p : Tag → Bool} (h : ∀ e ∈ es, ∀ x ∈ e.iter, x.tag.space ≠ .premis ∧
      (x.tag.space = .premis2 → toPremis x.tag = { x.tag with space := .premis }))
    (hp : p = inPremis2 [name]) : found name (es.map (mapTag toPremis)) = texts .text p es := by
  subst hp
  rw [found, texts_map_mapTag]
  refine texts_congr fun e he x hx => ?_
  obtain ⟨hspace, hrename⟩ := h e he x hx
  by_cases h2 : x.tag.space = .premis2
  · rw [hrename h2]
    simp [isPremis, inPremis, inPremis2, h2]
  · have hsame : toPremis x.tag = x.tag := by
      rw [toPremis]
      split_ifs
      all_goals rfl
    rw [hsame]
    simp [isPremis, inPremis, inPremis2, h2, hspace]

theorem free_inPremis2_of_placed (h : placed c = true) : c.free (inPremis2 [name]) = true := by
  rw [placed, Bool.and_eq_true] at h
  refine free_of_le (fun t ht => ?_) h.1
  simp only [inPremis2, Bool.and_eq_true] at ht
  exact ht.1

theorem textsOf_eq_read {e : El} (htag : isPremis .object e.tag = true) (hplaced : ∀ c ∈ e.children, placed c = true)
    (hname : name ≠ .object) : textsOf name e = read name e.children := by
  obtain ⟨t, attrib, children⟩ := e
  rw [Element.tag] at htag
  rw [Element.children] at hplaced
  have hfound : texts .text (isPremis name) [.mk t attrib children] = found name children :=
    texts_mk_of_false (isPremis_eq_false hname htag)
  have htag2 : inPremis2 [name] t = false := by
    simp [inPremis2, (isPremis_iff.mp htag).1]
  have hfree : texts .text (inPremis2 [name]) [.mk t attrib children] = [] := by
    rw [texts_mk_of_false htag2]
    exact texts_eq_nil_of_free fun c hc => free_inPremis2_of_placed (hplaced c hc)
  rw [textsOf, hfound, hfree]
  simp only [Element.children, read]
  split_ifs with hnil
  · rw [hnil]
  · rfl

theorem textsOf_of_versioned {e new : El} (hversioned : versioned e = true) (h : updatePremisObject e = some new)
    (hplaced : ∀ c ∈ new.children, placed c = true) :
    isPremis .object new.tag = true ∧ ∀ name, name ≠ .object → textsOf name e = read name new.children := by
  rw [updatePremisObject] at h
  split_ifs at h with htag htag2
  · obtain rfl := Option.some.inj h
    exact ⟨htag, fun name hname => textsOf_eq_read htag hplaced hname⟩
  · obtain rfl := Option.some.inj h
    refine ⟨rfl, fun name hname => ?_⟩
    simp only [versioned, htag, htag2, Bool.false_and, Bool.false_or, Bool.true_and, List.all_eq_true,
      Bool.and_eq_true, decide_eq_true_eq] at hversioned
    obtain ⟨t, attrib, children⟩ := e
    rw [Element.tag] at htag2
    have hbelow : ∀ c ∈ children, ∀ x ∈ c.iter, x.tag.space ≠ .premis ∧
        (x.tag.space = .premis2 → toPremis x.tag = { x.tag with space := .premis }) := by
      intro c hc x hx
      refine hversioned x ?_
      rw [iter_mk]
      exact List.mem_cons_of_mem _ (List.mem_flatMap.mpr ⟨c, hc, hx⟩)
    have hnil : texts .text (isPremis name) [.mk t attrib children] = [] := by
      refine texts_singleton_eq_nil ?_
      rw [free, List.all_eq_true]
      intro x hx
      simp [isPremis, inPremis, (hversioned x hx).1]
    have hobject : inPremis2 [name] t = false := by
      simp only [inPremis2, Bool.and_eq_true, decide_eq_true_eq, List.contains_iff_mem, List.mem_singleton] at htag2
      simp [inPremis2, htag2.2, Ne.symm hname]
    rw [textsOf, hnil, if_pos rfl, texts_mk_of_false hobject, ← found_eq_texts_of_versioned hbelow rfl]
    rfl

theorem ReadsFrom.congr {texts texts' : Name → List Str} (h : ReadsFrom texts o)
    (heq : ∀ name, name ≠ .object → texts' name = texts name) : ReadsFrom texts' o := by
  constructor
  · exact h.objectIdentifier.trans (heq _ (by decide)).symm
  · exact h.originalName.trans (heq _ (by decide)).symm
  · exact h.messageDigest.trans (heq _ (by decide)).symm
  · exact h.messageDigestAlgorithm.trans (heq _ (by decide)).symm
  · exact h.size.trans (heq _ (by decide)).symm
  · exact h.formatRegistryName.trans (heq _ (by decide)).symm
  · exact h.formatRegistryKey.trans (heq _ (by decide)).symm
  · exact h.relationshipSubType.trans (heq _ (by decide)).symm
  · exact h.relatedObject.trans (heq _ (by decide)).symm
  · exact h.relatedEvent.trans (heq _ (by decide)).symm

theorem reads_updateContents {e new new' : El} (hplain : Plain env u) (hversioned : versioned e = true)
    (hnew : updatePremisObject e = some new) (hplaced : ∀ c ∈ new.children, placed c = true)
    (h : env.updateContents u new = some new') (ho : Reads e o) : Reads new' (env.object u o) := by
  obtain ⟨htag, htexts⟩ := textsOf_of_versioned hversioned hnew hplaced
  obtain ⟨hplaced', hreads⟩ := readsFrom_updateContents hplain hplaced h
    (ReadsFrom.congr ho fun name hname => (htexts name hname).symm)
  have htag' : isPremis .object new'.tag = true := by
    obtain ⟨_, _, _, _, -, -, -, -, rfl⟩ := updateContents_eq_some h
    exact htag
  exact hreads.congr fun name hname => textsOf_eq_read htag' hplaced' hname

theorem object_of_not_modified (h : env.modified u = false) : env.object u o = o := by
  simp only [Env.modified, Bool.or_eq_false_iff] at h
  simp [Env.object, h]

end Texts

end Ccp.Worker.Reingest.UpdateObject
