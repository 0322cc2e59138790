import Ccp.Lib.Calls
import Ccp.Lib.Numbering
import Ccp.Worker.Mets.Document
import Mathlib.Algebra.Order.Group.Multiset
import Mathlib.Tactic.Abel

namespace Ccp.Worker.Mets

open Lib PosixPath Lib.Calls

section Elements

variable {tag : Tag} {attrib : Dict Attr Str} {children : List Xml} {e : Xml} {t : Str}

@[simp] theorem ids_mk (tag : Tag) (attrib : Dict Attr Str) (children : List Xml) :
    ids (.mk tag attrib children) =
      (Dict.get? attrib .id).toList ++ children.flatMap ids := Element.values_mk ..

-- The identifiers that the attributes themselves refer to.
def ownRefs (attrib : Dict Attr Str) : List Str :=
  ((Dict.get? attrib .dmdID).toList ++ (Dict.get? attrib .admID).toList ++
    (Dict.get? attrib .fileID).toList).flatMap tokens

theorem mem_refs_mk : t ∈ refs (.mk tag attrib children) ↔
    t ∈ ownRefs attrib ∨ ∃ c ∈ children, t ∈ refs c := by
  simp only [refs, ownRefs, Element.values_mk, List.mem_flatMap, List.mem_append]
  constructor
  · rintro ⟨v, ((hv | ⟨c, hc, hv⟩) | (hv | ⟨c, hc, hv⟩)) | (hv | ⟨c, hc, hv⟩), ht⟩
    · exact Or.inl ⟨v, Or.inl (Or.inl hv), ht⟩
    · exact Or.inr ⟨c, hc, v, Or.inl (Or.inl hv), ht⟩
    · exact Or.inl ⟨v, Or.inl (Or.inr hv), ht⟩
    · exact Or.inr ⟨c, hc, v, Or.inl (Or.inr hv), ht⟩
    · exact Or.inl ⟨v, Or.inr hv, ht⟩
    · exact Or.inr ⟨c, hc, v, Or.inr hv, ht⟩
  · rintro (⟨v, (hv | hv) | hv, ht⟩ | ⟨c, hc, v, (hv | hv) | hv, ht⟩)
    · exact ⟨v, Or.inl (Or.inl (Or.inl hv)), ht⟩
    · exact ⟨v, Or.inl (Or.inr (Or.inl hv)), ht⟩
    · exact ⟨v, Or.inr (Or.inl hv), ht⟩
    · exact ⟨v, Or.inl (Or.inl (Or.inr ⟨c, hc, hv⟩)), ht⟩
    · exact ⟨v, Or.inl (Or.inr (Or.inr ⟨c, hc, hv⟩)), ht⟩
    · exact ⟨v, Or.inr (Or.inr ⟨c, hc, hv⟩), ht⟩

theorem mem_refs_append {more : List Xml} : t ∈ refs (.mk tag attrib (children ++ more)) ↔
    t ∈ refs (.mk tag attrib children) ∨ ∃ c ∈ more, t ∈ refs c := by
  simp only [mem_refs_mk, List.mem_append, or_and_right, exists_or, or_assoc]

theorem ids_set {key : Attr} (hkey : key ≠ .id) (value : Str) (e : Xml) :
    ids (e.set key value) = ids e := by
  obtain ⟨tag, attrib, children⟩ := e
  rw [Element.set, ids_mk, ids_mk, Dict.get?_set, if_neg hkey]

theorem mem_ownRefs {t : Str} : t ∈ ownRefs attrib ↔
    ∃ key ∈ [Attr.dmdID, .admID, .fileID], ∃ v, Dict.get? attrib key = some v ∧ t ∈ tokens v := by
  simp [ownRefs, or_and_right, exists_or]

theorem mem_refs_set {key : Attr} {value : Str} (h : t ∈ refs (e.set key value)) :
    t ∈ refs e ∨ t ∈ tokens value := by
  obtain ⟨tag, attrib, children⟩ := e
  rw [Element.set, mem_refs_mk, mem_ownRefs] at h
  rw [mem_refs_mk, mem_ownRefs]
  rcases h with ⟨k, hk, v, hv, ht⟩ | hchild
  · rw [Dict.get?_set] at hv
    split_ifs at hv with hkey
    · obtain rfl := Option.some.inj hv
      exact Or.inr ht
    · exact Or.inl (Or.inl ⟨k, hk, v, hv, ht⟩)
  · exact Or.inl (Or.inr hchild)

@[simp] theorem ids_newSection (kind : Kind) (id : Str) (children : List Xml) :
    ids (newSection kind id children) = id :: children.flatMap ids := by
  simp [newSection, Dict.get?_cons]

theorem mem_refs_newSection {kind : Kind} {id : Str} :
    t ∈ refs (newSection kind id children) ↔ ∃ c ∈ children, t ∈ refs c := by
  simp [newSection, mem_refs_mk, mem_ownRefs, Dict.get?_cons]

end Elements

section Numbered

theorem toList_toString (n : Nat) : (toString n).toList = Nat.toDigits 10 n := Nat.toList_repr

theorem numbered_inj {name name' : Str} {n n' : Nat} (hname : '_' ∉ name)
    (h : numbered name' n' = numbered name n) : name' = name ∧ n' = n := by
  rw [numbered, numbered, toList_toString, toList_toString, eq_comm,
    List.append_cons_inj_of_notMem hname Nat.underscore_not_in_toDigits] at h
  refine ⟨h.1.symm, ?_⟩
  have hdigits := congrArg (Nat.ofDigitChars 10 · 0) h.2.2
  simpa only [Nat.ofDigitChars_ten_toDigits] using hdigits.symm

theorem token_numbered {name : Str} (h : ∀ c ∈ name, blank c = false) (n : Nat) :
    Token (numbered name n) := by
  refine ⟨by simp [numbered], fun c hc => ?_⟩
  rw [numbered, toList_toString, List.mem_append, List.mem_cons] at hc
  rcases hc with hc | rfl | hc
  · exact h c hc
  · decide
  · have hdigit := Nat.isDigit_of_mem_toDigits (by decide) (by decide) hc
    by_contra hblank
    rw [Bool.not_eq_false, blank, decide_eq_true_eq] at hblank
    rcases hblank with rfl | rfl | rfl | rfl <;> exact absurd hdigit (by decide)

theorem Kind.underscore_notMem_name (kind : Kind) : '_' ∉ kind.name := by
  cases kind <;> decide

theorem Kind.name_inj {kind kind' : Kind} (h : kind.name = kind'.name) : kind = kind' := by
  cases kind <;> cases kind' <;> first | rfl | exact absurd h (by decide)

theorem Kind.ident_inj (kind : Kind) (n : Nat) (kind' : Kind) (n' : Nat)
    (h : kind.ident n = kind'.ident n') : kind = kind' ∧ n = n' := by
  obtain ⟨hname, hn⟩ := numbered_inj kind'.underscore_notMem_name h
  exact ⟨Kind.name_inj hname, hn⟩

theorem Kind.token_ident (kind : Kind) (n : Nat) : Token (kind.ident n) := by
  have hall : (kind.name.all fun c => !blank c) = true := by cases kind <;> decide
  exact token_numbered (fun c hc => by simpa using List.all_eq_true.mp hall c hc) n

theorem dmdSecID_eq (n : Nat) : dmdSecID n = Kind.dmdSec.ident n := rfl

end Numbered

section FileIDs

theorem blank_hexDigit : ∀ n < 16, blank (UUID.hexDigit n) = false := by
  decide

theorem blank_of_mem_string {u : UUID} {c : Char} (h : c ∈ u.string) : blank c = false := by
  rcases UUID.eq_of_mem_string h with rfl | ⟨n, hn, rfl⟩
  · decide
  · exact blank_hexDigit n hn

theorem token_fileID (f : File) : Token (fileID f) := by
  refine ⟨by simp [fileID], fun c hc => ?_⟩
  rw [fileID, List.mem_append] at hc
  rcases hc with hc | hc
  · have hall : ("file-".toList.all fun c => !blank c) = true := by decide
    simpa using List.all_eq_true.mp hall c hc
  · exact blank_of_mem_string hc

theorem fileID_inj {f g : File} (h : fileID f = fileID g) : f.uuid = g.uuid :=
  UUID.string_injective (List.append_cancel_left h)

end FileIDs

namespace MetsState

def files (st : MetsState) : List Xml := st.globalFileGrps.flatMap Prod.snd

-- The IDs of the sections and of the files.
def ids (st : MetsState) : Multiset Str :=
  ↑(st.dmdSecs.flatMap Mets.ids) + ↑(st.amdSecs.flatMap Mets.ids) + ↑(st.files.flatMap Mets.ids)

-- The section of the TRIM container is the only one that depends on the files before.
def trimmed (st : MetsState) : Nat := if st.trimStructMapObjects.isSome then 1 else 0

-- What the elements so far refer to is there, or one of those that are promised.
structure Resolved (promised : List Str) (st : MetsState) : Prop where
  sections : ∀ e ∈ st.dmdSecs ++ st.amdSecs, ∀ t, t ∉ refs e
  files : ∀ e ∈ st.files, ∀ t ∈ refs e, t ∈ st.ids ∨ t ∈ promised
  trim : ∀ e ∈ st.trimStructMapObjects, Mets.ids e = [] ∧ ∀ t ∈ refs e, t ∈ st.ids ∨ t ∈ promised
  names : ∀ path id, Dict.get? st.fileNameToFileID path = some id →
    Token id ∧ (id ∈ st.ids ∨ id ∈ promised)

-- What happens from one state to a later one, unless it counts an error: sections are
-- made with new numbers, n of them dmdSecs without that of the TRIM container, and
-- other IDs are brought in.
structure Grows (promised promised' : List Str) (n : Nat) (brought : List Str) (trims : Bool)
    (st st' : MetsState) : Prop where
  errors : st.errorCount ≤ st'.errorCount
  structMaps : st'.globalStructMapCounter = st.globalStructMapCounter
  issued : st'.errorCount = 0 →
    ∃ made, Issued Kind.ident st.counter st'.counter made ∧ st'.ids = st.ids + ↑made + ↑brought
  count : st'.errorCount = 0 →
    st'.counter .dmdSec + st.trimmed = st.counter .dmdSec + n + st'.trimmed
  resolved : st'.errorCount = 0 → st.Resolved promised → st'.Resolved promised'
  trimmed : st'.trimmed = max st.trimmed (if trims then 1 else 0)

variable {promised promised' promised'' brought brought' : List Str} {n n' : Nat} {trims trims' : Bool}
  {st st' st'' : MetsState}

theorem Grows.clean (h : Grows promised promised' n brought trims st st') (hclean : st'.errorCount = 0) :
    st.errorCount = 0 := by
  have herrors := h.errors
  omega

theorem Grows.refl (promised : List Str) (st : MetsState) : Grows promised promised 0 [] false st st where
  errors := Nat.le_refl _
  structMaps := rfl
  issued _ := ⟨[], .nil fun _ => Nat.le_refl _, by simp⟩
  count _ := by omega
  resolved _ := id
  trimmed := by simp

theorem Grows.trans (h : Grows promised promised' n brought trims st st')
    (h' : Grows promised' promised'' n' brought' trims' st' st'') :
    Grows promised promised'' (n + n') (brought ++ brought') (trims || trims') st st'' where
  errors := h.errors.trans h'.errors
  structMaps := h'.structMaps.trans h.structMaps
  issued hclean := by
    obtain ⟨made, hmade, hids⟩ := h.issued (h'.clean hclean)
    obtain ⟨made', hmade', hids'⟩ := h'.issued hclean
    refine ⟨made ++ made', hmade.append hmade', ?_⟩
    rw [hids', hids, ← Multiset.coe_add, ← Multiset.coe_add]
    abel
  count hclean := by
    have hfirst := h.count (h'.clean hclean)
    have hsecond := h'.count hclean
    omega
  resolved hclean hst := h'.resolved hclean (h.resolved (h'.clean hclean) hst)
  trimmed := by
    rw [h'.trimmed, h.trimmed]
    cases trims <;> cases trims' <;> simp

theorem Grows.mem_ids (h : Grows promised promised' n brought trims st st') (hclean : st'.errorCount = 0) {t : Str}
    (ht : t ∈ st.ids) : t ∈ st'.ids := by
  obtain ⟨made, -, hids⟩ := h.issued hclean
  rw [hids, Multiset.mem_add, Multiset.mem_add]
  exact Or.inl (Or.inl ht)

-- New sections, some of them with IDs that come from elsewhere.
theorem grows_sections {c : Kind → Nat} {dmds amds : List Xml} {made : List Str}
    (hissued : Issued Kind.ident st.counter c made)
    (hids : (↑((dmds ++ amds).flatMap Mets.ids) : Multiset Str) = ↑made + ↑brought)
    (hrefs : ∀ e ∈ dmds ++ amds, ∀ t, t ∉ refs e) (hn : c .dmdSec = st.counter .dmdSec + n) :
    Grows promised promised n brought false st { st with
      counter := c, dmdSecs := st.dmdSecs ++ dmds, amdSecs := st.amdSecs ++ amds } := by
  have hall : ids { st with
      counter := c, dmdSecs := st.dmdSecs ++ dmds, amdSecs := st.amdSecs ++ amds } =
      st.ids + ↑made + ↑brought := by
    rw [add_assoc, ← hids]
    simp only [ids, files, List.flatMap_append, ← Multiset.coe_add]
    abel
  have hmem : ∀ t, t ∈ st.ids → t ∈ ids { st with
      counter := c, dmdSecs := st.dmdSecs ++ dmds, amdSecs := st.amdSecs ++ amds } := by
    intro t ht
    rw [hall, Multiset.mem_add, Multiset.mem_add]
    exact Or.inl (Or.inl ht)
  refine ⟨Nat.le_refl _, rfl, fun _ => ⟨made, hissued, hall⟩, fun _ => ?_, fun _ hst => ?_,
    (Nat.max_zero _).symm⟩
  · dsimp only [trimmed]
    omega
  · refine ⟨fun e he => ?_, fun e he t ht => (hst.files e he t ht).imp_left (hmem t), fun e he => ?_,
      fun path id hid => ?_⟩
    · have hwhich : e ∈ st.dmdSecs ++ st.amdSecs ∨ e ∈ dmds ++ amds := by
        simp only [List.mem_append] at he ⊢
        tauto
      exact hwhich.elim (hst.sections e) (hrefs e)
    · exact ⟨(hst.trim e he).1, fun t ht => ((hst.trim e he).2 t ht).imp_left (hmem t)⟩
    · exact ⟨(hst.names path id hid).1, (hst.names path id hid).2.imp_left (hmem id)⟩

-- The structMap of TRIM, without IDs of its own.
theorem Resolved.setTrim {objects : Xml} (h : st.Resolved promised) (hids : Mets.ids objects = [])
    (hrefs : ∀ t ∈ refs objects, t ∈ st.ids ∨ t ∈ promised) :
    Resolved promised { st with trimStructMapObjects := some objects } where
  sections := h.sections
  files := h.files
  trim e he := by
    obtain rfl := Option.some.inj he
    exact ⟨hids, hrefs⟩
  names := h.names

end MetsState

open MetsState

section Sections

variable {st st' : MetsState} {kind : Kind} {promised : List Str}

theorem count_ok {id : Str} (h : count kind st = .ok id st') :
    ∃ c, st' = { st with counter := c } ∧ Issued Kind.ident st.counter c [id] ∧ Token id ∧
      c .dmdSec = st.counter .dmdSec + if kind = .dmdSec then 1 else 0 := by
  obtain ⟨rfl, rfl⟩ := EStateM.Result.ok.inj h
  refine ⟨_, rfl, Issued.single st.counter kind, Kind.token_ident _ _, ?_⟩
  by_cases hkind : kind = .dmdSec
  · subst hkind
    simp
  · rw [if_neg hkind]
    exact Function.update_of_ne (Ne.symm hkind) _ _

-- A call that makes sections, no dmdSecs, and puts them nowhere.
def Numbers (x : M (List Xml)) : Prop :=
  ∀ st secs st', x st = .ok secs st' →
    ∃ c, st' = { st with counter := c } ∧ Issued Kind.ident st.counter c (secs.flatMap ids) ∧
      (∀ e ∈ secs, ∀ t, t ∉ refs e) ∧ c .dmdSec = st.counter .dmdSec

theorem numbers_nil : Numbers (pure []) := by
  intro st secs st' h
  obtain ⟨rfl, rfl⟩ := pure_ok_iff.mp h
  exact ⟨st.counter, rfl, .nil fun _ => Nat.le_refl _, by simp, rfl⟩

theorem numbers_newSections (hkind : kind ≠ .dmdSec) (n : Nat) : Numbers (newSections kind n) := by
  induction n with
  | zero => exact numbers_nil
  | succ n ih =>
      intro st secs st' h
      rw [newSections] at h
      obtain ⟨id, t, hcount, h⟩ := bind_ok_iff.mp h
      obtain ⟨rest, u, hrest, h⟩ := bind_ok_iff.mp h
      obtain ⟨rfl, rfl⟩ := pure_ok_iff.mp h
      obtain ⟨c₁, rfl, hissued₁, -, hdmd₁⟩ := count_ok hcount
      obtain ⟨c, rfl, hissued, hrefs, hdmd⟩ := ih _ _ _ hrest
      rw [if_neg hkind] at hdmd₁
      refine ⟨c, rfl, ?_, ?_, hdmd.trans hdmd₁⟩
      · have hall := hissued₁.append hissued
        simpa using hall
      · intro e he t
        rcases List.mem_cons.mp he with rfl | he
        · simp [mem_refs_newSection]
        · exact hrefs e he t

theorem addDmdSec_ok {id : Str} (h : addDmdSec st = .ok id st') :
    ∃ c, st' = { st with counter := c, dmdSecs := st.dmdSecs ++ [newSection .dmdSec id []] } ∧
      Issued Kind.ident st.counter c [id] ∧ Token id ∧
      c .dmdSec = st.counter .dmdSec + 1 := by
  rw [addDmdSec] at h
  obtain ⟨id', t, hcount, h⟩ := bind_ok_iff.mp h
  obtain ⟨u, t', hmodify, h⟩ := bind_ok_iff.mp h
  obtain ⟨rfl, rfl⟩ := pure_ok_iff.mp h
  obtain ⟨c, rfl, hissued, htoken, hdmd⟩ := count_ok hcount
  obtain rfl := modify_ok_iff.mp hmodify
  exact ⟨c, rfl, hissued, htoken, hdmd⟩

theorem grows_addDmdSec {id : Str} (h : addDmdSec st = .ok id st') :
    Grows promised promised 1 [] false st st' ∧ Token id ∧ id ∈ st'.ids := by
  obtain ⟨c, rfl, hissued, htoken, hdmd⟩ := addDmdSec_ok h
  have hgrows := @grows_sections promised [] 1 st c [newSection .dmdSec id []] [] _ hissued
    (by simp) (by simp [mem_refs_newSection]) hdmd
  rw [List.append_nil] at hgrows
  exact ⟨hgrows, htoken, by simp [MetsState.ids]⟩

-- How many sections metadata gets when some were made for the keys before.
def csvSectionsFrom (dc other : Bool) (metadata : Dict Str (List Str)) : Nat :=
  (if !dc && metadata.any fun item => isDC item.1 then 1 else 0) +
    (if !other && metadata.any fun item => !isDC item.1 then 1 else 0)

theorem csvSectionsFrom_cons (dc other : Bool) (key : Str) (value : List Str)
    (metadata : Dict Str (List Str)) :
    csvSectionsFrom dc other ((key, value) :: metadata) =
      (if (if isDC key then dc else other) then 0 else 1) +
        csvSectionsFrom (dc || isDC key) (other || !isDC key) metadata := by
  rw [csvSectionsFrom, csvSectionsFrom, List.any_cons, List.any_cons]
  generalize (metadata.any fun item => isDC item.1) = dcs,
    (metadata.any fun item => !isDC item.1) = others, isDC key = first
  cases first <;> cases dc <;> cases other <;> cases dcs <;> cases others <;> rfl

theorem grows_createDmdSecsFromCSVParsedMetadata {dc other : Bool} {metadata : Dict Str (List Str)}
    {made : List Str}
    (h : createDmdSecsFromCSVParsedMetadata dc other metadata st = .ok made st') :
    Grows promised promised (csvSectionsFrom dc other metadata) [] false st st' ∧
      made.length = csvSectionsFrom dc other metadata ∧
      (∀ id ∈ made, Token id) ∧ (st'.errorCount = 0 → ∀ id ∈ made, id ∈ st'.ids) := by
  induction metadata generalizing dc other st made with
  | nil =>
      obtain ⟨rfl, rfl⟩ := pure_ok_iff.mp h
      have hzero : csvSectionsFrom dc other [] = 0 := by simp [csvSectionsFrom]
      rw [hzero]
      exact ⟨Grows.refl promised st, rfl, by simp, by simp⟩
  | cons item metadata ih =>
      obtain ⟨key, value⟩ := item
      rw [createDmdSecsFromCSVParsedMetadata] at h
      rw [csvSectionsFrom_cons]
      by_cases hmade : (if isDC key then dc else other) = true
      · -- a section of the kind of this key is there
        rw [if_pos hmade] at h ⊢
        have hdc : (dc || isDC key) = dc := by
          cases hkey : isDC key <;> simp_all
        have hother : (other || !isDC key) = other := by
          cases hkey : isDC key <;> simp_all
        rw [Nat.zero_add, hdc, hother]
        exact ih h
      · rw [if_neg hmade] at h ⊢
        obtain ⟨id, t, hadd, h⟩ := bind_ok_iff.mp h
        obtain ⟨rest, u, hrest, h⟩ := bind_ok_iff.mp h
        obtain ⟨rfl, rfl⟩ := pure_ok_iff.mp h
        obtain ⟨hgrows, htoken, hmem⟩ := @grows_addDmdSec _ _ promised _ hadd
        obtain ⟨hgrows', hlength, htokens, hmem'⟩ := ih hrest
        refine ⟨hgrows.trans hgrows', ?_, ?_, fun hclean i hi => ?_⟩
        · rw [List.length_cons, hlength, Nat.add_comm]
        · intro i hi
          rcases List.mem_cons.mp hi with rfl | hi
          · exact htoken
          · exact htokens i hi
        · rcases List.mem_cons.mp hi with rfl | hi
          · exact hgrows'.mem_ids hclean hmem
          · exact hmem' hclean i hi

end Sections

-- The identifiers in a value are all there.
def Listed (st : MetsState) (value : Str) : Prop := ∀ t ∈ tokens value, t ∈ st.ids

theorem Listed.grows {st st' : MetsState} {promised promised' brought : List Str} {n : Nat} {trims : Bool}
    {value : Str} (h : Listed st value) (hgrows : Grows promised promised' n brought trims st st')
    (hclean : st'.errorCount = 0) :
    Listed st' value := fun t ht => hgrows.mem_ids hclean (h t ht)

theorem listed_nil (st : MetsState) : Listed st [] := by
  intro t ht
  cases ht

theorem listed_intercalate {st : MetsState} {made : List Str} (htoken : ∀ id ∈ made, Token id)
    (hmem : ∀ id ∈ made, id ∈ st.ids) : Listed st (List.intercalate [' '] made) := by
  intro t ht
  rw [tokens_intercalate htoken] at ht
  exact hmem t ht

end Ccp.Worker.Mets
