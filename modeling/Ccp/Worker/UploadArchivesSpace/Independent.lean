import Ccp.Worker.UploadArchivesSpace

namespace Ccp.Worker.UploadArchivesSpace

open Lib

section Runs

variable {ν : Type} {opts : Options} {w w' : World ν} {f g : Str} {s s' : State ν} {p : Params ν}
  {object : DigitalObject ν}

-- The object for a file whose turn begins with some parameters.
def objectAt (opts : Options) (f : Str) (own : Own ν) (p : Params ν) : Option (DigitalObject ν) :=
  own.pairing.bind fun resource => (info own).map fun i =>
    digitalObject opts f resource (restrictionsApply opts own.rights) (settle opts own.rights p) i

-- What is sent for the file is its object at parameters that the loop can come to.
structure Inv (opts : Options) (w : World ν) (f : Str) (s : State ν) : Prop where
  reached : Reached opts s.params
  sent : ∀ object, (f, object) ∈ s.sent → ∃ p, Reached opts p ∧ objectAt opts f (w.own opts f) p = some object

theorem inv_start : Inv opts w f (start opts w) :=
  ⟨reached_params, fun _ h => absurd h List.not_mem_nil⟩

-- What a file that is uploaded leaves.
theorem uploadFile_cases (h : uploadFile opts w s g = some s') :
    (s'.params = s.params ∧ s'.sent = s.sent) ∨
      ∃ object, objectAt opts g (w.own opts g) s.params = some object ∧
        s'.params = settle opts (w.own opts g).rights s.params ∧ s'.sent = s.sent ++ [(g, object)] := by
  rw [uploadFile] at h
  cases hpairing : (w.own opts g).pairing with
  | none =>
      simp only [hpairing, Option.some.injEq] at h
      subst h
      exact .inl ⟨rfl, rfl⟩
  | some resource =>
      simp only [hpairing] at h
      obtain ⟨i, hi, rfl⟩ := Option.map_eq_some_iff.mp h
      refine .inr ⟨_, ?_, rfl, rfl⟩
      rw [objectAt, hpairing, Option.bind_some, hi, Option.map_some]

theorem Inv.uploadFile (hinv : Inv opts w f s) (h : uploadFile opts w s g = some s') : Inv opts w f s' := by
  rcases uploadFile_cases h with ⟨hparams, hsent⟩ | ⟨object, hobject, hparams, hsent⟩
  · refine ⟨hparams ▸ hinv.reached, ?_⟩
    rw [hsent]
    exact hinv.sent
  · refine ⟨hparams ▸ reached_settle hinv.reached _, fun object' hmem => ?_⟩
    rw [hsent] at hmem
    rcases List.mem_append.mp hmem with hmem | hmem
    · exact hinv.sent object' hmem
    · obtain ⟨rfl, rfl⟩ := Prod.mk.inj (List.mem_singleton.mp hmem)
      exact ⟨s.params, hinv.reached, hobject⟩

theorem Inv.uploadFiles (hinv : Inv opts w f s) (files : List Str) :
    Inv opts w f (uploadFiles opts w s files).1 := by
  induction files generalizing s with
  | nil => exact hinv
  | cons g files ih =>
      rw [UploadArchivesSpace.uploadFiles]
      cases hfile : UploadArchivesSpace.uploadFile opts w s g with
      | none => exact hinv
      | some s' => exact ih (hinv.uploadFile hfile)

theorem exists_of_sentFor (h : sentFor opts w f object) :
    ∃ p, Reached opts p ∧ objectAt opts f (w.own opts f) p = some object := by
  rw [sentFor, uploadToArchivesspace] at h
  split_ifs at h with hunreadable
  · exact absurd h List.not_mem_nil
  · exact (inv_start.uploadFiles w.files).sent object h

theorem objectAt_isSome_iff {own : Own ν} : (objectAt opts f own p).isSome = true ↔ Sendable own := by
  rw [objectAt, Sendable]
  cases own.pairing with
  | none => simp
  | some resource => simp

theorem contract_of_clear (h : Sendable (w.own opts f) → Clear opts (w.own opts f).rights) :
    Contract opts w f := by
  intro w' w'' hown' hown'' object object' hsent hsent'
  obtain ⟨p, hp, hobject⟩ := exists_of_sentFor hsent
  obtain ⟨p', hp', hobject'⟩ := exists_of_sentFor hsent'
  rw [hown'] at hobject
  rw [hown''] at hobject'
  have hclear := h (objectAt_isSome_iff.mp (by rw [hobject]; rfl))
  have hsame : objectAt opts f (w.own opts f) p = objectAt opts f (w.own opts f) p' := by
    rw [objectAt, objectAt, settle_eq hclear hp, settle_eq hclear hp']
  exact Option.some.inj (hobject.symm.trans (hsame.trans hobject'))

end Runs

section Worlds

variable {ν : Type} {opts : Options} {w : World ν} {f : Str}

-- The upload of the file alone.
def alone (w : World ν) (f : Str) : World ν :=
  { w with files := [f], mets := some (w.mets.getD []) }

-- A file of another identifier.
def other (f : Str) : Str := if uuidOf f = ['a'] then ['b'] else ['a']

theorem uuidOf_other (f : Str) : uuidOf (other f) ≠ uuidOf f := by
  rw [other]
  split_ifs with h
  · rw [h]
    decide
  · exact fun heq => h heq.symm

-- The upload with a paired file before it that has no rows, and has any rights.
def withOther (opts : Options) (w : World ν) (f : Str) (rights : Dict Str (Rights ν)) : World ν where
  files := [other f, f]
  pairs := w.pairs ++ [⟨opts.dipUUID, uuidOf (other f), []⟩]
  mets := some (Dict.set (w.mets.getD []) (uuidOf (other f)) rights)
  formatVersions := Function.update w.formatVersions (uuidOf (other f)) []
  originals := Function.update w.originals (uuidOf (other f)) []
  accesses := Function.update w.accesses (uuidOf (other f)) []
  getsize := w.getsize
  refuses := w.refuses

theorem getD_bind (mets : Option (Dict Str (Dict Str (Rights ν)))) (uuid : Str) :
    (Dict.get? (mets.getD []) uuid).getD [] = (mets.bind fun mets => Dict.get? mets uuid).getD [] := by
  cases mets <;> rfl

theorem own_alone : (alone w f).own opts f = w.own opts f := by
  rw [World.own, World.own]
  congr 1
  exact getD_bind w.mets (uuidOf f)

theorem getPairs_append (rows : List PairRow) (fileuuid resourceid : Str) :
    getPairs opts (rows ++ [⟨opts.dipUUID, fileuuid, resourceid⟩]) =
      Dict.set (getPairs opts rows) fileuuid resourceid := by
  rw [getPairs, List.filter_append, List.foldl_append]
  simp [getPairs]

theorem own_withOther (rights : Dict Str (Rights ν)) :
    (withOther opts w f rights).own opts f = w.own opts f := by
  have hne := (uuidOf_other f).symm
  have hpairing : Dict.get? (getPairs opts (withOther opts w f rights).pairs) (uuidOf f) =
      Dict.get? (getPairs opts w.pairs) (uuidOf f) := by
    rw [withOther, getPairs_append, Dict.get?_set, if_neg (Ne.symm hne)]
  have hrights : ((withOther opts w f rights).mets.bind fun mets => Dict.get? mets (uuidOf f)).getD [] =
      (w.mets.bind fun mets => Dict.get? mets (uuidOf f)).getD [] := by
    rw [withOther, Option.bind_some, Dict.get?_set, if_neg (Ne.symm hne), getD_bind]
  rw [World.own, hpairing, hrights]
  simp only [withOther, Function.update_of_ne hne]
  rfl

theorem own_other (rights : Dict Str (Rights ν)) : (withOther opts w f rights).own opts (other f) =
    ⟨some [], rights, [], [], [], w.getsize (other f)⟩ := by
  have hpairing : Dict.get? (getPairs opts (withOther opts w f rights).pairs) (uuidOf (other f)) = some [] := by
    rw [withOther, getPairs_append, Dict.get?_set, if_pos rfl]
  have hrights : ((withOther opts w f rights).mets.bind fun mets =>
      Dict.get? mets (uuidOf (other f))).getD [] = rights := by
    rw [withOther, Option.bind_some, Dict.get?_set, if_pos rfl]
    rfl
  rw [World.own, hpairing, hrights]
  simp only [withOther, Function.update_self]
  rfl

theorem uploadFile_of_objectAt {s : State ν} {object : DigitalObject ν}
    (h : objectAt opts f (w.own opts f) s.params = some object) :
    ∃ s', uploadFile opts w s f = some s' ∧ s'.params = settle opts (w.own opts f).rights s.params ∧
      s'.sent = s.sent ++ [(f, object)] := by
  obtain ⟨resource, hresource, h⟩ := Option.bind_eq_some_iff.mp h
  obtain ⟨i, hi, rfl⟩ := Option.map_eq_some_iff.mp h
  rw [uploadFile, hresource]
  simp only [hi, Option.map_some]
  exact ⟨_, rfl, rfl, rfl⟩

theorem sent_alone {object : DigitalObject ν}
    (h : objectAt opts f (w.own opts f) (params opts) = some object) :
    sentFor opts (alone w f) f object := by
  rw [← own_alone] at h
  obtain ⟨s, hs, -, hsent⟩ := @uploadFile_of_objectAt _ _ _ _ (start opts (alone w f)) _ h
  rw [sentFor, uploadToArchivesspace, if_neg (by simp [alone])]
  have hfiles : (alone w f).files = [f] := rfl
  rw [hfiles, uploadFiles, hs]
  simp only [uploadFiles, hsent]
  exact List.mem_append_right _ (List.mem_singleton_self _)

theorem sent_withOther {rights : Dict Str (Rights ν)} {object : DigitalObject ν}
    (h : objectAt opts f (w.own opts f) (settle opts rights (params opts)) = some object) :
    sentFor opts (withOther opts w f rights) f object := by
  obtain ⟨first, hfirst⟩ : ∃ first, objectAt opts (other f)
      ((withOther opts w f rights).own opts (other f)) (params opts) = some first := by
    rw [own_other]
    exact ⟨_, rfl⟩
  obtain ⟨s, hs, hparams, -⟩ :=
    @uploadFile_of_objectAt _ _ _ _ (start opts (withOther opts w f rights)) _ hfirst
  rw [own_other] at hparams
  rw [← own_withOther rights, ← show s.params = settle opts rights (params opts) from hparams] at h
  obtain ⟨s', hs', -, hsent⟩ := uploadFile_of_objectAt h
  rw [sentFor, uploadToArchivesspace, if_neg (by simp [withOther])]
  have hfiles : (withOther opts w f rights).files = [other f, f] := rfl
  rw [hfiles, uploadFiles, hs]
  simp only [uploadFiles, hs', hsent]
  exact List.mem_append_right _ (List.mem_singleton_self _)

theorem params_of_object {resource : Str} {restricted : Bool} {p p' : Params ν} {i : Info}
    (h : digitalObject opts f resource restricted p i = digitalObject opts f resource restricted p' i) :
    p = p' := by
  have hshow := congrArg DigitalObject.xlinkShow h
  have hactuate := congrArg DigitalObject.xlinkActuate h
  have huse := congrArg DigitalObject.useConditions h
  have haccess := congrArg DigitalObject.accessConditions h
  exact Params.mk.injEq .. ▸ ⟨hshow, hactuate, huse, haccess⟩

theorem clear_of_contract (h : Contract opts w f) (hsendable : Sendable (w.own opts f)) :
    Clear opts (w.own opts f).rights := by
  obtain ⟨resource, hresource⟩ := Option.isSome_iff_exists.mp hsendable.1
  obtain ⟨i, hi⟩ := Option.isSome_iff_exists.mp hsendable.2
  have hobject (p : Params ν) : objectAt opts f (w.own opts f) p =
      some (digitalObject opts f resource (restrictionsApply opts (w.own opts f).rights)
        (settle opts (w.own opts f).rights p) i) := by
    rw [objectAt, hresource, Option.bind_some, hi, Option.map_some]
  refine clear_of_constant fun rights => ?_
  have hsame := h _ _ (own_withOther rights) own_alone _ _ (sent_withOther (hobject _)) (sent_alone (hobject _))
  exact params_of_object hsame

end Worlds

-- Whether the object for a file is that of the file alone.
theorem uploaded_iff {ν : Type} (opts : Options) (w : World ν) (f : Str) :
    Contract opts w f ↔ (Sendable (w.own opts f) → Clear opts (w.own opts f).rights) :=
  ⟨clear_of_contract, contract_of_clear⟩

section Example

def premisOptions : Options where
  xlinkShow := "new".toList
  xlinkActuate := "onRequest".toList
  objectType := []
  useStatement := none
  uri := "https://dips/".toList
  dipUUID := "dip".toList
  accessConditions := []
  useConditions := []
  restrictions := "premis".toList
  dipLocation := "/dip/".toList
  inheritNotes := false

def allowed : Dict Str (Rights Empty) :=
  [("disseminate".toList, ⟨.text "Allow".toList, .none⟩), ("publish".toList, ⟨.text "Allow".toList, .none⟩)]

-- A file that may be shown, with the files of the upload.
def openFile (files : List Str) : World Empty where
  files := files
  pairs := [⟨"dip".toList, "a".toList, "/ao/1".toList⟩, ⟨"dip".toList, "b".toList, "/ao/2".toList⟩]
  mets := some [("a".toList, allowed)]
  formatVersions := fun _ => []
  originals := fun _ => []
  accesses := fun _ => []
  getsize := fun _ => none
  refuses := fun _ => false

-- The files that objects are sent for, with the link of each.
def links (w : World Empty) : List (Str × Str) :=
  (uploadToArchivesspace premisOptions w).1.sent.map fun pair => (pair.1, pair.2.xlinkShow)

theorem exists_of_links {w : World Empty} {f link : Str} (h : (f, link) ∈ links w) :
    ∃ object, sentFor premisOptions w f object ∧ object.xlinkShow = link := by
  obtain ⟨⟨f', object⟩, hmem, heq⟩ := List.mem_map.mp h
  obtain ⟨rfl, rfl⟩ := Prod.mk.inj heq
  exact ⟨object, hmem, rfl⟩

theorem open_restricted :
    links (openFile ["a".toList]) = [("a".toList, "new".toList)] ∧
    links (openFile ["b".toList, "a".toList]) =
      [("b".toList, "none".toList), ("a".toList, "none".toList)] ∧
    ¬ Contract premisOptions (openFile ["a".toList]) "a".toList := by
  have hopen : links (openFile ["a".toList]) = [("a".toList, "new".toList)] := by decide +kernel
  have hclosed : links (openFile ["b".toList, "a".toList]) =
      [("b".toList, "none".toList), ("a".toList, "none".toList)] := by decide +kernel
  refine ⟨hopen, hclosed, fun h => ?_⟩
  obtain ⟨object, hsent, hshow⟩ := exists_of_links (hopen ▸ List.mem_singleton_self ("a".toList, "new".toList))
  obtain ⟨object', hsent', hshow'⟩ :=
    exists_of_links (hclosed ▸ List.mem_cons_of_mem _ (List.mem_singleton_self ("a".toList, "none".toList)))
  obtain rfl := h (openFile ["a".toList]) (openFile ["b".toList, "a".toList]) rfl rfl object object' hsent hsent'
  rw [hshow] at hshow'
  revert hshow'
  decide

end Example

end Ccp.Worker.UploadArchivesSpace
