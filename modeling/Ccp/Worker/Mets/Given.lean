import Ccp.Worker.Mets.Files
import Ccp.Worker.Mets.StructMaps

namespace Ccp.Worker.Mets

open Lib PosixPath Lib.Calls MetsState

theorem mem_refs_of_mem_described {e : Xml} {t : Str} (h : t ∈ described e) : t ∈ refs e := by
  obtain ⟨d, hd, ht⟩ := List.mem_flatMap.mp h
  rw [ownDescribed] at ht
  split_ifs at ht
  · cases hget : Dict.get? d.attrib .dmdID with
    | none =>
        rw [hget] at ht
        cases ht
    | some v =>
        rw [hget] at ht
        have hv : v ∈ e.values .dmdID := List.mem_filterMap.mpr ⟨d, hd, hget⟩
        exact List.mem_flatMap.mpr ⟨v, List.mem_append_left _ (List.mem_append_left _ hv), ht⟩
  · cases ht

namespace MetsState

variable {st st' st'' : MetsState} {id : Str} {ids : List Str}

-- The identifiers of the sections.
def dmdSecIDs (st : MetsState) : List Str := (st.dmdSecs.filter (·.tag = .dmdSec)).filterMap (·.get .id)

theorem mem_dmdSecIDs : id ∈ st.dmdSecIDs ↔ ∃ e ∈ st.dmdSecs, e.tag = .dmdSec ∧ e.get .id = some id := by
  simp [dmdSecIDs, and_assoc]

-- An identifier that the script has given to a dmdSec, or would not give any more.
def Old (st : MetsState) (id : Str) : Prop := ∃ n ≤ st.counter .dmdSec, id = Kind.dmdSec.ident n

-- A file, the structMap of TRIM or a section refers to it.
def Refers (st : MetsState) (id : Str) : Prop :=
  (∃ e ∈ st.files, id ∈ described e) ∨ (∃ o ∈ st.trimStructMapObjects, id ∈ described o) ∨
    ∃ e ∈ st.dmdSecs ++ st.amdSecs, id ∈ described e

-- Of the identifiers of the script, only those that it has given are referred to.
def Known (st : MetsState) : Prop := ∀ n, Refers st (Kind.dmdSec.ident n) → Old st (Kind.dmdSec.ident n)

theorem token_old (h : Old st id) : Token id := by
  obtain ⟨n, -, rfl⟩ := h
  exact Kind.token_ident _ _

-- What no call undoes: the sections stay, and what was given is not referred to from a
-- new place.
structure Still (st st' : MetsState) : Prop where
  counter : st.counter .dmdSec ≤ st'.counter .dmdSec
  sections : ∀ id ∈ st.dmdSecIDs, id ∈ st'.dmdSecIDs
  refers : ∀ id, Old st id → Refers st' id → Refers st id
  known : Known st → Known st'

theorem Still.old (h : Still st st') (hid : Old st id) : Old st' id := by
  obtain ⟨n, hn, rfl⟩ := hid
  exact ⟨n, hn.trans h.counter, rfl⟩

theorem Still.refl (st : MetsState) : Still st st := ⟨Nat.le_refl _, fun _ ho => ho, fun _ _ h => h, fun h => h⟩

theorem Still.trans (h : Still st st') (h' : Still st' st'') : Still st st'' where
  counter := h.counter.trans h'.counter
  sections id hid := h'.sections id (h.sections id hid)
  refers id hold href := h.refers id hold (h'.refers id (h.old hold) href)
  known hknown := h'.known (h.known hknown)

theorem still_of_refers (hcounter : st.counter .dmdSec ≤ st'.counter .dmdSec)
    (hsections : ∀ id ∈ st.dmdSecIDs, id ∈ st'.dmdSecIDs)
    (hrefers : ∀ id, Refers st' id → Refers st id ∨ ¬ Old st id ∧ Old st' id) : Still st st' := by
  refine ⟨hcounter, hsections, fun id hold href => ?_, fun hknown n href => ?_⟩
  · exact (hrefers id href).resolve_right fun hnew => hnew.1 hold
  · rcases hrefers _ href with href | hnew
    · obtain ⟨m, hm, hid⟩ := hknown n href
      exact ⟨m, hm.trans hcounter, hid⟩
    · exact hnew.2

-- Sections that refer to nothing are made.
theorem refers_of_section {dmds amds : List Xml} (hmade : ∀ e ∈ dmds ++ amds, ∀ t, t ∉ refs e)
    (h : ∃ e ∈ (st.dmdSecs ++ dmds) ++ (st.amdSecs ++ amds), id ∈ described e) : Refers st id := by
  obtain ⟨e, he, hid⟩ := h
  have hold : e ∉ dmds ++ amds := fun he => hmade e he id (mem_refs_of_mem_described hid)
  simp only [List.mem_append, not_or] at he hold
  refine Or.inr (Or.inr ⟨e, List.mem_append.mpr ?_, hid⟩)
  exact he.imp (Or.resolve_right · hold.1) (Or.resolve_right · hold.2)

theorem refers_of_made {c : Kind → Nat} {dmds amds : List Xml} (hmade : ∀ e ∈ dmds ++ amds, ∀ t, t ∉ refs e)
    (h : Refers { st with counter := c, dmdSecs := st.dmdSecs ++ dmds, amdSecs := st.amdSecs ++ amds } id) :
    Refers st id := by
  rcases h with hfile | htrim | hsection
  · exact Or.inl hfile
  · exact Or.inr (Or.inl htrim)
  · exact refers_of_section hmade hsection

theorem still_of_made {c : Kind → Nat} {dmds amds : List Xml} (hcounter : st.counter .dmdSec ≤ c .dmdSec)
    (hmade : ∀ e ∈ dmds ++ amds, ∀ t, t ∉ refs e) :
    Still st { st with counter := c, dmdSecs := st.dmdSecs ++ dmds, amdSecs := st.amdSecs ++ amds } := by
  refine still_of_refers hcounter (fun o ho => ?_) fun id href => Or.inl (refers_of_made hmade href)
  obtain ⟨e, he, hsection⟩ := mem_dmdSecIDs.mp ho
  exact mem_dmdSecIDs.mpr ⟨e, List.mem_append_left _ he, hsection⟩

theorem still_of_counter {c : Kind → Nat} (hcounter : st.counter .dmdSec ≤ c .dmdSec) :
    Still st { st with counter := c } := by
  have hstill := @still_of_made st c [] [] hcounter (by simp)
  rwa [List.append_nil, List.append_nil] at hstill

-- Identifiers that are given between two states, are those of sections and have no
-- place yet.
def Given (st st' : MetsState) (ids : List Str) : Prop :=
  ∀ t ∈ ids, ¬ Old st t ∧ Old st' t ∧ t ∈ st'.dmdSecIDs ∧ (Known st → ¬ Refers st' t)

theorem given_nil : Given st st' [] := by
  intro t ht
  cases ht

theorem Given.later (h : Given st st' ids) (hstill : Still st' st'') : Given st st'' ids := by
  intro t ht
  obtain ⟨hnew, hold, hsection, hplace⟩ := h t ht
  exact ⟨hnew, hstill.old hold, hstill.sections _ hsection,
    fun hknown href => hplace hknown (hstill.refers t hold href)⟩

theorem Given.before (hstill : Still st st') (h : Given st' st'' ids) : Given st st'' ids := by
  intro t ht
  obtain ⟨hnew, hold, hsection, hplace⟩ := h t ht
  exact ⟨fun hold => hnew (hstill.old hold), hold, hsection, fun hknown => hplace (hstill.known hknown)⟩

theorem Given.append {ids' : List Str} (h : Given st st' ids) (h' : Given st st' ids') :
    Given st st' (ids ++ ids') := fun t ht =>
  (List.mem_append.mp ht).elim (h t) (h' t)

-- What was given before has no place among what is given after.
theorem Given.disjoint {ids' : List Str} (h : Given st st' ids) (h' : Given st' st'' ids') :
    ids.Disjoint ids' := fun t ht ht' => (h' t ht').1 (h t ht).2.1

-- New numbers for sections that nothing refers to.
theorem given_of_made {c : Kind → Nat}
    (hids : ∀ t ∈ ids, ∃ n, t = Kind.dmdSec.ident n ∧ st.counter .dmdSec < n ∧ n ≤ c .dmdSec) :
    Given st { st with counter := c, dmdSecs := st.dmdSecs ++ ids.map (newSection .dmdSec · []) } ids := by
  intro t ht
  obtain ⟨n, rfl, hlow, hhigh⟩ := hids t ht
  have hnew : ¬ Old st (Kind.dmdSec.ident n) := by
    rintro ⟨m, hm, hid⟩
    obtain ⟨-, rfl⟩ := Kind.ident_inj _ _ _ _ hid
    omega
  refine ⟨hnew, ⟨n, hhigh, rfl⟩, ?_, fun hknown href => hnew (hknown n ?_)⟩
  · exact mem_dmdSecIDs.mpr ⟨_, List.mem_append_right _ (List.mem_map_of_mem ht), rfl, rfl⟩
  · have hmade : ∀ e ∈ ids.map (newSection .dmdSec · []) ++ [], ∀ t, t ∉ refs e := by
      simp [mem_refs_newSection]
    exact refers_of_made hmade (by rwa [List.append_nil])

end MetsState

section Given

variable {st st' : MetsState}

theorem count_dmdSec_ok {id : Str} (h : count .dmdSec st = .ok id st') :
    id = Kind.dmdSec.ident (st.counter .dmdSec + 1) ∧
      ∃ c : Kind → Nat, c .dmdSec = st.counter .dmdSec + 1 ∧ st' = { st with counter := c } := by
  obtain ⟨rfl, rfl⟩ := EStateM.Result.ok.inj h
  exact ⟨rfl, _, Function.update_self _ _ _, rfl⟩

theorem given_addDmdSec {id : Str} (h : addDmdSec st = .ok id st') : Still st st' ∧ Given st st' [id] := by
  rw [addDmdSec] at h
  obtain ⟨id', s₁, hcount, h⟩ := bind_ok_iff.mp h
  obtain ⟨u, s₂, hmodify, h⟩ := bind_ok_iff.mp h
  obtain ⟨rfl, rfl⟩ := pure_ok_iff.mp h
  obtain rfl := modify_ok_iff.mp hmodify
  obtain ⟨rfl, c, hc, rfl⟩ := count_dmdSec_ok hcount
  have hstill := @still_of_made st c [newSection .dmdSec (Kind.dmdSec.ident (st.counter .dmdSec + 1)) []] []
    (by omega) (by simp [mem_refs_newSection])
  rw [List.append_nil] at hstill
  refine ⟨hstill, given_of_made fun t ht => ?_⟩
  exact ⟨_, List.mem_singleton.mp ht, Nat.lt_succ_self _, hc.ge⟩

theorem given_createDmdSecsFromCSVParsedMetadata {dc other : Bool} {metadata : Dict Str (List Str)}
    {made : List Str} (h : createDmdSecsFromCSVParsedMetadata dc other metadata st = .ok made st') :
    Still st st' ∧ Given st st' made ∧ made.Nodup := by
  induction metadata generalizing dc other st made with
  | nil =>
      obtain ⟨rfl, rfl⟩ := pure_ok_iff.mp h
      exact ⟨Still.refl st, given_nil, List.nodup_nil⟩
  | cons item metadata ih =>
      obtain ⟨key, value⟩ := item
      rw [createDmdSecsFromCSVParsedMetadata] at h
      by_cases hmade : (if isDC key then dc else other) = true
      · rw [if_pos hmade] at h
        exact ih h
      · rw [if_neg hmade] at h
        obtain ⟨id, s₁, hadd, h⟩ := bind_ok_iff.mp h
        obtain ⟨rest, s₂, hrest, h⟩ := bind_ok_iff.mp h
        obtain ⟨rfl, rfl⟩ := pure_ok_iff.mp h
        obtain ⟨hstill, hgiven⟩ := given_addDmdSec hadd
        obtain ⟨hstill', hgiven', hnodup⟩ := ih hrest
        refine ⟨hstill.trans hstill', (hgiven.later hstill').append (hgiven'.before hstill), ?_⟩
        exact List.nodup_cons.mpr ⟨hgiven.disjoint hgiven' (List.mem_singleton_self _), hnodup⟩

end Given

namespace Sip

variable {sip : Sip} {st st' : MetsState}

theorem given_createDMDIDsFromCSVMetadata {path dmdIDs : Str}
    (h : sip.createDMDIDsFromCSVMetadata path st = .ok dmdIDs st') :
    Still st st' ∧ Given st st' (tokens dmdIDs) ∧ (tokens dmdIDs).Nodup ∧
      List.intercalate [' '] (tokens dmdIDs) = dmdIDs ∧ (sip.csvSections path = 0 ↔ tokens dmdIDs = []) := by
  rw [createDMDIDsFromCSVMetadata] at h
  obtain ⟨made, s₁, hmade, h⟩ := bind_ok_iff.mp h
  obtain ⟨rfl, rfl⟩ := pure_ok_iff.mp h
  obtain ⟨-, hlength, htoken, -⟩ := @grows_createDmdSecsFromCSVParsedMetadata _ _ [] _ _ _ _ hmade
  obtain ⟨hstill, hgiven, hnodup⟩ := given_createDmdSecsFromCSVParsedMetadata hmade
  have htokens := tokens_intercalate htoken
  rw [htokens, csvSections, ← hlength, List.length_eq_zero_iff]
  exact ⟨hstill, hgiven, hnodup, rfl, Iff.rfl⟩

theorem still_createTrimStructMap {u : Unit} (h : createTrimStructMap st = .ok u st') : Still st st' := by
  rw [createTrimStructMap] at h
  obtain ⟨dmdID, s₁, hadd, h⟩ := bind_ok_iff.mp h
  obtain ⟨amdID, s₂, hcount, h⟩ := bind_ok_iff.mp h
  obtain ⟨digiprovMD, s₃, hd, h⟩ := bind_ok_iff.mp h
  rw [modify_ok_iff] at h
  obtain ⟨hstill, hgiven⟩ := given_addDmdSec hadd
  obtain ⟨c₁, rfl, -, htoken, -⟩ := addDmdSec_ok hadd
  obtain ⟨c₂, rfl, -, -, hc₂⟩ := count_ok hcount
  obtain ⟨c₃, rfl, -, hrefs, hc₃⟩ := numbers_newSections (by decide) 1 _ _ _ hd
  subst h
  have hcounter : c₁ .dmdSec = c₃ .dmdSec := (hc₃.trans hc₂).symm
  obtain ⟨hnew, ⟨n, hn, hid⟩, -⟩ := hgiven dmdID (List.mem_singleton_self _)
  refine still_of_refers (hstill.counter.trans hcounter.le) hstill.sections fun id href => ?_
  rcases href with hfile | ⟨o, ho, hdescribed⟩ | hsection
  · exact Or.inl (Or.inl hfile)
  · obtain rfl := Option.some.inj ho
    have hsame : id = dmdID := by
      simpa [mem_described_mk, ownDescribed, Dict.get?_cons, htoken.tokens_eq] using hdescribed
    subst hsame
    exact Or.inr ⟨hnew, n, hn.trans hcounter.le, hid⟩
  · refine Or.inl (refers_of_section (fun e he t => ?_) hsection)
    rcases List.mem_append.mp he with he | he
    · obtain rfl := List.mem_singleton.mp he
      simp [mem_refs_newSection]
    · obtain rfl := List.mem_singleton.mp he
      simpa [mem_refs_newSection] using fun e he => hrefs e he t

theorem still_startTrim {f : File} {u : Unit} (h : startTrim f st = .ok u st') : Still st st' := by
  rw [startTrim] at h
  obtain ⟨s, s₁, hget, h⟩ := bind_ok_iff.mp h
  obtain ⟨rfl, rfl⟩ := get_ok_iff.mp hget
  split_ifs at h
  · exact still_createTrimStructMap h
  · obtain ⟨-, rfl⟩ := pure_ok_iff.mp h
    exact Still.refl st

theorem still_addTrimFile {f : File} {u : Unit} (h : sip.addTrimFile f st = .ok u st') : Still st st' := by
  rw [addTrimFile] at h
  split_ifs at h
  · obtain ⟨u, s₁, hmetadata, h⟩ := bind_ok_iff.mp h
    obtain rfl := trimFileMetadata_ok hmetadata
    obtain ⟨dmdID, s₂, hadd, h⟩ := bind_ok_iff.mp h
    rw [modify_ok_iff] at h
    obtain ⟨hstill, hgiven⟩ := given_addDmdSec hadd
    obtain ⟨c, rfl, -, htoken, -⟩ := addDmdSec_ok hadd
    subst h
    obtain ⟨hnew, hold, -, -⟩ := hgiven dmdID (List.mem_singleton_self _)
    refine still_of_refers hstill.counter hstill.sections fun id href => ?_
    rcases href with hfile | ⟨o, ho, hid⟩ | hsection
    · exact Or.inl (Or.inl hfile)
    · obtain ⟨⟨tag, attrib, children⟩, hobjects, rfl⟩ := Option.mem_map.mp ho
      rcases mem_described_append.mp hid with hid | ⟨d, hd, hid⟩
      · exact Or.inl (Or.inr (Or.inl ⟨_, hobjects, hid⟩))
      · obtain rfl := List.mem_singleton.mp hd
        have hsame : id = dmdID := by
          simpa [trimFileDiv, mem_described_mk, ownDescribed, Dict.get?_cons, htoken.tokens_eq] using hid
        subst hsame
        exact Or.inr ⟨hnew, hold⟩
    · have hmade : ∀ e ∈ [newSection .dmdSec dmdID []] ++ [], ∀ t, t ∉ refs e := by
        simp [mem_refs_newSection]
      exact Or.inl (refers_of_section hmade (by rwa [List.append_nil]))
  · obtain ⟨-, rfl⟩ := pure_ok_iff.mp h
    exact Still.refl st

theorem given_describe {f : File} {dmdIDs : Str} (h : sip.describe f st = .ok dmdIDs st') :
    Still st st' ∧ Given st st' (tokens dmdIDs) ∧ (tokens dmdIDs).Nodup ∧
      List.intercalate [' '] (tokens dmdIDs) = dmdIDs ∧
      (describable f = true → sip.csvSections (transferPath f) ≠ 0 → tokens dmdIDs ≠ []) := by
  rw [describe] at h
  split_ifs at h with hdescribable
  · obtain ⟨ids, s₁, hcsv, h⟩ := bind_ok_iff.mp h
    obtain ⟨u, s₂, htrim, h⟩ := bind_ok_iff.mp h
    obtain ⟨rfl, rfl⟩ := pure_ok_iff.mp h
    obtain ⟨hstill, hgiven, hnodup, hjoined, hzero⟩ := given_createDMDIDsFromCSVMetadata hcsv
    have htrim := still_addTrimFile htrim
    exact ⟨hstill.trans htrim, hgiven.later htrim, hnodup, hjoined, fun _ hne => mt hzero.mpr hne⟩
  · obtain ⟨rfl, rfl⟩ := pure_ok_iff.mp h
    exact ⟨Still.refl st, given_nil, List.nodup_nil, rfl, fun hd => absurd hd hdescribable⟩

theorem given_createDSpaceDMDSec {path dmdIDs : Str} (h : sip.createDSpaceDMDSec path st = .ok dmdIDs st') :
    Still st st' ∧ Given st st' (tokens dmdIDs) ∧ (sip.dspaceIdentified path = true → tokens dmdIDs ≠ []) ∧
      (sip.dspaceIdentified path = false → dmdIDs = []) := by
  rw [createDSpaceDMDSec] at h
  obtain ⟨dmdID, s₁, hcount, h⟩ := bind_ok_iff.mp h
  obtain ⟨rfl, c₁, hc₁, rfl⟩ := count_dmdSec_ok hcount
  split_ifs at h with hidentified
  · obtain ⟨dcID, s₂, hcount, h⟩ := bind_ok_iff.mp h
    obtain ⟨u, s₃, hmodify, h⟩ := bind_ok_iff.mp h
    obtain ⟨rfl, rfl⟩ := pure_ok_iff.mp h
    obtain rfl := modify_ok_iff.mp hmodify
    obtain ⟨rfl, c₂, hc₂, rfl⟩ := count_dmdSec_ok hcount
    dsimp only at hc₂
    have hids : tokens (List.intercalate [' '] [Kind.dmdSec.ident (st.counter .dmdSec + 1),
        Kind.dmdSec.ident (c₁ .dmdSec + 1)]) =
        [Kind.dmdSec.ident (st.counter .dmdSec + 1), Kind.dmdSec.ident (c₁ .dmdSec + 1)] :=
      tokens_intercalate (by simp [Kind.token_ident])
    rw [hids]
    have hstill := @still_of_made st c₂ [newSection .dmdSec (Kind.dmdSec.ident (st.counter .dmdSec + 1)) [],
      newSection .dmdSec (Kind.dmdSec.ident (c₁ .dmdSec + 1)) []] [] (by omega) (by simp [mem_refs_newSection])
    rw [List.append_nil] at hstill
    refine ⟨hstill, given_of_made (c := c₂) fun t ht => ?_, fun _ => List.cons_ne_nil _ _, fun hfalse => ?_⟩
    · rcases List.mem_cons.mp ht with rfl | ht
      · exact ⟨_, rfl, by omega, by omega⟩
      · exact ⟨_, List.mem_singleton.mp ht, by omega, by omega⟩
    · rw [hidentified] at hfalse
      cases hfalse
  · obtain ⟨rfl, rfl⟩ := pure_ok_iff.mp h
    exact ⟨still_of_counter (by omega), given_nil,
      fun htrue => absurd htrue hidentified, fun _ => rfl⟩

theorem still_dataverseProcessing {f : File} {dmdIDs value : Str}
    (h : sip.dataverseProcessing f dmdIDs st = .ok value st') :
    Still st st' ∧ value = dmdIDs ++ List.intercalate [' '] (sip.tabIDs f) ∧
      ∀ id ∈ sip.tabIDs f, id ∈ st'.dmdSecIDs := by
  rw [dataverseProcessing] at h
  obtain ⟨u, s₁, hmodify, h⟩ := bind_ok_iff.mp h
  obtain ⟨rfl, rfl⟩ := pure_ok_iff.mp h
  obtain rfl := modify_ok_iff.mp hmodify
  have hstill := @still_of_made st st.counter ((sip.tabIDs f).map (newSection .dmdSec · [])) [] (Nat.le_refl _)
    (by simp [mem_refs_newSection])
  rw [List.append_nil] at hstill
  refine ⟨hstill, rfl, fun id hid => ?_⟩
  exact mem_dmdSecIDs.mpr ⟨_, List.mem_append_right _ (List.mem_map_of_mem hid), rfl, rfl⟩

theorem still_checkGroup {groupID : Str} {u : Unit} (h : checkGroup groupID st = .ok u st') : Still st st' := by
  unfold checkGroup at h
  split_ifs at h
  · obtain rfl := modify_ok_iff.mp h
    exact ⟨Nat.le_refl _, fun _ ho => ho, fun _ _ h => h, fun h => h⟩
  · obtain ⟨-, rfl⟩ := pure_ok_iff.mp h
    exact Still.refl st

theorem fileAttrib_plain {f : File} {groupID use : Str} {attrib : Dict Attr Str}
    (h : sip.fileAttrib f groupID use st = .ok attrib st') : Dict.get? attrib .dmdID = none ∧
      ∃ c amds, c .dmdSec = st.counter .dmdSec ∧ (∀ e ∈ amds, ∀ t, t ∉ refs e) ∧
        st' = { st with counter := c, amdSecs := st.amdSecs ++ amds } := by
  rw [fileAttrib] at h
  split_ifs at h
  · obtain ⟨⟨amd, amdID⟩, s₁, hamd, h⟩ := bind_ok_iff.mp h
    obtain ⟨u, s₂, hmodify, h⟩ := bind_ok_iff.mp h
    obtain ⟨rfl, rfl⟩ := pure_ok_iff.mp h
    obtain rfl := modify_ok_iff.mp hmodify
    obtain ⟨c, rfl, -, -, -, hrefs, hc⟩ := getAMDSec_ok hamd
    exact ⟨by simp [Dict.get?_cons], c, [amd], hc, by simpa using hrefs, rfl⟩
  · obtain ⟨rfl, rfl⟩ := pure_ok_iff.mp h
    exact ⟨by simp [Dict.get?_cons], st.counter, [], rfl, by simp, by rw [List.append_nil]⟩

-- A new file element has no DMDID.
theorem still_addFileElem {f : File} {path groupID use : Str} {loop made : Loop}
    (h : sip.addFileElem f path groupID use loop st = .ok made st') (hclean : st'.errorCount = 0) :
    Still st st' ∧ made = if use = original then
      { loop with filesInThisDirectory := loop.filesInThisDirectory ++ [fileID f] } else loop := by
  rw [addFileElem] at h
  obtain ⟨s, s₁, hget, h⟩ := bind_ok_iff.mp h
  obtain ⟨rfl, rfl⟩ := get_ok_iff.mp hget
  cases hgroup : Dict.get? st.globalFileGrps use with
  | none =>
      rw [hgroup] at h
      obtain ⟨u, s₂, hmodify, h⟩ := bind_ok_iff.mp h
      obtain ⟨rfl, rfl⟩ := pure_ok_iff.mp h
      obtain rfl := modify_ok_iff.mp hmodify
      exact absurd hclean (Nat.succ_ne_zero _)
  | some old =>
      rw [hgroup] at h
      obtain ⟨attrib, s₂, hattrib, h⟩ := bind_ok_iff.mp h
      obtain ⟨u, s₃, hmodify, h⟩ := bind_ok_iff.mp h
      obtain ⟨rfl, rfl⟩ := pure_ok_iff.mp h
      obtain rfl := modify_ok_iff.mp hmodify
      refine ⟨?_, rfl⟩
      obtain ⟨hnone, c, amds, hc, hrefs, rfl⟩ := fileAttrib_plain hattrib
      rw [hgroup, Option.getD_some]
      refine still_of_refers hc.ge (fun _ ho => ho) fun id href => Or.inl ?_
      rcases href with ⟨e, he, hid⟩ | htrim | hsection
      · rcases List.mem_append.mp ((flatMap_set _ hgroup).mem_iff.mp he) with he | he
        · exact Or.inl ⟨e, he, hid⟩
        · obtain rfl := List.mem_singleton.mp he
          simp [mem_described_mk, ownDescribed, hnone] at hid
      · exact Or.inr (Or.inl htrim)
      · have hmade : ∀ e ∈ [] ++ amds, ∀ t, t ∉ refs e := hrefs
        exact refers_of_section hmade (by rwa [List.append_nil])

end Sip

end Ccp.Worker.Mets
