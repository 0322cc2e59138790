import Ccp.Worker.Mets.Lost

namespace Ccp.Worker.Mets

open Lib PosixPath Lib.Calls MetsState

namespace Sip

variable {sip : Sip} {st st' : MetsState} {loop made : Loop} {div : Xml} {ids : Str}

-- What a file sets.
def fileSets (sip : Sip) (path : Str) : Slot → Bool
  | .own => false
  | .above => sip.setsAbove path
  | .here => sip.setsHere path

theorem fileSets_one {path : Str} {s s' : Slot} (h : sip.fileSets path s = true)
    (h' : sip.fileSets path s' = true) : s = s' := by
  have hboth : ¬ (sip.setsAbove path = true ∧ sip.setsHere path = true) := by
    rw [setsAbove, setsHere]
    cases sip.row path with
    | none => simp
    | some f => cases hgrouped : sip.grouped f <;> simp [hgrouped]
  cases s with
  | own => cases h
  | above =>
      cases s' with
      | own => cases h'
      | above => rfl
      | here => exact absurd ⟨h, h'⟩ hboth
  | here =>
      cases s' with
      | own => cases h'
      | above => exact absurd ⟨h', h⟩ hboth
      | here => rfl

theorem original_of_group {f : File} {path : Str} {made : Str × Str} (h : sip.group f path st = .ok made st')
    (horiginal : made.2 = original) :
    f.filegrpuse = original ∨ f.filegrpuse = "maildirFile".toList ∧ f.filegrpuuid = [] := by
  have hmetadata : "metadata".toList ≠ original := by decide
  unfold group at h
  split_ifs at h with hgroup htrim hown hmaildir hdspace hderived hservice hcontainer
  · obtain ⟨rfl, -⟩ := pure_ok_iff.mp h
    exact absurd horiginal hmetadata
  · obtain ⟨rfl, -⟩ := pure_ok_iff.mp h
    exact Or.inl horiginal
  · exact Or.inr ⟨hmaildir, not_not.mp hgroup⟩
  · obtain ⟨rfl, -⟩ := pure_ok_iff.mp h
    exact Or.inl horiginal
  · obtain ⟨rfl, -⟩ := pure_ok_iff.mp h
    exact Or.inl horiginal
  · obtain ⟨d, s₁, -, h⟩ := bind_ok_iff.mp h
    obtain ⟨rfl, -⟩ := pure_ok_iff.mp h
    exact Or.inl horiginal
  · obtain ⟨o, s₁, -, h⟩ := bind_ok_iff.mp h
    obtain ⟨rfl, -⟩ := pure_ok_iff.mp h
    exact Or.inl horiginal
  · obtain ⟨rfl, -⟩ := pure_ok_iff.mp h
    exact absurd horiginal hmetadata
  · obtain ⟨rfl, -⟩ := pure_ok_iff.mp h
    exact Or.inl horiginal

-- The two slots that the METS files of DSpace fill.
theorem dspaceProcessing_sets {f : File} {path groupID use : Str} {made : Loop × Str × Str}
    (hrow : sip.row path = some f) (huse : use = dspaceMets ↔ f.filegrpuse = dspaceMets)
    (hgroup : f.transferType = some dspace → f.filegrpuse = dspaceMets →
      (groupID = [] ↔ sip.grouped f = false))
    (h : sip.dspaceProcessing f path groupID use loop st = .ok made st') :
    Still st st' ∧ made.1.children = loop.children ∧
      made.1.filesInThisDirectory = loop.filesInThisDirectory ∧ (made.2.2 = original ↔ use = original) ∧
      ∃ ids, Given st st' (tokens ids) ∧ (∀ s, sip.fileSets path s = true → tokens ids ≠ []) ∧
        ∀ s, made.1.slot s = if sip.fileSets path s then ids else loop.slot s := by
  have hsubmission : "submissionDocumentation".toList ≠ original := by decide
  have hmetsUse : dspaceMets ≠ original := by decide
  have hsets : ∀ s, sip.fileSets path s = true → sip.dspaceDescribes path f = true := by
    rintro (_ | _ | _) hset
    · cases hset
    · rw [fileSets, setsAbove, hrow, Option.any_some, Bool.and_eq_true] at hset
      exact hset.1
    · rw [fileSets, setsHere, hrow, Option.any_some, Bool.and_eq_true] at hset
      exact hset.1
  rw [dspaceProcessing] at h
  by_cases hmets : f.transferType = some dspace ∧ f.filegrpuse = dspaceMets
  · rw [if_pos ⟨hmets.1, huse.mpr hmets.2⟩] at h
    obtain ⟨ids, s₁, hcreate, h⟩ := bind_ok_iff.mp h
    obtain ⟨hstill, hgiven, hfilled, hnil⟩ := given_createDSpaceDMDSec hcreate
    have hnot : ¬ use = original := (huse.mpr hmets.2).trans_ne hmetsUse
    have hdescribes : sip.dspaceDescribes path f = sip.dspaceIdentified path := by
      rw [dspaceDescribes]
      simp [hmets.1, hmets.2]
    cases hidentified : sip.dspaceIdentified path with
    | false =>
        -- no section was made
        obtain rfl := hnil hidentified
        have hnone : ∀ s, sip.fileSets path s = false := fun s => by
          by_contra hset
          have htrue := hsets s (Bool.not_eq_false _ ▸ hset)
          rw [hdescribes, hidentified] at htrue
          cases htrue
        simp only [if_true] at h
        split_ifs at h
        · obtain ⟨rfl, rfl⟩ := pure_ok_iff.mp h
          exact ⟨hstill, rfl, rfl, iff_of_false hsubmission hnot, [], given_nil,
            fun s hset => by simp [hnone s] at hset, fun s => by simp [hnone s]⟩
        · obtain ⟨rfl, rfl⟩ := pure_ok_iff.mp h
          exact ⟨hstill, rfl, rfl, iff_of_false hsubmission hnot, [], given_nil,
            fun s hset => by simp [hnone s] at hset, fun s => by simp [hnone s]⟩
    | true =>
        have hne : ids ≠ [] := by
          rintro rfl
          exact hfilled hidentified rfl
        rw [hidentified] at hdescribes
        simp only [if_neg hne] at h
        by_cases hempty : groupID = []
        · rw [if_pos hempty] at h
          obtain ⟨rfl, rfl⟩ := pure_ok_iff.mp h
          have hgrouped := (hgroup hmets.1 hmets.2).mp hempty
          refine ⟨hstill, rfl, rfl, iff_of_false hsubmission hnot, ids, hgiven, fun _ _ => hfilled hidentified, ?_⟩
          rintro (_ | _ | _) <;> simp [fileSets, setsAbove, setsHere, hrow, hdescribes, hgrouped, Loop.slot]
        · rw [if_neg hempty] at h
          obtain ⟨rfl, rfl⟩ := pure_ok_iff.mp h
          have hgrouped : sip.grouped f = true := by
            rw [← Bool.not_eq_false]
            exact fun hfalse => hempty ((hgroup hmets.1 hmets.2).mpr hfalse)
          refine ⟨hstill, rfl, rfl, iff_of_false hsubmission hnot, ids, hgiven, fun _ _ => hfilled hidentified, ?_⟩
          rintro (_ | _ | _) <;> simp [fileSets, setsAbove, setsHere, hrow, hdescribes, hgrouped, Loop.slot]
  · rw [if_neg fun hboth => hmets ⟨hboth.1, huse.mp hboth.2⟩] at h
    obtain ⟨rfl, rfl⟩ := pure_ok_iff.mp h
    have hnone : ∀ s, sip.fileSets path s = false := fun s => by
      by_contra hset
      have htrue := hsets s (Bool.not_eq_false _ ▸ hset)
      rw [dspaceDescribes, decide_eq_true_iff] at htrue
      exact hmets ⟨htrue.1, htrue.2.1⟩
    exact ⟨Still.refl st, rfl, rfl, Iff.rfl, [], given_nil, fun s hset => by simp [hnone s] at hset,
      fun s => by simp [hnone s]⟩

-- Dataverse and the structMaps that are brought along make none of the identifiers
-- that the script gives, also where those of a file are put behind others.
structure Foreign (sip : Sip) : Prop where
  tabs : ∀ f ∈ sip.files, ∀ value n,
    Kind.dmdSec.ident n ∈ tokens (value ++ List.intercalate [' '] (sip.tabIDs f)) →
      Kind.dmdSec.ident n ∈ tokens value
  dataverse : ∀ id ∈ sip.dataverse, ∀ n, Kind.dmdSec.ident n ∉ tokens id
  customs : ∀ doc ∈ sip.customStructmaps, ∀ n, Kind.dmdSec.ident n ∉ described doc

-- The identifiers of a CSV file and of Dataverse on one div: one of the first is lost.
theorem exists_dropped {f : File} {dmdIDs : Str} {s₁ : MetsState} (hforeign : sip.Foreign) (hf : f ∈ sip.files)
    (hgiven : Given st s₁ (tokens dmdIDs)) (hnodup : (tokens dmdIDs).Nodup)
    (hjoined : List.intercalate [' '] (tokens dmdIDs) = dmdIDs)
    (htoken : ∀ id ∈ sip.tabIDs f, Token id) (hcsv : tokens dmdIDs ≠ []) (htabs : sip.tabIDs f ≠ []) :
    ∃ id ∈ tokens dmdIDs, id ∉ tokens (dmdIDs ++ List.intercalate [' '] (sip.tabIDs f)) := by
  obtain ⟨init, last, hids⟩ := (List.eq_nil_or_concat' (tokens dmdIDs)).resolve_left hcsv
  obtain ⟨first, rest, htab⟩ := List.exists_cons_of_ne_nil htabs
  have hall : ∀ t ∈ tokens dmdIDs, Token t := fun t ht => token_old (hgiven t ht).2.1
  have hfirst : Token first := htoken first (by rw [htab]; exact List.mem_cons_self)
  have hlast : last ∈ tokens dmdIDs := by
    rw [hids]
    simp
  have hmade : tokens (dmdIDs ++ List.intercalate [' '] (sip.tabIDs f)) = init ++ (last ++ first) :: rest := by
    rw [← hjoined, htab, hids, intercalate_joined, tokens_intercalate]
    intro t ht
    rcases List.mem_append.mp ht with ht | ht
    · exact hall t (by rw [hids]; exact List.mem_append_left _ ht)
    · rcases List.mem_cons.mp ht with rfl | ht
      · refine ⟨by simp [hfirst.1], fun c hc => ?_⟩
        exact (List.mem_append.mp hc).elim ((hall last hlast).2 c) (hfirst.2 c)
      · exact htoken t (by rw [htab]; exact List.mem_cons_of_mem _ ht)
  refine ⟨last, hlast, ?_⟩
  rw [hmade, List.mem_append, List.mem_cons]
  rintro (hin | hin | hin)
  · rw [hids] at hnodup
    exact List.disjoint_of_nodup_append hnodup hin (List.mem_singleton_self _)
  · have hlength := congrArg List.length hin
    rw [List.length_append] at hlength
    have hpos := List.length_pos_of_ne_nil hfirst.1
    omega
  · obtain ⟨-, ⟨n, -, rfl⟩, -⟩ := hgiven last hlast
    have hbare := hforeign.tabs f hf [] n
    rw [List.nil_append, tokens_intercalate htoken, htab] at hbare
    cases hbare (List.mem_cons_of_mem _ hin)

theorem addFile_turn {path name : Str} (hforeign : sip.Foreign) (hclean : st'.errorCount = 0)
    (h : sip.addFile path name loop st = .ok made st') :
    ∃ f div ids, sip.row path = some f ∧ Still st st' ∧ Brings st st' ids div ∧
      Turn (sip.fileSets path) ids div loop made ∧
      (made.filesInThisDirectory = [] ↔ loop.filesInThisDirectory = [] ∧ sip.isOriginal path = false) ∧
      (sip.Joinable f ∨ Dropped st st' ids div) := by
  unfold addFile at h
  rcases hrows : sip.rows path with _ | ⟨f, _ | ⟨f', rest⟩⟩ <;> rw [hrows] at h
  · obtain ⟨u, s₁, hmodify, h⟩ := bind_ok_iff.mp h
    obtain ⟨rfl, rfl⟩ := pure_ok_iff.mp h
    obtain rfl := modify_ok_iff.mp hmodify
    exact absurd hclean (Nat.succ_ne_zero _)
  · have hrow : sip.row path = some f := by rw [row, hrows]
    obtain ⟨u₁, s₁, htrim, h⟩ := bind_ok_iff.mp h
    obtain ⟨u₂, s₂, hname, h⟩ := bind_ok_iff.mp h
    obtain rfl := modify_ok_iff.mp hname
    obtain ⟨⟨groupID, use⟩, s₃, hgroup, h⟩ := bind_ok_iff.mp h
    obtain ⟨hsame, huse⟩ := group_ok hgroup
    rw [← hsame] at h hgroup
    obtain ⟨dmdIDs, s₄, hdescribe, h⟩ := bind_ok_iff.mp h
    obtain ⟨⟨loop', groupID', use'⟩, s₅, hdspace, h⟩ := bind_ok_iff.mp h
    obtain ⟨value, s₆, hdataverse, h⟩ := bind_ok_iff.mp h
    obtain ⟨u₃, s₇, hcheck, h⟩ := bind_ok_iff.mp h
    have hnamed : Still st { s₁ with
        fileNameToFileID := Dict.set s₁.fileNameToFileID (replaceFirst sip.base [] path) (fileID f) } :=
      (still_startTrim htrim).trans ⟨Nat.le_refl _, fun _ ho => ho, fun _ _ h => h, fun h => h⟩
    obtain ⟨hstill₄, hgiven₄, hnodup, hjoined, hcsv⟩ := given_describe hdescribe
    obtain ⟨hstill₅, hchildren, hfiles, hused, ids, hgiven₅, hfilled, hslots⟩ :=
      dspaceProcessing_sets hrow huse (fun hdspace hmets => group_of_dspace hdspace hmets hgroup) hdspace
    obtain ⟨hstill₆, rfl, htabs⟩ := still_dataverseProcessing hdataverse
    obtain ⟨hstill₈, rfl⟩ := still_addFileElem h hclean
    have hrest := (hstill₆.trans (still_checkGroup hcheck)).trans hstill₈
    have hbefore := hnamed.trans hstill₄
    have hgiven : Given st st' (tokens dmdIDs) := (hgiven₄.before hnamed).later (hstill₅.trans hrest)
    have hmem := (mem_of_row hrow).1
    set div : Xml := .mk .div ([(.label, if f.label = [] then name else f.label), (.type, "Item".toList)] ++
      dmdAttr (dmdIDs ++ List.intercalate [' '] (sip.tabIDs f))) [.mk .fptr [(.fileID, fileID f)] []] with hmade
    have hdiv : ∀ id, id ∈ described div ↔ id ∈ tokens (dmdIDs ++ List.intercalate [' '] (sip.tabIDs f)) := by
      intro id
      rw [hmade, mem_described_dmdAttr (by simp [Dict.get?_cons])]
      simp [mem_described_mk, ownDescribed]
    refine ⟨f, div, ids, hrow, (hbefore.trans hstill₅).trans hrest,
      ⟨clear_div ?_, fun n hn => ?_, (hgiven₅.before hbefore).later hrest, fun t ht hin => ?_⟩,
      ⟨?_, fun s => ?_, fun s s' => fileSets_one, hfilled⟩, ?_, ?_⟩
    · rintro c hc
      obtain rfl := List.mem_singleton.mp hc
      exact clear_of_none (by simp [Dict.get?_cons]) (by simp)
    · obtain ⟨hnew, hold, -⟩ := hgiven _ (hforeign.tabs f hmem dmdIDs n ((hdiv _).mp hn))
      exact ⟨hnew, hold⟩
    · obtain ⟨hnew, ⟨n, -, rfl⟩, -⟩ := hgiven₅ t ht
      exact hnew (hgiven₄ _ (hforeign.tabs f hmem dmdIDs n ((hdiv _).mp hin))).2.1
    · split_ifs
      · exact congrArg (· ++ _) hchildren
      · exact congrArg (· ++ _) hchildren
    · rw [← hslots s]
      split_ifs <;> cases s <;> rfl
    · have horiginal : use' = original ↔ sip.isOriginal path = true := by
        rw [isOriginal, hrow, Option.any_some, decide_eq_true_iff]
        exact hused.trans ⟨original_of_group hgroup, fun hf => group_of_original hf hgroup⟩
      rw [← Bool.not_eq_true, ← horiginal, ← hfiles]
      split_ifs with huse'
      · simp [huse']
      · simp [huse']
    · by_cases htoken : ∀ id ∈ sip.tabIDs f, Token id
      · by_cases hboth : describable f = true ∧ sip.csvSections (transferPath f) ≠ 0 ∧ sip.tabIDs f ≠ []
        · obtain ⟨id, hid, hnot⟩ := exists_dropped hforeign hmem hgiven₄ hnodup hjoined htoken
            (hcsv hboth.1 hboth.2.1) hboth.2.2
          obtain ⟨hnew, hold, hsection, hplace⟩ := hgiven id hid
          exact Or.inr ⟨id, hsection, Or.inr ⟨hnew, hold, mt (hdiv id).mp hnot, hgiven₄.disjoint hgiven₅ hid,
            hplace⟩⟩
        · refine Or.inl ⟨htoken, fun hdescribable hsections => ?_⟩
          by_contra htab
          exact hboth ⟨hdescribable, hsections, htab⟩
      · simp only [not_forall] at htoken
        obtain ⟨id, hid, hnot⟩ := htoken
        exact Or.inr ⟨id, ((still_checkGroup hcheck).trans hstill₈).sections _ (htabs id hid), Or.inl hnot⟩
  · exact absurd h throw_ne_ok

end Sip

end Ccp.Worker.Mets
