import Ccp.Worker.Mets.FileTurn

namespace Ccp.Worker.Mets

open Lib PosixPath Lib.Calls MetsState

namespace Sip

variable {sip : Sip} {st st' : MetsState} {loop made : Loop} {div : Xml} {ids : Str} {sets : Slot → Bool}

-- The section of a directory or of the AIP, when it has a row.
theorem given_row {row : Bool} {id : Str}
    (h : (if row then addDmdSec else pure [] : M Str) st = .ok id st') :
    Still st st' ∧ Given st st' (tokens id) ∧ (row = true ↔ tokens id ≠ []) ∧ (tokens id = [] ↔ id = []) := by
  split_ifs at h with hrow
  · obtain ⟨hstill, hgiven⟩ := given_addDmdSec h
    have htoken := token_old (hgiven id (List.mem_singleton_self _)).2.1
    rw [htoken.tokens_eq]
    exact ⟨hstill, hgiven, by simp [hrow], by simp [htoken.1]⟩
  · obtain ⟨rfl, rfl⟩ := pure_ok_iff.mp h
    exact ⟨Still.refl st, given_nil, by simp [hrow], by simp⟩

theorem given_beginDirectory {path : Str} (h : sip.beginDirectory path st = .ok loop st') :
    Still st st' ∧ Given st st' (tokens loop.dmdID) ∧ (loop.dmdID ≠ [] ↔ sip.dirSections path ≠ 0) ∧
      (loop.dmdID ≠ [] → tokens loop.dmdID ≠ []) := by
  rw [beginDirectory] at h
  obtain ⟨dirDmdID, s₁, hdir, h⟩ := bind_ok_iff.mp h
  obtain ⟨dmdIDs, s₂, hcsv, h⟩ := bind_ok_iff.mp h
  obtain ⟨rfl, rfl⟩ := pure_ok_iff.mp h
  obtain ⟨hstill₁, hgiven₁, hrow, hnil⟩ := given_row hdir
  obtain ⟨hstill₂, hgiven₂, -, hjoined, hzero⟩ := given_createDMDIDsFromCSVMetadata hcsv
  have hempty : tokens dmdIDs = [] ↔ dmdIDs = [] := by
    refine ⟨fun htokens => ?_, fun hnil => by rw [hnil]; rfl⟩
    rw [← hjoined, htokens]
    rfl
  have hboth : tokens (if dirDmdID ≠ [] ∧ dmdIDs ≠ [] then dirDmdID ++ ' ' :: dmdIDs else dirDmdID ++ dmdIDs) =
      tokens dirDmdID ++ tokens dmdIDs := by
    split_ifs with hne
    · rw [tokens_append_space]
    · rcases not_and_or.mp hne with hnot | hnot
      · simp [not_not.mp hnot]
      · simp [not_not.mp hnot]
  have hcount : (if dirDmdID ≠ [] ∧ dmdIDs ≠ [] then dirDmdID ++ ' ' :: dmdIDs else dirDmdID ++ dmdIDs) ≠ [] ↔
      dirDmdID ≠ [] ∨ dmdIDs ≠ [] := by
    split_ifs with hne
    · simp [hne.1]
    · rw [Ne, List.append_eq_nil_iff, not_and_or]
  refine ⟨hstill₁.trans hstill₂, ?_, ?_, fun hne => ?_⟩
  · rw [hboth]
    exact (hgiven₁.later hstill₂).append (hgiven₂.before hstill₁)
  · have hdirSet : dirDmdID ≠ [] ↔ sip.hasRow (replaceFirst sip.base [] path) = true :=
      hnil.not.symm.trans hrow.symm
    have hcsvSet : dmdIDs ≠ [] ↔ sip.csvSections (replaceFirst sip.base [] path) ≠ 0 :=
      hempty.not.symm.trans hzero.not.symm
    refine hcount.trans ?_
    rw [hdirSet, hcsvSet, dirSections]
    cases hhas : sip.hasRow (replaceFirst sip.base [] path) <;> simp
  · rw [hboth, Ne, List.append_eq_nil_iff, not_and_or, hnil, hempty]
    exact hcount.mp hne

-- The end of a directory puts what is in hand for the original files to them.
theorem refers_endDirectory {path : Str} (h : endDirectory path loop st = .ok div st') :
    st'.counter = st.counter ∧ st'.dmdSecIDs = st.dmdSecIDs ∧
      (∀ id, Refers st' id → Refers st id ∨
        id ∈ tokens loop.dspaceMetsDMDID ∧ loop.filesInThisDirectory ≠ []) ∧
      div = .mk .div ([(.type, "Directory".toList), (.label, basename path)] ++ dmdAttr loop.dmdID)
        loop.children := by
  rw [endDirectory] at h
  obtain ⟨u, s₁, hmodify, h⟩ := bind_ok_iff.mp h
  obtain ⟨rfl, rfl⟩ := pure_ok_iff.mp h
  obtain rfl := modify_ok_iff.mp hmodify
  refine ⟨rfl, rfl, fun id href => ?_, rfl⟩
  rcases href with ⟨e, he, hid⟩ | htrim
  · obtain ⟨grp, hgrp, hin⟩ := List.mem_flatMap.mp he
    obtain ⟨old, hold, rfl⟩ := List.mem_map.mp hgrp
    obtain ⟨x, hx, rfl⟩ := List.mem_map.mp hin
    have hfile : x ∈ st.files := List.mem_flatMap.mpr ⟨old, hold, hx⟩
    unfold setDspaceDMDID at hid
    split_ifs at hid with hset
    · obtain ⟨tag, attrib, children⟩ := x
      rw [Element.set, mem_described_mk, ownDescribed] at hid
      rcases hid with hid | hid
      · split_ifs at hid
        · rw [Dict.get?_set, if_pos rfl] at hid
          refine Or.inr ⟨hid, fun hnil => ?_⟩
          obtain ⟨i, -, hi⟩ := (Option.any_eq_true _ _).mp hset.2
          rw [hnil] at hi
          cases hi
        · cases hid
      · exact Or.inl (Or.inl ⟨_, hfile, mem_described_mk.mpr (Or.inr hid)⟩)
    · exact Or.inl (Or.inl ⟨x, hfile, hid⟩)
  · exact Or.inl (Or.inr htrim)

-- How often the items of a directory set each of the slots.
def counts (sip : Sip) (path : Str) (listing : Listing) : Slot → Nat
  | .own => listing.countDirs sip.dirSetsAbove path
  | .above => listing.countFiles sip.setsAbove path
  | .here => listing.countFiles sip.setsHere path

def Joined (sip : Sip) (visits : List Visit) : Prop := ∀ v ∈ visits, ∀ f ∈ sip.visited v, sip.Joinable f

-- What the items of a directory come to: something is lost, or each slot is set once.
structure Walked (sip : Sip) (path : Str) (listing : Listing) (loop made : Loop) (st st' : MetsState) : Prop where
  still : Still st st'
  apart : made.Apart st'
  holds : ∀ id, Old st id → made.Holds id → loop.Holds id
  slots : ∀ s, made.slot s ≠ [] ↔ loop.slot s ≠ [] ∨ sip.counts path listing s ≠ 0
  files : made.filesInThisDirectory = [] ↔
    loop.filesInThisDirectory = [] ∧ listing.countFiles sip.isOriginal path = 0
  outcome : Lost (loop.Source st) st' made.Holds ∨
    ((∀ s, (if loop.slot s = [] then 0 else 1) + sip.counts path listing s ≤ 1) ∧
      sip.Separate path listing ∧ sip.Joined (listing.visits path))

-- What a directory comes to for the div above it.
structure Closed (sip : Sip) (path : Str) (listing : Listing) (st st' : MetsState) (parentDmdID : Str)
    (div : Xml) : Prop where
  still : Still st st'
  tag : div.tag = .div
  brings : Brings st st' parentDmdID div
  sets : parentDmdID ≠ [] ↔ sip.dirSetsAbove path listing = true
  filled : parentDmdID ≠ [] → tokens parentDmdID ≠ []
  outcome : Lost (¬ Old st ·) st' (fun id => id ∈ described div ∨ id ∈ tokens parentDmdID) ∨
    (sip.Single path listing ∧ sip.Separate path listing ∧ sip.Joined (listing.visits path))
  own : sip.dirSections path ≠ 0 ∨ listing.countDirs sip.dirSetsAbove path ≠ 0 →
    ∃ t, t ∈ st'.dmdSecIDs ∧ ¬ Old st t ∧ Old st' t ∧ ¬ Refers st' t ∧ t ∉ tokens parentDmdID ∧
      ∀ c ∈ div.children, t ∉ described c

-- A turn begins with the identifiers of the div.
theorem apart_begin (hknown : Known st) (hgiven : Given st st' (tokens ids)) (hfilled : ids ≠ [] → tokens ids ≠ []) :
    Loop.Apart st' ⟨[], ids, [], [], []⟩ ∧ ∀ id, Loop.Holds ⟨[], ids, [], [], []⟩ id → ¬ Old st id := by
  have hown : ∀ {s t}, t ∈ tokens (Loop.slot ⟨[], ids, [], [], []⟩ s) → s = .own ∧ t ∈ tokens ids := by
    rintro (_ | _ | _) t ht
    · exact ⟨rfl, ht⟩
    · cases ht
    · cases ht
  refine ⟨⟨by simp, by simp, fun s t ht => ?_, fun s hne => ?_, fun s t ht => ?_, fun s s' hne t ht ht' => ?_⟩,
    fun id hid => ?_⟩
  · obtain ⟨-, hold, hsection, -⟩ := hgiven t (hown ht).2
    exact ⟨hold, hsection⟩
  · cases s with
    | own => exact hfilled hne
    | above => exact absurd rfl hne
    | here => exact absurd rfl hne
  · obtain ⟨-, -, -, hplace⟩ := hgiven t (hown ht).2
    exact ⟨hplace hknown, by simp⟩
  · exact hne ((hown ht).1.trans (hown ht').1.symm)
  · rcases Loop.holds_iff.mp hid with ⟨c, hc, -⟩ | ⟨s, hs⟩
    · cases hc
    · exact (hgiven id (hown hs).2).1

theorem apart_beginDirectory {path : Str} (hknown : Known st) (h : sip.beginDirectory path st = .ok loop st') :
    Still st st' ∧ loop.Apart st' ∧ (∀ id, loop.Holds id → ¬ Old st id) ∧
      (loop.dmdID ≠ [] ↔ sip.dirSections path ≠ 0) := by
  obtain ⟨hstill, hgiven, hsections, hfilled⟩ := given_beginDirectory h
  obtain ⟨-, -, hchildren, hparent, hnofiles, hdspace⟩ := places_beginDirectory h
  obtain ⟨children, ids, parent, files, dspace⟩ := loop
  dsimp only at hchildren hparent hnofiles hdspace
  subst hchildren hparent hnofiles hdspace
  obtain ⟨hapart, hfresh⟩ := apart_begin hknown hgiven hfilled
  exact ⟨hstill, hapart, hfresh, hsections⟩

theorem Loop.holds_slot {s : Slot} {t : Str} (h : t ∈ tokens (loop.slot s)) : loop.Holds t :=
  Loop.holds_iff.mpr (Or.inr ⟨s, h⟩)

-- A directory at its end, with what the turns for it have in hand.
structure Ending (sip : Sip) (path : Str) (listing : Listing) (loop made : Loop) (st s₁ s₂ st' : MetsState) :
    Prop where
  begun : Still st s₁
  fresh : ∀ id, loop.Holds id → ¬ Old st id
  walked : sip.Walked path listing loop made s₁ s₂
  counter : st'.counter = s₂.counter
  sections : st'.dmdSecIDs = s₂.dmdSecIDs
  refers : ∀ id, Refers st' id → Refers s₂ id ∨
    id ∈ tokens made.dspaceMetsDMDID ∧ made.filesInThisDirectory ≠ []

def Loop.dirDiv (loop : Loop) (path : Str) : Xml :=
  .mk .div ([(.type, "Directory".toList), (.label, basename path)] ++ dmdAttr loop.dmdID) loop.children

theorem Loop.mem_described_dirDiv {path id : Str} : id ∈ Mets.described (loop.dirDiv path) ↔
    id ∈ tokens (loop.slot .own) ∨ ∃ c ∈ loop.children, id ∈ Mets.described c :=
  mem_described_dmdAttr (by simp [Dict.get?_cons])

section Ending

variable {path : Str} {listing : Listing} {s₁ s₂ : MetsState} {s : Slot} {t : Str}

theorem Ending.old (h : sip.Ending path listing loop made st s₁ s₂ st') (id : Str) : Old st' id ↔ Old s₂ id := by
  rw [Old, Old, h.counter]

-- What is in hand at the end was given for this directory.
theorem Ending.not_old (h : sip.Ending path listing loop made st s₁ s₂ st') (ht : made.Holds t) : ¬ Old st t :=
  fun hold => h.fresh t (h.walked.holds t (h.begun.old hold) ht) hold

theorem Ending.given (h : sip.Ending path listing loop made st s₁ s₂ st') (ht : t ∈ tokens (made.slot s)) :
    ¬ Old st t ∧ Old st' t ∧ t ∈ st'.dmdSecIDs := by
  obtain ⟨hold, hsection⟩ := h.walked.apart.given s t ht
  exact ⟨h.not_old (Loop.holds_slot ht), (h.old t).mpr hold, h.sections ▸ hsection⟩

theorem Ending.still (h : sip.Ending path listing loop made st s₁ s₂ st') : Still st st' := by
  have hstill := h.begun.trans h.walked.still
  refine ⟨h.counter ▸ hstill.counter, fun id hid => h.sections ▸ hstill.sections id hid, fun id hid href => ?_,
    fun hknown n href => ?_⟩
  · rcases h.refers id href with href | ⟨hin, -⟩
    · exact hstill.refers id hid href
    · exact absurd hid (h.given (s := .here) hin).1
  · rcases h.refers _ href with href | ⟨hin, -⟩
    · exact (h.old _).mpr (hstill.known hknown n href)
    · exact (h.given (s := .here) hin).2.1

-- What is in hand for a div has no place with a file.
theorem Ending.not_refers (h : sip.Ending path listing loop made st s₁ s₂ st') (hs : s ≠ .here)
    (ht : t ∈ tokens (made.slot s)) : ¬ Refers st' t := by
  intro href
  rcases h.refers t href with href | ⟨hin, -⟩
  · exact (h.walked.apart.alone s t ht).1 href
  · exact h.walked.apart.disjoint s .here hs ht hin

-- It is on the div only where it is in hand for that.
theorem Ending.not_described (h : sip.Ending path listing loop made st s₁ s₂ st') (hs : s ≠ .own)
    (ht : t ∈ tokens (made.slot s)) : t ∉ Mets.described (made.dirDiv path) := by
  intro hin
  rcases Loop.mem_described_dirDiv.mp hin with hin | ⟨c, hc, hin⟩
  · exact h.walked.apart.disjoint s .own hs ht hin
  · exact (h.walked.apart.alone s t ht).2 c hc hin

theorem Ending.brings (h : sip.Ending path listing loop made st s₁ s₂ st') :
    Brings st st' made.parentDmdID (made.dirDiv path) where
  clear := clear_div h.walked.apart.clear
  described n hn := by
    rcases Loop.mem_described_dirDiv.mp hn with hin | ⟨c, hc, hin⟩
    · exact ⟨(h.given hin).1, (h.given hin).2.1⟩
    · exact ⟨h.not_old (Or.inl ⟨c, hc, hin⟩), (h.old _).mpr (h.walked.apart.known c hc n hin)⟩
  given t ht := by
    obtain ⟨hnew, hold, hsection⟩ := h.given (s := .above) ht
    exact ⟨hnew, hold, hsection, fun _ => h.not_refers (s := .above) (by decide) ht⟩
  apart t ht := h.not_described (s := .above) (by decide) ht

theorem Ending.keeps_lost (h : sip.Ending path listing loop made st s₁ s₂ st')
    (hlost : Lost (loop.Source s₁) s₂ made.Holds) :
    Lost (¬ Old st ·) st' fun id => id ∈ Mets.described (made.dirDiv path) ∨ id ∈ tokens made.parentDmdID := by
  obtain ⟨id, hsection, hid⟩ := hlost
  refine ⟨id, h.sections ▸ hsection, hid.imp_right ?_⟩
  rintro ⟨hsource, hgiven, hheld, href⟩
  refine ⟨?_, (h.old id).mpr hgiven, ?_, fun hplaced => ?_⟩
  · rcases hsource with hnot | hin
    · exact fun hid => hnot (h.begun.old hid)
    · exact h.fresh id hin
  · rintro (hin | hin)
    · rcases Loop.mem_described_dirDiv.mp hin with hin | hin
      · exact hheld (Loop.holds_slot hin)
      · exact hheld (Or.inl hin)
    · exact hheld (Loop.holds_slot (s := .above) hin)
  · rcases h.refers id hplaced with hplaced | ⟨hin, -⟩
    · exact href hplaced
    · exact hheld (Loop.holds_slot (s := .here) hin)

-- No original file takes the sections.
theorem Ending.lost_here (h : sip.Ending path listing loop made st s₁ s₂ st') (hset : made.slot .here ≠ [])
    (hempty : made.filesInThisDirectory = []) :
    Lost (¬ Old st ·) st' fun id => id ∈ Mets.described (made.dirDiv path) ∨ id ∈ tokens made.parentDmdID := by
  obtain ⟨t, ht⟩ := List.exists_mem_of_ne_nil _ (h.walked.apart.filled .here hset)
  obtain ⟨hnew, hold, hsection⟩ := h.given ht
  refine ⟨t, hsection, Or.inr ⟨hnew, hold, ?_, fun href => ?_⟩⟩
  · rintro (hin | hin)
    · exact h.not_described (by decide) ht hin
    · exact h.walked.apart.disjoint .here .above (by decide) ht hin
  · rcases h.refers t href with href | ⟨-, hne⟩
    · exact (h.walked.apart.alone .here t ht).1 href
    · exact hne hempty

theorem ending_directory (hwalks : Known s₁ → loop.Apart s₁ → sip.Walked path listing loop made s₁ s₂)
    (hknown : Known st) (hbegin : sip.beginDirectory path st = .ok loop s₁)
    (hend : endDirectory path made s₂ = .ok div st') :
    sip.Ending path listing loop made st s₁ s₂ st' ∧ div = made.dirDiv path := by
  obtain ⟨hstill, hbegun, hfresh, -⟩ := apart_beginDirectory hknown hbegin
  obtain ⟨hcounter, hsections, hrefers, hdiv⟩ := refers_endDirectory hend
  exact ⟨⟨hstill, hfresh, hwalks (hstill.known hknown) hbegun, hcounter, hsections, hrefers⟩, hdiv⟩

theorem closed_directory (hwalks : Known s₁ → loop.Apart s₁ → sip.Walked path listing loop made s₁ s₂)
    (hknown : Known st) (hbegin : sip.beginDirectory path st = .ok loop s₁)
    (hend : endDirectory path made s₂ = .ok div st') :
    sip.Closed path listing st st' made.parentDmdID div := by
  obtain ⟨h, rfl⟩ := ending_directory hwalks hknown hbegin hend
  obtain ⟨-, -, -, hsections⟩ := apart_beginDirectory hknown hbegin
  obtain ⟨-, -, -, hparent, hnofiles, -⟩ := places_beginDirectory hbegin
  refine ⟨h.still, rfl, h.brings, ?_, h.walked.apart.filled .above, ?_, fun hown => ?_⟩
  · have habove := h.walked.slots .above
    rw [Loop.slot, Loop.slot, hparent] at habove
    rw [habove, dirSetsAbove, decide_eq_true_iff, counts]
    simp
  · rcases h.walked.outcome with hlost | ⟨hfits, hseparate, hjoin⟩
    · exact Or.inl (h.keeps_lost hlost)
    · by_cases htaken : sip.counts path listing .here ≠ 0 ∧ listing.countFiles sip.isOriginal path = 0
      · exact Or.inl (h.lost_here ((h.walked.slots .here).mpr (Or.inr htaken.1))
          (h.walked.files.mpr ⟨hnofiles, htaken.2⟩))
      · refine Or.inr ⟨⟨?_, ?_, fun hne hzero => htaken ⟨hne, hzero⟩, ?_⟩, hseparate, hjoin⟩
        · exact (Nat.le_add_left _ _).trans (hfits .above)
        · exact (Nat.le_add_left _ _).trans (hfits .here)
        · have hfit := hfits .own
          rw [Loop.slot, counts] at hfit
          have hiff : loop.dmdID = [] ↔ sip.dirSections path = 0 := not_iff_not.mp hsections
          simpa only [hiff] using hfit
  · have hset : made.slot .own ≠ [] := (h.walked.slots .own).mpr (hown.imp_left hsections.mpr)
    obtain ⟨t, ht⟩ := List.exists_mem_of_ne_nil _ (h.walked.apart.filled .own hset)
    obtain ⟨hnew, hold, hsection⟩ := h.given ht
    exact ⟨t, hsection, hnew, hold, h.not_refers (by decide) ht,
      fun hin => h.walked.apart.disjoint .own .above (by decide) ht hin, (h.walked.apart.alone .own t ht).2⟩

end Ending

theorem walked_nil {path : Str} (happart : loop.Apart st) : sip.Walked path .nil loop loop st st where
  still := Still.refl st
  apart := happart
  holds _ _ h := h
  slots s := by
    cases s <;> simp [counts, Listing.countDirs, Listing.countFiles]
  files := by simp [Listing.countFiles]
  outcome := by
    refine Or.inr ⟨fun s => ?_, trivial, fun v hv => by cases hv⟩
    have hzero : sip.counts path .nil s = 0 := by
      cases s <;> rfl
    rw [hzero]
    split_ifs <;> omega

-- One turn and those after it.
theorem Walked.cons {path : Str} {listing rest : Listing} {next : Loop} {s₁ : MetsState}
    (hknown : Known st) (hapart : loop.Apart st) (hstill : Still st s₁) (hbrings : Brings st s₁ ids div)
    (hturn : Turn sets ids div loop next)
    (hcounts : ∀ s, sip.counts path listing s = (if sets s then 1 else 0) + sip.counts path rest s)
    (hfiles : next.filesInThisDirectory = [] ∧ rest.countFiles sip.isOriginal path = 0 ↔
      loop.filesInThisDirectory = [] ∧ listing.countFiles sip.isOriginal path = 0)
    (hlost : Lost (loop.Source st) s₁ next.Holds ∨
      (sip.Separate path rest → sip.Joined (rest.visits path) →
        sip.Separate path listing ∧ sip.Joined (listing.visits path)))
    (hrest : Known s₁ → next.Apart s₁ → sip.Walked path rest next made s₁ st') :
    sip.Walked path listing loop made st st' := by
  have hwalked := hrest (hstill.known hknown) (hapart.turn hknown hstill hbrings hturn)
  refine ⟨hstill.trans hwalked.still, hwalked.apart, fun id hold hid => ?_, fun s => ?_,
    hwalked.files.trans hfiles, ?_⟩
  · exact hturn.holds hbrings hold (hwalked.holds id (hstill.old hold) hid)
  · rw [hwalked.slots, hturn.slots, hcounts]
    split_ifs with hset
    · have hne : ids ≠ [] := by
        rintro rfl
        exact hturn.filled s hset rfl
      simp [hne]
    · rw [Nat.zero_add]
  · have hlater : Lost (loop.Source st) s₁ next.Holds → Lost (loop.Source st) st' made.Holds := fun hlost =>
      hlost.later hwalked.still hwalked.holds
    rcases hlost with hlost | hmore
    · exact Or.inl (hlater hlost)
    · rcases hwalked.outcome with hlost | ⟨hfits, hseparate, hjoined⟩
      · refine Or.inl (hlost.mono fun id hid => ?_)
        rcases hid with hnew | hheld
        · exact Or.inl fun hold => hnew (hstill.old hold)
        · by_cases hold : Old st id
          · exact Or.inr (hturn.holds hbrings hold hheld)
          · exact Or.inl hold
      · by_cases hfull : ∃ s, sets s = true ∧ loop.slot s ≠ []
        · -- what was in the slot is replaced
          obtain ⟨s, hset, hne⟩ := hfull
          exact Or.inl (hlater (hturn.replaces hapart hstill hbrings hset hne))
        · refine Or.inr ⟨fun s => ?_, hmore hseparate hjoined⟩
          have hfit := hfits s
          rw [hturn.slots s] at hfit
          rw [hcounts]
          cases hset : sets s with
          | false => simpa [hset] using hfit
          | true =>
              have hempty : loop.slot s = [] := by
                by_contra hne
                exact hfull ⟨s, hset, hne⟩
              have hne : ids ≠ [] := by
                rintro rfl
                exact hturn.filled s hset rfl
              simp only [hset, if_true, if_neg hne] at hfit
              rwa [if_pos hempty, if_pos rfl, Nat.zero_add]

-- What a directory sets on the div above it.
def dirTurn (sip : Sip) (path : Str) (listing : Listing) : Slot → Bool
  | .own => sip.dirSetsAbove path listing
  | .above => false
  | .here => false

theorem Closed.turn {path parentDmdID : Str} {listing : Listing}
    (h : sip.Closed path listing st st' parentDmdID div) :
    Turn (sip.dirTurn path listing) parentDmdID div loop (loop.addDir div parentDmdID) where
  children := rfl
  slots s := by
    cases s with
    | own =>
        rw [Loop.slot, Loop.addDir, dirTurn]
        by_cases hset : parentDmdID = []
        · have hfalse := h.sets.not.mp (not_not.mpr hset)
          rw [if_pos hset, if_neg hfalse]
          rfl
        · rw [if_neg hset, if_pos (h.sets.mp hset)]
    | above => rfl
    | here => rfl
  one s s' hset hset' := by
    cases s <;> cases s' <;> first | rfl | cases hset | cases hset'
  filled s hset := by
    cases s with
    | own => exact h.filled (h.sets.mpr hset)
    | above => cases hset
    | here => cases hset

-- The turn for a directory and those after it.
theorem Closed.walked {path name parentDmdID : Str} {sub rest : Listing} {s₁ : MetsState}
    (h : sip.Closed (join path name) sub st s₁ parentDmdID div) (hknown : Known st) (hapart : loop.Apart st)
    (hrest : Known s₁ → (loop.addDir div parentDmdID).Apart s₁ →
      sip.Walked path rest (loop.addDir div parentDmdID) made s₁ st') :
    sip.Walked path (.dir name sub rest) loop made st st' := by
  refine Walked.cons hknown hapart h.still h.brings h.turn (fun s => ?_) ?_ ?_ hrest
  · cases s with
    | own => rfl
    | above => exact (Nat.zero_add _).symm
    | here => exact (Nat.zero_add _).symm
  · exact Iff.rfl
  · rcases h.outcome with ⟨id, hsection, hid⟩ | ⟨hsingle, hseparate, hjoined⟩
    · refine Or.inl (h.turn.lost_of_dropped hapart hknown ⟨id, hsection, hid.imp_right ?_⟩)
      rintro ⟨hnew, hold, hplace, href⟩
      exact ⟨hnew, hold, fun hin => hplace (Or.inl hin), fun hin => hplace (Or.inr hin), fun _ => href⟩
    · refine Or.inr fun hrest hmore => ⟨⟨hsingle, hseparate, hrest⟩, fun v hv => ?_⟩
      rcases List.mem_cons.mp hv with rfl | hv
      · intro f hf
        cases hf
      · exact (List.mem_append.mp hv).elim (hjoined v) (hmore v)

-- By induction on what the directory holds: each turn loses something, or the items
-- after it do, or nothing is set twice.
theorem walked_items (hforeign : sip.Foreign) {listing : Listing} {path : Str} (hclean : st'.errorCount = 0)
    (h : sip.items path listing loop st = .ok made st') (hknown : Known st) (hapart : loop.Apart st) :
    sip.Walked path listing loop made st st' := by
  induction listing generalizing path loop made st st' with
  | nil =>
      obtain ⟨rfl, rfl⟩ := pure_ok_iff.mp h
      exact walked_nil hapart
  | other name rest ih =>
      have hwalked := ih hclean h hknown hapart
      exact { hwalked with slots := fun s => by
                            cases s <;> exact hwalked.slots _ }
  | file name rest ih =>
      rw [items] at h
      obtain ⟨next, s₁, hfile, h⟩ := bind_ok_iff.mp h
      have hclean₁ : s₁.errorCount = 0 := Nat.le_zero.mp (hclean ▸ errors_items h)
      obtain ⟨f, div, ids, hrow, hstill, hbrings, hturn, hfiles, hjoin⟩ := addFile_turn hforeign hclean₁ hfile
      refine Walked.cons hknown hapart hstill hbrings hturn (fun s => ?_) ?_ ?_ (ih hclean h)
      · cases s with
        | own => exact (Nat.zero_add _).symm
        | above => rfl
        | here => rfl
      · rw [hfiles, Listing.countFiles, and_assoc]
        refine and_congr_right fun _ => ?_
        cases sip.isOriginal (join path name) <;> simp
      · rcases hjoin with hjoin | hdropped
        · refine Or.inr fun hseparate hjoined => ⟨hseparate, fun v hv => ?_⟩
          rcases List.mem_cons.mp hv with rfl | hv
          · intro f' hf'
            obtain rfl := Option.some.inj (hrow.symm.trans hf')
            exact hjoin
          · exact hjoined v hv
        · exact Or.inl (hturn.lost_of_dropped hapart hknown hdropped)
  | dir name sub rest ihsub ihrest =>
      rw [items] at h
      obtain ⟨below, s₁, hbegin, h⟩ := bind_ok_iff.mp h
      obtain ⟨below', s₂, hitems, h⟩ := bind_ok_iff.mp h
      obtain ⟨div, s₃, hend, h⟩ := bind_ok_iff.mp h
      have hclean₃ : s₃.errorCount = 0 := Nat.le_zero.mp (hclean ▸ errors_items h)
      have hclean₂ : s₂.errorCount = 0 := by
        obtain ⟨u, s₄, hmodify, hend⟩ := bind_ok_iff.mp hend
        obtain ⟨-, rfl⟩ := pure_ok_iff.mp hend
        obtain rfl := modify_ok_iff.mp hmodify
        exact hclean₃
      have hclosed := closed_directory (ihsub hclean₂ hitems) hknown hbegin hend
      exact hclosed.walked hknown hapart (ihrest hclean h)

end Sip

end Ccp.Worker.Mets
