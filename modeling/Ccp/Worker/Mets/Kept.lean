import Ccp.Worker.Mets.Placed

namespace Ccp.Worker.Mets

open Lib PosixPath Lib.Calls MetsState

namespace Listing

-- How many files there are in a directory with a property, and how many directories.
def countFiles (p : Str → Bool) (directoryPath : Str) : Listing → Nat
  | nil => 0
  | other _ rest => rest.countFiles p directoryPath
  | file name rest => (if p (join directoryPath name) then 1 else 0) + rest.countFiles p directoryPath
  | dir _ _ rest => rest.countFiles p directoryPath

def countDirs (p : Str → Listing → Bool) (directoryPath : Str) : Listing → Nat
  | nil => 0
  | other _ rest => rest.countDirs p directoryPath
  | file _ rest => rest.countDirs p directoryPath
  | dir name sub rest =>
      (if p (join directoryPath name) sub then 1 else 0) + rest.countDirs p directoryPath

end Listing

namespace Sip

-- The file is in a group of its own, or in that of an original file of its item.
def grouped (sip : Sip) (f : File) : Bool :=
  f.filegrpuuid ≠ [] ∨ (sip.files.find? fun o =>
    o.filegrpuse = original ∧ (dirname f.originallocation).isPrefixOf o.originallocation).isSome

-- A METS file of DSpace that sections are made of.
def dspaceDescribes (sip : Sip) (path : Str) (f : File) : Bool :=
  f.transferType = some dspace ∧ f.filegrpuse = dspaceMets ∧ sip.dspaceIdentified path

-- The sections are set on the div above the directory, or on the original files in it.
def setsAbove (sip : Sip) (path : Str) : Bool :=
  (sip.row path).any fun f => sip.dspaceDescribes path f && !sip.grouped f

def setsHere (sip : Sip) (path : Str) : Bool :=
  (sip.row path).any fun f => sip.dspaceDescribes path f && sip.grouped f

def isOriginal (sip : Sip) (path : Str) : Bool :=
  (sip.row path).any fun f =>
    f.filegrpuse = original ∨ f.filegrpuse = "maildirFile".toList ∧ f.filegrpuuid = []

def dirSetsAbove (sip : Sip) (path : Str) (listing : Listing) : Bool :=
  listing.countFiles sip.setsAbove path ≠ 0

-- Nothing that is set for the directory takes the place of something else.
structure Single (sip : Sip) (path : Str) (listing : Listing) : Prop where
  above : listing.countFiles sip.setsAbove path ≤ 1
  here : listing.countFiles sip.setsHere path ≤ 1
  taken : listing.countFiles sip.setsHere path ≠ 0 → listing.countFiles sip.isOriginal path ≠ 0
  own : (if sip.dirSections path = 0 then 0 else 1) + listing.countDirs sip.dirSetsAbove path ≤ 1

-- The same for all that is below the directory.
def Separate (sip : Sip) (path : Str) : Listing → Prop
  | .nil => True
  | .other _ rest => Separate sip path rest
  | .file _ rest => Separate sip path rest
  | .dir name sub rest =>
      sip.Single (join path name) sub ∧ Separate sip (join path name) sub ∧ Separate sip path rest

variable {sip : Sip} {st st' : MetsState}

theorem tag_get_set {key key' : Attr} (hkey : key ≠ key') (value : Str) (e : Xml) :
    (e.set key value).tag = e.tag ∧ (e.set key value).get key' = e.get key' := by
  obtain ⟨tag, attrib, children⟩ := e
  refine ⟨rfl, ?_⟩
  rw [Element.get, Element.set, Element.attrib, Dict.get?_set, if_neg hkey]
  rfl

theorem groupOf_ne_nil (uuid : Str) : groupOf uuid ≠ [] := by
  simp [groupOf]

-- The group of a METS file of DSpace.
theorem group_of_dspace {f : File} {path : Str} {made : Str × Str} (hdspace : f.transferType = some dspace)
    (hmets : f.filegrpuse = dspaceMets) (h : sip.group f path st = .ok made st') :
    made.1 = [] ↔ sip.grouped f = false := by
  have hown : ownGroup f = false := by
    rw [ownGroup, hmets, decide_eq_false_iff_not]
    rintro ⟨-, hin⟩
    exact absurd hin (by decide)
  unfold group at h
  simp only [hown, Bool.false_eq_true, if_false] at h
  by_cases hgroup : f.filegrpuuid = []
  · rw [if_neg (not_not.mpr hgroup), if_pos ⟨hdspace, by rw [hmets]; decide⟩] at h
    obtain ⟨rfl, -⟩ := pure_ok_iff.mp h
    rw [grouped, decide_eq_false_iff_not]
    cases hfound : sip.files.find? fun o =>
        o.filegrpuse = original ∧ (dirname f.originallocation).isPrefixOf o.originallocation with
    | none => simp [hgroup]
    | some o => simp [groupOf_ne_nil]
  · rw [if_pos hgroup] at h
    obtain ⟨rfl, -⟩ := pure_ok_iff.mp h
    simp [grouped, hgroup, groupOf_ne_nil]

theorem group_of_original {f : File} {path : Str} {made : Str × Str}
    (horiginal : f.filegrpuse = original ∨ f.filegrpuse = "maildirFile".toList ∧ f.filegrpuuid = [])
    (h : sip.group f path st = .ok made st') : made.2 = original := by
  unfold group at h
  by_cases hgroup : f.filegrpuuid = []
  · have hown : ownGroup f = true := by
      rw [ownGroup, decide_eq_true_iff]
      refine ⟨hgroup, ?_⟩
      rcases horiginal with huse | ⟨huse, -⟩
      · rw [huse]
        decide
      · rw [huse]
        decide
    simp only [hown, if_true] at h
    rw [if_neg (not_not.mpr hgroup)] at h
    obtain ⟨rfl, -⟩ := pure_ok_iff.mp h
    rcases horiginal with huse | ⟨huse, -⟩
    · dsimp only
      split_ifs
      · rfl
      · exact huse
    · dsimp only
      rw [if_pos huse]
  · have huse : f.filegrpuse = original := horiginal.resolve_right fun hboth => hgroup hboth.2
    simp only [if_pos hgroup] at h
    obtain ⟨rfl, -⟩ := pure_ok_iff.mp h
    dsimp only
    rw [if_neg]
    · exact huse
    · rw [huse]
      decide

-- The identifiers that the turns for a directory have in hand.
def Loop.Holds (loop : Loop) (id : Str) : Prop :=
  (∃ c ∈ loop.children, id ∈ described c) ∨ id ∈ tokens loop.dmdID ∨ id ∈ tokens loop.parentDmdID ∨
    id ∈ tokens loop.dspaceMetsDMDID

-- What some turns do with what is in hand: nothing is let go, and a DMDID that is set
-- comes from one of them.
structure Loop.Onto (dirs above here originals : Nat) (names : List Str) (loop made : Loop) : Prop where
  holds : ∀ id, loop.Holds id → made.Holds id
  dmdID : made.dmdID ≠ [] → loop.dmdID ≠ [] ∨ dirs ≠ 0
  above : made.parentDmdID ≠ [] → loop.parentDmdID ≠ [] ∨ above ≠ 0
  here : made.dspaceMetsDMDID ≠ [] → loop.dspaceMetsDMDID ≠ [] ∨ here ≠ 0
  names : ∀ i ∈ made.filesInThisDirectory, i ∈ loop.filesInThisDirectory ∨ i ∈ names
  originals : loop.filesInThisDirectory ≠ [] ∨ originals ≠ 0 → made.filesInThisDirectory ≠ []

theorem Loop.Onto.refl (loop : Loop) : Loop.Onto 0 0 0 0 [] loop loop :=
  ⟨fun _ => id, Or.inl, Or.inl, Or.inl, fun _ => Or.inl, fun h => h.resolve_right (not_not.mpr rfl)⟩

theorem Loop.Onto.trans {dirs above here originals dirs' above' here' originals' : Nat}
    {names names' : List Str} {loop loop' made : Loop}
    (h : Loop.Onto dirs above here originals names loop loop')
    (h' : Loop.Onto dirs' above' here' originals' names' loop' made) :
    Loop.Onto (dirs + dirs') (above + above') (here + here') (originals + originals') (names ++ names')
      loop made where
  holds id hid := h'.holds id (h.holds id hid)
  dmdID hne := by
    rcases h'.dmdID hne with hne | hne
    · rcases h.dmdID hne with hne | hne
      · exact Or.inl hne
      · exact Or.inr (by omega)
    · exact Or.inr (by omega)
  above hne := by
    rcases h'.above hne with hne | hne
    · rcases h.above hne with hne | hne
      · exact Or.inl hne
      · exact Or.inr (by omega)
    · exact Or.inr (by omega)
  here hne := by
    rcases h'.here hne with hne | hne
    · rcases h.here hne with hne | hne
      · exact Or.inl hne
      · exact Or.inr (by omega)
    · exact Or.inr (by omega)
  names i hi := by
    rcases h'.names i hi with hi | hi
    · exact (h.names i hi).imp_right (List.mem_append_left _)
    · exact Or.inr (List.mem_append_right _ hi)
  originals hne := by
    by_cases hloop : loop'.filesInThisDirectory = []
    · refine h'.originals (Or.inr fun hzero => ?_)
      refine absurd hloop (h.originals (hne.imp_right fun hsum => ?_))
      omega
    · exact h'.originals (Or.inl hloop)

section Set

variable {loop : Loop} {ids : Str} {above here : Nat}

theorem Loop.Onto.same (loop : Loop) (above here : Nat) : Loop.Onto 0 above here 0 [] loop loop :=
  ⟨fun _ => id, Or.inl, Or.inl, Or.inl, fun _ => Or.inl, fun h => h.resolve_right (not_not.mpr rfl)⟩

theorem Loop.Onto.setParent (here : Nat) (hempty : loop.parentDmdID = []) (habove : above ≠ 0) :
    Loop.Onto 0 above here 0 [] loop { loop with parentDmdID := ids } := by
  refine ⟨fun id hid => ?_, Or.inl, fun _ => Or.inr habove, Or.inl, fun _ => Or.inl,
    fun h => h.resolve_right (not_not.mpr rfl)⟩
  rcases hid with hid | hid | hid | hid
  · exact Or.inl hid
  · exact Or.inr (Or.inl hid)
  · rw [hempty] at hid
    cases hid
  · exact Or.inr (Or.inr (Or.inr hid))

theorem Loop.Onto.setDspace (above : Nat) (hempty : loop.dspaceMetsDMDID = []) (hhere : here ≠ 0) :
    Loop.Onto 0 above here 0 [] loop { loop with dspaceMetsDMDID := ids } := by
  refine ⟨fun id hid => ?_, Or.inl, Or.inl, fun _ => Or.inr hhere, fun _ => Or.inl,
    fun h => h.resolve_right (not_not.mpr rfl)⟩
  rcases hid with hid | hid | hid | hid
  · exact Or.inl hid
  · exact Or.inr (Or.inl hid)
  · exact Or.inr (Or.inr (Or.inl hid))
  · rw [hempty] at hid
    cases hid

theorem Loop.Onto.addChild (loop : Loop) (c : Xml) :
    Loop.Onto 0 0 0 0 [] loop { loop with children := loop.children ++ [c] } := by
  refine ⟨fun id hid => hid.imp_left ?_, Or.inl, Or.inl, Or.inl, fun _ => Or.inl,
    fun h => h.resolve_right (not_not.mpr rfl)⟩
  rintro ⟨d, hd, hid⟩
  exact ⟨d, List.mem_append_left _ hd, hid⟩

theorem Loop.Onto.addName (loop : Loop) (i : Str) : Loop.Onto 0 0 0 1 [i] loop
    { loop with filesInThisDirectory := loop.filesInThisDirectory ++ [i] } :=
  ⟨fun _ => id, Or.inl, Or.inl, Or.inl, fun _ => List.mem_append.mp,
    fun _ => List.append_ne_nil_of_right_ne_nil _ (List.cons_ne_nil _ _)⟩

theorem Loop.Onto.weaken {dirs dirs' above' here' originals originals' : Nat} {names names' : List Str}
    {made : Loop} (h : Loop.Onto dirs above here originals names loop made) (hdirs : dirs = dirs')
    (habove : above = above') (hhere : here = here') (horiginals : originals' ≠ 0 → originals ≠ 0)
    (hnames : names ⊆ names') : Loop.Onto dirs' above' here' originals' names' loop made := by
  subst hdirs habove hhere
  exact { h with
    names := fun i hi => (h.names i hi).imp_right (@hnames i)
    originals := fun hne => h.originals (hne.imp_right horiginals) }

end Set

theorem onto_dspaceProcessing {f : File} {path groupID use : Str} {loop : Loop}
    {made : Loop × Str × Str} (huse : use = dspaceMets ↔ f.filegrpuse = dspaceMets)
    (hgroup : f.transferType = some dspace → f.filegrpuse = dspaceMets →
      (groupID = [] ↔ sip.grouped f = false))
    (habove : (sip.dspaceDescribes path f && !sip.grouped f) = true → loop.parentDmdID = [])
    (hhere : (sip.dspaceDescribes path f && sip.grouped f) = true → loop.dspaceMetsDMDID = [])
    (h : sip.dspaceProcessing f path groupID use loop st = .ok made st') :
    Places [] made.1.Holds st st' ∧
      Loop.Onto 0 (if sip.dspaceDescribes path f && !sip.grouped f then 1 else 0)
        (if sip.dspaceDescribes path f && sip.grouped f then 1 else 0) 0 [] loop made.1 ∧
      (use ≠ dspaceMets → made.2.2 = use) := by
  rw [dspaceProcessing] at h
  by_cases hmets : f.transferType = some dspace ∧ f.filegrpuse = dspaceMets
  · have hnot : ∀ {p : Prop}, use ≠ dspaceMets → p := fun hne => absurd (huse.mpr hmets.2) hne
    rw [if_pos ⟨hmets.1, huse.mpr hmets.2⟩] at h
    obtain ⟨ids, s₁, hcreate, h⟩ := bind_ok_iff.mp h
    obtain ⟨hplaces, hidentified⟩ := places_createDSpaceDMDSec hcreate
    by_cases hnil : ids = []
    · -- no section was made
      have hloop : made.1 = loop ∧ s₁ = st' := by
        simp only [hnil, if_true] at h
        split_ifs at h
        · obtain ⟨rfl, rfl⟩ := pure_ok_iff.mp h
          exact ⟨rfl, rfl⟩
        · obtain ⟨rfl, rfl⟩ := pure_ok_iff.mp h
          exact ⟨rfl, rfl⟩
      obtain ⟨hloop, rfl⟩ := hloop
      rw [hloop]
      refine ⟨hplaces.mono fun id hid => ?_, .same loop _ _, hnot⟩
      rw [hnil] at hid
      cases hid
    · have hdescribes : sip.dspaceDescribes path f = true := by
        rw [dspaceDescribes, decide_eq_true_iff]
        exact ⟨hmets.1, hmets.2, hidentified hnil⟩
      simp only [if_neg hnil] at h
      by_cases hempty : groupID = []
      · rw [if_pos hempty] at h
        obtain ⟨rfl, rfl⟩ := pure_ok_iff.mp h
        have hset : (sip.dspaceDescribes path f && !sip.grouped f) = true := by
          rw [hdescribes, (hgroup hmets.1 hmets.2).mp hempty]
          rfl
        rw [if_pos hset]
        exact ⟨hplaces.mono fun id hid => Or.inr (Or.inr (Or.inl hid)),
          .setParent _ (habove hset) one_ne_zero, hnot⟩
      · rw [if_neg hempty] at h
        obtain ⟨rfl, rfl⟩ := pure_ok_iff.mp h
        have hgrouped : sip.grouped f = true := by
          rw [← Bool.not_eq_false]
          exact fun hfalse => hempty ((hgroup hmets.1 hmets.2).mpr hfalse)
        have hset : (sip.dspaceDescribes path f && sip.grouped f) = true := by
          rw [hdescribes, hgrouped]
          rfl
        rw [if_pos hset]
        exact ⟨hplaces.mono fun id hid => Or.inr (Or.inr (Or.inr hid)),
          .setDspace _ (hhere hset) one_ne_zero, hnot⟩
  · rw [if_neg fun hboth => hmets ⟨hboth.1, huse.mp hboth.2⟩] at h
    obtain ⟨rfl, rfl⟩ := pure_ok_iff.mp h
    exact ⟨places_refl st, .same loop _ _, fun _ => rfl⟩

-- The identifier of the element of the file at a path.
def fileNames (sip : Sip) (path : Str) : List Str := (sip.row path).toList.map fileID

theorem places_checkGroup {groupID : Str} {u : Unit} (h : checkGroup groupID st = .ok u st') :
    Places [] (fun _ => False) st st' := by
  unfold checkGroup at h
  split_ifs at h
  · obtain rfl := modify_ok_iff.mp h
    exact places_addError
  · obtain ⟨-, rfl⟩ := pure_ok_iff.mp h
    exact places_refl st

theorem onto_addFileElem {f : File} {path groupID use : Str} {loop made : Loop}
    (h : sip.addFileElem f path groupID use loop st = .ok made st') (hclean : st'.errorCount = 0) :
    Places [] (fun _ => False) st st' ∧ (∀ i ∈ made.filesInThisDirectory,
        i ∈ loop.filesInThisDirectory ∨ Present st' i) ∧
      Loop.Onto 0 0 0 (if use = original then 1 else 0) [fileID f] loop made := by
  obtain ⟨hplaces, hpresent, rfl⟩ := places_addFileElem h hclean
  refine ⟨hplaces, fun i hi => ?_, ?_⟩
  · split_ifs at hi
    · refine (List.mem_append.mp hi).imp_right fun hi => ?_
      exact List.mem_singleton.mp hi ▸ hpresent
    · exact Or.inl hi
  · split_ifs
    · exact .addName loop _
    · exact (Loop.Onto.same loop 0 0).weaken rfl rfl rfl id (List.nil_subset _)

theorem onto_addFile {path name : Str} {loop made : Loop} (hclean : st'.errorCount = 0)
    (hjoin : ∀ f ∈ sip.row path, sip.Joinable f)
    (habove : sip.setsAbove path = true → loop.parentDmdID = [])
    (hhere : sip.setsHere path = true → loop.dspaceMetsDMDID = [])
    (h : sip.addFile path name loop st = .ok made st') :
    Places [] made.Holds st st' ∧
      (∀ i ∈ made.filesInThisDirectory, i ∈ loop.filesInThisDirectory ∨ Present st' i) ∧
      Loop.Onto 0 (if sip.setsAbove path then 1 else 0) (if sip.setsHere path then 1 else 0)
        (if sip.isOriginal path then 1 else 0) (sip.fileNames path) loop made := by
  unfold addFile at h
  rcases hrows : sip.rows path with _ | ⟨f, _ | ⟨f', rest⟩⟩ <;> rw [hrows] at h
  · obtain ⟨u, s₁, hmodify, h⟩ := bind_ok_iff.mp h
    obtain ⟨rfl, rfl⟩ := pure_ok_iff.mp h
    obtain rfl := modify_ok_iff.mp hmodify
    exact absurd hclean (Nat.succ_ne_zero _)
  · have hrow : sip.row path = some f := by rw [row, hrows]
    rw [setsAbove, hrow, Option.any_some] at habove
    rw [setsHere, hrow, Option.any_some] at hhere
    obtain ⟨htoken, hjoin⟩ := hjoin f hrow
    obtain ⟨u₁, s₁, htrim, h⟩ := bind_ok_iff.mp h
    obtain ⟨u₂, s₂, hname, h⟩ := bind_ok_iff.mp h
    obtain rfl := modify_ok_iff.mp hname
    obtain ⟨⟨groupID, use⟩, s₃, hgroup, h⟩ := bind_ok_iff.mp h
    obtain ⟨hsame, huse⟩ := group_ok hgroup
    rw [← hsame] at h hgroup
    obtain ⟨dmdIDs, s₄, hdescribe, h⟩ := bind_ok_iff.mp h
    obtain ⟨⟨loop', groupID', use'⟩, s₅, hdspace, h⟩ := bind_ok_iff.mp h
    obtain ⟨value, s₆, hdataverse, h⟩ := bind_ok_iff.mp h
    obtain ⟨u₃, s₇, hcheck, h⟩ := bind_ok_iff.mp h
    obtain ⟨p₁, hsome⟩ := places_startTrim htrim
    have p₂ : Places [] (fun _ => False) s₁ { s₁ with
        fileNameToFileID := Dict.set s₁.fileNameToFileID (replaceFirst sip.base [] path) (fileID f) } :=
      ⟨fun _ ho => Or.inl ho, fun _ _ h => h, fun _ h => h, fun h => h, fun h => h⟩
    have p₄ := places_describe (by exact hsome) hdescribe
    obtain ⟨-, -, hnone⟩ := grows_describe (List.mem_singleton_self (fileID f)) hdescribe
    obtain ⟨p₅, honto, hkeeps⟩ := onto_dspaceProcessing huse
      (fun hdspace hmets => group_of_dspace hdspace hmets hgroup) habove hhere hdspace
    have hone : dmdIDs = [] ∨ sip.tabIDs f = [] := by
      by_cases htab : sip.tabIDs f = []
      · exact Or.inr htab
      · refine Or.inl (hnone ?_)
        cases hdescribable : describable f with
        | false => exact Or.inl rfl
        | true =>
            refine Or.inr ?_
            by_contra hcsv
            exact htab (hjoin hdescribable hcsv)
    obtain ⟨p₆, hvalue⟩ := places_dataverseProcessing htoken hone hdataverse
    have p₇ := places_checkGroup hcheck
    obtain ⟨p₈, hpresent, hlast⟩ := onto_addFileElem h hclean
    set div : Xml := .mk .div ([(.label, if f.label = [] then name else f.label), (.type, "Item".toList)] ++
      dmdAttr value) [.mk .fptr [(.fileID, fileID f)] []] with hdiv
    have hall := (honto.trans (.addChild loop' div)).trans hlast
    have hholds : ∀ id, loop'.Holds id ∨ id ∈ tokens value → made.Holds id := by
      rintro id (hid | hid)
      · exact hlast.holds id ((Loop.Onto.addChild loop' div).holds id hid)
      · refine hlast.holds id (Or.inl ⟨div, List.mem_append_right _ (List.mem_singleton_self _), ?_⟩)
        exact (mem_described_dmdAttr (by simp [Dict.get?_cons])).mpr (Or.inl hid)
    have hnil := List.disjoint_nil_left (α := Str)
    refine ⟨?_, fun i hi => ?_, hall.weaken rfl ?_ ?_ ?_ ?_⟩
    · refine ((((((p₁.trans p₂ (hnil _)).trans p₄ (hnil _)).trans p₅ (hnil _)).trans p₆ (hnil _)).trans p₇
        (hnil _)).trans p₈ (hnil _)).mono fun id hid => hholds id ?_
      rcases hid with (((((hid | hid) | hid) | hid) | hid) | hid) | hid
      · exact hid.elim
      · exact hid.elim
      · exact Or.inr (hvalue id hid)
      · exact Or.inl hid
      · exact Or.inr hid
      · exact hid.elim
      · exact hid.elim
    · refine (hpresent i hi).imp_left fun hi => (honto.names i hi).resolve_right List.not_mem_nil
    · rw [setsAbove, hrow, Option.any_some]
      rfl
    · rw [setsHere, hrow, Option.any_some]
      rfl
    · intro horiginal
      rw [isOriginal, hrow, Option.any_some] at horiginal
      split_ifs at horiginal with hf
      · have huse' : use = original := group_of_original (of_decide_eq_true hf) hgroup
        have hne : original ≠ dspaceMets := by decide
        have hkept : use' = use := hkeeps (huse'.trans_ne hne)
        rw [hkept, huse', if_pos rfl]
        omega
      · exact absurd rfl horiginal
    · rw [fileNames, hrow]
      simp
  · exact absurd h throw_ne_ok

theorem errors_items {listing : Listing} {path : Str} {loop made : Loop}
    (h : sip.items path listing loop st = .ok made st') : st.errorCount ≤ st'.errorCount := by
  induction listing generalizing path loop made st st' with
  | nil =>
      obtain ⟨rfl, rfl⟩ := pure_ok_iff.mp h
      exact Nat.le_refl _
  | other name rest ih => exact ih h
  | file name rest ih =>
      rw [items] at h
      obtain ⟨loop', s₁, hfile, h⟩ := bind_ok_iff.mp h
      exact (grows_addFile hfile).1.errors.trans (ih h)
  | dir name sub rest ihsub ihrest =>
      rw [items] at h
      obtain ⟨below, s₁, hbegin, h⟩ := bind_ok_iff.mp h
      obtain ⟨below', s₂, hitems, h⟩ := bind_ok_iff.mp h
      obtain ⟨div, s₃, hend, h⟩ := bind_ok_iff.mp h
      obtain ⟨u, s₄, hmodify, hend⟩ := bind_ok_iff.mp hend
      obtain ⟨rfl, rfl⟩ := pure_ok_iff.mp hend
      obtain rfl := modify_ok_iff.mp hmodify
      have hrest := ihrest h
      exact ((@grows_beginDirectory _ _ _ [] _ _ hbegin).1.errors.trans (ihsub hitems)).trans hrest

theorem places_dirDmdSec {path id : Str} (h : sip.dirDmdSec path st = .ok id st') :
    Places [] (· ∈ tokens id) st st' ∧ (id ≠ [] → sip.hasRow path = true) := by
  unfold dirDmdSec at h
  split_ifs at h with hrow
  · obtain ⟨-, htoken, -⟩ := @grows_addDmdSec _ _ [] _ h
    refine ⟨(places_addDmdSec h).mono ?_, fun _ => hrow⟩
    rintro i rfl
    rw [htoken.tokens_eq]
    exact List.mem_singleton_self _
  · obtain ⟨rfl, rfl⟩ := pure_ok_iff.mp h
    exact ⟨places_refl st, fun hne => absurd rfl hne⟩

theorem places_beginDirectory {path : Str} {loop : Loop} (h : sip.beginDirectory path st = .ok loop st') :
    Places [] (· ∈ tokens loop.dmdID) st st' ∧ (loop.dmdID ≠ [] → sip.dirSections path ≠ 0) ∧
      loop.children = [] ∧ loop.parentDmdID = [] ∧ loop.filesInThisDirectory = [] ∧
      loop.dspaceMetsDMDID = [] := by
  rw [beginDirectory] at h
  obtain ⟨dirDmdID, s₁, hdir, h⟩ := bind_ok_iff.mp h
  obtain ⟨dmdIDs, s₂, hcsv, h⟩ := bind_ok_iff.mp h
  obtain ⟨rfl, rfl⟩ := pure_ok_iff.mp h
  obtain ⟨p₁, hrow⟩ := places_dirDmdSec hdir
  have p₂ := places_createDMDIDsFromCSVMetadata hcsv
  obtain ⟨-, -, hnone⟩ := @grows_createDMDIDsFromCSVMetadata _ _ _ [] _ _ hcsv
  refine ⟨(p₁.trans p₂ (List.disjoint_nil_left _)).mono fun id hid => ?_, fun hne => ?_, rfl, rfl, rfl, rfl⟩
  · dsimp only
    split_ifs with hboth
    · rw [tokens_append_space, List.mem_append]
      exact hid
    · rcases not_and_or.mp hboth with hnil | hnil
      · rw [not_not.mp hnil] at hid ⊢
        exact hid.resolve_left (List.not_mem_nil)
      · rw [not_not.mp hnil] at hid ⊢
        rw [List.append_nil]
        exact hid.resolve_right (List.not_mem_nil)
  · rw [dirSections]
    by_cases hdirID : dirDmdID = []
    · have hcsv : dmdIDs ≠ [] := by
        rintro rfl
        exact hne (by simp [hdirID])
      have hsections := mt hnone hcsv
      omega
    · rw [if_pos (hrow hdirID)]
      omega

-- The original files of the directory take what its METS file of DSpace gave.
theorem places_endDirectory {path : Str} {loop : Loop} {div : Xml}
    (hpresent : ∀ i ∈ loop.filesInThisDirectory, Present st i)
    (htaken : loop.dspaceMetsDMDID ≠ [] → loop.filesInThisDirectory ≠ [])
    (h : endDirectory path loop st = .ok div st') :
    Places loop.filesInThisDirectory (fun _ => False) st st' ∧
      (∀ id ∈ tokens loop.dspaceMetsDMDID, ∀ later, loop.filesInThisDirectory.Disjoint later →
        Placed later st' id) ∧
      (∀ id, id ∈ described div ↔ id ∈ tokens loop.dmdID ∨ ∃ c ∈ loop.children, id ∈ described c) ∧
      div.tag = .div ∧ (loop.dmdID = [] → div.get .dmdID = none) ∧ st'.errorCount = st.errorCount := by
  rw [endDirectory] at h
  obtain ⟨u, s₁, hmodify, h⟩ := bind_ok_iff.mp h
  obtain ⟨rfl, rfl⟩ := pure_ok_iff.mp h
  obtain rfl := modify_ok_iff.mp hmodify
  have hfiles : MetsState.files { st with
      globalFileGrps := st.globalFileGrps.map fun grp =>
        (grp.1, grp.2.map (setDspaceDMDID loop)) } = st.files.map (setDspaceDMDID loop) := by
    simp only [MetsState.files, List.flatMap_map, List.map_flatMap]
  have hsame : ∀ e : Xml, (setDspaceDMDID loop e).tag = e.tag ∧ (setDspaceDMDID loop e).get .id = e.get .id := by
    intro e
    unfold setDspaceDMDID
    split_ifs
    · exact tag_get_set (by decide) _ e
    · exact ⟨rfl, rfl⟩
  refine ⟨⟨fun _ ho => Or.inl ho, fun later id hplaced => hplaced.imp_right ?_, fun i hi => ?_, fun h => h,
    fun h => h⟩, fun id hid later hlater => ?_, fun id => mem_described_dmdAttr (by simp [Dict.get?_cons]),
    rfl, fun hnil => ?_, rfl⟩
  · rintro ⟨i, hi, e, he, htag, hget, hid⟩
    rw [List.mem_append, not_or] at hi
    refine ⟨i, hi.2, e, ?_, htag, hget, hid⟩
    rw [hfiles]
    refine List.mem_map.mpr ⟨e, he, if_neg fun hset => hi.1 ?_⟩
    rw [hget, Option.any_some, List.contains_iff_mem] at hset
    exact hset.2
  · obtain ⟨e, he, htag, hget⟩ := hi
    refine ⟨setDspaceDMDID loop e, ?_, (hsame e).1.trans htag, (hsame e).2.trans hget⟩
    rw [hfiles]
    exact List.mem_map_of_mem he
  · have hne : loop.dspaceMetsDMDID ≠ [] := by
      intro hnil
      rw [hnil] at hid
      cases hid
    obtain ⟨i, hi⟩ := List.exists_mem_of_ne_nil _ (htaken hne)
    obtain ⟨e, he, htag, hget⟩ := hpresent i hi
    have hset : setDspaceDMDID loop e = e.set .dmdID loop.dspaceMetsDMDID := by
      refine if_pos ⟨hne, ?_⟩
      rw [hget, Option.any_some, List.contains_iff_mem]
      exact hi
    refine Or.inr ⟨i, fun hin => hlater hi hin, setDspaceDMDID loop e, ?_, (hsame e).1.trans htag,
      (hsame e).2.trans hget, ?_⟩
    · rw [hfiles]
      exact List.mem_map_of_mem he
    · rw [hset]
      obtain ⟨tag, attrib, children⟩ := e
      rw [Element.get, Element.set, Element.attrib, Dict.get?_set, if_pos rfl]
      exact hid
  · rw [Element.get, Element.attrib, get?_append_dmdAttr, hnil]
    simp [Dict.get?_cons]

-- There is room for what the items of a directory set.
structure Loop.Room (dirs above here : Nat) (loop : Loop) : Prop where
  dmdID : (if loop.dmdID = [] then 0 else 1) + dirs ≤ 1
  above : (if loop.parentDmdID = [] then 0 else 1) + above ≤ 1
  here : (if loop.dspaceMetsDMDID = [] then 0 else 1) + here ≤ 1

theorem Loop.Room.onto {dirs above here originals dirs' above' here' : Nat} {names : List Str}
    {loop made : Loop} (h : loop.Room (dirs + dirs') (above + above') (here + here'))
    (honto : Loop.Onto dirs above here originals names loop made) : made.Room dirs' above' here' := by
  obtain ⟨hdirs, habove, hhere⟩ := h
  refine ⟨?_, ?_, ?_⟩
  · have hset := honto.dmdID
    split_ifs at hdirs ⊢ <;> grind
  · have hset := honto.above
    split_ifs at habove ⊢ <;> grind
  · have hset := honto.here
    split_ifs at hhere ⊢ <;> grind

end Sip

namespace Listing

-- The files in a directory, and those in the directories below it.
def filesHere (names : Str → List Str) (directoryPath : Str) : Listing → List Str
  | nil => []
  | other _ rest => rest.filesHere names directoryPath
  | file name rest => names (join directoryPath name) ++ rest.filesHere names directoryPath
  | dir _ _ rest => rest.filesHere names directoryPath

def filesBelow (names : Str → List Str) (directoryPath : Str) : Listing → List Str
  | nil => []
  | other _ rest => rest.filesBelow names directoryPath
  | file _ rest => rest.filesBelow names directoryPath
  | dir name sub rest => (sub.filesBelow names (join directoryPath name) ++
      sub.filesHere names (join directoryPath name)) ++ rest.filesBelow names directoryPath

end Listing

namespace Sip

variable {sip : Sip} {st st' : MetsState}

-- The div of a directory takes what was in hand for it, and the div above the rest.
theorem Loop.Onto.addDir {loop : Loop} {div : Xml} {parentDmdID : Str} {set : Bool}
    (hparent : parentDmdID ≠ [] → set = true) (hempty : set = true → loop.dmdID = []) :
    Loop.Onto (if set then 1 else 0) 0 0 0 [] loop (loop.addDir div parentDmdID) ∧
      (∀ id, id ∈ described div ∨ id ∈ tokens parentDmdID → (loop.addDir div parentDmdID).Holds id) := by
  refine ⟨⟨fun id hid => ?_, fun hne => ?_, Or.inl, Or.inl, fun _ => Or.inl,
    fun h => h.resolve_right (not_not.mpr rfl)⟩, fun id hid => ?_⟩
  · rcases hid with ⟨c, hc, hid⟩ | hid | hid
    · exact Or.inl ⟨c, List.mem_append_left _ hc, hid⟩
    · refine Or.inr (Or.inl ?_)
      dsimp only [Loop.addDir]
      split_ifs with hnil
      · exact hid
      · rw [hempty (hparent hnil)] at hid
        cases hid
    · exact Or.inr (Or.inr hid)
  · by_cases hnil : parentDmdID = []
    · dsimp only [Loop.addDir] at hne
      rw [if_pos hnil] at hne
      exact Or.inl hne
    · rw [if_pos (hparent hnil)]
      exact Or.inr one_ne_zero
  · rcases hid with hid | hid
    · exact Or.inl ⟨div, List.mem_append_right _ (List.mem_singleton_self _), hid⟩
    · refine Or.inr (Or.inl ?_)
      dsimp only [Loop.addDir]
      rw [if_neg]
      · exact hid
      · rintro rfl
        cases hid

-- What the items of a directory do with the sections when there is room for them.
def Walks (sip : Sip) (path : Str) (listing : Listing) : Prop :=
  ∀ (loop made : Loop) (st st' : MetsState), st'.errorCount = 0 →
    loop.Room (listing.countDirs sip.dirSetsAbove path) (listing.countFiles sip.setsAbove path)
      (listing.countFiles sip.setsHere path) →
    (∀ i ∈ loop.filesInThisDirectory, Present st i) → sip.items path listing loop st = .ok made st' →
    Places (listing.filesBelow sip.fileNames path) made.Holds st st' ∧
      (∀ i ∈ made.filesInThisDirectory, Present st' i) ∧
      Loop.Onto (listing.countDirs sip.dirSetsAbove path) (listing.countFiles sip.setsAbove path)
        (listing.countFiles sip.setsHere path) (listing.countFiles sip.isOriginal path)
        (listing.filesHere sip.fileNames path) loop made

-- The files below a directory and those in it.
def filesOf (sip : Sip) (path : Str) (listing : Listing) : List Str :=
  listing.filesBelow sip.fileNames path ++ listing.filesHere sip.fileNames path

theorem places_directory {path : Str} {listing : Listing} {loop made : Loop} {s₁ s₂ : MetsState} {div : Xml}
    (hwalks : sip.Walks path listing) (hsingle : sip.Single path listing)
    (hnodup : (sip.filesOf path listing).Nodup) (hclean : st'.errorCount = 0)
    (hbegin : sip.beginDirectory path st = .ok loop s₁) (hitems : sip.items path listing loop s₁ = .ok made s₂)
    (hend : endDirectory path made s₂ = .ok div st') :
    Places (sip.filesOf path listing) (fun id => id ∈ described div ∨ id ∈ tokens made.parentDmdID) st st' ∧
      (made.parentDmdID ≠ [] → sip.dirSetsAbove path listing = true) ∧ div.tag = .div ∧
      (sip.dirSections path = 0 → listing.countDirs sip.dirSetsAbove path = 0 → div.get .dmdID = none) := by
  obtain ⟨p₁, hown, hchildren, hparent, hfiles, hdspace⟩ := places_beginDirectory hbegin
  have hroom : loop.Room (listing.countDirs sip.dirSetsAbove path) (listing.countFiles sip.setsAbove path)
      (listing.countFiles sip.setsHere path) := by
    refine ⟨?_, ?_, ?_⟩
    · have hsections := hsingle.own
      split_ifs at hsections ⊢ <;> grind
    · rw [if_pos hparent, Nat.zero_add]
      exact hsingle.above
    · rw [if_pos hdspace, Nat.zero_add]
      exact hsingle.here
  have hsame : s₂.errorCount = 0 := by
    obtain ⟨u, s₃, hmodify, hend⟩ := bind_ok_iff.mp hend
    obtain ⟨-, rfl⟩ := pure_ok_iff.mp hend
    obtain rfl := modify_ok_iff.mp hmodify
    exact hclean
  obtain ⟨p₂, hpresent, honto⟩ := hwalks loop made s₁ s₂ hsame hroom (by simp [hfiles]) hitems
  have htaken : made.dspaceMetsDMDID ≠ [] → made.filesInThisDirectory ≠ [] := fun hne =>
    honto.originals (Or.inr (hsingle.taken ((honto.here hne).resolve_left (not_not.mpr hdspace))))
  obtain ⟨p₃, hplaced, hdiv, htag, hnone, -⟩ := places_endDirectory hpresent htaken hend
  have hhere : made.filesInThisDirectory ⊆ listing.filesHere sip.fileNames path := fun i hi =>
    (honto.names i hi).resolve_left (by simp [hfiles])
  refine ⟨?_, fun hne => ?_, htag, fun hzero hdirs => hnone ?_⟩
  · have hbegun : Places (listing.filesBelow sip.fileNames path) made.Holds st s₂ :=
      p₁.settle p₂ (List.disjoint_nil_left _) fun id hid =>
        Or.inl (honto.holds id (Or.inr (Or.inl hid)))
    refine (hbegun.settle (p₃.mono fun _ => False.elim) ?_ fun id hid => ?_).hits ?_
    · exact List.disjoint_of_subset_right hhere (List.disjoint_of_nodup_append hnodup)
    · rcases hid with hid | hid | hid | hid
      · exact Or.inl (Or.inl ((hdiv id).mpr (Or.inr hid)))
      · exact Or.inl (Or.inl ((hdiv id).mpr (Or.inl hid)))
      · exact Or.inl (Or.inr hid)
      · exact Or.inr (hplaced id hid)
    · intro i hi
      exact List.mem_append.mpr ((List.mem_append.mp hi).imp_right (@hhere i))
  · rw [dirSetsAbove, decide_eq_true_iff]
    exact (honto.above hne).resolve_left (not_not.mpr hparent)
  · by_contra hne
    rcases honto.dmdID hne with hne | hne
    · exact hown hne hzero
    · exact hne hdirs

-- By induction on what the directory holds, from the file and the directory at a time.
theorem walks_items {listing : Listing} {path : Str}
    (hjoin : ∀ v ∈ listing.visits path, ∀ f ∈ sip.visited v, sip.Joinable f)
    (hseparate : sip.Separate path listing) (hnodup : (listing.filesBelow sip.fileNames path).Nodup) :
    sip.Walks path listing := by
  induction listing generalizing path with
  | nil =>
      intro loop made st st' _ _ hpresent h
      obtain ⟨rfl, rfl⟩ := pure_ok_iff.mp h
      exact ⟨places_refl st, hpresent, .refl loop⟩
  | other name rest ih =>
      intro loop made st st' hclean hroom hpresent h
      exact ih hjoin hseparate hnodup loop made st st' hclean hroom hpresent h
  | file name rest ih =>
      intro loop made st st' hclean hroom hpresent h
      rw [items] at h
      obtain ⟨loop', s₁, hfile, h⟩ := bind_ok_iff.mp h
      have hclean₁ : s₁.errorCount = 0 := Nat.le_zero.mp (hclean ▸ errors_items h)
      rw [Listing.countDirs, Listing.countFiles, Listing.countFiles] at hroom
      have habove : sip.setsAbove (join path name) = true → loop.parentDmdID = [] := by
        intro hset
        have habove := hroom.above
        rw [if_pos hset] at habove
        by_contra hne
        rw [if_neg hne] at habove
        omega
      have hhere : sip.setsHere (join path name) = true → loop.dspaceMetsDMDID = [] := by
        intro hset
        have hhere := hroom.here
        rw [if_pos hset] at hhere
        by_contra hne
        rw [if_neg hne] at hhere
        omega
      obtain ⟨p₁, hpresent₁, honto₁⟩ := onto_addFile hclean₁
        (hjoin (.file (join path name)) List.mem_cons_self) habove hhere hfile
      obtain ⟨p₂, hpresent₂, honto₂⟩ := ih (fun v hv => hjoin v (List.mem_cons_of_mem _ hv)) hseparate hnodup
        loop' made s₁ st' hclean (Loop.Room.onto (by rwa [Nat.zero_add]) honto₁)
        (fun i hi => (hpresent₁ i hi).elim (fun hi => p₁.present i (hpresent i hi)) id) h
      refine ⟨p₁.settle p₂ (List.disjoint_nil_left _) fun id hid => Or.inl (honto₂.holds id hid),
        hpresent₂, ?_⟩
      have honto := honto₁.trans honto₂
      rw [Nat.zero_add] at honto
      exact honto
  | dir name sub rest ihsub ihrest =>
      intro loop made st st' hclean hroom hpresent h
      obtain ⟨hsingle, hseparate, hrest⟩ := hseparate
      rw [Listing.filesBelow] at hnodup ⊢
      obtain ⟨hsubNodup, hrestNodup, hdisjoint⟩ := List.nodup_append'.mp hnodup
      rw [items] at h
      obtain ⟨below, s₁, hbegin, h⟩ := bind_ok_iff.mp h
      obtain ⟨below', s₂, hitems, h⟩ := bind_ok_iff.mp h
      obtain ⟨div, s₃, hend, h⟩ := bind_ok_iff.mp h
      have hclean₃ : s₃.errorCount = 0 := Nat.le_zero.mp (hclean ▸ errors_items h)
      rw [Listing.visits] at hjoin
      have hwalks := ihsub (fun v hv => hjoin v (List.mem_cons_of_mem _ (List.mem_append_left _ hv)))
        hseparate (List.nodup_append'.mp hsubNodup).1
      obtain ⟨p₁, hparent, -, -⟩ := places_directory hwalks hsingle hsubNodup hclean₃ hbegin hitems hend
      rw [Listing.countDirs, Listing.countFiles, Listing.countFiles] at hroom
      obtain ⟨honto₁, hholds⟩ := @Loop.Onto.addDir loop div _ _ hparent fun hset => by
        have hdirs := hroom.dmdID
        rw [if_pos hset] at hdirs
        by_contra hne
        rw [if_neg hne] at hdirs
        omega
      obtain ⟨p₂, hpresent₂, honto₂⟩ := ihrest
        (fun v hv => hjoin v (List.mem_cons_of_mem _ (List.mem_append_right _ hv))) hrest hrestNodup
        (loop.addDir div below'.parentDmdID) made s₃ st' hclean
        (Loop.Room.onto (by rwa [Nat.zero_add, Nat.zero_add]) honto₁)
        (fun i hi => p₁.present i (hpresent i hi)) h
      refine ⟨p₁.settle p₂ hdisjoint fun id hid => Or.inl (honto₂.holds id (hholds id hid)), hpresent₂, ?_⟩
      have honto := honto₁.trans honto₂
      simp only [Nat.zero_add, List.nil_append] at honto
      exact honto

end Sip

end Ccp.Worker.Mets
