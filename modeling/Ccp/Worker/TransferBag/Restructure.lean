import Ccp.Worker.TransferBag.Required

namespace Ccp.Worker.TransferBag

open Lib FileOperations

variable {α : Type*} {u : UnitRef} {s s' : State α}

theorem isRequired_of_isOptional {n : Name} (h : isOptional n = true) : isRequired n = false := by
  rw [isOptional, Bool.or_eq_true, decide_eq_true_eq, decide_eq_true_eq] at h
  rw [Bool.eq_false_iff, ne_eq, isRequired_iff]
  rintro (rfl | rfl | rfl) <;> revert h <;> decide

theorem ne_data_of_isOptional {n : Name} (h : isOptional n = true) : n ≠ data := by
  rintro rfl
  revert h
  decide

theorem isOptional_of_isManifest {n : Name} (h : isManifest n = true) : isOptional n = false := by
  rw [Bool.eq_false_iff, isOptional, ne_eq, Bool.or_eq_true, decide_eq_true_eq, decide_eq_true_eq]
  rintro (hn | hn) <;> rw [isManifest, hn] at h <;> revert h <;> decide

theorem isRequired_of_isManifest {n : Name} (h : isManifest n = true) : isRequired n = false := by
  rw [Bool.eq_false_iff, ne_eq, isRequired_iff]
  rintro (rfl | rfl | rfl) <;> revert h <;> decide

-- Where the files of the top level have come to, with the items that are still to do.
structure TopLevel (u : UnitRef) (s : State α) (rest : List Name) (s' : State α) : Prop where
  follows : Follows u s s'
  waiting : ∀ n ∈ rest, s'.disk.node [n] = s.disk.node [n]
  manifests : ∀ n ∈ rest, s'.disk.node [metadata, n] = s.disk.node [metadata, n]
  bagItEntries : ∀ n ∈ rest, s'.disk.node (bagFileDefaultDest ++ [n]) = none
  optional : ∀ n, isOptional n = true → s'.disk.node [n] = s.disk.node [n]
  payload : s.disk.node [data] = some .dir → ∀ r, s'.disk.node (data :: r) = s.disk.node (data :: r)
  noPayload : s.disk.node [data] ≠ some .dir → s'.disk.node [data] ≠ some .dir
  objectsKept : ∀ r, s'.disk.node (objects :: r) = s.disk.node (objects :: r)
  metadataDir : s'.disk.node [metadata] = some .dir
  bagItDir : s'.disk.node bagFileDefaultDest = some .dir

theorem TopLevel.tail {rest : List Name} {n : Name} (h : TopLevel u s (n :: rest) s') :
    TopLevel u s rest s' where
  follows := h.follows
  waiting m hm := h.waiting m (List.mem_cons_of_mem n hm)
  manifests m hm := h.manifests m (List.mem_cons_of_mem n hm)
  bagItEntries m hm := h.bagItEntries m (List.mem_cons_of_mem n hm)
  optional := h.optional
  payload := h.payload
  noPayload := h.noPayload
  objectsKept := h.objectsKept
  metadataDir := h.metadataDir
  bagItDir := h.bagItDir

-- A file of the top level that goes to one of the two directories.
theorem TopLevel.move {rest : List Name} {n : Name} {dst : List Name} {s'' : State α}
    (h : TopLevel u s (n :: rest) s') (hnodup : (n :: rest).Nodup)
    (hobjects : s.disk.node [objects] = some .dir) (hoptional : isOptional n = false)
    (hdst : dst = [metadata, n] ∨ dst = bagFileDefaultDest ++ [n])
    (hfile : s'.disk.isfile [n] = true) (hfollows : Follows u s' s'')
    (hmoved : Disk.Moved s'.disk s''.disk [n] dst) : TopLevel u s rest s'' := by
  -- the item is none of the directories that are there
  have hnot : ∀ m, s'.disk.node [m] = some .dir → n ≠ m := by
    rintro m hm rfl
    simp [Disk.isfile, hm] at hfile
  have hmetadata := hnot metadata h.metadataDir
  have hlogs : n ≠ logs := by
    refine hnot logs (Disk.node_parent (p := [logs]) (n := bagIt) ?_)
    exact ne_of_eq_of_ne h.bagItDir (by simp)
  have hobjects' := hnot objects ((h.objectsKept []).trans hobjects)
  have hkept : ∀ q, ¬ [n] <+: q → ¬ dst <+: q → s''.disk.node q = s'.disk.node q :=
    fun q => hmoved.node_of_apart
  have hone : ∀ m, ¬ dst <+: [m] := by
    rintro m hle
    rcases hdst with rfl | rfl <;> simpa [bagFileDefaultDest] using hle.length_le
  have hdst' : ∀ m r, m ≠ metadata → m ≠ logs → ¬ dst <+: m :: r := by
    rintro m r hm hl hle
    rcases hdst with rfl | rfl <;> simp [bagFileDefaultDest, Ne.symm hm, Ne.symm hl] at hle
  have hne : ∀ m ∈ rest, m ≠ n := by
    rintro m hm rfl
    exact (List.nodup_cons.mp hnodup).1 hm
  refine ⟨h.follows.trans hfollows, ?_, ?_, ?_, ?_, ?_, ?_, ?_, ?_, ?_⟩
  · intro m hm
    rw [hkept _ (by simp [Ne.symm (hne m hm)]) (hone m), h.tail.waiting m hm]
  · intro m hm
    rw [hkept _ (by simp [hmetadata]) ?_, h.tail.manifests m hm]
    rcases hdst with rfl | rfl <;> simp [bagFileDefaultDest, Ne.symm (hne m hm)]
  · intro m hm
    rw [hkept _ (by simp [bagFileDefaultDest, hlogs]) ?_, h.tail.bagItEntries m hm]
    rcases hdst with rfl | rfl <;> simp [bagFileDefaultDest, Ne.symm (hne m hm)]
  · intro m hm
    have hmn : n ≠ m := by
      rintro rfl
      rw [hm] at hoptional
      cases hoptional
    rw [hkept _ (by simp [hmn]) (hone m), h.optional m hm]
  · intro hdir r
    have hdata := hnot data ((h.payload hdir []).trans hdir)
    rw [hkept _ (by simp [hdata]) (hdst' data r (by simp) (by simp)), h.payload hdir r]
  · intro hdir
    by_cases hdata : n = data
    · have hgone := hmoved.node_src (fun hle => hone n hle) []
      rw [List.append_nil, hdata] at hgone
      simp [hgone]
    · rw [hkept _ (by simp [hdata]) (hone data)]
      exact h.noPayload hdir
  · intro r
    rw [hkept _ (by simp [hobjects']) (hdst' objects r (by simp) (by simp)), h.objectsKept r]
  · rw [hkept _ (by simp [hmetadata]) (hone metadata), h.metadataDir]
  · rw [hkept _ (by simp [bagFileDefaultDest, hlogs]) ?_, h.bagItDir]
    rcases hdst with rfl | rfl <;> simp [bagFileDefaultDest]

theorem TopLevel.step {rest : List Name} {n : Name} {s'' : State α}
    (h : TopLevel u s (n :: rest) s') (hnodup : (n :: rest).Nodup)
    (hobjects : s.disk.node [objects] = some .dir)
    (hfree : isManifest n = true → s.disk.isfile [n] = true → s.disk.node [metadata, n] = none)
    (hstep : moveTopLevel u s' n = some s'') : TopLevel u s rest s'' := by
  unfold moveTopLevel at hstep
  split_ifs at hstep with hfile hmanifest hoptional
  · have hfile' : s.disk.isfile [n] = true := by
      rwa [← Disk.isfile_congr (h.waiting n List.mem_cons_self)]
    have hnone : s'.disk.node [metadata, n] = none := by
      rw [h.manifests n List.mem_cons_self, hfree hmanifest hfile']
    have hparent : s'.disk.node [metadata, n].dropLast = some .dir := h.metadataDir
    obtain ⟨hmoved, hfollows⟩ := updateFileLocation2_eq_some hfile hparent hnone hstep
    exact h.move hnodup hobjects (isOptional_of_isManifest hmanifest) (Or.inl rfl) hfile hfollows
      hmoved
  · cases hstep
    exact h.tail
  · have hnone := h.bagItEntries n List.mem_cons_self
    have hparent : s'.disk.node (bagFileDefaultDest ++ [n]).dropLast = some .dir := by
      rw [List.dropLast_concat, h.bagItDir]
    obtain ⟨hmoved, hfollows⟩ := updateFileLocation2_eq_some hfile hparent hnone hstep
    exact h.move hnodup hobjects (Bool.eq_false_iff.mpr hoptional) (Or.inr rfl) hfile hfollows
      hmoved
  · cases hstep
    exact h.tail

theorem TopLevel.run {rest : List Name} {final : State α} (h : TopLevel u s rest s')
    (hnodup : rest.Nodup) (hobjects : s.disk.node [objects] = some .dir)
    (hfree : ∀ n, isManifest n = true → s.disk.isfile [n] = true →
      s.disk.node [metadata, n] = none)
    (hrun : rest.foldlM (moveTopLevel u) s' = some final) : TopLevel u s [] final := by
  induction rest generalizing s' with
  | nil =>
      cases hrun
      exact h
  | cons n rest ih =>
      rw [List.foldlM_cons] at hrun
      obtain ⟨next, hstep, hrest⟩ := Option.bind_eq_some_iff.mp hrun
      exact ih (h.step hnodup hobjects (hfree n) hstep) (List.nodup_cons.mp hnodup).2 hrest

-- Where the payload has come to, with the items that are still to do.
structure Payload (u : UnitRef) (s : State α) (rest : List Name) (s' : State α) : Prop where
  follows : Follows u s s'
  waiting : ∀ n ∈ rest, ∀ r, s'.disk.node (data :: n :: r) = s.disk.node (data :: n :: r)
  objectsEntries : ∀ n ∈ rest, s'.disk.node [objects, n] = s.disk.node [objects, n]
  top : ∀ n ∈ rest, isOptional n = true → s'.disk.node [n] = s.disk.node [n]
  objectsDir : s'.disk.node [objects] = some .dir

theorem Payload.tail {rest : List Name} {n : Name} (h : Payload u s (n :: rest) s') :
    Payload u s rest s' where
  follows := h.follows
  waiting m hm := h.waiting m (List.mem_cons_of_mem n hm)
  objectsEntries m hm := h.objectsEntries m (List.mem_cons_of_mem n hm)
  top m hm := h.top m (List.mem_cons_of_mem n hm)
  objectsDir := h.objectsDir

-- An item that goes to the objects, or to the top level.
theorem Payload.move {rest : List Name} {n : Name} {dst : List Name} {s'' : State α}
    (h : Payload u s (n :: rest) s') (hnodup : (n :: rest).Nodup)
    (hdst : [objects, n] <+: dst ∨ (dst = [n] ∧ isOptional n = true)) (hfollows : Follows u s' s'')
    (hmoved : Disk.Moved s'.disk s''.disk [data, n] dst) : Payload u s rest s'' := by
  have hkept : ∀ q, ¬ [data, n] <+: q → ¬ dst <+: q → s''.disk.node q = s'.disk.node q :=
    fun q => hmoved.node_of_apart
  have hne : ∀ m ∈ rest, n ≠ m := by
    rintro m hm rfl
    exact (List.nodup_cons.mp hnodup).1 hm
  have hdst' : ∀ q, ¬ [objects, n] <+: q → (isOptional n = true → ¬ [n] <+: q) → ¬ dst <+: q := by
    intro q hq hq' hle
    rcases hdst with hpre | ⟨rfl, hoptional⟩
    · exact hq (hpre.trans hle)
    · exact hq' hoptional hle
  have hnot : isOptional n = true → n ≠ data ∧ n ≠ objects := by
    intro hoptional
    refine ⟨ne_data_of_isOptional hoptional, ?_⟩
    rintro rfl
    have hreq := isRequired_of_isOptional hoptional
    rw [Bool.eq_false_iff, ne_eq, isRequired_iff] at hreq
    exact hreq (Or.inr (Or.inr rfl))
  refine ⟨h.follows.trans hfollows, ?_, ?_, ?_, ?_⟩
  · intro m hm r
    rw [hkept _ (by simp [hne m hm]) (hdst' _ (by simp) fun hopt => by simp [(hnot hopt).1]),
      h.tail.waiting m hm r]
  · intro m hm
    rw [hkept _ (by simp) (hdst' _ (by simp [hne m hm]) fun hopt => by simp [(hnot hopt).2]),
      h.tail.objectsEntries m hm]
  · intro m hm hopt
    rw [hkept _ (by simp) (hdst' _ (by simp) fun _ => by simp [hne m hm]), h.tail.top m hm hopt]
  · rw [hkept _ (by simp) (hdst' _ (by simp) fun hopt => by simp [(hnot hopt).2]), h.objectsDir]

-- What an item of the payload must not meet.
structure Clear (u : UnitRef) (d : Disk Name α) : Prop where
  dirs : ∀ n, isRequired n = false → d.isdir [data, n] = true →
    d.isdir [objects, n] = false ∨ NoFile d [data, n]
  plain : ∀ n, isRequired n = false → d.isdir [data, n] = true → Plain u d [data, n]
  files : ∀ n, isOptional n = false → d.isfile [data, n] = true → d.node [objects, n] = none
  optionalFiles : ∀ n, isOptional n = true → d.isfile [data, n] = true → d.node [n] = none

theorem Payload.step {rest : List Name} {n : Name} {s'' : State α}
    (h : Payload u s (n :: rest) s') (hnodup : (n :: rest).Nodup) (hclear : Clear u s.disk)
    (hitem : s.disk.node [data, n] ≠ none) (hstep : movePayload u s' n = some s'') :
    Payload u s rest s'' := by
  have hwait := h.waiting n List.mem_cons_self
  have hisdir : s'.disk.isdir [data, n] = s.disk.isdir [data, n] := Disk.isdir_congr (hwait [])
  have hisfile : s'.disk.isfile [data, n] = s.disk.isfile [data, n] := Disk.isfile_congr (hwait [])
  have hobjects := h.objectsEntries n List.mem_cons_self
  have hparent : s'.disk.node [objects, n].dropLast = some .dir := h.objectsDir
  unfold movePayload at hstep
  split_ifs at hstep with hdir hfile hoptional
  · have hreq := Bool.eq_false_iff.mpr hdir.2
    have hdir' := hisdir.symm.trans hdir.1
    have hfree : s'.disk.isdir [objects, n] = false ∨ NoFile s'.disk [data, n] := by
      rw [Disk.isdir_congr hobjects]
      exact (hclear.dirs n hreq hdir').imp_right (·.congr hwait)
    have hfollows := updateDirectoryLocation_follows (by simp) (by simp) hdir.1 hparent hfree
      ((hclear.plain n hreq hdir').congr hwait) hstep
    obtain ⟨-, real, hreal, -, hmoved⟩ :=
      updateDirectoryLocation_eq_some (by simp) hdir.1 hparent hstep
    refine h.move hnodup (Or.inl ?_) hfollows hmoved
    rcases hreal with ⟨-, rfl⟩ | ⟨-, rfl⟩
    · exact List.prefix_rfl
    · exact List.prefix_append _ _
  · have hnone : s'.disk.node [objects, n] = none := by
      rw [hobjects, hclear.files n (Bool.eq_false_iff.mpr hfile.2) (hisfile.symm.trans hfile.1)]
    obtain ⟨hmoved, hfollows⟩ := updateFileLocation2_eq_some hfile.1 hparent hnone hstep
    exact h.move hnodup (Or.inl List.prefix_rfl) hfollows hmoved
  · -- it is no directory, so that it is a file
    have hfile' : s'.disk.isfile [data, n] = true := by
      by_contra hno
      refine hdir ⟨?_, by simp [isRequired_of_isOptional hoptional]⟩
      rw [hisfile] at hno
      rw [hisdir]
      cases hx : s.disk.node [data, n] with
      | none => exact absurd hx hitem
      | some x =>
          cases x with
          | dir => exact Disk.isdir_iff.mpr hx
          | file c => exact absurd (Disk.isfile_iff.mpr ⟨c, hx⟩) hno
    have hnone : s'.disk.node [n] = none := by
      rw [h.top n List.mem_cons_self hoptional,
        hclear.optionalFiles n hoptional (hisfile.symm.trans hfile')]
    obtain ⟨hmoved, hfollows⟩ := updateFileLocation2_eq_some hfile' (by simp) hnone hstep
    exact h.move hnodup (Or.inr ⟨rfl, hoptional⟩) hfollows hmoved
  · cases hstep
    exact h.tail

theorem Payload.run {rest : List Name} {final : State α} (h : Payload u s rest s')
    (hnodup : rest.Nodup) (hclear : Clear u s.disk) (hitems : ∀ n ∈ rest, s.disk.node [data, n] ≠ none)
    (hrun : rest.foldlM (movePayload u) s' = some final) : Payload u s [] final := by
  induction rest generalizing s' with
  | nil =>
      cases hrun
      exact h
  | cons n rest ih =>
      rw [List.foldlM_cons] at hrun
      obtain ⟨next, hstep, hrest⟩ := Option.bind_eq_some_iff.mp hrun
      exact ih (h.step hnodup hclear (hitems n List.mem_cons_self) hstep)
        (List.nodup_cons.mp hnodup).2 (fun m hm => hitems m (List.mem_cons_of_mem n hm)) hrest

theorem clear_of_separate [DecidableEq α] {p t : State α} (hsep : Separate u s.disk)
    (hp : Prepared u s p) (ht : TopLevel u p [] t) (hdata : t.disk.isdir [data] = true) :
    Clear u t.disk := by
  have hdir : p.disk.node [data] = some .dir := by
    by_contra hno
    exact ht.noPayload hno (Disk.isdir_iff.mp hdata)
  have hpayload : ∀ n r, t.disk.node ([data, n] ++ r) = p.disk.node ([data, n] ++ r) :=
    fun n r => ht.payload hdir (n :: r)
  have hsame : ∀ n, isRequired n = false →
      ∀ r, t.disk.node ([data, n] ++ r) = s.disk.node ([data, n] ++ r) :=
    fun n hn r => (hpayload n r).trans (hp.payload n r hn)
  have hobjects : ∀ n, t.disk.node [objects, n] = p.disk.node [objects, n] :=
    fun n => ht.objectsKept [n]
  have hfile : ∀ n, t.disk.isfile [data, n] = true → s.disk.isfile [data, n] = true := by
    intro n hn
    exact hp.payloadFiles n ((Disk.isfile_congr (hpayload n [])).symm.trans hn)
  refine ⟨?_, ?_, ?_, ?_⟩
  · intro n hn hisdir
    have hisdir' := (Disk.isdir_congr (hsame n hn [])).symm.trans hisdir
    by_cases htaken : t.disk.isdir [objects, n] = true
    · right
      rw [Disk.isdir_iff, hobjects] at htaken
      rcases hp.objectsEntries n _ htaken with ⟨rfl, -⟩ | hnode
      · rw [isRequired_iff.mpr (Or.inr (Or.inr rfl))] at hn
        cases hn
      · exact (hsep.payloadDirs n hn hisdir' (Disk.isdir_iff.mpr hnode)).congr (hsame n hn)
    · exact Or.inl (Bool.eq_false_iff.mpr htaken)
  · intro n hn hisdir
    exact (hsep.plain n ((Disk.isdir_congr (hsame n hn [])).symm.trans hisdir)).congr (hsame n hn)
  · intro n hn hisfile
    by_contra htaken
    rw [hobjects] at htaken
    obtain ⟨x, hx⟩ := Option.ne_none_iff_exists'.mp htaken
    rcases hp.objectsEntries n x hx with ⟨rfl, hisdir⟩ | hnode
    · obtain ⟨c, hc⟩ := Disk.isfile_iff.mp (hfile _ hisfile)
      rw [Disk.isdir_iff, hc] at hisdir
      cases hisdir
    · have hfree := hsep.payloadFiles n hn (hfile n hisfile)
      rw [Disk.not_found_iff, hnode] at hfree
      cases hfree
  · intro n hn hisfile
    rw [ht.optional n hn, hp.top n (isRequired_of_isOptional hn)]
    exact Disk.not_found_iff.mp (hsep.optionalFiles n hn (hfile n hisfile))

-- Every file of the unit has a row.
def Registered (u : UnitRef) (s : State α) : Prop :=
  ∀ p c, s.disk.node p = some (.file c) →
    ∃ f ∈ s.files, u.owns f = true ∧ f.currentlocation = u.location p

-- No content is lost, nothing is left of the payload directory, and every row leads to
-- what it led to.
structure InStep (u : UnitRef) (s s' : State α) : Prop where
  lossless : ∀ p c, s.disk.node p = some (.file c) → ∃ p', s'.disk.node p' = some (.file c)
  payload : ∀ p, s'.disk.node (data :: p) = none
  rows : Follows u s s'

theorem lossless_of_follows (hreg : Registered u s) (h : Follows u s s') {p : List Name} {c : α}
    (hp : s.disk.node p = some (.file c)) : ∃ p', s'.disk.node p' = some (.file c) := by
  obtain ⟨f, hf, howns, hlocation⟩ := hreg p c hp
  obtain ⟨i, hi, rfl⟩ := List.getElem_of_mem hf
  have hrow := h.get hi (h.length_eq ▸ hi)
  obtain ⟨p', -, hp'⟩ := hrow.holds howns c ⟨p, hlocation, hp⟩
  exact ⟨p', hp'⟩

theorem restructure_in_step [DecidableEq α] (hreg : Registered u s) (hsep : Separate u s.disk)
    (h : restructureBagForComplianceFileUUIDsAssigned u s = some s') : InStep u s s' := by
  unfold restructureBagForComplianceFileUUIDsAssigned at h
  simp only [Option.bind_eq_bind, Option.bind_eq_some_iff] at h
  obtain ⟨p, hrequired, t, htop, hrest⟩ := h
  split_ifs at hrest with hdata
  obtain ⟨v, hpayload, hremove⟩ := Option.bind_eq_some_iff.mp hrest
  obtain ⟨disk, hrmdir, rfl⟩ := Option.map_eq_some_iff.mp hremove
  obtain ⟨s₂, s₄, s₅, hstages⟩ := exists_stages hsep hrequired
  have hp := hstages.prepared
  have hfree : ∀ n, isManifest n = true → p.disk.isfile [n] = true →
      p.disk.node [metadata, n] = none := by
    intro n hn hfile
    by_contra htaken
    refine hsep.manifests n hn ?_ (hp.metadataEntries n ?_ htaken)
    · rwa [Disk.isfile_congr (hp.top n (isRequired_of_isManifest hn))] at hfile
    · rintro rfl
      revert hn
      decide
  have ht : TopLevel u p [] t := by
    refine TopLevel.run ⟨Follows.refl u p, fun _ _ => rfl, fun _ _ => rfl, fun n _ => hp.bagIt n,
      fun _ _ => rfl, fun _ _ => rfl, id, fun _ => rfl, hp.metadataDir, hp.bagItDir⟩
      (p.disk.nodup_listdir []) hp.objectsDir hfree htop
  have hv : Payload u t [] v := by
    refine Payload.run ⟨Follows.refl u t, fun _ _ _ => rfl, fun _ _ => rfl, fun _ _ _ => rfl,
      (ht.objectsKept []).trans hp.objectsDir⟩ (t.disk.nodup_listdir [data])
      (clear_of_separate hsep hp ht hdata) (fun n hn => Disk.mem_listdir.mp hn) hpayload
  unfold Disk.rmdir at hrmdir
  split_ifs at hrmdir with hempty
  cases hrmdir
  have hnode := v.disk.node_removed hempty.1
  have hlast : Follows u v { v with disk := v.disk.removed [data] } := by
    refine follows_of_kept rfl fun q c hc => ?_
    rw [hnode, if_neg, hc]
    rintro ⟨r, rfl⟩
    by_cases hr : r = []
    · rw [hr, List.append_nil, Disk.isdir_iff.mp hempty.2.1] at hc
      cases hc
    · rw [Disk.listdir_eq_nil hempty.2.2 hr] at hc
      cases hc
  have hfollows := hp.follows.trans (ht.follows.trans (hv.follows.trans hlast))
  refine ⟨fun q c => lossless_of_follows hreg hfollows, fun q => ?_, hfollows⟩
  rw [hnode, if_pos (by simp)]

theorem registered_of_entries (h : ∀ e ∈ s.disk.entries, e.2 = .dir ∨
    ∃ f ∈ s.files, u.owns f = true ∧ f.currentlocation = u.location e.1) : Registered u s := by
  intro p c hp
  rcases Disk.mem_of_node hp with rfl | hmem
  · cases hp
  · exact (h _ hmem).resolve_left (by simp)

section Examples

def bagitTxt : Name := ⟨"bagit.txt".toList, by decide⟩

def manifestTxt : Name := ⟨"manifest-md5.txt".toList, by decide⟩

theorem a_valid : "a".toList ≠ [] ∧ '/' ∉ "a".toList := by simp

def a : Name := ⟨"a".toList, a_valid⟩

def transferUnit : UnitRef := ⟨⟨1⟩, .transferId, "%transferDirectory%".toList⟩

def row (n : BitVec 128) (p : List Name) : File :=
  ⟨⟨n⟩, some ⟨1⟩, none, false, transferUnit.location p⟩

def declaration : Str := "BagIt-Version: 0.97\nTag-File-Character-Encoding: UTF-8\n".toList

-- A bag with one file beside the objects of its payload and one in them.
def sameName : State Str where
  disk :=
    { entries := [([bagitTxt], .file declaration),
        ([manifestTxt], .file ("0cc175b9c0f1b6a831c399e269772661  data/a\n".toList ++
          "92eb5ffee6ae2fec3ad71c777531578f  data/objects/a\n".toList)),
        ([data], .dir), ([data, objects], .dir), ([data, a], .file "a".toList),
        ([data, objects, a], .file "b".toList)]
      nodup := by decide
      closed := by decide }
  files := [row 2 [bagitTxt], row 3 [manifestTxt], row 4 [data, a], row 5 [data, objects, a]]

-- The second file came to the objects first, and the first one takes its place.
theorem sameName_overwritten :
    Registered transferUnit sameName ∧
      ∃ s', restructureBagForComplianceFileUUIDsAssigned transferUnit sameName = some s' ∧
        ¬ InStep transferUnit sameName s' := by
  have hrun : ((restructureBagForComplianceFileUUIDsAssigned transferUnit sameName).map
      fun s => s.disk.entries.all (·.2 ≠ .file "b".toList)) = some true := by decide
  refine ⟨registered_of_entries (by decide), ?_⟩
  obtain ⟨s', hs', hall⟩ := Option.map_eq_some_iff.mp hrun
  refine ⟨s', hs', fun h => ?_⟩
  have hb : sameName.disk.node [data, objects, a] = some (.file "b".toList) := by decide
  obtain ⟨p, hp⟩ := h.lossless _ _ hb
  rcases Disk.mem_of_node hp with rfl | hmem
  · cases hp
  · simpa using List.all_eq_true.mp hall _ hmem

-- A bag with one file in its payload.
def oneFile : State Str where
  disk :=
    { entries := [([bagitTxt], .file declaration),
        ([manifestTxt], .file "0cc175b9c0f1b6a831c399e269772661  data/a\n".toList),
        ([data], .dir), ([data, a], .file "a".toList)]
      nodup := by decide
      closed := by decide }
  files := [row 2 [bagitTxt], row 3 [manifestTxt], row 4 [data, a]]

theorem oneFile_keys {p : List Name} (h : oneFile.disk.node p ≠ none) :
    p = [] ∨ p = [bagitTxt] ∨ p = [manifestTxt] ∨ p = [data] ∨ p = [data, a] := by
  obtain ⟨x, hx⟩ := Option.ne_none_iff_exists'.mp h
  refine (Disk.mem_of_node hx).imp_right fun hmem => ?_
  have hkey := List.mem_map_of_mem hmem (f := Prod.fst)
  simpa [oneFile] using hkey

theorem oneFile_payload {n : Name} (h : oneFile.disk.node [data, n] ≠ none) : n = a := by
  rcases oneFile_keys h with hp | hp | hp | hp | hp <;> simp at hp
  exact hp

theorem oneFile_metadata (r : List Name) : oneFile.disk.node ([metadata] ++ r) = none := by
  by_contra hne
  rcases oneFile_keys hne with hp | hp | hp | hp | hp <;>
    exact absurd (congrArg List.head? hp) (by simp; try decide)

theorem oneFile_separate : Separate transferUnit oneFile.disk where
  logs h := absurd h (by decide)
  objects h := absurd h (by decide)
  metadata r c h := by
    rw [oneFile_metadata] at h
    cases h
  manifests n _ _ h := by
    rcases h with h | h
    · rw [Disk.found_iff] at h
      rcases oneFile_keys h with hp | hp | hp | hp | hp <;> simp at hp
    · rw [if_neg (by decide), Disk.found_iff] at h
      exact h (oneFile_metadata [n])
  payloadDirs n _ h := by
    obtain rfl : n = a := oneFile_payload (by simp [Disk.isdir_iff.mp h])
    exact absurd h (by decide)
  payloadFiles n _ h := by
    obtain ⟨c, hc⟩ := Disk.isfile_iff.mp h
    obtain rfl : n = a := oneFile_payload (by simp [hc])
    decide
  optionalFiles n hn h := by
    obtain ⟨c, hc⟩ := Disk.isfile_iff.mp h
    obtain rfl : n = a := oneFile_payload (by simp [hc])
    revert hn
    decide
  plain n h := by
    obtain rfl : n = a := oneFile_payload (by simp [Disk.isdir_iff.mp h])
    exact absurd h (by decide)

theorem oneFile_in_step :
    ∃ s', restructureBagForComplianceFileUUIDsAssigned transferUnit oneFile = some s' ∧
      InStep transferUnit oneFile s' := by
  have hrun : (restructureBagForComplianceFileUUIDsAssigned transferUnit oneFile).isSome = true := by
    decide
  obtain ⟨s', hs'⟩ := Option.isSome_iff_exists.mp hrun
  exact ⟨s', hs', restructure_in_step (registered_of_entries (by decide)) oneFile_separate hs'⟩

end Examples

end Ccp.Worker.TransferBag
