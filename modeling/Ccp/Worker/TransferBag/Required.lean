import Ccp.Worker.TransferBag

namespace Ccp.Worker.TransferBag

open Lib FileOperations MoveOrMerge

variable {α : Type*} [DecidableEq α] {u : UnitRef} {s s' : State α}

-- A directory that is made, or was there.
theorem requireDirectory_make {r : Required} (hdata : s.disk.isdir r.dataPath = false)
    (h : requireDirectory u s r = some s') :
    Follows u s s' ∧ (∀ q, s'.disk.node q = if q <+: r.path then some .dir else s.disk.node q) ∧
      ∀ q, s.disk.node q ≠ none → s'.disk.node q = s.disk.node q := by
  unfold requireDirectory at h
  rw [if_neg (by simp [hdata])] at h
  split_ifs at h with hdir
  · cases h
    refine ⟨Follows.refl u s, fun q => ?_, fun _ _ => rfl⟩
    split_ifs with hq
    · obtain ⟨t, ht⟩ := hq
      rw [← ht, Disk.isdir_iff] at hdir
      by_cases hnil : t = []
      · rw [← hdir, hnil, List.append_nil]
      · exact Disk.node_of_append hnil (by simp [hdir])
    · rfl
  · obtain ⟨disk, hmake, rfl⟩ := Option.map_eq_some_iff.mp h
    obtain ⟨-, hnode, hkept⟩ := Disk.makedirs_eq_some hmake
    refine ⟨follows_of_kept rfl fun q c hc => ?_, hnode, hkept⟩
    exact (hkept q (by simp [hc])).trans hc

-- A directory of the top level, with what has become of that of the payload.
structure BroughtUp (u : UnitRef) (n : Name) (s s' : State α) : Prop where
  follows : Follows u s s'
  top : s'.disk.node [n] = some .dir
  outside : ∀ q, ¬ [n] <+: q → ¬ [data, n] <+: q → s'.disk.node q = s.disk.node q
  gone : s.disk.isdir [data, n] = true → ∀ r, s'.disk.node ([data, n] ++ r) = none
  left : s.disk.isdir [data, n] = false →
    ∀ r, s'.disk.node ([data, n] ++ r) = s.disk.node ([data, n] ++ r)

theorem BroughtUp.of_make {n : Name} (hdata : s.disk.isdir [data, n] = false)
    (h : requireDirectory u s ⟨[n], false⟩ = some s') : BroughtUp u n s s' := by
  obtain ⟨hfollows, hnode, -⟩ := requireDirectory_make (r := ⟨[n], false⟩) hdata h
  refine ⟨hfollows, by rw [hnode, if_pos List.prefix_rfl], ?_, by simp [hdata], ?_⟩
  · intro q hq _
    rw [hnode]
    split_ifs with hle
    · have hnil : q = [] := by
        rcases List.prefix_cons_iff.mp hle with hnil | ⟨t, rfl, ht⟩
        · exact hnil
        · exact absurd (List.prefix_append [n] t) hq
      rw [hnil, Disk.node_nil]
    · rfl
  · intro _ r
    rw [hnode, if_neg]
    intro hle
    simpa using hle.length_le

theorem requireDirectory_name {n : Name} (hn : n ≠ metadata ∨ s.disk.isdir [n] = false)
    (hdir : s.disk.isdir [data, n] = true) :
    requireDirectory u s ⟨[n], false⟩ = updateDirectoryLocation u [data, n] [n] s := by
  have hnot : ¬ ([n] = [metadata] ∧ s.disk.isdir [n] = true) := by
    rcases hn with hn | hn <;> simp [hn]
  exact (if_pos hdir).trans (if_neg hnot)

-- The directory of the payload, in the place of the one of the top level or in it.
theorem requireDirectory_moved {n : Name} (hn : n ≠ metadata ∨ s.disk.isdir [n] = false)
    (hdir : s.disk.isdir [data, n] = true) (h : requireDirectory u s ⟨[n], false⟩ = some s') :
    s'.files = s.files.map (relocate u [data, n] [n]) ∧
      ∃ real, (s.disk.isdir [n] = false ∧ real = [n] ∨ s.disk.isdir [n] = true ∧ real = [n, n]) ∧
        s.disk.node real = none ∧ Disk.Moved s.disk s'.disk [data, n] real := by
  rw [requireDirectory_name hn hdir] at h
  exact updateDirectoryLocation_eq_some (by simp) hdir (by simp) h

theorem BroughtUp.of_moved {n : Name} (hn : n ≠ metadata ∨ s.disk.isdir [n] = false)
    (hdata : n ≠ data) (hdir : s.disk.isdir [data, n] = true)
    (hfree : s.disk.isdir [n] = true → NoFile s.disk [data, n])
    (hplain : Plain u s.disk [data, n]) (h : requireDirectory u s ⟨[n], false⟩ = some s') :
    BroughtUp u n s s' := by
  obtain ⟨-, real, hreal, hnone, hmoved⟩ := requireDirectory_moved hn hdir h
  have hle : [n] <+: real := by rcases hreal with ⟨-, rfl⟩ | ⟨-, rfl⟩ <;> simp
  have hapart : ¬ real <+: [data, n] := by
    intro hpre
    have hhead := hle.trans hpre
    simp [hdata] at hhead
  refine ⟨?_, ?_, ?_, fun _ => hmoved.node_src hapart, by simp [hdir]⟩
  · rw [requireDirectory_name hn hdir] at h
    refine updateDirectoryLocation_follows (by simp) (by simp) hdir (by simp) ?_ hplain h
    by_cases hisdir : s.disk.isdir [n] = true
    · exact Or.inr (hfree hisdir)
    · exact Or.inl (Bool.eq_false_iff.mpr hisdir)
  · rcases hreal with ⟨-, rfl⟩ | ⟨htop, rfl⟩
    · have hnode := hmoved.node_dst []
      rw [List.append_nil, List.append_nil] at hnode
      rw [hnode, Disk.isdir_iff.mp hdir]
    · rw [hmoved.node_of_apart (by simp) (by simp), Disk.isdir_iff.mp htop]
  · intro q hq hq'
    exact hmoved.node_of_apart hq' fun hpre => hq (hle.trans hpre)

-- What is in the directory then was in the one that has become it.
theorem requireDirectory_children {n m : Name} {x : Node α} (hn : n ≠ metadata) (hdata : n ≠ data)
    (h : requireDirectory u s ⟨[n], false⟩ = some s') (hx : s'.disk.node [n, m] = some x) :
    (m = n ∧ s.disk.isdir [data, n] = true) ∨
      s.disk.node ((if s.disk.isdir [n] then [n] else [data, n]) ++ [m]) = some x := by
  by_cases hdir : s.disk.isdir [data, n] = true
  · obtain ⟨-, real, hreal, -, hmoved⟩ := requireDirectory_moved (Or.inl hn) hdir h
    rcases hreal with ⟨htop, rfl⟩ | ⟨htop, rfl⟩
    · have hnode := hmoved.node_dst [m]
      rw [List.singleton_append, hx] at hnode
      exact Or.inr (by rw [htop]; exact hnode.symm)
    · by_cases hm : m = n
      · exact Or.inl ⟨hm, hdir⟩
      · rw [hmoved.node_of_apart (by simp [Ne.symm hdata]) (by simp [Ne.symm hm])] at hx
        exact Or.inr (by rw [htop]; exact hx)
  · have hmake := requireDirectory_make (r := ⟨[n], false⟩) (Bool.eq_false_iff.mpr hdir) h
    rw [hmake.2.1, if_neg fun hle => by simpa using hle.length_le] at hx
    have htop : s.disk.isdir [n] = true :=
      Disk.isdir_iff.mpr (Disk.node_parent (p := [n]) (n := m) (by simp [hx]))
    exact Or.inr (by rw [htop]; exact hx)

section Merge

variable {d e d' : Disk Name α} (hmerge : Merging [metadata] [data, metadata] d [] e)
  (hmoved : Disk.Moved e d' [data, metadata] [metadata])

omit [DecidableEq α] in
include hmerge hmoved in
-- A merge of the top level into the payload, which then goes to the top level.
theorem node_merged {r : List Name} {c : α}
    (h : d.node ([metadata] ++ r) = some (.file c) ∨
      d.node ([data, metadata] ++ r) = some (.file c)) :
    d'.node ([metadata] ++ r) = some (.file c) := by
  rw [hmoved.node_dst]
  rcases h with h | h
  · exact hmerge.moved r c h (by simp)
  · rw [hmerge.kept _ (by simp) (by rw [h]; simp), h]

omit [DecidableEq α] in
include hmerge hmoved in
theorem node_merged_outside {q : List Name} (hq : ¬ [metadata] <+: q)
    (hq' : ¬ [data, metadata] <+: q) : d'.node q = d.node q := by
  rw [hmoved.node_of_apart hq' hq]
  by_cases hnone : d.node q = none
  · rw [hnone]
    by_contra hne
    obtain ⟨r, -, -, rfl, -⟩ := hmerge.fresh q hq hnone hne
    exact hq' (List.prefix_append _ r)
  · exact hmerge.kept q hq hnone

omit [DecidableEq α] in
include hmerge hmoved in
theorem metadataHas_of_merged (hdir : d.isdir [data, metadata] = true) {m : Name}
    (h : d'.node [metadata, m] ≠ none) : MetadataHas d m := by
  have hnode := hmoved.node_dst [m]
  rw [List.singleton_append] at hnode
  rw [hnode] at h
  by_cases hnone : d.node ([data, metadata] ++ [m]) = none
  · obtain ⟨r, t, c, hr, hfile, -⟩ := hmerge.fresh _ (by simp) hnone h
    obtain rfl := List.append_cancel_left hr
    right
    rw [if_pos hdir]
    exact fun hno => hno t c hfile
  · exact Or.inl (Disk.found_iff.mpr hnone)

omit [DecidableEq α] in
include hmerge hmoved in
theorem follows_merged {files : List File} (hdir : d.isdir [data, metadata] = true)
    (hplain : Plain u d [data, metadata]) :
    Follows u ⟨d, files⟩ ⟨d', files.map (relocate u [data, metadata] [metadata])⟩ := by
  refine follows_map fun f _ => ⟨relocate_uuid u _ _ f, relocate_owns u _ _ f, ?_⟩
  rintro howns c ⟨p, hf, hc⟩
  by_cases hp : [data, metadata] <+: p
  · obtain ⟨r, rfl⟩ := hp
    have hr : r ≠ [] := by
      rintro rfl
      rw [List.append_nil, Disk.isdir_iff.mp hdir] at hc
      cases hc
    refine ⟨[metadata] ++ r, ?_, node_merged hmerge hmoved (Or.inr hc)⟩
    exact relocate_location_append (by simp) (by simp) hr howns hf (hplain r c hc)
  · refine ⟨p, by rw [relocate_location (by simp) hf hp, hf], ?_⟩
    by_cases hp' : [metadata] <+: p
    · obtain ⟨r, rfl⟩ := hp'
      exact node_merged hmerge hmoved (Or.inl hc)
    · rw [node_merged_outside hmerge hmoved hp' hp, hc]

end Merge

-- What the metadata have then they had on one of the two levels.
theorem requireDirectory_metadata
    (hclash : ∀ r c, s.disk.node ([metadata] ++ r) = some (.file c) →
      s.disk.isdir ([data, metadata] ++ r) = false)
    (hplain : s.disk.isdir [data, metadata] = true → Plain u s.disk [data, metadata])
    (h : requireDirectory u s ⟨[metadata], false⟩ = some s') :
    BroughtUp u metadata s s' ∧ ∀ m, s'.disk.node [metadata, m] ≠ none → MetadataHas s.disk m := by
  by_cases hdir : s.disk.isdir [data, metadata] = true
  · by_cases htop : s.disk.isdir [metadata] = true
    · -- both are there: the one of the top level is gone when the other one is moved
      have heq : requireDirectory u s ⟨[metadata], false⟩ =
          (moveOrMerge [metadata] [data, metadata] s.disk).bind fun disk =>
            updateDirectoryLocation u [data, metadata] [metadata] { s with disk } :=
        (if_pos hdir).trans (if_pos ⟨rfl, htop⟩)
      rw [heq] at h
      obtain ⟨disk, hmove, hup⟩ := Option.bind_eq_some_iff.mp h
      have hclash' : ∀ r c, s.disk.node ([metadata] ++ r) = some (.file c) →
          s.disk.node ([data, metadata] ++ r) ≠ some .dir := by
        intro r c hc hd
        rw [← Disk.isdir_iff, hclash r c hc] at hd
        cases hd
      obtain ⟨hmerge, hgone⟩ := moveOrMerge_merging (by simp) (by simp) (Disk.isdir_iff.mp htop)
        (Disk.isdir_iff.mp hdir) hclash' hmove
      have hdir' : disk.isdir [data, metadata] = true := by
        rw [Disk.isdir_iff] at hdir ⊢
        rw [hmerge.kept _ (by simp) (by simp [hdir]), hdir]
      have hnot : disk.isdir [metadata] = false := by
        have hnone := hgone []
        rw [List.append_nil] at hnone
        simp [Disk.isdir, hnone]
      obtain ⟨hfiles, real, hreal, -, hmoved⟩ :=
        updateDirectoryLocation_eq_some (by simp) hdir' (by simp) hup
      obtain ⟨-, rfl⟩ := hreal.resolve_right (by simp [hnot])
      obtain ⟨disk', files'⟩ := s'
      simp only at hfiles hmoved
      subst hfiles
      refine ⟨⟨follows_merged hmerge hmoved hdir (hplain hdir), ?_, ?_, ?_, by simp [hdir]⟩, ?_⟩
      · have hnode := hmoved.node_dst []
        rw [List.append_nil, List.append_nil] at hnode
        rw [hnode, Disk.isdir_iff.mp hdir']
      · intro q hq hq'
        exact node_merged_outside hmerge hmoved hq hq'
      · exact fun _ => hmoved.node_src (by simp)
      · intro m hm
        exact metadataHas_of_merged hmerge hmoved hdir hm
    · have hnot := Bool.eq_false_iff.mpr htop
      refine ⟨.of_moved (Or.inr hnot) (by simp) hdir (by simp [hnot]) (hplain hdir) h, ?_⟩
      intro m hm
      obtain ⟨-, real, hreal, -, hmoved⟩ := requireDirectory_moved (Or.inr hnot) hdir h
      obtain ⟨-, rfl⟩ := hreal.resolve_right (by simp [hnot])
      have hnode := hmoved.node_dst [m]
      rw [List.singleton_append] at hnode
      rw [hnode] at hm
      exact Or.inl (Disk.found_iff.mpr hm)
  · have hnot := Bool.eq_false_iff.mpr hdir
    refine ⟨.of_make hnot h, fun m hm => ?_⟩
    have hmake := requireDirectory_make (r := ⟨[metadata], false⟩) hnot h
    rw [hmake.2.1, if_neg fun hle => by simpa using hle.length_le] at hm
    right
    rw [if_neg hdir]
    exact Disk.found_iff.mpr hm

omit [DecidableEq α] in
-- Nothing of the directory is left in the payload.
theorem BroughtUp.payload {n : Name} (h : BroughtUp u n s s') :
    s'.disk.isdir [data, n] = false ∧ ∀ r, r ≠ [] → s'.disk.node ([data, n] ++ r) = none := by
  by_cases hdir : s.disk.isdir [data, n] = true
  · have hgone := h.gone hdir
    have hnone := hgone []
    rw [List.append_nil] at hnone
    exact ⟨by simp [Disk.isdir, hnone], fun r _ => hgone r⟩
  · have hleft := h.left (Bool.eq_false_iff.mpr hdir)
    have hnode := hleft []
    rw [List.append_nil] at hnode
    refine ⟨by rw [Disk.isdir_congr hnode, Bool.eq_false_iff.mpr hdir], fun r hr => ?_⟩
    rw [hleft r]
    by_contra hne
    exact hdir (Disk.isdir_iff.mpr (Disk.node_of_append hr hne))

theorem isRequired_iff {n : Name} : isRequired n = true ↔ n = logs ∨ n = metadata ∨ n = objects := by
  simp [isRequired, requiredDirectories, bagFileDefaultDest, eq_comm (b := n)]

-- A directory that is made under one of the top level changes nothing elsewhere.
theorem requireDirectory_under {n : Name} {rest : List Name} {b : Bool}
    (hdata : s.disk.isdir (Required.dataPath ⟨n :: rest, b⟩) = false)
    (h : requireDirectory u s ⟨n :: rest, b⟩ = some s') :
    ∀ q, ¬ [n] <+: q → s'.disk.node q = s.disk.node q := by
  intro q hq
  rw [(requireDirectory_make hdata h).2.1]
  split_ifs with hle
  · rcases List.prefix_cons_iff.mp hle with rfl | ⟨t, rfl, -⟩
    · rfl
    · exact absurd (List.prefix_append [n] t) hq
  · rfl

theorem BroughtUp.of_require {n : Name} (hn : n ≠ metadata) (hdata : n ≠ data)
    (hfree : s.disk.isdir [n] = true → s.disk.isdir [data, n] = true → NoFile s.disk [data, n])
    (hplain : s.disk.isdir [data, n] = true → Plain u s.disk [data, n])
    (h : requireDirectory u s ⟨[n], false⟩ = some s') : BroughtUp u n s s' := by
  by_cases hdir : s.disk.isdir [data, n] = true
  · exact .of_moved (Or.inl hn) hdata hdir (fun htop => hfree htop hdir) (hplain hdir) h
  · exact .of_make (Bool.eq_false_iff.mpr hdir) h

-- The directory with the one that is required in it.
theorem BroughtUp.make {n m : Name} {s'' : State α} (hn : n ≠ data) (h : BroughtUp u n s s')
    (hmake : requireDirectory u s' ⟨[n, m], false⟩ = some s'') :
    BroughtUp u n s s'' ∧
      ∀ q, s''.disk.node q = if q <+: [n, m] then some .dir else s'.disk.node q := by
  have hdata : s'.disk.isdir (Required.dataPath ⟨[n, m], false⟩) = false := by
    have hnone : s'.disk.node [data, n, m] = none := h.payload.2 [m] (by simp)
    simp [Required.dataPath, Disk.isdir, hnone]
  obtain ⟨hfollows, hnode, hkept⟩ := requireDirectory_make hdata hmake
  have hunder := requireDirectory_under hdata hmake
  have hpayload : ∀ r, s''.disk.node ([data, n] ++ r) = s'.disk.node ([data, n] ++ r) :=
    fun r => hunder _ (by simp [hn])
  refine ⟨⟨h.follows.trans hfollows, ?_, ?_, ?_, ?_⟩, hnode⟩
  · rw [hnode, if_pos (by simp)]
  · intro q hq hq'
    rw [hunder q hq, h.outside q hq hq']
  · intro hdir r
    rw [hpayload, h.gone hdir]
  · intro hdir r
    rw [hpayload, h.left hdir]

omit [DecidableEq α] in
theorem BroughtUp.isfile {n : Name} (h : BroughtUp u n s s') (hfile : s'.disk.isfile [data, n] = true) :
    s.disk.isfile [data, n] = true := by
  by_cases hdir : s.disk.isdir [data, n] = true
  · have hnone := h.gone hdir []
    rw [List.append_nil] at hnone
    simp [Disk.isfile, hnone] at hfile
  · have hsame := h.left (Bool.eq_false_iff.mpr hdir) []
    rw [List.append_nil] at hsame
    rwa [Disk.isfile_congr hsame] at hfile

omit [DecidableEq α] in
theorem MetadataHas.congr {d d' : Disk Name α} {n : Name} (h : MetadataHas d n)
    (hagree : ∀ q, [metadata] <+: q ∨ [data, metadata] <+: q → d'.node q = d.node q) :
    MetadataHas d' n := by
  have hdata : d'.node [data, metadata, n] = d.node [data, metadata, n] := hagree _ (by simp)
  have hdir : d'.node [data, metadata] = d.node [data, metadata] := hagree _ (by simp)
  have htop : d'.node [metadata, n] = d.node [metadata, n] := hagree _ (by simp)
  have hno : NoFile d' [metadata, n] ↔ NoFile d [metadata, n] := by
    simp only [NoFile, hagree _ (Or.inl (show [metadata] <+: [metadata, n] ++ _ by simp))]
  rw [MetadataHas] at h ⊢
  rwa [Disk.found_congr hdata, Disk.isdir_congr hdir, Disk.found_congr htop, hno]

-- The unit once its directories are there.
structure Prepared (u : UnitRef) (s s' : State α) : Prop where
  follows : Follows u s s'
  payload : ∀ n r, isRequired n = false → s'.disk.node (data :: n :: r) = s.disk.node (data :: n :: r)
  required : ∀ n, isRequired n = true → s'.disk.isdir [data, n] = false
  payloadFiles : ∀ n, s'.disk.isfile [data, n] = true → s.disk.isfile [data, n] = true
  top : ∀ n, isRequired n = false → s'.disk.node [n] = s.disk.node [n]
  metadataEntries : ∀ n, n ≠ submissionDocumentation → s'.disk.node [metadata, n] ≠ none →
    MetadataHas s.disk n
  objectsEntries : ∀ n x, s'.disk.node [objects, n] = some x →
    (n = objects ∧ s.disk.isdir [data, objects] = true) ∨
      s.disk.node (objectsBefore s.disk ++ [n]) = some x
  metadataDir : s'.disk.node [metadata] = some .dir
  objectsDir : s'.disk.node [objects] = some .dir
  bagItDir : s'.disk.node bagFileDefaultDest = some .dir
  bagIt : ∀ n, s'.disk.node (bagFileDefaultDest ++ [n]) = none

theorem requireDirectory_bagIt (h : requireDirectory u s ⟨bagFileDefaultDest, true⟩ = some s') :
    Follows u s s' ∧
      (∀ q, s'.disk.node q = if q <+: bagFileDefaultDest then some .dir else s.disk.node q) ∧
      ∀ n, s'.disk.node (bagFileDefaultDest ++ [n]) = none := by
  have hdata : s.disk.isdir bagFileDefaultDest = false := by
    -- a directory that is there would be moved into itself
    by_contra hdir
    rw [Bool.not_eq_false] at hdir
    have heq : requireDirectory u s ⟨bagFileDefaultDest, true⟩ = none :=
      (if_pos hdir).trans ((if_neg (by simp [bagFileDefaultDest])).trans (if_pos ⟨rfl, hdir⟩))
    rw [heq] at h
    cases h
  obtain ⟨hfollows, hnode, -⟩ :=
    requireDirectory_make (r := ⟨bagFileDefaultDest, true⟩) hdata h
  refine ⟨hfollows, hnode, fun n => ?_⟩
  rw [hnode, if_neg fun hle => by simpa [bagFileDefaultDest] using hle.length_le]
  by_contra hne
  rw [Disk.isdir_iff.mpr (Disk.node_parent hne)] at hdata
  cases hdata

theorem node_of_bagIt (h : requireDirectory u s ⟨bagFileDefaultDest, true⟩ = some s') {q : List Name}
    (hq : ¬ [logs] <+: q) : s'.disk.node q = s.disk.node q := by
  obtain ⟨-, hnode, -⟩ := requireDirectory_bagIt h
  rw [hnode]
  split_ifs with hle
  · rcases List.prefix_cons_iff.mp hle with rfl | ⟨t, rfl, -⟩
    · rfl
    · exact absurd (List.prefix_append [logs] t) hq
  · rfl

-- The states between the required directories: with the logs, with the metadata, with the
-- objects, and at the end.
structure Stages (u : UnitRef) (s s₂ s₄ s₅ s₆ : State α) : Prop where
  logs : BroughtUp u logs s s₂
  metadata : BroughtUp u metadata s₂ s₄
  metadataEntries : ∀ n, n ≠ submissionDocumentation → s₄.disk.node [FileOperations.metadata, n] ≠ none →
    MetadataHas s.disk n
  objects : BroughtUp u objects s₄ s₅
  objectsEntries : ∀ n x, s₅.disk.node [FileOperations.objects, n] = some x →
    (n = FileOperations.objects ∧ s.disk.isdir [data, FileOperations.objects] = true) ∨
      s.disk.node (objectsBefore s.disk ++ [n]) = some x
  last : requireDirectory u s₅ ⟨bagFileDefaultDest, true⟩ = some s₆

theorem exists_stages (hsep : Separate u s.disk)
    (h : requiredDirectories.foldlM (requireDirectory u) s = some s') :
    ∃ s₂ s₄ s₅, Stages u s s₂ s₄ s₅ s' := by
  simp only [requiredDirectories, List.foldlM_cons, List.foldlM_nil, Option.bind_eq_bind,
    Option.bind_eq_some_iff, Option.pure_def, Option.some.injEq] at h
  obtain ⟨s₁, h₁, s₂, h₂, s₃, h₃, s₄, h₄, s₅, h₅, s₆, h₆, rfl⟩ := h
  have hlogs₁ : BroughtUp u logs s s₁ :=
    .of_require (by simp) (by simp) hsep.logs (hsep.plain logs) h₁
  obtain ⟨hlogs, -⟩ := hlogs₁.make (by simp) h₂
  have htop₂ : ∀ r, s₂.disk.node ([metadata] ++ r) = s.disk.node ([metadata] ++ r) :=
    fun r => hlogs.outside _ (by simp) (by simp)
  have hdata₂ : ∀ r, s₂.disk.node ([data, metadata] ++ r) = s.disk.node ([data, metadata] ++ r) :=
    fun r => hlogs.outside _ (by simp) (by simp)
  have hisdir₂ : s₂.disk.isdir [data, metadata] = s.disk.isdir [data, metadata] :=
    Disk.isdir_congr (hdata₂ [])
  have hclash₂ : ∀ r c, s₂.disk.node ([metadata] ++ r) = some (.file c) →
      s₂.disk.isdir ([data, metadata] ++ r) = false := by
    intro r c hc
    rw [Disk.isdir_congr (hdata₂ r)]
    exact hsep.metadata r c ((htop₂ r).symm.trans hc)
  obtain ⟨hmetadata₁, hentries⟩ := requireDirectory_metadata hclash₂
    (fun hdir => (hsep.plain metadata (hisdir₂.symm.trans hdir)).congr hdata₂) h₃
  obtain ⟨hmetadata, hnode₄⟩ := hmetadata₁.make (by simp) h₄
  have htop₄ : ∀ r, s₄.disk.node ([objects] ++ r) = s.disk.node ([objects] ++ r) := fun r =>
    (hmetadata.outside _ (by simp) (by simp)).trans (hlogs.outside _ (by simp) (by simp))
  have hdata₄ : ∀ r, s₄.disk.node ([data, objects] ++ r) = s.disk.node ([data, objects] ++ r) :=
    fun r => (hmetadata.outside _ (by simp) (by simp)).trans (hlogs.outside _ (by simp) (by simp))
  have hisdir₄ : s₄.disk.isdir [data, objects] = s.disk.isdir [data, objects] :=
    Disk.isdir_congr (hdata₄ [])
  have hisdir₄' : s₄.disk.isdir [objects] = s.disk.isdir [objects] := Disk.isdir_congr (htop₄ [])
  have hobjects : BroughtUp u objects s₄ s₅ := by
    refine .of_require (by simp) (by simp) (fun htop hdir => ?_) (fun hdir => ?_) h₅
    · exact (hsep.objects (hisdir₄'.symm.trans htop) (hisdir₄.symm.trans hdir)).congr hdata₄
    · exact (hsep.plain objects (hisdir₄.symm.trans hdir)).congr hdata₄
  refine ⟨s₂, s₄, s₅, hlogs, hmetadata, fun n hn hne => ?_, hobjects, fun n x hx => ?_, h₆⟩
  · rw [hnode₄, if_neg (by simp [hn])] at hne
    refine (hentries n hne).congr fun q hq => ?_
    rcases hq with ⟨r, rfl⟩ | ⟨r, rfl⟩
    · exact (htop₂ r).symm
    · exact (hdata₂ r).symm
  · have hchild := requireDirectory_children (by simp) (by simp) h₅ hx
    rw [hisdir₄, hisdir₄'] at hchild
    refine hchild.imp_right fun hnode => ?_
    unfold objectsBefore
    split_ifs at hnode ⊢
    · rwa [htop₄] at hnode
    · rwa [hdata₄] at hnode

theorem Stages.prepared {s₂ s₄ s₅ : State α} (h : Stages u s s₂ s₄ s₅ s') : Prepared u s s' := by
  obtain ⟨hfollows, hnode, hbagIt⟩ := requireDirectory_bagIt h.last
  -- what the last steps leave alone, from each of the states to the end
  have hfrom₄ : ∀ q, ¬ [FileOperations.logs] <+: q → ¬ [FileOperations.objects] <+: q →
      ¬ [data, FileOperations.objects] <+: q → s'.disk.node q = s₄.disk.node q :=
    fun q hq hq' hq'' => (node_of_bagIt h.last hq).trans (h.objects.outside q hq' hq'')
  have hfrom₂ : ∀ n r, n ≠ FileOperations.metadata → n ≠ FileOperations.objects →
      s'.disk.node (data :: n :: r) = s₂.disk.node (data :: n :: r) := by
    intro n r hm ho
    rw [hfrom₄ _ (by simp) (by simp) (by simp [Ne.symm ho]),
      h.metadata.outside _ (by simp) (by simp [Ne.symm hm])]
  have hpayload : ∀ n r, isRequired n = false →
      s'.disk.node (data :: n :: r) = s.disk.node (data :: n :: r) := by
    intro n r hn
    rw [Bool.eq_false_iff, ne_eq, isRequired_iff, not_or, not_or] at hn
    rw [hfrom₂ n r hn.2.1 hn.2.2, h.logs.outside _ (by simp) (by simp [Ne.symm hn.1])]
  have hdataLogs : s'.disk.node [data, FileOperations.logs] = s₂.disk.node [data, FileOperations.logs] :=
    hfrom₂ _ [] (by simp) (by simp)
  have hdataMetadata : s'.disk.node [data, FileOperations.metadata] =
      s₄.disk.node [data, FileOperations.metadata] := hfrom₄ _ (by simp) (by simp) (by simp)
  have hdataObjects : s'.disk.node [data, FileOperations.objects] =
      s₅.disk.node [data, FileOperations.objects] := node_of_bagIt h.last (by simp)
  refine ⟨?_, hpayload, ?_, ?_, ?_, ?_, ?_, ?_, ?_, ?_, hbagIt⟩
  · exact h.logs.follows.trans (h.metadata.follows.trans (h.objects.follows.trans hfollows))
  · intro n hn
    rcases isRequired_iff.mp hn with rfl | rfl | rfl
    · rw [Disk.isdir_congr hdataLogs, h.logs.payload.1]
    · rw [Disk.isdir_congr hdataMetadata, h.metadata.payload.1]
    · rw [Disk.isdir_congr hdataObjects, h.objects.payload.1]
  · intro n hfile
    by_cases hn : isRequired n = true
    · rcases isRequired_iff.mp hn with rfl | rfl | rfl
      · rw [Disk.isfile_congr hdataLogs] at hfile
        exact h.logs.isfile hfile
      · rw [Disk.isfile_congr hdataMetadata] at hfile
        exact (Disk.isfile_congr (h.logs.outside _ (by simp) (by simp))).symm.trans
          (h.metadata.isfile hfile)
      · rw [Disk.isfile_congr hdataObjects] at hfile
        exact (Disk.isfile_congr ((h.metadata.outside _ (by simp) (by simp)).trans
          (h.logs.outside _ (by simp) (by simp)))).symm.trans (h.objects.isfile hfile)
    · rwa [Disk.isfile_congr (hpayload n [] (Bool.eq_false_iff.mpr hn))] at hfile
  · intro n hn
    rw [Bool.eq_false_iff, ne_eq, isRequired_iff, not_or, not_or] at hn
    rw [hfrom₄ _ (by simp [Ne.symm hn.1]) (by simp [Ne.symm hn.2.2]) (by simp),
      h.metadata.outside _ (by simp [Ne.symm hn.2.1]) (by simp),
      h.logs.outside _ (by simp [Ne.symm hn.1]) (by simp)]
  · intro n hn hne
    rw [hfrom₄ _ (by simp) (by simp) (by simp)] at hne
    exact h.metadataEntries n hn hne
  · intro n x hx
    rw [node_of_bagIt h.last (by simp)] at hx
    exact h.objectsEntries n x hx
  · rw [hfrom₄ _ (by simp) (by simp) (by simp), h.metadata.top]
  · rw [node_of_bagIt h.last (by simp), h.objects.top]
  · rw [hnode, if_pos List.prefix_rfl]

end Ccp.Worker.TransferBag
