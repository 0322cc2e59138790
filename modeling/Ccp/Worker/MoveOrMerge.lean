import Ccp.Lib.Disk.Move

namespace Ccp.Worker.MoveOrMerge

open Lib

variable {ν α : Type*} [DecidableEq ν] [DecidableEq α]

-- mkdir_p passes over whatever is there.
def mkdirP (d : Disk ν α) (p : List ν) : Option (Disk ν α) :=
  if d.found p then some d else d.makedirs p

-- _move_file
def moveFile (src dst : List ν) (d : Disk ν α) : Option (Disk ν α) :=
  (mkdirP d dst.dropLast).bind fun d =>
    match d.node src, d.node dst with
    | some (.file a), some (.file b) => if a = b then d.unlink src else none
    | _, _ => d.move src dst

-- The files that os.walk comes to, by their paths under the directory.
def walk (d : Disk ν α) (src : List ν) : List (List ν) :=
  ((d.entries.map Prod.fst).filter fun p => src.isPrefixOf p && d.isfile p).map
    (·.drop src.length)

def moveOrMerge (src dst : List ν) (d : Disk ν α) : Option (Disk ν α) :=
  if d.isfile src then moveFile src dst d
  else if d.isdir src then
    if d.found dst then
      ((walk d src).foldlM (fun d rel => moveFile (src ++ rel) (dst ++ rel) d) d).bind fun d =>
        d.rmtree src
    else d.move src dst
  else some d

omit [DecidableEq α] in
theorem mem_walk {d : Disk ν α} {src rel : List ν} :
    rel ∈ walk d src ↔ d.isfile (src ++ rel) = true := by
  simp only [walk, List.mem_map, List.mem_filter, Bool.and_eq_true, List.isPrefixOf_iff_prefix]
  constructor
  · rintro ⟨-, ⟨⟨e, he, rfl⟩, ⟨r, hr⟩, hfile⟩, rfl⟩
    rwa [← hr, List.drop_left, hr]
  · intro hfile
    obtain ⟨c, hc⟩ := Disk.isfile_iff.mp hfile
    have hne : src ++ rel ≠ [] := by
      intro hnil
      rw [hnil] at hc
      cases hc
    exact ⟨src ++ rel, ⟨⟨_, (Disk.node_eq_some_iff hne).mp hc, rfl⟩, List.prefix_append src rel,
      hfile⟩, List.drop_left⟩

omit [DecidableEq α] in
theorem nodup_walk (d : Disk ν α) (src : List ν) : (walk d src).Nodup := by
  refine List.Nodup.map_on ?_ (d.nodup.filter _)
  intro p hp q hq heq
  simp only [List.mem_filter, Bool.and_eq_true, List.isPrefixOf_iff_prefix] at hp hq
  obtain ⟨r, rfl⟩ := hp.2.1
  obtain ⟨t, rfl⟩ := hq.2.1
  rw [List.drop_left, List.drop_left] at heq
  rw [heq]

omit [DecidableEq α] in
-- What was there stays as it was, and what is new leads to the directory.
theorem mkdirP_eq_some {d d' : Disk ν α} {p : List ν} (h : mkdirP d p = some d') (q : List ν) :
    (d.node q ≠ none → d'.node q = d.node q) ∧
      (d.node q = none → d'.node q ≠ none → d'.node q = some .dir ∧ q <+: p) := by
  unfold mkdirP at h
  split_ifs at h with hp
  · cases h
    exact ⟨fun _ => rfl, fun hnone hne => absurd hnone hne⟩
  · obtain ⟨-, hnode, hkept⟩ := Disk.makedirs_eq_some h
    refine ⟨hkept q, fun hnone hne => ?_⟩
    rw [hnode] at hne ⊢
    split_ifs at hne ⊢ with hq
    · exact ⟨rfl, hq⟩
    · exact absurd hnone hne

-- A file goes where there is no directory, or is the one that is there.
structure FileMoved (src dst : List ν) (c : α) (d d' : Disk ν α) : Prop where
  arrived : d'.node dst = some (.file c)
  kept : ∀ q, ¬ src <+: q → d.node q ≠ none → d'.node q = d.node q
  fresh : ∀ q, d.node q = none → d'.node q ≠ none →
    q = dst ∨ (d'.node q = some .dir ∧ q <+: dst.dropLast)

-- What becomes of a file whose parent is there by then, where the other place has no
-- directory.
structure Taken (src dst : List ν) (c : α) (d d' : Disk ν α) : Prop where
  arrived : d'.node dst = some (.file c)
  content : ∀ b, d.node dst = some (.file b) → b = c
  gone : ∀ q, src <+: q → d'.node q = none
  outside : ∀ q, ¬ src <+: q → q ≠ dst → d'.node q = d.node q

section Taken

variable {src dst : List ν} {c : α} {d d' : Disk ν α}

omit [DecidableEq α] in
theorem taken_of_move (hapart : ¬ dst <+: src) (hsrc : d.node src = some (.file c))
    (hdst : d.node dst = none) (h : d.move src dst = some d') : Taken src dst c d d' := by
  have hsrcne : src ≠ [] := by
    rintro rfl
    cases hsrc
  have hne : src ≠ dst := by
    rintro rfl
    rw [hsrc] at hdst
    cases hdst
  have hnotdir : d.isdir dst = false := by simp [Disk.isdir, hdst]
  have hnotsrc : d.isdir src = false := by simp [Disk.isdir, hsrc]
  rcases Disk.move_eq_some hne hsrcne (Or.inl hnotsrc) h with ⟨-, hmoved⟩ | ⟨hd, -⟩
  · have harrived := hmoved.node_dst []
    rw [List.append_nil, List.append_nil, hsrc] at harrived
    refine ⟨harrived, by simp [hdst], ?_, ?_⟩
    · rintro q ⟨r, rfl⟩
      exact hmoved.node_src hapart r
    · intro q hq hqdst
      exact hmoved.node_outside hsrc hdst hq hqdst
  · rw [hnotdir] at hd
    cases hd

omit [DecidableEq α] in
theorem taken_of_unlink (hapart : ¬ dst <+: src) (hsrc : d.node src = some (.file c))
    (hdst : d.node dst = some (.file c)) (h : d.unlink src = some d') : Taken src dst c d d' := by
  have hsrcne : src ≠ [] := by
    rintro rfl
    cases hsrc
  unfold Disk.unlink at h
  split_ifs at h
  cases h
  have hnode := d.node_removed hsrcne
  have hnot : ¬ src <+: dst := by
    rintro ⟨r, rfl⟩
    obtain rfl : r = [] := Disk.eq_nil_of_file hsrc (by simp [hdst])
    exact hapart (by simp)
  refine ⟨by rw [hnode, if_neg hnot, hdst], by simp [hdst], ?_, ?_⟩
  · intro q hq
    rw [hnode, if_pos hq]
  · intro q hq _
    rw [hnode, if_neg hq]

end Taken

theorem moveFile_eq_some {src dst : List ν} {c : α} {d d' : Disk ν α} (hdst : dst ≠ [])
    (hapart : ¬ dst <+: src) (hsrc : d.node src = some (.file c)) (hdir : d.node dst ≠ some .dir)
    (h : moveFile src dst d = some d') : FileMoved src dst c d d' := by
  obtain ⟨e, he, hrest⟩ := Option.bind_eq_some_iff.mp h
  have hmk := mkdirP_eq_some he
  have hesrc : e.node src = some (.file c) := by rw [(hmk src).1 (by simp [hsrc]), hsrc]
  have hedst : e.node dst ≠ some .dir := by
    intro hd
    by_cases hnone : d.node dst = none
    · have hle := ((hmk dst).2 hnone (by simp [hd])).2.length_le
      have hpos := List.length_pos_of_ne_nil hdst
      rw [List.length_dropLast] at hle
      omega
    · exact hdir (((hmk dst).1 hnone).symm.trans hd)
  have htaken : Taken src dst c e d' := by
    cases hx : e.node dst with
    | none =>
        simp only [hesrc, hx] at hrest
        exact taken_of_move hapart hesrc hx hrest
    | some x =>
        cases x with
        | dir => exact absurd hx hedst
        | file b =>
            simp only [hesrc, hx] at hrest
            split_ifs at hrest with hcb
            subst hcb
            exact taken_of_unlink hapart hesrc hx hrest
  refine ⟨htaken.arrived, fun q hq hne => ?_, fun q hnone hne => ?_⟩
  · have heq := (hmk q).1 hne
    by_cases hqdst : q = dst
    · subst hqdst
      rw [htaken.arrived]
      cases hx : d.node q with
      | none => exact absurd hx hne
      | some x =>
          cases x with
          | dir => exact absurd hx hdir
          | file b => rw [htaken.content b (heq.trans hx)]
    · rw [htaken.outside q hq hqdst, heq]
  · by_cases hqdst : q = dst
    · exact Or.inl hqdst
    · have hq : ¬ src <+: q := fun hle => hne (htaken.gone q hle)
      rw [htaken.outside q hq hqdst] at hne ⊢
      exact Or.inr ((hmk q).2 hnone hne)

-- Where a merge has come to, with the paths that are still to do. What was in the other
-- directory is as it was, and what came to it is a file of this one or leads to one.
structure Merging (src dst : List ν) (d : Disk ν α) (rest : List (List ν)) (d' : Disk ν α) :
    Prop where
  kept : ∀ q, ¬ src <+: q → d.node q ≠ none → d'.node q = d.node q
  waiting : ∀ r ∈ rest, ∀ c, d.node (src ++ r) = some (.file c) → d'.node (src ++ r) = some (.file c)
  moved : ∀ r c, d.node (src ++ r) = some (.file c) → r ∉ rest → d'.node (dst ++ r) = some (.file c)
  fresh : ∀ q, ¬ src <+: q → d.node q = none → d'.node q ≠ none →
    ∃ r t c, q = dst ++ r ∧ d.node (src ++ (r ++ t)) = some (.file c) ∧
      d'.node q = if t = [] then some (.file c) else some .dir

section Merge

variable {src dst : List ν} {d : Disk ν α}

omit [DecidableEq ν] in
theorem not_prefix_append (h : ¬ src <+: dst) (h' : ¬ dst <+: src) (r : List ν) :
    ¬ src <+: dst ++ r := by
  intro hle
  rcases List.prefix_or_prefix_of_prefix hle (List.prefix_append dst r) with hsrc | hdst
  · exact h hsrc
  · exact h' hdst

theorem Merging.step {r : List ν} {rest : List (List ν)} {e e' : Disk ν α} {c : α}
    (hapart : ¬ src <+: dst) (hapart' : ¬ dst <+: src) (hdst : d.node dst = some .dir)
    (hsrc : d.node src = some .dir) (hnodup : (r :: rest).Nodup)
    (hr : d.node (src ++ r) = some (.file c)) (hclash : d.node (dst ++ r) ≠ some .dir)
    (h : Merging src dst d (r :: rest) e)
    (hstep : moveFile (src ++ r) (dst ++ r) e = some e') : Merging src dst d rest e' := by
  have hrne : r ≠ [] := by
    rintro rfl
    rw [List.append_nil, hsrc] at hr
    cases hr
  have hesrc := h.waiting r List.mem_cons_self c hr
  have hedst : e.node (dst ++ r) ≠ some .dir := by
    intro hdir
    by_cases hnone : d.node (dst ++ r) = none
    · obtain ⟨r', t, c', hr', hfile, hnode⟩ :=
        h.fresh _ (not_prefix_append hapart hapart' r) hnone (by simp [hdir])
      obtain rfl := List.append_cancel_left hr'
      rw [← List.append_assoc] at hfile
      obtain rfl : t = [] := Disk.eq_nil_of_file hr (by rw [hfile]; simp)
      rw [hdir, if_pos rfl] at hnode
      cases hnode
    · exact hclash ((h.kept _ (not_prefix_append hapart hapart' r) hnone).symm.trans hdir)
  have hdstsrc : ¬ dst ++ r <+: src ++ r := fun hle =>
    not_prefix_append hapart' hapart r ((List.prefix_append dst r).trans hle)
  have hmoved := moveFile_eq_some (by simp [hrne]) hdstsrc hesrc hedst hstep
  have hout : ∀ q, ¬ src <+: q → ¬ src ++ r <+: q := fun q hq hle =>
    hq ((List.prefix_append src r).trans hle)
  refine ⟨?_, ?_, ?_, ?_⟩
  · intro q hq hne
    have heq := h.kept q hq hne
    exact (hmoved.kept q (hout q hq) (by rwa [heq])).trans heq
  · intro r' hr' c' hc'
    have heq := h.waiting r' (List.mem_cons_of_mem r hr') c' hc'
    have hnot : ¬ src ++ r <+: src ++ r' := by
      rw [List.prefix_append_right_inj]
      rintro ⟨t, rfl⟩
      rw [← List.append_assoc] at hc'
      obtain rfl : t = [] := Disk.eq_nil_of_file hr (by rw [hc']; simp)
      rw [List.append_nil] at hr'
      exact (List.nodup_cons.mp hnodup).1 hr'
    rw [hmoved.kept _ hnot (by simp [heq]), heq]
  · intro r' c' hc' hr'
    by_cases heq : r' = r
    · subst heq
      rw [hc', Option.some.injEq, Node.file.injEq] at hr
      rw [hr]
      exact hmoved.arrived
    · have hnode := h.moved r' c' hc' (by simp [heq, hr'])
      rw [hmoved.kept _ (hout _ (not_prefix_append hapart hapart' r')) (by simp [hnode]), hnode]
  · intro q hq hnone hne
    by_cases hqe : e.node q = none
    · rcases hmoved.fresh q hqe hne with rfl | ⟨hdir, hle⟩
      · exact ⟨r, [], c, rfl, by rw [List.append_nil, hr], by rw [if_pos rfl, hmoved.arrived]⟩
      · rw [List.dropLast_append_of_ne_nil hrne] at hle
        rcases List.prefix_or_prefix_of_prefix hle (List.prefix_append dst r.dropLast) with
          hqdst | ⟨z, rfl⟩
        · -- all that leads to the directory was there
          obtain ⟨z, rfl⟩ := hqdst
          by_cases hz : z = []
          · rw [hz, List.append_nil, hnone] at hdst
            cases hdst
          · rw [Disk.node_of_append hz (by simp [hdst])] at hnone
            cases hnone
        · rw [List.prefix_append_right_inj] at hle
          obtain ⟨t, ht⟩ := hle
          have hsplit : r = z ++ (t ++ [r.getLast hrne]) := by
            rw [← List.append_assoc, ht, List.dropLast_append_getLast]
          refine ⟨z, t ++ [r.getLast hrne], c, rfl, by rw [← hsplit, hr], ?_⟩
          rw [if_neg (by simp), hdir]
    · obtain ⟨z, t, c', rfl, hfile, hnode⟩ := h.fresh q hq hnone hqe
      exact ⟨z, t, c', rfl, hfile, by rw [hmoved.kept _ (hout _ hq) hqe, hnode]⟩

theorem Merging.run {rest : List (List ν)} {e e' : Disk ν α} (hapart : ¬ src <+: dst)
    (hapart' : ¬ dst <+: src) (hdst : d.node dst = some .dir) (hsrc : d.node src = some .dir)
    (hnodup : rest.Nodup) (hfiles : ∀ r ∈ rest, d.isfile (src ++ r) = true)
    (hclash : ∀ r ∈ rest, d.node (dst ++ r) ≠ some .dir) (h : Merging src dst d rest e)
    (hrun : rest.foldlM (fun d r => moveFile (src ++ r) (dst ++ r) d) e = some e') :
    Merging src dst d [] e' := by
  induction rest generalizing e with
  | nil =>
      cases hrun
      exact h
  | cons r rest ih =>
      rw [List.foldlM_cons] at hrun
      obtain ⟨e₁, hstep, hrest⟩ := Option.bind_eq_some_iff.mp hrun
      obtain ⟨c, hc⟩ := Disk.isfile_iff.mp (hfiles r List.mem_cons_self)
      refine ih (List.nodup_cons.mp hnodup).2 (fun r hr => hfiles r (List.mem_cons_of_mem _ hr))
        (fun r hr => hclash r (List.mem_cons_of_mem _ hr)) ?_ hrest
      exact h.step hapart hapart' hdst hsrc hnodup hc (hclash r List.mem_cons_self) hstep

-- A directory that is merged into another one, of which no directory has the name of a
-- file that comes to it.
theorem moveOrMerge_merging {d' : Disk ν α} (hapart : ¬ src <+: dst) (hapart' : ¬ dst <+: src)
    (hsrc : d.node src = some .dir) (hdst : d.node dst = some .dir)
    (hclash : ∀ r c, d.node (src ++ r) = some (.file c) → d.node (dst ++ r) ≠ some .dir)
    (h : moveOrMerge src dst d = some d') :
    Merging src dst d [] d' ∧ ∀ r, d'.node (src ++ r) = none := by
  unfold moveOrMerge at h
  rw [if_neg (by simp [Disk.isfile, hsrc]), if_pos (Disk.isdir_iff.mpr hsrc),
    if_pos (Disk.found_iff.mpr (by simp [hdst]))] at h
  obtain ⟨e, hrun, hrm⟩ := Option.bind_eq_some_iff.mp h
  have hstart : Merging src dst d (walk d src) d := by
    refine ⟨fun _ _ _ => rfl, fun _ _ _ hc => hc, ?_, fun _ _ hnone hne => absurd hnone hne⟩
    intro r c hc hr
    exact absurd (mem_walk.mpr (Disk.isfile_iff.mpr ⟨c, hc⟩)) hr
  have hend := hstart.run hapart hapart' hdst hsrc (nodup_walk d src)
    (fun r hr => mem_walk.mp hr)
    (fun r hr => by
      obtain ⟨c, hc⟩ := Disk.isfile_iff.mp (mem_walk.mp hr)
      exact hclash r c hc) hrun
  unfold Disk.rmtree at hrm
  split_ifs at hrm with hcond
  cases hrm
  have hnode := e.node_removed hcond.1
  refine ⟨⟨?_, by simp, ?_, ?_⟩, fun r => by rw [hnode, if_pos (List.prefix_append src r)]⟩
  · intro q hq hne
    rw [hnode, if_neg hq, hend.kept q hq hne]
  · intro r c hc hr
    rw [hnode, if_neg (not_prefix_append hapart hapart' r), hend.moved r c hc hr]
  · intro q hq hnone hne
    rw [hnode, if_neg hq] at hne ⊢
    exact hend.fresh q hq hnone hne

end Merge

end Ccp.Worker.MoveOrMerge
