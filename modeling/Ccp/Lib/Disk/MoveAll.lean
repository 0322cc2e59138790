import Ccp.Lib.Disk.Move

namespace Ccp.Lib.Disk

variable {ν α : Type*} [DecidableEq ν] {d d' d'' : Disk ν α} {src dst p q : List ν}

-- Two paths of which none leads to the other.
def Apart (p q : List ν) : Prop := ¬ p <+: q ∧ ¬ q <+: p

omit [DecidableEq ν] in
theorem Apart.symm (h : Apart p q) : Apart q p := ⟨h.2, h.1⟩

omit [DecidableEq ν] in
theorem Apart.not_prefix_append (h : Apart p q) (r : List ν) : ¬ p <+: q ++ r := by
  intro hle
  rcases List.prefix_or_prefix_of_prefix hle (List.prefix_append q r) with hpq | hqp
  · exact h.1 hpq
  · exact h.2 hqp

omit [DecidableEq ν] in
theorem Apart.concat (h : Apart p q) (n : ν) : Apart (p ++ [n]) q :=
  ⟨fun hle => h.1 ((List.prefix_append p [n]).trans hle), h.symm.not_prefix_append [n]⟩

-- All that a path leads to is as it was.
def Untouched (d d' : Disk ν α) (p : List ν) : Prop := ∀ r, d'.node (p ++ r) = d.node (p ++ r)

theorem Untouched.refl (d : Disk ν α) (p : List ν) : Untouched d d p := fun _ => rfl

theorem Untouched.trans (h : Untouched d d' p) (h' : Untouched d' d'' p) : Untouched d d'' p :=
  fun r => (h' r).trans (h r)

theorem Untouched.append (h : Untouched d d' p) (r : List ν) : Untouched d d' (p ++ r) := by
  intro s
  rw [List.append_assoc, h]

theorem Untouched.node_eq (h : Untouched d d' p) : d'.node p = d.node p := by
  simpa using h []

theorem Moved.untouched (h : Moved d d' src dst) (hsrc : Apart src p) (hdst : Apart dst p) :
    Untouched d d' p := by
  intro r
  exact h.node_of_apart (hsrc.not_prefix_append r) (hdst.not_prefix_append r)

theorem rmtree_eq_some (h : d.rmtree p = some d') : p ≠ [] ∧ d' = d.removed p := by
  unfold rmtree at h
  split_ifs at h with hp
  exact ⟨hp.1, (Option.some.inj h).symm⟩

theorem rmdir_eq_some (h : d.rmdir p = some d') : p ≠ [] ∧ d' = d.removed p := by
  unfold rmdir at h
  split_ifs at h with hp
  exact ⟨hp.1, (Option.some.inj h).symm⟩

-- A move into a directory keeps the name, which is free there.
theorem move_into {n : ν} (hdst : d.isdir dst = true) (hne : src ++ [n] ≠ dst)
    (h : d.move (src ++ [n]) dst = some d') :
    d.node (dst ++ [n]) = none ∧ Moved d d' (src ++ [n]) (dst ++ [n]) := by
  have hparent : d.node dst.dropLast = some .dir := by
    rcases List.eq_nil_or_concat dst with rfl | ⟨front, m, rfl⟩
    · rfl
    · rw [List.concat_eq_append] at hdst ⊢
      rw [List.dropLast_concat]
      exact node_parent (n := m) (by simp [isdir_iff.mp hdst])
  rcases move_eq_some hne (by simp) (Or.inr hparent) h with ⟨hfalse, -⟩ | ⟨-, hfree, hmoved⟩
  · rw [hdst] at hfalse
    cases hfalse
  · simp only [List.getLast?_concat, Option.toList_some] at hfree hmoved
    exact ⟨hfree, hmoved⟩

-- What is there can go to a directory in which its name is free.
theorem exists_move_into {n : ν} (hfound : d.node (src ++ [n]) ≠ none) (hdst : d.isdir dst = true)
    (hapart : Apart (src ++ [n]) dst) (hfree : d.node (dst ++ [n]) = none) :
    ∃ d', d.move (src ++ [n]) dst = some d' := by
  have hnot : ¬ src ++ [n] <+: dst ++ [n] := hapart.not_prefix_append [n]
  have hne : src ++ [n] ≠ dst ++ [n] := fun heq => hnot (heq ▸ List.prefix_rfl)
  have hrenames : d.renames (src ++ [n]) (dst ++ [n]) = true := by
    have hprefix : (src ++ [n]).isPrefixOf (dst ++ [n]) = false := by
      rwa [Bool.eq_false_iff, Ne, List.isPrefixOf_iff_prefix]
    obtain ⟨x, hx⟩ := Option.ne_none_iff_exists'.mp hfound
    rw [renames, hprefix, List.dropLast_concat, hdst, hx, hfree]
    cases x <;> simp
  have hrename : ∃ d', d.rename (src ++ [n]) (dst ++ [n]) = some d' := by
    rw [rename, if_neg hne, dif_pos hrenames]
    exact ⟨_, rfl⟩
  have hsrc : src ++ [n] ≠ dst := by
    rintro rfl
    exact hapart.1 List.prefix_rfl
  rw [move, if_pos hdst, if_neg hsrc]
  simp only [List.getLast?_concat, Option.toList_some]
  rwa [if_neg (by simp [found, hfree]),
    renameOrCopy_of_parent (Or.inr (by rw [List.dropLast_concat]; exact isdir_iff.mp hdst))]

-- Wherever a move ends, it leaves alone what is apart from both paths.
theorem untouched_of_move (hne : src ≠ dst) (hsrc : src ≠ [])
    (hparent : d.node dst.dropLast = some .dir) (h : d.move src dst = some d')
    (hsrcApart : Apart src p) (hdstApart : Apart dst p) : Untouched d d' p := by
  rcases move_eq_some hne hsrc (Or.inr hparent) h with ⟨-, hmoved⟩ | ⟨-, -, hmoved⟩
  · exact hmoved.untouched hsrcApart hdstApart
  · refine hmoved.untouched hsrcApart ⟨fun hle => ?_, fun hle => ?_⟩
    · exact hdstApart.1 ((List.prefix_append _ _).trans hle)
    · rcases List.prefix_or_prefix_of_prefix hle (List.prefix_append _ _) with hp | hp
      · exact hdstApart.2 hp
      · exact hdstApart.1 hp

-- One after the other, the entries of a directory go into another one.
def moveAll (src dst : List ν) (d : Disk ν α) (items : List ν) : Option (Disk ν α) :=
  items.foldlM (fun d item => d.move (src ++ [item]) dst) d

structure MovedAll (d d' : Disk ν α) (src dst items : List ν) : Prop where
  taken : ∀ n ∈ items, ∀ r, d'.node (dst ++ n :: r) = d.node (src ++ n :: r)
  gone : ∀ n ∈ items, ∀ r, d'.node (src ++ n :: r) = none
  free : ∀ n ∈ items, d.node (dst ++ [n]) = none
  frame : ∀ q, (∀ n ∈ items, ¬ src ++ [n] <+: q ∧ ¬ dst ++ [n] <+: q) → d'.node q = d.node q

omit [DecidableEq ν] in
theorem concat_prefix_iff {n m : ν} {r : List ν} : p ++ [n] <+: p ++ m :: r ↔ n = m := by
  rw [List.prefix_append_right_inj, List.cons_prefix_cons]
  simp

omit [DecidableEq ν] in
theorem not_concat_le (p : List ν) (n : ν) : ¬ p ++ [n] <+: p := by
  intro hle
  have hlen := hle.length_le
  rw [List.length_append, List.length_singleton] at hlen
  omega

-- What goes into one place is apart from what is to come, and from where it comes from.
omit [DecidableEq ν] in
theorem not_prefix_of_apart {n m : ν} (h : Apart (src ++ [m]) dst) (r : List ν) :
    ¬ src ++ [m] <+: dst ++ n :: r :=
  h.not_prefix_append (n :: r)

omit [DecidableEq ν] in
theorem not_dst_le {n m : ν} (h : Apart (src ++ [m]) dst) (r : List ν) :
    ¬ dst ++ [n] <+: src ++ m :: r := by
  intro hle
  rw [List.append_cons src] at hle
  exact h.symm.not_prefix_append r ((List.prefix_append dst [n]).trans hle)

theorem movedAll_of_moveAll {items : List ν} (hnodup : items.Nodup) (hdst : d.isdir dst = true)
    (hapart : ∀ n ∈ items, Apart (src ++ [n]) dst) (h : moveAll src dst d items = some d') :
    MovedAll d d' src dst items := by
  induction items generalizing d with
  | nil =>
      cases h
      exact ⟨by simp, by simp, by simp, fun _ _ => rfl⟩
  | cons n items ih =>
      obtain ⟨hn, hitems⟩ := List.nodup_cons.mp hnodup
      rw [moveAll, List.foldlM_cons] at h
      obtain ⟨e, hmove, hrest⟩ := Option.bind_eq_some_iff.mp h
      have hn' := hapart n List.mem_cons_self
      obtain ⟨hfree, hmoved⟩ := move_into hdst (fun heq => hn'.1 (heq ▸ List.prefix_rfl)) hmove
      have hkeeps : ∀ q, ¬ src ++ [n] <+: q → ¬ dst ++ [n] <+: q → e.node q = d.node q :=
        fun q => hmoved.node_of_apart
      have hdst' : e.isdir dst = true := by
        rw [isdir_iff, hkeeps dst hn'.1 (not_concat_le dst n), ← isdir_iff, hdst]
      have hall := ih hitems hdst' (fun m hm => hapart m (List.mem_cons_of_mem n hm)) hrest
      have hne : ∀ m ∈ items, m ≠ n := by
        rintro m hm rfl
        exact hn hm
      constructor
      · intro m hm r
        rcases List.mem_cons.mp hm with rfl | hm
        · rw [hall.frame, List.append_cons, hmoved.node_dst, ← List.append_cons]
          intro k hk
          exact ⟨not_prefix_of_apart (hapart k (List.mem_cons_of_mem m hk)) r,
            fun hle => hne k hk (concat_prefix_iff.mp hle)⟩
        · rw [hall.taken m hm, hkeeps]
          · exact fun hle => hne m hm (concat_prefix_iff.mp hle).symm
          · exact not_dst_le (hapart m (List.mem_cons_of_mem n hm)) r
      · intro m hm r
        rcases List.mem_cons.mp hm with rfl | hm
        · rw [hall.frame, List.append_cons, hmoved.node_src]
          · intro hle
            exact hn'.2 ((List.prefix_append dst [m]).trans hle)
          · intro k hk
            exact ⟨fun hle => hne k hk (concat_prefix_iff.mp hle), not_dst_le hn' r⟩
        · exact hall.gone m hm r
      · intro m hm
        rcases List.mem_cons.mp hm with rfl | hm
        · exact hfree
        · rw [← hall.free m hm, hkeeps]
          · exact not_prefix_of_apart hn' []
          · exact fun hle => hne m hm (concat_prefix_iff.mp hle).symm
      · intro q hq
        obtain ⟨hsrc, hdstq⟩ := hq n List.mem_cons_self
        rw [hall.frame q fun m hm => hq m (List.mem_cons_of_mem n hm), hkeeps q hsrc hdstq]

namespace MovedAll

variable {items : List ν}

-- A free place gets what there is in the directory that is emptied.
theorem node_listdir (h : MovedAll d d' src dst (d.listdir src))
    (hapart : ∀ n ∈ d.listdir src, Apart (src ++ [n]) dst) {n : ν}
    (hfree : d.node (dst ++ [n]) = none) (r : List ν) :
    d'.node (dst ++ n :: r) = d.node (src ++ n :: r) := by
  by_cases hn : n ∈ d.listdir src
  · exact h.taken n hn r
  · have hsrc : d.node (src ++ [n]) = none := by
      by_contra hfound
      exact hn (mem_listdir.mpr hfound)
    rw [h.frame, List.append_cons, List.append_cons src, node_append_eq_none hfree,
      node_append_eq_none hsrc]
    intro m hm
    refine ⟨not_prefix_of_apart (hapart m hm) r, fun hle => ?_⟩
    rw [concat_prefix_iff.mp hle] at hm
    exact hn hm

theorem untouched (h : MovedAll d d' src dst items)
    (hp : ∀ n ∈ items, Apart (src ++ [n]) p ∧ Apart (dst ++ [n]) p) : Untouched d d' p := by
  intro r
  refine h.frame _ fun n hn => ?_
  exact ⟨(hp n hn).1.not_prefix_append r, (hp n hn).2.not_prefix_append r⟩

end MovedAll

end Ccp.Lib.Disk
