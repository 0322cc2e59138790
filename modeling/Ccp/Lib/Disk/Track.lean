import Ccp.Lib.Disk.Move

namespace Ccp.Lib.Disk

variable {ν α : Type*} [DecidableEq ν]

-- Where each entry of a disk stands on a later one, on which there is nothing else.
structure Tracks (σ : List ν → List ν) (d d' : Disk ν α) : Prop where
  node : ∀ p, d.node p ≠ none → d'.node (σ p) = d.node p
  onto : ∀ q, d'.node q ≠ none → ∃ p, d.node p ≠ none ∧ σ p = q
  inj : ∀ p p', d.node p ≠ none → d.node p' ≠ none → σ p = σ p' → p = p'

-- Exactly what was under one path is under another one.
def Leads (d : Disk ν α) (σ : List ν → List ν) (p q : List ν) : Prop :=
  ∀ p', d.node p' ≠ none → ∀ r, σ p' = q ++ r ↔ p' = p ++ r

variable {σ τ : List ν → List ν} {d d' d'' : Disk ν α} {src dst p q : List ν}

theorem Tracks.refl (d : Disk ν α) : Tracks id d d :=
  ⟨fun _ _ => rfl, fun q hq => ⟨q, hq, rfl⟩, fun _ _ _ _ h => h⟩

theorem Tracks.trans (h : Tracks σ d d') (h' : Tracks τ d' d'') : Tracks (τ ∘ σ) d d'' := by
  have hfound : ∀ p, d.node p ≠ none → d'.node (σ p) ≠ none := fun p hp => by rwa [h.node p hp]
  refine ⟨fun p hp => ?_, fun q hq => ?_, fun p p' hp hp' heq => ?_⟩
  · exact (h'.node _ (hfound p hp)).trans (h.node p hp)
  · obtain ⟨q', hq', rfl⟩ := h'.onto q hq
    obtain ⟨p, hp, rfl⟩ := h.onto q' hq'
    exact ⟨p, hp, rfl⟩
  · exact h.inj p p' hp hp' (h'.inj _ _ (hfound p hp) (hfound p' hp') heq)

theorem Leads.refl (d : Disk ν α) (p : List ν) : Leads d id p p := fun _ _ _ => Iff.rfl

theorem Leads.append (h : Leads d σ p q) (r : List ν) : Leads d σ (p ++ r) (q ++ r) := by
  intro p' hp' t
  rw [List.append_assoc, List.append_assoc]
  exact h p' hp' (r ++ t)

theorem Leads.eq (h : Leads d σ p q) (hp : d.node p ≠ none) : σ p = q := by
  simpa using (h p hp []).mpr (by simp)

@[simp] theorem rekey_self (src p : List ν) : rekey src src p = p := by
  by_cases h : src <+: p
  · obtain ⟨r, rfl⟩ := h
    rw [rekey_append]
  · exact rekey_of_not_under h src

theorem length_rekey (h : src.length = dst.length) (p : List ν) :
    (rekey src dst p).length = p.length := by
  by_cases hp : src <+: p
  · obtain ⟨r, rfl⟩ := hp
    rw [rekey_append, List.length_append, List.length_append, h]
  · rw [rekey_of_not_under hp]

-- An entry can always be given a name that is free in its directory.
theorem exists_moved {dir : List ν} {n new : ν} (hfound : d.node (dir ++ [n]) ≠ none)
    (hfree : d.node (dir ++ [new]) = none) :
    ∃ d', d.move (dir ++ [n]) (dir ++ [new]) = some d' ∧ Moved d d' (dir ++ [n]) (dir ++ [new]) := by
  have hne : n ≠ new := by
    rintro rfl
    exact hfound hfree
  have hparent : d.node (dir ++ [new]).dropLast = some .dir := by
    rw [List.dropLast_concat]
    exact node_parent hfound
  have hdst : d.isdir (dir ++ [new]) = false := by
    rw [isdir, hfree]
  have happart : (dir ++ [n]).isPrefixOf (dir ++ [new]) = false := by
    rw [Bool.eq_false_iff, Ne, List.isPrefixOf_iff_prefix, List.prefix_append_right_inj]
    simpa using hne
  have hrenames : d.renames (dir ++ [n]) (dir ++ [new]) = true := by
    obtain ⟨x, hx⟩ := Option.ne_none_iff_exists'.mp hfound
    simp only [renames, isdir_iff.mpr hparent, hx, hfree, happart]
    cases x <;> simp
  have hrename : d.rename (dir ++ [n]) (dir ++ [new]) =
      some ⟨_, nodup_renamed (renames_of_eq_true hrenames),
        closed_renamed (renames_of_eq_true hrenames)⟩ := by
    rw [rename, if_neg (by simpa using hne), dif_pos hrenames]
  refine ⟨_, ?_, ⟨renames_of_eq_true hrenames, (rename_eq_some (by simpa using hne) hrename).2⟩⟩
  rw [move, if_neg (by simp [hdst]), renameOrCopy_of_parent (Or.inr hparent), hrename]

-- A move to a place that is free.
theorem Moved.tracks (h : Moved d d' src dst) (hfree : d.node dst = none) :
    Tracks (rekey src dst) d d' := by
  have hnot : ∀ p, d.node p ≠ none → ¬ dst <+: p := by
    rintro p hp ⟨r, rfl⟩
    exact hp (node_append_eq_none hfree r)
  refine ⟨fun p hp => ?_, fun q hq => ?_, fun p p' hp hp' heq => ?_⟩
  · by_cases hsrc : src <+: p
    · obtain ⟨r, rfl⟩ := hsrc
      rw [rekey_append, h.node_dst]
    · rw [rekey_of_not_under hsrc, h.node_stays hsrc hfree hp]
  · rw [h.node_eq] at hq
    split_ifs at hq with hdst hsrc
    · obtain ⟨r, rfl⟩ := hdst
      rw [List.drop_left] at hq
      exact ⟨src ++ r, hq, rekey_append src dst r⟩
    · exact absurd rfl hq
    · exact ⟨q, hq, rekey_of_not_under hsrc dst⟩
  · by_cases hsrc : src <+: p
    · obtain ⟨r, rfl⟩ := hsrc
      rw [rekey_append] at heq
      by_cases hsrc' : src <+: p'
      · obtain ⟨r', rfl⟩ := hsrc'
        rw [rekey_append, List.append_cancel_left_eq] at heq
        rw [heq]
      · rw [rekey_of_not_under hsrc'] at heq
        exact absurd ⟨r, heq⟩ (hnot p' hp')
    · rw [rekey_of_not_under hsrc] at heq
      by_cases hsrc' : src <+: p'
      · obtain ⟨r', rfl⟩ := hsrc'
        rw [rekey_append] at heq
        exact absurd ⟨r', heq.symm⟩ (hnot p hp)
      · rwa [rekey_of_not_under hsrc'] at heq

-- Beside what has been moved away, everything leads where it led.
theorem Leads.congr {n m new : ν} (h : Leads d σ (p ++ [m]) (q ++ [m])) (hne : m ≠ n) (hnew : m ≠ new)
    (hoff : ∀ p', d.node p' ≠ none → ¬ p ++ [n] <+: p' → τ p' = σ p')
    (hunder : ∀ p', d.node p' ≠ none → p ++ [n] <+: p' → q ++ [new] <+: τ p') :
    Leads d τ (p ++ [m]) (q ++ [m]) := by
  have hname : ∀ {t : List ν} {a b : ν}, a ≠ b → ∀ r, ¬ t ++ [a] <+: t ++ [b] ++ r := by
    intro t a b hab r hle
    rw [List.append_assoc, List.prefix_append_right_inj, List.singleton_append,
      List.cons_prefix_cons] at hle
    exact hab hle.1
  intro p' hp' r
  by_cases hp : p ++ [n] <+: p'
  · constructor
    · intro heq
      exact absurd (heq ▸ hunder p' hp' hp) (hname hnew.symm r)
    · rintro rfl
      exact absurd hp (hname hne.symm r)
  · rw [hoff p' hp' hp]
    exact h p' hp' r

-- Two trackings that agree on the paths up to a length find the same there.
theorem Tracks.found_congr {k : ℕ} (h : Tracks σ d d') (h' : Tracks τ d d'')
    (hlen : ∀ p, d.node p ≠ none → (σ p).length = p.length)
    (hlen' : ∀ p, d.node p ≠ none → (τ p).length = p.length)
    (heq : ∀ p, d.node p ≠ none → p.length ≤ k → τ p = σ p) (hq : q.length ≤ k) :
    d''.node q ≠ none ↔ d'.node q ≠ none := by
  constructor
  · intro hfound
    obtain ⟨p, hp, rfl⟩ := h'.onto q hfound
    rw [hlen' p hp] at hq
    rwa [heq p hp hq, h.node p hp]
  · intro hfound
    obtain ⟨p, hp, rfl⟩ := h.onto q hfound
    rw [hlen p hp] at hq
    rwa [← heq p hp hq, h'.node p hp]

end Ccp.Lib.Disk
