import Ccp.Worker.MoveOrMerge

namespace Ccp.Worker.MoveOrMerge.Refusals

open Lib

variable {ν α : Type*} [DecidableEq ν] [DecidableEq α]

inductive Call (ν : Type*)
  | makedirs (p : List ν)
  | compare (src dst : List ν)
  | unlink (p : List ν)
  | move (src dst : List ν)
  | rmtree (p : List ν)

-- The calls that the system refuses although the disk would allow them. The number of
-- directories that makedirs has made by then, and the paths that rmtree has cleared.
structure System (ν α : Type*) where
  refuses : Call ν → Disk ν α → Bool
  made : Disk ν α → ℕ
  cleared : Disk ν α → List (List ν)

def System.Quiet (sys : System ν α) : Prop := ∀ c d, sys.refuses c d = false

-- The disk as a script leaves it, where it raises too.
abbrev Outcome (ν α : Type*) := Except (Disk ν α) (Disk ν α)

section Scripts

variable (sys : System ν α)

omit [DecidableEq ν] [DecidableEq α] in
def attempt (c : Call ν) (d refused : Disk ν α) : Option (Disk ν α) → Outcome ν α
  | none => .error (if sys.refuses c d then refused else d)
  | some d' => if sys.refuses c d then .error refused else .ok d'

omit [DecidableEq α] in
def mkdirP (p : List ν) (d : Disk ν α) : Outcome ν α :=
  if d.found p then .ok d
  else attempt sys (.makedirs p) d ((d.makedirs (p.take (sys.made d))).getD d) (d.makedirs p)

def moveFile (src dst : List ν) (d : Disk ν α) : Outcome ν α :=
  (mkdirP sys dst.dropLast d).bind fun d =>
    match d.node src, d.node dst with
    | some (.file a), some (.file b) =>
        if sys.refuses (.compare src dst) d then .error d
        else if a = b then attempt sys (.unlink src) d d (d.unlink src)
        else .error d
    | _, _ => attempt sys (.move src dst) d d (d.move src dst)

def merge (src dst : List ν) : List (List ν) → Disk ν α → Outcome ν α
  | [], d => .ok d
  | rel :: rels, d => (moveFile sys (src ++ rel) (dst ++ rel) d).bind (merge src dst rels)

omit [DecidableEq α] in
def clear (src : List ν) (d : Disk ν α) (rels : List (List ν)) : Disk ν α :=
  rels.foldl (fun d rel => d.removed (src ++ rel)) d

def moveOrMerge (src dst : List ν) (d : Disk ν α) : Outcome ν α :=
  if d.isfile src then moveFile sys src dst d
  else if d.isdir src then
    if d.found dst then
      (merge sys src dst (walk d src) d).bind fun d =>
        attempt sys (.rmtree src) d (clear src d (sys.cleared d)) (d.rmtree src)
    else attempt sys (.move src dst) d d (d.move src dst)
  else .ok d

end Scripts

-- The other place is a directory, in which the file then gets its own name.
def Clash (d : Disk ν α) (src dst : List ν) : Prop :=
  d.node dst = some .dir ∧ d.node (dst ++ src.getLast?.toList) = none

-- The file has no way to the other place, and stays.
structure Free (d : Disk ν α) (src dst : List ν) : Prop where
  parents : ∀ p, p <+: dst.dropLast → ∀ c, d.node p ≠ some (.file c)
  same : ∀ b c, d.node src = some (.file c) → d.node dst = some (.file b) → c = b
  inside : d.node dst = some .dir → d.node (dst ++ src.getLast?.toList) = none

-- A file has come to a place, and all that was anywhere else is there still.
structure Placed (src dst place : List ν) (c : α) (d e : Disk ν α) : Prop where
  arrived : e.node place = some (.file c)
  gone : e.node src = none
  kept : ∀ q, ¬ src <+: q → d.node q ≠ none → e.node q = d.node q
  fresh : ∀ q, d.node q = none → e.node q ≠ none →
    q = place ∨ e.node q = some .dir ∧ q <+: dst.dropLast

section Attempt

variable {sys : System ν α} {c : Call ν} {d refused : Disk ν α} {result : Option (Disk ν α)}

omit [DecidableEq ν] [DecidableEq α]

theorem attempt_cases (sys : System ν α) (c : Call ν) (d refused : Disk ν α)
    (result : Option (Disk ν α)) :
    (∃ e, result = some e ∧ attempt sys c d refused result = .ok e) ∨
      attempt sys c d refused result = .error d ∨ attempt sys c d refused result = .error refused := by
  cases result with
  | none =>
      rw [attempt]
      split_ifs
      · exact Or.inr (Or.inr rfl)
      · exact Or.inr (Or.inl rfl)
  | some e =>
      rw [attempt]
      split_ifs
      · exact Or.inr (Or.inr rfl)
      · exact Or.inl ⟨e, rfl, rfl⟩

theorem attempt_quiet {e : Disk ν α} (hquiet : sys.Quiet) (h : result = some e) :
    attempt sys c d refused result = .ok e := by
  subst h
  rw [attempt, if_neg (by simp [hquiet c d])]

end Attempt

omit [DecidableEq ν] in
theorem not_prefix_dropLast {p : List ν} (hp : p ≠ []) (r : List ν) : ¬ p ++ r <+: p.dropLast := by
  intro hle
  have hlength := hle.length_le
  have hpos := List.length_pos_of_ne_nil hp
  rw [List.length_append, List.length_dropLast] at hlength
  omega

section MoveFile

variable {sys : System ν α} {src dst p : List ν} {c : α} {d e : Disk ν α}

omit [DecidableEq α] in
theorem grown_of_mkdirP (sys : System ν α) (p : List ν) (d : Disk ν α) :
    ∃ e, d.Grown (· <+: p) e ∧
      (mkdirP sys p d = .ok e ∧ e.node p ≠ none ∨ mkdirP sys p d = .error e) := by
  rw [mkdirP]
  split_ifs with hfound
  · exact ⟨d, Disk.Grown.refl _ d, Or.inl ⟨rfl, Disk.found_iff.mp hfound⟩⟩
  · rcases attempt_cases sys (.makedirs p) d ((d.makedirs (p.take (sys.made d))).getD d)
        (d.makedirs p) with ⟨e, hmade, heq⟩ | heq | heq
    · refine ⟨e, Disk.grown_of_makedirs hmade, Or.inl ⟨heq, ?_⟩⟩
      rw [(Disk.makedirs_eq_some hmade).2.1, if_pos List.prefix_rfl]
      simp
    · exact ⟨d, Disk.Grown.refl _ d, Or.inr heq⟩
    · refine ⟨_, ?_, Or.inr heq⟩
      cases hmade : d.makedirs (p.take (sys.made d)) with
      | none => exact Disk.Grown.refl _ d
      | some e =>
          have hgrown := Disk.grown_of_makedirs hmade
          exact ⟨hgrown.kept, fun q hnone hne =>
            ⟨(hgrown.fresh q hnone hne).1, (hgrown.fresh q hnone hne).2.trans (List.take_prefix _ p)⟩⟩

omit [DecidableEq α] in
-- A file that goes where nothing is, whatever had to be made for it before.
theorem Placed.of_taken {place : List ν} {e' : Disk ν α} (hgrown : d.Grown (· <+: dst.dropLast) e)
    (hplace : e.node place ≠ none → e.node place = some (.file c))
    (harrived : e'.node place = some (.file c)) (hgone : ∀ q, src <+: q → e'.node q = none)
    (houtside : ∀ q, ¬ src <+: q → q ≠ place → e'.node q = e.node q) :
    Placed src dst place c d e' := by
  refine ⟨harrived, hgone src List.prefix_rfl, fun q hq hne => ?_, fun q hnone hne => ?_⟩
  · have heq := hgrown.kept q hne
    by_cases hqplace : q = place
    · subst hqplace
      rw [harrived, ← heq, hplace (by rwa [heq])]
    · rw [houtside q hq hqplace, heq]
  · by_cases hqplace : q = place
    · exact Or.inl hqplace
    · have hq : ¬ src <+: q := fun hle => hne (hgone q hle)
      rw [houtside q hq hqplace] at hne ⊢
      exact Or.inr (hgrown.fresh q hnone hne)

-- A file is moved to the path it is moved to, or into a directory that is there, or stays.
theorem moveFile_cases (sys : System ν α) (hdst : dst ≠ []) (hapart : ¬ dst <+: src)
    (hsrc : d.node src = some (.file c)) :
    ∃ e, moveFile sys src dst d = .ok e ∧ d.node dst ≠ some .dir ∧ Placed src dst dst c d e ∨
      moveFile sys src dst d = .ok e ∧ Clash d src dst ∧
        Placed src dst (dst ++ src.getLast?.toList) c d e ∨
      moveFile sys src dst d = .error e ∧ d.Grown (· <+: dst.dropLast) e := by
  obtain ⟨e, hgrown, ⟨hmade, -⟩ | hmade⟩ := grown_of_mkdirP sys dst.dropLast d
  · have hesrc : e.node src = some (.file c) := by rw [hgrown.kept src (by simp [hsrc]), hsrc]
    have hedst : e.node dst = some .dir → d.node dst = some .dir := by
      intro hdir
      rcases hgrown.node_dir hdir with hd | hle
      · exact hd
      · exact absurd hle (by simpa using not_prefix_dropLast hdst [])
    have hrun : moveFile sys src dst d = match e.node src, e.node dst with
      | some (.file a), some (.file b) =>
          if sys.refuses (.compare src dst) e then .error e
          else if a = b then attempt sys (.unlink src) e e (e.unlink src)
          else .error e
      | _, _ => attempt sys (.move src dst) e e (e.move src dst) := by
      rw [moveFile, hmade]
      rfl
    rw [hrun, hesrc]
    rcases hx : e.node dst with _ | _ | b
    · -- nothing is there
      have hd : d.node dst = none := by
        by_contra hne
        rw [hgrown.kept dst hne] at hx
        exact hne hx
      rcases attempt_cases sys (.move src dst) e e (e.move src dst) with ⟨e', hmove, heq⟩ | heq | heq
      · obtain htaken := taken_of_move hapart hesrc hx hmove
        refine ⟨e', Or.inl ⟨heq, by simp [hd], ?_⟩⟩
        exact Placed.of_taken hgrown (fun hne => absurd hx hne) htaken.arrived htaken.gone
          htaken.outside
      · exact ⟨e, Or.inr (Or.inr ⟨heq, hgrown⟩)⟩
      · exact ⟨e, Or.inr (Or.inr ⟨heq, hgrown⟩)⟩
    · -- a directory is there
      rcases attempt_cases sys (.move src dst) e e (e.move src dst) with ⟨e', hmove, heq⟩ | heq | heq
      · have hdir : d.node dst = some .dir := hedst hx
        have hne : src ≠ dst := by
          rintro rfl
          exact hapart List.prefix_rfl
        have hsrcne : src ≠ [] := by
          rintro rfl
          cases hesrc
        have hfile : e.isdir src = false := by simp [Disk.isdir, hesrc]
        rcases Disk.move_eq_some hne hsrcne (Or.inl hfile) hmove with ⟨hnot, -⟩ | ⟨-, hnone, hmoved⟩
        · rw [Disk.isdir_iff.mpr hx] at hnot
          cases hnot
        · have hfree : d.node (dst ++ src.getLast?.toList) = none := by
            by_contra hfound
            rw [hgrown.kept _ hfound] at hnone
            exact hfound hnone
          have hplace : ¬ dst ++ src.getLast?.toList <+: src := fun hle =>
            hapart ((List.prefix_append dst _).trans hle)
          have harrived := hmoved.node_dst []
          rw [List.append_nil, List.append_nil, hesrc] at harrived
          refine ⟨e', Or.inr (Or.inl ⟨heq, ⟨hdir, hfree⟩, ?_⟩)⟩
          refine Placed.of_taken hgrown (fun hfound => absurd hnone hfound) harrived ?_ ?_
          · rintro q ⟨r, rfl⟩
            exact hmoved.node_src hplace r
          · exact fun q hq hqplace => hmoved.node_outside hesrc hnone hq hqplace
      · exact ⟨e, Or.inr (Or.inr ⟨heq, hgrown⟩)⟩
      · exact ⟨e, Or.inr (Or.inr ⟨heq, hgrown⟩)⟩
    · -- a file is there, which is the same or stops the move
      have hd : d.node dst ≠ some .dir := by
        intro hdir
        rw [hgrown.kept dst (by simp [hdir]), hdir] at hx
        cases hx
      simp only []
      split_ifs with hrefused hsame
      · exact ⟨e, Or.inr (Or.inr ⟨rfl, hgrown⟩)⟩
      · subst hsame
        rcases attempt_cases sys (.unlink src) e e (e.unlink src) with
          ⟨e', hunlink, heq⟩ | heq | heq
        · have htaken := taken_of_unlink hapart hesrc hx hunlink
          refine ⟨e', Or.inl ⟨heq, hd, ?_⟩⟩
          exact Placed.of_taken hgrown (fun _ => hx) htaken.arrived htaken.gone htaken.outside
        · exact ⟨e, Or.inr (Or.inr ⟨heq, hgrown⟩)⟩
        · exact ⟨e, Or.inr (Or.inr ⟨heq, hgrown⟩)⟩
      · exact ⟨e, Or.inr (Or.inr ⟨rfl, hgrown⟩)⟩
  · exact ⟨e, Or.inr (Or.inr ⟨by rw [moveFile, hmade]; rfl, hgrown⟩)⟩

theorem free_of_moveFile (hdst : dst ≠ []) (hapart : ¬ src <+: dst) (hapart' : ¬ dst <+: src)
    (hsrc : d.node src = some (.file c)) (h : moveFile sys src dst d = .ok e) : Free d src dst := by
  obtain ⟨e', ⟨hrun, hdir, hplaced⟩ | ⟨hrun, ⟨hdir, hnone⟩, -⟩ | ⟨hrun, -⟩⟩ :=
    moveFile_cases sys hdst hapart' hsrc
  · obtain rfl := Except.ok.inj (hrun.symm.trans h)
    refine ⟨fun p hp b hfile => ?_, fun b c' hc' hb => ?_, fun hd => absurd hd hdir⟩
    · have hnot : ¬ src <+: p := fun hle => hapart ((hle.trans hp).trans (List.dropLast_prefix dst))
      have hkept := (hplaced.kept p hnot (by simp [hfile])).trans hfile
      obtain ⟨r, hr⟩ := hp.trans (List.dropLast_prefix dst)
      have hnil : r = [] := Disk.eq_nil_of_file hkept (by rw [hr, hplaced.arrived]; simp)
      have heq : p = dst := by rw [← hr, hnil, List.append_nil]
      exact not_prefix_dropLast hdst [] (by simpa [heq] using hp)
    · rw [hsrc, Option.some.injEq, Node.file.injEq] at hc'
      have hkept := (hplaced.kept dst hapart (by simp [hb])).trans hb
      rw [hplaced.arrived, Option.some.injEq, Node.file.injEq] at hkept
      exact hc'.symm.trans hkept
  · refine ⟨fun p hp b hfile => ?_, fun b c' _ hb => ?_, fun _ => hnone⟩
    · obtain ⟨r, hr⟩ := hp.trans (List.dropLast_prefix dst)
      obtain rfl : r = [] := Disk.eq_nil_of_file hfile (by rw [hr, hdir]; simp)
      rw [List.append_nil] at hr
      rw [hr, hdir] at hfile
      cases hfile
    · rw [hdir] at hb
      cases hb
  · rw [hrun] at h
    cases h

omit [DecidableEq α] in
theorem mkdirP_quiet (hquiet : sys.Quiet) (h : ∀ q, q <+: p → ∀ b, d.node q ≠ some (.file b)) :
    ∃ e, mkdirP sys p d = .ok e ∧ d.Grown (· <+: p) e ∧ e.node p = some .dir := by
  rw [mkdirP]
  cases hp : d.node p with
  | none =>
      obtain ⟨e, hmade⟩ := Disk.exists_makedirs hp h
      rw [if_neg (by simp [Disk.not_found_iff.mpr hp])]
      refine ⟨e, attempt_quiet hquiet hmade, Disk.grown_of_makedirs hmade, ?_⟩
      rw [(Disk.makedirs_eq_some hmade).2.1, if_pos List.prefix_rfl]
  | some x =>
      rw [if_pos (Disk.found_iff.mpr (by simp [hp]))]
      cases x with
      | dir => exact ⟨d, rfl, Disk.Grown.refl _ d, hp⟩
      | file b => exact absurd hp (h p List.prefix_rfl b)

-- Only the system keeps a file from a place that is free for it.
theorem moveFile_quiet (hquiet : sys.Quiet) (hdst : dst ≠ []) (hapart : ¬ src <+: dst)
    (hsrc : d.node src = some (.file c)) (h : Free d src dst) :
    ∃ e, moveFile sys src dst d = .ok e := by
  obtain ⟨e, hmade, hgrown, hparent⟩ := mkdirP_quiet hquiet h.parents
  have hesrc : e.node src = some (.file c) := by rw [hgrown.kept src (by simp [hsrc]), hsrc]
  rw [moveFile, hmade, Except.bind, hesrc]
  rcases hx : e.node dst with _ | _ | b
  · obtain ⟨e', hmove⟩ := Disk.exists_move hesrc hdst hapart hparent (Or.inl hx)
    exact ⟨e', attempt_quiet hquiet hmove⟩
  · have hfree : e.node (dst ++ src.getLast?.toList) = none := by
      have hdir := (hgrown.node_dir hx).resolve_right
        (by simpa using not_prefix_dropLast hdst [])
      by_contra hne
      by_cases hnone : d.node (dst ++ src.getLast?.toList) = none
      · exact not_prefix_dropLast hdst _ (hgrown.fresh _ hnone hne).2
      · exact hnone (h.inside hdir)
    obtain ⟨e', hmove⟩ := Disk.exists_move hesrc hdst hapart hparent (Or.inr ⟨hx, hfree⟩)
    exact ⟨e', attempt_quiet hquiet hmove⟩
  · have hb : d.node dst = some (.file b) := hgrown.node_file_iff.mp hx
    obtain rfl := h.same b c hsrc hb
    have hunlink : e.unlink src = some (e.removed src) :=
      if_pos (Disk.isfile_iff.mpr ⟨c, hesrc⟩)
    refine ⟨e.removed src, ?_⟩
    simp only [hquiet (.compare src dst) e, if_true, Bool.false_eq_true, if_false]
    exact attempt_quiet hquiet hunlink

end MoveFile

-- Where a merge has come to, with the files that were moved. What else is new are the
-- directories that lead to them.
structure Going (src dst : List ν) (d : Disk ν α) (done : List (List ν)) (e : Disk ν α) : Prop where
  waiting : ∀ r c, d.node (src ++ r) = some (.file c) → r ∉ done → e.node (src ++ r) = some (.file c)
  moved : ∀ r c, d.node (src ++ r) = some (.file c) → r ∈ done → e.node (dst ++ r) = some (.file c)
  gone : ∀ r ∈ done, e.node (src ++ r) = none
  kept : ∀ q, ¬ src <+: q → d.node q ≠ none → e.node q = d.node q
  fresh : ∀ q, ¬ src <+: q → d.node q = none → e.node q ≠ none → ∃ r ∈ done,
    d.isfile (src ++ r) = true ∧ (q = dst ++ r ∨ e.node q = some .dir ∧ q <+: (dst ++ r).dropLast)

-- What a script must leave.

structure Succeeded (src dst : List ν) (d e : Disk ν α) : Prop where
  arrived : ∀ r c, d.node (src ++ r) = some (.file c) → e.node (dst ++ r) = some (.file c)
  kept : ∀ r c, d.node (dst ++ r) = some (.file c) → e.node (dst ++ r) = some (.file c)
  gone : e.node src = none

structure Failed (src dst : List ν) (d e : Disk ν α) : Prop where
  found : ∀ r c, d.node (src ++ r) = some (.file c) →
    e.node (src ++ r) = some (.file c) ∨ e.node (dst ++ r) = some (.file c)
  kept : ∀ r c, d.node (dst ++ r) = some (.file c) → e.node (dst ++ r) = some (.file c)

structure Contract (src dst : List ν) (d : Disk ν α) (out : Outcome ν α) : Prop where
  ok : ∀ e, out = .ok e → Succeeded src dst d e
  error : ∀ e, out = .error e → Failed src dst d e

section Contract

variable {src dst : List ν} {d e : Disk ν α}

omit [DecidableEq α]

theorem contract_ok (h : Succeeded src dst d e) : Contract src dst d (.ok e) where
  ok e' he' := Except.ok.inj he' ▸ h
  error e' he' := by cases he'

theorem contract_error (h : Failed src dst d e) : Contract src dst d (.error e) where
  ok e' he' := by cases he'
  error e' he' := Except.error.inj he' ▸ h

end Contract

-- Before the walk comes to a file with a directory in its place, it comes to one that stops it.
def NoClash (src dst : List ν) (d : Disk ν α) (rels : List (List ν)) : Prop :=
  ∀ front r back, rels = front ++ r :: back → Clash d (src ++ r) (dst ++ r) →
    ∃ r' ∈ front, ¬ Free d (src ++ r') (dst ++ r')

section Merge

variable {sys : System ν α} {src dst : List ν} {d e e' : Disk ν α} {done rels : List (List ν)}
  {r : List ν} {c : α}

omit [DecidableEq α] in
theorem eq_of_prefix_of_file {r' : List ν} (hr : d.isfile (src ++ r) = true)
    (hr' : d.isfile (src ++ r') = true) (h : r <+: r') : r = r' := by
  obtain ⟨t, rfl⟩ := h
  obtain ⟨c, hc⟩ := Disk.isfile_iff.mp hr
  obtain ⟨c', hc'⟩ := Disk.isfile_iff.mp hr'
  rw [← List.append_assoc] at hc'
  obtain rfl : t = [] := Disk.eq_nil_of_file hc (by rw [hc']; simp)
  rw [List.append_nil]

omit [DecidableEq ν] in
theorem apart_append (hapart : ¬ src <+: dst) (hapart' : ¬ dst <+: src) (r : List ν) :
    ¬ src ++ r <+: dst ++ r ∧ ¬ dst ++ r <+: src ++ r :=
  ⟨fun hle => not_prefix_append hapart hapart' r ((List.prefix_append src r).trans hle),
    fun hle => not_prefix_append hapart' hapart r ((List.prefix_append dst r).trans hle)⟩

namespace Going

omit [DecidableEq α] in
theorem start (src dst : List ν) (d : Disk ν α) : Going src dst d [] d where
  waiting _ _ hc _ := hc
  moved _ _ _ hr := absurd hr List.not_mem_nil
  gone _ hr := absurd hr List.not_mem_nil
  kept _ _ _ := rfl
  fresh _ _ hnone hne := absurd hnone hne

variable (h : Going src dst d done e) (hapart : ¬ src <+: dst) (hapart' : ¬ dst <+: src)
include h hapart hapart'

omit [DecidableEq α] in
-- Nothing has come to the place of a file that is still to move.
theorem node_waiting (hr : d.isfile (src ++ r) = true) (hwait : r ∉ done) (t : List ν) :
    e.node (dst ++ r ++ t) = d.node (dst ++ r ++ t) := by
  have hnot : ¬ src <+: dst ++ r ++ t := by
    rw [List.append_assoc]
    exact not_prefix_append hapart hapart' (r ++ t)
  by_cases hnone : d.node (dst ++ r ++ t) = none
  · by_contra hne
    obtain ⟨r', hr', hfile, hplace⟩ := h.fresh _ hnot hnone (by rwa [hnone] at hne)
    have hle : dst ++ r ++ t <+: dst ++ r' := by
      rcases hplace with heq | ⟨-, hle⟩
      · rw [heq]
      · exact hle.trans (List.dropLast_prefix _)
    have hprefix := (List.prefix_append (dst ++ r) t).trans hle
    rw [List.prefix_append_right_inj] at hprefix
    exact hwait (eq_of_prefix_of_file hr hfile hprefix ▸ hr')
  · exact h.kept _ hnot hnone

omit [DecidableEq α] in
theorem clash_iff (hr : d.isfile (src ++ r) = true) (hwait : r ∉ done) :
    Clash e (src ++ r) (dst ++ r) ↔ Clash d (src ++ r) (dst ++ r) := by
  have hnode := h.node_waiting hapart hapart' hr hwait []
  rw [List.append_nil] at hnode
  rw [Clash, Clash, h.node_waiting hapart hapart' hr hwait, hnode]

omit [DecidableEq α] in
theorem free_iff (hr : d.isfile (src ++ r) = true) (hwait : r ∉ done) :
    Free e (src ++ r) (dst ++ r) ↔ Free d (src ++ r) (dst ++ r) := by
  have hnode := h.node_waiting hapart hapart' hr hwait []
  rw [List.append_nil] at hnode
  obtain ⟨c, hc⟩ := Disk.isfile_iff.mp hr
  have hsrc : e.node (src ++ r) = d.node (src ++ r) := (h.waiting r c hc hwait).trans hc.symm
  have hfile : ∀ p, p <+: (dst ++ r).dropLast → ∀ b,
      e.node p = some (.file b) ↔ d.node p = some (.file b) := by
    intro p hp b
    have hle := hp.trans (List.dropLast_prefix _)
    have hnot : ¬ src <+: p := fun hsrcp =>
      not_prefix_append hapart hapart' r (hsrcp.trans hle)
    by_cases hnone : d.node p = none
    · rw [hnone]
      refine iff_of_false (fun hb => ?_) (by simp)
      obtain ⟨r', hr', hfile', rfl | ⟨hdir, -⟩⟩ := h.fresh p hnot hnone (by simp [hb])
      · rw [List.prefix_append_right_inj] at hle
        exact hwait (eq_of_prefix_of_file hfile' hr hle ▸ hr')
      · rw [hdir] at hb
        cases hb
    · rw [h.kept p hnot hnone]
  constructor
  · intro hfree
    refine ⟨fun p hp b hb => hfree.parents p hp b ((hfile p hp b).mpr hb), ?_, ?_⟩
    · rw [← hnode, ← hsrc]
      exact hfree.same
    · rw [← hnode, ← h.node_waiting hapart hapart' hr hwait]
      exact hfree.inside
  · intro hfree
    refine ⟨fun p hp b hb => hfree.parents p hp b ((hfile p hp b).mp hb), ?_, ?_⟩
    · rw [hnode, hsrc]
      exact hfree.same
    · rw [hnode, h.node_waiting hapart hapart' hr hwait]
      exact hfree.inside

omit [DecidableEq α] in
theorem step (hc : d.node (src ++ r) = some (.file c))
    (hplaced : Placed (src ++ r) (dst ++ r) (dst ++ r) c e e') : Going src dst d (r :: done) e' := by
  have hr : d.isfile (src ++ r) = true := Disk.isfile_iff.mpr ⟨c, hc⟩
  have hout : ∀ q, ¬ src <+: q → ¬ src ++ r <+: q := fun q hq hle =>
    hq ((List.prefix_append src r).trans hle)
  have hdst := not_prefix_append hapart hapart'
  refine ⟨?_, ?_, ?_, ?_, ?_⟩
  · intro r' c' hc' hwait
    rw [List.mem_cons, not_or] at hwait
    have heq := h.waiting r' c' hc' hwait.2
    have hnot : ¬ src ++ r <+: src ++ r' := by
      rw [List.prefix_append_right_inj]
      intro hle
      exact hwait.1 (eq_of_prefix_of_file hr (Disk.isfile_iff.mpr ⟨c', hc'⟩) hle).symm
    rw [hplaced.kept _ hnot (by simp [heq]), heq]
  · intro r' c' hc' hmem
    rcases List.mem_cons.mp hmem with rfl | hmem
    · rw [hc, Option.some.injEq, Node.file.injEq] at hc'
      rw [← hc', hplaced.arrived]
    · have heq := h.moved r' c' hc' hmem
      rw [hplaced.kept _ (hout _ (hdst r')) (by simp [heq]), heq]
  · intro r' hmem
    rcases List.mem_cons.mp hmem with rfl | hmem
    · exact hplaced.gone
    · by_contra hne
      rcases hplaced.fresh _ (h.gone r' hmem) hne with heq | ⟨-, hle⟩
      · exact hdst r (heq ▸ List.prefix_append src r')
      · exact hdst r (((List.prefix_append src r').trans hle).trans (List.dropLast_prefix _))
  · intro q hq hne
    have heq := h.kept q hq hne
    rw [hplaced.kept q (hout q hq) (by rwa [heq]), heq]
  · intro q hq hnone hne
    by_cases hqe : e.node q = none
    · exact ⟨r, List.mem_cons_self, hr, hplaced.fresh q hqe hne⟩
    · obtain ⟨r', hr', hfile, hplace⟩ := h.fresh q hq hnone hqe
      rw [hplaced.kept q (hout q hq) hqe]
      exact ⟨r', List.mem_cons_of_mem r hr', hfile, hplace⟩

omit [DecidableEq α] in
-- What stops a merge leaves all that is there.
theorem failed (hkept : ∀ q, e.node q ≠ none → e'.node q = e.node q) : Failed src dst d e' := by
  refine ⟨fun r c hc => ?_, fun r c hc => ?_⟩
  · by_cases hr : r ∈ done
    · have hmoved := h.moved r c hc hr
      exact Or.inr ((hkept _ (by simp [hmoved])).trans hmoved)
    · have hwait := h.waiting r c hc hr
      exact Or.inl ((hkept _ (by simp [hwait])).trans hwait)
  · have heq := h.kept _ (not_prefix_append hapart hapart' r) (by simp [hc])
    rw [hkept _ (by rw [heq, hc]; simp), heq, hc]

end Going

omit [DecidableEq α] in
theorem NoClash.head (h : NoClash src dst d (r :: rels)) : ¬ Clash d (src ++ r) (dst ++ r) := by
  intro hclash
  obtain ⟨r', hr', -⟩ := h [] r rels rfl hclash
  cases hr'

omit [DecidableEq α] in
theorem NoClash.tail (h : NoClash src dst d (r :: rels)) (hfree : Free d (src ++ r) (dst ++ r)) :
    NoClash src dst d rels := by
  rintro front r' back rfl hclash
  obtain ⟨r₀, hr₀, hstop⟩ := h (r :: front) r' back rfl hclash
  rcases List.mem_cons.mp hr₀ with rfl | hmem
  · exact absurd hfree hstop
  · exact ⟨r₀, hmem, hstop⟩

theorem merge_cases (sys : System ν α) (hapart : ¬ src <+: dst) (hapart' : ¬ dst <+: src)
    (hnodup : rels.Nodup) (hfiles : ∀ r ∈ rels, d.isfile (src ++ r) = true ∧ r ∉ done)
    (hclash : NoClash src dst d rels) (h : Going src dst d done e) :
    ∃ e', merge sys src dst rels e = .ok e' ∧ Going src dst d (rels.reverse ++ done) e' ∨
      merge sys src dst rels e = .error e' ∧ Failed src dst d e' := by
  induction rels generalizing done e with
  | nil => exact ⟨e, Or.inl ⟨rfl, h⟩⟩
  | cons r rels ih =>
      obtain ⟨hfile, hwait⟩ := hfiles r List.mem_cons_self
      obtain ⟨c, hc⟩ := Disk.isfile_iff.mp hfile
      have hdst : dst ++ r ≠ [] := by
        rintro hnil
        rw [(List.append_eq_nil_iff.mp hnil).1] at hapart'
        exact hapart' List.nil_prefix
      have hsrcdst := apart_append hapart hapart' r
      have hec := h.waiting r c hc hwait
      obtain ⟨e₁, ⟨hrun, -, hplaced⟩ | ⟨-, hclashed, -⟩ | ⟨hrun, hgrown⟩⟩ :=
        moveFile_cases sys hdst hsrcdst.2 hec
      · have hfree := (h.free_iff hapart hapart' hfile hwait).mp
          (free_of_moveFile hdst hsrcdst.1 hsrcdst.2 hec hrun)
        rw [merge, hrun, List.reverse_cons, List.append_assoc, List.singleton_append]
        refine ih (List.nodup_cons.mp hnodup).2 (fun r' hr' => ?_) (hclash.tail hfree)
          (h.step hapart hapart' hc hplaced)
        obtain ⟨hfile', hwait'⟩ := hfiles r' (List.mem_cons_of_mem r hr')
        refine ⟨hfile', ?_⟩
        rw [List.mem_cons, not_or]
        exact ⟨fun heq => (List.nodup_cons.mp hnodup).1 (heq ▸ hr'), hwait'⟩
      · exact absurd ((h.clash_iff hapart hapart' hfile hwait).mp hclashed) hclash.head
      · refine ⟨e₁, Or.inr ⟨?_, h.failed hapart hapart' hgrown.kept⟩⟩
        rw [merge, hrun]
        rfl

-- A file is lost to the merge: its place is a directory, and it is not where it was.
def Lost (src dst : List ν) (r : List ν) (e : Disk ν α) : Prop :=
  e.node (src ++ r) = none ∧ e.node (dst ++ r) = some .dir

theorem moveFile_kept (sys : System ν α) (hapart : ¬ src <+: dst) (hapart' : ¬ dst <+: src)
    (hfile : e.isfile (src ++ r) = true) :
    ∃ e', (moveFile sys (src ++ r) (dst ++ r) e = .ok e' ∨
        moveFile sys (src ++ r) (dst ++ r) e = .error e') ∧
      (∀ q, ¬ src ++ r <+: q → e.node q ≠ none → e'.node q = e.node q) ∧
      ∀ q, src <+: q → e.node q = none → e'.node q = none := by
  obtain ⟨c, hc⟩ := Disk.isfile_iff.mp hfile
  have hsrcdst := apart_append hapart hapart' r
  have hdst : dst ++ r ≠ [] := fun hnil => hsrcdst.2 (hnil ▸ List.nil_prefix)
  -- no directory that is made leads to the source
  have hnew : ∀ q, src <+: q → ¬ q <+: (dst ++ r).dropLast := fun q hq hle =>
    not_prefix_append hapart hapart' r ((hq.trans hle).trans (List.dropLast_prefix _))
  have hnone : ∀ place e', dst ++ r <+: place → Placed (src ++ r) (dst ++ r) place c e e' →
      ∀ q, src <+: q → e.node q = none → e'.node q = none := by
    intro place e' hplace hplaced q hq hfree
    by_contra hne
    rcases hplaced.fresh q hfree hne with rfl | ⟨-, hle⟩
    · rcases List.prefix_or_prefix_of_prefix hq hplace with hle | hle
      · exact not_prefix_append hapart hapart' r hle
      · exact hapart' ((List.prefix_append dst r).trans hle)
    · exact hnew q hq hle
  obtain ⟨e', ⟨hrun, -, hplaced⟩ | ⟨hrun, -, hplaced⟩ | ⟨hrun, hgrown⟩⟩ :=
    moveFile_cases sys hdst hsrcdst.2 hc
  · exact ⟨e', Or.inl hrun, hplaced.kept, hnone _ e' List.prefix_rfl hplaced⟩
  · exact ⟨e', Or.inl hrun, hplaced.kept, hnone _ e' (List.prefix_append _ _) hplaced⟩
  · refine ⟨e', Or.inr hrun, fun q _ => hgrown.kept q, fun q hq hfree => ?_⟩
    by_contra hne
    exact hnew q hq (hgrown.fresh q hfree hne).2

theorem merge_lost (sys : System ν α) (hapart : ¬ src <+: dst) (hapart' : ¬ dst <+: src)
    (hnodup : rels.Nodup) (hfiles : ∀ r' ∈ rels, e.isfile (src ++ r') = true)
    (h : Lost src dst r e) :
    ∃ e', (merge sys src dst rels e = .ok e' ∨ merge sys src dst rels e = .error e') ∧
      Lost src dst r e' := by
  induction rels generalizing e with
  | nil => exact ⟨e, Or.inl rfl, h⟩
  | cons r' rels ih =>
      have hfile := hfiles r' List.mem_cons_self
      obtain ⟨e₁, hrun, hkept, hnone⟩ := moveFile_kept sys hapart hapart' hfile
      have hlost : Lost src dst r e₁ := by
        refine ⟨hnone _ (List.prefix_append src r) h.1, ?_⟩
        rw [hkept _ (fun hle => ?_) (by simp [h.2]), h.2]
        exact not_prefix_append hapart hapart' r ((List.prefix_append src r').trans hle)
      rcases hrun with hrun | hrun
      · rw [merge, hrun]
        refine ih (List.nodup_cons.mp hnodup).2 (fun t ht => ?_) hlost
        have htfile := hfiles t (List.mem_cons_of_mem r' ht)
        obtain ⟨c, hc⟩ := Disk.isfile_iff.mp htfile
        have hnot : ¬ src ++ r' <+: src ++ t := by
          rw [List.prefix_append_right_inj]
          intro hle
          obtain rfl := eq_of_prefix_of_file hfile htfile hle
          exact (List.nodup_cons.mp hnodup).1 ht
        exact Disk.isfile_iff.mpr ⟨c, by rw [hkept _ hnot (by simp [hc]), hc]⟩
      · refine ⟨e₁, Or.inr ?_, hlost⟩
        rw [merge, hrun]
        rfl

theorem Going.merge_clash (hquiet : sys.Quiet) (hapart : ¬ src <+: dst) (hapart' : ¬ dst <+: src)
    (hnodup : (r :: rels).Nodup)
    (hfiles : ∀ r' ∈ r :: rels, d.isfile (src ++ r') = true ∧ r' ∉ done)
    (hclash : Clash d (src ++ r) (dst ++ r)) (h : Going src dst d done e) :
    ∃ e', (merge sys src dst (r :: rels) e = .ok e' ∨ merge sys src dst (r :: rels) e = .error e') ∧
      Lost src dst r e' := by
  obtain ⟨hfile, hwait⟩ := hfiles r List.mem_cons_self
  obtain ⟨c, hc⟩ := Disk.isfile_iff.mp hfile
  have hsrcdst := apart_append hapart hapart' r
  have hdst : dst ++ r ≠ [] := fun hnil => hsrcdst.2 (hnil ▸ List.nil_prefix)
  have hec := h.waiting r c hc hwait
  have heclash := (h.clash_iff hapart hapart' hfile hwait).mpr hclash
  -- a directory in its place does not stop a file
  have hfree : Free e (src ++ r) (dst ++ r) := by
    refine ⟨fun p hp b hb => ?_, fun b _ _ hb => ?_, fun _ => heclash.2⟩
    · obtain ⟨t, ht⟩ := hp.trans (List.dropLast_prefix _)
      obtain rfl : t = [] := Disk.eq_nil_of_file hb (by rw [ht, heclash.1]; simp)
      rw [List.append_nil] at ht
      rw [ht, heclash.1] at hb
      cases hb
    · rw [heclash.1] at hb
      cases hb
  obtain ⟨e₁, hrun⟩ := moveFile_quiet hquiet hdst hsrcdst.1 hec hfree
  have hlost : Lost src dst r e₁ ∧ ∀ t ∈ rels, e₁.isfile (src ++ t) = true := by
    obtain ⟨e₂, ⟨hrun', hnot, -⟩ | ⟨hrun', -, hplaced⟩ | ⟨hrun', -⟩⟩ :=
      moveFile_cases sys hdst hsrcdst.2 hec
    · exact absurd heclash.1 hnot
    · obtain rfl := Except.ok.inj (hrun.symm.trans hrun')
      refine ⟨⟨hplaced.gone, ?_⟩, fun t ht => ?_⟩
      · rw [hplaced.kept _ hsrcdst.1 (by simp [heclash.1]), heclash.1]
      · obtain ⟨htfile, htwait⟩ := hfiles t (List.mem_cons_of_mem r ht)
        obtain ⟨c', hc'⟩ := Disk.isfile_iff.mp htfile
        have hec' := h.waiting t c' hc' htwait
        refine Disk.isfile_iff.mpr ⟨c', ?_⟩
        rw [hplaced.kept _ (fun hle => ?_) (by simp [hec']), hec']
        rw [List.prefix_append_right_inj] at hle
        obtain rfl := eq_of_prefix_of_file hfile htfile hle
        exact (List.nodup_cons.mp hnodup).1 ht
    · rw [hrun] at hrun'
      cases hrun'
  rw [merge, hrun]
  exact merge_lost sys hapart hapart' (List.nodup_cons.mp hnodup).2 hlost.2 hlost.1

-- The first file that has a directory in its place is lost, when the merge comes to it.
theorem merge_clash (hquiet : sys.Quiet) (hapart : ¬ src <+: dst) (hapart' : ¬ dst <+: src)
    {front back : List (List ν)} (hnodup : (front ++ r :: back).Nodup)
    (hfiles : ∀ r' ∈ front ++ r :: back, d.isfile (src ++ r') = true ∧ r' ∉ done)
    (hfree : ∀ r' ∈ front, Free d (src ++ r') (dst ++ r'))
    (hclash : Clash d (src ++ r) (dst ++ r)) (h : Going src dst d done e) :
    ∃ e', (merge sys src dst (front ++ r :: back) e = .ok e' ∨
        merge sys src dst (front ++ r :: back) e = .error e') ∧
      ∃ t ∈ front ++ r :: back, Lost src dst t e' := by
  induction front generalizing done e with
  | nil =>
      obtain ⟨e', hrun, hlost⟩ := h.merge_clash hquiet hapart hapart' hnodup hfiles hclash
      exact ⟨e', hrun, r, List.mem_cons_self, hlost⟩
  | cons r' front ih =>
      rw [List.cons_append] at hnodup hfiles ⊢
      by_cases hclash' : Clash d (src ++ r') (dst ++ r')
      · obtain ⟨e', hrun, hlost⟩ := h.merge_clash hquiet hapart hapart' hnodup hfiles hclash'
        exact ⟨e', hrun, r', List.mem_cons_self, hlost⟩
      · obtain ⟨hfile, hwait⟩ := hfiles r' List.mem_cons_self
        obtain ⟨c, hc⟩ := Disk.isfile_iff.mp hfile
        have hsrcdst := apart_append hapart hapart' r'
        have hdst : dst ++ r' ≠ [] := fun hnil => hsrcdst.2 (hnil ▸ List.nil_prefix)
        have hec := h.waiting r' c hc hwait
        obtain ⟨e₁, hrun⟩ := moveFile_quiet hquiet hdst hsrcdst.1 hec
          ((h.free_iff hapart hapart' hfile hwait).mpr (hfree r' List.mem_cons_self))
        obtain ⟨e₂, ⟨hrun', -, hplaced⟩ | ⟨-, hclashed, -⟩ | ⟨hrun', -⟩⟩ :=
          moveFile_cases sys hdst hsrcdst.2 hec
        · obtain rfl := Except.ok.inj (hrun.symm.trans hrun')
          have hrest : ∀ t ∈ front ++ r :: back, d.isfile (src ++ t) = true ∧ t ∉ r' :: done := by
            intro t ht
            obtain ⟨htfile, htwait⟩ := hfiles t (List.mem_cons_of_mem r' ht)
            refine ⟨htfile, ?_⟩
            rw [List.mem_cons, not_or]
            exact ⟨fun heq => (List.nodup_cons.mp hnodup).1 (heq ▸ ht), htwait⟩
          rw [merge, hrun]
          obtain ⟨e', hend, t, ht, hlost⟩ := ih (List.nodup_cons.mp hnodup).2 hrest
            (fun t ht => hfree t (List.mem_cons_of_mem r' ht)) (h.step hapart hapart' hc hplaced)
          exact ⟨e', hend, t, List.mem_cons_of_mem r' ht, hlost⟩
        · exact absurd ((h.clash_iff hapart hapart' hfile hwait).mp hclashed) hclash'
        · rw [hrun] at hrun'
          cases hrun'

end Merge

section Whole

variable {sys : System ν α} {src dst : List ν} {d e : Disk ν α} {done : List (List ν)}

-- What is done when no file is left to move.
def finish (sys : System ν α) (src : List ν) (d e : Disk ν α) : Outcome ν α :=
  if d.isfile src then .ok e
  else attempt sys (.rmtree src) e (clear src e (sys.cleared e)) (e.rmtree src)

omit [DecidableEq α] in
theorem node_clear (hsrc : src ≠ []) (rels : List (List ν)) (e : Disk ν α) (q : List ν) :
    (¬ src <+: q → (clear src e rels).node q = e.node q) ∧
      (e.node q = none → (clear src e rels).node q = none) := by
  induction rels generalizing e with
  | nil => exact ⟨fun _ => rfl, fun hnone => hnone⟩
  | cons rel rels ih =>
      have hnode := e.node_removed (p := src ++ rel) (by simp [hsrc]) q
      refine ⟨fun hq => ?_, fun hnone => (ih _).2 ?_⟩
      · rw [clear, List.foldl_cons]
        refine ((ih _).1 hq).trans ?_
        rw [hnode, if_neg fun hle => hq ((List.prefix_append src rel).trans hle)]
      · rw [hnode, hnone, ite_self]

omit [DecidableEq α] in
theorem finish_cases (sys : System ν α) (hsrc : src ≠ []) (d e : Disk ν α) :
    ∃ e', (finish sys src d e = .ok e' ∧ (d.isfile src = true ∧ e' = e ∨ e'.node src = none) ∨
        finish sys src d e = .error e') ∧
      ∀ q, (¬ src <+: q → e'.node q = e.node q) ∧ (e.node q = none → e'.node q = none) := by
  rw [finish]
  split_ifs with hfile
  · exact ⟨e, Or.inl ⟨rfl, Or.inl ⟨hfile, rfl⟩⟩, fun _ => ⟨fun _ => rfl, fun hnone => hnone⟩⟩
  · rcases attempt_cases sys (.rmtree src) e (clear src e (sys.cleared e)) (e.rmtree src) with
      ⟨e', hrm, heq⟩ | heq | heq
    · unfold Disk.rmtree at hrm
      split_ifs at hrm with hcond
      obtain rfl := Option.some.inj hrm
      have hnode := e.node_removed hsrc
      refine ⟨_, Or.inl ⟨heq, Or.inr ?_⟩, fun q => ⟨fun hq => ?_, fun hnone => ?_⟩⟩
      · rw [hnode, if_pos List.prefix_rfl]
      · rw [hnode, if_neg hq]
      · rw [hnode, hnone, ite_self]
    · exact ⟨e, Or.inr heq, fun _ => ⟨fun _ => rfl, fun hnone => hnone⟩⟩
    · exact ⟨_, Or.inr heq, node_clear hsrc _ e⟩

omit [DecidableEq α] in
theorem walk_of_file (h : d.isfile src = true) : walk d src = [[]] := by
  obtain ⟨c, hc⟩ := Disk.isfile_iff.mp h
  refine List.perm_singleton.mp ((List.perm_ext_iff_of_nodup (nodup_walk d src)
    (List.nodup_singleton [])).mpr fun r => ?_)
  rw [mem_walk, List.mem_singleton]
  constructor
  · intro hr
    obtain ⟨c', hc'⟩ := Disk.isfile_iff.mp hr
    exact Disk.eq_nil_of_file hc (by rw [hc']; simp)
  · rintro rfl
    rwa [List.append_nil]

theorem moveOrMerge_eq (sys : System ν α)
    (h : d.isfile src = true ∨ d.isdir src = true ∧ d.found dst = true) :
    moveOrMerge sys src dst d = (merge sys src dst (walk d src) d).bind (finish sys src d) := by
  rcases h with hfile | ⟨hdir, hfound⟩
  · rw [moveOrMerge, if_pos hfile, walk_of_file hfile, merge, List.append_nil, List.append_nil]
    cases moveFile sys src dst d with
    | ok e =>
        simp only [Except.bind, merge]
        rw [finish, if_pos hfile]
    | error e => rfl
  · have hfile : d.isfile src = false := by
      simp [Disk.isfile, Disk.isdir_iff.mp hdir]
    have hfinish : finish sys src d = fun e =>
        attempt sys (.rmtree src) e (clear src e (sys.cleared e)) (e.rmtree src) := by
      funext e
      rw [finish, if_neg (by simp [hfile])]
    rw [moveOrMerge, if_neg (by simp [hfile]), if_pos hdir, if_pos hfound, hfinish]

omit [DecidableEq α] in
-- The destination has none of the entries, so the whole of the source becomes it.
theorem succeeded_of_move (hapart' : ¬ dst <+: src) (hdst : d.node dst = none)
    (h : d.move src dst = some e) : Succeeded src dst d e := by
  have hne : src ≠ dst := fun heq => hapart' (heq ▸ List.prefix_rfl)
  have hdir : d.isdir dst = false := by simp [Disk.isdir, hdst]
  have hnode := Disk.node_of_move hne hdir h
  refine ⟨fun r c hc => (hnode r).trans hc, fun r c hc => ?_, Disk.node_src_of_move hne hdir hapart' h⟩
  rw [Disk.node_append_eq_none hdst] at hc
  cases hc

theorem contract_of_noClash (sys : System ν α) (hapart : ¬ src <+: dst) (hapart' : ¬ dst <+: src)
    (h : NoClash src dst d (walk d src)) : Contract src dst d (moveOrMerge sys src dst d) := by
  have hsrc : src ≠ [] := fun hnil => hapart (hnil ▸ List.nil_prefix)
  by_cases hmerge : d.isfile src = true ∨ d.isdir src = true ∧ d.found dst = true
  · have hout := not_prefix_append hapart hapart'
    obtain ⟨e, ⟨hrun, hgoing⟩ | ⟨hrun, hfailed⟩⟩ := merge_cases sys hapart hapart' (nodup_walk d src)
      (fun r hr => ⟨mem_walk.mp hr, List.not_mem_nil⟩) h (Going.start src dst d)
    · have hmem : ∀ r, r ∈ (walk d src).reverse ++ [] ↔ d.isfile (src ++ r) = true := fun r => by
        rw [List.append_nil, List.mem_reverse, mem_walk]
      have harrived : ∀ r c, d.node (src ++ r) = some (.file c) →
          e.node (dst ++ r) = some (.file c) := fun r c hc =>
        hgoing.moved r c hc ((hmem r).mpr (Disk.isfile_iff.mpr ⟨c, hc⟩))
      have hkept : ∀ r c, d.node (dst ++ r) = some (.file c) → e.node (dst ++ r) = some (.file c) :=
        fun r c hc => (hgoing.kept _ (hout r) (by simp [hc])).trans hc
      obtain ⟨e', hend, hnode⟩ := finish_cases sys hsrc d e
      have hwhole : moveOrMerge sys src dst d = finish sys src d e := by
        rw [moveOrMerge_eq sys hmerge, hrun]
        rfl
      rw [hwhole]
      rcases hend with ⟨hok, hgone⟩ | herror
      · rw [hok]
        refine contract_ok ⟨fun r c hc => ((hnode _).1 (hout r)).trans (harrived r c hc),
          fun r c hc => ((hnode _).1 (hout r)).trans (hkept r c hc), ?_⟩
        rcases hgone with ⟨hfile, rfl⟩ | hgone
        · have hnil := hgoing.gone [] ((hmem []).mpr (by rwa [List.append_nil]))
          rwa [List.append_nil] at hnil
        · exact hgone
      · rw [herror]
        exact contract_error ⟨fun r c hc => Or.inr (((hnode _).1 (hout r)).trans (harrived r c hc)),
          fun r c hc => ((hnode _).1 (hout r)).trans (hkept r c hc)⟩
    · have hwhole : moveOrMerge sys src dst d = .error e := by
        rw [moveOrMerge_eq sys hmerge, hrun]
        rfl
      rw [hwhole]
      exact contract_error hfailed
  · rw [not_or, not_and] at hmerge
    rw [moveOrMerge, if_neg hmerge.1]
    split_ifs with hdir hfound
    · exact absurd hfound (hmerge.2 hdir)
    · have hdst := Disk.not_found_iff.mp (Bool.eq_false_iff.mpr hfound)
      have hstay : Failed src dst d d := ⟨fun r c hc => Or.inl hc, fun r c hc => hc⟩
      rcases attempt_cases sys (.move src dst) d d (d.move src dst) with ⟨e, hmove, heq⟩ | heq | heq
      · rw [heq]
        exact contract_ok (succeeded_of_move hapart' hdst hmove)
      · rw [heq]
        exact contract_error hstay
      · rw [heq]
        exact contract_error hstay
    · -- nothing is there to move
      have hnone : d.node src = none := by
        cases hx : d.node src with
        | none => rfl
        | some x =>
            cases x with
            | dir => exact absurd (Disk.isdir_iff.mpr hx) hdir
            | file c => exact absurd (Disk.isfile_iff.mpr ⟨c, hx⟩) hmerge.1
      refine contract_ok ⟨fun r c hc => ?_, fun r c hc => hc, hnone⟩
      rw [Disk.node_append_eq_none hnone] at hc
      cases hc

-- The script keeps its contract, whatever the system refuses, exactly when the walk comes to
-- no file that has a directory in its place.
theorem moveOrMerge_contract_iff (hapart : ¬ src <+: dst) (hapart' : ¬ dst <+: src) :
    (∀ sys, Contract src dst d (moveOrMerge sys src dst d)) ↔ NoClash src dst d (walk d src) := by
  refine ⟨fun h => ?_, fun h sys => contract_of_noClash sys hapart hapart' h⟩
  by_contra hnot
  simp only [NoClash, not_forall, not_exists, not_and, not_not] at hnot
  obtain ⟨front, r, back, hwalk, hclash, hfree⟩ := hnot
  have hsrc : src ≠ [] := fun hnil => hapart (hnil ▸ List.nil_prefix)
  have hout := not_prefix_append hapart hapart'
  -- a system that refuses nothing
  let quiet : System ν α := ⟨fun _ _ => false, fun _ => 0, fun _ => []⟩
  have hquiet : quiet.Quiet := fun _ _ => rfl
  obtain ⟨e, hrun, t, ht, hlost⟩ := merge_clash hquiet hapart hapart'
    (hwalk ▸ nodup_walk d src) (fun r' hr' => ⟨mem_walk.mp (hwalk ▸ hr'), List.not_mem_nil⟩) hfree
    hclash (Going.start src dst d)
  rw [← hwalk] at hrun ht
  obtain ⟨c, hc⟩ := Disk.isfile_iff.mp (mem_walk.mp ht)
  have hmerge : d.isfile src = true ∨ d.isdir src = true ∧ d.found dst = true := by
    have hfound : d.found dst = true := by
      refine Disk.found_iff.mpr fun hnone => ?_
      have hdir := hclash.1
      rw [Disk.node_append_eq_none hnone] at hdir
      cases hdir
    by_cases hnil : t = []
    · rw [hnil, List.append_nil] at hc
      exact Or.inl (Disk.isfile_iff.mpr ⟨c, hc⟩)
    · exact Or.inr ⟨Disk.isdir_iff.mpr (Disk.node_of_append hnil (by simp [hc])), hfound⟩
  -- the file is at neither place at the end
  have hend : ∃ e', (moveOrMerge quiet src dst d = .ok e' ∨ moveOrMerge quiet src dst d = .error e') ∧
      Lost src dst t e' := by
    rw [moveOrMerge_eq quiet hmerge]
    rcases hrun with hrun | hrun
    · obtain ⟨e', hfinish, hnode⟩ := finish_cases quiet hsrc d e
      refine ⟨e', ?_, (hnode _).2 hlost.1, ((hnode _).1 (hout t)).trans hlost.2⟩
      rw [hrun]
      exact hfinish.imp_left And.left
    · exact ⟨e, Or.inr (by rw [hrun]; rfl), hlost⟩
  obtain ⟨e', hok | herror, hsrct, hdstt⟩ := hend
  · have harrived := ((h quiet).ok e' hok).arrived t c hc
    rw [hdstt] at harrived
    cases harrived
  · rcases ((h quiet).error e' herror).found t c hc with hfound | hfound
    · rw [hsrct] at hfound
      cases hfound
    · rw [hdstt] at hfound
      cases hfound

end Whole

section Refines

variable {sys : System ν α} {src dst p : List ν} {d e : Disk ν α}

omit [DecidableEq ν] [DecidableEq α] in
theorem eq_some_of_attempt {c : Call ν} {refused : Disk ν α} {result : Option (Disk ν α)}
    (h : attempt sys c d refused result = .ok e) : result = some e := by
  rcases attempt_cases sys c d refused result with ⟨e', hresult, heq⟩ | heq | heq
  · rw [hresult, Except.ok.inj (heq.symm.trans h)]
  · rw [heq] at h
    cases h
  · rw [heq] at h
    cases h

omit [DecidableEq α] in
theorem mkdirP_refines (h : mkdirP sys p d = .ok e) : MoveOrMerge.mkdirP d p = some e := by
  rw [mkdirP] at h
  rw [MoveOrMerge.mkdirP]
  split_ifs at h ⊢ with hfound
  · rw [Except.ok.inj h]
  · exact eq_some_of_attempt h

theorem moveFile_refines (h : moveFile sys src dst d = .ok e) :
    MoveOrMerge.moveFile src dst d = some e := by
  rw [MoveOrMerge.moveFile]
  cases hmade : mkdirP sys dst.dropLast d with
  | error e₁ =>
      rw [moveFile, hmade] at h
      cases h
  | ok e₁ =>
      rw [moveFile, hmade, Except.bind] at h
      rw [mkdirP_refines hmade, Option.bind_some]
      rcases hsrc : e₁.node src with _ | _ | a
      · simp only [hsrc] at h
        exact eq_some_of_attempt h
      · simp only [hsrc] at h
        exact eq_some_of_attempt h
      · rcases hdst : e₁.node dst with _ | _ | b
        · simp only [hsrc, hdst] at h
          exact eq_some_of_attempt h
        · simp only [hsrc, hdst] at h
          exact eq_some_of_attempt h
        · simp only [hsrc, hdst] at h
          split_ifs at h with hrefused hsame
          exact (if_pos hsame).trans (eq_some_of_attempt h)

theorem merge_refines {rels : List (List ν)} (h : merge sys src dst rels d = .ok e) :
    rels.foldlM (fun d rel => MoveOrMerge.moveFile (src ++ rel) (dst ++ rel) d) d = some e := by
  induction rels generalizing d with
  | nil => exact congrArg some (Except.ok.inj h)
  | cons rel rels ih =>
      cases hfile : moveFile sys (src ++ rel) (dst ++ rel) d with
      | error e₁ =>
          rw [merge, hfile] at h
          cases h
      | ok e₁ =>
          rw [merge, hfile, Except.bind] at h
          rw [List.foldlM_cons, moveFile_refines hfile]
          exact ih h

-- Where the script succeeds it does what it does on a system that refuses nothing.
theorem moveOrMerge_refines (h : moveOrMerge sys src dst d = .ok e) :
    MoveOrMerge.moveOrMerge src dst d = some e := by
  rw [moveOrMerge] at h
  rw [MoveOrMerge.moveOrMerge]
  split_ifs at h ⊢ with hfile hdir hfound
  · exact moveFile_refines h
  · cases hmerge : merge sys src dst (walk d src) d with
    | error e₁ =>
        rw [hmerge] at h
        cases h
    | ok e₁ =>
        rw [hmerge, Except.bind] at h
        rw [merge_refines hmerge, Option.bind_some]
        exact eq_some_of_attempt h
  · exact eq_some_of_attempt h
  · exact congrArg some (Except.ok.inj h)

end Refines

-- A file and a directory of one name.
namespace SameName

def entries : List (List Char × Node ℕ) :=
  [(['s'], .dir), (['s', 'a'], .file 1), (['t'], .dir), (['t', 'a'], .dir)]

theorem entries_nodup : (entries.map Prod.fst).Nodup := by decide

theorem entries_closed :
    ∀ e ∈ entries, e.1 ≠ [] ∧ (e.1.dropLast = [] ∨ (e.1.dropLast, Node.dir) ∈ entries) := by
  decide

def disk : Disk Char ℕ := ⟨entries, entries_nodup, entries_closed⟩

theorem file_inside : ¬ ∀ sys, Contract ['s'] ['t'] disk (moveOrMerge sys ['s'] ['t'] disk) := by
  intro h
  let quiet : System Char ℕ := ⟨fun _ _ => false, fun _ => 0, fun _ => []⟩
  have hnode : (moveOrMerge quiet ['s'] ['t'] disk).toOption.map
      (fun e => (e.node ['t', 'a'], e.node ['t', 'a', 'a'])) = some (some .dir, some (.file 1)) := by
    decide
  rcases hrun : moveOrMerge quiet ['s'] ['t'] disk with e | e
  · rw [hrun] at hnode
    cases hnode
  · rw [hrun] at hnode
    have harrived := ((h quiet).ok e hrun).arrived ['a'] 1 (by decide)
    have hdir : e.node ['t', 'a'] = some .dir := congrArg Prod.fst (Option.some.inj hnode)
    cases harrived.symm.trans hdir

theorem moveOrMerge_contract_iff_sameName :
    (∀ sys, Contract ['s'] ['t'] disk (moveOrMerge sys ['s'] ['t'] disk)) ↔
      NoClash ['s'] ['t'] disk (walk disk ['s']) :=
  moveOrMerge_contract_iff (by decide) (by decide)

end SameName

end Ccp.Worker.MoveOrMerge.Refusals
