import Ccp.Lib.Disk

namespace Ccp.Lib.Disk

variable {ν α : Type*} [DecidableEq ν]

-- The path of an entry after src has become dst.
def rekey (src dst p : List ν) : List ν :=
  if src.isPrefixOf p then dst ++ p.drop src.length else p

@[simp] theorem rekey_append (src dst p : List ν) : rekey src dst (src ++ p) = dst ++ p := by
  simp [rekey, List.isPrefixOf_iff_prefix]

theorem rekey_of_not_under {src p : List ν} (h : ¬ src <+: p) (dst : List ν) :
    rekey src dst p = p := by
  rw [rekey, if_neg (by simpa [List.isPrefixOf_iff_prefix] using h)]

-- What rename asks of the two paths: a file takes the place of a file, and a directory
-- that of an empty directory.
def renames (d : Disk ν α) (src dst : List ν) : Bool :=
  src ≠ [] && dst ≠ [] && !src.isPrefixOf dst && d.isdir dst.dropLast &&
    match d.node src, d.node dst with
    | none, _ => false
    | some _, none => true
    | some (.file _), some (.file _) => true
    | some .dir, some .dir => d.listdir dst = []
    | _, _ => false

structure Renames (d : Disk ν α) (src dst : List ν) : Prop where
  src_ne : src ≠ []
  dst_ne : dst ≠ []
  apart : ¬ src <+: dst
  parent : d.node dst.dropLast = some .dir
  src_found : d.node src ≠ none
  free : ∀ q, q ≠ [] → d.node (dst ++ q) = none
  same : ∀ x, d.node dst = some x → (x = .dir ↔ d.node src = some .dir)

theorem listdir_eq_nil {d : Disk ν α} {p q : List ν} (h : d.listdir p = []) (hq : q ≠ []) :
    d.node (p ++ q) = none := by
  obtain ⟨n, q, rfl⟩ := List.exists_cons_of_ne_nil hq
  have hn : d.node (p ++ [n]) = none := by
    by_contra hne
    have hmem := mem_listdir.mpr hne
    rw [h] at hmem
    cases hmem
  rw [List.append_cons]
  exact node_append_eq_none hn q

theorem renames_of_eq_true {d : Disk ν α} {src dst : List ν} (h : d.renames src dst = true) :
    d.Renames src dst := by
  simp only [renames, Bool.and_eq_true, decide_eq_true_eq, Bool.not_eq_true',
    Bool.eq_false_iff, ne_eq, List.isPrefixOf_iff_prefix, isdir_iff] at h
  obtain ⟨⟨⟨⟨hsrc, hdst⟩, hapart⟩, hparent⟩, hkind⟩ := h
  cases hs : d.node src with
  | none => simp [hs] at hkind
  | some x =>
      cases hd : d.node dst with
      | none =>
          exact ⟨hsrc, hdst, hapart, hparent, by simp [hs], fun q _ => node_append_eq_none hd q,
            by simp [hd]⟩
      | some y =>
          cases x <;> cases y <;> simp only [hs, hd, decide_eq_true_eq] at hkind
          · exact ⟨hsrc, hdst, hapart, hparent, by simp [hs], fun q hq => listdir_eq_nil hkind hq,
              by simp [hs, hd]⟩
          · cases hkind
          · cases hkind
          · refine ⟨hsrc, hdst, hapart, hparent, by simp [hs], fun q hq => ?_, by simp [hs, hd]⟩
            by_contra hne
            exact hq (eq_nil_of_file hd hne)

-- The entries after a rename.
def renamed (d : Disk ν α) (src dst : List ν) : Dict (List ν) (Node α) :=
  (d.entries.filter (·.1 ≠ dst)).map fun e => (rekey src dst e.1, e.2)

theorem mem_renamed {d : Disk ν α} {src dst p : List ν} {x : Node α} :
    (p, x) ∈ d.renamed src dst ↔
      ∃ q, (q, x) ∈ d.entries ∧ q ≠ dst ∧ rekey src dst q = p := by
  simp only [renamed, List.mem_map, List.mem_filter, decide_eq_true_eq, Prod.mk.injEq]
  constructor
  · rintro ⟨e, ⟨he, hne⟩, hkey, rfl⟩
    exact ⟨e.1, he, hne, hkey⟩
  · rintro ⟨q, hq, hne, hkey⟩
    exact ⟨(q, x), ⟨hq, hne⟩, hkey, rfl⟩

-- No other entry comes to a path under the new one.
theorem rekey_eq_append_iff {d : Disk ν α} {src dst q r : List ν} {x : Node α}
    (h : d.Renames src dst) (hq : (q, x) ∈ d.entries) (hne : q ≠ dst) :
    rekey src dst q = dst ++ r ↔ q = src ++ r := by
  by_cases hsrc : src <+: q
  · obtain ⟨t, rfl⟩ := hsrc
    rw [rekey_append, List.append_right_inj, List.append_right_inj]
  · rw [rekey_of_not_under hsrc]
    constructor
    · rintro rfl
      have hr : r ≠ [] := fun hnil => hne (by rw [hnil, List.append_nil])
      rw [← node_eq_some_iff (d.closed _ hq).1, h.free r hr] at hq
      cases hq
    · rintro rfl
      exact absurd (List.prefix_append src r) hsrc

theorem rekey_injOn {d : Disk ν α} {src dst q q' : List ν} {x x' : Node α}
    (h : d.Renames src dst) (hq : (q, x) ∈ d.entries) (hne : q ≠ dst) (hq' : (q', x') ∈ d.entries)
    (hne' : q' ≠ dst) (heq : rekey src dst q = rekey src dst q') : q = q' := by
  by_cases hsrc : src <+: q
  · obtain ⟨t, rfl⟩ := hsrc
    rw [rekey_append] at heq
    exact ((rekey_eq_append_iff h hq' hne').mp heq.symm).symm
  · by_cases hsrc' : src <+: q'
    · obtain ⟨t, rfl⟩ := hsrc'
      rw [rekey_append] at heq
      exact (rekey_eq_append_iff h hq hne).mp heq
    · rwa [rekey_of_not_under hsrc, rekey_of_not_under hsrc'] at heq

theorem nodup_renamed {d : Disk ν α} {src dst : List ν} (h : d.Renames src dst) :
    ((d.renamed src dst).map Prod.fst).Nodup := by
  have hmap : (d.renamed src dst).map Prod.fst =
      ((d.entries.filter (·.1 ≠ dst)).map Prod.fst).map (rekey src dst) := by
    rw [renamed, List.map_map, List.map_map]
    rfl
  rw [hmap]
  refine List.Nodup.map_on ?_ (d.nodup.sublist (List.filter_sublist.map Prod.fst))
  intro q hq q' hq' heq
  obtain ⟨e, he, rfl⟩ := List.mem_map.mp hq
  obtain ⟨e', he', rfl⟩ := List.mem_map.mp hq'
  rw [List.mem_filter, decide_eq_true_eq] at he he'
  exact rekey_injOn h he.1 he.2 he'.1 he'.2 heq

theorem closed_renamed {d : Disk ν α} {src dst : List ν} (h : d.Renames src dst) :
    ∀ e ∈ d.renamed src dst,
      e.1 ≠ [] ∧ (e.1.dropLast = [] ∨ (e.1.dropLast, Node.dir) ∈ d.renamed src dst) := by
  rintro ⟨p, x⟩ hmem
  obtain ⟨q, hq, hne, rfl⟩ := mem_renamed.mp hmem
  obtain ⟨hnil, hparent⟩ := d.closed _ hq
  by_cases hsrc : src <+: q
  · obtain ⟨t, rfl⟩ := hsrc
    rw [rekey_append]
    refine ⟨by simp [h.dst_ne], ?_⟩
    by_cases ht : t = []
    · -- the new path itself, in the directory that it was given
      rw [ht, List.append_nil]
      by_cases hdst : dst.dropLast = []
      · exact Or.inl hdst
      · have happart : ¬ src <+: dst.dropLast := fun hle =>
          h.apart (hle.trans (List.dropLast_prefix dst))
        refine Or.inr (mem_renamed.mpr ⟨dst.dropLast, (node_eq_some_iff hdst).mp h.parent, ?_,
          rekey_of_not_under happart dst⟩)
        intro heq
        have hlen := congrArg List.length heq
        have hpos := List.length_pos_of_ne_nil h.dst_ne
        rw [List.length_dropLast] at hlen
        omega
    · rw [List.dropLast_append_of_ne_nil ht] at hparent ⊢
      have hdir : (src ++ t.dropLast, Node.dir) ∈ d.entries :=
        hparent.resolve_left (by simp [h.src_ne])
      refine Or.inr (mem_renamed.mpr ⟨_, hdir, ?_, rekey_append src dst t.dropLast⟩)
      exact fun heq => h.apart (heq ▸ List.prefix_append src t.dropLast)
  · rw [rekey_of_not_under hsrc]
    refine ⟨hnil, hparent.imp_right fun hdir => mem_renamed.mpr ⟨_, hdir, ?_, ?_⟩⟩
    · intro heq
      have hlast := List.dropLast_append_getLast hnil
      rw [heq] at hlast
      rw [← node_eq_some_iff hnil, ← hlast, h.free _ (by simp)] at hq
      cases hq
    · exact rekey_of_not_under (fun hle => hsrc (hle.trans (List.dropLast_prefix q))) dst

-- os.rename
def rename (d : Disk ν α) (src dst : List ν) : Option (Disk ν α) :=
  if src = dst then if d.found src then some d else none
  else if h : d.renames src dst = true then
    some ⟨d.renamed src dst, nodup_renamed (renames_of_eq_true h),
      closed_renamed (renames_of_eq_true h)⟩
  else none

theorem rename_eq_some {d d' : Disk ν α} {src dst : List ν} (hne : src ≠ dst)
    (h : d.rename src dst = some d') :
    d.Renames src dst ∧ ∀ q, d'.node q =
      if dst <+: q then d.node (src ++ q.drop dst.length)
      else if src <+: q then none else d.node q := by
  unfold rename at h
  rw [if_neg hne] at h
  split_ifs at h with hren
  cases h
  have hr := renames_of_eq_true hren
  refine ⟨hr, fun q => ?_⟩
  by_cases hq : q = []
  · have hdst : ¬ dst <+: [] := fun hle => hr.dst_ne (List.prefix_nil.mp hle)
    have hsrc : ¬ src <+: [] := fun hle => hr.src_ne (List.prefix_nil.mp hle)
    rw [hq, if_neg hdst, if_neg hsrc, node_nil, node_nil]
  · ext x
    rw [node_eq_some_iff hq, mem_renamed]
    by_cases hdst : dst <+: q
    · obtain ⟨r, rfl⟩ := hdst
      have hsrc : src ++ r ≠ [] := by simp [hr.src_ne]
      rw [if_pos (List.prefix_append dst r), List.drop_left, node_eq_some_iff hsrc]
      constructor
      · rintro ⟨p, hp, hpne, hkey⟩
        rwa [(rekey_eq_append_iff hr hp hpne).mp hkey] at hp
      · intro hmem
        refine ⟨_, hmem, ?_, rekey_append src dst r⟩
        exact fun heq => hr.apart (heq ▸ List.prefix_append src r)
    · have hkey : ∀ p, rekey src dst p = q ↔ p = q ∧ ¬ src <+: q := by
        intro p
        by_cases hp : src <+: p
        · obtain ⟨t, rfl⟩ := hp
          rw [rekey_append]
          constructor
          · rintro rfl
            exact absurd (List.prefix_append dst t) hdst
          · rintro ⟨rfl, hnot⟩
            exact absurd (List.prefix_append src t) hnot
        · rw [rekey_of_not_under hp]
          exact ⟨fun heq => ⟨heq, heq ▸ hp⟩, And.left⟩
      have hqdst : q ≠ dst := fun heq => hdst (heq ▸ List.prefix_rfl)
      simp only [hkey]
      rw [if_neg hdst]
      split_ifs with hsrc
      · simp [hsrc]
      · rw [node_eq_some_iff hq]
        constructor
        · rintro ⟨p, hp, -, rfl, -⟩
          exact hp
        · exact fun hmem => ⟨q, hmem, hqdst, rfl, hsrc⟩

-- A rename, or where it fails for want of directories a copy of the directory, which
-- makes them.
def renameOrCopy (d : Disk ν α) (src dst : List ν) : Option (Disk ν α) :=
  if d.isdir src ∧ d.found dst.dropLast = false then
    (d.makedirs dst.dropLast).bind fun d => d.rename src dst
  else d.rename src dst

-- shutil.move, for a source that is not the top of the disk.
def move (d : Disk ν α) (src dst : List ν) : Option (Disk ν α) :=
  if d.isdir dst then
    if src = dst then some d
    else
      let realDst := dst ++ src.getLast?.toList
      if d.found realDst then none else d.renameOrCopy src realDst
  else d.renameOrCopy src dst

theorem renameOrCopy_of_parent {d : Disk ν α} {src dst : List ν}
    (h : d.isdir src = false ∨ d.node dst.dropLast = some .dir) :
    d.renameOrCopy src dst = d.rename src dst := by
  rw [renameOrCopy, if_neg]
  rintro ⟨hsrc, hdst⟩
  rcases h with hfile | hparent
  · rw [hfile] at hsrc
    cases hsrc
  · rw [not_found_iff, hparent] at hdst
    cases hdst

-- What a move between two paths does.
structure Moved (d d' : Disk ν α) (src dst : List ν) : Prop extends d.Renames src dst where
  node_eq : ∀ q, d'.node q =
    if dst <+: q then d.node (src ++ q.drop dst.length) else if src <+: q then none else d.node q

theorem move_eq_some {d d' : Disk ν α} {src dst : List ν} (hne : src ≠ dst) (hsrc : src ≠ [])
    (hparent : d.isdir src = false ∨ d.node dst.dropLast = some .dir)
    (h : d.move src dst = some d') :
    (d.isdir dst = false ∧ Moved d d' src dst) ∨
      (d.isdir dst = true ∧ d.node (dst ++ src.getLast?.toList) = none ∧
        Moved d d' src (dst ++ src.getLast?.toList)) := by
  unfold move at h
  by_cases hdir : d.isdir dst = true
  · right
    simp only [hdir, if_true, if_neg hne] at h
    split_ifs at h with hfound
    have hnone : d.node (dst ++ src.getLast?.toList) = none :=
      not_found_iff.mp (Bool.eq_false_iff.mpr hfound)
    have hlast : src.getLast?.toList = [src.getLast hsrc] := by
      rw [List.getLast?_eq_some_getLast hsrc, Option.toList_some]
    have hparent' : d.node (dst ++ src.getLast?.toList).dropLast = some .dir := by
      rw [hlast, List.dropLast_concat]
      exact isdir_iff.mp hdir
    rw [renameOrCopy_of_parent (Or.inr hparent')] at h
    have hreal : src ≠ dst ++ src.getLast?.toList := by
      intro heq
      rw [← heq, rename, if_pos rfl, heq, if_neg hfound] at h
      cases h
    obtain ⟨hren, hnode⟩ := rename_eq_some hreal h
    exact ⟨hdir, hnone, hren, hnode⟩
  · left
    rw [if_neg hdir, renameOrCopy_of_parent hparent] at h
    obtain ⟨hren, hnode⟩ := rename_eq_some hne h
    exact ⟨Bool.eq_false_iff.mpr hdir, hren, hnode⟩

-- A file can go to a free place in a directory.
theorem exists_rename {d : Disk ν α} {src dst : List ν} {c : α} (hsrc : d.node src = some (.file c))
    (hdst : dst ≠ []) (hapart : ¬ src <+: dst) (hparent : d.node dst.dropLast = some .dir)
    (hfree : d.node dst = none) : ∃ d', d.rename src dst = some d' := by
  have hne : src ≠ dst := fun heq => hapart (heq ▸ List.prefix_rfl)
  have hsrcne : src ≠ [] := by
    rintro rfl
    cases hsrc
  have hnot : src.isPrefixOf dst = false := by
    rwa [Bool.eq_false_iff, Ne, List.isPrefixOf_iff_prefix]
  have hrenames : d.renames src dst = true := by
    simp [renames, hsrcne, hdst, hnot, isdir_iff.mpr hparent, hsrc, hfree]
  exact ⟨_, by rw [rename, if_neg hne, dif_pos hrenames]⟩

theorem exists_move {d : Disk ν α} {src dst : List ν} {c : α} (hsrc : d.node src = some (.file c))
    (hdst : dst ≠ []) (hapart : ¬ src <+: dst) (hparent : d.node dst.dropLast = some .dir)
    (hfree : d.node dst = none ∨
      d.node dst = some .dir ∧ d.node (dst ++ src.getLast?.toList) = none) :
    ∃ d', d.move src dst = some d' := by
  have hfile : d.isdir src = false := by simp [isdir, hsrc]
  have hsrcne : src ≠ [] := by
    rintro rfl
    cases hsrc
  have hne : src ≠ dst := fun heq => hapart (heq ▸ List.prefix_rfl)
  rw [move]
  rcases hfree with hnone | ⟨hdir, hnone⟩
  · rw [if_neg (by simp [isdir, hnone]), renameOrCopy_of_parent (Or.inl hfile)]
    exact exists_rename hsrc hdst hapart hparent hnone
  · rw [if_pos (isdir_iff.mpr hdir), if_neg hne, if_neg (by simp [not_found_iff.mpr hnone]),
      renameOrCopy_of_parent (Or.inl hfile)]
    have hlast : src.getLast?.toList = [src.getLast hsrcne] := by
      rw [List.getLast?_eq_some_getLast hsrcne, Option.toList_some]
    rw [hlast] at hnone ⊢
    refine exists_rename hsrc (by simp) ?_ (by rwa [List.dropLast_concat]) hnone
    rw [List.prefix_concat_iff]
    rintro (heq | hle)
    · rw [← heq, hsrc] at hnone
      cases hnone
    · exact hapart hle

namespace Moved

variable {d d' : Disk ν α} {src dst : List ν}

theorem node_dst (h : Moved d d' src dst) (q : List ν) : d'.node (dst ++ q) = d.node (src ++ q) := by
  rw [h.node_eq, if_pos (List.prefix_append dst q), List.drop_left]

theorem node_src (h : Moved d d' src dst) (hnot : ¬ dst <+: src) (q : List ν) :
    d'.node (src ++ q) = none := by
  rw [h.node_eq, if_pos (List.prefix_append src q), if_neg]
  intro hle
  rcases List.prefix_or_prefix_of_prefix hle (List.prefix_append src q) with hdst | hsrc
  · exact hnot hdst
  · exact h.apart hsrc

theorem node_of_apart (h : Moved d d' src dst) {q : List ν} (hsrc : ¬ src <+: q)
    (hdst : ¬ dst <+: q) : d'.node q = d.node q := by
  rw [h.node_eq, if_neg hdst, if_neg hsrc]

-- A file that is not in what is moved, and not overwritten, stays where it is.
theorem node_stays (h : Moved d d' src dst) {q : List ν} (hsrc : ¬ src <+: q)
    (hfree : d.node dst = none) (hq : d.node q ≠ none) : d'.node q = d.node q := by
  refine h.node_of_apart hsrc ?_
  rintro ⟨r, rfl⟩
  exact hq (node_append_eq_none hfree r)

-- A file that comes to a free place changes nothing anywhere else.
theorem node_outside (h : Moved d d' src dst) {c : α} (hsrc : d.node src = some (.file c))
    (hdst : d.node dst = none) {q : List ν} (hq : ¬ src <+: q) (hne : q ≠ dst) :
    d'.node q = d.node q := by
  by_cases hle : dst <+: q
  · obtain ⟨r, rfl⟩ := hle
    have hr : r ≠ [] := fun hnil => hne (by rw [hnil, List.append_nil])
    rw [h.node_dst, node_append_eq_none hdst]
    by_contra hfound
    exact hr (eq_nil_of_file hsrc hfound)
  · exact h.node_of_apart hq hle

end Moved

-- What goes to a place that is no directory comes with all that is in it, whatever had to
-- be made for it.
theorem node_of_move {d d' : Disk ν α} {src dst : List ν} (hne : src ≠ dst)
    (hdst : d.isdir dst = false) (h : d.move src dst = some d') (q : List ν) :
    d'.node (dst ++ q) = d.node (src ++ q) := by
  unfold move renameOrCopy at h
  rw [if_neg (by simp [hdst])] at h
  split_ifs at h with hparent
  · obtain ⟨e, he, hrename⟩ := Option.bind_eq_some_iff.mp h
    obtain ⟨hren, hnode⟩ := rename_eq_some hne hrename
    rw [Moved.node_dst ⟨hren, hnode⟩]
    obtain ⟨-, hmade, hkept⟩ := makedirs_eq_some he
    by_cases hq : d.node (src ++ q) = none
    · rw [hmade, if_neg, hq]
      -- nothing is made in the source, or the destination would be in it
      intro hle
      exact hren.apart (((List.prefix_append src q).trans hle).trans (List.dropLast_prefix dst))
    · exact hkept _ hq
  · obtain ⟨hren, hnode⟩ := rename_eq_some hne h
    exact Moved.node_dst ⟨hren, hnode⟩ q

-- The source is gone then.
theorem node_src_of_move {d d' : Disk ν α} {src dst : List ν} (hne : src ≠ dst)
    (hdst : d.isdir dst = false) (hapart : ¬ dst <+: src) (h : d.move src dst = some d') :
    d'.node src = none := by
  have hgone : ∀ e : Disk ν α, e.rename src dst = some d' → d'.node src = none := by
    intro e hrename
    obtain ⟨hren, hnode⟩ := rename_eq_some hne hrename
    simpa using Moved.node_src ⟨hren, hnode⟩ hapart []
  unfold move renameOrCopy at h
  rw [if_neg (by simp [hdst])] at h
  split_ifs at h with hparent
  · obtain ⟨e, -, hrename⟩ := Option.bind_eq_some_iff.mp h
    exact hgone e hrename
  · exact hgone d h

theorem nodup_written {d : Disk ν α} (p : List ν) (c : α) :
    ((d.entries.filter (·.1 ≠ p) ++ [(p, Node.file c)]).map Prod.fst).Nodup := by
  rw [List.map_append, List.nodup_append]
  refine ⟨d.nodup.sublist (List.filter_sublist.map Prod.fst), List.nodup_singleton p, ?_⟩
  rintro q hq q' hq' rfl
  rw [List.map_cons, List.map_nil, List.mem_singleton] at hq'
  obtain ⟨e, he, rfl⟩ := List.mem_map.mp hq
  rw [List.mem_filter, decide_eq_true_eq] at he
  exact he.2 hq'

theorem closed_written {d : Disk ν α} {p : List ν} (h : d.isdir p = false ∧ d.isdir p.dropLast = true)
    (c : α) : ∀ e ∈ d.entries.filter (·.1 ≠ p) ++ [(p, Node.file c)],
      e.1 ≠ [] ∧ (e.1.dropLast = [] ∨
        (e.1.dropLast, Node.dir) ∈ d.entries.filter (·.1 ≠ p) ++ [(p, Node.file c)]) := by
  -- a directory is not the path that is written
  have hmem : ∀ q, d.node q = some .dir →
      q = [] ∨ (q, Node.dir) ∈ d.entries.filter (·.1 ≠ p) ++ [(p, Node.file c)] := by
    intro q hq
    by_cases hnil : q = []
    · exact Or.inl hnil
    · refine Or.inr (List.mem_append_left _ (List.mem_filter.mpr ?_))
      refine ⟨(node_eq_some_iff hnil).mp hq, ?_⟩
      rw [decide_eq_true_eq]
      rintro rfl
      rw [isdir_iff.mpr hq] at h
      cases h.1
  intro e he
  rw [List.mem_append, List.mem_singleton] at he
  rcases he with he | rfl
  · obtain ⟨hne, hparent⟩ := d.closed e (List.mem_filter.mp he).1
    refine ⟨hne, hmem _ ?_⟩
    rcases hparent with hnil | hdir
    · rw [hnil, node_nil]
    · by_cases hnil : e.1.dropLast = []
      · rw [hnil, node_nil]
      · exact (node_eq_some_iff hnil).mpr hdir
  · refine ⟨?_, hmem _ (isdir_iff.mp h.2)⟩
    rintro rfl
    cases h.1

-- A file with the content, in the place of a file that may be there.
def write (d : Disk ν α) (p : List ν) (c : α) : Option (Disk ν α) :=
  if h : d.isdir p = false ∧ d.isdir p.dropLast = true then
    some ⟨d.entries.filter (·.1 ≠ p) ++ [(p, .file c)], nodup_written p c, closed_written h c⟩
  else none

theorem write_eq_some {d d' : Disk ν α} {p : List ν} {c : α} (h : d.write p c = some d') (q : List ν) :
    d'.node q = if q = p then some (.file c) else d.node q := by
  unfold write at h
  split_ifs at h with hp
  cases h
  by_cases hq : q = []
  · have hne : ¬ [] = p := by
      rintro rfl
      cases hp.1
    rw [hq, if_neg hne, node_nil, node_nil]
  · ext x
    rw [node_eq_some_iff hq]
    by_cases heq : q = p
    · simp [heq, eq_comm]
    · simp [heq, node_eq_some_iff hq]

-- A new entry, where there is none and its directory is there.
def make (d : Disk ν α) (p : List ν) : Node α → Disk ν α
  | .dir => (d.mkdir p).getD d
  | .file c => if d.found p then d else (d.write p c).getD d

theorem node_make {d : Disk ν α} {q : List ν} {y : Node α} (h : d.node q = some y) (p : List ν)
    (x : Node α) : (d.make p x).node q = some y := by
  cases x with
  | dir =>
      rw [make]
      cases hmkdir : d.mkdir p with
      | none => exact h
      | some d' =>
          obtain ⟨hnone, -, hnode⟩ := mkdir_eq_some hmkdir
          have hne : q ≠ p := by
            rintro rfl
            rw [hnone] at h
            cases h
          rw [Option.getD_some, hnode, if_neg hne, h]
  | file c =>
      rw [make]
      split_ifs with hfound
      · exact h
      · cases hwrite : d.write p c with
        | none => exact h
        | some d' =>
            have hne : q ≠ p := by
              rintro rfl
              exact hfound (found_iff.mpr (by simp [h]))
            rw [Option.getD_some, write_eq_some hwrite, if_neg hne, h]

-- shutil.copy
def copy (d : Disk ν α) (src dst : List ν) : Option (Disk ν α) :=
  match d.node src with
  | some (.file c) =>
      let realDst := if d.isdir dst then dst ++ src.getLast?.toList else dst
      if realDst = src then none else d.write realDst c
  | _ => none

theorem node_of_copy {d d' : Disk ν α} {src dst : List ν} (h : d.copy src dst = some d')
    {q : List ν} (hq : ¬ dst <+: q) : d'.node q = d.node q := by
  unfold copy at h
  split at h
  · dsimp only at h
    split_ifs at h with _ hsame hsame
    · rw [write_eq_some h, if_neg]
      rintro rfl
      exact hq (List.prefix_append _ _)
    · rw [write_eq_some h, if_neg]
      rintro rfl
      exact hq List.prefix_rfl
  · cases h

end Ccp.Lib.Disk
