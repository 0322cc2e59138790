import Ccp.Worker.TrimRestructure

namespace Ccp.Worker.TrimRestructure

open Lib FileOperations

variable {α : Type*} {u : UnitRef} {s s' : State α} {t t' : Transfer α}

-- What one move changes, whatever state it starts from.

theorem node_of_move {d d' : Disk Name α} {src dst q : List Name} (hne : src ≠ dst) (hsrc : src ≠ [])
    (hparent : d.isdir src = false ∨ d.node dst.dropLast = some .dir) (h : d.move src dst = some d')
    (hq : ¬ src <+: q) (hq' : ¬ dst <+: q) : d'.node q = d.node q := by
  rcases Disk.move_eq_some hne hsrc hparent h with ⟨-, hmoved⟩ | ⟨-, -, hmoved⟩
  · exact hmoved.node_of_apart hq hq'
  · exact hmoved.node_of_apart hq fun hle => hq' ((List.prefix_append dst _).trans hle)

-- The row of the file that is moved.
def relocated (u : UnitRef) (src dst : List Name) (f : File) : File :=
  if u.owns f && f.currentlocation = u.location src then
    { f with currentlocation := u.location dst } else f

theorem relocated_of_ne {src dst p : List Name} {f : File} (hf : f.currentlocation = u.location p)
    (hp : p ≠ src) : relocated u src dst f = f := by
  rw [relocated, hf, if_neg]
  rw [Bool.and_eq_true, decide_eq_true_eq]
  exact fun h => hp (UnitRef.location_injective h.2)

theorem relocated_of_eq {src dst : List Name} {f : File} (howns : u.owns f = true)
    (hf : f.currentlocation = u.location src) :
    (relocated u src dst f).currentlocation = u.location dst := by
  rw [relocated, hf, howns, if_pos (by simp)]

theorem relocated_uuid (src dst : List Name) (f : File) : (relocated u src dst f).uuid = f.uuid := by
  unfold relocated
  split_ifs
  · rfl
  · rfl

theorem relocated_owns (src dst : List Name) (f : File) :
    u.owns (relocated u src dst f) = u.owns f := by
  unfold relocated
  split_ifs
  · rfl
  · rfl

theorem updateFileLocation2_cases {src dst : List Name} (h : updateFileLocation2 u src dst s = some s') :
    (∃ f ∈ s.files, u.owns f = true ∧ f.currentlocation = u.location src) ∧
      s.disk.move src dst = some s'.disk ∧ s'.files = s.files.map (relocated u src dst) := by
  unfold updateFileLocation2 at h
  dsimp only at h
  split at h
  · next f hf =>
      obtain ⟨disk, hmove, rfl⟩ := Option.map_eq_some_iff.mp h
      have hmem : f ∈ s.files.filter fun f => u.owns f && f.currentlocation = u.location src :=
        hf ▸ List.mem_singleton_self f
      rw [List.mem_filter, Bool.and_eq_true, decide_eq_true_eq] at hmem
      exact ⟨⟨f, hmem.1, hmem.2.1, hmem.2.2⟩, hmove, rfl⟩
  · cases h

-- What the rows are after a step: those below a path of the top level can be others.
structure Rows (u : UnitRef) (items : List Name) (t t' : Transfer α) : Prop where
  exists_map : ∃ g : File → File, t'.files = t.files.map g ∧
    (∀ f, (g f).uuid = f.uuid ∧ u.owns (g f) = u.owns f) ∧
    ∀ f p, f.currentlocation = u.location p →
      (∀ m ∈ items, isRequired m = false → ¬ [m] <+: p) → g f = f

theorem Rows.refl (items : List Name) (t : Transfer α) : Rows u items t t :=
  ⟨id, (List.map_id _).symm, fun _ => ⟨rfl, rfl⟩, fun _ _ _ _ => rfl⟩

theorem Rows.trans {items items' : List Name} {t'' : Transfer α} (h : Rows u items t t')
    (h' : Rows u items' t' t'') : Rows u (items ++ items') t t'' := by
  obtain ⟨g, hg, hkept, hsame⟩ := h.exists_map
  obtain ⟨g', hg', hkept', hsame'⟩ := h'.exists_map
  refine ⟨g' ∘ g, by rw [hg', hg, List.map_map], fun f => ?_, fun f p hf hp => ?_⟩
  · exact ⟨(hkept' (g f)).1.trans (hkept f).1, (hkept' (g f)).2.trans (hkept f).2⟩
  · have hfirst : g f = f := hsame f p hf fun m hm => hp m (List.mem_append_left _ hm)
    rw [Function.comp_apply, hfirst]
    exact hsame' f p hf fun m hm => hp m (List.mem_append_right _ hm)

theorem Rows.of_move {item : Name} {src dst : List Name} (hitem : isRequired item = false)
    (hsrc : [item] <+: src) (hfiles : t'.files = t.files.map (relocated u src dst)) :
    Rows u [item] t t' := by
  refine ⟨relocated u src dst, hfiles, fun f => ⟨relocated_uuid src dst f, relocated_owns src dst f⟩,
    fun f p hf hp => relocated_of_ne hf ?_⟩
  rintro rfl
  exact hp item (List.mem_singleton_self item) hitem hsrc

theorem Rows.mono {items items' : List Name} (h : Rows u items t t')
    (hsub : ∀ m ∈ items, m ∈ items') : Rows u items' t t' := by
  obtain ⟨g, hg, hkept, hsame⟩ := h.exists_map
  exact ⟨g, hg, hkept, fun f p hf hp => hsame f p hf fun m hm => hp m (hsub m hm)⟩

-- The paths that the step for an item does not touch.
def Apart (d : Disk Name α) (item : Name) (q : List Name) : Prop :=
  isRequired item = false → ¬ [item] <+: q ∧ ¬ [objects, item] <+: q ∧
    (d.isdir [item] = false → ¬ destination item <+: q)

-- The parts of a container, one after the other.
structure Contained (u : UnitRef) (item : Name) (t t' : Transfer α) : Prop where
  node : ∀ q, ¬ [item] <+: q → ¬ [objects, item] <+: q → t'.disk.node q = t.disk.node q
  dir : t'.disk.node [objects, item] = some .dir
  rows : Rows u [item] t t'

theorem moveContained_frame {item item2 : Name} (hitem : isRequired item = false)
    (hdir : t.disk.node [objects, item] = some .dir) (h : moveContained u item t item2 = some t') :
    Contained u item t t' := by
  obtain ⟨s, hs, rfl⟩ := Option.map_eq_some_iff.mp h
  obtain ⟨-, hmove, hfiles⟩ := updateFileLocation2_cases hs
  have hobjects : item ≠ objects := by
    rintro rfl
    exact absurd hitem (by decide)
  have hne : [item, item2] ≠ [objects, item, item2] := fun heq => hobjects (List.cons.inj heq).1
  have hnode : ∀ q, ¬ [item, item2] <+: q → ¬ [objects, item, item2] <+: q →
      s.disk.node q = t.disk.node q := fun q hq hq' =>
    node_of_move hne (by simp) (Or.inr hdir) hmove hq hq'
  refine ⟨fun q hq hq' => hnode q (fun hle => hq ?_) fun hle => hq' ?_, ?_, ?_⟩
  · exact (List.prefix_append [item] [item2]).trans hle
  · exact (List.prefix_append [objects, item] [item2]).trans hle
  · refine (hnode _ ?_ ?_).trans hdir
    · intro hle
      exact hobjects (List.cons_prefix_cons.mp hle).1
    · intro hle
      exact absurd hle.length_le (by simp)
  · exact Rows.of_move hitem (List.prefix_append [item] [item2]) hfiles

theorem foldlM_moveContained_frame {item : Name} {rest : List Name} (hitem : isRequired item = false)
    (hdir : t.disk.node [objects, item] = some .dir)
    (h : rest.foldlM (moveContained u item) t = some t') : Contained u item t t' := by
  induction rest generalizing t with
  | nil =>
      obtain rfl := Option.some.inj h
      exact ⟨fun _ _ _ => rfl, hdir, Rows.refl [item] t⟩
  | cons item2 rest ih =>
      obtain ⟨mid, hmid, hrest⟩ := Option.bind_eq_some_iff.mp h
      have hfirst := moveContained_frame hitem hdir hmid
      have hlast := ih hfirst.dir hrest
      refine ⟨fun q hq hq' => (hlast.node q hq hq').trans (hfirst.node q hq hq'), hlast.dir, ?_⟩
      exact (hfirst.rows.trans hlast.rows).mono (by simp)

-- The steps of a container: its new directory, its entries, the old directory.
structure Steps (u : UnitRef) (item : Name) (t t' : Transfer α) where
  made : Disk Name α
  moved : Transfer α
  mkdir : t.disk.mkdir [objects, item] = some made
  run : (made.listdir [item]).foldlM (moveContained u item) { t with disk := made } = some moved
  rmdir : moved.disk.rmdir [item] = some t'.disk
  files : t'.files = moved.files
  groups : t'.groups = moved.groups

theorem steps_of_moveContainer {item : Name} (h : moveContainer u item t = some t') :
    Nonempty (Steps u item t t') := by
  unfold moveContainer at h
  obtain ⟨made, hmkdir, h⟩ := Option.bind_eq_some_iff.mp h
  obtain ⟨moved, hrun, h⟩ := Option.bind_eq_some_iff.mp h
  obtain ⟨disk, hrmdir, h⟩ := Option.bind_eq_some_iff.mp h
  obtain rfl := Option.some.inj h
  exact ⟨made, moved, hmkdir, hrun, hrmdir, rfl, rfl⟩

-- What a removed directory leaves is what was not under it.
theorem rmdir_eq_some {d d' : Disk Name α} {p : List Name} (h : d.rmdir p = some d') :
    d.isdir p = true ∧ (∀ q, ¬ p <+: q → d'.node q = d.node q) ∧
      ∀ q c, d.node q = some (.file c) → d'.node q = some (.file c) := by
  unfold Disk.rmdir at h
  split_ifs at h with hp
  cases h
  obtain ⟨hne, hdir, hempty⟩ := hp
  refine ⟨hdir, fun q hq => by rw [d.node_removed hne, if_neg hq], fun q c hc => ?_⟩
  rw [d.node_removed hne, if_neg, hc]
  rintro ⟨r, rfl⟩
  by_cases hr : r = []
  · rw [hr, List.append_nil, Disk.isdir_iff.mp hdir] at hc
    cases hc
  · rw [Disk.listdir_eq_nil hempty hr] at hc
    cases hc

theorem moveContainer_frame {item : Name} (hitem : isRequired item = false)
    (h : moveContainer u item t = some t') :
    (∀ q, ¬ [item] <+: q → ¬ [objects, item] <+: q → t'.disk.node q = t.disk.node q) ∧
      Rows u [item] t t' := by
  obtain ⟨made, moved, hmkdir, hrun, hrmdir, hfiles, -⟩ := steps_of_moveContainer h
  obtain ⟨-, -, hmade⟩ := Disk.mkdir_eq_some hmkdir
  have hdir : made.node [objects, item] = some .dir := by rw [hmade, if_pos rfl]
  have hmoved := foldlM_moveContained_frame hitem hdir hrun
  obtain ⟨-, hremoved, -⟩ := rmdir_eq_some hrmdir
  constructor
  · intro q hq hq'
    have hne : q ≠ [objects, item] := fun heq => hq' (heq ▸ List.prefix_rfl)
    rw [hremoved q hq, hmoved.node q hq hq', hmade, if_neg hne]
  · obtain ⟨g, hg, hrest⟩ := hmoved.rows.exists_map
    exact ⟨g, hfiles.trans hg, hrest⟩

theorem destination_ne {item : Name} (hitem : isRequired item = false) :
    [item] ≠ destination item ∧ ¬ [item] <+: destination item := by
  have hmetadata : item ≠ metadata := by
    rintro rfl
    exact absurd hitem (by decide)
  have hnot : ¬ [item] <+: destination item := by
    unfold destination
    split_ifs
    · exact fun hle => hmetadata (List.cons_prefix_cons.mp hle).1
    · exact fun hle => hmetadata (List.cons_prefix_cons.mp hle).1
  exact ⟨fun heq => hnot (heq ▸ List.prefix_rfl), hnot⟩

theorem restructureItem_frame {item : Name} (h : restructureItem u t item = some t') :
    (∀ q, Apart t.disk item q → t'.disk.node q = t.disk.node q) ∧ Rows u [item] t t' := by
  unfold restructureItem at h
  split_ifs at h with hrequired hdir
  · obtain rfl := Option.some.inj h
    exact ⟨fun _ _ => rfl, Rows.refl [item] t⟩
  · have hitem : isRequired item = false := Bool.eq_false_iff.mpr hrequired
    obtain ⟨hnode, hrows⟩ := moveContainer_frame hitem h
    exact ⟨fun q hq => hnode q (hq hitem).1 (hq hitem).2.1, hrows⟩
  · have hitem : isRequired item = false := Bool.eq_false_iff.mpr hrequired
    have hfile : t.disk.isdir [item] = false := Bool.eq_false_iff.mpr hdir
    obtain ⟨s, hs, rfl⟩ := Option.map_eq_some_iff.mp h
    obtain ⟨-, hmove, hfiles⟩ := updateFileLocation2_cases hs
    refine ⟨fun q hq => ?_, Rows.of_move hitem List.prefix_rfl hfiles⟩
    exact node_of_move (destination_ne hitem).1 (by simp) (Or.inl hfile) hmove
      (hq hitem).1 ((hq hitem).2.2 hfile)

theorem two_le_length_destination (item : Name) : 2 ≤ (destination item).length := by
  unfold destination
  split_ifs
  · exact Nat.le_succ 2
  · exact Nat.le_refl 2

-- An entry of the top level is not touched by the steps for the others.
theorem apart_top {d : Disk Name α} {item m : Name} (hne : m ≠ item) : Apart d item [m] := by
  intro _
  refine ⟨fun hle => hne (List.cons_prefix_cons.mp hle).1.symm, fun hle => ?_, fun _ hle => ?_⟩
  · exact absurd hle.length_le (by simp)
  · have hlen := hle.length_le
    have htwo := two_le_length_destination item
    rw [List.length_singleton] at hlen
    omega

theorem foldlM_restructureItem_frame {items : List Name} (hnodup : items.Nodup)
    (h : items.foldlM (restructureItem u) t = some t') :
    (∀ q, (∀ m ∈ items, Apart t.disk m q) → t'.disk.node q = t.disk.node q) ∧
      Rows u items t t' := by
  induction items generalizing t with
  | nil =>
      obtain rfl := Option.some.inj h
      exact ⟨fun _ _ => rfl, Rows.refl [] t⟩
  | cons item rest ih =>
      obtain ⟨mid, hmid, hrest⟩ := Option.bind_eq_some_iff.mp h
      obtain ⟨hitem, hnodup⟩ := List.nodup_cons.mp hnodup
      obtain ⟨hfirst, hrows⟩ := restructureItem_frame hmid
      obtain ⟨hlast, hrows'⟩ := ih hnodup hrest
      refine ⟨fun q hq => ?_, hrows.trans hrows'⟩
      rw [hlast q fun m hm => ?_, hfirst q (hq item List.mem_cons_self)]
      have hne : m ≠ item := fun heq => hitem (heq ▸ hm)
      have hkind : mid.disk.isdir [m] = t.disk.isdir [m] :=
        Disk.isdir_congr (hfirst [m] (apart_top hne))
      intro hrequired
      rw [hkind]
      exact hq m (List.mem_cons_of_mem item hm) hrequired

-- The directories are made where there is nothing.
theorem createDirectory_frame {r : List Name} (h : createDirectory t r = some t') :
    Disk.Grown (· <+: r) t.disk t'.disk ∧ t'.disk.isdir r = true ∧ t'.files = t.files ∧
      t'.groups = t.groups := by
  unfold createDirectory at h
  split_ifs at h with hdir
  · obtain rfl := Option.some.inj h
    exact ⟨Disk.Grown.refl _ _, hdir, rfl, rfl⟩
  · obtain ⟨disk, hmade, rfl⟩ := Option.map_eq_some_iff.mp h
    obtain ⟨-, hnode, -⟩ := Disk.makedirs_eq_some hmade
    refine ⟨Disk.grown_of_makedirs hmade, ?_, rfl, rfl⟩
    rw [Disk.isdir_iff, hnode, if_pos List.prefix_rfl]

-- A directory that has been made is there from then on.
theorem foldlM_createDirectory {dirs : List (List Name)} (h : dirs.foldlM createDirectory t = some t') :
    Disk.Grown (fun q => ∃ r ∈ dirs, q <+: r) t.disk t'.disk ∧
      (∀ r ∈ dirs, t'.disk.isdir r = true) ∧ t'.files = t.files ∧ t'.groups = t.groups := by
  induction dirs generalizing t with
  | nil =>
      obtain rfl := Option.some.inj h
      exact ⟨Disk.Grown.refl _ _, by simp, rfl, rfl⟩
  | cons r dirs ih =>
      obtain ⟨mid, hmid, hrest⟩ := Option.bind_eq_some_iff.mp h
      obtain ⟨hgrown, hdir, hfiles, hgroups⟩ := createDirectory_frame hmid
      obtain ⟨hgrown', hdirs, hfiles', hgroups'⟩ := ih hrest
      refine ⟨?_, ?_, hfiles'.trans hfiles, hgroups'.trans hgroups⟩
      · refine Disk.Grown.trans ⟨hgrown.kept, fun q hq hne => ?_⟩
          ⟨hgrown'.kept, fun q hq hne => ?_⟩
        · exact ⟨(hgrown.fresh q hq hne).1, r, List.mem_cons_self, (hgrown.fresh q hq hne).2⟩
        · obtain ⟨hnode, r', hr', hle⟩ := hgrown'.fresh q hq hne
          exact ⟨hnode, r', List.mem_cons_of_mem r hr', hle⟩
      · intro r' hr'
        rcases List.mem_cons.mp hr' with rfl | hr'
        · have hnode := Disk.isdir_iff.mp hdir
          rw [Disk.isdir_iff, hgrown'.kept r' (by simp [hnode]), hnode]
        · exact hdirs r' hr'

end Ccp.Worker.TrimRestructure
