import Ccp.Worker.TrimRestructure.Frame

namespace Ccp.Worker.TrimRestructure

open Lib FileOperations

variable {α : Type*} {u : UnitRef} {s s' : State α} {t t' : Transfer α}

-- The rows of the unit lead to files.
def AllHold (u : UnitRef) (s : State α) : Prop :=
  ∀ f ∈ s.files, u.owns f = true → ∃ c, Holds u s.disk f c

theorem AllHold.of_follows (h : AllHold u s) (hfollows : Follows u s s') : AllHold u s' := by
  intro f' hf' howns
  obtain ⟨i, hi, rfl⟩ := List.getElem_of_mem hf'
  have hi' : i < s.files.length := hfollows.length_eq ▸ hi
  have hrow := hfollows.get hi' hi
  simp only [List.get_eq_getElem] at hrow
  have howns' : u.owns s.files[i] = true := hrow.owns ▸ howns
  obtain ⟨c, hc⟩ := h _ (List.getElem_mem hi') howns'
  exact ⟨c, hrow.holds howns' c hc⟩

-- The source of a move has a row, so that it is a file.
theorem exists_file_of_move {src dst : List Name} (h : AllHold u s)
    (hmove : updateFileLocation2 u src dst s = some s') : ∃ c, s.disk.node src = some (.file c) := by
  obtain ⟨⟨f, hf, howns, hlocation⟩, -, -⟩ := updateFileLocation2_cases hmove
  obtain ⟨c, p, hp, hc⟩ := h f hf howns
  obtain rfl : src = p := UnitRef.location_injective (hlocation.symm.trans hp)
  exact ⟨c, hc⟩

-- A file goes to a place that is free, or takes the place of one that is the same.
theorem moved_of_file {src dst : List Name} {c : α} (hsrc : s.disk.node src = some (.file c))
    (hne : src ≠ dst) (hdst : s.disk.isdir dst = false)
    (h : updateFileLocation2 u src dst s = some s') : Disk.Moved s.disk s'.disk src dst := by
  obtain ⟨-, hmove, -⟩ := updateFileLocation2_cases h
  have hsrcne : src ≠ [] := by
    rintro rfl
    cases hsrc
  have hfile : s.disk.isdir src = false := by simp [Disk.isdir, hsrc]
  rcases Disk.move_eq_some hne hsrcne (Or.inl hfile) hmove with ⟨-, hmoved⟩ | ⟨hdir, -, -⟩
  · exact hmoved
  · rw [hdst] at hdir
    cases hdir

theorem updateFileLocation2_follows {src dst : List Name} {c : α}
    (hsrc : s.disk.node src = some (.file c)) (hne : src ≠ dst)
    (hdst : s.disk.node dst = none ∨ s.disk.node dst = s.disk.node src)
    (h : updateFileLocation2 u src dst s = some s') : Follows u s s' := by
  have hnotdir : s.disk.isdir dst = false := by
    rcases hdst with hnone | hsame
    · simp [Disk.isdir, hnone]
    · simp [Disk.isdir, hsame, hsrc]
  have hmoved := moved_of_file hsrc hne hnotdir h
  have hat : s'.disk.node dst = s.disk.node src := by
    have hnode := hmoved.node_dst []
    rwa [List.append_nil, List.append_nil] at hnode
  obtain ⟨-, -, hfiles⟩ := updateFileLocation2_cases h
  obtain ⟨disk, files⟩ := s'
  obtain rfl : files = s.files.map (relocated u src dst) := hfiles
  refine follows_map fun f _ => ⟨relocated_uuid src dst f, relocated_owns src dst f, ?_⟩
  rintro howns x ⟨p, hf, hx⟩
  by_cases hp : p = src
  · subst hp
    exact ⟨dst, relocated_of_eq howns hf, hat.trans hx⟩
  · refine ⟨p, by rw [relocated_of_ne hf hp, hf], ?_⟩
    by_cases hpdst : p = dst
    · subst hpdst
      rcases hdst with hnone | hsame
      · rw [hnone] at hx
        cases hx
      · exact (hat.trans hsame.symm).trans hx
    · refine (hmoved.node_of_apart ?_ ?_).trans hx
      · rintro ⟨r, rfl⟩
        have hr : r = [] := Disk.eq_nil_of_file hsrc (by simp [hx])
        exact hp (by rw [hr, List.append_nil])
      · -- there is nothing below a free place or a file
        rintro ⟨r, rfl⟩
        rcases hdst with hnone | hsame
        · rw [Disk.node_append_eq_none hnone r] at hx
          cases hx
        · have hr : r = [] := Disk.eq_nil_of_file (hsame.trans hsrc) (by simp [hx])
          exact hpdst (by rw [hr, List.append_nil])

theorem foldlM_moveContained_follows {item : Name} {rest : List Name} (hitem : item ≠ objects)
    (hnodup : rest.Nodup) (hfree : ∀ m ∈ rest, t.disk.node [objects, item, m] = none)
    (hall : AllHold u t.toState) (h : rest.foldlM (moveContained u item) t = some t') :
    Follows u t.toState t'.toState := by
  induction rest generalizing t with
  | nil =>
      obtain rfl := Option.some.inj h
      exact Follows.refl u t.toState
  | cons item2 rest ih =>
      obtain ⟨mid, hmid, hrest⟩ := Option.bind_eq_some_iff.mp h
      obtain ⟨hitem2, hnodup⟩ := List.nodup_cons.mp hnodup
      obtain ⟨s, hs, rfl⟩ := Option.map_eq_some_iff.mp hmid
      obtain ⟨c, hc⟩ := exists_file_of_move hall hs
      have hne : [item, item2] ≠ [objects, item, item2] := fun heq => hitem (List.cons.inj heq).1
      have hplace := hfree item2 List.mem_cons_self
      have hfollows := updateFileLocation2_follows hc hne (Or.inl hplace) hs
      have hmoved := moved_of_file hc hne (by simp [Disk.isdir, hplace]) hs
      refine hfollows.trans (ih hnodup (fun m hm => ?_) (hall.of_follows hfollows) hrest)
      have happart : ¬ [item, item2] <+: [objects, item, m] := fun hle =>
        hitem (List.cons_prefix_cons.mp hle).1
      have hother : ¬ [objects, item, item2] <+: [objects, item, m] := by
        intro hle
        have heq := hle.eq_of_length rfl
        simp only [List.cons.injEq, and_true, true_and] at heq
        exact hitem2 (heq ▸ hm)
      exact (hmoved.node_of_apart happart hother).trans (hfree m (List.mem_cons_of_mem item2 hm))

theorem moveContainer_follows {item : Name} (hitem : isRequired item = false)
    (hall : AllHold u t.toState) (h : moveContainer u item t = some t') :
    Follows u t.toState t'.toState := by
  obtain ⟨made, moved, hmkdir, hrun, hrmdir, hfiles, -⟩ := steps_of_moveContainer h
  obtain ⟨hnone, -, hmade⟩ := Disk.mkdir_eq_some hmkdir
  have hobjects : item ≠ objects := by
    rintro rfl
    exact absurd hitem (by decide)
  have hfirst : Follows u t.toState { t with disk := made }.toState := by
    refine follows_of_kept rfl fun q c hc => ?_
    rw [hmade, if_neg, hc]
    rintro rfl
    rw [hnone] at hc
    cases hc
  have hfree : ∀ m ∈ made.listdir [item], made.node [objects, item, m] = none := by
    intro m _
    rw [hmade, if_neg (by simp)]
    exact Disk.node_append_eq_none hnone [m]
  have hrest := foldlM_moveContained_follows hobjects (made.nodup_listdir [item]) hfree
    (hall.of_follows hfirst) hrun
  obtain ⟨-, -, hkept⟩ := rmdir_eq_some hrmdir
  exact hfirst.trans (hrest.trans (follows_of_kept hfiles hkept))

-- No file of the list comes to a place that is taken by another.
def Free (items : List Name) (d : Disk Name α) : Prop :=
  ∀ n ∈ items, isRequired n = false → d.isfile [n] = true →
    d.node (destination n) = none ∨ d.node (destination n) = d.node [n]

theorem restructureItem_follows {item : Name} (hall : AllHold u t.toState)
    (hfree : isRequired item = false → t.disk.isfile [item] = true →
      t.disk.node (destination item) = none ∨ t.disk.node (destination item) = t.disk.node [item])
    (h : restructureItem u t item = some t') : Follows u t.toState t'.toState := by
  unfold restructureItem at h
  split_ifs at h with hrequired hdir
  · obtain rfl := Option.some.inj h
    exact Follows.refl u t.toState
  · exact moveContainer_follows (Bool.eq_false_iff.mpr hrequired) hall h
  · have hitem : isRequired item = false := Bool.eq_false_iff.mpr hrequired
    obtain ⟨s, hs, rfl⟩ := Option.map_eq_some_iff.mp h
    obtain ⟨c, hc⟩ := exists_file_of_move hall hs
    exact updateFileLocation2_follows hc (destination_ne hitem).1
      (hfree hitem (Disk.isfile_iff.mpr ⟨c, hc⟩)) hs

-- Of the places of two files one is above the other only where one file has the name of
-- the directory.
theorem eq_of_prefix_destination {item m : Name} (hne : m ≠ item)
    (hle : destination item <+: destination m) : item = submissionDocumentation := by
  unfold destination at hle
  split_ifs at hle with hitem hm hm
  · exact absurd (Subtype.ext (hm.trans hitem.symm)) hne
  · exact absurd hle.length_le (by simp)
  · simp only [List.cons_prefix_cons, true_and] at hle
    exact hle.1
  · simp only [List.cons_prefix_cons, true_and] at hle
    exact absurd hle.1.symm hne

theorem head_destination (m : Name) : ∃ rest, destination m = metadata :: rest := by
  unfold destination
  split_ifs
  · exact ⟨_, rfl⟩
  · exact ⟨_, rfl⟩

theorem ne_metadata {item : Name} (h : isRequired item = false) : item ≠ metadata := by
  rintro rfl
  exact absurd h (by decide)

theorem not_prefix_destination {item : Name} (h : isRequired item = false) (m : Name) :
    ¬ [item] <+: destination m := by
  obtain ⟨rest, hrest⟩ := head_destination m
  rw [hrest]
  exact fun hle => ne_metadata h (List.cons_prefix_cons.mp hle).1

theorem apart_destination {d : Disk Name α} {item m : Name} (hne : m ≠ item)
    (hitem : isRequired item = false → d.isdir [item] = false → item ≠ submissionDocumentation) :
    Apart d item (destination m) := by
  intro hrequired
  refine ⟨not_prefix_destination hrequired m, fun hle => ?_, fun hfile hle => ?_⟩
  · obtain ⟨rest, hrest⟩ := head_destination m
    rw [hrest] at hle
    exact absurd (List.cons_prefix_cons.mp hle).1 (by decide)
  · exact hitem hrequired hfile (eq_of_prefix_destination hne hle)

theorem foldlM_restructureItem_follows {items : List Name} (hnodup : items.Nodup)
    (hall : AllHold u t.toState)
    (hnames : ∀ n ∈ items, isRequired n = false → t.disk.isdir [n] = false →
      n ≠ submissionDocumentation)
    (hfree : Free items t.disk) (h : items.foldlM (restructureItem u) t = some t') :
    Follows u t.toState t'.toState := by
  induction items generalizing t with
  | nil =>
      obtain rfl := Option.some.inj h
      exact Follows.refl u t.toState
  | cons item rest ih =>
      obtain ⟨mid, hmid, hrest⟩ := Option.bind_eq_some_iff.mp h
      obtain ⟨hitem, hnodup⟩ := List.nodup_cons.mp hnodup
      have hfollows := restructureItem_follows hall (hfree item List.mem_cons_self) hmid
      obtain ⟨hframe, -⟩ := restructureItem_frame hmid
      have htop : ∀ m ∈ rest, mid.disk.node [m] = t.disk.node [m] := fun m hm =>
        hframe [m] (apart_top fun heq => hitem (heq ▸ hm))
      have hplace : ∀ m ∈ rest, mid.disk.node (destination m) = t.disk.node (destination m) :=
        fun m hm => hframe _ (apart_destination (fun heq => hitem (heq ▸ hm))
          (hnames item List.mem_cons_self))
      refine hfollows.trans (ih hnodup (hall.of_follows hfollows) ?_ ?_ hrest)
      · intro n hn hrequired hfile
        rw [Disk.isdir_congr (htop n hn)] at hfile
        exact hnames n (List.mem_cons_of_mem item hn) hrequired hfile
      · intro n hn hrequired hfile
        rw [Disk.isfile_congr (htop n hn)] at hfile
        rw [hplace n hn, htop n hn]
        exact hfree n (List.mem_cons_of_mem item hn) hrequired hfile

-- The whole script: the directories first, then the entries of the top level.
structure Stages (u : UnitRef) (t t' : Transfer α) where
  made : Transfer α
  grown : Disk.Grown (fun q => ∃ r ∈ requiredDirectories, q <+: r) t.disk made.disk
  dirs : ∀ r ∈ requiredDirectories, made.disk.isdir r = true
  files : made.files = t.files
  groups : made.groups = t.groups
  run : (made.disk.listdir []).foldlM (restructureItem u) made = some t'

theorem stages_of_restructure (h : restructureTRIMForComplianceFileUUIDsAssigned u t = some t') :
    Nonempty (Stages u t t') := by
  unfold restructureTRIMForComplianceFileUUIDsAssigned at h
  obtain ⟨made, hmade, hrun⟩ := Option.bind_eq_some_iff.mp h
  obtain ⟨hgrown, hdirs, hfiles, hgroups⟩ := foldlM_createDirectory hmade
  exact ⟨made, hgrown, hdirs, hfiles, hgroups, hrun⟩

-- A place of the metadata that is made is the directory of the submission documentation.
theorem destination_of_grown {n : Name} (h : ∃ r ∈ requiredDirectories, destination n <+: r) :
    n = submissionDocumentation := by
  obtain ⟨r, hr, hle⟩ := h
  obtain ⟨rest, hrest⟩ := head_destination n
  have hhead : ∀ d q, d ≠ metadata → ¬ destination n <+: d :: q := by
    intro d q hd hle'
    rw [hrest] at hle'
    exact hd (List.cons_prefix_cons.mp hle').1.symm
  simp only [requiredDirectories, List.mem_cons, List.not_mem_nil, or_false] at hr
  rcases hr with rfl | rfl | rfl | rfl | rfl
  · exact absurd hle (hhead _ _ (by decide))
  · exact absurd hle (hhead _ _ (by decide))
  · have hlen := hle.length_le
    have htwo := two_le_length_destination n
    rw [List.length_singleton] at hlen
    omega
  · unfold destination at hle
    split_ifs at hle
    · exact absurd hle.length_le (by simp)
    · simp only [List.cons_prefix_cons, true_and] at hle
      exact hle.1
  · exact absurd hle (hhead _ _ (by decide))

theorem Stages.created (h : Stages u t t') : Follows u t.toState h.made.toState :=
  follows_of_kept h.files fun _ _ hc => h.grown.node_file_iff.mpr hc

-- Where nothing is taken every row goes where its file goes.
theorem follows_of_clear (htree : Tree u t) (hclear : Clear t.disk) (h : Stages u t t') :
    Follows u t.toState t'.toState := by
  have hall : AllHold u h.made.toState := AllHold.of_follows htree.rows h.created
  have hisfile : ∀ n, h.made.disk.isfile [n] = t.disk.isfile [n] := fun n => h.grown.isfile_eq [n]
  refine h.created.trans (foldlM_restructureItem_follows (h.made.disk.nodup_listdir []) hall ?_ ?_
    h.run)
  · intro n hn hrequired hnotdir
    have hfile : h.made.disk.isfile [n] = true := by
      have hfound := Disk.mem_listdir.mp hn
      rw [List.nil_append] at hfound
      cases hnode : h.made.disk.node [n] with
      | none => exact absurd hnode hfound
      | some x =>
          cases x with
          | dir => simp [Disk.isdir, hnode] at hnotdir
          | file c => exact Disk.isfile_iff.mpr ⟨c, hnode⟩
    exact (hclear.places n hrequired (hisfile n ▸ hfile)).1
  · intro n _ hrequired hfile
    rw [hisfile n] at hfile
    obtain ⟨hname, hplace⟩ := hclear.places n hrequired hfile
    obtain ⟨c, hc⟩ := Disk.isfile_iff.mp hfile
    have hkept : h.made.disk.node [n] = t.disk.node [n] := h.grown.kept [n] (by simp [hc])
    rcases hplace with hnone | hsame
    · by_contra hne
      have htaken : h.made.disk.node (destination n) ≠ none := (not_or.mp hne).1
      exact hname (destination_of_grown (h.grown.fresh _ hnone htaken).2)
    · right
      rw [h.grown.kept _ (by simp [hsame, hc]), hsame, hkept]

end Ccp.Worker.TrimRestructure
