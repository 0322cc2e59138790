import Ccp.Worker.TrimRestructure.Located

namespace Ccp.Worker.TrimRestructure

open Lib FileOperations

variable {α : Type*} {u : UnitRef} {s s' : State α} {t t' : Transfer α}

-- The turn of one file of the top level.
structure Turn (u : UnitRef) (n : Name) (t t' : Transfer α) where
  front : List Name
  back : List Name
  before : Transfer α
  after : Transfer α
  listed : t.disk.listdir [] = front ++ n :: back
  first : front.foldlM (restructureItem u) t = some before
  item : restructureItem u before n = some after
  step : moveTopLevel u n before = some after
  rest : back.foldlM (restructureItem u) after = some t'
  same : before.disk.node [n] = t.disk.node [n]

theorem Turn.nodup {n : Name} (h : Turn u n t t') : (h.front ++ n :: h.back).Nodup :=
  h.listed ▸ t.disk.nodup_listdir []

theorem exists_turn {n : Name} (hn : isRequired n = false) (hfile : t.disk.isfile [n] = true)
    (h : (t.disk.listdir []).foldlM (restructureItem u) t = some t') : Nonempty (Turn u n t t') := by
  obtain ⟨c, hc⟩ := Disk.isfile_iff.mp hfile
  have hlisted : n ∈ t.disk.listdir [] := Disk.mem_listdir.mpr (by simp [hc])
  obtain ⟨front, back, hsplit⟩ := List.append_of_mem hlisted
  have hnodup := t.disk.nodup_listdir []
  rw [hsplit, List.foldlM_append] at h
  rw [hsplit] at hnodup
  obtain ⟨before, hfirst, h⟩ := Option.bind_eq_some_iff.mp h
  obtain ⟨after, hstep, hrest⟩ := Option.bind_eq_some_iff.mp h
  obtain ⟨hnodupfront, -, hdisjoint⟩ := List.nodup_append.mp hnodup
  have hsame : before.disk.node [n] = t.disk.node [n] :=
    (foldlM_restructureItem_frame hnodupfront hfirst).1 [n] fun m hm =>
      apart_top (hdisjoint m hm n List.mem_cons_self).symm
  have hnotdir : ¬ before.disk.isdir [n] = true := by simp [Disk.isdir, hsame, hc]
  have hmove : moveTopLevel u n before = some after := by
    rwa [restructureItem, if_neg (by simp [hn]), if_neg hnotdir] at hstep
  exact ⟨⟨front, back, before, after, hsplit, hfirst, hstep, hmove, hrest, hsame⟩⟩

-- The row of the file has its place at the end, and no row elsewhere is changed.
theorem Turn.rows {n : Name} (hn : isRequired n = false) (h : Turn u n t t') :
    ∃ g : File → File, t'.files = t.files.map g ∧
      (∀ f, u.owns f = true → f.currentlocation = u.location [n] →
        (g f).currentlocation = u.location (destination n)) ∧
      ∀ f p, f.currentlocation = u.location p →
        (∀ m, isRequired m = false → ¬ [m] <+: p) → g f = f := by
  obtain ⟨hnodup, hnodup', hdisjoint⟩ := List.nodup_append.mp h.nodup
  obtain ⟨g, hg, -, hsame⟩ := (foldlM_restructureItem_frame hnodup h.first).2.exists_map
  obtain ⟨g', hg', -, hsame'⟩ :=
    (foldlM_restructureItem_frame (List.nodup_cons.mp hnodup').2 h.rest).2.exists_map
  obtain ⟨s, hs, hafter⟩ := Option.map_eq_some_iff.mp h.step
  obtain ⟨-, -, hfiles⟩ := updateFileLocation2_cases hs
  have hstep : h.after.files = h.before.files.map (relocated u [n] (destination n)) := by
    rw [← hafter]
    exact hfiles
  refine ⟨g' ∘ relocated u [n] (destination n) ∘ g, ?_, fun f howns hf => ?_, fun f p hf hp => ?_⟩
  · rw [hg', hstep, hg, List.map_map, List.map_map, Function.comp_assoc]
  · have hfirst : g f = f := hsame f [n] hf fun m hm _ hle =>
      hdisjoint m hm n List.mem_cons_self (List.cons_prefix_cons.mp hle).1
    have hplace := @relocated_of_eq u [n] (destination n) f howns hf
    rw [Function.comp_apply, Function.comp_apply, hfirst,
      hsame' _ _ hplace fun m _ hm => not_prefix_destination hm n]
    exact hplace
  · have hfirst : g f = f := hsame f p hf fun m _ hm => hp m hm
    have hmoved : relocated u [n] (destination n) f = f := by
      refine relocated_of_ne hf ?_
      rintro rfl
      exact hp n hn List.prefix_rfl
    rw [Function.comp_apply, Function.comp_apply, hfirst, hmoved]
    exact hsame' f p hf fun m _ hm => hp m hm

theorem holds_of_follows_map {g : File → File} {f : File} {c : α} (hfollows : Follows u s s')
    (hg : s'.files = s.files.map g) (hf : f ∈ s.files) (howns : u.owns f = true)
    (hc : Holds u s.disk f c) : Holds u s'.disk (g f) c := by
  unfold Follows at hfollows
  rw [hg, List.forall₂_map_right_iff, List.forall₂_same] at hfollows
  exact (hfollows f hf).holds howns c hc

-- What is at the place of a file when its turn comes is there from the start, and what
-- the turn puts there is there at the end.
theorem Turn.place {n : Name} (hn : isRequired n = false) (hsub : n = submissionDocumentation ∨
      t.disk.isfile [submissionDocumentation] = false) (h : Turn u n t t') :
    h.before.disk.node (destination n) = t.disk.node (destination n) ∧
      t'.disk.node (destination n) = h.after.disk.node (destination n) := by
  obtain ⟨hnodup, hnodup', hdisjoint⟩ := List.nodup_append.mp h.nodup
  obtain ⟨hnback, hnodup'⟩ := List.nodup_cons.mp hnodup'
  -- none of the other files has the name of the directory
  have hother : ∀ m ∈ h.front ++ n :: h.back, m ≠ n → t.disk.isdir [m] = false →
      m ≠ submissionDocumentation := by
    rintro m hm hne hnotdir rfl
    rcases hsub with rfl | hnotfile
    · exact hne rfl
    · rw [← h.listed] at hm
      have hfound := Disk.mem_listdir.mp hm
      rw [List.nil_append] at hfound
      cases hnode : t.disk.node [submissionDocumentation] with
      | none => exact hfound hnode
      | some x =>
          cases x with
          | dir => simp [Disk.isdir, hnode] at hnotdir
          | file c => simp [Disk.isfile, hnode] at hnotfile
  have hkind : ∀ m ∈ h.back, h.after.disk.isdir [m] = t.disk.isdir [m] := by
    intro m hm
    have hne : m ≠ n := fun heq => hnback (heq ▸ hm)
    have hfirst := (foldlM_restructureItem_frame hnodup h.first).1 [m] fun k hk =>
      apart_top (hdisjoint k hk m (List.mem_cons_of_mem n hm)).symm
    exact Disk.isdir_congr (((restructureItem_frame h.item).1 [m] (apart_top hne)).trans hfirst)
  constructor
  · refine (foldlM_restructureItem_frame hnodup h.first).1 _ fun m hm => ?_
    have hne := hdisjoint m hm n List.mem_cons_self
    exact apart_destination hne.symm fun _ => hother m (List.mem_append_left _ hm) hne
  · refine (foldlM_restructureItem_frame hnodup' h.rest).1 _ fun m hm => ?_
    have hne : m ≠ n := fun heq => hnback (heq ▸ hm)
    refine apart_destination hne.symm fun _ hnotdir => ?_
    rw [hkind m hm] at hnotdir
    exact hother m (List.mem_append_right _ (List.mem_cons_of_mem n hm)) hne hnotdir

-- The place of a file of the top level, where every row leads to its file at the end.
theorem place_of_follows (htree : Tree u t) (h : Stages u t t')
    (hfollows : Follows u t.toState t'.toState) {n : Name} (hn : isRequired n = false)
    (hfile : t.disk.isfile [n] = true)
    (hsub : n = submissionDocumentation ∨ t.disk.isfile [submissionDocumentation] = false) :
    n ≠ submissionDocumentation ∧
      (t.disk.node (destination n) = none ∨ t.disk.node (destination n) = t.disk.node [n]) := by
  obtain ⟨c, hc⟩ := Disk.isfile_iff.mp hfile
  have hmade : h.made.disk.node [n] = some (.file c) := h.grown.node_file_iff.mpr hc
  obtain ⟨turn⟩ := exists_turn hn (Disk.isfile_iff.mpr ⟨c, hmade⟩) h.run
  obtain ⟨hbefore, hafter⟩ := turn.place hn (hsub.imp_right fun hnot => (h.grown.isfile_eq _).trans hnot)
  obtain ⟨g, hg, hplace, hkept⟩ := turn.rows hn
  rw [h.files] at hg
  -- the file itself is at its place at the end
  obtain ⟨f, hf, howns, hlocation⟩ := htree.files [n] c hc
  obtain ⟨p, hp, hpc⟩ := holds_of_follows_map hfollows hg hf howns ⟨[n], hlocation, hc⟩
  obtain rfl : destination n = p :=
    UnitRef.location_injective ((hplace f howns hlocation).symm.trans hp)
  obtain ⟨s, hs, hstate⟩ := Option.map_eq_some_iff.mp turn.step
  obtain ⟨-, hmove, -⟩ := updateFileLocation2_cases hs
  have hdisk : turn.after.disk = s.disk := by rw [← hstate]
  rw [hafter, hdisk] at hpc
  have hsrc : turn.before.disk.node [n] = some (.file c) := turn.same.trans hmade
  have hnotdir : turn.before.disk.isdir (destination n) = false := by
    rcases Disk.move_eq_some (destination_ne hn).1 (by simp) (Or.inl (by simp [Disk.isdir, hsrc]))
      hmove with ⟨hnot, -⟩ | ⟨hdir, hnone, hmoved⟩
    · exact hnot
    · -- a directory at the place would still be there
      rw [hmoved.node_of_apart (destination_ne hn).2 fun hle => ?_, Disk.isdir_iff.mp hdir] at hpc
      · cases hpc
      · exact absurd hle.length_le (by simp)
  rw [Disk.isdir_congr hbefore] at hnotdir
  constructor
  · rintro rfl
    have hdir := h.dirs [metadata, submissionDocumentation] (by decide)
    have hdestination : destination submissionDocumentation = [metadata, submissionDocumentation] := by
      decide
    rw [hdestination, hdir] at hnotdir
    cases hnotdir
  · cases hnode : t.disk.node (destination n) with
    | none => exact Or.inl rfl
    | some x =>
        cases x with
        | dir =>
            rw [Disk.isdir, h.grown.kept _ (by simp [hnode]), hnode] at hnotdir
            cases hnotdir
        | file c' =>
            -- the row of what was there leads to it still
            obtain ⟨f', hf', howns', hlocation'⟩ := htree.files _ c' hnode
            have hsame : g f' = f' := hkept f' _ hlocation' fun m hm => not_prefix_destination hm n
            obtain ⟨p, hp, hpc'⟩ :=
              holds_of_follows_map hfollows hg hf' howns' ⟨_, hlocation', hnode⟩
            rw [hsame, hlocation'] at hp
            obtain rfl := UnitRef.location_injective hp
            rw [hafter, hdisk, hpc] at hpc'
            rw [hc, ← hpc']
            exact Or.inr rfl

theorem places_of_follows (htree : Tree u t) (h : Stages u t t')
    (hfollows : Follows u t.toState t'.toState) (n : Name) (hn : isRequired n = false)
    (hfile : t.disk.isfile [n] = true) : n ≠ submissionDocumentation ∧
      (t.disk.node (destination n) = none ∨ t.disk.node (destination n) = t.disk.node [n]) := by
  refine place_of_follows htree h hfollows hn hfile ?_
  by_cases hsub : t.disk.isfile [submissionDocumentation] = true
  · exact absurd rfl (place_of_follows htree h hfollows (by decide) hsub (Or.inl rfl)).1
  · exact Or.inr (Bool.eq_false_iff.mpr hsub)

section Query

-- The start of a location is the one place with the wildcard.
def transferDirectory : Str := "transferDirectory".toList

theorem wildcard_notMem_transferDirectory : '%' ∉ transferDirectory ∧ '/' ∉ transferDirectory := by
  decide

theorem location_eq (hu : u.pathReplaceWith = "%transferDirectory%".toList) (p : List Name) :
    u.location p = '%' :: (transferDirectory ++ '%' :: text p) := by
  rw [UnitRef.location, hu]
  rfl

-- A text between two wildcards is found at the start only.
theorem eq_of_occurs {x rest after : Str} (hafter : '%' ∉ after)
    (h : '%' :: (x ++ '%' :: rest) <:+: '%' :: (transferDirectory ++ '%' :: after)) :
    x = transferDirectory ∧ rest <+: after := by
  obtain ⟨front, back, h⟩ := h
  have htd := wildcard_notMem_transferDirectory.1
  have hcount := congrArg (List.count '%') h
  simp only [List.count_append, List.count_cons_self, List.count_eq_zero_of_not_mem hafter,
    List.count_eq_zero_of_not_mem htd] at hcount
  have hfront : front = [] := by
    cases front with
    | nil => rfl
    | cons c front =>
        rw [List.cons_append, List.cons_append] at h
        obtain ⟨rfl, -⟩ := List.cons.inj h
        rw [List.count_cons_self] at hcount
        omega
  have hx : '%' ∉ x := fun hmem => by
    have hpos := List.count_pos_iff.mpr hmem
    omega
  have hback : '%' ∉ rest ++ back := fun hmem => by
    have hpos := List.count_pos_iff.mpr hmem
    rw [List.count_append] at hpos
    omega
  rw [hfront, List.nil_append, List.cons_append, List.append_assoc, List.cons_append] at h
  obtain ⟨heq, -, hrest⟩ := (List.append_cons_inj_of_notMem hx hback).mp (List.cons.inj h).2
  exact ⟨heq, back, hrest⟩

theorem trimFileID_eq (item item2 : Name) : ∃ rest, trimFileID item item2 = item.1 ++ '/' :: rest := by
  refine ⟨item2.1.take (item2.1.length - (1 + "Metadata.xml".length)), ?_⟩
  have hhead : (item2.1.take (item2.1.length - (1 + "Metadata.xml".length))).head? ≠ some '/' := fun h =>
    item2.2.2 (List.mem_of_mem_take (List.mem_of_mem_head? h))
  rw [trimFileID, PosixPath.join, if_neg hhead, if_neg]
  rintro (hnil | hlast)
  · exact item.2.1 hnil
  · exact item.2.2 (List.mem_of_getLast? hlast)

theorem pattern_not_infix (hu : u.pathReplaceWith = "%transferDirectory%".toList) {p : List Name}
    (hp : '%' ∉ text p) (item item2 : Name) : ¬ pattern item item2 <:+: u.location p := by
  rw [location_eq hu]
  intro h
  obtain ⟨heq, -⟩ := eq_of_occurs hp h
  obtain ⟨rest, hrest⟩ := trimFileID_eq item item2
  have hslash : '/' ∈ transferDirectory := by
    rw [← heq, hrest]
    simp
  exact wildcard_notMem_transferDirectory.2 hslash

theorem text_prefix_of_occurs (hu : u.pathReplaceWith = "%transferDirectory%".toList)
    {p q : List Name} (hp : '%' ∉ text p) (h : u.location q <:+: u.location p) :
    text q <+: text p := by
  rw [location_eq hu, location_eq hu] at h
  exact (eq_of_occurs hp h).2

theorem head_of_destination_infix (hu : u.pathReplaceWith = "%transferDirectory%".toList)
    {p : List Name} {item : Name} (hp : '%' ∉ text p)
    (h : u.location (destination item) <:+: u.location p) : ∃ rest, p = metadata :: rest := by
  obtain ⟨rest, hrest⟩ := head_destination item
  have hne : rest ≠ [] := by
    rintro rfl
    have htwo := two_le_length_destination item
    rw [hrest, List.length_singleton] at htwo
    omega
  have htext : text [metadata] ++ ['/'] <+: text (destination item) := by
    rw [hrest]
    exact (text_prefix_iff (by simp)).mpr ⟨rest, hne, rfl⟩
  obtain ⟨r, -, hr⟩ := (text_prefix_iff (by simp)).mp (htext.trans (text_prefix_of_occurs hu hp h))
  exact ⟨r, hr⟩

end Query

-- The values of the dictionary are those of rows that the query has.
theorem value_of_mem_set {d : Dict Str UUID} {k : Str} {v : UUID} {e : Str × UUID}
    (h : e ∈ d.set k v) : e.2 = v ∨ e ∈ d := by
  induction d with
  | nil =>
      rw [Dict.set_nil, List.mem_singleton] at h
      exact Or.inl (by rw [h])
  | cons item d ih =>
      rw [Dict.set_cons] at h
      split_ifs at h with hk
      · rcases List.mem_cons.mp h with rfl | h
        · exact Or.inl rfl
        · exact Or.inr (List.mem_cons_of_mem item h)
      · rcases List.mem_cons.mp h with rfl | h
        · exact Or.inr List.mem_cons_self
        · exact (ih h).imp_right (List.mem_cons_of_mem item)

theorem exists_row_of_mem {srcDB : Str} {files : List File} {e : Str × UUID}
    (h : e ∈ getFileUUIDLike u srcDB files) :
    ∃ f ∈ files, u.owns f = true ∧ srcDB <:+: f.currentlocation ∧ e.2 = f.uuid := by
  have hfold : ∀ (l : List File) (d : Dict Str UUID),
      e ∈ l.foldl (fun d f => d.set f.currentlocation f.uuid) d → (∃ f ∈ l, e.2 = f.uuid) ∨ e ∈ d := by
    intro l
    induction l with
    | nil => exact fun d he => Or.inr he
    | cons f l ih =>
        intro d he
        rcases ih _ he with ⟨f', hf', hvalue⟩ | hmem
        · exact Or.inl ⟨f', List.mem_cons_of_mem f hf', hvalue⟩
        · exact (value_of_mem_set hmem).imp_left fun hvalue => ⟨f, List.mem_cons_self, hvalue⟩
  rcases hfold _ _ h with ⟨f, hf, hvalue⟩ | hmem
  · obtain ⟨hmem, hof⟩ := List.mem_filter.mp hf
    rw [Bool.and_eq_true, occursIn_iff] at hof
    exact ⟨f, hmem, hof.1, hof.2, hvalue⟩
  · cases hmem

theorem foldl_setUse_of_ne {files : Dict Str UUID} {groups : UUID → Group} {uuid : UUID} {use : Str}
    (h : ∀ e ∈ files, e.2 ≠ uuid) :
    files.foldl (fun groups e => setUse groups e.2 use) groups uuid = groups uuid := by
  induction files generalizing groups with
  | nil => rfl
  | cons e files ih =>
      rw [List.foldl_cons, ih fun e' he' => h e' (List.mem_cons_of_mem e he'), setUse,
        if_neg (h e List.mem_cons_self).symm]

-- The rows have no wildcard in their paths, and those with a key are in directories that
-- are not the metadata.
structure Quiet (u : UnitRef) (uuid : UUID) (s : State α) : Prop where
  names : ∀ f ∈ s.files, u.owns f = true → ∃ p, f.currentlocation = u.location p ∧ '%' ∉ text p
  deep : ∀ f ∈ s.files, f.uuid = uuid → u.owns f = true →
    ∃ p, f.currentlocation = u.location p ∧ 2 ≤ p.length ∧ p.head? ≠ some metadata

theorem wildcard_notMem_append {p q : List Name} (hp : '%' ∉ text p) (hq : '%' ∉ text q) :
    '%' ∉ text (p ++ q) := by
  by_cases hpne : p = []
  · rwa [hpne, List.nil_append]
  · by_cases hqne : q = []
    · rwa [hqne, List.append_nil]
    · rw [text_append hpne hqne]
      simp [hp, hq]

theorem Quiet.of_move {uuid : UUID} {src dst : List Name} (h : Quiet u uuid s)
    (hmove : updateFileLocation2 u src dst s = some s') (hnames : '%' ∉ text src → '%' ∉ text dst)
    (hdeep : 2 ≤ src.length → 2 ≤ dst.length ∧ dst.head? ≠ some metadata) : Quiet u uuid s' := by
  obtain ⟨-, -, hfiles⟩ := updateFileLocation2_cases hmove
  constructor
  · intro f' hf' howns
    rw [hfiles] at hf'
    obtain ⟨f, hf, rfl⟩ := List.mem_map.mp hf'
    rw [relocated_owns] at howns
    obtain ⟨p, hp, hnot⟩ := h.names f hf howns
    by_cases hsrc : p = src
    · subst hsrc
      exact ⟨dst, relocated_of_eq howns hp, hnames hnot⟩
    · exact ⟨p, by rw [relocated_of_ne hp hsrc, hp], hnot⟩
  · intro f' hf' huuid howns
    rw [hfiles] at hf'
    obtain ⟨f, hf, rfl⟩ := List.mem_map.mp hf'
    rw [relocated_uuid] at huuid
    rw [relocated_owns] at howns
    obtain ⟨p, hp, hlen, hhead⟩ := h.deep f hf huuid howns
    by_cases hsrc : p = src
    · subst hsrc
      exact ⟨dst, relocated_of_eq howns hp, hdeep hlen⟩
    · exact ⟨p, by rw [relocated_of_ne hp hsrc, hp], hlen, hhead⟩

-- No query of a container has a row, so that no file is paired.
theorem moveContained_quiet {uuid : UUID} {item item2 : Name}
    (hu : u.pathReplaceWith = "%transferDirectory%".toList) (h : Quiet u uuid t.toState)
    (hstep : moveContained u item t item2 = some t') :
    Quiet u uuid t'.toState ∧ t'.groups uuid = t.groups uuid := by
  obtain ⟨s, hs, rfl⟩ := Option.map_eq_some_iff.mp hstep
  have hquiet : Quiet u uuid s := by
    have hne : objects ≠ metadata := by decide
    refine h.of_move hs (fun hnot => ?_)
      fun _ => ⟨Nat.le_succ 2, fun heq => hne (Option.some.inj heq)⟩
    exact wildcard_notMem_append (p := [objects]) (by decide) hnot
  refine ⟨hquiet, ?_⟩
  have hnone : getFileUUIDLike u (pattern item item2) s.files = [] := by
    refine List.eq_nil_iff_forall_not_mem.mpr fun e he => ?_
    obtain ⟨f, hf, howns, hinfix, -⟩ := exists_row_of_mem he
    obtain ⟨p, hp, hnot⟩ := hquiet.names f hf howns
    rw [hp] at hinfix
    exact pattern_not_infix hu hnot item item2 hinfix
  dsimp only
  split_ifs
  · rw [hnone]
    rfl
  · rfl

theorem foldlM_moveContained_quiet {uuid : UUID} {item : Name} {rest : List Name}
    (hu : u.pathReplaceWith = "%transferDirectory%".toList) (h : Quiet u uuid t.toState)
    (hrun : rest.foldlM (moveContained u item) t = some t') :
    Quiet u uuid t'.toState ∧ t'.groups uuid = t.groups uuid := by
  induction rest generalizing t with
  | nil =>
      obtain rfl := Option.some.inj hrun
      exact ⟨h, rfl⟩
  | cons item2 rest ih =>
      obtain ⟨mid, hmid, hrest⟩ := Option.bind_eq_some_iff.mp hrun
      obtain ⟨hquiet, hgroups⟩ := moveContained_quiet hu h hmid
      obtain ⟨hquiet', hgroups'⟩ := ih hquiet hrest
      exact ⟨hquiet', hgroups'.trans hgroups⟩

theorem moveTopLevel_quiet {uuid : UUID} {item : Name}
    (hu : u.pathReplaceWith = "%transferDirectory%".toList) (h : Quiet u uuid t.toState)
    (hstep : moveTopLevel u item t = some t') :
    Quiet u uuid t'.toState ∧ t'.groups uuid = t.groups uuid := by
  obtain ⟨s, hs, rfl⟩ := Option.map_eq_some_iff.mp hstep
  have hquiet : Quiet u uuid s := by
    refine h.of_move hs (fun hnot => ?_) fun hlen => absurd hlen (by simp)
    unfold destination
    split_ifs
    · exact wildcard_notMem_append (p := [metadata, submissionDocumentation]) (by decide) hnot
    · exact wildcard_notMem_append (p := [metadata]) (by decide) hnot
  refine ⟨hquiet, foldl_setUse_of_ne fun e he heq => ?_⟩
  obtain ⟨f, hf, howns, hinfix, hvalue⟩ := exists_row_of_mem he
  obtain ⟨p, hp, hnot⟩ := hquiet.names f hf howns
  obtain ⟨q, hq, -, hhead⟩ := hquiet.deep f hf (hvalue.symm.trans heq) howns
  obtain rfl : p = q := UnitRef.location_injective (hp.symm.trans hq)
  rw [hp] at hinfix
  obtain ⟨rest, rfl⟩ := head_of_destination_infix hu hnot hinfix
  exact hhead rfl

theorem foldlM_restructureItem_quiet {uuid : UUID} {items : List Name}
    (hu : u.pathReplaceWith = "%transferDirectory%".toList) (h : Quiet u uuid t.toState)
    (hrun : items.foldlM (restructureItem u) t = some t') : t'.groups uuid = t.groups uuid := by
  induction items generalizing t with
  | nil =>
      obtain rfl := Option.some.inj hrun
      rfl
  | cons item rest ih =>
      obtain ⟨mid, hmid, hrest⟩ := Option.bind_eq_some_iff.mp hrun
      have hstep : Quiet u uuid mid.toState ∧ mid.groups uuid = t.groups uuid := by
        unfold restructureItem at hmid
        split_ifs at hmid
        · obtain rfl := Option.some.inj hmid
          exact ⟨h, rfl⟩
        · obtain ⟨made, moved, -, hinner, -, hfiles, hgroups⟩ := steps_of_moveContainer hmid
          have hmade : Quiet u uuid ({ t with disk := made } : Transfer α).toState :=
            ⟨h.names, h.deep⟩
          obtain ⟨hquiet, hsame⟩ := foldlM_moveContained_quiet hu hmade hinner
          refine ⟨⟨?_, ?_⟩, by rw [hgroups, hsame]⟩
          · rw [hfiles]
            exact hquiet.names
          · rw [hfiles]
            exact hquiet.deep
        · exact moveTopLevel_quiet hu h hmid
      exact (ih hstep.1 hrest).trans hstep.2

-- A row of a container starts out away from the metadata.
theorem quiet_of_metadataRow (htree : Tree u t) (hordinary : Ordinary u t) {item m : Name} {f : File}
    (hrow : MetadataRow u t item m f) : Quiet u f.uuid t.toState := by
  constructor
  · intro f' hf' howns
    obtain ⟨c, p, hp, -⟩ := htree.rows f' hf' howns
    exact ⟨p, hp, hordinary.names f' hf' howns p hp⟩
  · intro f' hf' huuid _
    obtain rfl : f' = f := List.inj_on_of_nodup_map htree.keys hf' hrow.mem huuid
    refine ⟨[item, m], hrow.location, Nat.le_refl 2, fun heq => ?_⟩
    exact ne_metadata hrow.container.1 (Option.some.inj heq)

theorem groups_of_metadataRow (htree : Tree u t) (hordinary : Ordinary u t) (h : Stages u t t')
    {item m : Name} {f : File} (hrow : MetadataRow u t item m f) :
    t'.groups f.uuid = t.groups f.uuid := by
  have hquiet := quiet_of_metadataRow htree hordinary hrow
  have hmade : Quiet u f.uuid h.made.toState := by
    constructor
    · rw [h.files]
      exact hquiet.names
    · rw [h.files]
      exact hquiet.deep
  rw [foldlM_restructureItem_quiet hordinary.path hmade h.run, h.groups]

theorem containers_of_compliant (htree : Tree u t) (hordinary : Ordinary u t) (h : Stages u t t')
    (hcompliant : Compliant u t t') (item m : Name) (hcontainer : IsContainer t.disk item)
    (hname : isMetadata m = true) : t.disk.isfile [item, m] = false := by
  by_contra hfile
  rw [Bool.not_eq_false] at hfile
  obtain ⟨c, hc⟩ := Disk.isfile_iff.mp hfile
  obtain ⟨f, hf, howns, hlocation⟩ := htree.files [item, m] c hc
  have hrow : MetadataRow u t item m f := ⟨hcontainer, hfile, hname, hf, howns, hlocation⟩
  have hgroups := groups_of_metadataRow htree hordinary h hrow
  obtain ⟨hnofile, hnocontainer⟩ := hordinary.unmarked f.uuid
  by_cases hdoc : ∃ id, IsMetadataOf m id ∧ ∃ doc, IsDocument t.disk item id doc
  · obtain ⟨id, hid, hdoc⟩ := hdoc
    have huse := (hcompliant.paired item m f id hrow hid hdoc).1
    rw [hgroups] at huse
    exact hnofile huse
  · have huse := hcompliant.single item m f hrow fun id hid hdoc' => hdoc ⟨id, hid, hdoc'⟩
    rw [hgroups] at huse
    exact hnocontainer huse

-- The transfer complies where it is clear, and with ordinary names only there.
theorem compliance_iff (htree : Tree u t)
    (h : restructureTRIMForComplianceFileUUIDsAssigned u t = some t') :
    (Clear t.disk → Compliant u t t') ∧ (Ordinary u t → Compliant u t t' → Clear t.disk) := by
  obtain ⟨hstages⟩ := stages_of_restructure h
  constructor
  · intro hclear
    have hno : ∀ item m f, ¬ MetadataRow u t item m f := by
      intro item m f hrow
      have hfile := hrow.isfile
      rw [hclear.containers item m hrow.container hrow.name] at hfile
      cases hfile
    exact ⟨follows_of_clear htree hclear hstages, fun item m f _ hrow => absurd hrow (hno item m f),
      fun item m f hrow => absurd hrow (hno item m f)⟩
  · intro hordinary hcompliant
    exact ⟨containers_of_compliant htree hordinary hstages hcompliant,
      places_of_follows htree hstages hcompliant.located⟩

section Examples

theorem container_valid : "2009-01".toList ≠ [] ∧ '/' ∉ "2009-01".toList := by simp

theorem document_valid : "D1.doc".toList ≠ [] ∧ '/' ∉ "D1.doc".toList := by simp

theorem metadata_valid : "D1_Metadata.xml".toList ≠ [] ∧ '/' ∉ "D1_Metadata.xml".toList := by simp

def container : Name := ⟨"2009-01".toList, container_valid⟩

def document : Name := ⟨"D1.doc".toList, document_valid⟩

def documentMetadata : Name := ⟨"D1_Metadata.xml".toList, metadata_valid⟩

theorem manifest_valid : "manifest.txt".toList ≠ [] ∧ '/' ∉ "manifest.txt".toList := by simp

def manifest : Name := ⟨"manifest.txt".toList, manifest_valid⟩

def trim : UnitRef := ⟨⟨1⟩, .transferId, "%transferDirectory%".toList⟩

def trimRow (n : BitVec 128) (p : List Name) : File :=
  ⟨⟨n⟩, some ⟨1⟩, none, false, trim.location p⟩

-- A container with one document, beside the manifest.
def oneDocument : Transfer Str where
  disk :=
    { entries := [([manifest], .file "m".toList), ([container], .dir), ([container, document], .file "a".toList)]
      nodup := by decide
      closed := by decide }
  files := [trimRow 2 [container, document], trimRow 4 [manifest]]
  groups := fun _ => ⟨"original".toList, none⟩

-- A container with a document and its metadata.
def withMetadata : Transfer Str where
  disk :=
    { entries := [([container], .dir), ([container, document], .file "a".toList),
        ([container, documentMetadata], .file "b".toList)]
      nodup := by decide
      closed := by decide }
  files := [trimRow 2 [container, document], trimRow 3 [container, documentMetadata]]
  groups := fun _ => ⟨"original".toList, none⟩

-- The tree and its rows, from the entries of the disk.
theorem tree_of_entries {t : Transfer α}
    (hrows : ∀ f ∈ t.files, u.owns f = true → ∃ c, Holds u t.disk f c)
    (hentries : ∀ e ∈ t.disk.entries, e.2 = .dir ∨
      ∃ f ∈ t.files, u.owns f = true ∧ f.currentlocation = u.location e.1)
    (hkeys : (t.files.map (·.uuid)).Nodup) : Tree u t := by
  refine ⟨hrows, fun p c hp => ?_, hkeys⟩
  rcases Disk.mem_of_node hp with rfl | hmem
  · cases hp
  · exact (hentries _ hmem).resolve_left (by simp)

theorem tree_oneDocument : Tree trim oneDocument := by
  refine tree_of_entries (fun f hf _ => ?_) (by decide) (by decide)
  simp only [oneDocument, List.mem_cons, List.not_mem_nil, or_false] at hf
  rcases hf with rfl | rfl
  · exact ⟨"a".toList, [container, document], rfl, by decide⟩
  · exact ⟨"m".toList, [manifest], rfl, by decide⟩

theorem tree_withMetadata : Tree trim withMetadata := by
  refine tree_of_entries (fun f hf _ => ?_) (by decide) (by decide)
  simp only [withMetadata, List.mem_cons, List.not_mem_nil, or_false] at hf
  rcases hf with rfl | rfl
  · exact ⟨"a".toList, [container, document], rfl, by decide⟩
  · exact ⟨"b".toList, [container, documentMetadata], rfl, by decide⟩

theorem clear_oneDocument : Clear oneDocument.disk := by
  have hfile : ∀ p, oneDocument.disk.isfile p = true → p = [manifest] ∨ p = [container, document] := by
    intro p hp
    obtain ⟨c, hc⟩ := Disk.isfile_iff.mp hp
    rcases Disk.mem_of_node hc with rfl | hmem
    · cases hc
    · simp only [oneDocument, List.mem_cons, List.not_mem_nil, or_false, Prod.mk.injEq, reduceCtorEq,
        and_false, false_or] at hmem
      exact hmem.imp And.left And.left
  constructor
  · intro item m _ hm
    rw [Bool.eq_false_iff]
    intro hp
    rcases hfile _ hp with heq | heq
    · simp at heq
    · simp only [List.cons.injEq, and_true] at heq
      rw [heq.2] at hm
      exact absurd hm (by decide)
  · intro n _ hp
    rcases hfile _ hp with heq | heq
    · obtain ⟨rfl, -⟩ := List.cons.inj heq
      exact ⟨by decide, Or.inl (by decide)⟩
    · simp at heq

theorem compliance_oneDocument : ∃ t', restructureTRIMForComplianceFileUUIDsAssigned trim oneDocument =
    some t' ∧ Compliant trim oneDocument t' := by
  have hrun : (restructureTRIMForComplianceFileUUIDsAssigned trim oneDocument).isSome = true := by
    decide
  obtain ⟨t', ht'⟩ := Option.isSome_iff_exists.mp hrun
  exact ⟨t', ht', (compliance_iff tree_oneDocument ht').1 clear_oneDocument⟩

-- The metadata of the document are not paired with it.
theorem metadata_not_paired : Tree trim withMetadata ∧
    ∃ t', restructureTRIMForComplianceFileUUIDsAssigned trim withMetadata = some t' ∧
      t'.groups ⟨3⟩ = ⟨"original".toList, none⟩ ∧ ¬ Compliant trim withMetadata t' := by
  have hrun : ((restructureTRIMForComplianceFileUUIDsAssigned trim withMetadata).map
      fun t => t.groups ⟨3⟩) = some ⟨"original".toList, none⟩ := by decide
  obtain ⟨t', ht', hgroup⟩ := Option.map_eq_some_iff.mp hrun
  refine ⟨tree_withMetadata, t', ht', hgroup, fun h => ?_⟩
  have hrow : MetadataRow trim withMetadata container documentMetadata
      (trimRow 3 [container, documentMetadata]) :=
    ⟨⟨by decide, by decide⟩, by decide, by decide, by decide, by decide, rfl⟩
  have hname : IsMetadataOf documentMetadata "D1".toList := rfl
  have huse := (h.paired container documentMetadata _ "D1".toList hrow hname
    ⟨document, by decide, by decide, "doc".toList, by decide⟩).1
  have huuid : (trimRow 3 [container, documentMetadata]).uuid = ⟨3⟩ := rfl
  rw [huuid, hgroup] at huse
  exact absurd huse (by decide)

end Examples

end Ccp.Worker.TrimRestructure
