import Ccp.Worker.AccessDirectory.Places

namespace Ccp.Worker.AccessDirectory

open Lib
open FileOperations (Name)

section Steps

variable {mv : Str → Str → ℕ} {args : Args} {like p : Str} {f g : File} {s : State}

-- Rows with another dot are passed over.
theorem moveAll_filter (files : List File) (s : State) :
    moveAll mv args like p files s = moveAll mv args like p (files.filter fun f => !dotted like f) s := by
  induction files generalizing s with
  | nil => rfl
  | cons f rest ih =>
      by_cases hdotted : dotted like f = true
      · rw [List.filter_cons_of_neg (by simp [hdotted]), moveAll, if_pos hdotted, ih]
      · rw [List.filter_cons_of_pos (by simp [hdotted]), moveAll, if_neg hdotted, moveAll, if_neg hdotted]
        simp only [ih]

theorem moveAll_of_copy (hcopy : args.copy = true) (files : List File) (s : State) :
    moveAll mv args like p files s = .ok ([], s) := by
  induction files with
  | nil => rfl
  | cons f rest ih => rw [moveAll, ih, if_pos hcopy, ite_self]

theorem candidates_of_like (hlike : args.objectNameLike p = some like) (files : List File) :
    (args.startingWith like files).filter (fun f => !dotted like f) = candidates args files p := by
  rw [candidates, hlike, Args.startingWith, List.filter_filter]
  refine List.filter_congr fun f _ => ?_
  rw [goesWith, Bool.and_comm, Bool.and_assoc]

theorem rename_of_found (hne : p ≠ like) (hfound : ∃ e ∈ s.disk, e.path = p) :
    rename mv p like s = if mv p like ≠ 0 then (mv p like, s) else (0, s.move p like) := by
  rw [rename, if_neg hne, if_neg]
  obtain ⟨e, he, hpath⟩ := hfound
  simp only [List.all_eq_true, decide_eq_true_eq, not_forall, not_not]
  exact ⟨e, he, hpath⟩

theorem rename_of_gone (hne : p ≠ like) (hgone : ∀ e ∈ s.disk, e.path ≠ p) :
    rename mv p like s = (1, s) := by
  rw [rename, if_neg hne, if_pos]
  simpa using hgone

theorem disk_move (src dst q : Str) (s : State) :
    (s.move src dst).disk.filter (fun e => e.file = q) =
      ((s.disk.filter fun e => e.file = q).filter fun e => e.path ≠ dst).map fun e =>
        if e.path = src then { e with path := dst } else e := by
  rw [State.move, List.filter_map, List.filter_filter, List.filter_filter]
  congr 1
  refine List.filter_congr fun e _ => ?_
  rw [Function.comp_apply, Bool.and_comm]
  split_ifs <;> rfl

end Steps

section Walking

def Goes (args : Args) (f : File) (p : Str) : Prop :=
  ∃ like, args.objectNameLike p = some like ∧ goesWith like f = true

-- What the paths of the workflow give.
structure Apart (args : Args) (walk : List Str) : Prop where
  place : ∀ p ∈ walk, ∀ uuid q, args.dipPath uuid q ≠ p
  location : ∀ p ∈ walk, ∀ uuid q, args.location (args.dipPath uuid q) ≠ args.location p
  moved : ∀ p ∈ walk, ∀ f uuid q,
    f.currentlocation = some (args.location (args.dipPath uuid q)) → ¬ Goes args f p
  same : ∀ p ∈ walk, ∀ q ∈ walk, ∀ f, Goes args f p → Goes args f q →
    args.dipPath f.uuid p = args.dipPath f.uuid q → p = q
  uuid : ∀ uuid uuid' p q, args.dipPath uuid p = args.dipPath uuid' q → uuid = uuid'

theorem apart_of_start {sip : SIPDirectory} {sipUUID : UUID} {copy : Bool} {walk : List Str} {s : State}
    (h : Start (sip.args sipUUID copy) walk s) : Apart (sip.args sipUUID copy) walk := by
  have hpaths : ∀ p ∈ walk, ∃ (dirs : List Name) (n : Name),
      p = (sip.args sipUUID copy).accessDirectory ++ FileOperations.text (dirs ++ [n]) := by
    intro p hp
    obtain ⟨rel, hrel, rfl⟩ := h.paths p hp
    exact ⟨rel.dropLast, rel.getLast hrel, by rw [List.dropLast_append_getLast]⟩
  refine ⟨fun p hp uuid q => ?_, fun p hp uuid q => ?_, fun p hp f uuid q hf => ?_,
    fun p hp q hq f hfp hfq heq => ?_, fun uuid uuid' p q heq => (dipPath_injective heq).1⟩
  · obtain ⟨dirs, n, rfl⟩ := hpaths p hp
    exact dipPath_ne uuid q _
  · obtain ⟨dirs, n, rfl⟩ := hpaths p hp
    exact location_dip_ne uuid q _
  · obtain ⟨dirs, n, rfl⟩ := hpaths p hp
    rintro ⟨like, hlike, hgoes⟩
    rw [goesWith_dip hlike hf] at hgoes
    cases hgoes
  · obtain ⟨dirs, n, rfl⟩ := hpaths p hp
    obtain ⟨dirs', n', rfl⟩ := hpaths q hq
    obtain ⟨like, hlike, hgoes⟩ := hfp
    obtain ⟨like', hlike', hgoes'⟩ := hfq
    have hname := (dipPath_injective heq).2
    rw [basename_access, basename_access] at hname
    obtain rfl := Subtype.ext hname
    rw [eq_of_goesWith hlike hlike' hgoes hgoes']

variable {args : Args} {walk rest : List Str} {start s : State} {p q : Str} {f g : File}

theorem mem_candidates {files : List File} :
    f ∈ candidates args files p ↔ f ∈ files ∧ args.live f = true ∧ Goes args f p := by
  rw [candidates, Goes]
  cases hlike : args.objectNameLike p with
  | none => simp
  | some like => simp

theorem isAt_iff {location : Str} :
    isAt args location f = true ↔ args.live f = true ∧ f.currentlocation = some location := by
  rw [isAt, Bool.and_eq_true, decide_eq_true_eq]

theorem isAt_setLocation (location location' : Str) :
    isAt args location (f.setLocation location') = (args.live f && decide (location' = location)) := by
  rw [isAt, File.setLocation]
  simp only [Option.some.injEq]
  rfl

-- The script on its way through the access files, with those that are still to come.
structure Walking (args : Args) (walk : List Str) (start : State) (rest : List Str) (s : State) : Prop where
  kept : ∀ p ∈ walk, Kept args start.files p s
  found : ∀ p ∈ rest, ⟨p, p⟩ ∈ s.disk
  known : (s.disk.map Placed.file).Nodup
  places : ∀ e ∈ s.disk, e.path = e.file ∨ e.file ∈ walk ∧
    ∃ f ∈ start.files, Goes args f e.file ∧ e.path = args.dipPath f.uuid e.file
  uuids : s.files.map File.uuid = start.files.map File.uuid
  rows : ∀ g ∈ s.files, g ∈ start.files ∨
    ∃ uuid q, g.currentlocation = some (args.location (args.dipPath uuid q))
  located : ∀ p ∈ rest, s.files.filter (isAt args (args.location p)) =
    start.files.filter (isAt args (args.location p))

variable (hstart : Start args walk start) (hapart : Apart args walk)

include hstart in
theorem walking_start : Walking args walk start walk start := by
  refine ⟨fun p hp => ⟨p, Table.filter_of_nodup hstart.known (hstart.found p hp), fun f hf hat => ⟨f, hf, rfl, hat⟩⟩,
    hstart.found, hstart.known, fun e he => Or.inl (hstart.disk e he), rfl, fun g hg => Or.inl hg,
    fun _ _ => rfl⟩

variable (hwalking : Walking args walk start rest s)
include hwalking

section
include hapart

theorem Walking.own (hp : p ∈ walk) {e : Placed} (he : e ∈ s.disk) (hpath : e.path = p) : e.file = p := by
  rcases hwalking.places e he with heq | ⟨-, f, -, -, heq⟩
  · rw [← heq, hpath]
  · exact absurd (heq.symm.trans hpath) (hapart.place p hp _ _)

theorem Walking.mem_start (hp : p ∈ walk) (hg : g ∈ s.files) (hgoes : Goes args g p) : g ∈ start.files := by
  rcases hwalking.rows g hg with hmem | ⟨uuid, q, heq⟩
  · exact hmem
  · exact absurd hgoes (hapart.moved p hp g uuid q heq)

-- No access file is where the next one goes.
theorem Walking.free (hsub : ∀ q ∈ rest, q ∈ walk) (huuids : (start.files.map File.uuid).Nodup)
    (hp : p ∈ rest) (hf : f ∈ candidates args s.files p) {e : Placed} (he : e ∈ s.disk)
    (hfile : e.file ∈ walk) : e.path ≠ args.dipPath f.uuid p := by
  intro hpath
  obtain ⟨hmem, -, hgoes⟩ := mem_candidates.mp hf
  rcases hwalking.places e he with heq | ⟨-, f', hf', hgoes', heq⟩
  · exact hapart.place e.file hfile _ _ (hpath.symm.trans heq)
  · have hplace := heq.symm.trans hpath
    have hstarts := hwalking.mem_start hapart (hsub p hp) hmem hgoes
    obtain rfl := List.inj_on_of_nodup_map huuids hf' hstarts (hapart.uuid _ _ _ _ hplace)
    obtain hsame := hapart.same _ hfile _ (hsub p hp) f' hgoes' hgoes hplace
    have hentry := List.inj_on_of_nodup_map hwalking.known he (hwalking.found p hp) hsame
    rw [hentry] at hpath
    exact hapart.place p (hsub p hp) _ _ hpath.symm

end

-- The one row that an access file has at its place.
theorem Walking.row (hstart : Start args walk start) (hsub : ∀ q ∈ rest, q ∈ walk) (hp : p ∈ rest) :
    ∃ h ∈ start.files, isAt args (args.location p) h = true ∧
      s.files.filter (isAt args (args.location p)) = [h] ∧
      start.files.filter (isAt args (args.location p)) = [h] := by
  obtain ⟨h, hh⟩ := hstart.rows p (hsub p hp)
  have hmem : h ∈ start.files.filter (isAt args (args.location p)) := by
    rw [hh]
    exact List.mem_singleton_self h
  obtain ⟨hin, hat⟩ := List.mem_filter.mp hmem
  exact ⟨h, hin, hat, (hwalking.located p hp).trans hh, hh⟩

end Walking

-- The access file at its place in the DIP, with its row.
def landed (args : Args) (src dst : Str) (h : File) (s : State) : State :=
  { s.move src dst with
    files := s.files.map fun g => if g.uuid = h.uuid then g.setLocation (args.location dst) else g
    events := s.events ++ [⟨h.uuid, "movement".toList,
      "moved from=\"".toList ++ args.location src ++ "\"; moved to=\"".toList ++ args.location dst ++
        "\"".toList⟩] }

section Landed

variable {args : Args} {walk rest : List Str} {start s : State} {p q : Str} {f g h : File}
variable (hstart : Start args walk start) (hapart : Apart args walk) (hsub : ∀ q ∈ p :: rest, q ∈ walk)
  (hwalking : Walking args walk start (p :: rest) s) (hf : f ∈ candidates args s.files p)
include hstart hapart hsub hwalking hf

theorem filter_landed (hq : q ∈ walk) {path : Str}
    (hfilter : s.disk.filter (fun e => e.file = q) = [⟨q, path⟩]) :
    (landed args p (args.dipPath f.uuid p) h s).disk.filter (fun e => e.file = q) =
      [⟨q, if q = p then args.dipPath f.uuid p else path⟩] := by
  have hmem : (⟨q, path⟩ : Placed) ∈ s.disk.filter fun e => e.file = q := by
    rw [hfilter]
    exact List.mem_singleton_self _
  have hthere := (List.mem_filter.mp hmem).1
  have hne : path ≠ args.dipPath f.uuid p :=
    hwalking.free hapart hsub hstart.uuids List.mem_cons_self hf hthere hq
  have hown : path = p ↔ q = p := by
    constructor
    · exact hwalking.own hapart (hsub p List.mem_cons_self) hthere
    · rintro rfl
      have hentry := Table.filter_of_nodup hwalking.known (hwalking.found q List.mem_cons_self)
      rw [hfilter] at hentry
      exact congrArg Placed.path (List.cons.inj hentry).1
  have hdisk := disk_move p (args.dipPath f.uuid p) q s
  rw [hfilter, List.filter_cons_of_pos (by simpa using hne), List.filter_nil, List.map_singleton] at hdisk
  refine hdisk.trans ?_
  by_cases hqp : q = p
  · rw [if_pos (hown.mpr hqp), if_pos hqp]
  · rw [if_neg (mt hown.mp hqp), if_neg hqp]

variable (hh : h ∈ start.files) (hat : isAt args (args.location p) h = true)
  (hrow : s.files.filter (isAt args (args.location p)) = [h])
  (hrow' : start.files.filter (isAt args (args.location p)) = [h])
include hh hat hrow hrow'

theorem walking_landed (hnew : p ∉ rest) :
    Walking args walk start rest (landed args p (args.dipPath f.uuid p) h s) := by
  have hp : p ∈ walk := hsub p List.mem_cons_self
  have huuids : (s.files.map File.uuid).Nodup := by
    rw [hwalking.uuids]
    exact hstart.uuids
  have hmem : h ∈ s.files := (List.mem_filter.mp (hrow ▸ List.mem_singleton_self h)).1
  have hfstart : f ∈ start.files :=
    hwalking.mem_start hapart hp (mem_candidates.mp hf).1 (mem_candidates.mp hf).2.2
  refine ⟨fun q hq => ?_, fun q hq => ?_, ?_, fun e he => ?_, ?_, fun g hg => ?_, fun q hq => ?_⟩
  · obtain ⟨path, hfilter, hrows⟩ := hwalking.kept q hq
    refine ⟨_, filter_landed hstart hapart hsub hwalking hf hq hfilter, fun g hg hgat => ?_⟩
    obtain ⟨g', hg', huuid, hgat'⟩ := hrows g hg hgat
    by_cases hqp : q = p
    · subst hqp
      have hgh : g = h := by
        have hin := List.mem_filter.mpr ⟨hg, hgat⟩
        rw [hrow'] at hin
        exact List.mem_singleton.mp hin
      refine ⟨h.setLocation (args.location (args.dipPath f.uuid q)),
        List.mem_map.mpr ⟨h, hmem, if_pos rfl⟩, hgh ▸ rfl, ?_⟩
      rw [isAt_setLocation, if_pos rfl, (isAt_iff.mp hat).1, Bool.true_and, decide_eq_true rfl]
    · have hne : g'.uuid ≠ h.uuid := by
        intro heq
        obtain rfl := List.inj_on_of_nodup_map hstart.uuids hg hh (huuid.symm.trans heq)
        have hlocation := (isAt_iff.mp hgat).2.symm.trans (isAt_iff.mp hat).2
        exact hqp (hstart.apart q hq p hp (Option.some.inj hlocation))
      rw [if_neg hqp]
      exact ⟨g', List.mem_map.mpr ⟨g', hg', if_neg hne⟩, huuid, hgat'⟩
  · have hentry := Table.filter_of_nodup hwalking.known (hwalking.found q (List.mem_cons_of_mem p hq))
    have hlanded := filter_landed (h := h) hstart hapart hsub hwalking hf (hsub q (List.mem_cons_of_mem p hq)) hentry
    have hqp : q ≠ p := fun heq => hnew (heq ▸ hq)
    rw [if_neg hqp] at hlanded
    exact (List.mem_filter.mp (hlanded ▸ List.mem_singleton_self _)).1
  · have hfiles : (landed args p (args.dipPath f.uuid p) h s).disk.map Placed.file =
        (s.disk.filter fun e => e.path ≠ args.dipPath f.uuid p).map Placed.file := by
      rw [landed, State.move, List.map_map]
      refine List.map_congr_left fun e _ => ?_
      rw [Function.comp_apply]
      split_ifs <;> rfl
    rw [hfiles]
    exact hwalking.known.sublist (List.filter_sublist.map _)
  · obtain ⟨e', he', rfl⟩ := List.mem_map.mp he
    have hthere := (List.mem_filter.mp he').1
    split_ifs with hpath
    · have hfile := hwalking.own hapart hp hthere hpath
      refine Or.inr ⟨?_, f, hfstart, ?_, ?_⟩
      · rw [hfile]
        exact hp
      · rw [hfile]
        exact (mem_candidates.mp hf).2.2
      · rw [hfile]
    · exact hwalking.places e' hthere
  · rw [← hwalking.uuids, landed, List.map_map]
    refine List.map_congr_left fun g _ => ?_
    rw [Function.comp_apply]
    split_ifs <;> rfl
  · obtain ⟨g', hg', rfl⟩ := List.mem_map.mp hg
    split_ifs with huuid
    · exact Or.inr ⟨f.uuid, p, rfl⟩
    · exact hwalking.rows g' hg'
  · have hqp : q ≠ p := fun heq => hnew (heq ▸ hq)
    have hq' : q ∈ walk := hsub q (List.mem_cons_of_mem p hq)
    have hhq : isAt args (args.location q) h = false := by
      rw [← Bool.not_eq_true, isAt_iff]
      rintro ⟨-, hlocation⟩
      exact hqp (hstart.apart q hq' p hp (Option.some.inj (hlocation.symm.trans (isAt_iff.mp hat).2)))
    rw [← hwalking.located q (List.mem_cons_of_mem p hq), landed, List.filter_map]
    -- the row that is saved is at neither place of the other file
    have hsame : ∀ g ∈ s.files, (isAt args (args.location q) ∘ fun g : File =>
        if g.uuid = h.uuid then g.setLocation (args.location (args.dipPath f.uuid p)) else g) g =
        isAt args (args.location q) g := by
      intro g hg
      rw [Function.comp_apply]
      split_ifs with huuid
      · obtain rfl := List.inj_on_of_nodup_map huuids hg hmem huuid
        rw [isAt_setLocation, hhq, decide_eq_false (hapart.location q hq' f.uuid p), Bool.and_false]
      · rfl
    rw [List.filter_congr hsame]
    refine (List.map_congr_left fun g hg => ?_).trans (List.map_id _)
    obtain ⟨hg, hgat⟩ := List.mem_filter.mp hg
    rw [if_neg]
    · rfl
    · intro huuid
      obtain rfl := List.inj_on_of_nodup_map huuids hg hmem huuid
      rw [hhq] at hgat
      cases hgat

omit hstart hapart hsub hwalking hf hh hat hrow' in
-- The row is the one that the database finds at the place of the access file.
theorem updateFileLocation_eq : updateFileLocation args (args.location p)
    (args.location (args.dipPath f.uuid p)) (s.move p (args.dipPath f.uuid p)) =
      some (landed args p (args.dipPath f.uuid p) h s) := by
  have hget : Table.get ((s.move p (args.dipPath f.uuid p)).files.filter (isAt args (args.location p))) = .row h :=
    Table.get_eq_row_iff.mpr hrow
  rw [updateFileLocation, hget]
  rfl

omit hapart hsub hf hh hrow' in
theorem files_landed : (landed args p (args.dipPath f.uuid p) h s).files =
    relocate args (args.location p) (args.location (args.dipPath f.uuid p)) s.files := by
  have huuids : (s.files.map File.uuid).Nodup := by
    rw [hwalking.uuids]
    exact hstart.uuids
  have hmem : h ∈ s.files := (List.mem_filter.mp (hrow ▸ List.mem_singleton_self h)).1
  refine List.map_congr_left fun g hg => ?_
  by_cases huuid : g.uuid = h.uuid
  · obtain rfl := List.inj_on_of_nodup_map huuids hg hmem huuid
    rw [if_pos rfl, if_pos hat]
  · rw [if_neg huuid, if_neg]
    intro hgat
    have hin := List.mem_filter.mpr ⟨hg, hgat⟩
    rw [hrow, List.mem_singleton] at hin
    exact huuid (congrArg File.uuid hin)

end Landed

section Result

variable {mv : Str → Str → ℕ} {args : Args} {walk rest : List Str} {start s : State} {p : Str} {f g h : File}

theorem handleFile_of_copy (hcopy : args.copy = true) (accessPath : Str) (exitCode : ℕ) (s : State) :
    ∃ code, handleFile mv args accessPath exitCode s = .next code s := by
  rw [handleFile]
  cases args.objectNameLike accessPath with
  | none => exact ⟨exitCode, rfl⟩
  | some like =>
      simp only [moveAll_of_copy hcopy]
      exact ⟨_, rfl⟩

theorem handleFile_of_none (hnone : candidates args s.files p = []) (exitCode : ℕ) :
    ∃ code, handleFile mv args p exitCode s = .next code s := by
  rw [handleFile]
  cases hlike : args.objectNameLike p with
  | none => exact ⟨exitCode, rfl⟩
  | some like =>
      have hmove : moveAll mv args like p (args.startingWith like s.files) s = .ok ([], s) := by
        rw [moveAll_filter, candidates_of_like hlike, hnone]
        rfl
      simp only [hmove]
      exact ⟨_, rfl⟩

theorem not_dotted_of_mem (hlike : args.objectNameLike p = some like)
    (hf : f ∈ candidates args s.files p) : dotted like f = false := by
  obtain ⟨-, -, like', hlike', hgoes⟩ := mem_candidates.mp hf
  obtain rfl := Option.some.inj (hlike.symm.trans hlike')
  rw [goesWith, Bool.and_eq_true, Bool.not_eq_true'] at hgoes
  exact hgoes.2

theorem moveAll_cons (hdotted : dotted like f = false) (hcopy : args.copy = false) (files : List File) :
    moveAll mv args like p (f :: files) s =
      if (rename mv p (args.dipPath f.uuid p) s).1 ≠ 0 then .error (rename mv p (args.dipPath f.uuid p) s)
      else (moveAll mv args like p files (rename mv p (args.dipPath f.uuid p) s).2).map fun moved =>
        ((args.location p, args.location (args.dipPath f.uuid p)) :: moved.1, moved.2) := by
  rw [moveAll, if_neg (by simp [hdotted]), if_neg (by simp [hcopy])]

variable (hstart : Start args walk start) (hapart : Apart args walk) (hsub : ∀ q ∈ p :: rest, q ∈ walk)
  (hwalking : Walking args walk start (p :: rest) s) (hcopy : args.copy = false)
  {files : List File} (hcons : candidates args s.files p = f :: files)

section
include hapart hsub hwalking

theorem rename_next : rename mv p (args.dipPath f.uuid p) s =
    if mv p (args.dipPath f.uuid p) ≠ 0 then (mv p (args.dipPath f.uuid p), s)
    else (0, s.move p (args.dipPath f.uuid p)) :=
  rename_of_found (fun heq => hapart.place p (hsub p List.mem_cons_self) f.uuid p heq.symm)
    ⟨⟨p, p⟩, hwalking.found p List.mem_cons_self, rfl⟩

omit hwalking in
-- What was moved once is not there any more.
theorem rename_again : rename mv p (args.dipPath g.uuid p) (s.move p (args.dipPath f.uuid p)) =
    (1, s.move p (args.dipPath f.uuid p)) := by
  have hplace := hapart.place p (hsub p List.mem_cons_self)
  refine rename_of_gone (fun heq => hplace g.uuid p heq.symm) fun e he => ?_
  obtain ⟨e', he', rfl⟩ := List.mem_map.mp he
  split_ifs with hpath
  · exact hplace f.uuid p
  · exact hpath

end

include hcons in
theorem exists_like : ∃ like, args.objectNameLike p = some like ∧
    (args.startingWith like s.files).filter (fun f => !dotted like f) = f :: files ∧
    ∀ g ∈ f :: files, dotted like g = false := by
  have hf : f ∈ candidates args s.files p := hcons ▸ List.mem_cons_self
  obtain ⟨-, -, like, hlike, -⟩ := mem_candidates.mp hf
  exact ⟨like, hlike, (candidates_of_like hlike s.files).trans hcons, fun g hg =>
    not_dotted_of_mem hlike (hcons ▸ hg)⟩

include hapart hsub hwalking hcopy hcons

theorem handleFile_of_failed (hmv : mv p (args.dipPath f.uuid p) ≠ 0) (exitCode : ℕ) :
    handleFile mv args p exitCode s = .returned (mv p (args.dipPath f.uuid p)) s := by
  obtain ⟨like, hlike, hfilter, hdotted⟩ := exists_like hcons
  have hrename : rename mv p (args.dipPath f.uuid p) s = _ := rename_next hapart hsub hwalking
  rw [if_pos hmv] at hrename
  have hmove : moveAll mv args like p (args.startingWith like s.files) s =
      .error (mv p (args.dipPath f.uuid p), s) := by
    rw [moveAll_filter, hfilter, moveAll_cons (hdotted f List.mem_cons_self) hcopy, hrename, if_pos hmv]
  simp only [handleFile, hlike, hmove]

theorem handleFile_of_second (hmv : mv p (args.dipPath f.uuid p) = 0) (hfiles : files ≠ [])
    (exitCode : ℕ) :
    handleFile mv args p exitCode s = .returned 1 (s.move p (args.dipPath f.uuid p)) := by
  obtain ⟨like, hlike, hfilter, hdotted⟩ := exists_like hcons
  obtain ⟨g, files, rfl⟩ := List.exists_cons_of_ne_nil hfiles
  have hrename : rename mv p (args.dipPath f.uuid p) s = _ := rename_next hapart hsub hwalking
  rw [if_neg (not_not.mpr hmv)] at hrename
  have hagain : rename mv p (args.dipPath g.uuid p) (s.move p (args.dipPath f.uuid p)) = _ :=
    rename_again hapart hsub
  have hmove : moveAll mv args like p (args.startingWith like s.files) s =
      .error (1, s.move p (args.dipPath f.uuid p)) := by
    rw [moveAll_filter, hfilter, moveAll_cons (hdotted f List.mem_cons_self) hcopy, hrename,
      if_neg (by simp), moveAll_cons (hdotted g (by simp)) hcopy, hagain, if_pos Nat.one_ne_zero]
    rfl
  simp only [handleFile, hlike, hmove]

theorem handleFile_of_one (hmv : mv p (args.dipPath f.uuid p) = 0) (hfiles : files = [])
    (hrow : s.files.filter (isAt args (args.location p)) = [h]) (exitCode : ℕ) :
    ∃ code, handleFile mv args p exitCode s = .next code (landed args p (args.dipPath f.uuid p) h s) := by
  obtain ⟨like, hlike, hfilter, hdotted⟩ := exists_like hcons
  have hrename : rename mv p (args.dipPath f.uuid p) s = _ := rename_next hapart hsub hwalking
  rw [if_neg (not_not.mpr hmv)] at hrename
  have hmove : moveAll mv args like p (args.startingWith like s.files) s =
      .ok ([(args.location p, args.location (args.dipPath f.uuid p))], s.move p (args.dipPath f.uuid p)) := by
    rw [moveAll_filter, hfilter, hfiles, moveAll_cons (hdotted f List.mem_cons_self) hcopy, hrename,
      if_neg (by simp)]
    rfl
  simp only [handleFile, hlike, hmove, List.foldlM_cons, List.foldlM_nil, updateFileLocation_eq hrow]
  exact ⟨_, rfl⟩

end Result

section Main

variable {mv : Str → Str → ℕ} {args : Args} {walk rest : List Str} {start s : State} {p : Str} {f g h : File}

theorem Walking.tail (h : Walking args walk start (p :: rest) s) : Walking args walk start rest s :=
  ⟨h.kept, fun q hq => h.found q (List.mem_cons_of_mem p hq), h.known, h.places, h.uuids, h.rows,
    fun q hq => h.located q (List.mem_cons_of_mem p hq)⟩

-- Moved to the place of the first row, with its own row left behind.
theorem not_kept_move (hstart : Start args walk start) (hapart : Apart args walk)
    (hsub : ∀ q ∈ p :: rest, q ∈ walk) (hwalking : Walking args walk start (p :: rest) s)
    (hf : f ∈ candidates args s.files p) : ¬ Kept args start.files p (s.move p (args.dipPath f.uuid p)) := by
  rintro ⟨path, hfilter, hrows⟩
  have hp := hsub p List.mem_cons_self
  obtain ⟨h, hh, hat, hrow, hrow'⟩ := hwalking.row hstart hsub List.mem_cons_self
  have hmem : h ∈ s.files := (List.mem_filter.mp (hrow ▸ List.mem_singleton_self h)).1
  have hentry := Table.filter_of_nodup hwalking.known (hwalking.found p List.mem_cons_self)
  have hlanded : (s.move p (args.dipPath f.uuid p)).disk.filter (fun e => e.file = p) = _ :=
    filter_landed (h := h) hstart hapart hsub hwalking hf hp hentry
  rw [hfilter, if_pos rfl] at hlanded
  obtain rfl : path = args.dipPath f.uuid p := congrArg Placed.path (List.cons.inj hlanded).1
  obtain ⟨g, hg, huuid, hgat⟩ := hrows h hh hat
  have huuids : (s.files.map File.uuid).Nodup := by
    rw [hwalking.uuids]
    exact hstart.uuids
  obtain rfl := List.inj_on_of_nodup_map huuids hg hmem huuid
  have hlocation := (isAt_iff.mp hgat).2.symm.trans (isAt_iff.mp hat).2
  exact hapart.location p hp f.uuid p (Option.some.inj hlocation)

-- By induction on the access files that are still to come.
theorem kept_iff_of_walking (hstart : Start args walk start) (hapart : Apart args walk)
    (hcopy : args.copy = false) (hsub : ∀ q ∈ rest, q ∈ walk) (hnodup : rest.Nodup)
    (hwalking : Walking args walk start rest s) (exitCode : ℕ) :
    (∀ status s', handleFiles mv args rest exitCode s = some (status, s') →
      ∀ p ∈ walk, Kept args start.files p s') ↔ Clear mv args rest s.files := by
  induction rest generalizing s exitCode with
  | nil =>
      refine iff_of_true (fun status s' h => ?_) trivial
      obtain ⟨-, rfl⟩ := Prod.mk.inj (Option.some.inj h)
      exact hwalking.kept
  | cons p rest ih =>
      obtain ⟨hnew, hnodup⟩ := List.nodup_cons.mp hnodup
      have hsub' : ∀ q ∈ rest, q ∈ walk := fun q hq => hsub q (List.mem_cons_of_mem p hq)
      have hreturned {status : ℕ} {t : State} (heq : handleFile mv args p exitCode s = .returned status t) :
          (∀ status s', handleFiles mv args (p :: rest) exitCode s = some (status, s') →
            ∀ p ∈ walk, Kept args start.files p s') ↔ ∀ p ∈ walk, Kept args start.files p t := by
        rw [handleFiles, heq]
        constructor
        · exact fun hall => hall status t rfl
        · rintro hall status' s' h
          obtain ⟨-, rfl⟩ := Prod.mk.inj (Option.some.inj h)
          exact hall
      cases hcons : candidates args s.files p with
      | nil =>
          obtain ⟨code, hnext⟩ : ∃ code, handleFile mv args p exitCode s = .next code s :=
            handleFile_of_none hcons exitCode
          rw [handleFiles, hnext, Clear, hcons]
          exact ih hsub' hnodup hwalking.tail code
      | cons f files =>
          have hf : f ∈ candidates args s.files p := hcons ▸ List.mem_cons_self
          by_cases hmv : mv p (args.dipPath f.uuid p) = 0
          · by_cases hfiles : files = []
            · obtain ⟨h, hh, hat, hrow, hrow'⟩ := hwalking.row hstart hsub List.mem_cons_self
              obtain ⟨code, hnext⟩ := handleFile_of_one hapart hsub hwalking hcopy hcons hmv hfiles hrow exitCode
              rw [handleFiles, hnext, Clear, hcons, hfiles]
              simp only [hmv, ne_eq, not_true_eq_false, false_or]
              rw [← files_landed hstart hwalking hat hrow]
              exact ih hsub' hnodup (walking_landed hstart hapart hsub hwalking hf hh hat hrow hrow' hnew) code
            · rw [hreturned (handleFile_of_second hapart hsub hwalking hcopy hcons hmv hfiles exitCode)]
              obtain ⟨g, files, rfl⟩ := List.exists_cons_of_ne_nil hfiles
              rw [Clear, hcons]
              refine iff_of_false (fun hall => ?_) (not_not.mpr hmv)
              exact not_kept_move hstart hapart hsub hwalking hf (hall p (hsub p List.mem_cons_self))
          · rw [hreturned (handleFile_of_failed hapart hsub hwalking hcopy hcons hmv exitCode)]
            refine iff_of_true hwalking.kept ?_
            rw [Clear, hcons]
            cases files with
            | nil => exact Or.inl hmv
            | cons g files => exact hmv

theorem handleFiles_of_copy (hcopy : args.copy = true) (files : List Str)
    (exitCode : ℕ) : ∃ code, handleFiles mv args files exitCode s = some (code, s) := by
  induction files generalizing exitCode with
  | nil => exact ⟨exitCode, rfl⟩
  | cons p rest ih =>
      obtain ⟨code, hnext⟩ := @handleFile_of_copy mv args hcopy p exitCode s
      rw [handleFiles, hnext]
      exact ih code

-- Whether the access files are all there when the script returns.
theorem kept_iff (mv : Str → Str → ℕ) {sip : SIPDirectory} {sipUUID : UUID} {copy : Bool}
    (hstart : Start (sip.args sipUUID copy) walk s) :
    (∀ status s', main mv (sip.args sipUUID copy) walk s = some (status, s') →
      ∀ p ∈ walk, Kept (sip.args sipUUID copy) s.files p s') ↔
      copy = true ∨ Clear mv (sip.args sipUUID copy) walk s.files := by
  have hwalking := walking_start hstart
  cases copy with
  | true =>
      refine iff_of_true (fun status s' h => ?_) (Or.inl rfl)
      obtain ⟨code, hsame⟩ := @handleFiles_of_copy mv (sip.args sipUUID true) s rfl walk 179
      obtain ⟨-, rfl⟩ := Prod.mk.inj (Option.some.inj (hsame.symm.trans h))
      exact hwalking.kept
  | false =>
      rw [or_iff_right Bool.false_ne_true]
      exact kept_iff_of_walking hstart (apart_of_start hstart) rfl (fun q hq => hq) hstart.once hwalking 179

end Main

section Example

def shared : SIPDirectory := ⟨"/s/".toList, rfl, rfl⟩

def page : Str := "/s/objects/access/a.pdf".toList

def rowAt (n : ℕ) (location : String) : File := ⟨⟨n⟩, some UUID.nil, false, some location.toList⟩

-- One access file, and two originals of its name.
def scans : State where
  disk := [⟨page, page⟩]
  files := [rowAt 1 "%SIPDirectory%objects/a.jpg", rowAt 2 "%SIPDirectory%objects/a.tif",
    rowAt 3 "%SIPDirectory%objects/access/a.pdf"]
  events := []

theorem start_scans : Start (shared.args UUID.nil false) [page] scans := by
  have hpage : page = (shared.args UUID.nil false).accessDirectory ++
      FileOperations.text [⟨"a.pdf".toList, by decide⟩] := by decide +kernel
  refine ⟨?_, List.nodup_singleton page, ?_, List.nodup_singleton page, ?_, by decide +kernel, ?_, ?_⟩
  · rintro p hp
    exact ⟨_, List.cons_ne_nil _ _, (List.mem_singleton.mp hp).trans hpage⟩
  · rintro e he
    rw [List.mem_singleton.mp he]
  · rintro p hp
    rw [List.mem_singleton.mp hp]
    exact List.mem_singleton_self _
  · rintro p hp
    rw [List.mem_singleton.mp hp]
    exact ⟨rowAt 3 "%SIPDirectory%objects/access/a.pdf", by decide +kernel⟩
  · rintro p hp q hq -
    rw [List.mem_singleton.mp hp, List.mem_singleton.mp hq]

-- An access file with one original, and one without.
def memo : Str := "/s/objects/access/b.pdf".toList

def originals : State where
  disk := [⟨page, page⟩, ⟨memo, memo⟩]
  files := [rowAt 1 "%SIPDirectory%objects/a.tif", rowAt 3 "%SIPDirectory%objects/access/a.pdf",
    rowAt 4 "%SIPDirectory%objects/access/b.pdf"]
  events := []

theorem start_originals : Start (shared.args UUID.nil false) [page, memo] originals where
  paths := by
    have hpage : page = (shared.args UUID.nil false).accessDirectory ++
        FileOperations.text [⟨"a.pdf".toList, by decide⟩] := by decide +kernel
    have hmemo : memo = (shared.args UUID.nil false).accessDirectory ++
        FileOperations.text [⟨"b.pdf".toList, by decide⟩] := by decide +kernel
    exact List.forall_mem_cons.mpr ⟨⟨_, List.cons_ne_nil _ _, hpage⟩,
      List.forall_mem_singleton.mpr ⟨_, List.cons_ne_nil _ _, hmemo⟩⟩
  once := by decide +kernel
  disk := List.forall_mem_cons.mpr ⟨rfl, List.forall_mem_singleton.mpr rfl⟩
  known := by decide +kernel
  found := List.forall_mem_cons.mpr
    ⟨List.mem_cons_self, List.forall_mem_singleton.mpr (List.mem_cons_of_mem _ List.mem_cons_self)⟩
  uuids := by decide +kernel
  rows := List.forall_mem_cons.mpr ⟨⟨rowAt 3 "%SIPDirectory%objects/access/a.pdf", by decide +kernel⟩,
    List.forall_mem_singleton.mpr ⟨rowAt 4 "%SIPDirectory%objects/access/b.pdf", by decide +kernel⟩⟩
  apart := by decide +kernel

theorem kept_scans : (main (fun _ _ => 0) (shared.args UUID.nil false) [page, memo] originals).isSome ∧
    ∀ status s', main (fun _ _ => 0) (shared.args UUID.nil false) [page, memo] originals = some (status, s') →
      ∀ p ∈ [page, memo], Kept (shared.args UUID.nil false) originals.files p s' := by
  refine ⟨by decide +kernel, (kept_iff (fun _ _ => 0) start_originals).mpr (Or.inr ?_)⟩
  have hone : candidates (shared.args UUID.nil false) originals.files page =
      [rowAt 1 "%SIPDirectory%objects/a.tif"] := by decide +kernel
  rw [Clear, hone]
  refine Or.inr ?_
  rw [Clear]
  generalize hnone : candidates _ _ memo = files
  obtain rfl : [] = files := by
    rw [← hnone]
    decide +kernel
  trivial

-- The move to the second original fails, and the row is not saved.
theorem scans_lost : Start (shared.args UUID.nil false) [page] scans ∧
    (main (fun _ _ => 0) (shared.args UUID.nil false) [page] scans).map Prod.fst = some 1 ∧
    ¬ ∀ status s', main (fun _ _ => 0) (shared.args UUID.nil false) [page] scans = some (status, s') →
      ∀ p ∈ [page], Kept (shared.args UUID.nil false) scans.files p s' := by
  refine ⟨start_scans, by decide +kernel, ?_⟩
  rw [main, kept_iff_of_walking start_scans (apart_of_start start_scans) rfl (fun q hq => hq)
    start_scans.once (walking_start start_scans)]
  have htwo : candidates (shared.args UUID.nil false) scans.files page =
      [rowAt 1 "%SIPDirectory%objects/a.jpg", rowAt 2 "%SIPDirectory%objects/a.tif"] := by decide +kernel
  rw [Clear, htwo]
  exact fun hfails => hfails rfl

end Example

end Ccp.Worker.AccessDirectory
