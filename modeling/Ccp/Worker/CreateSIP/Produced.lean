import Ccp.Lib.Run
import Ccp.Worker.CreateSIP

namespace Ccp.Worker.CreateSIP

open Lib FileOperations

variable {α : Type} {toPython : Str → Option UUID} {r : Run} {w w' : World α}

-- Only the disk is changed.
structure SameRows (w w' : World α) : Prop where
  transfers : w'.transfers = w.transfers
  directories : w'.directories = w.directories
  files : w'.files = w.files
  sips : w'.sips = w.sips

theorem SameRows.refl (w : World α) : SameRows w w := ⟨rfl, rfl, rfl, rfl⟩

theorem SameRows.trans {w'' : World α} (h : SameRows w w') (h' : SameRows w' w'') :
    SameRows w w'' :=
  ⟨h'.transfers.trans h.transfers, h'.directories.trans h.directories, h'.files.trans h.files,
    h'.sips.trans h.sips⟩

theorem fs_ok {op : Disk Name α → Option (Disk Name α)} {x : Unit} (h : fs op w = .ok x w') :
    op w.disk = some w'.disk ∧ SameRows w w' := by
  unfold fs at h
  obtain ⟨t, t', hget, h⟩ := Calls.bind_ok_iff.mp h
  obtain ⟨rfl, rfl⟩ := Calls.get_ok_iff.mp hget
  cases hleft : w.left with
  | zero => simp only [hleft] at h; cases h
  | succ left =>
      cases hop : op w.disk with
      | none => simp only [hleft, hop] at h; cases h
      | some disk =>
          simp only [hleft, hop] at h
          cases h
          exact ⟨rfl, ⟨rfl, rfl, rfl, rfl⟩⟩

theorem listdir_ok {p items : List Name} (h : listdir p w = .ok items w') :
    items = w.disk.listdir p ∧ w.disk.isdir p = true ∧ w'.disk = w.disk ∧ SameRows w w' := by
  unfold listdir at h
  obtain ⟨t, t', hget, h⟩ := Calls.bind_ok_iff.mp h
  obtain ⟨rfl, rfl⟩ := Calls.get_ok_iff.mp hget
  obtain ⟨_, t, hfs, h⟩ := Calls.bind_ok_iff.mp h
  obtain ⟨rfl, rfl⟩ := Calls.pure_ok_iff.mp h
  obtain ⟨hop, hsame⟩ := fs_ok hfs
  split_ifs at hop with hdir
  exact ⟨rfl, hdir, (Option.some.inj hop).symm, hsame⟩

theorem forM_cons_ok {β : Type} {f : β → M α Unit} {b : β} {bs : List β} {x : Unit} :
    (b :: bs).forM f w = .ok x w' ↔ ∃ t, f b w = .ok () t ∧ bs.forM f t = .ok x w' := by
  change (f b >>= fun _ => bs.forM f) w = _ ↔ _
  rw [Calls.bind_ok_iff]
  constructor
  · rintro ⟨_, t, hone, hrest⟩
    exact ⟨t, hone, hrest⟩
  · rintro ⟨t, hone, hrest⟩
    exact ⟨(), t, hone, hrest⟩

-- The directories are there then.
theorem createDirectories_ok {directories : List (List Name)} {basepath : List Name} {x : Unit}
    (h : createDirectories directories basepath w = .ok x w') :
    SameRows w w' ∧ (∀ p ∈ directories, w'.disk.node (basepath ++ p) = some .dir) ∧
      Disk.Grown (fun q => ∃ p ∈ directories, q <+: basepath ++ p) w.disk w'.disk := by
  unfold createDirectories at h
  induction directories generalizing w with
  | nil =>
      obtain ⟨-, rfl⟩ := Calls.pure_ok_iff.mp h
      exact ⟨.refl w, by simp, .refl _ w.disk⟩
  | cons p directories ih =>
      obtain ⟨t, hone, hrest⟩ := forM_cons_ok.mp h
      have hgrow : SameRows w t ∧ t.disk.node (basepath ++ p) = some .dir ∧
          Disk.Grown (· <+: basepath ++ p) w.disk t.disk := by
        obtain ⟨u, u', hget, hone⟩ := Calls.bind_ok_iff.mp hone
        obtain ⟨rfl, rfl⟩ := Calls.get_ok_iff.mp hget
        split_ifs at hone with hdir
        · obtain ⟨-, rfl⟩ := Calls.pure_ok_iff.mp hone
          exact ⟨.refl w, Disk.isdir_iff.mp hdir, .refl _ w.disk⟩
        · obtain ⟨hmake, hsame⟩ := fs_ok hone
          refine ⟨hsame, ?_, Disk.grown_of_makedirs hmake⟩
          rw [(Disk.makedirs_eq_some hmake).2.1, if_pos List.prefix_rfl]
      obtain ⟨hsame, hdir, hgrown⟩ := hgrow
      obtain ⟨hsame', hdirs, hgrown'⟩ := ih hrest
      refine ⟨hsame.trans hsame', ?_, ?_⟩
      · rintro q (_ | ⟨_, hq⟩)
        · rw [hgrown'.kept _ (by simp [hdir]), hdir]
        · exact hdirs q hq
      · refine Disk.Grown.trans ⟨hgrown.kept, fun q hnone hne => ?_⟩
          ⟨hgrown'.kept, fun q hnone hne => ?_⟩
        · exact (hgrown.fresh q hnone hne).imp_right fun hle => ⟨p, List.mem_cons_self, hle⟩
        · obtain ⟨hq, p', hp', hle⟩ := hgrown'.fresh q hnone hne
          exact ⟨hq, p', List.mem_cons_of_mem p hp', hle⟩

-- Where a directory has come to whose entries go to another one, with those that are
-- still to go.
structure Moving (src dst : List Name) (d : Disk Name α) (rest : List Name) (d' : Disk Name α) :
    Prop where
  waiting : ∀ n ∈ rest, ∀ p, d'.node (src ++ n :: p) = d.node (src ++ n :: p)
  place : ∀ n ∈ rest, ∀ p, d'.node (dst ++ n :: p) = d.node (dst ++ n :: p)
  files : ∀ n ∉ rest, ∀ p c,
    d'.node (dst ++ n :: p) = some (.file c) ↔ d.node (src ++ n :: p) = some (.file c)
  top : d'.node dst = some .dir
  dirs : ∀ q, ¬ dst <+: q → d'.node q = some .dir → d.node q = some .dir
  outside : ∀ q, ¬ src <+: q → ¬ dst <+: q → d'.node q = d.node q

section Moving

variable {src dst : List Name} {d d' d'' : Disk Name α} {n : Name} {rest : List Name}

theorem apart_append (h : ¬ src <+: dst) (h' : ¬ dst <+: src) (p q : List Name) :
    ¬ src ++ p <+: dst ++ q := by
  intro hle
  rcases List.prefix_or_prefix_of_prefix ((List.prefix_append src p).trans hle)
    (List.prefix_append dst q) with hsrc | hdst
  · exact h hsrc
  · exact h' hdst

-- Before the first entry goes, no file is under a place that one goes to.
theorem Moving.start (htop : d.node dst = some .dir)
    (hfree : ∀ n p c, d.node (src ++ [n]) = none → d.node (dst ++ n :: p) ≠ some (.file c)) :
    Moving src dst d (d.listdir src) d := by
  refine ⟨fun _ _ _ => rfl, fun _ _ _ => rfl, ?_, htop, fun _ _ => id, fun _ _ _ => rfl⟩
  intro n hn p c
  rw [Disk.mem_listdir, not_not] at hn
  have hnone := Disk.node_append_eq_none hn p
  rw [← List.append_cons] at hnone
  rw [hnone]
  exact iff_of_false (hfree n p c hn) (by simp)

-- What was done with one entry: all files under it are at the other place.
theorem Moving.step (hapart : ¬ src <+: dst) (hapart' : ¬ dst <+: src) (hnodup : (n :: rest).Nodup)
    (h : Moving src dst d (n :: rest) d')
    (houtside : ∀ q, ¬ src ++ [n] <+: q → ¬ dst ++ [n] <+: q → d''.node q = d'.node q)
    (hdirs : ∀ q, ¬ dst ++ [n] <+: q → d''.node q = some .dir → d'.node q = some .dir)
    (hfiles : ∀ p c, d''.node (dst ++ n :: p) = some (.file c) ↔
      d'.node (src ++ n :: p) = some (.file c)) : Moving src dst d rest d'' := by
  have hne : ∀ m ∈ rest, n ≠ m := by
    rintro m hm rfl
    exact (List.nodup_cons.mp hnodup).1 hm
  have hsrc : ∀ m p, n ≠ m → d''.node (src ++ m :: p) = d'.node (src ++ m :: p) := by
    intro m p hm
    refine houtside _ ?_ (apart_append hapart' hapart _ _)
    simp [List.prefix_append_right_inj, hm]
  have hdst : ∀ m p, n ≠ m → d''.node (dst ++ m :: p) = d'.node (dst ++ m :: p) := by
    intro m p hm
    refine houtside _ (apart_append hapart hapart' _ _) ?_
    simp [List.prefix_append_right_inj, hm]
  refine ⟨?_, ?_, ?_, ?_, ?_, ?_⟩
  · intro m hm p
    rw [hsrc m p (hne m hm), h.waiting m (List.mem_cons_of_mem n hm)]
  · intro m hm p
    rw [hdst m p (hne m hm), h.place m (List.mem_cons_of_mem n hm)]
  · intro m hm p c
    by_cases heq : n = m
    · subst heq
      rw [hfiles, h.waiting n List.mem_cons_self]
    · rw [hdst m p heq, h.files m (by simp [Ne.symm heq, hm])]
  · refine (houtside _ ?_ ?_).trans h.top
    · have hapart'' := apart_append hapart hapart' [n] []
      rwa [List.append_nil] at hapart''
    · intro hle
      have hlen := hle.length_le
      rw [List.length_append, List.length_singleton] at hlen
      omega
  · intro q hq hdir
    exact h.dirs q hq (hdirs q (fun hle => hq ((List.prefix_append dst [n]).trans hle)) hdir)
  · intro q hq hq'
    rw [houtside q (fun hle => hq ((List.prefix_append src [n]).trans hle))
      (fun hle => hq' ((List.prefix_append dst [n]).trans hle)), h.outside q hq hq']

theorem Moving.moved (hapart : ¬ src <+: dst) (hapart' : ¬ dst <+: src) (hnodup : (n :: rest).Nodup)
    (h : Moving src dst d (n :: rest) d')
    (hmoved : Disk.Moved d' d'' (src ++ [n]) (dst ++ [n])) : Moving src dst d rest d'' := by
  refine h.step hapart hapart' hnodup (fun q => hmoved.node_of_apart) ?_ ?_
  · intro q hq hdir
    by_cases hsrc : src ++ [n] <+: q
    · obtain ⟨p, rfl⟩ := hsrc
      rw [hmoved.node_src (apart_append hapart' hapart [n] [n])] at hdir
      cases hdir
    · rwa [hmoved.node_of_apart hsrc hq] at hdir
  · intro p c
    have hnode := hmoved.node_dst p
    rw [List.append_assoc, List.append_assoc, List.singleton_append] at hnode
    rw [hnode]

-- A whole entry, where there is nothing that it goes into.
theorem Moving.move (hapart : ¬ src <+: dst) (hapart' : ¬ dst <+: src) (hnodup : (n :: rest).Nodup)
    (h : Moving src dst d (n :: rest) d') (hdir : d'.isdir (dst ++ [n]) = false)
    (hmove : d'.move (src ++ [n]) (dst ++ [n]) = some d'') : Moving src dst d rest d'' := by
  have hne : src ++ [n] ≠ dst ++ [n] := fun heq =>
    hapart (List.append_cancel_right heq ▸ List.prefix_rfl)
  have hparent : d'.node (dst ++ [n]).dropLast = some .dir := by
    rw [List.dropLast_concat, h.top]
  rcases Disk.move_eq_some hne (by simp) (Or.inr hparent) hmove with ⟨-, hmoved⟩ | ⟨hisdir, -⟩
  · exact h.moved hapart hapart' hnodup hmoved
  · rw [hdir] at hisdir
    cases hisdir

-- An entry that goes into the other directory under its own name.
theorem Moving.moveInto (hapart : ¬ src <+: dst) (hapart' : ¬ dst <+: src)
    (hnodup : (n :: rest).Nodup) (h : Moving src dst d (n :: rest) d')
    (hmove : d'.move (src ++ [n]) dst = some d'') : Moving src dst d rest d'' := by
  have hne : src ++ [n] ≠ dst := by
    rintro rfl
    exact hapart (List.prefix_append src [n])
  have hsrc : d'.isdir (src ++ [n]) = false ∨ d'.node dst.dropLast = some .dir := by
    right
    by_cases hnil : dst = []
    · rw [hnil]
      rfl
    · have hlast := List.dropLast_append_getLast hnil
      exact Disk.node_of_append (q := [dst.getLast hnil]) (by simp) (by rw [hlast, h.top]; simp)
  rcases Disk.move_eq_some hne (by simp) hsrc hmove with ⟨hisdir, -⟩ | ⟨-, -, hmoved⟩
  · rw [Disk.isdir_iff.mpr h.top] at hisdir
    cases hisdir
  · rw [List.getLast?_concat, Option.toList_some] at hmoved
    exact h.moved hapart hapart' hnodup hmoved

theorem Moving.runInto {x : Unit} (hapart : ¬ src <+: dst) (hapart' : ¬ dst <+: src)
    (hnodup : rest.Nodup) (h : Moving src dst d rest w.disk)
    (hrun : (rest.forM fun n => fs (·.move (src ++ [n]) dst)) w = .ok x w') :
    Moving src dst d [] w'.disk ∧ SameRows w w' := by
  induction rest generalizing w with
  | nil =>
      obtain ⟨-, rfl⟩ := Calls.pure_ok_iff.mp hrun
      exact ⟨h, .refl w⟩
  | cons n rest ih =>
      obtain ⟨t, hone, hrest⟩ := forM_cons_ok.mp hrun
      obtain ⟨hmove, hsame⟩ := fs_ok hone
      obtain ⟨hend, hsame'⟩ :=
        ih (List.nodup_cons.mp hnodup).2 (h.moveInto hapart hapart' hnodup hmove) hrest
      exact ⟨hend, hsame.trans hsame'⟩

end Moving

section Objects

variable {d d' : Disk Name α} {n : Name} {rest : List Name} {x : Unit}

theorem Run.objects_apart (r : Run) : ¬ r.objectsDirectory <+: r.tmpSIPDir ++ [objects] := by
  have hout : ¬ r.objectsDirectory <+: r.tmpSIPDir := fun hle =>
    r.outside ((List.dropLast_prefix _).trans hle)
  have hapart := apart_append hout r.beside [] [objects]
  rwa [List.append_nil] at hapart

theorem Run.objects_apart' (r : Run) : ¬ r.tmpSIPDir ++ [objects] <+: r.objectsDirectory := fun hle =>
  r.beside ((List.prefix_append _ _).trans hle)

theorem moveItem_ok (hvacant : Vacant r d) (hitem : d.node (r.objectsDirectory ++ [n]) ≠ none)
    (hnodup : (n :: rest).Nodup)
    (h : Moving r.objectsDirectory (r.tmpSIPDir ++ [objects]) d (n :: rest) w.disk)
    (hstep : moveItem r n w = .ok x w') :
    Moving r.objectsDirectory (r.tmpSIPDir ++ [objects]) d rest w'.disk ∧ SameRows w w' := by
  have hassoc : ∀ p, r.tmpSIPDir ++ objects :: p = r.tmpSIPDir ++ [objects] ++ p := by simp
  have hplace := h.place n List.mem_cons_self
  have hwaiting := h.waiting n List.mem_cons_self
  unfold moveItem at hstep
  obtain ⟨u, u', hget, hstep⟩ := Calls.bind_ok_iff.mp hstep
  obtain ⟨rfl, rfl⟩ := Calls.get_ok_iff.mp hget
  split_ifs at hstep with hcond
  · rw [Bool.and_eq_true, hassoc] at hcond
    obtain ⟨hfound, hisdir⟩ := hcond
    obtain ⟨subitems, t, hlist, hrun⟩ := Calls.bind_ok_iff.mp hstep
    obtain ⟨rfl, -, hdisk, hsame⟩ := listdir_ok hlist
    rw [hassoc] at hrun
    have hsrc : d.node (r.objectsDirectory ++ [n]) = some .dir :=
      (hwaiting []).symm.trans (Disk.isdir_iff.mp hisdir)
    have htop : w.disk.node (r.tmpSIPDir ++ [objects] ++ [n]) = some .dir := by
      obtain ⟨y, hy⟩ := Option.ne_none_iff_exists'.mp (Disk.found_iff.mp hfound)
      cases y with
      | dir => exact hy
      | file c =>
          -- the only files are those that a file goes over
          rw [hplace, ← hassoc] at hy
          obtain ⟨m, hm, hfile⟩ := hvacant.files [n] c hy
          obtain rfl : n = m := by simpa using hm
          obtain ⟨c', hc'⟩ := Disk.isfile_iff.mp hfile
          rw [hsrc] at hc'
          cases hc'
    have hstart : Moving (r.objectsDirectory ++ [n]) (r.tmpSIPDir ++ [objects] ++ [n]) w.disk
        (w.disk.listdir (r.objectsDirectory ++ [n])) w.disk := by
      refine Moving.start htop fun m p c _ hc => ?_
      rw [List.append_assoc, List.singleton_append, hplace, ← hassoc] at hc
      obtain ⟨k, hk, -⟩ := hvacant.files _ c hc
      simp at hk
    have hapart := apart_append r.objects_apart r.objects_apart' [n] [n]
    have hapart' := apart_append r.objects_apart' r.objects_apart [n] [n]
    have hstart' : Moving (r.objectsDirectory ++ [n]) (r.tmpSIPDir ++ [objects] ++ [n]) w.disk
        (w.disk.listdir (r.objectsDirectory ++ [n])) t.disk := by rwa [hdisk]
    obtain ⟨hend, hsame'⟩ :=
      Moving.runInto hapart hapart' (w.disk.nodup_listdir _) hstart' hrun
    refine ⟨h.step r.objects_apart r.objects_apart' hnodup hend.outside hend.dirs ?_,
      hsame.trans hsame'⟩
    intro p c
    cases p with
    | nil => rw [hend.top, hwaiting, hsrc]
    | cons m p =>
        have hfiles := hend.files m (by simp) p c
        rwa [List.append_assoc _ [n], List.append_assoc _ [n], List.singleton_append] at hfiles
  · rw [hassoc] at hcond hstep
    obtain ⟨hmove, hsame⟩ := fs_ok hstep
    refine ⟨h.move r.objects_apart r.objects_apart' hnodup ?_ hmove, hsame⟩
    by_contra hdir
    rw [Bool.not_eq_false] at hdir
    -- then the item is a file, and would go into the directory
    have hfile : d.isfile (r.objectsDirectory ++ [n]) = true := by
      obtain ⟨y, hy⟩ := Option.ne_none_iff_exists'.mp hitem
      cases y with
      | file c => exact Disk.isfile_iff.mpr ⟨c, hy⟩
      | dir =>
          refine absurd ?_ hcond
          rw [Bool.and_eq_true, Disk.isdir_iff, hwaiting, Disk.found_iff]
          exact ⟨by rw [Disk.isdir_iff.mp hdir]; simp, hy⟩
    have hnot := hvacant.dirs n hfile
    rw [hassoc, Disk.isdir_congr (hplace []).symm, hdir] at hnot
    cases hnot

theorem moveItems_ok (hvacant : Vacant r d) (hitems : ∀ n ∈ rest, d.node (r.objectsDirectory ++ [n]) ≠ none)
    (hnodup : rest.Nodup)
    (h : Moving r.objectsDirectory (r.tmpSIPDir ++ [objects]) d rest w.disk)
    (hrun : rest.forM (moveItem r) w = .ok x w') :
    Moving r.objectsDirectory (r.tmpSIPDir ++ [objects]) d [] w'.disk ∧ SameRows w w' := by
  induction rest generalizing w with
  | nil =>
      obtain ⟨-, rfl⟩ := Calls.pure_ok_iff.mp hrun
      exact ⟨h, .refl w⟩
  | cons n rest ih =>
      obtain ⟨t, hone, hrest⟩ := forM_cons_ok.mp hrun
      obtain ⟨hnext, hsame⟩ := moveItem_ok hvacant (hitems n List.mem_cons_self) hnodup h hone
      obtain ⟨hend, hsame'⟩ := ih (fun m hm => hitems m (List.mem_cons_of_mem n hm))
        (List.nodup_cons.mp hnodup).2 hnext hrest
      exact ⟨hend, hsame.trans hsame'⟩

end Objects

section Texts

theorem named_val (n : Name) : named n.1 = some n := by
  have h : n.1.isEmpty = false ∧ n.1.contains '/' = false := by simpa using n.2
  rw [named, dif_pos h]

theorem resolve_absolute {p : List Name} (hp : p ≠ []) : resolve (absolute p) = p := by
  have hsplit : (absolute p).splitOn '/' = [] :: p.map Subtype.val := by
    have hcut := List.splitOn_append_cons_self (a := '/') [] (text p)
    rw [splitOn_text hp] at hcut
    exact hcut
  rw [resolve, hsplit, List.filterMap_cons, List.filterMap_map]
  have hid : named ∘ Subtype.val = (some : Name → Option Name) := funext named_val
  rw [hid, List.filterMap_some]
  rfl

theorem getLast?_text {p : List Name} : (text p).getLast? ≠ some '/' := by
  induction p using List.reverseRecOn with
  | nil => simp [FileOperations.text]
  | append_singleton p n _ =>
      have hlast : n.1.getLast? ≠ some '/' := fun h => n.2.2 (List.mem_of_getLast? h)
      by_cases hp : p = []
      · rw [hp, List.nil_append]
        simpa [FileOperations.text] using hlast
      · have htext : text [n] = n.1 := by simp [FileOperations.text]
        rw [text_append hp (by simp), htext, List.append_cons, List.getLast?_append_of_ne_nil _ n.2.1]
        exact hlast

theorem currentPath_eq (r : Run) {p : List Name}
    (hplain : ¬ transferDirectory <:+: text (objects :: p)) :
    r.currentPath (transferDirectory ++ text (objects :: p)) =
      absolute (r.tmpSIPDir ++ objects :: p) := by
  rw [Run.currentPath, replaceAll_append (by decide) hplain, absolute, absolute,
    text_append (by simp [Run.tmpSIPDir]) (by simp)]
  simp

theorem updateFile_eq {d : Disk Name α} {sip : UUID} {f : File} {p : List Name}
    (hplain : ¬ transferDirectory <:+: text (objects :: p))
    (htransfer : f.transfer = some r.transferUUID) (hremoved : f.removed = false)
    (hf : f.currentlocation = transferDirectory ++ text (objects :: p))
    (hfile : d.isfile (r.tmpSIPDir ++ objects :: p) = true) :
    updateFile r d sip f =
      { f with currentlocation := sipDirectory ++ text (objects :: p), sip := some sip } := by
  have hin : inObjects r f.transfer f.currentlocation = true := by
    have hpre : "objects".toList <+: text (objects :: p) := by
      by_cases hp : p = []
      · rw [hp]
        exact List.prefix_rfl
      · have happend := text_append (p := [objects]) (by simp) hp
        rw [List.singleton_append] at happend
        rw [happend]
        exact List.prefix_append _ _
    rw [inObjects, htransfer, hf, decide_eq_true rfl, Bool.true_and, List.isPrefixOf_iff_prefix,
      List.prefix_append_right_inj]
    exact hpre
  have hlast : (absolute (r.tmpSIPDir ++ objects :: p)).getLast? ≠ some '/' := by
    rw [absolute, ← List.singleton_append, List.getLast?_append_of_ne_nil _ (text_ne_nil (by simp))]
    exact getLast?_text
  have hisfile : isfileText d (r.currentPath f.currentlocation) = true := by
    rw [hf, currentPath_eq r hplain, isfileText, resolve_absolute (by simp), hfile]
    simpa using hlast
  rw [updateFile, hin, hremoved, hisfile, Bool.true_and, Bool.not_false, Bool.true_and, if_pos rfl,
    relocated, hf, replaceAll_append (by decide) hplain]

theorem updateFile_uuid (r : Run) (d : Disk Name α) (sip : UUID) (f : File) :
    (updateFile r d sip f).uuid = f.uuid := by
  unfold updateFile
  split_ifs <;> rfl

end Texts

section Identity

theorem sipIdentity_ok {type sipType s : Str} (htype : w.transfers.lookup r.transferUUID = some type)
    (h : sipIdentity r type w = .ok (sipType, s) w') :
    w'.disk = w.disk ∧ SameRows w w' ∧ Identity r w s := by
  unfold sipIdentity at h
  split_ifs at h with hre
  · obtain ⟨items, t, hlist, h⟩ := Calls.bind_ok_iff.mp h
    obtain ⟨rfl, -, hdisk, hsame⟩ := listdir_ok hlist
    obtain ⟨heq, rfl⟩ := Calls.pure_ok_iff.mp h
    obtain ⟨rfl, rfl⟩ := Prod.mk.inj heq
    refine ⟨hdisk, hsame, ?_⟩
    cases hlast : ((w.disk.listdir (r.transferDirectory ++ [metadata])).filter isMets).getLast? with
    | none => exact Or.inl rfl
    | some item =>
        obtain ⟨hmem, hmets⟩ := List.mem_filter.mp (List.mem_of_getLast? hlast)
        rw [Disk.mem_listdir, List.append_assoc, List.singleton_append] at hmem
        exact Or.inr ⟨by rw [htype]; exact hre, item, hmets, hmem, rfl⟩
  · obtain ⟨heq, rfl⟩ := Calls.pure_ok_iff.mp h
    obtain ⟨rfl, rfl⟩ := Prod.mk.inj heq
    exact ⟨rfl, .refl w, Or.inl rfl⟩

end Identity

section Call

variable {ds : List (List Name)} {d d' : Disk Name α} {x : Unit}

-- Directories of the SIP are made in the temporary directory, or lead to it.
def Within (r : Run) (ds : List (List Name)) (q : List Name) : Prop := ∃ p ∈ ds, q <+: r.tmpSIPDir ++ p

theorem Within.cases {q : List Name} (h : Within r ds q) : q <+: r.tmpSIPDir ∨ r.tmpSIPDir <+: q := by
  obtain ⟨p, -, hle⟩ := h
  exact List.prefix_or_prefix_of_prefix hle (List.prefix_append _ p)

theorem Vacant.grown (h : Vacant r d) (hgrown : Disk.Grown (Within r requiredDirectories) d d') :
    Vacant r d' where
  files p c hc := by
    obtain ⟨n, hn, hfile⟩ := h.files p c (hgrown.node_file_iff.mp hc)
    exact ⟨n, hn, by rw [hgrown.isfile_eq, hfile]⟩
  dirs n hn := by
    rw [hgrown.isfile_eq] at hn
    by_contra hdir
    rw [Bool.not_eq_false, Disk.isdir_iff] at hdir
    rcases hgrown.node_dir hdir with hd | ⟨p, hp, hle⟩
    · rw [← Disk.isdir_iff, h.dirs n hn] at hd
      cases hd
    · -- none of the directories is in the objects
      rw [List.prefix_append_right_inj] at hle
      have hnone : ∀ p ∈ requiredDirectories, p.head? = some objects → p.length = 1 := by decide
      obtain ⟨t, rfl⟩ := hle
      simpa using hnone _ hp rfl

theorem Identity.grown {s : Str} (hgrown : Disk.Grown (Within r requiredDirectories) w.disk w'.disk)
    (hsame : SameRows w w') (h : Identity r w' s) : Identity r w s := by
  rcases h with h | ⟨hre, item, hmets, hitem, h⟩
  · exact Or.inl h
  · refine Or.inr ⟨by rwa [← hsame.transfers], item, hmets, fun hnone => ?_, h⟩
    -- the transfer is beside what is made
    obtain ⟨-, p, -, hle⟩ := hgrown.fresh _ hnone hitem
    have hfront := (List.prefix_append r.transferDirectory [metadata, item]).trans hle
    rcases List.prefix_or_prefix_of_prefix hfront (List.prefix_append _ p) with hout | hbeside
    · exact r.outside hout
    · exact r.beside (hbeside.trans (List.dropLast_prefix _))

-- The objects of the transfer are in the temporary directory, and nothing else that is a
-- file, and no directory is new beside it.
structure Gathered (r : Run) (d d' : Disk Name α) : Prop where
  files : ∀ p c, d'.node (r.tmpSIPDir ++ objects :: p) = some (.file c) ↔
    d.node (r.objectsDirectory ++ p) = some (.file c)
  dirs : ∀ q, ¬ r.tmpSIPDir <+: q → d'.node q = some .dir → d.node q = some .dir ∨ q <+: r.tmpSIPDir

theorem Gathered.grown {d'' : Disk Name α} (h : Gathered r d d')
    (hgrown : Disk.Grown (Within r ds) d' d'') : Gathered r d d'' where
  files p c := by rw [hgrown.node_file_iff, h.files]
  dirs q hq hdir := by
    rcases hgrown.node_dir hdir with hd | hplace
    · exact h.dirs q hq hd
    · exact Or.inr (hplace.cases.resolve_right hq)

theorem Gathered.copy {d'' : Disk Name α} {src p : List Name} {n : Name} (h : Gathered r d d')
    (hn : n ≠ objects) (hcopy : d'.copy src (r.tmpSIPDir ++ n :: p) = some d'') : Gathered r d d'' where
  files q c := by
    rw [Disk.node_of_copy hcopy, h.files]
    rw [List.prefix_append_right_inj, List.cons_prefix_cons]
    exact fun hle => hn hle.1
  dirs q hq hdir := by
    rw [Disk.node_of_copy hcopy fun hle => hq ((List.prefix_append _ _).trans hle)] at hdir
    exact h.dirs q hq hdir

theorem gathered_of_moved {items : List Name} (hvacant : Vacant r w.disk)
    (hprepare : createDirectories requiredDirectories r.tmpSIPDir w = .ok x w') {s t : World α}
    (hdisk : s.disk = w'.disk) (hitems : items = s.disk.listdir r.objectsDirectory)
    (hisdir : s.disk.isdir r.objectsDirectory = true)
    (hrun : items.forM (moveItem r) s = .ok x t) : Gathered r w.disk t.disk ∧ SameRows s t := by
  obtain ⟨-, hmade, hgrown⟩ := createDirectories_ok hprepare
  have hgrown' : Disk.Grown (Within r requiredDirectories) w.disk s.disk := hdisk ▸ hgrown
  have hvacant' := hvacant.grown hgrown'
  have htop : s.disk.node (r.tmpSIPDir ++ [objects]) = some .dir := by
    rw [hdisk]
    exact hmade [objects] (by decide)
  have hassoc : ∀ p, r.tmpSIPDir ++ objects :: p = r.tmpSIPDir ++ [objects] ++ p := by simp
  have hstart : Moving r.objectsDirectory (r.tmpSIPDir ++ [objects]) s.disk items s.disk := by
    rw [hitems]
    refine Moving.start htop fun n p c hn hc => ?_
    rw [← hassoc] at hc
    obtain ⟨m, hm, hfile⟩ := hvacant'.files _ c hc
    obtain ⟨rfl, rfl⟩ : n = m ∧ p = [] := by simpa using hm
    obtain ⟨c', hc'⟩ := Disk.isfile_iff.mp hfile
    rw [hn] at hc'
    cases hc'
  obtain ⟨hend, hsame⟩ := moveItems_ok hvacant'
    (fun n hn => by rwa [hitems, Disk.mem_listdir] at hn)
    (hitems ▸ Disk.nodup_listdir _ _) hstart hrun
  refine ⟨⟨fun p c => ?_, fun q hq hdir => ?_⟩, hsame⟩
  · rw [← hgrown'.node_file_iff, hassoc]
    cases p with
    | nil =>
        rw [List.append_nil, List.append_nil, hend.top, Disk.isdir_iff.mp hisdir]
    | cons n p => exact hend.files n (by simp) p c
  · have hd := hend.dirs q (fun hle => hq ((List.prefix_append _ _).trans hle)) hdir
    exact (hgrown'.node_dir hd).imp_right fun hplace => hplace.cases.resolve_right hq

theorem getOrCreate_ok {sip : SIP} (h : getOrCreate sip w = .ok x w') :
    w'.disk = w.disk ∧ w'.files = w.files ∧
      ∃ s ∈ w'.sips, s.uuid = sip.uuid ∧ s.currentpath = sip.currentpath := by
  unfold getOrCreate at h
  obtain rfl := Calls.modify_ok_iff.mp h
  refine ⟨rfl, rfl, ?_⟩
  dsimp only
  split_ifs with hany
  · obtain ⟨s, hs, huuid⟩ := List.any_eq_true.mp hany
    rw [decide_eq_true_eq] at huuid
    exact ⟨_, List.mem_map.mpr ⟨s, hs, rfl⟩, by rw [if_pos huuid]; exact ⟨huuid, rfl⟩⟩
  · exact ⟨sip, by simp, rfl, rfl⟩

-- The last move, to a place that is not there.
theorem Gathered.moved {dest : List Name} {d'' : Disk Name α} (h : Gathered r d d')
    (hfree : d.isdir dest = false ∧ ¬ dest <+: r.tmpSIPDir) (hmove : d'.move r.tmpSIPDir dest = some d'')
    (p : List Name) (c : α) :
    d''.node (dest ++ objects :: p) = some (.file c) ↔
      d.node (r.objectsDirectory ++ p) = some (.file c) := by
  have hne : r.tmpSIPDir ≠ dest := fun heq => hfree.2 (heq ▸ List.prefix_rfl)
  have hnot : d'.isdir dest = false := by
    by_contra hdir
    rw [Bool.not_eq_false] at hdir
    have hparent : d'.node dest.dropLast = some .dir := by
      by_cases hnil : dest = []
      · rw [hnil]
        rfl
      · have hlast := List.dropLast_append_getLast hnil
        refine Disk.node_of_append (q := [dest.getLast hnil]) (by simp) ?_
        rw [hlast, Disk.isdir_iff.mp hdir]
        simp
    rcases Disk.move_eq_some hne (by simp [Run.tmpSIPDir]) (Or.inr hparent) hmove with
      ⟨hno, -⟩ | ⟨-, -, hmoved⟩
    · rw [hdir] at hno
      cases hno
    · have hout : ¬ r.tmpSIPDir <+: dest := fun hle => hmoved.apart (hle.trans (List.prefix_append _ _))
      rcases h.dirs dest hout (Disk.isdir_iff.mp hdir) with hd | hle
      · rw [← Disk.isdir_iff, hfree.1] at hd
        cases hd
      · exact hfree.2 hle
  rw [Disk.node_of_move hne hnot hmove, h.files]

-- The rows of the files, each with its own file in the temporary directory.
theorem owned_of_gathered {d : Disk Name α} (hclear : Clear r w) (h : Gathered r w.disk d) (uuid : UUID)
    (f : File) : Owned r w uuid f (updateFile r d uuid f) := by
  intro p htransfer hremoved hlocation hfile
  obtain ⟨c, hc⟩ := Disk.isfile_iff.mp hfile
  have hmoved : d.isfile (r.tmpSIPDir ++ objects :: p) = true :=
    Disk.isfile_iff.mpr ⟨c, (h.files p c).mpr hc⟩
  rw [updateFile_eq (hclear.plain p hfile) htransfer hremoved hlocation hmoved]
  exact ⟨rfl, rfl⟩

-- The metadata that a transfer may have.
theorem metadata_ok {β : Type} {rest : M α β} {made : β} {dc : List Name} (hgathered : Gathered r d w.disk)
    (h : (if w.disk.found dc then
        fs (·.copy dc (r.tmpSIPDir ++ [metadata, dcJson])) >>= fun _ => rest
      else rest) w = .ok made w') :
    ∃ t, SameRows w t ∧ Gathered r d t.disk ∧ rest t = .ok made w' := by
  split_ifs at h with hfound
  · obtain ⟨_, t, hcopy, h⟩ := Calls.bind_ok_iff.mp h
    obtain ⟨hop, hsame⟩ := fs_ok hcopy
    exact ⟨t, hsame, hgathered.copy (by decide) hop, h⟩
  · exact ⟨w, .refl w, hgathered, h⟩

-- The end of a run, with the last move.
theorem finish_ok {name : Name} {uuid uuid' : UUID} {destSIPDir : List Name}
    (hgathered : Gathered r d w.disk)
    (hfree : d.isdir (r.autoProcessSIPDirectory ++ [name]) = false ∧
      ¬ r.autoProcessSIPDirectory ++ [name] <+: r.tmpSIPDir)
    (h : (fs (·.copy (r.transferDirectory ++ [processingMCP]) (r.tmpSIPDir ++ [processingMCP]))
      >>= fun _ => fs (·.move r.tmpSIPDir (r.autoProcessSIPDirectory ++ [name]))
      >>= fun _ => pure (uuid', r.autoProcessSIPDirectory ++ [name])) w =
        .ok (uuid, destSIPDir) w') :
    SameRows w w' ∧ uuid' = uuid ∧ r.autoProcessSIPDirectory ++ [name] = destSIPDir ∧
      ∀ p c, w'.disk.node (destSIPDir ++ objects :: p) = some (.file c) ↔
        d.node (r.objectsDirectory ++ p) = some (.file c) := by
  obtain ⟨_, t, hcopy, h⟩ := Calls.bind_ok_iff.mp h
  obtain ⟨_, t', hmove, h⟩ := Calls.bind_ok_iff.mp h
  obtain ⟨hcopied, hsame⟩ := fs_ok hcopy
  obtain ⟨hmoved, hsame'⟩ := fs_ok hmove
  obtain ⟨heq, rfl⟩ := Calls.pure_ok_iff.mp h
  obtain ⟨rfl, rfl⟩ := Prod.mk.inj heq
  exact ⟨hsame.trans hsame', rfl, rfl, (hgathered.copy (by decide) hcopied).moved hfree hmoved⟩

theorem call_produced {uuid : UUID} {destSIPDir : List Name} (hclear : Clear r w)
    (h : call toPython r w = .ok (uuid, destSIPDir) w') : Produced r w w' uuid destSIPDir := by
  unfold call at h
  obtain ⟨_, s₁, h₁, h⟩ := Calls.bind_ok_iff.mp h
  obtain ⟨u, u', hget, h⟩ := Calls.bind_ok_iff.mp h
  obtain ⟨rfl, rfl⟩ := Calls.get_ok_iff.mp hget
  obtain ⟨hsame₁, -, hgrown⟩ := createDirectories_ok h₁
  cases htype : s₁.transfers.lookup r.transferUUID with
  | none =>
      simp only [htype] at h
      exact absurd h Calls.throw_ne_ok
  | some type =>
      simp only [htype] at h
      obtain ⟨⟨sipType, sipUUID⟩, s₂, h₂, h⟩ := Calls.bind_ok_iff.mp h
      obtain ⟨hdisk₂, hsame₂, hidentity⟩ := sipIdentity_ok htype h₂
      cases hname : named (r.transferName.1 ++ '-' :: sipUUID) with
      | none =>
          simp only [hname] at h
          exact absurd h Calls.throw_ne_ok
      | some name =>
          cases huuid : toPython sipUUID with
          | none =>
              simp only [hname, huuid] at h
              exact absurd h Calls.throw_ne_ok
          | some uuid' =>
              simp only [hname, huuid] at h
              obtain ⟨u, u', hget, h⟩ := Calls.bind_ok_iff.mp h
              obtain ⟨rfl, rfl⟩ := Calls.get_ok_iff.mp hget
              obtain ⟨_, s₃, h₃, h⟩ := Calls.bind_ok_iff.mp h
              obtain ⟨items, s₄, h₄, h⟩ := Calls.bind_ok_iff.mp h
              obtain ⟨_, s₅, h₅, h⟩ := Calls.bind_ok_iff.mp h
              obtain ⟨_, s₆, h₆, h⟩ := Calls.bind_ok_iff.mp h
              obtain ⟨_, s₇, h₇, h⟩ := Calls.bind_ok_iff.mp h
              obtain ⟨_, s₈, h₈, h⟩ := Calls.bind_ok_iff.mp h
              obtain ⟨hdisk₃, hfiles₃, hsip⟩ := getOrCreate_ok h₃
              obtain ⟨hitems, hisdir, hdisk₄, hsame₄⟩ := listdir_ok h₄
              have hdisk : s₄.disk = s₁.disk := by rw [hdisk₄, hdisk₃, hdisk₂]
              rw [← hdisk₄] at hitems hisdir
              obtain ⟨hgathered, hsame₅⟩ :=
                gathered_of_moved hclear.toVacant h₁ hdisk hitems hisdir h₅
              have hs₆ := Calls.modify_ok_iff.mp h₆
              have hs₇ := Calls.modify_ok_iff.mp h₇
              have hdisk₇ : s₇.disk = s₅.disk := by rw [← hs₇, ← hs₆]
              have hfiles₇ : s₇.files = s₅.files.map (updateFile r s₅.disk uuid') := by
                rw [← hs₇, ← hs₆]
              have hsips₇ : s₇.sips = s₅.sips := by rw [← hs₇, ← hs₆]
              obtain ⟨hsame₈, -, hgrown₈⟩ := createDirectories_ok h₈
              rw [hdisk₇] at hgrown₈
              have hgathered₈ := hgathered.grown hgrown₈
              obtain ⟨u, u', hget, h⟩ := Calls.bind_ok_iff.mp h
              obtain ⟨rfl, rfl⟩ := Calls.get_ok_iff.mp hget
              obtain ⟨s₉, hsame₉, hgathered₉, h⟩ := metadata_ok hgathered₈ h
              obtain ⟨hsame₁₀, rfl, rfl, hobjects⟩ := finish_ok hgathered₉
                (hclear.destination sipUUID (hidentity.grown hgrown hsame₁) name hname) h
              have hsame : SameRows s₇ w' := (hsame₈.trans hsame₉).trans hsame₁₀
              have hfiles : w'.files = w.files.map (updateFile r s₅.disk uuid') := by
                rw [hsame.files, hfiles₇, hsame₅.files, hsame₄.files, hfiles₃, hsame₂.files,
                  hsame₁.files]
              refine ⟨hobjects, ?_, ?_⟩
              · rwa [hsame.sips, hsips₇, hsame₅.sips, hsame₄.sips]
              · rw [hfiles, List.forall₂_map_right_iff, List.forall₂_same]
                exact fun f _ => ⟨updateFile_uuid r _ _ f, owned_of_gathered hclear hgathered _ f⟩

end Call

-- The run starts where its SIP can be made from the objects of its transfer alone.
def RunClear (toPython : Str → Option UUID) (w : World α) (r : Run) : Prop :=
  (∃ made w', call toPython r { w with left := r.operations } = .ok made w') → Clear r w

def RunProduces (toPython : Str → Option UUID) (w : World α) (r : Run) : Prop :=
  ∀ uuid destSIPDir w', call toPython r { w with left := r.operations } = .ok (uuid, destSIPDir) w' →
    Produced r w w' uuid destSIPDir

theorem RunClear.produces (h : RunClear toPython w r) : RunProduces toPython w r := by
  intro uuid destSIPDir w' hcall
  have hclear := h ⟨_, w', hcall⟩
  have hclear' : Clear r { w with left := r.operations } :=
    ⟨hclear.toVacant, hclear.destination, hclear.plain⟩
  obtain ⟨hobjects, hsip, hrows⟩ := call_produced hclear' hcall
  exact ⟨hobjects, hsip, hrows⟩

-- Along every sequence of runs, wherever the earlier ones stopped.
theorem runs_produce (toPython : Str → Option UUID) (w : World α) (runs : List Run)
    (hclear : Meets (fun w r => some (step toPython w r)) (RunClear toPython) w runs) :
    Meets (fun w r => some (step toPython w r)) (RunProduces toPython) w runs :=
  meets_of_meets _ (fun _ => True) _ _ (fun _ _ _ _ _ _ => trivial)
    (fun _ _ _ _ hc _ => hc.produces) runs trivial hclear

namespace Example

-- Two transfers of one name, with one object each.

def shared : Name := ⟨"shared".toList, by decide⟩

def processing : Name := ⟨"currentlyProcessing".toList, by decide⟩

def autoProcess : Name := ⟨"SIPCreation".toList, by decide⟩

def photos : Name := ⟨"photos".toList, by decide⟩

def letters : Name := ⟨"letters".toList, by decide⟩

def first : Name := ⟨"photos-1".toList, by decide⟩

def second : Name := ⟨"photos-2".toList, by decide⟩

def a : Name := ⟨"a.txt".toList, by decide⟩

def b : Name := ⟨"b.txt".toList, by decide⟩

def row (n t : BitVec 128) (p : Name) : File :=
  ⟨⟨n⟩, some ⟨t⟩, none, false, transferDirectory ++ text [objects, p]⟩

def start : World Str where
  disk :=
    { entries := [([shared], .dir), ([shared, processing], .dir), ([shared, autoProcess], .dir),
        ([shared, first], .dir), ([shared, first, objects], .dir),
        ([shared, first, objects, a], .file "a".toList),
        ([shared, first, processingMCP], .file "mcp".toList),
        ([shared, second], .dir), ([shared, second, objects], .dir),
        ([shared, second, objects, b], .file "b".toList),
        ([shared, second, processingMCP], .file "mcp".toList)]
      nodup := by decide
      closed := by decide }
  transfers := [(⟨1⟩, "Standard".toList), (⟨2⟩, "Standard".toList)]
  directories := []
  files := [row 3 1 a, row 4 2 b]
  sips := []
  left := 0

-- The first run stops before the last move.
def failing : Run where
  objectsDirectory := [shared, first, objects]
  transferName := photos
  transferUUID := ⟨1⟩
  processingDirectory := [shared, processing]
  autoProcessSIPDirectory := [shared, autoProcess]
  sharedPath := [shared]
  uuid4 := ⟨5⟩
  operations := 10
  outside := by decide
  beside := by decide

def after (name : Name) (hname : ¬ [shared, processing] ++ [name] <+: [shared, second, objects])
    (hname' : ¬ [shared, second] <+: [shared, processing] ++ [name]) : Run where
  objectsDirectory := [shared, second, objects]
  transferName := name
  transferUUID := ⟨2⟩
  processingDirectory := [shared, processing]
  autoProcessSIPDirectory := [shared, autoProcess]
  sharedPath := [shared]
  uuid4 := ⟨6⟩
  operations := 20
  outside := hname'
  beside := hname

theorem failing_fails {w : World Str} {made : UUID × List Name} :
    call UUID.parse failing { start with left := failing.operations } ≠ .ok made w := by
  have hfails : (match call UUID.parse failing { start with left := failing.operations } with
      | .ok _ _ => false
      | .error _ _ => true) = true := by decide +kernel
  intro h
  rw [h] at hfails
  cases hfails

def same : Run := after photos (by decide) (by decide)

-- The transfer with the other name comes to a directory that nothing is left in.
def other : Run := after letters (by decide) (by decide)

theorem other_clear : Clear other (step UUID.parse start failing) := by
  have hbelow : ∀ e ∈ (step UUID.parse start failing).disk.entries, ¬ other.tmpSIPDir <+: e.1 := by
    decide +kernel
  have hnone : ∀ p, (step UUID.parse start failing).disk.node (other.tmpSIPDir ++ p) = none := by
    intro p
    by_contra hne
    obtain ⟨x, hx⟩ := Option.ne_none_iff_exists'.mp hne
    rcases Disk.mem_of_node hx with hnil | hmem
    · simp [Run.tmpSIPDir] at hnil
    · exact hbelow _ hmem (List.prefix_append _ p)
  refine ⟨⟨?_, ?_⟩, ?_, ?_⟩
  · intro p c hc
    rw [hnone] at hc
    cases hc
  · intro n _
    rw [← Bool.not_eq_true, Disk.isdir_iff, hnone]
    exact nofun
  · intro s hs name hname
    have hnew : ((step UUID.parse start failing).transfers.lookup other.transferUUID).any isReingest =
        false := by decide +kernel
    rcases hs with rfl | ⟨hre, -⟩
    · have hfree : (named (other.transferName.1 ++ '-' :: other.uuid4.string)).all fun name =>
          !(step UUID.parse start failing).disk.isdir (other.autoProcessSIPDirectory ++ [name]) &&
            decide (¬ other.autoProcessSIPDirectory ++ [name] <+: other.tmpSIPDir) := by
        decide +kernel
      rw [hname] at hfree
      simpa using hfree
    · rw [hnew] at hre
      cases hre
  · intro p hp
    have hplain : ∀ e ∈ (step UUID.parse start failing).disk.entries,
        other.objectsDirectory <+: e.1 →
          occursIn transferDirectory (text (objects :: e.1.drop 3)) = false := by decide +kernel
    obtain ⟨c, hc⟩ := Disk.isfile_iff.mp hp
    rcases Disk.mem_of_node hc with hnil | hmem
    · simp [other, after] at hnil
    · have hno := hplain _ hmem (List.prefix_append _ p)
      rwa [← Bool.not_eq_true, occursIn_iff] at hno

end Example

theorem runs_produce_letters :
    Meets (fun w r => some (step UUID.parse w r)) (RunProduces UUID.parse) Example.start
      [Example.failing, Example.other] := by
  refine runs_produce UUID.parse _ _ ⟨?_, fun _ => Example.other_clear, trivial⟩
  rintro ⟨made, w', h⟩
  exact absurd h Example.failing_fails

-- What the first run has left goes into the SIP of the second.
theorem leftover_in_sip :
    ¬ Meets (fun w r => some (step UUID.parse w r)) (RunProduces UUID.parse) Example.start
      [Example.failing, Example.same] := by
  intro h
  have hsecond := h.2.1
  have hleft : (match call UUID.parse Example.same
        { step UUID.parse Example.start Example.failing with left := Example.same.operations } with
      | .ok (_, dest) w => w.disk.isfile (dest ++ [objects, Example.a])
      | .error _ _ => false) = true := by decide +kernel
  have hown : (step UUID.parse Example.start Example.failing).disk.found
      (Example.same.objectsDirectory ++ [Example.a]) = false := by decide +kernel
  cases hcall : call UUID.parse Example.same
      { step UUID.parse Example.start Example.failing with left := Example.same.operations } with
  | error e w =>
      rw [hcall] at hleft
      cases hleft
  | ok made w =>
      obtain ⟨uuid, dest⟩ := made
      rw [hcall] at hleft
      obtain ⟨c, hc⟩ := Disk.isfile_iff.mp hleft
      have hfile := ((hsecond uuid dest w hcall).objects [Example.a] c).mp hc
      rw [← Bool.not_eq_true, Disk.found_iff, hfile] at hown
      exact hown (by simp)

end Ccp.Worker.CreateSIP
