import Ccp.Worker.Compliance

namespace Ccp.Worker.Compliance

open Lib FileOperations CreateSIP TransferBag Reingest.Restructure

variable {α : Type*} {d d' e : Disk Name α}

theorem Compliant.congr (h : ∀ q, d'.node q = d.node q) : Compliant d' ↔ Compliant d := by
  have himp : ∀ {a b : Disk Name α}, (∀ q, b.node q = a.node q) → Compliant a → Compliant b := by
    intro a b hab hc
    refine ⟨fun p hp => (hab p).trans (hc.directories p hp), fun n hn => ?_, fun n c hn => ?_, ?_⟩
    · exact hc.topDirectories n ((hab [n]).symm.trans hn)
    · exact hc.topFiles n c ((hab [n]).symm.trans hn)
    · obtain ⟨p, c, hp⟩ := hc.files
      exact ⟨p, c, (hab p).trans hp⟩
  exact ⟨himp fun q => (h q).symm, himp h⟩

section Create

variable {directories : List (List Name)}

theorem created_of_done (h : directories.foldlM createDirectory d = some e) : Created d e directories :=
  createDirectories_eq_some h

-- All that is new are the directories and what leads to them.
theorem node_of_created (h : Created d e directories) (q : List Name) :
    e.node q = d.node q ∨ d.node q = none ∧ e.node q = some .dir ∧ ∃ p ∈ directories, q <+: p := by
  by_cases hq : ∃ p ∈ directories, q <+: p
  · obtain ⟨p, hp, r, rfl⟩ := hq
    by_cases hnone : d.node q = none
    · have hdir : e.node q = some .dir := by
        by_cases hr : r = []
        · rw [← h.made _ hp, hr, List.append_nil]
        · exact Disk.node_of_append hr (by simp [h.made _ hp])
      exact Or.inr ⟨hnone, hdir, _, hp, List.prefix_append q r⟩
    · exact Or.inl (h.kept q hnone)
  · refine Or.inl (h.frame q fun p hp hle => hq ⟨p, hp, hle⟩)

theorem file_of_created (h : Created d e directories) {q : List Name} {c : α} :
    e.node q = some (.file c) ↔ d.node q = some (.file c) := by
  rcases node_of_created h q with heq | ⟨hnone, hdir, -⟩
  · rw [heq]
  · simp [hnone, hdir]

theorem required_rooted : ∀ p ∈ CreateSIP.requiredDirectories, ∀ q ∈ p.inits,
    q = [] ∨ q ∈ CreateSIP.requiredDirectories := by
  decide

-- A directory cannot be made where a file is in its place.
theorem file_of_stops {front : List (List Name)} {item : List Name}
    (h : Stops createDirectory d CreateSIP.requiredDirectories front e item) :
    ∃ p ∈ CreateSIP.requiredDirectories, d.isfile p = true := by
  by_contra hno
  have hitem : item ∈ CreateSIP.requiredDirectories := h.within.subset (by simp)
  have hcreated := created_of_done h.done
  have hfree : ∀ p ∈ CreateSIP.requiredDirectories, ∀ c, e.node p ≠ some (.file c) := by
    intro p hp c hc
    exact hno ⟨p, hp, Disk.isfile_iff.mpr ⟨c, (file_of_created hcreated).mp hc⟩⟩
  have hrefused := h.refused
  unfold createDirectory at hrefused
  split_ifs at hrefused with hdir
  have hnone : e.node item = none := by
    cases hnode : e.node item with
    | none => rfl
    | some x =>
        cases x with
        | dir => exact absurd (Disk.isdir_iff.mpr hnode) hdir
        | file c => exact absurd hnode (hfree item hitem c)
  obtain ⟨made, hmade⟩ := Disk.exists_makedirs hnone fun q hq c hc => by
    rcases required_rooted item hitem q ((List.mem_inits _ _).mpr hq) with rfl | hmem
    · cases hc
    · exact hfree q hmem c hc
  rw [hrefused] at hmade
  cases hmade

theorem prefix_of_notMem {ι : Type*} {a b : ι} {front rest : List ι} (h : front <+: a :: b :: rest)
    (hb : b ∉ front) : front <+: [a] := by
  obtain ⟨k, rfl⟩ : ∃ k, front = (a :: b :: rest).take k := ⟨_, List.prefix_iff_eq_take.mp h⟩
  rcases k with _ | _ | k
  · simp
  · simp
  · exact absurd (by simp) hb

-- A file in the place of a directory that only the attempt asks for.
theorem node_of_stops_fileMeta {front : List (List Name)} {item : List Name}
    (h : Stops createDirectory d CreateSIP.requiredDirectories front e item)
    (hfile : d.isfile [logs, fileMeta] = true) (q : List Name) : e.node q = d.node q := by
  obtain ⟨c, hc⟩ := Disk.isfile_iff.mp hfile
  have hcreated := created_of_done h.done
  have hnot : [logs, fileMeta] ∉ front := by
    intro hmem
    have hmade := hcreated.made _ hmem
    rw [(file_of_created hcreated).mpr hc] at hmade
    cases hmade
  have hfront : front <+: [[logs]] :=
    prefix_of_notMem ((List.prefix_append front [item]).trans h.within) hnot
  rcases node_of_created hcreated q with heq | ⟨hnone, -, p, hp, hle⟩
  · exact heq
  · have hlogs : d.node [logs] = some .dir := Disk.node_parent (p := [logs]) (n := fileMeta) (by simp [hc])
    rw [List.mem_singleton.mp (hfront.subset hp)] at hle
    rcases List.prefix_cons_iff.mp hle with rfl | ⟨r, rfl, hr⟩
    · cases hnone
    · rw [List.prefix_nil.mp hr, hlogs] at hnone
      cases hnone

end Create

section Collect

theorem goes_iff {n : Name} : goes d n = true ↔ Goes d n := by
  rw [goes, Goes, Bool.or_eq_true, Bool.and_eq_true, Bool.and_eq_true, Disk.isdir_iff, Disk.isfile_iff,
    Bool.not_eq_true', Bool.not_eq_true']

theorem moveItem_eq (d : Disk Name α) (n : Name) :
    moveItem d n = if goes d n then d.move [n] [objects] else some d := by
  unfold moveItem goes
  by_cases hdir : d.isdir [n] = true ∧ ¬ isRequiredItem n = true
  · rw [if_pos hdir, if_pos (by simp [hdir.1, Bool.eq_false_iff.mpr hdir.2])]
  · rw [if_neg hdir]
    by_cases hfile : d.isfile [n] = true ∧ ¬ isOptional n = true
    · rw [if_pos hfile, if_pos (by simp [hfile.1, Bool.eq_false_iff.mpr hfile.2])]
    · rw [if_neg hfile, if_neg]
      rw [Bool.or_eq_true, Bool.and_eq_true, Bool.and_eq_true, Bool.not_eq_true', Bool.not_eq_true',
        ← Bool.not_eq_true, ← Bool.not_eq_true]
      exact fun h => h.elim hdir hfile

theorem Goes.found {n : Name} (h : Goes d n) : d.node [n] ≠ none := by
  rcases h with ⟨hdir, -⟩ | ⟨⟨c, hfile⟩, -⟩
  · simp [hdir]
  · simp [hfile]

theorem ne_objects_of_goes {n : Name} (hobjects : d.node [objects] = some .dir) (h : Goes d n) :
    n ≠ objects := by
  rintro rfl
  rcases h with ⟨-, hrequired⟩ | ⟨⟨c, hc⟩, -⟩
  · exact absurd hrequired (by decide)
  · rw [hobjects] at hc
    cases hc

theorem goes_congr {n : Name} (h : e.node [n] = d.node [n]) : Goes e n ↔ Goes d n := by
  rw [Goes, Goes, h]

theorem apart_objects {n : Name} (h : n ≠ objects) : Disk.Apart ([] ++ [n]) [objects] := by
  simp [Disk.Apart, h, h.symm]

-- The items that stay make no difference, and those that go leave the others alone.
theorem foldlM_moveItem {items : List Name} (hnodup : items.Nodup) (hobjects : d.node [objects] = some .dir) :
    items.foldlM moveItem d = Disk.moveAll [] [objects] d (items.filter (goes d)) := by
  induction items generalizing d with
  | nil => rfl
  | cons n items ih =>
      obtain ⟨hn, hitems⟩ := List.nodup_cons.mp hnodup
      rw [List.foldlM_cons, moveItem_eq, List.filter_cons]
      by_cases hgoes : goes d n = true
      · rw [if_pos hgoes, if_pos hgoes, Disk.moveAll, List.foldlM_cons, List.nil_append]
        cases hmove : d.move [n] [objects] with
        | none => rfl
        | some e =>
            have hne := ne_objects_of_goes hobjects (goes_iff.mp hgoes)
            have hinto : d.move ([] ++ [n]) [objects] = some e := hmove
            obtain ⟨-, hmoved⟩ := Disk.move_into (Disk.isdir_iff.mpr hobjects) (by simp [hne]) hinto
            have hkept : ∀ m, m ≠ n → e.node [m] = d.node [m] := by
              intro m hm
              exact hmoved.node_of_apart (by simp [hm.symm]) (by simp)
            have hsame : items.filter (goes e) = items.filter (goes d) := by
              refine List.filter_congr fun m hm => ?_
              rw [Bool.eq_iff_iff, goes_iff, goes_iff]
              exact goes_congr (hkept m fun heq => hn (heq ▸ hm))
            have hrest := ih hitems ((hkept objects hne.symm).trans hobjects)
            rw [hsame] at hrest
            exact hrest
      · rw [if_neg hgoes, if_neg hgoes]
        exact ih hitems hobjects

theorem movedAll_of_done {front : List Name} (hfront : front <+: d.listdir [])
    (hobjects : d.node [objects] = some .dir) (h : front.foldlM moveItem d = some e) :
    Disk.MovedAll d e [] [objects] (front.filter (goes d)) := by
  have hnodup : front.Nodup := (Disk.nodup_listdir d []).sublist hfront.sublist
  rw [foldlM_moveItem hnodup hobjects] at h
  refine Disk.movedAll_of_moveAll (hnodup.filter _) (Disk.isdir_iff.mpr hobjects) (fun n hn => ?_) h
  exact apart_objects (ne_objects_of_goes hobjects (goes_iff.mp (List.mem_filter.mp hn).2))

-- The place of an item that cannot be moved is taken.
theorem taken_of_stops {front : List Name} {item : Name} (hobjects : d.node [objects] = some .dir)
    (h : Stops moveItem d (d.listdir []) front e item) :
    Goes d item ∧ e.node [item] = d.node [item] ∧ d.node [objects, item] ≠ none := by
  have hmoved := movedAll_of_done ((List.prefix_append front [item]).trans h.within) hobjects h.done
  have hnodup : (front ++ [item]).Nodup := (Disk.nodup_listdir d []).sublist h.within.sublist
  have hnot : item ∉ front := fun hmem =>
    (List.disjoint_of_nodup_append hnodup) hmem (List.mem_singleton_self item)
  have hne : ∀ m ∈ front.filter (goes d), m ≠ item := by
    rintro m hm rfl
    exact hnot (List.mem_filter.mp hm).1
  have hsame : e.node [item] = d.node [item] := by
    refine hmoved.frame [item] fun m hm => ⟨?_, by simp⟩
    simp [hne m hm]
  have hplace : e.node [objects, item] = d.node [objects, item] := by
    refine hmoved.frame _ fun m hm => ?_
    have hobj := ne_objects_of_goes hobjects (goes_iff.mp (List.mem_filter.mp hm).2)
    simp [hobj, hne m hm]
  have hobjects' : e.node [objects] = some .dir := by
    refine (hmoved.frame _ fun m hm => ?_).trans hobjects
    simp [ne_objects_of_goes hobjects (goes_iff.mp (List.mem_filter.mp hm).2)]
  have hrefused := h.refused
  rw [moveItem_eq] at hrefused
  split_ifs at hrefused with hgoes
  have hgoes' : Goes d item := (goes_congr hsame).mp (goes_iff.mp hgoes)
  refine ⟨hgoes', hsame, fun hfree => ?_⟩
  have hfound : e.node ([] ++ [item]) ≠ none := (goes_iff.mp hgoes).found
  obtain ⟨moved, hmove⟩ := Disk.exists_move_into hfound (Disk.isdir_iff.mpr hobjects')
    (apart_objects (ne_objects_of_goes hobjects hgoes')) (hplace.trans hfree)
  rw [List.nil_append] at hmove
  rw [hrefused] at hmove
  cases hmove

end Collect

section Keep

variable {e' : Disk Name α} {items : List Name}

-- What the moves of some items leave, on a disk that has the directories.
structure Collected (d e : Disk Name α) (items : List Name) : Prop where
  files : ∀ q c, d.node q = some (.file c) ↔ e.node q = some (.file c)
  goes : ∀ n ∈ items, Goes d n
  objects : e.node [objects] = some .dir
  known : ∀ q, d.node q ≠ none → e.node q = d.node q

-- The moves leave alone what is neither an item nor in its place.
theorem node_of_moved (h : Disk.MovedAll e e' [] [objects] items) {n : Name} {r : List Name} (hn : n ∉ items)
    (hr : ∀ m ∈ items, ∀ s, n :: r ≠ objects :: m :: s) : e'.node (n :: r) = e.node (n :: r) := by
  refine h.frame _ fun m hm => ⟨?_, ?_⟩
  · rintro ⟨s, hs⟩
    simp only [List.nil_append, List.singleton_append, List.cons.injEq] at hs
    exact hn (hs.1 ▸ hm)
  · rintro ⟨s, hs⟩
    exact hr m hm s (by simpa using hs.symm)

theorem topNode_of_moved (h : Disk.MovedAll e e' [] [objects] items) {n : Name} {x : Node α} :
    e'.node [n] = some x ↔ n ∉ items ∧ e.node [n] = some x := by
  by_cases hn : n ∈ items
  · have hgone : e'.node [n] = none := h.gone n hn []
    simp [hn, hgone]
  · rw [node_of_moved h hn (by simp)]
    simp [hn]

theorem kept_of_moved (hcollected : Collected d e items) (h : Disk.MovedAll e e' [] [objects] items) :
    Kept items d e' := by
  have hne : ∀ n ∈ items, n ≠ objects := by
    intro n hn
    have hgoes := hcollected.goes n hn
    exact ne_objects_of_goes hcollected.objects ((goes_congr (hcollected.known [n] hgoes.found)).mpr hgoes)
  -- no file was in the place of an item
  have hplace : ∀ n ∈ items, ∀ r c, d.node (objects :: n :: r) ≠ some (.file c) := by
    intro n hn r c hc
    have hfree := Disk.node_append_eq_none (h.free n hn) r
    rw [List.append_assoc, List.singleton_append] at hfree
    exact absurd ((hcollected.files _ c).mp hc) (by rw [List.singleton_append] at hfree; simp [hfree])
  refine ⟨hcollected.goes, fun p c hp => ?_, fun q c hq => ?_, fun p p' c c' hp hp' heq => ?_⟩
  · cases p with
    | nil => cases hp
    | cons n r =>
        rw [home]
        split_ifs with hn
        · exact (h.taken n hn r).trans ((hcollected.files _ c).mp hp)
        · rw [node_of_moved h hn]
          · exact (hcollected.files _ c).mp hp
          · intro m hm s hs
            rw [hs] at hp
            exact hplace m hm s c hp
  · cases q with
    | nil => cases hq
    | cons n r =>
        by_cases hmoved : ∃ m ∈ items, ∃ s, n :: r = objects :: m :: s
        · obtain ⟨m, hm, s, hs⟩ := hmoved
          rw [hs] at hq ⊢
          refine ⟨m :: s, by rw [home, if_pos hm], (hcollected.files _ c).mpr ?_⟩
          exact (h.taken m hm s).symm.trans hq
        · have hn : n ∉ items := by
            intro hn
            have hgone := h.gone n hn r
            rw [List.nil_append, hq] at hgone
            cases hgone
          refine ⟨n :: r, by rw [home, if_neg hn], (hcollected.files _ c).mpr ?_⟩
          rw [← node_of_moved h hn fun m hm s hs => hmoved ⟨m, hm, s, hs⟩, hq]
  · cases p with
    | nil => cases hp
    | cons n r =>
        cases p' with
        | nil => cases hp'
        | cons n' r' =>
            rw [home, home] at heq
            split_ifs at heq with hn hn' hn'
            · exact List.tail_eq_of_cons_eq heq
            · rw [← heq] at hp'
              exact absurd hp' (hplace n hn r c')
            · rw [heq] at hp
              exact absurd hp (hplace n' hn' r' c)
            · exact heq

theorem Kept.hasFile_iff (h : Kept items d e) : HasFile e ↔ HasFile d := by
  constructor
  · rintro ⟨q, c, hq⟩
    obtain ⟨p, -, hp⟩ := h.back q c hq
    exact ⟨p, c, hp⟩
  · rintro ⟨p, c, hp⟩
    exact ⟨_, c, h.there p c hp⟩

theorem kept_nil (h : ∀ q c, d.node q = some (.file c) ↔ e.node q = some (.file c)) : Kept [] d e := by
  have hhome : ∀ p : List Name, home [] p = p := by
    intro p
    cases p <;> simp [home]
  refine ⟨by simp, fun p c hp => ?_, fun q c hq => ⟨q, hhome q, (h q c).mpr hq⟩, fun p p' _ _ _ _ heq => ?_⟩
  · rw [hhome]
    exact (h p c).mp hp
  · rwa [hhome, hhome] at heq

end Keep

section Accepted

def readme : Name := ⟨"README.html".toList, by decide⟩

theorem isOptional_iff {n : Name} : isOptional n = true ↔ n = processingMCP ∨ n = readme := by
  rw [isOptional, Bool.or_eq_true, decide_eq_true_eq, decide_eq_true_eq]
  exact or_congr ⟨fun h => Subtype.ext h, fun h => h ▸ rfl⟩ ⟨fun h => Subtype.ext h, fun h => h ▸ rfl⟩

theorem isRequiredItem_iff {n : Name} : isRequiredItem n = true ↔ [n] ∈ verifiedDirectories := by
  have hmem : isRequiredItem n = true ↔ [n] ∈ CreateSIP.requiredDirectories := by
    simp [isRequiredItem]
  rw [hmem]
  simp only [CreateSIP.requiredDirectories, verifiedDirectories, List.mem_cons, List.cons.injEq,
    List.not_mem_nil, or_false, and_true, reduceCtorEq, and_false, false_or]
  tauto

theorem not_restructurable_of_stops {front : List (List Name)} {item : List Name}
    (h : Stops createDirectory d CreateSIP.requiredDirectories front e item) : ¬ Restructurable d := by
  intro hd
  obtain ⟨p, hp, hfile⟩ := file_of_stops h
  rw [hd.directories p hp] at hfile
  cases hfile

-- The file in the place of a directory is there before and after. It is one that the verification
-- asks for too, or nothing was made.
theorem compliant_of_stops {front : List (List Name)} {item : List Name}
    (h : Stops createDirectory d CreateSIP.requiredDirectories front e item) : Compliant e ↔ Compliant d := by
  obtain ⟨p, hp, hfile⟩ := file_of_stops h
  obtain ⟨c, hc⟩ := Disk.isfile_iff.mp hfile
  by_cases hverified : p ∈ verifiedDirectories
  · refine iff_of_false (fun he => ?_) fun hd => ?_
    · have hdir := he.directories p hverified
      rw [(file_of_created (created_of_done h.done)).mpr hc] at hdir
      cases hdir
    · have hdir := hd.directories p hverified
      rw [hc] at hdir
      cases hdir
  · have hmeta : p = [logs, fileMeta] := by
      revert hp hverified
      simp only [CreateSIP.requiredDirectories, verifiedDirectories, List.mem_cons, List.not_mem_nil, or_false]
      tauto
    exact Compliant.congr (node_of_stops_fileMeta h (hmeta ▸ hfile))

variable (hcreated : Created d e CreateSIP.requiredDirectories)
include hcreated

theorem goes_created {n : Name} : Goes e n ↔ Goes d n := by
  rcases node_of_created hcreated [n] with heq | ⟨hnone, hdir, p, hp, hle⟩
  · exact goes_congr heq
  · have hrequired : isRequiredItem n = true := by
      rcases required_rooted p hp [n] ((List.mem_inits _ _).mpr hle) with hnil | hmem
      · cases hnil
      · simpa [isRequiredItem] using hmem
    simp [Goes, hnone, hdir, hrequired]

theorem node_objects_created (n : Name) : e.node [objects, n] = d.node [objects, n] := by
  have hapart : ∀ p ∈ CreateSIP.requiredDirectories, ¬ [objects, n] <+: p := by
    intro p hp hle
    have hshort : ∀ p ∈ CreateSIP.requiredDirectories, p.head? = some objects → p.length = 1 := by decide
    obtain ⟨r, rfl⟩ := hle
    have hlength := hshort _ hp rfl
    simp at hlength
  exact hcreated.frame _ hapart

theorem restructurable_created : Restructurable d ↔ ∀ n, Goes e n → e.node [objects, n] = none := by
  constructor
  · intro h n hn
    rw [node_objects_created hcreated]
    exact h.places n ((goes_created hcreated).mp hn)
  · intro h
    refine ⟨fun p hp => ?_, fun n hn => ?_⟩
    · rw [Bool.eq_false_iff, Ne, Disk.isfile_iff]
      rintro ⟨c, hc⟩
      have hmade := hcreated.made p hp
      rw [(file_of_created hcreated).mpr hc] at hmade
      cases hmade
    · rw [← node_objects_created hcreated]
      exact h n ((goes_created hcreated).mpr hn)

theorem collected_of_created {items : List Name} (hgoes : ∀ n ∈ items, Goes e n) : Collected d e items where
  files _ _ := (file_of_created hcreated).symm
  goes n hn := (goes_created hcreated).mp (hgoes n hn)
  objects := hcreated.made _ (by decide)
  known := hcreated.kept

theorem directories_of_moved {e' : Disk Name α} {items : List Name} (hgoes : ∀ n, n ∈ items ↔ Goes e n)
    (h : Disk.MovedAll e e' [] [objects] items) : ∀ p ∈ verifiedDirectories, e'.node p = some .dir := by
  have hnot : ∀ n, [n] ∈ verifiedDirectories → [n] ∈ CreateSIP.requiredDirectories → n ∉ items := by
    intro n hn hrequired hitem
    rcases (hgoes n).mp hitem with ⟨-, hno⟩ | ⟨⟨c, hc⟩, -⟩
    · rw [isRequiredItem_iff.mpr hn] at hno
      cases hno
    · rw [hcreated.made [n] hrequired] at hc
      cases hc
  have htop : ∀ n, [n] ∈ verifiedDirectories → [n] ∈ CreateSIP.requiredDirectories →
      e'.node [n] = some .dir := fun n hn hrequired =>
    (topNode_of_moved h).mpr ⟨hnot n hn hrequired, hcreated.made [n] hrequired⟩
  have hsubmission : e'.node [metadata, submissionDocumentation] = some .dir := by
    have hplace : ∀ m ∈ items, ∀ s, [metadata, submissionDocumentation] ≠ objects :: m :: s := by
      intro m _ s hs
      exact absurd (List.head_eq_of_cons_eq hs) (by decide)
    rw [node_of_moved h (hnot metadata (by decide) (by decide)) hplace]
    exact hcreated.made _ (by decide)
  simp only [verifiedDirectories, List.forall_mem_cons, List.not_mem_nil, false_implies, implies_true,
    and_true]
  exact ⟨htop _ (by decide) (by decide), htop _ (by decide) (by decide), htop _ (by decide) (by decide),
    hsubmission⟩

-- The items that had to go are gone, and the directories are there.
theorem compliant_of_moved {e' : Disk Name α} {items : List Name} (hgoes : ∀ n, n ∈ items ↔ Goes e n)
    (h : Disk.MovedAll e e' [] [objects] items) :
    Compliant e' ↔ d.isfile [readme] = false ∧ HasFile e' := by
  constructor
  · intro hc
    refine ⟨?_, hc.files⟩
    rw [Bool.eq_false_iff, Ne, Disk.isfile_iff]
    rintro ⟨c, hfile⟩
    have hfound : e.node [readme] = some (.file c) := (file_of_created hcreated).mpr hfile
    have hstays : readme ∉ items := by
      intro hitem
      rcases (hgoes readme).mp hitem with ⟨hdir, -⟩ | ⟨-, hoptional⟩
      · rw [hfound] at hdir
        cases hdir
      · exact absurd hoptional (by decide)
    have hmem := hc.topFiles readme c ((topNode_of_moved h).mpr ⟨hstays, hfound⟩)
    exact absurd hmem (by decide)
  · rintro ⟨hreadme, hfile⟩
    refine ⟨directories_of_moved hcreated hgoes h, fun n hn => ?_, fun n c hn => ?_, hfile⟩
    · obtain ⟨hitem, hdir⟩ := (topNode_of_moved h).mp hn
      by_contra hno
      rw [← isRequiredItem_iff] at hno
      exact hitem ((hgoes n).mpr (Or.inl ⟨hdir, Bool.eq_false_iff.mpr hno⟩))
    · obtain ⟨hitem, hfound⟩ := (topNode_of_moved h).mp hn
      have hoptional : isOptional n = true := by
        by_contra hno
        exact hitem ((hgoes n).mpr (Or.inr ⟨⟨c, hfound⟩, Bool.eq_false_iff.mpr hno⟩))
      rcases isOptional_iff.mp hoptional with rfl | rfl
      · exact List.mem_singleton_self _
      · rw [Bool.eq_false_iff, Ne, Disk.isfile_iff] at hreadme
        exact absurd ⟨c, (file_of_created hcreated).mp hfound⟩ hreadme

end Accepted

-- The directories cannot be made, an item cannot be moved, or all is done.
inductive Outcome (d : Disk Name α) : Disk Name α × ℕ → Prop
  | refused {front : List (List Name)} {item : List Name} {e : Disk Name α}
      (h : Stops createDirectory d CreateSIP.requiredDirectories front e item) : Outcome d (e, 1)
  | taken {front : List Name} {item : Name} {e e' : Disk Name α}
      (hcreated : Created d e CreateSIP.requiredDirectories)
      (h : Stops moveItem e (e.listdir []) front e' item) : Outcome d (e', 1)
  | moved {e e' : Disk Name α} (hcreated : Created d e CreateSIP.requiredDirectories)
      (h : (e.listdir []).foldlM moveItem e = some e') : Outcome d (e', 0)

theorem outcome (d : Disk Name α) : Outcome d (restructureForCompliance d) := by
  unfold restructureForCompliance restructureTransfer
  rcases attempt_cases createDirectory d CreateSIP.requiredDirectories with
    ⟨e, hdone, heq⟩ | ⟨front, e, item, hstops, heq⟩
  · have hcreated := created_of_done hdone
    rcases attempt_cases moveItem e (e.listdir []) with ⟨e', hall, heq'⟩ | ⟨front, e', item, hstops, heq'⟩
    · simp only [heq, heq']
      exact .moved hcreated hall
    · simp only [heq, heq']
      exact .taken hcreated hstops
  · simp only [heq]
    exact .refused hstops

-- After an attempt to restructure a transfer it is accepted if it was before, or if all could
-- be moved and there is a file, but no README.html at the top level. Whatever happens, each
-- file is kept, where it was or under the objects.
theorem restructure_then_verify (d : Disk Name α) :
    ((restructureForCompliance d).2 = 0 ↔ Restructurable d) ∧
      (verifyTransferCompliance (restructureForCompliance d).1 = 0 ↔
        verifyTransferCompliance d = 0 ∨ Restructurable d ∧ d.isfile [readme] = false ∧ HasFile d) ∧
      ∃ items, Kept items d (restructureForCompliance d).1 ∧
        (Restructurable d → ∀ n, Goes d n → n ∈ items) := by
  have hfalse : ∀ {p : Prop}, ¬ p → ((1 : ℕ) = 0 ↔ p) := fun hp => iff_of_false Nat.one_ne_zero hp
  rw [verifyTransferCompliance_iff, verifyTransferCompliance_iff]
  have hout := outcome d
  generalize restructureForCompliance d = r at hout ⊢
  cases hout with
  | @refused front item e hstops =>
      have hno := not_restructurable_of_stops hstops
      have hsame := compliant_of_stops hstops
      refine ⟨hfalse hno, by simp only [hsame, hno, false_and, or_false], [], ?_, fun h => absurd h hno⟩
      exact kept_nil fun q c => (file_of_created (created_of_done hstops.done)).symm
  | @taken front item e e' hcreated hstops =>
      have hobjects := hcreated.made [objects] (by decide)
      obtain ⟨hgoes, hstays, hplace⟩ := taken_of_stops hobjects hstops
      have hno : ¬ Restructurable d := fun h =>
        hplace ((restructurable_created hcreated).mp h item hgoes)
      have hnot : ¬ Compliant e' := fun h => not_goes_of_compliant h item ((goes_congr hstays).mpr hgoes)
      have hnot' : ¬ Compliant d := fun h =>
        not_goes_of_compliant h item ((goes_created hcreated).mp hgoes)
      have hmoved := movedAll_of_done ((List.prefix_append front [item]).trans hstops.within) hobjects
        hstops.done
      have hkept := kept_of_moved
        (collected_of_created hcreated fun n hn => goes_iff.mp (List.mem_filter.mp hn).2) hmoved
      exact ⟨hfalse hno, by simp only [hnot, hnot', hno, false_and, or_false], _, hkept, fun h => absurd h hno⟩
  | @moved e e' hcreated hall =>
      have hobjects := hcreated.made [objects] (by decide)
      have hmoved := movedAll_of_done List.prefix_rfl hobjects hall
      have hgoes : ∀ n, n ∈ (e.listdir []).filter (goes e) ↔ Goes e n := by
        intro n
        rw [List.mem_filter, goes_iff, and_iff_right_iff_imp, Disk.mem_listdir, List.nil_append]
        exact Goes.found
      have hkept := kept_of_moved (collected_of_created hcreated fun n hn => (hgoes n).mp hn) hmoved
      have hyes : Restructurable d := by
        rw [restructurable_created hcreated]
        exact fun n hn => hmoved.free n ((hgoes n).mpr hn)
      refine ⟨iff_of_true rfl hyes, ?_, (e.listdir []).filter (goes e), hkept, fun _ n hn =>
        (hgoes n).mpr ((goes_created hcreated).mpr hn)⟩
      rw [compliant_of_moved hcreated hgoes hmoved, hkept.hasFile_iff]
      refine ⟨fun h => Or.inr ⟨hyes, h⟩, fun h => h.elim (fun hc => ⟨?_, hc.files⟩) And.right⟩
      rw [Bool.eq_false_iff, Ne, Disk.isfile_iff]
      rintro ⟨c, hfile⟩
      exact absurd (hc.topFiles readme c hfile) (by decide)

end Ccp.Worker.Compliance
