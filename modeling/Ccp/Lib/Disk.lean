import Ccp.Lib.Dict
import Mathlib.Data.List.Infix
import Mathlib.Data.List.Nodup

namespace Ccp.Lib

-- What a path of a disk leads to.
inductive Node (α : Type*)
  | dir
  | file (content : α)
deriving DecidableEq

-- The tree under a directory, whose own path is the empty one. An entry stands in a
-- directory that is an entry too.
structure Disk (ν α : Type*) where
  entries : Dict (List ν) (Node α)
  nodup : (entries.map Prod.fst).Nodup
  closed : ∀ e ∈ entries, e.1 ≠ [] ∧ (e.1.dropLast = [] ∨ (e.1.dropLast, Node.dir) ∈ entries)

namespace Disk

variable {ν α : Type*} [DecidableEq ν]

def node (d : Disk ν α) (p : List ν) : Option (Node α) :=
  if p = [] then some .dir else d.entries.get? p

def isdir (d : Disk ν α) (p : List ν) : Bool :=
  match d.node p with
  | some .dir => true
  | _ => false

def isfile (d : Disk ν α) (p : List ν) : Bool :=
  match d.node p with
  | some (.file _) => true
  | _ => false

def found (d : Disk ν α) (p : List ν) : Bool := (d.node p).isSome

-- The entries come in no order that a caller could rely on.
def listdir (d : Disk ν α) (p : List ν) : List ν :=
  d.entries.filterMap fun e => if e.1.dropLast = p then e.1.getLast? else none

@[simp] theorem node_nil (d : Disk ν α) : d.node [] = some .dir := rfl

theorem isdir_iff {d : Disk ν α} {p : List ν} : d.isdir p = true ↔ d.node p = some .dir := by
  unfold isdir
  split <;> simp_all

theorem isfile_iff {d : Disk ν α} {p : List ν} :
    d.isfile p = true ↔ ∃ c, d.node p = some (.file c) := by
  unfold isfile
  split <;> simp_all

theorem found_iff {d : Disk ν α} {p : List ν} : d.found p = true ↔ d.node p ≠ none := by
  rw [found, Option.isSome_iff_ne_none]

theorem not_found_iff {d : Disk ν α} {p : List ν} : d.found p = false ↔ d.node p = none := by
  rw [found, Option.isSome_eq_false_iff, Option.isNone_iff_eq_none]

theorem isdir_congr {d d' : Disk ν α} {p : List ν} (h : d.node p = d'.node p) :
    d.isdir p = d'.isdir p := by
  rw [isdir, h, isdir]

theorem isfile_congr {d d' : Disk ν α} {p : List ν} (h : d.node p = d'.node p) :
    d.isfile p = d'.isfile p := by
  rw [isfile, h, isfile]

theorem found_congr {d d' : Disk ν α} {p : List ν} (h : d.node p = d'.node p) :
    d.found p = d'.found p := by
  rw [found, h, found]

theorem node_eq_some_iff {d : Disk ν α} {p : List ν} {x : Node α} (hp : p ≠ []) :
    d.node p = some x ↔ (p, x) ∈ d.entries := by
  rw [node, if_neg hp, Dict.get?_eq_some_iff d.nodup]

theorem mem_of_node {d : Disk ν α} {p : List ν} {x : Node α} (h : d.node p = some x) :
    p = [] ∨ (p, x) ∈ d.entries := by
  by_cases hp : p = []
  · exact Or.inl hp
  · exact Or.inr ((node_eq_some_iff hp).mp h)

theorem node_parent {d : Disk ν α} {p : List ν} {n : ν} (h : d.node (p ++ [n]) ≠ none) :
    d.node p = some .dir := by
  obtain ⟨x, hx⟩ := Option.ne_none_iff_exists'.mp h
  rw [node_eq_some_iff (by simp)] at hx
  rcases (d.closed _ hx).2 with hnil | hdir
  · rw [List.dropLast_concat] at hnil
    rw [hnil, node_nil]
  · rw [List.dropLast_concat] at hdir
    by_cases hp : p = []
    · rw [hp, node_nil]
    · exact (node_eq_some_iff hp).mpr hdir

-- All that stands before the end of a path is a directory.
theorem node_of_append {d : Disk ν α} {p q : List ν} (hq : q ≠ []) (h : d.node (p ++ q) ≠ none) :
    d.node p = some .dir := by
  induction q using List.reverseRecOn with
  | nil => exact absurd rfl hq
  | append_singleton q n ih =>
      rw [← List.append_assoc] at h
      have hparent := node_parent h
      by_cases hnil : q = []
      · rwa [hnil, List.append_nil] at hparent
      · exact ih hnil (by rw [hparent]; simp)

theorem node_append_eq_none {d : Disk ν α} {p : List ν} (h : d.node p = none) (q : List ν) :
    d.node (p ++ q) = none := by
  by_cases hq : q = []
  · rw [hq, List.append_nil, h]
  · by_contra hne
    rw [node_of_append hq hne] at h
    cases h

-- Nothing is under a file.
theorem eq_nil_of_file {d : Disk ν α} {p q : List ν} {c : α} (hp : d.node p = some (.file c))
    (h : d.node (p ++ q) ≠ none) : q = [] := by
  by_contra hq
  rw [node_of_append hq h] at hp
  cases hp

theorem mem_listdir {d : Disk ν α} {p : List ν} {n : ν} :
    n ∈ d.listdir p ↔ d.node (p ++ [n]) ≠ none := by
  rw [listdir, List.mem_filterMap, Option.ne_none_iff_exists']
  constructor
  · rintro ⟨e, he, hn⟩
    split_ifs at hn with hp
    have hpath : e.1 = p ++ [n] := by
      rw [← hp, List.dropLast_append_getLast? n hn]
    exact ⟨e.2, (node_eq_some_iff (by simp)).mpr (hpath ▸ he)⟩
  · rintro ⟨x, hx⟩
    exact ⟨_, (node_eq_some_iff (by simp)).mp hx, by simp⟩

theorem nodup_listdir (d : Disk ν α) (p : List ν) : (d.listdir p).Nodup := by
  have hfst : d.listdir p =
      (d.entries.map Prod.fst).filterMap fun q => if q.dropLast = p then q.getLast? else none := by
    rw [listdir, List.filterMap_map]
    rfl
  rw [hfst]
  refine d.nodup.filterMap ?_
  intro q q' n hq hq'
  simp only [Option.mem_def] at hq hq'
  split_ifs at hq hq' with hp hp'
  rw [← List.dropLast_append_getLast? n hq, ← List.dropLast_append_getLast? n hq', hp, hp']

theorem path_ne_nil {d : Disk ν α} {p : List ν} (h : d.found p = false) : p ≠ [] := by
  rintro rfl
  cases h

theorem nodup_mkdir {d : Disk ν α} {p : List ν} (h : d.found p = false ∧ d.isdir p.dropLast) :
    ((d.entries ++ [(p, Node.dir)]).map Prod.fst).Nodup := by
  have hnew : p ∉ d.entries.map Prod.fst := by
    rw [← Dict.get?_eq_none_iff]
    simpa [node, path_ne_nil h.1] using not_found_iff.mp h.1
  rw [List.map_append, List.nodup_append]
  refine ⟨d.nodup, List.nodup_singleton p, ?_⟩
  intro q hq q' hq' heq
  rw [List.map_cons, List.map_nil, List.mem_singleton] at hq'
  rw [heq, hq'] at hq
  exact hnew hq

theorem closed_mkdir {d : Disk ν α} {p : List ν} (h : d.found p = false ∧ d.isdir p.dropLast) :
    ∀ e ∈ d.entries ++ [(p, Node.dir)],
      e.1 ≠ [] ∧ (e.1.dropLast = [] ∨ (e.1.dropLast, Node.dir) ∈ d.entries ++ [(p, Node.dir)]) := by
  intro e he
  rw [List.mem_append, List.mem_singleton] at he
  rcases he with he | rfl
  · obtain ⟨hne, hparent⟩ := d.closed e he
    exact ⟨hne, hparent.imp_right (List.mem_append_left _)⟩
  · refine ⟨path_ne_nil h.1, ?_⟩
    by_cases hnil : p.dropLast = []
    · exact Or.inl hnil
    · exact Or.inr (List.mem_append_left _ ((node_eq_some_iff hnil).mp (isdir_iff.mp h.2)))

-- os.mkdir
def mkdir (d : Disk ν α) (p : List ν) : Option (Disk ν α) :=
  if h : d.found p = false ∧ d.isdir p.dropLast then
    some ⟨d.entries ++ [(p, .dir)], nodup_mkdir h, closed_mkdir h⟩
  else none

theorem mkdir_eq_some {d d' : Disk ν α} {p : List ν} (h : d.mkdir p = some d') :
    d.node p = none ∧ d.node p.dropLast = some .dir ∧
      ∀ q, d'.node q = if q = p then some .dir else d.node q := by
  unfold mkdir at h
  split_ifs at h with hp
  cases h
  refine ⟨not_found_iff.mp hp.1, isdir_iff.mp hp.2, fun q => ?_⟩
  by_cases hq : q = []
  · rw [hq, node_nil, node_nil, ite_self]
  · ext x
    rw [node_eq_some_iff hq]
    by_cases heq : q = p
    · have hnone : (p, x) ∉ d.entries := fun hmem => by
        rw [← node_eq_some_iff (path_ne_nil hp.1), not_found_iff.mp hp.1] at hmem
        cases hmem
      simp [heq, hnone, eq_comm]
    · simp [heq, node_eq_some_iff hq]

-- The directories of a path that are not there, from the top down.
def mkdirs (d : Disk ν α) (done : List ν) : List ν → Option (Disk ν α)
  | [] => some d
  | n :: rest =>
      if d.found (done ++ [n]) then d.mkdirs (done ++ [n]) rest
      else (d.mkdir (done ++ [n])).bind fun d => d.mkdirs (done ++ [n]) rest

-- os.makedirs
def makedirs (d : Disk ν α) (p : List ν) : Option (Disk ν α) :=
  if d.found p then none else d.mkdirs [] p

omit [DecidableEq ν] in
theorem prefix_cons_iff_between {done q : List ν} {n : ν} {rest : List ν} :
    (done <+: q ∧ q <+: done ++ n :: rest) ↔
      q = done ∨ (done ++ [n] <+: q ∧ q <+: done ++ [n] ++ rest) := by
  constructor
  · rintro ⟨⟨r, rfl⟩, hle⟩
    rw [List.prefix_append_right_inj] at hle
    cases r with
    | nil => exact Or.inl (List.append_nil done)
    | cons m r =>
        obtain ⟨rfl, hr⟩ := List.cons_prefix_cons.mp hle
        refine Or.inr ⟨⟨r, by simp⟩, ?_⟩
        rw [← List.append_cons, List.prefix_append_right_inj]
        exact hle
  · rintro (rfl | ⟨hle, hge⟩)
    · exact ⟨List.prefix_rfl, List.prefix_append _ _⟩
    · exact ⟨(List.prefix_append done [n]).trans hle, by simpa using hge⟩

theorem mkdirs_eq_some {d d' : Disk ν α} {done rest : List ν} (hdone : d.node done = some .dir)
    (hlast : ∀ c, d.node (done ++ rest) ≠ some (.file c))
    (h : d.mkdirs done rest = some d') (q : List ν) :
    (d'.node q = if done <+: q ∧ q <+: done ++ rest then some .dir else d.node q) ∧
      (d.node q ≠ none → d'.node q = d.node q) := by
  induction rest generalizing d done with
  | nil =>
      cases h
      rw [List.append_nil]
      refine ⟨?_, fun _ => rfl⟩
      split_ifs with hq
      · rw [hq.2.eq_of_length_le hq.1.length_le, hdone]
      · rfl
  | cons n rest ih =>
      rw [List.append_cons] at hlast
      -- in both cases the next element is a directory from here on
      have hstep : ∃ e : Disk ν α, e.mkdirs (done ++ [n]) rest = some d' ∧
          e.node (done ++ [n]) = some .dir ∧
          (∀ q, e.node q = if q = done ++ [n] then some .dir else d.node q) ∧
          ∀ q, d.node q ≠ none → e.node q = d.node q := by
        unfold mkdirs at h
        split_ifs at h with hfound
        · have hdir : d.node (done ++ [n]) = some .dir := by
            cases hn : d.node (done ++ [n]) with
            | none => exact absurd hn (found_iff.mp hfound)
            | some x =>
                cases x with
                | dir => rfl
                | file c =>
                    cases rest with
                    | nil => exact absurd hn (by simpa using hlast c)
                    | cons m rest =>
                        have hnone : d.node (done ++ [n] ++ [m]) = none := by
                          by_contra hne
                          simpa using eq_nil_of_file hn hne
                        have hfail : d.mkdir (done ++ [n] ++ [m]) = none := by
                          refine dif_neg fun hmk => ?_
                          rw [List.dropLast_concat, isdir_iff, hn] at hmk
                          cases hmk.2
                        rw [mkdirs, not_found_iff.mpr hnone, if_neg Bool.false_ne_true, hfail] at h
                        cases h
          refine ⟨d, h, hdir, fun q => ?_, fun _ _ => rfl⟩
          split_ifs with hq
          · rw [hq, hdir]
          · rfl
        · obtain ⟨e, he, hrest⟩ := Option.bind_eq_some_iff.mp h
          obtain ⟨hnone, -, hnode⟩ := mkdir_eq_some he
          refine ⟨e, hrest, by rw [hnode, if_pos rfl], hnode, fun q hq => ?_⟩
          rw [hnode, if_neg]
          rintro rfl
          exact hq hnone
      obtain ⟨e, hrest, hdir, hnode, hkept⟩ := hstep
      have hfile : ∀ c, e.node (done ++ [n] ++ rest) ≠ some (.file c) := by
        intro c
        rw [hnode]
        split_ifs
        · simp
        · exact hlast c
      obtain ⟨hnew, hold⟩ := ih hdir hfile hrest
      refine ⟨?_, fun hq => (hold (by rwa [hkept q hq])).trans (hkept q hq)⟩
      rw [hnew, hnode]
      simp only [prefix_cons_iff_between]
      by_cases hq : q = done
      · have hne : ¬ done ++ [n] <+: done := fun hle => by
          have hlen := hle.length_le
          rw [List.length_append, List.length_singleton] at hlen
          omega
        simp [hq, hdone, hne]
      · by_cases hq' : q = done ++ [n]
        · simp [hq']
        · simp [hq, hq']

-- Every directory of the path is there then, and nothing else is new.
theorem makedirs_eq_some {d d' : Disk ν α} {p : List ν} (h : d.makedirs p = some d') :
    d.node p = none ∧ (∀ q, d'.node q = if q <+: p then some .dir else d.node q) ∧
      ∀ q, d.node q ≠ none → d'.node q = d.node q := by
  unfold makedirs at h
  split_ifs at h with hp
  have hnone := not_found_iff.mp (Bool.eq_false_iff.mpr hp)
  have hnode := fun q => mkdirs_eq_some (node_nil d) (by simp [hnone]) h q
  refine ⟨hnone, fun q => ?_, fun q => (hnode q).2⟩
  simpa using (hnode q).1

theorem exists_mkdir {d : Disk ν α} {p : List ν} (hp : d.node p = none)
    (hparent : d.node p.dropLast = some .dir) : ∃ d', d.mkdir p = some d' :=
  ⟨_, dif_pos ⟨not_found_iff.mpr hp, isdir_iff.mpr hparent⟩⟩

theorem exists_mkdirs {d : Disk ν α} {done rest : List ν} (hdone : d.node done = some .dir)
    (hfree : ∀ q, q <+: done ++ rest → ∀ c, d.node q ≠ some (.file c)) :
    ∃ d', d.mkdirs done rest = some d' := by
  induction rest generalizing d done with
  | nil => exact ⟨d, rfl⟩
  | cons n rest ih =>
      rw [List.append_cons] at hfree
      unfold mkdirs
      cases hn : d.node (done ++ [n]) with
      | some x =>
          rw [if_pos (found_iff.mpr (by simp [hn]))]
          cases x with
          | dir => exact ih hn hfree
          | file c => exact absurd hn (hfree _ (List.prefix_append _ _) c)
      | none =>
          rw [if_neg (by simp [not_found_iff.mpr hn])]
          obtain ⟨e, he⟩ := exists_mkdir hn (by rwa [List.dropLast_concat])
          obtain ⟨-, -, hnode⟩ := mkdir_eq_some he
          rw [he, Option.bind_some]
          refine ih (by rw [hnode, if_pos rfl]) fun q hq c => ?_
          rw [hnode]
          split_ifs
          · simp
          · exact hfree q hq c

theorem exists_makedirs {d : Disk ν α} {p : List ν} (hp : d.node p = none)
    (hfree : ∀ q, q <+: p → ∀ c, d.node q ≠ some (.file c)) : ∃ d', d.makedirs p = some d' := by
  unfold makedirs
  rw [if_neg (by simp [not_found_iff.mpr hp])]
  exact exists_mkdirs (node_nil d) hfree

-- Nothing is changed, and what is new are directories in certain places.
structure Grown (place : List ν → Prop) (d d' : Disk ν α) : Prop where
  kept : ∀ q, d.node q ≠ none → d'.node q = d.node q
  fresh : ∀ q, d.node q = none → d'.node q ≠ none → d'.node q = some .dir ∧ place q

namespace Grown

variable {place : List ν → Prop} {d d' d'' : Disk ν α}

theorem refl (place : List ν → Prop) (d : Disk ν α) : Grown place d d :=
  ⟨fun _ _ => rfl, fun _ hnone hne => absurd hnone hne⟩

theorem trans (h : Grown place d d') (h' : Grown place d' d'') : Grown place d d'' where
  kept q hq := by
    have heq := h.kept q hq
    exact (h'.kept q (by rwa [heq])).trans heq
  fresh q hnone hne := by
    by_cases hq : d'.node q = none
    · exact h'.fresh q hq hne
    · rw [h'.kept q hq]
      exact h.fresh q hnone hq

theorem node_file_iff (h : Grown place d d') {q : List ν} {c : α} :
    d'.node q = some (.file c) ↔ d.node q = some (.file c) := by
  constructor
  · intro hc
    by_cases hq : d.node q = none
    · rw [(h.fresh q hq (by simp [hc])).1] at hc
      cases hc
    · rw [← h.kept q hq, hc]
  · intro hc
    rw [h.kept q (by simp [hc]), hc]

theorem isfile_eq (h : Grown place d d') (q : List ν) : d'.isfile q = d.isfile q := by
  rw [Bool.eq_iff_iff, isfile_iff, isfile_iff]
  simp only [h.node_file_iff]

theorem node_dir (h : Grown place d d') {q : List ν} (hq : d'.node q = some .dir) :
    d.node q = some .dir ∨ place q := by
  by_cases hnone : d.node q = none
  · exact Or.inr (h.fresh q hnone (by simp [hq])).2
  · exact Or.inl ((h.kept q hnone).symm.trans hq)

end Grown

theorem grown_of_makedirs {d d' : Disk ν α} {p : List ν} (h : d.makedirs p = some d') :
    Grown (· <+: p) d d' := by
  obtain ⟨-, hnode, hkept⟩ := makedirs_eq_some h
  refine ⟨hkept, fun q hnone hne => ?_⟩
  rw [hnode] at hne ⊢
  split_ifs at hne ⊢ with hq
  · exact ⟨rfl, hq⟩
  · exact absurd hnone hne

theorem nodup_removed (d : Disk ν α) (p : List ν) :
    ((d.entries.filter fun e => ¬ p.isPrefixOf e.1).map Prod.fst).Nodup :=
  d.nodup.sublist (List.filter_sublist.map Prod.fst)

theorem closed_removed (d : Disk ν α) (p : List ν) :
    ∀ e ∈ d.entries.filter fun e => ¬ p.isPrefixOf e.1, e.1 ≠ [] ∧ (e.1.dropLast = [] ∨
      (e.1.dropLast, Node.dir) ∈ d.entries.filter fun e => ¬ p.isPrefixOf e.1) := by
  intro e he
  obtain ⟨hmem, hp⟩ := List.mem_filter.mp he
  obtain ⟨hne, hparent⟩ := d.closed e hmem
  refine ⟨hne, hparent.imp_right fun hdir => List.mem_filter.mpr ⟨hdir, ?_⟩⟩
  simp only [List.isPrefixOf_iff_prefix, decide_eq_true_eq] at hp ⊢
  exact fun hle => hp (hle.trans (List.dropLast_prefix e.1))

-- The disk without a path and all that is under it.
def removed (d : Disk ν α) (p : List ν) : Disk ν α :=
  ⟨d.entries.filter fun e => ¬ p.isPrefixOf e.1, d.nodup_removed p, d.closed_removed p⟩

theorem node_removed (d : Disk ν α) {p : List ν} (hp : p ≠ []) (q : List ν) :
    (d.removed p).node q = if p <+: q then none else d.node q := by
  by_cases hq : q = []
  · have hne : ¬ p <+: [] := fun hle => hp (List.prefix_nil.mp hle)
    rw [hq, if_neg hne, node_nil, node_nil]
  · ext x
    rw [node_eq_some_iff hq, removed, List.mem_filter]
    split_ifs with hle
    · simp [hle]
    · simp [hle, node_eq_some_iff hq]

def unlink (d : Disk ν α) (p : List ν) : Option (Disk ν α) :=
  if d.isfile p then some (d.removed p) else none

-- shutil.rmtree
def rmtree (d : Disk ν α) (p : List ν) : Option (Disk ν α) :=
  if p ≠ [] ∧ d.isdir p then some (d.removed p) else none

def rmdir (d : Disk ν α) (p : List ν) : Option (Disk ν α) :=
  if p ≠ [] ∧ d.isdir p ∧ d.listdir p = [] then some (d.removed p) else none

end Disk

end Ccp.Lib
