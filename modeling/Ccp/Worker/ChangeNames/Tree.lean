import Ccp.Worker.ChangeNames

namespace Ccp.Worker.ChangeNames

open Lib FileOperations

variable {α : Type*} (unidecode : Str → Str) (maxFilename : ℕ)

-- The names that a directory has.
structure Scanned (d : Disk Name α) (p names : List Name) : Prop where
  nodup : names.Nodup
  mem : ∀ n, n ∈ names ↔ d.node (p ++ [n]) ≠ none

-- The new name of an entry, from the names in its directory.
def newName (names : List Name) (basename : Name) : Option Name :=
  if basename = changeName unidecode basename then some basename
  else
    (freeName maxFilename names.contains names.length (changeName unidecode basename)).filter
      (·.val.length ≤ maxFilename)

-- The names in the directory after one has become another one.
def renamedIn (names : List Name) (basename new : Name) : List Name :=
  names.map fun n => if n = basename then new else n

namespace Listing

def names : Listing → List Name
  | nil => []
  | file name rest => name :: rest.names
  | dir name _ rest => name :: rest.names

-- The entries are on the disk, and those of a directory in it are all that it has.
def Shows (d : Disk Name α) : Listing → List Name → Prop
  | nil, _ => True
  | file name rest, p => d.isfile (p ++ [name]) = true ∧ rest.Shows d p
  | dir name sub rest, p => d.isdir (p ++ [name]) = true ∧
      Scanned d (p ++ [name]) sub.names ∧ sub.Shows d (p ++ [name]) ∧ rest.Shows d p

structure Lists (l : Listing) (d : Disk Name α) (p : List Name) : Prop where
  scanned : Scanned d p l.names
  shows : l.Shows d p

-- The paths of the entries before and after, from the names alone.
def changes : Listing → (startPath oldStartPath names : List Name) → Option (List Change)
  | nil, _, _, _ => some []
  | file name rest, start, old, names =>
      (newName unidecode maxFilename names name).bind fun new =>
        (rest.changes start old (renamedIn names name new)).map fun ys =>
          ⟨old ++ [name], start ++ [new], false⟩ :: ys
  | dir name sub rest, start, old, names =>
      (newName unidecode maxFilename names name).bind fun new =>
        (sub.changes (start ++ [new]) (old ++ [name]) sub.names).bind fun inner =>
          (rest.changes start old (renamedIn names name new)).map fun ys =>
            ⟨old ++ [name], start ++ [new], true⟩ :: inner ++ ys

end Listing

-- What the name of an entry may have become: it stays when there is nothing to replace.
def Sanitised (old new : Name) : Prop :=
  if old = changeName unidecode old then new = old
  else ∃ n, new.val = candidate maxFilename (changeName unidecode old) n

variable {unidecode maxFilename} {d₀ d d' d₁ d₂ : Disk Name α} {σ σ' σ₁ σ₂ : List Name → List Name}
  {start old names todo p q : List Name} {n new : Name} {ys inner : List Change}

theorem Sanitised.allowed {old new : Name} (h : Sanitised unidecode maxFilename old new) :
    ∀ c ∈ new.val, allowed c = true := by
  rw [Sanitised] at h
  split_ifs at h with hold
  · rw [h, hold]
    exact fun c => allowed_of_mem_changeName
  · obtain ⟨k, hk⟩ := h
    rw [hk]
    exact fun c => allowed_of_mem_candidate fun c => allowed_of_mem_changeName

-- Only a name that is too long is refused: the search for one that is free ends.
theorem exists_long_of_newName_eq_none (h : newName unidecode maxFilename names n = none) :
    ∃ k, maxFilename < (candidate maxFilename (changeName unidecode n) k).length := by
  rw [newName] at h
  split_ifs at h
  · have hfree : freeName maxFilename names.contains names.length (changeName unidecode n) ≠ none :=
      freeName_ne_none (fun c => allowed_of_mem_changeName) fun name => List.contains_iff_mem.mp
    obtain ⟨new, hnew⟩ := Option.ne_none_iff_exists'.mp hfree
    obtain ⟨k, hk, hname⟩ := List.exists_of_findSome?_eq_some hnew
    have hval := (entryName_eq_some_iff.mp (Option.filter_eq_some_iff.mp hname).1).1
    rw [hnew, Option.filter_eq_none_iff] at h
    refine ⟨k, ?_⟩
    rw [← hval]
    simpa using h new rfl

theorem Scanned.length_listdir (h : Scanned d p names) : (d.listdir p).length = names.length := by
  refine List.Perm.length_eq ((List.perm_ext_iff_of_nodup (d.nodup_listdir p) h.nodup).mpr ?_)
  intro n
  rw [Disk.mem_listdir, h.mem]

theorem Scanned.found_eq (h : Scanned d p names) :
    (fun n => d.found (p ++ [n])) = fun n => names.contains n := by
  funext n
  rw [Bool.eq_iff_iff, Disk.found_iff, List.contains_iff_mem, h.mem]

-- A part of the tree under a directory is visited: what is in it has gone where the changes
-- say, and all the rest is where it was.
structure Visited (unidecode : Str → Str) (maxFilename : ℕ) (d₀ : Disk Name α)
    (start old todo : List Name) (σ : List Name → List Name) (d : Disk Name α)
    (σ' : List Name → List Name) (ys : List Change) : Prop where
  tracks : Disk.Tracks σ' d₀ d
  length : ∀ p, d₀.node p ≠ none → (σ' p).length = p.length
  off : ∀ p, d₀.node p ≠ none → (∀ n ∈ todo, ¬ old ++ [n] <+: p) → σ' p = σ p
  change : ∀ y ∈ ys, d₀.node y.oldPath ≠ none ∧ σ' y.oldPath = y.changedPath ∧
    y.isDir = d₀.isdir y.oldPath
  path : ∀ y ∈ ys, ∃ n ∈ todo, ∃ r new s, y.oldPath = old ++ n :: r ∧
    y.changedPath = start ++ new :: s ∧
      List.Forall₂ (Sanitised unidecode maxFilename) (n :: r) (new :: s)
  cover : ∀ p, d₀.node p ≠ none → (∃ n ∈ todo, old ++ [n] <+: p) → ∃ y ∈ ys, y.oldPath = p
  nodup : (ys.map Change.oldPath).Nodup

-- The directory before the rest of its entries is visited.
structure Ready (d₀ : Disk Name α) (start old todo names : List Name) (σ : List Name → List Name)
    (d : Disk Name α) : Prop where
  tracks : Disk.Tracks σ d₀ d
  length : ∀ p, d₀.node p ≠ none → (σ p).length = p.length
  depth : start.length = old.length
  nodup : todo.Nodup
  found : ∀ n ∈ todo, d₀.node (old ++ [n]) ≠ none
  leads : ∀ n ∈ todo, Disk.Leads d₀ σ (old ++ [n]) (start ++ [n])
  scanned : Scanned d start names

-- One entry has its new name.
structure Renamed (unidecode : Str → Str) (maxFilename : ℕ) (d₀ : Disk Name α)
    (start old names : List Name) (σ : List Name → List Name) (n new : Name) (d : Disk Name α)
    (σ' : List Name → List Name) : Prop where
  tracks : Disk.Tracks σ' d₀ d
  length : ∀ p, d₀.node p ≠ none → (σ' p).length = p.length
  off : ∀ p, d₀.node p ≠ none → ¬ old ++ [n] <+: p → σ' p = σ p
  leads : Disk.Leads d₀ σ' (old ++ [n]) (start ++ [new])
  fresh : new = n ∨ new ∉ names
  sanitised : Sanitised unidecode maxFilename n new
  scanned : Scanned d start (renamedIn names n new)

theorem Ready.mem_names (h : Ready d₀ start old todo names σ d) (hn : n ∈ todo) : n ∈ names := by
  rw [h.scanned.mem, ← (h.leads n hn).eq (h.found n hn), h.tracks.node _ (h.found n hn)]
  exact h.found n hn

theorem renamedIn_self (names : List Name) (n : Name) : renamedIn names n n = names := by
  refine (List.map_congr_left fun m _ => ?_).trans (List.map_id names)
  split_ifs with hm
  · exact hm.symm
  · rfl

theorem mem_renamedIn {m : Name} (hn : n ∈ names) :
    m ∈ renamedIn names n new ↔ m = new ∨ m ∈ names ∧ m ≠ n := by
  rw [renamedIn, List.mem_map]
  constructor
  · rintro ⟨k, hk, rfl⟩
    split_ifs with heq
    · exact Or.inl rfl
    · exact Or.inr ⟨hk, heq⟩
  · rintro (rfl | ⟨hm, hne⟩)
    · exact ⟨n, hn, if_pos rfl⟩
    · exact ⟨m, hm, if_neg hne⟩

theorem Scanned.renamed (h : Scanned d start names) (hn : n ∈ names) (hnew : new ∉ names)
    (hmoved : Disk.Moved d d' (start ++ [n]) (start ++ [new])) :
    Scanned d' start (renamedIn names n new) := by
  have hne : new ≠ n := by
    rintro rfl
    exact hnew hn
  refine ⟨List.Nodup.map_on (fun a ha b hb hab => ?_) h.nodup, fun m => ?_⟩
  · split_ifs at hab with hka hkb hkb
    · rw [hka, hkb]
    · exact absurd (hab ▸ hb) hnew
    · exact absurd (hab ▸ ha) hnew
    · exact hab
  · rw [mem_renamedIn hn, hmoved.node_eq]
    have hsame : ∀ a b : Name, start ++ [a] <+: start ++ [b] ↔ a = b := by
      intro a b
      rw [List.prefix_append_right_inj]
      simp
    simp only [hsame]
    by_cases hm : new = m
    · subst hm
      have hfound := (h.mem n).mp hn
      simpa using hfound
    · rw [if_neg hm]
      by_cases hmn : n = m
      · simp [hmn, Ne.symm hm]
      · rw [if_neg hmn, ← h.mem m]
        simp [Ne.symm hm, Ne.symm hmn]

theorem Ready.off_of_leads (h : Ready d₀ start old todo names σ d) (hn : n ∈ todo)
    (hp : d₀.node p ≠ none) (hnot : ¬ old ++ [n] <+: p) :
    Disk.rekey (start ++ [n]) (start ++ [new]) (σ p) = σ p := by
  refine Disk.rekey_of_not_under ?_ _
  rintro ⟨r, hr⟩
  exact hnot ⟨r, ((h.leads n hn p hp r).mp hr.symm).symm⟩

theorem Ready.changePath_cases (h : Ready d₀ start old todo names σ d) (hn : n ∈ todo) :
    (changePath unidecode maxFilename start n d = none ∧ newName unidecode maxFilename names n = none ∧
      ∃ k, maxFilename < (candidate maxFilename (changeName unidecode n) k).length) ∨
    ∃ new d₁ σ₁, changePath unidecode maxFilename start n d = some (d₁, new) ∧
      newName unidecode maxFilename names n = some new ∧
      Renamed unidecode maxFilename d₀ start old names σ n new d₁ σ₁ := by
  have hrefused := @exists_long_of_newName_eq_none unidecode maxFilename names n
  rw [changePath, newName, h.scanned.found_eq, h.scanned.length_listdir]
  by_cases hsame : n = changeName unidecode n
  · rw [if_pos hsame, if_pos hsame]
    refine Or.inr ⟨n, d, σ, rfl, rfl, h.tracks, h.length, fun _ _ _ => rfl, h.leads n hn,
      Or.inl rfl, ?_, ?_⟩
    · rw [Sanitised, if_pos hsame]
    · rw [renamedIn_self]
      exact h.scanned
  rw [if_neg hsame, if_neg hsame]
  cases hfree : freeName maxFilename (fun n => names.contains n) names.length
      (changeName unidecode n) with
  | none => exact Or.inl ⟨rfl, rfl, hrefused (by rw [newName, if_neg hsame, hfree]; rfl)⟩
  | some new =>
      rw [Option.bind_some]
      by_cases hlong : maxFilename < new.val.length
      · rw [if_pos hlong]
        have hnone : newName unidecode maxFilename names n = none := by
          rw [newName, if_neg hsame, hfree]
          simp [hlong]
        exact Or.inl ⟨rfl, by simp [hlong], hrefused hnone⟩
      rw [if_neg hlong, Option.filter_some, if_pos (by simpa using hlong)]
      right
      obtain ⟨hnot, k, hk⟩ := freeName_eq_some hfree
      have hnew : new ∉ names := by simpa using hnot
      have hmem := h.mem_names hn
      have hempty : d.node (start ++ [new]) = none := by
        by_contra hne
        exact hnew ((h.scanned.mem new).mpr hne)
      obtain ⟨d₁, hmove, hmoved⟩ := Disk.exists_moved ((h.scanned.mem n).mp hmem) hempty
      have hoff : ∀ p, d₀.node p ≠ none → ¬ old ++ [n] <+: p →
          (Disk.rekey (start ++ [n]) (start ++ [new]) ∘ σ) p = σ p :=
        fun p hp hnot => h.off_of_leads hn hp hnot
      refine ⟨new, d₁, Disk.rekey (start ++ [n]) (start ++ [new]) ∘ σ, by rw [hmove]; rfl, rfl,
        h.tracks.trans (hmoved.tracks hempty), fun p hp => ?_, hoff, ?_, Or.inr hnew, ?_,
        h.scanned.renamed hmem hnew hmoved⟩
      · exact (Disk.length_rekey (by simp) _).trans (h.length p hp)
      · intro p hp r
        constructor
        · intro heq
          by_cases hunder : old ++ [n] <+: p
          · obtain ⟨t, rfl⟩ := hunder
            rw [Function.comp_apply, (h.leads n hn _ hp t).mpr rfl, Disk.rekey_append,
              List.append_cancel_left_eq] at heq
            rw [heq]
          · -- nothing stands at a free path
            rw [hoff p hp hunder] at heq
            have hfound := h.tracks.node p hp
            rw [heq, Disk.node_append_eq_none hempty] at hfound
            exact absurd hfound.symm hp
        · rintro rfl
          rw [Function.comp_apply, (h.leads n hn _ hp r).mpr rfl, Disk.rekey_append]
      · rw [Sanitised, if_neg hsame]
        exact ⟨k, hk⟩

theorem not_under_of_ne {n m : Name} (h : m ≠ n) (r : List Name) : ¬ old ++ [m] <+: old ++ n :: r := by
  rw [List.prefix_append_right_inj, List.cons_prefix_cons]
  exact fun hle => h hle.1

theorem Renamed.visited_file (h : Renamed unidecode maxFilename d₀ start old names σ n new d σ')
    (hfile : d₀.isfile (old ++ [n]) = true) :
    Visited unidecode maxFilename d₀ start old [n] σ d σ'
      [⟨old ++ [n], start ++ [new], false⟩] := by
  obtain ⟨c, hc⟩ := Disk.isfile_iff.mp hfile
  have hfound : d₀.node (old ++ [n]) ≠ none := by simp [hc]
  refine ⟨h.tracks, h.length, fun p hp hnot => h.off p hp (hnot n (by simp)), ?_, ?_, ?_,
    List.nodup_singleton _⟩
  · intro y hy
    obtain rfl := List.mem_singleton.mp hy
    exact ⟨hfound, h.leads.eq hfound, by simp [Disk.isdir, hc]⟩
  · intro y hy
    obtain rfl := List.mem_singleton.mp hy
    exact ⟨n, by simp, [], new, [], rfl, rfl, .cons h.sanitised .nil⟩
  · rintro p hp ⟨m, hm, hle⟩
    obtain rfl := List.mem_singleton.mp hm
    obtain ⟨t, rfl⟩ := hle
    obtain rfl := Disk.eq_nil_of_file hc hp
    exact ⟨_, List.mem_singleton_self _, by simp⟩

theorem Renamed.visited_dir {sub : List Name}
    (h : Renamed unidecode maxFilename d₀ start old names σ n new d₁ σ₁)
    (hdir : d₀.isdir (old ++ [n]) = true) (hscan : Scanned d₀ (old ++ [n]) sub)
    (hsub : Visited unidecode maxFilename d₀ (start ++ [new]) (old ++ [n]) sub σ₁ d₂ σ₂ inner) :
    Visited unidecode maxFilename d₀ start old [n] σ d₂ σ₂
      (⟨old ++ [n], start ++ [new], true⟩ :: inner) := by
  have hfound : d₀.node (old ++ [n]) ≠ none := by simp [Disk.isdir_iff.mp hdir]
  have hself : ∀ m : Name, ¬ old ++ [n] ++ [m] <+: old ++ [n] := fun m hle => by
    have hlen := hle.length_le
    simp at hlen
  refine ⟨hsub.tracks, hsub.length, fun p hp hnot => ?_, ?_, ?_, ?_, ?_⟩
  · have hout := hnot n (by simp)
    rw [hsub.off p hp fun m _ hle => hout ((List.prefix_append _ [m]).trans hle), h.off p hp hout]
  · intro y hy
    rcases List.mem_cons.mp hy with rfl | hy
    · exact ⟨hfound, (hsub.off _ hfound fun m _ => hself m).trans (h.leads.eq hfound), hdir.symm⟩
    · exact hsub.change y hy
  · intro y hy
    rcases List.mem_cons.mp hy with rfl | hy
    · exact ⟨n, by simp, [], new, [], rfl, rfl, .cons h.sanitised .nil⟩
    · obtain ⟨m, -, r, new', s, hold, hnew, hall⟩ := hsub.path y hy
      exact ⟨n, by simp, m :: r, new, new' :: s, by simp [hold], by simp [hnew],
        .cons h.sanitised hall⟩
  · rintro p hp ⟨m, hm, hle⟩
    obtain rfl := List.mem_singleton.mp hm
    obtain ⟨t, rfl⟩ := hle
    cases t with
    | nil => exact ⟨_, List.mem_cons_self, by simp⟩
    | cons k t =>
        rw [List.append_cons] at hp
        have hk : k ∈ sub := by
          rw [hscan.mem]
          intro hnone
          exact hp (Disk.node_append_eq_none hnone t)
        obtain ⟨y, hy, heq⟩ := hsub.cover _ hp ⟨k, hk, List.prefix_append _ t⟩
        exact ⟨y, List.mem_cons_of_mem _ hy, heq.trans (List.append_cons _ k t).symm⟩
  · rw [List.map_cons, List.nodup_cons]
    refine ⟨fun hmem => ?_, hsub.nodup⟩
    obtain ⟨y, hy, heq⟩ := List.mem_map.mp hmem
    obtain ⟨m, -, r, -, -, hold, -⟩ := hsub.path y hy
    exact hself m ⟨r, by rw [← List.append_cons, ← hold, heq]⟩

-- The part that one entry makes, and the part of the entries after it.
theorem Visited.append {ys' : List Change}
    (h : Visited unidecode maxFilename d₀ start old [n] σ d₂ σ₂ ys)
    (h' : Visited unidecode maxFilename d₀ start old todo σ₂ d' σ' ys') (hn : n ∉ todo) :
    Visited unidecode maxFilename d₀ start old (n :: todo) σ d' σ' (ys ++ ys') := by
  have hne : ∀ m ∈ todo, m ≠ n := by
    rintro m hm rfl
    exact hn hm
  have hpath : ∀ y ∈ ys, ∃ r, y.oldPath = old ++ n :: r := by
    intro y hy
    obtain ⟨m, hm, r, -, -, hold, -⟩ := h.path y hy
    obtain rfl := List.mem_singleton.mp hm
    exact ⟨r, hold⟩
  refine ⟨h'.tracks, h'.length, fun p hp hnot => ?_, ?_, ?_, ?_, ?_⟩
  · rw [h'.off p hp fun m hm => hnot m (List.mem_cons_of_mem n hm),
      h.off p hp fun m hm => hnot m (List.mem_cons.mpr (Or.inl (List.mem_singleton.mp hm)))]
  · intro y hy
    rcases List.mem_append.mp hy with hy | hy
    · obtain ⟨hfound, hnew, hkind⟩ := h.change y hy
      obtain ⟨r, hr⟩ := hpath y hy
      refine ⟨hfound, (h'.off _ hfound fun m hm => ?_).trans hnew, hkind⟩
      rw [hr]
      exact not_under_of_ne (hne m hm) r
    · exact h'.change y hy
  · intro y hy
    rcases List.mem_append.mp hy with hy | hy
    · obtain ⟨m, hm, hrest⟩ := h.path y hy
      exact ⟨m, List.mem_cons.mpr (Or.inl (List.mem_singleton.mp hm)), hrest⟩
    · obtain ⟨m, hm, hrest⟩ := h'.path y hy
      exact ⟨m, List.mem_cons_of_mem n hm, hrest⟩
  · rintro p hp ⟨m, hm, hle⟩
    rcases List.mem_cons.mp hm with rfl | hm
    · obtain ⟨y, hy, heq⟩ := h.cover p hp ⟨m, List.mem_singleton_self m, hle⟩
      exact ⟨y, List.mem_append_left ys' hy, heq⟩
    · obtain ⟨y, hy, heq⟩ := h'.cover p hp ⟨m, hm, hle⟩
      exact ⟨y, List.mem_append_right ys hy, heq⟩
  · rw [List.map_append, List.nodup_append]
    refine ⟨h.nodup, h'.nodup, ?_⟩
    intro a ha b hb hab
    obtain ⟨y, hy, rfl⟩ := List.mem_map.mp ha
    obtain ⟨y', hy', rfl⟩ := List.mem_map.mp hb
    obtain ⟨r, hr⟩ := hpath y hy
    obtain ⟨m, hm, r', -, -, hold, -⟩ := h'.path y' hy'
    rw [hr, hold, List.append_cancel_left_eq] at hab
    exact hne m hm (List.cons.inj hab).1.symm

theorem Renamed.ready {sub : List Name} (hdepth : start.length = old.length)
    (h : Renamed unidecode maxFilename d₀ start old names σ n new d₁ σ₁)
    (hscan : Scanned d₀ (old ++ [n]) sub) :
    Ready d₀ (start ++ [new]) (old ++ [n]) sub sub σ₁ d₁ := by
  have hleads : ∀ m, Disk.Leads d₀ σ₁ (old ++ [n] ++ [m]) (start ++ [new] ++ [m]) := fun m =>
    h.leads.append [m]
  refine ⟨h.tracks, h.length, by simp [hdepth], hscan.nodup, fun m hm => (hscan.mem m).mp hm,
    fun m _ => hleads m, hscan.nodup, fun m => ?_⟩
  rw [hscan.mem]
  constructor
  · intro hfound
    rwa [← (hleads m).eq hfound, h.tracks.node _ hfound]
  · intro hfound
    obtain ⟨p, hp, hσ⟩ := h.tracks.onto _ hfound
    rwa [← (by simpa using (hleads m p hp []).mp (by simpa using hσ) : p = old ++ [n] ++ [m])]

-- Once an entry is visited, the next one is next.
theorem Ready.rest {ys : List Change} (h : Ready d₀ start old (n :: todo) names σ d)
    (hfresh : new = n ∨ new ∉ names)
    (hv : Visited unidecode maxFilename d₀ start old [n] σ d₂ σ₂ ys)
    (hnew : ∀ y ∈ ys, start ++ [new] <+: y.changedPath)
    (hscan : Scanned d₂ start (renamedIn names n new)) :
    Ready d₀ start old todo (renamedIn names n new) σ₂ d₂ := by
  obtain ⟨hn, hnodup⟩ := List.nodup_cons.mp h.nodup
  refine ⟨hv.tracks, hv.length, h.depth, hnodup,
    fun m hm => h.found m (List.mem_cons_of_mem n hm), fun m hm => ?_, hscan⟩
  have hmem := List.mem_cons_of_mem n hm
  have hne : m ≠ n := by
    rintro rfl
    exact hn hm
  have hother : m ≠ new := by
    rcases hfresh with rfl | hfresh
    · exact hne
    · rintro rfl
      exact hfresh (h.mem_names hmem)
  refine (h.leads m hmem).congr hne hother (fun p hp hnot => hv.off p hp (by simpa using hnot)) ?_
  intro p hp hle
  obtain ⟨y, hy, rfl⟩ := hv.cover p hp ⟨n, List.mem_singleton_self n, hle⟩
  rw [(hv.change y hy).2.1]
  exact hnew y hy

-- What happens in a directory leaves the names beside it.
theorem Scanned.of_sub {sub : List Name} (hdepth : start.length = old.length)
    (h : Renamed unidecode maxFilename d₀ start old names σ n new d₁ σ₁)
    (hsub : Visited unidecode maxFilename d₀ (start ++ [new]) (old ++ [n]) sub σ₁ d₂ σ₂ inner) :
    Scanned d₂ start (renamedIn names n new) := by
  refine ⟨h.scanned.nodup, fun m => ?_⟩
  rw [h.scanned.mem]
  refine (h.tracks.found_congr (k := old.length + 1) hsub.tracks h.length hsub.length ?_ ?_).symm
  · intro p hp hlen
    refine hsub.off p hp fun k _ hle => ?_
    have hle := hle.length_le
    simp only [List.length_append, List.length_singleton] at hle
    omega
  · simp [hdepth]

variable (unidecode maxFilename) in
-- The disk and the names go together.
theorem changeTree_cases (l : Listing) (hshows : l.Shows d₀ old)
    (h : Ready d₀ start old l.names names σ d) :
    (changeTree unidecode maxFilename l start old d = none ∧
      l.changes unidecode maxFilename start old names = none) ∨
    ∃ d' σ' ys, changeTree unidecode maxFilename l start old d = some (d', ys) ∧
      l.changes unidecode maxFilename start old names = some ys ∧
      Visited unidecode maxFilename d₀ start old l.names σ d' σ' ys := by
  induction l generalizing start old names σ d with
  | nil =>
      exact Or.inr ⟨d, σ, [], rfl, rfl, h.tracks, h.length, fun _ _ _ => rfl, by simp, by simp,
        by simp [Listing.names], List.nodup_nil⟩
  | file n rest ih =>
      obtain ⟨hfile, hrest⟩ := hshows
      rw [changeTree, Listing.changes]
      rcases h.changePath_cases List.mem_cons_self with
        ⟨hpath, hname, -⟩ | ⟨new, d₁, σ₁, hpath, hname, hren⟩
      · rw [hpath, hname]
        exact Or.inl ⟨rfl, rfl⟩
      · rw [hpath, hname, Option.bind_some, Option.bind_some]
        have hv := hren.visited_file hfile
        rcases ih hrest (h.rest hren.fresh hv (by simp) hren.scanned) with
          ⟨htree, hchanges⟩ | ⟨d', σ', ys, htree, hchanges, hvisited⟩
        · rw [htree, hchanges]
          exact Or.inl ⟨rfl, rfl⟩
        · rw [htree, hchanges]
          exact Or.inr ⟨d', σ', _, rfl, rfl, hv.append hvisited (List.nodup_cons.mp h.nodup).1⟩
  | dir n sub rest ihsub ih =>
      obtain ⟨hdir, hscan, hsub, hrest⟩ := hshows
      rw [changeTree, Listing.changes]
      rcases h.changePath_cases List.mem_cons_self with
        ⟨hpath, hname, -⟩ | ⟨new, d₁, σ₁, hpath, hname, hren⟩
      · rw [hpath, hname]
        exact Or.inl ⟨rfl, rfl⟩
      rw [hpath, hname, Option.bind_some, Option.bind_some]
      rcases ihsub hsub (hren.ready h.depth hscan) with
        ⟨htree, hchanges⟩ | ⟨d₂, σ₂, inner, htree, hchanges, hinner⟩
      · rw [htree, hchanges]
        exact Or.inl ⟨rfl, rfl⟩
      rw [htree, hchanges, Option.bind_some, Option.bind_some]
      have hv := hren.visited_dir hdir hscan hinner
      have hunder : ∀ y ∈ (⟨old ++ [n], start ++ [new], true⟩ :: inner : List Change),
          start ++ [new] <+: y.changedPath := by
        intro y hy
        rcases List.mem_cons.mp hy with rfl | hy
        · exact List.prefix_rfl
        · obtain ⟨-, -, -, new', s, -, hnew, -⟩ := hinner.path y hy
          exact ⟨new' :: s, hnew.symm⟩
      rcases ih hrest (h.rest hren.fresh hv hunder (Scanned.of_sub h.depth hren hinner)) with
        ⟨htree, hchanges⟩ | ⟨d', σ', ys, htree, hchanges, hvisited⟩
      · rw [htree, hchanges]
        exact Or.inl ⟨rfl, rfl⟩
      · rw [htree, hchanges]
        exact Or.inr ⟨d', σ', _, rfl, rfl, hv.append hvisited (List.nodup_cons.mp h.nodup).1⟩

-- Every entry of the tree is there afterwards, in its own place under its sanitised path, and
-- beside them there is what was there before.
structure Kept (unidecode : Str → Str) (maxFilename : ℕ) (start : List Name) (d d' : Disk Name α)
    (ys : List Change) : Prop where
  entries : ∀ p, (∃ y ∈ ys, y.oldPath = p) ↔ d.node p ≠ none ∧ ∃ r, r ≠ [] ∧ p = start ++ r
  node : ∀ y ∈ ys, d'.node y.changedPath = d.node y.oldPath ∧ y.isDir = d.isdir y.oldPath
  apart : (ys.map Change.changedPath).Nodup
  path : ∀ y ∈ ys, ∃ r s, y.oldPath = start ++ r ∧ y.changedPath = start ++ s ∧
    List.Forall₂ (Sanitised unidecode maxFilename) r s
  others : ∀ p, d.node p ≠ none → (¬ ∃ y ∈ ys, y.oldPath = p) → d'.node p = d.node p
  only : ∀ p, d'.node p ≠ none →
    (∃ y ∈ ys, y.changedPath = p) ∨ d.node p ≠ none ∧ ¬ ∃ y ∈ ys, y.oldPath = p

theorem Listing.Lists.ready {l : Listing} (h : l.Lists d start) :
    Ready d start start l.names l.names id d where
  tracks := Disk.Tracks.refl d
  length _ _ := rfl
  depth := rfl
  nodup := h.scanned.nodup
  found n hn := (h.scanned.mem n).mp hn
  leads _ _ := Disk.Leads.refl d _
  scanned := h.scanned

-- The walk comes to its end when the names do.
theorem exists_changeTree {l : Listing} (h : l.Lists d start)
    (hdone : l.changes unidecode maxFilename start start l.names = some ys) :
    ∃ d', changeTree unidecode maxFilename l start start d = some (d', ys) := by
  rcases changeTree_cases unidecode maxFilename l h.shows h.ready with
    ⟨-, hnone⟩ | ⟨d', -, ys', hsome, hchanges, -⟩
  · rw [hnone] at hdone
    cases hdone
  · rw [hchanges] at hdone
    exact ⟨d', Option.some.inj hdone ▸ hsome⟩

theorem changeTree_kept {l : Listing} (h : l.Lists d start)
    (htree : changeTree unidecode maxFilename l start start d = some (d', ys)) :
    l.changes unidecode maxFilename start start l.names = some ys ∧
      Kept unidecode maxFilename start d d' ys := by
  rcases changeTree_cases unidecode maxFilename l h.shows h.ready with
    ⟨hnone, -⟩ | ⟨d'', σ', ys', hsome, hchanges, hv⟩
  · rw [hnone] at htree
    cases htree
  obtain ⟨rfl, rfl⟩ := Prod.mk.inj (Option.some.inj (hsome.symm.trans htree))
  have hentry : ∀ p, d.node p ≠ none → (∃ r, r ≠ [] ∧ p = start ++ r) → ∃ y ∈ ys', y.oldPath = p := by
    rintro p hp ⟨r, hr, rfl⟩
    obtain ⟨m, r, rfl⟩ := List.exists_cons_of_ne_nil hr
    rw [List.append_cons] at hp ⊢
    have hm : m ∈ l.names := by
      rw [h.scanned.mem]
      intro hnone
      exact hp (Disk.node_append_eq_none hnone r)
    exact hv.cover _ hp ⟨m, hm, List.prefix_append _ r⟩
  -- what is no entry of the tree stays where it is
  have hstay : ∀ q, d.node q ≠ none → (¬ ∃ y ∈ ys', y.oldPath = q) → σ' q = q := by
    intro q hq hnot
    refine hv.off q hq ?_
    rintro m - ⟨r, hr⟩
    exact hnot (hentry q hq ⟨m :: r, by simp, hr.symm.trans (List.append_cons _ m r).symm⟩)
  refine ⟨hchanges, fun p => ⟨?_, fun hp => hentry p hp.1 hp.2⟩, fun y hy => ?_, ?_, fun y hy => ?_,
    fun p hp hnot => ?_, fun p hp => ?_⟩
  · rintro ⟨y, hy, rfl⟩
    obtain ⟨m, -, r, -, -, hold, -⟩ := hv.path y hy
    exact ⟨(hv.change y hy).1, m :: r, by simp, hold⟩
  · obtain ⟨hfound, hnew, hkind⟩ := hv.change y hy
    exact ⟨by rw [← hnew, hv.tracks.node _ hfound], hkind⟩
  · have hmap : ys'.map Change.changedPath = (ys'.map Change.oldPath).map σ' := by
      rw [List.map_map]
      exact List.map_congr_left fun y hy => (hv.change y hy).2.1.symm
    rw [hmap]
    refine List.Nodup.map_on (fun a ha b hb hab => ?_) hv.nodup
    obtain ⟨y, hy, rfl⟩ := List.mem_map.mp ha
    obtain ⟨y', hy', rfl⟩ := List.mem_map.mp hb
    exact hv.tracks.inj _ _ (hv.change y hy).1 (hv.change y' hy').1 hab
  · obtain ⟨m, -, r, new, s, hold, hnew, hall⟩ := hv.path y hy
    exact ⟨m :: r, new :: s, hold, hnew, hall⟩
  · have hnode := hv.tracks.node p hp
    rwa [hstay p hp hnot] at hnode
  · obtain ⟨q, hq, heq⟩ := hv.tracks.onto p hp
    by_cases hy : ∃ y ∈ ys', y.oldPath = q
    · obtain ⟨y, hy, rfl⟩ := hy
      exact Or.inl ⟨y, hy, (hv.change y hy).2.1.symm.trans heq⟩
    · rw [hstay q hq hy] at heq
      exact Or.inr ⟨heq ▸ hq, heq ▸ hy⟩

end Ccp.Worker.ChangeNames
