import Ccp.Worker.Mets.Kept
import Ccp.Worker.Mets.Normative

namespace Ccp.Worker.Mets

open Lib PosixPath

-- A path that an entry of a directory has, or one in that entry.
def In (path q : Str) : Prop := q = path ∨ Below path q

theorem In.of_below {path name q : Str} (hp : Open path) (hname : Name name) (h : In (join path name) q) :
    Below path q := by
  rw [join_of_open hp hname] at h
  rcases h with rfl | h
  · exact ⟨name, rfl⟩
  · exact below_trans h

-- Entries of two names have nothing in common.
theorem In.name_eq {path name name' q : Str} (hp : Open path) (hname : Name name) (hname' : Name name')
    (h : In (join path name) q) (h' : In (join path name') q) : name = name' := by
  rw [join_of_open hp hname] at h
  rw [join_of_open hp hname'] at h'
  have hfirst : ∀ {n : Str}, Name n → In (path ++ '/' :: n) q →
      ∃ s, q = path ++ '/' :: s ∧ s.takeWhile (· ≠ '/') = n := by
    intro n hn hin
    have hall : ∀ c ∈ n, decide (c ≠ '/') = true := fun c hc => by
      simpa using fun hslash : c = '/' => hn.2 (hslash ▸ hc)
    rcases hin with rfl | ⟨rest, rfl⟩
    · exact ⟨n, rfl, List.takeWhile_eq_self_iff.mpr hall⟩
    · refine ⟨n ++ '/' :: rest, by simp, ?_⟩
      rw [List.takeWhile_append_of_pos hall]
      simp
  obtain ⟨s, rfl, hs⟩ := hfirst hname h
  obtain ⟨s', hsame, hs'⟩ := hfirst hname' h'
  have heq : '/' :: s = '/' :: s' := List.append_cancel_left hsame
  rw [← hs, ← hs', (List.cons.inj heq).2]

namespace Listing

-- The paths of the files in a directory and below it.
def filePaths (directoryPath : Str) (listing : Listing) : List Str :=
  listing.filesBelow (fun p => [p]) directoryPath ++ listing.filesHere (fun p => [p]) directoryPath

theorem filesHere_eq (names : Str → List Str) (directoryPath : Str) (listing : Listing) :
    listing.filesHere names directoryPath =
      (listing.filesHere (fun p => [p]) directoryPath).flatMap names := by
  induction listing with
  | nil => rfl
  | other name rest ih => exact ih
  | file name rest ih => rw [filesHere, filesHere, ih, List.flatMap_append, List.flatMap_singleton]
  | dir name sub rest _ ih => exact ih

theorem filesBelow_eq (names : Str → List Str) (directoryPath : Str) (listing : Listing) :
    listing.filesBelow names directoryPath =
      (listing.filesBelow (fun p => [p]) directoryPath).flatMap names := by
  induction listing generalizing directoryPath with
  | nil => rfl
  | other name rest ih => exact ih directoryPath
  | file name rest ih => exact ih directoryPath
  | dir name sub rest ihsub ihrest =>
      rw [filesBelow, filesBelow, ihsub, ihrest, filesHere_eq, List.flatMap_append, List.flatMap_append]

theorem filePaths_dir (name : Str) (sub rest : Listing) (directoryPath : Str) :
    (dir name sub rest).filePaths directoryPath =
      sub.filePaths (join directoryPath name) ++ rest.filePaths directoryPath := by
  rw [filePaths, filesBelow, filesHere, filePaths, filePaths, List.append_assoc]

theorem filePaths_file (name : Str) (rest : Listing) (directoryPath : Str) :
    ((file name rest).filePaths directoryPath).Perm
      (join directoryPath name :: rest.filePaths directoryPath) := by
  rw [filePaths, filesBelow, filesHere, filePaths, List.singleton_append]
  exact List.perm_middle

theorem in_of_mem_filePaths {listing : Listing} {directoryPath q : Str} (hp : Open directoryPath)
    (hnamed : listing.Named) (h : q ∈ listing.filePaths directoryPath) :
    ∃ name ∈ listing.names, Name name ∧ In (join directoryPath name) q := by
  induction listing generalizing directoryPath with
  | nil => cases h
  | other name rest ih =>
      obtain ⟨n, hn, hname⟩ := ih hp hnamed.2.2 h
      exact ⟨n, List.mem_cons_of_mem _ hn, hname⟩
  | file name rest ih =>
      rcases List.mem_cons.mp ((filePaths_file name rest directoryPath).mem_iff.mp h) with rfl | h
      · exact ⟨name, List.mem_cons_self, hnamed.1, Or.inl rfl⟩
      · obtain ⟨n, hn, hname⟩ := ih hp hnamed.2.2 h
        exact ⟨n, List.mem_cons_of_mem _ hn, hname⟩
  | dir name sub rest ihsub ihrest =>
      obtain ⟨hname, -, hsub, hrest⟩ := hnamed
      rw [filePaths_dir, List.mem_append] at h
      rcases h with h | h
      · obtain ⟨n, -, hn, hin⟩ := ihsub (open_join hp hname) hsub h
        exact ⟨name, List.mem_cons_self, hname, Or.inr (hin.of_below (open_join hp hname) hn)⟩
      · obtain ⟨n, hn, hin⟩ := ihrest hp hrest h
        exact ⟨n, List.mem_cons_of_mem _ hn, hin⟩

theorem nodup_filePaths {listing : Listing} {directoryPath : Str} (hp : Open directoryPath)
    (hnamed : listing.Named) : (listing.filePaths directoryPath).Nodup := by
  -- what is in one entry is in none of those after it
  have hapart : ∀ {name : Str} {rest : Listing} {path q : Str}, Open path → Name name → name ∉ rest.names →
      rest.Named → In (join path name) q → q ∉ rest.filePaths path := by
    intro name rest path q hp hname hnew hrest hin hq
    obtain ⟨n, hn, hname', hin'⟩ := in_of_mem_filePaths hp hrest hq
    exact hnew (In.name_eq hp hname hname' hin hin' ▸ hn)
  induction listing generalizing directoryPath with
  | nil => exact List.nodup_nil
  | other name rest ih => exact ih hp hnamed.2.2
  | file name rest ih =>
      obtain ⟨hname, hnew, hrest⟩ := hnamed
      rw [(filePaths_file name rest directoryPath).nodup_iff, List.nodup_cons]
      exact ⟨hapart hp hname hnew hrest (Or.inl rfl), ih hp hrest⟩
  | dir name sub rest ihsub ihrest =>
      obtain ⟨hname, hnew, hsub, hrest⟩ := hnamed
      have hopen := open_join hp hname
      rw [filePaths_dir]
      refine (ihsub hopen hsub).append (ihrest hp hrest) fun q hq => ?_
      obtain ⟨n, -, hn, hin⟩ := in_of_mem_filePaths hopen hsub hq
      exact hapart hp hname hnew hrest (Or.inr (hin.of_below hopen hn))

end Listing

namespace Sip

variable {sip : Sip}

theorem base_last (sip : Sip) : sip.base = [] ∨ sip.base.getLast? = some '/' := by
  rw [base, join, if_neg (by simp)]
  split_ifs with h
  · rw [List.append_nil]
    exact h
  · exact Or.inr (by simp)

-- The paths of the two directories.
theorem join_base {name : Str} (hname : Name name) : join sip.base name = sip.base ++ name := by
  rw [join, if_neg hname.head?_ne, if_pos sip.base_last]

theorem open_join_base {name : Str} (hname : Name name) : Open (join sip.base name) := by
  rw [join_base hname]
  refine ⟨List.append_ne_nil_of_right_ne_nil _ hname.1, ?_⟩
  rw [List.getLast?_append_of_ne_nil _ hname.1]
  exact hname.isOpen.2

theorem exists_base {name q : Str} (hname : Name name) (h : In (join sip.base name) q) :
    ∃ s, q = sip.base ++ s ∧ s.head? = name.head? := by
  rw [join_base hname] at h
  rcases h with rfl | ⟨rest, rfl⟩
  · exact ⟨name, rfl, rfl⟩
  · exact ⟨name ++ '/' :: rest, by simp, List.head?_append_of_ne_nil _ hname.1⟩

-- The files of one of the two directories.
def dirPaths (path : Str) (listing : Option Listing) : List Str :=
  listing.elim [] fun listing => listing.filePaths path

def dirFiles (sip : Sip) (path : Str) (listing : Option Listing) : List Str :=
  listing.elim [] fun listing => sip.filesOf path listing

theorem dirFiles_eq (path : Str) (listing : Option Listing) :
    sip.dirFiles path listing = (dirPaths path listing).flatMap sip.fileNames := by
  cases listing with
  | none => rfl
  | some listing =>
      rw [dirFiles, Option.elim_some, filesOf, dirPaths, Option.elim_some, Listing.filePaths,
        List.flatMap_append, ← Listing.filesBelow_eq, ← Listing.filesHere_eq]

theorem mem_of_row {path : Str} {f : File} (h : sip.row path = some f) :
    f ∈ sip.files ∧ f.currentlocation = replaceFirst sip.base sipDirVar path := by
  rw [row] at h
  have hmem : f ∈ sip.rows path := by
    rcases hrows : sip.rows path with _ | ⟨g, _ | ⟨g', rest⟩⟩ <;> rw [hrows] at h
    · cases h
    · obtain rfl := Option.some.inj h
      exact List.mem_singleton_self _
    · cases h
  simpa [rows] using hmem

-- Files at different paths are different files, by their rows.
theorem nodup_fileNames {paths : List Str} (hbase : ∀ q ∈ paths, ∃ s, q = sip.base ++ s)
    (hnodup : paths.Nodup) : (paths.flatMap sip.fileNames).Nodup := by
  rw [List.nodup_flatMap]
  refine ⟨fun q _ => ?_, hnodup.imp_of_mem fun {q q'} hq hq' hne i hi hi' => hne ?_⟩
  · rw [fileNames]
    cases sip.row q with
    | none => exact List.nodup_nil
    | some f => exact List.nodup_singleton _
  · rw [fileNames, List.mem_map] at hi hi'
    obtain ⟨f, hf, rfl⟩ := hi
    obtain ⟨f', hf', hsame⟩ := hi'
    obtain ⟨hmem, hlocation⟩ := mem_of_row (Option.mem_toList.mp hf)
    obtain ⟨hmem', hlocation'⟩ := mem_of_row (Option.mem_toList.mp hf')
    obtain rfl := List.inj_on_of_nodup_map sip.files_nodup hmem' hmem (fileID_inj hsame)
    obtain ⟨s, rfl⟩ := hbase q hq
    obtain ⟨s', rfl⟩ := hbase q' hq'
    rw [replaceFirst_self_append] at hlocation hlocation'
    rw [List.append_cancel_left (hlocation.symm.trans hlocation')]

theorem nodup_files (sip : Sip) :
    (sip.dirFiles (join sip.base "objects".toList) sip.objects ++
      sip.dirFiles (join sip.base "metadata".toList) sip.metadata).Nodup := by
  have hobjects : Name "objects".toList := ⟨by decide, by decide⟩
  have hmetadata : Name "metadata".toList := ⟨by decide, by decide⟩
  have hbelow : ∀ {name q : Str} {listing : Option Listing}, Name name → (∀ l ∈ listing, l.Named) →
      q ∈ dirPaths (join sip.base name) listing → ∃ s, q = sip.base ++ s ∧ s.head? = name.head? := by
    intro name q listing hname hnamed hq
    cases listing with
    | none => cases hq
    | some listing =>
        obtain ⟨n, -, hn, hin⟩ := Listing.in_of_mem_filePaths (open_join_base hname) (hnamed _ rfl) hq
        exact exists_base hname (Or.inr (hin.of_below (open_join_base hname) hn))
  have hnodup : ∀ {name : Str} {listing : Option Listing}, Name name → (∀ l ∈ listing, l.Named) →
      (dirPaths (join sip.base name) listing).Nodup := by
    intro name listing hname hnamed
    cases listing with
    | none => exact List.nodup_nil
    | some listing => exact Listing.nodup_filePaths (open_join_base hname) (hnamed _ rfl)
  rw [dirFiles_eq, dirFiles_eq, ← List.flatMap_append]
  refine nodup_fileNames (fun q hq => ?_) ((hnodup hobjects sip.objects_named).append
    (hnodup hmetadata sip.metadata_named) fun q hq hq' => ?_)
  · rcases List.mem_append.mp hq with hq | hq
    · obtain ⟨s, hs, -⟩ := hbelow hobjects sip.objects_named hq
      exact ⟨s, hs⟩
    · obtain ⟨s, hs, -⟩ := hbelow hmetadata sip.metadata_named hq
      exact ⟨s, hs⟩
  · obtain ⟨s, rfl, hs⟩ := hbelow hobjects sip.objects_named hq
    obtain ⟨s', hsame, hs'⟩ := hbelow hmetadata sip.metadata_named hq'
    rw [List.append_cancel_left hsame, hs'] at hs
    exact absurd hs (by decide)

end Sip

end Ccp.Worker.Mets
