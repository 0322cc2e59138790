import Ccp.Worker.AccessDirectory

namespace Ccp.Worker.AccessDirectory

open Lib
open FileOperations (Name)

variable {sip : SIPDirectory} {sipUUID : UUID} {copy : Bool}

theorem SIPDirectory.ne_nil (sip : SIPDirectory) : sip.path ≠ [] := fun h => by
  have := sip.rooted
  rw [h] at this
  cases this

theorem SIPDirectory.join_eq (sip : SIPDirectory) {s : Str} (hs : s.head? ≠ some '/') :
    PosixPath.join sip.path s = sip.path ++ s := by
  rw [PosixPath.join, if_neg hs, if_pos (Or.inr sip.trailing)]

theorem accessDirectory_eq : (sip.args sipUUID copy).accessDirectory = sip.path ++ "objects/access/".toList :=
  sip.join_eq (show "objects/access/".toList.head? ≠ some '/' by decide)

theorem objectsDirectory_eq : (sip.args sipUUID copy).objectsDirectory = sip.path ++ "objects/".toList :=
  sip.join_eq (show "objects/".toList.head? ≠ some '/' by decide)

theorem dipDirectory_eq : (sip.args sipUUID copy).dipDirectory = sip.path ++ "DIP".toList :=
  sip.join_eq (show "DIP".toList.head? ≠ some '/' by decide)

-- A directory under that of the objects.
def directory (dirs : List Name) : Str := (dirs.map Subtype.val).foldl PosixPath.join "objects".toList

theorem isName_of_mem {dirs : List Name} : ∀ name ∈ dirs.map Subtype.val, PosixPath.Name name := by
  intro name hname
  obtain ⟨n, -, rfl⟩ := List.mem_map.mp hname
  exact n.2

theorem isName_objects : PosixPath.Name "objects".toList := FileOperations.objects.2

theorem directory_eq (dirs : List Name) :
    directory dirs = "objects".toList ++ (dirs.map Subtype.val).flatMap ('/' :: ·) :=
  PosixPath.foldl_join isName_objects.isOpen isName_of_mem

theorem open_directory (path : Str) (dirs : List Name) : PosixPath.Open (path ++ directory dirs) := by
  have hopen : PosixPath.Open (directory dirs) :=
    PosixPath.open_foldl_join isName_objects.isOpen isName_of_mem
  refine ⟨fun h => hopen.1 (List.append_eq_nil_iff.mp h).2, ?_⟩
  rw [List.getLast?_append_of_ne_nil _ hopen.1]
  exact hopen.2

theorem objects_text (dirs : List Name) (n : Name) :
    "objects/".toList ++ FileOperations.text (dirs ++ [n]) = directory dirs ++ '/' :: n.1 := by
  have hslash := PosixPath.slash_intercalate (FileOperations.val_ne_nil (show dirs ++ [n] ≠ [] by simp))
  rw [List.map_append, List.flatMap_append, List.map_singleton, List.flatMap_singleton] at hslash
  have hsplit : "objects/".toList ++ FileOperations.text (dirs ++ [n]) =
      "objects".toList ++ '/' :: FileOperations.text (dirs ++ [n]) := rfl
  rw [hsplit, FileOperations.text, List.map_append, List.map_singleton, hslash, directory_eq, List.append_assoc]

theorem objectPath_eq (dirs : List Name) (n : Name) :
    (sip.args sipUUID copy).objectPath
      ((sip.args sipUUID copy).accessDirectory ++ FileOperations.text (dirs ++ [n])) =
      (sip.path ++ directory dirs) ++ '/' :: n.1 := by
  have hne : (sip.args sipUUID copy).accessDirectory ≠ [] := by
    rw [accessDirectory_eq]
    exact fun h => sip.ne_nil (List.append_eq_nil_iff.mp h).1
  rw [Args.objectPath, replaceFirst_append hne, objectsDirectory_eq, List.append_assoc, objects_text,
    List.append_assoc]

theorem text_singleton (n : Name) : FileOperations.text [n] = n.1 := by
  rw [FileOperations.text, List.map_singleton, List.intercalate_singleton]

theorem basename_access (dirs : List Name) (n : Name) :
    PosixPath.basename ((sip.args sipUUID copy).accessDirectory ++ FileOperations.text (dirs ++ [n])) = n.1 := by
  have hsplit : "objects/access/".toList ++ FileOperations.text (dirs ++ [n]) =
      "objects/access".toList ++ '/' :: FileOperations.text (dirs ++ [n]) := rfl
  rw [accessDirectory_eq, List.append_assoc, hsplit, ← List.append_assoc]
  by_cases hdirs : dirs = []
  · rw [hdirs, List.nil_append, text_singleton]
    exact PosixPath.basename_append n.2.2 _
  · rw [FileOperations.text_append hdirs (List.cons_ne_nil n []), text_singleton,
      PosixPath.basename_append_path]
    exact PosixPath.basename_append n.2.2 _

-- The part of a name that an access file has in common with its object.
def stem (n : Name) : Option Str := (rpartition '.' n.1).map fun name => name.1 ++ ['.']

theorem stem_eq_some {n : Name} {name : Str} (h : stem n = some name) :
    ∃ front ext, name = front ++ ['.'] ∧ n.1 = front ++ '.' :: ext ∧ '.' ∉ ext := by
  obtain ⟨⟨front, ext⟩, hsplit, rfl⟩ := Option.map_eq_some_iff.mp h
  obtain ⟨heq, hext⟩ := rpartition_eq_some_iff.mp hsplit
  exact ⟨front, ext, rfl, heq, hext⟩

theorem isName_of_stem {n : Name} {name : Str} (h : stem n = some name) : PosixPath.Name name := by
  obtain ⟨front, ext, rfl, heq, -⟩ := stem_eq_some h
  refine ⟨by simp, fun hmem => n.2.2 ?_⟩
  rw [heq]
  rw [List.mem_append, List.mem_singleton] at hmem
  rcases hmem with hmem | hmem
  · exact List.mem_append_left _ hmem
  · cases hmem

theorem objectNameLike_eq (dirs : List Name) (n : Name) :
    (sip.args sipUUID copy).objectNameLike
      ((sip.args sipUUID copy).accessDirectory ++ FileOperations.text (dirs ++ [n])) =
      (stem n).map fun name => marker ++ directory dirs ++ '/' :: name := by
  rw [Args.objectNameLike, Args.objectName, objectPath_eq, PosixPath.basename_append n.2.2,
    PosixPath.dirname_append (open_directory sip.path dirs) n.2.2]
  cases hstem : stem n with
  | none =>
      rw [stem, Option.map_eq_none_iff] at hstem
      rw [hstem]
      rfl
  | some name =>
      have hname := isName_of_stem hstem
      rw [stem] at hstem
      rw [hstem, Option.map_some, Option.map_some, PosixPath.join_of_open (open_directory sip.path dirs) hname,
        List.append_assoc, List.append_assoc]
      congr 1
      exact replaceFirst_append sip.ne_nil marker _

-- A path in the directory of the SIP, from its first character on.
theorem location_sip (c : Char) (hc : c ≠ '/') (rest : Str) :
    ∃ tail, (sip.args sipUUID copy).location (sip.path ++ c :: rest) = marker ++ c :: tail := by
  have hsip : (sip.args sipUUID copy).location (sip.path ++ c :: rest) =
      replaceAll (sip.path ++ c :: rest) sip.path marker := rfl
  rw [hsip, replaceAll_self_append sip.ne_nil]
  obtain ⟨path, hpath⟩ : ∃ path, sip.path = '/' :: path := by
    obtain ⟨path, hpath⟩ := List.head?_eq_some_iff.mp sip.rooted
    exact ⟨path, hpath⟩
  have hnot : ('/' :: path).isPrefixOf (c :: rest) = false := by
    rw [List.isPrefixOf_cons_cons, beq_eq_false_iff_ne.mpr (Ne.symm hc), Bool.false_and]
  rw [hpath, replaceAll, replaceFrom_cons, hnot, if_neg Bool.false_ne_true]
  exact ⟨_, rfl⟩

theorem isName_dip (uuid : UUID) (p : Str) : PosixPath.Name (uuid.string ++ '-' :: PosixPath.basename p) := by
  refine ⟨by simp, fun hmem => ?_⟩
  rw [List.mem_append, List.mem_cons] at hmem
  rcases hmem with hmem | hmem | hmem
  · exact uuid.slash_notMem_string hmem
  · cases hmem
  · exact PosixPath.slash_notMem_basename p hmem

theorem dipPath_eq (uuid : UUID) (p : Str) :
    (sip.args sipUUID copy).dipPath uuid p =
      sip.path ++ ("DIP/objects/".toList ++ (uuid.string ++ '-' :: PosixPath.basename p)) := by
  have hdip : PosixPath.Open (sip.path ++ "DIP".toList) := by
    refine ⟨fun h => sip.ne_nil (List.append_eq_nil_iff.mp h).1, ?_⟩
    rw [List.getLast?_append_of_ne_nil _ (show "DIP".toList ≠ [] by decide)]
    decide
  have hobjects := PosixPath.open_join hdip isName_objects
  rw [Args.dipPath, dipDirectory_eq, PosixPath.join_of_open hobjects (isName_dip uuid p),
    PosixPath.join_of_open hdip isName_objects, List.append_assoc, List.append_assoc]
  rfl

theorem dipPath_injective {uuid uuid' : UUID} {p p' : Str}
    (h : (sip.args sipUUID copy).dipPath uuid p = (sip.args sipUUID copy).dipPath uuid' p') :
    uuid = uuid' ∧ PosixPath.basename p = PosixPath.basename p' := by
  rw [dipPath_eq, dipPath_eq] at h
  have hname := List.append_cancel_left (List.append_cancel_left h)
  obtain ⟨hstring, hrest⟩ := List.append_inj hname (by rw [UUID.length_string, UUID.length_string])
  exact ⟨UUID.string_injective hstring, (List.cons.inj hrest).2⟩

-- A place in the DIP is not one of an access file, and its location is not one either.
theorem dipPath_ne (uuid : UUID) (p : Str) (rel : List Name) :
    (sip.args sipUUID copy).dipPath uuid p ≠
      (sip.args sipUUID copy).accessDirectory ++ FileOperations.text rel := by
  intro h
  rw [dipPath_eq, accessDirectory_eq, List.append_assoc] at h
  exact absurd (List.cons.inj (List.append_cancel_left h)).1 (by decide)

theorem location_dip (uuid : UUID) (p : Str) :
    ∃ tail, (sip.args sipUUID copy).location ((sip.args sipUUID copy).dipPath uuid p) = marker ++ 'D' :: tail := by
  rw [dipPath_eq]
  exact location_sip 'D' (by decide) _

theorem location_dip_ne (uuid : UUID) (p : Str) (rel : List Name) :
    (sip.args sipUUID copy).location ((sip.args sipUUID copy).dipPath uuid p) ≠
      (sip.args sipUUID copy).location
        ((sip.args sipUUID copy).accessDirectory ++ FileOperations.text rel) := by
  intro h
  obtain ⟨tail, htail⟩ := @location_dip sip sipUUID copy uuid p
  obtain ⟨tail', htail'⟩ := @location_sip sip sipUUID copy 'o' (by decide)
    ("bjects/access/".toList ++ FileOperations.text rel)
  rw [accessDirectory_eq, List.append_assoc] at h
  exact absurd (List.cons.inj (List.append_cancel_left (htail.symm.trans (h.trans htail')))).1 (by decide)

-- A row in the DIP goes with no access file.
theorem goesWith_dip {like : Str} {dirs : List Name} {n : Name} {f : File} {uuid : UUID} {p : Str}
    (hlike : (sip.args sipUUID copy).objectNameLike
      ((sip.args sipUUID copy).accessDirectory ++ FileOperations.text (dirs ++ [n])) = some like)
    (hf : f.currentlocation = some ((sip.args sipUUID copy).location ((sip.args sipUUID copy).dipPath uuid p))) :
    goesWith like f = false := by
  rw [objectNameLike_eq] at hlike
  obtain ⟨name, -, rfl⟩ := Option.map_eq_some_iff.mp hlike
  obtain ⟨tail, htail⟩ := @location_dip sip sipUUID copy uuid p
  have hnot : ¬ marker ++ directory dirs ++ '/' :: name <+: marker ++ 'D' :: tail := by
    rw [directory_eq, List.append_assoc, List.append_assoc, List.prefix_append_right_inj]
    intro h
    exact absurd (List.cons_prefix_cons.mp h).1 (by decide)
  rw [goesWith, hf, htail, Option.any_some, Bool.eq_false_iff.mpr (mt List.isPrefixOf_iff_prefix.mp hnot),
    Bool.false_and]

theorem goesWith_iff {like : Str} (hne : like ≠ []) {f : File} :
    goesWith like f = true ↔ ∃ rest, f.currentlocation = some (like ++ rest) ∧ '.' ∉ rest := by
  rw [goesWith, Bool.and_eq_true, Option.any_eq_true]
  constructor
  · rintro ⟨⟨location, hlocation, hpre⟩, hdotted⟩
    obtain ⟨rest, rfl⟩ := List.isPrefixOf_iff_prefix.mp hpre
    refine ⟨rest, hlocation, ?_⟩
    rw [dotted, hlocation, Option.any_some, replaceFirst_append hne, List.nil_append] at hdotted
    simpa using hdotted
  · rintro ⟨rest, hlocation, hrest⟩
    refine ⟨⟨_, hlocation, List.isPrefixOf_iff_prefix.mpr (List.prefix_append like rest)⟩, ?_⟩
    rw [dotted, hlocation, Option.any_some, replaceFirst_append hne, List.nil_append]
    simpa using hrest

-- Two access files of one name do not go with the same row.
theorem eq_of_goesWith {dirs dirs' : List Name} {n : Name} {like like' : Str} {f : File}
    (hlike : (sip.args sipUUID copy).objectNameLike
      ((sip.args sipUUID copy).accessDirectory ++ FileOperations.text (dirs ++ [n])) = some like)
    (hlike' : (sip.args sipUUID copy).objectNameLike
      ((sip.args sipUUID copy).accessDirectory ++ FileOperations.text (dirs' ++ [n])) = some like')
    (h : goesWith like f = true) (h' : goesWith like' f = true) : dirs = dirs' := by
  rw [objectNameLike_eq] at hlike hlike'
  obtain ⟨name, hname, rfl⟩ := Option.map_eq_some_iff.mp hlike
  obtain ⟨name', hname', rfl⟩ := Option.map_eq_some_iff.mp hlike'
  obtain rfl := Option.some.inj (hname.symm.trans hname')
  obtain ⟨front, ext, rfl, -, -⟩ := stem_eq_some hname
  obtain ⟨rest, hlocation, hrest⟩ := (goesWith_iff (by simp)).mp h
  obtain ⟨rest', hlocation', hrest'⟩ := (goesWith_iff (by simp)).mp h'
  -- the last dot of the location is that of the name
  have hsplit := congrArg (rpartition '.') (Option.some.inj (hlocation.symm.trans hlocation'))
  have hdot (d : List Name) (r : Str) : marker ++ directory d ++ '/' :: (front ++ ['.']) ++ r =
      (marker ++ directory d ++ '/' :: front) ++ '.' :: r := by simp
  rw [hdot, hdot, rpartition_append hrest, rpartition_append hrest'] at hsplit
  have hfront := (Prod.mk.inj (Option.some.inj hsplit)).1
  have hdirectory := List.append_cancel_left (List.append_cancel_right hfront)
  have htext : "objects/".toList ++ FileOperations.text (dirs ++ [n]) =
      "objects/".toList ++ FileOperations.text (dirs' ++ [n]) := by
    rw [objects_text, objects_text, hdirectory]
  exact List.append_cancel_right (FileOperations.text_injective (List.append_cancel_left htext))

end Ccp.Worker.AccessDirectory
