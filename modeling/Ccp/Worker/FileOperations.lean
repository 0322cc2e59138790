import Ccp.Lib.Disk.Move
import Ccp.Lib.FilePath
import Ccp.Lib.Text
import Ccp.Uuid

namespace Ccp.Worker.FileOperations

open Lib

-- The name of an entry of a directory.
abbrev Name := { s : Str // s ≠ [] ∧ '/' ∉ s }

-- The directories that every unit has.

def logs : Name := ⟨"logs".toList, by decide⟩

def fileMeta : Name := ⟨"fileMeta".toList, by decide⟩

def metadata : Name := ⟨"metadata".toList, by decide⟩

def submissionDocumentation : Name := ⟨"submissionDocumentation".toList, by decide⟩

def objects : Name := ⟨"objects".toList, by decide⟩

-- A path under the directory of a unit.
def text (p : List Name) : Str := ['/'].intercalate (p.map Subtype.val)

theorem val_ne_nil {p : List Name} (hp : p ≠ []) : p.map Subtype.val ≠ [] := fun h =>
  hp (List.map_eq_nil_iff.mp h)

theorem text_append {p q : List Name} (hp : p ≠ []) (hq : q ≠ []) :
    text (p ++ q) = text p ++ '/' :: text q := by
  rw [text, List.map_append, FilePath.intercalate_append (val_ne_nil hp) (val_ne_nil hq)]
  rfl

theorem splitOn_text {p : List Name} (hp : p ≠ []) : (text p).splitOn '/' = p.map Subtype.val := by
  refine List.splitOn_intercalate '/' ?_ (val_ne_nil hp)
  intro s hs
  obtain ⟨n, -, rfl⟩ := List.mem_map.mp hs
  exact n.2.2

theorem text_ne_nil {p : List Name} (hp : p ≠ []) : text p ≠ [] := by
  refine FilePath.intercalate_ne_nil (val_ne_nil hp) ?_
  intro s hs
  obtain ⟨n, -, rfl⟩ := List.mem_map.mp hs
  exact n.2.1

theorem text_injective {p q : List Name} (h : text p = text q) : p = q := by
  by_cases hp : p = []
  · by_contra hne
    have hq : q ≠ [] := fun hq => hne (hp.trans hq.symm)
    exact text_ne_nil hq (by rw [← h, hp]; rfl)
  · have hq : q ≠ [] := by
      rintro rfl
      exact text_ne_nil hp h
    have hsplit := congrArg (List.splitOn '/') h
    rw [splitOn_text hp, splitOn_text hq] at hsplit
    exact List.map_injective_iff.mpr Subtype.val_injective hsplit

-- A text begins with that of a path and a separator for the paths under it only.
theorem text_prefix_iff {p q : List Name} (hq : q ≠ []) :
    text q ++ ['/'] <+: text p ↔ ∃ r, r ≠ [] ∧ p = q ++ r := by
  constructor
  · rintro ⟨z, hz⟩
    have hp : p ≠ [] := by
      rintro rfl
      have hlen := congrArg List.length hz
      simp [text] at hlen
    rw [List.append_assoc, List.singleton_append] at hz
    have hsplit := congrArg (List.splitOn '/') hz
    rw [List.splitOn_append_cons_self, splitOn_text hq, splitOn_text hp] at hsplit
    obtain ⟨q', r, rfl, hq', hr⟩ := List.map_eq_append_iff.mp hsplit.symm
    obtain rfl : q' = q := List.map_injective_iff.mpr Subtype.val_injective hq'
    refine ⟨r, ?_, rfl⟩
    rintro rfl
    exact List.splitOn_ne_nil '/' z hr.symm
  · rintro ⟨r, hr, rfl⟩
    rw [text_append hq hr]
    exact ⟨text r, by simp⟩

structure File where
  uuid : UUID
  transfer : Option UUID
  sip : Option UUID
  removed : Bool
  currentlocation : Str
deriving DecidableEq

inductive UnitIdentifierType
  | transferId
  | sipId
deriving DecidableEq

-- What the callers say of the unit. Paths are taken from its own directory on, for
-- which the rows have another text.
structure UnitRef where
  identifier : UUID
  identifierType : UnitIdentifierType
  pathReplaceWith : Str
deriving DecidableEq

namespace UnitRef

variable (u : UnitRef)

def owns (f : File) : Bool :=
  !f.removed &&
    match u.identifierType with
    | .transferId => f.transfer = some u.identifier
    | .sipId => f.sip = some u.identifier

def location (p : List Name) : Str := u.pathReplaceWith ++ text p

end UnitRef

structure State (α : Type*) where
  disk : Disk Name α
  files : List File

variable {α : Type*}

-- The row of a file under a directory that is to be moved.
def relocate (u : UnitRef) (src dst : List Name) (f : File) : File :=
  let srcDB := u.location src ++ ['/']
  let dstDB := u.location dst ++ ['/']
  if u.owns f && srcDB.isPrefixOf f.currentlocation then
    { f with currentlocation := replaceAll f.currentlocation srcDB dstDB }
  else f

-- With a directory as the destination the source keeps its own name in there, and a
-- directory cannot go into itself.
def updateDirectoryLocation (u : UnitRef) (src dst : List Name) (s : State α) : Option (State α) :=
  let files := s.files.map (relocate u src dst)
  if src = dst ∧ s.disk.isdir dst then none
  else (s.disk.move src dst).map fun disk => { disk, files }

-- The one row of the source is saved with the destination.
def updateFileLocation2 (u : UnitRef) (src dst : List Name) (s : State α) : Option (State α) :=
  let get := fun f : File => u.owns f && f.currentlocation = u.location src
  match s.files.filter get with
  | [_] =>
      (s.disk.move src dst).map fun disk =>
        { disk
          files := s.files.map fun f =>
            if get f then { f with currentlocation := u.location dst } else f }
  | _ => none

-- The location of a row leads to a file with the content.
def Holds (u : UnitRef) (d : Disk Name α) (f : File) (c : α) : Prop :=
  ∃ p, f.currentlocation = u.location p ∧ d.node p = some (.file c)

-- The same row, whose location leads to what it led to before.
structure FollowsRow (u : UnitRef) (d d' : Disk Name α) (f f' : File) : Prop where
  uuid : f'.uuid = f.uuid
  owns : u.owns f' = u.owns f
  holds : u.owns f = true → ∀ c, Holds u d f c → Holds u d' f' c

def Follows (u : UnitRef) (s s' : State α) : Prop :=
  List.Forall₂ (FollowsRow u s.disk s'.disk) s.files s'.files

theorem Follows.refl (u : UnitRef) (s : State α) : Follows u s s :=
  List.forall₂_same.mpr fun _ _ => ⟨rfl, rfl, fun _ _ h => h⟩

theorem FollowsRow.trans {u : UnitRef} {a b c : Disk Name α} {f g h : File}
    (hfg : FollowsRow u a b f g) (hgh : FollowsRow u b c g h) : FollowsRow u a c f h where
  uuid := hgh.uuid.trans hfg.uuid
  owns := hgh.owns.trans hfg.owns
  holds hf x hx := hgh.holds (hfg.owns.trans hf) x (hfg.holds hf x hx)

theorem Follows.trans {u : UnitRef} {a b c : State α} (hab : Follows u a b) (hbc : Follows u b c) :
    Follows u a c := by
  obtain ⟨da, fa⟩ := a
  obtain ⟨db, fb⟩ := b
  obtain ⟨dc, fc⟩ := c
  simp only [Follows] at hab hbc ⊢
  induction hab generalizing fc with
  | nil =>
      cases hbc
      exact .nil
  | cons hfg _ ih =>
      cases hbc with
      | cons hgh hrest => exact .cons (hfg.trans hgh) (ih _ hrest)

-- Rows that are changed one by one.
theorem follows_map {u : UnitRef} {s : State α} {d' : Disk Name α} {g : File → File}
    (h : ∀ f ∈ s.files, FollowsRow u s.disk d' f (g f)) :
    Follows u s ⟨d', s.files.map g⟩ := by
  unfold Follows
  rw [List.forall₂_map_right_iff]
  exact List.forall₂_same.mpr h

-- Rows that are left alone, where nothing that they lead to is touched.
theorem follows_of_kept {u : UnitRef} {s s' : State α} (hfiles : s'.files = s.files)
    (hkept : ∀ q c, s.disk.node q = some (.file c) → s'.disk.node q = some (.file c)) :
    Follows u s s' := by
  obtain ⟨disk, files⟩ := s'
  obtain rfl : files = s.files.map id := by simpa using hfiles
  refine follows_map fun f _ => ⟨rfl, rfl, ?_⟩
  rintro - c ⟨p, hf, hc⟩
  exact ⟨p, hf, hkept p c hc⟩

theorem UnitRef.location_injective {u : UnitRef} {p q : List Name} (h : u.location p = u.location q) :
    p = q :=
  text_injective (List.append_cancel_left h)

theorem UnitRef.location_prefix_iff {u : UnitRef} {p q : List Name} (hq : q ≠ []) :
    (u.location q ++ ['/']).isPrefixOf (u.location p) = true ↔ ∃ r, r ≠ [] ∧ p = q ++ r := by
  rw [List.isPrefixOf_iff_prefix, UnitRef.location, UnitRef.location, List.append_assoc,
    List.prefix_append_right_inj, text_prefix_iff hq]

theorem UnitRef.location_append {u : UnitRef} {p q : List Name} (hp : p ≠ []) (hq : q ≠ []) :
    u.location (p ++ q) = u.location p ++ ['/'] ++ text q := by
  simp [UnitRef.location, text_append hp hq]

-- No file under the directory has the text of the directory in its path once more.
def Plain (u : UnitRef) (d : Disk Name α) (src : List Name) : Prop :=
  ∀ r c, d.node (src ++ r) = some (.file c) → ¬ u.location src ++ ['/'] <:+: text r

def NoFile (d : Disk Name α) (src : List Name) : Prop := ∀ r c, d.node (src ++ r) ≠ some (.file c)

theorem Plain.congr {u : UnitRef} {d d' : Disk Name α} {src : List Name} (h : Plain u d src)
    (heq : ∀ r, d'.node (src ++ r) = d.node (src ++ r)) : Plain u d' src := by
  intro r c hc
  rw [heq] at hc
  exact h r c hc

theorem NoFile.congr {d d' : Disk Name α} {src : List Name} (h : NoFile d src)
    (heq : ∀ r, d'.node (src ++ r) = d.node (src ++ r)) : NoFile d' src := by
  intro r c hc
  rw [heq] at hc
  exact h r c hc

-- The destination is free, or the name of the source is free in it.
theorem updateDirectoryLocation_eq_some {u : UnitRef} {src dst : List Name} {s s' : State α}
    (hsrc : src ≠ []) (hdir : s.disk.isdir src = true)
    (hparent : s.disk.node dst.dropLast = some .dir)
    (h : updateDirectoryLocation u src dst s = some s') :
    s'.files = s.files.map (relocate u src dst) ∧
      ∃ real, (s.disk.isdir dst = false ∧ real = dst ∨
          s.disk.isdir dst = true ∧ real = dst ++ src.getLast?.toList) ∧
        s.disk.node real = none ∧ Disk.Moved s.disk s'.disk src real := by
  unfold updateDirectoryLocation at h
  split_ifs at h with hself
  obtain ⟨disk, hmove, rfl⟩ := Option.map_eq_some_iff.mp h
  have hne : src ≠ dst := fun heq => hself ⟨heq, heq ▸ hdir⟩
  refine ⟨rfl, ?_⟩
  rcases Disk.move_eq_some hne hsrc (Or.inr hparent) hmove with ⟨hdst, hmoved⟩ | ⟨hdst, hnone, hmoved⟩
  · refine ⟨dst, Or.inl ⟨hdst, rfl⟩, ?_, hmoved⟩
    cases hx : s.disk.node dst with
    | none => rfl
    | some x =>
        -- a directory does not take the place of a file
        rw [(hmoved.same x hx).mpr (Disk.isdir_iff.mp hdir), ← Disk.isdir_iff] at hx
        rw [hx] at hdst
        cases hdst
  · exact ⟨_, Or.inr ⟨hdst, rfl⟩, hnone, hmoved⟩

theorem relocate_location {u : UnitRef} {src dst p : List Name} {f : File} (hsrc : src ≠ [])
    (hf : f.currentlocation = u.location p) (hp : ¬ src <+: p) : relocate u src dst f = f := by
  rw [relocate, hf, if_neg]
  rw [Bool.and_eq_true, UnitRef.location_prefix_iff hsrc]
  rintro ⟨-, r, -, rfl⟩
  exact hp (List.prefix_append src r)

theorem relocate_location_append {u : UnitRef} {src dst r : List Name} {f : File} (hsrc : src ≠ [])
    (hdst : dst ≠ []) (hr : r ≠ []) (howns : u.owns f = true)
    (hf : f.currentlocation = u.location (src ++ r))
    (hplain : ¬ u.location src ++ ['/'] <:+: text r) :
    (relocate u src dst f).currentlocation = u.location (dst ++ r) := by
  have hpre : (u.location src ++ ['/']).isPrefixOf (u.location (src ++ r)) = true :=
    (UnitRef.location_prefix_iff hsrc).mpr ⟨r, hr, rfl⟩
  rw [relocate, hf, howns, hpre, Bool.and_self, if_pos rfl, UnitRef.location_append hsrc hr,
    UnitRef.location_append hdst hr]
  exact replaceAll_append (by simp) hplain _

theorem relocate_uuid (u : UnitRef) (src dst : List Name) (f : File) :
    (relocate u src dst f).uuid = f.uuid := by
  simp only [relocate]
  split_ifs <;> rfl

theorem relocate_owns (u : UnitRef) (src dst : List Name) (f : File) :
    u.owns (relocate u src dst f) = u.owns f := by
  simp only [relocate]
  split_ifs <;> rfl

-- The rows of what is under a directory go where the directory goes, unless the
-- destination was there.
theorem updateDirectoryLocation_follows {u : UnitRef} {src dst : List Name} {s s' : State α}
    (hsrc : src ≠ []) (hdst : dst ≠ []) (hdir : s.disk.isdir src = true)
    (hparent : s.disk.node dst.dropLast = some .dir)
    (hfree : s.disk.isdir dst = false ∨ NoFile s.disk src) (hplain : Plain u s.disk src)
    (h : updateDirectoryLocation u src dst s = some s') : Follows u s s' := by
  obtain ⟨hfiles, real, hreal, hnone, hmoved⟩ :=
    updateDirectoryLocation_eq_some hsrc hdir hparent h
  obtain ⟨disk, files⟩ := s'
  simp only at hfiles hmoved
  subst hfiles
  refine follows_map fun f _ => ⟨relocate_uuid u src dst f, relocate_owns u src dst f, ?_⟩
  rintro howns c ⟨p, hf, hc⟩
  by_cases hp : src <+: p
  · obtain ⟨r, rfl⟩ := hp
    have hr : r ≠ [] := by
      rintro rfl
      rw [List.append_nil, Disk.isdir_iff.mp hdir] at hc
      cases hc
    refine ⟨dst ++ r, relocate_location_append hsrc hdst hr howns hf (hplain r c hc), ?_⟩
    rcases hreal with ⟨-, rfl⟩ | ⟨hisdir, -⟩
    · rw [hmoved.node_dst, hc]
    · rcases hfree with hnot | hnofile
      · rw [hisdir] at hnot
        cases hnot
      · exact absurd hc (hnofile r c)
  · refine ⟨p, ?_, ?_⟩
    · rw [relocate_location hsrc hf hp, hf]
    · rw [hmoved.node_stays hp hnone (by simp [hc]), hc]

-- A file goes alone, to a place that is free.
theorem updateFileLocation2_eq_some {u : UnitRef} {src dst : List Name} {s s' : State α}
    (hsrc : s.disk.isfile src = true) (hparent : s.disk.node dst.dropLast = some .dir)
    (hfree : s.disk.node dst = none) (h : updateFileLocation2 u src dst s = some s') :
    Disk.Moved s.disk s'.disk src dst ∧ Follows u s s' := by
  obtain ⟨x, hx⟩ := Disk.isfile_iff.mp hsrc
  have hsrcne : src ≠ [] := by
    rintro rfl
    cases hx
  have hne : src ≠ dst := by
    rintro rfl
    rw [hx] at hfree
    cases hfree
  have hnotdir : s.disk.isdir dst = false := by simp [Disk.isdir, hfree]
  unfold updateFileLocation2 at h
  dsimp only at h
  split at h
  case h_2 => cases h
  obtain ⟨disk, hmove, rfl⟩ := Option.map_eq_some_iff.mp h
  have hmoved : Disk.Moved s.disk disk src dst := by
    rcases Disk.move_eq_some hne hsrcne (Or.inr hparent) hmove with ⟨-, hmoved⟩ | ⟨hdst, -⟩
    · exact hmoved
    · rw [hnotdir] at hdst
      cases hdst
  refine ⟨hmoved, follows_map fun f _ => ?_⟩
  by_cases hget : (u.owns f && f.currentlocation = u.location src) = true
  · rw [if_pos hget]
    rw [Bool.and_eq_true, decide_eq_true_eq] at hget
    refine ⟨rfl, rfl, ?_⟩
    rintro - c ⟨p, hf, hc⟩
    obtain rfl : p = src := UnitRef.location_injective (hf.symm.trans hget.2)
    refine ⟨dst, rfl, ?_⟩
    have hdst := hmoved.node_dst []
    rw [List.append_nil, List.append_nil] at hdst
    rw [hdst, hc]
  · rw [if_neg hget]
    refine ⟨rfl, rfl, ?_⟩
    rintro howns c ⟨p, hf, hc⟩
    have hp : ¬ src <+: p := by
      rintro ⟨r, rfl⟩
      obtain rfl : r = [] := Disk.eq_nil_of_file hx (by simp [hc])
      rw [List.append_nil] at hf
      simp [howns, hf] at hget
    exact ⟨p, hf, by rw [hmoved.node_stays hp hfree (by simp [hc]), hc]⟩

end Ccp.Worker.FileOperations
