import Ccp.Lib.Disk.Move
import Ccp.Lib.Text
import Ccp.Uuid

namespace Ccp

open Lib

namespace Move

-- What is no directory: a regular file, or a symbolic link with what it names.
inductive Leaf
  | regular (content : Str)
  | link (target : Str)
deriving DecidableEq

-- A path has its links followed, up to its last name.
abbrev Path := List Str

-- What os.Stat says: there, not there, or another error.
inductive Lookup
  | found
  | notExist
  | failed
deriving DecidableEq

-- The destination: its text, its directory and name, and what makes os.Stat fail there.
structure Place where
  dst : Str
  dir : Path
  name : Str
  searchable : Bool
  nameMax : ℕ

-- What goes on around one turn of the loop.
structure Turn where
  -- what other processes make before the check, and between it and the rename
  before : List (Path × Node Leaf)
  between : List (Path × Node Leaf)
  -- where a link at the candidate leads
  leads : Lookup
  -- the error of the rename, and whether it is refused for another reason than the paths
  errno : String
  refused : Bool

def suffix (attempt : ℕ) : Str := if attempt = 0 then [] else '-' :: Nat.toDigits 10 attempt

def newPath (pl : Place) (attempt : ℕ) : Str := pl.dst ++ suffix attempt

def candidate (pl : Place) (attempt : ℕ) : Path := pl.dir ++ [pl.name ++ suffix attempt]

def makes (d : Disk Str Leaf) (entries : List (Path × Node Leaf)) : Disk Str Leaf :=
  entries.foldl (fun d e => d.make e.1 e.2) d

def tooLong (pl : Place) (attempt : ℕ) : Bool :=
  pl.nameMax < ((pl.name ++ suffix attempt).flatMap String.utf8EncodeChar).length

-- os.Stat of the candidate.
def stat (pl : Place) (t : Turn) (d : Disk Str Leaf) (attempt : ℕ) : Lookup :=
  match d.node pl.dir with
  | none => .notExist
  | some (.file _) => .failed
  | some .dir =>
      if !pl.searchable || tooLong pl attempt then .failed
      else match d.node (candidate pl attempt) with
        | none => .notExist
        | some (.file (.link _)) => t.leads
        | some _ => .found

inductive Renamed
  | done (d : Disk Str Leaf)
  | exist
  | failed

-- os.Rename. It has EEXIST for a directory, and for what was made since the check.
def rename (pl : Place) (t : Turn) (src : Path) (checked d : Disk Str Leaf) (attempt : ℕ) : Renamed :=
  if d.isdir (candidate pl attempt) || !checked.found (candidate pl attempt) &&
      d.found (candidate pl attempt) then .exist
  else if t.refused then .failed
  else match d.rename src (candidate pl attempt) with
    | none => .failed
    | some d' => .done d'

section Loop

variable (pl : Place) (turns : ℕ → Turn) (srcText : Str) (src : Path)

-- The loop, with the turns that are left.
def loop : ℕ → ℕ → Disk Str Leaf → Except String Str × Disk Str Leaf
  | 0, attempt, d => (.error ("reached max. number of attempts: " ++ toString attempt), d)
  | left + 1, attempt, d =>
      let t := turns attempt
      let checked := makes d t.before
      let d' := makes checked t.between
      match stat pl t checked attempt with
      | .notExist =>
          match rename pl t src checked d' attempt with
          | .done d'' => (.ok (newPath pl attempt), d'')
          | .exist => loop left (attempt + 1) d'
          | .failed => (.error t.errno, d')
      | _ => loop left (attempt + 1) d'

-- move, with what os.Stat says of the source.
def move (srcStat : Lookup) (d : Disk Str Leaf) : Except String Str × Disk Str Leaf :=
  let (ret, d') :=
    if srcStat = .notExist then
      (.error ("source path does not exist: " ++ (String.ofList srcText).quote), d)
    else loop pl turns src 1001 0 d
  (ret.mapError fun err =>
    "move(" ++ String.ofList srcText ++ ", " ++ String.ofList pl.dst ++ "): " ++ err, d')

-- The disk as the other processes make it, before each turn and at its check.

def during (d : Disk Str Leaf) : ℕ → Disk Str Leaf
  | 0 => d
  | attempt + 1 => makes (makes (during d attempt) (turns attempt).before) (turns attempt).between

def checked (d : Disk Str Leaf) (attempt : ℕ) : Disk Str Leaf :=
  makes (during turns d attempt) (turns attempt).before

-- What a move should do: it fails and leaves everything, or brings the source to the first
-- free place.
structure Contract (d : Disk Str Leaf) (result : Except String Str × Disk Str Leaf) : Prop where
  failed : ∀ err, result.1 = .error err → ∃ n, result.2 = during turns d n
  moved : ∀ path, result.1 = .ok path → ∃ k ≤ 1000, path = newPath pl k ∧
    (during turns d (k + 1)).node (candidate pl k) = none ∧
    (∀ j < k, (during turns d (k + 1)).node (candidate pl j) ≠ none) ∧
    Disk.Moved (during turns d (k + 1)) result.2 src (candidate pl k)
  kept : ∀ p x, d.node p = some x → ¬ src <+: p ∨ (∃ err, result.1 = .error err) →
    result.2.node p = some x

-- The loop goes on after a turn.
def Passes (d : Disk Str Leaf) (attempt : ℕ) : Prop :=
  stat pl (turns attempt) (checked turns d attempt) attempt ≠ .notExist ∨
    rename pl (turns attempt) src (checked turns d attempt) (during turns d (attempt + 1)) attempt = .exist

-- The first candidate that is not found is a link, and the source can take its place.
def Overwrites (d : Disk Str Leaf) (k : ℕ) : Prop :=
  (∀ j < k, Passes pl turns src d j) ∧
    stat pl (turns k) (checked turns d k) k = .notExist ∧
    (checked turns d k).found (candidate pl k) = true ∧ (turns k).refused = false ∧
    ((during turns d (k + 1)).rename src (candidate pl k)).isSome

end Loop

section Names

variable {pl : Place} {j k : ℕ}

theorem suffix_injective : Function.Injective suffix := by
  intro j k h
  unfold suffix at h
  split_ifs at h with hj hk hk
  · rw [hj, hk]
  · have hdigits := congrArg (Nat.ofDigitChars 10 · 0) (List.cons.inj h).2
    simpa only [Nat.ofDigitChars_ten_toDigits] using hdigits

theorem newPath_injective (pl : Place) : Function.Injective (newPath pl) := fun _ _ h =>
  suffix_injective (List.append_cancel_left h)

theorem length_toDigits_le (h : j ≤ k) :
    (Nat.toDigits 10 j).length ≤ (Nat.toDigits 10 k).length := by
  have hpos : 0 < (Nat.toDigits 10 k).length := Nat.length_toDigits_pos
  rw [Nat.length_toDigits_le_iff (by decide) hpos]
  exact lt_of_le_of_lt h ((Nat.length_toDigits_le_iff (by decide) hpos).mp le_rfl)

theorem length_suffix_le (h : j ≤ k) : (suffix j).length ≤ (suffix k).length := by
  unfold suffix
  split_ifs with hj hk hk
  · exact le_rfl
  · exact Nat.zero_le _
  · omega
  · exact Nat.succ_le_succ (length_toDigits_le h)

-- A suffix has a byte for each of its characters.
theorem length_utf8_suffix (k : ℕ) :
    ((suffix k).flatMap String.utf8EncodeChar).length = (suffix k).length := by
  have hsize : ∀ c ∈ suffix k, (String.utf8EncodeChar c).length = 1 := by
    intro c hc
    rw [String.length_utf8EncodeChar, Char.utf8Size_eq_one_iff]
    unfold suffix at hc
    split_ifs at hc
    · cases hc
    · rcases List.mem_cons.mp hc with rfl | hc
      · decide
      · have hdigit := Nat.isDigit_of_mem_toDigits (by decide) (by decide) hc
        simp only [Char.isDigit, Bool.and_eq_true, decide_eq_true_eq] at hdigit
        have hnine : '9'.val ≤ 127 := by decide
        exact UInt32.le_trans hdigit.2 hnine
  rw [List.length_flatMap, List.map_congr_left hsize, List.map_const', List.sum_replicate_nat,
    Nat.mul_one]

theorem tooLong_of_le (h : j ≤ k) (hj : tooLong pl j = true) : tooLong pl k = true := by
  simp only [tooLong, decide_eq_true_eq, List.flatMap_append, List.length_append,
    length_utf8_suffix] at hj ⊢
  have hle := length_suffix_le h
  omega

end Names

section History

variable {pl : Place} {turns : ℕ → Turn} {d : Disk Str Leaf} {p : Path} {x : Node Leaf}

theorem node_makes (h : d.node p = some x) (entries : List (Path × Node Leaf)) :
    (makes d entries).node p = some x := by
  induction entries generalizing d with
  | nil => exact h
  | cons e entries ih => exact ih (Disk.node_make h e.1 e.2)

theorem node_during_succ {k : ℕ} (h : (checked turns d k).node p = some x) :
    (during turns d (k + 1)).node p = some x := node_makes h _

theorem node_checked {k : ℕ} (h : (during turns d k).node p = some x) :
    (checked turns d k).node p = some x := node_makes h _

-- What is there stays there.
theorem node_during {j k : ℕ} (hle : j ≤ k) (h : (during turns d j).node p = some x) :
    (during turns d k).node p = some x := by
  induction k, hle using Nat.le_induction with
  | base => exact h
  | succ k _ ih => exact node_during_succ (node_checked ih)

theorem node_checked_of_lt {j k : ℕ} (hlt : j < k) (h : (checked turns d j).node p = some x) :
    (checked turns d k).node p = some x :=
  node_checked (node_during (Nat.succ_le_of_lt hlt) (node_during_succ h))

end History

section Turns

variable {pl : Place} {turns : ℕ → Turn} {src : Path} {d d' : Disk Str Leaf} {k : ℕ}

-- What one turn of the loop may come to.
inductive Ends (pl : Place) (turns : ℕ → Turn) (src : Path) (d : Disk Str Leaf) (last : ℕ) :
    ℕ → Except String Str × Disk Str Leaf → Prop
  | spent : Ends pl turns src d last last
      (.error ("reached max. number of attempts: " ++ toString last), during turns d last)
  | done {m : ℕ} {d'' : Disk Str Leaf} (hlt : m < last)
      (hstat : stat pl (turns m) (checked turns d m) m = .notExist)
      (hrename : rename pl (turns m) src (checked turns d m) (during turns d (m + 1)) m = .done d'') :
      Ends pl turns src d last m (.ok (newPath pl m), d'')
  | failed {m : ℕ} (hlt : m < last)
      (hstat : stat pl (turns m) (checked turns d m) m = .notExist)
      (hrename : rename pl (turns m) src (checked turns d m) (during turns d (m + 1)) m = .failed) :
      Ends pl turns src d last m (.error (turns m).errno, during turns d (m + 1))

theorem Ends.turn {last m : ℕ} {result : Except String Str × Disk Str Leaf}
    (h : Ends pl turns src d last m result) : m = last ∨ ¬ Passes pl turns src d m := by
  cases h with
  | spent => exact Or.inl rfl
  | done hlt hstat hrename | failed hlt hstat hrename =>
      refine Or.inr ?_
      rw [Passes, hrename]
      simp [hstat]

theorem loop_of_notExist {left : ℕ}
    (hstat : stat pl (turns k) (checked turns d k) k = .notExist) :
    loop pl turns src (left + 1) k (during turns d k) =
      match rename pl (turns k) src (checked turns d k) (during turns d (k + 1)) k with
      | .done d'' => (.ok (newPath pl k), d'')
      | .exist => loop pl turns src left (k + 1) (during turns d (k + 1))
      | .failed => (.error (turns k).errno, during turns d (k + 1)) := by
  rw [loop]
  simp only [checked] at hstat
  simp only [hstat]
  rfl

theorem loop_of_passes {left : ℕ} (hpass : Passes pl turns src d k) :
    loop pl turns src (left + 1) k (during turns d k) =
      loop pl turns src left (k + 1) (during turns d (k + 1)) := by
  cases hstat : stat pl (turns k) (checked turns d k) k with
  | notExist =>
      have hexist := hpass.resolve_left fun hne => hne hstat
      rw [loop_of_notExist hstat, hexist]
  | _ =>
      rw [loop]
      simp only [checked] at hstat
      simp only [hstat]
      rfl

variable (pl turns src d) in
-- The loop ends at the first turn that it does not go on after.
theorem loop_ends (left k : ℕ) : ∃ m, k ≤ m ∧ (∀ j, k ≤ j → j < m → Passes pl turns src d j) ∧
    Ends pl turns src d (k + left) m (loop pl turns src left k (during turns d k)) := by
  induction left generalizing k with
  | zero =>
      refine ⟨k, le_rfl, fun j hj hlt => ?_, Ends.spent⟩
      omega
  | succ left ih =>
      by_cases hpass : Passes pl turns src d k
      · obtain ⟨m, hle, hpasses, hends⟩ := ih (k + 1)
        rw [loop_of_passes hpass]
        refine ⟨m, by omega, fun j hj hlt => ?_, ?_⟩
        · rcases Nat.eq_or_lt_of_le hj with rfl | hj
          · exact hpass
          · exact hpasses j hj hlt
        · rwa [Nat.add_right_comm, Nat.add_assoc] at hends
      · rw [Passes, not_or, not_not] at hpass
        obtain ⟨hstat, hexist⟩ := hpass
        refine ⟨k, le_rfl, fun j hj hlt => by omega, ?_⟩
        have hlt : k < k + (left + 1) := by omega
        cases hrename : rename pl (turns k) src (checked turns d k) (during turns d (k + 1)) k with
        | exist => exact absurd hrename hexist
        | done d'' =>
            rw [loop_of_notExist hstat, hrename]
            exact Ends.done hlt hstat hrename
        | failed =>
            rw [loop_of_notExist hstat, hrename]
            exact Ends.failed hlt hstat hrename

theorem dropLast_candidate (pl : Place) (k : ℕ) : (candidate pl k).dropLast = pl.dir :=
  List.dropLast_concat

theorem stat_of_dir {checked : Disk Str Leaf} {t : Turn} (hdir : checked.node pl.dir = some .dir)
    (h : stat pl t checked k = .notExist) : pl.searchable = true ∧ tooLong pl k = false := by
  unfold stat at h
  rw [hdir] at h
  simp only at h
  split_ifs at h with hbad
  simpa using hbad

-- What is neither reported missing nor out of reach is there.
theorem found_of_stat {checked : Disk Str Leaf} {t : Turn}
    (h : stat pl t checked k ≠ .notExist) :
    (∃ c, checked.node pl.dir = some (.file c)) ∨
      (checked.node pl.dir = some .dir ∧ (pl.searchable = false ∨ tooLong pl k = true)) ∨
      checked.node (candidate pl k) ≠ none := by
  unfold stat at h
  cases hdir : checked.node pl.dir with
  | none => simp [hdir] at h
  | some x =>
      cases x with
      | file c => exact Or.inl ⟨c, rfl⟩
      | dir =>
          simp only [hdir] at h
          split_ifs at h with hbad
          · simp only [Bool.or_eq_true, Bool.not_eq_true'] at hbad
            exact Or.inr (Or.inl ⟨rfl, hbad⟩)
          · refine Or.inr (Or.inr fun hnone => ?_)
            simp [hnone] at h

theorem found_of_exist {t : Turn} {checked : Disk Str Leaf}
    (h : rename pl t src checked d' k = .exist) : d'.node (candidate pl k) ≠ none := by
  unfold rename at h
  split_ifs at h with hexist hrefused
  · simp only [Bool.or_eq_true, Bool.and_eq_true] at hexist
    rcases hexist with hdir | ⟨-, hfound⟩
    · simp [Disk.isdir_iff.mp hdir]
    · exact Disk.found_iff.mp hfound
  · cases hren : d'.rename src (candidate pl k) <;> simp [hren] at h

theorem rename_eq_done {t : Turn} {checked d'' : Disk Str Leaf}
    (h : rename pl t src checked d' k = .done d'') :
    t.refused = false ∧ d'.rename src (candidate pl k) = some d'' ∧
      (checked.found (candidate pl k) = false → d'.node (candidate pl k) = none) := by
  unfold rename at h
  split_ifs at h with hexist hrefused
  cases hren : d'.rename src (candidate pl k) with
  | none => simp [hren] at h
  | some d₀ =>
      simp only [hren, Renamed.done.injEq] at h
      refine ⟨by simpa using hrefused, by rw [h], fun hfree => ?_⟩
      rw [Bool.or_eq_true, not_or] at hexist
      have hnow : d'.found (candidate pl k) = false := by simpa [hfree] using hexist.2
      exact Disk.not_found_iff.mp hnow

-- A candidate that the loop went past is there when the source goes to a later one.
theorem node_of_passes {j : ℕ} (hlt : j < k) (hpass : Passes pl turns src d j)
    (hstat : stat pl (turns k) (checked turns d k) k = .notExist)
    (hdir : (during turns d (k + 1)).node pl.dir = some .dir) :
    (during turns d (k + 1)).node (candidate pl j) ≠ none := by
  have hkeep : ∀ {p x}, (during turns d (j + 1)).node p = some x →
      (during turns d (k + 1)).node p = some x := fun h => node_during (by omega) h
  rcases hpass with hseen | hexist
  · rcases found_of_stat hseen with ⟨c, hfile⟩ | ⟨hdirj, hbad⟩ | hthere
    · rw [hkeep (node_during_succ hfile)] at hdir
      cases hdir
    · -- what keeps os.Stat from a candidate keeps it from all later ones
      obtain ⟨hsearch, hshort⟩ := stat_of_dir (node_checked_of_lt hlt hdirj) hstat
      rcases hbad with hdenied | hlong
      · rw [hsearch] at hdenied
        cases hdenied
      · rw [tooLong_of_le hlt.le hlong] at hshort
        cases hshort
    · obtain ⟨x, hx⟩ := Option.ne_none_iff_exists'.mp hthere
      rw [hkeep (node_during_succ hx)]
      simp
  · obtain ⟨x, hx⟩ := Option.ne_none_iff_exists'.mp (found_of_exist hexist)
    rw [hkeep hx]
    simp

-- A rename to a free candidate is the move that is asked for.
theorem moved_of_rename {d'' : Disk Str Leaf} (hren : d'.rename src (candidate pl k) = some d'')
    (hfree : d'.node (candidate pl k) = none) : Disk.Moved d' d'' src (candidate pl k) := by
  have hne : src ≠ candidate pl k := by
    rintro rfl
    rw [Disk.rename, if_pos rfl, if_neg (by simp [Disk.found, hfree])] at hren
    cases hren
  obtain ⟨hrenames, hnode⟩ := Disk.rename_eq_some hne hren
  exact ⟨hrenames, hnode⟩

-- What os.Stat does not find although it is there is a link.
theorem link_of_stat {t : Turn} {checked : Disk Str Leaf} (hstat : stat pl t checked k = .notExist)
    (hfound : checked.found (candidate pl k) = true) :
    ∃ target, checked.node (candidate pl k) = some (.file (.link target)) := by
  have hdir : checked.node pl.dir = some .dir :=
    Disk.node_parent (n := pl.name ++ suffix k) (Disk.found_iff.mp hfound)
  obtain ⟨hsearch, hshort⟩ := stat_of_dir hdir hstat
  rw [stat, hdir] at hstat
  simp only [hsearch, hshort, Bool.not_true, Bool.or_self, Bool.false_eq_true, if_false] at hstat
  cases hnode : checked.node (candidate pl k) with
  | none => simp [Disk.found, hnode] at hfound
  | some x =>
      rw [hnode] at hstat
      rcases x with _ | ⟨content⟩ | ⟨target⟩
      · cases hstat
      · cases hstat
      · exact ⟨target, rfl⟩

-- The loop overwrites exactly at a turn like this, which it does not go on after.
theorem not_passes_of_overwrites (h : Overwrites pl turns src d k) :
    ¬ Passes pl turns src d k ∧ ∃ d'',
      rename pl (turns k) src (checked turns d k) (during turns d (k + 1)) k = .done d'' := by
  obtain ⟨-, hstat, hfound, hrefused, hren⟩ := h
  obtain ⟨d'', hd''⟩ := Option.isSome_iff_exists.mp hren
  obtain ⟨target, hx⟩ := link_of_stat hstat hfound
  have hnotdir : (during turns d (k + 1)).isdir (candidate pl k) = false := by
    rw [Bool.eq_false_iff, ne_eq, Disk.isdir_iff, node_during_succ hx]
    simp
  have hdone : rename pl (turns k) src (checked turns d k) (during turns d (k + 1)) k = .done d'' := by
    rw [rename, hnotdir, hfound, hd'']
    simp [hrefused]
  refine ⟨?_, d'', hdone⟩
  rintro (hseen | hexist)
  · exact hseen hstat
  · rw [hdone] at hexist
    cases hexist

end Turns

section Contract

variable {pl : Place} {turns : ℕ → Turn} {srcText : Str} {src : Path} {srcStat : Lookup}
  {d : Disk Str Leaf}

variable (pl turns srcText src d) in
theorem move_of_missing (h : srcStat = .notExist) :
    ∃ err, move pl turns srcText src srcStat d = (.error err, d) := by
  rw [move, if_pos h]
  exact ⟨_, rfl⟩

variable (pl turns srcText src d) in
-- What move gives where the source is found: what its loop ends with.
theorem move_ends (h : srcStat ≠ .notExist) : ∃ m result,
    (∀ j < m, Passes pl turns src d j) ∧ Ends pl turns src d 1001 m result ∧
      (move pl turns srcText src srcStat d).2 = result.2 ∧
      (∀ path, (move pl turns srcText src srcStat d).1 = .ok path ↔ result.1 = .ok path) := by
  obtain ⟨m, -, hpasses, hends⟩ := loop_ends pl turns src d 1001 0
  have hstart : during turns d 0 = d := rfl
  rw [Nat.zero_add, hstart] at hends
  refine ⟨m, _, fun j hj => hpasses j (Nat.zero_le j) hj, hends, ?_, fun path => ?_⟩
  · rw [move, if_neg h]
  · rw [move, if_neg h]
    change Except.mapError _ (loop pl turns src 1001 0 d).1 = _ ↔ (loop pl turns src 1001 0 d).1 = _
    cases (loop pl turns src 1001 0 d).1 <;> simp [Except.mapError]

theorem contract_of_error {result : Except String Str × Disk Str Leaf} {n : ℕ}
    (herr : ∀ path, result.1 ≠ .ok path) (hdisk : result.2 = during turns d n) :
    Contract pl turns src d result where
  failed _ _ := ⟨n, hdisk⟩
  moved path hpath := absurd hpath (herr path)
  kept p x hx _ := by
    rw [hdisk]
    exact node_during (Nat.zero_le n) hx

-- A move to a free candidate past others that are all there.
theorem contract_of_done {result : Except String Str × Disk Str Leaf} {m : ℕ} {d'' : Disk Str Leaf}
    (hm : m < 1001) (hpasses : ∀ j < m, Passes pl turns src d j)
    (hstat : stat pl (turns m) (checked turns d m) m = .notExist)
    (hren : (during turns d (m + 1)).rename src (candidate pl m) = some d'')
    (hfree : (during turns d (m + 1)).node (candidate pl m) = none)
    (hpath : ∀ path, result.1 = .ok path ↔ path = newPath pl m) (hdisk : result.2 = d'') :
    Contract pl turns src d result := by
  have hmoved := moved_of_rename hren hfree
  have hdir : (during turns d (m + 1)).node pl.dir = some .dir := by
    rw [← dropLast_candidate pl m]
    exact hmoved.parent
  refine ⟨fun err herr => ?_, fun path hok => ?_, fun p x hx hapart => ?_⟩
  · rw [(hpath _).mpr rfl] at herr
    cases herr
  · rw [hdisk]
    exact ⟨m, by omega, (hpath path).mp hok, hfree,
      fun j hj => node_of_passes hj (hpasses j hj) hstat hdir, hmoved⟩
  · have hsrc : ¬ src <+: p := hapart.resolve_right fun ⟨err, herr⟩ => by
      rw [(hpath _).mpr rfl] at herr
      cases herr
    have hnow : (during turns d (m + 1)).node p = some x := node_during (Nat.zero_le _) hx
    rw [hdisk, hmoved.node_stays hsrc hfree (by simp [hnow]), hnow]

theorem contract_of_not_overwrites
    (h : srcStat = .notExist ∨ ¬ ∃ k ≤ 1000, Overwrites pl turns src d k) :
    Contract pl turns src d (move pl turns srcText src srcStat d) := by
  by_cases hsrc : srcStat = .notExist
  · obtain ⟨err, hmove⟩ := move_of_missing pl turns srcText src d hsrc
    refine contract_of_error (n := 0) (fun path => ?_) ?_
    · simp [hmove]
    · rw [hmove]
      rfl
  · have hnone := h.resolve_left hsrc
    obtain ⟨m, result, hpasses, hends, hdisk, hpath⟩ := move_ends pl turns srcText src d hsrc
    cases hends with
    | spent =>
        exact contract_of_error (n := 1001) (fun path hok => nomatch (hpath path).mp hok) hdisk
    | failed hlt hstat hrename =>
        exact contract_of_error (n := m + 1) (fun path hok => nomatch (hpath path).mp hok) hdisk
    | @done _ d'' hlt hstat hrename =>
        obtain ⟨hrefused, hren, hfree⟩ := rename_eq_done hrename
        have hgone : (checked turns d m).found (candidate pl m) = false := by
          rw [Bool.eq_false_iff]
          intro hfound
          exact hnone ⟨m, by omega, hpasses, hstat, hfound, hrefused, by simp [hren]⟩
        refine contract_of_done hlt hpasses hstat hren (hfree hgone) (fun path => ?_) hdisk
        rw [hpath, Except.ok.injEq, eq_comm]

-- The loop comes to the turn at which it overwrites, and tells of a place that is not free.
theorem not_contract_of_overwrites (hsrc : srcStat ≠ .notExist) {k : ℕ} (hk : k ≤ 1000)
    (hover : Overwrites pl turns src d k) :
    ¬ Contract pl turns src d (move pl turns srcText src srcStat d) := by
  intro hcontract
  obtain ⟨hnot, d'', hdone⟩ := not_passes_of_overwrites hover
  obtain ⟨m, result, hpasses, hends, hdisk, hpath⟩ := move_ends pl turns srcText src d hsrc
  have hmk : m = k := by
    rcases hends.turn with rfl | hstop
    · exact absurd (hpasses k (by omega)) hnot
    · rcases Nat.lt_trichotomy m k with hlt | heq | hlt
      · exact absurd (hover.1 m hlt) hstop
      · exact heq
      · exact absurd (hpasses k hlt) hnot
  subst hmk
  cases hends with
  | spent => omega
  | failed hlt hstat hrename =>
      rw [hdone] at hrename
      cases hrename
  | done hlt hstat hrename =>
      obtain ⟨k', -, hsame, hfree, -⟩ := hcontract.moved _ ((hpath _).mpr rfl)
      obtain rfl := newPath_injective pl hsame
      obtain ⟨x, hx⟩ := Option.ne_none_iff_exists'.mp (Disk.found_iff.mp hover.2.2.1)
      rw [node_during_succ hx] at hfree
      cases hfree

-- The move is right exactly where the first candidate that is not found is not a link that
-- the source can take the place of.
theorem move_contract_iff :
    Contract pl turns src d (move pl turns srcText src srcStat d) ↔
      srcStat = .notExist ∨ ¬ ∃ k ≤ 1000, Overwrites pl turns src d k := by
  constructor
  · intro hcontract
    by_cases hsrc : srcStat = .notExist
    · exact Or.inl hsrc
    · exact Or.inr fun ⟨k, hk, hover⟩ => not_contract_of_overwrites hsrc hk hover hcontract
  · exact contract_of_not_overwrites

end Contract

-- A file that goes to the name of a link that leads nowhere.
namespace Dangling

def place : Place where
  dst := "/s/currentlyProcessing/a".toList
  dir := ["currentlyProcessing".toList]
  name := "a".toList
  searchable := true
  nameMax := 255

def alone : ℕ → Turn := fun _ => ⟨[], [], .notExist, "", false⟩

def src : Path := ["tmp".toList, "a".toList]

def empty : Disk Str Leaf := ⟨[], List.nodup_nil, by simp⟩

-- The disk has a file or a directory as the source.
def disk (source target : List (Node Leaf)) : Disk Str Leaf :=
  makes empty ([(["tmp".toList], .dir), (["currentlyProcessing".toList], .dir)] ++
    source.map (fun x => (src, x)) ++ target.map fun x => (["currentlyProcessing".toList, "a".toList], x))

def file : Node Leaf := .file (.regular "content".toList)

def link : Node Leaf := .file (.link "/gone".toList)

theorem link_overwritten :
    ¬ Contract place alone src (disk [file] [link])
      (move place alone "/s/tmp/a".toList src .found (disk [file] [link])) := by
  have hover : Overwrites place alone src (disk [file] [link]) 0 :=
    ⟨fun j hj => absurd hj (Nat.not_lt_zero j), by decide +kernel, by decide +kernel, rfl,
      by decide +kernel⟩
  exact not_contract_of_overwrites (by decide) (Nat.zero_le 1000) hover

end Dangling

end Move

end Ccp
