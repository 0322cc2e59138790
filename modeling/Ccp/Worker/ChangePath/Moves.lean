import Ccp.Worker.ChangePath
import Mathlib.Data.Nat.Find

namespace Ccp.Worker.ChangePath

open Lib FileOperations ChangeNames

section Names

variable {unidecode : Unidecode} {name : Name}

theorem toNat_lt_of_allowed_name (h : Allowed name.val) : ∀ c ∈ name.val, c.toNat < 128 :=
  fun c hc => toNat_lt_of_allowed (h c hc)

theorem allowed_changeName (unidecode : Str → Str) (name : Name) : Allowed (changeName unidecode name).val :=
  fun _ => allowed_of_mem_changeName

-- A name is changed when it has another character, and then never again.
theorem changeName_eq_self_iff : changeName unidecode.decode name = name ↔ Allowed name.val := by
  constructor
  · intro h
    rw [← h]
    exact allowed_changeName unidecode.decode name
  · intro h
    have hdecode := unidecode.decode_of_ascii name.val (toNat_lt_of_allowed_name h)
    refine Subtype.ext (?_ : changedText unidecode.decode name = name.val)
    rw [changedText, decodedName, hdecode, ite_self]
    conv_rhs => rw [← List.map_id name.val]
    exact List.map_congr_left fun c hc => if_pos (h c hc)

theorem changeName_idempotent (unidecode : Unidecode) (name : Name) :
    changeName unidecode.decode (changeName unidecode.decode name) = changeName unidecode.decode name :=
  changeName_eq_self_iff.mpr (allowed_changeName unidecode.decode name)

theorem utf8Size_of_allowed {c : Char} (h : allowed c = true) : c.utf8Size = 1 := by
  have hlt := toNat_lt_of_allowed h
  have hval : c.val.toNat = c.toNat := rfl
  rw [Char.utf8Size, if_pos (UInt32.le_iff_toNat_le.mpr (by rw [hval]; exact Nat.le_of_lt_succ hlt))]

theorem byteLength_of_allowed {s : Str} (h : Allowed s) : byteLength s = s.length := by
  have hmap : s.map Char.utf8Size = s.map fun _ => 1 :=
    List.map_congr_left fun c hc => utf8Size_of_allowed (h c hc)
  rw [byteLength, hmap, List.map_const', List.sum_replicate_nat, Nat.mul_one]

end Names

section Candidates

variable {changedName : Name} {maxFilename n : ℕ}

theorem length_sliceTo_of_nonneg {s : Str} {k : ℤ} (h : 0 ≤ k) : ((sliceTo s k).length : ℤ) = min k s.length := by
  rw [sliceTo, if_pos h, List.length_take]
  omega

-- The title is cut to what the rest leaves of the name, unless the rest is too long by itself.
theorem length_candidate_le_iff :
    (candidate maxFilename changedName n).length ≤ maxFilename ↔ suffixLength changedName n ≤ maxFilename := by
  have hcut (rest : ℕ) : (sliceTo (PosixPath.splitext changedName.val).1 (maxFilename - rest)).length + rest ≤
      maxFilename ↔ rest ≤ maxFilename := by
    constructor
    · omega
    · intro h
      have hlength := @length_sliceTo_of_nonneg (PosixPath.splitext changedName.val).1 (maxFilename - rest) (by omega)
      omega
  rw [suffixLength, candidate]
  by_cases hn : n = 0
  · rw [if_pos hn, if_pos hn, List.length_append, Nat.add_zero]
    exact hcut _
  · have hrest := hcut ((PosixPath.splitext changedName.val).2.length + (1 + (Nat.toDigits 10 n).length))
    have hroom : (maxFilename : ℤ) - (PosixPath.splitext changedName.val).2.length -
        (1 + (Nat.toDigits 10 n).length) = maxFilename -
          ((PosixPath.splitext changedName.val).2.length + (1 + (Nat.toDigits 10 n).length) : ℕ) := by
      omega
    rw [if_neg hn, if_neg hn, List.length_append, List.length_cons, List.length_append, hroom, ← hrest]
    omega

-- An extension has one dot, its first character.
theorem splitext_cases (p : Str) :
    (PosixPath.splitext p).2 = [] ∨ ∃ tail, (PosixPath.splitext p).2 = '.' :: tail ∧ '.' ∉ tail := by
  rw [PosixPath.splitext]
  split_ifs
  · refine Or.inr ⟨_, rfl, fun hdot => ?_⟩
    simpa using List.mem_takeWhile_imp (List.mem_reverse.mp hdot)
  · exact Or.inl rfl

theorem dots_of_entryName_eq_none {s : Str} (h : entryName s = none) (hslash : '/' ∉ s) : ∀ c ∈ s, c = '.' := by
  rw [entryName] at h
  split_ifs at h with hs
  rcases hs with rfl | hmem | rfl | rfl
  · simp
  · exact absurd (List.contains_iff_mem.mp hmem) hslash
  · simp
  · simp

-- Only the first name that is tried can stand for a directory, and then it has no more than a dot
-- as its extension.
theorem suffixLength_le_of_none (h : Allowed changedName.val)
    (hnone : entryName (candidate maxFilename changedName n) = none) : suffixLength changedName n ≤ 1 := by
  cases n with
  | succ n =>
      have hexists := @exists_entryName maxFilename changedName h n
      obtain ⟨name, hname⟩ := hexists
      rw [hname] at hnone
      cases hnone
  | zero =>
      rw [suffixLength, if_pos rfl, Nat.add_zero]
      rcases splitext_cases changedName.val with hext | ⟨tail, hext, hdot⟩
      · rw [hext]
        exact Nat.zero_le 1
      · have hdots : ∀ c ∈ candidate maxFilename changedName 0, c = '.' := by
          intro c hc
          have hslash : '/' ∉ candidate maxFilename changedName 0 :=
            fun hmem => absurd (allowed_of_mem_candidate h hmem) (by decide)
          exact dots_of_entryName_eq_none hnone hslash c hc
        cases tail with
        | nil => rw [hext, List.length_singleton]
        | cons c tail =>
            refine absurd (hdots c ?_) fun hc => hdot (hc ▸ List.mem_cons_self)
            rw [candidate, if_pos rfl, hext]
            exact List.mem_append_right _ (List.mem_cons_of_mem _ List.mem_cons_self)

theorem allowed_of_entryName (h : Allowed changedName.val) {name : Name}
    (hname : entryName (candidate maxFilename changedName n) = some name) : Allowed name.val := by
  rw [(entryName_eq_some_iff.mp hname).1]
  exact fun c hc => allowed_of_mem_candidate h hc

theorem short_iff (h : Allowed changedName.val) {name : Name}
    (hname : entryName (candidate maxFilename changedName n) = some name) :
    byteLength name.val ≤ maxFilename ↔ suffixLength changedName n ≤ maxFilename := by
  rw [byteLength_of_allowed (allowed_of_entryName h hname), (entryName_eq_some_iff.mp hname).1]
  exact length_candidate_le_iff

end Candidates

section Search

variable {α : Type*} {reaches : Str → Bool} {d : Directory α} {changedName name : Name} {n : ℕ}

theorem free_eq_some_iff : free reaches d changedName n = some name ↔
    entryName (candidate d.maxFilename changedName n) = some name ∧ d.exists reaches name = false := by
  rw [free, Option.filter_eq_some_iff, Bool.not_eq_true']

-- What is found neither under a name nor at the target of a link.
theorem exists_eq_false_iff : d.exists reaches name = false ↔
    ∀ entry, Dict.get? d.entries name = some entry →
      ∃ target, entry = .link target ∧ reaches target = false := by
  rw [Directory.exists]
  cases hentry : Dict.get? d.entries name with
  | none => simp
  | some entry => cases entry <;> simp

theorem get?_ne_none_of_exists (h : d.exists reaches name = true) : Dict.get? d.entries name ≠ none := by
  intro hnone
  rw [Directory.exists, hnone] at h
  cases h

theorem short_of_get?_ne_none (h : Dict.get? d.entries name ≠ none) : byteLength name.val ≤ d.maxFilename := by
  refine d.short name ?_
  by_contra hnotMem
  exact h (Dict.get?_eq_none_iff.mpr hnotMem)

-- The loop ends at the first name that is free.
theorem search_eq_of_first (hfree : free reaches d changedName n = some name) {m k : ℕ} (hmk : m + k = n)
    (htaken : ∀ i, m ≤ i → i < n → free reaches d changedName i = none) (extra : ℕ) :
    search reaches d changedName (k + 1 + extra) m = some name := by
  induction k generalizing m with
  | zero =>
      obtain rfl : m = n := hmk
      rw [Nat.zero_add, Nat.add_comm, search, hfree]
  | succ k ih =>
      have hstep : free reaches d changedName m = none := htaken m (Nat.le_refl m) (by omega)
      rw [Nat.succ_add k 1, Nat.succ_add, search, hstep]
      exact ih (by omega) fun i hi hin => htaken i (by omega) hin

-- The names that are tried are more than those of the directory.
theorem exists_first (h : Allowed changedName.val) (reaches : Str → Bool) (d : Directory α) :
    ∃ n name, free reaches d changedName n = some name ∧ ∀ m < n, free reaches d changedName m = none := by
  have hsome : ∃ n, free reaches d changedName n ≠ none := by
    obtain ⟨n, -, hn, -⟩ := firstFree_spec ((d.entries.map Prod.fst).map Subtype.val)
      (fun i j hij => candidate_injective hij : Function.Injective fun n => candidate d.maxFilename changedName (n + 1))
    obtain ⟨name, hname⟩ := @exists_entryName d.maxFilename changedName h n
    have hfresh : name ∉ d.entries.map Prod.fst := by
      intro hmem
      refine hn (List.mem_map.mpr ⟨name, hmem, ?_⟩)
      exact (entryName_eq_some_iff.mp hname).1
    refine ⟨n + 1, fun hnone => ?_⟩
    have hfree : free reaches d changedName (n + 1) = some name := by
      refine free_eq_some_iff.mpr ⟨hname, exists_eq_false_iff.mpr fun entry hentry => ?_⟩
      rw [Dict.get?_eq_none_iff.mpr hfresh] at hentry
      cases hentry
    rw [hnone] at hfree
    cases hfree
  obtain ⟨name, hname⟩ := Option.ne_none_iff_exists'.mp (Nat.find_spec hsome)
  exact ⟨Nat.find hsome, name, hname, fun m hm => not_not.mp (Nat.find_min hsome hm)⟩

end Search

section Move

variable {α : Type*} {d d' : Directory α} {old new : Name}

theorem move_eq_some_iff : d.move old new = some d' ↔ ∃ entry, Dict.get? d.entries old = some entry ∧
    byteLength new.val ≤ d.maxFilename ∧ (entry.isDirectory = true → Dict.get? d.entries new = none) ∧
    d'.maxFilename = d.maxFilename ∧ d'.entries = Dict.set (Dict.erase d.entries old) new entry := by
  rw [Directory.move]
  split_ifs with hshort
  · rw [Option.bind_eq_some_iff]
    refine exists_congr fun entry => and_congr_right fun _ => ?_
    split_ifs with hlink
    · rw [Bool.and_eq_true, Option.isSome_iff_ne_none] at hlink
      exact ⟨fun h => h.elim, fun h => absurd (h.2.1 hlink.1) hlink.2⟩
    · rw [Bool.and_eq_true, Option.isSome_iff_ne_none, not_and_not_right] at hlink
      rw [Option.some.injEq]
      constructor
      · rintro rfl
        exact ⟨hshort, hlink, rfl, rfl⟩
      · rintro ⟨-, -, hmax, hentries⟩
        exact Directory.ext hmax.symm hentries.symm
  · constructor
    · intro h
      cases h
    · rintro ⟨-, -, h, -⟩
      exact absurd h hshort

theorem moved_of_move (h : d.move old new = some d') (hfree : Dict.get? d.entries new = none) : Moved d d' old new := by
  obtain ⟨entry, hold, -, -, -, hentries⟩ := move_eq_some_iff.mp h
  refine ⟨hfree, fun name => ?_⟩
  rw [hentries, Dict.get?_set, Dict.get?_erase, hold]
  by_cases hnew : name = new
  · rw [if_pos hnew.symm, if_pos hnew]
  · rw [if_neg (Ne.symm hnew), if_neg hnew]
    by_cases hname : name = old
    · rw [if_pos hname.symm, if_pos hname]
    · rw [if_neg (Ne.symm hname), if_neg hname]

end Move

section Call

variable {α : Type*} {unidecode : Unidecode} {reaches : Str → Bool} {d : Directory α} {e : EntryPath d}

theorem basenameOf_path (e : EntryPath d) : basenameOf e.path = some e.name := by
  have hne : PosixPath.basename e.path ≠ [] := by
    rw [e.basename]
    exact e.name.2.1
  rw [basenameOf, dif_neg hne]
  exact congrArg some (Subtype.ext e.basename)

theorem changePath_of_allowed (h : Allowed e.name.val) (fuel : ℕ) :
    changePath reaches d unidecode e.path fuel = some (.ok (d, e.path)) := by
  have hname : e.name = changeName unidecode.decode e.name := (changeName_eq_self_iff.mpr h).symm
  simp only [changePath, basenameOf_path]
  rw [if_pos hname]

theorem changePath_of_not_allowed (h : ¬ Allowed e.name.val) (fuel : ℕ) :
    changePath reaches d unidecode e.path fuel =
      (search reaches d (changeName unidecode.decode e.name) fuel 0).map (moveTo d e.path e.name) := by
  have hname : e.name ≠ changeName unidecode.decode e.name := fun heq => h (changeName_eq_self_iff.mp heq.symm)
  simp only [changePath, basenameOf_path]
  rw [if_neg hname]

-- The call ends, whatever is in the directory, and moves to the first name that is free.
theorem changePath_terminates (h : ¬ Allowed e.name.val) : ∃ n name,
    free reaches d (changeName unidecode.decode e.name) n = some name ∧
    (∀ m < n, free reaches d (changeName unidecode.decode e.name) m = none) ∧
    ∀ extra, changePath reaches d unidecode e.path (n + 1 + extra) = some (moveTo d e.path e.name name) := by
  obtain ⟨n, name, hfree, htaken⟩ := exists_first (allowed_changeName unidecode.decode e.name) reaches d
  refine ⟨n, name, hfree, htaken, fun extra => ?_⟩
  rw [changePath_of_not_allowed h, search_eq_of_first hfree (Nat.zero_add n) fun i _ hi => htaken i hi,
    Option.map_some]

theorem moveTo_eq_ok_iff {path path' : Str} {old new : Name} {d' : Directory α} :
    moveTo d path old new = .ok (d', path') ↔
      d.move old new = some d' ∧ path' = PosixPath.join (PosixPath.dirname path) new.val := by
  rw [moveTo]
  cases d.move old new with
  | none => simp
  | some moved => simp [eq_comm]

theorem one_le_maxFilename (e : EntryPath d) : 1 ≤ d.maxFilename := by
  refine Nat.le_trans ?_ (d.short e.name e.mem)
  obtain ⟨c, s, hs⟩ := List.exists_cons_of_ne_nil e.name.2.1
  rw [hs, byteLength, List.map_cons, List.sum_cons]
  exact Nat.le_add_right_of_le c.utf8Size_pos

-- A name that exists has room, and a link that has it leads to something.

theorem room_of_taken (e : EntryPath d) {changedName : Name} (hallowed : Allowed changedName.val) {n : ℕ}
    (h : free reaches d changedName n = none) : suffixLength changedName n ≤ d.maxFilename := by
  cases hname : entryName (candidate d.maxFilename changedName n) with
  | none => exact Nat.le_trans (suffixLength_le_of_none hallowed hname) (one_le_maxFilename e)
  | some name =>
      rw [← short_iff hallowed hname]
      refine short_of_get?_ne_none (get?_ne_none_of_exists (?_ : d.exists reaches name = true))
      by_contra hexists
      rw [free_eq_some_iff.mpr ⟨hname, Bool.of_not_eq_true hexists⟩] at h
      cases h

theorem reaches_of_taken {changedName name : Name} {target : Str} {n : ℕ}
    (h : free reaches d changedName n = none)
    (hname : entryName (candidate d.maxFilename changedName n) = some name)
    (hlink : Dict.get? d.entries name = some (.link target)) : reaches target = true := by
  by_contra hreaches
  have hexists : d.exists reaches name = false := by
    rw [Directory.exists, hlink]
    exact Bool.of_not_eq_true hreaches
  rw [free_eq_some_iff.mpr ⟨hname, hexists⟩] at h
  cases h

-- A name without room for it is refused.
theorem changePath_of_no_room (hallowed : ¬ Allowed e.name.val) {n : ℕ} {new : Name}
    (hfree : free reaches d (changeName unidecode.decode e.name) n = some new)
    (htaken : ∀ m < n, free reaches d (changeName unidecode.decode e.name) m = none)
    (hroom : ¬ suffixLength (changeName unidecode.decode e.name) n ≤ d.maxFilename) (extra : ℕ) :
    changePath reaches d unidecode e.path (n + 1 + extra) = some (.error .osError) := by
  have hlong : ¬ byteLength new.val ≤ d.maxFilename := by
    rwa [short_iff (allowed_changeName unidecode.decode e.name) (free_eq_some_iff.mp hfree).1]
  rw [changePath_of_not_allowed hallowed, search_eq_of_first hfree (Nat.zero_add n) fun i _ hi => htaken i hi,
    Option.map_some, moveTo, Directory.move, dif_neg hlong, Option.elim_none]

-- The first name that is free decides.
theorem clear_iff (hallowed : ¬ Allowed e.name.val) {n : ℕ} {new : Name}
    (hfree : free reaches d (changeName unidecode.decode e.name) n = some new)
    (htaken : ∀ m < n, free reaches d (changeName unidecode.decode e.name) m = none) :
    Clear unidecode reaches d e ↔
      suffixLength (changeName unidecode.decode e.name) n ≤ d.maxFilename ∧ Dict.get? d.entries new = none := by
  obtain ⟨hcandidate, hexists⟩ := free_eq_some_iff.mp hfree
  have hle {m : ℕ} (h : ∀ i < m, free reaches d (changeName unidecode.decode e.name) i = none) : m ≤ n := by
    by_contra hlt
    rw [h n (Nat.lt_of_not_le hlt)] at hfree
    cases hfree
  constructor
  · intro hclear
    refine ⟨hclear.room hallowed n htaken, ?_⟩
    by_contra hsome
    obtain ⟨entry, hentry⟩ := Option.ne_none_iff_exists'.mp hsome
    obtain ⟨target, rfl, hbroken⟩ := exists_eq_false_iff.mp hexists entry hentry
    rw [hclear.link hallowed n htaken new target hcandidate hentry] at hbroken
    cases hbroken
  · rintro ⟨hroom, hnone⟩
    refine ⟨fun _ m hm => ?_, fun _ m hm name target hname hlink => ?_⟩
    · rcases Nat.lt_or_eq_of_le (hle hm) with hlt | rfl
      · exact room_of_taken e (allowed_changeName unidecode.decode e.name) (htaken m hlt)
      · exact hroom
    · rcases Nat.lt_or_eq_of_le (hle hm) with hlt | rfl
      · exact reaches_of_taken (htaken m hlt) hname hlink
      · obtain rfl : new = name := Option.some.inj (hcandidate.symm.trans hname)
        rw [hnone] at hlink
        cases hlink

end Call

section Changed

variable {α : Type*}

-- Whether an entry is left or moved as it should be.
theorem changed_iff (unidecode : Unidecode) (reaches : Str → Bool) (d : Directory α) (e : EntryPath d) :
    Contract unidecode reaches d e ↔ Clear unidecode reaches d e := by
  by_cases hallowed : Allowed e.name.val
  · have hclear : Clear unidecode reaches d e := ⟨fun h => absurd hallowed h, fun h => absurd hallowed h⟩
    refine iff_of_true ⟨changeName_idempotent unidecode, 0, d, e.path, e.name, ?_, fun extra => ?_⟩ hclear
    · refine ⟨Or.inl ⟨hallowed, rfl, rfl⟩, e.basename, rfl, hallowed, ?_⟩
      rw [← byteLength_of_allowed hallowed]
      exact d.short e.name e.mem
    · exact changePath_of_allowed hallowed _
  · obtain ⟨n, new, hfree, htaken, hcall⟩ := @changePath_terminates α unidecode reaches d e hallowed
    have hcandidate := (free_eq_some_iff.mp hfree).1
    have hallowedNew : Allowed new.val := allowed_of_entryName (allowed_changeName unidecode.decode e.name) hcandidate
    rw [clear_iff hallowed hfree htaken, ← short_iff (allowed_changeName unidecode.decode e.name) hcandidate]
    constructor
    · rintro ⟨-, fuel, d', path', new', houtcome, hreturns⟩
      have hsame := (hcall fuel).symm.trans (Nat.add_comm fuel (n + 1) ▸ hreturns (n + 1))
      obtain ⟨hmove, hpath⟩ := moveTo_eq_ok_iff.mp (Option.some.inj hsame)
      obtain ⟨entry, -, hshort, -⟩ := move_eq_some_iff.mp hmove
      rcases houtcome.entry with ⟨h, -, -⟩ | ⟨hmoved, -⟩
      · exact absurd h hallowed
      · obtain rfl : new = new' := by
          refine Subtype.ext ?_
          rw [← houtcome.basename, hpath, PosixPath.basename_join new.2]
        exact ⟨hshort, hmoved.free⟩
    · rintro ⟨hshort, hnone⟩
      obtain ⟨entry, hentry⟩ : ∃ entry, Dict.get? d.entries e.name = some entry :=
        Option.ne_none_iff_exists'.mp fun hnone => Dict.get?_eq_none_iff.mp hnone e.mem
      obtain ⟨d', hmove⟩ : ∃ d', d.move e.name new = some d' := by
        refine ⟨⟨d.maxFilename, Dict.set (Dict.erase d.entries e.name) new entry,
          nodup_rename d.nodup e.name new entry, short_rename d.short e.name hshort entry⟩, ?_⟩
        exact move_eq_some_iff.mpr ⟨entry, hentry, hshort, fun _ => hnone, rfl, rfl⟩
      refine ⟨changeName_idempotent unidecode, n + 1, d', PosixPath.join (PosixPath.dirname e.path) new.val, new,
        ?_, fun extra => ?_⟩
      · refine ⟨Or.inr ⟨moved_of_move hmove hnone, rfl⟩, PosixPath.basename_join new.2 _,
          PosixPath.dirname_join_dirname new.2 _, hallowedNew, ?_⟩
        rwa [← byteLength_of_allowed hallowedNew]
      · rw [hcall, moveTo_eq_ok_iff.mpr ⟨hmove, rfl⟩]

end Changed

section Example

-- One character of the package that is not of ASCII.
def decodeChar (c : Char) : Str :=
  if c.toNat < 128 then [c] else if c = '北' then "Bei ".toList else []

theorem flatMap_decodeChar {s : Str} (h : ∀ c ∈ s, c.toNat < 128) : s.flatMap decodeChar = s := by
  induction s with
  | nil => rfl
  | cons c s ih =>
      obtain ⟨hc, hs⟩ := List.forall_mem_cons.mp h
      rw [List.flatMap_cons, ih hs, decodeChar, if_pos hc, List.singleton_append]

def unidecodeBei : Unidecode := ⟨fun s => s.flatMap decodeChar, fun _ => flatMap_decodeChar⟩

-- A file whose name has a long extension, of which unidecode makes a longer one.

def beiText : Str := "1.".toList ++ List.replicate 80 '北'

theorem beiText_name : beiText ≠ [] ∧ '/' ∉ beiText := by decide +kernel

def beiName : Name := ⟨beiText, beiText_name⟩

theorem beiName_short : ∀ name ∈ [beiName], byteLength name.val ≤ 255 := by decide +kernel

def beiDirectory : Directory Unit := ⟨255, [(beiName, .file ())], List.nodup_singleton _, beiName_short⟩

def beiPath : EntryPath beiDirectory where
  path := "/t/objects/".toList ++ beiText
  name := beiName
  basename := PosixPath.basename_append beiName.2.2 "/t/objects".toList
  mem := List.mem_singleton_self _

theorem long_extension_fails :
    changePath (fun _ => false) beiDirectory unidecodeBei beiPath.path 1 = some (.error .osError) ∧
      ¬ Contract unidecodeBei (fun _ => false) beiDirectory beiPath := by
  have hmem : '北' ∈ beiPath.name.val :=
    List.mem_append_right _ (List.mem_replicate.mpr ⟨by decide, rfl⟩)
  have hbei : allowed '北' ≠ true := by decide
  have hallowed : ¬ Allowed beiPath.name.val := fun h => hbei (h '北' hmem)
  have hroom : ¬ suffixLength (changeName unidecodeBei.decode beiPath.name) 0 ≤ beiDirectory.maxFilename := by
    decide +kernel
  have hsome : (free (fun _ => false) beiDirectory (changeName unidecodeBei.decode beiPath.name) 0).isSome = true := by
    decide +kernel
  obtain ⟨new, hfree⟩ := Option.isSome_iff_exists.mp hsome
  have hcall := changePath_of_no_room hallowed hfree (fun _ h => absurd h (Nat.not_lt_zero _)) hroom
  refine ⟨hcall 0, ?_⟩
  rintro ⟨-, fuel, d', path', new', -, hreturns⟩
  have hsame := (hcall fuel).symm.trans (Nat.add_comm fuel 1 ▸ hreturns 1)
  cases hsame

end Example

end Ccp.Worker.ChangePath
