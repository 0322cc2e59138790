import Ccp.Lib.Dict
import Ccp.Lib.Numbering
import Ccp.Worker.ChangeNames
import Mathlib.Algebra.Order.Ring.Nat

namespace Ccp.Worker.ChangePath

open Lib FileOperations ChangeNames

-- unidecode is a package of its own that leaves ASCII as it is.
structure Unidecode where
  decode : Str → Str
  decode_of_ascii : ∀ s : Str, (∀ c ∈ s, c.toNat < 128) → decode s = s

-- What a name of a directory stands for. A link has the path of its target.
inductive Entry (α : Type*)
  | file (content : α)
  | directory (content : α)
  | link (target : Str)
deriving DecidableEq

def Entry.isDirectory {α : Type*} : Entry α → Bool
  | directory _ => true
  | file _ | link _ => false

-- The length of a name as the file system counts it.
def byteLength (s : Str) : ℕ := (s.map Char.utf8Size).sum

-- maxFilename is what os.pathconf gives for it, which every caller passes on.
@[ext] structure Directory (α : Type*) where
  maxFilename : ℕ
  entries : Dict Name (Entry α)
  nodup : (entries.map Prod.fst).Nodup
  short : ∀ name ∈ entries.map Prod.fst, byteLength name.val ≤ maxFilename

section Move

variable {α : Type*}

theorem nodup_rename {entries : Dict Name (Entry α)} (h : (entries.map Prod.fst).Nodup) (old new : Name)
    (entry : Entry α) : ((Dict.set (Dict.erase entries old) new entry).map Prod.fst).Nodup :=
  Dict.keys_set_nodup (h.sublist (List.filter_sublist.map _)) new entry

theorem short_rename {entries : Dict Name (Entry α)} {maxFilename : ℕ}
    (h : ∀ name ∈ entries.map Prod.fst, byteLength name.val ≤ maxFilename) (old : Name) {new : Name}
    (hnew : byteLength new.val ≤ maxFilename) (entry : Entry α) :
    ∀ name ∈ (Dict.set (Dict.erase entries old) new entry).map Prod.fst, byteLength name.val ≤ maxFilename := by
  intro name hname
  by_cases hsame : name = new
  · rwa [hsame]
  · refine h name ?_
    by_contra hnone
    refine absurd hname (Dict.get?_eq_none_iff.mp ?_)
    rw [Dict.get?_set, if_neg (Ne.symm hsame), Dict.get?_erase, Dict.get?_eq_none_iff.mpr hnone, ite_self]

-- shutil.move to a name under which there is nothing, or a link to nothing. A link is replaced, but
-- not by a directory. A name that is too long is refused.
def Directory.move (d : Directory α) (old new : Name) : Option (Directory α) :=
  if h : byteLength new.val ≤ d.maxFilename then
    (Dict.get? d.entries old).bind fun entry =>
      if entry.isDirectory && (Dict.get? d.entries new).isSome then none
      else
        some
          { maxFilename := d.maxFilename
            entries := Dict.set (Dict.erase d.entries old) new entry
            nodup := nodup_rename d.nodup old new entry
            short := short_rename d.short old h entry }
  else none

end Move

section Search

-- Whether there is something at the target of a link.
variable {α : Type*} (reaches : Str → Bool) (d : Directory α) (changedName : Name)

-- os.path.exists, which follows a link.
def Directory.exists (name : Name) : Bool :=
  match Dict.get? d.entries name with
  | none => false
  | some (.link target) => reaches target
  | some (.file _) | some (.directory _) => true

-- The n-th name that is tried, where nothing is found under it.
def free (n : ℕ) : Option Name :=
  (entryName (candidate d.maxFilename changedName n)).filter fun name => !d.exists reaches name

-- The loop of change_path, which has tried n names. Nothing where the fuel ends.
def search : (fuel n : ℕ) → Option Name
  | 0, _ => none
  | fuel + 1, n =>
      match free reaches d changedName n with
      | some name => some name
      | none => search fuel (n + 1)

inductive PyError
  | valueError
  | osError
deriving DecidableEq

def basenameOf (path : Str) : Option Name :=
  if h : PosixPath.basename path = [] then none
  else some ⟨PosixPath.basename path, h, PosixPath.slash_notMem_basename path⟩

def moveTo (path : Str) (basename name : Name) : Except PyError (Directory α × Str) :=
  (d.move basename name).elim (.error .osError) fun d' =>
    .ok (d', PosixPath.join (PosixPath.dirname path) name.val)

-- The directory is the one that the path leads to without its last element.
def changePath (unidecode : Unidecode) (path : Str) (fuel : ℕ) : Option (Except PyError (Directory α × Str)) :=
  match basenameOf path with
  | none => some (.error .valueError)
  | some basename =>
      if basename = changeName unidecode.decode basename then some (.ok (d, path))
      else
        (search reaches d (changeName unidecode.decode basename) fuel 0).map (moveTo d path basename)

end Search

section Contract

variable {α : Type*}

-- The path of an entry of a directory.
structure EntryPath (d : Directory α) where
  path : Str
  name : Name
  basename : PosixPath.basename path = name.val
  mem : name ∈ d.entries.map Prod.fst

-- The entry has another name, under which there was nothing, and all others are as they were.
structure Moved (d d' : Directory α) (old new : Name) : Prop where
  free : Dict.get? d.entries new = none
  get? : ∀ name, Dict.get? d'.entries name =
    if name = new then Dict.get? d.entries old else if name = old then none else Dict.get? d.entries name

def Allowed (s : Str) : Prop := ∀ c ∈ s, allowed c = true

-- The name of the entry at the end.
structure Outcome (d : Directory α) (e : EntryPath d) (d' : Directory α) (path' : Str) (new : Name) : Prop where
  entry : Allowed e.name.val ∧ d' = d ∧ path' = e.path ∨
    Moved d d' e.name new ∧ path' = PosixPath.join (PosixPath.dirname e.path) new.val
  basename : PosixPath.basename path' = new.val
  dirname : PosixPath.dirname path' = PosixPath.dirname e.path
  allowed : Allowed new.val
  length : new.val.length ≤ d.maxFilename

structure Contract (unidecode : Unidecode) (reaches : Str → Bool) (d : Directory α) (e : EntryPath d) : Prop where
  idempotent : ∀ name, changeName unidecode.decode (changeName unidecode.decode name) =
    changeName unidecode.decode name
  returns : ∃ fuel d' path' new, Outcome d e d' path' new ∧
    ∀ extra, changePath reaches d unidecode e.path (fuel + extra) = some (.ok (d', path'))

-- What the n-th name that is tried has after the title.
def suffixLength (changedName : Name) (n : ℕ) : ℕ :=
  (PosixPath.splitext changedName.val).2.length + if n = 0 then 0 else 1 + (Nat.toDigits 10 n).length

-- As long as all names that are tried exist, the extension leaves room for the next number, and no
-- link to nothing has the next name.
structure Clear (unidecode : Unidecode) (reaches : Str → Bool) (d : Directory α) (e : EntryPath d) : Prop where
  room : ¬ Allowed e.name.val → ∀ n, (∀ m < n, free reaches d (changeName unidecode.decode e.name) m = none) →
    suffixLength (changeName unidecode.decode e.name) n ≤ d.maxFilename
  link : ¬ Allowed e.name.val → ∀ n, (∀ m < n, free reaches d (changeName unidecode.decode e.name) m = none) →
    ∀ name target, entryName (candidate d.maxFilename (changeName unidecode.decode e.name) n) = some name →
      Dict.get? d.entries name = some (.link target) → reaches target = true

end Contract

end Ccp.Worker.ChangePath
