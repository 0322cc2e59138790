import Ccp.Lib.FilePath

namespace Ccp.Lib.WalkDir

-- What a directory holds, in the order in which it is read. A link is a file that is not
-- a regular one, and is not followed.
inductive Entries
  | nil
  | file (name : List Char) (regular : Bool) (rest : Entries)
  -- with the error of reading it, if it has one
  | dir (name : List Char) (err : Option String) (sub : Entries) (rest : Entries)

-- What the path of the walk leads to.
inductive Root
  | missing (err : String)
  | file (regular : Bool)
  | dir (err : Option String) (entries : Entries)

-- A call of the function of the walk, for what is not a directory.
structure Visit where
  path : List Char
  name : List Char
  regular : Bool
deriving DecidableEq

-- filepath.WalkDir with a function that passes on every error that it is given.
def Entries.visits (path : List Char) : Entries → Except String (List Visit)
  | nil => .ok []
  | file name regular rest =>
      (rest.visits path).map (⟨FilePath.join [path, name], name, regular⟩ :: ·)
  | dir name err sub rest =>
      match err with
      | some err => .error err
      | none => do
          let below ← sub.visits (FilePath.join [path, name])
          let after ← rest.visits path
          return below ++ after

def Root.visits (path : List Char) : Root → Except String (List Visit)
  | missing err => .error err
  | file regular => .ok [⟨path, FilePath.base path, regular⟩]
  | dir (some err) _ => .error err
  | dir none entries => entries.visits path

-- The regular files, whatever can be read of them.
def Entries.regulars (path : List Char) : Entries → List Visit
  | nil => []
  | file name regular rest =>
      if regular then ⟨FilePath.join [path, name], name, true⟩ :: rest.regulars path
      else rest.regulars path
  | dir name _ sub rest => sub.regulars (FilePath.join [path, name]) ++ rest.regulars path

def Root.regulars (path : List Char) : Root → List Visit
  | missing _ => []
  | file regular => if regular then [⟨path, FilePath.base path, true⟩] else []
  | dir _ entries => entries.regulars path

end Ccp.Lib.WalkDir
