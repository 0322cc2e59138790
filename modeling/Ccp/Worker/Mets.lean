import Ccp.Lib.Dict
import Ccp.Lib.PosixPath
import Ccp.Lib.Text
import Ccp.Uuid

namespace Ccp.Worker.Mets

open Lib PosixPath

-- What a directory holds, in the order in which it is listed. A link to a directory
-- is listed as a directory and not walked, every other link is a file.
inductive Entries
  | nil
  | file (name : Str) (rest : Entries)
  | link (name : Str) (rest : Entries)
  | dir (name : Str) (sub : Entries) (rest : Entries)
deriving DecidableEq

namespace Entries

def files : Entries → List Str
  | nil => []
  | file name rest => name :: rest.files
  | link _ rest => rest.files
  | dir _ _ rest => rest.files

-- The directories below, each by the names that lead to it.
def dirs : Entries → List (List Str)
  | nil => []
  | file _ rest => rest.dirs
  | link _ rest => rest.dirs
  | dir name sub rest => [name] :: sub.dirs.map (name :: ·) ++ rest.dirs

-- The operating system has no other names.
def Named : Entries → Prop
  | nil => True
  | file name rest => Name name ∧ rest.Named
  | link name rest => Name name ∧ rest.Named
  | dir name sub rest => Name name ∧ sub.Named ∧ rest.Named

end Entries

inductive ItemType
  | dir
  | file
deriving DecidableEq

structure FSItem where
  type : ItemType
  path : Str
  isEmpty : Bool
deriving DecidableEq

-- One turn of the loop over os.walk, with the root made relative.
def listing (baseDirectoryPath root : Str) (entries : Entries) : List FSItem :=
  let root := replaceFirst baseDirectoryPath [] root
  ⟨.dir, root, entries = .nil⟩ :: entries.files.map fun name => ⟨.file, join root name, false⟩

-- The turns for the directories below one that has had its own.
def walk (baseDirectoryPath top : Str) : Entries → List FSItem
  | .nil => []
  | .file _ rest => walk baseDirectoryPath top rest
  | .link _ rest => walk baseDirectoryPath top rest
  | .dir name sub rest =>
      listing baseDirectoryPath (join top name) sub ++
        walk baseDirectoryPath (join top name) sub ++ walk baseDirectoryPath top rest

def getPathsAsFsitems (baseDirectoryPath objectsDirectoryPath : Str) (entries : Entries) :
    List FSItem :=
  listing baseDirectoryPath objectsDirectoryPath entries ++
    walk baseDirectoryPath objectsDirectoryPath entries

inductive DivType
  | directory
  | item
deriving DecidableEq

-- A div element, its children in the order of the document.
inductive Div
  | mk (type : DivType) (label : Str) (dmdID : Option Str) (children : List Div)

namespace Div

def add (new : List Div) : Div → Div
  | mk type label dmdID children => mk type label dmdID (children ++ new)

def size : Div → Nat
  | mk _ _ _ children => children.length

-- An element is known by the positions that lead to it: they stay the same, new
-- elements are always the last of their parent.
def modifyAt : List Nat → (Div → Div) → Div → Div
  | [], f, d => f d
  | i :: address, f, mk type label dmdID children =>
      mk type label dmdID (children.modify i (modifyAt address f))

def at? : List Nat → Div → Option Div
  | [], d => some d
  | i :: address, mk _ _ _ children => (children[i]?).bind (at? address)

end Div

structure Build where
  root : Div
  pathToEl : Dict Str (List Nat)
  globalDmdSecCounter : Nat
  dmdSecs : List Str

def dmdSecID (n : Nat) : Str := "dmdSec_".toList ++ (toString n).toList

def transfers : Str := "objects/metadata/transfers/".toList

def DivType.of : ItemType → DivType
  | .dir => .directory
  | .file => .item

-- One turn of add_normative_structmap_div, without a result where the path of the
-- parent is not a key. An empty directory gets a section, and is left out of the
-- keys below objects/metadata/transfers.
def addDiv (b : Build) (item : FSItem) : Option Build :=
  (Dict.get? b.pathToEl (dirname item.path)).bind fun parent =>
    (b.root.at? parent).map fun parentEl =>
      let el := parent ++ [parentEl.size]
      let div (dmdID : Option Str) := Div.mk (.of item.type) (basename item.path) dmdID []
      if item.isEmpty then
        if transfers.isPrefixOf item.path then
          { b with root := b.root.modifyAt parent (·.add [div none]) }
        else
          let dmdID := dmdSecID (b.globalDmdSecCounter + 1)
          { root := b.root.modifyAt parent (·.add [div (some dmdID)])
            pathToEl := Dict.set b.pathToEl item.path el
            globalDmdSecCounter := b.globalDmdSecCounter + 1
            dmdSecs := b.dmdSecs ++ [dmdID] }
      else
        { b with
          root := b.root.modifyAt parent (·.add [div none])
          pathToEl := Dict.set b.pathToEl item.path el }

def addNormativeStructmapDiv (items : List FSItem) (b : Build) : Option Build := items.foldlM addDiv b

structure StructMap where
  type : Str
  label : Str
  divs : List Div

def normativeLabel : Str := "Normative Directory Structure".toList

-- The counter of the sections goes on from the one that is given.
def getNormativeStructmap (baseDirectoryPath objectsDirectoryPath : Str) (entries : Entries)
    (globalDmdSecCounter : Nat) : Option StructMap :=
  let label := basename (baseDirectoryPath.reverse.dropWhile (· = '/')).reverse
  let b := ⟨.mk .directory label none [], [([], [])], globalDmdSecCounter, []⟩
  (addNormativeStructmapDiv (getPathsAsFsitems baseDirectoryPath objectsDirectoryPath entries) b).map
    fun b => ⟨"logical".toList, normativeLabel, [b.root]⟩

end Ccp.Worker.Mets
