import Ccp.Lib.GoMap
import Ccp.Lib.Text
import Ccp.Path

namespace Ccp

open Lib

namespace Replacement

-- One turn of the loop of replacement.escape.
def escapeChar (char : Char) : Str :=
  if char = '\\' then ['\\', '\\']
  else if char = '"' ∨ char = '`' then ['\\', char]
  else [char]

def escape (r : Str) : Str :=
  (replaceAll r ['\\'] ['\\', '\\']).flatMap escapeChar

def defaultSharedDir : Str := "/var/archivematica/sharedDirectory".toList

-- Paths under a shared directory of the server's own are moved to the one that
-- MCPClient knows.
def toSharedDir (escaped : Str) : Str :=
  if ['/'].isPrefixOf escaped then
    let parts := escaped.splitOn '/'
    if 3 < parts.length ∧ parts[1]? = some "tmp".toList ∧
        "ccp-sharedDir".toList.isPrefixOf (parts.getD 2 []) then
      let moved := joinPath [defaultSharedDir, FilePath.join (parts.drop 3)]
      if ['/'].isSuffixOf escaped then moved ++ ['/'] else moved
    else escaped
  else escaped

-- What replaceValues puts in the place of a key.
def value (r : Str) : Str := toSharedDir (escape r)

end Replacement

abbrev ReplacementMapping := GoMap Str Str

namespace ReplacementMapping

-- The context is an ordered map: its entries come in the order of insertion.
def update (rm : ReplacementMapping) (context : List (Str × Str)) : ReplacementMapping :=
  context.foldl (fun rm el => rm.insert el.1 el.2) rm

def withInput (rm input : ReplacementMapping) : ReplacementMapping := input ∪ rm

-- The loop of replaceValues over the mapping, in the order of this run.
def pairs (order : List (Σ _ : Str, Str)) : List (Str × Str) :=
  order.map fun e => (e.1, Replacement.value e.2)

def replaceValues (order : List (Σ _ : Str, Str)) (input : Str) : Str :=
  if input = [] then [] else replaceEach input (pairs order)

end ReplacementMapping

end Ccp
