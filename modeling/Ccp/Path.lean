import Ccp.Lib.FilePath
import Ccp.Uuid

namespace Ccp

open Lib

-- filepath.Join with the separator that the last element asks for.
def joinPath (elem : List Str) : Str :=
  match elem.getLast? with
  | none => []
  | some last =>
      let ret := FilePath.join elem
      let ret := if last = [] ∨ ['/'].isSuffixOf last then ret ++ ['/'] else ret
      if last = ['.'] then ret ++ ['/', '.'] else ret

end Ccp
