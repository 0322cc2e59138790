import Ccp.Lib.Text
import Ccp.Uuid

namespace Ccp

open Lib

inductive PackageType
  | transfer
  | sip
  | dip
deriving DecidableEq

def PackageType.string : PackageType → Str
  | .transfer => "Transfer".toList
  | .sip => "SIP".toList
  | .dip => "DIP".toList

-- The unit interface: what one kind of package keeps beside the common fields.
inductive PackageUnit
  | transfer (processingConfiguration : Str)
  | sip (sipType aipFilename : Str)
  | dip
deriving DecidableEq

def PackageUnit.packageType : PackageUnit → PackageType
  | .transfer _ => .transfer
  | .sip _ _ => .sip
  | .dip => .dip

structure Package where
  id : UUID
  unit : PackageUnit
  sharedDir : Str
  path : Str
  startAtChainID : UUID
  startAtLinkID : UUID
deriving DecidableEq

namespace Package

def sharedPath : Str := "%sharedPath%".toList

-- Path: the real path, where the package is.
def realPath (p : Package) : Str := replaceFirst sharedPath p.sharedDir p.path

def updatePath (p : Package) (path : Str) : Package :=
  { p with path := replaceFirst sharedPath p.sharedDir path }

def pathForDB (p : Package) : Str := replaceFirst p.sharedDir sharedPath p.path

def packageType (p : Package) : PackageType := p.unit.packageType

def jobUnitType (p : Package) : String :=
  match p.packageType with
  | .transfer => "unitTransfer"
  | .sip => "unitSIP"
  | .dip => "unitDIP"

end Package

inductive PackageStatus
  | unknown
  | processing
  | done
  | completedSuccessfully
  | failed
deriving DecidableEq

end Ccp
