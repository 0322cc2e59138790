import Ccp.Lib.GoMap
import Ccp.Uuid

namespace Ccp.Workflow

open Lib

abbrev I18nField := GoMap Str Str

def I18nField.string (f : I18nField) : Str := (f.lookup "en".toList).getD []

structure Chain where
  id : UUID
  description : I18nField
  linkID : UUID

-- A link id that is missing or null is none here, unlike an explicit nil UUID.
structure LinkExitCode where
  jobStatus : String
  linkID : Option UUID
deriving DecidableEq

structure ConfigReplacement where
  id : UUID
  description : I18nField
  items : GoMap Str Str

structure LinkStandardTaskConfig where
  arguments : Str
  execute : Str
  filterFileEnd : Str
  filterSubdir : Str
  stderrFile : Str
  stdoutFile : Str
deriving DecidableEq

-- The configuration that UnmarshalJSON builds from the @model of the link.
inductive LinkConfig
  | microServiceChainChoice (choices : List UUID)
  | microServiceChoiceReplacementDic (replacements : List ConfigReplacement)
  | standardTaskConfig (config : LinkStandardTaskConfig)
  | taskConfigSetUnitVariable (name : Str) (linkID : UUID)
  | taskConfigUnitVariableLinkPull (name : Str) (linkID : UUID)

-- The @manager is a text of its own: nothing ties it to the model.
structure Link where
  id : UUID
  manager : String
  config : LinkConfig
  description : I18nField
  exitCodes : GoMap Int LinkExitCode
  fallbackJobStatus : String
  fallbackLinkID : UUID
  group : I18nField
  ends : Bool

-- What LoadFromJSON accepts: every chain and link knows the id it stands under.
structure Document where
  chains : GoMap UUID Chain
  links : GoMap UUID Link
  chains_id : ∀ id chain, chains.lookup id = some chain → chain.id = id
  links_id : ∀ id link, links.lookup id = some link → link.id = id

theorem chains_id_empty :
    ∀ id chain, (∅ : GoMap UUID Chain).lookup id = some chain → chain.id = id :=
  GoMap.forall_lookup_empty

theorem links_id_empty : ∀ id link, (∅ : GoMap UUID Link).lookup id = some link → link.id = id :=
  GoMap.forall_lookup_empty

-- A preconfigured choice of the processing configuration.
structure Choice where
  appliesTo : Str
  goToChain : Str
deriving DecidableEq

-- The nil UUID where the text is not a UUID.
def Choice.linkID (c : Choice) : UUID := (UUID.parse c.appliesTo).getD UUID.nil

end Ccp.Workflow
