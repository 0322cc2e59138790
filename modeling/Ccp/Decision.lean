import Ccp.Uuid

namespace Ccp

-- One selectable answer. The value is a name and its replacement text, empty
-- for the choice of a chain.
structure Choice where
  label : Str
  value : Str × Str
  nextLink : UUID
deriving DecidableEq

-- What a decision holds from its creation on. Its lock, its channel and its
-- resolved flag are the state of the machine in Decision.Resolve.
structure Decision where
  id : UUID
  name : Str
  choices : List Choice
  jobID : UUID
deriving DecidableEq

end Ccp
