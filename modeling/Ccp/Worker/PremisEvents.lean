import Ccp.Lib.Calls
import Ccp.Lib.Dict
import Ccp.Worker.MetadataCSV
import Mathlib.Data.List.Dedup

namespace Ccp.Worker.PremisEvents

open Lib

-- The type and the value of an identifier.
abbrev Identifier := Str × Str

structure DateTime where
  wall : ℤ
  tzinfo : Option Str
deriving DecidableEq

-- The elements of a document, as metsrw gives them.

structure PremisFile where
  identifier : Identifier
  originalName : Option Str
  linkingEventIdentifier : List Identifier
deriving DecidableEq

structure PremisAgent where
  identifier : Identifier
  name : Option Str
  type : Option Str
  linkingEventIdentifier : List Identifier
deriving DecidableEq

structure PremisEvent where
  identifier : Identifier
  type : Str
  dateTime : Option Str
  eventDetail : List (Option Str)
  eventOutcome : List (Option Str)
  eventOutcomeDetailNote : List (Option Str)
  linkingObjectIdentifier : List Identifier
  linkingAgentIdentifier : List Identifier
deriving DecidableEq

structure Document where
  files : List PremisFile
  agents : List PremisAgent
  events : List PremisEvent

-- The file at the path: there is none, get_xml_tree gives None for it, or it is accepted.
inductive Tree
  | missing
  | invalid
  | accepted (doc : Document)

-- The arguments; a text that is no UUID is no transfer to look for.
structure Job where
  transfer : Option UUID
  tree : Tree

-- The rows of the database.

-- File as far as it is looked for.
structure File where
  uuid : UUID
  originalLocation : Str
  transfer : Option UUID

structure Agent where
  identifierType : Str
  identifierValue : Str
  name : Option Str
  agentType : Option Str
deriving DecidableEq

-- An event with the keys of its agents.
structure Event where
  eventID : Option UUID
  fileUUID : UUID
  eventType : Str
  eventDatetime : DateTime
  eventDetail : Str
  eventOutcome : Str
  eventOutcomeDetail : Str
  agents : List ℕ
deriving DecidableEq

-- The key of an agent is its place. The column of the identifiers of events is unique.
structure Db where
  agents : List Agent
  events : List Event
  unique : (events.filterMap Event.eventID).Nodup

def Db.hasEvent (db : Db) (u : UUID) : Bool := db.events.any (·.eventID = some u)

theorem Db.hasEvent_eq_false {db : Db} {u : UUID} :
    db.hasEvent u = false ↔ u ∉ db.events.filterMap Event.eventID := by
  simp [Db.hasEvent]

theorem Db.unique_append (db : Db) {e : Event} {u : UUID} (he : e.eventID = some u)
    (hu : db.hasEvent u = false) : ((db.events ++ [e]).filterMap Event.eventID).Nodup := by
  rw [List.filterMap_append, List.filterMap_cons_some he, List.filterMap_nil,
    List.nodup_append_comm, List.singleton_append, List.nodup_cons]
  exact ⟨Db.hasEvent_eq_false.mp hu, db.unique⟩

inductive Failure
  | validationError
  | doesNotExist
  | multipleObjectsReturned
  | databaseError
deriving DecidableEq

inductive Status
  | SUCCESS
  | FAILURE
deriving DecidableEq

-- dateparse, which raises ValueError for a text of the right form that is no date, the zone of
-- the settings, the order in which a set is gone through, uuid.UUID, uuid.uuid4, the clock, the
-- files, which agents are equal to the database, and what it refuses to save.
structure Env where
  dateparseDatetime : Str → Except Unit (Option DateTime)
  dateparseDate : Str → Except Unit (Option ℤ)
  defaultTimezone : Str
  arrange : List Identifier → List Identifier
  arrange_perm : ∀ s, (arrange s).Perm s
  uuid : Str → Option UUID
  uuid4 : ℕ → UUID
  now : ℕ → DateTime
  files : List File
  collates : Agent → Agent → Bool
  refusesAgent : Agent → Bool
  refusesEvent : Event → Bool

-- The database, and how many identifiers were drawn.
structure State where
  db : Db
  drawn : ℕ

variable (env : Env)

def Env.matches (a b : Agent) : Bool := a = b || env.collates a b

def parseDatetime (value : Str) : Except Unit (Option DateTime) := do
  let parsed ← match ← env.dateparseDatetime value with
    | some parsed => pure (some parsed)
    | none => do
        let parsed ← env.dateparseDate value
        pure (parsed.map fun date => ⟨date, none⟩)
  if value ≠ [] ∧ parsed = none then throw ()
  pure (parsed.map fun datetime => ⟨datetime.wall, some (datetime.tzinfo.getD env.defaultTimezone)⟩)

-- A set, as its members in some order.
def toSet (identifiers : List Identifier) : List Identifier :=
  identifiers.foldl (fun result identifier => result.insert identifier) []

-- get_premis_element_children_text_attribute, where an empty text is no text.
def childrenText (texts : List (Option Str)) : Str := [' '].intercalate (texts.filterMap id)

structure FileAttributes where
  identifier : Identifier
  originalName : Str
  events : List Identifier
deriving DecidableEq

structure AgentAttributes where
  identifier : Identifier
  name : Option Str
  type : Option Str
  events : List Identifier
deriving DecidableEq

-- What the dictionary of an event leaves out is empty, as the columns without it are.
structure EventAttributes where
  identifier : Identifier
  eventID : Str
  eventType : Str
  eventDatetime : Option DateTime
  eventDetail : Str
  eventOutcome : Str
  eventOutcomeDetail : Str
  files : List Identifier
  agents : List Identifier
deriving DecidableEq

def fileElementFactory (element : PremisFile) : FileAttributes where
  identifier := element.identifier
  originalName := (element.originalName.map strip).getD []
  events := toSet element.linkingEventIdentifier

def agentElementFactory (element : PremisAgent) : AgentAttributes where
  identifier := element.identifier
  name := element.name
  type := element.type
  events := toSet element.linkingEventIdentifier

-- A time that cannot be read is left out.
def eventDatetime (dateTime : Option Str) : Option DateTime :=
  match dateTime with
  | none | some [] => none
  | some value => (parseDatetime env value).toOption.join

def eventElementFactory (element : PremisEvent) : EventAttributes where
  identifier := element.identifier
  eventID := element.identifier.2
  eventType := element.type
  eventDatetime := eventDatetime env element.dateTime
  eventDetail := childrenText element.eventDetail
  eventOutcome := childrenText element.eventOutcome
  eventOutcomeDetail := childrenText element.eventOutcomeDetailNote
  files := toSet element.linkingObjectIdentifier
  agents := toSet element.linkingAgentIdentifier

-- The dictionary of the elements by their identifiers.
def getElements {α β : Type} (elementFactory : α → β) (identifier : α → Identifier)
    (elements : List α) : Dict Identifier β :=
  elements.foldl (fun result e => Dict.set result (identifier e) (elementFactory e)) []

def getFiles (doc : Document) : Dict Identifier FileAttributes :=
  getElements fileElementFactory PremisFile.identifier doc.files

def getAgents (doc : Document) : Dict Identifier AgentAttributes :=
  getElements agentElementFactory PremisAgent.identifier doc.agents

def getEvents (doc : Document) : Dict Identifier EventAttributes :=
  getElements (eventElementFactory env) PremisEvent.identifier doc.events

def transferOriginalLocationPrefix : Str := "%transferDirectory%".toList

-- file_queryset, and what it finds under a name.
def fileQueryset (transfer : UUID) : List File := env.files.filter (·.transfer = some transfer)

def namedFiles (fileQueryset : List File) (originalName : Str) : List File :=
  fileQueryset.filter (·.originalLocation = transferOriginalLocationPrefix ++ originalName)

def getInvalidFileIdentifiers (files : Dict Identifier FileAttributes)
    (fileQueryset : List File) : List Identifier :=
  (files.filter fun item => item.2.originalName = [] ||
    (namedFiles fileQueryset item.2.originalName).isEmpty).map Prod.fst

def keys {β : Type} (d : Dict Identifier β) : List Identifier := d.map Prod.fst

-- print_unrelated_files and print_unrelated_agents: keys that are in none of the sets.
def unrelated (identifiers : List Identifier) (sets : List (List Identifier)) : Bool :=
  identifiers.any fun identifier => !sets.any (·.contains identifier)

def printUnrelatedFiles (files : Dict Identifier FileAttributes)
    (events : Dict Identifier EventAttributes) : Bool :=
  unrelated (keys files) (events.map (·.2.files))

def printUnrelatedAgents (agents : Dict Identifier AgentAttributes)
    (events : Dict Identifier EventAttributes) : Bool :=
  unrelated (keys agents) (events.map (·.2.agents))

def printUnrelatedEvents (events : Dict Identifier EventAttributes) : Bool :=
  events.any fun item => item.2.files = [] || item.2.agents = []

def printUnrelatedElements (files : Dict Identifier FileAttributes)
    (agents : Dict Identifier AgentAttributes) (events : Dict Identifier EventAttributes) : Bool :=
  printUnrelatedFiles files events || printUnrelatedAgents agents events ||
    printUnrelatedEvents events

-- The four searches for a member of a set that is no key.
def nonexistent (sets : List (List Identifier)) (identifiers : List Identifier) : Bool :=
  sets.any fun s => s.any fun identifier => !identifiers.contains identifier

def printFilesRelatedToNonexistentEvents (files : Dict Identifier FileAttributes)
    (events : Dict Identifier EventAttributes) : Bool :=
  nonexistent (files.map (·.2.events)) (keys events)

def printAgentsRelatedToNonexistentEvents (agents : Dict Identifier AgentAttributes)
    (events : Dict Identifier EventAttributes) : Bool :=
  nonexistent (agents.map (·.2.events)) (keys events)

def printEventsRelatedToNonexistentFiles (events : Dict Identifier EventAttributes)
    (files : Dict Identifier FileAttributes) : Bool :=
  nonexistent (events.map (·.2.files)) (keys files)

def printEventsRelatedToNonexistentAgents (events : Dict Identifier EventAttributes)
    (agents : Dict Identifier AgentAttributes) : Bool :=
  nonexistent (events.map (·.2.agents)) (keys agents)

def printNonexistentReferences (files : Dict Identifier FileAttributes)
    (agents : Dict Identifier AgentAttributes) (events : Dict Identifier EventAttributes) : Bool :=
  printFilesRelatedToNonexistentEvents files events ||
    printAgentsRelatedToNonexistentEvents agents events ||
    printEventsRelatedToNonexistentFiles events files ||
    printEventsRelatedToNonexistentAgents events agents

-- relate_files_to_events and relate_agents_to_events: the identifier is added to a set of
-- each event it names, if there is such an event.
def relate (add : Identifier → EventAttributes → EventAttributes)
    (links : List (Identifier × List Identifier)) (events : Dict Identifier EventAttributes) :
    Dict Identifier EventAttributes :=
  links.foldl (fun events link => link.2.foldl (fun events eventIdentifier =>
    Dict.modify events eventIdentifier (add link.1)) events) events

def addFile (identifier : Identifier) (event : EventAttributes) : EventAttributes :=
  { event with files := event.files.insert identifier }

def addAgent (identifier : Identifier) (event : EventAttributes) : EventAttributes :=
  { event with agents := event.agents.insert identifier }

def relateFilesToEvents (files : Dict Identifier FileAttributes) :
    Dict Identifier EventAttributes → Dict Identifier EventAttributes :=
  relate addFile (files.map fun item => (item.1, item.2.events))

def relateAgentsToEvents (agents : Dict Identifier AgentAttributes) :
    Dict Identifier EventAttributes → Dict Identifier EventAttributes :=
  relate addAgent (agents.map fun item => (item.1, item.2.events))

def getEventAgents (event : EventAttributes) (agents : Dict Identifier AgentAttributes) :
    List AgentAttributes :=
  (env.arrange (event.agents.filter (keys agents).contains)).filterMap (Dict.get? agents)

def getEventFiles (event : EventAttributes) (files : Dict Identifier FileAttributes)
    (fileIdentifiersToIgnore : List Identifier) : List FileAttributes :=
  (env.arrange ((event.files.filter (keys files).contains).filter
    fun identifier => !fileIdentifiersToIgnore.contains identifier)).filterMap (Dict.get? files)

structure ValidEvent where
  eventAgents : List AgentAttributes
  eventFiles : List FileAttributes
  event : EventAttributes
deriving DecidableEq

-- The body of the loop of get_valid_events.
def validEvent (files : Dict Identifier FileAttributes) (agents : Dict Identifier AgentAttributes)
    (fileIdentifiersToIgnore : List Identifier) (event : EventAttributes) : Option ValidEvent :=
  if getEventAgents env event agents = [] then none
  else if getEventFiles env event files fileIdentifiersToIgnore = [] then none
  else some ⟨getEventAgents env event agents,
    getEventFiles env event files fileIdentifiersToIgnore, event⟩

def getValidEvents (files : Dict Identifier FileAttributes)
    (agents : Dict Identifier AgentAttributes) (events : Dict Identifier EventAttributes)
    (fileIdentifiersToIgnore : List Identifier) : List ValidEvent × Bool :=
  (events.filterMap fun item => validEvent env files agents fileIdentifiersToIgnore item.2,
    events.any fun item => (validEvent env files agents fileIdentifiersToIgnore item.2).isNone)

def AgentAttributes.row (agent : AgentAttributes) : Agent where
  identifierType := agent.identifier.1
  identifierValue := agent.identifier.2
  name := agent.name
  agentType := agent.type

-- The keys of the agents that the database finds for the values.
def Db.lookUp (db : Db) (agent : Agent) : List ℕ :=
  (List.range db.agents.length).filter fun pk => db.agents[pk]?.any (env.matches agent)

def getOrCreate (agent : Agent) : EStateM Failure State ℕ := do
  let s ← get
  match s.db.lookUp env agent with
  | [] =>
      if env.refusesAgent agent then throw .databaseError
      set { s with db := { s.db with agents := s.db.agents ++ [agent] } }
      pure s.db.agents.length
  | [pk] => pure pk
  | _ => throw .multipleObjectsReturned

def getOrCreateAgents : List AgentAttributes → EStateM Failure State (List ℕ)
  | [] => pure []
  | agent :: agents => do
      let dbAgent ← getOrCreate env agent.row
      let result ← getOrCreateAgents agents
      pure (dbAgent :: result)

def newEventID : EStateM Failure State Str := do
  let s ← get
  set { s with drawn := s.drawn + 1 }
  pure (env.uuid4 s.drawn).string

def ensureEventIDIsUUID (eventID : Str) : EStateM Failure State Str := do
  let s ← get
  if ((env.uuid eventID).map s.db.hasEvent).getD true then newEventID env else pure eventID

-- file_queryset.get.
def getFile (fileQueryset : List File) (originalName : Str) : EStateM Failure State File :=
  match namedFiles fileQueryset originalName with
  | [] => throw .doesNotExist
  | [file] => pure file
  | _ => throw .multipleObjectsReturned

-- Event.objects.create, the links to the agents and the time of the event: nothing is read
-- between the three.
def createEvent (row : Event) (u : UUID) (hrow : row.eventID = some u) :
    EStateM Failure State Unit := do
  let s ← get
  if h : s.db.hasEvent u = false then
    if env.refusesEvent row then throw .databaseError
    set { s with db := ⟨s.db.agents, s.db.events ++ [row], s.db.unique_append hrow h⟩ }
  else throw .databaseError

def EventAttributes.row (event : EventAttributes) (u : UUID) (file : File) (now : DateTime)
    (dbAgents : List ℕ) : Event where
  eventID := some u
  fileUUID := file.uuid
  eventType := event.eventType
  eventDatetime := event.eventDatetime.getD now
  eventDetail := event.eventDetail
  eventOutcome := event.eventOutcome
  eventOutcomeDetail := event.eventOutcomeDetail
  agents := dbAgents.dedup

-- The body of the inner loop of save_events, with the identifier the event has by now.
def saveEvent (fileQueryset : List File) (event : EventAttributes) (dbAgents : List ℕ)
    (eventID : Str) (file : FileAttributes) : EStateM Failure State Str := do
  let dbFile ← getFile fileQueryset file.originalName
  let eventID ← ensureEventIDIsUUID env eventID
  let s ← get
  match env.uuid eventID with
  | none => throw .validationError
  | some u => do
      createEvent env (event.row u dbFile (env.now s.db.events.length) dbAgents) u rfl
      pure eventID

-- The inner loop.
def saveFiles (fileQueryset : List File) (event : EventAttributes) (dbAgents : List ℕ) :
    Str → List FileAttributes → EStateM Failure State Unit
  | _, [] => pure ()
  | eventID, file :: files => do
      let eventID ← saveEvent env fileQueryset event dbAgents eventID file
      saveFiles fileQueryset event dbAgents eventID files

def saveEvents (fileQueryset : List File) : List ValidEvent → EStateM Failure State Unit
  | [] => pure ()
  | valid :: validEvents => do
      let dbAgents ← getOrCreateAgents env valid.eventAgents
      saveFiles env fileQueryset valid.event dbAgents valid.event.eventID valid.eventFiles
      saveEvents fileQueryset validEvents

-- The events of the document after they have been related to its files and agents.
def relatedEvents (doc : Document) : Dict Identifier EventAttributes :=
  relateAgentsToEvents (getAgents doc) (relateFilesToEvents (getFiles doc) (getEvents env doc))

-- main from the dictionaries on.
def importDocument (doc : Document) (fileQueryset : List File) :
    EStateM Failure State Status := do
  let files := getFiles doc
  let agents := getAgents doc
  let invalidFileIdentifiers := getInvalidFileIdentifiers files fileQueryset
  let events := relatedEvents env doc
  let validEvents := getValidEvents env files agents events invalidFileIdentifiers
  if printUnrelatedElements files agents events || printNonexistentReferences files agents events ||
      validEvents.2 then
    pure .FAILURE
  else do
    saveEvents env fileQueryset validEvents.1
    pure .SUCCESS

def main (job : Job) : EStateM Failure State Status :=
  match job.tree, job.transfer with
  | .missing, _ => pure .SUCCESS
  | _, none => throw .validationError
  | .invalid, some _ => pure .FAILURE
  | .accepted doc, some transfer => importDocument env doc (fileQueryset env transfer)

-- A job of call: the transaction takes back what was saved before an exception, and the
-- status is set if there was none.
def callJob (job : Job) (s : State) : Option Status × State :=
  match main env job s with
  | .ok status s' => (some status, s')
  | .error _ s' => (none, { s' with db := s.db })

end Ccp.Worker.PremisEvents
