import Ccp.Worker.PremisEvents

namespace Ccp.Worker.PremisEvents

open Lib

section Sets

variable {i : Identifier} {s : List Identifier}

theorem mem_foldl_insert (l : List Identifier) :
    i ∈ l.foldl (fun result j => result.insert j) s ↔ i ∈ s ∨ i ∈ l := by
  induction l generalizing s with
  | nil => simp
  | cons j l ih =>
      rw [List.foldl_cons, ih, List.mem_insert_iff, List.mem_cons, or_assoc, or_left_comm]

theorem nodup_foldl_insert (hs : s.Nodup) (l : List Identifier) :
    (l.foldl (fun result j => result.insert j) s).Nodup := by
  induction l generalizing s with
  | nil => exact hs
  | cons j l ih => exact ih hs.insert

theorem mem_toSet {l : List Identifier} : i ∈ toSet l ↔ i ∈ l := by
  rw [toSet, mem_foldl_insert]
  simp

theorem nodup_toSet (l : List Identifier) : (toSet l).Nodup :=
  nodup_foldl_insert List.nodup_nil l

end Sets

section Elements

-- Of the elements with one identifier the last counts.
def lastWith {α : Type} (identifier : α → Identifier) (elements : List α) (i : Identifier) :
    Option α :=
  elements.reverse.find? fun e => identifier e = i

variable {α β : Type} {factory : α → β} {identifier : α → Identifier} {elements : List α}
  {i : Identifier}

theorem get?_getElements : Dict.get? (getElements factory identifier elements) i =
    (lastWith identifier elements i).map factory := by
  rw [getElements, Dict.get?_foldl_set, Dict.get?_nil, Option.or_none]
  rfl

theorem keys_getElements_nodup : (keys (getElements factory identifier elements)).Nodup :=
  Dict.keys_foldl_set_nodup identifier factory elements List.nodup_nil

theorem mem_getElements {v : β} : (i, v) ∈ getElements factory identifier elements ↔
    ∃ e, lastWith identifier elements i = some e ∧ factory e = v := by
  rw [← Dict.get?_eq_some_iff keys_getElements_nodup, get?_getElements, Option.map_eq_some_iff]

-- The links of a kind of elements to events.
theorem mem_links (named : β → List Identifier) (linking : α → List Identifier)
    (hnamed : ∀ e, named (factory e) = toSet (linking e)) {j : Identifier} :
    (∃ link ∈ (getElements factory identifier elements).map fun item => (item.1, named item.2),
      j = link.1 ∧ i ∈ link.2) ↔
        ∃ e, lastWith identifier elements j = some e ∧ i ∈ linking e := by
  constructor
  · rintro ⟨link, hlink, rfl, hi⟩
    obtain ⟨⟨j, v⟩, hitem, rfl⟩ := List.mem_map.mp hlink
    obtain ⟨e, he, rfl⟩ := mem_getElements.mp hitem
    rw [hnamed, mem_toSet] at hi
    exact ⟨e, he, hi⟩
  · rintro ⟨e, he, hi⟩
    refine ⟨(j, named (factory e)), List.mem_map_of_mem (mem_getElements.mpr ⟨e, he, rfl⟩), rfl, ?_⟩
    rwa [hnamed, mem_toSet]

theorem identifier_of_lastWith {e : α} (h : lastWith identifier elements i = some e) :
    identifier e = i := by
  simpa using List.find?_some h

end Elements

section Relate

-- The identifiers that name the event i, put into a set.
def added (links : List (Identifier × List Identifier)) (i : Identifier) (s : List Identifier) :
    List Identifier :=
  links.foldl (fun s link => link.2.foldl (fun s j => if j = i then s.insert link.1 else s) s) s

variable {i k : Identifier} {links : List (Identifier × List Identifier)} {s : List Identifier}

theorem mem_insert_each (named : List Identifier) {s : List Identifier} {j : Identifier} :
    k ∈ named.foldl (fun s j' => if j' = i then s.insert j else s) s ↔
      k ∈ s ∨ k = j ∧ i ∈ named := by
  induction named generalizing s with
  | nil => simp
  | cons j' named ih =>
      rw [List.foldl_cons, ih, List.mem_cons]
      by_cases h : j' = i
      · rw [if_pos h, List.mem_insert_iff]
        simp only [h, true_or, and_true]
        tauto
      · rw [if_neg h]
        simp only [Ne.symm h, false_or]

theorem mem_added : k ∈ added links i s ↔ k ∈ s ∨ ∃ link ∈ links, k = link.1 ∧ i ∈ link.2 := by
  induction links generalizing s with
  | nil => simp [added]
  | cons link links ih =>
      have hcons : added (link :: links) i s = added links i
          (link.2.foldl (fun s j => if j = i then s.insert link.1 else s) s) := rfl
      rw [hcons, ih, mem_insert_each, or_assoc, List.exists_mem_cons_iff]

theorem nodup_insert_each (named : List Identifier) {j : Identifier} (hs : s.Nodup) :
    (named.foldl (fun s j' => if j' = i then s.insert j else s) s).Nodup := by
  induction named generalizing s with
  | nil => exact hs
  | cons j' named ih =>
      rw [List.foldl_cons]
      split_ifs
      · exact ih hs.insert
      · exact ih hs

theorem nodup_added (hs : s.Nodup) : (added links i s).Nodup := by
  induction links generalizing s with
  | nil => exact hs
  | cons link links ih => exact ih (nodup_insert_each link.2 hs)

variable {add : Identifier → EventAttributes → EventAttributes}
  {events : Dict Identifier EventAttributes}

theorem get?_foldl_modify (named : List Identifier) (f : EventAttributes → EventAttributes) :
    Dict.get? (named.foldl (fun events j => Dict.modify events j f) events) i =
      (Dict.get? events i).map fun e => named.foldl (fun e j => if j = i then f e else e) e := by
  induction named generalizing events with
  | nil => simp
  | cons j named ih =>
      rw [List.foldl_cons, ih, Dict.get?_modify]
      split_ifs with h
      · subst h
        simp [Function.comp_def]
      · simp [h]

theorem get?_relate : Dict.get? (relate add links events) i = (Dict.get? events i).map fun e =>
    links.foldl (fun e link => link.2.foldl (fun e j => if j = i then add link.1 e else e) e) e := by
  induction links generalizing events with
  | nil => simp [relate]
  | cons link links ih =>
      have hcons : relate add (link :: links) events = relate add links
          (link.2.foldl (fun events j => Dict.modify events j (add link.1)) events) := rfl
      rw [hcons, ih, get?_foldl_modify, Option.map_map]
      rfl

theorem keys_relate : keys (relate add links events) = keys events := by
  induction links generalizing events with
  | nil => rfl
  | cons link links ih =>
      have hinner : ∀ (named : List Identifier) (events : Dict Identifier EventAttributes),
          keys (named.foldl (fun events j => Dict.modify events j (add link.1)) events) =
            keys events := by
        intro named
        induction named with
        | nil => exact fun _ => rfl
        | cons j named ihnamed =>
            exact fun events => (ihnamed _).trans (Dict.keys_modify events j (add link.1))
      exact (@ih _).trans (hinner link.2 events)

-- What is added goes into the one set.

theorem foldl_addFile (e : EventAttributes) : links.foldl (fun e link =>
    link.2.foldl (fun e j => if j = i then addFile link.1 e else e) e) e =
      { e with files := added links i e.files } := by
  refine (List.foldl_hom (fun s => { e with files := s }) fun s link => ?_)
  refine List.foldl_hom (fun s => { e with files := s }) fun s j => ?_
  split_ifs <;> rfl

theorem foldl_addAgent (e : EventAttributes) : links.foldl (fun e link =>
    link.2.foldl (fun e j => if j = i then addAgent link.1 e else e) e) e =
      { e with agents := added links i e.agents } := by
  refine (List.foldl_hom (fun s => { e with agents := s }) fun s link => ?_)
  refine List.foldl_hom (fun s => { e with agents := s }) fun s j => ?_
  split_ifs <;> rfl

end Relate

-- What the document says.

def Document.file? (doc : Document) : Identifier → Option PremisFile :=
  lastWith PremisFile.identifier doc.files

def Document.agent? (doc : Document) : Identifier → Option PremisAgent :=
  lastWith PremisAgent.identifier doc.agents

def Document.event? (doc : Document) : Identifier → Option PremisEvent :=
  lastWith PremisEvent.identifier doc.events

-- The event i and the file j, or the agent k, are linked by the one or by the other.

def LinkedFile (doc : Document) (i j : Identifier) : Prop :=
  ∃ e f, doc.event? i = some e ∧ doc.file? j = some f ∧
    (j ∈ e.linkingObjectIdentifier ∨ i ∈ f.linkingEventIdentifier)

def LinkedAgent (doc : Document) (i k : Identifier) : Prop :=
  ∃ e a, doc.event? i = some e ∧ doc.agent? k = some a ∧
    (k ∈ e.linkingAgentIdentifier ∨ i ∈ a.linkingEventIdentifier)

-- premis:originalName as it is looked for.
def PremisFile.name (f : PremisFile) : Str := (f.originalName.map strip).getD []

variable (env : Env)

-- The file of the transfer that the element names.
def Names (transfer : UUID) (f : PremisFile) (file : File) : Prop :=
  file ∈ env.files ∧ file.transfer = some transfer ∧
    file.originalLocation = transferOriginalLocationPrefix ++ f.name

def ValidFile (transfer : UUID) (f : PremisFile) : Prop :=
  f.name ≠ [] ∧ ∃ file, Names env transfer f file

section Related

variable {env} {doc : Document} {i j k : Identifier} {transfer : UUID} {event : EventAttributes}

theorem get?_getFiles : Dict.get? (getFiles doc) j = (doc.file? j).map fileElementFactory :=
  get?_getElements

theorem get?_getAgents : Dict.get? (getAgents doc) k = (doc.agent? k).map agentElementFactory :=
  get?_getElements

theorem mem_keys_iff {β : Type} {d : Dict Identifier β} :
    i ∈ keys d ↔ ∃ v, Dict.get? d i = some v := by
  rw [← Option.isSome_iff_exists, Option.isSome_iff_ne_none, Ne, Dict.get?_eq_none_iff, not_not]
  rfl

def fileLinks (doc : Document) : List (Identifier × List Identifier) :=
  (getFiles doc).map fun item => (item.1, item.2.events)

def agentLinks (doc : Document) : List (Identifier × List Identifier) :=
  (getAgents doc).map fun item => (item.1, item.2.events)

theorem mem_fileLinks : (∃ link ∈ fileLinks doc, j = link.1 ∧ i ∈ link.2) ↔
    ∃ f, doc.file? j = some f ∧ i ∈ f.linkingEventIdentifier :=
  mem_links FileAttributes.events PremisFile.linkingEventIdentifier fun _ => rfl

theorem mem_agentLinks : (∃ link ∈ agentLinks doc, k = link.1 ∧ i ∈ link.2) ↔
    ∃ a, doc.agent? k = some a ∧ i ∈ a.linkingEventIdentifier :=
  mem_links AgentAttributes.events PremisAgent.linkingEventIdentifier fun _ => rfl

-- The event of an element, with the links of the files and agents.
def relatedEvent (env : Env) (doc : Document) (i : Identifier) (e : PremisEvent) :
    EventAttributes :=
  { eventElementFactory env e with
    files := added (fileLinks doc) i (toSet e.linkingObjectIdentifier)
    agents := added (agentLinks doc) i (toSet e.linkingAgentIdentifier) }

theorem get?_relatedEvents :
    Dict.get? (relatedEvents env doc) i = (doc.event? i).map (relatedEvent env doc i) := by
  rw [relatedEvents, relateAgentsToEvents, relateFilesToEvents, get?_relate, get?_relate, getEvents,
    get?_getElements, Option.map_map, Option.map_map]
  refine congrArg (fun g => Option.map g (doc.event? i)) (funext fun e => ?_)
  simp only [Function.comp_apply, foldl_addFile, foldl_addAgent]
  rfl

theorem keys_relatedEvents_nodup : (keys (relatedEvents env doc)).Nodup := by
  rw [relatedEvents, relateAgentsToEvents, relateFilesToEvents, keys_relate, keys_relate]
  exact keys_getElements_nodup

theorem mem_files {e : PremisEvent} (he : doc.event? i = some e) (hj : j ∈ keys (getFiles doc)) :
    j ∈ (relatedEvent env doc i e).files ↔ LinkedFile doc i j := by
  obtain ⟨v, hv⟩ := mem_keys_iff.mp hj
  obtain ⟨f, hf, -⟩ := Option.map_eq_some_iff.mp (get?_getFiles.symm.trans hv)
  rw [relatedEvent, mem_added, mem_toSet, mem_fileLinks]
  simp only [LinkedFile, he, hf, Option.some.injEq, exists_eq_left', exists_and_left]

theorem mem_agents {e : PremisEvent} (he : doc.event? i = some e)
    (hk : k ∈ keys (getAgents doc)) :
    k ∈ (relatedEvent env doc i e).agents ↔ LinkedAgent doc i k := by
  obtain ⟨v, hv⟩ := mem_keys_iff.mp hk
  obtain ⟨a, ha, -⟩ := Option.map_eq_some_iff.mp (get?_getAgents.symm.trans hv)
  rw [relatedEvent, mem_added, mem_toSet, mem_agentLinks]
  simp only [LinkedAgent, he, ha, Option.some.injEq, exists_eq_left', exists_and_left]

-- The files and agents of an event.

theorem namedFiles_ne_nil {originalName : Str} :
    namedFiles (fileQueryset env transfer) originalName ≠ [] ↔
      ∃ file ∈ env.files, file.transfer = some transfer ∧
        file.originalLocation = transferOriginalLocationPrefix ++ originalName := by
  simp [namedFiles, fileQueryset, List.filter_filter, List.filter_eq_nil_iff, and_comm]

theorem mem_invalid {f : PremisFile} (hf : doc.file? j = some f) :
    j ∈ getInvalidFileIdentifiers (getFiles doc) (fileQueryset env transfer) ↔
      ¬ ValidFile env transfer f := by
  have hvalid : ValidFile env transfer f ↔ f.name ≠ [] ∧
      namedFiles (fileQueryset env transfer) f.name ≠ [] := by
    rw [namedFiles_ne_nil]
    rfl
  rw [hvalid, getInvalidFileIdentifiers, List.mem_map]
  constructor
  · rintro ⟨⟨_, v⟩, hitem, rfl⟩
    obtain ⟨hmem, hv⟩ := List.mem_filter.mp hitem
    obtain ⟨f', hf', rfl⟩ := mem_getElements.mp hmem
    obtain rfl := Option.some.inj (hf.symm.trans hf')
    rintro ⟨hname, hnamed⟩
    rcases Bool.or_eq_true_iff.mp hv with h | h
    · exact hname (of_decide_eq_true h)
    · exact hnamed (List.isEmpty_iff.mp h)
  · intro h
    refine ⟨(j, fileElementFactory f), List.mem_filter.mpr ⟨mem_getElements.mpr ⟨f, hf, rfl⟩, ?_⟩,
      rfl⟩
    by_cases hname : f.name = []
    · exact Bool.or_eq_true_iff.mpr (Or.inl (decide_eq_true hname))
    · exact Bool.or_eq_true_iff.mpr (Or.inr (List.isEmpty_iff.mpr (not_not.mp fun hnamed =>
        h ⟨hname, hnamed⟩)))

-- What is found under keys has them as its identifiers.
theorem map_identifier_found {β : Type} {d : Dict Identifier β} {identifier : β → Identifier}
    (hd : ∀ i v, Dict.get? d i = some v → identifier v = i) {l : List Identifier}
    (hl : ∀ i ∈ l, i ∈ keys d) : (l.filterMap (Dict.get? d)).map identifier = l := by
  induction l with
  | nil => rfl
  | cons i l ih =>
      rw [List.forall_mem_cons] at hl
      obtain ⟨v, hv⟩ := mem_keys_iff.mp hl.1
      rw [List.filterMap_cons_some hv, List.map_cons, hd i v hv, ih hl.2]

theorem identifier_getFiles {v : FileAttributes} (h : Dict.get? (getFiles doc) j = some v) :
    v.identifier = j := by
  obtain ⟨f, hf, rfl⟩ := Option.map_eq_some_iff.mp (get?_getFiles.symm.trans h)
  have hidentifier : f.identifier = j := identifier_of_lastWith hf
  exact hidentifier

def eventAgents (env : Env) (doc : Document) (i : Identifier) (e : PremisEvent) :
    List AgentAttributes :=
  getEventAgents env (relatedEvent env doc i e) (getAgents doc)

def eventFiles (env : Env) (doc : Document) (transfer : UUID) (i : Identifier) (e : PremisEvent) :
    List FileAttributes :=
  getEventFiles env (relatedEvent env doc i e) (getFiles doc)
    (getInvalidFileIdentifiers (getFiles doc) (fileQueryset env transfer))

theorem mem_eventAgents {e : PremisEvent} (he : doc.event? i = some e) {v : AgentAttributes} :
    v ∈ eventAgents env doc i e ↔
      ∃ k a, LinkedAgent doc i k ∧ doc.agent? k = some a ∧ agentElementFactory a = v := by
  rw [eventAgents, getEventAgents, List.mem_filterMap]
  constructor
  · rintro ⟨k, hk, hget⟩
    obtain ⟨hmem, hkey⟩ := List.mem_filter.mp ((env.arrange_perm _).mem_iff.mp hk)
    obtain ⟨a, ha, rfl⟩ := Option.map_eq_some_iff.mp (get?_getAgents.symm.trans hget)
    exact ⟨k, a, (mem_agents he (List.contains_iff_mem.mp hkey)).mp hmem, ha, rfl⟩
  · rintro ⟨k, a, hlinked, ha, rfl⟩
    have hget : Dict.get? (getAgents doc) k = some (agentElementFactory a) := by
      rw [get?_getAgents, ha]
      rfl
    have hkey : k ∈ keys (getAgents doc) := mem_keys_iff.mpr ⟨_, hget⟩
    exact ⟨k, (env.arrange_perm _).mem_iff.mpr (List.mem_filter.mpr
      ⟨(mem_agents he hkey).mpr hlinked, List.contains_iff_mem.mpr hkey⟩), hget⟩

theorem mem_eventFiles {e : PremisEvent} (he : doc.event? i = some e) {v : FileAttributes} :
    v ∈ eventFiles env doc transfer i e ↔ ∃ j f, LinkedFile doc i j ∧ doc.file? j = some f ∧
      ValidFile env transfer f ∧ fileElementFactory f = v := by
  rw [eventFiles, getEventFiles, List.mem_filterMap]
  constructor
  · rintro ⟨j, hj, hget⟩
    obtain ⟨hmem, hvalid⟩ := List.mem_filter.mp ((env.arrange_perm _).mem_iff.mp hj)
    obtain ⟨hmem, hkey⟩ := List.mem_filter.mp hmem
    obtain ⟨f, hf, rfl⟩ := Option.map_eq_some_iff.mp (get?_getFiles.symm.trans hget)
    refine ⟨j, f, (mem_files he (List.contains_iff_mem.mp hkey)).mp hmem, hf, ?_, rfl⟩
    refine not_not.mp fun hinvalid => ?_
    rw [Bool.not_eq_true', ← Bool.not_eq_true, List.contains_iff_mem] at hvalid
    exact hvalid ((mem_invalid hf).mpr hinvalid)
  · rintro ⟨j, f, hlinked, hf, hvalid, rfl⟩
    have hget : Dict.get? (getFiles doc) j = some (fileElementFactory f) := by
      rw [get?_getFiles, hf]
      rfl
    have hkey : j ∈ keys (getFiles doc) := mem_keys_iff.mpr ⟨_, hget⟩
    refine ⟨j, (env.arrange_perm _).mem_iff.mpr (List.mem_filter.mpr ⟨List.mem_filter.mpr
      ⟨(mem_files he hkey).mpr hlinked, List.contains_iff_mem.mpr hkey⟩, ?_⟩), hget⟩
    rw [Bool.not_eq_true', ← Bool.not_eq_true, List.contains_iff_mem]
    exact fun hinvalid => (mem_invalid hf).mp hinvalid hvalid

theorem nodup_eventFiles {e : PremisEvent} :
    ((eventFiles env doc transfer i e).map FileAttributes.identifier).Nodup := by
  have hfiles : (relatedEvent env doc i e).files.Nodup := nodup_added (nodup_toSet _)
  rw [eventFiles, getEventFiles, map_identifier_found fun _ _ => identifier_getFiles]
  · rw [(env.arrange_perm _).nodup_iff]
    exact (hfiles.filter _).filter _
  · intro j hj
    have hmem := (List.mem_filter.mp ((env.arrange_perm _).mem_iff.mp hj)).1
    exact List.contains_iff_mem.mp (List.mem_filter.mp hmem).2

end Related

end Ccp.Worker.PremisEvents
