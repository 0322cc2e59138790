import Ccp.Worker.PremisEvents.Relations

namespace Ccp.Worker.PremisEvents

open Lib

section Save

variable {env : Env} {s s' : State} {queryset : List File}

-- The key of a row that the database finds for the values of the agent.
def FoundAt (env : Env) (agents : List Agent) (a : AgentAttributes) (pk : ℕ) : Prop :=
  ∃ r, agents[pk]? = some r ∧ env.matches a.row r

theorem FoundAt.mono {agents agents' : List Agent} (hagents : agents <+: agents')
    {a : AgentAttributes} {pk : ℕ} (h : FoundAt env agents a pk) : FoundAt env agents' a pk := by
  obtain ⟨r, hr, hmatches⟩ := h
  obtain ⟨more, rfl⟩ := hagents
  refine ⟨r, ?_, hmatches⟩
  rw [List.getElem?_append_left (List.getElem?_eq_some_iff.mp hr).1, hr]

theorem getOrCreate_spec {a : AgentAttributes} {pk : ℕ}
    (h : getOrCreate env a.row s = .ok pk s') : s'.db.events = s.db.events ∧
      s.db.agents <+: s'.db.agents ∧ FoundAt env s'.db.agents a pk := by
  unfold getOrCreate at h
  obtain ⟨s₀, t, hget, hcase⟩ := Calls.bind_ok_iff.mp h
  obtain ⟨rfl, rfl⟩ := Calls.get_ok_iff.mp hget
  rcases hlookUp : s.db.lookUp env a.row with _ | ⟨pk₀, _ | ⟨pk₁, more⟩⟩
  · -- no row: it is added under the next key
    rw [hlookUp] at hcase
    by_cases hrefuses : env.refusesAgent a.row = true
    · rw [if_pos hrefuses] at hcase
      cases hcase
    · rw [if_neg hrefuses] at hcase
      cases hcase
      refine ⟨rfl, List.prefix_append _ _, a.row, List.getElem?_concat_length, ?_⟩
      simp [Env.matches]
  · rw [hlookUp] at hcase
    cases hcase
    have hpk : pk ∈ s.db.lookUp env a.row := by
      rw [hlookUp]
      exact List.mem_singleton_self pk
    obtain ⟨-, hany⟩ := List.mem_filter.mp hpk
    obtain ⟨r, hr, hmatches⟩ := (Option.any_eq_true _ _).mp hany
    exact ⟨rfl, List.prefix_rfl, r, hr, hmatches⟩
  · rw [hlookUp] at hcase
    cases hcase

theorem getOrCreateAgents_spec {agents : List AgentAttributes} {pks : List ℕ}
    (h : getOrCreateAgents env agents s = .ok pks s') : s'.db.events = s.db.events ∧
      s.db.agents <+: s'.db.agents ∧ List.Forall₂ (FoundAt env s'.db.agents) agents pks := by
  induction agents generalizing s pks with
  | nil =>
      cases h
      exact ⟨rfl, List.prefix_rfl, .nil⟩
  | cons a agents ih =>
      unfold getOrCreateAgents at h
      obtain ⟨pk, t, hfirst, h⟩ := Calls.bind_ok_iff.mp h
      obtain ⟨rest, t', hrest, h⟩ := Calls.bind_ok_iff.mp h
      cases h
      obtain ⟨hevents, hagents, hfound⟩ := getOrCreate_spec hfirst
      obtain ⟨hevents', hagents', hfound'⟩ := ih hrest
      exact ⟨hevents'.trans hevents, hagents.trans hagents', .cons (hfound.mono hagents') hfound'⟩

-- A row for the event and the file.
def IsRow (queryset : List File) (event : EventAttributes) (dbAgents : List ℕ)
    (file : FileAttributes) (row : Event) : Prop :=
  ∃ u dbFile now, dbFile ∈ namedFiles queryset file.originalName ∧
    row = event.row u dbFile now dbAgents

theorem getFile_spec {name : Str} {file : File} (h : getFile queryset name s = .ok file s') :
    s' = s ∧ file ∈ namedFiles queryset name := by
  unfold getFile at h
  rcases hnamed : namedFiles queryset name with _ | ⟨file₀, _ | ⟨file₁, more⟩⟩
  · rw [hnamed] at h
    cases h
  · rw [hnamed] at h
    cases h
    exact ⟨rfl, List.mem_singleton_self file⟩
  · rw [hnamed] at h
    cases h

theorem ensureEventIDIsUUID_spec {eventID eventID' : Str}
    (h : ensureEventIDIsUUID env eventID s = .ok eventID' s') : s'.db = s.db := by
  unfold ensureEventIDIsUUID at h
  obtain ⟨s₀, t, hget, hcase⟩ := Calls.bind_ok_iff.mp h
  obtain ⟨rfl, rfl⟩ := Calls.get_ok_iff.mp hget
  split_ifs at hcase
  · cases hcase
    rfl
  · cases hcase
    rfl

theorem createEvent_spec {row : Event} {u : UUID} {hrow : row.eventID = some u}
    (h : createEvent env row u hrow s = .ok () s') :
    s'.db.events = s.db.events ++ [row] ∧ s'.db.agents = s.db.agents := by
  unfold createEvent at h
  obtain ⟨s₀, t, hget, hcase⟩ := Calls.bind_ok_iff.mp h
  obtain ⟨rfl, rfl⟩ := Calls.get_ok_iff.mp hget
  split_ifs at hcase
  · cases hcase
  · cases hcase
    exact ⟨rfl, rfl⟩
  · cases hcase

theorem saveEvent_spec {event : EventAttributes} {dbAgents : List ℕ} {eventID eventID' : Str}
    {file : FileAttributes}
    (h : saveEvent env queryset event dbAgents eventID file s = .ok eventID' s') :
    s'.db.agents = s.db.agents ∧
      ∃ row, s'.db.events = s.db.events ++ [row] ∧ IsRow queryset event dbAgents file row := by
  unfold saveEvent at h
  obtain ⟨dbFile, t, hfile, hensure⟩ := Calls.bind_ok_iff.mp h
  obtain ⟨eventID₁, t₁, hid, hget⟩ := Calls.bind_ok_iff.mp hensure
  obtain ⟨s₀, t₂, hget, hcreate⟩ := Calls.bind_ok_iff.mp hget
  obtain ⟨rfl, rfl⟩ := Calls.get_ok_iff.mp hget
  obtain ⟨ht, hnamed⟩ := getFile_spec hfile
  cases hu : env.uuid eventID₁ with
  | none =>
      rw [hu] at hcreate
      cases hcreate
  | some u =>
      rw [hu] at hcreate
      obtain ⟨_, t₃, hcreate, hpure⟩ := Calls.bind_ok_iff.mp hcreate
      cases hpure
      obtain ⟨hevents, hagents⟩ := createEvent_spec hcreate
      rw [ensureEventIDIsUUID_spec hid, ht] at hevents hagents
      exact ⟨hagents, _, hevents, u, dbFile, _, hnamed, rfl⟩

theorem saveFiles_spec {event : EventAttributes} {dbAgents : List ℕ} {eventID : Str}
    {files : List FileAttributes}
    (h : saveFiles env queryset event dbAgents eventID files s = .ok () s') :
    s'.db.agents = s.db.agents ∧ ∃ rows, s'.db.events = s.db.events ++ rows ∧
      List.Forall₂ (IsRow queryset event dbAgents) files rows := by
  induction files generalizing s eventID with
  | nil =>
      cases h
      exact ⟨rfl, [], (List.append_nil _).symm, .nil⟩
  | cons file files ih =>
      unfold saveFiles at h
      obtain ⟨eventID', t, hfirst, h⟩ := Calls.bind_ok_iff.mp h
      obtain ⟨hagents, row, hevents, hrow⟩ := saveEvent_spec hfirst
      obtain ⟨hagents', rows, hevents', hrows⟩ := ih h
      refine ⟨hagents'.trans hagents, row :: rows, ?_, .cons hrow hrows⟩
      rw [hevents', hevents, List.append_assoc, List.singleton_append]

-- A row for a file of an event, linked to the rows of the event's agents.
def IsRowWith (env : Env) (queryset : List File) (agents : List Agent)
    (saved : ValidEvent × FileAttributes) (row : Event) : Prop :=
  ∃ pks, List.Forall₂ (FoundAt env agents) saved.1.eventAgents pks ∧
    IsRow queryset saved.1.event pks saved.2 row

theorem IsRowWith.mono {agents agents' : List Agent} (hagents : agents <+: agents')
    {saved : ValidEvent × FileAttributes} {row : Event}
    (h : IsRowWith env queryset agents saved row) : IsRowWith env queryset agents' saved row := by
  obtain ⟨pks, hpks, hrow⟩ := h
  exact ⟨pks, hpks.imp fun _ _ hfound => hfound.mono hagents, hrow⟩

def filesOf (valid : ValidEvent) : List (ValidEvent × FileAttributes) :=
  valid.eventFiles.map fun file => (valid, file)

theorem saveEvents_spec {validEvents : List ValidEvent}
    (h : saveEvents env queryset validEvents s = .ok () s') : s.db.agents <+: s'.db.agents ∧
      ∃ rows, s'.db.events = s.db.events ++ rows ∧
        List.Forall₂ (IsRowWith env queryset s'.db.agents) (validEvents.flatMap filesOf) rows := by
  induction validEvents generalizing s with
  | nil =>
      cases h
      exact ⟨List.prefix_rfl, [], (List.append_nil _).symm, .nil⟩
  | cons valid validEvents ih =>
      unfold saveEvents at h
      obtain ⟨pks, t, hagents, h⟩ := Calls.bind_ok_iff.mp h
      obtain ⟨_, t', hfiles, h⟩ := Calls.bind_ok_iff.mp h
      obtain ⟨hevents, hgrown, hpks⟩ := getOrCreateAgents_spec hagents
      obtain ⟨hsame, rows, hevents', hrows⟩ := saveFiles_spec hfiles
      obtain ⟨hgrown', rows', hevents'', hrows'⟩ := ih h
      rw [hsame] at hgrown'
      refine ⟨hgrown.trans hgrown', rows ++ rows', ?_, ?_⟩
      · rw [hevents'', hevents', hevents, List.append_assoc]
      · rw [List.flatMap_cons]
        refine List.rel_append ?_ hrows'
        rw [filesOf, List.forall₂_map_left_iff]
        exact hrows.imp fun _ _ hrow =>
          ⟨pks, hpks.imp fun _ _ hfound => hfound.mono hgrown', hrow⟩

end Save

-- The row says what the element says; a time that was not read is the time of saving.
def Describes (env : Env) (e : PremisEvent) (row : Event) : Prop :=
  row.eventType = e.type ∧
    (∀ t, eventDatetime env e.dateTime = some t → row.eventDatetime = t) ∧
    row.eventDetail = childrenText e.eventDetail ∧
    row.eventOutcome = childrenText e.eventOutcome ∧
    row.eventOutcomeDetail = childrenText e.eventOutcomeDetailNote

-- The row is that of an event and a file of the document, with all agents of the event and no
-- others, and with an identifier of its own.
structure Represents (env : Env) (doc : Document) (transfer : UUID) (db : Db)
    (pair : Identifier × Identifier) (row : Event) : Prop where
  event : ∃ e, doc.event? pair.1 = some e ∧ Describes env e row
  file : ∃ f file, doc.file? pair.2 = some f ∧ Names env transfer f file ∧ row.fileUUID = file.uuid
  agents : ∀ k a, LinkedAgent doc pair.1 k → doc.agent? k = some a →
    ∃ pk ∈ row.agents, FoundAt env db.agents (agentElementFactory a) pk
  onlyAgents : ∀ pk ∈ row.agents, ∃ k a, LinkedAgent doc pair.1 k ∧ doc.agent? k = some a ∧
    FoundAt env db.agents (agentElementFactory a) pk
  agents_nodup : row.agents.Nodup
  eventID : ∃ u, row.eventID = some u ∧ db.events.countP (·.eventID = some u) = 1

-- One new event for each event of the document and each valid file linked to it, besides
-- everything that was there.
def Stored (env : Env) (doc : Document) (transfer : UUID) (db db' : Db) : Prop :=
  db.agents <+: db'.agents ∧ ∃ pairs rows, pairs.Nodup ∧
    (∀ i j, (i, j) ∈ pairs ↔
      LinkedFile doc i j ∧ ∃ f, doc.file? j = some f ∧ ValidFile env transfer f) ∧
    db'.events = db.events ++ rows ∧ List.Forall₂ (Represents env doc transfer db') pairs rows

section Import

variable {env : Env} {doc : Document} {transfer : UUID} {i j : Identifier} {s s' : State}

def importedEvents (env : Env) (doc : Document) (transfer : UUID) : List ValidEvent × Bool :=
  getValidEvents env (getFiles doc) (getAgents doc) (relatedEvents env doc)
    (getInvalidFileIdentifiers (getFiles doc) (fileQueryset env transfer))

-- An event with its files and agents.
def completeEvent (env : Env) (doc : Document) (transfer : UUID) (event : EventAttributes) :
    ValidEvent where
  eventAgents := getEventAgents env event (getAgents doc)
  eventFiles := getEventFiles env event (getFiles doc)
    (getInvalidFileIdentifiers (getFiles doc) (fileQueryset env transfer))
  event := event

-- Where no event is invalid, all of them are saved.
theorem importedEvents_eq (h : (importedEvents env doc transfer).2 = false) :
    (importedEvents env doc transfer).1 =
      (relatedEvents env doc).map fun item => completeEvent env doc transfer item.2 := by
  refine List.filterMap_eq_map_iff_forall_eq_some.mpr fun item hitem => ?_
  have hvalid := List.any_eq_false.mp h item hitem
  revert hvalid
  unfold validEvent
  split_ifs
  · exact fun hvalid => absurd rfl hvalid
  · exact fun hvalid => absurd rfl hvalid
  · exact fun _ => rfl

theorem mem_saved (h : (importedEvents env doc transfer).2 = false)
    {saved : ValidEvent × FileAttributes} :
    saved ∈ (importedEvents env doc transfer).1.flatMap filesOf ↔ ∃ i e, doc.event? i = some e ∧
      saved.1 = completeEvent env doc transfer (relatedEvent env doc i e) ∧
      saved.2 ∈ eventFiles env doc transfer i e := by
  have hitem : ∀ i event, (i, event) ∈ relatedEvents env doc ↔
      ∃ e, doc.event? i = some e ∧ relatedEvent env doc i e = event := by
    intro i event
    rw [← Dict.get?_eq_some_iff keys_relatedEvents_nodup, get?_relatedEvents,
      Option.map_eq_some_iff]
  rw [importedEvents_eq h, List.mem_flatMap]
  constructor
  · rintro ⟨valid, hvalid, hsaved⟩
    obtain ⟨⟨i, event⟩, hmem, rfl⟩ := List.mem_map.mp hvalid
    obtain ⟨e, he, rfl⟩ := (hitem i event).mp hmem
    obtain ⟨file, hfile, rfl⟩ := List.mem_map.mp hsaved
    exact ⟨i, e, he, rfl, hfile⟩
  · rintro ⟨i, e, he, hevent, hfile⟩
    refine ⟨saved.1, List.mem_map.mpr ⟨(i, relatedEvent env doc i e), (hitem _ _).mpr ⟨e, he, rfl⟩,
      hevent.symm⟩, List.mem_map.mpr ⟨saved.2, ?_, rfl⟩⟩
    rw [hevent]
    exact hfile

def pairOf (saved : ValidEvent × FileAttributes) : Identifier × Identifier :=
  (saved.1.event.identifier, saved.2.identifier)

theorem mem_pairs (h : (importedEvents env doc transfer).2 = false) :
    (i, j) ∈ ((importedEvents env doc transfer).1.flatMap filesOf).map pairOf ↔
      LinkedFile doc i j ∧ ∃ f, doc.file? j = some f ∧ ValidFile env transfer f := by
  rw [List.mem_map]
  constructor
  · rintro ⟨saved, hsaved, hpair⟩
    obtain ⟨i', e, he, hevent, hfile⟩ := (mem_saved h).mp hsaved
    obtain ⟨j', f, hlinked, hf, hvalid, hfactory⟩ := (mem_eventFiles he).mp hfile
    have hi : e.identifier = i' := identifier_of_lastWith he
    have hj : f.identifier = j' := identifier_of_lastWith hf
    rw [pairOf, hevent, ← hfactory] at hpair
    obtain ⟨hei, hfj⟩ := Prod.ext_iff.mp hpair
    obtain rfl : i' = i := hi.symm.trans hei
    obtain rfl : j' = j := hj.symm.trans hfj
    exact ⟨hlinked, f, hf, hvalid⟩
  · rintro ⟨hlinked, f, hf, hvalid⟩
    obtain ⟨e, -, he, -⟩ := id hlinked
    have hi : e.identifier = i := identifier_of_lastWith he
    have hj : f.identifier = j := identifier_of_lastWith hf
    refine ⟨(completeEvent env doc transfer (relatedEvent env doc i e), fileElementFactory f),
      (mem_saved h).mpr ⟨i, e, he, rfl, (mem_eventFiles he).mpr ⟨j, f, hlinked, hf, hvalid, rfl⟩⟩, ?_⟩
    exact Prod.ext hi hj

theorem nodup_pairs (h : (importedEvents env doc transfer).2 = false) :
    (((importedEvents env doc transfer).1.flatMap filesOf).map pairOf).Nodup := by
  have hkeys : (relatedEvents env doc).Pairwise fun item item' => item.1 ≠ item'.1 :=
    List.pairwise_map.mp keys_relatedEvents_nodup
  have hget : ∀ item ∈ relatedEvents env doc, ∃ e, doc.event? item.1 = some e ∧
      relatedEvent env doc item.1 e = item.2 := by
    intro item hitem
    rw [← Option.map_eq_some_iff, ← get?_relatedEvents]
    exact (Dict.get?_eq_some_iff keys_relatedEvents_nodup).mpr hitem
  have hfirst : ∀ item ∈ relatedEvents env doc, ∀ pair ∈
      (filesOf (completeEvent env doc transfer item.2)).map pairOf, pair.1 = item.1 := by
    intro item hitem pair hpair
    obtain ⟨e, he, hevent⟩ := hget item hitem
    obtain ⟨saved, hsaved, rfl⟩ := List.mem_map.mp hpair
    obtain ⟨file, -, rfl⟩ := List.mem_map.mp hsaved
    have hidentifier : e.identifier = item.1 := identifier_of_lastWith he
    rw [← hevent]
    exact hidentifier
  rw [importedEvents_eq h, List.flatMap_map, List.map_flatMap, List.nodup_flatMap]
  constructor
  · intro item hitem
    obtain ⟨e, he, hevent⟩ := hget item hitem
    rw [← hevent, filesOf, List.map_map]
    exact List.Nodup.of_map Prod.snd (by
      rw [List.map_map]
      exact nodup_eventFiles)
  · refine List.Pairwise.imp_of_mem ?_ hkeys
    intro item item' hitem hitem' hne pair hpair hpair'
    exact hne ((hfirst item hitem pair hpair).symm.trans (hfirst item' hitem' pair hpair'))

-- An identifier that is in a column without repetition is there once.
theorem countP_eventID {db : Db} {row : Event} {u : UUID} (hrow : row ∈ db.events)
    (hu : row.eventID = some u) : db.events.countP (·.eventID = some u) = 1 := by
  have hmem : u ∈ db.events.filterMap Event.eventID := List.mem_filterMap.mpr ⟨row, hrow, hu⟩
  rw [← List.count_eq_one_of_mem db.unique hmem, List.count_filterMap]
  exact List.countP_congr fun row' _ => by simp

theorem agents_of_forall₂ {agents : List Agent} {as : List AgentAttributes} {pks : List ℕ}
    (h : List.Forall₂ (FoundAt env agents) as pks) :
    (∀ a ∈ as, ∃ pk ∈ pks, FoundAt env agents a pk) ∧
      ∀ pk ∈ pks, ∃ a ∈ as, FoundAt env agents a pk := by
  induction h with
  | nil => exact ⟨nofun, nofun⟩
  | cons hfound _ ih =>
      rw [List.forall_mem_cons, List.forall_mem_cons]
      refine ⟨⟨⟨_, List.mem_cons_self, hfound⟩, fun a ha => ?_⟩,
        ⟨_, List.mem_cons_self, hfound⟩, fun pk hpk => ?_⟩
      · obtain ⟨pk, hpk, hfound'⟩ := ih.1 a ha
        exact ⟨pk, List.mem_cons_of_mem _ hpk, hfound'⟩
      · obtain ⟨a, ha, hfound'⟩ := ih.2 pk hpk
        exact ⟨a, List.mem_cons_of_mem _ ha, hfound'⟩

theorem represents_of_isRowWith (h : (importedEvents env doc transfer).2 = false)
    {saved : ValidEvent × FileAttributes} {db : Db} {row : Event}
    (hsaved : saved ∈ (importedEvents env doc transfer).1.flatMap filesOf) (hrow : row ∈ db.events)
    (hisRow : IsRowWith env (fileQueryset env transfer) db.agents saved row) :
    Represents env doc transfer db (pairOf saved) row := by
  obtain ⟨i, e, he, hevent, hfile⟩ := (mem_saved h).mp hsaved
  obtain ⟨j, f, -, hf, hvalid, hfactory⟩ := (mem_eventFiles he).mp hfile
  have hi : e.identifier = i := identifier_of_lastWith he
  have hj : f.identifier = j := identifier_of_lastWith hf
  have hpair : pairOf saved = (i, j) := by
    rw [pairOf, hevent, ← hfactory]
    exact Prod.ext hi hj
  obtain ⟨pks, hpks, u, dbFile, now, hnamed, rfl⟩ := hisRow
  rw [hevent] at hpks
  obtain ⟨hall, honly⟩ := agents_of_forall₂ hpks
  rw [hpair, hevent]
  rw [hevent] at hrow
  constructor
  · refine ⟨e, he, rfl, fun t ht => ?_, rfl, rfl, rfl⟩
    have hdatetime : (relatedEvent env doc i e).eventDatetime = some t := ht
    exact congrArg (Option.getD · now) hdatetime
  · rw [← hfactory] at hnamed
    obtain ⟨hqueryset, hlocation⟩ := List.mem_filter.mp hnamed
    obtain ⟨hfiles, htransfer⟩ := List.mem_filter.mp hqueryset
    exact ⟨f, dbFile, hf, ⟨hfiles, of_decide_eq_true htransfer, of_decide_eq_true hlocation⟩, rfl⟩
  · intro k a hlinked ha
    obtain ⟨pk, hpk, hfound⟩ := hall _ ((mem_eventAgents he).mpr ⟨k, a, hlinked, ha, rfl⟩)
    exact ⟨pk, List.mem_dedup.mpr hpk, hfound⟩
  · intro pk hpk
    obtain ⟨v, hv, hfound⟩ := honly pk (List.mem_dedup.mp hpk)
    obtain ⟨k, a, hlinked, ha, rfl⟩ := (mem_eventAgents he).mp hv
    exact ⟨k, a, hlinked, ha, hfound⟩
  · exact List.nodup_dedup pks
  · exact ⟨u, rfl, countP_eventID hrow rfl⟩

-- A document that was not rejected is saved.
theorem importDocument_spec {status : Status}
    (h : importDocument env doc (fileQueryset env transfer) s = .ok status s') :
    (status = .FAILURE ∧ s' = s) ∨ (status = .SUCCESS ∧
      (importedEvents env doc transfer).2 = false ∧
        saveEvents env (fileQueryset env transfer) (importedEvents env doc transfer).1 s =
          .ok () s') := by
  simp only [importDocument] at h
  split_ifs at h with hrejected
  · obtain ⟨rfl, rfl⟩ := Calls.pure_ok_iff.mp h
    exact Or.inl ⟨rfl, rfl⟩
  · obtain ⟨_, t, hsave, hpure⟩ := Calls.bind_ok_iff.mp h
    obtain ⟨rfl, rfl⟩ := Calls.pure_ok_iff.mp hpure
    rw [Bool.or_eq_true, not_or, Bool.not_eq_true] at hrejected
    exact Or.inr ⟨rfl, Bool.not_eq_true _ ▸ hrejected.2, hsave⟩

theorem stored_of_saveEvents (h : (importedEvents env doc transfer).2 = false)
    (hsave : saveEvents env (fileQueryset env transfer) (importedEvents env doc transfer).1 s =
      .ok () s') : Stored env doc transfer s.db s'.db := by
  obtain ⟨hagents, rows, hevents, hrows⟩ := saveEvents_spec hsave
  refine ⟨hagents, _, rows, nodup_pairs h, fun i j => mem_pairs h, hevents, ?_⟩
  rw [List.forall₂_map_left_iff, List.forall₂_iff_zip]
  refine ⟨hrows.length_eq, fun hzip => ?_⟩
  obtain ⟨hsaved, hrow⟩ := List.of_mem_zip hzip
  refine represents_of_isRowWith h hsaved ?_ ((List.forall₂_iff_zip.mp hrows).2 hzip)
  rw [hevents]
  exact List.mem_append_right s.db.events hrow

-- A job that returns: with a failure nothing was done.
theorem main_spec {job : Job} {status : Status} (h : main env job s = .ok status s') :
    (status = .FAILURE ∧ s' = s) ∨ (status = .SUCCESS ∧ ∀ doc, job.tree = .accepted doc →
      ∃ transfer, job.transfer = some transfer ∧ Stored env doc transfer s.db s'.db) := by
  rcases job with ⟨transfer, tree⟩
  cases tree with
  | missing =>
      cases h
      exact Or.inr ⟨rfl, nofun⟩
  | invalid =>
      cases transfer with
      | none => cases h
      | some transfer =>
          cases h
          exact Or.inl ⟨rfl, rfl⟩
  | accepted doc =>
      cases transfer with
      | none => cases h
      | some transfer =>
          rcases importDocument_spec h with hfailure | ⟨rfl, hvalid, hsave⟩
          · exact Or.inl hfailure
          · refine Or.inr ⟨rfl, ?_⟩
            rintro _ ⟨⟩
            exact ⟨transfer, rfl, stored_of_saveEvents hvalid hsave⟩

end Import

-- What a job does to the database.
theorem import_contract (env : Env) (job : Job) (s : State) :
    ((callJob env job s).1 = some .SUCCESS → ∀ doc, job.tree = .accepted doc →
      ∃ transfer, job.transfer = some transfer ∧
        Stored env doc transfer s.db (callJob env job s).2.db) ∧
    ((callJob env job s).1 ≠ some .SUCCESS → (callJob env job s).2.db = s.db) := by
  unfold callJob
  cases h : main env job s with
  | error e s' => exact ⟨nofun, fun _ => rfl⟩
  | ok status s' =>
      rcases main_spec h with ⟨rfl, rfl⟩ | ⟨rfl, hstored⟩
      · exact ⟨nofun, fun _ => rfl⟩
      · exact ⟨fun _ => hstored, fun hne => absurd rfl hne⟩

namespace Repeated

def transfer : UUID := ⟨7⟩

def identifier : Identifier := ("UUID".toList, "4d2ef4d5-0b8e-4a3c-9c0e-0d3f1a5b6c7d".toList)

def file : PremisFile where
  identifier := ("local".toList, "a".toList)
  originalName := some "objects/a.txt".toList
  linkingEventIdentifier := []

def agent : PremisAgent where
  identifier := ("local".toList, "b".toList)
  name := some "b".toList
  type := some "software".toList
  linkingEventIdentifier := []

def event (type : Str) : PremisEvent where
  identifier := identifier
  type := type
  dateTime := some "2024-05-01T10:00:00Z".toList
  eventDetail := []
  eventOutcome := []
  eventOutcomeDetailNote := []
  linkingObjectIdentifier := [file.identifier]
  linkingAgentIdentifier := [agent.identifier]

def first : PremisEvent := event "ingestion".toList

def second : PremisEvent := event "virus check".toList

def doc : Document := ⟨[file], [agent], [first, second]⟩

def job : Job := ⟨some transfer, .accepted doc⟩

def env : Env where
  dateparseDatetime value := .ok (if value = "2024-05-01T10:00:00Z".toList then
    some ⟨1714557600000000, some "UTC".toList⟩ else none)
  dateparseDate _ := .ok none
  defaultTimezone := "UTC".toList
  arrange s := s
  arrange_perm := List.Perm.refl
  uuid := UUID.parse
  uuid4 n := ⟨BitVec.ofNat 128 (0x40008000000000000000 + n)⟩
  now _ := ⟨1714557600000000, some "UTC".toList⟩
  files := [⟨⟨1⟩, "%transferDirectory%objects/a.txt".toList, some transfer⟩]
  collates _ _ := false
  refusesAgent _ := false
  refusesEvent _ := false

def empty : State := ⟨⟨[], [], List.nodup_nil⟩, 0⟩

theorem second_stored : (callJob env job empty).1 = some .SUCCESS ∧
    (callJob env job empty).2.db.events.map Event.eventType = ["virus check".toList] := by
  decide +kernel

-- Both events name the file, and there is none for the first.
theorem first_not_stored : (callJob env job empty).1 = some .SUCCESS ∧
    job.tree = .accepted doc ∧ first ∈ doc.events ∧ file ∈ doc.files ∧
    file.identifier ∈ first.linkingObjectIdentifier ∧ ValidFile env transfer file ∧
    ∀ row ∈ (callJob env job empty).2.db.events, ¬ Describes env first row := by
  refine ⟨second_stored.1, rfl, List.mem_cons_self, List.mem_cons_self, List.mem_cons_self,
    ⟨by decide, env.files.head (by decide), List.head_mem _, rfl, by decide⟩, ?_⟩
  rintro row hrow ⟨htype, -⟩
  have hmem : row.eventType ∈ ["virus check".toList] := by
    rw [← second_stored.2]
    exact List.mem_map_of_mem hrow
  rw [htype] at hmem
  exact absurd hmem (by decide)

end Repeated

end Ccp.Worker.PremisEvents
