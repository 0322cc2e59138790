import Ccp.Worker.ChangeObjectNames
import Mathlib.Data.Finset.Insert

namespace Ccp.Worker

open Lib FileOperations

namespace VerifyChecksum

def checksumEvent (eventDetail : Str) (f : File) : Event where
  fileUUID := some f.uuid
  eventType := "fixity check".toList
  eventDetail
  eventOutcome := "pass".toList
  eventOutcomeDetail := []
  agents := ∅

-- The files of get_file_queryset, and the agents of the transfer.
def writePremisEventPerFile (agents : Finset ℕ) (files : List File) (eventDetail : Str)
    (events : List Event) : List Event :=
  Event.bulkCreate agents (files.map (checksumEvent eventDetail)) events

theorem isOf_map_checksumEvent {files : List File} {eventDetail : Str} {e : Event} :
    e.isOf (files.map (checksumEvent eventDetail)) = true ↔
      ∃ f ∈ files, e.fileUUID = some f.uuid := by
  rw [Event.isOf_iff]
  constructor
  · rintro ⟨u, hu, c, hc, hfile⟩
    obtain ⟨f, hf, rfl⟩ := List.mem_map.mp hc
    exact ⟨f, hf, hu.trans hfile.symm⟩
  · rintro ⟨f, hf, hu⟩
    exact ⟨f.uuid, hu, checksumEvent eventDetail f, List.mem_map_of_mem hf, rfl⟩

end VerifyChecksum

namespace ChangeObjectNames

namespace NameChanger

variable {nfc : Str → Str} {nc : NameChanger} {s : State} {c e : Event} {f : File}

-- The rows of the unit that the index has a new path for.
def Changes (nc : NameChanger) (nfc : Str → Str) (index : Dict Str Str) (f : File) : Prop :=
  nc.ref.owns f = true ∧ Dict.get? index (nfc f.currentlocation) ≠ none

theorem changeEvent_cases {index : Dict Str Str} (h : nc.changeEvent nfc index f = some c) :
    nc.Changes nfc index f ∧ c.fileUUID = some f.uuid := by
  rw [changeEvent] at h
  split_ifs at h with howns
  obtain ⟨changed, hget, rfl⟩ := Option.map_eq_some_iff.mp h
  exact ⟨⟨howns, by simp [hget]⟩, rfl⟩

theorem exists_changeEvent {index : Dict Str Str} (h : nc.Changes nfc index f) :
    ∃ c, nc.changeEvent nfc index f = some c := by
  obtain ⟨changed, hget⟩ := Option.ne_none_iff_exists'.mp h.2
  exact ⟨_, by rw [changeEvent, if_pos h.1, hget, Option.map_some]⟩

theorem isOf_filterMap_changeEvent {index : Dict Str Str} {rows : List File} :
    e.isOf (rows.filterMap (nc.changeEvent nfc index)) = true ↔
      ∃ f ∈ rows, nc.Changes nfc index f ∧ e.fileUUID = some f.uuid := by
  rw [Event.isOf_iff]
  constructor
  · rintro ⟨u, hu, c, hc, hfile⟩
    obtain ⟨f, hf, hevent⟩ := List.mem_filterMap.mp hc
    obtain ⟨hchanges, huuid⟩ := changeEvent_cases hevent
    exact ⟨f, hf, hchanges, hu.trans (hfile.symm.trans huuid)⟩
  · rintro ⟨f, hf, hchanges, hu⟩
    obtain ⟨c, hevent⟩ := exists_changeEvent hchanges
    exact ⟨f.uuid, hu, c, List.mem_filterMap.mpr ⟨f, hf, hevent⟩, (changeEvent_cases hevent).2⟩

end NameChanger

end ChangeObjectNames

namespace EventAgents

open ChangeObjectNames VerifyChecksum

variable {nfc : Str → Str} {nc : NameChanger} {s : State}

theorem onlyCreated_applyFileUpdates_iff :
    Event.OnlyCreated nc.agents (s.files.rows.filterMap (nc.changeEvent nfc s.files.index)) s.events
        (nc.applyFileUpdates nfc s).events ↔
      ∀ e ∈ s.events, ∀ f ∈ s.files.rows, nc.Changes nfc s.files.index f →
        e.fileUUID = some f.uuid → nc.agents ⊆ e.agents := by
  have hfile : ∀ c ∈ s.files.rows.filterMap (nc.changeEvent nfc s.files.index),
      c.fileUUID ≠ none := by
    intro c hc
    obtain ⟨f, -, hevent⟩ := List.mem_filterMap.mp hc
    simp [(NameChanger.changeEvent_cases hevent).2]
  rw [NameChanger.applyFileUpdates, Event.onlyCreated_bulkCreate_iff hfile]
  refine forall₂_congr fun e _ => ?_
  rw [NameChanger.isOf_filterMap_changeEvent]
  constructor
  · intro h f hf hchanges hu
    exact h ⟨f, hf, hchanges, hu⟩
  · rintro h ⟨f, hf, hchanges, hu⟩
    exact h f hf hchanges hu

theorem onlyCreated_writePremisEventPerFile_iff {agents : Finset ℕ} {files : List File}
    {eventDetail : Str} {events : List Event} :
    Event.OnlyCreated agents (files.map (checksumEvent eventDetail)) events
        (writePremisEventPerFile agents files eventDetail events) ↔
      ∀ e ∈ events, ∀ f ∈ files, e.fileUUID = some f.uuid → agents ⊆ e.agents := by
  have hfile : ∀ c ∈ files.map (checksumEvent eventDetail), c.fileUUID ≠ none := by
    intro c hc
    obtain ⟨f, -, rfl⟩ := List.mem_map.mp hc
    exact Option.some_ne_none _
  rw [writePremisEventPerFile, Event.onlyCreated_bulkCreate_iff hfile]
  refine forall₂_congr fun e _ => ?_
  rw [isOf_map_checksumEvent]
  constructor
  · intro h f hf hu
    exact h ⟨f, hf, hu⟩
  · rintro h ⟨f, hf, hu⟩
    exact h f hf hu

-- Both attach agents to what they have created, and to nothing else, exactly when the events
-- that the files had before have these agents already.
theorem agents_frame_iff (nfc : Str → Str) (nc : NameChanger) (s : State) (agents : Finset ℕ)
    (files : List File) (eventDetail : Str) (events : List Event) :
    (Event.OnlyCreated nc.agents (s.files.rows.filterMap (nc.changeEvent nfc s.files.index))
        s.events (nc.applyFileUpdates nfc s).events ↔
      ∀ e ∈ s.events, ∀ f ∈ s.files.rows, nc.Changes nfc s.files.index f →
        e.fileUUID = some f.uuid → nc.agents ⊆ e.agents) ∧
    (Event.OnlyCreated agents (files.map (checksumEvent eventDetail)) events
        (writePremisEventPerFile agents files eventDetail events) ↔
      ∀ e ∈ events, ∀ f ∈ files, e.fileUUID = some f.uuid → agents ⊆ e.agents) :=
  ⟨onlyCreated_applyFileUpdates_iff, onlyCreated_writePremisEventPerFile_iff⟩

-- A file with an event from before another user took over.

def file : File := ⟨⟨2⟩, some ⟨1⟩, none, false, "%transferDirectory%objects/a b".toList⟩

def earlier : Event := ⟨some ⟨2⟩, "ingestion".toList, [], [], [], {2}⟩

theorem u_valid : ['u'] ≠ [] ∧ '/' ∉ ['u'] := by simp

def changer : NameChanger where
  groupType := .transfer
  groupSql := .transferId
  sipUUID := ⟨1⟩
  diruuids := false
  agents := {2, 5}
  sipPath := [⟨['u'], u_valid⟩]
  sipPath_ne := List.cons_ne_nil _ _
  objectsDirectory := [FileOperations.objects]

def index : Dict Str Str :=
  [("%transferDirectory%objects/a b".toList, "%transferDirectory%objects/a_b".toList)]

theorem earlier_gets_agents :
    ¬ Event.OnlyCreated changer.agents ([file].filterMap (changer.changeEvent id index)) [earlier]
        (changer.applyFileUpdates id ⟨⟨[file], index⟩, ⟨[], []⟩, [earlier]⟩).events ∧
      ¬ Event.OnlyCreated {2, 5} ([file].map (checksumEvent [])) [earlier]
        (writePremisEventPerFile {2, 5} [file] [] [earlier]) := by
  constructor
  · intro h
    have hsub := onlyCreated_applyFileUpdates_iff.mp h earlier (by simp) file (by simp)
      ⟨by decide, by decide⟩ rfl
    exact absurd hsub (by decide)
  · intro h
    have hsub := onlyCreated_writePremisEventPerFile_iff.mp h earlier (by simp) file (by simp) rfl
    exact absurd hsub (by decide)

end EventAgents

end Ccp.Worker
