import Ccp.Uuid
import Mathlib.Data.Finset.Empty
import Mathlib.Data.Finset.Lattice.Basic

namespace Ccp.Worker

-- A row of the events with the agents that its relation leads to.
structure Event where
  fileUUID : Option UUID
  eventType : Str
  eventDetail : Str
  eventOutcome : Str
  eventOutcomeDetail : Str
  agents : Finset ℕ
deriving DecidableEq

namespace Event

-- event.agents.add(*agents)
def add (agents : Finset ℕ) (e : Event) : Event := { e with agents := e.agents ∪ agents }

-- file_uuid__in: an event of no file is in no list.
def isOf (created : List Event) (e : Event) : Bool :=
  e.fileUUID.isSome && (created.map fileUUID).contains e.fileUUID

-- The events are created without agents, and then looked up again by their files.
def bulkCreate (agents : Finset ℕ) (created events : List Event) : List Event :=
  (events ++ created).map fun e => if e.isOf created then e.add agents else e

-- The agents are those of the new events only.
def OnlyCreated (agents : Finset ℕ) (created before after : List Event) : Prop :=
  after = before ++ created.map (add agents)

variable {agents : Finset ℕ} {created events : List Event} {e : Event}

theorem add_eq_self_iff : e.add agents = e ↔ agents ⊆ e.agents := by
  rw [← Finset.union_eq_left]
  constructor
  · intro h
    exact congrArg Event.agents h
  · intro h
    rw [add, h]

@[simp] theorem fileUUID_add : (e.add agents).fileUUID = e.fileUUID := rfl

theorem isOf_iff {created : List Event} {e : Event} : e.isOf created = true ↔
    ∃ u, e.fileUUID = some u ∧ ∃ c ∈ created, c.fileUUID = some u := by
  rw [isOf, Bool.and_eq_true, List.contains_iff_mem, List.mem_map, Option.isSome_iff_exists]
  constructor
  · rintro ⟨⟨u, hu⟩, c, hc, heq⟩
    exact ⟨u, hu, c, hc, heq.trans hu⟩
  · rintro ⟨u, hu, c, hc, heq⟩
    exact ⟨⟨u, hu⟩, c, hc, heq.trans hu.symm⟩

-- The lookup finds what was created, and what its files had before.
theorem bulkCreate_eq (h : ∀ c ∈ created, c.fileUUID ≠ none) :
    bulkCreate agents created events =
      events.map (fun e => if e.isOf created then e.add agents else e) ++ created.map (add agents) := by
  rw [bulkCreate, List.map_append]
  congr 1
  refine List.map_congr_left fun c hc => if_pos ?_
  obtain ⟨u, hu⟩ := Option.ne_none_iff_exists'.mp (h c hc)
  exact isOf_iff.mpr ⟨u, hu, c, hc, hu⟩

theorem onlyCreated_bulkCreate_iff (h : ∀ c ∈ created, c.fileUUID ≠ none) :
    OnlyCreated agents created events (bulkCreate agents created events) ↔
      ∀ e ∈ events, e.isOf created = true → agents ⊆ e.agents := by
  have hself : ∀ f : Event → Event, events.map f = events ↔ ∀ e ∈ events, f e = e := fun f => by
    rw [← List.map_inj_left, List.map_id']
  rw [OnlyCreated, bulkCreate_eq h, List.append_left_inj, hself]
  refine forall₂_congr fun e _ => ?_
  split_ifs with hof
  · rw [add_eq_self_iff]
    exact ⟨fun hsub _ => hsub, fun hsub => hsub hof⟩
  · exact ⟨fun _ hnot => absurd hnot hof, fun _ => rfl⟩

end Event

end Ccp.Worker
