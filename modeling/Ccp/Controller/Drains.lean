import Ccp.Controller.Limits

namespace Ccp.Controller

open Lib

-- What a state can come to while nothing new is queued.
def Reaches (s next : State) : Prop := ∃ es, queuedIn es = [] ∧ run step s es = some next

theorem Reaches.refl (s : State) : Reaches s s := ⟨[], rfl, rfl⟩

theorem Reaches.trans {s mid next : State} (h : Reaches s mid) (h' : Reaches mid next) : Reaches s next := by
  obtain ⟨es, hqueued, hrun⟩ := h
  obtain ⟨es', hqueued', hrun'⟩ := h'
  refine ⟨es ++ es', ?_, ?_⟩
  · rw [queuedIn, List.filterMap_append]
    exact (congrArg₂ (· ++ ·) hqueued hqueued').trans (List.append_nil _)
  · rw [run_append, hrun]
    exact hrun'

-- mu is free, with this group and these packages in the queue, and no goroutine is returning.
structure Free (s : State) (group : List Goroutine) (queued : List Package) : Prop where
  picking : s.picking = none
  group : s.group = group
  returning : s.returning = []
  queued : s.controller.queuedPackages = queued

end Ccp.Controller
