import Ccp.Decision
import Ccp.Lib.GoMap
import Ccp.Lib.Run
import Ccp.Package

namespace Ccp

open Lib

def maxConcurrentPackages : Nat := 2

-- group.SetLimit in New.
def groupLimit : Nat := 10

-- The three collections of Controller that mu protects.
structure Controller where
  activePackages : List Package
  queuedPackages : List Package
  awaitingPackages : GoMap UUID (List Decision)

namespace Controller

def new : Controller := ⟨[], [], ∅⟩

def queue (c : Controller) (pkg : Package) : Controller :=
  { c with queuedPackages := c.queuedPackages ++ [pkg] }

-- The package is the one that pick hands to group.Go.
def pick (c : Controller) : Controller × Option Package :=
  if c.activePackages.length = maxConcurrentPackages then (c, none)
  else
    match c.queuedPackages with
    | [] => (c, none)
    | pkg :: rest =>
        ({ c with activePackages := c.activePackages ++ [pkg], queuedPackages := rest }, some pkg)

def deactivate (c : Controller) (pkg : Package) : Controller :=
  { c with activePackages := c.activePackages.eraseP fun item => item.id = pkg.id }

def queueToAwait (c : Controller) (pkg : Package) (dec : Decision) : Except String Controller :=
  if c.activePackages.any fun active => active.id = pkg.id then
    .ok { c with
      activePackages := c.activePackages.eraseP fun active => active.id = pkg.id
      awaitingPackages :=
        match c.awaitingPackages.lookup pkg.id with
        | none => c.awaitingPackages.insert pkg.id [dec]
        | some l => c.awaitingPackages.insert pkg.id (l ++ [dec]) }
  else .error "package not found in the active list"

def dequeueFromAwait (c : Controller) (pkg : Package) (dec : Decision) : Controller :=
  match c.awaitingPackages.lookup pkg.id with
  | none => c
  | some decisions =>
      if decisions.any fun item => item.id = dec.id then
        let left := decisions.eraseP fun item => item.id = dec.id
        { c with
          awaitingPackages :=
            if left = [] then c.awaitingPackages.erase pkg.id
            else c.awaitingPackages.insert pkg.id left
          activePackages := c.activePackages ++ [pkg] }
      else c

-- The decisions that await an answer for one package.
def decisions (c : Controller) (id : UUID) : List Decision :=
  (c.awaitingPackages.lookup id).getD []

-- Whether ResolveDecision finds the decision.
def isAwaiting (c : Controller) (id : UUID) : Bool :=
  decide (∃ pkgID ∈ c.awaitingPackages.keys, (c.decisions pkgID).any fun dec => dec.id = id)

def awaitingCount (c : Controller) : Nat := GoMap.total List.length c.awaitingPackages

-- Where the goroutine of a package is: in iter.next, or in await.
inductive Phase
  | running
  | awaiting (dec : Decision)
deriving DecidableEq

-- The goroutine that pick starts for the n-th package it takes, up to the end of its
-- deferred deactivate.
structure Goroutine where
  n : Nat
  pkg : Package
  phase : Phase
deriving DecidableEq

structure State where
  controller : Controller
  group : List Goroutine
  -- the goroutines that have deactivated their package; the function given to group.Go has
  -- not returned yet, so that errgroup counts them still
  returning : List Nat
  -- the goroutine that pick, which holds mu, is handing to group.Go
  picking : Option Goroutine
  picked : Nat
  -- decisions whose resolution is in their channel
  resolved : List UUID
  canceled : Bool

def init : State := ⟨new, [], [], none, 0, [], false⟩

-- The places of the group that are taken.
def occupied (s : State) : Nat := s.group.length + s.returning.length

inductive Event
  | queue (pkg : Package)
  | pick
  -- group.Go accepts the goroutine, pick returns and mu is free again
  | start
  | queueToAwait (n : Nat) (dec : Decision)
  | resolveDecision (id : UUID)
  | cancel
  | dequeueFromAwait (n : Nat)
  | deactivate (n : Nat)
  -- the function given to group.Go returns and errgroup frees its place
  | done (n : Nat)
deriving DecidableEq

def goroutine (s : State) (n : Nat) : Option Goroutine := s.group.find? fun g => g.n = n

def replace (s : State) (g : Goroutine) (phase : Phase) : List Goroutine :=
  { g with phase } :: s.group.erase g

-- The critical sections of mu, one event each.
def critical (s : State) : Event → Option State
  | .queue pkg => some { s with controller := s.controller.queue pkg }
  | .pick =>
      match s.controller.pick with
      | (c, none) => some { s with controller := c }
      | (c, some pkg) => some { s with
          controller := c
          picking := some ⟨s.picked, pkg, .running⟩
          picked := s.picked + 1 }
  | .queueToAwait n dec => do
      let g ← goroutine s n
      guard (g.phase = .running)
      -- await drops the error of queueToAwait
      some { s with
        controller := ((s.controller.queueToAwait g.pkg dec).toOption).getD s.controller
        group := replace s g (.awaiting dec) }
  | .resolveDecision id =>
      if s.controller.isAwaiting id then some { s with resolved := id :: s.resolved } else none
  | .dequeueFromAwait n => do
      let g ← goroutine s n
      match g.phase with
      | .running => none
      | .awaiting dec =>
          guard (dec.id ∈ s.resolved ∨ s.canceled)
          some { s with
            controller := s.controller.dequeueFromAwait g.pkg dec
            group := replace s g .running }
  | .deactivate n => do
      let g ← goroutine s n
      guard (g.phase = .running)
      some { s with
        controller := s.controller.deactivate g.pkg
        group := s.group.erase g
        returning := n :: s.returning }
  | .start | .cancel | .done _ => none

-- A pick that took a package holds mu until group.Go accepts the goroutine,
-- and errgroup accepts none at its limit. The end of a goroutine does not need mu.
def step (s : State) : Event → Option State
  | .cancel => some { s with canceled := true }
  | .start =>
      match s.picking with
      | none => none
      | some g =>
          if occupied s < groupLimit then
            some { s with group := g :: s.group, picking := none }
          else none
  | .done n =>
      if n ∈ s.returning then some { s with returning := s.returning.erase n } else none
  | e => if s.picking = none then critical s e else none

end Controller

end Ccp
