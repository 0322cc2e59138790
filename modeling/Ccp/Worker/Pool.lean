import Ccp.Lib.Dict
import Ccp.Lib.Run
import Ccp.Uuid
import Mathlib.Algebra.Order.Group.Int
import Mathlib.Data.List.Nodup
import Mathlib.Data.List.Perm.Subperm
import Mathlib.Tactic.Common

namespace Ccp.Worker

open Lib

namespace Pool

-- The number of workers that each client script needs.
structure Required where
  items : Dict Str ℤ
  nodup : (items.map Prod.fst).Nodup

-- max of the values, which an empty dictionary has not.
def maxValue : Dict Str ℤ → Option ℤ
  | [] => none
  | (_, n) :: items => some (items.foldl (fun m item => max m item.2) n)

-- The counts are changed while the loop goes over them, each of them at its own turn.
def visit (acc : List Str × Dict Str ℤ) (scriptName : Str) : List Str × Dict Str ℤ :=
  match Dict.get? acc.2 scriptName with
  | none => acc
  | some workersRemaining =>
      if workersRemaining > 0 then
        (acc.1 ++ [scriptName], Dict.set acc.2 scriptName (workersRemaining - 1))
      else acc

-- The scripts of the next worker, and the counts that are left.
def nextWorker (d : Dict Str ℤ) : List Str × Dict Str ℤ := (d.map Prod.fst).foldl visit ([], d)

def getWorkerInitArgs : ℕ → Dict Str ℤ → List (List Str)
  | 0, _ => []
  | size + 1, d => (nextWorker d).1 :: getWorkerInitArgs size (nextWorker d).2

end Pool

structure WorkerPool where
  poolSize : ℤ
  workerInitArgs : List (List Str)
deriving DecidableEq

namespace Pool

-- __init__, with the workers setting.
def create (workers : ℤ) (required : Required) : Option WorkerPool :=
  (maxValue required.items).map fun most =>
    ⟨min workers most, getWorkerInitArgs (min workers most).toNat required.items⟩

-- A system process, the scripts it registers and whether it has not exited.
structure Process where
  index : ℕ
  clientScripts : List Str
  alive : Bool
deriving DecidableEq

structure State where
  -- every process that was ever started
  processes : List Process
  -- the process in each slot
  workers : List ℕ
  -- the slot that the maintenance loop looks at next, none before start is through
  index : Option ℕ
deriving DecidableEq

inductive Event
  -- the next turn of the loop of start, or the start of the maintenance
  | start
  -- the next turn of _restart_exited_workers
  | maintain
  | exit (process : ℕ)
deriving DecidableEq

def begin : State := ⟨[], [], none⟩

section Step

variable (pool : WorkerPool)

-- _start_worker: the process has the number of those before it.
def startWorker (s : State) (index : ℕ) : Option (State × ℕ) :=
  pool.workerInitArgs[index]?.map fun clientScripts =>
    ({ s with processes := s.processes ++ [⟨index, clientScripts, true⟩] }, s.processes.length)

def exited (s : State) (worker : ℕ) : Bool := (s.processes[worker]?.map Process.alive) == some false

def step (s : State) : Event → Option State
  | .start =>
      match s.index with
      | some _ => none
      | none =>
          if (s.workers.length : ℤ) < pool.poolSize then
            (startWorker pool s s.workers.length).map fun started =>
              { started.1 with workers := started.1.workers ++ [started.2] }
          else some { s with index := some 0 }
  | .maintain =>
      match s.index with
      | none => none
      | some index =>
          match s.workers[index]? with
          | none => some { s with index := some 0 }
          | some worker =>
              if exited s worker then
                (startWorker pool s index).map fun started =>
                  { started.1 with
                    workers := started.1.workers.set index started.2, index := some (index + 1) }
              else some { s with index := some (index + 1) }
  | .exit process =>
      match s.processes[process]? with
      | none => none
      | some q =>
          if q.alive then some { s with processes := s.processes.set process { q with alive := false } }
          else none

end Step

-- The scripts that the worker in a slot has registered.
def registered (s : State) (slot : ℕ) : Option (List Str) :=
  (s.workers[slot]?.bind fun worker => s.processes[worker]?).map Process.clientScripts

-- The processes that can be running a script.
def live (s : State) (script : Str) : List ℕ :=
  (List.range s.processes.length).filter fun worker =>
    (s.processes[worker]?.map fun q => q.alive && q.clientScripts.contains script) == some true

section Assignment

theorem visit_append {front back : Dict Str ℤ} {scripts : List Str} {script : Str} {n : ℤ}
    (h : script ∉ front.map Prod.fst) :
    visit (scripts, front ++ (script, n) :: back) script =
      (scripts ++ if 0 < n then [script] else [],
        front ++ (script, if 0 < n then n - 1 else n) :: back) := by
  rw [visit, Dict.get?_append_cons h]
  by_cases hn : 0 < n
  · simp only [gt_iff_lt, hn, if_true, Dict.set_append_cons h]
  · simp only [gt_iff_lt, hn, if_false, List.append_nil]

theorem foldl_visit {front back : Dict Str ℤ} {scripts : List Str}
    (h : ((front ++ back).map Prod.fst).Nodup) :
    (back.map Prod.fst).foldl visit (scripts, front ++ back) =
      (scripts ++ (back.filter fun item => 0 < item.2).map Prod.fst,
        front ++ back.map fun item => (item.1, if 0 < item.2 then item.2 - 1 else item.2)) := by
  induction back generalizing front scripts with
  | nil => simp
  | cons item back ih =>
      obtain ⟨script, n⟩ := item
      have hfront : script ∉ front.map Prod.fst := by
        rw [List.map_append, List.map_cons] at h
        intro hmem
        exact (List.nodup_append.mp h).2.2 _ hmem _ List.mem_cons_self rfl
      have hrest : (((front ++ [(script, if 0 < n then n - 1 else n)]) ++ back).map
          Prod.fst).Nodup := by
        simpa using h
      have hih := @ih (front ++ [(script, if 0 < n then n - 1 else n)])
        (scripts ++ if 0 < n then [script] else []) hrest
      simp only [List.append_assoc, List.singleton_append] at hih
      rw [List.map_cons, List.foldl_cons, visit_append hfront, hih]
      by_cases hn : 0 < n <;> simp [hn]

theorem nextWorker_eq {d : Dict Str ℤ} (h : (d.map Prod.fst).Nodup) :
    nextWorker d = ((d.filter fun item => 0 < item.2).map Prod.fst,
      d.map fun item => (item.1, if 0 < item.2 then item.2 - 1 else item.2)) := by
  have h' : (([] ++ d).map Prod.fst).Nodup := h
  exact foldl_visit h'

theorem keys_nextWorker {d : Dict Str ℤ} (h : (d.map Prod.fst).Nodup) :
    (nextWorker d).2.map Prod.fst = d.map Prod.fst := by
  rw [nextWorker_eq h, List.map_map]
  rfl

theorem mem_nextWorker {d : Dict Str ℤ} (h : (d.map Prod.fst).Nodup) {script : Str} {n : ℤ}
    (hn : (script, n) ∈ d) : script ∈ (nextWorker d).1 ↔ 0 < n := by
  rw [nextWorker_eq h, List.mem_map]
  constructor
  · rintro ⟨⟨script', n'⟩, hmem, rfl⟩
    obtain ⟨hmem', hpos⟩ := List.mem_filter.mp hmem
    obtain rfl : n' = n :=
      Option.some.inj (((Dict.get?_eq_some_iff h).mpr hmem').symm.trans
        ((Dict.get?_eq_some_iff h).mpr hn))
    simpa using hpos
  · intro hpos
    exact ⟨(script, n), List.mem_filter.mpr ⟨hn, by simpa using hpos⟩, rfl⟩

theorem length_getWorkerInitArgs (size : ℕ) (d : Dict Str ℤ) :
    (getWorkerInitArgs size d).length = size := by
  induction size generalizing d with
  | zero => rfl
  | succ size ih => rw [getWorkerInitArgs, List.length_cons, ih]

-- One worker less is needed for a script after each worker that has it.
theorem mem_getWorkerInitArgs {d : Dict Str ℤ} (h : (d.map Prod.fst).Nodup) {script : Str} {n : ℤ}
    (hn : (script, n) ∈ d) {size i : ℕ} {scripts : List Str}
    (hi : (getWorkerInitArgs size d)[i]? = some scripts) : script ∈ scripts ↔ (i : ℤ) < n := by
  induction size generalizing d n i with
  | zero => simp [getWorkerInitArgs] at hi
  | succ size ih =>
      rw [getWorkerInitArgs] at hi
      cases i with
      | zero =>
          obtain rfl : (nextWorker d).1 = scripts := by simpa using hi
          rw [mem_nextWorker h hn]
          rfl
      | succ i =>
          rw [List.getElem?_cons_succ] at hi
          have hleft : (script, if 0 < n then n - 1 else n) ∈ (nextWorker d).2 := by
            rw [nextWorker_eq h]
            exact List.mem_map.mpr ⟨_, hn, rfl⟩
          rw [ih (keys_nextWorker h ▸ h) hleft hi]
          split <;> omega

theorem le_foldl_max {items : Dict Str ℤ} {m : ℤ} :
    m ≤ items.foldl (fun m item => max m item.2) m ∧
      ∀ item ∈ items, item.2 ≤ items.foldl (fun m item => max m item.2) m := by
  induction items generalizing m with
  | nil => simp
  | cons item items ih =>
      obtain ⟨hm, hitems⟩ := ih (m := max m item.2)
      rw [List.foldl_cons]
      refine ⟨by omega, fun item' hitem' => ?_⟩
      rcases List.mem_cons.mp hitem' with rfl | hitem'
      · omega
      · exact hitems item' hitem'

theorem le_maxValue {d : Dict Str ℤ} {most : ℤ} (h : maxValue d = some most) :
    ∀ item ∈ d, item.2 ≤ most := by
  cases d with
  | nil => cases h
  | cons item d =>
      obtain rfl := Option.some.inj h
      intro item' hitem'
      rcases List.mem_cons.mp hitem' with rfl | hitem'
      · exact le_foldl_max.1
      · exact le_foldl_max.2 item' hitem'

end Assignment

section Invariant

variable {pool : WorkerPool}

-- Every process has the scripts of its slot, and only the last one in a slot can be alive.
structure Inv (pool : WorkerPool) (s : State) : Prop where
  scripts : ∀ q ∈ s.processes, pool.workerInitArgs[q.index]? = some q.clientScripts
  slots : ∀ (i worker : ℕ), s.workers[i]? = some worker →
    ∃ q : Process, s.processes[worker]? = some q ∧ q.index = i
  last : ∀ (worker : ℕ) (q : Process), s.processes[worker]? = some q → q.alive = true →
    s.workers[q.index]? = some worker
  started : s.index ≠ none → pool.poolSize ≤ s.workers.length
  size : (s.workers.length : ℤ) ≤ max 0 pool.poolSize

theorem inv_begin (pool : WorkerPool) : Inv pool begin where
  scripts := by simp [begin]
  slots := by simp [begin]
  last := by simp [begin]
  started := by simp [begin]
  size := by simp [begin]

-- What a turn of one of the loops does, and an exit.
inductive Turn (pool : WorkerPool) (s : State) : State → Prop
  | grow {scripts : List Str} (hlen : (s.workers.length : ℤ) < pool.poolSize) (hindex : s.index = none)
      (hscripts : pool.workerInitArgs[s.workers.length]? = some scripts) :
      Turn pool s ⟨s.processes ++ [⟨s.workers.length, scripts, true⟩],
        s.workers ++ [s.processes.length], none⟩
  | restart {i worker : ℕ} {scripts : List Str} (hindex : s.index = some i)
      (hworker : s.workers[i]? = some worker) (hexited : exited s worker = true)
      (hscripts : pool.workerInitArgs[i]? = some scripts) :
      Turn pool s ⟨s.processes ++ [⟨i, scripts, true⟩], s.workers.set i s.processes.length, some (i + 1)⟩
  | move (index : ℕ) (hstarted : pool.poolSize ≤ s.workers.length ∨ s.index ≠ none) :
      Turn pool s { s with index := some index }
  | exit {process : ℕ} {q : Process} (hq : s.processes[process]? = some q) :
      Turn pool s { s with processes := s.processes.set process { q with alive := false } }

theorem turn_of_step {s s' : State} {e : Event} (h : step pool s e = some s') : Turn pool s s' := by
  cases e with
  | start =>
      simp only [step] at h
      cases hindex : s.index with
      | some _ => simp [hindex] at h
      | none =>
          simp only [hindex] at h
          split_ifs at h with hlen
          · obtain ⟨started, hstarted, rfl⟩ := Option.map_eq_some_iff.mp h
            obtain ⟨scripts, hscripts, rfl⟩ := Option.map_eq_some_iff.mp hstarted
            simpa only [hindex] using Turn.grow hlen hindex hscripts
          · obtain rfl := Option.some.inj h
            exact Turn.move 0 (Or.inl (not_lt.mp hlen))
  | maintain =>
      simp only [step] at h
      cases hindex : s.index with
      | none => simp [hindex] at h
      | some i =>
          have hne : s.index ≠ none := by simp [hindex]
          simp only [hindex] at h
          cases hworker : s.workers[i]? with
          | none =>
              simp only [hworker, Option.some.injEq] at h
              exact h ▸ Turn.move 0 (Or.inr hne)
          | some worker =>
              simp only [hworker] at h
              split_ifs at h with hexited
              · obtain ⟨started, hstarted, rfl⟩ := Option.map_eq_some_iff.mp h
                obtain ⟨scripts, hscripts, rfl⟩ := Option.map_eq_some_iff.mp hstarted
                exact Turn.restart hindex hworker hexited hscripts
              · obtain rfl := Option.some.inj h
                exact Turn.move (i + 1) (Or.inr hne)
  | exit process =>
      simp only [step] at h
      cases hq : s.processes[process]? with
      | none => simp [hq] at h
      | some q =>
          simp only [hq] at h
          split_ifs at h
          obtain rfl := Option.some.inj h
          exact Turn.exit hq

theorem getElem?_of_getElem?_append {α : Type} {l : List α} {a b : α} {i : ℕ}
    (h : (l ++ [a])[i]? = some b) : l[i]? = some b ∨ i = l.length ∧ a = b := by
  rcases lt_or_ge i l.length with hi | hi
  · rw [List.getElem?_append_left hi] at h
    exact Or.inl h
  · rw [List.getElem?_append_right hi] at h
    obtain ⟨hzero, hab⟩ := List.getElem?_eq_some_iff.mp h
    rw [List.length_singleton] at hzero
    exact Or.inr ⟨by omega, by simpa using hab⟩

theorem getElem?_append_of_eq_some {α : Type} {l : List α} {a b : α} {i : ℕ} (h : l[i]? = some b) :
    (l ++ [a])[i]? = some b := by
  rw [List.getElem?_append_left (List.getElem?_eq_some_iff.mp h).1, h]

theorem inv_of_turn {s s' : State} (hinv : Inv pool s) (h : Turn pool s s') : Inv pool s' := by
  cases h with
  | @grow scripts hlen hindex hscripts =>
      refine ⟨?_, ?_, ?_, by simp, by simp; omega⟩
      · intro q hq
        rcases List.mem_append.mp hq with hq | hq
        · exact hinv.scripts q hq
        · obtain rfl := List.mem_singleton.mp hq
          exact hscripts
      · intro i worker hworker
        rcases getElem?_of_getElem?_append hworker with hold | ⟨rfl, rfl⟩
        · obtain ⟨q, hq, hqi⟩ := hinv.slots i worker hold
          exact ⟨q, getElem?_append_of_eq_some hq, hqi⟩
        · exact ⟨_, List.getElem?_concat_length, rfl⟩
      · intro worker q hq halive
        rcases getElem?_of_getElem?_append hq with hold | ⟨rfl, rfl⟩
        · exact getElem?_append_of_eq_some (hinv.last worker q hold halive)
        · exact List.getElem?_concat_length
  | @restart i worker scripts hindex hworker hexited hscripts =>
      have hi : i < s.workers.length := (List.getElem?_eq_some_iff.mp hworker).1
      have hne : s.index ≠ none := by simp [hindex]
      refine ⟨?_, ?_, ?_, fun _ => by simpa using hinv.started hne, by simpa using hinv.size⟩
      · intro q hq
        rcases List.mem_append.mp hq with hq | hq
        · exact hinv.scripts q hq
        · obtain rfl := List.mem_singleton.mp hq
          exact hscripts
      · intro j worker' hworker'
        by_cases hj : i = j
        · subst hj
          rw [List.getElem?_set_self hi, Option.some.injEq] at hworker'
          exact hworker' ▸ ⟨_, List.getElem?_concat_length, rfl⟩
        · rw [List.getElem?_set_ne hj] at hworker'
          obtain ⟨q, hq, hqi⟩ := hinv.slots j worker' hworker'
          exact ⟨q, getElem?_append_of_eq_some hq, hqi⟩
      · intro worker' q hq halive
        rcases getElem?_of_getElem?_append hq with hold | ⟨rfl, rfl⟩
        · have hlast := hinv.last worker' q hold halive
          -- the process that the slot had until now has exited
          have hj : i ≠ q.index := by
            intro hj
            rw [← hj, hworker, Option.some.injEq] at hlast
            rw [exited, hlast, hold] at hexited
            simp [halive] at hexited
          rw [List.getElem?_set_ne hj, hlast]
        · exact List.getElem?_set_self hi
  | move index hstarted =>
      refine ⟨hinv.scripts, hinv.slots, hinv.last, fun _ => ?_, hinv.size⟩
      exact hstarted.elim id hinv.started
  | @exit process q hq =>
      have hlen : process < s.processes.length := (List.getElem?_eq_some_iff.mp hq).1
      refine ⟨?_, ?_, ?_, hinv.started, hinv.size⟩
      · intro q' hq'
        rcases List.mem_or_eq_of_mem_set hq' with hq' | rfl
        · exact hinv.scripts q' hq'
        · exact hinv.scripts q (List.mem_of_getElem? hq)
      · intro i worker hworker
        obtain ⟨q', hq', hqi⟩ := hinv.slots i worker hworker
        by_cases hp : process = worker
        · subst hp
          rw [hq, Option.some.injEq] at hq'
          exact ⟨_, List.getElem?_set_self hlen, hq' ▸ hqi⟩
        · exact ⟨q', by rw [List.getElem?_set_ne hp, hq'], hqi⟩
      · intro worker q' hq' halive
        by_cases hp : process = worker
        · subst hp
          rw [List.getElem?_set_self hlen, Option.some.injEq] at hq'
          simp [← hq'] at halive
        · rw [List.getElem?_set_ne hp] at hq'
          exact hinv.last worker q' hq' halive

theorem inv_of_run {s : State} {es : List Event} (h : run (step pool) begin es = some s) :
    Inv pool s :=
  run_invariant (step pool) (Inv pool) (fun _ _ _ hinv hstep => inv_of_turn hinv (turn_of_step hstep))
    (inv_begin pool) h

theorem registered_eq {s : State} (hinv : Inv pool s) (slot : ℕ) (hslot : slot < s.workers.length) :
    registered s slot = pool.workerInitArgs[slot]? := by
  obtain ⟨q, hq, hindex⟩ := hinv.slots slot _ (List.getElem?_eq_getElem hslot)
  rw [registered, List.getElem?_eq_getElem hslot, Option.bind_some, hq, Option.map_some, ← hindex,
    hinv.scripts q (List.mem_of_getElem? hq)]

theorem mem_live {s : State} {script : Str} {worker : ℕ} :
    worker ∈ live s script ↔
      ∃ q, s.processes[worker]? = some q ∧ q.alive = true ∧ script ∈ q.clientScripts := by
  rw [live, List.mem_filter, List.mem_range]
  constructor
  · rintro ⟨-, h⟩
    obtain ⟨q, hq, hlive⟩ := Option.map_eq_some_iff.mp (beq_iff_eq.mp h)
    rw [Bool.and_eq_true, List.contains_iff_mem] at hlive
    exact ⟨q, hq, hlive⟩
  · rintro ⟨q, hq, halive, hscript⟩
    refine ⟨(List.getElem?_eq_some_iff.mp hq).1, ?_⟩
    rw [hq]
    simp [halive, hscript]

end Invariant

section Contract

-- What the workers of a pool should be at any time.
structure Contract (workers : ℤ) (required : Required) (pool : WorkerPool) (s : State) : Prop where
  size : ∃ most, maxValue required.items = some most ∧ pool.poolSize = min workers most
  slots : s.index ≠ none → (s.workers.length : ℤ) = max 0 pool.poolSize
  registered : s.index ≠ none → ∀ script n, (script, n) ∈ required.items → ∀ slot : ℕ,
    (∃ scripts, registered s slot = some scripts ∧ script ∈ scripts) ↔ (slot : ℤ) < min n pool.poolSize
  served : 1 ≤ workers → s.index ≠ none → ∀ script n, (script, n) ∈ required.items →
    ∃ slot scripts, Pool.registered s slot = some scripts ∧ script ∈ scripts
  bounded : ∀ script n, (script, n) ∈ required.items → ((live s script).length : ℤ) ≤ n

variable {workers : ℤ} {required : Required} {pool : WorkerPool} {s : State}

theorem create_eq_some (h : create workers required = some pool) :
    ∃ most, maxValue required.items = some most ∧ pool.poolSize = min workers most ∧
      pool.workerInitArgs = getWorkerInitArgs pool.poolSize.toNat required.items := by
  obtain ⟨most, hmost, rfl⟩ := Option.map_eq_some_iff.mp h
  exact ⟨most, hmost, rfl, rfl⟩

theorem mem_iff_of_args (hcreate : create workers required = some pool) {script : Str} {n : ℤ}
    (hn : (script, n) ∈ required.items) {slot : ℕ} {scripts : List Str}
    (hscripts : pool.workerInitArgs[slot]? = some scripts) : script ∈ scripts ↔ (slot : ℤ) < n := by
  obtain ⟨_, _, _, hargs⟩ := create_eq_some hcreate
  rw [hargs] at hscripts
  exact mem_getWorkerInitArgs required.nodup hn hscripts

theorem length_args (hcreate : create workers required = some pool) :
    pool.workerInitArgs.length = pool.poolSize.toNat := by
  obtain ⟨_, _, _, hargs⟩ := create_eq_some hcreate
  rw [hargs, length_getWorkerInitArgs]

-- Processes that are alive and run one script are in different slots, and only the first
-- slots have the script.
theorem length_live_le (hcreate : create workers required = some pool) (hinv : Inv pool s)
    {script : Str} {n : ℤ} (hn : (script, n) ∈ required.items) (hpos : 0 ≤ n) :
    ((live s script).length : ℤ) ≤ n := by
  let slot := fun worker : ℕ => (s.processes[worker]?.map Process.index).getD 0
  have hslot : ∀ worker ∈ live s script,
      s.workers[slot worker]? = some worker ∧ (slot worker : ℤ) < n := by
    intro worker hworker
    obtain ⟨q, hq, halive, hscript⟩ := mem_live.mp hworker
    have hindex : slot worker = q.index := by simp [slot, hq]
    rw [hindex]
    exact ⟨hinv.last worker q hq halive,
      (mem_iff_of_args hcreate hn (hinv.scripts q (List.mem_of_getElem? hq))).mp hscript⟩
  have hnodup : ((live s script).map slot).Nodup := by
    refine List.Nodup.map_on (fun worker hworker worker' hworker' heq => ?_)
      (List.nodup_range.filter _)
    have hboth := (hslot worker hworker).1
    rw [heq, (hslot worker' hworker').1] at hboth
    exact (Option.some.inj hboth).symm
  have hsubset : (live s script).map slot ⊆ List.range n.toNat := by
    intro i hi
    obtain ⟨worker, hworker, rfl⟩ := List.mem_map.mp hi
    have hlt := (hslot worker hworker).2
    exact List.mem_range.mpr (by omega)
  have hle := (hnodup.subperm hsubset).length_le
  rw [List.length_map, List.length_range] at hle
  omega

theorem length_workers (hinv : Inv pool s) (hstarted : s.index ≠ none) :
    (s.workers.length : ℤ) = max 0 pool.poolSize := by
  have hle := hinv.size
  have hge := hinv.started hstarted
  omega

theorem registered_iff (hcreate : create workers required = some pool) (hinv : Inv pool s)
    (hstarted : s.index ≠ none) {script : Str} {n : ℤ} (hn : (script, n) ∈ required.items)
    (slot : ℕ) :
    (∃ scripts, registered s slot = some scripts ∧ script ∈ scripts) ↔
      (slot : ℤ) < min n pool.poolSize := by
  have hlen := length_workers hinv hstarted
  constructor
  · rintro ⟨scripts, hscripts, hmem⟩
    have hslot : slot < s.workers.length := by
      by_contra hge
      rw [registered, List.getElem?_eq_none (not_lt.mp hge)] at hscripts
      simp at hscripts
    rw [registered_eq hinv slot hslot] at hscripts
    have hlt := (mem_iff_of_args hcreate hn hscripts).mp hmem
    omega
  · intro hlt
    have hslot : slot < s.workers.length := by omega
    have hargs : slot < pool.workerInitArgs.length := by
      rw [length_args hcreate]
      omega
    refine ⟨pool.workerInitArgs[slot], ?_, ?_⟩
    · rw [registered_eq hinv slot hslot, List.getElem?_eq_getElem hargs]
    · exact (mem_iff_of_args hcreate hn (List.getElem?_eq_getElem hargs)).mpr (by omega)

-- Exits and restarts keep the scripts of each slot, from the start of the first worker on.
theorem workerPool_contract (hrequired : ∀ item ∈ required.items, 1 ≤ item.2)
    (hcreate : create workers required = some pool) {es : List Event}
    (hrun : run (step pool) begin es = some s) : Contract workers required pool s := by
  have hinv := inv_of_run hrun
  obtain ⟨most, hmost, hsize, -⟩ := create_eq_some hcreate
  refine ⟨⟨most, hmost, hsize⟩, length_workers hinv, ?_, ?_, ?_⟩
  · intro hstarted script n hn
    exact registered_iff hcreate hinv hstarted hn
  · intro hworkers hstarted script n hn
    have hone := hrequired _ hn
    have hle := le_maxValue hmost _ hn
    refine ⟨0, (registered_iff hcreate hinv hstarted hn 0).mpr ?_⟩
    simp only at hone hle
    omega
  · intro script n hn
    have hone := hrequired _ hn
    exact length_live_le hcreate hinv hn (by simp only at hone; omega)

end Contract

-- A pool of two workers, the second of them for one script only.
def twoScripts : Required where
  items := [("move_v0.0".toList, 1), ("archivematicaclamscan_v0.0".toList, 4)]
  nodup := by decide

def twoWorkers : WorkerPool where
  poolSize := 2
  workerInitArgs := [["move_v0.0".toList, "archivematicaclamscan_v0.0".toList],
    ["archivematicaclamscan_v0.0".toList]]

def restarted : State where
  processes := [⟨0, ["move_v0.0".toList, "archivematicaclamscan_v0.0".toList], false⟩,
    ⟨1, ["archivematicaclamscan_v0.0".toList], true⟩,
    ⟨0, ["move_v0.0".toList, "archivematicaclamscan_v0.0".toList], true⟩]
  workers := [2, 1]
  index := some 1

theorem workerPool_contract_twoWorkers : Contract 2 twoScripts twoWorkers restarted :=
  have hrun : run (step twoWorkers) begin [.start, .start, .start, .exit 0, .maintain] =
    some restarted := by decide
  workerPool_contract (by decide) (by decide) hrun

-- A setting below one starts no worker at all.
theorem no_worker_without_setting :
    ¬ ∀ (workers : ℤ) (required : Required) (pool : WorkerPool) (es : List Event) (s : State),
      (∀ item ∈ required.items, 1 ≤ item.2) → create workers required = some pool →
      run (step pool) begin es = some s → s.index ≠ none →
      ∀ script n, (script, n) ∈ required.items →
        ∃ slot scripts, registered s slot = some scripts ∧ script ∈ scripts := by
  intro h
  obtain ⟨slot, scripts, hscripts, -⟩ := h 0 twoScripts ⟨0, []⟩ [.start] ⟨[], [], some 0⟩ (by decide)
    (by decide) (by decide) (by decide) "move_v0.0".toList 1 (by decide)
  simp [registered] at hscripts

end Pool

end Ccp.Worker
