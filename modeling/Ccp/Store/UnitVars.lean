import Ccp.Lib.Run
import Ccp.Package

namespace Ccp

open Lib

namespace UnitVars

-- A row of the UnitVariables table, its two times apart.
structure Row where
  pk : UUID
  unitType : Option Str
  unitUUID : Option Str
  name : Option Str
  value : Option Str
  linkID : Option UUID
deriving DecidableEq

-- What a variable is looked up by.
structure Key where
  unitType : Str
  unitUUID : Str
  name : Str
deriving DecidableEq

-- The arguments of CreateUnitVar.
structure Params where
  id : UUID
  packageType : PackageType
  name : Str
  value : Str
  linkID : UUID
  updateExisting : Bool
deriving DecidableEq

-- The value and the link that a row should have; or the text of an error.
def want (p : Params) : Except String (Option Str × Option UUID) :=
  if p.value = [] ∧ p.linkID = UUID.nil then .error "both value and linkID are zero"
  else if p.value ≠ [] ∧ p.linkID ≠ UUID.nil then .error "both value and linkID are non-zero"
  else if p.value ≠ [] then .ok (some p.value, none)
  else .ok (some [], some p.linkID)

inductive Phase
  -- the transaction has begun
  | reading
  | updating (want : Option Str × Option UUID)
  | inserting (want : Option Str × Option UUID)
  -- after the insert, with the transaction still open
  | committing
  | returned (err : Option String)
deriving DecidableEq

-- Where a call goes on from the row that it read.
def resolve (p : Params) (found : Option Row) : Phase :=
  match want p with
  | .error text => .returned (some text)
  | .ok w =>
      if found.map (fun r => (r.value, r.linkID)) = some w then .returned none
      else if p.updateExisting = false then
        .returned (some "variable exists but with different propreties")
      else match found with
        | some _ => .updating w
        | none => .inserting w

structure State where
  rows : List Row
  calls : List (Params × Phase)
deriving DecidableEq

inductive Event
  -- a new call, up to its transaction
  | call (p : Params)
  -- the read, and the row that the database gives where one matches
  | read (call : Nat) (found : Option Row)
  -- the update with its commit, or the insert under a new primary key
  | write (call : Nat) (pk : UUID)
  | commit (call : Nat)
  -- the statement that is next returns an error
  | fail (call : Nat) (text : String)
deriving DecidableEq

def start (rows : List Row) : State := ⟨rows, []⟩

section Step

-- The collation: texts with one image are equal to the database.
variable (fold : Str → Str)

def Key.folded (k : Key) : Key := ⟨fold k.unitType, fold k.unitUUID, fold k.name⟩

def Params.key (p : Params) : Key := Key.folded fold ⟨p.packageType.string, p.id.string, p.name⟩

-- A row with a null in one of these columns is equal to nothing.
def Row.key (r : Row) : Option Key :=
  match r.unitType, r.unitUUID, r.name with
  | some unitType, some unitUUID, some name => some (Key.folded fold ⟨unitType, unitUUID, name⟩)
  | _, _, _ => none

def newRow (p : Params) (w : Option Str × Option UUID) (pk : UUID) : Row :=
  ⟨pk, some p.packageType.string, some p.id.string, some p.name, w.1, w.2⟩

-- ReadUnitVar: with several matching rows, any of them.
def Reads (rows : List Row) (k : Key) : Option Row → Prop
  | none => ∀ r ∈ rows, r.key fold ≠ some k
  | some r => r ∈ rows ∧ r.key fold = some k

instance (rows : List Row) (k : Key) (found : Option Row) : Decidable (Reads fold rows k found) :=
  match found with
  | none => inferInstanceAs (Decidable (∀ r ∈ rows, r.key fold ≠ some k))
  | some r => inferInstanceAs (Decidable (r ∈ rows ∧ r.key fold = some k))

def updateUnitVar (k : Key) (w : Option Str × Option UUID) (rows : List Row) : List Row :=
  rows.map fun r => if r.key fold = some k then { r with value := w.1, linkID := w.2 } else r

def State.setPhase (s : State) (i : Nat) (p : Params) (phase : Phase) : State :=
  { s with calls := s.calls.set i (p, phase) }

def failed (text : String) : Phase → Option Phase
  | .reading => some (.returned (some text))
  | .updating _ => some (.returned (some ("update: " ++ text)))
  | .inserting _ => some (.returned (some ("create: " ++ text)))
  | .committing => some (.returned (some text))
  | .returned _ => none

def step (s : State) : Event → Option State
  | .call p => some { s with calls := s.calls ++ [(p, .reading)] }
  | .read i found =>
      match s.calls[i]? with
      | some (p, .reading) =>
          if Reads fold s.rows (p.key fold) found then some (s.setPhase i p (resolve p found)) else none
      | _ => none
  | .write i pk =>
      match s.calls[i]? with
      | some (p, .updating w) =>
          some (State.setPhase { s with rows := updateUnitVar fold (p.key fold) w s.rows } i p
            (.returned none))
      | some (p, .inserting w) =>
          if pk ∈ s.rows.map Row.pk then none
          else some (State.setPhase { s with rows := s.rows ++ [newRow p w pk] } i p .committing)
      | _ => none
  | .commit i =>
      match s.calls[i]? with
      | some (p, .committing) => some (s.setPhase i p (.returned none))
      | _ => none
  | .fail i text =>
      match s.calls[i]? with
      | some (p, phase) => (failed text phase).map (s.setPhase i p)
      | none => none

def AtMostOne (rows : List Row) : Prop := ∀ k, rows.countP (fun r => r.key fold = some k) ≤ 1

-- Both reads of a variable have one answer.
def OneAnswer (rows : List Row) : Prop :=
  ∀ k found found', Reads fold rows k found → Reads fold rows k found' → found = found'

-- A call that is about to insert.
def State.inserts (s : State) (i : Nat) : Option Params :=
  match s.calls[i]? with
  | some (p, .inserting _) => some p
  | _ => none

-- The calls that had read, and had not yet inserted, when another call inserted
-- for their variable.
def overtake (s : State) (e : Event) (late : List Nat) : List Nat :=
  match e with
  | .write j _ =>
      match s.inserts j with
      | some q =>
          late ++ (List.range s.calls.length).filter fun i =>
            i ≠ j ∧ ((s.inserts i).map (Params.key fold)) = some (q.key fold)
      | none => late
  | _ => late

def overtaken (rows : List Row) (es : List Event) : List Nat :=
  follow (step fold) (overtake fold) (start rows) es []

-- No call inserts once it has been overtaken.
def InTime (rows : List Row) (es : List Event) : Prop :=
  ∀ front i pk back s next, es = front ++ .write i pk :: back →
    run (step fold) (start rows) front = some s → step fold s (.write i pk) = some next →
    (s.inserts i).isSome → i ∉ overtaken fold rows front

inductive Moves (s : State) : Event → State → Prop
  | call {p : Params} : Moves s (.call p) { s with calls := s.calls ++ [(p, .reading)] }
  | read {i : Nat} {found : Option Row} {p : Params} (hcall : s.calls[i]? = some (p, .reading))
      (hfound : Reads fold s.rows (p.key fold) found) :
      Moves s (.read i found) (s.setPhase i p (resolve p found))
  | update {i : Nat} {pk : UUID} {p : Params} {w : Option Str × Option UUID}
      (hcall : s.calls[i]? = some (p, .updating w)) :
      Moves s (.write i pk)
        (State.setPhase { s with rows := updateUnitVar fold (p.key fold) w s.rows } i p
          (.returned none))
  | insert {i : Nat} {pk : UUID} {p : Params} {w : Option Str × Option UUID}
      (hcall : s.calls[i]? = some (p, .inserting w)) (hpk : pk ∉ s.rows.map Row.pk) :
      Moves s (.write i pk)
        (State.setPhase { s with rows := s.rows ++ [newRow p w pk] } i p .committing)
  | commit {i : Nat} {p : Params} (hcall : s.calls[i]? = some (p, .committing)) :
      Moves s (.commit i) (s.setPhase i p (.returned none))
  | fail {i : Nat} {text : String} {p : Params} {phase : Phase} {err : Option String}
      (hcall : s.calls[i]? = some (p, phase)) :
      Moves s (.fail i text) (s.setPhase i p (.returned err))

variable {fold}

theorem moves_of_step {s next : State} {e : Event} (h : step fold s e = some next) :
    Moves fold s e next := by
  cases e with
  | call p =>
      obtain rfl := Option.some.inj h
      exact .call
  | read i found =>
      simp only [step] at h
      split at h
      · next p hcall =>
          split_ifs at h with hfound
          obtain rfl := Option.some.inj h
          exact .read hcall hfound
      · cases h
  | write i pk =>
      simp only [step] at h
      split at h
      · next p w hcall =>
          obtain rfl := Option.some.inj h
          exact .update hcall
      · next p w hcall =>
          split_ifs at h with hpk
          obtain rfl := Option.some.inj h
          exact .insert hcall hpk
      · cases h
  | commit i =>
      simp only [step] at h
      split at h
      · next p hcall =>
          obtain rfl := Option.some.inj h
          exact .commit hcall
      · cases h
  | fail i text =>
      simp only [step] at h
      split at h
      · next p phase hcall =>
          cases phase <;> simp only [failed, Option.map_some, Option.map_none] at h
          all_goals first
            | (obtain rfl := Option.some.inj h; exact .fail hcall)
            | cases h
      · cases h

def Phase.inserts : Phase → Bool
  | .inserting _ => true
  | _ => false

theorem inserts_eq_some_iff {s : State} {i : Nat} {p : Params} :
    s.inserts i = some p ↔ ∃ phase, s.calls[i]? = some (p, phase) ∧ phase.inserts := by
  simp only [State.inserts]
  constructor
  · intro h
    split at h
    · next q w hcall =>
        obtain rfl := Option.some.inj h
        exact ⟨_, hcall, rfl⟩
    · cases h
  · rintro ⟨phase, hcall, hphase⟩
    cases phase with
    | inserting w => rw [hcall]
    | _ => cases hphase

theorem inserts_setPhase {s : State} {i : Nat} {call : Params × Phase} (p : Params) (phase : Phase)
    (hcall : s.calls[i]? = some call) {j : Nat} {q : Params} :
    (s.setPhase i p phase).inserts j = some q ↔
      (j = i ∧ q = p ∧ phase.inserts) ∨ (j ≠ i ∧ s.inserts j = some q) := by
  obtain ⟨hlt, -⟩ := List.getElem?_eq_some_iff.mp hcall
  rw [inserts_eq_some_iff, inserts_eq_some_iff, State.setPhase]
  by_cases hj : j = i
  · subst hj
    simp [hlt]
    grind
  · simp [Ne.symm hj, hj]

theorem inserts_of_returned {s : State} {i : Nat} {p : Params} {phase : Phase}
    (hcall : s.calls[i]? = some (p, phase)) (hphase : phase.inserts = false) : s.inserts i = none := by
  cases h : s.inserts i with
  | none => rfl
  | some q =>
      obtain ⟨phase', hcall', hinserts⟩ := inserts_eq_some_iff.mp h
      rw [hcall] at hcall'
      obtain ⟨rfl, rfl⟩ := Prod.mk.inj (Option.some.inj hcall')
      rw [hphase] at hinserts
      cases hinserts

-- The keys of the table; they change only where a row is inserted.
def keys (fold : Str → Str) (s : State) : List (Option Key) := s.rows.map (Row.key fold)

def Event.inserted (s : State) : Event → Option Params
  | .write i _ => s.inserts i
  | _ => none

theorem map_key_updateUnitVar (k : Key) (w : Option Str × Option UUID) (rows : List Row) :
    (updateUnitVar fold k w rows).map (Row.key fold) = rows.map (Row.key fold) := by
  rw [updateUnitVar, List.map_map]
  apply List.map_congr_left
  intro r _
  simp only [Function.comp_apply]
  split_ifs <;> rfl

theorem keys_of_step {s next : State} {e : Event} (h : step fold s e = some next) :
    keys fold next = keys fold s ++ ((e.inserted s).map fun p => some (p.key fold)).toList := by
  cases moves_of_step h with
  | call => simp [keys, Event.inserted]
  | read hcall hfound => simp [keys, Event.inserted, State.setPhase]
  | update hcall =>
      simp [keys, Event.inserted, State.setPhase, inserts_of_returned hcall rfl,
        map_key_updateUnitVar]
  | insert hcall hpk =>
      have hins : s.inserts _ = some _ := inserts_eq_some_iff.mpr ⟨_, hcall, rfl⟩
      simp [keys, Event.inserted, State.setPhase, hins, Row.key, newRow, Params.key]
  | commit hcall => simp [keys, Event.inserted, State.setPhase]
  | fail hcall => simp [keys, Event.inserted, State.setPhase]

theorem atMostOne_iff {s : State} :
    AtMostOne fold s.rows ↔ ∀ k, (keys fold s).count (some k) ≤ 1 := by
  have hcount : ∀ k, (keys fold s).count (some k) = s.rows.countP fun r => r.key fold = some k := by
    intro k
    rw [keys, List.count, List.countP_map]
    apply List.countP_congr
    simp
  simp only [AtMostOne, hcount]

-- One more row for a variable is one too many exactly where it has one.
theorem atMostOne_step_iff {s next : State} {e : Event} (h : step fold s e = some next)
    (hone : AtMostOne fold s.rows) :
    AtMostOne fold next.rows ↔ ∀ p, e.inserted s = some p → some (p.key fold) ∉ keys fold s := by
  rw [atMostOne_iff] at hone ⊢
  rw [keys_of_step h]
  cases hins : e.inserted s with
  | none => simpa using hone
  | some p =>
      simp only [Option.map_some, Option.toList_some, List.count_append, List.count_singleton,
        Option.some.injEq, forall_eq']
      constructor
      · intro hall hmem
        have hpos := List.count_pos_iff.mpr hmem
        have hle := hall (p.key fold)
        simp at hle
        omega
      · intro hnew k
        by_cases hk : p.key fold = k
        · subst hk
          have hzero := List.count_eq_zero.mpr hnew
          simp [hzero]
        · have hle := hone k
          simpa [hk] using hle

-- A call that is about to insert has been overtaken exactly when its variable has
-- a row: there was none when it read.
structure Tracked (fold : Str → Str) (late : List Nat) (s : State) : Prop where
  read : ∀ i ∈ late, ∃ p phase, s.calls[i]? = some (p, phase) ∧ phase ≠ .reading
  row_iff : ∀ i p, s.inserts i = some p → (some (p.key fold) ∈ keys fold s ↔ i ∈ late)

theorem resolve_ne_reading (p : Params) (found : Option Row) : resolve p found ≠ .reading := by
  unfold resolve
  split
  · exact Phase.noConfusion
  · split_ifs
    · exact Phase.noConfusion
    · exact Phase.noConfusion
    · split <;> exact Phase.noConfusion

theorem found_eq_none_of_inserts {p : Params} {found : Option Row}
    (h : (resolve p found).inserts = true) : found = none := by
  cases found with
  | none => rfl
  | some r =>
      unfold resolve at h
      split at h
      · cases h
      · split_ifs at h <;> cases h

theorem overtake_of_inserted_eq_none {s : State} {e : Event} (h : e.inserted s = none)
    (late : List Nat) : overtake fold s e late = late := by
  cases e with
  | write i pk =>
      have hnone : s.inserts i = none := h
      simp only [overtake, hnone]
  | _ => rfl

theorem read_setPhase {late : List Nat} {s : State} {i : Nat} {call : Params × Phase} {p : Params}
    {phase : Phase} (hcall : s.calls[i]? = some call) (hphase : phase ≠ .reading)
    (hread : ∀ i ∈ late, ∃ p phase, s.calls[i]? = some (p, phase) ∧ phase ≠ .reading) :
    ∀ i' ∈ late, ∃ p' phase', (s.setPhase i p phase).calls[i']? = some (p', phase') ∧
      phase' ≠ .reading := by
  obtain ⟨hlt, -⟩ := List.getElem?_eq_some_iff.mp hcall
  intro j hj
  by_cases hji : j = i
  · subst hji
    exact ⟨p, phase, by simp [State.setPhase, hlt], hphase⟩
  · obtain ⟨q, phase', hq, hne⟩ := hread j hj
    exact ⟨q, phase', by simpa [State.setPhase, Ne.symm hji] using hq, hne⟩

-- The steps of a call that neither reads nor inserts.
theorem Tracked.setPhase {late : List Nat} {s : State} {rows : List Row} {i : Nat}
    {call : Params × Phase} {p : Params} {phase : Phase} (hs : Tracked fold late s)
    (hrows : rows.map (Row.key fold) = keys fold s) (hcall : s.calls[i]? = some call)
    (hphase : phase ≠ .reading) (hinserts : phase.inserts = false) :
    Tracked fold late (State.setPhase { s with rows := rows } i p phase) where
  read := read_setPhase (s := { s with rows := rows }) hcall hphase hs.read
  row_iff := by
    intro j q hj
    rcases (inserts_setPhase (s := { s with rows := rows }) p phase hcall).mp hj with
      ⟨-, -, h⟩ | ⟨-, h⟩
    · rw [hinserts] at h
      cases h
    · have hkeys : keys fold (State.setPhase { s with rows := rows } i p phase) = keys fold s := hrows
      rw [hkeys]
      exact hs.row_iff j q h

theorem tracked_step {late : List Nat} {s next : State} {e : Event} (hs : Tracked fold late s)
    (h : step fold s e = some next) : Tracked fold (overtake fold s e late) next := by
  cases moves_of_step h with
  | @call p =>
      rw [overtake_of_inserted_eq_none rfl]
      have hcalls : ∀ {i : Nat} {q : Params} {phase : Phase}, phase ≠ .reading →
          ((s.calls ++ [(p, Phase.reading)])[i]? = some (q, phase) ↔ s.calls[i]? = some (q, phase)) := by
        intro i q phase hne
        rw [List.getElem?_append]
        split_ifs with hlt
        · rfl
        · rw [List.getElem?_eq_none (Nat.not_lt.mp hlt)]
          constructor
          · intro hnew
            rw [List.getElem?_singleton] at hnew
            split_ifs at hnew
            obtain ⟨-, rfl⟩ := Prod.mk.inj (Option.some.inj hnew)
            exact absurd rfl hne
          · intro hnone
            cases hnone
      constructor
      · intro i hi
        obtain ⟨q, phase, hq, hne⟩ := hs.read i hi
        exact ⟨q, phase, (hcalls hne).mpr hq, hne⟩
      · intro i q hq
        obtain ⟨phase, hcall, hphase⟩ := inserts_eq_some_iff.mp hq
        have hne : phase ≠ .reading := by
          rintro rfl
          cases hphase
        exact hs.row_iff i q (inserts_eq_some_iff.mpr ⟨phase, (hcalls hne).mp hcall, hphase⟩)
  | @read i found p hcall hfound =>
      rw [overtake_of_inserted_eq_none rfl]
      refine ⟨read_setPhase hcall (resolve_ne_reading p found) hs.read, fun j q hj => ?_⟩
      rcases (inserts_setPhase p _ hcall).mp hj with ⟨rfl, rfl, hins⟩ | ⟨-, hins⟩
      · -- the call found no row, and has not been about to insert before
        obtain rfl := found_eq_none_of_inserts hins
        have hno : some (q.key fold) ∉ keys fold s := by
          rw [keys, List.mem_map]
          rintro ⟨r, hr, hkey⟩
          exact hfound r hr hkey
        refine iff_of_false hno fun hover => ?_
        obtain ⟨_, _, hcall', hne⟩ := hs.read j hover
        rw [hcall] at hcall'
        obtain ⟨-, rfl⟩ := Prod.mk.inj (Option.some.inj hcall')
        exact hne rfl
      · exact hs.row_iff j q hins
  | @update i pk p w hcall =>
      rw [overtake_of_inserted_eq_none (e := .write i pk) (inserts_of_returned hcall rfl)]
      exact hs.setPhase (map_key_updateUnitVar _ _ _) hcall Phase.noConfusion rfl
  | @insert i pk p w hcall hpk =>
      have hins : s.inserts i = some p := inserts_eq_some_iff.mpr ⟨_, hcall, rfl⟩
      have hmem : ∀ {j : Nat} {q : Params}, s.inserts j = some q → j ≠ i →
          (j ∈ overtake fold s (.write i pk) late ↔ j ∈ late ∨ q.key fold = p.key fold) := by
        intro j q hq hji
        obtain ⟨phase, hj, -⟩ := inserts_eq_some_iff.mp hq
        obtain ⟨hlt, -⟩ := List.getElem?_eq_some_iff.mp hj
        simp [overtake, hins, hq, hji, hlt]
      constructor
      · apply read_setPhase (s := { s with rows := s.rows ++ [newRow p w pk] }) hcall
          Phase.noConfusion
        intro j hj
        simp only [overtake, hins, List.mem_append, List.mem_filter, decide_eq_true_eq,
          Option.map_eq_some_iff] at hj
        rcases hj with hj | ⟨-, -, q, hq, -⟩
        · exact hs.read j hj
        · obtain ⟨phase, hcall', hphase⟩ := inserts_eq_some_iff.mp hq
          refine ⟨q, phase, hcall', ?_⟩
          rintro rfl
          cases hphase
      · intro j q hj
        rcases (inserts_setPhase (s := { s with rows := s.rows ++ [newRow p w pk] }) p _
          hcall).mp hj with ⟨-, -, hc⟩ | ⟨hji, hq⟩
        · cases hc
        · have hq' : s.inserts j = some q := hq
          have hadded : (Event.write i pk).inserted s = some p := hins
          rw [keys_of_step h, hmem hq' hji, ← hs.row_iff j q hq', hadded]
          simp
  | commit hcall =>
      rw [overtake_of_inserted_eq_none rfl]
      exact hs.setPhase rfl hcall Phase.noConfusion rfl
  | fail hcall =>
      rw [overtake_of_inserted_eq_none rfl]
      exact hs.setPhase rfl hcall Phase.noConfusion rfl

theorem tracked_run {rows : List Row} {es : List Event} {s : State}
    (h : run (step fold) (start rows) es = some s) : Tracked fold (overtaken fold rows es) s := by
  refine run_induction (step fold) (start rows)
    (fun es s => Tracked fold (overtaken fold rows es) s) ?_ ?_ es s h
  · constructor
    · intro i hi
      cases hi
    · intro i p hp
      obtain ⟨phase, hcall, -⟩ := inserts_eq_some_iff.mp hp
      cases hcall
  · intro es s e next hrun hs hstep
    rw [overtaken, follow_snoc (step fold) (overtake fold) [] hrun hstep]
    exact tracked_step hs hstep

theorem oneAnswer_of_atMostOne {rows : List Row} (h : AtMostOne fold rows) : OneAnswer fold rows := by
  intro k found found' hfound hfound'
  cases found with
  | none =>
      cases found' with
      | none => rfl
      | some r => exact absurd hfound'.2 (hfound r hfound'.1)
  | some r =>
      cases found' with
      | none => exact absurd hfound.2 (hfound' r hfound.1)
      | some r' =>
          have hle := h k
          rw [List.countP_eq_length_filter] at hle
          have hr : r ∈ rows.filter fun r => r.key fold = some k :=
            List.mem_filter.mpr ⟨hfound.1, by simpa using hfound.2⟩
          have hr' : r' ∈ rows.filter fun r => r.key fold = some k :=
            List.mem_filter.mpr ⟨hfound'.1, by simpa using hfound'.2⟩
          have hlen : (rows.filter fun r => r.key fold = some k).length = 1 :=
            Nat.le_antisymm hle (List.length_pos_of_mem hr)
          obtain ⟨r₀, hr₀⟩ := List.length_eq_one_iff.mp hlen
          rw [hr₀, List.mem_singleton] at hr hr'
          rw [hr, hr']

-- Every variable keeps at most one row all along an interleaving of calls exactly
-- when no call inserts after another one has inserted for the same variable since
-- its read.
theorem always_atMostOne_iff (rows : List Row) (hrows : AtMostOne fold rows) (es : List Event) :
    Always (step fold) (fun s => AtMostOne fold s.rows ∧ OneAnswer fold s.rows) (start rows) es ↔
      InTime fold rows es := by
  have honly : ∀ s : State, AtMostOne fold s.rows ∧ OneAnswer fold s.rows ↔ AtMostOne fold s.rows :=
    fun s => and_iff_left_of_imp oneAnswer_of_atMostOne
  simp only [honly]
  rw [always_iff_meets (step fold) (fun _ => True) (fun s => AtMostOne fold s.rows)
    (fun s e => ∀ p, e.inserted s = some p → some (p.key fold) ∉ keys fold s)
    (fun _ _ _ _ _ => trivial) (fun s e next _ hone hstep => atMostOne_step_iff hstep hone)
    es trivial hrows, meets_iff_run]
  constructor
  · intro h front i pk back s next hes hrun hstep hins
    obtain ⟨p, hp⟩ := Option.isSome_iff_exists.mp hins
    rw [← (tracked_run hrun).row_iff i p hp]
    exact h front (.write i pk) back s next hes hrun hstep p hp
  · intro h front e back s next hes hrun hstep p hp
    cases e with
    | write i pk =>
        have hins : s.inserts i = some p := hp
        rw [(tracked_run hrun).row_iff i p hins]
        exact h front i pk back s next hes hrun hstep (by rw [hins]; rfl)
    | _ => cases hp

end Step

-- saveValue of the active agent, and of the choice of another link.
def saveAgent : Params := ⟨⟨7⟩, .transfer, "activeAgent".toList, "1".toList, UUID.nil, true⟩

def saveLink : Params := ⟨⟨7⟩, .transfer, "reNormalize".toList, [], ⟨5⟩, true⟩

def agentRow : Row :=
  ⟨⟨0x10⟩, some "Transfer".toList, some (⟨7⟩ : UUID).string, some "activeAgent".toList, some "2".toList, none⟩

def sipRow : Row :=
  ⟨⟨0x11⟩, some "SIP".toList, some (⟨7⟩ : UUID).string, some "activeAgent".toList, some "2".toList, none⟩

-- The agent is changed while one call inserts the link, and the next one finds it.
def saves : List Event :=
  [.call saveLink, .call saveAgent, .read 0 none, .read 1 (some agentRow), .call saveLink, .write 0 ⟨0x12⟩,
    .read 2 (some (newRow saveLink (some [], some ⟨5⟩) ⟨0x12⟩)), .write 1 ⟨0x13⟩, .commit 0]

theorem always_atMostOne_iff_saveAgent :
    (run (step id) (start [agentRow, sipRow]) saves).isSome ∧
      Always (step id) (fun s => AtMostOne id s.rows ∧ OneAnswer id s.rows) (start [agentRow, sipRow]) saves := by
  have hrows : AtMostOne id [agentRow, sipRow] := by
    intro k
    have hdiffer : agentRow.key id ≠ sipRow.key id := by decide
    by_cases hagent : agentRow.key id = some k
    · have hsip : sipRow.key id ≠ some k := fun h => hdiffer (hagent.trans h.symm)
      simp [hagent, hsip]
    · simp only [List.countP_cons, List.countP_nil, hagent, decide_false, Bool.false_eq_true, if_false]
      split_ifs <;> decide
  have hlate : ∀ n < saves.length, overtaken id [agentRow, sipRow] (saves.take n) = [] := by decide +kernel
  refine ⟨by decide +kernel, (always_atMostOne_iff _ hrows saves).mpr ?_⟩
  intro front i pk back s next hes _ _ _
  have hlt : front.length < saves.length := by
    rw [hes, List.length_append, List.length_cons]
    omega
  have hfront := hlate front.length hlt
  rw [hes, List.take_left] at hfront
  rw [hfront]
  exact List.not_mem_nil

-- Two calls read before either of them inserts.
theorem not_always_atMostOne :
    ¬ Always (step id) (fun s => AtMostOne id s.rows ∧ OneAnswer id s.rows) (start [])
      [.call saveAgent, .call saveAgent, .read 0 none, .read 1 none, .write 0 ⟨1⟩, .write 1 ⟨2⟩] := by
  intro h
  have hrun : run (step id) (start [])
      [.call saveAgent, .call saveAgent, .read 0 none, .read 1 none, .write 0 ⟨1⟩, .write 1 ⟨2⟩] =
      some ⟨[newRow saveAgent (some "1".toList, none) ⟨1⟩,
          newRow saveAgent (some "1".toList, none) ⟨2⟩],
        [(saveAgent, .committing), (saveAgent, .committing)]⟩ := by
    decide
  have htwo := ((always_iff_run _ _ _ _).mp h _ [] _ (List.append_nil _).symm hrun).1
    (saveAgent.key id)
  revert htwo
  decide

end UnitVars

end Ccp
