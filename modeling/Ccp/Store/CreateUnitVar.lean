import Ccp.Lib.Table
import Ccp.Store.UnitVars

namespace Ccp

open Lib

namespace UnitVars

-- ReadUnitVar and ReadUnitLinkID of the row that was found, a NULL read as nothing.
def Row.readValue (r : Row) : Str := r.value.getD []

def Row.readLinkID (r : Row) : UUID := r.linkID.getD UUID.nil

-- Exactly one of the two is given.
def Params.Given (p : Params) : Prop :=
  (p.value ≠ [] ∧ p.linkID = UUID.nil) ∨ (p.value = [] ∧ p.linkID ≠ UUID.nil)

-- The value and the link that the row of a call has.
def Params.wanted (p : Params) : Option Str × Option UUID :=
  if p.linkID = UUID.nil then (some p.value, none) else (some [], some p.linkID)

section Alone

variable (fold : Str → Str) (rows : List Row) (p : Params)

-- A call that no other call runs beside, up to its return, and no statement of which
-- fails.
def Alone (es : List Event) (err : Option String) (rows' : List Row) : Prop :=
  run (step fold) (start rows) es = some ⟨rows', [(p, .returned err)]⟩ ∧
    ∀ e ∈ es, ∀ i text, e ≠ .fail i text

-- What a call alone should do, by what the table has for its variable.
structure Contract (err : Option String) (rows' : List Row) : Prop where
  created : (∀ r ∈ rows, r.key fold ≠ some (p.key fold)) →
    err = none ∧ ∃ pk, pk ∉ rows.map Row.pk ∧ rows' = rows ++ [newRow p p.wanted pk]
  kept : ∀ r ∈ rows, r.key fold = some (p.key fold) → (r.value, r.linkID) = p.wanted →
    err = none ∧ rows' = rows
  updated : ∀ r ∈ rows, r.key fold = some (p.key fold) → (r.value, r.linkID) ≠ p.wanted →
    p.updateExisting = true →
      err = none ∧ rows' = updateUnitVar fold (p.key fold) p.wanted rows
  refused : ∀ r ∈ rows, r.key fold = some (p.key fold) → (r.value, r.linkID) ≠ p.wanted →
    p.updateExisting = false → err ≠ none ∧ rows' = rows
  read : err = none → ∀ found, Reads fold rows' (p.key fold) found →
    ∃ r, found = some r ∧ r.readValue = p.value ∧ r.readLinkID = p.linkID
  frame : rows'.filter (fun r => r.key fold ≠ some (p.key fold)) =
    rows.filter fun r => r.key fold ≠ some (p.key fold)

-- Where a call alone comes to, and the rows then.
inductive Reached : Phase → List Row → Prop
  | reading : Reached .reading rows
  | resolved {found : Option Row} (hfound : Reads fold rows (p.key fold) found) :
      Reached (resolve p found) rows
  | updated {found : Option Row} {w : Option Str × Option UUID}
      (hfound : Reads fold rows (p.key fold) found) (hw : resolve p found = .updating w) :
      Reached (.returned none) (updateUnitVar fold (p.key fold) w rows)
  | inserted {found : Option Row} {w : Option Str × Option UUID} {pk : UUID}
      (hfound : Reads fold rows (p.key fold) found) (hw : resolve p found = .inserting w)
      (hpk : pk ∉ rows.map Row.pk) : Reached .committing (rows ++ [newRow p w pk])
  | committed {found : Option Row} {w : Option Str × Option UUID} {pk : UUID}
      (hfound : Reads fold rows (p.key fold) found) (hw : resolve p found = .inserting w)
      (hpk : pk ∉ rows.map Row.pk) : Reached (.returned none) (rows ++ [newRow p w pk])

-- The call from the row that it reads to its return, with the primary key of a new row.
def createUnitVar (found : Option Row) (pk : UUID) : Option String × List Row :=
  match resolve p found with
  | .returned err => (err, rows)
  | .updating w => (none, updateUnitVar fold (p.key fold) w rows)
  | .inserting w => (none, rows ++ [newRow p w pk])
  | .reading | .committing => (none, rows)

end Alone

section Runs

variable {fold : Str → Str} {rows : List Row}

theorem reached_updating {p : Params} {w : Option Str × Option UUID} {rows' : List Row}
    (h : Reached fold rows p (.updating w) rows') :
    rows' = rows ∧ ∃ found, Reads fold rows (p.key fold) found ∧ resolve p found = .updating w := by
  generalize hphase : Phase.updating w = phase at h
  cases h with
  | resolved hfound => exact ⟨rfl, _, hfound, rfl⟩
  | _ => cases hphase

theorem reached_inserting {p : Params} {w : Option Str × Option UUID} {rows' : List Row}
    (h : Reached fold rows p (.inserting w) rows') :
    rows' = rows ∧ ∃ found, Reads fold rows (p.key fold) found ∧ resolve p found = .inserting w := by
  generalize hphase : Phase.inserting w = phase at h
  cases h with
  | resolved hfound => exact ⟨rfl, _, hfound, rfl⟩
  | _ => cases hphase

theorem reached_reading {p : Params} {rows' : List Row} (h : Reached fold rows p .reading rows') :
    rows' = rows := by
  generalize hphase : Phase.reading = phase at h
  cases h with
  | reading => rfl
  | resolved hfound => exact absurd hphase.symm (resolve_ne_reading p _)
  | _ => cases hphase

theorem resolve_ne_committing (p : Params) (found : Option Row) : resolve p found ≠ .committing := by
  unfold resolve
  split
  · exact Phase.noConfusion
  · split_ifs
    · exact Phase.noConfusion
    · exact Phase.noConfusion
    · split <;> exact Phase.noConfusion

theorem reached_committing {p : Params} {rows' : List Row}
    (h : Reached fold rows p .committing rows') : Reached fold rows p (.returned none) rows' := by
  generalize hphase : Phase.committing = phase at h
  cases h with
  | inserted hfound hw hpk => exact .committed hfound hw hpk
  | resolved hfound => exact absurd hphase.symm (resolve_ne_committing p _)
  | _ => cases hphase

-- At most one call so far.
def Single (fold : Str → Str) (rows : List Row) (s : State) : Prop :=
  s.calls.length ≤ 1 → (s.calls = [] ∧ s.rows = rows) ∨
    ∃ p phase, s.calls = [(p, phase)] ∧ Reached fold rows p phase s.rows

theorem Single.at {s : State} (hs : Single fold rows s) {i : Nat} {p : Params} {phase : Phase}
    (hlen : s.calls.length ≤ 1) (hcall : s.calls[i]? = some (p, phase)) :
    i = 0 ∧ s.calls = [(p, phase)] ∧ Reached fold rows p phase s.rows := by
  rcases hs hlen with ⟨hnil, -⟩ | ⟨q, phase', hone, hreached⟩
  · rw [hnil] at hcall
    cases hcall
  · rw [hone] at hcall
    cases i with
    | zero =>
        obtain ⟨rfl, rfl⟩ := Prod.mk.inj (Option.some.inj hcall)
        exact ⟨rfl, hone, hreached⟩
    | succ i => cases hcall

theorem single_setPhase {s : State} (hs : Single fold rows s) {i : Nat} {p : Params} {phase : Phase}
    (hcall : s.calls[i]? = some (p, phase)) {rows' : List Row} {phase' : Phase}
    (hnext : Reached fold rows p phase s.rows → Reached fold rows p phase' rows') :
    Single fold rows (State.setPhase { s with rows := rows' } i p phase') := by
  intro hlen
  have hlen' : s.calls.length ≤ 1 := by simpa [State.setPhase] using hlen
  obtain ⟨rfl, hone, hreached⟩ := hs.at hlen' hcall
  exact Or.inr ⟨p, phase', by simp [State.setPhase, hone], hnext hreached⟩

theorem single_step {s next : State} {e : Event} (hs : Single fold rows s)
    (hfail : ∀ i text, e ≠ .fail i text) (hstep : step fold s e = some next) :
    Single fold rows next := by
  cases moves_of_step hstep with
  | @call p =>
      intro hlen
      rw [List.length_append, List.length_singleton] at hlen
      rcases hs (by omega) with ⟨hnil, hrows⟩ | ⟨q, phase, hone, -⟩
      · right
        refine ⟨p, .reading, by rw [hnil]; rfl, ?_⟩
        rw [hrows]
        exact .reading
      · rw [hone, List.length_singleton] at hlen
        omega
  | read hcall hfound =>
      refine single_setPhase hs hcall fun hreached => ?_
      have hrows := reached_reading hreached
      rw [hrows] at hfound ⊢
      exact .resolved hfound
  | update hcall =>
      refine single_setPhase hs hcall fun hreached => ?_
      obtain ⟨hrows, found, hfound, hw⟩ := reached_updating hreached
      rw [hrows]
      exact .updated hfound hw
  | insert hcall hpk =>
      refine single_setPhase hs hcall fun hreached => ?_
      obtain ⟨hrows, found, hfound, hw⟩ := reached_inserting hreached
      rw [hrows] at hpk ⊢
      exact .inserted hfound hw hpk
  | commit hcall => exact single_setPhase hs hcall reached_committing
  | fail hcall => exact absurd rfl (hfail _ _)

theorem reached_of_alone {p : Params} {es : List Event} {err : Option String} {rows' : List Row}
    (h : Alone fold rows p es err rows') : Reached fold rows p (.returned err) rows' := by
  have hsingle : (∀ e ∈ es, ∀ i text, e ≠ .fail i text) →
      Single fold rows ⟨rows', [(p, .returned err)]⟩ := by
    refine run_induction (step fold) (start rows)
      (fun es s => (∀ e ∈ es, ∀ i text, e ≠ .fail i text) → Single fold rows s) ?_ ?_ es _ h.1
    · exact fun _ _ => Or.inl ⟨rfl, rfl⟩
    · intro es s e next _ hs hstep hfail
      refine single_step (hs fun e he => hfail e (List.mem_append_left _ he)) ?_ hstep
      exact hfail e (by simp)
  obtain ⟨-, -, hreached⟩ := (hsingle h.2).at (i := 0) (by simp) rfl
  exact hreached

-- Every call alone comes to its return.
theorem alone_createUnitVar {p : Params} {found : Option Row} {pk : UUID}
    (hfound : Reads fold rows (p.key fold) found) (hpk : pk ∉ rows.map Row.pk) :
    ∃ es, Alone fold rows p es (createUnitVar fold rows p found pk).1
      (createUnitVar fold rows p found pk).2 := by
  have hread : run (step fold) (start rows) [.call p, .read 0 found] =
      some ⟨rows, [(p, resolve p found)]⟩ := by
    simp [run_cons, step, start, State.setPhase, hfound]
  unfold createUnitVar
  cases hphase : resolve p found with
  | reading => exact absurd hphase (resolve_ne_reading p found)
  | committing => exact absurd hphase (resolve_ne_committing p found)
  | returned err =>
      rw [hphase] at hread
      exact ⟨_, hread, by simp⟩
  | updating w =>
      rw [hphase] at hread
      refine ⟨[.call p, .read 0 found] ++ [.write 0 pk], ?_, by simp⟩
      rw [run_append, hread, Option.bind_some, run_singleton]
      rfl
  | inserting w =>
      rw [hphase] at hread
      refine ⟨[.call p, .read 0 found] ++ [.write 0 pk, .commit 0], ?_, by simp⟩
      rw [run_append, hread, Option.bind_some]
      simp [run_cons, step, State.setPhase, hpk]

theorem exists_reads (rows : List Row) (k : Key) : ∃ found, Reads fold rows k found := by
  by_cases h : ∃ r ∈ rows, r.key fold = some k
  · obtain ⟨r, hr, hkey⟩ := h
    exact ⟨some r, hr, hkey⟩
  · exact ⟨none, fun r hr hkey => h ⟨r, hr, hkey⟩⟩

end Runs

section Contract

variable {fold : Str → Str} {rows : List Row} {p : Params}

theorem want_of_given (hgiven : p.Given) : want p = .ok p.wanted := by
  rcases hgiven with ⟨hvalue, hlink⟩ | ⟨hvalue, hlink⟩
  · simp [want, Params.wanted, hvalue, hlink]
  · simp [want, Params.wanted, hvalue, hlink]

theorem resolve_of_given (hgiven : p.Given) (found : Option Row) : resolve p found =
    if found.map (fun r => (r.value, r.linkID)) = some p.wanted then .returned none
    else if p.updateExisting = false then
      .returned (some "variable exists but with different propreties")
    else match found with
      | some _ => .updating p.wanted
      | none => .inserting p.wanted := by
  unfold resolve
  cases hwant : want p with
  | error err => exact nomatch hwant.symm.trans (want_of_given hgiven)
  | ok w =>
      obtain rfl : w = p.wanted := Except.ok.inj (hwant.symm.trans (want_of_given hgiven))
      rfl

-- A call that may update, by the row that it reads.
theorem createUnitVar_of_update (hgiven : p.Given) (hupdate : p.updateExisting = true)
    (found : Option Row) (pk : UUID) : createUnitVar fold rows p found pk =
      match found with
      | none => (none, rows ++ [newRow p p.wanted pk])
      | some r =>
          if (r.value, r.linkID) = p.wanted then (none, rows)
          else (none, updateUnitVar fold (p.key fold) p.wanted rows) := by
  rw [createUnitVar, resolve_of_given hgiven, hupdate]
  cases found with
  | none => rfl
  | some r =>
      by_cases hsame : (r.value, r.linkID) = p.wanted
      · rw [Option.map_some, hsame, if_pos rfl]
        simp [hsame]
      · simp [hsame]

theorem read_of_wanted (hgiven : p.Given) {r : Row} (h : (r.value, r.linkID) = p.wanted) :
    r.readValue = p.value ∧ r.readLinkID = p.linkID := by
  rcases hgiven with ⟨hvalue, hlink⟩ | ⟨hvalue, hlink⟩
  · obtain ⟨hv, hl⟩ : r.value = some p.value ∧ r.linkID = none := by
      simpa [Params.wanted, hlink] using h
    rw [Row.readValue, Row.readLinkID, hv, hl, hlink]
    exact ⟨rfl, rfl⟩
  · obtain ⟨hv, hl⟩ : r.value = some [] ∧ r.linkID = some p.linkID := by
      simpa [Params.wanted, hlink] using h
    rw [Row.readValue, Row.readLinkID, hv, hl, hvalue]
    exact ⟨rfl, rfl⟩

theorem key_newRow (w : Option Str × Option UUID) (pk : UUID) :
    (newRow p w pk).key fold = some (p.key fold) := rfl

theorem key_update (r : Row) (w : Option Str × Option UUID) :
    Row.key fold { r with value := w.1, linkID := w.2 } = r.key fold := rfl

-- What the call does, by the row that it reads.
inductive Outcome (fold : Str → Str) (rows : List Row) (p : Params) :
    Option String → List Row → Prop
  | equal {r : Row} (hr : r ∈ rows) (hkey : r.key fold = some (p.key fold))
      (hw : (r.value, r.linkID) = p.wanted) : Outcome fold rows p none rows
  | update {r : Row} (hr : r ∈ rows) (hkey : r.key fold = some (p.key fold))
      (hw : (r.value, r.linkID) ≠ p.wanted) (hupdate : p.updateExisting = true) :
      Outcome fold rows p none (updateUnitVar fold (p.key fold) p.wanted rows)
  | insert {pk : UUID} (hnone : ∀ r ∈ rows, r.key fold ≠ some (p.key fold))
      (hupdate : p.updateExisting = true) (hpk : pk ∉ rows.map Row.pk) :
      Outcome fold rows p none (rows ++ [newRow p p.wanted pk])
  -- also where there is no row
  | refuse {text : String}
      (hw : ∀ r ∈ rows, r.key fold = some (p.key fold) → (r.value, r.linkID) ≠ p.wanted)
      (hupdate : p.updateExisting = false) : Outcome fold rows p (some text) rows

theorem eq_of_atMostOne (hone : AtMostOne fold rows) {k : Key} {r r' : Row} (hr : r ∈ rows)
    (hkey : r.key fold = some k) (hr' : r' ∈ rows) (hkey' : r'.key fold = some k) : r = r' := by
  have hsame := oneAnswer_of_atMostOne hone k (some r) (some r') ⟨hr, hkey⟩ ⟨hr', hkey'⟩
  exact Option.some.inj hsame

theorem outcome_of_reached (hone : AtMostOne fold rows) (hgiven : p.Given) {err : Option String} {rows' : List Row}
    (h : Reached fold rows p (.returned err) rows') : Outcome fold rows p err rows' := by
  generalize hphase : Phase.returned err = phase at h
  cases h with
  | reading => cases hphase
  | inserted => cases hphase
  | @resolved found hfound =>
      rw [resolve_of_given hgiven] at hphase
      split_ifs at hphase with hsame hupdate
      · obtain rfl := Phase.returned.inj hphase
        obtain ⟨r, rfl, hw⟩ := Option.map_eq_some_iff.mp hsame
        exact .equal hfound.1 hfound.2 hw
      · obtain rfl := Phase.returned.inj hphase
        refine .refuse (fun r hr hkey hw => hsame ?_) hupdate
        have hr' : found = some r :=
          oneAnswer_of_atMostOne hone (p.key fold) found (some r) hfound ⟨hr, hkey⟩
        rw [hr', Option.map_some, hw]
      · cases found <;> cases hphase
  | @updated found w hfound hw =>
      obtain rfl := Phase.returned.inj hphase
      rw [resolve_of_given hgiven] at hw
      split_ifs at hw with hsame hupdate
      cases found with
      | none => cases hw
      | some r =>
          obtain rfl := Phase.updating.inj hw
          rw [Bool.not_eq_false] at hupdate
          refine .update hfound.1 hfound.2 (fun hr => hsame ?_) hupdate
          rw [Option.map_some, hr]
  | @committed found w pk hfound hw hpk =>
      obtain rfl := Phase.returned.inj hphase
      rw [resolve_of_given hgiven] at hw
      split_ifs at hw with hsame hupdate
      cases found with
      | some r => cases hw
      | none =>
          obtain rfl := Phase.inserting.inj hw
          rw [Bool.not_eq_false] at hupdate
          exact .insert hfound hupdate hpk

theorem filter_updateUnitVar (w : Option Str × Option UUID) (k : Key) :
    (updateUnitVar fold k w rows).filter (fun r => r.key fold ≠ some k) =
      rows.filter fun r => r.key fold ≠ some k :=
  Table.filter_updateWhere fun _ hkey => ⟨fun hne => hne hkey, fun hne => hne hkey⟩

theorem Outcome.frame {err : Option String} {rows' : List Row} (h : Outcome fold rows p err rows') :
    rows'.filter (fun r => r.key fold ≠ some (p.key fold)) =
      rows.filter fun r => r.key fold ≠ some (p.key fold) := by
  cases h with
  | equal => rfl
  | update => exact filter_updateUnitVar _ _
  | insert =>
      rw [List.filter_append, List.filter_cons_of_neg (by simp [key_newRow])]
      simp
  | refuse => rfl

theorem Outcome.read (hgiven : p.Given) (hone : AtMostOne fold rows) {rows' : List Row}
    (h : Outcome fold rows p none rows') {found : Option Row}
    (hfound : Reads fold rows' (p.key fold) found) :
    ∃ r, found = some r ∧ r.readValue = p.value ∧ r.readLinkID = p.linkID := by
  generalize herr : (none : Option String) = err at h
  cases h with
  | refuse => cases herr
  | equal hr hkey hw =>
      have hr' := oneAnswer_of_atMostOne hone (p.key fold) found (some _) hfound ⟨hr, hkey⟩
      exact ⟨_, hr', read_of_wanted hgiven hw⟩
  | @update r hr hkey hw hupdate =>
      have hmem : { r with value := p.wanted.1, linkID := p.wanted.2 } ∈
          updateUnitVar fold (p.key fold) p.wanted rows := by
        rw [updateUnitVar, List.mem_map]
        exact ⟨r, hr, if_pos hkey⟩
      cases found with
      | none => exact absurd ((key_update r p.wanted).trans hkey) (hfound _ hmem)
      | some r' =>
          obtain ⟨hr', hkey'⟩ := hfound
          rw [updateUnitVar, List.mem_map] at hr'
          obtain ⟨r₀, -, rfl⟩ := hr'
          split_ifs at hkey' ⊢
          · exact ⟨_, rfl, read_of_wanted hgiven rfl⟩
          · contradiction
  | @insert pk hnone hupdate hpk =>
      cases found with
      | none => exact absurd (key_newRow _ _) (hfound (newRow p p.wanted pk) (by simp))
      | some r =>
          obtain ⟨hr, hkey⟩ := hfound
          rw [List.mem_append, List.mem_singleton] at hr
          rcases hr with hr | rfl
          · exact absurd hkey (hnone r hr)
          · exact ⟨_, rfl, read_of_wanted hgiven rfl⟩

-- Where there is a row, or the call may update, each of the cases is as it should be.
theorem Outcome.contract (hgiven : p.Given) (hone : AtMostOne fold rows)
    (hwhen : (∃ r ∈ rows, r.key fold = some (p.key fold)) ∨ p.updateExisting = true)
    {err : Option String} {rows' : List Row} (h : Outcome fold rows p err rows') :
    Contract fold rows p err rows' := by
  refine ⟨fun hnone => ?_, fun r hr hkey hw => ?_, fun r hr hkey hw hupdate => ?_,
    fun r hr hkey hw hupdate => ?_, ?_, h.frame⟩
  · cases h with
    | equal hr hkey => exact absurd hkey (hnone _ hr)
    | update hr hkey => exact absurd hkey (hnone _ hr)
    | insert _ _ hpk => exact ⟨rfl, _, hpk, rfl⟩
    | refuse hw hupdate =>
        rcases hwhen with ⟨r, hr, hkey⟩ | hwhen
        · exact absurd hkey (hnone r hr)
        · rw [hupdate] at hwhen
          cases hwhen
  · cases h with
    | equal => exact ⟨rfl, rfl⟩
    | update hr' hkey' hw' =>
        rw [eq_of_atMostOne hone hr' hkey' hr hkey] at hw'
        exact absurd hw hw'
    | insert hnone => exact absurd hkey (hnone r hr)
    | refuse hw' => exact absurd hw (hw' r hr hkey)
  · cases h with
    | equal hr' hkey' hw' =>
        rw [eq_of_atMostOne hone hr' hkey' hr hkey] at hw'
        exact absurd hw' hw
    | update => exact ⟨rfl, rfl⟩
    | insert hnone => exact absurd hkey (hnone r hr)
    | refuse _ hno =>
        rw [hupdate] at hno
        cases hno
  · cases h with
    | equal hr' hkey' hw' =>
        rw [eq_of_atMostOne hone hr' hkey' hr hkey] at hw'
        exact absurd hw' hw
    | update _ _ _ hyes =>
        rw [hupdate] at hyes
        cases hyes
    | insert hnone => exact absurd hkey (hnone r hr)
    | refuse => exact ⟨by simp, rfl⟩
  · rintro rfl found hfound
    exact h.read hgiven hone hfound

-- A call alone does what it should exactly where its variable has a row or it may update.
theorem createUnitVar_contract_iff (hone : AtMostOne fold rows) (hgiven : p.Given) {es : List Event}
    {err : Option String} {rows' : List Row} (halone : Alone fold rows p es err rows') :
    Contract fold rows p err rows' ↔
      (∃ r ∈ rows, r.key fold = some (p.key fold)) ∨ p.updateExisting = true := by
  have houtcome := outcome_of_reached hone hgiven (reached_of_alone halone)
  refine ⟨fun h => ?_, fun hwhen => houtcome.contract hgiven hone hwhen⟩
  by_contra hnot
  rw [not_or, not_exists] at hnot
  have hnone : ∀ r ∈ rows, r.key fold ≠ some (p.key fold) := fun r hr hkey => hnot.1 r ⟨hr, hkey⟩
  obtain ⟨hok, -⟩ := h.created hnone
  cases houtcome with
  | equal hr hkey => exact hnone _ hr hkey
  | update hr hkey => exact hnone _ hr hkey
  | insert _ hupdate => exact hnot.2 hupdate
  | refuse => cases hok

end Contract

-- A variable that is not there yet, by a call that may not update.
def saveNew : Params := ⟨⟨7⟩, .transfer, "activeAgent".toList, "1".toList, UUID.nil, false⟩

theorem alone_saveAgent : Alone id [] saveAgent [.call saveAgent, .read 0 none, .write 0 ⟨1⟩, .commit 0]
    none [newRow saveAgent (some "1".toList, none) ⟨1⟩] := by
  refine ⟨by decide, ?_⟩
  simp

theorem createUnitVar_contract_iff_saveAgent :
    Contract id [] saveAgent none [newRow saveAgent (some "1".toList, none) ⟨1⟩] ↔
      (∃ r ∈ ([] : List Row), r.key id = some (saveAgent.key id)) ∨ saveAgent.updateExisting = true :=
  have hnone : AtMostOne id [] := fun k => Nat.zero_le 1
  createUnitVar_contract_iff hnone (Or.inl (by decide)) alone_saveAgent

theorem not_created :
    Alone id [] saveNew [.call saveNew, .read 0 none]
        (some "variable exists but with different propreties") [] ∧
      ¬ Contract id [] saveNew (some "variable exists but with different propreties") [] := by
  refine ⟨⟨by decide, by simp⟩, fun h => ?_⟩
  obtain ⟨hok, -⟩ := h.created (by simp)
  cases hok

end UnitVars

end Ccp
