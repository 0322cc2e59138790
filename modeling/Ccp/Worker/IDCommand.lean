import Ccp.Lib.Calls
import Ccp.Lib.Run
import Ccp.Lib.Table
import Ccp.Uuid

namespace Ccp.Worker

open Lib Calls

-- A command for the identification of formats, as an object of the process: before it is
-- saved it has no pk.
structure IDCommand where
  pk : Option ℕ
  uuid : UUID
  replaces : Option UUID
  enabled : Bool
deriving DecidableEq

namespace IDCommand

structure Row where
  pk : ℕ
  uuid : UUID
  replaces : Option UUID
  enabled : Bool
deriving DecidableEq

def Row.object (r : Row) : IDCommand := ⟨some r.pk, r.uuid, r.replaces, r.enabled⟩

-- The row of an object, with the number that it gets where it has none.
def row (obj : IDCommand) (next : ℕ) : Row :=
  ⟨obj.pk.getD next, obj.uuid, obj.replaces, obj.enabled⟩

-- The object after enabled = False.
def disabled (obj : IDCommand) : IDCommand := { obj with enabled := false }

-- The table, with the number for the next row that has none.
structure Commands where
  rows : List Row
  next : ℕ
  nodup : (rows.map (·.pk)).Nodup
  lt : ∀ r ∈ rows, r.pk < next

namespace Commands

def putRows (rows : List Row) (row : Row) : List Row :=
  if (rows.map (·.pk)).contains row.pk then rows.map fun r => if r.pk = row.pk then row else r
  else rows ++ [row]

theorem mem_putRows {rows : List Row} {row r : Row} :
    r ∈ putRows rows row ↔ r = row ∨ r ∈ rows ∧ r.pk ≠ row.pk := by
  unfold putRows
  split_ifs with h
  · rw [List.contains_iff_mem, List.mem_map] at h
    obtain ⟨old, hold, hpk⟩ := h
    rw [List.mem_map]
    constructor
    · rintro ⟨r', hr', rfl⟩
      split_ifs with hr
      · exact Or.inl rfl
      · exact Or.inr ⟨hr', hr⟩
    · rintro (rfl | ⟨hr, hne⟩)
      · exact ⟨old, hold, if_pos hpk⟩
      · exact ⟨r, hr, if_neg hne⟩
  · rw [List.contains_iff_mem] at h
    rw [List.mem_append, List.mem_singleton]
    constructor
    · rintro (hr | rfl)
      · exact Or.inr ⟨hr, fun heq => h (heq ▸ List.mem_map_of_mem hr)⟩
      · exact Or.inl rfl
    · rintro (rfl | ⟨hr, -⟩)
      · exact Or.inr rfl
      · exact Or.inl hr

theorem nodup_putRows {rows : List Row} (h : (rows.map (·.pk)).Nodup) (row : Row) :
    ((putRows rows row).map (·.pk)).Nodup := by
  unfold putRows
  split_ifs with hmem
  · have hsame : (rows.map fun r => if r.pk = row.pk then row else r).map (·.pk) =
        rows.map (·.pk) := by
      rw [List.map_map]
      refine List.map_congr_left fun r _ => ?_
      change (if r.pk = row.pk then row else r).pk = r.pk
      split_ifs with hr
      · exact hr.symm
      · rfl
    rwa [hsame]
  · rw [List.contains_iff_mem] at hmem
    rw [List.map_append, List.map_singleton]
    exact List.nodup_append.mpr ⟨h, List.nodup_singleton _, fun a ha b hb hab =>
      hmem (List.mem_singleton.mp hb ▸ hab ▸ ha)⟩

theorem lt_putRows (s : Commands) (row : Row) :
    ∀ r ∈ putRows s.rows row, r.pk < max s.next (row.pk + 1) := by
  intro r hr
  rcases mem_putRows.mp hr with rfl | ⟨hr, -⟩
  · omega
  · have hlt := s.lt r hr
    omega

-- An UPDATE, or an INSERT where there is no row to update.
def put (s : Commands) (row : Row) : Commands where
  rows := putRows s.rows row
  next := max s.next (row.pk + 1)
  nodup := nodup_putRows s.nodup row
  lt := lt_putRows s row

def enabled (s : Commands) : List Row := s.rows.filter (·.enabled)

end Commands

-- The exceptions that leave save.
inductive Fault
  | multipleObjectsReturned
  | integrityError
deriving DecidableEq

abbrev Call := EStateM Fault Commands

-- models.Model.save. The database refuses a row for its keys and for its other fields.
def saveRow (refuses : List Row → Row → Bool) (obj : IDCommand) : Call ℕ := fun s =>
  if refuses s.rows (obj.row s.next) then .error .integrityError s
  else .ok (obj.row s.next).pk (s.put (obj.row s.next))

-- The command that is enabled is disabled, unless it is the one to save. Its own save has
-- nothing to disable and nothing to replace.
def disableOther (refuses : List Row → Row → Bool) (self : IDCommand) : Call Unit := fun s =>
  match Table.get s.enabled with
  | .missing => .ok () s
  | .several => .error .multipleObjectsReturned s
  | .row cmd =>
      if self.pk = some cmd.pk then .ok () s
      else (do let _ ← saveRow refuses cmd.object.disabled) s

-- The object after the changes that make it a new row in place of another.
def version (self replacing : IDCommand) (uuid4 : UUID) : IDCommand :=
  { self with pk := none, uuid := uuid4, replaces := some replacing.uuid, enabled := true }

-- VersionedModel.save, with the pk of the row and that of the row that it replaces. The
-- replaced command is saved disabled, so that its own save is saveRow again.
def versionedSave (refuses : List Row → Row → Bool) (self : IDCommand)
    (replacing : Option IDCommand) (uuid4 : UUID) : Call (ℕ × Option ℕ) :=
  match replacing with
  | none => do
      let pk ← saveRow refuses self
      return (pk, none)
  | some replacing => do
      let replaced ← saveRow refuses replacing.disabled
      let pk ← saveRow refuses (self.version replacing uuid4)
      return (pk, some replaced)

-- The part of the override that comes before the save of the parent.
def disablePart (refuses : List Row → Row → Bool) (self : IDCommand) : Call Unit :=
  if self.enabled then disableOther refuses self else pure ()

def save (refuses : List Row → Row → Bool) (self : IDCommand) (replacing : Option IDCommand)
    (uuid4 : UUID) : Call (ℕ × Option ℕ) := do
  disablePart refuses self
  versionedSave refuses self replacing uuid4

namespace Commands

def Enabled (s : Commands) (pk : ℕ) : Prop := ∃ r ∈ s.rows, r.pk = pk ∧ r.enabled = true

def AtMostOne (s : Commands) : Prop := ∀ p q, s.Enabled p → s.Enabled q → p = q

variable {s : Commands} {row cmd : Row} {p : ℕ}

theorem enabled_put : (s.put row).Enabled p ↔
    p = row.pk ∧ row.enabled = true ∨ p ≠ row.pk ∧ s.Enabled p := by
  constructor
  · rintro ⟨r, hr, rfl, henabled⟩
    rcases mem_putRows.mp hr with rfl | ⟨hr, hne⟩
    · exact Or.inl ⟨rfl, henabled⟩
    · exact Or.inr ⟨hne, r, hr, rfl, henabled⟩
  · rintro (⟨rfl, henabled⟩ | ⟨hne, r, hr, rfl, henabled⟩)
    · exact ⟨row, mem_putRows.mpr (Or.inl rfl), rfl, henabled⟩
    · exact ⟨r, mem_putRows.mpr (Or.inr ⟨hr, hne⟩), rfl, henabled⟩

theorem enabled_put_disabled (h : row.enabled = false) :
    (s.put row).Enabled p ↔ p ≠ row.pk ∧ s.Enabled p := by
  rw [enabled_put, h]
  simp

theorem lt_of_enabled (h : s.Enabled p) : p < s.next := by
  obtain ⟨r, hr, rfl, -⟩ := h
  exact s.lt r hr

theorem mem_enabled {r : Row} : r ∈ s.enabled ↔ r ∈ s.rows ∧ r.enabled = true := List.mem_filter

theorem not_enabled_of_missing (h : s.enabled = []) : ¬ s.Enabled p := by
  rintro ⟨r, hr, -, henabled⟩
  have hmem := mem_enabled.mpr ⟨hr, henabled⟩
  rw [h] at hmem
  exact absurd hmem List.not_mem_nil

theorem enabled_iff_of_row (h : s.enabled = [cmd]) : s.Enabled p ↔ p = cmd.pk := by
  have hcmd : cmd ∈ s.enabled := h ▸ List.mem_singleton_self cmd
  constructor
  · rintro ⟨r, hr, rfl, henabled⟩
    have hmem := mem_enabled.mpr ⟨hr, henabled⟩
    rw [h] at hmem
    rw [List.mem_singleton.mp hmem]
  · rintro rfl
    exact ⟨cmd, (mem_enabled.mp hcmd).1, rfl, (mem_enabled.mp hcmd).2⟩

theorem length_enabled_le (h : s.AtMostOne) : s.enabled.length ≤ 1 := by
  have hnodup : (s.enabled.map (·.pk)).Nodup := s.nodup.sublist (List.filter_sublist.map _)
  match henabled : s.enabled with
  | [] => exact Nat.zero_le 1
  | [_] => exact Nat.le_refl 1
  | a :: b :: rest =>
      have hpk : ∀ r ∈ s.enabled, s.Enabled r.pk := fun r hr =>
        ⟨r, (mem_enabled.mp hr).1, rfl, (mem_enabled.mp hr).2⟩
      have hab : a.pk = b.pk := h _ _ (hpk a (by simp [henabled])) (hpk b (by simp [henabled]))
      rw [henabled, List.map_cons, List.map_cons, hab] at hnodup
      simp at hnodup

theorem atMostOne_iff : s.AtMostOne ↔ s.enabled.length ≤ 1 := by
  refine ⟨length_enabled_le, fun hlen p q hp hq => ?_⟩
  match henabled : s.enabled with
  | [] => exact absurd hp (not_enabled_of_missing henabled)
  | [cmd] =>
      rw [(enabled_iff_of_row henabled).mp hp, (enabled_iff_of_row henabled).mp hq]
  | a :: b :: rest =>
      rw [henabled] at hlen
      simp at hlen

end Commands

open Commands

variable (refuses : List Row → Row → Bool) {self : IDCommand} {s : Commands}

-- What a save of one row does, and what disabling the other command does.

theorem saveRow_cases (obj : IDCommand) (s : Commands) :
    saveRow refuses obj s = .error .integrityError s ∨
      saveRow refuses obj s = .ok (obj.row s.next).pk (s.put (obj.row s.next)) := by
  unfold saveRow
  split_ifs
  · exact Or.inl rfl
  · exact Or.inr rfl

theorem saveRow_of_accepts (h : ∀ rows row, refuses rows row = false) (obj : IDCommand)
    (s : Commands) :
    saveRow refuses obj s = .ok (obj.row s.next).pk (s.put (obj.row s.next)) := by
  unfold saveRow
  rw [h, if_neg Bool.false_ne_true]

-- Before the object itself is saved, no command but its own is enabled where it is.
theorem disablePart_cases (h : s.AtMostOne) :
    disablePart refuses self s = .error .integrityError s ∨
      ∃ mid, disablePart refuses self s = .ok () mid ∧ (∀ p, mid.Enabled p → s.Enabled p) ∧
        (self.enabled = true → ∀ p, mid.Enabled p → self.pk = some p) := by
  unfold disablePart
  split_ifs with henabled
  · unfold disableOther
    split
    · next hget =>
        have hnone := Table.get_eq_missing_iff.mp hget
        exact Or.inr ⟨s, rfl, fun _ hp => hp, fun _ p hp => absurd hp (not_enabled_of_missing hnone)⟩
    · next hget =>
        have hlen := length_enabled_le h
        have htwo := Table.get_eq_several_iff.mp hget
        omega
    · next cmd hget =>
        have hone := Table.get_eq_row_iff.mp hget
        split_ifs with hself
        · refine Or.inr ⟨s, rfl, fun _ hp => hp, fun _ p hp => ?_⟩
          rw [hself, (enabled_iff_of_row hone).mp hp]
        · rcases saveRow_cases refuses cmd.object.disabled s with hsave | hsave
          · refine Or.inl ?_
            rw [bind_error_iff]
            exact Or.inl hsave
          · have hnone : ∀ p, ¬ (s.put (cmd.object.disabled.row s.next)).Enabled p := by
              intro p hp
              obtain ⟨hne, hp⟩ := (enabled_put_disabled rfl).mp hp
              exact hne ((enabled_iff_of_row hone).mp hp)
            refine Or.inr ⟨_, ?_, fun p hp => absurd hp (hnone p), fun _ p hp => absurd hp (hnone p)⟩
            rw [bind_ok_iff]
            exact ⟨_, _, hsave, rfl⟩
  · exact Or.inr ⟨s, rfl, fun _ hp => hp, fun hself => absurd hself henabled⟩

-- What is enabled after a save of a command that replaces none, and of one that does.

theorem atMostOne_put {row : Row} (h : s.AtMostOne)
    (hself : row.enabled = true → ∀ p, s.Enabled p → p = row.pk) : (s.put row).AtMostOne := by
  intro p q hp hq
  rcases enabled_put.mp hp with ⟨rfl, henabled⟩ | ⟨hne, hp⟩
  · rcases enabled_put.mp hq with ⟨rfl, -⟩ | ⟨-, hq⟩
    · rfl
    · exact (hself henabled q hq).symm
  · rcases enabled_put.mp hq with ⟨rfl, henabled⟩ | ⟨-, hq⟩
    · exact hself henabled p hp
    · exact h p q hp hq

-- One call, with the state that it leaves behind whether it raises or not.
structure SaveCall where
  self : IDCommand
  replacing : Option IDCommand
  uuid4 : UUID

namespace SaveCall

def result (refuses : List Row → Row → Bool) (c : SaveCall) (s : Commands) :
    EStateM.Result Fault Commands (ℕ × Option ℕ) := save refuses c.self c.replacing c.uuid4 s

def step (refuses : List Row → Row → Bool) (s : Commands) (c : SaveCall) : Option Commands :=
  some (after (c.result refuses s))

-- The call disables what it replaces, and does not raise for several enabled commands.
structure Good (refuses : List Row → Row → Bool) (s : Commands) (c : SaveCall) : Prop where
  replaced : ∀ pk replaced s', c.result refuses s = .ok (pk, some replaced) s' →
    ¬ s'.Enabled replaced
  raised : ∀ s', c.result refuses s ≠ .error .multipleObjectsReturned s'

-- A command that is enabled is the one to replace, or one that the override disables: the
-- object to save is enabled then, and is not made from it.
def Clear (s : Commands) (c : SaveCall) : Prop :=
  ∀ replacing, c.replacing = some replacing → ∀ p, s.Enabled p →
    replacing.pk = some p ∨ c.self.enabled = true ∧ c.self.pk ≠ some p

variable {c : SaveCall}

theorem result_eq (c : SaveCall) (s : Commands) :
    c.result refuses s =
      (disablePart refuses c.self >>= fun _ => versionedSave refuses c.self c.replacing c.uuid4) s :=
  rfl

-- The save of the object itself, where no command but its own is enabled if it is.
theorem after_saveRow {mid : Commands} (h : mid.AtMostOne)
    (hself : c.self.enabled = true → ∀ p, mid.Enabled p → c.self.pk = some p) :
    (saveRow refuses c.self mid = .error .integrityError mid) ∨
      ∃ pk s', saveRow refuses c.self mid = .ok pk s' ∧ s'.AtMostOne := by
  rcases saveRow_cases refuses c.self mid with hsave | hsave
  · exact Or.inl hsave
  · refine Or.inr ⟨_, _, hsave, atMostOne_put h fun henabled p hp => ?_⟩
    have hpk := hself henabled p hp
    rw [row, hpk]
    rfl

theorem disabled_row_pk (obj : IDCommand) (next : ℕ) : (obj.disabled.row next).pk = obj.pk.getD next :=
  rfl

-- A save with a command to replace, where that command is the only one that can be enabled.
theorem versionedSave_some_cases {mid : Commands} {self replacing : IDCommand} (uuid4 : UUID)
    (hone : ∀ p, mid.Enabled p → replacing.pk = some p) :
    (∃ s', versionedSave refuses self (some replacing) uuid4 mid = .error .integrityError s' ∧
        s'.AtMostOne) ∨
      ∃ pk replaced s', versionedSave refuses self (some replacing) uuid4 mid =
        .ok (pk, some replaced) s' ∧ s'.AtMostOne ∧ ¬ s'.Enabled replaced := by
  have hmid : mid.AtMostOne := by
    intro p q hp hq
    exact Option.some.inj ((hone p hp).symm.trans (hone q hq))
  rcases saveRow_cases refuses replacing.disabled mid with hfirst | hfirst
  · refine Or.inl ⟨mid, ?_, hmid⟩
    rw [versionedSave, bind_error_iff]
    exact Or.inl hfirst
  · have hnone : ∀ p, ¬ (mid.put (replacing.disabled.row mid.next)).Enabled p := by
      intro p hp
      obtain ⟨hne, hp⟩ := (enabled_put_disabled rfl).mp hp
      rw [disabled_row_pk, hone p hp] at hne
      exact hne rfl
    rcases saveRow_cases refuses (self.version replacing uuid4)
      (mid.put (replacing.disabled.row mid.next)) with hnew | hnew
    · refine Or.inl ⟨_, ?_, fun p q hp _ => absurd hp (hnone p)⟩
      rw [versionedSave, bind_error_iff]
      exact Or.inr ⟨_, _, hfirst, bind_error_iff.mpr (Or.inl hnew)⟩
    · have hone' : ((mid.put (replacing.disabled.row mid.next)).put
          ((self.version replacing uuid4).row
            (mid.put (replacing.disabled.row mid.next)).next)).AtMostOne :=
        atMostOne_put (fun p q hp _ => absurd hp (hnone p)) fun _ p hp => absurd hp (hnone p)
      have hresult : versionedSave refuses self (some replacing) uuid4 mid =
          .ok (((self.version replacing uuid4).row
            (mid.put (replacing.disabled.row mid.next)).next).pk,
              some (replacing.disabled.row mid.next).pk) _ :=
        bind_ok_iff.mpr ⟨_, _, hfirst, bind_ok_iff.mpr ⟨_, _, hnew, rfl⟩⟩
      refine Or.inr ⟨_, _, _, hresult, hone', fun hreplaced => ?_⟩
      rcases enabled_put.mp hreplaced with ⟨hpk, -⟩ | ⟨-, hold⟩
      · -- the new row has a number above that of the replaced one
        have hlt : (replacing.disabled.row mid.next).pk < max mid.next
            ((replacing.disabled.row mid.next).pk + 1) := by omega
        exact absurd hpk (Nat.ne_of_lt hlt)
      · exact hnone _ hold

theorem step_of_clear (h : s.AtMostOne) (hclear : c.Clear s) :
    (∃ s', c.result refuses s = .error .integrityError s' ∧ s'.AtMostOne) ∨
      ∃ pk replaced s', c.result refuses s = .ok (pk, replaced) s' ∧ s'.AtMostOne ∧
        ∀ r, replaced = some r → ¬ s'.Enabled r := by
  rw [result_eq]
  rcases @disablePart_cases refuses c.self s h with hfirst | ⟨mid, hfirst, hsub, hself⟩
  · exact Or.inl ⟨s, bind_error_iff.mpr (Or.inl hfirst), h⟩
  · have hmid : mid.AtMostOne := fun p q hp hq => h p q (hsub p hp) (hsub q hq)
    have herror : ∀ {s'}, versionedSave refuses c.self c.replacing c.uuid4 mid =
        .error .integrityError s' → (disablePart refuses c.self >>= fun _ =>
          versionedSave refuses c.self c.replacing c.uuid4) s = .error .integrityError s' :=
      fun hrest => bind_error_iff.mpr (Or.inr ⟨_, _, hfirst, hrest⟩)
    have hok : ∀ {a s'}, versionedSave refuses c.self c.replacing c.uuid4 mid = .ok a s' →
        (disablePart refuses c.self >>= fun _ =>
          versionedSave refuses c.self c.replacing c.uuid4) s = .ok a s' :=
      fun hrest => bind_ok_iff.mpr ⟨_, _, hfirst, hrest⟩
    cases hreplacing : c.replacing with
    | none =>
        rw [hreplacing] at herror hok
        rcases after_saveRow refuses hmid hself with hrest | ⟨pk, s', hrest, hone⟩
        · refine Or.inl ⟨mid, herror ?_, hmid⟩
          rw [versionedSave, bind_error_iff]
          exact Or.inl hrest
        · refine Or.inr ⟨pk, none, s', hok ?_, hone, nofun⟩
          rw [versionedSave, bind_ok_iff]
          exact ⟨_, _, hrest, rfl⟩
    | some replacing =>
        rw [hreplacing] at herror hok
        have honly : ∀ p, mid.Enabled p → replacing.pk = some p := by
          intro p hp
          rcases hclear replacing hreplacing p (hsub p hp) with hpk | ⟨henabled, hne⟩
          · exact hpk
          · exact absurd (hself henabled p hp) hne
        rcases versionedSave_some_cases refuses c.uuid4 honly with
          ⟨s', hrest, hone⟩ | ⟨pk, replaced, s', hrest, hone, hreplaced⟩
        · exact Or.inl ⟨s', herror hrest, hone⟩
        · refine Or.inr ⟨pk, some replaced, s', hok hrest, hone, ?_⟩
          intro r hr
          rwa [← Option.some.inj hr]

theorem good_of_clear (h : s.AtMostOne) (hclear : c.Clear s) : c.Good refuses s := by
  rcases step_of_clear refuses h hclear with ⟨t, hresult, -⟩ | ⟨_, _, t, hresult, -, hreplaced⟩
  · constructor
    · intro _ _ s' hok
      rw [hresult] at hok
      exact nomatch hok
    · intro s' hraised
      rw [hresult] at hraised
      exact nomatch hraised
  · constructor
    · intro pk replaced s' hok
      rw [hresult] at hok
      cases hok
      exact hreplaced replaced rfl
    · intro s' hraised
      rw [hresult] at hraised
      exact nomatch hraised

theorem atMostOne_of_clear (h : s.AtMostOne) (hclear : c.Clear s) :
    (after (c.result refuses s)).AtMostOne := by
  rcases step_of_clear refuses h hclear with ⟨t, hresult, hone⟩ | ⟨_, _, t, hresult, hone, -⟩
  · rw [hresult]
    exact hone
  · rw [hresult]
    exact hone

-- A command that is not disabled on the way stays enabled beside the new version.

variable {refuses}

theorem disablePart_eq_of_kept (h : s.AtMostOne) {p : ℕ} (hp : s.Enabled p)
    (hkept : self.enabled = true → self.pk = some p) : disablePart refuses self s = .ok () s := by
  unfold disablePart
  split_ifs with henabled
  · unfold disableOther
    split
    · rfl
    · next hget =>
        have hlen := length_enabled_le h
        have htwo := Table.get_eq_several_iff.mp hget
        omega
    · next cmd hget =>
        have hpk : p = cmd.pk := (enabled_iff_of_row (Table.get_eq_row_iff.mp hget)).mp hp
        rw [if_pos (hpk ▸ hkept henabled)]
  · rfl

theorem enabled_put_of_ne {row : Row} {p : ℕ} (hp : s.Enabled p) (hne : p ≠ row.pk) :
    (s.put row).Enabled p := enabled_put.mpr (Or.inr ⟨hne, hp⟩)

theorem versionedSave_of_accepts (hrefuses : ∀ rows row, refuses rows row = false)
    (self replacing : IDCommand) (uuid4 : UUID) (s : Commands) : ∃ pk replaced, versionedSave refuses self
      (some replacing) uuid4 s = .ok (pk, some replaced)
        ((s.put (replacing.disabled.row s.next)).put ((self.version replacing uuid4).row
          (s.put (replacing.disabled.row s.next)).next)) :=
  ⟨_, _, bind_ok_iff.mpr ⟨_, _, saveRow_of_accepts refuses hrefuses _ _,
    bind_ok_iff.mpr ⟨_, _, saveRow_of_accepts refuses hrefuses _ _, rfl⟩⟩⟩

theorem clear_of_atMostOne (hrefuses : ∀ rows row, refuses rows row = false) (h : s.AtMostOne)
    (hafter : (after (c.result refuses s)).AtMostOne) : c.Clear s := by
  intro replacing hreplacing p hp
  by_contra hnot
  obtain ⟨hother, hkept⟩ := not_or.mp hnot
  have hfirst : disablePart refuses c.self s = .ok () s := by
    refine disablePart_eq_of_kept h hp fun henabled => ?_
    by_contra hpk
    exact hkept ⟨henabled, hpk⟩
  have hlt := lt_of_enabled hp
  -- the replaced command is another row
  have hold : (s.put (replacing.disabled.row s.next)).Enabled p := by
    refine enabled_put_of_ne hp ?_
    rw [disabled_row_pk]
    cases hpk : replacing.pk with
    | none => exact Nat.ne_of_lt hlt
    | some q => exact fun heq => hother (hpk.trans (congrArg some heq.symm))
  have hlt' := lt_of_enabled hold
  obtain ⟨pk, replaced, hsave⟩ := versionedSave_of_accepts hrefuses c.self replacing c.uuid4 s
  have hresult : c.result refuses s = .ok (pk, some replaced) ((s.put
      (replacing.disabled.row s.next)).put ((c.self.version replacing c.uuid4).row
        (s.put (replacing.disabled.row s.next)).next)) := by
    rw [result_eq, hreplacing]
    exact bind_ok_iff.mpr ⟨_, _, hfirst, hsave⟩
  rw [hresult] at hafter
  have heq := hafter p _ (enabled_put_of_ne hold (Nat.ne_of_lt hlt'))
    (enabled_put.mpr (Or.inl ⟨rfl, rfl⟩))
  exact absurd heq (Nat.ne_of_lt hlt')

end SaveCall

open SaveCall

-- The invariant over a run of saves.
theorem one_enabled_iff (refuses : List Row → Row → Bool) {s : Commands} (hs : s.AtMostOne)
    (calls : List SaveCall) :
    (Meets (SaveCall.step refuses) (fun s c => c.Clear s) s calls →
      Always (SaveCall.step refuses) AtMostOne s calls ∧
        Meets (SaveCall.step refuses) (fun s c => c.Good refuses s) s calls) ∧
    ((∀ rows row, refuses rows row = false) → Always (SaveCall.step refuses) AtMostOne s calls →
      Meets (SaveCall.step refuses) (fun s c => c.Clear s) s calls) := by
  have hkeep : ∀ s c next, AtMostOne s → SaveCall.Clear s c →
      SaveCall.step refuses s c = some next → AtMostOne next := by
    intro s c next h hclear hstep
    obtain rfl := Option.some.inj hstep
    exact atMostOne_of_clear refuses h hclear
  refine ⟨fun hclear => ⟨?_, ?_⟩, fun hrefuses hone => ?_⟩
  · exact always_of_meets _ AtMostOne AtMostOne _ hkeep (fun _ h => h) calls hs hclear
  · exact meets_of_meets _ AtMostOne _ _ hkeep
      (fun s c _ h hclear _ => good_of_clear refuses h hclear) calls hs hclear
  · refine (always_iff_meets _ (fun _ => True) AtMostOne _ (fun _ _ _ _ _ => trivial)
      ?_ calls trivial hs).mp hone
    intro s c next _ h hstep
    obtain rfl := Option.some.inj hstep
    exact ⟨clear_of_atMostOne hrefuses h, atMostOne_of_clear refuses h⟩

-- A disabled command and an enabled one.
def twoCommands : Commands where
  rows := [⟨1, ⟨1⟩, none, false⟩, ⟨2, ⟨2⟩, none, true⟩]
  next := 3
  nodup := List.nodup_cons.mpr ⟨nofun, List.nodup_singleton _⟩
  lt := by decide

-- A new version of the enabled command, and one of the disabled command.
def versionOfEnabled : SaveCall := ⟨⟨some 2, ⟨2⟩, none, true⟩, some ⟨some 2, ⟨2⟩, none, true⟩, ⟨3⟩⟩

def versionOfDisabled : SaveCall :=
  ⟨⟨some 1, ⟨1⟩, none, false⟩, some ⟨some 1, ⟨1⟩, none, false⟩, ⟨3⟩⟩

theorem one_enabled_version_of_enabled :
    Always (SaveCall.step fun _ _ => false) AtMostOne twoCommands [versionOfEnabled] :=
  have hone : twoCommands.AtMostOne := atMostOne_iff.mpr (by decide)
  have hclear : versionOfEnabled.Clear twoCommands := by
    rintro _ ⟨⟩ p hp
    have hpk : p = 2 := (@enabled_iff_of_row twoCommands ⟨2, ⟨2⟩, none, true⟩ p rfl).mp hp
    exact Or.inl (congrArg some hpk.symm)
  ((one_enabled_iff (fun _ _ => false) hone [versionOfEnabled]).1 ⟨hclear, trivial⟩).1

-- The enabled command stays enabled, and the next save of an enabled command raises.
theorem two_enabled_version_of_disabled :
    twoCommands.AtMostOne ∧
      ¬ Always (SaveCall.step fun _ _ => false) AtMostOne twoCommands [versionOfDisabled] ∧
      ∃ s, versionOfEnabled.result (fun _ _ => false)
        (after (versionOfDisabled.result (fun _ _ => false) twoCommands)) =
          .error .multipleObjectsReturned s := by
  refine ⟨atMostOne_iff.mpr (by decide), fun halways => ?_, _, rfl⟩
  have hone : (after (versionOfDisabled.result (fun _ _ => false) twoCommands)).AtMostOne :=
    halways.2
  have hlen := atMostOne_iff.mp hone
  exact absurd hlen (by decide)

end IDCommand

end Ccp.Worker
