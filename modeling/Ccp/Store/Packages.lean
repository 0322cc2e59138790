import Ccp.Lib.Table
import Ccp.Package
import Mathlib.Data.List.Forall2
import Mathlib.Data.List.Nodup

namespace Ccp

open Lib Table

namespace Packages

structure Transfer where
  transferUUID : UUID
  currentLocation : Str
  type : Str
  accessionID : Str
  sourceOfAcquisition : Str
  typeOfTransfer : Str
  description : Str
  notes : Str
  accessSystemID : Str
  hidden : Bool
  transferMetadataSetRowUUID : Option UUID
  dirUUIDs : Bool
  status : Nat
  completedAt : Option Str
deriving DecidableEq

-- A row of SIPs, which has the DIPs as well.
structure SIP where
  sipUUID : UUID
  createdTime : Str
  currentPath : Option Str
  hidden : Bool
  aipFilename : Option Str
  sipType : Str
  dirUUIDs : Bool
  status : Nat
  completedAt : Option Str
deriving DecidableEq

-- The two tables with their primary keys.
structure Database where
  transfers : List Transfer
  sips : List SIP
  transfers_nodup : (transfers.map Transfer.transferUUID).Nodup
  sips_nodup : (sips.map SIP.sipUUID).Nodup

-- CreateTransfer, as the routines below call it.
def newTransfer (id : UUID) (path : Str) : Transfer where
  transferUUID := id
  currentLocation := path
  type := []
  accessionID := []
  sourceOfAcquisition := []
  typeOfTransfer := []
  description := []
  notes := []
  accessSystemID := []
  hidden := false
  transferMetadataSetRowUUID := none
  dirUUIDs := false
  status := 0
  completedAt := none

-- CreateSIP at a time.
def newSIP (sipType : Str) (now : Str) (id : UUID) (path : Str) : SIP where
  sipUUID := id
  createdTime := now
  currentPath := some path
  hidden := false
  aipFilename := some []
  sipType := sipType
  dirUUIDs := false
  status := 0
  completedAt := none

-- What the routines read and write of a row. A NULL is read as the empty text.
structure Columns (ρ : Type) where
  id : ρ → UUID
  location : ρ → Option Str
  setLocation : Str → ρ → ρ
  id_setLocation : ∀ path r, id (setLocation path r) = id r
  location_setLocation : ∀ path r, location (setLocation path r) = some path
  setLocation_setLocation : ∀ path path' r, setLocation path (setLocation path' r) = setLocation path r

def transferColumns : Columns Transfer where
  id := Transfer.transferUUID
  location r := some r.currentLocation
  setLocation path r := { r with currentLocation := path }
  id_setLocation _ _ := rfl
  location_setLocation _ _ := rfl
  setLocation_setLocation _ _ _ := rfl

def sipColumns : Columns SIP where
  id := SIP.sipUUID
  location := SIP.currentPath
  setLocation path r := { r with currentPath := some path }
  id_setLocation _ _ := rfl
  location_setLocation _ _ := rfl
  setLocation_setLocation _ _ _ := rfl

section Routines

variable {ρ : Type} (c : Columns ρ) (new : UUID → Str → ρ)

def Columns.read (r : ρ) : Str := (c.location r).getD []

-- Upsert: whether the row was created, and the rows then.
def upsert (id : UUID) (path : Str) (rows : List ρ) : Bool × List ρ :=
  match rows.find? (fun r => c.id r = id) with
  | none => (true, rows ++ [new id path])
  | some r =>
      if c.read r = path then (false, rows)
      else (false, updateWhere (fun r => c.id r = id) (c.setLocation path) rows)

-- Ensure, with the row that the database gives for the location where one matches, and a
-- new identifier.
def ensure (path : Str) (found : Option UUID) (uuid : UUID) (rows : List ρ) :
    (UUID × Bool) × List ρ :=
  match found with
  | some id => ((id, false), rows)
  | none => ((uuid, true), rows ++ [new uuid path])

-- The collation: texts with one image are equal to the database. With several matching
-- rows it gives any of them, and a NULL matches nothing.
def Finds (fold : Str → Str) (path : Str) (rows : List ρ) : Option UUID → Prop
  | none => ∀ r ∈ rows, ∀ location, c.location r = some location → fold location ≠ fold path
  | some id => ∃ r ∈ rows, c.id r = id ∧ (c.location r).map fold = some (fold path)

end Routines

def upsertTransfer : UUID → Str → List Transfer → Bool × List Transfer :=
  upsert transferColumns newTransfer

def ensureTransfer : Str → Option UUID → UUID → List Transfer → (UUID × Bool) × List Transfer :=
  ensure newTransfer

def upsertSIP (now : Str) : UUID → Str → List SIP → Bool × List SIP :=
  upsert sipColumns (newSIP "SIP".toList now)

def ensureSIP (now : Str) : Str → Option UUID → UUID → List SIP → (UUID × Bool) × List SIP :=
  ensure (newSIP "SIP".toList now)

-- The location of a row that is there is not looked at.
def upsertDIP (now : Str) (id : UUID) (path : Str) (rows : List SIP) : Bool × List SIP :=
  match rows.find? (fun r => sipColumns.id r = id) with
  | none => (true, rows ++ [newSIP "DIP".toList now id path])
  | some _ => (false, rows)

def ensureDIP (now : Str) : Str → Option UUID → UUID → List SIP → (UUID × Bool) × List SIP :=
  ensure (newSIP "DIP".toList now)

section Contracts

variable {ρ : Type} (c : Columns ρ)

-- The location of an identifier is the path, as it is read.
def At (rows : List ρ) (id : UUID) (path : Str) : Prop :=
  (∃ r ∈ rows, c.id r = id) ∧ ∀ r ∈ rows, c.id r = id → c.read r = path

-- A row before and after: only the location of the identifier may be another one.
def Kept (id : UUID) (r r' : ρ) : Prop :=
  c.id r' = c.id r ∧ (c.id r ≠ id → r' = r) ∧ ∀ path, c.setLocation path r' = c.setLocation path r

-- What the interface says of Upsert: the location, who is created, and the other rows and
-- columns.
structure Upserted (new : UUID → Str → ρ) (id : UUID) (path : Str) (rows : List ρ) (created : Bool)
    (rows' : List ρ) : Prop where
  located : At c rows' id path
  created_iff : created = true ↔ ∀ r ∈ rows, c.id r ≠ id
  kept : ∃ old, List.Forall₂ (Kept c id) rows old ∧
    rows' = old ++ if created then [new id path] else []

-- And of Ensure.
structure Ensured (new : UUID → Str → ρ) (id : UUID) (path : Str) (rows : List ρ) (created : Bool)
    (rows' : List ρ) : Prop where
  located : At c rows' id path
  created_iff : created = true ↔ ∀ r ∈ rows, c.id r ≠ id
  kept : rows' = rows ++ if created then [new id path] else []

variable {c} {rows : List ρ} {id : UUID} {path : Str}

theorem kept_refl (r : ρ) : Kept c id r r := ⟨rfl, fun _ => rfl, fun _ => rfl⟩

theorem forall₂_kept_refl (rows : List ρ) : List.Forall₂ (Kept c id) rows rows :=
  List.forall₂_same.mpr fun r _ => kept_refl r

theorem at_append {r : ρ} (hnone : ∀ r ∈ rows, c.id r ≠ id) (hid : c.id r = id)
    (hread : c.read r = path) : At c (rows ++ [r]) id path := by
  refine ⟨⟨r, by simp, hid⟩, fun r' hr' hid' => ?_⟩
  rcases List.mem_append.mp hr' with hr' | hr'
  · exact absurd hid' (hnone r' hr')
  · rw [List.mem_singleton.mp hr', hread]

theorem forall₂_updateWhere (path : Str) (rows : List ρ) :
    List.Forall₂ (Kept c id) rows (updateWhere (fun r => c.id r = id) (c.setLocation path) rows) := by
  rw [updateWhere, List.forall₂_map_right_iff, List.forall₂_same]
  intro r _
  split_ifs with hid
  · exact ⟨c.id_setLocation path r, fun hne => absurd hid hne, fun p => c.setLocation_setLocation p path r⟩
  · exact kept_refl r

theorem at_updateWhere {r : ρ} (hr : r ∈ rows) (hid : c.id r = id) :
    At c (updateWhere (fun r => c.id r = id) (c.setLocation path) rows) id path := by
  refine ⟨⟨c.setLocation path r, mem_updateWhere.mpr ⟨r, hr, by rw [if_pos hid]⟩, ?_⟩, ?_⟩
  · rw [c.id_setLocation, hid]
  · intro r' hr' hid'
    obtain ⟨r₀, -, rfl⟩ := mem_updateWhere.mp hr'
    split_ifs at hid' ⊢
    · rw [Columns.read, c.location_setLocation, Option.getD_some]
    · contradiction

-- The key is one of its row only.
theorem read_of_nodup (hkeys : (rows.map c.id).Nodup) {r r' : ρ} (hr : r ∈ rows) (hr' : r' ∈ rows)
    (hid : c.id r = c.id r') : r = r' :=
  List.inj_on_of_nodup_map hkeys hr hr' hid

theorem upserted_upsert {new : UUID → Str → ρ} (hkeys : (rows.map c.id).Nodup)
    (hid : c.id (new id path) = id) (hread : c.read (new id path) = path) :
    Upserted c new id path rows (upsert c new id path rows).1 (upsert c new id path rows).2 := by
  unfold upsert
  cases hfind : rows.find? (fun r => c.id r = id) with
  | none =>
      have hnone : ∀ r ∈ rows, c.id r ≠ id := by simpa using hfind
      exact ⟨at_append hnone hid hread, by simpa using hnone, rows, forall₂_kept_refl rows, rfl⟩
  | some r =>
      have hr := List.mem_of_find?_eq_some hfind
      have hrid : c.id r = id := by simpa using List.find?_some hfind
      have hsome : ¬ ∀ r ∈ rows, c.id r ≠ id := fun hnone => hnone r hr hrid
      dsimp only
      split_ifs with hpath
      · refine ⟨⟨⟨r, hr, hrid⟩, fun r' hr' hid' => ?_⟩, by simpa using hsome, rows,
          forall₂_kept_refl rows, by simp⟩
        rw [read_of_nodup hkeys hr' hr (hid'.trans hrid.symm), hpath]
      · exact ⟨at_updateWhere hr hrid, by simpa using hsome, _, forall₂_updateWhere path rows, by simp⟩

-- The primary key refuses an identifier that is there.
def Fresh (c : Columns ρ) (found : Option UUID) (uuid : UUID) (rows : List ρ) : Prop :=
  found = none → ∀ r ∈ rows, c.id r ≠ uuid

instance (found : Option UUID) (uuid : UUID) (rows : List ρ) : Decidable (Fresh c found uuid rows) :=
  inferInstanceAs (Decidable (found = none → ∀ r ∈ rows, c.id r ≠ uuid))

theorem ensured_ensure_iff (new : UUID → Str → ρ) {fold : Str → Str} {found : Option UUID}
    {uuid : UUID} (hfound : Finds c fold path rows found) (hfresh : Fresh c found uuid rows)
    (hid : c.id (new uuid path) = uuid) (hread : c.read (new uuid path) = path) :
    Ensured c new (ensure new path found uuid rows).1.1 path rows (ensure new path found uuid rows).1.2
        (ensure new path found uuid rows).2 ↔
      ∀ id, found = some id → ∀ r ∈ rows, c.id r = id → c.read r = path := by
  cases found with
  | none =>
      refine iff_of_true ?_ (by simp)
      exact ⟨at_append (hfresh rfl) hid hread, by simpa [ensure] using hfresh rfl, rfl⟩
  | some id =>
      obtain ⟨r, hr, hrid, -⟩ := hfound
      constructor
      · rintro h id' hid' r' hr' hrid'
        obtain rfl := Option.some.inj hid'
        exact h.located.2 r' hr' hrid'
      · intro h
        refine ⟨⟨⟨r, hr, hrid⟩, h id rfl⟩, ?_, by simp [ensure]⟩
        simp only [ensure, Bool.false_eq_true, false_iff]
        exact fun hnone => hnone r hr hrid

theorem nodup_concat {r : ρ} (hkeys : (rows.map c.id).Nodup) (hnew : ∀ r' ∈ rows, c.id r' ≠ c.id r) :
    ((rows ++ [r]).map c.id).Nodup := by
  rw [List.map_append, List.map_singleton, ← List.concat_eq_append]
  refine hkeys.concat fun hmem => ?_
  obtain ⟨r', hr', hid⟩ := List.mem_map.mp hmem
  exact hnew r' hr' hid

theorem nodup_updateWhere (path : Str) (hkeys : (rows.map c.id).Nodup) :
    ((updateWhere (fun r => c.id r = id) (c.setLocation path) rows).map c.id).Nodup := by
  have hsame : (updateWhere (fun r => c.id r = id) (c.setLocation path) rows).map c.id =
      rows.map c.id := by
    rw [updateWhere, List.map_map]
    apply List.map_congr_left
    intro r _
    rw [Function.comp_apply]
    split_ifs
    · exact c.id_setLocation path r
    · rfl
  rwa [hsame]

theorem nodup_upsert {new : UUID → Str → ρ} (hkeys : (rows.map c.id).Nodup)
    (hid : c.id (new id path) = id) : ((upsert c new id path rows).2.map c.id).Nodup := by
  unfold upsert
  cases hfind : rows.find? (fun r => c.id r = id) with
  | none =>
      have hnone : ∀ r ∈ rows, c.id r ≠ id := by simpa using hfind
      exact nodup_concat hkeys (by rwa [hid])
  | some r =>
      dsimp only
      split_ifs
      · exact hkeys
      · exact nodup_updateWhere path hkeys

theorem nodup_ensure {new : UUID → Str → ρ} {found : Option UUID} {uuid : UUID}
    (hkeys : (rows.map c.id).Nodup) (hid : c.id (new uuid path) = uuid)
    (hfresh : Fresh c found uuid rows) : ((ensure new path found uuid rows).2.map c.id).Nodup := by
  cases found with
  | none => exact nodup_concat hkeys (by rw [hid]; exact hfresh rfl)
  | some id => exact hkeys

-- No row of another identifier is written.
theorem filter_upsert {new : UUID → Str → ρ} (hid : c.id (new id path) = id) :
    (upsert c new id path rows).2.filter (fun r => c.id r ≠ id) = rows.filter fun r => c.id r ≠ id := by
  unfold upsert
  cases rows.find? (fun r => c.id r = id) with
  | none => simp [hid]
  | some r =>
      dsimp only
      split_ifs
      · rfl
      · refine filter_updateWhere fun r hr => ⟨fun hne => hne hr, fun hne => hne ?_⟩
        rw [c.id_setLocation, hr]

theorem filter_ensure {new : UUID → Str → ρ} {found : Option UUID} {uuid : UUID}
    (hid : c.id (new uuid path) = uuid) :
    (ensure new path found uuid rows).2.filter
        (fun r => c.id r ≠ (ensure new path found uuid rows).1.1) =
      rows.filter fun r => c.id r ≠ (ensure new path found uuid rows).1.1 := by
  cases found with
  | none => simp [ensure, hid]
  | some id => rfl

end Contracts

theorem nodup_upsertDIP {now : Str} {id : UUID} {path : Str} {rows : List SIP}
    (hkeys : (rows.map SIP.sipUUID).Nodup) :
    ((upsertDIP now id path rows).2.map SIP.sipUUID).Nodup := by
  unfold upsertDIP
  cases hfind : rows.find? (fun r => sipColumns.id r = id) with
  | none =>
      have hnone : ∀ r ∈ rows, sipColumns.id r ≠ id := by simpa using hfind
      exact nodup_concat (c := sipColumns) hkeys hnone
  | some r => exact hkeys

-- The six routines.
inductive Call
  | upsert (type : PackageType) (id : UUID) (path : Str)
  | ensure (type : PackageType) (path : Str) (found : Option UUID) (uuid : UUID)

namespace Call

variable (now : Str) (db : Database)

-- The identifier, whether the row was created, and the tables, none where the insert fails.
def run : Call → Option (UUID × Bool × Database)
  | upsert .transfer id path =>
      some (id, (upsertTransfer id path db.transfers).1,
        { db with
          transfers := (upsertTransfer id path db.transfers).2
          transfers_nodup := nodup_upsert (c := transferColumns) db.transfers_nodup rfl })
  | upsert .sip id path =>
      some (id, (upsertSIP now id path db.sips).1,
        { db with
          sips := (upsertSIP now id path db.sips).2
          sips_nodup := nodup_upsert (c := sipColumns) db.sips_nodup rfl })
  | upsert .dip id path =>
      some (id, (upsertDIP now id path db.sips).1,
        { db with
          sips := (upsertDIP now id path db.sips).2
          sips_nodup := nodup_upsertDIP db.sips_nodup })
  | ensure .transfer path found uuid =>
      if h : Fresh transferColumns found uuid db.transfers then
        let r := ensureTransfer path found uuid db.transfers
        some (r.1.1, r.1.2,
          { db with
            transfers := r.2
            transfers_nodup := nodup_ensure db.transfers_nodup rfl h })
      else none
  | ensure .sip path found uuid =>
      if h : Fresh sipColumns found uuid db.sips then
        let r := ensureSIP now path found uuid db.sips
        some (r.1.1, r.1.2, { db with sips := r.2, sips_nodup := nodup_ensure db.sips_nodup rfl h })
      else none
  | ensure .dip path found uuid =>
      if h : Fresh sipColumns found uuid db.sips then
        let r := ensureDIP now path found uuid db.sips
        some (r.1.1, r.1.2, { db with sips := r.2, sips_nodup := nodup_ensure db.sips_nodup rfl h })
      else none

-- What the read of an Ensure may find.
def Reads (fold : Str → Str) : Call → Prop
  | upsert _ _ _ => True
  | ensure .transfer path found _ => Finds transferColumns fold path db.transfers found
  | ensure .sip path found _ | ensure .dip path found _ => Finds sipColumns fold path db.sips found

def newRow (type : PackageType) : UUID → Str → SIP := newSIP type.string now

-- The contract of the interface, with the other table as it was.
def Contract (id : UUID) (created : Bool) (db' : Database) : Call → Prop
  | upsert .transfer id' path => id = id' ∧ db'.sips = db.sips ∧
      Upserted transferColumns newTransfer id path db.transfers created db'.transfers
  | upsert type id' path => id = id' ∧ db'.transfers = db.transfers ∧
      Upserted sipColumns (newRow now type) id path db.sips created db'.sips
  | ensure .transfer path _ _ => db'.sips = db.sips ∧
      Ensured transferColumns newTransfer id path db.transfers created db'.transfers
  | ensure type path _ _ => db'.transfers = db.transfers ∧
      Ensured sipColumns (newRow now type) id path db.sips created db'.sips

-- A DIP that is there is where it should be, and what is found for a location has that
-- location to the letter.
def Right : Call → Prop
  | upsert .transfer _ _ | upsert .sip _ _ => True
  | upsert .dip id path => ∀ r ∈ db.sips, r.sipUUID = id → sipColumns.read r = path
  | ensure .transfer path found _ =>
      ∀ id, found = some id → ∀ r ∈ db.transfers, r.transferUUID = id → r.currentLocation = path
  | ensure .sip path found _ | ensure .dip path found _ =>
      ∀ id, found = some id → ∀ r ∈ db.sips, r.sipUUID = id → sipColumns.read r = path

end Call

theorem upserted_upsertDIP_iff (now : Str) (id : UUID) (path : Str) (rows : List SIP) :
    Upserted sipColumns (newSIP "DIP".toList now) id path rows (upsertDIP now id path rows).1
        (upsertDIP now id path rows).2 ↔
      ∀ r ∈ rows, r.sipUUID = id → sipColumns.read r = path := by
  unfold upsertDIP
  cases hfind : rows.find? (fun r => sipColumns.id r = id) with
  | none =>
      have hnone : ∀ r ∈ rows, sipColumns.id r ≠ id := by simpa using hfind
      refine iff_of_true ?_ fun r hr hid => absurd hid (hnone r hr)
      exact ⟨at_append hnone rfl rfl, by simpa using hnone, rows, forall₂_kept_refl rows, rfl⟩
  | some r =>
      have hr := List.mem_of_find?_eq_some hfind
      have hrid : sipColumns.id r = id := by simpa using List.find?_some hfind
      constructor
      · exact fun h => h.located.2
      · intro h
        refine ⟨⟨⟨r, hr, hrid⟩, h⟩, ?_, rows, forall₂_kept_refl rows, by simp⟩
        simp only [Bool.false_eq_true, false_iff]
        exact fun hnone => hnone r hr hrid

-- A routine that succeeds keeps its contract exactly where the row that it finds has the
-- path already, if it is one that does not write it.
theorem upsert_ensure_contract_iff {fold : Str → Str} {now : Str} {db db' : Database} {call : Call} {id : UUID}
    {created : Bool} (hreads : call.Reads db fold) (hrun : call.run now db = some (id, created, db')) :
    call.Contract now db id created db' ↔ call.Right db := by
  cases call with
  | upsert type id' path =>
      cases type with
      | transfer =>
          obtain ⟨rfl, rfl, rfl⟩ := by simpa [Call.run] using hrun
          exact iff_of_true ⟨rfl, rfl, upserted_upsert db.transfers_nodup rfl rfl⟩ trivial
      | sip =>
          obtain ⟨rfl, rfl, rfl⟩ := by simpa [Call.run] using hrun
          exact iff_of_true ⟨rfl, rfl, upserted_upsert db.sips_nodup rfl rfl⟩ trivial
      | dip =>
          obtain ⟨rfl, rfl, rfl⟩ := by simpa [Call.run] using hrun
          refine Iff.trans ?_ (upserted_upsertDIP_iff now id' path db.sips)
          exact ⟨fun h => h.2.2, fun h => ⟨rfl, rfl, h⟩⟩
  | ensure type path found uuid =>
      cases type with
      | transfer =>
          simp only [Call.run] at hrun
          split_ifs at hrun with hfresh
          obtain ⟨rfl, rfl, rfl⟩ := by simpa using hrun
          refine Iff.trans ?_ (ensured_ensure_iff newTransfer hreads hfresh rfl rfl)
          exact ⟨fun h => h.2, fun h => ⟨rfl, h⟩⟩
      | sip =>
          simp only [Call.run] at hrun
          split_ifs at hrun with hfresh
          obtain ⟨rfl, rfl, rfl⟩ := by simpa using hrun
          refine Iff.trans ?_ (ensured_ensure_iff (Call.newRow now .sip) hreads hfresh rfl rfl)
          exact ⟨fun h => h.2, fun h => ⟨rfl, h⟩⟩
      | dip =>
          simp only [Call.run] at hrun
          split_ifs at hrun with hfresh
          obtain ⟨rfl, rfl, rfl⟩ := by simpa using hrun
          refine Iff.trans ?_ (ensured_ensure_iff (Call.newRow now .dip) hreads hfresh rfl rfl)
          exact ⟨fun h => h.2, fun h => ⟨rfl, h⟩⟩

theorem filter_upsertDIP (now : Str) (id : UUID) (path : Str) (rows : List SIP) :
    (upsertDIP now id path rows).2.filter (fun r => r.sipUUID ≠ id) =
      rows.filter fun r => r.sipUUID ≠ id := by
  unfold upsertDIP
  cases rows.find? (fun r => sipColumns.id r = id) with
  | none => simp [newSIP]
  | some r => rfl

-- A routine writes the row of its identifier only.
theorem Call.frame {now : Str} {db db' : Database} {call : Call} {id : UUID} {created : Bool}
    (h : call.run now db = some (id, created, db')) :
    db'.transfers.filter (fun r => r.transferUUID ≠ id) =
        db.transfers.filter (fun r => r.transferUUID ≠ id) ∧
      db'.sips.filter (fun r => r.sipUUID ≠ id) = db.sips.filter (fun r => r.sipUUID ≠ id) := by
  cases call with
  | upsert type id' path =>
      cases type with
      | transfer =>
          obtain ⟨rfl, -, rfl⟩ := by simpa [Call.run] using h
          exact ⟨filter_upsert (c := transferColumns) rfl, rfl⟩
      | sip =>
          obtain ⟨rfl, -, rfl⟩ := by simpa [Call.run] using h
          exact ⟨rfl, filter_upsert (c := sipColumns) rfl⟩
      | dip =>
          obtain ⟨rfl, -, rfl⟩ := by simpa [Call.run] using h
          exact ⟨rfl, filter_upsertDIP now id' path db.sips⟩
  | ensure type path found uuid =>
      cases type with
      | transfer =>
          simp only [Call.run] at h
          split_ifs at h
          obtain ⟨rfl, -, rfl⟩ := by simpa using h
          exact ⟨filter_ensure (c := transferColumns) rfl, rfl⟩
      | sip =>
          simp only [Call.run] at h
          split_ifs at h
          obtain ⟨rfl, -, rfl⟩ := by simpa using h
          exact ⟨rfl, filter_ensure (c := sipColumns) rfl⟩
      | dip =>
          simp only [Call.run] at h
          split_ifs at h
          obtain ⟨rfl, -, rfl⟩ := by simpa using h
          exact ⟨rfl, filter_ensure (c := sipColumns) rfl⟩

section Examples

def time : Str := "2024-08-01 12:00:00".toList

def before : Str := "%sharedPath%watchedDirectories/uploadDIP/a/".toList

def now : Str := "%sharedPath%uploadedDIPs/a/".toList

-- A DIP that has been found at another place before.
def moved : Database where
  transfers := []
  sips := [newSIP "DIP".toList time ⟨7⟩ before]
  transfers_nodup := by simp
  sips_nodup := by simp

theorem upsert_ensure_contract_iff_sip :
    ∃ db', (Call.upsert .sip ⟨7⟩ now).run time moved = some (⟨7⟩, false, db') ∧
      ((Call.upsert .sip ⟨7⟩ now).Contract time moved ⟨7⟩ false db' ↔
        (Call.upsert .sip ⟨7⟩ now).Right moved) := by
  refine ⟨_, rfl, ?_⟩
  exact @upsert_ensure_contract_iff id time moved _ (.upsert .sip ⟨7⟩ now) ⟨7⟩ false trivial rfl

theorem upsertDIP_not_updated :
    ∃ db', (Call.upsert .dip ⟨7⟩ now).run time moved = some (⟨7⟩, false, db') ∧
      ¬ (Call.upsert .dip ⟨7⟩ now).Contract time moved ⟨7⟩ false db' := by
  refine ⟨moved, rfl, fun h => ?_⟩
  have hread := h.2.2.located.2 (newSIP "DIP".toList time ⟨7⟩ before) (by simp [moved]) rfl
  revert hread
  decide

end Examples

end Packages

end Ccp
