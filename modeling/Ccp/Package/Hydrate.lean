import Ccp.Package.Location
import Ccp.Store.CreateUnitVar
import Ccp.Store.Packages

namespace Ccp

open Lib Packages UnitVars

namespace Package

structure WatchedDirectory where
  chainID : UUID
  path : Str
  unitType : Str

-- The rows that NewPackage may write.
structure Store where
  db : Packages.Database
  vars : List UnitVars.Row

-- What the outside answers: the file system, the clock, the reads of the database, the new
-- identifiers, and the statements that fail.
structure HydrateAnswers where
  stat : Except String Bool
  now : Str
  -- of Ensure
  found : Option UUID
  uuid : UUID
  packageErr : Option String
  -- of CreateUnitVar
  row : Option UnitVars.Row
  pk : UUID
  valueErr : Option String

def reingestAIP : Str := "system/reingestAIP".toList

section NewPackage

variable (fold : Str → Str) (a : HydrateAnswers)

-- The identifier of the package at the path, of its own or by its location, with the row
-- that is written for it.
def identify (p : Package) (path : Str) (st : Store) : Except String (UUID × Store) :=
  let id := uuidFromPath path
  let call : Packages.Call :=
    if id ≠ UUID.nil then .upsert p.packageType id path else .ensure p.packageType path a.found a.uuid
  match a.packageErr, call.run a.now st.db with
  | some err, _ => .error err
  | none, none => .error "duplicate entry"
  | none, some (id, _, db) => .ok (id, { st with db })

-- saveValue, for the identifier that the package has at the time.
def saveValue (p : Package) (name value : Str) (st : Store) : Option String × Store :=
  match a.valueErr with
  | some err => (some err, st)
  | none =>
      let saved := createUnitVar fold st.vars ⟨p.id, p.packageType, name, value, UUID.nil, true⟩
        a.row a.pk
      (saved.1, { st with vars := saved.2 })

def hydrateTransfer (p : Package) (path : Str) (st : Store) : Except String Package × Store :=
  let path := joinPath [replaceFirst p.sharedDir sharedPath path, []]
  match identify a p path st with
  | .error err => (.error err, st)
  | .ok (id, st) => (.ok { p with id, path }, st)

-- The variable is saved before the package has its identifier.
def hydrateSIP (p : Package) (path watchedDir : Str) (st : Store) : Except String Package × Store :=
  let path := joinPath [replaceFirst p.sharedDir sharedPath path, []]
  match identify a p path st with
  | .error err => (.error err, st)
  | .ok (id, st) =>
      if occursIn reingestAIP watchedDir then
        match saveValue fold a p "isPartialReingest".toList "true".toList st with
        | (some err, st) => (.error ("save value: " ++ err), st)
        | (none, st) => (.ok { p with id, path }, st)
      else (.ok { p with id, path }, st)

def hydrateDIP (p : Package) (path : Str) (st : Store) : Except String Package × Store :=
  hydrateTransfer a p path st

def hydrateUnit (p : Package) (path watchedDir : Str) (st : Store) : Except String Package × Store :=
  match p.unit with
  | .transfer _ => hydrateTransfer a p path st
  | .sip _ _ => hydrateSIP fold a p path watchedDir st
  | .dip => hydrateDIP a p path st

def unitOf (wd : WatchedDirectory) (isDir : Bool) : Option PackageUnit :=
  if wd.unitType = "Transfer".toList then some (.transfer [])
  else if wd.unitType = "SIP".toList ∧ isDir then some (.sip [] [])
  else if wd.unitType = "DIP".toList ∧ isDir then some .dip
  else none

-- NewPackage.
def newWatched (sharedDir path : Str) (wd : WatchedDirectory) (st : Store) :
    Except String Package × Store :=
  match a.stat with
  | .error err => (.error ("stat: " ++ err), st)
  | .ok isDir =>
      match unitOf wd isDir with
      | none => (.error "unexpected type given for file", st)
      | some unit =>
          let pkg := { newPackage sharedDir unit with path := path, startAtChainID := wd.chainID }
          match hydrateUnit fold a pkg path wd.path st with
          | (.error err, st) => (.error ("hydrate: " ++ err), st)
          | (.ok pkg, st) => (.ok pkg, st)

end NewPackage

-- The package whose identifier is found.
def watchedPackage (sharedDir path : Str) (wd : WatchedDirectory) (unit : PackageUnit) : Package :=
  { newPackage sharedDir unit with path := path, startAtChainID := wd.chainID }

-- The variable of a SIP that comes back.
def partialReingest (id : UUID) : Params :=
  ⟨id, .sip, "isPartialReingest".toList, "true".toList, UUID.nil, true⟩

section Contract

variable (fold : Str → Str)

def StoredFor (id : UUID) (vars : List UnitVars.Row) : Prop :=
  ∃ r ∈ vars, r.key fold = some ((partialReingest id).key fold) ∧
    (r.value, r.linkID) = (partialReingest id).wanted

-- Nothing is written but the row of the identifier and variables that are keyed by it.
structure Frame (id : UUID) (st st' : Store) : Prop where
  transfers : st'.db.transfers.filter (fun r => r.transferUUID ≠ id) =
    st.db.transfers.filter fun r => r.transferUUID ≠ id
  sips : st'.db.sips.filter (fun r => r.sipUUID ≠ id) = st.db.sips.filter fun r => r.sipUUID ≠ id
  vars : st'.vars.filter (fun r => r.unitUUID.map fold ≠ some (fold id.string)) =
    st.vars.filter fun r => r.unitUUID.map fold ≠ some (fold id.string)

-- A SIP that was found where reingested AIPs come in.
def Reingested (wd : WatchedDirectory) (unit : PackageUnit) : Prop :=
  unit.packageType = .sip ∧ occursIn reingestAIP wd.path = true

-- What NewPackage should write, whether it gives a package or fails.
def Contract (wd : WatchedDirectory) (st : Store) : Except String Package × Store → Prop
  | (.ok pkg, st') => Frame fold pkg.id st st' ∧
      (Reingested wd pkg.unit → StoredFor fold pkg.id st'.vars)
  | (.error _, st') => ∃ id, Frame fold id st st'

-- No reingested SIP but one without an identifier, or one for which there is nothing to do
-- since its variable is there and so is that of no package.
def Untouched (a : HydrateAnswers) (sharedDir path : Str) (wd : WatchedDirectory) (st : Store) : Prop :=
  ∀ isDir unit id st', a.stat = .ok isDir → unitOf wd isDir = some unit → Reingested wd unit →
    a.valueErr = none →
    identify a (watchedPackage sharedDir path wd unit)
      (joinPath [replaceFirst (newPackage sharedDir unit).sharedDir sharedPath path, []]) st =
        .ok (id, st') →
    id = UUID.nil ∨ StoredFor fold id st.vars ∧
      ∃ r, a.row = some r ∧ (r.value, r.linkID) = (partialReingest UUID.nil).wanted

end Contract

section Lemmas

variable {fold : Str → Str} {a : HydrateAnswers} {st st' : Store}

theorem Frame.refl (id : UUID) (st : Store) : Frame fold id st st := ⟨rfl, rfl, rfl⟩

theorem frame_identify {p : Package} {path : Str} {id : UUID} (h : identify a p path st = .ok (id, st')) :
    st'.vars = st.vars ∧ Frame fold id st st' := by
  unfold identify at h
  dsimp only at h
  split at h
  · cases h
  · cases h
  · next hrun =>
      obtain ⟨rfl, rfl⟩ := Prod.mk.inj (Except.ok.inj h)
      obtain ⟨htransfers, hsips⟩ := Packages.Call.frame hrun
      exact ⟨rfl, htransfers, hsips, rfl⟩

theorem given_partialReingest (id : UUID) : (partialReingest id).Given := by
  refine Or.inl ⟨?_, rfl⟩
  change "true".toList ≠ []
  decide

theorem unitUUID_of_key {id : UUID} {r : UnitVars.Row}
    (hkey : r.key fold = some ((partialReingest id).key fold)) :
    r.unitUUID.map fold = some (fold id.string) := by
  unfold Row.key at hkey
  split at hkey
  · next unitType unitUUID name _ huuid _ =>
      have hfolded := congrArg Key.unitUUID (Option.some.inj hkey)
      rw [huuid]
      exact congrArg some hfolded
  · cases hkey

-- What the variable of an identifier that is saved does to the others.
theorem createUnitVar_partialReingest {vars : List UnitVars.Row} {id : UUID} {row : Option UnitVars.Row}
    (hread : Reads fold vars ((partialReingest id).key fold) row) (pk : UUID) :
    (createUnitVar fold vars (partialReingest id) row pk).1 = none ∧
      StoredFor fold id (createUnitVar fold vars (partialReingest id) row pk).2 ∧
      (createUnitVar fold vars (partialReingest id) row pk).2.filter
          (fun r => r.unitUUID.map fold ≠ some (fold id.string)) =
        vars.filter fun r => r.unitUUID.map fold ≠ some (fold id.string) := by
  rw [createUnitVar_of_update (given_partialReingest id) rfl]
  cases row with
  | none =>
      refine ⟨rfl, ⟨newRow (partialReingest id) (partialReingest id).wanted pk, by simp, rfl, rfl⟩, ?_⟩
      simp [newRow, partialReingest]
  | some r =>
      obtain ⟨hr, hkey⟩ := hread
      dsimp only
      split_ifs with hsame
      · exact ⟨rfl, ⟨r, hr, hkey, hsame⟩, rfl⟩
      · refine ⟨rfl, ⟨_, List.mem_map.mpr ⟨r, hr, if_pos hkey⟩, hkey, rfl⟩, ?_⟩
        exact Table.filter_updateWhere fun r' hkey' =>
          ⟨fun hne => hne (unitUUID_of_key hkey'), fun hne => hne (unitUUID_of_key hkey')⟩

-- Saved for no package, the variable is one of another package, unless it is there already.
theorem filter_createUnitVar_iff (hfold : ∀ id id' : UUID, fold id.string = fold id'.string → id = id')
    {vars : List UnitVars.Row} {id : UUID} (hid : id ≠ UUID.nil) {row : Option UnitVars.Row}
    (hread : Reads fold vars ((partialReingest UUID.nil).key fold) row) (pk : UUID) :
    (createUnitVar fold vars (partialReingest UUID.nil) row pk).2.filter
          (fun r => r.unitUUID.map fold ≠ some (fold id.string)) =
        vars.filter (fun r => r.unitUUID.map fold ≠ some (fold id.string)) ↔
      ∃ r, row = some r ∧ (r.value, r.linkID) = (partialReingest UUID.nil).wanted := by
  have hother : ∀ r : UnitVars.Row, r.unitUUID.map fold = some (fold UUID.nil.string) →
      r.unitUUID.map fold ≠ some (fold id.string) := by
    intro r hnil heq
    rw [hnil] at heq
    exact hid (hfold _ _ (Option.some.inj heq)).symm
  rw [createUnitVar_of_update (given_partialReingest UUID.nil) rfl]
  cases row with
  | none =>
      refine iff_of_false (fun heq => ?_) (by simp)
      have hnew := hother (newRow (partialReingest UUID.nil) (partialReingest UUID.nil).wanted pk) rfl
      have hlen := congrArg List.length heq
      simp only [List.filter_append, List.length_append] at hlen
      rw [List.filter_cons_of_pos (by simpa using hnew)] at hlen
      simp at hlen
  | some r =>
      obtain ⟨hr, hkey⟩ := hread
      dsimp only
      split_ifs with hsame
      · exact iff_of_true rfl ⟨r, rfl, hsame⟩
      · refine iff_of_false (fun heq => ?_) fun hthere => ?_
        · have hmem : r ∈ vars.filter (fun r => r.unitUUID.map fold ≠ some (fold id.string)) :=
            List.mem_filter.mpr ⟨hr, by simpa using hother r (unitUUID_of_key hkey)⟩
          rw [← heq] at hmem
          obtain ⟨r₀, -, hr₀⟩ := List.mem_map.mp (List.mem_filter.mp hmem).1
          split_ifs at hr₀ with hkey₀
          · rw [← hr₀] at hsame
            exact hsame rfl
          · rw [hr₀] at hkey₀
            exact hkey₀ hkey
        · obtain ⟨r', hr', hw⟩ := hthere
          obtain rfl := Option.some.inj hr'
          exact hsame hw

end Lemmas

section Watched

variable {fold : Str → Str} {a : HydrateAnswers} {sharedDir path : Str} {wd : WatchedDirectory} {st : Store}

-- The statements of a package that is not a reingested SIP.
theorem contract_of_identify {p : Package} {path : Str} (h : ¬ Reingested wd p.unit) :
    Contract fold wd st (match identify a p path st with
      | .error err => (.error err, st)
      | .ok (id, st) => (.ok { p with id, path }, st)) := by
  cases hid : identify a p path st with
  | error err => exact ⟨UUID.nil, .refl _ st⟩
  | ok found =>
      obtain ⟨id, st₁⟩ := found
      exact ⟨(frame_identify hid).2, fun hre => absurd hre h⟩

-- A package that is created, or the error that its hydration ends with.
theorem newWatched_eq {isDir : Bool} {unit : PackageUnit} (hstat : a.stat = .ok isDir)
    (hunit : unitOf wd isDir = some unit) {res : Except String Package} {st' : Store}
    (h : hydrateUnit fold a (watchedPackage sharedDir path wd unit) path wd.path st = (res, st')) :
    Contract fold wd st (newWatched fold a sharedDir path wd st) ↔ Contract fold wd st (res, st') := by
  unfold newWatched
  simp only [hstat, hunit]
  change Contract fold wd st (match hydrateUnit fold a (watchedPackage sharedDir path wd unit) path
    wd.path st with
    | (.error err, st) => (.error ("hydrate: " ++ err), st)
    | (.ok pkg, st) => (.ok pkg, st)) ↔ _
  rw [h]
  cases res <;> rfl

-- The ways in which the hydration of a SIP ends, by the identifier that is found.
section HydrateSIP

variable {p : Package} {watchedDir : Str} {id : UUID} {st₁ : Store}

theorem hydrateSIP_of_error {err : String}
    (h : identify a p (joinPath [replaceFirst p.sharedDir sharedPath path, []]) st = .error err) :
    hydrateSIP fold a p path watchedDir st = (.error err, st) := by
  simp only [hydrateSIP, h]

theorem hydrateSIP_of_other
    (h : identify a p (joinPath [replaceFirst p.sharedDir sharedPath path, []]) st = .ok (id, st₁))
    (hdir : occursIn reingestAIP watchedDir = false) : hydrateSIP fold a p path watchedDir st =
      (.ok { p with id, path := joinPath [replaceFirst p.sharedDir sharedPath path, []] }, st₁) := by
  simp only [hydrateSIP, h, hdir, Bool.false_eq_true, if_false]

theorem hydrateSIP_of_not_saved {err : String} {st₂ : Store}
    (h : identify a p (joinPath [replaceFirst p.sharedDir sharedPath path, []]) st = .ok (id, st₁))
    (hdir : occursIn reingestAIP watchedDir = true)
    (hsave : saveValue fold a p "isPartialReingest".toList "true".toList st₁ = (some err, st₂)) :
    hydrateSIP fold a p path watchedDir st = (.error ("save value: " ++ err), st₂) := by
  simp only [hydrateSIP, h, hdir, if_true, hsave]

theorem hydrateSIP_of_saved {st₂ : Store}
    (h : identify a p (joinPath [replaceFirst p.sharedDir sharedPath path, []]) st = .ok (id, st₁))
    (hdir : occursIn reingestAIP watchedDir = true)
    (hsave : saveValue fold a p "isPartialReingest".toList "true".toList st₁ = (none, st₂)) :
    hydrateSIP fold a p path watchedDir st =
      (.ok { p with id, path := joinPath [replaceFirst p.sharedDir sharedPath path, []] }, st₂) := by
  simp only [hydrateSIP, h, hdir, if_true, hsave]

end HydrateSIP

-- A variable that has its value is left alone.
theorem createUnitVar_of_there {vars : List UnitVars.Row} {id : UUID} {r : UnitVars.Row}
    (h : (r.value, r.linkID) = (partialReingest id).wanted) (pk : UUID) :
    (createUnitVar fold vars (partialReingest id) (some r) pk).2 = vars := by
  rw [createUnitVar_of_update (given_partialReingest id) rfl]
  exact congrArg Prod.snd (if_pos h)

-- The variable of a package that has no identifier yet.
theorem saveValue_watched (hread : Reads fold st.vars ((partialReingest UUID.nil).key fold) a.row)
    {unit : PackageUnit} (hsip : unit.packageType = .sip) (herr : a.valueErr = none) :
    saveValue fold a (watchedPackage sharedDir path wd unit) "isPartialReingest".toList "true".toList
        st =
      (none, { st with
        vars := (createUnitVar fold st.vars (partialReingest UUID.nil) a.row a.pk).2 }) := by
  have hcall : createUnitVar fold st.vars
      ⟨(watchedPackage sharedDir path wd unit).id,
        (watchedPackage sharedDir path wd unit).packageType, "isPartialReingest".toList,
        "true".toList, UUID.nil, true⟩ a.row a.pk =
      createUnitVar fold st.vars (partialReingest UUID.nil) a.row a.pk := by
    rw [partialReingest, ← hsip]
    rfl
  simp only [saveValue, herr]
  rw [hcall, (createUnitVar_partialReingest hread a.pk).1]

theorem hydrateSIP_contract_iff (hfold : ∀ id id' : UUID, fold id.string = fold id'.string → id = id')
    (hread : Reads fold st.vars ((partialReingest UUID.nil).key fold) a.row) {unit : PackageUnit}
    (hsip : unit.packageType = .sip) :
    Contract fold wd st
        (hydrateSIP fold a (watchedPackage sharedDir path wd unit) path wd.path st) ↔
      ∀ id st', Reingested wd unit → a.valueErr = none →
        identify a (watchedPackage sharedDir path wd unit)
          (joinPath [replaceFirst (newPackage sharedDir unit).sharedDir sharedPath path, []]) st =
            .ok (id, st') →
        id = UUID.nil ∨ StoredFor fold id st.vars ∧
          ∃ r, a.row = some r ∧ (r.value, r.linkID) = (partialReingest UUID.nil).wanted := by
  cases hid : identify a (watchedPackage sharedDir path wd unit)
      (joinPath [replaceFirst (newPackage sharedDir unit).sharedDir sharedPath path, []]) st with
  | error err =>
      rw [hydrateSIP_of_error hid]
      exact iff_of_true ⟨UUID.nil, .refl _ st⟩ nofun
  | ok found =>
      obtain ⟨id, st₁⟩ := found
      obtain ⟨hvars, hframe⟩ := frame_identify hid
      cases hdir : occursIn reingestAIP wd.path with
      | false =>
          rw [hydrateSIP_of_other hid hdir]
          have hnot : ¬ Reingested wd unit := fun hre => Bool.false_ne_true (hdir.symm.trans hre.2)
          exact iff_of_true ⟨hframe, fun hre => absurd hre hnot⟩ fun _ _ hre => absurd hre hnot
      | true =>
          have hre : Reingested wd unit := ⟨hsip, hdir⟩
          cases herr : a.valueErr with
          | some err =>
              have hsave : saveValue fold a (watchedPackage sharedDir path wd unit)
                  "isPartialReingest".toList "true".toList st₁ = (some err, st₁) := by
                simp only [saveValue, herr]
              rw [hydrateSIP_of_not_saved hid hdir hsave]
              exact iff_of_true ⟨id, hframe⟩ nofun
          | none =>
              obtain ⟨-, hstored, hfilter⟩ := createUnitVar_partialReingest hread a.pk
              rw [hydrateSIP_of_saved hid hdir (saveValue_watched (hvars ▸ hread) hsip herr), hvars]
              constructor
              · rintro ⟨hframe', hstored'⟩ id' st' _ _ heq
                obtain ⟨rfl, rfl⟩ := Prod.mk.inj (Except.ok.inj heq)
                by_cases hnil : id = UUID.nil
                · exact Or.inl hnil
                · obtain ⟨r, hr, hw⟩ := (filter_createUnitVar_iff hfold hnil hread a.pk).mp hframe'.vars
                  have hown := hstored' hre
                  rw [hr] at hown
                  dsimp only at hown
                  rw [createUnitVar_of_there hw] at hown
                  exact Or.inr ⟨hown, r, hr, hw⟩
              · intro h
                rcases h id st₁ hre rfl rfl with hnil | ⟨hown, r, hr, hw⟩
                · obtain rfl := hnil
                  exact ⟨⟨hframe.transfers, hframe.sips, hfilter⟩, fun _ => hstored⟩
                · rw [hr, createUnitVar_of_there hw]
                  exact ⟨⟨hframe.transfers, hframe.sips, rfl⟩, fun _ => hown⟩

-- What is written is the package's own exactly where a reingested SIP has no identifier or
-- there is nothing to write.
theorem newWatched_contract_iff
    (hfold : ∀ id id' : UUID, fold id.string = fold id'.string → id = id')
    (hread : Reads fold st.vars ((partialReingest UUID.nil).key fold) a.row) :
    Contract fold wd st (newWatched fold a sharedDir path wd st) ↔
      Untouched fold a sharedDir path wd st := by
  cases hstat : a.stat with
  | error err =>
      refine iff_of_true ?_ fun isDir _ _ _ h => ?_
      · simp only [newWatched, hstat]
        exact ⟨UUID.nil, .refl _ st⟩
      · rw [hstat] at h
        cases h
  | ok isDir =>
      cases hunit : unitOf wd isDir with
      | none =>
          refine iff_of_true ?_ fun isDir' _ _ _ h hunit' => ?_
          · simp only [newWatched, hstat, hunit]
            exact ⟨UUID.nil, .refl _ st⟩
          · obtain rfl := Except.ok.inj (hstat.symm.trans h)
            rw [hunit] at hunit'
            cases hunit'
      | some unit =>
          have huntouched : Untouched fold a sharedDir path wd st ↔
              ∀ id st', Reingested wd unit → a.valueErr = none →
                identify a (watchedPackage sharedDir path wd unit)
                  (joinPath [replaceFirst (newPackage sharedDir unit).sharedDir sharedPath path, []])
                    st = .ok (id, st') →
                id = UUID.nil ∨ StoredFor fold id st.vars ∧
                  ∃ r, a.row = some r ∧ (r.value, r.linkID) = (partialReingest UUID.nil).wanted := by
            constructor
            · exact fun h id st' hre herr hid => h isDir unit id st' hstat hunit hre herr hid
            · intro h isDir' unit' id st' hstat' hunit' hre herr hid
              obtain rfl := Except.ok.inj (hstat.symm.trans hstat')
              obtain rfl := Option.some.inj (hunit.symm.trans hunit')
              exact h id st' hre herr hid
          rw [huntouched]
          cases hkind : unit with
          | sip sipType aipFilename =>
              refine (newWatched_eq hstat (hunit.trans (congrArg some hkind)) rfl).trans ?_
              exact hydrateSIP_contract_iff hfold hread rfl
          | transfer config =>
              refine iff_of_true ?_ fun _ _ hre => absurd hre.1 (by simp [PackageUnit.packageType])
              refine (newWatched_eq hstat (hunit.trans (congrArg some hkind)) rfl).mpr ?_
              exact contract_of_identify fun hre => absurd hre.1 (show PackageType.transfer ≠ .sip by decide)
          | dip =>
              refine iff_of_true ?_ fun _ _ hre => absurd hre.1 (by simp [PackageUnit.packageType])
              refine (newWatched_eq hstat (hunit.trans (congrArg some hkind)) rfl).mpr ?_
              exact contract_of_identify fun hre => absurd hre.1 (show PackageType.dip ≠ .sip by decide)

end Watched

namespace Example

-- A SIP of an AIP that comes back, found for the first time.

-- A collation that keeps all texts apart.
def binary : Str → Str := fun s => s

def reingest : WatchedDirectory := ⟨⟨9⟩, "/system/reingestAIP/".toList, "SIP".toList⟩

def completed : WatchedDirectory := ⟨⟨8⟩, "/SIPCreation/completedTransfers/".toList, "SIP".toList⟩

def answers : HydrateAnswers where
  stat := .ok true
  now := "2024-08-01 12:00:00".toList
  found := none
  uuid := ⟨7⟩
  packageErr := none
  row := none
  pk := ⟨1⟩
  valueErr := none

def empty : Store := ⟨⟨[], [], List.nodup_nil, List.nodup_nil⟩, []⟩

def path : Str := "/shared/watchedDirectories/a".toList

end Example

theorem newWatched_contract_iff_completed :
    Contract Example.binary Example.completed Example.empty
        (newWatched Example.binary Example.answers "/shared".toList Example.path Example.completed Example.empty) ↔
      Untouched Example.binary Example.answers "/shared".toList Example.path Example.completed Example.empty :=
  newWatched_contract_iff (fun _ _ h => UUID.string_injective h) (fun r hr => by cases hr)

-- The variable is stored for the nil identifier.
theorem newWatched_other_variable :
    (∃ pkg st', newWatched Example.binary Example.answers "/shared".toList Example.path Example.reingest
        Example.empty = (.ok pkg, st') ∧ pkg.id = ⟨7⟩ ∧
        st'.vars = [newRow (partialReingest UUID.nil) (some "true".toList, none) ⟨1⟩]) ∧
      ¬ Contract Example.binary Example.reingest Example.empty
        (newWatched Example.binary Example.answers "/shared".toList Example.path Example.reingest Example.empty) := by
  have hrun : (newWatched Example.binary Example.answers "/shared".toList Example.path Example.reingest
      Example.empty).2.vars = [newRow (partialReingest UUID.nil) (some "true".toList, none) ⟨1⟩] := by
    decide +kernel
  have hid : (newWatched Example.binary Example.answers "/shared".toList Example.path Example.reingest
      Example.empty).1.map (·.id) = .ok ⟨7⟩ := by decide +kernel
  generalize newWatched Example.binary Example.answers "/shared".toList Example.path Example.reingest
    Example.empty = out at hrun hid
  obtain ⟨res, st'⟩ := out
  cases res with
  | error err => cases hid
  | ok pkg =>
      have hid' : pkg.id = ⟨7⟩ := Except.ok.inj hid
      refine ⟨⟨pkg, st', rfl, hid', hrun⟩, fun h => ?_⟩
      have hvars := h.1.vars
      rw [hid', show st'.vars = _ from hrun] at hvars
      revert hvars
      decide +kernel

end Package

end Ccp
