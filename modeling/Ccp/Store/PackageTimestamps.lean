import Ccp.Store.Jobs

namespace Ccp

open Lib

namespace PackageTimestamps

open Jobs

-- A row of Transfers or SIPs, as far as the queries read it.
structure PackageRow where
  id : UUID
  status : Option ℤ
  hidden : Bool
deriving DecidableEq

-- Which table and which unit type a request is about.
def unitType : PackageType → Option Str
  | .transfer => some "unitTransfer".toList
  | .sip => some "unitSIP".toList
  | .dip => none

-- A package as the API lists it.
structure Listed where
  id : Str
  status : ℤ
  createdAt : ℤ
deriving DecidableEq

section Query

-- The collation: texts with one image are equal to the database.
variable (fold : Str → Str) (jobs : List Row) (unit : Str) (packages : List PackageRow)

-- unitType = '...' AND NOT SIPUUID LIKE '%None%'
def counts (r : Row) : Bool :=
  fold r.unitType = fold unit && !occursIn (fold "None".toList) (fold r.sipUUID)

-- MAX(createdTime) of a group.
def group (key : Str) : Option (Str × ℤ) :=
  ((((jobs.filter (counts fold unit)).filter fun r => fold r.sipUUID = key).map
    Row.createdTime).max?).map fun most => (key, most)

-- GROUP BY SIPUUID: each group once.
def latestJobs : List (Str × ℤ) :=
  ((jobs.filter (counts fold unit)).map fun r => fold r.sipUUID).dedup.filterMap (group fold jobs unit)

-- LEFT JOIN: a row without a partner stays.
def partners (r : Row) : List (Option PackageRow) :=
  match packages.filter fun p => fold p.id.string = fold r.sipUUID with
  | [] => [none]
  | found => found.map some

def isVisible : Option PackageRow → Bool
  | none => false
  | some p => !p.hidden

-- The rows of the statement, in the order of the tables.
def rows : List (Row × Option PackageRow) :=
  (jobs.flatMap fun r =>
    ((latestJobs fold jobs unit).filter fun latest =>
      fold r.sipUUID = latest.1 && r.createdTime = latest.2).flatMap fun _ =>
        (partners fold packages r).map fun p => (r, p)).filter fun row =>
    counts fold unit row.1 && isVisible row.2

end Query

def convert (row : Row × Option PackageRow) : Option Listed :=
  (UUID.parse row.1.sipUUID).map fun sipID =>
    { id := sipID.string
      status := (row.2.bind PackageRow.status).getD 0
      createdAt := updateTimeWithFraction row.1.createdTime row.1.createdTimeDec }

-- What ReadPackagesWithCreationTimestamps gives, none where it gives an error. Nothing is
-- said of the order of the rows.
def Reads (fold : Str → Str) (jobs : List Row) (packages : List PackageRow) (type : PackageType)
    (out : Option (List Listed)) : Prop :=
  match unitType type with
  | none => out = none
  | some unit => ∃ order : List (Row × Option PackageRow),
      order.Perm (rows fold jobs unit packages) ∧ out = order.mapM convert

-- What the collation of the table does with identifiers.
structure Collation (fold : Str → Str) : Prop where
  parse : ∀ text u v, UUID.parse text = some u → fold text = fold (UUID.string v) → u = v
  none : ∀ u : UUID, occursIn (fold "None".toList) (fold u.string) = false

def jobUnitType : PackageType → Str
  | .transfer => "unitTransfer".toList
  | .sip => "unitSIP".toList
  | .dip => "unitDIP".toList

section Contract

variable (fold : Str → Str) (jobs : List Row) (unit : Str)

-- The jobs of a package, of one type, and the latest ones of them.
def jobsOf (p : PackageRow) : List Row :=
  jobs.filter fun r => fold r.unitType = fold unit && fold r.sipUUID = fold p.id.string

def latestOf (p : PackageRow) : List Row :=
  (jobsOf fold jobs unit p).filter fun r =>
    (jobsOf fold jobs unit p).all fun r' => r'.createdTime ≤ r.createdTime

-- Each visible package with a job is listed once, with the time of its latest job, and
-- nothing else is.
structure Contract (packages : List PackageRow) (type : PackageType) (out : Option (List Listed)) :
    Prop where
  listed : ∃ list, out = some list ∧
    (∀ p ∈ packages, p.hidden = false → jobsOf fold jobs (jobUnitType type) p ≠ [] →
      ∃ item, list.filter (fun item => item.id = p.id.string) = [item] ∧
        ∀ r ∈ latestOf fold jobs (jobUnitType type) p, item.createdAt = microsecond * r.createdTime) ∧
    ∀ item ∈ list, ∃ p ∈ packages, p.hidden = false ∧
      jobsOf fold jobs (jobUnitType type) p ≠ [] ∧ item.id = p.id.string

-- The latest job of a visible package is the only one at its time, and its decimal is below a
-- nanosecond.
def Clean (packages : List PackageRow) : Prop :=
  ∀ p ∈ packages, p.hidden = false → (latestOf fold jobs unit p).length ≤ 1 ∧
    ∀ r ∈ latestOf fold jobs unit p, (UUID.parse r.sipUUID).isSome ∧ nanos r.createdTimeDec = 0

end Contract

section Selection

variable {fold : Str → Str} {jobs : List Row} {unit : Str} {packages : List PackageRow}
  {p : PackageRow} {r : Row}

theorem mem_jobsOf :
    r ∈ jobsOf fold jobs unit p ↔
      r ∈ jobs ∧ fold r.unitType = fold unit ∧ fold r.sipUUID = fold p.id.string := by
  simp [jobsOf]

theorem mem_latestOf :
    r ∈ latestOf fold jobs unit p ↔ r ∈ jobsOf fold jobs unit p ∧
      ∀ r' ∈ jobsOf fold jobs unit p, r'.createdTime ≤ r.createdTime := by
  simp [latestOf]

theorem latestOf_ne_nil (h : jobsOf fold jobs unit p ≠ []) : latestOf fold jobs unit p ≠ [] := by
  cases hmax : ((jobsOf fold jobs unit p).map Row.createdTime).max? with
  | none => exact absurd (List.map_eq_nil_iff.mp (List.max?_eq_none_iff.mp hmax)) h
  | some most =>
      obtain ⟨hmem, hle⟩ := List.max?_eq_some_iff.mp hmax
      obtain ⟨r, hr, rfl⟩ := List.mem_map.mp hmem
      have hlatest : r ∈ latestOf fold jobs unit p :=
        mem_latestOf.mpr ⟨hr, fun r' hr' => hle _ (List.mem_map_of_mem hr')⟩
      exact List.ne_nil_of_mem hlatest

-- Of distinct keys, one that alone has a value gives all there is.
theorem filterMap_eq_toList {κ β : Type} {f : κ → Option β} {l : List κ} {k : κ} (hl : l.Nodup)
    (hk : k ∈ l) (hother : ∀ k' ∈ l, k' ≠ k → f k' = none) : l.filterMap f = (f k).toList := by
  obtain ⟨front, back, rfl⟩ := List.append_of_mem hk
  rw [List.nodup_append, List.nodup_cons] at hl
  have hfront : front.filterMap f = [] := List.filterMap_eq_nil_iff.mpr fun k' hk' =>
    hother k' (List.mem_append_left _ hk') (hl.2.2 k' hk' k List.mem_cons_self)
  have hback : back.filterMap f = [] := List.filterMap_eq_nil_iff.mpr fun k' hk' =>
    hother k' (List.mem_append_right _ (List.mem_cons_of_mem k hk')) fun heq =>
      hl.2.1.1 (heq ▸ hk')
  rw [List.filterMap_append, hfront, List.nil_append]
  cases hf : f k with
  | none => rw [List.filterMap_cons_none hf, hback]; rfl
  | some b => rw [List.filterMap_cons_some hf, hback]; rfl

theorem counts_eq (hcoll : Collation fold) (hsip : fold r.sipUUID = fold p.id.string) :
    counts fold unit r = decide (fold r.unitType = fold unit) := by
  rw [counts, hsip, hcoll.none, Bool.not_false, Bool.and_true]

variable (jobs unit) in
theorem group_eq (hcoll : Collation fold) (p : PackageRow) :
    group fold jobs unit (fold p.id.string) =
      ((jobsOf fold jobs unit p).map Row.createdTime).max?.map fun most => (fold p.id.string, most) := by
  have hkept : ((jobs.filter (counts fold unit)).filter fun r => fold r.sipUUID = fold p.id.string) =
      jobsOf fold jobs unit p := by
    rw [List.filter_filter, jobsOf]
    apply List.filter_congr
    intro r' _
    by_cases hsip' : fold r'.sipUUID = fold p.id.string
    · simp [counts_eq hcoll hsip', hsip']
    · simp [hsip']
  rw [group, hkept]

theorem mem_latestOf_iff_of_max {most : ℤ}
    (hmax : ((jobsOf fold jobs unit p).map Row.createdTime).max? = some most)
    (hr : r ∈ jobsOf fold jobs unit p) :
    r ∈ latestOf fold jobs unit p ↔ r.createdTime = most := by
  obtain ⟨hmem, hle⟩ := List.max?_eq_some_iff.mp hmax
  rw [mem_latestOf, and_iff_right hr]
  constructor
  · intro hall
    obtain ⟨r', hr', hmost⟩ := List.mem_map.mp hmem
    have hge : most ≤ r.createdTime := hmost ▸ hall r' hr'
    exact le_antisymm (hle _ (List.mem_map_of_mem hr)) hge
  · rintro rfl r' hr'
    exact hle _ (List.mem_map_of_mem hr')

-- The groups of a job: its own, where it is one of the latest of the package.
theorem filter_latestJobs (hcoll : Collation fold) (hr : r ∈ jobsOf fold jobs unit p) :
    ((latestJobs fold jobs unit).filter fun latest =>
      fold r.sipUUID = latest.1 && r.createdTime = latest.2) =
        if r ∈ latestOf fold jobs unit p then [(fold p.id.string, r.createdTime)] else [] := by
  obtain ⟨hjobs, hunit, hsip⟩ := mem_jobsOf.mp hr
  have hgroup := group_eq jobs unit hcoll p
  have hkey : fold p.id.string ∈ ((jobs.filter (counts fold unit)).map fun r => fold r.sipUUID).dedup := by
    rw [List.mem_dedup, List.mem_map]
    exact ⟨r, List.mem_filter.mpr ⟨hjobs, by simp [counts_eq hcoll hsip, hunit]⟩, hsip⟩
  rw [latestJobs, List.filter_filterMap, filterMap_eq_toList (List.nodup_dedup _) hkey]
  · rw [hgroup]
    cases hmax : ((jobsOf fold jobs unit p).map Row.createdTime).max? with
    | none => exact absurd (List.map_eq_nil_iff.mp (List.max?_eq_none_iff.mp hmax)) (List.ne_nil_of_mem hr)
    | some most =>
        have hlatest := mem_latestOf_iff_of_max hmax hr
        by_cases hmost : r.createdTime = most
        · rw [if_pos (hlatest.mpr hmost)]
          simp [hsip, hmost]
        · rw [if_neg fun hmem => hmost (hlatest.mp hmem)]
          simp [hmost]
  · intro key _ hne
    cases hg : group fold jobs unit key with
    | none => rfl
    | some latest =>
        obtain ⟨most, -, rfl⟩ := Option.map_eq_some_iff.mp hg
        simp [hsip, Ne.symm hne]

theorem mem_partners : some p ∈ partners fold packages r ↔
    p ∈ packages ∧ fold p.id.string = fold r.sipUUID := by
  unfold partners
  split
  · next hnone =>
      rw [List.filter_eq_nil_iff] at hnone
      simpa using hnone p
  · next found hfound =>
      rw [List.mem_map_of_injective (Option.some_injective _), List.mem_filter, decide_eq_true_eq]

-- One package at most has an identifier.
theorem partners_eq (hcoll : Collation fold) (hpackages : (packages.map PackageRow.id).Nodup)
    (hp : p ∈ packages) (hsip : fold r.sipUUID = fold p.id.string) :
    partners fold packages r = [some p] := by
  have hfilter : (packages.filter fun p' => fold p'.id.string = fold r.sipUUID) = [p] := by
    have hsame : ∀ p' ∈ packages, fold p'.id.string = fold r.sipUUID ↔ p' = p := by
      intro p' hp'
      constructor
      · intro h
        have hid : p'.id = p.id := hcoll.parse _ _ _ (UUID.parse_string p'.id) (h.trans hsip)
        exact List.inj_on_of_nodup_map hpackages hp' hp hid
      · rintro rfl
        exact hsip.symm
    calc (packages.filter fun p' => fold p'.id.string = fold r.sipUUID)
        = packages.filter fun p' => p' = p :=
          List.filter_congr fun p' hp' => decide_eq_decide.mpr (hsame p' hp')
      _ = [p] := by
          rw [List.filter_eq, List.count_eq_one_of_mem (List.Nodup.of_map _ hpackages) hp]
          rfl
  rw [partners, hfilter]
  rfl

theorem flatMap_ite_singleton {α β : Type} (c : α → Prop) [DecidablePred c] (f : α → β) (l : List α) :
    (l.flatMap fun a => if c a then [f a] else []) = (l.filter fun a => c a).map f := by
  induction l with
  | nil => rfl
  | cons a l ih =>
      rw [List.flatMap_cons, ih, List.filter_cons]
      by_cases ha : c a <;> simp [ha]

theorem latestOf_eq_filter (p : PackageRow) :
    latestOf fold jobs unit p = jobs.filter fun r => r ∈ latestOf fold jobs unit p := by
  have hlatest : latestOf fold jobs unit p = jobs.filter fun r =>
      ((jobsOf fold jobs unit p).all fun r' => r'.createdTime ≤ r.createdTime) &&
        (fold r.unitType = fold unit && fold r.sipUUID = fold p.id.string) := by
    rw [latestOf]
    conv_lhs => rw [jobsOf, List.filter_filter]
    rfl
  conv_lhs => rw [hlatest]
  apply List.filter_congr
  intro r hr
  rw [Bool.eq_iff_iff, decide_eq_true_iff, mem_latestOf, mem_jobsOf]
  simp [hr, and_comm]

-- The rows of a visible package: one for each latest job.
theorem filter_rows (hcoll : Collation fold) (hpackages : (packages.map PackageRow.id).Nodup)
    (hp : p ∈ packages) (hvisible : p.hidden = false) :
    (rows fold jobs unit packages).filter (fun row => row.2 = some p) =
      (latestOf fold jobs unit p).map fun r => (r, some p) := by
  have hrow : ∀ r ∈ jobs, ((((latestJobs fold jobs unit).filter fun latest =>
      fold r.sipUUID = latest.1 && r.createdTime = latest.2).flatMap fun _ =>
        (partners fold packages r).map fun p => (r, p)).filter fun row =>
          decide (row.2 = some p) && (counts fold unit row.1 && isVisible row.2)) =
        if r ∈ latestOf fold jobs unit p then [(r, some p)] else [] := by
    intro r hr
    by_cases hjob : r ∈ jobsOf fold jobs unit p
    · obtain ⟨-, hunit, hsip⟩ := mem_jobsOf.mp hjob
      rw [filter_latestJobs hcoll hjob, partners_eq hcoll hpackages hp hsip]
      split_ifs
      · simp [counts_eq hcoll hsip, hunit, isVisible, hvisible]
      · rfl
    · rw [if_neg fun hmem => hjob (mem_latestOf.mp hmem).1, List.filter_eq_nil_iff]
      intro row hmem hsel
      obtain ⟨-, -, hmem⟩ := List.mem_flatMap.mp hmem
      obtain ⟨p', hp', rfl⟩ := List.mem_map.mp hmem
      simp only [Bool.and_eq_true, decide_eq_true_eq] at hsel
      obtain ⟨rfl, hcounts, -⟩ := hsel
      have hsip : fold r.sipUUID = fold p.id.string := (mem_partners.mp hp').2.symm
      rw [counts_eq hcoll hsip, decide_eq_true_eq] at hcounts
      exact hjob (mem_jobsOf.mpr ⟨hr, hcounts, hsip⟩)
  rw [rows, List.filter_filter, List.filter_flatMap, List.flatMap_congr hrow,
    flatMap_ite_singleton, ← latestOf_eq_filter]

-- Every row is that of a latest job of a visible package.
theorem mem_rows (hcoll : Collation fold) (hpackages : (packages.map PackageRow.id).Nodup)
    {row : Row × Option PackageRow} (h : row ∈ rows fold jobs unit packages) :
    ∃ p ∈ packages, p.hidden = false ∧ row.2 = some p ∧ row.1 ∈ latestOf fold jobs unit p := by
  obtain ⟨hmem, hwhere⟩ := List.mem_filter.mp h
  obtain ⟨r, -, hmem⟩ := List.mem_flatMap.mp hmem
  obtain ⟨-, -, hmem⟩ := List.mem_flatMap.mp hmem
  obtain ⟨partner, hpartner, rfl⟩ := List.mem_map.mp hmem
  rw [Bool.and_eq_true] at hwhere
  cases partner with
  | none => cases hwhere.2
  | some p =>
      have hp := (mem_partners.mp hpartner).1
      have hvisible : p.hidden = false := by simpa [isVisible] using hwhere.2
      have hrow : (r, some p) ∈ (rows fold jobs unit packages).filter fun row => row.2 = some p :=
        List.mem_filter.mpr ⟨h, decide_eq_true rfl⟩
      rw [filter_rows hcoll hpackages hp hvisible] at hrow
      obtain ⟨r', hr', heq⟩ := List.mem_map.mp hrow
      obtain rfl : r' = r := (Prod.mk.inj heq).1
      exact ⟨p, hp, hvisible, rfl, hr'⟩

end Selection

section Conversion

variable {fold : Str → Str} {jobs : List Row} {unit : Str} {packages : List PackageRow}
  {p : PackageRow} {r : Row} {list : List Listed} {order : List (Row × Option PackageRow)}

-- The row of a package's job is listed under the package's identifier.
theorem convert_eq_some (hcoll : Collation fold) (hr : r ∈ jobsOf fold jobs unit p)
    {partner : Option PackageRow} {item : Listed} (h : convert (r, partner) = some item) :
    item.id = p.id.string ∧
      item.createdAt = updateTimeWithFraction r.createdTime r.createdTimeDec := by
  obtain ⟨u, hu, rfl⟩ := Option.map_eq_some_iff.mp h
  obtain rfl : u = p.id := hcoll.parse _ _ _ hu (mem_jobsOf.mp hr).2.2
  exact ⟨rfl, rfl⟩

-- The items under a package's identifier are those of its rows, one for one.
theorem mapM_rowsOf (hcoll : Collation fold) (hpackages : (packages.map PackageRow.id).Nodup)
    (hp : p ∈ packages) (hperm : order.Perm (rows fold jobs unit packages))
    (hlist : order.mapM convert = some list) :
    (order.filter fun row => row.2 = some p).mapM convert =
      some (list.filter fun item => item.id = p.id.string) := by
  refine MapM.mapM_filter hlist fun row hrow item hitem => ?_
  obtain ⟨p', hp', -, hpartner, hlatest⟩ := mem_rows hcoll hpackages (hperm.subset hrow)
  have hid := (convert_eq_some hcoll (mem_latestOf.mp hlatest).1 hitem).1
  rw [hpartner, hid, decide_eq_decide, Option.some_inj]
  constructor
  · rintro rfl
    rfl
  · intro h
    exact List.inj_on_of_nodup_map hpackages hp' hp (UUID.string_injective h)

theorem rowsOf_perm (hcoll : Collation fold) (hpackages : (packages.map PackageRow.id).Nodup)
    (hp : p ∈ packages) (hvisible : p.hidden = false)
    (hperm : order.Perm (rows fold jobs unit packages)) :
    (order.filter fun row => row.2 = some p).Perm ((latestOf fold jobs unit p).map fun r => (r, some p)) :=
  filter_rows hcoll hpackages hp hvisible ▸ hperm.filter _

theorem updateTime_eq_iff (r : Row) :
    updateTimeWithFraction r.createdTime r.createdTimeDec = microsecond * r.createdTime ↔
      nanos r.createdTimeDec = 0 := by
  rw [updateTimeWithFraction]
  omega

variable {type : PackageType}

-- A clean package is listed once, with the time of its latest job.
theorem listed_of_clean (hcoll : Collation fold) (hpackages : (packages.map PackageRow.id).Nodup)
    (hp : p ∈ packages) (hvisible : p.hidden = false)
    (hperm : order.Perm (rows fold jobs unit packages)) (hlist : order.mapM convert = some list)
    (hclean : Clean fold jobs unit packages) (hjobs : jobsOf fold jobs unit p ≠ []) :
    ∃ item, list.filter (fun item => item.id = p.id.string) = [item] ∧
      ∀ r ∈ latestOf fold jobs unit p, item.createdAt = microsecond * r.createdTime := by
  obtain ⟨hone, hlatest⟩ := hclean p hp hvisible
  obtain ⟨r, hr⟩ : ∃ r, latestOf fold jobs unit p = [r] := by
    rw [← List.length_eq_one_iff]
    have hpos := List.length_pos_iff.mpr (latestOf_ne_nil hjobs)
    omega
  have hrows := mapM_rowsOf hcoll hpackages hp hperm hlist
  have hrowsOf := rowsOf_perm hcoll hpackages hp hvisible hperm
  rw [hr, List.map_singleton] at hrowsOf
  rw [List.perm_singleton.mp hrowsOf, List.mapM_cons] at hrows
  obtain ⟨item, hitem, hrows⟩ := Option.bind_eq_some_iff.mp hrows
  have hmem : r ∈ latestOf fold jobs unit p := hr ▸ List.mem_singleton_self r
  refine ⟨item, (Option.some.inj hrows).symm, fun r' hr' => ?_⟩
  obtain rfl : r' = r := by simpa [hr] using hr'
  rw [(convert_eq_some hcoll (mem_latestOf.mp hmem).1 hitem).2]
  exact (updateTime_eq_iff r').mpr (hlatest r' hmem).2

theorem clean_of_listed (hcoll : Collation fold) (hpackages : (packages.map PackageRow.id).Nodup)
    (hp : p ∈ packages) (hvisible : p.hidden = false)
    (hperm : order.Perm (rows fold jobs unit packages)) (hlist : order.mapM convert = some list)
    {item : Listed} (hitem : list.filter (fun item => item.id = p.id.string) = [item])
    (htime : ∀ r ∈ latestOf fold jobs unit p, item.createdAt = microsecond * r.createdTime) :
    (latestOf fold jobs unit p).length ≤ 1 ∧ ∀ r ∈ latestOf fold jobs unit p,
      (UUID.parse r.sipUUID).isSome ∧ nanos r.createdTimeDec = 0 := by
  have hrows := mapM_rowsOf hcoll hpackages hp hperm hlist
  have hrowsOf := rowsOf_perm hcoll hpackages hp hvisible hperm
  rw [hitem] at hrows
  constructor
  · have hlen := MapM.length_mapM hrows
    rw [hrowsOf.length_eq, List.length_map] at hlen
    exact hlen.ge
  · intro r hr
    have hrow : (r, some p) ∈ order.filter fun row => row.2 = some p :=
      hrowsOf.symm.subset (List.mem_map_of_mem hr)
    have hresult : convert (r, some p) ∈ [item].map some :=
      MapM.mapM_eq_some_iff.mp hrows ▸ List.mem_map_of_mem hrow
    have hconvert : convert (r, some p) = some item := by simpa using hresult
    refine ⟨?_, (updateTime_eq_iff r).mp ?_⟩
    · obtain ⟨u, hu, -⟩ := Option.map_eq_some_iff.mp hconvert
      exact Option.isSome_iff_exists.mpr ⟨u, hu⟩
    · rw [← (convert_eq_some hcoll (mem_latestOf.mp hr).1 hconvert).2]
      exact htime r hr

end Conversion

section Theorem

variable {fold : Str → Str} {jobs : List Row} {packages : List PackageRow} {type : PackageType}
  {out : Option (List Listed)}

theorem unitType_eq_some {unit : Str} (h : unitType type = some unit) : jobUnitType type = unit := by
  cases type with
  | dip => cases h
  | transfer => exact Option.some.inj h
  | sip => exact Option.some.inj h

-- The list is right exactly for the two types that have one, where the packages are clean.
theorem readPackages_contract_iff (hcoll : Collation fold)
    (hpackages : (packages.map PackageRow.id).Nodup) (h : Reads fold jobs packages type out) :
    Contract fold jobs packages type out ↔
      ∃ unit, unitType type = some unit ∧ Clean fold jobs unit packages := by
  cases hunit : unitType type with
  | none =>
      rw [Reads, hunit] at h
      refine iff_of_false (fun hcontract => ?_) (by simp)
      obtain ⟨list, hlist, -⟩ := hcontract.listed
      rw [show out = none from h] at hlist
      cases hlist
  | some unit =>
      rw [Reads, hunit] at h
      obtain ⟨order, hperm, rfl⟩ := h
      have hjob := unitType_eq_some hunit
      constructor
      · rintro ⟨list, hlist, hlisted, -⟩
        refine ⟨unit, rfl, fun p hp hvisible => ?_⟩
        by_cases hjobs : jobsOf fold jobs unit p = []
        · simp [latestOf, hjobs]
        · obtain ⟨item, hitem, htime⟩ := hlisted p hp hvisible (hjob.symm ▸ hjobs)
          exact clean_of_listed hcoll hpackages hp hvisible hperm hlist hitem (hjob ▸ htime)
      · rintro ⟨unit', hunit', hclean⟩
        obtain rfl := Option.some.inj hunit'
        obtain ⟨list, hlist⟩ : ∃ list, order.mapM convert = some list := by
          refine MapM.exists_mapM fun row hrow => ?_
          obtain ⟨p, hp, hvisible, -, hlatest⟩ := mem_rows hcoll hpackages (hperm.subset hrow)
          rw [convert, Option.isSome_map]
          exact ((hclean p hp hvisible).2 _ hlatest).1
        refine ⟨list, hlist, ?_, ?_⟩
        · intro p hp hvisible hjobs
          rw [hjob] at hjobs ⊢
          exact listed_of_clean hcoll hpackages hp hvisible hperm hlist hclean hjobs
        · intro item hitem
          obtain ⟨⟨r, partner⟩, hrow, hconvert⟩ := (MapM.mem_mapM hlist).mp hitem
          obtain ⟨p, hp, hvisible, -, hlatest⟩ := mem_rows hcoll hpackages (hperm.subset hrow)
          have hjobs := (mem_latestOf.mp hlatest).1
          refine ⟨p, hp, hvisible, ?_, (convert_eq_some hcoll hjobs hconvert).1⟩
          rw [hjob]
          exact List.ne_nil_of_mem hjobs

end Theorem

-- Identifiers have no letter of the text that the queries look for.
theorem collation_id : Collation id where
  parse text u v hu hv := by
    rw [show text = v.string from hv, UUID.parse_string] at hu
    exact (Option.some.inj hu).symm
  none u := by
    rw [Bool.eq_false_iff, ne_eq, occursIn_iff]
    intro hinfix
    have hmem : 'N' ∈ u.string := hinfix.subset (by decide)
    exact UUID.notMem_string (by decide) (by decide) u hmem

-- A transfer with jobs that were saved at the beginning of a second.
namespace OneTransfer

open Jobs.TwoJobs

def package : PackageRow := ⟨⟨5⟩, some 1, false⟩

def onTheSecond : ℤ := 1700000000000000000

def listed : Listed := ⟨UUID.string ⟨5⟩, 1, onTheSecond⟩

theorem reads_one :
    Reads id [saveRow ⟨1⟩ onTheSecond job] [package] .transfer (some [listed]) :=
  ⟨[(saveRow ⟨1⟩ onTheSecond job, some package)], by decide +kernel, by decide +kernel⟩

theorem reads_two :
    Reads id [saveRow ⟨1⟩ onTheSecond job, saveRow ⟨2⟩ onTheSecond job] [package] .transfer
      (some [listed, listed]) :=
  ⟨[(saveRow ⟨1⟩ onTheSecond job, some package), (saveRow ⟨2⟩ onTheSecond job, some package)],
    by decide +kernel, by decide +kernel⟩

theorem readPackages_contract_iff_one :
    Contract id [saveRow ⟨1⟩ onTheSecond job] [package] .transfer (some [listed]) ↔
      ∃ unit, unitType .transfer = some unit ∧
        Clean id [saveRow ⟨1⟩ onTheSecond job] unit [package] :=
  readPackages_contract_iff collation_id (List.nodup_singleton _) reads_one

-- Two jobs of one time list their package twice.
theorem listed_twice :
    Reads id [saveRow ⟨1⟩ onTheSecond job, saveRow ⟨2⟩ onTheSecond job] [package] .transfer
        (some [listed, listed]) ∧
      ¬ Contract id [saveRow ⟨1⟩ onTheSecond job, saveRow ⟨2⟩ onTheSecond job] [package] .transfer
        (some [listed, listed]) := by
  refine ⟨reads_two, fun h => ?_⟩
  obtain ⟨list, hlist, hlisted, -⟩ := h.listed
  obtain rfl := Option.some.inj hlist
  obtain ⟨item, hitem, -⟩ := hlisted package List.mem_cons_self rfl (by decide +kernel)
  have htwo : ([listed, listed].filter fun item => item.id = package.id.string) = [listed, listed] := by
    decide +kernel
  rw [htwo] at hitem
  cases hitem

end OneTransfer

end PackageTimestamps

end Ccp
