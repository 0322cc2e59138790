import Ccp.Job
import Ccp.Lib.MapM
import Mathlib.Algebra.Order.Group.Int
import Mathlib.Tactic.Linarith

namespace Ccp

open Lib

namespace Jobs

-- Instants and durations are nanoseconds, the instants since the epoch.
def second : ℤ := 1000000000

def microsecond : ℤ := 1000

-- Time.Nanosecond: the place within the second.
def nanosecond (t : ℤ) : ℤ := t % second

-- What a datetime(6) column has of an instant, in microseconds: the nearest one, a half up.
def datetime6 (t : ℤ) : ℤ := (t + 500) / microsecond

-- The fraction of the second as a decimal of ten digits, the last of which is a zero.
def createdTimeDec (t : ℤ) : ℤ := 10 * nanosecond t

-- A row of Jobs. The decimal is in units of its last digit.
structure Row where
  id : UUID
  type : Str
  createdTime : ℤ
  createdTimeDec : ℤ
  directory : Str
  sipUUID : Str
  unitType : Str
  currentStep : ℤ
  microserviceGroup : Str
  hidden : Bool
  linkID : Option UUID
deriving DecidableEq

def stepNumber : JobStep → ℤ
  | .unknown => 0
  | .awaitingDecision => 1
  | .completedSuccessfully => 2
  | .executingCommands => 3
  | .failed => 4

-- The row that job.save creates, for the instant at which the job was made.
def saveRow (id : UUID) (createdAt : ℤ) (j : JobRow) : Row where
  id := id
  type := j.type
  createdTime := datetime6 createdAt
  createdTimeDec := createdTimeDec createdAt
  directory := j.directory
  sipUUID := j.sipID.string
  unitType := j.unitType.toList
  currentStep := stepNumber j.currentStep
  microserviceGroup := j.microserviceGroup
  hidden := false
  linkID := some j.linkID

-- int64 of a number that does not fit, on the platforms of the release.
def int64 (n : ℤ) : ℤ :=
  if -9223372036854775808 ≤ n ∧ n ≤ 9223372036854775807 then n else -9223372036854775808

-- The nanoseconds of a decimal, the part after them dropped.
def nanos (dec : ℤ) : ℤ := int64 (dec.tdiv 10)

def updateTimeWithFraction (createdTime dec : ℤ) : ℤ := microsecond * createdTime + nanos dec

-- A job as the API reports it.
structure Reported where
  id : Str
  packageID : Str
  packageType : Option PackageType
  directory : Str
  linkID : Str
  linkDescription : Str
  createdAt : ℤ
  status : ℤ
  group : Str
  hidden : Bool
deriving DecidableEq

def convert (r : Row) : Option Reported :=
  (UUID.parse r.sipUUID).map fun sipID =>
    { id := r.id.string
      packageID := sipID.string
      packageType :=
        if r.unitType = "unitDIP".toList then some .dip
        else if r.unitType = "unitSIP".toList then some .sip
        else if r.unitType = "unitTransfer".toList then some .transfer
        else none
      directory := r.directory
      linkID := (r.linkID.getD UUID.nil).string
      linkDescription := r.type
      createdAt := updateTimeWithFraction r.createdTime r.createdTimeDec
      status := r.currentStep
      group := r.microserviceGroup
      hidden := r.hidden }

-- What ListJobs returns without an error: the rows of the package, the latest first, those of
-- one time in any order.
def Lists (fold : Str → Str) (rows : List Row) (pkgID : UUID) (out : List Reported) : Prop :=
  ∃ order : List Row, order.Perm (rows.filter fun r => fold r.sipUUID = fold pkgID.string) ∧
    order.Pairwise (fun r r' => r'.createdTime ≤ r.createdTime) ∧ order.mapM convert = some out

section Time

-- What is reported for a job that was saved with an instant.
theorem updateTime_saved (t : ℤ) :
    updateTimeWithFraction (datetime6 t) (createdTimeDec t) =
      microsecond * datetime6 t + nanosecond t := by
  have hdec : (createdTimeDec t).tdiv 10 = nanosecond t := by
    rw [createdTimeDec, Int.mul_tdiv_cancel_left _ (by decide)]
  rw [updateTimeWithFraction, nanos, hdec, int64, if_pos]
  unfold nanosecond second
  omega

-- The instant is off by the fraction of the second, to the microsecond.
theorem updateTime_sub (t : ℤ) :
    updateTimeWithFraction (datetime6 t) (createdTimeDec t) - t =
      microsecond * datetime6 (nanosecond t) := by
  rw [updateTime_saved]
  unfold datetime6 nanosecond second microsecond
  omega

theorem abs_updateTime_sub_lt_iff (t : ℤ) :
    |updateTimeWithFraction (datetime6 t) (createdTimeDec t) - t| < microsecond ↔
      nanosecond t < 500 := by
  rw [updateTime_sub, abs_lt]
  unfold datetime6 nanosecond second microsecond
  omega

theorem updateTime_eq_of_lt {t : ℤ} (h : nanosecond t < 500) :
    updateTimeWithFraction (datetime6 t) (createdTimeDec t) = t := by
  have hoff := updateTime_sub t
  have hzero : datetime6 (nanosecond t) = 0 := by
    unfold datetime6 nanosecond second microsecond at *
    omega
  rw [hzero] at hoff
  omega

end Time

section Listing

variable {fold : Str → Str} {rows : List Row} {pkgID id id' : UUID} {out : List Reported}
  {t t' : ℤ} {j j' : JobRow} {r : Row}

-- A row that job.save wrote, whatever its step became.
def SavedAs (id : UUID) (t : ℤ) (j : JobRow) (r : Row) : Prop :=
  ∃ step, r = { saveRow id t j with currentStep := step }

-- Both jobs are reported with the instants they were saved with, and in their order.
structure Faithful (out : List Reported) (id : UUID) (t : ℤ) (id' : UUID) (t' : ℤ) : Prop where
  earlier : ∃ item ∈ out, item.id = id.string ∧ |item.createdAt - t| < microsecond
  later : ∃ item ∈ out, item.id = id'.string ∧ |item.createdAt - t'| < microsecond
  order : ∀ item ∈ out, ∀ item' ∈ out, item.id = id.string → item'.id = id'.string →
    item.createdAt ≤ item'.createdAt

theorem mem_of_lists (h : Lists fold rows pkgID out) (item : Reported) :
    item ∈ out ↔ ∃ r ∈ rows, fold r.sipUUID = fold pkgID.string ∧ convert r = some item := by
  obtain ⟨order, hperm, -, hout⟩ := h
  rw [MapM.mem_mapM hout]
  simp [hperm.mem_iff, and_assoc]

theorem convert_eq_some {item : Reported} (h : convert r = some item) :
    item.id = r.id.string ∧ item.createdAt = updateTimeWithFraction r.createdTime r.createdTimeDec := by
  obtain ⟨sipID, -, rfl⟩ := Option.map_eq_some_iff.mp h
  exact ⟨rfl, rfl⟩

-- What is reported under the identifier of a saved job.
theorem reported_iff (hrows : (rows.map Row.id).Nodup) (hr : r ∈ rows) (hsaved : SavedAs id t j r)
    (hsip : j.sipID = pkgID) (h : Lists fold rows pkgID out) :
    (∃ item ∈ out, item.id = id.string) ∧ ∀ item ∈ out, item.id = id.string →
      item.createdAt = updateTimeWithFraction (datetime6 t) (createdTimeDec t) := by
  obtain ⟨step, rfl⟩ := hsaved
  constructor
  · have hparse : UUID.parse (saveRow id t j).sipUUID = some j.sipID := UUID.parse_string j.sipID
    have hconvert : ∃ item, convert { saveRow id t j with currentStep := step } = some item := by
      rw [convert, hparse]
      exact ⟨_, rfl⟩
    obtain ⟨item, hitem⟩ := hconvert
    exact ⟨item, (mem_of_lists h item).mpr ⟨_, hr, by rw [← hsip]; rfl, hitem⟩,
      (convert_eq_some hitem).1⟩
  · intro item hitem hid
    obtain ⟨r', hr', -, hconvert⟩ := (mem_of_lists h item).mp hitem
    obtain ⟨hrid, hcreated⟩ := convert_eq_some hconvert
    have hsame : r'.id = id := UUID.string_injective (hrid.symm.trans hid)
    obtain rfl := List.inj_on_of_nodup_map hrows hr' hr hsame
    exact hcreated

-- A job is reported with its instant exactly where that is less than half a microsecond
-- after a full second.
theorem listJobs_faithful_iff {r' : Row} (hrows : (rows.map Row.id).Nodup) (hr : r ∈ rows)
    (hr' : r' ∈ rows) (hsaved : SavedAs id t j r) (hsaved' : SavedAs id' t' j' r')
    (hsip : j.sipID = pkgID) (hsip' : j'.sipID = pkgID) (hle : t ≤ t')
    (h : Lists fold rows pkgID out) :
    Faithful out id t id' t' ↔ nanosecond t < 500 ∧ nanosecond t' < 500 := by
  obtain ⟨⟨item, hitem, hid⟩, hall⟩ := reported_iff hrows hr hsaved hsip h
  obtain ⟨⟨item', hitem', hid'⟩, hall'⟩ := reported_iff hrows hr' hsaved' hsip' h
  constructor
  · rintro ⟨⟨i, hi, hii, hearlier⟩, ⟨i', hi', hii', hlater⟩, -⟩
    rw [hall i hi hii] at hearlier
    rw [hall' i' hi' hii'] at hlater
    exact ⟨(abs_updateTime_sub_lt_iff t).mp hearlier, (abs_updateTime_sub_lt_iff t').mp hlater⟩
  · rintro ⟨ht, ht'⟩
    refine ⟨⟨item, hitem, hid, ?_⟩, ⟨item', hitem', hid', ?_⟩, ?_⟩
    · rw [hall item hitem hid]
      exact (abs_updateTime_sub_lt_iff t).mpr ht
    · rw [hall' item' hitem' hid']
      exact (abs_updateTime_sub_lt_iff t').mpr ht'
    · intro i hi i' hi' hii hii'
      rw [hall i hi hii, hall' i' hi' hii', updateTime_eq_of_lt ht, updateTime_eq_of_lt ht']
      exact hle

end Listing

-- Two jobs of a transfer, a fifth of a second apart.
namespace TwoJobs

def job : JobRow where
  type := "Move to processing directory".toList
  directory := "%sharedPath%currentlyProcessing/a/".toList
  sipID := ⟨5⟩
  unitType := "unitTransfer"
  currentStep := .executingCommands
  microserviceGroup := "Verify transfer compliance".toList
  linkID := ⟨9⟩

def early : ℤ := 1700000000900000000

def late : ℤ := 1700000001100000000

def rows (t t' : ℤ) : List Row := [saveRow ⟨1⟩ t job, saveRow ⟨2⟩ t' job]

def reported (id : UUID) (t : ℤ) : Reported where
  id := id.string
  packageID := UUID.string ⟨5⟩
  packageType := some .transfer
  directory := job.directory
  linkID := UUID.string ⟨9⟩
  linkDescription := job.type
  createdAt := updateTimeWithFraction (datetime6 t) (createdTimeDec t)
  status := 3
  group := job.microserviceGroup
  hidden := false

def out (t t' : ℤ) : List Reported := [reported ⟨2⟩ t', reported ⟨1⟩ t]

theorem convert_saveRow (id : UUID) (t : ℤ) : convert (saveRow id t job) = some (reported id t) := by
  have hparse : UUID.parse (saveRow id t job).sipUUID = some ⟨5⟩ := UUID.parse_string ⟨5⟩
  rw [convert, hparse]
  rfl

theorem lists (t t' : ℤ) (h : t ≤ t') : Lists id (rows t t') ⟨5⟩ (out t t') := by
  refine ⟨[saveRow ⟨2⟩ t' job, saveRow ⟨1⟩ t job], ?_, ?_, ?_⟩
  · exact List.Perm.swap _ _ _
  · have hcreated : datetime6 t ≤ datetime6 t' := by
      unfold datetime6 microsecond
      omega
    simpa [saveRow] using hcreated
  · simp only [List.mapM_cons, List.mapM_nil, convert_saveRow]
    rfl

theorem saved (id : UUID) (t : ℤ) : SavedAs id t job (saveRow id t job) := ⟨_, rfl⟩

theorem listJobs_faithful_iff_twoJobs :
    Faithful (out early late) ⟨1⟩ early ⟨2⟩ late ↔ nanosecond early < 500 ∧ nanosecond late < 500 :=
  have hrows : ((rows early late).map Row.id).Nodup := by decide
  have hlists : Lists id (rows early late) ⟨5⟩ (out early late) := lists early late (by decide)
  listJobs_faithful_iff hrows List.mem_cons_self (List.mem_cons_of_mem _ List.mem_cons_self)
    (saved ⟨1⟩ early) (saved ⟨2⟩ late) rfl rfl (by decide) hlists

-- The first of them is reported as the later one.
theorem reported_out_of_order :
    early ≤ late ∧ Lists id (rows early late) ⟨5⟩ (out early late) ∧
      (reported ⟨2⟩ late).createdAt < (reported ⟨1⟩ early).createdAt ∧
      ¬ Faithful (out early late) ⟨1⟩ early ⟨2⟩ late := by
  have hout : (reported ⟨2⟩ late).createdAt < (reported ⟨1⟩ early).createdAt := by decide
  refine ⟨by decide, lists early late (by decide), hout, fun h => ?_⟩
  have hle := h.order (reported ⟨1⟩ early) (List.mem_cons_of_mem _ List.mem_cons_self)
    (reported ⟨2⟩ late) List.mem_cons_self rfl rfl
  exact absurd hle (not_le.mpr hout)

end TwoJobs

end Jobs

end Ccp
