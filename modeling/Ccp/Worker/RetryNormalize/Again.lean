import Ccp.Worker.RetryNormalize

namespace Ccp.Worker.RetryNormalize

open OnceNormalized (Derivation)

-- Normalizing again.

section Again

variable {sip : UUID} {db : Db} {o : Output} {original : UUID} {purpose : Purpose}

-- The keys of the tables: a file has one row, and is derived from one original.
structure Keyed (db : Db) : Prop where
  uuids : (db.files.map File.uuid).Nodup
  derived : (db.derivations.map (·.derivedFile)).Nodup
  mem : ∀ d ∈ db.derivations, d.derivedFile ∈ db.files.map File.uuid

theorem markDeleted_uuid (uuids : List UUID) (f : File) : (Db.markDeleted uuids f).uuid = f.uuid := by
  unfold Db.markDeleted
  split_ifs
  · rfl
  · rfl

theorem uuids_normalize : (db.normalize sip o).files.map File.uuid = db.files.map File.uuid ++ [o.uuid] := by
  have hmark : (db.cleanUp o.original o.purpose).files.map File.uuid = db.files.map File.uuid := by
    rw [Db.cleanUp, List.map_map]
    exact List.map_congr_left fun f _ => markDeleted_uuid _ f
  rw [Db.normalize, Db.register, List.map_append, hmark]
  rfl

theorem Keyed.normalize (h : Keyed db) (hnew : o.uuid ∉ db.files.map File.uuid) : Keyed (db.normalize sip o) := by
  have hkept : ∀ d ∈ (db.cleanUp o.original o.purpose).derivations, d ∈ db.derivations :=
    fun d hd => List.mem_of_mem_filter hd
  refine ⟨?_, ?_, fun d hd => ?_⟩
  · rw [uuids_normalize, List.nodup_append]
    exact ⟨h.uuids, List.nodup_singleton _, fun uuid huuid other hother heq =>
      hnew (List.mem_singleton.mp hother ▸ heq ▸ huuid)⟩
  · rw [Db.normalize, Db.register, List.map_append, List.nodup_append]
    refine ⟨(h.derived.sublist (List.filter_sublist.map _)), List.nodup_singleton _,
      fun uuid huuid other hother heq => ?_⟩
    obtain ⟨d, hd, rfl⟩ := List.mem_map.mp huuid
    have hmem := h.mem d (hkept d hd)
    rw [heq, List.mem_singleton.mp hother] at hmem
    exact hnew hmem
  · rw [uuids_normalize, List.mem_append]
    rcases List.mem_append.mp hd with hold | hlast
    · exact Or.inl (h.mem d (hkept d hold))
    · rw [List.mem_singleton.mp hlast]
      exact Or.inr (List.mem_singleton_self _)

theorem text_ne_deleted (purpose : Purpose) : purpose.text ≠ deletedUse := by
  cases purpose with
  | preservation => decide
  | access => decide
  | thumbnail => decide

theorem text_injective {purpose purpose' : Purpose} (h : purpose.text = purpose'.text) : purpose = purpose' := by
  revert h
  cases purpose <;> cases purpose' <;> decide

-- Whether a file is live for a purpose.
def liveFor (db : Db) (purpose : Purpose) (uuid : UUID) : Bool :=
  db.files.any fun f => f.uuid = uuid ∧ f.removed = false ∧ f.filegrpuse = purpose.text

theorem liveFor_iff {uuid : UUID} : liveFor db purpose uuid = true ↔
    ∃ f ∈ db.files, f.uuid = uuid ∧ f.removed = false ∧ f.filegrpuse = purpose.text := by
  rw [liveFor, List.any_eq_true]
  refine exists_congr fun f => and_congr_right fun _ => ?_
  exact decide_eq_true_iff

-- The file of an earlier derivation is marked, and no longer one of the purpose.
theorem liveFor_normalize_iff {uuid : UUID} (huuid : uuid ∈ db.files.map File.uuid)
    (hnew : o.uuid ∉ db.files.map File.uuid) :
    liveFor (db.normalize sip o) purpose uuid = true ↔
      uuid ∉ (db.earlier o.original o.purpose).map (·.derivedFile) ∧ liveFor db purpose uuid = true := by
  rw [liveFor_iff, liveFor_iff]
  constructor
  · rintro ⟨f, hf, rfl, hlive, huse⟩
    rcases List.mem_append.mp hf with hold | hlast
    · obtain ⟨f', hf', rfl⟩ := List.mem_map.mp hold
      unfold Db.markDeleted at hlive huse ⊢
      split_ifs at hlive huse ⊢ with hmarked
      · exact absurd huse.symm (text_ne_deleted purpose)
      · exact ⟨fun hmem => hmarked (List.contains_iff_mem.mpr hmem), f', hf', rfl, hlive, huse⟩
    · rw [List.mem_singleton.mp hlast] at huuid
      exact absurd huuid hnew
  · rintro ⟨hnot, f, hf, rfl, hlive, huse⟩
    refine ⟨f, List.mem_append_left _ (List.mem_map.mpr ⟨f, hf, ?_⟩), rfl, hlive, huse⟩
    rw [Db.markDeleted, if_neg fun hcontains => hnot (List.contains_iff_mem.mp hcontains)]

theorem liveFor_new_iff (hnew : o.uuid ∉ db.files.map File.uuid) :
    liveFor (db.normalize sip o) purpose o.uuid = true ↔ o.purpose = purpose := by
  rw [liveFor_iff]
  constructor
  · rintro ⟨f, hf, huuid, _, huse⟩
    rcases List.mem_append.mp hf with hold | hlast
    · obtain ⟨f', hf', rfl⟩ := List.mem_map.mp hold
      rw [markDeleted_uuid] at huuid
      exact absurd (List.mem_map.mpr ⟨f', hf', huuid⟩) hnew
    · rw [List.mem_singleton.mp hlast] at huse
      exact text_injective huse
  · rintro rfl
    exact ⟨_, List.mem_append_right _ (List.mem_singleton_self _), rfl, rfl, rfl⟩

theorem used_of_liveFor {uuid : UUID} (h : liveFor db purpose uuid = true) : db.used uuid purpose.text = true := by
  obtain ⟨f, hf, huuid, _, huse⟩ := liveFor_iff.mp h
  exact List.any_eq_true.mpr ⟨f, hf, decide_eq_true ⟨huuid, huse⟩⟩

-- A file has one use.
theorem purpose_eq (h : Keyed db) {uuid : UUID} {purpose' : Purpose} (hlive : liveFor db purpose uuid = true)
    (hused : db.used uuid purpose'.text = true) : purpose' = purpose := by
  obtain ⟨f, hf, huuid, _, huse⟩ := liveFor_iff.mp hlive
  obtain ⟨f', hf', hrow⟩ := List.any_eq_true.mp hused
  obtain ⟨huuid', huse'⟩ := of_decide_eq_true hrow
  have hsame := List.inj_on_of_nodup_map h.uuids hf hf' (huuid.trans huuid'.symm)
  exact text_injective (by rw [← huse', ← huse, hsame])

-- A derivation that is cleaned up before a normalization.
def cleaned (db : Db) (o : Output) (d : Derivation) : Bool :=
  d.sourceFile = o.original && db.used d.derivedFile o.purpose.text

def liveAt (db : Db) (original : UUID) (purpose : Purpose) (d : Derivation) : Bool :=
  d.sourceFile = original && liveFor db purpose d.derivedFile

theorem liveDerivations_split :
    (db.normalize sip o).liveDerivations original purpose =
      (db.derivations.filter fun d => liveAt (db.normalize sip o) original purpose d && !cleaned db o d) ++
        [⟨o.original, o.uuid, o.event.map (·.eventId)⟩].filter (liveAt (db.normalize sip o) original purpose) := by
  rw [← List.filter_filter]
  exact List.filter_append _ _

-- What a purpose of an original has stays when it is another one that is normalized.
theorem liveDerivations_normalize_of_ne (h : Keyed db) (hnew : o.uuid ∉ db.files.map File.uuid)
    (hne : (o.original, o.purpose) ≠ (original, purpose)) :
    (db.normalize sip o).liveDerivations original purpose = db.liveDerivations original purpose := by
  have hlast : liveAt (db.normalize sip o) original purpose
      ⟨o.original, o.uuid, o.event.map (·.eventId)⟩ = false := by
    rw [Bool.eq_false_iff]
    intro hlive
    rw [liveAt, Bool.and_eq_true, decide_eq_true_eq, liveFor_new_iff hnew] at hlive
    exact hne (Prod.ext hlive.1 hlive.2)
  rw [liveDerivations_split, List.filter_singleton, hlast, cond_false, List.append_nil]
  refine List.filter_congr fun d hd => ?_
  rw [Bool.eq_iff_iff]
  change (liveAt (db.normalize sip o) original purpose d && !cleaned db o d) = true ↔
    liveAt db original purpose d = true
  rw [Bool.and_eq_true, Bool.not_eq_true', liveAt, liveAt, Bool.and_eq_true, Bool.and_eq_true,
    liveFor_normalize_iff (h.mem d hd) hnew]
  constructor
  · rintro ⟨⟨hsource, _, hlive⟩, _⟩
    exact ⟨hsource, hlive⟩
  · rintro ⟨hsource, hlive⟩
    have hkept : cleaned db o d = false := by
      rw [Bool.eq_false_iff]
      intro hcleaned
      rw [cleaned, Bool.and_eq_true, decide_eq_true_eq] at hcleaned
      exact hne (Prod.ext (hcleaned.1.symm.trans (of_decide_eq_true hsource)) (purpose_eq h hlive hcleaned.2))
    refine ⟨⟨hsource, fun hmem => ?_, hlive⟩, hkept⟩
    obtain ⟨d', hd', hsame⟩ := List.mem_map.mp hmem
    obtain ⟨hmem', hcleaned⟩ := List.mem_filter.mp hd'
    rw [List.inj_on_of_nodup_map h.derived hmem' hd hsame] at hcleaned
    exact absurd hcleaned (by rw [← cleaned, hkept]; exact Bool.false_ne_true)

-- The purpose that is normalized has the new file alone.
theorem liveDerivations_normalize (h : Keyed db) (hnew : o.uuid ∉ db.files.map File.uuid) :
    (db.normalize sip o).liveDerivations o.original o.purpose =
      [⟨o.original, o.uuid, o.event.map (·.eventId)⟩] := by
  have hlast : liveAt (db.normalize sip o) o.original o.purpose
      ⟨o.original, o.uuid, o.event.map (·.eventId)⟩ = true := by
    rw [liveAt, Bool.and_eq_true, decide_eq_true_eq]
    exact ⟨rfl, (liveFor_new_iff hnew).mpr rfl⟩
  have hnone : (db.derivations.filter fun d =>
      liveAt (db.normalize sip o) o.original o.purpose d && !cleaned db o d) = [] := by
    rw [List.filter_eq_nil_iff]
    intro d hd hlive
    rw [Bool.and_eq_true, Bool.not_eq_true', liveAt, Bool.and_eq_true,
      liveFor_normalize_iff (h.mem d hd) hnew] at hlive
    obtain ⟨⟨hsource, _, hlive⟩, hkept⟩ := hlive
    rw [cleaned, hsource, used_of_liveFor hlive] at hkept
    cases hkept
  rw [liveDerivations_split, hnone, List.filter_singleton, hlast]
  rfl

theorem Fresh.rest {outputs : List Output} (h : Fresh db (o :: outputs)) : Fresh (db.normalize sip o) outputs := by
  have hpairs := h.pairs
  have hnodup := h.nodup
  rw [List.map_cons, List.nodup_cons] at hpairs hnodup
  refine ⟨hpairs.2, hnodup.2, fun o' ho' hmem => ?_⟩
  rw [uuids_normalize, List.mem_append, List.mem_singleton] at hmem
  rcases hmem with hold | hlast
  · exact h.new o' (List.mem_cons_of_mem _ ho') hold
  · exact hnodup.1 (hlast ▸ List.mem_map_of_mem ho')

theorem liveDerivations_foldl_of_notMem {outputs : List Output} (h : Keyed db) (hfresh : Fresh db outputs)
    (hnot : (original, purpose) ∉ outputs.map fun o => (o.original, o.purpose)) :
    (outputs.foldl (Db.normalize sip) db).liveDerivations original purpose =
      db.liveDerivations original purpose := by
  induction outputs generalizing db with
  | nil => rfl
  | cons o outputs ih =>
      rw [List.map_cons, List.mem_cons, not_or] at hnot
      have hnew := hfresh.new o List.mem_cons_self
      rw [List.foldl_cons, ih (h.normalize hnew) hfresh.rest hnot.2,
        liveDerivations_normalize_of_ne h hnew (Ne.symm hnot.1)]

-- One live file for each purpose of an original that was normalized, whatever comes after it.
theorem length_liveDerivations {outputs : List Output} (h : Keyed db) (hfresh : Fresh db outputs) :
    ∀ o ∈ outputs, ((outputs.foldl (Db.normalize sip) db).liveDerivations o.original o.purpose).length = 1 := by
  induction outputs generalizing db with
  | nil => exact fun o ho => absurd ho List.not_mem_nil
  | cons first outputs ih =>
      intro o ho
      have hnew := hfresh.new first List.mem_cons_self
      rw [List.foldl_cons]
      rcases List.mem_cons.mp ho with rfl | hlater
      · have hpairs := hfresh.pairs
        rw [List.map_cons, List.nodup_cons] at hpairs
        rw [liveDerivations_foldl_of_notMem (h.normalize hnew) hfresh.rest hpairs.1,
          liveDerivations_normalize h hnew]
        rfl
      · exact ih (h.normalize hnew) hfresh.rest o hlater

end Again

end Ccp.Worker.RetryNormalize
