import Ccp.Worker.RetryNormalize.Again

namespace Ccp.Worker.RetryNormalize

open Lib

theorem keyed_retry {sipDirectory : Str} {sip : UUID} {base : Db} {s : State} {outputs : List Output}
    (h : Normalized sip base s.db outputs) : Keyed (retry sipDirectory sip s).db := by
  have huuids : (retry sipDirectory sip s).db.files.map File.uuid = s.db.files.map File.uuid := by
    rw [retry_files, uuids_marked]
  have hsub : (retry sipDirectory sip s).db.derivations.Sublist s.db.derivations := by
    rw [retry, call]
    simp only [if_true, rmtree, removePreservationFiles, removeFiles_eq, Db.deleteNormalizationEvents,
      Db.deleteManualLinks]
    exact List.filter_sublist.trans List.filter_sublist
  refine ⟨by rw [huuids]; exact h.uuids, (derived_nodup h).sublist (hsub.map _), fun d hd => ?_⟩
  rw [huuids]
  exact derived_mem h (hsub.subset hd)

-- A retry with all of its options.
theorem retried_iff {sipDirectory : Str} {sip : UUID} {base : Db} {s : State} {outputs : List Output}
    (h : Normalized sip base s.db outputs) :
    Contract sipDirectory sip s (retry sipDirectory sip s) ↔ Clear sipDirectory sip s := by
  have hlive {f : File} : f ∈ (retry sipDirectory sip s).db.files ∧ f.removed = false ↔
      f ∈ s.db.files ∧ f.removed = false ∧ f.livePreservation sip = false := by
    rw [retry_files]
    exact mem_marked_live h.uuids
  constructor
  · intro hcontract f hf hkept hnot path hpath hmem
    have hafter := hlive.mpr ⟨hf, hkept, hnot⟩
    exact (mem_disk_retry.mp (hcontract.files f hafter.1 hkept path hpath hmem)).2
  · intro hclear
    have hkeeps : ∀ f ∈ s.db.files, f.removed = false → f.livePreservation sip = false →
        ∀ path, pathOf sipDirectory f = some path → path ∈ s.disk → path ∈ (retry sipDirectory sip s).disk :=
      fun f hf hkept hnot path hpath hmem => mem_disk_retry.mpr ⟨hmem, hclear f hf hkept hnot path hpath hmem⟩
    refine ⟨fun f hf hkept => ?_, fun d hd f hf huuid hkept => ?_, fun e he => events_retry he,
      fun outputs' hfresh => length_liveDerivations (keyed_retry h) hfresh⟩
    · obtain ⟨hbefore, _, hnot⟩ := hlive.mp ⟨hf, hkept⟩
      exact hkeeps f hbefore hkept hnot
    · obtain ⟨hmem, hevents⟩ := mem_derivations_retry hd
      have hnot : f.livePreservation sip = false := by
        rw [Bool.eq_false_iff]
        intro hpreservation
        obtain ⟨e, he, hevent, hnormalization⟩ := normalization_of_preservation h hmem hf huuid hpreservation
        rw [hevents e he hevent] at hnormalization
        cases hnormalization
      exact ⟨(hlive.mpr ⟨hf, hkept, hnot⟩).1, hkeeps f hf hkept hnot⟩

-- What once_normalized registers for one output file is one such registration.

def ofRow (row : OnceNormalized.File) : File :=
  ⟨row.uuid, row.sip, some row.currentlocation, row.filegrpuse, false⟩

def ofTables (db : OnceNormalized.Db) : Db := ⟨db.files.map ofRow, db.events, db.derivations⟩

theorem register_of_registered {disk : OnceNormalized.Disk} {checksumType ef : Str}
    {opts : OnceNormalized.NormalizeArgs} {command : OnceNormalized.Command} {before after : OnceNormalized.Db}
    {id : UUID} {events : List UUID} {purpose : Purpose} (hpurpose : opts.purpose = purpose.text)
    (h : OnceNormalized.Registered disk checksumType opts command before after [ef] [id] events) :
    ∃ o : Output, o.original = opts.fileUUID ∧ o.uuid = id ∧ o.purpose = purpose ∧
      (ofTables after).files = ((ofTables before).register opts.sipUUID o).files ∧
      (ofTables after).derivations = ((ofTables before).register opts.sipUUID o).derivations ∧
      (purpose = .preservation → ∃ e, o.event = some e ∧ e.fileUUID = o.original ∧ e.eventType = normalization) := by
  have hfiles (event : Option OnceNormalized.Event) : (ofTables after).files = ((ofTables before).register opts.sipUUID
      ⟨opts.fileUUID, id, purpose, OnceNormalized.relativeToSIP opts ef, event⟩).files := by
    rw [ofTables, h.files, List.map_append, Db.register, ← hpurpose]
    rfl
  by_cases hp : purpose = .preservation
  · have hpreservation : OnceNormalized.isPreservation opts = true := by
      rw [OnceNormalized.isPreservation, hpurpose, hp]
      decide
    obtain ⟨hlength, _, hderivations, _⟩ := h.preservation hpreservation
    obtain ⟨event, rfl⟩ := List.length_eq_one_iff.mp hlength
    refine ⟨⟨opts.fileUUID, id, purpose, OnceNormalized.relativeToSIP opts ef,
      some (OnceNormalized.normalizationOf opts command ef event)⟩, rfl, rfl, rfl, hfiles _, ?_,
      fun _ => ⟨_, rfl, rfl, rfl⟩⟩
    rw [ofTables, hderivations]
    rfl
  · have hother : OnceNormalized.isPreservation opts = false := by
      rw [OnceNormalized.isPreservation, hpurpose]
      cases hcases : purpose with
      | preservation => exact absurd hcases hp
      | access => decide
      | thumbnail => decide
    refine ⟨⟨opts.fileUUID, id, purpose, OnceNormalized.relativeToSIP opts ef, none⟩, rfl, rfl, rfl, hfiles _, ?_,
      fun hpreservation => absurd hpreservation hp⟩
    rw [ofTables, h.others hother]
    rfl

-- An image with a copy for preservation, and one with a copy for access.

def image : File := ⟨⟨1⟩, ⟨9⟩, some "%SIPDirectory%objects/a.jpg".toList, "original".toList, false⟩

def images : Db := ⟨[image], [], []⟩

def preserved : Output :=
  ⟨⟨1⟩, ⟨2⟩, .preservation, "%SIPDirectory%objects/a-2.tif".toList,
    some ⟨⟨3⟩, ⟨1⟩, normalization, [], []⟩⟩

def accessCopy : Output := ⟨⟨1⟩, ⟨4⟩, .access, "%SIPDirectory%DIP/objects/1-a.jpg".toList, none⟩

def sipPath : Str := "/sip/".toList

def stateOf (o : Output) : State :=
  ⟨images.register ⟨9⟩ o, ["/sip/objects/a.jpg".toList, replaceFirst "%SIPDirectory%".toList sipPath o.location]⟩

theorem normalized_preserved : Normalized ⟨9⟩ images (stateOf preserved).db [preserved] := by
  refine ⟨rfl, rfl, by decide, fun o ho => ?_, fun o ho _ => ?_⟩
  · rw [List.mem_singleton.mp ho]
    decide
  · rw [List.mem_singleton.mp ho]
    exact ⟨_, rfl, rfl, rfl⟩

theorem clear_preserved : Clear sipPath ⟨9⟩ (stateOf preserved) := by
  have hall : ((stateOf preserved).db.files.all fun f => f.removed || f.livePreservation ⟨9⟩ ||
      (pathOf sipPath f).all fun path => !gone sipPath ⟨9⟩ (stateOf preserved).db.files path) = true := by decide
  intro f hf hkept hnot path hpath _
  have hf' := List.all_eq_true.mp hall f hf
  rw [hkept, hnot, hpath, Option.all_some] at hf'
  simpa using hf'

theorem retried_preserved :
    Contract sipPath ⟨9⟩ (stateOf preserved) (retry sipPath ⟨9⟩ (stateOf preserved)) :=
  (retried_iff normalized_preserved).mpr clear_preserved

-- The row of the access copy stays when the DIP goes.
theorem accessCopy_left :
    Normalized ⟨9⟩ images (stateOf accessCopy).db [accessCopy] ∧
      ¬ Contract sipPath ⟨9⟩ (stateOf accessCopy) (retry sipPath ⟨9⟩ (stateOf accessCopy)) := by
  have hnormalized : Normalized ⟨9⟩ images (stateOf accessCopy).db [accessCopy] := by
    refine ⟨rfl, rfl, by decide, fun o ho => ?_, fun o ho hpurpose => ?_⟩
    · rw [List.mem_singleton.mp ho]
      decide
    · rw [List.mem_singleton.mp ho] at hpurpose
      cases hpurpose
  refine ⟨hnormalized, fun h => ?_⟩
  have hrow : (⟨⟨4⟩, ⟨9⟩, some accessCopy.location, Purpose.access.text, false⟩ : File) ∈
      (retry sipPath ⟨9⟩ (stateOf accessCopy)).db.files := by decide
  have hkept := h.files _ hrow rfl "/sip/DIP/objects/1-a.jpg".toList rfl (by decide)
  exact absurd hkept (by decide)

end Ccp.Worker.RetryNormalize
