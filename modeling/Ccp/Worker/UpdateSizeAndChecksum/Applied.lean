import Ccp.Worker.UpdateSizeAndChecksum

namespace Ccp.Worker.UpdateSizeAndChecksum

open Lib

-- What the second pass writes for a file.
structure Change where
  fileUUID : UUID
  size : ℤ
  sized : Sized
  addEvent : Bool
  derived : Option UUID
  formatVersion : Option UUID

def Change.event (c : Change) : Option Event :=
  if c.addEvent then some (messageDigest c.fileUUID c.sized) else none

def write (db : Db) (c : Change) : Db where
  files := db.files.map fun f => if f.uuid = c.fileUUID then setSized c.size c.sized f else f
  events := db.events ++ c.event.toList
  derivations := db.derivations ++ (c.derived.map (c.fileUUID, ·)).toList
  formats := db.formats ++ (c.formatVersion.map (c.fileUUID, ·)).toList
  nodup := nodup_update db.nodup c.fileUUID c.size c.sized

section Apply

variable {w : World} {db db' : Db} {args : Args} {mets : Option Mets} {f : File} {p : Pending} {c : Change}

theorem truthy_some {t : Str} (ht : t ≠ []) : truthy (some t) = some t := by
  rw [truthy, Option.filter_some, if_pos (by simpa using ht)]

theorem ne_nil_of_truthy {s : Option Str} {t : Str} (h : truthy s = some t) : t ≠ [] := by
  simpa using (Option.filter_eq_some_iff.mp h).2

theorem getD_truthy_again (s : Option Str) (d : Str) :
    (truthy (some ((truthy s).getD d))).getD d = (truthy s).getD d := by
  by_cases hne : (truthy s).getD d = []
  · cases hs : truthy s with
    | none =>
        rw [hs, Option.getD_none] at hne
        rw [Option.getD_none, hne]
        rfl
    | some t =>
        rw [hs, Option.getD_some] at hne
        exact absurd hne (ne_nil_of_truthy hs)
  · rw [truthy_some hne, Option.getD_some]

-- A value that was found is found again, and so is one that was read in its place.
theorem truthy_or_again {s : Option Str} {d : Option Str} {t : Str} (h : (truthy s).or d = some t) :
    (truthy (some t)).or d = some t := by
  by_cases ht : t = []
  · cases hs : truthy s with
    | none =>
        rw [hs, Option.none_or] at h
        rw [ht] at h ⊢
        exact h
    | some t' =>
        rw [hs, Option.some_or] at h
        exact absurd ((Option.some.inj h).trans ht) (ne_nil_of_truthy hs)
  · rw [truthy_some ht, Option.some_or]

theorem size_or_again {size : Option Size} {d : Option Size} {n : Size}
    (h : (size.filter Size.truthy).or d = some n) : ((some n).filter Size.truthy).or d = some n := by
  by_cases hn : n.truthy = true
  · rw [Option.filter_some, if_pos hn, Option.some_or]
  · cases hs : size.filter Size.truthy with
    | none =>
        rw [hs, Option.none_or] at h
        rw [Option.filter_some, if_neg hn, Option.none_or, h]
    | some n' =>
        rw [hs, Option.some_or] at h
        exact absurd (Option.some.inj h ▸ (Option.filter_eq_some_iff.mp hs).2) hn

-- What is read once is read again in the second pass.
theorem getSizeAndChecksum_again {filePath : Str} {fileSize : Option Size} {checksum checksumType : Option Str}
    {sized : Sized} (h : getSizeAndChecksum w filePath fileSize checksum checksumType = some sized) :
    getSizeAndChecksum w filePath (some sized.fileSize) (some sized.checksum) (some sized.checksumType) =
      some sized := by
  obtain ⟨size, hsize, h⟩ := Option.bind_eq_some_iff.mp h
  obtain ⟨text, htext, rfl⟩ := Option.map_eq_some_iff.mp h
  rw [getSizeAndChecksum]
  simp only [getD_truthy_again, truthy_or_again htext, size_or_again hsize, Option.bind_some, Option.map_some]

-- The derived file of a change, nothing where it has no row.
def derivedOf (w : World) (known : List UUID) : Option Str → Option (Option UUID)
  | none => some none
  | some derivation => (w.toPython derivation).bind fun derived =>
      if known.contains derived then some (some derived) else none

def changeOf (w : World) (known : List UUID) (p : Pending) : Option Change :=
  (derivedOf w known p.info.derivation).bind fun derived =>
    (p.info.sized.fileSize.toInt w).map fun size =>
      ⟨p.fileUUID, size, p.info.sized, p.info.addEvent, derived, p.info.formatVersion⟩

def Stable (w : World) (info : FileInfo) : Prop :=
  getSizeAndChecksum w info.filePath (some info.sized.fileSize) (some info.sized.checksum)
    (some info.sized.checksumType) = some info.sized

-- The update writes what is left of a change when the derivation and the format are there.
theorem updateSizeAndChecksum_eq (h : Stable w p.info) :
    updateSizeAndChecksum w db p.fileUUID p.info = (p.info.sized.fileSize.toInt w).map fun size =>
      write db ⟨p.fileUUID, size, p.info.sized, p.info.addEvent, none, none⟩ := by
  rw [updateSizeAndChecksum, h, Option.bind_some]
  cases p.info.sized.fileSize.toInt w with
  | none => rfl
  | some size =>
      refine congrArg some (Db.ext rfl ?_ (List.append_nil _).symm (List.append_nil _).symm)
      simp only [write, Change.event]
      split_ifs
      · rfl
      · exact (List.append_nil _).symm

theorem insertIntoDerivations_eq (db : Db) (uuid : UUID) (derivation : Str) :
    insertIntoDerivations w db uuid derivation =
      (derivedOf w (db.files.map File.uuid) (some derivation)).map fun derived =>
        { db with derivations := db.derivations ++ (derived.map (uuid, ·)).toList } := by
  rw [insertIntoDerivations, derivedOf]
  cases w.toPython derivation with
  | none => rfl
  | some derived =>
      rw [Option.bind_some, Option.bind_some]
      split_ifs <;> rfl

theorem applyInfo_eq (h : Stable w p.info) :
    applyInfo w db p = (changeOf w (db.files.map File.uuid) p).map (write db) := by
  have hderived : insertDerivation w db p.fileUUID p.info.derivation =
      (derivedOf w (db.files.map File.uuid) p.info.derivation).map fun derived =>
        { db with derivations := db.derivations ++ (derived.map (p.fileUUID, ·)).toList } := by
    cases p.info.derivation with
    | none => exact congrArg some (Db.ext rfl rfl (List.append_nil _).symm rfl)
    | some derivation => exact insertIntoDerivations_eq db p.fileUUID derivation
  rw [applyInfo, hderived, changeOf]
  cases derivedOf w (db.files.map File.uuid) p.info.derivation with
  | none => rfl
  | some derived =>
      rw [Option.map_some, Option.bind_some, Option.bind_some, updateSizeAndChecksum_eq h, Option.map_map]
      refine congrArg (fun g => Option.map g _) (funext fun size => ?_)
      refine Db.ext rfl rfl ?_ ?_
      · exact List.append_nil _
      · exact List.append_nil _

theorem uuids_write (db : Db) (c : Change) : (write db c).files.map File.uuid = db.files.map File.uuid := by
  rw [write, List.map_map]
  refine List.map_congr_left fun f _ => ?_
  rw [Function.comp_apply]
  split_ifs <;> rfl

-- The change of a row: it has none where there is no file, and nothing where an error comes up.
def planned (w : World) (known : List UUID) (mets : Option Mets) (args : Args) (f : File) : Option (Option Change) :=
  (getSizeAndChecksumForFile w mets args f).bind fun info =>
    match info with
    | none => some none
    | some info => (changeOf w known ⟨f.uuid, info⟩).map some

def changeAt (w : World) (known : List UUID) (mets : Option Mets) (args : Args) (f : File) : Option Change :=
  (planned w known mets args f).join

theorem stable_of_read {info : FileInfo} (h : getSizeAndChecksumForFile w mets args f = some (some info)) :
    Stable w info := by
  obtain ⟨location, -, h⟩ := Option.bind_eq_some_iff.mp h
  split_ifs at h with hexists
  swap
  · cases h
  obtain ⟨kw, -, h⟩ := Option.bind_eq_some_iff.mp h
  obtain ⟨sized, hsized, h⟩ := Option.map_eq_some_iff.mp h
  obtain rfl := Option.some.inj h
  exact getSizeAndChecksum_again hsized

-- The two passes over the rows, as one.
theorem passes_iff (rows : List File) :
    ((collectFiles w mets args rows).2 = true ∧
        (collectFiles w mets args rows).1.foldlM (applyInfo w) db = some db') ↔
      (∀ f ∈ rows, (planned w (db.files.map File.uuid) mets args f).isSome = true) ∧
        db' = (rows.filterMap (changeAt w (db.files.map File.uuid) mets args)).foldl write db := by
  induction rows generalizing db with
  | nil =>
      constructor
      · rintro ⟨-, h⟩
        exact ⟨fun f hf => absurd hf List.not_mem_nil, (Option.some.inj h).symm⟩
      · rintro ⟨-, rfl⟩
        exact ⟨rfl, rfl⟩
  | cons f rows ih =>
      rw [collectFiles, List.forall_mem_cons]
      cases hread : getSizeAndChecksumForFile w mets args f with
      | none =>
          have hplanned : planned w (db.files.map File.uuid) mets args f = none := by
            rw [planned, hread]
            rfl
          refine iff_of_false (fun h => Bool.false_ne_true h.1) fun h => ?_
          have hsome := h.1.1
          rw [hplanned] at hsome
          cases hsome
      | some info =>
          cases info with
          | none =>
              have hplanned : planned w (db.files.map File.uuid) mets args f = some none := by
                rw [planned, hread]
                rfl
              have hjoin : changeAt w (db.files.map File.uuid) mets args f = none := by
                rw [changeAt, hplanned]
                rfl
              simp only [ih]
              rw [List.filterMap_cons_none hjoin, hplanned]
              simp
          | some info =>
              have hplanned : planned w (db.files.map File.uuid) mets args f =
                  (changeOf w (db.files.map File.uuid) ⟨f.uuid, info⟩).map some := by
                rw [planned, hread]
                rfl
              have happly : applyInfo w db ⟨f.uuid, info⟩ =
                  (changeOf w (db.files.map File.uuid) ⟨f.uuid, info⟩).map (write db) :=
                applyInfo_eq (stable_of_read hread)
              simp only [List.foldlM_cons, happly]
              cases hchange : changeOf w (db.files.map File.uuid) ⟨f.uuid, info⟩ with
              | none =>
                  rw [hplanned, hchange]
                  simp
              | some c =>
                  have hjoin : changeAt w (db.files.map File.uuid) mets args f = some c := by
                    rw [changeAt, hplanned, hchange]
                    rfl
                  have hnext := @ih (write db c)
                  rw [uuids_write] at hnext
                  rw [List.filterMap_cons_some hjoin, List.foldl_cons, hplanned, hchange]
                  simpa using hnext

end Apply

section Planned

variable {w : World} {db db' : Db} {args : Args} {mets : Option Mets} {f : File} {kw : Keywords}
  {known : List UUID} {c : Change} {location : Str} {entry : Entry}

-- What the keywords have of the METS file.
structure OfMets (w : World) (args : Args) (f : File) (kw : Keywords) : Prop where
  fileSize : kw.fileSize = (described w args f).bind (·.size)
  checksum : kw.checksum = (described w args f).bind (·.messageDigest)
  checksumType : kw.checksumType = (described w args f).bind (·.messageDigestAlgorithm)
  addEvent : kw.addEvent = (described w args f).isNone

theorem described_of_none (h : metsOf w args = none ∨ f.inReingestedAip ≠ true) : described w args f = none := by
  rw [described]
  rcases h with h | h
  · rw [h, Option.bind_none, ite_self]
  · rw [if_neg h]

theorem ofMets_of_none (h : described w args f = none) : OfMets w args f ⟨none, none, none, true, none, none⟩ := by
  constructor <;> rw [h] <;> rfl

-- The description of a file, as the look-up gives it.
theorem getFileInfoFromMets_some {m : Mets} {info : MetsInfo} :
    getFileInfoFromMets w m f = some (some info) ↔ ∃ fsentry object document formatVersion,
      m.getFile (some f.uuid.string) = some fsentry ∧ fsentry.premisObjects.head? = some object ∧
      fsentry.documents.head? = some document ∧
      ParseMets.Files.parseFormatVersion w.fpr document = some formatVersion ∧
      info = ⟨object.size, object.messageDigest, object.messageDigestAlgorithm,
        (object.relationship.find? (isDerivation m fsentry)).bind (·.relatedObject), formatVersion⟩ := by
  rw [getFileInfoFromMets]
  cases hfile : m.getFile (some f.uuid.string) with
  | none => simp
  | some fsentry =>
      cases hobject : fsentry.premisObjects.head? with
      | none => simp [hobject]
      | some object =>
          simp only [hobject]
          cases hdocument : fsentry.documents.head? with
          | none => simp [hdocument]
          | some document =>
              rw [Option.bind_some]
              cases hformat : ParseMets.Files.parseFormatVersion w.fpr document with
              | none => simp [hobject, hdocument, hformat]
              | some formatVersion => simp [hobject, hdocument, hformat, eq_comm]

theorem ofMets (hmets : metsOf w args = mets) (h : keywords w mets f = some kw) : OfMets w args f kw := by
  cases mets with
  | none =>
      obtain rfl := Option.some.inj h
      exact ofMets_of_none (described_of_none (.inl hmets))
  | some m =>
      rw [keywords] at h
      by_cases haip : f.inReingestedAip = true
      · rw [if_pos haip] at h
        obtain ⟨info, hinfo, rfl⟩ := Option.map_eq_some_iff.mp h
        obtain ⟨fsentry, object, document, formatVersion, hfile, hobject, -, -, rfl⟩ :=
          getFileInfoFromMets_some.mp (Option.join_eq_some_iff.mp hinfo)
        have hdescribed : described w args f = some object := by
          rw [described, if_pos haip, hmets, Option.bind_some, describedIn, hfile, Option.bind_some, hobject]
          rfl
        constructor <;> rw [hdescribed] <;> rfl
      · rw [if_neg haip] at h
        obtain rfl := Option.some.inj h
        exact ofMets_of_none (described_of_none (.inr haip))

theorem derivedOf_isSome_iff {derivation : Option Str} : (derivedOf w known derivation).isSome = true ↔
    ∀ text, derivation = some text → ∃ derived, w.toPython text = some derived ∧ derived ∈ known := by
  cases derivation with
  | none => simp [derivedOf]
  | some text =>
      rw [derivedOf]
      cases htext : w.toPython text with
      | none => simp [htext]
      | some derived =>
          rw [Option.bind_some]
          by_cases hmem : derived ∈ known
          · simp [hmem, htext]
          · simp [hmem, htext]

-- The look-ups in the METS file go well.
theorem keywords_iff : (∃ kw, keywords w mets f = some kw ∧
      (derivedOf w (db.files.map File.uuid) kw.derivation).isSome = true) ↔
    ∀ m, mets = some m → f.inReingestedAip = true → ClearMets w db m f := by
  cases mets with
  | none => simp [keywords, derivedOf]
  | some m =>
      by_cases haip : f.inReingestedAip = true
      · rw [keywords]
        simp only [if_pos haip]
        constructor
        · rintro ⟨kw, hkw, hderived⟩ m' hm' -
          obtain rfl := Option.some.inj hm'
          obtain ⟨info, hinfo, rfl⟩ := Option.map_eq_some_iff.mp hkw
          obtain ⟨fsentry, object, document, formatVersion, hfile, hobject, hdocument, hformat, rfl⟩ :=
            getFileInfoFromMets_some.mp (Option.join_eq_some_iff.mp hinfo)
          refine ⟨⟨fsentry, object, hfile, hobject, ⟨document, hdocument, ?_⟩, ?_⟩⟩
          · rw [hformat]
            rfl
          · exact derivedOf_isSome_iff.mp hderived
        · intro hclear
          obtain ⟨fsentry, object, hfile, hobject, ⟨document, hdocument, hformat⟩, hderived⟩ :=
            (hclear m rfl haip).described
          obtain ⟨formatVersion, hformat⟩ := Option.isSome_iff_exists.mp hformat
          have hinfo := getFileInfoFromMets_some.mpr
            ⟨fsentry, object, document, formatVersion, hfile, hobject, hdocument, hformat, rfl⟩
          refine ⟨_, Option.map_eq_some_iff.mpr ⟨_, Option.join_eq_some_iff.mpr hinfo, rfl⟩, ?_⟩
          exact derivedOf_isSome_iff.mpr hderived
      · rw [keywords]
        simp [haip, derivedOf]

theorem filter_text (s : Option Str) : (s.map Size.text).filter Size.truthy = (truthy s).map Size.text := by
  cases s with
  | none => rfl
  | some t =>
      by_cases ht : t = []
      · rw [ht]
        rfl
      · have htruthy : (Size.text t).truthy = true := by simpa [Size.truthy] using ht
        rw [truthy_some ht, Option.map_some, Option.filter_some, if_pos htruthy]

theorem getSizeAndChecksum_eq (hentry : w.disk (pathOf args location) = some entry) (h : OfMets w args f kw) :
    getSizeAndChecksum w (pathOf args location) (kw.fileSize.map .text) kw.checksum kw.checksumType =
      (wantedChecksum w args f entry).map fun checksum =>
        ⟨wantedSize w args f entry, checksum, wantedType w args f⟩ := by
  have hsize : ((truthy kw.fileSize).map Size.text).or (some (.number entry.size)) =
      some (wantedSize w args f entry) := by
    rw [wantedSize, h.fileSize]
    cases truthy ((described w args f).bind (·.size)) <;> rfl
  have htype : (truthy kw.checksumType).getD w.checksumType = wantedType w args f := by
    rw [wantedType, h.checksumType]
  rw [getSizeAndChecksum, filter_text, hentry, Option.map_some, hsize]
  simp only [Option.bind_some, htype, h.checksum]
  rfl

theorem entryOf_eq (hlocation : f.currentlocation = some location) :
    entryOf w args f = w.disk (pathOf args location) := by
  rw [entryOf, hlocation, Option.bind_some]

theorem planned_eq (hmets : metsOf w args = mets) (hlocation : f.currentlocation = some location)
    (hentry : w.disk (pathOf args location) = some entry) :
    planned w known mets args f = (keywords w mets f).bind fun kw =>
      (derivedOf w known kw.derivation).bind fun derived => (wanted w args f).map fun pair =>
        some ⟨f.uuid, pair.1, pair.2, kw.addEvent, derived, kw.formatVersion⟩ := by
  rw [planned, getSizeAndChecksumForFile, hlocation, Option.bind_some, if_pos (by rw [hentry]; rfl), wanted,
    entryOf_eq hlocation, hentry, Option.bind_some]
  cases hkw : keywords w mets f with
  | none => rfl
  | some kw =>
      rw [Option.bind_some, Option.bind_some, getSizeAndChecksum_eq hentry (ofMets hmets hkw)]
      cases wantedChecksum w args f entry with
      | none => cases derivedOf w known kw.derivation <;> rfl
      | some checksum =>
          rw [Option.map_some, Option.map_some, Option.bind_some, Option.bind_some]
          simp only [changeOf]
          cases derivedOf w known kw.derivation with
          | none => rfl
          | some derived =>
              rw [Option.bind_some, Option.bind_some]
              cases (wantedSize w args f entry).toInt w <;> rfl

-- A row without a file on disk has no change.
theorem planned_of_missing (hlocation : f.currentlocation = some location)
    (hentry : w.disk (pathOf args location) = none) : planned w known mets args f = some none := by
  rw [planned, getSizeAndChecksumForFile, hlocation, Option.bind_some, if_neg (by rw [hentry]; simp),
    Option.bind_some]

theorem planned_isSome_iff (hmets : metsOf w args = mets) :
    (planned w (db.files.map File.uuid) mets args f).isSome = true ↔ ClearFile w db args f := by
  cases hlocation : f.currentlocation with
  | none =>
      refine iff_of_false (fun h => ?_) fun h => ?_
      · rw [planned, getSizeAndChecksumForFile, hlocation] at h
        cases h
      · have hsome := h.location
        rw [hlocation] at hsome
        cases hsome
  | some location =>
      have hexists : f.currentlocation.isSome = true := by rw [hlocation]; rfl
      cases hentry : w.disk (pathOf args location) with
      | none =>
          have hnone : (entryOf w args f).isSome ≠ true := by
            rw [entryOf_eq hlocation, hentry]
            exact Bool.false_ne_true
          rw [planned_of_missing hlocation hentry]
          exact iff_of_true rfl ⟨hexists, fun _ _ _ h => absurd h hnone, fun h => absurd h hnone⟩
      | some entry =>
          have hsome : (entryOf w args f).isSome = true := by
            rw [entryOf_eq hlocation, hentry]
            rfl
          have hkeywords := @keywords_iff w db mets f
          rw [planned_eq hmets hlocation hentry]
          constructor
          · intro h
            obtain ⟨change, h⟩ := Option.isSome_iff_exists.mp h
            obtain ⟨kw, hkw, h⟩ := Option.bind_eq_some_iff.mp h
            obtain ⟨derived, hderived, h⟩ := Option.bind_eq_some_iff.mp h
            obtain ⟨pair, hpair, -⟩ := Option.map_eq_some_iff.mp h
            have hclear := hkeywords.mp ⟨kw, hkw, by rw [hderived]; rfl⟩
            refine ⟨hexists, fun m hm haip _ => hclear m (hmets.symm.trans hm) haip, fun _ => ?_⟩
            rw [hpair]
            rfl
          · intro h
            obtain ⟨kw, hkw, hderived⟩ := hkeywords.mpr fun m hm haip => h.mets m (hmets.trans hm) haip hsome
            obtain ⟨derived, hderived⟩ := Option.isSome_iff_exists.mp hderived
            obtain ⟨pair, hpair⟩ := Option.isSome_iff_exists.mp (h.values hsome)
            rw [hkw, Option.bind_some, hderived, Option.bind_some, hpair]
            rfl

-- What is written for a file: its size and checksum, and whether there is an event.
theorem changeAt_eq (hmets : metsOf w args = mets) (hclear : ClearFile w db args f) :
    (changeAt w (db.files.map File.uuid) mets args f).map (fun c => (c.fileUUID, c.size, c.sized, c.addEvent)) =
      (wanted w args f).map fun pair => (f.uuid, pair.1, pair.2, (described w args f).isNone) := by
  obtain ⟨location, hlocation⟩ := Option.isSome_iff_exists.mp hclear.location
  cases hentry : w.disk (pathOf args location) with
  | none =>
      rw [changeAt, planned_of_missing hlocation hentry, wanted, entryOf_eq hlocation, hentry]
      rfl
  | some entry =>
      obtain ⟨change, h⟩ := Option.isSome_iff_exists.mp ((planned_isSome_iff hmets).mpr hclear)
      rw [changeAt, h]
      rw [planned_eq hmets hlocation hentry] at h
      obtain ⟨kw, hkw, h⟩ := Option.bind_eq_some_iff.mp h
      obtain ⟨derived, -, h⟩ := Option.bind_eq_some_iff.mp h
      obtain ⟨pair, hpair, rfl⟩ := Option.map_eq_some_iff.mp h
      rw [hpair, Option.map_some, ← (ofMets hmets hkw).addEvent]
      rfl

end Planned

section Written

variable {w : World} {db db' : Db} {args : Args}

theorem files_foldl_write (changes : List Change) (db : Db) :
    (changes.foldl write db).files = changes.foldl (fun files c =>
      files.map fun f => if f.uuid = c.fileUUID then setSized c.size c.sized f else f) db.files := by
  induction changes generalizing db with
  | nil => rfl
  | cons c changes ih => exact ih (write db c)

theorem events_foldl_write (changes : List Change) (db : Db) :
    (changes.foldl write db).events = db.events ++ changes.filterMap Change.event := by
  induction changes generalizing db with
  | nil => exact (List.append_nil _).symm
  | cons c changes ih =>
      have hcons : (c :: changes).filterMap Change.event = c.event.toList ++ changes.filterMap Change.event := by
        rw [List.filterMap_cons]
        cases c.event <;> rfl
      rw [List.foldl_cons, ih, hcons, ← List.append_assoc]
      rfl

theorem getFiles_sublist (db : Db) (args : Args) : (getFiles db args).Sublist db.files := by
  have hsubdir (files : List File) (path : Str) (filterSubdir : Option Str) :
      (filterQuerysetBySubdir files path filterSubdir).Sublist files := by
    rw [filterQuerysetBySubdir]
    cases truthy filterSubdir with
    | none => exact List.Sublist.refl files
    | some subdir => exact List.filter_sublist
  rw [getFiles]
  cases args.sipUUID with
  | none => exact (hsubdir _ _ _).trans List.filter_sublist
  | some sip => exact (hsubdir _ _ _).trans List.filter_sublist

theorem nodup_getFiles (db : Db) (args : Args) : ((getFiles db args).map File.uuid).Nodup :=
  db.nodup.sublist ((getFiles_sublist db args).map File.uuid)

theorem call_singleton : call w [args] db =
    ([(runJob w db args).1], (runJob w db args).2.foldlM (applyInfo w) db) := by
  rw [call]
  simp

theorem call_eq_iff {unit : UnitArgs} {sipDirectory : Str} {filterSubdir : Option Str} :
    call w [argsOf unit sipDirectory filterSubdir] db = ([0], some db') ↔
      ∃ mets, readMets w sipDirectory = some mets ∧
        (∀ f ∈ getFiles db (argsOf unit sipDirectory filterSubdir),
          (planned w (db.files.map File.uuid) mets (argsOf unit sipDirectory filterSubdir) f).isSome = true) ∧
        db' = ((getFiles db (argsOf unit sipDirectory filterSubdir)).filterMap
          (changeAt w (db.files.map File.uuid) mets (argsOf unit sipDirectory filterSubdir))).foldl write db := by
  have hone : (argsOf unit sipDirectory filterSubdir).sipUUID.isSome ≠
      (argsOf unit sipDirectory filterSubdir).transferUUID.isSome := by
    cases unit with
    | sip uuid => exact Bool.noConfusion
    | transfer uuid => exact Bool.noConfusion
  have hdirectory : (argsOf unit sipDirectory filterSubdir).sipDirectory = sipDirectory := by cases unit <;> rfl
  rw [call_singleton, runJob, if_neg hone, hdirectory]
  cases readMets w sipDirectory with
  | none => simp
  | some mets =>
      simp only [Prod.mk.injEq, Option.some.injEq, exists_eq_left', ← passes_iff, List.cons.injEq, and_true]
      refine and_congr_left' ?_
      cases (collectFiles w mets (argsOf unit sipDirectory filterSubdir)
        (getFiles db (argsOf unit sipDirectory filterSubdir))).2 <;> simp

end Written

section Contract

variable {w : World} {db : Db} {args : Args} {mets : Option Mets}

theorem fileUUID_changeAt {known : List UUID} {f : File} {c : Change}
    (h : changeAt w known mets args f = some c) : c.fileUUID = f.uuid := by
  rw [changeAt, Option.join_eq_some_iff, planned] at h
  obtain ⟨info, -, h⟩ := Option.bind_eq_some_iff.mp h
  cases info with
  | none => cases h
  | some info =>
      obtain ⟨change, hchange, h⟩ := Option.map_eq_some_iff.mp h
      obtain rfl := Option.some.inj h
      obtain ⟨derived, -, hchange⟩ := Option.bind_eq_some_iff.mp hchange
      obtain ⟨size, -, rfl⟩ := Option.map_eq_some_iff.mp hchange
      rfl

-- The row of a file after the second pass.
theorem expectedFile_eq (hmets : metsOf w args = mets) (hclear : ∀ f ∈ getFiles db args, ClearFile w db args f)
    {f : File} (hf : f ∈ db.files) :
    (((getFiles db args).filterMap (changeAt w (db.files.map File.uuid) mets args)).find?
      fun c => c.fileUUID = f.uuid).elim f (fun c => setSized c.size c.sized f) = expectedFile w db args f := by
  by_cases hunit : inUnit db args f
  · have hchange := changeAt_eq hmets (hclear f hunit)
    rw [Table.find?_filterMap_of_nodup (fun _ _ h => fileUUID_changeAt h) (nodup_getFiles db args) hunit,
      expectedFile, if_pos hunit]
    cases hwanted : wanted w args f with
    | none =>
        rw [hwanted, Option.map_none, Option.map_eq_none_iff] at hchange
        rw [hchange]
        rfl
    | some pair =>
        rw [hwanted, Option.map_some] at hchange
        obtain ⟨c, hc, heq⟩ := Option.map_eq_some_iff.mp hchange
        simp only [Prod.mk.injEq] at heq
        rw [hc, Option.elim_some, Option.elim_some, heq.2.1, heq.2.2.1]
  · have hother : f.uuid ∉ (getFiles db args).map File.uuid := by
      intro hmem
      obtain ⟨g, hg, heq⟩ := List.mem_map.mp hmem
      have hsame : g = f := List.inj_on_of_nodup_map db.nodup ((getFiles_sublist db args).subset hg) hf heq
      exact hunit (hsame ▸ hg)
    rw [Table.find?_filterMap_of_notMem (fun _ _ h => fileUUID_changeAt h) hother, expectedFile, if_neg hunit]
    rfl

theorem expectedEvent_eq (hmets : metsOf w args = mets) {f : File} (hclear : ClearFile w db args f) :
    (changeAt w (db.files.map File.uuid) mets args f).bind Change.event = expectedEvent w args f := by
  have hchange := changeAt_eq hmets hclear
  rw [expectedEvent]
  cases hwanted : wanted w args f with
  | none =>
      rw [hwanted, Option.map_none, Option.map_eq_none_iff] at hchange
      rw [hchange, Option.bind_none, Option.map_none, ite_self]
  | some pair =>
      rw [hwanted, Option.map_some] at hchange
      obtain ⟨c, hc, heq⟩ := Option.map_eq_some_iff.mp hchange
      simp only [Prod.mk.injEq] at heq
      rw [hc, Option.bind_some, Change.event, heq.1, heq.2.2.1, heq.2.2.2]
      cases described w args f <;> rfl

end Contract

-- Whether the sizes and the checksums of a unit are written as they should be.
theorem sized_iff (w : World) (db : Db) (unit : UnitArgs) (sipDirectory : Str) (filterSubdir : Option Str) :
    Contract w db (argsOf unit sipDirectory filterSubdir) ↔ Clear w db (argsOf unit sipDirectory filterSubdir) := by
  have hdirectory : (argsOf unit sipDirectory filterSubdir).sipDirectory = sipDirectory := by cases unit <;> rfl
  have hmetsOf {mets : Option Mets} (h : readMets w sipDirectory = some mets) :
      metsOf w (argsOf unit sipDirectory filterSubdir) = mets := by
    rw [metsOf, hdirectory, h]
    rfl
  constructor
  · rintro ⟨db', hcall, -, -⟩
    obtain ⟨mets, hmets, hplanned, -⟩ := call_eq_iff.mp hcall
    refine ⟨?_, fun f hf => (planned_isSome_iff (hmetsOf hmets)).mp (hplanned f hf)⟩
    rw [hdirectory, hmets]
    rfl
  · rintro ⟨hread, hclear⟩
    rw [hdirectory] at hread
    obtain ⟨mets, hmets⟩ := Option.isSome_iff_exists.mp hread
    refine ⟨_, call_eq_iff.mpr ⟨mets, hmets, fun f hf => ?_, rfl⟩, ?_, ?_⟩
    · exact (planned_isSome_iff (hmetsOf hmets)).mpr (hclear f hf)
    · have hplace (f : File) (c : Change) (h : changeAt w (db.files.map File.uuid) mets
          (argsOf unit sipDirectory filterSubdir) f = some c) := fileUUID_changeAt h
      have hnodup := Table.nodup_filterMap hplace (nodup_getFiles db (argsOf unit sipDirectory filterSubdir))
      have hupdate := @Table.foldl_update File Change UUID _ File.uuid Change.fileUUID
        (fun c r => setSized c.size c.sized r) (fun _ _ => rfl) _ hnodup db.files
      rw [files_foldl_write]
      refine hupdate.trans ?_
      exact List.map_congr_left fun f hf => expectedFile_eq (hmetsOf hmets) hclear hf
    · rw [events_foldl_write, List.filterMap_filterMap]
      refine congrArg (db.events ++ ·) (List.filterMap_congr fun f hf => ?_)
      exact expectedEvent_eq (hmetsOf hmets) (hclear f hf)

section Example

-- A host with a METS file that has no files.
def emptyMets : World where
  disk := fun _ => some ⟨3, fun _ => some "2c26b46b".toList⟩
  checksumType := "sha256".toList
  findMetsFile := fun _ => some "/t/metadata/METS.xml".toList
  fromfile := fun _ => some ⟨fun _ => none⟩
  fpr := ⟨[], []⟩
  toPython := fun _ => none
  toInt := fun _ => none

-- A reingested AIP with a file that was added to it.
def reingested : Db where
  files := [⟨⟨1⟩, some ⟨⟨2⟩, archivematicaAIP⟩, none, some "%transferDirectory%objects/a".toList, none, [], []⟩]
  events := []
  derivations := []
  formats := []
  nodup := List.nodup_singleton _

def transferArgs : Args := argsOf (.transfer ⟨2⟩) "/t/".toList (some "objects".toList)

theorem undescribed_fails : (call emptyMets [transferArgs] reingested).1 = [1] ∧
    (call emptyMets [transferArgs] reingested).2.map Db.files = some reingested.files ∧
    wanted emptyMets transferArgs (reingested.files.head (List.cons_ne_nil _ _)) =
      some (3, ⟨.number 3, "2c26b46b".toList, "sha256".toList⟩) ∧
    ¬ Contract emptyMets reingested transferArgs := by
  have hstatus : (call emptyMets [transferArgs] reingested).1 = [1] := by decide +kernel
  refine ⟨hstatus, by decide +kernel, by decide +kernel, ?_⟩
  rintro ⟨db', hcall, -⟩
  rw [hcall] at hstatus
  have hother : ([0] : List ℕ) ≠ [1] := by decide
  exact hother hstatus

end Example

end Ccp.Worker.UpdateSizeAndChecksum
