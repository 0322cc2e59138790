import Ccp.Worker.Reingest.Placed

namespace Ccp.Worker.Reingest.UpdateObject

open Lib Lib.Element ParseMets.Files

-- The reader of the document, parse_files, after the update.

section Reader

variable {env : Env} {u : UUID} {o o' : PremisObject} {fpr : Fpr} {root root' : Root} {fe : FileElement}
  {info : FileInfo} {a a' : AmdSection} {f f' : FSEntry}

def formatVersionOf (fpr : Fpr) (name key : Str) : Option (Option UUID) :=
  parseFormatVersion fpr ⟨[], [], [], [], [], [name], [key], []⟩

-- What the reader gets: the last identification is the first format.
def Env.fileInfo (env : Env) (fpr : Fpr) (u : UUID) (info : FileInfo) : Option FileInfo :=
  let formatVersion :=
    match (env.fileIDsOf u).getLast? with
    | none => some info.formatVersion
    | some row => formatVersionOf fpr row.formatRegistryName row.formatRegistryKey
  formatVersion.map fun formatVersion =>
    { info with
      checksum := if env.redigested u then ((env.row u).map FileRow.checksum).getD [] else info.checksum
      checksumtype :=
        if env.redigested u then ((env.row u).map FileRow.checksumtype).getD [] else info.checksumtype
      formatVersion
      derivation :=
        if env.derives u then (env.derivativesOf u).head?.map (·.1.string) else info.derivation
      derivationEvent :=
        if env.derives u then (env.derivativesOf u).head?.map (·.2.string) else info.derivationEvent }

-- A techMD in the document, and as the reader takes it.
structure Stands (t : SubSection) (m : TechMD) : Prop where
  status : m.status = some superseded ↔ t.status = some superseded
  reads : ∀ document, t.contents = .mdWrap document → Reads document m.object

-- The amdSec in a document that is written, whatever the order of its techMDs.
def Written (root : Root) (a : AmdSection) : Prop :=
  ∃ s l, root.amdSecs.filter (·.id = some a.id) = [s] ∧
    l.Perm (a.subsections.filter SubSection.isTechMD) ∧ List.Forall₂ Stands l s.techMDs

def SubSection.isLive (s : SubSection) : Bool := s.status ≠ some superseded && s.isTechMD

def AmdSection.currents (a : AmdSection) : List SubSection := a.subsections.filter SubSection.isLive

theorem currentTechMDs_of_written (h : Written root a) {t : SubSection} (ht : a.currents = [t]) :
    ∃ m, root.currentTechMDs a.id = [m] ∧ Stands t m := by
  obtain ⟨s, l, hs, hperm, hstands⟩ := h
  have hfilter : List.Forall₂ Stands (l.filter fun s => s.status ≠ some superseded)
      (s.techMDs.filter (·.status ≠ some superseded)) := by
    refine List.rel_filter (fun t m h => ?_) hstands
    simp [h.status]
  have hsingle : l.filter (fun s => s.status ≠ some superseded) = [t] := by
    refine List.perm_singleton.mp ?_
    rw [← ht, AmdSection.currents]
    have hfilter := hperm.filter fun s => s.status ≠ some superseded
    rw [List.filter_filter] at hfilter
    exact hfilter
  rw [hsingle] at hfilter
  obtain ⟨m, ms, hm, hnil, hms⟩ := List.forall₂_cons_left_iff.mp hfilter
  refine ⟨m, ?_, hm⟩
  rw [Root.currentTechMDs, hs, List.flatMap_singleton, hms, List.forall₂_nil_left_iff.mp hnil]

theorem parseFormatVersion_congr
    (hname : findtext o'.formatRegistryName = findtext o.formatRegistryName)
    (hkey : findtext o'.formatRegistryKey = findtext o.formatRegistryKey) :
    parseFormatVersion fpr o' = parseFormatVersion fpr o := by
  rw [parseFormatVersion, parseFormatVersion, hname, hkey]

-- What parse_files makes of an object.
def infoOf (fpr : Fpr) (fe : FileElement) (href : Str) (object : PremisObject) : Option FileInfo :=
  (parseFormatVersion fpr object).map fun formatVersion =>
    let event := findtext (object.relationship.flatMap (·.relatedEventIdentifierValue))
    let related := findtext (object.relationship.flatMap (·.relatedObjectIdentifierValue))
    let rel := findtext (object.relationship.flatMap (·.relationshipSubType))
    { uuid := findtext (object.objectIdentifier.map Prod.snd)
      originalPath := replaceAll (findtext object.originalName) transferDirectory sipDirectory
      currentPath := sipDirectory ++ href
      use := fe.use
      checksum := findtext object.messageDigest
      checksumtype := findtext object.messageDigestAlgorithm
      size := findtext object.size
      formatVersion
      derivation := if rel = isSourceOf then some related else none
      derivationEvent := if rel = isSourceOf then some event else none }

variable {m : TechMD} {id href : Str} {texts : Name → List Str}

theorem parseFile_eq_infoOf (hadmid : fe.admid = some id) (hm : root.currentTechMDs id = [m]) :
    parseFile fpr root fe = fe.href.bind fun href => infoOf fpr fe href m.object := by
  rw [parseFile, hadmid, Option.bind_some, hm, List.head?_cons, Option.bind_some]
  rfl

theorem infoOf_congr (h : ReadsFrom texts o) (h' : ReadsFrom texts o') :
    infoOf fpr fe href o' = infoOf fpr fe href o := by
  have hversion : parseFormatVersion fpr o' = parseFormatVersion fpr o :=
    parseFormatVersion_congr (by rw [h.formatRegistryName, h'.formatRegistryName])
      (by rw [h.formatRegistryKey, h'.formatRegistryKey])
  rw [infoOf, infoOf, hversion]
  simp only [h.objectIdentifier, h.originalName, h.messageDigest, h.messageDigestAlgorithm, h.size,
    h.relationshipSubType, h.relatedObject, h.relatedEvent, h'.objectIdentifier, h'.originalName,
    h'.messageDigest, h'.messageDigestAlgorithm, h'.size, h'.relationshipSubType, h'.relatedObject,
    h'.relatedEvent]

theorem parseFormatVersion_object : parseFormatVersion fpr (env.object u o) =
    match (env.fileIDsOf u).getLast? with
    | none => parseFormatVersion fpr o
    | some row => formatVersionOf fpr row.formatRegistryName row.formatRegistryKey := by
  cases hlast : (env.fileIDsOf u).getLast? with
  | none =>
      have hnil : env.fileIDsOf u = [] := List.getLast?_eq_none_iff.mp hlast
      have hidentified : env.identified u = false := by simp [Env.identified, hnil]
      exact parseFormatVersion_congr (by simp [Env.object, hidentified]) (by simp [Env.object, hidentified])
  | some row =>
      have hidentified : env.identified u = true := by
        have : env.fileIDsOf u ≠ [] := by
          intro hnil
          rw [hnil] at hlast
          cases hlast
        simpa [Env.identified] using this
      refine parseFormatVersion_congr ?_ ?_
      · simp [Env.object, hidentified, findtext, List.head?_reverse, hlast]
      · simp [Env.object, hidentified, findtext, List.head?_reverse, hlast]

theorem findtext_relationshipsOf (hderives : env.derives u = true) :
    ∃ derivative, (env.derivativesOf u).head? = some derivative ∧
      findtext ((env.relationshipsOf u).flatMap (·.relationshipSubType)) = isSourceOf ∧
      findtext ((env.relationshipsOf u).flatMap (·.relatedObjectIdentifierValue)) = derivative.1.string ∧
      findtext ((env.relationshipsOf u).flatMap (·.relatedEventIdentifierValue)) = derivative.2.string := by
  rw [Env.relationshipsOf]
  cases hderivatives : env.derivativesOf u with
  | nil => simp [Env.derives, hderivatives] at hderives
  | cons derivative rest => exact ⟨derivative, rfl, rfl, rfl, rfl⟩

theorem infoOf_object (hrow : env.redigested u = true → (env.row u).isSome)
    (h : infoOf fpr fe href o = some info) : infoOf fpr fe href (env.object u o) = env.fileInfo fpr u info := by
  obtain ⟨formatVersion, hversion, rfl⟩ := Option.map_eq_some_iff.mp h
  have hdigest : findtext (env.object u o).messageDigest =
      if env.redigested u then ((env.row u).map FileRow.checksum).getD [] else findtext o.messageDigest := by
    cases hneeded : env.redigested u with
    | false => simp [Env.object, hneeded]
    | true =>
        obtain ⟨row, hrow⟩ := Option.isSome_iff_exists.mp (hrow hneeded)
        simp [Env.object, hneeded, hrow, findtext]
  have halgorithm : findtext (env.object u o).messageDigestAlgorithm =
      if env.redigested u then ((env.row u).map FileRow.checksumtype).getD []
      else findtext o.messageDigestAlgorithm := by
    cases hneeded : env.redigested u with
    | false => simp [Env.object, hneeded]
    | true =>
        obtain ⟨row, hrow⟩ := Option.isSome_iff_exists.mp (hrow hneeded)
        simp [Env.object, hneeded, hrow, findtext]
  have hlast : parseFormatVersion fpr (env.object u o) =
      match (env.fileIDsOf u).getLast? with
      | none => some formatVersion
      | some row => formatVersionOf fpr row.formatRegistryName row.formatRegistryKey := by
    rw [parseFormatVersion_object, hversion]
  rw [infoOf, Env.fileInfo, hlast, hdigest, halgorithm]
  refine congrArg (fun g => Option.map g _) (funext fun version => ?_)
  cases hderives : env.derives u with
  | false => simp [Env.object, hderives]
  | true =>
      obtain ⟨derivative, hhead, hsubType, hrelated, hevent⟩ := findtext_relationshipsOf hderives
      have hrelationship : (env.object u o).relationship = env.relationshipsOf u := by
        simp [Env.object, hderives]
      rw [hrelationship]
      simp [hhead, hsubType, hrelated, hevent, Env.object]

-- One file of the document.

def FSEntry.isOriginal (f : FSEntry) : Prop :=
  f.use = some "original".toList ∧ f.type = "Item".toList ∧ f.fileUUID ≠ some []

theorem updateEntry_eq (horiginal : f.isOriginal) (hamdsecs : f.amdsecs = [a]) {i : ℕ} {t : SubSection}
    {document : El} (hi : a.subsections.findIdx? SubSection.isCurrent = some i) (ht : a.subsections[i]? = some t)
    (hcontents : t.contents = .mdWrap document) (hu : f.fileUUID.bind env.toPython = some u) :
    updateEntry env f =
      (updatePremisObject document).bind fun new =>
        if env.modified u then
          (env.updateContents u new).map fun new =>
            { f with amdsecs := [{ a with subsections := replaceWith i new a.subsections }] }
        else some f := by
  obtain ⟨huse, htype, huuid⟩ := horiginal
  rw [updateEntry, if_neg (by simp [huse, htype, huuid]), hamdsecs]
  simp only [hi, Option.bind_some, ht, Option.map_some, hcontents, hu]

theorem isSome_row_of_updateContents {new new' : El} (h : env.updateContents u new = some new') :
    env.redigested u = true → (env.row u).isSome := by
  intro hneeded
  obtain ⟨es₁, _, _, _, h₁, -, -, -, -⟩ := updateContents_eq_some h
  rw [step, if_pos hneeded] at h₁
  obtain ⟨row, hrow, -⟩ := Option.bind_eq_some_iff.mp h₁
  simp [hrow]

theorem isLive_of_isCurrent {s : SubSection} (h : s.isCurrent = true) : s.isLive = true := by
  simp only [SubSection.isCurrent, Bool.and_eq_true, Bool.or_eq_true, decide_eq_true_eq] at h
  rw [SubSection.isLive, Bool.and_eq_true]
  refine ⟨?_, h.1⟩
  rcases h.2 with (hstatus | hstatus) | hstatus
  all_goals
    rw [hstatus]
    decide

-- The section that is replaced was the only current one, and so is the one in its place.
theorem currents_replaceWith {i : ℕ} {t : SubSection} {new : El} (hcurrents : a.currents = [t])
    (hi : a.subsections.findIdx? SubSection.isCurrent = some i) (ht : a.subsections[i]? = some t) :
    AmdSection.currents { a with subsections := replaceWith i new a.subsections } =
      [⟨"techMD".toList, some statusCurrent, .mdWrap new⟩] := by
  obtain ⟨hlt, rfl⟩ := List.getElem?_eq_some_iff.mp ht
  have hcurrent : (a.subsections[i]).isCurrent = true := by
    obtain ⟨_, h, -⟩ := List.findIdx?_eq_some_iff_getElem.mp hi
    exact h
  have hlive : (a.subsections[i]).isLive = true := isLive_of_isCurrent hcurrent
  have hold : ∀ old : SubSection, SubSection.isLive { old with status := some superseded } = false := by
    intro old
    simp [SubSection.isLive]
  have hsplit : a.subsections = a.subsections.take i ++ a.subsections[i] :: a.subsections.drop (i + 1) := by
    rw [List.getElem_cons_drop, List.take_append_drop]
  have hfilter : (a.subsections.take i ++ a.subsections[i] :: a.subsections.drop (i + 1)).filter
      SubSection.isLive = [a.subsections[i]] := by
    rw [← hsplit]
    exact hcurrents
  rw [List.filter_append, List.filter_cons_of_pos hlive] at hfilter
  have hlength := congrArg List.length hfilter
  simp only [List.length_append, List.length_cons, List.length_nil] at hlength
  have htake : (a.subsections.take i).filter SubSection.isLive = [] := List.length_eq_zero_iff.mp (by omega)
  have hdrop : (a.subsections.drop (i + 1)).filter SubSection.isLive = [] :=
    List.length_eq_zero_iff.mp (by omega)
  rw [AmdSection.currents, replaceWith, List.modify_eq_take_cons_drop hlt, List.filter_append,
    List.filter_append, List.filter_cons_of_neg (by rw [hold]; decide), htake, hdrop]
  rfl

-- An original file whose amdSec has one current techMD, with an object that is placed.
structure Described (env : Env) (f : FSEntry) (a : AmdSection) (u : UUID) : Prop where
  original : f.isOriginal
  amdsecs : f.amdsecs = [a]
  uuid : f.fileUUID.bind env.toPython = some u
  current : ∃ t document new, a.currents = [t] ∧ t.isCurrent = true ∧ t.contents = .mdWrap document ∧
    versioned document = true ∧ updatePremisObject document = some new ∧
      ∀ c ∈ new.children, placed c = true

theorem getElem?_of_mapM {files files' : List FSEntry} (h : updateObject env files = some files') {k : ℕ}
    (hf : files[k]? = some f) : ∃ f', files'[k]? = some f' ∧ updateEntry env f = some f' := by
  have hk := congrArg (·[k]?) (MapM.mapM_eq_some_iff.mp h)
  simp only [List.getElem?_map, hf, Option.map_some] at hk
  obtain ⟨f', hf', heq⟩ := Option.map_eq_some_iff.mp hk
  exact ⟨f', hf', heq.symm⟩

-- The section that the update starts from.
theorem getElem?_of_currents {t : SubSection} (hcurrents : a.currents = [t]) (ht : t.isCurrent = true) :
    ∃ i, a.subsections.findIdx? SubSection.isCurrent = some i ∧ a.subsections[i]? = some t := by
  have hmem : t ∈ a.subsections := by
    have : t ∈ a.currents := by simp [hcurrents]
    exact List.mem_of_mem_filter this
  cases hi : a.subsections.findIdx? SubSection.isCurrent with
  | none =>
      have := List.findIdx?_eq_none_iff.mp hi t hmem
      rw [ht] at this
      cases this
  | some i =>
      obtain ⟨hlt, hcurrent, -⟩ := List.findIdx?_eq_some_iff_getElem.mp hi
      have hlive : a.subsections[i] ∈ a.currents :=
        List.mem_filter.mpr ⟨List.getElem_mem hlt, isLive_of_isCurrent hcurrent⟩
      rw [hcurrents, List.mem_singleton] at hlive
      exact ⟨i, rfl, by rw [List.getElem?_eq_getElem hlt, hlive]⟩

theorem map_contents_replaceWith (i : ℕ) (new : El) (l : List SubSection) :
    l.map SubSection.contents <+: (replaceWith i new l).map SubSection.contents := by
  have hmodify : (l.modify i fun old => { old with status := some superseded }).map SubSection.contents =
      l.map SubSection.contents := by
    refine List.ext_getElem? fun j => ?_
    rw [List.getElem?_map, List.getElem?_map, List.getElem?_modify]
    cases l[j]? with
    | none => rfl
    | some old =>
        split_ifs
        · rfl
        · rfl
  rw [replaceWith, List.map_append, hmodify]
  exact List.prefix_append _ _

-- The reader of the document gets what the database has for the file, and else what it got before.
theorem parseFile_updateObject {files files' : List FSEntry} (hplain : Plain env u)
    (h : updateObject env files = some files') {k : ℕ} (hf : files[k]? = some f)
    (hdescribed : Described env f a u) :
    ∃ a', files'[k]? = some { f with amdsecs := [a'] } ∧ a'.id = a.id ∧ (∃ t, a'.currents = [t]) ∧
      (a.subsections.map SubSection.contents) <+: (a'.subsections.map SubSection.contents) ∧
      ∀ (fpr : Fpr) (root root' : Root) (fe : FileElement) (info : FileInfo), Written root a →
        Written root' a' → fe.admid = some a.id → parseFile fpr root fe = some info →
          parseFile fpr root' fe = env.fileInfo fpr u info := by
  obtain ⟨horiginal, hamdsecs, hu, t, document, new, hcurrents, ht, hcontents, hversioned, hnew, hplaced⟩ :=
    hdescribed
  obtain ⟨f', hf', hentry⟩ := getElem?_of_mapM h hf
  obtain ⟨i, hi, hti⟩ := getElem?_of_currents hcurrents ht
  rw [updateEntry_eq horiginal hamdsecs hi hti hcontents hu, hnew, Option.bind_some] at hentry
  cases hmodified : env.modified u with
  | false =>
      rw [hmodified] at hentry
      obtain rfl := Option.some.inj hentry
      refine ⟨a, by rw [hf', ← hamdsecs], rfl, ⟨t, hcurrents⟩, List.prefix_refl _, ?_⟩
      intro fpr root root' fe info hroot hroot' hadmid hinfo
      obtain ⟨m, hm, hstands⟩ := currentTechMDs_of_written hroot hcurrents
      obtain ⟨m', hm', hstands'⟩ := currentTechMDs_of_written hroot' hcurrents
      rw [parseFile_eq_infoOf hadmid hm] at hinfo
      obtain ⟨href, hhref, hinfo⟩ := Option.bind_eq_some_iff.mp hinfo
      have hredigested : env.redigested u = false := by
        simp only [Env.modified, Bool.or_eq_false_iff] at hmodified
        exact hmodified.1.1.1
      have hsame : infoOf fpr fe href (env.object u m.object) = env.fileInfo fpr u info :=
        infoOf_object (by simp [hredigested]) hinfo
      rw [object_of_not_modified hmodified] at hsame
      rw [parseFile_eq_infoOf hadmid hm', hhref, Option.bind_some,
        infoOf_congr (hstands.reads document hcontents) (hstands'.reads document hcontents), hsame]
  | true =>
      rw [hmodified, if_pos rfl] at hentry
      obtain ⟨new', hnew', rfl⟩ := Option.map_eq_some_iff.mp hentry
      have hcurrents' : AmdSection.currents { a with subsections := replaceWith i new' a.subsections } =
          [⟨"techMD".toList, some statusCurrent, .mdWrap new'⟩] := currents_replaceWith hcurrents hi hti
      refine ⟨_, hf', rfl, ⟨_, hcurrents'⟩, map_contents_replaceWith i new' a.subsections, ?_⟩
      intro fpr root root' fe info hroot hroot' hadmid hinfo
      obtain ⟨m, hm, hstands⟩ := currentTechMDs_of_written hroot hcurrents
      obtain ⟨m', hm', hstands'⟩ := currentTechMDs_of_written hroot' hcurrents'
      have hreads := reads_updateContents hplain hversioned hnew hplaced hnew' (hstands.reads document hcontents)
      rw [parseFile_eq_infoOf hadmid hm] at hinfo
      obtain ⟨href, hhref, hinfo⟩ := Option.bind_eq_some_iff.mp hinfo
      rw [parseFile_eq_infoOf hadmid hm', hhref, Option.bind_some,
        infoOf_congr hreads (hstands'.reads new' rfl),
        infoOf_object (isSome_row_of_updateContents hnew') hinfo]

-- The document as the reader takes it.

def objectOf (e : El) : PremisObject where
  objectIdentifier := (textsOf .objectIdentifierValue e).map fun value => ("UUID".toList, value)
  originalName := textsOf .originalName e
  messageDigest := textsOf .messageDigest e
  messageDigestAlgorithm := textsOf .messageDigestAlgorithm e
  size := textsOf .size e
  formatRegistryName := textsOf .formatRegistryName e
  formatRegistryKey := textsOf .formatRegistryKey e
  relationship :=
    [⟨textsOf .relationshipSubType e, textsOf .relatedObjectIdentifierValue e,
      textsOf .relatedEventIdentifierValue e⟩]

theorem reads_objectOf (e : El) : Reads e (objectOf e) := by
  constructor
  all_goals simp [objectOf, Function.comp_def]

def SubSection.techMD (t : SubSection) : TechMD where
  status := t.status
  object :=
    match t.contents with
    | .mdWrap document => objectOf document
    | .mdRef => ⟨[], [], [], [], [], [], [], []⟩

def rootOf (amdSecs : List AmdSection) (files : List FileElement) : Root where
  fileSec := some files
  amdSecs := amdSecs.map fun a =>
    ⟨some a.id, (a.subsections.filter SubSection.isTechMD).map SubSection.techMD⟩

theorem written_rootOf (a : AmdSection) (files : List FileElement) : Written (rootOf [a] files) a := by
  refine ⟨⟨some a.id, (a.subsections.filter SubSection.isTechMD).map SubSection.techMD⟩, _, ?_, List.Perm.refl _, ?_⟩
  · simp [rootOf]
  · rw [List.forall₂_map_right_iff]
    refine List.forall₂_same.mpr fun t _ => ⟨Iff.rfl, fun document hdocument => ?_⟩
    rw [SubSection.techMD, hdocument]
    exact reads_objectOf document

end Reader

-- An object of PREMIS 2 whose file has a new digest, two identifications, an output of its
-- characterization and a derivative.
namespace Earlier

def tag2 (name : Name) : Tag := ⟨.premis2, name, some "premis".toList⟩

def leaf2 (name : Name) (text : String) : El := .mk (tag2 name) [(.text, text.toList)] []

def node2 (name : Name) (children : List El) : El := .mk (tag2 name) [] children

def source : UUID := ⟨1⟩

def preservation : UUID := ⟨2⟩

def normalization : UUID := ⟨3⟩

def document : El :=
  node2 .object
    [node2 (.other "objectIdentifier".toList)
        [leaf2 (.other "objectIdentifierType".toList) "UUID",
          .mk (tag2 .objectIdentifierValue) [(.text, source.string)] []],
      node2 .objectCharacteristics
        [leaf2 (.other "compositionLevel".toList) "0",
          node2 .fixity [leaf2 .messageDigestAlgorithm "md5", leaf2 .messageDigest "d41d8cd9"],
          leaf2 .size "1",
          node2 .format
            [node2 .formatDesignation [leaf2 .formatName "TIFF"],
              node2 .formatRegistry [leaf2 .formatRegistryName "PRONOM", leaf2 .formatRegistryKey "fmt/353"]]],
      leaf2 .originalName "%transferDirectory%objects/a.tif"]

def amdSec : AmdSection where
  id := "amdSec_1".toList
  subsections :=
    [⟨"techMD".toList, none, .mdWrap document⟩, ⟨"digiprovMD".toList, none, .mdRef⟩]

def entry : FSEntry := ⟨some "original".toList, "Item".toList, some source.string, [amdSec]⟩

def mediainfo (name : String) (text : String) (children : List El) : El :=
  .mk ⟨.other "https://mediaarea.net/mediainfo".toList, .other name.toList, none⟩ [(.text, text.toList)] children

def output : El := mediainfo "MediaInfo" "" [mediainfo "media" "" [mediainfo "track" "TIFF" []]]

def env : Env where
  events := [(some source, "message digest calculation".toList)]
  files := [⟨source, "sha256".toList, "e3b0c442".toList⟩]
  fileIDs :=
    [⟨some source, "TIFF".toList, [], "PRONOM".toList, "fmt/353".toList⟩,
      ⟨some source, "TIFF".toList, "6".toList, "PRONOM".toList, "fmt/10".toList⟩]
  outputs :=
    [⟨source, "characterization".toList, some "<MediaInfo/>".toList⟩,
      ⟨preservation, "characterization".toList, none⟩]
  derivations := [⟨source, preservation, some normalization⟩]
  xml := fun text => if text = "<MediaInfo/>".toList then some output else none
  toPython := fun text => [source, preservation, normalization].find? fun uuid => uuid.string = text

def fpr : Fpr := ⟨[("fmt/353".toList, ⟨7⟩), ("fmt/10".toList, ⟨8⟩)], []⟩

def file : FileElement := ⟨some "original".toList, some amdSec.id, some "objects/a.tif".toList⟩

def info : FileInfo where
  uuid := source.string
  originalPath := "%SIPDirectory%objects/a.tif".toList
  currentPath := "%SIPDirectory%objects/a.tif".toList
  use := some "original".toList
  checksum := "d41d8cd9".toList
  checksumtype := "md5".toList
  size := "1".toList
  formatVersion := some ⟨7⟩
  derivation := none
  derivationEvent := none

theorem described : Described env entry amdSec source where
  original := ⟨rfl, rfl, by decide⟩
  amdsecs := rfl
  uuid := by decide +kernel
  current := by
    refine ⟨⟨"techMD".toList, none, .mdWrap document⟩, document,
      createPremisObject (document.children.map (mapTag toPremis)), rfl, rfl, rfl, by decide +kernel, rfl, ?_⟩
    decide +kernel

end Earlier

open Earlier in
theorem parseFile_updateObject_earlier :
    ∃ a', updateObject env [entry] = some [{ entry with amdsecs := [a'] }] ∧
      parseFile fpr (rootOf [a'] [file]) file =
        some { info with
          checksum := "e3b0c442".toList
          checksumtype := "sha256".toList
          formatVersion := some ⟨8⟩
          derivation := some preservation.string
          derivationEvent := some normalization.string } := by
  have houtputs : env.outputsOf source = [⟨source, "characterization".toList, some "<MediaInfo/>".toList⟩] := rfl
  have hplain : Plain env source := by
    intro row hrow content document hcontent hxml
    rw [houtputs, List.mem_singleton] at hrow
    subst hrow
    obtain rfl := Option.some.inj hcontent
    obtain rfl := Option.some.inj hxml
    decide +kernel
  have hsome : (updateObject env [entry]).isSome = true := by decide +kernel
  have hrun := (Option.some_get hsome).symm
  obtain ⟨a', ha', hid, -, -, hread⟩ := parseFile_updateObject hplain hrun (k := 0) rfl described
  obtain ⟨f', hf'⟩ := List.length_eq_one_iff.mp (MapM.length_mapM hrun)
  rw [hf', List.getElem?_cons_zero] at ha'
  obtain rfl := Option.some.inj ha'
  refine ⟨a', by rw [hrun, hf'], ?_⟩
  rw [hread fpr (rootOf [amdSec] [file]) _ file info (written_rootOf _ _) (written_rootOf _ _) rfl rfl]
  rfl

end Ccp.Worker.Reingest.UpdateObject
