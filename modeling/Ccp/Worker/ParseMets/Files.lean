import Ccp.Lib.MapM
import Ccp.Lib.Table
import Ccp.Lib.Text
import Ccp.Uuid
import Mathlib.Data.Int.Notation

namespace Ccp.Worker.ParseMets.Files

open Lib

def sipDirectory : Str := "%SIPDirectory%".toList

def transferDirectory : Str := "%transferDirectory%".toList

-- The elements of a premis:object that are read, each with its text, in document order.

structure Relationship where
  relationshipSubType : List Str
  relatedObjectIdentifierValue : List Str
  relatedEventIdentifierValue : List Str

structure PremisObject where
  -- the type and the value of each identifier
  objectIdentifier : List (Str × Str)
  originalName : List Str
  messageDigest : List Str
  messageDigestAlgorithm : List Str
  size : List Str
  formatRegistryName : List Str
  formatRegistryKey : List Str
  relationship : List Relationship

structure TechMD where
  status : Option Str
  object : PremisObject

structure AmdSec where
  id : Option Str
  techMDs : List TechMD

-- A mets:file with the USE of its group and the href of its FLocat.
structure FileElement where
  use : Option Str
  admid : Option Str
  href : Option Str

structure Root where
  fileSec : Option (List FileElement)
  amdSecs : List AmdSec

-- The enabled formats by their PRONOM identifiers, and the enabled rules by their outputs.
structure Fpr where
  formatVersions : List (Str × UUID)
  idRules : List (Str × UUID)

structure FileInfo where
  uuid : Str
  originalPath : Str
  currentPath : Str
  use : Option Str
  checksum : Str
  checksumtype : Str
  size : Str
  formatVersion : Option UUID
  derivation : Option Str
  derivationEvent : Option Str

structure File where
  uuid : UUID
  sip : UUID
  originallocation : Str
  currentlocation : Str
  filegrpuse : Str
  checksum : Str
  checksumtype : Str
  size : Option ℤ
deriving DecidableEq

-- The rows of the files, the pairs of a file and its format, and those of a source and a file
-- that is derived from it.
structure Database where
  files : List File
  formats : List (UUID × UUID)
  derivations : List (UUID × UUID)
deriving DecidableEq

-- xml_findtext_premis: the text of the first one, or nothing.
def findtext (texts : List Str) : Str := texts.head?.getD []

def isSourceOf : Str := "is source of".toList

def superseded : Str := "superseded".toList

-- There is no value where the look-up raises; a PRONOM identifier may be missing, an output of
-- a rule may not.
def parseFormatVersion (fpr : Fpr) (object : PremisObject) : Option (Option UUID) :=
  let key := findtext object.formatRegistryKey
  if findtext object.formatRegistryName = "PRONOM".toList then
    match Table.get (fpr.formatVersions.filter (·.1 = key)) with
    | .missing => some none
    | .row format => some (some format.2)
    | .several => none
  else if findtext object.formatRegistryName = "Archivematica Format Policy Registry".toList then
    match Table.get (fpr.idRules.filter (·.1 = key)) with
    | .row rule => some (some rule.2)
    | _ => none
  else some none

-- The techMDs of the amdSec with the identifier that are not superseded.
def Root.currentTechMDs (root : Root) (admid : Str) : List TechMD :=
  (root.amdSecs.filter (·.id = some admid)).flatMap fun amdSec =>
    amdSec.techMDs.filter (·.status ≠ some superseded)

-- One turn of the loop of parse_files.
def parseFile (fpr : Fpr) (root : Root) (fe : FileElement) : Option FileInfo :=
  fe.admid.bind fun admid =>
    (root.currentTechMDs admid).head?.bind fun techmd =>
      let object := techmd.object
      fe.href.bind fun href =>
        (parseFormatVersion fpr object).map fun formatVersion =>
          let event := findtext (object.relationship.flatMap (·.relatedEventIdentifierValue))
          let related := findtext (object.relationship.flatMap (·.relatedObjectIdentifierValue))
          let rel := findtext (object.relationship.flatMap (·.relationshipSubType))
          { uuid := findtext (object.objectIdentifier.map Prod.snd)
            originalPath := replaceAll (findtext object.originalName) transferDirectory sipDirectory
            currentPath := sipDirectory ++ href
            use := fe.use
            checksum := findtext object.messageDigest
            checksumtype := findtext object.messageDigestAlgorithm
            size := findtext object.size
            formatVersion
            derivation := if rel = isSourceOf then some related else none
            derivationEvent := if rel = isSourceOf then some event else none }

def parseFiles (fpr : Fpr) (root : Root) : Option (List FileInfo) :=
  root.fileSec.bind fun files => files.mapM (parseFile fpr root)

section Update

-- UUIDField's to_python, and Python's int for a number that the column can hold.
variable (toPython : Str → Option UUID) (toInt : Str → Option ℤ) (sipUUID : UUID)

def updateFile (db : Database) (info : FileInfo) : Option Database :=
  (toPython info.uuid).bind fun uuid =>
    info.use.bind fun use =>
      -- addFileToSIP
      (Table.insert File.uuid db.files
          ⟨uuid, sipUUID, info.originalPath, info.originalPath, use, [], [], none⟩).bind fun files =>
        (toInt info.size).map fun size =>
          { db with
            files := Table.updateWhere (·.uuid = uuid)
              (fun f =>
                { f with
                  checksum := info.checksum
                  checksumtype := info.checksumtype
                  size := some size
                  currentlocation := info.currentPath }) files
            formats := db.formats ++ (info.formatVersion.map fun format => (uuid, format)).toList }

-- insertIntoDerivations: both files have to be there.
def derivationsOf (files : List File) (info : FileInfo) : Option (List (UUID × UUID)) :=
  match info.derivation with
  | none => some []
  | some related =>
      (toPython info.uuid).bind fun source =>
        (toPython related).bind fun derived =>
          if source ∈ files.map File.uuid ∧ derived ∈ files.map File.uuid then some [(source, derived)]
          else none

def updateDerivation (db : Database) (info : FileInfo) : Option Database :=
  (derivationsOf toPython db.files info).map fun pairs =>
    { db with derivations := db.derivations ++ pairs }

def updateFiles (infos : List FileInfo) (db : Database) : Option Database :=
  (infos.foldlM (updateFile toPython toInt sipUUID) db).bind fun db =>
    infos.foldlM (updateDerivation toPython) db

-- parse_files, and then update_files
def parseAndUpdate (fpr : Fpr) (root : Root) (db : Database) : Option Database :=
  (parseFiles fpr root).bind fun infos => updateFiles toPython toInt sipUUID infos db

-- The row that a file gets.
def rowOf (info : FileInfo) : Option File :=
  (toPython info.uuid).bind fun uuid =>
    info.use.bind fun use =>
      (toInt info.size).map fun size =>
        ⟨uuid, sipUUID, info.originalPath, info.currentPath, use, info.checksum, info.checksumtype,
          some size⟩

def formatsOf (info : FileInfo) : List (UUID × UUID) :=
  match toPython info.uuid, info.formatVersion with
  | some uuid, some format => [(uuid, format)]
  | _, _ => []

end Update

section Loops

variable {toPython : Str → Option UUID} {toInt : Str → Option ℤ} {sipUUID : UUID} {db db' : Database}
  {infos : List FileInfo}

theorem updateFile_eq (db : Database) (info : FileInfo) :
    updateFile toPython toInt sipUUID db info =
      ((rowOf toPython toInt sipUUID info).bind (Table.insert File.uuid db.files)).map fun files =>
        { db with files, formats := db.formats ++ formatsOf toPython info } := by
  rw [updateFile, rowOf]
  cases huuid : toPython info.uuid with
  | none => rfl
  | some uuid =>
      cases info.use with
      | none => rfl
      | some use =>
          cases toInt info.size with
          | none =>
              simp only [Option.bind_some, Option.map_none, Option.bind_none]
              exact Option.bind_fun_none _
          | some size =>
              simp only [Option.bind_some, Option.map_some, Table.insert]
              split_ifs with hkey
              · rfl
              · have hkept : ∀ g : File → File,
                    Table.updateWhere (·.uuid = uuid) g db.files = db.files := fun g =>
                  Table.updateWhere_of_none fun f hf heq => hkey (heq ▸ List.mem_map_of_mem hf)
                have hformats : formatsOf toPython info =
                    (info.formatVersion.map fun format => (uuid, format)).toList := by
                  rw [formatsOf, huuid]
                  cases info.formatVersion <;> rfl
                simp only [Option.bind_some, Option.map_some, hformats]
                rw [Table.updateWhere, List.map_append, ← Table.updateWhere, hkept]
                simp

theorem foldlM_updateFile (infos : List FileInfo) (db : Database) :
    infos.foldlM (updateFile toPython toInt sipUUID) db =
      (infos.foldlM (fun files info =>
        (rowOf toPython toInt sipUUID info).bind (Table.insert File.uuid files)) db.files).map
          fun files => { db with files, formats := db.formats ++ infos.flatMap (formatsOf toPython) } := by
  induction infos generalizing db with
  | nil => simp
  | cons info infos ih =>
      rw [List.foldlM_cons, List.foldlM_cons, updateFile_eq]
      cases (rowOf toPython toInt sipUUID info).bind (Table.insert File.uuid db.files) with
      | none => rfl
      | some files =>
          simp only [Option.map_some, Option.bind_eq_bind, Option.bind_some, ih, List.flatMap_cons,
            List.append_assoc]

theorem foldlM_updateDerivation (infos : List FileInfo) (db : Database) :
    infos.foldlM (updateDerivation toPython) db =
      (infos.mapM (derivationsOf toPython db.files)).map fun pairs =>
        { db with derivations := db.derivations ++ pairs.flatten } := by
  induction infos generalizing db with
  | nil => simp
  | cons info infos ih =>
      rw [List.foldlM_cons, List.mapM_cons, updateDerivation]
      cases derivationsOf toPython db.files info with
      | none => rfl
      | some pairs =>
          simp only [Option.map_some, Option.bind_eq_bind, Option.bind_some, ih, Option.map_bind]
          cases infos.mapM (derivationsOf toPython db.files) with
          | none => rfl
          | some rest => simp

end Loops

-- What the document says of a file.

def Root.techMDsOf (root : Root) (fe : FileElement) : List TechMD :=
  (fe.admid.map root.currentTechMDs).getD []

section Document

variable (toPython : Str → Option UUID) (toInt : Str → Option ℤ) (root : Root)

-- The first identifier of its type.
def uuidOf (fe : FileElement) : Option UUID :=
  (root.techMDsOf fe).head?.bind fun techmd =>
    (techmd.object.objectIdentifier.find? fun identifier => identifier.1 = "UUID".toList).bind
      fun identifier => toPython identifier.2

-- The files that a file is a source of, by all relationships in all of its techMDs.
def derivedOf (fe : FileElement) : List (Option UUID) :=
  (root.techMDsOf fe).flatMap fun techmd =>
    (techmd.object.relationship.filter (·.relationshipSubType.contains isSourceOf)).flatMap
      fun relationship => relationship.relatedObjectIdentifierValue.map toPython

def recordedPairs (files : List FileElement) : List (Option UUID × Option UUID) :=
  files.flatMap fun fe => (derivedOf toPython root fe).map fun derived => (uuidOf toPython root fe, derived)

structure IsRowOf (fe : FileElement) (f : File) : Prop where
  uuid : uuidOf toPython root fe = some f.uuid
  use : fe.use = some f.filegrpuse
  location : ∃ href, fe.href = some href ∧ f.currentlocation = sipDirectory ++ href
  techmd : ∃ techmd, (root.techMDsOf fe).head? = some techmd ∧
    f.checksum = findtext techmd.object.messageDigest ∧
      f.checksumtype = findtext techmd.object.messageDigestAlgorithm ∧
        f.size = toInt (findtext techmd.object.size)

structure Contract (fpr : Fpr) (sipUUID : UUID) (db : Database) : Prop where
  stored : ∃ files db' news created, root.fileSec = some files ∧
    parseAndUpdate toPython toInt sipUUID fpr root db = some db' ∧
    db'.files = db.files ++ news ∧ List.Forall₂ (IsRowOf toPython toInt root) files news ∧
    (news.map File.uuid).Nodup ∧ (∀ f ∈ news, f.uuid ∉ db.files.map File.uuid) ∧
    db'.derivations = db.derivations ++ created ∧ created.Nodup ∧
    ∀ p, p ∈ recordedPairs toPython root files ↔ p ∈ created.map fun q => (some q.1, some q.2)

-- What is read of a file: its first identifier, and its first relationship.

def readUUID (fe : FileElement) : Option UUID :=
  (root.techMDsOf fe).head?.bind fun techmd =>
    toPython (findtext (techmd.object.objectIdentifier.map Prod.snd))

def readDerived (fe : FileElement) : Option (Option UUID) :=
  (root.techMDsOf fe).head?.bind fun techmd =>
    if findtext (techmd.object.relationship.flatMap (·.relationshipSubType)) = isSourceOf then
      some (toPython (findtext (techmd.object.relationship.flatMap (·.relatedObjectIdentifierValue))))
    else none

structure Readable (fpr : Fpr) (fe : FileElement) : Prop where
  techmd : ∃ techmd, (root.techMDsOf fe).head? = some techmd ∧
    parseFormatVersion fpr techmd.object ≠ none ∧ toInt (findtext techmd.object.size) ≠ none
  href : fe.href ≠ none
  use : fe.use ≠ none
  uuid : readUUID toPython root fe ≠ none

structure Clear (fpr : Fpr) (db : Database) (files : List FileElement) : Prop where
  readable : ∀ fe ∈ files, Readable toPython toInt root fpr fe
  -- the first identifier is that of the type UUID
  identity : ∀ fe ∈ files, uuidOf toPython root fe = readUUID toPython root fe
  distinct : (files.map (readUUID toPython root)).Nodup
  unused : ∀ fe ∈ files, ∀ f ∈ db.files, readUUID toPython root fe ≠ some f.uuid
  -- the first relationship is the only one that makes the file a source
  first : ∀ fe ∈ files, ∀ derived,
    derived ∈ derivedOf toPython root fe ↔ readDerived toPython root fe = some derived
  known : ∀ fe ∈ files, ∀ derived ∈ derivedOf toPython root fe, ∃ uuid, derived = some uuid ∧
    (uuid ∈ db.files.map File.uuid ∨ some uuid ∈ files.map (readUUID toPython root))

end Document

section Reading

variable {toPython : Str → Option UUID} {toInt : Str → Option ℤ} {sipUUID : UUID} {fpr : Fpr}
  {root : Root} {db db' : Database} {fe : FileElement} {info : FileInfo} {f : File}
  {files : List FileElement}

theorem parseFile_eq_some (h : parseFile fpr root fe = some info) :
    ∃ techmd href formatVersion, (root.techMDsOf fe).head? = some techmd ∧ fe.href = some href ∧
      parseFormatVersion fpr techmd.object = some formatVersion ∧ info =
        { uuid := findtext (techmd.object.objectIdentifier.map Prod.snd)
          originalPath := replaceAll (findtext techmd.object.originalName) transferDirectory sipDirectory
          currentPath := sipDirectory ++ href
          use := fe.use
          checksum := findtext techmd.object.messageDigest
          checksumtype := findtext techmd.object.messageDigestAlgorithm
          size := findtext techmd.object.size
          formatVersion
          derivation :=
            if findtext (techmd.object.relationship.flatMap (·.relationshipSubType)) = isSourceOf then
              some (findtext (techmd.object.relationship.flatMap (·.relatedObjectIdentifierValue)))
            else none
          derivationEvent :=
            if findtext (techmd.object.relationship.flatMap (·.relationshipSubType)) = isSourceOf then
              some (findtext (techmd.object.relationship.flatMap (·.relatedEventIdentifierValue)))
            else none } := by
  obtain ⟨admid, hadmid, h⟩ := Option.bind_eq_some_iff.mp h
  obtain ⟨techmd, htechmd, h⟩ := Option.bind_eq_some_iff.mp h
  obtain ⟨href, hhref, h⟩ := Option.bind_eq_some_iff.mp h
  obtain ⟨formatVersion, hformat, rfl⟩ := Option.map_eq_some_iff.mp h
  exact ⟨techmd, href, formatVersion, by simpa [Root.techMDsOf, hadmid] using htechmd, hhref, hformat,
    rfl⟩

theorem rowOf_eq_some (h : rowOf toPython toInt sipUUID info = some f) :
    toPython info.uuid = some f.uuid ∧ info.use = some f.filegrpuse ∧
      f.currentlocation = info.currentPath ∧ f.checksum = info.checksum ∧
        f.checksumtype = info.checksumtype ∧ f.size = toInt info.size := by
  obtain ⟨uuid, huuid, h⟩ := Option.bind_eq_some_iff.mp h
  obtain ⟨use, huse, h⟩ := Option.bind_eq_some_iff.mp h
  obtain ⟨size, hsize, rfl⟩ := Option.map_eq_some_iff.mp h
  exact ⟨huuid, huse, rfl, rfl, rfl, hsize.symm⟩

-- One file: its row, and what its derivation is read as.
structure Read (toPython : Str → Option UUID) (toInt : Str → Option ℤ) (fpr : Fpr) (root : Root)
    (fe : FileElement) (info : FileInfo) (f : File) : Prop where
  readable : Readable toPython toInt root fpr fe
  uuid : readUUID toPython root fe = some f.uuid
  source : toPython info.uuid = some f.uuid
  derived : readDerived toPython root fe = info.derivation.map toPython
  isRowOf : uuidOf toPython root fe = some f.uuid → IsRowOf toPython toInt root fe f

theorem read_of_eq_some (hinfo : parseFile fpr root fe = some info)
    (hrow : rowOf toPython toInt sipUUID info = some f) : Read toPython toInt fpr root fe info f := by
  obtain ⟨techmd, href, formatVersion, htechmd, hhref, hformat, rfl⟩ := parseFile_eq_some hinfo
  obtain ⟨huuid, huse, hlocation, hchecksum, htype, hsize⟩ := rowOf_eq_some hrow
  have hread : readUUID toPython root fe = some f.uuid := by
    rw [readUUID, htechmd, Option.bind_some]
    exact huuid
  have hnumber : toInt (findtext techmd.object.size) ≠ none := by
    obtain ⟨uuid, -, h⟩ := Option.bind_eq_some_iff.mp hrow
    obtain ⟨use, -, h⟩ := Option.bind_eq_some_iff.mp h
    obtain ⟨size, hsize, -⟩ := Option.map_eq_some_iff.mp h
    simp only at hsize
    simp [hsize]
  refine ⟨⟨⟨techmd, htechmd, by simp [hformat], hnumber⟩, by simp [hhref], ?_, by simp [hread]⟩, hread,
    huuid, ?_, fun hidentity => ⟨hidentity, huse, ⟨href, hhref, hlocation⟩, techmd, htechmd,
      hchecksum, htype, hsize⟩⟩
  · simp only at huse
    simp [huse]
  · rw [readDerived, htechmd, Option.bind_some]
    simp only
    split_ifs <;> rfl

theorem exists_read (sipUUID : UUID) (h : Readable toPython toInt root fpr fe) :
    ∃ info f, parseFile fpr root fe = some info ∧ rowOf toPython toInt sipUUID info = some f := by
  obtain ⟨⟨techmd, htechmd, hformat, hsize⟩, hhref, huse, huuid⟩ := h
  obtain ⟨href, hhref⟩ := Option.ne_none_iff_exists'.mp hhref
  obtain ⟨use, huse⟩ := Option.ne_none_iff_exists'.mp huse
  obtain ⟨format, hformat⟩ := Option.ne_none_iff_exists'.mp hformat
  obtain ⟨size, hsize⟩ := Option.ne_none_iff_exists'.mp hsize
  obtain ⟨uuid, huuid⟩ := Option.ne_none_iff_exists'.mp huuid
  rw [readUUID, htechmd, Option.bind_some] at huuid
  cases hadmid : fe.admid with
  | none => simp [Root.techMDsOf, hadmid] at htechmd
  | some admid =>
      rw [Root.techMDsOf, hadmid, Option.map_some, Option.getD_some] at htechmd
      have hinfo : ∃ info, parseFile fpr root fe = some info := by
        simp [parseFile, hadmid, htechmd, hhref, hformat]
      obtain ⟨info, hinfo⟩ := hinfo
      obtain ⟨techmd', href', format', htechmd', _, _, hinfo'⟩ := parseFile_eq_some hinfo
      rw [Root.techMDsOf, hadmid, Option.map_some, Option.getD_some, htechmd] at htechmd'
      obtain rfl := Option.some.inj htechmd'
      have hrow : ∃ f, rowOf toPython toInt sipUUID info = some f := by
        rw [hinfo', rowOf]
        simp only [huuid, huse, hsize, Option.bind_some, Option.map_some]
        exact ⟨_, rfl⟩
      obtain ⟨f, hrow⟩ := hrow
      exact ⟨info, f, hinfo, hrow⟩

variable (toPython toInt sipUUID fpr root) in
def readRow (fe : FileElement) : Option File :=
  (parseFile fpr root fe).bind (rowOf toPython toInt sipUUID)

variable (toPython fpr root) in
def readPairs (rows : List File) (fe : FileElement) : Option (List (UUID × UUID)) :=
  (parseFile fpr root fe).bind (derivationsOf toPython rows)

theorem parseAndUpdate_eq_some_iff :
    parseAndUpdate toPython toInt sipUUID fpr root db = some db' ↔
      ∃ files news pairs formats, root.fileSec = some files ∧
        files.mapM (readRow toPython toInt sipUUID fpr root) = some news ∧ (news.map File.uuid).Nodup ∧
        (∀ f ∈ news, f.uuid ∉ db.files.map File.uuid) ∧
        files.mapM (readPairs toPython fpr root (db.files ++ news)) = some pairs ∧
        (∃ infos, files.mapM (parseFile fpr root) = some infos ∧
          formats = infos.flatMap (formatsOf toPython)) ∧
        db' = ⟨db.files ++ news, db.formats ++ formats, db.derivations ++ pairs.flatten⟩ := by
  constructor
  · intro h
    obtain ⟨infos, hinfos, h⟩ := Option.bind_eq_some_iff.mp h
    obtain ⟨files, hfiles, hinfos⟩ := Option.bind_eq_some_iff.mp hinfos
    obtain ⟨db₁, hdb₁, h⟩ := Option.bind_eq_some_iff.mp h
    rw [foldlM_updateFile] at hdb₁
    obtain ⟨rows, hrows, rfl⟩ := Option.map_eq_some_iff.mp hdb₁
    obtain ⟨news, hnews, rfl, hnodup, hfresh⟩ := Table.foldlM_insert_eq_some_iff.mp hrows
    rw [foldlM_updateDerivation] at h
    obtain ⟨pairs, hpairs, rfl⟩ := Option.map_eq_some_iff.mp h
    exact ⟨files, news, pairs, _, hfiles, (MapM.mapM_mapM hinfos).symm.trans hnews, hnodup, hfresh,
      (MapM.mapM_mapM hinfos).symm.trans hpairs, ⟨infos, hinfos, rfl⟩, rfl⟩
  · rintro ⟨files, news, pairs, formats, hfiles, hnews, hnodup, hfresh, hpairs, ⟨infos, hinfos, rfl⟩, rfl⟩
    have hrows : infos.mapM (rowOf toPython toInt sipUUID) = some news :=
      (MapM.mapM_mapM hinfos).trans hnews
    have hderivations : infos.mapM (derivationsOf toPython (db.files ++ news)) = some pairs :=
      (MapM.mapM_mapM hinfos).trans hpairs
    rw [parseAndUpdate, parseFiles, hfiles, Option.bind_some, hinfos, Option.bind_some, updateFiles,
      foldlM_updateFile, Table.foldlM_insert_eq_some_iff.mpr ⟨news, hrows, rfl, hnodup, hfresh⟩,
      Option.map_some, Option.bind_some, foldlM_updateDerivation]
    simp only
    rw [hderivations, Option.map_some]

section Rows

variable {rows news : List File} {pairs : List (List (UUID × UUID))}

theorem exists_readRow (sipUUID : UUID) (h : Readable toPython toInt root fpr fe) :
    (readRow toPython toInt sipUUID fpr root fe).isSome := by
  obtain ⟨info, f, hinfo, hrow⟩ := exists_read sipUUID h
  rw [readRow, hinfo, Option.bind_some, hrow, Option.isSome_some]

theorem read_of_readRow (h : readRow toPython toInt sipUUID fpr root fe = some f) :
    ∃ info, parseFile fpr root fe = some info ∧ Read toPython toInt fpr root fe info f := by
  obtain ⟨info, hinfo, hrow⟩ := Option.bind_eq_some_iff.mp h
  exact ⟨info, hinfo, read_of_eq_some hinfo hrow⟩

-- A pair of the file as it is read, with both of its files.
theorem readPairs_eq_some_iff (h : readRow toPython toInt sipUUID fpr root fe = some f)
    {ps : List (UUID × UUID)} :
    readPairs toPython fpr root rows fe = some ps ↔
      (readDerived toPython root fe = none ∧ ps = []) ∨
        ∃ derived, readDerived toPython root fe = some (some derived) ∧
          f.uuid ∈ rows.map File.uuid ∧ derived ∈ rows.map File.uuid ∧ ps = [(f.uuid, derived)] := by
  obtain ⟨info, hinfo, hread⟩ := read_of_readRow h
  rw [readPairs, hinfo, Option.bind_some, derivationsOf, hread.derived]
  cases info.derivation with
  | none => simp [eq_comm]
  | some related =>
      simp only [hread.source, Option.bind_some, Option.map_some, reduceCtorEq, false_and, false_or,
        Option.some.injEq]
      cases toPython related with
      | none => simp
      | some derived =>
          simp only [Option.bind_some, Option.some.injEq]
          split_ifs with hrows
          · constructor
            · intro h
              exact ⟨derived, rfl, hrows.1, hrows.2, (Option.some.inj h).symm⟩
            · rintro ⟨_, rfl, -, -, rfl⟩
              rfl
          · refine iff_of_false (fun h => nomatch h) ?_
            rintro ⟨_, rfl, hsource, hderived, -⟩
            exact hrows ⟨hsource, hderived⟩

theorem mem_readPairs (h : readRow toPython toInt sipUUID fpr root fe = some f)
    {ps : List (UUID × UUID)} (hps : readPairs toPython fpr root rows fe = some ps) {q : UUID × UUID} :
    q ∈ ps ↔ q.1 = f.uuid ∧ readDerived toPython root fe = some (some q.2) := by
  rcases (readPairs_eq_some_iff h).mp hps with ⟨hnone, rfl⟩ | ⟨derived, hsome, -, -, rfl⟩
  · simp [hnone]
  · simp [hsome, Prod.ext_iff, eq_comm]

theorem map_readUUID (h : files.mapM (readRow toPython toInt sipUUID fpr root) = some news) :
    files.map (readUUID toPython root) = news.map fun f => some f.uuid := by
  rw [MapM.mapM_eq_some_iff_forall₂] at h
  induction h with
  | nil => rfl
  | cons hrow _ ih =>
      obtain ⟨info, -, hread⟩ := read_of_readRow hrow
      rw [List.map_cons, List.map_cons, hread.uuid, ih]

-- The files that are read, and the pairs of each.
theorem mem_flatten (h : files.mapM (readRow toPython toInt sipUUID fpr root) = some news)
    (hpairs : files.mapM (readPairs toPython fpr root rows) = some pairs) {q : UUID × UUID} :
    q ∈ pairs.flatten ↔ ∃ fe ∈ files, readUUID toPython root fe = some q.1 ∧
      readDerived toPython root fe = some (some q.2) := by
  rw [List.mem_flatten]
  constructor
  · rintro ⟨ps, hps, hq⟩
    obtain ⟨fe, hfe, heq⟩ := (MapM.mem_mapM hpairs).mp hps
    obtain ⟨f, hf⟩ := MapM.isSome_of_mapM h hfe
    obtain ⟨hsource, hderived⟩ := (mem_readPairs hf heq).mp hq
    obtain ⟨info, -, hread⟩ := read_of_readRow hf
    exact ⟨fe, hfe, by rw [hread.uuid, hsource], hderived⟩
  · rintro ⟨fe, hfe, hsource, hderived⟩
    obtain ⟨ps, hps⟩ := MapM.isSome_of_mapM hpairs hfe
    obtain ⟨f, hf⟩ := MapM.isSome_of_mapM h hfe
    obtain ⟨info, -, hread⟩ := read_of_readRow hf
    refine ⟨ps, (MapM.mem_mapM hpairs).mpr ⟨fe, hfe, hps⟩, (mem_readPairs hf hps).mpr ⟨?_, hderived⟩⟩
    exact Option.some.inj (hsource.symm.trans hread.uuid)

-- Every file has at most one pair, and they have sources of their own.
theorem sublist_flatten (h : files.mapM (readRow toPython toInt sipUUID fpr root) = some news)
    (hpairs : files.mapM (readPairs toPython fpr root rows) = some pairs) :
    (pairs.flatten.map Prod.fst).Sublist (news.map File.uuid) := by
  rw [MapM.mapM_eq_some_iff_forall₂] at h hpairs
  induction h generalizing pairs with
  | nil =>
      cases hpairs
      exact List.Sublist.slnil
  | cons hrow _ ih =>
      cases hpairs with
      | cons hps hrest =>
          rw [List.flatten_cons, List.map_append, List.map_cons]
          rcases (readPairs_eq_some_iff hrow).mp hps with ⟨-, rfl⟩ | ⟨derived, -, -, -, rfl⟩
          · exact (ih hrest).cons _
          · exact (ih hrest).cons_cons _

end Rows

theorem stored_of_clear (sipUUID : UUID) (hfiles : root.fileSec = some files)
    (h : Clear toPython toInt root fpr db files) :
    ∃ news pairs db', parseAndUpdate toPython toInt sipUUID fpr root db = some db' ∧
      files.mapM (readRow toPython toInt sipUUID fpr root) = some news ∧
      files.mapM (readPairs toPython fpr root (db.files ++ news)) = some pairs ∧
      db'.files = db.files ++ news ∧ db'.derivations = db.derivations ++ pairs.flatten ∧
      (news.map File.uuid).Nodup ∧ ∀ f ∈ news, f.uuid ∉ db.files.map File.uuid := by
  obtain ⟨news, hnews⟩ := MapM.exists_mapM fun fe hfe => exists_readRow sipUUID (h.readable fe hfe)
  have huuids := map_readUUID hnews
  have hnodup : (news.map File.uuid).Nodup := by
    have hdistinct := h.distinct
    rw [huuids] at hdistinct
    exact List.Nodup.of_map some (by rwa [List.map_map])
  have hfresh : ∀ f ∈ news, f.uuid ∉ db.files.map File.uuid := by
    intro f hf hmem
    obtain ⟨fe, hfe, hrow⟩ := (MapM.mem_mapM hnews).mp hf
    obtain ⟨f', hf', heq⟩ := List.mem_map.mp hmem
    obtain ⟨info, -, hread⟩ := read_of_readRow hrow
    exact h.unused fe hfe f' hf' (by rw [hread.uuid, heq])
  have hmem : ∀ uuid, (uuid ∈ db.files.map File.uuid ∨ some uuid ∈ files.map (readUUID toPython root)) →
      uuid ∈ (db.files ++ news).map File.uuid := by
    intro uuid
    rw [huuids, List.map_append, List.mem_append]
    refine Or.imp_right fun hmem => ?_
    obtain ⟨f, hf, heq⟩ := List.mem_map.mp hmem
    exact Option.some.inj heq ▸ List.mem_map_of_mem hf
  have hpairs : ∃ pairs, files.mapM (readPairs toPython fpr root (db.files ++ news)) = some pairs := by
    refine MapM.exists_mapM fun fe hfe => ?_
    obtain ⟨f, hrow⟩ := MapM.isSome_of_mapM hnews hfe
    rw [Option.isSome_iff_exists]
    cases hderived : readDerived toPython root fe with
    | none => exact ⟨[], (readPairs_eq_some_iff hrow).mpr (Or.inl ⟨hderived, rfl⟩)⟩
    | some derived =>
        obtain ⟨uuid, rfl, hknown⟩ := h.known fe hfe derived ((h.first fe hfe derived).mpr hderived)
        refine ⟨_, (readPairs_eq_some_iff hrow).mpr (Or.inr ⟨uuid, hderived, ?_, hmem uuid hknown, rfl⟩)⟩
        rw [List.map_append, List.mem_append]
        exact Or.inr (List.mem_map_of_mem ((MapM.mem_mapM hnews).mpr ⟨fe, hfe, hrow⟩))
  obtain ⟨pairs, hpairs⟩ := hpairs
  obtain ⟨infos, hinfos⟩ : ∃ infos, files.mapM (parseFile fpr root) = some infos := by
    refine MapM.exists_mapM fun fe hfe => ?_
    obtain ⟨info, f, hinfo, -⟩ := exists_read sipUUID (h.readable fe hfe)
    rw [hinfo, Option.isSome_some]
  exact ⟨news, pairs, _, parseAndUpdate_eq_some_iff.mpr
    ⟨files, news, pairs, _, hfiles, hnews, hnodup, hfresh, hpairs, ⟨infos, hinfos, rfl⟩, rfl⟩, hnews, hpairs,
    rfl, rfl, hnodup, hfresh⟩

theorem forall₂_isRowOf (h : files.mapM (readRow toPython toInt sipUUID fpr root) = some news)
    (hidentity : ∀ fe ∈ files, uuidOf toPython root fe = readUUID toPython root fe) :
    List.Forall₂ (IsRowOf toPython toInt root) files news := by
  rw [MapM.mapM_eq_some_iff_forall₂] at h
  induction h with
  | nil => exact List.Forall₂.nil
  | cons hrow _ ih =>
      rw [List.forall_mem_cons] at hidentity
      obtain ⟨info, -, hread⟩ := read_of_readRow hrow
      exact List.Forall₂.cons (hread.isRowOf (hidentity.1.trans hread.uuid)) (ih hidentity.2)

theorem map_uuidOf {news : List File} (h : List.Forall₂ (IsRowOf toPython toInt root) files news) :
    files.map (uuidOf toPython root) = news.map fun f => some f.uuid := by
  induction h with
  | nil => rfl
  | cons hrow _ ih => rw [List.map_cons, List.map_cons, hrow.uuid, ih]

theorem mem_recordedPairs {p : Option UUID × Option UUID} :
    p ∈ recordedPairs toPython root files ↔
      ∃ fe ∈ files, uuidOf toPython root fe = p.1 ∧ p.2 ∈ derivedOf toPython root fe := by
  simp only [recordedPairs, List.mem_flatMap, List.mem_map]
  constructor
  · rintro ⟨fe, hfe, derived, hderived, rfl⟩
    exact ⟨fe, hfe, rfl, hderived⟩
  · rintro ⟨fe, hfe, huuid, hderived⟩
    exact ⟨fe, hfe, p.2, hderived, by rw [huuid]⟩

theorem contract_of_clear (sipUUID : UUID) (hfiles : root.fileSec = some files)
    (h : Clear toPython toInt root fpr db files) : Contract toPython toInt root fpr sipUUID db := by
  obtain ⟨news, pairs, db', hdb', hnews, hpairs, hrows, hderivations, hnodup, hfresh⟩ :=
    stored_of_clear sipUUID hfiles h
  refine ⟨files, db', news, pairs.flatten, hfiles, hdb', hrows, forall₂_isRowOf hnews h.identity, hnodup,
    hfresh, hderivations, ?_, fun p => ?_⟩
  · exact List.Nodup.of_map Prod.fst (hnodup.sublist (sublist_flatten hnews hpairs))
  · rw [mem_recordedPairs, List.mem_map]
    constructor
    · rintro ⟨fe, hfe, huuid, hderived⟩
      obtain ⟨uuid, heq, -⟩ := h.known fe hfe p.2 hderived
      obtain ⟨f, hrow⟩ := MapM.isSome_of_mapM hnews hfe
      obtain ⟨info, -, hread⟩ := read_of_readRow hrow
      have hsource : p.1 = some f.uuid := by rw [← huuid, h.identity fe hfe, hread.uuid]
      refine ⟨(f.uuid, uuid), (mem_flatten hnews hpairs).mpr ⟨fe, hfe, hread.uuid, ?_⟩,
        Prod.ext hsource.symm heq.symm⟩
      exact heq ▸ (h.first fe hfe p.2).mp hderived
    · rintro ⟨q, hq, rfl⟩
      obtain ⟨fe, hfe, hsource, hderived⟩ := (mem_flatten hnews hpairs).mp hq
      exact ⟨fe, hfe, (h.identity fe hfe).trans hsource, (h.first fe hfe _).mpr hderived⟩

theorem clear_of_contract (h : Contract toPython toInt root fpr sipUUID db) :
    ∃ files, root.fileSec = some files ∧ Clear toPython toInt root fpr db files := by
  obtain ⟨files, db', news, created, hfiles, hdb', hrows, hall, -, -, hderivations, -, hrecorded⟩ :=
    h.stored
  obtain ⟨files', news', pairs, formats, hfiles', hnews, hnodup, hfresh, hpairs, -, rfl⟩ :=
    parseAndUpdate_eq_some_iff.mp hdb'
  obtain rfl := Option.some.inj (hfiles.symm.trans hfiles')
  obtain rfl := List.append_cancel_left hrows
  obtain rfl := List.append_cancel_left hderivations
  have huuids := map_readUUID hnews
  have hidentity : ∀ fe ∈ files, uuidOf toPython root fe = readUUID toPython root fe :=
    List.map_inj_left.mp ((map_uuidOf hall).trans huuids.symm)
  have hdistinct : (files.map (readUUID toPython root)).Nodup := by
    rw [huuids]
    have hinj := hnodup.map (Option.some_injective UUID)
    rwa [List.map_map] at hinj
  have hsame : ∀ fe ∈ files, ∀ fe' ∈ files, uuidOf toPython root fe = uuidOf toPython root fe' →
      fe = fe' := by
    intro fe hfe fe' hfe' heq
    rw [hidentity fe hfe, hidentity fe' hfe'] at heq
    exact List.inj_on_of_nodup_map hdistinct hfe hfe' heq
  have hread : ∀ fe ∈ files, ∀ derived, readDerived toPython root fe = some derived →
      ∃ source uuid, readUUID toPython root fe = some source ∧ derived = some uuid ∧
        uuid ∈ (db.files ++ news').map File.uuid := by
    intro fe hfe derived hderived
    obtain ⟨f, hrow⟩ := MapM.isSome_of_mapM hnews hfe
    obtain ⟨ps, hps⟩ := MapM.isSome_of_mapM hpairs hfe
    obtain ⟨info, -, hread⟩ := read_of_readRow hrow
    rcases (readPairs_eq_some_iff hrow).mp hps with ⟨hnone, -⟩ | ⟨uuid, hsome, -, hmem, -⟩
    · rw [hnone] at hderived
      cases hderived
    · rw [hsome] at hderived
      exact ⟨f.uuid, uuid, hread.uuid, (Option.some.inj hderived).symm, hmem⟩
  have hfirst : ∀ fe ∈ files, ∀ derived,
      derived ∈ derivedOf toPython root fe ↔ readDerived toPython root fe = some derived := by
    intro fe hfe derived
    constructor
    · intro hderived
      obtain ⟨q, hq, heq⟩ := List.mem_map.mp
        ((hrecorded (uuidOf toPython root fe, derived)).mp (mem_recordedPairs.mpr ⟨fe, hfe, rfl, hderived⟩))
      obtain ⟨huuid, rfl⟩ := Prod.ext_iff.mp heq
      obtain ⟨fe', hfe', hsource, hread'⟩ := (mem_flatten hnews hpairs).mp hq
      have hboth : uuidOf toPython root fe' = some q.1 := (hidentity fe' hfe').trans hsource
      obtain rfl := hsame fe hfe fe' hfe' (huuid.symm.trans hboth.symm)
      exact hread'
    · intro hderived
      obtain ⟨source, uuid, hsource, rfl, -⟩ := hread fe hfe derived hderived
      have hq : (source, uuid) ∈ pairs.flatten :=
        (mem_flatten hnews hpairs).mpr ⟨fe, hfe, hsource, hderived⟩
      obtain ⟨fe', hfe', huuid, hmem⟩ := mem_recordedPairs.mp
        ((hrecorded (some source, some uuid)).mpr (List.mem_map_of_mem hq))
      obtain rfl := hsame fe hfe fe' hfe' (by rw [hidentity fe hfe, hsource, huuid])
      exact hmem
  refine ⟨files, hfiles, ⟨fun fe hfe => ?_, hidentity, hdistinct, fun fe hfe f hf heq => ?_, hfirst,
    fun fe hfe derived hderived => ?_⟩⟩
  · obtain ⟨f, hrow⟩ := MapM.isSome_of_mapM hnews hfe
    obtain ⟨info, -, hread⟩ := read_of_readRow hrow
    exact hread.readable
  · obtain ⟨f', hrow⟩ := MapM.isSome_of_mapM hnews hfe
    obtain ⟨info, -, hread⟩ := read_of_readRow hrow
    have hsame : f'.uuid = f.uuid := Option.some.inj (hread.uuid.symm.trans heq)
    exact hfresh f' ((MapM.mem_mapM hnews).mpr ⟨fe, hfe, hrow⟩) (hsame ▸ List.mem_map_of_mem hf)
  · obtain ⟨source, uuid, -, rfl, hmem⟩ := hread fe hfe derived ((hfirst fe hfe derived).mp hderived)
    refine ⟨uuid, rfl, ?_⟩
    rw [List.map_append, List.mem_append] at hmem
    refine hmem.imp_right fun hmem => ?_
    obtain ⟨f, hf, rfl⟩ := List.mem_map.mp hmem
    rw [huuids]
    exact List.mem_map.mpr ⟨f, hf, rfl⟩

end Reading

theorem parseAndUpdate_contract_iff (toPython : Str → Option UUID) (toInt : Str → Option ℤ) (root : Root)
    (fpr : Fpr) (sipUUID : UUID) (db : Database) :
    Contract toPython toInt root fpr sipUUID db ↔
      ∃ files, root.fileSec = some files ∧ Clear toPython toInt root fpr db files :=
  ⟨clear_of_contract, fun ⟨_, hfiles, h⟩ => contract_of_clear sipUUID hfiles h⟩

-- A file with two derivatives loses the second one.
namespace TwoDerivatives

def source : UUID := ⟨1⟩

def access : UUID := ⟨2⟩

def preservation : UUID := ⟨3⟩

def toPython (text : Str) : Option UUID :=
  [source, access, preservation].find? fun uuid => uuid.string = text

def toInt (text : Str) : Option ℤ := if text = "1".toList then some 1 else none

def amdSec (id : String) (uuid : UUID) (derivatives : List UUID) : AmdSec where
  id := some id.toList
  techMDs :=
    [{ status := none
       object :=
         { objectIdentifier := [("UUID".toList, uuid.string)]
           originalName := ["%transferDirectory%objects/a".toList]
           messageDigest := ["d41d8cd9".toList]
           messageDigestAlgorithm := ["md5".toList]
           size := ["1".toList]
           formatRegistryName := []
           formatRegistryKey := []
           relationship := derivatives.map fun derived => ⟨[isSourceOf], [derived.string], []⟩ } }]

def root : Root where
  fileSec := some
    [⟨some "original".toList, some "amdSec_1".toList, some "objects/a".toList⟩,
      ⟨some "access".toList, some "amdSec_2".toList, some "objects/b".toList⟩,
      ⟨some "preservation".toList, some "amdSec_3".toList, some "objects/c".toList⟩]
  amdSecs :=
    [amdSec "amdSec_1" source [access, preservation], amdSec "amdSec_2" access [],
      amdSec "amdSec_3" preservation []]

theorem second_lost : ¬ Contract toPython toInt root ⟨[], []⟩ ⟨9⟩ ⟨[], [], []⟩ := by
  intro h
  obtain ⟨files, db', news, created, hfiles, hdb', -, -, -, -, hderivations, -, hrecorded⟩ := h.stored
  obtain rfl := Option.some.inj hfiles
  have hrun : (parseAndUpdate toPython toInt ⟨9⟩ ⟨[], []⟩ root ⟨[], [], []⟩).map Database.derivations =
      some [(source, access)] := by decide +kernel
  rw [hdb', Option.map_some, hderivations, List.nil_append] at hrun
  obtain rfl := Option.some.inj hrun
  have hmem := (hrecorded (some source, some preservation)).mp (by decide +kernel)
  revert hmem
  decide

end TwoDerivatives

end Ccp.Worker.ParseMets.Files
