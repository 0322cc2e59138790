import Ccp.Lib.Calls
import Ccp.Lib.MapM
import Ccp.Lib.PosixPath
import Ccp.Lib.Table
import Ccp.Worker.ChangeNames

namespace Ccp.Worker.PidDeclaration

open Lib Calls

inductive PyError
  | typeError
  | valueError
  | multipleObjectsReturned
deriving DecidableEq

-- An identifier of identifiers.json, with nothing for a key that is missing or null.
structure Identifier where
  identifierType : Option Str
  identifier : Option Str
deriving DecidableEq

structure FileObject where
  file : Option Str
  identifiers : List Identifier
deriving DecidableEq

structure SIP where
  uuid : UUID
  currentpath : Option Str

structure Row where
  uuid : UUID
  sip : Option UUID
  currentlocation : Option Str
deriving DecidableEq

-- The SIP with the rows of the files and of the directories.
structure Db where
  sip : SIP
  files : List Row
  directories : List Row

inductive Model
  | sip
  | file (uuid : UUID)
  | directory (uuid : UUID)
deriving DecidableEq

structure Attached where
  model : Model
  identifierType : Str
  identifier : Str
deriving DecidableEq

-- What is attached, and what the user is warned of.
structure State where
  attached : List Attached
  warnings : List Identifier
  actualCount : ℕ
deriving DecidableEq

abbrev M := EStateM PyError State

def sipIdentifier : Str := "SIP".toList

def sipDirectory : Str := "%SIPDirectory%".toList

section Paths

-- unidecode is a package of its own.
variable (unidecode : Str → Str)

-- change_name raises a ValueError for an empty name.
def changeName (basename : Str) : Option Str :=
  if basename = [] then none
  else
    let decodedName := if unidecode basename = [] then basename else unidecode basename
    some (decodedName.map fun c => if ChangeNames.allowed c then c else ChangeNames.replacementChar)

theorem changeName_eq (n : FileOperations.Name) :
    changeName unidecode n.val = some (ChangeNames.changeName unidecode n).val := by
  rw [changeName, if_neg n.2.1]
  rfl

def fixupPathInputByUser (path : Str) : Option Str :=
  ((path.splitOn '/').mapM (changeName unidecode)).map fun names =>
    sipDirectory ++ names.foldl PosixPath.join []

def isSIP (path : Str) : Bool :=
  (PosixPath.dirname path = "objects".toList || PosixPath.dirname path = []) && PosixPath.basename path = []

def normalizedPath (path : Str) : Option Str :=
  if isSIP path then some sipIdentifier else fixupPathInputByUser unidecode path

end Paths

section Attach

variable (unidecode : Str → Str) (db : Db)

-- What _validate_identifier returns, as a tuple.
inductive Item
  | no
  | text (s : Str)

def Item.truthy : Item → Bool
  | .no => false
  | .text s => s ≠ []

def validateIdentifier (id : Identifier) : M (List Item) :=
  match id.identifierType, id.identifier with
  | some identifierType, some identifier => pure [.text identifierType, .text identifier]
  | _, _ => do
    modify fun s => { s with warnings := s.warnings ++ [id] }
    return [.no]

-- a, b = values
def unpack : List Item → M (Item × Item)
  | [a, b] => pure (a, b)
  | _ => throw .valueError

def Item.str : Item → Str
  | .no => "False".toList
  | .text s => s

-- The message has the name of the directory that the path of a SIP leads to.
def logIdentifier (mdl : Model) : M Unit :=
  match mdl with
  | .sip => if db.sip.currentpath.isSome then pure () else throw .typeError
  | _ => pure ()

def addCustomIdentifier (mdl : Model) (scheme value : Str) : M Unit :=
  modify fun s => { s with attached := s.attached ++ [⟨mdl, scheme, value⟩] }

def attach (mdl : Model) (identifierType identifier : Item) : M Unit := do
  addCustomIdentifier mdl identifierType.str identifier.str
  logIdentifier db mdl
  modify fun s => { s with actualCount := s.actualCount + 1 }

def addIdentifierToModel (mdl : Model) (id : Identifier) : M Unit := do
  let values ← validateIdentifier id
  let (identifierType, identifier) ← unpack values
  if identifierType.truthy then attach db mdl identifierType identifier else pure ()

def isAt (location : Str) (row : Row) : Bool :=
  row.sip = some db.sip.uuid && row.currentlocation = some location

def filesAt (filePath : Str) : List Row := db.files.filter (isAt db filePath)

def directoriesAt (filePath : Str) : List Row :=
  db.directories.filter (isAt db (PosixPath.join filePath []))

def attachIdentifier (filePath : Str) (id : Identifier) : M Unit :=
  if filePath = sipIdentifier then addIdentifierToModel db .sip id
  else
    match Table.get (filesAt db filePath) with
    | .row f => addIdentifierToModel db (.file f.uuid) id
    | .several => throw .multipleObjectsReturned
    | .missing =>
        match Table.get (directoriesAt db filePath) with
        | .row d => addIdentifierToModel db (.directory d.uuid) id
        | .several => throw .multipleObjectsReturned
        | .missing => pure ()

def attachObject (fileObject : FileObject) : M Unit :=
  match fileObject.file with
  | none => throw .typeError
  | some path =>
      match normalizedPath unidecode path with
      | none => throw .valueError
      | some filePath => fileObject.identifiers.forM (attachIdentifier db filePath)

def parseAndAttachIdentifiers (jsonData : List FileObject) : M Unit :=
  jsonData.forM (attachObject unidecode db)

end Attach

section Contract

variable (unidecode : Str → Str) (db : Db)

-- The location that a path of the user stands for, with or without a slash at the end.
def locationOf (path : Str) : Str :=
  sipDirectory ++ (((path.splitOn '/').filter (· ≠ [])).filterMap (changeName unidecode)).foldl PosixPath.join []

-- What a path names: the SIP, a file or else a directory.
def named (path : Str) : Option Model :=
  if isSIP path then some .sip
  else
    match (filesAt db (locationOf unidecode path)).head? with
    | some f => some (.file f.uuid)
    | none => ((directoriesAt db (locationOf unidecode path)).head?).map fun d => .directory d.uuid

def FileObject.model (o : FileObject) : Option Model := o.file.bind (named unidecode db)

def Identifier.complete (id : Identifier) : Option (Str × Str) :=
  id.identifierType.bind fun identifierType => id.identifier.map fun identifier => (identifierType, identifier)

def attachedTo (mdl : Model) (ids : List Identifier) : List Attached :=
  (ids.filterMap Identifier.complete).map fun pair => ⟨mdl, pair.1, pair.2⟩

def expected (o : FileObject) : List Attached :=
  (o.model unidecode db).elim [] fun mdl => attachedTo mdl o.identifiers

def incomplete (o : FileObject) : List Identifier :=
  (o.model unidecode db).elim [] fun _ => o.identifiers.filter fun id => id.complete.isNone

-- The script does not fail, the complete identifiers are attached to what the paths name,
-- and for the others there are warnings.
structure Contract (jsonData : List FileObject) (result : EStateM.Result PyError State Unit) : Prop where
  exists_ok : ∃ s, result = .ok () s ∧ s.attached = jsonData.flatMap (expected unidecode db) ∧
    s.warnings = jsonData.flatMap (incomplete unidecode db)

-- What an identifier of an object at a path must be like.
structure ClearIdentifier (path : Str) (id : Identifier) : Prop where
  one : isSIP path = false → (filesAt db (locationOf unidecode path)).length ≤ 1 ∧
    (filesAt db (locationOf unidecode path) = [] → (directoriesAt db (locationOf unidecode path)).length ≤ 1)
  complete : (named unidecode db path).isSome = true → ∃ pair, id.complete = some pair ∧ pair.1 ≠ []
  started : isSIP path = true → db.sip.currentpath.isSome = true

-- The objects whose paths the script can split, with identifiers that it can attach.
def Clear (o : FileObject) : Prop :=
  ∃ path, o.file = some path ∧ (isSIP path = true ∨ ∀ name ∈ path.splitOn '/', name ≠ []) ∧
    ∀ id ∈ o.identifiers, ClearIdentifier unidecode db path id

end Contract

section Runs

variable {unidecode : Str → Str} {db : Db} {mdl : Model} {id : Identifier} {path filePath : Str} {s s' : State}

def extend (s : State) (l : List Attached) : State :=
  { s with attached := s.attached ++ l, actualCount := s.actualCount + l.length }

theorem extend_nil (s : State) : extend s [] = s := by simp [extend]

theorem extend_append (s : State) (l l' : List Attached) :
    extend (extend s l) l' = extend s (l ++ l') := by
  simp [extend, Nat.add_assoc]

-- What the script attaches of an identifier to a model, where it does not fail.
def OkAt (db : Db) (mdl : Model) (id : Identifier) : Prop :=
  ∃ pair, id.complete = some pair ∧ (pair.1 ≠ [] → mdl = .sip → db.sip.currentpath.isSome = true)

def gainAt (mdl : Model) (id : Identifier) : List Attached :=
  (id.complete.toList.filter fun pair => pair.1 ≠ []).map fun pair => ⟨mdl, pair.1, pair.2⟩

theorem okAt_iff {identifierType identifier : Str} :
    OkAt db mdl ⟨some identifierType, some identifier⟩ ↔
      (identifierType ≠ [] → mdl = .sip → db.sip.currentpath.isSome = true) := by
  constructor
  · rintro ⟨pair, hpair, h⟩
    obtain rfl := Option.some.inj hpair
    exact h
  · exact fun h => ⟨_, rfl, h⟩

theorem addIdentifierToModel_nil (db : Db) (mdl : Model) (identifier : Str) (s : State) :
    addIdentifierToModel db mdl ⟨some [], some identifier⟩ s = .ok () s := rfl

theorem logIdentifier_ok_iff : logIdentifier db mdl s = .ok () s' ↔
    (mdl = .sip → db.sip.currentpath.isSome = true) ∧ s = s' := by
  have hpure : (pure () : M Unit) s = .ok () s' ↔ s = s' := pure_ok_iff.trans (and_iff_right rfl)
  cases mdl with
  | sip =>
      rw [logIdentifier]
      split_ifs with h
      · rw [hpure]
        simp [h]
      · refine iff_of_false throw_ne_ok fun hboth => h (hboth.1 rfl)
  | file uuid => simp [logIdentifier, hpure]
  | directory uuid => simp [logIdentifier, hpure]

theorem addIdentifierToModel_cons (db : Db) (mdl : Model) (c : Char) (rest identifier : Str) (s s' : State) :
    addIdentifierToModel db mdl ⟨some (c :: rest), some identifier⟩ s = .ok () s' ↔
      (mdl = .sip → db.sip.currentpath.isSome = true) ∧ s' = extend s [⟨mdl, c :: rest, identifier⟩] := by
  have hattach : addIdentifierToModel db mdl ⟨some (c :: rest), some identifier⟩ s =
      attach db mdl (.text (c :: rest)) (.text identifier) s := rfl
  rw [hattach, attach]
  constructor
  · intro h
    obtain ⟨_, t, hadd, h⟩ := bind_ok_iff.mp h
    obtain ⟨_, t', hlog, hcount⟩ := bind_ok_iff.mp h
    obtain rfl := modify_ok_iff.mp hadd
    obtain ⟨hpath, rfl⟩ := logIdentifier_ok_iff.mp hlog
    exact ⟨hpath, (modify_ok_iff.mp hcount).symm⟩
  · rintro ⟨hpath, rfl⟩
    exact bind_ok_iff.mpr ⟨(), _, modify_ok_iff.mpr rfl, bind_ok_iff.mpr
      ⟨(), _, logIdentifier_ok_iff.mpr ⟨hpath, rfl⟩, modify_ok_iff.mpr rfl⟩⟩

theorem addIdentifierToModel_ok_iff : addIdentifierToModel db mdl id s = .ok () s' ↔
    OkAt db mdl id ∧ s' = extend s (gainAt mdl id) := by
  obtain ⟨identifierType, identifier⟩ := id
  rcases identifierType with _ | identifierType
  · refine iff_of_false (fun h => ?_) ?_
    · cases h
    · rintro ⟨⟨pair, h, -⟩, -⟩
      cases h
  · rcases identifier with _ | identifier
    · refine iff_of_false (fun h => ?_) ?_
      · cases h
      · rintro ⟨⟨pair, h, -⟩, -⟩
        cases h
    · rw [okAt_iff]
      cases identifierType with
      | nil =>
          rw [addIdentifierToModel_nil]
          have hgain : gainAt mdl ⟨some [], some identifier⟩ = [] := rfl
          rw [hgain, extend_nil, EStateM.Result.ok.injEq]
          exact ⟨fun h => ⟨fun hne => absurd rfl hne, h.2.symm⟩, fun h => ⟨rfl, h.2.symm⟩⟩
      | cons c rest =>
          rw [addIdentifierToModel_cons]
          simp [gainAt, Identifier.complete]

-- What the code looks up at a path, against what the path names there.
def modelAt (db : Db) (filePath : Str) : Option Model :=
  match (filesAt db filePath).head? with
  | some f => some (.file f.uuid)
  | none => ((directoriesAt db filePath).head?).map fun d => .directory d.uuid

def OneAt (db : Db) (filePath : Str) : Prop :=
  (filesAt db filePath).length ≤ 1 ∧ (filesAt db filePath = [] → (directoriesAt db filePath).length ≤ 1)

def gainOf (mdl : Option Model) (id : Identifier) : List Attached := mdl.elim [] fun mdl => gainAt mdl id

theorem attachIdentifier_ok_iff (hne : filePath ≠ sipIdentifier) :
    attachIdentifier db filePath id s = .ok () s' ↔
      (OneAt db filePath ∧ ∀ mdl, modelAt db filePath = some mdl → OkAt db mdl id) ∧
        s' = extend s (gainOf (modelAt db filePath) id) := by
  rw [attachIdentifier, if_neg hne, OneAt, modelAt]
  rcases hfiles : filesAt db filePath with _ | ⟨f, _ | ⟨g, rest⟩⟩
  · rcases hdirectories : directoriesAt db filePath with _ | ⟨d, _ | ⟨e, rest⟩⟩
    · have hpure : (pure () : M Unit) s = .ok () s' ↔ s' = s := pure_ok_iff.trans ((and_iff_right rfl).trans eq_comm)
      simp [Table.get, hpure, gainOf, extend_nil]
    · simp [Table.get, addIdentifierToModel_ok_iff, gainOf]
    · simpa [Table.get] using throw_ne_ok
  · simp [Table.get, addIdentifierToModel_ok_iff, gainOf]
  · simpa [Table.get] using throw_ne_ok

theorem attachSIP_ok_iff : attachIdentifier db sipIdentifier id s = .ok () s' ↔
    OkAt db .sip id ∧ s' = extend s (gainAt .sip id) := by
  rw [attachIdentifier, if_pos rfl, addIdentifierToModel_ok_iff]

theorem fixup_eq (h : ∀ name ∈ path.splitOn '/', name ≠ []) :
    fixupPathInputByUser unidecode path = some (locationOf unidecode path) := by
  have hkept : (path.splitOn '/').filter (· ≠ []) = path.splitOn '/' :=
    List.filter_eq_self.mpr fun name hname => decide_eq_true (h name hname)
  obtain ⟨names, hnames⟩ : ∃ names, (path.splitOn '/').mapM (changeName unidecode) = some names := by
    refine MapM.exists_mapM fun name hname => ?_
    rw [changeName, if_neg (h name hname)]
    rfl
  have hfilter : (path.splitOn '/').filterMap (changeName unidecode) = names := by
    have hmap := congrArg (List.filterMap id) (MapM.mapM_eq_some_iff.mp hnames)
    rw [List.filterMap_map, List.filterMap_map] at hmap
    exact hmap.symm.trans List.filterMap_some
  rw [fixupPathInputByUser, locationOf, hkept, hnames, hfilter, Option.map_some]

theorem fixup_eq_none (h : ¬ ∀ name ∈ path.splitOn '/', name ≠ []) :
    fixupPathInputByUser unidecode path = none := by
  rw [fixupPathInputByUser, Option.map_eq_none_iff]
  cases hnames : (path.splitOn '/').mapM (changeName unidecode) with
  | none => rfl
  | some names =>
      refine absurd (fun name hname heq => ?_) h
      obtain ⟨changed, hchanged⟩ := MapM.isSome_of_mapM hnames hname
      rw [heq, changeName, if_pos rfl] at hchanged
      cases hchanged

theorem locationOf_ne : locationOf unidecode path ≠ sipIdentifier := by
  intro h
  exact absurd (List.cons.inj h).1 (by decide)

-- The path of an object that the script can work with.
def Split (path : Str) : Prop := isSIP path = true ∨ ∀ name ∈ path.splitOn '/', name ≠ []

theorem attachObject_ok_iff (o : FileObject) : attachObject unidecode db o s = .ok () s' ↔
    (∃ path, o.file = some path ∧ Split path ∧ ∀ id ∈ o.identifiers,
      (isSIP path = false → OneAt db (locationOf unidecode path)) ∧
        ∀ mdl, named unidecode db path = some mdl → OkAt db mdl id) ∧
      s' = extend s (o.identifiers.flatMap (gainOf (o.model unidecode db))) := by
  rcases hfile : o.file with _ | path
  · rw [attachObject, hfile]
    refine iff_of_false throw_ne_ok ?_
    rintro ⟨⟨path, h, -⟩, -⟩
    cases h
  · rw [attachObject, hfile, FileObject.model, hfile]
    simp only [Option.some.injEq, exists_eq_left', Option.bind_some, normalizedPath]
    cases hsip : isSIP path with
    | true =>
        have hnamed : named unidecode db path = some .sip := by
          rw [named, hsip]
          rfl
        simp only [hsip, if_true, Split, true_or, true_and, hnamed, Option.some.injEq, forall_eq',
          Bool.true_eq_false, IsEmpty.forall_iff]
        have hstep (id : Identifier) (s s' : State) : attachIdentifier db sipIdentifier id s = .ok () s' ↔
            OkAt db .sip id ∧ s' = extend s (gainOf (some .sip) id) := attachSIP_ok_iff
        exact forM_ok_iff extend_nil extend_append hstep o.identifiers s s'
    | false =>
        have hnamed : named unidecode db path = modelAt db (locationOf unidecode path) := by
          rw [named, hsip]
          rfl
        simp only [hsip, Bool.false_eq_true, if_false, Split, false_or, forall_true_left]
        by_cases hsplit : ∀ name ∈ path.splitOn '/', name ≠ []
        · rw [fixup_eq hsplit, hnamed, and_iff_right hsplit]
          have hstep (id : Identifier) (s s' : State) :=
            @attachIdentifier_ok_iff db id (locationOf unidecode path) s s' locationOf_ne
          exact forM_ok_iff extend_nil extend_append hstep o.identifiers s s'
        · rw [fixup_eq_none hsplit]
          exact iff_of_false throw_ne_ok fun h => hsplit h.1.1

end Runs

section Contract

variable {unidecode : Str → Str} {db : Db} {path : Str} {s' : State}

-- An object at which the script does not fail.
def Passes (unidecode : Str → Str) (db : Db) (o : FileObject) : Prop :=
  ∃ path, o.file = some path ∧ Split path ∧ ∀ id ∈ o.identifiers,
    (isSIP path = false → OneAt db (locationOf unidecode path)) ∧
      ∀ mdl, named unidecode db path = some mdl → OkAt db mdl id

theorem parseAndAttachIdentifiers_ok_iff (jsonData : List FileObject) :
    parseAndAttachIdentifiers unidecode db jsonData ⟨[], [], 0⟩ = .ok () s' ↔
      (∀ o ∈ jsonData, Passes unidecode db o) ∧
        s' = extend ⟨[], [], 0⟩ (jsonData.flatMap fun o =>
          o.identifiers.flatMap (gainOf (o.model unidecode db))) :=
  forM_ok_iff extend_nil extend_append (fun o _ _ => attachObject_ok_iff o) jsonData ⟨[], [], 0⟩ s'

theorem mem_expected {o : FileObject} {a : Attached} : a ∈ expected unidecode db o ↔
    ∃ mdl, o.model unidecode db = some mdl ∧ ∃ id ∈ o.identifiers, ∃ pair, id.complete = some pair ∧
      ⟨mdl, pair.1, pair.2⟩ = a := by
  rw [expected]
  cases o.model unidecode db with
  | none =>
      refine iff_of_false List.not_mem_nil ?_
      rintro ⟨mdl, h, -⟩
      cases h
  | some mdl =>
      simp only [Option.elim_some, attachedTo, List.mem_map, List.mem_filterMap, Option.some.injEq,
        exists_eq_left']
      constructor
      · rintro ⟨pair, ⟨id, hid, hpair⟩, rfl⟩
        exact ⟨id, hid, pair, hpair, rfl⟩
      · rintro ⟨id, hid, pair, hpair, rfl⟩
        exact ⟨pair, ⟨id, hid, hpair⟩, rfl⟩

theorem flatMap_gainAt (mdl : Model) (ids : List Identifier) :
    ids.flatMap (gainAt mdl) = (attachedTo mdl ids).filter fun a => a.identifierType ≠ [] := by
  induction ids with
  | nil => rfl
  | cons id rest ih =>
      rw [List.flatMap_cons, ih]
      simp only [attachedTo, gainAt]
      cases hcomplete : id.complete with
      | none =>
          rw [List.filterMap_cons_none hcomplete]
          rfl
      | some pair =>
          rw [List.filterMap_cons_some hcomplete, List.map_cons, Option.toList_some, List.filter_cons,
            List.filter_cons]
          split_ifs <;> rfl

-- What is attached of an object are its complete identifiers with a type that has a text.
theorem gain_eq (o : FileObject) : o.identifiers.flatMap (gainOf (o.model unidecode db)) =
    (expected unidecode db o).filter fun a => a.identifierType ≠ [] := by
  rw [expected]
  cases o.model unidecode db with
  | none => exact List.flatMap_eq_nil_iff.mpr fun id _ => rfl
  | some mdl => exact flatMap_gainAt mdl o.identifiers

theorem isSIP_of_named (h : named unidecode db path = some .sip) : isSIP path = true := by
  by_contra hsip
  rw [named, if_neg hsip] at h
  cases hhead : (filesAt db (locationOf unidecode path)).head? with
  | some f =>
      rw [hhead] at h
      cases h
  | none =>
      rw [hhead] at h
      obtain ⟨d, -, hd⟩ := Option.map_eq_some_iff.mp h
      cases hd

theorem named_of_isSIP (h : isSIP path = true) : named unidecode db path = some .sip := by
  rw [named, if_pos h]

theorem clear_iff (o : FileObject) : Clear unidecode db o ↔ Passes unidecode db o ∧
    ∀ a ∈ expected unidecode db o, a.identifierType ≠ [] := by
  constructor
  · rintro ⟨path, hfile, hsplit, hclear⟩
    refine ⟨⟨path, hfile, hsplit, fun id hid => ⟨(hclear id hid).one, fun mdl hmdl => ?_⟩⟩, fun a ha => ?_⟩
    · obtain ⟨pair, hpair, -⟩ := (hclear id hid).complete (by rw [hmdl]; rfl)
      refine ⟨pair, hpair, fun _ hsip => (hclear id hid).started (isSIP_of_named (hsip ▸ hmdl))⟩
    · obtain ⟨mdl, hmdl, id, hid, pair, hpair, rfl⟩ := mem_expected.mp ha
      rw [FileObject.model, hfile, Option.bind_some] at hmdl
      obtain ⟨pair', hpair', hne⟩ := (hclear id hid).complete (by rw [hmdl]; rfl)
      obtain rfl := Option.some.inj (hpair.symm.trans hpair')
      exact hne
  · rintro ⟨⟨path, hfile, hsplit, hpasses⟩, htype⟩
    -- an identifier of what the path names has a type that has a text
    have hcomplete (id : Identifier) (hid : id ∈ o.identifiers) (mdl : Model)
        (hmdl : named unidecode db path = some mdl) : ∃ pair, id.complete = some pair ∧ pair.1 ≠ [] ∧
          (mdl = .sip → db.sip.currentpath.isSome = true) := by
      obtain ⟨pair, hpair, hpath⟩ := (hpasses id hid).2 mdl hmdl
      have hmodel : o.model unidecode db = some mdl := by rw [FileObject.model, hfile, Option.bind_some, hmdl]
      have hne : pair.1 ≠ [] := htype _ (mem_expected.mpr ⟨mdl, hmodel, id, hid, pair, hpair, rfl⟩)
      exact ⟨pair, hpair, hne, hpath hne⟩
    refine ⟨path, hfile, hsplit, fun id hid => ⟨(hpasses id hid).1, fun hsome => ?_, fun hsip => ?_⟩⟩
    · obtain ⟨mdl, hmdl⟩ := Option.isSome_iff_exists.mp hsome
      obtain ⟨pair, hpair, hne, -⟩ := hcomplete id hid mdl hmdl
      exact ⟨pair, hpair, hne⟩
    · obtain ⟨pair, -, -, hpath⟩ := hcomplete id hid .sip (named_of_isSIP hsip)
      exact hpath rfl

theorem incomplete_of_clear {o : FileObject} (h : Clear unidecode db o) : incomplete unidecode db o = [] := by
  obtain ⟨path, hfile, -, hclear⟩ := h
  rw [incomplete, FileObject.model, hfile, Option.bind_some]
  cases hmdl : named unidecode db path with
  | none => rfl
  | some mdl =>
      refine List.filter_eq_nil_iff.mpr fun id hid hnone => ?_
      obtain ⟨pair, hpair, -⟩ := (hclear id hid).complete (by rw [hmdl]; rfl)
      rw [hpair] at hnone
      cases hnone

-- Whether the identifiers are attached as the user has declared them.
theorem attached_iff (unidecode : Str → Str) (db : Db) (jsonData : List FileObject) :
    Contract unidecode db jsonData (parseAndAttachIdentifiers unidecode db jsonData ⟨[], [], 0⟩) ↔
      ∀ o ∈ jsonData, Clear unidecode db o := by
  have hgain : (jsonData.flatMap fun o => o.identifiers.flatMap (gainOf (o.model unidecode db))) =
      (jsonData.flatMap (expected unidecode db)).filter fun a => a.identifierType ≠ [] := by
    rw [List.filter_flatMap]
    exact congrArg (fun f => jsonData.flatMap f) (funext gain_eq)
  constructor
  · rintro ⟨s, hok, hattached, -⟩
    obtain ⟨hpasses, rfl⟩ := (parseAndAttachIdentifiers_ok_iff jsonData).mp hok
    rw [hgain] at hattached
    have htypes := List.filter_eq_self.mp ((List.nil_append _).symm.trans hattached)
    refine fun o ho => (clear_iff o).mpr ⟨hpasses o ho, fun a ha => ?_⟩
    exact of_decide_eq_true (htypes a (List.mem_flatMap.mpr ⟨o, ho, ha⟩))
  · intro hclear
    have hboth := fun o ho => (clear_iff o).mp (hclear o ho)
    have htypes : (jsonData.flatMap (expected unidecode db)).filter (fun a => a.identifierType ≠ []) =
        jsonData.flatMap (expected unidecode db) := by
      refine List.filter_eq_self.mpr fun a ha => ?_
      obtain ⟨o, ho, ha⟩ := List.mem_flatMap.mp ha
      exact decide_eq_true ((hboth o ho).2 a ha)
    refine ⟨_, (parseAndAttachIdentifiers_ok_iff jsonData).mpr ⟨fun o ho => (hboth o ho).1, rfl⟩, ?_, ?_⟩
    · rw [hgain, htypes]
      rfl
    · exact (List.flatMap_eq_nil_iff.mpr fun o ho => incomplete_of_clear (hclear o ho)).symm

end Contract

section Example

def package : Db where
  sip := ⟨UUID.nil, some "/s/".toList⟩
  files := [⟨⟨1⟩, some UUID.nil, some "%SIPDirectory%objects/a".toList⟩]
  directories := [⟨⟨2⟩, some UUID.nil, some "%SIPDirectory%objects/d/".toList⟩]

-- A directory of the SIP, with a slash at the end of its path.
def directoryWithSlash : List FileObject := [⟨some "objects/d/".toList, [⟨some "hdl".toList, some "1".toList⟩]⟩]

theorem slash_fails :
    directoryWithSlash.flatMap (expected id package) = [⟨.directory ⟨2⟩, "hdl".toList, "1".toList⟩] ∧
    parseAndAttachIdentifiers id package directoryWithSlash ⟨[], [], 0⟩ = .error .valueError ⟨[], [], 0⟩ ∧
    ¬ Contract id package directoryWithSlash
      (parseAndAttachIdentifiers id package directoryWithSlash ⟨[], [], 0⟩) := by
  have hfails : parseAndAttachIdentifiers id package directoryWithSlash ⟨[], [], 0⟩ =
      .error .valueError ⟨[], [], 0⟩ := rfl
  refine ⟨by decide +kernel, hfails, ?_⟩
  rw [hfails]
  rintro ⟨s, hok, -⟩
  cases hok

end Example

end Ccp.Worker.PidDeclaration
