import Ccp.Lib.Dict
import Ccp.Lib.PosixPath
import Ccp.Lib.Table
import Ccp.Lib.Text
import Ccp.Worker.FileOperations

namespace Ccp.Worker.UploadArchivesSpace

open Lib

-- What the METS file has at a place: nothing, a text, or the nodes that are there, one at least.
inductive Value (ν : Type)
  | none
  | text (s : Str)
  | nodes (n : ν)
deriving DecidableEq

namespace Value

variable {ν : Type}

def truthy : Value ν → Bool
  | none => false
  | text s => s ≠ []
  | nodes _ => true

-- len(value) == 0
def isEmpty : Value ν → Bool
  | text s => s = []
  | _ => false

def allows : Value ν → Bool
  | text s => s = "Allow".toList
  | _ => false

end Value

structure Rights (ν : Type) where
  restriction : Value ν
  rightsGrantedNote : Value ν

structure PairRow where
  dipuuid : Str
  fileuuid : Str
  resourceid : Str
deriving DecidableEq

structure Options where
  xlinkShow : Str
  xlinkActuate : Str
  objectType : Str
  useStatement : Option Str
  uri : Str
  dipUUID : Str
  accessConditions : Str
  useConditions : Str
  restrictions : Str
  dipLocation : Str
  inheritNotes : Bool

structure FormatVersion where
  description : Str
  format : Str

structure DigitalObject (ν : Type) where
  parentArchivalObject : Str
  identifier : Str
  title : Str
  uri : Str
  locationOfOriginals : Str
  objectType : Str
  useStatement : Option Str
  xlinkShow : Str
  xlinkActuate : Str
  restricted : Bool
  useConditions : Value ν
  accessConditions : Value ν
  size : Option ℕ
  formatName : Option Str
  formatVersion : Option Str
  inheritNotes : Bool
deriving DecidableEq

-- What an upload finds: the files of the DIP, the pairings, the rights of each file in the METS
-- file where it can be read, the rows of each identifier, and which objects are refused.
structure World (ν : Type) where
  files : List Str
  pairs : List PairRow
  mets : Option (Dict Str (Dict Str (Rights ν)))
  formatVersions : Str → List FormatVersion
  originals : Str → List Str
  accesses : Str → List Str
  getsize : Str → Option ℕ
  refuses : DigitalObject ν → Bool

section Upload

variable {ν : Type} (opts : Options)

def uuidOf (f : Str) : Str := (PosixPath.basename f).take 36

def getPairs (pairs : List PairRow) : Dict Str Str :=
  (pairs.filter fun row => row.dipuuid = opts.dipUUID).foldl
    (fun d row => Dict.set d row.fileuuid row.resourceid) []

def needsMets : Bool :=
  opts.restrictions = "premis".toList || opts.accessConditions = [] || opts.useConditions = []

-- The rows of a file with the sizes that are asked for.
structure Own (ν : Type) where
  pairing : Option Str
  rights : Dict Str (Rights ν)
  formatVersions : List FormatVersion
  originals : List Str
  accesses : List (Option ℕ)
  size : Option ℕ

def accessPath (location : Str) : Str :=
  replaceAll location "%SIPDirectory%DIP/".toList opts.dipLocation

def World.own (w : World ν) (f : Str) : Own ν where
  pairing := Dict.get? (getPairs opts w.pairs) (uuidOf f)
  rights := (w.mets.bind fun mets => Dict.get? mets (uuidOf f)).getD []
  formatVersions := w.formatVersions (uuidOf f)
  originals := w.originals (uuidOf f)
  accesses := (w.accesses (uuidOf f)).map fun location => w.getsize (accessPath opts location)
  size := w.getsize f

-- What the loop overwrites from file to file.
structure Params (ν : Type) where
  xlinkShow : Str
  xlinkActuate : Str
  useConditions : Value ν
  accessConditions : Value ν
deriving DecidableEq

def params : Params ν :=
  ⟨opts.xlinkShow, opts.xlinkActuate, .text opts.useConditions, .text opts.accessConditions⟩

-- The rights of an act, nothing without the METS file or an entry for the act.
def act (rights : Dict Str (Rights ν)) (name : Str) : Rights ν :=
  if needsMets opts then (Dict.get? rights name).getD ⟨.none, .none⟩ else ⟨.none, .none⟩

def disseminate (rights : Dict Str (Rights ν)) : Rights ν := act opts rights "disseminate".toList

def publish (rights : Dict Str (Rights ν)) : Rights ν := act opts rights "publish".toList

def restrictionsApply (rights : Dict Str (Rights ν)) : Bool :=
  opts.restrictions = "yes".toList ||
    (opts.restrictions = "premis".toList &&
      !((disseminate opts rights).restriction.allows && (publish opts rights).restriction.allows))

def noted (conditions note : Value ν) : Value ν :=
  if (conditions.isEmpty || opts.restrictions = "premis".toList) && note.truthy then note else conditions

-- The assignments to the parameters in the turn of a file.
def settle (rights : Dict Str (Rights ν)) (p : Params ν) : Params ν where
  xlinkShow := if restrictionsApply opts rights then "none".toList else p.xlinkShow
  xlinkActuate := if restrictionsApply opts rights then "none".toList else p.xlinkActuate
  useConditions := noted opts p.useConditions (publish opts rights).rightsGrantedNote
  accessConditions := noted opts p.accessConditions (disseminate opts rights).rightsGrantedNote

def asFormats : Dict Str Str :=
  [("Audio Interchange File Format".toList, "aiff".toList),
    ("Audio/Video Interleaved".toList, "avi".toList),
    ("Graphics Interchange Format".toList, "gif".toList),
    ("JPEG".toList, "jpeg".toList),
    ("MPEG Audio".toList, "mp3".toList),
    ("PDF".toList, "pdf".toList),
    ("Tagged Image File Format".toList, "tiff".toList),
    ("Plain Text".toList, "txt".toList)]

structure Info where
  title : Str
  size : Option ℕ
  formatName : Option Str
  formatVersion : Option Str

-- Nothing where there are several format versions, or no file to take the size of.
def originalInfo (own : Own ν) : Option Info :=
  match Table.get own.formatVersions with
  | .several => none
  | .missing => described own none
  | .row fv => described own (some fv)
where
  described (own : Own ν) (fv : Option FormatVersion) : Option Info :=
    match Table.get own.originals with
    | .row location => own.size.map fun size =>
        ⟨PosixPath.basename location, some size, fv.map (·.format), fv.map (·.description)⟩
    | _ => some ⟨[], none, none, none⟩

def info (own : Own ν) : Option Info :=
  (originalInfo own).bind fun i =>
    match Table.get own.accesses with
    | .row size => size.map fun size => { i with size := some size }
    | _ => some i

def digitalObject (f resource : Str) (restricted : Bool) (p : Params ν) (i : Info) : DigitalObject ν where
  parentArchivalObject := resource
  identifier := uuidOf f
  title := i.title
  uri := (if opts.uri.getLast? = some '/' then opts.uri else opts.uri ++ ['/']) ++ PosixPath.basename f
  locationOfOriginals := opts.dipUUID
  objectType := opts.objectType
  useStatement := opts.useStatement
  xlinkShow := p.xlinkShow
  xlinkActuate := p.xlinkActuate
  restricted := restricted
  useConditions := p.useConditions
  accessConditions := p.accessConditions
  size := i.size
  formatName := i.formatName.bind (Dict.get? asFormats)
  formatVersion := i.formatVersion
  inheritNotes := opts.inheritNotes

-- The parameters, what was sent for which file, the rows of the pairings that are left and
-- whether all went well.
structure State (ν : Type) where
  params : Params ν
  sent : List (Str × DigitalObject ν)
  pairs : List PairRow
  allFilesPairedSuccessfully : Bool

variable (w : World ν)

-- Nothing where an error ends the upload.
def uploadFile (s : State ν) (f : Str) : Option (State ν) :=
  let own := w.own opts f
  match own.pairing with
  | none => some { s with allFilesPairedSuccessfully := false }
  | some resource =>
      let p := settle opts own.rights s.params
      (info own).map fun i =>
        let object := digitalObject opts f resource (restrictionsApply opts own.rights) p i
        { params := p
          sent := s.sent ++ [(f, object)]
          pairs := s.pairs.filter fun row => row.dipuuid ≠ opts.dipUUID
          allFilesPairedSuccessfully := s.allFilesPairedSuccessfully && !w.refuses object }

-- The state at the end, or before the file at which an error ended the upload.
def uploadFiles (s : State ν) : List Str → State ν × Bool
  | [] => (s, true)
  | f :: files =>
      match uploadFile opts w s f with
      | none => (s, false)
      | some s' => uploadFiles s' files

def start : State ν := ⟨params opts, [], w.pairs, true⟩

-- Nothing is sent where the METS file is needed and cannot be read.
def uploadToArchivesspace : State ν × Option Bool :=
  if needsMets opts && w.mets.isNone then (start opts w, none)
  else
    let result := uploadFiles opts w (start opts w) w.files
    (result.1, if result.2 then some result.1.allFilesPairedSuccessfully else none)

def sentFor (f : Str) (object : DigitalObject ν) : Prop :=
  (f, object) ∈ (uploadToArchivesspace opts w).1.sent

end Upload

section Contract

variable {ν : Type} (opts : Options) (w : World ν) (f : Str)

-- Two uploads that agree on what is the file's own send the same object for it.
def Contract : Prop :=
  ∀ w' w'' : World ν, w'.own opts f = w.own opts f → w''.own opts f = w.own opts f →
    ∀ object object', sentFor opts w' f object → sentFor opts w'' f object' → object = object'

-- The links are those of the option, or they are none for this file in any case.
def ClearLinks (rights : Dict Str (Rights ν)) : Prop :=
  opts.restrictions = "premis".toList → restrictionsApply opts rights = true ∨
    (opts.xlinkShow = "none".toList ∧ opts.xlinkActuate = "none".toList)

-- With PREMIS restrictions the file has a note of its own, otherwise the option has a text.
def ClearNote (option : Str) (note : Value ν) : Prop :=
  if opts.restrictions = "premis".toList then note.truthy = true else option ≠ []

structure Clear (rights : Dict Str (Rights ν)) : Prop where
  links : ClearLinks opts rights
  use : ClearNote opts opts.useConditions (publish opts rights).rightsGrantedNote
  access : ClearNote opts opts.accessConditions (disseminate opts rights).rightsGrantedNote

-- The file is paired and its rows can be read.
def Sendable (own : Own ν) : Prop := own.pairing.isSome = true ∧ (info own).isSome = true

end Contract

section Settle

variable {ν : Type} {opts : Options} {rights : Dict Str (Rights ν)} {p : Params ν} {option : Str}
  {conditions note : Value ν}

-- A condition that the loop can come to with an option: it, or anything where notes count.
def ReachedNote (opts : Options) (option : Str) (conditions : Value ν) : Prop :=
  conditions = .text option ∨ opts.restrictions = "premis".toList ∨ option = []

structure Reached (opts : Options) (p : Params ν) : Prop where
  links : (p.xlinkShow = opts.xlinkShow ∧ p.xlinkActuate = opts.xlinkActuate) ∨
    ((opts.restrictions = "yes".toList ∨ opts.restrictions = "premis".toList) ∧
      p.xlinkShow = "none".toList ∧ p.xlinkActuate = "none".toList)
  use : ReachedNote opts opts.useConditions p.useConditions
  access : ReachedNote opts opts.accessConditions p.accessConditions

theorem reached_params : Reached opts (params opts : Params ν) :=
  ⟨.inl ⟨rfl, rfl⟩, .inl rfl, .inl rfl⟩

theorem reachedNote_noted (h : ReachedNote opts option conditions) (note : Value ν) :
    ReachedNote opts option (noted opts conditions note) := by
  rcases h with rfl | h
  · rw [noted]
    split_ifs with hnote
    · simp only [Bool.and_eq_true, Bool.or_eq_true, decide_eq_true_eq] at hnote
      obtain ⟨hempty | hpremis, -⟩ := hnote
      · exact .inr (.inr (of_decide_eq_true hempty))
      · exact .inr (.inl hpremis)
    · exact .inl rfl
  · exact .inr h

theorem restricted_cases (h : restrictionsApply opts rights = true) :
    opts.restrictions = "yes".toList ∨ opts.restrictions = "premis".toList := by
  simp only [restrictionsApply, Bool.or_eq_true, Bool.and_eq_true, decide_eq_true_eq] at h
  exact h.imp_right And.left

theorem reached_settle (h : Reached opts p) (rights : Dict Str (Rights ν)) :
    Reached opts (settle opts rights p) := by
  refine ⟨?_, reachedNote_noted h.use _, reachedNote_noted h.access _⟩
  by_cases happly : restrictionsApply opts rights = true
  · refine .inr ⟨restricted_cases happly, ?_, ?_⟩
    · exact if_pos happly
    · exact if_pos happly
  · simp only [settle, if_neg happly]
    exact h.links

theorem noted_eq (hclear : ClearNote opts option note) (h : ReachedNote opts option conditions) :
    noted opts conditions note = noted opts (.text option) note := by
  by_cases hpremis : opts.restrictions = "premis".toList
  · rw [ClearNote, if_pos hpremis] at hclear
    simp [noted, hpremis, hclear]
  · rw [ClearNote, if_neg hpremis] at hclear
    rcases h with rfl | h | h
    · rfl
    · exact absurd h hpremis
    · exact absurd h hclear

-- With such rights the turn of the file makes the same of all that the loop can come to.
theorem settle_eq (hclear : Clear opts rights) (h : Reached opts p) :
    settle opts rights p = settle opts rights (params opts) := by
  have hlinks : (settle opts rights p).xlinkShow = (settle opts rights (params opts)).xlinkShow ∧
      (settle opts rights p).xlinkActuate = (settle opts rights (params opts)).xlinkActuate := by
    by_cases happly : restrictionsApply opts rights = true
    · simp only [settle, if_pos happly, and_self]
    · simp only [settle, if_neg happly]
      rcases h.links with hlinks | ⟨hyes | hpremis, hshow, hactuate⟩
      · exact hlinks
      · simp [restrictionsApply, hyes] at happly
      · rcases hclear.links hpremis with hrestricted | ⟨hshow', hactuate'⟩
        · exact absurd hrestricted happly
        · exact ⟨hshow.trans hshow'.symm, hactuate.trans hactuate'.symm⟩
  have huse := noted_eq hclear.use h.use
  have haccess := noted_eq hclear.access h.access
  exact Params.mk.injEq .. ▸ ⟨hlinks.1, hlinks.2, huse, haccess⟩

-- A text that is longer than what another value has.
def longer : Value ν → Str
  | .text s => 'x' :: s
  | _ => ['x']

theorem longer_ne (v : Value ν) : Value.text (longer v) ≠ v := by
  cases v with
  | none => exact fun h => by cases h
  | text s =>
      intro h
      have hlength := congrArg List.length (Value.text.inj h)
      simp [longer] at hlength
  | nodes n => exact fun h => by cases h

theorem longer_truthy (v : Value ν) : (Value.text (longer v) : Value ν).truthy = true := by
  cases v <;> rfl

theorem clearNote_of_constant
    (h : ∀ n : Value ν, noted opts (noted opts (.text option) n) note = noted opts (.text option) note) :
    ClearNote opts option note := by
  by_cases hpremis : opts.restrictions = "premis".toList
  · rw [ClearNote, if_pos hpremis]
    by_contra hnote
    rw [Bool.not_eq_true] at hnote
    have hlong := h (.text (longer (.text option : Value ν)))
    simp only [noted, hpremis, hnote, longer_truthy, Bool.and_false, Bool.false_eq_true, if_false,
      decide_true, Bool.or_true, Bool.and_self, if_true] at hlong
    exact longer_ne _ hlong
  · rw [ClearNote, if_neg hpremis]
    rintro rfl
    have hfirst (v : Value ν) : noted opts (.text []) (.text (longer v)) = (.text (longer v) : Value ν) := by
      rw [noted, if_pos]
      rw [longer_truthy]
      rfl
    have hkept (v : Value ν) : noted opts (.text (longer v)) note = .text (longer v) := by
      have hnonempty : (Value.text (longer v) : Value ν).isEmpty = false := by
        cases v <;> rfl
      have hpremis' : decide (opts.restrictions = "premis".toList) = false := decide_eq_false hpremis
      rw [noted, hnonempty, hpremis', Bool.or_self, Bool.false_and, if_neg Bool.false_ne_true]
    have hlong := h (.text (longer (noted opts (.text []) note)))
    rw [hfirst, hkept] at hlong
    exact longer_ne _ hlong

theorem needsMets_of_not (h : ¬ needsMets opts = true) : opts.restrictions ≠ "premis".toList ∧
    opts.accessConditions ≠ [] ∧ opts.useConditions ≠ [] := by
  simp only [needsMets, Bool.or_eq_true, decide_eq_true_eq, not_or] at h
  exact ⟨h.1.1, h.1.2, h.2⟩

theorem clear_of_constant (h : ∀ rights' : Dict Str (Rights ν),
    settle opts rights (settle opts rights' (params opts)) = settle opts rights (params opts)) :
    Clear opts rights := by
  have hlinks : ClearLinks opts rights := by
    intro hpremis
    by_cases happly : restrictionsApply opts rights = true
    · exact .inl happly
    · right
      have hempty : restrictionsApply opts ([] : Dict Str (Rights ν)) = true := by
        have hnone : (disseminate opts ([] : Dict Str (Rights ν))).restriction.allows = false := by
          rw [disseminate, act]
          split_ifs <;> rfl
        simp [restrictionsApply, hpremis, hnone]
      have hshow := congrArg Params.xlinkShow (h [])
      have hactuate := congrArg Params.xlinkActuate (h [])
      simp only [settle, if_neg happly, if_pos hempty] at hshow hactuate
      exact ⟨hshow.symm, hactuate.symm⟩
  by_cases hmets : needsMets opts = true
  · refine ⟨hlinks, clearNote_of_constant fun n => ?_, clearNote_of_constant fun n => ?_⟩
    · have huse := congrArg Params.useConditions (h [("publish".toList, ⟨.none, n⟩)])
      simp only [settle, publish, act, if_pos hmets] at huse ⊢
      exact huse
    · have haccess := congrArg Params.accessConditions (h [("disseminate".toList, ⟨.none, n⟩)])
      simp only [settle, disseminate, act, if_pos hmets] at haccess ⊢
      exact haccess
  · obtain ⟨hpremis, haccess, huse⟩ := needsMets_of_not hmets
    refine ⟨hlinks, ?_, ?_⟩
    · rw [ClearNote, if_neg hpremis]
      exact huse
    · rw [ClearNote, if_neg hpremis]
      exact haccess

end Settle

end Ccp.Worker.UploadArchivesSpace
