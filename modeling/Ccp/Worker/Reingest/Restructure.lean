import Ccp.Lib.Disk.MoveAll
import Ccp.Worker.CreateSIP
import Ccp.Worker.Mets.Reconstruct
import Ccp.Worker.TransferBag

namespace Ccp.Worker.Reingest.Restructure

open Lib FileOperations CreateSIP TransferBag

variable {α : Type*}

def createDirectories (d : Disk Name α) (directories : List (List Name)) : Option (Disk Name α) :=
  directories.foldlM
    (fun d directory => if d.isdir directory then some d else d.makedirs directory) d

def createStructuredDirectory (manualNormalization : Bool) (d : Disk Name α) :
    Option (Disk Name α) := do
  let d ← createDirectories d CreateSIP.requiredDirectories
  if manualNormalization then createDirectories d manualNormalizationDirectories else some d

def toName (s : Str) : Option Name :=
  if h : s ≠ [] ∧ '/' ∉ s then some ⟨s, h⟩ else none

-- The names of a relative path.
def parts (path : Str) : List Name := (path.splitOn '/').filterMap toName

-- The div for objects of the structMap that is looked for.
def normativeRoot (doc : List Mets.StructMap) : Option Mets.Div :=
  (doc.find? fun sm => sm.type = "logical".toList ∧ sm.label = Mets.normativeLabel).bind fun sm =>
    (sm.divs.flatMap Mets.Div.children).find? fun d => d.label = Mets.objects

section Reconstruct

-- The structMaps of an XML file, none for a file that is no XML.
variable (parse : α → Option (List Mets.StructMap))

-- Nothing is done where the first path is no file or the second no directory.
def reconstructEmptyDirectories (metsFilePath objectsPath : List Name) (d : Disk Name α) :
    Option (Disk Name α) :=
  match d.node metsFilePath with
  | some (.file content) =>
      if d.isdir objectsPath then
        (parse content).bind fun doc =>
          match normativeRoot doc with
          | none => some d
          | some root =>
              createDirectories d
                ((Mets.divElToDirPaths [] false root).map fun path => objectsPath ++ parts path)
      else some d
  | _ => some d

end Reconstruct

def oldBag : Name := ⟨"old_bag".toList, by decide⟩

@[simp] theorem oldBag_ne : oldBag ≠ metadata ∧ oldBag ≠ objects := by decide

@[simp] theorem ne_oldBag : metadata ≠ oldBag ∧ objects ≠ oldBag := by decide

-- A letter without its case: the long s counts as an s.
def ignoreCase (c : Char) : Char := if c = 'ſ' then 's' else c.toLower

-- What ^METS\..*\.xml$ matches of a name: a last line break is no part of it, and no
-- other is passed over.
def metsGroup (item : Name) : Option Name :=
  let text := if item.1.getLast? = some '\n' then item.1.dropLast else item.1
  let lower := text.map ignoreCase
  if "mets.".toList.isPrefixOf lower ∧ ".xml".toList.isSuffixOf lower ∧ 9 ≤ text.length ∧
      text.all (· ≠ '\n') then toName text
  else none

-- os.listdir fails where there is no directory.
def moveEntries (src dst : List Name) (d : Disk Name α) : Option (Disk Name α) :=
  if d.isdir src then Disk.moveAll src dst d (d.listdir src) else none

def emptyInto (src dst : List Name) (d : Disk Name α) : Option (Disk Name α) :=
  if d.isdir src then (Disk.moveAll src dst d (d.listdir src)).bind (·.rmtree src) else some d

-- The first entry of the payload that the pattern matches.
def moveMets (d : Disk Name α) : Option (Disk Name α) :=
  if d.isdir [oldBag, data] then
    ((d.listdir [oldBag, data]).findSome? metsGroup).bind fun group =>
      d.move [oldBag, data, group] [metadata]
  else none

def moveProcessingMCP (d : Disk Name α) : Option (Disk Name α) :=
  if d.isfile [oldBag, processingMCP] then d.move [oldBag, processingMCP] [processingMCP]
  else some d

-- What comes to stand under the path of the METS file is the directory that it is in.
def restructureTransferAip (parse : α → Option (List Mets.StructMap)) (d : Disk Name α) :
    Option (Disk Name α) := do
  let d ← d.makedirs [oldBag]
  let d ← Disk.moveAll [] [oldBag] d ((d.listdir []).filter (· ≠ oldBag))
  let d ← createStructuredDirectory false d
  let d ← moveMets d
  let d ← emptyInto [oldBag, data, objects, metadata] [metadata] d
  let d ← emptyInto [oldBag, data, objects, submissionDocumentation]
    [metadata, submissionDocumentation] d
  let d ← moveEntries [oldBag, data, objects] [objects] d
  let d ← moveProcessingMCP d
  let d ← d.rmtree [oldBag]
  reconstructEmptyDirectories parse [metadata] [objects] d

def submDocPath : List Name := [metadata, submissionDocumentation]

def isMets (item : Name) : Bool :=
  "METS.".toList.isPrefixOf item.1 && ".xml".toList.isSuffixOf item.1

-- What is no part of a SIP goes to the submission documentation. The path of the METS
-- file is that of the last one.
def moveUnexpected (s : Disk Name α × Option (List Name)) (item : Name) :
    Option (Disk Name α × Option (List Name)) :=
  if isOptional item || CreateSIP.requiredDirectories.any (· = [item]) then some s
  else
    (s.1.move [item] (submDocPath ++ [item])).map fun d =>
      (d, if isMets item then some (submDocPath ++ [item]) else s.2)

def moveData (d : Disk Name α) : Option (Disk Name α) :=
  if d.isdir [data] then (d.listdir [data]).foldlM (fun d item => d.move [data, item] [item]) d
  else none

def reconstructFound (parse : α → Option (List Mets.StructMap)) (metsFilePath : Option (List Name))
    (d : Disk Name α) : Option (Disk Name α) :=
  match metsFilePath with
  | some path => reconstructEmptyDirectories parse path [objects] d
  | none => some d

-- Where metadata and logs cannot be moved they stay.
def restructureBagAipToSip (parse : α → Option (List Mets.StructMap)) (d : Disk Name α) :
    Option (Disk Name α) := do
  let d ← moveData d
  let d ← d.rmdir [data]
  let d := (d.move [objects, metadata] [metadata]).getD d
  let d := (d.move [objects, logs] [logs]).getD d
  let d ← d.makedirs submDocPath
  let (d, metsFilePath) ← (d.listdir []).foldlM moveUnexpected (d, none)
  let d ← reconstructFound parse metsFilePath d
  createStructuredDirectory true d

-- The directories that a list of divs documents, each by the names that lead to it.
inductive Documents : List Mets.Div → List Name → Prop
  | here {divs : List Mets.Div} {div : Mets.Div} {n : Name} (hmem : div ∈ divs)
      (htype : div.type = .directory) (hlabel : div.label = n.1) : Documents divs [n]
  | inside {divs : List Mets.Div} {div : Mets.Div} {n : Name} {names : List Name}
      (hmem : div ∈ divs) (htype : div.type = .directory) (hlabel : div.label = n.1)
      (hnames : Documents div.children names) : Documents divs (n :: names)

-- The bag of an AIP: its METS file is the only one, and has a normative structMap.
structure AipBag (parse : α → Option (List Mets.StructMap)) where
  disk : Disk Name α
  mets : Name
  content : α
  doc : List Mets.StructMap
  root : Mets.Div
  mets_name : isMets mets = true
  node_mets : disk.node [data, mets] = some (.file content)
  only_mets : ∀ n, isMets n = true → disk.found [data, n] = true → n = mets
  no_mets : ∀ n, isMets n = true → disk.found [n] = false
  node_objects : disk.node [data, objects] = some .dir
  parse_content : parse content = some doc
  normative : normativeRoot doc = some root

-- The reader leaves them out: they are no part of the objects of a transfer.
def LeftOut (names : List Name) : Prop :=
  names.head? = some metadata ∨ names.head? = some submissionDocumentation

section Paths

open PosixPath

theorem mem_subDivPaths {path x : Str} {div : Mets.Div} {divs : List Mets.Div} (hmem : div ∈ divs)
    (htype : div.type = .directory) (hx : x ∈ Mets.divElToDirPaths path true div) :
    x ∈ Mets.subDivPaths path divs := by
  induction divs with
  | nil => cases hmem
  | cons d divs ih =>
      rw [Mets.subDivPaths, List.mem_append]
      rcases List.mem_cons.mp hmem with rfl | hmem
      · rw [if_pos htype]
        exact Or.inl hx
      · exact Or.inr (ih hmem)

theorem divElToDirPaths_included {parent : Str} {div : Mets.Div}
    (h : ¬ (parent = [] ∧
      (div.label = Mets.metadata ∨ div.label = Mets.submissionDocumentation))) :
    Mets.divElToDirPaths parent true div =
      join parent div.label :: Mets.subDivPaths (join parent div.label) div.children := by
  obtain ⟨type, label, dmdID, children⟩ := div
  simp only [Mets.Div.label] at h
  rw [Mets.divElToDirPaths, if_neg h]
  simp [Mets.Div.label, Mets.Div.children]

theorem open_join_name {parent : Str} (h : parent = [] ∨ Open parent) (n : Name) :
    Open (join parent n.1) := by
  rcases h with rfl | hopen
  · rw [join_nil_of_name n.2]
    exact ⟨n.2.1, fun hlast => n.2.2 (List.mem_of_getLast? hlast)⟩
  · exact open_join hopen n.2

theorem not_guarded {parent label : Str} {n : Name} {names : List Name} (hlabel : label = n.1)
    (h : parent = [] → ¬ LeftOut (n :: names)) :
    ¬ (parent = [] ∧ (label = Mets.metadata ∨ label = Mets.submissionDocumentation)) := by
  rintro ⟨hnil, heq⟩
  refine h hnil ?_
  rw [LeftOut, List.head?_cons, Option.some_inj, Option.some_inj]
  rw [hlabel] at heq
  exact heq.imp (fun heq => Subtype.ext heq) fun heq => Subtype.ext heq

theorem path_mem_subDivPaths {divs : List Mets.Div} {names : List Name}
    (h : Documents divs names) {parent : Str} (hparent : parent = [] ∨ Open parent)
    (hkept : parent = [] → ¬ LeftOut names) :
    (names.map Subtype.val).foldl join parent ∈ Mets.subDivPaths parent divs := by
  induction h generalizing parent with
  | @here divs div n hmem htype hlabel =>
      refine mem_subDivPaths hmem htype ?_
      rw [divElToDirPaths_included (not_guarded hlabel hkept), hlabel]
      exact List.mem_cons_self
  | @inside divs div n names hmem htype hlabel hnames ih =>
      refine mem_subDivPaths hmem htype ?_
      rw [divElToDirPaths_included (not_guarded hlabel hkept), hlabel]
      have hopen := open_join_name hparent n
      exact List.mem_cons_of_mem _ (ih (Or.inr hopen) fun hnil => absurd hnil hopen.1)

theorem Documents.ne_nil {divs : List Mets.Div} {names : List Name} (h : Documents divs names) :
    names ≠ [] := by
  cases h <;> simp

theorem filterMap_toName (names : List Name) : (names.map Subtype.val).filterMap toName = names := by
  induction names with
  | nil => rfl
  | cons n names ih =>
      have hn : toName n.1 = some n := dif_pos n.2
      rw [List.map_cons, List.filterMap_cons_some hn, ih]

theorem parts_foldl_join {names : List Name} (hne : names ≠ []) :
    parts ((names.map Subtype.val).foldl join []) = names := by
  have hnames : ∀ name ∈ names.map Subtype.val, PosixPath.Name name := by
    intro name hname
    obtain ⟨n, -, rfl⟩ := List.mem_map.mp hname
    exact n.2
  rw [parts, Mets.splitOn_foldl_join (val_ne_nil hne) hnames, filterMap_toName]

-- The paths that are read are those of the documented directories, if not left out.
theorem exists_path {doc : List Mets.StructMap} {root : Mets.Div} (hroot : normativeRoot doc = some root)
    {names : List Name} (h : Documents root.children names) (hkept : ¬ LeftOut names) :
    ∃ path ∈ Mets.divElToDirPaths [] false root, parts path = names := by
  obtain ⟨sm, -, hfind⟩ := Option.bind_eq_some_iff.mp hroot
  have hlabel : root.label = Mets.objects := by simpa using List.find?_some hfind
  refine ⟨_, ?_, parts_foldl_join h.ne_nil⟩
  obtain ⟨type, label, dmdID, children⟩ := root
  simp only [Mets.Div.label] at hlabel
  rw [Mets.divElToDirPaths, if_neg ?_]
  · simp only [Bool.false_eq_true, if_false, List.nil_append]
    exact path_mem_subDivPaths h (Or.inl rfl) fun _ => hkept
  · rw [hlabel]
    decide

end Paths

section Disk

variable {d d' : Disk Name α}

structure Created (d d' : Disk Name α) (directories : List (List Name)) : Prop where
  made : ∀ p ∈ directories, d'.node p = some .dir
  kept : ∀ q, d.node q ≠ none → d'.node q = d.node q
  frame : ∀ q, (∀ p ∈ directories, ¬ q <+: p) → d'.node q = d.node q

theorem createDirectories_eq_some {directories : List (List Name)}
    (h : createDirectories d directories = some d') : Created d d' directories := by
  induction directories generalizing d with
  | nil =>
      cases h
      exact ⟨by simp, fun _ _ => rfl, fun _ _ => rfl⟩
  | cons p directories ih =>
      rw [createDirectories, List.foldlM_cons] at h
      obtain ⟨e, hstep, hrest⟩ := Option.bind_eq_some_iff.mp h
      -- the directory is there after its turn
      have hfirst : e.node p = some .dir ∧ (∀ q, d.node q ≠ none → e.node q = d.node q) ∧
          ∀ q, ¬ q <+: p → e.node q = d.node q := by
        split_ifs at hstep with hdir
        · cases hstep
          exact ⟨Disk.isdir_iff.mp hdir, fun _ _ => rfl, fun _ _ => rfl⟩
        · obtain ⟨-, hnode, hkept⟩ := Disk.makedirs_eq_some hstep
          exact ⟨by rw [hnode, if_pos List.prefix_rfl], hkept, fun q hq => by rw [hnode, if_neg hq]⟩
      obtain ⟨hmade, hkept, hframe⟩ := hfirst
      have hrest' := ih hrest
      refine ⟨fun q hq => ?_, fun q hq => ?_, fun q hq => ?_⟩
      · rcases List.mem_cons.mp hq with rfl | hq
        · rw [hrest'.kept q (by simp [hmade]), hmade]
        · exact hrest'.made q hq
      · have heq := hkept q hq
        rw [hrest'.kept q (by rwa [heq]), heq]
      · rw [hrest'.frame q fun p' hp' => hq p' (List.mem_cons_of_mem p hp'),
          hframe q (hq p List.mem_cons_self)]

theorem Created.isdir (h : Created d d' directories) {p : List Name} (hp : d.isdir p = true) :
    d'.isdir p = true := by
  rw [Disk.isdir_iff] at hp ⊢
  rw [h.kept p (by simp [hp]), hp]

-- Nothing comes to be under a path that none of the directories goes through.
theorem Created.untouched {directories : List (List Name)} (h : Created d d' directories)
    {q : List Name} (hq : ∀ p ∈ directories, ¬ q <+: p) : Disk.Untouched d d' q := by
  intro r
  exact h.frame _ fun p hp hle => hq p hp ((List.prefix_append q r).trans hle)

theorem created_of_structured (h : createStructuredDirectory false d = some d') :
    Created d d' CreateSIP.requiredDirectories := by
  obtain ⟨e, hrequired, hrest⟩ := Option.bind_eq_some_iff.mp h
  cases hrest
  exact createDirectories_eq_some hrequired

theorem isdir_of_structured {manualNormalization : Bool}
    (h : createStructuredDirectory manualNormalization d = some d') {p : List Name}
    (hp : d.isdir p = true) : d'.isdir p = true := by
  obtain ⟨e, hrequired, hrest⟩ := Option.bind_eq_some_iff.mp h
  have he := (createDirectories_eq_some hrequired).isdir hp
  cases manualNormalization
  · cases hrest
    exact he
  · exact (createDirectories_eq_some hrest).isdir he

-- What the emptying of a directory into another one leaves alone. An entry of the other
-- one that is there is not overwritten.
theorem node_of_emptyInto {src dst q : List Name} (hdst : d.isdir dst = true)
    (hapart : Disk.Apart src dst) (h : emptyInto src dst d = some d') (hsrc : ¬ src <+: q)
    (hfound : ∀ n, dst ++ [n] <+: q → d.node (dst ++ [n]) ≠ none) : d'.node q = d.node q := by
  unfold emptyInto at h
  split_ifs at h with hdir
  · obtain ⟨e, hmoved, hremoved⟩ := Option.bind_eq_some_iff.mp h
    have hall := Disk.movedAll_of_moveAll (Disk.nodup_listdir d src) hdst
      (fun n _ => hapart.concat n) hmoved
    obtain ⟨hne, rfl⟩ := Disk.rmtree_eq_some hremoved
    rw [Disk.node_removed e hne, if_neg hsrc, hall.frame]
    intro n hn
    exact ⟨fun hle => hsrc ((List.prefix_append src [n]).trans hle),
      fun hle => hfound n hle (hall.free n hn)⟩
  · cases h
    rfl

theorem isdir_append_eq_false {p : List Name} (h : d.isdir p = false) (r : List Name) :
    d.isdir (p ++ r) = false := by
  by_contra hdir
  rw [Bool.not_eq_false, Disk.isdir_iff] at hdir
  have hp : d.isdir p = true := by
    by_cases hr : r = []
    · rw [hr, List.append_nil] at hdir
      exact Disk.isdir_iff.mpr hdir
    · exact Disk.isdir_iff.mpr (Disk.node_of_append hr (by simp [hdir]))
  rw [h] at hp
  cases hp

theorem not_isdir_of_emptyInto {src dst : List Name} (h : emptyInto src dst d = some d')
    (r : List Name) : d'.isdir (src ++ r) = false := by
  unfold emptyInto at h
  split_ifs at h with hdir
  · obtain ⟨e, -, hremoved⟩ := Option.bind_eq_some_iff.mp h
    obtain ⟨hne, rfl⟩ := Disk.rmtree_eq_some hremoved
    simp [Disk.isdir, Disk.node_removed e hne]
  · cases h
    exact isdir_append_eq_false (Bool.eq_false_iff.mpr hdir) r

-- The directories of a transfer, with nothing in objects.
structure Ready (d : Disk Name α) : Prop where
  isdir_metadata : d.isdir [metadata] = true
  isdir_subm : d.isdir submDocPath = true
  isdir_objects : d.isdir [objects] = true
  no_objects : ∀ n, d.node [objects, n] = none

-- The objects of the bag that is put aside.
def aside (n : Name) (r : List Name) : List Name := oldBag :: data :: objects :: n :: r

theorem collected {b d₁ d₂ d₃ : Disk Name α} (hdata : b.node [data] = some .dir)
    (hmake : b.makedirs [oldBag] = some d₁)
    (hmove : Disk.moveAll [] [oldBag] d₁ ((d₁.listdir []).filter (· ≠ oldBag)) = some d₂)
    (hcreate : createStructuredDirectory false d₂ = some d₃) :
    Ready d₃ ∧ ∀ n r, d₃.node (aside n r) = b.node (data :: objects :: n :: r) := by
  obtain ⟨-, hnode, -⟩ := Disk.makedirs_eq_some hmake
  have hbag : d₁.isdir [oldBag] = true := by
    rw [Disk.isdir_iff, hnode, if_pos List.prefix_rfl]
  have hone : ∀ n r, n ≠ oldBag → d₁.node (n :: r) = b.node (n :: r) := by
    intro n r hn
    rw [hnode, if_neg (by simp [hn])]
  have hitem : ∀ n, n ∈ (d₁.listdir []).filter (· ≠ oldBag) ↔
      d₁.node [n] ≠ none ∧ n ≠ oldBag := by
    intro n
    rw [List.mem_filter, Disk.mem_listdir]
    simp
  have hall := Disk.movedAll_of_moveAll ((Disk.nodup_listdir d₁ []).filter _) hbag
    (fun n hn => by
      have hne := ((hitem n).mp hn).2
      simp [Disk.Apart, hne, Ne.symm hne]) hmove
  have hcreated := created_of_structured hcreate
  have hmade : ∀ p ∈ CreateSIP.requiredDirectories, d₃.isdir p = true :=
    fun p hp => Disk.isdir_iff.mpr (hcreated.made p hp)
  refine ⟨⟨hmade _ (by decide), hmade _ (by decide), hmade _ (by decide), fun n => ?_⟩,
    fun n r => ?_⟩
  rotate_left
  · have hdata' : data ∈ (d₁.listdir []).filter (· ≠ oldBag) := by
      rw [hitem, hone data [] (by decide), hdata]
      exact ⟨by simp, by decide⟩
    have hhead : ∀ p ∈ CreateSIP.requiredDirectories, p.head? ≠ some oldBag := by decide
    rw [aside, hcreated.frame, ← hone data (objects :: n :: r) (by decide)]
    · exact hall.taken data hdata' (objects :: n :: r)
    · rintro p hp ⟨s, rfl⟩
      exact hhead _ hp rfl
  · have hlength : ∀ p ∈ CreateSIP.requiredDirectories, p.head? = some objects → p.length = 1 := by
      decide
    rw [hcreated.frame]
    · by_cases hmem : objects ∈ (d₁.listdir []).filter (· ≠ oldBag)
      · exact hall.gone objects hmem [n]
      · have hnone : d₁.node [objects] = none := by
          by_contra hfound
          exact hmem ((hitem objects).mpr ⟨hfound, by decide⟩)
        rw [hall.frame]
        · exact Disk.node_append_eq_none hnone [n]
        · intro m hm
          have hne : m ≠ objects := by
            rintro rfl
            exact hmem hm
          simp [hne, show oldBag ≠ objects by decide]
    · rintro p hp ⟨s, rfl⟩
      have hlen := hlength _ hp rfl
      simp at hlen

theorem val_of_toName {s : Str} {n : Name} (h : toName s = some n) : s = n.1 := by
  unfold toName at h
  split_ifs at h
  exact congrArg Subtype.val (Option.some.inj h)

theorem metsGroup_ne_objects {item g : Name} (h : metsGroup item = some g) : g ≠ objects := by
  rintro rfl
  unfold metsGroup at h
  obtain ⟨⟨hlower, -⟩, hname⟩ := Option.ite_none_right_eq_some.mp h
  rw [val_of_toName hname] at hlower
  exact absurd hlower (by decide)

-- The METS file goes into metadata.
theorem ready_of_moveMets (hd : Ready d) (h : moveMets d = some d') :
    Ready d' ∧ ∀ n r, d'.node (aside n r) = d.node (aside n r) := by
  unfold moveMets at h
  split_ifs at h
  obtain ⟨g, hfind, hmove⟩ := Option.bind_eq_some_iff.mp h
  obtain ⟨item, -, hgroup⟩ := List.exists_of_findSome?_eq_some hfind
  have hobjects := metsGroup_ne_objects hgroup
  have hinto : d.move ([oldBag, data] ++ [g]) [metadata] = some d' := hmove
  obtain ⟨hfree, hmoved⟩ := Disk.move_into hd.isdir_metadata (by simp) hinto
  have hnode : ∀ q, ¬ [oldBag, data, g] <+: q → ¬ [metadata, g] <+: q → d'.node q = d.node q :=
    fun q => hmoved.node_of_apart
  have hsubm : g ≠ submissionDocumentation := by
    rintro rfl
    have hsubm := Disk.isdir_iff.mp hd.isdir_subm
    rw [submDocPath] at hsubm
    simp [hsubm] at hfree
  refine ⟨⟨?_, ?_, ?_, fun n => ?_⟩, fun n r => ?_⟩
  · rw [Disk.isdir_congr (hnode _ (by simp) (by simp)), hd.isdir_metadata]
  · rw [Disk.isdir_congr (hnode _ (by simp [submDocPath]) (by simp [submDocPath, hsubm])),
      hd.isdir_subm]
  · rw [Disk.isdir_congr (hnode _ (by simp) (by simp)), hd.isdir_objects]
  · rw [hnode _ (by simp) (by simp), hd.no_objects]
  · exact hnode _ (by simp [aside, hobjects]) (by simp [aside])

-- An entry of the objects goes with all that is in it.
theorem ready_of_emptyInto (hd : Ready d) {k : Name} {dst : List Name}
    (hdst : dst = [metadata] ∨ dst = submDocPath)
    (h : emptyInto [oldBag, data, objects, k] dst d = some d') :
    Ready d' ∧ (∀ n r, n ≠ k → d'.node (aside n r) = d.node (aside n r)) ∧
      ∀ r, d'.isdir (aside k r) = false := by
  have hdir : d.isdir dst = true := by
    rcases hdst with rfl | rfl
    · exact hd.isdir_metadata
    · exact hd.isdir_subm
  have hapart : Disk.Apart [oldBag, data, objects, k] dst := by
    rcases hdst with rfl | rfl <;> simp [Disk.Apart, submDocPath]
  have hnode : ∀ q, ¬ [oldBag, data, objects, k] <+: q →
      (∀ n, dst ++ [n] <+: q → d.node (dst ++ [n]) ≠ none) → d'.node q = d.node q :=
    fun q => node_of_emptyInto hdir hapart h
  refine ⟨⟨?_, ?_, ?_, fun n => ?_⟩, fun n r hn => ?_, not_isdir_of_emptyInto h⟩
  · rw [Disk.isdir_congr (hnode _ (by simp) ?_), hd.isdir_metadata]
    rcases hdst with rfl | rfl <;> simp [submDocPath]
  · rw [Disk.isdir_congr (hnode _ (by simp [submDocPath]) ?_), hd.isdir_subm]
    have hsubm := Disk.isdir_iff.mp hd.isdir_subm
    rw [submDocPath] at hsubm
    rcases hdst with rfl | rfl <;> simp [submDocPath, hsubm]
  · rw [Disk.isdir_congr (hnode _ (by simp) ?_), hd.isdir_objects]
    rcases hdst with rfl | rfl <;> simp [submDocPath]
  · rw [hnode _ (by simp) ?_, hd.no_objects]
    rcases hdst with rfl | rfl <;> simp [submDocPath]
  · refine hnode _ (by simp [aside, Ne.symm hn]) ?_
    rcases hdst with rfl | rfl <;> simp [submDocPath, aside]

-- Into objects goes what is left of the objects of the bag.
theorem node_of_moveEntries (hd : Ready d)
    (h : moveEntries [oldBag, data, objects] [objects] d = some d') :
    d'.isdir [metadata] = true ∧ ∀ n r, d'.node (objects :: n :: r) = d.node (aside n r) := by
  unfold moveEntries at h
  split_ifs at h
  have hapart : ∀ n, Disk.Apart ([oldBag, data, objects] ++ [n]) [objects] := by simp [Disk.Apart]
  have hall := Disk.movedAll_of_moveAll (Disk.nodup_listdir d _) hd.isdir_objects
    (fun n _ => hapart n) h
  refine ⟨?_, fun n r => hall.node_listdir (fun n _ => hapart n) (hd.no_objects n) r⟩
  rw [Disk.isdir_congr (hall.frame _ fun n _ => by simp), hd.isdir_metadata]

-- What is moved or removed after that is not in objects.
theorem node_of_dismissed {d₁ d₂ : Disk Name α}
    (hprocessing : moveProcessingMCP d = some d₁)
    (hremove : d₁.rmtree [oldBag] = some d₂) {n : Name} (hn : n ≠ oldBag) (hn' : n ≠ processingMCP)
    (r : List Name) : d₂.node (n :: r) = d.node (n :: r) := by
  obtain ⟨hne, rfl⟩ := Disk.rmtree_eq_some hremove
  rw [Disk.node_removed d₁ hne, if_neg (by simp [Ne.symm hn])]
  unfold moveProcessingMCP at hprocessing
  split_ifs at hprocessing
  · exact Disk.untouched_of_move (p := [n]) (by simp) (by simp) rfl hprocessing
      (by simp [Disk.Apart, hn, Ne.symm hn]) (by simp [Disk.Apart, hn', Ne.symm hn']) r
  · cases hprocessing
    rfl

-- After the transfer route the objects of the bag are in objects, but for two of them, and
-- there is no other directory.
theorem isdir_restructureTransferAip {parse : α → Option (List Mets.StructMap)}
    {b : Disk Name α} (hdata : b.node [data] = some .dir)
    (h : restructureTransferAip parse b = some d) (n : Name) (r : List Name) :
    d.isdir (objects :: n :: r) = true ↔ ¬ LeftOut (n :: r) ∧
      b.isdir (data :: objects :: n :: r) = true := by
  obtain ⟨d₁, hmake, h⟩ := Option.bind_eq_some_iff.mp h
  obtain ⟨d₂, hmove, h⟩ := Option.bind_eq_some_iff.mp h
  obtain ⟨d₃, hcreate, h⟩ := Option.bind_eq_some_iff.mp h
  obtain ⟨d₄, hmets, h⟩ := Option.bind_eq_some_iff.mp h
  obtain ⟨d₅, hmetadata, h⟩ := Option.bind_eq_some_iff.mp h
  obtain ⟨d₆, hsubm, h⟩ := Option.bind_eq_some_iff.mp h
  obtain ⟨d₇, hobjects, h⟩ := Option.bind_eq_some_iff.mp h
  obtain ⟨d₈, hprocessing, h⟩ := Option.bind_eq_some_iff.mp h
  obtain ⟨d₉, hremove, hreconstruct⟩ := Option.bind_eq_some_iff.mp h
  obtain ⟨hready₃, hnode₃⟩ := collected hdata hmake hmove hcreate
  obtain ⟨hready₄, hnode₄⟩ := ready_of_moveMets hready₃ hmets
  obtain ⟨hready₅, hnode₅, hgone₅⟩ := ready_of_emptyInto hready₄ (Or.inl rfl) hmetadata
  obtain ⟨hready₆, hnode₆, hgone₆⟩ := ready_of_emptyInto hready₅ (Or.inr rfl) hsubm
  obtain ⟨hdir₇, hnode₇⟩ := node_of_moveEntries hready₆ hobjects
  have hnode₉ : ∀ m s, m ≠ oldBag → m ≠ processingMCP → d₉.node (m :: s) = d₇.node (m :: s) :=
    fun m s hm hm' => node_of_dismissed hprocessing hremove hm hm' s
  -- the path of the METS file leads to a directory
  have hread : d₉.node [metadata] = some .dir := by
    rw [hnode₉ metadata [] (by decide) (by decide), Disk.isdir_iff.mp hdir₇]
  obtain rfl : d₉ = d := by simpa [reconstructEmptyDirectories, hread] using hreconstruct
  have hdir : d₉.isdir (objects :: n :: r) = d₆.isdir (aside n r) := by
    rw [Disk.isdir, hnode₉ objects (n :: r) (by decide) (by decide), hnode₇, Disk.isdir]
  rw [hdir, LeftOut, List.head?_cons, Option.some_inj, Option.some_inj]
  by_cases hmeta : n = metadata
  · rw [hmeta, Disk.isdir, hnode₆ _ _ (by decide), ← Disk.isdir, hgone₅]
    simp
  · by_cases hdoc : n = submissionDocumentation
    · rw [hdoc, hgone₆]
      simp
    · have hsame : d₆.node (aside n r) = b.node (data :: objects :: n :: r) := by
        rw [hnode₆ n r hdoc, hnode₅ n r hmeta, hnode₄, hnode₃]
      rw [Disk.isdir, hsame, ← Disk.isdir]
      simp [hmeta, hdoc]

-- A move out of a directory of the top level: a directory of the name takes it in.
theorem moved_up {a n : Name} (h : d.move [a, n] [n] = some d') :
    ∃ p, Disk.Moved d d' [a, n] p ∧
      (d.isdir [n] = false ∧ p = [n] ∨ d.isdir [n] = true ∧ p = [n, n]) := by
  rcases Disk.move_eq_some (by simp) (by simp) (Or.inr rfl) h with
    ⟨hdir, hmoved⟩ | ⟨hdir, -, hmoved⟩
  · exact ⟨[n], hmoved, Or.inl ⟨hdir, rfl⟩⟩
  · exact ⟨[n, n], hmoved, Or.inr ⟨hdir, rfl⟩⟩

theorem node_of_other {a n m : Name} (h : d.move [a, n] [n] = some d') (hm : m ≠ n) :
    d'.node [m] = d.node [m] := by
  obtain ⟨p, hmoved, ⟨-, rfl⟩ | ⟨-, rfl⟩⟩ := moved_up h
  · exact hmoved.node_of_apart (by simp) (by simp [Ne.symm hm])
  · exact hmoved.node_of_apart (by simp) (by simp)

theorem node_of_same {n : Name} (h : d.move [data, n] [n] = some d') :
    d'.node [n] = if d.isdir [n] then some .dir else d.node [data, n] := by
  obtain ⟨p, hmoved, ⟨hdir, rfl⟩ | ⟨hdir, rfl⟩⟩ := moved_up h
  · rw [hdir, if_neg Bool.false_ne_true]
    exact hmoved.node_dst []
  · rw [hdir, if_pos rfl, hmoved.node_of_apart (by simp) (by simp), Disk.isdir_iff.mp hdir]

theorem ne_data_of_move {n : Name} (h : d.move [data, n] [n] = some d') : n ≠ data := by
  rintro rfl
  obtain ⟨p, hmoved, ⟨hdir, rfl⟩ | ⟨-, rfl⟩⟩ := moved_up h
  · have hparent : d.node [data] = some .dir := Disk.node_parent (n := data) hmoved.src_found
    rw [Disk.isdir_iff.mpr hparent] at hdir
    cases hdir
  · exact hmoved.apart List.prefix_rfl

theorem node_of_waiting {n m : Name} (h : d.move [data, n] [n] = some d') (hm : m ≠ n) :
    d'.node [data, m] = d.node [data, m] := by
  have hdata := ne_data_of_move h
  obtain ⟨p, hmoved, ⟨-, rfl⟩ | ⟨-, rfl⟩⟩ := moved_up h
  · exact hmoved.node_of_apart (by simp [Ne.symm hm]) (by simp [hdata])
  · exact hmoved.node_of_apart (by simp [Ne.symm hm]) (by simp [hdata])

-- A name of the payload comes to the top level unless it is that of a directory there.
theorem node_of_payload {items : List Name} (hnodup : items.Nodup)
    (h : items.foldlM (fun d item => d.move [data, item] [item]) d = some d') (m : Name) :
    (m ∈ items → d.isdir [m] = false → d'.node [m] = d.node [data, m]) ∧
      ((m ∈ items → d.isdir [m] = true) → d'.node [m] = d.node [m]) := by
  induction items generalizing d with
  | nil =>
      cases h
      simp
  | cons n items ih =>
      obtain ⟨hn, hitems⟩ := List.nodup_cons.mp hnodup
      rw [List.foldlM_cons] at h
      obtain ⟨e, hmove, hrest⟩ := Option.bind_eq_some_iff.mp h
      obtain ⟨htaken, hkept⟩ := ih hitems hrest
      by_cases hm : m = n
      · subst hm
        have hnode := node_of_same hmove
        rw [hkept fun hmem => absurd hmem hn, hnode]
        refine ⟨fun _ hdir => by simp [hdir], fun hdir => ?_⟩
        have hdir := hdir List.mem_cons_self
        rw [if_pos hdir, Disk.isdir_iff.mp hdir]
      · have hsame := node_of_other hmove hm
        rw [Disk.isdir_congr hsame, node_of_waiting hmove hm] at htaken
        rw [Disk.isdir_congr hsame, hsame] at hkept
        simpa [hm] using ⟨htaken, hkept⟩

theorem node_of_moveData (h : moveData d = some d') (m : Name) :
    (d.node [data, m] ≠ none → d.isdir [m] = false → d'.node [m] = d.node [data, m]) ∧
      ((d.node [data, m] ≠ none → d.isdir [m] = true) → d'.node [m] = d.node [m]) := by
  unfold moveData at h
  split_ifs at h
  have hnode := node_of_payload (Disk.nodup_listdir d _) h m
  rwa [Disk.mem_listdir] at hnode

-- Where the move fails nothing is changed.
theorem node_of_getD {k m : Name} (hm : m ≠ k) :
    ((d.move [objects, k] [k]).getD d).node [m] = d.node [m] := by
  cases h : d.move [objects, k] [k] with
  | none => rfl
  | some e => exact node_of_other h hm

theorem isMets_ne {n : Name} (h : isMets n = true) :
    n ≠ data ∧ n ≠ metadata ∧ n ≠ logs ∧ n ≠ objects := by
  refine ⟨?_, ?_, ?_, ?_⟩ <;> rintro rfl <;> exact absurd h (by decide)

theorem ne_of_not_left {n : Name}
    (h : ¬ (isOptional n || CreateSIP.requiredDirectories.any (· = [n])) = true) :
    n ≠ metadata ∧ n ≠ objects := by
  constructor <;> rintro rfl <;> exact h (by decide)

theorem not_isMets_of_left {n : Name}
    (h : (isOptional n || CreateSIP.requiredDirectories.any (· = [n])) = true) :
    isMets n = false := by
  rcases Bool.or_eq_true_iff.mp h with hoptional | hrequired
  · rw [isOptional, Bool.or_eq_true, decide_eq_true_eq, decide_eq_true_eq] at hoptional
    rcases hoptional with hn | hn <;> rw [isMets, hn] <;> decide
  · rw [List.any_eq_true] at hrequired
    obtain ⟨p, hp, heq⟩ := hrequired
    have hall : ∀ p ∈ CreateSIP.requiredDirectories, ∀ m ∈ p.head?, isMets m = false := by decide
    rw [decide_eq_true_eq] at heq
    exact hall p hp n (by simp [heq])

-- The METS file on its way to the submission documentation, with the items that are still
-- to do.
structure Sorting (mets : Name) (content : α) (rest : List Name)
    (s : Disk Name α × Option (List Name)) : Prop where
  node_objects : s.1.node [objects] = some .dir
  node_subm : s.1.node submDocPath = some .dir
  only_mets : ∀ n ∈ rest, isMets n = true → n = mets
  waiting : mets ∈ rest →
    s.1.node [mets] = some (.file content) ∧ s.1.node (submDocPath ++ [mets]) = none
  arrived : mets ∉ rest →
    s.1.node (submDocPath ++ [mets]) = some (.file content) ∧ s.2 = some (submDocPath ++ [mets])

theorem Sorting.step {mets n : Name} {content : α} {rest : List Name}
    {s s' : Disk Name α × Option (List Name)} (hmets : isMets mets = true)
    (h : Sorting mets content (n :: rest) s) (hn : n ∉ rest) (hstep : moveUnexpected s n = some s') :
    Sorting mets content rest s' := by
  have honly : ∀ m ∈ rest, isMets m = true → m = mets :=
    fun m hm => h.only_mets m (List.mem_cons_of_mem n hm)
  unfold moveUnexpected at hstep
  by_cases hleave : (isOptional n || CreateSIP.requiredDirectories.any (· = [n])) = true
  · rw [if_pos hleave] at hstep
    cases hstep
    have hne : mets ≠ n := by
      rintro rfl
      rw [not_isMets_of_left hleave] at hmets
      cases hmets
    exact ⟨h.node_objects, h.node_subm, honly, fun hm => h.waiting (List.mem_cons_of_mem n hm),
      fun hm => h.arrived (by simp [hne, hm])⟩
  · rw [if_neg hleave] at hstep
    obtain ⟨e, hmove, rfl⟩ := Option.map_eq_some_iff.mp hstep
    obtain ⟨hmeta, hobjects⟩ := ne_of_not_left hleave
    have hparent : s.1.node (submDocPath ++ [n]).dropLast = some .dir := by
      rw [List.dropLast_concat, h.node_subm]
    have hplaces := Disk.move_eq_some (by simp [submDocPath]) (by simp) (Or.inr hparent) hmove
    have hframe : ∀ q, ¬ [n] <+: q → ¬ submDocPath ++ [n] <+: q → e.node q = s.1.node q := by
      intro q hsrc hdst
      rcases hplaces with ⟨-, hmoved⟩ | ⟨-, -, hmoved⟩
      · exact hmoved.node_of_apart hsrc hdst
      · exact hmoved.node_of_apart hsrc fun hle => hdst ((List.prefix_append _ _).trans hle)
    refine ⟨?_, ?_, honly, fun hm => ?_, fun hm => ?_⟩
    · rw [hframe _ (by simp [hobjects]) (by simp [submDocPath]), h.node_objects]
    · rw [hframe _ (by simp [submDocPath, hmeta]) (by simp [submDocPath]), h.node_subm]
    · have hne : n ≠ mets := by
        rintro rfl
        exact hn hm
      obtain ⟨hnode, hfree⟩ := h.waiting (List.mem_cons_of_mem n hm)
      rw [hframe _ (by simp [hne]) (by simp [submDocPath]),
        hframe _ (by simp [submDocPath, hmeta]) (by simp [submDocPath, hne])]
      exact ⟨hnode, hfree⟩
    · by_cases hne : n = mets
      · subst hne
        obtain ⟨hnode, hfree⟩ := h.waiting List.mem_cons_self
        rcases hplaces with ⟨-, hmoved⟩ | ⟨hdir, -, -⟩
        · refine ⟨?_, by simp [hmets]⟩
          simpa [hnode] using hmoved.node_dst []
        · rw [Disk.isdir_iff, hfree] at hdir
          cases hdir
      · obtain ⟨hnode, hpath⟩ := h.arrived (by simp [Ne.symm hne, hm])
        have hother : isMets n = false := by
          by_contra hmets
          exact hne (h.only_mets n List.mem_cons_self (Bool.not_eq_false _ ▸ hmets))
        rw [hframe _ (by simp [submDocPath, hmeta]) (by simp [submDocPath, hne])]
        exact ⟨hnode, by simpa [hother] using hpath⟩

theorem Sorting.run {mets : Name} {content : α} {rest : List Name}
    {s s' : Disk Name α × Option (List Name)} (hmets : isMets mets = true)
    (h : Sorting mets content rest s) (hnodup : rest.Nodup)
    (hrun : rest.foldlM moveUnexpected s = some s') : Sorting mets content [] s' := by
  induction rest generalizing s with
  | nil =>
      cases hrun
      exact h
  | cons n rest ih =>
      obtain ⟨hn, hrest⟩ := List.nodup_cons.mp hnodup
      rw [List.foldlM_cons] at hrun
      obtain ⟨next, hstep, htail⟩ := Option.bind_eq_some_iff.mp hrun
      exact ih (h.step hmets hn hstep) hrest htail

-- The METS file and objects are at the top once the payload is, and no other METS file.
theorem sorting_of_moved {parse : α → Option (List Mets.StructMap)} (bag : AipBag parse)
    {d₁ d₂ d₃ : Disk Name α} (hpayload : moveData bag.disk = some d₁)
    (hdata : d₁.rmdir [data] = some d₂)
    (hsubm : Disk.makedirs ((((d₂.move [objects, metadata] [metadata]).getD d₂).move [objects, logs]
      [logs]).getD ((d₂.move [objects, metadata] [metadata]).getD d₂)) submDocPath = some d₃) :
    Sorting bag.mets bag.content (d₃.listdir []) (d₃, none) := by
  obtain ⟨hnone, hmade, -⟩ := Disk.makedirs_eq_some hsubm
  obtain ⟨hne, rfl⟩ := Disk.rmdir_eq_some hdata
  -- a name that is none of the directories that are handled one by one
  have hnode : ∀ n, n ≠ data → n ≠ metadata → n ≠ logs → d₃.node [n] = d₁.node [n] := by
    intro n hdata hmeta hlogs
    rw [hmade, if_neg (by simp [submDocPath, hmeta]), node_of_getD hlogs, node_of_getD hmeta,
      Disk.node_removed d₁ hne, if_neg (by simp [Ne.symm hdata])]
  have htop : ∀ n, isMets n = true → n ≠ bag.mets → d₃.node [n] = none := by
    intro n hn hother
    obtain ⟨hdata, hmeta, hlogs, -⟩ := isMets_ne hn
    have hpayloadNone : bag.disk.node [data, n] = none := by
      by_contra hfound
      exact hother (bag.only_mets n hn (Disk.found_iff.mpr hfound))
    rw [hnode n hdata hmeta hlogs, (node_of_moveData hpayload n).2 fun hfound =>
      absurd hpayloadNone hfound, Disk.not_found_iff.mp (bag.no_mets n hn)]
  obtain ⟨hdata', hmeta, hlogs, -⟩ := isMets_ne bag.mets_name
  have hmets : d₃.node [bag.mets] = some (.file bag.content) := by
    have htopNone := Disk.not_found_iff.mp (bag.no_mets _ bag.mets_name)
    rw [hnode _ hdata' hmeta hlogs, (node_of_moveData hpayload _).1 (by simp [bag.node_mets])
      (by simp [Disk.isdir, htopNone]), bag.node_mets]
  have hobjects : d₁.node [objects] = some .dir := by
    by_cases hdir : bag.disk.isdir [objects] = true
    · rw [(node_of_moveData hpayload objects).2 fun _ => hdir, Disk.isdir_iff.mp hdir]
    · rw [(node_of_moveData hpayload objects).1 (by simp [bag.node_objects])
        (Bool.eq_false_iff.mpr hdir), bag.node_objects]
  have hlisted : bag.mets ∈ d₃.listdir [] := Disk.mem_listdir.mpr (by simp [hmets])
  refine ⟨?_, ?_, fun n hn hisMets => ?_, fun _ => ⟨hmets, ?_⟩, fun hn => absurd hlisted hn⟩
  · exact (hnode objects (by decide) (by decide) (by decide)).trans hobjects
  · exact (hmade _).trans (if_pos List.prefix_rfl)
  · by_contra hother
    exact Disk.mem_listdir.mp hn (htop n hisMets hother)
  · rw [hmade, if_neg (Disk.not_concat_le _ _), Disk.node_append_eq_none hnone]

-- The SIP route brings every documented directory back that is not left out.
theorem isdir_restructureBagAipToSip {parse : α → Option (List Mets.StructMap)}
    (bag : AipBag parse) (h : restructureBagAipToSip parse bag.disk = some d) {names : List Name}
    (hnames : Documents bag.root.children names) (hkept : ¬ LeftOut names) :
    d.isdir (objects :: names) = true := by
  obtain ⟨d₁, hpayload, h⟩ := Option.bind_eq_some_iff.mp h
  obtain ⟨d₂, hdata, h⟩ := Option.bind_eq_some_iff.mp h
  obtain ⟨d₃, hsubm, h⟩ := Option.bind_eq_some_iff.mp h
  obtain ⟨⟨d₄, path⟩, hsort, h⟩ := Option.bind_eq_some_iff.mp h
  obtain ⟨d₅, hreconstruct, hcreate⟩ := Option.bind_eq_some_iff.mp h
  have hsorted := (sorting_of_moved bag hpayload hdata hsubm).run bag.mets_name
    (Disk.nodup_listdir d₃ []) hsort
  obtain ⟨hnode, rfl⟩ := hsorted.arrived List.not_mem_nil
  simp only [reconstructFound, reconstructEmptyDirectories, hnode,
    Disk.isdir_iff.mpr hsorted.node_objects, if_true, bag.parse_content, bag.normative,
    Option.bind_some] at hreconstruct
  obtain ⟨p, hp, rfl⟩ := exists_path bag.normative hnames hkept
  have hmade := (createDirectories_eq_some hreconstruct).made _ (List.mem_map_of_mem hp)
  exact isdir_of_structured hcreate (Disk.isdir_iff.mpr hmade)

end Disk

-- On the SIP route every documented directory that is not left out is there again. On the
-- transfer route, which reads a directory for the METS file, it is where the bag has it.
theorem documented_iff {parse : α → Option (List Mets.StructMap)} (bag : AipBag parse)
    (names : { names // Documents bag.root.children names }) :
    (∀ d, restructureTransferAip parse bag.disk = some d →
      (d.isdir (objects :: names.1) = true ↔
        ¬ LeftOut names.1 ∧ bag.disk.isdir (data :: objects :: names.1) = true)) ∧
    ∀ d, restructureBagAipToSip parse bag.disk = some d → ¬ LeftOut names.1 →
      d.isdir (objects :: names.1) = true := by
  obtain ⟨names, hnames⟩ := names
  refine ⟨fun d htransfer => ?_, fun d hsip hkept => ?_⟩
  · obtain ⟨n, r, rfl⟩ := List.exists_cons_of_ne_nil hnames.ne_nil
    exact isdir_restructureTransferAip (Disk.node_parent (n := objects) (by simp [bag.node_objects]))
      htransfer n r
  · exact isdir_restructureBagAipToSip bag hsip hnames hkept

namespace EmptyDirectory

-- A METS file that documents an empty directory, which the payload of a bag has not.

def a : Name := ⟨"a".toList, by decide⟩

def mets : Name := ⟨"METS.u.xml".toList, by decide⟩

def root : Mets.Div := .mk .directory Mets.objects none [.mk .directory a.1 none []]

def doc : List Mets.StructMap :=
  [⟨"logical".toList, Mets.normativeLabel, [.mk .directory "u".toList none [root]]⟩]

def disk : Disk Name Unit where
  entries := [([data], .dir), ([data, mets], .file ()), ([data, objects], .dir)]
  nodup := by decide
  closed := by decide

def parse : Unit → Option (List Mets.StructMap) := fun _ => some doc

theorem mem_of_found {p : List Name} (hp : p ≠ []) (h : disk.found p = true) :
    p = [data] ∨ p = [data, mets] ∨ p = [data, objects] := by
  obtain ⟨x, hx⟩ := Option.ne_none_iff_exists'.mp (Disk.found_iff.mp h)
  have hmem := (Disk.node_eq_some_iff hp).mp hx
  simp only [disk, List.mem_cons, List.not_mem_nil, or_false, Prod.mk.injEq] at hmem
  rcases hmem with ⟨heq, -⟩ | ⟨heq, -⟩ | ⟨heq, -⟩
  · exact Or.inl heq
  · exact Or.inr (Or.inl heq)
  · exact Or.inr (Or.inr heq)

def bag : AipBag parse where
  disk := disk
  mets := mets
  content := ()
  doc := doc
  root := root
  mets_name := by decide
  node_mets := by decide
  only_mets := by
    intro n hn hfound
    rcases mem_of_found (by simp) hfound with heq | heq | heq
    · simp at heq
    · simpa using heq
    · obtain rfl : n = objects := by simpa using heq
      exact absurd hn (by decide)
  no_mets := by
    intro n hn
    by_contra hfound
    rw [Bool.not_eq_false] at hfound
    rcases mem_of_found (by simp) hfound with heq | heq | heq
    · obtain rfl : n = data := by simpa using heq
      exact absurd hn (by decide)
    · simp at heq
    · simp at heq
  node_objects := by decide
  parse_content := rfl
  normative := rfl

theorem lost : Documents bag.root.children [a] ∧ ¬ LeftOut [a] ∧
    (∃ d, restructureTransferAip parse bag.disk = some d ∧ d.isdir [objects, a] = false) ∧
      ∃ d, restructureBagAipToSip parse bag.disk = some d ∧ d.isdir [objects, a] = true := by
  have htransfer : (restructureTransferAip parse disk).map (·.isdir [objects, a]) = some false := by
    decide +kernel
  have hsip : (restructureBagAipToSip parse disk).map (·.isdir [objects, a]) = some true := by
    decide +kernel
  refine ⟨.here List.mem_cons_self rfl rfl, ?_, ?_, ?_⟩
  · rw [LeftOut]
    decide
  · exact Option.map_eq_some_iff.mp htransfer
  · exact Option.map_eq_some_iff.mp hsip

end EmptyDirectory

end Ccp.Worker.Reingest.Restructure
