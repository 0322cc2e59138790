import Ccp.Lib.Forest
import Ccp.Lib.MapM
import Ccp.Lib.PosixPath
import Ccp.Lib.Table
import Ccp.Lib.Text
import Ccp.Uuid

namespace Ccp.Worker.Reingest.NewFiles

open Lib Lib.Forest

def sipDirectory : Str := "%SIPDirectory%".toList

def directory : Str := "Directory".toList

-- The arguments of metsrw's FSEntry that are looked at.
structure FSEntry where
  type : Str
  label : Option Str
  path : Option Str
  use : Option Str
  fileUUID : Option Str
  derivedFrom : Option ℕ

-- A document as the forest of its entries.
structure Document where
  entries : Forest FSEntry
  grounded : Grounded entries

-- A row of the files of the SIP, with the sources of the derivations that made it.
structure File where
  uuid : UUID
  sip : UUID
  currentlocation : Str
  filegrpuse : Str
  sources : List UUID

-- A file that os.walk finds in the directory of the objects, by its directories and its name.
structure WalkedFile where
  dirs : List Str
  name : Str
  proper : ∀ c ∈ dirs ++ [name], PosixPath.Name c

-- The directory of the SIP ends with a separator.
structure Job where
  sipUUID : UUID
  sipDir : Str
  sipDir_slash : sipDir.getLast? = some '/'
  walk : List WalkedFile
  walk_nodup : (walk.map fun w => w.dirs ++ [w.name]).Nodup

def Job.fullPath (job : Job) (w : WalkedFile) : Str :=
  (w.dirs ++ [w.name]).foldl PosixPath.join (PosixPath.join job.sipDir "objects".toList)

def Job.currentLoc (job : Job) (w : WalkedFile) : Str :=
  replaceFirst job.sipDir sipDirectory (job.fullPath w)

def Job.relPath (job : Job) (w : WalkedFile) : Str :=
  replaceFirst sipDirectory [] (job.currentLoc w)

def getOldMetsRelPath (sipUUID : UUID) : Str :=
  PosixPath.join (PosixPath.join "objects".toList "submissionDocumentation".toList)
    ("METS.".toList ++ sipUUID.string ++ ".xml".toList)

def FSEntry.isDirectory (label : Str) (e : FSEntry) : Bool := e.type = directory && e.label = some label

-- The label of a directory.
def FSEntry.directoryLabel (e : FSEntry) : Option Str := if e.type = directory then e.label else none

-- The parts of the path of the directory, from the one of the objects on.
def File.dirs (f : File) : List Str :=
  ((PosixPath.dirname (replaceFirst (sipDirectory ++ "objects/".toList) [] f.currentlocation)).splitOn
    '/').filter (· ≠ [])

def File.path (f : File) : Str := replaceFirst sipDirectory [] f.currentlocation

def newDirectory (label : Str) : FSEntry := ⟨directory, some label, none, none, none, none⟩

def newItem (f : File) (derivedFrom : Option ℕ) : FSEntry :=
  ⟨"Item".toList, none, some f.path, some f.filegrpuse, some f.uuid.string, derivedFrom⟩

section Script

variable (order : Listing FSEntry)

-- get_file, by a path, by a UUID, and by a label of a directory

def getFileByPath (path : Str) (t : Forest FSEntry) : Option ℕ :=
  order.find (fun e => e.path = some path) t

def getFileByUUID (uuid : UUID) (t : Forest FSEntry) : Option ℕ :=
  order.find (fun e => e.fileUUID = some uuid.string) t

def getDirectory (label : Str) (t : Forest FSEntry) : Option ℕ := order.find (·.isDirectory label) t

-- Neither in the document nor the document of the earlier ingest.
def Job.isNew (job : Job) (t : Forest FSEntry) (w : WalkedFile) : Bool :=
  (getFileByPath order (job.relPath w) t).isNone && job.relPath w ≠ getOldMetsRelPath job.sipUUID

def Job.rows (job : Job) (files : List File) (w : WalkedFile) : List File :=
  files.filter fun f => f.currentlocation = job.currentLoc w && f.sip = job.sipUUID

def Job.row (job : Job) (files : List File) (w : WalkedFile) : Option File :=
  match Table.get (job.rows files w) with
  | .row f => some f
  | _ => none

def Job.newFiles (job : Job) (t : Forest FSEntry) (files : List File) : Option (List File) :=
  (job.walk.filter (job.isNew order t)).mapM (job.row files)

-- One turn of the loop over the parts: the first directory with that label, or a new one in
-- the parent. Without an entry for the objects, add_child is called on None.
def enter (at? : Forest FSEntry × Option ℕ) (dirname : Str) : Option (Forest FSEntry × Option ℕ) :=
  match getDirectory order dirname at?.1 with
  | some child => some (at?.1, some child)
  | none =>
      at?.2.map fun parent =>
        (at?.1 ++ [⟨newDirectory dirname, some parent⟩], some at?.1.length)

def derivedFrom (f : File) (t : Forest FSEntry) : Option (Option ℕ) :=
  match Table.get f.sources with
  | .missing => some none
  | .row source => some (getFileByUUID order source t)
  | .several => none

def addFile (objects : Option ℕ) (t : Forest FSEntry) (f : File) : Option (Forest FSEntry) :=
  (f.dirs.foldlM (enter order) (t, objects)).bind fun at? =>
    (derivedFrom order f at?.1).bind fun derivedFrom =>
      at?.2.map fun parent => at?.1 ++ [⟨newItem f derivedFrom, some parent⟩]

def addNewFiles (job : Job) (files : List File) (t : Forest FSEntry) : Option (Forest FSEntry) :=
  (job.newFiles order t files).bind fun news =>
    news.foldlM (addFile order (getDirectory order "objects".toList t)) t

end Script

-- What the function has to do.

section Contract

variable (order : Listing FSEntry) (job : Job) (files : List File) (doc : Document)

def Job.news : List WalkedFile := job.walk.filter (job.isNew order doc.entries)

-- The directory of the objects in that of the AIP.
def Document.Objects (i : ℕ) : Prop :=
  ∃ m root aip, doc.entries[i]? = some m ∧ m.value.directoryLabel = some "objects".toList ∧
    m.parent = some root ∧ doc.entries[root]? = some aip ∧ aip.parent = none ∧ aip.value.type = directory

-- The path of an entry, from the objects on.
def At (t : Forest FSEntry) (dirs : List Str) (i : ℕ) : Prop :=
  ∃ objects, doc.Objects objects ∧ Chain t FSEntry.directoryLabel objects dirs i

-- The one entry of a file, in the directory that its path leads to from the objects on.
structure Placed (after : Forest FSEntry) (w : WalkedFile) : Prop where
  entry : ∃ f derivedFrom p q, job.row files w = some f ∧
    after[p]? = some ⟨newItem f derivedFrom, some q⟩ ∧
    (∀ (p' : ℕ) (n : Vertex FSEntry), after[p']? = some n → n.value.path = some (job.relPath w) → p' = p) ∧
    At doc after w.dirs q

structure Contract : Prop where
  added : ∃ after, addNewFiles order job files doc.entries = some after ∧ doc.entries <+: after ∧
    (∀ w ∈ job.news order doc, Placed job files doc after w) ∧
    -- no second directory for a path
    ∀ dirs p p', At doc after dirs p → At doc after dirs p' → doc.entries.length ≤ p → p = p'

-- A label that a directory of the document has, or a part of the path of an earlier new file or
-- an earlier part of this one.
def Known (before : List (List Str)) (dirs : List Str) (label : Str) : Prop :=
  getDirectory order label doc.entries ≠ none ∨ label ∈ before.flatten ∨ label ∈ dirs

-- The path of the first directory with the label: in the document, or else among the new ones.
structure FirstAt (before : List (List Str)) (label : Str) (dirs : List Str) : Prop where
  old : ∀ i, getDirectory order label doc.entries = some i → At doc doc.entries dirs i
  new : getDirectory order label doc.entries = none →
    (before.flatMap List.inits).find? (fun dirs => dirs.getLast? = some label) = some dirs

-- The last part of the path with a label that is known, or else the objects that are found.
structure LastKnown (objects : ℕ) (before : List (List Str)) (dirs : List Str) : Prop where
  known : ∀ front label, front ++ [label] <+: dirs → Known order doc before front label →
    (∀ front' label', front' ++ [label'] <+: dirs → front.length < front'.length →
      ¬ Known order doc before front' label') →
    FirstAt order doc before label (front ++ [label])
  none : (∀ front label, front ++ [label] <+: dirs → ¬ Known order doc before front label) →
    doc.Objects objects

structure Clear : Prop where
  row : ∀ w ∈ job.news order doc, ∃ f, job.rows files w = [f] ∧ f.sources.length ≤ 1
  objects : job.news order doc ≠ [] →
    ∃ objects, getDirectory order "objects".toList doc.entries = some objects ∧
      ∀ before w rest, job.news order doc = before ++ w :: rest →
        LastKnown order doc objects (before.map WalkedFile.dirs) w.dirs

end Contract

section Proofs

variable {order : Listing FSEntry} {t t' t'' : Forest FSEntry} {c : Str} {i : ℕ}

theorem isDirectory_iff {e : FSEntry} : e.isDirectory c = true ↔ e.directoryLabel = some c := by
  rw [FSEntry.isDirectory, FSEntry.directoryLabel]
  by_cases h : e.type = directory
  · simp [h]
  · simp [h]

theorem getDirectory_eq_some (h : getDirectory order c t = some i) :
    ∃ n, t[i]? = some n ∧ n.value.directoryLabel = some c := by
  obtain ⟨n, hn, hdir⟩ := Listing.find_eq_some h
  exact ⟨n, hn, isDirectory_iff.mp hdir⟩

theorem lt_of_getDirectory (h : getDirectory order c t = some i) : i < t.length := by
  obtain ⟨n, hn, -⟩ := getDirectory_eq_some h
  exact (List.getElem?_eq_some_iff.mp hn).1

theorem getDirectory_eq_none_iff (hg : Grounded t) :
    getDirectory order c t = none ↔ ∀ (i : ℕ) n, t[i]? = some n → n.value.directoryLabel ≠ some c := by
  rw [getDirectory, Listing.find_eq_none_iff hg]
  constructor
  · intro h i n hn hlabel
    have hfalse := h n (List.mem_of_getElem? hn)
    rw [isDirectory_iff.mpr hlabel] at hfalse
    cases hfalse
  · intro h n hn
    obtain ⟨i, hi⟩ := List.mem_iff_getElem?.mp hn
    rw [Bool.eq_false_iff]
    exact fun hdir => h i n hi (isDirectory_iff.mp hdir)

-- What the function does to a document: every directory that it adds is the only one with its
-- label, so what is found for a label stays what is found.
structure Grows (order : Listing FSEntry) (t t' : Forest FSEntry) : Prop where
  prefixed : t <+: t'
  grounded : Grounded t'
  kept : ∀ c i, getDirectory order c t = some i → getDirectory order c t' = some i
  fresh : ∀ (i j : ℕ) n m c, t.length ≤ i → t'[i]? = some n → n.value.directoryLabel = some c →
    t'[j]? = some m → m.value.directoryLabel = some c → i = j

theorem Grows.refl (hg : Grounded t) : Grows order t t := by
  refine ⟨List.prefix_rfl, hg, fun _ _ h => h, fun i j n m c hi hn => ?_⟩
  have := (List.getElem?_eq_some_iff.mp hn).1
  omega

theorem Grows.trans (h : Grows order t t') (h' : Grows order t' t'') : Grows order t t'' := by
  refine ⟨h.prefixed.trans h'.prefixed, h'.grounded, fun c i hi => h'.kept c i (h.kept c i hi),
    fun i j n m c hi hn hnc hm hmc => ?_⟩
  rcases Nat.lt_or_ge i t'.length with hi' | hi'
  · rcases Nat.lt_or_ge j t'.length with hj' | hj'
    · rw [getElem?_of_lt h'.prefixed hi'] at hn
      rw [getElem?_of_lt h'.prefixed hj'] at hm
      exact h.fresh i j n m c hi hn hnc hm hmc
    · exact (h'.fresh j i m n c hj' hm hmc hn hnc).symm
  · exact h'.fresh i j n m c hi' hn hnc hm hmc

theorem Grows.lt_of_none (h : Grows order t t') (hnone : getDirectory order c t = none) {n : Vertex FSEntry}
    (hn : t'[i]? = some n) (hlabel : n.value.directoryLabel = some c) : t.length ≤ i := by
  by_contra hi
  rw [getElem?_of_lt h.prefixed (by omega)] at hn
  exact (getDirectory_eq_none_iff (h.grounded.of_front h.prefixed)).mp hnone i n hn hlabel

section Add

variable {e : FSEntry} {q : ℕ}

theorem grounded_append (hg : Grounded t) (hq : q < t.length) : Grounded (t ++ [⟨e, some q⟩]) :=
  hg.append fun _ hp => Option.some.inj hp ▸ hq

theorem getElem?_append_eq_some {n : Vertex FSEntry} (h : (t ++ [⟨e, some q⟩])[i]? = some n) :
    (i < t.length ∧ t[i]? = some n) ∨ (i = t.length ∧ n = ⟨e, some q⟩) := by
  rcases Nat.lt_or_ge i t.length with hi | hi
  · rw [List.getElem?_append_left hi] at h
    exact Or.inl ⟨hi, h⟩
  · rw [List.getElem?_append_right hi, List.getElem?_singleton] at h
    split_ifs at h with heq
    exact Or.inr ⟨by omega, (Option.some.inj h).symm⟩

-- An entry whose label, if it is a directory, no other one has.
theorem grows_append (hg : Grounded t) (hq : q < t.length)
    (h : ∀ c, e.directoryLabel = some c → getDirectory order c t = none) :
    Grows order t (t ++ [⟨e, some q⟩]) := by
  have hg' := grounded_append (e := e) hg hq
  refine ⟨List.prefix_append t _, hg', fun c i hi => ?_, fun i j n m c hi hn hnc hm hmc => ?_⟩
  · rw [← hi]
    refine Listing.find_append_of_not hg' (Bool.eq_false_iff.mpr fun hdir => ?_)
    rw [h c (isDirectory_iff.mp hdir)] at hi
    cases hi
  · rcases getElem?_append_eq_some hn with ⟨hlt, -⟩ | ⟨rfl, rfl⟩
    · omega
    · rcases getElem?_append_eq_some hm with ⟨-, hm⟩ | ⟨rfl, -⟩
      · exact absurd hmc ((getDirectory_eq_none_iff hg).mp (h c hnc) j m hm)
      · rfl

end Add

-- The labels that are found after some parts.
structure Entered (order : Listing FSEntry) (t : Forest FSEntry) (dirs : List Str) (t' : Forest FSEntry)
    (q : ℕ) : Prop where
  grows : Grows order t t'
  lt : q < t'.length
  labels : ∀ c, getDirectory order c t' ≠ none ↔ getDirectory order c t ≠ none ∨ c ∈ dirs
  paths : ∀ (i : ℕ) n, t.length ≤ i → t'[i]? = some n → n.value.path = none

theorem entered_enter {q : ℕ} {dirs : List Str} (h : Entered order t dirs t' q) (c : Str) :
    ∃ t'' q', enter order (t', some q) c = some (t'', some q') ∧ Entered order t (dirs ++ [c]) t'' q' ∧
      ((getDirectory order c t' = some q' ∧ t'' = t') ∨
        (getDirectory order c t' = none ∧ q' = t'.length ∧
          t'' = t' ++ [⟨newDirectory c, some q⟩])) := by
  cases hfind : getDirectory order c t' with
  | some child =>
      refine ⟨t', child, by simp [enter, hfind], ⟨h.grows, lt_of_getDirectory hfind, fun d => ?_, h.paths⟩,
        Or.inl ⟨rfl, rfl⟩⟩
      rw [h.labels, List.mem_append, List.mem_singleton, ← or_assoc]
      refine ⟨Or.inl, fun hd => hd.elim id ?_⟩
      rintro rfl
      exact (h.labels d).mp (by simp [hfind])
  | none =>
      have hg' := grounded_append (e := newDirectory c) h.grows.grounded h.lt
      have hlabel : ∀ d, (newDirectory c).directoryLabel = some d ↔ d = c := by
        simp [newDirectory, FSEntry.directoryLabel, eq_comm]
      have hgrows : Grows order t' (t' ++ [⟨newDirectory c, some q⟩]) :=
        grows_append h.grows.grounded h.lt fun d hd => (hlabel d).mp hd ▸ hfind
      refine ⟨_, t'.length, by simp [enter, hfind], ⟨h.grows.trans hgrows, by simp, fun d => ?_, ?_⟩,
        Or.inr ⟨rfl, rfl, rfl⟩⟩
      · rw [List.mem_append, List.mem_singleton, ← or_assoc, ← h.labels]
        by_cases hd : d = c
        · have hnew : getDirectory order d (t' ++ [⟨newDirectory c, some q⟩]) = some t'.length :=
            Listing.find_append_of_none hg' (hd ▸ hfind) (isDirectory_iff.mpr ((hlabel d).mpr hd))
          exact iff_of_true (by simp [hnew]) (Or.inr hd)
        · have hold : getDirectory order d (t' ++ [⟨newDirectory c, some q⟩]) = getDirectory order d t' :=
            Listing.find_append_of_not hg'
              (Bool.eq_false_iff.mpr fun hdir => hd ((hlabel d).mp (isDirectory_iff.mp hdir)))
          simp [hold, hd]
      · intro i n hi hn
        rcases getElem?_append_eq_some hn with ⟨-, hn⟩ | ⟨-, rfl⟩
        · exact h.paths i n hi hn
        · rfl

-- The path of an entry.

variable {doc : Document} {objects q : ℕ} {dirs dirs' : List Str}

theorem Document.Objects.lt (h : doc.Objects i) : i < doc.entries.length := by
  obtain ⟨m, -, -, hm, -⟩ := h
  exact (List.getElem?_eq_some_iff.mp hm).1

theorem Document.Objects.underRoot (h : doc.Objects i) : UnderRoot doc.entries i := by
  obtain ⟨m, root, aip, hm, -, hparent, haip, hroot, -⟩ := h
  exact ⟨m, root, aip, hm, hparent, haip, hroot⟩

theorem Document.Objects.found (h : doc.Objects i) :
    getDirectory order "objects".toList doc.entries ≠ none := by
  obtain ⟨m, -, -, hm, hlabel, -⟩ := h
  exact fun hnone => (getDirectory_eq_none_iff doc.grounded).mp hnone i m hm hlabel

theorem at_nil_iff : At doc t [] i ↔ doc.Objects i := by
  constructor
  · rintro ⟨objects, hobjects, hchain⟩
    generalize hnil : ([] : List Str) = dirs at hchain
    cases hchain with
    | here => exact hobjects
    | step => simp at hnil
  · exact fun h => ⟨i, h, Chain.here⟩

theorem at_concat_iff : At doc t (dirs ++ [c]) i ↔ ∃ q n, At doc t dirs q ∧ t[i]? = some n ∧
    n.parent = some q ∧ n.value.directoryLabel = some c := by
  constructor
  · rintro ⟨objects, hobjects, hchain⟩
    obtain ⟨q, n, hq, hrest⟩ := chain_concat_iff.mp hchain
    exact ⟨q, n, ⟨objects, hobjects, hq⟩, hrest⟩
  · rintro ⟨q, n, ⟨objects, hobjects, hq⟩, hrest⟩
    exact ⟨objects, hobjects, chain_concat_iff.mpr ⟨q, n, hq, hrest⟩⟩

theorem At.mono (h : t <+: t') (hi : At doc t dirs i) : At doc t' dirs i := by
  obtain ⟨objects, hobjects, hchain⟩ := hi
  exact ⟨objects, hobjects, hchain.mono h⟩

theorem At.of_mono (h : t <+: t') (hg : Grounded t') (hlt : i < t.length) (hi : At doc t' dirs i) :
    At doc t dirs i := by
  obtain ⟨objects, hobjects, hchain⟩ := hi
  exact ⟨objects, hobjects, hchain.of_mono h hg hlt⟩

theorem At.unique (h : doc.entries <+: t) (hi : At doc t dirs i) (hi' : At doc t dirs' i) : dirs = dirs' := by
  obtain ⟨objects, hobjects, hchain⟩ := hi
  obtain ⟨objects', hobjects', hchain'⟩ := hi'
  exact hchain.unique_of_underRoot (hobjects.underRoot.mono h) (hobjects'.underRoot.mono h) hchain'

theorem At.exists_front (hg : Grounded t) (hi : At doc t dirs i) (h : dirs' <+: dirs) :
    ∃ j ≤ i, At doc t dirs' j := by
  obtain ⟨objects, hobjects, hchain⟩ := hi
  obtain ⟨j, hj, hup⟩ := hchain.exists_front hg h
  exact ⟨j, hj, objects, hobjects, hup⟩

-- The same as it is for one file and the document that it is added to.
section One

variable (order : Listing FSEntry) (doc : Document) (t : Forest FSEntry)

def Found (front : List Str) (label : Str) : Prop := getDirectory order label t ≠ none ∨ label ∈ front

structure LastFound (objects : ℕ) (dirs : List Str) : Prop where
  found : ∀ front label, front ++ [label] <+: dirs → Found order t front label →
    (∀ front' label', front' ++ [label'] <+: dirs → front.length < front'.length →
      ¬ Found order t front' label') →
    ∃ i, getDirectory order label t = some i ∧ At doc t (front ++ [label]) i
  none : (∀ front label, front ++ [label] <+: dirs → ¬ Found order t front label) → doc.Objects objects

end One

theorem lastFound_concat_of_found (h : Found order t dirs c) :
    LastFound order doc t objects (dirs ++ [c]) ↔
      ∃ i, getDirectory order c t = some i ∧ At doc t (dirs ++ [c]) i := by
  constructor
  · intro hlast
    refine hlast.found dirs c List.prefix_rfl h fun front' label' hpre hlt => ?_
    have hle := hpre.length_le
    simp only [List.length_append, List.length_singleton] at hle
    omega
  · intro hi
    refine ⟨fun front label hpre _ hlater => ?_, fun hnone => absurd h (hnone dirs c List.prefix_rfl)⟩
    rcases List.prefix_concat_iff.mp hpre with heq | hpre
    · obtain ⟨rfl, hlabel⟩ := List.append_inj' heq rfl
      obtain rfl := List.singleton_inj.mp hlabel
      exact hi
    · have hle := hpre.length_le
      rw [List.length_append, List.length_singleton] at hle
      exact absurd h (hlater dirs c List.prefix_rfl (by omega))

theorem lastFound_concat_of_not (h : ¬ Found order t dirs c) :
    LastFound order doc t objects (dirs ++ [c]) ↔ LastFound order doc t objects dirs := by
  constructor
  · intro hlast
    refine ⟨fun front label hpre hfound hlater => ?_, fun hnone => hlast.none fun front label hpre => ?_⟩
    · refine hlast.found front label (hpre.trans (List.prefix_append dirs [c])) hfound
        fun front' label' hpre' hlt => ?_
      rcases List.prefix_concat_iff.mp hpre' with heq | hpre'
      · obtain ⟨rfl, hlabel⟩ := List.append_inj' heq rfl
        obtain rfl := List.singleton_inj.mp hlabel
        exact h
      · exact hlater front' label' hpre' hlt
    · rcases List.prefix_concat_iff.mp hpre with heq | hpre
      · obtain ⟨rfl, hlabel⟩ := List.append_inj' heq rfl
        obtain rfl := List.singleton_inj.mp hlabel
        exact h
      · exact hnone front label hpre
  · intro hlast
    refine ⟨fun front label hpre hfound hlater => ?_, fun hnone => hlast.none fun front label hpre =>
      hnone front label (hpre.trans (List.prefix_append dirs [c]))⟩
    rcases List.prefix_concat_iff.mp hpre with heq | hpre
    · obtain ⟨rfl, hlabel⟩ := List.append_inj' heq rfl
      obtain rfl := List.singleton_inj.mp hlabel
      exact absurd hfound h
    · exact hlast.found front label hpre hfound fun front' label' hpre' hlt =>
        hlater front' label' (hpre'.trans (List.prefix_append dirs [c])) hlt

-- A label that the document did not have is at one place, so it is not on the way to itself.
theorem not_at_of_mem (h : Grows order t t') (hnone : getDirectory order c t = none) (hc : c ∈ dirs) :
    ¬ At doc t' (dirs ++ [c]) q := by
  intro hat
  obtain ⟨p, n, hp, hn, hparent, hlabel⟩ := at_concat_iff.mp hat
  obtain ⟨front, back, rfl⟩ := List.append_of_mem hc
  have hfront : front ++ [c] <+: front ++ c :: back := ⟨back, by simp⟩
  obtain ⟨j, hj, hup⟩ := hp.exists_front h.grounded hfront
  obtain ⟨_, m, -, hm, -, hmlabel⟩ := at_concat_iff.mp hup
  have hlt := h.grounded q n hn p hparent
  have heq := h.fresh q j n m c (h.lt_of_none hnone hn hlabel) hn hlabel hm hmlabel
  omega

theorem exists_entered (doc : Document) (hg : Grounded t) (ho : objects < t.length) (dirs : List Str) :
    ∃ t' q, dirs.foldlM (enter order) (t, some objects) = some (t', some q) ∧
      Entered order t dirs t' q ∧
      (At doc t' dirs q ↔ LastFound order doc t objects dirs) := by
  induction dirs using List.reverseRecOn with
  | nil =>
      refine ⟨t, objects, rfl, ⟨Grows.refl hg, ho, by simp, fun i n hi hn => ?_⟩,
        at_nil_iff.trans ⟨fun h => ⟨fun front label hpre => by simp at hpre, fun _ => h⟩,
          fun h => h.none fun front label hpre => by simp at hpre⟩⟩
      have := (List.getElem?_eq_some_iff.mp hn).1
      omega
  | append_singleton dirs c ih =>
      obtain ⟨t', q, hrun, hentered, hchain⟩ := ih
      obtain ⟨t'', q', henter, hentered', hcases⟩ := entered_enter hentered c
      refine ⟨t'', q', by rw [List.foldlM_append, hrun]; simpa using henter, hentered', ?_⟩
      have hgrows := hentered.grows
      rcases hcases with ⟨hfind, rfl⟩ | ⟨hnone, rfl, rfl⟩
      · -- the first directory with that label, wherever it is
        have hfound : Found order t dirs c := (hentered.labels c).mp (by simp [hfind])
        rw [lastFound_concat_of_found hfound]
        cases hold : getDirectory order c t with
        | some i =>
            obtain rfl : i = q' := Option.some.inj ((hgrows.kept c i hold).symm.trans hfind)
            simp only [Option.some.injEq, exists_eq_left']
            exact ⟨At.of_mono hgrows.prefixed hgrows.grounded (lt_of_getDirectory hold),
              At.mono hgrows.prefixed⟩
        | none =>
            have hmem : c ∈ dirs := hfound.elim (fun h => absurd hold h) id
            exact iff_of_false (not_at_of_mem hgrows hold hmem) (by simp)
      · -- a new one in the directory of the parts before it
        have hnot : ¬ Found order t dirs c := fun hfound => (hentered.labels c).mpr hfound hnone
        have hlast : (t' ++ [⟨newDirectory c, some q⟩])[t'.length]? =
            some ⟨newDirectory c, some q⟩ := by simp
        rw [lastFound_concat_of_not hnot, ← hchain, at_concat_iff]
        constructor
        · rintro ⟨p, n, hp, hn, hparent, -⟩
          obtain rfl := Option.some.inj (hlast.symm.trans hn)
          obtain rfl := Option.some.inj hparent
          exact hp.of_mono (List.prefix_append _ _) hentered'.grows.grounded hentered.lt
        · intro hp
          exact ⟨q, _, hp.mono (List.prefix_append _ _), hlast, rfl,
            by simp [newDirectory, FSEntry.directoryLabel]⟩

variable {f : File} {fs : List File} {p : ℕ}

-- What one turn of the loop over the new files does.
structure Added (order : Listing FSEntry) (doc : Document) (t : Forest FSEntry) (objects : ℕ) (f : File)
    (t' : Forest FSEntry) (p q : ℕ) : Prop where
  grows : Grows order t t'
  le : t.length ≤ p
  item : ∃ derivedFrom, t'[p]? = some ⟨newItem f derivedFrom, some q⟩
  only : ∀ (i : ℕ) n, t.length ≤ i → t'[i]? = some n → n.value.path ≠ none → i = p
  labels : ∀ c, getDirectory order c t' ≠ none ↔ getDirectory order c t ≠ none ∨ c ∈ f.dirs
  right : At doc t' f.dirs q ↔ LastFound order doc t objects f.dirs

theorem directoryLabel_newItem (f : File) (derivedFrom : Option ℕ) :
    (newItem f derivedFrom).directoryLabel = none := by
  have htype : "Item".toList ≠ directory := by decide
  exact if_neg htype

theorem exists_derivedFrom (h : f.sources.length ≤ 1) (t : Forest FSEntry) :
    ∃ derived, derivedFrom order f t = some derived := by
  rw [derivedFrom]
  cases hget : Table.get f.sources with
  | missing => exact ⟨none, rfl⟩
  | row source => exact ⟨_, rfl⟩
  | several =>
      have := Table.get_eq_several_iff.mp hget
      omega

theorem exists_added (doc : Document) (hg : Grounded t) (ho : objects < t.length) (h : f.sources.length ≤ 1) :
    ∃ t' p q, addFile order (some objects) t f = some t' ∧ Added order doc t objects f t' p q := by
  obtain ⟨t₁, q, hrun, hentered, hchain⟩ := @exists_entered order _ _ doc hg ho f.dirs
  obtain ⟨derived, hderived⟩ := @exists_derivedFrom order _ h t₁
  have hg₁ := hentered.grows.grounded
  have hpre := List.prefix_append t₁ [⟨newItem f derived, some q⟩]
  have hlabel := directoryLabel_newItem f derived
  have hgrows : Grows order t₁ (t₁ ++ [⟨newItem f derived, some q⟩]) :=
    grows_append hg₁ hentered.lt fun c hc => by simp [hlabel] at hc
  refine ⟨t₁ ++ [⟨newItem f derived, some q⟩], t₁.length, q, ?_, hentered.grows.trans hgrows,
    hentered.grows.prefixed.length_le, ⟨derived, by simp⟩, fun i n hi hn hpath => ?_, fun c => ?_, ?_⟩
  · rw [addFile, hrun, Option.bind_some, hderived]
    rfl
  · rcases getElem?_append_eq_some hn with ⟨-, hn⟩ | ⟨rfl, -⟩
    · exact absurd (hentered.paths i n hi hn) hpath
    · rfl
  · rw [← hentered.labels, getDirectory, Listing.find_append_of_not hgrows.grounded, getDirectory]
    exact Bool.eq_false_iff.mpr fun hdir => by simp [isDirectory_iff, hlabel] at hdir
  · rw [← hchain]
    exact ⟨At.of_mono hpre hgrows.grounded hentered.lt, At.mono hpre⟩

theorem sources_of_addFile {objects : Option ℕ} (h : addFile order objects t f = some t') :
    f.sources.length ≤ 1 := by
  obtain ⟨at?, -, h⟩ := Option.bind_eq_some_iff.mp h
  obtain ⟨derived, hderived, -⟩ := Option.bind_eq_some_iff.mp h
  by_contra hlength
  rw [derivedFrom, Table.get_eq_several_iff.mpr (by omega)] at hderived
  cases hderived

theorem addFile_eq_some (doc : Document) (hg : Grounded t) (ho : objects < t.length)
    (h : addFile order (some objects) t f = some t') : ∃ p q, Added order doc t objects f t' p q := by
  obtain ⟨t₁, p, q, hadd, hadded⟩ := @exists_added order _ _ _ doc hg ho (sources_of_addFile h)
  obtain rfl := Option.some.inj (hadd.symm.trans h)
  exact ⟨p, q, hadded⟩

theorem Added.lt (h : Added order doc t objects f t' p q) : q < t'.length := by
  obtain ⟨derived, hitem⟩ := h.item
  have := (List.getElem?_eq_some_iff.mp hitem).1
  have := h.grows.grounded p _ hitem q rfl
  omega

theorem exists_run (doc : Document) (hg : Grounded t) (ho : objects < t.length) (h : ∀ f ∈ fs, f.sources.length ≤ 1) :
    ∃ t', fs.foldlM (addFile order (some objects)) t = some t' := by
  induction fs generalizing t with
  | nil => exact ⟨t, rfl⟩
  | cons f fs ih =>
      rw [List.forall_mem_cons] at h
      obtain ⟨t₁, p, q, hadd, hadded⟩ := @exists_added order _ _ _ doc hg ho h.1
      have hlength := hadded.grows.prefixed.length_le
      obtain ⟨t', hrun⟩ := ih hadded.grows.grounded (by omega) h.2
      exact ⟨t', by rw [List.foldlM_cons, hadd]; exact hrun⟩

-- A path in the tree that the turn leaves was there, or it is that of the new file.
theorem Added.path_cases (h : Added order doc t objects f t' p q) {i : ℕ} {n : Vertex FSEntry} {path : Str}
    (hn : t'[i]? = some n) (hpath : n.value.path = some path) : t[i]? = some n ∨ path = f.path := by
  rcases Nat.lt_or_ge i t.length with hlt | hge
  · rw [getElem?_of_lt h.grows.prefixed hlt] at hn
    exact Or.inl hn
  · obtain ⟨derived, hitem⟩ := h.item
    obtain rfl := h.only i n hge hn (by simp [hpath])
    obtain rfl := Option.some.inj (hitem.symm.trans hn)
    exact Or.inr (Option.some.inj hpath).symm

theorem Added.eq_of_path (h : Added order doc t objects f t' p q)
    (hfree : ∀ (i : ℕ) n, t[i]? = some n → n.value.path ≠ some f.path) {i : ℕ} {n : Vertex FSEntry}
    (hn : t'[i]? = some n) (hpath : n.value.path = some f.path) : i = p := by
  rcases Nat.lt_or_ge i t.length with hlt | hge
  · rw [getElem?_of_lt h.grows.prefixed hlt] at hn
    exact absurd hpath (hfree i n hn)
  · exact h.only i n hge hn (by simp [hpath])

theorem grows_of_run (doc : Document) (hg : Grounded t) (ho : objects < t.length)
    (h : fs.foldlM (addFile order (some objects)) t = some t') :
    Grows order t t' ∧ ∀ (i : ℕ) n path, t.length ≤ i → t'[i]? = some n → n.value.path = some path →
      path ∈ fs.map File.path := by
  induction fs generalizing t with
  | nil =>
      obtain rfl := Option.some.inj h
      refine ⟨Grows.refl hg, fun i n path hi hn => ?_⟩
      have := (List.getElem?_eq_some_iff.mp hn).1
      omega
  | cons f fs ih =>
      obtain ⟨t₁, hadd, h⟩ := Option.bind_eq_some_iff.mp h
      obtain ⟨p, q, hadded⟩ := addFile_eq_some doc hg ho hadd
      have hlength := hadded.grows.prefixed.length_le
      obtain ⟨hgrows, hpaths⟩ := ih hadded.grows.grounded (by omega) h
      refine ⟨hadded.grows.trans hgrows, fun i n path hi hn hpath => ?_⟩
      rw [List.map_cons, List.mem_cons]
      rcases Nat.lt_or_ge i t₁.length with hlt | hge
      · rw [getElem?_of_lt hgrows.prefixed hlt] at hn
        rcases hadded.path_cases hn hpath with hold | hnew
        · have := (List.getElem?_eq_some_iff.mp hold).1
          omega
        · exact Or.inl hnew
      · exact Or.inr (hpaths i n path hge hn hpath)

variable {before : List (List Str)}

def firstVisit (before : List (List Str)) (label : Str) : Option (List Str) :=
  (before.flatMap List.inits).find? fun dirs => dirs.getLast? = some label

-- After new files that are all where they belong.
structure Settled (order : Listing FSEntry) (doc : Document) (before : List (List Str)) (t : Forest FSEntry) :
    Prop where
  grows : Grows order doc.entries t
  labels : ∀ c, getDirectory order c t ≠ none ↔
    getDirectory order c doc.entries ≠ none ∨ c ∈ before.flatten
  visits : ∀ c i, getDirectory order c doc.entries = none → getDirectory order c t = some i →
    ∃ dirs, firstVisit before c = some dirs ∧ At doc t dirs i

theorem settled_nil (order : Listing FSEntry) (doc : Document) : Settled order doc [] doc.entries := by
  refine ⟨Grows.refl doc.grounded, by simp, fun c i hnone hsome => ?_⟩
  rw [hnone] at hsome
  cases hsome

theorem mem_of_firstVisit (h : firstVisit before c = some dirs) : c ∈ before.flatten := by
  obtain ⟨path, hpath, hinit⟩ := List.mem_flatMap.mp (List.mem_of_find?_eq_some h)
  have hlast : dirs.getLast? = some c := by simpa using List.find?_some h
  exact List.mem_flatten.mpr
    ⟨path, hpath, ((List.mem_inits _ _).mp hinit).subset (List.mem_of_getLast? hlast)⟩

theorem Settled.lastFound_iff (h : Settled order doc before t) :
    LastFound order doc t objects dirs ↔ LastKnown order doc objects before dirs := by
  have hfound : ∀ front label, Found order t front label ↔ Known order doc before front label := by
    intro front label
    rw [Found, h.labels, Known, or_assoc]
  have hfirst : ∀ dirs label, (∃ i, getDirectory order label t = some i ∧
      At doc t dirs i) ↔ FirstAt order doc before label dirs := by
    intro dirs label
    constructor
    · rintro ⟨i, hi, hchain⟩
      refine ⟨fun i' hi' => ?_, fun hnone => ?_⟩
      · obtain rfl := Option.some.inj ((h.grows.kept label i' hi').symm.trans hi)
        exact hchain.of_mono h.grows.prefixed h.grows.grounded (lt_of_getDirectory hi')
      · obtain ⟨dirs', hvisit, hchain'⟩ := h.visits label i hnone hi
        rw [hchain.unique h.grows.prefixed hchain']
        exact hvisit
    · intro hfirst
      cases hold : getDirectory order label doc.entries with
      | some i => exact ⟨i, h.grows.kept label i hold, (hfirst.old i hold).mono h.grows.prefixed⟩
      | none =>
          have hvisit : firstVisit before label = some dirs := hfirst.new hold
          obtain ⟨i, hi⟩ := Option.ne_none_iff_exists'.mp
            ((h.labels label).mpr (Or.inr (mem_of_firstVisit hvisit)))
          obtain ⟨dirs', hvisit', hchain⟩ := h.visits label i hold hi
          obtain rfl := Option.some.inj (hvisit.symm.trans hvisit')
          exact ⟨i, hi, hchain⟩
  exact ⟨fun hlast => ⟨by simpa only [hfound, hfirst] using hlast.found, by simpa only [hfound] using hlast.none⟩,
    fun hlast => ⟨by simpa only [hfound, hfirst] using hlast.known, by simpa only [hfound] using hlast.none⟩⟩

theorem firstVisit_append (before rest : List (List Str)) (c : Str) :
    firstVisit (before ++ rest) c = (firstVisit before c).or (firstVisit rest c) := by
  rw [firstVisit, List.flatMap_append, List.find?_append]
  rfl

theorem exists_firstVisit (hc : c ∈ dirs) :
    ∃ front, firstVisit [dirs] c = some (front ++ [c]) ∧ front ++ [c] <+: dirs := by
  rw [firstVisit, List.flatMap_singleton]
  obtain ⟨front, back, rfl⟩ := List.append_of_mem hc
  cases hfind : (front ++ c :: back).inits.find? fun dirs => dirs.getLast? = some c with
  | none =>
      have := List.find?_eq_none.mp hfind (front ++ [c]) ((List.mem_inits _ _).mpr ⟨back, by simp⟩)
      simp at this
  | some dirs =>
      have hlast : dirs.getLast? = some c := by simpa using List.find?_some hfind
      obtain ⟨init, rfl⟩ := List.getLast?_eq_some_iff.mp hlast
      exact ⟨init, rfl, (List.mem_inits _ _).mp (List.mem_of_find?_eq_some hfind)⟩

theorem Settled.add (h : Settled order doc before t) (ha : Added order doc t objects f t' p q)
    (hright : At doc t' f.dirs q) : Settled order doc (before ++ [f.dirs]) t' := by
  refine ⟨h.grows.trans ha.grows, fun c => ?_, fun c i hnone hi => ?_⟩
  · rw [ha.labels, h.labels, List.flatten_append, List.mem_append, or_assoc]
    simp
  · rw [firstVisit_append]
    cases hold : getDirectory order c t with
    | some j =>
        obtain rfl := Option.some.inj ((ha.grows.kept c j hold).symm.trans hi)
        obtain ⟨dirs, hvisit, hchain⟩ := h.visits c j hnone hold
        exact ⟨dirs, by rw [hvisit, Option.some_or], hchain.mono ha.grows.prefixed⟩
    | none =>
        have hbefore : firstVisit before c = none := by
          by_contra hsome
          obtain ⟨dirs, hvisit⟩ := Option.ne_none_iff_exists'.mp hsome
          exact (h.labels c).mpr (Or.inr (mem_of_firstVisit hvisit)) hold
        have hmem : c ∈ f.dirs :=
          ((ha.labels c).mp (by simp [hi])).elim (fun hc => absurd hold hc) id
        obtain ⟨front, hvisit, hpre⟩ := exists_firstVisit hmem
        refine ⟨front ++ [c], by rw [hbefore, Option.none_or, hvisit], ?_⟩
        -- the one on the way to the new file is the only one
        obtain ⟨j, -, hchain⟩ := hright.exists_front ha.grows.grounded hpre
        obtain ⟨_, m, -, hm, -, hlabel⟩ := at_concat_iff.mp hchain
        obtain ⟨n, hn, hnlabel⟩ := getDirectory_eq_some hi
        rwa [ha.grows.fresh i j n m c (ha.grows.lt_of_none hold hn hnlabel) hn hnlabel hm hlabel]

-- The one entry of a new file is where it belongs.
def Right (doc : Document) (t' : Forest FSEntry) (f : File) : Prop :=
  ∃ derivedFrom p q, t'[p]? = some ⟨newItem f derivedFrom, some q⟩ ∧
    (∀ (p' : ℕ) (n : Vertex FSEntry), t'[p']? = some n → n.value.path = some f.path → p' = p) ∧
    At doc t' f.dirs q

theorem Added.right_iff (ha : Added order doc t objects f t' p q) (hgrows : Grows order t' t'')
    (hunique : ∀ (p' : ℕ) n, t''[p']? = some n → n.value.path = some f.path → p' = p) :
    Right doc t'' f ↔ LastFound order doc t objects f.dirs := by
  rw [← ha.right]
  obtain ⟨derived, hitem⟩ := ha.item
  have hitem' := getElem?_of_front hgrows.prefixed hitem
  constructor
  · rintro ⟨derived', p', q', hitem'', -, hchain⟩
    obtain rfl := hunique p' _ hitem'' rfl
    obtain rfl : q' = q := by
      rw [hitem'] at hitem''
      simpa [eq_comm] using congrArg (Option.bind · Vertex.parent) hitem''
    exact hchain.of_mono hgrows.prefixed hgrows.grounded ha.lt
  · intro hchain
    exact ⟨derived, p, q, hitem', hunique, hchain.mono hgrows.prefixed⟩

-- All of them are where they belong exactly when each is clear after those before it.
theorem forall_right_iff (hsettled : Settled order doc before t)
    (ho : objects < doc.entries.length)
    (hrun : fs.foldlM (addFile order (some objects)) t = some t') (hnodup : (fs.map File.path).Nodup)
    (hfree : ∀ (i : ℕ) n, t[i]? = some n → ∀ path ∈ fs.map File.path, n.value.path ≠ some path) :
    (∀ f ∈ fs, Right doc t' f) ↔ ∀ front dirs rest, fs.map File.dirs = front ++ dirs :: rest →
      LastKnown order doc objects (before ++ front) dirs := by
  induction fs generalizing t before with
  | nil => simp
  | cons f fs ih =>
      have hlength := hsettled.grows.prefixed.length_le
      obtain ⟨t₁, hadd, hrun⟩ := Option.bind_eq_some_iff.mp hrun
      obtain ⟨p, q, hadded⟩ := addFile_eq_some doc hsettled.grows.grounded (by omega) hadd
      have hlength₁ := hadded.grows.prefixed.length_le
      obtain ⟨hgrows, hpaths⟩ := grows_of_run doc hadded.grows.grounded (by omega) hrun
      rw [List.map_cons, List.nodup_cons] at hnodup
      have hunique : ∀ (p' : ℕ) n, t'[p']? = some n → n.value.path = some f.path → p' = p := by
        intro p' n hn hpath
        rcases Nat.lt_or_ge p' t₁.length with hlt | hge
        · rw [getElem?_of_lt hgrows.prefixed hlt] at hn
          exact hadded.eq_of_path (fun i n hn => hfree i n hn f.path (by simp)) hn hpath
        · exact absurd (hpaths p' n f.path hge hn hpath) hnodup.1
      have hfree₁ : ∀ (i : ℕ) n, t₁[i]? = some n → ∀ path ∈ fs.map File.path,
          n.value.path ≠ some path := by
        intro i n hn path hmem hpath
        rcases hadded.path_cases hn hpath with hold | rfl
        · exact hfree i n hold path (by simp [hmem]) hpath
        · exact hnodup.1 hmem
      rw [List.forall_mem_cons, hadded.right_iff hgrows hunique]
      constructor
      · rintro ⟨hhead, htail⟩ front dirs rest heq
        have hright := hsettled.add hadded (hadded.right.mpr hhead)
        cases front with
        | nil =>
            obtain ⟨rfl, -⟩ := List.cons.inj heq
            rw [List.append_nil]
            exact hsettled.lastFound_iff.mp hhead
        | cons dirs' front =>
            obtain ⟨rfl, hrest⟩ := List.cons.inj heq
            have := (ih hright hrun hnodup.2 hfree₁).mp htail front dirs rest hrest
            rwa [List.append_assoc] at this
      · intro h
        have hhead : LastFound order doc t objects f.dirs := by
          have := h [] f.dirs (fs.map File.dirs) rfl
          rw [List.append_nil] at this
          exact hsettled.lastFound_iff.mpr this
        refine ⟨hhead, (ih (hsettled.add hadded (hadded.right.mpr hhead)) hrun hnodup.2 hfree₁).mpr
          fun front dirs rest heq => ?_⟩
        have := h (f.dirs :: front) dirs rest (by rw [List.map_cons, heq]; rfl)
        rwa [List.append_cons] at this

-- The paths of the walk.

section Paths

variable {job : Job} {w w' : WalkedFile}

def WalkedFile.text (w : WalkedFile) : Str := ['/'].intercalate (w.dirs ++ [w.name])

theorem fullPath_eq (job : Job) (w : WalkedFile) :
    job.fullPath w = job.sipDir ++ ("objects/".toList ++ w.text) := by
  have hobjects : PosixPath.Name "objects".toList := by
    constructor
    · decide
    · decide
  have hjoin : PosixPath.join job.sipDir "objects".toList = job.sipDir ++ "objects".toList := by
    rw [PosixPath.join, if_neg hobjects.head?_ne, if_pos (Or.inr job.sipDir_slash)]
  have hopen : PosixPath.Open (job.sipDir ++ "objects".toList) := by
    refine ⟨by simp, ?_⟩
    rw [List.getLast?_append_of_ne_nil _ hobjects.1]
    decide
  rw [Job.fullPath, hjoin, PosixPath.foldl_join hopen w.proper,
    ← PosixPath.slash_intercalate (by simp), List.append_assoc]
  rfl

theorem currentLoc_eq (job : Job) (w : WalkedFile) :
    job.currentLoc w = sipDirectory ++ ("objects/".toList ++ w.text) := by
  rw [Job.currentLoc, fullPath_eq, replaceFirst_self_append]

theorem relPath_eq (job : Job) (w : WalkedFile) : job.relPath w = "objects/".toList ++ w.text := by
  rw [Job.relPath, currentLoc_eq, replaceFirst_self_append, List.nil_append]

theorem path_of_row (h : f.currentlocation = job.currentLoc w) : f.path = job.relPath w := by
  rw [File.path, h, Job.relPath]

theorem dirs_of_row (h : f.currentlocation = job.currentLoc w) : f.dirs = w.dirs := by
  rw [File.dirs, h, currentLoc_eq, ← List.append_assoc, replaceFirst_self_append, List.nil_append,
    WalkedFile.text, PosixPath.splitOn_dirname w.proper]

theorem nodup_relPath (job : Job) : (job.walk.map job.relPath).Nodup := by
  have hparts : ∀ w : WalkedFile, w.text.splitOn '/' = w.dirs ++ [w.name] := fun w =>
    PosixPath.splitOn_intercalate (by simp) w.proper
  have hmap : (job.walk.map job.relPath).map (fun path => (path.drop "objects/".toList.length).splitOn '/') =
      job.walk.map fun w => w.dirs ++ [w.name] := by
    rw [List.map_map]
    refine List.map_congr_left fun w _ => ?_
    rw [Function.comp_apply, relPath_eq, List.drop_left, hparts]
  refine List.Nodup.of_map (fun path => (path.drop "objects/".toList.length).splitOn '/') ?_
  rw [hmap]
  exact job.walk_nodup

end Paths

section Main

variable {job : Job} {files : List File} {w : WalkedFile} {after : Forest FSEntry}

theorem row_eq_some_iff : job.row files w = some f ↔ job.rows files w = [f] := by
  rw [Job.row, ← Table.get_eq_row_iff]
  cases Table.get (job.rows files w) <;> simp

theorem currentlocation_of_row (h : job.row files w = some f) :
    f.currentlocation = job.currentLoc w := by
  have hmem : f ∈ job.rows files w := by rw [row_eq_some_iff.mp h]; exact List.mem_singleton_self f
  have := (List.mem_filter.mp hmem).2
  simp only [Bool.and_eq_true, decide_eq_true_eq] at this
  exact this.1

theorem placed_iff (h : job.row files w = some f) :
    Placed job files doc after w ↔ Right doc after f := by
  have hloc := currentlocation_of_row h
  constructor
  · rintro ⟨f', derived, p, q, hf', hitem, hunique, hchain⟩
    obtain rfl := Option.some.inj (h.symm.trans hf')
    exact ⟨derived, p, q, hitem, by rwa [path_of_row hloc], by rwa [dirs_of_row hloc]⟩
  · rintro ⟨derived, p, q, hitem, hunique, hchain⟩
    exact ⟨f, derived, p, q, h, hitem, by rwa [← path_of_row hloc], by rwa [← dirs_of_row hloc]⟩

theorem sources_of_run {objects : Option ℕ} (h : fs.foldlM (addFile order objects) t = some t') :
    ∀ f ∈ fs, f.sources.length ≤ 1 := by
  induction fs generalizing t with
  | nil => simp
  | cons f fs ih =>
      obtain ⟨t₁, hadd, h⟩ := Option.bind_eq_some_iff.mp h
      rw [List.forall_mem_cons]
      exact ⟨sources_of_addFile hadd, ih h⟩

theorem Grows.unique_of_at (h : Grows order doc.entries t') (hp : At doc t' dirs p) (hq : At doc t' dirs q)
    (hle : doc.entries.length ≤ p) : p = q := by
  rcases List.eq_nil_or_concat dirs with rfl | ⟨front, c, rfl⟩
  · have := (at_nil_iff.mp hp).lt
    omega
  · rw [List.concat_eq_append] at hp hq
    obtain ⟨-, n, -, hn, -, hnlabel⟩ := at_concat_iff.mp hp
    obtain ⟨-, m, -, hm, -, hmlabel⟩ := at_concat_iff.mp hq
    exact h.fresh p q n m c hle hn hnlabel hm hmlabel

-- The new files are told apart by their paths, from one another and from the entries.
theorem nodup_path (h : job.newFiles order doc.entries files = some fs) :
    (fs.map File.path).Nodup ∧
      ∀ (i : ℕ) n, doc.entries[i]? = some n → ∀ path ∈ fs.map File.path, n.value.path ≠ some path := by
  have hmap : (job.walk.filter (job.isNew order doc.entries)).map job.relPath = fs.map File.path :=
    MapM.map_of_mapM h fun w f hf => (path_of_row (currentlocation_of_row hf)).symm
  rw [← hmap]
  refine ⟨(nodup_relPath job).sublist (List.filter_sublist.map _), fun i n hn path hpath heq => ?_⟩
  obtain ⟨w, hw, rfl⟩ := List.mem_map.mp hpath
  have hnew := (List.mem_filter.mp hw).2
  rw [Job.isNew, Bool.and_eq_true, Option.isNone_iff_eq_none, getFileByPath,
    Listing.find_eq_none_iff doc.grounded] at hnew
  have := hnew.1 n (List.mem_of_getElem? hn)
  simp [heq] at this

theorem map_dirs (h : job.newFiles order doc.entries files = some fs) :
    (job.news order doc).map WalkedFile.dirs = fs.map File.dirs :=
  MapM.map_of_mapM h fun _ _ hf => (dirs_of_row (currentlocation_of_row hf)).symm

theorem clear_of_contract (h : Contract order job files doc) : Clear order job files doc := by
  obtain ⟨after, hadd, -, hplaced, -⟩ := h.added
  obtain ⟨fs, hfs, hrun⟩ := Option.bind_eq_some_iff.mp hadd
  refine ⟨fun w hw => ?_, fun hne => ?_⟩
  · obtain ⟨f, hf⟩ := MapM.isSome_of_mapM hfs hw
    exact ⟨f, row_eq_some_iff.mp hf, sources_of_run hrun f ((MapM.mem_mapM hfs).mpr ⟨w, hw, hf⟩)⟩
  · obtain ⟨w₀, hw₀⟩ := List.exists_mem_of_ne_nil _ hne
    obtain ⟨-, -, -, -, -, -, -, objects₀, hobjects₀, -⟩ := (hplaced w₀ hw₀).entry
    have hfound : getDirectory order "objects".toList doc.entries ≠ none := hobjects₀.found
    obtain ⟨objects, hobjects⟩ := Option.ne_none_iff_exists'.mp hfound
    refine ⟨objects, hobjects, fun before w rest heq => ?_⟩
    rw [hobjects] at hrun
    obtain ⟨hnodup, hfree⟩ := nodup_path hfs
    have hright : ∀ f ∈ fs, Right doc after f := by
      intro f hf
      obtain ⟨w', hw', hrow⟩ := (MapM.mem_mapM hfs).mp hf
      exact (placed_iff hrow).mp (hplaced w' hw')
    exact (forall_right_iff (settled_nil order doc) (lt_of_getDirectory hobjects) hrun hnodup
      hfree).mp hright (before.map WalkedFile.dirs) w.dirs (rest.map WalkedFile.dirs)
        (by rw [← map_dirs hfs, heq, List.map_append, List.map_cons])

theorem contract_of_clear (h : Clear order job files doc) : Contract order job files doc := by
  obtain ⟨fs, hfs⟩ := MapM.exists_mapM fun w hw => by
    obtain ⟨f, hf, -⟩ := h.row w hw
    exact Option.isSome_iff_exists.mpr ⟨f, row_eq_some_iff.mpr hf⟩
  have hfs : job.newFiles order doc.entries files = some fs := hfs
  have hsources : ∀ f ∈ fs, f.sources.length ≤ 1 := by
    intro f hf
    obtain ⟨w, hw, hrow⟩ := (MapM.mem_mapM hfs).mp hf
    obtain ⟨f', hf', hlength⟩ := h.row w hw
    obtain rfl := Option.some.inj (hrow.symm.trans (row_eq_some_iff.mpr hf'))
    exact hlength
  by_cases hnil : job.news order doc = []
  · obtain rfl : fs = [] := by
      have := map_dirs hfs
      rw [hnil] at this
      exact List.map_eq_nil_iff.mp this.symm
    refine ⟨doc.entries, by rw [addNewFiles, hfs]; rfl, List.prefix_rfl, by simp [hnil],
      fun dirs p p' hp hp' hle => (@Grows.refl order _ doc.grounded).unique_of_at hp hp' hle⟩
  · obtain ⟨objects, hobjects, hlast⟩ := h.objects hnil
    have hlt := lt_of_getDirectory hobjects
    obtain ⟨after, hrun⟩ := @exists_run order _ _ _ doc doc.grounded hlt hsources
    obtain ⟨hgrows, -⟩ := grows_of_run doc doc.grounded hlt hrun
    obtain ⟨hnodup, hfree⟩ := nodup_path hfs
    have hright : ∀ f ∈ fs, Right doc after f := by
      refine (forall_right_iff (settled_nil order doc) hlt hrun hnodup hfree).mpr
        fun front dirs rest heq => ?_
      rw [← map_dirs hfs] at heq
      obtain ⟨before, back, hnews, rfl, hback⟩ := List.map_eq_append_iff.mp heq
      obtain ⟨w, rest', rfl, rfl, rfl⟩ := List.map_eq_cons_iff.mp hback
      exact hlast before w rest' hnews
    refine ⟨after, by rw [addNewFiles, hfs, Option.bind_some, hobjects]; exact hrun, hgrows.prefixed,
      fun w hw => ?_, fun dirs p p' hp hp' hle => hgrows.unique_of_at hp hp' hle⟩
    obtain ⟨f, hf⟩ := MapM.isSome_of_mapM hfs hw
    exact (placed_iff hf).mpr (hright f ((MapM.mem_mapM hfs).mpr ⟨w, hw, hf⟩))

end Main

end Proofs

theorem addNewFiles_contract_iff (order : Listing FSEntry) (job : Job) (files : List File)
    (doc : Document) : Contract order job files doc ↔ Clear order job files doc :=
  ⟨clear_of_contract, contract_of_clear⟩

-- A new file in a directory of a name that another directory has.
namespace EqualNames

def entries : Forest FSEntry :=
  [⟨newDirectory "sip-1".toList, none⟩, ⟨newDirectory "objects".toList, some 0⟩,
    ⟨newDirectory "x".toList, some 1⟩, ⟨newDirectory "a".toList, some 2⟩]

theorem grounded_entries : Grounded entries := by
  intro i n hn p hp
  have hi := (List.getElem?_eq_some_iff.mp hn).1
  obtain rfl | rfl | rfl | rfl : i = 0 ∨ i = 1 ∨ i = 2 ∨ i = 3 := by
    simp only [entries, List.length_cons, List.length_nil] at hi
    omega
  all_goals
    obtain rfl := Option.some.inj hn
    cases hp
  all_goals decide

def doc : Document := ⟨entries, grounded_entries⟩

theorem proper : ∀ c ∈ ["a".toList] ++ ["f".toList], PosixPath.Name c := by
  simp [PosixPath.Name]

def walked : WalkedFile := ⟨["a".toList], "f".toList, proper⟩

theorem slash_sipDir : "/s/".toList.getLast? = some '/' := rfl

theorem nodup_walked : ([walked].map fun w => w.dirs ++ [w.name]).Nodup := List.nodup_singleton _

def job : Job where
  sipUUID := ⟨1⟩
  sipDir := "/s/".toList
  sipDir_slash := slash_sipDir
  walk := [walked]
  walk_nodup := nodup_walked

theorem other_directory : ¬ Contract documentOrder job
    [⟨⟨2⟩, ⟨1⟩, "%SIPDirectory%objects/a/f".toList, "metadata".toList, []⟩] doc := by
  intro h
  have hnews : job.news documentOrder doc = [walked] := List.filter_cons_of_pos (by decide +kernel)
  obtain ⟨objects, hobjects, hlast⟩ := (clear_of_contract h).objects (by simp [hnews])
  have hat : getDirectory documentOrder "objects".toList doc.entries = some 1 := by decide +kernel
  obtain rfl := Option.some.inj (hat.symm.trans hobjects)
  have hfound : getDirectory documentOrder "a".toList doc.entries = some 3 := by decide +kernel
  have hfirst := (hlast [] walked [] hnews).known [] "a".toList List.prefix_rfl
    (Or.inl (by rw [hfound]; exact Option.some_ne_none 3)) fun front' label' hpre hlt => by
      have hle := hpre.length_le
      simp only [List.length_append, List.length_singleton, List.length_nil] at hle hlt
      have : walked.dirs.length = 1 := rfl
      omega
  obtain ⟨q, n, hq, hn, hparent, -⟩ := at_concat_iff.mp (hfirst.old 3 hfound)
  obtain rfl := Option.some.inj hn
  obtain rfl : 2 = q := Option.some.inj hparent
  obtain ⟨m, -, -, hm, hlabel, -⟩ := at_nil_iff.mp hq
  obtain rfl := Option.some.inj hm
  exact absurd hlabel (by decide +kernel)

end EqualNames

end Ccp.Worker.Reingest.NewFiles
