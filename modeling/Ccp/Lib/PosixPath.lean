import Ccp.Lib.FilePath
import Mathlib.Data.List.TakeWhile

namespace Ccp.Lib.PosixPath

-- os.path of Python.

def join (a b : List Char) : List Char :=
  if b.head? = some '/' then b
  else if a = [] ∨ a.getLast? = some '/' then a ++ b
  else a ++ '/' :: b

def basename (p : List Char) : List Char := (p.reverse.takeWhile (· ≠ '/')).reverse

-- What stands before the last element, without its separators unless it has nothing
-- else.
def dirname (p : List Char) : List Char :=
  let head := p.reverse.dropWhile (· ≠ '/')
  if head.all (· = '/') then head.reverse else (head.dropWhile (· = '/')).reverse

-- The extension begins at the last dot of the last element, unless all that stands
-- before it there are dots.
def splitext (p : List Char) : List Char × List Char :=
  let last := p.reverse.takeWhile (· ≠ '/')
  let tail := last.takeWhile (· ≠ '.')
  if ((last.dropWhile (· ≠ '.')).drop 1).any (· ≠ '.') then
    (p.take (p.length - (tail.length + 1)), '.' :: tail.reverse)
  else (p, [])

-- Two separators at the start are kept as they are, more of them are one.
def initialSlashes (p : List Char) : Nat :=
  if ['/'].isPrefixOf p then
    if ['/', '/'].isPrefixOf p ∧ ¬ ['/', '/', '/'].isPrefixOf p then 2 else 1
  else 0

def normpath (p : List Char) : List Char :=
  if p = [] then ['.']
  else
    let slashes := initialSlashes p
    let comps := ((p.splitOn '/').foldl (FilePath.push (0 < slashes)) []).reverse
    let path := List.replicate slashes '/' ++ ['/'].intercalate comps
    if path = [] then ['.'] else path

def abspath (cwd p : List Char) : List Char :=
  if ['/'].isPrefixOf p then normpath p else normpath (join cwd p)

-- An extension never begins with two dots.
theorem dot_ext_ne_splitext (p : List Char) : '.' :: FilePath.ext p ≠ (splitext p).2 := by
  simp only [splitext, FilePath.ext]
  by_cases hdot : (p.reverse.takeWhile (· ≠ '/')).contains '.'
  · rw [if_pos hdot]
    split_ifs <;> simp
  · -- without a dot nothing is dropped that could be its stem
    have hnone : (p.reverse.takeWhile (· ≠ '/')).dropWhile (· ≠ '.') = [] := by
      rw [List.dropWhile_eq_nil_iff]
      intro c hc
      have hne : c ≠ '.' := fun heq => hdot (List.contains_iff_mem.mpr (heq ▸ hc))
      simpa using hne
    rw [if_neg hdot, hnone]
    simp

-- A path to which an element can be added with one separator.
def Open (p : List Char) : Prop := p ≠ [] ∧ p.getLast? ≠ some '/'

-- The name of an entry of a directory.
def Name (name : List Char) : Prop := name ≠ [] ∧ '/' ∉ name

theorem Name.head?_ne {name : List Char} (h : Name name) : name.head? ≠ some '/' := by
  intro hhead
  exact h.2 (List.mem_of_mem_head? hhead)

theorem join_of_open {p name : List Char} (hp : Open p) (hname : Name name) :
    join p name = p ++ '/' :: name := by
  rw [join, if_neg hname.head?_ne, if_neg]
  rintro (h | h)
  · exact hp.1 h
  · exact hp.2 h

theorem join_append {a b p : List Char} (hb : b ≠ []) (hp : p.head? ≠ some '/') :
    join (a ++ b) p = a ++ join b p := by
  have hlast : (a ++ b).getLast? = b.getLast? := List.getLast?_append_of_ne_nil a hb
  simp only [join, hp, if_false, hlast, hb, List.append_eq_nil_iff, and_false, false_or]
  split_ifs <;> simp

theorem join_nil_of_name {name : List Char} (hname : Name name) : join [] name = name := by
  rw [join, if_neg hname.head?_ne, if_pos (Or.inl rfl), List.nil_append]

theorem takeWhile_reverse {name : List Char} (h : '/' ∉ name) (rest : List Char) :
    (name.reverse ++ rest).takeWhile (· ≠ '/') = name.reverse ++ rest.takeWhile (· ≠ '/') := by
  refine List.takeWhile_append_of_pos fun c hc => ?_
  rw [List.mem_reverse] at hc
  simpa using fun hslash : c = '/' => h (hslash ▸ hc)

theorem dropWhile_reverse {name : List Char} (h : '/' ∉ name) (rest : List Char) :
    (name.reverse ++ rest).dropWhile (· ≠ '/') = rest.dropWhile (· ≠ '/') := by
  refine List.dropWhile_append_of_pos fun c hc => ?_
  rw [List.mem_reverse] at hc
  simpa using fun hslash : c = '/' => h (hslash ▸ hc)

theorem basename_append {name : List Char} (h : '/' ∉ name) (p : List Char) :
    basename (p ++ '/' :: name) = name := by
  rw [basename, List.reverse_append, List.reverse_cons, List.append_assoc, takeWhile_reverse h]
  simp

-- Only the last element counts.
theorem takeWhile_reverse_append (a b : List Char) :
    (a ++ '/' :: b).reverse.takeWhile (· ≠ '/') = b.reverse.takeWhile (· ≠ '/') := by
  rw [List.reverse_append, List.reverse_cons, List.append_assoc, List.singleton_append,
    List.takeWhile_append]
  split_ifs with h
  · rw [(List.takeWhile_prefix _).eq_of_length h, List.takeWhile_cons_of_neg (by simp),
      List.append_nil]
  · rfl

theorem basename_append_path (a b : List Char) : basename (a ++ '/' :: b) = basename b := by
  rw [basename, takeWhile_reverse_append, basename]

theorem slash_notMem_basename (p : List Char) : '/' ∉ basename p := by
  intro h
  simpa using List.mem_takeWhile_imp (List.mem_reverse.mp h)

theorem basename_suffix (p : List Char) : basename p <:+ p := by
  rw [basename, ← List.reverse_prefix, List.reverse_reverse]
  exact List.takeWhile_prefix _

-- The last element has a dot exactly when the path has an extension, be it empty.
theorem dot_mem_basename_iff {p : List Char} :
    '.' ∈ basename p ↔ ∃ stem ext, p = stem ++ '.' :: ext ∧ '.' ∉ ext ∧ '/' ∉ ext := by
  constructor
  · intro h
    obtain ⟨front, hfront⟩ := basename_suffix p
    obtain ⟨ext, name, hname, hext⟩ := List.eq_append_cons_of_mem (List.mem_reverse.mpr h)
    have hbase : basename p = name.reverse ++ '.' :: ext.reverse := by
      rw [← List.reverse_inj, hname]
      simp
    refine ⟨front ++ name.reverse, ext.reverse, ?_, by simpa using hext, ?_⟩
    · rw [List.append_assoc, ← hbase, hfront]
    · intro hslash
      refine slash_notMem_basename p ?_
      rw [hbase]
      simp [List.mem_reverse.mp hslash]
  · rintro ⟨stem, ext, rfl, -, hslash⟩
    rw [basename, List.reverse_append, List.reverse_cons, List.append_assoc,
      takeWhile_reverse hslash]
    simp

theorem splitext_append (a b : List Char) :
    splitext (a ++ '/' :: b) = (a ++ '/' :: (splitext b).1, (splitext b).2) := by
  simp only [splitext, takeWhile_reverse_append]
  split_ifs with h
  · -- a dot of the last element of b is one of b
    have hlen : ((b.reverse.takeWhile (· ≠ '/')).takeWhile (· ≠ '.')).length + 1 ≤ b.length := by
      have hlast := (List.takeWhile_prefix (l := b.reverse) (· ≠ '/')).length_le
      have hsplit := congrArg List.length
        (List.takeWhile_append_dropWhile (p := (· ≠ '.')) (l := b.reverse.takeWhile (· ≠ '/')))
      have hdot : (b.reverse.takeWhile (· ≠ '/')).dropWhile (· ≠ '.') ≠ [] := by
        intro hnil
        rw [hnil] at h
        simp at h
      have hpos := List.length_pos_of_ne_nil hdot
      rw [List.length_append] at hsplit
      rw [List.length_reverse] at hlast
      omega
    rw [List.length_append, List.length_cons, List.take_append, List.take_of_length_le (by omega),
      show a.length + (b.length + 1) - (((b.reverse.takeWhile (· ≠ '/')).takeWhile
        (· ≠ '.')).length + 1) - a.length = (b.length - (((b.reverse.takeWhile (· ≠ '/')).takeWhile
        (· ≠ '.')).length + 1)) + 1 by omega, List.take_succ_cons]
  · rfl

theorem dirname_append {p name : List Char} (hp : Open p) (h : '/' ∉ name) :
    dirname (p ++ '/' :: name) = p := by
  have hhead : (p ++ '/' :: name).reverse.dropWhile (· ≠ '/') = '/' :: p.reverse := by
    rw [List.reverse_append, List.reverse_cons, List.append_assoc, dropWhile_reverse h]
    simp
  cases hrev : p.reverse with
  | nil => exact absurd (List.reverse_eq_nil_iff.mp hrev) hp.1
  | cons c rest =>
      have hc : c ≠ '/' := by
        rintro rfl
        exact hp.2 (by rw [← List.head?_reverse, hrev]; rfl)
      rw [dirname, hhead, hrev]
      simp only [List.all_cons, hc, decide_false, Bool.and_false, Bool.false_and, Bool.false_eq_true,
        if_false, decide_true, List.dropWhile_cons_of_pos]
      rw [List.dropWhile_cons_of_neg (by simpa using hc), ← hrev, List.reverse_reverse]

theorem open_join {p name : List Char} (hp : Open p) (hname : Name name) : Open (join p name) := by
  rw [join_of_open hp hname]
  have hlast : name.getLast? = some (name.getLast hname.1) := List.getLast?_eq_some_getLast hname.1
  have hne : name.getLast hname.1 ≠ '/' := fun h => hname.2 (h ▸ List.getLast_mem hname.1)
  refine ⟨by simp, ?_⟩
  rw [List.getLast?_append, List.getLast?_cons, hlast]
  simpa using hne

theorem Name.isOpen {name : List Char} (h : Name name) : Open name := by
  refine ⟨h.1, fun hlast => h.2 (List.mem_of_getLast? hlast)⟩

-- Paths by their elements.

theorem open_foldl_join {p : List Char} {names : List (List Char)} (hp : Open p)
    (h : ∀ name ∈ names, Name name) : Open (names.foldl join p) := by
  induction names generalizing p with
  | nil => exact hp
  | cons name names ih =>
      rw [List.forall_mem_cons] at h
      exact ih (open_join hp h.1) h.2

theorem foldl_join {p : List Char} {names : List (List Char)} (hp : Open p)
    (h : ∀ name ∈ names, Name name) : names.foldl join p = p ++ names.flatMap ('/' :: ·) := by
  induction names generalizing p with
  | nil => simp
  | cons name names ih =>
      rw [List.forall_mem_cons] at h
      rw [List.foldl_cons, ih (open_join hp h.1) h.2, join_of_open hp h.1, List.flatMap_cons,
        List.append_assoc]

theorem intercalate_cons (name : List Char) (names : List (List Char)) :
    ['/'].intercalate (name :: names) = name ++ names.flatMap ('/' :: ·) := by
  induction names generalizing name with
  | nil => simp
  | cons next names ih =>
      rw [List.intercalate_cons_cons, ih, List.flatMap_cons, List.append_assoc]
      rfl

theorem slash_intercalate {names : List (List Char)} (h : names ≠ []) :
    '/' :: ['/'].intercalate names = names.flatMap ('/' :: ·) := by
  cases names with
  | nil => exact absurd rfl h
  | cons name names =>
      rw [intercalate_cons, List.flatMap_cons]
      rfl

theorem dirname_of_name {name : List Char} (h : Name name) : dirname name = [] := by
  have hdrop : name.reverse.dropWhile (· ≠ '/') = [] := by
    rw [List.dropWhile_eq_nil_iff]
    intro c hc
    have hne : c ≠ '/' := fun heq => h.2 (heq ▸ List.mem_reverse.mp hc)
    simpa using hne
  rw [dirname, hdrop]
  rfl

theorem basename_of_name {name : List Char} (h : Name name) : basename name = name := by
  have hall := takeWhile_reverse h.2 []
  rw [List.append_nil, List.takeWhile_nil, List.append_nil] at hall
  rw [basename, hall, List.reverse_reverse]

-- An element that is added is the last one.
theorem basename_join {name : List Char} (hname : Name name) (p : List Char) : basename (join p name) = name := by
  have hfirst : name.head? ≠ some '/' := hname.head?_ne
  rw [join, if_neg hfirst]
  split_ifs with h
  · rcases h with rfl | hlast
    · exact basename_of_name hname
    · obtain ⟨q, rfl⟩ := List.getLast?_eq_some_iff.mp hlast
      rw [List.append_assoc, List.singleton_append]
      exact basename_append hname.2 q
  · exact basename_append hname.2 p

-- What stands before the last element is a path without separators at its end, or nothing but them.
theorem dirname_cases (p : List Char) : Open (dirname p) ∨ ∀ c ∈ dirname p, c = '/' := by
  simp only [dirname]
  split_ifs with hall
  · right
    intro c hc
    simpa using List.all_eq_true.mp hall c (List.mem_reverse.mp hc)
  · left
    have hne : (p.reverse.dropWhile (· ≠ '/')).dropWhile (· = '/') ≠ [] := by
      rw [Ne, List.dropWhile_eq_nil_iff]
      intro hnil
      exact hall (List.all_eq_true.mpr hnil)
    refine ⟨fun hnil => hne (List.reverse_eq_nil_iff.mp hnil), ?_⟩
    rw [List.getLast?_reverse]
    intro hhead
    have hdrop := List.head?_dropWhile_not (· = '/') (p.reverse.dropWhile (· ≠ '/'))
    rw [hhead] at hdrop
    simp at hdrop

-- A path of separators is kept before an element that is added to it.
theorem dirname_append_of_slashes {p name : List Char} (hp : ∀ c ∈ p, c = '/') (hne : p ≠ []) (h : '/' ∉ name) :
    dirname (p ++ name) = p := by
  obtain ⟨q, hq⟩ : ∃ q, p.reverse = '/' :: q := by
    cases hrev : p.reverse with
    | nil => exact absurd (List.reverse_eq_nil_iff.mp hrev) hne
    | cons c q =>
        have hc := hp c (List.mem_reverse.mp (hrev ▸ List.mem_cons_self))
        exact ⟨q, by rw [hc]⟩
  have hhead : (p ++ name).reverse.dropWhile (· ≠ '/') = p.reverse := by
    rw [List.reverse_append, hq, dropWhile_reverse h]
    simp
  have hall : p.reverse.all (· = '/') = true :=
    List.all_eq_true.mpr fun c hc => decide_eq_true (hp c (List.mem_reverse.mp hc))
  rw [dirname, hhead]
  simp only [hall, if_true, List.reverse_reverse]

-- What is added to a directory is in this directory.
theorem dirname_join_dirname {name : List Char} (hname : Name name) (p : List Char) :
    dirname (join (dirname p) name) = dirname p := by
  rcases dirname_cases p with hopen | hall
  · rw [join_of_open hopen hname, dirname_append hopen hname.2]
  · by_cases hnil : dirname p = []
    · rw [hnil, join_nil_of_name hname, dirname_of_name hname]
    · have hlast : (dirname p).getLast? = some '/' := by
        rw [List.getLast?_eq_some_getLast hnil, hall _ (List.getLast_mem hnil)]
      rw [join, if_neg hname.head?_ne, if_pos (Or.inr hlast)]
      exact dirname_append_of_slashes hall hnil hname.2

theorem splitOn_intercalate {names : List (List Char)} (hne : names ≠ [])
    (h : ∀ name ∈ names, Name name) : (['/'].intercalate names).splitOn '/' = names :=
  List.splitOn_intercalate '/' (fun name hname => (h name hname).2) hne

-- The directories of a path, by their names.
theorem splitOn_dirname {names : List (List Char)} {name : List Char}
    (h : ∀ n ∈ names ++ [name], Name n) :
    ((dirname (['/'].intercalate (names ++ [name]))).splitOn '/').filter (· ≠ []) = names := by
  rw [List.forall_mem_append, List.forall_mem_singleton] at h
  cases names with
  | nil => simp [dirname_of_name h.2]
  | cons first names =>
      have hfirst := (List.forall_mem_cons.mp h.1).1
      have hnames := (List.forall_mem_cons.mp h.1).2
      have hpath : ['/'].intercalate (first :: names ++ [name]) =
          ['/'].intercalate (first :: names) ++ '/' :: name := by
        rw [List.cons_append, intercalate_cons, intercalate_cons, List.flatMap_append]
        simp
      have hopen : Open (['/'].intercalate (first :: names)) := by
        rw [intercalate_cons, ← foldl_join hfirst.isOpen hnames]
        exact open_foldl_join hfirst.isOpen hnames
      rw [hpath, dirname_append hopen h.2.2, splitOn_intercalate (List.cons_ne_nil _ _) h.1,
        List.filter_eq_self]
      exact fun n hn => by simpa using (h.1 n hn).1

end Ccp.Lib.PosixPath
