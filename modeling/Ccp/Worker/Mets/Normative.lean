import Ccp.Worker.Mets

namespace Ccp.Worker.Mets

open Lib PosixPath

namespace Div

variable {f g : Div → Div} {address : List Nat}

theorem modifyAt_cons (i : ℕ) (address : List Nat) (f : Div → Div) (type : DivType)
    (label : Str) (dmdID : Option Str) (children : List Div) :
    modifyAt (i :: address) f (mk type label dmdID children) =
      mk type label dmdID (children.modify i (modifyAt address f)) := rfl

theorem at?_cons (i : ℕ) (address : List Nat) (type : DivType) (label : Str)
    (dmdID : Option Str) (children : List Div) :
    at? (i :: address) (mk type label dmdID children) = (children[i]?).bind (at? address) := rfl

theorem at?_modifyAt (address : List Nat) (f : Div → Div) (d : Div) :
    at? address (modifyAt address f d) = (at? address d).map f := by
  induction address generalizing d with
  | nil => rfl
  | cons i address ih =>
      obtain ⟨type, label, dmdID, children⟩ := d
      simp only [modifyAt_cons, at?_cons, List.getElem?_modify_eq]
      cases children[i]? with
      | none => rfl
      | some child => exact ih child

theorem modifyAt_modifyAt (address : List Nat) (f g : Div → Div) (d : Div) :
    modifyAt address f (modifyAt address g d) = modifyAt address (fun x => f (g x)) d := by
  induction address generalizing d with
  | nil => rfl
  | cons i address ih =>
      obtain ⟨type, label, dmdID, children⟩ := d
      simp only [modifyAt_cons, List.modify_modify_eq, mk.injEq, true_and]
      congr 1
      funext x
      exact ih x

theorem modifyAt_append (front back : List Nat) (f : Div → Div) (d : Div) :
    modifyAt (front ++ back) f d = modifyAt front (modifyAt back f) d := by
  induction front generalizing d with
  | nil => rfl
  | cons i front ih =>
      obtain ⟨type, label, dmdID, children⟩ := d
      simp only [List.cons_append, modifyAt_cons, mk.injEq, true_and]
      congr 1
      funext x
      exact ih x

theorem at?_append (front back : List Nat) (d : Div) :
    at? (front ++ back) d = (at? front d).bind (at? back) := by
  induction front generalizing d with
  | nil => rfl
  | cons i front ih =>
      obtain ⟨type, label, dmdID, children⟩ := d
      simp only [List.cons_append, at?_cons]
      cases children[i]? with
      | none => rfl
      | some child => exact ih child

theorem modifyAt_congr {d x : Div} (h : at? address d = some x) (hfg : f x = g x) :
    modifyAt address f d = modifyAt address g d := by
  induction address generalizing d with
  | nil =>
      obtain rfl := Option.some.inj h
      exact hfg
  | cons i address ih =>
      obtain ⟨type, label, dmdID, children⟩ := d
      simp only [at?_cons] at h
      obtain ⟨child, hchild, hrest⟩ := Option.bind_eq_some_iff.mp h
      simp only [modifyAt_cons, mk.injEq, true_and]
      apply List.ext_getElem?
      intro j
      by_cases hj : i = j
      · subst hj
        rw [List.getElem?_modify_eq, List.getElem?_modify_eq, hchild]
        exact congrArg some (ih hrest)
      · rw [List.getElem?_modify_ne _ _ hj, List.getElem?_modify_ne _ _ hj]

theorem modifyAt_of_eq {d x : Div} (h : at? address d = some x) (hf : f x = x) :
    modifyAt address f d = d := by
  have hid : ∀ (address : List Nat) (d : Div), modifyAt address (fun x => x) d = d := by
    intro address
    induction address with
    | nil => exact fun d => rfl
    | cons i address ih =>
        rintro ⟨type, label, dmdID, children⟩
        have hfun : modifyAt address (fun x => x) = id := funext ih
        simp only [modifyAt_cons, hfun, List.modify_id]
  rw [modifyAt_congr (g := fun x => x) h hf, hid]

theorem modifyAt_size (x c : Div) (f : Div → Div) :
    modifyAt [x.size] f (x.add [c]) = x.add [f c] := by
  obtain ⟨type, label, dmdID, children⟩ := x
  simp only [add, size, modifyAt, mk.injEq, true_and]
  rw [List.modify_eq_take_drop]
  simp

theorem at?_size (x c : Div) : at? [x.size] (x.add [c]) = some c := by
  obtain ⟨type, label, dmdID, children⟩ := x
  simp [add, size, at?]

-- What is done to the last child is done to what was added.
theorem modifyAt_last {d x : Div} (h : at? address d = some x) (c : Div) (f : Div → Div) :
    modifyAt (address ++ [x.size]) f (modifyAt address (·.add [c]) d) =
      modifyAt address (·.add [f c]) d := by
  rw [modifyAt_append, modifyAt_modifyAt]
  exact modifyAt_congr h (modifyAt_size x c f)

theorem at?_last {d x : Div} (h : at? address d = some x) (c : Div) :
    at? (address ++ [x.size]) (modifyAt address (·.add [c]) d) = some c := by
  rw [at?_append, at?_modifyAt, h]
  exact at?_size x c

theorem add_add (xs ys : List Div) (d : Div) : (d.add xs).add ys = d.add (xs ++ ys) := by
  obtain ⟨type, label, dmdID, children⟩ := d
  simp only [add, List.append_assoc]

end Div

-- Strictly below a path.
def Below (p key : Str) : Prop := ∃ rest, key = p ++ '/' :: rest

theorem not_below_self (p : Str) : ¬ Below p p := by
  rintro ⟨rest, h⟩
  have hlen := congrArg List.length h
  simp at hlen

theorem below_trans {p name key : Str} (h : Below (p ++ '/' :: name) key) : Below p key := by
  obtain ⟨rest, rfl⟩ := h
  exact ⟨name ++ '/' :: rest, by simp⟩

-- The items put new children into the element of one path, and nothing else changes
-- but what is known of the paths below it.
def Fills (items : List FSItem) (p : Str) (shows : List Div → Prop) : Prop :=
  ∀ (b : Build) (address : List Nat) (d : Div), Dict.get? b.pathToEl p = some address →
    b.root.at? address = some d →
    ∃ new b', addNormativeStructmapDiv items b = some b' ∧ shows new ∧
      b'.root = b.root.modifyAt address (·.add new) ∧
      ∀ key, ¬ Below p key → Dict.get? b'.pathToEl key = Dict.get? b.pathToEl key

theorem fills_nil (p : Str) : Fills [] p (· = []) := by
  intro b address d hpath hat
  refine ⟨[], b, rfl, rfl, ?_, fun key _ => rfl⟩
  refine (Div.modifyAt_of_eq hat ?_).symm
  obtain ⟨type, label, dmdID, children⟩ := d
  simp only [Div.add, List.append_nil]

theorem fills_append {items items' : List FSItem} {p : Str} {shows shows' : List Div → Prop}
    (h : Fills items p shows) (h' : Fills items' p shows') :
    Fills (items ++ items') p fun new => ∃ xs ys, new = xs ++ ys ∧ shows xs ∧ shows' ys := by
  intro b address d hpath hat
  obtain ⟨xs, b₁, hadd, hxs, hroot, hkeys⟩ := h b address d hpath hat
  have hat₁ : b₁.root.at? address = some (d.add xs) := by
    rw [hroot, Div.at?_modifyAt, hat]
    rfl
  have hpath₁ : Dict.get? b₁.pathToEl p = some address := by
    rw [hkeys p (not_below_self p), hpath]
  obtain ⟨ys, b₂, hadd', hys, hroot', hkeys'⟩ := h' b₁ address (d.add xs) hpath₁ hat₁
  refine ⟨xs ++ ys, b₂, ?_, ⟨xs, ys, rfl, hxs, hys⟩, ?_, fun key hkey => ?_⟩
  · rw [addNormativeStructmapDiv, List.foldlM_append]
    exact Option.bind_eq_some_iff.mpr ⟨b₁, hadd, hadd'⟩
  · rw [hroot', hroot, Div.modifyAt_modifyAt]
    simp only [Div.add_add]
  · rw [hkeys' key hkey, hkeys key hkey]

-- What one turn does: the element of the parent gets a child, and the path leads to
-- it, unless it is an empty directory that is passed over.
theorem addDiv_eq (b : Build) (item : FSItem) {address : List Nat} {d : Div}
    (hpath : Dict.get? b.pathToEl (dirname item.path) = some address)
    (hat : b.root.at? address = some d) :
    ∃ dmdID b', addDiv b item = some b' ∧ (item.isEmpty = false → dmdID = none) ∧
      b'.root = b.root.modifyAt address
        (·.add [.mk (.of item.type) (basename item.path) dmdID []]) ∧
      (item.isEmpty = true ∧ b'.pathToEl = b.pathToEl ∨
        b'.pathToEl = Dict.set b.pathToEl item.path (address ++ [d.size])) := by
  simp only [addDiv, hpath, hat, Option.bind_some, Option.map_some, Option.some.injEq]
  cases hempty : item.isEmpty with
  | false => exact ⟨none, _, rfl, fun _ => rfl, rfl, Or.inr rfl⟩
  | true =>
      by_cases hskip : transfers.isPrefixOf item.path
      · refine ⟨none, _, rfl, fun _ => rfl, ?_, Or.inl ⟨rfl, ?_⟩⟩
        · simp [hskip]
        · simp [hskip]
      · refine ⟨some (dmdSecID (b.globalDmdSecCounter + 1)), _, rfl, by simp, ?_, Or.inr ?_⟩
        · simp [hskip]
        · simp [hskip]

theorem dirname_join {p name : Str} (hp : Open p) (hname : Name name) :
    dirname (join p name) = p := by
  rw [join_of_open hp hname, dirname_append hp hname.2]

theorem basename_join {p name : Str} (hp : Open p) (hname : Name name) :
    basename (join p name) = name := by
  rw [join_of_open hp hname, basename_append hname.2]

theorem below_join {p name : Str} (hp : Open p) (hname : Name name) : Below p (join p name) :=
  ⟨name, join_of_open hp hname⟩

theorem fills_file {p name : Str} (hp : Open p) (hname : Name name) :
    Fills [⟨.file, join p name, false⟩] p (· = [.mk .item name none []]) := by
  intro b address d hpath hat
  have hdir := dirname_join hp hname
  have hbase := basename_join hp hname
  obtain ⟨dmdID, b', hadd, hnone, hroot, hkeys⟩ :=
    addDiv_eq b ⟨.file, join p name, false⟩ (by rw [hdir]; exact hpath) hat
  obtain rfl := hnone rfl
  rw [hbase] at hroot
  refine ⟨_, b', ?_, rfl, hroot, fun key hkey => ?_⟩
  · rw [addNormativeStructmapDiv, List.foldlM_cons, hadd]
    rfl
  · rcases hkeys with ⟨hempty, -⟩ | hkeys
    · cases hempty
    · rw [hkeys, Dict.get?_set, if_neg]
      rintro rfl
      exact hkey (below_join hp hname)

theorem fills_files {p : Str} (hp : Open p) {names : List Str} (hnames : ∀ name ∈ names, Name name) :
    Fills (names.map fun name => ⟨.file, join p name, false⟩) p
      (· = names.map fun name => .mk .item name none []) := by
  induction names with
  | nil => exact fills_nil p
  | cons name names ih =>
      have hfirst := fills_file hp (hnames name List.mem_cons_self)
      have hrest := ih fun n hn => hnames n (List.mem_cons_of_mem name hn)
      intro b address d hpath hat
      obtain ⟨new, b', hadd, ⟨xs, ys, rfl, rfl, rfl⟩, hroot⟩ :=
        fills_append hfirst hrest b address d hpath hat
      exact ⟨_, b', hadd, rfl, hroot⟩

-- The items of a directory, the one for itself included, put one child into the
-- element of the directory it is in.
theorem exists_dir {b : Build} {address : List Nat} {d : Div} {path : Str} {items : List FSItem}
    {isEmpty : Bool} {shows : List Div → Prop}
    (hpath : Dict.get? b.pathToEl (dirname path) = some address) (hat : b.root.at? address = some d)
    (hempty : isEmpty = true → items = [] ∧ shows []) (h : Fills items path shows) :
    ∃ dmdID children b', addNormativeStructmapDiv (⟨.dir, path, isEmpty⟩ :: items) b = some b' ∧
      shows children ∧
      b'.root = b.root.modifyAt address (·.add [.mk .directory (basename path) dmdID children]) ∧
      ∀ key, path ≠ key → ¬ Below path key →
        Dict.get? b'.pathToEl key = Dict.get? b.pathToEl key := by
  obtain ⟨dmdID, b₁, hadd, -, hroot, hkeys⟩ := addDiv_eq b ⟨.dir, path, isEmpty⟩ hpath hat
  simp only [DivType.of] at hroot
  rcases hkeys with ⟨hisEmpty, hkeys⟩ | hkeys
  · obtain ⟨rfl, hshows⟩ := hempty hisEmpty
    refine ⟨dmdID, [], b₁, ?_, hshows, hroot, fun key _ _ => by rw [hkeys]⟩
    rw [addNormativeStructmapDiv, List.foldlM_cons, hadd]
    rfl
  · have hpath₁ : Dict.get? b₁.pathToEl path = some (address ++ [d.size]) := by
      rw [hkeys, Dict.get?_set, if_pos rfl]
    have hat₁ : b₁.root.at? (address ++ [d.size]) = some (.mk .directory (basename path) dmdID []) := by
      rw [hroot]
      exact Div.at?_last hat _
    obtain ⟨children, b₂, hadd', hshows, hroot', hkeys'⟩ := h b₁ _ _ hpath₁ hat₁
    refine ⟨dmdID, children, b₂, ?_, hshows, ?_, fun key hne hbelow => ?_⟩
    · rw [addNormativeStructmapDiv, List.foldlM_cons, hadd]
      exact hadd'
    · rw [hroot', hroot, Div.modifyAt_last hat]
      simp only [Div.add, List.nil_append]
    · rw [hkeys' key hbelow, hkeys, Dict.get?_set, if_neg hne]

theorem fills_dir {p name : Str} {items : List FSItem} {isEmpty : Bool} {shows : List Div → Prop}
    (hp : Open p) (hname : Name name) (hempty : isEmpty = true → items = [] ∧ shows [])
    (h : Fills items (join p name) shows) :
    Fills (⟨.dir, join p name, isEmpty⟩ :: items) p fun new =>
      ∃ dmdID children, new = [.mk .directory name dmdID children] ∧ shows children := by
  intro b address d hpath hat
  rw [← dirname_join hp hname] at hpath
  obtain ⟨dmdID, children, b', hadd, hshows, hroot, hkeys⟩ := exists_dir hpath hat hempty h
  rw [basename_join hp hname] at hroot
  refine ⟨_, b', hadd, ⟨dmdID, children, rfl, hshows⟩, hroot, fun key hkey => hkeys key ?_ ?_⟩
  · rintro rfl
    exact hkey (below_join hp hname)
  · rw [join_of_open hp hname]
    exact fun hbelow => hkey (below_trans hbelow)

-- The children that a directory has in the document: its files, then its directories.
inductive Shows : Entries → List Div → Prop
  | nil : Shows .nil []
  | file {name : Str} {rest : Entries} {divs : List Div} (h : Shows rest divs) :
      Shows (.file name rest) divs
  | link {name : Str} {rest : Entries} {divs : List Div} (h : Shows rest divs) :
      Shows (.link name rest) divs
  | dir {name : Str} {sub rest : Entries} {inner divs : List Div} (dmdID : Option Str)
      (hsub : Shows sub inner) (hrest : Shows rest divs) :
      Shows (.dir name sub rest) (.mk .directory name dmdID
        ((sub.files.map fun name => .mk .item name none []) ++ inner) :: divs)

theorem Entries.name_of_mem_files {entries : Entries} (h : entries.Named) :
    ∀ name ∈ entries.files, Name name := by
  induction entries with
  | nil => intro name hname; cases hname
  | file n rest ih =>
      intro name hname
      rcases List.mem_cons.mp hname with rfl | hname
      · exact h.1
      · exact ih h.2 name hname
  | link n rest ih => exact ih h.2
  | dir n sub rest ihsub ihrest => exact ihrest h.2.2

-- The walk below a directory, when its paths are taken relative.
def relativeWalk (p : Str) : Entries → List FSItem
  | .nil => []
  | .file _ rest => relativeWalk p rest
  | .link _ rest => relativeWalk p rest
  | .dir name sub rest =>
      ⟨.dir, join p name, sub = .nil⟩ ::
        (sub.files.map fun n => ⟨.file, join (join p name) n, false⟩) ++
        relativeWalk (join p name) sub ++ relativeWalk p rest

theorem fills_walk {p : Str} (hp : Open p) {entries : Entries} (h : entries.Named) :
    Fills (relativeWalk p entries) p (Shows entries) := by
  induction entries generalizing p with
  | nil =>
      intro b address d hpath hat
      obtain ⟨new, b', hadd, rfl, hrest⟩ := fills_nil p b address d hpath hat
      exact ⟨[], b', hadd, .nil, hrest⟩
  | file name rest ih =>
      intro b address d hpath hat
      obtain ⟨new, b', hadd, hshows, hrest⟩ := ih hp h.2 b address d hpath hat
      exact ⟨new, b', hadd, .file hshows, hrest⟩
  | link name rest ih =>
      intro b address d hpath hat
      obtain ⟨new, b', hadd, hshows, hrest⟩ := ih hp h.2 b address d hpath hat
      exact ⟨new, b', hadd, .link hshows, hrest⟩
  | dir name sub rest ihsub ihrest =>
      obtain ⟨hname, hsub, hrest⟩ := h
      have hopen := open_join hp hname
      have hfiles := fills_files hopen (Entries.name_of_mem_files hsub)
      have hinside := fills_append hfiles (ihsub hopen hsub)
      have hdir := @fills_dir p name _ (decide (sub = .nil)) _ hp hname ?_ hinside
      · intro b address d hpath hat
        obtain ⟨new, b', hadd, ⟨xs, ys, rfl, hxs, hys⟩, hroot⟩ :=
          fills_append hdir (ihrest hp hrest) b address d hpath hat
        obtain ⟨dmdID, children, rfl, files, inner, rfl, rfl, hinner⟩ := hxs
        refine ⟨_, b', ?_, .dir dmdID hinner hys, hroot⟩
        simpa only [relativeWalk, List.cons_append] using hadd
      · intro hempty
        obtain rfl := of_decide_eq_true hempty
        exact ⟨rfl, [], [], rfl, rfl, .nil⟩

theorem open_append {base p : Str} (hp : Open p) : Open (base ++ p) := by
  refine ⟨by simp [hp.1], ?_⟩
  rw [List.getLast?_append_of_ne_nil base hp.1]
  exact hp.2

theorem join_append {base p name : Str} (hp : Open p) (hname : Name name) :
    join (base ++ p) name = base ++ join p name := by
  rw [join_of_open (open_append hp) hname, join_of_open hp hname, List.append_assoc]

theorem listing_append {base p : Str} (hbase : base ≠ []) (entries : Entries) :
    listing base (base ++ p) entries = ⟨.dir, p, entries = .nil⟩ ::
      entries.files.map fun name => ⟨.file, join p name, false⟩ := by
  simp only [listing, replaceFirst_append hbase, List.nil_append]

theorem walk_append {base p : Str} (hbase : base ≠ []) (hp : Open p) {entries : Entries}
    (h : entries.Named) : walk base (base ++ p) entries = relativeWalk p entries := by
  induction entries generalizing p with
  | nil => rfl
  | file name rest ih => exact ih hp h.2
  | link name rest ih => exact ih hp h.2
  | dir name sub rest ihsub ihrest =>
      obtain ⟨hname, hsub, hrest⟩ := h
      rw [walk, relativeWalk, join_append hp hname, listing_append hbase,
        ihsub (open_join hp hname) hsub, ihrest hp hrest]

def objects : Str := "objects".toList

theorem open_objects : Open objects := by
  refine ⟨by decide, by decide⟩

-- The structMap is always built, and documents the directory as it is.
theorem getNormativeStructmap_eq {base : Str} (hbase : base.getLast? = some '/') {entries : Entries}
    (h : entries.Named) (globalDmdSecCounter : Nat) :
    ∃ label dmdID inner,
      getNormativeStructmap base (join base objects) entries globalDmdSecCounter =
        some ⟨"logical".toList, normativeLabel, [.mk .directory label none
          [.mk .directory objects dmdID
            ((entries.files.map fun name => .mk .item name none []) ++ inner)]]⟩ ∧
      Shows entries inner := by
  have hne : base ≠ [] := by
    rintro rfl
    cases hbase
  have hpath : join base objects = base ++ objects := by
    rw [join, if_neg (by decide), if_pos (Or.inr hbase)]
  have hitems : getPathsAsFsitems base (base ++ objects) entries =
      ⟨.dir, objects, entries = .nil⟩ ::
        ((entries.files.map fun name => ⟨.file, join objects name, false⟩) ++
          relativeWalk objects entries) := by
    rw [getPathsAsFsitems, listing_append hne, walk_append hne open_objects h, List.cons_append]
  have hinside := fills_append (fills_files open_objects (Entries.name_of_mem_files h))
    (fills_walk open_objects h)
  let label := basename (base.reverse.dropWhile (· = '/')).reverse
  let b : Build := ⟨.mk .directory label none [], [([], [])], globalDmdSecCounter, []⟩
  have hdir := @exists_dir b [] b.root objects _ (decide (entries = .nil)) _ rfl rfl ?_ hinside
  · obtain ⟨dmdID, children, b', hadd, ⟨files, inner, rfl, rfl, hinner⟩, hroot, -⟩ := hdir
    refine ⟨label, dmdID, inner, ?_, hinner⟩
    rw [getNormativeStructmap, hpath, hitems, hadd, Option.map_some, hroot]
    rfl
  · intro hempty
    obtain rfl := of_decide_eq_true hempty
    exact ⟨rfl, [], [], rfl, rfl, .nil⟩

end Ccp.Worker.Mets
