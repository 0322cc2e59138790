import Ccp.Lib.FilePath
import Ccp.Lib.MapM
import Ccp.Lib.Regex
import Ccp.Package.Location
import Ccp.Replacement.Files

namespace Ccp.PackageName

open Lib Lib.Re

def word (c : Char) : Bool :=
  ('0' ≤ c ∧ c ≤ '9') ∨ ('A' ≤ c ∧ c ≤ 'Z') ∨ ('a' ≤ c ∧ c ≤ 'z') ∨ c = '_'

-- The point of an expression stands for a line's characters only.
def dot (c : Char) : Bool := c ≠ '\n'

def sep (c : Char) : Bool := c = '/'

def dash (c : Char) : Bool := c = '-'

-- What stands after the name: -[\w]{8}(-[\w]{4}){3}-[\w]{12}. The group in it has no
-- name and is not read.
def suffix : Re Char :=
  seq (one dash) <| seq (rep (one word) 8) <|
    seq (rep (seq (one dash) (rep (one word) 4)) 3) <| seq (one dash) (rep (one word) 12)

-- What stands after the first .* of the two: /(?P<directory>.*)/$ and the same with the suffix.
def newTransferEnd : Re Char := seq (one sep) <| seq (group (many dot)) (one sep)

def transferEnd : Re Char := seq (one sep) <| seq (group (many dot)) <| seq suffix (option sep)

-- ^.*/(?P<directory>.*)/$
def newTransferRegex : Re Char := seq (many dot) newTransferEnd

-- ^.*/(?P<directory>.*)-[\w]{8}(-[\w]{4}){3}-[\w]{12}[/]{0,1}$
def transferRegex : Re Char := seq (many dot) transferEnd

def directory (r : Re Char) (dir : Str) : Option Str := (r.submatch dir).bind List.head?

def withSep (dir : Str) : Str := if ['/'].isSuffixOf dir then dir else dir ++ ['/']

def packageName (id : UUID) (dir : Str) : Str :=
  if dir = [] then id.string
  else ((directory transferRegex dir).or (directory newTransferRegex (withSep dir))).getD id.string

-- The characters of the suffix, one class each.
def classes : List (Char → Bool) :=
  [dash] ++ ((List.replicate 8 [word]).flatten ++
    ((List.replicate 3 ([dash] ++ (List.replicate 4 [word]).flatten)).flatten ++
      ([dash] ++ (List.replicate 12 [word]).flatten)))

-- A text of the form of an identifier after a dash.
def IdLike (s : Str) : Prop := fits classes s

instance (s : Str) : Decidable (IdLike s) := inferInstanceAs (Decidable (_ = true))

theorem fixed_suffix : Fixed suffix classes :=
  fixed_seq (fixed_one dash) <| fixed_seq (fixed_rep (fixed_one word) 8) <|
    fixed_seq (fixed_rep (fixed_seq (fixed_one dash) (fixed_rep (fixed_one word) 4)) 3) <|
      fixed_seq (fixed_one dash) (fixed_rep (fixed_one word) 12)

theorem dot_iff {l : Str} : (∀ c ∈ l, dot c = true) ↔ '\n' ∉ l := by
  simp only [dot, decide_eq_true_eq]
  exact ⟨fun h hmem => h _ hmem rfl, fun h c hc heq => h (heq ▸ hc)⟩

-- Where its dashes are.
def dashes : List ℕ := [0, 9, 14, 19, 24]

theorem classes_eq : classes = (List.range 37).map fun i => if i ∈ dashes then dash else word := rfl

-- What a character of the suffix is not.
theorem ne_of_classes : ∀ p ∈ classes, ∀ c, p c → c ≠ '/' ∧ c ≠ '\n' := by
  intro p hp c hc
  have hone : p = dash ∨ p = word := by
    rw [classes_eq, List.mem_map] at hp
    obtain ⟨i, -, rfl⟩ := hp
    exact ite_eq_or_eq _ dash word
  rcases hone with rfl | rfl
  · obtain rfl : c = '-' := of_decide_eq_true hc
    decide
  · constructor
    · rintro rfl
      exact absurd hc (by decide)
    · rintro rfl
      exact absurd hc (by decide)

namespace IdLike

variable {s t x y d X U V : Str}

theorem length (h : IdLike s) : s.length = 37 := length_of_fits h

theorem sep_nmem (h : IdLike s) : '/' ∉ s := fun hmem => (forall_of_fits h ne_of_classes _ hmem).1 rfl

theorem newline_nmem (h : IdLike s) : '\n' ∉ s := fun hmem =>
  (forall_of_fits h ne_of_classes _ hmem).2 rfl

theorem getElem?_iff (h : IdLike s) {i : ℕ} (hi : i < 37) : s[i]? = some '-' ↔ i ∈ dashes := by
  have hclass : classes[i]? = some (if i ∈ dashes then dash else word) := by
    rw [classes_eq, List.getElem?_map, List.getElem?_range hi, Option.map_some]
  obtain ⟨c, hc, hfits⟩ := exists_of_fits h hclass
  rw [hc, Option.some.injEq]
  split_ifs at hfits with hmem
  · exact iff_of_true (of_decide_eq_true hfits) hmem
  · refine iff_of_false ?_ hmem
    rintro rfl
    exact absurd hfits (by decide)

-- Two such texts do not overlap: a dash of the one would stand where the other has none.
theorem eq_nil_of_overlap (hU : IdLike U) (hV : IdLike V) (h : U ++ s = y ++ (V ++ t))
    (hy : y.length < 37) : y = [] := by
  have hat : ∀ i, y.length + i < 37 → i ∈ dashes → y.length + i ∈ dashes := by
    intro i hi hmem
    have hleft : (U ++ s)[y.length + i]? = U[y.length + i]? :=
      List.getElem?_append_left (by rw [hU.length]; exact hi)
    have hright : (y ++ (V ++ t))[y.length + i]? = V[i]? := by
      rw [List.getElem?_append_right (Nat.le_add_right _ _), Nat.add_sub_cancel_left,
        List.getElem?_append_left (by rw [hV.length]; omega)]
    rw [← hU.getElem?_iff hi, ← hleft, h, hright]
    exact (hV.getElem?_iff (by omega)).mpr hmem
  have hfirst := hat 0 hy (by decide)
  have hsecond := fun hlt => hat 9 hlt (by decide)
  simp only [dashes, List.mem_cons, List.not_mem_nil, or_false] at hfirst hsecond
  rw [← List.length_eq_zero_iff]
  omega

theorem eq_nil_or_infix (hU : IdLike U) (hV : IdLike V) (h : U ++ s = d ++ (V ++ t)) :
    d = [] ∨ U <:+: d := by
  by_cases hd : d.length < 37
  · exact Or.inl (hU.eq_nil_of_overlap hV h hd)
  · refine Or.inr (List.IsPrefix.isInfix ?_)
    refine List.prefix_of_prefix_length_le (List.prefix_append U s) ⟨V ++ t, h.symm⟩ ?_
    rw [hU.length]
    omega

-- There is one first place where such a text stands.
theorem first_unique (hU : IdLike U) (h : x ++ (U ++ s) = X ++ (U ++ t)) (hx : ¬ U <:+: x)
    (hX : ¬ U <:+: X) : x = X ∧ s = t := by
  have hfront : x = X := by
    rcases List.append_eq_append_iff.mp h with ⟨d, rfl, hd⟩ | ⟨d, rfl, hd⟩
    · rcases hU.eq_nil_or_infix hU hd with rfl | hin
      · exact (List.append_nil x).symm
      · exact absurd (hin.trans (List.suffix_append x d).isInfix) hX
    · rcases hU.eq_nil_or_infix hU hd with rfl | hin
      · exact List.append_nil X
      · exact absurd (hin.trans (List.suffix_append X d).isInfix) hx
  subst hfront
  exact ⟨rfl, List.append_cancel_left (List.append_cancel_left h)⟩

-- A text that may stand before the one or after the other is a repetition.
theorem eq_replicate (hU : IdLike U) (hV : IdLike V) (h : y ++ V = U ++ y) :
    V = U ∧ ∃ m, y = (List.replicate m U).flatten := by
  induction hn : y.length using Nat.strongRecOn generalizing y with
  | ind n ih =>
      have hover : U ++ y = y ++ (V ++ []) := by rw [List.append_nil, h]
      by_cases hy : y.length < 37
      · obtain rfl := hU.eq_nil_of_overlap hV hover hy
        rw [List.nil_append, List.append_nil] at h
        exact ⟨h, 0, rfl⟩
      · have hpre : U <+: y := List.prefix_of_prefix_length_le (List.prefix_append U y)
          ⟨V ++ [], hover.symm⟩ (by rw [hU.length]; omega)
        obtain ⟨y, rfl⟩ := hpre
        rw [List.append_assoc] at h
        rw [List.length_append, hU.length] at hn
        obtain ⟨hsame, m, rfl⟩ := ih y.length (by omega) (List.append_cancel_left h) rfl
        exact ⟨hsame, m + 1, rfl⟩

variable {name : Str}

theorem replaceFirst_iff (hU : IdLike U) : replaceFirst U [] name = name ↔ ¬ U <:+: name := by
  refine ⟨fun h hin => ?_, fun h => replaceFirst_of_absent h []⟩
  have hne : U ≠ [] := List.length_pos_iff.mp (by rw [hU.length]; decide)
  obtain ⟨x, y, hname, -, hreplaced⟩ := exists_replaceFirst hne hin []
  have hlen := congrArg List.length (hname.symm.trans (h.symm.trans hreplaced))
  simp only [List.length_append, hU.length, List.length_nil] at hlen
  omega

-- Taking the identifier out once leaves the name only where the text after the name is it
-- and the name has it at its end alone.
theorem replaceFirst_append_iff (hU : IdLike U) (hV : IdLike V) :
    replaceFirst U [] (name ++ V) = name ↔
      V = U ∧ ∃ x m, name = x ++ (List.replicate m U).flatten ∧ ¬ U <:+: x := by
  have hne : U ≠ [] := List.length_pos_iff.mp (by rw [hU.length]; decide)
  constructor
  · intro h
    by_cases hin : U <:+: name ++ V
    · obtain ⟨x, y, hname, hx, hreplaced⟩ := exists_replaceFirst hne hin []
      rw [h, List.nil_append] at hreplaced
      subst hreplaced
      rw [List.append_assoc] at hname
      obtain ⟨hsame, m, rfl⟩ := hU.eq_replicate hV (List.append_cancel_left hname)
      exact ⟨hsame, x, m, rfl, hx⟩
    · rw [replaceFirst_of_absent hin] at h
      have hlen := congrArg List.length h
      rw [List.length_append, hV.length] at hlen
      omega
  · rintro ⟨rfl, x, m, rfl, hx⟩
    have hback : (List.replicate m V).flatten ++ V = V ++ (List.replicate m V).flatten := by
      rw [← List.flatten_concat, ← List.replicate_succ', List.replicate_succ, List.flatten_cons]
    rw [List.append_assoc, hback]
    have hin : V <:+: x ++ (V ++ (List.replicate m V).flatten) := ⟨x, _, by rw [List.append_assoc]⟩
    obtain ⟨x', y', hsame, hx', hreplaced⟩ := exists_replaceFirst hne hin []
    obtain ⟨rfl, rfl⟩ := hV.first_unique hsame hx hx'
    rw [hreplaced, List.nil_append]

end IdLike

section Expressions

variable {s parent name dir U e w w' e' : Str} {groups : List Str}

theorem matches_transferEnd_iff : transferEnd.Matches s groups ↔ ∃ name U e,
    s = '/' :: (name ++ (U ++ e)) ∧ '\n' ∉ name ∧ IdLike U ∧ (e = [] ∨ e = ['/']) ∧
      groups = [name] := by
  simp only [transferEnd, Matches, dot_iff, sep]
  constructor
  · rintro ⟨_, _, _, _, ⟨⟨c, hc, rfl⟩, rfl⟩, ⟨name, _, _, _, ⟨_, ⟨hname, rfl⟩, rfl⟩,
      ⟨U, _, e, _, hU, ⟨he, rfl⟩, rfl, rfl⟩, rfl, rfl⟩, rfl, rfl⟩
    obtain rfl : c = '/' := of_decide_eq_true hc
    obtain ⟨hfits, rfl⟩ := (fixed_suffix U _).mp hU
    refine ⟨name, U, e, rfl, hname, hfits, he.imp_right ?_, rfl⟩
    rintro ⟨d, hd, rfl⟩
    rw [of_decide_eq_true hd]
  · rintro ⟨name, U, e, rfl, hname, hU, he, rfl⟩
    exact ⟨['/'], [], _, [name], ⟨⟨'/', rfl, rfl⟩, rfl⟩, ⟨name, [name], U ++ e, [],
      ⟨[], ⟨hname, rfl⟩, rfl⟩, ⟨U, [], e, [], (fixed_suffix U []).mpr ⟨hU, rfl⟩,
        ⟨he.imp_right fun heq => ⟨'/', rfl, heq⟩, rfl⟩, rfl, rfl⟩, rfl, rfl⟩, rfl, rfl⟩

theorem matches_newTransferEnd_iff : newTransferEnd.Matches s groups ↔ ∃ name,
    s = '/' :: (name ++ ['/']) ∧ '\n' ∉ name ∧ groups = [name] := by
  simp only [newTransferEnd, Matches, dot_iff, sep]
  constructor
  · rintro ⟨_, _, _, _, ⟨⟨c, hc, rfl⟩, rfl⟩, ⟨name, _, _, _, ⟨_, ⟨hname, rfl⟩, rfl⟩,
      ⟨⟨d, hd, rfl⟩, rfl⟩, rfl, rfl⟩, rfl, rfl⟩
    obtain rfl : c = '/' := of_decide_eq_true hc
    obtain rfl : d = '/' := of_decide_eq_true hd
    exact ⟨name, rfl, hname, rfl⟩
  · rintro ⟨name, rfl, hname, rfl⟩
    exact ⟨['/'], [], _, [name], ⟨⟨'/', rfl, rfl⟩, rfl⟩, ⟨name, [name], ['/'], [],
      ⟨[], ⟨hname, rfl⟩, rfl⟩, ⟨⟨'/', rfl, rfl⟩, rfl⟩, rfl, rfl⟩, rfl, rfl⟩

theorem not_endsWith_sep (he : e ≠ []) (hsep : '/' ∉ e) (s : Str) : ¬ ['/'] <:+ s ++ e := by
  intro h
  have hlast : ['/'] <:+ e := List.suffix_of_suffix_length_le h (List.suffix_append s e)
    (List.length_pos_iff.mpr he)
  exact hsep (hlast.mem List.mem_cons_self)

-- A separator at the end is told from what stands before it.
theorem cut_sep (he : e = [] ∨ e = ['/']) (he' : e' = [] ∨ e' = ['/']) (hw : ¬ ['/'] <:+ w)
    (hw' : ¬ ['/'] <:+ w') (h : w ++ e = w' ++ e') : w = w' := by
  rcases he with rfl | rfl
  · rcases he' with rfl | rfl
    · simpa using h
    · rw [List.append_nil] at h
      exact absurd (h ▸ List.suffix_append w' ['/']) hw
  · rcases he' with rfl | rfl
    · rw [List.append_nil] at h
      exact absurd (h ▸ List.suffix_append w ['/']) hw'
    · exact List.append_cancel_right h

-- The last separator but one at the end.
theorem parent_unique {z rest : Str} (hsep : '/' ∉ w) (hrest : 0 < rest.length) (he : e.length ≤ 1)
    (h : parent ++ '/' :: (w ++ e) = z ++ '/' :: rest) (hlen : parent.length ≤ z.length) :
    z = parent ∧ rest = w ++ e := by
  rcases List.append_eq_append_iff.mp h with ⟨d, rfl, hd⟩ | ⟨d, rfl, hd⟩
  · cases d with
    | nil =>
        rw [List.append_nil]
        exact ⟨rfl, (List.cons.inj hd).2.symm⟩
    | cons c d =>
        obtain ⟨-, hd⟩ := List.cons.inj hd
        rcases List.append_eq_append_iff.mp hd with ⟨a, rfl, ha⟩ | ⟨a, rfl, ha⟩
        · have hle := congrArg List.length ha
          simp only [List.length_append, List.length_cons] at hle
          omega
        · cases a with
          | nil =>
              have hle := congrArg List.length ha
              simp only [List.nil_append, List.length_cons] at hle
              omega
          | cons b a =>
              obtain ⟨rfl, -⟩ := List.cons.inj ha
              exact absurd (List.mem_append_right d List.mem_cons_self) hsep
  · rw [List.length_append] at hlen
    obtain rfl := List.length_eq_zero_iff.mp (show d.length = 0 by omega)
    rw [List.append_nil]
    exact ⟨rfl, (List.cons.inj hd).2⟩

theorem directory_transferRegex (hparent : '\n' ∉ parent) (hname : '\n' ∉ name)
    (hsep : '/' ∉ name) (hU : IdLike U) (he : e = [] ∨ e = ['/']) :
    directory transferRegex (parent ++ '/' :: (name ++ (U ++ e))) = some name := by
  have hend : transferEnd.Matches ('/' :: (name ++ (U ++ e))) [name] :=
    matches_transferEnd_iff.mpr ⟨name, U, e, rfl, hname, hU, he, rfl⟩
  obtain ⟨groups, hfound⟩ : ∃ groups,
      transferRegex.submatch (parent ++ '/' :: (name ++ (U ++ e))) = some groups :=
    exists_submatch ⟨parent, [], _, [name], ⟨dot_iff.mpr hparent, rfl⟩, hend, rfl, rfl⟩
  obtain ⟨z, rest, hs, -, hrest, hmost⟩ := longest_of_submatch hfound
  obtain ⟨name', U', e', rfl, -, hU', he', rfl⟩ := matches_transferEnd_iff.mp hrest
  have hword : '/' ∉ name ++ U := by
    rw [List.mem_append, not_or]
    exact ⟨hsep, hU.sep_nmem⟩
  have hne : ∀ {V : Str}, IdLike V → V ≠ [] := fun hV =>
    List.length_pos_iff.mp (by rw [hV.length]; decide)
  rw [← List.append_assoc name] at hs
  obtain ⟨-, hsame⟩ := parent_unique hword (by rw [List.length_append, List.length_append, hU'.length]; omega)
    (by rcases he with rfl | rfl <;> simp) hs
    (hmost parent _ [name] rfl (dot_iff.mpr hparent) hend)
  rw [← List.append_assoc] at hsame
  have hcut := cut_sep he' he (not_endsWith_sep (hne hU') hU'.sep_nmem name')
    (not_endsWith_sep (hne hU) hU.sep_nmem name) hsame
  obtain ⟨rfl, -⟩ := List.append_inj' hcut (hU'.length.trans hU.length.symm)
  rw [directory, hfound]
  rfl

theorem exists_of_directory_transferRegex (h : directory transferRegex dir = some name) :
    ∃ parent U e, dir = parent ++ '/' :: (name ++ (U ++ e)) ∧ '\n' ∉ parent ∧ '\n' ∉ name ∧
      IdLike U ∧ (e = [] ∨ e = ['/']) := by
  obtain ⟨groups, hfound, hhead⟩ := Option.bind_eq_some_iff.mp h
  obtain ⟨parent, _, rest, _, ⟨hparent, rfl⟩, hrest, rfl, rfl⟩ := matches_of_submatch hfound
  obtain ⟨name', U, e, rfl, hname, hU, he, rfl⟩ := matches_transferEnd_iff.mp hrest
  obtain rfl := Option.some.inj hhead
  exact ⟨parent, U, e, rfl, dot_iff.mp hparent, hname, hU, he⟩

theorem directory_newTransferRegex (hparent : '\n' ∉ parent) (hname : '\n' ∉ name)
    (hsep : '/' ∉ name) :
    directory newTransferRegex (parent ++ '/' :: (name ++ ['/'])) = some name := by
  have hend : newTransferEnd.Matches ('/' :: (name ++ ['/'])) [name] :=
    matches_newTransferEnd_iff.mpr ⟨name, rfl, hname, rfl⟩
  obtain ⟨groups, hfound⟩ : ∃ groups,
      newTransferRegex.submatch (parent ++ '/' :: (name ++ ['/'])) = some groups :=
    exists_submatch ⟨parent, [], _, [name], ⟨dot_iff.mpr hparent, rfl⟩, hend, rfl, rfl⟩
  obtain ⟨z, rest, hs, -, hrest, hmost⟩ := longest_of_submatch hfound
  obtain ⟨name', rfl, -, rfl⟩ := matches_newTransferEnd_iff.mp hrest
  obtain ⟨-, hsame⟩ := parent_unique hsep (by simp) (by simp) hs
    (hmost parent _ [name] rfl (dot_iff.mpr hparent) hend)
  obtain rfl := List.append_cancel_right hsame
  rw [directory, hfound]
  rfl

theorem exists_of_directory_newTransferRegex (h : directory newTransferRegex dir = some name) :
    ∃ parent, dir = parent ++ '/' :: (name ++ ['/']) ∧ '\n' ∉ parent ∧ '\n' ∉ name := by
  obtain ⟨groups, hfound, hhead⟩ := Option.bind_eq_some_iff.mp h
  obtain ⟨parent, _, rest, _, ⟨hparent, rfl⟩, hrest, rfl, rfl⟩ := matches_of_submatch hfound
  obtain ⟨name', rfl, hname, rfl⟩ := matches_newTransferEnd_iff.mp hrest
  obtain rfl := Option.some.inj hhead
  exact ⟨parent, rfl, dot_iff.mp hparent, hname⟩

end Expressions

-- The identifier in any letter case.
def TextOf (id : UUID) (text : Str) : Prop := text.length = 36 ∧ UUID.parse text = some id

instance (id : UUID) (text : Str) : Decidable (TextOf id text) := inferInstanceAs (Decidable (_ ∧ _))

def EndsIn (id : UUID) (path : Str) : Prop :=
  ∃ front text slashes, path = front ++ text ++ slashes ∧ TextOf id text ∧ ∀ c ∈ slashes, c = '/'

section Text

variable {id : UUID} {text path : Str}

theorem textOf_string (id : UUID) : TextOf id id.string := ⟨id.length_string, id.parse_string⟩

theorem word_of_hexValue {c : Char} {n : ℕ} (h : UUID.hexValue c = some n) : word c := by
  have hle : ∀ {a b x y : Char}, a ≤ c ∧ c ≤ b → x ≤ a → b ≤ y → x ≤ c ∧ c ≤ y :=
    fun h hx hy => ⟨Char.le_trans hx h.1, Char.le_trans h.2 hy⟩
  unfold UUID.hexValue at h
  refine decide_eq_true ?_
  split_ifs at h with hdigit hlower hupper
  · exact Or.inl hdigit
  · exact Or.inr (Or.inr (Or.inl (hle hlower (Char.le_refl _) (by decide))))
  · exact Or.inr (Or.inl (hle hupper (Char.le_refl _) (by decide)))

-- Its characters are those of the suffix.
theorem TextOf.idLike (h : TextOf id text) : IdLike ('-' :: text) := by
  obtain ⟨hlen, hparse⟩ := h
  rw [UUID.parse, if_pos hlen, UUID.parseDashed] at hparse
  split_ifs at hparse with hdash
  obtain ⟨h8, h13, h18, h23⟩ := hdash
  obtain ⟨values, hvalues, -⟩ := Option.map_eq_some_iff.mp hparse
  have hword : ∀ c ∈ text.take 8 ++ (text.drop 9).take 4 ++ (text.drop 14).take 4 ++
      (text.drop 19).take 4 ++ (text.drop 24).take 12, word c := by
    intro c hc
    have hvalue := List.mem_map_of_mem (f := UUID.hexValue) hc
    rw [← MapM.mapM_eq_some_iff.mp hvalues] at hvalue
    obtain ⟨n, -, hn⟩ := List.mem_map.mp hvalue
    exact word_of_hexValue hn.symm
  -- the five runs of digits
  have hrun : ∀ {first n i : ℕ} {c : Char}, text[i]? = some c → first ≤ i → i < first + n →
      c ∈ (text.drop first).take n := by
    intro first n i c hc hfirst hi
    refine List.mem_of_getElem? (i := i - first) ?_
    rw [List.getElem?_take_of_lt (by omega), List.getElem?_drop, Nat.add_sub_cancel' hfirst, hc]
  refine fits_of_getElem? (by rw [List.length_cons, hlen]; rfl) fun i p c hp hc => ?_
  have hi : i < 37 := by
    rw [← List.length_range (n := 37), ← List.length_map, ← classes_eq]
    exact (List.getElem?_eq_some_iff.mp hp).1
  rw [classes_eq, List.getElem?_map, List.getElem?_range hi, Option.map_some, Option.some.injEq] at hp
  subst hp
  cases i with
  | zero =>
      obtain rfl : '-' = c := by simpa using hc
      rfl
  | succ i =>
      rw [List.getElem?_cons_succ] at hc
      split_ifs with hmem
      · have hchar : c = '-' := by
          simp only [dashes, List.mem_cons, List.not_mem_nil, or_false] at hmem
          obtain rfl | rfl | rfl | rfl : i = 8 ∨ i = 13 ∨ i = 18 ∨ i = 23 := by omega
          · exact Option.some.inj (hc.symm.trans h8)
          · exact Option.some.inj (hc.symm.trans h13)
          · exact Option.some.inj (hc.symm.trans h18)
          · exact Option.some.inj (hc.symm.trans h23)
        exact decide_eq_true hchar
      · refine hword c ?_
        simp only [List.mem_append]
        simp only [dashes, List.mem_cons, List.not_mem_nil, or_false, not_or] at hmem
        obtain hi | hi | hi | hi | hi : i < 8 ∨ 9 ≤ i ∧ i < 9 + 4 ∨ 14 ≤ i ∧ i < 14 + 4 ∨
            19 ≤ i ∧ i < 19 + 4 ∨ 24 ≤ i ∧ i < 24 + 12 := by omega
        · exact Or.inl (Or.inl (Or.inl (Or.inl (hrun hc (Nat.zero_le i) (by omega)))))
        · exact Or.inl (Or.inl (Or.inl (Or.inr (hrun hc hi.1 hi.2))))
        · exact Or.inl (Or.inl (Or.inr (hrun hc hi.1 hi.2)))
        · exact Or.inl (Or.inr (hrun hc hi.1 hi.2))
        · exact Or.inr (hrun hc hi.1 hi.2)

theorem TextOf.ne_nil (h : TextOf id text) : text ≠ [] := by
  rintro rfl
  exact absurd h.1 (by decide)

theorem TextOf.sep_nmem (h : TextOf id text) : '/' ∉ text := fun hmem =>
  h.idLike.sep_nmem (List.mem_cons_of_mem _ hmem)

theorem uuidFromPath_of_endsIn (h : EndsIn id path) : uuidFromPath path = id := by
  obtain ⟨front, text, slashes, rfl, htext, hslashes⟩ := h
  have htrim : ((front ++ text ++ slashes).reverse.dropWhile (· = '/')).reverse = front ++ text := by
    rw [List.reverse_append, List.dropWhile_append_of_pos fun c hc =>
      decide_eq_true (hslashes c (List.mem_reverse.mp hc)), List.reverse_append]
    obtain ⟨c, rest, hrev⟩ := List.exists_cons_of_ne_nil (List.reverse_ne_nil_iff.mpr htext.ne_nil)
    have hc : c ≠ '/' := fun heq =>
      htext.sep_nmem (heq ▸ List.mem_reverse.mp (hrev ▸ List.mem_cons_self))
    rw [hrev, List.cons_append, List.dropWhile_cons_of_neg (by simpa using hc), ← List.cons_append,
      ← hrev, List.reverse_append, List.reverse_reverse, List.reverse_reverse]
  have hlen : (front ++ text).length = front.length + 36 := by rw [List.length_append, htext.1]
  rw [uuidFromPath, htrim]
  rw [if_neg (by omega), hlen, Nat.add_sub_cancel, List.drop_left, htext.2]
  rfl

theorem uuidFromPath_of_not_endsIn (h : ¬ ∃ id, EndsIn id path) : uuidFromPath path = UUID.nil := by
  obtain ⟨slashes, hpath, hslashes⟩ : ∃ slashes,
      path = (path.reverse.dropWhile (· = '/')).reverse ++ slashes ∧ ∀ c ∈ slashes, c = '/' := by
    refine ⟨(path.reverse.takeWhile (· = '/')).reverse, ?_, fun c hc => ?_⟩
    · rw [← List.reverse_append, List.takeWhile_append_dropWhile, List.reverse_reverse]
    · simpa using List.mem_takeWhile_imp (List.mem_reverse.mp hc)
  rw [uuidFromPath]
  generalize (path.reverse.dropWhile (· = '/')).reverse = trimmed at hpath
  split_ifs with hlen
  · rfl
  · cases hparse : UUID.parse (trimmed.drop (trimmed.length - 36)) with
    | none => rfl
    | some id =>
        refine absurd ⟨id, trimmed.take (trimmed.length - 36), trimmed.drop (trimmed.length - 36),
          slashes, ?_, ⟨?_, hparse⟩, hslashes⟩ h
        · rw [List.take_append_drop, hpath]
        · rw [List.length_drop]
          omega

-- Without an identifier the reader has uuid.Nil.
theorem uuidFromPath_eq_iff :
    (uuidFromPath path = id ↔ EndsIn id path) ↔ id ≠ UUID.nil ∨ ∃ other, EndsIn other path := by
  by_cases hother : ∃ other, EndsIn other path
  · refine iff_of_true ⟨fun h => ?_, uuidFromPath_of_endsIn⟩ (Or.inr hother)
    obtain ⟨other, hends⟩ := hother
    rwa [← h, uuidFromPath_of_endsIn hends]
  · rw [uuidFromPath_of_not_endsIn hother, or_iff_left hother]
    have hnone : ¬ EndsIn id path := fun h => hother ⟨id, h⟩
    rw [iff_false_right hnone, ne_comm]

end Text

-- A directory path whose last element is the name with the identifier after it, or the name.
inductive Form
  | withID (text : Str)
  | plain

namespace Form

def dirname (name : Str) : Form → Str
  | withID text => name ++ '-' :: text
  | plain => name

def Valid (id : UUID) (name : Str) : Form → Prop
  | withID text => TextOf id text
  | plain => name ≠ [] ∧ name ≠ ['.'] ∧ name ≠ ['.', '.']

instance (id : UUID) (name : Str) (form : Form) : Decidable (form.Valid id name) :=
  match form with
  | withID text => inferInstanceAs (Decidable (TextOf id text))
  | plain => inferInstanceAs (Decidable (_ ∧ _ ∧ _))

end Form

def path (parent dirname : Str) (slash : Bool) : Str :=
  parent ++ '/' :: dirname ++ if slash then ['/'] else []

structure Agree (p : Package) (path name : Str) : Prop where
  uuid : uuidFromPath path = p.id ↔ EndsIn p.id path
  package : p.name = name
  api : packageName p.id path = name

-- There is no line break for the expressions, or the name is what they give in its place.
def OneLine (id : UUID) (parent name : Str) : Prop :=
  '\n' ∉ parent ∧ '\n' ∉ name ∨ name = id.string

-- The condition under which the three readers agree.
def Form.Agreed (id : UUID) (parent name : Str) (slash : Bool) : Form → Prop
  | withID text =>
      text = id.string ∧
        (∃ x m, name = x ++ (List.replicate m ('-' :: id.string)).flatten ∧ ¬ '-' :: id.string <:+: x) ∧
          OneLine id parent name
  | plain =>
      (id ≠ UUID.nil ∨ ∃ other, EndsIn other (path parent name slash)) ∧
        ¬ '-' :: id.string <:+: name ∧ (¬ ∃ U, IdLike U ∧ U <:+ name) ∧ OneLine id parent name

section Readers

variable {id : UUID} {p : Package} {parent name dirname text : Str} {slash : Bool} {form : Form}

theorem idLike_string (id : UUID) : IdLike ('-' :: id.string) := (textOf_string id).idLike

theorem name_eq (h : FilePath.Proper dirname) (hpath : p.realPath = path parent dirname slash) :
    p.name = replaceFirst ('-' :: p.id.string) [] dirname := by
  rw [Package.name, hpath, path, FilePath.base_clean h]

theorem sep_cases (slash : Bool) :
    (if slash then ['/'] else []) = ([] : Str) ∨ (if slash then ['/'] else []) = ['/'] := by
  cases slash
  · exact Or.inl rfl
  · exact Or.inr rfl

theorem withSep_path (hne : dirname ≠ []) (hsep : '/' ∉ dirname) :
    withSep (path parent dirname slash) = parent ++ '/' :: (dirname ++ ['/']) := by
  have hnot : ¬ ['/'] <:+ parent ++ '/' :: dirname := by
    have hlast := not_endsWith_sep hne hsep (parent ++ ['/'])
    rwa [List.append_assoc, List.singleton_append] at hlast
  cases slash with
  | false =>
      rw [withSep, path, if_neg Bool.false_ne_true, List.append_nil, if_neg]
      · simp
      · rwa [List.isSuffixOf_iff_suffix]
  | true =>
      rw [withSep, path, if_pos rfl, if_pos]
      · simp
      · rw [List.isSuffixOf_iff_suffix]
        exact List.suffix_append _ _

theorem path_ne_nil : path parent dirname slash ≠ [] := by
  simp [path]

-- With a line break both expressions match nothing.
theorem packageName_of_newline (hne : dirname ≠ []) (hsep : '/' ∉ dirname)
    (h : '\n' ∈ parent ∨ '\n' ∈ dirname) :
    packageName id (path parent dirname slash) = id.string := by
  have htransfer : directory transferRegex (path parent dirname slash) = none := by
    rw [Option.eq_none_iff_forall_ne_some]
    intro name hname
    obtain ⟨parent', U, e, hpath, hparent', hname', hU, he⟩ := exists_of_directory_transferRegex hname
    have hmem : '\n' ∈ path parent dirname slash := by
      rw [path, List.mem_append, List.mem_append, List.mem_cons]
      rcases h with h | h
      · exact Or.inl (Or.inl h)
      · exact Or.inl (Or.inr (Or.inr h))
    rw [hpath] at hmem
    simp only [List.mem_append, List.mem_cons, hparent', hname', hU.newline_nmem] at hmem
    rcases he with rfl | rfl <;> simp at hmem
  have hnew : directory newTransferRegex (withSep (path parent dirname slash)) = none := by
    rw [Option.eq_none_iff_forall_ne_some, withSep_path hne hsep]
    intro name hname
    obtain ⟨parent', hpath, hparent', hname'⟩ := exists_of_directory_newTransferRegex hname
    have hmem : '\n' ∈ parent ++ '/' :: (dirname ++ ['/']) := by
      simp only [List.mem_append, List.mem_cons]
      rcases h with h | h
      · exact Or.inl h
      · exact Or.inr (Or.inr (Or.inl h))
    rw [hpath] at hmem
    simp [hparent', hname'] at hmem
  rw [packageName, if_neg path_ne_nil, htransfer, hnew]
  rfl

theorem packageName_of_idLike {U : Str} (hparent : '\n' ∉ parent) (hname : '\n' ∉ name)
    (hsep : '/' ∉ name) (hU : IdLike U) :
    packageName id (path parent (name ++ U) slash) = name := by
  have hfound := directory_transferRegex hparent hname hsep hU (sep_cases slash)
  have hpath : path parent (name ++ U) slash =
      parent ++ '/' :: (name ++ (U ++ if slash then ['/'] else [])) := by
    simp [path]
  rw [packageName, if_neg path_ne_nil, hpath, hfound]
  rfl

theorem packageName_of_not_idLike (hparent : '\n' ∉ parent) (hname : '\n' ∉ name)
    (hsep : '/' ∉ name) (hne : name ≠ []) (hnone : ¬ ∃ U, IdLike U ∧ U <:+ name) :
    packageName id (path parent name slash) = name := by
  have htransfer : directory transferRegex (path parent name slash) = none := by
    rw [Option.eq_none_iff_forall_ne_some]
    intro other hother
    obtain ⟨parent', U, e, hpath, -, -, hU, he⟩ := exists_of_directory_transferRegex hother
    have hUne : U ≠ [] := List.length_pos_iff.mp (by rw [hU.length]; decide)
    have hw : ¬ ['/'] <:+ (parent ++ ['/']) ++ name := not_endsWith_sep hne hsep _
    have hw' : ¬ ['/'] <:+ (parent' ++ '/' :: other) ++ U := not_endsWith_sep hUne hU.sep_nmem _
    have hsame := cut_sep (sep_cases slash) he hw hw' (by
      rw [path] at hpath
      simpa using hpath)
    have hsuffix : U <:+ (parent ++ ['/']) ++ name := hsame ▸ List.suffix_append _ U
    by_cases hlen : U.length ≤ name.length
    · exact hnone ⟨U, hU, List.suffix_of_suffix_length_le hsuffix (List.suffix_append _ name) hlen⟩
    · have hlong : '/' :: name <:+ (parent ++ ['/']) ++ name := ⟨parent, by simp⟩
      have hin := List.suffix_of_suffix_length_le hlong hsuffix (by rw [List.length_cons]; omega)
      exact hU.sep_nmem (hin.mem List.mem_cons_self)
  rw [packageName, if_neg path_ne_nil, htransfer, withSep_path hne hsep,
    directory_newTransferRegex hparent hname hsep]
  rfl

theorem packageName_withID_iff (hsep : '/' ∉ name) (htext : TextOf id text) :
    packageName id (path parent (name ++ '-' :: text) slash) = name ↔ OneLine id parent name := by
  by_cases hline : '\n' ∉ parent ∧ '\n' ∉ name
  · exact iff_of_true (packageName_of_idLike hline.1 hline.2 hsep htext.idLike) (Or.inl hline)
  · have hdirname : '/' ∉ name ++ '-' :: text := by
      rw [List.mem_append, not_or]
      exact ⟨hsep, htext.idLike.sep_nmem⟩
    have hbreak : '\n' ∈ parent ∨ '\n' ∈ name ++ '-' :: text :=
      (not_and_or.mp hline).imp not_not.mp fun h => List.mem_append_left _ (not_not.mp h)
    rw [packageName_of_newline (by simp) hdirname hbreak, OneLine, or_iff_right hline, eq_comm]

theorem packageName_plain_iff (hsep : '/' ∉ name) (hne : name ≠ []) :
    packageName id (path parent name slash) = name ↔
      (¬ ∃ U, IdLike U ∧ U <:+ name) ∧ OneLine id parent name := by
  by_cases hline : '\n' ∉ parent ∧ '\n' ∉ name
  · rw [and_iff_left (show OneLine id parent name from Or.inl hline)]
    constructor
    · rintro h ⟨U, hU, x, rfl⟩
      have hx : '\n' ∉ x := fun hmem => hline.2 (List.mem_append_left U hmem)
      have hxsep : '/' ∉ x := fun hmem => hsep (List.mem_append_left U hmem)
      rw [packageName_of_idLike hline.1 hx hxsep hU] at h
      have hlen := congrArg List.length h
      rw [List.length_append, hU.length] at hlen
      omega
    · exact packageName_of_not_idLike hline.1 hline.2 hsep hne
  · have hbreak : '\n' ∈ parent ∨ '\n' ∈ name := (not_and_or.mp hline).imp not_not.mp not_not.mp
    rw [packageName_of_newline hne hsep hbreak, OneLine, or_iff_right hline, eq_comm]
    refine (and_iff_right_of_imp ?_).symm
    rintro rfl ⟨U, hU, hsuffix⟩
    have hlen := hsuffix.length_le
    rw [hU.length, UUID.length_string] at hlen
    omega

-- The three readers of a package path agree under exactly this condition.
theorem readers_agree_iff (hsep : '/' ∉ name) (hform : form.Valid p.id name)
    (hpath : p.realPath = path parent (form.dirname name) slash) :
    Agree p (path parent (form.dirname name) slash) name ↔
      form.Agreed p.id parent name slash := by
  cases form with
  | withID text =>
      have hproper : FilePath.Proper (name ++ '-' :: text) := by
        have hlen : 36 < (name ++ '-' :: text).length := by
          rw [List.length_append, List.length_cons, hform.1]
          omega
        refine ⟨?_, ?_, ?_, ?_⟩
        · rintro heq
          simp [heq] at hlen
        · rintro heq
          simp [heq] at hlen
        · rintro heq
          simp [heq] at hlen
        · rw [List.mem_append, not_or]
          exact ⟨hsep, hform.idLike.sep_nmem⟩
      have hends : EndsIn p.id (path parent (name ++ '-' :: text) slash) :=
        ⟨parent ++ '/' :: name ++ ['-'], text, if slash then ['/'] else [], by simp [path], hform,
          by cases slash <;> simp⟩
      have hname := name_eq hproper hpath
      have hread : p.name = name ↔ text = p.id.string ∧ ∃ x m,
          name = x ++ (List.replicate m ('-' :: p.id.string)).flatten ∧
            ¬ '-' :: p.id.string <:+: x := by
        rw [hname, (idLike_string p.id).replaceFirst_append_iff hform.idLike, List.cons.injEq,
          and_iff_right rfl]
      constructor
      · intro h
        obtain ⟨hcase, htimes⟩ := hread.mp h.package
        exact ⟨hcase, htimes, (packageName_withID_iff hsep hform).mp h.api⟩
      · rintro ⟨hcase, htimes, hline⟩
        exact ⟨iff_of_true (uuidFromPath_of_endsIn hends) hends, hread.mpr ⟨hcase, htimes⟩,
          (packageName_withID_iff hsep hform).mpr hline⟩
  | plain =>
      have hname := name_eq ⟨hform.1, hform.2.1, hform.2.2, hsep⟩ hpath
      have hread : p.name = name ↔ ¬ '-' :: p.id.string <:+: name := by
        rw [hname]
        exact (idLike_string p.id).replaceFirst_iff
      constructor
      · intro h
        exact ⟨uuidFromPath_eq_iff.mp h.uuid, hread.mp h.package, (packageName_plain_iff hsep hform.1).mp h.api⟩
      · rintro ⟨hid, hin, hapi⟩
        exact ⟨uuidFromPath_eq_iff.mpr hid, hread.mpr hin, (packageName_plain_iff hsep hform.1).mpr hapi⟩

end Readers

-- A package that came with its identifier in capitals.
namespace Capitals

def id : UUID := (UUID.parse "773f0be9-b2ab-48ac-93d6-4c0b068cb7a4".toList).getD UUID.nil

def package (dirname : Str) : Package where
  id := id
  unit := .transfer []
  sharedDir := "/s/".toList
  path := "%sharedPath%tmp/".toList ++ dirname
  startAtChainID := UUID.nil
  startAtLinkID := UUID.nil

def name : Str := "foo".toList

def capitals : Form := .withID "773F0BE9-B2AB-48AC-93D6-4C0B068CB7A4".toList

def small : Form := .withID "773f0be9-b2ab-48ac-93d6-4c0b068cb7a4".toList

def dirpath (form : Form) : Str := path "/s/tmp".toList (form.dirname name) false

theorem readers_agree_iff_small :
    Agree (package (small.dirname name)) (dirpath small) name ↔
      small.Agreed id "/s/tmp".toList name false :=
  readers_agree_iff (by decide) (by decide +kernel) (by decide +kernel)

-- Package.Name leaves it where it is, the other two read it.
theorem capitals_kept :
    Form.Valid id name capitals ∧ (package (capitals.dirname name)).realPath = dirpath capitals ∧
      uuidFromPath (dirpath capitals) = id ∧ packageName id (dirpath capitals) = name ∧
      (package (capitals.dirname name)).name = capitals.dirname name ∧
      ¬ Agree (package (capitals.dirname name)) (dirpath capitals) name := by
  have hname : (package (capitals.dirname name)).name = capitals.dirname name := by decide +kernel
  refine ⟨by decide +kernel, by decide +kernel, by decide +kernel, by decide +kernel, hname, ?_⟩
  intro h
  exact absurd (hname.symm.trans h.package) (by decide)

end Capitals

end Ccp.PackageName
