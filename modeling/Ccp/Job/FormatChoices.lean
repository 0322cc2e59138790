import Ccp.Job.Lemmas
import Ccp.Lib.Dict
import Mathlib.Algebra.BigOperators.Group.Finset.Basic

namespace Ccp

open Lib

-- The key that percent made into this one.
def unpercent : Str → Option Str
  | '%' :: rest => if rest.getLast? = some '%' then some rest.dropLast else none
  | _ => none

theorem unpercent_eq_some_iff {key k : Str} : unpercent key = some k ↔ key = percent k := by
  constructor
  · intro h
    unfold unpercent at h
    split at h
    · next rest =>
        split_ifs at h with hlast
        obtain rfl := Option.some.inj h
        obtain ⟨front, rfl⟩ := List.getLast?_eq_some_iff.mp hlast
        simp [percent]
    · cases h
  · rintro rfl
    simp [unpercent, percent]

theorem percent_injective : Function.Injective percent := by
  intro k k' h
  have hk := unpercent_eq_some_iff.mpr (rfl : percent k = percent k)
  rw [h, unpercent_eq_some_iff.mpr rfl] at hk
  exact (Option.some.inj hk).symm

theorem length_percent (k : Str) : (percent k).length = k.length + 2 := by
  simp [percent]

theorem percent_ne (k : Str) : percent k ≠ k := by
  intro h
  have hlen := congrArg List.length h
  rw [length_percent] at hlen
  omega

-- The dictionary with every key between percent signs, and nothing else.
def Wrapped (items m : GoMap Str Str) : Prop :=
  ∀ key, m.lookup key = (unpercent key).bind items.lookup

-- The loop visits each key of the dictionary once and no key that it has added,
-- and a key that is also another one between percent signs before that one.
def InOrder (ks : List Str) (items : GoMap Str Str) : Prop :=
  ks.Nodup ∧ ks.toFinset = items.keys ∧
    ∀ front k back, ks = front ++ k :: back → percent k ∈ items.keys → percent k ∈ front

-- What a turn of the loop does to the keys.
def rekeyed (m : GoMap Str Str) (k v : Str) : GoMap Str Str := (m.erase k).insert (percent k) v

theorem keys_rekeyed (m : GoMap Str Str) (k v : Str) :
    (rekeyed m k v).keys = insert (percent k) (m.keys.erase k) := by
  ext key
  simp only [rekeyed, Finmap.mem_keys, Finmap.mem_insert, Finmap.mem_erase, Finset.mem_insert,
    Finset.mem_erase]

theorem formatLoop_cons {k : Str} {ks : List Str} {m formatted : GoMap Str Str} {left : Finset Str}
    (h : formatLoop (k :: ks) m left = some formatted) :
    ∃ v, m.lookup k = some v ∧ formatLoop ks (rekeyed m k v) (left.erase k) = some formatted := by
  simp only [formatLoop] at h
  split at h
  · cases h
  · next v hv => exact ⟨v, hv, h⟩

theorem mem_keys_of_lookup {m : GoMap Str Str} {k v : Str} (h : m.lookup k = some v) : k ∈ m.keys := by
  rw [Finmap.mem_keys]
  exact Finmap.mem_of_lookup_eq_some h

theorem card_rekeyed_le {m : GoMap Str Str} {k v : Str} (h : m.lookup k = some v) :
    (rekeyed m k v).keys.card ≤ m.keys.card := by
  rw [keys_rekeyed]
  have hinsert := Finset.card_insert_le (percent k) (m.keys.erase k)
  have herase := Finset.card_erase_add_one (mem_keys_of_lookup h)
  omega

-- Where the new key was there, an entry is lost.
theorem card_rekeyed_lt {m : GoMap Str Str} {k v : Str} (h : m.lookup k = some v)
    (hpercent : percent k ∈ m.keys) : (rekeyed m k v).keys.card < m.keys.card := by
  have hmem : percent k ∈ m.keys.erase k := Finset.mem_erase.mpr ⟨percent_ne k, hpercent⟩
  rw [keys_rekeyed, Finset.insert_eq_of_mem hmem]
  exact Finset.card_erase_lt_of_mem (mem_keys_of_lookup h)

theorem card_formatLoop_le {ks : List Str} {m formatted : GoMap Str Str} {left : Finset Str}
    (h : formatLoop ks m left = some formatted) : formatted.keys.card ≤ m.keys.card := by
  induction ks generalizing m left with
  | nil =>
      simp only [formatLoop] at h
      split_ifs at h
      obtain rfl := Option.some.inj h
      exact le_rfl
  | cons k ks ih =>
      obtain ⟨v, hv, hrest⟩ := formatLoop_cons h
      exact (ih hrest).trans (card_rekeyed_le hv)

-- Every key that was there is visited.
theorem left_subset_of_formatLoop {ks : List Str} {m formatted : GoMap Str Str} {left : Finset Str}
    (h : formatLoop ks m left = some formatted) : left ⊆ ks.toFinset := by
  induction ks generalizing m left with
  | nil =>
      simp only [formatLoop] at h
      split_ifs at h with hleft
      simp [hleft]
  | cons k ks ih =>
      obtain ⟨v, -, hrest⟩ := formatLoop_cons h
      intro key hkey
      rw [List.toFinset_cons, Finset.mem_insert]
      by_cases hk : key = k
      · exact Or.inl hk
      · exact Or.inr (ih hrest (Finset.mem_erase.mpr ⟨hk, hkey⟩))

def weight (m : GoMap Str Str) : Nat := ∑ k ∈ m.keys, k.length

-- A turn that loses no entry makes the keys longer by two.
theorem weight_rekeyed {m : GoMap Str Str} {k v : Str} (h : m.lookup k = some v)
    (hpercent : percent k ∉ m.keys) : weight (rekeyed m k v) = weight m + 2 := by
  have hnew : percent k ∉ m.keys.erase k := fun hmem => hpercent (Finset.mem_of_mem_erase hmem)
  have hsum := Finset.sum_erase_add m.keys List.length (mem_keys_of_lookup h)
  rw [weight, keys_rekeyed, Finset.sum_insert hnew, length_percent, weight]
  omega

theorem weight_formatLoop {ks : List Str} {m formatted : GoMap Str Str} {left : Finset Str}
    (h : formatLoop ks m left = some formatted) (hcard : formatted.keys.card = m.keys.card) :
    weight formatted = weight m + 2 * ks.length := by
  induction ks generalizing m left with
  | nil =>
      simp only [formatLoop] at h
      split_ifs at h
      obtain rfl := Option.some.inj h
      simp
  | cons k ks ih =>
      obtain ⟨v, hv, hrest⟩ := formatLoop_cons h
      have hle := card_formatLoop_le hrest
      have hnew : percent k ∉ m.keys := by
        intro hmem
        have hlt := card_rekeyed_lt hv hmem
        omega
      have hcard' : formatted.keys.card = (rekeyed m k v).keys.card := by
        have hle' := card_rekeyed_le hv
        omega
      rw [ih hrest hcard', weight_rekeyed hv hnew, List.length_cons]
      omega

theorem percent_mem_front {front back : List Str} {k : Str} {m formatted : GoMap Str Str}
    {left : Finset Str} (h : formatLoop (front ++ k :: back) m left = some formatted)
    (hcard : formatted.keys.card = m.keys.card) (hmem : percent k ∈ m.keys) : percent k ∈ front := by
  induction front generalizing m left with
  | nil =>
      obtain ⟨v, hv, hrest⟩ := formatLoop_cons h
      have hle := card_formatLoop_le hrest
      have hlt := card_rekeyed_lt hv hmem
      omega
  | cons j front ih =>
      obtain ⟨v, hv, hrest⟩ := formatLoop_cons h
      have hle := card_formatLoop_le hrest
      have hle' := card_rekeyed_le hv
      by_cases hj : percent k = j
      · exact hj ▸ List.mem_cons_self
      · refine List.mem_cons_of_mem j (ih hrest (by omega) ?_)
        rw [keys_rekeyed, Finset.mem_insert, Finset.mem_erase]
        exact Or.inr ⟨hj, hmem⟩

theorem keys_of_wrapped {items m : GoMap Str Str} (h : Wrapped items m) :
    m.keys = items.keys.image percent := by
  ext key
  rw [Finset.mem_image, Finmap.mem_keys, ← Finmap.lookup_isSome, h key]
  constructor
  · intro hsome
    obtain ⟨v, hv⟩ := Option.isSome_iff_exists.mp hsome
    obtain ⟨k, hk, hlookup⟩ := Option.bind_eq_some_iff.mp hv
    exact ⟨k, mem_keys_of_lookup hlookup, (unpercent_eq_some_iff.mp hk).symm⟩
  · rintro ⟨k, hk, rfl⟩
    rw [unpercent_eq_some_iff.mpr rfl, Option.bind_some, Finmap.lookup_isSome]
    exact Finmap.mem_keys.mp hk

theorem inOrder_of_wrapped {ks : List Str} {items formatted : GoMap Str Str}
    (h : formatLoop ks items items.keys = some formatted) (hwrapped : Wrapped items formatted) :
    InOrder ks items := by
  have hkeys := keys_of_wrapped hwrapped
  have hcard : formatted.keys.card = items.keys.card := by
    rw [hkeys, Finset.card_image_of_injective _ percent_injective]
  have hweight : weight formatted = weight items + 2 * items.keys.card := by
    rw [weight, hkeys, Finset.sum_image percent_injective.injOn]
    simp only [length_percent, Finset.sum_add_distrib, Finset.sum_const, Nat.nsmul_eq_mul, weight]
    omega
  have hlen : ks.length = items.keys.card := by
    have hloop := weight_formatLoop h hcard
    omega
  have hsub := left_subset_of_formatLoop h
  have hle : ks.toFinset.card ≤ items.keys.card := hlen ▸ List.toFinset_card_le ks
  have heq : items.keys = ks.toFinset := Finset.eq_of_subset_of_card_le hsub hle
  refine ⟨?_, heq.symm, fun front k back hks hmem => ?_⟩
  · have hcount : (ks : Multiset Str).toFinset.card = Multiset.card (ks : Multiset Str) := by
      rw [Multiset.coe_card, hlen, heq]
      rfl
    exact Multiset.coe_nodup.mp (Multiset.toFinset_card_eq_card_iff_nodup.mp hcount)
  · subst hks
    exact percent_mem_front h hcard hmem

-- The map after some of its keys have been visited.
def Partly (items : GoMap Str Str) (visited : List Str) (m : GoMap Str Str) : Prop :=
  ∀ key, m.lookup key =
    if key ∈ items.keys ∧ key ∉ visited.toFinset then items.lookup key
    else (unpercent key).bind fun k => if k ∈ visited.toFinset then items.lookup k else none

theorem partly_iff {items m : GoMap Str Str} {visited : List Str} :
    Partly items visited m ↔ ∀ key, m.lookup key =
      if key ∈ items.keys ∧ key ∉ visited then items.lookup key
      else (unpercent key).bind fun k => if k ∈ visited then items.lookup k else none := by
  simp only [Partly, List.mem_toFinset]

theorem partly_rekeyed {items m : GoMap Str Str} {visited : List Str} {k v : Str}
    (h : Partly items visited m) (hk : k ∈ items.keys) (hnew : k ∉ visited)
    (hv : items.lookup k = some v) (hfirst : percent k ∈ items.keys → percent k ∈ visited)
    (hbefore : ∀ j ∈ visited, percent j ∈ items.keys → percent j ∈ visited) :
    Partly items (visited ++ [k]) (rekeyed m k v) := by
  rw [partly_iff] at h ⊢
  intro key
  by_cases hpercent : key = percent k
  · subst hpercent
    have hout : ¬ (percent k ∈ items.keys ∧ percent k ∉ visited ++ [k]) := by
      rintro ⟨hin, hnot⟩
      exact hnot (List.mem_append_left _ (hfirst hin))
    rw [rekeyed, Finmap.lookup_insert, if_neg hout, unpercent_eq_some_iff.mpr rfl]
    simp [hv]
  · have hsame : ∀ j, unpercent key = some j → (j ∈ visited ++ [k] ↔ j ∈ visited) := by
      intro j hj
      have hne : j ≠ k := by
        rintro rfl
        exact hpercent (unpercent_eq_some_iff.mp hj)
      simp [hne]
    have hbind : ((unpercent key).bind fun j => if j ∈ visited ++ [k] then items.lookup j else none) =
        (unpercent key).bind fun j => if j ∈ visited then items.lookup j else none := by
      cases hj : unpercent key with
      | none => rfl
      | some j => simp only [Option.bind_some, hsame j hj]
    rw [rekeyed, Finmap.lookup_insert_of_ne _ hpercent, hbind]
    by_cases hkey : key = k
    · subst hkey
      -- no key that was visited gives this one, it would have been visited before
      have hnone : ((unpercent key).bind fun j => if j ∈ visited then items.lookup j else none) =
          none := by
        rw [Option.bind_eq_none_iff]
        intro j hj
        have hj' := unpercent_eq_some_iff.mp hj
        rw [if_neg]
        intro hmem
        exact hnew (hj' ▸ hbefore j hmem (hj' ▸ hk))
      rw [Finmap.lookup_erase, hnone, if_neg]
      simp
    · rw [Finmap.lookup_erase_ne hkey, h key]
      simp [hkey]

theorem wrapped_of_partly {items m : GoMap Str Str} {visited : List Str}
    (h : Partly items visited m) (hall : ∀ k ∈ items.keys, k ∈ visited) : Wrapped items m := by
  intro key
  rw [partly_iff.mp h key, if_neg fun hout => hout.2 (hall key hout.1)]
  cases hj : unpercent key with
  | none => rfl
  | some j =>
      simp only [Option.bind_some]
      split_ifs with hmem
      · rfl
      · cases hlookup : items.lookup j with
        | none => rfl
        | some v => exact absurd (hall j (mem_keys_of_lookup hlookup)) hmem

theorem exists_formatLoop_of_partly {items m : GoMap Str Str} {visited ks : List Str}
    (hpartly : Partly items visited m) (horder : InOrder (visited ++ ks) items) :
    ∃ formatted, formatLoop ks m (items.keys \ visited.toFinset) = some formatted ∧
      Wrapped items formatted := by
  obtain ⟨hnodup, hkeys, hfirst⟩ := horder
  induction ks generalizing visited m with
  | nil =>
      rw [List.append_nil] at hkeys
      refine ⟨m, ?_, wrapped_of_partly hpartly fun k hk => ?_⟩
      · simp [formatLoop, hkeys]
      · rwa [← hkeys, List.mem_toFinset] at hk
  | cons k ks ih =>
      have hk : k ∈ items.keys := by
        rw [← hkeys]
        simp
      have hnew : k ∉ visited := by
        intro hmem
        exact (List.nodup_append.mp hnodup).2.2 k hmem k (by simp) rfl
      obtain ⟨v, hv⟩ := Option.isSome_iff_exists.mp
        (Finmap.lookup_isSome.mpr (Finmap.mem_keys.mp hk))
      have hbefore : ∀ j ∈ visited, percent j ∈ items.keys → percent j ∈ visited := by
        intro j hj hmem
        obtain ⟨front, back, rfl⟩ := List.append_of_mem hj
        exact List.mem_append_left _ (hfirst front j (back ++ k :: ks) (by simp) hmem)
      have hnext := partly_rekeyed hpartly hk hnew hv (hfirst visited k ks rfl) hbefore
      have hlookup : m.lookup k = some v := by
        rw [partly_iff.mp hpartly k, if_pos ⟨hk, hnew⟩, hv]
      obtain ⟨formatted, hloop, hwrapped⟩ := ih hnext (by simpa using hnodup) (by simpa using hkeys)
        (by simpa using hfirst)
      refine ⟨formatted, ?_, hwrapped⟩
      rw [← hloop]
      simp only [formatLoop, hlookup]
      congr 1
      ext key
      simp only [Finset.mem_erase, Finset.mem_sdiff, List.mem_toFinset, List.mem_append,
        List.mem_singleton]
      tauto

-- The loop gives the dictionary with its keys between percent signs exactly when
-- it visits them in order.
theorem exists_wrapped_iff {ks : List Str} {items : GoMap Str Str} :
    (∃ formatted, formatLoop ks items items.keys = some formatted ∧ Wrapped items formatted) ↔
      InOrder ks items := by
  constructor
  · rintro ⟨formatted, hloop, hwrapped⟩
    exact inOrder_of_wrapped hloop hwrapped
  · intro horder
    have hstart : Partly items [] items := by
      intro key
      split_ifs with hmem
      · rfl
      · rw [Finmap.lookup_eq_none.mpr fun hin => hmem ⟨Finmap.mem_keys.mpr hin, by simp⟩]
        simp
    simpa using exists_formatLoop_of_partly hstart horder

end Ccp
