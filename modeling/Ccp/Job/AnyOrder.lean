import Ccp.Job.DatabaseContext
import Ccp.Job.Interactive

namespace Ccp.AnyOrder

open Lib

variable {a : Answers} {w : World} {ks : List Str} {m items formatted : GoMap Str Str}
  {left : Finset Str} {k v : Str}

-- The maps that formatChoices may return, one for each order that the range loop may take.
def Formats (a : Answers) (w : World) (items : GoMap Str Str) (visits : GoMap Str Str → List Str)
    (formatted : GoMap Str Str) : Prop :=
  ∃ w', formatChoices { a with visits := visits } items w = .ok formatted w'

theorem formats_iff {visits : GoMap Str Str → List Str} :
    Formats a w items visits formatted ↔
      formatLoop (visits items) items items.keys = some formatted := by
  unfold Formats
  simp only [formatChoices_ok_iff]
  constructor
  · rintro ⟨_, hloop, -⟩
    exact hloop
  · intro hloop
    exact ⟨w, hloop, rfl⟩

-- Longer keys first: a key between percent signs is longer than the key.
theorem exists_inOrder (items : GoMap Str Str) : ∃ ks, InOrder ks items := by
  let longer : Str → Str → Bool := fun j k => decide (k.length ≤ j.length)
  have htrans : ∀ i j k, longer i j → longer j k → longer i k := by
    intro i j k hij hjk
    simp only [longer, decide_eq_true_eq] at hij hjk ⊢
    omega
  have htotal : ∀ j k, longer j k || longer k j := by
    intro j k
    simp only [longer, Bool.or_eq_true, decide_eq_true_eq]
    omega
  have hsorted : (items.keys.toList.mergeSort longer).Pairwise fun j k => k.length ≤ j.length :=
    (List.pairwise_mergeSort htrans htotal items.keys.toList).imp fun h => of_decide_eq_true h
  have hperm := List.mergeSort_perm items.keys.toList longer
  refine ⟨_, hperm.nodup_iff.mpr items.keys.nodup_toList, ?_, fun front k back hks hmem => ?_⟩
  · rw [List.toFinset_eq_of_perm _ _ hperm, Finset.toList_toFinset]
  · have hin : percent k ∈ front ++ k :: back := by
      rw [← hks]
      exact hperm.mem_iff.mpr (Finset.mem_toList.mpr hmem)
    rw [hks] at hsorted
    have hlater := (List.pairwise_cons.mp (List.pairwise_append.mp hsorted).2.1).1
    rw [List.mem_append, List.mem_cons] at hin
    rcases hin with hfront | hself | hback
    · exact hfront
    · exact absurd hself (percent_ne k)
    · have hle := hlater _ hback
      rw [length_percent] at hle
      omega

-- One turn more, for a key that the loop has added or put back.
theorem formatLoop_concat (h : formatLoop ks m left = some formatted)
    (hv : formatted.lookup k = some v) :
    formatLoop (ks ++ [k]) m left = some (rekeyed formatted k v) := by
  induction ks generalizing m left with
  | nil =>
      simp only [formatLoop] at h
      split_ifs at h with hleft
      obtain rfl := Option.some.inj h
      simp [formatLoop, hv, hleft, rekeyed]
  | cons j ks ih =>
      obtain ⟨u, hu, hrest⟩ := formatLoop_cons h
      rw [List.cons_append, formatLoop, hu]
      exact ih hrest

-- No key is left to be visited once more in order.
theorem not_inOrder_concat (h : InOrder ks items) : ¬ InOrder (ks ++ [k]) items := by
  rintro ⟨hnodup, hkeys, -⟩
  have hk : k ∈ ks.toFinset := by
    rw [h.2.1, ← hkeys]
    simp
  exact (List.nodup_append.mp hnodup).2.2 k (List.mem_toFinset.mp hk) k (by simp) rfl

theorem exists_lookup_of_ne_empty (hne : items ≠ ∅) : ∃ k v, items.lookup k = some v := by
  by_contra! hnone
  apply hne
  apply Finmap.ext_lookup
  intro k
  rw [Finmap.lookup_empty]
  exact Option.eq_none_iff_forall_ne_some.mpr (hnone k)

-- After the last key in order, the loop may go on with one that it has added.
theorem exists_not_inOrder (hne : items ≠ ∅) :
    ∃ ks formatted, formatLoop ks items items.keys = some formatted ∧ ¬ InOrder ks items := by
  obtain ⟨ks, horder⟩ := exists_inOrder items
  obtain ⟨formatted, hloop, hwrapped⟩ := exists_wrapped_iff.mpr horder
  obtain ⟨k, v, hv⟩ := exists_lookup_of_ne_empty hne
  have hadded : formatted.lookup (percent k) = some v := by
    rw [hwrapped, unpercent_eq_some_iff.mpr rfl, Option.bind_some, hv]
  exact ⟨ks ++ [percent k], _, formatLoop_concat hloop hadded, not_inOrder_concat horder⟩

theorem wrapped_iff_inOrder (h : formatLoop ks items items.keys = some formatted) :
    Wrapped items formatted ↔ InOrder ks items := by
  constructor
  · exact inOrder_of_wrapped h
  · intro horder
    obtain ⟨formatted', hloop, hwrapped⟩ := exists_wrapped_iff.mpr horder
    obtain rfl := Option.some.inj (h.symm.trans hloop)
    exact hwrapped

theorem wrapped_empty : Wrapped ∅ ∅ := by
  intro key
  cases hj : unpercent key with
  | none => rfl
  | some j => rfl

-- In one order the result is right exactly when the loop visits the keys in order,
-- and it is right in every order of the empty map only.
theorem formatChoices_iff (a : Answers) (w : World) (items : GoMap Str Str) :
    (∀ visits formatted, Formats a w items visits formatted →
      (Wrapped items formatted ↔ InOrder (visits items) items)) ∧
    (∃ visits formatted, Formats a w items visits formatted ∧ Wrapped items formatted) ∧
    ((∀ visits formatted, Formats a w items visits formatted → Wrapped items formatted) ↔
      items = ∅) := by
  refine ⟨fun visits formatted h => wrapped_iff_inOrder (formats_iff.mp h), ?_, ?_, ?_⟩
  · obtain ⟨ks, horder⟩ := exists_inOrder items
    obtain ⟨formatted, hloop, hwrapped⟩ := exists_wrapped_iff.mpr horder
    exact ⟨fun _ => ks, formatted, formats_iff.mpr hloop, hwrapped⟩
  · intro h
    by_contra hne
    obtain ⟨ks, formatted, hloop, hnot⟩ := exists_not_inOrder hne
    have hwrapped := h (fun _ => ks) formatted (formats_iff.mpr hloop)
    exact hnot ((wrapped_iff_inOrder hloop).mp hwrapped)
  · rintro rfl visits formatted h
    rw [eq_empty_of_formatLoop (formats_iff.mp h)]
    exact wrapped_empty

open AssignUUIDs (item yes) in
-- Of one key and then of the one that the loop has put in its place.
theorem formats_revisited :
    ∃ formatted, Formats quiet idle yes.items (fun _ => [item, percent item]) formatted ∧
      formatted.lookup (percent (percent item)) = some "True".toList ∧
      ¬ Wrapped yes.items formatted := by
  refine ⟨Finmap.singleton (percent (percent item)) "True".toList, ?_, by simp, fun hwrapped => ?_⟩
  · rw [formats_iff]
    decide
  · have hlookup := hwrapped (percent (percent item))
    rw [unpercent_eq_some_iff.mpr rfl] at hlookup
    exact absurd hlookup (by decide)

end Ccp.AnyOrder
