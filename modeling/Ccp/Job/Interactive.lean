import Ccp.Iterator
import Ccp.Job.Preconfigured

namespace Ccp

open Lib Workflow Lib.Calls

-- Nothing is configured, and the user is asked.
def Answers.asked (a : Answers) : Answers := { a with processingConfig := .ok [] }

-- The replacement is configured, for the decision point that stands for the link.
def Answers.preconfigured (a : Answers) (wl : Link) (r : ConfigReplacement) : Answers :=
  { a with processingConfig := .ok [⟨(canonical wl.id).string, r.id.string⟩] }

-- The job waits, its decision is resolved with the position and the choice is applied.
def Chosen (wf : Document) (a : Answers) (wl : Link) (replacements : List ConfigReplacement)
    (i : Nat) (w w' : World) : Prop :=
  ∃ d c, execUpdateContextDecision wf a.asked wl replacements w = .error (.wait d true) w ∧
    Decision.choiceAt d.choices i = some c ∧ Iterator.resume a d true c w = .ok () w'

-- From whatever there was, both ways leave the same context and the same next link.
def SameOutcome (wf : Document) (a : Answers) (wl : Link) (replacements : List ConfigReplacement)
    (i : Nat) (r : ConfigReplacement) : Prop :=
  ∀ w, ∃ w₁ w₂, Chosen wf a wl replacements i w w₁ ∧
    execUpdateContextDecision wf (a.preconfigured wl r) wl replacements w = .ok w₁.nextLink w₂ ∧
    w₂.context = w₁.context

-- The orders are such that a range loop can take, and the store takes the new status.
structure Answers.Sane (a : Answers) (replacements : List ConfigReplacement) : Prop where
  first : ∀ i item, replacements[i]? = some item → item.items = ∅ ∨ a.firstItem i ∈ item.items
  visits : ∀ dict, a.Visits dict
  stores : a.write (.jobStatus a.jobID "STATUS_COMPLETED_SUCCESSFULLY") = none

-- The pair that the choice of a replacement carries.
def carried (a : Answers) (item : ConfigReplacement) (i : Nat) : Str × Str :=
  match item.items.lookup (a.firstItem i) with
  | some v => (a.firstItem i, v)
  | none => ([], [])

-- The decision that the job waits for.
def asking (a : Answers) (wl : Link) (replacements : List ConfigReplacement) : Decision where
  id := a.decisionID
  name := wl.description.string
  choices := replacements.zipIdx.map fun item =>
    ⟨item.1.description.string, carried a item.1 item.2, exitCodeLinkID wl 0⟩
  jobID := a.jobID

-- The replacement that is found for one that is configured.
def Configured (wf : Document) (wl : Link) (r first : ConfigReplacement) : Prop :=
  ∃ ln replacements, wf.links.lookup (canonical wl.id) = some ln ∧
    ln.config = .microServiceChoiceReplacementDic replacements ∧
    replacements.find? (·.id = canonical r.id) = some first

section

variable {wf : Document} {a : Answers} {wl : Link} {replacements : List ConfigReplacement}
  {i : Nat} {r : ConfigReplacement} {w w' : World}

theorem Configured.unique {first first' : ConfigReplacement} (h : Configured wf wl r first)
    (h' : Configured wf wl r first') : first = first' := by
  obtain ⟨ln, found, hln, hfound, hfirst⟩ := h
  obtain ⟨ln', found', hln', hfound', hfirst'⟩ := h'
  obtain rfl := Option.some.inj (hln.symm.trans hln')
  obtain rfl := LinkConfig.microServiceChoiceReplacementDic.inj (hfound.symm.trans hfound')
  exact Option.some.inj (hfirst.symm.trans hfirst')

theorem replacementChoice_eq (hsane : a.Sane replacements) (hr : replacements[i]? = some r) :
    replacementChoice a wl r i =
      some ⟨r.description.string, carried a r i, exitCodeLinkID wl 0⟩ := by
  unfold replacementChoice carried
  cases hlookup : r.items.lookup (a.firstItem i) with
  | some v => rfl
  | none =>
      have hempty : r.items = ∅ := by
        refine (hsane.first i r hr).resolve_right fun hmem => ?_
        rw [← Finmap.lookup_isSome, hlookup] at hmem
        cases hmem
      simp [hempty]

theorem awaitReplacement_eq (hsane : a.Sane replacements) :
    awaitReplacement a wl replacements w = .error (.wait (asking a wl replacements) true) w := by
  have hall : replacements.zipIdx.mapM (fun item => replacementChoice a wl item.1 item.2) =
      some (asking a wl replacements).choices := by
    refine MapM.mapM_eq_some_map fun item hitem => ?_
    exact replacementChoice_eq hsane (List.mem_zipIdx_iff_getElem?.mp hitem)
  simp only [awaitReplacement, hall]
  rfl

theorem exec_asked (hsane : a.Sane replacements) (hne : replacements ≠ []) :
    execUpdateContextDecision wf a.asked wl replacements w =
      .error (.wait (asking a wl replacements) true) w := by
  have hload : withContext "load context with preconfigured choice"
      (loadPreconfiguredContext wf a.asked wl) w = .ok ∅ w := rfl
  rw [← awaitReplacement_eq hsane]
  simp only [execUpdateContextDecision, databaseContext, if_neg hne, pure_bind, useContext, if_true,
    execPreconfigured]
  change EStateM.bind _ _ w = _
  rw [EStateM.bind, hload]
  rfl

theorem choiceAt_zipIdx {f : ConfigReplacement × Nat → Choice} (hr : replacements[i]? = some r) :
    Decision.choiceAt (replacements.zipIdx.map f) i = some (f (r, i)) := by
  rw [Decision.choiceAt, if_pos (Int.natCast_nonneg i), Int.toNat_natCast, List.getElem?_map,
    List.getElem?_zipIdx, hr]
  simp

theorem exists_resume {d : Decision} {updates : Bool} {c : Choice}
    (hstores : a.write (.jobStatus d.jobID "STATUS_COMPLETED_SUCCESSFULLY") = none) (w : World) :
    ∃ w', Iterator.resume a d updates c w = .ok () w' ∧ w'.nextLink = c.nextLink ∧
      w'.context = (Iterator.setChoice updates c w).context := by
  have hmark : ∃ w₁, markComplete a d.jobID (Iterator.setChoice updates c w) = .ok () w₁ ∧
      w₁.context = (Iterator.setChoice updates c w).context := by
    simp only [markComplete_ok_iff, hstores]
    split_ifs
    · exact ⟨_, rfl, rfl⟩
    · exact ⟨_, ⟨trivial, rfl⟩, rfl⟩
  obtain ⟨w₁, hmark, hcontext⟩ := hmark
  have hdecide : Iterator.decide a d updates c w = .ok () w₁ :=
    bind_ok_iff.mpr ⟨(), _, modify_ok_iff.mpr rfl, hmark⟩
  exact ⟨{ w₁ with nextLink := c.nextLink },
    bind_ok_iff.mpr ⟨(), _, hdecide, modify_ok_iff.mpr rfl⟩, rfl, hcontext⟩

-- The choice is applied wherever it is made.
theorem exists_chosen (hsane : a.Sane replacements) (hr : replacements[i]? = some r) (w : World) :
    ∃ w', Chosen wf a wl replacements i w w' ∧ w'.nextLink = exitCodeLinkID wl 0 ∧
      w'.context = (Iterator.setChoice true
        ⟨r.description.string, carried a r i, exitCodeLinkID wl 0⟩ w).context := by
  have hne : replacements ≠ [] := by
    rintro rfl
    simp at hr
  obtain ⟨w', hresume, hnext, hcontext⟩ :=
    @exists_resume a (asking a wl replacements) true _ hsane.stores w
  exact ⟨w', ⟨_, _, exec_asked hsane hne, choiceAt_zipIdx hr, hresume⟩, hnext, hcontext⟩

theorem chosen_unique {w₁ w₂ : World} (h₁ : Chosen wf a wl replacements i w w₁)
    (h₂ : Chosen wf a wl replacements i w w₂) : w₁ = w₂ := by
  obtain ⟨d, c, hwait, hc, hresume⟩ := h₁
  obtain ⟨d', c', hwait', hc', hresume'⟩ := h₂
  obtain ⟨rfl, -⟩ := Err.wait.inj (EStateM.Result.error.inj (hwait.symm.trans hwait')).1
  obtain rfl := Option.some.inj (hc.symm.trans hc')
  exact (EStateM.Result.ok.inj (hresume.symm.trans hresume')).2

theorem formatChoices_ok_iff {items dict : GoMap Str Str} :
    formatChoices a items w = .ok dict w' ↔
      formatLoop (a.visits items) items items.keys = some dict ∧ w = w' := by
  unfold formatChoices
  cases formatLoop (a.visits items) items items.keys <;> simp

theorem applyChoice_preconfigured_iff {dict : GoMap Str Str} (hdict : dict ≠ ∅) :
    applyChoice wf (a.preconfigured wl r) (canonical wl.id) ∅
        ⟨(canonical wl.id).string, r.id.string⟩ w = .ok dict w ↔
      ∃ first, Configured wf wl r first ∧
        formatLoop (a.visits first.items) first.items first.items.keys = some dict := by
  simp only [applyChoice, parseUUID, UUID.parse_string, pure_bind, Configured]
  cases hlink : wf.links.lookup (canonical wl.id) with
  | none => simp [throw_ne_ok]
  | some ln =>
      obtain ⟨id, manager, config, description, exitCodes, status, fallback, group, ends⟩ := ln
      cases config with
      | microServiceChoiceReplacementDic found =>
          dsimp only
          cases hfind : found.find? (·.id = canonical r.id) with
          | none => simp [hfind, pure_ok_iff, Ne.symm hdict]
          | some first =>
              rw [formatChoices_ok_iff]
              constructor
              · rintro ⟨h, -⟩
                exact ⟨first, ⟨_, found, rfl, rfl, hfind⟩, h⟩
              · rintro ⟨_, ⟨_, _, ⟨⟩, ⟨⟩, hfirst⟩, h⟩
                obtain rfl := Option.some.inj (hfind.symm.trans hfirst)
                exact ⟨h, rfl⟩
      | _ => simp [throw_ne_ok]

-- What the configuration does, from the first replacement of its identifier.
theorem exec_preconfigured_iff {id : UUID} (hne : replacements ≠ []) :
    execUpdateContextDecision wf (a.preconfigured wl r) wl replacements w = .ok id w' ↔
      ∃ first dict, Configured wf wl r first ∧
        formatLoop (a.visits first.items) first.items first.items.keys = some dict ∧ dict ≠ ∅ ∧
        a.Visits dict ∧ exitCodeLinkID wl 0 = id ∧
        { w with context := (a.entries dict).foldl (fun c e => setContext c e.1 e.2) w.context } =
          w' := by
  have hload : ∀ dict, dict ≠ ∅ →
      (loadPreconfiguredContext wf (a.preconfigured wl r) wl w = .ok dict w ↔
        ∃ first, Configured wf wl r first ∧
          formatLoop (a.visits first.items) first.items first.items.keys = some dict) := by
    intro dict hdict
    rw [← @applyChoice_preconfigured_iff wf a wl r w dict hdict]
    have hread : (a.preconfigured wl r).processingConfig =
        .ok [⟨(canonical wl.id).string, r.id.string⟩] := rfl
    simp only [loadPreconfiguredContext, hread, ofExcept, pure_bind, List.filter_cons, decide_true,
      if_true, List.filter_nil, List.foldlM_cons, List.foldlM_nil, bind_pure]
  rw [execUpdateContextDecision_ok_iff hne]
  constructor
  · rintro ⟨dict, hok, hdict, hrest⟩
    obtain ⟨first, hfirst, hloop⟩ := (hload dict hdict).mp hok
    exact ⟨first, dict, hfirst, hloop, hdict, hrest⟩
  · rintro ⟨first, dict, hfirst, hloop, hdict, hrest⟩
    exact ⟨dict, (hload dict hdict).mpr ⟨first, hfirst, hloop⟩, hdict, hrest⟩

theorem entries_singleton (hsane : a.Sane replacements) (key value : Str) :
    a.entries (Finmap.singleton key value) = [(key, value)] := by
  have hentries : ((a.entries (Finmap.singleton key value)).map fun e => (⟨e.1, e.2⟩ : Σ _, Str)) =
      [⟨key, value⟩] := Multiset.coe_eq_singleton.mp (hsane.visits (Finmap.singleton key value))
  have hback := congrArg (List.map fun e : (Σ _, Str) => (e.1, e.2)) hentries
  simpa [Function.comp_def] using hback

theorem lookup_singleton (key value k : Str) :
    (Finmap.singleton key value : GoMap Str Str).lookup k = if key = k then some value else none := by
  split_ifs with h
  · exact h ▸ Finmap.lookup_singleton_eq
  · rw [Finmap.lookup_eq_none, Finmap.mem_singleton]
    exact Ne.symm h

theorem singleton_ne_empty (key value : Str) : (Finmap.singleton key value : GoMap Str Str) ≠ ∅ := by
  intro h
  have hlookup := congrArg (Finmap.lookup key) h
  rw [lookup_singleton, if_pos rfl, Finmap.lookup_empty] at hlookup
  cases hlookup

-- Both ways agree when the dictionary that is loaded is the pair that is carried.
theorem sameOutcome_iff_singleton (hsane : a.Sane replacements) (hr : replacements[i]? = some r) :
    SameOutcome wf a wl replacements i r ↔
      ∃ first, Configured wf wl r first ∧ (carried a r i).1 ≠ [] ∧
        formatLoop (a.visits first.items) first.items first.items.keys =
          some (Finmap.singleton (percent (carried a r i).1) (carried a r i).2) := by
  have hne : replacements ≠ [] := by
    rintro rfl
    simp at hr
  constructor
  · intro h
    -- a chain without a context shows the whole difference
    let w : World := ⟨⟨UUID.nil, .dip, [], [], UUID.nil, UUID.nil⟩, .unknown, ∅, UUID.nil, none, [], false⟩
    obtain ⟨w₁, w₂, hchosen, hexec, hsame⟩ := h w
    obtain ⟨w₁', hchosen', -, hcontext⟩ := @exists_chosen wf a wl _ i r hsane hr w
    obtain rfl := chosen_unique hchosen hchosen'
    obtain ⟨first, dict, hfirst, hloop, hdict, hvisits, -, hw₂⟩ := (exec_preconfigured_iff hne).mp hexec
    have hlookup : ∀ key, dict.lookup key = Dict.get? w₁.context key := by
      intro key
      rw [← hsame, ← hw₂, ← get?_entries hvisits,
        get?_foldl_setContext (nodup_of_visits hvisits)]
      simp [w]
    by_cases hkey : (carried a r i).1 = []
    · refine absurd (Finmap.ext_lookup fun key => ?_) hdict
      rw [hlookup, hcontext, Iterator.setChoice, if_neg fun hset => hset.2 hkey, Finmap.lookup_empty]
      rfl
    · refine ⟨first, hfirst, hkey, hloop.trans (congrArg some (Finmap.ext_lookup fun key => ?_))⟩
      rw [hlookup, hcontext, Iterator.setChoice, if_pos ⟨rfl, hkey⟩, get?_setContext, lookup_singleton]
      rfl
  · rintro ⟨first, hfirst, hkey, hloop⟩ w
    obtain ⟨w₁, hchosen, hnext, hcontext⟩ := @exists_chosen wf a wl _ i r hsane hr w
    refine ⟨w₁, _, hchosen, (exec_preconfigured_iff hne).mpr
      ⟨first, _, hfirst, hloop, singleton_ne_empty _ _, hsane.visits _, hnext.symm, rfl⟩, ?_⟩
    rw [hcontext, Iterator.setChoice, if_pos ⟨rfl, hkey⟩, entries_singleton hsane]
    rfl

end

-- A key of the dictionary is there to the end, with percent signs around it.
theorem reached_of_formatLoop {ks : List Str} {m formatted : GoMap Str Str} {left : Finset Str}
    (h : formatLoop ks m left = some formatted) {j : Str} (hj : ∃ n, percent^[n] j ∈ m.keys) :
    ∃ n, percent^[n] j ∈ formatted.keys := by
  induction ks generalizing m left with
  | nil =>
      simp only [formatLoop] at h
      split_ifs at h
      exact Option.some.inj h ▸ hj
  | cons k ks ih =>
      obtain ⟨v, -, hrest⟩ := formatLoop_cons h
      refine ih hrest ?_
      obtain ⟨n, hn⟩ := hj
      by_cases hk : percent^[n] j = k
      · refine ⟨n + 1, ?_⟩
        rw [keys_rekeyed, Function.iterate_succ_apply', hk]
        exact Finset.mem_insert_self _ _
      · refine ⟨n, ?_⟩
        rw [keys_rekeyed]
        exact Finset.mem_insert_of_mem (Finset.mem_erase.mpr ⟨hk, hn⟩)

theorem eq_of_iterate_percent {j k : Str} {n : Nat} (hj : unpercent j = none)
    (hk : unpercent k = none) (h : percent^[n] j = percent k) : j = k := by
  cases n with
  | zero =>
      have h : j = percent k := h
      rw [unpercent_eq_some_iff.mpr h] at hj
      cases hj
  | succ n =>
      rw [Function.iterate_succ_apply'] at h
      have h := percent_injective h
      cases n with
      | zero => exact h
      | succ n =>
          rw [Function.iterate_succ_apply'] at h
          rw [unpercent_eq_some_iff.mpr h.symm] at hk
          cases hk

theorem rekeyed_singleton (k v : Str) :
    rekeyed (Finmap.singleton k v) k v = Finmap.singleton (percent k) v := by
  apply Finmap.ext_lookup
  intro key
  rw [rekeyed, lookup_singleton]
  by_cases hkey : key = percent k
  · subst hkey
    rw [Finmap.lookup_insert, if_pos rfl]
  · rw [Finmap.lookup_insert_of_ne _ hkey, if_neg (Ne.symm hkey)]
    by_cases hk : key = k
    · subst hk
      exact Finmap.lookup_erase _ _
    · rw [Finmap.lookup_erase_ne hk, lookup_singleton, if_neg (Ne.symm hk)]

theorem singleton_of_keys {items : GoMap Str Str} {k : Str} (hne : items ≠ ∅)
    (h : ∀ key ∈ items.keys, key = k) : ∃ v, items = Finmap.singleton k v := by
  have hother : ∀ key, key ≠ k → items.lookup key = none := by
    intro key hkey
    rw [Finmap.lookup_eq_none]
    exact fun hmem => hkey (h key (Finmap.mem_keys.mpr hmem))
  cases hlookup : items.lookup k with
  | none =>
      refine absurd (Finmap.ext_lookup fun key => ?_) hne
      by_cases hkey : key = k
      · rw [hkey, hlookup, Finmap.lookup_empty]
      · rw [hother key hkey, Finmap.lookup_empty]
  | some v =>
      refine ⟨v, Finmap.ext_lookup fun key => ?_⟩
      rw [lookup_singleton]
      by_cases hkey : key = k
      · rw [hkey, hlookup, if_pos rfl]
      · rw [hother key hkey, if_neg (Ne.symm hkey)]

theorem formatLoop_singleton_iff {ks : List Str} {k v v' : Str} :
    formatLoop ks (Finmap.singleton k v) (Finmap.singleton k v : GoMap Str Str).keys =
        some (Finmap.singleton (percent k) v') ↔ ks = [k] ∧ v = v' := by
  constructor
  · intro h
    have hlen : ks.length = 1 := by
      have hweight := weight_formatLoop h (by simp)
      simp only [weight, Finmap.keys_singleton, Finset.sum_singleton, length_percent] at hweight
      omega
    obtain ⟨j, rfl⟩ := List.length_eq_one_iff.mp hlen
    obtain ⟨u, hu, hrest⟩ := formatLoop_cons h
    rw [lookup_singleton] at hu
    split_ifs at hu with hj
    obtain rfl := Option.some.inj hu
    subst hj
    rw [rekeyed_singleton] at hrest
    simp only [formatLoop] at hrest
    split_ifs at hrest
    have hvalue := congrArg (Finmap.lookup (percent k)) (Option.some.inj hrest)
    rw [lookup_singleton, lookup_singleton, if_pos rfl, if_pos rfl] at hvalue
    exact ⟨rfl, Option.some.inj hvalue⟩
  · rintro ⟨rfl, rfl⟩
    have hk : (Finmap.singleton k v : GoMap Str Str).lookup k = some v := Finmap.lookup_singleton_eq
    have hstep := rekeyed_singleton k v
    rw [rekeyed] at hstep
    simp [formatLoop, hk, hstep]

theorem formatLoop_eq_singleton_iff {ks : List Str} {items : GoMap Str Str} {k v : Str}
    (hplain : ∀ key ∈ items.keys, unpercent key = none) (hk : unpercent k = none) :
    formatLoop ks items items.keys = some (Finmap.singleton (percent k) v) ↔
      items = Finmap.singleton k v ∧ ks = [k] := by
  constructor
  · intro h
    have hne : items ≠ ∅ := by
      rintro rfl
      exact singleton_ne_empty _ _ (eq_empty_of_formatLoop h)
    have hkeys : ∀ key ∈ items.keys, key = k := by
      intro key hkey
      obtain ⟨n, hn⟩ := reached_of_formatLoop h ⟨0, hkey⟩
      rw [Finmap.keys_singleton, Finset.mem_singleton] at hn
      exact eq_of_iterate_percent (hplain key hkey) hk hn
    obtain ⟨u, rfl⟩ := singleton_of_keys hne hkeys
    obtain ⟨rfl, rfl⟩ := formatLoop_singleton_iff.mp h
    exact ⟨rfl, rfl⟩
  · rintro ⟨rfl, rfl⟩
    exact formatLoop_singleton_iff.mpr ⟨rfl, rfl⟩

-- The answer has one item, and the loop does not come to the entry that it adds.
def OneItem (a : Answers) (items : GoMap Str Str) (k v : Str) : Prop :=
  items = Finmap.singleton k v ∧ a.visits items = [k]

-- The key that an entry had before the visits, from the one that it has after them.
def origin (ks : List Str) (key : Str) : Option Str :=
  ks.foldr (fun k o => o.bind fun c => if c = percent k then some k else if c = k then none else some c) (some key)

-- The value of a key after the visits.
def held (items : GoMap Str Str) (ks : List Str) (key : Str) : Option Str := (origin ks key).bind items.lookup

theorem held_cons {k v : Str} {ks : List Str} {m : GoMap Str Str} (hv : m.lookup k = some v) (key : Str) :
    held m (k :: ks) key = held (rekeyed m k v) ks key := by
  rw [held, held, origin, List.foldr_cons, ← origin, Option.bind_assoc]
  refine congrArg _ (funext fun c => ?_)
  rw [rekeyed]
  split_ifs with hnew hold
  · rw [hnew, Finmap.lookup_insert, Option.bind_some, hv]
  · rw [Finmap.lookup_insert_of_ne _ hnew, hold, Finmap.lookup_erase, Option.bind_none]
  · rw [Finmap.lookup_insert_of_ne _ hnew, Finmap.lookup_erase_ne hold, Option.bind_some]

-- The loop comes to its end when it visits what was there, and no key without an entry.
theorem formatLoop_eq_some_iff {ks : List Str} {m formatted : GoMap Str Str} {left : Finset Str} :
    formatLoop ks m left = some formatted ↔
      (∀ key ∈ left, key ∈ ks) ∧ (∀ front k back, ks = front ++ k :: back → held m front k ≠ none) ∧
        ∀ key, formatted.lookup key = held m ks key := by
  induction ks generalizing m left with
  | nil =>
      have hnothing : (∀ key ∈ left, key ∈ ([] : List Str)) ↔ left = ∅ := by
        simp [Finset.eq_empty_iff_forall_notMem]
      have hsame : (∀ key, formatted.lookup key = held m [] key) ↔ m = formatted :=
        ⟨fun h => (Finmap.ext_lookup h).symm, fun h key => by rw [h]; rfl⟩
      rw [hnothing, hsame, formatLoop]
      split_ifs with hleft
      · simp [hleft]
      · simp [hleft]
  | cons k ks ih =>
      rw [formatLoop]
      cases hv : m.lookup k with
      | none =>
          refine iff_of_false (fun hnone => ?_) (fun h => h.2.1 [] k ks rfl hv)
          cases hnone
      | some v =>
          have hall : (∀ key ∈ left.erase k, key ∈ ks) ↔ ∀ key ∈ left, key ∈ k :: ks := by
            refine forall_congr' fun key => ?_
            rw [Finset.mem_erase, List.mem_cons]
            tauto
          have hfound : (∀ front key back, ks = front ++ key :: back → held (rekeyed m k v) front key ≠ none) ↔
              ∀ front key back, k :: ks = front ++ key :: back → held m front key ≠ none := by
            constructor
            · intro h front key back hks
              cases front with
              | nil =>
                  obtain ⟨rfl, -⟩ := List.cons.inj hks
                  exact fun hnone => Option.some_ne_none v (hv.symm.trans hnone)
              | cons k' front =>
                  obtain ⟨rfl, hrest⟩ := List.cons.inj hks
                  rw [held_cons hv]
                  exact h front key back hrest
            · intro h front key back hks
              rw [← held_cons hv]
              exact h (k :: front) key back (by rw [hks, List.cons_append])
          change formatLoop ks (rekeyed m k v) (left.erase k) = some formatted ↔ _
          rw [ih, hall, hfound]
          simp only [held_cons hv]

-- With a key that is between percent signs already, the visits take one entry after the other to
-- the carried key, until only the carried value is left.
structure Collapses (a : Answers) (items : GoMap Str Str) (k v : Str) : Prop where
  wrapped : ¬ ∀ key ∈ insert k items.keys, unpercent key = none
  visited : ∀ key ∈ items.keys, key ∈ a.visits items
  found : ∀ front key back, a.visits items = front ++ key :: back → held items front key ≠ none
  carried : held items (a.visits items) (percent k) = some v
  alone : ∀ key, key ≠ percent k → held items (a.visits items) key = none

theorem collapses_iff {a : Answers} {items : GoMap Str Str} {k v : Str} :
    Collapses a items k v ↔ (¬ ∀ key ∈ insert k items.keys, unpercent key = none) ∧
      formatLoop (a.visits items) items items.keys = some (Finmap.singleton (percent k) v) := by
  have hpair : (∀ key, (Finmap.singleton (percent k) v : GoMap Str Str).lookup key =
      held items (a.visits items) key) ↔ held items (a.visits items) (percent k) = some v ∧
        ∀ key, key ≠ percent k → held items (a.visits items) key = none := by
    simp only [lookup_singleton]
    constructor
    · exact fun h => ⟨by rw [← h, if_pos rfl], fun key hkey => by rw [← h, if_neg hkey.symm]⟩
    · rintro ⟨hcarried, halone⟩ key
      split_ifs with hkey
      · rw [← hkey, hcarried]
      · exact (halone key (Ne.symm hkey)).symm
  rw [formatLoop_eq_some_iff, hpair]
  exact ⟨fun h => ⟨h.wrapped, h.visited, h.found, h.carried, h.alone⟩,
    fun ⟨hwrapped, hvisited, hfound, hcarried, halone⟩ => ⟨hwrapped, hvisited, hfound, hcarried, halone⟩⟩

theorem sameOutcome_iff {wf : Document} {a : Answers} {wl : Link}
    {replacements : List ConfigReplacement} {i : Nat} {r : ConfigReplacement}
    (hsane : a.Sane replacements) (hr : replacements[i]? = some r) :
    SameOutcome wf a wl replacements i r ↔
      ∃ first, Configured wf wl r first ∧ (carried a r i).1 ≠ [] ∧
        (OneItem a first.items (carried a r i).1 (carried a r i).2 ∨
          Collapses a first.items (carried a r i).1 (carried a r i).2) := by
  rw [sameOutcome_iff_singleton hsane hr]
  refine exists_congr fun first => and_congr_right fun _ => and_congr_right fun _ => ?_
  by_cases hplain : ∀ key ∈ insert (carried a r i).1 first.items.keys, unpercent key = none
  · rw [OneItem, collapses_iff, formatLoop_eq_singleton_iff
      (fun key hkey => hplain key (Finset.mem_insert_of_mem hkey))
      (hplain _ (Finset.mem_insert_self _ _))]
    simp [hplain]
  · constructor
    · exact fun h => Or.inr (collapses_iff.mpr ⟨hplain, h⟩)
    · rintro (⟨hitems, hvisits⟩ | h)
      · rw [hvisits, hitems]
        exact formatLoop_singleton_iff.mpr ⟨rfl, rfl⟩
      · exact (collapses_iff.mp h).2

namespace AssignUUIDs

noncomputable def first : Answers := { visiting [item] with firstItem := fun _ => item }

theorem sane_first : first.Sane [yes] where
  first i r hr := by
    have hyes : r = yes := by simpa using List.mem_of_getElem? hr
    have hitem : item ∈ yes.items := Finmap.mem_keys.mp (by decide)
    exact Or.inr (hyes ▸ hitem)
  visits := visits_visiting [item]
  stores := rfl

theorem sameOutcome_iff_assignUUIDs : SameOutcome workflow first link [yes] 0 yes := by
  have hcarried : carried first yes 0 = (item, "True".toList) := rfl
  refine (sameOutcome_iff sane_first rfl).mpr ⟨yes, ?_, by rw [hcarried]; decide, Or.inl ?_⟩
  · exact ⟨link, [yes], lookup_linkFor spec_mem, rfl, rfl⟩
  · rw [hcarried]
    exact ⟨by decide, rfl⟩

end AssignUUIDs

-- An answer that has two items.
namespace Compression

def level : Str := "AIPCompressionLevel".toList

def algorithm : Str := "AIPCompressionAlgorithm".toList

def both : ConfigReplacement where
  id := ⟨0x1⟩
  description := ∅
  items := (Finmap.singleton level "5".toList).insert algorithm "7z-lzma".toList

def link : Link :=
  { AssignUUIDs.link with id := ⟨0x2⟩, config := .microServiceChoiceReplacementDic [both] }

def workflow : Document where
  chains := ∅
  links := Finmap.singleton link.id link
  chains_id := Workflow.chains_id_empty
  links_id id l h := by
    have hid : id = link.id := (Finmap.mem_singleton _ _ _).mp (Finmap.mem_of_lookup_eq_some h)
    rw [hid, Finmap.lookup_singleton_eq] at h
    obtain rfl := Option.some.inj h
    exact hid.symm

noncomputable def answers : Answers :=
  { AssignUUIDs.visiting [level, algorithm] with firstItem := fun _ => level }

theorem not_sameOutcome : answers.Sane [both] ∧
    (formatLoop (answers.visits both.items) both.items both.items.keys).isSome ∧
    Configured workflow link both both ∧ ¬ SameOutcome workflow answers link [both] 0 both := by
  have hconfigured : Configured workflow link both both :=
    ⟨link, [both], Finmap.lookup_singleton_eq, rfl, rfl⟩
  have hsane : answers.Sane [both] := by
    refine ⟨fun i r hr => ?_, AssignUUIDs.visits_visiting [level, algorithm], rfl⟩
    have hboth : r = both := by simpa using List.mem_of_getElem? hr
    have hlevel : level ∈ both.items := Finmap.mem_keys.mp (by decide)
    exact Or.inr (hboth ▸ hlevel)
  refine ⟨hsane, by decide, hconfigured, fun h => ?_⟩
  obtain ⟨first, hfirst, -, hloop⟩ := (sameOutcome_iff_singleton hsane rfl).mp h
  obtain rfl := hconfigured.unique hfirst
  have hsecond : (formatLoop [level, algorithm] both.items both.items.keys).map
      (Finmap.lookup (percent algorithm)) = some (some "7z-lzma".toList) := by decide
  have hnone := congrArg (Option.map (Finmap.lookup (percent algorithm))) hloop
  exact absurd (hsecond.symm.trans hnone) (by decide)

end Compression

end Ccp
