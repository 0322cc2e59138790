import Ccp.Iterator
import Ccp.Job.Lemmas

namespace Ccp.Iterator

open Lib Lib.Calls Workflow

variable {wf : Document} {a : Answers} {wl : Link} {w w' : World}

theorem init_ok_iff {u : Unit} :
    init wf a w = .ok u w' ↔ a.write (.packageStatus .processing) = none ∧
      ∃ wc, wf.chains.lookup w.pkg.startAtChainID = some wc ∧
        { w with status := .processing, nextLink := wc.id } = w' := by
  simp only [init, bind_ok_iff, write_ok_iff, get_ok_iff]
  constructor
  · rintro ⟨_, _, ⟨-, hwrite, rfl⟩, _, _, ⟨rfl, rfl⟩, h⟩
    refine ⟨hwrite, ?_⟩
    simp only [StoreWrite.apply] at h ⊢
    cases hchain : wf.chains.lookup w.pkg.startAtChainID with
    | none => simp only [hchain] at h; exact absurd h throw_ne_ok
    | some wc =>
        simp only [hchain] at h
        exact ⟨wc, rfl, modify_ok_iff.mp h⟩
  · rintro ⟨hwrite, wc, hchain, rfl⟩
    refine ⟨(), _, ⟨rfl, hwrite, rfl⟩, _, _, ⟨rfl, rfl⟩, ?_⟩
    simp only [StoreWrite.apply, hchain]
    rfl

theorem startChain_ok_iff {wc : Chain} {u : Unit} :
    startChain a wc w = .ok u w' ↔ ∃ vars, a.unitVars = .ok vars ∧
      { w with
        chain := some wc
        context := vars.reduceOption.flatten.foldl (fun c e => setContext c e.1 e.2) []
        nextLink := firstLink w.pkg wc } = w' := by
  simp only [startChain, bind_ok_iff, modify_ok_iff, withContext_ok_iff, loadChain]
  cases hvars : a.unitVars with
  | error text => simp
  | ok vars => simp

theorem logged_ne_error {x : M Unit} {err : Err} : logged x w ≠ .error err w' := by
  unfold logged
  cases x w <;> exact nofun

theorem logged_throw_ne_ok {x : M Unit} {err : Err} {u : Unit} :
    (logged x >>= fun _ => throw err : M Unit) w ≠ .ok u w' := by
  intro h
  obtain ⟨_, _, -, h⟩ := bind_ok_iff.mp h
  exact throw_ne_ok h

theorem eq_of_logged_throw {x : M Unit} {err err' : Err}
    (h : (logged x >>= fun _ => throw err : M Unit) w = .error err' w') : err = err' := by
  rcases bind_error_iff.mp h with h | ⟨_, _, -, h⟩
  · exact absurd h logged_ne_error
  · exact (throw_error_iff.mp h).1

theorem finish_ne_ok {err : Err} {u : Unit} : finish a wl err w ≠ .ok u w' := by
  cases err with
  | eof =>
      unfold finish
      split_ifs
      · exact logged_throw_ne_ok
      · exact throw_ne_ok
  | wait decision updates => exact throw_ne_ok
  | noOrder => exact throw_ne_ok
  | canceled => exact logged_throw_ne_ok
  | terminator => exact logged_throw_ne_ok
  | failed text => exact logged_throw_ne_ok

theorem nextJob_ok_iff {u : Unit} :
    nextJob wf a wl w = .ok u w' ↔ ∃ runner id w3, newJob wl = .ok runner ∧
      execJob wf a wl runner w = .ok id w3 ∧ { w3 with nextLink := id } = w' := by
  unfold nextJob
  constructor
  · intro h
    cases hnew : newJob wl with
    | error text =>
        rw [hnew] at h
        exact absurd h throw_ne_ok
    | ok runner =>
        simp only [hnew] at h
        cases hexec : execJob wf a wl runner w with
        | ok id w3 =>
            simp only [hexec, EStateM.Result.ok.injEq] at h
            exact ⟨runner, id, w3, rfl, hexec, h.2⟩
        | error err w3 =>
            simp only [hexec] at h
            exact absurd h finish_ne_ok
  · rintro ⟨runner, id, w3, hnew, hexec, rfl⟩
    simp only [hnew, hexec]

theorem followLink_ok_iff {u : Unit} :
    followLink wf a w = .ok u w' ↔
      (∃ wc, wf.chains.lookup w.nextLink = some wc ∧ startChain a wc w = .ok u w') ∨
      (wf.chains.lookup w.nextLink = none ∧ w.chain ≠ none ∧
        ∃ wl, wf.links.lookup w.nextLink = some wl ∧ nextJob wf a wl w = .ok u w') := by
  simp only [followLink, linkCall, bind_ok_iff, get_ok_iff]
  constructor
  · rintro ⟨_, _, ⟨rfl, rfl⟩, h⟩
    cases hchain : wf.chains.lookup w.nextLink with
    | some wc =>
        simp only [hchain] at h
        exact Or.inl ⟨wc, rfl, h⟩
    | none =>
        simp only [hchain] at h
        split_ifs at h with hstarted
        · exact absurd h throw_ne_ok
        · cases hlink : wf.links.lookup w.nextLink with
          | none =>
              simp only [hlink] at h
              exact absurd h throw_ne_ok
          | some wl =>
              simp only [hlink] at h
              exact Or.inr ⟨rfl, by simpa using hstarted, wl, rfl, h⟩
  · rintro (⟨wc, hchain, h⟩ | ⟨hchain, hstarted, wl, hlink, h⟩)
    · exact ⟨w, w, ⟨rfl, rfl⟩, by simp only [hchain]; exact h⟩
    · refine ⟨w, w, ⟨rfl, rfl⟩, ?_⟩
      simp only [hchain, Option.isNone_iff_eq_none, hstarted, if_false, hlink]
      exact h

-- The state in which next looks its link up.
def Enters (wf : Document) (a : Answers) (w w0 : World) : Prop :=
  w.nextLink ≠ UUID.nil ∧ w0 = w ∨ w.nextLink = UUID.nil ∧ init wf a w = .ok () w0

theorem next_ok_iff {u : Unit} :
    next wf a w = .ok u w' ↔
      a.ctxErr = false ∧ ∃ w0, Enters wf a w w0 ∧ followLink wf a w0 = .ok u w' := by
  unfold next Enters
  by_cases hctx : a.ctxErr
  · simp [hctx, throw_ne_ok]
  · simp only [hctx, Bool.false_eq_true, if_false, true_and, bind_ok_iff, get_ok_iff]
    constructor
    · rintro ⟨_, _, ⟨rfl, rfl⟩, h⟩
      split_ifs at h with hnil
      · obtain ⟨_, w0, hinit, h⟩ := bind_ok_iff.mp h
        exact ⟨w0, Or.inr ⟨hnil, hinit⟩, h⟩
      · exact ⟨w, Or.inl ⟨hnil, rfl⟩, h⟩
    · rintro ⟨w0, ⟨hlink, rfl⟩ | ⟨hnil, hinit⟩, h⟩
      · exact ⟨w0, w0, ⟨rfl, rfl⟩, by simp only [hlink, if_false]; exact h⟩
      · refine ⟨w, w, ⟨rfl, rfl⟩, ?_⟩
        simp only [hnil, if_true]
        exact bind_ok_iff.mpr ⟨(), w0, hinit, h⟩

-- The ways in which a call of next ends.
inductive NextEnds (wf : Document) (a : Answers) (w : World) : EStateM.Result Err World Unit → Prop
  | canceled (hctx : a.ctxErr = true) : NextEnds wf a w (.error .canceled w)
  | uninitialised {err : Err} {w1 : World} (hnil : w.nextLink = UUID.nil)
      (hinit : init wf a w = .error err w1) : NextEnds wf a w (.error err w1)
  | chain {w0 : World} {wc : Chain} (hctx : a.ctxErr = false) (henter : Enters wf a w w0)
      (hchain : wf.chains.lookup w0.nextLink = some wc) : NextEnds wf a w (startChain a wc w0)
  | unknown {w0 : World} {text : String} (henter : Enters wf a w w0)
      (hchain : wf.chains.lookup w0.nextLink = none)
      (hjob : w0.chain = none ∨
        ∀ wl runner, wf.links.lookup w0.nextLink = some wl → newJob wl ≠ .ok runner) :
      NextEnds wf a w (.error (.failed text) w0)
  | job {w0 w1 : World} {wl : Link} {runner : Runner} {id : UUID} (hctx : a.ctxErr = false)
      (henter : Enters wf a w w0) (hchain : wf.chains.lookup w0.nextLink = none)
      (hstarted : w0.chain ≠ none) (hlink : wf.links.lookup w0.nextLink = some wl)
      (hnew : newJob wl = .ok runner) (hexec : execJob wf a wl runner w0 = .ok id w1) :
      NextEnds wf a w (.ok () { w1 with nextLink := id })
  | finished {w0 w1 : World} {wl : Link} {runner : Runner} {err : Err} (hctx : a.ctxErr = false)
      (henter : Enters wf a w w0) (hchain : wf.chains.lookup w0.nextLink = none)
      (hstarted : w0.chain ≠ none) (hlink : wf.links.lookup w0.nextLink = some wl)
      (hnew : newJob wl = .ok runner) (hexec : execJob wf a wl runner w0 = .error err w1) :
      NextEnds wf a w (finish a wl err w1)

theorem nextEnds_followLink {w0 : World} (hctx : a.ctxErr = false) (henter : Enters wf a w w0) :
    NextEnds wf a w (followLink wf a w0) := by
  change NextEnds wf a w (linkCall wf a w0 w0)
  unfold linkCall
  cases hchain : wf.chains.lookup w0.nextLink with
  | some wc => exact .chain hctx henter hchain
  | none =>
      by_cases hstarted : w0.chain = none
      · simp only [hstarted, Option.isNone_none, if_true]
        exact .unknown henter hchain (Or.inl hstarted)
      · simp only [Option.isNone_iff_eq_none, hstarted, if_false]
        cases hlink : wf.links.lookup w0.nextLink with
        | none => exact .unknown henter hchain (Or.inr fun wl runner h => by simp [hlink] at h)
        | some wl =>
            simp only [nextJob]
            cases hnew : newJob wl with
            | error text =>
                refine .unknown henter hchain (Or.inr fun wl' runner h => ?_)
                rw [hlink, Option.some.injEq] at h
                rw [← h, hnew]
                exact nofun
            | ok runner =>
                cases hexec : execJob wf a wl runner w0 with
                | ok id w1 =>
                    simp only [hexec]
                    exact .job hctx henter hchain hstarted hlink hnew hexec
                | error err w1 =>
                    simp only [hexec]
                    exact .finished hctx henter hchain hstarted hlink hnew hexec

theorem nextEnds_next (wf : Document) (a : Answers) (w : World) :
    NextEnds wf a w (next wf a w) := by
  unfold next
  cases hctx : a.ctxErr with
  | true => exact .canceled hctx
  | false =>
      simp only [Bool.false_eq_true, if_false]
      change NextEnds wf a w ((if w.nextLink = UUID.nil then
        (init wf a >>= fun _ => followLink wf a) else followLink wf a) w)
      split_ifs with hnil
      · cases hinit : init wf a w with
        | error err w1 =>
            rw [bind_error_iff.mpr (Or.inl hinit)]
            exact .uninitialised hnil hinit
        | ok u w0 =>
            have hbind : (init wf a >>= fun _ => followLink wf a : M Unit) w = followLink wf a w0 := by
              change EStateM.bind _ _ _ = _
              simp only [EStateM.bind, hinit]
            rw [hbind]
            exact nextEnds_followLink hctx (Or.inr ⟨hnil, hinit⟩)
      · exact nextEnds_followLink hctx (Or.inl ⟨hnil, rfl⟩)

theorem raises_init : Raises Err.IsFailed (init wf a) := by
  refine raises_bind (raises_write _) fun _ => raises_bind raises_get fun s => ?_
  split
  · exact raises_throw ⟨_, rfl⟩
  · exact raises_modify _

theorem raises_startChain (wc : Chain) : Raises Err.IsFailed (startChain a wc) := by
  refine raises_bind (raises_modify _) fun _ => raises_bind (raises_withContext ?_) fun _ =>
    raises_modify _
  intro s err s' h
  unfold loadChain at h
  cases hvars : a.unitVars with
  | error text =>
      simp only [hvars, EStateM.Result.error.injEq] at h
      exact ⟨text, h.1.symm⟩
  | ok vars => simp [hvars] at h

theorem finish_wait {err : Err} {decision : Decision} {updates : Bool}
    (h : finish a wl err w = .error (.wait decision updates) w') :
    err = .wait decision updates ∧ w = w' := by
  cases err with
  | eof =>
      unfold finish at h
      split_ifs at h
      · exact nomatch eq_of_logged_throw h
      · exact nomatch (throw_error_iff.mp h).1
  | wait d u => exact throw_error_iff.mp h
  | noOrder => exact nomatch (throw_error_iff.mp h).1
  | canceled => exact nomatch eq_of_logged_throw h
  | terminator => exact nomatch eq_of_logged_throw h
  | failed text => exact nomatch eq_of_logged_throw h

theorem next_wait_job {decision : Decision} {updates : Bool}
    (h : next wf a w = .error (.wait decision updates) w') :
    ∃ w0 wl runner, Enters wf a w w0 ∧
      execJob wf a wl runner w0 = .error (.wait decision updates) w' := by
  have hends := nextEnds_next wf a w
  rw [h] at hends
  generalize hr : EStateM.Result.error (Err.wait decision updates) w' = r at hends
  cases hends with
  | canceled hctx => exact nomatch (EStateM.Result.error.inj hr).1
  | uninitialised hnil hinit =>
      obtain ⟨rfl, -⟩ := EStateM.Result.error.inj hr
      exact absurd rfl ((raises_init _ _ _ hinit).ne_wait decision updates)
  | chain hctx henter hchain =>
      exact absurd rfl ((raises_startChain _ _ _ _ hr.symm).ne_wait decision updates)
  | unknown henter hchain hjob => exact nomatch (EStateM.Result.error.inj hr).1
  | job hctx henter hchain hstarted hlink hnew hexec => exact nomatch hr
  | finished hctx henter hchain hstarted hlink hnew hexec =>
      obtain ⟨rfl, rfl⟩ := finish_wait hr.symm
      exact ⟨_, _, _, henter, hexec⟩

-- What the goroutine makes of the end of a call.
inductive Outcome (inits : Nat) : EStateM.Result Err World Unit → State → Prop
  | running (w : World) : Outcome inits (.ok () w) ⟨w, .running, inits⟩
  | awaiting (decision : Decision) (updates : Bool) (w : World) :
      Outcome inits (.error (.wait decision updates) w) ⟨w, .awaiting decision updates, inits⟩
  | ended {err : Err} (herr : err = .terminator ∨ err = .eof) (w : World) :
      Outcome inits (.error err w) ⟨w, .stopped none, inits⟩
  | stopped {err : Err} (herr : err = .canceled ∨ err.IsFailed) (w : World) :
      Outcome inits (.error err w) ⟨w, .stopped (some err), inits⟩

theorem outcome_of_eq {inits : Nat} {r : EStateM.Result Err World Unit} {s : State}
    (h : outcome inits r = some s) : Outcome inits r s := by
  cases r with
  | ok u w =>
      obtain rfl := Option.some.inj h
      exact .running w
  | error err w =>
      cases err with
      | canceled =>
          obtain rfl := Option.some.inj h
          exact .stopped (Or.inl rfl) w
      | eof =>
          obtain rfl := Option.some.inj h
          exact .ended (Or.inr rfl) w
      | terminator =>
          obtain rfl := Option.some.inj h
          exact .ended (Or.inl rfl) w
      | wait decision updates =>
          obtain rfl := Option.some.inj h
          exact .awaiting decision updates w
      | failed text =>
          obtain rfl := Option.some.inj h
          exact .stopped (Or.inr ⟨text, rfl⟩) w
      | noOrder => exact nomatch h

inductive Moves (wf : Document) (s : State) : Event → State → Prop
  | next {a : Answers} {s' : State} (hphase : s.phase = .running)
      (hnext : Outcome (initsAfter s a) (Iterator.next wf a s.world) s') :
      Moves wf s (.next a) s'
  | resume {a : Answers} {pos : Int} {decision : Decision} {updates : Bool} {c : Choice} {s' : State}
      (hphase : s.phase = .awaiting decision updates)
      (hchoice : Decision.choiceAt decision.choices pos = some c)
      (hresume : Outcome s.inits (Iterator.resume a decision updates c s.world) s') :
      Moves wf s (.resolve a pos) s'
  | crash {a : Answers} {pos : Int} {decision : Decision} {updates : Bool}
      (hphase : s.phase = .awaiting decision updates)
      (hchoice : Decision.choiceAt decision.choices pos = none) :
      Moves wf s (.resolve a pos) { s with phase := .crashed }
  | cancel : Moves wf s .cancel { s with phase := .stopped (some .canceled) }

theorem moves_of_step {s s' : State} {e : Event} (h : step wf s e = some s') : Moves wf s e s' := by
  cases e with
  | next a =>
      simp only [step] at h
      split_ifs at h with hphase
      exact .next hphase (outcome_of_eq h)
  | resolve a pos =>
      simp only [step] at h
      cases hphase : s.phase with
      | awaiting decision updates =>
          simp only [hphase] at h
          cases hchoice : Decision.choiceAt decision.choices pos with
          | none =>
              simp only [hchoice] at h
              obtain rfl := Option.some.inj h
              exact .crash hphase hchoice
          | some c =>
              simp only [hchoice] at h
              exact .resume hphase hchoice (outcome_of_eq h)
      | running => simp [hphase] at h
      | stopped err => simp [hphase] at h
      | crashed => simp [hphase] at h
  | cancel =>
      simp only [step] at h
      split at h
      · obtain rfl := Option.some.inj h
        exact .cancel
      · exact nomatch h

end Ccp.Iterator
