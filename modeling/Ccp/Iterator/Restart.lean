import Ccp.Iterator.Lemmas
import Ccp.Lib.Run

namespace Ccp

open Lib Lib.Calls Workflow

variable {wf : Document} {a : Answers} {wl : Link} {w w' : World}

-- The runner finishes and has no link to go on with, by its kind:

-- the preconfigured choice is the nil UUID
def ChosenNowhere (wf : Document) (a : Answers) (wl : Link) (choices : List UUID) : Prop :=
  ∃ configured c, a.processingConfig = .ok configured ∧
    configured.find? (fun c => c.linkID = wl.id) = some c ∧ UUID.parse c.goToChain = some UUID.nil ∧
    choices.any fun item => (wf.chains.lookup item).isSome

-- a dictionary is there, and the link has neither a link for exit code 0 nor a fallback
def LoadedNowhere (wf : Document) (a : Answers) (wl : Link) (replacements : List ConfigReplacement)
    (w : World) : Prop :=
  exitCodeLinkID wl 0 = UUID.nil ∧ ∃ dict w1, databaseContext wf a wl replacements w = .ok dict w1 ∧
    (dict ≠ ∅ ∧ a.Visits dict ∨
      dict = ∅ ∧ ∃ dict' w2, loadPreconfiguredContext wf a wl w1 = .ok dict' w2 ∧
        dict' ≠ ∅ ∧ a.Visits dict')

-- the entry of the exit code names the nil UUID
def ExitsNowhere (a : Answers) (wl : Link) : Prop :=
  ∃ results, a.taskResults = .ok results ∧
    exitCodeNext wl (processTaskResults results) = some UUID.nil ∧
    a.Accepts (.jobStatus a.jobID (exitCodeStatus wl (processTaskResults results)))

def Runner.EndsNowhere (wf : Document) (a : Answers) (wl : Link) (w : World) : Runner → Prop
  | .nextChainDecisionJob choices => ChosenNowhere wf a wl choices
  | .updateContextDecisionJob replacements => LoadedNowhere wf a wl replacements w
  | .directoryClientScriptJob _ => ExitsNowhere a wl
  | .filesClientScriptJob _ => (∀ text, a.filterSubDir ≠ .failed text) ∧ ExitsNowhere a wl
  | .setUnitVarLinkJob name linkID =>
      exitCodeLinkID wl 0 = UUID.nil ∧ a.Accepts (.unitVar name [] linkID)
  | .getUnitVarLinkJob _ linkID =>
      linkID = UUID.nil ∧ (a.unitLinkID = .notFound ∨ a.unitLinkID = .found UUID.nil)

theorem execUpdateContextDecision_ok_nil_iff {replacements : List ConfigReplacement} :
    (∃ w', execUpdateContextDecision wf a wl replacements w = .ok UUID.nil w') ↔
      LoadedNowhere wf a wl replacements w := by
  simp only [execUpdateContextDecision, bind_ok_iff, LoadedNowhere]
  constructor
  · rintro ⟨w', dict, w1, hdb, h⟩
    rcases useContext_ok_iff.mp ⟨w', h⟩ with ⟨hdict, hvisits, hnil⟩ | ⟨hdict, hnext⟩
    · exact ⟨hnil, dict, w1, hdb, Or.inl ⟨hdict, hvisits⟩⟩
    · obtain ⟨dict', w2, hload, hdict', hvisits, hnil⟩ := execPreconfigured_ok_iff.mp hnext
      exact ⟨hnil, dict, w1, hdb, Or.inr ⟨hdict, dict', w2, hload, hdict', hvisits⟩⟩
  · rintro ⟨hnil, dict, w1, hdb, ⟨hdict, hvisits⟩ | ⟨hdict, dict', w2, hload, hdict', hvisits⟩⟩
    · obtain ⟨w', h⟩ := useContext_ok_iff.mpr (Or.inl ⟨hdict, hvisits, hnil⟩)
      exact ⟨w', dict, w1, hdb, h⟩
    · have hnext : ∃ w', execPreconfigured wf a wl replacements w1 = .ok UUID.nil w' :=
        execPreconfigured_ok_iff.mpr ⟨dict', w2, hload, hdict', hvisits, hnil⟩
      obtain ⟨w', h⟩ := useContext_ok_iff.mpr (Or.inr ⟨hdict, hnext⟩)
      exact ⟨w', dict, w1, hdb, h⟩

theorem execClientScript_ok_nil_iff :
    (∃ w', execClientScript a wl w = .ok UUID.nil w') ↔ ExitsNowhere a wl := by
  simp only [execClientScript_ok_iff, ExitsNowhere]
  constructor
  · rintro ⟨w', results, hresults, hnext, haccepts, -⟩
    exact ⟨results, hresults, hnext, haccepts⟩
  · rintro ⟨results, hresults, hnext, haccepts⟩
    exact ⟨_, results, hresults, hnext, haccepts, rfl⟩

theorem exec_ok_nil_iff {runner : Runner} :
    (∃ w', runner.exec wf a wl w = .ok UUID.nil w') ↔ runner.EndsNowhere wf a wl w := by
  cases runner with
  | nextChainDecisionJob choices =>
      simp only [Runner.exec, execNextChainDecision_ok_iff, Runner.EndsNowhere, ChosenNowhere]
      constructor
      · rintro ⟨_, h, -⟩
        exact h
      · intro h
        exact ⟨w, h, rfl⟩
  | updateContextDecisionJob replacements => exact execUpdateContextDecision_ok_nil_iff
  | directoryClientScriptJob config => exact execClientScript_ok_nil_iff
  | filesClientScriptJob config =>
      simp only [Runner.exec, execFilesClientScript, bind_ok_iff, withContext_ok_iff,
        Runner.EndsNowhere]
      constructor
      · rintro ⟨w', dir, w1, hdir, h⟩
        exact ⟨filterSubDir_ok_iff.mp ⟨dir, w1, hdir⟩, execClientScript_ok_nil_iff.mp ⟨w', h⟩⟩
      · rintro ⟨hdir, h⟩
        obtain ⟨dir, w1, hdir⟩ := filterSubDir_ok_iff.mpr hdir
        obtain ⟨w', h⟩ := execClientScript_ok_nil_iff.mpr h
        exact ⟨w', dir, w1, hdir, h⟩
  | setUnitVarLinkJob name linkID =>
      simp only [Runner.exec, execSetUnitVarLink, bind_ok_iff, withContext_ok_iff, write_ok_iff,
        pure_ok_iff, Runner.EndsNowhere, Answers.Accepts]
      constructor
      · rintro ⟨_, _, _, ⟨hvalid, hwrite, -⟩, hnil, -⟩
        exact ⟨hnil, hvalid, hwrite⟩
      · rintro ⟨hnil, hvalid, hwrite⟩
        exact ⟨_, (), _, ⟨hvalid, hwrite, rfl⟩, hnil, rfl⟩
  | getUnitVarLinkJob name linkID =>
      simp only [Runner.exec, execGetUnitVarLink, Runner.EndsNowhere]
      cases a.unitLinkID with
      | found stored =>
          simp only [pure_ok_iff, StoreRead.found.injEq, reduceCtorEq, false_or]
          by_cases hstored : stored = UUID.nil
          · simp [hstored]
          · simp [hstored]
      | notFound => simp [pure_ok_iff]
      | failed text => simp [throw_ne_ok]

-- The job's row gets its final status, unless the runner has seen to that.
def Answers.Completes (a : Answers) (runner : Runner) : Prop :=
  runner.recordsStatus = false →
    a.write (.jobStatus a.jobID "STATUS_COMPLETED_SUCCESSFULLY") = none

theorem execJob_ok_nil_iff {runner : Runner} :
    (∃ w', execJob wf a wl runner w = .ok UUID.nil w') ↔
      ∃ w1, save a wl { w with recorded := false } = .ok () w1 ∧ runner.EndsNowhere wf a wl w1 ∧
        a.Completes runner := by
  constructor
  · rintro ⟨w', h⟩
    have hends := jobEnds_execJob wf a wl runner w
    rw [h] at hends
    cases hends with
    | done hsave hexec hmark =>
        refine ⟨_, hsave, exec_ok_nil_iff.mp ⟨_, hexec⟩, fun hrunner => ?_⟩
        have hrec := exec_recorded (save_recorded hsave) hexec
        rw [markComplete_ok_iff, hrec, hrunner] at hmark
        exact hmark.1
  · rintro ⟨w1, hsave, hends, hcompletes⟩
    obtain ⟨w2, hexec⟩ := exec_ok_nil_iff.mpr hends
    have hrec := exec_recorded (save_recorded hsave) hexec
    have hmark : ∃ w3, markComplete a a.jobID w2 = .ok () w3 := by
      simp only [markComplete_ok_iff, hrec]
      cases hrunner : runner.recordsStatus with
      | false => exact ⟨_, hcompletes hrunner, rfl⟩
      | true => exact ⟨_, rfl⟩
    obtain ⟨w3, hmark⟩ := hmark
    refine ⟨w3, execJob_ok_of_saved hsave ?_⟩
    rw [hexec]
    exact bind_ok_iff.mpr ⟨(), w3, hmark, rfl⟩

namespace Iterator

-- The chain or link that next looks up, after init where it has to.
def current (w : World) : UUID :=
  if w.nextLink = UUID.nil then w.pkg.startAtChainID else w.nextLink

theorem current_of_nil (h : w.nextLink = UUID.nil) : current w = w.pkg.startAtChainID := if_pos h

theorem current_of_ne (h : w.nextLink ≠ UUID.nil) : current w = w.nextLink := if_neg h

-- The steps after which the iterator has no link although the package goes on.
inductive Lost (wf : Document) (s : State) : Event → Prop
  -- a chain without a first link
  | chain {a : Answers} {wc : Chain} (hctx : a.ctxErr = false)
      (hinit : s.world.nextLink = UUID.nil → a.write (.packageStatus .processing) = none)
      (hchain : wf.chains.lookup (current s.world) = some wc)
      (hload : ∃ vars, a.unitVars = .ok vars) (hnil : firstLink s.world.pkg wc = UUID.nil) :
      Lost wf s (.next a)
  -- a job that is done and names no link
  | job {a : Answers} {wl : Link} {runner : Runner} {w1 : World} (hctx : a.ctxErr = false)
      (hlinked : s.world.nextLink ≠ UUID.nil) (hchain : wf.chains.lookup s.world.nextLink = none)
      (hstarted : s.world.chain ≠ none) (hlink : wf.links.lookup s.world.nextLink = some wl)
      (hnew : newJob wl = .ok runner)
      (hsave : save a wl { s.world with recorded := false } = .ok () w1)
      (hends : runner.EndsNowhere wf a wl w1) (hcompletes : a.Completes runner) :
      Lost wf s (.next a)
  -- a choice without a link
  | choice {a : Answers} {pos : Int} {decision : Decision} {updates : Bool} {c : Choice}
      (hphase : s.phase = .awaiting decision updates)
      (hchoice : Decision.choiceAt decision.choices pos = some c)
      (hcompletes : a.write (.jobStatus decision.jobID "STATUS_COMPLETED_SUCCESSFULLY") = none)
      (hnil : c.nextLink = UUID.nil) : Lost wf s (.resolve a pos)

theorem enters_unlinked {w0 : World} (henter : Enters wf a w w0) (hnil : w.nextLink = UUID.nil) :
    a.write (.packageStatus .processing) = none ∧
      ∃ wc, wf.chains.lookup w.pkg.startAtChainID = some wc ∧
        w0 = { w with status := .processing, nextLink := w.pkg.startAtChainID } := by
  rcases henter with ⟨hlinked, -⟩ | ⟨-, hinit⟩
  · exact absurd hnil hlinked
  · obtain ⟨hwrite, wc, hchain, rfl⟩ := init_ok_iff.mp hinit
    exact ⟨hwrite, wc, hchain, by rw [wf.chains_id _ _ hchain]⟩

theorem lost_of_next {s : State} (h : next wf a s.world = .ok () w')
    (hnil : w'.nextLink = UUID.nil) : Lost wf s (.next a) := by
  obtain ⟨hctx, w0, henter, hfollow⟩ := next_ok_iff.mp h
  by_cases hlinked : s.world.nextLink = UUID.nil
  · obtain ⟨hwrite, wc, hchain, rfl⟩ := enters_unlinked henter hlinked
    rcases followLink_ok_iff.mp hfollow with ⟨wc', hchain', hstart⟩ | ⟨hnone, -⟩
    · obtain ⟨vars, hvars, rfl⟩ := startChain_ok_iff.mp hstart
      refine .chain hctx (fun _ => hwrite) ?_ ⟨vars, hvars⟩ hnil
      rw [current_of_nil hlinked]
      exact hchain'
    · exact absurd (hchain.symm.trans hnone) nofun
  · obtain ⟨-, rfl⟩ | ⟨hnil', -⟩ := henter
    · rcases followLink_ok_iff.mp hfollow with ⟨wc, hchain, hstart⟩ | ⟨hchain, hstarted, wl, hlink, hjob⟩
      · obtain ⟨vars, hvars, rfl⟩ := startChain_ok_iff.mp hstart
        refine .chain hctx (fun h => absurd h hlinked) ?_ ⟨vars, hvars⟩ hnil
        rw [current_of_ne hlinked]
        exact hchain
      · obtain ⟨runner, id, w3, hnew, hexec, rfl⟩ := nextJob_ok_iff.mp hjob
        obtain rfl : id = UUID.nil := hnil
        obtain ⟨w1, hsave, hends, hcompletes⟩ := execJob_ok_nil_iff.mp ⟨w3, hexec⟩
        exact .job hctx hlinked hchain hstarted hlink hnew hsave hends hcompletes
    · exact absurd hnil' hlinked

theorem next_of_lost {s : State} (h : Lost wf s (.next a)) :
    ∃ w', next wf a s.world = .ok () w' ∧ w'.nextLink = UUID.nil := by
  cases h with
  | @chain _ wc hctx hinit hchain hload hnil =>
      obtain ⟨vars, hvars⟩ := hload
      have hstart : ∀ w0 : World, w0.pkg = s.world.pkg → ∃ w', startChain a wc w0 = .ok () w' ∧
          w'.nextLink = UUID.nil := fun w0 hpkg =>
        ⟨_, startChain_ok_iff.mpr ⟨vars, hvars, rfl⟩, by rw [← hnil, hpkg]⟩
      by_cases hlinked : s.world.nextLink = UUID.nil
      · rw [current_of_nil hlinked] at hchain
        have henter : Enters wf a s.world _ :=
          Or.inr ⟨hlinked, init_ok_iff.mpr ⟨hinit hlinked, wc, hchain, rfl⟩⟩
        obtain ⟨w', hstart, hnil'⟩ := hstart
          { s.world with status := .processing, nextLink := wc.id } rfl
        refine ⟨w', next_ok_iff.mpr ⟨hctx, _, henter, ?_⟩, hnil'⟩
        refine followLink_ok_iff.mpr (Or.inl ⟨wc, ?_, hstart⟩)
        rw [wf.chains_id _ _ hchain]
        exact hchain
      · rw [current_of_ne hlinked] at hchain
        obtain ⟨w', hstart, hnil'⟩ := hstart s.world rfl
        refine ⟨w', next_ok_iff.mpr ⟨hctx, s.world, Or.inl ⟨hlinked, rfl⟩, ?_⟩, hnil'⟩
        exact followLink_ok_iff.mpr (Or.inl ⟨wc, hchain, hstart⟩)
  | job hctx hlinked hchain hstarted hlink hnew hsave hends hcompletes =>
      obtain ⟨w3, hexec⟩ := execJob_ok_nil_iff.mpr ⟨_, hsave, hends, hcompletes⟩
      have hjob := (nextJob_ok_iff (u := ())).mpr ⟨_, UUID.nil, w3, hnew, hexec, rfl⟩
      have hfollow := followLink_ok_iff.mpr (Or.inr ⟨hchain, hstarted, _, hlink, hjob⟩)
      exact ⟨_, next_ok_iff.mpr ⟨hctx, s.world, Or.inl ⟨hlinked, rfl⟩, hfollow⟩, rfl⟩

-- What every run keeps: a package that has a link or waits has been initialised,
-- and the row of a job that waits has no final status.
structure Begun (s : State) : Prop where
  linked : s.phase = .running → s.world.nextLink ≠ UUID.nil → 0 < s.inits
  waiting : ∀ decision updates, s.phase = .awaiting decision updates →
    0 < s.inits ∧ s.world.recorded = false

-- The iterator was initialised once at most, and has a link since.
def InitialisedOnce (s : State) : Prop :=
  s.inits ≤ 1 ∧ (s.phase = .running → 0 < s.inits → s.world.nextLink ≠ UUID.nil)

theorem recorded_setChoice (updates : Bool) (c : Choice) (w : World) :
    (setChoice updates c w).recorded = w.recorded := by
  unfold setChoice
  split_ifs <;> rfl

theorem resume_ok_iff {decision : Decision} {updates : Bool} {c : Choice}
    (hrec : w.recorded = false) :
    (∃ w', resume a decision updates c w = .ok () w') ↔
      a.write (.jobStatus decision.jobID "STATUS_COMPLETED_SUCCESSFULLY") = none := by
  have hset : (setChoice updates c w).recorded = false := by rw [recorded_setChoice, hrec]
  rw [← exists_markComplete_iff hset]
  simp only [resume, decide, bind_ok_iff, modify_ok_iff]
  constructor
  · rintro ⟨w', _, w2, ⟨_, _, rfl, hmark⟩, -⟩
    exact ⟨w2, hmark⟩
  · rintro ⟨w2, hmark⟩
    exact ⟨_, (), w2, ⟨(), _, rfl, hmark⟩, rfl⟩

theorem resume_nextLink {decision : Decision} {updates : Bool} {c : Choice} {u : Unit}
    (h : resume a decision updates c w = .ok u w') : w'.nextLink = c.nextLink := by
  obtain ⟨_, w1, -, hmodify⟩ := bind_ok_iff.mp h
  rw [← modify_ok_iff.mp hmodify]

theorem raises_resume {decision : Decision} {updates : Bool} {c : Choice} :
    Raises Err.IsFailed (resume a decision updates c) :=
  raises_bind (raises_bind (raises_modify _) fun _ => raises_markComplete _) fun _ => raises_modify _

theorem next_of_ctxErr (h : a.ctxErr = true) : next wf a w = .error .canceled w := by
  unfold next
  simp only [h, if_true]
  rfl

theorem initsAfter_pos {s : State} (hbegun : Begun s) (hphase : s.phase = .running)
    (hctx : a.ctxErr = false) : 0 < initsAfter s a := by
  unfold initsAfter
  split_ifs with h
  · omega
  · exact hbegun.linked hphase (by simpa [hctx] using h)

theorem begun_step {s next : State} {e : Event} (h : Begun s) (hstep : step wf s e = some next) :
    Begun next := by
  cases moves_of_step hstep with
  | @next a _ hphase hnext =>
      generalize hr : Iterator.next wf a s.world = r at hnext
      have hctx : r ≠ .error .canceled s.world → a.ctxErr = false := by
        intro hne
        by_contra htrue
        exact hne (hr.symm.trans (next_of_ctxErr (by simpa using htrue)))
      cases hnext with
      | running w =>
          exact ⟨fun _ _ => initsAfter_pos h hphase (hctx nofun), nofun⟩
      | awaiting decision updates w =>
          obtain ⟨w0, wl, runner, -, hexec⟩ := next_wait_job hr
          exact ⟨nofun, fun _ _ _ => ⟨initsAfter_pos h hphase (hctx nofun), execJob_wait hexec⟩⟩
      | ended herr w => exact ⟨nofun, nofun⟩
      | stopped herr w => exact ⟨nofun, nofun⟩
  | @resume a pos decision updates c _ hphase hchoice hresume =>
      generalize hr : Iterator.resume a decision updates c s.world = r at hresume
      cases hresume with
      | running w => exact ⟨fun _ _ => (h.waiting _ _ hphase).1, nofun⟩
      | awaiting decision' updates' w =>
          exact absurd rfl ((raises_resume _ _ _ hr).ne_wait decision' updates')
      | ended herr w => exact ⟨nofun, nofun⟩
      | stopped herr w => exact ⟨nofun, nofun⟩
  | crash hphase hchoice => exact ⟨nofun, nofun⟩
  | cancel => exact ⟨nofun, nofun⟩

theorem initsAfter_le {s : State} (h : InitialisedOnce s) (hphase : s.phase = .running) :
    initsAfter s a ≤ 1 := by
  unfold initsAfter
  split_ifs with hinit
  · have hzero : ¬ 0 < s.inits := fun hpos => h.2 hphase hpos hinit.2
    omega
  · exact h.1

theorem initialisedOnce_step {s next : State} {e : Event} (hbegun : Begun s)
    (h : InitialisedOnce s) (hstep : step wf s e = some next) :
    InitialisedOnce next ↔ ¬ Lost wf s e := by
  cases moves_of_step hstep with
  | @next a _ hphase hnext =>
      have hle := @initsAfter_le a s h hphase
      generalize hr : Iterator.next wf a s.world = r at hnext
      have hnot : (∀ w, r ≠ .ok () w) → ¬ Lost wf s (.next a) := by
        intro hne hlost
        obtain ⟨w, hok, -⟩ := next_of_lost hlost
        exact hne w (hr.symm.trans hok)
      cases hnext with
      | running w =>
          have hctx := (next_ok_iff.mp hr).1
          constructor
          · intro honce hlost
            obtain ⟨w', hok, hnil⟩ := next_of_lost hlost
            obtain rfl : w' = w := by simpa [hr] using hok.symm
            exact honce.2 rfl (initsAfter_pos hbegun hphase hctx) hnil
          · intro hlost
            exact ⟨hle, fun _ _ hnil => hlost (lost_of_next hr hnil)⟩
      | awaiting decision updates w => exact ⟨fun _ => hnot nofun, fun _ => ⟨hle, nofun⟩⟩
      | ended herr w => exact ⟨fun _ => hnot nofun, fun _ => ⟨hle, nofun⟩⟩
      | stopped herr w => exact ⟨fun _ => hnot nofun, fun _ => ⟨hle, nofun⟩⟩
  | @resume a pos decision updates c _ hphase hchoice hresume =>
      obtain ⟨hpos, hrec⟩ := hbegun.waiting decision updates hphase
      generalize hr : Iterator.resume a decision updates c s.world = r at hresume
      have hlost : Lost wf s (.resolve a pos) ↔ (∃ w, r = .ok () w) ∧ c.nextLink = UUID.nil := by
        rw [← hr, resume_ok_iff hrec]
        constructor
        · rintro (_ | _ | ⟨hphase', hchoice', hwrite, hnil⟩)
          obtain ⟨rfl, rfl⟩ : _ ∧ _ := by simpa using hphase.symm.trans hphase'
          obtain rfl := Option.some.inj (hchoice.symm.trans hchoice')
          exact ⟨hwrite, hnil⟩
        · rintro ⟨hwrite, hnil⟩
          exact .choice hphase hchoice hwrite hnil
      rw [hlost]
      cases hresume with
      | running w =>
          have hlink := resume_nextLink hr
          constructor
          · rintro honce ⟨-, hnil⟩
            exact honce.2 rfl hpos (hlink.trans hnil)
          · intro hne
            exact ⟨h.1, fun _ _ hnil => hne ⟨⟨w, rfl⟩, hlink.symm.trans hnil⟩⟩
      | awaiting decision updates w => exact ⟨fun _ => nofun, fun _ => ⟨h.1, nofun⟩⟩
      | ended herr w => exact ⟨fun _ => nofun, fun _ => ⟨h.1, nofun⟩⟩
      | stopped herr w => exact ⟨fun _ => nofun, fun _ => ⟨h.1, nofun⟩⟩
  | crash hphase hchoice =>
      refine ⟨fun _ hlost => ?_, fun _ => ⟨h.1, nofun⟩⟩
      obtain _ | _ | ⟨hphase', hchoice', -, -⟩ := hlost
      obtain ⟨rfl, rfl⟩ : _ ∧ _ := by simpa using hphase.symm.trans hphase'
      exact absurd (hchoice.symm.trans hchoice') nofun
  | cancel => exact ⟨fun _ => nofun, fun _ => ⟨h.1, nofun⟩⟩

theorem initialised_once_iff (wf : Document) (pkg : Package) (status : PackageStatus)
    (jobs : GoMap UUID JobRow) (es : List Event) :
    Always (step wf) InitialisedOnce (start pkg status jobs) es ↔
      Meets (step wf) (fun s e => ¬ Lost wf s e) (start pkg status jobs) es := by
  refine always_iff_meets (step wf) Begun InitialisedOnce _ (fun _ _ _ => begun_step)
    (fun _ _ _ => initialisedOnce_step) es ⟨?_, ?_⟩ ⟨?_, ?_⟩
  · exact fun _ hne => absurd rfl hne
  · exact nofun
  · exact Nat.zero_le 1
  · exact fun _ hpos => absurd hpos (Nat.lt_irrefl 0)

def chainOf (linkID : UUID) : Chain := ⟨⟨0x1⟩, ∅, linkID⟩

def transferAt (startAtChainID : UUID) : Package where
  id := ⟨0x5⟩
  unit := .transfer "default".toList
  sharedDir := "/var/archivematica/sharedDirectory/".toList
  path := "/var/archivematica/sharedDirectory/currentlyProcessing/a".toList
  startAtChainID := startAtChainID
  startAtLinkID := UUID.nil

-- A chain of one link.
def singleLink (wl : Link) : Document where
  chains := Finmap.singleton (chainOf wl.id).id (chainOf wl.id)
  links := Finmap.singleton wl.id wl
  chains_id := by
    intro id chain h
    rw [GoMap.lookup_singleton] at h
    split_ifs at h with hid
    obtain rfl := Option.some.inj h
    exact hid.symm
  links_id := by
    intro id link h
    rw [GoMap.lookup_singleton] at h
    split_ifs at h with hid
    obtain rfl := Option.some.inj h
    exact hid.symm

-- "Return to normalization step" of the workflow, which has no default.
def returnToNormalization : Link where
  id := ⟨0x6e5126be76ac4c8f9754fc25a234a751⟩
  manager := "linkTaskManagerUnitVariableLinkPull"
  config := .taskConfigUnitVariableLinkPull "normalizationThumbnailProcessing".toList UUID.nil
  description := ∅
  exitCodes := ∅
  fallbackJobStatus := "Completed successfully"
  fallbackLinkID := UUID.nil
  group := ∅
  ends := false

theorem package_restarts :
    ¬ Always (step (singleLink returnToNormalization)) InitialisedOnce
      (start (transferAt ⟨0x1⟩) .unknown ∅) [.next quiet, .next quiet, .next quiet] := by
  intro h
  have hinits : (run (step (singleLink returnToNormalization)) (start (transferAt ⟨0x1⟩) .unknown ∅)
      [.next quiet, .next quiet, .next quiet]).map State.inits = some 2 := by decide
  obtain ⟨s, hs, htwo⟩ := Option.map_eq_some_iff.mp hinits
  have honce := (always_iff_run ..).mp h _ [] s (List.append_nil _).symm hs
  exact absurd (htwo ▸ honce.1) (by decide)

end Iterator

end Ccp
