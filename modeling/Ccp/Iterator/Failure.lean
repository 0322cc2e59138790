import Ccp.Iterator.Restart

namespace Ccp

open Lib Lib.Calls Workflow

variable {wf : Document} {a : Answers} {wl : Link} {w w' : World}

-- The reads of a unit's reload that fail.
def CannotReload (a : Answers) : PackageUnit → Prop
  | .transfer _ => (∃ text, a.transferLocation = .error text) ∨
      ∃ path text, a.transferLocation = .ok path ∧ a.processingConfiguration = .failed text
  | .sip _ _ => ∃ text, a.sip = .error text
  | .dip => False

theorem ofExcept_error_iff {α : Type} {e : Except String α} {err : Err} :
    ofExcept e w = .error err w' ↔ ∃ text, e = .error text ∧ Err.failed text = err ∧ w = w' := by
  cases e <;> simp [ofExcept, pure_ne_error, throw_error_iff]

theorem reloadTransfer_error_iff :
    (∃ err w', reloadTransfer a w = .error err w') ↔ (∃ text, a.transferLocation = .error text) ∨
      ∃ path text, a.transferLocation = .ok path ∧ a.processingConfiguration = .failed text := by
  simp only [reloadTransfer, bind_error_iff, ofExcept_error_iff, ofExcept_ok_iff, modify_ok_iff,
    modify_ne_error, false_or]
  constructor
  · rintro ⟨err, w', ⟨text, htext, -⟩ | ⟨path, _, ⟨hpath, rfl⟩, _, _, rfl, h⟩⟩
    · exact Or.inl ⟨text, htext⟩
    · cases hconf : a.processingConfiguration with
      | failed text => exact Or.inr ⟨path, text, hpath, rfl⟩
      | notFound => simp [hconf, modify_ne_error] at h
      | found name => simp [hconf, modify_ne_error] at h
  · rintro (⟨text, htext⟩ | ⟨path, text, hpath, hconf⟩)
    · exact ⟨_, w, Or.inl ⟨text, htext, rfl, rfl⟩⟩
    · exact ⟨.failed text, _, Or.inr ⟨path, w, ⟨hpath, rfl⟩, (), _, rfl, by rw [hconf]; rfl⟩⟩

theorem reload_error_iff :
    (∃ err w', reload a w = .error err w') ↔ CannotReload a w.pkg.unit := by
  unfold reload
  cases w.pkg.unit with
  | transfer name => exact reloadTransfer_error_iff
  | sip sipType aipFilename =>
      simp only [CannotReload, reloadSIP, bind_error_iff, ofExcept_error_iff, modify_ne_error,
        and_false, exists_false, or_false]
      exact ⟨fun ⟨_, _, text, h, _⟩ => ⟨text, h⟩, fun ⟨text, h⟩ => ⟨_, w, text, h, rfl, rfl⟩⟩
  | dip => simp [CannotReload]

-- A write that was tried and went wrong.
def Answers.Writes (a : Answers) : Prop := ∀ op, a.write op = none

theorem jobs_of_exec_failed {runner : Runner} {text : String}
    (h : runner.exec wf a wl w = .error (.failed text) w') : w'.jobs = w.jobs := by
  have hclient : ∀ {s : World}, execClientScript a wl s = .error (.failed text) w' →
      w'.jobs = s.jobs := by
    intro s hs
    simp only [execClientScript, updateStatusFromExitCode, bind_error_iff, withContext_error_iff,
      withContext_ok_iff, ofExcept_error_iff, ofExcept_ok_iff, modify_ne_error, and_false,
      exists_false, or_false] at hs
    obtain ⟨_, ⟨_, -, -, rfl⟩, -⟩ | ⟨results, _, ⟨-, rfl⟩, ⟨_, hwrite, -⟩ | ⟨_, _, -, hend⟩⟩ := hs
    · rfl
    · rw [(write_error hwrite).1]
    · cases hnext : exitCodeNext wl (processTaskResults results) with
      | none =>
          rw [hnext] at hend
          exact Err.noConfusion (throw_error_iff.mp hend).1
      | some linkID =>
          rw [hnext] at hend
          exact absurd hend pure_ne_error
  cases runner with
  | directoryClientScriptJob config => exact hclient h
  | filesClientScriptJob config =>
      rcases bind_error_iff.mp h with hdir | ⟨_, w1, hdir, h⟩
      · exact (keeps_withContext (keeps_filterSubDir config)).error hdir
      · rw [hclient h]
        exact (keeps_withContext (keeps_filterSubDir config)).ok hdir
  | _ => exact (keeps_exec_of_not_recordsStatus (fun _ _ => rfl) rfl : Keeps World.jobs _).error h

-- With writes that succeed a status of the code's own is always stored.
theorem markComplete_ne_error (hwrites : a.Writes) {id : UUID} {err : Err} :
    markComplete a id w ≠ .error err w' := by
  intro h
  obtain ⟨_, _, ⟨rfl, rfl⟩, h⟩ := (bind_error_iff.mp h).resolve_left get_ne_error
  split_ifs at h
  · exact pure_ne_error h
  · rcases bind_error_iff.mp h with h | ⟨_, _, -, h⟩
    · obtain ⟨inner, h, -⟩ := withContext_error_iff.mp h
      rcases (write_error h).2 with hinvalid | hrefused
      · exact hinvalid rfl
      · exact hrefused (hwrites _)
    · exact modify_ne_error h

theorem markAwaitingDecision_ne_error (hwrites : a.Writes) {id : UUID} {err : Err} :
    markAwaitingDecision a id w ≠ .error err w' := by
  intro h
  obtain ⟨inner, h, -⟩ := withContext_error_iff.mp h
  rcases (write_error h).2 with hinvalid | hrefused
  · exact hinvalid rfl
  · exact hrefused (hwrites _)

def JobRow.Pending (row : JobRow) : Prop :=
  row.currentStep = .awaitingDecision ∨ row.currentStep = .executingCommands

def NonePending (jobs : GoMap UUID JobRow) : Prop :=
  ∀ id row, jobs.lookup id = some row → ¬ row.Pending

-- A job that fails leaves its row as executing, unless it could not be saved.
theorem execJob_failed (hwrites : a.Writes) {runner : Runner} {text : String}
    (h : execJob wf a wl runner w = .error (.failed text) w') :
    NonePending w'.jobs ↔ CannotReload a w.pkg.unit ∧ NonePending w.jobs := by
  have hends := jobEnds_execJob wf a wl runner w
  rw [h] at hends
  generalize hr : EStateM.Result.error (Err.failed text) w' = r at hends
  have hsaved : ∀ {w1 : World}, save a wl { w with recorded := false } = .ok () w1 →
      ¬ CannotReload a w.pkg.unit ∧ w1.jobs.lookup a.jobID = some (jobRow w1.pkg wl) := by
    intro w1 hsave
    obtain ⟨w0, hreload, rfl⟩ := save_ok hsave
    refine ⟨fun hcannot => ?_, Finmap.lookup_insert _⟩
    obtain ⟨err, w2, herror⟩ := (@reload_error_iff a { w with recorded := false }).mpr hcannot
    exact nomatch hreload.symm.trans herror
  cases hends with
  | unsaved hsave =>
      obtain ⟨-, rfl⟩ := EStateM.Result.error.inj hr
      rcases save_error hsave with ⟨inner, hreload⟩ | ⟨w1, -, hrefused, -⟩
      · have hkeeps : Keeps World.jobs (reload a) := keeps_reload fun _ _ => rfl
        have hcannot := (@reload_error_iff a { w with recorded := false }).mp ⟨inner, _, hreload⟩
        rw [hkeeps.error hreload]
        exact ⟨fun h => ⟨hcannot, h⟩, fun h => h.2⟩
      · exact absurd (hwrites _) hrefused
  | done hsave hexec hmark => exact nomatch hr
  | unmarked hsave hexec hmark => exact absurd hmark (markComplete_ne_error hwrites)
  | waits hsave hexec hmark => exact nomatch (EStateM.Result.error.inj hr).1
  | unawaited hsave hexec hmark => exact absurd hmark (markAwaitingDecision_ne_error hwrites)
  | @failed err w1 w2 hsave hexec hwait =>
      obtain ⟨herr, rfl⟩ := EStateM.Result.error.inj hr
      obtain ⟨hreloaded, hrow⟩ := hsaved hsave
      obtain ⟨inner, rfl⟩ : err.IsFailed := by
        cases err with
        | failed inner => exact ⟨inner, rfl⟩
        | _ => exact nomatch herr
      rw [jobs_of_exec_failed hexec]
      exact ⟨fun hnone => absurd (Or.inr rfl) (hnone _ _ hrow), fun h => absurd h.1 hreloaded⟩

-- No job touches the status of its package.

theorem keeps_status_save : Keeps World.status (save a wl) := by
  have hreload : Keeps World.status (reload a) := keeps_reload fun _ _ => rfl
  refine keeps_of (fun s u s' h => ?_) (fun s err s' h => ?_)
  · obtain ⟨w1, hok, rfl⟩ := save_ok h
    exact (hreload.ok hok :)
  · rcases save_error h with ⟨inner, herror⟩ | ⟨w1, hok, -, rfl⟩
    · exact hreload.error herror
    · exact hreload.ok hok

theorem keeps_status_markComplete (id : UUID) : Keeps World.status (markComplete a id) := by
  refine keeps_bind keeps_get fun s => ?_
  split_ifs
  · exact keeps_pure _
  · exact keeps_bind (keeps_withContext (keeps_write_jobStatus (fun _ _ => rfl) _ _)) fun _ =>
      keeps_modify fun _ => rfl

theorem keeps_status_execJob (runner : Runner) : Keeps World.status (execJob wf a wl runner) := by
  have hexecs : Keeps World.status (runner.exec wf a wl) :=
    keeps_exec (fun _ _ => rfl) (fun _ _ => rfl) (fun _ _ => rfl) runner
  have hmarks := @keeps_status_markComplete a a.jobID
  have hawaits : Keeps World.status (markAwaitingDecision a a.jobID) :=
    keeps_withContext (keeps_write_jobStatus (fun _ _ => rfl) _ _)
  have hsaves : ∀ {w w1 : World}, save a wl { w with recorded := false } = .ok () w1 →
      w1.status = w.status := fun h => (keeps_status_save.ok h :)
  intro w
  have hends := jobEnds_execJob wf a wl runner w
  generalize execJob wf a wl runner w = r at hends
  cases hends with
  | unsaved hsave => exact (keeps_status_save.error hsave :)
  | done hsave hexec hmark => exact (hmarks.ok hmark).trans ((hexecs.ok hexec).trans (hsaves hsave))
  | unmarked hsave hexec hmark =>
      exact (hmarks.error hmark).trans ((hexecs.ok hexec).trans (hsaves hsave))
  | waits hsave hexec hmark =>
      exact (hawaits.ok hmark).trans ((hexecs.error hexec).trans (hsaves hsave))
  | unawaited hsave hexec hmark =>
      exact (hawaits.error hmark).trans ((hexecs.error hexec).trans (hsaves hsave))
  | failed hsave hexec hwait => exact (hexecs.error hexec).trans (hsaves hsave)

namespace Iterator

-- The store takes every write.
def Event.Writes : Event → Prop
  | .next a => a.Writes
  | .resolve a _ => a.Writes
  | .cancel => True

theorem keeps_status_startChain (wc : Chain) : Keeps World.status (startChain a wc) := by
  refine keeps_bind (keeps_modify fun _ => rfl) fun _ => keeps_bind (keeps_withContext ?_) fun _ =>
    keeps_modify fun _ => rfl
  intro s
  unfold loadChain
  cases a.unitVars <;> rfl

-- The package is marked as processing for as long as it is worked on.
def Processing (s : State) : Prop :=
  (s.phase = .running → s.world.nextLink ≠ UUID.nil → s.world.status = .processing) ∧
  ∀ decision updates, s.phase = .awaiting decision updates → s.world.status = .processing

theorem status_of_enters {w0 : World} (h : w.nextLink ≠ UUID.nil → w.status = .processing)
    (henter : Enters wf a w w0) : w0.status = .processing := by
  rcases henter with ⟨hlinked, rfl⟩ | ⟨-, hinit⟩
  · exact h hlinked
  · obtain ⟨-, wc, -, rfl⟩ := init_ok_iff.mp hinit
    rfl

theorem status_of_next_ok (h : w.nextLink ≠ UUID.nil → w.status = .processing)
    (hnext : next wf a w = .ok () w') : w'.status = .processing := by
  obtain ⟨-, w0, henter, hfollow⟩ := next_ok_iff.mp hnext
  rw [← status_of_enters h henter]
  rcases followLink_ok_iff.mp hfollow with ⟨wc, -, hstart⟩ | ⟨-, -, wl, -, hjob⟩
  · exact (keeps_status_startChain wc).ok hstart
  · obtain ⟨runner, id, w3, -, hexec, rfl⟩ := nextJob_ok_iff.mp hjob
    exact ((keeps_status_execJob runner).ok hexec :)

theorem status_of_next_wait (h : w.nextLink ≠ UUID.nil → w.status = .processing)
    {decision : Decision} {updates : Bool}
    (hnext : next wf a w = .error (.wait decision updates) w') : w'.status = .processing := by
  obtain ⟨w0, wl, runner, henter, hexec⟩ := next_wait_job hnext
  rw [← status_of_enters h henter]
  exact (keeps_status_execJob runner).error hexec

theorem keeps_status_resume {decision : Decision} {updates : Bool} {c : Choice} :
    Keeps World.status (resume a decision updates c) := by
  refine keeps_bind (keeps_bind (keeps_modify fun s => ?_) fun _ => keeps_status_markComplete _)
    fun _ => keeps_modify fun _ => rfl
  unfold setChoice
  split_ifs <;> rfl

theorem processing_start (pkg : Package) (status : PackageStatus) (jobs : GoMap UUID JobRow) :
    Processing (start pkg status jobs) :=
  ⟨fun _ hne => absurd rfl hne, fun _ _ h => nomatch h⟩

theorem processing_step {s next : State} {e : Event} (h : Processing s)
    (hstep : step wf s e = some next) : Processing next := by
  cases moves_of_step hstep with
  | @next a _ hphase hnext =>
      generalize hr : Iterator.next wf a s.world = r at hnext
      cases hnext with
      | running w => exact ⟨fun _ _ => status_of_next_ok (h.1 hphase) hr, nofun⟩
      | awaiting decision updates w =>
          exact ⟨nofun, fun _ _ _ => status_of_next_wait (h.1 hphase) hr⟩
      | ended herr w => exact ⟨nofun, nofun⟩
      | stopped herr w => exact ⟨nofun, nofun⟩
  | @resume a pos decision updates c _ hphase hchoice hresume =>
      generalize hr : Iterator.resume a decision updates c s.world = r at hresume
      cases hresume with
      | running w =>
          have hstatus := h.2 decision updates hphase
          exact ⟨fun _ _ => (keeps_status_resume.ok hr).trans hstatus, nofun⟩
      | awaiting decision' updates' w =>
          exact absurd rfl ((raises_resume _ _ _ hr).ne_wait decision' updates')
      | ended herr w => exact ⟨nofun, nofun⟩
      | stopped herr w => exact ⟨nofun, nofun⟩
  | crash hphase hchoice => exact ⟨nofun, nofun⟩
  | cancel => exact ⟨nofun, nofun⟩

theorem resume_ne_error (hwrites : a.Writes) {decision : Decision} {updates : Bool} {c : Choice}
    {err : Err} : resume a decision updates c w ≠ .error err w' := by
  intro h
  rcases bind_error_iff.mp h with h | ⟨_, _, -, h⟩
  · rcases bind_error_iff.mp h with h | ⟨_, _, -, h⟩
    · exact modify_ne_error h
    · exact markComplete_ne_error hwrites h
  · exact modify_ne_error h

theorem status_of_init_error (hwrites : a.Writes) {err : Err}
    (h : init wf a w = .error err w') : w'.status = .processing := by
  rcases bind_error_iff.mp h with hwrite | ⟨_, w1, hwrite, hend⟩
  · rcases (write_error hwrite).2 with hinvalid | hrefused
    · exact absurd rfl hinvalid
    · exact absurd (hwrites _) hrefused
  · obtain ⟨-, -, rfl⟩ := write_ok_iff.mp hwrite
    obtain ⟨_, _, ⟨rfl, rfl⟩, hend⟩ := (bind_error_iff.mp hend).resolve_left get_ne_error
    cases hchain : wf.chains.lookup ((StoreWrite.packageStatus .processing).apply w).pkg.startAtChainID with
    | none =>
        rw [hchain] at hend
        obtain ⟨-, rfl⟩ := throw_error_iff.mp hend
        rfl
    | some wc =>
        rw [hchain] at hend
        exact absurd hend modify_ne_error

theorem finish_failed (hwrites : a.Writes) {err : Err} {text : String}
    (h : finish a wl err w = .error (.failed text) w') :
    err.IsFailed ∧ w'.status = .failed ∧ w'.jobs = w.jobs := by
  have hmarked : logged (write a (.packageStatus .failed)) w = .ok () { w with status := .failed } := by
    have hwrite : write a (.packageStatus .failed) w = .ok () { w with status := .failed } :=
      write_ok_iff.mpr ⟨rfl, hwrites _, rfl⟩
    simp only [logged, hwrite]
  cases err with
  | failed inner =>
      rcases bind_error_iff.mp h with hlog | ⟨_, w1, hlog, hend⟩
      · exact nomatch hmarked.symm.trans hlog
      · obtain ⟨-, rfl⟩ := EStateM.Result.ok.inj (hmarked.symm.trans hlog)
        obtain ⟨-, rfl⟩ := throw_error_iff.mp hend
        exact ⟨⟨inner, rfl⟩, rfl, rfl⟩
  | eof =>
      unfold finish at h
      split_ifs at h
      · exact nomatch eq_of_logged_throw h
      · exact nomatch (throw_error_iff.mp h).1
  | canceled => exact nomatch eq_of_logged_throw h
  | terminator => exact nomatch eq_of_logged_throw h
  | wait decision updates => exact nomatch (throw_error_iff.mp h).1
  | noOrder => exact nomatch (throw_error_iff.mp h).1

-- The failure is on record: a failed package, and no job that looks unfinished.
def Recorded (w : World) : Prop := w.status = .failed ∧ NonePending w.jobs

-- The job of the link could be built, and its package could not be read again.
structure ReloadFails (wf : Document) (w : World) (a : Answers) : Prop where
  linked : w.nextLink ≠ UUID.nil
  job : ∃ wl runner, wf.links.lookup w.nextLink = some wl ∧ newJob wl = .ok runner
  chain : wf.chains.lookup w.nextLink = none ∧ w.chain ≠ none
  reload : CannotReload a w.pkg.unit

theorem next_failed (hwrites : a.Writes) (h : w.nextLink ≠ UUID.nil → w.status = .processing)
    {text : String} (hnext : next wf a w = .error (.failed text) w') :
    Recorded w' ↔ ReloadFails wf w a ∧ NonePending w.jobs := by
  have hends := nextEnds_next wf a w
  rw [hnext] at hends
  generalize hr : EStateM.Result.error (Err.failed text) w' = r at hends
  have hprocessing : w'.status = .processing → ¬ ReloadFails wf w a →
      (Recorded w' ↔ ReloadFails wf w a ∧ NonePending w.jobs) := fun hstatus hnot =>
    ⟨fun hrec => absurd (hstatus.symm.trans hrec.1) nofun, fun hrec => absurd hrec.1 hnot⟩
  have hsame : ∀ {w0 : World}, Enters wf a w w0 → w.nextLink ≠ UUID.nil → w0 = w := by
    rintro w0 (⟨-, rfl⟩ | ⟨hnil, -⟩) hlinked
    · rfl
    · exact absurd hnil hlinked
  cases hends with
  | canceled hctx => exact nomatch (EStateM.Result.error.inj hr).1
  | uninitialised hnil hinit =>
      obtain ⟨rfl, rfl⟩ := EStateM.Result.error.inj hr
      exact hprocessing (status_of_init_error hwrites hinit) fun hfails => hfails.linked hnil
  | chain hctx henter hchain =>
      refine hprocessing ?_ fun hfails => ?_
      · rw [(keeps_status_startChain _).error hr.symm, status_of_enters h henter]
      · rw [hsame henter hfails.linked, hfails.chain.1] at hchain
        exact nomatch hchain
  | unknown henter hchain hjob =>
      obtain ⟨-, rfl⟩ := EStateM.Result.error.inj hr
      refine hprocessing (status_of_enters h henter) fun hfails => ?_
      obtain rfl := hsame henter hfails.linked
      obtain ⟨wl, runner, hlink, hnew⟩ := hfails.job
      rcases hjob with hnone | hno
      · exact hfails.chain.2 hnone
      · exact hno wl runner hlink hnew
  | job hctx henter hchain hstarted hlink hnew hexec => exact nomatch hr
  | @finished w0 w1 wl runner err hctx henter hchain hstarted hlink hnew hexec =>
      obtain ⟨⟨inner, rfl⟩, hstatus, hjobs⟩ := finish_failed hwrites hr.symm
      have hlinked : w.nextLink ≠ UUID.nil := by
        intro hnil
        obtain ⟨-, wc, hfirst, rfl⟩ := enters_unlinked henter hnil
        exact nomatch hfirst.symm.trans hchain
      obtain rfl := hsame henter hlinked
      have hrow := execJob_failed hwrites hexec
      rw [Recorded, hjobs, hrow]
      constructor
      · rintro ⟨-, hreload, hnone⟩
        exact ⟨⟨hlinked, ⟨wl, runner, hlink, hnew⟩, ⟨hchain, hstarted⟩, hreload⟩, hnone⟩
      · rintro ⟨hfails, hnone⟩
        exact ⟨hstatus, hfails.reload, hnone⟩

theorem failure_recorded_iff (wf : Document) (pkg : Package) (status : PackageStatus)
    (jobs : GoMap UUID JobRow) (es : List Event) (s : State) (text : String)
    (hrun : run (step wf) (start pkg status jobs) es = some s)
    (hstop : s.phase = .stopped (some (.failed text)))
    (hwrites : ∀ e ∈ es, e.Writes) :
    Recorded s.world ↔ ∃ front a before, es = front ++ [.next a] ∧
      run (step wf) (start pkg status jobs) front = some before ∧
      ReloadFails wf before.world a ∧ NonePending before.world.jobs := by
  cases es using List.reverseRecOn with
  | nil =>
      obtain rfl : start pkg status jobs = s := by simpa using hrun
      exact nomatch hstop
  | append_singleton front e =>
      obtain ⟨before, hfront, hlast⟩ := (run_snoc_eq_some _).mp hrun
      have hprocessing : Processing before :=
        run_invariant (step wf) Processing (fun _ _ _ => processing_step)
          (processing_start pkg status jobs) hfront
      have hwrite : e.Writes := hwrites e (by simp)
      cases moves_of_step hlast with
      | @next a _ hphase hnext =>
          generalize hr : Iterator.next wf a before.world = r at hnext
          cases hnext with
          | running w => exact nomatch hstop
          | awaiting decision updates w => exact nomatch hstop
          | ended herr w => exact nomatch hstop
          | @stopped err herr w =>
              obtain rfl : err = .failed text := by simpa using hstop
              rw [next_failed hwrite (hprocessing.1 hphase) hr]
              constructor
              · intro h
                exact ⟨front, a, before, rfl, hfront, h⟩
              · rintro ⟨front', a', before', hsplit, hfront', h⟩
                obtain ⟨rfl, hevent⟩ := List.append_inj' hsplit rfl
                obtain rfl : a = a' := by simpa using hevent
                obtain rfl := Option.some.inj (hfront.symm.trans hfront')
                exact h
      | @resume a pos decision updates c _ hphase hchoice hresume =>
          generalize hr : Iterator.resume a decision updates c before.world = r at hresume
          cases hresume with
          | running w => exact nomatch hstop
          | awaiting decision' updates' w => exact nomatch hstop
          | ended herr w => exact nomatch hstop
          | stopped herr w => exact absurd hr (resume_ne_error hwrite)
      | crash hphase hchoice => exact nomatch hstop
      | cancel => exact nomatch hstop

-- The location of the transfer cannot be read.
def unreadable : Answers := { quiet with transferLocation := .error "connection refused" }

theorem writes_of_next {as : List Answers} (h : ∀ a ∈ as, a.Writes) :
    ∀ e ∈ as.map Event.next, e.Writes := by
  intro e he
  obtain ⟨a, ha, rfl⟩ := List.mem_map.mp he
  exact h a ha

-- The text of the error that the goroutine ended with.
def Phase.failure : Phase → Option String
  | .stopped (some (.failed text)) => some text
  | _ => none

theorem stopped_of_failure {phase : Phase} (h : phase.failure.isSome) :
    ∃ text, phase = .stopped (some (.failed text)) := by
  unfold Phase.failure at h
  split at h
  · exact ⟨_, rfl⟩
  · cases h

theorem failure_recorded_unreadable :
    ∃ s text, run (step (singleLink returnToNormalization)) (start (transferAt ⟨0x1⟩) .unknown ∅)
        ([quiet, unreadable].map Event.next) = some s ∧
      s.phase = .stopped (some (.failed text)) ∧ Recorded s.world := by
  let wf := singleLink returnToNormalization
  let s₀ := start (transferAt ⟨0x1⟩) .unknown ∅
  have hlast : (run (step wf) s₀ ([quiet, unreadable].map Event.next)).map
      (fun s => s.phase.failure.isSome) = some true := by decide
  have hfirst : (run (step wf) s₀ [.next quiet]).map (fun s => (s.world.nextLink, s.world.jobs,
      s.world.pkg.unit, s.world.chain.isSome)) =
        some (returnToNormalization.id, ∅, .transfer "default".toList, true) := by decide
  obtain ⟨s, hs, hfailed⟩ := Option.map_eq_some_iff.mp hlast
  obtain ⟨text, hstop⟩ := stopped_of_failure hfailed
  obtain ⟨before, hbefore, hstate⟩ := Option.map_eq_some_iff.mp hfirst
  simp only [Prod.mk.injEq] at hstate
  obtain ⟨hlink, hjobs, hunit, hchain⟩ := hstate
  have hwrites : ∀ e ∈ [quiet, unreadable].map Event.next, e.Writes :=
    writes_of_next (by simp [Answers.Writes, quiet, unreadable])
  refine ⟨s, _, hs, hstop, (failure_recorded_iff wf (transferAt ⟨0x1⟩) .unknown ∅ _ s _ hs hstop
    hwrites).mpr ⟨[.next quiet], unreadable, before, rfl, hbefore, ⟨?_, ?_, ⟨?_, ?_⟩, ?_⟩, ?_⟩⟩
  · rw [hlink]
    decide
  · rw [hlink]
    exact ⟨returnToNormalization, _, rfl, rfl⟩
  · rw [hlink]
    rfl
  · exact Option.isSome_iff_ne_none.mp hchain
  · rw [hunit]
    exact Or.inl ⟨_, rfl⟩
  · rw [hjobs]
    intro id row hrow
    rw [Finmap.lookup_empty] at hrow
    cases hrow

theorem unknown_chain_left_processing :
    ∃ s text, run (step (singleLink returnToNormalization)) (start (transferAt ⟨0x2⟩) .unknown ∅)
        ([quiet].map Event.next) = some s ∧
      (∀ e ∈ [quiet].map Event.next, e.Writes) ∧
      s.phase = .stopped (some (.failed text)) ∧ s.world.status = .processing ∧
      ¬ Recorded s.world := by
  have hend : (run (step (singleLink returnToNormalization))
      (start (transferAt ⟨0x2⟩) .unknown ∅) ([quiet].map Event.next)).map
        (fun s => (s.phase, s.world.status)) =
      some (.stopped (some (.failed "can't process a job without a chain")), .processing) := by decide
  obtain ⟨s, hs, hstate⟩ := Option.map_eq_some_iff.mp hend
  obtain ⟨hstop, hstatus⟩ := Prod.mk.inj hstate
  refine ⟨s, _, hs, writes_of_next (by simp [Answers.Writes, quiet]), hstop, hstatus, fun h => ?_⟩
  exact nomatch hstatus.symm.trans h.1

end Iterator

end Ccp
