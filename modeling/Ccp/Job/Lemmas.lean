import Ccp.Job
import Ccp.Lib.Calls

namespace Ccp

open Lib Lib.Calls Workflow

variable {wf : Document} {a : Answers} {wl : Link} {w w' : World}

-- The primitive calls.

theorem write_ok_iff {op : StoreWrite} {u : Unit} :
    write a op w = .ok u w' ↔ op.invalid = none ∧ a.write op = none ∧ op.apply w = w' := by
  unfold write
  cases op.invalid with
  | some text => simp
  | none => cases a.write op <;> simp

theorem write_error {op : StoreWrite} {err : Err} (h : write a op w = .error err w') :
    w' = w ∧ (op.invalid ≠ none ∨ a.write op ≠ none) := by
  unfold write at h
  cases hop : op.invalid with
  | some text =>
      simp only [hop, EStateM.Result.error.injEq] at h
      exact ⟨h.2.symm, Or.inl nofun⟩
  | none =>
      cases ha : a.write op with
      | some text =>
          simp only [hop, ha, EStateM.Result.error.injEq] at h
          exact ⟨h.2.symm, Or.inr nofun⟩
      | none => simp [hop, ha] at h

theorem withContext_ok_iff {α : Type} {context : String} {x : M α} {r : α} :
    withContext context x w = .ok r w' ↔ x w = .ok r w' := by
  unfold withContext
  cases x w <;> simp

theorem withContext_error_iff {α : Type} {context : String} {x : M α} {err : Err} :
    withContext context x w = .error err w' ↔
      ∃ inner, x w = .error inner w' ∧ inner.wrap context = err := by
  unfold withContext
  cases x w <;> simp [and_comm]

theorem ofExcept_ok_iff {α : Type} {e : Except String α} {r : α} :
    ofExcept e w = .ok r w' ↔ e = .ok r ∧ w = w' := by
  cases e <;> simp [ofExcept, pure_ok_iff, throw_ne_ok]

theorem keeps_withContext {α τ : Type} {p : World → τ} {context : String} {x : M α}
    (h : Keeps p x) : Keeps p (withContext context x) := by
  refine keeps_of (fun s r s' hx => h.ok (withContext_ok_iff.mp hx)) (fun s err s' hx => ?_)
  obtain ⟨inner, hinner, -⟩ := withContext_error_iff.mp hx
  exact h.error hinner

theorem keeps_ofExcept {α τ : Type} {p : World → τ} (e : Except String α) :
    Keeps p (ofExcept e) := by
  cases e with
  | ok r => exact keeps_pure r
  | error text => exact keeps_throw _

-- What the calls of a job leave as it is.

theorem keeps_formatChoices {τ : Type} {p : World → τ} (choices : GoMap Str Str) :
    Keeps p (formatChoices a choices) := by
  intro s
  unfold formatChoices
  cases formatLoop (a.visits choices) choices choices.keys <;> rfl

theorem keeps_parseUUID {τ : Type} {p : World → τ} (text : Str) : Keeps p (parseUUID text) := by
  unfold parseUUID
  cases UUID.parse text with
  | none => exact keeps_throw _
  | some id => exact keeps_pure id

theorem keeps_loadDatabaseContext {τ : Type} {p : World → τ} :
    Keeps p (loadDatabaseContext wf a wl) := by
  unfold loadDatabaseContext
  split
  · split_ifs
    · exact keeps_pure _
    · exact keeps_bind (keeps_ofExcept _) fun dict => keeps_formatChoices dict
  · exact keeps_pure _

theorem keeps_databaseContext {τ : Type} {p : World → τ} (replacements : List ConfigReplacement) :
    Keeps p (databaseContext wf a wl replacements) := by
  unfold databaseContext
  split_ifs
  · exact keeps_withContext keeps_loadDatabaseContext
  · exact keeps_pure _

theorem keeps_applyChoice {τ : Type} {p : World → τ} (normalized : UUID) (ret : GoMap Str Str)
    (choice : Workflow.Choice) : Keeps p (applyChoice wf a normalized ret choice) := by
  refine keeps_bind (keeps_parseUUID _) fun parsed => ?_
  dsimp only
  split
  · exact keeps_throw _
  · split
    · split
      · exact keeps_formatChoices _
      · exact keeps_pure _
    · exact keeps_throw _

theorem keeps_loadPreconfiguredContext {τ : Type} {p : World → τ} :
    Keeps p (loadPreconfiguredContext wf a wl) :=
  keeps_bind (keeps_ofExcept _) fun _ => keeps_foldlM (keeps_applyChoice _) _ _

-- A part of the world that the context is no part of, and so on.
def IgnoresContext {τ : Type} (p : World → τ) : Prop := ∀ w c, p { w with context := c } = p w

def IgnoresJobs {τ : Type} (p : World → τ) : Prop := ∀ w jobs, p { w with jobs := jobs } = p w

def IgnoresRecorded {τ : Type} (p : World → τ) : Prop :=
  ∀ w recorded, p { w with recorded := recorded } = p w

def IgnoresPkg {τ : Type} (p : World → τ) : Prop := ∀ w pkg, p { w with pkg := pkg } = p w

theorem keeps_updateChain {τ : Type} {p : World → τ} (hc : IgnoresContext p)
    (dict : GoMap Str Str) : Keeps p (updateChain a dict) := by
  intro s
  unfold updateChain
  split_ifs
  · exact hc s _
  · rfl

theorem keeps_useContext {τ : Type} {p : World → τ} (hc : IgnoresContext p) (dict : GoMap Str Str)
    {otherwise : M UUID} (h : Keeps p otherwise) : Keeps p (useContext a wl dict otherwise) := by
  unfold useContext
  split_ifs
  · exact h
  · exact keeps_bind (keeps_updateChain hc dict) fun _ => keeps_pure _

theorem keeps_awaitReplacement {τ : Type} {p : World → τ} (replacements : List ConfigReplacement) :
    Keeps p (awaitReplacement a wl replacements) := by
  unfold awaitReplacement
  split <;> exact keeps_throw _

theorem keeps_execNextChainDecision {τ : Type} {p : World → τ} (choices : List UUID) :
    Keeps p (execNextChainDecision wf a wl choices) := by
  refine keeps_bind (keeps_bind (keeps_ofExcept _) fun _ => keeps_pure _) fun chainID => ?_
  split_ifs
  · exact keeps_throw _
  · exact keeps_bind (keeps_parseUUID _) fun cid => keeps_pure _
  · exact keeps_bind (keeps_parseUUID _) fun cid => keeps_throw _

theorem keeps_execUpdateContextDecision {τ : Type} {p : World → τ} (hc : IgnoresContext p)
    (replacements : List ConfigReplacement) :
    Keeps p (execUpdateContextDecision wf a wl replacements) := by
  refine keeps_bind (keeps_databaseContext _) fun dict => keeps_useContext hc dict ?_
  refine keeps_bind (keeps_withContext keeps_loadPreconfiguredContext) fun dict => ?_
  exact keeps_useContext hc dict (keeps_awaitReplacement _)

theorem keeps_write_jobStatus {τ : Type} {p : World → τ} (hj : IgnoresJobs p) (id : UUID)
    (status : String) : Keeps p (write a (.jobStatus id status)) := by
  refine keeps_of (fun s u s' hw => ?_) (fun s err s' hw => by rw [(write_error hw).1])
  obtain ⟨-, -, rfl⟩ := write_ok_iff.mp hw
  simp only [StoreWrite.apply]
  cases JobStep.ofStatus status with
  | none => rfl
  | some step => exact hj s _

theorem keeps_updateStatusFromExitCode {τ : Type} {p : World → τ} (hj : IgnoresJobs p)
    (hr : IgnoresRecorded p) (code : Int) : Keeps p (updateStatusFromExitCode a wl code) :=
  keeps_bind (keeps_withContext (keeps_write_jobStatus hj _ _)) fun _ =>
    keeps_modify fun s => hr s true

theorem keeps_execClientScript {τ : Type} {p : World → τ} (hj : IgnoresJobs p)
    (hr : IgnoresRecorded p) : Keeps p (execClientScript a wl) := by
  refine keeps_bind (keeps_withContext (keeps_ofExcept _)) fun results => ?_
  refine keeps_bind (keeps_updateStatusFromExitCode hj hr _) fun _ => ?_
  split
  · exact keeps_throw _
  · exact keeps_pure _

theorem keeps_filterSubDir {τ : Type} {p : World → τ} (config : LinkStandardTaskConfig) :
    Keeps p (filterSubDir a config) := by
  unfold filterSubDir
  split
  · exact keeps_pure _
  · exact keeps_throw _
  · split_ifs
    · exact keeps_pure _
    · split <;> exact keeps_pure _

theorem keeps_execSetUnitVarLink {τ : Type} {p : World → τ} (name : Str) (linkID : UUID) :
    Keeps p (execSetUnitVarLink a wl name linkID) := by
  refine keeps_bind (keeps_withContext ?_) fun _ => keeps_pure _
  refine keeps_of (fun s u s' hw => ?_) (fun s err s' hw => by rw [(write_error hw).1])
  obtain ⟨-, -, rfl⟩ := write_ok_iff.mp hw
  rfl

theorem keeps_execGetUnitVarLink {τ : Type} {p : World → τ} (linkID : UUID) :
    Keeps p (execGetUnitVarLink a linkID) := by
  unfold execGetUnitVarLink
  split
  · exact keeps_pure _
  · exact keeps_throw _
  · exact keeps_pure _

-- The runners that record a status of their own.
def Runner.recordsStatus : Runner → Bool
  | .directoryClientScriptJob _ => true
  | .filesClientScriptJob _ => true
  | _ => false

theorem keeps_exec_of_not_recordsStatus {τ : Type} {p : World → τ} (hc : IgnoresContext p)
    {runner : Runner} (h : runner.recordsStatus = false) : Keeps p (runner.exec wf a wl) := by
  cases runner with
  | nextChainDecisionJob choices => exact keeps_execNextChainDecision choices
  | updateContextDecisionJob replacements => exact keeps_execUpdateContextDecision hc replacements
  | directoryClientScriptJob config => exact nomatch h
  | filesClientScriptJob config => exact nomatch h
  | setUnitVarLinkJob name linkID => exact keeps_execSetUnitVarLink name linkID
  | getUnitVarLinkJob name linkID => exact keeps_execGetUnitVarLink linkID

theorem keeps_exec {τ : Type} {p : World → τ} (hc : IgnoresContext p) (hj : IgnoresJobs p)
    (hr : IgnoresRecorded p) (runner : Runner) : Keeps p (runner.exec wf a wl) := by
  cases h : runner.recordsStatus with
  | false => exact keeps_exec_of_not_recordsStatus hc h
  | true =>
      cases runner with
      | directoryClientScriptJob config => exact keeps_execClientScript hj hr
      | filesClientScriptJob config =>
          exact keeps_bind (keeps_withContext (keeps_filterSubDir config)) fun _ =>
            keeps_execClientScript hj hr
      | _ => exact nomatch h

-- What the runners' calls need to succeed.

def Answers.Accepts (a : Answers) (op : StoreWrite) : Prop := op.invalid = none ∧ a.write op = none

def Answers.Visits (a : Answers) (dict : GoMap Str Str) : Prop :=
  GoMap.RangeOrder dict ((a.entries dict).map fun e => ⟨e.1, e.2⟩)

theorem parseUUID_ok_iff {s : Str} {id : UUID} :
    parseUUID s w = .ok id w' ↔ UUID.parse s = some id ∧ w = w' := by
  unfold parseUUID
  cases UUID.parse s <;> simp [pure_ok_iff, throw_ne_ok]

theorem execNextChainDecision_ok_iff {choices : List UUID} {id : UUID} :
    execNextChainDecision wf a wl choices w = .ok id w' ↔
      (∃ configured c, a.processingConfig = .ok configured ∧
        configured.find? (fun c => c.linkID = wl.id) = some c ∧ UUID.parse c.goToChain = some id ∧
        choices.any fun item => (wf.chains.lookup item).isSome) ∧ w = w' := by
  simp only [execNextChainDecision, preconfiguredChoice, bind_ok_iff, ofExcept_ok_iff, pure_ok_iff]
  constructor
  · rintro ⟨_, _, ⟨configured, _, ⟨hconf, rfl⟩, rfl, rfl⟩, h⟩
    split_ifs at h with hempty hany
    · exact absurd h throw_ne_ok
    · obtain ⟨_, _, hcall, hpure⟩ := bind_ok_iff.mp h
      obtain ⟨hparse, rfl⟩ := parseUUID_ok_iff.mp hcall
      obtain ⟨rfl, rfl⟩ := pure_ok_iff.mp hpure
      cases hfind : configured.find? (fun c => c.linkID = wl.id) with
      | none => simp [hfind] at hempty
      | some c =>
          simp only [hfind, Option.map_some, Option.getD_some] at hparse
          exact ⟨⟨configured, c, hconf, hfind, hparse, hany⟩, rfl⟩
    · obtain ⟨_, _, -, hthrow⟩ := bind_ok_iff.mp h
      exact absurd hthrow throw_ne_ok
  · rintro ⟨⟨configured, c, hconf, hfind, hparse, hany⟩, rfl⟩
    refine ⟨_, _, ⟨configured, _, ⟨hconf, rfl⟩, rfl, rfl⟩, ?_⟩
    have hne : c.goToChain ≠ [] := by
      intro hnil
      have hnone : UUID.parse [] = none := by decide
      simp [hnil, hnone] at hparse
    simp only [hfind, Option.map_some, Option.getD_some, hne, if_false, hany, if_true]
    exact bind_ok_iff.mpr ⟨id, w, parseUUID_ok_iff.mpr ⟨hparse, rfl⟩, rfl⟩

theorem updateChain_ok_iff {dict : GoMap Str Str} {u : Unit} :
    updateChain a dict w = .ok u w' ↔ a.Visits dict ∧
      { w with context := (a.entries dict).foldl (fun c e => setContext c e.1 e.2) w.context } = w' := by
  unfold updateChain Answers.Visits
  split_ifs with h <;> simp [h]

theorem useContext_ok_iff {dict : GoMap Str Str} {otherwise : M UUID} {id : UUID} :
    (∃ w', useContext a wl dict otherwise w = .ok id w') ↔
      dict ≠ ∅ ∧ a.Visits dict ∧ exitCodeLinkID wl 0 = id ∨
        dict = ∅ ∧ ∃ w', otherwise w = .ok id w' := by
  unfold useContext
  by_cases hdict : dict = ∅
  · simp [hdict]
  · simp only [hdict, if_false, ne_eq, not_false_eq_true, true_and, false_and, or_false, bind_ok_iff,
      updateChain_ok_iff, pure_ok_iff]
    constructor
    · rintro ⟨_, _, _, ⟨hvisits, -⟩, hid, -⟩
      exact ⟨hvisits, hid⟩
    · rintro ⟨hvisits, hid⟩
      exact ⟨_, (), _, ⟨hvisits, rfl⟩, hid, rfl⟩

theorem awaitReplacement_ne_ok {replacements : List ConfigReplacement} {id : UUID} :
    awaitReplacement a wl replacements w ≠ .ok id w' := by
  unfold awaitReplacement
  cases replacements.zipIdx.mapM fun item => replacementChoice a wl item.1 item.2 <;>
    exact throw_ne_ok

theorem execPreconfigured_ok_iff {replacements : List ConfigReplacement} {id : UUID} :
    (∃ w', execPreconfigured wf a wl replacements w = .ok id w') ↔
      ∃ dict w', loadPreconfiguredContext wf a wl w = .ok dict w' ∧ dict ≠ ∅ ∧ a.Visits dict ∧
        exitCodeLinkID wl 0 = id := by
  simp only [execPreconfigured, bind_ok_iff, withContext_ok_iff]
  constructor
  · rintro ⟨w', dict, w1, hload, h⟩
    rcases useContext_ok_iff.mp ⟨w', h⟩ with hdict | ⟨-, w', h⟩
    · exact ⟨dict, w1, hload, hdict⟩
    · exact absurd h awaitReplacement_ne_ok
  · rintro ⟨dict, w1, hload, hdict⟩
    obtain ⟨w', h⟩ := useContext_ok_iff.mpr (Or.inl hdict)
    exact ⟨w', dict, w1, hload, h⟩

theorem execClientScript_ok_iff {id : UUID} :
    execClientScript a wl w = .ok id w' ↔ ∃ results, a.taskResults = .ok results ∧
      exitCodeNext wl (processTaskResults results) = some id ∧
      a.Accepts (.jobStatus a.jobID (exitCodeStatus wl (processTaskResults results))) ∧
      { (StoreWrite.jobStatus a.jobID (exitCodeStatus wl (processTaskResults results))).apply w with
        recorded := true } = w' := by
  simp only [execClientScript, updateStatusFromExitCode, bind_ok_iff, withContext_ok_iff,
    ofExcept_ok_iff, write_ok_iff, modify_ok_iff, Answers.Accepts]
  constructor
  · rintro ⟨results, _, ⟨hresults, rfl⟩, _, _, ⟨_, _, ⟨hvalid, hwrite, rfl⟩, rfl⟩, h⟩
    refine ⟨results, hresults, ?_⟩
    cases hnext : exitCodeNext wl (processTaskResults results) with
    | none =>
        rw [hnext] at h
        exact absurd h throw_ne_ok
    | some linkID =>
        rw [hnext] at h
        obtain ⟨hid, rfl⟩ := pure_ok_iff.mp h
        exact ⟨congrArg some hid, ⟨hvalid, hwrite⟩, rfl⟩
  · rintro ⟨results, hresults, hnext, ⟨hvalid, hwrite⟩, rfl⟩
    refine ⟨results, w, ⟨hresults, rfl⟩, (), _, ⟨(), _, ⟨hvalid, hwrite, rfl⟩, rfl⟩, ?_⟩
    rw [hnext]
    rfl

theorem filterSubDir_ok_iff {config : LinkStandardTaskConfig} :
    (∃ dir w', filterSubDir a config w = .ok dir w') ↔ ∀ text, a.filterSubDir ≠ .failed text := by
  unfold filterSubDir
  cases a.filterSubDir with
  | found val =>
      simp only [ne_eq, reduceCtorEq, not_false_eq_true, implies_true, iff_true]
      split_ifs
      · exact ⟨_, w, rfl⟩
      · cases a.evalMap val <;> exact ⟨_, w, rfl⟩
  | notFound => simp [pure_ok_iff]
  | failed text => simp [throw_ne_ok]

theorem exec_recorded {runner : Runner} {id : UUID} (hw : w.recorded = false)
    (h : runner.exec wf a wl w = .ok id w') : w'.recorded = runner.recordsStatus := by
  cases hrunner : runner.recordsStatus with
  | false =>
      have hkeeps : Keeps World.recorded (runner.exec wf a wl) :=
        keeps_exec_of_not_recordsStatus (fun _ _ => rfl) hrunner
      rw [hkeeps.ok h, hw]
  | true =>
      cases runner with
      | directoryClientScriptJob config =>
          obtain ⟨results, -, -, -, rfl⟩ := execClientScript_ok_iff.mp h
          rfl
      | filesClientScriptJob config =>
          obtain ⟨dir, w1, -, hclient⟩ := bind_ok_iff.mp h
          obtain ⟨results, -, -, -, rfl⟩ := execClientScript_ok_iff.mp hclient
          rfl
      | _ => exact nomatch hrunner

theorem keeps_reloadTransfer {τ : Type} {p : World → τ} (hp : IgnoresPkg p) :
    Keeps p (reloadTransfer a) := by
  refine keeps_bind (keeps_ofExcept _) fun path => ?_
  refine keeps_bind (keeps_modify fun t => hp t _) fun _ => ?_
  split
  · exact keeps_modify fun t => hp t _
  · exact keeps_throw _
  · exact keeps_modify fun t => hp t _

theorem keeps_reloadSIP {τ : Type} {p : World → τ} (hp : IgnoresPkg p) : Keeps p (reloadSIP a) :=
  keeps_bind (keeps_ofExcept _) fun _ => keeps_modify fun t => hp t _

theorem keeps_reload {τ : Type} {p : World → τ} (hp : IgnoresPkg p) : Keeps p (reload a) := by
  intro s
  unfold reload
  split
  · exact keeps_reloadTransfer hp s
  · exact keeps_reloadSIP hp s
  · rfl

theorem save_ok {u : Unit} (h : save a wl w = .ok u w') :
    ∃ w1, reload a w = .ok () w1 ∧ w' = { w1 with jobs := w1.jobs.insert a.jobID (jobRow w1.pkg wl) } := by
  simp only [save, withContext_ok_iff, bind_ok_iff, get_ok_iff, write_ok_iff] at h
  obtain ⟨_, w1, hreload, _, _, ⟨rfl, rfl⟩, -, -, rfl⟩ := h
  exact ⟨w1, hreload, rfl⟩

theorem save_recorded {u : Unit} (h : save a wl w = .ok u w') : w'.recorded = w.recorded := by
  obtain ⟨w1, hreload, rfl⟩ := save_ok h
  have hkeeps : Keeps World.recorded (reload a) := keeps_reload fun _ _ => rfl
  exact (hkeeps.ok hreload :)

theorem save_error {err : Err} (h : save a wl w = .error err w') :
    (∃ inner, reload a w = .error inner w') ∨
      ∃ w1, reload a w = .ok () w1 ∧ a.write (.createJob a.jobID (jobRow w1.pkg wl)) ≠ none ∧
        w' = w1 := by
  simp only [save, withContext_error_iff, withContext_ok_iff, bind_error_iff, get_ok_iff,
    get_ne_error, false_or] at h
  obtain ⟨_, ⟨inner, hreload, -⟩ | ⟨_, w1, hreload, _, _, ⟨rfl, rfl⟩, hwrite⟩, -⟩ := h
  · exact Or.inl ⟨inner, hreload⟩
  · obtain ⟨hsame, hinvalid | hrefused⟩ := write_error hwrite
    · exact absurd rfl hinvalid
    · exact Or.inr ⟨w1, hreload, hrefused, hsame⟩

theorem markComplete_ok_iff {id : UUID} {u : Unit} :
    markComplete a id w = .ok u w' ↔
      if w.recorded then w = w'
      else a.write (.jobStatus id "STATUS_COMPLETED_SUCCESSFULLY") = none ∧
        { w with jobs := setStep w.jobs id .completedSuccessfully, recorded := true } = w' := by
  have hvalid : (StoreWrite.jobStatus id "STATUS_COMPLETED_SUCCESSFULLY").invalid = none := rfl
  have happly : (StoreWrite.jobStatus id "STATUS_COMPLETED_SUCCESSFULLY").apply w =
    { w with jobs := setStep w.jobs id .completedSuccessfully } := rfl
  simp only [markComplete, bind_ok_iff, get_ok_iff]
  constructor
  · rintro ⟨_, _, ⟨rfl, rfl⟩, h⟩
    split_ifs at h ⊢ with hrec
    · exact (pure_ok_iff.mp h).2
    · simp only [bind_ok_iff, withContext_ok_iff, write_ok_iff, modify_ok_iff] at h
      obtain ⟨_, _, ⟨-, hwrite, rfl⟩, rfl⟩ := h
      exact ⟨hwrite, by rw [happly]⟩
  · intro h
    refine ⟨w, w, ⟨rfl, rfl⟩, ?_⟩
    split_ifs at h ⊢ with hrec
    · exact pure_ok_iff.mpr ⟨rfl, h⟩
    · obtain ⟨hwrite, rfl⟩ := h
      refine bind_ok_iff.mpr ⟨(), _, withContext_ok_iff.mpr (write_ok_iff.mpr ⟨hvalid, hwrite, rfl⟩), ?_⟩
      rw [happly]
      rfl

theorem exists_markComplete_iff {id : UUID} (h : w.recorded = false) :
    (∃ w', markComplete a id w = .ok () w') ↔
      a.write (.jobStatus id "STATUS_COMPLETED_SUCCESSFULLY") = none := by
  simp [markComplete_ok_iff, h]

-- Errors that nothing tests for: all those of the calls around a runner.
def Err.IsFailed (err : Err) : Prop := ∃ text, err = .failed text

theorem raises_write (op : StoreWrite) : Raises Err.IsFailed (write a op) := by
  intro s err s' h
  unfold write at h
  cases hop : op.invalid with
  | some text =>
      simp only [hop, EStateM.Result.error.injEq] at h
      exact ⟨text, h.1.symm⟩
  | none =>
      cases ha : a.write op with
      | some text =>
          simp only [hop, ha, EStateM.Result.error.injEq] at h
          exact ⟨text, h.1.symm⟩
      | none => simp [hop, ha] at h

theorem raises_withContext {α : Type} {context : String} {x : M α} (h : Raises Err.IsFailed x) :
    Raises Err.IsFailed (withContext context x) := by
  intro s err s' hx
  obtain ⟨inner, hinner, rfl⟩ := withContext_error_iff.mp hx
  obtain ⟨text, rfl⟩ := h s inner s' hinner
  exact ⟨context ++ ": " ++ text, rfl⟩

theorem raises_ofExcept {α : Type} (e : Except String α) : Raises Err.IsFailed (ofExcept e) := by
  cases e with
  | ok r => exact raises_pure r
  | error text => exact raises_throw ⟨text, rfl⟩

theorem raises_reloadTransfer : Raises Err.IsFailed (reloadTransfer a) := by
  refine raises_bind (raises_ofExcept _) fun path => raises_bind (raises_modify _) fun _ => ?_
  split
  · exact raises_modify _
  · exact raises_throw ⟨_, rfl⟩
  · exact raises_modify _

theorem raises_reload : Raises Err.IsFailed (reload a) := by
  intro s err s' h
  unfold reload at h
  split at h
  · exact raises_reloadTransfer s err s' h
  · exact raises_bind (raises_ofExcept _) (fun _ => raises_modify _) s err s' h
  · exact nomatch h

theorem raises_save : Raises Err.IsFailed (save a wl) :=
  raises_withContext (raises_bind (raises_withContext raises_reload) fun _ =>
    raises_bind raises_get fun _ => raises_write _)

theorem raises_markAwaitingDecision (id : UUID) : Raises Err.IsFailed (markAwaitingDecision a id) :=
  raises_withContext (raises_write _)

theorem raises_markComplete (id : UUID) : Raises Err.IsFailed (markComplete a id) := by
  refine raises_bind raises_get fun s => ?_
  split_ifs
  · exact raises_pure _
  · exact raises_bind (raises_withContext (raises_write _)) fun _ => raises_modify _

theorem Err.wrap_eq_wait_iff {context : String} {err : Err} {decision : Decision} {updates : Bool} :
    err.wrap context = .wait decision updates ↔ err = .wait decision updates := by
  cases err <;> simp [Err.wrap]

theorem Err.IsFailed.ne_wait {err : Err} (h : err.IsFailed) (decision : Decision) (updates : Bool) :
    err ≠ .wait decision updates := by
  obtain ⟨text, rfl⟩ := h
  exact nofun

theorem raises_execClientScript :
    Raises (fun err => err.IsFailed ∨ err = .eof) (execClientScript a wl) := by
  have hfailed : ∀ {α : Type} {x : M α}, Raises Err.IsFailed x →
      Raises (fun err => err.IsFailed ∨ err = .eof) x := fun h s err s' hx => Or.inl (h s err s' hx)
  refine raises_bind (hfailed (raises_withContext (raises_ofExcept _))) fun results => ?_
  refine raises_bind (hfailed ?_) fun _ => ?_
  · exact raises_bind (raises_withContext (raises_write _)) fun _ => raises_modify _
  · split
    · exact raises_throw (Or.inr rfl)
    · exact raises_pure _

theorem recordsStatus_of_wait {runner : Runner} {decision : Decision} {updates : Bool}
    (h : runner.exec wf a wl w = .error (.wait decision updates) w') :
    runner.recordsStatus = false := by
  have hclient : ∀ {s : World}, execClientScript a wl s ≠ .error (.wait decision updates) w' := by
    intro s hs
    rcases raises_execClientScript _ _ _ hs with hfailed | heof
    · exact hfailed.ne_wait decision updates rfl
    · exact nomatch heof
  cases runner with
  | directoryClientScriptJob config => exact absurd h hclient
  | filesClientScriptJob config =>
      rcases bind_error_iff.mp h with hdir | ⟨_, _, -, h⟩
      · have hraises : Raises Err.IsFailed (filterSubDir a config) := by
          unfold filterSubDir
          split
          · exact raises_pure _
          · exact raises_throw ⟨_, rfl⟩
          · split_ifs
            · exact raises_pure _
            · split <;> exact raises_pure _
        exact absurd rfl ((raises_withContext hraises _ _ _ hdir).ne_wait decision updates)
      · exact absurd h hclient
  | _ => rfl

-- The ways in which an executed job ends.
inductive JobEnds (wf : Document) (a : Answers) (wl : Link) (runner : Runner) (w : World) :
    EStateM.Result Err World UUID → Prop
  | unsaved {err : Err} {w1 : World} (hsave : save a wl { w with recorded := false } = .error err w1) :
      JobEnds wf a wl runner w (.error (err.wrap "exec") w1)
  | done {id : UUID} {w1 w2 w3 : World} (hsave : save a wl { w with recorded := false } = .ok () w1)
      (hexec : runner.exec wf a wl w1 = .ok id w2) (hmark : markComplete a a.jobID w2 = .ok () w3) :
      JobEnds wf a wl runner w (.ok id w3)
  | unmarked {id : UUID} {err : Err} {w1 w2 w3 : World}
      (hsave : save a wl { w with recorded := false } = .ok () w1)
      (hexec : runner.exec wf a wl w1 = .ok id w2) (hmark : markComplete a a.jobID w2 = .error err w3) :
      JobEnds wf a wl runner w (.error (err.wrap "exec") w3)
  | waits {decision : Decision} {updates : Bool} {w1 w2 w3 : World}
      (hsave : save a wl { w with recorded := false } = .ok () w1)
      (hexec : runner.exec wf a wl w1 = .error (.wait decision updates) w2)
      (hmark : markAwaitingDecision a a.jobID w2 = .ok () w3) :
      JobEnds wf a wl runner w (.error (.wait decision updates) w3)
  | unawaited {decision : Decision} {updates : Bool} {err : Err} {w1 w2 w3 : World}
      (hsave : save a wl { w with recorded := false } = .ok () w1)
      (hexec : runner.exec wf a wl w1 = .error (.wait decision updates) w2)
      (hmark : markAwaitingDecision a a.jobID w2 = .error err w3) :
      JobEnds wf a wl runner w (.error (err.wrap "exec") w3)
  | failed {err : Err} {w1 w2 : World} (hsave : save a wl { w with recorded := false } = .ok () w1)
      (hexec : runner.exec wf a wl w1 = .error err w2)
      (hwait : ∀ decision updates, err ≠ .wait decision updates) :
      JobEnds wf a wl runner w (.error (err.wrap "exec") w2)

theorem settle_error {err : Err} (h : ∀ decision updates, err ≠ .wait decision updates) :
    settle a (.error err w) = .error err w := by
  cases err with
  | wait decision updates => exact absurd rfl (h decision updates)
  | _ => rfl

theorem execJob_ok_of_saved {runner : Runner} {id : UUID} {u : Unit} {w1 w3 : World}
    (hsave : save a wl { w with recorded := false } = .ok u w1)
    (hend : settle a (runner.exec wf a wl w1) = .ok id w3) :
    execJob wf a wl runner w = .ok id w3 :=
  withContext_ok_iff.mpr (bind_ok_iff.mpr ⟨(), _, rfl, bind_ok_iff.mpr ⟨u, w1, hsave, hend⟩⟩)

theorem execJob_error_of_saved {runner : Runner} {err : Err} {u : Unit} {w1 w3 : World}
    (hsave : save a wl { w with recorded := false } = .ok u w1)
    (hend : settle a (runner.exec wf a wl w1) = .error err w3) :
    execJob wf a wl runner w = .error (err.wrap "exec") w3 := by
  refine withContext_error_iff.mpr ⟨err, ?_, rfl⟩
  exact bind_error_iff.mpr (Or.inr ⟨(), _, rfl, bind_error_iff.mpr (Or.inr ⟨u, w1, hsave, hend⟩)⟩)

theorem jobEnds_execJob (wf : Document) (a : Answers) (wl : Link) (runner : Runner) (w : World) :
    JobEnds wf a wl runner w (execJob wf a wl runner w) := by
  cases hsave : save a wl { w with recorded := false } with
  | error err w1 =>
      have hend : execJob wf a wl runner w = .error (err.wrap "exec") w1 := by
        refine withContext_error_iff.mpr ⟨err, ?_, rfl⟩
        exact bind_error_iff.mpr (Or.inr ⟨(), _, rfl, bind_error_iff.mpr (Or.inl hsave)⟩)
      rw [hend]
      exact .unsaved hsave
  | ok u w1 =>
      cases hexec : runner.exec wf a wl w1 with
      | ok id w2 =>
          cases hmark : markComplete a a.jobID w2 with
          | ok u' w3 =>
              rw [execJob_ok_of_saved hsave (by
                rw [hexec]; exact bind_ok_iff.mpr ⟨u', w3, hmark, rfl⟩)]
              exact .done hsave hexec hmark
          | error err w3 =>
              rw [execJob_error_of_saved hsave (by
                rw [hexec]; exact bind_error_iff.mpr (Or.inl hmark))]
              exact .unmarked hsave hexec hmark
      | error err w2 =>
          by_cases hwait : ∃ decision updates, err = .wait decision updates
          · obtain ⟨decision, updates, rfl⟩ := hwait
            cases hmark : markAwaitingDecision a a.jobID w2 with
            | ok u' w3 =>
                rw [execJob_error_of_saved hsave (by
                  rw [hexec]; exact bind_error_iff.mpr (Or.inr ⟨u', w3, hmark, rfl⟩))]
                exact .waits hsave hexec hmark
            | error err w3 =>
                rw [execJob_error_of_saved hsave (by
                  rw [hexec]; exact bind_error_iff.mpr (Or.inl hmark))]
                exact .unawaited hsave hexec hmark
          · have hne : ∀ decision updates, err ≠ .wait decision updates :=
              fun decision updates h => hwait ⟨decision, updates, h⟩
            rw [execJob_error_of_saved hsave (by rw [hexec]; exact settle_error hne)]
            exact .failed hsave hexec hne

theorem execJob_wait {runner : Runner} {decision : Decision} {updates : Bool}
    (h : execJob wf a wl runner w = .error (.wait decision updates) w') : w'.recorded = false := by
  have hends := jobEnds_execJob wf a wl runner w
  rw [h] at hends
  have hnot : ∀ {err : Err}, err.IsFailed → Err.wait decision updates ≠ err.wrap "exec" :=
    fun hfailed h => hfailed.ne_wait decision updates (Err.wrap_eq_wait_iff.mp h.symm)
  generalize hr : EStateM.Result.error (Err.wait decision updates) w' = r at hends
  cases hends with
  | unsaved hsave =>
      exact absurd (EStateM.Result.error.inj hr).1 (hnot (raises_save _ _ _ hsave))
  | done hsave hexec hmark => exact nomatch hr
  | unmarked hsave hexec hmark =>
      exact absurd (EStateM.Result.error.inj hr).1 (hnot (raises_markComplete _ _ _ _ hmark))
  | waits hsave hexec hmark =>
      obtain ⟨-, rfl⟩ := EStateM.Result.error.inj hr
      have hkeeps : Keeps World.recorded (runner.exec wf a wl) :=
        keeps_exec_of_not_recordsStatus (fun _ _ => rfl) (recordsStatus_of_wait hexec)
      have hmarks : Keeps World.recorded (markAwaitingDecision a a.jobID) :=
        keeps_withContext (keeps_write_jobStatus (fun _ _ => rfl) _ _)
      rw [hmarks.ok hmark, hkeeps.error hexec, save_recorded hsave]
  | unawaited hsave hexec hmark =>
      exact absurd (EStateM.Result.error.inj hr).1 (hnot (raises_markAwaitingDecision _ _ _ _ hmark))
  | failed hsave hexec hwait =>
      exact absurd (Err.wrap_eq_wait_iff.mp (EStateM.Result.error.inj hr).1.symm) (hwait _ _)

end Ccp
