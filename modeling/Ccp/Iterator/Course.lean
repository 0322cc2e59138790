import Ccp.Iterator.Remembered
import Ccp.Lib.MapM

namespace Ccp

open Lib Lib.Calls Workflow

variable {wf : Document} {a : Answers} {wl : Link} {w w' : World}

-- A chain or a link of the document.
def Workflow.Document.Has (wf : Document) (id : UUID) : Prop :=
  (wf.chains.lookup id).isSome ∨ (wf.links.lookup id).isSome

instance (id : UUID) : Decidable (wf.Has id) := inferInstanceAs (Decidable (_ ∨ _))

-- Where the job of a link sends its package is in the document. A job that pulls a
-- link need not have one of its own.
def Runner.Leads (wf : Document) (wl : Link) : Runner → Prop
  | .nextChainDecisionJob _ => True
  | .updateContextDecisionJob _ => wf.Has (exitCodeLinkID wl 0)
  | .directoryClientScriptJob _ => ∀ code id, exitCodeNext wl code = some id → wf.Has id
  | .filesClientScriptJob _ => ∀ code id, exitCodeNext wl code = some id → wf.Has id
  | .setUnitVarLinkJob _ linkID => wf.Has (exitCodeLinkID wl 0) ∧ (linkID ≠ UUID.nil → wf.Has linkID)
  | .getUnitVarLinkJob _ linkID => linkID ≠ UUID.nil → wf.Has linkID

-- A document in which nothing is missing.
structure Workflow.Document.Closed (wf : Document) : Prop where
  nil : ¬ wf.Has UUID.nil
  chains : ∀ id wc, wf.chains.lookup id = some wc → wf.Has wc.linkID
  links : ∀ id wl, wf.links.lookup id = some wl → ∃ runner, newJob wl = .ok runner ∧ runner.Leads wf wl

-- The chains that a processing configuration chooses for a link are in the document.
def Answers.Configures (wf : Document) (a : Answers) (wl : Link) : Prop :=
  ∀ configured, a.processingConfig = .ok configured → ∀ c ∈ configured, c.linkID = wl.id →
    ∀ id, UUID.parse c.goToChain = some id → wf.Has id

-- A job that is done goes to a place in the document.
theorem has_of_exec {runner : Runner} {id : UUID} (hleads : runner.Leads wf wl)
    (hconfigured : ∀ choices, runner = .nextChainDecisionJob choices → a.Configures wf wl)
    (hpulled : ∀ name linkID, runner = .getUnitVarLinkJob name linkID →
      (linkID = UUID.nil → a.unitLinkID ≠ .notFound ∧ a.unitLinkID ≠ .found UUID.nil) ∧
        ∀ stored, a.unitLinkID = .found stored → stored ≠ UUID.nil → wf.Has stored)
    (h : runner.exec wf a wl w = .ok id w') : wf.Has id := by
  have hclient : (∀ code id, exitCodeNext wl code = some id → wf.Has id) →
      ∀ {w : World}, execClientScript a wl w = .ok id w' → wf.Has id := by
    intro hleads w h
    obtain ⟨results, -, hnext, -⟩ := execClientScript_ok_iff.mp h
    exact hleads _ _ hnext
  cases runner with
  | nextChainDecisionJob choices =>
      obtain ⟨⟨configured, c, hconf, hfind, hparse, -⟩, -⟩ := execNextChainDecision_ok_iff.mp h
      have hlink : c.linkID = wl.id := by simpa using List.find?_some hfind
      exact hconfigured choices rfl configured hconf c (List.mem_of_find?_eq_some hfind) hlink id hparse
  | updateContextDecisionJob replacements =>
      have hexec : execUpdateContextDecision wf a wl replacements w = .ok id w' := h
      rw [execUpdateContextDecision] at hexec
      obtain ⟨dict, w1, -, huse⟩ := bind_ok_iff.mp hexec
      have hid : exitCodeLinkID wl 0 = id := by
        rcases useContext_ok_iff.mp ⟨w', huse⟩ with ⟨-, -, hid⟩ | ⟨-, w2, hother⟩
        · exact hid
        · obtain ⟨-, -, -, -, -, hid⟩ := execPreconfigured_ok_iff.mp ⟨w2, hother⟩
          exact hid
      exact hid ▸ hleads
  | directoryClientScriptJob config => exact hclient hleads h
  | filesClientScriptJob config =>
      obtain ⟨dir, w1, -, hscript⟩ := bind_ok_iff.mp h
      exact hclient hleads hscript
  | setUnitVarLinkJob name linkID =>
      obtain ⟨u, w1, -, hpure⟩ := bind_ok_iff.mp h
      exact (pure_ok_iff.mp hpure).1 ▸ hleads.1
  | getUnitVarLinkJob name linkID =>
      obtain ⟨hset, hstored⟩ := hpulled name linkID rfl
      have hexec : execGetUnitVarLink a linkID w = .ok id w' := h
      unfold execGetUnitVarLink at hexec
      cases hanswer : a.unitLinkID with
      | failed text =>
          rw [hanswer] at hexec
          exact absurd hexec throw_ne_ok
      | notFound =>
          rw [hanswer] at hexec
          obtain ⟨rfl, -⟩ := pure_ok_iff.mp hexec
          exact hleads fun hnil => (hset hnil).1 hanswer
      | found stored =>
          rw [hanswer] at hexec
          obtain ⟨rfl, -⟩ := pure_ok_iff.mp hexec
          split_ifs with hnil
          · exact hleads fun hlink => (hset hlink).2 (hnil ▸ hanswer)
          · exact hstored stored hanswer hnil

-- The choices of a decision are places in the document.
def Err.Offers (wf : Document) (err : Err) : Prop :=
  ∀ decision updates, err = .wait decision updates → ∀ c ∈ decision.choices, wf.Has c.nextLink

theorem Err.IsFailed.offers {err : Err} (h : err.IsFailed) : err.Offers wf :=
  fun decision updates hwait => absurd hwait (h.ne_wait decision updates)

theorem offers_of_failed {α : Type} {x : M α} (h : Raises Err.IsFailed x) : Raises (Err.Offers wf) x :=
  fun s err s' hx => (h s err s' hx).offers

theorem offers_withContext {α : Type} {context : String} {x : M α} (h : Raises (Err.Offers wf) x) :
    Raises (Err.Offers wf) (withContext context x) := by
  intro s err s' hx decision updates hwait
  obtain ⟨inner, hinner, rfl⟩ := withContext_error_iff.mp hx
  exact h s inner s' hinner decision updates (Err.wrap_eq_wait_iff.mp hwait)

theorem offers_formatChoices (choices : GoMap Str Str) : Raises (Err.Offers wf) (formatChoices a choices) := by
  intro s err s' h
  unfold formatChoices at h
  split at h
  · obtain ⟨rfl, -⟩ := EStateM.Result.error.inj h
    exact fun _ _ hwait => nomatch hwait
  · cases h

theorem offers_parseUUID (text : Str) : Raises (Err.Offers wf) (parseUUID text) := by
  unfold parseUUID
  split
  · exact raises_pure _
  · exact raises_throw (Err.IsFailed.offers ⟨_, rfl⟩)

theorem offers_updateChain (dict : GoMap Str Str) : Raises (Err.Offers wf) (updateChain a dict) := by
  intro s err s' h
  unfold updateChain at h
  split_ifs at h
  obtain ⟨rfl, -⟩ := EStateM.Result.error.inj h
  exact fun _ _ hwait => nomatch hwait

theorem offers_useContext {dict : GoMap Str Str} {otherwise : M UUID} (h : Raises (Err.Offers wf) otherwise) :
    Raises (Err.Offers wf) (useContext a wl dict otherwise) := by
  unfold useContext
  split_ifs
  · exact h
  · exact raises_bind (offers_updateChain dict) fun _ => raises_pure _

theorem offers_foldlM {α β : Type} {f : β → α → M β} (h : ∀ b x, Raises (Err.Offers wf) (f b x)) (l : List α) (b : β) :
    Raises (Err.Offers wf) (l.foldlM f b) := by
  induction l generalizing b with
  | nil => exact raises_pure b
  | cons x l ih =>
      rw [List.foldlM_cons]
      exact raises_bind (h b x) ih

theorem offers_databaseContext (replacements : List ConfigReplacement) :
    Raises (Err.Offers wf) (databaseContext wf a wl replacements) := by
  unfold databaseContext
  split_ifs
  · refine offers_withContext ?_
    unfold loadDatabaseContext
    split
    · split_ifs
      · exact raises_pure _
      · exact raises_bind (offers_of_failed (raises_ofExcept _)) fun dict => offers_formatChoices dict
    · exact raises_pure _
  · exact raises_pure _

theorem offers_loadPreconfiguredContext : Raises (Err.Offers wf) (loadPreconfiguredContext wf a wl) := by
  refine raises_bind (offers_of_failed (raises_ofExcept _)) fun choices => offers_foldlM (fun ret choice => ?_) _ _
  refine raises_bind (offers_parseUUID _) fun parsed => ?_
  dsimp only
  split
  · exact raises_throw (Err.IsFailed.offers ⟨_, rfl⟩)
  · split
    · split
      · exact offers_formatChoices _
      · exact raises_pure _
    · exact raises_throw (Err.IsFailed.offers ⟨_, rfl⟩)

theorem offers_awaitReplacement (hexit : wf.Has (exitCodeLinkID wl 0)) (replacements : List ConfigReplacement) :
    Raises (Err.Offers wf) (awaitReplacement a wl replacements) := by
  unfold awaitReplacement
  split
  · exact raises_throw fun _ _ hwait => nomatch hwait
  · rename_i choices hchoices
    refine raises_throw fun decision updates hwait c hc => ?_
    obtain ⟨rfl, -⟩ := Err.wait.inj hwait
    obtain ⟨item, -, hchoice⟩ := (MapM.mem_mapM hchoices).mp hc
    unfold replacementChoice at hchoice
    have hlink : c.nextLink = exitCodeLinkID wl 0 := by
      split at hchoice
      · obtain rfl := Option.some.inj hchoice
        rfl
      · split_ifs at hchoice
        obtain rfl := Option.some.inj hchoice
        rfl
    exact hlink ▸ hexit

theorem offers_execNextChainDecision (choices : List UUID) :
    Raises (Err.Offers wf) (execNextChainDecision wf a wl choices) := by
  refine raises_bind (raises_bind (offers_of_failed (raises_ofExcept _)) fun _ => raises_pure _) fun chainID => ?_
  split_ifs
  · refine raises_throw fun decision updates hwait c hc => ?_
    obtain ⟨rfl, -⟩ := Err.wait.inj hwait
    obtain ⟨item, -, hchain⟩ := List.mem_filterMap.mp hc
    obtain ⟨chain, hlookup, rfl⟩ := Option.map_eq_some_iff.mp hchain
    exact Or.inl (Option.isSome_of_mem hlookup)
  · exact raises_bind (offers_parseUUID _) fun _ => raises_pure _
  · exact raises_bind (offers_parseUUID _) fun _ => raises_throw (Err.IsFailed.offers ⟨_, rfl⟩)

theorem offers_exec {runner : Runner} (hleads : runner.Leads wf wl) :
    Raises (Err.Offers wf) (runner.exec wf a wl) := by
  have hclient : Raises (Err.Offers wf) (execClientScript a wl) := by
    intro s err s' h
    rcases raises_execClientScript s err s' h with hfailed | rfl
    · exact hfailed.offers
    · exact fun _ _ hwait => nomatch hwait
  cases runner with
  | nextChainDecisionJob choices => exact offers_execNextChainDecision choices
  | updateContextDecisionJob replacements =>
      refine raises_bind (offers_databaseContext _) fun dict => offers_useContext ?_
      refine raises_bind (offers_withContext offers_loadPreconfiguredContext) fun dict => offers_useContext ?_
      exact offers_awaitReplacement hleads _
  | directoryClientScriptJob config => exact hclient
  | filesClientScriptJob config =>
      intro s err s' h decision updates hwait
      have hrecords := recordsStatus_of_wait (hwait ▸ h)
      cases hrecords
  | setUnitVarLinkJob name linkID =>
      exact raises_bind (offers_of_failed (raises_withContext (raises_write _))) fun _ => raises_pure _
  | getUnitVarLinkJob name linkID =>
      change Raises _ (execGetUnitVarLink a linkID)
      unfold execGetUnitVarLink
      split
      · exact raises_pure _
      · exact raises_throw (Err.IsFailed.offers ⟨_, rfl⟩)
      · exact raises_pure _

theorem offers_execJob {runner : Runner} {err : Err} (hleads : runner.Leads wf wl)
    (h : execJob wf a wl runner w = .error err w') : err.Offers wf := by
  have hends := jobEnds_execJob wf a wl runner w
  rw [h] at hends
  have hwrap : ∀ {inner : Err}, inner.Offers wf → (inner.wrap "exec").Offers wf :=
    fun hinner decision updates hwait => hinner decision updates (Err.wrap_eq_wait_iff.mp hwait)
  cases hends with
  | unsaved hsave => exact hwrap (raises_save _ _ _ hsave).offers
  | unmarked hsave hexec hmark => exact hwrap (raises_markComplete _ _ _ _ hmark).offers
  | waits hsave hexec hmark => exact offers_exec hleads _ _ _ hexec
  | unawaited hsave hexec hmark => exact hwrap (raises_markAwaitingDecision _ _ _ _ hmark).offers
  | failed hsave hexec hwait => exact hwrap (offers_exec hleads _ _ _ hexec)

namespace Iterator

-- The next call comes to a chain or to a job.
def Finds (wf : Document) (w : World) : Prop :=
  (wf.chains.lookup (current w)).isSome ∨ (jobOf wf w).isSome

-- What the processing configuration and the table hold for a call.
structure Sound (fold : Str → Str) (wf : Document) (h : Hosted) (c : Call) : Prop where
  configured : ∀ a wl choices, c.event = .next a →
    jobOf wf h.state.world = some (wl, .nextChainDecisionJob choices) → a.Configures wf wl
  set : ∀ a name, c.touch wf h = some (a, .pulls name UUID.nil) → ∀ found,
    UnitVars.Reads fold h.rows (linkKey fold h.state.world.pkg name) found → UnitVars.stored found ≠ UUID.nil

-- Where the package is while it is worked on.
structure OnCourse (wf : Document) (s : State) : Prop where
  once : s.inits ≤ 1
  unbegun : s.phase = .running → s.world.nextLink = UUID.nil → s.inits = 0
  linked : s.phase = .running → s.world.nextLink ≠ UUID.nil → wf.Has s.world.nextLink
  started : s.phase = .running → s.world.nextLink ≠ UUID.nil →
    (wf.chains.lookup s.world.nextLink).isSome ∨ s.world.chain ≠ none
  offered : ∀ decision updates, s.phase = .awaiting decision updates →
    s.world.chain ≠ none ∧ ∀ c ∈ decision.choices, wf.Has c.nextLink

-- What the package begins with is in the document.
structure Begins (wf : Document) (w : World) : Prop where
  chain : (wf.chains.lookup w.pkg.startAtChainID).isSome
  link : w.pkg.startAtLinkID ≠ UUID.nil → wf.Has w.pkg.startAtLinkID

theorem Begins.congr {w w' : World} (h : Begins wf w) (howner : owner w' = owner w) : Begins wf w' := by
  obtain ⟨-, hrest⟩ := Prod.mk.inj howner
  obtain ⟨-, hstart⟩ := Prod.mk.inj hrest
  obtain ⟨hchain, hlink⟩ := Prod.mk.inj hstart
  exact ⟨hchain ▸ h.chain, hlink ▸ h.link⟩

theorem has_firstLink (hclosed : wf.Closed) (hbegins : Begins wf w) {id : UUID} {wc : Chain}
    (hchain : wf.chains.lookup id = some wc) : wf.Has (firstLink w.pkg wc) := by
  unfold firstLink
  split_ifs with hstart
  · exact hbegins.link hstart.2
  · exact hclosed.chains id wc hchain

theorem keeps_chain_execJob (runner : Runner) : Keeps World.chain (execJob wf a wl runner) :=
  keeps_execJob (fun _ _ => rfl) (fun _ _ => rfl) (fun _ _ => rfl) (keeps_reload fun _ _ => rfl) runner

theorem keeps_chain_resume {decision : Decision} {updates : Bool} {c : Choice} :
    Keeps World.chain (resume a decision updates c) := by
  refine keeps_bind (keeps_bind (keeps_modify fun s => ?_) fun _ =>
    keeps_markComplete (fun _ _ => rfl) (fun _ _ => rfl) _) fun _ => keeps_modify fun _ => rfl
  unfold setChoice
  split_ifs <;> rfl

-- What the answers of a call say about its job.
structure Answered (wf : Document) (w : World) (a : Answers) : Prop where
  configured : ∀ wl choices, jobOf wf w = some (wl, .nextChainDecisionJob choices) → a.Configures wf wl
  pulled : ∀ name linkID, touch wf a w = some (.pulls name linkID) →
    (linkID = UUID.nil → a.unitLinkID ≠ .notFound ∧ a.unitLinkID ≠ .found UUID.nil) ∧
      ∀ stored, a.unitLinkID = .found stored → stored ≠ UUID.nil → wf.Has stored

-- Where a call goes that comes to its end.
theorem next_leads {s : State} (hclosed : wf.Closed) (hbegins : Begins wf s.world)
    (hanswered : Answered wf s.world a) (h : next wf a s.world = .ok () w') :
    wf.Has w'.nextLink ∧ w'.chain ≠ none := by
  obtain ⟨hctx, w0, henter, hfollow⟩ := next_ok_iff.mp h
  have howner : owner w0 = owner s.world := by
    rcases henter with ⟨-, rfl⟩ | ⟨-, hinit⟩
    · rfl
    · exact keeps_owner_init.ok hinit
  rcases followLink_ok_iff.mp hfollow with ⟨wc, hchain, hstart⟩ | ⟨hchain, hstarted, wl, hlink, hnext⟩
  · obtain ⟨vars, -, rfl⟩ := startChain_ok_iff.mp hstart
    exact ⟨has_firstLink hclosed (hbegins.congr howner) hchain, nofun⟩
  · rcases henter with ⟨hlinked, rfl⟩ | ⟨-, hinit⟩
    · obtain ⟨runner, id, w3, hnew, hexec, rfl⟩ := nextJob_ok_iff.mp hnext
      obtain ⟨runner', hnew', hleads⟩ := hclosed.links _ wl hlink
      obtain rfl := Except.ok.inj (hnew'.symm.trans hnew)
      have hjob : jobOf wf s.world = some (wl, runner') := jobOf_eq_some_iff.mpr ⟨hchain, hstarted, hlink, hnew⟩
      refine ⟨?_, ((keeps_chain_execJob runner').ok hexec).trans_ne hstarted⟩
      have hends := jobEnds_execJob wf a wl runner' s.world
      rw [hexec] at hends
      cases hends with
      | done hsave hrun hmark =>
          refine has_of_exec hleads (fun choices hchoices => ?_) (fun name linkID hget => ?_) hrun
          · exact hanswered.configured wl choices (hchoices ▸ hjob)
          · refine hanswered.pulled name linkID ?_
            rw [touch, if_neg (by simp [hctx, hlinked]), hjob, Option.bind_some]
            dsimp only
            rw [hsave, hget]
            rfl
    · obtain ⟨-, wc, hlookup, rfl⟩ := init_ok_iff.mp hinit
      rw [wf.chains_id _ _ hlookup] at hchain
      exact nomatch hchain.symm.trans hlookup

theorem next_waits {decision : Decision} {updates : Bool} (hclosed : wf.Closed)
    (h : next wf a w = .error (.wait decision updates) w') :
    w'.chain ≠ none ∧ ∀ c ∈ decision.choices, wf.Has c.nextLink := by
  have hends := nextEnds_next wf a w
  rw [h] at hends
  generalize hr : EStateM.Result.error (Err.wait decision updates) w' = r at hends
  cases hends with
  | canceled hctx => exact nomatch (EStateM.Result.error.inj hr).1
  | uninitialised hnil hinit =>
      obtain ⟨rfl, -⟩ := EStateM.Result.error.inj hr
      exact absurd rfl ((raises_init _ _ _ hinit).ne_wait decision updates)
  | chain hctx henter hchain => exact absurd rfl ((raises_startChain _ _ _ _ hr.symm).ne_wait decision updates)
  | unknown henter hchain hjob => exact nomatch (EStateM.Result.error.inj hr).1
  | job hctx henter hchain hstarted hlink hnew hexec => exact nomatch hr
  | finished hctx henter hchain hstarted hlink hnew hexec =>
      obtain ⟨rfl, rfl⟩ := finish_wait hr.symm
      obtain ⟨runner, hnew', hleads⟩ := hclosed.links _ _ hlink
      obtain rfl := Except.ok.inj (hnew'.symm.trans hnew)
      exact ⟨fun hnone => hstarted (((keeps_chain_execJob _).error hexec).symm.trans hnone),
        offers_execJob hleads hexec decision updates rfl⟩

theorem onCourse_step {s s' : State} {e : Event} (hclosed : wf.Closed) (hbegins : Begins wf s.world)
    (h : OnCourse wf s) (hanswered : ∀ a, e = .next a → Answered wf s.world a)
    (hstep : step wf s e = some s') : OnCourse wf s' := by
  have hne : ∀ {id : UUID}, wf.Has id → id ≠ UUID.nil := by
    rintro id hid rfl
    exact hclosed.nil hid
  cases moves_of_step hstep with
  | @next a _ hphase hnext =>
      have honce : initsAfter s a ≤ 1 := by
        unfold initsAfter
        split_ifs with hinit
        · rw [h.unbegun hphase hinit.2]
        · exact h.once
      generalize hr : Iterator.next wf a s.world = r at hnext
      cases hnext with
      | running w =>
          obtain ⟨hhas, hchain⟩ := next_leads hclosed hbegins (hanswered a rfl) hr
          exact ⟨honce, fun _ hnil => absurd hnil (hne hhas), fun _ _ => hhas, fun _ _ => Or.inr hchain, nofun⟩
      | awaiting decision updates w =>
          refine ⟨honce, nofun, nofun, nofun, ?_⟩
          rintro _ _ ⟨⟩
          exact next_waits hclosed hr
      | ended herr w => exact ⟨honce, nofun, nofun, nofun, nofun⟩
      | stopped herr w => exact ⟨honce, nofun, nofun, nofun, nofun⟩
  | @resume a pos decision updates c _ hphase hchoice hresume =>
      obtain ⟨hchain, hchoices⟩ := h.offered decision updates hphase
      have hc : c ∈ decision.choices := by
        unfold Decision.choiceAt at hchoice
        split_ifs at hchoice
        exact List.mem_of_getElem? hchoice
      have hkept := @keeps_chain_resume a decision updates c s.world
      generalize hr : Iterator.resume a decision updates c s.world = r at hresume hkept
      cases hresume with
      | running w =>
          have hlink := resume_nextLink hr
          refine ⟨h.once, fun _ hnil => ?_, fun _ _ => ?_, fun _ _ => Or.inr fun hnone => ?_, nofun⟩
          · exact absurd (hlink.symm.trans hnil) (hne (hchoices c hc))
          · exact hlink ▸ hchoices c hc
          · exact hchain (hkept.symm.trans hnone)
      | awaiting decision' updates' w =>
          exact absurd rfl ((raises_resume _ _ _ hr).ne_wait decision' updates')
      | ended herr w => exact ⟨h.once, nofun, nofun, nofun, nofun⟩
      | stopped herr w => exact ⟨h.once, nofun, nofun, nofun, nofun⟩
  | crash hphase hchoice => exact ⟨h.once, nofun, nofun, nofun, nofun⟩
  | cancel => exact ⟨h.once, nofun, nofun, nofun, nofun⟩

theorem OnCourse.finds {s : State} (h : OnCourse wf s) (hclosed : wf.Closed) (hbegins : Begins wf s.world)
    (hphase : s.phase = .running) : Finds wf s.world := by
  by_cases hlinked : s.world.nextLink = UUID.nil
  · exact Or.inl (current_of_nil hlinked ▸ hbegins.chain)
  · rcases h.linked hphase hlinked with hchain | hlink
    · exact Or.inl (current_of_ne hlinked ▸ hchain)
    · rcases h.started hphase hlinked with hchain | hstarted
      · exact Or.inl (current_of_ne hlinked ▸ hchain)
      · obtain ⟨wl, hlookup⟩ := Option.isSome_iff_exists.mp hlink
        obtain ⟨runner, hnew, -⟩ := hclosed.links _ wl hlookup
        cases hchain : wf.chains.lookup s.world.nextLink with
        | some wc =>
            rw [← current_of_ne hlinked] at hchain
            exact Or.inl (Option.isSome_of_mem hchain)
        | none => exact Or.inr (Option.isSome_of_mem (jobOf_eq_some_iff.mpr ⟨hchain, hstarted, hlookup, hnew⟩))

section Runs

variable {fold : Str → Str} {h h' : Hosted} {c : Call} {before : Str → UUID}

-- What a job sets a variable to is in the document.
theorem has_remember (hclosed : wf.Closed) (hbefore : ∀ v, before v = UUID.nil ∨ wf.Has (before v)) (v : Str) :
    remember fold wf h c before v = UUID.nil ∨ wf.Has (remember fold wf h c before v) := by
  unfold remember
  cases htouch : c.touch wf h with
  | none => exact hbefore v
  | some made =>
      obtain ⟨a, touched⟩ := made
      cases touched with
      | pulls name linkID => exact hbefore v
      | sets name linkID =>
          dsimp only
          split_ifs
          · by_cases hv : v = fold name
            · rw [hv, Function.update_self]
              obtain ⟨-, htouched⟩ := touch_of_event htouch
              obtain ⟨-, -, wl, runner, w1, hjob, -, hrunner⟩ := job_of_touch htouched
              obtain ⟨-, -, hlink, hnew⟩ := jobOf_eq_some_iff.mp hjob
              obtain ⟨runner', hnew', hleads⟩ := hclosed.links _ wl hlink
              obtain rfl := Except.ok.inj (hnew'.symm.trans hnew)
              have hset : runner' = .setUnitVarLinkJob name linkID := by
                cases runner' <;> simp_all [Runner.touch]
              subst hset
              exact or_iff_not_imp_left.mpr hleads.2
            · rw [Function.update_of_ne hv]
              exact hbefore v
          · exact hbefore v

-- What a call was answered is what the table has.
theorem answered_of_sound (hbegun : Remembers fold h.state.world.pkg h.rows before)
    (hlinks : ∀ v, before v = UUID.nil ∨ wf.Has (before v)) (hsound : Sound fold wf h c)
    (hstep : hostedStep fold wf h c = some h') : ∀ a, c.event = .next a → Answered wf h.state.world a := by
  obtain ⟨s, -, hmap⟩ := Option.bind_eq_some_iff.mp hstep
  obtain ⟨rows', hserve, -⟩ := Option.map_eq_some_iff.mp hmap
  intro a hevent
  refine ⟨fun wl choices hjob => hsound.configured a wl choices hevent hjob, fun name linkID htouched => ?_⟩
  have htouch : c.touch wf h = some (a, .pulls name linkID) := by
    rw [Call.touch, hevent]
    exact congrArg (Option.map (a, ·)) htouched
  rw [htouch] at hserve
  simp only [serve] at hserve
  cases hanswer : a.unitLinkID with
  | failed text =>
      refine ⟨fun _ => ⟨fun hsame => ?_, fun hsame => ?_⟩, fun _ hsame => ?_⟩ <;> cases hsame
  | notFound =>
      rw [hanswer] at hserve
      dsimp only at hserve
      split_ifs at hserve with hread
      refine ⟨fun hnil => ?_, fun _ hsame => ?_⟩
      rotate_left
      · cases hsame
      exact absurd (stored_of_notFound hread.2.symm) (hsound.set a name (hnil ▸ htouch) c.found hread.1)
  | found stored =>
      rw [hanswer] at hserve
      dsimp only at hserve
      split_ifs at hserve with hread
      have hstored := stored_of_found hread.2.symm
      refine ⟨fun hnil => ⟨fun hsame => ?_, fun hsame => ?_⟩, fun stored' hsame hne => ?_⟩
      · cases hsame
      · have hset := hsound.set a name (hnil ▸ htouch) c.found hread.1
        exact hset (hstored.trans (StoreRead.found.inj hsame))
      · obtain rfl := StoreRead.found.inj hsame
        have hlast := hbegun name c.found hread.1
        rw [hstored] at hlast
        rw [hlast] at hne ⊢
        exact (hlinks (fold name)).resolve_left hne

-- By induction on the run: where the package is, and what its variables are set to.
theorem onCourse_run {pkg : Package} {status : PackageStatus} {jobs : GoMap UUID JobRow}
    {rows : List UnitVars.Row} (hclosed : wf.Closed) (hbegins : Begins wf (start pkg status jobs).world)
    (hbefore : Remembers fold pkg rows before) (hlinks : ∀ v, before v = UUID.nil ∨ wf.Has (before v))
    {cs : List Call} (hsound : Meets (hostedStep fold wf) (Sound fold wf) ⟨start pkg status jobs, rows⟩ cs)
    (hrun : run (hostedStep fold wf) ⟨start pkg status jobs, rows⟩ cs = some h) :
    OnCourse wf h.state ∧ ∀ v, memory fold wf ⟨start pkg status jobs, rows⟩ cs before v = UUID.nil ∨
      wf.Has (memory fold wf ⟨start pkg status jobs, rows⟩ cs before v) := by
  refine run_induction (hostedStep fold wf) ⟨start pkg status jobs, rows⟩
    (fun cs h => Meets (hostedStep fold wf) (Sound fold wf) ⟨start pkg status jobs, rows⟩ cs →
      OnCourse wf h.state ∧ ∀ v, memory fold wf ⟨start pkg status jobs, rows⟩ cs before v = UUID.nil ∨
        wf.Has (memory fold wf ⟨start pkg status jobs, rows⟩ cs before v)) ?_ ?_ cs h hrun hsound
  · exact fun _ => ⟨⟨Nat.zero_le 1, fun _ _ => rfl, fun _ hne => absurd rfl hne, fun _ hne => absurd rfl hne, nofun⟩,
      hlinks⟩
  · intro cs h c h' hrun ih hstep hsound
    obtain ⟨hsofar, hnow⟩ := (meets_snoc (hostedStep fold wf) _ hrun hstep).mp hsound
    obtain ⟨hcourse, hset⟩ := ih hsofar
    obtain ⟨hremembers, howner⟩ := remembers_run hbefore hrun
    have hbegun : Remembers fold h.state.world.pkg h.rows
        (memory fold wf ⟨start pkg status jobs, rows⟩ cs before) := by
      intro name found hreads
      rw [linkKey_congr howner name] at hreads
      exact hremembers name found hreads
    rw [memory, follow_snoc (hostedStep fold wf) (remember fold wf) before hrun hstep]
    refine ⟨?_, has_remember hclosed hset⟩
    obtain ⟨s, hnext, hserve⟩ := Option.bind_eq_some_iff.mp hstep
    obtain ⟨rows', -, rfl⟩ := Option.map_eq_some_iff.mp hserve
    exact onCourse_step hclosed (hbegins.congr howner) hcourse (answered_of_sound hbegun hset hnow hstep) hnext

-- In a document in which nothing is missing, a package whose calls are sound is started
-- once, and comes to a chain or a link of the document at every call and with every choice.
theorem stays_on_course {pkg : Package} {status : PackageStatus} {jobs : GoMap UUID JobRow}
    {rows : List UnitVars.Row} (hclosed : wf.Closed) (hbegins : Begins wf (start pkg status jobs).world)
    (hbefore : Remembers fold pkg rows before) (hlinks : ∀ v, before v = UUID.nil ∨ wf.Has (before v))
    {cs : List Call} (hsound : Meets (hostedStep fold wf) (Sound fold wf) ⟨start pkg status jobs, rows⟩ cs)
    (hrun : run (hostedStep fold wf) ⟨start pkg status jobs, rows⟩ cs = some h) :
    h.state.inits ≤ 1 ∧ (h.state.phase = .running → Finds wf h.state.world) ∧
      ∀ decision updates, h.state.phase = .awaiting decision updates → ∀ c ∈ decision.choices, wf.Has c.nextLink := by
  obtain ⟨hcourse, -⟩ := onCourse_run hclosed hbegins hbefore hlinks hsound hrun
  have howner := (remembers_run hbefore hrun).2
  exact ⟨hcourse.once, hcourse.finds hclosed (hbegins.congr howner),
    fun decision updates hphase => (hcourse.offered decision updates hphase).2⟩

end Runs

section Dataverse

theorem mem_dataverse {id : UUID} {wl : Link} (h : dataverse.links.lookup id = some wl) :
    wl = setConvertDataverse ∨ wl = determineDataverse ∨ wl = convertDataverse ∨ wl = restructureForCompliance := by
  have hmem := (id_of_links h).1
  simpa using hmem

theorem has_determineDataverse : dataverse.Has determineDataverse.id := by decide

theorem has_convertDataverse : dataverse.Has convertDataverse.id := by decide

theorem has_restructureForCompliance : dataverse.Has restructureForCompliance.id := by decide

theorem exitCodeNext_single {wl : Link} {code code' : Int} {ec : LinkExitCode} {id : UUID}
    (hcodes : wl.exitCodes = Finmap.singleton code ec) (hfallback : wl.fallbackLinkID = UUID.nil)
    (h : exitCodeNext wl code' = some id) : ec.linkID = some id := by
  unfold exitCodeNext at h
  rw [hcodes, if_pos hfallback, GoMap.lookup_singleton] at h
  by_cases hcode : code' = code
  · rw [if_pos hcode] at h
    exact h
  · rw [if_neg hcode] at h
    cases h

theorem closed_dataverse : dataverse.Closed where
  nil := by decide
  chains := by
    intro id wc h
    have hchain : (if id = ⟨0x1⟩ then some (chainOf setConvertDataverse.id) else none) = some wc :=
      (GoMap.lookup_singleton ..).symm.trans h
    split_ifs at hchain
    obtain rfl := Option.some.inj hchain
    decide
  links := by
    intro id wl h
    rcases mem_dataverse h with rfl | rfl | rfl | rfl
    · exact ⟨_, rfl, has_determineDataverse, fun _ => has_convertDataverse⟩
    · exact ⟨_, rfl, fun _ => has_restructureForCompliance⟩
    · refine ⟨_, rfl, fun code id hid => ?_⟩
      obtain rfl := Option.some.inj (exitCodeNext_single rfl rfl hid)
      exact has_restructureForCompliance
    · exact ⟨_, rfl, fun code id hid => nomatch hid⟩

-- No link of the document lets the configuration decide or pulls without a default.
theorem sound_dataverse (fold : Str → Str) (h : Hosted) (c : Call) : Sound fold dataverse h c where
  configured := by
    intro a wl choices hevent hjob
    obtain ⟨-, -, hlink, hnew⟩ := jobOf_eq_some_iff.mp hjob
    rcases mem_dataverse hlink with rfl | rfl | rfl | rfl <;> exact nomatch Except.ok.inj hnew
  set := by
    intro a name htouch
    obtain ⟨-, htouched⟩ := touch_of_event htouch
    obtain ⟨-, -, wl, runner, w1, hjob, -, hrunner⟩ := job_of_touch htouched
    obtain ⟨-, -, hlink, hnew⟩ := jobOf_eq_some_iff.mp hjob
    rcases mem_dataverse hlink with rfl | rfl | rfl | rfl <;> obtain rfl := Except.ok.inj hnew
    · exact nomatch hrunner
    · exact absurd (Touch.pulls.inj (Option.some.inj hrunner)).2 (by decide)
    · exact nomatch hrunner
    · exact nomatch hrunner

theorem stays_on_course_dataverse :
    ∃ h, run (hostedStep (List.map Char.toLower) dataverse) hosted (sets ++ [determines]) = some h ∧
      h.state.inits ≤ 1 ∧ Finds dataverse h.state.world := by
  have hruns : (run (hostedStep (List.map Char.toLower) dataverse) hosted (sets ++ [determines])).map
      (·.state.phase) = some .running := by decide +kernel
  obtain ⟨h, hrun, hrunning⟩ := Option.map_eq_some_iff.mp hruns
  have hcourse := stays_on_course closed_dataverse ⟨by decide, fun hne => absurd rfl hne⟩ (remembers_nothing _ _)
    (fun _ => Or.inl rfl) ((meets_iff_run ..).mpr fun _ _ _ _ _ _ _ _ => sound_dataverse _ _ _) hrun
  exact ⟨h, hrun, hcourse.1, hcourse.2.1 hrunning⟩

end Dataverse

end Iterator

end Ccp
