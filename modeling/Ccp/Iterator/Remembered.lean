import Ccp.Iterator.Failure
import Ccp.Iterator.Restart
import Ccp.Store.CreateUnitVar

namespace Ccp

open Lib Lib.Calls Workflow

namespace UnitVars

variable {fold : Str → Str} {rows : List Row} {p : Params}

-- The link that is stored in a row that was found.
def stored (found : Option Row) : UUID := found.elim UUID.nil Row.readLinkID

-- What a variable is read as after it was set, and the others.
theorem reads_createUnitVar (hgiven : p.Given) (hupdate : p.updateExisting = true) {found : Option Row} {pk : UUID}
    (hfound : Reads fold rows (p.key fold) found)
    (hone : ∀ found', Reads fold rows (p.key fold) found' → stored found' = stored found) {k : Key}
    {found' : Option Row} (h : Reads fold (createUnitVar fold rows p found pk).2 k found') :
    (k = p.key fold → stored found' = p.linkID) ∧ (k ≠ p.key fold → Reads fold rows k found') := by
  rw [createUnitVar_of_update hgiven hupdate] at h
  cases found with
  | none =>
      -- the new row is the only one of its key
      cases found' with
      | none =>
          refine ⟨fun hk => ?_, fun _ r hr => h r (List.mem_append_left _ hr)⟩
          exact absurd (congrArg some hk.symm) (h _ (List.mem_append_right _ (List.mem_singleton_self _)))
      | some r =>
          obtain ⟨hr, hkey⟩ := h
          rcases List.mem_append.mp hr with hr | hr
          · exact ⟨fun hk => absurd (hk ▸ hkey) (hfound r hr), fun _ => ⟨hr, hkey⟩⟩
          · obtain rfl := List.mem_singleton.mp hr
            refine ⟨fun _ => (read_of_wanted hgiven rfl).2, fun hk => absurd ?_ hk⟩
            exact (Option.some.inj ((key_newRow _ _).symm.trans hkey)).symm
  | some r =>
      dsimp only at h
      split_ifs at h with hsame
      · refine ⟨fun hk => ?_, fun _ => h⟩
        rw [hk] at h
        rw [hone found' h]
        exact (read_of_wanted hgiven hsame).2
      · cases found' with
        | none =>
            have hnone : ∀ r' ∈ rows, r'.key fold ≠ some k := by
              intro r' hr' hkey
              have hmem := List.mem_map_of_mem (f := fun r : Row =>
                if r.key fold = some (p.key fold) then { r with value := p.wanted.1, linkID := p.wanted.2 } else r) hr'
              refine h _ hmem ?_
              split_ifs
              · exact hkey
              · exact hkey
            exact ⟨fun hk => absurd hfound.2 (hk ▸ hnone r hfound.1), fun _ => hnone⟩
        | some r' =>
            obtain ⟨hr', hkey⟩ := h
            obtain ⟨r₀, hr₀, rfl⟩ := List.mem_map.mp hr'
            split_ifs at hkey ⊢ with hk₀
            · have hk : p.key fold = k := Option.some.inj (hk₀.symm.trans hkey)
              exact ⟨fun _ => (read_of_wanted hgiven rfl).2, fun hne => absurd hk.symm hne⟩
            · exact ⟨fun hk => absurd (hk ▸ hkey) hk₀, fun _ => ⟨hr₀, hkey⟩⟩

end UnitVars

variable {wf : Document} {a : Answers} {wl : Link} {w w' : World}

instance (a : Answers) (op : StoreWrite) : Decidable (a.Accepts op) := inferInstanceAs (Decidable (_ ∧ _))

-- What a job keeps that neither its runner nor its row in the store touches.

theorem keeps_save {τ : Type} {p : World → τ} (hj : IgnoresJobs p) (hreload : Keeps p (reload a)) :
    Keeps p (save a wl) := by
  refine keeps_of (fun s u s' h => ?_) (fun s err s' h => ?_)
  · obtain ⟨w1, hok, rfl⟩ := save_ok h
    exact (hj w1 _).trans (hreload.ok hok)
  · rcases save_error h with ⟨inner, herror⟩ | ⟨w1, hok, -, rfl⟩
    · exact hreload.error herror
    · exact hreload.ok hok

theorem keeps_markComplete {τ : Type} {p : World → τ} (hj : IgnoresJobs p) (hr : IgnoresRecorded p) (id : UUID) :
    Keeps p (markComplete a id) := by
  refine keeps_bind keeps_get fun s => ?_
  split_ifs
  · exact keeps_pure _
  · exact keeps_bind (keeps_withContext (keeps_write_jobStatus hj _ _)) fun _ => keeps_modify fun s => hr s true

theorem keeps_execJob {τ : Type} {p : World → τ} (hc : IgnoresContext p) (hj : IgnoresJobs p) (hr : IgnoresRecorded p)
    (hreload : Keeps p (reload a)) (runner : Runner) : Keeps p (execJob wf a wl runner) := by
  have hexecs : Keeps p (runner.exec wf a wl) := keeps_exec hc hj hr runner
  have hmarks := @keeps_markComplete a _ p hj hr a.jobID
  have hawaits : Keeps p (markAwaitingDecision a a.jobID) := keeps_withContext (keeps_write_jobStatus hj _ _)
  have hsaves : ∀ {w w1 : World}, save a wl { w with recorded := false } = .ok () w1 → p w1 = p w :=
    fun {w} _ h => ((keeps_save hj hreload).ok h).trans (hr w false)
  intro w
  have hends := jobEnds_execJob wf a wl runner w
  generalize execJob wf a wl runner w = r at hends
  cases hends with
  | unsaved hsave => exact ((keeps_save hj hreload).error hsave).trans (hr w false)
  | done hsave hexec hmark => exact (hmarks.ok hmark).trans ((hexecs.ok hexec).trans (hsaves hsave))
  | unmarked hsave hexec hmark => exact (hmarks.error hmark).trans ((hexecs.ok hexec).trans (hsaves hsave))
  | waits hsave hexec hmark => exact (hawaits.ok hmark).trans ((hexecs.error hexec).trans (hsaves hsave))
  | unawaited hsave hexec hmark => exact (hawaits.error hmark).trans ((hexecs.error hexec).trans (hsaves hsave))
  | failed hsave hexec hwait => exact (hexecs.error hexec).trans (hsaves hsave)

-- What a job does to the links that its package remembers.
inductive Touch
  | sets (name : Str) (linkID : UUID)
  | pulls (name : Str) (linkID : UUID)
deriving DecidableEq

def Runner.touch : Runner → Option Touch
  | .setUnitVarLinkJob name linkID => some (.sets name linkID)
  | .getUnitVarLinkJob name linkID => some (.pulls name linkID)
  | _ => none

namespace Iterator

-- The job that a call comes to.
def jobOf (wf : Document) (w : World) : Option (Link × Runner) :=
  if (wf.chains.lookup w.nextLink).isSome ∨ w.chain.isNone then none
  else (wf.links.lookup w.nextLink).bind fun wl => (newJob wl).toOption.map (wl, ·)

-- A call gets as far as the variables once the job is saved.
def touch (wf : Document) (a : Answers) (w : World) : Option Touch :=
  if a.ctxErr ∨ w.nextLink = UUID.nil then none
  else
    (jobOf wf w).bind fun job =>
      match save a job.1 { w with recorded := false } with
      | .ok _ _ => job.2.touch
      | .error _ _ => none

-- The package in the hands of its goroutine, and the table of its variables.
structure Hosted where
  state : State
  rows : List UnitVars.Row

-- With the row that the database gives for the variable of a call, and the primary key
-- of a new one.
structure Call where
  event : Event
  found : Option UnitVars.Row
  pk : UUID

-- saveLinkID.
def linkParams (pkg : Package) (name : Str) (linkID : UUID) : UnitVars.Params :=
  ⟨pkg.id, pkg.packageType, name, [], linkID, true⟩

def readUnitLinkID (found : Option UnitVars.Row) : StoreRead UUID :=
  match found with
  | none => .notFound
  | some r => .found r.readLinkID

def Call.touch (wf : Document) (h : Hosted) (c : Call) : Option (Answers × Touch) :=
  match c.event with
  | .next a => (Iterator.touch wf a h.state.world).map (a, ·)
  | _ => none

section Step

variable (fold : Str → Str) (wf : Document)

def linkKey (pkg : Package) (name : Str) : UnitVars.Key := (linkParams pkg name UUID.nil).key fold

-- The rows after a call, and the answers that it can have had. A statement that fails
-- leaves them as they are.
def serve (pkg : Package) (c : Call) (rows : List UnitVars.Row) :
    Option (Answers × Touch) → Option (List UnitVars.Row)
  | none => some rows
  | some (a, .sets name linkID) =>
      if a.Accepts (.unitVar name [] linkID) then
        if UnitVars.Reads fold rows (linkKey fold pkg name) c.found ∧ c.pk ∉ rows.map UnitVars.Row.pk then
          some (UnitVars.createUnitVar fold rows (linkParams pkg name linkID) c.found c.pk).2
        else none
      else some rows
  | some (a, .pulls name _) =>
      match a.unitLinkID with
      | .failed _ => some rows
      | answer =>
          if UnitVars.Reads fold rows (linkKey fold pkg name) c.found ∧ answer = readUnitLinkID c.found then
            some rows
          else none

def hostedStep (h : Hosted) (c : Call) : Option Hosted :=
  (step wf h.state c.event).bind fun s =>
    (serve fold h.state.world.pkg c h.rows (c.touch wf h)).map fun rows => ⟨s, rows⟩

-- The link that each variable was set to last.
def remember (h : Hosted) (c : Call) (memory : Str → UUID) : Str → UUID :=
  match c.touch wf h with
  | some (a, .sets name linkID) =>
      if a.Accepts (.unitVar name [] linkID) then Function.update memory (fold name) linkID else memory
  | _ => memory

def memory (h : Hosted) (cs : List Call) (before : Str → UUID) : Str → UUID :=
  follow (hostedStep fold wf) (remember fold wf) h cs before

-- The table has the link of every variable of a package.
def Remembers (pkg : Package) (rows : List UnitVars.Row) (memory : Str → UUID) : Prop :=
  ∀ name found, UnitVars.Reads fold rows (linkKey fold pkg name) found →
    UnitVars.stored found = memory (fold name)

end Step

section Owner

-- No call changes whose variables are read, nor where the package starts.
def owner (w : World) : UUID × PackageType × UUID × UUID :=
  (w.pkg.id, w.pkg.packageType, w.pkg.startAtChainID, w.pkg.startAtLinkID)

theorem keeps_owner_reload : Keeps owner (reload a) := by
  intro s
  unfold reload
  have howner : owner s = (s.pkg.id, s.pkg.unit.packageType, s.pkg.startAtChainID, s.pkg.startAtLinkID) := rfl
  have hsame : (s.pkg.id, s.pkg.unit.packageType, s.pkg.startAtChainID, s.pkg.startAtLinkID) = owner s := rfl
  cases hunit : s.pkg.unit with
  | dip => rfl
  | transfer config =>
      rw [howner, hunit]
      dsimp only
      unfold reloadTransfer
      cases a.transferLocation with
      | error text => exact hsame.trans (by rw [howner, hunit])
      | ok path =>
          cases a.processingConfiguration with
          | notFound => rfl
          | failed text => exact hsame.trans (by rw [howner, hunit])
          | found name => rfl
  | sip sipType aipFilename =>
      rw [howner, hunit]
      dsimp only
      unfold reloadSIP
      cases a.sip with
      | error text => exact hsame.trans (by rw [howner, hunit])
      | ok row => rfl

theorem keeps_owner_markComplete (id : UUID) : Keeps owner (markComplete a id) :=
  keeps_markComplete (fun _ _ => rfl) (fun _ _ => rfl) id

theorem keeps_owner_execJob (runner : Runner) : Keeps owner (execJob wf a wl runner) :=
  keeps_execJob (fun _ _ => rfl) (fun _ _ => rfl) (fun _ _ => rfl) keeps_owner_reload runner

theorem keeps_owner_status (status : PackageStatus) : Keeps owner (write a (.packageStatus status)) := by
  refine keeps_of (fun s u s' h => ?_) (fun s err s' h => by rw [(write_error h).1])
  obtain ⟨-, -, rfl⟩ := write_ok_iff.mp h
  rfl

theorem keeps_owner_startChain (wc : Chain) : Keeps owner (startChain a wc) := by
  refine keeps_bind (keeps_modify fun _ => rfl) fun _ => keeps_bind (keeps_withContext ?_) fun _ =>
    keeps_modify fun _ => rfl
  intro s
  unfold loadChain
  cases a.unitVars <;> rfl

theorem keeps_owner_logged {x : M Unit} (h : Keeps owner x) : Keeps owner (logged x) := by
  intro s
  have hs := h s
  unfold logged
  cases hx : x s <;> (rw [hx] at hs; exact hs)

theorem keeps_owner_finish (err : Err) : Keeps owner (finish a wl err) := by
  have hlogged : ∀ status (err : Err), Keeps owner (do
      logged (write a (.packageStatus status))
      throw err : M Unit) := fun status err =>
    keeps_bind (keeps_owner_logged (keeps_owner_status status)) fun _ => keeps_throw err
  unfold finish
  split
  · split_ifs
    · exact hlogged _ _
    · exact keeps_throw _
  · exact keeps_throw _
  · exact keeps_throw _
  · exact hlogged _ _

theorem keeps_owner_init : Keeps owner (init wf a) := by
  refine keeps_bind (keeps_owner_status _) fun _ => keeps_bind keeps_get fun s => ?_
  split
  · exact keeps_throw _
  · exact keeps_modify fun _ => rfl

theorem owner_next (wf : Document) (a : Answers) : Keeps owner (next wf a) := by
  have henters : ∀ {w w0 : World}, Enters wf a w w0 → owner w0 = owner w := by
    rintro w w0 (⟨-, rfl⟩ | ⟨-, hinit⟩)
    · rfl
    · exact keeps_owner_init.ok hinit
  intro w
  have hends := nextEnds_next wf a w
  generalize next wf a w = r at hends
  cases hends with
  | canceled hctx => rfl
  | uninitialised hnil hinit => exact keeps_owner_init.error hinit
  | chain hctx henter hchain => exact (keeps_owner_startChain _ _).trans (henters henter)
  | unknown henter hchain hjob => exact henters henter
  | job hctx henter hchain hstarted hlink hnew hexec =>
      exact ((keeps_owner_execJob _).ok hexec).trans (henters henter)
  | finished hctx henter hchain hstarted hlink hnew hexec =>
      exact (keeps_owner_finish _ _).trans (((keeps_owner_execJob _).error hexec).trans (henters henter))

theorem keeps_owner_resume {decision : Decision} {updates : Bool} {c : Choice} :
    Keeps owner (resume a decision updates c) := by
  refine keeps_bind (keeps_bind (keeps_modify fun s => ?_) fun _ => keeps_owner_markComplete _) fun _ =>
    keeps_modify fun _ => rfl
  unfold setChoice
  split_ifs <;> rfl

theorem owner_step {s s' : State} {e : Event} (h : step wf s e = some s') : owner s'.world = owner s.world := by
  have houtcome : ∀ {inits : Nat} {x : M Unit} {w : World} {s' : State}, Keeps owner x →
      Outcome inits (x w) s' → owner s'.world = owner w := by
    intro inits x w s' hx hout
    have hkept := hx w
    generalize x w = r at hkept hout
    cases hout <;> exact hkept
  cases moves_of_step h with
  | next hphase hnext => exact houtcome (owner_next wf _) hnext
  | resume hphase hchoice hresume => exact houtcome keeps_owner_resume hresume
  | crash hphase hchoice => rfl
  | cancel => rfl

end Owner

section Remembers

theorem stored_of_notFound {found : Option UnitVars.Row} (h : readUnitLinkID found = .notFound) :
    UnitVars.stored found = UUID.nil := by
  cases found with
  | none => rfl
  | some r => cases h

theorem stored_of_found {found : Option UnitVars.Row} {stored : UUID} (h : readUnitLinkID found = .found stored) :
    UnitVars.stored found = stored := by
  cases found with
  | none => cases h
  | some r => exact StoreRead.found.inj h

variable {fold : Str → Str} {h h' : Hosted} {c : Call} {before : Str → UUID}

theorem linkKey_eq_iff {pkg : Package} {name name' : Str} :
    linkKey fold pkg name = linkKey fold pkg name' ↔ fold name = fold name' := by
  simp [linkKey, UnitVars.Params.key, UnitVars.Key.folded, linkParams]

theorem linkKey_congr {w w' : World} (h : owner w' = owner w) (name : Str) :
    linkKey fold w'.pkg name = linkKey fold w.pkg name := by
  obtain ⟨hid, hrest⟩ := Prod.mk.inj h
  rw [linkKey, linkParams, hid, (Prod.mk.inj hrest).1]
  rfl

-- A link that is set is there for the next call, and the others stay as they were.
theorem remembers_serve {pkg : Package} {rows rows' : List UnitVars.Row}
    (hbefore : Remembers fold pkg rows before)
    (hserve : serve fold pkg c rows (c.touch wf h) = some rows') :
    Remembers fold pkg rows' (remember fold wf h c before) := by
  unfold remember
  cases htouch : c.touch wf h with
  | none =>
      rw [htouch] at hserve
      obtain rfl := Option.some.inj hserve
      exact hbefore
  | some made =>
      obtain ⟨a, touch⟩ := made
      rw [htouch] at hserve
      cases touch with
      | pulls name linkID =>
          have hsame : rows = rows' := by
            simp only [serve] at hserve
            cases hanswer : a.unitLinkID <;> (rw [hanswer] at hserve; dsimp only at hserve)
            · split_ifs at hserve
              exact Option.some.inj hserve
            · split_ifs at hserve
              exact Option.some.inj hserve
            · exact Option.some.inj hserve
          exact hsame ▸ hbefore
      | sets name linkID =>
          simp only [serve] at hserve
          dsimp only
          split_ifs at hserve ⊢ with haccepts hfound
          · obtain rfl := Option.some.inj hserve
            have hgiven : (linkParams pkg name linkID).Given := by
              refine Or.inr ⟨rfl, ?_⟩
              rintro rfl
              have hinvalid := haccepts.1
              simp [StoreWrite.invalid] at hinvalid
            intro name' found' hreads
            obtain ⟨hset, hothers⟩ := UnitVars.reads_createUnitVar hgiven rfl hfound.1 (fun found' hreads => by
              rw [hbefore name found' hreads, hbefore name c.found hfound.1]) hreads
            by_cases hname : fold name' = fold name
            · rw [hname, Function.update_self]
              exact hset (linkKey_eq_iff.mpr hname)
            · rw [Function.update_of_ne hname]
              exact hbefore name' found' (hothers (mt linkKey_eq_iff.mp hname))
          · obtain rfl := Option.some.inj hserve
            exact hbefore

theorem remembers_step {w : World} (hbefore : Remembers fold w.pkg h.rows before)
    (howner : owner h.state.world = owner w)
    (hstep : hostedStep fold wf h c = some h') : Remembers fold w.pkg h'.rows (remember fold wf h c before) := by
  obtain ⟨s, -, hmap⟩ := Option.bind_eq_some_iff.mp hstep
  obtain ⟨rows', hserve, rfl⟩ := Option.map_eq_some_iff.mp hmap
  have hkeys : ∀ name, linkKey fold w.pkg name = linkKey fold h.state.world.pkg name :=
    fun name => (linkKey_congr howner name).symm
  intro name found hreads
  rw [hkeys] at hreads
  refine remembers_serve (fun name found hreads => hbefore name found ?_) hserve name found hreads
  rwa [hkeys]

-- By induction on the run, with the memory of the calls so far.
theorem remembers_run {pkg : Package} {status : PackageStatus} {jobs : GoMap UUID JobRow}
    {rows : List UnitVars.Row} (hbefore : Remembers fold pkg rows before) {cs : List Call}
    (hrun : run (hostedStep fold wf) ⟨start pkg status jobs, rows⟩ cs = some h) :
    Remembers fold pkg h.rows (memory fold wf ⟨start pkg status jobs, rows⟩ cs before) ∧
      owner h.state.world = owner (start pkg status jobs).world := by
  refine run_induction (hostedStep fold wf) ⟨start pkg status jobs, rows⟩
    (fun cs h => Remembers fold pkg h.rows (memory fold wf ⟨start pkg status jobs, rows⟩ cs before) ∧
      owner h.state.world = owner (start pkg status jobs).world) ⟨hbefore, rfl⟩ ?_ cs h hrun
  rintro cs h c h' hrun ⟨hremembers, howner⟩ hstep
  rw [memory, follow_snoc (hostedStep fold wf) (remember fold wf) before hrun hstep]
  refine ⟨remembers_step (w := (start pkg status jobs).world) hremembers howner hstep, ?_⟩
  obtain ⟨s, hnext, hserve⟩ := Option.bind_eq_some_iff.mp hstep
  obtain ⟨rows', -, rfl⟩ := Option.map_eq_some_iff.mp hserve
  exact (owner_step hnext).trans howner

theorem jobOf_eq_some_iff {w : World} {wl : Link} {runner : Runner} :
    jobOf wf w = some (wl, runner) ↔ wf.chains.lookup w.nextLink = none ∧ w.chain ≠ none ∧
      wf.links.lookup w.nextLink = some wl ∧ newJob wl = .ok runner := by
  unfold jobOf
  split_ifs with hnone
  · simp only [false_iff, not_and]
    intro hchain hstarted
    simp [hchain, hstarted] at hnone
  · rw [not_or, Bool.not_eq_true, Option.isSome_eq_false_iff, Option.isNone_iff_eq_none,
      Option.isNone_iff_eq_none] at hnone
    simp only [hnone.1, true_and, Option.bind_eq_some_iff, Option.map_eq_some_iff, Prod.mk.injEq]
    refine ⟨?_, fun ⟨hstarted, hlink, hnew⟩ => ⟨wl, hlink, runner, by rw [hnew]; rfl, rfl, rfl⟩⟩
    rintro ⟨wl', hlink, runner', hnew, rfl, rfl⟩
    refine ⟨hnone.2, hlink, ?_⟩
    cases hjob : newJob wl' with
    | error text =>
        rw [hjob] at hnew
        cases hnew
    | ok made =>
        rw [hjob] at hnew
        exact congrArg Except.ok (Option.some.inj hnew)

-- The job that touches a variable in a call, and what it is done with.
theorem job_of_touch {a : Answers} {touched : Touch} {w : World} (h : touch wf a w = some touched) :
    a.ctxErr = false ∧ w.nextLink ≠ UUID.nil ∧ ∃ wl runner w1, jobOf wf w = some (wl, runner) ∧
      save a wl { w with recorded := false } = .ok () w1 ∧ runner.touch = some touched := by
  unfold touch at h
  split_ifs at h with hnone
  obtain ⟨⟨wl, runner⟩, hjob, h⟩ := Option.bind_eq_some_iff.mp h
  rw [not_or, Bool.not_eq_true] at hnone
  refine ⟨hnone.1, hnone.2, wl, runner, ?_⟩
  cases hsave : save a wl { w with recorded := false } with
  | error err w1 =>
      rw [hsave] at h
      cases h
  | ok u w1 =>
      rw [hsave] at h
      exact ⟨w1, hjob, rfl, h⟩

theorem touch_of_event {a : Answers} {touched : Touch} (htouch : c.touch wf h = some (a, touched)) :
    c.event = .next a ∧ touch wf a h.state.world = some touched := by
  obtain ⟨event, found, pk⟩ := c
  cases event with
  | resolve a' pos => cases htouch
  | cancel => cases htouch
  | next a' =>
      obtain ⟨touched', htouched, hpair⟩ := Option.map_eq_some_iff.mp htouch
      obtain ⟨rfl, rfl⟩ := Prod.mk.inj hpair
      exact ⟨rfl, htouched⟩

-- A call whose job has run to its end.
theorem exec_of_next {a : Answers} {wl : Link} {runner : Runner} {w w' : World} (hlinked : w.nextLink ≠ UUID.nil)
    (hjob : jobOf wf w = some (wl, runner)) (h : next wf a w = .ok () w') :
    ∃ w1 w2, runner.exec wf a wl w1 = .ok w'.nextLink w2 := by
  obtain ⟨hchain, -, hlink, hnew⟩ := jobOf_eq_some_iff.mp hjob
  obtain ⟨-, w0, ⟨-, rfl⟩ | ⟨hnil, -⟩, hfollow⟩ := next_ok_iff.mp h
  · rcases followLink_ok_iff.mp hfollow with ⟨wc, hchain', -⟩ | ⟨-, -, wl', hlink', hnext⟩
    · exact nomatch hchain.symm.trans hchain'
    · obtain rfl := Option.some.inj (hlink.symm.trans hlink')
      obtain ⟨runner', id, w3, hnew', hexec, rfl⟩ := nextJob_ok_iff.mp hnext
      obtain rfl := Except.ok.inj (hnew.symm.trans hnew')
      have hends := jobEnds_execJob wf a wl runner w0
      rw [hexec] at hends
      cases hends with
      | done hsave hexec hmark => exact ⟨_, _, hexec⟩
  · exact absurd hnil hlinked

theorem next_of_step {a : Answers} {s s' : State} (hstep : step wf s (.next a) = some s')
    (hrunning : s'.phase = .running) : next wf a s.world = .ok () s'.world := by
  cases moves_of_step hstep with
  | next hphase hnext =>
      generalize next wf a s.world = r at hnext
      cases hnext with
      | running w => rfl
      | _ => cases hrunning

-- A job that pulls a link goes where the variable was set to last, by this package or
-- before it began, and to its own link where it was not set.
theorem pulled_last_set {pkg : Package} {status : PackageStatus} {jobs : GoMap UUID JobRow}
    {rows : List UnitVars.Row} (hbefore : Remembers fold pkg rows before) {cs : List Call}
    (hrun : run (hostedStep fold wf) ⟨start pkg status jobs, rows⟩ cs = some h)
    (hstep : hostedStep fold wf h c = some h') (hrunning : h'.state.phase = .running)
    {a : Answers} {name : Str} {linkID : UUID} (htouch : c.touch wf h = some (a, .pulls name linkID)) :
    h'.state.world.nextLink =
      if memory fold wf ⟨start pkg status jobs, rows⟩ cs before (fold name) = UUID.nil then linkID
      else memory fold wf ⟨start pkg status jobs, rows⟩ cs before (fold name) := by
  obtain ⟨hremembers, howner⟩ := remembers_run hbefore hrun
  generalize memory fold wf ⟨start pkg status jobs, rows⟩ cs before = last at hremembers ⊢
  obtain ⟨s, hnext, hmap⟩ := Option.bind_eq_some_iff.mp hstep
  obtain ⟨rows', hserve, rfl⟩ := Option.map_eq_some_iff.mp hmap
  obtain ⟨hevent, htouched⟩ := touch_of_event htouch
  rw [hevent] at hnext
  obtain ⟨-, hlinked, wl, runner, w1, hjob, -, hrunner⟩ := job_of_touch htouched
  have hget : runner = .getUnitVarLinkJob name linkID := by
    cases runner <;> simp_all [Runner.touch]
  subst hget
  obtain ⟨w2, w3, hexec⟩ := exec_of_next hlinked hjob (next_of_step hnext hrunning)
  rw [htouch] at hserve
  simp only [serve] at hserve
  have hkey : linkKey fold h.state.world.pkg name = linkKey fold pkg name := linkKey_congr howner name
  have hexec : execGetUnitVarLink a linkID w2 = .ok s.world.nextLink w3 := hexec
  unfold execGetUnitVarLink at hexec
  cases hanswer : a.unitLinkID with
  | failed text =>
      rw [hanswer] at hexec
      exact absurd hexec throw_ne_ok
  | notFound =>
      rw [hanswer] at hexec hserve
      dsimp only at hserve
      split_ifs at hserve with hread
      obtain ⟨hread, hfound⟩ := hread
      have hlast := hremembers name c.found (hkey ▸ hread)
      rw [← hlast, stored_of_notFound hfound.symm, if_pos rfl]
      exact (pure_ok_iff.mp hexec).1.symm
  | found stored =>
      rw [hanswer] at hexec hserve
      dsimp only at hserve
      split_ifs at hserve with hread
      obtain ⟨hread, hfound⟩ := hread
      have hlast := hremembers name c.found (hkey ▸ hread)
      rw [← hlast, stored_of_found hfound.symm]
      exact (pure_ok_iff.mp hexec).1.symm

end Remembers

section Dataverse

theorem id_of_links {links : List Link} {id : UUID} {wl : Link}
    (h : (links.foldr (fun wl m => Finmap.insert wl.id wl m) ∅ : GoMap UUID Link).lookup id = some wl) :
    wl ∈ links ∧ wl.id = id := by
  induction links with
  | nil => exact nomatch (Finmap.lookup_empty id).symm.trans h
  | cons first links ih =>
      rw [List.foldr_cons] at h
      by_cases hid : id = first.id
      · rw [hid, Finmap.lookup_insert] at h
        obtain rfl := Option.some.inj h
        exact ⟨List.mem_cons_self, hid.symm⟩
      · rw [Finmap.lookup_insert_of_ne _ hid] at h
        exact (ih h).imp_left (List.mem_cons_of_mem first)

-- A chain and its links.
def oneChain (linkID : UUID) (links : List Link) : Document where
  chains := Finmap.singleton (chainOf linkID).id (chainOf linkID)
  links := links.foldr (fun wl m => Finmap.insert wl.id wl m) ∅
  chains_id := by
    intro id chain h
    rw [GoMap.lookup_singleton] at h
    split_ifs at h with hid
    obtain rfl := Option.some.inj h
    exact hid.symm
  links_id _ _ h := (id_of_links h).2

-- The links of the workflow that decide whether the structure of a Dataverse transfer
-- is converted. The chain of the document ends after them.
def setConvertDataverse : Link where
  id := ⟨0x213fe743f17046958b3e77886a31a89d⟩
  manager := "linkTaskManagerSetUnitVariable"
  config := .taskConfigSetUnitVariable "linkToConvertDataverseStructure".toList ⟨0x9ec31d55f0534695b86d8c2a8abdb0fc⟩
  description := ∅
  exitCodes := Finmap.singleton 0 ⟨"Completed successfully", some ⟨0x2a0a7afbd09b414ba7ae625f162103c1⟩⟩
  fallbackJobStatus := "Failed"
  fallbackLinkID := UUID.nil
  group := ∅
  ends := false

def determineDataverse : Link where
  id := ⟨0x2a0a7afbd09b414ba7ae625f162103c1⟩
  manager := "linkTaskManagerUnitVariableLinkPull"
  config := .taskConfigUnitVariableLinkPull "linkToConvertDataverseStructure".toList
    ⟨0xea0e8838ad3a4bddbe14e5dba5a4ae0c⟩
  description := ∅
  exitCodes := ∅
  fallbackJobStatus := "Completed successfully"
  fallbackLinkID := UUID.nil
  group := ∅
  ends := false

def convertDataverse : Link where
  id := ⟨0x9ec31d55f0534695b86d8c2a8abdb0fc⟩
  manager := "linkTaskManagerDirectories"
  config := .standardTaskConfig
    ⟨"\"%SIPDirectory%\"".toList, "convertDataverseStructure_v0.0".toList, [], [], [], []⟩
  description := ∅
  exitCodes := Finmap.singleton 0 ⟨"Completed successfully", some ⟨0xea0e8838ad3a4bddbe14e5dba5a4ae0c⟩⟩
  fallbackJobStatus := "Failed"
  fallbackLinkID := UUID.nil
  group := ∅
  ends := false

def restructureForCompliance : Link where
  id := ⟨0xea0e8838ad3a4bddbe14e5dba5a4ae0c⟩
  manager := "linkTaskManagerDirectories"
  config := .standardTaskConfig
    ⟨"\"%SIPDirectory%\" \"%SIPUUID%\"".toList, "restructureForCompliance_v0.0".toList, [], [], [], []⟩
  description := ∅
  exitCodes := ∅
  fallbackJobStatus := "Failed"
  fallbackLinkID := UUID.nil
  group := ∅
  ends := true

def dataverse : Document :=
  oneChain setConvertDataverse.id
    [setConvertDataverse, determineDataverse, convertDataverse, restructureForCompliance]

def hosted : Hosted := ⟨start (transferAt ⟨0x1⟩) .unknown ∅, []⟩

def flagged : UnitVars.Row :=
  UnitVars.newRow (linkParams (transferAt ⟨0x1⟩) "linkToConvertDataverseStructure".toList convertDataverse.id)
    (some [], some convertDataverse.id) ⟨0x1⟩

def determines : Call :=
  ⟨.next { quiet with unitLinkID := .found convertDataverse.id }, some flagged, ⟨0x2⟩⟩

theorem remembers_nothing (fold : Str → Str) (pkg : Package) : Remembers fold pkg [] fun _ => UUID.nil := by
  intro name found hfound
  cases found with
  | none => rfl
  | some r => exact absurd hfound.1 List.not_mem_nil

def sets : List Call := [⟨.next quiet, none, ⟨0x1⟩⟩, ⟨.next quiet, none, ⟨0x1⟩⟩]

-- The transfer is converted because an earlier link of its chain has said so.
theorem pulled_last_set_dataverse :
    ∃ h h', run (hostedStep (List.map Char.toLower) dataverse) hosted sets = some h ∧
      hostedStep (List.map Char.toLower) dataverse h determines = some h' ∧
        h'.state.world.nextLink = convertDataverse.id := by
  have hset : (run (hostedStep (List.map Char.toLower) dataverse) hosted sets).isSome := by decide +kernel
  have hruns : (run (hostedStep (List.map Char.toLower) dataverse) hosted (sets ++ [determines])).map
      (·.state.phase) = some .running := by decide +kernel
  have hpulls : (run (hostedStep (List.map Char.toLower) dataverse) hosted sets).bind
      (fun h => (determines.touch dataverse h).map Prod.snd) =
        some (.pulls "linkToConvertDataverseStructure".toList restructureForCompliance.id) := by decide +kernel
  have hlast : memory (List.map Char.toLower) dataverse hosted sets (fun _ => UUID.nil)
      ("linkToConvertDataverseStructure".toList.map Char.toLower) = convertDataverse.id := by decide +kernel
  obtain ⟨h, hrun⟩ := Option.isSome_iff_exists.mp hset
  obtain ⟨h', hall, hrunning⟩ := Option.map_eq_some_iff.mp hruns
  obtain ⟨mid, hmid, hstep⟩ := (run_snoc_eq_some _).mp hall
  obtain rfl := Option.some.inj (hrun.symm.trans hmid)
  rw [hrun, Option.bind_some] at hpulls
  obtain ⟨⟨a, touched⟩, htouch, rfl⟩ := Option.map_eq_some_iff.mp hpulls
  refine ⟨h, h', hrun, hstep, ?_⟩
  rw [pulled_last_set (remembers_nothing _ _) hrun hstep hrunning htouch]
  exact (congrArg (fun id => if id = UUID.nil then _ else id) hlast).trans (if_neg (by decide))

end Dataverse

end Iterator

end Ccp
