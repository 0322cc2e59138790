import Ccp.Job.Preconfigured

namespace Ccp

open Lib Lib.Calls Workflow

-- A row of DashboardSettings, as far as ReadDict reads it.
structure DashboardSetting where
  name : Str
  value : Str
  scope : Str
deriving DecidableEq

-- The rows of a scope, which the collation of the column compares.
def ofScope (fold : Str → Str) (table : List DashboardSetting) (scope : Str) : List DashboardSetting :=
  table.filter fun row => fold row.scope = fold scope

-- ReadDict of the rows of its scope. The value is looked up among the names read so far.
def readDict (rows : List DashboardSetting) : Except String (GoMap Str Str) :=
  if rows = [] then .error "object not found"
  else .ok (rows.foldl (fun ret row => ret.insert row.name ((ret.lookup row.value).getD [])) ∅)

-- The dictionary that the rows stand for.
def settings (rows : List DashboardSetting) : GoMap Str Str :=
  rows.foldl (fun ret row => ret.insert row.name row.value) ∅

-- The names of the rows, without values.
def blank (rows : List DashboardSetting) : GoMap Str Str :=
  rows.foldl (fun ret row => ret.insert row.name []) ∅

def Answers.reads (a : Answers) (rows : List DashboardSetting) : Answers :=
  { a with dict := readDict rows }

-- The fallback link runs the script.
def RunsScript (wf : Document) (wl : Link) (script : Str) : Prop :=
  script ≠ [] ∧ ∃ fallback config, wf.links.lookup wl.fallbackLinkID = some fallback ∧
    fallback.config = .standardTaskConfig config ∧ config.execute = script

-- The job goes on, with the settings in the context of the chain.
def Loads (wf : Document) (a : Answers) (wl : Link) (items : GoMap Str Str) (w : World) : Prop :=
  ∃ context, execUpdateContextDecision wf a wl [] w =
    .ok (exitCodeLinkID wl 0) { w with context := context } ∧ Adds items w.context context

section ReadDict

variable {rows : List DashboardSetting}

-- No name has a value that another row could find.
theorem foldl_eq_blank (rows : List DashboardSetting) :
    rows.foldl (fun ret row => ret.insert row.name ((ret.lookup row.value).getD [])) ∅ = blank rows := by
  have hblank : ∀ (rows : List DashboardSetting) (ret : GoMap Str Str),
      (∀ k v, ret.lookup k = some v → v = []) →
      rows.foldl (fun ret row => ret.insert row.name ((ret.lookup row.value).getD [])) ret =
        rows.foldl (fun ret row => ret.insert row.name []) ret := by
    intro rows
    induction rows with
    | nil =>
        intro ret _
        rfl
    | cons row rows ih =>
        intro ret hret
        have hvalue : (ret.lookup row.value).getD [] = [] := by
          cases hlookup : ret.lookup row.value with
          | none => rfl
          | some v => exact hret row.value v hlookup
        rw [List.foldl_cons, List.foldl_cons, hvalue]
        apply ih
        intro k v hv
        by_cases hk : k = row.name
        · subst hk
          rw [Finmap.lookup_insert] at hv
          exact (Option.some.inj hv).symm
        · rw [Finmap.lookup_insert_of_ne _ hk] at hv
          exact hret k v hv
  exact hblank rows ∅ fun k v h => nomatch (Finmap.lookup_empty k ▸ h)

theorem readDict_eq (hrows : rows ≠ []) : readDict rows = .ok (blank rows) := by
  rw [readDict, if_neg hrows, foldl_eq_blank]

theorem lookup_blank {k v : Str} (h : (blank rows).lookup k = some v) : v = [] := by
  cases GoMap.exists_of_lookup_foldl_insert h with
  | inl hrow =>
      obtain ⟨row, -, -, hv⟩ := hrow
      exact hv.symm
  | inr hempty =>
      rw [Finmap.lookup_empty] at hempty
      cases hempty

theorem blank_ne_empty (hnames : (rows.map DashboardSetting.name).Nodup) (hrows : rows ≠ []) :
    blank rows ≠ ∅ := by
  intro hempty
  obtain ⟨row, hrow⟩ := List.exists_mem_of_ne_nil rows hrows
  have hlookup := GoMap.lookup_foldl_insert DashboardSetting.name (fun _ => ([] : Str)) rows hnames ∅ hrow
  change (blank rows).lookup row.name = some [] at hlookup
  rw [hempty, Finmap.lookup_empty] at hlookup
  cases hlookup

theorem lookup_settings (hnames : (rows.map DashboardSetting.name).Nodup) {row : DashboardSetting}
    (hrow : row ∈ rows) : (settings rows).lookup row.name = some row.value :=
  GoMap.lookup_foldl_insert _ _ rows hnames ∅ hrow

theorem settings_eq_blank (h : ∀ row ∈ rows, row.value = []) : settings rows = blank rows := by
  have hsame : ∀ (rows : List DashboardSetting) (ret : GoMap Str Str), (∀ row ∈ rows, row.value = []) →
      rows.foldl (fun ret row => ret.insert row.name row.value) ret =
        rows.foldl (fun ret row => ret.insert row.name []) ret := by
    intro rows
    induction rows with
    | nil =>
        intro ret _
        rfl
    | cons row rows ih =>
        intro ret h
        rw [List.foldl_cons, List.foldl_cons, h row List.mem_cons_self]
        exact ih _ fun row' hrow => h row' (List.mem_cons_of_mem row hrow)
  exact hsame rows ∅ h

end ReadDict

section Format

variable {ks : List Str} {m formatted : GoMap Str Str} {left : Finset Str}

-- The loop makes no value of its own.
theorem exists_of_lookup_formatLoop (h : formatLoop ks m left = some formatted) {k v : Str}
    (hv : formatted.lookup k = some v) : ∃ k', m.lookup k' = some v := by
  induction ks generalizing m left with
  | nil =>
      simp only [formatLoop] at h
      split_ifs at h
      cases h
      exact ⟨k, hv⟩
  | cons j ks ih =>
      obtain ⟨u, hu, hrest⟩ := formatLoop_cons h
      obtain ⟨k', hk'⟩ := ih hrest
      by_cases hnew : k' = percent j
      · subst hnew
        rw [rekeyed, Finmap.lookup_insert] at hk'
        exact ⟨j, hu.trans hk'⟩
      · rw [rekeyed, Finmap.lookup_insert_of_ne _ hnew] at hk'
        by_cases hold : k' = j
        · subst hold
          rw [Finmap.lookup_erase] at hk'
          cases hk'
        · rw [Finmap.lookup_erase_ne hold] at hk'
          exact ⟨k', hk'⟩

theorem formatLoop_ne_empty (h : formatLoop ks m left = some formatted) (hne : m ≠ ∅) :
    formatted ≠ ∅ := by
  induction ks generalizing m left with
  | nil =>
      simp only [formatLoop] at h
      split_ifs at h
      cases h
      exact hne
  | cons j ks ih =>
      obtain ⟨u, hu, hrest⟩ := formatLoop_cons h
      apply ih hrest
      intro hempty
      have hlookup := congrArg (Finmap.lookup (percent j)) hempty
      rw [rekeyed, Finmap.lookup_insert, Finmap.lookup_empty] at hlookup
      cases hlookup

end Format

-- A chain that has just begun.
def idle : World where
  pkg := ⟨UUID.nil, .dip, [], [], UUID.nil, UUID.nil⟩
  status := .unknown
  jobs := ∅
  nextLink := UUID.nil
  chain := none
  context := []
  recorded := false

section Run

variable {wf : Document} {a : Answers} {wl : Link} {script : Str} {rows : List DashboardSetting}
  {w : World}

theorem loadDatabaseContext_of_script (h : RunsScript wf wl script) :
    loadDatabaseContext wf (a.reads rows) wl =
      (ofExcept (readDict rows) >>= fun dict => formatChoices a dict) := by
  obtain ⟨hscript, ⟨_, _, _, _, _, _, _, _, _⟩, config, hlookup, hconfig, hexecute⟩ := h
  cases hconfig
  rw [loadDatabaseContext, hlookup]
  exact if_neg (hexecute ▸ hscript)

theorem not_loads_of_nil (h : RunsScript wf wl script) {items : GoMap Str Str} :
    ¬ Loads wf (a.reads []) wl items w := by
  rintro ⟨context, hrun, -⟩
  rw [execUpdateContextDecision, databaseContext, if_pos rfl, loadDatabaseContext_of_script h] at hrun
  cases hrun

theorem execUpdateContextDecision_reads (h : RunsScript wf wl script) (hrows : rows ≠ [])
    {formatted : GoMap Str Str}
    (hloop : formatLoop (a.visits (blank rows)) (blank rows) (blank rows).keys = some formatted)
    (hne : formatted ≠ ∅) (hvisits : a.Visits formatted) :
    execUpdateContextDecision wf (a.reads rows) wl [] w = .ok (exitCodeLinkID wl 0)
      { w with context := (a.entries formatted).foldl (fun c e => setContext c e.1 e.2) w.context } := by
  have hload : loadDatabaseContext wf (a.reads rows) wl w = .ok formatted w := by
    rw [loadDatabaseContext_of_script h, readDict_eq hrows]
    change formatChoices a (blank rows) w = _
    rw [formatChoices, hloop]
  rw [execUpdateContextDecision, databaseContext, if_pos rfl]
  refine bind_ok_iff.mpr ⟨formatted, w, withContext_ok_iff.mpr hload, ?_⟩
  rw [useContext, if_neg hne]
  exact bind_ok_iff.mpr ⟨(), _, updateChain_ok_iff.mpr ⟨hvisits, rfl⟩, pure_ok_iff.mpr ⟨rfl, rfl⟩⟩

-- What the job adds to any context are the formatted entries.
theorem loads_iff_wrapped (h : RunsScript wf wl script) (hrows : rows ≠ []) {formatted : GoMap Str Str}
    (hloop : formatLoop (a.visits (blank rows)) (blank rows) (blank rows).keys = some formatted)
    (hne : formatted ≠ ∅) (hvisits : a.Visits formatted) {items : GoMap Str Str} :
    (∀ w, Loads wf (a.reads rows) wl items w) ↔ Wrapped items formatted := by
  constructor
  · intro hloads key
    obtain ⟨context, hrun, hadds⟩ := hloads idle
    rw [execUpdateContextDecision_reads h hrows hloop hne hvisits] at hrun
    have hcontext : (a.entries formatted).foldl (fun c e => setContext c e.1 e.2) [] = context :=
      congrArg World.context (EStateM.Result.ok.inj hrun).2
    have hkey := hadds key
    rw [← hcontext, get?_foldl_setContext (nodup_of_visits hvisits), get?_entries hvisits] at hkey
    simpa [idle] using hkey
  · intro hwrapped w
    refine ⟨_, execUpdateContextDecision_reads h hrows hloop hne hvisits, fun key => ?_⟩
    rw [get?_foldl_setContext (nodup_of_visits hvisits), get?_entries hvisits, hwrapped key]

end Run

theorem value_eq_nil_of_wrapped {rows : List DashboardSetting} {ks : List Str}
    {formatted : GoMap Str Str} (hnames : (rows.map DashboardSetting.name).Nodup)
    (hloop : formatLoop ks (blank rows) (blank rows).keys = some formatted)
    (hwrapped : Wrapped (settings rows) formatted) : ∀ row ∈ rows, row.value = [] := by
  intro row hrow
  have hkey := hwrapped (percent row.name)
  rw [unpercent_eq_some_iff.mpr rfl, Option.bind_some, lookup_settings hnames hrow] at hkey
  obtain ⟨k, hk⟩ := exists_of_lookup_formatLoop hloop hkey
  exact lookup_blank hk

theorem loads_iff {wf : Document} {a : Answers} {wl : Link} {script : Str}
    {rows : List DashboardSetting} (hnames : (rows.map DashboardSetting.name).Nodup)
    (hscript : RunsScript wf wl script)
    (horder : (formatLoop (a.visits (blank rows)) (blank rows) (blank rows).keys).isSome)
    (hvisits : ∀ dict, a.Visits dict) :
    (∀ w, Loads wf (a.reads rows) wl (settings rows) w) ↔
      rows ≠ [] ∧ (∀ row ∈ rows, row.value = []) ∧ InOrder (a.visits (blank rows)) (blank rows) := by
  obtain ⟨formatted, hloop⟩ := Option.isSome_iff_exists.mp horder
  by_cases hrows : rows = []
  · subst hrows
    refine iff_of_false (fun hloads => ?_) fun hright => hright.1 rfl
    exact not_loads_of_nil hscript (hloads idle)
  have hne := formatLoop_ne_empty hloop (blank_ne_empty hnames hrows)
  rw [loads_iff_wrapped hscript hrows hloop hne (hvisits formatted)]
  constructor
  · intro hwrapped
    have hempty := value_eq_nil_of_wrapped hnames hloop hwrapped
    rw [settings_eq_blank hempty] at hwrapped
    exact ⟨hrows, hempty, inOrder_of_wrapped hloop hwrapped⟩
  · rintro ⟨-, hempty, hinOrder⟩
    obtain ⟨formatted', hloop', hwrapped⟩ := exists_wrapped_iff.mpr hinOrder
    obtain rfl : formatted = formatted' := Option.some.inj (hloop.symm.trans hloop')
    rwa [settings_eq_blank hempty]

-- The settings of the script's scope come into the context exactly where there are some,
-- none of them has a value, and the range loop that puts their names between percent signs
-- takes them in order.
theorem loads_settings_iff {fold : Str → Str} {table : List DashboardSetting} {wf : Document}
    {a : Answers} {wl : Link} {script : Str} {rows : List DashboardSetting}
    (hrows : ofScope fold table script = rows) (hnames : (rows.map DashboardSetting.name).Nodup)
    (hscript : RunsScript wf wl script)
    (horder : (formatLoop (a.visits (blank rows)) (blank rows) (blank rows).keys).isSome)
    (hvisits : ∀ dict, a.Visits dict) :
    (∀ w, Loads wf (a.reads (ofScope fold table script)) wl (settings rows) w) ↔
      rows ≠ [] ∧ (∀ row ∈ rows, row.value = []) ∧ InOrder (a.visits (blank rows)) (blank rows) := by
  rw [hrows]
  exact loads_iff hnames hscript horder hvisits

-- The upload to ArchivesSpace, with one setting in its scope.
namespace ArchivesSpace

open AssignUUIDs (visiting visits_visiting)

def scriptLink (id fallbackLinkID : UUID) (manager : String) (config : LinkConfig) : Link where
  id := id
  manager := manager
  config := config
  description := ∅
  exitCodes := ∅
  fallbackJobStatus := "Failed"
  fallbackLinkID := fallbackLinkID
  group := ∅
  ends := false

def upload : Link :=
  scriptLink ⟨0xff89a530054046258884⟩ UUID.nil "linkTaskManagerDirectories"
    (.standardTaskConfig ⟨[], "upload-archivesspace_v0.0".toList, [], [], [], []⟩)

def choose : Link :=
  scriptLink ⟨0xa0db8294f02a4f49a557⟩ upload.id "linkTaskManagerReplacementDicFromChoice"
    (.microServiceChoiceReplacementDic [])

def links : GoMap UUID Link := (Finmap.singleton upload.id upload).insert choose.id choose

theorem lookup_upload : links.lookup upload.id = some upload := by
  rw [links, Finmap.lookup_insert_of_ne _ (by decide), Finmap.lookup_singleton_eq]

theorem links_id (id : UUID) (link : Link) (h : links.lookup id = some link) : link.id = id := by
  by_cases hid : id = choose.id
  · rw [links, hid, Finmap.lookup_insert] at h
    obtain rfl := Option.some.inj h
    exact hid.symm
  · rw [links, Finmap.lookup_insert_of_ne _ hid, GoMap.lookup_singleton] at h
    split_ifs at h with hupload
    obtain rfl := Option.some.inj h
    exact hupload.symm

def workflow : Document where
  chains := ∅
  links := links
  chains_id := Workflow.chains_id_empty
  links_id := links_id

def script : Str := "upload-archivesspace_v0.0".toList

theorem runsScript : RunsScript workflow choose script :=
  ⟨by decide, upload, _, lookup_upload, rfl, rfl⟩

def name : Str := "username".toList

def username (value : Str) : DashboardSetting := ⟨name, value, script⟩

-- A setting of the scope, and one of another.
def table (value : Str) : List DashboardSetting :=
  [username value, ⟨"checksum_type".toList, "sha256".toList, []⟩]

theorem ofScope_table (value : Str) : ofScope (fun s => s) (table value) script = [username value] := by
  rw [ofScope, table, List.filter_cons_of_pos (by simp [username]),
    List.filter_cons_of_neg (by decide), List.filter_nil]

theorem nodup_username (value : Str) : ([username value].map DashboardSetting.name).Nodup :=
  List.nodup_singleton _

theorem inOrder_username (value : Str) : InOrder [name] (blank [username value]) := by
  have hkeys : [name].toFinset = (blank [username value]).keys := by
    change _ = ((∅ : GoMap Str Str).insert name []).keys
    decide
  refine ⟨List.nodup_singleton _, hkeys, ?_⟩
  intro front k back hcut hmem
  have hk : k ∈ front ++ k :: back := List.mem_append_right front List.mem_cons_self
  rw [← hcut, List.mem_singleton] at hk
  rw [← hkeys, hk] at hmem
  exact absurd (by simpa using hmem) (percent_ne name)

theorem formatLoop_username (value : Str) :
    (formatLoop [name] (blank [username value]) (blank [username value]).keys).isSome := by
  obtain ⟨formatted, hloop, -⟩ := exists_wrapped_iff.mpr (inOrder_username value)
  rw [hloop]
  rfl

theorem loads_settings_iff_username :
    Loads workflow ((visiting [name]).reads (ofScope (fun s => s) (table []) script)) choose
      (settings [username []]) idle := by
  refine (loads_settings_iff (ofScope_table []) (nodup_username []) runsScript
    (formatLoop_username []) (visits_visiting _)).mpr ⟨List.cons_ne_nil _ _, ?_, inOrder_username []⟩
    idle
  intro row hrow
  rw [List.mem_singleton.mp hrow, username]

theorem value_lost :
    ¬ ∀ (fold : Str → Str) (table : List DashboardSetting) (wf : Document) (a : Answers) (wl : Link)
      (script : Str), ((ofScope fold table script).map DashboardSetting.name).Nodup →
      RunsScript wf wl script →
      (formatLoop (a.visits (blank (ofScope fold table script))) (blank (ofScope fold table script))
        (blank (ofScope fold table script)).keys).isSome →
      (∀ dict, a.Visits dict) → ∀ w, Loads wf (a.reads (ofScope fold table script)) wl
        (settings (ofScope fold table script)) w := by
  intro h
  have hloads := h (fun s => s) (table "test".toList) workflow (visiting [name]) choose script
  rw [ofScope_table] at hloads
  have hiff := loads_iff (nodup_username "test".toList) runsScript
    (formatLoop_username "test".toList) (visits_visiting [name])
  have hright := hiff.mp (hloads (nodup_username _) runsScript (formatLoop_username _)
    (visits_visiting [name]))
  have hvalue := hright.2.1 (username "test".toList) List.mem_cons_self
  revert hvalue
  decide

end ArchivesSpace

end Ccp
