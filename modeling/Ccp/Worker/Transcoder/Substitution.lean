import Ccp.Lib.PosixPath
import Ccp.Lib.Substitution
import Ccp.Replacement.Simultaneous
import Ccp.Worker.Transcoder

namespace Ccp.ReplacementDict

open Lib Worker

-- The arguments of normalize.py that its dictionary is made of.
structure NormalizeArgs where
  purpose : Str
  fileUUID : Str
  filePath : Str
  sipPath : Str
  taskUUID : Str

-- What the name of the output begins and ends with, and where it goes.
structure Output where
  before : Str
  after : Str
  directory : Str

def output (opts : NormalizeArgs) : Option Output :=
  if occursIn "preservation".toList opts.purpose then
    some ⟨[], '-' :: opts.taskUUID, PosixPath.dirname opts.filePath ++ ['/']⟩
  else if occursIn "access".toList opts.purpose then
    some ⟨opts.fileUUID ++ ['-'], [],
      PosixPath.join (PosixPath.join opts.sipPath "DIP".toList) "objects".toList ++ ['/']⟩
  else if occursIn "thumbnail".toList opts.purpose then
    some ⟨[], opts.fileUUID, PosixPath.join opts.sipPath "thumbnails".toList ++ ['/']⟩
  else none

def outputItems (opts : NormalizeArgs) (out : Output) : List (Str × Str) :=
  let filename := (PosixPath.splitext (PosixPath.basename opts.filePath)).1
  let outputFilename := out.before ++ filename ++ out.after
  [("%outputDirectory%".toList, out.directory),
    ("%prefix%".toList, out.before),
    ("%postfix%".toList, out.after),
    ("%outputFileName%".toList, outputFilename),
    ("%outputFilePath%".toList, PosixPath.join out.directory outputFilename)]

-- None for a purpose that is not supported.
def getReplacementDict (opts : NormalizeArgs) (rd : ReplacementDict) : Option ReplacementDict :=
  (output opts).map fun out => assign rd (outputItems opts out)

-- The dictionaries that the scripts of the worker make.
inductive Built (config : DictsConfig) : ReplacementDict → Prop
  | frommodel {type_ : ReplacementType} {sip : Option UnitRow} {file_ : Option FileRow}
      {expandPath : Bool} {rd : ReplacementDict}
      (h : frommodel config type_ sip file_ expandPath = some rd) : Built config rd
  | normalize {opts : NormalizeArgs} {rd rd' : ReplacementDict} (h : Built config rd)
      (hget : getReplacementDict opts rd = some rd') : Built config rd'
  | location {rd : ReplacementDict} {outputLocation : Option Str} (h : Built config rd) :
      Built config (Transcoder.addLocation rd (Transcoder.located rd outputLocation))

-- The simultaneous substitution into a text whose places are marked, in whatever order the
-- entries come. In every turn of the loop the places that are replaced are those the text had
-- for the key, so that nothing is replaced in a value that was put in.
structure Simultaneous (rd : ReplacementDict) (s : Str) (t : List (Piece Char)) : Prop where
  places : text t = s
  result : ∀ order : ReplacementDict, order.Perm rd → replace order s = fill (Dict.get? rd) t
  turns : ∀ (front : ReplacementDict) (key v : Str) (back : ReplacementDict),
    (front ++ (key, v) :: back).Perm rd → ∀ new,
      replaceAll (replace front s) key new = fill (Dict.get? (front ++ [(key, new)])) t

section Built

variable {config : DictsConfig} {rd : ReplacementDict}

-- The commands that a command has for its verification and its event detail use its dictionary.
mutual

theorem built_init {rd : ReplacementDict} (h : Built config rd) (command : Transcoder.FPCommand) :
    Built config (Transcoder.init command rd).2 := by
  cases command with
  | mk command type out verification eventDetail =>
      rw [Transcoder.init]
      exact built_initOption (built_initOption (.location h) verification) eventDetail

theorem built_initOption {rd : ReplacementDict} (h : Built config rd)
    (command : Option Transcoder.FPCommand) :
    Built config (Transcoder.initOption command rd).2 := by
  cases command with
  | none => exact h
  | some command => exact built_init h command

end

theorem nodup_assign (h : (rd.map Prod.fst).Nodup) (items : List (Str × Str)) :
    ((assign rd items).map Prod.fst).Nodup :=
  Dict.keys_foldl_set_nodup Prod.fst Prod.snd items h

theorem Built.nodup (h : Built config rd) : (rd.map Prod.fst).Nodup := by
  induction h with
  | @frommodel type_ sip file_ expandPath rd h =>
      simp only [ReplacementDict.frommodel, Option.bind_eq_bind, Option.bind_eq_some_iff, Option.pure_def,
        Option.some.injEq] at h
      obtain ⟨sip', -, ⟨unitItems, sipdir⟩, -, items, -, rfl⟩ := h
      have hempty : (([] : ReplacementDict).map Prod.fst).Nodup := List.nodup_nil
      exact nodup_assign (nodup_assign (nodup_assign hempty _) _) _
  | normalize _ hget ih =>
      obtain ⟨out, -, rfl⟩ := Option.map_eq_some_iff.mp hget
      exact nodup_assign ih _
  | @location rd outputLocation _ ih =>
      cases Transcoder.located rd outputLocation with
      | none => exact ih
      | some path => exact Dict.keys_set_nodup ih _ path

end Built

section Substitution

variable {config : DictsConfig} {rd : ReplacementDict} {s : Str} {t : List (Piece Char)}

theorem assign_eq_get? (h : (rd.map Prod.fst).Nodup) : Lib.assign rd = Dict.get? rd := by
  funext key
  ext v
  rw [assign_eq_some_iff h, Dict.get?_eq_some_iff h]

theorem simultaneous_iff (h : (rd.map Prod.fst).Nodup) : Simultaneous rd s t ↔ AtOnce rd s t := by
  have hturn {front back : ReplacementDict} {key v : Str} (horder : (front ++ (key, v) :: back).Perm rd)
      (new : Str) : Lib.assign (front ++ [(key, new)]) = Dict.get? (front ++ [(key, new)]) := by
    refine assign_eq_get? ?_
    have hkeys : ((front ++ (key, v) :: back).map Prod.fst).Nodup := (horder.map Prod.fst).nodup_iff.mpr h
    have hsub : ((front ++ [(key, new)]).map Prod.fst).Sublist ((front ++ (key, v) :: back).map Prod.fst) := by
      simp only [List.map_append, List.map_cons, List.map_nil]
      exact List.Sublist.append_left (List.singleton_sublist.mpr List.mem_cons_self) _
    exact hkeys.sublist hsub
  constructor
  · rintro ⟨hplaces, hresult, hturns⟩
    refine ⟨hplaces, ?_, fun front e back horder new => ?_⟩
    · rw [assign_eq_get? h]
      exact hresult
    · rw [hturn horder]
      exact hturns front e.1 e.2 back horder new
  · rintro ⟨hplaces, hresult, hturns⟩
    refine ⟨hplaces, ?_, fun front key v back horder new => ?_⟩
    · rw [← assign_eq_get? h]
      exact hresult
    · rw [← hturn horder]
      exact hturns front (key, v) back horder new

-- Whether the keys are replaced all at once in a text.
theorem substituted_iff (h : Built config rd) (s : Str) :
    (∃ t, Simultaneous rd s t) ↔ ∃ t, text t = s ∧ Unmixed rd t := by
  simp only [simultaneous_iff h.nodup, atOnce_iff h.nodup]

end Substitution

section Example

-- The configuration of a host.
def shared : DictsConfig where
  sharedDirectory := "/sd/".toList
  processingDirectory := "/sd/cp/".toList
  rejectedDirectory := "/sd/rejected/".toList
  watchDirectory := "/sd/wd/".toList
  cwd := "/".toList

-- A text that is one key, of which neither it nor its value has another key in it.
theorem unmixed_slot {rd : ReplacementDict} (hnodup : (rd.map Prod.fst).Nodup) {key value : Str}
    (hmem : (key, value) ∈ rd) (hself : parts key key = ([], [[]]))
    (h : ∀ e ∈ rd, key ≠ e.1 → parts key e.1 = (key, []) ∧ parts value e.1 = (value, [])) :
    Unmixed rd [.slot key] := by
  rintro front e ⟨part, hperm, hsub⟩
  have hkeys := (hperm.map Prod.fst).nodup_iff.mp (hnodup.sublist (hsub.map Prod.fst))
  rw [List.map_append, List.nodup_append] at hkeys
  obtain ⟨hfront, -, hdistinct⟩ := hkeys
  have hin : ∀ d ∈ front ++ [e], d ∈ rd := fun d hd => hsub.subset (hperm.mem_iff.mpr hd)
  have hslot : fill (Lib.assign front) [.slot key] = (Lib.assign front key).getD key :=
    List.append_nil _
  rw [Separate, hslot, slotParts]
  by_cases hkey : key = e.1
  · have hnone : Lib.assign front key = none := by
      refine Option.eq_none_iff_forall_ne_some.mpr fun v hv => ?_
      have hmem' := (assign_eq_some_iff hfront key v).mp hv
      exact hdistinct key (List.mem_map.mpr ⟨_, hmem', rfl⟩) e.1 (List.mem_singleton_self _) hkey
    rw [if_pos hkey, hnone, ← hkey]
    exact hself
  · obtain ⟨hplain, hvalue⟩ := h e (hin e (List.mem_append_right _ (List.mem_singleton_self e))) hkey
    rw [if_neg hkey]
    cases hv : Lib.assign front key with
    | none =>
        exact hplain.trans (Prod.ext (List.append_nil key).symm rfl)
    | some v =>
        have hmem' := hin _ (List.mem_append_left _ ((assign_eq_some_iff hfront key v).mp hv))
        obtain rfl : v = value := Option.some.inj
          (((assign_eq_some_iff hnodup key v).mpr hmem').symm.trans ((assign_eq_some_iff hnodup key value).mpr hmem))
        exact hvalue.trans (Prod.ext (List.append_nil v).symm rfl)

theorem shared_substituted : ∃ rd, frommodel shared .file none none true = some rd ∧
    ∃ t, Simultaneous rd "%tmpDirectory%".toList t := by
  have hkeys : ∀ rd ∈ frommodel shared .file none none true,
      ("%tmpDirectory%".toList, "/sd/tmp/".toList) ∈ rd ∧ ∀ e ∈ rd, "%tmpDirectory%".toList ≠ e.1 →
        parts "%tmpDirectory%".toList e.1 = ("%tmpDirectory%".toList, []) ∧
          parts "/sd/tmp/".toList e.1 = ("/sd/tmp/".toList, []) := by
    decide +kernel
  obtain ⟨rd, hrd⟩ : ∃ rd, frommodel shared .file none none true = some rd := ⟨_, rfl⟩
  have hbuilt : Built shared rd := .frommodel hrd
  obtain ⟨hmem, hother⟩ := hkeys rd hrd
  have hunmixed : Unmixed rd [.slot "%tmpDirectory%".toList] :=
    unmixed_slot hbuilt.nodup hmem (by decide +kernel) hother
  exact ⟨rd, hrd, (substituted_iff hbuilt "%tmpDirectory%".toList).mpr ⟨_, rfl, hunmixed⟩⟩

-- A file whose original name is that of a key.
def photo : FileRow where
  uuid := UUID.nil
  sip := .row ⟨UUID.nil, some "/s/".toList⟩
  transfer := .null
  originallocation := "%transferDirectory%objects/%fileName%.jpg".toList
  currentlocation := some "%transferDirectory%objects/_fileName_.jpg".toList
  filegrpuse := "original".toList

theorem photo_replaced : ∃ rd, frommodel shared .file none (some photo) true = some rd ∧
    Dict.get? rd "%originalLocation%".toList = some "/s/objects/%fileName%.jpg".toList ∧
    replace rd "%originalLocation%".toList = "/s/objects/_fileName_.jpg".toList ∧
    ¬ ∃ t, Simultaneous rd "%originalLocation%".toList t := by
  have hmade : (frommodel shared .file none (some photo) true).map (fun rd =>
      (Dict.get? rd "%originalLocation%".toList, replace rd "%originalLocation%".toList,
        replace rd.reverse "%originalLocation%".toList)) =
      some (some "/s/objects/%fileName%.jpg".toList, "/s/objects/_fileName_.jpg".toList,
        "/s/objects/%fileName%.jpg".toList) := by
    decide +kernel
  obtain ⟨rd, hrd, hvalues⟩ := Option.map_eq_some_iff.mp hmade
  simp only [Prod.mk.injEq] at hvalues
  obtain ⟨hget, hreplace, hreverse⟩ := hvalues
  refine ⟨rd, hrd, hget, hreplace, ?_⟩
  rintro ⟨t, ht⟩
  have hsame : replace rd "%originalLocation%".toList = replace rd.reverse "%originalLocation%".toList :=
    (ht.result rd (List.Perm.refl rd)).trans (ht.result rd.reverse (List.reverse_perm rd)).symm
  rw [hreplace, hreverse] at hsame
  revert hsame
  decide

end Example

end Ccp.ReplacementDict
