import AmdGpuEp.Amdgpu.Factory
import AmdGpuEp.MIGraphX.SessionOptions

/-!
# Options that are handed on

The constructor of `ExecutionProvider` in `gpu_ep.cc` parses the options that are for the amdgpu
provider, and makes a session configuration of all other entries. Where the profile asks for
MIGraphX, the options that were set are printed, and added to it under the names that the
MIGraphX provider reads them by.

A device, a switch and a text come back as they were. A path does not: `cache_dir` is extracted
from a stream here, as a word or as what stands between quotes, while the MIGraphX provider
takes its whole text.

Results:
1. `mem_migraphxEntries`: the configuration that the backend is created with.
2. `optionsForwarded_iff`: when options have the effect that they have when they are given to
   the MIGraphX provider.
3. `spacedPath_refused`: a directory with a space in its name.
-/

namespace AmdGpuEp.Amdgpu

/-! ## Options -/

/-- The options that are handed on, in the order in which they are. -/
inductive BackendOption
  | deviceId
  | cacheDir
  | disableCaching
  | forceRecompile
  | exhaustiveTune
  | mlssUseSpecificOps
  deriving DecidableEq, Repr

namespace BackendOption

def all : List BackendOption :=
  [deviceId, cacheDir, disableCaching, forceRecompile, exhaustiveTune, mlssUseSpecificOps]

/-- The constants of `gpu_options.h`. -/
def name : BackendOption → String
  | deviceId => "device_id"
  | cacheDir => "cache_dir"
  | disableCaching => "disable_caching"
  | forceRecompile => "force_recompile"
  | exhaustiveTune => "exhaustive_tune"
  | mlssUseSpecificOps => "mlss_use_specific_ops"

/-- The option of the MIGraphX provider that it is handed on to. -/
def target : BackendOption → MIGraphX.ProviderOption
  | deviceId => .deviceId
  | cacheDir => .cacheDir
  | disableCaching => .disableCaching
  | forceRecompile => .forceRecompile
  | exhaustiveTune => .exhaustiveTune
  | mlssUseSpecificOps => .mlssUseSpecificOps

end BackendOption

/-- The fields of `ProviderInfo`. -/
inductive ProviderOption
  | profile
  | forwarded (o : BackendOption)
  deriving DecidableEq, Repr

namespace ProviderOption

/-- The options, in the order in which their parsers are added. -/
def all : List ProviderOption :=
  [profile, forwarded .deviceId, forwarded .disableCaching, forwarded .cacheDir,
    forwarded .forceRecompile, forwarded .exhaustiveTune, forwarded .mlssUseSpecificOps]

def name : ProviderOption → String
  | profile => "profile"
  | forwarded o => o.name

/-- The types of the fields. All but the profile are `std::optional`. -/
def Value : ProviderOption → Type
  | profile => Profile
  | forwarded o => Option o.target.Value

end ProviderOption

/-- The value parser of `profile`. -/
def parseProfile (value : String) : Option Profile :=
  if lowerCase value = "auto" ∨ value = "0" ∨ value = "" then some .auto
  else if lowerCase value = "eager" ∨ value = "1" then some .eager
  else if lowerCase value = "optimize" ∨ value = "2" then some .optimized
  else if lowerCase value = "migraphx" ∨ value = "3" then some .migraphx
  else if lowerCase value = "directml" ∨ value = "4" then some .directML
  else if lowerCase value = "llm" ∨ value = "5" then some .llm
  else none

/-- What the text of an option is read as, where it is read at all. -/
def parseBackendOption : (o : BackendOption) → String → Option o.target.Value
  | .deviceId, value => tryParseInt value
  | .cacheDir, value => tryParsePath value
  | .disableCaching, value => tryParseBool value
  | .forceRecompile, value => tryParseBool value
  | .exhaustiveTune, value => tryParseBool value
  | .mlssUseSpecificOps, value => some value

def parseValue : (o : ProviderOption) → String → Option o.Value
  | .profile, value => parseProfile value
  | .forwarded o, value => (parseBackendOption o value).map some

/-- `ProviderInfo{}` -/
def initialValue : (o : ProviderOption) → o.Value
  | .profile => Profile.auto
  | .forwarded _ => none

/-- The parsers that `ProviderInfo` adds. -/
def optionsParser : ProviderOptionsParser ProviderOption where
  options := ProviderOption.all
  name := ProviderOption.name
  Value := ProviderOption.Value
  parseValue := parseValue
  complete o := by
    cases o with
    | profile => decide
    | forwarded o => cases o <;> decide
  names_nodup := by decide

abbrev ProviderInfo : Type :=
  (o : ProviderOption) → o.Value

/-- An option that is handed on, if it was set. -/
def setOption (info : ProviderInfo) (o : BackendOption) : Option o.target.Value :=
  info (.forwarded o)

/-! ## The constructor -/

/-- `kMIGraphXBackend` -/
def kMIGraphXBackend : String :=
  "migraphx"

/-- `AddSessionConfigEntry`: what was there under the key is replaced. -/
def addSessionConfigEntry (entries : List (String × String)) (key value : String) :
    List (String × String) :=
  entries.filter (fun entry => entry.1 ≠ key) ++ [(key, value)]

/-- The loop over the entries of the configuration: the options of the provider, and the
configuration of the backend. -/
def splitEntries (epName : String) (entries : List (String × String)) :
    List (String × String) × List (String × String) :=
  entries.foldl (fun (options, rest) (key, value) =>
    match afterStart (epStart epName) key with
    | some name => (emplace options name value, rest)
    | none => (options, addSessionConfigEntry rest key value)) ([], [])

/-- What is printed of an option. -/
def print : (o : BackendOption) → o.target.Value → String
  | .deviceId, value => printInt value
  | .cacheDir, value => value
  | .disableCaching, value => printBool value
  | .forceRecompile, value => printBool value
  | .exhaustiveTune, value => printBool value
  | .mlssUseSpecificOps, value => value

/-- `get_name` -/
def backendKey (o : BackendOption) : String :=
  "ep." ++ kMIGraphXBackend ++ "." ++ o.target.name

/-- `create_migraphx_backend` up to the call of the factory. -/
def migraphxEntries (info : ProviderInfo) (entries : List (String × String)) :
    List (String × String) :=
  BackendOption.all.foldl (fun entries o =>
    match setOption info o with
    | some value => addSessionConfigEntry entries (backendKey o) (print o value)
    | none => entries) entries

/-- The backend that the profile asks for, and the configuration that it is created with. -/
def createBackend (info : ProviderInfo) (rest : List (String × String)) :
    Backend × List (String × String) :=
  match Profile.backend (info .profile) with
  | .migraphx => (.migraphx, migraphxEntries info rest)
  | backend => (backend, rest)

/-- The constructor of `ExecutionProvider` as far as the backend. -/
def createExecutionProvider (epName : String) (entries : List (String × String)) :
    Except OptionError (Backend × List (String × String)) :=
  (optionsParser.parse (splitEntries epName entries).1 initialValue).map fun info =>
    createBackend info (splitEntries epName entries).2

/-! ## The property, and when it holds -/

/-- The key of an option of the provider. -/
def optionKey (epName : String) (o : ProviderOption) : String :=
  epStart epName ++ o.name

/-- The configuration of a session with a profile for MIGraphX. Its keys are those of a map. -/
structure Configuration (epName : String) where
  entries : List (String × String)
  keys_nodup : (entries.map Prod.fst).Nodup
  profile : ∀ text, (optionKey epName .profile, text) ∈ entries →
    (parseProfile text).map Profile.backend = some .migraphx

variable {epName : String}

/-- The text that is given for an option. -/
def Configuration.Given (config : Configuration epName) (o : BackendOption) (text : String) :
    Prop :=
  (optionKey epName (.forwarded o), text) ∈ config.entries

/-- The backend is created with a configuration in which each option that was given says what it
says when the MIGraphX provider reads its text, and everything else is as it was. -/
structure HandedOn (numDevices : Nat) (config : Configuration epName)
    (entries : List (String × String)) : Prop where
  readAlike : ∀ o text, config.Given o text → ∃ printed, (backendKey o, printed) ∈ entries ∧
    MIGraphX.parseValue numDevices o.target printed = MIGraphX.parseValue numDevices o.target text
  arrives : ∀ entries', entries'.Perm entries → ∀ provider,
    MIGraphX.createProvider kMIGraphXBackend numDevices entries' = .ok provider →
      ∀ o text, config.Given o text →
        MIGraphX.parseValue numDevices o.target text = some (provider o.target)
  untouched : ∀ key, (∀ o text, backendKey o = key → ¬ config.Given o text) → ∀ value,
    (key, value) ∈ entries ↔
      (key, value) ∈ config.entries ∧ afterStart (epStart epName) key = none

/-- The directories that the MIGraphX provider takes are taken, and a session that is created is one
of the MIGraphX provider with the same options. -/
structure OptionsForwarded (numDevices : Nat) (config : Configuration epName) : Prop where
  accepted : ∀ text dir, config.Given .cacheDir text →
    MIGraphX.parseValue numDevices .cacheDir text = some dir →
      parseBackendOption .cacheDir text = some dir
  handedOn : ∀ backend entries,
    createExecutionProvider epName config.entries = .ok (backend, entries) →
      backend = .migraphx ∧ HandedOn numDevices config entries

/-- The text is a word, and begins with no quote. -/
def IsPlainWord (text : String) : Prop :=
  text ≠ "" ∧ text.toList.head? ≠ some '"' ∧ ∀ c ∈ text.toList, isSpace c = false

/-! ## The configuration of the backend -/

namespace OptionForwardingLemmas

theorem mem_addSessionConfigEntry {entries : List (String × String)} {key value : String}
    {entry : String × String} :
    entry ∈ addSessionConfigEntry entries key value ↔
      (entry ∈ entries ∧ entry.1 ≠ key) ∨ entry = (key, value) := by
  rw [addSessionConfigEntry, List.mem_append, List.mem_filter, List.mem_singleton,
    decide_eq_true_iff]

/-- One entry that is not for the provider. -/
def addRest (epName : String) (rest : List (String × String)) (entry : String × String) :
    List (String × String) :=
  match afterStart (epStart epName) entry.1 with
  | some _ => rest
  | none => addSessionConfigEntry rest entry.1 entry.2

theorem foldl_split (options rest entries : List (String × String)) :
    entries.foldl (fun (options, rest) (key, value) =>
        match afterStart (epStart epName) key with
        | some name => (emplace options name value, rest)
        | none => (options, addSessionConfigEntry rest key value)) (options, rest) =
      (entries.foldl (fun options (key, value) =>
        match afterStart (epStart epName) key with
        | some name => emplace options name value
        | none => options) options, entries.foldl (addRest epName) rest) := by
  induction entries generalizing options rest with
  | nil => rfl
  | cons entry entries ih =>
    rw [List.foldl_cons, List.foldl_cons, List.foldl_cons, addRest]
    dsimp only
    cases afterStart (epStart epName) entry.1 with
    | none => exact ih _ _
    | some name => exact ih _ _

theorem splitEntries_eq (epName : String) (entries : List (String × String)) :
    splitEntries epName entries =
      (collectOptions (afterStart (epStart epName)) entries,
        entries.foldl (addRest epName) []) := by
  rw [splitEntries, foldl_split]
  refine congrArg₂ Prod.mk (foldl_eq_collectOptions (fun options key value => ?_) entries) rfl
  dsimp only
  cases afterStart (epStart epName) key with
  | none => rfl
  | some name => rfl

/-- Entries with distinct keys do not replace each other. -/
theorem mem_foldl_addRest {entries rest : List (String × String)}
    (hnodup : (entries.map Prod.fst).Nodup)
    (hrest : ∀ entry ∈ rest, entry.1 ∉ entries.map Prod.fst) {entry : String × String} :
    entry ∈ entries.foldl (addRest epName) rest ↔
      entry ∈ rest ∨ (entry ∈ entries ∧ afterStart (epStart epName) entry.1 = none) := by
  induction entries generalizing rest with
  | nil => simp
  | cons first entries ih =>
    rw [List.map_cons, List.nodup_cons] at hnodup
    rw [List.foldl_cons, List.mem_cons]
    cases hname : afterStart (epStart epName) first.1 with
    | some name =>
      have hsame : addRest epName rest first = rest := by rw [addRest, hname]
      rw [hsame, ih hnodup.2 fun e he hmem => hrest e he (List.mem_cons_of_mem _ hmem)]
      refine or_congr_right (and_congr_left fun hnone => (or_iff_right ?_).symm)
      rintro rfl
      rw [hname] at hnone
      cases hnone
    | none =>
      have hadd : addRest epName rest first = addSessionConfigEntry rest first.1 first.2 := by
        rw [addRest, hname]
      have hkept : ∀ e ∈ rest, e.1 ≠ first.1 := fun e he heq =>
        hrest e he (heq ▸ List.mem_cons_self)
      have hrest' : ∀ e ∈ addRest epName rest first, e.1 ∉ entries.map Prod.fst := by
        intro e he
        rw [hadd, mem_addSessionConfigEntry] at he
        rcases he with ⟨he, -⟩ | rfl
        · exact fun hmem => hrest e he (List.mem_cons_of_mem _ hmem)
        · exact hnodup.1
      rw [ih hnodup.2 hrest', hadd, mem_addSessionConfigEntry,
        and_iff_left_of_imp (hkept entry), or_assoc, or_and_right]
      refine or_congr_right (or_congr_left ?_)
      refine (and_iff_left_of_imp ?_).symm
      rintro rfl
      exact hname

/-- One option that is handed on, if it was set. -/
def handOn (info : ProviderInfo) (entries : List (String × String)) (o : BackendOption) :
    List (String × String) :=
  match setOption info o with
  | some value => addSessionConfigEntry entries (backendKey o) (print o value)
  | none => entries

theorem mem_handOn (info : ProviderInfo) {entries : List (String × String)} {o : BackendOption}
    {entry : String × String} :
    entry ∈ handOn info entries o ↔
      (∃ value, setOption info o = some value ∧ entry = (backendKey o, print o value)) ∨
      (entry ∈ entries ∧ (backendKey o = entry.1 → setOption info o = none)) := by
  unfold handOn
  cases setOption info o with
  | none => simp
  | some value =>
    rw [mem_addSessionConfigEntry, or_comm]
    simp [eq_comm]

/-- What is handed on of some of the options. -/
theorem mem_foldl_handOn (info : ProviderInfo) {options : List BackendOption}
    (hnodup : (options.map backendKey).Nodup) {entries : List (String × String)}
    {entry : String × String} :
    entry ∈ options.foldl (handOn info) entries ↔
      (∃ o ∈ options, ∃ value, setOption info o = some value ∧
        entry = (backendKey o, print o value)) ∨
      (entry ∈ entries ∧
        ∀ o ∈ options, backendKey o = entry.1 → setOption info o = none) := by
  induction options generalizing entries with
  | nil => simp
  | cons o options ih =>
    rw [List.map_cons, List.nodup_cons] at hnodup
    have hother : (∃ value, setOption info o = some value ∧
        entry = (backendKey o, print o value)) →
          ∀ o' ∈ options, backendKey o' = entry.1 → setOption info o' = none := by
      rintro ⟨value, -, rfl⟩ o' ho' heq
      have hkey : backendKey o' = backendKey o := heq
      exact absurd (hkey ▸ List.mem_map_of_mem ho') hnodup.1
    rw [List.foldl_cons, ih hnodup.2, mem_handOn, List.exists_mem_cons_iff,
      List.forall_mem_cons, or_and_right, and_iff_left_of_imp hother, ← or_assoc, and_assoc,
      or_comm (b := ∃ value, _)]

end OptionForwardingLemmas

open OptionForwardingLemmas

/-- The configuration that the backend is created with: the options that were set, and the entries
whose keys are not those of such options. -/
theorem mem_migraphxEntries (info : ProviderInfo) {entries : List (String × String)}
    {entry : String × String} :
    entry ∈ migraphxEntries info entries ↔
      (∃ o value, setOption info o = some value ∧ entry = (backendKey o, print o value)) ∨
      (entry ∈ entries ∧ ∀ o, backendKey o = entry.1 → setOption info o = none) := by
  have hall : ∀ o, o ∈ BackendOption.all := by
    intro o
    cases o <;> decide
  refine (mem_foldl_handOn info (by decide)).trans ?_
  simp only [hall, true_and, forall_true_left]

namespace OptionForwardingLemmas

variable {config : Configuration epName} {numDevices : Nat}

theorem backendKey_injective {o o' : BackendOption} (h : backendKey o = backendKey o') :
    o = o' := by
  have hnodup : (BackendOption.all.map backendKey).Nodup := by decide
  refine List.inj_on_of_nodup_map hnodup ?_ ?_ h
  · cases o <;> decide
  · cases o' <;> decide

/-- The keys under which the MIGraphX provider finds its option. -/
theorem optionName_eq_target {key : String} {o : BackendOption} :
    MIGraphX.optionName kMIGraphXBackend key = some o.target.name ↔ key = backendKey o := by
  have hstart : epStart kMIGraphXBackend ++ o.target.name = backendKey o := by
    cases o <;> decide
  have hplain : (afterStart "ep." o.target.name).isSome = false := by
    cases o <;> decide
  unfold MIGraphX.optionName
  cases hkey : afterStart (epStart kMIGraphXBackend) key with
  | some name =>
    rw [afterStart_eq_some.1 hkey, ← hstart]
    dsimp only
    have hcancel : ∀ u v : String, epStart kMIGraphXBackend ++ u = epStart kMIGraphXBackend ++ v ↔
        u = v := by
      intro u v
      rw [← String.toList_inj, String.toList_append, String.toList_append,
        List.append_cancel_left_eq, String.toList_inj]
    rw [Option.some_inj, hcancel]
  | none =>
    have hne : key ≠ backendKey o := by
      rintro rfl
      rw [afterStart_eq_some.2 hstart.symm] at hkey
      cases hkey
    refine iff_of_false ?_ hne
    dsimp only
    split
    · next hdot =>
      intro heq
      rw [Option.some.inj heq, hplain] at hdot
      cases hdot
    · exact fun heq => by cases heq

/-- The texts that are given are the options of the loop. -/
theorem given_iff {o : ProviderOption} {text : String} :
    (o.name, text) ∈ (splitEntries epName config.entries).1 ↔
      (optionKey epName o, text) ∈ config.entries := by
  have hkey : ∀ key, afterStart (epStart epName) key = some o.name ↔ key = optionKey epName o :=
    fun key => afterStart_eq_some
  rw [splitEntries_eq]
  dsimp only
  exact mem_collectOptions hkey config.keys_nodup

theorem mem_rest {entry : String × String} :
    entry ∈ (splitEntries epName config.entries).2 ↔
      entry ∈ config.entries ∧ afterStart (epStart epName) entry.1 = none := by
  rw [splitEntries_eq]
  have hnone : ∀ e ∈ ([] : List (String × String)), e.1 ∉ config.entries.map Prod.fst :=
    fun e he => absurd he List.not_mem_nil
  rw [mem_foldl_addRest config.keys_nodup hnone]
  exact or_iff_right List.not_mem_nil

theorem options_nodup (epName : String) (entries : List (String × String)) :
    ((splitEntries epName entries).1.map Prod.fst).Nodup := by
  rw [splitEntries_eq]
  exact names_collectOptions_nodup (afterStart (epStart epName)) entries

variable {info : ProviderInfo}

/-- The profile is one for MIGraphX also where none is given. -/
theorem backend_of_parse
    (h : optionsParser.parse (splitEntries epName config.entries).1 initialValue = .ok info) :
    Profile.backend (info .profile) = .migraphx := by
  by_cases hgiven : ProviderOption.profile.name ∈
      (splitEntries epName config.entries).1.map Prod.fst
  · obtain ⟨⟨name, text⟩, hmem, hname⟩ := List.mem_map.1 hgiven
    obtain rfl : name = ProviderOption.profile.name := hname
    have hread : parseProfile text = some (info .profile) :=
      ProviderOptionsParser.value_of_parse (p := optionsParser) (i := .profile)
        (options_nodup _ _) h hmem
    have hbackend := config.profile text (given_iff.1 hmem)
    rw [hread] at hbackend
    exact Option.some.inj hbackend
  · have hkept : info .profile = initialValue .profile :=
      ProviderOptionsParser.kept_of_parse (p := optionsParser) (i := .profile) h hgiven
    rw [hkept]
    rfl

/-- A provider is created with the MIGraphX backend, and with the options that were read. -/
theorem exists_info_of_create {backend : Backend} {entries : List (String × String)}
    (h : createExecutionProvider epName config.entries = .ok (backend, entries)) :
    ∃ info : ProviderInfo,
      optionsParser.parse (splitEntries epName config.entries).1 initialValue = .ok info ∧
        backend = .migraphx ∧
          entries = migraphxEntries info (splitEntries epName config.entries).2 := by
  unfold createExecutionProvider at h
  cases hparse : optionsParser.parse (splitEntries epName config.entries).1 initialValue with
  | error e =>
    rw [hparse] at h
    cases h
  | ok info =>
    rw [hparse] at h
    have hcreate : createBackend info (splitEntries epName config.entries).2 =
        (backend, entries) := Except.ok.inj h
    unfold createBackend at hcreate
    rw [backend_of_parse hparse] at hcreate
    obtain ⟨rfl, rfl⟩ := Prod.mk.inj hcreate
    exact ⟨info, rfl, rfl, rfl⟩

/-- An option that is given is set to what its text is read as. -/
theorem setOption_of_given
    (h : optionsParser.parse (splitEntries epName config.entries).1 initialValue = .ok info)
    {o : BackendOption} {text : String} (hgiven : config.Given o text) :
    ∃ value, parseBackendOption o text = some value ∧ setOption info o = some value := by
  have hread : (parseBackendOption o text).map some = some (setOption info o) :=
    ProviderOptionsParser.value_of_parse (p := optionsParser) (i := .forwarded o)
      (options_nodup _ _) h (given_iff.2 hgiven)
  obtain ⟨value, hvalue, hset⟩ := Option.map_eq_some_iff.1 hread
  exact ⟨value, hvalue, hset.symm⟩

/-- An option that is not given is not set. -/
theorem setOption_eq_none
    (h : optionsParser.parse (splitEntries epName config.entries).1 initialValue = .ok info)
    {o : BackendOption} (hgiven : ∀ text, ¬ config.Given o text) : setOption info o = none := by
  refine ProviderOptionsParser.kept_of_parse (p := optionsParser) (i := .forwarded o) h ?_
  intro hmem
  obtain ⟨⟨name, text⟩, hoption, hname⟩ := List.mem_map.1 hmem
  obtain rfl : name = (ProviderOption.forwarded o).name := hname
  exact hgiven text (given_iff.1 hoption)

/-- What is printed of an option says what its text says. -/
theorem parseValue_print {o : BackendOption} {text : String} {value : o.target.Value}
    (hvalue : parseBackendOption o text = some value)
    (hword : o = .cacheDir → IsPlainWord text) (numDevices : Nat) :
    MIGraphX.parseValue numDevices o.target (print o value) =
      MIGraphX.parseValue numDevices o.target text := by
  have hbool : ∀ {text : String} {value : Bool}, tryParseBool text = some value →
      tryParseBool (printBool value) = tryParseBool text := fun h =>
    (tryParseBool_printed _).trans h.symm
  cases o with
  | deviceId =>
    have hint : tryParseInt text = some value := hvalue
    obtain ⟨hleast, hgreatest⟩ := bounds_of_tryParseInt hint
    have hprinted : tryParseInt (printInt value) = tryParseInt text :=
      (tryParseInt_printed hleast hgreatest).trans hint.symm
    change MIGraphX.parseDeviceId _ _ = MIGraphX.parseDeviceId _ _
    unfold MIGraphX.parseDeviceId
    exact congrArg _ hprinted
  | cacheDir =>
    have hpath : tryParsePath text = some value := hvalue
    rw [(tryParsePath_word text).2 (hword rfl)] at hpath
    rw [← Option.some.inj hpath]
    rfl
  | disableCaching => exact hbool hvalue
  | forceRecompile => exact hbool hvalue
  | exhaustiveTune => exact hbool hvalue
  | mlssUseSpecificOps =>
    have htext : some text = some value := hvalue
    rw [← Option.some.inj htext]
    rfl

/-- The configuration of the backend holds what is printed of an option that was set, and nothing
else under its key. -/
theorem mem_migraphxEntries_of_set {o : BackendOption} {value : o.target.Value}
    (hset : setOption info o = some value) {entries : List (String × String)} {printed : String} :
    (backendKey o, printed) ∈ migraphxEntries info entries ↔ printed = print o value := by
  rw [mem_migraphxEntries]
  constructor
  · rintro (⟨o', value', hset', heq⟩ | ⟨-, hnone⟩)
    · obtain ⟨hkey, rfl⟩ := Prod.mk.inj heq
      obtain rfl := backendKey_injective hkey
      rw [hset] at hset'
      rw [Option.some.inj hset']
    · rw [hnone o rfl] at hset
      cases hset
  · rintro rfl
    exact Or.inl ⟨o, value, hset, rfl⟩

/-- The MIGraphX provider finds what is printed, in whatever order its configuration is. -/
theorem arrives_of_set {o : BackendOption} {value : o.target.Value}
    (hset : setOption info o = some value) {rest entries : List (String × String)}
    (hperm : entries.Perm (migraphxEntries info rest)) {provider : MIGraphX.ProviderInfo}
    (hcreate : MIGraphX.createProvider kMIGraphXBackend numDevices entries = .ok provider) :
    MIGraphX.parseValue numDevices o.target (print o value) = some (provider o.target) := by
  have honly : ∀ printed, (backendKey o, printed) ∈ entries ↔ printed = print o value :=
    fun printed => hperm.mem_iff.trans (mem_migraphxEntries_of_set hset)
  have hoption : (o.target.name, print o value) ∈
      MIGraphX.providerOptions kMIGraphXBackend entries :=
    mem_collectOptions_of_unique (fun key => optionName_eq_target) ((honly _).2 rfl)
      fun printed => (honly printed).1
  obtain ⟨read, hparse, hkept, -⟩ := MIGraphX.SessionOptionsLemmas.member_eq hcreate
  have hplain : o.target ≠ .coalesceIo := by
    cases o <;> decide
  rw [hkept _ hplain]
  exact ProviderOptionsParser.value_of_parse (p := MIGraphX.optionsParser numDevices)
    (MIGraphX.names_nodup _ _) hparse hoption

end OptionForwardingLemmas

/-- Options have the effect that they have when they are given to the MIGraphX provider exactly when
the text of `cache_dir`, if it is given, is a word that begins with no quote. -/
theorem optionsForwarded_iff (numDevices : Nat) (config : Configuration epName) :
    OptionsForwarded numDevices config ↔
      ∀ text, config.Given .cacheDir text → IsPlainWord text := by
  constructor
  · intro h text hgiven
    exact (tryParsePath_word text).1 (h.accepted text text hgiven rfl)
  · intro hword
    refine ⟨fun text dir hgiven hdir => ?_, fun backend entries hcreate => ?_⟩
    · have htext : some text = some dir := hdir
      rw [← Option.some.inj htext]
      exact (tryParsePath_word text).2 (hword text hgiven)
    · obtain ⟨info, hparse, rfl, rfl⟩ := exists_info_of_create hcreate
      have hread : ∀ o text, config.Given o text → ∃ value, setOption info o = some value ∧
          MIGraphX.parseValue numDevices o.target (print o value) =
            MIGraphX.parseValue numDevices o.target text := by
        intro o text hgiven
        obtain ⟨value, hvalue, hset⟩ := setOption_of_given hparse hgiven
        refine ⟨value, hset, parseValue_print hvalue ?_ numDevices⟩
        rintro rfl
        exact hword text hgiven
      refine ⟨rfl, ?_, ?_, ?_⟩
      · intro o text hgiven
        obtain ⟨value, hset, hsame⟩ := hread o text hgiven
        exact ⟨print o value, (mem_migraphxEntries_of_set hset).2 rfl, hsame⟩
      · intro entries' hperm provider hprovider o text hgiven
        obtain ⟨value, hset, hsame⟩ := hread o text hgiven
        exact hsame.symm.trans (arrives_of_set hset hperm hprovider)
      · intro key hkey value
        have hunset : ∀ o, backendKey o = key → setOption info o = none := fun o ho =>
          setOption_eq_none hparse fun text hgiven => hkey o text ho hgiven
        rw [mem_migraphxEntries, mem_rest]
        refine (or_iff_right ?_).trans (and_iff_left hunset)
        rintro ⟨o, v, hset, heq⟩
        rw [hunset o (Prod.mk.inj heq).1.symm] at hset
        cases hset

/-- A session that keeps its compiled models in a directory with a space in its name. -/
def spacedPath : Configuration "amdgpu" where
  entries := [("ep.amdgpu.profile", "migraphx"), ("ep.amdgpu.cache_dir", "/my cache")]
  keys_nodup := by decide
  profile text h := by
    have hkey : optionKey "amdgpu" .profile = "ep.amdgpu.profile" := by decide
    rw [hkey] at h
    simp only [List.mem_cons, Prod.mk.injEq, List.not_mem_nil, or_false] at h
    obtain ⟨-, rfl⟩ := h.resolve_right fun heq => absurd heq.1 (by decide)
    decide

/-- The MIGraphX provider takes the directory, and the session is refused. -/
theorem spacedPath_refused : ¬ OptionsForwarded 1 spacedPath := by
  intro h
  have hkey : optionKey "amdgpu" (.forwarded .cacheDir) = "ep.amdgpu.cache_dir" := by decide
  have hgiven : spacedPath.Given .cacheDir "/my cache" := by
    rw [Configuration.Given, hkey]
    exact List.mem_cons_of_mem _ List.mem_cons_self
  have hread : tryParsePath "/my cache" = some "/my cache" := h.accepted _ _ hgiven rfl
  exact absurd hread (by decide)

end AmdGpuEp.Amdgpu
