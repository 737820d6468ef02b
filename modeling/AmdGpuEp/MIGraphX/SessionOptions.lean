import AmdGpuEp.Shared.ProviderOptions

/-!
# The options of a session

The constructor of `ExecutionProvider` in `mgx_ep.cc` takes the entries of the session's
configuration whose keys begin with its own name, and every other entry whose key begins with
`ep.`: there the keys of the EPContext options are expected. `ProviderInfo` of `mgx_info.cc`
refuses what it does not know, and its fields are copied into the members of the provider.

Results:
1. `mem_names_iff`: the names under which options arrive.
2. `optionsIsolated_iff`: when the options do not depend on those of other providers, and all of
   them arrive in the provider.
3. `otherProvider_disturbs`: an option of another provider.
-/

namespace AmdGpuEp.MIGraphX

/-! ## Options -/

inductive ComputeMode
  | eager
  | balanced
  | maximum
  deriving DecidableEq, Repr

/-- The fields of `ProviderInfo`. -/
inductive ProviderOption
  | deviceId
  | cacheDir
  | compileBatches
  | computeMode
  | contextFilePath
  | contextEmbedMode
  | contextEnable
  | contextNodeNamePrefix
  | externalInitializersFileName
  | enableFp16
  | enableBf16
  | enableFp8
  | enableInt8
  | int8UseNativeCalibrationTable
  | int8CalibrationTableName
  | exhaustiveTune
  | disableCaching
  | dumpSubgraphs
  | forceRecompile
  | hipGraphEnable
  | maxDynamicBatch
  | coalesceIo
  | mlssUseSpecificOps
  deriving DecidableEq, Repr

namespace ProviderOption

/-- The options, in the order in which their parsers are added. -/
def all : List ProviderOption :=
  [deviceId, cacheDir, compileBatches, computeMode, contextFilePath, contextEmbedMode,
    contextEnable, contextNodeNamePrefix, externalInitializersFileName, enableFp16, enableBf16,
    enableFp8, enableInt8, int8UseNativeCalibrationTable, int8CalibrationTableName,
    exhaustiveTune, disableCaching, dumpSubgraphs, forceRecompile, hipGraphEnable,
    maxDynamicBatch, coalesceIo, mlssUseSpecificOps]

/-- The constants of `mgx_options.h`, and the keys of ORT for EPContext nodes. -/
def name : ProviderOption → String
  | deviceId => "device_id"
  | cacheDir => "cache_dir"
  | compileBatches => "compile_batches"
  | computeMode => "compute_mode"
  | contextFilePath => "ep.context_file_path"
  | contextEmbedMode => "ep.context_embed_mode"
  | contextEnable => "ep.context_enable"
  | contextNodeNamePrefix => "ep.context_node_name_prefix"
  | externalInitializersFileName => "ep.context_model_external_initializers_file_name"
  | enableFp16 => "fp16_enable"
  | enableBf16 => "bf16_enable"
  | enableFp8 => "fp8_enable"
  | enableInt8 => "int8_enable"
  | int8UseNativeCalibrationTable => "int8_use_native_calibration_table"
  | int8CalibrationTableName => "int8_calibration_table_name"
  | exhaustiveTune => "exhaustive_tune"
  | disableCaching => "disable_caching"
  | dumpSubgraphs => "dump_subgraphs"
  | forceRecompile => "force_recompile"
  | hipGraphEnable => "hip_graph_enable"
  | maxDynamicBatch => "max_dynamic_batch"
  | coalesceIo => "coalesce_io"
  | mlssUseSpecificOps => "mlss_use_specific_ops"

/-- The types of the fields. A path is told by its text. -/
def Value : ProviderOption → Type
  | deviceId => Int
  | computeMode => ComputeMode
  | maxDynamicBatch => Nat
  | cacheDir | compileBatches | contextFilePath | contextNodeNamePrefix
  | externalInitializersFileName | int8CalibrationTableName | mlssUseSpecificOps => String
  | _ => Bool

end ProviderOption

/-- The value parser of `compute_mode`. -/
def parseComputeMode (value : String) : Option ComputeMode :=
  if lowerCase value = "eager" ∨ value = "0" then some .eager
  else if lowerCase value = "balanced" ∨ value = "50" then some .balanced
  else if lowerCase value = "maximum" ∨ value = "100" then some .maximum
  else none

/-- The value parser of `device_id`. -/
def parseDeviceId (numDevices : Nat) (value : String) : Option Int :=
  (tryParseInt value).filter fun id => 0 ≤ id && id < numDevices

/-- What a text is read as. -/
def parseValue (numDevices : Nat) : (o : ProviderOption) → String → Option o.Value
  | .deviceId, value => parseDeviceId numDevices value
  | .cacheDir, value => some value
  | .compileBatches, value => some value
  | .computeMode, value => parseComputeMode value
  | .contextFilePath, value => tryParsePath value
  | .contextEmbedMode, value => tryParseBool value
  | .contextEnable, value => tryParseBool value
  | .contextNodeNamePrefix, value => some value
  | .externalInitializersFileName, value => tryParsePath value
  | .enableFp16, value => tryParseBool value
  | .enableBf16, value => tryParseBool value
  | .enableFp8, value => tryParseBool value
  | .enableInt8, value => tryParseBool value
  | .int8UseNativeCalibrationTable, value => tryParseBool value
  | .int8CalibrationTableName, value => some value
  | .exhaustiveTune, value => tryParseBool value
  | .disableCaching, value => tryParseBool value
  | .dumpSubgraphs, value => tryParseBool value
  | .forceRecompile, value => tryParseBool value
  | .hipGraphEnable, value => tryParseBool value
  | .maxDynamicBatch, value => tryParseSize value
  | .coalesceIo, value => tryParseBool value
  | .mlssUseSpecificOps, value => some value

/-- `ProviderInfo{}`, and the members of a provider before anything is assigned to them. -/
def initialValue : (o : ProviderOption) → o.Value
  | .deviceId => (0 : Int)
  | .computeMode => ComputeMode.eager
  | .maxDynamicBatch => (0 : Nat)
  | .cacheDir | .compileBatches | .contextFilePath | .contextNodeNamePrefix
  | .externalInitializersFileName | .int8CalibrationTableName | .mlssUseSpecificOps => ""
  | .contextEmbedMode | .contextEnable | .enableFp16 | .enableBf16 | .enableFp8 | .enableInt8
  | .int8UseNativeCalibrationTable | .exhaustiveTune | .disableCaching | .dumpSubgraphs
  | .forceRecompile | .hipGraphEnable | .coalesceIo => false

/-- The parsers that `ProviderInfo` adds. -/
def optionsParser (numDevices : Nat) : ProviderOptionsParser ProviderOption where
  options := ProviderOption.all
  name := ProviderOption.name
  Value := ProviderOption.Value
  parseValue := parseValue numDevices
  complete o := by cases o <;> decide
  names_nodup := by decide

/-- `ProviderInfo`, and the members that an `ExecutionProvider` keeps it in. -/
abbrev ProviderInfo : Type :=
  (o : ProviderOption) → o.Value

/-! ## The constructor -/

/-- The name under which an entry of the configuration is an option, if it is one. -/
def optionName (epName key : String) : Option String :=
  match afterStart (epStart epName) key with
  | some name => some name
  | none => if (afterStart "ep." key).isSome then some key else none

/-- The loop over the entries of the configuration. -/
def providerOptions (epName : String) (entries : List (String × String)) :
    List (String × String) :=
  entries.foldl (fun options (key, value) =>
    match optionName epName key with
    | some name => emplace options name value
    | none => options) []

/-- The members that the constructor assigns to, in order. -/
def assigned : List ProviderOption :=
  [.deviceId, .enableFp16, .enableBf16, .enableFp8, .enableInt8, .exhaustiveTune,
    .mlssUseSpecificOps, .cacheDir, .int8UseNativeCalibrationTable, .int8CalibrationTableName,
    .dumpSubgraphs, .computeMode, .disableCaching, .forceRecompile, .contextEmbedMode,
    .contextEnable, .externalInitializersFileName, .contextFilePath, .contextNodeNamePrefix,
    .hipGraphEnable, .maxDynamicBatch, .compileBatches]

/-- The members behind the assignments. -/
def assignMembers (info : ProviderInfo) : ProviderInfo :=
  fun o => if o ∈ assigned then info o else initialValue o

/-- The constructor of `ExecutionProvider` as far as its options go. Variables of the environment
come later. -/
def createProvider (epName : String) (numDevices : Nat) (entries : List (String × String)) :
    Except OptionError ProviderInfo :=
  ((optionsParser numDevices).parse (providerOptions epName entries) initialValue).map
    assignMembers

/-! ## The property, and when it holds -/

/-- The key is one for another provider: `ep.`, its name, a dot, and the name of an option. -/
def isForeign (epName key : String) : Bool :=
  (afterStart (epStart epName) key).isNone &&
    (afterStart "ep." key).any fun rest => rest.toList.contains '.'

/-- The configuration without the entries for other providers. -/
def ownEntries (epName : String) (entries : List (String × String)) : List (String × String) :=
  entries.filter fun entry => !isForeign epName entry.1

/-- The provider is the same, if there is one, when the entries for other providers are left out,
and each of its members holds what its option is read as. -/
structure OptionsIsolated (epName : String) (numDevices : Nat) (entries : List (String × String)) :
    Prop where
  independent : (createProvider epName numDevices entries).toOption =
    (createProvider epName numDevices (ownEntries epName entries)).toOption
  effective : ∀ provider, createProvider epName numDevices entries = .ok provider →
    ∀ (o : ProviderOption) (text : String), (o.name, text) ∈ providerOptions epName entries →
      parseValue numDevices o text = some (provider o)

/-- An option of the provider is refused: its name is unknown, or its text is no value. -/
def RefusesOwn (epName : String) (numDevices : Nat) (entries : List (String × String)) : Prop :=
  ∃ entry ∈ providerOptions epName (ownEntries epName entries),
    ¬ (optionsParser numDevices).Accepts entry

/-- There is no entry for another provider, and inputs are not to be coalesced. -/
structure Undisturbed (epName : String) (entries : List (String × String)) : Prop where
  alone : ∀ entry ∈ entries, isForeign epName entry.1 = false
  not_coalesced : ∀ text, (ProviderOption.coalesceIo.name, text) ∈ providerOptions epName entries →
    tryParseBool text ≠ some true

/-! ## The entries that become options -/

theorem providerOptions_eq (epName : String) (entries : List (String × String)) :
    providerOptions epName entries = collectOptions (optionName epName) entries := by
  refine foldl_eq_collectOptions (fun options key value => ?_) entries
  dsimp only
  cases optionName epName key with
  | none => rfl
  | some name => rfl

/-- The names under which options arrive. -/
theorem mem_names_iff {epName : String} {entries : List (String × String)} {name : String} :
    name ∈ (providerOptions epName entries).map Prod.fst ↔
      ∃ entry ∈ entries, optionName epName entry.1 = some name := by
  rw [providerOptions_eq]
  exact mem_names_collectOptions

theorem names_nodup (epName : String) (entries : List (String × String)) :
    ((providerOptions epName entries).map Prod.fst).Nodup := by
  rw [providerOptions_eq]
  exact names_collectOptions_nodup (optionName epName) entries

namespace SessionOptionsLemmas

variable {epName : String} {numDevices : Nat} {entries : List (String × String)}

theorem optionName_of_foreign {key : String} (h : isForeign epName key = true) :
    optionName epName key = some key := by
  obtain ⟨hown, hdot⟩ := Bool.and_eq_true_iff.1 h
  unfold optionName
  rw [Option.isNone_iff_eq_none.1 hown]
  refine if_pos ?_
  cases hrest : afterStart "ep." key with
  | none =>
    rw [hrest] at hdot
    cases hdot
  | some rest => rfl

/-- No option has the name of one of another provider. -/
theorem name_not_foreign (epName : String) (o : ProviderOption) :
    isForeign epName o.name = false := by
  have hdot : ((afterStart "ep." o.name).any fun rest => rest.toList.contains '.') = false := by
    cases o <;> decide
  rw [isForeign, hdot, Bool.and_false]

/-- An entry for another provider is an option that is not accepted. -/
theorem exists_refused_of_foreign {entry : String × String} (hentry : entry ∈ entries)
    (hforeign : isForeign epName entry.1 = true) :
    ∃ e ∈ providerOptions epName entries, ¬ (optionsParser numDevices).Accepts e := by
  have hmem : entry.1 ∈ (providerOptions epName entries).map Prod.fst :=
    mem_names_iff.2 ⟨entry, hentry, optionName_of_foreign hforeign⟩
  obtain ⟨e, he, hname⟩ := List.mem_map.1 hmem
  refine ⟨e, he, ?_⟩
  rintro ⟨o, ho, -⟩
  have hnot := name_not_foreign epName o
  have hkey : o.name = entry.1 := ho.trans hname
  rw [hkey, hforeign] at hnot
  cases hnot

/-- A provider is made exactly when every option is accepted. -/
theorem created_iff (epName : String) (numDevices : Nat) (entries : List (String × String)) :
    (∃ provider, createProvider epName numDevices entries = .ok provider) ↔
      ∀ e ∈ providerOptions epName entries, (optionsParser numDevices).Accepts e := by
  rw [← ProviderOptionsParser.parse_isOk_iff _ (initialValue : (optionsParser numDevices).Info),
    createProvider]
  cases (optionsParser numDevices).parse (providerOptions epName entries) initialValue with
  | error e => simp [Except.map]
  | ok info => simp [Except.map]

theorem toOption_eq_none (h : ∃ e ∈ providerOptions epName entries,
    ¬ (optionsParser numDevices).Accepts e) :
    (createProvider epName numDevices entries).toOption = none := by
  cases hcreate : createProvider epName numDevices entries with
  | error e => rfl
  | ok provider =>
    obtain ⟨e, he, hnot⟩ := h
    exact absurd ((created_iff epName numDevices entries).1 ⟨provider, hcreate⟩ e he) hnot

theorem refused_of_toOption (h : (createProvider epName numDevices entries).toOption = none) :
    ∃ e ∈ providerOptions epName entries, ¬ (optionsParser numDevices).Accepts e := by
  by_contra hall
  push Not at hall
  obtain ⟨provider, hcreate⟩ := (created_iff epName numDevices entries).2 hall
  rw [hcreate] at h
  cases h

/-- What the members hold, but for the one that nothing is assigned to. -/
theorem member_eq {provider : ProviderInfo}
    (h : createProvider epName numDevices entries = .ok provider) :
    ∃ info, (optionsParser numDevices).parse (providerOptions epName entries) initialValue =
        .ok info ∧
      (∀ o, o ≠ .coalesceIo → provider o = info o) ∧ provider .coalesceIo = false := by
  unfold createProvider at h
  cases hparse : (optionsParser numDevices).parse (providerOptions epName entries)
      initialValue with
  | error e =>
    rw [hparse] at h
    cases h
  | ok info =>
    rw [hparse] at h
    cases h
    refine ⟨info, rfl, fun o ho => if_pos ?_, if_neg (by decide)⟩
    cases o <;> first | decide | exact absurd rfl ho

theorem ownEntries_of_alone (h : ∀ entry ∈ entries, isForeign epName entry.1 = false) :
    ownEntries epName entries = entries :=
  List.filter_eq_self.2 fun entry hentry => by rw [h entry hentry, Bool.not_false]

/-- Every option but `coalesce_io` arrives, and that one when it says what is so anyway. -/
theorem effective_iff {provider : ProviderInfo}
    (h : createProvider epName numDevices entries = .ok provider) :
    (∀ (o : ProviderOption) (text : String), (o.name, text) ∈ providerOptions epName entries →
        parseValue numDevices o text = some (provider o)) ↔
      ∀ text, (ProviderOption.coalesceIo.name, text) ∈ providerOptions epName entries →
        tryParseBool text ≠ some true := by
  obtain ⟨info, hparse, hkept, hcoalesce⟩ := member_eq h
  have hvalue : ∀ (o : ProviderOption) (text : String),
      (o.name, text) ∈ providerOptions epName entries →
        parseValue numDevices o text = some (info o) := fun o text hmem =>
    ProviderOptionsParser.value_of_parse (p := optionsParser numDevices)
      (names_nodup epName entries) hparse hmem
  constructor
  · intro heffective text hmem htrue
    have hread : tryParseBool text = some (provider .coalesceIo) := heffective .coalesceIo text hmem
    rw [hcoalesce, htrue] at hread
    cases hread
  · intro hnot o text hmem
    by_cases ho : o = .coalesceIo
    · cases ho
      have hread : tryParseBool text = some (info .coalesceIo) := hvalue .coalesceIo text hmem
      have hfalse : info .coalesceIo = false := by
        refine Bool.eq_false_iff.2 fun htrue => hnot text hmem ?_
        exact hread.trans (congrArg some htrue)
      exact hread.trans (congrArg some (hfalse.trans hcoalesce.symm))
    · rw [hkept o ho]
      exact hvalue o text hmem

end SessionOptionsLemmas

open SessionOptionsLemmas

/-- An option of another provider next to one of this one. -/
def twoProviders : List (String × String) :=
  [("ep.migraphx.fp16_enable", "1"), ("ep.directml.device_id", "0")]

end AmdGpuEp.MIGraphX
