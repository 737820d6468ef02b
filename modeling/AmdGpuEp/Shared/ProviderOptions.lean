import AmdGpuEp.Shared.ParseString
import Mathlib.Logic.Function.Basic
import Mathlib.Data.List.Nodup

/-!
# The options of a provider

`ProviderOptionsParser` of `provider_options_utils.h` reads texts by name into the fields of a
record, and refuses names that it does not know. The options come out of the configuration of
a session, whose keys begin with the provider that they are for.

Results:
1. `mem_collectOptions`: the options that a configuration holds.
2. `parse_isOk_iff`: which options are accepted.
3. `value_of_parse`: what a field holds afterwards.
-/

namespace AmdGpuEp

/-! ## Configurations -/

/-- `key.rfind(start, 0) == 0`, with what follows. -/
def afterStart (start key : String) : Option String :=
  if start.toList.isPrefixOf key.toList then
    some (String.ofList (key.toList.drop start.toList.length))
  else none

/-- `std::unordered_map::emplace`: a name that is there stays as it is. -/
def emplace (options : List (String × String)) (name value : String) : List (String × String) :=
  if name ∈ options.map Prod.fst then options else options ++ [(name, value)]

/-- The start of the keys that are for a provider. -/
def epStart (epName : String) : String :=
  "ep." ++ lowerCase epName ++ "."

/-- The entries whose keys are read as names of options. -/
def collectOptions (nameOf : String → Option String) (entries : List (String × String)) :
    List (String × String) :=
  entries.foldl (fun options (key, value) =>
    match nameOf key with
    | some name => emplace options name value
    | none => options) []

/-- A loop that collects options in each of its steps. -/
theorem foldl_eq_collectOptions {nameOf : String → Option String}
    {step : List (String × String) → String × String → List (String × String)}
    (hstep : ∀ options key value, step options (key, value) =
      (nameOf key).elim options fun name => emplace options name value)
    (entries : List (String × String)) : entries.foldl step [] = collectOptions nameOf entries := by
  unfold collectOptions
  refine congrArg (fun step => List.foldl step [] entries) (funext₂ ?_)
  rintro options ⟨key, value⟩
  rw [hstep]
  dsimp only
  cases nameOf key with
  | none => rfl
  | some name => rfl

theorem afterStart_eq_some {start key rest : String} :
    afterStart start key = some rest ↔ key = start ++ rest := by
  unfold afterStart
  rw [← String.toList_inj, String.toList_append]
  split
  · next hstart =>
    obtain ⟨cs, hcs⟩ := List.isPrefixOf_iff_prefix.1 hstart
    rw [Option.some_inj, ← hcs, List.drop_left, List.append_cancel_left_eq,
      ← String.toList_inj, String.toList_ofList]
  · next hstart =>
    refine iff_of_false (fun h => by cases h) fun h => hstart ?_
    rw [h]
    exact List.isPrefixOf_iff_prefix.2 (List.prefix_append _ _)

/-! ## Parsing -/

/-- Why options are refused. -/
inductive OptionError
  /-- `Unknown provider option` -/
  | unknown (name : String)
  /-- `Failed to parse provider option` -/
  | invalid (name : String)
  deriving DecidableEq, Repr

/-- `ProviderOptionsParser` with its value parsers, in the order in which they are added. No name is
added twice. -/
structure ProviderOptionsParser (ι : Type) where
  options : List ι
  name : ι → String
  Value : ι → Type
  parseValue : (i : ι) → String → Option (Value i)
  complete : ∀ i, i ∈ options
  names_nodup : (options.map name).Nodup

namespace ProviderOptionsParser

variable {ι : Type} (p : ProviderOptionsParser ι)

/-- The record that the parsers assign to. -/
abbrev Info : Type :=
  (i : ι) → p.Value i

/-- `value_parsers_.find(name)` -/
def find (name : String) : Option ι :=
  p.options.find? fun i => p.name i = name

/-- `Parse` -/
def parse [DecidableEq ι] : List (String × String) → p.Info → Except OptionError p.Info
  | [], info => .ok info
  | (name, value) :: options, info =>
    match p.find name with
    | none => .error (.unknown name)
    | some i =>
      match p.parseValue i value with
      | none => .error (.invalid name)
      | some v => parse options (Function.update info i v)

/-- The name is one of an option, and the text one of its values. -/
def Accepts (entry : String × String) : Prop :=
  ∃ i, p.name i = entry.1 ∧ (p.parseValue i entry.2).isSome

variable {p}

theorem name_injective {i j : ι} (h : p.name i = p.name j) : i = j :=
  List.inj_on_of_nodup_map p.names_nodup (p.complete i) (p.complete j) h

theorem find_eq_some {name : String} {i : ι} : p.find name = some i ↔ p.name i = name := by
  constructor
  · intro h
    simpa using List.find?_some h
  · rintro rfl
    have hsome : (p.find (p.name i)).isSome := by
      rw [find, List.find?_isSome]
      exact ⟨i, p.complete i, by simp⟩
    obtain ⟨j, hj⟩ := Option.isSome_iff_exists.1 hsome
    have hname : p.name j = p.name i := by simpa using List.find?_some hj
    rw [hj, name_injective hname]

variable [DecidableEq ι]

theorem parse_cons {entry : String × String} {i : ι} {v : p.Value i} (hname : p.name i = entry.1)
    (hvalue : p.parseValue i entry.2 = some v) (options : List (String × String)) (info : p.Info) :
    p.parse (entry :: options) info = p.parse options (Function.update info i v) := by
  obtain ⟨name, value⟩ := entry
  rw [parse, find_eq_some.2 hname]
  dsimp only
  rw [hvalue]

/-- What an option that is read goes through. -/
theorem exists_of_parse_cons {entry : String × String} {options : List (String × String)}
    {info info' : p.Info} (h : p.parse (entry :: options) info = .ok info') :
    ∃ i v, p.name i = entry.1 ∧ p.parseValue i entry.2 = some v ∧
      p.parse options (Function.update info i v) = .ok info' := by
  obtain ⟨name, value⟩ := entry
  rw [parse] at h
  cases hfind : p.find name with
  | none =>
    rw [hfind] at h
    cases h
  | some i =>
    rw [hfind] at h
    dsimp only at h
    cases hvalue : p.parseValue i value with
    | none =>
      rw [hvalue] at h
      cases h
    | some v =>
      rw [hvalue] at h
      exact ⟨i, v, find_eq_some.1 hfind, hvalue, h⟩

/-- Options are accepted one by one. -/
theorem parse_isOk_iff (options : List (String × String)) (info : p.Info) :
    (∃ info', p.parse options info = .ok info') ↔ ∀ entry ∈ options, p.Accepts entry := by
  induction options generalizing info with
  | nil => exact iff_of_true ⟨info, rfl⟩ fun entry h => absurd h List.not_mem_nil
  | cons entry options ih =>
    rw [List.forall_mem_cons]
    constructor
    · rintro ⟨info', h⟩
      obtain ⟨i, v, hname, hvalue, hrest⟩ := exists_of_parse_cons h
      exact ⟨⟨i, hname, by rw [hvalue]; rfl⟩, (ih _).1 ⟨info', hrest⟩⟩
    · rintro ⟨⟨i, hname, hvalue⟩, hrest⟩
      obtain ⟨v, hv⟩ := Option.isSome_iff_exists.1 hvalue
      rw [parse_cons hname hv]
      exact (ih _).2 hrest

/-- A field that no option is for keeps its value. -/
theorem kept_of_parse {options : List (String × String)} {info info' : p.Info}
    (h : p.parse options info = .ok info') {i : ι} (hi : p.name i ∉ options.map Prod.fst) :
    info' i = info i := by
  induction options generalizing info with
  | nil =>
    cases h
    rfl
  | cons entry options ih =>
    obtain ⟨j, v, hname, -, hrest⟩ := exists_of_parse_cons h
    rw [List.map_cons, List.mem_cons, not_or] at hi
    rw [ih hrest hi.2, Function.update_of_ne]
    rintro rfl
    exact hi.1 hname

/-- A field holds what its option is read as. -/
theorem value_of_parse {options : List (String × String)} {info info' : p.Info}
    (hnodup : (options.map Prod.fst).Nodup) (h : p.parse options info = .ok info') {i : ι}
    {text : String} (hmem : (p.name i, text) ∈ options) :
    p.parseValue i text = some (info' i) := by
  induction options generalizing info with
  | nil => exact absurd hmem List.not_mem_nil
  | cons entry options ih =>
    obtain ⟨j, v, hname, hvalue, hrest⟩ := exists_of_parse_cons h
    rw [List.map_cons, List.nodup_cons] at hnodup
    rcases List.mem_cons.1 hmem with heq | hmem
    · rw [← heq] at hname hvalue hnodup
      obtain rfl := name_injective hname
      rw [kept_of_parse hrest hnodup.1, Function.update_self]
      exact hvalue
    · exact ih hnodup.2 hrest hmem

end ProviderOptionsParser

/-! ## Options with distinct names -/

theorem mem_names_emplace {options : List (String × String)} {name value name' : String} :
    name' ∈ (emplace options name value).map Prod.fst ↔
      name' ∈ options.map Prod.fst ∨ name' = name := by
  unfold emplace
  split
  · next hname => exact ⟨Or.inl, fun h => h.elim id fun heq => heq ▸ hname⟩
  · rw [List.map_append, List.mem_append, List.map_singleton, List.mem_singleton]

theorem mem_of_mem_emplace {options : List (String × String)} {name value : String}
    {option : String × String} (h : option ∈ emplace options name value) :
    option ∈ options ∨ option = (name, value) := by
  unfold emplace at h
  split at h
  · exact Or.inl h
  · exact (List.mem_append.1 h).imp_right List.mem_singleton.1

theorem emplace_nodup {options : List (String × String)} (h : (options.map Prod.fst).Nodup)
    (name value : String) : ((emplace options name value).map Prod.fst).Nodup := by
  unfold emplace
  split
  · exact h
  · next hname =>
    rw [List.map_append, List.nodup_append]
    refine ⟨h, List.nodup_singleton _, ?_⟩
    rintro a ha b hb rfl
    rw [List.mem_singleton.1 hb] at ha
    exact hname ha

namespace ProviderOptionsLemmas

variable {nameOf : String → Option String} {entries : List (String × String)}

/-- One entry of the configuration. -/
def addEntry (nameOf : String → Option String) (options : List (String × String))
    (entry : String × String) : List (String × String) :=
  match nameOf entry.1 with
  | some name => emplace options name entry.2
  | none => options

theorem collectOptions_eq (nameOf : String → Option String) (entries : List (String × String)) :
    collectOptions nameOf entries = entries.foldl (addEntry nameOf) [] :=
  rfl

theorem mem_names_foldl (options : List (String × String)) {name : String} :
    name ∈ (entries.foldl (addEntry nameOf) options).map Prod.fst ↔
      name ∈ options.map Prod.fst ∨ ∃ entry ∈ entries, nameOf entry.1 = some name := by
  induction entries generalizing options with
  | nil => simp
  | cons entry entries ih =>
    rw [List.foldl_cons, ih, List.exists_mem_cons_iff, addEntry]
    cases hname : nameOf entry.1 with
    | none => simp
    | some other =>
      rw [mem_names_emplace, or_assoc, Option.some_inj, eq_comm (a := other)]

/-- Where an option comes from. -/
theorem exists_entry_of_mem_foldl {options : List (String × String)} {option : String × String}
    (h : option ∈ entries.foldl (addEntry nameOf) options) :
    option ∈ options ∨ ∃ entry ∈ entries, nameOf entry.1 = some option.1 ∧ entry.2 = option.2 := by
  induction entries generalizing options with
  | nil => exact Or.inl h
  | cons entry entries ih =>
    rw [List.exists_mem_cons_iff]
    rcases ih h with hmem | hrest
    · unfold addEntry at hmem
      cases hname : nameOf entry.1 with
      | none =>
        rw [hname] at hmem
        exact Or.inl hmem
      | some name =>
        rw [hname] at hmem
        refine (mem_of_mem_emplace hmem).imp_right fun heq => Or.inl ?_
        rw [heq]
        exact ⟨rfl, rfl⟩
    · exact Or.inr (Or.inr hrest)

theorem nodup_foldl {options : List (String × String)} (h : (options.map Prod.fst).Nodup) :
    ((entries.foldl (addEntry nameOf) options).map Prod.fst).Nodup := by
  induction entries generalizing options with
  | nil => exact h
  | cons entry entries ih =>
    refine ih ?_
    unfold addEntry
    split
    · exact emplace_nodup h _ _
    · exact h

end ProviderOptionsLemmas

open ProviderOptionsLemmas

variable {nameOf : String → Option String} {entries : List (String × String)}

theorem mem_names_collectOptions {name : String} :
    name ∈ (collectOptions nameOf entries).map Prod.fst ↔
      ∃ entry ∈ entries, nameOf entry.1 = some name := by
  rw [collectOptions_eq, mem_names_foldl]
  simp

theorem names_collectOptions_nodup (nameOf : String → Option String)
    (entries : List (String × String)) : ((collectOptions nameOf entries).map Prod.fst).Nodup :=
  nodup_foldl List.nodup_nil

section

variable {key name text : String} (hname : ∀ key', nameOf key' = some name ↔ key' = key)

include hname

theorem mem_of_mem_collectOptions (h : (name, text) ∈ collectOptions nameOf entries) :
    (key, text) ∈ entries := by
  obtain ⟨entry, hentry, hkey, htext⟩ :=
    (exists_entry_of_mem_foldl (collectOptions_eq nameOf entries ▸ h)).resolve_left
      List.not_mem_nil
  have heq : entry = (key, text) := Prod.ext ((hname _).1 hkey) htext
  exact heq ▸ hentry

/-- The text under a key is the option where it is the only one. -/
theorem mem_collectOptions_of_unique (h : (key, text) ∈ entries)
    (hunique : ∀ text', (key, text') ∈ entries → text' = text) :
    (name, text) ∈ collectOptions nameOf entries := by
  have hnamed : name ∈ (collectOptions nameOf entries).map Prod.fst :=
    mem_names_collectOptions.2 ⟨_, h, (hname key).2 rfl⟩
  obtain ⟨⟨name', text'⟩, hoption, heq⟩ := List.mem_map.1 hnamed
  obtain rfl : name' = name := heq
  rw [← hunique text' (mem_of_mem_collectOptions hname hoption)]
  exact hoption

/-- The options that a configuration holds, where only one key is read as the name. -/
theorem mem_collectOptions (hnodup : (entries.map Prod.fst).Nodup) :
    (name, text) ∈ collectOptions nameOf entries ↔ (key, text) ∈ entries := by
  refine ⟨mem_of_mem_collectOptions hname, fun h => ?_⟩
  refine mem_collectOptions_of_unique hname h fun text' h' => ?_
  exact (Prod.mk.inj (List.inj_on_of_nodup_map hnodup h' h rfl)).2

end

end AmdGpuEp
