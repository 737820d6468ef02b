import Mathlib.Data.List.Basic
import Mathlib.Tactic.Common

/-!
# Paths of a file system

A path is text in one of two grammars. It stands for a root name, a root
directory and the names behind them; the operations of a path library work on
these parts.

Results:
1. `not_mem_of_mem_names`: a name of a path that is read from text has no
   separator in it.
2. `relative_of_no_separator`: text without separators is a relative path that
   leads nowhere up.
3. `lexicallyNormal_append`: behind a directory, a relative path that leads
   nowhere up keeps its names.
-/

namespace AmdGpuEp

/-- The parts of a path. An empty name at the end stands for a separator at the end of the text. -/
structure FsPath where
  rootName : String := ""
  rootDirectory : Bool := false
  names : List String := []
  deriving DecidableEq, Repr

inductive PathGrammar
  | posix
  | windows
  deriving DecidableEq, Repr

/-- The pieces of a text between the characters that separate. -/
def splitChars (sep : Char → Bool) : List Char → List (List Char)
  | [] => [[]]
  | c :: cs =>
    if sep c then [] :: splitChars sep cs
    else
      match splitChars sep cs with
      | [] => [[c]]
      | piece :: pieces => (c :: piece) :: pieces

namespace PathGrammar

def isSeparator : PathGrammar → Char → Bool
  | posix, c => c == '/'
  | windows, c => c == '/' || c == '\\'

/-- The text is empty or begins with something other than a separator. -/
def startsName (g : PathGrammar) (text : List Char) : Bool :=
  !text.head?.any g.isSeparator

/-- The root name and the text behind it: a drive, the place of devices, or a server behind two
separators. -/
def splitRootName (g : PathGrammar) (text : List Char) : List Char × List Char :=
  match g, text with
  | windows, a :: b :: rest =>
    if a.isAlpha && b == ':' then ([a, b], rest)
    else if g.isSeparator a && b == '?' && rest.head? == some '?' &&
        rest.tail.head?.any g.isSeparator && g.startsName rest.tail.tail then
      ([a, '?', '?'], rest.tail)
    else if g.isSeparator a && g.isSeparator b && rest.head?.any (!g.isSeparator ·) then
      (a :: b :: rest.takeWhile (!g.isSeparator ·), rest.dropWhile (!g.isSeparator ·))
    else ([], text)
  | _, _ => ([], text)

/-- The path that a text stands for. -/
def parse (g : PathGrammar) (text : String) : FsPath :=
  let (root, rest) := g.splitRootName text.toList
  let pieces := splitChars g.isSeparator rest
  let names := pieces.filter (· ≠ [])
  let trailing := names ≠ [] && pieces.getLast? == some []
  { rootName := String.ofList root
    rootDirectory := rest.head?.any g.isSeparator
    names := names.map String.ofList ++ if trailing then [""] else [] }

/-- A path that no working directory changes. A root name other than a drive needs no root directory
for that. -/
def isAbsolute (g : PathGrammar) (p : FsPath) : Bool :=
  match g with
  | posix => p.rootDirectory
  | windows =>
    p.rootName != "" && (p.rootDirectory || p.rootName.toList.tail.head? != some ':')

/-- `p / q` -/
def append (g : PathGrammar) (p q : FsPath) : FsPath :=
  if g.isAbsolute q || (q.rootName != "" && q.rootName != p.rootName) then q
  else if q.rootDirectory then { q with rootName := p.rootName }
  else
    { p with
      rootDirectory := p.rootDirectory || g.isAbsolute p
      names := p.names.filter (· ≠ "") ++ q.names }

end PathGrammar

namespace FsPath

def isEmpty (p : FsPath) : Bool :=
  p == {}

/-- The last name; empty for a path that ends with a separator. -/
def filename (p : FsPath) : String :=
  p.names.getLast?.getD ""

/-- The file name in front of its last dot. A dot at its start does not count. -/
def stem (p : FsPath) : String :=
  if p.filename = "." ∨ p.filename = ".." then p.filename
  else
    match p.filename.toList.reverse.dropWhile (· ≠ '.') with
    | _ :: c :: cs => String.ofList (c :: cs).reverse
    | _ => p.filename

def parentPath (p : FsPath) : FsPath :=
  { p with names := p.names.dropLast }

/-- One name of a path that is normalized; `rooted` says that nothing is above the first name. -/
def pushName (rooted : Bool) (names : List String) (name : String) : List String :=
  if name = "." ∨ name = "" then names
  else if name = ".." then
    match names.getLast? with
    | some last => if last = ".." then names ++ [name] else names.dropLast
    | none => if rooted then [] else [name]
  else names ++ [name]

/-- The path without the names that lead back, as far as they meet others. -/
def lexicallyNormal (p : FsPath) : FsPath :=
  { p with names := p.names.foldl (pushName p.rootDirectory) [] }

end FsPath

/-! ## Reading a path -/

section

variable {g : PathGrammar} {sep : Char → Bool}

theorem splitChars_of_none {cs : List Char} (h : ∀ c ∈ cs, sep c = false) :
    splitChars sep cs = [cs] := by
  induction cs with
  | nil => rfl
  | cons c cs ih =>
    rw [splitChars, if_neg (by simp [h c]), ih fun d hd => h d (List.mem_cons_of_mem c hd)]

theorem not_sep_of_mem_splitChars {cs piece : List Char} (h : piece ∈ splitChars sep cs) :
    ∀ c ∈ piece, sep c = false := by
  induction cs generalizing piece with
  | nil =>
    rw [splitChars, List.mem_singleton] at h
    simp [h]
  | cons c cs ih =>
    rw [splitChars] at h
    split at h
    · rcases List.mem_cons.1 h with rfl | h
      · simp
      · exact ih h
    · next hc =>
      have hc : sep c = false := by simpa using hc
      split at h
      · rw [List.mem_singleton.1 h]
        simpa using hc
      · next first pieces heq =>
        rw [heq] at ih
        rcases List.mem_cons.1 h with rfl | h
        · intro d hd
          rcases List.mem_cons.1 hd with rfl | hd
          · exact hc
          · exact ih List.mem_cons_self d hd
        · exact ih (List.mem_cons_of_mem first h)

/-- A name of a path that is read from text has no separator. -/
theorem not_mem_of_mem_names {text name : String} (h : name ∈ (g.parse text).names) :
    ∀ c ∈ name.toList, g.isSeparator c = false := by
  simp only [PathGrammar.parse, List.mem_append, List.mem_map, List.mem_filter] at h
  rcases h with ⟨piece, ⟨hpiece, -⟩, rfl⟩ | htrailing
  · rw [String.toList_ofList]
    exact not_sep_of_mem_splitChars hpiece
  · split at htrailing
    · rw [List.mem_singleton.1 htrailing]
      simp
    · cases htrailing

/-- Text without separators, whatever colons it has, is relative and leads nowhere up. -/
theorem relative_of_no_separator {text : String}
    (h : ∀ c ∈ text.toList, g.isSeparator c = false) (hlen : 5 ≤ text.toList.length) :
    g.isAbsolute (g.parse text) = false ∧ ".." ∉ (g.parse text).lexicallyNormal.names := by
  obtain ⟨root, rest, hroot, hsuffix, hrest, habs⟩ : ∃ root rest,
      g.splitRootName text.toList = (root, rest) ∧ (∀ c ∈ rest, c ∈ text.toList) ∧
        3 ≤ rest.length ∧ (root = [] ∨ root.tail.head? = some ':') := by
    unfold PathGrammar.splitRootName
    split
    · next a b rest heq =>
      rw [heq] at hlen
      have ha := h a (by simp [heq])
      split
      · next hdrive =>
        have hcolon : b = ':' := by simpa using (Bool.and_eq_true_iff.1 hdrive).2
        exact ⟨_, _, rfl, fun c hc => by simp [heq, hc], by simp at hlen; omega,
          Or.inr (by simp [hcolon])⟩
      · rw [if_neg (by simp [ha]), if_neg (by simp [ha])]
        exact ⟨_, _, rfl, fun c hc => hc, by rw [heq]; omega, Or.inl rfl⟩
    · exact ⟨_, _, rfl, fun c hc => hc, by omega, Or.inl rfl⟩
  have hsep : ∀ c ∈ rest, g.isSeparator c = false := fun c hc => h c (hsuffix c hc)
  have hnil : rest ≠ [] := by
    rintro rfl
    simp at hrest
  have hhead : rest.head?.any g.isSeparator = false := by
    rw [Option.any_eq_false]
    intro c hc
    simpa using hsep c (List.mem_of_head? hc)
  have hparse : g.parse text =
      { rootName := String.ofList root, names := [String.ofList rest] } := by
    rw [PathGrammar.parse, hroot]
    simp [splitChars_of_none hsep, hnil, hhead]
  have hname : ∀ name : String, name.toList.length < 3 → String.ofList rest ≠ name := by
    rintro name hshort rfl
    rw [String.toList_ofList] at hshort
    omega
  rw [hparse]
  constructor
  · cases g with
    | posix => rfl
    | windows =>
      rcases habs with rfl | hlast
      · rfl
      · simp [PathGrammar.isAbsolute, hlast]
  · simp [FsPath.lexicallyNormal, FsPath.pushName, hname "." (by decide), hname "" (by decide),
      hname ".." (by decide), Ne.symm (hname ".." (by decide))]

end

/-! ## Normal forms -/

namespace FsPath

variable {rooted : Bool} {name : String} {names above behind : List String}

/-- A name that leads up stays. -/
theorem mem_pushName (h : ".." ∈ names) : ".." ∈ pushName rooted names name := by
  unfold pushName
  split
  · exact h
  split
  · split
    · next last hlast =>
      split
      · exact List.mem_append_left _ h
      · next hne =>
        obtain ⟨front, rfl⟩ := List.getLast?_eq_some_iff.1 hlast
        rw [List.dropLast_concat]
        rcases List.mem_append.1 h with h | h
        · exact h
        · exact absurd (List.mem_singleton.1 h).symm hne
    · next hnone =>
      rw [List.getLast?_eq_none_iff.1 hnone] at h
      exact absurd h List.not_mem_nil
  · exact List.mem_append_left _ h

theorem mem_foldl_pushName (h : ".." ∈ names) :
    ".." ∈ behind.foldl (pushName rooted) names := by
  induction behind generalizing names with
  | nil => exact h
  | cons name behind ih => exact ih (mem_pushName h)

/-- What leads nowhere up is not changed by what stands above it. -/
theorem pushName_append (h : ".." ∉ pushName false names name) :
    pushName rooted (above ++ names) name = above ++ pushName false names name := by
  unfold pushName at h ⊢
  by_cases hdot : name = "." ∨ name = ""
  · rw [if_pos hdot, if_pos hdot]
  rw [if_neg hdot] at h
  rw [if_neg hdot, if_neg hdot]
  by_cases hup : name = ".."
  · rw [if_pos hup] at h
    rw [if_pos hup, if_pos hup]
    rcases List.eq_nil_or_concat names with rfl | ⟨front, last, rfl⟩
    · exact absurd (by simp [hup]) h
    · have hlast : last ≠ ".." := by
        rintro rfl
        simp at h
      simp [hlast]
  · rw [if_neg hup, if_neg hup, List.append_assoc]

theorem foldl_pushName_append (rooted : Bool) (above : List String)
    (h : ".." ∉ behind.foldl (pushName false) names) :
    behind.foldl (pushName rooted) (above ++ names) =
      above ++ behind.foldl (pushName false) names := by
  induction behind generalizing names with
  | nil => rfl
  | cons name behind ih =>
    rw [List.foldl_cons] at h
    have hstep : ".." ∉ pushName false names name := fun hmem => h (mem_foldl_pushName hmem)
    rw [List.foldl_cons, List.foldl_cons, pushName_append hstep, ih h]

end FsPath

namespace PathGrammar

theorem append_of_relative (g : PathGrammar) {dir path : FsPath}
    (habsolute : g.isAbsolute path = false) (hrooted : path.rootDirectory = false)
    (hroot : path.rootName = "" ∨ path.rootName = dir.rootName) :
    g.append dir path =
      { dir with
        rootDirectory := dir.rootDirectory || g.isAbsolute dir
        names := dir.names.filter (· ≠ "") ++ path.names } := by
  have hother : (g.isAbsolute path || path.rootName != "" && path.rootName != dir.rootName) =
      false := by
    rcases hroot with h | h <;> simp [habsolute, h]
  unfold append
  rw [hother, hrooted]
  rfl

theorem isAbsolute_empty (g : PathGrammar) : g.isAbsolute {} = false := by
  cases g <;> rfl

end PathGrammar

/-- A relative path behind a directory. The directory is taken as if its text ended with a
separator. -/
theorem lexicallyNormal_append (g : PathGrammar) {dir path : FsPath}
    (habsolute : g.isAbsolute path = false) (hrooted : path.rootDirectory = false)
    (hroot : path.rootName = "" ∨ path.rootName = dir.rootName)
    (hup : ".." ∉ path.lexicallyNormal.names) :
    (g.append dir path).lexicallyNormal =
      { (g.append dir {}).lexicallyNormal with
        names := (g.append dir {}).lexicallyNormal.names ++ path.lexicallyNormal.names } := by
  unfold FsPath.lexicallyNormal at hup
  rw [hrooted] at hup
  rw [g.append_of_relative habsolute hrooted hroot,
    g.append_of_relative g.isAbsolute_empty rfl (Or.inl rfl)]
  simp only [FsPath.lexicallyNormal, List.foldl_append, List.append_nil, hrooted]
  have happend := FsPath.foldl_pushName_append (dir.rootDirectory || g.isAbsolute dir)
    ((dir.names.filter (· ≠ "")).foldl
      (FsPath.pushName (dir.rootDirectory || g.isAbsolute dir)) []) hup
  rw [List.append_nil] at happend
  rw [happend]

end AmdGpuEp
