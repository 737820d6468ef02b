import AmdGpuEp.MIGraphX.EpContext

/-!
# The file that an EPContext node names

`EpContextNodeReader` refuses an `ep_cache_context` that is an absolute path, or whose normal
form leads up, and opens what it names behind the cache directory. On Windows a path that is
not absolute may have a root, and `operator/` puts a path with a root in the place of what
stands in front of it.

Results:
1. `loadCached_of_opened`, `loadCached_of_not_opened`: the reader looks at one file, or at none.
2. `readsInside_iff`: when that path is inside the cache directory.
3. `rooted_escapes`: a path from the root of the drive.
-/

namespace AmdGpuEp.MIGraphX

variable {P Loc : Type*}

/-! ## The path that is opened -/

/-- The path that `EpContextNodeReader` opens, if its checks let it through. -/
def openedPath (host : Host Loc) (dir : FsPath) (name : String) : Option FsPath :=
  let path := host.grammar.parse name
  if host.grammar.isAbsolute path then none
  else if ".." ∈ path.lexicallyNormal.names then none
  else some (inDirectory host dir name)

/-- What is loaded from a file. -/
def loadFile (lib : Serializer P) : Option String → Except String P
  | none => .error "the MXR cache file does not exist: "
  | some content =>
    match lib.load content with
    | none => .error "loading MXR file failed: "
    | some program => .ok program

/-! ## The property, and when it holds -/

/-- The path is the one of the directory, followed by names none of which leads up. -/
structure Inside (g : PathGrammar) (dir path : FsPath) : Prop where
  rootName_eq : path.rootName = dir.rootName
  rootDirectory_eq : path.rootDirectory = (g.append dir {}).rootDirectory
  names_eq : ∃ names, ".." ∉ names ∧
    path.lexicallyNormal.names = (g.append dir {}).lexicallyNormal.names ++ names

/-- A path without any root, whose normal form leads nowhere up. -/
structure Contained (path : FsPath) : Prop where
  rootName_eq : path.rootName = ""
  rootDirectory_eq : path.rootDirectory = false
  not_up : ".." ∉ path.lexicallyNormal.names

/-- What is opened is inside the directory, and what is contained is accepted. -/
structure ReadsInside (host : Host Loc) (dir : FsPath) (name : String) : Prop where
  inside : ∀ path ∈ openedPath host dir name, Inside host.grammar dir path
  accepts : Contained (host.grammar.parse name) → (openedPath host dir name).isSome

/-- The path has no root, or only the drive that the directory is on. -/
def Rootless (dir path : FsPath) : Prop :=
  path.rootDirectory = false ∧ (path.rootName = "" ∨ path.rootName = dir.rootName)

/-- The path goes from a root directory of no name to the directory, which has one, and on. -/
def ThroughRoot (g : PathGrammar) (dir path : FsPath) : Prop :=
  path.rootDirectory = true ∧ (g.append dir {}).rootDirectory = true ∧
    (g.append dir {}).lexicallyNormal.names <+: path.lexicallyNormal.names

/-- The path is absolute, or its normal form leads up. -/
def RefusedPath (g : PathGrammar) (path : FsPath) : Prop :=
  g.isAbsolute path = true ∨ ".." ∈ path.lexicallyNormal.names

namespace EpContextPathsLemmas

variable {host : Host Loc} {dir : FsPath} {name : String}

theorem openedPath_of_refused (h : RefusedPath host.grammar (host.grammar.parse name)) :
    openedPath host dir name = none := by
  unfold openedPath
  dsimp only
  split
  · rfl
  · next habsolute => exact if_pos (h.resolve_left habsolute)

theorem openedPath_of_not_refused (h : ¬ RefusedPath host.grammar (host.grammar.parse name)) :
    openedPath host dir name = some (inDirectory host dir name) :=
  (if_neg fun habsolute => h (Or.inl habsolute)).trans (if_neg fun hup => h (Or.inr hup))

/-- A missing directory is one that changes nothing. -/
theorem inDirectory_eq (host : Host Loc) (dir : FsPath) (name : String) :
    inDirectory host dir name = host.grammar.append dir (host.grammar.parse name) := by
  unfold inDirectory
  dsimp only
  split
  · next hempty =>
    have hdir : dir = {} := by simpa [FsPath.isEmpty] using hempty
    rw [hdir]
    obtain ⟨rootName, rootDirectory, names⟩ := host.grammar.parse name
    unfold PathGrammar.append
    by_cases hroot : rootName = ""
    · cases rootDirectory <;> simp [hroot, PathGrammar.isAbsolute_empty]
    · simp [hroot]
  · rfl

/-- A path with a root directory that is not absolute has no root name. -/
theorem rootName_of_rooted {g : PathGrammar} {path : FsPath} (habsolute : g.isAbsolute path = false)
    (hrooted : path.rootDirectory = true) : path.rootName = "" := by
  cases g with
  | posix => exact absurd (habsolute.symm.trans hrooted) Bool.false_ne_true
  | windows =>
    unfold PathGrammar.isAbsolute at habsolute
    rw [hrooted, Bool.true_or, Bool.and_true] at habsolute
    simpa using habsolute

theorem append_of_rooted {g : PathGrammar} {path : FsPath} (habsolute : g.isAbsolute path = false)
    (hrooted : path.rootDirectory = true) :
    g.append dir path = { path with rootName := dir.rootName } := by
  unfold PathGrammar.append
  rw [habsolute, rootName_of_rooted habsolute hrooted, hrooted]
  rfl

/-- A path on another drive takes the place of the directory. -/
theorem append_of_other {g : PathGrammar} {path : FsPath} (hroot : path.rootName ≠ "")
    (hother : path.rootName ≠ dir.rootName) : g.append dir path = path := by
  unfold PathGrammar.append
  exact if_pos (by simp [hroot, hother])

theorem inside_of_rootless {g : PathGrammar} {path : FsPath} (hnot : ¬ RefusedPath g path)
    (h : Rootless dir path) : Inside g dir (g.append dir path) := by
  obtain ⟨habsolute, hup⟩ := not_or.1 hnot
  have habsolute := Bool.eq_false_iff.2 habsolute
  refine ⟨?_, ?_, path.lexicallyNormal.names, hup, ?_⟩
  · rw [g.append_of_relative habsolute h.1 h.2]
  · rw [g.append_of_relative habsolute h.1 h.2,
      g.append_of_relative g.isAbsolute_empty rfl (Or.inl rfl)]
  · rw [lexicallyNormal_append g habsolute h.1 h.2 hup]

theorem inside_rooted_iff {g : PathGrammar} {path : FsPath} (hnot : ¬ RefusedPath g path)
    (hrooted : path.rootDirectory = true) :
    Inside g dir (g.append dir path) ↔ ThroughRoot g dir path := by
  obtain ⟨habsolute, hup⟩ := not_or.1 hnot
  rw [append_of_rooted (Bool.eq_false_iff.2 habsolute) hrooted]
  have hnormal : ({ path with rootName := dir.rootName } : FsPath).lexicallyNormal.names =
    path.lexicallyNormal.names := rfl
  constructor
  · rintro ⟨-, hdirectory, names, -, hnames⟩
    exact ⟨hrooted, hdirectory.symm.trans hrooted, names, hnames.symm⟩
  · rintro ⟨-, hdirectory, names, hnames⟩
    refine ⟨rfl, hrooted.trans hdirectory.symm, names, fun hmem => hup ?_, hnames.symm⟩
    rw [← hnames]
    exact List.mem_append_right _ hmem

theorem isAbsolute_of_contained {g : PathGrammar} {path : FsPath} (h : Contained path) :
    g.isAbsolute path = false := by
  cases g with
  | posix => exact h.rootDirectory_eq
  | windows =>
    unfold PathGrammar.isAbsolute
    rw [h.rootName_eq]
    rfl

theorem not_refused_of_contained {g : PathGrammar} {path : FsPath} (h : Contained path) :
    ¬ RefusedPath g path := by
  rintro (habsolute | hup)
  · exact Bool.false_ne_true ((isAbsolute_of_contained h).symm.trans habsolute)
  · exact h.not_up hup

theorem posix_rootName (text : String) : (PathGrammar.posix.parse text).rootName = "" := by
  rfl

end EpContextPathsLemmas

open EpContextPathsLemmas

/-! ## Results -/

/-- The reader looks at the file of the path that is opened, and at no other. -/
theorem loadCached_of_opened (lib : Serializer P) {host : Host Loc} {dir : FsPath} {name : String}
    {path : FsPath} (files : Files Loc) (h : openedPath host dir name = some path) :
    loadCached lib host dir files name = loadFile lib (files (host.locate path)) := by
  unfold openedPath at h
  unfold loadCached
  dsimp only at h ⊢
  split at h
  · cases h
  · next habsolute =>
    split at h
    · cases h
    · next hup =>
      rw [if_neg habsolute, if_neg hup, Option.some.inj h]
      rfl

theorem loadCached_of_not_opened {host : Host Loc} {dir : FsPath} {name : String}
    (h : openedPath host dir name = none) :
    ∃ message, ∀ (lib : Serializer P) (files : Files Loc),
      loadCached lib host dir files name = .error message := by
  unfold openedPath at h
  dsimp only at h
  split at h
  · next habsolute => exact ⟨_, fun lib files => if_pos habsolute⟩
  · next habsolute =>
    split at h
    · next hup => exact ⟨_, fun lib files => (if_neg habsolute).trans (if_pos hup)⟩
    · cases h

/-- What is opened is inside the directory, and what is contained is accepted, exactly when the path
is refused, has no root but the drive of the directory, or goes through the root to the
directory. -/
theorem readsInside_iff (host : Host Loc) (dir : FsPath) (name : String) :
    ReadsInside host dir name ↔
      RefusedPath host.grammar (host.grammar.parse name) ∨
        Rootless dir (host.grammar.parse name) ∨
        ThroughRoot host.grammar dir (host.grammar.parse name) := by
  by_cases hnot : RefusedPath host.grammar (host.grammar.parse name)
  · refine iff_of_true ⟨?_, fun h => absurd hnot (not_refused_of_contained h)⟩ (Or.inl hnot)
    rw [openedPath_of_refused hnot]
    exact fun path hpath => by cases hpath
  have hopened : openedPath host dir name = some _ := openedPath_of_not_refused hnot
  rw [inDirectory_eq] at hopened
  have hiff : ReadsInside host dir name ↔
      Inside host.grammar dir (host.grammar.append dir (host.grammar.parse name)) := by
    refine ⟨fun h => h.inside _ hopened, fun h => ⟨fun path hpath => ?_, fun _ => ?_⟩⟩
    · rw [hopened] at hpath
      rwa [← Option.some.inj hpath]
    · rw [hopened]
      rfl
  rw [hiff, or_iff_right hnot]
  generalize host.grammar.parse name = path at hnot
  cases hrooted : path.rootDirectory with
  | true =>
    rw [inside_rooted_iff hnot hrooted]
    refine ⟨Or.inr, fun h => h.resolve_left fun hrootless => ?_⟩
    exact Bool.false_ne_true (hrootless.1.symm.trans hrooted)
  | false =>
    have hthrough : ¬ ThroughRoot host.grammar dir path :=
      fun h => Bool.false_ne_true (hrooted.symm.trans h.1)
    refine ⟨fun h => Or.inl ⟨hrooted, ?_⟩, fun h =>
      inside_of_rootless hnot (h.resolve_right hthrough)⟩
    -- another drive would take the place of the directory
    by_contra hroot
    obtain ⟨hnone, hother⟩ := not_or.1 hroot
    have hname := h.rootName_eq
    rw [append_of_other hnone hother] at hname
    exact hother hname

/-- On POSIX no name leads out. -/
theorem readsInside_posix {host : Host Loc} (hposix : host.grammar = .posix) (dir : FsPath)
    (name : String) : ReadsInside host dir name := by
  rw [readsInside_iff, hposix]
  cases hrooted : (PathGrammar.posix.parse name).rootDirectory with
  | true => exact Or.inl (Or.inl hrooted)
  | false => exact Or.inr (Or.inl ⟨hrooted, Or.inl (posix_rootName name)⟩)

/-! ## The root of the drive -/

def windowsHost : Host FsPath where
  grammar := .windows
  locate := id
  tempDirectoryPath := {}
  gcnArchName := ""
  archHash := 0
  sdkVersion := (0, 0, 0)

/-- What is opened is `C:\secret.mxr`. -/
theorem rooted_escapes :
    ¬ ReadsInside windowsHost (PathGrammar.windows.parse "C:\\cache") "\\secret.mxr" := by
  intro h
  have hopened : openedPath windowsHost (PathGrammar.windows.parse "C:\\cache") "\\secret.mxr" =
      some { rootName := "C:", rootDirectory := true, names := ["secret.mxr"] } := by
    decide +kernel
  obtain ⟨names, -, hnames⟩ := (h.inside _ hopened).names_eq
  have hdir : (PathGrammar.windows.append (PathGrammar.windows.parse "C:\\cache")
      {}).lexicallyNormal.names = ["cache"] := by
    decide +kernel
  rw [windowsHost, hdir] at hnames
  exact absurd (List.cons.inj hnames).1 (by decide)

end AmdGpuEp.MIGraphX
