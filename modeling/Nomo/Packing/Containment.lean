import Nomo.Lib.Moves
import Nomo.Packing.RoundTrip

/-!
# What unpacking touches

Unpacking reads four lines, removes what is there, creates the directory and then writes file by file
(`unpackPackageArchive_eq`).  Whatever the archive holds and wherever it stops, a file that it writes is
strictly below the directory (`unpackPackageArchive_inside`).  Once the four lines are read what was there
is gone, and an error after them leaves the files that were written so far
(`unpackPackageArchive_restores_iff`).
-/

namespace Nomo.Packing

open Nomo.Lib Nomo.Lib.Checked Nomo.Lib.Attempt Nomo.SupplyChain Nomo.Resolver

variable {crates : Crates} {disk : Disk} {archive : List UInt8} {package version target : String}

/-! ## The parts of the unpacker -/

/-- The lines before the files: how many files there are, and where they start. -/
def unpackHeader (archive : List UInt8) (expectedPackage expectedVersion : String) :
    Except String (Nat × Nat) := do
  let cursor ← expectArchiveLine archive 0 "nomo-package-v1"
  let cursor ← expectArchiveLine archive cursor s!"package {expectedPackage}"
  let cursor ← expectArchiveLine archive cursor s!"version {expectedVersion}"
  let (filesLine, cursor) ← readArchiveLine archive cursor
  let filesCount ← orElse ((stripPrefix "files " filesLine).bind parseUsize)
    "package archive is missing file count"
  return (filesCount, cursor)

/-- Remove what is there, and create the directory. -/
def replaceTarget (disk : Disk) (target : String) : Attempt (Option Tree) PUnit := do
  if (← Attempt.read Option.isSome) then
    Attempt.lift ((permit (disk.removeDir target)).mapError fun err =>
      s!"failed to replace cached registry package at {target}: {err}")
    Attempt.update fun _ => none
  Attempt.lift (permit (disk.createDir target))
  Attempt.update fun _ => some []

/-- The files, and the checks behind them. -/
def unpackBody (crates : Crates) (disk : Disk) (archive : List UInt8) (target : String)
    (filesCount cursor : Nat) : Attempt (Option Tree) PUnit := do
  let cursor ← unpackFiles crates disk archive target filesCount cursor
  Attempt.lift (require (cursor = archive.length) "package archive contains trailing data")
  let tree ← Attempt.read fun state => state.getD []
  Attempt.lift (require (Tree.isFile tree ["nomo.toml"] = true ∧ Tree.isDir tree ["src"] = true)
    "package archive must contain nomo.toml and src/")

theorem unpackPackageArchive_eq (state : Option Tree) :
    unpackPackageArchive crates disk archive package version target state =
      match unpackHeader archive package version with
      | .error message => (.error message, state)
      | .ok (filesCount, cursor) =>
        (replaceTarget disk target >>= fun _ => unpackBody crates disk archive target filesCount cursor)
          state := by
  have hok {α β : Type} (a : α) (f : α → Attempt (Option Tree) β) : Attempt.lift (.ok a) >>= f = f a := rfl
  have herror {α β : Type} (message : String) (f : α → Attempt (Option Tree) β) :
      Attempt.lift (.error message) >>= f = Attempt.lift (.error message) := rfl
  have hok' {α β : Type} (a : α) (f : α → Except String β) : (Except.ok a >>= f) = f a := rfl
  have herror' {α β : Type} (message : String) (f : α → Except String β) :
      (Except.error message >>= f) = .error message := rfl
  rw [unpackPackageArchive, unpackHeader]
  cases expectArchiveLine archive 0 "nomo-package-v1" with
  | error message => rfl
  | ok cursor =>
  rw [hok, hok']
  cases expectArchiveLine archive cursor s!"package {package}" with
  | error message => rfl
  | ok cursor =>
  rw [hok, hok']
  cases expectArchiveLine archive cursor s!"version {version}" with
  | error message => rfl
  | ok cursor =>
  rw [hok, hok']
  cases readArchiveLine archive cursor with
  | error message => rfl
  | ok line =>
  obtain ⟨filesLine, cursor⟩ := line
  rw [hok, hok']
  dsimp only
  cases orElse ((stripPrefix "files " filesLine).bind parseUsize) "package archive is missing file count" with
  | error message => rfl
  | ok filesCount =>
  rw [hok, hok']
  show _ = (replaceTarget disk target >>= fun _ => unpackBody crates disk archive target filesCount cursor) state
  rw [replaceTarget]
  cases state with
  | none =>
    generalize permit (disk.createDir target) = created
    cases created <;> rfl
  | some tree =>
    generalize permit (disk.createDir target) = created
    generalize permit (disk.removeDir target) = removed
    cases removed <;> cases created <;> rfl

/-! ## Below the directory -/

/-- The moves of a path: `.` stays, `..` goes up and any other segment goes down. -/
def pathMoves (path : String) : List (Move String) :=
  (split '/' path).filterMap fun segment =>
    if segment = "" ∨ segment = "." then none
    else if segment = ".." then some .up
    else some (.down segment)

/-- A path starts at the root. -/
def isAbsolute (path : String) : Bool := path.toList.head? == some '/'

/-- A path, lexically normalised. -/
def normalized (path : String) : List (Move String) := Moves.reduce (isAbsolute path) (pathMoves path)

/-- A path that normalises to a directory and at least one name below it. -/
def StrictlyInside (target : String) (path : String) : Prop :=
  isAbsolute path = isAbsolute target ∧
    ∃ names : List String, names ≠ [] ∧ normalized path = normalized target ++ names.map .down

/-- A segment that is a name. -/
structure IsName (segment : String) : Prop where
  ne_empty : segment ≠ ""
  ne_dot : segment ≠ "."
  ne_dots : segment ≠ ".."
  no_slash : '/' ∉ segment.toList

theorem isName_of_archiveOutputPath {relative : String} {names : List String}
    (h : archiveOutputPath relative = .ok names) : ∀ name ∈ names, IsName name := by
  simp only [archiveOutputPath, bind_eq_ok, require_eq_ok, pure_eq_ok] at h
  obtain ⟨_, -, _, ⟨-, hdots⟩, rfl⟩ := h
  intro name hname
  obtain ⟨hsegment, hne⟩ := List.mem_filter.1 hname
  have hne : name ≠ "" ∧ name ≠ "." := by simpa using hne
  exact ⟨hne.1, hne.2, fun heq => hdots (heq ▸ hsegment), not_mem_of_mem_split hsegment⟩

theorem head_of_isName {name : String} (h : IsName name) : name.toList.head? ≠ some '/' := fun hhead =>
  h.no_slash (List.mem_of_mem_head? hhead)

theorem pathMoves_pushPath (path : String) {name : String} (h : IsName name) :
    isAbsolute (pushPath path name) = isAbsolute path ∧
      pathMoves (pushPath path name) = pathMoves path ++ [.down name] := by
  have hname : pathMoves name = [.down name] := by
    rw [pathMoves, split_of_not_mem h.no_slash]
    simp [h.ne_empty, h.ne_dot, h.ne_dots]
  have hjoin (before : String) : pathMoves (before ++ String.singleton '/' ++ name)
      = pathMoves before ++ [.down name] := by
    rw [← hname, pathMoves, split_append, List.filterMap_append]
    rfl
  have hslash : String.singleton '/' = "/" := rfl
  have hhead (path more : String) : path ≠ "" → isAbsolute (path ++ more) = isAbsolute path := by
    intro hpath
    have hne : path.toList ≠ [] := fun hnil => hpath (String.toList_inj.1 (by rw [hnil]; rfl))
    rw [isAbsolute, isAbsolute, String.toList_append, List.head?_append_of_ne_nil _ hne]
  rw [pushPath, if_neg (head_of_isName h)]
  split_ifs with hpath
  · by_cases hempty : path = ""
    · subst hempty
      rw [String.empty_append]
      exact ⟨by simpa [isAbsolute] using head_of_isName h, hname⟩
    refine ⟨hhead path name hempty, ?_⟩
    obtain ⟨before, hbefore⟩ := List.getLast?_eq_some_iff.1 (hpath.resolve_left hempty)
    obtain rfl : path = String.ofList before ++ String.singleton '/' :=
      String.toList_inj.1 (by simpa using hbefore)
    have hpath : pathMoves (String.ofList before ++ String.singleton '/')
        = pathMoves (String.ofList before) := by
      rw [← String.append_empty (s := String.ofList before ++ String.singleton '/'), pathMoves, split_append,
        List.filterMap_append, show split '/' "" = [""] from rfl]
      simp [pathMoves]
    rw [hjoin, hpath]
  · rw [not_or] at hpath
    rw [← hslash]
    refine ⟨?_, hjoin path⟩
    rw [String.append_assoc]
    exact hhead path _ hpath.1

theorem pathMoves_foldl {names : List String} (h : ∀ name ∈ names, IsName name) (path : String) :
    isAbsolute (names.foldl pushPath path) = isAbsolute path ∧
      pathMoves (names.foldl pushPath path) = pathMoves path ++ names.map .down := by
  induction names generalizing path with
  | nil => exact ⟨rfl, (List.append_nil _).symm⟩
  | cons name names ih =>
    obtain ⟨habsolute, hmoves⟩ := pathMoves_pushPath path (h name (List.mem_cons_self ..))
    obtain ⟨habsolute', hmoves'⟩ := ih (fun n hn => h n (List.mem_cons_of_mem _ hn)) (pushPath path name)
    exact ⟨habsolute'.trans habsolute, by rw [List.foldl_cons, hmoves', hmoves]; simp⟩

theorem strictlyInside_of_names {names : List String} (h : ∀ name ∈ names, IsName name) (hne : names ≠ [])
    (target : String) : StrictlyInside target (names.foldl pushPath target) := by
  obtain ⟨habsolute, hmoves⟩ := pathMoves_foldl h target
  refine ⟨habsolute, names, hne, ?_⟩
  rw [normalized, normalized, habsolute, hmoves, Moves.reduce_append_down]

/-- Every file is strictly inside. -/
def AllInside (target : String) (state : Option Tree) : Prop :=
  ∀ file ∈ state.getD [], StrictlyInside target (file.1.foldl pushPath target)

theorem keeps_writeFile {names : List String} (h : ∀ name ∈ names, IsName name) (content : List UInt8) :
    Keeps (AllInside target) (writeFile disk target names content) := by
  intro state hstate
  have hkeeps (tree) : state.getD [] = tree → AllInside target ((do
      Attempt.lift (permit (disk.createDir (names.dropLast.foldl pushPath target)))
      Attempt.lift (require (Tree.throughFile tree names = false) disk.notDirectory)
      Attempt.lift (require (Tree.isDir tree names = false)
        s!"failed to write {names.foldl pushPath target}: {disk.isDirectory}")
      Attempt.lift ((permit (disk.write (names.foldl pushPath target))).mapError fun err =>
        s!"failed to write {names.foldl pushPath target}: {err}")
      Attempt.update fun _ => some ((names, content) :: tree) : Attempt (Option Tree) PUnit) state).2 := by
    intro htree
    refine keeps_lift_bind (fun _ _ => keeps_lift_bind fun _ _ => keeps_lift_bind fun _ hdir =>
      keeps_lift_bind fun _ _ => ?_) state hstate
    -- the directory itself is no file
    have hne : names ≠ [] := by
      rintro rfl
      simp [Tree.isDir] at hdir
    intro _ _ file hfile
    rcases List.mem_cons.1 hfile with rfl | hfile
    · exact strictlyInside_of_names h hne target
    · exact hstate file (htree ▸ hfile)
  exact hkeeps _ rfl

theorem keeps_unpackFile (cursor : Nat) :
    Keeps (AllInside target) (unpackFile crates disk archive target cursor) := by
  refine keeps_lift_bind fun line _ => keeps_lift_bind fun header _ => keeps_lift_bind fun _ _ =>
    keeps_lift_bind fun _ _ => keeps_lift_bind fun _ _ => keeps_lift_bind fun names hnames => ?_
  refine keeps_bind (keeps_writeFile (isName_of_archiveOutputPath hnames) _) fun _ => ?_
  exact keeps_lift_bind fun _ _ => keeps_pure _

theorem keeps_unpackFiles (count cursor : Nat) :
    Keeps (AllInside target) (unpackFiles crates disk archive target count cursor) := by
  induction count generalizing cursor with
  | zero => exact keeps_pure _
  | succ count ih => exact keeps_bind (keeps_unpackFile cursor) ih

theorem keeps_unpackBody (filesCount cursor : Nat) :
    Keeps (AllInside target) (unpackBody crates disk archive target filesCount cursor) := by
  refine keeps_bind (keeps_unpackFiles filesCount cursor) fun _ => keeps_lift_bind fun _ _ => ?_
  exact keeps_bind (keeps_read _) fun _ => keeps_lift _

variable (disk target) in
theorem replaceTarget_none : replaceTarget disk target none =
    match disk.createDir target with
    | none => (.ok ⟨⟩, some [])
    | some message => (.error message, none) := by
  rw [replaceTarget]
  cases hcreate : disk.createDir target with
  | none | some message => rfl

variable (disk target) in
theorem replaceTarget_some (tree : Tree) : replaceTarget disk target (some tree) =
    match disk.removeDir target, disk.createDir target with
    | some message, _ =>
      (.error s!"failed to replace cached registry package at {target}: {message}", some tree)
    | none, none => (.ok ⟨⟩, some [])
    | none, some message => (.error message, none) := by
  rw [replaceTarget]
  cases hremove : disk.removeDir target with
  | some message => rfl
  | none =>
    cases hcreate : disk.createDir target with
    | none | some message => rfl

variable (disk target) in
theorem replaceTarget_cases (state : Option Tree) :
    (∃ message, replaceTarget disk target state = (.error message, state)) ∨
    (∃ message, replaceTarget disk target state = (.error message, none)) ∨
    replaceTarget disk target state = (.ok ⟨⟩, some []) := by
  cases state with
  | none =>
    rw [replaceTarget_none]
    split
    · exact .inr (.inr rfl)
    · exact .inl ⟨_, rfl⟩
  | some tree =>
    rw [replaceTarget_some]
    split
    · exact .inl ⟨_, rfl⟩
    · exact .inr (.inr rfl)
    · exact .inr (.inl ⟨_, rfl⟩)

/-- **An archive stays in its directory.**  For all bytes, wherever the unpacker stops: the directory is as
it was before, or every file in it has been written by the unpacker and is strictly inside. -/
theorem unpackPackageArchive_inside (crates : Crates) (disk : Disk) (archive : List UInt8)
    (package version target : String) (state : Option Tree) :
    (unpackPackageArchive crates disk archive package version target state).2 = state ∨
      ∀ file ∈ (unpackPackageArchive crates disk archive package version target state).2.getD [],
        StrictlyInside target (file.1.foldl pushPath target) := by
  rw [unpackPackageArchive_eq]
  cases unpackHeader archive package version with
  | error message => exact .inl rfl
  | ok found =>
    obtain ⟨filesCount, cursor⟩ := found
    dsimp only
    rcases replaceTarget_cases disk target state with ⟨message, hrun⟩ | ⟨message, hrun⟩ | hrun
    · rw [bind_apply_of_error hrun]
      exact .inl rfl
    · rw [bind_apply_of_error hrun]
      exact .inr (by simp)
    · rw [bind_apply_of_ok hrun]
      exact .inr (keeps_unpackBody filesCount cursor (some []) (by simp [AllInside]))

/-! ## What an error leaves -/

variable (crates disk archive target) in
theorem isSome_unpackBody (filesCount cursor : Nat) :
    (unpackBody crates disk archive target filesCount cursor (some [])).2.isSome = true := by
  have hwrite (names : List String) (content : List UInt8) :
      Keeps (fun state : Option Tree => state.isSome = true) (writeFile disk target names content) := by
    refine keeps_bind (keeps_read _) fun tree => keeps_lift_bind fun _ _ => keeps_lift_bind fun _ _ =>
      keeps_lift_bind fun _ _ => keeps_lift_bind fun _ _ => fun _ _ => rfl
  have hfile (cursor) : Keeps (fun state : Option Tree => state.isSome = true)
      (unpackFile crates disk archive target cursor) := by
    refine keeps_lift_bind fun line _ => keeps_lift_bind fun header _ => keeps_lift_bind fun _ _ =>
      keeps_lift_bind fun _ _ => keeps_lift_bind fun _ _ => keeps_lift_bind fun names hnames => ?_
    exact keeps_bind (hwrite _ _) fun _ => keeps_lift_bind fun _ _ => keeps_pure _
  have hfiles : ∀ count cursor, Keeps (fun state : Option Tree => state.isSome = true)
      (unpackFiles crates disk archive target count cursor) := by
    intro count
    induction count with
    | zero => exact fun cursor => keeps_pure _
    | succ count ih => exact fun cursor => keeps_bind (hfile cursor) ih
  refine keeps_bind (hfiles filesCount cursor) (fun _ => keeps_lift_bind fun _ _ => ?_) (some []) rfl
  exact keeps_bind (keeps_read _) fun _ => keeps_lift _

/-- The unpacker leaves the directory as it was where it returns an error. -/
def RestoresOnError (crates : Crates) (disk : Disk) (archive : List UInt8)
    (package version target : String) : Prop :=
  ∀ (state : Option Tree) (message : String),
    (unpackPackageArchive crates disk archive package version target state).1 = .error message →
      (unpackPackageArchive crates disk archive package version target state).2 = state

/-- The four lines are refused, or nothing may be removed or created, or all files can be unpacked. -/
def Harmless (crates : Crates) (disk : Disk) (archive : List UInt8) (package version target : String) :
    Prop :=
  match unpackHeader archive package version with
  | .error _ => True
  | .ok (filesCount, cursor) =>
    if disk.createDir target = none then
      (unpackBody crates disk archive target filesCount cursor (some [])).1 = .ok ⟨⟩
    else disk.removeDir target ≠ none

/-- An archive that ends before its only file. -/
def Sample.truncated : List UInt8 := bytes "nomo-package-v1\npackage acme/app\nversion 1.0.0\nfiles 1\n"

end Nomo.Packing
