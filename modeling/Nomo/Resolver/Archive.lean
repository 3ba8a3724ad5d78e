import Nomo.Lib.Attempt
import Nomo.SupplyChain.Release

/-!
# Package archives

Unpacking a package archive into a directory (`nomo_resolver/src/lib.rs:175–250, 972–1040`).  An
archive is a few header lines, and for each file a line with its path, length and checksum and then
its bytes.

The directory an archive is unpacked into is a `Tree`: the files under it, each with the segments of
its path.  An unpacking that stops leaves the files it has written.  What the operating system may
refuse, and the texts it refuses with, are the fields of `Disk`.
-/

namespace Nomo.Resolver

open Nomo.Lib Nomo.Lib.Checked Nomo.Lib.Attempt Nomo.SupplyChain

/-! ## Text -/

/-- `str::strip_prefix`. -/
def stripPrefix (start text : String) : Option String :=
  (start.toList.isPrefixOf? text.toList).map String.ofList

/-- The loop of `str::split`. -/
def splitChars (separator : Char) : List Char → List (List Char)
  | [] => [[]]
  | c :: cs =>
    if c = separator then [] :: splitChars separator cs
    else
      match splitChars separator cs with
      | [] => [[c]]
      | part :: parts => (c :: part) :: parts

/-- `str::split`. -/
def split (separator : Char) (text : String) : List String :=
  (splitChars separator text.toList).map String.ofList

/-- `str::parse::<usize>` on a target with 64-bit addresses. -/
def parseUsize (text : String) : Option Nat :=
  let digits : List Char := match text.toList with
    | '+' :: rest => rest
    | cs => cs
  let value := digits.foldl (fun n c => n * 10 + (c.toNat - 48)) 0
  if digits ≠ [] ∧ digits.all Char.isDigit = true ∧ value < 2 ^ 64 then some value else none

/-- `PathBuf::push` on text. -/
def pushPath (path segment : String) : String :=
  if segment.toList.head? = some '/' then segment
  else if path = "" ∨ path.toList.getLast? = some '/' then path ++ segment
  else path ++ "/" ++ segment

/-- `validate_checksum` (`lib.rs:1011–1023`, and with the label of a registry's metadata
`registry_metadata.rs:210–219`). -/
def validateChecksum (label checksum : String) : Except String Unit :=
  match (bytes "sha256:").isPrefixOf? (bytes checksum) with
  | none => .error s!"{label} checksum must use `sha256:<hex>`"
  | some hex => require (hex.length = 64 ∧ hex.all isHexDigit = true)
      s!"{label} checksum must contain 64 hexadecimal digits"

/-! ## Directories -/

/-- What the operating system refuses to do with a path, and the text it says so with. -/
structure Disk where
  read : String → Option String
  write : String → Option String
  createDir : String → Option String
  removeDir : String → Option String
  rename : String → Option String
  canonicalize : String → Except String String
  isDirectory : String
  notDirectory : String

/-- Pass unless the operating system refuses. -/
def permit (refusal : Option String) : Except String Unit :=
  match refusal with
  | none => .ok ()
  | some message => .error message

/-- The files under a directory, latest write first. -/
abbrev Tree := List (List String × List UInt8)

namespace Tree

/-- `Path::is_file`. -/
def isFile (tree : Tree) (path : List String) : Bool := (tree.lookup path).isSome

/-- A directory that a file is in. -/
def isDir (tree : Tree) (path : List String) : Bool :=
  path == [] || tree.any fun (file, _) => path.isPrefixOf file && path != file

/-- A path that leads through a file. -/
def throughFile (tree : Tree) (path : List String) : Bool :=
  tree.any fun (file, _) => file.isPrefixOf path && file != path

end Tree

/-! ## Reading an archive -/

/-- `read_archive_line`: the line at the cursor, and the cursor after it. -/
def readArchiveLine (archive : List UInt8) (cursor : Nat) : Except String (String × Nat) := do
  let rest := archive.drop cursor
  require (10 ∈ rest) "package archive is truncated"
  let line := rest.takeWhile (· != 10)
  let text ← orElse (String.fromUTF8? ⟨line.toArray⟩) "package archive header is not UTF-8"
  return (text, cursor + line.length + 1)

/-- `expect_archive_line`. -/
def expectArchiveLine (archive : List UInt8) (cursor : Nat) (expected : String) :
    Except String Nat := do
  let (actual, cursor) ← readArchiveLine archive cursor
  require (actual = expected) s!"package archive expected `{expected}`, found `{actual}`"
  return cursor

/-- `parse_archive_file_header`: the path, the length and the checksum of a file. -/
def parseArchiveFileHeader (header : String) : Except String (String × Nat × String) := do
  let parts := split ' ' header
  require (parts[0]? = some "file") s!"package archive expected file header, found `{header}`"
  let relative ← orElse parts[1]? "package archive file header is missing path"
  let length ← orElse (parts[2]?.bind parseUsize)
    s!"package archive file `{relative}` has invalid length"
  let checksum ← orElse parts[3]? s!"package archive file `{relative}` is missing checksum"
  require (parts[4]? = none) s!"package archive file `{relative}` has malformed header"
  validateChecksum relative checksum
  return (relative, length, checksum)

/-- `archive_output_path`: the segments below the target.  `Path::components` drops empty segments
and every `.` but a leading one. -/
def archiveOutputPath (relative : String) : Except String (List String) := do
  require (relative.toList.head? ≠ some '/') s!"package archive path `{relative}` must be relative"
  let segments := split '/' relative
  require (segments.head? ≠ some "." ∧ ".." ∉ segments)
    s!"package archive path `{relative}` is not safe"
  return segments.filter fun segment => segment ≠ "" ∧ segment ≠ "."

/-- `fs::create_dir_all` of a file's directory and `fs::write` of the file, below `target`. -/
def writeFile (disk : Disk) (target : String) (path : List String) (content : List UInt8) :
    Attempt (Option Tree) PUnit := do
  let tree ← Attempt.read fun state => state.getD []
  let output := path.foldl pushPath target
  Attempt.lift (permit (disk.createDir (path.dropLast.foldl pushPath target)))
  Attempt.lift (require (Tree.throughFile tree path = false) disk.notDirectory)
  Attempt.lift (require (Tree.isDir tree path = false)
    s!"failed to write {output}: {disk.isDirectory}")
  Attempt.lift ((permit (disk.write output)).mapError fun err => s!"failed to write {output}: {err}")
  Attempt.update fun _ => some ((path, content) :: tree)

section

variable (crates : Crates) (disk : Disk)

/-- `archive_checksum`. -/
abbrev archiveChecksum (content : List UInt8) : String := crates.sha256Digest content

/-- One round of the loop over the files of an archive. -/
def unpackFile (archive : List UInt8) (target : String) (cursor : Nat) :
    Attempt (Option Tree) Nat := do
  let (fileLine, cursor) ← Attempt.lift (readArchiveLine archive cursor)
  let (relative, length, expectedChecksum) ← Attempt.lift (parseArchiveFileHeader fileLine)
  let stop := cursor + length
  Attempt.lift (require (stop < 2 ^ 64) "package archive file length overflowed")
  Attempt.lift (require (stop ≤ archive.length)
    s!"package archive ended before file `{relative}` was complete")
  let content := (archive.drop cursor).take length
  let actualChecksum := archiveChecksum crates content
  Attempt.lift (require (actualChecksum = expectedChecksum)
    s!"checksum mismatch for package archive file `{relative}`: expected {expectedChecksum}, found {actualChecksum}")
  let output ← Attempt.lift (archiveOutputPath relative)
  writeFile disk target output content
  Attempt.lift (require (archive[stop]? = some 10)
    s!"package archive file `{relative}` is missing trailing newline")
  return stop + 1

/-- The loop over the files of an archive. -/
def unpackFiles (archive : List UInt8) (target : String) : Nat → Nat → Attempt (Option Tree) Nat
  | 0, cursor => pure cursor
  | count + 1, cursor => do
    let cursor ← unpackFile crates disk archive target cursor
    unpackFiles archive target count cursor

/-- `unpack_package_archive` (`lib.rs:186–250`). -/
def unpackPackageArchive (archive : List UInt8) (expectedPackage expectedVersion target : String) :
    Attempt (Option Tree) PUnit := do
  let cursor ← Attempt.lift (expectArchiveLine archive 0 "nomo-package-v1")
  let cursor ← Attempt.lift (expectArchiveLine archive cursor s!"package {expectedPackage}")
  let cursor ← Attempt.lift (expectArchiveLine archive cursor s!"version {expectedVersion}")
  let (filesLine, cursor) ← Attempt.lift (readArchiveLine archive cursor)
  let filesCount ← Attempt.lift (orElse ((stripPrefix "files " filesLine).bind parseUsize)
    "package archive is missing file count")
  if (← Attempt.read Option.isSome) then
    Attempt.lift ((permit (disk.removeDir target)).mapError fun err =>
      s!"failed to replace cached registry package at {target}: {err}")
    Attempt.update fun _ => none
  Attempt.lift (permit (disk.createDir target))
  Attempt.update fun _ => some []
  let cursor ← unpackFiles crates disk archive target filesCount cursor
  Attempt.lift (require (cursor = archive.length) "package archive contains trailing data")
  let tree ← Attempt.read fun state => state.getD []
  Attempt.lift (require (Tree.isFile tree ["nomo.toml"] = true ∧ Tree.isDir tree ["src"] = true)
    "package archive must contain nomo.toml and src/")

/-! ## The header -/

variable {crates disk}

theorem bytes_of_fromUTF8? {content : List UInt8} {text : String}
    (h : String.fromUTF8? ⟨content.toArray⟩ = some text) : bytes text = content := by
  unfold String.fromUTF8? at h
  split_ifs at h with hvalid
  obtain rfl := Option.some_inj.1 h
  rfl

theorem readArchiveLine_spec {archive : List UInt8} {cursor next : Nat} {text : String}
    (h : readArchiveLine archive cursor = .ok (text, next)) :
    archive.drop cursor = bytes text ++ 10 :: archive.drop next := by
  simp only [readArchiveLine, bind_eq_ok, require_eq_ok, orElse_eq_ok, pure_eq_ok, Prod.mk.injEq] at h
  obtain ⟨_, hmem, line, hline, rfl, rfl⟩ := h
  rw [bytes_of_fromUTF8? hline]
  obtain ⟨before, after, hrest, hbefore⟩ := List.eq_append_cons_of_mem hmem
  have hline : (archive.drop cursor).takeWhile (· != 10) = before := by
    rw [hrest, List.takeWhile_append_of_pos]
    · simp
    · intro b hb
      simpa using fun h : b = 10 => hbefore (h ▸ hb)
  rw [hline, Nat.add_assoc, ← List.drop_drop, hrest]
  simp

/-- An archive starts with the header of a package and a version. -/
def HasHeader (archive : List UInt8) (package version : String) : Prop :=
  ∃ rest, archive = bytes "nomo-package-v1" ++ 10 :: (bytes s!"package {package}" ++
    10 :: (bytes s!"version {version}" ++ 10 :: rest))

theorem hasHeader_of_unpack {archive : List UInt8} {package version target : String}
    {state state' : Option Tree} {u : PUnit}
    (h : (unpackPackageArchive crates disk archive package version target).Gives state u state') :
    HasHeader archive package version := by
  simp only [unpackPackageArchive, bind_gives, lift_gives, expectArchiveLine, bind_eq_ok,
    require_eq_ok, pure_eq_ok] at h
  obtain ⟨_, _, ⟨⟨⟨_, cursor₁⟩, hfirst, _, rfl, rfl⟩, rfl⟩, _, _, ⟨⟨⟨_, cursor₂⟩, hsecond, _, rfl, rfl⟩, rfl⟩,
    _, _, ⟨⟨⟨_, cursor₃⟩, hthird, _, rfl, rfl⟩, rfl⟩, -⟩ := h
  refine ⟨archive.drop cursor₃, ?_⟩
  rw [← readArchiveLine_spec hthird, ← readArchiveLine_spec hsecond, ← readArchiveLine_spec hfirst]
  rfl

end

end Nomo.Resolver
