import Nomo.Deps.Manifest

/-!
# Packages on disk and their archives

Which files of a package are published, and the archive of them
(`nomo_resolver/src/lib.rs:110–171, 574–653`, `nomo_manifest/src/lib.rs:1382–1415`).

A package on disk is the tree of the files and directories under its root, as it is seen through
symbolic links. Names are sequences of bytes, as the operating system has them; an archive has paths
as text.
-/

namespace Nomo.Packing

open Nomo.Lib Nomo.Lib.Checked Nomo.SupplyChain Nomo.Resolver Nomo.Deps

/-! ## Trees of files -/

/-- The name of a file or a directory. -/
structure FileName where
  bytes : List UInt8
  valid : bytes ≠ [] ∧ 47 ∉ bytes ∧ 0 ∉ bytes ∧ bytes ≠ [46] ∧ bytes ≠ [46, 46]

mutual

/-- What a name stands for. -/
inductive Entry where
  /-- A file: what reading it gives, and whether it is inside the package root once symbolic links
  are resolved. -/
  | file (content : Except String (List UInt8)) (inside : Bool)
  /-- A directory. -/
  | directory (entries : Entries)
  /-- A directory that cannot be listed. -/
  | closed (message : String)
  /-- A broken link, a socket, a device. -/
  | other

/-- The contents of a directory. -/
inductive Entries where
  | nil
  | cons (name : FileName) (entry : Entry) (rest : Entries)

end

/-- What a name stands for in a directory. -/
def Entries.lookup (name : List UInt8) : Entries → Option Entry
  | .nil => none
  | .cons name' entry rest => if name'.bytes = name then some entry else rest.lookup name

/-- What a sequence of names leads to. -/
def Entry.follow : Entry → List (List UInt8) → Option Entry
  | entry, [] => some entry
  | .directory entries, name :: names =>
    match entries.lookup name with
    | some entry => entry.follow names
    | none => none
  | _, _ :: _ => none

/-- A path relative to the package root: the segments of its text. -/
abbrev PackagePath := List (List UInt8)

namespace PackagePath

/-- The names in a path: `Path::components` drops empty segments and every `.` but a leading one,
which `Path::strip_prefix` drops. -/
def components (path : PackagePath) : List (List UInt8) := path.filter fun s => s ≠ [] ∧ s ≠ [46]

/-- The bytes of a path. -/
def text (path : PackagePath) : List UInt8 := [47].intercalate path

end PackagePath

/-! ## Text -/

/-- The length of the sequence at the head that does not begin a character but for its last byte. -/
def invalidLength : List UInt8 → Nat
  | lead :: second :: rest =>
    if (lead = 0xe0 ∧ 0xa0 ≤ second ∧ second ≤ 0xbf) ∨
        (0xe1 ≤ lead ∧ lead ≤ 0xef ∧ lead ≠ 0xed ∧ 0x80 ≤ second ∧ second ≤ 0xbf) ∨
        (lead = 0xed ∧ 0x80 ≤ second ∧ second ≤ 0x9f) then 2
    else if (lead = 0xf0 ∧ 0x90 ≤ second ∧ second ≤ 0xbf) ∨
        (0xf1 ≤ lead ∧ lead ≤ 0xf3 ∧ 0x80 ≤ second ∧ second ≤ 0xbf) ∨
        (lead = 0xf4 ∧ 0x80 ≤ second ∧ second ≤ 0x8f) then
      match rest with
      | third :: _ => if 0x80 ≤ third ∧ third ≤ 0xbf then 3 else 2
      | [] => 2
    else 1
  | _ => 1

/-- The characters of bytes, a replacement character for each invalid sequence. -/
def lossyChars : Nat → List UInt8 → List Char
  | 0, _ => []
  | _, [] => []
  | fuel + 1, content =>
    match ByteArray.utf8DecodeChar? ⟨content.toArray⟩ 0 with
    | some c => c :: lossyChars fuel (content.drop c.utf8Size)
    | none => '\uFFFD' :: lossyChars fuel (content.drop (invalidLength content))

/-- `OsStr::to_string_lossy`. -/
def toStringLossy (content : List UInt8) : String :=
  match String.fromUTF8? ⟨content.toArray⟩ with
  | some text => text
  | none => String.ofList (lossyChars content.length content)

/-- `str::replace('\\', "/")`. -/
def withSlashes (text : String) : String :=
  String.ofList (text.toList.map fun c => if c = '\\' then '/' else c)

/-! ## The files of a package -/

/-- A package on disk: where its root is, what is in it, and the entries of `[ffi].sources` in its
manifest, or why the manifest is refused. -/
structure PackageRoot where
  location : String
  entries : Entries
  ffiSources : Except String (List String)

mutual

/-- `collect_source_files`, of what a directory contains. -/
def collectSourceFiles (dir : PackagePath) : Entries → Except String (List PackagePath)
  | .nil => .ok []
  | .cons name entry rest => do
    let files ← collectEntry (dir ++ [name.bytes]) entry
    let more ← collectSourceFiles dir rest
    return files ++ more

/-- One round of the loop of `collect_source_files`. -/
def collectEntry (path : PackagePath) : Entry → Except String (List PackagePath)
  | .file _ _ => .ok [path]
  | .directory entries => collectSourceFiles path entries
  | .closed message => .error message
  | .other => .ok []

end

/-- `validate_non_empty_ffi_entries`. -/
def validateNonEmptyFfiEntries (field : String) (values : List String) : Except String Unit :=
  require ("" ∉ values) s!"manifest `{field}` entries must not be empty"

/-- `rebase_ffi_source_path`, without the root. -/
def rebaseFfiSourcePath (path : String) : Except String PackagePath := do
  require (path.toList.head? ≠ some '/' ∧ ".." ∉ split '/' path)
    s!"manifest `ffi.sources` entry `{path}` must stay inside the package root"
  return (split '/' path).map bytes

/-- `Vec<PathBuf>::sort`. -/
def sortPaths (paths : List PackagePath) : List PackagePath :=
  paths.insertionSort fun a b => a.components ≤ b.components

/-- `Vec<PathBuf>::dedup` after a path that is kept. -/
def dedupAfter (kept : PackagePath) : List PackagePath → List PackagePath
  | [] => []
  | path :: rest =>
    if kept.components = path.components then dedupAfter kept rest
    else path :: dedupAfter path rest

/-- `Vec<PathBuf>::dedup`: the first of neighbours with the same names. -/
def dedupPaths : List PackagePath → List PackagePath
  | [] => []
  | path :: rest => path :: dedupAfter path rest

namespace PackageRoot

/-- What a path leads to. -/
def follow (root : PackageRoot) (path : PackagePath) : Option Entry :=
  (Entry.directory root.entries).follow path.components

/-- `Path::is_file`: a path that ends in `/` or `/.` is none of a file. -/
def isFile (root : PackageRoot) (path : PackagePath) : Bool :=
  path.getLast? != some [] && path.getLast? != some [46] &&
    match root.follow path with
    | some (.file _ _) => true
    | _ => false

/-- The file does not leave the root through a symbolic link. -/
def isInside (root : PackageRoot) (path : PackagePath) : Bool :=
  match root.follow path with
  | some (.file _ inside) => inside
  | _ => false

/-- `fs::read`. -/
def read (root : PackageRoot) (path : PackagePath) : Except String (List UInt8) :=
  match root.follow path with
  | some (.file content _) => content
  | _ => .error "No such file or directory (os error 2)"

/-- `Path::display` of a path below the root. -/
def display (root : PackageRoot) (path : PackagePath) : String :=
  pushPath root.location (toStringLossy path.text)

/-- The files below `src/`. -/
def collectSrc (root : PackageRoot) : Except String (List PackagePath) :=
  let src : PackagePath := [bytes "src"]
  match root.follow src with
  | some (.directory entries) => collectSourceFiles src entries
  | some (.closed message) => .error message
  | _ => .error s!"package is missing {root.display src}"

/-- The files that `[ffi].sources` declares. -/
def declaredSources (root : PackageRoot) : Except String (List PackagePath) := do
  let raw ← root.ffiSources
  validateNonEmptyFfiEntries "ffi.sources" raw
  let sources ← collect rebaseFfiSourcePath raw
  each (fun source => require (root.isFile source = true)
    s!"package FFI source is missing: {root.display source}") sources
  -- `strip_prefix` leaves out what stands before the first name.
  return sources.map fun source => source.dropWhile fun s => s == [] || s == [46]

/-- `package_source_files`. -/
def packageSourceFiles (root : PackageRoot) : Except String (List PackagePath) := do
  let manifest : PackagePath := [bytes "nomo.toml"]
  require (root.isFile manifest = true) s!"package is missing {root.display manifest}"
  let listed ← root.collectSrc
  let src : PackagePath := [bytes "src"]
  require (listed ≠ []) s!"package source directory is empty: {root.display src}"
  let sources ← root.declaredSources
  let files := manifest :: listed ++ sources
  each (fun file => require (root.isInside file = true)
    s!"package file escapes the package root through a symbolic link: {root.display file}") files
  return dedupPaths (sortPaths files)

end PackageRoot

/-! ## The archive -/

section

variable (crates : Crates)

/-- `writeln!`. -/
def line (text : String) : List UInt8 := bytes text ++ [10]

/-- The path of a file in the archive. -/
def relativeText (path : PackagePath) : String := withSlashes (toStringLossy path.text)

/-- The line before a file. -/
def fileHeader (relative : String) (content : List UInt8) : String :=
  s!"file {relative} {content.length} {archiveChecksum crates content}"

/-- One round of the loop over the files. -/
def packFile (root : PackageRoot) (path : PackagePath) : Except String (List UInt8) := do
  let relative := relativeText path
  require ('\n' ∉ relative.toList ∧ '\x00' ∉ relative.toList)
    s!"package file path `{relative}` is not publishable"
  let content ← (root.read path).mapError fun err =>
    s!"failed to read {root.display path} for archive: {err}"
  return line (fileHeader crates relative content) ++ content ++ [10]

/-- `build_package_archive`. -/
def buildPackageArchive (root : PackageRoot) (package : PackageMetadata) :
    Except String (List UInt8) := do
  let files := sortPaths (← root.packageSourceFiles)
  let packed ← collect (packFile crates root) files
  return line "nomo-package-v1" ++ line s!"package {package.id}" ++
    line s!"version {package.version}" ++ line s!"files {files.length}" ++ packed.flatten

/-- One round of the loop of `package_checksum`. -/
def checksumPart (root : PackageRoot) (path : PackagePath) : Except String (List UInt8) := do
  let content ← (root.read path).mapError fun err =>
    s!"failed to read {root.display path} for checksum: {err}"
  return bytes (relativeText path) ++ [0] ++ content ++ [0]

/-- `package_checksum`. -/
def packageChecksum (root : PackageRoot) : Except String String := do
  let files := sortPaths (← root.packageSourceFiles)
  let parts ← collect (checksumPart root) files
  return crates.sha256Digest parts.flatten

end

end Nomo.Packing
