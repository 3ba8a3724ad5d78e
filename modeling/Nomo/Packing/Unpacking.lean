import Nomo.Packing.Sources
import Nomo.Resolver.Lines

/-!
# Unpacking what was packed

An archive is unpacked file by file. One round on a packed file succeeds if its path has no space and
the unpacker takes the path, and it leaves the file under the names in the path; the loop over the
files then leaves all of them.
-/

namespace Nomo.Packing

open Nomo.Lib Nomo.Lib.Checked Nomo.Lib.Attempt Nomo.SupplyChain Nomo.Resolver Nomo.Deps

/-! ## Text -/

@[simp] theorem toStringLossy_bytes (text : String) : toStringLossy (bytes text) = text := by
  rw [toStringLossy, fromUTF8?_bytes]

theorem withSlashes_of_not_mem {text : String} (h : '\\' ∉ text.toList) : withSlashes text = text := by
  have hmap : (text.toList.map fun c => if c = '\\' then '/' else c) = text.toList := by
    refine (List.map_congr_left fun c hc => if_neg ?_).trans (List.map_id _)
    rintro rfl
    exact h hc
  rw [withSlashes, hmap, String.ofList_toList]

theorem backslash_not_mem_relativeText (path : PackagePath) :
    '\\' ∉ (relativeText path).toList := by
  intro h
  rw [relativeText, withSlashes, String.toList_ofList] at h
  obtain ⟨c, -, hc⟩ := List.mem_map.1 h
  split_ifs at hc with hslash
  exacts [absurd hc (by decide), hslash hc]

/-! ## Headers -/

section

variable {crates : Crates}

theorem mem_archiveChecksum {content : List UInt8} {c : Char}
    (h : c ∈ (archiveChecksum crates content).toList) : c ≠ '\n' ∧ c ≠ ' ' := by
  rw [archiveChecksum, Crates.sha256Digest, String.toList_append, List.mem_append] at h
  rcases h with h | h
  · fin_cases h <;> decide
  have hbytes (b) (hb : b ∈ String.utf8EncodeChar c) : isHexDigit b = true := by
    refine List.all_eq_true.1 (all_isHexDigit_encodeHex (crates.sha256 content).bytes) b ?_
    rw [bytes_eq_flatMap]
    exact List.mem_flatMap.2 ⟨c, h, hb⟩
  refine ⟨?_, ?_⟩ <;> rintro rfl <;> revert hbytes <;> decide

theorem validateChecksum_archiveChecksum (label : String) (content : List UInt8) :
    validateChecksum label (archiveChecksum crates content) = .ok () := by
  have hstart : (bytes "sha256:").isPrefixOf? (bytes (archiveChecksum crates content)) =
      some (bytes (encodeHex (crates.sha256 content).bytes)) := by
    rw [archiveChecksum, Crates.sha256Digest, bytes_append, List.isPrefixOf?_eq_some_iff_append_eq]
  rw [validateChecksum, hstart]
  simp [length_encodeHex, (crates.sha256 content).size, all_isHexDigit_encodeHex]

theorem mem_decimal {n : Nat} {c : Char} (h : c ∈ (toString n).toList) : c.isDigit = true := by
  have hlist : (toString n).toList = Nat.toDigits 10 n := Nat.toList_repr
  exact Nat.isDigit_of_mem_toDigits (by omega) (by omega) (hlist ▸ h)

theorem fileHeader_eq (relative : String) (content : List UInt8) :
    fileHeader crates relative content =
      "file" ++ String.singleton ' ' ++ (relative ++ String.singleton ' ' ++
        (toString content.length ++ String.singleton ' ' ++ archiveChecksum crates content)) := by
  refine String.toList_inj.1 ?_
  simp [fileHeader]
  rfl

theorem newline_not_mem_fileHeader {relative : String} (content : List UInt8)
    (h : '\n' ∉ relative.toList) : '\n' ∉ (fileHeader crates relative content).toList := by
  rw [fileHeader_eq]
  simp only [String.toList_append, List.mem_append, String.toList_singleton, List.mem_singleton]
  rintro ((hc | hc) | (hc | hc) | (hc | hc) | hc)
  · revert hc
    decide
  · cases hc
  · exact h hc
  · cases hc
  · simpa using mem_decimal hc
  · cases hc
  · exact (mem_archiveChecksum hc).1 rfl

/-- The header of a file is read back if and only if there is no space in the path. -/
theorem parse_fileHeader_iff {relative : String} {content : List UInt8} {r : String × Nat × String}
    (hlength : content.length < 2 ^ 64) :
    parseArchiveFileHeader (fileHeader crates relative content) = .ok r ↔
      ' ' ∉ relative.toList ∧ r = (relative, content.length, archiveChecksum crates content) := by
  have hfile : split ' ' "file" = ["file"] := split_of_not_mem (by decide)
  have hnumber : split ' ' (toString content.length) = [toString content.length] :=
    split_of_not_mem fun h => by simpa using mem_decimal h
  have hchecksum : split ' ' (archiveChecksum crates content) = [archiveChecksum crates content] :=
    split_of_not_mem fun h => (mem_archiveChecksum h).2 rfl
  have hparts : split ' ' (fileHeader crates relative content) =
      "file" :: (split ' ' relative ++ [toString content.length, archiveChecksum crates content]) := by
    rw [fileHeader_eq, split_append, split_append, split_append, hfile, hnumber, hchecksum]
    rfl
  constructor
  · intro h
    have hspace : ' ' ∉ relative.toList := by
      intro hmem
      have hlong := one_lt_length_split hmem
      simp only [parseArchiveFileHeader, bind_eq_ok, require_eq_ok, hparts] at h
      obtain ⟨_, -, _, -, _, -, _, -, _, hlast, -⟩ := h
      rw [List.getElem?_eq_none_iff] at hlast
      simp at hlast
      omega
    refine ⟨hspace, ?_⟩
    rw [split_of_not_mem hspace] at hparts
    simp only [parseArchiveFileHeader, hparts] at h
    have hr : (relative, content.length, archiveChecksum crates content) = r := by
      simpa [parseUsize_repr hlength, validateChecksum_archiveChecksum] using h
    exact hr.symm
  · rintro ⟨hspace, rfl⟩
    rw [split_of_not_mem hspace] at hparts
    simp only [parseArchiveFileHeader, hparts]
    simp [parseUsize_repr hlength, validateChecksum_archiveChecksum]

/-! ## One file -/

/-- The operating system refuses nothing that unpacking asks for. -/
structure Permits (disk : Disk) : Prop where
  write : ∀ path, disk.write path = none
  createDir : ∀ path, disk.createDir path = none
  removeDir : ∀ path, disk.removeDir path = none

/-- A file in an archive: its header, its bytes and a newline. -/
def fileBlock (crates : Crates) (relative : String) (content : List UInt8) : List UInt8 :=
  line (fileHeader crates relative content) ++ content ++ [10]

theorem length_fileBlock (relative : String) (content : List UInt8) :
    (fileBlock crates relative content).length =
      (bytes (fileHeader crates relative content)).length + 1 + content.length + 1 := by
  simp [fileBlock, line]
  omega

variable {disk : Disk} {target : String}

theorem writeFile_gives_iff (hdisk : Permits disk) {path : List String} {content : List UInt8}
    {state state' : Option Tree} {u : PUnit} :
    (writeFile disk target path content).Gives state u state' ↔
      Tree.throughFile (state.getD []) path = false ∧ Tree.isDir (state.getD []) path = false ∧
        state' = some ((path, content) :: state.getD []) := by
  simp only [writeFile, bind_gives, read_gives, lift_gives, update_gives, require_eq_ok,
    mapError_eq_ok, hdisk.createDir, hdisk.write, permit]
  constructor
  · rintro ⟨_, _, ⟨rfl, rfl⟩, _, _, ⟨-, rfl⟩, _, _, ⟨hthrough, rfl⟩, _, _, ⟨hdir, rfl⟩, _, _, ⟨-, rfl⟩, rfl⟩
    exact ⟨hthrough, hdir, rfl⟩
  · rintro ⟨hthrough, hdir, rfl⟩
    exact ⟨_, _, ⟨rfl, rfl⟩, ⟨⟩, _, ⟨trivial, rfl⟩, ⟨⟩, _, ⟨hthrough, rfl⟩, ⟨⟩, _, ⟨hdir, rfl⟩, ⟨⟩,
      _, ⟨trivial, rfl⟩, rfl⟩

/-- A file is unpacked if and only if its path has no space and is one that the unpacker takes and
can write to. -/
theorem unpackFile_gives_iff (hdisk : Permits disk) {archive rest : List UInt8} {cursor next : Nat}
    {relative : String} {content : List UInt8} {state state' : Option Tree}
    (hsize : archive.length < 2 ^ 64)
    (hdrop : archive.drop cursor = fileBlock crates relative content ++ rest)
    (hline : '\n' ∉ relative.toList) :
    (unpackFile crates disk archive target cursor).Gives state next state' ↔
      ' ' ∉ relative.toList ∧ ∃ names, archiveOutputPath relative = .ok names ∧
        Tree.throughFile (state.getD []) names = false ∧ Tree.isDir (state.getD []) names = false ∧
        state' = some ((names, content) :: state.getD []) ∧
        next = cursor + (fileBlock crates relative content).length := by
  have hsizes := congrArg List.length hdrop
  rw [List.length_drop, List.length_append, length_fileBlock] at hsizes
  have hheader : archive.drop cursor = bytes (fileHeader crates relative content) ++
      10 :: (content ++ 10 :: rest) := by
    rw [hdrop]
    simp [fileBlock, line]
  have hread := readArchiveLine_of_drop hheader (newline_not_mem_fileHeader content hline)
  have hbody : archive.drop (cursor + (bytes (fileHeader crates relative content)).length + 1) =
      content ++ 10 :: rest := by
    rw [Nat.add_assoc, ← List.drop_drop, hheader]
    simp
  set body := cursor + (bytes (fileHeader crates relative content)).length + 1 with hbodyAt
  have hend : archive[body + content.length]? = some 10 := by
    rw [← List.getElem?_drop, hbody]
    simp
  have hnext : body + content.length + 1 = cursor + (fileBlock crates relative content).length := by
    rw [length_fileBlock]
    omega
  have hlength : content.length < 2 ^ 64 := by omega
  have hcontent : (archive.drop body).take content.length = content := by
    rw [hbody, List.take_left]
  simp only [unpackFile, bind_gives, lift_gives, hread]
  constructor
  · rintro ⟨_, _, ⟨h, rfl⟩, hrun⟩
    cases h
    simp only [parse_fileHeader_iff hlength] at hrun
    obtain ⟨_, _, ⟨⟨hspace, rfl⟩, rfl⟩, hrun⟩ := hrun
    simp only [require_eq_ok, writeFile_gives_iff hdisk, pure_gives, hcontent] at hrun
    obtain ⟨_, _, ⟨-, rfl⟩, _, _, ⟨-, rfl⟩, _, _, ⟨-, rfl⟩, names, _, ⟨hnames, rfl⟩, _, _,
      ⟨hthrough, hdir, rfl⟩, _, _, ⟨-, rfl⟩, rfl, rfl⟩ := hrun
    exact ⟨hspace, names, hnames, hthrough, hdir, rfl, hnext⟩
  · rintro ⟨hspace, names, hnames, hthrough, hdir, rfl, rfl⟩
    refine ⟨_, _, ⟨rfl, rfl⟩, ?_⟩
    simp only [parse_fileHeader_iff hlength]
    refine ⟨_, _, ⟨⟨hspace, rfl⟩, rfl⟩, ?_⟩
    simp only [require_eq_ok, writeFile_gives_iff hdisk, pure_gives, hcontent, hend]
    exact ⟨⟨⟩, _, ⟨by omega, rfl⟩, ⟨⟩, _, ⟨by omega, rfl⟩, ⟨⟩, _, ⟨trivial, rfl⟩, names, _,
      ⟨hnames, rfl⟩, ⟨⟩, _, ⟨hthrough, hdir, rfl⟩, ⟨⟩, _, ⟨trivial, rfl⟩, hnext, rfl⟩

/-! ## All files -/

/-- What unpacking leaves of a file, written over what is there. -/
structure Writes (file : String × List UInt8) (tree : Tree) (names : List String) : Prop where
  noSpace : ' ' ∉ file.1.toList
  path : archiveOutputPath file.1 = .ok names
  notThrough : Tree.throughFile tree names = false
  notDir : Tree.isDir tree names = false

/-- The trees that unpacking files one after the other leaves. -/
def Leaves : List (String × List UInt8) → Tree → Tree → Prop
  | [], tree, tree' => tree' = tree
  | file :: files, tree, tree' =>
    ∃ names, Writes file tree names ∧ Leaves files ((names, file.2) :: tree) tree'

/-- The blocks of files, one after the other. -/
def fileBlocks (crates : Crates) (files : List (String × List UInt8)) : List UInt8 :=
  files.flatMap fun file => fileBlock crates file.1 file.2

theorem unpackFiles_gives_iff (hdisk : Permits disk) {archive rest : List UInt8}
    (hsize : archive.length < 2 ^ 64) {files : List (String × List UInt8)}
    (hlines : ∀ file ∈ files, '\n' ∉ file.1.toList) {cursor next : Nat} {tree : Tree}
    {state' : Option Tree} (hdrop : archive.drop cursor = fileBlocks crates files ++ rest) :
    (unpackFiles crates disk archive target files.length cursor).Gives (some tree) next state' ↔
      next = cursor + (fileBlocks crates files).length ∧
        ∃ tree', state' = some tree' ∧ Leaves files tree tree' := by
  induction files generalizing cursor tree with
  | nil =>
    simp only [unpackFiles, List.length_nil, pure_gives, fileBlocks, List.flatMap_nil, Leaves,
      exists_eq_right, Nat.add_zero]
    exact and_congr eq_comm eq_comm
  | cons file files ih =>
    have hblocks : fileBlocks crates (file :: files) =
        fileBlock crates file.1 file.2 ++ fileBlocks crates files := List.flatMap_cons
    have hfirst : archive.drop cursor =
        fileBlock crates file.1 file.2 ++ (fileBlocks crates files ++ rest) := by
      rw [hdrop, hblocks, List.append_assoc]
    have hothers : archive.drop (cursor + (fileBlock crates file.1 file.2).length) =
        fileBlocks crates files ++ rest := by
      rw [← List.drop_drop, hfirst, List.drop_left]
    have hone := hlines file List.mem_cons_self
    have hlines' (file) (hmem : file ∈ files) : '\n' ∉ file.1.toList :=
      hlines file (List.mem_cons_of_mem _ hmem)
    rw [List.length_cons, unpackFiles, bind_gives, hblocks, List.length_append]
    constructor
    · rintro ⟨cursor', state'', hround, hloop⟩
      obtain ⟨hspace, names, hnames, hthrough, hdir, rfl, rfl⟩ :=
        (unpackFile_gives_iff hdisk hsize hfirst hone).1 hround
      obtain ⟨rfl, tree', rfl, hleaves⟩ := (ih hlines' hothers).1 hloop
      exact ⟨by omega, tree', rfl, names, ⟨hspace, hnames, hthrough, hdir⟩, hleaves⟩
    · rintro ⟨rfl, tree', rfl, names, hwrites, hleaves⟩
      refine ⟨_, _, (unpackFile_gives_iff hdisk hsize hfirst hone).2 ⟨hwrites.noSpace, names,
        hwrites.path, hwrites.notThrough, hwrites.notDir, rfl, rfl⟩, ?_⟩
      exact (ih hlines' hothers).2 ⟨by omega, tree', rfl, hleaves⟩

/-! ## The archive -/

/-- The lines before the files. -/
def archiveHeader (package version : String) (count : Nat) : List UInt8 :=
  line "nomo-package-v1" ++ line s!"package {package}" ++ line s!"version {version}" ++
    line s!"files {count}"

theorem readArchiveLine_line {archive rest : List UInt8} {cursor : Nat} {text : String}
    (hdrop : archive.drop cursor = line text ++ rest) (hline : '\n' ∉ text.toList) :
    readArchiveLine archive cursor = .ok (text, cursor + (line text).length) := by
  have hread : archive.drop cursor = bytes text ++ 10 :: rest := by simpa [line] using hdrop
  rw [readArchiveLine_of_drop hread hline]
  simp [line, Nat.add_assoc]

theorem expectArchiveLine_iff {archive rest : List UInt8} {cursor next : Nat} {text : String}
    (hdrop : archive.drop cursor = line text ++ rest) :
    expectArchiveLine archive cursor text = .ok next ↔
      '\n' ∉ text.toList ∧ next = cursor + (line text).length := by
  constructor
  · intro h
    simp only [expectArchiveLine, bind_eq_ok, require_eq_ok, pure_eq_ok] at h
    obtain ⟨⟨actual, cursor'⟩, hread, _, rfl, rfl⟩ := h
    have hline : '\n' ∉ actual.toList := newline_not_mem_of_readArchiveLine hread
    rw [readArchiveLine_line hdrop hline] at hread
    exact ⟨hline, (Prod.mk.inj (Except.ok.inj hread)).2.symm⟩
  · rintro ⟨hline, rfl⟩
    simp [expectArchiveLine, readArchiveLine_line hdrop hline]

theorem drop_after {archive before after : List UInt8} {cursor : Nat}
    (hdrop : archive.drop cursor = before ++ after) :
    archive.drop (cursor + before.length) = after := by
  rw [← List.drop_drop, hdrop, List.drop_left]

theorem stripPrefix_append (start rest : String) : stripPrefix start (start ++ rest) = some rest := by
  have hstart : start.toList.isPrefixOf? (start ++ rest).toList = some rest.toList := by
    rw [List.isPrefixOf?_eq_some_iff_append_eq, String.toList_append]
  rw [stripPrefix, hstart, Option.map_some, String.ofList_toList]

theorem length_le_length_fileBlocks (crates : Crates) (files : List (String × List UInt8)) :
    files.length ≤ (fileBlocks crates files).length := by
  induction files with
  | nil => simp
  | cons file files ih =>
    have hblocks : fileBlocks crates (file :: files) =
        fileBlock crates file.1 file.2 ++ fileBlocks crates files := List.flatMap_cons
    rw [hblocks, List.length_append, length_fileBlock, List.length_cons]
    omega

theorem unpackInto_gives_iff (hdisk : Permits disk) {files : List (String × List UInt8)}
    {archive : List UInt8} {cursor : Nat} (hdrop : archive.drop cursor = fileBlocks crates files ++ [])
    (hstop : cursor + (fileBlocks crates files).length = archive.length)
    (hsize : archive.length < 2 ^ 64) (hlines : ∀ file ∈ files, '\n' ∉ file.1.toList)
    {state state' : Option Tree} {u : PUnit} :
    (do Attempt.lift (permit (disk.createDir target))
        Attempt.update fun _ => some []
        let cursor ← unpackFiles crates disk archive target files.length cursor
        Attempt.lift (require (cursor = archive.length) "package archive contains trailing data")
        let tree ← Attempt.read fun state => state.getD []
        Attempt.lift (require (Tree.isFile tree ["nomo.toml"] = true ∧ Tree.isDir tree ["src"] = true)
          "package archive must contain nomo.toml and src/") :
      Attempt (Option Tree) PUnit).Gives state u state' ↔
      ∃ tree, state' = some tree ∧ Leaves files [] tree ∧ Tree.isFile tree ["nomo.toml"] = true ∧
        Tree.isDir tree ["src"] = true := by
  simp only [bind_gives, lift_gives, update_gives, read_gives, require_eq_ok, hdisk.createDir, permit]
  constructor
  · rintro ⟨_, _, ⟨-, rfl⟩, _, _, rfl, _, _, hfiles, _, _, ⟨-, rfl⟩, _, _, ⟨rfl, rfl⟩, hroot, rfl⟩
    obtain ⟨rfl, tree, rfl, hleaves⟩ := (unpackFiles_gives_iff hdisk hsize hlines hdrop).1 hfiles
    exact ⟨tree, rfl, hleaves, hroot⟩
  rintro ⟨tree, rfl, hleaves, hroot⟩
  have hfiles : (unpackFiles crates disk archive target files.length cursor).Gives (some [])
      (cursor + (fileBlocks crates files).length) (some tree) :=
    (unpackFiles_gives_iff hdisk hsize hlines hdrop).2 ⟨rfl, tree, rfl, hleaves⟩
  exact ⟨⟨⟩, _, ⟨trivial, rfl⟩, ⟨⟩, _, rfl, _, _, hfiles, ⟨⟩, _, ⟨hstop, rfl⟩, _, _, ⟨rfl, rfl⟩, hroot, rfl⟩

/-- **Unpacking an archive of packed files.** It succeeds if and only if the package and the version
are one line each and the files can be unpacked, with the manifest and a source among them. -/
theorem unpackPackageArchive_gives_iff (hdisk : Permits disk) {package version : String}
    {files : List (String × List UInt8)} {archive : List UInt8}
    (harchive : archive = archiveHeader package version files.length ++ fileBlocks crates files)
    (hsize : archive.length < 2 ^ 64) (hlines : ∀ file ∈ files, '\n' ∉ file.1.toList)
    {state state' : Option Tree} {u : PUnit} :
    (unpackPackageArchive crates disk archive package version target).Gives state u state' ↔
      '\n' ∉ package.toList ∧ '\n' ∉ version.toList ∧ ∃ tree, state' = some tree ∧
        Leaves files [] tree ∧ Tree.isFile tree ["nomo.toml"] = true ∧
        Tree.isDir tree ["src"] = true := by
  have hcount : files.length < 2 ^ 64 := by
    have hle := length_le_length_fileBlocks crates files
    have hlength := congrArg List.length harchive
    rw [List.length_append] at hlength
    omega
  have hmagic : archive.drop 0 = line "nomo-package-v1" ++ (line s!"package {package}" ++
      (line s!"version {version}" ++ (line s!"files {files.length}" ++
        (fileBlocks crates files ++ [])))) := by
    rw [List.drop_zero, harchive]
    simp [archiveHeader]
  have hpackage := drop_after hmagic
  have hversion := drop_after hpackage
  have hfiles := drop_after hversion
  have hblocks := drop_after hfiles
  have hcountLine : '\n' ∉ (s!"files {files.length}").toList := by
    show '\n' ∉ ("files " ++ files.length.repr).toList
    rw [String.toList_append, List.mem_append]
    rintro (h | h)
    · revert h
      decide
    · simpa using mem_decimal h
  have hfilesLine := readArchiveLine_line hfiles hcountLine
  have hparse : (stripPrefix "files " s!"files {files.length}").bind parseUsize =
      some files.length := by
    show (stripPrefix "files " ("files " ++ files.length.repr)).bind parseUsize = _
    rw [stripPrefix_append, Option.bind_some, parseUsize_repr hcount]
  rw [Nat.zero_add] at hpackage hversion hfiles hblocks hfilesLine
  have hstop : (line "nomo-package-v1").length + (line s!"package {package}").length +
      (line s!"version {version}").length + (line s!"files {files.length}").length +
      (fileBlocks crates files).length = archive.length := by
    rw [harchive, archiveHeader]
    simp only [List.length_append]
  have hpackageLine : '\n' ∉ (s!"package {package}").toList ↔ '\n' ∉ package.toList := by
    show '\n' ∉ ("package " ++ package).toList ↔ _
    simp
  have hversionLine : '\n' ∉ (s!"version {version}").toList ↔ '\n' ∉ version.toList := by
    show '\n' ∉ ("version " ++ version).toList ↔ _
    simp
  have hinto (start : Option Tree) := @unpackInto_gives_iff crates disk target hdisk files archive _
    hblocks hstop hsize hlines start state' u
  rw [← hpackageLine, ← hversionLine]
  simp only [unpackPackageArchive, bind_gives, lift_gives, expectArchiveLine_iff hmagic]
  constructor
  · rintro ⟨_, _, ⟨⟨-, rfl⟩, rfl⟩, hrun⟩
    rw [Nat.zero_add] at hrun
    simp only [expectArchiveLine_iff hpackage] at hrun
    obtain ⟨_, _, ⟨⟨hpkg, rfl⟩, rfl⟩, hrun⟩ := hrun
    simp only [expectArchiveLine_iff hversion] at hrun
    obtain ⟨_, _, ⟨⟨hver, rfl⟩, rfl⟩, hrun⟩ := hrun
    simp only [hfilesLine] at hrun
    obtain ⟨_, _, ⟨h, rfl⟩, hrun⟩ := hrun
    cases h
    simp only [hparse, orElse_eq_ok, read_gives] at hrun
    obtain ⟨_, _, ⟨hcount, rfl⟩, _, _, ⟨rfl, rfl⟩, hrun⟩ := hrun
    obtain rfl := Option.some_inj.1 hcount
    refine ⟨hpkg, hver, ?_⟩
    split_ifs at hrun with hexists
    · obtain ⟨_, _, -, hrun⟩ := bind_gives.1 hrun
      obtain ⟨_, _, -, hrun⟩ := bind_gives.1 hrun
      exact (hinto _).1 hrun
    · exact (hinto _).1 hrun
  · rintro ⟨hpkg, hver, hleft⟩
    refine ⟨_, _, ⟨⟨by decide, rfl⟩, rfl⟩, ?_⟩
    rw [Nat.zero_add]
    simp only [expectArchiveLine_iff hpackage]
    refine ⟨_, _, ⟨⟨hpkg, rfl⟩, rfl⟩, ?_⟩
    simp only [expectArchiveLine_iff hversion]
    refine ⟨_, _, ⟨⟨hver, rfl⟩, rfl⟩, ?_⟩
    simp only [hfilesLine]
    refine ⟨_, _, ⟨rfl, rfl⟩, ?_⟩
    simp only [hparse, orElse_eq_ok, read_gives]
    refine ⟨_, _, ⟨rfl, rfl⟩, _, _, ⟨rfl, rfl⟩, ?_⟩
    split_ifs with hexists
    · have hremove : (permit (disk.removeDir target)).mapError (fun err =>
          s!"failed to replace cached registry package at {target}: {err}") = .ok () := by
        rw [hdisk.removeDir]
        rfl
      exact bind_gives.2 ⟨⟨⟩, _, lift_gives.2 ⟨hremove, rfl⟩, bind_gives.2 ⟨⟨⟩, _, update_gives.2 rfl,
        (hinto _).2 hleft⟩⟩
    · exact (hinto _).2 hleft

end

end Nomo.Packing
