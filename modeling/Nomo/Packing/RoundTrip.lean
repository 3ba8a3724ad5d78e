import Nomo.Packing.Unpacking

/-!
# The archive round trip

What the packer accepts and what the unpacker restores. The header of a file separates its path from
the length with a space, a path in the archive is text, and a backslash in it becomes a slash: a
package comes back exactly if no path of it has a space or a backslash and all are UTF-8, and the
package and the version are one line each.
-/

namespace Nomo.Packing

open Nomo.Lib Nomo.Lib.Checked Nomo.Lib.Attempt Nomo.SupplyChain Nomo.Resolver Nomo.Deps

/-! ## Paths -/

/-- A path of a packaged file: it starts with a name and does not lead upwards. -/
structure PackagePath.WellFormed (path : PackagePath) : Prop where
  noSlash : ∀ s ∈ path, 47 ∉ s
  noParent : [46, 46] ∉ path
  starts : ∃ name rest, path = name :: rest ∧ name ≠ [] ∧ name ≠ [46]

theorem follow_append (entry : Entry) (before after : List (List UInt8)) :
    entry.follow (before ++ after) = (entry.follow before).bind (·.follow after) := by
  induction before generalizing entry with
  | nil => simp [Entry.follow]
  | cons name before ih =>
    cases entry with
    | directory entries =>
      simp only [List.cons_append, Entry.follow]
      cases entries.lookup name with
      | none => rfl
      | some entry => exact ih entry
    | file _ _ | closed _ | other => rfl

theorem components_eq_of_leads {root : PackageRoot} {a b : PackagePath} {x y : List UInt8}
    (ha : root.read a = .ok x) (hb : root.read b = .ok y) (h : a.components <+: b.components) :
    a.components = b.components := by
  obtain ⟨names, hnames⟩ := h
  have hfollow : root.follow b = (root.follow a).bind (·.follow names) := by
    rw [PackageRoot.follow, PackageRoot.follow, ← hnames, follow_append]
  cases names with
  | nil => rw [← hnames, List.append_nil]
  | cons name names =>
    exfalso
    rw [PackageRoot.read] at ha hb
    rw [hfollow] at hb
    split at ha
    next content inside hfile =>
      rw [hfile] at hb
      simp [Entry.follow] at hb
    next => cases ha

theorem read_congr {root : PackageRoot} {a b : PackagePath} (h : a.components = b.components) :
    root.read a = root.read b := by
  rw [PackageRoot.read, PackageRoot.read, PackageRoot.follow, PackageRoot.follow, h]

/-! ### Listing -/

/-- Names below a directory. -/
def Below (dir path : PackagePath) : Prop :=
  ∃ names : List FileName, names ≠ [] ∧ path = dir ++ names.map (·.bytes)

mutual

theorem below_of_collectSourceFiles {dir : PackagePath} :
    ∀ {entries : Entries} {paths : List PackagePath}, collectSourceFiles dir entries = .ok paths →
      ∀ path ∈ paths, Below dir path
  | .nil, paths, h => by
    cases h
    simp
  | .cons name entry rest, paths, h => by
    simp only [collectSourceFiles, bind_eq_ok, pure_eq_ok] at h
    obtain ⟨files, hfiles, more, hmore, rfl⟩ := h
    intro path hpath
    rcases List.mem_append.1 hpath with hpath | hpath
    · exact below_of_collectEntry hfiles path hpath
    · exact below_of_collectSourceFiles hmore path hpath

theorem below_of_collectEntry {dir : PackagePath} {name : FileName} :
    ∀ {entry : Entry} {paths : List PackagePath},
      collectEntry (dir ++ [name.bytes]) entry = .ok paths → ∀ path ∈ paths, Below dir path
  | .file _ _, paths, h => by
    cases h
    intro path hpath
    obtain rfl := List.mem_singleton.1 hpath
    exact ⟨[name], by simp, rfl⟩
  | .directory entries, paths, h => by
    intro path hpath
    obtain ⟨names, -, rfl⟩ := below_of_collectSourceFiles h path hpath
    exact ⟨name :: names, by simp, by simp⟩
  | .closed _, _, h => by cases h
  | .other, paths, h => by
    cases h
    simp

end

theorem components_map_bytes (names : List FileName) :
    PackagePath.components (names.map (·.bytes)) = names.map (·.bytes) := by
  refine List.filter_eq_self.2 fun s hs => ?_
  obtain ⟨name, -, rfl⟩ := List.mem_map.1 hs
  simpa using ⟨name.valid.1, name.valid.2.2.2.1⟩

theorem wellFormed_map_bytes {names : List FileName} (h : names ≠ []) :
    PackagePath.WellFormed (names.map (·.bytes)) where
  noSlash s hs := by
    obtain ⟨name, -, rfl⟩ := List.mem_map.1 hs
    exact name.valid.2.1
  noParent hs := by
    obtain ⟨name, -, hname⟩ := List.mem_map.1 hs
    exact name.valid.2.2.2.2 hname
  starts := by
    obtain ⟨name, rest, rfl⟩ := List.exists_cons_of_ne_nil h
    exact ⟨name.bytes, rest.map (·.bytes), rfl, name.valid.1, name.valid.2.2.2.1⟩

/-! ### Sorting -/

@[simp] theorem mem_sortPaths {path : PackagePath} {paths : List PackagePath} :
    path ∈ sortPaths paths ↔ path ∈ paths := by
  rw [sortPaths]
  exact (List.perm_insertionSort _ paths).mem_iff

theorem mem_of_mem_dedupAfter {kept path : PackagePath} {paths : List PackagePath}
    (h : path ∈ dedupAfter kept paths) : path ∈ paths := by
  induction paths generalizing kept with
  | nil => exact h
  | cons b rest ih =>
    rw [dedupAfter] at h
    split_ifs at h
    · exact List.mem_cons_of_mem b (ih h)
    · rcases List.mem_cons.1 h with rfl | h
      · exact List.mem_cons_self
      · exact List.mem_cons_of_mem b (ih h)

theorem mem_of_mem_dedupPaths {path : PackagePath} {paths : List PackagePath}
    (h : path ∈ dedupPaths paths) : path ∈ paths := by
  cases paths with
  | nil => exact h
  | cons a rest =>
    rcases List.mem_cons.1 h with rfl | h
    · exact List.mem_cons_self
    · exact List.mem_cons_of_mem a (mem_of_mem_dedupAfter h)

theorem exists_mem_dedupAfter {kept path : PackagePath} {paths : List PackagePath}
    (h : path ∈ kept :: paths) :
    ∃ path' ∈ kept :: dedupAfter kept paths, path'.components = path.components := by
  induction paths generalizing kept with
  | nil => exact ⟨path, h, rfl⟩
  | cons b rest ih =>
    rw [dedupAfter]
    rcases List.mem_cons.1 h with rfl | h
    · exact ⟨path, List.mem_cons_self, rfl⟩
    split_ifs with heq
    · rcases List.mem_cons.1 h with rfl | h
      · exact ⟨kept, List.mem_cons_self, heq⟩
      · exact ih (List.mem_cons_of_mem kept h)
    · obtain ⟨path', hpath', hcomponents⟩ := ih h
      exact ⟨path', List.mem_cons_of_mem kept hpath', hcomponents⟩

theorem exists_mem_dedupPaths {path : PackagePath} {paths : List PackagePath} (h : path ∈ paths) :
    ∃ path' ∈ dedupPaths paths, path'.components = path.components := by
  cases paths with
  | nil => cases h
  | cons a rest => exact exists_mem_dedupAfter h

/-! ### The files of a package -/

theorem spec_of_below_src {path : PackagePath} (h : Below [bytes "src"] path) :
    path.WellFormed ∧ ∃ names, names ≠ [] ∧ path.components = bytes "src" :: names := by
  obtain ⟨names, hne, rfl⟩ := h
  let src : FileName := ⟨bytes "src", by decide⟩
  have hpath : [bytes "src"] ++ names.map (·.bytes) = (src :: names).map (·.bytes) := rfl
  rw [hpath]
  refine ⟨wellFormed_map_bytes (by simp), names.map (·.bytes), by simpa using hne, ?_⟩
  rw [components_map_bytes]
  rfl

theorem wellFormed_of_declared {root : PackageRoot} {paths : List PackagePath}
    (h : root.declaredSources = .ok paths) : ∀ path ∈ paths, path.WellFormed := by
  simp only [PackageRoot.declaredSources, bind_eq_ok, pure_eq_ok, each_eq_ok, require_eq_ok] at h
  obtain ⟨raw, -, _, -, sources, hsources, _, hfiles, rfl⟩ := h
  intro path hpath
  obtain ⟨source, hsource, rfl⟩ := List.mem_map.1 hpath
  have hfile := hfiles source hsource
  obtain ⟨text, -, hrebase⟩ := exists_of_mem_collect hsources hsource
  simp only [rebaseFfiSourcePath, bind_eq_ok, require_eq_ok, pure_eq_ok] at hrebase
  obtain ⟨_, ⟨-, hparent⟩, rfl⟩ := hrebase
  have hsub : ∀ s ∈ ((split '/' text).map bytes).dropWhile fun s => s == [] || s == [46],
      ∃ field ∈ split '/' text, bytes field = s := fun s hs =>
    List.mem_map.1 ((List.dropWhile_suffix _).subset hs)
  refine ⟨fun s hs => ?_, fun hs => ?_, ?_⟩
  · obtain ⟨field, hfield, rfl⟩ := hsub s hs
    rw [slash_mem_bytes]
    exact not_mem_of_mem_split hfield
  · obtain ⟨field, hfield, hbytes⟩ := hsub _ hs
    obtain rfl : field = ".." := bytes_inj.1 (hbytes.trans (by decide))
    exact hparent hfield
  -- The last segment is a name, so not all are dropped.
  simp only [PackageRoot.isFile, Bool.and_eq_true, bne_iff_ne] at hfile
  obtain ⟨⟨hempty, hdot⟩, -⟩ := hfile
  have hne : ((split '/' text).map bytes).dropWhile (fun s => s == [] || s == [46]) ≠ [] := by
    intro hnil
    have hall := List.dropWhile_eq_nil_iff.1 hnil
    obtain ⟨last, hlast⟩ := Option.ne_none_iff_exists'.1
      (mt List.getLast?_eq_none_iff.1 (by simpa using split_ne_nil '/' text :
        (split '/' text).map bytes ≠ []))
    have hdropped := hall last (List.mem_of_getLast? hlast)
    rw [hlast] at hempty hdot
    simp at hdropped hempty hdot
    exact hdropped.elim hempty hdot
  obtain ⟨name, rest, hrest⟩ := List.exists_cons_of_ne_nil hne
  have hhead := List.head_dropWhile_not (fun s : List UInt8 => s == [] || s == [46]) hne
  simp only [hrest, List.head_cons] at hhead
  refine ⟨name, rest, hrest, ?_, ?_⟩ <;> rintro rfl <;> simp at hhead

/-- What the packer accepts. -/
structure PackagedPaths (paths : List PackagePath) : Prop where
  wellFormed : ∀ path ∈ paths, path.WellFormed
  manifest : ∃ path ∈ paths, path.components = [bytes "nomo.toml"]
  src : ∃ path ∈ paths, ∃ names, names ≠ [] ∧ path.components = bytes "src" :: names

theorem packagedPaths_of_packageSourceFiles {root : PackageRoot} {paths : List PackagePath}
    (h : root.packageSourceFiles = .ok paths) : PackagedPaths paths := by
  simp only [PackageRoot.packageSourceFiles, bind_eq_ok, pure_eq_ok, each_eq_ok, require_eq_ok] at h
  obtain ⟨_, -, listed, hlisted, _, hne, sources, hsources, _, -, rfl⟩ := h
  have hbelow : ∀ path ∈ listed, Below [bytes "src"] path := by
    unfold PackageRoot.collectSrc at hlisted
    dsimp only at hlisted
    split at hlisted
    next entries _ => exact below_of_collectSourceFiles hlisted
    next => cases hlisted
    next => cases hlisted
  have hkept : ∀ path : PackagePath, path ∈ [bytes "nomo.toml"] :: listed ++ sources →
      ∃ path' ∈ dedupPaths (sortPaths ([bytes "nomo.toml"] :: listed ++ sources)),
        path'.components = path.components := fun path hpath =>
    exists_mem_dedupPaths (mem_sortPaths.2 hpath)
  let manifest : FileName := ⟨bytes "nomo.toml", by decide⟩
  have hmanifest : ([bytes "nomo.toml"] : PackagePath) = [manifest].map (·.bytes) := rfl
  constructor
  · intro path hpath
    rcases List.mem_cons.1 (mem_sortPaths.1 (mem_of_mem_dedupPaths hpath)) with rfl | hpath
    · rw [hmanifest]
      exact wellFormed_map_bytes (by simp)
    · rcases List.mem_append.1 hpath with hpath | hpath
      · exact (spec_of_below_src (hbelow path hpath)).1
      · exact wellFormed_of_declared hsources path hpath
  · obtain ⟨path, hpath, hcomponents⟩ := hkept [bytes "nomo.toml"] List.mem_cons_self
    refine ⟨path, hpath, hcomponents.trans ?_⟩
    rw [hmanifest, components_map_bytes]
  · obtain ⟨file, rest, rfl⟩ := List.exists_cons_of_ne_nil hne
    obtain ⟨-, names, hnames, hfile⟩ := spec_of_below_src (hbelow file List.mem_cons_self)
    obtain ⟨path, hpath, hcomponents⟩ := hkept file (by simp)
    exact ⟨path, hpath, names, hnames, hcomponents.trans hfile⟩

/-! ## Paths as text -/

/-- The path can be text in an archive: UTF-8, without a space or a backslash. -/
def Portable (path : PackagePath) : Prop :=
  ∃ text : String, path.text = bytes text ∧ ' ' ∉ text.toList ∧ '\\' ∉ text.toList

theorem path_eq_of_text {path : PackagePath} {text : String} (hpath : path.WellFormed)
    (htext : path.text = bytes text) : path = (split '/' text).map bytes := by
  obtain ⟨name, rest, hcons, -, -⟩ := hpath.starts
  rw [← intercalate_split '/' text, bytes_intercalate_slash] at htext
  have hfields (s) (hs : s ∈ (split '/' text).map bytes) : 47 ∉ s := by
    obtain ⟨field, hfield, rfl⟩ := List.mem_map.1 hs
    rw [slash_mem_bytes]
    exact not_mem_of_mem_split hfield
  have hne : (split '/' text).map bytes ≠ [] := by simpa using split_ne_nil '/' text
  rw [← List.splitOn_intercalate 47 hpath.noSlash (by simp [hcons]),
    ← List.splitOn_intercalate 47 hfields hne]
  exact congrArg (List.splitOn 47) htext

/-- The unpacker takes the path of a packaged file, and finds the names in it. -/
theorem archiveOutputPath_of_text {path : PackagePath} {text : String} (hpath : path.WellFormed)
    (htext : path.text = bytes text) :
    ∃ names, archiveOutputPath text = .ok names ∧ names.map bytes = path.components := by
  obtain ⟨name, rest, hcons, hname, hdot⟩ := hpath.starts
  have hfields := path_eq_of_text hpath htext
  have hfirst (field) : (split '/' text).head? = some field → bytes field = name := by
    intro hfield
    have hhead := congrArg List.head? hfields
    rw [hcons, List.head?_map, hfield] at hhead
    exact (Option.some_inj.1 hhead).symm
  have hrelative : text.toList.head? ≠ some '/' := by
    intro hslash
    obtain ⟨cs, hcs⟩ := List.head?_eq_some_iff.1 hslash
    refine hname (hfirst "" ?_).symm
    simp [split, hcs, splitChars]
  have hsafe : (split '/' text).head? ≠ some "." ∧ ".." ∉ split '/' text := by
    refine ⟨fun h => hdot ((hfirst "." h).symm.trans (by decide)), fun h => hpath.noParent ?_⟩
    rw [hfields]
    exact List.mem_map.2 ⟨"..", h, by decide⟩
  refine ⟨(split '/' text).filter fun segment => segment ≠ "" ∧ segment ≠ ".", ?_, ?_⟩
  · simp [archiveOutputPath, hrelative, hsafe]
  rw [PackagePath.components, hfields, List.filter_map]
  congr 1
  refine List.filter_congr fun field _ => ?_
  have hempty : bytes field = [] ↔ field = "" := bytes_inj (t := "")
  have hcurrent : bytes field = [46] ↔ field = "." := by
    rw [← bytes_inj (t := ".")]
    exact Iff.of_eq (congrArg _ (by decide))
  simp [hempty, hcurrent]

theorem mem_of_archiveOutputPath {text : String} {names : List String}
    (h : archiveOutputPath text = .ok names) : ∀ name ∈ names, name ∈ split '/' text := by
  simp only [archiveOutputPath, bind_eq_ok, require_eq_ok, pure_eq_ok] at h
  obtain ⟨_, -, _, -, rfl⟩ := h
  exact fun name hname => (List.mem_filter.1 hname).1

/-! ## What the loop leaves -/

theorem noSpace_of_leaves {files : List (String × List UInt8)} {tree tree' : Tree}
    (h : Leaves files tree tree') : ∀ file ∈ files, ' ' ∉ file.1.toList := by
  induction files generalizing tree with
  | nil => simp
  | cons file files ih =>
    obtain ⟨names, hwrites, hleaves⟩ := h
    intro other hother
    rcases List.mem_cons.1 hother with rfl | hother
    · exact hwrites.noSpace
    · exact ih hleaves other hother

theorem exists_of_mem_leaves {files : List (String × List UInt8)} {tree tree' : Tree}
    (h : Leaves files tree tree') {entry : List String × List UInt8} (hentry : entry ∈ tree') :
    entry ∈ tree ∨ ∃ file ∈ files, archiveOutputPath file.1 = .ok entry.1 ∧ file.2 = entry.2 := by
  induction files generalizing tree with
  | nil =>
    obtain rfl := h
    exact .inl hentry
  | cons file files ih =>
    obtain ⟨names, hwrites, hleaves⟩ := h
    rcases ih hleaves with hmem | ⟨other, hother, hpath⟩
    · rcases List.mem_cons.1 hmem with rfl | hmem
      · exact .inr ⟨file, List.mem_cons_self, hwrites.path, rfl⟩
      · exact .inl hmem
    · exact .inr ⟨other, List.mem_cons_of_mem file hother, hpath⟩

/-- No file is in the way of another. -/
def Separate (tree : Tree) : Prop :=
  ∀ a ∈ tree, ∀ b ∈ tree, a.1 <+: b.1 → a.1 = b.1

/-- Files that the unpacker takes and that are not in each other's way are all left. -/
theorem leaves_of_separate {files : List (String × List UInt8)} {entries tree : Tree}
    (hfiles : List.Forall₂ (fun file entry => ' ' ∉ file.1.toList ∧
      archiveOutputPath file.1 = .ok entry.1 ∧ file.2 = entry.2) files entries)
    (hnonempty : ∀ entry ∈ entries, entry.1 ≠ [])
    (hseparate : Separate (entries.reverse ++ tree)) :
    Leaves files tree (entries.reverse ++ tree) := by
  induction hfiles generalizing tree with
  | nil => rfl
  | @cons file entry files entries hfile hrest ih =>
    have htree : (entry :: entries).reverse ++ tree = entries.reverse ++ entry :: tree := by simp
    rw [htree] at hseparate ⊢
    have hentry : entry ∈ entries.reverse ++ entry :: tree :=
      List.mem_append_right _ List.mem_cons_self
    have hbefore (other) (hother : other ∈ tree) : other ∈ entries.reverse ++ entry :: tree :=
      List.mem_append_right _ (List.mem_cons_of_mem entry hother)
    refine ⟨entry.1, ⟨hfile.1, hfile.2.1, ?_, ?_⟩, ?_⟩
    · rw [Tree.throughFile, List.any_eq_false]
      rintro ⟨names, content⟩ hother
      have heq := hseparate _ (hbefore _ hother) entry hentry
      simp only [List.isPrefixOf_iff_prefix, Bool.and_eq_true, bne_iff_ne]
      rintro ⟨hleads, hne⟩
      exact hne (heq hleads)
    · rw [Tree.isDir, Bool.or_eq_false_iff, List.any_eq_false]
      refine ⟨by simpa using hnonempty entry List.mem_cons_self, ?_⟩
      rintro ⟨names, content⟩ hother
      have heq := hseparate entry hentry _ (hbefore _ hother)
      simp only [List.isPrefixOf_iff_prefix, Bool.and_eq_true, bne_iff_ne]
      rintro ⟨hleads, hne⟩
      exact hne (heq hleads)
    · rw [hfile.2.2]
      exact ih (fun other hother => hnonempty other (List.mem_cons_of_mem entry hother)) hseparate

/-! ## The archive of a package -/

/-- The directory has the packaged files, with the bytes they had, and no others. -/
def Restores (root : PackageRoot) (paths : List PackagePath) (tree : Tree) : Prop :=
  ∀ names content, (∃ names', names'.map bytes = names ∧ tree.lookup names' = some content) ↔
    ∃ path ∈ paths, path.components = names ∧ root.read path = .ok content

theorem lookup_eq_some_iff_mem {tree : Tree}
    (h : ∀ names x y, (names, x) ∈ tree → (names, y) ∈ tree → x = y) {names : List String}
    {content : List UInt8} : tree.lookup names = some content ↔ (names, content) ∈ tree := by
  constructor
  · intro hlookup
    obtain ⟨before, after, rfl, -⟩ := List.lookup_eq_some_iff.1 hlookup
    simp
  intro hmem
  cases hlookup : tree.lookup names with
  | none =>
    have hne := List.lookup_eq_none_iff.1 hlookup _ hmem
    simp at hne
  | some other =>
    obtain ⟨before, after, htree, -⟩ := List.lookup_eq_some_iff.1 hlookup
    rw [h names other content (by simp [htree]) hmem]

section

variable {crates : Crates} {root : PackageRoot} {package : PackageMetadata}

theorem packFile_eq_ok {path : PackagePath} {block : List UInt8} :
    packFile crates root path = .ok block ↔ '\n' ∉ (relativeText path).toList ∧
      '\x00' ∉ (relativeText path).toList ∧ ∃ content, root.read path = .ok content ∧
        fileBlock crates (relativeText path) content = block := by
  simp [packFile, fileBlock, and_assoc]

theorem archive_eq_of_build {archive : List UInt8} {paths : List PackagePath}
    (hpaths : root.packageSourceFiles = .ok paths)
    (h : buildPackageArchive crates root package = .ok archive) :
    ∃ contents : List (PackagePath × List UInt8), contents.map Prod.fst = sortPaths paths ∧
      (∀ file ∈ contents, root.read file.1 = .ok file.2 ∧ '\n' ∉ (relativeText file.1).toList) ∧
      archive = archiveHeader package.id package.version contents.length ++
        fileBlocks crates (contents.map fun file => (relativeText file.1, file.2)) := by
  simp only [buildPackageArchive, hpaths, bind_eq_ok, pure_eq_ok, collect_eq_ok_iff] at h
  obtain ⟨_, hfiles, packed, hpacked, rfl⟩ := h
  cases hfiles
  have hblocks : ∃ contents : List (PackagePath × List UInt8), contents.map Prod.fst = sortPaths paths ∧
      (∀ file ∈ contents, root.read file.1 = .ok file.2 ∧ '\n' ∉ (relativeText file.1).toList) ∧
      packed.flatten = fileBlocks crates (contents.map fun file => (relativeText file.1, file.2)) := by
    generalize sortPaths paths = sorted at hpacked ⊢
    induction hpacked with
    | nil => exact ⟨[], rfl, by simp, rfl⟩
    | @cons path block paths packed hblock _ ih =>
      obtain ⟨contents, rfl, hread, hflatten⟩ := ih
      obtain ⟨hline, -, content, hcontent, rfl⟩ := packFile_eq_ok.1 hblock
      refine ⟨(path, content) :: contents, rfl, ?_, ?_⟩
      · rintro file (_ | ⟨_, hfile⟩)
        · exact ⟨hcontent, hline⟩
        · exact hread file hfile
      · rw [List.flatten_cons, hflatten]
        rfl
  obtain ⟨contents, hnames, hread, hflatten⟩ := hblocks
  refine ⟨contents, hnames, hread, ?_⟩
  rw [hflatten, ← hnames, List.length_map]
  rfl

theorem exists_text {path : PackagePath}
    (h : ∀ s ∈ path, ∃ field : String, bytes field = s ∧ '\\' ∉ field.toList) :
    ∃ text : String, path.text = bytes text ∧ '\\' ∉ text.toList := by
  choose! field hfield hslash using h
  refine ⟨(String.singleton '/').intercalate (path.map field), ?_, ?_⟩
  · rw [bytes_intercalate_slash, List.map_map, PackagePath.text]
    congr 1
    exact ((List.map_congr_left hfield).trans (List.map_id path)).symm
  rw [String.toList_intercalate]
  intro hmem
  obtain hmem | ⟨part, hpart, hmem⟩ := mem_of_mem_intercalate hmem
  · simp at hmem
  · obtain ⟨name, hname, rfl⟩ := List.mem_map.1 hpart
    obtain ⟨s, hs, rfl⟩ := List.mem_map.1 hname
    exact hslash s hs hmem

theorem relativeText_of_text {path : PackagePath} {text : String} (htext : path.text = bytes text)
    (hslash : '\\' ∉ text.toList) : relativeText path = text := by
  rw [relativeText, htext, toStringLossy_bytes, withSlashes_of_not_mem hslash]

theorem map_toStringLossy_of_map_bytes {names : List String} {segments : List (List UInt8)}
    (h : names.map bytes = segments) : segments.map toStringLossy = names := by
  rw [← h, List.map_map]
  exact (List.map_congr_left fun name _ => toStringLossy_bytes name).trans (List.map_id names)

theorem spec_of_portable {path : PackagePath} (hpath : path.WellFormed) (h : Portable path) :
    ' ' ∉ (relativeText path).toList ∧
      archiveOutputPath (relativeText path) = .ok (path.components.map toStringLossy) ∧
      (path.components.map toStringLossy).map bytes = path.components := by
  obtain ⟨text, htext, hspace, hslash⟩ := h
  obtain ⟨names, hnames, hcomponents⟩ := archiveOutputPath_of_text hpath htext
  rw [relativeText_of_text htext hslash, map_toStringLossy_of_map_bytes hcomponents]
  exact ⟨hspace, hnames, hcomponents⟩

theorem portable_of_restores {contents : List (PackagePath × List UInt8)}
    {paths : List PackagePath} {tree : Tree}
    (hcontents : ∀ path ∈ paths, ∃ content, (path, content) ∈ contents ∧ root.read path = .ok content)
    (hleaves : Leaves (contents.map fun file => (relativeText file.1, file.2)) [] tree)
    (hrestores : Restores root paths tree) : ∀ path ∈ paths, Portable path := by
  intro path hpath
  obtain ⟨content, hmem, hread⟩ := hcontents path hpath
  obtain ⟨names, hnames, hlookup⟩ :=
    (hrestores path.components content).2 ⟨path, hpath, rfl, hread⟩
  obtain ⟨before, after, htree, -⟩ := List.lookup_eq_some_iff.1 hlookup
  -- The names stand in the archive, where a backslash is a slash.
  obtain hnil | ⟨file, hfile, houtput, -⟩ :=
    exists_of_mem_leaves hleaves (show (names, content) ∈ tree by simp [htree])
  · cases hnil
  obtain ⟨packed, -, rfl⟩ := List.mem_map.1 hfile
  have hslash : ∀ name ∈ names, '\\' ∉ name.toList := fun name hname hmem =>
    backslash_not_mem_relativeText packed.1
      (mem_of_mem_split (mem_of_archiveOutputPath houtput name hname) hmem)
  obtain ⟨text, htext, htextSlash⟩ : ∃ text : String, path.text = bytes text ∧ '\\' ∉ text.toList := by
    refine exists_text fun s hs => ?_
    by_cases hname : s ≠ [] ∧ s ≠ [46]
    · have hcomponent : s ∈ path.components := List.mem_filter.2 ⟨hs, by simpa using hname⟩
      obtain ⟨name, hmemName, rfl⟩ := List.mem_map.1 (hnames ▸ hcomponent)
      exact ⟨name, rfl, hslash name hmemName⟩
    · rcases not_and_or.1 hname with hempty | hdot
      · exact ⟨"", (not_not.1 hempty).symm, by decide⟩
      · exact ⟨".", (by decide : bytes "." = [46]).trans (not_not.1 hdot).symm, by decide⟩
  refine ⟨text, htext, ?_, htextSlash⟩
  have hspace := noSpace_of_leaves hleaves _ (List.mem_map_of_mem hmem)
  rwa [relativeText_of_text htext htextSlash] at hspace

/-- The tree that unpacking portable files leaves. -/
def restoredTree (contents : List (PackagePath × List UInt8)) : Tree :=
  (contents.map fun file => (file.1.components.map toStringLossy, file.2)).reverse

theorem leaves_of_portable {contents : List (PackagePath × List UInt8)}
    (hpaths : ∀ file ∈ contents, file.1.WellFormed) (hportable : ∀ file ∈ contents, Portable file.1)
    (hread : ∀ file ∈ contents, root.read file.1 = .ok file.2) :
    Leaves (contents.map fun file => (relativeText file.1, file.2)) [] (restoredTree contents) := by
  rw [restoredTree, ← List.append_nil (List.reverse _)]
  refine leaves_of_separate ?_ ?_ ?_
  · rw [List.forall₂_map_left_iff, List.forall₂_map_right_iff, List.forall₂_same]
    intro file hfile
    obtain ⟨hspace, houtput, -⟩ := spec_of_portable (hpaths file hfile) (hportable file hfile)
    exact ⟨hspace, houtput, rfl⟩
  · intro entry hentry
    obtain ⟨file, hfile, rfl⟩ := List.mem_map.1 hentry
    obtain ⟨name, rest, hcons, hname, hdot⟩ := (hpaths file hfile).starts
    simp [PackagePath.components, hcons, hname, hdot]
  rw [List.append_nil]
  intro a ha b hb hleads
  obtain ⟨x, hx, rfl⟩ := List.mem_map.1 (List.mem_reverse.1 ha)
  obtain ⟨y, hy, rfl⟩ := List.mem_map.1 (List.mem_reverse.1 hb)
  have hbytes := hleads.map bytes
  rw [(spec_of_portable (hpaths x hx) (hportable x hx)).2.2,
    (spec_of_portable (hpaths y hy) (hportable y hy)).2.2] at hbytes
  show x.1.components.map toStringLossy = y.1.components.map toStringLossy
  rw [components_eq_of_leads (hread x hx) (hread y hy) hbytes]

theorem lookup_restoredTree {contents : List (PackagePath × List UInt8)}
    (hpaths : ∀ file ∈ contents, file.1.WellFormed) (hportable : ∀ file ∈ contents, Portable file.1)
    (hread : ∀ file ∈ contents, root.read file.1 = .ok file.2) {names : List String}
    {content : List UInt8} : (restoredTree contents).lookup names = some content ↔
      ∃ file ∈ contents, file.1.components = names.map bytes ∧ file.2 = content := by
  have hbytes : ∀ file ∈ contents,
      (file.1.components.map toStringLossy).map bytes = file.1.components := fun file hfile =>
    (spec_of_portable (hpaths file hfile) (hportable file hfile)).2.2
  have hmem : ∀ names content, (names, content) ∈ restoredTree contents ↔
      ∃ file ∈ contents, file.1.components = names.map bytes ∧ file.2 = content := by
    intro names content
    rw [restoredTree, List.mem_reverse, List.mem_map]
    refine exists_congr fun file => and_congr_right fun hfile => ?_
    rw [Prod.mk.injEq]
    refine and_congr_left' ⟨?_, fun h => map_toStringLossy_of_map_bytes h.symm⟩
    rintro rfl
    exact (hbytes file hfile).symm
  rw [lookup_eq_some_iff_mem, hmem]
  intro names x y hx hy
  obtain ⟨file, hfile, hcomponents, rfl⟩ := (hmem names x).1 hx
  obtain ⟨other, hother, hcomponents', rfl⟩ := (hmem names y).1 hy
  have hsame := hread file hfile
  rw [read_congr (hcomponents.trans hcomponents'.symm), hread other hother] at hsame
  exact (Except.ok.inj hsame).symm

/-- **The archive round trip.** What the packer accepts, unpacking restores exactly if the package
and the version are one line each and every path can be text in an archive. -/
theorem restores_iff_portable {disk : Disk} {archive : List UInt8} {paths : List PackagePath}
    {target : String} {state : Option Tree} (hpaths : root.packageSourceFiles = .ok paths)
    (harchive : buildPackageArchive crates root package = .ok archive)
    (hsize : archive.length < 2 ^ 64) (hdisk : Permits disk) :
    (∃ tree, (unpackPackageArchive crates disk archive package.id package.version target).Gives state
        ⟨⟩ (some tree) ∧ Restores root paths tree) ↔
      '\n' ∉ package.id.toList ∧ '\n' ∉ package.version.toList ∧ ∀ path ∈ paths, Portable path := by
  have hpackaged := packagedPaths_of_packageSourceFiles hpaths
  obtain ⟨contents, hsorted, hread, harch⟩ := archive_eq_of_build hpaths harchive
  have hmem (file) (hfile : file ∈ contents) : file.1 ∈ paths :=
    mem_sortPaths.1 (hsorted ▸ List.mem_map_of_mem hfile)
  have hcontent : ∀ path ∈ paths, ∃ content, (path, content) ∈ contents ∧ root.read path = .ok content := by
    intro path hpath
    obtain ⟨⟨_, content⟩, hfile, rfl⟩ := List.mem_map.1 (hsorted ▸ mem_sortPaths.2 hpath)
    exact ⟨content, hfile, (hread _ hfile).1⟩
  have hlines : ∀ file ∈ contents.map fun file => (relativeText file.1, file.2), '\n' ∉ file.1.toList := by
    intro file hfile
    obtain ⟨packed, hpacked, rfl⟩ := List.mem_map.1 hfile
    exact (hread packed hpacked).2
  rw [← List.length_map (f := fun file => (relativeText file.1, file.2))] at harch
  have hunpack (tree : Tree) := @unpackPackageArchive_gives_iff crates disk target hdisk package.id
    package.version _ archive harch hsize hlines state (some tree) ⟨⟩
  constructor
  · rintro ⟨tree, hrun, hrestores⟩
    obtain ⟨hpkg, hver, tree, htree, hleaves, -, -⟩ := (hunpack _).1 hrun
    obtain rfl := Option.some_inj.1 htree
    exact ⟨hpkg, hver, portable_of_restores hcontent hleaves hrestores⟩
  rintro ⟨hpkg, hver, hportable⟩
  have hwellFormed (file) (hfile : file ∈ contents) : file.1.WellFormed :=
    hpackaged.wellFormed file.1 (hmem file hfile)
  have hportable' (file) (hfile : file ∈ contents) : Portable file.1 :=
    hportable file.1 (hmem file hfile)
  have hread' (file) (hfile : file ∈ contents) : root.read file.1 = .ok file.2 :=
    (hread file hfile).1
  have hlookup {names : List String} {content : List UInt8} :=
    @lookup_restoredTree root contents hwellFormed hportable' hread' names content
  refine ⟨restoredTree contents, (hunpack _).2 ⟨hpkg, hver, _, rfl,
    leaves_of_portable hwellFormed hportable' hread', ?_, ?_⟩, ?_⟩
  · obtain ⟨path, hpath, hcomponents⟩ := hpackaged.manifest
    obtain ⟨content, hfile, -⟩ := hcontent path hpath
    exact Option.isSome_iff_exists.2 ⟨content, hlookup.2 ⟨_, hfile, hcomponents, rfl⟩⟩
  · obtain ⟨path, hpath, names, hnames, hcomponents⟩ := hpackaged.src
    obtain ⟨content, hfile, -⟩ := hcontent path hpath
    have hentry : ("src" :: names.map toStringLossy, content) ∈ restoredTree contents := by
      refine List.mem_reverse.2 (List.mem_map.2 ⟨_, hfile, ?_⟩)
      simp [hcomponents]
    rw [Tree.isDir, Bool.or_eq_true, List.any_eq_true]
    exact .inr ⟨_, hentry, by simpa [List.isPrefixOf] using hnames⟩
  · intro names content
    constructor
    · rintro ⟨names, rfl, hfound⟩
      obtain ⟨file, hfile, hcomponents, rfl⟩ := hlookup.1 hfound
      exact ⟨file.1, hmem file hfile, hcomponents, hread' file hfile⟩
    · rintro ⟨path, hpath, rfl, hcontents⟩
      obtain ⟨content', hfile, hcontent'⟩ := hcontent path hpath
      obtain rfl : content' = content := Except.ok.inj (hcontent'.symm.trans hcontents)
      have hbytes := (spec_of_portable (hwellFormed _ hfile) (hportable' _ hfile)).2.2
      exact ⟨path.components.map toStringLossy, hbytes, hlookup.2 ⟨_, hfile, hbytes.symm, rfl⟩⟩

end

/-! ## A package that does not come back -/

namespace Sample

def manifest : List UInt8 := bytes ("[package]\nnamespace = \"acme\"\nname = \"app\"\n" ++
  "version = \"1.0.0\"\nedition = \"2026\"\n")

def main : List UInt8 := bytes "fn main() -> void \x7b\x7d\n"

theorem manifest_isName : bytes "nomo.toml" ≠ [] ∧ 47 ∉ bytes "nomo.toml" ∧ 0 ∉ bytes "nomo.toml" ∧
    bytes "nomo.toml" ≠ [46] ∧ bytes "nomo.toml" ≠ [46, 46] := by
  decide

theorem src_isName : bytes "src" ≠ [] ∧ 47 ∉ bytes "src" ∧ 0 ∉ bytes "src" ∧ bytes "src" ≠ [46] ∧
    bytes "src" ≠ [46, 46] := by
  decide

/-- A package with a space in the name of its source file. -/
def root : PackageRoot where
  location := "/home/user/app"
  entries := .cons ⟨bytes "nomo.toml", manifest_isName⟩ (.file (.ok manifest) true)
    (.cons ⟨bytes "src", src_isName⟩ (.directory
      (.cons ⟨bytes "my app.nomo", by decide⟩ (.file (.ok main) true) .nil)) .nil)
  ffiSources := .ok []

def package : PackageMetadata where
  packageNamespace := "acme"
  name := "app"
  version := "1.0.0"
  edition := "2026"

/-- The hashes of its files. -/
def crates : Crates := .tabulated
  [(manifest, .ofHex "5cc4f70f2ee09bbb0bd0a183ae4bf7d5b4c748d07227e58d46e0903624faa41d" (by decide)),
    (main, .ofHex "1e9e5810535026bcd4ff00dddf8c7566410c8076544555279aa88229cce624bd" (by decide))]
  [] ["1.0.0"]

/-- A disk that refuses nothing. -/
def disk : Disk where
  read := fun _ => none
  write := fun _ => none
  createDir := fun _ => none
  removeDir := fun _ => none
  rename := fun _ => none
  canonicalize := .ok
  isDirectory := "Is a directory (os error 21)"
  notDirectory := "Not a directory (os error 20)"

theorem permits_disk : Permits disk := ⟨fun _ => rfl, fun _ => rfl, fun _ => rfl⟩

/-- The files that are published. -/
def paths : List PackagePath := [[bytes "nomo.toml"], [bytes "src", bytes "my app.nomo"]]

def archive : List UInt8 :=
  bytes ("nomo-package-v1\npackage acme/app\nversion 1.0.0\nfiles 2\n" ++
    "file nomo.toml 77 sha256:5cc4f70f2ee09bbb0bd0a183ae4bf7d5b4c748d07227e58d46e0903624faa41d\n") ++
    manifest ++
    bytes ("\nfile src/my app.nomo 21 " ++
      "sha256:1e9e5810535026bcd4ff00dddf8c7566410c8076544555279aa88229cce624bd\n") ++
    main ++ [10]

theorem pack_root :
    root.packageSourceFiles = .ok paths ∧
    buildPackageArchive crates root package = .ok archive ∧
    (unpackPackageArchive crates disk archive package.id package.version "/tmp/app" none).1 =
      .error "package archive file `src/my` has invalid length" := by
  decide +kernel

end Sample

/-- A package with a space in a file name is packed, and the archive is refused. -/
theorem buildPackageArchive_not_restored :
    Sample.root.packageSourceFiles = .ok Sample.paths ∧
    buildPackageArchive Sample.crates Sample.root Sample.package = .ok Sample.archive ∧
    ¬ ∃ tree, (unpackPackageArchive Sample.crates Sample.disk Sample.archive Sample.package.id
        Sample.package.version "/tmp/app").Gives none ⟨⟩ (some tree) ∧
      Restores Sample.root Sample.paths tree := by
  obtain ⟨hpaths, harchive, hrefused⟩ := Sample.pack_root
  refine ⟨hpaths, harchive, ?_⟩
  rintro ⟨tree, hrun, -⟩
  rw [Gives] at hrun
  rw [hrun] at hrefused
  cases hrefused

theorem restores_iff_portable_root :
    (∃ tree, (unpackPackageArchive Sample.crates Sample.disk Sample.archive Sample.package.id
        Sample.package.version "/tmp/app").Gives none ⟨⟩ (some tree) ∧
      Restores Sample.root Sample.paths tree) ↔
    '\n' ∉ Sample.package.id.toList ∧ '\n' ∉ Sample.package.version.toList ∧
      ∀ path ∈ Sample.paths, Portable path :=
  restores_iff_portable Sample.pack_root.1 Sample.pack_root.2.1
    (by decide +kernel) Sample.permits_disk

end Nomo.Packing
