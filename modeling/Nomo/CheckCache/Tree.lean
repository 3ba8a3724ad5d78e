import Nomo.Lib.Words
import Nomo.Modules.Loading

/-!
# Source trees

What `collect_nomo_sources` (`nomo/src/incremental.rs:848–863`) finds below a directory, and how it
meets the lookups of the module loader: a module file below a source root is collected, and what is
collected is a file (`mem_collectNomoSources`, `isFile_of_mem_collectNomoSources`).

A directory may be listable or not; a file that cannot be read has the message of the error in place of
its contents.  There are no symbolic links.
-/

namespace Nomo.CheckCache

open Nomo.Lib Nomo.Resolver Nomo.Modules

/-- A file or a directory. -/
inductive Node where
  | file (contents : Except String (List UInt8))
  | dir (listable : Bool) (entries : List (String × Node))

/-- The name of an entry of a directory. -/
def ValidName (name : String) : Prop := name ≠ "" ∧ '/' ∉ name.toList

instance (name : String) : Decidable (ValidName name) := inferInstanceAs (Decidable (_ ∧ _))

namespace Node

/-- The entry of a directory with a name. -/
def child : Node → String → Option Node
  | .file _, _ => none
  | .dir _ entries, name => entries.lookup name

/-- The node that names lead to. -/
def follow : Node → List String → Option Node
  | node, [] => some node
  | node, name :: rest => (node.child name).bind (·.follow rest)

end Node

/-- `extension() == Some("nomo")`. -/
def hasNomoExtension (name : String) : Bool :=
  ".nomo".toList.isSuffixOf name.toList && name != ".nomo"

mutual

/-- The loop of `collect_nomo_sources` over the entries of a directory. -/
def sourcesOf (path : String) : List (String × Node) → List String
  | [] => []
  | (name, node) :: rest => sourcesAt path name node ++ sourcesOf path rest

/-- One round of the loop of `collect_nomo_sources`. -/
def sourcesAt (path name : String) : Node → List String
  | .file _ => if hasNomoExtension name then [pushPath path name] else []
  | .dir listable entries => if listable then sourcesOf (pushPath path name) entries else []

end

/-- `collect_nomo_sources` in a directory with the given path. -/
def sourcesBelow (path : String) : Node → List String
  | .file _ => []
  | .dir listable entries => if listable then sourcesOf path entries else []

mutual

/-- Every directory below can be listed. -/
def Node.listed : Node → Bool
  | .file _ => true
  | .dir listable entries => listable && listedEntries entries

/-- Every directory below the entries can be listed. -/
def listedEntries : List (String × Node) → Bool
  | [] => true
  | (_, node) :: rest => node.listed && listedEntries rest

end

mutual

/-- The entries of every directory have different names. -/
def Node.valid : Node → Bool
  | .file _ => true
  | .dir _ entries => (entries.map Prod.fst).Nodup && validEntries entries

/-- The entries of a directory are named and valid. -/
def validEntries : List (String × Node) → Bool
  | [] => true
  | (name, node) :: rest => ValidName name && node.valid && validEntries rest

end

/-! ## Paths -/

/-- The names in a path. -/
def components (path : String) : List String :=
  (words (· = '/') path.toList).map String.ofList

theorem words_of_validName {name : String} (h : ValidName name) :
    words (· = '/') name.toList = [name.toList] := by
  refine words_of_forall_not (fun c hc => ?_) ?_
  · rw [decide_eq_false_iff_not]
    rintro rfl
    exact h.2 hc
  · intro hnil
    exact h.1 (String.toList_inj.1 hnil)

theorem components_pushPath (path : String) {name : String} (h : ValidName name) :
    components (pushPath path name) = components path ++ [name] := by
  have hhead : name.toList.head? ≠ some '/' := fun hhead => h.2 (List.mem_of_mem_head? hhead)
  unfold pushPath components
  rw [if_neg hhead]
  split_ifs with hplain
  · rcases hplain with rfl | hlast
    · simp [words_of_validName h]
    obtain ⟨front, hfront⟩ : ∃ front, path.toList = front ++ ['/'] := by
      obtain ⟨front, last, hfront⟩ := List.eq_nil_or_concat path.toList |>.resolve_left
        (by rintro hnil; rw [hnil] at hlast; exact nomatch hlast)
      rw [List.concat_eq_append] at hfront
      rw [hfront, List.getLast?_concat] at hlast
      cases hlast
      exact ⟨front, hfront⟩
    rw [String.toList_append, hfront, List.append_assoc, List.singleton_append,
      words_append_cons _ _ (by simp), words_append_cons _ _ (by simp), words_of_validName h]
    simp
  · rw [String.toList_append, String.toList_append, List.append_assoc]
    show List.map String.ofList (words _ (path.toList ++ '/' :: name.toList)) = _
    rw [words_append_cons _ _ (by simp), words_of_validName h]
    simp

theorem pushAll_cons (path name : String) (names : List String) :
    pushAll path (name :: names) = pushAll (pushPath path name) names := rfl

theorem components_pushAll (path : String) {names : List String} (h : ∀ name ∈ names, ValidName name) :
    components (pushAll path names) = components path ++ names := by
  induction names generalizing path with
  | nil => simp [pushAll]
  | cons name names ih =>
    rw [pushAll_cons, ih _ fun name hname => h name (List.mem_cons_of_mem _ hname),
      components_pushPath path (h name (List.mem_cons_self ..)), List.append_assoc,
      List.singleton_append]

/-! ## Files -/

variable (root : Node)

/-- What is at a path. -/
def lookup (path : String) : Option Node := root.follow (components path)

/-- `is_file`. -/
def isFile (path : String) : Bool :=
  match lookup root path with
  | some (.file _) => true
  | _ => false

/-- `fs::read`: the contents, or the message of the error. -/
def read (path : String) : Except String (List UInt8) :=
  match lookup root path with
  | some (.file contents) => contents
  | some (.dir ..) => .error "Is a directory (os error 21)"
  | none => .error "No such file or directory (os error 2)"

/-- `collect_nomo_sources`. -/
def collectNomoSources (path : String) : List String :=
  match lookup root path with
  | some node => sourcesBelow path node
  | none => []

variable {root} {node : Node} {path : String}

theorem Node.follow_append (node : Node) (xs ys : List String) :
    node.follow (xs ++ ys) = (node.follow xs).bind (·.follow ys) := by
  induction xs generalizing node with
  | nil => rfl
  | cons name xs ih =>
    rw [List.cons_append, Node.follow, Node.follow]
    cases node.child name with
    | none => rfl
    | some next => exact ih next

theorem lookup_pushAll (path : String) {names : List String} (h : ∀ name ∈ names, ValidName name) :
    lookup root (pushAll path names) = (lookup root path).bind (·.follow names) := by
  rw [lookup, components_pushAll path h, Node.follow_append]
  rfl

theorem listed_of_lookup {entries : List (String × Node)} (h : listedEntries entries = true)
    {name : String} (hname : entries.lookup name = some node) : node.listed = true := by
  induction entries with
  | nil => exact nomatch hname
  | cons entry entries ih =>
    obtain ⟨first, next⟩ := entry
    rw [listedEntries, Bool.and_eq_true] at h
    rw [List.lookup_cons] at hname
    split at hname
    · cases hname
      exact h.1
    · exact ih h.2 hname

theorem sourcesAt_subset {entries : List (String × Node)} {name : String}
    (hname : entries.lookup name = some node) : sourcesAt path name node ⊆ sourcesOf path entries := by
  induction entries with
  | nil => exact nomatch hname
  | cons entry entries ih =>
    obtain ⟨first, next⟩ := entry
    rw [List.lookup_cons] at hname
    rw [sourcesOf]
    split at hname
    next heq =>
      cases hname
      obtain rfl : name = first := eq_of_beq heq
      exact List.subset_append_left _ _
    next => exact List.Subset.trans (ih hname) (List.subset_append_right _ _)

/-- A file below a directory is collected, if every directory can be listed. -/
theorem mem_sourcesBelow {names : List String} {last : String} {contents}
    (hlisted : node.listed = true) (hextension : hasNomoExtension last = true)
    (h : node.follow (names ++ [last]) = some (.file contents)) :
    pushAll path (names ++ [last]) ∈ sourcesBelow path node := by
  induction names generalizing node path with
  | nil =>
    cases node with
    | file _ => exact nomatch h
    | dir listable entries =>
      rw [Node.listed, Bool.and_eq_true] at hlisted
      rw [List.nil_append, Node.follow, Node.child, Option.bind_eq_some_iff] at h
      obtain ⟨next, hnext, h⟩ := h
      cases h
      rw [sourcesBelow, if_pos hlisted.1]
      refine sourcesAt_subset hnext ?_
      rw [sourcesAt, if_pos hextension]
      exact List.mem_singleton_self _
  | cons name names ih =>
    cases node with
    | file _ => exact nomatch h
    | dir listable entries =>
      rw [Node.listed, Bool.and_eq_true] at hlisted
      rw [List.cons_append, Node.follow, Node.child, Option.bind_eq_some_iff] at h
      obtain ⟨next, hnext, h⟩ := h
      rw [List.cons_append, pushAll_cons, sourcesBelow, if_pos hlisted.1]
      refine sourcesAt_subset hnext ?_
      cases next with
      | dir _ _ => exact ih (listed_of_lookup hlisted.2 hnext) h
      | file _ =>
        cases names with
        | nil | cons _ _ => exact nomatch h

theorem lookup_of_mem {entries : List (String × Node)} (h : (entries.map Prod.fst).Nodup)
    {name : String} (hmem : (name, node) ∈ entries) : entries.lookup name = some node := by
  induction entries with
  | nil => exact nomatch hmem
  | cons entry entries ih =>
    obtain ⟨first, next⟩ := entry
    rw [List.map_cons, List.nodup_cons] at h
    rw [List.lookup_cons]
    rcases List.mem_cons.1 hmem with hfirst | hrest
    · cases hfirst
      simp
    have hne : name ≠ first := by
      rintro rfl
      exact h.1 (List.mem_map.2 ⟨_, hrest, rfl⟩)
    rw [beq_false_of_ne hne]
    exact ih h.2 hrest

theorem valid_of_lookup {entries : List (String × Node)} (h : validEntries entries = true)
    {name : String} (hname : entries.lookup name = some node) : node.valid = true := by
  induction entries with
  | nil => exact nomatch hname
  | cons entry entries ih =>
    obtain ⟨first, next⟩ := entry
    rw [validEntries, Bool.and_eq_true, Bool.and_eq_true] at h
    rw [List.lookup_cons] at hname
    split at hname
    · cases hname
      exact h.1.2
    · exact ih h.2 hname

theorem valid_of_follow {names : List String} {next : Node} (h : node.valid = true)
    (hnames : node.follow names = some next) : next.valid = true := by
  induction names generalizing node with
  | nil =>
    cases hnames
    exact h
  | cons name names ih =>
    rw [Node.follow, Option.bind_eq_some_iff] at hnames
    obtain ⟨between, hchild, hnames⟩ := hnames
    refine ih ?_ hnames
    cases node with
    | file _ => exact nomatch hchild
    | dir listable entries =>
      rw [Node.valid, Bool.and_eq_true] at h
      exact valid_of_lookup h.2 hchild

mutual

theorem follow_of_mem_sourcesOf {file : String} : ∀ (entries : List (String × Node)) {path : String},
    validEntries entries = true → file ∈ sourcesOf path entries →
      ∃ name node names contents, (name, node) ∈ entries ∧
        file = pushAll path (name :: names) ∧ (∀ part ∈ name :: names, ValidName part) ∧
        node.follow names = some (.file contents)
  | [], _, _, h => nomatch h
  | (name, node) :: rest, path, hvalid, h => by
    rw [validEntries, Bool.and_eq_true, Bool.and_eq_true, decide_eq_true_eq] at hvalid
    rw [sourcesOf] at h
    rcases List.mem_append.1 h with h | h
    · obtain ⟨names, contents, hfile, hnames, hfollow⟩ := follow_of_mem_sourcesAt node hvalid.1.2 h
      refine ⟨name, node, names, contents, List.mem_cons_self .., hfile, ?_, hfollow⟩
      exact List.forall_mem_cons.2 ⟨hvalid.1.1, hnames⟩
    · obtain ⟨name, node, names, contents, hmem, hfound⟩ := follow_of_mem_sourcesOf rest hvalid.2 h
      exact ⟨name, node, names, contents, List.mem_cons_of_mem _ hmem, hfound⟩

theorem follow_of_mem_sourcesAt {file name : String} : ∀ (node : Node) {path : String},
    node.valid = true → file ∈ sourcesAt path name node →
      ∃ names contents, file = pushAll path (name :: names) ∧ (∀ part ∈ names, ValidName part) ∧
        node.follow names = some (.file contents)
  | .file contents, path, _, h => by
    rw [sourcesAt] at h
    split_ifs at h
    · obtain rfl := List.mem_singleton.1 h
      exact ⟨[], contents, rfl, fun _ hpart => (nomatch hpart), rfl⟩
    · exact nomatch h
  | .dir listable entries, path, hvalid, h => by
    rw [Node.valid, Bool.and_eq_true, decide_eq_true_eq] at hvalid
    rw [sourcesAt] at h
    split_ifs at h
    · obtain ⟨first, next, names, contents, hmem, hfile, hnames, hfollow⟩ :=
        follow_of_mem_sourcesOf entries hvalid.2 h
      refine ⟨first :: names, contents, hfile, hnames, ?_⟩
      rw [Node.follow, Node.child, lookup_of_mem hvalid.1 hmem]
      exact hfollow
    · exact nomatch h

end

/-! ## Collected files are files, and the other way round -/

/-- **What is collected is a file.** -/
theorem isFile_of_mem_collectNomoSources {path file : String} (hvalid : root.valid = true)
    (h : file ∈ collectNomoSources root path) : isFile root file = true := by
  unfold collectNomoSources at h
  split at h
  next node hlookup =>
    have hnode : node.valid = true := valid_of_follow hvalid hlookup
    cases node with
    | file _ => exact nomatch h
    | dir listable entries =>
      rw [Node.valid, Bool.and_eq_true, decide_eq_true_eq] at hnode
      rw [sourcesBelow] at h
      split_ifs at h
      · obtain ⟨name, node, names, contents, hmem, rfl, hnames, hfollow⟩ :=
          follow_of_mem_sourcesOf entries hnode.2 h
        rw [isFile, lookup_pushAll path hnames, hlookup, Option.bind_some, Node.follow, Node.child,
          lookup_of_mem hnode.1 hmem, Option.bind_some, hfollow]
      · exact nomatch h
  next => exact nomatch h

/-- **A module file is collected**, if the directories below its source root can be listed. -/
theorem mem_collectNomoSources {path : String} {names : List String} {last : String}
    (hlisted : ∀ node, lookup root path = some node → node.listed = true)
    (hnames : ∀ name ∈ names ++ [last], ValidName name) (hextension : hasNomoExtension last = true)
    (h : isFile root (pushAll path (names ++ [last])) = true) :
    pushAll path (names ++ [last]) ∈ collectNomoSources root path := by
  rw [isFile, lookup_pushAll path hnames] at h
  unfold collectNomoSources
  cases hlookup : lookup root path with
  | none =>
    rw [hlookup] at h
    exact nomatch h
  | some node =>
    rw [hlookup, Option.bind_some] at h
    split at h
    next contents hfollow => exact mem_sourcesBelow (hlisted node hlookup) hextension hfollow
    next => exact nomatch h

end Nomo.CheckCache
