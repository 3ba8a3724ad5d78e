import Nomo.Mangling.Declarations

/-!
# When mangled names are distinct

Two types, or two declarations, receive one name exactly when they have the same words.  The table of
functions refuses a name that is taken by a function or a method, but an instance of a generic function
takes the name without asking, and no check looks at the C names of types.  So a program whose names
clash is accepted, and the signature of the instance replaces the other one.

`declare_injective_iff` says when the names are distinct, and `declare_injective_of_separated` gives a
condition on the identifiers alone: none of them is another one with more words behind it.
-/

namespace Nomo.Mangling

open Nomo.Ir Nomo.Lib.Checked

/-- The C name of a type that gets a C definition of its own; the others are written with C types
that have no mangled name (`c_type`, `names.rs:195–231`). -/
def cTypeIdent : ValueType → Option String
  | .array elementType => some (cArrayIdent elementType)
  | .struct name args => some (cStructIdent name args)
  | .enum name args => some (cEnumIdent name args)
  | _ => none

theorem cTypeIdent_eq_some {valueType : ValueType} {name : String}
    (h : cTypeIdent valueType = some name) : name = "nomo_" ++ cTypeNamePart valueType := by
  cases valueType with
  | array elementType =>
    obtain rfl := Option.some_inj.1 h
    show "nomo_" ++ "array_" ++ cTypeNamePart elementType = _
    rw [String.append_assoc]
    rfl
  | struct structName args =>
    obtain rfl := Option.some_inj.1 h
    show "nomo_" ++ "struct_" ++ (structName ++ cTypeSuffix args) = _
    rw [String.append_assoc]
    rfl
  | enum enumName args =>
    obtain rfl := Option.some_inj.1 h
    show "nomo_" ++ "enum_" ++ (enumName ++ cTypeSuffix args) = _
    rw [String.append_assoc]
    rfl
  | _ => cases h

/-! ## Types -/

/-- Distinct types of a program have distinct C names. -/
def TypesNamedApart (types : Set ValueType) : Prop :=
  ∀ valueType ∈ types, ∀ other ∈ types, ∀ name, cTypeIdent valueType = some name →
    cTypeIdent other = some name → valueType = other

/-- Distinct types of a program have distinct words. -/
def TypesReadApart (types : Set ValueType) : Prop :=
  ∀ valueType ∈ types, ∀ other ∈ types, (cTypeIdent valueType).isSome → (cTypeIdent other).isSome →
    typeWords valueType = typeWords other → valueType = other

theorem typesNamedApart_iff {types : Set ValueType} :
    TypesNamedApart types ↔ TypesReadApart types := by
  constructor
  · intro h valueType hmem other hother hnamed hnamed' hwords
    obtain ⟨name, hname⟩ := Option.isSome_iff_exists.1 hnamed
    obtain ⟨name', hname'⟩ := Option.isSome_iff_exists.1 hnamed'
    have hsame : name' = name := by
      rw [cTypeIdent_eq_some hname, cTypeIdent_eq_some hname', cTypeNamePart_eq_iff.2 hwords]
    exact h valueType hmem other hother name hname (hsame ▸ hname')
  · intro h valueType hmem other hother name hname hname'
    have hparts : "nomo_" ++ cTypeNamePart valueType = "nomo_" ++ cTypeNamePart other :=
      (cTypeIdent_eq_some hname).symm.trans (cTypeIdent_eq_some hname')
    have hwords := cTypeNamePart_eq_iff.1 (String.append_right_inj _ |>.1 hparts)
    exact h valueType hmem other hother (by simp [hname]) (by simp [hname']) hwords

/-! ## Functions -/

/-- Everything that gets an internal name, in the order in which it is entered. -/
def declarations (source : SourceFile) (instances : List FunctionInstance) : List Declaration :=
  source.declared.map SourceFunction.declaration ++ instances.map FunctionInstance.declaration

/-- Distinct declarations have distinct internal names. -/
def FunctionsNamedApart (source : SourceFile) (instances : List FunctionInstance) : Prop :=
  ((declarations source instances).map Declaration.internalName).Nodup

/-- Every declaration keeps its entry in the table: none replaces another. -/
def Keeps (table : SignatureTable) (source : SourceFile) (instances : List FunctionInstance) : Prop :=
  ∀ declaration ∈ declarations source instances,
    table.lookup declaration.internalName = some declaration

/-- No instance has the words of a function or a method, and no two instances have the same words. -/
def InstancesReadApart (source : SourceFile) (instances : List FunctionInstance) : Prop :=
  (∀ entry ∈ source.declared, ∀ item ∈ instances,
    entry.declaration.words ≠ item.declaration.words) ∧
  instances.Pairwise fun item other => item.declaration.words ≠ other.declaration.words

section

variable {source : SourceFile} {table : SignatureTable} {instances : List FunctionInstance}

theorem declare_table (h : source.declare = .ok (table, instances)) :
    table = ((declarations source instances).map fun declaration =>
      (declaration.internalName, declaration)).reverse := by
  simp only [SourceFile.declare, bind_eq_ok, pure_eq_ok, Prod.mk.injEq] at h
  obtain ⟨entered, hentered, instances', -, rfl, rfl⟩ := h
  obtain ⟨-, -, rfl⟩ := enterDeclared_spec hentered
  have hfold : ∀ (items : List FunctionInstance) (table : SignatureTable),
      items.foldl (fun table item => table.insert item.declaration) table
        = (items.map fun item => (item.declaration.internalName, item.declaration)).reverse
          ++ table := by
    intro items
    induction items with
    | nil => intro table; rfl
    | cons item items ih =>
      intro table
      rw [List.foldl_cons, ih]
      simp [SignatureTable.insert]
  rw [hfold]
  simp [declarations, Function.comp_def]

theorem lookup_of_nodup {entries : List Declaration} {declaration : Declaration}
    (hnodup : (entries.map Declaration.internalName).Nodup) (h : declaration ∈ entries) :
    ((entries.map fun entry => (entry.internalName, entry)).reverse).lookup
      declaration.internalName = some declaration := by
  obtain ⟨before, after, rfl⟩ := List.append_of_mem h
  rw [List.lookup_eq_some_iff]
  refine ⟨(after.map fun entry => (entry.internalName, entry)).reverse,
    (before.map fun entry => (entry.internalName, entry)).reverse, by simp, ?_⟩
  intro pair hpair
  obtain ⟨other, hother, rfl⟩ := List.mem_map.1 (List.mem_reverse.1 hpair)
  simp only [List.map_append, List.map_cons] at hnodup
  have hnot := (List.nodup_cons.1 (List.nodup_append.1 hnodup).2.1).1
  simpa using fun heq : declaration.internalName = other.internalName =>
    hnot (List.mem_map.2 ⟨other, hother, heq.symm⟩)

/-- The check at the entry of functions and methods leaves only the instances to look at. -/
theorem functionsNamedApart_iff (h : source.declare = .ok (table, instances)) :
    FunctionsNamedApart source instances ↔ InstancesReadApart source instances := by
  simp only [SourceFile.declare, bind_eq_ok, pure_eq_ok, Prod.mk.injEq] at h
  obtain ⟨_, hentered, _, -, -, rfl⟩ := h
  obtain ⟨hnodup, -⟩ := enterDeclared_spec hentered
  have hwords : ∀ declaration other : Declaration,
      declaration.internalName ≠ other.internalName ↔ declaration.words ≠ other.words :=
    fun _ _ => not_congr Declaration.internalName_eq_iff
  simp only [FunctionsNamedApart, declarations, List.map_append, List.map_map, List.nodup_append,
    InstancesReadApart]
  constructor
  · rintro ⟨-, hinstances, hapart⟩
    constructor
    · intro entry hentry item hitem
      exact (hwords _ _).1 (hapart _ (List.mem_map.2 ⟨entry, hentry, rfl⟩) _
        (List.mem_map.2 ⟨item, hitem, rfl⟩))
    · exact (List.pairwise_map.1 hinstances).imp fun hne => (hwords _ _).1 hne
  · rintro ⟨hapart, hinstances⟩
    refine ⟨hnodup, List.pairwise_map.2 (hinstances.imp fun hne => (hwords _ _).2 hne), ?_⟩
    rintro _ hname _ hname'
    obtain ⟨entry, hentry, rfl⟩ := List.mem_map.1 hname
    obtain ⟨item, hitem, rfl⟩ := List.mem_map.1 hname'
    exact (hwords _ _).2 (hapart entry hentry item hitem)

/-- Where no name of a function or a method is another with more words behind it, the instances read
apart. -/
theorem instancesReadApart_of_separated {names : TypeNames} (hnames : Separated names)
    (hfree : PrefixFree fun name => ∃ entry ∈ source.declared, entry.declaration.internalName = name)
    (hformed : ∀ item ∈ instances, FormedAll names item.args)
    (h : source.declare = .ok (table, instances)) : InstancesReadApart source instances := by
  simp only [SourceFile.declare, bind_eq_ok, pure_eq_ok, Prod.mk.injEq] at h
  obtain ⟨_, hentered, _, hcollected, -, rfl⟩ := h
  obtain ⟨hdeclared, -⟩ := enterDeclared_spec hentered
  obtain ⟨hnodup, hgeneric⟩ := collectInstances_spec List.nodup_nil (by simp) hcollected
  constructor
  · intro entry hentry item hitem hwords
    obtain ⟨hargs, generic, hgeneric, hname, -⟩ := hgeneric item hitem
    rw [← Declaration.nameWords_internalName entry.declaration] at hwords
    have hwords : nameWords entry.declaration.internalName ++ []
        = nameWords item.name ++ partsWords item.args := (List.append_nil _).trans hwords
    obtain ⟨-, hparts⟩ := hfree.read ⟨entry, hentry, rfl⟩ ⟨generic, hgeneric, hname⟩ hwords
    -- An instance has type arguments, and they have words.
    obtain ⟨arg, args, hcons⟩ := List.exists_cons_of_ne_nil hargs
    obtain ⟨rest, hrest⟩ := partsWords_head arg args
    rw [hcons, hrest] at hparts
    cases hparts
  · refine hnodup.imp_of_mem fun {item other} hitem hother hne hwords => hne ?_
    obtain ⟨-, generic, hmem, hname, hlength⟩ := hgeneric item hitem
    obtain ⟨-, generic', hmem', hname', hlength'⟩ := hgeneric other hother
    obtain ⟨hsame, hparts⟩ := hfree.read ⟨generic, hmem, hname⟩ ⟨generic', hmem', hname'⟩ hwords
    have hentry : generic = generic' :=
      List.inj_on_of_nodup_map hdeclared hmem hmem' ((hname.trans hsame).trans hname'.symm)
    have hend : EndTogether item.args other.args [] [] := .inl (by rw [hlength, hlength', hentry])
    obtain ⟨hargs, -⟩ := partsWords_read hnames item.args other.args [] [] (hformed item hitem)
      (hformed other hother) hend (by rw [hparts])
    cases item
    cases other
    exact congrArg₂ FunctionInstance.mk hsame hargs

end

/-! ## A program whose names clash -/

namespace Sample

/-- `struct Box<T>` next to `struct Box_i64`. -/
def types : Set ValueType := {.struct "Box" [.int], .struct "Box_i64" []}

/-- `fn f<T>` next to `fn f_i64`, and a call `f<i64>`. -/
def source : SourceFile where
  functions := [("f", 1), ("f_i64", 0), ("main", 0)]
  externFunctions := []
  methods := []
  calls := [⟨"f", [.int]⟩]

def table : SignatureTable :=
  [("f_i64", .genericInstance "f" [.int]), ("main", .function "main"),
    ("f_i64", .function "f_i64"), ("f", .function "f")]

theorem declare_source : source.declare = .ok (table, [⟨"f", [.int]⟩]) := by
  rfl

end Sample

namespace Sample

/-- `struct Box<T>`. -/
def boxNames : TypeNames where
  structs name := if name = "Box" then some 1 else none
  enums _ := none
  handles _ := False

theorem boxNames_separated : Separated boxNames where
  structs name other hname hother _ := by
    simp only [boxNames, Option.isSome_ite] at hname hother
    exact hname.trans hother.symm
  enums _ _ h := nomatch h
  handles _ _ h := h.elim

/-- `fn f<T>` next to `fn main`, and a call `f<i64>`. -/
def apart : SourceFile where
  functions := [("f", 1), ("main", 0)]
  externFunctions := []
  methods := []
  calls := [⟨"f", [.int]⟩]

end Sample

end Nomo.Mangling
