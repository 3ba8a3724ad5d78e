import Nomo.Ir.Syntax

/-!
# Mangled names

The names the compiler makes of types and of instances of generic functions
(`nomo_codegen_c/src/core/names.rs:291–375`, `nomo_compiler/src/core/typing.rs:482–557`): the words of
a kind, an identifier and the type arguments, joined by underscores.

Joining forgets where an identifier ends: an underscore inside an identifier looks like one between
two parts.  What is left is the sequence of *words*, the parts between underscores, and two names
are equal exactly when their words are.  `typeWords` gives the words of a type's name without building
the name.
-/

namespace Nomo.Mangling

open Nomo.Ir

/-! ## Names -/

/-- A value for type arguments, if there are any. -/
def unlessEmpty {α : Type} (empty : α) : List ValueType → α → α
  | [], _ => empty
  | _ :: _, value => value

mutual

/-- `c_type_name_part`. -/
def cTypeNamePart : ValueType → String
  | .string => "string"
  | .cString => "cstring"
  | .opaqueType => "opaque"
  | .opaqueHandle name => "handle_" ++ name
  | .ownedHandle name => "owned_handle_" ++ name
  | .borrowedHandle name => "borrowed_handle_" ++ name
  | .nullable inner => "nullable_" ++ cTypeNamePart inner
  | .externCallback params returnType =>
    "callback_" ++ (cTypeNameParts params ++ ("_to_" ++ cTypeNamePart returnType))
  | .taskCallback .. => "task_worker"
  | .int => "i64"
  | .i32 => "i32"
  | .u32 => "u32"
  | .u64 => "u64"
  | .float => "f64"
  | .char => "char"
  | .bool => "bool"
  | .array element => "array_" ++ cTypeNamePart element
  | .struct name args =>
    "struct_" ++ (name ++ unlessEmpty "" args ("_" ++ cTypeNameParts args))
  | .enum name args =>
    "enum_" ++ (name ++ unlessEmpty "" args ("_" ++ cTypeNameParts args))
  | .typeParam name => "param_" ++ name
  | .void => "void"
  | .never => "never"

/-- The parts of several types, joined by underscores. -/
def cTypeNameParts : List ValueType → String
  | [] => ""
  | [arg] => cTypeNamePart arg
  | arg :: args => cTypeNamePart arg ++ ("_" ++ cTypeNameParts args)

end

/-- `c_type_suffix`, which `c_type_name_part` writes after the name of a struct or an enum. -/
def cTypeSuffix (args : List ValueType) : String :=
  unlessEmpty "" args ("_" ++ cTypeNameParts args)

/-- `c_struct_ident`. -/
def cStructIdent (name : String) (args : List ValueType) : String :=
  "nomo_struct_" ++ (name ++ cTypeSuffix args)

/-- `c_array_ident`. -/
def cArrayIdent (elementType : ValueType) : String := "nomo_array_" ++ cTypeNamePart elementType

/-- `c_enum_ident`. -/
def cEnumIdent (name : String) (args : List ValueType) : String :=
  "nomo_enum_" ++ (name ++ cTypeSuffix args)

/-- `value_type_key_part`, the same text as `c_type_name_part` (`typing.rs:504–542`). -/
def valueTypeKeyPart (valueType : ValueType) : String := cTypeNamePart valueType

/-- `method_internal_name`. -/
def methodInternalName (ownerName methodName : String) : String := ownerName ++ ("_" ++ methodName)

/-- `generic_function_instance_name`. -/
def genericFunctionInstanceName (name : String) (args : List ValueType) : String :=
  name ++ ("_" ++ cTypeNameParts args)

/-! ## Words -/

/-- The parts of a text between its underscores. -/
def nameWords (name : String) : List String := (name.toList.splitOn '_').map String.ofList

mutual

/-- The words of a type. -/
def typeWords : ValueType → List String
  | .string => ["string"]
  | .cString => ["cstring"]
  | .opaqueType => ["opaque"]
  | .opaqueHandle name => "handle" :: nameWords name
  | .ownedHandle name => "owned" :: "handle" :: nameWords name
  | .borrowedHandle name => "borrowed" :: "handle" :: nameWords name
  | .nullable inner => "nullable" :: typeWords inner
  | .externCallback params returnType =>
    "callback" :: (partsWords params ++ "to" :: typeWords returnType)
  | .taskCallback .. => ["task", "worker"]
  | .int => ["i64"]
  | .i32 => ["i32"]
  | .u32 => ["u32"]
  | .u64 => ["u64"]
  | .float => ["f64"]
  | .char => ["char"]
  | .bool => ["bool"]
  | .array element => "array" :: typeWords element
  | .struct name args => "struct" :: (nameWords name ++ unlessEmpty [] args (partsWords args))
  | .enum name args => "enum" :: (nameWords name ++ unlessEmpty [] args (partsWords args))
  | .typeParam name => "param" :: nameWords name
  | .void => ["void"]
  | .never => ["never"]

/-- The words of the parts of several types; no parts are one empty word. -/
def partsWords : List ValueType → List String
  | [] => [""]
  | [arg] => typeWords arg
  | arg :: args => typeWords arg ++ partsWords args

end

theorem nameWords_inj {name other : String} : nameWords name = nameWords other ↔ name = other := by
  constructor
  · intro h
    have hsplit : name.toList.splitOn '_' = other.toList.splitOn '_' :=
      List.map_injective_iff.2 (fun _ _ h => String.ofList_inj.1 h) h
    have hjoin := congrArg (List.intercalate ['_']) hsplit
    rw [List.intercalate_splitOn, List.intercalate_splitOn] at hjoin
    exact String.toList_inj.1 hjoin
  · rintro rfl
    rfl

theorem nameWords_append (name other : String) :
    nameWords (name ++ ("_" ++ other)) = nameWords name ++ nameWords other := by
  have hlist : (name ++ ("_" ++ other)).toList = name.toList ++ '_' :: other.toList := by
    simp [String.toList_append]
  rw [nameWords, hlist, List.splitOn_append_cons_self, List.map_append]
  rfl

theorem nameWords_cons {word : String} (h : '_' ∉ word.toList) (name : String) :
    nameWords (word ++ "_" ++ name) = word :: nameWords name := by
  rw [String.append_assoc, nameWords_append, nameWords, List.splitOn_eq_singleton h]
  simp

theorem nameWords_word {word : String} (h : '_' ∉ word.toList) : nameWords word = [word] := by
  rw [nameWords, List.splitOn_eq_singleton h]
  simp

theorem nameWords_suffix (name : String) (args : List ValueType)
    (h : nameWords (cTypeNameParts args) = partsWords args) :
    nameWords (name ++ cTypeSuffix args) = nameWords name ++ unlessEmpty [] args (partsWords args) := by
  cases args with
  | nil => simp [cTypeSuffix, unlessEmpty]
  | cons arg args =>
    show nameWords (name ++ ("_" ++ cTypeNameParts (arg :: args))) = _
    rw [nameWords_append, h]
    rfl

mutual

/-- **The words of a type's name** are the words of the type. -/
theorem nameWords_cTypeNamePart : ∀ valueType,
    nameWords (cTypeNamePart valueType) = typeWords valueType
  | .string | .cString | .opaqueType | .int | .i32 | .u32 | .u64 | .float | .char | .bool | .void
  | .never => by
    rw [cTypeNamePart, nameWords_word (by decide), typeWords]
  | .taskCallback .. => by
    show nameWords ("task" ++ "_" ++ "worker") = _
    rw [nameWords_cons (by decide), nameWords_word (by decide)]
    rfl
  | .opaqueHandle name => @nameWords_cons "handle" (by decide) name
  | .ownedHandle name => by
    show nameWords ("owned" ++ "_" ++ ("handle" ++ "_") ++ name) = _
    rw [String.append_assoc, nameWords_cons (by decide), nameWords_cons (by decide)]
    rfl
  | .borrowedHandle name => by
    show nameWords ("borrowed" ++ "_" ++ ("handle" ++ "_") ++ name) = _
    rw [String.append_assoc, nameWords_cons (by decide), nameWords_cons (by decide)]
    rfl
  | .typeParam name => @nameWords_cons "param" (by decide) name
  | .nullable inner => by
    show nameWords ("nullable" ++ "_" ++ cTypeNamePart inner) = _
    rw [nameWords_cons (by decide), nameWords_cTypeNamePart inner]
    rfl
  | .array element => by
    show nameWords ("array" ++ "_" ++ cTypeNamePart element) = _
    rw [nameWords_cons (by decide), nameWords_cTypeNamePart element]
    rfl
  | .externCallback params returnType => by
    show nameWords ("callback" ++ "_" ++ (cTypeNameParts params ++
      (("_" ++ ("to" ++ "_")) ++ cTypeNamePart returnType))) = _
    have hto : ("_" ++ ("to" ++ "_")) ++ cTypeNamePart returnType
        = "_" ++ ("to" ++ "_" ++ cTypeNamePart returnType) := String.append_assoc
    rw [nameWords_cons (by decide), hto, nameWords_append, nameWords_cons (by decide),
      nameWords_cTypeNameParts params, nameWords_cTypeNamePart returnType]
    rfl
  | .struct name args => by
    show nameWords ("struct" ++ "_" ++ (name ++ cTypeSuffix args)) = _
    rw [nameWords_cons (by decide)]
    exact congrArg _ (nameWords_suffix name args (nameWords_cTypeNameParts args))
  | .enum name args => by
    show nameWords ("enum" ++ "_" ++ (name ++ cTypeSuffix args)) = _
    rw [nameWords_cons (by decide)]
    exact congrArg _ (nameWords_suffix name args (nameWords_cTypeNameParts args))

theorem nameWords_cTypeNameParts : ∀ types,
    nameWords (cTypeNameParts types) = partsWords types
  | [] => nameWords_word (by decide)
  | [arg] => nameWords_cTypeNamePart arg
  | arg :: next :: args => by
    show nameWords (cTypeNamePart arg ++ ("_" ++ cTypeNameParts (next :: args))) = _
    rw [nameWords_append, nameWords_cTypeNamePart arg, nameWords_cTypeNameParts (next :: args)]
    rfl

end

theorem cTypeNamePart_eq_iff {valueType other : ValueType} :
    cTypeNamePart valueType = cTypeNamePart other ↔ typeWords valueType = typeWords other := by
  rw [← nameWords_inj, nameWords_cTypeNamePart, nameWords_cTypeNamePart]

theorem nameWords_instance (name : String) (args : List ValueType) :
    nameWords (genericFunctionInstanceName name args) = nameWords name ++ partsWords args := by
  rw [genericFunctionInstanceName, nameWords_append, nameWords_cTypeNameParts]

end Nomo.Mangling
