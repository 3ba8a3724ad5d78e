import Nomo.Lib.Checked
import Nomo.Ir.Syntax
import Nomo.Mangling.Reading

/-!
# The table of functions

`lower_program` keeps one table from internal names to signatures
(`nomo_compiler/src/core/program_lowering.rs:102–305`).  Functions, foreign functions and methods are
entered first, and a name that is taken is an error.  Instances of generic functions, which
`collect_generic_function_instances` gathers from the calls (`analysis_generic.rs:318–393`), are entered
last, with `insert`, which replaces what is there.

The table here maps a name to the declaration whose signature it holds.  A diagnostic is its code and
its message.
-/

namespace Nomo.Mangling

open Nomo.Ir Nomo.Lib.Checked

/-- What gets an internal name. -/
inductive Declaration
  | function (name : String)
  | externFunction (name : String)
  | method (ownerName methodName : String)
  | genericInstance (name : String) (args : List ValueType)

namespace Declaration

/-- The internal name of a declaration. -/
def internalName : Declaration → String
  | function name => name
  | externFunction name => name
  | method ownerName methodName => methodInternalName ownerName methodName
  | genericInstance name args => genericFunctionInstanceName name args

/-- The words of a declaration. -/
def words : Declaration → List String
  | function name => nameWords name
  | externFunction name => nameWords name
  | method ownerName methodName => nameWords ownerName ++ nameWords methodName
  | genericInstance name args => nameWords name ++ partsWords args

theorem nameWords_internalName (declaration : Declaration) :
    nameWords declaration.internalName = declaration.words := by
  cases declaration with
  | function name | externFunction name => rfl
  | method ownerName methodName => exact nameWords_append ownerName methodName
  | genericInstance name args => exact nameWords_instance name args

theorem internalName_eq_iff {declaration other : Declaration} :
    declaration.internalName = other.internalName ↔ declaration.words = other.words := by
  rw [← nameWords_inj, nameWords_internalName, nameWords_internalName]

end Declaration

/-- A table of names, the latest entry of a name first. -/
abbrev SignatureTable := List (String × Declaration)

/-- `HashMap::insert`. -/
def SignatureTable.insert (table : SignatureTable) (declaration : Declaration) : SignatureTable :=
  (declaration.internalName, declaration) :: table

/-- A function, a method, or a foreign function of a source file: its declaration and the number of
its type parameters. -/
structure SourceFunction where
  declaration : Declaration
  typeParams : Nat

/-- A call of a generic function with type arguments. -/
structure FunctionInstance where
  name : String
  args : List ValueType
deriving DecidableEq

/-- A source file as far as it concerns the table: its functions, its foreign functions, its methods
in the order of their `impl` blocks, and its calls with type arguments in the order of traversal. -/
structure SourceFile where
  functions : List (String × Nat)
  externFunctions : List String
  methods : List (String × String × Nat)
  calls : List FunctionInstance

namespace SourceFile

/-- The declarations that are entered first. -/
def declared (source : SourceFile) : List SourceFunction :=
  (source.functions.map fun (name, typeParams) => ⟨.function name, typeParams⟩) ++
    (source.externFunctions.map fun name => ⟨.externFunction name, 0⟩) ++
    source.methods.map fun (ownerName, methodName, typeParams) =>
      ⟨.method ownerName methodName, typeParams⟩

end SourceFile

/-- The diagnostic `E0304` for a name that is taken. -/
def alreadyDefined : Declaration → String
  | .method ownerName methodName => s!"E0304 method `{ownerName}.{methodName}` is already defined"
  | declaration => s!"E0304 function `{declaration.internalName}` is already defined"

/-- Enter declarations, none of which may be there already. -/
def enterDeclared : List SourceFunction → SignatureTable → Except String SignatureTable
  | [], table => .ok table
  | entry :: rest, table => do
    require (table.lookup entry.declaration.internalName).isNone
      (alreadyDefined entry.declaration)
    enterDeclared rest (table.insert entry.declaration)

/-- The declaration of an instance. -/
def FunctionInstance.declaration (item : FunctionInstance) : Declaration :=
  .genericInstance item.name item.args

/-- What `collect_expr_generic_function_instances` does at a call: the called function must be known
and take as many type arguments, and an instance is gathered once. -/
def collectInstance (declared : List SourceFunction) (instances : List FunctionInstance)
    (call : FunctionInstance) : Except String (List FunctionInstance) := do
  let entry ← orElse (declared.find? fun entry => entry.declaration.internalName == call.name)
    s!"E0305 unknown function `{call.name}`"
  require (entry.typeParams ≠ 0) s!"E0404 function `{call.name}` does not accept type arguments"
  require (call.args.length = entry.typeParams)
    s!"E0407 function `{call.name}` expects {entry.typeParams} type argument(s), got {call.args.length}"
  return if call ∈ instances then instances else instances ++ [call]

/-- `collect_generic_function_instances`. -/
def collectInstances (declared : List SourceFunction) :
    List FunctionInstance → List FunctionInstance → Except String (List FunctionInstance)
  | [], instances => .ok instances
  | call :: calls, instances => do
    collectInstances declared calls (← collectInstance declared instances call)

/-- The table of a source file, and its instances. -/
def SourceFile.declare (source : SourceFile) :
    Except String (SignatureTable × List FunctionInstance) := do
  let table ← enterDeclared source.declared []
  let instances ← collectInstances source.declared source.calls []
  return (instances.foldl (fun table item => table.insert item.declaration) table, instances)

/-! ## What the checks give -/

theorem enterDeclared_spec {entries : List SourceFunction} {table result : SignatureTable}
    (h : enterDeclared entries table = .ok result) :
    (entries.map fun entry => entry.declaration.internalName).Nodup ∧
      (∀ entry ∈ entries, table.lookup entry.declaration.internalName = none) ∧
      result = (entries.map fun entry =>
        (entry.declaration.internalName, entry.declaration)).reverse ++ table := by
  induction entries generalizing table with
  | nil =>
    cases h
    simp
  | cons entry rest ih =>
    simp only [enterDeclared, bind_eq_ok, require_eq_ok] at h
    obtain ⟨_, hfree, h⟩ := h
    obtain ⟨hnodup, hrest, rfl⟩ := ih h
    have hnone : table.lookup entry.declaration.internalName = none := by
      simpa using hfree
    refine ⟨List.nodup_cons.2 ⟨?_, hnodup⟩, ?_, by simp [SignatureTable.insert]⟩
    · intro hmem
      obtain ⟨other, hother, hname⟩ := List.mem_map.1 hmem
      have := hrest other hother
      simp [SignatureTable.insert, hname] at this
    intro other hother
    rcases List.mem_cons.1 hother with rfl | hother
    · exact hnone
    have := hrest other hother
    rw [SignatureTable.insert, List.lookup_cons] at this
    split at this
    · cases this
    · exact this

/-- Every instance is of a generic function that takes as many type arguments, and none is gathered
twice. -/
theorem collectInstances_spec {declared : List SourceFunction} {calls instances : List FunctionInstance}
    {result : List FunctionInstance} (hnodup : instances.Nodup)
    (hinstances : ∀ item ∈ instances, item.args ≠ [] ∧ ∃ entry ∈ declared,
      entry.declaration.internalName = item.name ∧ item.args.length = entry.typeParams)
    (h : collectInstances declared calls instances = .ok result) :
    result.Nodup ∧ ∀ item ∈ result, item.args ≠ [] ∧ ∃ entry ∈ declared,
      entry.declaration.internalName = item.name ∧ item.args.length = entry.typeParams := by
  induction calls generalizing instances with
  | nil =>
    cases h
    exact ⟨hnodup, hinstances⟩
  | cons call calls ih =>
    simp only [collectInstances, collectInstance, bind_eq_ok, require_eq_ok, orElse_eq_ok, pure_eq_ok] at h
    obtain ⟨next, ⟨entry, hfound, _, hgeneric, _, hlength, rfl⟩, h⟩ := h
    split_ifs at h with hmem
    · exact ih hnodup hinstances h
    refine ih ?_ ?_ h
    · exact List.nodup_append.2 ⟨hnodup, by simp, fun item hitem _ hcall heq =>
        hmem (List.mem_singleton.1 hcall ▸ heq ▸ hitem)⟩
    intro item hitem
    rcases List.mem_append.1 hitem with hitem | hitem
    · exact hinstances item hitem
    obtain rfl := List.mem_singleton.1 hitem
    refine ⟨fun hnil => hgeneric ?_, entry, List.mem_of_find?_eq_some hfound, ?_, hlength⟩
    · rw [← hlength, hnil]
      rfl
    · simpa using List.find?_some hfound

end Nomo.Mangling
