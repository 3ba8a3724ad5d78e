import Nomo.Lib.ExactCount

/-!
# The combinators of `Option` and `Result`

`nomo_codegen_c/src/runtime/result_option_helpers.rs:56–276`: the C helpers behind `unwrap_or`,
`map`, `and_then` and `map_err`, and `expressions/expression_result_option.rs`, which calls them, in
`let` bindings as `statements/statement_bindings.rs:3–19` emits them.

A value is what a C variable holds; the buffers it refers to are counted.  To release or to retain a
value is to do so with each of its buffers; where the generator leaves the call out, because values
of the type need no release, there are none.
-/

namespace Nomo.Combinators

open Nomo.Lib.RefCount Nomo.Lib.RefCount.Heap

/-- The variants of `Option` and `Result` that have a payload. -/
inductive Variant where
  | some | ok | err
deriving Repr, DecidableEq

mutual

/-- What a C variable holds: scalars, an array with its buffer (`none` for the null pointers), the
fields of a struct, `None`, or another variant with its payload. -/
inductive Value where
  | plain
  | array (buffer : Option Nat)
  | struct (fields : Fields)
  | none
  | variant (tag : Variant) (payload : Value)

/-- The fields of a struct. -/
inductive Fields where
  | nil
  | cons (name : String) (value : Value) (rest : Fields)

end

mutual

/-- The buffers a value refers to. -/
def Value.buffers : Value → List Nat
  | .plain => []
  | .array buffer => buffer.toList
  | .struct fields => fields.buffers
  | .none => []
  | .variant _ payload => payload.buffers

/-- The buffers the fields of a struct refer to. -/
def Fields.buffers : Fields → List Nat
  | .nil => []
  | .cons _ value rest => value.buffers ++ rest.buffers

end

/-- The value of a field. -/
def Fields.get : Fields → String → Value
  | .nil, _ => .plain
  | .cons name value rest, field => if name = field then value else rest.get field

/-- The test of the tag of an enum value. -/
def Value.is : Value → Variant → Bool
  | .variant tag _, expected => tag = expected
  | _, _ => false

/-- The payload of an enum value. -/
def Value.payload : Value → Value
  | .variant _ payload => payload
  | _ => .plain

/-- The functions of the program: their result, and what they do to the heap. -/
abbrev Functions := String → List Value → Heap Value → Value × Heap Value

/-- `emit_value_release_in_place`. -/
def releaseValue (value : Value) (heap : Heap Value) : Heap Value :=
  heap.release Value.buffers value.buffers

/-- `emit_value_retain_in_place`. -/
def retainValue (value : Value) (heap : Heap Value) : Heap Value := heap.retain value.buffers

/-! ## The helpers -/

/-- `emit_option_unwrap_or_helper` (`result_option_helpers.rs:190–216`). -/
def optionUnwrapOr (input default_value : Value) (heap : Heap Value) : Value × Heap Value :=
  if input.is .some then (input.payload, releaseValue default_value heap)
  else (default_value, heap)

/-- `emit_result_unwrap_or_helper` (`result_option_helpers.rs:90–121`). -/
def resultUnwrapOr (input default_value : Value) (heap : Heap Value) : Value × Heap Value :=
  if input.is .ok then (input.payload, releaseValue default_value heap)
  else (default_value, releaseValue input.payload heap)

/-- The helpers that call a converter on the payload of one variant, and pass the other variant on. -/
def convertPayload (tag : Variant) (wrap pass : Value → Value) (functions : Functions)
    (converter : String) (input : Value) (heap : Heap Value) : Value × Heap Value :=
  if input.is tag then
    let (converted, heap) := functions converter [input.payload] heap
    (wrap converted, heap)
  else (pass input, heap)

/-- `emit_option_map_helper` (`result_option_helpers.rs:218–247`). -/
def optionMap : Functions → String → Value → Heap Value → Value × Heap Value :=
  convertPayload .some (.variant .some) fun _ => .none

/-- `emit_option_and_then_helper` (`result_option_helpers.rs:249–276`). -/
def optionAndThen : Functions → String → Value → Heap Value → Value × Heap Value :=
  convertPayload .some (fun converted => converted) fun _ => .none

/-- `emit_result_map_helper` (`result_option_helpers.rs:123–156`). -/
def resultMap : Functions → String → Value → Heap Value → Value × Heap Value :=
  convertPayload .ok (.variant .ok) fun input => .variant .err input.payload

/-- `emit_result_and_then_helper` (`result_option_helpers.rs:158–188`). -/
def resultAndThen : Functions → String → Value → Heap Value → Value × Heap Value :=
  convertPayload .ok (fun converted => converted) fun input => .variant .err input.payload

/-- `emit_result_map_err_helper` (`result_option_helpers.rs:56–88`). -/
def resultMapErr : Functions → String → Value → Heap Value → Value × Heap Value :=
  convertPayload .err (.variant .err) fun input => .variant .ok input.payload

/-! ## Expressions -/

/-- The forms of an argument: a live variable, a field of one, a call (of whatever gives a value of
its own: a function, an array literal, an element of an array), a variant around an argument, `None`,
and an expression without buffers. -/
inductive Argument where
  | var (x : Nat)
  | fieldAccess (base : Nat) (field : String)
  | call (name : String) (args : List Nat)
  | enumVariant (variant : Variant) (payload : Argument)
  | none
  | literal
deriving Repr, DecidableEq

/-- The calls of helpers. -/
inductive Combinator where
  | optionUnwrapOr (option default : Argument)
  | optionMap (option : Argument) (converter : String)
  | optionAndThen (option : Argument) (converter : String)
  | resultUnwrapOr (result default : Argument)
  | resultMap (result : Argument) (converter : String)
  | resultAndThen (result : Argument) (converter : String)
  | resultMapErr (result : Argument) (converter : String)
deriving Repr, DecidableEq

/-- `expr_may_share_array_storage` (`statement_lifecycle.rs:270–484`) of an argument. -/
def Argument.mayShare : Argument → Bool
  | .var _ => true
  | .fieldAccess _ _ => true
  | .call _ _ => false
  | .enumVariant _ payload => payload.mayShare
  | .none => false
  | .literal => false

/-- `expr_may_share_array_storage` of a combinator (`statement_lifecycle.rs:410–424`). -/
def Combinator.mayShare : Combinator → Bool
  | .resultMapErr result _ | .resultMap result _ | .resultAndThen result _ => result.mayShare
  | .optionMap option _ | .optionAndThen option _ => option.mayShare
  | .resultUnwrapOr result default => result.mayShare || default.mayShare
  | .optionUnwrapOr option default => option.mayShare || default.mayShare

/-- The live variables. -/
abbrev Locals := List Value

variable (functions : Functions) (locals : Locals)

/-- The value of a live variable. -/
def valueOf (x : Nat) : Value := locals.getD x .plain

/-- `emit_expr` of an argument: nothing is retained. -/
def Argument.emit : Argument → Heap Value → Value × Heap Value
  | .var x, heap => (valueOf locals x, heap)
  | .fieldAccess base field, heap =>
    match valueOf locals base with
    | .struct fields => (fields.get field, heap)
    | _ => (.plain, heap)
  | .call name args, heap => functions name (args.map (valueOf locals)) heap
  | .enumVariant variant payload, heap =>
    let (value, heap) := payload.emit heap
    (.variant variant value, heap)
  | .none, heap => (.none, heap)
  | .literal, heap => (.plain, heap)

/-- `emit_result_option_expr` (`expression_result_option.rs:3–174`). -/
def Combinator.emit : Combinator → Heap Value → Value × Heap Value
  | .optionUnwrapOr option default, heap =>
    let (input, heap) := option.emit functions locals heap
    let (default_value, heap) := default.emit functions locals heap
    Combinators.optionUnwrapOr input default_value heap
  | .optionMap option converter, heap =>
    let (input, heap) := option.emit functions locals heap
    Combinators.optionMap functions converter input heap
  | .optionAndThen option converter, heap =>
    let (input, heap) := option.emit functions locals heap
    Combinators.optionAndThen functions converter input heap
  | .resultUnwrapOr result default, heap =>
    let (input, heap) := result.emit functions locals heap
    let (default_value, heap) := default.emit functions locals heap
    Combinators.resultUnwrapOr input default_value heap
  | .resultMap result converter, heap =>
    let (input, heap) := result.emit functions locals heap
    Combinators.resultMap functions converter input heap
  | .resultAndThen result converter, heap =>
    let (input, heap) := result.emit functions locals heap
    Combinators.resultAndThen functions converter input heap
  | .resultMapErr result converter, heap =>
    let (input, heap) := result.emit functions locals heap
    Combinators.resultMapErr functions converter input heap

/-- `emit_let` (`statement_bindings.rs:3–19`): the value is bound, and retained if the initializer
may share storage. -/
def emitLet (initializer : Combinator) (heap : Heap Value) : Locals × Heap Value :=
  let (value, heap) := initializer.emit functions locals heap
  let heap := if initializer.mayShare then retainValue value heap else heap
  (locals ++ [value], heap)

/-- The buffers that live variables refer to. -/
def Locals.buffers (locals : Locals) : List Nat := locals.flatMap Value.buffers

end Nomo.Combinators
