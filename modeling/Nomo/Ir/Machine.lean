import Nomo.Ir.Syntax
import Nomo.Lib.RefCount

/-!
# The machine the IR runs on

Values, variables and the heap of reference-counted array buffers.  An array value is a reference
to a buffer: copying the value counts one more reference to the same buffer, a variable that goes
out of scope gives its reference up, and a store through a shared reference first detaches it
(`nomo_codegen_c/src/core/array_helpers.rs:1–330`).  The actions below are the only ones that touch
the heap, the variables and the outside world; the interpreter of `Nomo.Ir.Interpreter` is written
in terms of them.
-/

namespace Nomo.Ir

open Nomo.Lib

/-- Run-time values.  Structs carry their field names; an enum value has at most one payload. -/
inductive Value where
  | literal (value : Literal)
  | functionRef (name : String)
  | array (buffer : Nat)
  | struct (typeName : String) (fieldNames : List String) (fieldValues : List Value)
  | enum (variant : String) (payload : List Value)

mutual

/-- The buffers a value refers to, once for each reference. -/
def Value.handles : Value → List Nat
  | .literal _ | .functionRef _ => []
  | .array buffer => [buffer]
  | .struct _ _ values => handlesAll values
  | .enum _ payload => handlesAll payload

/-- The buffers a list of values refers to. -/
def handlesAll : List Value → List Nat
  | [] => []
  | v :: vs => v.handles ++ handlesAll vs

end

theorem handlesAll_eq (vs : List Value) : handlesAll vs = vs.flatMap Value.handles :=
  flatMap_of_cons rfl (fun _ _ => rfl) vs

/-- The value without content that a variable holds before its first assignment. -/
def Value.unit : Value := .literal .void

@[simp] theorem Value.handles_unit : Value.unit.handles = [] := rfl

/-- The result a library function or an extern function returns: data it has built itself, in
which it may put copies of values it has kept from earlier calls. -/
inductive Data where
  | literal (value : Literal)
  | functionRef (name : String)
  | array (elements : List Data)
  | struct (typeName : String) (fieldNames : List String) (fieldValues : List Data)
  | enum (variant : String) (payload : List Data)
  | kept (index : Nat)

/-- The answer of code outside the program: whether it keeps the arguments it was given, and its
result, or nothing if it panics. -/
structure Reply where
  keep : Bool
  result : Option Data

/-- The operations on evaluated operands. -/
inductive Primitive where
  | binary (op : BinaryOp) (valueType : ValueType)
  | unary (op : UnaryOp)
  | cast (targetType : ValueType)
  | builtin (op : Builtin)

/-- Variables and their values, innermost first. -/
abbrev Frame := List (String × Value)

/-- The state of a run. -/
structure Machine where
  heap : RefCount.Heap Value
  frame : Frame
  globals : Frame
  kept : List Value
  output : List (String × Bool)
  clock : Nat

/-- Everything the program does not determine: the meaning of operations on evaluated operands, of
functions it does not define, and of printing.  All of it may depend on the heap and on the number
of such calls so far. -/
structure Host where
  primitive : Primitive → List Value → RefCount.Heap Value → Nat → Reply
  external : String → List Value → RefCount.Heap Value → Nat → Reply
  display : Value → RefCount.Heap Value → String

/-- Why a run stops early.  `sharedStore` is raised only by a monitored run, when a store marked
`checkedUnique` is reached and the count of its buffer is not one. -/
inductive Stop where
  | panic (message : String)
  | sharedStore
  | unsupported
  | outOfFuel
deriving DecidableEq

/-- Actions of a run. -/
abbrev Exec := EStateM Stop Machine

namespace Frame

/-- The value of a variable. -/
def value? (frame : Frame) (name : String) : Option Value := List.lookup name frame

/-- Overwrite the innermost variable of a name. -/
def assign : Frame → String → Value → Frame
  | [], _, _ => []
  | (name', v') :: rest, name, v =>
    if name = name' then (name', v) :: rest else (name', v') :: assign rest name v

/-- The names of the variables. -/
def names (frame : Frame) : List String := frame.map Prod.fst

/-- The buffers that the variables refer to. -/
def handles (frame : Frame) : List Nat := frame.flatMap fun entry => entry.2.handles

end Frame

namespace Machine

/-- The value of a variable or constant. -/
def value? (m : Machine) (name : String) : Option Value :=
  (m.frame.value? name).or (m.globals.value? name)

/-- Count one more reference for everything in a value. -/
def retain (m : Machine) (v : Value) : Machine := { m with heap := m.heap.retain v.handles }

/-- Give up the references of a list of handles. -/
def release (m : Machine) (hs : List Nat) : Machine :=
  { m with heap := m.heap.release Value.handles hs }

end Machine

/-- A run that cannot go on. -/
def unsupported {α : Type} : Exec α := throw .unsupported

/-- The boolean a value stands for. -/
def Value.asBool : Value → Exec Bool
  | .literal (.bool b) => pure b
  | _ => unsupported

/-- The index a value stands for. -/
def Value.asIndex : Value → Exec Nat
  | .literal (.int (.ofNat n)) => pure n
  | _ => unsupported

/-- The buffer a value refers to. -/
def Value.asArray : Value → Exec Nat
  | .array buffer => pure buffer
  | _ => unsupported

/-- `Some(v)`. -/
def Value.some (v : Value) : Value := .enum "Some" [v]

/-- `None`. -/
def Value.none : Value := .enum "None" []

/-- The position of a field in a struct value. -/
def fieldIndex (fieldNames : List String) (field : String) : Option Nat :=
  fieldNames.findIdx? (· = field)

/-- Move the value at a field path out, leaving a hole. -/
def Value.take : List String → Value → Option (Value × Value)
  | [], v => Option.some (v, .unit)
  | field :: path, .struct typeName fieldNames values =>
    match fieldIndex fieldNames field with
    | Option.some i =>
      match values[i]? with
      | Option.some v =>
        match v.take path with
        | Option.some (inner, rest) =>
          Option.some (inner, .struct typeName fieldNames (values.set i rest))
        | Option.none => Option.none
      | Option.none => Option.none
    | Option.none => Option.none
  | _ :: _, _ => Option.none

/-- Replace the value at a field path; also returns the value that was there. -/
def Value.put (new : Value) : List String → Value → Option (Value × Value)
  | [], v => Option.some (v, new)
  | field :: path, .struct typeName fieldNames values =>
    match fieldIndex fieldNames field with
    | Option.some i =>
      match values[i]? with
      | Option.some v =>
        match Value.put new path v with
        | Option.some (old, rest) =>
          Option.some (old, .struct typeName fieldNames (values.set i rest))
        | Option.none => Option.none
      | Option.none => Option.none
    | Option.none => Option.none
  | _ :: _, _ => Option.none

/-! ## Variables -/

/-- Read a variable: the copy shares the buffers of the original. -/
def copyVariable (name : String) : Exec Value := fun m =>
  match m.value? name with
  | some v => .ok v (m.retain v)
  | none => .error .unsupported m

/-- Give up a value. -/
def discard (v : Value) : Exec Unit := fun m => .ok () (m.release v.handles)

/-- Give up a list of values. -/
def discardAll (vs : List Value) : Exec Unit := fun m => .ok () (m.release (handlesAll vs))

/-- A new variable. -/
def declare (name : String) (v : Value) : Exec Unit := fun m =>
  .ok () { m with frame := (name, v) :: m.frame }

/-- Assign to a variable; the old value is given up. -/
def assignVariable (name : String) (v : Value) : Exec Unit := fun m =>
  match m.frame.value? name with
  | some old => .ok () ({ m with frame := m.frame.assign name v }.release old.handles)
  | none => .error .unsupported m

/-- The number of variables in scope. -/
def scopeDepth : Exec Nat := fun m => .ok m.frame.length m

/-- Leave a scope: its variables give up their values. -/
def leaveScope (depth : Nat) : Exec Unit := fun m =>
  let left := m.frame.take (m.frame.length - depth)
  .ok () ({ m with frame := m.frame.drop (m.frame.length - depth) }.release (Frame.handles left))

/-- The buffer of an array variable, without copying the reference. -/
def borrowArray (name : String) : Exec Nat := fun m =>
  match m.value? name with
  | some (.array h) => .ok h m
  | _ => .error .unsupported m

/-- Copy the value at a field path of a variable. -/
def copyPath : List String → Exec Value
  | [] => unsupported
  | root :: path => fun m =>
    match m.value? root with
    | some v =>
      match v.take path with
      | some (inner, _) => .ok inner (m.retain inner)
      | none => .error .unsupported m
    | none => .error .unsupported m

/-- Move the value at a field path of a variable out, for the time of a call that borrows it. -/
def lendPath : List String → Exec Value
  | [] => unsupported
  | root :: path => fun m =>
    match m.frame.value? root with
    | some v =>
      match v.take path with
      | some (inner, rest) => .ok inner { m with frame := m.frame.assign root rest }
      | none => .error .unsupported m
    | none => .error .unsupported m

/-- Store a value at a field path of a variable; the old value is given up. -/
def storeField : List String → Value → Exec Unit
  | [], _ => unsupported
  | root :: path, new => fun m =>
    match m.frame.value? root with
    | some v =>
      match Value.put new path v with
      | some (old, rest) =>
        .ok () ({ m with frame := m.frame.assign root rest }.release old.handles)
      | none => .error .unsupported m
    | none => .error .unsupported m

/-! ## Arrays -/

/-- A fresh array. -/
def newArray (vs : List Value) : Exec Nat := fun m =>
  let (h, heap) := m.heap.alloc vs
  .ok h { m with heap := heap }

/-- `len`. -/
def arrayLength (h : Nat) : Exec Nat := fun m => .ok (m.heap.elements h).length m

/-- Copy an element out of a buffer (`_index`, `_get`). -/
def fetch (h i : Nat) : Exec (Option Value) := fun m =>
  match (m.heap.elements h)[i]? with
  | some v => .ok (some v) (m.retain v)
  | none => .ok none m

/-- `_set` and `_set_unique`: check the index, detach unless the mode says that this is the only
reference, and store.  A monitored run stops if the mode says so and it is not. -/
def setElement (monitor : Bool) (mode : ArrayMutationMode) (h i : Nat) (v : Value) : Exec Nat :=
  fun m =>
    if monitor = true ∧ mode = .checkedUnique ∧ m.heap.refs h ≠ 1 then .error .sharedStore m
    else if i < (m.heap.elements h).length then
      let (h', heap) :=
        match mode with
        | .checkedCow => m.heap.detach Value.handles h
        | .checkedUnique => (h, m.heap)
      let vs := heap.elements h'
      .ok h' ({ m with heap := heap.replace h' (vs.set i v) }.release (handlesAll vs[i]?.toList))
    else .error (.panic "Array.set index out of bounds") m

/-- `_push`. -/
def pushElement (h : Nat) (v : Value) : Exec Nat := fun m =>
  let (h', heap) := m.heap.detach Value.handles h
  .ok h' { m with heap := heap.replace h' (heap.elements h' ++ [v]) }

/-- `_insert`. -/
def insertElement (h i : Nat) (v : Value) : Exec Nat := fun m =>
  if i ≤ (m.heap.elements h).length then
    let (h', heap) := m.heap.detach Value.handles h
    .ok h' { m with heap := heap.replace h' ((heap.elements h').insertIdx i v) }
  else .error (.panic "Array.insert index out of bounds") m

/-- `_clear`. -/
def clearElements (h : Nat) : Exec Nat := fun m =>
  let (h', heap) := m.heap.detach Value.handles h
  .ok h' ({ m with heap := heap.replace h' [] }.release (handlesAll (heap.elements h')))

/-- `_remove`, and `_pop` at the last index: the array that is left, and the element. -/
def removeElement (h i : Nat) : Exec (Nat × Value) := fun m =>
  if i < (m.heap.elements h).length then
    let (h', heap) := m.heap.detach Value.handles h
    let vs := heap.elements h'
    .ok (h', vs[i]?.elim .none .some) { m with heap := heap.replace h' (vs.eraseIdx i) }
  else .ok (h, .none) m

/-- Change an array variable in place: its reference goes through `f`. -/
def updateArray {α : Type} (name : String) (f : Nat → Exec (Nat × α)) : Exec α := fun m =>
  match m.frame.value? name with
  | some (.array h) =>
    match f h { m with frame := m.frame.assign name .unit } with
    | .ok (h', a) m' => .ok a { m' with frame := m'.frame.assign name (.array h') }
    | .error e m' => .error e m'
  | _ => .error .unsupported m

/-! ## The outside world -/

mutual

/-- Build the value a reply describes. -/
def instantiate : Data → Machine → Value × Machine
  | .literal l, m => (.literal l, m)
  | .functionRef f, m => (.functionRef f, m)
  | .array elements, m =>
    let (vs, m) := instantiateAll elements m
    let (h, heap) := m.heap.alloc vs
    (.array h, { m with heap := heap })
  | .struct typeName fieldNames values, m =>
    let (vs, m) := instantiateAll values m
    (.struct typeName fieldNames vs, m)
  | .enum variant payload, m =>
    let (vs, m) := instantiateAll payload m
    (.enum variant vs, m)
  | .kept i, m =>
    match m.kept[i]? with
    | some v => (v, m.retain v)
    | none => (.unit, m)

/-- Build a list of values. -/
def instantiateAll : List Data → Machine → List Value × Machine
  | [], m => ([], m)
  | d :: ds, m =>
    let (v, m) := instantiate d m
    let (vs, m) := instantiateAll ds m
    (v :: vs, m)

end

/-- Hand arguments to code outside the program and take its reply. -/
def request (answer : RefCount.Heap Value → Nat → Reply) (args : List Value) : Exec Value :=
  fun m =>
    let reply := answer m.heap m.clock
    let m := { m with clock := m.clock + 1 }
    let m := if reply.keep then { m with kept := args ++ m.kept } else m.release (handlesAll args)
    match reply.result with
    | some d =>
      let (v, m) := instantiate d m
      .ok v m
    | none => .error (.panic "panic") m

/-- Print a line or a text. -/
def write (host : Host) (newline : Bool) (v : Value) : Exec Unit := fun m =>
  .ok () ({ m with output := (host.display v m.heap, newline) :: m.output }.release v.handles)

/-- Stop with a message. -/
def panicWith {α : Type} (host : Host) (v : Value) : Exec α := fun m =>
  .error (.panic (host.display v m.heap)) m

end Nomo.Ir
