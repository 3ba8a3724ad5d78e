import Nomo.Lib.Allocation

/-!
# The array runtime

`nomo_codegen_c/src/core/array_helpers.rs:3–296, 574–608`: the C functions that the generator writes
for one array type, with the element type as a parameter.  An array is a struct of a length, a
capacity and the pointers to its data and to its reference count; both pointers are `NULL` for an
array that has never held anything, and they are allocated and freed together, so one block with a
count stands for both.  `size_t` is `Nat`: no count and no length reaches `2^64`.
-/

namespace Nomo.Arrays

open Nomo.Lib.Allocation

/-- The types of elements: scalars, which need no release, and arrays of such elements. -/
inductive ElementType where
  | plain
  | array (element : ElementType)
deriving Repr, DecidableEq

/-- The C struct of an array; `data` is `none` for the null pointers. -/
structure ArrayHandle where
  len : Nat
  cap : Nat
  data : Option Nat
deriving Repr, DecidableEq

/-- What a cell or a variable holds. -/
inductive Word (α : Type) where
  | plain (a : α)
  | array (handle : ArrayHandle)
deriving Repr, DecidableEq

variable {α : Type}

/-- `malloc` gives up with this message (`array_helpers.rs:98, 104`). -/
def outOfMemory : String := "out of memory"

/-- `_new` (`array_helpers.rs:8–15`). -/
def arrayNew : ArrayHandle := ⟨0, 0, none⟩

/-- `_retain` (`array_helpers.rs:16–26`). -/
def arrayRetain (array : ArrayHandle) : Action (Word α) ArrayHandle := do
  match array.data with
  | none => pure array
  | some p => do
    increment p
    pure array

/-- `emit_array_element_retain_expr` (`array_helpers.rs:599–608`). -/
def elementRetain : ElementType → Word α → Action (Word α) (Word α)
  | .plain, value => pure value
  | .array _, .array handle => do
    let handle ← arrayRetain handle
    pure (.array handle)
  | .array _, .plain _ => fault

/-- The frame of `_release` (`array_helpers.rs:70–83`): take one from the count, and when it comes to
zero release the elements and free the buffer. -/
def dropReference (array : ArrayHandle) (releaseElements : Nat → Action (Word α) PUnit) :
    Action (Word α) PUnit :=
  match array.data with
  | none => pure ()
  | some p => do
    let count ← decrement p
    if count ≠ 0 then pure ()
    else do
      releaseElements p
      free p

/-- Release a word that holds an array. -/
def releaseHandle (release : ArrayHandle → Action (Word α) PUnit) : Word α → Action (Word α) PUnit
  | .array handle => release handle
  | .plain _ => fault

/-- `_release` for arrays of elements of the given type, with `emit_array_element_release_loop`
(`array_helpers.rs:574–580`), which is written only for elements that need it. -/
def arrayRelease : ElementType → ArrayHandle → Action (Word α) PUnit
  | .plain, array => dropReference array fun _ => pure ()
  | .array element, array => dropReference array fun p =>
    (List.range array.len).forM fun i => do
      let value ← load p i
      releaseHandle (arrayRelease element) value

/-- `emit_array_element_release_stmt` (`array_helpers.rs:582–588`). -/
def elementRelease : ElementType → Word α → Action (Word α) PUnit
  | .plain, _ => pure ()
  | .array element, value => releaseHandle (arrayRelease element) value

/-- The capacity that `_make_unique` asks for (`array_helpers.rs:91–93`); the loop that doubles it
ends before `needed` rounds. -/
def grownCapacity (cap needed : Nat) : Nat :=
  (fun c => if c < needed then c * 2 else c)^[needed]
    (if cap < needed then (if cap = 0 then 4 else cap) else cap)

/-- An element through the data pointer of an array. -/
def elementAt (array : ArrayHandle) (i : Nat) : Action (Word α) (Word α) :=
  match array.data with
  | none => fault
  | some p => load p i

/-- Write an element through the data pointer of an array. -/
def putElement (array : ArrayHandle) (i : Nat) (value : Word α) : Action (Word α) PUnit :=
  match array.data with
  | none => fault
  | some p => store p i value

/-- `emit_array_element_release_loop` (`array_helpers.rs:574–580`). -/
def releaseElements (element : ElementType) (array : ArrayHandle) : Action (Word α) PUnit :=
  match element with
  | .plain => pure ()
  | .array _ =>
    (List.range array.len).forM fun i => do
      let value ← elementAt array i
      elementRelease element value

/-- The test of `_make_unique` that no copy is needed (`array_helpers.rs:95`). -/
def isUnique (array : ArrayHandle) (needed : Nat) : Action (Word α) Bool :=
  match array.data with
  | none => pure false
  | some p => do
    let count ← countAt p
    pure (count == 1 && decide (needed ≤ array.cap))

variable (room : Memory (Word α) → Nat → Bool)

/-- `_make_unique` (`array_helpers.rs:84–117`). -/
def makeUnique (element : ElementType) (array : ArrayHandle) (needed : Nat) :
    Action (Word α) ArrayHandle := do
  let cap := grownCapacity array.cap needed
  if cap = 0 then pure array
  else do
    let unique ← isUnique array needed
    if unique then pure array
    else do
      match ← allocate room cap with
      | none => panic outOfMemory
      | some data => do
        (List.range array.len).forM fun i => do
          let value ← elementAt array i
          let value ← elementRetain element value
          store data i value
        -- in C the count is allocated apart and may find no room either
        let fits ← hasRoom room 1
        if !fits then panic outOfMemory
        else do
          setCount data 1
          arrayRelease element array
          pure ⟨array.len, cap, some data⟩

/-- `_push` (`array_helpers.rs:118–134`). -/
def arrayPush (element : ElementType) (array : ArrayHandle) (value : Word α) :
    Action (Word α) ArrayHandle := do
  let array ← makeUnique room element array (array.len + 1)
  let value ← elementRetain element value
  putElement array array.len value
  pure { array with len := array.len + 1 }

/-- `_insert` (`array_helpers.rs:135–158`). -/
def arrayInsert (element : ElementType) (array : ArrayHandle) (index : Nat) (value : Word α) :
    Action (Word α) ArrayHandle := do
  if array.len < index then panic "Array.insert index out of bounds"
  else do
    let array ← makeUnique room element array (array.len + 1)
    (List.range (array.len - index)).forM fun k => do
      let moved ← elementAt array (array.len - k - 1)
      putElement array (array.len - k) moved
    let value ← elementRetain element value
    putElement array index value
    pure { array with len := array.len + 1 }

/-- `_clear` (`array_helpers.rs:159–172`). -/
def arrayClear (element : ElementType) (array : ArrayHandle) : Action (Word α) ArrayHandle := do
  let array ← makeUnique room element array array.len
  releaseElements element array
  pure { array with len := 0 }

/-- `_pop` (`array_helpers.rs:173–203`). -/
def arrayPop (element : ElementType) (array : ArrayHandle) :
    Action (Word α) (ArrayHandle × Option (Word α)) := do
  if array.len = 0 then pure (array, none)
  else do
    let array ← makeUnique room element array array.len
    let index := array.len - 1
    let value ← elementAt array index
    let value ← elementRetain element value
    let old ← elementAt array index
    elementRelease element old
    pure ({ array with len := array.len - 1 }, some value)

/-- `_remove` (`array_helpers.rs:204–237`). -/
def arrayRemove (element : ElementType) (array : ArrayHandle) (index : Nat) :
    Action (Word α) (ArrayHandle × Option (Word α)) := do
  if array.len ≤ index then pure (array, none)
  else do
    let array ← makeUnique room element array array.len
    let value ← elementAt array index
    let value ← elementRetain element value
    let old ← elementAt array index
    elementRelease element old
    (List.range (array.len - 1 - index)).forM fun k => do
      let moved ← elementAt array (index + k + 1)
      putElement array (index + k) moved
    pure ({ array with len := array.len - 1 }, some value)

/-- `_get` (`array_helpers.rs:238–262`). -/
def arrayGet (element : ElementType) (array : ArrayHandle) (index : Nat) :
    Action (Word α) (Option (Word α)) := do
  if array.len ≤ index then pure none
  else do
    let value ← elementAt array index
    let value ← elementRetain element value
    pure (some value)

/-- `_index` (`array_helpers.rs:59–69`). -/
def arrayIndex (element : ElementType) (array : ArrayHandle) (index : Nat) :
    Action (Word α) (Word α) := do
  if array.len ≤ index then panic "array index out of bounds"
  else do
    let value ← elementAt array index
    elementRetain element value

/-- `_set` (`array_helpers.rs:263–281`). -/
def arraySet (element : ElementType) (array : ArrayHandle) (index : Nat) (value : Word α) :
    Action (Word α) ArrayHandle := do
  if array.len ≤ index then panic "Array.set index out of bounds"
  else do
    let array ← makeUnique room element array array.len
    let old ← elementAt array index
    elementRelease element old
    let value ← elementRetain element value
    putElement array index value
    pure array

end Nomo.Arrays
