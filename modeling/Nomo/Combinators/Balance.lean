import Nomo.Combinators.Helpers

/-!
# Which calls of combinators balance

A reference is transferred to a helper by an argument that has a value of its own, and lent by one
that is a place of a live variable.  The helpers do not know which it was: `unwrap_or` releases what
it does not return, `map`, `and_then` and `map_err` release nothing, and the binding retains the
result whenever one of the arguments was a place.
-/

namespace Nomo.Combinators

open Nomo.Lib.RefCount Nomo.Lib.RefCount.Heap

/-- The calling convention: arguments are lent, the result is owned. -/
def Lawful (functions : Functions) : Prop :=
  ∀ (name : String) (args : List Value) (heap : Heap Value) (L : Nat → Nat),
    Exact Value.buffers heap L → (∀ value ∈ args, ∀ g ∈ value.buffers, 0 < L g) →
      Exact Value.buffers (functions name args heap).2
        (tally (functions name args heap).1.buffers + L)

/-- The values of an `Option`. -/
def Value.isOption (value : Value) : Prop :=
  value = .none ∨ ∃ payload, value = .variant .some payload

/-- The values of a `Result`. -/
def Value.isResult (value : Value) : Prop :=
  ∃ payload, value = .variant .ok payload ∨ value = .variant .err payload

variable (functions : Functions) (locals : Locals)

/-- The receiver of a combinator has the type it is a combinator of. -/
def Combinator.Typed : Combinator → Heap Value → Prop
  | .optionUnwrapOr option _, heap | .optionMap option _, heap | .optionAndThen option _, heap =>
    (option.emit functions locals heap).1.isOption
  | .resultUnwrapOr result _, heap | .resultMap result _, heap | .resultAndThen result _, heap
  | .resultMapErr result _, heap => (result.emit functions locals heap).1.isResult

/-- After a binding every count is the number of references, those of the new variable among them:
every live variable has its buffers, and every other buffer has been freed. -/
def Balanced (initializer : Combinator) (heap : Heap Value) : Prop :=
  Exact Value.buffers (emitLet functions locals initializer heap).2
    (tally (emitLet functions locals initializer heap).1.buffers)

/-! ## When references settle -/

/-- `unwrap_or` returns the payload and releases the default. -/
def TakenSettles (inputShares defaultShares : Bool) (payload default_value : List Nat) : Prop :=
  defaultShares = false ∨ (inputShares = true ∧ default_value = []) ∨
    (inputShares = false ∧ tally payload = tally default_value)

/-- `unwrap_or` returns the default in the place of `None`. -/
def NoneSettles (inputShares defaultShares : Bool) (default_value : List Nat) : Prop :=
  defaultShares = true ∨ inputShares = false ∨ default_value = []

/-- `unwrap_or` returns the default and releases the error. -/
def ErrSettles (inputShares defaultShares : Bool) (error default_value : List Nat) : Prop :=
  inputShares = false ∨ (defaultShares = true ∧ error = []) ∨
    (defaultShares = false ∧ tally error = tally default_value)

/-- A converter has been called. -/
def ConvertedSettles (inputShares : Bool) (payload converted : List Nat) : Prop :=
  (inputShares = false ∧ payload = []) ∨ (inputShares = true ∧ converted = [])

/-- The call settles what its arguments transfer. -/
def Combinator.Settles : Combinator → Heap Value → Prop
  | .optionUnwrapOr option default, heap =>
    let (input, heap) := option.emit functions locals heap
    let (default_value, _) := default.emit functions locals heap
    if input.is .some then
      TakenSettles option.mayShare default.mayShare input.payload.buffers default_value.buffers
    else NoneSettles option.mayShare default.mayShare default_value.buffers
  | .resultUnwrapOr result default, heap =>
    let (input, heap) := result.emit functions locals heap
    let (default_value, _) := default.emit functions locals heap
    if input.is .ok then
      TakenSettles result.mayShare default.mayShare input.payload.buffers default_value.buffers
    else ErrSettles result.mayShare default.mayShare input.payload.buffers default_value.buffers
  | .optionMap option converter, heap | .optionAndThen option converter, heap =>
    let (input, heap) := option.emit functions locals heap
    input.is .some → ConvertedSettles option.mayShare input.payload.buffers
      (functions converter [input.payload] heap).1.buffers
  | .resultMap result converter, heap | .resultAndThen result converter, heap =>
    let (input, heap) := result.emit functions locals heap
    input.is .ok → ConvertedSettles result.mayShare input.payload.buffers
      (functions converter [input.payload] heap).1.buffers
  | .resultMapErr result converter, heap =>
    let (input, heap) := result.emit functions locals heap
    input.is .err → ConvertedSettles result.mayShare input.payload.buffers
      (functions converter [input.payload] heap).1.buffers

/-! ## What arguments transfer -/

section

variable {functions : Functions} {locals : Locals} {heap : Heap Value} {L : Nat → Nat}

theorem tally_eq_zero {hs : List Nat} : hs = [] ↔ ∀ g, tally hs g = 0 := by
  constructor
  · rintro rfl g
    rfl
  intro h
  refine List.eq_nil_iff_forall_not_mem.2 fun g hg => ?_
  have := tally_pos.2 hg
  have := h g
  omega

theorem tally_get_le (fields : Fields) (field : String) (g : Nat) :
    tally (fields.get field).buffers g ≤ tally fields.buffers g := by
  match fields with
  | .nil => exact Nat.zero_le _
  | .cons name value rest =>
    have ih := tally_get_le rest field g
    rw [Fields.get, Fields.buffers, tally_append, Pi.add_apply]
    split_ifs <;> omega

theorem tally_valueOf_le (x g : Nat) :
    tally (valueOf locals x).buffers g ≤ tally locals.buffers g := by
  unfold valueOf
  rw [List.getD_eq_getElem?_getD]
  cases hx : locals[x]? with
  | none => exact Nat.zero_le _
  | some value =>
    obtain ⟨hlt, rfl⟩ := List.getElem?_eq_some_iff.1 hx
    rw [Option.getD_some, Locals.buffers]
    refine List.Sublist.count_le _ ?_
    exact List.sublist_flatten_of_mem (List.mem_map_of_mem (List.getElem_mem hlt))

/-- The references that an argument hands over. -/
def transferred (shares : Bool) (value : Value) : Nat → Nat :=
  if shares then 0 else tally value.buffers

/-- An argument hands over the references of its value, or it lends those of a live variable. -/
theorem emit_spec (hF : Lawful functions) (a : Argument) (hle : ∀ g, tally locals.buffers g ≤ L g)
    (h : Exact Value.buffers heap L) :
    Exact Value.buffers (a.emit functions locals heap).2
        (transferred a.mayShare (a.emit functions locals heap).1 + L) ∧
      (a.mayShare = true → ∀ g,
        tally (a.emit functions locals heap).1.buffers g ≤ tally locals.buffers g) := by
  induction a with
  | var x => exact ⟨h.congr (zero_add L).symm, fun _ => tally_valueOf_le x⟩
  | fieldAccess base field =>
    have hplace (g) : tally ((Argument.fieldAccess base field).emit functions locals heap).1.buffers g
        ≤ tally locals.buffers g := by
      have hbase : tally (valueOf locals base).buffers g ≤ tally locals.buffers g :=
        tally_valueOf_le base g
      rw [Argument.emit]
      split
      next fields hfields =>
        rw [hfields] at hbase
        exact (tally_get_le fields field g).trans hbase
      next => exact Nat.zero_le _
    have hheap : ((Argument.fieldAccess base field).emit functions locals heap).2 = heap := by
      rw [Argument.emit]
      split <;> rfl
    rw [hheap]
    exact ⟨h.congr (zero_add L).symm, fun _ => hplace⟩
  | call name args =>
    refine ⟨hF name _ heap L h fun value hvalue g hg => ?_, fun hshare => nomatch hshare⟩
    obtain ⟨x, -, rfl⟩ := List.mem_map.1 hvalue
    have hpos := tally_pos.2 hg
    have hvalue : tally (valueOf locals x).buffers g ≤ tally locals.buffers g := tally_valueOf_le x g
    have := hle g
    omega
  | enumVariant tag payload ih =>
    exact ih
  | none | literal => exact ⟨h.congr (zero_add L).symm, fun hshare => nomatch hshare⟩

/-! ## What helpers leave -/

variable {inputShares defaultShares : Bool} {payload default_value converted value : Value}

/-- The binding of a value that a helper has returned balances. -/
def Binds (shares : Bool) (L : Nat → Nat) (returned : Value × Heap Value) : Prop :=
  Exact Value.buffers (if shares then retainValue returned.1 returned.2 else returned.2)
    (L + tally returned.1.buffers)

theorem balanced_iff_binds (initializer : Combinator) :
    Balanced functions locals initializer heap ↔
      Binds initializer.mayShare (tally locals.buffers) (initializer.emit functions locals heap) := by
  unfold Balanced Binds emitLet
  rw [Locals.buffers, List.flatMap_append, tally_append, List.flatMap_singleton]
  rfl

theorem binds_iff {shares : Bool} {K : Nat → Nat} (h : Exact Value.buffers heap K)
    (hlt : ∀ g ∈ value.buffers, g < heap.length) :
    Binds shares L (value, heap) ↔
      ∀ g, (if shares then tally value.buffers g else 0) + K g = L g + tally value.buffers g := by
  have hretained : Exact Value.buffers (if shares then retainValue value heap else heap)
      (fun g => (if shares then tally value.buffers g else 0) + K g) := by
    cases shares with
    | false => exact h.congr (zero_add K).symm
    | true => exact h.retain hlt
  constructor
  · intro hbinds g
    exact congrFun (hretained.unique hbinds) g
  · intro hall
    exact hretained.congr (funext hall)

theorem lt_of_transferred (h : Exact Value.buffers heap L)
    (hle : ∀ g, tally value.buffers g ≤ L g) : ∀ g ∈ value.buffers, g < heap.length := by
  intro g hg
  have := tally_pos.2 hg
  have := hle g
  exact h.lt_length (by omega)

theorem tally_le_transferred (hvalue : inputShares = true → ∀ g, tally value.buffers g ≤ L g) (g : Nat) :
    tally value.buffers g ≤ (transferred inputShares value + L) g := by
  cases inputShares with
  | false => exact Nat.le_add_right _ _
  | true => exact (hvalue rfl g).trans (Nat.le_add_left _ _)

/-- The binding of one value after another has been released. -/
theorem binds_released {shares : Bool} {K : Nat → Nat} {kept : Value} (h : Exact Value.buffers heap K)
    (hkept : ∀ g, tally kept.buffers g ≤ K g) (hvalue : ∀ g, tally value.buffers g ≤ K g) :
    Binds shares L (kept, releaseValue value heap) ↔ ∀ g,
      (if shares then tally kept.buffers g else 0) + (K g - tally value.buffers g) =
        L g + tally kept.buffers g := by
  have hsum : K = tally value.buffers + fun g => K g - tally value.buffers g :=
    funext fun g => (Nat.add_sub_cancel' (hvalue g)).symm
  obtain ⟨hreleased, hlength⟩ := (h.congr hsum).release
  exact binds_iff hreleased fun g hg => hlength ▸ lt_of_transferred h hkept g hg

section Released

variable
  (h : Exact Value.buffers heap
    (transferred defaultShares default_value + (transferred inputShares payload + L)))
  (hpayload : inputShares = true → ∀ g, tally payload.buffers g ≤ L g)
  (hdefault : defaultShares = true → ∀ g, tally default_value.buffers g ≤ L g)

include h hpayload hdefault

theorem taken_iff :
    Binds (inputShares || defaultShares) L (payload, releaseValue default_value heap) ↔
      TakenSettles inputShares defaultShares payload.buffers default_value.buffers := by
  rw [binds_released h (fun g => (tally_le_transferred hpayload g).trans (Nat.le_add_left _ _))
    (tally_le_transferred fun hshares g => (hdefault hshares g).trans (Nat.le_add_left _ _))]
  unfold TakenSettles
  cases defaultShares <;> cases inputShares <;>
    simp only [transferred, Pi.add_apply, Pi.zero_apply, Bool.or_false, Bool.or_true,
      Bool.false_eq_true, if_true, if_false, true_and, false_and, or_false, false_or, true_or,
      reduceCtorEq, tally_eq_zero, funext_iff, iff_true]
  · intro g
    omega
  · intro g
    omega
  all_goals
    refine forall_congr' fun g => ?_
    have := hdefault rfl g
    omega

theorem err_iff :
    Binds (inputShares || defaultShares) L (default_value, releaseValue payload heap) ↔
      ErrSettles inputShares defaultShares payload.buffers default_value.buffers := by
  rw [binds_released h
    (tally_le_transferred fun hshares g => (hdefault hshares g).trans (Nat.le_add_left _ _))
    fun g => (tally_le_transferred hpayload g).trans (Nat.le_add_left _ _)]
  unfold ErrSettles
  cases defaultShares <;> cases inputShares <;>
    simp only [transferred, Pi.add_apply, Pi.zero_apply, Bool.or_false, Bool.or_true,
      Bool.false_eq_true, if_true, if_false, true_and, false_and, or_false, false_or, true_or,
      reduceCtorEq, tally_eq_zero, funext_iff, iff_true]
  · intro g
    omega
  · refine forall_congr' fun g => ?_
    have := hpayload rfl g
    omega
  · intro g
    omega
  · refine forall_congr' fun g => ?_
    have := hpayload rfl g
    omega

end Released

theorem none_iff (h : Exact Value.buffers heap (transferred defaultShares default_value + L))
    (hdefault : defaultShares = true → ∀ g, tally default_value.buffers g ≤ L g) :
    Binds (inputShares || defaultShares) L (default_value, heap) ↔
      NoneSettles inputShares defaultShares default_value.buffers := by
  rw [binds_iff h (lt_of_transferred h (tally_le_transferred hdefault))]
  unfold NoneSettles
  cases defaultShares <;> cases inputShares <;>
    simp only [transferred, Pi.add_apply, Pi.zero_apply, Bool.or_false, Bool.or_true,
      Bool.false_eq_true, if_true, if_false, false_or, true_or, or_true, reduceCtorEq, tally_eq_zero,
      iff_true]
  · intro g
    omega
  · refine forall_congr' fun g => ?_
    omega
  all_goals
    intro g
    omega

theorem converted_iff
    (h : Exact Value.buffers heap (tally converted.buffers + (transferred inputShares payload + L)))
    (hvalue : value.buffers = converted.buffers) :
    Binds inputShares L (value, heap) ↔
      ConvertedSettles inputShares payload.buffers converted.buffers := by
  rw [← hvalue] at h ⊢
  rw [binds_iff h (lt_of_transferred h fun g => Nat.le_add_right _ _)]
  unfold ConvertedSettles
  cases inputShares <;>
    simp only [transferred, Pi.add_apply, Pi.zero_apply, Bool.false_eq_true, if_true, if_false,
      true_and, false_and, or_false, false_or, reduceCtorEq, tally_eq_zero]
  all_goals
    refine forall_congr' fun g => ?_
    omega

theorem passed_binds (h : Exact Value.buffers heap (transferred inputShares payload + L))
    (hpayload : inputShares = true → ∀ g, tally payload.buffers g ≤ L g)
    (hvalue : value.buffers = payload.buffers) : Binds inputShares L (value, heap) := by
  have hle := tally_le_transferred hpayload
  rw [← hvalue] at hle
  rw [binds_iff h (lt_of_transferred h hle)]
  intro g
  rw [hvalue]
  cases inputShares <;> simp [transferred, Nat.add_comm]

/-! ## Calls -/

theorem Value.isOption.buffers_payload (h : value.isOption) : value.payload.buffers = value.buffers := by
  rcases h with rfl | ⟨payload, rfl⟩ <;> rfl

theorem Value.isResult.buffers_payload (h : value.isResult) : value.payload.buffers = value.buffers := by
  obtain ⟨payload, rfl | rfl⟩ := h <;> rfl

theorem Value.isOption.none_of (h : value.isOption) (htag : ¬ value.is .some) : value = .none := by
  rcases h with rfl | ⟨payload, rfl⟩
  · rfl
  · exact absurd rfl htag

theorem receiver_spec (hF : Lawful functions) (a : Argument)
    (hpayload : (a.emit functions locals heap).1.payload.buffers
      = (a.emit functions locals heap).1.buffers)
    (h : Exact Value.buffers heap (tally locals.buffers)) :
    Exact Value.buffers (a.emit functions locals heap).2
        (transferred a.mayShare (a.emit functions locals heap).1.payload + tally locals.buffers) ∧
      (a.mayShare = true → ∀ g,
        tally (a.emit functions locals heap).1.payload.buffers g ≤ tally locals.buffers g) := by
  have hspec := emit_spec hF a (fun _ => Nat.le_refl _) h
  unfold transferred at hspec ⊢
  rwa [hpayload]

theorem default_spec (hF : Lawful functions) (a : Argument)
    (h : Exact Value.buffers heap (transferred inputShares payload + tally locals.buffers)) :
    Exact Value.buffers (a.emit functions locals heap).2
        (transferred a.mayShare (a.emit functions locals heap).1
          + (transferred inputShares payload + tally locals.buffers)) ∧
      (a.mayShare = true → ∀ g,
        tally (a.emit functions locals heap).1.buffers g ≤ tally locals.buffers g) :=
  emit_spec hF a (fun _ => Nat.le_add_left _ _) h

theorem converter_spec (hF : Lawful functions) (converter : String)
    (h : Exact Value.buffers heap (transferred inputShares payload + L))
    (hpayload : inputShares = true → ∀ g, tally payload.buffers g ≤ L g) :
    Exact Value.buffers (functions converter [payload] heap).2
      (tally (functions converter [payload] heap).1.buffers
        + (transferred inputShares payload + L)) := by
  refine hF converter [payload] heap _ h fun value hvalue g hg => ?_
  obtain rfl := List.mem_singleton.1 hvalue
  exact Nat.lt_of_lt_of_le (tally_pos.2 hg) (tally_le_transferred hpayload g)

theorem optionUnwrapOr_iff (hF : Lawful functions) (option default : Argument)
    (htyped : (Combinator.optionUnwrapOr option default).Typed functions locals heap)
    (h : Exact Value.buffers heap (tally locals.buffers)) :
    Balanced functions locals (.optionUnwrapOr option default) heap ↔
      (Combinator.optionUnwrapOr option default).Settles functions locals heap := by
  obtain ⟨h₁, hpayload⟩ := receiver_spec hF option htyped.buffers_payload h
  obtain ⟨h₂, hdefault⟩ := default_spec hF default h₁
  rw [balanced_iff_binds]
  unfold Combinator.Settles Combinator.emit optionUnwrapOr Combinator.mayShare
  dsimp only
  split_ifs with htag
  · exact taken_iff h₂ hpayload hdefault
  have hnone := htyped.none_of htag
  rw [hnone] at h₂
  refine none_iff (h₂.congr ?_) hdefault
  unfold transferred
  split_ifs <;> funext g <;> simp [Value.payload, Value.buffers]

theorem resultUnwrapOr_iff (hF : Lawful functions) (result default : Argument)
    (htyped : (Combinator.resultUnwrapOr result default).Typed functions locals heap)
    (h : Exact Value.buffers heap (tally locals.buffers)) :
    Balanced functions locals (.resultUnwrapOr result default) heap ↔
      (Combinator.resultUnwrapOr result default).Settles functions locals heap := by
  obtain ⟨h₁, hpayload⟩ := receiver_spec hF result htyped.buffers_payload h
  obtain ⟨h₂, hdefault⟩ := default_spec hF default h₁
  rw [balanced_iff_binds]
  unfold Combinator.Settles Combinator.emit resultUnwrapOr Combinator.mayShare
  dsimp only
  split_ifs with htag
  · exact taken_iff h₂ hpayload hdefault
  · exact err_iff h₂ hpayload hdefault

theorem convertPayload_iff (hF : Lawful functions) (a : Argument) (converter : String) (tag : Variant)
    (wrap pass : Value → Value)
    (hpayload : (a.emit functions locals heap).1.payload.buffers
      = (a.emit functions locals heap).1.buffers)
    (hwrap : ∀ value, (wrap value).buffers = value.buffers)
    (hpass : ¬ (a.emit functions locals heap).1.is tag →
      (pass (a.emit functions locals heap).1).buffers
        = (a.emit functions locals heap).1.payload.buffers)
    (h : Exact Value.buffers heap (tally locals.buffers)) :
    Binds a.mayShare (tally locals.buffers)
        (convertPayload tag wrap pass functions converter (a.emit functions locals heap).1
          (a.emit functions locals heap).2) ↔
      ((a.emit functions locals heap).1.is tag →
        ConvertedSettles a.mayShare (a.emit functions locals heap).1.payload.buffers
          (functions converter [(a.emit functions locals heap).1.payload]
            (a.emit functions locals heap).2).1.buffers) := by
  obtain ⟨h₁, hlent⟩ := receiver_spec hF a hpayload h
  unfold convertPayload
  split_ifs with htag
  · simp only [htag, forall_const]
    exact converted_iff (converter_spec hF converter h₁ hlent) (hwrap _)
  · exact iff_of_true (passed_binds h₁ hlent (hpass htag)) fun h => absurd h htag

/-- **What the combinators balance.** A binding of a call of `unwrap_or`, `map`, `and_then` or
`map_err` leaves every count right if and only if the call settles what its arguments transfer. -/
theorem combinator_balanced_iff (hF : Lawful functions) (initializer : Combinator)
    (htyped : initializer.Typed functions locals heap)
    (h : Exact Value.buffers heap (tally locals.buffers)) :
    Balanced functions locals initializer heap ↔ initializer.Settles functions locals heap := by
  cases initializer with
  | optionUnwrapOr option default => exact optionUnwrapOr_iff hF option default htyped h
  | resultUnwrapOr result default => exact resultUnwrapOr_iff hF result default htyped h
  | optionMap option converter | optionAndThen option converter =>
    rw [balanced_iff_binds]
    refine convertPayload_iff hF option converter .some _ _ htyped.buffers_payload (fun _ => rfl)
      (fun htag => ?_) h
    rw [htyped.none_of htag]
    rfl
  | resultMap result converter | resultAndThen result converter =>
    rw [balanced_iff_binds]
    exact convertPayload_iff hF result converter .ok _ _ htyped.buffers_payload (fun _ => rfl)
      (fun _ => rfl) h
  | resultMapErr result converter =>
    rw [balanced_iff_binds]
    exact convertPayload_iff hF result converter .err _ _ htyped.buffers_payload (fun _ => rfl)
      (fun _ => rfl) h

end

/-! ## A default that is a live variable -/

/-- A program whose functions all give a new array of one scalar. -/
def makesArrays : Functions := fun _ _ heap =>
  (.array (heap.alloc [.plain]).1, (heap.alloc [.plain]).2)

theorem makesArrays_lawful : Lawful makesArrays := fun _ _ _ L h _ =>
  Exact.alloc (h.congr (zero_add L).symm)

/-- Two buffers, and the variables `o = Some([..])` and `d = [..]`. -/
def twoArrays : Heap Value := [⟨1, [.plain]⟩, ⟨1, [.plain]⟩]

/-- The variables of `twoArrays`. -/
def someAndDefault : Locals := [.variant .some (.array (some 0)), .array (some 1)]

theorem twoArrays_exact : Exact Value.buffers twoArrays (tally someAndDefault.buffers) := by
  intro g
  match g with
  | 0 => rfl
  | 1 => rfl
  | g + 2 => simp [held, refs, tally, twoArrays, someAndDefault, Locals.buffers, Value.buffers]

/-- `let x = option.unwrap_or(o, d)` frees the buffer of `d`, which is still live. -/
theorem unwrap_or_frees_default :
    Lawful makesArrays ∧
      (Combinator.optionUnwrapOr (.var 0) (.var 1)).Typed makesArrays someAndDefault twoArrays ∧
      Exact Value.buffers twoArrays (tally someAndDefault.buffers) ∧
      (emitLet makesArrays someAndDefault (.optionUnwrapOr (.var 0) (.var 1)) twoArrays).2.refs 1 = 0 ∧
      ¬ Balanced makesArrays someAndDefault (.optionUnwrapOr (.var 0) (.var 1)) twoArrays := by
  have hfreed : (emitLet makesArrays someAndDefault (.optionUnwrapOr (.var 0) (.var 1))
      twoArrays).2.refs 1 = 0 := by decide
  refine ⟨makesArrays_lawful, Or.inr ⟨_, rfl⟩, twoArrays_exact, hfreed, fun hbalanced => ?_⟩
  have hcount := hbalanced 1
  rw [hfreed] at hcount
  revert hcount
  decide

/-- With a default of its own the same binding balances. -/
theorem combinator_balanced_iff_fresh :
    Balanced makesArrays someAndDefault (.optionUnwrapOr (.var 0) (.call "make" [])) twoArrays :=
  have htyped : (Combinator.optionUnwrapOr (.var 0) (.call "make" [])).Typed makesArrays
      someAndDefault twoArrays := Or.inr ⟨_, rfl⟩
  (combinator_balanced_iff makesArrays_lawful _ htyped twoArrays_exact).2 (Or.inl rfl)

end Nomo.Combinators
