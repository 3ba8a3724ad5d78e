import Nomo.Json.Agreement
import Nomo.JsonRpc.Decoder
import Nomo.Lib.Strtol

/-!
# JSON-RPC envelopes

`nomo_wasm/src/jsonrpc.rs:253–353` and `nomo_codegen_c/src/runtime/host_jsonrpc.c:49–262`.  The WASM
runtime keeps the value of each member that it knows and tests them afterwards.  The C runtime counts
the members, tests each where it stands, and reads the kind of a value and an integer off its text.

`nomo_json_object_members` and `nomo_json_as_string` scan the text of a value once more; here they
answer from the value that the text was parsed to.
-/

namespace Nomo.JsonRpc

open Nomo.Json
open Nomo.Json.Wasm (Parser ReadsForward value object valueAt valueKind afterItem expect consume number
  wholePart fraction exponent isDigit19_ascii forward_fraction forward_exponent passes_wholePart
  passes_valueKind passes_consume passes_objectStep objectStep_ok passes_member items_ok parse
  readsForward_value)
open Nomo.Lib.Scanning (bind_eq_ok)
open Nomo.Lib (IntFormat DecimalSign Numeral splitSign strto decimalValue isDecimalDigit)

/-- A member of an object. -/
abbrev Member := List UInt8 × JsonNode

/-- The members of a message that count. -/
inductive Field
  | version | method | id | params | result | error
deriving DecidableEq

/-- The members of an error that count. -/
inductive ErrorField
  | code | message | data
deriving DecidableEq

def Field.ofKey (key : List UInt8) : Option Field :=
  if key = asciiText "jsonrpc" then some .version
  else if key = asciiText "method" then some .method
  else if key = asciiText "id" then some .id
  else if key = asciiText "params" then some .params
  else if key = asciiText "result" then some .result
  else if key = asciiText "error" then some .error
  else none

def ErrorField.ofKey (key : List UInt8) : Option ErrorField :=
  if key = asciiText "code" then some .code
  else if key = asciiText "message" then some .message
  else if key = asciiText "data" then some .data
  else none

/-- `i64`, `int64_t` and `intmax_t`. -/
def i64 : IntFormat := ⟨true, 64, IntFormat.bits64_pos⟩

section

variable {φ α : Type} [DecidableEq φ]

/-! ## The WASM runtime -/

namespace Wasm

/-- The loop of `validate_envelope` and of `validate_error`. -/
def collect (ofKey : List UInt8 → Option φ) :
    List Member → (φ → Option JsonNode) → Except ErrorCode (φ → Option JsonNode)
  | [], slots => .ok slots
  | (key, value) :: members, slots =>
    match ofKey key with
    | none => collect ofKey members slots
    | some field =>
      if (slots field).isSome then .error .protocol
      else collect ofKey members (Function.update slots field (some value))

/-- `str::parse::<i64>` succeeds. -/
def parsesI64 (text : List UInt8) : Bool :=
  let (sign, digits) := splitSign text
  digits ≠ [] ∧ digits.all isDecimalDigit ∧ i64.Fits (sign.apply (decimalValue digits))

def isI64 : JsonNodeValue → Bool
  | .number text => parsesI64 text
  | _ => false

def isString : JsonNodeValue → Bool
  | .string _ => true
  | _ => false

def isVersion : JsonNodeValue → Bool
  | .string text => text = asciiText "2.0"
  | _ => false

/-- `structured`. -/
def structured : JsonNodeValue → Bool
  | .array _ | .object _ => true
  | _ => false

/-- `request_id`. -/
def requestId : JsonNodeValue → Bool
  | .string _ | .number _ => true
  | _ => false

/-- `response_id`. -/
def responseId (value : JsonNodeValue) : Bool :=
  requestId value || match value with | .null => true | _ => false

/-- What `validate_envelope` and `validate_error` have in common: a loop over the members of an object, and
tests. -/
def validateObject (ofKey : List UInt8 → Option φ) (test : (φ → Option JsonNode) → Except ErrorCode α)
    (value : JsonNodeValue) : Except ErrorCode α :=
  match value with
  | .object members => do test (← collect ofKey members fun _ => none)
  | _ => .error .protocol

/-- The tests of `validate_error`. -/
def testError (slots : ErrorField → Option JsonNode) : Except ErrorCode Unit :=
  if !((slots .code).any fun code => isI64 code.value) ||
      !((slots .message).any fun message => isString message.value) then
    .error .protocol
  else .ok ()

/-- `validate_error`. -/
def validateError (value : JsonNodeValue) : Except ErrorCode Unit :=
  validateObject ErrorField.ofKey testError value

/-- The tests of `validate_envelope`. -/
def classify (slots : Field → Option JsonNode) : Except ErrorCode MessageKind :=
  if !((slots .version).any fun version => isVersion version.value) then .error .protocol
  else
    match slots .method with
    | some method =>
      if !isString method.value || (slots .result).isSome || (slots .error).isSome ||
          (slots .params).any fun value => !structured value.value then
        .error .protocol
      else
        match slots .id with
        | none => .ok .notification
        | some id => if requestId id.value then .ok .request else .error .protocol
    | none =>
      if (slots .params).isSome || (slots .id).isNone ||
          (slots .result).isSome == (slots .error).isSome then
        .error .protocol
      else if !((slots .id).any fun id => responseId id.value) then .error .protocol
      else
        match slots .error with
        | some error => do
          validateError error.value
          return .error
        | none => .ok .success

/-- `validate_envelope`. -/
def validateEnvelope (node : JsonNode) : Except ErrorCode MessageKind :=
  validateObject Field.ofKey classify node.value

end Wasm

/-! ## The C runtime -/

namespace Native

/-- `nomo_json_trim`. -/
def trim (raw : List UInt8) : List UInt8 := (raw.dropWhile isSpace).rdropWhile isSpace

/-- `nomo_json_object_members`. -/
def objectMembers (node : JsonNode) : Option (List Member) :=
  match node.value with
  | .object members => some members
  | _ => none

/-- `nomo_json_as_string`. -/
def asString (node : JsonNode) : Option (List UInt8) :=
  match node.value with
  | .string text => some text
  | _ => none

/-- `nomo_jsonrpc_kind_char`. -/
def kindChar (node : JsonNode) : UInt8 := (trim node.raw).headD 0

/-- `nomo_jsonrpc_string_equals`. -/
def stringEquals (node : JsonNode) (expected : String) : Bool := asString node = some (asciiText expected)

/-- A byte of a fraction or an exponent. -/
def isMark (byte : UInt8) : Bool := byte = point || byte = ascii 'e' || byte = ascii 'E'

/-- `nomo_jsonrpc_integer_i64`. -/
def integerI64 (node : JsonNode) : Bool :=
  let text := trim node.raw
  if text.length = 0 ∨ text.length ≥ 32 then false
  else if text.any isMark then false
  else
    let parsed := strto i64 text
    !parsed.outOfRange && parsed.stop = []

/-- The counters of a loop, and the kind of the member that was counted last; only that of the id is
read. -/
structure Tally (φ : Type) where
  count : φ → ℕ
  kind : φ → UInt8

/-- The loop of `nomo_jsonrpc_validate_envelope` and of `nomo_jsonrpc_validate_error_object`, and whether
it leaves `valid` as it was. -/
def countMembers (ofKey : List UInt8 → Option φ) (check : φ → JsonNode → Bool) :
    List Member → Tally φ → Bool × Tally φ
  | [], tally => (true, tally)
  | (key, value) :: members, tally =>
    match ofKey key with
    | none => countMembers ofKey check members tally
    | some field =>
      let tally : Tally φ :=
        { count := Function.update tally.count field (tally.count field + 1)
          kind := Function.update tally.kind field (kindChar value) }
      if tally.count field ≠ 1 || !check field value then (false, tally)
      else countMembers ofKey check members tally

/-- What the loop over an error tests of a member. -/
def checkErrorMember : ErrorField → JsonNode → Bool
  | .code, value => integerI64 value
  | .message, value => kindChar value = quote
  | .data, _ => true

/-- What `nomo_jsonrpc_validate_envelope` and `nomo_jsonrpc_validate_error_object` have in common: a loop
over the members of an object, and tests of its counters. -/
def validateObject (ofKey : List UInt8 → Option φ) (check : φ → JsonNode → Bool)
    (test : Tally φ → Option α) (node : JsonNode) : Option α :=
  match objectMembers node with
  | none => none
  | some members =>
    let (valid, tally) := countMembers ofKey check members ⟨fun _ => 0, fun _ => 0⟩
    if valid then test tally else none

/-- The tests of `nomo_jsonrpc_validate_error_object`. -/
def testError (tally : Tally ErrorField) : Option Unit :=
  if tally.count .code ≠ 1 ∨ tally.count .message ≠ 1 then none else some ()

/-- `nomo_jsonrpc_validate_error_object`. -/
def validateErrorObject (node : JsonNode) : Bool :=
  (validateObject ErrorField.ofKey checkErrorMember testError node).isSome

/-- What the loop over a message tests of a member. -/
def checkMember : Field → JsonNode → Bool
  | .version, value => stringEquals value "2.0"
  | .method, value => kindChar value = quote
  | .params, value => kindChar value = openBrace || kindChar value = openBracket
  | .error, value => validateErrorObject value
  | .id, _ | .result, _ => true

/-- The test of the kind of an id. -/
def isIdKind (kind : UInt8) : Bool := kind = quote || kind = minus || isDigit kind

/-- The tests of `nomo_jsonrpc_validate_envelope`, and the kind. -/
def classify (tally : Tally Field) : Option MessageKind :=
  if tally.count .version ≠ 1 then none
  else if tally.count .method = 1 then
    if tally.count .result ≠ 0 ∨ tally.count .error ≠ 0 ∨
        (tally.count .id = 1 ∧ ¬ isIdKind (tally.kind .id)) then
      none
    else some (if tally.count .id = 0 then .notification else .request)
  else if tally.count .method ≠ 0 ∨ tally.count .params ≠ 0 ∨ tally.count .id ≠ 1 ∨
      tally.count .result + tally.count .error ≠ 1 ∨
      ¬ (isIdKind (tally.kind .id) ∨ tally.kind .id = ascii 'n') then
    none
  else some (if tally.count .result = 1 then .success else .error)

/-- `nomo_jsonrpc_validate_envelope`: the kind, where it answers that the envelope is valid. -/
def validateEnvelope (node : JsonNode) : Option MessageKind :=
  validateObject Field.ofKey checkMember classify node

/-- The error that `nomo_jsonrpc_validate_raw` makes of an envelope that is not valid. -/
def answer (result : Option α) : Except ErrorCode α := result.elim (.error .protocol) .ok

end Native

/-! ## The two loops -/

/-- The counters after the members of some slots. -/
def tallyOf (slots : φ → Option JsonNode) : Native.Tally φ where
  count field := if (slots field).isSome then 1 else 0
  kind field := ((slots field).map Native.kindChar).getD 0

theorem tallyOf_update {slots : φ → Option JsonNode} {field : φ} (hnone : slots field = none)
    (value : JsonNode) : tallyOf (Function.update slots field (some value)) =
      { count := Function.update (tallyOf slots).count field ((tallyOf slots).count field + 1)
        kind := Function.update (tallyOf slots).kind field (Native.kindChar value) } := by
  unfold tallyOf
  congr 1 <;> funext other <;> by_cases h : other = field
  · simp [h, hnone]
  all_goals simp [h]

variable {ofKey : List UInt8 → Option φ} {check : φ → JsonNode → Bool} {members : List Member}
  {slots final : φ → Option JsonNode}

theorem collect_error {e : ErrorCode} (h : Wasm.collect ofKey members slots = .error e) : e = .protocol := by
  induction members generalizing slots with
  | nil => cases h
  | cons member members ih =>
    rw [Wasm.collect] at h
    split at h
    · exact ih h
    · split_ifs at h
      · cases h
        rfl
      · exact ih h

theorem collect_keeps (h : Wasm.collect ofKey members slots = .ok final) {field : φ} {value : JsonNode}
    (hvalue : slots field = some value) : final field = some value := by
  induction members generalizing slots with
  | nil =>
    cases h
    exact hvalue
  | cons member members ih =>
    rw [Wasm.collect] at h
    split at h
    · exact ih h hvalue
    next other hother =>
    split_ifs at h with htaken
    refine ih h ?_
    rw [Function.update_of_ne ?_, hvalue]
    rintro rfl
    simp [hvalue] at htaken

theorem mem_of_collect (h : Wasm.collect ofKey members slots = .ok final) {field : φ} {value : JsonNode}
    (hvalue : final field = some value) : slots field = some value ∨ ∃ key, (key, value) ∈ members := by
  induction members generalizing slots with
  | nil =>
    cases h
    exact .inl hvalue
  | cons member members ih =>
    rw [Wasm.collect] at h
    split at h
    · exact (ih h).imp_right fun ⟨key, hkey⟩ => ⟨key, .tail _ hkey⟩
    next other hother =>
    split_ifs at h with htaken
    rcases ih h with hslot | ⟨key, hkey⟩
    · by_cases hfield : field = other
      · subst hfield
        rw [Function.update_self] at hslot
        cases hslot
        exact .inr ⟨_, .head _⟩
      · rw [Function.update_of_ne hfield] at hslot
        exact .inl hslot
    · exact .inr ⟨key, .tail _ hkey⟩

/-- Every slot that is taken passes its test. -/
def Checked (check : φ → JsonNode → Bool) (slots : φ → Option JsonNode) : Prop :=
  ∀ field value, slots field = some value → check field value = true

/-- **The two loops.** Either the slots are collected and pass their tests, and the counters are theirs;
or they are not, and the counting stops. -/
theorem countMembers_collect (ofKey : List UInt8 → Option φ) (members : List Member)
    (hslots : Checked check slots) :
    (∃ final, Wasm.collect ofKey members slots = .ok final ∧ Checked check final ∧
      Native.countMembers ofKey check members (tallyOf slots) = (true, tallyOf final)) ∨
    (∀ final, Wasm.collect ofKey members slots = .ok final → ¬ Checked check final) ∧
      (Native.countMembers ofKey check members (tallyOf slots)).1 = false := by
  induction members generalizing slots with
  | nil => exact .inl ⟨slots, rfl, hslots, rfl⟩
  | cons member members ih =>
    obtain ⟨key, value⟩ := member
    rw [Wasm.collect, Native.countMembers]
    cases hkey : ofKey key with
    | none => exact ih hslots
    | some field =>
      dsimp only
      cases hslot : slots field with
      | some taken =>
        refine .inr ⟨nofun, ?_⟩
        rw [if_pos (by simp [tallyOf, hslot])]
      | none =>
        rw [if_neg (by simp)]
        cases hcheck : check field value with
        | false =>
          refine .inr ⟨fun final hfinal hchecked => ?_, by rw [if_pos (by simp)]⟩
          have hkept := collect_keeps hfinal (Function.update_self field (some value) slots)
          exact absurd (hchecked field value hkept) (by simp [hcheck])
        | true =>
          rw [if_neg (by simp [tallyOf, hslot]), ← tallyOf_update hslot]
          refine ih fun other kept hkept => ?_
          by_cases hother : other = field
          · subst hother
            rw [Function.update_self] at hkept
            cases hkept
            exact hcheck
          · rw [Function.update_of_ne hother] at hkept
            exact hslots other kept hkept

end

/-! ## Parsed values -/

/-- The byte that the text of a value begins with. -/
def Begins : JsonNodeValue → UInt8 → Prop
  | .null, byte => byte = ascii 'n'
  | .boolean _, byte => byte = ascii 't' ∨ byte = ascii 'f'
  | .number _, byte => byte = minus ∨ isDigit byte = true
  | .string _, byte => byte = quote
  | .array _, byte => byte = openBracket
  | .object _, byte => byte = openBrace

/-- The whole part of a number has no leading zero. -/
def IsWhole (whole : List UInt8) : Prop :=
  whole = [zero] ∨ ∃ first rest, whole = first :: rest ∧ isDigit19 first = true ∧
    ∀ byte ∈ rest, isDigit byte = true

/-- A fraction and an exponent, or nothing. -/
def IsTail (tail : List UInt8) : Prop :=
  tail = [] ∨ ∃ first rest, tail = first :: rest ∧ Native.isMark first = true

/-- The text of a number. -/
def IsNumber (text : List UInt8) : Prop :=
  ∃ sign whole tail, text = DecimalSign.text sign ++ (whole ++ tail) ∧ sign ≠ .plus ∧ IsWhole whole ∧ IsTail tail

/-- A value whose text begins as its kind does, and is the number if it is one; the members of an object
are such values too. -/
inductive Formed : JsonNode → Prop
  | mk {raw : List UInt8} {value : JsonNodeValue} {maxDepth values : ℕ} (byte : UInt8) (rest : List UInt8)
      (raw_eq : raw = byte :: rest) (begins : Begins value byte)
      (number : ∀ text, value = .number text → raw = text ∧ IsNumber text)
      (members : ∀ members, value = .object members → ∀ member ∈ members, Formed member.2) :
      Formed (.mk raw value maxDepth values)

section

variable {a b c : Cursor}

theorem skipWhile_eq (kind : UInt8 → Bool) (index : ℕ) (rest : List UInt8) :
    skipWhile kind index rest = ⟨index + (rest.takeWhile kind).length, rest.dropWhile kind⟩ := by
  induction rest generalizing index with
  | nil => rfl
  | cons byte rest ih =>
    unfold skipWhile
    cases hkind : kind byte with
    | false => simp [hkind]
    | true =>
      simp [hkind, ih]
      omega

theorem rest_eq_slice (h : Forward a b) : a.rest = a.slice b ++ b.rest := by
  obtain ⟨front, hfront⟩ := h.suffix
  have hlen := h.len
  unfold Cursor.len at hlen
  rw [← hfront, List.length_append] at hlen
  rw [Cursor.slice, ← hfront, List.take_left' (by omega)]

theorem slice_trans (h : Forward a b) (h' : Forward b c) : a.slice c = a.slice b ++ b.slice c := by
  have hrest : a.slice c ++ c.rest = (a.slice b ++ b.slice c) ++ c.rest := by
    rw [← rest_eq_slice (h.trans h'), List.append_assoc, ← rest_eq_slice h', ← rest_eq_slice h]
  exact List.append_cancel_right hrest

theorem slice_self (a : Cursor) : a.slice a = [] := by simp [Cursor.slice]

theorem slice_skip_one {byte : UInt8} (h : a.byte = some byte) : a.slice (a.skip 1) = [byte] := by
  obtain ⟨index, rest⟩ := a
  cases rest with
  | nil => cases h
  | cons first rest =>
    cases h
    simp [Cursor.slice, Cursor.skip]

theorem slice_skipDigits (a : Cursor) : a.slice (skipDigits a) = a.rest.takeWhile isDigit := by
  rw [skipDigits, skipWhile_eq, Cursor.slice, Nat.add_sub_cancel_left]
  exact (List.prefix_iff_eq_take.mp (List.takeWhile_prefix _)).symm

theorem slice_cons (h : Passes a b) {byte : UInt8} (hbyte : a.byte = some byte) :
    ∃ rest, a.slice b = byte :: rest := by
  have hrest := rest_eq_slice h.toForward
  cases hslice : a.slice b with
  | nil =>
    rw [hslice, List.nil_append] at hrest
    exact absurd h.lt (by simp [hrest])
  | cons first rest =>
    rw [Cursor.byte, hrest, hslice] at hbyte
    cases hbyte
    exact ⟨rest, rfl⟩

theorem isWhole_of_wholePart (h : wholePart a = .ok b) : IsWhole (a.slice b) := by
  unfold wholePart fail at h
  split at h
  case h_1 byte hbyte =>
    split_ifs at h with hzero hdigit
    · cases h
      rw [slice_skip_one hbyte, hzero]
      exact .inl rfl
    · cases h
      rw [slice_trans (.skip_one hbyte (isDigit19_ascii hdigit)) (forward_skipDigits _),
        slice_skip_one hbyte, slice_skipDigits]
      exact .inr ⟨byte, _, rfl, hdigit, fun _ => List.mem_takeWhile_imp⟩
  case h_2 => cases h

theorem isTail_of_fraction (h : fraction a = .ok b) (h' : exponent b = .ok c) :
    IsTail (a.slice c) := by
  have hforward := (forward_fraction h).trans (forward_exponent h')
  cases hslice : a.slice c with
  | nil => exact .inl rfl
  | cons first rest =>
    have hbyte : a.byte = some first := by rw [Cursor.byte, rest_eq_slice hforward, hslice]; rfl
    refine .inr ⟨first, rest, rfl, ?_⟩
    by_contra hnone
    simp only [Native.isMark, Bool.or_eq_true, decide_eq_true_eq, not_or, and_assoc] at hnone
    -- none of the two steps is taken, so the slice is empty
    rw [fraction, consume, if_neg (by simp [hbyte, hnone.1])] at h
    cases h
    rw [exponent, if_neg (by simp [hbyte, hnone.2.1, hnone.2.2])] at h'
    cases h'
    rw [slice_self] at hslice
    cases hslice

theorem isNumber_of_number (h : number a = .ok b) : IsNumber (a.slice b) := by
  unfold number at h
  obtain ⟨whole, hwhole, h⟩ := bind_eq_ok.mp h
  obtain ⟨fractional, hfraction, hexponent⟩ := bind_eq_ok.mp h
  have htail := (forward_fraction hfraction).trans (forward_exponent hexponent)
  have hrest := (passes_wholePart hwhole).toForward
  unfold consume at hwhole hrest
  split_ifs at hwhole hrest with hbyte
  · have hsign := Forward.skip_one hbyte (by decide)
    refine ⟨.minus, _, _, ?_, nofun, isWhole_of_wholePart hwhole, isTail_of_fraction hfraction hexponent⟩
    rw [slice_trans hsign (hrest.trans htail), slice_trans hrest htail, slice_skip_one hbyte]
    rfl
  · refine ⟨.absent, _, _, ?_, nofun, isWhole_of_wholePart hwhole, isTail_of_fraction hfraction hexponent⟩
    rw [slice_trans hrest htail]
    rfl

end

/-- What is known of digits and of the bytes of fractions and exponents. -/
theorem byte_evaluated : ∀ byte : UInt8,
    (isDigit byte = true → isSpace byte = false ∧ Native.isMark byte = false ∧ decide (byte = quote) = false ∧
      (decide (byte = openBrace) || decide (byte = openBracket)) = false ∧ Native.isIdKind byte = true) ∧
    (isDigit19 byte = true → 1 ≤ 10 * 0 + (byte.toNat - 48) ∧ isDigit byte = true) ∧
    (Native.isMark byte = true → isSpace byte = false ∧ byte ≠ 45 ∧ byte ≠ 43 ∧ isDigit byte = false) := by
  decide +kernel

theorem isSpace_of_begins {value : JsonNodeValue} {byte : UInt8} (h : Begins value byte) :
    isSpace byte = false := by
  cases value with
  | boolean _ => rcases h with rfl | rfl <;> decide
  | number _ =>
    rcases h with rfl | h
    · decide
    · exact ((byte_evaluated byte).1 h).1
  | null | string _ | array _ | object _ =>
    obtain rfl := h
    decide

/-- A reader reads formed values. -/
def ReadsFormed (value : Parser → Except JsonError (JsonNode × Parser)) : Prop :=
  ∀ parser node finish, IsUtf8 parser.cursor.rest → value parser = .ok (node, finish) → Formed node

theorem formed_object {value : Parser → Except JsonError (JsonNode × Parser)} {parser : Parser} {depth : ℕ}
    (hforward : ReadsForward value) (hvalue : ReadsFormed value)
    (hbyte : parser.cursor.byte = some openBrace) (hutf8 : IsUtf8 parser.cursor.rest)
    {result : List Member × ℕ × Parser} (h : object value depth parser = .ok result) :
    ∀ member ∈ result.1, Formed member.2 := by
  have hbegun : Passes parser.cursor (skipSpace (parser.cursor.skip 1)) :=
    (passes_skip_one hbyte (by decide)).trans (forward_skipSpace _)
  have hafter : ∀ {members : List Member} {depth finish result},
      afterItem closeBrace members depth finish = .ok result → (Sum.elim id id result).1 = members := by
    intro members depth finish result h
    unfold afterItem expect fail at h
    dsimp only at h
    split at h
    · cases h
      rfl
    · split_ifs at h
      · cases h
        rfl
      · cases h
  refine (items_ok (fun state => IsUtf8 state.2.2.cursor.rest ∧ ∀ member ∈ state.1, Formed member.2) h
    ⟨hbegun.utf8 hutf8, nofun⟩ ?_ ?_).2
  · exact fun after hclose => ⟨(passes_consume (by decide) hclose).utf8 (hbegun.utf8 hutf8), nofun⟩
  rintro state next ⟨hstate, hmembers⟩ hstep
  refine ⟨(passes_objectStep hforward state next hstate hstep).utf8 hstate, ?_⟩
  obtain ⟨key, keyEnd, start, node, finish, hkey, hcolon, hnode, hnext⟩ := objectStep_ok hstep
  have hformed := hvalue _ _ _ ((passes_member hstate hkey hcolon).utf8 hstate) hnode
  rw [hafter hnext]
  rintro member hmember
  rcases List.mem_append.mp hmember with hold | hnew
  · exact hmembers member hold
  · rw [List.mem_singleton.mp hnew]
    exact hformed

theorem formed_valueAt {nested : Option (ℕ × (Parser → Except JsonError (JsonNode × Parser)))}
    (hnested : ∀ depth value, nested = some (depth, value) → ReadsForward value ∧ ReadsFormed value) :
    ReadsFormed (valueAt nested) := by
  rintro parser node finish hutf8 h
  unfold valueAt fail at h
  dsimp only at h
  split_ifs at h
  obtain ⟨⟨kind, maxDepth, finished⟩, hkind, h⟩ := bind_eq_ok.mp h
  cases h
  generalize hbegun : (⟨skipSpace parser.cursor, parser.values + 1⟩ : Parser) = begun at hkind
  have hcursor : begun.cursor = skipSpace parser.cursor := by rw [← hbegun]
  have hutf8 : IsUtf8 begun.cursor.rest := hcursor ▸ (forward_skipSpace parser.cursor).utf8 hutf8
  have hpasses := passes_valueKind (fun depth value h => (hnested depth value h).1) hutf8 hkind
  rw [← hcursor]
  unfold valueKind fail at hkind
  dsimp only at hkind
  split at hkind
  case h_1 => cases hkind
  case h_2 byte hbyte =>
    obtain ⟨rest, hslice⟩ := slice_cons hpasses hbyte
    split_ifs at hkind with hnull htrue hfalse hquote hnumber hbracket hbrace
    · obtain ⟨after, -, hkind⟩ := bind_eq_ok.mp hkind
      cases hkind
      exact .mk byte rest hslice hnull nofun nofun
    · obtain ⟨after, -, hkind⟩ := bind_eq_ok.mp hkind
      cases hkind
      exact .mk byte rest hslice (.inl htrue) nofun nofun
    · obtain ⟨after, -, hkind⟩ := bind_eq_ok.mp hkind
      cases hkind
      exact .mk byte rest hslice (.inr hfalse) nofun nofun
    · obtain ⟨after, -, hkind⟩ := bind_eq_ok.mp hkind
      cases hkind
      exact .mk byte rest hslice hquote nofun nofun
    · obtain ⟨after, hafter, hkind⟩ := bind_eq_ok.mp hkind
      cases hkind
      refine .mk byte rest hslice hnumber ?_ nofun
      rintro text htext
      cases htext
      exact ⟨rfl, isNumber_of_number hafter⟩
    · split at hkind
      case h_1 => cases hkind
      case h_2 =>
        obtain ⟨after, -, hkind⟩ := bind_eq_ok.mp hkind
        cases hkind
        exact .mk byte rest hslice hbracket nofun nofun
    · split at hkind
      case h_1 => cases hkind
      case h_2 depth value =>
        obtain ⟨⟨members, nestedDepth, after⟩, hread, hkind⟩ := bind_eq_ok.mp hkind
        cases hkind
        refine .mk byte rest hslice hbrace nofun ?_
        rintro members hmembers
        cases hmembers
        exact formed_object (hnested depth value rfl).1 (hnested depth value rfl).2 (by rw [hbyte, hbrace])
          hutf8 hread

/-- **Every value is formed.** -/
theorem readsFormed_value (levels : ℕ) : ReadsFormed (value levels) := by
  induction levels with
  | zero => exact formed_valueAt nofun
  | succ levels ih =>
    refine formed_valueAt ?_
    rintro depth value hnested
    cases hnested
    exact ⟨readsForward_value levels, ih⟩

theorem formed_members {text : List UInt8} {node : JsonNode} (hutf8 : IsUtf8 text)
    (hparse : parse text = .ok node) {members : List Member} (hobject : node.value = .object members) :
    ∀ member ∈ members, Formed member.2 := by
  unfold parse fail at hparse
  split_ifs at hparse
  obtain ⟨⟨read, parser⟩, hread, hparse⟩ := bind_eq_ok.mp hparse
  dsimp only at hparse
  split_ifs at hparse
  cases hparse
  obtain ⟨byte, rest, -, -, -, hmembers⟩ := readsFormed_value _ _ _ _ hutf8 hread
  exact hmembers members hobject

/-! ## Texts and values -/

theorem trim_cons {byte : UInt8} (rest : List UInt8) (h : isSpace byte = false) :
    ∃ kept, Native.trim (byte :: rest) = byte :: kept := by
  unfold Native.trim
  rw [List.dropWhile_cons_of_neg (by simp [h])]
  obtain ⟨dropped, hdropped⟩ := List.rdropWhile_prefix isSpace (l := byte :: rest)
  cases hkept : (byte :: rest).rdropWhile isSpace with
  | nil =>
    have hall := List.rdropWhile_eq_nil_iff.mp hkept byte (List.mem_cons_self ..)
    simp [h] at hall
  | cons first kept =>
    rw [hkept] at hdropped
    cases hdropped
    exact ⟨kept, rfl⟩

theorem begins_kindChar {node : JsonNode} (h : Formed node) : Begins node.value (Native.kindChar node) := by
  obtain ⟨byte, rest, rfl, hbegins, -, -⟩ := h
  obtain ⟨kept, hkept⟩ := trim_cons rest (isSpace_of_begins hbegins)
  rw [Native.kindChar, JsonNode.raw, hkept]
  exact hbegins

/-- **Kinds.** The first byte of a value tells its kind. -/
theorem kind_of_begins {value : JsonNodeValue} {byte : UInt8} (h : Begins value byte) :
    decide (byte = quote) = Wasm.isString value ∧
    (decide (byte = openBrace) || decide (byte = openBracket)) = Wasm.structured value ∧
    Native.isIdKind byte = Wasm.requestId value ∧
    (Native.isIdKind byte || decide (byte = ascii 'n')) = Wasm.responseId value := by
  cases value with
  | number text =>
    rcases h with rfl | h
    · exact ⟨rfl, rfl, rfl, rfl⟩
    · obtain ⟨-, -, hquote, hbracket, hid⟩ := (byte_evaluated byte).1 h
      refine ⟨hquote, hbracket, hid, ?_⟩
      rw [hid]
      rfl
  | boolean value => rcases h with rfl | rfl <;> exact ⟨rfl, rfl, rfl, rfl⟩
  | null | string text | array items | object members =>
    obtain rfl := h
    exact ⟨rfl, rfl, rfl, rfl⟩

theorem pow_le_decimalValue {first : UInt8} {rest : List UInt8} (h : isDigit19 first = true) :
    10 ^ rest.length ≤ decimalValue (first :: rest) := by
  have hfold : ∀ (rest : List UInt8) (n : ℕ), n * 10 ^ rest.length ≤
      rest.foldl (fun n byte => 10 * n + (byte.toNat - 48)) n := by
    intro rest
    induction rest with
    | nil => exact fun n => by simp
    | cons byte rest ih =>
      intro n
      refine le_trans ?_ (ih _)
      rw [List.length_cons, pow_succ, ← mul_assoc, mul_right_comm]
      exact Nat.mul_le_mul_right _ (show n * 10 ≤ 10 * n + (byte.toNat - 48) by omega)
  calc 10 ^ rest.length = 1 * 10 ^ rest.length := (one_mul _).symm
    _ ≤ (10 * 0 + (first.toNat - 48)) * 10 ^ rest.length := Nat.mul_le_mul_right _ ((byte_evaluated first).2.1 h).1
    _ ≤ decimalValue (first :: rest) := hfold rest _

theorem not_fits_of_le {sign : DecimalSign} {n : ℕ} (h : 10 ^ 30 ≤ n) : ¬ i64.Fits (sign.apply n) := by
  rw [IntFormat.fits_signed rfl]
  have hbits : i64.bits = 64 := rfl
  cases sign <;> simp only [DecimalSign.apply, hbits] <;> omega

theorem isDigit_of_isWhole {whole : List UInt8} (h : IsWhole whole) :
    whole ≠ [] ∧ ∀ byte ∈ whole, isDecimalDigit byte = true := by
  rcases h with rfl | ⟨first, rest, rfl, hdigit, hrest⟩
  · exact ⟨by simp, by simp; decide⟩
  · refine ⟨by simp, ?_⟩
    rintro byte (_ | ⟨_, hmem⟩)
    · exact ((byte_evaluated first).2.1 hdigit).2
    · exact hrest byte hmem

theorem length_of_fits {sign : DecimalSign} {whole : List UInt8} (hwhole : IsWhole whole)
    (h : i64.Fits (sign.apply (decimalValue whole))) : whole.length ≤ 30 := by
  rcases hwhole with rfl | ⟨first, rest, rfl, hfirst, -⟩
  · simp
  · by_contra hlong
    have hpow : 10 ^ 30 ≤ 10 ^ rest.length :=
      Nat.pow_le_pow_right (by decide) (by simpa using hlong)
    exact not_fits_of_le (hpow.trans (pow_le_decimalValue hfirst)) h

theorem trim_eq_self {text : List UInt8} (h : ∀ byte ∈ text, isSpace byte = false) : Native.trim text = text := by
  unfold Native.trim
  have hdrop : text.dropWhile isSpace = text := by
    cases text with
    | nil => rfl
    | cons byte rest => exact List.dropWhile_cons_of_neg (by simp [h byte])
  rw [hdrop, List.rdropWhile_eq_self_iff]
  exact fun hne => by simp [h _ (List.getLast_mem hne)]

theorem mem_dropWhile {kind : UInt8 → Bool} {byte : UInt8} {text : List UInt8} (h : byte ∈ text)
    (hkind : kind byte = false) : byte ∈ text.dropWhile kind := by
  rw [← List.takeWhile_append_dropWhile (p := kind) (l := text)] at h
  refine (List.mem_append.mp h).resolve_left fun hmem => ?_
  simpa [hkind] using List.mem_takeWhile_imp hmem

theorem mem_trim {byte : UInt8} {text : List UInt8} (h : byte ∈ text) (hspace : isSpace byte = false) :
    byte ∈ Native.trim text := by
  unfold Native.trim List.rdropWhile
  rw [List.mem_reverse]
  exact mem_dropWhile (List.mem_reverse.mpr (mem_dropWhile h hspace)) hspace

theorem not_parsesI64_of_mem {byte : UInt8} {text : List UInt8} (h : byte ∈ text) (hminus : byte ≠ 45)
    (hplus : byte ≠ 43) (hdigit : isDecimalDigit byte = false) : Wasm.parsesI64 text = false := by
  have hsplit := Lib.splitSign_text text
  unfold Wasm.parsesI64
  generalize splitSign text = split at hsplit
  obtain ⟨sign, digits⟩ := split
  rw [← hsplit, List.mem_append] at h
  have hmem : byte ∈ digits := by
    refine h.resolve_left fun hsign => ?_
    cases sign with
    | absent => cases hsign
    | plus => exact hplus (List.mem_singleton.mp hsign)
    | minus => exact hminus (List.mem_singleton.mp hsign)
  refine decide_eq_false fun hall => ?_
  simpa [hdigit] using List.all_eq_true.mp hall.2.1 byte hmem

theorem strto_stop_cons {byte : UInt8} {rest : List UInt8} (hspace : Lib.isSpace byte = false)
    (hminus : byte ≠ 45) (hplus : byte ≠ 43) (hdigit : isDecimalDigit byte = false) :
    (strto i64 (byte :: rest)).stop = byte :: rest := by
  unfold strto
  rw [List.dropWhile_cons_of_neg (by simp [hspace]), splitSign, if_neg hminus, if_neg hplus]
  simp [hdigit]

theorem integerI64_whole {sign : DecimalSign} {whole : List UInt8} (hplus : sign ≠ .plus)
    (hwhole : IsWhole whole) {value : JsonNodeValue} {maxDepth values : ℕ} :
    Native.integerI64 (.mk (sign.text ++ whole) value maxDepth values) =
      Wasm.parsesI64 (sign.text ++ whole) := by
  obtain ⟨hne, hdigits⟩ := isDigit_of_isWhole hwhole
  have hplain : ∀ byte ∈ sign.text ++ whole, isSpace byte = false ∧ Native.isMark byte = false := by
    rintro byte hmem
    rcases List.mem_append.mp hmem with hsign | hmem
    · cases sign with
      | absent => cases hsign
      | plus => exact absurd rfl hplus
      | minus =>
        rw [List.mem_singleton.mp hsign]
        decide
    · obtain ⟨hspace, hmark, -⟩ := (byte_evaluated byte).1 (hdigits byte hmem)
      exact ⟨hspace, hmark⟩
  have hparses : Wasm.parsesI64 (sign.text ++ whole) = decide (i64.Fits (sign.apply (decimalValue whole))) := by
    unfold Wasm.parsesI64
    rw [Lib.splitSign_digits hdigits]
    simpa [hne] using fun _ => hdigits
  have hnumeral : Numeral (sign.text ++ whole) [] sign whole :=
    ⟨(List.nil_append _).symm, fun _ h => (nomatch h), hdigits, hne⟩
  have hread : strto i64 (sign.text ++ whole) = Lib.convertDigits i64 sign whole [] :=
    Lib.strto_numeral hnumeral
  unfold Native.integerI64
  rw [JsonNode.raw, trim_eq_self fun byte hmem => (hplain byte hmem).1, hparses]
  dsimp only
  rw [hread]
  by_cases hfits : i64.Fits (sign.apply (decimalValue whole))
  · have hsign : sign.text.length ≤ 1 := by cases sign <;> decide
    have hlength := length_of_fits hwhole hfits
    have hpos := List.length_pos_of_ne_nil hne
    rw [if_neg (by rw [List.length_append]; omega),
      if_neg (by simpa only [Bool.not_eq_true, List.any_eq_false] using fun byte hmem => (hplain byte hmem).2),
      Lib.convertDigits_signed rfl hfits]
    simp [hfits]
  · rw [Lib.outOfRange_signed rfl hfits]
    simp [hfits]

/-- **Integers.** The two runtimes take the same values for one. -/
theorem integerI64_eq {node : JsonNode} (h : Formed node) : Native.integerI64 node = Wasm.isI64 node.value := by
  obtain ⟨byte, rest, rfl, hbegins, hnumber, -⟩ := h
  have hother : Lib.isSpace byte = false → byte ≠ 45 → byte ≠ 43 → isDecimalDigit byte = false →
      ∀ {value maxDepth values}, Native.integerI64 (.mk (byte :: rest) value maxDepth values) = false := by
    rintro hspace hminus hplus hdigit value maxDepth values
    obtain ⟨kept, hkept⟩ := trim_cons rest (isSpace_of_begins hbegins)
    unfold Native.integerI64
    rw [JsonNode.raw, hkept]
    dsimp only
    rw [strto_stop_cons hspace hminus hplus hdigit]
    simp
  rename_i value maxDepth values
  cases value with
  | number text =>
    obtain ⟨rfl, sign, whole, tail, htext, hplus, hwhole, htail⟩ := hnumber text rfl
    change Native.integerI64 _ = Wasm.parsesI64 (byte :: rest)
    rw [htext]
    rcases htail with rfl | ⟨first, tail, rfl, hfirst⟩
    · rw [List.append_nil]
      exact integerI64_whole hplus hwhole
    obtain ⟨hspace, hminus, hplus, hdigit⟩ := (byte_evaluated first).2.2 hfirst
    have hmem : first ∈ sign.text ++ (whole ++ first :: tail) := by simp
    rw [not_parsesI64_of_mem hmem hminus hplus hdigit]
    unfold Native.integerI64
    rw [JsonNode.raw]
    dsimp only
    rw [if_pos (List.any_eq_true.mpr ⟨first, mem_trim hmem hspace, hfirst⟩), ite_self]
  | boolean value =>
    rcases hbegins with rfl | rfl <;> exact hother (by decide) (by decide) (by decide) (by decide)
  | null | string text | array items | object members =>
    obtain rfl := hbegins
    exact hother (by decide) (by decide) (by decide) (by decide)

/-! ## Agreement -/

theorem formed_of_collect {φ : Type} [DecidableEq φ] {ofKey : List UInt8 → Option φ} {members : List Member}
    (hmembers : ∀ member ∈ members, Formed member.2) {final : φ → Option JsonNode}
    (h : Wasm.collect ofKey members (fun _ => none) = .ok final) {field : φ} {value : JsonNode}
    (hvalue : final field = some value) : Formed value := by
  rcases mem_of_collect h hvalue with hnone | ⟨key, hmem⟩
  · cases hnone
  · exact hmembers _ hmem

theorem formed_of_object {node : JsonNode} (h : Formed node) {members : List Member}
    (hvalue : node.value = .object members) : ∀ member ∈ members, Formed member.2 := by
  obtain ⟨byte, rest, -, -, -, hmembers⟩ := h
  exact hmembers members hvalue

/-- **Objects.** Where the tests agree on slots that are checked, and those of the WASM runtime refuse all
others, the two runtimes agree. -/
theorem validateObject_agree {φ α : Type} [DecidableEq φ] {ofKey : List UInt8 → Option φ}
    {check : φ → JsonNode → Bool} {count : Native.Tally φ → Option α}
    {test : (φ → Option JsonNode) → Except ErrorCode α} {node : JsonNode}
    (hmembers : ∀ members, node.value = .object members → ∀ member ∈ members, Formed member.2)
    (hchecked : ∀ final, (∀ field value, final field = some value → Formed value) →
      Checked check final → Native.answer (count (tallyOf final)) = test final)
    (hunchecked : ∀ final, (∀ field value, final field = some value → Formed value) →
      ¬ Checked check final → test final = .error .protocol) :
    Native.answer (Native.validateObject ofKey check count node) = Wasm.validateObject ofKey test node.value := by
  unfold Native.validateObject Native.objectMembers Wasm.validateObject
  cases hvalue : node.value with
  | object members =>
    dsimp only
    have hstart : (⟨fun _ => 0, fun _ => 0⟩ : Native.Tally φ) = tallyOf fun _ => none := rfl
    rw [hstart]
    rcases countMembers_collect ofKey members (show Checked check fun _ => none from nofun) with
      ⟨final, hcollect, hfinal, hcount⟩ | ⟨hnot, hcount⟩
    · rw [hcollect, hcount]
      exact hchecked final (fun _ _ => formed_of_collect (hmembers members hvalue) hcollect) hfinal
    rw [if_neg (by simp [hcount])]
    cases hcollect : Wasm.collect ofKey members fun _ => none with
    | error e =>
      rw [collect_error hcollect]
      rfl
    | ok final =>
      exact (hunchecked final (fun _ _ => formed_of_collect (hmembers members hvalue) hcollect)
        (hnot final hcollect)).symm
  | null | boolean value | number text | string text | array items => rfl

theorem kindChar_eq_quote {node : JsonNode} (h : Formed node) :
    decide (Native.kindChar node = quote) = Wasm.isString node.value :=
  (kind_of_begins (begins_kindChar h)).1

/-- **Error objects.** -/
theorem validateErrorObject_agree {node : JsonNode} (h : Formed node) :
    Native.answer (Native.validateObject ErrorField.ofKey Native.checkErrorMember Native.testError node) =
      Wasm.validateError node.value := by
  refine validateObject_agree (fun members => formed_of_object h) ?_ ?_
  · intro final hformed hchecked
    have hcode (code) (hslot : final .code = some code) : Wasm.isI64 code.value = true :=
      (integerI64_eq (hformed _ _ hslot)).symm.trans (hchecked _ _ hslot)
    have hmessage : ∀ message, final .message = some message → Wasm.isString message.value = true :=
      fun message hslot => (kindChar_eq_quote (hformed _ _ hslot)).symm.trans (hchecked _ _ hslot)
    unfold Native.testError Wasm.testError Native.answer tallyOf
    cases hcodeSlot : final .code with
    | none => simp [hcodeSlot]
    | some code =>
      cases hmessageSlot : final .message with
      | none => simp [hmessageSlot]
      | some message =>
        simp [hcodeSlot, hmessageSlot, hcode code hcodeSlot, hmessage message hmessageSlot]
  · intro final hformed hunchecked
    rw [Wasm.testError]
    refine if_pos ?_
    by_contra htests
    simp only [Bool.or_eq_true, Bool.not_eq_true', not_or, Bool.not_eq_false, Option.any_eq_true] at htests
    obtain ⟨⟨code, hcode, hint⟩, message, hmessage, hstring⟩ := htests
    refine hunchecked fun field value hvalue => ?_
    cases field with
    | code =>
      rw [hcode] at hvalue
      cases hvalue
      exact (integerI64_eq (hformed _ _ hcode)).trans hint
    | message =>
      rw [hmessage] at hvalue
      cases hvalue
      exact (kindChar_eq_quote (hformed _ _ hmessage)).trans hstring
    | data => rfl

theorem stringEquals_eq (node : JsonNode) : Native.stringEquals node "2.0" = Wasm.isVersion node.value := by
  unfold Native.stringEquals Native.asString Wasm.isVersion
  cases node.value <;> simp

theorem validateErrorObject_iff {node : JsonNode} (h : Formed node) :
    Native.validateErrorObject node = true ↔ Wasm.validateError node.value = .ok () := by
  rw [← validateErrorObject_agree h, Native.validateErrorObject]
  cases Native.validateObject ErrorField.ofKey Native.checkErrorMember Native.testError node with
  | none => exact iff_of_false nofun nofun
  | some => exact iff_of_true rfl rfl

def requestText : List UInt8 :=
  asciiText "\x7b\"jsonrpc\":\"2.0\",\"id\":-7,\"method\":\"a\",\"params\":[]\x7d"

end Nomo.JsonRpc
