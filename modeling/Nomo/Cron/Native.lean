import Nomo.Cron.Calendar
import Nomo.Lib.Checked

/-!
# Cron in the C runtime

`nomo_codegen_c/src/runtime/host_cron.c`. A pointer with a length into the expression is a list of
bytes; a function that fails with a code in `*failure` is an `Except`.
-/

namespace Nomo.Cron.Native

open Nomo.Lib Nomo.Lib.Checked

/-- `nomo_cron_ascii_space`. -/
def asciiSpace (value : UInt8) : Bool := value ∈ [32, 9, 10, 13, 11, 12]

/-- `UINT64_MAX`. -/
def uint64Max : ℕ := 2 ^ 64 - 1

/-- The loop of `nomo_cron_parse_uint`. -/
def parseUintLoop : ℕ → List UInt8 → Except String ℕ
  | parsed, [] => .ok parsed
  | parsed, byte :: rest =>
    if isDigit byte then
      let digit := digitValue byte
      if parsed > (uint64Max - digit) / 10 then .error "range"
      else parseUintLoop (parsed * 10 + digit) rest
    else .error "syntax"

/-- `nomo_cron_parse_uint`. -/
def parseUint (text : List UInt8) : Except String ℕ :=
  if text.length = 0 then .error "syntax" else parseUintLoop 0 text

/-- The scan for the only occurrence of a byte: the index reached, and the index where it was found. -/
def onlyIndex (byte : UInt8) : ℕ → Option ℕ → List UInt8 → Except String (Option ℕ)
  | _, found, [] => .ok found
  | i, found, c :: rest =>
    if c = byte then
      match found with
      | some _ => .error "syntax"
      | none => onlyIndex byte (i + 1) (some i) rest
    else onlyIndex byte (i + 1) found rest

/-- The loop that sets the bits from a start to an end. -/
def setBits (step stop : ℕ) : ℕ → ℕ → UInt64 → UInt64
  | 0, _, mask => mask
  | fuel + 1, value, mask =>
    if value ≤ stop then
      let mask := mask ||| bit (UInt64.ofNat value)
      if stop - value < step then mask else setBits step stop fuel (value + step) mask
    else mask

/-- The step after the slash, if there is one. -/
def parseStep (text : List UInt8) (slash : Option ℕ) (minimum maximum : ℕ) : Except String ℕ :=
  match slash with
  | none => .ok 1
  | some slash => do
    let step ← parseUint (text.drop (slash + 1))
    require (step ≠ 0 ∧ step ≤ maximum - minimum + 1) "range"
    return step

/-- The first and the last value. -/
def parseBase (base : List UInt8) (slash : Option ℕ) (minimum maximum : ℕ) :
    Except String (ℕ × ℕ) :=
  if base.length = 1 ∧ base.head? = some 42 then .ok (minimum, maximum)
  else do
    match ← onlyIndex 45 0 none base with
    | none =>
      require (slash = none) "syntax"
      let start ← parseUint base
      return (start, start)
    | some dash =>
      let start ← parseUint (base.take dash)
      let stop ← parseUint (base.drop (dash + 1))
      return (start, stop)

/-- The bits from a first to a last value, which must be within the bounds. -/
def setRange (step minimum maximum : ℕ) (mask : UInt64) (bounds : ℕ × ℕ) : Except String UInt64 := do
  let (start, stop) := bounds
  require (minimum ≤ start ∧ start ≤ maximum ∧ minimum ≤ stop ∧ stop ≤ maximum ∧ start ≤ stop) "range"
  return setBits step stop (stop + 1) start mask

/-- `nomo_cron_parse_member`. -/
def parseMember (text : List UInt8) (minimum maximum : ℕ) (mask : UInt64) : Except String UInt64 := do
  let slash ← onlyIndex 47 0 none text
  let step ← parseStep text slash minimum maximum
  let bounds ← parseBase (text.take (slash.getD text.length)) slash minimum maximum
  setRange step minimum maximum mask bounds

/-- The loop of `nomo_cron_parse_field`, over what stands between commas. -/
def parseMembers (minimum maximum : ℕ) : List (List UInt8) → UInt64 → Except String UInt64
  | [], mask => .ok mask
  | text :: rest, mask =>
    if text.length = 0 then .error "syntax"
    else do
      let mask ← parseMember text minimum maximum mask
      parseMembers minimum maximum rest mask

/-- The null pointer that `failure` starts as. -/
def nullFailure : String := "(null)"

/-- `nomo_cron_parse_field`. -/
def parseField (text : List UInt8) (minimum maximum : ℕ) : Except String UInt64 := do
  let mask ← parseMembers minimum maximum (text.splitOn 44) 0
  require (mask ≠ 0) nullFailure
  return mask

/-- The loop over the fields, with the number of the field and the masks so far, last first. -/
def parseFields : ℕ → List (ℕ × ℕ) → List (List UInt8) → List UInt64 →
    Except CronError (List UInt64)
  | _, [], [], masks => .ok masks.reverse
  | _, _, [], _ => .error (cronError "syntax" 5)
  | _, [], _ :: _, _ => .error (cronError "syntax" 5)
  | field, (minimum, maximum) :: bounds, text :: rest, masks =>
    match parseField text minimum maximum with
    | .ok mask => parseFields (field + 1) bounds rest (mask :: masks)
    | .error failure => .error (cronError failure field)

/-- The five masks. -/
def schedule : List UInt64 → Schedule
  | [minute, hour, dayOfMonth, month, dayOfWeek] => ⟨minute, hour, dayOfMonth, month, dayOfWeek⟩
  | _ => ⟨0, 0, 0, 0, 0⟩

/-- `nomo_cron_parse_expression`, of what stands before the first zero byte. -/
def parseExpression (text : List UInt8) : Except CronError Schedule :=
  let expression := text.takeWhile (· != 0)
  if expression.length > maxExpressionBytes then .error (cronError "limit" 5)
  else if expression.any (· > 127) then .error (cronError "syntax" 5)
  else
    let tokens := words asciiSpace expression
    if tokens.length ≠ 5 then .error (cronError "syntax" 5)
    else (parseFields 0 fieldBounds tokens []).map schedule

/-- `nomo_cron_minute_matches`. -/
def minuteMatches (parsed : Schedule) (minuteIndex : Int64) : Bool :=
  let civil := civilMinute minuteIndex
  if !contains parsed.minute civil.minute || !contains parsed.hour civil.hour ||
      !contains parsed.month civil.month then false
  else
    let dayOfMonthMatches := contains parsed.dayOfMonth civil.day
    let dayOfWeekMatches := contains parsed.dayOfWeek civil.dayOfWeek
    let dayOfMonthUnrestricted := parsed.dayOfMonth = fullMask 1 31
    let dayOfWeekUnrestricted := parsed.dayOfWeek = fullMask 0 6
    if dayOfMonthUnrestricted ∧ dayOfWeekUnrestricted then true
    else if dayOfMonthUnrestricted then dayOfWeekMatches
    else if dayOfWeekUnrestricted then dayOfMonthMatches
    else dayOfMonthMatches || dayOfWeekMatches

/-- `nomo_cron_parse`. -/
def parse (expression : List UInt8) : Except CronError Unit :=
  match parseExpression expression with
  | .ok _ => .ok ()
  | .error error => .error error

/-- `nomo_cron_matches`. -/
def «matches» (expression : List UInt8) (unixMillis : Int64) : Except CronError Bool :=
  if !timestampValid unixMillis then .error (cronError "timestamp_range" 5)
  else
    match parseExpression expression with
    | .error error => .error error
    | .ok parsed => .ok (minuteMatches parsed (unixMillis / 60000))

/-- The loop of `nomo_cron_next_after`: the rounds that are left, and the candidate. -/
def nextLoop (parsed : Schedule) : ℕ → Int64 → Except CronError Int64
  | 0, _ => .error (cronError "no_match" 5)
  | remaining + 1, candidate =>
    if candidate ≤ maxTimestampMillis / 60000 then
      if minuteMatches parsed candidate then .ok (candidate * 60000)
      else nextLoop parsed remaining (candidate + 1)
    else .error (cronError "no_match" 5)

/-- `nomo_cron_next_after`. -/
def nextAfter (expression : List UInt8) (unixMillis : Int64) : Except CronError Int64 :=
  if !timestampValid unixMillis then .error (cronError "timestamp_range" 5)
  else
    match parseExpression expression with
    | .error error => .error error
    | .ok parsed => nextLoop parsed searchMinutes (unixMillis / 60000 + 1)

end Nomo.Cron.Native
