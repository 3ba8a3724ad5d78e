import Nomo.Cron.Calendar
import Nomo.Lib.Checked

/-!
# Cron in the WASM runtime

`nomo_wasm/src/cron.rs`. A `&str` is the list of its bytes: every function of the parser is only
reached by ASCII text.
-/

namespace Nomo.Cron.Wasm

open Nomo.Lib Nomo.Lib.Checked

/-- `u8::is_ascii_whitespace`. -/
def isAsciiWhitespace (byte : UInt8) : Bool := byte ∈ [32, 9, 10, 12, 13]

/-- The number that digits stand for. -/
def value (digits : List UInt8) : ℕ := digits.foldl (fun n byte => n * 10 + digitValue byte) 0

/-- `parse_unsigned`. -/
def parseUnsigned (text : List UInt8) : Except String ℕ := do
  require (text ≠ [] ∧ text.all isDigit = true) "syntax"
  require (value text < 2 ^ 64) "range"
  return value text

/-- `split_range`. -/
def splitRange (text : List UInt8) : Except String (Option (List UInt8 × List UInt8)) :=
  match text.splitOn 45 with
  | [] => .ok none
  | [_] => .ok none
  | left :: right :: rest => do
    require (rest = [] ∧ left ≠ [] ∧ right ≠ []) "syntax"
    return some (left, right)

/-- The loop that sets the bits from a start to an end. -/
def setBits (step stop : ℕ) : ℕ → ℕ → UInt64 → UInt64
  | 0, _, mask => mask
  | fuel + 1, value, mask =>
    let mask := mask ||| bit (UInt64.ofNat value)
    if stop - value < step then mask else setBits step stop fuel (value + step) mask

/-- The step, if there is one. -/
def parseStep (minimum maximum : ℕ) : Option (List UInt8) → Except String ℕ
  | none => .ok 1
  | some text => do
    let parsed ← parseUnsigned text
    require (parsed ≠ 0 ∧ parsed ≤ maximum - minimum + 1) "range"
    return parsed

/-- The first and the last value. -/
def parseBase (base : List UInt8) (stepText : Option (List UInt8)) (minimum maximum : ℕ) :
    Except String (ℕ × ℕ) :=
  if base = [42] then .ok (minimum, maximum)
  else do
    match ← splitRange base with
    | some (left, right) =>
      let start ← parseUnsigned left
      let stop ← parseUnsigned right
      return (start, stop)
    | none =>
      require (stepText = none) "syntax"
      let value ← parseUnsigned base
      return (value, value)

/-- The bits from a first to a last value, which must be within the bounds. -/
def setRange (step minimum maximum : ℕ) (mask : UInt64) (bounds : ℕ × ℕ) : Except String UInt64 := do
  let (start, stop) := bounds
  require (minimum ≤ start ∧ start ≤ maximum ∧ minimum ≤ stop ∧ stop ≤ maximum ∧ start ≤ stop) "range"
  return setBits step stop (stop + 1) start mask

/-- `parse_member`. -/
def parseMember (text : List UInt8) (minimum maximum : ℕ) (mask : UInt64) : Except String UInt64 := do
  let slashParts := text.splitOn 47
  let base := slashParts.headD []
  let stepText := slashParts[1]?
  require (slashParts[2]? = none) "syntax"
  let step ← parseStep minimum maximum stepText
  let bounds ← parseBase base stepText minimum maximum
  setRange step minimum maximum mask bounds

/-- The loop of `parse_field`. -/
def parseMembers (minimum maximum : ℕ) : List (List UInt8) → UInt64 → Except String UInt64
  | [], mask => .ok mask
  | member :: rest, mask => do
    require (member ≠ []) "syntax"
    let mask ← parseMember member minimum maximum mask
    parseMembers minimum maximum rest mask

/-- `parse_field`, with the code of its error. -/
def parseField (text : List UInt8) (minimum maximum : ℕ) : Except String UInt64 := do
  let mask ← parseMembers minimum maximum (text.splitOn 44) 0
  require (mask ≠ 0) "syntax"
  return mask

/-- The field of a schedule: `parse_field`, with the number of the field in its error. -/
def fieldOf (fields : List (List UInt8)) (field minimum maximum : ℕ) : Except CronError UInt64 :=
  (parseField (fields.getD field []) minimum maximum).mapError (cronError · field)

/-- `parse_schedule`. -/
def parseSchedule (expression : List UInt8) : Except CronError Schedule :=
  if expression.length > maxExpressionBytes then .error (cronError "limit" 5)
  else if expression.any (· > 127) then .error (cronError "syntax" 5)
  else
    let fields := words isAsciiWhitespace expression
    if fields.length ≠ 5 then .error (cronError "syntax" 5)
    else do
      let minute ← fieldOf fields 0 0 59
      let hour ← fieldOf fields 1 0 23
      let dayOfMonth ← fieldOf fields 2 1 31
      let month ← fieldOf fields 3 1 12
      let dayOfWeek ← fieldOf fields 4 0 6
      return { minute, hour, dayOfMonth, month, dayOfWeek }

/-- `minute_matches`. -/
def minuteMatches (schedule : Schedule) (minuteIndex : Int64) : Bool :=
  let civil := civilMinute minuteIndex
  if !contains schedule.minute civil.minute || !contains schedule.hour civil.hour ||
      !contains schedule.month civil.month then false
  else
    let dayOfMonthMatches := contains schedule.dayOfMonth civil.day
    let dayOfWeekMatches := contains schedule.dayOfWeek civil.dayOfWeek
    let dayOfMonthUnrestricted := decide (schedule.dayOfMonth = fullMask 1 31)
    let dayOfWeekUnrestricted := decide (schedule.dayOfWeek = fullMask 0 6)
    match dayOfMonthUnrestricted, dayOfWeekUnrestricted with
    | true, true => true
    | true, false => dayOfWeekMatches
    | false, true => dayOfMonthMatches
    | false, false => dayOfMonthMatches || dayOfWeekMatches

/-- `parse`. -/
def parse (expression : List UInt8) : Except CronError Unit :=
  (parseSchedule expression).map fun _ => ()

/-- `validate_timestamp`. -/
def validateTimestamp (unixMillis : Int64) : Except CronError Unit :=
  if timestampValid unixMillis then .ok () else .error (cronError "timestamp_range" 5)

/-- `matches`. -/
def «matches» (expression : List UInt8) (unixMillis : Int64) : Except CronError Bool := do
  validateTimestamp unixMillis
  let parsed ← parseSchedule expression
  return minuteMatches parsed (unixMillis / 60000)

/-- The loop of `next_after`: the candidates that are left, and the next one. -/
def nextLoop (parsed : Schedule) : ℕ → Int64 → Except CronError Int64
  | 0, _ => .error (cronError "no_match" 5)
  | remaining + 1, candidate =>
    if candidate > maxTimestampMillis / 60000 then .error (cronError "no_match" 5)
    else if minuteMatches parsed candidate then .ok (candidate * 60000)
    else nextLoop parsed remaining (candidate + 1)

/-- `next_after`. -/
def nextAfter (expression : List UInt8) (unixMillis : Int64) : Except CronError Int64 := do
  validateTimestamp unixMillis
  let parsed ← parseSchedule expression
  nextLoop parsed searchMinutes (unixMillis / 60000 + 1)

end Nomo.Cron.Wasm
