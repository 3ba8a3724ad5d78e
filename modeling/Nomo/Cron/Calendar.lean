import Nomo.Lib.Words

/-!
# Cron schedules and the calendar

What the C runtime (`nomo_codegen_c/src/runtime/host_cron.c`) and the WASM runtime
(`nomo_wasm/src/cron.rs`) write down in the same way: the limits, the errors, the masks of a schedule
and the civil calendar. `uint64_t` and `u64` are `UInt64`, `int64_t` and `i64` are `Int64`.
-/

namespace Nomo.Cron

/-! ## Limits and errors -/

/-- `NOMO_CRON_MAX_EXPRESSION_BYTES`, `MAX_EXPRESSION_BYTES`. -/
def maxExpressionBytes : ℕ := 256

/-- `NOMO_CRON_SEARCH_MINUTES`, `SEARCH_MINUTES`. -/
def searchMinutes : ℕ := 4208400

/-- `NOMO_CRON_MAX_TIMESTAMP_MILLIS`, `MAX_TIMESTAMP_MILLIS`. -/
def maxTimestampMillis : Int64 := 253402300799999

/-- `CronError`. -/
structure CronError where
  code : String
  message : String
  field : ℕ
deriving DecidableEq

/-- `nomo_cron_error_message`; in WASM the table of `CronError::new`. -/
def errorMessage (code : String) : String :=
  if code = "range" then "cron field value is outside its range"
  else if code = "limit" then "cron limit exceeded"
  else if code = "timestamp_range" then "cron timestamp is outside the supported range"
  else if code = "no_match" then "cron schedule has no later matching minute"
  else "invalid cron expression syntax"

/-- `nomo_cron_error`, `CronError::new`. -/
def cronError (code : String) (field : ℕ) : CronError where
  code
  message := errorMessage code
  field

/-! ## Schedules -/

/-- `nomo_cron_parsed`, `ParsedSchedule`: for every field the mask of its values. -/
structure Schedule where
  minute : UInt64
  hour : UInt64
  dayOfMonth : UInt64
  month : UInt64
  dayOfWeek : UInt64
deriving DecidableEq

/-- `UINT64_C(1) << value`, `1_u64 << value`. -/
def bit (value : UInt64) : UInt64 := 1 <<< value

/-- `nomo_cron_full_mask`, `full_mask`. -/
def fullMask (minimum maximum : ℕ) : UInt64 :=
  (List.range' minimum (maximum + 1 - minimum)).foldl
    (fun mask value => mask ||| bit (UInt64.ofNat value)) 0

/-- `nomo_cron_mask_contains`, `contains`. -/
def contains (mask value : UInt64) : Bool := mask &&& bit value != 0

/-! ## The calendar -/

/-- `nomo_cron_civil_from_days`, `civil_from_days`: year, month and day. -/
def civilFromDays (days : Int64) : Int64 × UInt64 × UInt64 :=
  let adjusted := days + 719468
  let era := adjusted / 146097
  let dayOfEra := (adjusted - era * 146097).toUInt64
  let yearOfEra := (dayOfEra - dayOfEra / 1460 + dayOfEra / 36524 - dayOfEra / 146096) / 365
  let year := yearOfEra.toInt64 + era * 400
  let dayOfYear := dayOfEra - (365 * yearOfEra + yearOfEra / 4 - yearOfEra / 100)
  let monthPrime := (5 * dayOfYear + 2) / 153
  let day := dayOfYear - (153 * monthPrime + 2) / 5 + 1
  let month := if monthPrime < 10 then monthPrime + 3 else monthPrime - 9
  (year + (if month ≤ 2 then 1 else 0), month, day)

/-- A minute, taken apart. -/
structure CivilMinute where
  minute : UInt64
  hour : UInt64
  day : UInt64
  month : UInt64
  dayOfWeek : UInt64

/-- The head of `nomo_cron_minute_matches` and of `minute_matches`. -/
def civilMinute (minuteIndex : Int64) : CivilMinute :=
  let days := minuteIndex / 1440
  let (_, month, day) := civilFromDays days
  { minute := (minuteIndex % 60).toUInt64
    hour := (minuteIndex / 60 % 24).toUInt64
    day
    month
    dayOfWeek := ((days + 4) % 7).toUInt64 }

/-- The timestamp is outside the supported range: `nomo_cron_timestamp_valid`, `validate_timestamp`. -/
def timestampValid (unixMillis : Int64) : Bool := 0 ≤ unixMillis && unixMillis ≤ maxTimestampMillis

/-- `'0'..='9'`. -/
def isDigit (byte : UInt8) : Bool := 48 ≤ byte && byte ≤ 57

/-- The value of a digit. -/
def digitValue (byte : UInt8) : ℕ := byte.toNat - 48

/-- The bounds of the five fields: minutes, hours, days of the month, months, days of the week. -/
def fieldBounds : List (ℕ × ℕ) := [(0, 59), (0, 23), (1, 31), (1, 12), (0, 6)]

end Nomo.Cron
