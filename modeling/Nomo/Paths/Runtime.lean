import Nomo.Lib.Block
import Nomo.Paths.Location

/-!
# The path functions of the runtime

`nomo_runtime/src/path.rs:5–49, 62–124`, and the string helpers they use
(`nomo_runtime/src/lib.rs:297–315`).  The memory of a string is a block of bytes with a zero behind its
text.  `none` is an access outside a block, or a read of a cell that nothing has been written to.
`size_t` is `Nat`, and `malloc` succeeds: where it does not, the program ends with `out of memory`.
-/

namespace Nomo.Paths

open Nomo.Lib Nomo.Lib.Block

/-! ## Strings -/

/-- `strlen`. -/
def strlen : Block UInt8 → Option Nat
  | [] => none
  | none :: _ => none
  | some c :: rest => if c = 0 then some 0 else (strlen rest).map (· + 1)

/-- `nomo_string_literal`. -/
def stringLiteral (text : List UInt8) : Block UInt8 := (text ++ [0]).map some

/-- `nomo_string_from_cstr` (`lib.rs:297–303`). -/
def stringFromCstr (value : Block UInt8) : Option (Block UInt8) := do
  let len ← strlen value
  let bytes ← read value 0 (len + 1)
  write (malloc (len + 1)) 0 bytes

/-- `nomo_string_from_slice` (`lib.rs:307–315`), which is `nomo_path_string_from_slice` (`path.rs:2–4`). -/
def stringFromSlice (data : Block UInt8) (start len : Nat) : Option (Block UInt8) := do
  let bytes ← read data start len
  let out ← write (malloc (len + 1)) 0 bytes
  store out len 0

/-! ## Parts of a path -/

/-- The loop that drops slashes at the end but keeps the first byte (`path.rs:7, 46`). -/
def dropSlashes (data : Block UInt8) : Nat → Option Nat
  | 0 => some 0
  | 1 => some 1
  | len + 2 => do
    let c ← load data (len + 1)
    if c = slash then dropSlashes data (len + 1) else some (len + 2)

/-- The loop that goes back behind the last slash (`path.rs:35, 44`). -/
def backToSlash (data : Block UInt8) : Nat → Option Nat
  | 0 => some 0
  | start + 1 => do
    let c ← load data start
    if c ≠ slash then backToSlash data start else some (start + 1)

/-- `nomo_path_trim_trailing_slashes` (`path.rs:5–9`). -/
def pathTrimTrailingSlashes (data : Block UInt8) : Option Nat := do
  let len ← strlen data
  dropSlashes data len

/-- `len == 1 && data[0] == '/'` (`path.rs:32, 42`). -/
def isRoot (data : Block UInt8) (len : Nat) : Option Bool :=
  if len = 1 then (load data 0).map (· == slash) else some false

/-- `nomo_path_join` (`path.rs:10–27`). -/
def pathJoin (left right : Block UInt8) : Option (Block UInt8) := do
  if (← load right 0) = slash then return ← stringFromCstr right
  if (← load left 0) = 0 then return ← stringFromCstr right
  if (← load right 0) = 0 then return ← stringFromCstr left
  let leftLen ← strlen left
  let rightLen ← strlen right
  let needsSep := (← load left (leftLen - 1)) != slash
  let out := malloc (leftLen + needsSep.toNat + rightLen + 1)
  let out ← write out 0 (← read left 0 leftLen)
  let out ← (if needsSep then store out leftLen slash else some out)
  write out (leftLen + needsSep.toNat) (← read right 0 (rightLen + 1))

/-- `nomo_path_basename` (`path.rs:28–37`). -/
def pathBasename (path : Block UInt8) : Option (Block UInt8) := do
  let len ← pathTrimTrailingSlashes path
  if len = 0 then return stringLiteral []
  if ← isRoot path len then return stringLiteral [slash]
  let start ← backToSlash path len
  stringFromSlice path start (len - start)

/-- `nomo_path_dirname` (`path.rs:38–48`). -/
def pathDirname (path : Block UInt8) : Option (Block UInt8) := do
  let len ← pathTrimTrailingSlashes path
  if len = 0 then return stringLiteral [dot]
  if ← isRoot path len then return stringLiteral [slash]
  let behindSlash ← backToSlash path len
  if behindSlash = 0 then return stringLiteral [dot]
  let behindSlash ← dropSlashes path behindSlash
  stringFromSlice path 0 behindSlash

/-! ## The normaliser -/

/-- The locals of `nomo_path_normalize`: its buffer, and where its segments start and how long they
are. -/
structure Normalizer where
  out : Block UInt8
  outLen : Nat
  starts : Block Nat
  lens : Block Nat
  count : Nat

/-- `segment_len == 1 && data[start] == '.'`. -/
def isDot (data : Block UInt8) (start segmentLen : Nat) : Option Bool :=
  if segmentLen = 1 then (load data start).map (· == dot) else some false

/-- `segment_len == 2 && data[start] == '.' && data[start + 1] == '.'`. -/
def isDotDot (data : Block UInt8) (start segmentLen : Nat) : Option Bool := do
  if segmentLen ≠ 2 then return false
  if (← load data start) ≠ dot then return false
  return (← load data (start + 1)) == dot

/-- `nomo_path_prev_segment_is_dotdot` (`path.rs:62–69`). -/
def prevSegmentIsDotdot (s : Normalizer) : Option Bool := do
  if s.count = 0 then return false
  let start ← load s.starts (s.count - 1)
  let start := if (← load s.out start) = slash then start + 1 else start
  isDotDot s.out start (← load s.lens (s.count - 1))

/-- `nomo_path_append_segment` (`path.rs:70–79`). -/
def appendSegment (s : Normalizer) (data : Block UInt8) (start segmentLen : Nat) : Option Normalizer := do
  let restore := s.outLen
  let needsSep ← (if 0 < s.outLen then (load s.out (s.outLen - 1)).map (· != slash) else some false)
  let out ← (if needsSep then store s.out s.outLen slash else some s.out)
  let outLen := s.outLen + needsSep.toNat
  let starts ← store s.starts s.count restore
  let lens ← store s.lens s.count segmentLen
  let out ← write out outLen (← read data start segmentLen)
  return { out, outLen := outLen + segmentLen, starts, lens, count := s.count + 1 }

/-- One segment of the path (`path.rs:103–118`). -/
def normalizeSegment (data : Block UInt8) (absolute : Bool) (s : Normalizer) (start segmentLen : Nat) :
    Option Normalizer := do
  if segmentLen = 0 then return s
  if ← isDot data start segmentLen then return s
  if ← isDotDot data start segmentLen then
    if 0 < s.count ∧ !(← prevSegmentIsDotdot s) then
      let outLen ← load s.starts (s.count - 1)
      if absolute && outLen == 0 then
        let out ← store s.out outLen slash
        return { s with out, outLen := outLen + 1, count := s.count - 1 }
      else
        return { s with outLen, count := s.count - 1 }
    else if !absolute then
      appendSegment s data start segmentLen
    else
      return s
  else
    appendSegment s data start segmentLen

/-- A loop over the bytes for which a test holds (`path.rs:98, 100`). -/
def scanWhile (p : UInt8 → Bool) (data : Block UInt8) (len index : Nat) : Option Nat :=
  if index < len then do
    let c ← load data index
    if p c then scanWhile p data len (index + 1) else some index
  else some index
termination_by len - index

/-- The loop over the segments (`path.rs:97–119`); the first argument bounds its rounds. -/
def normalizeLoop (data : Block UInt8) (absolute : Bool) (len : Nat) :
    Nat → Normalizer → Nat → Option Normalizer
  | 0, _, _ => none
  | rounds + 1, s, index =>
    if index < len then do
      let start ← scanWhile (· == slash) data len index
      let index ← scanWhile (· != slash) data len start
      let s ← normalizeSegment data absolute s start (index - start)
      normalizeLoop data absolute len rounds s index
    else some s

/-- The `/` that an absolute path starts with (`path.rs:95`). -/
def normalizeStart (absolute : Bool) (len : Nat) : Option Normalizer := do
  let out := malloc (len + 2)
  let starts := malloc (len + 1)
  let lens := malloc (len + 1)
  if absolute then
    let out ← store out 0 slash
    return { out, outLen := 1, starts, lens, count := 0 }
  else
    return { out, outLen := 0, starts, lens, count := 0 }

/-- `nomo_path_normalize` (`path.rs:80–124`); every round of the loop gets past a byte. -/
def pathNormalize (path : Block UInt8) : Option (Block UInt8) := do
  let len ← strlen path
  if len = 0 then return stringLiteral [dot]
  let absolute := (← load path 0) == slash
  let s ← normalizeLoop path absolute len (len + 1) (← normalizeStart absolute len) 0
  let out ← (if s.outLen = 0 then store s.out 0 dot else some s.out)
  let outLen := if s.outLen = 0 then 1 else s.outLen
  store out outLen 0

end Nomo.Paths
