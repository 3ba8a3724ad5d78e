import Nomo.Lib.CString
import Nomo.Lib.Strtol
import Nomo.Streams.Http

/-!
# Accepting a request

`http.accept` (host_http_server_helpers.rs:196–263): a connection is read until the request is there, and
the request is taken apart with the string functions of C.

What a request says is stated beside it (`request`): the parts of its first line, its fields, and as many
bytes of body as the field `Content-Length` gives.
-/

namespace Nomo.Streams

open Nomo.Lib

/-! ## Reading -/

/-- `"\r\n\r\n"`. -/
def blankLine : List UInt8 := [carriageReturn, lineFeed, carriageReturn, lineFeed]

/-- `"Content-Length: "`. -/
def contentLengthName : List UInt8 := ascii "Content-Length: "

/-- The size of the buffer that `recv` gets. -/
def receiveBytes : ℕ := 1024

/-- `unsigned long long`. -/
def unsignedLongLong : IntFormat where
  signed := false
  bits := 64
  bits_pos := IntFormat.bits64_pos

/-- What has been read: `request` up to `len`, and `expected_len`. -/
structure Reading where
  request : List UInt8
  expected : ℕ
deriving DecidableEq, Repr

/-- How a connection ends: the client has closed it, or `recv` fails. -/
inductive Ending
  | closed
  | failed (message : String)
deriving DecidableEq, Repr

/-- The length of a request by its beginning: up to the blank line, and what the first number after
`Content-Length: ` says. The sum wraps around. -/
def expectedLength (request : List UInt8) (headersEnd : ℕ) : ℕ :=
  match strstr contentLengthName (cstring request) with
  | some index =>
    if index < headersEnd then
      let value := cstring (request.drop (index + 16))
      (headersEnd + 4 + (strto unsignedLongLong value).value.toNat) % 2 ^ 64
    else headersEnd + 4
  | none => headersEnd + 4

/-- A round of the loop after `recv` has returned bytes: whether it stops. -/
def received (reading : Reading) (piece : List UInt8) : Bool × Reading :=
  let request := reading.request ++ piece
  match strstr blankLine (cstring request) with
  | none => (false, { reading with request := request })
  | some headersEnd =>
    let expected :=
      if reading.expected = 0 then expectedLength request headersEnd else reading.expected
    (expected ≤ request.length, { request := request, expected := expected })

/-- The loop. -/
def receive (ending : Ending) : Reading → List (List UInt8) → Except String (List UInt8)
  | reading, [] =>
    match ending with
    | .closed => .ok reading.request
    | .failed message => .error message
  | reading, piece :: pieces =>
    if piece = [] then .ok reading.request
    else match received reading piece with
      | (true, reading) => .ok reading.request
      | (false, reading) => receive ending reading pieces

/-! ## Taking apart -/

/-- What is copied of a request: strings, which end at their first zero byte. -/
structure RequestParts where
  method : List UInt8
  path : List UInt8
  body : List UInt8
deriving DecidableEq, Repr

/-- The part of `http.accept` after the loop. -/
def parseRequest (buffer : List UInt8) : Except String RequestParts :=
  let text := cstring buffer
  match strchr text space with
  | none => .error "invalid HTTP request line"
  | some methodEnd =>
    match strchr (text.drop (methodEnd + 1)) space with
    | none => .error "invalid HTTP request path"
    | some pathLength =>
      match strstr blankLine text with
      | none => .error "invalid HTTP request headers"
      | some headersEnd =>
        .ok
          { method := text.take methodEnd
            path := (text.drop (methodEnd + 1)).take pathLength
            body := cstring (buffer.drop (headersEnd + 4)) }

/-- `HttpServer`; the handle is invalid once the server is closed. -/
structure HttpServer where
  handle : Option ℕ
deriving DecidableEq, Repr

/-- `HttpExchange`. -/
structure HttpExchange where
  handle : ℕ
  request : RequestParts
deriving DecidableEq, Repr

/-- What `accept` returns: an error, or a client and how its bytes come. -/
inductive Connection
  | refused (message : String)
  | accepted (client : ℕ) (pieces : List (List UInt8)) (ending : Ending)
deriving Repr

/-- `nomo_http_server_accept_error`. -/
def acceptError (message : String) : HttpError where
  code := "transport"
  message := message

/-- `http.accept`. -/
def accept (server : HttpServer) (connection : Connection) : Except HttpError HttpExchange :=
  if server.handle = none then .error (acceptError "server is closed")
  else match connection with
    | .refused message => .error (acceptError message)
    | .accepted client pieces ending =>
      match receive ending { request := [], expected := 0 } pieces with
      | .error message => .error (acceptError message)
      | .ok buffer =>
        match parseRequest buffer with
        | .error message => .error (acceptError message)
        | .ok request => .ok { handle := client, request := request }

/-! ## What a request says -/

/-- A text before and after a byte. -/
def cutAt (byte : UInt8) (text : List UInt8) : Option (List UInt8 × List UInt8) :=
  match text.dropWhile (· ≠ byte) with
  | [] => none
  | _ :: rest => some (text.takeWhile (· ≠ byte), rest)

/-- The lines of a text, each but the last ending in a carriage return and a line feed. -/
def linesFrom : List UInt8 → List UInt8 → List (List UInt8)
  | line, [] => [line]
  | line, [byte] => [line ++ [byte]]
  | line, byte :: next :: rest =>
    if byte = carriageReturn ∧ next = lineFeed then line :: linesFrom [] rest
    else linesFrom (line ++ [byte]) (next :: rest)

/-- The method and the path of a request line: the parts before its first two spaces. -/
def requestLineParts (line : List UInt8) : Option (List UInt8 × List UInt8) := do
  let (method, rest) ← cutAt space line
  let (path, _) ← cutAt space rest
  some (method, path)

/-- The name and the value of a field. -/
def fieldOf (line : List UInt8) : Option (List UInt8 × List UInt8) := do
  let (name, value) ← cutAt colon line
  if name = [] then none else some (name, value)

/-- A text in lower case. -/
def lower (text : List UInt8) : List UInt8 :=
  text.map fun byte => if 65 ≤ byte ∧ byte ≤ 90 then byte + 32 else byte

/-- A value without the spaces and tabs around it. -/
def trimmed (value : List UInt8) : List UInt8 :=
  let isBlank : UInt8 → Bool := fun byte => byte = 32 || byte = 9
  ((value.dropWhile isBlank).reverse.dropWhile isBlank).reverse

/-- A number in decimal digits. -/
def decimalNumber (digits : List UInt8) : Option ℕ :=
  if digits ≠ [] ∧ digits.all isDecimalDigit then some (decimalValue digits) else none

/-- The length that the field `Content-Length` gives: none without the field, and none that is well
formed if it is no number or stands there twice. -/
def contentLength (fields : List (List UInt8 × List UInt8)) : Option ℕ :=
  match fields.filter fun field => lower field.1 = ascii "content-length" with
  | [] => some 0
  | [field] => decimalNumber (trimmed field.2)
  | _ => none

/-- The request line and the fields of a head: method, path and length of the body, if they are well
formed. -/
def headOf (head : List UInt8) : Option (List UInt8 × List UInt8 × ℕ) :=
  match linesFrom [] head with
  | [] => none
  | requestLine :: fieldLines => do
    let (method, path) ← requestLineParts requestLine
    let fields ← fieldLines.mapM fieldOf
    let length ← contentLength fields
    some (method, path, length)

/-- The first line of a head. -/
def requestLine (head : List UInt8) : List UInt8 := (linesFrom [] head).headD []

/-- What a stream of bytes says: the parts of its request, if it has a head without zero bytes that is
well formed, and all of its body. -/
def request (stream : List UInt8) : Option RequestParts :=
  match strstr blankLine (cstring stream) with
  | none => none
  | some headersEnd =>
    match headOf (stream.take headersEnd) with
    | none => none
    | some (method, path, length) =>
      let rest := stream.drop (headersEnd + 4)
      if length ≤ rest.length then some { method, path, body := rest.take length } else none

/-- The ways in which `recv` can cut a stream. -/
structure Cuts (stream : List UInt8) (pieces : List (List UInt8)) : Prop where
  flatten : pieces.flatten = stream
  sizes : ∀ piece ∈ pieces, piece ≠ [] ∧ piece.length ≤ receiveBytes

/-- A result is what a stream says: its request, or an error if it has none. -/
def IsReading (client : ℕ) (stream : List UInt8) (result : Except HttpError HttpExchange) : Prop :=
  match request stream with
  | some request => result = .ok { handle := client, request := request }
  | none => ∃ error, result = .error error

/-- A stream is read exactly, and in the same way however it is cut. -/
structure ReadsExactly (handle client : ℕ) (stream : List UInt8) : Prop where
  same : ∀ pieces pieces', Cuts stream pieces → Cuts stream pieces' →
    accept { handle := some handle } (.accepted client pieces .closed) =
      accept { handle := some handle } (.accepted client pieces' .closed)
  exact' : ∀ pieces, Cuts stream pieces →
    IsReading client stream (accept { handle := some handle } (.accepted client pieces .closed))

/-! ## Spaces -/

variable {text more : List UInt8} {byte : UInt8}

theorem cutAt_cons_self (text : List UInt8) : cutAt byte (byte :: text) = some ([], text) := by
  simp [cutAt]

theorem cutAt_cons_of_ne {first : UInt8} (h : first ≠ byte) (text : List UInt8) :
    cutAt byte (first :: text) = (cutAt byte text).map fun parts => (first :: parts.1, parts.2) := by
  unfold cutAt
  rw [List.dropWhile_cons_of_pos (by simpa using h), List.takeWhile_cons_of_pos (by simpa using h)]
  split <;> rfl

theorem cutAt_append {parts : List UInt8 × List UInt8} (h : cutAt byte text = some parts) :
    cutAt byte (text ++ more) = some (parts.1, parts.2 ++ more) := by
  induction text generalizing parts with
  | nil => cases h
  | cons first text ih =>
    by_cases hfirst : first = byte
    · subst hfirst
      rw [cutAt_cons_self] at h
      cases h
      rw [List.cons_append, cutAt_cons_self]
    · rw [cutAt_cons_of_ne hfirst] at h
      obtain ⟨parts', hparts, rfl⟩ := Option.map_eq_some_iff.mp h
      rw [List.cons_append, cutAt_cons_of_ne hfirst, ih hparts]
      rfl

theorem cutAt_eq_none_iff : cutAt byte text = none ↔ text.count byte = 0 := by
  induction text with
  | nil => simp [cutAt]
  | cons first text ih =>
    by_cases hfirst : first = byte
    · subst hfirst
      simp [cutAt_cons_self]
    · rw [cutAt_cons_of_ne hfirst, Option.map_eq_none_iff, ih, List.count_cons_of_ne hfirst]

theorem count_of_cutAt {parts : List UInt8 × List UInt8} (h : cutAt byte text = some parts) :
    text.count byte = parts.2.count byte + 1 := by
  induction text generalizing parts with
  | nil => cases h
  | cons first text ih =>
    by_cases hfirst : first = byte
    · subst hfirst
      rw [cutAt_cons_self] at h
      cases h
      exact List.count_cons_self
    · rw [cutAt_cons_of_ne hfirst] at h
      obtain ⟨parts', hparts, rfl⟩ := Option.map_eq_some_iff.mp h
      rw [List.count_cons_of_ne hfirst, ih hparts]

theorem strchr_eq_cutAt :
    (strchr text byte).map (fun index => (text.take index, text.drop (index + 1))) = cutAt byte text := by
  induction text with
  | nil => rfl
  | cons first text ih =>
    unfold strchr at ih ⊢
    rw [List.findIdx?_cons]
    by_cases hfirst : first = byte
    · subst hfirst
      simp [cutAt_cons_self]
    · rw [cutAt_cons_of_ne hfirst, ← ih]
      simp [hfirst, Option.map_map, Function.comp_def]

/-- The request is taken apart at the first two spaces of what can be seen of it. -/
theorem parseRequest_eq (buffer : List UInt8) :
    parseRequest buffer =
      match cutAt space (cstring buffer) with
      | none => .error "invalid HTTP request line"
      | some (method, rest) =>
        match cutAt space rest with
        | none => .error "invalid HTTP request path"
        | some (path, _) =>
          match strstr blankLine (cstring buffer) with
          | none => .error "invalid HTTP request headers"
          | some headersEnd =>
            .ok { method := method, path := path, body := cstring (buffer.drop (headersEnd + 4)) } := by
  simp only [parseRequest, ← strchr_eq_cutAt]
  cases strchr (cstring buffer) space with
  | none => rfl
  | some methodEnd =>
    simp only [Option.map_some]
    cases strchr ((cstring buffer).drop (methodEnd + 1)) space with
    | none | some pathLength => rfl

/-! ## The request line -/

theorem linesFrom_head (line text : List UInt8) :
    ∃ rest, (linesFrom line text).headD [] ++ rest = line ++ text := by
  induction line, text using linesFrom.induct with
  | case1 line => exact ⟨[], rfl⟩
  | case2 line byte => exact ⟨[], by simp [linesFrom]⟩
  | case3 line byte next rest hend =>
    rw [linesFrom, if_pos hend]
    exact ⟨byte :: next :: rest, rfl⟩
  | case4 line byte next rest hend ih =>
    obtain ⟨rest', hrest⟩ := ih
    rw [linesFrom, if_neg hend]
    exact ⟨rest', by rw [hrest, List.append_assoc, List.singleton_append]⟩

theorem requestLine_isPrefix (head : List UInt8) : requestLine head <+: head := by
  obtain ⟨rest, hrest⟩ := linesFrom_head [] head
  exact ⟨rest, hrest⟩

theorem requestLineParts_of_prefix {line : List UInt8} {method path : List UInt8}
    (h : requestLineParts line = some (method, path)) (hbegins : line <+: text) :
    ∃ rest rest', cutAt space text = some (method, rest) ∧ cutAt space rest = some (path, rest') := by
  obtain ⟨tail, rfl⟩ := hbegins
  unfold requestLineParts at h
  obtain ⟨⟨method', rest⟩, hmethod, h⟩ := Option.bind_eq_some_iff.mp h
  obtain ⟨⟨path', rest'⟩, hpath, h⟩ := Option.bind_eq_some_iff.mp h
  cases h
  exact ⟨_, _, cutAt_append hmethod, cutAt_append hpath⟩

theorem headOf_request {head method path : List UInt8} {length : ℕ}
    (h : headOf head = some (method, path, length)) :
    requestLineParts (requestLine head) = some (method, path) := by
  unfold headOf at h
  unfold requestLine
  cases hlines : linesFrom [] head with
  | nil =>
    rw [hlines] at h
    cases h
  | cons line fieldLines =>
    rw [hlines] at h
    obtain ⟨⟨method', path'⟩, hparts, h⟩ := Option.bind_eq_some_iff.mp h
    obtain ⟨fields, -, h⟩ := Option.bind_eq_some_iff.mp h
    obtain ⟨length', -, h⟩ := Option.bind_eq_some_iff.mp h
    cases h
    exact hparts

end Nomo.Streams
