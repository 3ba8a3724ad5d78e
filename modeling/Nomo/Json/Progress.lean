import Nomo.Json.Wasm

/-!
# The parser goes forward

Every function of the parser that is done leaves its cursor further on in the same text, at the
beginning of a character if it began at one (`Forward`). So no loop stands still.
-/

namespace Nomo.Json

open Nomo.Lib.Scanning

/-! ## UTF-8 -/

theorem encodeUtf8_of_ascii {scalar : ℕ} (h : scalar ≤ 0x7f) :
    encodeUtf8 scalar = [UInt8.ofNat scalar] := if_pos h

theorem exists_encodeUtf8 {scalar : ℕ} (hscalar : IsScalar scalar) (h : 0x7f < scalar) :
    ∃ first tail, encodeUtf8 scalar = first :: tail ∧ 0xc2 ≤ first.toNat := by
  obtain ⟨hmax, -⟩ := hscalar
  unfold encodeUtf8
  split_ifs with h1 h2 h3
  · omega
  all_goals
    refine ⟨_, _, rfl, ?_⟩
    rw [UInt8.toNat_ofNat_of_lt']
    · omega
    · simp only [UInt8.size]
      omega

theorem IsUtf8.of_ascii {byte : UInt8} {rest : List UInt8} (h : IsUtf8 (byte :: rest))
    (hbyte : byte < 0x80) : IsUtf8 rest := by
  obtain ⟨scalars, hscalars, htext⟩ := h
  cases scalars with
  | nil => cases htext
  | cons scalar scalars =>
    obtain ⟨hscalar, hrest⟩ := List.forall_mem_cons.mp hscalars
    rw [List.flatMap_cons] at htext
    by_cases hascii : scalar ≤ 0x7f
    · rw [encodeUtf8_of_ascii hascii] at htext
      exact ⟨scalars, hrest, (List.cons.inj htext).2⟩
    obtain ⟨first, tail, hencode, hfirst⟩ := exists_encodeUtf8 hscalar (by omega)
    rw [hencode] at htext
    obtain ⟨rfl, -⟩ := List.cons.inj htext
    have hlt : byte.toNat < 0x80 := UInt8.lt_iff_toNat_lt.mp hbyte
    omega

theorem IsUtf8.exists_char {byte : UInt8} {rest : List UInt8} (h : IsUtf8 (byte :: rest))
    (hbyte : ¬ byte < 0x80) : ∃ scalar more, IsScalar scalar ∧ 0x7f < scalar ∧
      byte :: rest = encodeUtf8 scalar ++ more ∧ IsUtf8 more := by
  obtain ⟨scalars, hscalars, htext⟩ := h
  cases scalars with
  | nil => cases htext
  | cons scalar scalars =>
    obtain ⟨hscalar, hrest⟩ := List.forall_mem_cons.mp hscalars
    rw [List.flatMap_cons] at htext
    refine ⟨scalar, _, hscalar, ?_, htext, scalars, hrest, rfl⟩
    by_contra hascii
    rw [encodeUtf8_of_ascii (by omega)] at htext
    obtain ⟨rfl, -⟩ := List.cons.inj htext
    refine hbyte (UInt8.lt_iff_toNat_lt.mpr ?_)
    rw [UInt8.toNat_ofNat_of_lt' (by simp only [UInt8.size]; omega)]
    show scalar < 0x80
    omega

theorem charWidth_eq {scalar : ℕ} (hscalar : IsScalar scalar) (h : 0x7f < scalar) {first : UInt8}
    {tail : List UInt8} (hencode : encodeUtf8 scalar = first :: tail) :
    Wasm.charWidth first = (encodeUtf8 scalar).length := by
  obtain ⟨hmax, -⟩ := hscalar
  unfold encodeUtf8 at hencode ⊢
  unfold Wasm.charWidth
  split_ifs at hencode with h1 h2 h3
  · omega
  all_goals
    obtain ⟨rfl, -⟩ := List.cons.inj hencode
    simp only [UInt8.lt_iff_toNat_lt]
    rw [UInt8.toNat_ofNat_of_lt' (by simp only [UInt8.size]; omega)]
  · rw [if_pos (by show _ < 0xe0; omega)]
    simp [h1, h2]
  · rw [if_neg (by show ¬ _ < 0xe0; omega), if_pos (by show _ < 0xf0; omega)]
    simp [h1, h2, h3]
  · rw [if_neg (by show ¬ _ < 0xe0; omega), if_neg (by show ¬ _ < 0xf0; omega)]
    simp [h1, h2, h3]

/-! ## Going forward -/

/-- A cursor further on in the same text. -/
structure Forward (before after : Cursor) : Prop where
  len : after.len = before.len
  suffix : after.rest <:+ before.rest
  utf8 : IsUtf8 before.rest → IsUtf8 after.rest

namespace Forward

variable {a b c : Cursor}

theorem refl (a : Cursor) : Forward a a := ⟨rfl, List.suffix_rfl, id⟩

theorem trans (h : Forward a b) (h' : Forward b c) : Forward a c :=
  ⟨h'.len.trans h.len, h'.suffix.trans h.suffix, fun hutf8 => h'.utf8 (h.utf8 hutf8)⟩

theorem length_le (h : Forward a b) : b.rest.length ≤ a.rest.length := h.suffix.length_le

theorem skip_one {byte : UInt8} (h : a.byte = some byte) (hbyte : byte < 0x80) :
    Forward a (a.skip 1) := by
  obtain ⟨index, rest⟩ := a
  cases rest with
  | nil => cases h
  | cons first rest =>
    cases h
    refine ⟨?_, List.suffix_cons .., fun hutf8 => hutf8.of_ascii hbyte⟩
    simp only [Cursor.len, Cursor.skip, List.drop_succ_cons, List.drop_zero, List.length_cons]
    omega

end Forward

theorem skip_one_lt {a : Cursor} {byte : UInt8} (h : a.byte = some byte) :
    (a.skip 1).rest.length < a.rest.length := by
  obtain ⟨index, rest⟩ := a
  cases rest with
  | nil => cases h
  | cons first rest => exact Nat.lt_succ_self _

theorem forward_skipWhile {kind : UInt8 → Bool} (hkind : ∀ byte, kind byte = true → byte < 0x80)
    (index : ℕ) (rest : List UInt8) : Forward { index, rest } (skipWhile kind index rest) := by
  induction rest generalizing index with
  | nil => exact .refl _
  | cons byte rest ih =>
    unfold skipWhile
    split_ifs with hbyte
    · exact (Forward.skip_one (a := { index, rest := byte :: rest }) rfl (hkind byte hbyte)).trans
        (ih (index + 1))
    · exact .refl _

theorem isSpace_ascii (byte : UInt8) (h : isSpace byte = true) : byte < 0x80 := by
  simp only [isSpace, Bool.or_eq_true, decide_eq_true_eq] at h
  rcases h with ((rfl | rfl) | rfl) | rfl <;> decide

theorem isDigit_ascii (byte : UInt8) (h : isDigit byte = true) : byte < 0x80 := by
  simp only [isDigit, Bool.and_eq_true, decide_eq_true_eq] at h
  have hle := UInt8.le_iff_toNat_le.mp h.2
  refine UInt8.lt_iff_toNat_lt.mpr ?_
  show byte.toNat < 128
  have h57 : (57 : UInt8).toNat = 57 := rfl
  omega

theorem forward_skipSpace (a : Cursor) : Forward a (skipSpace a) :=
  forward_skipWhile isSpace_ascii a.index a.rest

theorem forward_skipDigits (a : Cursor) : Forward a (skipDigits a) :=
  forward_skipWhile isDigit_ascii a.index a.rest

/-- Forward by at least one byte. -/
structure Passes (before after : Cursor) : Prop extends Forward before after where
  lt : after.rest.length < before.rest.length

theorem Passes.trans {a b c : Cursor} (h : Passes a b) (h' : Forward b c) : Passes a c :=
  ⟨h.toForward.trans h', lt_of_le_of_lt h'.length_le h.lt⟩

theorem Forward.trans_passes {a b c : Cursor} (h : Forward a b) (h' : Passes b c) : Passes a c :=
  ⟨h.trans h'.toForward, lt_of_lt_of_le h'.lt h.length_le⟩

theorem passes_skip_one {a : Cursor} {byte : UInt8} (h : a.byte = some byte) (hbyte : byte < 0x80) :
    Passes a (a.skip 1) := ⟨.skip_one h hbyte, skip_one_lt h⟩

namespace Wasm

variable {cursor after : Cursor}

theorem passes_consume {expected : UInt8} (hexpected : expected < 0x80)
    (h : consume expected cursor = (true, after)) : Passes cursor after := by
  unfold consume at h
  split_ifs at h with hbyte
  · cases h
    exact passes_skip_one hbyte hexpected
  · cases h

theorem eq_of_consume {expected : UInt8} (h : consume expected cursor = (false, after)) :
    after = cursor ∧ cursor.byte ≠ some expected := by
  unfold consume at h
  split_ifs at h with hbyte
  · cases h
  · cases h
    exact ⟨rfl, hbyte⟩

theorem passes_expect {expected : UInt8} (hexpected : expected < 0x80)
    (h : expect expected cursor = .ok after) : Passes cursor after := by
  unfold expect fail at h
  split_ifs at h with hbyte
  cases h
  exact passes_skip_one hbyte hexpected

theorem forward_skip_bytes {bytes : List UInt8} (hascii : ∀ byte ∈ bytes, byte < 0x80)
    (h : bytes <+: cursor.rest) : Forward cursor (cursor.skip bytes.length) := by
  obtain ⟨more, hmore⟩ := h
  obtain ⟨index, rest⟩ := cursor
  obtain rfl : bytes ++ more = rest := hmore
  refine ⟨?_, ?_, ?_⟩
  · simp only [Cursor.len, Cursor.skip, List.drop_left, List.length_append]
    omega
  · simp [Cursor.skip, List.suffix_append]
  simp only [Cursor.skip, List.drop_left]
  induction bytes with
  | nil => exact id
  | cons byte bytes ih =>
    obtain ⟨hbyte, hbytes⟩ := List.forall_mem_cons.mp hascii
    exact fun hutf8 => ih hbytes (IsUtf8.of_ascii hutf8 hbyte)

theorem passes_literal {expected : String}
    (hascii : ∀ byte ∈ asciiText expected, byte < 0x80) (hne : asciiText expected ≠ [])
    (h : literal expected cursor = .ok after) : Passes cursor after := by
  unfold literal fail at h
  split_ifs at h with hbegins
  cases h
  refine ⟨forward_skip_bytes hascii hbegins, ?_⟩
  have hlength := hbegins.length_le
  have hpos := List.length_pos_iff.mpr hne
  simp only [Cursor.skip, List.length_drop]
  omega

theorem passes_digits (h : digits cursor = .ok after) : Passes cursor after := by
  unfold digits fail at h
  split_ifs at h with hdigit
  cases h
  refine ⟨forward_skipDigits cursor, ?_⟩
  obtain ⟨index, rest⟩ := cursor
  cases rest with
  | nil => cases hdigit
  | cons byte rest =>
    have hbyte : isDigit byte = true := hdigit
    unfold skipDigits skipWhile
    rw [if_pos hbyte]
    exact Nat.lt_succ_of_le (forward_skipDigits ⟨index + 1, rest⟩).length_le

theorem forward_fraction (h : fraction cursor = .ok after) : Forward cursor after := by
  unfold fraction at h
  split at h
  case h_1 next hnext =>
    exact ((passes_consume (by decide) hnext).trans (passes_digits h).toForward).toForward
  case h_2 next hnext =>
    obtain ⟨rfl, -⟩ := eq_of_consume hnext
    cases h
    exact .refl _

theorem forward_exponent (h : exponent cursor = .ok after) : Forward cursor after := by
  unfold exponent at h
  dsimp only at h
  split_ifs at h with hletter hsign
  · have hfirst : Forward cursor (cursor.skip 1) := by
      rcases hletter with hletter | hletter <;> exact .skip_one hletter (by decide)
    have hsecond : Forward (cursor.skip 1) ((cursor.skip 1).skip 1) := by
      rcases hsign with hsign | hsign <;> exact .skip_one hsign (by decide)
    exact hfirst.trans (hsecond.trans (passes_digits h).toForward)
  · have hfirst : Forward cursor (cursor.skip 1) := by
      rcases hletter with hletter | hletter <;> exact .skip_one hletter (by decide)
    exact hfirst.trans (passes_digits h).toForward
  · cases h
    exact .refl _

theorem isDigit19_ascii {byte : UInt8} (h : isDigit19 byte = true) : byte < 0x80 := by
  refine isDigit_ascii byte ?_
  simp only [isDigit19, isDigit, Bool.and_eq_true, decide_eq_true_eq] at h ⊢
  exact ⟨UInt8.le_trans (by decide) h.1, h.2⟩

theorem passes_wholePart (h : wholePart cursor = .ok after) : Passes cursor after := by
  unfold wholePart fail at h
  split at h
  case h_1 byte hbyte =>
    split_ifs at h with hzero hdigit
    · cases h
      exact passes_skip_one hbyte (by rw [hzero]; decide)
    · cases h
      exact (passes_skip_one hbyte (isDigit19_ascii hdigit)).trans (forward_skipDigits _)
  case h_2 => cases h

theorem passes_number (h : number cursor = .ok after) : Passes cursor after := by
  unfold number at h
  obtain ⟨whole, hwhole, h⟩ := bind_eq_ok.mp h
  obtain ⟨fractional, hfraction, hexponent⟩ := bind_eq_ok.mp h
  have hsign : Forward cursor (consume minus cursor).2 := by
    unfold consume
    split_ifs with hbyte
    · exact .skip_one hbyte (by decide)
    · exact .refl _
  exact hsign.trans_passes ((passes_wholePart hwhole).trans ((forward_fraction hfraction).trans
    (forward_exponent hexponent)))

/-! ## Strings -/

theorem hexValue_ascii {byte : UInt8} {digit : ℕ} (h : hexValue byte = some digit) : byte < 0x80 := by
  have hle : byte.toNat ≤ 102 := by
    unfold hexValue at h
    split_ifs at h with h1 h2 h3
    · exact (UInt8.le_iff_toNat_le.mp h1.2).trans (by decide)
    · exact UInt8.le_iff_toNat_le.mp h2.2
    · exact (UInt8.le_iff_toNat_le.mp h3.2).trans (by decide)
  refine UInt8.lt_iff_toNat_lt.mpr ?_
  show byte.toNat < 128
  omega

theorem forward_hexDigits {n value result : ℕ} (h : hexDigits n value cursor = .ok (result, after)) :
    Forward cursor after := by
  induction n generalizing value cursor with
  | zero =>
    cases h
    exact .refl _
  | succ n ih =>
    rw [hexDigits] at h
    split at h
    case h_1 digit hdigit =>
      obtain ⟨byte, hbyte, hvalue⟩ := Option.bind_eq_some_iff.mp hdigit
      exact (Forward.skip_one hbyte (hexValue_ascii hvalue)).trans (ih h)
    case h_2 => cases h

theorem forward_hex4 {result : ℕ} (h : hex4 cursor = .ok (result, after)) : Forward cursor after := by
  unfold hex4 fail at h
  split_ifs at h
  exact forward_hexDigits h

theorem forward_unicodeEscape {offset scalar : ℕ}
    (h : unicodeEscape offset cursor = .ok (scalar, after)) : Forward cursor after := by
  unfold unicodeEscape fail at h
  obtain ⟨⟨first, middle⟩, hfirst, h⟩ := bind_eq_ok.mp h
  have hforward := forward_hex4 hfirst
  dsimp only at h
  split_ifs at h with hzero hhigh hlow
  · split at h
    case h_1 => cases h
    case h_2 next hnext =>
      split at h
      case h_1 => cases h
      case h_2 last hlast =>
        obtain ⟨⟨second, finish⟩, hsecond, h⟩ := bind_eq_ok.mp h
        dsimp only at h
        split_ifs at h
        obtain ⟨-, rfl⟩ := Prod.mk.inj (Except.ok.inj h)
        exact hforward.trans ((passes_consume (by decide) hnext).toForward.trans
          ((passes_consume (by decide) hlast).toForward.trans (forward_hex4 hsecond)))
  · cases h
    exact hforward

theorem simpleEscape_ascii {escaped byte : UInt8} (h : simpleEscape escaped = some byte) :
    escaped < 0x80 := by
  unfold simpleEscape at h
  split_ifs at h with h1 h2 h3 h4 h5 h6 h7 h8
  all_goals subst escaped; decide

/-- **One character of a string.** -/
theorem passes_stringStep {out out' : List UInt8} (hutf8 : IsUtf8 cursor.rest)
    (h : stringStep (out, cursor) = .ok (.inl (out', after))) : Passes cursor after := by
  unfold stringStep fail at h
  dsimp only at h
  split at h
  case h_1 => cases h
  case h_2 byte hbyte =>
    split_ifs at h with hquote hcontrol hbackslash hascii
    · cases h
    · have hfirst : Passes cursor (cursor.skip 1) :=
        passes_skip_one hbyte (by rw [hbackslash]; decide)
      split at h
      case h_1 => cases h
      case h_2 escaped hescaped =>
        split at h
        case h_1 simple hsimple =>
          cases h
          exact hfirst.trans (.skip_one hescaped (simpleEscape_ascii hsimple))
        case h_2 hnone =>
          split_ifs at h with hunicode
          obtain ⟨⟨scalar, finish⟩, hscalar, h⟩ := bind_eq_ok.mp h
          cases h
          have hsecond : Forward (cursor.skip 1) ((cursor.skip 1).skip 1) :=
            .skip_one hescaped (by rw [hunicode]; decide)
          exact hfirst.trans (hsecond.trans (forward_unicodeEscape hscalar))
    · cases h
      exact passes_skip_one hbyte hascii
    · cases h
      obtain ⟨index, rest⟩ := cursor
      cases rest with
      | nil => cases hbyte
      | cons first rest =>
        obtain rfl := Option.some.inj hbyte
        obtain ⟨scalar, more, hscalar, hlarge, htext, hmore⟩ := hutf8.exists_char hascii
        obtain ⟨first', tail, hencode, -⟩ := exists_encodeUtf8 hscalar hlarge
        obtain rfl : first = first' := by
          rw [hencode] at htext
          exact (List.cons.inj htext).1
        have hwidth := charWidth_eq hscalar hlarge hencode
        have hrest : (first :: rest).drop (charWidth first) = more := by
          rw [hwidth, htext, List.drop_left]
        refine ⟨⟨?_, ?_, ?_⟩, ?_⟩
        · simp only [Cursor.len, Cursor.skip, hrest]
          rw [htext, List.length_append, hwidth]
          omega
        · exact List.drop_suffix _ _
        · intro _
          show IsUtf8 ((first :: rest).drop (charWidth first))
          rw [hrest]
          exact hmore
        · show ((first :: rest).drop (charWidth first)).length < (first :: rest).length
          rw [hrest, htext, hencode, List.length_append, List.length_cons]
          omega

theorem forward_stringStep_done {out : List UInt8} {result : List UInt8 × Cursor}
    (h : stringStep (out, cursor) = .ok (.inr result)) : Forward cursor result.2 := by
  unfold stringStep fail at h
  dsimp only at h
  split at h
  case h_1 => cases h
  case h_2 byte hbyte =>
    split_ifs at h with hquote hcontrol hbackslash hascii
    · cases h
      exact .skip_one hbyte (by rw [hquote]; decide)
    · split at h
      case h_1 => cases h
      case h_2 escaped hescaped =>
        split at h
        case h_1 => cases h
        case h_2 =>
          split_ifs at h
          obtain ⟨⟨scalar, finish⟩, hscalar, h⟩ := bind_eq_ok.mp h
          cases h
    all_goals cases h

/-- **A string.** -/
theorem passes_string {text : List UInt8} (hutf8 : IsUtf8 cursor.rest)
    (h : string cursor = .ok (text, after)) : Passes cursor after := by
  unfold string at h
  obtain ⟨begun, hbegun, h⟩ := bind_eq_ok.mp h
  have hfirst := passes_expect (by decide) hbegun
  refine hfirst.trans ?_
  refine iterate_ok (fun state => IsUtf8 state.2.rest ∧ Forward begun state.2)
    (fun result => Forward begun result.2) ?_ ?_ h ⟨hfirst.utf8 hutf8, .refl _⟩
  · rintro ⟨out, state⟩ ⟨out', next⟩ ⟨hstate, hforward⟩ hstep
    have hpasses := passes_stringStep hstate hstep
    exact ⟨hpasses.utf8 hstate, hforward.trans hpasses.toForward⟩
  · rintro ⟨out, state⟩ result ⟨-, hforward⟩ hstep
    exact hforward.trans (forward_stringStep_done hstep)

/-! ## Values -/

section

variable {α : Type} {close : UInt8} {depth : ℕ} {parser : Parser}

theorem passes_afterItem (hclose : close < 0x80) {items : List α}
    {result : List α × ℕ × Parser ⊕ List α × ℕ × Parser}
    (h : afterItem close items depth parser = .ok result) :
    Passes parser.cursor (Sum.elim id id result).2.2.cursor := by
  unfold afterItem at h
  dsimp only at h
  split at h
  case h_1 cursor hcursor =>
    cases h
    exact (forward_skipSpace _).trans_passes (passes_consume hclose hcursor)
  case h_2 cursor hcursor =>
    obtain ⟨rfl, -⟩ := eq_of_consume hcursor
    obtain ⟨begun, hbegun, h⟩ := bind_eq_ok.mp h
    cases h
    exact (forward_skipSpace _).trans_passes
      ((passes_expect (by decide) hbegun).trans (forward_skipSpace _))

/-- The loop of `Parser::array` and of `Parser::object`. -/
def items (close : UInt8)
    (step : List α × ℕ × Parser → Except JsonError (List α × ℕ × Parser ⊕ List α × ℕ × Parser))
    (depth : ℕ) (parser : Parser) : Except JsonError (List α × ℕ × Parser) :=
  let cursor := skipSpace (parser.cursor.skip 1)
  match consume close cursor with
  | (true, cursor) => .ok ([], depth, { parser with cursor })
  | (false, cursor) => iterate leftInItems step stuckInItems ([], depth, { parser with cursor })

variable {step : List α × ℕ × Parser → Except JsonError (List α × ℕ × Parser ⊕ List α × ℕ × Parser)}
  {result : List α × ℕ × Parser}

theorem items_ok (motive : List α × ℕ × Parser → Prop) (h : items close step depth parser = .ok result)
    (hbegin : motive ([], depth, { parser with cursor := skipSpace (parser.cursor.skip 1) }))
    (hclose : ∀ after, consume close (skipSpace (parser.cursor.skip 1)) = (true, after) →
      motive ([], depth, { parser with cursor := after }))
    (hstep : ∀ state result, motive state → step state = .ok result → motive (Sum.elim id id result)) :
    motive result := by
  unfold items at h
  dsimp only at h
  split at h
  case h_1 cursor hcursor =>
    cases h
    exact hclose cursor hcursor
  case h_2 cursor hcursor =>
    obtain ⟨rfl, -⟩ := eq_of_consume hcursor
    exact iterate_ok motive motive (fun state next => hstep state (.inl next))
      (fun state result => hstep state (.inr result)) h hbegin

theorem passes_items (hclose : close < 0x80) {first : UInt8} (hfirst : first < 0x80)
    (hutf8 : IsUtf8 parser.cursor.rest) (hbyte : parser.cursor.byte = some first)
    (hstep : ∀ state result, IsUtf8 state.2.2.cursor.rest → step state = .ok result →
      Passes state.2.2.cursor (Sum.elim id id result).2.2.cursor)
    (h : items close step depth parser = .ok result) : Passes parser.cursor result.2.2.cursor := by
  have hbegun : Passes parser.cursor (skipSpace (parser.cursor.skip 1)) :=
    (passes_skip_one hbyte hfirst).trans (forward_skipSpace _)
  refine hbegun.trans ?_
  refine items_ok (fun state => Forward (skipSpace (parser.cursor.skip 1)) state.2.2.cursor) h
    (.refl _) ?_ ?_
  · exact fun after hafter => (passes_consume hclose hafter).toForward
  · exact fun state next hstate hnext => hstate.trans
      (hstep state next (hstate.utf8 (hbegun.utf8 hutf8)) hnext).toForward

end

/-- A reader of values goes forward. -/
def ReadsForward (value : Parser → Except JsonError (JsonNode × Parser)) : Prop :=
  ∀ parser node finish, IsUtf8 parser.cursor.rest → value parser = .ok (node, finish) →
    Passes parser.cursor finish.cursor

section

variable {value : Parser → Except JsonError (JsonNode × Parser)}
  {nested : Option (ℕ × (Parser → Except JsonError (JsonNode × Parser)))}

theorem passes_arrayStep (hvalue : ReadsForward value) (state : List JsonNode × ℕ × Parser)
    (result : List JsonNode × ℕ × Parser ⊕ List JsonNode × ℕ × Parser)
    (hutf8 : IsUtf8 state.2.2.cursor.rest) (h : arrayStep value state = .ok result) :
    Passes state.2.2.cursor (Sum.elim id id result).2.2.cursor := by
  obtain ⟨⟨node, finish⟩, hnode, h⟩ := bind_eq_ok.mp h
  exact (hvalue _ _ _ hutf8 hnode).trans (passes_afterItem (by decide) h).toForward

theorem objectStep_ok {state : List (List UInt8 × JsonNode) × ℕ × Parser}
    {result : List (List UInt8 × JsonNode) × ℕ × Parser ⊕ List (List UInt8 × JsonNode) × ℕ × Parser}
    (h : objectStep value state = .ok result) : ∃ key keyEnd start node finish,
      string state.2.2.cursor = .ok (key, keyEnd) ∧ expect colon (skipSpace keyEnd) = .ok start ∧
      value { state.2.2 with cursor := start } = .ok (node, finish) ∧
      afterItem closeBrace (state.1 ++ [(key, node)]) (max state.2.1 node.maxDepth) finish = .ok result := by
  obtain ⟨members, maxDepth, parser⟩ := state
  unfold objectStep fail at h
  dsimp only at h
  split_ifs at h
  obtain ⟨⟨key, keyEnd⟩, hkey, h⟩ := bind_eq_ok.mp h
  obtain ⟨start, hcolon, h⟩ := bind_eq_ok.mp h
  obtain ⟨⟨node, finish⟩, hnode, h⟩ := bind_eq_ok.mp h
  exact ⟨key, keyEnd, start, node, finish, hkey, hcolon, hnode, h⟩

theorem passes_member {cursor keyEnd start : Cursor} {key : List UInt8} (hutf8 : IsUtf8 cursor.rest)
    (hkey : string cursor = .ok (key, keyEnd)) (hcolon : expect colon (skipSpace keyEnd) = .ok start) :
    Passes cursor start :=
  (passes_string hutf8 hkey).trans
    ((forward_skipSpace keyEnd).trans (passes_expect (by decide) hcolon).toForward)

theorem passes_objectStep (hvalue : ReadsForward value) (state : List (List UInt8 × JsonNode) × ℕ × Parser)
    (result : List (List UInt8 × JsonNode) × ℕ × Parser ⊕ List (List UInt8 × JsonNode) × ℕ × Parser)
    (hutf8 : IsUtf8 state.2.2.cursor.rest) (h : objectStep value state = .ok result) :
    Passes state.2.2.cursor (Sum.elim id id result).2.2.cursor := by
  obtain ⟨key, keyEnd, start, node, finish, hkey, hcolon, hnode, h⟩ := objectStep_ok h
  have hstart := passes_member hutf8 hkey hcolon
  exact hstart.trans ((hvalue _ _ _ (hstart.utf8 hutf8) hnode).trans
    (passes_afterItem (by decide) h).toForward).toForward

theorem passes_valueKind
    (hnested : ∀ depth value, nested = some (depth, value) → ReadsForward value) {parser : Parser}
    (hutf8 : IsUtf8 parser.cursor.rest) {result : JsonNodeValue × ℕ × Parser}
    (h : valueKind nested parser = .ok result) : Passes parser.cursor result.2.2.cursor := by
  unfold valueKind fail at h
  dsimp only at h
  split at h
  case h_1 => cases h
  case h_2 byte hbyte =>
    split_ifs at h with hnull htrue hfalse hquote hnumber hbracket hbrace
    · obtain ⟨cursor, hcursor, h⟩ := bind_eq_ok.mp h
      cases h
      exact passes_literal (by decide +kernel) (by decide +kernel) hcursor
    · obtain ⟨cursor, hcursor, h⟩ := bind_eq_ok.mp h
      cases h
      exact passes_literal (by decide +kernel) (by decide +kernel) hcursor
    · obtain ⟨cursor, hcursor, h⟩ := bind_eq_ok.mp h
      cases h
      exact passes_literal (by decide +kernel) (by decide +kernel) hcursor
    · obtain ⟨⟨text, cursor⟩, hcursor, h⟩ := bind_eq_ok.mp h
      cases h
      exact passes_string hutf8 hcursor
    · obtain ⟨cursor, hcursor, h⟩ := bind_eq_ok.mp h
      cases h
      exact passes_number hcursor
    · split at h
      case h_1 => cases h
      case h_2 depth value =>
        obtain ⟨result', hresult, h⟩ := bind_eq_ok.mp h
        cases h
        exact passes_items (by decide) (by rw [hbracket]; decide) hutf8 hbyte
          (passes_arrayStep (hnested depth value rfl)) hresult
    · split at h
      case h_1 => cases h
      case h_2 depth value =>
        obtain ⟨result', hresult, h⟩ := bind_eq_ok.mp h
        cases h
        exact passes_items (by decide) (by rw [hbrace]; decide) hutf8 hbyte
          (passes_objectStep (hnested depth value rfl)) hresult

theorem readsForward_valueAt
    (hnested : ∀ depth value, nested = some (depth, value) → ReadsForward value) :
    ReadsForward (valueAt nested) := by
  rintro parser node finish hutf8 h
  unfold valueAt fail at h
  dsimp only at h
  split_ifs at h
  obtain ⟨⟨kind, maxDepth, finished⟩, hkind, h⟩ := bind_eq_ok.mp h
  cases h
  have hspace := forward_skipSpace parser.cursor
  have hbegun : IsUtf8 (Parser.mk (skipSpace parser.cursor) (parser.values + 1)).cursor.rest :=
    hspace.utf8 hutf8
  exact hspace.trans_passes (passes_valueKind hnested hbegun hkind)

end

/-- **Every value goes forward.** -/
theorem readsForward_value (levels : ℕ) : ReadsForward (value levels) := by
  induction levels with
  | zero => exact readsForward_valueAt nofun
  | succ levels ih =>
    refine readsForward_valueAt ?_
    rintro depth value hnested
    cases hnested
    exact ih

end Wasm

end Nomo.Json
