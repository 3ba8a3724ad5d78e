import Nomo.Json.Native
import Nomo.Json.Progress

/-!
# The two JSON readers

The C scanner and the WASM parser take the same steps, but in two places. After the escape of a high
surrogate and another `\u`, the scanner asks for four more bytes before it reads them, and the parser
only when it reads them (`ShortPair`). And where a value should begin, the scanner looks for the end
of the text before it looks at the number of values, and the parser after it (`Exhausted`). In both
places each fails with an error of its own; everywhere else they do the same.
-/

namespace Nomo.Json

open Nomo.Lib.Scanning Wasm Native

/-! ## Literals and numbers -/

theorem scanLiteral_eq (expected : String) (cursor : Cursor) :
    scanLiteral expected cursor = literal expected cursor := by
  unfold scanLiteral literal
  dsimp only
  by_cases hbegins : asciiText expected <+: cursor.rest
  · have htake : cursor.rest.take (asciiText expected).length = asciiText expected :=
      (List.prefix_iff_eq_take.mp hbegins).symm
    rw [if_pos hbegins, if_neg]
    rintro (hlength | hne)
    · exact absurd hbegins.length_le (by omega)
    · exact hne htake
  · rw [if_neg hbegins, if_pos]
    right
    intro htake
    exact hbegins (List.prefix_iff_eq_take.mpr htake.symm)

theorem scanDigits_eq (cursor : Cursor) : scanDigits cursor = digits cursor := by
  obtain ⟨index, rest⟩ := cursor
  unfold scanDigits digits
  cases rest with
  | nil => rfl
  | cons byte rest =>
    by_cases hdigit : isDigit byte = true
    · have hskip : skipDigits ⟨index, byte :: rest⟩ = skipDigits ⟨index + 1, rest⟩ := by
        unfold skipDigits
        rw [skipWhile, if_pos hdigit]
      simp [Cursor.byte, Cursor.skip, hdigit, hskip]
    · simp [Cursor.byte, hdigit]

theorem scanFraction_eq (cursor : Cursor) : scanFraction cursor = fraction cursor := by
  unfold scanFraction fraction consume
  by_cases hpoint : cursor.byte = some point
  · simp only [if_pos hpoint, scanDigits_eq]
  · simp only [if_neg hpoint]

theorem scanExponent_eq (cursor : Cursor) : scanExponent cursor = exponent cursor := by
  unfold scanExponent exponent
  simp only [scanDigits_eq]
  split_ifs <;> rfl

theorem scanWholePart_eq (cursor : Cursor) : scanWholePart cursor = wholePart cursor := by
  unfold scanWholePart wholePart
  cases cursor.byte <;> rfl

theorem scanNumber_eq (cursor : Cursor) : scanNumber cursor = number cursor := by
  have hsign : (consume minus cursor).2 = if cursor.byte = some minus then cursor.skip 1 else cursor := by
    unfold consume
    split_ifs <;> rfl
  unfold scanNumber number
  rw [hsign, scanWholePart_eq]
  simp only [scanFraction_eq, scanExponent_eq]

/-! ## Characters of a string -/

theorem parseHexDigits_eq (n out : ℕ) (cursor : Cursor) :
    parseHexDigits n out cursor = hexDigits n out cursor := by
  induction n generalizing out cursor with
  | zero => rfl
  | succ n ih =>
    unfold parseHexDigits hexDigits
    cases cursor.byte.bind hexValue with
    | none => rfl
    | some digit => exact ih _ _

theorem parseHex4_eq (cursor : Cursor) : parseHex4 cursor = hex4 cursor := by
  unfold parseHex4 hex4
  rw [parseHexDigits_eq]

/-- A high surrogate with a second escape, of which fewer than four bytes are left. -/
def ShortPair (cursor : Cursor) : Prop :=
  ∃ first after, hex4 cursor = .ok (first, after) ∧ 0xd800 ≤ first ∧ first ≤ 0xdbff ∧
    after.rest[0]? = some backslash ∧ after.rest[1]? = some (ascii 'u') ∧ after.rest.length < 6

theorem skip_skip (cursor : Cursor) (m n : ℕ) : (cursor.skip m).skip n = cursor.skip (m + n) := by
  simp [Cursor.skip, Nat.add_assoc]

theorem byte_skip_one (cursor : Cursor) : (cursor.skip 1).byte = cursor.rest[1]? := by
  simp [Cursor.skip, Cursor.byte]

theorem byte_eq_getElem? (cursor : Cursor) : cursor.byte = cursor.rest[0]? :=
  List.head?_eq_getElem?

/-- **The escape of a character by its number.** -/
theorem scanUnicodeEscape_same (offset : ℕ) (cursor : Cursor) :
    SameUnless (ShortPair cursor) (fun result after => result.2 = after)
      (unicodeEscape offset cursor) (scanUnicodeEscape offset cursor) := by
  unfold unicodeEscape scanUnicodeEscape
  rw [parseHex4_eq]
  cases hfirst : hex4 cursor with
  | error error =>
    refine (SameUnless.error error).of_iff (iff_false_intro ?_)
    rintro ⟨first, after, hok, -⟩
    cases hfirst.symm.trans hok
  | ok result =>
    obtain ⟨first, after⟩ := result
    have hshort : ShortPair cursor ↔ (0xd800 ≤ first ∧ first ≤ 0xdbff) ∧
        after.rest[0]? = some backslash ∧ after.rest[1]? = some (ascii 'u') ∧ after.rest.length < 6 := by
      constructor
      · rintro ⟨first', after', hok, hlow, hhigh, hrest⟩
        cases hfirst.symm.trans hok
        exact ⟨⟨hlow, hhigh⟩, hrest⟩
      · rintro ⟨⟨hlow, hhigh⟩, hrest⟩
        exact ⟨first, after, hfirst, hlow, hhigh, hrest⟩
    show SameUnless _ _ (ite _ _ _) (ite _ _ _)
    by_cases hzero : first = 0
    · rw [if_pos hzero, if_pos hzero]
      refine (SameUnless.error _).of_iff (iff_false_intro ?_)
      rw [hshort]
      rintro ⟨⟨hlow, -⟩, -⟩
      omega
    rw [if_neg hzero, if_neg hzero]
    by_cases hhigh : 0xd800 ≤ first ∧ first ≤ 0xdbff
    · rw [if_pos hhigh, if_pos hhigh, hshort]
      unfold consume
      rw [byte_eq_getElem?]
      by_cases hbackslash : after.rest[0]? = some backslash
      · rw [if_pos hbackslash]
        dsimp only
        rw [byte_skip_one]
        by_cases hu : after.rest[1]? = some (ascii 'u')
        · rw [if_pos hu]
          dsimp only
          rw [skip_skip]
          by_cases hlength : after.rest.length < 6
          · have hhex : hex4 (after.skip (1 + 1)) = fail .syntaxError (after.skip (1 + 1)).len := by
              unfold hex4
              rw [if_pos]
              simp only [Cursor.skip, List.length_drop]
              omega
            rw [if_pos (.inl hlength), hhex]
            refine (SameUnless.different ?_).of_iff (by simp [hhigh, hbackslash, hu, hlength])
            simp
          have hrest : ∀ a b, hex4 (after.skip 2) = .ok a → hex4 (after.skip 2) = .ok b → a = b →
              SameUnless False (fun (result : ℕ × Cursor) finish => result.2 = finish)
                (if 0xdc00 ≤ a.1 ∧ a.1 ≤ 0xdfff then
                  .ok (0x10000 + (first - 0xd800) * 1024 + (a.1 - 0xdc00), a.2)
                else fail .unsupportedString offset)
                (if b.1 < 0xdc00 ∨ b.1 > 0xdfff then fail .unsupportedString offset
                else .ok b.2) := by
            rintro ⟨second, finish⟩ _ - - rfl
            by_cases hlow : 0xdc00 ≤ second ∧ second ≤ 0xdfff
            · rw [if_pos hlow, if_neg (by dsimp only; omega)]
              exact .ok rfl
            · rw [if_neg hlow, if_pos (by dsimp only; omega)]
              exact .error _
          rw [if_neg (by simp [hlength, hbackslash, hu]), parseHex4_eq]
          exact ((SameUnless.refl (hex4 (after.skip 2))).bind hrest).of_iff (by simp [hlength])
        · rw [if_neg hu, if_pos (by simp [hu])]
          exact (SameUnless.error _).of_iff (by simp [hu])
      · rw [if_neg hbackslash, if_pos (by simp [hbackslash])]
        exact (SameUnless.error _).of_iff (by simp [hbackslash])
    · have hnot : ShortPair cursor ↔ False := by
        rw [hshort]
        simp [hhigh]
      have hdone : SameUnless False (fun (result : ℕ × Cursor) finish => result.2 = finish)
          (.ok (first, after) : Except JsonError (ℕ × Cursor)) (.ok after) := .ok rfl
      rw [if_neg hhigh, if_neg hhigh]
      by_cases hlow : 0xdc00 ≤ first ∧ first ≤ 0xdfff
      · rw [if_pos hlow, if_pos hlow]
        exact (SameUnless.error _).of_iff hnot
      · rw [if_neg hlow, if_neg hlow]
        exact hdone.of_iff hnot

theorem utf8Tail_next {digit : ℕ} (hdigit : digit < 64) (n index scalar : ℕ) (rest : List UInt8) :
    utf8Tail (n + 1) index scalar (UInt8.ofNat (0x80 + digit) :: rest) =
      utf8Tail n (index + 1) (scalar * 64 + digit) rest := by
  have hbyte : (UInt8.ofNat (0x80 + digit)).toNat = 0x80 + digit :=
    UInt8.toNat_ofNat_of_lt' (by simp only [UInt8.size]; omega)
  rw [utf8Tail, hbyte, if_neg (by omega)]
  congr 2
  omega

variable {cursor : Cursor}

theorem utf8Width_eq {first : UInt8} (hbyte : cursor.byte = some first) (hfirst : ¬ first < 0x80)
    (hutf8 : IsUtf8 cursor.rest) :
    utf8Width first cursor = .ok (charWidth first) := by
  obtain ⟨index, rest⟩ := cursor
  cases rest with
  | nil => cases hbyte
  | cons byte rest =>
    cases hbyte
    obtain ⟨scalar, more, ⟨hmax, hsurrogate⟩, hscalar, htext, -⟩ := hutf8.exists_char hfirst
    unfold encodeUtf8 at htext
    unfold utf8Width charWidth
    simp only [UInt8.lt_iff_toNat_lt]
    rw [if_neg (by omega)] at htext
    split_ifs at htext with htwo hthree
    all_goals
      simp only [List.cons_append, List.nil_append, List.cons.injEq] at htext
      obtain ⟨rfl, rfl⟩ := htext
      rw [UInt8.toNat_ofNat_of_lt' (by simp only [UInt8.size]; omega)]
    · have hback : (0xc0 + scalar / 64) % 32 * 64 + scalar % 64 = scalar := by omega
      rw [if_neg (by omega), if_pos (by omega), if_neg (by simp)]
      simp only [List.drop_succ_cons, List.drop_zero]
      rw [utf8Tail_next (by omega), utf8Tail, hback, if_pos (by show _ < 0xe0; omega)]
      exact if_neg (by omega)
    · have hback : ((0xe0 + scalar / 4096) % 16 * 64 + scalar / 64 % 64) * 64 + scalar % 64 = scalar := by
        omega
      rw [if_neg (by omega), if_neg (by omega), if_pos (by omega), if_neg (by simp)]
      simp only [List.drop_succ_cons, List.drop_zero]
      rw [utf8Tail_next (by omega), utf8Tail_next (by omega), utf8Tail, hback,
        if_neg (by show ¬ _ < 0xe0; omega), if_pos (by show _ < 0xf0; omega)]
      exact if_neg (by omega)
    · have hback : (((0xf0 + scalar / 262144) % 8 * 64 + scalar / 4096 % 64) * 64 +
          scalar / 64 % 64) * 64 + scalar % 64 = scalar := by
        omega
      rw [if_neg (by omega), if_neg (by omega), if_neg (by omega), if_pos (by omega), if_neg (by simp)]
      simp only [List.drop_succ_cons, List.drop_zero]
      rw [utf8Tail_next (by omega), utf8Tail_next (by omega), utf8Tail_next (by omega), utf8Tail,
        hback, if_neg (by show ¬ _ < 0xe0; omega), if_neg (by show ¬ _ < 0xf0; omega)]
      exact if_neg (by omega)

/-! ## Strings -/

theorem isSimpleEscape_iff (escaped : UInt8) :
    isSimpleEscape escaped = true ↔ ∃ byte, simpleEscape escaped = some byte := by
  unfold isSimpleEscape simpleEscape
  split_ifs <;> simp_all

/-- At the escape of a short pair. -/
def ShortPairAt (cursor : Cursor) : Prop :=
  cursor.byte = some backslash ∧ (cursor.skip 1).byte = some (ascii 'u') ∧
    ShortPair ((cursor.skip 1).skip 1)

/-- The parser of a string and its scanner at the same place. -/
def InString (state : List UInt8 × Cursor) (cursor : Cursor) : Prop :=
  state.2 = cursor ∧ IsUtf8 cursor.rest

theorem stringStep_same {out : List UInt8} (hutf8 : IsUtf8 cursor.rest) :
    SameUnless (ShortPairAt cursor) (Sum.LiftRel (fun state next => state.2 = next)
      (fun result finish => result.2 = finish)) (stringStep (out, cursor)) (scanStringStep cursor) := by
  unfold stringStep scanStringStep
  dsimp only
  cases hbyte : cursor.byte with
  | none =>
    exact (SameUnless.error _).of_iff (iff_false_intro fun hshort => by
      cases hbyte.symm.trans hshort.1)
  | some byte =>
    dsimp only
    have hnot : byte ≠ backslash → (ShortPairAt cursor ↔ False) := by
      rintro hne
      refine iff_false_intro fun hshort => hne ?_
      exact Option.some.inj (hbyte.symm.trans hshort.1)
    by_cases hquote : byte = quote
    · rw [if_pos hquote, if_pos hquote]
      exact (SameUnless.ok (.inr rfl)).of_iff (hnot (by rw [hquote]; decide))
    rw [if_neg hquote, if_neg hquote]
    by_cases hcontrol : byte < 0x20
    · rw [if_pos hcontrol, if_pos hcontrol]
      refine (SameUnless.error _).of_iff (hnot ?_)
      rintro rfl
      exact absurd hcontrol (by decide)
    rw [if_neg hcontrol, if_neg hcontrol]
    by_cases hbackslash : byte = backslash
    · rw [if_pos hbackslash, if_pos hbackslash]
      subst hbackslash
      cases hescaped : (cursor.skip 1).byte with
      | none =>
        exact (SameUnless.error _).of_iff (iff_false_intro fun hshort => by
          cases hescaped.symm.trans hshort.2.1)
      | some escaped =>
        dsimp only
        cases hsimple : simpleEscape escaped with
        | some pushed =>
          dsimp only
          rw [if_pos ((isSimpleEscape_iff escaped).mpr ⟨pushed, hsimple⟩)]
          refine (SameUnless.ok (.inl rfl)).of_iff (iff_false_intro fun hshort => ?_)
          obtain rfl := Option.some.inj (hescaped.symm.trans hshort.2.1)
          cases hsimple
        | none =>
          dsimp only
          have hlong : ¬ isSimpleEscape escaped = true := by
            rw [isSimpleEscape_iff, hsimple]
            rintro ⟨byte, hbyte⟩
            cases hbyte
          rw [if_neg hlong]
          by_cases hu : escaped = ascii 'u'
          · rw [if_pos hu, if_neg (not_not.mpr hu)]
            rw [hu] at hescaped
            exact ((scanUnicodeEscape_same cursor.index ((cursor.skip 1).skip 1)).map
              fun result after h => .inl h).of_iff
                ⟨fun hshort => hshort.2.2, fun hshort => ⟨hbyte, hescaped, hshort⟩⟩
          · rw [if_neg hu, if_pos hu]
            refine (SameUnless.error _).of_iff (iff_false_intro fun hshort => hu ?_)
            exact Option.some.inj (hescaped.symm.trans hshort.2.1)
    · rw [if_neg hbackslash, if_neg hbackslash]
      by_cases hascii : byte < 0x80
      · rw [if_pos hascii, if_neg (UInt8.not_le.mpr hascii)]
        exact (SameUnless.ok (.inl rfl)).of_iff (hnot hbackslash)
      · rw [if_neg hascii, if_pos (UInt8.not_lt.mp hascii), utf8Width_eq hbyte hascii hutf8]
        exact (SameUnless.ok (.inl rfl)).of_iff (hnot hbackslash)

/-- A string with the escape of a short pair, where the parser comes to it. -/
def StringDiffers (cursor : Cursor) : Prop :=
  cursor.byte = some quote ∧ Comes stringStep (fun state => ShortPairAt state.2) ([], cursor.skip 1)

/-- **Strings.** -/
theorem string_same (hutf8 : IsUtf8 cursor.rest) :
    SameUnless (StringDiffers cursor) (fun result finish => result.2 = finish) (string cursor)
      (scanString cursor) := by
  unfold string scanString expect
  by_cases hquote : cursor.byte = some quote
  · rw [if_pos hquote, if_neg (not_not.mpr hquote)]
    have hstart : IsUtf8 (cursor.skip 1).rest := (passes_skip_one hquote (by decide)).utf8 hutf8
    have hstep : ∀ state now, InString state now → SameUnless (ShortPairAt state.2)
        (Sum.LiftRel InString fun result finish => result.2 = finish) (stringStep state)
        (scanStringStep now) := by
      rintro ⟨out, _⟩ now ⟨rfl, hnow⟩
      refine (stringStep_same hnow).mono ?_
      rintro next finish hnext - hrelated
      cases hrelated with
      | inl h => exact .inl ⟨h, h ▸ (passes_stringStep hnow hnext).utf8 hnow⟩
      | inr h => exact .inr h
    refine (SameUnless.iterate hstep ?_ ?_ ⟨rfl, hstart⟩).of_iff (and_iff_right hquote)
    · rintro ⟨out, _⟩ now next ⟨rfl, hnow⟩ hnext
      exact (passes_stringStep hnow hnext).lt
    · rintro ⟨out, _⟩ now ⟨rfl, hnow⟩
      rfl
  · rw [if_neg hquote, if_pos hquote]
    exact (SameUnless.error _).of_iff (iff_false_intro fun hdiffers => hquote hdiffers.1)

/-! ## Values -/

/-- A parser and a scan at the same place of a text, with the same number of values. The scan keeps
the greatest depth of all it went over. -/
structure Beside (depth : ℕ) (parser : Parser) (scan : Scan) : Prop where
  cursor : scan.cursor = parser.cursor
  values : scan.values = parser.values
  maxDepth : scan.maxDepth = depth

variable {scan : Scan}

theorem Beside.eq {depth values : ℕ} (h : Beside depth ⟨cursor, values⟩ scan) :
    scan = ⟨cursor, depth, values⟩ := by
  obtain ⟨now, greatest, reached⟩ := scan
  obtain ⟨hcursor, hvalues, hdepth⟩ := h
  rw [show now = cursor from hcursor, show reached = values from hvalues, show greatest = depth from hdepth]

/-- A reader of values and a scanner do the same but where they differ. -/
def ValuesSame (value : Parser → Except JsonError (JsonNode × Parser))
    (scanValue : Scan → Except JsonError Scan) (differs : Parser → Prop) : Prop :=
  ∀ depth parser scan, IsUtf8 parser.cursor.rest → Beside depth parser scan →
    SameUnless (differs parser) (fun result scan => Beside (max depth result.1.maxDepth) result.2 scan)
      (value parser) (scanValue scan)

/-- A parser and a scan between two items. -/
def BetweenItems {α : Type} (depth : ℕ) (state : List α × ℕ × Parser) (scan : Scan) : Prop :=
  Beside (max depth state.2.1) state.2.2 scan ∧ IsUtf8 state.2.2.cursor.rest

variable {parser : Parser}

theorem afterItem_same {α : Type} {close : UInt8} (hclose : close < 0x80) {items : List α}
    {depth maxDepth : ℕ} (hutf8 : IsUtf8 parser.cursor.rest)
    (h : Beside (max depth maxDepth) parser scan) :
    SameUnless False (Sum.LiftRel (BetweenItems depth) (BetweenItems depth))
      (Wasm.afterItem close items maxDepth parser) (Native.afterItem close scan) := by
  obtain ⟨cursor, values⟩ := parser
  obtain rfl := h.eq
  have hspace : IsUtf8 (skipSpace cursor).rest := (forward_skipSpace cursor).utf8 hutf8
  unfold Wasm.afterItem Native.afterItem consume expect
  dsimp only
  by_cases hbyte : (skipSpace cursor).byte = some close
  · rw [if_pos hbyte, if_pos hbyte]
    exact .ok (.inr ⟨⟨rfl, rfl, rfl⟩, (passes_skip_one hbyte hclose).utf8 hspace⟩)
  rw [if_neg hbyte, if_neg hbyte]
  dsimp only
  by_cases hcomma : (skipSpace cursor).byte = some comma
  · rw [if_pos hcomma, if_neg (not_not.mpr hcomma)]
    refine .ok (.inl ⟨⟨rfl, rfl, rfl⟩, (forward_skipSpace _).utf8 ?_⟩)
    exact (passes_skip_one hcomma (by decide)).utf8 hspace
  · rw [if_neg hcomma, if_pos hcomma]
    exact .error _

theorem items_same {α : Type} {close first : UInt8} (hclose : close < 0x80)
    {step : List α × ℕ × Parser → Except JsonError (List α × ℕ × Parser ⊕ List α × ℕ × Parser)}
    {scanStep : Scan → Except JsonError (Scan ⊕ Scan)} {stepDiffers : Parser → Prop} {before depth : ℕ}
    (hutf8 : IsUtf8 parser.cursor.rest) (hfirst : first < 0x80)
    (hbyte : parser.cursor.byte = some first) (h : Beside (max before depth) parser scan)
    (hpasses : ∀ state result, IsUtf8 state.2.2.cursor.rest → step state = .ok result →
      Passes state.2.2.cursor (Sum.elim id id result).2.2.cursor)
    (hsame : ∀ {state scan}, BetweenItems before state scan →
      SameUnless (stepDiffers state.2.2) (Sum.LiftRel (BetweenItems before) (BetweenItems before))
        (step state) (scanStep scan)) :
    SameUnless
      ((skipSpace (parser.cursor.skip 1)).byte ≠ some close ∧ Comes step (fun state => stepDiffers state.2.2)
        ([], depth, { parser with cursor := skipSpace (parser.cursor.skip 1) }))
      (BetweenItems before) (Wasm.items close step depth parser)
      (if (skipSpace (scan.cursor.skip 1)).byte = some close then
        .ok { scan with cursor := (skipSpace (scan.cursor.skip 1)).skip 1 }
      else iterate Native.leftInItems scanStep Native.stuckInItems
        { scan with cursor := skipSpace (scan.cursor.skip 1) }) := by
  obtain ⟨cursor, values⟩ := parser
  obtain rfl := h.eq
  have hstart : IsUtf8 (skipSpace (cursor.skip 1)).rest :=
    (forward_skipSpace _).utf8 ((passes_skip_one hbyte hfirst).utf8 hutf8)
  unfold items consume
  dsimp only
  by_cases hend : (skipSpace (cursor.skip 1)).byte = some close
  · rw [if_pos hend, if_pos hend]
    have hdone : BetweenItems before (([], depth, ⟨(skipSpace (cursor.skip 1)).skip 1, values⟩) :
        List α × ℕ × Parser) ⟨(skipSpace (cursor.skip 1)).skip 1, max before depth, values⟩ :=
      ⟨⟨rfl, rfl, rfl⟩, (passes_skip_one hend hclose).utf8 hstart⟩
    exact (SameUnless.ok hdone).of_iff (iff_false_intro fun hdiffers => hdiffers.1 hend)
  · rw [if_neg hend, if_neg hend]
    refine (SameUnless.iterate (fun state now hnow => hsame hnow) ?_ ?_
      ⟨⟨rfl, rfl, rfl⟩, hstart⟩).of_iff (and_iff_right hend)
    · rintro state now next hnow hnext
      exact (hpasses state _ hnow.2 hnext).lt
    · rintro state now hnow
      show now.cursor.rest.length = _
      rw [hnow.1.cursor]
      rfl

section

variable {value : Parser → Except JsonError (JsonNode × Parser)}
  {scanValue : Scan → Except JsonError Scan} {differs : Parser → Prop}

theorem arrayStep_same (hvalue : ReadsForward value) (hsame : ValuesSame value scanValue differs)
    {depth : ℕ} {state : List JsonNode × ℕ × Parser} (h : BetweenItems depth state scan) :
    SameUnless (differs state.2.2) (Sum.LiftRel (BetweenItems depth) (BetweenItems depth))
      (arrayStep value state) (scanArrayStep scanValue scan) := by
  obtain ⟨items, maxDepth, parser⟩ := state
  obtain ⟨hbeside, hutf8⟩ := h
  have hafter : ∀ result next, value parser = .ok result → scanValue scan = .ok next →
      Beside (max (max depth maxDepth) result.1.maxDepth) result.2 next →
      SameUnless False (Sum.LiftRel (BetweenItems depth) (BetweenItems depth))
        (Wasm.afterItem closeBracket (items ++ [result.1]) (max maxDepth result.1.maxDepth) result.2)
        (Native.afterItem closeBracket next) := by
    rintro ⟨node, finish⟩ next hnode - hnext
    rw [max_assoc] at hnext
    exact afterItem_same (by decide) ((hvalue _ _ _ hutf8 hnode).utf8 hutf8) hnext
  exact ((hsame _ _ _ hutf8 hbeside).bind hafter).of_iff (by simp)

/-- An array with an item that differs. -/
def ArrayDiffers (value : Parser → Except JsonError (JsonNode × Parser)) (differs : Parser → Prop)
    (depth : ℕ) (parser : Parser) : Prop :=
  let cursor := skipSpace (parser.cursor.skip 1)
  cursor.byte ≠ some closeBracket ∧
    Comes (arrayStep value) (fun state => differs state.2.2) ([], depth, { parser with cursor })

/-- A member whose key or value differs. -/
def MemberDiffers (differs : Parser → Prop) (parser : Parser) : Prop :=
  StringDiffers parser.cursor ∨ ∃ key after start, string parser.cursor = .ok (key, after) ∧
    expect colon (skipSpace after) = .ok start ∧ differs { parser with cursor := start }

theorem objectStep_same (hvalue : ReadsForward value) (hsame : ValuesSame value scanValue differs)
    {depth : ℕ} {state : List (List UInt8 × JsonNode) × ℕ × Parser}
    (h : BetweenItems depth state scan) :
    SameUnless (MemberDiffers differs state.2.2)
      (Sum.LiftRel (BetweenItems depth) (BetweenItems depth))
      (objectStep value state) (scanObjectStep scanValue scan) := by
  obtain ⟨members, maxDepth, cursor, values⟩ := state
  obtain ⟨hbeside, hutf8⟩ := h
  obtain rfl := hbeside.eq
  unfold objectStep scanObjectStep
  dsimp only
  by_cases hquote : cursor.byte = some quote
  · rw [if_neg (not_not.mpr hquote)]
    have hrest : ∀ result after, string cursor = .ok result →
        scanString cursor = .ok after → result.2 = after →
        SameUnless (∃ start, expect colon (skipSpace result.2) = .ok start ∧
            differs { cursor := start, values })
          (Sum.LiftRel (BetweenItems depth) (BetweenItems depth))
          (do
            let start ← expect colon (skipSpace result.2)
            let item ← value { cursor := start, values }
            Wasm.afterItem closeBrace (members ++ [(result.1, item.1)]) (max maxDepth item.1.maxDepth)
              item.2)
          (if (skipSpace after).byte ≠ some colon then fail .syntaxError (skipSpace after).index
          else do
            let scan ← scanValue ⟨(skipSpace after).skip 1, max depth maxDepth, values⟩
            Native.afterItem closeBrace scan) := by
      rintro ⟨key, after⟩ _ hkey - rfl
      have hspace : IsUtf8 (skipSpace after).rest :=
        (forward_skipSpace _).utf8 ((passes_string hutf8 hkey).utf8 hutf8)
      unfold expect
      by_cases hcolon : (skipSpace after).byte = some colon
      · simp only [if_pos hcolon, if_neg (not_not.mpr hcolon)]
        have hstart : IsUtf8 ((skipSpace after).skip 1).rest :=
          (passes_skip_one hcolon (by decide)).utf8 hspace
        have hafter : ∀ (result : JsonNode × Parser) (next : Scan),
            value ⟨(skipSpace after).skip 1, values⟩ = .ok result →
            scanValue ⟨(skipSpace after).skip 1, max depth maxDepth, values⟩ = .ok next →
            Beside (max (max depth maxDepth) result.1.maxDepth) result.2 next →
            SameUnless False (Sum.LiftRel (BetweenItems depth) (BetweenItems depth))
              (Wasm.afterItem closeBrace (members ++ [(key, result.1)])
                (max maxDepth result.1.maxDepth) result.2)
              (Native.afterItem closeBrace next) := by
          rintro ⟨node, finish⟩ next hnode - hnext
          rw [max_assoc] at hnext
          exact afterItem_same (by decide) ((hvalue _ _ _ hstart hnode).utf8 hstart) hnext
        refine ((hsame _ ⟨(skipSpace after).skip 1, values⟩ _ hstart ⟨rfl, rfl, rfl⟩).bind hafter).of_iff ?_
        simp
      · simp only [if_neg hcolon, if_pos hcolon]
        refine (SameUnless.error _).of_iff (iff_false_intro ?_)
        rintro ⟨start, hstart, -⟩
        cases hstart
    refine ((string_same hutf8).bind hrest).of_iff ?_
    constructor
    · rintro (hdiffers | ⟨key, after, start, hkey, hcolon, hdiffers⟩)
      · exact .inl hdiffers
      · exact .inr ⟨(key, after), hkey, start, hcolon, hdiffers⟩
    · rintro (hdiffers | ⟨⟨key, after⟩, hkey, start, hcolon, hdiffers⟩)
      · exact .inl hdiffers
      · exact .inr ⟨key, after, start, hkey, hcolon, hdiffers⟩
  · have hscan : scanString cursor = fail .syntaxError cursor.index := if_pos hquote
    rw [if_pos hquote, hscan]
    refine (SameUnless.error _).of_iff (iff_false_intro ?_)
    rintro (hdiffers | ⟨key, after, start, hkey, -⟩)
    · exact hquote hdiffers.1
    · unfold string expect at hkey
      rw [if_neg hquote] at hkey
      cases hkey

/-- An object with a member that differs. -/
def ObjectDiffers (value : Parser → Except JsonError (JsonNode × Parser)) (differs : Parser → Prop)
    (depth : ℕ) (parser : Parser) : Prop :=
  let cursor := skipSpace (parser.cursor.skip 1)
  cursor.byte ≠ some closeBrace ∧ Comes (objectStep value)
    (fun state => MemberDiffers differs state.2.2) ([], depth, { parser with cursor })

end

/-- What may be inside an array or an object, for the parser and for the scanner, and where they
differ. -/
inductive NestedSame : Option (ℕ × (Parser → Except JsonError (JsonNode × Parser))) →
    Option (ℕ × (Scan → Except JsonError Scan)) →
      Option (ℕ × (Parser → Except JsonError (JsonNode × Parser)) × (Parser → Prop)) → Prop
  | none : NestedSame none none none
  | some {depth : ℕ} {value : Parser → Except JsonError (JsonNode × Parser)}
      {scanValue : Scan → Except JsonError Scan} {differs : Parser → Prop} :
      ReadsForward value → ValuesSame value scanValue differs →
        NestedSame (some (depth, value)) (some (depth, scanValue)) (some (depth, value, differs))

/-- A string, or an array or an object inside of which there is a difference. -/
def KindDiffers
    (nested : Option (ℕ × (Parser → Except JsonError (JsonNode × Parser)) × (Parser → Prop)))
    (parser : Parser) : Prop :=
  StringDiffers parser.cursor ∨ ∃ depth value differs, nested = some (depth, value, differs) ∧
    (parser.cursor.byte = some openBracket ∧ ArrayDiffers value differs depth parser ∨
      parser.cursor.byte = some openBrace ∧ ObjectDiffers value differs depth parser)

variable {nested : Option (ℕ × (Parser → Except JsonError (JsonNode × Parser)) × (Parser → Prop))}

theorem not_kindDiffers {ch : UInt8} (hbyte : parser.cursor.byte = some ch) (hquote : ch ≠ quote)
    (hbracket : ch ≠ openBracket) (hbrace : ch ≠ openBrace) :
    KindDiffers nested parser ↔ False := by
  refine iff_false_intro ?_
  rintro (⟨hbegin, -⟩ | ⟨depth, value, differs, -, ⟨hbegin, -⟩ | ⟨hbegin, -⟩⟩)
  · exact hquote (Option.some.inj (hbyte.symm.trans hbegin))
  · exact hbracket (Option.some.inj (hbyte.symm.trans hbegin))
  · exact hbrace (Option.some.inj (hbyte.symm.trans hbegin))

theorem nested_same {α : Type} {kindDiffers differs : Prop} {before depth : ℕ} {values : ℕ}
    {kind : List α → JsonNodeValue} {x : Except JsonError (List α × ℕ × Parser)}
    {y : Scan → Except JsonError Scan}
    (hinside : ∀ scan, Beside (max (max before depth) depth) ⟨cursor, values⟩ scan →
      SameUnless differs (BetweenItems (max before depth)) x (y scan))
    (hiff : kindDiffers ↔ differs) :
    SameUnless kindDiffers (fun result scan => Beside (max before result.2.1) result.2.2 scan)
      (x >>= fun (items, nestedDepth, parser) => .ok (kind items, max depth nestedDepth, parser))
      (y ⟨cursor, if depth > before then depth else before, values⟩) := by
  have hdepth : (if depth > before then depth else before) = max (max before depth) depth := by
    rw [max_assoc, max_self, max_def_lt]
  rw [← bind_pure (y _)]
  refine ((hinside _ ⟨rfl, rfl, hdepth⟩).map ?_).of_iff hiff
  rintro ⟨items, nestedDepth, finish⟩ after ⟨hafter, -⟩
  rw [max_assoc] at hafter
  exact hafter

theorem kind_same {read : Option (ℕ × (Parser → Except JsonError (JsonNode × Parser)))}
    {scanned : Option (ℕ × (Scan → Except JsonError Scan))}
    (hnested : NestedSame read scanned nested) {before : ℕ} {ch : UInt8}
    (hbyte : parser.cursor.byte = some ch) (hutf8 : IsUtf8 parser.cursor.rest)
    (h : Beside before parser scan) :
    SameUnless (KindDiffers nested parser)
      (fun result scan => Beside (max before result.2.1) result.2.2 scan)
      (valueKind read parser) (scanKind scanned ch scan) := by
  obtain ⟨cursor, values⟩ := parser
  obtain rfl := h.eq
  have hleaf : ∀ (value : JsonNodeValue) (x : Except JsonError Cursor), SameUnless False
        (fun (result : JsonNodeValue × ℕ × Parser) scan => Beside (max before result.2.1) result.2.2 scan)
        (x >>= fun cursor => .ok (value, 0, { cursor, values }))
        (x >>= fun cursor => .ok { cursor, maxDepth := before, values }) := by
    rintro value x
    refine (SameUnless.refl x).map ?_
    rintro a _ rfl
    exact ⟨rfl, rfl, (max_eq_left (Nat.zero_le before)).symm⟩
  unfold valueKind scanKind
  simp only [hbyte]
  by_cases hnull : ch = ascii 'n'
  · subst hnull
    rw [if_pos rfl, if_neg (by decide), if_neg (by decide), if_neg (by decide), if_neg (by decide),
      if_neg (by decide), if_pos rfl, scanLiteral_eq]
    exact (hleaf .null _).of_iff (not_kindDiffers hbyte (by decide) (by decide) (by decide))
  rw [if_neg hnull]
  by_cases htrue : ch = ascii 't'
  · subst htrue
    rw [if_pos rfl, if_neg (by decide), if_neg (by decide), if_neg (by decide), if_pos rfl, scanLiteral_eq]
    exact (hleaf (.boolean true) _).of_iff
      (not_kindDiffers hbyte (by decide) (by decide) (by decide))
  rw [if_neg htrue]
  by_cases hfalse : ch = ascii 'f'
  · subst hfalse
    rw [if_pos rfl, if_neg (by decide), if_neg (by decide), if_neg (by decide), if_neg (by decide),
      if_pos rfl, scanLiteral_eq]
    exact (hleaf (.boolean false) _).of_iff
      (not_kindDiffers hbyte (by decide) (by decide) (by decide))
  rw [if_neg hfalse]
  by_cases hquote : ch = quote
  · subst hquote
    rw [if_pos rfl, if_neg (by decide), if_pos rfl]
    refine ((string_same hutf8).map ?_).of_iff ?_
    · rintro ⟨text, after⟩ _ rfl
      exact ⟨rfl, rfl, (max_eq_left (Nat.zero_le before)).symm⟩
    constructor
    · rintro (hdiffers | ⟨depth, value, differs, -, ⟨hbegin, -⟩ | ⟨hbegin, -⟩⟩)
      · exact hdiffers
      all_goals exact absurd (Option.some.inj (hbyte.symm.trans hbegin)) (by decide)
    · exact .inl
  rw [if_neg hquote]
  by_cases hnumber : ch = minus ∨ isDigit ch = true
  · have hbracket : ch ≠ openBracket := by
      rintro rfl
      exact absurd hnumber (by decide)
    have hbrace : ch ≠ openBrace := by
      rintro rfl
      exact absurd hnumber (by decide)
    rw [if_pos hnumber, if_neg (by simp [hbracket, hbrace]), if_neg hquote, if_pos hnumber, scanNumber_eq]
    refine ((SameUnless.refl (number cursor)).map ?_).of_iff
      (not_kindDiffers hbyte hquote hbracket hbrace)
    rintro finish _ rfl
    exact ⟨rfl, rfl, (max_eq_left (Nat.zero_le before)).symm⟩
  rw [if_neg hnumber]
  by_cases hbracket : ch = openBracket
  · subst hbracket
    rw [if_pos rfl, if_pos (.inr rfl)]
    cases hnested with
    | none =>
      refine (SameUnless.error _).of_iff (iff_false_intro ?_)
      rintro (⟨hbegin, -⟩ | ⟨depth, value, differs, hnone, -⟩)
      · exact absurd (Option.some.inj (hbyte.symm.trans hbegin)) (by decide)
      · cases hnone
    | @some depth value scanValue differs hvalue hsame =>
      refine nested_same (fun _ hbegun => items_same (by decide) hutf8 (by decide) hbyte hbegun
        (passes_arrayStep hvalue) fun hbetween => arrayStep_same hvalue hsame hbetween) ?_
      constructor
      · rintro (⟨hbegin, -⟩ | ⟨_, _, _, ⟨⟩, ⟨-, hdiffers⟩ | ⟨hbegin, -⟩⟩)
        · exact absurd (Option.some.inj (hbyte.symm.trans hbegin)) (by decide)
        · exact hdiffers
        · exact absurd (Option.some.inj (hbyte.symm.trans hbegin)) (by decide)
      · exact fun hdiffers => .inr ⟨depth, value, differs, rfl, .inl ⟨hbyte, hdiffers⟩⟩
  rw [if_neg hbracket]
  by_cases hbrace : ch = openBrace
  · subst hbrace
    rw [if_pos rfl, if_pos (.inl rfl)]
    cases hnested with
    | none =>
      refine (SameUnless.error _).of_iff (iff_false_intro ?_)
      rintro (⟨hbegin, -⟩ | ⟨depth, value, differs, hnone, -⟩)
      · exact absurd (Option.some.inj (hbyte.symm.trans hbegin)) (by decide)
      · cases hnone
    | @some depth value scanValue differs hvalue hsame =>
      refine nested_same (fun _ hbegun => items_same (by decide) hutf8 (by decide) hbyte hbegun
        (passes_objectStep hvalue) fun hbetween => objectStep_same hvalue hsame hbetween) ?_
      constructor
      · rintro (⟨hbegin, -⟩ | ⟨_, _, _, ⟨⟩, ⟨hbegin, -⟩ | ⟨-, hdiffers⟩⟩)
        · exact absurd (Option.some.inj (hbyte.symm.trans hbegin)) (by decide)
        · exact absurd (Option.some.inj (hbyte.symm.trans hbegin)) (by decide)
        · exact hdiffers
      · exact fun hdiffers => .inr ⟨depth, value, differs, rfl, .inr ⟨hbyte, hdiffers⟩⟩
  rw [if_neg hbrace, if_neg (by simp [hbracket, hbrace]), if_neg hquote, if_neg hnumber,
    if_neg htrue, if_neg hfalse, if_neg hnull]
  exact (SameUnless.error _).of_iff (not_kindDiffers hbyte hquote hbracket hbrace)

/-- Where a value is begun: at the end of the text when no more values may be counted, or in the
value. -/
def ValueDiffersAt
    (nested : Option (ℕ × (Parser → Except JsonError (JsonNode × Parser)) × (Parser → Prop)))
    (parser : Parser) : Prop :=
  let cursor := skipSpace parser.cursor
  if parser.values ≥ maxValues then cursor.rest = []
  else KindDiffers nested { cursor, values := parser.values + 1 }

theorem valueAt_same {read : Option (ℕ × (Parser → Except JsonError (JsonNode × Parser)))}
    {scanned : Option (ℕ × (Scan → Except JsonError Scan))}
    (hnested : NestedSame read scanned nested) :
    ValuesSame (valueAt read) (scanValueAt scanned) (ValueDiffersAt nested) := by
  rintro before ⟨start, values⟩ scan hstart h
  obtain rfl := h.eq
  have hutf8 : IsUtf8 (skipSpace start).rest := (forward_skipSpace start).utf8 hstart
  unfold valueAt scanValueAt ValueDiffersAt
  dsimp only
  generalize skipSpace start = cursor at hutf8
  cases hbyte : cursor.byte with
  | none =>
    have hend : cursor.rest = [] := List.head?_eq_none_iff.mp hbyte
    by_cases hvalues : values ≥ maxValues
    · rw [if_pos hvalues, if_pos hvalues]
      refine (SameUnless.different ?_).of_iff (iff_true_intro hend)
      simp
    have hkind : valueKind read ⟨cursor, values + 1⟩ = fail .syntaxError cursor.len := by
      unfold valueKind
      simp only [hbyte]
    rw [if_neg hvalues, if_neg hvalues, hkind]
    refine (SameUnless.error _).of_iff (iff_false_intro ?_)
    rintro (⟨hbegin, -⟩ | ⟨depth, value, differs, -, ⟨hbegin, -⟩ | ⟨hbegin, -⟩⟩)
    all_goals cases hbyte.symm.trans hbegin
  | some ch =>
    have hnotEnd : cursor.rest ≠ [] := by
      intro hend
      cases hbyte.symm.trans (List.head?_eq_none_iff.mpr hend)
    dsimp only
    by_cases hvalues : values ≥ maxValues
    · rw [if_pos hvalues, if_pos hvalues, if_pos hvalues]
      exact (SameUnless.error _).of_iff (iff_false_intro hnotEnd)
    rw [if_neg hvalues, if_neg hvalues, if_neg hvalues,
      ← bind_pure (scanKind scanned ch ⟨cursor, before, values + 1⟩)]
    refine (kind_same hnested hbyte hutf8 ⟨rfl, rfl, rfl⟩).map ?_
    rintro ⟨value, maxDepth, finished⟩ after hafter
    exact hafter

/-- Where a value is begun, with the levels that are left below it. -/
def ValueDiffers : ℕ → Parser → Prop
  | 0 => ValueDiffersAt none
  | levels + 1 => ValueDiffersAt (some (maxDepth - levels, value levels, ValueDiffers levels))

/-- **Values.** -/
theorem value_same (levels : ℕ) :
    ValuesSame (value levels) (scanValue levels) (ValueDiffers levels) := by
  induction levels with
  | zero => exact valueAt_same .none
  | succ levels ih => exact valueAt_same (.some (readsForward_value levels) ih)

/-! ## Counting values -/

namespace Wasm

theorem values_afterItem {α : Type} {close : UInt8} {items : List α} {maxDepth : ℕ}
    {result : List α × ℕ × Parser ⊕ List α × ℕ × Parser}
    (h : afterItem close items maxDepth parser = .ok result) :
    (Sum.elim id id result).2.2.values = parser.values := by
  unfold afterItem expect fail at h
  dsimp only at h
  split at h
  case h_1 cursor hcursor =>
    cases h
    rfl
  case h_2 cursor hcursor =>
    split_ifs at h
    · cases h
      rfl
    · cases h

/-- A reader of values counts those it begins. -/
def Counts (value : Parser → Except JsonError (JsonNode × Parser)) : Prop :=
  ∀ parser node finish, value parser = .ok (node, finish) →
    parser.values ≤ finish.values ∧ node.values + parser.values = finish.values

section

variable {value : Parser → Except JsonError (JsonNode × Parser)}

theorem values_arrayStep (hvalue : Counts value) {state : List JsonNode × ℕ × Parser}
    {result : List JsonNode × ℕ × Parser ⊕ List JsonNode × ℕ × Parser}
    (h : arrayStep value state = .ok result) :
    state.2.2.values ≤ (Sum.elim id id result).2.2.values := by
  obtain ⟨items, maxDepth, parser⟩ := state
  obtain ⟨⟨node, finish⟩, hnode, h⟩ := bind_eq_ok.mp h
  exact (hvalue _ _ _ hnode).1.trans (values_afterItem h).ge

theorem values_objectStep (hvalue : Counts value) {state : List (List UInt8 × JsonNode) × ℕ × Parser}
    {result : List (List UInt8 × JsonNode) × ℕ × Parser ⊕ List (List UInt8 × JsonNode) × ℕ × Parser}
    (h : objectStep value state = .ok result) :
    state.2.2.values ≤ (Sum.elim id id result).2.2.values := by
  obtain ⟨key, keyEnd, start, node, finish, -, -, hnode, h⟩ := objectStep_ok h
  exact (hvalue _ _ _ hnode).1.trans (values_afterItem h).ge

theorem values_items {α : Type} {close : UInt8}
    {step : List α × ℕ × Parser → Except JsonError (List α × ℕ × Parser ⊕ List α × ℕ × Parser)}
    {depth : ℕ} {result : List α × ℕ × Parser}
    (hstep : ∀ {state result}, step state = .ok result →
      state.2.2.values ≤ (Sum.elim id id result).2.2.values)
    (h : items close step depth parser = .ok result) : parser.values ≤ result.2.2.values :=
  items_ok (fun state => parser.values ≤ state.2.2.values) h le_rfl (fun _ _ => le_rfl)
    fun _ _ hle hnext => hle.trans (hstep hnext)

end

theorem values_valueKind {nested : Option (ℕ × (Parser → Except JsonError (JsonNode × Parser)))}
    (hnested : ∀ depth value, nested = some (depth, value) → Counts value)
    {result : JsonNodeValue × ℕ × Parser} (h : valueKind nested parser = .ok result) :
    parser.values ≤ result.2.2.values := by
  unfold valueKind fail at h
  dsimp only at h
  split at h
  case h_1 => cases h
  case h_2 byte hbyte =>
    split_ifs at h
    all_goals try
      obtain ⟨after, -, h⟩ := bind_eq_ok.mp h
      cases h
      exact le_rfl
    · split at h
      case h_1 => cases h
      case h_2 depth value =>
        obtain ⟨read, hread, h⟩ := bind_eq_ok.mp h
        cases h
        exact values_items (values_arrayStep (hnested depth value rfl)) hread
    · split at h
      case h_1 => cases h
      case h_2 depth value =>
        obtain ⟨read, hread, h⟩ := bind_eq_ok.mp h
        cases h
        exact values_items (values_objectStep (hnested depth value rfl)) hread

theorem counts_valueAt {nested : Option (ℕ × (Parser → Except JsonError (JsonNode × Parser)))}
    (hnested : ∀ depth value, nested = some (depth, value) → Counts value) :
    Counts (valueAt nested) := by
  rintro parser node finish h
  unfold valueAt fail at h
  dsimp only at h
  split_ifs at h
  obtain ⟨⟨kind, maxDepth, finished⟩, hkind, h⟩ := bind_eq_ok.mp h
  cases h
  have hle : parser.values + 1 ≤ finished.values := values_valueKind hnested hkind
  constructor
  · exact (Nat.le_succ _).trans hle
  · show finished.values - (parser.values + 1) + 1 + parser.values = finished.values
    omega

theorem counts_value (levels : ℕ) : Counts (value levels) := by
  induction levels with
  | zero => exact counts_valueAt nofun
  | succ levels ih =>
    refine counts_valueAt ?_
    rintro depth value hnested
    cases hnested
    exact ih

end Wasm

/-! ## Texts -/

/-- The text brings the parser to a short pair, or to its end where a value should begin that may not
be counted. -/
def Differs (text : List UInt8) : Prop :=
  text.length ≤ maxBytes ∧ ValueDiffers maxDepth { cursor := { index := 0, rest := text }, values := 0 }

/-- **Texts.** -/
theorem validate_same {text : List UInt8} (hutf8 : IsUtf8 text) :
    SameUnless (Differs text)
      (fun node scan => node.raw = text ∧ scan.maxDepth = node.maxDepth ∧ scan.values = node.values)
      (parse text) (validate text) := by
  unfold parse validate
  by_cases hlength : text.length > maxBytes
  · rw [if_pos hlength, if_pos hlength]
    exact (SameUnless.error _).of_iff (iff_false_intro fun hdiffers => absurd hdiffers.1 (by omega))
  rw [if_neg hlength, if_neg hlength]
  have hvalue := value_same maxDepth 0 { cursor := { index := 0, rest := text }, values := 0 }
    { cursor := { index := 0, rest := text }, maxDepth := 0, values := 0 } hutf8 ⟨rfl, rfl, rfl⟩
  have hend : ∀ result scan,
      value maxDepth { cursor := { index := 0, rest := text }, values := 0 } = .ok result →
      scanValue maxDepth { cursor := { index := 0, rest := text }, maxDepth := 0, values := 0 } = .ok scan →
      Beside (max 0 result.1.maxDepth) result.2 scan →
      SameUnless False
        (fun (node : JsonNode) (scan : Scan) =>
          node.raw = text ∧ scan.maxDepth = node.maxDepth ∧ scan.values = node.values)
        (if (skipSpace result.2.cursor).rest ≠ [] then
          fail .syntaxError (skipSpace result.2.cursor).index
        else .ok (.mk text result.1.value result.1.maxDepth result.1.values))
        (if (skipSpace scan.cursor).rest ≠ [] then fail .syntaxError (skipSpace scan.cursor).index
        else .ok { scan with cursor := skipSpace scan.cursor }) := by
    rintro ⟨node, parser⟩ scan hnode - ⟨hcursor, hvalues, hdepth⟩
    have hcount : node.values + 0 = parser.values := (counts_value maxDepth _ _ _ hnode).2
    rw [hcursor]
    by_cases hrest : (skipSpace parser.cursor).rest ≠ []
    · rw [if_pos hrest, if_pos hrest]
      exact .error _
    · rw [if_neg hrest, if_neg hrest]
      exact .ok ⟨rfl, hdepth.trans (Nat.zero_max _), hvalues.trans hcount.symm⟩
  refine (hvalue.bind hend).of_iff ?_
  unfold Differs
  simp only [and_false, exists_false, or_false]
  exact and_iff_right (Nat.le_of_not_lt hlength)

/-! ## The runtimes -/

/-- The runtimes do the same with a text: both take it as the text of a value, of the same depth and
with as many values inside of it, or both refuse it with the same error at the same offset. -/
def Agree (text : List UInt8) : Prop :=
  (∃ node scan, parse text = .ok node ∧ validate (cString text) = .ok scan ∧ node.raw = cString text ∧
    scan.maxDepth = node.maxDepth ∧ scan.values = node.values) ∨
  ∃ error, parse text = .error error ∧ validate (cString text) = .error error

theorem cString_eq {text : List UInt8} (h : ∀ byte ∈ text, byte ≠ 0) : cString text = text :=
  List.takeWhile_eq_self_iff.mpr fun byte hbyte => decide_eq_true (h byte hbyte)

theorem not_agree_of_differs {text : List UInt8} (hutf8 : IsUtf8 text)
    (hnul : ∀ byte ∈ text, byte ≠ 0) (h : Differs text) : ¬ Agree text := by
  obtain ⟨error, error', hparse, hvalidate, hne⟩ := (validate_same hutf8).differs h
  unfold Agree
  rw [cString_eq hnul]
  rintro (⟨node, scan, hok, -⟩ | ⟨same, hparse', hvalidate'⟩)
  · cases hparse.symm.trans hok
  · refine hne ?_
    rw [Except.error.inj (hparse.symm.trans hparse'), Except.error.inj (hvalidate.symm.trans hvalidate')]

theorem IsUtf8.of_forall_ascii {text : List UInt8} (h : ∀ byte ∈ text, byte < 0x80) : IsUtf8 text := by
  refine ⟨text.map UInt8.toNat, ?_, ?_⟩
  · simp only [List.mem_map]
    rintro _ ⟨byte, hbyte, rfl⟩
    have hlt : byte.toNat < 0x80 := UInt8.lt_iff_toNat_lt.mp (h byte hbyte)
    constructor <;> omega
  · induction text with
    | nil => rfl
    | cons byte text ih =>
      obtain ⟨hbyte, htext⟩ := List.forall_mem_cons.mp h
      have hlt : byte.toNat < 0x80 := UInt8.lt_iff_toNat_lt.mp hbyte
      rw [List.map_cons, List.flatMap_cons, ← ih htext, encodeUtf8_of_ascii (by omega)]
      simp

/-- A high surrogate, and a second escape that the text ends in. -/
def shortPairText : List UInt8 := asciiText "\"\\ud800\\u12"

theorem samples_ascii :
    (∀ byte ∈ asciiText "[1, \"\\ud83d\\ude00\"]", byte < 0x80 ∧ byte ≠ 0) ∧
      ∀ byte ∈ shortPairText, byte < 0x80 ∧ byte ≠ 0 := by
  decide +kernel

theorem shortPairText_differs : Differs shortPairText := by
  have hhex : hex4 { index := 3, rest := asciiText "d800\\u12" } =
      .ok (0xd800, { index := 7, rest := asciiText "\\u12" }) := by
    decide +kernel
  refine ⟨by decide +kernel, .inl ⟨by decide +kernel, .here ⟨by decide +kernel, by decide +kernel, ?_⟩⟩⟩
  exact ⟨0xd800, _, hhex, by decide, by decide, by decide +kernel, by decide +kernel, by decide +kernel⟩

end Nomo.Json
