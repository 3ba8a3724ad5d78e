import Nomo.Cron.Native
import Nomo.Cron.Field

/-!
# Where the two cron runtimes agree

The calendar and the search are the same computation, so the runtimes agree on an expression if its
parse has the same outcome in both. The parsers differ in two ways. The C parser reads a number from
the left and reports an overflow at once, while the WASM parser first looks whether all bytes are
digits, and whether both sides of a range are there (`MemberDiverges`). And the C parser also takes a
vertical tab for a space.
-/

namespace Nomo.Cron

open Nomo.Lib Nomo.Lib.Checked Wasm

/-! ## How results differ -/

/-- The results are the same, but for a condition under which the C runtime reports a range and the
WASM runtime bad syntax. -/
structure DifferWhen {α : Type} (differ : Prop) (native wasm : Except String α) : Prop where
  same : ¬ differ → native = wasm
  native_eq : differ → native = .error "range"
  wasm_eq : differ → wasm = .error "syntax"

namespace DifferWhen

variable {α β : Type} {differ : Prop} {native wasm : Except String α}

theorem refl (x : Except String α) : DifferWhen False x x := ⟨fun _ => rfl, nofun, nofun⟩

theorem of_iff {differ' : Prop} (h : DifferWhen differ native wasm) (hiff : differ' ↔ differ) :
    DifferWhen differ' native wasm := by
  constructor
  · exact fun hsame => h.same (mt hiff.mpr hsame)
  · exact fun hdiffer => h.native_eq (hiff.mp hdiffer)
  · exact fun hdiffer => h.wasm_eq (hiff.mp hdiffer)

/-- A sequence differs in its first part, or, if that succeeds, in the rest. -/
theorem bind {f g : α → Except String β} {rest : α → Prop} (h : DifferWhen differ native wasm)
    (hrest : ∀ a, wasm = .ok a → DifferWhen (rest a) (f a) (g a)) :
    DifferWhen (differ ∨ ∃ a, wasm = .ok a ∧ rest a) (native >>= f) (wasm >>= g) := by
  constructor
  · intro hnot
    rw [not_or, not_exists] at hnot
    rw [h.same hnot.1]
    cases hwasm : wasm with
    | error message => rfl
    | ok a => exact (hrest a hwasm).same fun ha => hnot.2 a ⟨hwasm, ha⟩
  · rintro (hdiffer | ⟨a, hwasm, ha⟩)
    · rw [h.native_eq hdiffer]
      rfl
    have hsame : native = wasm := h.same fun hdiffer => by
      rw [h.wasm_eq hdiffer] at hwasm
      cases hwasm
    rw [hsame, hwasm]
    exact (hrest a hwasm).native_eq ha
  · rintro (hdiffer | ⟨a, hwasm, ha⟩)
    · rw [h.wasm_eq hdiffer]
      rfl
    · rw [hwasm]
      exact (hrest a hwasm).wasm_eq ha

theorem bind_same {f g : α → Except String β} {rest : α → Prop} (x : Except String α)
    (hrest : ∀ a, x = .ok a → DifferWhen (rest a) (f a) (g a)) :
    DifferWhen (∃ a, x = .ok a ∧ rest a) (x >>= f) (x >>= g) :=
  ((refl x).bind hrest).of_iff (by simp)

theorem bind_rest (f : α → Except String β) (h : DifferWhen differ native wasm) :
    DifferWhen differ (native >>= f) (wasm >>= f) :=
  (h.bind fun a _ => refl (f a)).of_iff (by simp)

end DifferWhen

/-! ## Numbers -/

/-- The number that digits stand for, after digits read before. -/
def valueFrom (n : ℕ) (digits : List UInt8) : ℕ :=
  digits.foldl (fun n byte => n * 10 + digitValue byte) n

theorem le_valueFrom (n : ℕ) (digits : List UInt8) : n ≤ valueFrom n digits := by
  induction digits generalizing n with
  | nil => exact le_refl n
  | cons byte rest ih =>
    have hstep : n ≤ n * 10 + digitValue byte := by omega
    exact hstep.trans (ih _)

/-- The digits that a text begins with. -/
def leadingDigits (text : List UInt8) : List UInt8 := text.takeWhile isDigit

/-- The number overflows before a byte that is no digit. -/
def UintDiverges (text : List UInt8) : Prop :=
  leadingDigits text ≠ text ∧ 2 ^ 64 ≤ value (leadingDigits text)

instance (text : List UInt8) : Decidable (UintDiverges text) :=
  inferInstanceAs (Decidable (_ ∧ _))

/-- What the C loop finds: an overflow of the leading digits, else a byte that is no digit, else a
number. -/
theorem parseUintLoop_eq {parsed : ℕ} (text : List UInt8) (h : parsed < 2 ^ 64) :
    Native.parseUintLoop parsed text =
      if 2 ^ 64 ≤ valueFrom parsed (leadingDigits text) then .error "range"
      else if leadingDigits text = text then .ok (valueFrom parsed text) else .error "syntax" := by
  induction text generalizing parsed with
  | nil =>
    have hno : ¬ 2 ^ 64 ≤ valueFrom parsed (leadingDigits []) := by
      show ¬ 2 ^ 64 ≤ parsed
      omega
    rw [if_neg hno]
    rfl
  | cons byte rest ih =>
    rw [Native.parseUintLoop]
    cases hdigit : isDigit byte with
    | false =>
      have hnone : leadingDigits (byte :: rest) = [] := by simp [leadingDigits, hdigit]
      rw [hnone]
      have hno : ¬ 2 ^ 64 ≤ valueFrom parsed [] := by
        show ¬ 2 ^ 64 ≤ parsed
        omega
      rw [if_neg hno]
      simp
    | true =>
      have hsome : leadingDigits (byte :: rest) = byte :: leadingDigits rest := by
        simp [leadingDigits, hdigit]
      have hvalue : valueFrom parsed (leadingDigits (byte :: rest)) =
          valueFrom (parsed * 10 + digitValue byte) (leadingDigits rest) := by
        rw [hsome]
        rfl
      have hsmall : digitValue byte ≤ 9 := by
        have hle : byte ≤ 57 := by
          simp only [isDigit, Bool.and_eq_true, decide_eq_true_eq] at hdigit
          exact hdigit.2
        have hnat : byte.toNat ≤ 57 := hle
        unfold digitValue
        omega
      rw [hvalue]
      simp only [if_true]
      by_cases hover : parsed > (Native.uint64Max - digitValue byte) / 10
      · have hbig : 2 ^ 64 ≤ parsed * 10 + digitValue byte := by
          unfold Native.uint64Max at hover
          omega
        rw [if_pos hover, if_pos (hbig.trans (le_valueFrom _ _))]
      · have hfits : parsed * 10 + digitValue byte < 2 ^ 64 := by
          unfold Native.uint64Max at hover
          omega
        rw [if_neg hover, ih hfits, hsome]
        simp only [List.cons.injEq, true_and]
        rfl

theorem leadingDigits_eq_self {text : List UInt8} :
    leadingDigits text = text ↔ text.all isDigit = true := by
  rw [leadingDigits, List.takeWhile_eq_self_iff, List.all_eq_true]

theorem parseUnsigned_of_digits {text : List UInt8} (hne : text ≠ [])
    (hdigits : text.all isDigit = true) :
    parseUnsigned text = if 2 ^ 64 ≤ value text then .error "range" else .ok (value text) := by
  rw [parseUnsigned, require, if_pos ⟨hne, hdigits⟩]
  split_ifs with hbig
  · rw [require, if_neg (not_lt.mpr hbig)]
    rfl
  · rw [require, if_pos (not_le.mp hbig)]
    rfl

theorem parseUnsigned_of_not_digits {text : List UInt8} (hdigits : ¬ text.all isDigit = true) :
    parseUnsigned text = .error "syntax" := by
  rw [parseUnsigned, require, if_neg fun h => hdigits h.2]
  rfl

/-- **Numbers.** The runtimes differ where the number overflows before a byte that is no digit. -/
theorem parseUint_differ (text : List UInt8) :
    DifferWhen (UintDiverges text) (Native.parseUint text) (parseUnsigned text) := by
  by_cases hne : text = []
  · subst hne
    exact (DifferWhen.refl _).of_iff (by simp [UintDiverges, leadingDigits])
  have hnative : Native.parseUint text =
      if 2 ^ 64 ≤ value (leadingDigits text) then .error "range"
      else if leadingDigits text = text then .ok (value text) else .error "syntax" := by
    rw [Native.parseUint, if_neg (by simpa using hne)]
    exact parseUintLoop_eq text (by decide)
  by_cases hall : leadingDigits text = text
  · have hsame : Native.parseUint text = parseUnsigned text := by
      rw [hnative, parseUnsigned_of_digits hne (leadingDigits_eq_self.mp hall), if_pos hall, hall]
    rw [hsame]
    exact (DifferWhen.refl _).of_iff (by simp [UintDiverges, hall])
  have hwasm := parseUnsigned_of_not_digits (mt leadingDigits_eq_self.mpr hall)
  constructor
  · intro hnot
    have hsmall : ¬ 2 ^ 64 ≤ value (leadingDigits text) := fun hbig => hnot ⟨hall, hbig⟩
    rw [hnative, if_neg hsmall, if_neg hall, hwasm]
  · rintro ⟨-, hbig⟩
    rw [hnative, if_pos hbig]
  · exact fun _ => hwasm

/-! ## Members -/

theorem onlyIndex_of_not_mem {byte : UInt8} {text : List UInt8} (h : byte ∉ text) (i : ℕ)
    (found : Option ℕ) : Native.onlyIndex byte i found text = .ok found := by
  induction text generalizing i with
  | nil => rfl
  | cons c rest ih =>
    have hc : ¬ c = byte := fun hc => h (hc ▸ List.mem_cons_self ..)
    unfold Native.onlyIndex
    rw [if_neg hc]
    exact ih (fun hmem => h (List.mem_cons_of_mem _ hmem)) (i + 1)

theorem onlyIndex_found {byte : UInt8} {text : List UInt8} (h : byte ∈ text) (i j : ℕ) :
    Native.onlyIndex byte i (some j) text = .error "syntax" := by
  induction text generalizing i with
  | nil => cases h
  | cons c rest ih =>
    rw [Native.onlyIndex]
    split_ifs with hc
    · rfl
    · exact ih ((List.mem_cons.mp h).resolve_left fun hb => hc hb.symm) (i + 1)

theorem onlyIndex_first {byte : UInt8} {left right : List UInt8} (hleft : byte ∉ left) (i : ℕ) :
    Native.onlyIndex byte i none (left ++ byte :: right) =
      Native.onlyIndex byte (i + left.length + 1) (some (i + left.length)) right := by
  induction left generalizing i with
  | nil =>
    rw [List.nil_append, Native.onlyIndex, if_pos rfl]
    rfl
  | cons c rest ih =>
    have hc : ¬ c = byte := fun hc => hleft (hc ▸ List.mem_cons_self ..)
    rw [List.cons_append, Native.onlyIndex, if_neg hc, ih (fun hmem => hleft (List.mem_cons_of_mem _ hmem)), List.length_cons]
    congr 2 <;> omega

/-- A range or a number that the runtimes read differently: in a range without its second part the C
runtime looks at the first. -/
def BaseDiverges (base : List UInt8) : Prop :=
  match base.splitOn 45 with
  | [_] => UintDiverges base
  | [left, right] =>
    if right = [] then 2 ^ 64 ≤ value (leadingDigits left)
    else UintDiverges left ∨ (IsNumber left ∧ UintDiverges right)
  | _ => False

instance (base : List UInt8) : Decidable (BaseDiverges base) := by
  unfold BaseDiverges IsNumber
  split <;> infer_instance

theorem parseUint_differ_first (left : List UInt8) :
    DifferWhen (2 ^ 64 ≤ value (leadingDigits left))
      (do let start ← Native.parseUint left
          let stop ← Native.parseUint []
          return (start, stop))
      (.error "syntax" : Except String (ℕ × ℕ)) := by
  have hdiffer := parseUint_differ left
  by_cases hbig : 2 ^ 64 ≤ value (leadingDigits left)
  · have hnative : Native.parseUint left = .error "range" := by
      by_cases hall : leadingDigits left = left
      · have hne : left ≠ [] := by
          rintro rfl
          exact absurd hbig (by decide)
        rw [hdiffer.same fun h => h.1 hall,
          parseUnsigned_of_digits hne (leadingDigits_eq_self.mp hall), ← hall, if_pos hbig]
      · exact hdiffer.native_eq ⟨hall, hbig⟩
    rw [hnative]
    exact ⟨fun h => absurd hbig h, fun _ => rfl, fun _ => rfl⟩
  · have hwasm : parseUnsigned left = .error "syntax" ∨ ∃ n, parseUnsigned left = .ok n := by
      by_cases hall : leadingDigits left = left
      · by_cases hne : left = []
        · subst hne
          exact .inl rfl
        · refine .inr ⟨value left, ?_⟩
          rw [parseUnsigned_of_digits hne (leadingDigits_eq_self.mp hall), ← hall, if_neg hbig]
      · exact .inl (parseUnsigned_of_not_digits (mt leadingDigits_eq_self.mpr hall))
    have hnative : (do
        let start ← Native.parseUint left
        let stop ← Native.parseUint []
        return (start, stop)) = (.error "syntax" : Except String (ℕ × ℕ)) := by
      rw [hdiffer.same fun h => hbig h.2]
      rcases hwasm with hwasm | ⟨n, hwasm⟩
      all_goals
        rw [hwasm]
        rfl
    rw [hnative]
    exact (DifferWhen.refl _).of_iff (iff_false_intro hbig)

theorem nativeParseBase_of_ne {base : List UInt8} {slash : Option ℕ} {minimum maximum : ℕ}
    (hstar : base ≠ [42]) : Native.parseBase base slash minimum maximum = (do
    match ← Native.onlyIndex 45 0 none base with
    | none =>
      require (slash = none) "syntax"
      let start ← Native.parseUint base
      return (start, start)
    | some dash =>
      let start ← Native.parseUint (base.take dash)
      let stop ← Native.parseUint (base.drop (dash + 1))
      return (start, stop)) := by
  refine if_neg ?_
  rintro ⟨hlength, hhead⟩
  obtain ⟨c, rfl⟩ := List.length_eq_one_iff.mp hlength
  simp only [List.head?_cons, Option.some.injEq] at hhead
  exact hstar (by rw [hhead])

theorem parseBase_of_ne {base : List UInt8} {stepText : Option (List UInt8)} {minimum maximum : ℕ}
    (hstar : base ≠ [42]) : parseBase base stepText minimum maximum = (do
    match ← splitRange base with
    | some (left, right) =>
      let start ← parseUnsigned left
      let stop ← parseUnsigned right
      return (start, stop)
    | none =>
      require (stepText = none) "syntax"
      let value ← parseUnsigned base
      return (value, value)) := if_neg hstar

theorem parseBase_differ (base : List UInt8) (slash : Option ℕ) (stepText : Option (List UInt8))
    (hstep : slash = none ↔ stepText = none) (minimum maximum : ℕ) :
    DifferWhen ((slash = none ∨ 45 ∈ base) ∧ BaseDiverges base)
      (Native.parseBase base slash minimum maximum)
      (parseBase base stepText minimum maximum) := by
  by_cases hstar : base = [42]
  · subst hstar
    have hsame : Native.parseBase [42] slash minimum maximum =
        parseBase [42] stepText minimum maximum := rfl
    rw [hsame]
    refine (DifferWhen.refl _).of_iff (iff_false_intro ?_)
    rintro ⟨-, hdiffer⟩
    revert hdiffer
    decide
  rw [nativeParseBase_of_ne hstar, parseBase_of_ne hstar]
  rcases separator_cases 45 base with hnone | ⟨left, right, rfl, hleft, hright⟩ |
    ⟨left, right, rfl, hleft, hright⟩
  · have hrange : splitRange base = .ok none := by
      rw [splitRange, List.splitOn_eq_singleton hnone]
    rw [onlyIndex_of_not_mem hnone, hrange]
    show DifferWhen _ (do
        require (slash = none) "syntax"
        let start ← Native.parseUint base
        return (start, start)) (do
        require (stepText = none) "syntax"
        let value ← parseUnsigned base
        return (value, value))
    have hrequire : require (slash = none) "syntax" = require (stepText = none) "syntax" := by
      unfold require
      simp only [hstep]
    rw [hrequire]
    refine (DifferWhen.bind_same _ fun _ _ => (parseUint_differ base).bind_rest _).of_iff ?_
    simp only [BaseDiverges, List.splitOn_eq_singleton hnone, hnone, or_false, hstep, require_eq_ok,
      exists_const]
  · have hindex : Native.onlyIndex 45 0 none (left ++ 45 :: right) = .ok (some left.length) := by
      rw [onlyIndex_first hleft, onlyIndex_of_not_mem hright, Nat.zero_add]
    have hmem : (45 : UInt8) ∈ left ++ 45 :: right := by simp
    rw [hindex]
    show DifferWhen _ (do
        let start ← Native.parseUint ((left ++ 45 :: right).take left.length)
        let stop ← Native.parseUint ((left ++ 45 :: right).drop (left.length + 1))
        return (start, stop)) _
    have hdrop : (left ++ 45 :: right).drop (left.length + 1) = right := by simp
    have hsplit := splitOn_one hleft hright
    rw [List.take_left, hdrop]
    simp only [BaseDiverges, hsplit, hmem, or_true, true_and]
    by_cases hempty : right = []
    · have hrange : splitRange (left ++ 45 :: right) = .error "syntax" := by
        rw [splitRange, hsplit]
        show require _ _ >>= _ = _
        rw [require, if_neg fun h => h.2.2 hempty]
        rfl
      rw [hrange, if_pos hempty, hempty]
      exact parseUint_differ_first left
    rw [if_neg hempty]
    by_cases hleading : left = []
    · subst hleading
      have hrange : splitRange ([] ++ 45 :: right) = .error "syntax" := by
        rw [splitRange, hsplit]
        rfl
      rw [hrange]
      refine (DifferWhen.refl (.error "syntax")).of_iff (iff_false_intro ?_)
      rintro (⟨h, -⟩ | ⟨⟨h, -⟩, -⟩)
      all_goals exact h rfl
    · have hrange : splitRange (left ++ 45 :: right) = .ok (some (left, right)) := by
        rw [splitRange, hsplit]
        show require _ _ >>= _ = _
        rw [require, if_pos ⟨rfl, hleading, hempty⟩]
        rfl
      rw [hrange]
      refine ((parseUint_differ left).bind fun start _ =>
        (parseUint_differ right).bind_rest fun stop => pure (start, stop)).of_iff ?_
      simp only [parseUnsigned_eq_ok]
      constructor
      · rintro (h | ⟨hnumber, h⟩)
        · exact .inl h
        · exact .inr ⟨_, ⟨hnumber, rfl⟩, h⟩
      · rintro (h | ⟨_, ⟨hnumber, -⟩, h⟩)
        · exact .inl h
        · exact .inr ⟨hnumber, h⟩
  · obtain ⟨second, third, rest, hsplit⟩ := splitOn_more hleft hright
    have hindex : Native.onlyIndex 45 0 none (left ++ 45 :: right) = .error "syntax" := by
      rw [onlyIndex_first hleft, onlyIndex_found hright]
    have hrange : splitRange (left ++ 45 :: right) = .error "syntax" := by
      rw [splitRange, hsplit]
      rfl
    rw [hindex, hrange]
    refine (DifferWhen.refl (.error "syntax")).of_iff (iff_false_intro ?_)
    simp [BaseDiverges, hsplit]

/-- A member that the runtimes read differently. The step is read first; without a step the base may
be a number. -/
def MemberDiverges (minimum maximum : ℕ) (text : List UInt8) : Prop :=
  match text.splitOn 47 with
  | [base] => BaseDiverges base
  | [base, step] => UintDiverges step ∨ (IsStep minimum maximum step ∧ 45 ∈ base ∧ BaseDiverges base)
  | _ => False

theorem setBits_eq {step stop : ℕ} (fuel value : ℕ) (mask : UInt64) (h : value ≤ stop) :
    Native.setBits step stop fuel value mask = setBits step stop fuel value mask := by
  induction fuel generalizing value mask with
  | zero => rfl
  | succ fuel ih =>
    rw [Native.setBits, Wasm.setBits, if_pos h]
    dsimp only
    split_ifs with hstep
    · rfl
    · exact ih _ _ (by omega)

theorem setRange_eq (step minimum maximum : ℕ) (mask : UInt64) (bounds : ℕ × ℕ) :
    Native.setRange step minimum maximum mask bounds =
      setRange step minimum maximum mask bounds := by
  rcases bounds with ⟨start, stop⟩
  unfold Native.setRange setRange require
  dsimp only
  split_ifs with h
  · rw [setBits_eq _ _ _ h.2.2.2.2]
  · rfl

variable {minimum maximum : ℕ}

theorem parseStep_differ (base step : List UInt8) (minimum maximum : ℕ) :
    DifferWhen (UintDiverges step)
      (Native.parseStep (base ++ 47 :: step) (some base.length) minimum maximum)
      (parseStep minimum maximum (some step)) := by
  have hdrop : (base ++ 47 :: step).drop (base.length + 1) = step := by simp
  unfold Native.parseStep parseStep
  dsimp only
  rw [hdrop]
  exact (parseUint_differ step).bind_rest _

/-- **Members.** The runtimes read the same bits or report the same error, except as said. -/
theorem parseMember_differ (text : List UInt8) (minimum maximum : ℕ) (mask : UInt64) :
    DifferWhen (MemberDiverges minimum maximum text)
      (Native.parseMember text minimum maximum mask) (parseMember text minimum maximum mask) := by
  unfold Native.parseMember parseMember MemberDiverges
  rcases separator_cases 47 text with hnone | ⟨base, step, rfl, hbase, hstep⟩ |
    ⟨base, more, rfl, hbase, hmore⟩
  · rw [onlyIndex_of_not_mem hnone, List.splitOn_eq_singleton hnone]
    show DifferWhen (BaseDiverges text)
      (Native.parseBase (text.take text.length) none minimum maximum >>=
        Native.setRange 1 minimum maximum mask)
      (parseBase text none minimum maximum >>= setRange 1 minimum maximum mask)
    have hrest : Native.setRange 1 minimum maximum mask = setRange 1 minimum maximum mask :=
      funext (setRange_eq 1 minimum maximum mask)
    rw [hrest, List.take_length]
    refine ((parseBase_differ text none none (by simp) minimum maximum).bind_rest _).of_iff ?_
    simp
  · have hindex : Native.onlyIndex 47 0 none (base ++ 47 :: step) = .ok (some base.length) := by
      rw [onlyIndex_first hbase, onlyIndex_of_not_mem hstep, Nat.zero_add]
    rw [hindex, splitOn_one hbase hstep]
    show DifferWhen
      (UintDiverges step ∨ (IsStep minimum maximum step ∧ 45 ∈ base ∧ BaseDiverges base))
      (Native.parseStep (base ++ 47 :: step) (some base.length) minimum maximum >>= fun n =>
        Native.parseBase ((base ++ 47 :: step).take base.length) (some base.length) minimum maximum >>=
          Native.setRange n minimum maximum mask)
      (parseStep minimum maximum (some step) >>= fun n =>
        parseBase base (some step) minimum maximum >>= setRange n minimum maximum mask)
    rw [List.take_left]
    have hrest (n) : DifferWhen (45 ∈ base ∧ BaseDiverges base)
        (Native.parseBase base (some base.length) minimum maximum >>=
          Native.setRange n minimum maximum mask)
        (parseBase base (some step) minimum maximum >>= setRange n minimum maximum mask) := by
      have hset : Native.setRange n minimum maximum mask = setRange n minimum maximum mask :=
        funext (setRange_eq n minimum maximum mask)
      rw [hset]
      refine ((parseBase_differ base _ _ ?_ minimum maximum).bind_rest _).of_iff ?_
      all_goals simp
    refine ((parseStep_differ base step minimum maximum).bind fun n _ => hrest n).of_iff ?_
    simp only [parseStep_eq_ok]
    constructor
    · rintro (h | ⟨hstep, h⟩)
      · exact .inl h
      · exact .inr ⟨_, ⟨hstep, rfl⟩, h⟩
    · rintro (h | ⟨_, ⟨hstep, -⟩, h⟩)
      · exact .inl h
      · exact .inr ⟨hstep, h⟩
  · obtain ⟨second, third, rest, hsplit⟩ := splitOn_more hbase hmore
    have hindex : Native.onlyIndex 47 0 none (base ++ 47 :: more) = .error "syntax" := by
      rw [onlyIndex_first hbase, onlyIndex_found hmore]
    rw [hindex, hsplit]
    exact DifferWhen.refl (.error "syntax")

/-! ## Fields -/

theorem bit_ne_zero (n : UInt64) : bit n ≠ 0 := by
  intro h
  have hnat := congrArg UInt64.toNat h
  have hpow : 2 ^ (n.toNat % 64) < 2 ^ 64 := Nat.pow_lt_pow_right (by decide) (Nat.mod_lt _ (by decide))
  rw [bit, UInt64.toNat_shiftLeft, UInt64.toNat_one, Nat.one_shiftLeft, Nat.mod_eq_of_lt hpow] at hnat
  exact absurd hnat (Nat.two_pow_pos _).ne'

theorem or_ne_zero {a b : UInt64} (h : a ≠ 0 ∨ b ≠ 0) : a ||| b ≠ 0 := by
  rw [ne_eq, UInt64.or_eq_zero_iff]
  tauto

variable {mask : UInt64}

theorem setBits_ne_zero {step stop value : ℕ} (fuel : ℕ) (h : mask ≠ 0) :
    setBits step stop fuel value mask ≠ 0 := by
  induction fuel generalizing value mask with
  | zero => exact h
  | succ fuel ih =>
    rw [setBits]
    split_ifs
    · exact or_ne_zero (.inl h)
    · exact ih (or_ne_zero (.inl h))

theorem parseMember_ne_zero {text : List UInt8} {mask' : UInt64}
    (h : parseMember text minimum maximum mask = .ok mask') : mask' ≠ 0 := by
  simp only [parseMember, bind_eq_ok] at h
  obtain ⟨_, -, step, -, ⟨start, stop⟩, -, hset⟩ := h
  simp only [setRange, bind_eq_ok, require_eq_ok, pure_eq_ok] at hset
  obtain ⟨_, -, rfl⟩ := hset
  rw [setBits]
  split_ifs
  · exact or_ne_zero (.inr (bit_ne_zero _))
  · exact setBits_ne_zero _ (or_ne_zero (.inr (bit_ne_zero _)))

theorem parseMembers_ne_zero {members : List (List UInt8)} {mask' : UInt64}
    (h : parseMembers minimum maximum members mask = .ok mask') (hmask : members ≠ [] ∨ mask ≠ 0) :
    mask' ≠ 0 := by
  induction members generalizing mask with
  | nil =>
    cases h
    exact hmask.resolve_left fun h => h rfl
  | cons member rest ih =>
    simp only [parseMembers, bind_eq_ok] at h
    obtain ⟨_, -, next, hmember, hrest⟩ := h
    exact ih hrest (.inr (parseMember_ne_zero hmember))

theorem isOk_bind_congr {α β γ : Type} (x : Except String α) {f : α → Except String β}
    {g : α → Except String γ} (h : ∀ a, (f a).isOk = (g a).isOk) :
    (x >>= f).isOk = (x >>= g).isOk := by
  cases x with
  | error message => rfl
  | ok a => exact h a

theorem parseMember_isOk (text : List UInt8) (minimum maximum : ℕ) (mask other : UInt64) :
    (parseMember text minimum maximum mask).isOk = (parseMember text minimum maximum other).isOk := by
  have hset : ∀ step bounds, (setRange step minimum maximum mask bounds).isOk =
      (setRange step minimum maximum other bounds).isOk := by
    rintro step ⟨start, stop⟩
    unfold setRange require
    dsimp only
    split_ifs <;> rfl
  exact isOk_bind_congr _ fun _ => isOk_bind_congr _ fun step => isOk_bind_congr _ fun bounds =>
    hset step bounds

/-- The first member that is not read is one that the runtimes read differently. -/
def MembersDiverge (minimum maximum : ℕ) : List (List UInt8) → Prop
  | [] => False
  | member :: rest => MemberDiverges minimum maximum member ∨
      ((parseMember member minimum maximum 0).isOk = true ∧ MembersDiverge minimum maximum rest)

/-- A field that the runtimes read differently. -/
def FieldDiverges (minimum maximum : ℕ) (text : List UInt8) : Prop :=
  MembersDiverge minimum maximum (text.splitOn 44)

theorem parseMembers_differ (minimum maximum : ℕ) (members : List (List UInt8)) (mask : UInt64) :
    DifferWhen (MembersDiverge minimum maximum members)
      (Native.parseMembers minimum maximum members mask)
      (parseMembers minimum maximum members mask) := by
  induction members generalizing mask with
  | nil => exact DifferWhen.refl _
  | cons member rest ih =>
    by_cases hempty : member = []
    · subst hempty
      refine (DifferWhen.refl (.error "syntax")).of_iff (iff_false_intro ?_)
      rintro (h | ⟨h, -⟩)
      · simp [MemberDiverges, BaseDiverges, UintDiverges, leadingDigits] at h
      · cases h
    have hnative : Native.parseMembers minimum maximum (member :: rest) mask =
        Native.parseMember member minimum maximum mask >>=
          Native.parseMembers minimum maximum rest :=
      if_neg (by simpa using hempty)
    have hwasm : parseMembers minimum maximum (member :: rest) mask =
        parseMember member minimum maximum mask >>= parseMembers minimum maximum rest := by
      rw [parseMembers, require, if_pos hempty]
      rfl
    rw [hnative, hwasm]
    refine ((parseMember_differ member minimum maximum mask).bind fun next _ => ih next).of_iff ?_
    rw [MembersDiverge, parseMember_isOk member minimum maximum 0 mask]
    cases parseMember member minimum maximum mask with
    | error message | ok next => simp [Except.isOk, Except.toBool]

/-- **Fields.** -/
theorem parseField_differ (text : List UInt8) (minimum maximum : ℕ) :
    DifferWhen (FieldDiverges minimum maximum text) (Native.parseField text minimum maximum)
      (parseField text minimum maximum) := by
  have hrest : ∀ mask, parseMembers minimum maximum (text.splitOn 44) 0 = .ok mask → DifferWhen False
        (do require (mask ≠ 0) Native.nullFailure
            return mask)
        (do require (mask ≠ 0) "syntax"
            return mask) := by
    intro mask hmask
    have hne := parseMembers_ne_zero hmask (.inl (List.splitOn_ne_nil 44 text))
    rw [require, require, if_pos hne, if_pos hne]
    exact DifferWhen.refl _
  exact ((parseMembers_differ minimum maximum (text.splitOn 44) 0).bind hrest).of_iff
    (by simp [FieldDiverges])

/-! ## Expressions -/

/-- A field in which the two runtimes stop with the same code. -/
def SameFault (minimum maximum : ℕ) (native wasm : List UInt8) : Prop :=
  ∃ code, Native.parseField native minimum maximum = .error code ∧
    parseField wasm minimum maximum = .error code

/-- The fields, of which the WASM runtime may cut longer words: up to the first that is not read, the
runtimes read the same, and both stop there for the same reason. -/
def FieldsAgree : List (ℕ × ℕ) → List (List UInt8) → List (List UInt8) → Prop
  | (minimum, maximum) :: bounds, native :: natives, wasm :: wasms =>
    if 11 ∈ wasm then SameFault minimum maximum native wasm
    else ¬ FieldDiverges minimum maximum wasm ∧
      ((parseField wasm minimum maximum).isOk = true → FieldsAgree bounds natives wasms)
  | _, _, _ => True

/-- The fields are read one after the other. -/
def fieldMasks (parse : List UInt8 → ℕ → ℕ → Except String UInt64) :
    ℕ → List (ℕ × ℕ) → List (List UInt8) → Except CronError (List UInt64)
  | field, (minimum, maximum) :: bounds, text :: rest =>
    match parse text minimum maximum with
    | .ok mask => (fieldMasks parse (field + 1) bounds rest).map (mask :: ·)
    | .error code => .error (cronError code field)
  | _, _, _ => .ok []

theorem parseFields_eq (bounds : List (ℕ × ℕ)) (tokens : List (List UInt8)) (field : ℕ)
    (masks : List UInt64) (h : tokens.length = bounds.length) :
    Native.parseFields field bounds tokens masks =
      (fieldMasks Native.parseField field bounds tokens).map (masks.reverse ++ ·) := by
  induction bounds generalizing tokens field masks with
  | nil =>
    obtain rfl := List.length_eq_zero_iff.mp h
    simp [Native.parseFields, fieldMasks, Except.map]
  | cons bound bounds ih =>
    obtain ⟨text, rest, rfl⟩ := List.exists_cons_of_length_eq_add_one h
    rw [Native.parseFields, fieldMasks]
    cases Native.parseField text bound.1 bound.2 with
    | error code => rfl
    | ok mask =>
      dsimp only
      rw [ih rest _ _ (by simpa using h)]
      cases fieldMasks Native.parseField (field + 1) bounds rest with
      | error error => rfl
      | ok masks' => simp [Except.map]

variable {bounds : List (ℕ × ℕ)}

theorem le_field_of_fieldMasks {parse : List UInt8 → ℕ → ℕ → Except String UInt64} {field : ℕ}
    {texts : List (List UInt8)} {error : CronError}
    (h : fieldMasks parse field bounds texts = .error error) : field ≤ error.field := by
  induction bounds generalizing field texts with
  | nil => cases h
  | cons bound bounds ih =>
    cases texts with
    | nil => cases h
    | cons text rest =>
      rw [fieldMasks] at h
      split at h
      · cases hrest : fieldMasks parse (field + 1) bounds rest with
        | ok masks =>
          rw [hrest] at h
          cases h
        | error other =>
          rw [hrest] at h
          cases h
          exact (Nat.le_succ field).trans (ih hrest)
      · cases h
        exact le_refl field

theorem field_lt_of_fieldMasks {parse : List UInt8 → ℕ → ℕ → Except String UInt64} {field : ℕ}
    {texts : List (List UInt8)} {error : CronError}
    (h : fieldMasks parse field bounds texts = .error error) :
    error.field < field + bounds.length := by
  induction bounds generalizing field texts with
  | nil => cases h
  | cons bound bounds ih =>
    cases texts with
    | nil => cases h
    | cons text rest =>
      rw [List.length_cons]
      rw [fieldMasks] at h
      split at h
      · cases hrest : fieldMasks parse (field + 1) bounds rest with
        | ok masks =>
          rw [hrest] at h
          cases h
        | error other =>
          rw [hrest] at h
          cases h
          have hlater := ih hrest
          omega
      · cases h
        show field < field + (bounds.length + 1)
        omega

theorem asciiSpace_eq (byte : UInt8) :
    Native.asciiSpace byte = (isAsciiWhitespace byte || byte == 11) := by
  rw [Bool.eq_iff_iff]
  simp only [Native.asciiSpace, isAsciiWhitespace, List.mem_cons, List.not_mem_nil, or_false,
    decide_eq_true_eq, Bool.or_eq_true, beq_iff_eq]
  tauto

theorem words_asciiSpace_of_word {word : List UInt8} (hne : word ≠ [])
    (hword : ∀ c ∈ word, isAsciiWhitespace c = false) (htab : 11 ∉ word) :
    words Native.asciiSpace word = [word] := by
  refine words_of_forall_not ?_ hne
  intro c hc
  rw [asciiSpace_eq, hword c hc]
  simp only [Bool.false_or, beq_eq_false_iff_ne]
  rintro rfl
  exact htab hc

/-! ## Vertical tabs -/

/-- The WASM runtime reads no member with a vertical tab. -/
theorem tab_not_mem_of_parseMember {text : List UInt8} {mask' : UInt64}
    (h : parseMember text minimum maximum mask = .ok mask') : 11 ∉ text := by
  have hnumber {a : List UInt8} (ha : IsNumber a) : 11 ∉ a := ha.not_mem rfl
  obtain ⟨first, last, step, hitem, -⟩ := item_of_parseMember h
  cases hitem with
  | all => decide
  | allStep hs => simp [hnumber hs.1]
  | number ha => exact hnumber ha
  | range ha hb => simp [hnumber ha, hnumber hb]
  | rangeStep ha hb _ hs => simp [hnumber ha, hnumber hb, hnumber hs.1]

theorem exists_error_of_tab {text : List UInt8} (htab : 11 ∈ text) (minimum maximum : ℕ) :
    ∃ code, parseField text minimum maximum = .error code := by
  have hmembers : ∀ members mask mask',
      parseMembers minimum maximum members mask = .ok mask' → ∀ member ∈ members, 11 ∉ member := by
    intro members
    induction members with
    | nil => exact fun _ _ _ _ => nofun
    | cons first rest ih =>
      intro mask mask' h
      simp only [parseMembers, bind_eq_ok] at h
      obtain ⟨_, -, next, hfirst, hrest⟩ := h
      exact List.forall_mem_cons.mpr ⟨tab_not_mem_of_parseMember hfirst, ih next mask' hrest⟩
  cases h : parseField text minimum maximum with
  | error code => exact ⟨code, rfl⟩
  | ok mask =>
    simp only [parseField, bind_eq_ok] at h
    obtain ⟨mask, hmask, -⟩ := h
    obtain ⟨member, hmember, hmem⟩ := exists_field_of_mem htab (show (11 : UInt8) ≠ 44 by decide)
    exact absurd hmem (hmembers _ _ _ hmask member hmember)

/-! ## Runs over the fields -/

/-- The words of the runtimes, of as many fields as there are bounds. -/
structure Aligned (bounds : List (ℕ × ℕ)) (natives wasms : List (List UInt8)) : Prop where
  natives_eq : natives = wasms.flatMap (words Native.asciiSpace)
  natives_length : natives.length = bounds.length
  wasms_length : wasms.length = bounds.length
  words : ∀ word ∈ wasms, word ≠ [] ∧ ∀ c ∈ word, isAsciiWhitespace c = false

variable {natives wasms : List (List UInt8)}

theorem Aligned.step {bound : ℕ × ℕ} {native wasm : List UInt8}
    (h : Aligned (bound :: bounds) (native :: natives) (wasm :: wasms)) (htab : 11 ∉ wasm) :
    native = wasm ∧ Aligned bounds natives wasms := by
  obtain ⟨hnatives, hnlength, hwlength, hwords⟩ := h
  obtain ⟨hne, hword⟩ := hwords wasm (List.mem_cons_self ..)
  rw [List.flatMap_cons, words_asciiSpace_of_word hne hword htab, List.singleton_append] at hnatives
  obtain ⟨rfl, rfl⟩ := List.cons.inj hnatives
  refine ⟨rfl, rfl, by simpa using hnlength, by simpa using hwlength, ?_⟩
  exact fun word hword => hwords word (List.mem_cons_of_mem _ hword)

theorem Aligned.exists_cons {bound : ℕ × ℕ} (h : Aligned (bound :: bounds) natives wasms) :
    ∃ native rest wasm rest', natives = native :: rest ∧ wasms = wasm :: rest' := by
  obtain ⟨native, rest, hnatives⟩ := List.exists_cons_of_length_eq_add_one h.natives_length
  obtain ⟨wasm, rest', hwasms⟩ := List.exists_cons_of_length_eq_add_one h.wasms_length
  exact ⟨native, rest, wasm, rest', hnatives, hwasms⟩

/-- Fields that agree have the same masks, or stop with the same error. -/
theorem fieldMasks_eq_of_agree (h : Aligned bounds natives wasms)
    (hagree : FieldsAgree bounds natives wasms) (field : ℕ) :
    fieldMasks Native.parseField field bounds natives = fieldMasks parseField field bounds wasms := by
  induction bounds generalizing natives wasms field with
  | nil => rfl
  | cons bound bounds ih =>
    obtain ⟨native, natives, wasm, wasms, rfl, rfl⟩ := h.exists_cons
    rw [FieldsAgree] at hagree
    rw [fieldMasks, fieldMasks]
    split_ifs at hagree with htab
    · obtain ⟨code, hnative, hwasm⟩ := hagree
      rw [hnative, hwasm]
    obtain ⟨rfl, hrest⟩ := h.step htab
    rw [(parseField_differ native bound.1 bound.2).same hagree.1]
    cases hparse : parseField native bound.1 bound.2 with
    | error code => rfl
    | ok mask =>
      have hagree' := hagree.2 (by rw [hparse]; rfl)
      dsimp only
      rw [ih hrest hagree' (field + 1)]

theorem agree_of_fieldMasks (h : Aligned bounds natives wasms) (field : ℕ)
    (hsame : (fieldMasks Native.parseField field bounds natives).map (fun _ => ()) = (fieldMasks parseField field bounds wasms).map fun _ => ()) :
    FieldsAgree bounds natives wasms := by
  induction bounds generalizing natives wasms field with
  | nil => trivial
  | cons bound bounds ih =>
    obtain ⟨native, natives, wasm, wasms, rfl, rfl⟩ := h.exists_cons
    rw [fieldMasks, fieldMasks] at hsame
    rw [FieldsAgree]
    split_ifs with htab
    · obtain ⟨code, hwasm⟩ := exists_error_of_tab htab bound.1 bound.2
      rw [hwasm] at hsame
      cases hnative : Native.parseField native bound.1 bound.2 with
      | error code' =>
        rw [hnative] at hsame
        have hcode := Except.error.inj hsame
        simp only [cronError, CronError.mk.injEq] at hcode
        exact ⟨code, hcode.1 ▸ hnative, hwasm⟩
      | ok mask =>
        -- The C runtime goes on: its error, if there is one, names a later field.
        exfalso
        rw [hnative] at hsame
        cases hrest : fieldMasks Native.parseField (field + 1) bounds natives with
        | ok masks =>
          simp only [hrest] at hsame
          cases hsame
        | error error =>
          simp only [hrest] at hsame
          have hlater := le_field_of_fieldMasks hrest
          have hfield : error.field = field := congrArg CronError.field (Except.error.inj hsame)
          omega
    · obtain ⟨rfl, hrest⟩ := h.step htab
      have hdiffer := parseField_differ native bound.1 bound.2
      have hnot : ¬ FieldDiverges bound.1 bound.2 native := by
        intro hdiverges
        rw [hdiffer.native_eq hdiverges, hdiffer.wasm_eq hdiverges] at hsame
        have hcode : "range" = "syntax" := congrArg CronError.code (Except.error.inj hsame)
        revert hcode
        decide
      refine ⟨hnot, fun hok => ih hrest (field + 1) ?_⟩
      rw [hdiffer.same hnot] at hsame
      cases hparse : parseField native bound.1 bound.2 with
      | error code =>
        rw [hparse] at hok
        cases hok
      | ok mask =>
        rw [hparse] at hsame
        cases hn : fieldMasks Native.parseField (field + 1) bounds natives <;>
          cases hw : fieldMasks parseField (field + 1) bounds wasms <;>
          simp only [hn, hw] at hsame <;> exact hsame

/-! ## The runtimes -/

/-- An expression on which the parses have the same outcome. It is too long, or not ASCII, or neither
runtime finds five fields, or both do and the fields agree. -/
def ParsesAgree (text : List UInt8) : Prop :=
  maxExpressionBytes < text.length ∨ text.any (· > 127) = true ∨
    ((words Native.asciiSpace text).length ≠ 5 ∧ (words isAsciiWhitespace text).length ≠ 5) ∨
    ((words Native.asciiSpace text).length = 5 ∧ (words isAsciiWhitespace text).length = 5 ∧
      FieldsAgree fieldBounds (words Native.asciiSpace text) (words isAsciiWhitespace text))

/-- The runtimes give the same answers, for every timestamp. -/
structure Agree (text : List UInt8) : Prop where
  parse : Native.parse text = parse text
  «matches» : ∀ unixMillis, Native.matches text unixMillis = Wasm.matches text unixMillis
  nextAfter : ∀ unixMillis, Native.nextAfter text unixMillis = nextAfter text unixMillis

theorem minuteMatches_eq (schedule : Schedule) (minuteIndex : Int64) :
    Native.minuteMatches schedule minuteIndex = minuteMatches schedule minuteIndex := by
  unfold Native.minuteMatches minuteMatches
  dsimp only
  congr 1
  by_cases hmonth : schedule.dayOfMonth = fullMask 1 31
  all_goals by_cases hweek : schedule.dayOfWeek = fullMask 0 6 <;> simp [hmonth, hweek]

theorem nextLoop_eq (schedule : Schedule) (remaining : ℕ) (candidate : Int64) :
    Native.nextLoop schedule remaining candidate = nextLoop schedule remaining candidate := by
  induction remaining generalizing candidate with
  | zero => rfl
  | succ remaining ih =>
    rw [Native.nextLoop, nextLoop, minuteMatches_eq, ih]
    by_cases hlast : candidate ≤ maxTimestampMillis / 60000
    · rw [if_pos hlast, if_neg (Int64.not_lt.mpr hlast)]
    · rw [if_neg hlast, if_pos (Int64.not_le.mp hlast)]

theorem agree_of_parseExpression {text : List UInt8}
    (h : Native.parseExpression text = parseSchedule text) : Agree text := by
  constructor
  · rw [Native.parse, parse, h]
    cases parseSchedule text <;> rfl
  · intro unixMillis
    rw [Native.matches, Wasm.matches, validateTimestamp, h]
    cases timestampValid unixMillis with
    | false => rfl
    | true =>
      cases parseSchedule text with
      | error error => rfl
      | ok schedule =>
        show Except.ok _ = Except.ok _
        rw [minuteMatches_eq]
  · intro unixMillis
    rw [Native.nextAfter, nextAfter, validateTimestamp, h]
    cases timestampValid unixMillis with
    | false => rfl
    | true =>
      cases parseSchedule text with
      | error error => rfl
      | ok schedule => exact nextLoop_eq schedule _ _

theorem parseSchedule_of_five {text : List UInt8} (hlimit : ¬ text.length > maxExpressionBytes)
    (hascii : ¬ text.any (· > 127) = true) (hfive : (words isAsciiWhitespace text).length = 5) :
    parseSchedule text =
      (fieldMasks parseField 0 fieldBounds (words isAsciiWhitespace text)).map Native.schedule := by
  unfold parseSchedule
  rw [if_neg hlimit, if_neg hascii]
  dsimp only
  rw [if_neg (not_not.mpr hfive)]
  obtain ⟨a, b, c, d, e, hwords⟩ : ∃ a b c d e, words isAsciiWhitespace text = [a, b, c, d, e] := by
    match words isAsciiWhitespace text, hfive with
    | [a, b, c, d, e], _ => exact ⟨a, b, c, d, e, rfl⟩
  rw [hwords]
  simp only [fieldMasks, fieldBounds, fieldOf, List.getD_cons_zero, List.getD_cons_succ]
  cases parseField a 0 59 with
  | error code => rfl
  | ok minute =>
    cases parseField b 0 23 with
    | error code => rfl
    | ok hour =>
      cases parseField c 1 31 with
      | error code => rfl
      | ok dayOfMonth =>
        cases parseField d 1 12 with
        | error code => rfl
        | ok month =>
          cases parseField e 0 6 with
          | error code | ok dayOfWeek => rfl

theorem aligned_words {text : List UInt8} (hnative : (words Native.asciiSpace text).length = 5)
    (hwasm : (words isAsciiWhitespace text).length = 5) :
    Aligned fieldBounds (words Native.asciiSpace text) (words isAsciiWhitespace text) := by
  constructor
  · refine words_eq_flatMap (fun c hc => ?_) text
    rw [asciiSpace_eq, hc]
    rfl
  · exact hnative
  · exact hwasm
  · exact fun word hword => not_space_of_mem_words hword

theorem takeWhile_eq_self {text : List UInt8} (hzero : 0 ∉ text) :
    text.takeWhile (· != 0) = text := by
  rw [List.takeWhile_eq_self_iff]
  intro c hc
  rw [bne_iff_ne]
  rintro rfl
  exact hzero hc

theorem parseExpression_eq {text : List UInt8} (hzero : 0 ∉ text)
    (hlimit : ¬ text.length > maxExpressionBytes) (hascii : ¬ text.any (· > 127) = true) :
    Native.parseExpression text =
      if (words Native.asciiSpace text).length ≠ 5 then .error (cronError "syntax" 5)
      else (fieldMasks Native.parseField 0 fieldBounds (words Native.asciiSpace text)).map
        Native.schedule := by
  rw [Native.parseExpression, takeWhile_eq_self hzero, if_neg hlimit, if_neg hascii]
  dsimp only
  split_ifs with hfive
  · rfl
  · rw [parseFields_eq _ _ _ _ (not_not.mp hfive)]
    cases fieldMasks Native.parseField 0 fieldBounds (words Native.asciiSpace text) <;> rfl

theorem fieldMasks_ne_syntax (parse : List UInt8 → ℕ → ℕ → Except String UInt64)
    (texts : List (List UInt8)) :
    ((fieldMasks parse 0 fieldBounds texts).map fun _ => ()) ≠ .error (cronError "syntax" 5) := by
  cases h : fieldMasks parse 0 fieldBounds texts with
  | ok masks => exact nofun
  | error error =>
    rintro ⟨⟩
    exact absurd (field_lt_of_fieldMasks h) (by decide)

theorem parse_eq_map (text : List UInt8) :
    Native.parse text = (Native.parseExpression text).map fun _ => () := by
  rw [Native.parse]
  cases Native.parseExpression text <;> rfl

/-- **Cron.** The runtimes agree on an expression without a zero byte if and only if its parses
agree. -/
theorem agree_iff_parsesAgree {text : List UInt8} (hzero : 0 ∉ text) :
    Agree text ↔ ParsesAgree text := by
  by_cases hlimit : text.length > maxExpressionBytes
  · refine iff_of_true (agree_of_parseExpression ?_) (.inl hlimit)
    rw [Native.parseExpression, takeWhile_eq_self hzero, parseSchedule, if_pos hlimit, if_pos hlimit]
  by_cases hascii : text.any (· > 127) = true
  · refine iff_of_true (agree_of_parseExpression ?_) (.inr (.inl hascii))
    rw [Native.parseExpression, takeWhile_eq_self hzero, parseSchedule, if_neg hlimit,
      if_neg hlimit, if_pos hascii, if_pos hascii]
  have hnative := parseExpression_eq hzero hlimit hascii
  by_cases hn : (words Native.asciiSpace text).length = 5
  · rw [if_neg (not_not.mpr hn)] at hnative
    by_cases hw : (words isAsciiWhitespace text).length = 5
    · have hwasm := parseSchedule_of_five hlimit hascii hw
      have haligned := aligned_words hn hw
      constructor
      · intro h
        refine .inr (.inr (.inr ⟨hn, hw, agree_of_fieldMasks haligned 0 ?_⟩))
        have hparse := h.parse
        rw [parse_eq_map, parse, hnative, hwasm] at hparse
        cases hleft : fieldMasks Native.parseField 0 fieldBounds (words Native.asciiSpace text) <;>
          cases hright : fieldMasks parseField 0 fieldBounds (words isAsciiWhitespace text) <;>
          rw [hleft, hright] at hparse <;> exact hparse
      · rintro (h | h | h | ⟨-, -, h⟩)
        · exact absurd h hlimit
        · exact absurd h hascii
        · exact absurd hn h.1
        · refine agree_of_parseExpression ?_
          rw [hnative, hwasm, fieldMasks_eq_of_agree haligned h 0]
    · -- Only the C runtime finds five fields.
      have hwasm : parseSchedule text = .error (cronError "syntax" 5) := by
        rw [parseSchedule, if_neg hlimit, if_neg hascii]
        exact if_pos hw
      refine iff_of_false (fun h => ?_) ?_
      · have hparse := h.parse
        rw [parse_eq_map, parse, hnative, hwasm] at hparse
        refine fieldMasks_ne_syntax Native.parseField (words Native.asciiSpace text) ?_
        cases hleft : fieldMasks Native.parseField 0 fieldBounds (words Native.asciiSpace text) <;>
          rw [hleft] at hparse <;> exact hparse
      · rintro (h | h | h | ⟨-, h, -⟩)
        · exact hlimit h
        · exact hascii h
        · exact h.1 hn
        · exact hw h
  · rw [if_pos hn] at hnative
    by_cases hw : (words isAsciiWhitespace text).length = 5
    · -- Only the WASM runtime finds five fields.
      have hwasm := parseSchedule_of_five hlimit hascii hw
      refine iff_of_false (fun h => ?_) ?_
      · have hparse := h.parse
        rw [parse_eq_map, parse, hnative, hwasm] at hparse
        refine fieldMasks_ne_syntax parseField (words isAsciiWhitespace text) ?_
        cases hright : fieldMasks parseField 0 fieldBounds (words isAsciiWhitespace text) <;>
          rw [hright] at hparse <;> exact hparse.symm
      · rintro (h | h | h | ⟨h, -, -⟩)
        · exact hlimit h
        · exact hascii h
        · exact h.2 hw
        · exact hn h
    · refine iff_of_true (agree_of_parseExpression ?_) (.inr (.inr (.inl ⟨hn, hw⟩)))
      rw [hnative, parseSchedule, if_neg hlimit, if_neg hascii]
      exact (if_pos hw).symm

/-! ## Where they do not -/

/-- `*`, a vertical tab, and four more stars. -/
def tabExpression : List UInt8 := [42, 11, 42, 32, 42, 32, 42, 32, 42]

/-- The C runtime reads five fields, and the WASM runtime four. -/
theorem tabExpression_not_agree : ¬ ∀ text : List UInt8, 0 ∉ text → Agree text := by
  intro h
  have hparse := (h tabExpression (by decide)).parse
  have hnative : Native.parse tabExpression = .ok () := by decide +kernel
  have hwasm : parse tabExpression = .error (cronError "syntax" 5) := by decide +kernel
  rw [hnative, hwasm] at hparse
  cases hparse

/-- Five stars. -/
theorem agree_iff_parsesAgree_stars : Agree [42, 32, 42, 32, 42, 32, 42, 32, 42] ↔
    ParsesAgree [42, 32, 42, 32, 42, 32, 42, 32, 42] :=
  agree_iff_parsesAgree (by decide)

end Nomo.Cron
