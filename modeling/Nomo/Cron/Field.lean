import Nomo.Cron.Wasm

/-!
# What a cron field denotes

A field of the WASM runtime is a list of items, each of which stands for the values from a first to a
last one in steps. The parser accepts exactly these fields, and its mask has the bits of their values
(`parseField_exact`).
-/

namespace Nomo.Cron

open Nomo.Lib Nomo.Lib.Checked Wasm

/-! ## Items -/

/-- A text of digits whose number fits. -/
def IsNumber (text : List UInt8) : Prop :=
  text ≠ [] ∧ text.all isDigit = true ∧ value text < 2 ^ 64

/-- The step is a number within its bounds. -/
def IsStep (minimum maximum : ℕ) (text : List UInt8) : Prop :=
  IsNumber text ∧ value text ≠ 0 ∧ value text ≤ maximum - minimum + 1

/-- Both are within the bounds. -/
def InBounds (minimum maximum first last : ℕ) : Prop :=
  minimum ≤ first ∧ first ≤ last ∧ last ≤ maximum

/-- An item of a field, with its first and last value and its step: `*`, `*/s`, `a`, `a-b` and
`a-b/s`. -/
inductive Item (minimum maximum : ℕ) : List UInt8 → ℕ → ℕ → ℕ → Prop
  | all : Item minimum maximum [42] minimum maximum 1
  | allStep {s : List UInt8} (hs : IsStep minimum maximum s) :
      Item minimum maximum (42 :: 47 :: s) minimum maximum (value s)
  | number {a : List UInt8} (ha : IsNumber a) (h : InBounds minimum maximum (value a) (value a)) :
      Item minimum maximum a (value a) (value a) 1
  | range {a b : List UInt8} (ha : IsNumber a) (hb : IsNumber b)
      (h : InBounds minimum maximum (value a) (value b)) :
      Item minimum maximum (a ++ 45 :: b) (value a) (value b) 1
  | rangeStep {a b s : List UInt8} (ha : IsNumber a) (hb : IsNumber b)
      (h : InBounds minimum maximum (value a) (value b)) (hs : IsStep minimum maximum s) :
      Item minimum maximum (a ++ 45 :: b ++ 47 :: s) (value a) (value b) (value s)

/-- The values from a first to a last one in steps. -/
def Denotes (first last step v : ℕ) : Prop := v ≤ last ∧ ∃ k, v = first + k * step

section

variable {minimum maximum : ℕ} {text : List UInt8}

theorem parseUnsigned_eq_ok {n : ℕ} :
    parseUnsigned text = .ok n ↔ IsNumber text ∧ value text = n := by
  unfold parseUnsigned IsNumber
  simp only [bind_eq_ok, require_eq_ok, pure_eq_ok, exists_const]
  tauto

theorem parseStep_eq_ok {n : ℕ} :
    parseStep minimum maximum (some text) = .ok n ↔
      IsStep minimum maximum text ∧ value text = n := by
  simp only [parseStep, bind_eq_ok, parseUnsigned_eq_ok, require_eq_ok, pure_eq_ok, IsStep]
  constructor
  · rintro ⟨_, ⟨hnumber, rfl⟩, _, hbounds, rfl⟩
    exact ⟨⟨hnumber, hbounds⟩, rfl⟩
  · rintro ⟨⟨hnumber, hbounds⟩, rfl⟩
    exact ⟨_, ⟨hnumber, rfl⟩, (), hbounds, rfl⟩

/-- A number has digits only. -/
theorem IsNumber.not_mem (h : IsNumber text) {byte : UInt8} (hbyte : isDigit byte = false) :
    byte ∉ text := fun hmem =>
  Bool.false_ne_true (hbyte.symm.trans (List.all_eq_true.mp h.2.1 byte hmem))

theorem eq_of_splitOn_pair {separator : UInt8} {left right : List UInt8}
    (h : text.splitOn separator = [left, right]) : text = left ++ separator :: right := by
  simpa [h, List.intercalate] using (List.intercalate_splitOn separator : _ = text).symm

theorem parseBase_eq_ok {base : List UInt8} {stepText : Option (List UInt8)} {first last : ℕ} :
    parseBase base stepText minimum maximum = .ok (first, last) ↔
      (base = [42] ∧ minimum = first ∧ maximum = last) ∨
      (stepText = none ∧ IsNumber base ∧ value base = first ∧ value base = last) ∨
      ∃ a b, base = a ++ 45 :: b ∧ IsNumber a ∧ IsNumber b ∧ value a = first ∧ value b = last := by
  constructor
  · intro h
    unfold parseBase at h
    split_ifs at h with hstar
    · cases h
      exact .inl ⟨hstar, rfl, rfl⟩
    rw [bind_eq_ok] at h
    obtain ⟨range, hrange, h⟩ := h
    cases range with
    | none =>
      simp only [bind_eq_ok, require_eq_ok, parseUnsigned_eq_ok, pure_eq_ok, Prod.mk.injEq] at h
      obtain ⟨_, hstep, _, ⟨hbase, rfl⟩, hfirst, hlast⟩ := h
      exact .inr (.inl ⟨hstep, hbase, hfirst, hlast⟩)
    | some range =>
      obtain ⟨left, right⟩ := range
      simp only [bind_eq_ok, parseUnsigned_eq_ok, pure_eq_ok, Prod.mk.injEq] at h
      obtain ⟨_, ⟨hleft, rfl⟩, _, ⟨hright, rfl⟩, hfirst, hlast⟩ := h
      unfold splitRange at hrange
      split at hrange
      · cases hrange
      · cases hrange
      next first second rest hsplit =>
      simp only [bind_eq_ok, require_eq_ok, pure_eq_ok, Option.some.injEq, Prod.mk.injEq] at hrange
      obtain ⟨_, ⟨rfl, -, -⟩, rfl, rfl⟩ := hrange
      exact .inr (.inr ⟨_, _, eq_of_splitOn_pair hsplit, hleft, hright, hfirst, hlast⟩)
  · rintro (⟨rfl, rfl, rfl⟩ | ⟨rfl, hbase, rfl, hlast⟩ | ⟨a, b, rfl, ha, hb, rfl, rfl⟩)
    · rfl
    · have hstar : base ≠ [42] := by
        rintro rfl
        exact hbase.not_mem (show isDigit 42 = false from rfl) (by simp)
      rw [parseBase, if_neg hstar, splitRange, List.splitOn_eq_singleton (hbase.not_mem rfl)]
      show (parseUnsigned base >>= fun n => pure (n, n)) = _
      rw [bind_eq_ok]
      exact ⟨_, parseUnsigned_eq_ok.mpr ⟨hbase, rfl⟩, by rw [hlast, pure_eq_ok]⟩
    · have hstar : a ++ 45 :: b ≠ [42] := fun h =>
        absurd (h ▸ List.mem_append_right a (List.mem_cons_self ..) : (45 : UInt8) ∈ [42]) (by decide)
      rw [parseBase, if_neg hstar, splitRange, splitOn_one (ha.not_mem rfl) (hb.not_mem rfl)]
      dsimp only
      rw [require, if_pos ⟨rfl, ha.1, hb.1⟩]
      show (parseUnsigned a >>= fun first => parseUnsigned b >>= fun last => pure (first, last)) = _
      rw [parseUnsigned_eq_ok.mpr ⟨ha, rfl⟩, parseUnsigned_eq_ok.mpr ⟨hb, rfl⟩]
      rfl

theorem setRange_eq_ok {step first last : ℕ} {mask mask' : UInt64} :
    setRange step minimum maximum mask (first, last) = .ok mask' ↔
      InBounds minimum maximum first last ∧ setBits step last (last + 1) first mask = mask' := by
  simp only [setRange, bind_eq_ok, require_eq_ok, pure_eq_ok, exists_const, InBounds]
  constructor
  · rintro ⟨⟨h1, -, -, h2, h3⟩, h⟩
    exact ⟨⟨h1, h3, h2⟩, h⟩
  · rintro ⟨⟨h1, h3, h2⟩, h⟩
    exact ⟨⟨h1, h3.trans h2, h1.trans h3, h2, h3⟩, h⟩

theorem parseMember_plain (h : 47 ∉ text) (mask : UInt64) :
    parseMember text minimum maximum mask =
      parseBase text none minimum maximum >>= setRange 1 minimum maximum mask := by
  rw [parseMember, List.splitOn_eq_singleton h]
  rfl

theorem parseMember_stepped {base s : List UInt8} (hbase : 47 ∉ base) (hs : 47 ∉ s) (mask : UInt64) :
    parseMember (base ++ 47 :: s) minimum maximum mask =
      parseStep minimum maximum (some s) >>= fun step =>
        parseBase base (some s) minimum maximum >>= setRange step minimum maximum mask := by
  rw [parseMember, splitOn_one hbase hs]
  rfl

/-- A member that is read is an item, and adds the bits of its values. -/
theorem item_of_parseMember {mask mask' : UInt64}
    (h : parseMember text minimum maximum mask = .ok mask') :
    ∃ first last step, Item minimum maximum text first last step ∧
      setBits step last (last + 1) first mask = mask' := by
  rcases separator_cases 47 text with hnone | ⟨base, s, rfl, hbase, hs⟩ | ⟨base, s, rfl, hbase, hs⟩
  · rw [parseMember_plain hnone, bind_eq_ok] at h
    obtain ⟨⟨first, last⟩, hread, hset⟩ := h
    obtain ⟨hin, hset⟩ := setRange_eq_ok.mp hset
    refine ⟨first, last, 1, ?_, hset⟩
    rcases parseBase_eq_ok.mp hread with ⟨rfl, rfl, rfl⟩ | ⟨-, ha, rfl, rfl⟩ |
      ⟨a, b, rfl, ha, hb, rfl, rfl⟩
    · exact .all
    · exact .number ha hin
    · exact .range ha hb hin
  · rw [parseMember_stepped hbase hs, bind_eq_ok] at h
    obtain ⟨step, hstep, h⟩ := h
    obtain ⟨⟨first, last⟩, hread, hset⟩ := bind_eq_ok.mp h
    obtain ⟨hin, hset⟩ := setRange_eq_ok.mp hset
    obtain ⟨hs, rfl⟩ := parseStep_eq_ok.mp hstep
    refine ⟨first, last, value s, ?_, hset⟩
    rcases parseBase_eq_ok.mp hread with ⟨rfl, rfl, rfl⟩ | ⟨h, -⟩ | ⟨a, b, rfl, ha, hb, rfl, rfl⟩
    · exact .allStep hs
    · cases h
    · exact .rangeStep ha hb hin hs
  · obtain ⟨second, third, rest, hsplit⟩ := splitOn_more hbase hs
    rw [parseMember, hsplit] at h
    cases h

/-- Every item is read. -/
theorem Item.parseMember_eq {first last step : ℕ} (h : Item minimum maximum text first last step)
    (hle : minimum ≤ maximum) (mask : UInt64) :
    parseMember text minimum maximum mask = .ok (setBits step last (last + 1) first mask) := by
  have hall : InBounds minimum maximum minimum maximum := ⟨le_refl _, hle, le_refl _⟩
  have hslash {a b : List UInt8} (ha : IsNumber a) (hb : IsNumber b) : 47 ∉ a ++ 45 :: b := by
    have h : isDigit 47 = false := rfl
    simp [ha.not_mem h, hb.not_mem h]
  cases h with
  | all =>
    rw [parseMember_plain (by decide), parseBase_eq_ok.mpr (.inl ⟨rfl, rfl, rfl⟩)]
    exact setRange_eq_ok.mpr ⟨hall, rfl⟩
  | allStep hs =>
    rw [← List.singleton_append, parseMember_stepped (by decide) (hs.1.not_mem rfl),
      parseStep_eq_ok.mpr ⟨hs, rfl⟩]
    exact setRange_eq_ok.mpr ⟨hall, rfl⟩
  | number ha hin =>
    rw [parseMember_plain (ha.not_mem rfl), parseBase_eq_ok.mpr (.inr (.inl ⟨rfl, ha, rfl, rfl⟩))]
    exact setRange_eq_ok.mpr ⟨hin, rfl⟩
  | range ha hb hin =>
    rw [parseMember_plain (hslash ha hb), parseBase_eq_ok.mpr (.inr (.inr ⟨_, _, rfl, ha, hb, rfl, rfl⟩))]
    exact setRange_eq_ok.mpr ⟨hin, rfl⟩
  | rangeStep ha hb hin hs =>
    rw [parseMember_stepped (hslash ha hb) (hs.1.not_mem rfl), parseStep_eq_ok.mpr ⟨hs, rfl⟩]
    show parseBase _ _ _ _ >>= _ = _
    rw [parseBase_eq_ok.mpr (.inr (.inr ⟨_, _, rfl, ha, hb, rfl, rfl⟩))]
    exact setRange_eq_ok.mpr ⟨hin, rfl⟩

theorem Item.ne_nil {first last step : ℕ} (h : Item minimum maximum text first last step) :
    text ≠ [] := by
  cases h with
  | number ha => exact ha.1
  | _ => simp

/-! ## Bits -/

theorem toNat_bit {n : ℕ} (h : n < 64) : (bit (UInt64.ofNat n)).toNat = 2 ^ n := by
  have hn : (UInt64.ofNat n).toNat = n := UInt64.toNat_ofNat_of_lt' (h.trans (by decide))
  have hpow : 2 ^ n < 2 ^ 64 := Nat.pow_lt_pow_right (by decide) h
  rw [bit, UInt64.toNat_shiftLeft, UInt64.toNat_one, hn, Nat.mod_eq_of_lt h, Nat.one_shiftLeft,
    Nat.mod_eq_of_lt hpow]

theorem denotes_iff {first last step v : ℕ} (hle : first ≤ last) :
    Denotes first last step v ↔
      v = first ∨ (first + step ≤ last ∧ Denotes (first + step) last step v) := by
  constructor
  · rintro ⟨hv, k, rfl⟩
    cases k with
    | zero => exact .inl (by simp)
    | succ k =>
      rw [Nat.succ_mul] at hv ⊢
      exact .inr ⟨by omega, by omega, k, by omega⟩
  · rintro (rfl | ⟨-, hv, k, rfl⟩)
    · exact ⟨hle, 0, by simp⟩
    · exact ⟨hv, k + 1, by rw [Nat.succ_mul]; omega⟩

/-- The loop sets the bits of the values in steps. -/
theorem testBit_setBits {step stop value v : ℕ} {mask : UInt64} (fuel : ℕ) (hstop : stop < 64)
    (hstep : 0 < step) (hvalue : value ≤ stop) (hfuel : stop - value < fuel) :
    (setBits step stop fuel value mask).toNat.testBit v = true ↔
      mask.toNat.testBit v = true ∨ Denotes value stop step v := by
  induction fuel generalizing value mask with
  | zero => omega
  | succ fuel ih =>
    have hor : (mask ||| bit (UInt64.ofNat value)).toNat.testBit v = true ↔
        mask.toNat.testBit v = true ∨ v = value := by
      rw [UInt64.toNat_or, Nat.testBit_or, toNat_bit (by omega), Nat.testBit_two_pow, Bool.or_eq_true,
        decide_eq_true_eq, eq_comm (a := value)]
    rw [setBits, denotes_iff hvalue]
    split_ifs with hlast
    · rw [hor]
      have hno : ¬ value + step ≤ stop := by omega
      simp only [hno, false_and, or_false]
    · rw [ih (by omega) (by omega), hor, or_assoc, and_iff_right (by omega)]

/-- The operations of the loop stay in range: it shifts by less than 64, subtracts no more than there
is, adds within `u64`, and ends. -/
def LoopInRange (step stop : ℕ) : ℕ → ℕ → Prop
  | 0, _ => False
  | fuel + 1, value => value < 64 ∧ value ≤ stop ∧
      (stop - value < step ∨ (value + step < 2 ^ 64 ∧ LoopInRange step stop fuel (value + step)))

theorem loopInRange {step stop value : ℕ} (fuel : ℕ) (hstop : stop < 64) (hstep : 0 < step)
    (hvalue : value ≤ stop) (hfuel : stop - value < fuel) : LoopInRange step stop fuel value := by
  induction fuel generalizing value with
  | zero => omega
  | succ fuel ih =>
    refine ⟨by omega, hvalue, ?_⟩
    by_cases hlast : stop - value < step
    · exact .inl hlast
    · exact .inr ⟨by omega, ih (by omega) (by omega)⟩

/-- Where `parse_member` gets to its loop, the operations of the loop stay in range. -/
def MemberInRange (minimum maximum : ℕ) (text : List UInt8) : Prop :=
  ∀ step first last, parseStep minimum maximum (text.splitOn 47)[1]? = .ok step →
    InBounds minimum maximum first last → LoopInRange step last (last + 1) first

theorem memberInRange (hmax : maximum < 64) (text : List UInt8) :
    MemberInRange minimum maximum text := by
  rintro step first last hstep ⟨-, hle, hlast⟩
  have hpos : 0 < step := by
    cases h : (text.splitOn 47)[1]? with
    | none =>
      rw [h] at hstep
      cases hstep
      exact Nat.one_pos
    | some s =>
      rw [h] at hstep
      obtain ⟨hs, rfl⟩ := parseStep_eq_ok.mp hstep
      exact Nat.pos_of_ne_zero hs.2.1
  exact loopInRange _ (hlast.trans_lt hmax) hpos hle (by omega)

/-! ## Fields -/

/-- The text is an item. -/
def IsItem (minimum maximum : ℕ) (text : List UInt8) : Prop :=
  ∃ first last step, Item minimum maximum text first last step

/-- The text is an item that denotes the value. -/
def ItemDenotes (minimum maximum : ℕ) (text : List UInt8) (v : ℕ) : Prop :=
  ∃ first last step, Item minimum maximum text first last step ∧ Denotes first last step v

theorem parseMember_isItem (hle : minimum ≤ maximum) (mask : UInt64) :
    (∃ mask', parseMember text minimum maximum mask = .ok mask') ↔ IsItem minimum maximum text := by
  constructor
  · rintro ⟨mask', h⟩
    obtain ⟨first, last, step, hitem, -⟩ := item_of_parseMember h
    exact ⟨first, last, step, hitem⟩
  · rintro ⟨first, last, step, hitem⟩
    exact ⟨_, hitem.parseMember_eq hle mask⟩

theorem Item.bounds {first last step : ℕ} (h : Item minimum maximum text first last step)
    (hle : minimum ≤ maximum) : first ≤ last ∧ last ≤ maximum ∧ 0 < step := by
  cases h with
  | all => exact ⟨hle, le_refl _, Nat.one_pos⟩
  | allStep hs => exact ⟨hle, le_refl _, Nat.pos_of_ne_zero hs.2.1⟩
  | number _ h | range _ _ h => exact ⟨h.2.1, h.2.2, Nat.one_pos⟩
  | rangeStep _ _ h hs => exact ⟨h.2.1, h.2.2, Nat.pos_of_ne_zero hs.2.1⟩

theorem parseMember_bits (hle : minimum ≤ maximum) (hmax : maximum < 64) {mask mask' : UInt64}
    (h : parseMember text minimum maximum mask = .ok mask') (v : ℕ) :
    mask'.toNat.testBit v = true ↔ mask.toNat.testBit v = true ∨ ItemDenotes minimum maximum text v := by
  have hbits : ∀ first last step mask', Item minimum maximum text first last step →
      setBits step last (last + 1) first mask = mask' →
        (mask'.toNat.testBit v = true ↔ mask.toNat.testBit v = true ∨ Denotes first last step v) := by
    rintro first last step _ hitem rfl
    obtain ⟨hfirst, hlast, hstep⟩ := hitem.bounds hle
    exact testBit_setBits _ (hlast.trans_lt hmax) hstep hfirst (by omega)
  obtain ⟨first, last, step, hitem, hset⟩ := item_of_parseMember h
  constructor
  · intro hv
    exact ((hbits _ _ _ _ hitem hset).mp hv).imp_right fun hv => ⟨first, last, step, hitem, hv⟩
  · rintro (hv | ⟨first', last', step', hitem', hv⟩)
    · exact (hbits _ _ _ _ hitem hset).mpr (.inl hv)
    -- the text is read in one way only
    · have hset' := Except.ok.inj ((hitem'.parseMember_eq hle mask).symm.trans h)
      exact (hbits _ _ _ _ hitem' hset').mpr (.inr hv)

theorem parseMembers_bits (hle : minimum ≤ maximum) (hmax : maximum < 64)
    {members : List (List UInt8)} {mask mask' : UInt64}
    (h : parseMembers minimum maximum members mask = .ok mask') (v : ℕ) :
    mask'.toNat.testBit v = true ↔
      mask.toNat.testBit v = true ∨ ∃ member ∈ members, ItemDenotes minimum maximum member v := by
  induction members generalizing mask with
  | nil =>
    cases h
    simp
  | cons member rest ih =>
    simp only [parseMembers, bind_eq_ok] at h
    obtain ⟨_, -, next, hmember, hrest⟩ := h
    rw [ih hrest, parseMember_bits hle hmax hmember, or_assoc, List.exists_mem_cons_iff]

theorem parseMembers_isItem (hle : minimum ≤ maximum) (members : List (List UInt8)) (mask : UInt64) :
    (∃ mask', parseMembers minimum maximum members mask = .ok mask') ↔
      ∀ member ∈ members, IsItem minimum maximum member := by
  induction members generalizing mask with
  | nil => simp [parseMembers]
  | cons member rest ih =>
    rw [List.forall_mem_cons, ← parseMember_isItem hle mask]
    simp only [parseMembers, bind_eq_ok, require_eq_ok]
    constructor
    · rintro ⟨mask', _, -, next, hmember, hrest⟩
      exact ⟨⟨next, hmember⟩, (ih next).mp ⟨mask', hrest⟩⟩
    · rintro ⟨⟨next, hmember⟩, hrest⟩
      obtain ⟨mask', hrest⟩ := (ih next).mpr hrest
      obtain ⟨_, _, _, hitem, -⟩ := item_of_parseMember hmember
      exact ⟨mask', (), hitem.ne_nil, next, hmember, hrest⟩

/-- **A field is read exactly.** Within the bounds of a field, a text is read just if all its members
are items, the mask then has the bits of the values that they denote, and nothing leaves its range:
the bounds of a step are subtracted from the right side, and the loops of all members stay in
range. -/
theorem parseField_exact (hle : minimum ≤ maximum) (hmax : maximum < 64) (text : List UInt8) :
    ((∃ mask, parseField text minimum maximum = .ok mask) ↔
        ∀ member ∈ text.splitOn 44, IsItem minimum maximum member) ∧
      (∀ mask, parseField text minimum maximum = .ok mask → ∀ v,
        mask.toNat.testBit v = true ↔
          ∃ member ∈ text.splitOn 44, ItemDenotes minimum maximum member v) ∧
      ∀ member ∈ text.splitOn 44, MemberInRange minimum maximum member := by
  have hread : ∀ mask, parseField text minimum maximum = .ok mask ↔
      parseMembers minimum maximum (text.splitOn 44) 0 = .ok mask ∧ mask ≠ 0 := by
    intro mask
    simp only [parseField, bind_eq_ok, require_eq_ok, pure_eq_ok]
    constructor
    · rintro ⟨_, hmask, _, hne, rfl⟩
      exact ⟨hmask, hne⟩
    · rintro ⟨hmask, hne⟩
      exact ⟨mask, hmask, (), hne, rfl⟩
  have hbits (mask) : parseMembers minimum maximum (text.splitOn 44) 0 = .ok mask → ∀ v,
      (mask.toNat.testBit v = true ↔ ∃ member ∈ text.splitOn 44, ItemDenotes minimum maximum member v) := by
    intro hmask v
    rw [parseMembers_bits hle hmax hmask]
    simp
  refine ⟨?_, fun mask hmask => hbits mask ((hread mask).mp hmask).1,
    fun member _ => memberInRange hmax member⟩
  rw [← parseMembers_isItem hle _ 0]
  constructor
  · rintro ⟨mask, hmask⟩
    exact ⟨mask, ((hread mask).mp hmask).1⟩
  · rintro ⟨mask, hmask⟩
    -- the first member denotes its first value
    obtain ⟨member, hmember⟩ := List.exists_mem_of_ne_nil _ (List.splitOn_ne_nil 44 text)
    obtain ⟨first, last, step, hitem⟩ := (parseMembers_isItem hle _ 0).mp ⟨mask, hmask⟩ member hmember
    have hfirst : Denotes first last step first := ⟨(hitem.bounds hle).1, 0, by simp⟩
    refine ⟨mask, (hread mask).mpr ⟨hmask, ?_⟩⟩
    rintro rfl
    have hbit := (hbits 0 hmask first).mpr ⟨member, hmember, first, last, step, hitem, hfirst⟩
    simp at hbit

/-- `0-3/2`. -/
theorem parseField_exact_steps : (5 : UInt64).toNat.testBit 2 = true ↔
    ∃ member ∈ ([48, 45, 51, 47, 50] : List UInt8).splitOn 44, ItemDenotes 0 59 member 2 :=
  (parseField_exact (by decide) (by decide) [48, 45, 51, 47, 50]).2.1 5 (by decide) 2

end

end Nomo.Cron
