import Statechart.Json.Basic
import Statechart.Decimal.Layout
import Mathlib

/- Small integers as doubles.

   An integer of at most fifty-three bits is a double exactly: its bits, shifted until the first of
   them is the leading bit of the mantissa. So the double can be computed without rounding, and an
   integer below nine quadrillion is found again in the double that it became, and no other double
   than this one, and minus zero, is taken for that integer. -/
namespace Statechart.Decimal

open Float.Model Float.Model.UnpackedFloat

/-- A mantissa of fifty-three bits. -/
structure IsFull (m : Nat) : Prop where
  lower : 2 ^ 52 ≤ m
  upper : m < 2 ^ 53

def Decoded.ofUnpacked : UnpackedFloat → Decoded
  | .infinity s => .infinite (s == .negative)
  | .notANumber => .notANumber
  | .zero s => .finite ⟨s == .negative, 0, -1074⟩
  | .finite s m e _ => .finite ⟨s == .negative, m, e⟩

section Unpacking

variable {m : Nat} {e : Int}

theorem IsFull.pos (full : IsFull m) : 0 < m := Nat.lt_of_lt_of_le (by decide) full.lower

theorem IsFull.log2 (full : IsFull m) : m.log2 = 52 :=
  (Nat.log2_eq_iff (Nat.ne_of_gt full.pos)).mpr ⟨full.lower, full.upper⟩

theorem unpackMantissa_toNat (b : BitVec Format.binary64.numBits) :
    (unpackMantissa b).toNat = b.toNat % 2 ^ 52 := by
  simp [unpackMantissa]

theorem unpackExponent_toNat (b : BitVec Format.binary64.numBits) :
    (unpackExponent b).toNat = b.toNat / 2 ^ 52 % 2 ^ 11 := by
  simp [unpackExponent, Nat.shiftRight_eq_div_pow]

theorem unpackSign_toNat (b : BitVec Format.binary64.numBits) :
    (unpackSign b).toNat = b.toNat / 2 ^ 63 % 2 := by
  simp [unpackSign, Nat.shiftRight_eq_div_pow]

theorem leading_toNat (v : BitVec 52) : (1#1 ++ v).toNat = v.toNat + 2 ^ 52 := by
  rw [BitVec.toNat_append, ← Nat.shiftLeft_add_eq_or_of_lt v.isLt]
  exact Nat.add_comm _ _

theorem sign_negative (b : BitVec Format.binary64.numBits) :
    (Sign.ofBitVec (unpackSign b) == .negative) = (b.toNat / 2 ^ 63 % 2 == 1) := by
  rw [← unpackSign_toNat]
  generalize unpackSign b = s
  revert s
  decide

/-- Decoding finds what the double stands for. -/
theorem decode_eq_unpack (f : Float) : decode f = .ofUnpacked f.toModel.unpack := by
  let b : BitVec Format.binary64.numBits := f.toModel.toBits.toBitVec
  change decodeBits b.toNat = .ofUnpacked (UnpackedFloat.unpack Format.binary64 b)
  have top : unpackExponent b = -1#11 ↔ b.toNat / 2 ^ 52 % 2 ^ 11 = 2047 := by
    rw [← BitVec.toNat_inj, unpackExponent_toNat]
    exact Iff.rfl
  have bottom : unpackExponent b = 0#11 ↔ b.toNat / 2 ^ 52 % 2 ^ 11 = 0 := by
    rw [← BitVec.toNat_inj, unpackExponent_toNat]
    exact Iff.rfl
  have none : unpackMantissa b = 0#52 ↔ b.toNat % 2 ^ 52 = 0 := by
    rw [← BitVec.toNat_inj, unpackMantissa_toNat]
    exact Iff.rfl
  have sign := sign_negative b
  have bias : (Format.binary64.exponentBias : Int) + Format.binary64.mantissaBitsWithoutImplicit =
      1075 := by decide
  unfold decodeBits UnpackedFloat.unpack
  simp only [twoTo, Nat.pow_eq, beq_iff_eq]
  by_cases full : b.toNat / 2 ^ 52 % 2 ^ 11 = 2047
  · rw [if_pos full, if_pos (top.mpr full)]
    by_cases empty : b.toNat % 2 ^ 52 = 0
    · rw [if_pos empty, if_pos (none.mpr empty), Decoded.ofUnpacked, sign]
    · rw [if_neg empty, if_neg (mt none.mp empty), Decoded.ofUnpacked]
  · rw [if_neg full, if_neg (mt top.mp full)]
    by_cases least : b.toNat / 2 ^ 52 % 2 ^ 11 = 0
    · rw [if_pos least, if_pos (bottom.mpr least)]
      by_cases empty : b.toNat % 2 ^ 52 = 0
      · rw [dif_pos (none.mpr empty), Decoded.ofUnpacked, sign, empty]
      · rw [dif_neg (mt none.mp empty), Decoded.ofUnpacked, sign, unpackMantissa_toNat,
          unpackExponent_toNat, least, bias]
        rfl
    · rw [if_neg least, if_neg (mt bottom.mp least), Decoded.ofUnpacked, sign, leading_toNat,
        unpackMantissa_toNat, unpackExponent_toNat, bias]

/-- A double with a full mantissa is packed without loss. -/
theorem unpack_pack (full : IsFull m) (low : -1074 ≤ e) (high : e ≤ 971) (s : Sign) :
    (pack (.finite s m e full.pos)).unpack = .finite s m e full.pos := by
  obtain ⟨biased,shifted⟩ : ∃ k : Nat, e + 1075 = k := ⟨(e + 1075).toNat, by omega⟩
  have packed : UnpackedFloat.pack Format.binary64 (.finite s m e full.pos) =
      packComponents Format.binary64 s (BitVec.ofNat 11 biased) (BitVec.ofNat 52 m) := by
    have bias : (e + Format.binary64.exponentBias +
        Format.binary64.mantissaBitsWithoutImplicit).toNat = biased := by
      change (e + (1023 : Nat) + (52 : Nat)).toNat = biased
      omega
    unfold UnpackedFloat.pack
    simp only [full.log2, bias]
    have normal : 52 + 1 = Format.binary64.mantissaBits := rfl
    rw [if_neg (by omega : ¬ 2 ^ 11 ≤ biased + 1), if_pos normal]
  change UnpackedFloat.unpack Format.binary64
    (UnpackedFloat.pack Format.binary64 (.finite s m e full.pos)) = _
  rw [packed]
  unfold UnpackedFloat.unpack
  have exponent : (BitVec.ofNat 11 biased).toNat = biased := by
    rw [BitVec.toNat_ofNat, Nat.mod_eq_of_lt (by omega)]
  have top : BitVec.ofNat 11 biased ≠ -1#11 := fun same => by
    have := congrArg BitVec.toNat same
    rw [exponent] at this
    change biased = 2047 at this
    omega
  have bottom : BitVec.ofNat 11 biased ≠ 0#11 := fun same => by
    have := congrArg BitVec.toNat same
    rw [exponent] at this
    change biased = 0 at this
    omega
  simp only [unpackExponent_packComponents, unpackMantissa_packComponents]
  rw [if_neg top, if_neg bottom]
  have sign : Sign.ofBitVec (unpackSign (packComponents Format.binary64 s
      (BitVec.ofNat 11 biased) (BitVec.ofNat 52 m))) = s := by
    rw [unpackSign_packComponents]
    cases s with
    | positive => rfl
    | negative => rfl
  have mantissa : (1#1 ++ BitVec.ofNat 52 m).toNat = m := by
    rw [leading_toNat, BitVec.toNat_ofNat]
    have lower := full.lower
    have upper := full.upper
    omega
  rw [UnpackedFloat.finite.injEq]
  refine ⟨sign, mantissa, ?_⟩
  rw [exponent]
  change (biased : Int) - ((1023 : Nat) + (52 : Nat)) = e
  omega

/-- Bits that are all zero are shifted out without a trace. -/
theorem shift_out (m k : Nat) :
    (⟨m * 2 ^ k, false, false⟩ : ExtendedMantissa) >>> k = ⟨m, false, false⟩ := by
  change Nat.repeat ExtendedMantissa.shiftRightOne k ⟨m * 2 ^ k, false, false⟩ = _
  induction k generalizing m with
  | zero => simp [Nat.repeat]
  | succ k ih =>
    have shifted : m * 2 ^ (k + 1) = 2 * m * 2 ^ k := by
      rw [Nat.pow_succ', ← Nat.mul_assoc, Nat.mul_comm m 2]
    rw [Nat.repeat, shifted, ih]
    simp [ExtendedMantissa.shiftRightOne]

theorem log2_scaled (pos : 0 < m) (k : Nat) : (m * 2 ^ k).log2 = m.log2 + k := by
  have room : 0 < 2 ^ k := Nat.two_pow_pos k
  refine (Nat.log2_eq_iff (Nat.ne_of_gt (Nat.mul_pos pos room))).mpr ⟨?_, ?_⟩
  · rw [Nat.pow_add]
    exact Nat.mul_le_mul_right _ (Nat.log2_self_le (Nat.ne_of_gt pos))
  · rw [Nat.add_right_comm, Nat.pow_add]
    exact Nat.mul_lt_mul_of_pos_right Nat.lt_log2_self room

theorem shift_full (full : IsFull m) (low : -1074 ≤ e) (k : Nat) :
    shiftToTargetExponent Format.binary64 (m * 2 ^ k) (e - k) .exact = (⟨m, false, false⟩, e) := by
  have length : (m * 2 ^ k).log2 = 52 + k := by
    rw [log2_scaled full.pos, full.log2]
  have target : Format.binary64.targetExponent (totalExponent (m * 2 ^ k) (e - k)) = e := by
    rw [totalExponent, length]
    change max (((52 + k : Nat) : Int) + 1 + (e - k) - (53 : Nat)) (-1074) = e
    omega
  have amount : (e - (e - k)).toNat = k := by omega
  unfold shiftToTargetExponent shiftToExponent
  simp only [target, amount, ExtendedMantissa.ofMantissaAndAccuracy, shift_out]
  exact Prod.ext rfl (by omega)

/-- Rounding changes nothing where only zeros are cut off. -/
theorem round_full (full : IsFull m) (low : -1074 ≤ e) (s : Sign) (k : Nat) :
    roundWithAccuracy Format.binary64 s (m * 2 ^ k) (e - k) .exact = .finite s m e full.pos := by
  have still : shiftToTargetExponent Format.binary64 m e .exact = (⟨m, false, false⟩, e) := by
    simpa using shift_full full low 0
  unfold roundWithAccuracy
  rw [shift_full full low k]
  change (let (final, exponent) := shiftToTargetExponent Format.binary64 m e .exact
    if h : final.mantissa = 0 then UnpackedFloat.zero s
    else .finite s final.mantissa exponent (Nat.pos_of_ne_zero h)) = _
  rw [still]
  exact dif_neg (Nat.ne_of_gt full.pos)

end Unpacking

section Integers

variable {n : Nat}

theorem full_of_small (pos : 0 < n) (small : n < 2 ^ 53) : IsFull (n * 2 ^ (52 - n.log2)) := by
  have short : n.log2 ≤ 52 := by
    have := (Nat.log2_lt (Nat.ne_of_gt pos)).mpr small
    omega
  have lower : 2 ^ n.log2 ≤ n := Nat.log2_self_le (Nat.ne_of_gt pos)
  have upper : n < 2 ^ (n.log2 + 1) := Nat.lt_log2_self
  have room : 0 < 2 ^ (52 - n.log2) := Nat.two_pow_pos _
  constructor
  · calc 2 ^ 52 = 2 ^ n.log2 * 2 ^ (52 - n.log2) := by rw [← Nat.pow_add]; congr 1; omega
      _ ≤ n * 2 ^ (52 - n.log2) := Nat.mul_le_mul_right _ lower
  · calc n * 2 ^ (52 - n.log2) < 2 ^ (n.log2 + 1) * 2 ^ (52 - n.log2) :=
        Nat.mul_lt_mul_of_pos_right upper room
      _ = 2 ^ 53 := by rw [← Nat.pow_add]; congr 1; omega

theorem unpack_one : (Float.ofBits 0x3FF0000000000000).toModel.unpack =
    .finite .positive (2 ^ 52) (-52) (by decide) := by
  have bits : (Float.ofBits 0x3FF0000000000000).toModel =
      pack (.finite .positive (2 ^ 52) (-52) (by decide)) := by decide
  rw [bits]
  exact unpack_pack ⟨Nat.le_refl _, by decide⟩ (by decide) (by decide) _

/-- A natural number is converted with its mantissa shifted and without rounding. -/
theorem ofUInt64_small (pos : 0 < n) (small : n < 2 ^ 53) :
    UnpackedFloat.ofUInt64 Format.binary64 n.toUInt64 =
      .finite .positive (n * 2 ^ (52 - n.log2)) (-(52 - n.log2 : Nat))
        (full_of_small pos small).pos := by
  have full := full_of_small pos small
  have short : n.log2 ≤ 52 := by
    have := (Nat.log2_lt (Nat.ne_of_gt pos)).mpr small
    omega
  have word : n.toUInt64.toNat = n := by
    change n % 2 ^ 64 = n
    omega
  have positive : compare (n : Int) 0 = .gt := by
    rw [Int.compare_eq_gt]
    omega
  have target : Format.binary64.targetExponent (totalExponent n 0) = -(52 - n.log2 : Nat) := by
    change max ((n.log2 : Int) + 1 + 0 - (53 : Nat)) (-1074) = _
    omega
  have amount : ((0 : Int) - -(52 - n.log2 : Nat)).toNat = 52 - n.log2 := by omega
  change UnpackedFloat.normalize Format.binary64 (n.toUInt64.toNat : Int) 0 .positive = _
  rw [word]
  unfold UnpackedFloat.normalize UnpackedFloat.round decreaseExponent
  simp only [positive, Int.toNat_natCast, target, amount, Nat.shiftLeft_eq]
  have rounded := round_full full (e := -(52 - n.log2 : Nat)) (by omega) .positive 0
  simpa using rounded

/-- A natural number that needs no rounding is converted as a word and multiplied by one. -/
theorem ofNat_eq_mul (small : n < 2 ^ 53) :
    Float.ofNat n = n.toUInt64.toFloat * Float.ofBits 0x3FF0000000000000 := by
  change Float.ofScientific n false 0 = _
  unfold Float.ofScientific
  rw [dif_pos ⟨small, by decide⟩]
  rfl

/-- A natural number of at most fifty-three bits is a double. -/
theorem unpack_ofNat (pos : 0 < n) (small : n < 2 ^ 53) : (Float.ofNat n).toModel.unpack =
    .finite .positive (n * 2 ^ (52 - n.log2)) (-(52 - n.log2 : Nat)) (full_of_small pos small).pos := by
  have full := full_of_small pos small
  rw [ofNat_eq_mul small]
  change (pack (UnpackedFloat.mul Format.binary64
    (pack (UnpackedFloat.ofUInt64 Format.binary64 n.toUInt64)).unpack
    (Float.ofBits 0x3FF0000000000000).toModel.unpack)).unpack = _
  rw [ofUInt64_small pos small, unpack_pack full (by omega) (by omega), unpack_one]
  change (pack (roundWithAccuracy Format.binary64 .positive (n * 2 ^ (52 - n.log2) * 2 ^ 52)
    (-(52 - n.log2 : Nat) - (52 : Nat)) .exact)).unpack = _
  rw [round_full full (by omega), unpack_pack full (by omega) (by omega)]

end Integers

section Exactness

variable {f g : Float} {b : Binary} {n : Int}

/-- The mantissa fills its bits, unless the exponent cannot be smaller. -/
def Binary.IsDouble (b : Binary) : Prop :=
  b.mantissa < 2 ^ 53 ∧ (2 ^ 52 ≤ b.mantissa ∨ b.exponent = -1074)

/-- An integer, shifted until its mantissa is full. -/
def Binary.ofInt (n : Int) : Binary :=
  ⟨n < 0, n.natAbs * 2 ^ (52 - n.natAbs.log2), -(52 - n.natAbs.log2 : Nat)⟩

theorem decode_isDouble (read : decode f = .finite b) : b.IsDouble := by
  unfold decode decodeBits at read
  simp only [twoTo, Nat.pow_eq, beq_iff_eq] at read
  unfold Binary.IsDouble
  split at read
  · split at read
    · cases read
    · cases read
  · split at read
    · cases read
      dsimp only
      omega
    · cases read
      dsimp only
      omega

theorem negative_injective : Function.Injective fun s : Sign => s == .negative := by
  intro s s' same
  cases s with
  | positive =>
    cases s' with
    | positive => rfl
    | negative => cases same
  | negative =>
    cases s' with
    | positive => cases same
    | negative => rfl

theorem ofUnpacked_injective : Function.Injective Decoded.ofUnpacked := by
  intro a b same
  cases a
  all_goals
    cases b
    all_goals
      simp only [Decoded.ofUnpacked, Decoded.infinite.injEq, Decoded.finite.injEq, Binary.mk.injEq,
        reduceCtorEq] at same
  case infinity.infinity s s' => rw [negative_injective same]
  case notANumber.notANumber => rfl
  case zero.zero s s' => rw [negative_injective same.1]
  case zero.finite s s' m e pos => exact absurd same.2.1 (Nat.ne_of_lt pos)
  case finite.zero s m e pos s' => exact absurd same.2.1.symm (Nat.ne_of_lt pos)
  case finite.finite s m e pos s' m' e' pos' =>
    obtain ⟨sign,rfl,rfl⟩ := same
    rw [negative_injective sign]

/-- Doubles that stand for the same are the same. -/
theorem eq_of_decode (same : decode f = decode g) : f = g := by
  rw [decode_eq_unpack, decode_eq_unpack] at same
  have bits := (unpack_inj_of_valid f.toModel.valid g.toModel.valid).mp (ofUnpacked_injective same)
  exact Float.toBits_inj.mp (UInt64.toBitVec_inj.mp bits)

theorem ratio_scaled (negative : Bool) (m k : Nat) :
    Binary.ratio ⟨negative, m, -(k : Nat)⟩ = (m, 2 ^ k) := by
  unfold Binary.ratio
  dsimp only
  split
  · rename_i whole
    obtain rfl : k = 0 := by omega
    simp [twoTo]
  · simp [twoTo]

theorem toInt?_ofInt (n : Int) : (Binary.ofInt n).toInt? = some n := by
  unfold Binary.toInt? Binary.ofInt
  rw [ratio_scaled]
  have whole : n.natAbs * 2 ^ (52 - n.natAbs.log2) % 2 ^ (52 - n.natAbs.log2) = 0 :=
    Nat.mul_mod_left _ _
  have back : ((n.natAbs * 2 ^ (52 - n.natAbs.log2) : Nat) : Int) / (2 ^ (52 - n.natAbs.log2) : Nat) =
      n.natAbs := by
    rw [← Int.natCast_ediv, Nat.mul_div_cancel _ (Nat.two_pow_pos _)]
  simp only [whole, back, beq_self_eq_true, if_true]
  congr 1
  by_cases negative : n < 0
  · simp only [negative, decide_true, if_true]
    omega
  · simp only [negative, decide_false, Bool.false_eq_true, if_false]
    omega

theorem shift_of_toInt? (double : b.IsDouble) (small : n.natAbs < 2 ^ 53)
    (read : b.toInt? = some n) : ∃ (negative : Bool) (k : Nat),
      b = ⟨negative, n.natAbs * 2 ^ k, -k⟩ ∧ (n ≠ 0 → negative = decide (n < 0)) := by
  obtain ⟨negative,m,e⟩ := b
  have signed {a : Nat} (same : (if negative then -(a : Int) else a) = n) :
      n.natAbs = a ∧ (n ≠ 0 → negative = decide (n < 0)) := by
    cases negative with
    | true =>
      simp only [if_true] at same
      exact ⟨by omega, fun _ => (decide_eq_true (by omega)).symm⟩
    | false =>
      simp only [Bool.false_eq_true, if_false] at same
      exact ⟨by omega, fun _ => (decide_eq_false (by omega)).symm⟩
  by_cases fraction : e < 0
  · obtain ⟨k,rfl⟩ : ∃ k : Nat, e = -k := ⟨e.natAbs, by omega⟩
    unfold Binary.toInt? at read
    rw [ratio_scaled] at read
    simp only [beq_iff_eq, Option.ite_none_right_eq_some, Option.some.injEq] at read
    obtain ⟨whole,same⟩ := read
    rw [← Int.natCast_ediv] at same
    obtain ⟨size,sign⟩ := signed same
    refine ⟨negative, k, ?_, sign⟩
    rw [size, Nat.div_mul_cancel (Nat.dvd_of_mod_eq_zero whole)]
  · obtain ⟨k,rfl⟩ : ∃ k : Nat, e = k := ⟨e.toNat, by omega⟩
    unfold Binary.toInt? Binary.ratio at read
    simp only [Int.natCast_nonneg, if_true, Int.toNat_natCast, Nat.mod_one, beq_self_eq_true,
      Int.natCast_one, Int.ediv_one, Option.some.injEq] at read
    obtain ⟨size,sign⟩ := signed read
    have lower : 2 ^ 52 ≤ m := double.2.resolve_right (by dsimp only; omega)
    have length : 2 ^ (52 + k) < 2 ^ 53 := by
      rw [Nat.pow_add]
      exact Nat.lt_of_le_of_lt (Nat.mul_le_mul_right _ lower) (size ▸ small)
    obtain rfl : k = 0 := by
      have := (Nat.pow_lt_pow_iff_right (by decide)).mp length
      omega
    refine ⟨negative, 0, ?_, sign⟩
    rw [size]
    simp [twoTo]

/-- A double that is a small integer is that integer, shifted until the mantissa is full. -/
theorem eq_ofInt (double : b.IsDouble) (nonzero : n ≠ 0) (small : n.natAbs < 2 ^ 53)
    (read : b.toInt? = some n) : b = .ofInt n := by
  obtain ⟨negative,k,rfl,sign⟩ := shift_of_toInt? double small read
  obtain rfl := sign nonzero
  have pos : 0 < n.natAbs := Int.natAbs_pos.mpr nonzero
  obtain ⟨upper,lower⟩ := double
  dsimp only at upper lower
  have room : 2 ^ k ≤ n.natAbs * 2 ^ k := Nat.le_mul_of_pos_left _ pos
  have short : k < 53 := (Nat.pow_lt_pow_iff_right (by decide)).mp (Nat.lt_of_le_of_lt room upper)
  have full : IsFull (n.natAbs * 2 ^ k) := ⟨lower.resolve_right (by omega), upper⟩
  have length := full.log2
  rw [log2_scaled pos] at length
  obtain rfl : k = 52 - n.natAbs.log2 := by omega
  rfl

theorem decode_toFloat (nonzero : n ≠ 0) (small : n.natAbs < 2 ^ 53) :
    decode (Json.Number.int n).toFloat = .finite (.ofInt n) := by
  have pos : 0 < n.natAbs := Int.natAbs_pos.mpr nonzero
  have full := full_of_small pos small
  rw [decode_eq_unpack]
  change Decoded.ofUnpacked
    (if n < 0 then -Float.ofNat n.natAbs else Float.ofNat n.natAbs).toModel.unpack = _
  by_cases negative : n < 0
  · rw [if_pos negative]
    change Decoded.ofUnpacked (pack (Float.ofNat n.natAbs).toModel.unpack.neg).unpack = _
    rw [unpack_ofNat pos small]
    change Decoded.ofUnpacked (pack (.finite .negative _ _ full.pos)).unpack = _
    rw [unpack_pack full (by omega) (by omega)]
    simp only [Decoded.ofUnpacked, Binary.ofInt, negative]
    rfl
  · rw [if_neg negative, unpack_ofNat pos small]
    simp only [Decoded.ofUnpacked, Binary.ofInt, negative]
    rfl

/-- Zero is an integer whatever it is scaled by. -/
theorem toInt?_zero (negative : Bool) (k : Nat) : Binary.toInt? ⟨negative, 0, -(k : Int)⟩ = some 0 := by
  unfold Binary.toInt?
  rw [ratio_scaled]
  simp

theorem decode_zero : decode (Json.Number.int 0).toFloat = .finite ⟨false, 0, -1074⟩ := by
  decide

theorem decode_minusZero : decode (-0.0) = .finite ⟨true, 0, -1074⟩ := by
  decide

/-- A small integer is found in the double that it became. -/
theorem smallInt?_toFloat (small : n.natAbs < 9000000000000000) :
    smallInt? (Json.Number.int n).toFloat = some n := by
  have found : ∃ b, decode (Json.Number.int n).toFloat = .finite b ∧ b.toInt? = some n := by
    by_cases zero : n = 0
    · subst zero
      exact ⟨_, decode_zero, toInt?_zero false 1074⟩
    · exact ⟨_, decode_toFloat zero (by omega), toInt?_ofInt n⟩
  obtain ⟨b,read,whole⟩ := found
  unfold smallInt?
  rw [read]
  simp only [whole, if_pos small]

theorem smallInt?_eq_some (read : smallInt? f = some n) :
    n.natAbs < 9000000000000000 ∧ ∃ b, decode f = .finite b ∧ b.toInt? = some n := by
  unfold smallInt? at read
  split at read
  · rename_i b decoded
    split at read
    · rename_i whole
      rw [Option.ite_none_right_eq_some] at read
      obtain ⟨small,same⟩ := read
      cases same
      exact ⟨small, b, decoded, whole⟩
    · cases read
  · cases read

/-- A small integer is found in no other double than the one that it becomes, but for minus zero. -/
theorem toFloat_of_smallInt? (read : smallInt? f = some n) (unsigned : f ≠ -0.0) :
    (Json.Number.int n).toFloat = f := by
  obtain ⟨small,b,decoded,whole⟩ := smallInt?_eq_some read
  have double := decode_isDouble decoded
  by_cases zero : n = 0
  · subst zero
    obtain ⟨negative,k,rfl,-⟩ := shift_of_toInt? double (by omega) whole
    have least : -(k : Int) = -1074 := double.2.resolve_left (by simp)
    simp only [Int.natAbs_zero, Nat.zero_mul, least] at decoded
    cases negative with
    | true => exact absurd (eq_of_decode (decoded.trans decode_minusZero.symm)) unsigned
    | false => exact eq_of_decode (decode_zero.trans decoded.symm)
  · rw [eq_ofInt double zero (by omega) whole] at decoded
    exact eq_of_decode ((decode_toFloat zero (by omega)).trans decoded.symm)

end Exactness

section Texts

variable {n : Int}

theorem isDigit_natDigits {c : Char} {n : Nat} (inside : c ∈ natDigits n) : isDigit c = true := by
  have digit := Nat.isDigit_of_mem_toDigits (by decide) (by decide) inside
  rw [Char.isDigit, Bool.and_eq_true, decide_eq_true_eq, decide_eq_true_eq] at digit
  rw [isDigit, Bool.and_eq_true, decide_eq_true_eq, decide_eq_true_eq]
  exact digit

theorem digitsValue_natDigits (n : Nat) : digitsValue (natDigits n) = n :=
  Nat.ofDigitChars_ten_toDigits

theorem natDigits_ne_nil (n : Nat) : natDigits n ≠ [] := Nat.toDigits_ne_nil

theorem natDigits_eq_cons (n : Nat) : ∃ d ds, natDigits n = d :: ds ∧ isDigit d = true := by
  obtain ⟨d,ds,digits⟩ := List.exists_cons_of_ne_nil (natDigits_ne_nil n)
  exact ⟨d, ds, digits, isDigit_natDigits (digits ▸ List.mem_cons_self)⟩

theorem toNearest_small {n : Nat} (small : n < 2 ^ 53) : toNearest n 0 = Float.ofNat n := by
  unfold toNearest
  by_cases zero : n = 0
  · subst zero
    decide
  · have short : (Nat.toDigits 10 n).length ≤ 16 :=
      (Nat.length_toDigits_le_iff (by decide) (by decide)).mpr (by omega)
    simp only [beq_iff_eq, zero, if_false]
    rw [if_neg (by omega), if_neg (by omega)]
    rfl

theorem readUnsigned_natDigits {n : Nat} (small : n < 2 ^ 53) :
    readUnsigned (natDigits n) = some (Float.ofNat n) := by
  have whole : (natDigits n).takeWhile isDigit = natDigits n :=
    List.takeWhile_eq_self_iff.mpr fun _ => isDigit_natDigits
  have nothing : (natDigits n).dropWhile isDigit = [] :=
    List.dropWhile_eq_nil_iff.mpr fun _ => isDigit_natDigits
  unfold readUnsigned
  simp [whole, nothing, natDigits_ne_nil, readExponent, digitsValue_natDigits, toNearest_small small]

theorem toLower_digit {c : Char} (digit : isDigit c = true) : c.toLower = c := by
  rw [isDigit, Bool.and_eq_true, decide_eq_true_eq, decide_eq_true_eq] at digit
  have small : c.val ≤ '9'.val := digit.2
  unfold Char.toLower
  rw [dif_neg]
  rintro ⟨upper,-⟩
  exact absurd (UInt32.le_trans upper small) (by decide)

theorem digits_no_word (n : Nat) (word : String) {c : Char} {letters : List Char}
    (spelled : word.toList = c :: letters) (letter : isDigit c = false) :
    (String.ofList ((natDigits n).map Char.toLower) == word) = false := by
  refine beq_false_of_ne fun same => ?_
  have lists := congrArg String.toList same
  rw [String.toList_ofList, spelled] at lists
  obtain ⟨d,ds,digits,digit⟩ := natDigits_eq_cons n
  rw [digits, List.map_cons, toLower_digit digit] at lists
  cases lists
  rw [digit] at letter
  cases letter

theorem readChars_unsigned {n : Nat} {cs : List Char} (negative : Bool) (small : n < 2 ^ 53)
    (sign : readSign cs = (negative, natDigits n)) :
    readChars cs = some (signed negative (Float.ofNat n)) := by
  unfold readChars
  simp only [sign, digits_no_word n "inf" rfl rfl, digits_no_word n "infinity" rfl rfl,
    digits_no_word n "nan" rfl rfl, readUnsigned_natDigits small, Option.map_some, Bool.or_self,
    Bool.false_eq_true, if_false]

theorem toList_toString (n : Int) :
    (toString n).toList = (if n < 0 then ['-'] else []) ++ natDigits n.natAbs := by
  cases n with
  | ofNat m =>
    have nonnegative : ¬ Int.ofNat m < 0 := Int.not_lt.mpr (Int.natCast_nonneg m)
    rw [if_neg nonnegative]
    exact Nat.toList_repr
  | negSucc m =>
    rw [if_pos (by omega)]
    change ("-" ++ (m + 1).repr).toList = _
    rw [String.toList_append, Nat.toList_repr]
    rfl

theorem readSign_natDigits (n : Nat) : readSign (natDigits n) = (false, natDigits n) := by
  obtain ⟨d,ds,digits,digit⟩ := natDigits_eq_cons n
  rw [digits]
  unfold readSign
  split
  · rename_i same
    cases same
    cases digit
  · rename_i same
    cases same
    cases digit
  · rfl

theorem readChars_int (small : n.natAbs < 2 ^ 53) :
    readChars ((if n < 0 then ['-'] else []) ++ natDigits n.natAbs) =
      some (Json.Number.int n).toFloat := by
  change _ = some (if n < 0 then -Float.ofNat n.natAbs else Float.ofNat n.natAbs)
  by_cases negative : n < 0
  · simp only [if_pos negative]
    exact readChars_unsigned true small rfl
  · simp only [if_neg negative]
    exact readChars_unsigned false small (readSign_natDigits _)

/-- A small integer is written with its digits. -/
theorem displayText_int (small : n.natAbs < 9000000000000000) :
    displayText (Json.Number.int n).toFloat = toString n := by
  unfold displayText
  rw [smallInt?_toFloat small]

end Texts

end Statechart.Decimal
