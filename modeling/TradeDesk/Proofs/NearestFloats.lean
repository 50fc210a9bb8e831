import Mathlib
import TradeDesk.Proofs.WholeDecimals

/-!
Floats as exact numbers, and the nearest float to a ratio: `nearestBits` is at least as near to a
ratio as every float (`Binary64.nearestBits_nearest`).
-/

namespace TradeDesk

namespace Binary64

open Float.Model

/-! ### Words and the core model -/

theorem unpackSign_toNat (b : UInt64) :
    (@UnpackedFloat.unpackSign .binary64 b.toBitVec).toNat = b.toNat / 2 ^ 63 := by
  rw [UnpackedFloat.unpackSign_def]
  have := b.toNat_lt
  simp
  omega

theorem unpackExponent_toNat (b : UInt64) :
    (@UnpackedFloat.unpackExponent .binary64 b.toBitVec).toNat = b.toNat / 2 ^ 52 % 2 ^ 11 := by
  rw [UnpackedFloat.unpackExponent_def]
  simp [Nat.shiftRight_eq_div_pow]

theorem unpackMantissa_toNat (b : UInt64) :
    (@UnpackedFloat.unpackMantissa .binary64 b.toBitVec).toNat = b.toNat % 2 ^ 52 := by
  rw [UnpackedFloat.unpackMantissa_def]
  simp

def ofUnpacked : UnpackedFloat → Binary64
  | .notANumber => .nan
  | .infinity s => .infinite (s == .negative)
  | .zero s => .finite (s == .negative) 0 (-1074)
  | .finite s m e _ => .finite (s == .negative) m e

theorem exponentField_toNat (b : UInt64) :
    ((b >>> 52) &&& 0x7FF).toNat = b.toNat / 2 ^ 52 % 2 ^ 11 := by
  rw [UInt64.toNat_and, UInt64.toNat_shiftRight, show (52 : UInt64).toNat % 64 = 52 by rfl,
    Nat.shiftRight_eq_div_pow, show (0x7FF : UInt64).toNat = 2 ^ 11 - 1 by rfl,
    Nat.and_two_pow_sub_one_eq_mod]

theorem fractionField_toNat (b : UInt64) : (b &&& 0xFFFFFFFFFFFFF).toNat = b.toNat % 2 ^ 52 := by
  rw [UInt64.toNat_and, show (0xFFFFFFFFFFFFF : UInt64).toNat = 2 ^ 52 - 1 by rfl,
    Nat.and_two_pow_sub_one_eq_mod]

theorem signField_eq (b : UInt64) :
    (b >>> 63 == 1) =
      (UnpackedFloat.Sign.ofBitVec (@UnpackedFloat.unpackSign .binary64 b.toBitVec) == .negative) := by
  have hs := unpackSign_toNat b
  have h63 : (b >>> 63).toNat = b.toNat / 2 ^ 63 := by
    rw [UInt64.toNat_shiftRight, show (63 : UInt64).toNat % 64 = 63 by rfl,
      Nat.shiftRight_eq_div_pow]
  have hlt : b.toNat / 2 ^ 63 < 2 := by
    have := b.toNat_lt
    omega
  unfold UnpackedFloat.Sign.ofBitVec
  -- the sign bit is zero or one, in the word and in the bit vector alike
  rcases (by omega : b.toNat / 2 ^ 63 = 0 ∨ b.toNat / 2 ^ 63 = 1) with hz | hz
  · rw [if_pos (BitVec.eq_of_toNat_eq (by rw [hs, hz]; rfl))]
    simp [← UInt64.toNat_inj, h63]
    omega
  · rw [if_neg (fun e => by rw [e] at hs; simp at hs; omega)]
    simp [← UInt64.toNat_inj, h63]
    omega

theorem ofBits_eq_ofUnpacked (b : UInt64) :
    ofBits b = ofUnpacked (UnpackedFloat.unpack .binary64 b.toBitVec) := by
  have he := unpackExponent_toNat b
  have hm := unpackMantissa_toNat b
  have hE1 : @UnpackedFloat.unpackExponent .binary64 b.toBitVec = -1#11 ↔
      b.toNat / 2 ^ 52 % 2 ^ 11 = 2047 := by
    rw [← BitVec.toNat_inj, he]
    rfl
  have hE0 : @UnpackedFloat.unpackExponent .binary64 b.toBitVec = 0#11 ↔
      b.toNat / 2 ^ 52 % 2 ^ 11 = 0 := by
    rw [← BitVec.toNat_inj, he]
    rfl
  have hM0 : @UnpackedFloat.unpackMantissa .binary64 b.toBitVec = 0#52 ↔ b.toNat % 2 ^ 52 = 0 := by
    rw [← BitVec.toNat_inj, hm]
    rfl
  -- a normal mantissa is the fraction below its implicit leading bit
  have happ : (1#1 ++ @UnpackedFloat.unpackMantissa .binary64 b.toBitVec).toNat =
      2 ^ 52 + b.toNat % 2 ^ 52 := by
    have hor := Nat.two_pow_add_eq_or_of_lt (Nat.mod_lt b.toNat (show 0 < 2 ^ 52 by positivity)) 1
    rw [Nat.mul_one] at hor
    rw [BitVec.toNat_append, hm, hor]
    rfl
  unfold ofBits UnpackedFloat.unpack
  simp only [exponentField_toNat, fractionField_toNat, signField_eq, hE1, hE0, hM0, beq_iff_eq]
  have hb : (Format.binary64.exponentBias : Int) = 1023 := rfl
  split_ifs <;> simp_all [ofUnpacked, Nat.pow_eq]

theorem ofFloat_eq_ofUnpacked (x : Float) : ofFloat x = ofUnpacked x.toModel.unpack :=
  ofBits_eq_ofUnpacked x.toBits

theorem unpack_of_isNaNBits {v : BitVec 64} (h : @UnpackedFloat.isNaNBits .binary64 v = true) :
    UnpackedFloat.unpack .binary64 v = .notANumber := by
  simp only [UnpackedFloat.isNaNBits, decide_eq_true_eq] at h
  simp [UnpackedFloat.unpack, h.1, h.2]

/-- A word that is a number is the word of its float. -/
theorem ofFloat_ofBits {b : UInt64} (h : ofBits b ≠ .nan) : ofFloat (Float.ofBits b) = ofBits b := by
  have hbits : (Float.ofBits b).toBits = b := by
    change UInt64.ofBitVec (UnpackedFloat.pack .binary64 (UnpackedFloat.unpack .binary64 b.toBitVec)) = b
    rw [UnpackedFloat.pack_unpack]
    split
    · rename_i hn
      rw [ofBits_eq_ofUnpacked, unpack_of_isNaNBits hn] at h
      exact absurd rfl h
    · rfl
  rw [ofFloat, hbits]

theorem ofFloat_of_nonneg {x : Float} (hf : x.isFinite = true) (h : 0.0 ≤ x) :
    ∃ neg m q, ofFloat x = .finite neg m q ∧ (neg = false ∨ m = 0) := by
  have hle := le_iff_unpack.1 h
  rw [unpack_zero] at hle
  have hfin : x.toModel.unpack.isFinite = true := hf
  rw [ofFloat_eq_ofUnpacked]
  cases hx : x.toModel.unpack with
  | notANumber => simp [hx, UnpackedFloat.isFinite] at hfin
  | infinity s => simp [hx, UnpackedFloat.isFinite] at hfin
  | zero s => exact ⟨_, 0, -1074, rfl, .inr rfl⟩
  | finite s m e hm =>
    cases s with
    | negative =>
      rw [hx] at hle
      simp [UnpackedFloat.le, UnpackedFloat.compare] at hle
    | positive => exact ⟨false, m, e, rfl, .inl rfl⟩

theorem ofBits_finite_bounds {b : UInt64} {neg : Bool} {m : Nat} {q : Int}
    (h : ofBits b = .finite neg m q) :
    m < 2 ^ 53 ∧ -1074 ≤ q ∧ q ≤ 971 ∧ (q = -1074 ∨ 2 ^ 52 ≤ m) := by
  have hf : b.toNat % 2 ^ 52 < 2 ^ 52 := Nat.mod_lt _ (by positivity)
  have he : b.toNat / 2 ^ 52 % 2 ^ 11 < 2 ^ 11 := Nat.mod_lt _ (by positivity)
  unfold ofBits at h
  simp only [exponentField_toNat, fractionField_toNat, beq_iff_eq] at h
  -- the infinities and NaN are no finite words; a subnormal or a normal one is left
  split_ifs at h with h1 h2 h3 <;> simp only [Binary64.finite.injEq] at h
  · obtain ⟨-, rfl, rfl⟩ := h
    omega
  · obtain ⟨-, rfl, rfl⟩ := h
    simp only [Nat.pow_eq]
    omega

/-! ### Rounding half to even -/

def value (m : ℕ) (q : ℤ) : ℚ := m * 2 ^ q

/-- `n` is `t` rounded to the nearest natural number, a half going to the even one. -/
structure RoundsTo (t : ℚ) (n : ℕ) : Prop where
  near : |t - n| ≤ 1 / 2
  even_of_tie : |t - n| = 1 / 2 → Even n

theorem roundHalfEven_roundsTo (num : ℕ) {den : ℕ} (hd : 0 < den) :
    RoundsTo ((num : ℚ) / den) (roundHalfEven num den) := by
  have hdq : (0 : ℚ) < den := by exact_mod_cast hd
  -- the quotient's whole part and the remainder's share of a denominator
  have hsplit : (num : ℚ) / den - (num / den : ℕ) = ((num % den : ℕ) : ℚ) / den := by
    have h := Nat.div_add_mod num den
    rw [eq_div_iff hdq.ne', sub_mul, div_mul_cancel₀ _ hdq.ne']
    have : ((den * (num / den) + num % den : ℕ) : ℚ) = num := by exact_mod_cast h
    push_cast at this
    linarith
  have hρ : 0 ≤ ((num % den : ℕ) : ℚ) / den := by positivity
  have hρ1 : ((num % den : ℕ) : ℚ) / den < 1 := by
    rw [div_lt_one hdq]
    exact_mod_cast Nat.mod_lt num hd
  unfold roundHalfEven
  dsimp only
  split_ifs with h1 h2 h3
  · -- below a half: the quotient
    have hlt : ((num % den : ℕ) : ℚ) / den < 1 / 2 := by
      rw [div_lt_iff₀ hdq]
      have : ((2 * (num % den) : ℕ) : ℚ) < den := by exact_mod_cast h1
      push_cast at this
      linarith
    refine ⟨?_, ?_⟩ <;> rw [hsplit, abs_of_nonneg hρ]
    · exact hlt.le
    · exact fun ht => absurd ht hlt.ne
  · -- above a half: the quotient and one
    have hgt : 1 / 2 < ((num % den : ℕ) : ℚ) / den := by
      rw [lt_div_iff₀ hdq]
      have : (den : ℚ) < ((2 * (num % den) : ℕ) : ℚ) := by exact_mod_cast h2
      push_cast at this
      linarith
    have he : (num : ℚ) / den - ((num / den + 1 : ℕ) : ℚ) = ((num % den : ℕ) : ℚ) / den - 1 := by
      push_cast
      linarith
    refine ⟨?_, ?_⟩ <;> rw [he, abs_of_neg (by linarith)]
    · linarith
    · exact fun ht => absurd ht (by linarith)
  all_goals
    -- a half: the even one of the two
    have hhalf : ((num % den : ℕ) : ℚ) / den = 1 / 2 := by
      rw [div_eq_iff hdq.ne']
      have : ((2 * (num % den) : ℕ) : ℚ) = den := by exact_mod_cast (by omega : 2 * (num % den) = den)
      push_cast at this
      linarith
  · refine ⟨?_, ?_⟩ <;> rw [hsplit, hhalf, abs_of_pos (by norm_num)]
    exact fun _ => Nat.even_iff.mpr h3
  · have he : (num : ℚ) / den - ((num / den + 1 : ℕ) : ℚ) = -(1 / 2) := by
      push_cast
      linarith
    refine ⟨?_, ?_⟩ <;> rw [he, abs_neg, abs_of_pos (by norm_num)]
    exact fun _ => Nat.even_add_one.mpr (by rw [Nat.even_iff]; omega)

namespace RoundsTo

variable {t : ℚ} {n n' : ℕ}

theorem not_lt (h : RoundsTo t n) (h' : RoundsTo t n') : ¬ n < n' := by
  intro hlt
  have h1 := abs_le.1 h.near
  have h2 := abs_le.1 h'.near
  have hc : (n : ℚ) + 1 ≤ n' := by exact_mod_cast hlt
  -- `t` lies half-way between `n` and `n + 1 = n'`
  have hn' : (n' : ℚ) = n + 1 := by linarith
  have ht : t - n = 1 / 2 := by linarith
  have ht' : t - n' = -(1 / 2) := by linarith
  have he := h.even_of_tie (by rw [ht, abs_of_pos (by norm_num)])
  have he' := h'.even_of_tie (by rw [ht', abs_neg, abs_of_pos (by norm_num)])
  rw [show n' = n + 1 by exact_mod_cast hn', Nat.even_add_one] at he'
  exact he' he

theorem unique (h : RoundsTo t n) (h' : RoundsTo t n') : n = n' :=
  le_antisymm (Nat.le_of_not_lt (h'.not_lt h)) (Nat.le_of_not_lt (h.not_lt h'))

theorem dist_le (h : RoundsTo t n) (j : ℤ) : |t - n| ≤ |t - j| := by
  by_contra hlt
  rw [not_le] at hlt
  have hnj : |((n - j : ℤ) : ℚ)| < 1 := by
    calc |((n - j : ℤ) : ℚ)| = |(t - j) - (t - n)| := by push_cast; ring_nf
      _ ≤ |t - j| + |t - n| := abs_sub _ _
      _ < 1 := by linarith [h.near]
  have hz : (n : ℤ) - j = 0 := by
    rw [← Int.cast_abs, ← Int.cast_one, Int.cast_lt, Int.abs_lt_one_iff] at hnj
    exact hnj
  have hj : (j : ℚ) = n := by exact_mod_cast (by omega : j = (n : ℤ))
  rw [hj] at hlt
  exact lt_irrefl _ hlt

theorem of_nearer {s : ℚ} (h : RoundsTo t n) (hs : |s - n| ≤ |t - n|) : RoundsTo s n :=
  ⟨hs.trans h.near, fun ht => h.even_of_tie (le_antisymm h.near (ht ▸ hs))⟩

theorem binade (h : RoundsTo t n) (h1 : 2 ^ 52 ≤ t) (h2 : t < 2 ^ 53) : 2 ^ 52 ≤ n ∧ n ≤ 2 ^ 53 := by
  have hnear := abs_le.1 h.near
  constructor
  · have h : (2 : ℚ) ^ 52 < n + 1 := by linarith
    have : 2 ^ 52 < n + 1 := by exact_mod_cast h
    omega
  · have h : (n : ℚ) < 2 ^ 53 + 1 := by linarith
    have : n < 2 ^ 53 + 1 := by exact_mod_cast h
    omega

end RoundsTo

/-! ### The nearest word -/

theorem ratio_scaled (num den : ℕ) (k : ℤ) :
    ((num * 2 ^ (-k).toNat : ℕ) : ℚ) / ((den * 2 ^ k.toNat : ℕ) : ℚ) = (num : ℚ) / den / 2 ^ k := by
  rcases Int.eq_nat_or_neg k with ⟨j, rfl | rfl⟩
  · simp only [Int.toNat_natCast, zpow_natCast, Int.toNat_neg_natCast]
    push_cast
    ring
  · simp only [neg_neg, Int.toNat_natCast, Int.toNat_neg_natCast, zpow_neg, zpow_natCast]
    push_cast
    field_simp

theorem log2_bounds {n : ℕ} (hn : 0 < n) : (2 : ℚ) ^ n.log2 ≤ n ∧ (n : ℚ) < 2 * 2 ^ n.log2 := by
  constructor
  · exact_mod_cast Nat.log2_self_le hn.ne'
  · have := Nat.lt_log2_self (n := n)
    rw [pow_succ] at this
    exact_mod_cast (by omega : n < 2 * 2 ^ n.log2)

theorem scaleExponent_guess {num den : ℕ} (hn : 0 < num) (hd : 0 < den) :
    ∃ k, scaleExponent num den = max k (-1074) ∧ 2 ^ 52 ≤ (num : ℚ) / den / 2 ^ k ∧
      (num : ℚ) / den / 2 ^ k < 2 ^ 53 := by
  obtain ⟨hn1, hn2⟩ := log2_bounds hn
  obtain ⟨hd1, hd2⟩ := log2_bounds hd
  have hdq : (0 : ℚ) < den := by exact_mod_cast hd
  -- the first guess `k0` puts the ratio between `2^51` and `2^53`
  have hu : (num : ℚ) / den / 2 ^ ((num.log2 : ℤ) - den.log2 - 52) =
      (num / 2 ^ num.log2) * (2 ^ den.log2 / den) * 2 ^ 52 := by
    rw [zpow_sub₀ two_ne_zero, zpow_sub₀ two_ne_zero]
    simp only [zpow_natCast]
    field_simp
  have hA : 1 ≤ (num : ℚ) / 2 ^ num.log2 ∧ (num : ℚ) / 2 ^ num.log2 < 2 := by
    constructor
    · rw [le_div_iff₀ (by positivity)]; linarith
    · rw [div_lt_iff₀ (by positivity)]; linarith
  have hB : 1 / 2 < (2 : ℚ) ^ den.log2 / den ∧ (2 : ℚ) ^ den.log2 / den ≤ 1 := by
    constructor
    · rw [lt_div_iff₀ hdq]; linarith
    · rw [div_le_one hdq]; exact hd1
  have hu1 : 2 ^ 51 < (num : ℚ) / den / 2 ^ ((num.log2 : ℤ) - den.log2 - 52) := by
    rw [hu]
    nlinarith [mul_le_mul_of_nonneg_right hA.1 (le_of_lt (lt_trans (by norm_num) hB.1))]
  have hu2 : (num : ℚ) / den / 2 ^ ((num.log2 : ℤ) - den.log2 - 52) < 2 ^ 53 := by
    rw [hu]
    nlinarith [mul_le_mul_of_nonneg_left hB.2 (le_trans zero_le_one hA.1)]
  -- the model's test of the first guess, read as a comparison of the scaled ratio
  have hcond : ∀ k : ℤ, num * 2 ^ (-k).toNat < 2 ^ 52 * den * 2 ^ k.toNat ↔
      (num : ℚ) / den / 2 ^ k < 2 ^ 52 := by
    intro k
    rw [← ratio_scaled, div_lt_iff₀ (by positivity), Nat.mul_assoc]
    norm_cast
  unfold scaleExponent
  simp only [Nat.pow_eq, hcond]
  split_ifs with hc
  · -- one step down when the first guess leaves the ratio below `2^52`
    have h2 : (num : ℚ) / den / 2 ^ ((num.log2 : ℤ) - den.log2 - 52 - 1) =
        2 * ((num : ℚ) / den / 2 ^ ((num.log2 : ℤ) - den.log2 - 52)) := by
      rw [zpow_sub₀ two_ne_zero, zpow_one]
      field_simp
    exact ⟨_, rfl, by rw [h2]; linarith, by rw [h2]; linarith⟩
  · exact ⟨_, rfl, not_lt.mp hc, hu2⟩

theorem scaleExponent_bounds {num den : ℕ} (hn : 0 < num) (hd : 0 < den)
    (hlo : (2 : ℚ) ^ (-1022 : ℤ) ≤ num / den) :
    2 ^ 52 ≤ (num : ℚ) / den / 2 ^ scaleExponent num den ∧
      (num : ℚ) / den / 2 ^ scaleExponent num den < 2 ^ 53 := by
  obtain ⟨k, hK, h1, h2⟩ := scaleExponent_guess hn hd
  -- a ratio of at least `2^-1022` below `2^(k+53)` leaves the guess above the clamp
  have hk : -1074 ≤ k := by
    have hr : (num : ℚ) / den < 2 ^ (k + 53) := by
      rw [zpow_add₀ two_ne_zero, ← div_lt_iff₀' (by positivity)]
      exact_mod_cast h2
    have := lt_of_le_of_lt hlo hr
    rw [zpow_lt_zpow_iff_right₀ one_lt_two] at this
    omega
  rw [hK, max_eq_left hk]
  exact ⟨h1, h2⟩

theorem value_nearest {r : ℚ} {k : ℤ} {j : ℕ} (hlo : 2 ^ 52 ≤ r / 2 ^ k)
    (hj : RoundsTo (r / 2 ^ k) j) {m : ℕ} (hm : m < 2 ^ 53) (q : ℤ) :
    |value j k - r| ≤ |value m q - r| := by
  have hpos : (0 : ℚ) < 2 ^ k := zpow_pos two_pos k
  -- no multiple of `2^k` is nearer
  have hmul : ∀ w : ℤ, |value j k - r| ≤ |(w : ℚ) * 2 ^ k - r| := by
    intro w
    have e1 : value j k - r = 2 ^ k * (j - r / 2 ^ k) := by
      unfold value
      field_simp
    have e2 : (w : ℚ) * 2 ^ k - r = 2 ^ k * (w - r / 2 ^ k) := by
      field_simp
    rw [e1, e2, abs_mul, abs_mul, abs_sub_comm (j : ℚ), abs_sub_comm (w : ℚ)]
    exact mul_le_mul_of_nonneg_left (hj.dist_le w) (abs_nonneg _)
  by_cases hz : 2 ^ 52 * 2 ^ k ≤ value m q
  · -- the float is a multiple of `2^k`
    have hq : k ≤ q := by
      by_contra hlt
      rw [not_le] at hlt
      have hm' : (m : ℚ) < 2 ^ 53 := by exact_mod_cast hm
      have : value m q < 2 ^ 52 * 2 ^ k :=
        calc value m q = m * 2 ^ q := rfl
          _ < 2 ^ 53 * 2 ^ q := by gcongr
          _ = 2 ^ 52 * 2 ^ (q + 1) := by rw [zpow_add_one₀ two_ne_zero]; ring
          _ ≤ 2 ^ 52 * 2 ^ k := by gcongr; exact one_le_two; omega
      linarith
    have hv : value m q = ((m * 2 ^ (q - k).toNat : ℕ) : ℤ) * 2 ^ k := by
      unfold value
      push_cast
      rw [← zpow_natCast, Int.toNat_of_nonneg (by omega), mul_assoc, ← zpow_add₀ two_ne_zero,
        sub_add_cancel]
    rw [hv]
    exact hmul _
  · -- the float lies below the binade of `r`
    rw [not_le] at hz
    have hr : 2 ^ 52 * 2 ^ k ≤ r := by rwa [le_div_iff₀ hpos] at hlo
    calc |value j k - r| ≤ |(((2 ^ 52 : ℕ) : ℤ) : ℚ) * 2 ^ k - r| := hmul _
      _ = r - 2 ^ 52 * 2 ^ k := by
        rw [abs_of_nonpos (by push_cast; linarith)]
        push_cast
        ring
      _ ≤ r - value m q := by linarith
      _ ≤ |value m q - r| := by
        rw [abs_sub_comm]
        exact le_abs_self _

theorem exponent_le_of_lt_top {r : ℚ} {k : ℤ} (hr : 2 ^ 52 * 2 ^ k ≤ r)
    (hhi : r < (2 ^ 53 - 1 / 2) * 2 ^ (971 : ℤ)) : k ≤ 971 := by
  by_contra hgt
  rw [not_le] at hgt
  have : (2 : ℚ) ^ 52 * 2 ^ (972 : ℤ) ≤ 2 ^ 52 * 2 ^ k := by
    gcongr
    · exact one_le_two
    · omega
  have hc : (2 ^ 53 - 1 / 2) * (2 : ℚ) ^ (971 : ℤ) < 2 ^ 52 * 2 ^ (972 : ℤ) := by
    rw [show (972 : ℤ) = 971 + 1 by rfl, zpow_add_one₀ two_ne_zero]
    have hP : (0 : ℚ) < 2 ^ (971 : ℤ) := by positivity
    generalize (2 : ℚ) ^ (971 : ℤ) = P at hP ⊢
    have : (2 : ℚ) ^ 52 * (P * 2) - (2 ^ 53 - 1 / 2) * P = P / 2 := by ring
    linarith only [this, hP]
  exact absurd (hhi.trans (hc.trans_le (this.trans hr))) (lt_irrefl _)

/-- The word nearest to a ratio in the normal range, below the point where rounding would pass the
largest float, is a positive finite word no farther from the ratio than any float. -/
theorem nearestBits_nearest {num den : ℕ} (hn : 0 < num) (hd : 0 < den)
    (hlo : (2 : ℚ) ^ (-1022 : ℤ) ≤ num / den)
    (hhi : (num : ℚ) / den < (2 ^ 53 - 1 / 2) * 2 ^ (971 : ℤ)) :
    ∃ M K, ofBits (nearestBits false num den) = .finite false M K ∧
      ∀ m q, m < 2 ^ 53 → |value M K - num / den| ≤ |value m q - num / den| := by
  obtain ⟨ht1, ht2⟩ := scaleExponent_bounds hn hd hlo
  have hklo : -1074 ≤ scaleExponent num den := by
    unfold scaleExponent
    exact le_max_right _ _
  obtain ⟨k, hk⟩ : ∃ k, scaleExponent num den = k := ⟨_, rfl⟩
  rw [hk] at ht1 ht2 hklo
  have hpos : (0 : ℚ) < 2 ^ k := zpow_pos two_pos k
  have hr : 2 ^ 52 * 2 ^ k ≤ (num : ℚ) / den := by rwa [le_div_iff₀ hpos] at ht1
  have hkhi : k ≤ 971 := exponent_le_of_lt_top hr hhi
  obtain ⟨j, hjdef⟩ : ∃ j, roundHalfEven (num * 2 ^ (-k).toNat) (den * 2 ^ k.toNat) = j := ⟨_, rfl⟩
  have hj : RoundsTo ((num : ℚ) / den / 2 ^ k) j := by
    rw [← hjdef, ← ratio_scaled]
    exact roundHalfEven_roundsTo _ (by positivity)
  obtain ⟨hjlo, hjhi⟩ := hj.binade ht1 ht2
  have hnearest := fun m q (hm : m < 2 ^ 53) => value_nearest ht1 hj hm q
  unfold nearestBits
  rw [if_neg (by omega)]
  simp only [hk, Nat.pow_eq, hjdef]
  split_ifs with h53
  · -- a carry into the next binade: the word of `2^52 * 2^(k+1)`
    have hk971 : k ≠ 971 := by
      rintro rfl
      have : (2 : ℚ) ^ 53 - 1 / 2 ≤ (num : ℚ) / den / 2 ^ (971 : ℤ) := by
        have hnear := abs_le.1 hj.near
        rw [h53] at hnear
        generalize (num : ℚ) / den / 2 ^ (971 : ℤ) = t at hnear ⊢
        push_cast at hnear
        linarith [hnear.1]
      rw [le_div_iff₀ (by positivity)] at this
      exact (not_lt.mpr this hhi).elim
    refine ⟨2 ^ 52, k + 1, ofBits_encode false le_rfl (by norm_num) (by omega) (by omega), ?_⟩
    have hv : value (2 ^ 52) (k + 1) = value j k := by
      unfold value
      rw [h53, zpow_add_one₀ two_ne_zero]
      push_cast
      ring
    intro m q hm
    rw [hv]
    exact hnearest m q hm
  · exact ⟨j, k, ofBits_encode false hjlo (by omega) (by omega) (by omega), hnearest⟩

end Binary64

end TradeDesk
