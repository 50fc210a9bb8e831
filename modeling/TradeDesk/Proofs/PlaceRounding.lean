import TradeDesk.Proofs.RoundedArithmetic
import TradeDesk.Proofs.AmountTexts

/-!
Rounding a float to decimal places gives the nearest word to its digits, never overflows and is
monotone (`Binary64.roundPlaces_ok`, `Binary64.roundPlaces_le`).
-/

namespace TradeDesk

namespace Binary64

/-! ### Words at the ends of the range -/

theorem RoundsTo.self (n : ℕ) : RoundsTo n n where
  near := by simp
  even_of_tie := by simp

theorem exists_grid_rounding {r : ℚ} (hr : 0 < r) : ∃ K Q, Grid r K ∧ RoundsTo (r / 2 ^ K) Q := by
  have hn : 0 < r.num.natAbs := Int.natAbs_pos.2 (Rat.num_pos.2 hr).ne'
  have hr' : r = (r.num.natAbs : ℚ) / r.den := by
    rw [Nat.cast_natAbs, abs_of_pos (Rat.num_pos.2 hr)]
    exact (Rat.num_div_den r).symm
  obtain ⟨K, Q, hg, hq, -⟩ := nearestBits_rounds false hn r.den_pos
  exact ⟨K, Q, hr' ▸ hg, hr' ▸ hq⟩

theorem Nearest.infinite (neg : Bool) {r : ℚ} (hr : 2 ^ (1024 : ℤ) ≤ r) :
    Nearest neg r (.infinite neg) := by
  obtain ⟨K, Q, hg, hq⟩ := exists_grid_rounding (lt_of_lt_of_le (by positivity) hr)
  -- `2^1024` is `2^52` on the grid of `2^972`, and rounds to itself
  have hsplit : (2 : ℚ) ^ (1024 : ℤ) = ((2 ^ 52 : ℕ) : ℚ) * 2 ^ (972 : ℤ) := by
    rw [show (1024 : ℤ) = 52 + 972 by norm_num, zpow_add₀ two_ne_zero]
    norm_num
  have htop : (2 : ℚ) ^ (1024 : ℤ) / 2 ^ (972 : ℤ) = ((2 ^ 52 : ℕ) : ℚ) := by
    rw [hsplit, mul_div_assoc, div_self (Grid.two_pow_pos 972).ne', mul_one]
  have hg' : Grid (2 ^ (1024 : ℤ)) 972 :=
    ⟨by norm_num, by rw [htop]; norm_num, .inr (by rw [htop]; norm_num)⟩
  have hq' : RoundsTo (2 ^ (1024 : ℤ) / 2 ^ (972 : ℤ)) (2 ^ 52) := by
    rw [htop]
    exact RoundsTo.self _
  have hmono := hg'.rounded_mono hg hq' hq hr
  rw [← hsplit] at hmono
  exact ⟨K, Q, hg, hq, .overflow hmono⟩

theorem Nearest.zero (neg : Bool) {r : ℚ} (hr0 : 0 < r) (hr : r < 2 ^ (-1075 : ℤ)) :
    Nearest neg r (.finite neg 0 (-1074)) := by
  have hhalf : r / 2 ^ (-1074 : ℤ) < 1 / 2 := by
    rw [div_lt_iff₀ (Grid.two_pow_pos _)]
    calc r < 2 ^ (-1075 : ℤ) := hr
      _ = 1 / 2 * 2 ^ (-1074 : ℤ) := by
        rw [show (-1075 : ℤ) = -1 + -1074 by norm_num, zpow_add₀ two_ne_zero]
        norm_num
  have hpos : 0 < r / 2 ^ (-1074 : ℤ) := div_pos hr0 (Grid.two_pow_pos _)
  refine ⟨-1074, 0, ⟨le_rfl, by linarith, .inl rfl⟩, ⟨?_, fun _ => ⟨0, rfl⟩⟩, ?_⟩
  · rw [Nat.cast_zero, sub_eq_add_neg, neg_zero, add_zero, abs_of_pos hpos]
    exact hhalf.le
  · exact .finite (by rw [Nat.cast_zero, zero_mul]; positivity) (by simp [value])

theorem ofBits_signBit (neg : Bool) : ofBits (signBit neg) = .finite neg 0 (-1074) := by
  cases neg <;> decide

theorem ofBits_of_magnitude {b : UInt64}
    (h : (b &&& 0x7FFFFFFFFFFFFFFF == 0x7FF0000000000000) = true) :
    ofBits b = .infinite (b >>> 63 == 1) := by
  have hmag : b.toNat % 2 ^ 63 = 2047 * 2 ^ 52 := by
    rw [beq_iff_eq] at h
    have h' := congrArg UInt64.toNat h
    rwa [UInt64.toNat_and, show (0x7FFFFFFFFFFFFFFF : UInt64).toNat = 2 ^ 63 - 1 by rfl,
      Nat.and_two_pow_sub_one_eq_mod] at h'
  have he : ((b >>> 52) &&& 0x7FF).toNat = 2047 := by
    rw [exponentField_toNat]
    omega
  have hf : (b &&& 0xFFFFFFFFFFFFF).toNat = 0 := by
    rw [fractionField_toNat]
    omega
  unfold ofBits
  simp only [he, hf]
  rfl

theorem value_le_largest {b : UInt64} {neg : Bool} {m : ℕ} {q : ℤ} (h : ofBits b = .finite neg m q) :
    value m q ≤ value (2 ^ 53 - 1) 971 := by
  obtain ⟨hm, -, hq, -⟩ := ofBits_finite_bounds h
  unfold value
  have hm' : (m : ℚ) ≤ ((2 ^ 53 - 1 : ℕ) : ℚ) := by exact_mod_cast Nat.le_pred_of_lt hm
  calc (m : ℚ) * 2 ^ q ≤ ((2 ^ 53 - 1 : ℕ) : ℚ) * 2 ^ q := by gcongr
    _ ≤ ((2 ^ 53 - 1 : ℕ) : ℚ) * 2 ^ (971 : ℤ) := by gcongr; exact one_le_two

theorem Nearest.finite_of_le {neg : Bool} {r : ℚ} {w : Binary64} (h : Nearest neg r w)
    (hr : r ≤ value (2 ^ 53 - 1) 971) : ∃ M q, w = .finite neg M q := by
  obtain ⟨K, Q, hg, hq, he⟩ := h
  have htop : value (2 ^ 53 - 1) 971 / 2 ^ (971 : ℤ) = ((2 ^ 53 - 1 : ℕ) : ℚ) := by
    rw [value, mul_div_assoc, div_self (Grid.two_pow_pos 971).ne', mul_one]
  have hg' : Grid (value (2 ^ 53 - 1) 971) 971 :=
    ⟨by norm_num, by rw [htop]; norm_num, .inr (by rw [htop]; norm_num)⟩
  have hq' : RoundsTo (value (2 ^ 53 - 1) 971 / 2 ^ (971 : ℤ)) (2 ^ 53 - 1) := by
    rw [htop]
    exact RoundsTo.self _
  have hmono := hg.rounded_mono hg' hq hq' hr
  cases he with
  | finite _ _ => exact ⟨_, _, rfl⟩
  | overflow hv =>
    -- the largest value lies below `2^1024`
    have hlt : ((2 ^ 53 - 1 : ℕ) : ℚ) * 2 ^ (971 : ℤ) < 2 ^ (1024 : ℤ) :=
      mul_two_zpow_lt (a := 53) (b := 971) (by norm_num) le_rfl
    exact absurd (hv.trans hmono) (not_le.2 hlt)

theorem RoundedTo.finite_of_le {v : ℚ} {w : Binary64} (h : RoundedTo v w)
    (hv : |v| ≤ value (2 ^ 53 - 1) 971) : ∃ neg M q, w = .finite neg M q := by
  rcases h with ⟨-, neg, rfl⟩ | ⟨-, h⟩
  · exact ⟨neg, 0, -1074, rfl⟩
  · exact ⟨_, h.finite_of_le hv⟩

/-! ### Decimals -/

theorem decimalLength_bounds {c : ℕ} (hc : 0 < c) :
    10 ^ (decimalLength c - 1) ≤ c ∧ c < 10 ^ decimalLength c := by
  have hpos : 0 < decimalLength c := Nat.length_toDigits_pos
  refine ⟨?_, (Nat.length_toDigits_le_iff (by norm_num) hpos).1 le_rfl⟩
  by_contra hlt
  rw [not_le] at hlt
  obtain h0 | h1 := Nat.eq_zero_or_pos (decimalLength c - 1)
  · rw [h0, pow_zero] at hlt
    omega
  · have hle := (Nat.length_toDigits_le_iff (b := 10) (by norm_num) h1).2 hlt
    change decimalLength c ≤ decimalLength c - 1 at hle
    omega

theorem abs_signed {a : ℚ} (ha : 0 ≤ a) (neg : Bool) : |if neg then -a else a| = a := by
  cases neg <;> simp [abs_of_nonneg ha]

theorem Nearest.roundedTo {neg : Bool} {r : ℚ} {w : Binary64} (hr : 0 < r) (h : Nearest neg r w) :
    RoundedTo (if neg then -r else r) w := by
  have hsign : decide ((if neg then -r else r) < 0) = neg := by cases neg <;> simp [hr, hr.le]
  refine .inr ⟨by cases neg <;> simp [hr.ne'], ?_⟩
  rwa [hsign, abs_signed hr.le]

/-- The word `decimalBits` gives is the decimal `±c * 10^e` rounded, also where it skips the
division far outside the range of finite words. -/
theorem decimalBits_roundedTo (neg : Bool) (c : ℕ) (e : ℤ) :
    RoundedTo (if neg then -((c : ℚ) * 10 ^ e) else (c : ℚ) * 10 ^ e)
      (ofBits (decimalBits neg c e)) := by
  rcases Nat.eq_zero_or_pos c with rfl | hc
  · rw [show decimalBits neg 0 e = signBit neg from if_pos rfl, ofBits_signBit]
    exact .inl ⟨by simp, neg, rfl⟩
  have hr : 0 < (c : ℚ) * 10 ^ e := by positivity
  obtain ⟨hlo, hhi⟩ := decimalLength_bounds hc
  refine Nearest.roundedTo hr ?_
  unfold decimalBits
  rw [if_neg hc.ne']
  split_ifs with hbig hsmall hpos
  · -- at least `10^310`: past the largest word
    rw [ofBits_infinityBits]
    refine Nearest.infinite neg ?_
    have hlo' : ((10 ^ (decimalLength c - 1) : ℕ) : ℚ) ≤ c := by exact_mod_cast hlo
    calc (2 : ℚ) ^ (1024 : ℤ) ≤ 10 ^ (310 : ℤ) := by
          norm_num
          exact_mod_cast (show 2 ^ 1024 ≤ 10 ^ 310 by decide +kernel)
      _ ≤ 10 ^ (((decimalLength c - 1 : ℕ) : ℤ) + e) :=
        zpow_le_zpow_right₀ (by norm_num) (by omega)
      _ = ((10 ^ (decimalLength c - 1) : ℕ) : ℚ) * 10 ^ e := by
        rw [zpow_add₀ (by norm_num), zpow_natCast]
        push_cast
        ring
      _ ≤ c * 10 ^ e := by gcongr
  · -- below `10^-330`: under half the least subnormal
    rw [ofBits_signBit]
    refine Nearest.zero neg hr ?_
    have hhi' : (c : ℚ) < ((10 ^ decimalLength c : ℕ) : ℚ) := by exact_mod_cast hhi
    calc (c : ℚ) * 10 ^ e < ((10 ^ decimalLength c : ℕ) : ℚ) * 10 ^ e := by gcongr
      _ = 10 ^ ((decimalLength c : ℤ) + e) := by
        rw [zpow_add₀ (by norm_num), zpow_natCast]
        push_cast
        ring
      _ ≤ 10 ^ (-331 : ℤ) := zpow_le_zpow_right₀ (by norm_num) (by omega)
      _ < 2 ^ (-1075 : ℤ) := by
          norm_num
          exact inv_strictAnti₀ (by positivity) (by exact_mod_cast (show 2 ^ 1075 < 10 ^ 331 by decide +kernel))
  · have h := nearestBits_rounds neg (show 0 < c * 10 ^ e.toNat by positivity) Nat.one_pos
    have hv : ((c * 10 ^ e.toNat : ℕ) : ℚ) / ((1 : ℕ) : ℚ) = c * 10 ^ e := by
      push_cast
      rw [div_one, ← zpow_natCast, Int.toNat_of_nonneg hpos]
    rw [hv] at h
    simpa only [Nat.pow_eq] using h
  · have h := nearestBits_rounds neg hc (show 0 < 10 ^ (-e).toNat by positivity)
    have hv : (c : ℚ) / ((10 ^ (-e).toNat : ℕ) : ℚ) = c * 10 ^ e := by
      push_cast
      rw [← zpow_natCast, Int.toNat_of_nonneg (by omega), zpow_neg, div_eq_mul_inv, inv_inv]
    rw [hv] at h
    simpa only [Nat.pow_eq] using h

theorem nearestRatio_roundedTo (num : ℕ) {den : ℕ} (hd : 0 < den) :
    RoundedTo ((num : ℚ) / den) (ofFloat (nearestRatio false num den)) := by
  have hw : RoundedTo ((num : ℚ) / den) (ofBits (nearestBits false num den)) := by
    rcases Nat.eq_zero_or_pos num with rfl | hn
    · rw [show nearestBits false 0 den = signBit false from if_pos (.inl rfl), ofBits_signBit]
      exact .inl ⟨by simp, false, rfl⟩
    · simpa using Nearest.roundedTo (by positivity) (nearestBits_rounds false hn hd)
  rw [nearestRatio, ofFloat_ofBits hw.ne_nan]
  exact hw

/-! ### Rounding at a number of places -/

theorem RoundsTo.signed_le {t t' : ℚ} {R R' : ℕ} {neg neg' : Bool} (ht : 0 ≤ t) (ht' : 0 ≤ t')
    (h : RoundsTo t R) (h' : RoundsTo t' R')
    (hle : (if neg then -t else t) ≤ (if neg' then -t' else t')) :
    (if neg then -(R : ℚ) else R) ≤ (if neg' then -(R' : ℚ) else R') := by
  have hR := R.cast_nonneg (α := ℚ)
  have hR' := R'.cast_nonneg (α := ℚ)
  cases neg <;> cases neg' <;> simp only [Bool.false_eq_true, if_true, if_false] at hle ⊢
  · exact_mod_cast h.mono h' hle
  · -- a value at least zero below one at most zero: both are zero
    rw [h.natCast (N := 0) (by simp; linarith), h'.natCast (N := 0) (by simp; linarith)]
    simp
  · linarith
  · have hle' : (R' : ℚ) ≤ R := by exact_mod_cast h'.mono h (by linarith)
    linarith

section Places

variable {x x' y y' : Float}

theorem roundPlaces_nan (hx : ofFloat x = .nan) (n : ℤ) : roundPlaces x n = .ok x := by
  simp [roundPlaces, hx]

theorem roundPlaces_infinite {s : Bool} (hx : ofFloat x = .infinite s) (n : ℤ) :
    roundPlaces x n = .ok x := by
  simp [roundPlaces, hx]

theorem roundPlaces_many {n : ℤ} (hn : 323 < n) {neg : Bool} {m : ℕ} {q : ℤ}
    (hx : ofFloat x = .finite neg m q) : roundPlaces x n = .ok x := by
  simp [roundPlaces, hx, hn]

theorem roundPlaces_finite {neg : Bool} {m : ℕ} {q : ℤ} (hx : ofFloat x = .finite neg m q) {p : ℕ}
    (hp : p ≤ 323) :
    ∃ y, roundPlaces x p = .ok y ∧ (∃ n M e, ofFloat y = .finite n M e) ∧
      RoundedTo (if neg then -((scaledRound m q p : ℚ) * 10 ^ (-(p : ℤ)))
        else (scaledRound m q p : ℚ) * 10 ^ (-(p : ℤ))) (ofFloat y) := by
  have hw := decimalBits_roundedTo neg (scaledRound m q p) (-(p : ℤ))
  -- the digits are at most those of the largest value, which has none after the point
  have hN : value (2 ^ 53 - 1) 971 * 10 ^ p = (((2 ^ 53 - 1) * 2 ^ 971 * 10 ^ p : ℕ) : ℚ) := by
    simp only [value, Nat.cast_mul, Nat.cast_pow, Nat.cast_ofNat, zpow_ofNat]
  have hle : scaledRound m q p ≤ (2 ^ 53 - 1) * 2 ^ 971 * 10 ^ p :=
    (Amount.scaledRound_roundsTo m q p).mono (RoundsTo.self _)
      (by rw [← hN]; gcongr; exact value_le_largest hx)
  have hR : (scaledRound m q p : ℚ) * 10 ^ (-(p : ℤ)) ≤ value (2 ^ 53 - 1) 971 := by
    calc (scaledRound m q p : ℚ) * 10 ^ (-(p : ℤ))
        ≤ (((2 ^ 53 - 1) * 2 ^ 971 * 10 ^ p : ℕ) : ℚ) * 10 ^ (-(p : ℤ)) := by
          gcongr
      _ = value (2 ^ 53 - 1) 971 := by
        rw [← hN, zpow_neg, zpow_natCast, mul_assoc, mul_inv_cancel₀ (by positivity), mul_one]
  obtain ⟨nw, M, e, hfin⟩ := hw.finite_of_le (by rw [abs_signed (by positivity)]; exact hR)
  -- a finite word does not have the bits of an infinity, so the rounding does not fail
  have htest : (decimalBits neg (scaledRound m q p) (-(p : ℤ)) &&& 0x7FFFFFFFFFFFFFFF ==
      0x7FF0000000000000) = false := by
    cases ht : (decimalBits neg (scaledRound m q p) (-(p : ℤ)) &&& 0x7FFFFFFFFFFFFFFF ==
      0x7FF0000000000000)
    · rfl
    · rw [ofBits_of_magnitude ht] at hfin
      cases hfin
  have hy := ofFloat_ofBits (b := decimalBits neg (scaledRound m q p) (-(p : ℤ))) (by simp [hfin])
  refine ⟨_, ?_, ⟨nw, M, e, hy.trans hfin⟩, hy ▸ hw⟩
  simp only [roundPlaces, hx, htest]
  rw [if_neg (by omega), if_neg (by omega)]
  rfl

/-- Rounding at no fewer than zero places never overflows. -/
theorem roundPlaces_ok (x : Float) {n : ℤ} (hn : 0 ≤ n) : ∃ y, roundPlaces x n = .ok y := by
  cases hx : ofFloat x with
  | nan => exact ⟨x, roundPlaces_nan hx n⟩
  | infinite s => exact ⟨x, roundPlaces_infinite hx n⟩
  | finite neg m q =>
    rcases lt_or_ge 323 n with hbig | hle
    · exact ⟨x, roundPlaces_many hbig hx⟩
    · obtain ⟨p, rfl⟩ := Int.eq_ofNat_of_zero_le hn
      obtain ⟨y, hy, -⟩ := roundPlaces_finite hx (p := p) (by omega)
      exact ⟨y, hy⟩

theorem roundPlaces_finite_of_finite {n : ℤ} (hn : 0 ≤ n) {neg : Bool} {m : ℕ} {q : ℤ}
    (hx : ofFloat x = .finite neg m q) (hy : roundPlaces x n = .ok y) :
    ∃ n M e, ofFloat y = .finite n M e := by
  rcases lt_or_ge 323 n with hbig | hle
  · rw [roundPlaces_many hbig hx, Except.ok.injEq] at hy
    exact ⟨_, _, _, hy ▸ hx⟩
  · obtain ⟨p, rfl⟩ := Int.eq_ofNat_of_zero_le hn
    obtain ⟨z, hz, hfin, -⟩ := roundPlaces_finite hx (p := p) (by omega)
    rw [hz, Except.ok.injEq] at hy
    exact hy ▸ hfin

theorem infinite_le_finite {a b : Float} {s nb : Bool} {mb : ℕ} {qb : ℤ}
    (ha : ofFloat a = .infinite s) (hb : ofFloat b = .finite nb mb qb) (h : a ≤ b) : s = true := by
  cases s
  · rw [Float.le_iff_place (Float.isNaN_of_le h).1 (Float.isNaN_of_le h).2,
      unpack_of_posInf ha] at h
    exact absurd h (not_le.2 (place_finite hb).2)
  · rfl

theorem finite_le_infinite {a b : Float} {s na : Bool} {ma : ℕ} {qa : ℤ}
    (ha : ofFloat a = .finite na ma qa) (hb : ofFloat b = .infinite s) (h : a ≤ b) : s = false := by
  cases s
  · rfl
  · rw [Float.le_iff_place (Float.isNaN_of_le h).1 (Float.isNaN_of_le h).2,
      unpack_of_negInf hb] at h
    exact absurd h (not_le.2 (place_finite ha).1)

theorem scaledRound_signed_le {neg neg' : Bool} {m m' : ℕ} {q q' : ℤ} (p : ℕ)
    (h : toRat (.finite neg m q) ≤ toRat (.finite neg' m' q')) :
    (if neg then -((scaledRound m q p : ℚ) * 10 ^ (-(p : ℤ)))
        else (scaledRound m q p : ℚ) * 10 ^ (-(p : ℤ))) ≤
      (if neg' then -((scaledRound m' q' p : ℚ) * 10 ^ (-(p : ℤ)))
        else (scaledRound m' q' p : ℚ) * 10 ^ (-(p : ℤ))) := by
  have hp : (0 : ℚ) < 10 ^ p := by positivity
  have hv : (if neg then -(value m q * 10 ^ p) else value m q * 10 ^ p) ≤
      (if neg' then -(value m' q' * 10 ^ p) else value m' q' * 10 ^ p) := by
    rw [← neg_mul, ← neg_mul, ← ite_mul, ← ite_mul]
    exact mul_le_mul_of_nonneg_right h hp.le
  have hR := RoundsTo.signed_le (by have := value_nonneg m q; positivity)
    (by have := value_nonneg m' q'; positivity) (Amount.scaledRound_roundsTo m q p)
    (Amount.scaledRound_roundsTo m' q' p) hv
  rw [← neg_mul, ← neg_mul, ← ite_mul, ← ite_mul]
  exact mul_le_mul_of_nonneg_right hR (by positivity)

/-- Rounding at no fewer than zero places is monotone. -/
theorem roundPlaces_le {n : ℤ} (hn : 0 ≤ n) (h : x ≤ x') (hy : roundPlaces x n = .ok y)
    (hy' : roundPlaces x' n = .ok y') : y ≤ y' := by
  obtain ⟨hxn, hxn'⟩ := Float.isNaN_of_le h
  cases hx : ofFloat x with
  | nan => exact absurd hx (ofFloat_ne_nan hxn)
  | infinite s =>
    rw [roundPlaces_infinite hx, Except.ok.injEq] at hy
    subst hy
    cases hx' : ofFloat x' with
    | nan => exact absurd hx' (ofFloat_ne_nan hxn')
    | infinite s' =>
      rw [roundPlaces_infinite hx', Except.ok.injEq] at hy'
      exact hy' ▸ h
    | finite n' m' q' =>
      obtain rfl := infinite_le_finite hx hx' h
      obtain ⟨_, _, _, hfin⟩ := roundPlaces_finite_of_finite hn hx' hy'
      exact infinite_le hx (isNaN_of_ofFloat (by simp [hfin]))
  | finite neg m q =>
    obtain ⟨_, _, _, hfin⟩ := roundPlaces_finite_of_finite hn hx hy
    cases hx' : ofFloat x' with
    | nan => exact absurd hx' (ofFloat_ne_nan hxn')
    | infinite s' =>
      obtain rfl := finite_le_infinite hx hx' h
      rw [roundPlaces_infinite hx', Except.ok.injEq] at hy'
      exact le_of_infinite (isNaN_of_ofFloat (by simp [hfin])) (hy' ▸ hx')
    | finite neg' m' q' =>
      rcases lt_or_ge 323 n with hbig | hle
      · rw [roundPlaces_many hbig hx, Except.ok.injEq] at hy
        rw [roundPlaces_many hbig hx', Except.ok.injEq] at hy'
        exact hy ▸ hy' ▸ h
      · -- both are the nearest words to their signed digits, which are in order
        obtain ⟨p, rfl⟩ := Int.eq_ofNat_of_zero_le hn
        obtain ⟨z, hz, -, hr⟩ := roundPlaces_finite hx (p := p) (by omega)
        obtain ⟨z', hz', -, hr'⟩ := roundPlaces_finite hx' (p := p) (by omega)
        rw [hz, Except.ok.injEq] at hy
        rw [hz', Except.ok.injEq] at hy'
        subst hy hy'
        have hxx := Float.toRat_le hx hx' h
        rw [hx, hx'] at hxx
        exact hr.le hr' (scaledRound_signed_le p hxx)

end Places

end Binary64

end TradeDesk
