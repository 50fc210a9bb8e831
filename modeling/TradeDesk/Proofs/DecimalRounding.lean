import TradeDesk.Proofs.ShortestMinimality

/-!
Rounding a float at a number of decimal places, in all three directions, through its shortest
decimal (`Amount.rounding_law`).
-/

namespace TradeDesk

theorem decimalLength_le_iff {n k : ℕ} (hk : 0 < k) : Binary64.decimalLength n ≤ k ↔ n < 10 ^ k :=
  Nat.length_toDigits_le_iff (by norm_num) hk

namespace Decimal

def negate (d : Decimal) : Decimal := ⟨!d.neg, d.coeff, d.exp⟩

@[simp] theorem toRat_negate (d : Decimal) : d.negate.toRat = -d.toRat := by
  cases d with
  | mk neg c e => cases neg <;> simp [negate, toRat, signed]

/-- `r` is `d` rounded up to the exponent `t`: the least decimal with that exponent that is not
below `d`. -/
structure CeilOf (t : Int) (d r : Decimal) : Prop where
  exp_eq : r.exp = t
  le : d.toRat ≤ r.toRat
  lt_add : r.toRat < d.toRat + 10 ^ t

variable {ctx : DecimalContext} {mode mode' : Rounding} {d r : Decimal} {t : Int}

theorem quantize_eq_coeffAt (ctx : DecimalContext) (mode : Rounding) (d : Decimal) (t : Int) :
    d.quantize ctx mode t =
      if t < ctx.etiny ∨ ctx.emax < t then none
      else if d.coeff = 0 then some ⟨d.neg, 0, t⟩
      else if (ctx.precision : Int) < Binary64.decimalLength d.coeff + d.exp - t then none
      else if ctx.precision < Binary64.decimalLength (d.coeffAt mode t) then none
      else if d.coeffAt mode t ≠ 0 ∧ ctx.emax < t + Binary64.decimalLength (d.coeffAt mode t) - 1
      then none
      else some ⟨d.neg, d.coeffAt mode t, t⟩ := rfl

theorem quantize_congr (h : d.coeffAt mode t = d.coeffAt mode' t) :
    d.quantize ctx mode t = d.quantize ctx mode' t := by
  rw [quantize_eq_coeffAt, quantize_eq_coeffAt, h]

theorem coeffAt_ceiling (d : Decimal) (t : Int) : d.coeffAt .ceiling t = d.negate.coeffAt .floor t :=
  rfl

theorem quantize_ceiling_eq (ctx : DecimalContext) (d : Decimal) (t : Int) :
    d.quantize ctx .ceiling t = (d.negate.quantize ctx .floor t).map negate := by
  rw [quantize_eq_coeffAt, quantize_eq_coeffAt, ← coeffAt_ceiling]
  simp only [negate]
  split_ifs <;> simp_all [negate]

theorem quantize_ceiling (h : d.quantize ctx .ceiling t = some r) : CeilOf t d r := by
  rw [quantize_ceiling_eq] at h
  obtain ⟨r', hr', rfl⟩ := Option.map_eq_some_iff.1 h
  have hf := quantize_floor hr'
  have hle := hf.le
  have hlt := hf.lt_add
  rw [toRat_negate] at hle hlt
  refine ⟨hf.exp_eq, ?_, ?_⟩
  · rw [toRat_negate]
    linarith
  · rw [toRat_negate]
    linarith

theorem coeffAt_halfUp (d : Decimal) (t : Int) :
    d.coeffAt .halfUp t = d.coeffAt .floor t ∨ d.coeffAt .halfUp t = d.coeffAt .ceiling t := by
  unfold coeffAt
  split
  · exact .inl rfl
  · dsimp only
    generalize hU : Nat.pow 10 (t - d.exp).toNat = unit
    have hu : 0 < unit := hU ▸ Nat.pow_pos (by norm_num)
    by_cases hh : unit ≤ 2 * (d.coeff % unit)
    · -- a rest of at least half the unit is not zero
      have hr : d.coeff % unit ≠ 0 := by omega
      cases d.neg <;> simp [roundsAway, hh, hr]
    · cases d.neg <;> simp [roundsAway, hh]

theorem quantize_halfUp (ctx : DecimalContext) (d : Decimal) (t : Int) :
    d.quantize ctx .halfUp t = d.quantize ctx .floor t ∨
      d.quantize ctx .halfUp t = d.quantize ctx .ceiling t :=
  (coeffAt_halfUp d t).imp quantize_congr quantize_congr

open Binary64 in
theorem coeffAt_of_le (h : t ≤ d.exp) : d.coeffAt mode t = d.coeff * 10 ^ (d.exp - t).toNat := by
  unfold coeffAt
  rw [if_pos h, Nat.pow_eq]

theorem coeffAt_mul_of_le (h : t ≤ d.exp) :
    (d.coeffAt mode t : ℚ) * 10 ^ t = d.coeff * 10 ^ d.exp := by
  rw [coeffAt_of_le h]
  push_cast
  rw [mul_assoc, ← zpow_natCast, ← zpow_add₀ (by norm_num), Int.toNat_of_nonneg (by omega)]
  congr 2
  ring

theorem coeffAt_of_lt (h : d.exp < t) :
    d.coeff / 10 ^ (t - d.exp).toNat ≤ d.coeffAt mode t ∧
      d.coeffAt mode t ≤ d.coeff / 10 ^ (t - d.exp).toNat + 1 := by
  unfold coeffAt
  rw [if_neg (not_le.2 h)]
  dsimp only
  simp only [Nat.pow_eq]
  split <;> omega

open Binary64 in
theorem ten_pow_le_coeffAt (hc : 0 < d.coeff) (h : (28 : ℤ) < decimalLength d.coeff + d.exp - t) :
    10 ^ 28 ≤ d.coeffAt mode t := by
  obtain ⟨hlo, -⟩ := decimalLength_bounds hc
  rcases le_or_gt t d.exp with hle | hlt
  · rw [coeffAt_of_le hle]
    calc 10 ^ 28 ≤ 10 ^ (decimalLength d.coeff - 1 + (d.exp - t).toNat) :=
          Nat.pow_le_pow_right (by norm_num) (by omega)
      _ = 10 ^ (decimalLength d.coeff - 1) * 10 ^ (d.exp - t).toNat := pow_add _ _ _
      _ ≤ d.coeff * 10 ^ (d.exp - t).toNat := Nat.mul_le_mul_right _ hlo
  · refine le_trans ?_ (coeffAt_of_lt hlt).1
    rw [Nat.le_div_iff_mul_le (by positivity), ← pow_add]
    exact (Nat.pow_le_pow_right (by norm_num) (by omega)).trans hlo

open Binary64 in
theorem decimalLength_coeffAt (hc : 0 < d.coeff) :
    (decimalLength (d.coeffAt mode t) : ℤ) + t ≤ max ((decimalLength d.coeff : ℤ) + d.exp) t + 1 := by
  obtain ⟨-, hhi⟩ := decimalLength_bounds hc
  have hL : 0 < decimalLength d.coeff := Nat.length_toDigits_pos
  rcases le_or_gt t d.exp with hle | hlt
  · rw [coeffAt_of_le hle]
    have : decimalLength (d.coeff * 10 ^ (d.exp - t).toNat) ≤ decimalLength d.coeff + (d.exp - t).toNat := by
      refine (decimalLength_le_iff (by omega)).2 ?_
      rw [pow_add]
      exact Nat.mul_lt_mul_of_pos_right hhi (by positivity)
    omega
  · have hle : d.coeffAt mode t ≤ d.coeff / 10 ^ (t - d.exp).toNat + 1 := (coeffAt_of_lt hlt).2
    rcases le_or_gt (decimalLength d.coeff) (t - d.exp).toNat with hL | hL
    · -- nothing is left above the unit: the coefficient is at most one
      have h0 : d.coeff / 10 ^ (t - d.exp).toNat = 0 :=
        Nat.div_eq_of_lt (hhi.trans_le (Nat.pow_le_pow_right (by norm_num) hL))
      have : decimalLength (d.coeffAt mode t) ≤ 1 := (decimalLength_le_iff one_pos).2 (by omega)
      omega
    · have hq : d.coeff / 10 ^ (t - d.exp).toNat < 10 ^ (decimalLength d.coeff - (t - d.exp).toNat) := by
        rw [Nat.div_lt_iff_lt_mul (by positivity), ← pow_add, Nat.sub_add_cancel hL.le]
        exact hhi
      have : decimalLength (d.coeffAt mode t) ≤ decimalLength d.coeff - (t - d.exp).toNat + 1 := by
        refine (decimalLength_le_iff (by omega)).2 ?_
        calc d.coeffAt mode t ≤ d.coeff / 10 ^ (t - d.exp).toNat + 1 := hle
          _ ≤ 10 ^ (decimalLength d.coeff - (t - d.exp).toNat) := hq
          _ < 10 ^ (decimalLength d.coeff - (t - d.exp).toNat + 1) :=
            Nat.pow_lt_pow_right (by norm_num) (by omega)
      omega

open Binary64 in
theorem quantize_standard_eq_none_iff (ht₁ : -1000026 ≤ t) (ht₂ : t ≤ 999999)
    (hd : (decimalLength d.coeff : ℤ) + d.exp ≤ 999999) :
    d.quantize .standard mode t = none ↔ 10 ^ 28 ≤ d.coeffAt mode t := by
  have hrange : ¬(t < DecimalContext.standard.etiny ∨ DecimalContext.standard.emax < t) := by
    simp only [DecimalContext.standard, DecimalContext.etiny]
    omega
  rw [quantize_eq_coeffAt, if_neg hrange]
  rcases Nat.eq_zero_or_pos d.coeff with h0 | hc
  · rw [if_pos h0, coeffAt_zero h0]
    simp
  rw [if_neg hc.ne']
  have hpost : DecimalContext.standard.precision < decimalLength (d.coeffAt mode t) ↔
      10 ^ 28 ≤ d.coeffAt mode t := by
    show 28 < decimalLength (d.coeffAt mode t) ↔ _
    rw [← not_le, decimalLength_le_iff (by norm_num), not_lt]
  by_cases hbig : 10 ^ 28 ≤ d.coeffAt mode t
  · refine iff_of_true ?_ hbig
    by_cases hpre : (DecimalContext.standard.precision : ℤ) < decimalLength d.coeff + d.exp - t
    · rw [if_pos hpre]
    · rw [if_neg hpre, if_pos (hpost.2 hbig)]
  · refine iff_of_false ?_ hbig
    have hpre : ¬ ((DecimalContext.standard.precision : ℤ) < decimalLength d.coeff + d.exp - t) :=
      fun h => hbig (ten_pow_le_coeffAt hc h)
    have htop : (decimalLength (d.coeffAt mode t) : ℤ) + t ≤
        max ((decimalLength d.coeff : ℤ) + d.exp) t + 1 := decimalLength_coeffAt hc
    have hemax : ¬ (d.coeffAt mode t ≠ 0 ∧
        DecimalContext.standard.emax < t + decimalLength (d.coeffAt mode t) - 1) := by
      simp only [DecimalContext.standard]
      omega
    rw [if_neg hpre, if_neg (mt hpost.1 hbig), if_neg hemax]
    simp

end Decimal

namespace Decimal

theorem ofFloat_toFloat (d : Decimal) :
    Binary64.ofFloat d.toFloat = Binary64.ofBits (Binary64.decimalBits d.neg d.coeff d.exp) :=
  Binary64.ofFloat_ofBits (Binary64.decimalBits_roundedTo d.neg d.coeff d.exp).ne_nan

theorem toFloat_roundedTo (d : Decimal) : Binary64.RoundedTo d.toRat (Binary64.ofFloat d.toFloat) := by
  have h := Binary64.decimalBits_roundedTo d.neg d.coeff d.exp
  rw [ofFloat_toFloat]
  cases d with
  | mk neg c e => cases neg <;> simpa [toRat, signed] using h

theorem toFloat_le {r d : Decimal} (h : r.toRat ≤ d.toRat) : r.toFloat ≤ d.toFloat :=
  r.toFloat_roundedTo.le d.toFloat_roundedTo h

end Decimal

namespace DecimalContext

theorem unitExponent_invalid {places : Int} (h : places < -2000054 ∨ 2000054 < places) :
    standard.unitExponent (-places) = .error .invalid := by
  unfold unitExponent
  rw [if_pos (by simp only [standard]; omega)]

theorem unitExponent_overflow {places : Int} (h₁ : -2000054 ≤ places) (h₂ : places < -999999) :
    standard.unitExponent (-places) = .error .overflow := by
  unfold unitExponent
  rw [if_neg (by simp only [standard]; omega), if_pos (by simp only [standard]; omega)]

theorem unitExponent_ok {places : Int} (h₁ : -999999 ≤ places) (h₂ : places ≤ 2000054) :
    standard.unitExponent (-places) = .ok (max (-places) (-1000026)) := by
  unfold unitExponent
  rw [if_neg (by simp only [standard]; omega), if_neg (by simp only [standard]; omega)]
  rfl

end DecimalContext

section

variable {mode mode' : Rounding} {x y : Float} {places t : Int} {neg : Bool} {m : ℕ} {q : ℤ} {s : Scientific}

theorem quantizeFloat_of_unit_error {e : QuantizeError}
    (hu : DecimalContext.standard.unitExponent (-places) = .error e) :
    quantizeFloat mode x places = .error e := by
  unfold quantizeFloat
  rw [hu]
  rfl

theorem quantizeFloat_of_unit (hu : DecimalContext.standard.unitExponent (-places) = .ok t) :
    quantizeFloat mode x places =
      match Binary64.ofFloat x with
      | .nan => .ok x
      | .infinite _ => .error .invalid
      | .finite _ _ _ =>
        match Binary64.shortest? x with
        | none => .error .invalid
        | some (neg, s) =>
          match Decimal.quantize .standard mode ⟨neg, s.digits, s.exp⟩ t with
          | none => .error .invalid
          | some d => .ok d.toFloat := by
  unfold quantizeFloat
  rw [hu]
  rfl

theorem quantizeFloat_finite (hu : DecimalContext.standard.unitExponent (-places) = .ok t)
    (hx : Binary64.ofFloat x = .finite neg m q) (hs : Binary64.shortest? x = some (neg, s)) :
    quantizeFloat mode x places =
      match Decimal.quantize .standard mode ⟨neg, s.digits, s.exp⟩ t with
      | none => .error .invalid
      | some d => .ok d.toFloat := by
  rw [quantizeFloat_of_unit hu, hx]
  dsimp only
  rw [hs]

theorem quantizeFloat_ok (hx : Binary64.ofFloat x = .finite neg m q)
    (h : quantizeFloat mode x places = .ok y) :
    ∃ s t r, Binary64.shortest? x = some (neg, s) ∧ Binary64.nearestDecimal neg s.digits s.exp = x ∧
      Decimal.quantize .standard mode ⟨neg, s.digits, s.exp⟩ t = some r ∧ y = r.toFloat := by
  obtain ⟨s, hs, hback⟩ := Binary64.shortest_readsBack hx
  cases hu : DecimalContext.standard.unitExponent (-places) with
  | error e =>
    rw [quantizeFloat_of_unit_error hu] at h
    cases h
  | ok t =>
    rw [quantizeFloat_finite hu hx hs] at h
    split at h
    · cases h
    · next r hr =>
      cases h
      exact ⟨s, t, r, hs, hback, hr, rfl⟩

theorem quantizeFloat_floor_le (hx : x.isFinite = true) (h : quantizeFloat .floor x places = .ok y) :
    y ≤ x := by
  obtain ⟨neg, m, q, hxf⟩ := Binary64.ofFloat_of_isFinite hx
  obtain ⟨s, t, r, -, hback, hr, rfl⟩ := quantizeFloat_ok hxf h
  have hle := Decimal.toFloat_le (Decimal.quantize_floor hr).le
  rwa [show Decimal.toFloat ⟨neg, s.digits, s.exp⟩ = x from hback] at hle

theorem le_quantizeFloat_ceiling (hx : x.isFinite = true) (h : quantizeFloat .ceiling x places = .ok y) :
    x ≤ y := by
  obtain ⟨neg, m, q, hxf⟩ := Binary64.ofFloat_of_isFinite hx
  obtain ⟨s, t, r, -, hback, hr, rfl⟩ := quantizeFloat_ok hxf h
  have hle := Decimal.toFloat_le (Decimal.quantize_ceiling hr).le
  rwa [show Decimal.toFloat ⟨neg, s.digits, s.exp⟩ = x from hback] at hle

theorem quantizeFloat_halfUp (x : Float) (places : Int) :
    quantizeFloat .halfUp x places = quantizeFloat .floor x places ∨
      quantizeFloat .halfUp x places = quantizeFloat .ceiling x places := by
  cases hu : DecimalContext.standard.unitExponent (-places) with
  | error e => exact .inl (by rw [quantizeFloat_of_unit_error hu, quantizeFloat_of_unit_error hu])
  | ok t =>
    rw [quantizeFloat_of_unit hu, quantizeFloat_of_unit hu, quantizeFloat_of_unit hu]
    split
    · exact .inl rfl
    · exact .inl rfl
    · split
      · exact .inl rfl
      · next neg s _ =>
        rcases Decimal.quantize_halfUp .standard ⟨neg, s.digits, s.exp⟩ t with h | h
        · exact .inl (by rw [h])
        · exact .inr (by rw [h])

theorem quantizeFloat_clamp (h₁ : 1000026 < places) (h₂ : places ≤ 2000054) :
    quantizeFloat mode x places = quantizeFloat mode x 1000026 := by
  have hu : DecimalContext.standard.unitExponent (-places) = .ok (-1000026) := by
    rw [DecimalContext.unitExponent_ok (by omega) h₂, max_eq_right (by omega)]
  have hu' : DecimalContext.standard.unitExponent (-1000026) = .ok (-1000026) :=
    DecimalContext.unitExponent_standard (by norm_num) (by norm_num)
  rw [quantizeFloat_of_unit hu, quantizeFloat_of_unit hu']

theorem quantizeFloat_nan (h₁ : -999999 ≤ places) (h₂ : places ≤ 2000054)
    (hx : Binary64.ofFloat x = .nan) : quantizeFloat mode x places = .ok x := by
  rw [quantizeFloat_of_unit (DecimalContext.unitExponent_ok h₁ h₂), hx]

theorem quantizeFloat_infinite (h₁ : -999999 ≤ places) (h₂ : places ≤ 2000054) {sign : Bool}
    (hx : Binary64.ofFloat x = .infinite sign) : quantizeFloat mode x places = .error .invalid := by
  rw [quantizeFloat_of_unit (DecimalContext.unitExponent_ok h₁ h₂), hx]

theorem finite_of_shortest (hs : Binary64.shortest? x = some (neg, s)) :
    ∃ m q, Binary64.ofFloat x = .finite neg m q := by
  cases hx : Binary64.ofFloat x with
  | nan => simp [Binary64.shortest?, hx] at hs
  | infinite sign => simp [Binary64.shortest?, hx] at hs
  | finite n m q =>
    have hn : n = neg := by
      rcases m with _ | m <;> simp [Binary64.shortest?, hx] at hs <;> exact hs.1
    exact ⟨m, q, hn ▸ rfl⟩

theorem quantizeFloat_exact (h₁ : -999999 ≤ places) (h₂ : places ≤ 1000026)
    (hx : Binary64.ofFloat x = .finite neg m q) (hs : Binary64.shortest? x = some (neg, s)) :
    quantizeFloat mode x places =
      if 10 ^ 28 ≤ Decimal.coeffAt mode ⟨neg, s.digits, s.exp⟩ (-places) then .error .invalid
      else .ok (Decimal.toFloat ⟨neg, Decimal.coeffAt mode ⟨neg, s.digits, s.exp⟩ (-places), -places⟩) := by
  rw [quantizeFloat_finite (DecimalContext.unitExponent_standard (by omega) (by omega)) hx hs]
  have hd := Binary64.shortest_length hx hs
  have hiff : Decimal.quantize .standard mode ⟨neg, s.digits, s.exp⟩ (-places) = none ↔
      10 ^ 28 ≤ Decimal.coeffAt mode ⟨neg, s.digits, s.exp⟩ (-places) :=
    Decimal.quantize_standard_eq_none_iff (by omega) (by omega) (by dsimp only; omega)
  split_ifs with hbig
  · rw [hiff.2 hbig]
  · obtain ⟨r, hr⟩ := Option.ne_none_iff_exists'.1 (mt hiff.1 hbig)
    rw [hr, Decimal.quantize_eq_some hr]

theorem quantizeFloat_short (h₁ : -999999 ≤ places) (h₂ : places ≤ 1000026)
    (hs : Binary64.shortest? x = some (neg, s)) (hshort : -places ≤ s.exp)
    (h : quantizeFloat mode x places = .ok y) : y = x := by
  obtain ⟨m, q, hx⟩ := finite_of_shortest hs
  rw [quantizeFloat_exact h₁ h₂ hx hs] at h
  split_ifs at h
  cases h
  exact Binary64.nearestDecimal_of_value hx hs (Decimal.coeffAt_mul_of_le hshort)

theorem quantizeFloat_of_onUnit (h₁ : -999999 ≤ places) (h₂ : places ≤ 1000026)
    (hs : Binary64.shortest? y = some (neg, s))
    (hv : (Decimal.coeffAt mode ⟨neg, s.digits, s.exp⟩ (-places) : ℚ) * 10 ^ (-places) =
      s.digits * 10 ^ s.exp)
    (hc : Decimal.coeffAt mode ⟨neg, s.digits, s.exp⟩ (-places) < 10 ^ 28) :
    quantizeFloat mode y places = .ok y := by
  obtain ⟨m, q, hy⟩ := finite_of_shortest hs
  rw [quantizeFloat_exact h₁ h₂ hy hs, if_neg (not_le.2 hc)]
  exact congrArg Except.ok (Binary64.nearestDecimal_of_value hy hs hv)

theorem finite_of_quantizeFloat (h₁ : -999999 ≤ places) (h₂ : places ≤ 1000026)
    (h : quantizeFloat mode x places = .ok y) (hy : y.isFinite = true) :
    ∃ neg m q, Binary64.ofFloat x = .finite neg m q := by
  obtain ⟨neg', m', q', hyf⟩ := Binary64.ofFloat_of_isFinite hy
  cases hx : Binary64.ofFloat x with
  | nan =>
    rw [quantizeFloat_nan h₁ (by omega) hx] at h
    cases h
    rw [hx] at hyf
    cases hyf
  | infinite sign =>
    rw [quantizeFloat_infinite h₁ (by omega) hx] at h
    cases h
  | finite neg m q => exact ⟨neg, m, q, rfl⟩

theorem shortest_onUnit (mode : Rounding) {neg neg' : Bool} {c m : ℕ} {e : ℤ}
    (hy : Binary64.ofFloat (Decimal.toFloat ⟨neg, c, e⟩) = .finite neg' m q) (hm : 0 < m)
    (hs : Binary64.shortest? (Decimal.toFloat ⟨neg, c, e⟩) = some (neg', s)) :
    (Decimal.coeffAt mode ⟨neg', s.digits, s.exp⟩ e : ℚ) * 10 ^ e = s.digits * 10 ^ s.exp ∧
      Decimal.coeffAt mode ⟨neg', s.digits, s.exp⟩ e ≤ 3 * c := by
  have hw : Binary64.ofBits (Binary64.decimalBits neg c e) = .finite neg' m q := by
    rw [← hy, Decimal.ofFloat_toFloat]
  -- a zero coefficient reads as a signed zero, which has no mantissa
  have hc : 0 < c := by
    rcases Nat.eq_zero_or_pos c with rfl | h0
    · rw [show Binary64.decimalBits neg 0 e = Binary64.signBit neg from if_pos rfl,
        Binary64.ofBits_signBit] at hw
      cases hw
      omega
    · exact h0
  rw [Binary64.shortest_of_pos hy hm, Option.some.injEq, Prod.mk.injEq] at hs
  obtain ⟨-, rfl⟩ := hs
  have hwc := Binary64.within_of_decimalBits hc hw hm
  have hexp := Binary64.le_shortestOf_exp hw hm hc hwc
  have hws := Binary64.shortestOf_within hw hm
  generalize Binary64.shortestOf m q (Binary64.narrowBelow m q) = s at hexp hws ⊢
  have hv : (Decimal.coeffAt mode ⟨neg', s.digits, s.exp⟩ e : ℚ) * 10 ^ e = s.digits * 10 ^ s.exp :=
    Decimal.coeffAt_mul_of_le hexp
  refine ⟨hv, ?_⟩
  obtain ⟨-, hhi⟩ := hws.bounds hm
  obtain ⟨hlo, -⟩ := hwc.bounds hm
  have hpos : (0 : ℚ) < 2 ^ q := Binary64.Grid.two_pow_pos q
  have hm1 : (1 : ℚ) ≤ m := by exact_mod_cast hm
  have hends : ((m : ℚ) + 1 / 2) * 2 ^ q ≤ 3 * (((m : ℚ) - 1 / 2) * 2 ^ q) := by
    rw [← mul_assoc]
    exact mul_le_mul_of_nonneg_right (by linarith) hpos.le
  have h3 : (Decimal.coeffAt mode ⟨neg', s.digits, s.exp⟩ e : ℚ) ≤ 3 * c := by
    refine le_of_mul_le_mul_right ?_ (zpow_pos (by norm_num : (0 : ℚ) < 10) e)
    rw [hv, mul_assoc]
    linarith
  exact_mod_cast h3

theorem quantizeFloat_quantizeFloat (h₁ : -999999 ≤ places) (h₂ : places ≤ 1000026)
    (h : quantizeFloat mode x places = .ok y) (hy : y.isFinite = true) :
    quantizeFloat mode' y places = .ok y := by
  obtain ⟨neg', m', q', hyf⟩ := Binary64.ofFloat_of_isFinite hy
  obtain ⟨neg, m, q, hx⟩ := finite_of_quantizeFloat h₁ h₂ h hy
  obtain ⟨s, hs, -⟩ := Binary64.shortest_readsBack hx
  rw [quantizeFloat_exact h₁ h₂ hx hs] at h
  split_ifs at h with hbig
  cases h
  generalize hc : Decimal.coeffAt mode ⟨neg, s.digits, s.exp⟩ (-places) = c at hbig hyf ⊢
  rcases le_or_gt (-places) s.exp with hshort | hlong
  · -- nothing below the unit: the float is unchanged and its coefficient is the same in every mode
    have hc' : Decimal.coeffAt mode' ⟨neg, s.digits, s.exp⟩ (-places) = c := by
      rw [← hc, Decimal.coeffAt_of_le hshort, Decimal.coeffAt_of_le hshort]
    have hxc : Decimal.toFloat ⟨neg, c, -places⟩ = x := by
      refine Binary64.nearestDecimal_of_value hx hs ?_
      rw [← hc]
      exact Decimal.coeffAt_mul_of_le hshort
    rw [hxc]
    refine quantizeFloat_of_onUnit h₁ h₂ hs ?_ (hc' ▸ not_le.1 hbig)
    exact Decimal.coeffAt_mul_of_le hshort
  · rcases Nat.eq_zero_or_pos m' with rfl | hm'
    · -- a zero: its shortest decimal is zero, kept in every mode
      refine quantizeFloat_of_onUnit h₁ h₂ (Binary64.shortest_zero hyf) ?_ ?_
      · rw [Decimal.coeffAt_zero rfl]
        simp
      · rw [Decimal.coeffAt_zero rfl]
        positivity
    have hs' := Binary64.shortest_of_pos hyf hm'
    obtain ⟨hv, h3⟩ := shortest_onUnit mode' hyf hm' hs'
    refine quantizeFloat_of_onUnit h₁ h₂ hs' hv ?_
    -- the rounded coefficient has seventeen digits at most
    have hcle : c ≤ 10 ^ 16 + 1 := by
      have hd := Binary64.shortest_digits_le hx hs
      have hup : c ≤ s.digits / 10 ^ (-places - s.exp).toNat + 1 := hc ▸ (Decimal.coeffAt_of_lt hlong).2
      have hdiv : s.digits / 10 ^ (-places - s.exp).toNat ≤ s.digits / 10 :=
        Nat.div_le_div_left (Nat.le_self_pow (by omega) 10) (by norm_num)
      omega
    omega

end

theorem Except.mapError_eq_ok {ε ε' α : Type} {f : ε → ε'} {e : Except ε α} {a : α} :
    e.mapError f = .ok a ↔ e = .ok a := by
  cases e <;> simp [Except.mapError]

namespace Amount

def roundings (x : Float) (places : Int) : List (Rounding × Except Fault Float) :=
  [(.floor, roundDown x places), (.ceiling, roundUp x places), (.halfUp, roundNear x places)]

theorem forall_roundings {x : Float} {places : Int} {P : Rounding → Except Fault Float → Prop}
    (h : ∀ mode, P mode ((quantizeFloat mode x places).mapError QuantizeError.fault)) :
    ∀ r ∈ roundings x places, P r.1 r.2 := by
  intro r hr
  simp only [roundings, List.mem_cons, List.not_mem_nil, or_false] at hr
  rcases hr with rfl | rfl | rfl <;> exact h _

/-- The law of rounding at a number of decimal places. The unit `10^-places` is formed first, for
every float: past 2000054 places either way it is invalid, and from 1000000 to 2000054 places to
the left it overflows; from 1000027 to 2000054 places to the right it is the unit of 1000026
places. Where the unit is formed NaN stays NaN, an infinity is invalid, and a finite float is the
float of its shortest decimal rounded at `10^-places`, invalid exactly when that coefficient needs
more than 28 digits; a float with no digit below `10^-places` comes back unchanged. Rounding down
never goes above the float, rounding up never below, and rounding half up gives one of the two. A
finite result is kept by every rounding at the same places; an infinite one, which rounding up
can give, is invalid to round again. -/
theorem rounding_law (x : Float) (places : Int) :
    ((places < -2000054 ∨ 2000054 < places) → ∀ r ∈ roundings x places, r.2 = .error .invalidDecimal) ∧
    (-2000054 ≤ places → places < -999999 → ∀ r ∈ roundings x places, r.2 = .error .decimalOverflow) ∧
    (1000026 < places → places ≤ 2000054 → roundings x places = roundings x 1000026) ∧
    (-999999 ≤ places → places ≤ 1000026 →
      (Binary64.ofFloat x = .nan → ∀ r ∈ roundings x places, r.2 = .ok x) ∧
      (∀ sign, Binary64.ofFloat x = .infinite sign → ∀ r ∈ roundings x places, r.2 = .error .invalidDecimal) ∧
      (∀ neg s, Binary64.shortest? x = some (neg, s) → ∀ r ∈ roundings x places,
        r.2 = if 10 ^ 28 ≤ Decimal.coeffAt r.1 ⟨neg, s.digits, s.exp⟩ (-places) then .error .invalidDecimal
          else .ok (Decimal.toFloat ⟨neg, Decimal.coeffAt r.1 ⟨neg, s.digits, s.exp⟩ (-places), -places⟩)) ∧
      (∀ neg s, Binary64.shortest? x = some (neg, s) → -places ≤ s.exp →
        ∀ r ∈ roundings x places, ∀ y, r.2 = .ok y → y = x)) ∧
    (x.isFinite = true →
      (∀ y, roundDown x places = .ok y → y ≤ x) ∧ (∀ y, roundUp x places = .ok y → x ≤ y)) ∧
    (∀ y, roundNear x places = .ok y → roundDown x places = .ok y ∨ roundUp x places = .ok y) ∧
    (-999999 ≤ places → places ≤ 2000054 → ∀ r ∈ roundings x places, ∀ y, r.2 = .ok y →
      y.isFinite = true → ∀ r' ∈ roundings y places, r'.2 = .ok y) := by
  refine ⟨fun h => forall_roundings (P := fun _ r => r = .error .invalidDecimal) fun mode => ?_,
    fun h₁ h₂ => forall_roundings (P := fun _ r => r = .error .decimalOverflow) fun mode => ?_,
    fun h₁ h₂ => ?_,
    fun h₁ h₂ => ⟨fun hx => forall_roundings (P := fun _ r => r = .ok x) fun mode => ?_,
      fun sign hx => forall_roundings (P := fun _ r => r = .error .invalidDecimal) fun mode => ?_,
      fun neg s hs => forall_roundings (P := fun mode r => r =
        if 10 ^ 28 ≤ Decimal.coeffAt mode ⟨neg, s.digits, s.exp⟩ (-places) then .error .invalidDecimal
        else .ok (Decimal.toFloat ⟨neg, Decimal.coeffAt mode ⟨neg, s.digits, s.exp⟩ (-places), -places⟩))
        fun mode => ?_,
      fun neg s hs hshort =>
        forall_roundings (P := fun _ r => ∀ y, r = .ok y → y = x) fun mode y hy => ?_⟩,
    fun hx => ⟨fun y hy => ?_, fun y hy => ?_⟩, fun y hy => ?_,
    fun h₁ h₂ => forall_roundings (P := fun _ r => ∀ y, r = .ok y → y.isFinite = true →
      ∀ r' ∈ roundings y places, r'.2 = .ok y) fun mode y hy hfin =>
        forall_roundings (P := fun _ r => r = .ok y) fun mode' => ?_⟩
  · rw [quantizeFloat_of_unit_error (DecimalContext.unitExponent_invalid h)]
    rfl
  · rw [quantizeFloat_of_unit_error (DecimalContext.unitExponent_overflow h₁ h₂)]
    rfl
  · simp only [roundings, roundDown, roundUp, roundNear, quantizeFloat_clamp h₁ h₂]
  · rw [quantizeFloat_nan h₁ (by omega) hx]
    rfl
  · rw [quantizeFloat_infinite h₁ (by omega) hx]
    rfl
  · obtain ⟨m, q, hx⟩ := finite_of_shortest hs
    rw [quantizeFloat_exact h₁ h₂ hx hs]
    split_ifs <;> rfl
  · exact quantizeFloat_short h₁ h₂ hs hshort (Except.mapError_eq_ok.1 hy)
  · exact quantizeFloat_floor_le hx (Except.mapError_eq_ok.1 hy)
  · exact le_quantizeFloat_ceiling hx (Except.mapError_eq_ok.1 hy)
  · -- half up agrees with the direction it rounds in
    have hy : quantizeFloat .halfUp x places = .ok y := Except.mapError_eq_ok.1 hy
    rcases quantizeFloat_halfUp x places with he | he
    · exact .inl (Except.mapError_eq_ok.2 (he ▸ hy))
    · exact .inr (Except.mapError_eq_ok.2 (he ▸ hy))
  · -- past 1000026 places both roundings are those at 1000026 places
    have hy : quantizeFloat mode x places = .ok y := Except.mapError_eq_ok.1 hy
    refine Except.mapError_eq_ok.2 ?_
    rcases le_or_gt places 1000026 with h₂' | h₂'
    · exact quantizeFloat_quantizeFloat h₁ h₂' hy hfin
    · rw [quantizeFloat_clamp h₂' h₂] at hy ⊢
      exact quantizeFloat_quantizeFloat (by omega) le_rfl hy hfin

theorem cents_price_kept :
    (-999999 : ℤ) ≤ 2 ∧ (2 : ℤ) ≤ 1000026 ∧ Binary64.shortest? 1.15 = some (false, ⟨115, -2⟩) ∧
      ∀ y, roundDown 1.15 2 = .ok y → y = 1.15 :=
  ⟨by norm_num, by norm_num, by decide +kernel,
    ((rounding_law 1.15 2).2.2.2.1 (by norm_num) (by norm_num)).2.2.2 false ⟨115, -2⟩
      (by decide +kernel) le_rfl (Rounding.floor, roundDown 1.15 2) (by simp [roundings])⟩

/-- The unit is formed before the float is looked at: zero rounded down at 2000060 places is
invalid. -/
theorem zero_past_the_scale_invalid : roundDown 0.0 2000060 = .error .invalidDecimal := rfl

end Amount

end TradeDesk
