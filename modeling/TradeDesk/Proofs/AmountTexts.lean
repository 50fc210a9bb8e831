import TradeDesk.Proofs.NearestFloats
import TradeDesk.Proofs.QuantityReading

/-!
Amount texts read back: the text of a finite amount at least zero is its value rounded to eight
places, and reading it gives a float with the same text (`Amount.text_read_back`).
-/

namespace TradeDesk

namespace Amount

open Binary64

/-- `whole` and `frac` write `n / 10^8`: a nonempty run of digits, then at most eight digits after
the point. -/
structure Places (n : ℕ) (whole frac : List Char) : Prop where
  whole_ne : whole ≠ []
  whole_digits : ∀ c ∈ whole, c.isDigit = true
  frac_digits : ∀ c ∈ frac, c.isDigit = true
  frac_le : frac.length ≤ 8
  value : Literal.digitsValue (whole ++ frac) * 10 ^ (8 - frac.length) = n

theorem padDigits_digits (n width : ℕ) : ∀ c ∈ padDigits n width, c.isDigit = true := by
  intro c hc
  simp only [padDigits, List.mem_append, List.mem_replicate] at hc
  rcases hc with ⟨-, rfl⟩ | hc
  · rfl
  · exact Nat.isDigit_of_mem_toDigits (by decide) (by decide) hc

theorem padDigits_value (n width : ℕ) : Literal.digitsValue (padDigits n width) = n := by
  simp [padDigits, Literal.digitsValue_eq_ofDigitChars, Nat.ofDigitChars_append]

theorem padDigits_length (n width : ℕ) : width ≤ (padDigits n width).length := by
  simp only [padDigits, List.length_append, List.length_replicate]
  omega

theorem trailing_zeros (frac : List Char) :
    frac = (frac.reverse.dropWhile (· = '0')).reverse ++
      List.replicate (frac.reverse.takeWhile (· = '0')).length '0' := by
  have hz : frac.reverse.takeWhile (· = '0') =
      List.replicate (frac.reverse.takeWhile (· = '0')).length '0' := by
    apply List.eq_replicate_iff.mpr
    refine ⟨rfl, fun c hc => ?_⟩
    simpa using List.mem_takeWhile_imp hc
  calc frac = (frac.reverse.takeWhile (· = '0') ++ frac.reverse.dropWhile (· = '0')).reverse := by
        rw [List.takeWhile_append_dropWhile, List.reverse_reverse]
    _ = _ := by
        rw [List.reverse_append]
        conv_lhs => rw [hz, List.reverse_replicate]

theorem trimFraction_point (whole frac : List Char) (hfrac : ∀ c ∈ frac, c.isDigit = true) :
    trimFraction (whole ++ '.' :: frac) =
      Literal.numeral whole (frac.reverse.dropWhile (· = '0')).reverse := by
  obtain ⟨G, hG⟩ : ∃ G, frac.reverse.dropWhile (· = '0') = G := ⟨_, rfl⟩
  have hGdig : ∀ c ∈ G, c.isDigit = true := fun c hc =>
    hfrac c (List.mem_reverse.mp ((List.dropWhile_sublist _).subset (hG ▸ hc)))
  -- the cut stops at the last nonzero place, or at the point
  have hcut : (whole ++ '.' :: frac).reverse.dropWhile (· = '0') = G ++ '.' :: whole.reverse := by
    have hrun : ∀ c ∈ frac.reverse.takeWhile (· = '0'), decide (c = '0') = true :=
      fun c hc => List.mem_takeWhile_imp (p := fun c => decide (c = '0')) hc
    have hafter : ∀ c ∈ (G ++ '.' :: whole.reverse).head?, decide (c = '0') = false := by
      intro c hc
      cases G with
      | nil =>
        obtain rfl : '.' = c := by simpa using hc
        rfl
      | cons g gs =>
        obtain rfl : g = c := by simpa using hc
        have := List.head?_dropWhile_not (fun c => decide (c = '0')) frac.reverse
        rw [hG] at this
        simpa using this
    rw [List.reverse_append, List.reverse_cons, List.append_assoc, List.singleton_append,
      ← List.takeWhile_append_dropWhile (p := (· = '0')) (l := frac.reverse), hG,
      List.append_assoc, dropWhile_run hrun hafter]
  unfold trimFraction Literal.numeral
  simp only [hcut, hG]
  cases G with
  | nil => simp
  | cons g gs =>
    have hg : g ≠ '.' := by
      intro e
      have := hGdig g (by simp)
      simp [e] at this
    simp [hg]

theorem trimFraction_pointed (n : ℕ) :
    ∃ whole frac, trimFraction (Binary64.pointed n 8).toList = Literal.numeral whole frac ∧
      Places n whole frac := by
  obtain ⟨ds, hds⟩ : ∃ ds, padDigits n 9 = ds := ⟨_, rfl⟩
  have hlen : 9 ≤ ds.length := hds ▸ padDigits_length n 9
  have hdig : ∀ c ∈ ds, c.isDigit = true := hds ▸ padDigits_digits n 9
  have hval : Literal.digitsValue ds = n := hds ▸ padDigits_value n 9
  -- the digits before the last eight, and the last eight
  obtain ⟨W, hW⟩ : ∃ W, ds.take (ds.length - 8) = W := ⟨_, rfl⟩
  obtain ⟨Fr, hFr⟩ : ∃ Fr, ds.drop (ds.length - 8) = Fr := ⟨_, rfl⟩
  have hpointed : (Binary64.pointed n 8).toList = W ++ '.' :: Fr := by
    simp [Binary64.pointed, hds, hW, hFr]
  have hWFr : W ++ Fr = ds := by rw [← hW, ← hFr, List.take_append_drop]
  have hFrlen : Fr.length = 8 := by rw [← hFr, List.length_drop]; omega
  have hWne : W ≠ [] := by
    rw [← hW]
    intro h
    have := congrArg List.length h
    simp only [List.length_take, List.length_nil] at this
    omega
  have hFrdig : ∀ c ∈ Fr, c.isDigit = true := fun c hc => hdig c (hWFr ▸ List.mem_append_right W hc)
  have hsplit := trailing_zeros Fr
  have hlen8 := congrArg List.length hsplit
  simp only [List.length_append, List.length_replicate] at hlen8
  refine ⟨W, _, by rw [hpointed, trimFraction_point W Fr hFrdig], ⟨hWne, ?_, ?_, by omega, ?_⟩⟩
  · exact fun c hc => hdig c (hWFr ▸ List.mem_append_left Fr hc)
  · exact fun c hc => hFrdig c (hsplit ▸ List.mem_append_left _ hc)
  · -- the value: the digits without the trailing zeros, times a power of ten for each zero
    rw [← hval, ← hWFr]
    conv_rhs => rw [hsplit]
    simp only [Literal.digitsValue_eq_ofDigitChars, ← List.append_assoc, Nat.ofDigitChars_append,
      Nat.ofDigitChars_replicate_zero]
    rw [show 8 - (Fr.reverse.dropWhile (· = '0')).reverse.length =
      (Fr.reverse.takeWhile (· = '0')).length by omega]
    ring

theorem roundHalfEven_zero (den : ℕ) : roundHalfEven 0 den = 0 := by
  unfold roundHalfEven
  simp

theorem scaledRound_zero (q p : ℤ) : scaledRound 0 q p = 0 := by
  simp [scaledRound, roundHalfEven_zero]

theorem scaledRound_roundsTo (m : ℕ) (q : ℤ) (p : ℕ) :
    RoundsTo (value m q * 10 ^ p) (scaledRound m q p) := by
  have h := roundHalfEven_roundsTo (m * 10 ^ p * 2 ^ (-(-q)).toNat)
    (show 0 < 1 * 2 ^ (-q).toNat by positivity)
  rw [ratio_scaled] at h
  have hv : (((m * 10 ^ p : ℕ) : ℚ) / ((1 : ℕ) : ℚ)) / 2 ^ (-q) = value m q * 10 ^ p := by
    unfold value
    rw [zpow_neg, div_inv_eq_mul]
    push_cast
    ring
  rw [hv] at h
  unfold scaledRound
  simpa [Nat.pow_eq, neg_neg, Nat.mul_right_comm m] using h

theorem text_eq {x : Float} {neg : Bool} {m : ℕ} {q : ℤ} (h : ofFloat x = .finite neg m q)
    (hneg : neg = false ∨ m = 0) :
    text x = String.ofList (trimFraction (Binary64.pointed (scaledRound m q 8) 8).toList) := by
  rcases hneg with rfl | rfl
  · obtain ⟨whole, frac, hnum, hP⟩ := trimFraction_pointed (scaledRound m q 8)
    obtain ⟨d, ds, hd⟩ := List.exists_cons_of_ne_nil hP.whole_ne
    have hdig : d.isDigit = true := hP.whole_digits d (by simp [hd])
    have hstart : Literal.numeral whole frac = d :: (ds ++ if frac = [] then [] else '.' :: frac) := by
      rw [hd, Literal.numeral_cons]
    unfold text fixedText
    simp only [h, Bool.false_eq_true, if_false, String.empty_append, Nat.cast_ofNat, hnum, hstart]
    rw [if_neg]
    rintro (h0 | h0)
    · exact List.cons_ne_nil _ _ h0
    · obtain rfl : d = '-' := (List.cons.inj h0).1
      simp at hdig
  · unfold text fixedText
    simp only [h, scaledRound_zero, Nat.cast_ofNat]
    cases neg <;> decide

theorem decimalBits_places {n : ℕ} {whole frac : List Char} (hP : Places n whole frac)
    (hn : 0 < n) (hbig : n < 10 ^ 318) :
    ∃ num den : ℕ, 0 < num ∧ 0 < den ∧ (num : ℚ) / den = n / 10 ^ 8 ∧
      decimalBits false (Literal.digitsValue (whole ++ frac)) (-(frac.length : ℤ)) =
        nearestBits false num den := by
  have hv := hP.value
  have hle := hP.frac_le
  obtain ⟨c, hc⟩ : ∃ c, Literal.digitsValue (whole ++ frac) = c := ⟨_, rfl⟩
  rw [hc] at hv ⊢
  have hc0 : 0 < c := by
    rcases Nat.eq_zero_or_pos c with rfl | h
    · omega
    · exact h
  -- the digits number fewer than `310` places before the point
  have hlen : decimalLength c ≤ 310 + frac.length := by
    apply decimalLength_le _ (by omega)
    have hpow : 10 ^ (310 + frac.length) * 10 ^ (8 - frac.length) = 10 ^ 318 := by
      rw [← Nat.pow_add]
      congr 1
      omega
    exact Nat.lt_of_mul_lt_mul_right (a := 10 ^ (8 - frac.length)) (by rw [hpow, hv]; exact hbig)
  have hlen1 : 1 ≤ decimalLength c := by
    unfold decimalLength
    exact List.length_pos_iff.mpr Nat.toDigits_ne_nil
  unfold decimalBits
  rw [if_neg hc0.ne', if_neg (by omega), if_neg (by omega)]
  have hq : ((c : ℚ) * 10 ^ (8 - frac.length)) = n := by exact_mod_cast hv
  split_ifs with he
  · -- no fraction: the digits are the whole number of units
    have hf : frac.length = 0 := by omega
    refine ⟨c * Nat.pow 10 (-(frac.length : ℤ)).toNat, 1, by simp [hf, hc0], one_pos, ?_, rfl⟩
    rw [hf] at hq
    simp only [hf, CharP.cast_eq_zero, neg_zero, Int.toNat_zero, Nat.pow_eq, pow_zero, mul_one,
      Nat.cast_one, div_one] at hq ⊢
    rw [← hq]
    field_simp
  · -- a fraction: the digits over a power of ten
    refine ⟨c, Nat.pow 10 (-(-(frac.length : ℤ))).toNat, hc0, by simp [Nat.pow_eq], ?_, rfl⟩
    simp only [neg_neg, Int.toNat_natCast, Nat.pow_eq]
    rw [← hq]
    have h8 : (10 : ℚ) ^ 8 = 10 ^ frac.length * 10 ^ (8 - frac.length) := by
      rw [← pow_add]
      congr 1
      omega
    rw [h8]
    push_cast
    field_simp

theorem value_lt {m : ℕ} {q : ℤ} (hm : m < 2 ^ 53) (hq : q ≤ 971) :
    value m q ≤ (2 ^ 53 - 1) * 2 ^ (971 : ℤ) := by
  have hm' : (m : ℚ) ≤ 2 ^ 53 - 1 := by
    have : (m : ℚ) + 1 ≤ 2 ^ 53 := by exact_mod_cast hm
    linarith
  unfold value
  exact mul_le_mul hm' (zpow_le_zpow_right₀ one_le_two hq) (by positivity) (by norm_num)

theorem read_places {n : ℕ} {whole frac : List Char} (hP : Places n whole frac) {m : ℕ} {q : ℤ}
    (hx : RoundsTo (value m q * 10 ^ 8) n) (hm : m < 2 ^ 53) (hq : q ≤ 971) :
    ∃ v M K, Literal.read? (String.ofList (Literal.numeral whole frac)) = some v ∧
      ofFloat v = .finite false M K ∧ scaledRound M K 8 = n := by
  rw [Literal.read?_numeral hP.whole_ne hP.whole_digits hP.frac_digits]
  rcases Nat.eq_zero_or_pos n with rfl | hn
  · -- zero: the digits are zeros and read as the zero word
    have hc : Literal.digitsValue (whole ++ frac) = 0 := by
      have := hP.value
      rw [Nat.mul_eq_zero] at this
      exact this.resolve_right (by positivity)
    refine ⟨_, 0, -1074, rfl, ?_, scaledRound_zero _ _⟩
    unfold nearestDecimal decimalBits
    rw [hc, if_pos rfl, ofFloat_ofBits (by decide)]
    decide
  · have hr := abs_le.1 hx.near
    have hX := value_lt hm hq
    -- `n` is below `10^8 * 2^1024`, far below `10^318`
    have hbig : n < 10 ^ 318 := by
      have hB : (2 : ℚ) ^ (971 : ℤ) = ((2 ^ 971 : ℕ) : ℚ) := by
        rw [show (971 : ℤ) = ((971 : ℕ) : ℤ) by rfl, zpow_natCast, Nat.cast_pow, Nat.cast_ofNat]
      rw [hB] at hX
      have hB1 : 0 < 2 ^ 971 := by positivity
      generalize hBdef : 2 ^ 971 = B at hX hB1
      have hB1' : (1 : ℚ) ≤ B := by exact_mod_cast Nat.one_le_iff_ne_zero.mpr hB1.ne'
      have hq : (n : ℚ) < ((10 ^ 8 * 2 ^ 53 * B : ℕ) : ℚ) := by
        push_cast
        nlinarith [hr.1]
      have hn' : n < 10 ^ 8 * 2 ^ 53 * B := by exact_mod_cast hq
      rw [← hBdef] at hn'
      exact lt_trans hn' (by decide +kernel)
    obtain ⟨num, den, hnum, hden, hratio, hbits⟩ := decimalBits_places hP hn hbig
    have hlo : (2 : ℚ) ^ (-1022 : ℤ) ≤ num / den := by
      rw [hratio]
      calc (2 : ℚ) ^ (-1022 : ℤ) ≤ 2 ^ (-27 : ℤ) := zpow_le_zpow_right₀ one_le_two (by norm_num)
        _ ≤ 1 / 10 ^ 8 := by norm_num
        _ ≤ n / 10 ^ 8 := by
          gcongr
          exact_mod_cast hn
    have hhi : (num : ℚ) / den < (2 ^ 53 - 1 / 2) * 2 ^ (971 : ℤ) := by
      rw [hratio, div_lt_iff₀ (by positivity)]
      have hP : (1 : ℚ) ≤ 2 ^ (971 : ℤ) := one_le_zpow₀ one_le_two (by norm_num)
      generalize (2 : ℚ) ^ (971 : ℤ) = P at hP hX ⊢
      nlinarith
    obtain ⟨M, K, hMK, hnear⟩ := nearestBits_nearest hnum hden hlo hhi
    refine ⟨_, M, K, rfl, ?_, ?_⟩
    · unfold nearestDecimal
      rw [hbits, ofFloat_ofBits (by rw [hMK]; simp), hMK]
    · -- the float read is no farther from `n / 10^8` than the amount, so it rounds to `n` too
      have hcloser : |value M K * 10 ^ 8 - n| ≤ |value m q * 10 ^ 8 - n| := by
        have h := hnear m q hm
        rw [hratio] at h
        have e : ∀ y : ℚ, |y * 10 ^ 8 - n| = 10 ^ 8 * |y - n / 10 ^ 8| := by
          intro y
          have hy : y * 10 ^ 8 - n = 10 ^ 8 * (y - n / 10 ^ 8) := by field_simp
          rw [hy, abs_mul, abs_of_pos (by positivity)]
        rw [e, e]
        gcongr
      have hy := hx.of_nearer hcloser
      simpa using ((scaledRound_roundsTo M K 8).unique hy)

variable {x : Float} {neg : Bool} {m : ℕ} {q : ℤ}

theorem text_numeral (hx : ofFloat x = .finite neg m q) (hneg : neg = false ∨ m = 0) :
    ∃ whole frac, text x = String.ofList (Literal.numeral whole frac) ∧
      Places (scaledRound m q 8) whole frac := by
  obtain ⟨whole, frac, hnum, hP⟩ := trimFraction_pointed (scaledRound m q 8)
  exact ⟨whole, frac, by rw [text_eq hx hneg, hnum], hP⟩

/-- The text of a finite amount at least zero reads as a float with the same text. -/
theorem text_read_back (hx : ofFloat x = .finite neg m q) (hneg : neg = false ∨ m = 0) :
    ∃ v, Literal.read? (text x) = some v ∧ text v = text x := by
  have hbounds := ofBits_finite_bounds hx
  obtain ⟨whole, frac, htext, hP⟩ := text_numeral hx hneg
  obtain ⟨v, M, K, hread, hv, hround⟩ :=
    read_places hP (by simpa using scaledRound_roundsTo m q 8) hbounds.1 hbounds.2.2.1
  refine ⟨v, by rw [htext]; exact hread, ?_⟩
  rw [text_eq hv (.inl rfl), hround, ← text_eq hx hneg]

end Amount

/-- Quantities as written and read. A text reads as the float of its numeral with its units when,
trimmed, it is a numeral `D` or `D.D`, optional blanks and units (ASCII letters, `%`, `%%` or
none), and as zero otherwise. The text of a quantity whose amount is a finite float at least zero,
with such units, reads back as the float of its amount's text with the same units, and that float
has the same text as the amount. -/
theorem quantity_texts_read_back :
    (∀ (t : String) (whole frac blanks units : List Char),
      Quantity.Written (Text.trimChars t.toList) whole frac blanks units →
        ∃ v, Literal.read? (String.ofList (Literal.numeral whole frac)) = some v ∧
          Quantity.read t = ⟨v, String.ofList units⟩) ∧
    (∀ t : String, (∀ whole frac blanks units,
        ¬ Quantity.Written (Text.trimChars t.toList) whole frac blanks units) →
      Quantity.read t = Quantity.zero) ∧
    (∀ x : Float, x.isFinite = true → 0.0 ≤ x → ∀ u : String, Quantity.validUnits u.toList = true →
      ∃ v, Literal.read? (Amount.text x) = some v ∧
        Quantity.read (Quantity.text ⟨x, u⟩) = ⟨v, u⟩ ∧ Amount.text v = Amount.text x) := by
  refine ⟨fun _ _ _ _ _ h => Quantity.read_written h, fun _ h => Quantity.read_unwritten h, ?_⟩
  intro x hf h0 u hu
  obtain ⟨neg, m, q, hx, hneg⟩ := Binary64.ofFloat_of_nonneg hf h0
  obtain ⟨v, hread, hback⟩ := Amount.text_read_back hx hneg
  obtain ⟨whole, frac, htext, hP⟩ := Amount.text_numeral hx hneg
  obtain ⟨v', hread', hq⟩ := Quantity.read_numeral_units hP.whole_ne hP.whole_digits hP.frac_digits hu
  rw [← htext, hread] at hread'
  obtain rfl := Option.some.inj hread'
  exact ⟨v, hread, by rw [Quantity.text, htext]; exact hq, hback⟩

theorem quantity_reading_samples :
    (Quantity.Written (Text.trimChars " 1.5 btc".toList) ['1'] ['5'] [' '] ['b', 't', 'c'] ∧
      ∃ v, Literal.read? (String.ofList (Literal.numeral ['1'] ['5'])) = some v ∧
        Quantity.read " 1.5 btc" = ⟨v, String.ofList ['b', 't', 'c']⟩) ∧
    ((∀ whole frac blanks units,
        ¬ Quantity.Written (Text.trimChars "12%%%".toList) whole frac blanks units) ∧
      Quantity.read "12%%%" = Quantity.zero) ∧
    ((0.1 : Float).isFinite = true ∧ 0.0 ≤ (0.1 : Float) ∧ Quantity.validUnits "btc".toList = true ∧
      ∃ v, Literal.read? (Amount.text 0.1) = some v ∧
        Quantity.read (Quantity.text ⟨0.1, "btc"⟩) = ⟨v, "btc"⟩ ∧
          Amount.text v = Amount.text 0.1) := by
  have hw : Quantity.Written (Text.trimChars " 1.5 btc".toList) ['1'] ['5'] [' '] ['b', 't', 'c'] :=
    ⟨by decide, by decide, List.all_eq_true.1 (by decide), List.all_eq_true.1 (by decide),
      List.all_eq_true.1 (by decide), by decide⟩
  have hnot : ∀ whole frac blanks units,
      ¬ Quantity.Written (Text.trimChars "12%%%".toList) whole frac blanks units := by
    intro whole frac blanks units h
    have hparts := Quantity.readParts_written h
    rw [show Quantity.readParts (Text.trimChars "12%%%".toList) = none by decide] at hparts
    exact absurd hparts (by simp)
  exact ⟨⟨hw, quantity_texts_read_back.1 _ _ _ _ _ hw⟩, ⟨hnot, quantity_texts_read_back.2.1 _ hnot⟩,
    ⟨by decide, by decide, by decide,
      quantity_texts_read_back.2.2 0.1 (by decide) (by decide) "btc" (by decide)⟩⟩

end TradeDesk
