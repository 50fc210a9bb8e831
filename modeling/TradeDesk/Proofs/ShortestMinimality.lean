import TradeDesk.Proofs.ShortestDecimals
/-!
The shortest decimal is shortest: a multiple of `10^k` that reads back as a nonzero float makes
the shortest decimal a multiple of `10^k` too (`Binary64.le_shortestOf_exp`).
-/

namespace TradeDesk

namespace Binary64

theorem two_zpow_le_estimate {a : ℤ} (hlo : -1100 ≤ a) (hhi : a ≤ 1100) :
    (2 : ℚ) ^ (a + 1) ≤ 10 ^ (a * 30103 / 100000 + 2) := by
  have h1 : a * 30103 < (a * 30103 / 100000 + 1) * 100000 := by omega
  rcases le_or_gt 0 (a + 1) with ha0 | ha0
  · obtain ⟨A, hA⟩ : ∃ A : ℕ, a + 1 = A := ⟨(a + 1).toNat, by omega⟩
    obtain ⟨E, hE⟩ : ∃ E : ℕ, a * 30103 / 100000 + 2 = E := ⟨(a * 30103 / 100000 + 2).toNat, by omega⟩
    rw [hA, hE, zpow_natCast, zpow_natCast]
    have hAE : 28 * A ≤ 93 * E := by omega
    have key : (2 ^ A) ^ 93 ≤ (10 ^ E) ^ 93 := by
      calc (2 ^ A) ^ 93 = (2 ^ 93) ^ A := by rw [← pow_mul, ← pow_mul, mul_comm]
        _ ≤ (10 ^ 28) ^ A := Nat.pow_le_pow_left (by norm_num) A
        _ = 10 ^ (28 * A) := by rw [← pow_mul, mul_comm]
        _ ≤ 10 ^ (93 * E) := Nat.pow_le_pow_right (by norm_num) hAE
        _ = (10 ^ E) ^ 93 := by rw [← pow_mul, mul_comm]
    exact_mod_cast (Nat.pow_le_pow_iff_left (by norm_num)).1 key
  · obtain ⟨B, hB⟩ : ∃ B : ℕ, a + 1 = -B := ⟨(-(a + 1)).toNat, by omega⟩
    rcases le_or_gt 0 (a * 30103 / 100000 + 2) with he0 | he0
    · -- a power of two below one against a power of ten at least one
      have h2 : (2 : ℚ) ^ (a + 1) ≤ 1 := by
        rw [hB, zpow_neg, zpow_natCast]
        exact inv_le_one_of_one_le₀ (one_le_pow₀ (by norm_num))
      exact h2.trans (one_le_zpow₀ (by norm_num) he0)
    · obtain ⟨F, hF⟩ : ∃ F : ℕ, a * 30103 / 100000 + 2 = -F := ⟨(-(a * 30103 / 100000 + 2)).toNat, by omega⟩
      rw [hB, hF, zpow_neg, zpow_neg, zpow_natCast, zpow_natCast]
      have hFB : 196 * F ≤ 59 * B := by omega
      have key : (10 ^ F) ^ 196 ≤ (2 ^ B) ^ 196 := by
        calc (10 ^ F) ^ 196 = 10 ^ (196 * F) := by rw [← pow_mul, mul_comm]
          _ ≤ 10 ^ (59 * B) := Nat.pow_le_pow_right (by norm_num) hFB
          _ = (10 ^ 59) ^ B := by rw [← pow_mul]
          _ ≤ (2 ^ 196) ^ B := Nat.pow_le_pow_left (by norm_num) B
          _ = (2 ^ B) ^ 196 := by rw [← pow_mul, ← pow_mul, mul_comm]
      have hle : ((10 : ℕ) ^ F : ℚ) ≤ 2 ^ B := by
        exact_mod_cast (Nat.pow_le_pow_iff_left (by norm_num)).1 key
      exact inv_anti₀ (by positivity) hle

theorem lt_decimalExponent {m : ℕ} {q : ℤ} (hm : 0 < m) (hm53 : m < 2 ^ 53) (hq : -1074 ≤ q)
    (hq' : q ≤ 971) : value m q < 10 ^ (decimalExponent m q + 1) := by
  obtain ⟨up, down, he, hU, hD⟩ := decimalExponent_eq_steps m q
  rw [he]
  -- a step up is not taken past a power above the value
  have hup : ∀ e, value m q < 10 ^ (e + 2) → value m q < 10 ^ (up e + 1) := by
    intro e he
    rw [hU]
    split
    · rwa [add_assoc]
    · next hgt =>
      rw [compareScaled_one] at hgt
      exact not_le.1 fun hle => hgt (by simp [compare_gt_iff_gt, not_lt.2 hle])
  have hdown : ∀ e, value m q < 10 ^ (e + 1) → value m q < 10 ^ (down e + 1) := by
    intro e he
    rw [hD]
    split
    · next hgt =>
      rw [compareScaled_one] at hgt
      rw [sub_add_cancel]
      exact compare_gt_iff_gt.1 (beq_iff_eq.1 hgt)
    · exact he
  -- the estimate is at most two too low
  have hest : value m q < 10 ^ (((m.log2 : Int) + q) * 30103 / 100000 + 2) := by
    have hlog : m.log2 < 53 := Nat.log2_lt hm.ne' |>.2 hm53
    have h2 : value m q < 2 ^ ((m.log2 : Int) + q + 1) := by
      have hsplit : (2 : ℚ) ^ ((m.log2 : Int) + q + 1) = 2 * 2 ^ m.log2 * 2 ^ q := by
        rw [add_right_comm, zpow_add₀ two_ne_zero, zpow_add_one₀ two_ne_zero, zpow_natCast]
        ring
      rw [hsplit, value]
      exact mul_lt_mul_of_pos_right (log2_bounds hm).2 (zpow_pos (by norm_num) q)
    exact h2.trans_le (two_zpow_le_estimate (by omega) (by omega))
  have h1 := hup _ hest
  have h2 := hup (up (((m.log2 : Int) + q) * 30103 / 100000))
    (h1.trans_le (zpow_le_zpow_right₀ (by norm_num) (by omega)))
  exact hdown _ (hdown _ h2)

namespace Within

variable {m : ℕ} {q : ℤ} {narrow : Bool} {r : ℚ}

theorem between {a b : ℚ} (ha : Within m q narrow a) (hb : Within m q narrow b) (h₁ : a ≤ r)
    (h₂ : r ≤ b) : Within m q narrow r := by
  obtain ⟨ha, -⟩ := ha
  obtain ⟨-, hb⟩ := hb
  constructor
  · rcases ha with ha | ⟨he, ha⟩
    · exact .inl (ha.trans_le h₁)
    · rcases h₁.lt_or_eq with h₁ | rfl
      · exact .inl (ha ▸ h₁)
      · exact .inr ⟨he, ha⟩
  · rcases hb with hb | ⟨he, hb⟩
    · exact .inl (h₂.trans_lt hb)
    · rcases h₂.lt_or_eq with h₂ | rfl
      · exact .inl (hb ▸ h₂)
      · exact .inr ⟨he, hb⟩

theorem self (hm : 0 < m) : Within m q narrow (value m q) := by
  have hpos : (0 : ℚ) < 2 ^ (q - 2) := Grid.two_pow_pos _
  have hv : value m q = ((4 * m : ℕ) : ℚ) * 2 ^ (q - 2) := by
    rw [value, two_zpow_sub_two]
    push_cast
    ring
  rw [hv]
  refine ⟨.inl (mul_lt_mul_of_pos_right ?_ hpos), .inl (mul_lt_mul_of_pos_right ?_ hpos)⟩
  · have : (if narrow then 4 * m - 1 else 4 * m - 2) < 4 * m := by split <;> omega
    exact_mod_cast this
  · exact_mod_cast (show 4 * m < 4 * m + 2 by omega)

theorem lower_of_roundsTo (hm : 0 < m) (hQ : RoundsTo (r / 2 ^ q) m) :
    ((4 * m - 2 : ℕ) : ℚ) * 2 ^ (q - 2) < r ∨
      (m % 2 = 0 ∧ ((4 * m - 2 : ℕ) : ℚ) * 2 ^ (q - 2) = r) := by
  have hK : (0 : ℚ) < 2 ^ q := Grid.two_pow_pos q
  have hr : r = r / 2 ^ q * 2 ^ q := by field_simp
  have hlo : ((4 * m - 2 : ℕ) : ℚ) * 2 ^ (q - 2) = ((m : ℚ) - 1 / 2) * 2 ^ q := by
    rw [Nat.cast_sub (by omega), two_zpow_sub_two]
    push_cast
    ring
  rw [hlo]
  rcases (show (m : ℚ) - 1 / 2 ≤ r / 2 ^ q by linarith [(abs_le.1 hQ.near).1]).lt_or_eq with h | h
  · exact .inl (by rw [hr]; exact mul_lt_mul_of_pos_right h hK)
  · refine .inr ⟨Nat.even_iff.1 (hQ.even_of_tie ?_), by rw [hr, ← h]⟩
    rw [← h]
    norm_num

theorem upper_of_roundsTo (hQ : RoundsTo (r / 2 ^ q) m) :
    r < ((4 * m + 2 : ℕ) : ℚ) * 2 ^ (q - 2) ∨ (m % 2 = 0 ∧ r = ((4 * m + 2 : ℕ) : ℚ) * 2 ^ (q - 2)) := by
  have hK : (0 : ℚ) < 2 ^ q := Grid.two_pow_pos q
  have hr : r = r / 2 ^ q * 2 ^ q := by field_simp
  have hhi : ((4 * m + 2 : ℕ) : ℚ) * 2 ^ (q - 2) = ((m : ℚ) + 1 / 2) * 2 ^ q := by
    rw [two_zpow_sub_two]
    push_cast
    ring
  rw [hhi]
  rcases (show r / 2 ^ q ≤ (m : ℚ) + 1 / 2 by linarith [(abs_le.1 hQ.near).2]).lt_or_eq with h | h
  · exact .inl (by rw [hr]; exact mul_lt_mul_of_pos_right h hK)
  · refine .inr ⟨Nat.even_iff.1 (hQ.even_of_tie ?_), by rw [hr, h]⟩
    rw [h]
    norm_num

theorem of_roundsTo_grid {K : ℤ} {Q : ℕ} (hQ0 : 0 < Q) (hg : Grid r K) (hQ : RoundsTo (r / 2 ^ K) Q) :
    Within Q K (narrowBelow Q K) r := by
  refine ⟨?_, upper_of_roundsTo hQ⟩
  cases hnw : narrowBelow Q K
  · simpa only [Bool.false_eq_true, if_false] using lower_of_roundsTo hQ0 hQ
  · -- the narrow gap: `r` is at least the power of two itself
    have hQ52 : Q = 2 ^ 52 ∧ -1074 < K := by
      simpa [narrowBelow] using hnw
    have h52 : (2 : ℚ) ^ 52 ≤ r / 2 ^ K := by
      rcases hg.normal with h | h
      · omega
      · exact h
    have hr : r = r / 2 ^ K * 2 ^ K := by field_simp
    have hK : (0 : ℚ) < 2 ^ K := Grid.two_pow_pos K
    refine .inl ?_
    rw [if_pos rfl, Nat.cast_sub (by omega), two_zpow_sub_two, hr]
    have : (Q : ℚ) = 2 ^ 52 := by exact_mod_cast hQ52.1
    push_cast
    rw [this]
    nlinarith

theorem of_roundsTo_carry {K : ℤ} (hg : Grid r K) (hQ : RoundsTo (r / 2 ^ K) (2 ^ 53)) :
    Within (2 ^ 52) (K + 1) (narrowBelow (2 ^ 52) (K + 1)) r := by
  obtain ⟨hnear₁, -⟩ := abs_le.1 hQ.near
  have hbelow := hg.below
  have hnw : narrowBelow (2 ^ 52) (K + 1) = true := by
    simp only [narrowBelow, Nat.pow_eq, beq_self_eq_true, Bool.true_and, decide_eq_true_eq]
    linarith [hg.least]
  have hK : (0 : ℚ) < 2 ^ K := Grid.two_pow_pos K
  have hr : r = r / 2 ^ K * 2 ^ K := by field_simp
  have h4 : (2 : ℚ) ^ (K + 1 - 2) = 2 ^ K / 2 := by
    rw [show K + 1 - 2 = K - 1 by ring, zpow_sub_one₀ two_ne_zero, div_eq_mul_inv]
  rw [hnw]
  constructor
  · rw [if_pos rfl, Nat.cast_sub (by norm_num), h4]
    rcases (show ((2 : ℚ) ^ 53 - 1 / 2) ≤ r / 2 ^ K by push_cast at hnear₁; linarith).lt_or_eq with h | h
    · refine .inl ?_
      rw [hr]
      push_cast
      nlinarith
    · refine .inr ⟨by norm_num, ?_⟩
      rw [hr, ← h]
      push_cast
      ring
  · refine .inl ?_
    rw [h4, hr]
    push_cast
    nlinarith

theorem of_roundsTo (hm : 0 < m) (hm53 : m < 2 ^ 53) (hq : -1074 ≤ q) (hn : q = -1074 ∨ 2 ^ 52 ≤ m)
    {K : ℤ} {Q : ℕ} (hg : Grid r K) (hQ : RoundsTo (r / 2 ^ K) Q) (hv : (Q : ℚ) * 2 ^ K = value m q) :
    Within m q (narrowBelow m q) r := by
  obtain ⟨hnear₁, hnear₂⟩ := abs_le.1 hQ.near
  have hbelow := hg.below
  have hQ53 : Q ≤ 2 ^ 53 := by
    have : (Q : ℚ) < 2 ^ 53 + 1 := by linarith
    have : Q < 2 ^ 53 + 1 := by exact_mod_cast this
    omega
  rcases hQ53.lt_or_eq with hlt | rfl
  · -- no carry: `r` rounds on the float's own grid, which is the float's
    have hnQ : K = -1074 ∨ 2 ^ 52 ≤ Q := by
      refine hg.normal.imp id fun h => ?_
      have : (2 : ℚ) ^ 52 - 1 / 2 ≤ Q := by linarith
      have : 2 ^ 52 - 1 < Q := by exact_mod_cast (show ((2 ^ 52 - 1 : ℕ) : ℚ) < Q by push_cast; linarith)
      omega
    obtain ⟨rfl, rfl⟩ := value_inj hlt hg.least hnQ hm53 hq hn hv
    exact of_roundsTo_grid hm hg hQ
  · -- a carry: the float is `2^52` one exponent up
    have hval : value (2 ^ 52) (K + 1) = value m q := by
      rw [← hv, value, zpow_add_one₀ two_ne_zero]
      push_cast
      ring
    obtain ⟨rfl, rfl⟩ := value_inj (by norm_num) (by linarith [hg.least]) (.inr le_rfl) hm53 hq hn hval
    exact of_roundsTo_carry hg hQ

end Within

theorem candidate_isSome_of_within {m : ℕ} {q : ℤ} {narrow : Bool} (hm : 0 < m) {top : ℤ} {n C : ℕ}
    (hw : Within m q narrow ((C : ℚ) * 10 ^ (top - n + 1))) :
    (candidate m q narrow top n).isSome = true := by
  obtain ⟨c, hc⟩ : ∃ c, c = m * Nat.pow 2 q.toNat * Nat.pow 10 (-(top - n + 1)).toNat /
      (Nat.pow 2 (-q).toNat * Nat.pow 10 (top - n + 1).toNat) := ⟨_, rfl⟩
  obtain ⟨hclo, hchi⟩ := scaled_floor m q _ hc
  have hk : (0 : ℚ) < 10 ^ (top - n + 1) := zpow_pos (by norm_num) _
  refine candidate_isSome hc ?_
  rw [readsBack_iff, readsBack_iff]
  rcases le_or_gt C c with hC | hC
  · have hle : (C : ℚ) * 10 ^ (top - n + 1) ≤ c * 10 ^ (top - n + 1) :=
      mul_le_mul_of_nonneg_right (by exact_mod_cast hC) hk.le
    exact .inl (Within.between hw (Within.self hm) hle hclo)
  · have hle : ((c + 1 : ℕ) : ℚ) * 10 ^ (top - n + 1) ≤ C * 10 ^ (top - n + 1) :=
      mul_le_mul_of_nonneg_right (by exact_mod_cast hC) hk.le
    rw [Nat.cast_add_one] at hle ⊢
    exact .inr (Within.between (Within.self hm) hw hchi.le hle)

theorem candidate_exp {m : ℕ} {q : ℤ} {narrow : Bool} {top : ℤ} {n : ℕ} {s : Scientific}
    (h : candidate m q narrow top n = some s) : s.exp = top - n + 1 := by
  unfold candidate at h
  dsimp only at h
  split at h
  · split at h <;> cases h <;> rfl
  · split at h
    · cases h
      rfl
    · split at h
      · cases h
        rfl
      · cases h

theorem candidate_digits_le {m : ℕ} {q : ℤ} {narrow : Bool} {top : ℤ} {n : ℕ} {s : Scientific}
    (hv : value m q < 10 ^ (top + 1)) (h : candidate m q narrow top n = some s) : s.digits ≤ 10 ^ n := by
  obtain ⟨c, hc⟩ : ∃ c, c = m * Nat.pow 2 q.toNat * Nat.pow 10 (-(top - n + 1)).toNat /
      (Nat.pow 2 (-q).toNat * Nat.pow 10 (top - n + 1).toNat) := ⟨_, rfl⟩
  obtain ⟨hclo, -⟩ := scaled_floor m q _ hc
  -- the floor of the value at `10^k` lies below `10^n`
  have hcn : c < 10 ^ n := by
    have hk : (0 : ℚ) < 10 ^ (top - n + 1) := zpow_pos (by norm_num) _
    have htop : (10 : ℚ) ^ (top + 1) = 10 ^ n * 10 ^ (top - n + 1) := by
      rw [← zpow_natCast, ← zpow_add₀ (by norm_num)]
      ring_nf
    have : (c : ℚ) < 10 ^ n := by
      rw [htop] at hv
      exact lt_of_mul_lt_mul_right (hclo.trans_lt hv) hk.le
    exact_mod_cast this
  have hdig : s.digits = c ∨ s.digits = c + 1 := by
    unfold candidate at h
    dsimp only at h
    rw [← hc] at h
    split at h
    · split at h <;> cases h
      · exact .inl rfl
      · exact .inr rfl
      · dsimp only
        split
        · exact .inl rfl
        · exact .inr rfl
    · split at h
      · cases h
        exact .inl rfl
      · split at h
        · cases h
          exact .inr rfl
        · cases h
  omega

theorem trimZeros_exp_ge (fuel : ℕ) (s : Scientific) : s.exp ≤ (trimZeros fuel s).exp := by
  induction fuel generalizing s with
  | zero => exact le_rfl
  | succ fuel ih =>
    unfold trimZeros
    split
    · exact (Int.le_add_one le_rfl).trans (ih _)
    · exact le_rfl

theorem trimZeros_digits_le (fuel : ℕ) (s : Scientific) : (trimZeros fuel s).digits ≤ s.digits := by
  induction fuel generalizing s with
  | zero => exact le_rfl
  | succ fuel ih =>
    unfold trimZeros
    split
    · exact (ih _).trans (Nat.div_le_self _ _)
    · exact le_rfl

theorem shortestOf_least_subnormals : ∀ m < 10, 0 < m →
    readsBack m (-1074) (narrowBelow m (-1074)) 1 (decimalExponent m (-1074) + 1) = true →
      decimalExponent m (-1074) + 1 ≤ (shortestOf m (-1074) (narrowBelow m (-1074))).exp := by
  decide +kernel

theorem shortestOf_next_power {b : UInt64} {neg : Bool} {m : ℕ} {q : ℤ} (hb : ofBits b = .finite neg m q)
    (hm10 : 10 ≤ m) (hw : Within m q (narrowBelow m q) (10 ^ (decimalExponent m q + 1))) :
    (shortestOf m q (narrowBelow m q)).exp = decimalExponent m q + 1 := by
  obtain ⟨hm53, hq, hq', -⟩ := ofBits_finite_bounds hb
  have hm : 0 < m := by omega
  have htop' := lt_decimalExponent hm hm53 hq hq'
  have hpos : (0 : ℚ) < 2 ^ q := Grid.two_pow_pos q
  obtain ⟨-, hhi⟩ := hw.bounds hm
  suffices h : (List.range 17).findSome?
      (fun i => candidate m q (narrowBelow m q) (decimalExponent m q) (i + 1)) =
        some ⟨10, decimalExponent m q⟩ by
    rw [shortestOf_eq h]
    simp [trimZeros]
  generalize decimalExponent m q = top at htop' hw hhi ⊢
  have ht : (10 : ℚ) ^ (top + 1) = 10 * 10 ^ top := by rw [zpow_add_one₀ (by norm_num)]; ring
  have ht0 : (0 : ℚ) < 10 ^ top := zpow_pos (by norm_num) _
  -- ten steps or more: the half step above is at most a twentieth of the value
  have hv : (19 : ℚ) * 10 ^ top < 2 * value m q := by
    have h20 : ((m : ℚ) + 1 / 2) * 2 ^ q ≤ 21 / 20 * value m q := by
      have : (10 : ℚ) ≤ m := by exact_mod_cast hm10
      rw [value, ← mul_assoc]
      exact mul_le_mul_of_nonneg_right (by linarith) hpos.le
    linarith
  obtain ⟨c, hc⟩ : ∃ c, c = m * Nat.pow 2 q.toNat * Nat.pow 10 (-(top - ((1 : ℕ) : ℤ) + 1)).toNat /
      (Nat.pow 2 (-q).toNat * Nat.pow 10 (top - ((1 : ℕ) : ℤ) + 1).toNat) := ⟨_, rfl⟩
  have hk : top - ((1 : ℕ) : ℤ) + 1 = top := by push_cast; ring
  obtain ⟨hclo, hchi⟩ := scaled_floor m q _ hc
  rw [hk] at hclo hchi
  -- the floor of the value at the top digit is nine
  have hc9 : c = 9 := by
    have h1 : (c : ℚ) < 10 := lt_of_mul_lt_mul_right (hclo.trans_lt (ht ▸ htop')) ht0.le
    have h2 : (19 : ℚ) / 2 < c + 1 := lt_of_mul_lt_mul_right (by linarith) ht0.le
    have h1' : c < 10 := by exact_mod_cast h1
    have h2' : 9 ≤ c := by
      have : (8 : ℚ) < c := by linarith
      exact_mod_cast this
    omega
  have hhigh : readsBack m q (narrowBelow m q) (c + 1) (top - ((1 : ℕ) : ℤ) + 1) = true := by
    rw [readsBack_iff, hk, hc9]
    convert hw using 1
    rw [ht]
    norm_num
  have hcand : candidate m q (narrowBelow m q) top (0 + 1) = some ⟨10, top⟩ := by
    unfold candidate
    dsimp only
    rw [← hc]
    by_cases hlow : readsBack m q (narrowBelow m q) c (top - ((1 : ℕ) : ℤ) + 1) = true
    · -- both read back, and the value lies above the midpoint
      have hmid : compareScaled (2 * c + 1) (top - ((1 : ℕ) : ℤ) + 1) m (q + 1) = .lt := by
        rw [compareScaled_eq, hk, hc9, zpow_add_one₀ two_ne_zero]
        apply compare_lt_iff_lt.2
        have : (2 * m : ℚ) * 2 ^ q = 2 * value m q := by rw [value]; ring
        push_cast
        linarith
      rw [hlow, hhigh, Bool.and_self, if_pos rfl, hmid, hk, hc9]
    · rw [Bool.not_eq_true] at hlow
      rw [hlow, hhigh, Bool.false_and, if_neg (by simp), if_neg (by simp), if_pos rfl, hk, hc9]
  rw [List.range_succ_eq_map, List.findSome?_cons, hcand]

theorem Within.next_power {m : ℕ} {q : ℤ} (hm : 0 < m) {top : ℤ} (htop : value m q < 10 ^ (top + 1))
    {C : ℕ} (hC : 0 < C) {k : ℤ} (hk : top < k) (hw : Within m q (narrowBelow m q) ((C : ℚ) * 10 ^ k)) :
    k = top + 1 ∧ Within m q (narrowBelow m q) (10 ^ (top + 1)) := by
  have hpos : (0 : ℚ) < 2 ^ q := Grid.two_pow_pos q
  have hm1 : (1 : ℚ) ≤ m := by exact_mod_cast hm
  obtain ⟨-, hhi⟩ := hw.bounds hm
  have hCk : (10 : ℚ) ^ k ≤ C * 10 ^ k :=
    le_mul_of_one_le_left (zpow_pos (by norm_num) _).le (by exact_mod_cast hC)
  have h15 : ((m : ℚ) + 1 / 2) * 2 ^ q ≤ 3 / 2 * value m q := by
    rw [value, ← mul_assoc]
    exact mul_le_mul_of_nonneg_right (by linarith) hpos.le
  obtain rfl : k = top + 1 := by
    by_contra hne
    have h100 : (10 : ℚ) ^ (top + 2) ≤ 10 ^ k := zpow_le_zpow_right₀ (by norm_num) (by omega)
    have h10 : (10 : ℚ) ^ (top + 2) = 10 * 10 ^ (top + 1) := by
      rw [show top + 2 = top + 1 + 1 by ring, zpow_add_one₀ (by norm_num)]
      ring
    have hp : (0 : ℚ) < 10 ^ (top + 1) := zpow_pos (by norm_num) _
    linarith only [h100, h10, htop, hCk, hhi, h15, hp]
  exact ⟨rfl, Within.between (Within.self hm) hw htop.le hCk⟩

/-- The shortest decimal is no finer than any multiple of `10^k` that reads back. -/
theorem le_shortestOf_exp {b : UInt64} {neg : Bool} {m : ℕ} {q : ℤ} (hb : ofBits b = .finite neg m q)
    (hm : 0 < m) {C : ℕ} (hC : 0 < C) {k : ℤ} (hw : Within m q (narrowBelow m q) ((C : ℚ) * 10 ^ k)) :
    k ≤ (shortestOf m q (narrowBelow m q)).exp := by
  obtain ⟨hm53, hq, hq', hn⟩ := ofBits_finite_bounds hb
  have htop := decimalExponent_le hm hm53 hq hq'
  have htop' := lt_decimalExponent hm hm53 hq hq'
  rcases le_or_gt k (decimalExponent m q) with hk | hk
  · -- the candidate with its last digit at `10^k` or one found before it
    suffices hfound : ∃ x, (List.range 17).findSome?
        (fun i => candidate m q (narrowBelow m q) (decimalExponent m q) (i + 1)) = some x ∧ k ≤ x.exp by
      obtain ⟨x, hx, hxk⟩ := hfound
      rw [shortestOf_eq hx]
      exact hxk.trans (trimZeros_exp_ge 20 x)
    rcases le_or_gt (decimalExponent m q - k + 1) 17 with h17 | h17
    · obtain ⟨n, hnk⟩ : ∃ n : ℕ, (n : ℤ) = decimalExponent m q - k + 1 :=
        ⟨(decimalExponent m q - k + 1).toNat, by omega⟩
      refine findSome?_range _ (fun x : Scientific => k ≤ x.exp) (n - 1) 17 (by omega) ?_ ?_
      · have hkn : decimalExponent m q - ((n - 1 + 1 : ℕ) : ℤ) + 1 = k := by omega
        refine candidate_isSome_of_within hm (C := C) ?_
        rw [hkn]
        exact hw
      · intro i hi x hx
        rw [candidate_exp hx]
        omega
    · refine findSome?_range _ (fun x : Scientific => k ≤ x.exp) 16 17 (by norm_num)
        (candidate_found hb hm htop) ?_
      intro i hi x hx
      rw [candidate_exp hx]
      omega
  · generalize htd : decimalExponent m q = top at htop' hk
    obtain ⟨rfl, hw10⟩ := Within.next_power hm htop' hC hk hw
    rw [← htd] at hw10 ⊢
    rcases lt_or_ge m 10 with hm10 | hm10
    · -- the least subnormals
      have h1 : Within m q (narrowBelow m q) (((1 : ℕ) : ℚ) * 10 ^ (decimalExponent m q + 1)) := by
        rw [Nat.cast_one, one_mul]
        exact hw10
      obtain rfl : q = -1074 := hn.resolve_right (by omega)
      exact shortestOf_least_subnormals m hm10 hm (readsBack_iff.2 h1)
    · exact (shortestOf_next_power hb hm10 hw10).ge

theorem shortestOf_digits_le {b : UInt64} {neg : Bool} {m : ℕ} {q : ℤ} (hb : ofBits b = .finite neg m q)
    (hm : 0 < m) : (shortestOf m q (narrowBelow m q)).digits ≤ 10 ^ 17 := by
  obtain ⟨hm53, hq, hq', -⟩ := ofBits_finite_bounds hb
  obtain ⟨s, hs, hd⟩ := findSome?_range
    (fun i => candidate m q (narrowBelow m q) (decimalExponent m q) (i + 1))
    (fun s : Scientific => s.digits ≤ 10 ^ 17) 16 17
    (by norm_num) (candidate_found hb hm (decimalExponent_le hm hm53 hq hq'))
    (fun i hi s h => (candidate_digits_le (lt_decimalExponent hm hm53 hq hq') h).trans
      (Nat.pow_le_pow_right (by norm_num) (by omega)))
  rw [shortestOf_eq hs]
  exact (trimZeros_digits_le _ _).trans hd

theorem shortest_digits_le {x : Float} {neg : Bool} {m : ℕ} {q : ℤ} (hx : ofFloat x = .finite neg m q)
    {s : Scientific} (hs : shortest? x = some (neg, s)) : s.digits ≤ 10 ^ 17 := by
  rcases Nat.eq_zero_or_pos m with rfl | hm
  · rw [shortest_zero hx, Option.some.injEq, Prod.mk.injEq] at hs
    rw [← hs.2]
    positivity
  · rw [shortest_of_pos hx hm, Option.some.injEq, Prod.mk.injEq] at hs
    rw [← hs.2]
    exact shortestOf_digits_le hx hm

theorem within_of_decimalBits {neg neg' : Bool} {c : ℕ} {k : ℤ} (hc : 0 < c) {m : ℕ} {q : ℤ}
    (hw : ofBits (decimalBits neg c k) = .finite neg' m q) (hm : 0 < m) :
    Within m q (narrowBelow m q) (c * 10 ^ k) := by
  obtain ⟨hm53, hq, -, hn⟩ := ofBits_finite_bounds hw
  have h := decimalBits_roundedTo neg c k
  rw [hw] at h
  obtain ⟨K, Q, hg, hQ, he⟩ := RoundedTo.nearest (by positivity) h
  cases he with
  | finite _ hM => exact Within.of_roundsTo hm hm53 hq hn hg hQ hM.symm

end Binary64

end TradeDesk
