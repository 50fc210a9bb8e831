import TradeDesk.Proofs.PlaceRounding
import TradeDesk.Proofs.WholeDecimals
import TradeDesk.Proofs.OrderSizing

/-!
The shortest decimal of a finite float reads back as the float (`Binary64.shortest_readsBack`).
-/

namespace TradeDesk

namespace Binary64

/-! ### Exact comparisons -/

theorem compare_mul_pos {x y c : ℚ} (hc : 0 < c) : compare (x * c) (y * c) = compare x y := by
  rcases lt_trichotomy x y with h | rfl | h
  · rw [compare_lt_iff_lt.2 h, compare_lt_iff_lt.2 (mul_lt_mul_of_pos_right h hc)]
  · simp
  · rw [compare_gt_iff_gt.2 h, compare_gt_iff_gt.2 (mul_lt_mul_of_pos_right h hc)]

theorem compare_natCast (x y : ℕ) : compare (x : ℚ) (y : ℚ) = compare x y := by
  rcases lt_trichotomy x y with h | rfl | h
  · rw [compare_lt_iff_lt.2 h, compare_lt_iff_lt.2 (by exact_mod_cast h)]
  · simp
  · rw [compare_gt_iff_gt.2 h, compare_gt_iff_gt.2 (by exact_mod_cast h)]

theorem zpow_mul_toNat_neg {b : ℚ} (hb : b ≠ 0) (i : ℤ) : b ^ i * b ^ (-i).toNat = b ^ i.toNat := by
  rw [← zpow_natCast, ← zpow_natCast, ← zpow_add₀ hb]
  congr 1
  omega

theorem compareScaled_eq (a : ℕ) (i : ℤ) (n : ℕ) (j : ℤ) :
    compareScaled a i n j = compare ((a : ℚ) * 10 ^ i) ((n : ℚ) * 2 ^ j) := by
  have hscale : (0 : ℚ) < 10 ^ (-i).toNat * 2 ^ (-j).toNat := by positivity
  have h1 : (a : ℚ) * 10 ^ i * (10 ^ (-i).toNat * 2 ^ (-j).toNat) =
      ((a * 10 ^ i.toNat * 2 ^ (-j).toNat : ℕ) : ℚ) := by
    rw [← mul_assoc, mul_assoc (a : ℚ), zpow_mul_toNat_neg (by norm_num)]
    push_cast
    ring
  have h2 : (n : ℚ) * 2 ^ j * (10 ^ (-i).toNat * 2 ^ (-j).toNat) =
      ((n * 2 ^ j.toNat * 10 ^ (-i).toNat : ℕ) : ℚ) := by
    rw [mul_comm (10 ^ (-i).toNat : ℚ), ← mul_assoc, mul_assoc (n : ℚ),
      zpow_mul_toNat_neg (by norm_num)]
    push_cast
    ring
  rw [← compare_mul_pos hscale, h1, h2, compare_natCast]
  rfl

theorem compareScaled_one (e : ℤ) (m : ℕ) (q : ℤ) :
    compareScaled 1 e m q = compare ((10 : ℚ) ^ e) (value m q) := by
  rw [compareScaled_eq, Nat.cast_one, one_mul]
  rfl

/-! ### The interval that reads back -/

/-- `r` lies in the interval of reals that round to `m * 2^q`: from a half step below (a quarter
step when the gap below is the narrow one) to a half step above, the ends included exactly when
`m` is even. -/
def Within (m : ℕ) (q : ℤ) (narrow : Bool) (r : ℚ) : Prop :=
  (((if narrow then 4 * m - 1 else 4 * m - 2 : ℕ) : ℚ) * 2 ^ (q - 2) < r ∨
      (m % 2 = 0 ∧ ((if narrow then 4 * m - 1 else 4 * m - 2 : ℕ) : ℚ) * 2 ^ (q - 2) = r)) ∧
    (r < ((4 * m + 2 : ℕ) : ℚ) * 2 ^ (q - 2) ∨ (m % 2 = 0 ∧ r = ((4 * m + 2 : ℕ) : ℚ) * 2 ^ (q - 2)))

theorem readsBack_iff {m : ℕ} {q : ℤ} {narrow : Bool} {d : ℕ} {k : ℤ} :
    readsBack m q narrow d k = true ↔ Within m q narrow ((d : ℚ) * 10 ^ k) := by
  unfold readsBack Within
  simp only [compareScaled_eq, Bool.and_eq_true, Bool.or_eq_true, beq_iff_eq,
    compare_gt_iff_gt, compare_eq_iff_eq, compare_lt_iff_lt]
  cases narrow <;> simp [eq_comm]

namespace Within

variable {m : ℕ} {q : ℤ} {narrow : Bool} {r : ℚ}

theorem two_zpow_sub_two (q : ℤ) : (2 : ℚ) ^ (q - 2) = 2 ^ q / 4 := by
  rw [zpow_sub₀ two_ne_zero]
  norm_num

theorem bounds (hm : 0 < m) (h : Within m q narrow r) :
    ((m : ℚ) - 1 / 2) * 2 ^ q ≤ r ∧ r ≤ ((m : ℚ) + 1 / 2) * 2 ^ q := by
  have hpos : (0 : ℚ) < 2 ^ q := Grid.two_pow_pos q
  have hlo : ((m : ℚ) - 1 / 2) * 2 ^ q ≤
      ((if narrow then 4 * m - 1 else 4 * m - 2 : ℕ) : ℚ) * 2 ^ (q - 2) := by
    rw [two_zpow_sub_two]
    cases narrow
    · rw [if_neg (by simp), Nat.cast_sub (by omega)]
      push_cast
      linarith
    · rw [if_pos rfl, Nat.cast_sub (by omega)]
      push_cast
      nlinarith
  have hhi : ((4 * m + 2 : ℕ) : ℚ) * 2 ^ (q - 2) = ((m : ℚ) + 1 / 2) * 2 ^ q := by
    rw [two_zpow_sub_two]
    push_cast
    ring
  obtain ⟨h₁, h₂⟩ := h
  constructor
  · rcases h₁ with h₁ | ⟨-, h₁⟩ <;> linarith
  · rcases h₂ with h₂ | ⟨-, h₂⟩ <;> linarith

theorem roundsTo (hm : 0 < m) (h : Within m q narrow r) : RoundsTo (r / 2 ^ q) m := by
  have hpos : (0 : ℚ) < 2 ^ q := Grid.two_pow_pos q
  obtain ⟨hlo, hhi⟩ := h.bounds hm
  have hlo' : (m : ℚ) - 1 / 2 ≤ r / 2 ^ q := by rwa [le_div_iff₀ hpos]
  have hhi' : r / 2 ^ q ≤ (m : ℚ) + 1 / 2 := by rwa [div_le_iff₀ hpos]
  refine ⟨abs_le.2 ⟨by linarith, by linarith⟩, fun htie => ?_⟩
  have hm1 : 1 ≤ 4 * m := by omega
  rcases abs_eq (by norm_num : (0 : ℚ) ≤ 1 / 2) |>.1 htie with hup | hdown
  · -- the upper end
    have hr : r = ((4 * m + 2 : ℕ) : ℚ) * 2 ^ (q - 2) := by
      rw [two_zpow_sub_two]
      have : r = ((m : ℚ) + 1 / 2) * 2 ^ q := by
        field_simp at hup ⊢
        linarith
      rw [this]
      push_cast
      ring
    rcases h.2 with h₂ | ⟨hev, -⟩
    · exact absurd h₂ (by rw [hr]; exact lt_irrefl _)
    · exact Nat.even_iff.2 hev
  · -- the lower end, which the narrow interval does not reach
    have hr : r = ((m : ℚ) - 1 / 2) * 2 ^ q := by
      field_simp at hdown ⊢
      linarith
    rcases h.1 with h₁ | ⟨hev, -⟩
    · exfalso
      rw [hr, two_zpow_sub_two] at h₁
      cases narrow
      · rw [if_neg (by simp), Nat.cast_sub (by omega)] at h₁
        push_cast at h₁
        linarith
      · rw [if_pos rfl, Nat.cast_sub (by omega)] at h₁
        push_cast at h₁
        nlinarith
    · exact Nat.even_iff.2 hev

theorem rounded (hm : 0 < m) (hm53 : m < 2 ^ 53) (hq : -1074 ≤ q) (hn : q = -1074 ∨ 2 ^ 52 ≤ m)
    (h : Within m q (narrowBelow m q) r) {K : ℤ} {Q : ℕ} (hg : Grid r K)
    (hQ : RoundsTo (r / 2 ^ K) Q) : (Q : ℚ) * 2 ^ K = value m q := by
  have hpos : (0 : ℚ) < 2 ^ q := Grid.two_pow_pos q
  obtain ⟨hlo, hhi⟩ := h.bounds hm
  have hm53' : (m : ℚ) + 1 / 2 < 2 ^ 53 := by
    have : (m : ℚ) + 1 ≤ 2 ^ 53 := by exact_mod_cast hm53
    linarith
  have hbelow : r / 2 ^ q < 2 ^ 53 := by
    rw [div_lt_iff₀ hpos]
    nlinarith
  by_cases hnorm : q = -1074 ∨ 2 ^ 52 ≤ r / 2 ^ q
  · -- the grid of `r` is that of `m`
    obtain rfl := hg.unique ⟨hq, hbelow, hnorm⟩
    rw [hQ.unique (h.roundsTo hm)]
    rfl
  · rw [not_or, not_le] at hnorm
    obtain ⟨hq', ht⟩ := hnorm
    have hm52 : m = 2 ^ 52 := by
      have h52 : 2 ^ 52 ≤ m := hn.resolve_left hq'
      have hlt : (m : ℚ) - 1 / 2 < 2 ^ 52 := by
        rw [div_lt_iff₀ hpos] at ht
        nlinarith
      have : (m : ℚ) < 2 ^ 52 + 1 := by linarith
      have : m < 2 ^ 52 + 1 := by exact_mod_cast this
      omega
    have hnarrow : narrowBelow m q = true := by
      simp only [narrowBelow, hm52, Nat.pow_eq, beq_self_eq_true, Bool.true_and, decide_eq_true_eq]
      omega
    -- the narrow lower end is a quarter step below `2^52 * 2^q`
    have hlo' : ((2 : ℚ) ^ 53 - 1 / 2) * 2 ^ (q - 1) ≤ r := by
      have h₁ := h.1
      rw [hnarrow, if_pos rfl, two_zpow_sub_two, hm52, Nat.cast_sub (by norm_num)] at h₁
      have he : ((2 : ℚ) ^ 53 - 1 / 2) * 2 ^ (q - 1) = ((4 * 2 ^ 52 : ℕ) - (1 : ℕ) : ℚ) * (2 ^ q / 4) := by
        rw [zpow_sub_one₀ two_ne_zero]
        push_cast
        ring
      rw [he]
      rcases h₁ with h₁ | ⟨-, h₁⟩
      · exact h₁.le
      · exact h₁.le
    have hpos' : (0 : ℚ) < 2 ^ (q - 1) := Grid.two_pow_pos _
    have hq2 : (2 : ℚ) ^ q = 2 * 2 ^ (q - 1) := by
      rw [← zpow_one_add₀ two_ne_zero]
      ring_nf
    have ht2 : r / 2 ^ (q - 1) < 2 ^ 53 := by
      rw [div_lt_iff₀ hpos']
      rw [div_lt_iff₀ hpos, hq2] at ht
      linarith
    have ht1 : (2 : ℚ) ^ 53 - 1 / 2 ≤ r / 2 ^ (q - 1) := by rwa [le_div_iff₀ hpos']
    obtain rfl := hg.unique ⟨by omega, ht2, .inr (by linarith)⟩
    have hR : RoundsTo (r / 2 ^ (q - 1)) (2 ^ 53) := by
      refine ⟨abs_le.2 ⟨by push_cast; linarith, by push_cast; linarith⟩, fun _ => ⟨2 ^ 52, by norm_num⟩⟩
    rw [hQ.unique hR, value, hm52, hq2]
    push_cast
    ring

end Within

/-! ### Decimals that read back -/

theorem value_inj {m m' : ℕ} {q q' : ℤ} (hm : m < 2 ^ 53) (hq : -1074 ≤ q) (hn : q = -1074 ∨ 2 ^ 52 ≤ m)
    (hm' : m' < 2 ^ 53) (hq' : -1074 ≤ q') (hn' : q' = -1074 ∨ 2 ^ 52 ≤ m')
    (h : value m q = value m' q') : m = m' ∧ q = q' := by
  rcases lt_trichotomy q q' with hlt | rfl | hlt
  · exact absurd h (value_lt_of_lex hm hq hn' (.inl hlt)).ne
  · refine ⟨?_, rfl⟩
    rcases lt_trichotomy m m' with hlt | heq | hlt
    · exact absurd h (value_lt_of_lex hm hq hn' (.inr ⟨rfl, hlt⟩)).ne
    · exact heq
    · exact absurd h.symm (value_lt_of_lex hm' hq' hn (.inr ⟨rfl, hlt⟩)).ne
  · exact absurd h.symm (value_lt_of_lex hm' hq' hn (.inl hlt)).ne

theorem RoundedTo.nearest {neg : Bool} {r : ℚ} {w : Binary64} (hr : 0 < r)
    (h : RoundedTo (if neg then -r else r) w) : Nearest neg r w := by
  have hsign : decide ((if neg then -r else r) < 0) = neg := by cases neg <;> simp [hr, hr.le]
  rcases h with ⟨h0, -⟩ | ⟨-, h⟩
  · exact absurd h0 (by cases neg <;> simp [hr.ne'])
  · rwa [hsign, abs_signed hr.le] at h

theorem decimalBits_of_within {b : UInt64} {neg : Bool} {m : ℕ} {q : ℤ}
    (hb : ofBits b = .finite neg m q) (hm : 0 < m) {d : ℕ} {k : ℤ}
    (hr : Within m q (narrowBelow m q) ((d : ℚ) * 10 ^ k)) :
    ofBits (decimalBits neg d k) = .finite neg m q := by
  obtain ⟨hm53, hq, hq', hn⟩ := ofBits_finite_bounds hb
  have hpos : (0 : ℚ) < (d : ℚ) * 10 ^ k := by
    have := (hr.bounds hm).1
    have : (0 : ℚ) < ((m : ℚ) - 1 / 2) * 2 ^ q := by
      have : (1 : ℚ) ≤ m := by exact_mod_cast hm
      exact mul_pos (by linarith) (Grid.two_pow_pos q)
    linarith
  obtain ⟨K, Q, hg, hQ, he⟩ := (decimalBits_roundedTo neg d k).nearest hpos
  rw [hr.rounded hm hm53 hq hn hg hQ] at he
  cases hw : ofBits (decimalBits neg d k) with
  | nan =>
    rw [hw] at he
    exact (he.ne_nan rfl).elim
  | infinite s =>
    rw [hw] at he
    cases he with
    | overflow hv =>
      have hlt : value m q < 2 ^ (1024 : ℤ) :=
        mul_two_zpow_lt (a := 53) (b := 971) hm53 hq'
      exact absurd hv (not_le.2 hlt)
  | finite s M e =>
    rw [hw] at he
    cases he with
    | finite _ hM =>
      obtain ⟨hM53, he1, -, hen⟩ := ofBits_finite_bounds hw
      obtain ⟨rfl, rfl⟩ := value_inj hM53 he1 hen hm53 hq hn hM
      rfl

/-! ### The search for the shortest decimal -/

theorem candidate_readsBack {m : ℕ} {q : ℤ} {narrow : Bool} {top : ℤ} {n : ℕ} {s : Scientific}
    (h : candidate m q narrow top n = some s) : readsBack m q narrow s.digits s.exp = true := by
  unfold candidate at h
  dsimp only at h
  split at h
  · next hboth =>
    rw [Bool.and_eq_true] at hboth
    -- both neighbours read back: the nearer is taken, or the even one at a tie
    split at h <;> cases h
    · exact hboth.1
    · exact hboth.2
    · dsimp only
      split
      · exact hboth.1
      · exact hboth.2
  · split at h
    · next hlow =>
      cases h
      exact hlow
    · split at h
      · next hhigh =>
        cases h
        exact hhigh
      · cases h

theorem scaled_floor (m : ℕ) (q k : ℤ) {c : ℕ}
    (hc : c = m * Nat.pow 2 q.toNat * Nat.pow 10 (-k).toNat / (Nat.pow 2 (-q).toNat * Nat.pow 10 k.toNat)) :
    (c : ℚ) * 10 ^ k ≤ value m q ∧ value m q < ((c : ℚ) + 1) * 10 ^ k := by
  simp only [Nat.pow_eq] at hc
  obtain ⟨N, hN⟩ : ∃ N, m * 2 ^ q.toNat * 10 ^ (-k).toNat = N := ⟨_, rfl⟩
  obtain ⟨D, hD⟩ : ∃ D, 2 ^ (-q).toNat * 10 ^ k.toNat = D := ⟨_, rfl⟩
  rw [hN, hD] at hc
  subst hc
  have hD0 : 0 < D := by rw [← hD]; positivity
  have hDq : (0 : ℚ) < D := by exact_mod_cast hD0
  have hk : (0 : ℚ) < 10 ^ k := zpow_pos (by norm_num) k
  -- the value is the ratio of the two naturals times `10^k`
  have hv : value m q = (N : ℚ) / D * 10 ^ k := by
    have e2 : (2 : ℚ) ^ q * 2 ^ (-q).toNat = 2 ^ q.toNat := zpow_mul_toNat_neg two_ne_zero q
    have e10 : (10 : ℚ) ^ k * 10 ^ (-k).toNat = 10 ^ k.toNat := zpow_mul_toNat_neg (by norm_num) k
    rw [div_mul_eq_mul_div, eq_div_iff hDq.ne', ← hN, ← hD, value]
    push_cast
    rw [← e2, ← e10]
    ring
  have hlo : (N / D : ℕ) * D ≤ N := Nat.div_mul_le_self N D
  have hhi : N < (N / D : ℕ) * D + D := Nat.lt_div_mul_add hD0
  have hlo' : ((N / D : ℕ) : ℚ) ≤ N / D := by
    rw [le_div_iff₀ hDq]
    exact_mod_cast hlo
  have hhi' : (N : ℚ) / D < (N / D : ℕ) + 1 := by
    rw [div_lt_iff₀ hDq]
    have : (N : ℚ) < (N / D : ℕ) * D + D := by exact_mod_cast hhi
    linarith
  rw [hv]
  exact ⟨mul_le_mul_of_nonneg_right hlo' hk.le, mul_lt_mul_of_pos_right hhi' hk⟩

theorem candidate_isSome {m : ℕ} {q : ℤ} {narrow : Bool} {top : ℤ} {n : ℕ} {c : ℕ}
    (hc : c = m * Nat.pow 2 q.toNat * Nat.pow 10 (-(top - n + 1)).toNat /
      (Nat.pow 2 (-q).toNat * Nat.pow 10 (top - n + 1).toNat))
    (h : readsBack m q narrow c (top - n + 1) = true ∨ readsBack m q narrow (c + 1) (top - n + 1) = true) :
    (candidate m q narrow top n).isSome = true := by
  unfold candidate
  dsimp only
  subst hc
  rcases h with h | h
  · rw [h, Bool.true_and]
    split
    · split <;> rfl
    · rfl
  · rw [h, Bool.and_true]
    split
    · split <;> rfl
    · rw [if_pos rfl]
      rfl

theorem candidate_found {b : UInt64} {neg : Bool} {m : ℕ} {q : ℤ} (hb : ofBits b = .finite neg m q)
    (hm : 0 < m) {top : ℤ} (htop : (10 : ℚ) ^ top ≤ value m q) :
    (candidate m q (narrowBelow m q) top 17).isSome = true := by
  obtain ⟨hm53, -, -, -⟩ := ofBits_finite_bounds hb
  obtain ⟨c, hc⟩ : ∃ c, c = m * Nat.pow 2 q.toNat * Nat.pow 10 (-(top - ((17 : ℕ) : ℤ) + 1)).toNat /
      (Nat.pow 2 (-q).toNat * Nat.pow 10 (top - ((17 : ℕ) : ℤ) + 1).toNat) := ⟨_, rfl⟩
  obtain ⟨hclo, hchi⟩ := scaled_floor m q _ hc
  have hq4 : (0 : ℚ) < 2 ^ (q - 2) := Grid.two_pow_pos _
  have hm' : (1 : ℚ) ≤ m := by exact_mod_cast hm
  have hv : value m q = (4 * m : ℚ) * 2 ^ (q - 2) := by
    rw [value, Within.two_zpow_sub_two]
    ring
  have hspace : (10 : ℚ) ^ (top - ((17 : ℕ) : ℤ) + 1) * 10 ^ (16 : ℤ) ≤ value m q := by
    rw [← zpow_add₀ (by norm_num)]
    convert htop using 2
    push_cast
    ring
  -- the two ends of the interval, and its width against sixteen places of the value
  have hhi : value m q < ((4 * m + 2 : ℕ) : ℚ) * 2 ^ (q - 2) := by
    rw [hv]
    push_cast
    nlinarith
  have hlo : ((if narrowBelow m q then 4 * m - 1 else 4 * m - 2 : ℕ) : ℚ) * 2 ^ (q - 2) < value m q := by
    have : ((if narrowBelow m q then 4 * m - 1 else 4 * m - 2 : ℕ) : ℚ) < 4 * m := by
      have : (if narrowBelow m q then 4 * m - 1 else 4 * m - 2 : ℕ) < 4 * m := by split <;> omega
      exact_mod_cast this
    rw [hv]
    exact mul_lt_mul_of_pos_right this hq4
  have hwidth : value m q < (((4 * m + 2 : ℕ) : ℚ) * 2 ^ (q - 2) -
      ((if narrowBelow m q then 4 * m - 1 else 4 * m - 2 : ℕ) : ℚ) * 2 ^ (q - 2)) * 10 ^ (16 : ℤ) := by
    rw [hv, ← sub_mul]
    have hm53' : (m : ℚ) < 2 ^ 53 := by exact_mod_cast hm53
    cases hnar : narrowBelow m q
    · rw [if_neg (by simp), Nat.cast_sub (by omega)]
      push_cast
      nlinarith
    · have hm52 : m = 2 ^ 52 := by
        simp only [narrowBelow, Nat.pow_eq, Bool.and_eq_true, beq_iff_eq] at hnar
        exact hnar.1
      rw [if_pos rfl, Nat.cast_sub (by omega), hm52]
      push_cast
      nlinarith
  have hread : readsBack m q (narrowBelow m q) c (top - ((17 : ℕ) : ℤ) + 1) = true ∨
      readsBack m q (narrowBelow m q) (c + 1) (top - ((17 : ℕ) : ℤ) + 1) = true := by
    rw [readsBack_iff, readsBack_iff]
    by_cases hl : ((if narrowBelow m q then 4 * m - 1 else 4 * m - 2 : ℕ) : ℚ) * 2 ^ (q - 2) <
        (c : ℚ) * 10 ^ (top - ((17 : ℕ) : ℤ) + 1)
    · exact .inl ⟨.inl hl, .inl (lt_of_le_of_lt hclo hhi)⟩
    · -- the lower neighbour is out, so the upper one is within a step of the lower end
      rw [not_lt] at hl
      have hstep : (10 : ℚ) ^ (top - ((17 : ℕ) : ℤ) + 1) <
          ((4 * m + 2 : ℕ) : ℚ) * 2 ^ (q - 2) -
            ((if narrowBelow m q then 4 * m - 1 else 4 * m - 2 : ℕ) : ℚ) * 2 ^ (q - 2) := by
        have h16 : (0 : ℚ) < 10 ^ (16 : ℤ) := by positivity
        exact lt_of_mul_lt_mul_right (lt_of_le_of_lt hspace hwidth) h16.le
      refine .inr ⟨.inl ?_, .inl ?_⟩
      · rw [Nat.cast_add_one]
        exact lt_trans hlo hchi
      · rw [Nat.cast_add_one, add_mul, one_mul]
        linarith
  exact candidate_isSome hc hread

theorem estimate_le {a : ℤ} (hlo : -1100 ≤ a) (hhi : a ≤ 1100) : (10 : ℚ) ^ (a * 30103 / 100000) ≤ 10 * 2 ^ a := by
  have h1 : a * 30103 / 100000 * 100000 ≤ a * 30103 := Int.ediv_mul_le _ (by norm_num)
  rcases le_or_gt 0 a with ha0 | ha0
  · obtain ⟨E, hE⟩ : ∃ E : ℕ, a * 30103 / 100000 = E :=
      ⟨(a * 30103 / 100000).toNat, (Int.toNat_of_nonneg (Int.ediv_nonneg (by omega) (by norm_num))).symm⟩
    obtain ⟨A, rfl⟩ := Int.eq_ofNat_of_zero_le ha0
    rw [hE] at h1 ⊢
    rw [zpow_natCast, zpow_natCast]
    have hEA : 196 * E ≤ 59 * A + 196 := by omega
    have key : (10 ^ E) ^ 196 ≤ (10 * 2 ^ A) ^ 196 := by
      calc (10 ^ E) ^ 196 = 10 ^ (196 * E) := by rw [← pow_mul, mul_comm]
        _ ≤ 10 ^ (59 * A + 196) := Nat.pow_le_pow_right (by norm_num) hEA
        _ = 10 ^ 196 * (10 ^ 59) ^ A := by rw [pow_add, pow_mul, mul_comm]
        _ ≤ 10 ^ 196 * (2 ^ 196) ^ A :=
          Nat.mul_le_mul_left _ (Nat.pow_le_pow_left (by norm_num) A)
        _ = (10 * 2 ^ A) ^ 196 := by rw [mul_pow, ← pow_mul, ← pow_mul, mul_comm 196]
    exact_mod_cast (Nat.pow_le_pow_iff_left (by norm_num)).1 key
  · obtain ⟨F, hF⟩ : ∃ F : ℕ, a * 30103 / 100000 = -F :=
      ⟨(-(a * 30103 / 100000)).toNat, by omega⟩
    obtain ⟨B, hB⟩ : ∃ B : ℕ, a = -B := ⟨(-a).toNat, by omega⟩
    rw [hF] at h1 ⊢
    subst hB
    rw [zpow_neg, zpow_neg, zpow_natCast, zpow_natCast]
    have hBF : 28 * B ≤ 93 * (F + 1) := by omega
    have key : (2 ^ B) ^ 93 ≤ (10 ^ (F + 1)) ^ 93 := by
      calc (2 ^ B) ^ 93 = (2 ^ 93) ^ B := by rw [← pow_mul, ← pow_mul, mul_comm]
        _ ≤ (10 ^ 28) ^ B := Nat.pow_le_pow_left (by norm_num) B
        _ = 10 ^ (28 * B) := by rw [← pow_mul]
        _ ≤ 10 ^ (93 * (F + 1)) := Nat.pow_le_pow_right (by norm_num) hBF
        _ = (10 ^ (F + 1)) ^ 93 := by rw [← pow_mul, mul_comm]
    have hle : ((2 : ℕ) ^ B : ℚ) ≤ 10 * 10 ^ F := by
      rw [← pow_succ']
      exact_mod_cast (Nat.pow_le_pow_iff_left (by norm_num)).1 key
    calc ((10 : ℚ) ^ F)⁻¹ = 10 * (10 * 10 ^ F)⁻¹ := by field_simp
      _ ≤ 10 * (2 ^ B)⁻¹ := by gcongr; exact_mod_cast hle

theorem decimalExponent_le {m : ℕ} {q : ℤ} (hm : 0 < m) (hm53 : m < 2 ^ 53) (hq : -1074 ≤ q)
    (hq' : q ≤ 971) : (10 : ℚ) ^ decimalExponent m q ≤ value m q := by
  have hv : 0 < value m q := value_pos hm q
  obtain ⟨up, down, he, hU, hD⟩ := decimalExponent_eq_steps m q
  rw [he]
  -- a step up is taken only to a power not above the value
  have hup : ∀ e, (10 : ℚ) ^ e ≤ 100 * value m q → (10 : ℚ) ^ up e ≤ 100 * value m q := by
    intro e he
    rw [hU]
    split
    · next hgt =>
      have : (10 : ℚ) ^ (e + 1) ≤ value m q := by
        rw [compareScaled_one] at hgt
        exact not_lt.1 fun hlt => by simp [compare_gt_iff_gt.2 hlt] at hgt
      linarith
    · exact he
  have hdown : ∀ e (c : ℚ), 1 ≤ c → (10 : ℚ) ^ e ≤ 10 * (c * value m q) →
      (10 : ℚ) ^ down e ≤ c * value m q := by
    intro e c hc he
    rw [hD]
    split
    · rw [zpow_sub₀ (by norm_num), zpow_one, div_le_iff₀ (by norm_num), mul_comm]
      exact he
    · next hgt =>
      have : (10 : ℚ) ^ e ≤ value m q := by
        rw [compareScaled_one] at hgt
        exact not_lt.1 fun hlt => hgt (by simp [compare_gt_iff_gt.2 hlt])
      exact this.trans (le_mul_of_one_le_left hv.le hc)
  -- the estimate is at most one too high
  have hest : (10 : ℚ) ^ (((m.log2 : Int) + q) * 30103 / 100000) ≤ 100 * value m q := by
    have hlog : m.log2 < 53 := Nat.log2_lt hm.ne' |>.2 hm53
    have h2 : (2 : ℚ) ^ ((m.log2 : Int) + q) ≤ value m q := by
      rw [zpow_add₀ (by norm_num), zpow_natCast, value]
      gcongr
      exact (log2_bounds hm).1
    have := estimate_le (a := (m.log2 : Int) + q) (by omega) (by omega)
    linarith
  have h1 := hup _ (hup _ hest)
  have h2 := hdown _ 10 (by norm_num) (by linarith)
  simpa using hdown _ 1 le_rfl (by linarith)

theorem trimZeros_toRat (fuel : ℕ) (s : Scientific) :
    ((trimZeros fuel s).digits : ℚ) * 10 ^ (trimZeros fuel s).exp = (s.digits : ℚ) * 10 ^ s.exp := by
  induction fuel generalizing s with
  | zero => rfl
  | succ fuel ih =>
    unfold trimZeros
    split
    · next hz =>
      rw [ih]
      have hd : (s.digits : ℚ) = ((s.digits / 10 : ℕ) : ℚ) * 10 := by
        exact_mod_cast (Nat.div_mul_cancel (Nat.dvd_of_mod_eq_zero hz.2)).symm
      rw [hd, zpow_add₀ (by norm_num), zpow_one]
      ring
    · rfl

theorem shortestOf_eq {m : ℕ} {q : ℤ} {narrow : Bool} {s : Scientific}
    (h : (List.range 17).findSome? (fun i => candidate m q narrow (decimalExponent m q) (i + 1)) = some s) :
    shortestOf m q narrow = trimZeros 20 s := by
  unfold shortestOf
  dsimp only
  rw [h, Option.getD_some]

theorem shortestOf_within {b : UInt64} {neg : Bool} {m : ℕ} {q : ℤ} (hb : ofBits b = .finite neg m q)
    (hm : 0 < m) :
    Within m q (narrowBelow m q)
      ((shortestOf m q (narrowBelow m q)).digits * 10 ^ (shortestOf m q (narrowBelow m q)).exp) := by
  obtain ⟨hm53, hq, hq', -⟩ := ofBits_finite_bounds hb
  obtain ⟨s, hs, hw⟩ := findSome?_range
    (fun i => candidate m q (narrowBelow m q) (decimalExponent m q) (i + 1))
    (fun s : Scientific => Within m q (narrowBelow m q) ((s.digits : ℚ) * 10 ^ s.exp)) 16 17
    (by norm_num) (candidate_found hb hm (decimalExponent_le hm hm53 hq hq'))
    (fun _ _ s h => readsBack_iff.1 (candidate_readsBack h))
  rw [shortestOf_eq hs, trimZeros_toRat]
  exact hw

end Binary64

end TradeDesk

namespace Float

open TradeDesk.Binary64 Float.Model

theorem ofUnpacked_inj {u v : UnpackedFloat} (hu : ofUnpacked u ≠ .nan)
    (h : ofUnpacked u = ofUnpacked v) : u = v := by
  rcases u with ⟨_ | _⟩ | _ | ⟨_ | _⟩ | ⟨_ | _, m, e, hm⟩ <;>
  rcases v with ⟨_ | _⟩ | _ | ⟨_ | _⟩ | ⟨_ | _, m', e', hm'⟩ <;>
  simp_all [ofUnpacked] <;> omega

theorem eq_of_ofFloat_eq {a b : Float} (ha : ofFloat a ≠ .nan) (h : ofFloat a = ofFloat b) : a = b := by
  rw [ofFloat_eq_ofUnpacked] at ha
  rw [ofFloat_eq_ofUnpacked, ofFloat_eq_ofUnpacked] at h
  exact eq_of_unpack_eq (ofUnpacked_inj ha h)

end Float

namespace TradeDesk

namespace Binary64

theorem nearestDecimal_eq {x : Float} {neg : Bool} {m : ℕ} {q : ℤ} (hx : ofFloat x = .finite neg m q)
    {d : ℕ} {k : ℤ} (hw : ofBits (decimalBits neg d k) = .finite neg m q) : nearestDecimal neg d k = x := by
  have hne : ofBits (decimalBits neg d k) ≠ .nan := by
    rw [hw]
    simp
  refine Float.eq_of_ofFloat_eq ?_ ?_
  · rwa [nearestDecimal, ofFloat_ofBits hne]
  · rw [nearestDecimal, ofFloat_ofBits hne, hw, hx]

theorem shortest_of_pos {x : Float} {neg : Bool} {m : ℕ} {q : ℤ} (hx : ofFloat x = .finite neg m q)
    (hm : 0 < m) : shortest? x = some (neg, shortestOf m q (narrowBelow m q)) := by
  obtain ⟨m', rfl⟩ := Nat.exists_eq_add_of_lt hm
  simp [shortest?, hx]

theorem shortest_zero {x : Float} {neg : Bool} {q : ℤ} (hx : ofFloat x = .finite neg 0 q) :
    shortest? x = some (neg, ⟨0, 0⟩) := by
  simp [shortest?, hx]

theorem nearestDecimal_of_value {x : Float} {neg : Bool} {m : ℕ} {q : ℤ}
    (hx : ofFloat x = .finite neg m q) {s : Scientific} (hs : shortest? x = some (neg, s)) {c : ℕ}
    {k : ℤ} (hv : (c : ℚ) * 10 ^ k = s.digits * 10 ^ s.exp) : nearestDecimal neg c k = x := by
  rcases Nat.eq_zero_or_pos m with rfl | hm
  · -- a zero is the word of its sign alone
    rw [shortest_zero hx, Option.some.injEq, Prod.mk.injEq] at hs
    rw [← hs.2] at hv
    obtain rfl : c = 0 := by
      have : (c : ℚ) = 0 := by simpa [zpow_ne_zero k (show (10 : ℚ) ≠ 0 by norm_num)] using hv
      exact_mod_cast this
    obtain ⟨-, -, -, hq⟩ := ofBits_finite_bounds hx
    obtain rfl : q = -1074 := by omega
    exact nearestDecimal_eq hx (by rw [show decimalBits neg 0 k = signBit neg from if_pos rfl, ofBits_signBit])
  · rw [shortest_of_pos hx hm, Option.some.injEq, Prod.mk.injEq] at hs
    have hw := shortestOf_within hx hm
    rw [hs.2, ← hv] at hw
    exact nearestDecimal_eq hx (decimalBits_of_within hx hm hw)

/-- The shortest decimal of a finite float reads back as the float. -/
theorem shortest_readsBack {x : Float} {neg : Bool} {m : ℕ} {q : ℤ} (hx : ofFloat x = .finite neg m q) :
    ∃ s, shortest? x = some (neg, s) ∧ nearestDecimal neg s.digits s.exp = x := by
  have hs : ∃ s, shortest? x = some (neg, s) := by
    rcases Nat.eq_zero_or_pos m with rfl | hm
    · exact ⟨_, shortest_zero hx⟩
    · exact ⟨_, shortest_of_pos hx hm⟩
  obtain ⟨s, hs⟩ := hs
  exact ⟨s, hs, nearestDecimal_of_value hx hs rfl⟩

theorem two_zpow_lt_ten_zpow : (2 : ℚ) ^ (1024 : ℤ) < 10 ^ (309 : ℤ) := by
  rw [show (1024 : ℤ) = ((1024 : ℕ) : ℤ) from rfl, show (309 : ℤ) = ((309 : ℕ) : ℤ) from rfl,
    zpow_natCast, zpow_natCast]
  exact_mod_cast (show 2 ^ 1024 < 10 ^ 309 by decide +kernel)

theorem shortest_length {x : Float} {neg : Bool} {m : ℕ} {q : ℤ} (hx : ofFloat x = .finite neg m q)
    {s : Scientific} (hs : shortest? x = some (neg, s)) : (decimalLength s.digits : ℤ) + s.exp ≤ 309 := by
  rcases Nat.eq_zero_or_pos m with rfl | hm
  · rw [shortest_zero hx, Option.some.injEq, Prod.mk.injEq] at hs
    rw [← hs.2]
    decide
  obtain ⟨hm53, -, hq', -⟩ := ofBits_finite_bounds hx
  rw [shortest_of_pos hx hm, Option.some.injEq, Prod.mk.injEq] at hs
  have hw := shortestOf_within hx hm
  rw [hs.2] at hw
  obtain ⟨hlo, hhi⟩ := hw.bounds hm
  have hm1 : (1 : ℚ) ≤ m := by exact_mod_cast hm
  -- the digits are not zero, so the top one sits at `10^(len - 1 + exp)`
  have hd : 0 < s.digits := by
    by_contra h0
    rw [Nat.eq_zero_of_not_pos h0, Nat.cast_zero, zero_mul] at hlo
    have : (0 : ℚ) < ((m : ℚ) - 1 / 2) * 2 ^ q := mul_pos (by linarith) (Grid.two_pow_pos q)
    linarith
  have htop : (10 : ℚ) ^ ((decimalLength s.digits - 1 : ℕ) + s.exp) ≤ (s.digits : ℚ) * 10 ^ s.exp := by
    have h10 : ((10 ^ (decimalLength s.digits - 1) : ℕ) : ℚ) ≤ s.digits := by
      exact_mod_cast (decimalLength_bounds hd).1
    rw [zpow_add₀ (by norm_num), zpow_natCast]
    push_cast at h10
    exact mul_le_mul_of_nonneg_right h10 (zpow_pos (by norm_num) _).le
  -- and the value lies below `2^1024`
  have hbig : ((m : ℚ) + 1 / 2) * 2 ^ q < 2 ^ (1024 : ℤ) := by
    have hv : ((m : ℚ) + 1 / 2) * 2 ^ q = ((2 * m + 1 : ℕ) : ℚ) * 2 ^ (q - 1) := by
      rw [zpow_sub₀ two_ne_zero, zpow_one]
      push_cast
      ring
    rw [hv]
    exact mul_two_zpow_lt (a := 54) (b := 970) (by omega) (by omega)
  have hlt : (10 : ℚ) ^ ((decimalLength s.digits - 1 : ℕ) + s.exp) < 10 ^ (309 : ℤ) :=
    htop.trans_lt (hhi.trans_lt (hbig.trans two_zpow_lt_ten_zpow))
  have := (zpow_lt_zpow_iff_right₀ (by norm_num : (1 : ℚ) < 10)).1 hlt
  have hlen := (decimalLength_bounds hd)
  omega

end Binary64

end TradeDesk
