import Mathlib
import TradeDesk.Proofs.NearestFloats
import TradeDesk.Proofs.FloatOrder

/-!
Float arithmetic against exact rationals: finite floats compare by their exact values
(`le_iff_toRat`), and a sum is its exact sum rounded (`add_roundedTo`).
-/

namespace TradeDesk

namespace Binary64

/-! ### Grids and monotone rounding -/

/-- `K` is the exponent of the grid that the positive rational `r` rounds on: at it `r` has 53
binary digits before the point, unless `r` lies below the normal range, where the grid is the
least one. -/
structure Grid (r : ℚ) (K : ℤ) : Prop where
  least : -1074 ≤ K
  below : r / 2 ^ K < 2 ^ 53
  normal : K = -1074 ∨ 2 ^ 52 ≤ r / 2 ^ K

namespace RoundsTo

variable {t t' : ℚ} {n n' : ℕ}

theorem mono (h : RoundsTo t n) (h' : RoundsTo t' n') (ht : t ≤ t') : n ≤ n' := by
  by_contra hlt
  rw [not_le] at hlt
  have h1 := abs_le.1 h.near
  have h2 := abs_le.1 h'.near
  have hc : (n' : ℚ) + 1 ≤ n := by exact_mod_cast hlt
  -- both sit at the midpoint `n' + 1/2 = n - 1/2`, where the even neighbour would have to win twice
  have hn : (n : ℚ) = n' + 1 := by linarith
  have ht1 : t - n = -(1 / 2) := by linarith
  have ht2 : t' - n' = 1 / 2 := by linarith
  have he := h.even_of_tie (by rw [ht1, abs_neg, abs_of_pos (by norm_num)])
  have he' := h'.even_of_tie (by rw [ht2, abs_of_pos (by norm_num)])
  rw [show n = n' + 1 by exact_mod_cast hn, Nat.even_add_one] at he
  exact he he'

theorem natCast (h : RoundsTo (t) n) {N : ℕ} (hN : t = N) : n = N := by
  have h1 := abs_le.1 h.near
  rw [hN] at h1
  have hlo : (N : ℚ) < n + 1 := by linarith
  have hhi : (n : ℚ) < N + 1 := by linarith
  have : N < n + 1 := by exact_mod_cast hlo
  have : n < N + 1 := by exact_mod_cast hhi
  omega

end RoundsTo

namespace Grid

variable {r r' : ℚ} {K K' : ℤ}

theorem two_pow_pos (K : ℤ) : (0 : ℚ) < 2 ^ K := zpow_pos two_pos K

theorem exponent_le (h : Grid r K) (h' : Grid r' K') (hr : r ≤ r') : K ≤ K' := by
  by_contra hlt
  rw [not_le] at hlt
  have hn : 2 ^ 52 ≤ r / 2 ^ K := h.normal.resolve_left (by have := h'.least; omega)
  have hK : (2 : ℚ) ^ K = 2 ^ K' * 2 * 2 ^ (K - K' - 1) := by
    rw [mul_assoc, ← zpow_one_add₀ two_ne_zero, ← zpow_add₀ two_ne_zero]
    ring_nf
  have h1 : (1 : ℚ) ≤ 2 ^ (K - K' - 1) := one_le_zpow₀ one_le_two (by omega)
  have hp := two_pow_pos K'
  rw [le_div_iff₀ (two_pow_pos K)] at hn
  have hb := h'.below
  rw [div_lt_iff₀ hp] at hb
  rw [hK] at hn
  nlinarith

variable {Q Q' : ℕ}

theorem rounded_le (h : Grid r K) (hq : RoundsTo (r / 2 ^ K) Q) : Q ≤ 2 ^ 53 := by
  have h1 := (abs_le.1 hq.near).1
  have h2 := h.below
  have : (Q : ℚ) < 2 ^ 53 + 1 := by linarith
  exact Nat.lt_succ_iff.1 (by exact_mod_cast this)

theorem le_rounded (h : Grid r K) (hK : K ≠ -1074) (hq : RoundsTo (r / 2 ^ K) Q) : 2 ^ 52 ≤ Q := by
  have h1 := (abs_le.1 hq.near).2
  have h2 := h.normal.resolve_left hK
  have : (2 : ℚ) ^ 52 < Q + 1 := by linarith
  exact Nat.lt_succ_iff.1 (by exact_mod_cast this)

theorem rounded_mono (h : Grid r K) (h' : Grid r' K') (hq : RoundsTo (r / 2 ^ K) Q)
    (hq' : RoundsTo (r' / 2 ^ K') Q') (hr : r ≤ r') : (Q : ℚ) * 2 ^ K ≤ Q' * 2 ^ K' := by
  rcases (h.exponent_le h' hr).lt_or_eq with hlt | rfl
  · -- the coarser grid starts where the finer one ends
    have hQ : (Q : ℚ) ≤ 2 ^ 53 := by exact_mod_cast h.rounded_le hq
    have hQ' : (2 : ℚ) ^ 52 ≤ Q' := by
      exact_mod_cast h'.le_rounded (by have := h.least; omega) hq'
    calc (Q : ℚ) * 2 ^ K ≤ 2 ^ 53 * 2 ^ K := by gcongr
      _ = 2 ^ 52 * 2 ^ (K + 1) := by rw [zpow_add_one₀ two_ne_zero]; ring
      _ ≤ 2 ^ 52 * 2 ^ K' := by gcongr; exact one_le_two; omega
      _ ≤ Q' * 2 ^ K' := by gcongr
  · have := hq.mono hq' (div_le_div_of_nonneg_right hr (two_pow_pos K).le)
    gcongr

theorem rounded_self (h : Grid r K) {m : ℕ} {q : ℤ} (hm : m < 2 ^ 53) (hq : -1074 ≤ q)
    (hr : r = m * 2 ^ q) (hQ : RoundsTo (r / 2 ^ K) Q) : (Q : ℚ) * 2 ^ K = r := by
  have hKq : K ≤ q := by
    by_contra hlt
    rw [not_le] at hlt
    have hn := h.normal.resolve_left (by omega)
    have hm' : (m : ℚ) < 2 ^ 53 := by exact_mod_cast hm
    have : r / 2 ^ K < 2 ^ 52 := by
      rw [div_lt_iff₀ (two_pow_pos K), hr]
      calc (m : ℚ) * 2 ^ q < 2 ^ 53 * 2 ^ q := by gcongr
        _ = 2 ^ 52 * 2 ^ (q + 1) := by rw [zpow_add_one₀ two_ne_zero]; ring
        _ ≤ 2 ^ 52 * 2 ^ K := by gcongr; exact one_le_two; omega
    linarith
  have hN : r / 2 ^ K = ((m * 2 ^ (q - K).toNat : ℕ) : ℚ) := by
    rw [hr]
    push_cast
    rw [← zpow_natCast, Int.toNat_of_nonneg (by omega), zpow_sub₀ two_ne_zero]
    field_simp
  rw [hQ.natCast hN, ← hN]
  field_simp

end Grid

theorem scaleExponent_grid {num den : ℕ} (hn : 0 < num) (hd : 0 < den) :
    Grid ((num : ℚ) / den) (scaleExponent num den) := by
  obtain ⟨k, hK, h1, h2⟩ := scaleExponent_guess hn hd
  rw [hK]
  rcases le_or_gt (-1074) k with hk | hk
  · rw [max_eq_left hk]
    exact ⟨hk, h2, .inr h1⟩
  · -- below the normal range the least grid is finer still
    rw [max_eq_right hk.le]
    refine ⟨le_rfl, lt_of_le_of_lt ?_ h2, .inl rfl⟩
    have hr : (0 : ℚ) ≤ (num : ℚ) / den := by positivity
    exact div_le_div_of_nonneg_left hr (Grid.two_pow_pos k)
      (zpow_le_zpow_right₀ one_le_two hk.le)

/-! ### Words at the ends of the range -/

theorem fields_of_toNat {b : UInt64} (neg : Bool) {E F : ℕ} (hE : E < 2048) (hF : F < 2 ^ 52)
    (hb : b.toNat = (if neg then 2 ^ 63 else 0) + E * 2 ^ 52 + F) :
    (b >>> 63 == 1) = neg ∧ ((b >>> 52) &&& 0x7FF).toNat = E ∧ (b &&& 0xFFFFFFFFFFFFF).toNat = F := by
  refine ⟨?_, ?_, ?_⟩
  · have : (b >>> 63).toNat = if neg then 1 else 0 := by
      rw [UInt64.toNat_shiftRight, show (63 : UInt64).toNat % 64 = 63 by rfl,
        Nat.shiftRight_eq_div_pow, hb]
      cases neg <;> simp <;> omega
    cases neg
    · simp only [beq_eq_false_iff_ne, ne_eq]
      intro h
      rw [h] at this
      simp at this
    · simp only [beq_iff_eq]
      apply UInt64.toNat.inj
      rw [this]
      rfl
  · rw [UInt64.toNat_and, UInt64.toNat_shiftRight, show (52 : UInt64).toNat % 64 = 52 by rfl,
      Nat.shiftRight_eq_div_pow, show (0x7FF : UInt64).toNat = 2 ^ 11 - 1 by rfl,
      Nat.and_two_pow_sub_one_eq_mod, hb]
    cases neg <;> simp <;> omega
  · rw [UInt64.toNat_and, show (0xFFFFFFFFFFFFF : UInt64).toNat = 2 ^ 52 - 1 by rfl,
      Nat.and_two_pow_sub_one_eq_mod, hb]
    cases neg <;> simp <;> omega

theorem ofBits_subnormal {b : UInt64} (neg : Bool) {F : ℕ} (hF : F < 2 ^ 52)
    (hb : b.toNat = (if neg then 2 ^ 63 else 0) + F) : ofBits b = .finite neg F (-1074) := by
  obtain ⟨hs, he, hf⟩ := fields_of_toNat (E := 0) neg (by norm_num) hF (by rw [hb]; ring)
  unfold ofBits
  simp only [hs, he, hf]
  rfl

theorem ofBits_infinityBits (neg : Bool) : ofBits (infinityBits neg) = .infinite neg := by
  cases neg <;> decide

theorem encode_subnormal (neg : Bool) {q : ℕ} (hq : q < 2 ^ 52) (k : ℤ) :
    ofBits (encode neg q k) = .finite neg q (-1074) := by
  unfold encode
  rw [if_pos (by simpa using hq)]
  apply ofBits_subnormal neg hq
  have hs : (signBit neg).toNat = if neg then 2 ^ 63 else 0 := by cases neg <;> rfl
  rw [UInt64.toNat_or, hs, Nat.toUInt64_eq, UInt64.toNat_ofNat', Nat.mod_eq_of_lt (by omega)]
  cases neg
  · simp
  · simp only [if_true]
    have h := Nat.two_pow_add_eq_or_of_lt (show q < 2 ^ 63 by omega) 1
    rw [Nat.mul_one] at h
    rw [← h, Nat.add_comm]

theorem encode_overflow (neg : Bool) {q : ℕ} (hq : 2 ^ 52 ≤ q) {k : ℤ} (hk : 2047 ≤ k + 1075) :
    ofBits (encode neg q k) = .infinite neg := by
  unfold encode
  rw [if_neg (by simp; omega), if_pos hk, ofBits_infinityBits]

/-! ### Exact values -/

/-- The exact value of a word that is a number; zero for NaN and the infinities. -/
def toRat : Binary64 → ℚ
  | .finite neg m q => if neg then -value m q else value m q
  | _ => 0

theorem value_nonneg (m : ℕ) (q : ℤ) : 0 ≤ value m q := by
  unfold value
  positivity

theorem value_pos {m : ℕ} (hm : 0 < m) (q : ℤ) : 0 < value m q := by
  unfold value
  have : (0 : ℚ) < m := by exact_mod_cast hm
  positivity

theorem value_lt_of_lex {m m' : ℕ} {q q' : ℤ} (hm : m < 2 ^ 53) (hq : -1074 ≤ q)
    (hm' : q' = -1074 ∨ 2 ^ 52 ≤ m') (h : q < q' ∨ (q = q' ∧ m < m')) : value m q < value m' q' := by
  unfold value
  rcases h with hlt | ⟨rfl, hlt⟩
  · have hn : (2 : ℚ) ^ 52 ≤ m' := by exact_mod_cast hm'.resolve_left (by omega)
    have hmq : (m : ℚ) < 2 ^ 53 := by exact_mod_cast hm
    calc (m : ℚ) * 2 ^ q < 2 ^ 53 * 2 ^ q := by gcongr
      _ = 2 ^ 52 * 2 ^ (q + 1) := by rw [zpow_add_one₀ two_ne_zero]; ring
      _ ≤ 2 ^ 52 * 2 ^ q' := by gcongr; exact one_le_two; omega
      _ ≤ m' * 2 ^ q' := by gcongr
  · have : (m : ℚ) < m' := by exact_mod_cast hlt
    gcongr

theorem toRat_neg (neg : Bool) (m : ℕ) (q : ℤ) :
    toRat (.finite (!neg) m q) = -toRat (.finite neg m q) := by
  cases neg <;> simp [toRat]

open Float.Model

/-- An unpacked float that is a zero, or a finite value with a canonical mantissa and exponent. -/
inductive Canonical : UnpackedFloat → Prop
  | zero (s : UnpackedFloat.Sign) : Canonical (.zero s)
  | finite (s : UnpackedFloat.Sign) {m : ℕ} {e : ℤ} (hm : 0 < m) (h53 : m < 2 ^ 53)
      (hlo : -1074 ≤ e) (hn : e = -1074 ∨ 2 ^ 52 ≤ m) : Canonical (.finite s m e hm)

theorem canonical_unpack {x : Float} {neg : Bool} {m : ℕ} {q : ℤ}
    (h : ofFloat x = .finite neg m q) : Canonical x.toModel.unpack := by
  have hc := ofBits_finite_bounds h
  rw [ofFloat_eq_ofUnpacked] at h
  cases hx : x.toModel.unpack with
  | notANumber => simp [hx, ofUnpacked] at h
  | infinity s => simp [hx, ofUnpacked] at h
  | zero s => exact .zero s
  | finite s m' e hm =>
    simp only [hx, ofUnpacked, Binary64.finite.injEq] at h
    obtain ⟨-, rfl, rfl⟩ := h
    exact .finite s hm hc.1 hc.2.1 hc.2.2.2

theorem toRat_positive {m : ℕ} {e : ℤ} (hm : 0 < m) :
    toRat (ofUnpacked (.finite .positive m e hm)) = value m e := rfl

theorem toRat_negative {m : ℕ} {e : ℤ} (hm : 0 < m) :
    toRat (ofUnpacked (.finite .negative m e hm)) = -value m e := rfl

theorem toRat_zero (s : UnpackedFloat.Sign) : toRat (ofUnpacked (.zero s)) = 0 := by
  cases s <;> simp [ofUnpacked, toRat, value]

theorem Canonical.isNaN {A : UnpackedFloat} (h : Canonical A) : A.isNaN = false := by
  cases h <;> rfl

theorem toRat_lt_of_place_lt {A B : UnpackedFloat} (hA : Canonical A) (hB : Canonical B)
    (h : place A < place B) : toRat (ofUnpacked A) < toRat (ofUnpacked B) := by
  cases hA with
  | zero s =>
    cases hB with
    | zero s' => simp [place] at h
    | finite s' hm' _ _ _ =>
      cases s'
      · simp [place, Prod.Lex.toLex_lt_toLex] at h
      · rw [toRat_zero, toRat_positive]
        exact value_pos hm' _
  | @finite s m e hm h53 hlo hn =>
    cases hB with
    | zero s' =>
      cases s
      · rw [toRat_zero, toRat_negative]
        simpa using value_pos hm _
      · simp [place, Prod.Lex.toLex_lt_toLex] at h
    | @finite s' m' e' hm' h53' hlo' hn' =>
      cases s <;> cases s'
      · -- both negative: the order of magnitudes turns round
        simp only [place, Prod.Lex.toLex_lt_toLex] at h
        rw [toRat_negative, toRat_negative, neg_lt_neg_iff]
        exact value_lt_of_lex h53' hlo' hn (by simp at h; omega)
      · rw [toRat_negative, toRat_positive]
        linarith [value_pos hm e, value_pos hm' e']
      · simp [place, Prod.Lex.toLex_lt_toLex] at h
      · simp only [place, Prod.Lex.toLex_lt_toLex] at h
        rw [toRat_positive, toRat_positive]
        exact value_lt_of_lex h53 hlo hn' (by simp at h; omega)

theorem toRat_eq_of_place_eq {A B : UnpackedFloat} (hA : Canonical A) (hB : Canonical B)
    (h : place A = place B) : toRat (ofUnpacked A) = toRat (ofUnpacked B) := by
  cases hA with
  | zero s =>
    cases hB with
    | zero s' => rw [toRat_zero, toRat_zero]
    | finite s' hm' _ _ _ => cases s' <;> simp [place] at h
  | finite s hm _ _ _ =>
    cases hB with
    | zero s' => cases s <;> simp [place] at h
    | finite s' hm' _ _ _ =>
      cases s <;> cases s' <;> simp [place] at h <;> obtain ⟨rfl, h⟩ := h <;>
        simp_all [toRat_positive, toRat_negative]

/-- Between floats that are finite numbers, `≤` is the order of their exact values. -/
theorem le_iff_toRat {a b : Float} {na nb : Bool} {ma mb : ℕ} {qa qb : ℤ}
    (ha : ofFloat a = .finite na ma qa) (hb : ofFloat b = .finite nb mb qb) :
    a ≤ b ↔ toRat (ofFloat a) ≤ toRat (ofFloat b) := by
  have hA := canonical_unpack ha
  have hB := canonical_unpack hb
  have hna : a.isNaN = false := hA.isNaN
  have hnb : b.isNaN = false := hB.isNaN
  rw [Float.le_iff_place hna hnb, ofFloat_eq_ofUnpacked, ofFloat_eq_ofUnpacked]
  constructor
  · intro h
    rcases h.lt_or_eq with hlt | heq
    · exact (toRat_lt_of_place_lt hA hB hlt).le
    · exact (toRat_eq_of_place_eq hA hB heq).le
  · intro h
    exact not_lt.1 fun hlt => absurd (toRat_lt_of_place_lt hB hA hlt) (not_lt.2 h)

/-! ### The nearest word -/

/-- `w` is the word of the rounded value `v` with the sign `neg`: a finite word of that value
below `2^1024`, and the infinity of the sign from there on. -/
inductive Encodes (neg : Bool) (v : ℚ) : Binary64 → Prop
  | finite {M : ℕ} {q : ℤ} (hv : v < 2 ^ (1024 : ℤ)) (hM : value M q = v) :
      Encodes neg v (.finite neg M q)
  | overflow (hv : 2 ^ (1024 : ℤ) ≤ v) : Encodes neg v (.infinite neg)

/-- `w` is the word nearest to `±r`, for a positive rational `r`: `r` rounded half to even on its
grid, with the sign `neg`. -/
def Nearest (neg : Bool) (r : ℚ) (w : Binary64) : Prop :=
  ∃ K Q, Grid r K ∧ RoundsTo (r / 2 ^ K) Q ∧ Encodes neg (Q * 2 ^ K) w

theorem mul_two_zpow_lt {Q a : ℕ} {K b : ℤ} (hQ : Q < 2 ^ a) (hK : K ≤ b) :
    (Q : ℚ) * 2 ^ K < 2 ^ ((a : ℤ) + b) := by
  have hQ' : (Q : ℚ) < 2 ^ a := by exact_mod_cast hQ
  calc (Q : ℚ) * 2 ^ K < 2 ^ a * 2 ^ K := by gcongr
    _ ≤ 2 ^ a * 2 ^ b := by gcongr; exact one_le_two
    _ = 2 ^ ((a : ℤ) + b) := by rw [zpow_add₀ two_ne_zero, zpow_natCast]

theorem two_zpow_le_mul {Q a : ℕ} {K b : ℤ} (hQ : 2 ^ a ≤ Q) (hK : b ≤ K) :
    (2 : ℚ) ^ ((a : ℤ) + b) ≤ Q * 2 ^ K := by
  have hQ' : (2 : ℚ) ^ a ≤ Q := by exact_mod_cast hQ
  calc (2 : ℚ) ^ ((a : ℤ) + b) = 2 ^ a * 2 ^ b := by rw [zpow_add₀ two_ne_zero, zpow_natCast]
    _ ≤ 2 ^ a * 2 ^ K := by gcongr; exact one_le_two
    _ ≤ Q * 2 ^ K := by gcongr

theorem nearestBits_rounds (neg : Bool) {num den : ℕ} (hn : 0 < num) (hd : 0 < den) :
    Nearest neg ((num : ℚ) / den) (ofBits (nearestBits neg num den)) := by
  have hg := scaleExponent_grid hn hd
  obtain ⟨K, hK⟩ : ∃ K, scaleExponent num den = K := ⟨_, rfl⟩
  obtain ⟨Q, hQdef⟩ : ∃ Q, roundHalfEven (num * 2 ^ (-K).toNat) (den * 2 ^ K.toNat) = Q := ⟨_, rfl⟩
  rw [hK] at hg
  have hq : RoundsTo ((num : ℚ) / den / 2 ^ K) Q := by
    rw [← hQdef, ← ratio_scaled]
    exact roundHalfEven_roundsTo _ (by positivity)
  have hQ53 := hg.rounded_le hq
  refine ⟨K, Q, hg, hq, ?_⟩
  unfold nearestBits
  rw [if_neg (by omega)]
  simp only [hK, Nat.pow_eq, hQdef]
  split_ifs with h53
  · -- a carry into the next binade: the word of `2^52 * 2^(K+1)`
    have hv : (Q : ℚ) * 2 ^ K = value (2 ^ 52) (K + 1) := by
      unfold value
      rw [h53, zpow_add_one₀ two_ne_zero]
      push_cast
      ring
    by_cases hKlo : K + 1 + 1075 < 2047
    · rw [ofBits_encode neg le_rfl (by norm_num) (by have := hg.least; omega) hKlo]
      refine .finite ?_ hv.symm
      have := mul_two_zpow_lt (Q := Q) (K := K) (a := 54) (b := 970) (by omega) (by omega)
      exact this.trans_le (zpow_le_zpow_right₀ one_le_two (by norm_num))
    · rw [encode_overflow neg le_rfl (by omega)]
      exact .overflow (two_zpow_le_mul (Q := Q) (K := K) (a := 53) (b := 971) (by omega) (by omega))
  · by_cases hsub : Q < 2 ^ 52
    · -- below `2^52` the grid is the least one and the word is subnormal
      have hKl : K = -1074 := by
        by_contra hne
        exact absurd (hg.le_rounded hne hq) (by omega)
      rw [encode_subnormal neg hsub]
      refine .finite (mul_two_zpow_lt (K := K) (a := 52) (b := 972) hsub (by omega)) ?_
      rw [hKl]
      rfl
    · by_cases hKlo : K + 1075 < 2047
      · rw [ofBits_encode neg (by omega) (by omega) (by have := hg.least; omega) hKlo]
        exact .finite (mul_two_zpow_lt (K := K) (a := 53) (b := 971) (by omega) (by omega)) rfl
      · rw [encode_overflow neg (by omega) (by omega)]
        exact .overflow (two_zpow_le_mul (Q := Q) (K := K) (a := 52) (b := 972) (by omega) (by omega))

theorem isNaN_of_ofFloat {x : Float} (h : ofFloat x ≠ .nan) : x.isNaN = false := by
  rw [Float.isNaN_eq_unpack]
  rw [ofFloat_eq_ofUnpacked] at h
  cases hx : x.toModel.unpack with
  | notANumber => simp [hx, ofUnpacked] at h
  | _ => rfl

theorem unpack_of_posInf {x : Float} (h : ofFloat x = .infinite false) :
    x.toModel.unpack = .infinity .positive := by
  rw [ofFloat_eq_ofUnpacked] at h
  cases hx : x.toModel.unpack with
  | infinity s =>
    simp only [hx, ofUnpacked, Binary64.infinite.injEq] at h
    cases s
    · exact absurd h (by decide)
    · rfl
  | _ => simp [hx, ofUnpacked] at h

theorem unpack_of_negInf {x : Float} (h : ofFloat x = .infinite true) :
    x.toModel.unpack = .infinity .negative := by
  rw [ofFloat_eq_ofUnpacked] at h
  cases hx : x.toModel.unpack with
  | infinity s =>
    simp only [hx, ofUnpacked, Binary64.infinite.injEq] at h
    cases s
    · rfl
    · exact absurd h (by decide)
  | _ => simp [hx, ofUnpacked] at h

theorem le_of_infinite {a b : Float} (ha : a.isNaN = false) (hb : ofFloat b = .infinite false) :
    a ≤ b := by
  rw [le_iff_unpack, unpack_of_posInf hb]
  rw [Float.isNaN_eq_unpack] at ha
  cases hA : a.toModel.unpack with
  | notANumber => simp [hA, UnpackedFloat.isNaN] at ha
  | infinity s => cases s <;> rfl
  | zero s => rfl
  | finite s m e hm => cases s <;> rfl

theorem infinite_le {a b : Float} (ha : ofFloat a = .infinite true) (hb : b.isNaN = false) :
    a ≤ b := by
  rw [le_iff_unpack, unpack_of_negInf ha]
  rw [Float.isNaN_eq_unpack] at hb
  cases hB : b.toModel.unpack with
  | notANumber => simp [hB, UnpackedFloat.isNaN] at hb
  | infinity s => cases s <;> rfl
  | zero s => rfl
  | finite s m e hm => cases s <;> rfl

theorem Encodes.ne_nan {neg : Bool} {v : ℚ} {w : Binary64} (h : Encodes neg v w) : w ≠ .nan := by
  cases h <;> simp

theorem Encodes.cases_ofFloat {neg : Bool} {v : ℚ} {a : Float} (h : Encodes neg v (ofFloat a)) :
    (2 ^ (1024 : ℤ) ≤ v ∧ ofFloat a = .infinite neg) ∨
      (v < 2 ^ (1024 : ℤ) ∧ ∃ M q, ofFloat a = .finite neg M q ∧ value M q = v) := by
  generalize hw : ofFloat a = w at h
  cases h with
  | finite hv hM => exact .inr ⟨hv, _, _, rfl, hM⟩
  | overflow hv => exact .inl ⟨hv, rfl⟩

namespace Nearest

variable {r r' : ℚ} {a b : Float}

/-- Of two positive rationals, the larger rounds to a float no smaller. -/
theorem le (h : Nearest false r (ofFloat a)) (h' : Nearest false r' (ofFloat b)) (hr : r ≤ r') :
    a ≤ b := by
  obtain ⟨K, Q, hg, hq, he⟩ := h
  obtain ⟨K', Q', hg', hq', he'⟩ := h'
  have hmono := hg.rounded_mono hg' hq hq' hr
  rcases he'.cases_ofFloat with ⟨-, hb⟩ | ⟨hv', Mb, qb, hb, hM'⟩
  · exact le_of_infinite (isNaN_of_ofFloat he.ne_nan) hb
  rcases he.cases_ofFloat with ⟨hv, -⟩ | ⟨-, Ma, qa, ha, hM⟩
  · exact absurd (hv.trans hmono) (not_le.2 hv')
  rw [le_iff_toRat ha hb, ha, hb]
  simp only [toRat, Bool.false_eq_true, if_false, hM, hM']
  exact hmono

theorem le_of_neg (h : Nearest true r (ofFloat a)) (h' : Nearest true r' (ofFloat b))
    (hr : r ≤ r') : b ≤ a := by
  obtain ⟨K, Q, hg, hq, he⟩ := h
  obtain ⟨K', Q', hg', hq', he'⟩ := h'
  have hmono := hg.rounded_mono hg' hq hq' hr
  -- the larger magnitude gives negative infinity, below every number, or a finite word
  rcases he'.cases_ofFloat with ⟨-, hb⟩ | ⟨hv', Mb, qb, hb, hM'⟩
  · exact infinite_le hb (isNaN_of_ofFloat he.ne_nan)
  rcases he.cases_ofFloat with ⟨hv, -⟩ | ⟨-, Ma, qa, ha, hM⟩
  · exact absurd (hv.trans hmono) (not_le.2 hv')
  rw [le_iff_toRat hb ha, ha, hb]
  simp only [toRat, if_true, hM, hM', neg_le_neg_iff]
  exact hmono

end Nearest

/-! ### The core model's rounding -/

open Float.Model.UnpackedFloat

theorem shiftRight_succ (m k : ℕ) :
    (⟨m, false, false⟩ : ExtendedMantissa) >>> (k + 1) =
      ⟨m / 2 ^ (k + 1), m / 2 ^ k % 2 != 0, m % 2 ^ k != 0⟩ := by
  induction k with
  | zero =>
    show ExtendedMantissa.shiftRightOne ⟨m, false, false⟩ = _
    simp [ExtendedMantissa.shiftRightOne, Nat.mod_one]
  | succ k ih =>
    show ExtendedMantissa.shiftRightOne ((⟨m, false, false⟩ : ExtendedMantissa) >>> (k + 1)) = _
    rw [ih]
    simp only [ExtendedMantissa.shiftRightOne, Nat.div_div_eq_div_mul, ← Nat.pow_succ,
      ExtendedMantissa.mk.injEq, true_and]
    -- the bits below the new round bit: the old round bit and everything under it
    have hmod : m % 2 ^ (k + 1) = m % 2 ^ k + 2 ^ k * (m / 2 ^ k % 2) := Nat.mod_pow_succ
    cases hb : m / 2 ^ k % 2 != 0 <;> cases hs : m % 2 ^ k != 0 <;> simp_all

theorem shiftRight_rounded (m k : ℕ) :
    ((⟨m, false, false⟩ : ExtendedMantissa) >>> k).roundedMantissa = roundHalfEven m (2 ^ k) := by
  cases k with
  | zero =>
    show (⟨m, false, false⟩ : ExtendedMantissa).roundedMantissa = _
    simp [ExtendedMantissa.roundedMantissa, ExtendedMantissa.accuracy,
      Accuracy.roundToNearestEven, roundHalfEven, Nat.mod_one]
  | succ k =>
    rw [shiftRight_succ]
    have hmod : m % 2 ^ (k + 1) = m % 2 ^ k + 2 ^ k * (m / 2 ^ k % 2) := Nat.mod_pow_succ
    have hs : m % 2 ^ k < 2 ^ k := Nat.mod_lt _ (by positivity)
    have hb : m / 2 ^ k % 2 < 2 := Nat.mod_lt _ (by norm_num)
    have hp : 2 ^ (k + 1) = 2 * 2 ^ k := by ring
    unfold roundHalfEven
    simp only
    -- the remainder is the round bit's half unit plus what the sticky bit covers
    cases hr : m / 2 ^ k % 2 != 0 <;> cases hst : m % 2 ^ k != 0 <;>
      simp_all [ExtendedMantissa.roundedMantissa, ExtendedMantissa.accuracy,
        Accuracy.roundToNearestEven]
    -- only the case of a set round bit and a clear sticky bit is left: a tie, broken to even
    split_ifs <;> omega

theorem Grid.unique {r : ℚ} {K K' : ℤ} (h : Grid r K) (h' : Grid r K') : K = K' :=
  le_antisymm (h.exponent_le h' le_rfl) (h'.exponent_le h le_rfl)

theorem value_ratio (m : ℕ) (e : ℤ) :
    ((m * 2 ^ e.toNat : ℕ) : ℚ) / ((2 ^ (-e).toNat : ℕ) : ℚ) = value m e := by
  unfold value
  rcases Int.eq_nat_or_neg e with ⟨j, rfl | rfl⟩
  · simp
  · simp only [Int.toNat_neg_natCast, pow_zero, Nat.mul_one, neg_neg, Int.toNat_natCast,
      zpow_neg, zpow_natCast]
    push_cast
    ring

theorem grid_targetExponent {m : ℕ} (hm : 0 < m) (e : ℤ) :
    Grid (value m e) (Format.binary64.targetExponent (totalExponent m e)) := by
  obtain ⟨h1, h2⟩ := log2_bounds hm
  have ht : Format.binary64.targetExponent (totalExponent m e) = max ((m.log2 : ℤ) + e - 52) (-1074) := by
    rw [targetExponent_binary64, totalExponent]
    omega
  rw [ht]
  -- at the exponent `log2 m + e - 52` the value has exactly 53 binary digits
  have hv : value m e / 2 ^ ((m.log2 : ℤ) + e - 52) = m / 2 ^ m.log2 * 2 ^ 52 := by
    unfold value
    rw [show (m.log2 : ℤ) + e - 52 = e + (m.log2 - 52 : ℤ) by ring, zpow_add₀ two_ne_zero,
      zpow_sub₀ two_ne_zero]
    simp only [zpow_natCast]
    field_simp
  have hlo : 2 ^ 52 ≤ value m e / 2 ^ ((m.log2 : ℤ) + e - 52) := by
    rw [hv, div_mul_eq_mul_div, le_div_iff₀ (by positivity)]
    nlinarith
  have hhi : value m e / 2 ^ ((m.log2 : ℤ) + e - 52) < 2 ^ 53 := by
    rw [hv, div_mul_eq_mul_div, div_lt_iff₀ (by positivity)]
    nlinarith
  rcases le_or_gt (-1074) ((m.log2 : ℤ) + e - 52) with hk | hk
  · rw [max_eq_left hk]
    exact ⟨hk, hhi, .inr hlo⟩
  · rw [max_eq_right hk.le]
    refine ⟨le_rfl, lt_of_le_of_lt ?_ hhi, .inl rfl⟩
    exact div_le_div_of_nonneg_left (value_nonneg m e) (Grid.two_pow_pos _)
      (zpow_le_zpow_right₀ one_le_two hk.le)

theorem shiftToTargetExponent_small {R : ℕ} (hR : R < 2 ^ 53) {T : ℤ} (hT : -1074 ≤ T) :
    shiftToTargetExponent .binary64 R T .exact = (⟨R, false, false⟩, T) := by
  have hs : (Format.binary64.targetExponent (totalExponent R T) - T).toNat = 0 := by
    have : R.log2 < 53 := by
      rcases Nat.eq_zero_or_pos R with rfl | hR0
      · simp
      · exact (Nat.log2_lt hR0.ne').2 hR
    rw [targetExponent_binary64, totalExponent]
    omega
  simp only [shiftToTargetExponent, shiftToExponent, hs, ExtendedMantissa.ofMantissaAndAccuracy,
    shiftRight_zero, Int.ofNat_zero, Int.add_zero]

theorem shiftToTargetExponent_carry {T : ℤ} (hT : -1074 ≤ T) :
    shiftToTargetExponent .binary64 (2 ^ 53) T .exact = (⟨2 ^ 52, false, false⟩, T + 1) := by
  have hs : (Format.binary64.targetExponent (totalExponent (2 ^ 53) T) - T).toNat = 1 := by
    rw [targetExponent_binary64, totalExponent, Nat.log2_two_pow]
    omega
  simp only [shiftToTargetExponent, shiftToExponent, hs, ExtendedMantissa.ofMantissaAndAccuracy]
  rw [show (2 : ℕ) ^ 53 = 2 ^ 52 * 2 ^ 1 by norm_num, shiftRight_exact]
  rfl

/-- The normal form rounding produces from a rounded mantissa `R` at the grid exponent `T`: a zero,
the mantissa itself, or on a carry into the next binade `2^52` one exponent up. -/
def roundedForm (s : Sign) (R : ℕ) (T : ℤ) : UnpackedFloat :=
  if h : R = 0 then .zero s
  else if R < 2 ^ 53 then .finite s R T (Nat.pos_of_ne_zero h)
  else .finite s (2 ^ 52) (T + 1) (by positivity)

theorem roundHalfEven_congr {a b c d : ℕ} (hb : 0 < b) (hd : 0 < d) (h : (a : ℚ) / b = c / d) :
    roundHalfEven a b = roundHalfEven c d :=
  (roundHalfEven_roundsTo a hb).unique (h ▸ roundHalfEven_roundsTo c hd)

theorem value_sub (m : ℕ) (e T : ℤ) : value m (e - T) = value m e / 2 ^ T := by
  unfold value
  rw [zpow_sub₀ two_ne_zero, mul_div_assoc]

theorem roundHalfEven_roundsTo_value (m : ℕ) (e T : ℤ) :
    RoundsTo (value m e / 2 ^ T) (roundHalfEven (m * 2 ^ (e - T).toNat) (2 ^ (T - e).toNat)) := by
  rw [← value_sub, ← value_ratio, show (-(e - T)).toNat = (T - e).toNat by omega]
  exact roundHalfEven_roundsTo _ (by positivity)

theorem round_eq (s : Sign) {m : ℕ} (hm : 0 < m) (e : ℤ) :
    UnpackedFloat.round .binary64 s m e =
      roundedForm s (roundHalfEven (m * 2 ^ (e - Format.binary64.targetExponent (totalExponent m e)).toNat)
        (2 ^ (Format.binary64.targetExponent (totalExponent m e) - e).toNat))
        (Format.binary64.targetExponent (totalExponent m e)) := by
  have hg := grid_targetExponent hm e
  unfold UnpackedFloat.round decreaseExponent
  generalize hT : Format.binary64.targetExponent (totalExponent m e) = T at hg ⊢
  dsimp only
  have hR := hg.rounded_le (roundHalfEven_roundsTo_value m e T)
  -- the first shift brings the scaled-up mantissa to `T`
  have h1 : shiftToTargetExponent .binary64 (m <<< (e - T).toNat) (e - ((e - T).toNat : ℕ)) .exact =
      ((⟨m * 2 ^ (e - T).toNat, false, false⟩ : ExtendedMantissa) >>> (T - e).toNat, T) := by
    unfold shiftToTargetExponent shiftToExponent
    rw [totalExponent_shiftLeft hm, hT, Nat.shiftLeft_eq]
    simp only [ExtendedMantissa.ofMantissaAndAccuracy, Prod.mk.injEq]
    constructor
    · congr 1
      omega
    · omega
  unfold roundWithAccuracy
  rw [h1]
  dsimp only
  rw [shiftRight_rounded]
  generalize roundHalfEven (m * 2 ^ (e - T).toNat) (2 ^ (T - e).toNat) = R at hR ⊢
  -- the second shift moves only a carried mantissa `2^53`
  rcases (Nat.lt_or_eq_of_le hR) with hlt | rfl
  · rw [shiftToTargetExponent_small hlt hg.least]
    unfold roundedForm
    by_cases h0 : R = 0
    · simp [h0]
    · simp only [h0, dite_false, if_pos hlt]
  · rw [shiftToTargetExponent_carry hg.least]
    unfold roundedForm
    simp

def signOfBool (neg : Bool) : Sign := if neg then .negative else .positive

theorem pack_zero_word (neg : Bool) (T : ℤ) :
    UInt64.ofBitVec (UnpackedFloat.pack .binary64 (.zero (signOfBool neg))) = encode neg 0 T := by
  cases neg <;> rfl

theorem pack_normal_word (neg : Bool) {M : ℕ} (hM : 2 ^ 52 ≤ M) (hM' : M < 2 ^ 53) {T : ℤ}
    (hT : -1074 ≤ T) (hpos : 0 < M) :
    UInt64.ofBitVec (UnpackedFloat.pack .binary64 (.finite (signOfBool neg) M T hpos)) =
      encode neg M T := by
  have hl : M.log2 = 52 := (Nat.log2_eq_iff (by omega)).2 ⟨hM, hM'⟩
  by_cases hT' : T ≤ 971
  · apply UInt64.toNat.inj
    rw [UInt64.toNat_ofBitVec, encode_toNat neg hM hM' (by omega) (by omega)]
    exact pack_toNat neg hl hT hT' hpos
  · -- past the largest exponent both write the infinity of the sign
    have hover : 2 ^ Format.binary64.exponentBits ≤
        (T + Format.binary64.exponentBias + Format.binary64.mantissaBitsWithoutImplicit).toNat + 1 := by
      change 2048 ≤ (T + 1023 + 52).toNat + 1
      omega
    unfold encode
    rw [if_neg (by simp; omega), if_pos (by omega)]
    simp only [UnpackedFloat.pack, if_pos hover]
    cases neg <;> rfl

theorem pack_subnormal_word (neg : Bool) {R : ℕ} (hR : 0 < R) (hR' : R < 2 ^ 52) :
    UInt64.ofBitVec (UnpackedFloat.pack .binary64 (.finite (signOfBool neg) R (-1074) hR)) =
      encode neg R (-1074) := by
  have hl : R.log2 < 52 := (Nat.log2_lt hR.ne').2 hR'
  have hn : ¬ 2 ^ Format.binary64.exponentBits ≤
      ((-1074 : ℤ) + Format.binary64.exponentBias + Format.binary64.mantissaBitsWithoutImplicit).toNat + 1 := by
    decide
  simp only [UnpackedFloat.pack, if_neg hn]
  rw [if_neg (show ¬ R.log2 + 1 = Format.binary64.mantissaBits by
    change ¬ R.log2 + 1 = 53
    omega)]
  apply UInt64.toNat.inj
  unfold encode
  rw [if_pos (by simpa using hR')]
  have hs : (signBit neg).toNat = if neg then 2 ^ 63 else 0 := by cases neg <;> rfl
  rw [UInt64.toNat_ofBitVec, UInt64.toNat_or, hs, Nat.toUInt64_eq, UInt64.toNat_ofNat',
    Nat.mod_eq_of_lt (by omega)]
  change ((signOfBool neg).toBitVec ++ 0#11 ++ BitVec.ofNat 52 R).toNat = _
  have hsb : (signOfBool neg).toBitVec.toNat = if neg then 1 else 0 := by cases neg <;> rfl
  simp only [BitVec.toNat_append, BitVec.toNat_ofNat, hsb, Nat.mod_eq_of_lt hR', Nat.shiftLeft_eq]
  cases neg
  · simp
  · simp only [if_true]
    norm_num

theorem pack_roundedForm (neg : Bool) {R : ℕ} {T : ℤ} (hR : R ≤ 2 ^ 53) (hT : -1074 ≤ T)
    (hsub : R < 2 ^ 52 → T = -1074) :
    UInt64.ofBitVec (UnpackedFloat.pack .binary64 (roundedForm (signOfBool neg) R T)) =
      if R = 2 ^ 53 then encode neg (2 ^ 52) (T + 1) else encode neg R T := by
  unfold roundedForm
  rcases Nat.lt_or_eq_of_le hR with hlt | rfl
  · rw [if_neg hlt.ne]
    by_cases h0 : R = 0
    · subst h0
      exact pack_zero_word neg T
    rw [dif_neg h0, if_pos hlt]
    by_cases hs : R < 2 ^ 52
    · rw [hsub hs]
      exact pack_subnormal_word neg (Nat.pos_of_ne_zero h0) hs
    · exact pack_normal_word neg (by omega) hlt hT _
  · rw [if_pos rfl, dif_neg (by positivity), if_neg (lt_irrefl _)]
    exact pack_normal_word neg le_rfl (by norm_num) (by omega) _

/-- Rounding in the core model writes the word nearest to the value. -/
theorem pack_round (neg : Bool) {m : ℕ} (hm : 0 < m) (e : ℤ) :
    UInt64.ofBitVec (UnpackedFloat.pack .binary64 (UnpackedFloat.round .binary64 (signOfBool neg) m e)) =
      nearestBits neg (m * 2 ^ e.toNat) (2 ^ (-e).toNat) := by
  rw [round_eq _ hm]
  have hg := grid_targetExponent hm e
  generalize Format.binary64.targetExponent (totalExponent m e) = T at hg ⊢
  have hq := roundHalfEven_roundsTo_value m e T
  -- the word nearest to the value is rounded on the same grid to the same mantissa
  have hnum : 0 < m * 2 ^ e.toNat := by positivity
  have hK : scaleExponent (m * 2 ^ e.toNat) (2 ^ (-e).toNat) = T := by
    have := scaleExponent_grid hnum (by positivity : 0 < 2 ^ (-e).toNat)
    push_cast at this
    rw [show ((m : ℚ) * 2 ^ e.toNat) / 2 ^ (-e).toNat = value m e by
      rw [← value_ratio]; push_cast; rfl] at this
    exact this.unique hg
  have hQ : roundHalfEven (m * 2 ^ e.toNat * 2 ^ (-T).toNat) (2 ^ (-e).toNat * 2 ^ T.toNat) =
      roundHalfEven (m * 2 ^ (e - T).toNat) (2 ^ (T - e).toNat) := by
    apply roundHalfEven_congr (by positivity) (by positivity)
    rw [ratio_scaled, value_ratio, ← value_sub, ← value_ratio,
      show (-(e - T)).toNat = (T - e).toNat by omega]
  have hden : 0 < 2 ^ (-e).toNat := by positivity
  unfold nearestBits
  rw [if_neg (by omega)]
  simp only [hK, Nat.pow_eq, hQ]
  apply pack_roundedForm neg (hg.rounded_le hq) hg.least
  intro hs
  by_contra hne
  exact absurd (hg.le_rounded hne hq) (by omega)

theorem ofBits_pack_finite (neg : Bool) {m : ℕ} {e : ℤ} (hm : 0 < m) (h53 : m < 2 ^ 53)
    (hlo : -1074 ≤ e) (hhi : e ≤ 971) (hn : e = -1074 ∨ 2 ^ 52 ≤ m) :
    ofBits (UInt64.ofBitVec (UnpackedFloat.pack .binary64 (.finite (signOfBool neg) m e hm))) =
      .finite neg m e := by
  rcases Nat.lt_or_ge m (2 ^ 52) with hsub | hnorm
  · obtain rfl : e = -1074 := hn.resolve_right (by omega)
    rw [pack_subnormal_word neg hm hsub, encode_subnormal neg hsub]
  · rw [pack_normal_word neg hnorm h53 hlo hm, ofBits_encode neg hnorm h53 (by omega) (by omega)]

theorem apply_mul_apply (s s' : Sign) (m m' : ℕ) :
    (((s * s').apply ((m * m' : ℕ) : ℤ) : ℤ) : ℚ) = ((s.apply m : ℤ) : ℚ) * ((s'.apply m' : ℤ) : ℚ) := by
  cases s <;> cases s' <;> simp [Sign.apply]

theorem normalize_apply (s : Sign) {m : ℕ} (hm : 0 < m) (e : ℤ) (z : Sign) :
    UnpackedFloat.normalize .binary64 (s.apply m) e z = UnpackedFloat.round .binary64 s m e := by
  unfold UnpackedFloat.normalize
  cases s
  · have : (Sign.negative.apply m : ℤ) < 0 := by simp [Sign.apply]; omega
    rw [Int.compare_eq_lt.2 this]
    simp [Sign.apply]
  · have : 0 < (Sign.positive.apply m : ℤ) := by simp [Sign.apply]; omega
    rw [Int.compare_eq_gt.2 this]
    simp [Sign.apply]

theorem round_of_le_target (s : Sign) {m : ℕ} {e : ℤ}
    (h : e ≤ Format.binary64.targetExponent (totalExponent m e)) :
    UnpackedFloat.round .binary64 s m e = roundWithAccuracy .binary64 s m e .exact := by
  unfold UnpackedFloat.round decreaseExponent
  simp only [show (e - Format.binary64.targetExponent (totalExponent m e)).toNat = 0 by omega,
    Nat.shiftLeft_zero, Nat.cast_zero, Int.sub_zero]

theorem mul_le_target {m m' : ℕ} {e e' : ℤ} (hm : 0 < m) (hm' : 0 < m')
    (hn : e = -1074 ∨ 2 ^ 52 ≤ m) (hn' : e' = -1074 ∨ 2 ^ 52 ≤ m') :
    e + e' ≤ Format.binary64.targetExponent (totalExponent (m * m') (e + e')) := by
  rw [targetExponent_binary64, totalExponent]
  by_cases hbig : 2 ^ 52 ≤ m * m'
  · have : 52 ≤ (m * m').log2 := Nat.le_log2 (by positivity) |>.2 hbig
    omega
  · have h1 : e = -1074 := hn.resolve_right fun h => hbig (le_trans h (Nat.le_mul_of_pos_right m hm'))
    have h2 : e' = -1074 := hn'.resolve_right fun h => hbig (le_trans h (Nat.le_mul_of_pos_left m' hm))
    omega

/-! ### Rounded values -/

/-- `w` is the word of the exact value `v` rounded: a zero when `v` is zero, and otherwise the word
nearest to `v`, of the sign of `v`. -/
def RoundedTo (v : ℚ) (w : Binary64) : Prop :=
  (v = 0 ∧ ∃ neg, w = .finite neg 0 (-1074)) ∨ (v ≠ 0 ∧ Nearest (decide (v < 0)) |v| w)

theorem Nearest.ne_nan {neg : Bool} {r : ℚ} {w : Binary64} (h : Nearest neg r w) : w ≠ .nan := by
  obtain ⟨K, Q, -, -, he⟩ := h
  exact he.ne_nan

theorem RoundedTo.ne_nan {v : ℚ} {w : Binary64} (h : RoundedTo v w) : w ≠ .nan := by
  rcases h with ⟨-, neg, rfl⟩ | ⟨-, h⟩
  · simp
  · exact h.ne_nan

theorem Nearest.le_of_nonpos {r : ℚ} {a b : Float} {na : Bool} {ma : ℕ} {qa : ℤ}
    (ha : ofFloat a = .finite na ma qa) (hv : toRat (ofFloat a) ≤ 0) (h : Nearest false r (ofFloat b)) :
    a ≤ b := by
  obtain ⟨K, Q, -, -, he⟩ := h
  rcases he.cases_ofFloat with ⟨-, hb⟩ | ⟨-, Mb, qb, hb, -⟩
  · exact le_of_infinite (isNaN_of_ofFloat (by simp [ha])) hb
  rw [le_iff_toRat ha hb, hb]
  simp only [toRat, Bool.false_eq_true, if_false]
  exact hv.trans (value_nonneg _ _)

theorem Nearest.le_of_nonneg {r : ℚ} {a b : Float} {nb : Bool} {mb : ℕ} {qb : ℤ}
    (h : Nearest true r (ofFloat a)) (hb : ofFloat b = .finite nb mb qb) (hv : 0 ≤ toRat (ofFloat b)) :
    a ≤ b := by
  obtain ⟨K, Q, -, -, he⟩ := h
  rcases he.cases_ofFloat with ⟨-, ha⟩ | ⟨-, Ma, qa, ha, -⟩
  · exact infinite_le ha (isNaN_of_ofFloat (by simp [hb]))
  rw [le_iff_toRat ha hb, ha, show toRat (.finite true Ma qa) = -value Ma qa from rfl]
  linarith [value_nonneg Ma qa]

theorem Nearest.le_of_signs {r r' : ℚ} {a b : Float} (h : Nearest true r (ofFloat a))
    (h' : Nearest false r' (ofFloat b)) : a ≤ b := by
  obtain ⟨K, Q, -, -, he⟩ := h
  rcases he.cases_ofFloat with ⟨-, ha⟩ | ⟨-, Ma, qa, ha, -⟩
  · exact infinite_le ha (isNaN_of_ofFloat h'.ne_nan)
  refine h'.le_of_nonpos (a := a) ha ?_
  rw [ha, show toRat (.finite true Ma qa) = -value Ma qa from rfl]
  linarith [value_nonneg Ma qa]

/-- Rounding is monotone: a larger exact value never gives a smaller float. -/
theorem RoundedTo.le {v v' : ℚ} {a b : Float} (h : RoundedTo v (ofFloat a))
    (h' : RoundedTo v' (ofFloat b)) (hv : v ≤ v') : a ≤ b := by
  rcases h with ⟨rfl, na, ha⟩ | ⟨hv0, h⟩ <;> rcases h' with ⟨rfl, nb, hb⟩ | ⟨hv0', h'⟩
  · rw [le_iff_toRat ha hb, ha, hb]
    simp [toRat, value]
  · have hpos : 0 < v' := lt_of_le_of_ne hv (Ne.symm hv0')
    rw [decide_eq_false (not_lt.2 hpos.le)] at h'
    exact h'.le_of_nonpos ha (by rw [ha]; simp [toRat, value])
  · have hneg : v < 0 := lt_of_le_of_ne hv hv0
    rw [decide_eq_true hneg] at h
    exact h.le_of_nonneg hb (by rw [hb]; simp [toRat, value])
  · rcases lt_or_gt_of_ne hv0 with hneg | hpos <;> rcases lt_or_gt_of_ne hv0' with hneg' | hpos'
    · rw [decide_eq_true hneg] at h
      rw [decide_eq_true hneg'] at h'
      exact h'.le_of_neg h (by rw [abs_of_neg hneg, abs_of_neg hneg']; linarith)
    · rw [decide_eq_true hneg] at h
      rw [decide_eq_false (not_lt.2 hpos'.le)] at h'
      exact h.le_of_signs h'
    · exact absurd (hv.trans_lt hneg') (not_lt.2 hpos.le)
    · rw [decide_eq_false (not_lt.2 hpos.le)] at h
      rw [decide_eq_false (not_lt.2 hpos'.le)] at h'
      exact h.le h' (by rw [abs_of_pos hpos, abs_of_pos hpos']; exact hv)

theorem roundedTo_ofBits {b : UInt64} {neg : Bool} {m : ℕ} {q : ℤ} (h : ofBits b = .finite neg m q) :
    RoundedTo (toRat (.finite neg m q)) (.finite neg m q) := by
  obtain ⟨hm53, hqlo, hqhi, hn⟩ := ofBits_finite_bounds h
  rcases Nat.eq_zero_or_pos m with rfl | hm
  · -- a zero sits at the least exponent
    have hq : q = -1074 := hn.resolve_right (by norm_num)
    exact .inl ⟨by simp [toRat, value], neg, by rw [hq]⟩
  · have hv := value_pos hm q
    have hsign : decide (toRat (.finite neg m q) < 0) = neg := by
      cases neg <;> simp [toRat, hv, hv.le]
    have habs : |toRat (.finite neg m q)| = value m q := by
      cases neg <;> simp [toRat, abs_of_pos hv]
    refine .inr ⟨by cases neg <;> simp [toRat, hv.ne'], ?_⟩
    rw [hsign, habs]
    have hg := grid_targetExponent hm q
    have hR := roundHalfEven_roundsTo_value m q
      (Float.Model.Format.binary64.targetExponent (Float.Model.totalExponent m q))
    have hself := hg.rounded_self hm53 hqlo rfl hR
    refine ⟨_, _, hg, hR, .finite ?_ hself.symm⟩
    rw [hself]
    exact mul_two_zpow_lt (a := 53) (b := 971) hm53 hqhi

theorem roundedTo_self {x : Float} {neg : Bool} {m : ℕ} {q : ℤ} (h : ofFloat x = .finite neg m q) :
    RoundedTo (toRat (ofFloat x)) (ofFloat x) := by
  rw [h]
  exact roundedTo_ofBits h

theorem toRat_unpacked (s : Sign) {m : ℕ} (e : ℤ) (hm : 0 < m) :
    toRat (ofUnpacked (.finite s m e hm)) = ((s.apply m : ℤ) : ℚ) * 2 ^ e := by
  cases s <;> simp [ofUnpacked, toRat, value, Sign.apply]

theorem pack_normalize {M : ℤ} (hM : M ≠ 0) (e : ℤ) (z : Sign) :
    UInt64.ofBitVec (UnpackedFloat.pack .binary64 (UnpackedFloat.normalize .binary64 M e z)) =
      nearestBits (decide (M < 0)) (M.natAbs * 2 ^ e.toNat) (2 ^ (-e).toNat) := by
  unfold UnpackedFloat.normalize
  rcases lt_or_gt_of_ne hM with hlt | hgt
  · rw [Int.compare_eq_lt.2 hlt, decide_eq_true hlt]
    rw [show (-M).toNat = M.natAbs by omega]
    exact pack_round true (by omega) e
  · rw [Int.compare_eq_gt.2 hgt, decide_eq_false (by omega)]
    rw [show M.toNat = M.natAbs by omega]
    exact pack_round false (by omega) e

theorem roundedTo_normalize {M : ℤ} (e : ℤ) (z : Sign) {v : ℚ} (hv : v = (M : ℚ) * 2 ^ e) :
    RoundedTo v (ofBits (UInt64.ofBitVec
      (UnpackedFloat.pack .binary64 (UnpackedFloat.normalize .binary64 M e z)))) := by
  rcases eq_or_ne M 0 with rfl | hM
  · refine .inl ⟨by simp [hv], z == .negative, ?_⟩
    simp only [UnpackedFloat.normalize, Int.compare_eq_eq.2 rfl]
    cases z <;> rfl
  · have hv0 : v ≠ 0 := by
      rw [hv]
      exact mul_ne_zero (by exact_mod_cast hM) (Grid.two_pow_pos e).ne'
    refine .inr ⟨hv0, ?_⟩
    rw [pack_normalize hM]
    have hsign : decide (v < 0) = decide (M < 0) := by
      rw [hv]
      simp only [decide_eq_decide]
      constructor
      · intro h
        by_contra hn
        exact absurd h (not_lt.2 (mul_nonneg (by exact_mod_cast not_lt.1 hn) (Grid.two_pow_pos e).le))
      · intro h
        exact mul_neg_of_neg_of_pos (by exact_mod_cast h) (Grid.two_pow_pos e)
    have habs : |v| = ((M.natAbs * 2 ^ e.toNat : ℕ) : ℚ) / ((2 ^ (-e).toNat : ℕ) : ℚ) := by
      rw [value_ratio, hv, abs_mul, abs_of_pos (Grid.two_pow_pos e)]
      simp [value, Nat.cast_natAbs]
    rw [hsign, habs]
    exact nearestBits_rounds _ (by positivity) (by positivity)

/-! ### Sums, differences and products -/

theorem ofBits_pack_unpack (y : Float) :
    ofBits (UInt64.ofBitVec (UnpackedFloat.pack .binary64 y.toModel.unpack)) = ofFloat y := by
  have := congrArg Float.Model.toBits (pack_unpack y.toModel)
  exact congrArg ofBits this

theorem unpack_cases {x : Float} {neg : Bool} {m : ℕ} {q : ℤ} (h : ofFloat x = .finite neg m q) :
    (∃ s, x.toModel.unpack = .zero s) ∨ (∃ s m e hm, x.toModel.unpack = .finite s m e hm) := by
  rw [ofFloat_eq_ofUnpacked] at h
  cases hx : x.toModel.unpack with
  | notANumber => simp [hx, ofUnpacked] at h
  | infinity s => simp [hx, ofUnpacked] at h
  | zero s => exact .inl ⟨s, rfl⟩
  | finite s m e hm => exact .inr ⟨s, m, e, hm, rfl⟩

theorem toRat_unpack_zero {x : Float} {s : Sign} (h : x.toModel.unpack = .zero s) :
    toRat (ofFloat x) = 0 := by
  rw [ofFloat_eq_ofUnpacked, h, toRat_zero]

theorem toRat_unpack_finite {x : Float} {s : Sign} {m : ℕ} {e : ℤ} {hm : 0 < m}
    (h : x.toModel.unpack = .finite s m e hm) :
    toRat (ofFloat x) = ((s.apply m : ℤ) : ℚ) * 2 ^ e := by
  rw [ofFloat_eq_ofUnpacked, h, toRat_unpacked]

theorem roundedTo_zero (s : Sign) : RoundedTo 0 (ofBits (UInt64.ofBitVec
    (UnpackedFloat.pack .binary64 (.zero s)))) :=
  .inl ⟨rfl, s == .negative, by cases s <;> rfl⟩

theorem ofFloat_of_unpack_finite {x : Float} {nx : Bool} {mx : ℕ} {qx : ℤ} {s : Sign} {m : ℕ}
    {e : ℤ} {hm : 0 < m} (hx : ofFloat x = .finite nx mx qx) (hA : x.toModel.unpack = .finite s m e hm) :
    nx = (s == .negative) ∧ mx = m ∧ qx = e := by
  rw [ofFloat_eq_ofUnpacked, hA] at hx
  simp only [ofUnpacked, Binary64.finite.injEq] at hx
  exact ⟨hx.1.symm, hx.2.1.symm, hx.2.2.symm⟩

theorem apply_shift (s : Sign) (m : ℕ) {e e0 : ℤ} (h : e0 ≤ e) :
    ((s.apply ((m <<< (e - e0).toNat : ℕ) : ℤ) : ℤ) : ℚ) * 2 ^ e0 = ((s.apply m : ℤ) : ℚ) * 2 ^ e := by
  have hp : ((2 : ℚ) ^ (e - e0).toNat) * 2 ^ e0 = 2 ^ e := by
    rw [← zpow_natCast, Int.toNat_of_nonneg (by omega), ← zpow_add₀ two_ne_zero, sub_add_cancel]
  cases s <;> simp only [Sign.apply, Nat.shiftLeft_eq] <;> push_cast <;> rw [← hp] <;> ring

/-- The sum of two floats that are finite numbers is their exact sum rounded. -/
theorem add_roundedTo {x y : Float} {nx ny : Bool} {mx my : ℕ} {qx qy : ℤ}
    (hx : ofFloat x = .finite nx mx qx) (hy : ofFloat y = .finite ny my qy) :
    RoundedTo (toRat (ofFloat x) + toRat (ofFloat y)) (ofFloat (x + y)) := by
  have hxy : ofFloat (x + y) = ofBits (UInt64.ofBitVec (UnpackedFloat.pack .binary64
      (UnpackedFloat.add .binary64 x.toModel.unpack y.toModel.unpack))) := rfl
  rcases unpack_cases hx with ⟨s, hA⟩ | ⟨s, m, e, hm, hA⟩ <;>
    rcases unpack_cases hy with ⟨s', hB⟩ | ⟨s', m', e', hm', hB⟩
  · rw [toRat_unpack_zero hA, toRat_unpack_zero hB, hxy, hA, hB, add_zero]
    cases s <;> cases s' <;> exact roundedTo_zero _
  · -- a zero adds nothing
    have : UnpackedFloat.add .binary64 x.toModel.unpack y.toModel.unpack = y.toModel.unpack := by
      rw [hA, hB]; rfl
    rw [toRat_unpack_zero hA, zero_add, hxy, this, ofBits_pack_unpack]
    exact roundedTo_self hy
  · have : UnpackedFloat.add .binary64 x.toModel.unpack y.toModel.unpack = x.toModel.unpack := by
      rw [hA, hB]; rfl
    rw [toRat_unpack_zero hB, add_zero, hxy, this, ofBits_pack_unpack]
    exact roundedTo_self hx
  · -- both mantissas are brought to the smaller exponent and added exactly
    rw [hxy, hA, hB]
    apply roundedTo_normalize
    rw [toRat_unpack_finite hA, toRat_unpack_finite hB, Int.cast_add, add_mul,
      apply_shift s m (min_le_left e e'), apply_shift s' m' (min_le_right e e')]

theorem sub_roundedTo {x y : Float} {nx ny : Bool} {mx my : ℕ} {qx qy : ℤ}
    (hx : ofFloat x = .finite nx mx qx) (hy : ofFloat y = .finite ny my qy) :
    RoundedTo (toRat (ofFloat x) - toRat (ofFloat y)) (ofFloat (x - y)) := by
  have hxy : ofFloat (x - y) = ofBits (UInt64.ofBitVec (UnpackedFloat.pack .binary64
      (UnpackedFloat.sub .binary64 x.toModel.unpack y.toModel.unpack))) := rfl
  rcases unpack_cases hx with ⟨s, hA⟩ | ⟨s, m, e, hm, hA⟩ <;>
    rcases unpack_cases hy with ⟨s', hB⟩ | ⟨s', m', e', hm', hB⟩
  · rw [toRat_unpack_zero hA, toRat_unpack_zero hB, hxy, hA, hB, sub_self]
    cases s <;> cases s' <;> exact roundedTo_zero _
  · -- from a zero the difference is the other float with its sign turned
    obtain ⟨hm53, hlo, hhi, hn⟩ := ofBits_finite_bounds hy
    obtain ⟨rfl, rfl, rfl⟩ := ofFloat_of_unpack_finite hy hB
    have hw : UnpackedFloat.sub .binary64 x.toModel.unpack y.toModel.unpack =
        .finite (signOfBool (!(s' == .negative))) my qy hm' := by
      rw [hA, hB]
      cases s' <;> rfl
    have hword := ofBits_pack_finite (!(s' == .negative)) hm' hm53 hlo hhi hn
    rw [toRat_unpack_zero hA, zero_sub, hy, ← toRat_neg, hxy, hw, hword]
    exact roundedTo_ofBits hword
  · have : UnpackedFloat.sub .binary64 x.toModel.unpack y.toModel.unpack = x.toModel.unpack := by
      rw [hA, hB]; rfl
    rw [toRat_unpack_zero hB, sub_eq_add_neg, neg_zero, add_zero, hxy, this, ofBits_pack_unpack]
    exact roundedTo_self hx
  · -- both mantissas are brought to the smaller exponent and subtracted exactly
    rw [hxy, hA, hB]
    apply roundedTo_normalize
    rw [toRat_unpack_finite hA, toRat_unpack_finite hB, Int.cast_sub, sub_mul,
      apply_shift s m (min_le_left e e'), apply_shift s' m' (min_le_right e e')]

theorem mul_roundedTo {x y : Float} {nx ny : Bool} {mx my : ℕ} {qx qy : ℤ}
    (hx : ofFloat x = .finite nx mx qx) (hy : ofFloat y = .finite ny my qy) :
    RoundedTo (toRat (ofFloat x) * toRat (ofFloat y)) (ofFloat (x * y)) := by
  have hxy : ofFloat (x * y) = ofBits (UInt64.ofBitVec (UnpackedFloat.pack .binary64
      (UnpackedFloat.mul .binary64 x.toModel.unpack y.toModel.unpack))) := rfl
  rcases unpack_cases hx with ⟨s, hA⟩ | ⟨s, m, e, hm, hA⟩ <;>
    rcases unpack_cases hy with ⟨s', hB⟩ | ⟨s', m', e', hm', hB⟩
  · rw [toRat_unpack_zero hA, zero_mul, hxy, hA, hB]
    exact roundedTo_zero _
  · rw [toRat_unpack_zero hA, zero_mul, hxy, hA, hB]
    exact roundedTo_zero _
  · rw [toRat_unpack_zero hB, mul_zero, hxy, hA, hB]
    exact roundedTo_zero _
  · -- the mantissas multiply exactly and the product is rounded once
    obtain ⟨-, -, -, hn⟩ := ofBits_finite_bounds hx
    obtain ⟨-, -, -, hn'⟩ := ofBits_finite_bounds hy
    obtain ⟨-, rfl, rfl⟩ := ofFloat_of_unpack_finite hx hA
    obtain ⟨-, rfl, rfl⟩ := ofFloat_of_unpack_finite hy hB
    have hw : UnpackedFloat.mul .binary64 x.toModel.unpack y.toModel.unpack =
        UnpackedFloat.normalize .binary64 ((s * s').apply ((mx * my : ℕ) : ℤ)) (qx + qy) .positive := by
      rw [hA, hB, normalize_apply _ (Nat.mul_pos hm hm'),
        round_of_le_target _ (mul_le_target hm hm' hn hn')]
      rfl
    rw [hxy, hw]
    apply roundedTo_normalize
    rw [toRat_unpack_finite hA, toRat_unpack_finite hB, apply_mul_apply, zpow_add₀ two_ne_zero]
    ring

theorem ofFloat_ne_nan {x : Float} (h : x.isNaN = false) : ofFloat x ≠ .nan := by
  rw [Float.isNaN_eq_unpack] at h
  rw [ofFloat_eq_ofUnpacked]
  cases hx : x.toModel.unpack <;> simp_all [ofUnpacked, UnpackedFloat.isNaN]

theorem ofFloat_zero : ofFloat 0.0 = .finite false 0 (-1074) := by decide

@[simp] theorem toRat_ofFloat_zero : toRat (ofFloat 0.0) = 0 := by
  simp [ofFloat_zero, toRat, value]

theorem ofBits_pack_posInf :
    ofBits (UInt64.ofBitVec (UnpackedFloat.pack .binary64 (.infinity .positive))) = .infinite false := by
  decide

theorem posInf_add {x y : Float} (hx : ofFloat x = .infinite false) (hy : y.isNaN = false)
    (hy' : ofFloat y ≠ .infinite true) : ofFloat (x + y) = .infinite false := by
  have hxy : ofFloat (x + y) = ofBits (UInt64.ofBitVec (UnpackedFloat.pack .binary64
      (UnpackedFloat.add .binary64 x.toModel.unpack y.toModel.unpack))) := rfl
  rw [hxy, unpack_of_posInf hx]
  rw [Float.isNaN_eq_unpack] at hy
  rw [ofFloat_eq_ofUnpacked] at hy'
  cases hB : y.toModel.unpack with
  | notANumber => simp [hB, UnpackedFloat.isNaN] at hy
  | infinity s =>
    cases s
    · simp [hB, ofUnpacked] at hy'
    · exact ofBits_pack_posInf
  | zero s => exact ofBits_pack_posInf
  | finite s m e hm => exact ofBits_pack_posInf

theorem add_posInf {x y : Float} (hx : x.isNaN = false) (hx' : ofFloat x ≠ .infinite true)
    (hy : ofFloat y = .infinite false) : ofFloat (x + y) = .infinite false := by
  have hxy : ofFloat (x + y) = ofBits (UInt64.ofBitVec (UnpackedFloat.pack .binary64
      (UnpackedFloat.add .binary64 x.toModel.unpack y.toModel.unpack))) := rfl
  rw [hxy, unpack_of_posInf hy]
  rw [Float.isNaN_eq_unpack] at hx
  rw [ofFloat_eq_ofUnpacked] at hx'
  cases hA : x.toModel.unpack with
  | notANumber => simp [hA, UnpackedFloat.isNaN] at hx
  | infinity s =>
    cases s
    · simp [hA, ofUnpacked] at hx'
    · exact ofBits_pack_posInf
  | zero s => exact ofBits_pack_posInf
  | finite s m e hm => exact ofBits_pack_posInf

theorem ne_negInf_of_zero_le {s : Float} (hs : 0.0 ≤ s) : ofFloat s ≠ .infinite true := by
  intro h
  rw [le_iff_unpack, unpack_zero, unpack_of_negInf h] at hs
  exact absurd hs (by decide)

theorem ofBits_pack_negInf :
    ofBits (UInt64.ofBitVec (UnpackedFloat.pack .binary64 (.infinity .negative))) = .infinite true := by
  decide

theorem negInf_sub {x y : Float} (hx : ofFloat x = .infinite true) (hy : y.isNaN = false)
    (hy' : ofFloat y ≠ .infinite true) : ofFloat (x - y) = .infinite true := by
  have hxy : ofFloat (x - y) = ofBits (UInt64.ofBitVec (UnpackedFloat.pack .binary64
      (UnpackedFloat.sub .binary64 x.toModel.unpack y.toModel.unpack))) := rfl
  rw [hxy, unpack_of_negInf hx]
  rw [Float.isNaN_eq_unpack] at hy
  rw [ofFloat_eq_ofUnpacked] at hy'
  cases hB : y.toModel.unpack with
  | notANumber => simp [hB, UnpackedFloat.isNaN] at hy
  | infinity s =>
    cases s
    · simp [hB, ofUnpacked] at hy'
    · exact ofBits_pack_negInf
  | zero s => exact ofBits_pack_negInf
  | finite s m e hm => exact ofBits_pack_negInf

theorem sub_posInf {x y : Float} (hx : x.isNaN = false) (hx' : ofFloat x ≠ .infinite false)
    (hy : ofFloat y = .infinite false) : ofFloat (x - y) = .infinite true := by
  have hxy : ofFloat (x - y) = ofBits (UInt64.ofBitVec (UnpackedFloat.pack .binary64
      (UnpackedFloat.sub .binary64 x.toModel.unpack y.toModel.unpack))) := rfl
  rw [hxy, unpack_of_posInf hy]
  rw [Float.isNaN_eq_unpack] at hx
  rw [ofFloat_eq_ofUnpacked] at hx'
  cases hA : x.toModel.unpack with
  | notANumber => simp [hA, UnpackedFloat.isNaN] at hx
  | infinity s =>
    cases s
    · exact ofBits_pack_negInf
    · simp [hA, ofUnpacked] at hx'
  | zero s => exact ofBits_pack_negInf
  | finite s m e hm => exact ofBits_pack_negInf

theorem toRat_nonneg_of_zero_le {s : Float} {ns : Bool} {ms : ℕ} {qs : ℤ} (hs : 0.0 ≤ s)
    (hsw : ofFloat s = .finite ns ms qs) : 0 ≤ toRat (ofFloat s) := by
  simpa using (le_iff_toRat ofFloat_zero hsw).1 hs

theorem sub_negInf {x y : Float} (hx : x.isNaN = false) (hx' : ofFloat x ≠ .infinite true)
    (hy : ofFloat y = .infinite true) : ofFloat (x - y) = .infinite false := by
  have hxy : ofFloat (x - y) = ofBits (UInt64.ofBitVec (UnpackedFloat.pack .binary64
      (UnpackedFloat.sub .binary64 x.toModel.unpack y.toModel.unpack))) := rfl
  rw [hxy, unpack_of_negInf hy]
  rw [Float.isNaN_eq_unpack] at hx
  rw [ofFloat_eq_ofUnpacked] at hx'
  cases hA : x.toModel.unpack with
  | notANumber => simp [hA, UnpackedFloat.isNaN] at hx
  | infinity s =>
    cases s
    · simp [hA, ofUnpacked] at hx'
    · exact ofBits_pack_posInf
  | zero s => exact ofBits_pack_posInf
  | finite s m e hm => exact ofBits_pack_posInf

theorem ofFloat_neg {x : Float} {n : Bool} {m : ℕ} {q : ℤ} (hx : ofFloat x = .finite n m q) :
    ofFloat (-x) = .finite (!n) m q := by
  have hneg : ofFloat (-x) = ofBits (UInt64.ofBitVec (UnpackedFloat.pack .binary64
      (UnpackedFloat.neg x.toModel.unpack))) := rfl
  obtain ⟨hm53, hlo, hhi, hn⟩ := ofBits_finite_bounds hx
  rcases unpack_cases hx with ⟨s, hA⟩ | ⟨s, m', e, hm, hA⟩
  · rw [ofFloat_eq_ofUnpacked, hA] at hx
    simp only [ofUnpacked, Binary64.finite.injEq] at hx
    obtain ⟨rfl, rfl, rfl⟩ := hx
    rw [hneg, hA]
    cases s <;> decide
  · obtain ⟨rfl, rfl, rfl⟩ := ofFloat_of_unpack_finite hx hA
    have hsign : -s = signOfBool (!(s == .negative)) := by cases s <;> rfl
    rw [hneg, hA]
    show ofBits (UInt64.ofBitVec (UnpackedFloat.pack .binary64 (.finite (-s) _ _ hm))) = _
    rw [hsign]
    exact ofBits_pack_finite _ hm hm53 hlo hhi hn

/-! ### Numbers between numbers -/

theorem ofFloat_of_isFinite {x : Float} (h : x.isFinite = true) :
    ∃ neg m q, ofFloat x = .finite neg m q := by
  have hfin : x.toModel.unpack.isFinite = true := h
  rw [ofFloat_eq_ofUnpacked]
  cases hx : x.toModel.unpack with
  | notANumber => simp [hx, UnpackedFloat.isFinite] at hfin
  | infinity s => simp [hx, UnpackedFloat.isFinite] at hfin
  | zero s => exact ⟨_, _, _, rfl⟩
  | finite s m e hm => exact ⟨_, _, _, rfl⟩

theorem place_finite {x : Float} {neg : Bool} {m : ℕ} {q : ℤ} (h : ofFloat x = .finite neg m q) :
    place (.infinity .negative) < place x.toModel.unpack ∧
      place x.toModel.unpack < place (.infinity .positive) := by
  rcases unpack_cases h with ⟨s, hA⟩ | ⟨s, m, e, hm, hA⟩ <;> rw [hA]
  · simp [place, Prod.Lex.toLex_lt_toLex]
  · cases s <;> simp [place, Prod.Lex.toLex_lt_toLex]

theorem finite_of_le_of_le {a z b : Float} {na nb : Bool} {ma mb : ℕ} {qa qb : ℤ}
    (ha : ofFloat a = .finite na ma qa) (hb : ofFloat b = .finite nb mb qb) (h₁ : a ≤ z)
    (h₂ : z ≤ b) : ∃ n m q, ofFloat z = .finite n m q := by
  have hz := (Float.isNaN_of_le h₁).2
  cases hw : ofFloat z with
  | nan => exact absurd hw (ofFloat_ne_nan hz)
  | infinite neg =>
    exfalso
    cases neg
    · -- positive infinity lies above `b`
      rw [Float.le_iff_place hz (isNaN_of_ofFloat (by simp [hb])), unpack_of_posInf hw] at h₂
      exact absurd h₂ (not_le.2 (place_finite hb).2)
    · rw [Float.le_iff_place (isNaN_of_ofFloat (by simp [ha])) hz, unpack_of_negInf hw] at h₁
      exact absurd h₁ (not_le.2 (place_finite ha).1)
  | finite n m q => exact ⟨n, m, q, rfl⟩

theorem zero_le_sub_of_le {x y : Float} {n : Bool} {m : ℕ} {q : ℤ} (hx : ofFloat x = .finite n m q)
    (h : y ≤ x) : 0.0 ≤ x - y := by
  have hxn : x.isNaN = false := isNaN_of_ofFloat (by simp [hx])
  have hyn := (Float.isNaN_of_le h).1
  cases hyw : ofFloat y with
  | nan => exact absurd hyw (ofFloat_ne_nan hyn)
  | infinite ny =>
    cases ny
    · -- positive infinity is above every finite number
      rw [Float.le_iff_place hyn hxn, unpack_of_posInf hyw] at h
      exact absurd h (not_le.2 (place_finite hx).2)
    · exact le_of_infinite (by decide) (sub_negInf hxn (by simp [hx]) hyw)
  | finite ny my qy =>
    have hle := (le_iff_toRat hyw hx).1 h
    exact (roundedTo_self ofFloat_zero).le (sub_roundedTo hx hyw) (by simp; linarith)

theorem le_sub_of_nonpos {x y : Float} {n : Bool} {m : ℕ} {q : ℤ} (hx : ofFloat x = .finite n m q)
    (h : y ≤ 0.0) : x ≤ x - y := by
  have hxn : x.isNaN = false := isNaN_of_ofFloat (by simp [hx])
  have hyn := (Float.isNaN_of_le h).1
  cases hyw : ofFloat y with
  | nan => exact absurd hyw (ofFloat_ne_nan hyn)
  | infinite ny =>
    cases ny
    · rw [Float.le_iff_place hyn (by decide), unpack_of_posInf hyw] at h
      exact absurd h (by decide)
    · exact le_of_infinite hxn (sub_negInf hxn (by simp [hx]) hyw)
  | finite ny my qy =>
    have hle := (le_iff_toRat hyw ofFloat_zero).1 h
    simp only [toRat_ofFloat_zero] at hle
    exact (roundedTo_self hx).le (sub_roundedTo hx hyw) (by linarith)

section

variable {x y : Float} {nx ny : Bool} {mx my : ℕ} {qx qy : ℤ}
  (hx : ofFloat x = .finite nx mx qx) (hy : ofFloat y = .finite ny my qy)
include hx hy

theorem zero_le_add_of_finite (hx0 : 0.0 ≤ x) (hy0 : 0.0 ≤ y) : 0.0 ≤ x + y := by
  refine (roundedTo_self ofFloat_zero).le (add_roundedTo hx hy) ?_
  simp only [toRat_ofFloat_zero]
  linarith [toRat_nonneg_of_zero_le hx0 hx, toRat_nonneg_of_zero_le hy0 hy]

theorem zero_le_add_neg_of_le (h : y ≤ x) : 0.0 ≤ x + -y := by
  refine (roundedTo_self ofFloat_zero).le (add_roundedTo hx (ofFloat_neg hy)) ?_
  rw [ofFloat_neg hy, toRat_neg, ← hy]
  simp only [toRat_ofFloat_zero]
  linarith [(le_iff_toRat hy hx).1 h]

theorem neg_mul_nonpos (hx0 : 0.0 ≤ x) (hy0 : 0.0 ≤ y) : -x * y ≤ 0.0 := by
  refine (mul_roundedTo (ofFloat_neg hx) hy).le (roundedTo_self ofFloat_zero) ?_
  rw [ofFloat_neg hx, toRat_neg, ← hx]
  simp only [toRat_ofFloat_zero, neg_mul]
  exact neg_nonpos.2 (mul_nonneg (toRat_nonneg_of_zero_le hx0 hx) (toRat_nonneg_of_zero_le hy0 hy))

end

/-- Adding a float at least zero never lowers a number, unless the sum is NaN. -/
theorem le_add_of_nonneg {x s : Float} (hx : x.isNaN = false) (hs : 0.0 ≤ s)
    (h : (x + s).isNaN = false) : x ≤ x + s := by
  have hsn := (Float.isNaN_of_le hs).2
  have hsi := ne_negInf_of_zero_le hs
  cases hxw : ofFloat x with
  | nan => exact absurd hxw (ofFloat_ne_nan hx)
  | infinite nx =>
    cases nx
    · exact le_of_infinite hx (posInf_add hxw hsn hsi)
    · exact infinite_le hxw h
  | finite nx mx qx =>
    cases hsw : ofFloat s with
    | nan => exact absurd hsw (ofFloat_ne_nan hsn)
    | infinite ns =>
      cases ns
      · exact le_of_infinite hx (add_posInf hx (by simp [hxw]) hsw)
      · exact absurd hsw hsi
    | finite ns ms qs =>
      -- the exact sum is at least `x`, and rounding keeps that order
      have h0 := toRat_nonneg_of_zero_le hs hsw
      exact RoundedTo.le (roundedTo_self hxw) (add_roundedTo hxw hsw) (by linarith)

/-- Subtracting a float at least zero never raises a number, unless the difference is NaN. -/
theorem sub_le_of_nonneg {x s : Float} (hx : x.isNaN = false) (hs : 0.0 ≤ s)
    (h : (x - s).isNaN = false) : x - s ≤ x := by
  have hsn := (Float.isNaN_of_le hs).2
  have hsi := ne_negInf_of_zero_le hs
  cases hxw : ofFloat x with
  | nan => exact absurd hxw (ofFloat_ne_nan hx)
  | infinite nx =>
    cases nx
    · exact le_of_infinite h hxw
    · exact infinite_le (negInf_sub hxw hsn hsi) hx
  | finite nx mx qx =>
    cases hsw : ofFloat s with
    | nan => exact absurd hsw (ofFloat_ne_nan hsn)
    | infinite ns =>
      cases ns
      · exact infinite_le (sub_posInf hx (by simp [hxw]) hsw) hx
      · exact absurd hsw hsi
    | finite ns ms qs =>
      have h0 := toRat_nonneg_of_zero_le hs hsw
      exact RoundedTo.le (sub_roundedTo hxw hsw) (roundedTo_self hxw) (by linarith)

end Binary64

end TradeDesk

namespace Float

open TradeDesk.Binary64

variable {a b c : Float} {na nb nc : Bool} {ma mb mc : ℕ} {qa qb qc : ℤ}

theorem toRat_le (ha : ofFloat a = .finite na ma qa) (hb : ofFloat b = .finite nb mb qb)
    (h : a ≤ b) : toRat (ofFloat a) ≤ toRat (ofFloat b) :=
  (le_iff_toRat ha hb).1 h

section

variable (hc : ofFloat c = .finite nc mc qc) (ha : ofFloat a = .finite na ma qa)
  (hb : ofFloat b = .finite nb mb qb)
include hc ha hb

theorem add_le_add_left_of_finite (h : a ≤ b) : c + a ≤ c + b :=
  RoundedTo.le (add_roundedTo hc ha) (add_roundedTo hc hb) (by linarith [toRat_le ha hb h])

theorem sub_le_sub_left_of_finite (h : a ≤ b) : c - b ≤ c - a :=
  RoundedTo.le (sub_roundedTo hc hb) (sub_roundedTo hc ha) (by linarith [toRat_le ha hb h])

theorem mul_le_mul_of_nonneg_left_of_finite (hc0 : 0 ≤ toRat (ofFloat c)) (h : a ≤ b) :
    c * a ≤ c * b :=
  RoundedTo.le (mul_roundedTo hc ha) (mul_roundedTo hc hb)
    (mul_le_mul_of_nonneg_left (toRat_le ha hb h) hc0)

theorem mul_le_mul_of_nonpos_left_of_finite (hc0 : toRat (ofFloat c) ≤ 0) (h : a ≤ b) :
    c * b ≤ c * a :=
  RoundedTo.le (mul_roundedTo hc hb) (mul_roundedTo hc ha)
    (mul_le_mul_of_nonpos_left (toRat_le ha hb h) hc0)

end

end Float
