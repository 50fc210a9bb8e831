import Mathlib
import TradeDesk.Exchange.Pricing
import TradeDesk.Proofs.PaperLedger

/-!
Whole numbers as floats: within `2^53` their sums and differences are exact
(`Act.ofWhole_sub`, `Act.ofWhole_add`).
-/

namespace TradeDesk

namespace Binary64

open Float.Model Float.Model.UnpackedFloat

/-! ### Rounding depends on the value only -/

theorem repeat_add {α : Type} (f : α → α) (i j : Nat) (x : α) :
    Nat.repeat f (i + j) x = Nat.repeat f i (Nat.repeat f j x) := by
  induction i with
  | zero => simp [Nat.repeat]
  | succ i ih => rw [Nat.add_right_comm, Nat.repeat, ih, Nat.repeat]

theorem shiftRight_add (x : ExtendedMantissa) (i j : Nat) : x >>> (i + j) = (x >>> j) >>> i :=
  repeat_add _ i j x

theorem shiftRight_zero (x : ExtendedMantissa) : x >>> (0 : Nat) = x := rfl

theorem shiftRight_one_exact (m : Nat) :
    (⟨m * 2, false, false⟩ : ExtendedMantissa) >>> (1 : Nat) = ⟨m, false, false⟩ := by
  show ExtendedMantissa.shiftRightOne ⟨m * 2, false, false⟩ = _
  simp [ExtendedMantissa.shiftRightOne]

theorem shiftRight_exact (m j : Nat) :
    (⟨m * 2 ^ j, false, false⟩ : ExtendedMantissa) >>> j = ⟨m, false, false⟩ := by
  induction j generalizing m with
  | zero => simp [shiftRight_zero]
  | succ j ih =>
    rw [shiftRight_add _ j 1, show m * 2 ^ (j + 1) = (m * 2 ^ j) * 2 by ring,
      shiftRight_one_exact, ih]

theorem log2_shiftLeft {m : Nat} (hm : 0 < m) (k : Nat) : (m <<< k).log2 = m.log2 + k := by
  rw [Nat.shiftLeft_eq, Nat.log2_eq_iff (Nat.mul_ne_zero hm.ne' (Nat.two_pow_pos k).ne')]
  have hlo := Nat.log2_self_le hm.ne'
  have hhi := Nat.lt_log2_self (n := m)
  constructor
  · rw [Nat.pow_add]
    exact Nat.mul_le_mul_right _ hlo
  · rw [show m.log2 + k + 1 = (m.log2 + 1) + k by omega, Nat.pow_add]
    exact Nat.mul_lt_mul_of_pos_right hhi (Nat.two_pow_pos k)

theorem totalExponent_shiftLeft {m : Nat} (hm : 0 < m) (k : Nat) (e : Int) :
    totalExponent (m <<< k) (e - k) = totalExponent m e := by
  simp only [totalExponent, log2_shiftLeft hm]
  omega

theorem shiftToTargetExponent_shiftLeft (spec : Format) {m : Nat} (hm : 0 < m) (j : Nat) {e : Int}
    (hT : e ≤ spec.targetExponent (totalExponent m e)) :
    shiftToTargetExponent spec (m <<< j) (e - j) .exact =
      shiftToTargetExponent spec m e .exact := by
  unfold shiftToTargetExponent shiftToExponent
  rw [totalExponent_shiftLeft hm]
  dsimp only
  have hj : (spec.targetExponent (totalExponent m e) - (e - j)).toNat =
      (spec.targetExponent (totalExponent m e) - e).toNat + j := by omega
  rw [hj, shiftRight_add]
  simp only [ExtendedMantissa.ofMantissaAndAccuracy, Nat.shiftLeft_eq, shiftRight_exact]
  congr 1
  omega

theorem roundWithAccuracy_shiftLeft (spec : Format) (s : Sign) {m : Nat} (hm : 0 < m) (j : Nat)
    {e : Int} (hT : e ≤ spec.targetExponent (totalExponent m e)) :
    roundWithAccuracy spec s (m <<< j) (e - j) .exact = roundWithAccuracy spec s m e .exact := by
  unfold roundWithAccuracy
  rw [shiftToTargetExponent_shiftLeft spec hm j hT]

/-- Rounding a mantissa scaled up by `2^k`, at an exponent `k` lower, rounds the same value. -/
theorem round_shiftLeft (spec : Format) (s : Sign) {m : Nat} (hm : 0 < m) (k : Nat) (e : Int) :
    UnpackedFloat.round spec s (m <<< k) (e - k) = UnpackedFloat.round spec s m e := by
  unfold UnpackedFloat.round decreaseExponent
  rw [totalExponent_shiftLeft hm]
  dsimp only
  generalize hT : spec.targetExponent (totalExponent m e) = T
  -- both are brought to the target exponent `T`: up from below it, down from above it
  by_cases h1 : T ≤ e - k
  · have hs : k + (e - k - T).toNat = (e - T).toNat := by omega
    have he : e - k - ((e - k - T).toNat : Int) = e - (e - T).toNat := by omega
    rw [← Nat.shiftLeft_add, hs, he]
  · have hl : (e - k - T).toNat = 0 := by omega
    rw [hl, Nat.shiftLeft_zero, Int.ofNat_zero, Int.sub_zero]
    by_cases h2 : T ≤ e
    · -- the right side is already at `T`; the left one sits `k - (e - T)` below it
      have hm' : 0 < m <<< (e - T).toNat := by rw [Nat.shiftLeft_eq]; positivity
      have hT' : e - (e - T).toNat ≤
          spec.targetExponent (totalExponent (m <<< (e - T).toNat) (e - (e - T).toNat)) := by
        rw [totalExponent_shiftLeft hm, hT]
        omega
      have := roundWithAccuracy_shiftLeft spec s hm' (k - (e - T).toNat) hT'
      rw [← Nat.shiftLeft_add, show (e - T).toNat + (k - (e - T).toNat) = k by omega,
        show e - ((e - T).toNat : Int) - ((k - (e - T).toNat : Nat) : Int) = e - k by omega] at this
      exact this
    · have hr : (e - T).toNat = 0 := by omega
      rw [hr, Nat.shiftLeft_zero, Int.ofNat_zero, Int.sub_zero]
      exact roundWithAccuracy_shiftLeft spec s hm k (by omega)

theorem normalize_shift (spec : Format) (x : Int) (j : Nat) (e : Int) (z : Sign) :
    UnpackedFloat.normalize spec (x * 2 ^ j) (e - j) z = UnpackedFloat.normalize spec x e z := by
  unfold UnpackedFloat.normalize
  have hp : (0 : Int) < 2 ^ j := by positivity
  rcases Int.lt_trichotomy x 0 with hx | rfl | hx
  · rw [Int.compare_eq_lt.2 (Int.mul_neg_of_neg_of_pos hx hp), Int.compare_eq_lt.2 hx]
    have hs : (-(x * 2 ^ j)).toNat = (-x).toNat <<< j := by
      rw [Nat.shiftLeft_eq, show -(x * 2 ^ j) = (-x) * 2 ^ j by ring,
        Int.toNat_mul (by omega) hp.le]
      norm_cast
    rw [hs, round_shiftLeft _ _ (by omega)]
  · simp
  · rw [Int.compare_eq_gt.2 (Int.mul_pos hx hp), Int.compare_eq_gt.2 hx]
    have hs : (x * 2 ^ j).toNat = x.toNat <<< j := by
      rw [Nat.shiftLeft_eq, Int.toNat_mul hx.le hp.le]
      norm_cast
    rw [hs, round_shiftLeft _ _ (by omega)]

theorem targetExponent_binary64 (t : Int) :
    Format.binary64.targetExponent t = max (t - 53) (-1074) :=
  rfl

theorem round_normal (s : Sign) {m : Nat} (hm : m.log2 = 52) {e : Int} (he : -1074 ≤ e) :
    UnpackedFloat.round .binary64 s m e =
      .finite s m e (Nat.pos_of_ne_zero fun h => by simp [h] at hm) := by
  have hpos : m ≠ 0 := fun h => by simp [h] at hm
  have ht : Format.binary64.targetExponent (totalExponent m e) = e := by
    rw [targetExponent_binary64, totalExponent, hm]
    omega
  unfold UnpackedFloat.round decreaseExponent
  simp [ht, roundWithAccuracy, shiftToTargetExponent, shiftToExponent, shiftRight_zero,
    ExtendedMantissa.ofMantissaAndAccuracy, ExtendedMantissa.roundedMantissa,
    ExtendedMantissa.accuracy, Accuracy.roundToNearestEven, hpos]

/-! ### Normal forms of whole numbers -/

/-- `m * 2^e` is the normal binary64 form of the whole number `n`: a mantissa of 53 binary digits,
at an exponent no lower than that of the units' digit. -/
structure WholeForm (n m : Nat) (e : Int) : Prop where
  log2 : m.log2 = 52
  exponent : -52 ≤ e
  value : m * 2 ^ (e + 52).toNat = n * 2 ^ 52

namespace WholeForm

variable {n m : Nat} {e : Int}

theorem bounds (h : WholeForm n m e) : 2 ^ 52 ≤ m ∧ m < 2 ^ 53 := by
  have hm : m ≠ 0 := fun h0 => by
    have := h.log2
    simp [h0] at this
  exact (Nat.log2_eq_iff hm).1 h.log2

theorem pos (h : WholeForm n m e) : 0 < m := by
  have := h.bounds.1
  omega

theorem whole_pos (h : WholeForm n m e) : 0 < n := by
  rcases Nat.eq_zero_or_pos n with rfl | hn
  · have := h.value
    simp at this
    exact absurd this h.pos.ne'
  · exact hn

theorem exponent_le (h : WholeForm n m e) (hn : n ≤ 2 ^ 53) : e ≤ 1 := by
  have : 2 ^ 52 * 2 ^ (e + 52).toNat ≤ 2 ^ 53 * 2 ^ 52 :=
    calc 2 ^ 52 * 2 ^ (e + 52).toNat ≤ m * 2 ^ (e + 52).toNat :=
          Nat.mul_le_mul_right _ h.bounds.1
      _ = n * 2 ^ 52 := h.value
      _ ≤ 2 ^ 53 * 2 ^ 52 := Nat.mul_le_mul_right _ hn
  rw [← Nat.pow_add, ← Nat.pow_add] at this
  have := (Nat.pow_le_pow_iff_right (by decide : 1 < 2)).1 this
  omega

theorem shifted (h : WholeForm n m e) : n * 2 ^ (-e).toNat = m * 2 ^ e.toNat := by
  have hv := h.value
  have he := h.exponent
  by_cases he0 : 0 ≤ e
  · rw [show (e + 52).toNat = e.toNat + 52 by omega, Nat.pow_add, ← Nat.mul_assoc] at hv
    rw [show (-e).toNat = 0 by omega, Nat.pow_zero, Nat.mul_one]
    exact (Nat.eq_of_mul_eq_mul_right (Nat.two_pow_pos 52) hv).symm
  · rw [show (52 : Nat) = (-e).toNat + (e + 52).toNat by omega, Nat.pow_add, ← Nat.mul_assoc] at hv
    rw [show e.toNat = 0 by omega, Nat.pow_zero, Nat.mul_one]
    exact (Nat.eq_of_mul_eq_mul_right (Nat.two_pow_pos _) hv).symm

theorem log2_eq (h : WholeForm n m e) : (n.log2 : Int) = e + 52 := by
  have hs := congrArg Nat.log2 h.shifted
  rw [← Nat.shiftLeft_eq, ← Nat.shiftLeft_eq, log2_shiftLeft h.whole_pos,
    log2_shiftLeft h.pos, h.log2] at hs
  omega

theorem exists_of_le (h0 : 0 < n) (h : n ≤ 2 ^ 53) : ∃ m e, WholeForm n m e := by
  have hlo := Nat.log2_self_le h0.ne'
  have hhi := Nat.lt_log2_self (n := n)
  by_cases hL : n.log2 ≤ 52
  · refine ⟨n <<< (52 - n.log2), (n.log2 : Int) - 52, ?_, by omega, ?_⟩
    · rw [log2_shiftLeft h0]
      omega
    · rw [Nat.shiftLeft_eq, show ((n.log2 : Int) - 52 + 52).toNat = n.log2 by omega,
        Nat.mul_assoc, ← Nat.pow_add, show 52 - n.log2 + n.log2 = 52 by omega]
  · -- only `2^53` itself has 54 binary digits
    have hn : n = 2 ^ 53 := by
      have : 2 ^ 53 ≤ 2 ^ n.log2 := Nat.pow_le_pow_right (by decide) (by omega)
      omega
    subst hn
    exact ⟨2 ^ 52, 1, by decide, by decide, by decide⟩

theorem unique {m' : Nat} {e' : Int} (h : WholeForm n m e) (h' : WholeForm n m' e') :
    m = m' ∧ e = e' := by
  have hv : m * 2 ^ (e + 52).toNat = m' * 2 ^ (e' + 52).toNat := by rw [h.value, h'.value]
  have hl := congrArg Nat.log2 hv
  rw [← Nat.shiftLeft_eq, ← Nat.shiftLeft_eq, log2_shiftLeft h.pos, log2_shiftLeft h'.pos,
    h.log2, h'.log2] at hl
  have he : e = e' := by
    have := h.exponent
    have := h'.exponent
    omega
  subst he
  exact ⟨Nat.eq_of_mul_eq_mul_right (Nat.two_pow_pos _) hv, rfl⟩

theorem round (h : WholeForm n m e) (s : Sign) :
    UnpackedFloat.round .binary64 s n 0 = .finite s m e h.pos := by
  have hshift : n <<< 52 = m <<< (e + 52).toNat := by
    rw [Nat.shiftLeft_eq, Nat.shiftLeft_eq, h.value]
  calc UnpackedFloat.round .binary64 s n 0
      = UnpackedFloat.round .binary64 s (n <<< 52) (0 - (52 : Nat)) :=
        (round_shiftLeft _ s h.whole_pos 52 0).symm
    _ = UnpackedFloat.round .binary64 s (m <<< (e + 52).toNat) (e - ((e + 52).toNat : Nat)) := by
        rw [hshift, show (0 : Int) - ((52 : Nat) : Int) = e - ((e + 52).toNat : Nat) by
          have := h.exponent
          omega]
    _ = UnpackedFloat.round .binary64 s m e := round_shiftLeft _ s h.pos _ e
    _ = .finite s m e h.pos := round_normal s h.log2 (by have := h.exponent; omega)

end WholeForm

def signOf (n : Int) : Sign := if n < 0 then .negative else .positive

theorem signOf_apply (n : Int) : (signOf n).apply (n.natAbs : Int) = n := by
  unfold signOf
  split
  · show -(n.natAbs : Int) = n
    omega
  · show (n.natAbs : Int) = n
    omega

theorem signOf_neg {n : Int} (hn : n ≠ 0) : signOf (-n) = -signOf n := by
  unfold signOf
  by_cases h : n < 0
  · rw [if_neg (by omega), if_pos h]
    rfl
  · rw [if_pos (by omega), if_neg h]
    rfl

theorem apply_mul (s : Sign) (x y : Int) : s.apply (x * y) = s.apply x * y := by
  cases s <;> simp [Sign.apply]

theorem ofInt_whole {n : Int} {m : Nat} {e : Int} (h : WholeForm n.natAbs m e) :
    UnpackedFloat.ofInt .binary64 n = .finite (signOf n) m e h.pos := by
  unfold UnpackedFloat.ofInt UnpackedFloat.normalize signOf
  rcases Int.lt_trichotomy n 0 with hn | rfl | hn
  · rw [Int.compare_eq_lt.2 hn, if_pos hn, show (-n).toNat = n.natAbs by omega]
    exact h.round _
  · exact absurd h.whole_pos (by decide)
  · rw [Int.compare_eq_gt.2 hn, if_neg (by omega), show n.toNat = n.natAbs by omega]
    exact h.round _

theorem ofInt_neg {n : Int} (hn : n ≠ 0) (hb : n.natAbs ≤ 2 ^ 53) :
    UnpackedFloat.ofInt .binary64 (-n) = (UnpackedFloat.ofInt .binary64 n).neg := by
  obtain ⟨m, e, h⟩ := WholeForm.exists_of_le (by omega) hb
  have h' : WholeForm (-n).natAbs m e := by rwa [Int.natAbs_neg]
  rw [ofInt_whole h, ofInt_whole h', signOf_neg hn]
  rfl

theorem abs_ofInt {n : Int} (hb : n.natAbs ≤ 2 ^ 53) :
    (UnpackedFloat.ofInt .binary64 n).abs = UnpackedFloat.ofInt .binary64 (n.natAbs : Int) := by
  rcases eq_or_ne n 0 with rfl | hn
  · rfl
  · obtain ⟨m, e, h⟩ := WholeForm.exists_of_le (by omega) hb
    have h' : WholeForm (n.natAbs : Int).natAbs m e := by rwa [Int.natAbs_natCast]
    rw [ofInt_whole h, ofInt_whole h']
    unfold signOf
    rw [if_neg (show ¬ ((n.natAbs : Int) < 0) by omega)]
    rfl

theorem WholeForm.scaled {n : Int} {m : Nat} {e : Int} (h : WholeForm n.natAbs m e) {k : Int}
    (hk : k ≤ e) (hk' : -52 ≤ k) :
    (signOf n).apply ((m <<< (e - k).toNat : Nat) : Int) * 2 ^ (k + 52).toNat = n * 2 ^ 52 := by
  rw [← apply_mul, Nat.shiftLeft_eq]
  have hv : ((m * 2 ^ (e - k).toNat : Nat) : Int) * 2 ^ (k + 52).toNat =
      ((n.natAbs : Nat) : Int) * 2 ^ 52 := by
    have hv := h.value
    rw [show (e + 52).toNat = (e - k).toNat + (k + 52).toNat by omega, Nat.pow_add,
      ← Nat.mul_assoc] at hv
    exact_mod_cast hv
  rw [hv, apply_mul, signOf_apply]

theorem normalize_combine {a b : Int} {ma mb : Nat} {ea eb : Int} (ha : WholeForm a.natAbs ma ea)
    (hb : WholeForm b.natAbs mb eb) (op : Int → Int → Int)
    (hop : ∀ x y c : Int, op x y * c = op (x * c) (y * c)) :
    UnpackedFloat.normalize .binary64
        (op ((signOf a).apply ((ma <<< (ea - min ea eb).toNat : Nat) : Int))
          ((signOf b).apply ((mb <<< (eb - min ea eb).toNat : Nat) : Int))) (min ea eb) .positive =
      UnpackedFloat.ofInt .binary64 (op a b) := by
  have hk : -52 ≤ min ea eb := by
    have := ha.exponent
    have := hb.exponent
    omega
  unfold UnpackedFloat.ofInt
  rw [← normalize_shift _ _ (min ea eb + 52).toNat, ← normalize_shift _ (op a b) 52 0, hop, hop,
    ha.scaled (min_le_left _ _) hk, hb.scaled (min_le_right _ _) hk,
    show min ea eb - ((min ea eb + 52).toNat : Int) = 0 - ((52 : Nat) : Int) by omega]

theorem sub_ofInt {a b : Int} (ha : a.natAbs ≤ 2 ^ 53) (hb : b.natAbs ≤ 2 ^ 53) :
    UnpackedFloat.sub .binary64 (UnpackedFloat.ofInt .binary64 a)
        (UnpackedFloat.ofInt .binary64 b) = UnpackedFloat.ofInt .binary64 (a - b) := by
  rcases eq_or_ne b 0 with rfl | hb0
  · rcases eq_or_ne a 0 with rfl | ha0
    · rfl
    · obtain ⟨m, e, h⟩ := WholeForm.exists_of_le (by omega) ha
      rw [ofInt_whole h, Int.sub_zero, ofInt_whole h]
      rfl
  · obtain ⟨mb, eb, hb'⟩ := WholeForm.exists_of_le (by omega) hb
    rcases eq_or_ne a 0 with rfl | ha0
    · rw [Int.zero_sub, ofInt_neg hb0 hb, ofInt_whole hb']
      rfl
    · obtain ⟨ma, ea, ha'⟩ := WholeForm.exists_of_le (by omega) ha
      rw [ofInt_whole ha', ofInt_whole hb']
      simp only [UnpackedFloat.sub, decreaseExponent]
      exact normalize_combine ha' hb' (· - ·) fun x y c => Int.sub_mul x y c

theorem add_ofInt {a b : Int} (ha : a.natAbs ≤ 2 ^ 53) (hb : b.natAbs ≤ 2 ^ 53) :
    UnpackedFloat.add .binary64 (UnpackedFloat.ofInt .binary64 a)
        (UnpackedFloat.ofInt .binary64 b) = UnpackedFloat.ofInt .binary64 (a + b) := by
  rcases eq_or_ne b 0 with rfl | hb0
  · rcases eq_or_ne a 0 with rfl | ha0
    · rfl
    · obtain ⟨m, e, h⟩ := WholeForm.exists_of_le (by omega) ha
      rw [ofInt_whole h, Int.add_zero, ofInt_whole h]
      rfl
  · obtain ⟨mb, eb, hb'⟩ := WholeForm.exists_of_le (by omega) hb
    rcases eq_or_ne a 0 with rfl | ha0
    · rw [Int.zero_add, ofInt_whole hb']
      rfl
    · obtain ⟨ma, ea, ha'⟩ := WholeForm.exists_of_le (by omega) ha
      rw [ofInt_whole ha', ofInt_whole hb']
      simp only [UnpackedFloat.add, decreaseExponent]
      exact normalize_combine ha' hb' (· + ·) fun x y c => Int.add_mul x y c

/-! ### Words of whole numbers -/

theorem unpack_pack_normal (s : Sign) {m : Nat} (hm : m.log2 = 52) {e : Int} (he : -1074 ≤ e)
    (he' : e ≤ 971) (hpos : 0 < m) :
    UnpackedFloat.unpack .binary64 (UnpackedFloat.pack .binary64 (.finite s m e hpos)) =
      .finite s m e hpos := by
  have hb := (Nat.log2_eq_iff hpos.ne').1 hm
  have hn : ¬ 2 ^ Format.binary64.exponentBits ≤
      (e + Format.binary64.exponentBias + Format.binary64.mantissaBitsWithoutImplicit).toNat + 1 := by
    change ¬ 2048 ≤ (e + 1023 + 52).toNat + 1
    omega
  simp only [UnpackedFloat.pack, if_neg hn, hm]
  rw [if_pos (show 52 + 1 = Format.binary64.mantissaBits from rfl)]
  simp only [UnpackedFloat.unpack, unpackMantissa_packComponents, unpackExponent_packComponents]
  have hsign (ee : BitVec 11) (mm : BitVec 52) :
      unpackSign (packComponents Format.binary64 s ee mm) = s.toBitVec := by
    change (s.toBitVec ++ ee ++ mm).extractLsb' 63 1 = s.toBitVec
    rw [BitVec.extractLsb'_append_eq_of_le (by decide),
      BitVec.extractLsb'_append_eq_of_le (by decide)]
    cases s <;> rfl
  rw [hsign]
  have hbe : (BitVec.ofNat 11 (e + ↑Format.binary64.exponentBias + ↑52).toNat).toNat =
      (e + 1075).toNat := by
    change (e + 1023 + 52).toNat % 2048 = (e + 1075).toNat
    omega
  -- the exponent field of a normal value is neither all ones nor all zeros
  have hfield (k : BitVec 11) (hk : k.toNat ≠ (e + 1075).toNat) :
      BitVec.ofNat 11 (e + ↑Format.binary64.exponentBias + ↑52).toNat ≠ k :=
    fun h => hk (by rw [← h, hbe])
  have hne := hfield 2047#11 (by change 2047 ≠ _; omega)
  have hnz := hfield 0#11 (by change 0 ≠ _; omega)
  have hmv : (1#1 ++ BitVec.ofNat 52 m).toNat = m := by
    simp only [BitVec.toNat_append, BitVec.toNat_ofNat, Nat.shiftLeft_eq]
    change 2 ^ 52 ||| (m % 2 ^ 52) = m
    rw [Nat.or_comm, Nat.or_two_pow_eq_add_of_lt (Nat.mod_lt m (Nat.two_pow_pos 52))]
    omega
  have hexp : max (e + 1075) 0 - (↑Format.binary64.exponentBias + 52) = e := by
    change max (e + 1075) 0 - (1023 + 52) = e
    omega
  have hs : Sign.ofBitVec s.toBitVec = s := by cases s <;> rfl
  simp [hne, hnz, hbe, hmv, hexp, hs]

theorem unpack_pack_ofInt {n : Int} (hb : n.natAbs ≤ 2 ^ 53) :
    UnpackedFloat.unpack .binary64 (UnpackedFloat.pack .binary64 (UnpackedFloat.ofInt .binary64 n)) =
      UnpackedFloat.ofInt .binary64 n := by
  rcases eq_or_ne n 0 with rfl | hn
  · rfl
  · obtain ⟨m, e, h⟩ := WholeForm.exists_of_le (by omega) hb
    rw [ofInt_whole h]
    exact unpack_pack_normal _ h.log2 (by have := h.exponent; omega)
      (by have := h.exponent_le hb; omega) h.pos

theorem fields_or (neg : Bool) {E F : Nat} (hE : E < 2 ^ 11) (hF : F < 2 ^ 52) :
    (if neg then 2 ^ 63 else 0) ||| E * 2 ^ 52 ||| F =
      (if neg then 2 ^ 63 else 0) + E * 2 ^ 52 + F := by
  have hlow : E * 2 ^ 52 ||| F = E * 2 ^ 52 + F := by
    rw [Nat.mul_comm, Nat.two_pow_add_eq_or_of_lt hF]
  cases neg with
  | false => simp only [Bool.false_eq_true, if_false, Nat.zero_or, Nat.zero_add, hlow]
  | true =>
    simp only [if_true]
    have hhigh : 2 ^ 63 ||| E * 2 ^ 52 = 2 ^ 52 * (2 ^ 11 + E) := by
      have h := Nat.two_pow_add_eq_or_of_lt (show E * 2 ^ 52 < 2 ^ 63 by omega) 1
      rw [Nat.mul_one] at h
      rw [← h]
      ring
    rw [hhigh, ← Nat.two_pow_add_eq_or_of_lt hF]
    ring

theorem pack_toNat (neg : Bool) {m : Nat} (hm : m.log2 = 52) {e : Int} (he : -1074 ≤ e)
    (he' : e ≤ 971) (hpos : 0 < m) :
    (UnpackedFloat.pack .binary64
        (.finite (if neg then .negative else .positive) m e hpos)).toNat =
      (if neg then 2 ^ 63 else 0) + (e + 1075).toNat * 2 ^ 52 + (m - 2 ^ 52) := by
  have hb := (Nat.log2_eq_iff hpos.ne').1 hm
  have hn : ¬ 2 ^ Format.binary64.exponentBits ≤
      (e + Format.binary64.exponentBias + Format.binary64.mantissaBitsWithoutImplicit).toNat + 1 := by
    change ¬ 2048 ≤ (e + 1023 + 52).toNat + 1
    omega
  simp only [UnpackedFloat.pack, if_neg hn, hm]
  rw [if_pos (show 52 + 1 = Format.binary64.mantissaBits from rfl)]
  change ((if neg then Sign.negative else Sign.positive).toBitVec ++
    BitVec.ofNat 11 (e + 1023 + 52).toNat ++ BitVec.ofNat 52 m).toNat = _
  have hs : (if neg then Sign.negative else Sign.positive).toBitVec.toNat = if neg then 1 else 0 := by
    cases neg <;> rfl
  simp only [BitVec.toNat_append, BitVec.toNat_ofNat, hs]
  rw [show (e + 1023 + 52).toNat % 2 ^ 11 = (e + 1075).toNat by omega,
    show m % 2 ^ 52 = m - 2 ^ 52 by omega]
  have hlow : (if neg then 1 else 0) <<< 11 ||| (e + 1075).toNat =
      2 ^ 11 * (if neg then 1 else 0) + (e + 1075).toNat := by
    rw [Nat.shiftLeft_eq, Nat.mul_comm, Nat.two_pow_add_eq_or_of_lt (by omega)]
  rw [hlow, Nat.shiftLeft_eq, Nat.mul_comm _ (2 ^ 52), ← Nat.two_pow_add_eq_or_of_lt (by omega)]
  cases neg <;> simp <;> ring

theorem encode_toNat (neg : Bool) {m : Nat} (hm : 2 ^ 52 ≤ m) (hm' : m < 2 ^ 53) {e : Int}
    (he : -1075 < e) (he' : e + 1075 < 2047) :
    (encode neg m e).toNat =
      (if neg then 2 ^ 63 else 0) + (e + 1075).toNat * 2 ^ 52 + (m - 2 ^ 52) := by
  unfold encode
  rw [if_neg (by simp; omega), if_neg (by omega)]
  have hs : (signBit neg).toNat = if neg then 2 ^ 63 else 0 := by
    cases neg <;> rfl
  simp only [UInt64.toNat_or, UInt64.toNat_shiftLeft, hs, Nat.toUInt64_eq, UInt64.toNat_ofNat']
  have hE : (((e + 1075).toNat % 2 ^ 64) <<< (UInt64.toNat 52 % 64)) % 2 ^ 64 =
      (e + 1075).toNat * 2 ^ 52 := by
    rw [Nat.mod_eq_of_lt (show (e + 1075).toNat < 2 ^ 64 by omega),
      show UInt64.toNat 52 % 64 = 52 by rfl, Nat.shiftLeft_eq, Nat.mod_eq_of_lt (by omega)]
  have hF : (m - Nat.pow 2 52) % 2 ^ 64 = m - 2 ^ 52 := Nat.mod_eq_of_lt (by simp; omega)
  rw [hE, hF, fields_or neg (by omega) (by omega)]

theorem roundHalfEven_mul (m d : Nat) (hd : 0 < d) : roundHalfEven (m * d) d = m := by
  unfold roundHalfEven
  simp only [Nat.mul_div_cancel _ hd, Nat.mul_mod_left, Nat.mul_zero, hd, if_true]

theorem scaleExponent_whole {n m : Nat} {e : Int} (h : WholeForm n m e) : scaleExponent n 1 = e := by
  unfold scaleExponent
  have hl := h.log2_eq
  have h1 : Nat.log2 1 = 0 := by decide
  simp only [h1, Nat.cast_zero, Int.sub_zero, Nat.pow_eq, Nat.mul_one]
  rw [show (n.log2 : Int) - 52 = e by omega,
    if_neg (by rw [h.shifted]; exact Nat.not_lt.2 (Nat.mul_le_mul_right _ h.bounds.1))]
  have := h.exponent
  omega

theorem nearestBits_whole (neg : Bool) {n m : Nat} {e : Int} (h : WholeForm n m e) :
    nearestBits neg n 1 = encode neg m e := by
  unfold nearestBits
  rw [if_neg (by have := h.whole_pos; omega), scaleExponent_whole h]
  simp only [Nat.pow_eq, Nat.one_mul, h.shifted, roundHalfEven_mul _ _ (Nat.two_pow_pos _)]
  rw [if_neg (by have := h.bounds; omega)]

theorem decimalLength_le {n k : Nat} (h : n < 10 ^ k) (hk : 0 < k) : decimalLength n ≤ k :=
  Nat.toDigits_length 10 n k hk h

theorem decimalBits_whole (neg : Bool) {n m : Nat} {e : Int} (h : WholeForm n m e)
    (hn : n ≤ 2 ^ 53) : decimalBits neg n 0 = encode neg m e := by
  have hlen := decimalLength_le (show n < 10 ^ 16 by omega) (by decide)
  unfold decimalBits
  rw [if_neg h.whole_pos.ne', if_neg (by omega), if_neg (by omega), if_pos le_rfl]
  simp only [Int.toNat_zero, Nat.pow_eq, Nat.pow_zero, Nat.mul_one]
  exact nearestBits_whole neg h

theorem decimalBits_eq_toBits {n : Int} (hn : n.natAbs ≤ 2 ^ 53) :
    decimalBits (decide (n < 0)) n.natAbs 0 = (Float.Model.ofInt n).toBits := by
  rcases eq_or_ne n 0 with rfl | h0
  · rfl
  · obtain ⟨m, e, h⟩ := WholeForm.exists_of_le (by omega) hn
    have hb := h.bounds
    have he := h.exponent
    have he' := h.exponent_le hn
    rw [decimalBits_whole _ h hn]
    apply UInt64.toNat.inj
    rw [encode_toNat _ hb.1 hb.2 (by omega) (by omega)]
    change _ = (UnpackedFloat.pack .binary64 (UnpackedFloat.ofInt .binary64 n)).toNat
    rw [ofInt_whole h, show signOf n = if decide (n < 0) then .negative else .positive by
      simp [signOf], pack_toNat _ h.log2 (by omega) (by omega)]

theorem ofBits_toBits_ofInt {n : Int} (hn : n.natAbs ≤ 2 ^ 53) :
    Float.ofBits (Float.Model.ofInt n).toBits = Float.ofModel (Float.Model.ofInt n) := by
  show Float.ofModel (Float.Model.pack (UnpackedFloat.unpack .binary64
    (UnpackedFloat.pack .binary64 (UnpackedFloat.ofInt .binary64 n)))) = _
  rw [unpack_pack_ofInt hn]
  rfl

end Binary64

namespace Act

open Float.Model Float.Model.UnpackedFloat Binary64

/-- The float of a whole number within `2^53` is the model's float of the integer. -/
theorem ofWhole_eq {n : Int} (hn : n.natAbs ≤ 2 ^ 53) :
    ofWhole n = Float.ofModel (Float.Model.ofInt n) := by
  unfold ofWhole nearestDecimal
  rw [decimalBits_eq_toBits hn, ofBits_toBits_ofInt hn]

theorem ofWhole_unpack {n : Int} (hn : n.natAbs ≤ 2 ^ 53) :
    (ofWhole n).toModel.unpack = UnpackedFloat.ofInt .binary64 n := by
  rw [ofWhole_eq hn]
  exact unpack_pack_ofInt hn

/-- Subtracting whole floats is exact while the difference stays within `2^53`. -/
theorem ofWhole_sub {a b : Int} (ha : a.natAbs ≤ 2 ^ 53) (hb : b.natAbs ≤ 2 ^ 53)
    (hab : (a - b).natAbs ≤ 2 ^ 53) : ofWhole a - ofWhole b = ofWhole (a - b) := by
  show Float.ofModel (Float.Model.pack (UnpackedFloat.sub .binary64 (ofWhole a).toModel.unpack
    (ofWhole b).toModel.unpack)) = _
  rw [ofWhole_unpack ha, ofWhole_unpack hb, sub_ofInt ha hb, ofWhole_eq hab]
  rfl

/-- Adding whole floats is exact while the sum stays within `2^53`. -/
theorem ofWhole_add {a b : Int} (ha : a.natAbs ≤ 2 ^ 53) (hb : b.natAbs ≤ 2 ^ 53)
    (hab : (a + b).natAbs ≤ 2 ^ 53) : ofWhole a + ofWhole b = ofWhole (a + b) := by
  show Float.ofModel (Float.Model.pack (UnpackedFloat.add .binary64 (ofWhole a).toModel.unpack
    (ofWhole b).toModel.unpack)) = _
  rw [ofWhole_unpack ha, ofWhole_unpack hb, add_ofInt ha hb, ofWhole_eq hab]
  rfl

theorem neg_ofWhole {n : Int} (h0 : n ≠ 0) (hn : n.natAbs ≤ 2 ^ 53) :
    -ofWhole n = ofWhole (-n) := by
  show Float.ofModel (Float.Model.pack (ofWhole n).toModel.unpack.neg) = _
  rw [ofWhole_unpack hn, ← ofInt_neg h0 hn, ofWhole_eq (by rwa [Int.natAbs_neg])]
  rfl

theorem abs_ofWhole {n : Int} (hn : n.natAbs ≤ 2 ^ 53) : (ofWhole n).abs = ofWhole n.natAbs := by
  show Float.ofModel (Float.Model.pack (ofWhole n).toModel.unpack.abs) = _
  rw [ofWhole_unpack hn, abs_ofInt hn, ofWhole_eq (by rwa [Int.natAbs_natCast])]
  rfl

theorem ofWhole_lt_zero {n : Int} (hn : n.natAbs ≤ 2 ^ 53) : ofWhole n < 0.0 ↔ n < 0 := by
  rw [lt_iff_unpack, unpack_zero, ofWhole_unpack hn]
  rcases eq_or_ne n 0 with rfl | h0
  · simp [UnpackedFloat.lt, UnpackedFloat.compare, show UnpackedFloat.ofInt .binary64 0 =
      .zero .positive from rfl]
  · obtain ⟨m, e, h⟩ := WholeForm.exists_of_le (by omega) hn
    rw [ofInt_whole h]
    unfold signOf
    by_cases hneg : n < 0 <;> simp [hneg, UnpackedFloat.lt, UnpackedFloat.compare]

theorem ofWhole_beq_zero {n : Int} (hn : n.natAbs ≤ 2 ^ 53) :
    (ofWhole n == 0.0) = decide (n = 0) := by
  show (ofWhole n).toModel.unpack.beq (0.0 : Float).toModel.unpack = _
  rw [unpack_zero, ofWhole_unpack hn]
  rcases eq_or_ne n 0 with rfl | h0
  · rfl
  · obtain ⟨m, e, h⟩ := WholeForm.exists_of_le (by omega) hn
    rw [ofInt_whole h]
    unfold signOf
    by_cases hneg : n < 0 <;> simp [hneg, h0, UnpackedFloat.beq, UnpackedFloat.compare]

end Act

end TradeDesk
