import TradeDesk.Proofs.WholeFloats

/-!
The shortest decimal of a whole float within `2^53` is the whole number itself
(`Binary64.shortestOf_whole`), so rounding it down at the units gives it back.
-/

namespace TradeDesk

namespace Binary64

theorem ofBits_of_toNat {b : UInt64} (neg : Bool) {E F : Nat} (hE : 0 < E) (hE' : E < 2047)
    (hF : F < 2 ^ 52) (hb : b.toNat = (if neg then 2 ^ 63 else 0) + E * 2 ^ 52 + F) :
    ofBits b = .finite neg (2 ^ 52 + F) ((E : Int) - 1075) := by
  have hsign : (b >>> 63 == 1) = neg := by
    have : (b >>> 63).toNat = if neg then 1 else 0 := by
      rw [UInt64.toNat_shiftRight, show (63 : UInt64).toNat % 64 = 63 by rfl,
        Nat.shiftRight_eq_div_pow, hb]
      cases neg <;> simp <;> omega
    cases neg
    · simp only [beq_eq_false_iff_ne, ne_eq]
      intro h
      rw [h] at this
      simp at this
    · simp only [beq_iff_eq]
      apply UInt64.toNat.inj
      rw [this]
      rfl
  have hexp : ((b >>> 52) &&& 0x7FF).toNat = E := by
    rw [UInt64.toNat_and, UInt64.toNat_shiftRight, show (52 : UInt64).toNat % 64 = 52 by rfl,
      Nat.shiftRight_eq_div_pow, show (0x7FF : UInt64).toNat = 2 ^ 11 - 1 by rfl,
      Nat.and_two_pow_sub_one_eq_mod, hb]
    cases neg <;> simp <;> omega
  have hfrac : (b &&& 0xFFFFFFFFFFFFF).toNat = F := by
    rw [UInt64.toNat_and, show (0xFFFFFFFFFFFFF : UInt64).toNat = 2 ^ 52 - 1 by rfl,
      Nat.and_two_pow_sub_one_eq_mod, hb]
    cases neg <;> simp <;> omega
  unfold ofBits
  simp only [hsign, hexp, hfrac]
  rw [if_neg (by simp; omega), if_neg (by simp; omega)]
  rfl

theorem ofBits_encode (neg : Bool) {m : Nat} (hm : 2 ^ 52 ≤ m) (hm' : m < 2 ^ 53) {e : Int}
    (he : -1075 < e) (he' : e + 1075 < 2047) : ofBits (encode neg m e) = .finite neg m e := by
  rw [ofBits_of_toNat neg (by omega) (by omega) (by omega) (encode_toNat neg hm hm' he he'),
    show 2 ^ 52 + (m - 2 ^ 52) = m by omega, show ((e + 1075).toNat : Int) - 1075 = e by omega]

/-! ### The search for the shortest decimal -/

variable {n m : Nat} {q : Int}

theorem WholeForm.exponent_nonpos (h : WholeForm n m q) (hn : n < 2 ^ 53) : q ≤ 0 := by
  have hl := h.log2_eq
  have : n.log2 < 53 := (Nat.log2_lt h.whole_pos.ne').2 hn
  omega

theorem WholeForm.mul_two_pow (h : WholeForm n m q) (hn : n < 2 ^ 53) : n * 2 ^ (-q).toNat = m := by
  have hq := h.exponent_nonpos hn
  have hs := h.shifted
  rwa [show q.toNat = 0 by omega, Nat.pow_zero, Nat.mul_one] at hs

theorem WholeForm.four_mul (h : WholeForm n m q) (hn : n < 2 ^ 53) :
    4 * m = n * 2 ^ (2 - q).toNat := by
  have hq := h.exponent_nonpos hn
  have hs := h.mul_two_pow hn
  rw [show (2 - q).toNat = (-q).toNat + 2 by omega, Nat.pow_add, ← Nat.mul_assoc, hs]
  ring

theorem compareScaled_whole (h : WholeForm n m q) (hn : n < 2 ^ 53) (d : Nat) {k : Int}
    (hk : 0 ≤ k) (x : Nat) :
    compareScaled d k x (q - 2) = compare (d * 10 ^ k.toNat * 2 ^ (2 - q).toNat) x := by
  have hq := h.exponent_nonpos hn
  unfold compareScaled
  simp only [Nat.pow_eq, show (q - 2).toNat = 0 by omega, show (-k).toNat = 0 by omega,
    show (-(q - 2)).toNat = (2 - q).toNat by omega, Nat.pow_zero, Nat.mul_one]

theorem eq_of_near_multiples {x y u : Nat} (hu : 4 ≤ u) (hlo : y * u - 2 ≤ x * u)
    (hhi : x * u ≤ y * u + 2) : x = y := by
  rcases Nat.lt_trichotomy x y with hlt | heq | hgt
  · have : (x + 1) * u ≤ y * u := Nat.mul_le_mul_right _ hlt
    rw [Nat.add_mul] at this
    omega
  · exact heq
  · have : (y + 1) * u ≤ x * u := Nat.mul_le_mul_right _ hgt
    rw [Nat.add_mul] at this
    omega

/-- Below `2^53` the only decimal with no digit below the units that reads back as a whole number
is the number itself: its neighbours are a unit away, at least four steps of `2^(q-2)`, and the
ends of the interval are two steps from the middle. -/
theorem readsBack_whole (h : WholeForm n m q) (hn : n < 2 ^ 53) {narrow : Bool} {d : Nat}
    {k : Int} (hk : 0 ≤ k) : readsBack m q narrow d k = true ↔ d * 10 ^ k.toNat = n := by
  have h4 := h.four_mul hn
  have hu : 4 ≤ 2 ^ (2 - q).toNat := by
    have : 2 ≤ (2 - q).toNat := by
      have := h.exponent_nonpos hn
      omega
    calc 4 = 2 ^ 2 := rfl
      _ ≤ 2 ^ (2 - q).toNat := Nat.pow_le_pow_right (by decide) this
  have hm := h.bounds.1
  unfold readsBack
  simp only [compareScaled_whole h hn _ hk, Bool.and_eq_true, Bool.or_eq_true, beq_iff_eq]
  generalize 2 ^ (2 - q).toNat = u at h4 hu
  constructor
  · rintro ⟨hlo, hhi⟩
    have hlo' : 4 * m - 2 ≤ d * 10 ^ k.toNat * u := by
      rcases hlo with hlo | ⟨-, hlo⟩
      · have := Nat.compare_eq_gt.1 hlo
        split at this <;> omega
      · have := Nat.compare_eq_eq.1 hlo
        split at this <;> omega
    have hhi' : d * 10 ^ k.toNat * u ≤ 4 * m + 2 := by
      rcases hhi with hhi | ⟨-, hhi⟩
      · exact (Nat.compare_eq_lt.1 hhi).le
      · exact (Nat.compare_eq_eq.1 hhi).le
    rw [h4] at hlo' hhi'
    exact eq_of_near_multiples hu hlo' hhi'
  · intro hd
    rw [hd, ← h4]
    refine ⟨.inl ?_, .inl ?_⟩
    · apply Nat.compare_eq_gt.2
      split <;> omega
    · exact Nat.compare_eq_lt.2 (by omega)

theorem candidate_whole (h : WholeForm n m q) (hn : n < 2 ^ 53) (narrow : Bool) (top : Int)
    (i : Nat) (hk : 0 ≤ top - i + 1) :
    candidate m q narrow top i =
      if n / 10 ^ (top - i + 1).toNat * 10 ^ (top - i + 1).toNat = n then
        some ⟨n / 10 ^ (top - i + 1).toNat, top - i + 1⟩
      else none := by
  have hq := h.exponent_nonpos hn
  have hs := h.mul_two_pow hn
  have hc : m * Nat.pow 2 q.toNat * Nat.pow 10 (-(top - i + 1)).toNat /
      (Nat.pow 2 (-q).toNat * Nat.pow 10 (top - i + 1).toNat) = n / 10 ^ (top - i + 1).toNat := by
    simp only [Nat.pow_eq, show q.toNat = 0 by omega, show (-(top - i + 1)).toNat = 0 by omega,
      Nat.pow_zero, Nat.mul_one, ← hs, Nat.mul_comm n]
    exact Nat.mul_div_mul_left _ _ (Nat.two_pow_pos _)
  -- the decimal above the number is more than the number, so it never reads back
  have hhigh : readsBack m q narrow (n / 10 ^ (top - i + 1).toNat + 1) (top - i + 1) = false := by
    rw [Bool.eq_false_iff, ne_eq, readsBack_whole h hn hk]
    have := Nat.lt_mul_div_succ n (Nat.pow_pos (n := (top - i + 1).toNat) (show 0 < 10 by decide))
    rw [Nat.mul_comm] at this
    omega
  unfold candidate
  simp only [hc, hhigh, Bool.and_false, if_false, Bool.false_eq_true]
  by_cases hd : n / 10 ^ (top - i + 1).toNat * 10 ^ (top - i + 1).toNat = n
  · rw [if_pos ((readsBack_whole h hn hk).2 hd), if_pos hd]
  · rw [if_neg (fun hr => hd ((readsBack_whole h hn hk).1 hr)), if_neg hd]

theorem compare_mul_right (a b : Nat) {c : Nat} (hc : 0 < c) :
    compare (a * c) (b * c) = compare a b := by
  rcases Nat.lt_trichotomy a b with hab | rfl | hab
  · rw [Nat.compare_eq_lt.2 hab, Nat.compare_eq_lt.2 (Nat.mul_lt_mul_of_pos_right hab hc)]
  · simp
  · rw [Nat.compare_eq_gt.2 hab, Nat.compare_eq_gt.2 (Nat.mul_lt_mul_of_pos_right hab hc)]

theorem compareScaled_power (h : WholeForm n m q) (hn : n < 2 ^ 53) {i : Int} (hi : 0 ≤ i) :
    compareScaled 1 i m q = compare (10 ^ i.toNat) n := by
  have hq := h.exponent_nonpos hn
  have hs := h.mul_two_pow hn
  unfold compareScaled
  simp only [Nat.pow_eq, Nat.one_mul, show q.toNat = 0 by omega, show (-i).toNat = 0 by omega,
    Nat.pow_zero, Nat.mul_one, ← hs]
  exact compare_mul_right _ _ (Nat.two_pow_pos _)

theorem decimalExponent_eq_steps (m : Nat) (q : Int) :
    ∃ up down : Int → Int,
      decimalExponent m q = down (down (up (up (((m.log2 : Int) + q) * 30103 / 100000)))) ∧
      (∀ e, up e = if compareScaled 1 (e + 1) m q != .gt then e + 1 else e) ∧
      (∀ e, down e = if compareScaled 1 e m q == .gt then e - 1 else e) := by
  refine ⟨fun e => if compareScaled 1 (e + 1) m q != .gt then e + 1 else e,
    fun e => if compareScaled 1 e m q == .gt then e - 1 else e, ?_, fun _ => rfl, fun _ => rfl⟩
  unfold decimalExponent
  rfl

theorem decimalExponent_whole (h : WholeForm n m q) (hn : n < 2 ^ 53) :
    0 ≤ decimalExponent m q ∧ decimalExponent m q ≤ 16 := by
  have hl : (m.log2 : Int) + q = q + 52 := by rw [h.log2]; omega
  obtain ⟨up, down, he, hU, hD⟩ := decimalExponent_eq_steps m q
  rw [he, hl]
  have hup : ∀ e, e ≤ up e ∧ up e ≤ e + 1 := by
    intro e
    rw [hU]
    split <;> omega
  -- stepping down stops at `0`, whose power of ten is not above the number, and leaves `17`,
  -- whose power is
  have hdown : ∀ e, 0 ≤ e → e ≤ 17 → 0 ≤ down e ∧ down e ≤ 16 := by
    intro e he0 he17
    rw [hD, compareScaled_power h hn he0]
    have hpos := h.whole_pos
    split
    · rename_i hgt
      have : n < 10 ^ e.toNat := Nat.compare_eq_gt.1 (beq_iff_eq.1 hgt)
      rcases Nat.lt_or_ge 0 e.toNat with he1 | he1
      · omega
      · rw [show e.toNat = 0 by omega, Nat.pow_zero] at this
        omega
    · rename_i hgt
      have : ¬ n < 10 ^ e.toNat := fun hlt => hgt (beq_iff_eq.2 (Nat.compare_eq_gt.2 hlt))
      refine ⟨he0, ?_⟩
      by_contra h17
      have : 10 ^ 17 ≤ 10 ^ e.toNat := Nat.pow_le_pow_right (by decide) (by omega)
      omega
  have hest : 0 ≤ (q + 52) * 30103 / 100000 ∧ (q + 52) * 30103 / 100000 ≤ 15 := by
    have := h.exponent
    have := h.exponent_nonpos hn
    omega
  have h1 := hup ((q + 52) * 30103 / 100000)
  have h2 := hup (up ((q + 52) * 30103 / 100000))
  have h3 := hdown (up (up ((q + 52) * 30103 / 100000))) (by omega) (by omega)
  exact hdown _ h3.1 (by omega)

theorem findSome?_range {α : Type} (f : Nat → Option α) (P : α → Prop) (j len : Nat)
    (hj : j < len) (hsome : (f j).isSome = true) (hP : ∀ i ≤ j, ∀ x, f i = some x → P x) :
    ∃ x, (List.range len).findSome? f = some x ∧ P x := by
  have hsplit : List.range len =
      List.range (j + 1) ++ (List.range (len - (j + 1))).map (j + 1 + ·) := by
    rw [← List.range_add]
    congr 1
    omega
  have hfirst : (List.range (j + 1)).findSome? f ≠ none := by
    rw [ne_eq, List.findSome?_eq_none_iff]
    intro hnone
    have := hnone j List.self_mem_range_succ
    simp [this] at hsome
  obtain ⟨x, hx⟩ := Option.ne_none_iff_exists'.1 hfirst
  obtain ⟨i, hi, hfi⟩ := List.exists_of_findSome?_eq_some hx
  refine ⟨x, by rw [hsplit, List.findSome?_append, hx]; rfl, hP i ?_ x hfi⟩
  have := List.mem_range.1 hi
  omega

theorem trimZeros_value (fuel : Nat) (s : Scientific) (hs : 0 ≤ s.exp) :
    0 ≤ (trimZeros fuel s).exp ∧
      (trimZeros fuel s).digits * 10 ^ (trimZeros fuel s).exp.toNat = s.digits * 10 ^ s.exp.toNat := by
  induction fuel generalizing s with
  | zero => exact ⟨hs, rfl⟩
  | succ fuel ih =>
    unfold trimZeros
    split
    · rename_i hz
      obtain ⟨h1, h2⟩ := ih ⟨s.digits / 10, s.exp + 1⟩ (by dsimp only; omega)
      refine ⟨h1, h2.trans ?_⟩
      dsimp only
      rw [show (s.exp + 1).toNat = s.exp.toNat + 1 by omega, Nat.pow_succ, Nat.mul_comm _ 10,
        ← Nat.mul_assoc, Nat.div_mul_cancel (Nat.dvd_of_mod_eq_zero hz.2)]
    · exact ⟨hs, rfl⟩

/-- The shortest decimal of a whole number up to `2^53` is the number itself, its trailing zeros
moved into the exponent. -/
theorem shortestOf_whole (h : WholeForm n m q) (hn : n ≤ 2 ^ 53) (narrow : Bool) :
    ∃ d k, shortestOf m q narrow = ⟨d, k⟩ ∧ 0 ≤ k ∧ d * 10 ^ k.toNat = n := by
  rcases Nat.lt_or_ge n (2 ^ 53) with hlt | hge
  · obtain ⟨htop0, htop⟩ := decimalExponent_whole h hlt
    unfold shortestOf
    dsimp only
    -- the candidate with its last digit at the units is found, and none found before it has a
    -- digit below the units
    obtain ⟨x, hx, hx0, hxv⟩ := findSome?_range
      (fun i => candidate m q narrow (decimalExponent m q) (i + 1))
      (fun x : Scientific => 0 ≤ x.exp ∧ x.digits * 10 ^ x.exp.toNat = n)
      (decimalExponent m q).toNat 17 (by omega)
      (by
        rw [candidate_whole h hlt narrow _ _ (by omega),
          show decimalExponent m q - ↑((decimalExponent m q).toNat + 1) + 1 = 0 by omega]
        simp)
      (by
        intro i hi x hcx
        rw [candidate_whole h hlt narrow _ _ (by omega)] at hcx
        split at hcx
        · rename_i hdiv
          cases hcx
          refine ⟨?_, hdiv⟩
          dsimp only
          omega
        · cases hcx)
    rw [hx, Option.getD_some]
    obtain ⟨h1, h2⟩ := trimZeros_value 20 x hx0
    exact ⟨_, _, rfl, h1, h2.trans hxv⟩
  · -- `2^53` itself, the one whole number with the wide gap above it
    have hn' : n = 2 ^ 53 := by omega
    subst hn'
    obtain ⟨rfl, rfl⟩ := h.unique (⟨by decide, by decide, by decide⟩ : WholeForm (2 ^ 53) (2 ^ 52) 1)
    refine ⟨2 ^ 53, 0, ?_, le_rfl, by decide⟩
    cases narrow <;> decide

end Binary64

theorem Decimal.quantize_whole (neg : Bool) {n d : Nat} {k : Int} (hk : 0 ≤ k)
    (hv : d * 10 ^ k.toNat = n) (h0 : 0 < n) (hn : n < 10 ^ 16) :
    Decimal.quantize .standard .floor ⟨neg, d, k⟩ (-0) = some ⟨neg, n, 0⟩ := by
  have hd : 0 < d := by
    rcases Nat.eq_zero_or_pos d with rfl | hd
    · simp at hv
      omega
    · exact hd
  have hk16 : k.toNat < 16 := by
    have : 10 ^ k.toNat ≤ n := by rw [← hv]; exact Nat.le_mul_of_pos_left _ hd
    by_contra hge
    have : 10 ^ 16 ≤ 10 ^ k.toNat := Nat.pow_le_pow_right (by decide) (by omega)
    omega
  have hlend : Binary64.decimalLength d ≤ 16 - k.toNat := by
    apply Binary64.decimalLength_le _ (by omega)
    have : d * 10 ^ k.toNat < 10 ^ (16 - k.toNat) * 10 ^ k.toNat := by
      rw [← Nat.pow_add, show 16 - k.toNat + k.toNat = 16 by omega, hv]
      exact hn
    exact Nat.lt_of_mul_lt_mul_right this
  have hlenn : Binary64.decimalLength n ≤ 16 := Binary64.decimalLength_le hn (by decide)
  unfold Decimal.quantize
  simp only [DecimalContext.standard, DecimalContext.etiny, Int.neg_zero]
  rw [if_neg (by omega), if_neg (by omega), if_neg (by omega), if_pos hk]
  simp only [Nat.pow_eq, Int.sub_zero, hv]
  rw [if_neg (by omega), if_neg (by omega)]

namespace Act

open Binary64

theorem toBits_ofWhole {n : Int} (hn : n.natAbs ≤ 2 ^ 53) :
    (ofWhole n).toBits = decimalBits (decide (n < 0)) n.natAbs 0 := by
  rw [ofWhole_eq hn, decimalBits_eq_toBits hn]
  rfl

theorem ofFloat_ofWhole {n : Int} {m : Nat} {e : Int} (h : WholeForm n.natAbs m e)
    (hn : n.natAbs ≤ 2 ^ 53) : ofFloat (ofWhole n) = .finite (decide (n < 0)) m e := by
  have hb := h.bounds
  have he := h.exponent
  have he' := h.exponent_le hn
  unfold ofFloat
  rw [toBits_ofWhole hn, decimalBits_whole _ h hn, ofBits_encode _ hb.1 hb.2 (by omega) (by omega)]

/-- A whole number within `2^53` is its own round down at the units. -/
theorem roundDown_ofWhole {n : Int} (hn : n.natAbs ≤ 2 ^ 53) :
    Amount.roundDown (ofWhole n) 0 = .ok (ofWhole n) := by
  rcases eq_or_ne n 0 with rfl | h0
  · rfl
  · obtain ⟨m, e, h⟩ := WholeForm.exists_of_le (by omega) hn
    have hshort : shortest? (ofWhole n) =
        some (decide (n < 0), shortestOf m e (narrowBelow m e)) := by
      unfold shortest?
      rw [ofFloat_ofWhole h hn]
      split
      · rename_i heq
        cases heq
        exact absurd rfl h.pos.ne'
      · rename_i heq
        cases heq
        rfl
      · rename_i heq
        exact (heq _ _ _ rfl).elim
    obtain ⟨d, k, hs, hk, hv⟩ := shortestOf_whole h hn (narrowBelow m e)
    unfold Amount.roundDown
    rw [quantizeFloat_eq (by norm_num) (by norm_num), ofFloat_ofWhole h hn]
    dsimp only
    rw [hshort, hs]
    dsimp only
    rw [Decimal.quantize_whole _ hk hv (by omega) (by omega)]
    rfl

end Act

end TradeDesk
