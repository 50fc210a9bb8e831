import TradeDesk.Ladder.Easing
import TradeDesk.Proofs.PlaceRounding
import TradeDesk.Proofs.Pacing

/-!
Easing curves on floats map `[0, 1]` into itself monotonically, so the eased point between two
finite ends moves from the start towards the stop as progress grows (`ease_monotone`).
-/

namespace TradeDesk

namespace Binary64

theorem ofFloat_one : ofFloat 1.0 = .finite false (2 ^ 52) (-52) := by decide

theorem ofFloat_half : ofFloat 0.5 = .finite false (2 ^ 52) (-53) := by decide

theorem ofFloat_two : ofFloat 2.0 = .finite false (2 ^ 52) (-51) := by decide

@[simp] theorem toRat_ofFloat_one : toRat (ofFloat 1.0) = 1 := by
  norm_num [ofFloat_one, toRat, value]

@[simp] theorem toRat_ofFloat_half : toRat (ofFloat 0.5) = 1 / 2 := by
  norm_num [ofFloat_half, toRat, value]

@[simp] theorem toRat_ofFloat_two : toRat (ofFloat 2.0) = 2 := by
  norm_num [ofFloat_two, toRat, value]

section Rounded

variable {v : ℚ} {w : Binary64} {a z : Float} {n : Bool} {m : ℕ} {q : ℤ}

theorem RoundedTo.ge_of_le (hz : RoundedTo v (ofFloat z)) (ha : ofFloat a = .finite n m q)
    (hv : toRat (ofFloat a) ≤ v) : a ≤ z :=
  (roundedTo_self ha).le hz hv

theorem RoundedTo.le_of_le (hz : RoundedTo v (ofFloat z)) (ha : ofFloat a = .finite n m q)
    (hv : v ≤ toRat (ofFloat a)) : z ≤ a :=
  hz.le (roundedTo_self ha) hv

theorem RoundedTo.toRat_nonneg (h : RoundedTo v w) (hv : 0 ≤ v) : 0 ≤ toRat w := by
  rcases h with ⟨-, neg, rfl⟩ | ⟨hv0, K, Q, -, -, he⟩
  · simp [toRat, value]
  · rw [decide_eq_false (not_lt.2 hv)] at he
    cases he with
    | finite _ _ => exact value_nonneg _ _
    | overflow _ => exact le_rfl

theorem RoundedTo.toRat_nonpos (h : RoundedTo v w) (hv : v ≤ 0) : toRat w ≤ 0 := by
  rcases h with ⟨-, neg, rfl⟩ | ⟨hv0, K, Q, -, -, he⟩
  · simp [toRat, value]
  · rw [decide_eq_true (lt_of_le_of_ne hv hv0)] at he
    cases he with
    | finite _ _ => exact neg_nonpos.2 (value_nonneg _ _)
    | overflow _ => exact le_rfl

theorem abs_toRat_le_largest (h : ofFloat a = .finite n m q) :
    |toRat (ofFloat a)| ≤ value (2 ^ 53 - 1) 971 := by
  rw [h, show toRat (.finite n m q) = if n then -value m q else value m q from rfl,
    abs_signed (value_nonneg m q)]
  exact value_le_largest h

end Rounded

/-- A float in `[0, 1]`: the share of the way from one end to the other. -/
structure Share (t : Float) : Prop where
  nonneg : 0.0 ≤ t
  le_one : t ≤ 1.0

namespace Share

variable {a b a' b' : Float}

theorem finite (h : Share a) : ∃ n m q, ofFloat a = .finite n m q :=
  finite_of_le_of_le ofFloat_zero ofFloat_one h.nonneg h.le_one

theorem toRat_nonneg (h : Share a) : 0 ≤ toRat (ofFloat a) := by
  obtain ⟨n, m, q, ha⟩ := h.finite
  simpa using Float.toRat_le ofFloat_zero ha h.nonneg

theorem toRat_le_one (h : Share a) : toRat (ofFloat a) ≤ 1 := by
  obtain ⟨n, m, q, ha⟩ := h.finite
  simpa using Float.toRat_le ha ofFloat_one h.le_one

theorem of_roundedTo {v : ℚ} {z : Float} (hz : RoundedTo v (ofFloat z)) (h0 : 0 ≤ v) (h1 : v ≤ 1) :
    Share z :=
  ⟨hz.ge_of_le ofFloat_zero (by simpa using h0), hz.le_of_le ofFloat_one (by simpa using h1)⟩

theorem mul (ha : Share a) (hb : Share b) : Share (a * b) := by
  obtain ⟨_, _, _, ha'⟩ := ha.finite
  obtain ⟨_, _, _, hb'⟩ := hb.finite
  exact of_roundedTo (mul_roundedTo ha' hb') (mul_nonneg ha.toRat_nonneg hb.toRat_nonneg)
    (mul_le_one₀ ha.toRat_le_one hb.toRat_nonneg hb.toRat_le_one)

theorem one_sub (ha : Share a) : Share (1.0 - a) := by
  obtain ⟨_, _, _, ha'⟩ := ha.finite
  have h0 := ha.toRat_nonneg
  have h1 := ha.toRat_le_one
  exact of_roundedTo (sub_roundedTo ofFloat_one ha') (by simp; linarith) (by simp; linarith)

theorem mul_mono (ha : Share a) (hb : Share b) (ha' : Share a') (hb' : Share b') (h₁ : a ≤ a')
    (h₂ : b ≤ b') : a * b ≤ a' * b' := by
  obtain ⟨_, _, _, fa⟩ := ha.finite
  obtain ⟨_, _, _, fb⟩ := hb.finite
  obtain ⟨_, _, _, fa'⟩ := ha'.finite
  obtain ⟨_, _, _, fb'⟩ := hb'.finite
  exact (mul_roundedTo fa fb).le (mul_roundedTo fa' fb')
    (mul_le_mul (Float.toRat_le fa fa' h₁) (Float.toRat_le fb fb' h₂) hb.toRat_nonneg
      ha'.toRat_nonneg)

theorem one_sub_le (ha : Share a) (hb : Share b) (h : a ≤ b) : 1.0 - b ≤ 1.0 - a := by
  obtain ⟨_, _, _, fa⟩ := ha.finite
  obtain ⟨_, _, _, fb⟩ := hb.finite
  exact Float.sub_le_sub_left_of_finite ofFloat_one fa fb h

/-! A share at most one half, doubled, is a share; times itself again it stays at most one half.
These are the two halves of the ease-in-out curve. -/

theorem double (ha : Share a) (h : a ≤ 0.5) : Share (2.0 * a) := by
  obtain ⟨_, _, _, fa⟩ := ha.finite
  have hhalf : toRat (ofFloat a) ≤ 1 / 2 := by simpa using Float.toRat_le fa ofFloat_half h
  exact of_roundedTo (mul_roundedTo ofFloat_two fa) (by simpa using ha.toRat_nonneg)
    (by simp; linarith)

theorem double_mul_le_half (ha : Share a) (h : a ≤ 0.5) : 2.0 * a * a ≤ 0.5 := by
  obtain ⟨_, _, _, fa⟩ := ha.finite
  obtain ⟨_, _, _, fd⟩ := (ha.double h).finite
  have hhalf : toRat (ofFloat a) ≤ 1 / 2 := by simpa using Float.toRat_le fa ofFloat_half h
  refine (mul_roundedTo fd fa).le_of_le ofFloat_half ?_
  calc toRat (ofFloat (2.0 * a)) * toRat (ofFloat a) ≤ 1 * (1 / 2) :=
        mul_le_mul (ha.double h).toRat_le_one hhalf ha.toRat_nonneg zero_le_one
    _ = toRat (ofFloat 0.5) := by simp

theorem double_mul_le (ha : Share a) (ha' : Share a') (h : a ≤ a') (h' : a' ≤ 0.5) :
    2.0 * a * a ≤ 2.0 * a' * a' := by
  have hle := Float.le_trans h h'
  obtain ⟨_, _, _, fa⟩ := ha.finite
  obtain ⟨_, _, _, fa'⟩ := ha'.finite
  have hd : 2.0 * a ≤ 2.0 * a' :=
    Float.mul_le_mul_of_nonneg_left_of_finite ofFloat_two fa fa' (by simp) h
  exact (ha.double hle).mul_mono ha (ha'.double h') ha' hd h

theorem one_sub_le_half (ha : Share a) (h : 0.5 ≤ a) : 1.0 - a ≤ 0.5 := by
  obtain ⟨_, _, _, fa⟩ := ha.finite
  have hhalf : 1 / 2 ≤ toRat (ofFloat a) := by simpa using Float.toRat_le ofFloat_half fa h
  exact (sub_roundedTo ofFloat_one fa).le_of_le ofFloat_half (by simp; linarith)

theorem half_le_one_sub (ha : Share a) (h : a ≤ 0.5) : 0.5 ≤ 1.0 - a := by
  obtain ⟨_, _, _, fa⟩ := ha.finite
  have hhalf : toRat (ofFloat a) ≤ 1 / 2 := by simpa using Float.toRat_le fa ofFloat_half h
  exact (sub_roundedTo ofFloat_one fa).ge_of_le ofFloat_half (by simp; linarith)

end Share

/-! ### Clamping -/

section Clamp

variable {lo hi c a b : Float}

theorem atLeast_le_atLeast (hc : c.isNaN = false) (h : a ≤ b) : atLeast c a ≤ atLeast c b := by
  unfold atLeast
  split_ifs with h₁ h₂ h₂
  · exact h
  · exact absurd (Float.lt_of_lt_of_le h₁ h) h₂
  · exact Float.le_of_lt h₂
  · exact Float.le_refl_of_number hc

theorem atMost_le_atMost (hc : c.isNaN = false) (h : a ≤ b) : atMost c a ≤ atMost c b := by
  unfold atMost
  split_ifs with h₁ h₂ h₂
  · exact h
  · exact Float.le_of_lt h₁
  · exact absurd (Float.lt_of_le_of_lt h h₂) h₁
  · exact Float.le_refl_of_number hc

theorem clamp_mem (hlo : lo.isNaN = false) (hhi : hi.isNaN = false) (h : lo ≤ hi) (x : Float) :
    lo ≤ clamp lo hi x ∧ clamp lo hi x ≤ hi := by
  have hx : lo ≤ atLeast lo x := le_atLeast_left hlo
  refine ⟨?_, atMost_le_left hhi⟩
  unfold clamp atMost
  split
  · exact hx
  · exact h

theorem clamp_le_clamp (hlo : lo.isNaN = false) (hhi : hi.isNaN = false) (h : a ≤ b) :
    clamp lo hi a ≤ clamp lo hi b :=
  atMost_le_atMost hhi (atLeast_le_atLeast hlo h)

theorem share_clamp (t : Float) : Share (clamp 0.0 1.0 t) :=
  ⟨(clamp_mem rfl rfl (by decide) t).1, (clamp_mem rfl rfl (by decide) t).2⟩

end Clamp

theorem mul_share_finite {d c : Float} {n : Bool} {m : ℕ} {q : ℤ} (hd : ofFloat d = .finite n m q)
    (hc : Share c) : ∃ n m q, ofFloat (d * c) = .finite n m q := by
  obtain ⟨_, _, _, fc⟩ := hc.finite
  refine (mul_roundedTo hd fc).finite_of_le ?_
  have habs : |toRat (ofFloat c)| ≤ 1 := by
    rw [abs_of_nonneg hc.toRat_nonneg]
    exact hc.toRat_le_one
  calc |toRat (ofFloat d) * toRat (ofFloat c)| = |toRat (ofFloat d)| * |toRat (ofFloat c)| :=
        abs_mul _ _
    _ ≤ |toRat (ofFloat d)| * 1 := mul_le_mul_of_nonneg_left habs (abs_nonneg _)
    _ ≤ value (2 ^ 53 - 1) 971 := by rw [mul_one]; exact abs_toRat_le_largest hd

end Binary64

namespace Easing

open Binary64

variable {t t' : Float}

theorem curve_share (kind : Easing) (ht : Share t) : Share (kind.curve t) := by
  cases kind with
  | linear => exact ht
  | easeIn => exact ht.mul ht
  | easeOut => exact (ht.one_sub.mul ht.one_sub).one_sub
  | easeInOut =>
    show Share (if t < 0.5 then 2.0 * t * t else 1.0 - 2.0 * (1.0 - t) * (1.0 - t))
    split
    · next hlt => exact (ht.double (Float.le_of_lt hlt)).mul ht
    · next hge =>
      have hu := ht.one_sub_le_half (Float.le_of_not_lt (Float.isNaN_of_le ht.le_one).1 rfl hge)
      exact ((ht.one_sub.double hu).mul ht.one_sub).one_sub

/-- Every curve is monotone on shares. -/
theorem curve_le (kind : Easing) (ht : Share t) (ht' : Share t') (h : t ≤ t') :
    kind.curve t ≤ kind.curve t' := by
  cases kind with
  | linear => exact h
  | easeIn => exact ht.mul_mono ht ht' ht' h h
  | easeOut =>
    show 1.0 - (1.0 - t) * (1.0 - t) ≤ 1.0 - (1.0 - t') * (1.0 - t')
    have hu := ht.one_sub_le ht' h
    exact (ht'.one_sub.mul ht'.one_sub).one_sub_le (ht.one_sub.mul ht.one_sub)
      (ht'.one_sub.mul_mono ht'.one_sub ht.one_sub ht.one_sub hu hu)
  | easeInOut =>
    show (if t < 0.5 then 2.0 * t * t else 1.0 - 2.0 * (1.0 - t) * (1.0 - t)) ≤
      (if t' < 0.5 then 2.0 * t' * t' else 1.0 - 2.0 * (1.0 - t') * (1.0 - t'))
    have hn := (Float.isNaN_of_le ht.le_one).1
    have hn' := (Float.isNaN_of_le ht'.le_one).1
    -- the lower half stays at most one half and the upper half at least one half
    by_cases h₁ : t < 0.5 <;> by_cases h₂ : t' < 0.5
    · rw [if_pos h₁, if_pos h₂]
      exact ht.double_mul_le ht' h (Float.le_of_lt h₂)
    · rw [if_pos h₁, if_neg h₂]
      have hu' := ht'.one_sub_le_half (Float.le_of_not_lt hn' rfl h₂)
      have hlow := ht.double_mul_le_half (Float.le_of_lt h₁)
      have hhigh := ((ht'.one_sub.double hu').mul ht'.one_sub).half_le_one_sub
        (ht'.one_sub.double_mul_le_half hu')
      exact Float.le_trans hlow hhigh
    · exact absurd (Float.lt_of_le_of_lt (Float.le_of_not_lt hn rfl h₁) (Float.lt_of_le_of_lt h h₂))
        (by decide)
    · rw [if_neg h₁, if_neg h₂]
      have hge := Float.le_of_not_lt hn rfl h₁
      have hge' := Float.le_of_not_lt hn' rfl h₂
      have hu := ht.one_sub_le ht' h
      exact ((ht'.one_sub.double (ht'.one_sub_le_half hge')).mul ht'.one_sub).one_sub_le
        ((ht.one_sub.double (ht.one_sub_le_half hge)).mul ht.one_sub)
        (ht'.one_sub.double_mul_le ht.one_sub hu (ht.one_sub_le_half hge))

end Easing

section Ease

open Binary64

variable {start stop t t' y : Float} {kind : Easing}

theorem ease_eq (h : roundPlaces (start + (stop - start) * kind.curve (clamp 0.0 1.0 t)) 10 = .ok y) :
    ease start stop t kind = y := by
  unfold ease
  rw [show atMost 1.0 (atLeast 0.0 t) = clamp 0.0 1.0 t from rfl]
  simp only [h]

theorem ease_le_ease (h : start + (stop - start) * kind.curve (clamp 0.0 1.0 t) ≤
    start + (stop - start) * kind.curve (clamp 0.0 1.0 t')) :
    ease start stop t kind ≤ ease start stop t' kind := by
  obtain ⟨y, hy⟩ := roundPlaces_ok (start + (stop - start) * kind.curve (clamp 0.0 1.0 t))
    (n := 10) (by norm_num)
  obtain ⟨y', hy'⟩ := roundPlaces_ok (start + (stop - start) * kind.curve (clamp 0.0 1.0 t'))
    (n := 10) (by norm_num)
  rw [ease_eq hy, ease_eq hy']
  exact roundPlaces_le (by norm_num) h hy hy'

/-- Between two finite ends whose difference is a finite float, the eased point moves from
`start` towards `stop` as the progress grows, along every curve: up when `start ≤ stop` and down
when `stop ≤ start`. -/
theorem ease_monotone (kind : Easing) (hs : start.isFinite = true) (he : stop.isFinite = true)
    (hd : (stop - start).isFinite = true) (h : t ≤ t') :
    (start ≤ stop → ease start stop t kind ≤ ease start stop t' kind) ∧
      (stop ≤ start → ease start stop t' kind ≤ ease start stop t kind) := by
  obtain ⟨_, _, _, fs⟩ := ofFloat_of_isFinite hs
  obtain ⟨_, _, _, fe⟩ := ofFloat_of_isFinite he
  obtain ⟨_, _, _, fd⟩ := ofFloat_of_isFinite hd
  -- the curve at the clamped progress is a share, and the distance times it a finite float
  have hT := share_clamp t
  have hT' := share_clamp t'
  have hc := kind.curve_share hT
  have hc' := kind.curve_share hT'
  have hcc := kind.curve_le hT hT' (clamp_le_clamp rfl rfl h)
  obtain ⟨_, _, _, fc⟩ := hc.finite
  obtain ⟨_, _, _, fc'⟩ := hc'.finite
  obtain ⟨_, _, _, fdc⟩ := mul_share_finite fd hc
  obtain ⟨_, _, _, fdc'⟩ := mul_share_finite fd hc'
  have hdiff := sub_roundedTo fe fs
  constructor
  · intro hle
    have hd0 := hdiff.toRat_nonneg (sub_nonneg.2 (Float.toRat_le fs fe hle))
    exact ease_le_ease (Float.add_le_add_left_of_finite fs fdc fdc'
      (Float.mul_le_mul_of_nonneg_left_of_finite fd fc fc' hd0 hcc))
  · intro hle
    have hd0 := hdiff.toRat_nonpos (sub_nonpos.2 (Float.toRat_le fe fs hle))
    exact ease_le_ease (Float.add_le_add_left_of_finite fs fdc' fdc
      (Float.mul_le_mul_of_nonpos_left_of_finite fd fc fc' hd0 hcc))

end Ease

end TradeDesk
