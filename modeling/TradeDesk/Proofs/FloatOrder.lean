import Mathlib.Data.Prod.Lex
import TradeDesk.Proofs.PaperLedger

/-!
The order of floats: on numbers, `≤` compares places in one linear order (`Binary64.place`), so it
is a total preorder with `<` its strict part; NaN compares with nothing.
-/

namespace TradeDesk.Binary64

open Float.Model

/-- The place of an unpacked float in the order of comparison; NaN, which compares with nothing,
is put at the bottom. -/
def place : UnpackedFloat → ℕ ×ₗ ℤ ×ₗ ℤ
  | .infinity .negative => toLex (0, toLex (0, 0))
  | .finite .negative m e _ => toLex (1, toLex (-e, -(m : ℤ)))
  | .zero _ => toLex (2, toLex (0, 0))
  | .finite .positive m e _ => toLex (3, toLex (e, (m : ℤ)))
  | .infinity .positive => toLex (4, toLex (0, 0))
  | .notANumber => toLex (0, toLex (0, 0))

open UnpackedFloat in
theorem compare_signs :
    compare Sign.negative Sign.negative = .eq ∧ compare Sign.negative Sign.positive = .lt ∧
      compare Sign.positive Sign.negative = .gt ∧ compare Sign.positive Sign.positive = .eq :=
  ⟨rfl, rfl, rfl, rfl⟩

theorem unpacked_lt_iff {x y : UnpackedFloat} (hx : x.isNaN = false) (hy : y.isNaN = false) :
    x.lt y = true ↔ place x < place y := by
  rcases x with ⟨_ | _⟩ | _ | ⟨_ | _⟩ | ⟨_ | _, m, e, hm⟩ <;>
  rcases y with ⟨_ | _⟩ | _ | ⟨_ | _⟩ | ⟨_ | _, m', e', hm'⟩ <;>
  simp_all [UnpackedFloat.lt, UnpackedFloat.compare, UnpackedFloat.isNaN, place, compare_signs,
    Prod.Lex.toLex_lt_toLex, Ordering.then_eq_lt, Ordering.then_eq_gt, compare_lt_iff_lt,
    compare_gt_iff_gt, Ordering.swap_eq_lt]

theorem unpacked_le_iff {x y : UnpackedFloat} (hx : x.isNaN = false) (hy : y.isNaN = false) :
    x.le y = true ↔ place x ≤ place y := by
  rcases x with ⟨_ | _⟩ | _ | ⟨_ | _⟩ | ⟨_ | _, m, e, hm⟩ <;>
  rcases y with ⟨_ | _⟩ | _ | ⟨_ | _⟩ | ⟨_ | _, m', e', hm'⟩ <;>
  simp_all [UnpackedFloat.le, UnpackedFloat.compare, UnpackedFloat.isNaN, place, compare_signs,
    Prod.Lex.toLex_le_toLex, Ordering.isLE_iff_eq_lt_or_eq_eq, Ordering.isGE_iff_eq_gt_or_eq_eq,
    Ordering.then_eq_lt, Ordering.then_eq_gt, compare_lt_iff_lt, compare_gt_iff_gt] <;> omega

theorem unpacked_le_isNaN {x y : UnpackedFloat} (h : x.le y = true) :
    x.isNaN = false ∧ y.isNaN = false := by
  cases x <;> cases y <;> simp_all [UnpackedFloat.le, UnpackedFloat.compare, UnpackedFloat.isNaN]

theorem unpacked_lt_isNaN {x y : UnpackedFloat} (h : x.lt y = true) :
    x.isNaN = false ∧ y.isNaN = false := by
  cases x <;> cases y <;> simp_all [UnpackedFloat.lt, UnpackedFloat.compare, UnpackedFloat.isNaN]

end TradeDesk.Binary64

namespace Float

open TradeDesk.Binary64

variable {a b c : Float}

theorem isNaN_eq_unpack (a : Float) : a.isNaN = a.toModel.unpack.isNaN := rfl

theorem isNaN_of_le (h : a ≤ b) : a.isNaN = false ∧ b.isNaN = false :=
  unpacked_le_isNaN (le_iff_unpack.1 h)

theorem isNaN_of_lt (h : a < b) : a.isNaN = false ∧ b.isNaN = false :=
  unpacked_lt_isNaN (lt_iff_unpack.1 h)

theorem lt_iff_place (ha : a.isNaN = false) (hb : b.isNaN = false) :
    a < b ↔ place a.toModel.unpack < place b.toModel.unpack :=
  lt_iff_unpack.trans (unpacked_lt_iff ha hb)

theorem le_iff_place (ha : a.isNaN = false) (hb : b.isNaN = false) :
    a ≤ b ↔ place a.toModel.unpack ≤ place b.toModel.unpack :=
  le_iff_unpack.trans (unpacked_le_iff ha hb)

theorem le_refl_of_number (ha : a.isNaN = false) : a ≤ a :=
  (le_iff_place ha ha).2 le_rfl

theorem le_of_lt (h : a < b) : a ≤ b := by
  obtain ⟨ha, hb⟩ := isNaN_of_lt h
  exact (le_iff_place ha hb).2 ((lt_iff_place ha hb).1 h).le

theorem lt_of_le_of_lt (h₁ : a ≤ b) (h₂ : b < c) : a < c := by
  obtain ⟨ha, hb⟩ := isNaN_of_le h₁
  have hc := (isNaN_of_lt h₂).2
  exact (lt_iff_place ha hc).2 (((le_iff_place ha hb).1 h₁).trans_lt ((lt_iff_place hb hc).1 h₂))

theorem lt_of_lt_of_le (h₁ : a < b) (h₂ : b ≤ c) : a < c := by
  obtain ⟨ha, hb⟩ := isNaN_of_lt h₁
  have hc := (isNaN_of_le h₂).2
  exact (lt_iff_place ha hc).2 (((lt_iff_place ha hb).1 h₁).trans_le ((le_iff_place hb hc).1 h₂))

theorem le_trans (h₁ : a ≤ b) (h₂ : b ≤ c) : a ≤ c := by
  obtain ⟨ha, hb⟩ := isNaN_of_le h₁
  have hc := (isNaN_of_le h₂).2
  exact (le_iff_place ha hc).2 (((le_iff_place ha hb).1 h₁).trans ((le_iff_place hb hc).1 h₂))

theorem le_of_not_lt (ha : a.isNaN = false) (hb : b.isNaN = false) (h : ¬ a < b) : b ≤ a :=
  (le_iff_place hb ha).2 (not_lt.1 fun h' => h ((lt_iff_place ha hb).2 h'))

theorem not_lt_of_le (h : a ≤ b) : ¬ b < a := by
  obtain ⟨ha, hb⟩ := isNaN_of_le h
  rw [lt_iff_place hb ha]
  exact not_lt.2 ((le_iff_place ha hb).1 h)

end Float

namespace TradeDesk.Binary64

variable {a b : Float}

theorem le_atLeast_right (ha : a.isNaN = false) (hb : b.isNaN = false) : b ≤ atLeast a b := by
  unfold atLeast
  split
  · exact Float.le_refl_of_number hb
  · exact Float.le_of_not_lt ha hb ‹_›

theorem le_atLeast_left (ha : a.isNaN = false) : a ≤ atLeast a b := by
  unfold atLeast
  split
  · exact Float.le_of_lt ‹_›
  · exact Float.le_refl_of_number ha

end TradeDesk.Binary64
