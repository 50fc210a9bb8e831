import TradeDesk.Polling.Backoff
import TradeDesk.Proofs.RoundedArithmetic
import TradeDesk.Proofs.OrderSizing

/-!
The pace of a polling backoff over any idle polls and resets: delays stay between floor and
ceiling and never shrink between resets (`Backoff.idle_delay_paced`).
-/

namespace TradeDesk

namespace Binary64

variable {a b c s : Float}

theorem atMost_le_left (ha : a.isNaN = false) : atMost a b ≤ a := by
  unfold atMost
  split
  · exact Float.le_of_lt ‹_›
  · exact Float.le_refl_of_number ha

theorem le_atMost_add (hc : c ≤ a) (hs : 0.0 ≤ s) : c ≤ atMost a (c + s) := by
  unfold atMost
  split
  · next hlt => exact le_add_of_nonneg (Float.isNaN_of_le hc).1 hs (Float.isNaN_of_lt hlt).1
  · exact hc

end Binary64

namespace Backoff

/-- The backoffs that idle polls and resets reach from `start lo hi st`, each with the delay that
the last idle poll since the start or the last reset gave (`none` when there was none). -/
inductive Paced (lo hi st : Float) : Backoff → Option Float → Prop
  | start : Paced lo hi st (start lo hi st) none
  | idle {b : Backoff} {p : Option Float} :
      Paced lo hi st b p → Paced lo hi st b.idle.2 (some b.idle.1)
  | reset {b : Backoff} {p : Option Float} : Paced lo hi st b p → Paced lo hi st b.reset none

/-- What holds of every paced backoff: its floor, ceiling and step are those it started with, its
next delay lies between the floor and the ceiling, and that delay is the floor after no poll and
the last delay plus the step, capped, after one. -/
structure PaceInvariant (lo hi st : Float) (b : Backoff) (p : Option Float) : Prop where
  floor : b.minDelay = lo
  ceiling : b.maxDelay = hi
  step : b.step = st
  lo_le : lo ≤ b.current
  le_hi : b.current ≤ hi
  first : p = none → b.current = lo
  next : ∀ d, p = some d → d ≤ hi ∧ b.current = Binary64.atMost hi (d + st)

section

variable {lo hi st : Float} {b : Backoff} {p : Option Float}

theorem PaceInvariant.start (hlh : lo ≤ hi) : PaceInvariant lo hi st (start lo hi st) none where
  floor := rfl
  ceiling := rfl
  step := rfl
  lo_le := Float.le_refl_of_number (Float.isNaN_of_le hlh).1
  le_hi := hlh
  first := fun _ => rfl
  next := fun _ h => nomatch h

theorem PaceInvariant.idle (hst : 0.0 ≤ st) (h : PaceInvariant lo hi st b p) :
    PaceInvariant lo hi st b.idle.2 (some b.idle.1) := by
  have hcur : b.idle.2.current = Binary64.atMost hi (b.current + st) := by
    rw [← h.ceiling, ← h.step]
    rfl
  refine ⟨h.floor, h.ceiling, h.step, ?_, ?_, (fun h' => nomatch h'), ?_⟩
  · rw [hcur]
    exact Float.le_trans h.lo_le (Binary64.le_atMost_add h.le_hi hst)
  · rw [hcur]
    exact Binary64.atMost_le_left (Float.isNaN_of_le h.le_hi).2
  · rintro d ⟨⟩
    exact ⟨h.le_hi, hcur⟩

theorem PaceInvariant.reset (hlh : lo ≤ hi) (h : PaceInvariant lo hi st b p) :
    PaceInvariant lo hi st b.reset none := by
  have hcur : b.reset.current = lo := h.floor
  refine ⟨h.floor, h.ceiling, h.step, ?_, ?_, fun _ => hcur, fun _ h' => nomatch h'⟩
  · rw [hcur]
    exact Float.le_refl_of_number (Float.isNaN_of_le hlh).1
  · rw [hcur]
    exact hlh

theorem Paced.invariant (hlh : lo ≤ hi) (hst : 0.0 ≤ st) (h : Paced lo hi st b p) :
    PaceInvariant lo hi st b p := by
  induction h with
  | start => exact .start hlh
  | idle _ ih => exact ih.idle hst
  | reset _ ih => exact ih.reset hlh

/-- The law of backoff pacing. From a floor `lo` no higher than the ceiling `hi` and a step `st`
at least zero, after any sequence of idle polls and resets the delay the next idle poll gives lies
in `[lo, hi]`. It is `lo` when no poll came since the start or the last reset, and otherwise
`min hi (d + st)` for the last delay `d`, which is no less than `d`. -/
theorem idle_delay_paced (hlh : lo ≤ hi) (hst : 0.0 ≤ st) (h : Paced lo hi st b p) :
    lo ≤ b.idle.1 ∧ b.idle.1 ≤ hi ∧ (p = none → b.idle.1 = lo) ∧
      ∀ d, p = some d → b.idle.1 = Binary64.atMost hi (d + st) ∧ d ≤ b.idle.1 := by
  have hinv := h.invariant hlh hst
  refine ⟨hinv.lo_le, hinv.le_hi, hinv.first, fun d hd => ?_⟩
  obtain ⟨hd, hcur⟩ := hinv.next d hd
  refine ⟨hcur, ?_⟩
  -- the last delay is at most the ceiling, so the capped sum does not fall below it
  show d ≤ b.current
  rw [hcur]
  exact Binary64.le_atMost_add hd hst

end

theorem third_poll_capped :
    (1.0 : Float) ≤ 2.5 ∧ (0.0 : Float) ≤ 1.0 ∧
      (start 1.0 2.5 1.0).idle.2.idle.2.idle.1 =
        Binary64.atMost 2.5 ((start 1.0 2.5 1.0).idle.2.idle.1 + 1.0) ∧
      (start 1.0 2.5 1.0).idle.2.idle.1 ≤ (start 1.0 2.5 1.0).idle.2.idle.2.idle.1 := by
  have hlh : (1.0 : Float) ≤ 2.5 := by decide
  have hst : (0.0 : Float) ≤ 1.0 := by decide
  have h := idle_delay_paced hlh hst (Paced.idle (Paced.idle Paced.start))
  exact ⟨hlh, hst, h.2.2.2 _ rfl⟩

end Backoff

end TradeDesk
