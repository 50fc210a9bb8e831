import TradeDesk.Proofs.Ladders
import TradeDesk.Proofs.TableBuilding
import TradeDesk.Proofs.OrderSizing
import TradeDesk.Proofs.EasingCurves

/-!
Ladders drawn at random, for every count, spread and draws: the laws of their amounts and prices
(`Ladder.amounts_law`, `Ladder.prices_law`).
-/

namespace TradeDesk

namespace Draws

/-- The value of the `i`-th draw from a source on: the values cycle from where the source
stands. -/
def nth (d : Draws) (i : Nat) : Float := d.values.getD ((d.taken + i) % d.values.length) 0.5

theorem uniform_fst (d : Draws) (a b : Float) : (d.uniform a b).1 = a + (b - a) * d.nth 0 := rfl

theorem nth_uniform (d : Draws) (a b : Float) (i : Nat) :
    (d.uniform a b).2.nth i = d.nth (i + 1) := by
  simp only [uniform, next, nth]
  rw [Nat.add_right_comm, Nat.add_assoc]

end Draws

namespace Ladder

section Amounts

variable {count precision : Int} {total spread : Float} {values : List Float}

theorem weights_eq_map (n : Nat) (diff : Float) (d : Draws) :
    weights n diff d = (List.range n).map fun i => 1.0 + (-diff + (diff - -diff) * d.nth i) := by
  induction n generalizing d with
  | zero => rfl
  | succ n ih =>
    rw [List.range_succ_eq_map, List.map_cons, List.map_map]
    show (1.0 + (d.uniform (-diff) diff).1) :: weights n diff (d.uniform (-diff) diff).2 = _
    rw [ih, Draws.uniform_fst]
    congr 1
    simp only [Function.comp_def, Draws.nth_uniform]

theorem roundTo_error {x : Float} {p : Int} {e : Fault} (h : roundTo x p = .error e) :
    e = .roundingOverflow := by
  unfold roundTo at h
  cases hr : Binary64.roundPlaces x p <;> simp_all [Except.mapError]

theorem amounts_eq (hc : 1 ≤ count) :
    amounts count total spread precision values =
      let ws := weights count.toNat (clampShare spread) (Draws.start values)
      if Binary64.compensatedSum ws == 0.0 then .error .divisionByZero
      else
        (ws.mapM fun w => roundTo (w * (total / Binary64.compensatedSum ws)) precision) >>= fun rounded =>
          roundTo (total - Binary64.compensatedSum rounded.dropLast) precision >>= fun last =>
            pure (rounded.dropLast ++ [last]) := by
  have hc' : ¬ count < 1 := by omega
  unfold amounts
  simp only [hc', if_false]
  rfl

theorem amounts_error (hc : 1 ≤ count) {e : Fault}
    (h : amounts count total spread precision values = .error e) :
    let ws := weights count.toNat (clampShare spread) (Draws.start values)
    (Binary64.compensatedSum ws == 0.0) = true ∧ e = .divisionByZero ∨
      (Binary64.compensatedSum ws == 0.0) = false ∧ e = .roundingOverflow := by
  intro ws
  rw [amounts_eq hc] at h
  cases hz : Binary64.compensatedSum ws == 0.0
  · simp only [ws, hz, Bool.false_eq_true, if_false] at h
    refine .inr ⟨rfl, ?_⟩
    -- past the division, every failure is one of the roundings
    rcases Sizing.except_bind_eq_error h with hr | ⟨rounded, -, h⟩
    · obtain ⟨w, -, hw⟩ := exists_of_mapM_eq_error hr
      exact roundTo_error hw
    rcases Sizing.except_bind_eq_error h with hl | ⟨last, -, h⟩
    · exact roundTo_error hl
    · cases h
  · simp only [ws, hz, if_true, Except.error.injEq] at h
    exact .inl ⟨rfl, h.symm⟩

/-- The law of jittered amounts. For a count of at least one, the weights are `1 + u` for one
uniform draw `u` between `-diff` and `diff` per order, the `i`-th from the `i`-th value of the
source, where `diff` is the spread clamped to `[0, 1]`. The split fails with a division by zero
exactly when the compensated sum of the weights is zero, fails otherwise only where a share rounds
past the largest float, and otherwise gives one amount per order. -/
theorem amounts_law (count : Int) (total spread : Float) (precision : Int) (values : List Float)
    (hc : 1 ≤ count) :
    let diff := clampShare spread
    let ws := weights count.toNat diff (Draws.start values)
    ws = (List.range count.toNat).map
        (fun i => 1.0 + (-diff + (diff - -diff) * (Draws.start values).nth i)) ∧
      (amounts count total spread precision values = .error .divisionByZero ↔
        (Binary64.compensatedSum ws == 0.0) = true) ∧
      (∀ e, amounts count total spread precision values = .error e →
        e = .divisionByZero ∨ e = .roundingOverflow) ∧
      ∀ l, amounts count total spread precision values = .ok l → l.length = count.toNat := by
  intro diff ws
  refine ⟨weights_eq_map _ _ _, ⟨fun h => ?_, fun h => ?_⟩, fun e h => ?_, fun l h => amounts_length hc h⟩
  · rcases amounts_error hc h with ⟨hz, -⟩ | ⟨-, he⟩
    · exact hz
    · cases he
  · rw [amounts_eq hc]
    simp only [ws, diff] at h
    simp only [h, if_true]
  · rcases amounts_error hc h with ⟨-, he⟩ | ⟨-, he⟩
    · exact .inl he
    · exact .inr he

/-- One order at full spread whose draw is zero gets the weight zero: the split divides by zero. -/
theorem full_spread_zero_draw_divides : amounts 1 1.0 1.0 6 [0.0] = .error .divisionByZero := by
  rfl

theorem zero_weight_sum_divides :
    (1 : Int) ≤ 1 ∧ (amounts 1 1.0 1.0 6 [0.0] = .error .divisionByZero ↔
      (Binary64.compensatedSum (weights 1 (clampShare 1.0) (Draws.start [0.0])) == 0.0) = true) :=
  ⟨by decide, (amounts_law 1 1.0 1.0 6 [0.0] (by decide)).2.1⟩

end Amounts

section Prices

theorem foldl_range_draws {step : List Float × Draws → Nat → List Float × Draws}
    {f : Nat → Float → Float} {a b : Float}
    (hstep : ∀ acc d i, step (acc, d) i = (f i (a + (b - a) * d.nth 0) :: acc, (d.uniform a b).2))
    (n : Nat) (acc : List Float) (d : Draws) :
    ∃ d', (List.range n).foldl step (acc, d) =
        (((List.range n).map fun i => f i (a + (b - a) * d.nth i)).reverse ++ acc, d') ∧
      ∀ j, d'.nth j = d.nth (n + j) := by
  induction n with
  | zero => exact ⟨d, rfl, fun j => by rw [Nat.zero_add]⟩
  | succ n ih =>
    obtain ⟨d', hfold, hnth⟩ := ih
    refine ⟨(d'.uniform a b).2, ?_, fun j => ?_⟩
    · rw [List.range_succ, List.foldl_append, hfold, List.foldl_cons, List.foldl_nil, hstep,
        hnth 0, Nat.add_zero, List.map_append, List.map_singleton, List.reverse_append,
        List.reverse_singleton, List.singleton_append, List.cons_append]
    · rw [Draws.nth_uniform, hnth]
      congr 1
      omega

theorem foldl_range_draws_reverse {step : List Float × Draws → Nat → List Float × Draws}
    {f : Nat → Float → Float} {a b : Float}
    (hstep : ∀ acc d i, step (acc, d) i = (f i (a + (b - a) * d.nth 0) :: acc, (d.uniform a b).2))
    {n : Nat} {d : Draws} :
    ((List.range n).foldl step ([], d)).1.reverse =
      (List.range n).map fun i => f i (a + (b - a) * d.nth i) := by
  obtain ⟨d', hfold, -⟩ := foldl_range_draws hstep n [] d
  rw [hfold, List.append_nil, List.reverse_reverse]

theorem foldl_range_plain {step : List Float × Draws → Nat → List Float × Draws} {f : Nat → Float}
    (hstep : ∀ acc d i, step (acc, d) i = (f i :: acc, d)) (n : Nat) (acc : List Float)
    (d : Draws) :
    (List.range n).foldl step (acc, d) = (((List.range n).map f).reverse ++ acc, d) := by
  induction n with
  | zero => rfl
  | succ n ih =>
    rw [List.range_succ, List.foldl_append, ih, List.foldl_cons, List.foldl_nil, hstep,
      List.map_append, List.map_singleton, List.reverse_append, List.reverse_singleton,
      List.singleton_append, List.cons_append]

theorem foldl_range_plain_reverse {step : List Float × Draws → Nat → List Float × Draws}
    {f : Nat → Float} (hstep : ∀ acc d i, step (acc, d) i = (f i :: acc, d)) {n : Nat} {d : Draws} :
    ((List.range n).foldl step ([], d)).1.reverse = (List.range n).map f := by
  rw [foldl_range_plain hstep, List.append_nil, List.reverse_reverse]

variable (count : Int) (start stop randomDiff : Float) (easing : String) (values : List Float)

theorem prices_eq :
    let lo := Binary64.atMost start stop
    let hi := Binary64.atLeast start stop
    let amplitude := clampShare randomDiff * (hi - lo) / 2.0
    let kind := Easing.ofName easing
    prices count start stop randomDiff easing values =
      if (amplitude != 0.0 || amplitude.isNaN) = true then
        (List.range count.toNat).map fun i => Binary64.clamp lo hi
          (ease start stop (progress count i) kind +
            (-amplitude + (amplitude - -amplitude) * (Draws.start values).nth i))
      else (List.range count.toNat).map fun i => ease start stop (progress count i) kind := by
  intro lo hi amplitude kind
  unfold prices
  split
  · rw [Int.toNat_of_nonpos (by omega), List.range_zero, List.map_nil, List.map_nil, ite_self]
  · dsimp only
    split
    · next hj =>
      refine foldl_range_draws_reverse
        (f := fun i u => Binary64.clamp lo hi (ease start stop (progress count i) kind + u))
        (a := -amplitude) (b := amplitude) fun acc d i => ?_
      dsimp only
      rfl
    · next hj =>
      refine foldl_range_plain_reverse (f := fun i => ease start stop (progress count i) kind)
        fun acc d i => ?_
      dsimp only

theorem progress_le {i j : Nat} (h : i ≤ j) : progress count i ≤ progress count j := by
  unfold progress
  split
  · have hd : 0 < (count - 1).toNat := by omega
    exact (Binary64.nearestRatio_roundedTo i hd).le (Binary64.nearestRatio_roundedTo j hd)
      (div_le_div_of_nonneg_right (by exact_mod_cast h) (by positivity))
  · exact Float.le_refl_of_number rfl

theorem pairwise_map_range {g : Nat → Float} {r : Float → Float → Prop}
    (hg : ∀ i j, i ≤ j → r (g i) (g j)) (n : Nat) : ((List.range n).map g).Pairwise r :=
  List.pairwise_map.2 ((List.pairwise_lt_range (n := n)).imp fun hij => hg _ _ hij.le)

/-- The law of ladder prices between two finite ends. There is one price per order. With a
jitter (an amplitude, half the clamped spread times the band, that is not zero) the `i`-th price
is the `i`-th eased point moved by the `i`-th uniform draw of the source and clamped, so it lies
in the band `[min start stop, max start stop]`. Without one the prices are the eased points alone,
whatever the draws, and when the band's width is a finite float they run monotonically from
`start` towards `stop`. -/
theorem prices_law (hs : start.isFinite = true) (he : stop.isFinite = true) :
    let lo := Binary64.atMost start stop
    let hi := Binary64.atLeast start stop
    let amplitude := clampShare randomDiff * (hi - lo) / 2.0
    let kind := Easing.ofName easing
    let ps := prices count start stop randomDiff easing values
    ps.length = count.toNat ∧
      ((amplitude != 0.0 || amplitude.isNaN) = true →
        ps = (List.range count.toNat).map (fun i => Binary64.clamp lo hi
          (ease start stop (progress count i) kind +
            (-amplitude + (amplitude - -amplitude) * (Draws.start values).nth i))) ∧
        ∀ p ∈ ps, lo ≤ p ∧ p ≤ hi) ∧
      ((amplitude != 0.0 || amplitude.isNaN) = false →
        ps = (List.range count.toNat).map (fun i => ease start stop (progress count i) kind) ∧
        ((stop - start).isFinite = true →
          (start ≤ stop → ps.Pairwise (· ≤ ·)) ∧ (stop ≤ start → ps.Pairwise (· ≥ ·)))) := by
  intro lo hi amplitude kind ps
  have heq := prices_eq count start stop randomDiff easing values
  have hsn : start.isNaN = false := by
    obtain ⟨_, _, _, h⟩ := Binary64.ofFloat_of_isFinite hs
    exact Binary64.isNaN_of_ofFloat (by simp [h])
  -- the band is the smaller end to the larger one
  have hband : lo ≤ hi := Float.le_trans (Binary64.atMost_le_left hsn) (Binary64.le_atLeast_left hsn)
  refine ⟨prices_length .., fun hj => ?_, fun hj => ?_⟩
  · have hps : ps = _ := heq.trans (if_pos hj)
    refine ⟨hps, fun p hp => ?_⟩
    rw [hps] at hp
    obtain ⟨i, -, rfl⟩ := List.mem_map.1 hp
    exact Binary64.clamp_mem (Float.isNaN_of_le hband).1 (Float.isNaN_of_le hband).2 hband _
  · have hps : ps = _ := heq.trans (if_neg (ne_true_of_eq_false hj))
    refine ⟨hps, fun hd => ⟨fun hle => ?_, fun hle => ?_⟩⟩
    · rw [hps]
      refine pairwise_map_range (fun i j hij => ?_) _
      exact (ease_monotone kind hs he hd (progress_le count hij)).1 hle
    · rw [hps]
      refine pairwise_map_range (fun i j hij => ?_) _
      exact (ease_monotone kind hs he hd (progress_le count hij)).2 hle

end Prices

theorem still_ladder_rises :
    (1.0 : Float).isFinite = true ∧ (2.0 : Float).isFinite = true ∧
      (prices 3 1.0 2.0 0.0 "linear" []).Pairwise (· ≤ ·) := by
  have hs : (1.0 : Float).isFinite = true := by decide
  have he : (2.0 : Float).isFinite = true := by decide
  have h := prices_law 3 1.0 2.0 0.0 "linear" [] hs he
  exact ⟨hs, he, ((h.2.2 (by decide)).2 (by decide)).1 (by decide)⟩

/-- A one-order ladder whose two ends are both `1e-11` is priced at zero: the eased point is
rounded to ten places, below both ends. -/
theorem still_ladder_leaves_band :
    (prices 1 1e-11 1e-11 0.0 "linear" [0.5]).map Float.toBits = [(0.0 : Float).toBits] ∧
      (0.0 : Float) < Binary64.atMost 1e-11 1e-11 := by
  decide +kernel

end Ladder

end TradeDesk
