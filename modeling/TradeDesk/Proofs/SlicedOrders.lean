import TradeDesk.Proofs.Ladders

/-!
Time-weighted orders, run by run: a plan, slices cut from it, and market orders placed in turn
under a registration released however they end (`twapOrder_run`).
-/

namespace TradeDesk

namespace Handler

open Act

def sliceParams (side : Side) (units : String) (size : Float) : Params :=
  [("side", side.name), ("amount", Amount.text size ++ units), ("position", "")]

theorem marketDefaults_assign (side amount : String) :
    Params.assign marketDefaults [⟨"side", side, 0⟩, ⟨"amount", amount, 1⟩] =
      [("side", side), ("amount", amount), ("position", "")] := by
  have h1 : Text.lower "side" = "side" := by decide
  have h2 : Text.lower "amount" = "amount" := by decide
  have h3 : Text.lower "position" = "position" := by decide
  simp +decide [Params.assign, marketDefaults, List.lookup, Params.lowerIndex, Assoc.ofPairs,
    Assoc.set, Assoc.keys, Assoc.find?, h1, h2, h3]

def pause (count : Int) (gap : Float) (i : Nat) : Act Unit :=
  if (i : Int) < count - 1 then sleep gap else pure ()

theorem placeSlices_cons (c : Scope) (id : String) (side : Side) (units : String) (count : Int)
    (gap : Float) (i : Nat) (size : Float) (rest : List Float) (done : List (PlacedOrder String)) :
    placeSlices c id side units count gap i (size :: rest) done =
      (stopRequested c id >>= fun stop =>
        if stop then throw .twapCancelled
        else marketOrder c (sliceParams side units size) >>= fun o =>
          pause count gap i >>= fun _ =>
            placeSlices c id side units count gap (i + 1) rest (o :: done)) := by
  rw [placeSlices.eq_2]
  refine bind_congr fun stop => ?_
  cases stop
  · simp only [Bool.false_eq_true, if_false, sliceParams, marketDefaults_assign, pause]
    refine bind_congr fun o => ?_
    by_cases h : (i : Int) < count - 1 <;> simp [h]
  · simp only [↓reduceIte]
    rfl

def Flagged (c : Scope) (id : String) (w : World) : Prop :=
  (w.desks.getD c.desk default).algos.isCancelled id = true

theorem stopRequested_bind {β : Type} (c : Scope) (id : String) (k : Bool → Act β) (w : World) :
    (stopRequested c id >>= k) w = k ((w.desks.getD c.desk default).algos.isCancelled id) w := rfl

/-- The pause after slice `i`: one nap of the gap (none when it is not positive), or nothing after
the last slice. -/
inductive Pause (count : Int) (gap : Float) (i : Nat) (w : World) : List (Nap World) → World → Prop
  | sleeps (x : World) : (i : Int) < count - 1 →
      Pause count gap i w [⟨w, w.now + Binary64.atLeast 0.0 gap, x⟩] x
  | last : ¬ (i : Int) < count - 1 → Pause count gap i w [] w

theorem pause_run {count : Int} {gap : Float} {i : Nat} {w s : World} {naps : List (Nap World)}
    {r : Except Fault Unit} (h : Step.Run (pause count gap i w) naps s r) :
    Pause count gap i w naps s ∧ r = .ok () := by
  unfold pause at h
  by_cases hi : (i : Int) < count - 1
  · rw [if_pos hi, Act.sleep_run] at h
    obtain ⟨rfl, rfl⟩ := h
    exact ⟨.sleeps s hi, rfl⟩
  · rw [if_neg hi] at h
    obtain ⟨rfl, rfl, rfl⟩ := (Step.Run.of_done_eq rfl).1 h
    exact ⟨.last hi, rfl⟩

/-- The slices of an algorithmic order placed in turn from slice `i` on: before each slice the
order checks whether it was asked to stop, and fails if so; otherwise the slice's market order
runs, and then the pause. -/
inductive SliceRun (c : Scope) (id : String) (side : Side) (units : String) (count : Int)
    (gap : Float) :
    Nat → List Float → World → List (Nap World) → World → Except Fault (List (PlacedOrder String)) →
      Prop
  | finished (i : Nat) (w : World) : SliceRun c id side units count gap i [] w [] w (.ok [])
  | cancelled {i : Nat} {size : Float} {rest : List Float} {w : World} :
      Flagged c id w →
        SliceRun c id side units count gap i (size :: rest) w [] w (.error .twapCancelled)
  | failed {i : Nat} {size : Float} {rest : List Float} {w s : World} {naps : List (Nap World)}
      {e : Fault} : ¬ Flagged c id w →
      Step.Run (marketOrder c (sliceParams side units size) w) naps s (.error e) →
      SliceRun c id side units count gap i (size :: rest) w naps s (.error e)
  | placed {i : Nat} {size : Float} {rest : List Float} {w w₁ w₂ s : World}
      {naps₁ naps₂ naps₃ : List (Nap World)} {o : PlacedOrder String}
      {r : Except Fault (List (PlacedOrder String))} : ¬ Flagged c id w →
      Step.Run (marketOrder c (sliceParams side units size) w) naps₁ w₁ (.ok o) →
      Pause count gap i w₁ naps₂ w₂ →
      SliceRun c id side units count gap (i + 1) rest w₂ naps₃ s r →
      SliceRun c id side units count gap i (size :: rest) w (naps₁ ++ naps₂ ++ naps₃) s
        (r.map (o :: ·))

theorem SliceRun.length {c : Scope} {id : String} {side : Side} {units : String} {count : Int}
    {gap : Float} {i : Nat} {sizes : List Float} {w s : World} {naps : List (Nap World)}
    {r : Except Fault (List (PlacedOrder String))}
    (h : SliceRun c id side units count gap i sizes w naps s r) {os : List (PlacedOrder String)}
    (hr : r = .ok os) : os.length = sizes.length := by
  induction h generalizing os with
  | finished => cases hr; rfl
  | cancelled => cases hr
  | failed => cases hr
  | @placed _ _ _ _ _ _ _ _ _ _ o r _ _ _ _ ih =>
    cases r with
    | error e => cases hr
    | ok os' =>
      cases hr
      simp [ih rfl]

theorem placeSlices_run (c : Scope) (id : String) (side : Side) (units : String) (count : Int)
    (gap : Float) :
    ∀ (sizes : List Float) {i : Nat} {done : List (PlacedOrder String)} {w s : World}
      {naps : List (Nap World)} {r : Except Fault (List (PlacedOrder String))},
      Step.Run (placeSlices c id side units count gap i sizes done w) naps s r →
      ∃ r', SliceRun c id side units count gap i sizes w naps s r' ∧
        r = r'.map (done.reverse ++ ·)
  | [], i, done, w, s, naps, r, h => by
    rw [placeSlices.eq_1] at h
    obtain ⟨rfl, rfl, rfl⟩ := (Step.Run.of_done_eq rfl).1 h
    exact ⟨_, .finished i _, by simp [Except.map]⟩
  | size :: rest, i, done, w, s, naps, r, h => by
    rw [placeSlices_cons, stopRequested_bind] at h
    by_cases hf : Flagged c id w
    · rw [if_pos (show (w.desks.getD c.desk default).algos.isCancelled id = true from hf)] at h
      obtain ⟨rfl, rfl, rfl⟩ := (Step.Run.of_done_eq rfl).1 h
      exact ⟨_, .cancelled hf, rfl⟩
    rw [if_neg (show ¬ (w.desks.getD c.desk default).algos.isCancelled id = true from hf)] at h
    rcases Step.Run.of_bind h with ⟨naps₁, w₁, o, naps', rfl, h₁, h'⟩ | ⟨e, h₁, rfl⟩
    · rcases Step.Run.of_bind h' with ⟨naps₂, w₂, u, naps₃, rfl, h₂, h₃⟩ | ⟨e, h₂, -⟩
      · obtain ⟨hpause, -⟩ := pause_run h₂
        obtain ⟨r', hrun, rfl⟩ := placeSlices_run c id side units count gap rest h₃
        rw [← List.append_assoc]
        refine ⟨_, .placed hf h₁ hpause hrun, ?_⟩
        cases r' <;> simp [Except.map]
      · cases (pause_run h₂).2
    · exact ⟨_, .failed hf h₁, rfl⟩

/-- A time-weighted order worked out: the count of slices, the gap between them, the side and the
amount. -/
structure TwapPlan where
  count : Int
  gap : Float
  side : Side
  amount : Quantity

/-- Works a time-weighted order out; nothing when it has no amount. -/
def twapPlan (c : Scope) (p : Params) : Act (Option TwapPlan) := do
  let count ← lift (Amount.clampedCount (p.get "orderCount") 1 50 10)
  let duration ← lift (Amount.durationSeconds (p.get "duration") 60)
  let ratio := Binary64.nearestRatio (decide (duration < 0)) duration.natAbs count.natAbs
  if ratio.isInf then throw .quotientTooLarge
  let gap ← lift (Amount.roundUp ratio 0)
  let (side, amount) ← positionToAmount c.desk c.symbol (p.get "position")
    (← lift (Side.read (p.get "side"))) (p.get "amount")
  if amount.value == 0.0 then return none
  return some ⟨count, gap, side, amount⟩

/-- The slices of a time-weighted order cut in a world: `count` equal ones, the amount over the
count rounded down to six places, or jittered ones drawn when `varyAmount` is not zero. -/
def TwapPlan.slices (t : TwapPlan) (p : Params) (w : World) : Except Fault (List Float) :=
  if Amount.percentage (p.get "varyAmount") != 0.0 then
    Ladder.amounts t.count t.amount.value (Amount.percentage (p.get "varyAmount")) 6 w.randoms
  else (List.replicate t.count.toNat ·) <$> Amount.roundDown (t.amount.value / ofWhole t.count) 6

theorem twapOrder_eq (c : Scope) (p : Params) :
    twapOrder c p = (twapPlan c p >>= fun plan? => match plan? with
      | none => pure []
      | some t => get >>= fun w => lift (t.slices p w) >>= fun slices =>
          register c t.side (p.get "tag") >>= fun id =>
            Job.andFinally (placeSlices c id t.side t.amount.units t.count t.gap 0 slices [])
              (release c id)
      : Act (List (PlacedOrder String))) := by
  simp only [twapOrder, twapPlan, bind_assoc]
  refine bind_congr fun count => ?_
  refine bind_congr fun duration => ?_
  split
  · rfl
  simp only [bind_assoc]
  refine bind_congr fun gap => ?_
  refine bind_congr fun side => ?_
  refine bind_congr fun x => ?_
  by_cases hz : (x.2.value == 0.0) = true
  · simp [hz]
  simp only [hz, Bool.false_eq_true, ↓reduceIte, pure_bind]
  rw [get_bind]
  funext s
  by_cases hv : (Amount.percentage (p.get "varyAmount") != 0.0) = true
  · simp only [hv, ↓reduceIte, TwapPlan.slices]
    rw [get_bind]
  · simp only [hv, Bool.false_eq_true, ↓reduceIte, TwapPlan.slices]
    rw [get_bind, lift_map_bind]

theorem twapPlan_reads (c : Scope) (p : Params) : Reads (twapPlan c p) := by
  unfold twapPlan
  refine Fixes.bind (Fixes.lift _) fun _ => Fixes.bind (Fixes.lift _) fun _ => ?_
  dsimp only
  split
  · exact Fixes.throw_bind _ _
  refine Fixes.bind (Fixes.lift _) fun _ => Fixes.bind (Fixes.lift _) fun _ => ?_
  refine Fixes.bind (positionToAmount_reads _ _ _ _ _) fun _ => ?_
  split
  · exact Fixes.pure _
  · exact Fixes.pure _

/-- What a worked-out time-weighted order is made of: its count clamped from `orderCount`, its
gap the duration over the count rounded up to whole seconds, and its side and amount resolved
from the side named, non-zero. -/
structure TwapPlan.Sound (c : Scope) (p : Params) (t : TwapPlan) : Prop where
  count : Amount.clampedCount (p.get "orderCount") 1 50 10 = .ok t.count
  gap : ∃ duration, Amount.durationSeconds (p.get "duration") 60 = .ok duration ∧
    Amount.roundUp
      (Binary64.nearestRatio (decide (duration < 0)) duration.natAbs t.count.natAbs) 0 =
      .ok t.gap
  side : ∃ s, Side.read (p.get "side") = .ok s ∧
    Yields (positionToAmount c.desk c.symbol (p.get "position") s (p.get "amount"))
      (t.side, t.amount)
  amount : (t.amount.value == 0.0) = false

def TwapPlanned (c : Scope) (p : Params) : Option TwapPlan → Prop
  | some t => t.Sound c p
  | none => ZeroAmount c p

theorem twapPlan_planned (c : Scope) (p : Params) : Ensures (TwapPlanned c p) (twapPlan c p) := by
  unfold twapPlan
  refine (Ensures.self _).bind fun count hcount => (Ensures.self _).bind fun duration hd => ?_
  dsimp only
  split
  · exact (Ensures.throw _ : Ensures (fun _ : Unit => False) _).bind fun _ h => h.elim
  refine (Ensures.self _).bind fun gap hgap => (Ensures.self _).bind fun s hs => ?_
  refine (Ensures.self _).bind fun ⟨side, amount⟩ hx => ?_
  split
  · next hz => exact Ensures.pure ⟨s, side, amount, yields_lift hs, hx, hz⟩
  · next hz =>
    exact Ensures.pure ⟨yields_lift hcount, ⟨duration, yields_lift hd, yields_lift hgap⟩,
      ⟨s, yields_lift hs, hx⟩, by simpa using hz⟩

theorem TwapPlan.Sound.slices_length {c : Scope} {p : Params} {t : TwapPlan} (ht : t.Sound c p)
    {w : World} {slices : List Float} (h : t.slices p w = .ok slices) :
    slices.length = t.count.toNat := by
  have hc := Amount.le_clampedCount ht.count
  unfold TwapPlan.slices at h
  split at h
  · exact Ladder.amounts_length hc h
  · cases hr : Amount.roundDown (t.amount.value / ofWhole t.count) 6 with
    | error e =>
      rw [hr] at h
      cases h
    | ok slice =>
      rw [hr] at h
      cases h
      exact List.length_replicate

/-- How a run of a time-weighted order from `w` goes: the plan fails; or it finds a zero amount;
or it gives a sound plan whose slices, cut in the world the plan ended in, cannot be cut; or they
are cut, one per order, the order registers under an id, its slices run from there, and it
releases the id where they ended, with their outcome. -/
inductive Sliced (c : Scope) (p : Params) (w : World) :
    List (Nap World) → World → Except Fault (List (PlacedOrder String)) → Prop
  | refused {naps : List (Nap World)} {s : World} {e : Fault} :
      Step.Run (twapPlan c p w) naps s (.error e) → Sliced c p w naps s (.error e)
  | nothing {naps : List (Nap World)} {s : World} :
      Step.Run (twapPlan c p w) naps s (.ok none) → ZeroAmount c p → Sliced c p w naps s (.ok [])
  | uncut {naps : List (Nap World)} {s : World} {t : TwapPlan} {e : Fault} :
      Step.Run (twapPlan c p w) naps s (.ok (some t)) → t.Sound c p →
      t.slices p s = .error e → Sliced c p w naps s (.error e)
  | ran {naps₁ naps₂ : List (Nap World)} {w₁ w₂ w₃ s : World} {t : TwapPlan}
      {slices : List Float} {id : String} {r : Except Fault (List (PlacedOrder String))} :
      Step.Run (twapPlan c p w) naps₁ w₁ (.ok (some t)) → t.Sound c p →
      t.slices p w₁ = .ok slices → slices.length = t.count.toNat →
      register c t.side (p.get "tag") w₁ = .done w₂ (.ok id) →
      SliceRun c id t.side t.amount.units t.count t.gap 0 slices w₂ naps₂ w₃ r →
      release c id w₃ = .done s (.ok ()) →
      Sliced c p w (naps₁ ++ naps₂) s r

theorem register_done (c : Scope) (side : Side) (tag : String) (w : World) :
    ∃ w' id, register c side tag w = .done w' (.ok id) := ⟨_, _, rfl⟩

theorem release_done (c : Scope) (id : String) (w : World) :
    ∃ w', release c id w = .done w' (.ok ()) := ⟨_, rfl⟩

theorem registered_run {c : Scope} {side : Side} {units tag : String} {count : Int} {gap : Float}
    {slices : List Float} {w₁ s : World} {naps : List (Nap World)}
    {r : Except Fault (List (PlacedOrder String))}
    (h : Step.Run ((register c side tag >>= fun id =>
      Job.andFinally (placeSlices c id side units count gap 0 slices []) (release c id)) w₁)
      naps s r) :
    ∃ w₂ id w₃, register c side tag w₁ = .done w₂ (.ok id) ∧
      SliceRun c id side units count gap 0 slices w₂ naps w₃ r ∧
      release c id w₃ = .done s (.ok ()) := by
  obtain ⟨w₂, id, hreg⟩ := register_done c side tag w₁
  rcases Step.Run.of_bind h with ⟨naps₁, s₁, x, naps₂, rfl, h₁, h₂⟩ | ⟨e, h₁, -⟩
  · obtain ⟨rfl, rfl, hx⟩ := (Step.Run.of_done_eq hreg).1 h₁
    cases hx
    obtain ⟨naps₃, w₃, r₁, naps₄, rfl, h₃, h₄⟩ := Step.Run.of_andFinally h₂
    obtain ⟨w₄, hrel⟩ := release_done c id w₃
    obtain ⟨r', hrun, rfl⟩ := placeSlices_run c id side units count gap slices h₃
    rcases h₄ with ⟨h₄, rfl⟩ | ⟨e, h₄, -⟩
    · obtain ⟨rfl, rfl, -⟩ := (Step.Run.of_done_eq hrel).1 h₄
      rw [List.nil_append, List.append_nil]
      refine ⟨s₁, id, w₃, hreg, ?_, hrel⟩
      have hr : Except.map (fun l => ([] : List (PlacedOrder String)).reverse ++ l) r' = r' := by
        cases r' <;> rfl
      rw [hr]
      exact hrun
    · cases ((Step.Run.of_done_eq hrel).1 h₄).2.2
  · cases ((Step.Run.of_done_eq hreg).1 h₁).2.2

theorem twapOrder_run {c : Scope} {p : Params} {w s : World} {naps : List (Nap World)}
    {r : Except Fault (List (PlacedOrder String))} (h : Step.Run (twapOrder c p w) naps s r) :
    Sliced c p w naps s r := by
  rw [twapOrder_eq] at h
  rcases Step.Run.of_bind h with ⟨naps₁, w₁, plan?, naps₂, rfl, h₁, h₂⟩ | ⟨e, h₁, rfl⟩
  · have hplanned := (twapPlan_planned c p).run h₁
    cases plan? with
    | none =>
      obtain ⟨rfl, rfl, rfl⟩ := (Step.Run.of_done_eq rfl).1 h₂
      rw [List.append_nil]
      exact .nothing h₁ hplanned
    | some t =>
      -- the slices are cut in the world the plan ended in
      simp only [get_bind] at h₂
      cases hs : t.slices p w₁ with
      | error e =>
        rw [hs] at h₂
        obtain ⟨rfl, rfl, rfl⟩ := (Step.Run.of_done_eq rfl).1 h₂
        rw [List.append_nil]
        exact .uncut h₁ hplanned hs
      | ok slices =>
        rw [hs] at h₂
        obtain ⟨w₂, id, w₃, hreg, hrun, hrel⟩ := registered_run h₂
        exact .ran h₁ hplanned hs (hplanned.slices_length hs) hreg hrun hrel
  · exact .refused h₁

theorem empty_twap_sliced :
    ∃ s, Step.Run (twapOrder ⟨0, "BTCUSD", "s1"⟩ (Params.assign twapDefaults []) {}) [] s (.ok []) ∧
      Sliced ⟨0, "BTCUSD", "s1"⟩ (Params.assign twapDefaults []) {} [] s (.ok []) := by
  obtain ⟨s, hs⟩ : ∃ s, twapOrder ⟨0, "BTCUSD", "s1"⟩ (Params.assign twapDefaults []) {} =
      .done s (.ok []) := by
    obtain ⟨s, r, heq, key⟩ := Step.eq_done_of_doneWith
      (show (twapOrder ⟨0, "BTCUSD", "s1"⟩ (Params.assign twapDefaults []) {}).doneWith
        (fun _ r => r.toOption.any List.isEmpty) = true by decide +kernel)
    cases r with
    | error e => simp [Except.toOption] at key
    | ok l =>
      simp only [Except.toOption, Option.any_some, List.isEmpty_iff] at key
      subst key
      exact ⟨s, heq⟩
  exact ⟨s, Step.Run.of_eq_done hs, twapOrder_run (Step.Run.of_eq_done hs)⟩

/-- A slice longer than the decimal context holds cannot be rounded to six places: a single-slice
sell of `1e30` fails before it registers or places anything, though its amount is not zero. -/
theorem twap_slice_past_decimal_context :
    ∃ s, twapOrder ⟨0, "BTCUSD", "s1"⟩
        (Params.assign twapDefaults [⟨"", "sell", 0⟩, ⟨"", "1000000000000000000000000000000", 1⟩,
          ⟨"orderCount", "1", 2⟩])
        { desks := #[Desk.assemble "paper" [] Paper.Market.spotDefault default 0.001 {}] } =
      .done s (.error .invalidDecimal) := by
  have key : (match twapOrder ⟨0, "BTCUSD", "s1"⟩
      (Params.assign twapDefaults [⟨"", "sell", 0⟩, ⟨"", "1000000000000000000000000000000", 1⟩,
        ⟨"orderCount", "1", 2⟩])
      { desks := #[Desk.assemble "paper" [] Paper.Market.spotDefault default 0.001 {}] } with
      | .done _ (.error .invalidDecimal) => true
      | _ => false) = true := by decide +kernel
  split at key
  · next s heq => exact ⟨s, heq⟩
  · cases key

end Handler

end TradeDesk
