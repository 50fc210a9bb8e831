import TradeDesk.Proofs.Refusals
import TradeDesk.Proofs.LimitOrders
import TradeDesk.Proofs.PaperLedger

/-!
Ladders, run by run: a plan worked out by reading the exchange, then rungs drawn and placed one by
one, a failed rung kept as no order (`placeScaled_run`).
-/

namespace TradeDesk

namespace Binary64

open Float.Model in
theorem unpacked_lt_asymm {x y : UnpackedFloat} (h : x.lt y = true) : y.lt x = false := by
  rcases x with ⟨_ | _⟩ | _ | ⟨_ | _⟩ | ⟨_ | _, m, e, hm⟩ <;>
  rcases y with ⟨_ | _⟩ | _ | ⟨_ | _⟩ | ⟨_ | _, m', e', hm'⟩ <;>
  simp_all [UnpackedFloat.lt, UnpackedFloat.compare, Ordering.then_eq_lt, Ordering.swap_then,
    compare_lt_iff_lt, compare_gt_iff_gt] <;>
  omega

theorem lt_asymm {a b : Float} (h : a < b) : ¬ b < a := by
  rw [lt_iff_unpack] at h ⊢
  rw [unpacked_lt_asymm h]
  decide

end Binary64

theorem mapM_ok_length {α β ε : Type} {f : α → Except ε β} :
    ∀ {l : List α} {l' : List β}, l.mapM f = .ok l' → l'.length = l.length
  | [], l', h => by
    simp only [List.mapM_nil, pure, Except.pure, Except.ok.injEq] at h
    subst h
    rfl
  | x :: xs, l', h => by
    rw [List.mapM_cons] at h
    cases hx : f x with
    | error e => simp [hx, bind, Except.bind] at h
    | ok y =>
      cases hxs : xs.mapM f with
      | error e => simp [hx, hxs, bind, Except.bind] at h
      | ok ys =>
        simp only [hx, hxs, bind, Except.bind, pure, Except.pure, Except.ok.injEq] at h
        subst h
        simp [mapM_ok_length hxs]

namespace Amount

theorem clampedCount_clamps {text : String} {lo hi default n : Int}
    (h : clampedCount text lo hi default = .ok n) : ∃ v, n = max lo (min hi v) := by
  unfold clampedCount at h
  split at h
  · simp only [pure, Except.pure, bind, Except.bind, Except.ok.injEq] at h
    exact ⟨_, h.symm⟩
  · next x _ =>
    cases hw : wholePart x with
    | error e => simp [hw, bind, Except.bind] at h
    | ok v =>
      simp only [hw, pure, Except.pure, bind, Except.bind, Except.ok.injEq] at h
      exact ⟨_, h.symm⟩

theorem le_clampedCount {text : String} {lo hi default n : Int}
    (h : clampedCount text lo hi default = .ok n) : lo ≤ n := by
  obtain ⟨v, rfl⟩ := clampedCount_clamps h
  omega

theorem clampedCount_le {text : String} {lo hi default n : Int} (hlo : lo ≤ hi)
    (h : clampedCount text lo hi default = .ok n) : n ≤ hi := by
  obtain ⟨v, rfl⟩ := clampedCount_clamps h
  omega

end Amount

namespace Ladder

@[simp] theorem weights_length (n : Nat) (diff : Float) (d : Draws) :
    (weights n diff d).length = n := by
  induction n generalizing d with
  | zero => rfl
  | succ n ih => simp [weights, ih]

theorem amounts_length {count : Int} {total diff : Float} {precision : Int} {values : List Float}
    {l : List Float} (hc : 1 ≤ count) (h : amounts count total diff precision values = .ok l) :
    l.length = count.toNat := by
  have hc' : ¬ count < 1 := by omega
  unfold amounts at h
  simp only [hc', if_false] at h
  split at h
  · simp [throw, throwThe, MonadExceptOf.throw, bind, Except.bind] at h
  simp only [bind, Except.bind] at h
  split at h
  · contradiction
  next rounded hr =>
  have hlen : rounded.length = count.toNat := by rw [mapM_ok_length hr, weights_length]
  split at h
  · contradiction
  simp only [pure, Except.pure, Except.ok.injEq] at h
  subst h
  simp only [List.length_append, List.length_dropLast, List.length_singleton, hlen]
  omega

@[simp] theorem prices_length (count : Int) (start stop diff : Float) (easing : String)
    (values : List Float) : (prices count start stop diff easing values).length = count.toNat := by
  unfold prices
  split
  · simp only [List.length_nil]
    omega
  · dsimp only
    -- every turn of the fold puts one price in front
    have hfold : ∀ (step : List Float × Draws → Nat → List Float × Draws),
        (∀ acc i, (step acc i).1.length = acc.1.length + 1) →
        ∀ (l : List Nat) acc, (l.foldl step acc).1.length = acc.1.length + l.length := by
      intro step hstep l
      induction l with
      | nil => intro acc; rfl
      | cons i l ih =>
        intro acc
        rw [List.foldl_cons, ih, hstep, List.length_cons]
        omega
    rw [List.length_reverse, hfold _ (fun acc i => by split <;> rfl)]
    simp

end Ladder

namespace Handler

open Act

/-- The two ends of a ladder nearest the market first: the higher first for buys, the lower
first for sells. -/
def nearestFirst (side : Side) (start stop : Float) : Float × Float :=
  if (side == .buy && start < stop) || (side == .sell && start > stop) then (stop, start)
  else (start, stop)

theorem nearestFirst_buy (start stop : Float) :
    ¬ (nearestFirst .buy start stop).1 < (nearestFirst .buy start stop).2 := by
  unfold nearestFirst
  by_cases h : start < stop
  · simp only [h, decide_true]
    exact Binary64.lt_asymm h
  · simp [h]

theorem nearestFirst_sell (start stop : Float) :
    ¬ (nearestFirst .sell start stop).2 < (nearestFirst .sell start stop).1 := by
  unfold nearestFirst
  by_cases h : stop < start
  · simp only [gt_iff_lt, h, decide_true]
    exact Binary64.lt_asymm h
  · simp [h]

/-- A ladder worked out: the count, side and amount, the two ends nearest the market first, and
the total. -/
structure LadderPlan where
  count : Int
  side : Side
  amount : Quantity
  start : Float
  stop : Float
  total : Float

/-- Works a ladder out; nothing when it has no amount or no total to place. -/
def ladderPlan (c : Scope) (p : Params) : Act (Option LadderPlan) := do
  let count ← lift (Amount.clampedCount (p.get "orderCount") 2 100 10)
  let (side, amount) ← positionToAmount c.desk c.symbol (p.get "position")
    (← lift (Side.read (p.get "side"))) (p.get "amount")
  if amount.value == 0.0 then return none
  let start ← absolutePrice c.desk c.symbol side (p.get "from") c.session
  let stop ← absolutePrice c.desk c.symbol side (p.get "to") c.session
  let (start, stop) := nearestFirst side start stop
  let total ← ladderTotal c.desk c.symbol side amount count start stop (p.get "easing")
  if total == 0.0 then return none
  return some ⟨count, side, amount, start, stop, total⟩

/-- The rungs of a ladder drawn in a world: its prices and amounts, slot by slot, each drawn from
a source of its own. -/
def LadderPlan.rungs (l : LadderPlan) (c : Scope) (p : Params) (w : World) :
    Except Fault (List (Float × Float)) :=
  (Ladder.prices l.count l.start l.stop (Amount.percentage (p.get "varyPrice")) (p.get "easing")
      w.priceRandoms).zip <$>
    Ladder.amounts l.count l.total (Amount.percentage (p.get "varyAmount"))
      (w.desks.getD c.desk default).market.precision w.randoms

theorem lift_map_bind {α β γ : Type} (f : α → β) (r : Except Fault α) (k : β → Act γ) :
    (lift (f <$> r) >>= k) = (lift r >>= fun a => k (f a)) := by
  cases r <;> rfl

theorem get_bind {α : Type} (f : World → Act α) : (get >>= f) = fun s => f s s := rfl

theorem placeScaled_eq (c : Scope) (p : Params) :
    placeScaled c p = (ladderPlan c p >>= fun plan? => match plan? with
      | none => pure []
      | some l => get >>= fun w => lift (l.rungs c p w) >>= fun rungs =>
          rungs.mapM fun (price, size) => placeRung c l.side l.amount.units (p.get "tag") price size
      : Act (List (PlacedOrder String))) := by
  simp only [placeScaled, ladderPlan, bind_assoc]
  refine bind_congr fun count => ?_
  refine bind_congr fun side => ?_
  refine bind_congr fun x => ?_
  by_cases hz : (x.2.value == 0.0) = true
  · simp [hz]
  simp only [hz, Bool.false_eq_true, ↓reduceIte, bind_assoc]
  refine bind_congr fun start => ?_
  refine bind_congr fun stop => ?_
  refine bind_congr fun total => ?_
  by_cases ht : (total == 0.0) = true
  · simp [ht]
  simp only [ht, Bool.false_eq_true, ↓reduceIte, pure_bind]
  rw [get_bind, get_bind]
  funext s
  rw [desk_bind, LadderPlan.rungs, lift_map_bind]
  rfl

/-- The parameters of the limit order of a rung: its side, its price as an absolute offset, its
size with the ladder's units and the ladder's tag, with no target position. -/
def rungParams (side : Side) (units tag : String) (price size : Float) : Params :=
  [("side", side.name), ("offset", "@" ++ Amount.text price), ("amount", Amount.text size ++ units),
   ("tag", tag), ("position", "")]

/-- The sub-command of a rung: a limit order, its parameters bound after the default tag is read
off the clock. -/
def rungOrder (c : Scope) (side : Side) (units tag : String) (price size : Float) :
    Act (PlacedOrder String) :=
  wallclock >>= fun _ => limitOrder c (rungParams side units tag price size)

theorem limitWith_rung (c : Scope) (side : Side) (units tag : String) (price size : Float) :
    limitWith c [⟨"side", side.name, 0⟩, ⟨"offset", "@" ++ Amount.text price, 1⟩,
      ⟨"amount", Amount.text size ++ units, 2⟩, ⟨"tag", tag, 3⟩] =
      rungOrder c side units tag price size := by
  unfold limitWith rungOrder
  refine bind_congr fun now => ?_
  rw [limitDefaults_assign]
  rfl

theorem placeRung_eq (c : Scope) (side : Side) (units tag : String) (price size : Float) :
    placeRung c side units tag price size =
      tryCatch (rungOrder c side units tag price size)
        fun _ => pure (PlacedOrder.none side price size units) := by
  unfold placeRung
  rw [limitWith_rung]

/-- A ladder's rungs placed one after the other from a world: each rung's sub-command runs from
where the last one ended, and a rung whose sub-command failed is a placement of no order. -/
inductive LadderRun (c : Scope) (side : Side) (units tag : String) :
    List (Float × Float) → World → List (Nap World) → World → List (PlacedOrder String) → Prop
  | nil (w : World) : LadderRun c side units tag [] w [] w []
  | placed {price size : Float} {rest : List (Float × Float)} {w w₁ s : World}
      {naps₁ naps₂ : List (Nap World)} {o : PlacedOrder String} {os : List (PlacedOrder String)} :
      Step.Run (rungOrder c side units tag price size w) naps₁ w₁ (.ok o) →
      LadderRun c side units tag rest w₁ naps₂ s os →
      LadderRun c side units tag ((price, size) :: rest) w (naps₁ ++ naps₂) s (o :: os)
  | failed {price size : Float} {rest : List (Float × Float)} {w w₁ s : World}
      {naps₁ naps₂ : List (Nap World)} {e : Fault} {os : List (PlacedOrder String)} :
      Step.Run (rungOrder c side units tag price size w) naps₁ w₁ (.error e) →
      LadderRun c side units tag rest w₁ naps₂ s os →
      LadderRun c side units tag ((price, size) :: rest) w (naps₁ ++ naps₂) s
        (PlacedOrder.none side price size units :: os)

theorem LadderRun.length {c : Scope} {side : Side} {units tag : String}
    {rungs : List (Float × Float)} {w s : World} {naps : List (Nap World)}
    {os : List (PlacedOrder String)} (h : LadderRun c side units tag rungs w naps s os) :
    os.length = rungs.length := by
  induction h with
  | nil => rfl
  | placed _ _ ih => simp [ih]
  | failed _ _ ih => simp [ih]

theorem placeRung_run {c : Scope} {side : Side} {units tag : String} {price size : Float}
    {w s : World} {naps : List (Nap World)} {r : Except Fault (PlacedOrder String)}
    (h : Step.Run (placeRung c side units tag price size w) naps s r) :
    ∃ o, r = .ok o ∧ (Step.Run (rungOrder c side units tag price size w) naps s (.ok o) ∨
      ∃ e, Step.Run (rungOrder c side units tag price size w) naps s (.error e) ∧
        o = PlacedOrder.none side price size units) := by
  rw [placeRung_eq] at h
  rcases Step.Run.of_handle h with ⟨o, ho, rfl⟩ | ⟨naps₁, s₁, e, naps₂, rfl, h₁, h₂⟩
  · exact ⟨o, rfl, .inl ho⟩
  · obtain ⟨rfl, rfl, rfl⟩ := (Step.Run.of_done_eq rfl).1 h₂
    exact ⟨_, rfl, .inr ⟨e, by simpa using h₁, rfl⟩⟩

theorem placeRungs_run (c : Scope) (side : Side) (units tag : String) :
    ∀ (rungs : List (Float × Float)) {w s : World} {naps : List (Nap World)}
      {r : Except Fault (List (PlacedOrder String))},
      Step.Run ((rungs.mapM fun (price, size) => placeRung c side units tag price size) w)
        naps s r →
      ∃ os, r = .ok os ∧ LadderRun c side units tag rungs w naps s os
  | [], w, s, naps, r, h => by
    obtain ⟨rfl, rfl, rfl⟩ := (Step.Run.of_done_eq rfl).1 h
    exact ⟨[], rfl, .nil _⟩
  | (price, size) :: rest, w, s, naps, r, h => by
    rw [List.mapM_cons] at h
    rcases Step.Run.of_bind h with ⟨naps₁, w₁, o, naps', rfl, h₁, h'⟩ | ⟨e, h₁, -⟩
    · rcases Step.Run.of_bind h' with ⟨naps₂, w₂, os, naps₃, rfl, h₂, h₃⟩ | ⟨e, h₂, -⟩
      · obtain ⟨rfl, rfl, rfl⟩ := (Step.Run.of_done_eq rfl).1 h₃
        obtain ⟨os', hos, hrun⟩ := placeRungs_run c side units tag rest h₂
        cases hos
        obtain ⟨o', ho, hrung⟩ := placeRung_run h₁
        cases ho
        rw [List.append_nil]
        rcases hrung with hok | ⟨e, herr, rfl⟩
        · exact ⟨_, rfl, .placed hok hrun⟩
        · exact ⟨_, rfl, .failed herr hrun⟩
      · obtain ⟨_, hos, -⟩ := placeRungs_run c side units tag rest h₂
        cases hos
    · obtain ⟨_, ho, -⟩ := placeRung_run h₁
      cases ho

theorem ladderPlan_reads (c : Scope) (p : Params) : Reads (ladderPlan c p) := by
  unfold ladderPlan
  refine Fixes.bind (Fixes.lift _) fun _ => Fixes.bind (Fixes.lift _) fun _ => ?_
  refine Fixes.bind (positionToAmount_reads _ _ _ _ _) fun _ => ?_
  dsimp only
  split
  · exact Fixes.pure _
  refine Fixes.bind (absolutePrice_reads _ _ _ _ _) fun _ => ?_
  refine Fixes.bind (absolutePrice_reads _ _ _ _ _) fun _ => ?_
  refine Fixes.bind (ladderTotal_reads _ _ _ _ _ _ _ _) fun _ => ?_
  split
  · exact Fixes.pure _
  · exact Fixes.pure _

theorem yields_lift {α : Type} {r : Except Fault α} {x : α} (h : Yields (lift r) x) :
    r = .ok x := by
  obtain ⟨w, s, h⟩ := h
  cases h
  rfl

/-- What a worked-out ladder is made of: its count clamped from `orderCount`, its side and amount
resolved from the side named, non-zero, its ends resolved from `from` and `to` and put nearest the
market first, and its total, non-zero, funded for those ends. -/
structure LadderPlan.Sound (c : Scope) (p : Params) (l : LadderPlan) : Prop where
  count : Amount.clampedCount (p.get "orderCount") 2 100 10 = .ok l.count
  side : ∃ s, Side.read (p.get "side") = .ok s ∧
    Yields (positionToAmount c.desk c.symbol (p.get "position") s (p.get "amount"))
      (l.side, l.amount)
  amount : (l.amount.value == 0.0) = false
  ends : ∃ a b, Yields (absolutePrice c.desk c.symbol l.side (p.get "from") c.session) a ∧
    Yields (absolutePrice c.desk c.symbol l.side (p.get "to") c.session) b ∧
    (l.start, l.stop) = nearestFirst l.side a b
  total : Yields
    (ladderTotal c.desk c.symbol l.side l.amount l.count l.start l.stop (p.get "easing"))
    l.total
  funded : (l.total == 0.0) = false

def ZeroAmount (c : Scope) (p : Params) : Prop :=
  ∃ s side amount, Side.read (p.get "side") = .ok s ∧
    Yields (positionToAmount c.desk c.symbol (p.get "position") s (p.get "amount")) (side, amount) ∧
    (amount.value == 0.0) = true

/-- Nothing to place: the amount resolved to zero, or the wallet funds no total for the count
clamped from `orderCount`, the side and amount resolved from the side named, and the ends resolved
from `from` and `to` and put nearest the market first. -/
def NothingToPlace (c : Scope) (p : Params) : Prop :=
  ZeroAmount c p ∨
  ∃ count s side amount a b total, Amount.clampedCount (p.get "orderCount") 2 100 10 = .ok count ∧
    Side.read (p.get "side") = .ok s ∧
    Yields (positionToAmount c.desk c.symbol (p.get "position") s (p.get "amount")) (side, amount) ∧
    Yields (absolutePrice c.desk c.symbol side (p.get "from") c.session) a ∧
    Yields (absolutePrice c.desk c.symbol side (p.get "to") c.session) b ∧
    Yields (ladderTotal c.desk c.symbol side amount count (nearestFirst side a b).1
      (nearestFirst side a b).2 (p.get "easing")) total ∧
    (total == 0.0) = true

def Planned (c : Scope) (p : Params) : Option LadderPlan → Prop
  | some l => l.Sound c p
  | none => NothingToPlace c p

theorem ladderPlan_planned (c : Scope) (p : Params) : Ensures (Planned c p) (ladderPlan c p) := by
  unfold ladderPlan
  refine (Ensures.self _).bind fun count hcount => ?_
  refine (Ensures.self _).bind fun s hs => ?_
  refine (Ensures.self _).bind fun ⟨side, amount⟩ hx => ?_
  dsimp only
  split
  · next hz => exact Ensures.pure (.inl ⟨s, side, amount, yields_lift hs, hx, hz⟩)
  next hz =>
  refine (Ensures.self _).bind fun a ha => (Ensures.self _).bind fun b hb => ?_
  refine (Ensures.self _).bind fun total htotal => ?_
  split
  · next hf =>
    exact Ensures.pure (.inr ⟨count, s, side, amount, a, b, total, yields_lift hcount,
      yields_lift hs, hx, ha, hb, htotal, hf⟩)
  next hf =>
  exact Ensures.pure ⟨yields_lift hcount, ⟨s, yields_lift hs, hx⟩, by simpa using hz,
    ⟨a, b, ha, hb, rfl⟩, htotal, by simpa using hf⟩

namespace LadderPlan.Sound

variable {c : Scope} {p : Params} {l : LadderPlan}

theorem count_mem (hl : l.Sound c p) : 2 ≤ l.count ∧ l.count ≤ 100 :=
  ⟨Amount.le_clampedCount hl.count, Amount.clampedCount_le (by decide) hl.count⟩

theorem nearest (hl : l.Sound c p) :
    (l.side = .buy → ¬ l.start < l.stop) ∧ (l.side = .sell → ¬ l.stop < l.start) := by
  obtain ⟨a, b, -, -, hab⟩ := hl.ends
  have hstart : l.start = (nearestFirst l.side a b).1 := by rw [← hab]
  have hstop : l.stop = (nearestFirst l.side a b).2 := by rw [← hab]
  refine ⟨fun hs => ?_, fun hs => ?_⟩
  · rw [hstart, hstop, hs]
    exact nearestFirst_buy a b
  · rw [hstart, hstop, hs]
    exact nearestFirst_sell a b

theorem rungs_length (hl : l.Sound c p) {w : World} {rungs : List (Float × Float)}
    (h : l.rungs c p w = .ok rungs) : rungs.length = l.count.toNat := by
  unfold LadderPlan.rungs at h
  cases ha : Ladder.amounts l.count l.total (Amount.percentage (p.get "varyAmount"))
      (w.desks.getD c.desk default).market.precision w.randoms with
  | error e =>
    rw [ha] at h
    cases h
  | ok amounts =>
    rw [ha] at h
    cases h
    have h2 := hl.count_mem.1
    rw [List.length_zip, Ladder.prices_length, Ladder.amounts_length (by omega) ha, min_self]

end LadderPlan.Sound

/-- How a run of a ladder from `w` goes, with its naps, the world it ends in and its outcome: the
plan fails; or it finds nothing to place; or it gives a sound plan whose rungs, drawn in the world
the plan ended in, cannot be drawn; or they are drawn, one per order, and placed one by one. -/
inductive Laddered (c : Scope) (p : Params) (w : World) :
    List (Nap World) → World → Except Fault (List (PlacedOrder String)) → Prop
  | refused {naps : List (Nap World)} {s : World} {e : Fault} :
      Step.Run (ladderPlan c p w) naps s (.error e) → Laddered c p w naps s (.error e)
  | nothing {naps : List (Nap World)} {s : World} :
      Step.Run (ladderPlan c p w) naps s (.ok none) → NothingToPlace c p →
      Laddered c p w naps s (.ok [])
  | undrawn {naps : List (Nap World)} {s : World} {l : LadderPlan} {e : Fault} :
      Step.Run (ladderPlan c p w) naps s (.ok (some l)) → l.Sound c p →
      l.rungs c p s = .error e → Laddered c p w naps s (.error e)
  | placed {naps₁ naps₂ : List (Nap World)} {w₁ s : World} {l : LadderPlan}
      {rungs : List (Float × Float)} {os : List (PlacedOrder String)} :
      Step.Run (ladderPlan c p w) naps₁ w₁ (.ok (some l)) → l.Sound c p →
      l.rungs c p w₁ = .ok rungs → rungs.length = l.count.toNat →
      LadderRun c l.side l.amount.units (p.get "tag") rungs w₁ naps₂ s os →
      Laddered c p w (naps₁ ++ naps₂) s (.ok os)

theorem placeScaled_run {c : Scope} {p : Params} {w s : World} {naps : List (Nap World)}
    {r : Except Fault (List (PlacedOrder String))} (h : Step.Run (placeScaled c p w) naps s r) :
    Laddered c p w naps s r := by
  rw [placeScaled_eq] at h
  rcases Step.Run.of_bind h with ⟨naps₁, w₁, plan?, naps₂, rfl, h₁, h₂⟩ | ⟨e, h₁, rfl⟩
  · have hplanned := (ladderPlan_planned c p).run h₁
    cases plan? with
    | none =>
      obtain ⟨rfl, rfl, rfl⟩ := (Step.Run.of_done_eq rfl).1 h₂
      rw [List.append_nil]
      exact .nothing h₁ hplanned
    | some l =>
      -- the rungs are drawn in the world the plan ended in
      simp only [get_bind] at h₂
      cases hr : l.rungs c p w₁ with
      | error e =>
        rw [hr] at h₂
        obtain ⟨rfl, rfl, rfl⟩ := (Step.Run.of_done_eq rfl).1 h₂
        rw [List.append_nil]
        exact .undrawn h₁ hplanned hr
      | ok rungs =>
        rw [hr] at h₂
        obtain ⟨os, rfl, hrun⟩ := placeRungs_run c _ _ _ rungs h₂
        exact .placed h₁ hplanned hr (hplanned.rungs_length hr) hrun
  · exact .refused h₁

theorem empty_ladder_laddered :
    ∃ s, Step.Run (placeScaled ⟨0, "BTCUSD", "s1"⟩ (Params.assign scaledDefaults []) {}) [] s
        (.ok []) ∧
      Laddered ⟨0, "BTCUSD", "s1"⟩ (Params.assign scaledDefaults []) {} [] s (.ok []) := by
  obtain ⟨s, hs⟩ : ∃ s, placeScaled ⟨0, "BTCUSD", "s1"⟩ (Params.assign scaledDefaults []) {} =
      .done s (.ok []) := by
    obtain ⟨s, r, heq, key⟩ := Step.eq_done_of_doneWith
      (show (placeScaled ⟨0, "BTCUSD", "s1"⟩ (Params.assign scaledDefaults []) {}).doneWith
        (fun _ r => r.toOption.any List.isEmpty) = true by decide +kernel)
    cases r with
    | error e => simp [Except.toOption] at key
    | ok l =>
      simp only [Except.toOption, Option.any_some, List.isEmpty_iff] at key
      subst key
      exact ⟨s, heq⟩
  exact ⟨s, Step.Run.of_eq_done hs, placeScaled_run (Step.Run.of_eq_done hs)⟩

theorem ladderPlan_quiet {c : Scope} {p : Params} {w s : World} {naps : List (Nap World)}
    {plan : Except Fault (Option LadderPlan)} (h : Step.Run (ladderPlan c p w) naps s plan) :
    Quiet World.holdings (World.holdings w) naps s :=
  (ladderPlan_reads c p).holdings.quiet h

/-- An end of a ladder given as an absolute price longer than the decimal context holds cannot be
rounded to four places: a sell ladder of 0.1 over two orders from `@1e30` fails before any
rung, though its amount and its total are not zero. -/
theorem ladder_end_past_decimal_context :
    ∃ s, placeScaled ⟨0, "BTCUSD", "s1"⟩
        (Params.assign scaledDefaults [⟨"side", "sell", 0⟩, ⟨"amount", "0.1", 1⟩,
          ⟨"orderCount", "2", 2⟩, ⟨"from", "@1000000000000000000000000000000", 3⟩])
        { desks := #[Desk.assemble "paper" [] Paper.Market.spotDefault default 0.001 {}] } =
      .done s (.error .invalidDecimal) := by
  have key : (match placeScaled ⟨0, "BTCUSD", "s1"⟩
      (Params.assign scaledDefaults [⟨"side", "sell", 0⟩, ⟨"amount", "0.1", 1⟩,
        ⟨"orderCount", "2", 2⟩, ⟨"from", "@1000000000000000000000000000000", 3⟩])
      { desks := #[Desk.assemble "paper" [] Paper.Market.spotDefault default 0.001 {}] } with
      | .done _ (.error .invalidDecimal) => true
      | _ => false) = true := by decide +kernel
  split at key
  · next s heq => exact ⟨s, heq⟩
  · cases key

end Handler

end TradeDesk
