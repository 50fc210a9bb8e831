import TradeDesk.Proofs.FloatOrder
import TradeDesk.Proofs.CancelScopes

/-!
Spacing of exchange calls: the limiter sees reservations one at a time, and each slot is at least
the previous one plus the interval, taken in floats (`RateLimiter.Sound.slots`).
-/

namespace TradeDesk.Binary64

open Float.Model Float.Model.UnpackedFloat

theorem round_isNaN (s : Sign) (m : Nat) (e : Int) :
    (UnpackedFloat.round .binary64 s m e).isNaN = false := by
  simp only [UnpackedFloat.round, UnpackedFloat.roundWithAccuracy]
  split <;> rfl

theorem normalize_isNaN (m e : Int) (s : Sign) :
    (UnpackedFloat.normalize .binary64 m e s).isNaN = false := by
  unfold UnpackedFloat.normalize
  split
  · exact round_isNaN _ _ _
  · rfl
  · exact round_isNaN _ _ _

theorem unpack_pack_isNaN {u : UnpackedFloat} (hu : u.isNaN = false) :
    (Float.Model.pack u).unpack.isNaN = false := by
  rw [Bool.eq_false_iff]
  intro h
  have hnan := (isNaN_unpack_iff_of_valid valid_pack).1 h
  -- the NaN word has all exponent bits set and a nonzero mantissa; no other value packs to it
  cases u with
  | notANumber => cases hu
  | infinity s =>
    have hman := congrArg unpackMantissa hnan
    simp [UnpackedFloat.pack, packedInfinity, packedNaN] at hman
  | zero s =>
    have hexp := congrArg unpackExponent hnan
    simp [UnpackedFloat.pack, packedZero, packedNaN] at hexp
  | finite s m e hm =>
    unfold UnpackedFloat.pack at hnan
    simp only at hnan
    split at hnan
    · have hman := congrArg unpackMantissa hnan
      simp [packedInfinity, packedNaN] at hman
    · next hfit =>
      split at hnan
      · have hexp := congrArg BitVec.toNat (congrArg unpackExponent hnan)
        simp only [packedNaN, unpackExponent_packComponents, BitVec.toNat_ofNat] at hexp
        change ¬ 2048 ≤ (e + 1023 + 52).toNat + 1 at hfit
        change (e + 1023 + 52).toNat % 2048 = 2047 at hexp
        omega
      · have hexp := congrArg unpackExponent hnan
        simp [packedNaN] at hexp

theorem unpacked_add_isNaN {x y : UnpackedFloat} (hx : x.isNaN = false) (hy : y.isNaN = false)
    (hx' : x ≠ .infinity .negative) (hy' : y ≠ .infinity .negative) :
    (UnpackedFloat.add .binary64 x y).isNaN = false := by
  rcases x with ⟨_ | _⟩ | _ | ⟨_ | _⟩ | ⟨_ | _, m, e, hm⟩ <;>
  rcases y with ⟨_ | _⟩ | _ | ⟨_ | _⟩ | ⟨_ | _, m', e', hm'⟩ <;>
  first
  | exact normalize_isNaN _ _ _
  | rfl
  | simp_all [UnpackedFloat.isNaN]

theorem unpack_of_nonneg {x : Float} (h : 0.0 ≤ x) :
    x.toModel.unpack.isNaN = false ∧ x.toModel.unpack ≠ .infinity .negative := by
  have hle := le_iff_unpack.1 h
  rw [unpack_zero] at hle
  refine ⟨(unpacked_le_isNaN hle).2, fun hinf => ?_⟩
  rw [hinf] at hle
  cases hle

/-- The sum of two floats at least zero is a number. -/
theorem add_isNaN_of_nonneg {x y : Float} (hx : 0.0 ≤ x) (hy : 0.0 ≤ y) :
    (x + y).isNaN = false := by
  obtain ⟨hx₁, hx₂⟩ := unpack_of_nonneg hx
  obtain ⟨hy₁, hy₂⟩ := unpack_of_nonneg hy
  exact unpack_pack_isNaN (unpacked_add_isNaN hx₁ hy₁ hx₂ hy₂)

end TradeDesk.Binary64

namespace TradeDesk

namespace RateLimiter

/-- The slots a limiter gives callers arriving at `nows`, one reservation after another. -/
def slots (r : RateLimiter) : List Float → List Float
  | [] => []
  | now :: nows => (r.reserve now).1 :: (r.reserve now).2.slots nows

/-- A limiter whose interval is at least zero and whose next slot is a number. -/
structure Sound (r : RateLimiter) : Prop where
  interval : 0.0 ≤ r.minInterval
  next : r.nextCallAt.isNaN = false

variable {r : RateLimiter} {now : Float}

theorem Sound.reserve (h : r.Sound) (hnow : 0.0 ≤ now) :
    now ≤ (r.reserve now).1 ∧ r.nextCallAt ≤ (r.reserve now).1 ∧ (r.reserve now).2.Sound := by
  have hn : now.isNaN = false := (Float.isNaN_of_le hnow).2
  have harrive : now ≤ (r.reserve now).1 := Binary64.le_atLeast_left hn
  refine ⟨harrive, Binary64.le_atLeast_right hn h.next, h.interval, ?_⟩
  -- the next slot is this slot, at least zero, plus the interval
  exact Binary64.add_isNaN_of_nonneg (Float.le_trans hnow harrive) h.interval

/-- Over arrivals at least zero, each slot is no earlier than its arrival, the first no earlier
than the limiter's next slot, and each later one no earlier than the slot before it plus the
interval. -/
theorem Sound.slots {nows : List Float} (h : r.Sound) (hnows : ∀ now ∈ nows, 0.0 ≤ now) :
    List.Forall₂ (· ≤ ·) nows (r.slots nows) ∧ (∀ c ∈ (r.slots nows).head?, r.nextCallAt ≤ c) ∧
      (r.slots nows).IsChain (fun a b => a + r.minInterval ≤ b) := by
  induction nows generalizing r with
  | nil => exact ⟨.nil, by simp [RateLimiter.slots], .nil⟩
  | cons now nows ih =>
    obtain ⟨harrive, hnext, hsound⟩ := h.reserve (hnows now List.mem_cons_self)
    obtain ⟨hall, hhead, hchain⟩ := ih hsound fun t ht => hnows t (List.mem_cons_of_mem _ ht)
    refine ⟨.cons harrive hall, by simpa [RateLimiter.slots] using hnext, ?_⟩
    -- the next reservation starts from this slot plus the interval
    simp only [RateLimiter.slots]
    cases hs : (r.reserve now).2.slots nows with
    | nil => exact .singleton _
    | cons c cs =>
      rw [hs] at hhead hchain
      exact List.isChain_cons_cons.2 ⟨hhead c rfl, hchain⟩

theorem slots_recurrence (r : RateLimiter) (nows : List Float) :
    (nows.zip (r.slots nows)).IsChain fun p q => q.2 = Binary64.atLeast q.1 (p.2 + r.minInterval) := by
  induction nows generalizing r with
  | nil => exact .nil
  | cons now nows ih =>
    cases nows with
    | nil => exact .singleton _
    | cons now' rest =>
      -- the second reservation is made by the limiter the first one left
      refine List.isChain_cons_cons.2 ⟨rfl, ?_⟩
      exact ih (r.reserve now).2

end RateLimiter

namespace Act

/-- On an open exchange the gate of a call reserves the caller's slot and stores the advanced
limiter in the step it starts in, and only then sleeps: exactly when the slot lies ahead of the
arrival, for the slot less the arrival. -/
theorem call_reserves {i : Nat} {w : World} (hc : ¬ Closed i w) :
    call i w =
      let r := (w.desks.getD i default).market.limiter.reserve w.now
      let w' : World := { w with desks := w.desks.modify i fun d =>
        { d with market := { d.market with limiter := r.2 } } }
      if w.now < r.1 then .asleep w' (w.now + Binary64.atLeast 0.0 (r.1 - w.now)) (Job.finish ())
      else .done w' (.ok ()) := by
  unfold call
  rw [desk_bind, if_neg (show ¬ (w.desks.getD i default).market.closed = true from hc)]
  dsimp only
  rw [now_bind]
  split <;> rfl

end Act

/-- Callers of an exchange reserve their slots one at a time. On an open exchange the gate of a
call reserves from the limiter as it finds it and stores the advanced limiter in the step it starts
in, before it sleeps; it sleeps exactly when its slot lies ahead of its arrival, for the slot less
the arrival. In reservation order each slot is the later of its caller's arrival and the previous
slot plus the interval, the limiter's next slot standing in for the first. Over arrivals at least
zero and an interval at least zero, no slot precedes its arrival, the first is no earlier than the
limiter's next slot, and each later one is no earlier than the slot before it plus the interval,
that sum taken in floats. -/
theorem reservations_spaced (i : Nat) (w : World) (r : RateLimiter) (nows : List Float)
    (hc : ¬ Act.Closed i w) (hr : r.Sound) (hnows : ∀ now ∈ nows, 0.0 ≤ now) :
    Act.call i w =
        (let r := (w.desks.getD i default).market.limiter.reserve w.now
        let w' : World := { w with desks := w.desks.modify i fun d =>
          { d with market := { d.market with limiter := r.2 } } }
        if w.now < r.1 then .asleep w' (w.now + Binary64.atLeast 0.0 (r.1 - w.now)) (Job.finish ())
        else .done w' (.ok ())) ∧
      (∀ c ∈ (r.slots nows).head?, ∀ now ∈ nows.head?, c = Binary64.atLeast now r.nextCallAt) ∧
      (nows.zip (r.slots nows)).IsChain
        (fun p q => q.2 = Binary64.atLeast q.1 (p.2 + r.minInterval)) ∧
      List.Forall₂ (· ≤ ·) nows (r.slots nows) ∧ (∀ c ∈ (r.slots nows).head?, r.nextCallAt ≤ c) ∧
      (r.slots nows).IsChain (fun a b => a + r.minInterval ≤ b) := by
  have hfirst : ∀ c ∈ (r.slots nows).head?, ∀ now ∈ nows.head?,
      c = Binary64.atLeast now r.nextCallAt := by
    cases nows with
    | nil => simp [RateLimiter.slots]
    | cons now rest =>
      intro c hc n hn
      simp only [RateLimiter.slots, List.head?_cons, Option.mem_def, Option.some.injEq] at hc hn
      rw [← hc, ← hn]
      rfl
  exact ⟨Act.call_reserves hc, hfirst, RateLimiter.slots_recurrence r nows, hr.slots hnows⟩

def gateWorld : World :=
  { desks := #[Desk.assemble "paper" [] Paper.Market.spotDefault default 0.001 {}] }

theorem half_second_slots_spaced :
    ¬ Act.Closed 0 gateWorld ∧ (⟨0.5, 0.0⟩ : RateLimiter).Sound ∧
      (∀ now ∈ [(1.0 : Float), 1.0], 0.0 ≤ now) ∧
      ((⟨0.5, 0.0⟩ : RateLimiter).slots [1.0, 1.0]).IsChain (fun a b => a + 0.5 ≤ b) := by
  have hopen : ¬ Act.Closed 0 gateWorld := by
    unfold Act.Closed
    decide +kernel
  have hsound : (⟨0.5, 0.0⟩ : RateLimiter).Sound := ⟨by decide +kernel, by decide +kernel⟩
  have hnows : ∀ now ∈ [(1.0 : Float), 1.0], 0.0 ≤ now := by decide +kernel
  exact ⟨hopen, hsound, hnows,
    (reservations_spaced 0 gateWorld _ _ hopen hsound hnows).2.2.2.2.2⟩

/-- At an interval below the spacing of floats at one second, two callers arriving at one second
share their slot: the second slot is the first, not an interval later. -/
theorem slots_absorb_interval :
    (0.0 : Float) < 1e-16 ∧ (⟨1e-16, 0.0⟩ : RateLimiter).slots [1.0, 1.0] = [1.0, 1.0] := by
  decide +kernel

end TradeDesk
