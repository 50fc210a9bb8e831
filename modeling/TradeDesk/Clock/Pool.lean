import TradeDesk.Clock.Job
import TradeDesk.Binary64.Order

/-!
A pool of jobs on one state and one clock. Sleepers wake one at a time, by wake time and then in
the order they fell asleep, and all driving is bounded by a budget of wakes.
-/

namespace TradeDesk

/-- A state that holds a clock. -/
class Clocked (σ : Type) where
  now : σ → Float
  setNow : σ → Float → σ

/-- A sleeping job: when it wakes, its number and what it does then. -/
structure Sleeper (σ ε α : Type) where
  wake : Float
  job : Nat
  resume : σ → Step σ ε α

/-- The jobs of a pool: the sleepers in waking order, the outcome of every job by number (none
while it runs) and the wakes so far. -/
structure Pool (σ ε α : Type) where
  sleepers : List (Sleeper σ ε α) := []
  outcomes : Array (Option (Except ε α)) := #[]
  wakes : Nat := 0

namespace Pool

variable {σ ε α : Type}

/-- Puts a sleeper after every sleeper that wakes no later. -/
def enqueue (x : Sleeper σ ε α) : List (Sleeper σ ε α) → List (Sleeper σ ε α)
  | [] => [x]
  | y :: ys => if x.wake < y.wake then x :: y :: ys else y :: enqueue x ys

def record (p : Pool σ ε α) (job : Nat) : Step σ ε α → σ × Pool σ ε α
  | .done s r => (s, { p with outcomes := p.outcomes.setIfInBounds job (some r) })
  | .asleep s w k => (s, { p with sleepers := enqueue ⟨w, job, k⟩ p.sleepers })

/-- Starts a job under the next number and runs it until it first sleeps or finishes. -/
def spawn (p : Pool σ ε α) (s : σ) (job : Job σ ε α) : σ × Pool σ ε α × Nat :=
  let n := p.outcomes.size
  let r := record { p with outcomes := p.outcomes.push none } n (job s)
  (r.1, r.2, n)

def finished (p : Pool σ ε α) (job : Nat) : Bool := (p.outcomes.getD job none).isSome

def outcome? (p : Pool σ ε α) (job : Nat) : Option (Except ε α) := p.outcomes.getD job none

theorem spawn_number (p : Pool σ ε α) (s : σ) (job : Job σ ε α) :
    (p.spawn s job).2.2 = p.outcomes.size := rfl

theorem outcome?_record_done (p : Pool σ ε α) (job : Nat) (s : σ) (r : Except ε α)
    (h : job < p.outcomes.size) : (p.record job (.done s r)).2.outcome? job = some r := by
  simp [record, outcome?, Array.getD_eq_getD_getElem?, h]

theorem record_wakes (p : Pool σ ε α) (job : Nat) (st : Step σ ε α) :
    (p.record job st).2.wakes = p.wakes := by
  cases st <;> rfl

variable [Clocked σ]

/-- Wakes the first sleeper and runs it until it sleeps again or finishes; nothing when no job
sleeps. -/
def wakeNext (p : Pool σ ε α) (s : σ) : Option (σ × Pool σ ε α) :=
  match p.sleepers with
  | [] => none
  | x :: rest =>
    let s := Clocked.setNow s (Binary64.atLeast (Clocked.now s) x.wake)
    some (record { p with sleepers := rest, wakes := p.wakes + 1 } x.job (x.resume s))

theorem wakeNext_eq_some {p : Pool σ ε α} {s : σ} {next : σ × Pool σ ε α}
    (h : wakeNext p s = some next) :
    ∃ x rest now, p.sleepers = x :: rest ∧
      next = record { p with sleepers := rest, wakes := p.wakes + 1 } x.job
        (x.resume (Clocked.setNow s now)) := by
  unfold wakeNext at h
  split at h
  · cases h
  · next x rest hs =>
    cases h
    exact ⟨x, rest, _, hs, rfl⟩

/-- Wakes sleepers while `pending` holds, for at most `budget` wakes. -/
def driveWhile (pending : Pool σ ε α → Bool) : Nat → σ → Pool σ ε α → σ × Pool σ ε α
  | 0, s, p => (s, p)
  | budget + 1, s, p =>
    if pending p then
      match wakeNext p s with
      | some (s', p') => driveWhile pending budget s' p'
      | none => (s, p)
    else (s, p)

/-- What holds of a state and its pool, and is kept by waking the next sleeper, holds after
driving them. -/
theorem driveWhile_induct {P : σ → Pool σ ε α → Prop}
    (hwake : ∀ s p next, P s p → wakeNext p s = some next → P next.1 next.2)
    (pending : Pool σ ε α → Bool) (budget : Nat) {s : σ} {p : Pool σ ε α} (h : P s p) :
    P (driveWhile pending budget s p).1 (driveWhile pending budget s p).2 := by
  induction budget generalizing s p with
  | zero => exact h
  | succ budget ih =>
    unfold driveWhile
    split
    · split
      · next s' p' hn => exact ih (hwake s p _ h hn)
      · exact h
    · exact h

/-- Wakes, in order, every sleeper due by `target`, for at most `budget` wakes, then sets the
clock to `target`. -/
def advanceTo (target : Float) : Nat → σ → Pool σ ε α → σ × Pool σ ε α
  | 0, s, p => (Clocked.setNow s target, p)
  | budget + 1, s, p =>
    match p.sleepers with
    | x :: _ =>
      if x.wake ≤ target then
        match wakeNext p s with
        | some (s', p') => advanceTo target budget s' p'
        | none => (Clocked.setNow s target, p)
      else (Clocked.setNow s target, p)
    | [] => (Clocked.setNow s target, p)

end Pool

end TradeDesk
