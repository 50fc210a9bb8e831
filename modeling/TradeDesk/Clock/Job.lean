/-!
Jobs: computations over a state that may fail and may sleep until a time on a shared clock. A
job is a total function to a `Step`, and binding, catching and clean-up recurse through the sleeps.
-/

namespace TradeDesk

/-- Where a job run from a state has got to: finished, or asleep until `wake`. -/
inductive Step (σ ε α : Type) where
  | done (s : σ) (r : Except ε α)
  | asleep (s : σ) (wake : Float) (resume : σ → Step σ ε α)

def Job (σ ε α : Type) : Type := σ → Step σ ε α

namespace Step

variable {σ ε α β : Type}

def bind (k : α → Job σ ε β) : Step σ ε α → Step σ ε β
  | done s (.ok a) => k a s
  | done s (.error e) => done s (.error e)
  | asleep s w r => asleep s w fun s' => bind k (r s')

def handle (h : ε → Job σ ε α) : Step σ ε α → Step σ ε α
  | done s (.error e) => h e s
  | done s (.ok a) => done s (.ok a)
  | asleep s w r => asleep s w fun s' => handle h (r s')

/-- Runs a clean-up job once a step has finished, whatever its outcome; the outcome is kept
unless the clean-up itself fails. -/
def andFinally (cleanup : Job σ ε Unit) : Step σ ε α → Step σ ε α
  | done s r => (cleanup s).bind fun _ s' => done s' r
  | asleep s w r => asleep s w fun s' => andFinally cleanup (r s')

def attempt {ε' : Type} : Step σ ε α → Step σ ε' (Except ε α)
  | done s r => done s (.ok r)
  | asleep s w r => asleep s w fun s' => attempt (r s')

end Step

namespace Job

variable {σ ε α β : Type}

def finish (a : α) : Job σ ε α := fun s => .done s (.ok a)

def fail (e : ε) : Job σ ε α := fun s => .done s (.error e)

instance : Monad (Job σ ε) where
  pure := finish
  bind x k := fun s => (x s).bind k

instance : MonadExceptOf ε (Job σ ε) where
  throw := fail
  tryCatch x h := fun s => (x s).handle h

instance : MonadStateOf σ (Job σ ε) where
  get := fun s => .done s (.ok s)
  set s := fun _ => .done s (.ok ())
  modifyGet f := fun s => .done (f s).2 (.ok (f s).1)

def ofExcept (r : Except ε α) : Job σ ε α := fun s => .done s r

def sleepUntil (wake : Float) : Job σ ε Unit := fun s => .asleep s wake (finish ())

def andFinally (x : Job σ ε α) (cleanup : Job σ ε Unit) : Job σ ε α :=
  fun s => (x s).andFinally cleanup

def attempt {ε' : Type} (x : Job σ ε α) : Job σ ε' (Except ε α) := fun s => (x s).attempt

theorem bind_finish (a : α) (k : α → Job σ ε β) (s : σ) :
    (finish a >>= k : Job σ ε β) s = k a s := rfl

theorem fail_bind (e : ε) (k : α → Job σ ε β) (s : σ) :
    (fail e >>= k : Job σ ε β) s = .done s (.error e) := rfl

end Job

end TradeDesk
