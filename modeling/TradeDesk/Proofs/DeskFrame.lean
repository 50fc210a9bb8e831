import TradeDesk.Simulation.Inbox
import TradeDesk.Proofs.Standing

/-!
Commands leave the desks' lifecycle alone, through every sleep: no command touches which desks are
open, their exchanges, credentials, users or closed markets (`Act.keeps_runSequence`).
-/

namespace TradeDesk

/-- A step leaves the lifecycle as it found it: when it ends and whenever it falls asleep; woken
in any world, it goes on leaving that world's lifecycle alone. -/
def Step.Keeps {α : Type} : Lifecycle → Step World Fault α → Prop
  | l, .done s _ => s.lifecycle = l
  | l, .asleep s _ k => s.lifecycle = l ∧ ∀ s', Step.Keeps s'.lifecycle (k s')

/-- A job that leaves the lifecycle of every world it runs in alone. -/
structure Act.Keeps {α : Type} (a : Act α) : Prop where
  step : ∀ w, (a w).Keeps w.lifecycle

/-- Leaving the lifecycle alone is keeping the lifecycle as a view. -/
theorem Step.keeps_iff_fixes {α : Type} :
    ∀ {l : Lifecycle} {st : Step World Fault α}, st.Keeps l ↔ st.Fixes World.lifecycle l
  | _, .done _ _ => Iff.rfl
  | _, .asleep _ _ _ => Iff.and Iff.rfl (forall_congr' fun _ => keeps_iff_fixes)

theorem Act.keeps_iff_fixes {α : Type} {a : Act α} : Act.Keeps a ↔ Act.Fixes World.lifecycle a :=
  ⟨fun h => ⟨fun w => Step.keeps_iff_fixes.1 (h.step w)⟩,
    fun h => ⟨fun w => Step.keeps_iff_fixes.2 (h.step w)⟩⟩

theorem Act.Steady.keeps {α : Type} {a : Act α} (h : Act.Steady a) : Act.Keeps a :=
  Act.keeps_iff_fixes.2 (h.comp Prod.fst)

namespace Act.Keeps

variable {α β : Type}

theorem pure (x : α) : Act.Keeps (Pure.pure x : Act α) := ⟨fun _ => rfl⟩

theorem bind {a : Act α} {k : α → Act β} (ha : Act.Keeps a) (hk : ∀ x, Act.Keeps (k x)) :
    Act.Keeps (a >>= k) :=
  keeps_iff_fixes.2 ((keeps_iff_fixes.1 ha).bind fun x => keeps_iff_fixes.1 (hk x))

theorem map (f : α → β) {a : Act α} (ha : Act.Keeps a) : Act.Keeps (f <$> a) :=
  ha.bind fun x => pure (f x)

theorem attempt {a : Act α} (ha : Act.Keeps a) : Act.Keeps (Job.attempt a : Act (Except Fault α)) :=
  keeps_iff_fixes.2 (keeps_iff_fixes.1 ha).attempt

theorem ite {c : Prop} {_ : Decidable c} {t e : Act α} (ht : Act.Keeps t) (he : Act.Keeps e) :
    Act.Keeps (if c then t else e) := by
  split
  · exact ht
  · exact he

theorem mapM {f : α → Act β} (hf : ∀ x, Act.Keeps (f x)) (xs : List α) : Act.Keeps (xs.mapM f) :=
  keeps_iff_fixes.2 (Act.Fixes.mapM (fun x => keeps_iff_fixes.1 (hf x)) xs)

end Act.Keeps

theorem Handler.executeCommand_keeps (c : Scope) (name : String) (args : List Argument) :
    Act.Keeps (Handler.executeCommand c name args) :=
  (Handler.executeCommand_steady _ _ _).keeps

/-- A block's actions leave the desks' lifecycle alone, whatever the scheduler runs in between. -/
theorem Act.keeps_runSequence (c : Scope) (actions : String) :
    Act.Keeps (runSequence c actions) :=
  Act.Keeps.mapM (fun _ => Act.Keeps.bind (Act.Keeps.attempt (Handler.executeCommand_keeps _ _ _))
    fun _ => Act.Keeps.pure _) _

namespace Act

theorem newSession_keeps : Act.Keeps newSession := ⟨fun _ => rfl⟩

theorem sendAlert_keeps (message : String) : Act.Keeps (sendAlert message) := by
  unfold sendAlert
  dsimp only
  exact Keeps.ite (Keeps.pure _) (Keeps.bind (notify_trades _ _ _).steady.keeps fun _ => Keeps.pure _)

end Act

end TradeDesk
