import TradeDesk.Proofs.Runs
import TradeDesk.Simulation.Inbox

/-!
Command sequences: the actions of a block run one after another, each keeping its value or fault
as its outcome, under a fresh session (`commandSequence_outcomes`).
-/

namespace TradeDesk

/-- The actions of a sequence run one after another in scope `c`: each runs from the world the
one before it ended in, and its value or fault is kept with its name. -/
inductive SequenceRun (c : Scope) :
    List Action → World → List (Nap World) → World → List Outcome → Prop
  | nil (w : World) : SequenceRun c [] w [] w []
  | cons {a : Action} {rest : List Action} {w w₁ s : World} {naps₁ naps₂ : List (Nap World)}
      {r : Except Fault Reply} {os : List Outcome} :
      Step.Run (Handler.executeCommand c a.name a.params w) naps₁ w₁ r →
      SequenceRun c rest w₁ naps₂ s os →
      SequenceRun c (a :: rest) w (naps₁ ++ naps₂) s (⟨a.name, r⟩ :: os)

namespace SequenceRun

variable {c : Scope} {actions : List Action} {w s : World} {naps : List (Nap World)}
  {os : List Outcome}

theorem names (h : SequenceRun c actions w naps s os) :
    os.map Outcome.name = actions.map Action.name := by
  induction h with
  | nil => rfl
  | cons _ _ ih => simp [ih]

end SequenceRun

theorem Step.Run.exists_run {σ ε α : Type} : ∀ st : Step σ ε α, ∃ naps s r, Step.Run st naps s r
  | .done s r => ⟨[], s, r, .done s r⟩
  | .asleep s _ k => by
    obtain ⟨naps, s', r, h⟩ := exists_run (k s)
    exact ⟨_, s', r, .asleep s h⟩

theorem Step.Run.attempt_iff {σ ε ε' α : Type} :
    ∀ {st : Step σ ε α} {naps : List (Nap σ)} {s : σ} {r : Except ε' (Except ε α)},
      Step.Run (st.attempt : Step σ ε' (Except ε α)) naps s r ↔
        ∃ r', r = .ok r' ∧ Step.Run st naps s r'
  | .done s₀ r₀, naps, s, r => by
    change Step.Run (.done s₀ (.ok r₀)) naps s r ↔ _
    simp only [done_iff]
    constructor
    · rintro ⟨rfl, rfl, rfl⟩
      exact ⟨r₀, rfl, rfl, rfl, rfl⟩
    · rintro ⟨r', rfl, rfl, rfl, rfl⟩
      exact ⟨rfl, rfl, rfl⟩
  | .asleep _ _ _, _, _, _ => by
    simp only [Step.attempt, asleep_iff]
    constructor
    · rintro ⟨x, rest, rfl, h⟩
      obtain ⟨r', rfl, h'⟩ := attempt_iff.mp h
      exact ⟨r', rfl, x, rest, rfl, h'⟩
    · rintro ⟨r', rfl, x, rest, rfl, h'⟩
      exact ⟨x, rest, rfl, attempt_iff.mpr ⟨r', rfl, h'⟩⟩

theorem outcome_run_iff (c : Scope) (a : Action) {w s : World} {naps : List (Nap World)}
    {r : Except Fault Outcome} :
    Step.Run ((do
        let r ← Job.attempt (Handler.executeCommand c a.name a.params)
        return (⟨a.name, r⟩ : Outcome)) w) naps s r ↔
      ∃ r', r = .ok ⟨a.name, r'⟩ ∧ Step.Run (Handler.executeCommand c a.name a.params w) naps s r' := by
  change Step.Run ((Handler.executeCommand c a.name a.params w).attempt.bind _) naps s r ↔ _
  rw [Step.Run.bind_iff]
  constructor
  · rintro (⟨naps₁, s₁, x, naps₂, rfl, h₁, h₂⟩ | ⟨e, h, -⟩)
    · obtain ⟨r', hx, h'⟩ := Step.Run.attempt_iff.mp h₁
      obtain rfl := Except.ok.inj hx
      obtain ⟨rfl, rfl, rfl⟩ := Step.Run.done_iff.mp h₂
      exact ⟨_, rfl, by simpa using h'⟩
    · obtain ⟨_, he, -⟩ := Step.Run.attempt_iff.mp h
      cases he
  · rintro ⟨r', rfl, h⟩
    exact .inl ⟨naps, s, r', [], by simp, Step.Run.attempt_iff.mpr ⟨r', rfl, h⟩, .done _ _⟩

/-- The runs of a sequence are the runs of its actions one after another, and end with their
outcomes: a failing action does not stop the rest, and the sequence itself never fails. -/
theorem runSequence_run_iff (c : Scope) (actions : String) {w s : World}
    {naps : List (Nap World)} {r : Except Fault (List Outcome)} :
    Step.Run (runSequence c actions w) naps s r ↔
      ∃ os, r = .ok os ∧ SequenceRun c (parseActions actions) w naps s os := by
  unfold runSequence
  generalize parseActions actions = as
  induction as generalizing w naps r with
  | nil =>
    change Step.Run (.done w (.ok [])) naps s r ↔ _
    rw [Step.Run.done_iff]
    constructor
    · rintro ⟨rfl, rfl, rfl⟩
      exact ⟨[], rfl, .nil _⟩
    · rintro ⟨os, rfl, h⟩
      cases h
      exact ⟨rfl, rfl, rfl⟩
  | cons a rest ih =>
    rw [List.mapM_cons]
    change Step.Run (Step.bind _ _) naps s r ↔ _
    rw [Step.Run.bind_iff]
    constructor
    · rintro (⟨naps₁, w₁, o, naps', rfl, h₁, h'⟩ | ⟨e, h₁, -⟩)
      · obtain ⟨r₁, ho, hcmd⟩ := (outcome_run_iff c a).mp h₁
        obtain rfl := Except.ok.inj ho
        change Step.Run (Step.bind _ _) naps' s r at h'
        rw [Step.Run.bind_iff] at h'
        rcases h' with ⟨naps₂, w₂, os, naps₃, rfl, h₂, h₃⟩ | ⟨e, h₂, -⟩
        · obtain ⟨rfl, rfl, rfl⟩ := Step.Run.done_iff.mp h₃
          obtain ⟨os', hos, hrun⟩ := ih.mp h₂
          cases hos
          exact ⟨_, rfl, by simpa using SequenceRun.cons hcmd hrun⟩
        · obtain ⟨_, he, -⟩ := ih.mp h₂
          cases he
      · obtain ⟨_, he, -⟩ := (outcome_run_iff c a).mp h₁
        cases he
    · rintro ⟨os, rfl, h⟩
      cases h with
      | @cons _ _ _ _ _ _ _ r os h₁ hrest =>
        have htail := Step.Run.bind_ok
          (k := fun l => (pure (⟨a.name, r⟩ :: l) : Act (List Outcome)))
          (ih.mpr ⟨os, rfl, hrest⟩) (.done _ _)
        rw [List.append_nil] at htail
        exact .inl ⟨_, _, _, _, rfl, (outcome_run_iff c a).mpr ⟨r, rfl, h₁⟩, htail⟩

namespace Act

theorem newSession_eq (w : World) :
    newSession w = .done { w with sessionCount := w.sessionCount + 1 }
      (.ok ("session-" ++ toString (w.sessionCount + 1))) := rfl

end Act

theorem session_name_injective {m n : Nat} (h : "session-" ++ toString m = "session-" ++ toString n) :
    m = n := by
  have hdigits : Nat.toDigits 10 m = Nat.toDigits 10 n := by
    have hl := congrArg String.toList h
    simpa [Nat.toString_eq_ofList_toDigits] using hl
  calc m = Nat.ofDigitChars 10 (Nat.toDigits 10 m) 0 := Nat.ofDigitChars_ten_toDigits.symm
    _ = Nat.ofDigitChars 10 (Nat.toDigits 10 n) 0 := by rw [hdigits]
    _ = n := Nat.ofDigitChars_ten_toDigits

theorem commandSequence_run_iff (i : Nat) (symbol actions : String) (w : World)
    (naps : List (Nap World)) (s : World) (r : Except Fault (List Outcome)) :
    Step.Run (Act.commandSequence i symbol actions w) naps s r ↔
      if Text.trim symbol = "" ∨ Text.trim actions = "" then naps = [] ∧ s = w ∧ r = .ok []
      else ∃ os, r = .ok os ∧ os.map Outcome.name = (parseActions actions).map Action.name ∧
        SequenceRun ⟨i, symbol, "session-" ++ toString (w.sessionCount + 1)⟩ (parseActions actions)
          { w with sessionCount := w.sessionCount + 1 } naps s os := by
  by_cases hb : Text.trim symbol = "" ∨ Text.trim actions = ""
  · have hj : Act.commandSequence i symbol actions w = .done w (.ok []) := by
      have : (Text.trim symbol == "" || Text.trim actions == "") = true := by simpa using hb
      simp only [Act.commandSequence, this, if_true]
      rfl
    rw [if_pos hb, Step.Run.of_done_eq hj]
  · have hj : Act.commandSequence i symbol actions w =
        runSequence ⟨i, symbol, "session-" ++ toString (w.sessionCount + 1)⟩ actions
          { w with sessionCount := w.sessionCount + 1 } := by
      have : (Text.trim symbol == "" || Text.trim actions == "") = false := by simpa using hb
      simp only [Act.commandSequence, this, Bool.false_eq_true, if_false]
      change (Act.newSession w).bind _ = _
      rw [Act.newSession_eq]
      rfl
    rw [if_neg hb, hj, runSequence_run_iff]
    constructor
    · rintro ⟨os, rfl, h⟩
      exact ⟨os, rfl, h.names, h⟩
    · rintro ⟨os, rfl, -, h⟩
      exact ⟨os, rfl, h⟩

/-- A block's command sequence. With a blank symbol or blank actions it returns no outcomes at
once, in the world it started in: nothing runs and no session is taken. Otherwise it takes the next
session, which no session taken before shares, and its runs are exactly the runs of the block's
actions, one after another in that session, each ending with the action's value or fault kept
under its name, whatever the actions before it did; so it always returns, one outcome per
action. -/
theorem commandSequence_outcomes (i : Nat) (symbol actions : String) (w : World) :
    (∃ naps s os, Step.Run (Act.commandSequence i symbol actions w) naps s (.ok os)) ∧
    (∀ k ≤ w.sessionCount, "session-" ++ toString (w.sessionCount + 1) ≠ "session-" ++ toString k) ∧
    ∀ naps s r, Step.Run (Act.commandSequence i symbol actions w) naps s r ↔
      if Text.trim symbol = "" ∨ Text.trim actions = "" then naps = [] ∧ s = w ∧ r = .ok []
      else ∃ os, r = .ok os ∧ os.map Outcome.name = (parseActions actions).map Action.name ∧
        SequenceRun ⟨i, symbol, "session-" ++ toString (w.sessionCount + 1)⟩ (parseActions actions)
          { w with sessionCount := w.sessionCount + 1 } naps s os := by
  refine ⟨?_, ?_, commandSequence_run_iff i symbol actions w⟩
  · -- every run ends with outcomes, and a run exists whatever worlds wake it
    obtain ⟨naps, s, r, h⟩ := Step.Run.exists_run (Act.commandSequence i symbol actions w)
    have h' := (commandSequence_run_iff i symbol actions w naps s r).mp h
    split at h'
    · exact ⟨naps, s, [], h'.2.2 ▸ h⟩
    · obtain ⟨os, rfl, -⟩ := h'
      exact ⟨naps, s, os, h⟩
  · intro k hk heq
    have := session_name_injective heq
    omega

end TradeDesk
