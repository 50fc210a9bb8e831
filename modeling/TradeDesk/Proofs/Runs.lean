import TradeDesk.Proofs.Outcomes

/-!
Runs of jobs, nap by nap: `Step.Run st naps s r` records the worlds a job was woken in, and a job
that keeps a view keeps it over every stretch of a run (`Act.Fixes.quiet`).
-/

namespace TradeDesk

/-- A nap of a job: the world it fell asleep in, the time it asked to be woken at, and the world
it was woken in. -/
structure Nap (σ : Type) where
  fell : σ
  wake : Float
  woke : σ

/-- A run of a step to its end: woken at each nap in the world the nap records, the step finishes
in `s` with the outcome `r`, having taken the naps listed, in order. -/
inductive Step.Run {σ ε α : Type} : Step σ ε α → List (Nap σ) → σ → Except ε α → Prop
  | done (s : σ) (r : Except ε α) : Step.Run (.done s r) [] s r
  | asleep {s : σ} {t : Float} {k : σ → Step σ ε α} (x : σ) {naps : List (Nap σ)} {s' : σ}
      {r : Except ε α} :
      Step.Run (k x) naps s' r → Step.Run (.asleep s t k) (⟨s, t, x⟩ :: naps) s' r

namespace Step.Run

variable {σ ε α β : Type}

@[simp] theorem done_iff {s s' : σ} {r r' : Except ε α} {naps : List (Nap σ)} :
    Step.Run (.done s r) naps s' r' ↔ naps = [] ∧ s' = s ∧ r' = r := by
  constructor
  · rintro ⟨⟩
    exact ⟨rfl, rfl, rfl⟩
  · rintro ⟨rfl, rfl, rfl⟩
    exact .done _ _

theorem asleep_iff {s : σ} {t : Float} {k : σ → Step σ ε α} {naps : List (Nap σ)} {s' : σ}
    {r : Except ε α} :
    Step.Run (.asleep s t k) naps s' r ↔
      ∃ x rest, naps = ⟨s, t, x⟩ :: rest ∧ Step.Run (k x) rest s' r := by
  constructor
  · rintro ⟨⟩
    exact ⟨_, _, rfl, ‹_›⟩
  · rintro ⟨x, rest, rfl, h⟩
    exact .asleep x h

/-- A run of a bound step is a run of the first step to a value followed by a run of the
continuation from where it ended, or a run of the first step to an error. -/
theorem of_bind {k : α → Job σ ε β} :
    ∀ {st : Step σ ε α} {naps : List (Nap σ)} {s : σ} {r : Except ε β},
      Step.Run (st.bind k) naps s r →
        (∃ naps₁ s₁ x naps₂, naps = naps₁ ++ naps₂ ∧ Step.Run st naps₁ s₁ (.ok x) ∧
          Step.Run (k x s₁) naps₂ s r) ∨
        (∃ e, Step.Run st naps s (.error e) ∧ r = .error e)
  | .done s₁ (.ok x), naps, _, _, h => .inl ⟨[], s₁, x, naps, rfl, .done _ _, h⟩
  | .done _ (.error e), _, _, _, h => by
    cases h
    exact .inr ⟨e, .done _ _, rfl⟩
  | .asleep _ _ _, _, _, _, h => by
    cases h with
    | asleep x h =>
      rcases of_bind h with ⟨naps₁, s₁, y, naps₂, rfl, h₁, h₂⟩ | ⟨e, h₁, rfl⟩
      · exact .inl ⟨_ :: naps₁, s₁, y, naps₂, rfl, .asleep x h₁, h₂⟩
      · exact .inr ⟨e, .asleep x h₁, rfl⟩

theorem bind_ok {k : α → Job σ ε β} {naps₂ : List (Nap σ)} {s : σ} {r : Except ε β} :
    ∀ {st : Step σ ε α} {naps₁ : List (Nap σ)} {s₁ : σ} {x : α},
      Step.Run st naps₁ s₁ (.ok x) → Step.Run (k x s₁) naps₂ s r →
        Step.Run (st.bind k) (naps₁ ++ naps₂) s r
  | .done _ _, _, _, _, h₁, h₂ => by
    cases h₁
    exact h₂
  | .asleep _ _ _, _, _, _, h₁, h₂ => by
    cases h₁ with
    | asleep y h₁ => exact .asleep y (bind_ok h₁ h₂)

theorem bind_error {k : α → Job σ ε β} :
    ∀ {st : Step σ ε α} {naps : List (Nap σ)} {s : σ} {e : ε},
      Step.Run st naps s (.error e) → Step.Run (st.bind k) naps s (.error e)
  | .done _ _, _, _, _, h => by
    cases h
    exact .done _ _
  | .asleep _ _ _, _, _, _, h => by
    cases h with
    | asleep y h => exact .asleep y (bind_error h)

theorem bind_iff {k : α → Job σ ε β} {st : Step σ ε α} {naps : List (Nap σ)} {s : σ}
    {r : Except ε β} :
    Step.Run (st.bind k) naps s r ↔
      (∃ naps₁ s₁ x naps₂, naps = naps₁ ++ naps₂ ∧ Step.Run st naps₁ s₁ (.ok x) ∧
        Step.Run (k x s₁) naps₂ s r) ∨
      (∃ e, Step.Run st naps s (.error e) ∧ r = .error e) := by
  constructor
  · exact of_bind
  · rintro (⟨naps₁, s₁, x, naps₂, rfl, h₁, h₂⟩ | ⟨e, h, rfl⟩)
    · exact bind_ok h₁ h₂
    · exact bind_error h

/-- A run of a step with a handler is a run of the step to a value, or a run of the step to an
error followed by a run of the handler from where it ended. -/
theorem of_handle {h : ε → Job σ ε α} :
    ∀ {st : Step σ ε α} {naps : List (Nap σ)} {s : σ} {r : Except ε α},
      Step.Run (st.handle h) naps s r →
        (∃ a, Step.Run st naps s (.ok a) ∧ r = .ok a) ∨
        (∃ naps₁ s₁ e naps₂, naps = naps₁ ++ naps₂ ∧ Step.Run st naps₁ s₁ (.error e) ∧
          Step.Run (h e s₁) naps₂ s r)
  | .done s₁ (.error e), naps, _, _, hr => .inr ⟨[], s₁, e, naps, rfl, .done _ _, hr⟩
  | .done _ (.ok a), _, _, _, hr => by
    cases hr
    exact .inl ⟨a, .done _ _, rfl⟩
  | .asleep _ _ _, _, _, _, hr => by
    cases hr with
    | asleep x hr =>
      rcases of_handle hr with ⟨a, h₁, rfl⟩ | ⟨naps₁, s₁, e, naps₂, rfl, h₁, h₂⟩
      · exact .inl ⟨a, .asleep x h₁, rfl⟩
      · exact .inr ⟨_ :: naps₁, s₁, e, naps₂, rfl, .asleep x h₁, h₂⟩

theorem handle_ok {h : ε → Job σ ε α} :
    ∀ {st : Step σ ε α} {naps : List (Nap σ)} {s : σ} {a : α},
      Step.Run st naps s (.ok a) → Step.Run (st.handle h) naps s (.ok a)
  | .done _ _, _, _, _, hr => by
    cases hr
    exact .done _ _
  | .asleep _ _ _, _, _, _, hr => by
    cases hr with
    | asleep y hr => exact .asleep y (handle_ok hr)

theorem handle_error {h : ε → Job σ ε α} {naps₂ : List (Nap σ)} {s : σ} {r : Except ε α} :
    ∀ {st : Step σ ε α} {naps₁ : List (Nap σ)} {s₁ : σ} {e : ε},
      Step.Run st naps₁ s₁ (.error e) → Step.Run (h e s₁) naps₂ s r →
        Step.Run (st.handle h) (naps₁ ++ naps₂) s r
  | .done _ _, _, _, _, h₁, h₂ => by
    cases h₁
    exact h₂
  | .asleep _ _ _, _, _, _, h₁, h₂ => by
    cases h₁ with
    | asleep y h₁ => exact .asleep y (handle_error h₁ h₂)

/-- A run of a step with a clean-up is a run of the step followed by a run of the clean-up from
where it ended; the step's outcome stands unless the clean-up fails. -/
theorem of_andFinally {c : Job σ ε Unit} :
    ∀ {st : Step σ ε α} {naps : List (Nap σ)} {s : σ} {r : Except ε α},
      Step.Run (st.andFinally c) naps s r →
        ∃ naps₁ s₁ r₁ naps₂, naps = naps₁ ++ naps₂ ∧ Step.Run st naps₁ s₁ r₁ ∧
          ((Step.Run (c s₁) naps₂ s (.ok ()) ∧ r = r₁) ∨
            ∃ e, Step.Run (c s₁) naps₂ s (.error e) ∧ r = .error e)
  | .done s₁ r₁, naps, _, _, h => by
    refine ⟨[], s₁, r₁, naps, rfl, .done _ _, ?_⟩
    rcases of_bind h with ⟨naps₁, s₂, u, naps₂, rfl, h₁, h₂⟩ | ⟨e, h₁, rfl⟩
    · obtain ⟨rfl, rfl, rfl⟩ := done_iff.mp h₂
      exact .inl ⟨by simpa using h₁, rfl⟩
    · exact .inr ⟨e, h₁, rfl⟩
  | .asleep _ _ _, _, _, _, h => by
    cases h with
    | asleep x h =>
      obtain ⟨naps₁, s₁, r₁, naps₂, rfl, h₁, hc⟩ := of_andFinally h
      exact ⟨_ :: naps₁, s₁, r₁, naps₂, rfl, .asleep x h₁, hc⟩

theorem ends : ∀ {st : Step σ ε α} {naps : List (Nap σ)} {s : σ} {r : Except ε α},
    Step.Run st naps s r → Step.Ends st s r
  | _, _, _, _, .done s r => .done s r
  | _, _, _, _, .asleep x h => .asleep x h.ends

end Step.Run

theorem Act.Ensures.run {α : Type} {Q : α → Prop} {a : Act α} (h : Act.Ensures Q a) {w : World}
    {naps : List (Nap World)} {s : World} {x : α} (hr : Step.Run (a w) naps s (.ok x)) : Q x :=
  h.ends w s x hr.ends

theorem Step.Run.of_done_eq {α : Type} {a : Act α} {w s s' : World} {r r' : Except Fault α}
    {naps : List (Nap World)} (ha : a w = .done s r) :
    Step.Run (a w) naps s' r' ↔ naps = [] ∧ s' = s ∧ r' = r := by
  rw [ha, Step.Run.done_iff]

theorem Step.Run.of_eq_done {α : Type} {a : Act α} {w s : World} {r : Except Fault α}
    (ha : a w = .done s r) : Step.Run (a w) [] s r :=
  (Step.Run.of_done_eq ha).2 ⟨rfl, rfl, rfl⟩

theorem Act.sleep_run {seconds : Float} {w : World} {naps : List (Nap World)} {s : World}
    {r : Except Fault Unit} :
    Step.Run (Act.sleep seconds w) naps s r ↔
      naps = [⟨w, w.now + Binary64.atLeast 0.0 seconds, s⟩] ∧ r = .ok () := by
  constructor
  · intro h
    cases h with
    | asleep x h =>
      cases h
      exact ⟨rfl, rfl⟩
  · rintro ⟨rfl, rfl⟩
    exact .asleep s (.done _ _)

/-! ### Views kept stretch by stretch -/

/-- A run from a world of view `b` keeps the view `v` stretch by stretch: each stretch between
wakes, the first from the start, leaves the view as it began, so the job falls asleep, and ends,
with the view of the world it last started or was woken in. -/
def Quiet {σ β : Type} (v : σ → β) : β → List (Nap σ) → σ → Prop
  | b, [], s => v s = b
  | b, n :: naps, s => v n.fell = b ∧ Quiet v (v n.woke) naps s

namespace Quiet

variable {σ β : Type} {v : σ → β}

theorem append {b : β} {s₁ s : σ} :
    ∀ {naps₁ naps₂ : List (Nap σ)}, Quiet v b naps₁ s₁ → Quiet v (v s₁) naps₂ s →
      Quiet v b (naps₁ ++ naps₂) s
  | [], _, h₁, h₂ => by
    change v s₁ = b at h₁
    rw [← h₁]
    exact h₂
  | _ :: _, _, ⟨h, h₁⟩, h₂ => ⟨h, append h₁ h₂⟩

/-- Where every wake finds the view as the job left it, the job ends with the view it began
with. -/
theorem undisturbed {b : β} {s : σ} :
    ∀ {naps : List (Nap σ)}, Quiet v b naps s → (∀ n ∈ naps, v n.woke = v n.fell) → v s = b
  | [], h, _ => h
  | n :: _, ⟨h, hq⟩, hw => by
    rw [undisturbed hq fun m hm => hw m (List.mem_cons_of_mem _ hm), hw n List.mem_cons_self, h]

theorem map {γ : Type} (g : β → γ) {b : β} {s : σ} :
    ∀ {naps : List (Nap σ)}, Quiet v b naps s → Quiet (g ∘ v) (g b) naps s
  | [], h => congrArg g h
  | _ :: _, ⟨h, hq⟩ => ⟨congrArg g h, map g hq⟩

end Quiet

theorem Step.Fixes.quiet {α β : Type} {v : World → β} :
    ∀ {b : β} {st : Step World Fault α} {naps : List (Nap World)} {s : World}
      {r : Except Fault α}, st.Fixes v b → Step.Run st naps s r → Quiet v b naps s
  | _, .done _ _, _, _, _, h, .done _ _ => h
  | _, .asleep _ _ _, _, _, _, h, .asleep x hr => ⟨h.1, Step.Fixes.quiet (h.2 x) hr⟩

theorem Act.Fixes.quiet {α β : Type} {v : World → β} {a : Act α} (h : Act.Fixes v a)
    {w : World} {naps : List (Nap World)} {s : World} {r : Except Fault α}
    (hr : Step.Run (a w) naps s r) : Quiet v (v w) naps s :=
  (h.step w).quiet hr

end TradeDesk
