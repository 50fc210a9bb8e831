import TradeDesk.Proofs.Standing

/-!
Where jobs can end: `Act.Ensures Q a` says every value `a` can finish with, from any world and
woken in any worlds, satisfies `Q`.
-/

namespace TradeDesk

/-- Woken in some worlds, the step finishes in the world `s` with the outcome `r`. -/
inductive Step.Ends {σ ε α : Type} : Step σ ε α → σ → Except ε α → Prop
  | done (s : σ) (r : Except ε α) : Step.Ends (.done s r) s r
  | asleep {s : σ} {t : Float} {k : σ → Step σ ε α} (x : σ) {s' : σ} {r : Except ε α} :
      Step.Ends (k x) s' r → Step.Ends (.asleep s t k) s' r

def Step.doneWith {σ ε α : Type} (p : σ → Except ε α → Bool) : Step σ ε α → Bool
  | .done s r => p s r
  | .asleep _ _ _ => false

theorem Step.eq_done_of_doneWith {σ ε α : Type} {p : σ → Except ε α → Bool} {st : Step σ ε α}
    (h : st.doneWith p = true) : ∃ s r, st = .done s r ∧ p s r = true := by
  cases st with
  | done s r => exact ⟨s, r, rfl, h⟩
  | asleep _ _ _ => cases h

namespace Step.Ends

variable {σ ε α β : Type}

theorem bind_inv {k : α → Job σ ε β} :
    ∀ {st : Step σ ε α} {s : σ} {r : Except ε β}, Step.Ends (st.bind k) s r →
      (∃ s₁ x, Step.Ends st s₁ (.ok x) ∧ Step.Ends (k x s₁) s r) ∨
        (∃ e, Step.Ends st s (.error e) ∧ r = .error e)
  | .done s₁ (.ok x), _, _, h => .inl ⟨s₁, x, .done _ _, h⟩
  | .done _ (.error e), _, _, h => by
    cases h
    exact .inr ⟨e, .done _ _, rfl⟩
  | .asleep _ _ _, _, _, h => by
    cases h with
    | asleep x h =>
      rcases bind_inv h with ⟨s₁, y, h₁, h₂⟩ | ⟨e, h₁, rfl⟩
      · exact .inl ⟨s₁, y, .asleep x h₁, h₂⟩
      · exact .inr ⟨e, .asleep x h₁, rfl⟩

theorem handle_inv {h : ε → Job σ ε α} :
    ∀ {st : Step σ ε α} {s : σ} {r : Except ε α}, Step.Ends (st.handle h) s r →
      Step.Ends st s r ∨ ∃ s₁ e, Step.Ends st s₁ (.error e) ∧ Step.Ends (h e s₁) s r
  | .done s₁ (.error e), _, _, hs => .inr ⟨s₁, e, .done _ _, hs⟩
  | .done _ (.ok _), _, _, hs => by
    cases hs
    exact .inl (.done _ _)
  | .asleep _ _ _, _, _, hs => by
    cases hs with
    | asleep x hs =>
      rcases handle_inv hs with hs | ⟨s₁, e, h₁, h₂⟩
      · exact .inl (.asleep x hs)
      · exact .inr ⟨s₁, e, .asleep x h₁, h₂⟩

theorem andFinally_inv {c : Job σ ε Unit} :
    ∀ {st : Step σ ε α} {s : σ} {r : Except ε α}, Step.Ends (st.andFinally c) s r →
      ∃ s₁ r₁, Step.Ends st s₁ r₁ ∧ (r = r₁ ∨ ∃ e, r = .error e)
  | .done s₁ r₁, _, _, h => by
    refine ⟨s₁, r₁, .done _ _, ?_⟩
    rcases bind_inv h with ⟨_, _, -, h₂⟩ | ⟨e, -, rfl⟩
    · cases h₂
      exact .inl rfl
    · exact .inr ⟨e, rfl⟩
  | .asleep _ _ _, _, _, h => by
    cases h with
    | asleep x h =>
      obtain ⟨s₁, r₁, h₁, hr⟩ := andFinally_inv h
      exact ⟨s₁, r₁, .asleep x h₁, hr⟩

end Step.Ends

/-- Every value the job can finish with, from any world and woken in any worlds, satisfies `Q`. -/
structure Act.Ensures {α : Type} (Q : α → Prop) (a : Act α) : Prop where
  ends : ∀ w s x, Step.Ends (a w) s (.ok x) → Q x

def Act.Yields {α : Type} (a : Act α) (x : α) : Prop := ∃ w s, Step.Ends (a w) s (.ok x)

namespace Act.Ensures

variable {α β : Type} {P Q : α → Prop}

theorem yields {a : Act α} {x : α} (h : Act.Ensures Q a) (hx : Act.Yields a x) : Q x := by
  obtain ⟨w, s, hx⟩ := hx
  exact h.ends w s x hx

theorem self (a : Act α) : Act.Ensures (Act.Yields a) a := ⟨fun w s _ h => ⟨w, s, h⟩⟩

theorem mono {a : Act α} (ha : Act.Ensures P a) (h : ∀ x, P x → Q x) : Act.Ensures Q a :=
  ⟨fun w s x hx => h x (ha.ends w s x hx)⟩

theorem and {a : Act α} (hP : Act.Ensures P a) (hQ : Act.Ensures Q a) :
    Act.Ensures (fun x => P x ∧ Q x) a :=
  ⟨fun w s x h => ⟨hP.ends w s x h, hQ.ends w s x h⟩⟩

theorem pure {x : α} (hx : Q x) : Act.Ensures Q (Pure.pure x : Act α) :=
  ⟨fun _ _ _ h => by cases h; exact hx⟩

theorem bind {R : β → Prop} {a : Act α} {k : α → Act β} (ha : Act.Ensures P a)
    (hk : ∀ x, P x → Act.Ensures R (k x)) : Act.Ensures R (a >>= k) := by
  refine ⟨fun w s y h => ?_⟩
  rcases Step.Ends.bind_inv h with ⟨s₁, x, h₁, h₂⟩ | ⟨e, -, he⟩
  · exact (hk x (ha.ends w s₁ x h₁)).ends s₁ s y h₂
  · cases he

theorem map {R : β → Prop} (f : α → β) {a : Act α} (ha : Act.Ensures P a)
    (hf : ∀ x, P x → R (f x)) : Act.Ensures R (f <$> a) :=
  ha.bind fun x hx => pure (hf x hx)

theorem throw (e : Fault) : Act.Ensures Q (throw e : Act α) := ⟨fun _ _ _ h => by cases h⟩

theorem tryCatch {a : Act α} {h : Fault → Act α} (ha : Act.Ensures Q a)
    (hh : ∀ e, Act.Ensures Q (h e)) : Act.Ensures Q (tryCatch a h) := by
  refine ⟨fun w s x hx => ?_⟩
  rcases Step.Ends.handle_inv hx with hx | ⟨s₁, e, -, h₂⟩
  · exact ha.ends w s x hx
  · exact (hh e).ends s₁ s x h₂

theorem andFinally {a : Act α} {c : Act Unit} (ha : Act.Ensures Q a) :
    Act.Ensures Q (Job.andFinally a c) := by
  refine ⟨fun w s x hx => ?_⟩
  obtain ⟨s₁, r₁, h₁, hr⟩ := Step.Ends.andFinally_inv hx
  rcases hr with rfl | ⟨e, he⟩
  · exact ha.ends w s₁ x h₁
  · cases he

theorem lift {r : Except Fault α} (h : ∀ x, r = .ok x → Q x) : Act.Ensures Q (Act.lift r) :=
  ⟨fun _ _ x hx => by cases hx; exact h x rfl⟩

theorem mapM {f : β → Act α} {l : List β} (hf : ∀ b ∈ l, Act.Ensures Q (f b)) :
    Act.Ensures (fun r => ∀ x ∈ r, Q x) (l.mapM f) := by
  induction l with
  | nil => exact pure (by simp)
  | cons b l ih =>
    rw [List.mapM_cons]
    refine (hf b List.mem_cons_self).bind fun x hx => ?_
    refine (ih fun b hb => hf b (List.mem_cons_of_mem _ hb)).bind fun xs hxs => ?_
    exact pure (List.forall_mem_cons.mpr ⟨hx, hxs⟩)

theorem ite {c : Prop} {_ : Decidable c} {t e : Act α} (ht : c → Act.Ensures Q t)
    (he : ¬c → Act.Ensures Q e) : Act.Ensures Q (if c then t else e) := by
  split
  · exact ht ‹_›
  · exact he ‹_›

end Act.Ensures

end TradeDesk
