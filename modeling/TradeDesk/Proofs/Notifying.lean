import TradeDesk.Notify

/-!
Fan-out of a notification: every target naming a channel is called once per occurrence, and the
count is exactly the calls that got through (`Notifier.send_fans_out`).
-/

namespace TradeDesk

/-- What the theory assumes of an HTTP client: its status check lets through exactly the success
statuses, 200 to 299. -/
def Http.ChecksSuccess (http : Http) : Prop :=
  ∀ status, http.passes status = true ↔ 200 ≤ status ∧ status < 300

theorem Http.answering_checksSuccess (status : Nat) : (Http.answering status).ChecksSuccess := by
  intro s
  simp [Http.answering, Post.succeeded]

@[simp] theorem Channel.call_ok (c : Channel) (message : String) (options : List (String × String)) :
    (c.call message options).ok = match c with
      | .log => true
      | .webhook url http => (http.post url (Assoc.ofPairs (("text", message) :: options))).any
          http.passes := by
  cases c <;> rfl

theorem Delivery.foldl_add (d : Delivery) (cs : List Call) :
    cs.foldl Delivery.add d =
      { delivered := d.delivered + cs.countP Call.ok, notes := d.notes ++ cs.flatMap Call.notes,
        posts := d.posts ++ cs.flatMap Call.posts } := by
  induction cs generalizing d with
  | nil => simp
  | cons c cs ih =>
    rw [List.foldl_cons, ih]
    simp only [Delivery.add, List.countP_cons, List.flatMap_cons, List.append_assoc,
      Delivery.mk.injEq, and_true]
    omega

namespace Notifier

/-- The calls a send makes, in target order: one for every occurrence of a target that names a
channel, each with the message and the options as given. -/
def calls (n : Notifier) (message : String) (options : List (String × String))
    (where? : Option String) : List Call :=
  (n.targets where?).filterMap fun name => (Assoc.find? n.channels name).map (·.call message options)

theorem foldl_targets (n : Notifier) (message : String) (options : List (String × String))
    (names : List String) (d : Delivery) :
    names.foldl (fun d name =>
        match Assoc.find? n.channels name with
        | none => d
        | some c => d.add (c.call message options)) d =
      (names.filterMap fun name =>
        (Assoc.find? n.channels name).map (·.call message options)).foldl Delivery.add d := by
  induction names generalizing d with
  | nil => rfl
  | cons name names ih =>
    rw [List.foldl_cons, ih, List.filterMap_cons]
    -- an unknown name adds no call; a known one adds its call first
    cases Assoc.find? n.channels name with
    | none => rfl
    | some c => rfl

theorem send_eq_calls (n : Notifier) (message : String) (options : List (String × String))
    (where? : Option String) :
    n.send message options where? = (n.calls message options where?).foldl Delivery.add {} :=
  foldl_targets n message options _ {}

/-- A send goes to the default channels when no channel is named (none, `""` or `default`) and
to the lowercased name otherwise. It calls, in that order, every target that names a channel,
once per occurrence, with the message and the same options, passing over unknown names. It
always finishes, whatever its calls do: its count is exactly the calls that got through (the log
always does; a webhook whose client checks for success does when its post is answered with a
success status), and its lines and posts are those of every call in order. -/
theorem send_fans_out (n : Notifier) (message : String) (options : List (String × String))
    (where? : Option String) :
    (∀ w, where? = some w → w ≠ "" → w ≠ "default" → n.targets where? = [Text.lower w]) ∧
    (where? = none ∨ where? = some "" ∨ where? = some "default" → n.targets where? = n.default) ∧
    (Channel.log.call message options).ok = true ∧
    (∀ url (http : Http), http.ChecksSuccess →
      (((Channel.webhook url http).call message options).ok = true ↔
        ∃ status, http.post url (Assoc.ofPairs (("text", message) :: options)) = some status ∧
          200 ≤ status ∧ status < 300)) ∧
    (n.send message options where?).delivered = (n.calls message options where?).countP Call.ok ∧
    (n.send message options where?).notes = (n.calls message options where?).flatMap Call.notes ∧
    (n.send message options where?).posts = (n.calls message options where?).flatMap Call.posts := by
  have hsend := send_eq_calls n message options where?
  rw [Delivery.foldl_add] at hsend
  refine ⟨?_, ?_, rfl, ?_, ?_, ?_, ?_⟩
  · rintro w rfl h₁ h₂
    simp only [targets]
  · rintro (rfl | rfl | rfl) <;> rfl
  · -- a webhook gets through when its post is answered and the answer passes the check
    intro url http hchecks
    simp only [Channel.call_ok, Option.any_eq_true]
    exact exists_congr fun status => and_congr_right fun _ => hchecks status
  all_goals simp [hsend]

example :
    (({ default := ["hook", "log", "nowhere", "hook"],
        channels := [("log", .log), ("hook", .webhook "u" (Http.answering 302))] } : Notifier).send "x"
        []).delivered
      = 1 := by
  decide

end Notifier

end TradeDesk
