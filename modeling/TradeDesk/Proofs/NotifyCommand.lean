import TradeDesk.Proofs.ParamBinding
import TradeDesk.Proofs.Notifying

/-!
What the notification command posts: every webhook body carries the `text` parameter under `text`
and the message only under `msg` (`notify_webhook_body`).
-/

namespace TradeDesk

theorem Params.eq_map_get {p : Params} (hn : (Assoc.keys p).Nodup) :
    p = (Assoc.keys p).map fun k => (k, p.get k) := by
  calc p = p.map fun q => (q.1, p.get q.1) := by
        conv_lhs => rw [← List.map_id p]
        refine List.map_congr_left fun q hq => ?_
        simp [Params.get, Assoc.find?_of_mem hn hq]
    _ = (Assoc.keys p).map fun k => (k, p.get k) := by simp [Assoc.keys]

namespace Handler

theorem notify_params (deskName : String) (args : List Argument) :
    let p := Params.assign (notifyDefaults deskName) args
    p = [("msg", p.get "msg"), ("title", p.get "title"), ("color", p.get "color"),
      ("text", p.get "text"), ("footer", p.get "footer"), ("who", p.get "who")] := by
  intro p
  have hd : (Assoc.keys (notifyDefaults deskName)).Nodup := by
    simp [Assoc.keys, notifyDefaults]
  have hk : Assoc.keys p = ["msg", "title", "color", "text", "footer", "who"] :=
    Params.keys_assign _ hd args
  refine (Params.eq_map_get (p := p) ?_).trans ?_
  · rw [hk]
    decide
  · rw [hk]
    rfl

theorem webhook_body (message msg title color text footer who : String) :
    Assoc.ofPairs (("text", message) :: [("msg", msg), ("title", title), ("color", color),
        ("text", text), ("footer", footer), ("who", who)]) =
      [("text", text), ("msg", msg), ("title", title), ("color", color), ("footer", footer),
        ("who", who)] := by
  simp [Assoc.ofPairs, Assoc.set]

theorem send_posts (n : Notifier) (message : String) (options : List (String × String))
    (where? : Option String) :
    (n.send message options where?).posts = (n.targets where?).filterMap fun name =>
      match Assoc.find? n.channels name with
      | some (.webhook url _) => some ⟨url, Assoc.ofPairs (("text", message) :: options)⟩
      | _ => none := by
  rw [Notifier.send_eq_calls, Delivery.foldl_add, Notifier.calls]
  simp only [List.nil_append]
  induction n.targets where? with
  | nil => rfl
  | cons name names ih =>
    rw [List.filterMap_cons, List.filterMap_cons]
    -- an unknown name and the log channel post nothing; a webhook posts once
    cases Assoc.find? n.channels name with
    | none => exact ih
    | some c =>
      cases c with
      | log => simpa [Channel.call] using ih
      | webhook url http => simpa [Channel.call] using ih

/-- A notification command, whatever its arguments, sends `msg` with all its parameters as
options to the channel `who` names, logs what the channels logged and answers how many
delivered. Every body it posts to a webhook holds the `text` parameter under `text`, then `msg`,
`title`, `color`, `footer` and `who`: the message is under `text` only when the `text` parameter
is the message. -/
theorem notify_webhook_body (deskName : String) (args : List Argument) (w : World) :
    let p := Params.assign (notifyDefaults deskName) args
    let who := Text.lower (Text.trim (p.get "who"))
    let d := w.notifier.send (p.get "msg") p (some who)
    notify p w = .done { w with notes := w.notes ++ d.notes.toArray } (.ok d.delivered) ∧
      d.posts = (w.notifier.targets (some who)).filterMap fun name =>
        match Assoc.find? w.notifier.channels name with
        | some (.webhook url _) => some ⟨url, [("text", p.get "text"), ("msg", p.get "msg"),
            ("title", p.get "title"), ("color", p.get "color"), ("footer", p.get "footer"),
            ("who", p.get "who")]⟩
        | _ => none := by
  intro p who d
  refine ⟨rfl, ?_⟩
  have hbody : Assoc.ofPairs (("text", p.get "msg") :: p) =
      [("text", p.get "text"), ("msg", p.get "msg"), ("title", p.get "title"),
        ("color", p.get "color"), ("footer", p.get "footer"), ("who", p.get "who")] := by
    have hp : p = _ := notify_params deskName args
    rw [hp]
    exact webhook_body _ _ _ _ _ _ _
  rw [send_posts, hbody]

/-- `notify(hello, who=hook)` to a webhook named `hook` posts an empty `text`, not `hello`. -/
theorem webhook_text_is_not_the_message :
    let p := Params.assign (notifyDefaults "paper") (parseArguments "hello, who=hook")
    let n : Notifier :=
      { channels := [("log", .log), ("hook", .webhook "http://hook.test/x" (Http.answering 200))] }
    p.get "msg" = "hello" ∧
      ((n.send (p.get "msg") p (some (Text.lower (Text.trim (p.get "who"))))).posts.map
        fun post => Assoc.find? post.body "text") = [some ""] := by
  decide +kernel

end Handler

end TradeDesk
