import TradeDesk.Data.Assoc
import TradeDesk.Text.Case.Lower

/-!
Notifications: named channels and a default list. A failing channel is skipped, so a notification
never breaks the orders that sent it.
-/

namespace TradeDesk

/-- A line written to the log: its level and text. -/
structure Note where
  level : String
  text : String
deriving Repr, DecidableEq

/-- A post made by a webhook: the URL and the fields of its JSON body. -/
structure Post where
  url : String
  body : List (String × String)
deriving Repr, DecidableEq

/-- Whether an HTTP answer is a success status, 200 to 299. -/
def Post.succeeded (status : Nat) : Bool := 200 ≤ status && status < 300

/-- An HTTP client as a webhook uses it: the status a post of a JSON body to a URL is answered
with, nothing when the post raises instead, and whether its status check lets a status pass. -/
structure Http where
  post : String → List (String × String) → Option Nat
  passes : Nat → Bool

/-- A client that answers every post with one status and lets the success statuses pass. -/
def Http.answering (status : Nat) : Http := ⟨fun _ _ => some status, Post.succeeded⟩

inductive Channel where
  /-- writes `[notify] title: message` (or `[notify] message` without a title) to the log -/
  | log
  /-- posts to a URL through an HTTP client -/
  | webhook (url : String) (http : Http)

/-- What one call of a channel did: whether it got through, and the lines it logged and the posts
it made on the way, those of a failed call included. -/
structure Call where
  ok : Bool
  notes : List Note := []
  posts : List Post := []
deriving Repr, DecidableEq

/-- What a notification did: how many channels delivered it, the log lines and the posts. -/
structure Delivery where
  delivered : Nat := 0
  notes : List Note := []
  posts : List Post := []
deriving Repr, DecidableEq

/-- Adds one call to a delivery: counted when it got through, with its lines and posts after the
earlier ones. -/
def Delivery.add (d : Delivery) (c : Call) : Delivery :=
  { delivered := d.delivered + (if c.ok then 1 else 0), notes := d.notes ++ c.notes,
    posts := d.posts ++ c.posts }

/-- Named channels and the default list. -/
structure Notifier where
  default : List String := ["log"]
  channels : List (String × Channel) := [("log", .log)]
deriving Inhabited

namespace Notifier

def addChannel (n : Notifier) (name : String) (c : Channel) : Notifier :=
  { n with channels := Assoc.set n.channels (Text.lower name) c }

/-- The channels a message goes to: the default list, unless a channel is named. -/
def targets (n : Notifier) (where? : Option String) : List String :=
  match where? with
  | none | some "" | some "default" => n.default
  | some w => [Text.lower w]

def logLine (message : String) (options : List (String × String)) : String :=
  match Assoc.find? options "title" with
  | some t => if t = "" then "[notify] " ++ message else "[notify] " ++ t ++ ": " ++ message
  | none => "[notify] " ++ message

end Notifier

/-- Calls a channel with a message and options. The log channel writes one line and never fails;
a webhook posts the message and the options, then fails unless it is answered with a status that
passes the check. -/
def Channel.call (c : Channel) (message : String) (options : List (String × String)) : Call :=
  match c with
  | .log => { ok := true, notes := [⟨"INFO", Notifier.logLine message options⟩] }
  | .webhook url http =>
    let body := Assoc.ofPairs (("text", message) :: options)
    { ok := (http.post url body).any http.passes, posts := [⟨url, body⟩] }

namespace Notifier

def send (n : Notifier) (message : String) (options : List (String × String))
    (where? : Option String := none) : Delivery :=
  (n.targets where?).foldl (fun d name =>
    match Assoc.find? n.channels name with
    | none => d
    | some c => d.add (c.call message options))
    {}

end Notifier

end TradeDesk
