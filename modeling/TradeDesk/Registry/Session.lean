/-!
Orders placed per session. A session is one run of a command sequence; every order it places
through a limit or stop order is recorded with the tag it was given, in placing order, so that
the session can cancel them later (all of them, or those of one tag). Entries are never removed.
-/

namespace TradeDesk

/-- Orders recorded per session, sessions in order of their first order. -/
structure SessionBook (Handle : Type) where
  sessions : List (String × List (String × Handle)) := []

namespace SessionBook

variable {Handle : Type}

def add (b : SessionBook Handle) (session tag : String) (order : Handle) : SessionBook Handle :=
  if b.sessions.any (·.1 == session) then
    ⟨b.sessions.map fun e => if e.1 == session then (e.1, e.2 ++ [(tag, order)]) else e⟩
  else ⟨b.sessions ++ [(session, [(tag, order)])]⟩

/-- The orders of a session, in placing order: all of them, or those with the given tag. -/
def find (b : SessionBook Handle) (session : String) (tag : Option String := none) : List Handle :=
  (((b.sessions.lookup session).getD []).filter fun e => tag.all (· == e.1)).map (·.2)

end SessionBook

end TradeDesk
