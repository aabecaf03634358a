import CollectionRunner.Request.Message

/-!
The network as a value.

It answers each message that it is given; the answer may depend on the messages that arrived before.
A message arrives unless nothing can be reached at its address.
-/

namespace CollectionRunner

/-- What comes back for a message. -/
inductive Reply
  /-- No connection; the message does not arrive. -/
  | unreachable
  /-- The connection is closed without an answer. -/
  | closed
  /-- A status, and a body that breaks off. -/
  | truncated (status : Nat)
  /-- A status and a body. -/
  | answered (status : Nat) (body : Bytes)
  deriving DecidableEq, Repr

/-- Whether the message arrived. -/
def Reply.hasArrived : Reply → Bool
  | unreachable => false
  | _ => true

/-- What comes back for a message, given those that arrived before it. -/
abbrev Network := (earlier : List Message) → Message → Reply

/-- The network on which nothing can be reached. -/
def Network.unreachable : Network := fun _ _ => .unreachable

/-- A network whose answers depend on the message alone. -/
def Network.IsStateless (n : Network) : Prop := ∀ earlier m, n earlier m = n [] m

/-- The schemes of the addresses that can be asked. -/
def webSchemes : List (List Char) := ["http".toList, "https".toList]

/-- The longest address that can be asked, in bytes. -/
def longestAddress : Nat := 65534

/-- A character of a host that cannot be asked. -/
def isUnaskable (c : Char) : Bool := c == '"' || c == '\x60' || c == '\x7b' || c == '\x7d'

namespace Url

/-- Whether an address can be asked at all. -/
def isAskable (u : Url) : Bool :=
  webSchemes.contains u.scheme && !((u.host?.getD []).any isUnaskable) &&
    u.chars.length ≤ longestAddress

end Url

namespace Message

/-- The header that names the sender. -/
def agent : String × String := ("user-agent", "colrun/0.0.0-dev")

/-- The message as it leaves: it names its sender, unless it does so already. -/
def outgoing (m : Message) : Message :=
  if (m.values agent.1).isEmpty then { m with headers := m.headers ++ [agent] } else m

end Message

/-- The message of a draft as it leaves. -/
def Draft.outgoing (boundary : String) (d : Draft) : Except BuildFault Message := do
  let m ← d.build boundary
  if m.url.isAskable then pure m.outgoing else .error (.address m.url)

end CollectionRunner
