/-
Who may see the leases.

A request is judged by the address that it comes from.  A peer on the loopback interface may
speak for someone else, whom it names in the first `X-Forwarded-For` field of the header; then
that one is judged, and a name that is not an address is not admitted.

* `forwarded?` — whom the header names;
* `Client.ofPeer` — the client that is judged;
* `Client.isAdmitted` — whether its address is private.
-/
import LeaseKeeper.Http.Message
import LeaseKeeper.Net.Private
import LeaseKeeper.Text.Blank

namespace LeaseKeeper.Http

/-- The field that names the client a peer speaks for. -/
def forwardedField : List Char := "x-forwarded-for".toList

/-- Whether a byte is a tab, a blank or a visible ASCII character. -/
def isTextByte (b : UInt8) : Bool := b == 9 || (0x20 ≤ b && b ≤ 0x7e)

/-- The text of a header value, if it is nothing but text. -/
def headerText? (value : List UInt8) : Option (List Char) :=
  if value.all isTextByte then some (value.map fun b => Char.ofNat b.toNat) else none

/-- The first value of a field of the header. -/
def headerValue? (name : List Char) (headers : List Header) : Option (List UInt8) :=
  (headers.find? fun h => h.name.toList.map Char.toLower == name).map (·.value)

/-- Whom the header names.  Only the first field counts, and it counts as missing if it is
blank or not text. -/
def forwarded? (headers : List Header) : Option (List Char) := do
  let text ← headerText? (← headerValue? forwardedField headers)
  let name := Text.trim text
  if name = [] then none else some name

/-- Who a request comes from. -/
inductive Client where
  | address (a : Address)
  | unknown (name : List Char)
  deriving DecidableEq, Repr

namespace Client

/-- The client that a name stands for. -/
def ofName (name : List Char) : Client :=
  match Address.ofChars? name with
  | some a => .address a
  | none => .unknown name

/-- The client for whom a peer speaks. -/
def ofPeer (peer : Address) (headers : List Header) : Client :=
  if peer.isLoopback then
    match forwarded? headers with
    | some name => ofName name
    | none => .address peer
  else .address peer

/-- Whether a client may see the leases. -/
def isAdmitted : Client → Bool
  | .address a => a.isPrivate
  | .unknown _ => false

def text : Client → List Char
  | .address a => a.toChars
  | .unknown name => name

end Client

end LeaseKeeper.Http
