/-
Requests and responses of the status service.

* `Request`, `Response` — what a client sends and gets;
* `targetPath` — the path that the target of a request names.
-/
import LeaseKeeper.Net.Address
import LeaseKeeper.Text.Fields

namespace LeaseKeeper.Http

inductive Method where
  | get
  | head
  | other (name : String)
  deriving DecidableEq, Repr

/-- The method of a name, which is case sensitive. -/
def Method.ofName (name : String) : Method :=
  if name = "GET" then .get else if name = "HEAD" then .head else .other name

structure Header where
  name : String
  value : List UInt8
  deriving DecidableEq

/-- What a client sends.  The address of the client's end may be unknown. -/
structure Request where
  method : Method
  target : List Char
  peer : Option Address
  headers : List Header
  deriving DecidableEq

/-- What a client gets. -/
structure Response where
  status : Nat
  contentType : Option String
  allow : Option String
  body : List Char
  deriving DecidableEq

def Response.plain (status : Nat) (body : List Char) : Response :=
  ⟨status, some "text/plain; charset=utf-8", none, body⟩

/-- A response without content. -/
def Response.bare (status : Nat) : Response := ⟨status, none, none, []⟩

/-- The path of a target, without query and fragment.  An absolute target has its path after
the authority, and the root path if there is nothing. -/
def targetPath (target : List Char) : List Char :=
  let s := target.takeWhile fun c => c ≠ '?' && c ≠ '#'
  if s.head? = some '/' then s
  else
    match Text.cut? [':', '/', '/'] s with
    | none => s
    | some (_, rest) =>
      let path := rest.dropWhile (· ≠ '/')
      if path = [] then ['/'] else path

end LeaseKeeper.Http
