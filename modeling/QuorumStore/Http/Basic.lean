import QuorumStore.Json.Printer
import QuorumStore.Text.Utf8
/-! # HTTP

Members and clients talk to each other over HTTP. A call goes to an address and comes back with an
answer or does not come back; how it travels is left open here, so that the same caller runs over a
real network and over one that loses what it likes.
-/

namespace QuorumStore

/-- A request as it is sent or arrives. -/
structure HttpRequest where
  method : String
  /-- The path, perhaps with a query. -/
  target : String
  body : List UInt8
  deriving Repr, DecidableEq

namespace HttpRequest

def json (method target : String) (body : Json) : HttpRequest :=
  ⟨method, target, Utf8.ofString body.compact⟩

end HttpRequest

/-- An answer as it arrives. -/
structure HttpAnswer where
  status : Nat
  body : List UInt8
  deriving Repr, DecidableEq

/-- Takes requests to the servers at given addresses. What does not come back has no answer. -/
abbrev Wire (m : Type → Type) := String → HttpRequest → m (Option HttpAnswer)

/-- A wire on which nothing comes back. -/
def Wire.dead {m : Type → Type} [Monad m] : Wire m := fun _ _ => pure none

def withoutSlashes (address : String) : String :=
  String.ofList (address.toList.reverse.dropWhile (· == '/')).reverse

/-- Where a request to an address goes. The slashes at the end of the address do not count. -/
def HttpRequest.url (address : String) (r : HttpRequest) : String :=
  withoutSlashes address ++ r.target

end QuorumStore
