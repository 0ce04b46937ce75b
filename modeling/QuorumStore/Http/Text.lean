import QuorumStore.Http.Basic
import QuorumStore.Text.Blank
import QuorumStore.Text.Decimal
/-! # HTTP messages as bytes

A request is written in the oldest version of the protocol that carries bodies both ways. In it the
answer ends where the connection ends, so it is read as a whole and then taken apart.
-/

namespace QuorumStore

/-- Where an address leads. -/
structure Endpoint where
  host : String
  port : Nat
  /-- The path that all requests to the address begin with. -/
  path : String
  deriving Repr, DecidableEq

namespace Endpoint

/-- What follows the scheme of an address. There is no other scheme than this one. -/
def rest? : List Char → Option (List Char)
  | 'h' :: 't' :: 't' :: 'p' :: ':' :: '/' :: '/' :: rest => some rest
  | _ => none

/-- The end point of an address. Without a port it is the one that belongs to the scheme. -/
def ofAddress? (address : String) : Option Endpoint := do
  let rest ← rest? (withoutSlashes address).toList
  let authority := rest.takeWhile (· != '/')
  let path := String.ofList (rest.dropWhile (· != '/'))
  let host := authority.takeWhile (· != ':')
  match authority.dropWhile (· != ':') with
  | [] => if host.isEmpty then none else some ⟨String.ofList host, 80, path⟩
  | _ :: digits =>
    let port ← Decimal.below? Decimal.limit16 digits
    if host.isEmpty then none else some ⟨String.ofList host, port, path⟩

def name (e : Endpoint) : String := e.host ++ ":" ++ Decimal.text e.port

end Endpoint

/-- The request as it is sent to an end point. -/
def HttpRequest.bytes (e : Endpoint) (r : HttpRequest) : List UInt8 :=
  Utf8.ofString (r.method ++ " " ++ e.path ++ r.target ++ " HTTP/1.0\r\nhost: " ++ e.name ++
    "\r\ncontent-type: application/json\r\ncontent-length: " ++ Decimal.text r.body.length ++
    "\r\n\r\n") ++ r.body

/-- What stands before the first empty line, and what follows it. -/
def headAndBody? : List UInt8 → Option (List UInt8 × List UInt8)
  | 13 :: 10 :: 13 :: 10 :: body => some ([], body)
  | b :: rest => (headAndBody? rest).map fun (head, body) => (b :: head, body)
  | [] => none

namespace HttpAnswer

/-- The status that stands in the first line. -/
def status? (line : List Char) : Option Nat :=
  Decimal.natural? (((line.dropWhile (· != ' ')).drop 1).takeWhile (· != ' '))

/-- The number of bytes that a line of the head says the body has. -/
def length? (line : List Char) : Option Nat :=
  let name := (line.takeWhile (· != ':')).map Char.toLower
  if name = "content-length".toList then
    Decimal.natural? (Text.trim ((line.dropWhile (· != ':')).drop 1))
  else none

/-- The answer that was received, if all of it was. -/
def ofBytes? (bytes : List UInt8) : Option HttpAnswer := do
  let (head, body) ← headAndBody? bytes
  let lines := Text.lines (← Utf8.decode? head)
  let status ← status? (lines.headD [])
  match lines.findSome? length? with
  | none => some ⟨status, body⟩
  | some n => if n ≤ body.length then some ⟨status, body.take n⟩ else none

end HttpAnswer

end QuorumStore
