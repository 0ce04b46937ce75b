import QuorumStore.CommandLine.Records
import QuorumStore.CommandLine.Startup
import QuorumStore.Http.Text
import Std.Async.DNS
import Std.Async.TCP
import Std.Async.Timer
/-! # The programs

One program reads and writes records in a cluster. The other one checks all that a server needs
before it serves, and says where it is ready to listen. The first word tells which is meant.
-/

namespace QuorumStore

def readFile? (path : String) : IO (Option (List UInt8)) := do
  try
    return some (← IO.FS.readBinFile path).toList
  catch _ =>
    return none

/-- Receives all that comes before the other side closes the connection. -/
partial def receiveAll (socket : Std.Async.TCP.Socket.Client) (received : ByteArray) :
    Std.Async.Async ByteArray := do
  match ← socket.recv? 65536 with
  | some bytes => receiveAll socket (received ++ bytes)
  | none => return received

/-- Sends a request over a connection of its own and receives the answer. -/
def exchange (e : Endpoint) (r : HttpRequest) : Std.Async.Async ByteArray := do
  let found ← Std.Async.DNS.getAddrInfo e.host (Decimal.text e.port)
  let port := UInt16.ofNat e.port
  match found[0]? with
  | none => throw (IO.userError "no such host")
  | some host =>
    let socket ← Std.Async.TCP.Socket.Client.mk
    socket.connect (match host with
      | .v4 addr => .v4 ⟨addr, port⟩
      | .v6 addr => .v6 ⟨addr, port⟩)
    socket.send (ByteArray.mk (r.bytes e).toArray)
    receiveAll socket ByteArray.empty

/-- How long a call may take, in milliseconds. -/
def patience : Nat := 1000

def giveUp : Std.Async.Async ByteArray := do
  Std.Async.sleep (Std.Time.Millisecond.Offset.ofNat patience)
  return ByteArray.empty

/-- The wire to real servers. A call that takes too long is given up. -/
def network : Wire IO := fun address r => do
  match Endpoint.ofAddress? address with
  | none => return none
  | some e =>
    try
      let bytes ← (Std.Async.Async.race (exchange e r) giveUp).block
      return HttpAnswer.ofBytes? bytes.toList
    catch _ =>
      return none

def report (e : CommandLine.Ending) : IO UInt32 := do
  IO.print e.output
  if e.complaint ≠ "" then
    IO.eprintln e.complaint
  return UInt32.ofNat e.code

/-- How the programs are used. -/
def usage : String :=
  "usage: blockserver [--config FILE] [--bind HOST:PORT] [--index N] [--peers FILE]\n" ++
  "       blockserver-kv [--servers LIST] [--servers-file FILE] --token TOKEN\n" ++
  "                      get KEY | put KEY VALUE [--version N] | delete KEY\n"

/-- Answers a command line that does not lead to a run. -/
def explain : CommandLine.Usage → IO UInt32
  | .wrong => do
    IO.eprint usage
    return 2
  | .help | .version => do
    IO.print usage
    return 0

/-- Reads or writes a record. -/
def records (words : List String) : IO UInt32 := do
  match CommandLine.Records.ofWords (← IO.getEnv "BLOCKSERVER_TOKEN") words with
  | .error u => explain u
  | .ok c => report (← c.run readFile? network fun ms => IO.sleep (UInt32.ofNat ms))

/-- Checks whether a server can start. -/
def serve (words : List String) : IO UInt32 := do
  match CommandLine.ServerLine.ofWords words with
  | .error u => explain u
  | .ok l =>
    match ← CommandLine.Startup.ofLine readFile? l with
    | .error fault => report (.complain 1 ("Error: " ++ fault.text))
    | .ok s => report ⟨0, s.place.address ++ " is ready to listen on " ++ s.listen ++ "\n", ""⟩

end QuorumStore

/-- Runs the program that the first word names. -/
def main (words : List String) : IO UInt32 :=
  match words with
  | "blockserver" :: words => QuorumStore.serve words
  | "blockserver-kv" :: words => QuorumStore.records words
  | _ => QuorumStore.explain .wrong
