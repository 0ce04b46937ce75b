import QuorumStore.CommandLine.Options
import QuorumStore.Token.Rules
/-! # Starting a server

Before a server serves anything it reads its configuration, finds its place among the members, gets
ready to verify tokens and looks at the address it is to listen at. The first step that fails ends
the program.
-/

namespace QuorumStore.CommandLine

/-- What the command line of a server says. -/
structure ServerLine where
  /-- The configuration file. -/
  config : Option String
  /-- The address to listen at, in place of the configured one. -/
  bind : Option String
  /-- The position among the members, in place of the configured one. -/
  index : Option Nat
  /-- The file that lists the members, in place of the configured list. -/
  members : Option String
  deriving Repr, DecidableEq

namespace ServerLine

def isIndex (s : String) : Bool := (Decimal.below? Decimal.limit64 s.toList).isSome

def options : Grammar :=
  { flags := [{ name := "config", letter := some 'c' }, { name := "bind", letter := some 'b' },
      { name := "index", letter := some 'i', admits := isIndex },
      { name := "peers", letter := some 'p' }]
    words := 0
    versioned := true }

def ofWords (words : List String) : Except Usage ServerLine :=
  (options.parse words).map fun l =>
    { config := l.value? "config"
      bind := l.value? "bind"
      index := (l.value? "index").bind fun s => Decimal.below? Decimal.limit64 s.toList
      members := l.value? "peers" }

/-- The configuration with what the line puts in the place of its parts. -/
def adjust (l : ServerLine) (s : Settings) : Settings :=
  let m := s.cluster.membership
  let m := match l.index with
    | some index => { m with index }
    | none => m
  let m := match l.members with
    | some path => { m with members := [], file := some path }
    | none => m
  { s with cluster := { s.cluster with membership := m } }

end ServerLine

/-- Why nobody can listen at an address. -/
inductive AddressFault where
  /-- There is no port. -/
  | noPort
  | badPort
  deriving Repr, DecidableEq

def AddressFault.text : AddressFault → String
  | .noPort => "invalid socket address"
  | .badPort => "invalid port value"

/-- What is wrong with the address to listen at, as far as its text shows. -/
def addressFault? (address : String) : Option AddressFault :=
  match afterColon? address.toList with
  | none => some .noPort
  | some port => if (Decimal.below? Decimal.limit16 port).isSome then none else some .badPort

/-- Why a server does not start. -/
inductive StartupFault where
  | configUnreadable (path : String)
  | configInvalid (path : String)
  | cluster (fault : ClusterFault)
  | membership (error : BootstrapError)
  | tokens (fault : TokenFault)
  | address (fault : AddressFault)
  deriving Repr, DecidableEq

def StartupFault.text : StartupFault → String
  | .configUnreadable path => "reading config " ++ path
  | .configInvalid path => "parsing config " ++ path
  | .cluster fault => fault.text
  | .membership error => error.text
  | .tokens fault => fault.text
  | .address fault => fault.text

/-- What a server starts with. -/
structure Startup where
  settings : Settings
  /-- Its own address and those of its peers. -/
  place : Bootstrap
  rules : TokenRules
  listen : String

namespace Startup

/-- The configuration that a file holds, if the file can be read. -/
def settingsOf (path : String) (file : Option (List UInt8)) : Except StartupFault Settings :=
  match file.bind Utf8.decode? with
  | none => .error (.configUnreadable path)
  | some text =>
    match Settings.ofText? text with
    | none => .error (.configInvalid path)
    | some s => .ok s

/-- The address of a member that stands alone. -/
def aloneAt (port : Nat) : String := "http://127.0.0.1:" ++ Decimal.text port

/-- The address to listen at: the one of the line, or the configured host with the port of the
    member's own address. -/
def listenAt (l : ServerLine) (s : ListenSettings) (place : Bootstrap) : String :=
  l.bind.getD (s.host ++ ":" ++ Decimal.text (place.port?.getD s.port))

/-- Checks a configuration, given what the files hold that it names: the list of members and the
    key. -/
def prepare (l : ServerLine) (s : Settings) (members key : Option (List UInt8)) :
    Except StartupFault Startup := do
  match s.cluster.fault? with
  | some fault => throw (.cluster fault)
  | none =>
    let place ← (s.cluster.membership.bootstrap (fun _ => members) (aloneAt s.listen.port)).mapError
      .membership
    let rules ← (TokenRules.ofSettings (fun _ => key) s.tokens).mapError .tokens
    let listen := listenAt l s.listen place
    match addressFault? listen with
    | some fault => throw (.address fault)
    | none => return ⟨s, place, rules, listen⟩

/-- Reads the configuration, adjusts it as the line says, and checks it. -/
def ofLine {m : Type → Type} [Monad m] (read : String → m (Option (List UInt8)))
    (l : ServerLine) : m (Except StartupFault Startup) := do
  let given ← match l.config with
    | none => pure (.ok .default)
    | some path => do pure (settingsOf path (← read path))
  match given with
  | .error fault => return .error fault
  | .ok given =>
    let s := l.adjust given
    let members ← match s.cluster.membership.file with
      | none => pure none
      | some path => read path
    return prepare l s members (← read s.tokens.publicKeyPath)

end Startup

end QuorumStore.CommandLine
