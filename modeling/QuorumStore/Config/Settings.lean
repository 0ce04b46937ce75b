import QuorumStore.Config.Membership
import QuorumStore.Config.Setting
/-! # Configuration

Every setting has a default, so the empty configuration is a valid one: a single member that
listens on the default port and verifies tokens with a public key.
-/

namespace QuorumStore

/-- Where the server listens. -/
structure ListenSettings where
  host : String
  port : Nat
  /-- How many seconds open requests are given at the end. -/
  shutdownTimeout : Nat
  deriving Repr, DecidableEq

/-- How tokens are verified. -/
structure TokenSettings where
  algorithm : String
  publicKeyPath : String
  /-- The secret that both sides share, for the algorithms that use one. -/
  secret : Option String
  issuer : String
  /-- The claim that names the principal. -/
  claim : String
  deriving Repr, DecidableEq

/-- Who the members are, and how long things take. -/
structure ClusterSettings where
  membership : Membership
  timing : Timing
  deriving Repr, DecidableEq

/-- What is logged, and how. -/
structure LogSettings where
  level : String
  format : String
  deriving Repr, DecidableEq

/-- A whole configuration. -/
structure Settings where
  listen : ListenSettings
  tokens : TokenSettings
  cluster : ClusterSettings
  logging : LogSettings
  metrics : Bool
  deriving Repr, DecidableEq

/-! ## Defaults -/

def ListenSettings.default : ListenSettings := ⟨"0.0.0.0", 5000, 10⟩

def TokenSettings.default : TokenSettings := ⟨"RS256", "public.pem", none, "auth-server", "userID"⟩

/-- The default cluster: nobody but the member itself. -/
def ClusterSettings.default : ClusterSettings := ⟨⟨[], none, 0⟩, ⟨500, 1000, 100, 200, 2000⟩⟩

def LogSettings.default : LogSettings := ⟨"info", "text"⟩

def Settings.default : Settings := ⟨.default, .default, .default, .default, true⟩

/-! ## Reading -/

namespace Setting

/-- A number of 64 bits. -/
def number? : Setting → Option Nat := below? Decimal.limit64

def listen? (s : Setting) : Option ListenSettings := do
  match ← s.fields? ["host", "port", "shutdown_timeout"] with
  | [host, port, shutdownTimeout] =>
    let host ← orDefault text? "0.0.0.0" host
    let port ← orDefault (below? Decimal.limit16) 5000 port
    let shutdownTimeout ← orDefault number? 10 shutdownTimeout
    return { host, port, shutdownTimeout }
  | _ => none

def tokens? (s : Setting) : Option TokenSettings := do
  match ← s.fields? ["algorithm", "public_key_path", "secret", "issuer", "claim"] with
  | [algorithm, publicKeyPath, secret, issuer, claim] =>
    let algorithm ← orDefault text? "RS256" algorithm
    let publicKeyPath ← orDefault text? "public.pem" publicKeyPath
    let secret ← orDefault textOrNull? none secret
    let issuer ← orDefault text? "auth-server" issuer
    let claim ← orDefault text? "userID" claim
    return { algorithm, publicKeyPath, secret, issuer, claim }
  | _ => none

def cluster? (s : Setting) : Option ClusterSettings := do
  match ← s.fields? ["peers", "peers_file", "node_index", "election_timeout_min_ms",
      "election_timeout_max_ms", "heartbeat_interval_ms", "rpc_timeout_ms",
      "replication_timeout_ms"] with
  | [members, file, index, electionMin, electionMax, heartbeat, call, replication] =>
    let members ← orDefault texts? [] members
    let file ← orDefault textOrNull? none file
    let index ← orDefault number? 0 index
    let electionMin ← orDefault number? 500 electionMin
    let electionMax ← orDefault number? 1000 electionMax
    let heartbeat ← orDefault number? 100 heartbeat
    let call ← orDefault number? 200 call
    let replication ← orDefault number? 2000 replication
    return ⟨{ members, file, index },
      { electionMin, electionMax, heartbeat, call, replication }⟩
  | _ => none

def logging? (s : Setting) : Option LogSettings := do
  match ← s.fields? ["level", "format"] with
  | [level, format] =>
    let level ← orDefault text? "info" level
    let format ← orDefault text? "text" format
    return { level, format }
  | _ => none

def metrics? (s : Setting) : Option Bool := do
  match ← s.fields? ["metrics"] with
  | [metrics] => orDefault truth? true metrics
  | _ => none

def settings? (s : Setting) : Option Settings := do
  match ← s.fields? ["server", "auth", "cluster", "logging", "observability"] with
  | [listen, tokens, cluster, logging, metrics] =>
    let listen ← orDefault listen? .default listen
    let tokens ← orDefault tokens? .default tokens
    let cluster ← orDefault cluster? .default cluster
    let logging ← orDefault logging? .default logging
    let metrics ← orDefault metrics? true metrics
    return { listen, tokens, cluster, logging, metrics }
  | _ => none

end Setting

def Settings.ofText? (text : List Char) : Option Settings :=
  (Setting.ofYaml? text).bind Setting.settings?

/-! ## Timing that works -/

/-- Why a configuration would not give a stable cluster. -/
inductive ClusterFault where
  | noElectionTimeout
  | emptyWindow (low high : Nat)
  /-- Followers would start elections between two heartbeats. -/
  | slowHeartbeat (heartbeat low : Nat)
  | noTime
  | outOfRange (index members : Nat)
  deriving Repr, DecidableEq

def ClusterFault.text : ClusterFault → String
  | .noElectionTimeout => "cluster.election_timeout_min_ms must be positive"
  | .emptyWindow low high =>
    "cluster.election_timeout_min_ms (" ++ Decimal.text low ++
      ") exceeds election_timeout_max_ms (" ++ Decimal.text high ++ ")"
  | .slowHeartbeat heartbeat low =>
    "cluster.heartbeat_interval_ms (" ++ Decimal.text heartbeat ++
      ") must be below election_timeout_min_ms (" ++ Decimal.text low ++ ")"
  | .noTime => "cluster.heartbeat_interval_ms and rpc_timeout_ms must be positive"
  | .outOfRange index members =>
    "cluster.node_index " ++ Decimal.text index ++ " out of range for " ++ Decimal.text members ++
      " peers"

/-- The first fault of a cluster, if there is one. -/
def ClusterSettings.fault? (c : ClusterSettings) : Option ClusterFault :=
  let t := c.timing
  let m := c.membership
  if t.electionMin = 0 then some .noElectionTimeout
  else if t.electionMax < t.electionMin then some (.emptyWindow t.electionMin t.electionMax)
  else if t.electionMin ≤ t.heartbeat then some (.slowHeartbeat t.heartbeat t.electionMin)
  else if t.heartbeat = 0 ∨ t.call = 0 then some .noTime
  else if m.members ≠ [] ∧ m.members.length ≤ m.index then
    some (.outOfRange m.index m.members.length)
  else none

end QuorumStore
