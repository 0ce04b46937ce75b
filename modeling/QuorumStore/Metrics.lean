import QuorumStore.Binary64.Shortest
import QuorumStore.Text.Decimal
/-! # Metrics

Counters only grow; gauges hold the latest value. A sample is there from the first time it is
counted or set, so what never happened is not reported as zero.
-/

namespace QuorumStore

/-- What is measured, in the order in which it is exposed. -/
inductive Metric where
  | commitIndex
  | currentTerm
  | elections
  | requests
  | operations
  | electionsWon
  | peerFailures
  deriving Repr, DecidableEq

namespace Metric

def all : List Metric :=
  [.commitIndex, .currentTerm, .elections, .requests, .operations, .electionsWon, .peerFailures]

def name : Metric → String
  | .commitIndex => "blockserver_commit_index"
  | .currentTerm => "blockserver_current_term"
  | .elections => "blockserver_elections_total"
  | .requests => "blockserver_http_requests_total"
  | .operations => "blockserver_kv_operations_total"
  | .electionsWon => "blockserver_leader_elected_total"
  | .peerFailures => "blockserver_peer_rpc_failures_total"

def help : Metric → String
  | .commitIndex => "Number of committed log entries"
  | .currentTerm => "Current consensus term"
  | .elections => "Elections started by this node"
  | .requests => "Total HTTP requests"
  | .operations => "Key-value operations by outcome"
  | .electionsWon => "Elections won by this node"
  | .peerFailures => "Failed or timed-out peer RPCs"

def isGauge : Metric → Bool
  | .commitIndex | .currentTerm => true
  | _ => false

end Metric

/-- One measured value. -/
structure Sample where
  metric : Metric
  labels : List (String × String)
  value : Nat
  deriving Repr, DecidableEq

namespace Sample

/-- Gauges are doubles and are written with all their digits. -/
def gaugeLayout : Binary64.Layout := ⟨-400, 400, [], []⟩

def text (s : Sample) : String :=
  if s.metric.isGauge then String.ofList (gaugeLayout.text (.ofNat s.value))
  else Decimal.text s.value

def title (s : Sample) : String :=
  if s.labels.isEmpty then s.metric.name
  else
    let pairs := s.labels.map fun (label, value) => label ++ "=\"" ++ value ++ "\""
    s.metric.name ++ "\x7b" ++ ",".intercalate pairs ++ "\x7d"

end Sample

/-- Everything measured so far; a metric has one sample for each choice of labels. -/
abbrev Metrics := List Sample

namespace Metrics

/-- Changes a sample, which starts at zero. -/
def update (metric : Metric) (labels : List (String × String)) (f : Nat → Nat) :
    Metrics → Metrics
  | [] => [⟨metric, labels, f 0⟩]
  | s :: rest =>
    if s.metric = metric ∧ s.labels = labels then { s with value := f s.value } :: rest
    else s :: update metric labels f rest

def count (metric : Metric) (labels : List (String × String)) (m : Metrics) : Metrics :=
  m.update metric labels (· + 1)

def set (metric : Metric) (value : Nat) (m : Metrics) : Metrics :=
  m.update metric [] fun _ => value

/-- The comments on the metrics there are samples of: first what they tell, then what they are. -/
def comments (m : Metrics) : List String :=
  let touched := Metric.all.filter fun metric => m.any (·.metric == metric)
  touched.map (fun metric => "# HELP " ++ metric.name ++ " " ++ metric.help) ++
    touched.map fun metric =>
      "# TYPE " ++ metric.name ++ (if metric.isGauge then " gauge" else " counter")

end Metrics

end QuorumStore
