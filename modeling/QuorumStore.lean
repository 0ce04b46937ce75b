import QuorumStore.Main
import QuorumStore.PeerCall
import QuorumStore.Simulation.Bench
import QuorumStore.Simulation.Cluster
import QuorumStore.Proofs.Terms
import QuorumStore.Proofs.Durability
import QuorumStore.Proofs.Progress
import QuorumStore.Proofs.Versions
import QuorumStore.Proofs.Reads
import QuorumStore.Proofs.JsonText
import QuorumStore.Proofs.MessageText
import QuorumStore.Proofs.Retrying
import QuorumStore.Proofs.Principals
import QuorumStore.Proofs.StoredValues
import QuorumStore.Proofs.PeerText
import QuorumStore.Proofs.Strangers
import QuorumStore.Proofs.TimerSteps
import QuorumStore.Proofs.Pace
import QuorumStore.Proofs.RoundTrip
import QuorumStore.Proofs.DoubleText
import QuorumStore.Proofs.JsonSize
import QuorumStore.Proofs.SourceSize
import QuorumStore.Proofs.HeartbeatSize
import QuorumStore.Proofs.Counting
import QuorumStore.Proofs.Heartbeats
import QuorumStore.Proofs.CatchUp
import QuorumStore.Proofs.Answers
import QuorumStore.Proofs.Votes
import QuorumStore.Proofs.Canvass
import QuorumStore.Proofs.Rounds
import QuorumStore.Proofs.Checks
import QuorumStore.Proofs.Encodings
import QuorumStore.Proofs.ReadBack
import QuorumStore.Proofs.Attempts
import QuorumStore.Proofs.Patience
import QuorumStore.Proofs.Electability
import QuorumStore.Proofs.Projection
import QuorumStore.Proofs.Namespaces
import QuorumStore.Proofs.Places
import QuorumStore.Proofs.Trimming
import QuorumStore.Proofs.Numerals
import QuorumStore.Proofs.Listing
import QuorumStore.Proofs.VersionText
