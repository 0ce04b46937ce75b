import QuorumStore.Proofs.MemberSteps
import QuorumStore.Proofs.TimerSteps
import Mathlib.Data.List.Basic
/-! # How an election is decided

While a candidate waits for the votes of its peers, anything may happen to it: it may hear of a
leader, vote for somebody else, or begin another candidacy. What it makes of a reply is therefore
decided by the state in which the reply finds it, and by what was granted in this election so far.
-/

namespace QuorumStore

namespace Node

variable {m : Moment} {me : String} {peers : Nat} {reply : VoteReply} {e : Election} {n : Node}

theorem count_won_iff : (e.count me peers n).1 = .won ↔
    n.role = .candidate ∧ n.term = e.term ∧ e.needed ≤ e.granted := by
  rw [Election.count]
  split
  · rename_i gone
    refine iff_of_false (by simp) ?_
    rintro ⟨role, term, _⟩
    exact gone.elim (· role) (· term)
  · rename_i stands
    obtain ⟨role, term⟩ := not_or.mp stands
    split
    · rename_i enough
      exact iff_of_true rfl ⟨Decidable.not_not.mp role, Decidable.not_not.mp term, enough⟩
    · rename_i few
      exact iff_of_false (by simp) fun wins => few wins.2.2

theorem fold_later (later : n.term < reply.term) :
    e.fold m me peers reply n = (.abandoned, e, n.stepDown m reply.term) := by
  rw [Election.fold, if_pos later]

/-- A reply of no later term is counted, and that is all. -/
theorem fold_current (current : reply.term ≤ n.term) : e.fold m me peers reply n =
    (((heard reply e).count me peers n).1, heard reply e,
      ((heard reply e).count me peers n).2) := by
  rw [Election.fold, if_neg (Nat.not_lt_of_le current)]
  rfl

end Node

/-- A tally: the node that makes it, the reply that is taken in, and what becomes of the node. A
    candidate without peers makes one without a reply. -/
structure Hearing where
  before : Node
  reply : Option VoteReply
  after : Node

namespace Hearing

variable {T peers : Nat} {past : List Hearing} {h : Hearing} {n : Node}
  {reply : Option VoteReply}

def grants (h : Hearing) : Bool := h.reply.any VoteReply.granted

/-- The votes of an election, the candidate's own included. -/
def votes (heard : List Hearing) : Nat := 1 + heard.countP grants

/-- The node still stands in the term of the election, the reply is of no later one, and the votes
    granted up to now make a majority. -/
structure Wins (T peers : Nat) (past : List Hearing) (h : Hearing) : Prop where
  role : h.before.role = .candidate
  term : h.before.term = T
  current : ∀ r, h.reply = some r → r.term ≤ h.before.term
  enough : quorum (peers + 1) ≤ votes (past ++ [h])

/-- The reply is of a later term than the node's. -/
def Deposes (h : Hearing) (r : VoteReply) : Prop := h.reply = some r ∧ h.before.term < r.term

/-- What a node becomes that has won. -/
structure TakesLead (T peers : Nat) (h : Hearing) : Prop where
  role : h.after.role = .leader
  term : h.after.term = T
  log : h.after.log = h.before.log ++ [⟨T, .barrier⟩]
  progress : h.after.progress = List.replicate peers ⟨h.after.lastIndex, 0⟩

/-- What a node becomes that hears of a later term. -/
structure StepsDown (term : Nat) (h : Hearing) : Prop where
  role : h.after.role = .follower
  term : h.after.term = term
  vote : h.after.votedFor = none

/-- What becomes of the node is decided by how it stands and by what was granted before. -/
structure Decided (T peers : Nat) (past : List Hearing) (h : Hearing) : Prop where
  wins : h.Wins T peers past → h.TakesLead T peers
  loses : ∀ r, h.Deposes r → h.StepsDown r.term
  rests : ¬ h.Wins T peers past → (∀ r, ¬ h.Deposes r) → h.after = h.before

theorem Wins.not_deposes (wins : h.Wins T peers past) (r : VoteReply) : ¬ h.Deposes r :=
  fun deposes => Nat.not_lt_of_le (wins.current r deposes.1) deposes.2

/-- Nobody becomes a leader in a tally but by winning. -/
theorem Decided.leads_iff (decided : h.Decided T peers past) :
    h.before.role ≠ .leader ∧ h.after.role = .leader ↔ h.Wins T peers past := by
  constructor
  · rintro ⟨before, after⟩
    by_contra loses
    by_cases deposed : ∃ r, h.Deposes r
    · obtain ⟨r, deposes⟩ := deposed
      simp [(decided.loses r deposes).role] at after
    · rw [decided.rests loses (not_exists.mp deposed)] at after
      exact before after
  · intro wins
    exact ⟨by simp [wins.role], (decided.wins wins).role⟩

theorem Decided.of_wins {me : String} (wins : Wins T peers past ⟨n, reply, n.becomeLeader me peers⟩) :
    Decided T peers past ⟨n, reply, n.becomeLeader me peers⟩ where
  wins _ :=
    { role := Node.becomeLeader_role me peers n
      term := (Node.becomeLeader_term me peers n).trans wins.term
      log := by rw [Node.becomeLeader_log, wins.term]
      progress := by simp [Node.lastIndex] }
  loses r deposes := absurd deposes (wins.not_deposes r)
  rests loses := absurd wins loses

theorem Decided.of_later {r : VoteReply} (m : Moment) (later : n.term < r.term) :
    Decided T peers past ⟨n, some r, n.stepDown m r.term⟩ where
  wins wins := absurd ⟨rfl, later⟩ (wins.not_deposes r)
  loses r' deposes := by
    obtain rfl := Option.some.inj deposes.1
    refine ⟨rfl, ?_, ?_⟩
    · rw [Node.stepDown_term, Nat.max_eq_right (Nat.le_of_lt later)]
    · rw [Node.stepDown_votedFor, if_pos later]
  rests _ stays := absurd ⟨rfl, later⟩ (stays r)

theorem votes_concat (past : List Hearing) (h : Hearing) :
    votes (past ++ [h]) = votes past + if h.grants then 1 else 0 := by
  rw [votes, votes, List.countP_append, List.countP_singleton, Nat.add_assoc]

/-- Where the votes so far are counted, the count decides what becomes of the node. -/
theorem decided_count (me : String) (peers : Nat) (past : List Hearing) (reply : Option VoteReply)
    {e : Election} (current : ∀ r, reply = some r → r.term ≤ n.term)
    (counted : e = ⟨T, votes past + if reply.any VoteReply.granted then 1 else 0,
      quorum (peers + 1)⟩) :
    let h : Hearing := ⟨n, reply, (e.count me peers n).2⟩
    h.Decided T peers past ∧ (h.Wins T peers past ↔ (e.count me peers n).1 = .won) := by
  intro h
  have wins_iff : h.Wins T peers past ↔ (e.count me peers n).1 = .won := by
    have votes_eq : votes (past ++ [h]) = e.granted := by rw [votes_concat, counted]; rfl
    rw [Node.count_won_iff]
    constructor
    · intro wins
      refine ⟨wins.role, by rw [counted]; exact wins.term, ?_⟩
      rw [← votes_eq, counted]
      exact wins.enough
    · rintro ⟨role, term, enough⟩
      rw [← votes_eq, counted] at enough
      exact ⟨role, by rw [counted] at term; exact term, current, enough⟩
  refine ⟨?_, wins_iff⟩
  rcases Node.count_cases me peers e n with ⟨tally, lost, c⟩ | ⟨_, _, _, c⟩
  · rw [c] at wins_iff
    refine ⟨fun wins => absurd (wins_iff.mp wins) lost, fun r deposes => ?_, fun _ _ => ?_⟩
    · exact absurd deposes.2 (Nat.not_lt_of_le (current r deposes.1))
    · simp only [h, c]
  · have wins := wins_iff.mpr (by rw [c])
    simp only [h, c] at wins ⊢
    exact .of_wins wins

end Hearing

namespace Timer

open Hearing

variable {T peers : Nat} {heard past rest : List Hearing} {h : Hearing} {k : Timer}

/-- An election that a task holds: the term it is held in, the number of peers, the tallies so far,
    and where the task stands. The calls end in any order and with any replies, and between two
    steps of the task others may do to the member whatever they like, except that it keeps its
    address and its peers. -/
inductive Canvass : Nat → Nat → List Hearing → Timer → Prop where
  | opens (t : Moment) (m m' : Member) (request : VoteRequest) (e : Election)
      (calls : List (Call VoteRequest VoteReply))
      (opened : m.openElection t = (some (request, e), m')) :
      Canvass (m.node.nextTerm) m.peers.length [] ⟨m', .electing e calls⟩
  /-- Without peers the candidate counts its own vote. -/
  | alone (t : Moment) (m m' : Member) (due : m.node.electionDue t.now = true)
      (few : m.needed ≤ 1) (same : m.Same m') (tally : Tally) (n : Node)
      (counts : Election.count m'.address m'.peers.length ⟨m.node.nextTerm, 1, m.needed⟩ m'.node =
        (tally, n)) :
      Canvass (m.node.nextTerm) m.peers.length [⟨m'.node, none, n⟩] ⟨m'.settle tally n, .ready⟩
  | meanwhile {T peers : Nat} {heard : List Hearing} (m m' : Member) (phase : Phase)
      (canvass : Canvass T peers heard ⟨m, phase⟩) (same : m.Same m') :
      Canvass T peers heard ⟨m', phase⟩
  /-- A call fails, or takes too long. -/
  | misses {T peers : Nat} {heard : List Hearing} (t : Moment) (m : Member) (e : Election)
      (call : Call VoteRequest VoteReply) (rest : List (Call VoteRequest VoteReply))
      (canvass : Canvass T peers heard ⟨m, .electing e (call :: rest)⟩)
      (failed : call.reply = none) :
      Canvass T peers heard (takeVote t e call rest ⟨m, .electing e (call :: rest)⟩)
  | hears {T peers : Nat} {heard : List Hearing} (t : Moment) (m : Member) (e : Election)
      (call : Call VoteRequest VoteReply) (rest : List (Call VoteRequest VoteReply))
      (canvass : Canvass T peers heard ⟨m, .electing e (call :: rest)⟩) (reply : VoteReply)
      (answered : call.reply = some reply) (k : Timer)
      (folds : takeVote t e call rest ⟨m, .electing e (call :: rest)⟩ = k) :
      Canvass T peers (heard ++ [⟨m.node, some reply, k.member.node⟩]) k
  /-- No call is out any more, and the election is not decided. -/
  | concludes {T peers : Nat} {heard : List Hearing} (m : Member) (e : Election)
      (canvass : Canvass T peers heard ⟨m, .electing e []⟩) : Canvass T peers heard ⟨m, .ready⟩

/-- What is known of an election that is held. -/
structure Held (T peers : Nat) (heard : List Hearing) (k : Timer) : Prop where
  electorate : k.member.peers.length = peers
  election : ∀ e calls, k.phase = .electing e calls → e = ⟨T, votes heard, quorum (peers + 1)⟩
  decided : ∀ past h rest, heard = past ++ h :: rest → h.Decided T peers past
  /-- Once the election is decided, no reply is taken in any more. -/
  ends : ∀ past h rest, heard = past ++ h :: rest →
    (h.Wins T peers past ∨ ∃ r, h.Deposes r) → rest = [] ∧ k.phase = .ready

theorem takeVote_failed (t : Moment) (m : Member) (e : Election) (phase : Phase)
    (calls : List (Call VoteRequest VoteReply)) {call : Call VoteRequest VoteReply}
    (failed : call.reply = none) : ∃ m', m.Same m' ∧
      takeVote t e call calls ⟨m, phase⟩ = ⟨m', .electing e calls⟩ := by
  refine ⟨_, m.same_foldVote t e call.reply, ?_⟩
  rw [takeVote, failed]
  rfl

theorem takeVote_answered {t : Moment} {m : Member} {e : Election} {phase : Phase}
    {call : Call VoteRequest VoteReply} {calls : List (Call VoteRequest VoteReply)}
    {reply : VoteReply} (answered : call.reply = some reply) {tally : Tally} {e' : Election}
    {n : Node} (folds : e.fold t m.address m.peers.length reply m.node = (tally, e', n)) :
    takeVote t e call calls ⟨m, phase⟩ =
      ⟨m.settle tally n, if tally = .goesOn then .electing e' calls else .ready⟩ := by
  rw [takeVote, answered]
  simp only [Member.foldVote, folds]
  cases tally <;> rfl

theorem held_of_opens {m : Member} (electorate : m.peers.length = peers)
    (calls : List (Call VoteRequest VoteReply)) :
    Held T peers [] ⟨m, .electing ⟨T, 1, quorum (peers + 1)⟩ calls⟩ where
  electorate := electorate
  election := by
    intro e calls' electing
    obtain ⟨rfl, _⟩ := Phase.electing.inj electing
    rfl
  decided := by simp
  ends := by simp

theorem split_concat {x : Hearing} (parts : heard ++ [x] = past ++ h :: rest) :
    (past = heard ∧ h = x ∧ rest = []) ∨ ∃ rest', heard = past ++ h :: rest' := by
  rcases List.eq_nil_or_concat rest with rfl | ⟨rest', last, rfl⟩
  · obtain ⟨same, one⟩ := List.append_inj' parts rfl
    exact .inl ⟨same.symm, (List.head_eq_of_cons_eq one).symm, rfl⟩
  · rw [List.concat_eq_append, ← List.cons_append, ← List.append_assoc] at parts
    exact .inr ⟨rest', (List.append_inj' parts rfl).1⟩

/-- As long as the task goes on with an election, no tally has decided it. -/
theorem Held.concat {m : Member} {e : Election} {calls : List (Call VoteRequest VoteReply)}
    (held : Held T peers heard ⟨m, .electing e calls⟩) {x : Hearing}
    (electorate : k.member.peers.length = peers)
    (election : ∀ e calls, k.phase = .electing e calls →
      e = ⟨T, votes (heard ++ [x]), quorum (peers + 1)⟩)
    (decided : x.Decided T peers heard)
    (ends : (x.Wins T peers heard ∨ ∃ r, x.Deposes r) → k.phase = .ready) :
    Held T peers (heard ++ [x]) k := by
  refine ⟨electorate, election, ?_, ?_⟩
  · intro past h rest parts
    rcases split_concat parts with ⟨rfl, rfl, _⟩ | ⟨rest', earlier⟩
    · exact decided
    · exact held.decided past h rest' earlier
  · intro past h rest parts decides
    rcases split_concat parts with ⟨rfl, rfl, none⟩ | ⟨rest', earlier⟩
    · exact ⟨none, ends decides⟩
    · have ended := (held.ends past h rest' earlier decides).2
      simp at ended

theorem Held.hears {t : Moment} {m : Member} {e : Election} {call : Call VoteRequest VoteReply}
    {calls calls' : List (Call VoteRequest VoteReply)} {reply : VoteReply}
    (held : Held T peers heard ⟨m, .electing e calls'⟩) (answered : call.reply = some reply)
    (folds : takeVote t e call calls ⟨m, .electing e calls'⟩ = k) :
    Held T peers (heard ++ [⟨m.node, some reply, k.member.node⟩]) k := by
  obtain rfl := held.election e calls' rfl
  have electorate : m.peers.length = peers := held.electorate
  subst electorate
  cases Nat.lt_or_ge m.node.term reply.term with
  | inl later =>
      obtain rfl := (takeVote_answered answered (Node.fold_later later)).symm.trans folds
      apply held.concat
      · rfl
      · intro e' calls' electing
        simp at electing
      · rw [Member.settle_node]
        exact .of_later t later
      · exact fun _ => rfl
  | inr current =>
      let e : Election := ⟨T, votes heard, quorum (m.peers.length + 1)⟩
      let counted : Election := Node.heard reply e
      have counted_eq : counted = ⟨T, votes heard + if reply.granted then 1 else 0,
          quorum (m.peers.length + 1)⟩ := by
        simp only [counted, Node.heard]
        split <;> rfl
      have folded : e.fold t m.address m.peers.length reply m.node =
          ((counted.count m.address m.peers.length m.node).1, counted,
            (counted.count m.address m.peers.length m.node).2) := Node.fold_current current
      obtain rfl := (takeVote_answered answered folded).symm.trans folds
      have none_later : ∀ r, some reply = some r → r.term ≤ m.node.term := by
        rintro r same
        obtain rfl := Option.some.inj same
        exact current
      obtain ⟨decided, wins_iff⟩ :=
        decided_count m.address m.peers.length heard (some reply) none_later counted_eq
      apply held.concat
      · exact congrArg List.length (m.same_settle _ _).2
      · intro e' calls' electing
        split at electing
        · obtain ⟨rfl, rfl⟩ := Phase.electing.inj electing
          rw [votes_concat]
          exact counted_eq
        · simp at electing
      · rw [Member.settle_node]
        exact decided
      · rw [Member.settle_node]
        rintro (wins | ⟨r, deposes⟩)
        · exact if_neg (by rw [wins_iff.mp wins]; simp)
        · exact absurd deposes.2 (Nat.not_lt_of_le (none_later r deposes.1))

namespace Canvass

theorem held (canvass : Canvass T peers heard k) : Held T peers heard k := by
  induction canvass with
  | opens t m m' request e calls opened =>
      have same := m.same_openElection t
      rcases m.openElection_cases t with idle | ⟨_, ⟨_, alone, _⟩ | ⟨_, asks, _⟩⟩
      · simp [opened] at idle
      · simp [opened] at alone
      · rw [opened] at same asks
        obtain ⟨asked, _⟩ := Prod.mk.inj asks
        obtain ⟨_, rfl⟩ := Prod.mk.inj (Option.some.inj asked)
        exact held_of_opens (congrArg List.length same.2) calls
  | alone t m m' due few same tally n counts =>
      have electorate : m'.peers.length = m.peers.length := congrArg List.length same.2
      obtain ⟨decided, _⟩ := decided_count (T := m.node.nextTerm) (n := m'.node)
        (e := ⟨m.node.nextTerm, 1, m.needed⟩) m'.address m.peers.length [] none (by simp) rfl
      rw [electorate] at counts
      rw [counts] at decided
      refine (held_of_opens electorate []).concat ?_ ?_ ?_ ?_
      · exact (congrArg List.length (m'.same_settle tally n).2).trans electorate
      · simp
      · exact decided
      · exact fun _ => rfl
  | meanwhile m m' phase canvass same ih =>
      exact ⟨(congrArg List.length same.2).trans ih.electorate, ih.election, ih.decided, ih.ends⟩
  | misses t m e call rest canvass failed ih =>
      obtain ⟨m', same, next⟩ := takeVote_failed t m e (.electing e (call :: rest)) rest failed
      rw [next]
      refine ⟨(congrArg List.length same.2).trans ih.electorate, ?_, ih.decided, ?_⟩
      · intro e' calls electing
        obtain ⟨rfl, _⟩ := Phase.electing.inj electing
        exact ih.election e (call :: rest) rfl
      · intro past h rest' parts decides
        have ended := (ih.ends past h rest' parts decides).2
        simp at ended
  | hears t m e call rest canvass reply answered k folds ih => exact ih.hears answered folds
  | concludes m e canvass ih =>
      refine ⟨ih.electorate, by simp, ih.decided, fun past h rest parts decides => ?_⟩
      exact ⟨(ih.ends past h rest parts decides).1, rfl⟩

/-- Every election is held like this from its opening on. -/
theorem of_openElection {t : Moment} {m : Member} (due : m.node.electionDue t.now = true) :
    (∃ x m', m.openElection t = (none, m') ∧
      Canvass (m.node.nextTerm) m.peers.length [x] ⟨m', .ready⟩) ∨
    ∃ request e m', m.openElection t = (some (request, e), m') ∧
      ∀ calls, Canvass (m.node.nextTerm) m.peers.length [] ⟨m', .electing e calls⟩ := by
  let stands : Member := (m.become (m.node.beginCandidacy t m.address).2).count .elections []
  by_cases few : m.needed ≤ 1
  · have same : m.Same stands := ⟨rfl, rfl⟩
    refine .inl ⟨_, _, ?_, .alone t m stands due few same _ _ rfl⟩
    rw [Member.openElection, if_pos due]
    exact if_pos few
  · have opened := m.openElection_asks due few
    exact .inr ⟨_, _, _, opened, fun calls => .opens t m _ _ _ calls opened⟩

/-- Every step that the task takes in an election goes on with it or ends it. -/
theorem of_acts {t : Moment} {m : Member} {e : Election}
    {calls : List (Call VoteRequest VoteReply)} {k : Timer} {sending : Sending}
    (canvass : Canvass T peers heard ⟨m, .electing e calls⟩)
    (acts : Acts t ⟨m, .electing e calls⟩ k sending) : ∃ heard', Canvass T peers heard' k := by
  cases acts with
  | counts m e call rest =>
      cases answer : call.reply with
      | none => exact ⟨heard, .misses t m e call rest canvass answer⟩
      | some reply => exact ⟨_, .hears t m e call rest canvass reply answer _ rfl⟩
  | concludes m e => exact ⟨heard, .concludes m e canvass⟩

/-- A member becomes the leader in an election of its own exactly if one of the tallies finds it
    still a candidate in the term of the election, with a reply that is of no later term and with
    the majority of the votes granted up to there. It then leads this term with one barrier more in
    its log and a slot for every peer, and takes in no further reply. A reply of a later term than
    the member's ends the election as well, whatever was granted before; the member follows in that
    term and has given no vote in it. -/
theorem won_on_a_live_majority (canvass : Canvass T peers heard k) :
    ((∃ h ∈ heard, h.before.role ≠ .leader ∧ h.after.role = .leader) ↔
      ∃ past h rest, heard = past ++ h :: rest ∧ h.Wins T peers past) ∧
    ∀ past h rest, heard = past ++ h :: rest →
      (h.Wins T peers past → h.TakesLead T peers ∧ rest = [] ∧ k.phase = .ready) ∧
      (∀ r, h.Deposes r → h.StepsDown r.term ∧ rest = [] ∧ k.phase = .ready) ∧
      (¬ h.Wins T peers past → (∀ r, ¬ h.Deposes r) → h.after = h.before) := by
  have held := canvass.held
  refine ⟨?_, ?_⟩
  · constructor
    · rintro ⟨h, mem, leads⟩
      obtain ⟨past, rest, parts⟩ := List.append_of_mem mem
      exact ⟨past, h, rest, parts, (held.decided past h rest parts).leads_iff.mp leads⟩
    · rintro ⟨past, h, rest, parts, wins⟩
      refine ⟨h, by simp [parts], (held.decided past h rest parts).leads_iff.mpr wins⟩
  · intro past h rest parts
    have decided := held.decided past h rest parts
    refine ⟨fun wins => ?_, fun r deposes => ?_, decided.rests⟩
    · exact ⟨decided.wins wins, held.ends past h rest parts (.inl wins)⟩
    · exact ⟨decided.loses r deposes, held.ends past h rest parts (.inr ⟨r, deposes⟩)⟩

private def oneOfThree : Member := .start 0 "a" ["b", "c"] ⟨150, 300, 30, 50, 1000⟩

private def askedByOne : VoteRequest := ⟨1, 0, 0, 0, some "a"⟩

private def standsOfThree : Member := (oneOfThree.openElection ⟨150, 150⟩).2

/-- It is refused what another candidate of the same term asks of it. -/
private def refusesOther : Member :=
  ((standsOfThree.count .peerFailures [("rpc", "vote")]).decideVote ⟨205, 150⟩
    ⟨1, 0, 0, 0, some "c"⟩).2

/-- A candidate of three, whose first peer does not answer and whose second one grants its vote. -/
theorem won_on_a_live_majority_with_one_peer_silent : ∃ x k, Canvass 1 2 [x] k ∧
    x.Wins 1 2 [] ∧ x.TakesLead 1 2 ∧ k.phase = .ready := by
  let silent : Call VoteRequest VoteReply := ⟨0, askedByOne, 200, none⟩
  let granting : Call VoteRequest VoteReply := ⟨1, askedByOne, 210, some ⟨true, 1⟩⟩
  have opened := Canvass.opens ⟨150, 150⟩ oneOfThree standsOfThree askedByOne ⟨1, 1, 2⟩
    [silent, granting] rfl
  have waiting := Canvass.misses ⟨200, 150⟩ _ _ silent [granting] opened rfl
  have stays : Canvass 1 2 [] ⟨refusesOther, .electing ⟨1, 1, 2⟩ [granting]⟩ :=
    waiting.meanwhile _ _ _ (Member.same_decideVote _ _ _)
  have won := stays.hears ⟨210, 150⟩ _ _ granting [] ⟨true, 1⟩ rfl _ rfl
  have wins : ∀ n, Wins 1 2 [] ⟨refusesOther.node, some ⟨true, 1⟩, n⟩ := by
    intro n
    refine ⟨rfl, rfl, ?_, Nat.le_refl 2⟩
    rintro _ ⟨rfl⟩
    exact Nat.le_refl 1
  obtain ⟨leads, _, ended⟩ := ((won_on_a_live_majority won).2 [] _ [] rfl).1 (wins _)
  exact ⟨_, _, won, wins _, leads, ended⟩

end Canvass

end Timer

end QuorumStore
