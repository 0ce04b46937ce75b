import QuorumStore.Proofs.Run
import QuorumStore.Proofs.Lasting
import QuorumStore.Proofs.MemberSteps
import Mathlib.Data.Fintype.Card
/-! # What an act can do

An act changes at most one node, and at most one ballot or round. The three inductive propositions
here list the ways in which a node, a ballot or a round can come out of an act; every invariant of
runs goes through one of these lists.
-/

namespace QuorumStore

namespace Exchange

variable {n : Nat} {τ σ ρ : Type}

theorem mem_waiting_of_outcome? {x : Exchange n τ σ ρ} {peer : Nat} {choice : Option Nat}
    {outcome : Option ρ} (h : x.outcome? peer choice = some outcome) : peer ∈ x.waiting := by
  simp only [outcome?] at h
  split at h
  · assumption
  · simp at h

/-- A call ends while it is open, and with an answer that its peer gave. -/
theorem outcome?_some {x : Exchange n τ σ ρ} {peer : Nat} {choice : Option Nat} {reply : ρ}
    (h : x.outcome? peer choice = some (some reply)) :
    peer ∈ x.waiting ∧ (peer, reply) ∈ x.answers := by
  have waits := mem_waiting_of_outcome? h
  refine ⟨waits, ?_⟩
  simp only [outcome?, if_pos waits] at h
  cases choice with
  | none => simp at h
  | some number =>
      simp only at h
      split at h
      · rename_i p answer at_
        split at h
        · rename_i same
          obtain rfl := Option.some.inj (Option.some.inj h)
          exact same ▸ List.mem_of_getElem? at_
        · simp at h
      · simp at h

/-- A request that arrives is answered; nothing else happens. -/
theorem arrive_cases (r : Roster n) (handle : Moment → σ → Member → ρ × Member) (t : Moment)
    (peer : Nat) (x : Exchange n τ σ ρ) (member : Fin n → Member) :
    x.arrive r handle t peer member = (x, member) ∨
    ∃ j request, (r.peers x.caller)[peer]? = some j ∧ x.sent[peer]? = some request ∧
      x.arrive r handle t peer member = (x.answer peer (handle t request (member j)).1,
        Function.update member j (handle t request (member j)).2) := by
  rw [arrive]
  split
  · rename_i j request target sent
    exact .inr ⟨j, request, target, sent, rfl⟩
  · exact .inl rfl

end Exchange

theorem set_of_getElem? {α : Type} {xs : List α} {i : Nat} {x : α} (h : xs[i]? = some x) :
    xs.set i x = xs := by
  obtain ⟨inside, rfl⟩ := List.getElem?_eq_some_iff.mp h
  exact List.set_getElem_self inside

namespace System

variable {n : Nat}

/-- The states that an act can lead to. -/
inductive Step (r : Roster n) (s : System n) : Act n → System n → Prop where
  | rests (act : Act n) : Step r s act s
  | wakes (i : Fin n) (t : Moment) (m : Member) : (s.member i).node.HasNextTerm →
      (s.member i).openElection t = (none, m) →
      Step r s (.wake i t) (s.put i m)
  | opensBallot (i : Fin n) (t : Moment) (request : VoteRequest) (election : Election)
      (m : Member) : (s.member i).node.HasNextTerm →
      (s.member i).openElection t = (some (request, election), m) →
      Step r s (.wake i t) { s.put i m with
        ballots := s.ballots ++ [.start i election ((r.peers i).map fun _ => request)] }
  | votes (ballot peer : Nat) (x : Ballot n) (j : Fin n) (request : VoteRequest) (t : Moment) :
      s.ballots[ballot]? = some x → (r.peers x.caller)[peer]? = some j →
      x.sent[peer]? = some request →
      Step r s (.askVote ballot peer t) { s.put j ((s.member j).decideVote t request).2 with
        ballots := s.ballots.set ballot
          (x.answer peer ((s.member j).decideVote t request).1) }
  | counts (ballot peer : Nat) (x : Ballot n) (choice : Option Nat) (reply : Option VoteReply)
      (t : Moment) (goesOn : Bool) :
      s.ballots[ballot]? = some x → x.outcome? peer choice = some reply →
      Step r s (.hearVote ballot peer choice t)
        { s.put x.caller ((s.member x.caller).foldVote t x.task reply).2.2 with
          ballots := s.ballots.set ballot
            (x.close peer goesOn ((s.member x.caller).foldVote t x.task reply).2.1) }
  | opensRound (i : Fin n) (term : Nat) (requests : List HeartbeatRequest) :
      (s.member i).openRound = some (term, requests) →
      Step r s (.openRound i) { s with rounds := s.rounds ++ [.start i term requests] }
  | follows (round peer : Nat) (x : Round n) (j : Fin n) (request : HeartbeatRequest)
      (t : Moment) :
      s.rounds[round]? = some x → (r.peers x.caller)[peer]? = some j →
      x.sent[peer]? = some request →
      Step r s (.beat round peer t) { s.put j ((s.member j).handleHeartbeat t request).2 with
        rounds := s.rounds.set round
          (x.answer peer ((s.member j).handleHeartbeat t request).1) }
  | records (round peer : Nat) (x : Round n) (choice : Option Nat) (sent : HeartbeatRequest)
      (reply : Option HeartbeatReply) (t : Moment) (goesOn : Bool) :
      s.rounds[round]? = some x → x.outcome? peer choice = some reply →
      x.sent[peer]? = some sent →
      Step r s (.hearBeat round peer choice t) { s.put x.caller
          ((s.member x.caller).foldHeartbeat t x.task peer sent reply).2 with
        rounds := s.rounds.set round (x.close peer goesOn x.task) }
  | stages (i : Fin n) (key : String) (write : Write) (staged : Record × Nat) (m : Member) :
      (s.member i).put key write = .ok (staged, m) →
      Step r s (.write i key write) (s.put i m)

/-- Every act is such a step. -/
theorem step_act (r : Roster n) (s : System n) (act : Act n) :
    Step r s act (s.act r act) := by
  cases act with
  | wake i t =>
      simp only [System.act]
      split
      · rename_i more
        split
        · rename_i opened
          exact .opensBallot i t _ _ _ more opened
        · rename_i opened
          exact .wakes i t _ more opened
      · exact .rests _
  | askVote ballot peer t =>
      simp only [System.act]
      split
      · exact .rests _
      · rename_i x at_
        rcases x.arrive_cases r Member.decideVote t peer s.member with
          h | ⟨j, request, target, sent, h⟩
        · rw [h, set_of_getElem? at_]
          exact .rests _
        · rw [h]
          exact .votes ballot peer x j request t at_ target sent
  | hearVote ballot peer choice t =>
      simp only [System.act]
      split
      · exact .rests _
      · rename_i x at_
        split
        · exact .rests _
        · rename_i reply outcome
          exact .counts ballot peer x choice reply t _ at_ outcome
  | openRound i =>
      simp only [System.act]
      split
      · exact .rests _
      · rename_i opened
        exact .opensRound i _ _ opened
  | beat round peer t =>
      simp only [System.act]
      split
      · exact .rests _
      · rename_i x at_
        rcases x.arrive_cases r Member.handleHeartbeat t peer s.member with
          h | ⟨j, request, target, sent, h⟩
        · rw [h, set_of_getElem? at_]
          exact .rests _
        · rw [h]
          exact .follows round peer x j request t at_ target sent
  | hearBeat round peer choice t =>
      simp only [System.act]
      split
      · exact .rests _
      · rename_i x at_
        split
        · rename_i reply sent outcome request
          exact .records round peer x choice sent reply t _ at_ outcome request
        · exact .rests _
  | write i key write =>
      simp only [System.act]
      split
      · exact .rests _
      · rename_i staged m ok
        exact .stages i key write staged m ok

end System

/-- A member and its peers are the whole cluster. -/
theorem Roster.length_peers {n : Nat} (r : Roster n) (i : Fin n) :
    (r.peers i).length + 1 = n := by
  have others : (r.peers i).toFinset = Finset.univ.erase i := by
    ext j
    simp [r.mem_peers]
  have card := List.toFinset_card_of_nodup (r.peers_nodup i)
  rw [others, Finset.card_erase_of_mem (Finset.mem_univ i), Finset.card_univ,
    Fintype.card_fin] at card
  have := i.pos
  omega

namespace Run

variable {n : Nat} (R : Run n)

/-- How the node of a member comes out of the act after a moment. -/
inductive Move (k : Nat) (i : Fin n) : Prop where
  | rests : R.node (k + 1) i = R.node k i → Move k i
  | campaigns (t : Moment) : (R.node k i).electionDue t.now = true → (R.node k i).HasNextTerm →
      R.node (k + 1) i = ((R.node k i).beginCandidacy t (R.roster.address i)).2 → Move k i
  /-- An election without peers is over at once. -/
  | campaignsAlone (t : Moment) : R.acts k = .wake i t → (R.node k i).electionDue t.now = true →
      (R.node k i).HasNextTerm →
      R.node (k + 1) i =
        ((⟨(R.node k i).term + 1, 1, quorum ((R.roster.peers i).length + 1)⟩ : Election).count
          (R.roster.address i) (R.roster.peers i).length
          ((R.node k i).beginCandidacy t (R.roster.address i)).2).2 → Move k i
  | votes (x : Ballot n) (peer : Nat) (request : VoteRequest) (t : Moment) :
      x ∈ (R.state k).ballots → (R.roster.peers x.caller)[peer]? = some i →
      x.sent[peer]? = some request →
      R.node (k + 1) i = ((R.node k i).decideVote t request).2 → Move k i
  | counts (ballot peer : Nat) (choice : Option Nat) (x : Ballot n) (reply : VoteReply)
      (t : Moment) : R.acts k = .hearVote ballot peer choice t →
      (R.state k).ballots[ballot]? = some x → x.outcome? peer choice = some (some reply) →
      x.caller = i →
      R.node (k + 1) i = (x.task.fold t (R.roster.address i) (R.roster.peers i).length reply
        (R.node k i)).2.2 → Move k i
  | follows (x : Round n) (peer : Nat) (request : HeartbeatRequest) (t : Moment) :
      x ∈ (R.state k).rounds → (R.roster.peers x.caller)[peer]? = some i →
      x.sent[peer]? = some request →
      R.node (k + 1) i = ((R.node k i).handleHeartbeat t request).2 → Move k i
  | records (x : Round n) (peer : Nat) (sent : HeartbeatRequest) (reply : HeartbeatReply)
      (t : Moment) :
      x ∈ (R.state k).rounds → x.caller = i → (peer, reply) ∈ x.answers →
      x.sent[peer]? = some sent →
      R.node (k + 1) i = ((R.node k i).recordReply t x.task peer sent reply).2 → Move k i
  | stages (key : String) (write : Write) (staged : Record × Nat) :
      R.acts k = .write i key write →
      (R.node k i).stageWrite key write = .ok (staged, R.node (k + 1) i) → Move k i

/-- How a ballot comes out of the act after a moment. -/
inductive BallotAfter (k : Nat) : Ballot n → Prop where
  | kept (x : Ballot n) : x ∈ (R.state k).ballots → BallotAfter k x
  | opened (i : Fin n) (t : Moment) : (R.node k i).HasNextTerm →
      R.node (k + 1) i = ((R.node k i).beginCandidacy t (R.roster.address i)).2 →
      BallotAfter k (.start i
        ⟨(R.node k i).term + 1, 1, quorum ((R.roster.peers i).length + 1)⟩
        ((R.roster.peers i).map fun _ =>
          ((R.node k i).beginCandidacy t (R.roster.address i)).1))
  | answered (x : Ballot n) (peer : Nat) (j : Fin n) (request : VoteRequest) (t : Moment) :
      x ∈ (R.state k).ballots → (R.roster.peers x.caller)[peer]? = some j →
      x.sent[peer]? = some request →
      R.node (k + 1) j = ((R.node k j).decideVote t request).2 →
      BallotAfter k (x.answer peer ((R.node k j).decideVote t request).1)
  | closed (x : Ballot n) (peer : Nat) (goesOn : Bool) (task : Election) :
      x ∈ (R.state k).ballots → peer ∈ x.waiting →
      (task = x.task ∨ ∃ reply, (peer, reply) ∈ x.answers ∧ task = Node.heard reply x.task) →
      BallotAfter k (x.close peer goesOn task)

/-- How a round comes out of the act after a moment. -/
inductive RoundAfter (k : Nat) : Round n → Prop where
  | kept (x : Round n) : x ∈ (R.state k).rounds → RoundAfter k x
  | opened (i : Fin n) : (R.node k i).role = .leader →
      RoundAfter k (.start i (R.node k i).term
        ((List.range (R.roster.peers i).length).filterMap fun peer =>
          (R.node k i).heartbeatFor? peer (R.roster.address i)))
  | answered (x : Round n) (peer : Nat) (j : Fin n) (request : HeartbeatRequest) (t : Moment) :
      x ∈ (R.state k).rounds → (R.roster.peers x.caller)[peer]? = some j →
      x.sent[peer]? = some request →
      R.node (k + 1) j = ((R.node k j).handleHeartbeat t request).2 →
      RoundAfter k (x.answer peer ((R.node k j).handleHeartbeat t request).1)
  | closed (x : Round n) (peer : Nat) (goesOn : Bool) :
      x ∈ (R.state k).rounds → RoundAfter k (x.close peer goesOn x.task)

theorem step (k : Nat) : (R.state k).Step R.roster (R.acts k) (R.state (k + 1)) :=
  System.step_act R.roster (R.state k) (R.acts k)

/-- A member that an act does not put in place anew is as it was. -/
theorem member_put {k : Nat} {j : Fin n} {m : Member}
    (h : (R.state (k + 1)).member = Function.update (R.state k).member j m) (i : Fin n) :
    i = j ∧ R.member (k + 1) i = m ∨ R.member (k + 1) i = R.member k i := by
  by_cases eq : i = j
  · subst eq
    exact .inl ⟨rfl, by rw [member, h, Function.update_self]⟩
  · exact .inr (by rw [member, h, Function.update_of_ne eq, member])

theorem node_put {k : Nat} {j : Fin n} {m : Member}
    (h : (R.state (k + 1)).member = Function.update (R.state k).member j m) :
    R.node (k + 1) j = m.node := by
  rw [node, member, h, Function.update_self]

/-- Nobody ever changes its address or its peers. -/
theorem same_member (k : Nat) (i : Fin n) : (R.member k i).Same (R.member (k + 1) i) := by
  have put : ∀ (j : Fin n) (m : Member), (R.member k j).Same m →
      (R.state (k + 1)).member = Function.update (R.state k).member j m →
      (R.member k i).Same (R.member (k + 1) i) := by
    intro j m same h
    rcases R.member_put h i with ⟨rfl, new⟩ | old
    · rwa [new]
    · rw [old]
      exact ⟨rfl, rfl⟩
  have step := R.step k
  generalize next : R.state (k + 1) = s' at step
  generalize did : R.acts k = act at step
  cases step with
  | rests => rw [member, member, next]; exact ⟨rfl, rfl⟩
  | opensRound => rw [member, member, next]; exact ⟨rfl, rfl⟩
  | wakes j t m _ opened =>
      have same := (R.member k j).same_openElection t
      rw [member, opened] at same
      exact put j m same (by rw [next]; rfl)
  | opensBallot j t request election m _ opened =>
      have same := (R.member k j).same_openElection t
      rw [member, opened] at same
      exact put j m same (by rw [next]; rfl)
  | votes _ _ _ j => exact put j _ (Member.same_decideVote ..) (by rw [next]; rfl)
  | counts _ _ x => exact put x.caller _ (Member.same_foldVote ..) (by rw [next]; rfl)
  | follows _ _ _ j => exact put j _ (Member.same_handleHeartbeat ..) (by rw [next]; rfl)
  | records _ _ x => exact put x.caller _ (Member.same_foldHeartbeat ..) (by rw [next]; rfl)
  | stages j key write staged m ok => exact put j m (Member.put_ok ok).1 (by rw [next]; rfl)

theorem member_address (k : Nat) (i : Fin n) : (R.member k i).address = R.roster.address i := by
  induction k with
  | zero => rfl
  | succ k ih => exact (R.same_member k i).1.trans ih

theorem member_peers (k : Nat) (i : Fin n) :
    (R.member k i).peers = (R.roster.peers i).map R.roster.address := by
  induction k with
  | zero => rfl
  | succ k ih => exact (R.same_member k i).2.trans ih

theorem length_member_peers (k : Nat) (i : Fin n) :
    (R.member k i).peers.length = (R.roster.peers i).length := by
  rw [member_peers, List.length_map]

theorem node_hearVote {k ballot peer : Nat} {choice : Option Nat} {t : Moment} {x : Ballot n}
    {reply : Option VoteReply} (did : R.acts k = .hearVote ballot peer choice t)
    (at_ : (R.state k).ballots[ballot]? = some x) (outcome : x.outcome? peer choice = some reply) :
    R.node (k + 1) x.caller = ((R.member k x.caller).foldVote t x.task reply).2.2.node := by
  apply R.node_put
  rw [state, did]
  simp only [System.act, at_, outcome]
  rfl

theorem node_wake {k : Nat} {i : Fin n} {t : Moment} (did : R.acts k = .wake i t)
    (more : (R.node k i).HasNextTerm) :
    R.node (k + 1) i = ((R.member k i).openElection t).2.node := by
  apply R.node_put
  rw [node, member] at more
  rw [state, did, member]
  simp only [System.act, if_pos more]
  split
  · rename_i opened
    rw [opened]
    rfl
  · rename_i opened
    rw [opened]
    rfl

/-- A node comes out of every act in one of these ways. -/
theorem move (k : Nat) (i : Fin n) : R.Move k i := by
  have put : ∀ (j : Fin n) (m : Member), (i = j → R.node (k + 1) i = m.node → R.Move k i) →
      (R.state (k + 1)).member = Function.update (R.state k).member j m → R.Move k i := by
    intro j m moves h
    rcases R.member_put h i with ⟨same, new⟩ | old
    · exact moves same (congrArg Member.node new)
    · exact .rests (congrArg Member.node old)
  have length := R.length_member_peers k i
  have step := R.step k
  generalize next : R.state (k + 1) = s' at step
  generalize did : R.acts k = act at step
  cases step with
  | rests => exact .rests (by rw [node, node, member, member, next])
  | opensRound => exact .rests (by rw [node, node, member, member, next])
  | wakes j t m more opened =>
      refine put j m ?_ (by rw [next]; rfl)
      rintro rfl new
      have cases := (R.member k i).openElection_cases t
      have term : (R.member k i).node.nextTerm = (R.node k i).term + 1 := more.nextTerm
      rw [member_address, Member.needed, length, term] at cases
      rcases cases with h | ⟨due, ⟨m', h, won⟩ | ⟨m', h, _⟩⟩
      · rw [member, opened] at h
        obtain rfl := congrArg Prod.snd h
        exact .rests new
      · rw [member, opened] at h
        obtain rfl := congrArg Prod.snd h
        exact .campaignsAlone t did due more (new.trans won)
      · rw [member, opened] at h
        simp at h
  | opensBallot j t request election m more opened =>
      refine put j m ?_ (by rw [next]; rfl)
      rintro rfl new
      have cases := (R.member k i).openElection_cases t
      rw [member_address] at cases
      rcases cases with h | ⟨due, ⟨m', h, _⟩ | ⟨m', h, begun⟩⟩
      · rw [member, opened] at h
        simp at h
      · rw [member, opened] at h
        simp at h
      · rw [member, opened] at h
        obtain rfl := congrArg Prod.snd h
        exact .campaigns t due more (new.trans begun)
  | votes ballot peer x j request t at_ target sent =>
      refine put j _ ?_ (by rw [next]; rfl)
      rintro rfl new
      exact .votes x peer request t (List.mem_of_getElem? at_) target sent new
  | counts ballot peer x choice reply t goesOn at_ outcome =>
      refine put x.caller _ ?_ (by rw [next]; rfl)
      rintro rfl new
      cases reply with
      | none => exact .rests new
      | some reply =>
          refine .counts ballot peer choice x reply t did at_ outcome rfl ?_
          rw [new, Member.foldVote_some_node, ← length, ← member_address (k := k)]
          rfl
  | follows round peer x j request t at_ target sent =>
      refine put j _ ?_ (by rw [next]; rfl)
      rintro rfl new
      exact .follows x peer request t (List.mem_of_getElem? at_) target sent new
  | records round peer x choice sent reply t goesOn at_ outcome request =>
      refine put x.caller _ ?_ (by rw [next]; rfl)
      rintro rfl new
      cases reply with
      | none => exact .rests new
      | some reply =>
          exact .records x peer sent reply t (List.mem_of_getElem? at_) rfl
            (Exchange.outcome?_some outcome).2 request new
  | stages j key write staged m ok =>
      refine put j m ?_ (by rw [next]; rfl)
      rintro rfl new
      refine .stages key write staged did ?_
      rw [new]
      exact (Member.put_ok ok).2

/-- A ballot comes out of every act in one of these ways. -/
theorem ballotAfter {k : Nat} {x : Ballot n} (hx : x ∈ (R.state (k + 1)).ballots) :
    R.BallotAfter k x := by
  have step := R.step k
  generalize next : R.state (k + 1) = s' at step
  generalize did : R.acts k = act at step
  rw [next] at hx
  cases step with
  | rests => exact .kept x hx
  | wakes => exact .kept x hx
  | opensRound => exact .kept x hx
  | follows => exact .kept x hx
  | records => exact .kept x hx
  | stages => exact .kept x hx
  | opensBallot i t request election m more opened =>
      rcases List.mem_append.mp hx with old | new
      · exact .kept x old
      obtain rfl := List.mem_singleton.mp new
      have cases := (R.member k i).openElection_cases t
      rw [member_address, Member.needed, length_member_peers] at cases
      rcases cases with h | ⟨due, ⟨m', h, _⟩ | ⟨m', h, begun⟩⟩
      · rw [member, opened] at h
        simp at h
      · rw [member, opened] at h
        simp at h
      · rw [member, opened] at h
        obtain ⟨asked, rfl⟩ := Prod.mk.inj h
        obtain ⟨rfl, rfl⟩ := Prod.mk.inj (Option.some.inj asked)
        rw [more.nextTerm]
        exact .opened i t more ((R.node_put (by rw [next]; rfl)).trans begun)
  | votes ballot peer x' j request t at_ target sent =>
      rcases List.mem_or_eq_of_mem_set hx with old | rfl
      · exact .kept x old
      · refine .answered x' peer j request t (List.mem_of_getElem? at_) target sent ?_
        exact R.node_put (by rw [next]; rfl)
  | counts ballot peer x' choice reply t goesOn at_ outcome =>
      rcases List.mem_or_eq_of_mem_set hx with old | rfl
      · exact .kept x old
      · refine .closed x' peer goesOn _ (List.mem_of_getElem? at_)
          (Exchange.mem_waiting_of_outcome? outcome) ?_
        rcases Member.foldVote_election _ t x'.task reply with h | ⟨r, rfl, h⟩
        · exact .inl h
        · exact .inr ⟨r, (Exchange.outcome?_some outcome).2, h⟩

/-- A round comes out of every act in one of these ways. -/
theorem roundAfter {k : Nat} {x : Round n} (hx : x ∈ (R.state (k + 1)).rounds) :
    R.RoundAfter k x := by
  have step := R.step k
  generalize next : R.state (k + 1) = s' at step
  generalize did : R.acts k = act at step
  rw [next] at hx
  cases step with
  | rests => exact .kept x hx
  | wakes => exact .kept x hx
  | opensBallot => exact .kept x hx
  | votes => exact .kept x hx
  | counts => exact .kept x hx
  | stages => exact .kept x hx
  | opensRound i term requests opened =>
      rcases List.mem_append.mp hx with old | new
      · exact .kept x old
      obtain rfl := List.mem_singleton.mp new
      change (R.member k i).openRound = _ at opened
      rw [Member.openRound, length_member_peers, member_address] at opened
      split at opened
      · rename_i leads
        obtain ⟨rfl, rfl⟩ := Prod.mk.inj (Option.some.inj opened)
        exact .opened i leads
      · simp at opened
  | follows round peer x' j request t at_ target sent =>
      rcases List.mem_or_eq_of_mem_set hx with old | rfl
      · exact .kept x old
      · refine .answered x' peer j request t (List.mem_of_getElem? at_) target sent ?_
        exact R.node_put (by rw [next]; rfl)
  | records round peer x' choice sent reply t goesOn at_ outcome request =>
      rcases List.mem_or_eq_of_mem_set hx with old | rfl
      · exact .kept x old
      · exact .closed x' peer goesOn (List.mem_of_getElem? at_)

/-! ## What lasts -/

theorem sound (k : Nat) (i : Fin n) : Node.Sound (R.roster.address i) (R.node k i) := by
  induction k with
  | zero => exact Node.sound_start ..
  | succ k ih =>
      cases R.move k i with
      | rests h => rwa [h]
      | campaigns t _ _ h => rw [h]; exact ih.beginCandidacy t
      | campaignsAlone t _ _ _ h => rw [h]; exact (ih.beginCandidacy t).count ..
      | votes _ _ _ t _ _ _ h => rw [h]; exact ih.decideVote t _
      | counts _ _ _ _ _ t _ _ _ _ h => rw [h]; exact ih.fold t ..
      | follows _ _ _ t _ _ _ h => rw [h]; exact ih.handleHeartbeat t _
      | records _ _ _ _ t _ _ _ _ h => rw [h]; exact ih.recordReply t ..
      | stages _ _ _ _ ok => exact ih.stageWrite ok

theorem later_succ (k : Nat) (i : Fin n) : Node.Later (R.node k i) (R.node (k + 1) i) := by
  have sound := R.sound k i
  cases R.move k i with
  | rests h => rw [h]; exact .refl _
  | campaigns t _ more h => rw [h]; exact more.later_beginCandidacy ..
  | campaignsAlone t _ _ more h =>
      rw [h]
      exact (more.later_beginCandidacy ..).trans ((sound.beginCandidacy t).later_count ..)
  | votes _ _ _ t _ _ _ h => rw [h]; exact Node.later_decideVote ..
  | counts _ _ _ _ _ t _ _ _ _ h => rw [h]; exact sound.later_fold t ..
  | follows _ _ _ t _ _ _ h => rw [h]; exact sound.later_handleHeartbeat t _
  | records _ _ _ _ t _ _ _ _ h => rw [h]; exact Node.later_recordReply t ..
  | stages _ _ _ _ ok => exact sound.later_stageWrite ok

theorem later {k l : Nat} (le : k ≤ l) (i : Fin n) : Node.Later (R.node k i) (R.node l i) := by
  induction l, le using Nat.le_induction with
  | base => exact .refl _
  | succ l _ ih => exact ih.trans (R.later_succ l i)

end Run

end QuorumStore
