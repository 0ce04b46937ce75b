import QuorumStore.Proofs.MemberSteps
import QuorumStore.Proofs.TimerSteps
import Mathlib.Data.Finset.Card
import Mathlib.Data.Finset.Max
import Mathlib.Data.Prod.Lex
import Mathlib.Logic.Relation
/-! # Who can be elected

A voter compares its own log with what the candidate tells of another one, in other numbers than
its own. It all comes down to one order in which any two logs compare, the commit index included.
So among any members there is one that no other is ahead of. Once its term is late enough
everyone else gives it a vote, and the votes of a majority make it a leader.

This takes a term after the latest one. Members that have all heard of the greatest term elect
nobody any more: the next term of each is zero, and a vote is refused in it.
-/

namespace QuorumStore

namespace Standing

/-- A standing as voters compare it: what counts first stands first. -/
def rank (s : Standing) : ℕ ×ₗ ℕ ×ₗ ℕ := toLex (s.lastTerm, toLex (s.length, s.commit))

theorem le_iff_rank {a b : Standing} : a.le b = true ↔ a.rank ≤ b.rank := by
  rw [le_iff, rank, rank, Prod.Lex.toLex_le_toLex, Prod.Lex.toLex_le_toLex]

/-- Among finitely many standings there is one that no other is ahead of. -/
theorem exists_greatest {ι : Type} (standing : ι → Standing) {Q : Finset ι}
    (someone : Q.Nonempty) : ∃ c ∈ Q, ∀ v ∈ Q, (standing v).le (standing c) = true := by
  obtain ⟨c, mem, greatest⟩ := Q.exists_max_image (fun v => (standing v).rank) someone
  exact ⟨c, mem, fun v hv => le_iff_rank.mpr (greatest v hv)⟩

end Standing

namespace Node

variable {n c : Node} {t t' : Moment} {me : String} {r : VoteRequest}

@[simp] theorem stepDown_standing (t : Moment) (term : Nat) (n : Node) :
    (n.stepDown t term).standing = n.standing := by
  simp only [standing, lastIndex, stepDown_log, stepDown_commit]

/-- What a candidate tells is its own standing, as no more is committed than there is. -/
theorem beginCandidacy_standing (bound : n.commit ≤ n.lastIndex)
    (fits : n.lastIndex < Decimal.limit64) (t : Moment) (me : String) :
    (n.beginCandidacy t me).1.standing = n.standing := by
  have length : n.commit + (n.lastIndex - n.commit) = n.lastIndex := Nat.add_sub_cancel' bound
  have told : Counter.add n.commit (n.lastIndex - n.commit) = n.lastIndex := by
    rw [Counter.add_of_lt (by rwa [length]), length]
  simp only [beginCandidacy, VoteRequest.standing, standing, lastIndex] at told ⊢
  rw [told]

/-- In a later term nobody has had the vote yet, so nothing but the logs decides. -/
theorem decideVote_of_later (later : n.term < r.term) :
    (n.decideVote t r).1 = ⟨n.standing.le r.standing, r.term⟩ := by
  have term : (n.stepDown t r.term).term = r.term := by
    rw [stepDown_term, Nat.max_eq_right (Nat.le_of_lt later)]
  have free : (n.stepDown t r.term).voteTaken r.candidate = false := by
    simp only [voteTaken, stepDown_votedFor, if_pos later]
  rw [decideVote, if_neg (Nat.not_lt_of_lt later)]
  simp only [if_pos later, free, term, stepDown_standing, Bool.not_false, Bool.true_and]
  cases n.standing.le r.standing <;> rfl

/-- A voter whose term is not ahead of the candidate's votes for it exactly if its log is not
    either. -/
theorem decideVote_beginCandidacy (bound : c.commit ≤ c.lastIndex)
    (fits : c.lastIndex < Decimal.limit64) (more : c.HasNextTerm) (term : n.term ≤ c.term) :
    (n.decideVote t' (c.beginCandidacy t me).1).1 =
      ⟨n.standing.le c.standing, c.term + 1⟩ := by
  have asks : (c.beginCandidacy t me).1.term = c.term + 1 := more.nextTerm
  have later : n.term < (c.beginCandidacy t me).1.term := by omega
  rw [decideVote_of_later later, beginCandidacy_standing bound fits, asks]

end Node

/-! ## Holding an election -/

namespace Member

variable {m : Member} {e : Election} {t : Moment} {calls : List (Moment × Option VoteReply)}

/-- Takes in what became of the calls for votes, each at the moment when it ends, until the election
    is decided. -/
def endElection : Election → List (Moment × Option VoteReply) → Member → Tally × Member
  | _, [], m => (.goesOn, m)
  | e, (t, reply) :: rest, m =>
    match m.foldVote t e reply with
    | (.goesOn, e, m) => endElection e rest m
    | (tally, _, m) => (tally, m)

/-- Holds an election if one is due, given what becomes of the calls that carry a request. -/
def holdElection (t : Moment) (calls : VoteRequest → List (Moment × Option VoteReply))
    (m : Member) : Member :=
  let (asks, m) := m.openElection t
  match asks with
  | none => m
  | some (request, e) => (m.endElection e (calls request)).2

/-- A candidate counts a vote that it is given, and looks whether it has won. -/
theorem foldVote_granted (role : m.node.role = .candidate) (term : m.node.term = e.term) :
    m.foldVote t e (some ⟨true, e.term⟩) =
      if e.needed ≤ e.granted + 1 then
        (.won, { e with granted := e.granted + 1 },
          m.settle .won (m.node.becomeLeader m.address m.peers.length))
      else (.goesOn, { e with granted := e.granted + 1 }, m.settle .goesOn m.node) := by
  simp only [foldVote, Election.fold, Election.count, role, term, Nat.lt_irrefl, ne_eq, not_true,
    or_self, if_false, if_true]
  split <;> rfl

/-- An election in which nobody refuses is won as soon as the votes suffice, whatever calls fail and
    in whatever order they end. -/
theorem endElection_granted (role : m.node.role = .candidate) (term : m.node.term = e.term)
    (granted : ∀ c ∈ calls, c.2 = none ∨ c.2 = some ⟨true, e.term⟩)
    (short : e.granted < e.needed)
    (enough : e.needed ≤ e.granted + calls.countP fun c => c.2.isSome) :
    (m.endElection e calls).2.node = m.node.becomeLeader m.address m.peers.length := by
  -- until it is won, the candidate stays as it is but for what it has counted
  induction calls generalizing m e with
  | nil =>
      rw [List.countP_nil] at enough
      omega
  | cons call rest ih =>
      obtain ⟨t, reply⟩ := call
      obtain ⟨first, others⟩ := List.forall_mem_cons.mp granted
      rcases first with failed | voted
      · obtain rfl : reply = none := failed
        rw [List.countP_cons_of_neg (by simp)] at enough
        exact ih (m := m.count .peerFailures [("rpc", "vote")]) role term others short enough
      · obtain rfl : reply = some ⟨true, e.term⟩ := voted
        rw [List.countP_cons_of_pos (by simp)] at enough
        rw [endElection, foldVote_granted role term]
        by_cases last : e.needed ≤ e.granted + 1
        · simp only [if_pos last, settle_node]
        · simp only [if_neg last]
          have onward := ih (m := m.settle .goesOn m.node)
            (e := { e with granted := e.granted + 1 }) (by rw [settle_node]; exact role)
            (by rw [settle_node]; exact term) others (Nat.lt_of_not_le last) (by simp only; omega)
          rw [settle_node] at onward
          exact onward

/-- A candidate that enough members vote for, and nobody refuses, becomes the leader of the next
    term. -/
theorem holdElection_granted {outcomes : VoteRequest → List (Moment × Option VoteReply)}
    (due : m.node.electionDue t.now = true)
    (granted : ∀ c ∈ outcomes (m.node.beginCandidacy t m.address).1,
      c.2 = none ∨ c.2 = some ⟨true, m.node.nextTerm⟩)
    (enough : m.needed ≤
      1 + (outcomes (m.node.beginCandidacy t m.address).1).countP fun c => c.2.isSome) :
    (m.holdElection t outcomes).node =
      (m.node.beginCandidacy t m.address).2.becomeLeader m.address m.peers.length := by
  by_cases few : m.needed ≤ 1
  · have alone : m.openElection t = (none, (m.openElection t).2) :=
      Prod.ext (m.openElection_asks_nobody due few) rfl
    rw [holdElection, alone]
    exact m.openElection_alone due few
  · rw [holdElection, m.openElection_asks due few]
    exact endElection_granted rfl rfl granted (Nat.lt_of_not_le few) enough

end Member

namespace Timer

/-- The task takes the calls in as they end, and waits for no more of them once the election is
    decided. -/
theorem proceeds_endElection {calls : List (Moment × Call VoteRequest VoteReply)}
    (ended : ∀ c ∈ calls, c.2.ends ≤ c.1.now) (m : Member) (e : Election) :
    Relation.ReflTransGen Proceeds ⟨m, .electing e (calls.map Prod.snd)⟩
      ⟨(m.endElection e (calls.map fun c => (c.1, c.2.reply))).2, .ready⟩ := by
  induction calls generalizing m e with
  | nil => exact .single ⟨⟨0, 0⟩, rfl⟩
  | cons c rest ih =>
      obtain ⟨t, call⟩ := c
      obtain ⟨first, others⟩ := List.forall_mem_cons.mp ended
      let k : Timer := ⟨m, .electing e (call :: rest.map Prod.snd)⟩
      have takes : k.Proceeds (k.takeVote t e call (rest.map Prod.snd)) := ⟨t, if_pos first⟩
      refine .head takes ?_
      rw [takeVote, List.map_cons, Member.endElection]
      rcases m.foldVote t e call.reply with ⟨tally, e', m'⟩
      cases tally with
      | goesOn => exact ih others m' e'
      | won => exact .refl
      | abandoned => exact .refl

/-- Past its deadline the task holds an election: at once if nobody has to be asked, and if not, by
    asking every peer and taking in what becomes of the calls. -/
theorem elect_holdElection (t : Moment) (k : Timer)
    {calls : VoteRequest → List (Moment × Call VoteRequest VoteReply)}
    (ended : ∀ r, ∀ c ∈ calls r, c.2.ends ≤ c.1.now) :
    let held := k.member.holdElection t fun r => (calls r).map fun c => (c.1, c.2.reply)
    k.elect t = (⟨held, .ready⟩, .nothing) ∨
      ∃ m e r, k.elect t = (⟨m, .electing e []⟩, .votes e r) ∧
        Relation.ReflTransGen Proceeds ⟨m, .electing e ((calls r).map Prod.snd)⟩
          ⟨held, .ready⟩ := by
  intro held
  rcases opens : k.member.openElection t with ⟨asks, m⟩
  have elects : held = match asks with
      | none => m
      | some (r, e) => (m.endElection e ((calls r).map fun c => (c.1, c.2.reply))).2 := by
    simp only [held, Member.holdElection, opens]
    cases asks <;> rfl
  rw [elect, opens, elects]
  cases asks with
  | none => exact .inl rfl
  | some asked =>
      obtain ⟨r, e⟩ := asked
      exact .inr ⟨m, e, r, rfl, proceeds_endElection (ended r) m e⟩

end Timer

/-! ## Majorities -/

variable {n : Nat}

/-- How the calls of a candidate go: in what order they end, when each member handles the request,
    and when its answer is heard. -/
structure Poll (n : Nat) where
  order : List (Fin n)
  handled : Fin n → Moment
  heard : Fin n → Moment

/-- What the calls bring in if some members answer and the calls to all others fail. -/
def Poll.outcomes (p : Poll n) (member : Fin n → Member) (Q : Finset (Fin n)) (r : VoteRequest) :
    List (Moment × Option VoteReply) :=
  p.order.map fun v =>
    (p.heard v, if v ∈ Q then some ((member v).decideVote (p.handled v) r).1 else none)

/-- One of some members is given the votes of all others of them, and if they are a majority of the
    cluster, no more than these votes make it the leader. -/
structure Electable (member : Fin n → Member) (Q : Finset (Fin n)) (c : Fin n) : Prop where
  backed : ∀ v ∈ Q, v ≠ c → ∀ (t t' : Moment) (me : String),
    ((member v).node.decideVote t' ((member c).node.beginCandidacy t me).1).1 =
      ⟨true, (member c).node.term + 1⟩
  wins : quorum n ≤ Q.card → (member c).peers.length + 1 = n → ∀ (t : Moment) (p : Poll n),
    (member c).node.electionDue t.now = true → (∀ v ∈ Q, v ≠ c → v ∈ p.order) →
      ((member c).holdElection t (p.outcomes member Q)).node.role = .leader ∧
      ((member c).holdElection t (p.outcomes member Q)).node.term = (member c).node.term + 1

/-- As many calls bring an answer as there are others to answer. -/
theorem Poll.card_le_countP {p : Poll n} {Q : Finset (Fin n)} {c : Fin n} (mem : c ∈ Q)
    (all : ∀ v ∈ Q, v ≠ c → v ∈ p.order) (member : Fin n → Member) (r : VoteRequest) :
    Q.card ≤ 1 + (p.outcomes member Q r).countP fun call => call.2.isSome := by
  have answered : (p.outcomes member Q r).countP (fun call => call.2.isSome) =
      (p.order.filter (· ∈ Q)).length := by
    rw [outcomes, List.countP_map, List.countP_eq_length_filter]
    congr 2
    funext v
    by_cases hv : v ∈ Q <;> simp [hv]
  have others : Q.erase c ⊆ (p.order.filter (· ∈ Q)).toFinset := by
    intro v hv
    obtain ⟨other, hv⟩ := Finset.mem_erase.mp hv
    exact List.mem_toFinset.mpr (List.mem_filter.mpr ⟨all v hv other, decide_eq_true hv⟩)
  calc
    Q.card = 1 + (Q.erase c).card := by rw [Nat.add_comm, Finset.card_erase_add_one mem]
    _ ≤ 1 + (p.order.filter (· ∈ Q)).toFinset.card :=
      Nat.add_le_add_left (Finset.card_le_card others) 1
    _ ≤ 1 + (p.order.filter (· ∈ Q)).length :=
      Nat.add_le_add_left (List.toFinset_card_le _) 1
    _ = 1 + (p.outcomes member Q r).countP fun call => call.2.isSome := by rw [answered]

/-- A member is electable as long as nobody's log is ahead of its own and nobody's term either. -/
theorem electable_of_greatest {member : Fin n → Member} {Q : Finset (Fin n)} {c : Fin n}
    (mem : c ∈ Q) (bound : (member c).node.commit ≤ (member c).node.lastIndex)
    (fits : (member c).node.lastIndex < Decimal.limit64) (more : (member c).node.HasNextTerm)
    (greatest : ∀ v ∈ Q, (member v).node.standing.le (member c).node.standing = true)
    (latest : ∀ v ∈ Q, (member v).node.term ≤ (member c).node.term) : Electable member Q c := by
  have votes : ∀ v ∈ Q, ∀ (t t' : Moment) (me : String),
      ((member v).node.decideVote t' ((member c).node.beginCandidacy t me).1).1 =
        ⟨true, (member c).node.term + 1⟩ := by
    intro v hv t t' me
    rw [Node.decideVote_beginCandidacy bound fits more (latest v hv), greatest v hv]
  refine ⟨fun v hv _ => votes v hv, ?_⟩
  intro majority size t p due all
  let request := ((member c).node.beginCandidacy t (member c).address).1
  have granted : ∀ call ∈ p.outcomes member Q request,
      call.2 = none ∨ call.2 = some ⟨true, (member c).node.nextTerm⟩ := by
    intro call brought
    rw [more.nextTerm]
    obtain ⟨v, _, rfl⟩ := List.mem_map.mp brought
    by_cases hv : v ∈ Q
    · exact .inr ((if_pos hv).trans (congrArg some (votes v hv t (p.handled v) _)))
    · exact .inl (if_neg hv)
  have enough : (member c).needed ≤
      1 + (p.outcomes member Q request).countP fun call => call.2.isSome := by
    have needed : (member c).needed = quorum n := by rw [Member.needed, size]
    rw [needed]
    exact Nat.le_trans majority (p.card_le_countP mem all member request)
  have won := Member.holdElection_granted due granted enough
  rw [won]
  exact ⟨Node.becomeLeader_role .., (Node.becomeLeader_term ..).trans more.nextTerm⟩

/-- The members after one of them has heard of a term, as it does when it is refused a vote. -/
def hearOf (t : Moment) (T : Nat) (c : Fin n) (member : Fin n → Member) : Fin n → Member :=
  Function.update member c ((member c).become ((member c).node.stepDown t T))

theorem hearOf_standing (t : Moment) (T : Nat) (c v : Fin n) (member : Fin n → Member) :
    (hearOf t T c member v).node.standing = (member v).node.standing := by
  by_cases same : v = c
  · subst same
    rw [hearOf, Function.update_self]
    exact Node.stepDown_standing ..
  · rw [hearOf, Function.update_of_ne same]

theorem hearOf_term (t : Moment) (T : Nat) (c : Fin n) (member : Fin n → Member) :
    (hearOf t T c member c).node.term = max (member c).node.term T := by
  rw [hearOf, Function.update_self]
  exact Node.stepDown_term ..

theorem hearOf_term_le {T : Nat} {c v : Fin n} {member : Fin n → Member} (t : Moment)
    (latest : (member v).node.term ≤ T) :
    (hearOf t T c member v).node.term ≤ (hearOf t T c member c).node.term := by
  by_cases same : v = c
  · rw [same]
  · rw [hearOf_term, hearOf, Function.update_of_ne same]
    omega

/-- Among any members there is one that all others vote for whenever its term is not behind theirs
    and not the greatest one, as long as the logs and the commit indices stay, and whatever votes
    have been given before and whatever roles they have. If its term is behind, it has only to hear
    of the latest one. In a majority the votes of the others make it the leader, in whatever order
    the calls end, even if all other calls fail. -/
theorem majorities_can_elect (was : Fin n → Member) {Q : Finset (Fin n)} (someone : Q.Nonempty)
    (bound : ∀ v ∈ Q, (was v).node.commit ≤ (was v).node.lastIndex)
    (fits : ∀ v ∈ Q, (was v).node.lastIndex < Decimal.limit64) :
    ∃ c ∈ Q,
      (∀ now : Fin n → Member, (∀ v ∈ Q, (now v).node.standing = (was v).node.standing) →
        (∀ v ∈ Q, (now v).node.term ≤ (now c).node.term) → (now c).node.HasNextTerm →
          Electable now Q c) ∧
      ∀ (t : Moment) (T : Nat), (was c).node.term < T → (∀ v ∈ Q, (was v).node.term ≤ T) →
        T + 1 < Decimal.limit64 → Electable (hearOf t T c was) Q c := by
  obtain ⟨c, mem, greatest⟩ := Standing.exists_greatest (fun v => (was v).node.standing) someone
  have whenever : ∀ now : Fin n → Member,
      (∀ v ∈ Q, (now v).node.standing = (was v).node.standing) →
      (∀ v ∈ Q, (now v).node.term ≤ (now c).node.term) → (now c).node.HasNextTerm →
        Electable now Q c := by
    intro now stays latest more
    have same := stays c mem
    simp only [Node.standing, Standing.mk.injEq] at same
    obtain ⟨_, length, commit⟩ := same
    refine electable_of_greatest mem ?_ (length ▸ fits c mem) more ?_ latest
    · rw [length, commit]
      exact bound c mem
    · intro v hv
      rw [stays v hv, stays c mem]
      exact greatest v hv
  refine ⟨c, mem, whenever, fun t T behind latest more => whenever _ ?_ ?_ ?_⟩
  · exact fun v _ => hearOf_standing t T c v was
  · exact fun v hv => hearOf_term_le t (latest v hv)
  · have heard : (hearOf t T c was c).node.term = T := by
      rw [hearOf_term, Nat.max_eq_right (Nat.le_of_lt behind)]
    rwa [Node.HasNextTerm, heard]

/-- A member of three with two entries of the first term. -/
private def heirOfTwo (address : String) (peers : List String) (role : Role) (term commit : Nat) :
    Member where
  address := address
  peers := peers
  timing := ⟨150, 300, 30, 50, 1000⟩
  node := { Node.start ⟨0, 150⟩ with
    role := role
    term := term
    votedFor := some "b"
    log := [⟨1, .barrier⟩, ⟨1, .write "k" .tombstone 0⟩]
    commit := commit }
  wakeUp := false
  metrics := []

/-- Three members with the same log. The first has committed more of it than the second, but does
    not know of the fourth term, in which the second stands as a candidate. -/
def divided : Fin 3 → Member
  | 0 => heirOfTwo "a" ["b", "c"] .follower 1 2
  | 1 => heirOfTwo "b" ["a", "c"] .candidate 4 1
  | 2 => heirOfTwo "c" ["a", "b"] .follower 1 0

/-- The third member does not answer. The second one asks the first in vain, but votes for it once
    the first has heard of the fourth term, and makes it the leader of the fifth. -/
theorem majorities_can_elect_when_terms_differ :
    ((divided 0).node.decideVote ⟨160, 150⟩ ((divided 1).node.beginCandidacy ⟨150, 150⟩ "b").1).1 =
      ⟨false, 5⟩ ∧
    ∃ p : Poll 3, p.order = [2, 1] ∧
      ((hearOf ⟨200, 150⟩ 4 0 divided 0).holdElection ⟨350, 150⟩
        (p.outcomes (hearOf ⟨200, 150⟩ 4 0 divided) {0, 1})).node.role = .leader ∧
      ((hearOf ⟨200, 150⟩ 4 0 divided 0).holdElection ⟨350, 150⟩
        (p.outcomes (hearOf ⟨200, 150⟩ 4 0 divided) {0, 1})).node.term = 5 := by
  obtain ⟨c, mem, whenever, heard⟩ :=
    majorities_can_elect divided (Q := {0, 1}) (by decide) (by decide) (by decide)
  have refused : ((divided 0).node.decideVote ⟨160, 150⟩
      ((divided 1).node.beginCandidacy ⟨150, 150⟩ "b").1).1 = ⟨false, 5⟩ := by decide
  -- the second member is not the electable one, as the first refuses it
  obtain rfl : c = 0 := by
    rcases Finset.mem_insert.mp mem with first | second
    · exact first
    · obtain rfl := Finset.mem_singleton.mp second
      have electable := whenever divided (fun _ _ => rfl) (by decide) (by decide)
      have backed := electable.backed 0 (by decide) (by decide) ⟨150, 150⟩ ⟨160, 150⟩ "b"
      rw [refused] at backed
      simp at backed
  have electable := heard ⟨200, 150⟩ 4 (by decide) (by decide) (by decide)
  have won := electable.wins (by decide) rfl ⟨350, 150⟩
    ⟨[2, 1], fun _ => ⟨355, 150⟩, fun _ => ⟨360, 150⟩⟩ (by decide) (by decide)
  exact ⟨refused, _, rfl, won⟩

/-- Two members that a stranger has asked for their votes of the greatest term. -/
def exhausted (i : Fin 2) : Member where
  address := ["a", "b"][i]
  peers := [["b"], ["a"]][i]
  timing := ⟨150, 300, 30, 50, 1000⟩
  node := ((Node.start ⟨0, 150⟩).decideVote ⟨10, 150⟩ ⟨Decimal.limit64 - 1, 0, 0, 0, none⟩).2
  wakeUp := false
  metrics := []

/-- Their logs are the same and so are their terms, and yet neither of them is given the vote of the
    other one, as each asks for it in the term zero. -/
theorem greatest_term_elects_nobody :
    (∀ i, (exhausted i).node.commit ≤ (exhausted i).node.lastIndex) ∧
    (∀ i j, (exhausted i).node.term ≤ (exhausted j).node.term) ∧
    ∀ c v, v ≠ c → ∀ (t t' : Moment) (me : String),
      ((exhausted v).node.decideVote t' ((exhausted c).node.beginCandidacy t me).1).1 =
        ⟨false, Decimal.limit64 - 1⟩ := by
  have after (i : Fin 2) : (exhausted i).node = { Node.start ⟨10, 150⟩ with
      term := Decimal.limit64 - 1
      votedFor := some "" } := rfl
  refine ⟨fun i => ?_, fun i j => ?_, fun c v _ t t' me => ?_⟩
  · rw [after]
    exact Nat.le_refl _
  · rw [after, after]
  · rw [after, after]
    have zero : Counter.add (Decimal.limit64 - 1) 1 = 0 := by decide +kernel
    have behind : 0 < Decimal.limit64 - 1 := by decide +kernel
    simp only [Node.beginCandidacy, Node.nextTerm, Node.decideVote, zero, if_pos behind]

end QuorumStore
