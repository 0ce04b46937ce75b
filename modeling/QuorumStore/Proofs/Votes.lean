import QuorumStore.Proofs.Answers
import Mathlib.Logic.Relation
/-! # One vote in a term

Whoever has the vote of a node in a term has it for as long as the term lasts, and nobody else is
given it. What the node keeps is a name, and after an anonymous candidate it keeps the empty one: a
candidate that goes by the empty name is then taken for the one that has the vote.

Terms must not start over for this, so a node does not campaign in the greatest term here.
-/

namespace QuorumStore

namespace Node

variable {me name : String} {n n' : Node} {T : Nat} {c : Option String}

/-- A node gives its vote of a term, to itself as it becomes a candidate of the next term or to a
    candidate that asks for it. A candidate that is anonymous has no name. -/
inductive Votes (me : String) (n : Node) : Nat → Option String → Node → Prop where
  | itself (m : Moment) (role : n.role ≠ .leader) (more : n.HasNextTerm) :
      Votes me n (n.term + 1) (some me) (n.beginCandidacy m me).2
  | grants (m : Moment) (r : VoteRequest) (granted : (n.decideVote m r).1.granted = true) :
      Votes me n r.term r.candidate (n.decideVote m r).2

theorem Votes.kept (h : n.Votes me T c n') : n'.term = T ∧ n'.votedFor = some (c.getD "") := by
  cases h with
  | itself m role more => exact ⟨more.nextTerm, rfl⟩
  | grants m r granted =>
      obtain ⟨term, vote, _⟩ := decideVote_granted granted
      exact ⟨term, vote⟩

/-- Once a name has the vote of a term, only a candidate of that name is given it. -/
theorem Votes.again (h : n.Votes me T c n') (reached : T ≤ n.term)
    (voted : n.term = T → n.votedFor = some name) : c = some name := by
  cases h with
  | itself m role more => omega
  | grants m r granted =>
      rcases decideVote_cases m r n with ⟨_, e⟩ | ⟨_, e⟩ | ⟨current, free, _, _⟩
      · simp [e] at granted
      · simp [e] at granted
      · have stays : n.heed m r.term = n := by
          rw [heed, if_neg (Nat.not_lt_of_le reached)]
        rw [stays] at free
        exact voteTaken_false free (voted (Nat.le_antisymm current reached))

end Node

namespace Exposed

open Node

variable {me : String} {peers T : Nat} {s s' : Exposed} {n n' : Node} {c c' : Option String}

/-- Everything that can happen to a node: what strangers do to it, what comes of its elections, and
    that it steps down for whatever reason. -/
inductive Turn (me : String) (peers : Nat) : Exposed → Exposed → Prop where
  | step {s s' : Exposed} (step : Step me peers s s') : Turn me peers s s'
  | tallies (s : Exposed) (m : Moment) (e : Election) (reply : VoteReply) :
      Turn me peers s { s with node := (e.fold m me peers reply s.node).2.2 }
  | stepsDown (s : Exposed) (m : Moment) (term : Nat) :
      Turn me peers s { s with node := s.node.stepDown m term }

/-- Any number of turns, one after the other. -/
def Runs (me : String) (peers : Nat) : Exposed → Exposed → Prop :=
  Relation.ReflTransGen (Turn me peers)

namespace Turn

theorem onward (sound : s.node.Sound me) (turn : Turn me peers s s') :
    Onward s.node s'.node := by
  cases turn with
  | step step => exact step.onward sound
  | tallies m e reply => exact sound.onward_fold m peers reply e
  | stepsDown m term => exact .of_idle (later_stepDown m term _) (idle_stepDown m term _)

theorem sound (before : s.node.Sound me) (turn : Turn me peers s s') : s'.node.Sound me := by
  cases turn with
  | step step => exact step.sound before
  | tallies m e reply => exact before.fold m peers reply e
  | stepsDown m term => exact before.stepDown m term

theorem of_votes (votes : s.node.Votes me T c n) : Turn me peers s { s with node := n } := by
  cases votes with
  | itself m role more => exact .step (.campaigns s m role more)
  | grants m r granted => exact .step (.votes s m r)

end Turn

namespace Runs

theorem sound (before : s.node.Sound me) (runs : Runs me peers s s') : s'.node.Sound me := by
  induction runs with
  | refl => exact before
  | tail _ turn ih => exact turn.sound ih

theorem later (before : s.node.Sound me) (runs : Runs me peers s s') :
    Later s.node s'.node := by
  induction runs with
  | refl => exact .refl _
  | tail runs turn ih => exact ih.trans (turn.onward (Runs.sound before runs)).later

/-- Of any two votes that a node gives in one term, whatever happens to it before and between, the
    second goes where the first has gone. A candidate that has a name has the vote for itself; after
    an anonymous one nobody is given it again, except for a candidate that goes by the empty
    name. -/
theorem one_vote_in_a_term {m : Moment} (start : Runs me peers ⟨.start m, []⟩ s)
    (first : s.node.Votes me T c n) (between : Runs me peers { s with node := n } s')
    (second : s'.node.Votes me T c' n') :
    (∀ name, c = some name → c' = some name) ∧ (c = none → c' = some "") := by
  have turn : Turn me peers s { s with node := n } := .of_votes first
  have voting := turn.sound (start.sound (sound_start me m))
  have later := between.later voting
  obtain ⟨term, voted⟩ := first.kept
  have again : c' = some (c.getD "") := by
    apply second.again
    · rw [← term]
      exact later.term
    · intro same
      exact later.vote (same.trans term.symm) _ voted
  refine ⟨?_, ?_⟩
  · rintro name rfl
    exact again
  · rintro rfl
    exact again

/-- A node that has given the vote of its first term. -/
def sworn : Node :=
  { Node.start ⟨0, 10⟩ with
    term := 1
    votedFor := some "b"
    deadline := 11 }

/-- The same node once it knows that its candidate leads. -/
def loyal : Node :=
  { sworn with
    leader := some "b"
    deadline := 12 }

/-- A node that hears of its candidate as the leader of the term can be asked for the vote again, but
    by nobody else. -/
theorem one_vote_in_a_term_before_and_after_a_heartbeat :
    Runs "a" 2 ⟨.start ⟨0, 10⟩, []⟩ ⟨.start ⟨0, 10⟩, []⟩ ∧
      (Node.start ⟨0, 10⟩).Votes "a" 1 (some "b") sworn ∧
      Runs "a" 2 ⟨sworn, []⟩ ⟨loyal, []⟩ ∧
      (∃ n, loyal.Votes "a" 1 (some "b") n) ∧
      ∀ c n, loyal.Votes "a" 1 c n → c = some "b" := by
  have start : Runs "a" 2 ⟨.start ⟨0, 10⟩, []⟩ ⟨.start ⟨0, 10⟩, []⟩ := .refl
  have first : (Node.start ⟨0, 10⟩).Votes "a" 1 (some "b") sworn :=
    .grants ⟨1, 10⟩ ⟨1, 0, 0, 0, some "b"⟩ rfl
  have between : Runs "a" 2 ⟨sworn, []⟩ ⟨loyal, []⟩ :=
    .single (.step (.hears ⟨sworn, []⟩ ⟨2, 10⟩ ⟨1, 0, "b", 0, 0, []⟩))
  refine ⟨start, first, between, ⟨_, .grants ⟨3, 10⟩ ⟨1, 0, 0, 0, some "b"⟩ rfl⟩, ?_⟩
  intro c n second
  exact (one_vote_in_a_term start first between second).1 "b" rfl

/-- An anonymous candidate has the vote of the first term, and one that goes by the empty name is
    given it as well. -/
theorem anonymous_vote_is_given_again : ∃ n n' : Node,
    (Node.start ⟨0, 10⟩).Votes "a" 1 none n ∧ n.Votes "a" 1 (some "") n' :=
  ⟨_, _, .grants ⟨1, 10⟩ ⟨1, 0, 0, 0, none⟩ rfl, .grants ⟨2, 10⟩ ⟨1, 0, 0, 0, some ""⟩ rfl⟩

/-- A node that campaigns in the greatest term gets into terms it has voted in before, and gives
    their votes again. No run of turns goes on like this. -/
theorem vote_is_given_again_after_the_greatest_term : ∃ n n' n'' : Node,
    (Node.start ⟨0, 10⟩).Votes "a" 1 (some "b") n ∧
    n.Votes "a" (Decimal.limit64 - 1) none n' ∧ ¬ n'.HasNextTerm ∧
    (n'.beginCandidacy ⟨12, 10⟩ "a").2.Votes "a" 1 (some "c") n'' := by
  have first : (Node.start ⟨0, 10⟩).Votes "a" 1 (some "b") _ :=
    .grants ⟨1, 10⟩ ⟨1, 0, 0, 0, some "b"⟩ rfl
  exact ⟨_, _, _, first,
    .grants ⟨2, 10⟩ ⟨Decimal.limit64 - 1, 0, 0, 0, none⟩ (by decide +kernel), by decide +kernel,
    .grants ⟨13, 10⟩ ⟨1, 0, 0, 0, some "c"⟩ (by decide +kernel)⟩

end Runs

end Exposed

end QuorumStore
