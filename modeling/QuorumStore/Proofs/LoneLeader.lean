import QuorumStore.Proofs.Lineage
import QuorumStore.Proofs.MemberSteps
import QuorumStore.Server.Values
import Mathlib.Logic.Function.Basic
/-! # A leader without peers

A member without peers is a majority by itself. Whatever it stages is committed in the same step, so
its log is never ahead of its store, and its clients cannot tell it from a plain table of versioned
values that answers one call after the other.
-/

namespace QuorumStore

/-! ## The sequential store -/

/-- A call of a client. -/
inductive Demand where
  | get (key : String)
  | put (key : String) (write : Write)

/-- What comes of a call. -/
inductive Answer where
  /-- What the key holds, which is nothing if it was never written. -/
  | found (record : Option Record)
  | stored (record : Record)
  | refused (e : NodeError)
  deriving Repr, DecidableEq

/-- A table of versioned values. A key is absent, or a tombstone, or live at a version. -/
abbrev Contents := String → Option Record

namespace Contents

def empty : Contents := fun _ => none

def store (key : String) (record : Record) (c : Contents) : Answer × Contents :=
  (.stored record, Function.update c key (some record))

def serve (c : Contents) : Demand → Answer × Contents
  | .get key => (.found (c key), c)
  | .put key .delete => c.store key .tombstone
  | .put key (.upsert expected document) =>
    match c key with
    | none | some .tombstone =>
      if expected = 0 then c.store key (.live (document.render 1) 1)
      else (.refused (.versionMismatch 0 expected), c)
    | some (.live _ version) =>
      if expected = version then
        c.store key (.live (document.render (version + 1)) (version + 1))
      else (.refused (.versionMismatch version expected), c)

def serveAll : List Demand → Contents → List Answer × Contents
  | [], c => ([], c)
  | demand :: rest, c =>
    let (answer, c) := c.serve demand
    let (answers, c) := serveAll rest c
    (answer :: answers, c)

/-- The table puts a write into effect if it is based on what the key holds. -/
theorem serve_put (c : Contents) (key : String) (write : Write) :
    c.serve (.put key write) =
      match write.resolve (c key) with
      | .ok version => c.store key ((write.content version).record version)
      | .error current =>
        (.refused (.versionMismatch current (write.supplied current)), c) := by
  cases write with
  | delete => rfl
  | upsert expected document =>
      cases holds : c key with
      | none =>
          simp only [serve, holds, Write.resolve, Option.bind_none]
          split <;> rfl
      | some record =>
          cases record with
          | tombstone =>
              simp only [serve, holds, Write.resolve, Option.bind_some, Record.version?]
              split <;> rfl
          | live value version =>
              simp only [serve, holds, Write.resolve, Option.bind_some, Record.version?,
                eq_comm (a := expected)]
              split <;> rfl

theorem serve_ne_timeout (c : Contents) (demand : Demand) :
    (c.serve demand).1 ≠ .refused .replicationTimeout := by
  cases demand with
  | get key => simp [serve]
  | put key write =>
      rw [serve_put]
      split <;> simp [store]

theorem serveAll_ne_timeout (demands : List Demand) (c : Contents) :
    Answer.refused .replicationTimeout ∉ (serveAll demands c).1 := by
  induction demands generalizing c with
  | nil => simp [serveAll]
  | cons demand rest ih =>
      simp only [serveAll, List.mem_cons, not_or]
      exact ⟨(c.serve_ne_timeout demand).symm, ih _⟩

end Contents

/-! ## Serving calls -/

namespace Member

def contents (m : Member) : Contents := m.node.store.get?

/-- Serves a call to its end. There is no answer as long as a write has no verdict, unless the time
    for it runs out. -/
def serve (expired : Bool) (m : Member) : Demand → Option Answer × Member
  | .get key =>
    match m.node.read key with
    | .error e => (some (.refused e), m)
    | .ok record => (some (.found record), m)
  | .put key write =>
    match m.put key write with
    | .error e => (some (.refused e), m)
    | .ok ((record, ticket), m) =>
      match (⟨key, record, ticket⟩ : Staged).outcome? m.node expired with
      | none => (none, m)
      | some (.ok record) => (some (.stored record), m)
      | some (.error e) => (some (.refused e), m)

/-- Serves calls one after the other. Each comes with whether its time runs out. -/
def serveAll : List (Demand × Bool) → Member → List (Option Answer) × Member
  | [], m => ([], m)
  | (demand, expired) :: rest, m =>
    let (answer, m) := m.serve expired demand
    let (answers, m) := serveAll rest m
    (answer :: answers, m)

end Member

/-! ## Leading alone -/

theorem reachedByQuorum_singleton (reached : Nat) : reachedByQuorum [reached] = reached := by
  simp [reachedByQuorum, sortFalling, insertFalling, quorum]

namespace Node

structure Lone (me : String) (n : Node) : Prop extends Sound me n where
  leads : n.role = .leader
  alone : n.progress = []
  whole : n.commit = n.lastIndex

variable {me : String} {n n' : Node}

theorem Lone.replay (h : n.Lone me) : n.store = Log.replay n.log := by
  have replayed := h.replayed
  rwa [h.whole, lastIndex, List.take_length] at replayed

theorem Lone.projected (h : n.Lone me) (key : String) : n.projected key = n.store.get? key := by
  rw [h.toSound.projected_eq, h.replay, Log.get?_replay]

theorem Lone.read (h : n.Lone me) (key : String) : n.read key = .ok (n.store.get? key) := by
  rw [Node.read, ensureLeader, if_pos h.leads]

/-- Without peers an entry of the current term is committed as soon as it stands in the log. -/
theorem advanceCommit_alone (leads : n.role = .leader) (alone : n.progress = [])
    (more : n.commit < n.lastIndex) (own : n.log.termAt n.lastIndex = n.term) :
    n.advanceCommit = n.commitThrough n.lastIndex := by
  have reached : reachedByQuorum (n.progress.map Progress.matched ++ [n.lastIndex]) =
      n.lastIndex := by rw [alone]; exact reachedByQuorum_singleton n.lastIndex
  simp only [advanceCommit, if_pos leads, reached]
  exact if_pos ⟨more, own⟩

theorem lastIndex_of_concat {log : Log} {e : Entry} (ends : n.log = log ++ [e]) :
    n.lastIndex = log.length + 1 := by
  rw [lastIndex, ends, List.length_append, List.length_singleton]

theorem termAt_lastIndex {log : Log} {e : Entry} (ends : n.log = log ++ [e]) :
    n.log.termAt n.lastIndex = e.term := by
  rw [lastIndex_of_concat ends, Log.termAt_succ, ends, List.getElem?_concat_length]
  rfl

theorem Sound.lone_advanceCommit (h : Sound me n) {log : Log} {e : Entry}
    (ends : n.log = log ++ [e]) (own : e.term = n.term) (older : n.commit ≤ log.length)
    (leads : n.role = .leader) (alone : n.progress = []) :
    n.advanceCommit = n.commitThrough n.lastIndex ∧ n.advanceCommit.Lone me := by
  have length := lastIndex_of_concat ends
  have commits := advanceCommit_alone leads alone (by omega) ((termAt_lastIndex ends).trans own)
  refine ⟨commits, h.advanceCommit, ?_, ?_, ?_⟩
  · rw [advanceCommit_role, leads]
  · rw [advanceCommit_progress, alone]
  · rw [commits, commitThrough_commit]
    simp only [lastIndex, commitThrough_log] at *
    omega

theorem Sound.lone_becomeLeader (h : Sound me n) (role : n.role = .candidate) :
    (n.becomeLeader me 0).Lone me := by
  have leads : Sound me { n with role := .leader, leader := some me } :=
    ⟨h.bound, h.replayed, fun _ => h.voted (by simp [role])⟩
  have longer : Sound me { n with
      role := .leader, leader := some me, log := n.log ++ [⟨n.term, .barrier⟩], progress := [] } :=
    .of_eqs (leads.append ⟨n.term, .barrier⟩) rfl rfl rfl rfl rfl
  exact (longer.lone_advanceCommit rfl rfl h.bound rfl rfl).2

/-- The ticket of a write is redeemed by whatever commits the write. -/
theorem verdict_commitThrough {older : List Ticket} {t : Ticket} (log : Log) (e : Entry)
    (tickets : n.tickets = older ++ [t]) (ends : n.log = log ++ [e]) (more : n.commit < n.lastIndex)
    (claims : t = ⟨n.lastIndex, e.term, .pending⟩) :
    (n.commitThrough n.lastIndex).verdict older.length = .committed := by
  have term := termAt_lastIndex ends
  have redeemed : (settle n.log n.lastIndex t).verdict = .committed := by
    rw [claims, settle, if_pos ⟨rfl, Nat.le_refl _⟩]
    exact if_pos term
  have mapped : (n.commitThrough n.lastIndex).tickets =
      older.map (settle n.log n.lastIndex) ++ [settle n.log n.lastIndex t] := by
    rw [commitThrough, Nat.min_self, if_neg (by omega), tickets, List.map_append]
    rfl
  have length : older.length = (older.map (settle n.log n.lastIndex)).length :=
    (List.length_map _).symm
  rw [verdict, mapped, length, List.getElem?_concat_length]
  exact redeemed

theorem Lone.stageWrite (h : n.Lone me) (key : String) (write : Write) :
    match write.resolve (n.store.get? key) with
    | .error current =>
      n.stageWrite key write = .error (.versionMismatch current (write.supplied current))
    | .ok version => ∃ n', n.stageWrite key write =
        .ok (((write.content version).record version, n.tickets.length), n') ∧ n'.Lone me ∧
      n'.verdict n.tickets.length = .committed ∧
      n'.store = n.store.put key ((write.content version).record version) := by
  have leads : n.ensureLeader = .ok () := if_pos h.leads
  rw [← h.projected key]
  cases resolved : write.resolve (n.projected key) with
  | error current => simp only [Node.stageWrite, leads, resolved]
  | ok version =>
      let e : Entry := ⟨n.term, .write key (write.content version) version⟩
      let staged := (n.append e).claimTicket
      have sound : Sound me staged := .of_eqs (h.append e) rfl rfl rfl rfl rfl
      have bound := h.bound
      obtain ⟨commits, lone⟩ :=
        sound.lone_advanceCommit (e := e) rfl rfl bound h.leads h.alone
      have length : (n.tickets.map fun t => if t.index = (n.append e).lastIndex then t.drop else t
          ).length = n.tickets.length := List.length_map _
      refine ⟨staged.advanceCommit, by simp only [Node.stageWrite, leads, resolved]; rfl, lone,
        ?_, ?_⟩
      · rw [commits, ← length]
        refine verdict_commitThrough n.log e rfl rfl ?_ rfl
        have longer : staged.lastIndex = n.lastIndex + 1 := lastIndex_of_concat (e := e) rfl
        rw [longer]
        exact Nat.lt_succ_of_le bound
      · rw [lone.replay, advanceCommit_log, h.replay]
        simp only [Log.replay]
        exact Store.applyAll_append Store.empty n.log [e]

end Node

namespace Member

/-- What can become of a member without peers, whoever calls it. -/
inductive Solitary : Member → Prop where
  | start (now : Nat) (address : String) (timing : Timing) :
      Solitary (.start now address [] timing)
  | wakes {m : Member} (t : Moment) : Solitary m → Solitary (m.openElection t).2
  | votes {m : Member} (t : Moment) (r : VoteRequest) : Solitary m → Solitary (m.decideVote t r).2
  | hears {m : Member} (t : Moment) (r : HeartbeatRequest) : Solitary m →
      Solitary (m.handleHeartbeat t r).2
  | takes {m m' : Member} {key : String} {write : Write} {staged : Record × Nat} : Solitary m →
      m.put key write = .ok (staged, m') → Solitary m'
  /-- What a member counts, and whether its timer is to wake, is of no account. -/
  | marks {m : Member} (wakeUp : Bool) (metrics : Metrics) : Solitary m →
      Solitary { m with wakeUp, metrics }

/-- What holds of a member without peers at all times. -/
structure Alone (m : Member) : Prop where
  peers : m.peers = []
  sound : m.node.Sound m.address
  lone : m.node.role = .leader → m.node.Lone m.address

variable {m m' : Member}

theorem Alone.decideVote (h : m.Alone) (t : Moment) (r : VoteRequest) :
    (m.decideVote t r).2.Alone := by
  have idle := Node.idle_decideVote t r m.node
  have sound := h.sound.decideVote t r
  refine ⟨h.peers, sound, fun leads => ?_⟩
  -- whoever was asked for a vote and still leads has led before
  obtain ⟨led, _, progress⟩ := idle.leads leads
  have lone := h.lone led
  refine ⟨sound, leads, progress.trans lone.alone, ?_⟩
  have whole : (m.node.decideVote t r).2.commit = (m.node.decideVote t r).2.lastIndex := by
    rw [idle.commit, Node.lastIndex, idle.log]
    exact lone.whole
  exact whole

theorem Alone.handleHeartbeat (h : m.Alone) (t : Moment) (r : HeartbeatRequest) :
    (m.handleHeartbeat t r).2.Alone := by
  refine ⟨h.peers, h.sound.handleHeartbeat t r, fun leads => ?_⟩
  have leads : (m.node.handleHeartbeat t r).2.role = .leader := leads
  -- only a stale heartbeat leaves the leader what it is
  rcases Node.answers h.sound.bound t r with ⟨_, same | ⟨_, followed⟩⟩ | ⟨_, taken⟩
  · have node : (m.handleHeartbeat t r).2.node = m.node := same
    rw [same] at leads
    rw [node]
    exact h.lone leads
  · rw [followed, Node.follow_role] at leads
    simp at leads
  · rw [taken.role] at leads
    simp at leads

theorem Alone.needed_le (h : m.Alone) : m.needed ≤ 1 := by
  simp [needed, h.peers, quorum]

theorem Alone.openElection_lone (h : m.Alone) {t : Moment}
    (due : m.node.electionDue t.now = true) : (m.openElection t).2.node.Lone m.address := by
  rw [m.openElection_alone due h.needed_le, h.peers]
  exact (h.sound.beginCandidacy t).lone_becomeLeader rfl

theorem Alone.openElection (h : m.Alone) (t : Moment) : (m.openElection t).2.Alone := by
  obtain ⟨address, peers⟩ := m.same_openElection t
  cases due : m.node.electionDue t.now with
  | true =>
      have lone := h.openElection_lone due
      rw [← address] at lone
      exact ⟨peers.trans h.peers, lone.toSound, fun _ => lone⟩
  | false =>
      have same : (m.openElection t).2 = m := by rw [Member.openElection, due]; rfl
      rwa [same]

theorem Solitary.alone (h : m.Solitary) : m.Alone := by
  induction h with
  | start now address timing =>
      exact ⟨rfl, Node.sound_start .., fun leads => by cases leads⟩
  | wakes t _ ih => exact ih.openElection t
  | votes t r _ ih => exact ih.decideVote t r
  | hears t r _ ih => exact ih.handleHeartbeat t r
  | @takes m m' key write _ _ put ih =>
      obtain ⟨⟨address, peers⟩, staged⟩ := put_ok put
      have lone : m'.node.Lone m'.address := by
        rw [address]
        have leads := (Node.stageWrite_ok staged).1
        have serves := (ih.lone leads).stageWrite key write
        split at serves
        · rw [serves] at staged
          simp at staged
        · obtain ⟨n, ok, lone, _⟩ := serves
          rw [ok] at staged
          obtain ⟨_, rfl⟩ := Prod.mk.inj (Except.ok.inj staged)
          exact lone
      exact ⟨peers.trans ih.peers, lone.toSound, fun _ => lone⟩
  | marks _ _ _ ih => exact ⟨ih.peers, ih.sound, ih.lone⟩

theorem contents_put {r : Record} {key : String}
    (store : m'.node.store = m.node.store.put key r) :
    m'.contents = Function.update m.contents key (some r) := by
  funext other
  rw [contents, store, Store.get?_put]
  by_cases same : other = key
  · subst same
    rw [if_pos rfl, Function.update_self]
  · rw [if_neg same, Function.update_of_ne same]
    rfl

theorem put_lone (lone : m.node.Lone m.address) (key : String) (write : Write) :
    match write.resolve (m.contents key) with
    | .error current =>
      m.put key write = .error (.versionMismatch current (write.supplied current))
    | .ok version => ∃ m', m.put key write =
        .ok (((write.content version).record version, m.node.tickets.length), m') ∧
      m'.node.Lone m.address ∧ m'.node.verdict m.node.tickets.length = .committed ∧
      m'.contents =
        Function.update m.contents key (some ((write.content version).record version)) := by
  have staged := lone.stageWrite key write
  cases resolved : write.resolve (m.contents key) with
  | error current =>
      rw [show write.resolve (m.node.store.get? key) = _ from resolved] at staged
      simp only [put, staged]
  | ok version =>
      rw [show write.resolve (m.node.store.get? key) = _ from resolved] at staged
      obtain ⟨n, ok, lone, committed, store⟩ := staged
      refine ⟨{ m.become n with wakeUp := true }, by simp only [put, ok], lone, committed, ?_⟩
      exact contents_put store

/-- One call is answered as the table answers it, and leaves the member with what the table has
    then. -/
theorem serve_lone (h : m.Solitary) (leads : m.node.role = .leader) (expired : Bool)
    (demand : Demand) :
    (m.serve expired demand).1 = some (m.contents.serve demand).1 ∧
      (m.serve expired demand).2.contents = (m.contents.serve demand).2 ∧
      (m.serve expired demand).2.Solitary ∧
      (m.serve expired demand).2.node.role = .leader := by
  have lone := h.alone.lone leads
  cases demand with
  | get key =>
      have served : m.serve expired (.get key) = (some (.found (m.contents key)), m) := by
        rw [serve, lone.read key]
        rfl
      rw [served]
      exact ⟨rfl, rfl, h, leads⟩
  | put key write =>
      have done := put_lone lone key write
      rw [Contents.serve_put]
      cases resolved : write.resolve (m.contents key) with
      | error current =>
          rw [resolved] at done
          have served : m.serve expired (.put key write) =
              (some (.refused (.versionMismatch current (write.supplied current))), m) := by
            rw [serve, done]
          rw [served]
          exact ⟨rfl, rfl, h, leads⟩
      | ok version =>
          rw [resolved] at done
          obtain ⟨m', ok, lone', committed, contents⟩ := done
          have served : m.serve expired (.put key write) =
              (some (.stored ((write.content version).record version)), m') := by
            simp only [serve, ok, Staged.outcome?, committed]
          rw [served]
          exact ⟨rfl, contents, h.takes ok, lone'.leads⟩

theorem serveAll_lone (calls : List (Demand × Bool)) (h : m.Solitary)
    (leads : m.node.role = .leader) :
    (m.serveAll calls).1 = (m.contents.serveAll (calls.map Prod.fst)).1.map some ∧
      (m.serveAll calls).2.contents = (m.contents.serveAll (calls.map Prod.fst)).2 := by
  induction calls generalizing m with
  | nil => exact ⟨rfl, rfl⟩
  | cons call rest ih =>
      obtain ⟨demand, expired⟩ := call
      obtain ⟨answer, contents, h', leads'⟩ := serve_lone h leads expired demand
      obtain ⟨answers, contents'⟩ := ih h' leads'
      rw [contents] at answers contents'
      constructor
      · simp only [serveAll, List.map_cons, Contents.serveAll, answer, answers]
      · simp only [serveAll, List.map_cons, Contents.serveAll, contents']

theorem openElection_start {now : Nat} {timing : Timing} {t : Moment}
    (due : now + timing.electionMin ≤ t.now) (address : String) :
    ((start now address [] timing).openElection t).2.node.role = .leader ∧
      ((start now address [] timing).openElection t).2.contents = .empty := by
  have alone := (Solitary.start now address timing).alone
  have late : (start now address [] timing).node.electionDue t.now = true := decide_eq_true due
  have lone := alone.openElection_lone late
  have log : ((start now address [] timing).openElection t).2.node.log = [⟨1, .barrier⟩] := by
    rw [openElection_alone _ late alone.needed_le, Node.becomeLeader_log]
    rfl
  refine ⟨lone.leads, ?_⟩
  rw [contents, lone.replay, log]
  rfl

/-- A leader without peers answers any calls, one after the other, as the table does that holds what
    its store holds, and never without knowing what came of them. If it has only just started, this
    is the empty table. -/
theorem lone_leader_serves_as_contents :
    (∀ (m : Member), m.Solitary → m.node.role = .leader → ∀ calls : List (Demand × Bool),
      (m.serveAll calls).1 = (m.contents.serveAll (calls.map Prod.fst)).1.map some ∧
      (m.serveAll calls).2.contents = (m.contents.serveAll (calls.map Prod.fst)).2 ∧
      some (.refused .replicationTimeout) ∉ (m.serveAll calls).1) ∧
    ∀ (now : Nat) (address : String) (timing : Timing) (t : Moment),
      now + timing.electionMin ≤ t.now →
      ((start now address [] timing).openElection t).2.Solitary ∧
      ((start now address [] timing).openElection t).2.node.role = .leader ∧
      ((start now address [] timing).openElection t).2.contents = .empty := by
  constructor
  · intro m h leads calls
    obtain ⟨answers, contents⟩ := serveAll_lone calls h leads
    refine ⟨answers, contents, ?_⟩
    rw [answers]
    intro timeout
    obtain ⟨answer, among, refused⟩ := List.mem_map.mp timeout
    rw [Option.some.inj refused] at among
    exact Contents.serveAll_ne_timeout _ _ among
  · intro now address timing t due
    obtain ⟨leads, empty⟩ := openElection_start due address
    exact ⟨(Solitary.start now address timing).wakes t, leads, empty⟩

theorem lone_leader_serves_as_contents_after_its_start :
    (((start 0 "a" [] ⟨150, 300, 30, 50, 1000⟩).openElection ⟨1000, 200⟩).2.serveAll
      [(.get "k", false), (.put "k" (.upsert 0 ⟨[]⟩), false), (.put "k" (.upsert 0 ⟨[]⟩), true),
        (.put "j" (.upsert 1 ⟨[]⟩), false), (.put "k" .delete, true), (.get "k", false)]).1 =
    [some (.found none), some (.stored (.live (Document.render ⟨[]⟩ 1) 1)),
      some (.refused (.versionMismatch 1 0)), some (.refused (.versionMismatch 0 1)),
      some (.stored .tombstone), some (.found (some .tombstone))] := by
  obtain ⟨serves, starts⟩ := lone_leader_serves_as_contents
  obtain ⟨solitary, leads, empty⟩ :=
    starts 0 "a" ⟨150, 300, 30, 50, 1000⟩ ⟨1000, 200⟩ (by decide)
  obtain ⟨answers, _⟩ := serves _ solitary leads
    [(.get "k", false), (.put "k" (.upsert 0 ⟨[]⟩), false), (.put "k" (.upsert 0 ⟨[]⟩), true),
      (.put "j" (.upsert 1 ⟨[]⟩), false), (.put "k" .delete, true), (.get "k", false)]
  rw [answers, empty]
  rfl

end Member

end QuorumStore
