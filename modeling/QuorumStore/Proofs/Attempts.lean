import QuorumStore.Client
import Mathlib.Algebra.Group.Nat.Defs
/-! # The attempts of a request

Everything a client does while it makes a request is written into a journal: which servers it calls,
what comes back, and how long it pauses. The journal alone tells where the next call goes and how
long the next pause is, so whatever a network lets come back, the client does nothing else.
-/

namespace QuorumStore

/-- A call that a client made. -/
structure Visit where
  server : String
  request : HttpRequest
  /-- What came back. -/
  answer : Option HttpAnswer
  deriving Repr, DecidableEq

namespace Visit

variable (v : Visit)

def heard : Except CallFault ClientReply := clientReply (v.request.url v.server) v.answer

/-- Why the call brought no reply, if it brought none. -/
def fault? : Option CallFault :=
  match v.heard with
  | .error fault => some fault
  | .ok _ => none

/-- Whether the server replied that another one leads, or nobody. -/
def turnedAway : Bool :=
  match v.heard with
  | .error _ => false
  | .ok reply => reply.code == .fail && reply.error == some "NotLeader"

/-- What the reply settles, if it is a success or a failure for another reason than that the server
    does not lead. -/
def settled? : Option ClientOutcome :=
  match v.heard with
  | .error _ => none
  | .ok reply =>
    match reply.code with
    | .success => some (.granted ((reply.payload.bind RecordPayload.ofJson?).getD ⟨"", ""⟩))
    | .fail =>
      if reply.error = some "NotLeader" then none
      else some (.refused (reply.error.getD "") (reply.message.getD ""))

/-- The leader that the reply points to. -/
def hint? : Option String :=
  match v.heard with
  | .error _ => none
  | .ok reply => reply.leader?

end Visit

inductive Deed where
  | calls (v : Visit)
  | pauses (milliseconds : Nat)
  deriving Repr, DecidableEq

/-- What a client has done for a request, latest first. -/
abbrev Journal := List Deed

namespace Journal

def visits : Journal → List Visit
  | [] => []
  | .calls v :: before => v :: visits before
  | .pauses _ :: before => visits before

/-- How often the client has paused. -/
def pauses : Journal → Nat
  | [] => 0
  | .calls _ :: before => pauses before
  | .pauses _ :: before => pauses before + 1

/-- The call whose reply the next call follows: it was turned away, and no pause came after it. -/
def followed? : Journal → Option Visit
  | .calls v :: _ => if v.turnedAway then some v else none
  | _ => none

/-- How many calls followed the reply to the call before them. -/
def redirects : Journal → Nat
  | [] => 0
  | .calls _ :: before => if (followed? before).isSome then redirects before + 1 else redirects before
  | .pauses _ :: before => redirects before

/-- How many calls did not. -/
def turns : Journal → Nat
  | [] => 0
  | .calls _ :: before => if (followed? before).isSome then turns before else turns before + 1
  | .pauses _ :: before => turns before

theorem mem_visits {v : Visit} {done : Journal} : v ∈ visits done ↔ .calls v ∈ done := by
  induction done with
  | nil => simp [visits]
  | cons deed before ih =>
      cases deed with
      | calls u => simp [visits, ih]
      | pauses milliseconds => simp [visits, ih]

/-- The fault of the last call that brought no reply. -/
def fault? (done : Journal) : Option CallFault := done.visits.findSome? Visit.fault?

end Journal

namespace Client

/-- A wire that brings one outcome after the other, and writes down each call. -/
def tape (outcomes : Nat → Option HttpAnswer) : Wire (StateM Journal) := fun server request =>
  modifyGet fun (done : Journal) =>
    (outcomes done.visits.length, .calls ⟨server, request, outcomes done.visits.length⟩ :: done)

def rest (milliseconds : Nat) : StateM Journal Unit := modify (.pauses milliseconds :: ·)

/-- What a request comes to, and what the client does for it. -/
def trial (c : Client) (request : HttpRequest) (outcomes : Nat → Option HttpAnswer) :
    Except ClientError ClientOutcome × Journal :=
  (c.send (tape outcomes) rest request).run []

end Client

/-- Whether a deed is due after what was done before. A call goes where the reply right before it
    points to, and otherwise to the server whose turn it is. A pause comes right after a reply that
    points to nobody who could be asked, and never after a call that brought no reply; it is twice as
    long as the pause before it, up to the longest one. -/
def Deed.Due (c : Client) (request : HttpRequest) (outcomes : Nat → Option HttpAnswer)
    (before : Journal) : Deed → Prop
  | .calls v => v.request = request ∧ v.answer = outcomes before.visits.length ∧
    match before.followed? with
    | some u => u.hint? = some v.server ∧ v.server ≠ "" ∧ v.server ≠ u.server ∧ before.redirects < 4
    | none => v.server = c.serverAt before.turns
  | .pauses milliseconds => ∃ u, before.followed? = some u ∧
    (∀ leader, u.hint? = some leader → leader = u.server ∨ before.redirects = 4) ∧
    milliseconds = min (50 * 2 ^ before.pauses) 2000

variable {c : Client} {request : HttpRequest} {outcomes : Nat → Option HttpAnswer}
  {v : Visit} {r aimed : Retry} {done : Journal}

/-! ## What a reply tells -/

namespace Visit

theorem hint?_ne_empty {leader : String} (hint : v.hint? = some leader) : leader ≠ "" := by
  rw [hint?] at hint
  cases heard : v.heard with
  | error fault => simp [heard] at hint
  | ok reply =>
      simp only [heard, ClientReply.leader?] at hint
      simpa using (Option.filter_eq_some_iff.mp hint).2

theorem fault?_of_turnedAway (turned : v.turnedAway = true) : v.fault? = none := by
  rw [turnedAway] at turned
  rw [fault?]
  cases heard : v.heard with
  | error fault => simp [heard] at turned
  | ok reply => rfl

theorem settled?_eq_none : v.settled? = none ↔ v.fault?.isSome ∨ v.turnedAway := by
  rw [settled?, fault?, turnedAway]
  cases v.heard with
  | error fault => simp
  | ok reply =>
      cases code : reply.code with
      | success => simp [code]
      | fail => simp [code]

/-- What a client makes of a reply. -/
theorem hear_eq (v : Visit) (r : Retry) : r.hear v.server v.heard =
    match v.settled?, v.fault?, v.hint? with
    | some outcome, _, _ => .ended outcome
    | none, some fault, _ => .again none { r with fault := some fault }
    | none, none, some leader =>
      if leader ≠ v.server ∧ r.redirects < maxRedirects then .again none (r.follow leader)
      else r.backOff
    | none, none, none => r.backOff := by
  rw [settled?, fault?, hint?]
  cases v.heard with
  | error fault => rfl
  | ok reply =>
      have code : (NodeError.notLeader none).code = "NotLeader" := rfl
      cases ended : reply.code with
      | success => simp [Retry.hear, ended]
      | fail =>
          have told : reply.error.getD "" = "NotLeader" ↔ reply.error = some "NotLeader" := by
            cases reply.error <;> simp
          simp only [Retry.hear, ended, code, ne_eq, told]
          by_cases leads : reply.error = some "NotLeader"
          · simp [leads]
            cases reply.leader? <;> rfl
          · simp [leads]

end Visit

/-! ## The journal and where the attempts stand -/

namespace Retry

/-- Where the attempts stand is what the journal tells. -/
structure Stands (r : Retry) (done : Journal) : Prop where
  turns : r.turns = done.turns
  redirects : r.redirects = done.redirects + if done.followed?.isSome then 1 else 0
  few : r.redirects ≤ 4
  pause : r.pause = min (50 * 2 ^ done.pauses) 2000
  fault : r.fault = done.fault?
  leader : match done.followed? with
    | some u => ∃ leader, r.leader = some leader ∧ u.hint? = some leader ∧ leader ≠ u.server
    | none => r.leader = none

/-- Where they stand while a call is made that is the last one of the journal already. -/
structure Awaits (r : Retry) (v : Visit) (done : Journal) : Prop where
  turns : r.turns = Journal.turns (.calls v :: done)
  redirects : r.redirects = Journal.redirects (.calls v :: done)
  few : r.redirects ≤ 4
  pause : r.pause = min (50 * 2 ^ done.pauses) 2000
  fault : r.fault = done.fault?
  leader : r.leader = none

theorem stands_start : Stands .start [] :=
  ⟨rfl, rfl, Nat.zero_le 4, rfl, rfl, rfl⟩

/-- The next call is due wherever it is aimed at. -/
theorem Stands.target (stands : r.Stands done) {server : String}
    (target : c.target r = (server, aimed)) :
    Deed.Due c request outcomes done
        (.calls ⟨server, request, outcomes done.visits.length⟩) ∧
      aimed.Awaits ⟨server, request, outcomes done.visits.length⟩ done := by
  obtain ⟨turns, redirects, few, pause, fault, leader⟩ := stands
  cases followed : done.followed? with
  | some u =>
      rw [followed] at redirects leader
      obtain ⟨leader, pending, hint, away⟩ := leader
      rw [Client.target, pending] at target
      obtain ⟨rfl, rfl⟩ := Prod.mk.inj target
      refine ⟨⟨rfl, rfl, ?_⟩, ?_, ?_, few, pause, fault, rfl⟩
      · rw [followed]
        refine ⟨hint, Visit.hint?_ne_empty hint, away, ?_⟩
        simp at redirects
        omega
      · rw [Journal.turns, followed]
        exact turns
      · rw [Journal.redirects, followed]
        exact redirects
  | none =>
      rw [followed] at redirects leader
      rw [Client.target, leader] at target
      obtain ⟨rfl, rfl⟩ := Prod.mk.inj target
      refine ⟨⟨rfl, rfl, ?_⟩, ?_, ?_, few, pause, fault, rfl⟩
      · rw [followed, turns]
      · rw [Journal.turns, followed, turns]
        rfl
      · rw [Journal.redirects, followed]
        exact redirects

theorem Awaits.backOff (awaits : r.Awaits v done) (turned : v.turnedAway = true)
    (lost : ∀ leader, v.hint? = some leader → leader = v.server ∨ r.redirects = 4) :
    Deed.Due c request outcomes (.calls v :: done) (.pauses r.pause) ∧
      Retry.Stands { r with pause := min (2 * r.pause) longestPause }
        (.pauses r.pause :: .calls v :: done) := by
  obtain ⟨turns, redirects, few, pause, fault, leader⟩ := awaits
  have followed : Journal.followed? (.calls v :: done) = some v := if_pos turned
  constructor
  · refine ⟨v, followed, fun leader hint => ?_, pause⟩
    rw [← redirects]
    exact lost leader hint
  · refine ⟨turns, redirects, few, ?_, ?_, leader⟩
    · have doubled : 2 ^ (done.pauses + 1) = 2 * 2 ^ done.pauses := by
        rw [pow_succ, Nat.mul_comm]
      simp only [Journal.pauses, pause, longestPause, doubled]
      omega
    · rw [fault, Journal.fault?, Journal.fault?, Journal.visits, Journal.visits, List.findSome?,
        Visit.fault?_of_turnedAway turned]

theorem Awaits.failed (awaits : r.Awaits v done) {fault : CallFault}
    (failed : v.fault? = some fault) :
    Retry.Stands { r with fault := some fault } (.calls v :: done) := by
  obtain ⟨turns, redirects, few, pause, _, leader⟩ := awaits
  have followed : Journal.followed? (.calls v :: done) = none := by
    refine if_neg fun turned => ?_
    rw [Visit.fault?_of_turnedAway turned] at failed
    simp at failed
  refine ⟨turns, ?_, few, pause, ?_, ?_⟩
  · rw [followed]
    exact redirects
  · rw [Journal.fault?, Journal.visits, List.findSome?, failed]
  · rw [followed]
    exact leader

theorem Awaits.follow (awaits : r.Awaits v done) (turned : v.turnedAway = true) {leader : String}
    (hint : v.hint? = some leader) (away : leader ≠ v.server) (few : r.redirects < 4) :
    (r.follow leader).Stands (.calls v :: done) := by
  obtain ⟨turns, redirects, _, pause, fault, _⟩ := awaits
  have followed : Journal.followed? (.calls v :: done) = some v := if_pos turned
  refine ⟨turns, ?_, few, pause, ?_, ?_⟩
  · rw [followed, ← redirects]
    rfl
  · rw [Journal.fault?, Journal.visits, List.findSome?, Visit.fault?_of_turnedAway turned]
    exact fault
  · rw [followed]
    exact ⟨leader, rfl, hint, away⟩

/-- Whatever the reply, the attempts stand where the journal says, or the request has ended. -/
theorem Awaits.hear (awaits : r.Awaits v done) (c : Client) (request : HttpRequest)
    (outcomes : Nat → Option HttpAnswer) :
    match r.hear v.server v.heard with
    | .ended outcome => v.settled? = some outcome
    | .again none r' => v.settled? = none ∧ r'.Stands (.calls v :: done)
    | .again (some milliseconds) r' => v.settled? = none ∧
      Deed.Due c request outcomes (.calls v :: done) (.pauses milliseconds) ∧
      r'.Stands (.pauses milliseconds :: .calls v :: done) := by
  rw [v.hear_eq r]
  cases settled : v.settled? with
  | some outcome => rfl
  | none =>
      cases failed : v.fault? with
      | some fault => exact ⟨rfl, awaits.failed failed⟩
      | none =>
          have turned : v.turnedAway = true := by
            simpa [failed] using Visit.settled?_eq_none.mp settled
          cases hint : v.hint? with
          | none =>
              refine ⟨rfl, awaits.backOff turned fun leader told => ?_⟩
              rw [hint] at told
              simp at told
          | some leader =>
              by_cases follows : leader ≠ v.server ∧ r.redirects < maxRedirects
              · simp only [if_pos follows]
                exact ⟨trivial, awaits.follow turned hint follows.1 follows.2⟩
              · simp only [if_neg follows]
                refine ⟨trivial, awaits.backOff turned fun leader' told => ?_⟩
                obtain rfl := Option.some.inj (hint.symm.trans told)
                have few := awaits.few
                rw [maxRedirects] at follows
                by_cases back : leader = v.server
                · exact .inl back
                · have spent : ¬ r.redirects < 4 := fun few => follows ⟨back, few⟩
                  exact .inr (by omega)

end Retry

/-! ## A whole request -/

/-- Each deed was due when it was done. -/
def Journal.Kept (c : Client) (request : HttpRequest) (outcomes : Nat → Option HttpAnswer)
    (done : Journal) : Prop :=
  ∀ deed before, deed :: before <:+ done → deed.Due c request outcomes before

theorem Journal.Kept.cons (kept : Journal.Kept c request outcomes done) {deed : Deed}
    (due : deed.Due c request outcomes done) : Journal.Kept c request outcomes (deed :: done) := by
  intro deed' before part
  cases List.suffix_cons_iff.mp part with
  | inl whole =>
      obtain ⟨rfl, rfl⟩ := List.cons.inj whole
      exact due
  | inr earlier => exact kept deed' before earlier

/-- How a client conducts itself while it makes a request. -/
structure Client.Conduct (c : Client) (request : HttpRequest) (outcomes : Nat → Option HttpAnswer)
    (result : Except ClientError ClientOutcome) (done : Journal) : Prop where
  /-- It makes no more calls than it may. -/
  bounded : done.visits.length ≤ c.attempts
  /-- What settles the request ends it, and the client returns this. -/
  settles : ∀ outcome, result = .ok outcome ↔
    ∃ v before, done = .calls v :: before ∧ v.settled? = some outcome
  /-- Nothing that settles the request is passed over. -/
  first : ∀ v before, .calls v :: before <:+ done → v.settled? ≠ none → done = .calls v :: before
  /-- It gives up exactly when no call has settled anything and no attempt is left. -/
  givesUp : ∀ e, result = .error e ↔ e = .noLeader c.attempts done.fault? ∧
    done.visits.length = c.attempts ∧ ∀ v ∈ done.visits, v.fault?.isSome ∨ v.turnedAway
  /-- It follows no more than four replies elsewhere. -/
  redirects : done.redirects ≤ 4
  /-- Wherever it goes and however long it pauses, it does what is due. -/
  due : Journal.Kept c request outcomes done

namespace Client

/-- How a number of attempts goes on from a journal of calls that have settled nothing. -/
theorem persist_kept (c : Client) (request : HttpRequest) (outcomes : Nat → Option HttpAnswer)
    (attempts : Nat) (stands : r.Stands done) (kept : Journal.Kept c request outcomes done)
    (unsettled : ∀ v ∈ done.visits, v.settled? = none) :
    match (c.persist (tape outcomes) rest request attempts r).run done with
    | (.ok outcome, done') => Journal.Kept c request outcomes done' ∧
      done'.visits.length ≤ done.visits.length + attempts ∧
      ∃ v before, done' = .calls v :: before ∧ v.settled? = some outcome ∧
        ∀ u ∈ Journal.visits before, u.settled? = none
    | (.error e, done') => Journal.Kept c request outcomes done' ∧
      done'.visits.length = done.visits.length + attempts ∧
      e = .noLeader c.attempts (Journal.fault? done') ∧
      ∀ u ∈ Journal.visits done', u.settled? = none := by
  induction attempts generalizing r done with
  | zero =>
      refine ⟨kept, rfl, ?_, unsettled⟩
      rw [stands.fault]
  | succ attempts ih =>
      rcases target : c.target r with ⟨server, aimed⟩
      let v : Visit := ⟨server, request, outcomes done.visits.length⟩
      obtain ⟨due, awaits⟩ : Deed.Due c request outcomes done (.calls v) ∧ aimed.Awaits v done :=
        stands.target target
      have kept' : Journal.Kept c request outcomes (.calls v :: done) := kept.cons due
      have hears := awaits.hear c request outcomes
      have called : (tape outcomes server request).run done = (v.answer, .calls v :: done) := rfl
      have heard : clientReply (request.url server) v.answer = v.heard := rfl
      have longer : (Journal.visits (.calls v :: done)).length + attempts =
          done.visits.length + (attempts + 1) := by
        rw [Journal.visits, List.length_cons]
        omega
      rw [show v.server = server from rfl] at hears
      rw [persist_succ (tape outcomes) rest c request attempts done target, called, heard]
      cases told : aimed.hear server v.heard with
      | ended outcome =>
          rw [told] at hears
          exact ⟨kept', Nat.le.intro longer, v, done, rfl, hears, unsettled⟩
      | again pause r' =>
          rw [told] at hears
          cases pause with
          | none =>
              obtain ⟨open_, stands'⟩ := hears
              have goesOn := ih stands' kept' (List.forall_mem_cons.mpr ⟨open_, unsettled⟩)
              rw [longer] at goesOn
              exact goesOn
          | some milliseconds =>
              obtain ⟨open_, due', stands'⟩ := hears
              have goesOn := ih stands' (kept'.cons due')
                (List.forall_mem_cons.mpr ⟨open_, unsettled⟩)
              rw [show Journal.visits (.pauses milliseconds :: .calls v :: done) =
                Journal.visits (.calls v :: done) from rfl, longer] at goesOn
              exact goesOn

theorem redirects_le (kept : Journal.Kept c request outcomes done) : done.redirects ≤ 4 := by
  induction done with
  | nil => exact Nat.zero_le 4
  | cons deed before ih =>
      have earlier : Journal.Kept c request outcomes before :=
        fun deed' before' part => kept deed' before' (part.trans (List.suffix_cons ..))
      have due := kept deed before (List.suffix_refl _)
      cases deed with
      | pauses milliseconds => exact ih earlier
      | calls v =>
          rw [Journal.redirects]
          cases followed : Journal.followed? before with
          | none => exact ih earlier
          | some u =>
              obtain ⟨_, _, target⟩ := due
              rw [followed] at target
              exact target.2.2.2

theorem conduct_of_settled {before : Journal} {outcome : ClientOutcome}
    (kept : Journal.Kept c request outcomes (.calls v :: before))
    (bounded : (Journal.visits (.calls v :: before)).length ≤ c.attempts)
    (settled : v.settled? = some outcome)
    (unsettled : ∀ u ∈ before.visits, u.settled? = none) :
    c.Conduct request outcomes (.ok outcome) (.calls v :: before) where
  bounded := bounded
  settles outcome' := by
    constructor
    · intro same
      exact ⟨v, before, rfl, Except.ok.inj same ▸ settled⟩
    · rintro ⟨v', before', whole, settled'⟩
      obtain ⟨same, _⟩ := List.cons.inj whole
      obtain rfl := Deed.calls.inj same
      rw [Option.some.inj (settled.symm.trans settled')]
  first u before' part settles := by
    cases List.suffix_cons_iff.mp part with
    | inl whole => exact whole.symm
    | inr earlier =>
        have mem : .calls u ∈ before := earlier.subset List.mem_cons_self
        exact absurd (unsettled u (Journal.mem_visits.mpr mem)) settles
  givesUp e := by
    constructor
    · intro ends
      simp at ends
    · rintro ⟨_, _, lost⟩
      have open_ := Visit.settled?_eq_none.mpr (lost v List.mem_cons_self)
      rw [settled] at open_
      simp at open_
  redirects := redirects_le kept
  due := kept

theorem conduct_of_unsettled (kept : Journal.Kept c request outcomes done)
    (spent : done.visits.length = c.attempts)
    (unsettled : ∀ u ∈ done.visits, u.settled? = none) :
    c.Conduct request outcomes (.error (.noLeader c.attempts done.fault?)) done where
  bounded := Nat.le_of_eq spent
  settles outcome := by
    constructor
    · intro ends
      simp at ends
    · rintro ⟨u, before, rfl, settled⟩
      rw [unsettled u List.mem_cons_self] at settled
      simp at settled
  first u before part settles := by
    have mem : .calls u ∈ done := part.subset List.mem_cons_self
    exact absurd (unsettled u (Journal.mem_visits.mpr mem)) settles
  givesUp e := by
    constructor
    · intro same
      exact ⟨(Except.error.inj same).symm, spent,
        fun u mem => Visit.settled?_eq_none.mp (unsettled u mem)⟩
    · rintro ⟨rfl, _⟩
      rfl
  redirects := redirects_le kept
  due := kept

/-- Whatever comes back, a client goes on as its journal says, and ends as it says. -/
theorem conduct_of_requests (c : Client) (request : HttpRequest)
    (outcomes : Nat → Option HttpAnswer) :
    c.Conduct request outcomes (c.trial request outcomes).1 (c.trial request outcomes).2 := by
  have ends := persist_kept c request outcomes c.attempts Retry.stands_start
    (fun deed before part => by simp at part) (by simp [Journal.visits])
  rw [trial, send]
  rcases ran : (c.persist (tape outcomes) rest request c.attempts .start).run [] with ⟨result, done⟩
  rw [ran] at ends
  have none : (Journal.visits []).length + c.attempts = c.attempts := Nat.zero_add _
  cases result with
  | ok outcome =>
      obtain ⟨kept, bounded, v, before, rfl, settled, unsettled⟩ := ends
      exact conduct_of_settled kept (none ▸ bounded) settled unsettled
  | error e =>
      obtain ⟨kept, spent, rfl, unsettled⟩ := ends
      exact conduct_of_unsettled kept (spent.trans none) unsettled

/-- The first server is down, the second points to a third one, which knows no leader, and then the
    turn is where it was. -/
example : (Journal.visits (trial ⟨["http://a", "http://b"], by decide, "t", 5, by decide⟩
    ⟨"GET", "/request", []⟩ fun call =>
      let leader := if call = 1 then some "http://c" else none
      if call = 0 then none
      else some ⟨200, (ClientReply.failure (.notLeader leader)).toJson.bytes⟩).2).map Visit.server =
    ["http://b", "http://a", "http://c", "http://b", "http://a"] := by
  decide +kernel

end Client

end QuorumStore
