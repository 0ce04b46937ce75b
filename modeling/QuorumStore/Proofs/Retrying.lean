import QuorumStore.Proofs.MessageText
import QuorumStore.Server.Routes
/-! # Retries and lost answers

A client whose call brings no answer makes the call again. It cannot know whether the server has
handled the first one, so a write that is based on a version may be done by one attempt and refused
to the next, which finds the version that the first has made. What a refusal does tell is less: no
attempt that was answered has written anything.
-/

namespace QuorumStore

/-- What becomes of a call. -/
inductive Fate where
  | undelivered
  /-- It is handled, but the answer is lost or comes too late. -/
  | unheard
  | heard
  deriving Repr, DecidableEq

/-- Everything that happens around the calls of a client. The calls are counted from zero. -/
structure Network where
  server : String → Server
  fate : Nat → Fate
  /-- When a call is handled. -/
  moment : Nat → Moment
  /-- What has become of the members by the time of a call. -/
  before : Nat → (String → Option Member) → String → Option Member
  /-- What becomes of a member while the write of a call waits for its verdict. -/
  meanwhile : Nat → Member → Member
  /-- Whether the time for the verdict runs out. -/
  expired : Nat → Bool
  exposition : Metrics → List UInt8

structure Try where
  server : String
  /-- What it has added to the log of the member that handled it. -/
  appended : Log
  /-- Whether the client has had an answer. -/
  answered : Bool
  deriving Repr, DecidableEq

structure World where
  members : String → Option Member
  tries : List Try

def HttpResponse.answer (exposition : Metrics → List UInt8) (r : HttpResponse) : HttpAnswer :=
  ⟨r.status, match r.body with
    | .empty => []
    | .json j => j.bytes
    | .text s => Utf8.ofString s
    | .metrics m => exposition m⟩

namespace Network

variable (net : Network)

/-- Lets a member handle a call. A write is answered when its verdict is there; without one there
    is no answer. -/
def handle (call : Nat) (address : String) (r : HttpRequest) (m : Member) :
    Option HttpAnswer × Log × Member :=
  match (net.server address).receive (net.moment call) r m with
  | (.answered response, m') =>
    (some (response.answer net.exposition), m'.node.log.drop m.node.log.length, m')
  | (.waits staged operation, m') =>
    let later := net.meanwhile call m'
    match staged.outcome? later.node (net.expired call) with
    | none => (none, m'.node.log.drop m.node.log.length, later)
    | some outcome =>
      let (response, later) := later.finishWrite staged operation outcome
      (some (response.answer net.exposition), m'.node.log.drop m.node.log.length, later)

def call (address : String) (r : HttpRequest) (w : World) : Option HttpAnswer × World :=
  let number := w.tries.length
  let members := net.before number w.members
  let missed : Option HttpAnswer × World :=
    (none, ⟨members, w.tries ++ [⟨address, [], false⟩]⟩)
  match net.fate number, members address with
  | .undelivered, _ => missed
  | _, none => missed
  | fate, some m =>
    let (answer?, appended, m) := net.handle number address r m
    let heard? := if fate = .heard then answer? else none
    (heard?, ⟨Function.update members address (some m),
      w.tries ++ [⟨address, appended, heard?.isSome⟩]⟩)

def wire : Wire (StateM World) := fun address r => modifyGet (net.call address r)

/-- A pause changes nothing by itself. What happens meanwhile happens before the next call. -/
def pause (_ : Nat) : StateM World Unit := pure ()

@[simp] theorem afterPause_pause (w : World) (milliseconds : Option Nat) :
    Client.afterPause pause w milliseconds = w := by
  cases milliseconds <;> rfl

/-- What becomes of the world when a client makes a request. -/
def serve (c : Client) (r : HttpRequest) (members : String → Option Member) :
    Except ClientError ClientOutcome × World :=
  (c.send net.wire pause r).run ⟨members, []⟩

end Network

/-! ## What an answer tells -/

theorem Server.receive_put {s : Server} {t : Moment} {r : HttpRequest} {m m' : Member}
    {response : HttpResponse} (method : r.method = "PUT")
    (route : Route.ofPath? (Route.path r.target) = some .values)
    (h : s.receive t r m = (.answered response, m')) : m'.node = m.node := by
  simp only [receive, dispatch, route, method, and_self, if_pos] at h
  by_cases large : maxBody < r.body.length
  · rw [if_pos large] at h
    simp only [Prod.mk.injEq] at h
    rw [← h.2]
    rfl
  · rw [if_neg large, Member.serveWrite] at h
    rcases staged : stageValue s.verify r.body m with ⟨operation, e | ⟨staging, later⟩⟩
    · simp only [staged, Prod.mk.injEq] at h
      rw [← h.2]
      rfl
    · simp [staged] at h

theorem Staged.outcome?_cases {s : Staged} {n : Node} {expired : Bool}
    {outcome : Except NodeError Record} (h : s.outcome? n expired = some outcome) :
    outcome = .ok s.record ∨ outcome = .error .replicationTimeout := by
  rw [outcome?] at h
  split at h
  · exact .inl (Option.some.inj h).symm
  · exact .inr (Option.some.inj h).symm
  · split at h
    · exact .inr (Option.some.inj h).symm
    · simp at h

/-- Whoever hears an answer makes no further attempt and is not told of a mismatch. -/
def HttpAnswer.Conclusive (answer : HttpAnswer) : Prop :=
  ∀ url server retry, ∃ told, Retry.hear server (clientReply url (some answer)) retry = .ended told ∧
    ∀ message, told ≠ .refused "VersionMismatch" message

theorem HttpAnswer.conclusive_finishWrite {staged : Staged} {operation : Operation}
    {outcome : Except NodeError Record} {m : Member} (exposition : Metrics → List UInt8)
    (ends : outcome = .ok staged.record ∨ outcome = .error .replicationTimeout) :
    ((m.finishWrite staged operation outcome).1.answer exposition).Conclusive := by
  intro url server retry
  rcases ends with rfl | rfl
  · have heard := clientReply_success url 200 staged.payload
    refine ⟨_, congrArg (retry.hear server) heard, fun message => ?_⟩
    simp
  · have heard := clientReply_failure url 200 .replicationTimeout
    refine ⟨_, congrArg (retry.hear server) heard, fun message => ?_⟩
    simp [ClientReply.failure, NodeError.code]

/-! ## Attempts -/

/-- No call that has added to a log was answered. -/
def World.Silent (w : World) : Prop := ∀ t ∈ w.tries, t.appended ≠ [] → t.answered = false

theorem World.Silent.next {w w' : World} {t : Try} (h : w.Silent)
    (tries : w'.tries = w.tries ++ [t]) (last : t.appended ≠ [] → t.answered = false) :
    w'.Silent := by
  intro t' mem appended
  rw [tries] at mem
  rcases List.mem_append.mp mem with mem | mem
  · exact h t' mem appended
  · obtain rfl := List.mem_singleton.mp mem
    exact last appended

namespace Network

variable {net : Network} {c : Client} {r : HttpRequest} {w : World} {address : String}

/-- A call that adds to a log brings no answer or a conclusive one. -/
structure Heeds (t : Try) (answer? : Option HttpAnswer) : Prop where
  answered : t.answered = answer?.isSome
  conclusive : ∀ answer, answer? = some answer → t.appended ≠ [] → answer.Conclusive

theorem heeds_of_nothing (address : String) : Heeds ⟨address, [], false⟩ none :=
  ⟨rfl, fun _ h => by simp at h⟩

theorem handle_conclusive (method : r.method = "PUT")
    (route : Route.ofPath? (Route.path r.target) = some .values) (call : Nat) (m : Member)
    (answer : HttpAnswer) (brings : (net.handle call address r m).1 = some answer)
    (appended : (net.handle call address r m).2.1 ≠ []) : answer.Conclusive := by
  rw [handle] at brings appended
  rcases received : (net.server address).receive (net.moment call) r m with
    ⟨response | ⟨staged, operation⟩, m'⟩
  · -- answered at once: the log is as it was
    have same := Server.receive_put method route received
    rw [received] at appended
    simp [same] at appended
  · rw [received] at brings
    simp only at brings
    split at brings
    · simp at brings
    · rename_i outcome verdict
      obtain rfl := Option.some.inj brings
      exact HttpAnswer.conclusive_finishWrite net.exposition (Staged.outcome?_cases verdict)

theorem call_heeds (net : Network) (method : r.method = "PUT")
    (route : Route.ofPath? (Route.path r.target) = some .values) (address : String) (w : World) :
    ∃ t, (net.call address r w).2.tries = w.tries ++ [t] ∧ Heeds t (net.call address r w).1 := by
  rw [call]
  simp only
  split
  · exact ⟨_, rfl, heeds_of_nothing address⟩
  · exact ⟨_, rfl, heeds_of_nothing address⟩
  · rename_i fate m _ _
    refine ⟨_, rfl, rfl, fun answer brings appended => ?_⟩
    split at brings
    · exact handle_conclusive method route _ m answer brings appended
    · simp at brings

theorem persist_succ {server : String} {retry aimed : Retry} (net : Network) (c : Client)
    (r : HttpRequest) (attempts : Nat) (w : World) (target : c.target retry = (server, aimed)) :
    (c.persist net.wire pause r (attempts + 1) retry).run w =
      match aimed.hear server (clientReply (r.url server) (net.call server r w).1) with
      | .ended outcome => (.ok outcome, (net.call server r w).2)
      | .again _ retry' =>
        (c.persist net.wire pause r attempts retry').run (net.call server r w).2 := by
  have next := Client.persist_succ net.wire pause c r attempts w target
  simp only [afterPause_pause] at next
  exact next

/-- A request that ends with a mismatch was told so by its last call, which has written nothing, and
    no call that has written something was answered. -/
theorem persist_mismatch {message : String} {w' : World} (method : r.method = "PUT")
    (route : Route.ofPath? (Route.path r.target) = some .values) {attempts : Nat} {retry : Retry}
    (silent : w.Silent)
    (ends : (c.persist net.wire pause r attempts retry).run w =
      (.ok (.refused "VersionMismatch" message), w')) :
    w'.Silent ∧ ∃ before last, w'.tries = before ++ [last] ∧ last.answered = true ∧
      last.appended = [] := by
  induction attempts generalizing retry w with
  | zero =>
      have outcome := congrArg Prod.fst ends
      cases outcome
  | succ attempts ih =>
      rcases target : c.target retry with ⟨server, aimed⟩
      obtain ⟨t, tries, heeds⟩ := net.call_heeds method route server w
      rw [persist_succ net c r attempts w target] at ends
      cases heard : aimed.hear server (clientReply (r.url server) (net.call server r w).1) with
      | ended outcome =>
          rw [heard] at ends
          obtain ⟨same, rfl⟩ := Prod.mk.inj ends
          obtain rfl := Except.ok.inj same
          -- an answer has come, and it would be another one if the call had written something
          obtain ⟨answer, brings⟩ : ∃ answer, (net.call server r w).1 = some answer := by
            cases none : (net.call server r w).1 with
            | none => simp [none, clientReply, Retry.hear] at heard
            | some answer => exact ⟨answer, rfl⟩
          have nothing : t.appended = [] := by
            by_contra appended
            obtain ⟨told, same, other⟩ :=
              heeds.conclusive answer brings appended (r.url server) server aimed
            rw [brings, same] at heard
            exact other message (Attempt.ended.inj heard)
          refine ⟨silent.next tries fun appended => absurd nothing appended, w.tries, t, tries, ?_,
            nothing⟩
          rw [heeds.answered, brings]
          rfl
      | again milliseconds retry' =>
          rw [heard] at ends
          refine ih (silent.next tries fun appended => ?_) ends
          rw [heeds.answered]
          cases brings : (net.call server r w).1 with
          | none => rfl
          | some answer =>
              obtain ⟨told, same, _⟩ :=
                heeds.conclusive answer brings appended (r.url server) server aimed
              rw [brings, same] at heard
              simp at heard

theorem putRequest_route (c : Client) (key : String) (document : Json.Fields) (version : Nat) :
    Route.ofPath? (Route.path (c.putRequest key document version).target) = some .values := by
  have target : (c.putRequest key document version).target = Client.valuesPath := rfl
  rw [target]
  decide

/-- If a client is told that its write is based on another version than the current one, then the call
    that told it so has written nothing, and neither has any other call that was answered. A call
    whose answer was lost may well have. -/
theorem mismatch_of_answered_calls (net : Network) (c : Client) (key : String)
    (document : Json.Fields) (version : Nat) (members : String → Option Member) (message : String)
    (told : (net.serve c (c.putRequest key document version) members).1 =
      .ok (.refused "VersionMismatch" message)) :
    (∀ t ∈ (net.serve c (c.putRequest key document version) members).2.tries,
      t.answered = true → t.appended = []) ∧
    ∃ before last, (net.serve c (c.putRequest key document version) members).2.tries =
      before ++ [last] ∧ last.answered = true ∧ last.appended = [] := by
  have ends : (c.persist net.wire pause (c.putRequest key document version) c.attempts .start).run
      ⟨members, []⟩ = (.ok (.refused "VersionMismatch" message),
        (net.serve c (c.putRequest key document version) members).2) := Prod.ext told rfl
  obtain ⟨silent, last⟩ := persist_mismatch rfl (putRequest_route c key document version)
    (fun t mem => by simp at mem) ends
  refine ⟨fun t mem answered => ?_, last⟩
  by_contra appended
  rw [silent t mem appended] at answered
  simp at answered

/-- One server, which is a cluster by itself and leads. The first answer to a call is lost. -/
def forgetful : Network where
  server _ := ⟨fun _ => some "u", false⟩
  fate number := if number = 0 then .unheard else .heard
  moment _ := ⟨1000, 200⟩
  before _ members := members
  meanwhile _ m := m
  expired _ := false
  exposition _ := []

def lone : String → Option Member :=
  Function.update (fun _ => none) "http://a"
    (some ((Member.start 0 "http://a" [] ⟨150, 300, 30, 50, 1000⟩).openElection ⟨1000, 200⟩).2)

def hopeful : Client := ⟨["http://a"], by decide, "t", 2, Nat.zero_lt_two⟩

theorem hopeful_outcome : (forgetful.serve hopeful (hopeful.putRequest "k" [] 0) lone).1 =
    .ok (.refused "VersionMismatch" "Version mismatch") := by
  decide +kernel

theorem mismatch_of_answered_calls_when_one_is_lost :
    ∃ before last, (forgetful.serve hopeful (hopeful.putRequest "k" [] 0) lone).2.tries =
      before ++ [last] ∧ last.answered = true ∧ last.appended = [] :=
  (mismatch_of_answered_calls forgetful hopeful "k" [] 0 lone "Version mismatch" hopeful_outcome).2

/-- A refused write may have been done all the same, by a call whose answer was lost. -/
theorem refused_write_was_done :
    (forgetful.serve hopeful (hopeful.putRequest "k" [] 0) lone).1 =
      .ok (.refused "VersionMismatch" "Version mismatch") ∧
    (forgetful.serve hopeful (hopeful.putRequest "k" [] 0) lone).2.tries =
      [⟨"http://a", [⟨1, .write "u:k" (.live (Document.render ⟨[]⟩ 1)) 1⟩], false⟩,
        ⟨"http://a", [], true⟩] :=
  ⟨hopeful_outcome, by decide +kernel⟩

end Network

end QuorumStore
