import QuorumStore.Proofs.LoneLeader
import QuorumStore.Server.Routes
/-! # Principals beside each other

A request works for the principal that its token names, and on a key that this principal owns. What
a principal is told therefore depends on nothing but its own requests, whoever else calls the same
server and whatever they send.
-/

namespace QuorumStore

/-! ## What a request asks for -/

def Demand.key : Demand → String
  | .get key => key
  | .put key _ => key

/-- A request for a value or with one, and what happens around it: when it comes, and whether the
    time for its verdict runs out. -/
structure ValueRequest where
  writes : Bool
  body : List UInt8
  moment : Moment
  expired : Bool
  deriving DecidableEq

def ValueRequest.http (r : ValueRequest) : HttpRequest :=
  ⟨if r.writes then "PUT" else "GET", "/request", r.body⟩

/-- The principal that reads, and the key it reads, once a body has passed all checks. -/
def readTarget (verify : Verifier) (body : List UInt8) : Except NodeError (String × String) := do
  let request ← decodeBody GetRequest.reading body
  checkKey request.key
  let principal ← authorize verify request.token
  return (principal, Key.owned principal request.key)

/-- The principal that writes, the key and the write. -/
def writeTarget (verify : Verifier) (body : List UInt8) :
    Except NodeError (String × String × Write) := do
  let request ← decodeBody PutRequest.reading body
  checkKey request.key
  let submission ← takeApart request.value
  let principal ← authorize verify ((request.token.or submission.token).getD "")
  return (principal, Key.owned principal request.key, submission.write)

namespace Server

/-- Whom a request works for and what it asks, or the response that turns it away. -/
def screen (s : Server) (r : ValueRequest) : Except HttpResponse (String × Demand) :=
  if maxBody < r.body.length then .error .tooLarge
  else if r.writes then
    match writeTarget s.verify r.body with
    | .error e => .error (.refusal e)
    | .ok (principal, key, write) => .ok (principal, .put key write)
  else
    match readTarget s.verify r.body with
    | .error e => .error (.refusal e)
    | .ok (principal, key) => .ok (principal, .get key)

/-- Whether a request is authorised as a principal. -/
def worksFor (s : Server) (principal : String) (r : ValueRequest) : Bool :=
  match s.screen r with
  | .error _ => false
  | .ok (p, _) => p == principal

def exchange (s : Server) (r : ValueRequest) (m : Member) : Option HttpResponse × Member :=
  match s.receive r.moment r.http m with
  | (.answered response, m) => (some response, m)
  | (.waits staged operation, m) =>
    match staged.outcome? m.node r.expired with
    | none => (none, m)
    | some outcome =>
      let (response, m) := m.finishWrite staged operation outcome
      (some response, m)

/-- Serves requests one after the other, and keeps with each what was replied. -/
def transcript (s : Server) : List ValueRequest → Member → List (ValueRequest × Option HttpResponse)
  | [], _ => []
  | r :: rest, m =>
    let (response, m) := s.exchange r m
    (r, response) :: s.transcript rest m

end Server

def Answer.outcome (key : String) : Answer → Except NodeError RecordPayload
  | .found none => .error .notFound
  | .found (some record) | .stored record => .ok (.ofRecord key record)
  | .refused e => .error e

variable {verify : Verifier} {body : List UInt8} {m : Member} {s : Server}

theorem readTarget_owner {principal key : String}
    (h : readTarget verify body = .ok (principal, key)) : Key.owner key = principal := by
  simp only [readTarget, bind_eq_ok] at h
  obtain ⟨request, _, _, _, p, authorised, same⟩ := h
  obtain ⟨rfl, rfl⟩ := Prod.mk.inj (Except.ok.inj same)
  exact Key.owner_owned (authorize_ok authorised) request.key

theorem writeTarget_owner {principal key : String} {write : Write}
    (h : writeTarget verify body = .ok (principal, key, write)) : Key.owner key = principal := by
  simp only [writeTarget, bind_eq_ok] at h
  obtain ⟨request, _, _, _, submission, _, p, authorised, same⟩ := h
  obtain ⟨rfl, rest⟩ := Prod.mk.inj (Except.ok.inj same)
  obtain ⟨rfl, _⟩ := Prod.mk.inj rest
  exact Key.owner_owned (authorize_ok authorised) request.key

theorem Server.screen_owner {r : ValueRequest} {principal : String} {demand : Demand}
    (h : s.screen r = .ok (principal, demand)) : Key.owner demand.key = principal := by
  rw [screen] at h
  split at h
  · simp at h
  · split at h
    · split at h
      · simp at h
      · rename_i target
        obtain ⟨rfl, rfl⟩ := Prod.mk.inj (Except.ok.inj h)
        exact writeTarget_owner target
    · split at h
      · simp at h
      · rename_i target
        obtain ⟨rfl, rfl⟩ := Prod.mk.inj (Except.ok.inj h)
        exact readTarget_owner target

/-! ## Serving a request -/

theorem readValue_lone (lone : m.node.Lone m.address) : readValue verify body m.node =
    readTarget verify body >>= fun (_, key) => (m.contents.serve (.get key)).1.outcome key := by
  have leads : m.node.ensureLeader = pure () := if_pos lone.leads
  have reads : ∀ key, m.node.read key = pure (m.contents key) := lone.read
  simp only [readValue, readTarget, leads, reads, bind_assoc, pure_bind]
  refine bind_congr fun request => bind_congr fun _ => bind_congr fun principal => ?_
  rw [Contents.serve]
  cases m.contents (Key.owned principal request.key) <;> rfl

theorem stageValue_eq (verify : Verifier) (body : List UInt8) (m : Member) :
    (stageValue verify body m).2 = readProposal body m.node >>= (·.stage verify m) := by
  rw [stageValue]
  cases readProposal body m.node <;> rfl

theorem stageValue_leader (verify : Verifier) (body : List UInt8) (leads : m.node.role = .leader) :
    (stageValue verify body m).2 = writeTarget verify body >>= fun (_, key, write) =>
      (m.put key write).map fun ((record, ticket), m) => (⟨key, record, ticket⟩, m) := by
  have leads : m.node.ensureLeader = pure () := if_pos leads
  simp only [stageValue_eq, readProposal, Proposal.stage, writeTarget, leads, bind_assoc, pure_bind]
  refine bind_congr fun request => bind_congr fun _ => bind_congr fun submission =>
    bind_congr fun principal => ?_
  cases m.put (Key.owned principal request.key) submission.write <;> rfl

/-- The reply to a request that a leader without peers has screened. -/
def Contents.reply (c : Contents) (screened : Except HttpResponse (String × Demand)) :
    HttpResponse × Contents :=
  match screened with
  | .error response => (response, c)
  | .ok (_, demand) =>
    let (answer, c) := c.serve demand
    (.ofOutcome (answer.outcome demand.key), c)

theorem route_values : Route.ofPath? (Route.path "/request") = some .values := by
  decide

theorem Server.receive_read {r : ValueRequest} (reads : r.writes = false) :
    ∃ metrics, s.receive r.moment r.http m =
      (.answered (if maxBody < r.body.length then .tooLarge
        else .ofOutcome (readValue s.verify r.body m.node)), { m with metrics }) := by
  simp only [receive, ValueRequest.http, reads, route_values, dispatch, answer?]
  by_cases large : maxBody < r.body.length
  · simp only [if_pos large]
    exact ⟨_, rfl⟩
  · simp only [if_neg large]
    exact ⟨_, rfl⟩

theorem Server.receive_write {r : ValueRequest} (writes : r.writes = true)
    (small : ¬ maxBody < r.body.length) :
    match (stageValue s.verify r.body m).2 with
    | .error e => ∃ metrics, s.receive r.moment r.http m =
        (.answered (.refusal e), { m with metrics })
    | .ok (staged, m') => ∃ operation, s.receive r.moment r.http m =
        (.waits staged operation, m') := by
  simp only [receive, ValueRequest.http, writes, if_true, route_values, dispatch, if_neg small,
    and_self, Member.serveWrite]
  rcases stageValue s.verify r.body m with ⟨operation, e | ⟨staged, m'⟩⟩
  · exact ⟨_, rfl⟩
  · exact ⟨operation, rfl⟩

theorem Server.receive_large {r : ValueRequest} (writes : r.writes = true)
    (large : maxBody < r.body.length) :
    ∃ metrics, s.receive r.moment r.http m = (.answered .tooLarge, { m with metrics }) := by
  simp only [receive, ValueRequest.http, writes, if_true, route_values, dispatch, if_pos large,
    and_self]
  exact ⟨_, rfl⟩

/-- A request is served as its demand is, and one that is turned away changes nothing. -/
structure Server.Serves (s : Server) (r : ValueRequest) (m : Member) : Prop where
  reply : (s.exchange r m).1 = some (m.contents.reply (s.screen r)).1
  contents : (s.exchange r m).2.contents = (m.contents.reply (s.screen r)).2
  solitary : (s.exchange r m).2.Solitary
  leads : (s.exchange r m).2.node.role = .leader

variable {r : ValueRequest}

theorem Server.Serves.of_answered (h : m.Solitary) (leads : m.node.role = .leader)
    {response : HttpResponse} (received : ∃ metrics, s.receive r.moment r.http m =
      (.answered response, { m with metrics }))
    (reply : m.contents.reply (s.screen r) = (response, m.contents)) : s.Serves r m := by
  obtain ⟨metrics, received⟩ := received
  have exchanged : s.exchange r m = (some response, { m with metrics }) := by
    rw [exchange, received]
  refine ⟨?_, ?_, ?_, ?_⟩
  · rw [exchanged, reply]
  · rw [exchanged, reply]
    rfl
  · rw [exchanged]
    exact h.marks m.wakeUp metrics
  · rw [exchanged]
    exact leads

/-- A write that waits is committed already, so its client does not wait at all. -/
theorem Server.Serves.of_committed {m' : Member} {staged : Staged}
    {operation : Operation} (leads : m'.node.role = .leader) (solitary : m'.Solitary)
    (received : s.receive r.moment r.http m = (.waits staged operation, m'))
    (committed : m'.node.verdict staged.ticket = .committed)
    (reply : m.contents.reply (s.screen r) = (.ofOutcome (.ok staged.payload), m'.contents)) :
    s.Serves r m := by
  have exchanged : ∃ metrics, s.exchange r m =
      (some (.ofOutcome (.ok staged.payload)), { m' with metrics }) := by
    simp only [exchange, received, Staged.outcome?, committed]
    exact ⟨_, rfl⟩
  obtain ⟨metrics, exchanged⟩ := exchanged
  refine ⟨?_, ?_, ?_, ?_⟩
  · rw [exchanged, reply]
  · rw [exchanged, reply]
    rfl
  · rw [exchanged]
    exact solitary.marks m'.wakeUp metrics
  · rw [exchanged]
    exact leads

theorem Server.serves_read (lone : m.node.Lone m.address) (h : m.Solitary)
    (reads : r.writes = false) : s.Serves r m := by
  have received := receive_read (s := s) (m := m) reads
  refine .of_answered h lone.leads received ?_
  rw [screen]
  by_cases large : maxBody < r.body.length
  · simp only [if_pos large]
    rfl
  · simp only [if_neg large, reads, Bool.false_eq_true, if_false, readValue_lone lone]
    cases readTarget s.verify r.body <;> rfl

theorem Server.serves_write (lone : m.node.Lone m.address) (h : m.Solitary)
    (writes : r.writes = true) (small : ¬ maxBody < r.body.length) : s.Serves r m := by
  have received := receive_write (s := s) (m := m) writes small
  have staged := stageValue_leader s.verify r.body lone.leads
  have screened : s.screen r = match writeTarget s.verify r.body with
      | .error e => .error (.refusal e)
      | .ok (principal, key, write) => .ok (principal, .put key write) := by
    rw [screen, if_neg small, writes]
    rfl
  cases target : writeTarget s.verify r.body with
  | error e =>
      rw [target] at staged screened
      rw [staged] at received
      exact .of_answered h lone.leads received (by rw [screened]; rfl)
  | ok found =>
      obtain ⟨principal, key, write⟩ := found
      rw [target] at staged screened
      have served : m.contents.reply (s.screen r) =
          (.ofOutcome ((m.contents.serve (.put key write)).1.outcome key),
            (m.contents.serve (.put key write)).2) := by
        rw [screened]
        rfl
      rw [Contents.serve_put] at served
      have done := Member.put_lone lone key write
      cases resolved : write.resolve (m.contents key) with
      | error current =>
          rw [resolved] at done served
          rw [staged.trans (congrArg (Except.map _) done)] at received
          exact .of_answered h lone.leads received served
      | ok version =>
          rw [resolved] at done served
          obtain ⟨m', ok, lone', committed, contents⟩ := done
          rw [staged.trans (congrArg (Except.map _) ok)] at received
          obtain ⟨operation, received⟩ := received
          refine .of_committed lone'.leads (h.takes ok) received committed ?_
          rw [served, contents]
          rfl

theorem Server.serves (s : Server) (r : ValueRequest) (h : m.Solitary)
    (leads : m.node.role = .leader) : s.Serves r m := by
  have lone := h.alone.lone leads
  cases writes : r.writes with
  | false => exact serves_read lone h writes
  | true =>
      by_cases large : maxBody < r.body.length
      · have screened : s.screen r = .error .tooLarge := if_pos large
        exact .of_answered h leads (receive_large writes large) (by rw [screened]; rfl)
      · exact serves_write lone h writes large

/-! ## Independence -/

/-- Two tables hold the same on every key of a principal. -/
def Contents.AgreeFor (principal : String) (c c' : Contents) : Prop :=
  ∀ key, Key.owner key = principal → c key = c' key

namespace Contents

variable {c c' : Contents} {principal : String}

theorem serve_other (c : Contents) (demand : Demand) {key : String} (other : key ≠ demand.key) :
    (c.serve demand).2 key = c key := by
  cases demand with
  | get k => rfl
  | put k write =>
      rw [serve_put]
      split
      · exact Function.update_of_ne other ..
      · rfl

theorem serve_same {demand : Demand} (same : c demand.key = c' demand.key) :
    (c.serve demand).1 = (c'.serve demand).1 ∧
      (c.serve demand).2 demand.key = (c'.serve demand).2 demand.key := by
  cases demand with
  | get k =>
      simp only [Demand.key] at same
      simp only [serve, Demand.key, same, and_self]
  | put k write =>
      simp only [Demand.key] at same
      rw [serve_put, serve_put, same]
      split
      · simp only [store, Demand.key, Function.update_self, and_self]
      · exact ⟨rfl, same⟩

theorem AgreeFor.serve (agree : AgreeFor principal c c') {demand : Demand}
    (own : Key.owner demand.key = principal) :
    (c.serve demand).1 = (c'.serve demand).1 ∧
      AgreeFor principal (c.serve demand).2 (c'.serve demand).2 := by
  obtain ⟨answer, at_⟩ := serve_same (agree demand.key own)
  refine ⟨answer, fun key owned => ?_⟩
  by_cases same : key = demand.key
  · rw [same, at_]
  · rw [serve_other c demand same, serve_other c' demand same, agree key owned]

theorem AgreeFor.serve_foreign (agree : AgreeFor principal c c') {demand : Demand}
    (foreign : Key.owner demand.key ≠ principal) : AgreeFor principal (c.serve demand).2 c' := by
  intro key owned
  rw [serve_other c demand, agree key owned]
  rintro rfl
  exact foreign owned

end Contents

namespace Server

variable {m' : Member} {principal : String}

theorem worksFor_iff : s.worksFor principal r = true ↔
    ∃ demand, s.screen r = .ok (principal, demand) := by
  rw [worksFor]
  cases s.screen r with
  | error response => simp
  | ok found =>
      obtain ⟨p, demand⟩ := found
      simp

/-- Whatever does not work for a principal leaves the principal with what there was. -/
theorem agreeFor_exchange (h : m.Solitary) (leads : m.node.role = .leader)
    (agree : Contents.AgreeFor principal m.contents m'.contents)
    (foreign : s.worksFor principal r = false) :
    Contents.AgreeFor principal (s.exchange r m).2.contents m'.contents := by
  rw [(s.serves r h leads).contents]
  cases screened : s.screen r with
  | error response => exact agree
  | ok found =>
      obtain ⟨p, demand⟩ := found
      refine agree.serve_foreign fun own => ?_
      have works : s.worksFor principal r = true := by
        rw [worksFor_iff]
        exact ⟨demand, by rw [screened, ← own, screen_owner screened]⟩
      rw [works] at foreign
      simp at foreign

theorem exchange_agreeFor (h : m.Solitary) (leads : m.node.role = .leader) (h' : m'.Solitary)
    (leads' : m'.node.role = .leader)
    (agree : Contents.AgreeFor principal m.contents m'.contents)
    (works : s.worksFor principal r = true) : (s.exchange r m).1 = (s.exchange r m').1 ∧
      Contents.AgreeFor principal (s.exchange r m).2.contents (s.exchange r m').2.contents := by
  obtain ⟨demand, screened⟩ := worksFor_iff.mp works
  obtain ⟨answer, agree'⟩ := agree.serve (screen_owner screened)
  have serves := s.serves r h leads
  have serves' := s.serves r h' leads'
  rw [serves.reply, serves'.reply, serves.contents, serves'.contents, screened]
  refine ⟨?_, agree'⟩
  simp only [Contents.reply, answer]

theorem transcript_cons (s : Server) (r : ValueRequest) (rest : List ValueRequest) (m : Member) :
    s.transcript (r :: rest) m =
      (r, (s.exchange r m).1) :: s.transcript rest (s.exchange r m).2 := rfl

theorem transcript_filter (requests : List ValueRequest) (h : m.Solitary)
    (leads : m.node.role = .leader) (h' : m'.Solitary) (leads' : m'.node.role = .leader)
    (agree : Contents.AgreeFor principal m.contents m'.contents) :
    (s.transcript requests m).filter (fun entry => s.worksFor principal entry.1) =
      s.transcript (requests.filter (s.worksFor principal)) m' := by
  induction requests generalizing m m' with
  | nil => rfl
  | cons r rest ih =>
      have served := s.serves r h leads
      cases works : s.worksFor principal r with
      | true =>
          have served' := s.serves r h' leads'
          obtain ⟨reply, agree'⟩ := exchange_agreeFor h leads h' leads' agree works
          have same := ih served.solitary served.leads served'.solitary served'.leads agree'
          simp only [transcript_cons, List.filter_cons, works, if_true, reply, same]
      | false =>
          have same := ih served.solitary served.leads h' leads'
            (agreeFor_exchange h leads agree works)
          simp only [transcript_cons, List.filter_cons, works, Bool.false_eq_true, if_false, same]

theorem transcript_answered (requests : List ValueRequest) (h : m.Solitary)
    (leads : m.node.role = .leader) : ∀ entry ∈ s.transcript requests m, entry.2.isSome := by
  induction requests generalizing m with
  | nil => simp [transcript]
  | cons r rest ih =>
      have served := s.serves r h leads
      intro entry mem
      rw [transcript_cons] at mem
      cases List.mem_cons.mp mem with
      | inl first =>
          rw [first, served.reply]
          rfl
      | inr later => exact ih served.solitary served.leads entry later

/-- What is replied to the requests of a principal is what would be replied if nobody else had sent
    any. -/
theorem principals_do_not_interfere (s : Server) (principal : String) {m : Member}
    (h : m.Solitary) (leads : m.node.role = .leader) (requests : List ValueRequest) :
    (s.transcript requests m).filter (fun entry => s.worksFor principal entry.1) =
      s.transcript (requests.filter (s.worksFor principal)) m ∧
    ∀ entry ∈ s.transcript requests m, entry.2.isSome :=
  ⟨transcript_filter requests h leads h leads fun _ _ => rfl,
    transcript_answered requests h leads⟩

/-- A server whose principals use their names as tokens. -/
def trusting : Server := ⟨fun token => if token = "" then none else some token, false⟩

/-- Three principals want to create the same key, one of them under another's name. -/
def contest (token key : String) : ValueRequest where
  writes := true
  body := (PutRequest.toJson ⟨key, .object [(versionField, .ofNat 0)], some token⟩).bytes
  moment := ⟨2000, 200⟩
  expired := false

theorem principals_do_not_interfere_in_a_contest :
    (trusting.transcript [contest "a" "b:x", contest "a:b" "x", contest "" "b:x", contest "b" "x"]
      ((Member.start 0 "s" [] ⟨150, 300, 30, 50, 1000⟩).openElection ⟨1000, 200⟩).2).filter
        (fun entry => trusting.worksFor "b" entry.1) =
    [(contest "b" "x", (trusting.exchange (contest "b" "x")
      ((Member.start 0 "s" [] ⟨150, 300, 30, 50, 1000⟩).openElection ⟨1000, 200⟩).2).1)] := by
  have own : [contest "a" "b:x", contest "a:b" "x", contest "" "b:x", contest "b" "x"].filter
      (trusting.worksFor "b") = [contest "b" "x"] := by decide +kernel
  have only := (principals_do_not_interfere trusting "b"
    ((Member.Solitary.start 0 "s" ⟨150, 300, 30, 50, 1000⟩).wakes ⟨1000, 200⟩)
    (by decide +kernel)
    [contest "a" "b:x", contest "a:b" "x", contest "" "b:x", contest "b" "x"]).1
  rw [own] at only
  exact only.trans (transcript_cons trusting (contest "b" "x") [] _)

end Server

end QuorumStore
