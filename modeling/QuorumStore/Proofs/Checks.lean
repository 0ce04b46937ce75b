import QuorumStore.Proofs.Principals
import QuorumStore.Proofs.Lineage
/-! # The checks of a request

A request for a value is put to one check after the other, and the first that fails decides what is
replied. Each check can be said by itself, without the others; the order in which they are made is
a list. Until the last of them has passed nothing is changed, and a write that passes them all is
one entry of the log, under a key of the principal that its token names.
-/

namespace QuorumStore

/-- What is checked of a request. -/
inductive Check where
  /-- The body can be read. -/
  | body
  /-- The key has a length that is allowed. -/
  | key
  /-- The node leads. -/
  | leadership
  /-- The value that is to be written can be taken apart. -/
  | value
  /-- The token names a principal that can own keys. -/
  | token
  /-- The record to be read is there; the record to be written has the version the write is based
      on. -/
  | record
  deriving Repr, DecidableEq

def Check.inOrder : List Check := [.body, .key, .leadership, .value, .token, .record]

/-- What a request says once its body can be read. -/
structure Wish where
  key : String
  /-- The token of the request itself. -/
  token : Option String
  /-- What the value to be written comes to; a read has none. -/
  value : Option (Except Malformation Submission)

namespace Wish

def ofGet (r : GetRequest) : Wish := ⟨r.key, some r.token, none⟩

def ofPut (r : PutRequest) : Wish := ⟨r.key, r.token, some (Submission.ofValue r.value)⟩

/-- The token that counts: the one of the request, or else the one inside the value. -/
def bearer (w : Wish) : String :=
  (w.token.or (match w.value with | some (.ok s) => s.token | _ => none)).getD ""

/-- The principal that the token names, unless it has no name or one with a separator. -/
def principal? (verify : Verifier) (w : Wish) : Option String :=
  (verify w.bearer).filter fun p => p ≠ "" ∧ ':' ∉ p.toList

/-- What is wrong with the record of a key. -/
def recordFault? (n : Node) (key : String) (w : Wish) : Option NodeError :=
  match w.value with
  | none => if (n.store.get? key).isSome then none else some .notFound
  | some (.ok ⟨.upsert expected _, _⟩) =>
    let current := ((n.projected key).bind Record.version?).getD 0
    if expected = current then none else some (.versionMismatch current expected)
  | some _ => none

/-- What a check finds wrong, whatever the others find. -/
def fault? (verify : Verifier) (n : Node) (w : Wish) : Check → Option NodeError
  | .body => none
  | .key =>
    if w.key.utf8ByteSize < 1 then some (.malformedRequest .keyTooShort)
    else if 1024 < w.key.utf8ByteSize then some (.malformedRequest .keyTooLong)
    else none
  | .leadership => if n.role = .leader then none else some (.notLeader n.leader)
  | .value =>
    match w.value with
    | some (.error fault) => some (.malformedRequest fault)
    | _ => none
  | .token => if (w.principal? verify).isSome then none else some .invalidToken
  | .record => (w.principal? verify).bind fun p => w.recordFault? n (Key.owned p w.key)

end Wish

namespace ValueRequest

def wish? (r : ValueRequest) : Option Wish :=
  if r.writes then (Json.decode? PutRequest.reading (Utf8.scan r.body)).map Wish.ofPut
  else (Json.decode? GetRequest.reading (Utf8.scan r.body)).map Wish.ofGet

def fault? (verify : Verifier) (n : Node) (r : ValueRequest) (c : Check) : Option NodeError :=
  match r.wish? with
  | none => if c = .body then some (.malformedRequest .body) else none
  | some w => w.fault? verify n c

/-- What the first check that fails finds wrong. -/
def refusal? (verify : Verifier) (n : Node) (r : ValueRequest) : Option NodeError :=
  Check.inOrder.findSome? (r.fault? verify n)

end ValueRequest

/-! ## How the checks are made -/

variable {verify : Verifier} {body : List UInt8} {n : Node} {m : Member} {w : Wish}

/-- A check as a step of a computation. -/
def raise : Option NodeError → Except NodeError Unit
  | some e => .error e
  | none => .ok ()

theorem Wish.checkKey_eq (verify : Verifier) (n : Node) (w : Wish) :
    checkKey w.key = raise (w.fault? verify n .key) := by
  rw [checkKey, keyFault?, Wish.fault?, maxKeyLength]
  simp only [Nat.lt_one_iff]
  by_cases short : w.key.utf8ByteSize = 0
  · simp only [if_pos short, raise]
  · by_cases long : 1024 < w.key.utf8ByteSize
    · simp only [if_neg short, if_pos long, raise]
    · simp only [if_neg short, if_neg long, raise]

theorem Wish.ensureLeader_eq (verify : Verifier) (n : Node) (w : Wish) :
    n.ensureLeader = raise (w.fault? verify n .leadership) := by
  rw [Node.ensureLeader, Wish.fault?]
  split <;> rfl

theorem Wish.role_of_leadership (passes : w.fault? verify n .leadership = none) :
    n.role = .leader := by
  rw [Wish.fault?] at passes
  split at passes
  · assumption
  · simp at passes

theorem Key.isOwner_eq (principal : String) :
    Key.isOwner principal = decide (principal ≠ "" ∧ ':' ∉ principal.toList) := by
  rw [Bool.eq_iff_iff, Key.isOwner]
  simp [Key.separator]

theorem Wish.authorize_eq (verify : Verifier) (w : Wish) :
    authorize verify w.bearer = match w.principal? verify with
      | some p => .ok p
      | none => .error .invalidToken := by
  rw [authorize, Wish.principal?]
  cases verify w.bearer with
  | none => rfl
  | some p =>
      rw [Option.filter_some, ← Key.isOwner_eq]
      dsimp only
      split <;> rfl

section

variable {p : String}

theorem Wish.token_of_nobody (named : w.principal? verify = none) :
    w.fault? verify n .token = some .invalidToken := by
  rw [Wish.fault?, named]
  rfl

theorem Wish.token_of_principal (named : w.principal? verify = some p) :
    w.fault? verify n .token = none := by
  rw [Wish.fault?, named]
  rfl

theorem Wish.record_of_principal (named : w.principal? verify = some p) :
    w.fault? verify n .record = w.recordFault? n (Key.owned p w.key) := by
  rw [Wish.fault?, named]
  rfl

end

theorem Check.findSome?_inOrder (f : Check → Option NodeError) :
    Check.inOrder.findSome? f = (f .body).or ((f .key).or ((f .leadership).or ((f .value).or
      ((f .token).or (f .record))))) := by
  have first : ∀ c rest, (c :: rest).findSome? f = (f c).or (rest.findSome? f) := by
    intro c rest
    rw [List.findSome?_cons]
    cases f c <;> rfl
  simp only [inOrder, first, List.findSome?_nil, Option.or_none]

/-! ## Reading -/

/-- A read that can be understood is refused for its first fault, and finds its record if it has
    none. -/
theorem readValue_checked (verify : Verifier) {q : GetRequest}
    (decoded : Json.decode? GetRequest.reading (Utf8.scan body) = some q) (n : Node) :
    match Check.inOrder.findSome? ((Wish.ofGet q).fault? verify n) with
    | some e => readValue verify body n = .error e
    | none => ∃ p record, (Wish.ofGet q).principal? verify = some p ∧
        n.store.get? (Key.owned p q.key) = some record ∧
        readValue verify body n = .ok (.ofRecord (Key.owned p q.key) record) := by
  let w := Wish.ofGet q
  have opened : decodeBody GetRequest.reading body = pure q := by
    rw [decodeBody, decoded]
    rfl
  have steps : readValue verify body n = (do
      raise (w.fault? verify n .key)
      raise (w.fault? verify n .leadership)
      let principal ← authorize verify w.bearer
      let found ← n.read (Key.owned principal q.key)
      (Answer.found found).outcome (Key.owned principal q.key)) := by
    rw [readValue, opened, pure_bind, ← w.checkKey_eq, ← w.ensureLeader_eq]
    refine bind_congr fun _ => bind_congr fun _ => bind_congr fun principal =>
      bind_congr fun found => ?_
    cases found <;> rfl
  rw [Check.findSome?_inOrder, steps, w.authorize_eq]
  cases w.fault? verify n .key with
  | some e => rfl
  | none =>
      cases leads : w.fault? verify n .leadership with
      | some e => rfl
      | none =>
          have reads : ∀ key, n.read key = .ok (n.store.get? key) := by
            intro key
            rw [Node.read, Node.ensureLeader, if_pos (Wish.role_of_leadership leads)]
          cases named : w.principal? verify with
          | none =>
              rw [Wish.token_of_nobody named]
              rfl
          | some p =>
              rw [Wish.token_of_principal named, Wish.record_of_principal named]
              simp only [raise, reads, bind, Except.bind, w, Wish.recordFault?, Wish.ofGet]
              cases found : n.store.get? (Key.owned p q.key) with
              | none => rfl
              | some record => exact ⟨p, record, rfl, found, rfl⟩

/-! ## Writing -/

/-- An update is based on the version that its key will have, which is zero while there is none. -/
theorem Write.resolve_upsert_eq (current : Option Record) (expected : Nat) (document : Document) :
    (Write.upsert expected document).resolve current =
      let version := (current.bind Record.version?).getD 0
      if expected = version then .ok (version + 1) else .error version := by
  rw [resolve]
  cases current.bind Record.version? with
  | none => rfl
  | some version => simp only [Option.getD_some, eq_comm]

theorem Wish.put_checked (leads : m.node.role = .leader) {s : Submission}
    (taken : w.value = some (.ok s)) (key : String) :
    match w.recordFault? m.node key with
    | some e => m.put key s.write = .error e
    | none => ∃ record ticket m', m.put key s.write = .ok ((record, ticket), m') := by
  have leads : m.node.ensureLeader = .ok () := if_pos leads
  obtain ⟨write, token⟩ := s
  cases write with
  | delete =>
      rw [Wish.recordFault?, taken, Member.put, Node.stageWrite, leads]
      exact ⟨_, _, _, rfl⟩
  | upsert expected document =>
      rw [Wish.recordFault?, taken, Member.put, Node.stageWrite, leads]
      simp only [Write.resolve_upsert_eq]
      by_cases same : expected = ((m.node.projected key).bind Record.version?).getD 0
      · simp only [if_pos same]
        exact ⟨_, _, _, rfl⟩
      · simp only [if_neg same]
        rfl

theorem Wish.stage_checked (leads : m.node.role = .leader) {s : Submission}
    (taken : w.value = some (.ok s)) :
    match (w.fault? verify m.node .token).or (w.fault? verify m.node .record) with
    | some e => Proposal.stage verify ⟨w.key, s, w.bearer⟩ m = .error e
    | none => ∃ p write record ticket m', w.principal? verify = some p ∧
        m.put (Key.owned p w.key) write = .ok ((record, ticket), m') ∧
        Proposal.stage verify ⟨w.key, s, w.bearer⟩ m =
          .ok (⟨Key.owned p w.key, record, ticket⟩, m') := by
  rw [Proposal.stage, w.authorize_eq]
  cases named : w.principal? verify with
  | none =>
      rw [token_of_nobody named]
      rfl
  | some p =>
      have put := put_checked leads taken (Key.owned p w.key)
      rw [token_of_principal named, record_of_principal named]
      simp only [bind, Except.bind]
      cases outcome : w.recordFault? m.node (Key.owned p w.key) with
      | some e =>
          rw [outcome] at put
          simp only [put]
          rfl
      | none =>
          rw [outcome] at put
          obtain ⟨record, ticket, m', put⟩ := put
          exact ⟨p, s.write, record, ticket, m', rfl, put, by simp only [put]; rfl⟩

/-- A write that can be understood is refused for its first fault, and is staged if it has none. -/
theorem stageValue_checked (verify : Verifier) {q : PutRequest}
    (decoded : Json.decode? PutRequest.reading (Utf8.scan body) = some q) (m : Member) :
    match Check.inOrder.findSome? ((Wish.ofPut q).fault? verify m.node) with
    | some e => (stageValue verify body m).2 = .error e
    | none => ∃ p write record ticket m', (Wish.ofPut q).principal? verify = some p ∧
        m.put (Key.owned p q.key) write = .ok ((record, ticket), m') ∧
        (stageValue verify body m).2 = .ok (⟨Key.owned p q.key, record, ticket⟩, m') := by
  let w := Wish.ofPut q
  have steps : (stageValue verify body m).2 = (do
      raise (w.fault? verify m.node .key)
      raise (w.fault? verify m.node .leadership)
      let s ← takeApart q.value
      Proposal.stage verify ⟨q.key, s, (q.token.or s.token).getD ""⟩ m) := by
    rw [stageValue_eq, readProposal, decodeBody, decoded, ← w.checkKey_eq, ← w.ensureLeader_eq]
    simp only [bind_assoc, pure_bind]
    rfl
  rw [Check.findSome?_inOrder, steps]
  cases w.fault? verify m.node .key with
  | some e => rfl
  | none =>
      cases leads : w.fault? verify m.node .leadership with
      | some e => rfl
      | none =>
          cases taken : Submission.ofValue q.value with
          | error fault =>
              have value : w.fault? verify m.node .value = some (.malformedRequest fault) := by
                simp only [w, Wish.fault?, Wish.ofPut, taken]
              rw [value, takeApart, taken]
              rfl
          | ok s =>
              have value : w.fault? verify m.node .value = none := by
                simp only [w, Wish.fault?, Wish.ofPut, taken]
              have bearer : (q.token.or s.token).getD "" = w.bearer := by
                simp only [w, Wish.bearer, Wish.ofPut, taken]
              have submitted : w.value = some (.ok s) := congrArg some taken
              have apart : takeApart q.value = .ok s := by rw [takeApart, taken]
              simp only [raise, apart, bearer, bind, Except.bind]
              rw [value]
              exact Wish.stage_checked (Wish.role_of_leadership leads) submitted

/-! ## Handling a request -/

/-- Handles the body of a request, without anything else in between. There is no response yet while
    a write waits for its verdict. -/
def Member.handle (verify : Verifier) (r : ValueRequest) (m : Member) :
    Option HttpResponse × Member :=
  if r.writes then
    match m.serveWrite verify r.body with
    | (.answered response, m) => (some response, m)
    | (.waits staged operation, m) =>
      match staged.outcome? m.node r.expired with
      | none => (none, m)
      | some outcome =>
        let (response, m) := m.finishWrite staged operation outcome
        (some response, m)
  else
    let (response, m) := m.serveRead verify r.body
    (some response, m)

variable {r : ValueRequest}

theorem Member.handle_read (reads : r.writes = false) (verify : Verifier) (m : Member) :
    (m.handle verify r).1 = some (.ofOutcome (readValue verify r.body m.node)) ∧
      (m.handle verify r).2.node = m.node := by
  simp only [handle, reads]
  exact ⟨rfl, rfl⟩

theorem Member.handle_refused (writes : r.writes = true) {e : NodeError}
    (refused : (stageValue verify r.body m).2 = .error e) :
    (m.handle verify r).1 = some (.refusal e) ∧ (m.handle verify r).2.node = m.node := by
  simp only [handle, writes, if_true, serveWrite]
  rcases staging : stageValue verify r.body m with ⟨operation, outcome⟩
  rw [staging] at refused
  obtain rfl : outcome = .error e := refused
  exact ⟨rfl, rfl⟩

/-- What is replied to a write that is staged, if its verdict is known or its time has run out. -/
def Staged.response? (staged : Staged) (n : Node) (expired : Bool) : Option HttpResponse :=
  (staged.outcome? n expired).map fun outcome => .ofOutcome (outcome.map fun _ => staged.payload)

theorem Member.handle_staged (writes : r.writes = true) {staged : Staged} {m' : Member}
    (stages : (stageValue verify r.body m).2 = .ok (staged, m')) :
    (m.handle verify r).1 = staged.response? m'.node r.expired ∧
      (m.handle verify r).2.node = m'.node := by
  simp only [handle, writes, if_true, serveWrite, Staged.response?]
  rcases staging : stageValue verify r.body m with ⟨operation, outcome⟩
  rw [staging] at stages
  obtain rfl : outcome = .ok (staged, m') := stages
  dsimp only
  cases staged.outcome? m'.node r.expired with
  | none => exact ⟨rfl, rfl⟩
  | some outcome => exact ⟨rfl, rfl⟩

/-- A server hands on whatever is not too long. -/
theorem Server.exchange_eq (s : Server) (r : ValueRequest) (m : Member) :
    (s.exchange r m).1 =
        (if maxBody < r.body.length then some .tooLarge else (m.handle s.verify r).1) ∧
      (s.exchange r m).2.node =
        if maxBody < r.body.length then m.node else (m.handle s.verify r).2.node := by
  cases writes : r.writes with
  | false =>
      obtain ⟨metrics, received⟩ := receive_read (s := s) (m := m) writes
      obtain ⟨reply, node⟩ := Member.handle_read writes s.verify m
      rw [exchange, received, reply, node]
      by_cases large : maxBody < r.body.length
      · simp only [if_pos large, and_self]
      · simp only [if_neg large, and_self]
  | true =>
      by_cases large : maxBody < r.body.length
      · obtain ⟨metrics, received⟩ := receive_large (s := s) (m := m) writes large
        rw [exchange, received, if_pos large, if_pos large]
        exact ⟨rfl, rfl⟩
      · have received := receive_write (s := s) (m := m) writes large
        rw [if_neg large, if_neg large]
        cases staging : (stageValue s.verify r.body m).2 with
        | error e =>
            rw [staging] at received
            obtain ⟨metrics, received⟩ := received
            obtain ⟨reply, node⟩ := Member.handle_refused writes staging
            rw [exchange, received, reply, node]
            exact ⟨rfl, rfl⟩
        | ok found =>
            obtain ⟨staged, m'⟩ := found
            rw [staging] at received
            obtain ⟨operation, received⟩ := received
            obtain ⟨reply, node⟩ := Member.handle_staged writes staging
            rw [exchange, received, reply, node, Staged.response?]
            dsimp only
            cases staged.outcome? m'.node r.expired with
            | none => exact ⟨rfl, rfl⟩
            | some outcome => exact ⟨rfl, rfl⟩

/-! ## What becomes of a request -/

/-- A read that passes every check finds a record, and changes nothing. -/
structure Member.Finds (verify : Verifier) (r : ValueRequest) (m : Member) (key : String) :
    Prop where
  unchanged : (m.handle verify r).2.node = m.node
  reply : ∃ record, m.node.store.get? key = some record ∧
    (m.handle verify r).1 = some (.ofOutcome (.ok (.ofRecord key record)))

/-- A write that passes every check is one more entry of the log. Its client is told the record, or
    that the time has run out, or waits while there is time. -/
structure Member.Stages (verify : Verifier) (r : ValueRequest) (m : Member) (key : String)
    (content : Content) (version : Nat) : Prop where
  log : (m.handle verify r).2.node.log =
    m.node.log ++ [⟨m.node.term, .write key content version⟩]
  reply :
    (m.handle verify r).1 = some (.ofOutcome (.ok (.ofRecord key (content.record version)))) ∨
    (m.handle verify r).1 = some (.refusal .replicationTimeout) ∨
    (m.handle verify r).1 = none ∧ r.expired = false

theorem Staged.response?_cases (staged : Staged) (n : Node) (expired : Bool) :
    staged.response? n expired = some (.ofOutcome (.ok staged.payload)) ∨
      staged.response? n expired = some (.refusal .replicationTimeout) ∨
      staged.response? n expired = none ∧ expired = false := by
  rw [response?, outcome?]
  cases n.verdict staged.ticket with
  | committed => exact .inl rfl
  | dropped => exact .inr (.inl rfl)
  | pending =>
      cases expired with
      | true => exact .inr (.inl rfl)
      | false => exact .inr (.inr ⟨rfl, rfl⟩)

/-- The key that a principal ends up with starts with the name of the principal. -/
theorem Key.owned_eq (principal requested : String) :
    ∃ path, Key.owned principal requested = principal ++ ":" ++ path := by
  simp only [Key.owned]
  split
  · rename_i own
    obtain ⟨rest, parts⟩ := List.isPrefixOf_iff_prefix.mp own
    refine ⟨String.ofList rest, String.toList_inj.mp ?_⟩
    rw [← parts]
    simp [Key.separator]
  · refine ⟨requested, String.toList_inj.mp ?_⟩
    simp [Key.separator]

theorem Member.finds (reads : r.writes = false) {key : String} {record : Record}
    (found : m.node.store.get? key = some record)
    (served : readValue verify r.body m.node = .ok (.ofRecord key record)) :
    m.Finds verify r key := by
  obtain ⟨reply, node⟩ := Member.handle_read reads verify m
  exact ⟨node, record, found, by rw [reply, served]⟩

theorem Member.stages (writes : r.writes = true) {key : String} {write : Write} {record : Record}
    {ticket : Nat} {m' : Member} (put : m.put key write = .ok ((record, ticket), m'))
    (staged : (stageValue verify r.body m).2 = .ok (⟨key, record, ticket⟩, m')) :
    ∃ content version, m.Stages verify r key content version := by
  obtain ⟨_, written⟩ := Member.put_ok put
  obtain ⟨version, _, record_eq, log⟩ := Node.stageWrite_log written
  obtain ⟨reply, node⟩ := Member.handle_staged writes staged
  obtain rfl : record = (write.content version).record version := record_eq
  refine ⟨write.content version, version, ?_, ?_⟩
  · rw [node, log]
  · rw [reply]
    exact Staged.response?_cases ..

namespace ValueRequest

theorem refusal?_of_unread (unread : r.wish? = none) (verify : Verifier) (n : Node) :
    r.refusal? verify n = some (.malformedRequest .body) := by
  rw [refusal?, Check.findSome?_inOrder]
  simp [fault?, unread]

theorem refusal?_of_read (read : r.wish? = some w) (verify : Verifier) (n : Node) :
    r.refusal? verify n = Check.inOrder.findSome? (w.fault? verify n) := by
  have faults : r.fault? verify n = w.fault? verify n := by
    funext c
    rw [fault?, read]
  rw [refusal?, faults]

theorem wish?_of_reads (reads : r.writes = false) :
    r.wish? = (Json.decode? GetRequest.reading (Utf8.scan r.body)).map Wish.ofGet := by
  simp [wish?, reads]

theorem wish?_of_writes (writes : r.writes = true) :
    r.wish? = (Json.decode? PutRequest.reading (Utf8.scan r.body)).map Wish.ofPut := by
  simp [wish?, writes]

end ValueRequest

theorem Member.handle_unread (unread : r.wish? = none) (verify : Verifier) (m : Member) :
    (m.handle verify r).1 = some (.refusal (.malformedRequest .body)) ∧
      (m.handle verify r).2.node = m.node := by
  cases writes : r.writes with
  | false =>
      rw [ValueRequest.wish?_of_reads writes, Option.map_eq_none_iff] at unread
      have refused : readValue verify r.body m.node = .error (.malformedRequest .body) := by
        rw [readValue, decodeBody, unread]
        rfl
      obtain ⟨reply, node⟩ := handle_read writes verify m
      exact ⟨by rw [reply, refused]; rfl, node⟩
  | true =>
      rw [ValueRequest.wish?_of_writes writes, Option.map_eq_none_iff] at unread
      have refused : (stageValue verify r.body m).2 = .error (.malformedRequest .body) := by
        rw [stageValue_eq, readProposal, decodeBody, unread]
        rfl
      exact handle_refused writes refused

/-- The first check that fails decides what is replied to a request, and the node stays as it is in
    every part. A read that passes all checks changes nothing either; a write that does is one entry
    more in the log, whose key starts with the principal. A server hands on every request with a
    body that is not too long, and changes nothing for any other. -/
theorem Server.checks_in_order (s : Server) (r : ValueRequest) (m : Member) :
    (match r.refusal? s.verify m.node with
      | some e => (m.handle s.verify r).1 = some (.refusal e) ∧
          (m.handle s.verify r).2.node = m.node
      | none => ∃ w principal path, r.wish? = some w ∧ w.principal? s.verify = some principal ∧
          Key.owned principal w.key = principal ++ ":" ++ path ∧
          if r.writes then
            ∃ content version, m.Stages s.verify r (principal ++ ":" ++ path) content version
          else m.Finds s.verify r (principal ++ ":" ++ path)) ∧
    (s.exchange r m).1 =
      (if maxBody < r.body.length then some .tooLarge else (m.handle s.verify r).1) ∧
    (s.exchange r m).2.node =
      if maxBody < r.body.length then m.node else (m.handle s.verify r).2.node := by
  refine ⟨?_, s.exchange_eq r m⟩
  cases read : r.wish? with
  | none =>
      rw [ValueRequest.refusal?_of_unread read]
      exact Member.handle_unread read s.verify m
  | some w =>
      rw [ValueRequest.refusal?_of_read read]
      cases writes : r.writes with
      | false =>
          rw [ValueRequest.wish?_of_reads writes] at read
          obtain ⟨q, decoded, rfl⟩ := Option.map_eq_some_iff.mp read
          obtain ⟨reply, node⟩ := Member.handle_read writes s.verify m
          have checked := readValue_checked s.verify decoded m.node
          cases first : Check.inOrder.findSome? ((Wish.ofGet q).fault? s.verify m.node) with
          | some e =>
              rw [first] at checked
              rw [reply, node, checked]
              exact ⟨rfl, rfl⟩
          | none =>
              rw [first] at checked
              obtain ⟨p, record, named, found, served⟩ := checked
              obtain ⟨path, owned⟩ := Key.owned_eq p q.key
              rw [owned] at found served
              exact ⟨_, p, path, rfl, named, owned, Member.finds writes found served⟩
      | true =>
          rw [ValueRequest.wish?_of_writes writes] at read
          obtain ⟨q, decoded, rfl⟩ := Option.map_eq_some_iff.mp read
          have checked := stageValue_checked s.verify decoded m
          cases first : Check.inOrder.findSome? ((Wish.ofPut q).fault? s.verify m.node) with
          | some e =>
              rw [first] at checked
              exact Member.handle_refused writes checked
          | none =>
              rw [first] at checked
              obtain ⟨p, write, record, ticket, m', named, put, staged⟩ := checked
              obtain ⟨path, owned⟩ := Key.owned_eq p q.key
              rw [owned] at put staged
              exact ⟨_, p, path, rfl, named, owned, Member.stages writes put staged⟩

/-- A follower sends a client on to the leader before it looks into the value. -/
example :
    let follower : Node := { Node.start ⟨0, 150⟩ with leader := some "http://10.0.0.2:5000" }
    let body := (PutRequest.toJson ⟨"/f", .string "\x7bnot json", some "u1"⟩).bytes
    (⟨true, body, ⟨5, 150⟩, false⟩ : ValueRequest).refusal? some follower =
      some (.notLeader (some "http://10.0.0.2:5000")) := by
  decide +kernel

end QuorumStore
