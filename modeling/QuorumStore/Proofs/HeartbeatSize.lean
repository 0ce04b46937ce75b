import QuorumStore.PeerCall
import QuorumStore.Proofs.Lineage
import QuorumStore.Proofs.PeerText
import QuorumStore.Proofs.RoundTrip
import QuorumStore.Proofs.SourceSize
/-! # How long heartbeats are

A heartbeat carries a number of entries, whatever they hold, while a member reads a number of bytes,
whatever they say. Every entry comes from a body that was not too long itself. But what it holds is
escaped once more on its way to a peer, and stands in one heartbeat with all the others.
-/

namespace QuorumStore

open Json

/-! ## Parts of an entry -/

namespace Json

theorem room_ofNat_le {n : Nat} (small : n < Decimal.limit64) : room doubleSize (ofNat n) ≤ 20 :=
  (Nat.length_toDigits_le_iff (by decide) (by decide)).mpr
    (Nat.lt_of_lt_of_le small (by decide))

end Json

/-- A version takes no more inside a text than outside of it. -/
theorem Decimal.quoteSize_text_le {n : Nat} (small : n < limit64) : quoteSize (text n) ≤ 22 := by
  have digits : (Nat.toDigits 10 n).length ≤ 20 := room_ofNat_le small
  have plain : ∀ c ∈ Nat.toDigits 10 n, escapeSize c ≤ 1 * c.utf8Size := by
    intro c mem
    have digit := Nat.isDigit_of_mem_toDigits (by decide) (by decide) mem
    have solid := (marks_ascii (Binary64.marks_digits n) c mem).1
    refine Nat.le_of_eq ?_
    rw [Nat.one_mul]
    refine escapeSize_plain ?_ ?_ (Nat.not_lt.mpr solid)
    · rintro rfl
      simp at digit
    · rintro rfl
      simp at digit
  have size := escapesSize_le plain
  have ascii := Utf8.length_encode_ascii fun c mem =>
    (marks_ascii (Binary64.marks_digits n) c mem).2
  rw [quoteSize_eq, text, String.toList_ofList, Decimal.digits]
  omega

theorem Content.room_live (value : String) :
    room doubleSize (toJson (.live value)) = quoteSize value + 23 := by
  have names : quoteSize "data" = 6 ∧ quoteSize "kind" = 6 ∧ quoteSize "live" = 6 := by decide
  rw [toJson]
  simp only [room, roomFields]
  omega

theorem Entry.room_barrier {term : Nat} (small : term < Decimal.limit64) :
    room doubleSize (toJson ⟨term, .barrier⟩) ≤ 56 := by
  have names : quoteSize "command" = 9 ∧ quoteSize "op" = 4 ∧ quoteSize "barrier" = 9 ∧
    quoteSize "term" = 6 := by decide
  have number := room_ofNat_le small
  rw [toJson, Command.toJson]
  simp only [room, roomFields]
  omega

theorem Entry.room_write (term version : Nat) (key : String) (content : Content) :
    room doubleSize (toJson ⟨term, .write key content version⟩) =
      quoteSize key + room doubleSize content.toJson + room doubleSize (.ofNat version) +
        room doubleSize (.ofNat term) + 61 := by
  have names : quoteSize "command" = 9 ∧ quoteSize "key" = 5 ∧ quoteSize "op" = 4 ∧
    quoteSize "write" = 7 ∧ quoteSize "value" = 7 ∧ quoteSize "version" = 9 ∧
    quoteSize "term" = 6 := by decide
  rw [toJson, Command.toJson]
  simp only [room, roomFields]
  omega

/-! ## What a body brings into the log -/

/-- How much of a body a write takes at least, and what doubles there are in it. -/
def Write.extent : Write → Nat
  | .delete => 0
  | .upsert _ document => room (fun _ => 0) (.object document.fields)

def Write.doubles : Write → Nat
  | .delete => 0
  | .upsert _ document => doublesFields document.fields

theorem Document.length_render_le (d : Document) {version : Nat}
    (small : version < Decimal.limit64) :
    (Json.object (d.fields.insert versionField (.string (Decimal.text version)))).bytes.length ≤
      room (fun _ => 0) (.object d.fields) + 25 * doublesFields d.fields + 40 := by
  have inserted := roomFields_insert doubleSize versionField (.string (Decimal.text version))
    d.fields
  have printed : roomFields doubleSize d.fields ≤
      roomFields (fun _ => 0) d.fields + 25 * doublesFields d.fields :=
    roomFields_le Binary64.length_text_le d.fields
  have digits : room doubleSize (.string (Decimal.text version)) ≤ 22 :=
    Decimal.quoteSize_text_le small
  have name : quoteSize versionField = 16 := by decide
  rw [length_bytes]
  simp only [room]
  omega

/-- What a write stores is written out and then quoted. -/
theorem Write.room_content_le (write : Write) {version : Nat} (small : version < Decimal.limit64) :
    room doubleSize (write.content version).toJson ≤
      2 * write.extent + 50 * write.doubles + 105 := by
  cases write with
  | delete =>
      have size : room doubleSize (Content.toJson .tombstone) ≤ 105 := by decide
      exact Nat.le_trans size (Nat.le_add_left ..)
  | upsert expected document =>
      have text := document.length_render_le small
      have quoted := quoteSize_compact_le
        (.object (document.fields.insert versionField (.string (Decimal.text version))))
      rw [content, Content.room_live, Document.render, extent, doubles]
      omega

theorem Key.quoteSize_owned_le (principal requested : String) :
    quoteSize (owned principal requested) ≤
      quoteSize requested + 6 * (Utf8.ofString principal).length + 1 := by
  simp only [owned]
  split
  · omega
  · have name := quoteSize_le principal
    have mark : escapesSize [separator] = 1 := by decide
    rw [quoteSize_eq] at name ⊢
    rw [quoteSize_eq, String.toList_ofList, escapesSize_append, escapesSize_append, mark]
    omega

variable {verify : Verifier} {body : List UInt8} {m m' : Member}

/-- The key that is asked for and the write take no more than the body they come from. -/
theorem writeTarget_extent {principal key : String} {write : Write}
    (h : writeTarget verify body = .ok (principal, key, write)) :
    ∃ requested, key = Key.owned principal requested ∧
      quoteSize requested + write.extent ≤ body.length := by
  simp only [writeTarget, bind_eq_ok] at h
  obtain ⟨request, decoded, _, _, submission, taken, p, _, same⟩ := h
  obtain ⟨rfl, rest⟩ := Prod.mk.inj (Except.ok.inj same)
  obtain ⟨rfl, rfl⟩ := Prod.mk.inj rest
  obtain ⟨w, read, message⟩ := Option.bind_eq_some_iff.mp (decodeBody_ok decoded)
  have bytes := Utf8.sourceSize_scan body
  have whole := extent_read? read
  have parts := PutRequest.extent_reading message
  have value : submission.write.extent ≤ room (fun _ => 0) request.value := by
    cases write : submission.write with
    | delete => exact Nat.zero_le _
    | upsert expected document => exact Submission.room_ofValue (takeApart_ok taken) write
  refine ⟨request.key, rfl, ?_⟩
  omega

/-- What a body stages, it stages for the principal of its token. -/
theorem stageValue_ok {staged : Staged} (h : (stageValue verify body m).2 = .ok (staged, m')) :
    ∃ principal key write record ticket, writeTarget verify body = .ok (principal, key, write) ∧
      m.put key write = .ok ((record, ticket), m') := by
  rw [stageValue] at h
  split at h
  · simp at h
  · rename_i p proposed
    simp only [readProposal, bind_eq_ok] at proposed
    obtain ⟨request, decoded, _, checked, _, _, submission, taken, same⟩ := proposed
    obtain rfl := Except.ok.inj same
    simp only [Proposal.stage, bind_eq_ok] at h
    obtain ⟨principal, authorised, ⟨⟨record, ticket⟩, _⟩, put, same'⟩ := h
    obtain ⟨_, rfl⟩ := Prod.mk.inj (Except.ok.inj same')
    refine ⟨principal, _, _, record, ticket, ?_, put⟩
    simp only [writeTarget, bind_eq_ok]
    exact ⟨request, decoded, _, checked, submission, taken, principal, authorised, rfl⟩

/-- A client waits if its body is not too long and has been staged. -/
theorem Server.receive_waits {s : Server} {t : Moment} {staged : Staged} :
    (∃ operation, s.receive t ⟨"PUT", "/request", body⟩ m = (.waits staged operation, m')) ↔
      ¬ maxBody < body.length ∧ (stageValue s.verify body m).2 = .ok (staged, m') := by
  let r : ValueRequest := ⟨true, body, t, false⟩
  have request : r.http = ⟨"PUT", "/request", body⟩ := rfl
  rw [← request]
  by_cases large : maxBody < body.length
  · obtain ⟨metrics, refused⟩ : ∃ metrics, s.receive t r.http m =
        (.answered .tooLarge, { m with metrics }) := receive_large (r := r) rfl large
    simp [refused, large]
  · have received := receive_write (s := s) (m := m) (r := r) rfl large
    simp only [large, not_false_eq_true, true_and]
    cases outcome : (stageValue s.verify body m).2 with
    | error e =>
        rw [outcome] at received
        obtain ⟨metrics, refused⟩ : ∃ metrics, s.receive t r.http m =
          (.answered (.refusal e), { m with metrics }) := received
        simp [refused]
    | ok found =>
        obtain ⟨staged', m''⟩ := found
        rw [outcome] at received
        obtain ⟨operation, waits⟩ : ∃ operation, s.receive t r.http m =
          (.waits staged' operation, m'') := received
        simp [waits]

/-- Where an entry of a log comes from. -/
inductive Origin where
  | election
  /-- A server took a body for a write and lets its client wait. -/
  | put (s : Server) (body : List UInt8)

namespace Origin

/-- An election makes a barrier, and a body that is taken makes the entry that it adds. -/
def Makes : Origin → Entry → Prop
  | .election, e => e.command = .barrier
  | .put s body, e => ∃ t m staged operation m',
      s.receive t ⟨"PUT", "/request", body⟩ m = (.waits staged operation, m') ∧
        m'.node.log = m.node.log ++ [e]

/-- How many bytes an entry may take in a heartbeat, with a comma after it. A text takes at most
    twice as many as in the body, besides its version; a double may be written as a few characters
    there and is printed with up to 25; and the name of the principal comes on top. -/
def allowance : Origin → Nat
  | .election => 57
  | .put s body =>
    match writeTarget s.verify body with
    | .ok (principal, _, write) =>
      2 * body.length + 50 * write.doubles + 6 * (Utf8.ofString principal).length + 208
    | .error _ => 0

variable {s : Server} {e : Entry} {o : Origin}

theorem Makes.write (h : (put s body).Makes e) : ∃ principal key write version,
    writeTarget s.verify body = .ok (principal, key, write) ∧
      e.command = .write key (write.content version) version := by
  obtain ⟨t, m, staged, operation, m', received, added⟩ := h
  obtain ⟨_, outcome⟩ := Server.receive_waits.mp ⟨operation, received⟩
  obtain ⟨principal, key, write, record, ticket, target, put⟩ := stageValue_ok outcome
  obtain ⟨version, _, _, longer⟩ := Node.stageWrite_log (Member.put_ok put).2
  rw [added] at longer
  obtain rfl := List.singleton_inj.mp (List.append_cancel_left longer)
  exact ⟨principal, key, write, version, target, rfl⟩

/-- An entry keeps within what its origin allows for. -/
theorem Makes.room_le (h : o.Makes e) (bounded : e.Bounded) :
    room doubleSize e.toJson + 1 ≤ o.allowance := by
  obtain ⟨term, command⟩ := e
  have small : term < Decimal.limit64 := bounded.1
  cases o with
  | election =>
      obtain rfl : command = .barrier := h
      exact Nat.succ_le_succ (Entry.room_barrier small)
  | put s body =>
      obtain ⟨principal, key, write, version, target, made⟩ := h.write
      obtain rfl : command = .write key (write.content version) version := made
      obtain ⟨requested, rfl, body_⟩ := writeTarget_extent target
      have content := write.room_content_le bounded.2
      have numbers := Nat.add_le_add (room_ofNat_le small) (room_ofNat_le bounded.2)
      have key := Key.quoteSize_owned_le principal requested
      rw [Entry.room_write]
      simp only [allowance, target]
      omega

theorem roomItems_entries_le {origins : List Origin} {log : Log}
    (made : List.Forall₂ Makes origins log) (bounded : ∀ e ∈ log, e.Bounded) :
    roomItems doubleSize (log.map Entry.toJson) ≤ (origins.map allowance).sum := by
  induction made with
  | nil => exact Nat.le_refl 0
  | cons first _ ih =>
      have entry := first.room_le (bounded _ List.mem_cons_self)
      have others := ih fun e mem => bounded e (List.mem_cons_of_mem _ mem)
      rw [List.map_cons, List.map_cons, List.sum_cons, roomItems]
      omega

/-- How many bytes a heartbeat may take that carries entries of some origins. -/
def heartbeatAllowance (me : String) (carried : List Origin) : Nat :=
  150 + 6 * (Utf8.ofString me).length + (carried.map allowance).sum

end Origin

/-! ## Heartbeats -/

theorem HeartbeatRequest.room_toJson (r : HeartbeatRequest) : room doubleSize r.toJson =
    room doubleSize (.ofNat r.term) + room doubleSize (.ofNat r.commit) + quoteSize r.leader +
      room doubleSize (.ofNat r.prevIndex) + room doubleSize (.ofNat r.prevTerm) +
      max 1 (roomItems doubleSize (r.entries.map Entry.toJson)) + 67 := by
  have names : quoteSize "commitIdx" = 11 ∧ quoteSize "entries" = 9 ∧ quoteSize "leader" = 8 ∧
    quoteSize "prevIdx" = 9 ∧ quoteSize "prevTerm" = 10 ∧ quoteSize "term" = 6 := by decide
  rw [toJson]
  simp only [room, roomFields]
  omega

theorem HeartbeatRequest.length_call (r : HeartbeatRequest) :
    r.call.body.length = room doubleSize r.toJson := by
  rw [call, HttpRequest.json_body, length_bytes]

theorem Node.heartbeatFor?_carries {n : Node} {peer : Nat} {me : String} {r : HeartbeatRequest}
    (sent : n.heartbeatFor? peer me = some r) :
    r.leader = me ∧ r.entries = (n.log.drop r.prevIndex).take maxEntries := by
  simp only [heartbeatFor?] at sent
  split at sent
  · simp at sent
  · obtain rfl := Option.some.inj sent
    exact ⟨rfl, rfl⟩

theorem HeartbeatRequest.decodeBody_call {r : HeartbeatRequest} (bounded : r.Bounded) :
    decodeBody reading r.call.body = .ok r := by
  have reads : reading Written.maxDepth (written r.toJson) = some r := reading_toJson bounded
  rw [call, HttpRequest.json_body, decodeBody, decode?_bytes _ r.exact_toJson, reads]

theorem route_heartbeat : Route.ofPath? (Route.path "/heartbeat") = some .heartbeat := by
  decide

variable {n : Node} {r : HeartbeatRequest}

theorem Server.receive_heartbeat (bounded : r.Bounded) (small : ¬ maxBody < r.call.body.length)
    (s : Server) (t : Moment) (m : Member) : ∃ metrics, s.receive t r.call m =
      (.answered (.json 200 (m.handleHeartbeat t r).1.toJson),
        { (m.handleHeartbeat t r).2 with metrics }) := by
  have target : Route.ofPath? (Route.path r.call.target) = some .heartbeat := route_heartbeat
  have method : r.call.method = "POST" := rfl
  simp only [receive, target, method, dispatch, answer?, if_neg small, Member.serveHeartbeat,
    HeartbeatRequest.decodeBody_call bounded]
  exact ⟨_, rfl⟩

theorem Server.receive_large_heartbeat (large : maxBody < r.call.body.length) (s : Server)
    (t : Moment) (m : Member) : ∃ metrics, s.receive t r.call m =
      (.answered .tooLarge, { m with metrics }) := by
  have target : Route.ofPath? (Route.path r.call.target) = some .heartbeat := route_heartbeat
  have method : r.call.method = "POST" := rfl
  simp only [receive, target, method, dispatch, answer?, if_pos large]
  exact ⟨_, rfl⟩

/-- Whatever bodies the entries of a leader come from and wherever a peer is to go on, a heartbeat
    takes no more bytes than the origins of the entries it carries allow for. If these are no more
    than a body may have, then every member accepts the heartbeat and handles it. -/
theorem heartbeats_keep_within_their_allowance {origins : List Origin}
    (made : List.Forall₂ Origin.Makes origins n.log) {peer : Nat} {me : String}
    (sent : n.heartbeatFor? peer me = some r) (bounded : r.Bounded) :
    r.call.body.length ≤
      Origin.heartbeatAllowance me ((origins.drop r.prevIndex).take maxEntries) ∧
    (Origin.heartbeatAllowance me ((origins.drop r.prevIndex).take maxEntries) ≤ maxBody →
      ∀ (s : Server) (t : Moment) (m : Member), ∃ metrics, s.receive t r.call m =
        (.answered (.json 200 (m.handleHeartbeat t r).1.toJson),
          { (m.handleHeartbeat t r).2 with metrics })) := by
  have size : r.call.body.length ≤
      Origin.heartbeatAllowance me ((origins.drop r.prevIndex).take maxEntries) := by
    obtain ⟨leader, entries⟩ := Node.heartbeatFor?_carries sent
    obtain ⟨term, commit, prevIndex, prevTerm, each⟩ := bounded
    have carried := Origin.roomItems_entries_le
      (List.forall₂_take maxEntries (List.forall₂_drop r.prevIndex made)) (entries ▸ each)
    have name := quoteSize_le r.leader
    have term := room_ofNat_le term
    have commit := room_ofNat_le commit
    have prevIndex := room_ofNat_le prevIndex
    have prevTerm := room_ofNat_le prevTerm
    rw [HeartbeatRequest.length_call, HeartbeatRequest.room_toJson, Origin.heartbeatAllowance,
      entries, ← leader]
    omega
  refine ⟨size, fun small => Server.receive_heartbeat bounded ?_⟩
  exact Nat.not_lt.mpr (Nat.le_trans size small)

/-! ## A text of quotes -/

/-- A leader with one peer, right after its election. -/
def Member.elected : Member :=
  { Member.start 0 "http://a" ["http://b"] ⟨150, 300, 30, 50, 1000⟩ with
    node := ((Node.start ⟨0, 150⟩).beginCandidacy ⟨150, 150⟩ "http://a").2.becomeLeader
      "http://a" 1 }

/-- A server that knows one token. -/
def Server.familiar : Server := ⟨fun token => if token = "t" then some "u" else none, false⟩

def quotes (count : Nat) : String := String.ofList (List.replicate count '"')

def Document.ofQuotes (count : Nat) : Document := ⟨[("d", .string (quotes count))]⟩

/-- A request to put a text of quotes. -/
def PutRequest.ofQuotes (count : Nat) : PutRequest :=
  ⟨"k", .object [("d", .string (quotes count)), ("version_number", .ofNat 0)], some "t"⟩

def quotesBody (count : Nat) : List UInt8 := (PutRequest.ofQuotes count).toJson.bytes

/-- The first heartbeat after the text of quotes was put. -/
def HeartbeatRequest.ofQuotes (count : Nat) : HeartbeatRequest :=
  ⟨1, 0, "http://a", 0, 0,
    [⟨1, .barrier⟩, ⟨1, .write "u:k" (.live ((Document.ofQuotes count).render 1)) 1⟩]⟩

variable (count : Nat)

/-- A quote takes two bytes in a text. -/
theorem length_quotesBody : (quotesBody count).length = 2 * count + 71 := by
  have form : (PutRequest.ofQuotes count).toJson = .object [("payload", .object
      [("key", .string "k"), ("token", .string "t"), ("value", .object
        [("d", .string (quotes count)), ("version_number", .ofNat 0)])])] := rfl
  have names : quoteSize "payload" = 9 ∧ quoteSize "key" = 5 ∧ quoteSize "k" = 3 ∧
    quoteSize "token" = 7 ∧ quoteSize "t" = 3 ∧ quoteSize "value" = 7 ∧ quoteSize "d" = 3 ∧
    quoteSize "version_number" = 16 ∧ room doubleSize (.ofNat 0) = 1 := by decide
  have text : quoteSize (quotes count) = 2 * count + 2 := by
    rw [quoteSize_eq, quotes, String.toList_ofList, escapesSize, List.map_replicate,
      List.sum_replicate_nat, show escapeSize '"' = 2 by decide, Nat.mul_comm]
  rw [quotesBody, length_bytes, form]
  simp only [room, roomFields]
  omega

/-- A quote takes four bytes in a text within a text. -/
theorem le_quoteSize_render (version : Nat) :
    4 * count ≤ quoteSize ((Document.ofQuotes count).render version) := by
  have twice : escapesSize ((List.replicate count '"').flatMap escape) = 4 * count := by
    induction count with
    | zero => rfl
    | succ count ih =>
        rw [List.replicate_succ, List.flatMap_cons, escapesSize_append, ih,
          show escapesSize (escape '"') = 4 by decide]
        omega
  have form : (Document.ofQuotes count).render version = (Json.object
      [("d", .string (quotes count)),
        ("version_number", .string (Decimal.text version))]).compact := rfl
  rw [quoteSize_eq, form, Json.compact, String.toList_ofList]
  simp only [print, printFields, quote, quotes, String.toList_ofList, List.cons_append,
    escapesSize_cons, escapesSize_append]
  omega

theorem HeartbeatRequest.lt_length_ofQuotes : 4 * count < (ofQuotes count).call.body.length := by
  have text := le_quoteSize_render count 1
  rw [length_call, room_toJson]
  simp only [ofQuotes, List.map_cons, List.map_nil, roomItems, Entry.room_write,
    Content.room_live]
  omega

theorem HeartbeatRequest.ofQuotes_bounded : (ofQuotes count).Bounded := by
  simp [ofQuotes, Bounded, Entry.Bounded, Command.Bounded, Decimal.limit64]

theorem writeTarget_quotes : writeTarget Server.familiar.verify (quotesBody count) =
    .ok ("u", "u:k", .upsert 0 (Document.ofQuotes count)) := by
  have ordered : "d" < "version_number" := by decide
  have sound : Fits 125 (PutRequest.ofQuotes count).value :=
    ⟨List.pairwise_pair.mpr ordered, trivial, fits_ofNat (by decide), trivial⟩
  have decoded : decodeBody PutRequest.reading (quotesBody count) =
      .ok (PutRequest.ofQuotes count) := PutRequest.decodeBody_bytes sound "k" "t"
  have taken : takeApart (PutRequest.ofQuotes count).value =
      .ok ⟨.upsert 0 (Document.ofQuotes count), none⟩ := rfl
  have key : Key.owned "u" (PutRequest.ofQuotes count).key = "u:k" := by
    show Key.owned "u" "k" = "u:k"
    decide
  simp only [writeTarget, bind_eq_ok]
  refine ⟨_, decoded, (), rfl, _, taken, "u", rfl, ?_⟩
  rw [key]
  rfl

theorem stageWrite_quotes : ∃ staged n,
    Member.elected.node.stageWrite "u:k" (.upsert 0 (Document.ofQuotes count)) = .ok (staged, n) ∧
      n.role = .leader ∧ n.heartbeatFor? 0 "http://a" = some (HeartbeatRequest.ofQuotes count) ∧
      n.log = Member.elected.node.log ++
        [⟨1, .write "u:k" (.live ((Document.ofQuotes count).render 1)) 1⟩] := by
  have node : Member.elected.node = ⟨.leader, 1, some "http://a", some "http://a",
    [⟨1, .barrier⟩], 0, .empty, [⟨1, 0⟩], 300, []⟩ := by decide
  rw [node]
  refine ⟨_, _, rfl, ?_, ?_, ?_⟩
  · exact Node.advanceCommit_role _
  · simp [Node.heartbeatFor?, Node.advanceCommit, reachedByQuorum, sortFalling, insertFalling,
      quorum, Node.append, Node.claimTicket, Node.lastIndex, Log.termAt, maxEntries,
      HeartbeatRequest.ofQuotes, Write.content]
  · exact Node.advanceCommit_log _

/-- If the text is not too long, its body is taken by the leader, which then has a heartbeat for its
    peer. -/
theorem receive_quotes (small : ¬ maxBody < (quotesBody count).length) (t : Moment) :
    ∃ staged operation m', Server.familiar.receive t ⟨"PUT", "/request", quotesBody count⟩
        Member.elected = (.waits staged operation, m') ∧ m'.node.role = .leader ∧
      List.Forall₂ Origin.Makes [.election, .put Server.familiar (quotesBody count)] m'.node.log ∧
      m'.node.heartbeatFor? 0 "http://a" = some (HeartbeatRequest.ofQuotes count) := by
  obtain ⟨⟨record, ticket⟩, n, staged, leads, sends, longer⟩ := stageWrite_quotes count
  obtain ⟨m', put, rfl⟩ : ∃ m', Member.elected.put "u:k" (.upsert 0 (Document.ofQuotes count)) =
      .ok ((record, ticket), m') ∧ m'.node = n := by
    rw [Member.put, staged]
    exact ⟨_, rfl, rfl⟩
  have outcome : (stageValue Server.familiar.verify (quotesBody count) Member.elected).2 =
      .ok (⟨"u:k", record, ticket⟩, m') := by
    rw [stageValue_leader Server.familiar.verify (quotesBody count) (by decide), writeTarget_quotes]
    refine bind_eq_ok.mpr ⟨_, rfl, ?_⟩
    simp only [put]
    rfl
  obtain ⟨operation, waits⟩ := Server.receive_waits.mpr ⟨small, outcome⟩
  have before : Member.elected.node.log = [⟨1, .barrier⟩] := by decide
  have made : List.Forall₂ Origin.Makes [.election, .put Server.familiar (quotesBody count)]
      m'.node.log := by
    rw [longer, before]
    refine .cons rfl (.cons ?_ .nil)
    exact ⟨t, Member.elected, _, operation, _, waits, longer⟩
  exact ⟨_, operation, _, waits, leads, made, sends⟩

theorem heartbeats_keep_within_their_allowance_after_a_put :
    ∃ staged operation m', Server.familiar.receive ⟨200, 150⟩ ⟨"PUT", "/request", quotesBody 1⟩
        Member.elected = (.waits staged operation, m') ∧
      m'.node.heartbeatFor? 0 "http://a" = some (HeartbeatRequest.ofQuotes 1) ∧
      (HeartbeatRequest.ofQuotes 1).call.body.length ≤ 615 ∧
      ∀ (s : Server) (t : Moment) (m : Member), ∃ metrics,
        s.receive t (HeartbeatRequest.ofQuotes 1).call m =
          (.answered (.json 200 (m.handleHeartbeat t (HeartbeatRequest.ofQuotes 1)).1.toJson),
            { (m.handleHeartbeat t (HeartbeatRequest.ofQuotes 1)).2 with metrics }) := by
  have length := length_quotesBody 1
  have small : ¬ maxBody < (quotesBody 1).length := by
    rw [length]
    decide
  obtain ⟨staged, operation, m', waits, _, made, sends⟩ := receive_quotes 1 small ⟨200, 150⟩
  have doubles : (Write.upsert 0 (Document.ofQuotes 1)).doubles = 0 := rfl
  have allowed : Origin.heartbeatAllowance "http://a"
      (([.election, .put Server.familiar (quotesBody 1)].drop 0).take maxEntries) = 615 := by
    have names : (Utf8.ofString "http://a").length = 8 ∧ (Utf8.ofString "u").length = 1 := by decide
    simp [Origin.heartbeatAllowance, Origin.allowance, writeTarget_quotes, length, doubles, names,
      maxEntries]
  obtain ⟨size, accepted⟩ :=
    heartbeats_keep_within_their_allowance made sends (HeartbeatRequest.ofQuotes_bounded 1)
  rw [show (HeartbeatRequest.ofQuotes 1).prevIndex = 0 from rfl, allowed] at size accepted
  exact ⟨staged, operation, m', waits, sends, size, accepted (by decide)⟩

/-- Half a million quotes can be put, but no member accepts the heartbeat that brings them. The leader
    takes this for silence and goes on as before. -/
theorem accepted_write_fits_no_heartbeat :
    ∃ staged operation m', Server.familiar.receive ⟨200, 150⟩ ⟨"PUT", "/request", quotesBody 524288⟩
        Member.elected = (.waits staged operation, m') ∧
      m'.node.role = .leader ∧
      List.Forall₂ Origin.Makes [.election, .put Server.familiar (quotesBody 524288)] m'.node.log ∧
      ∃ r, m'.node.heartbeatFor? 0 "http://a" = some r ∧ r.Bounded ∧
        maxBody < r.call.body.length ∧
        (∀ (s : Server) (t : Moment) (m : Member), ∃ metrics,
          s.receive t r.call m = (.answered .tooLarge, { m with metrics })) ∧
        (∀ url exposition, peerReply HeartbeatReply.reading url
          (some (HttpResponse.tooLarge.answer exposition)) = .error (.failed url)) ∧
        ∀ t, (m'.foldHeartbeat t 1 0 r none).2.node = m'.node := by
  have small : ¬ maxBody < (quotesBody 524288).length := by
    rw [length_quotesBody]
    decide
  have large : maxBody < (HeartbeatRequest.ofQuotes 524288).call.body.length :=
    HeartbeatRequest.lt_length_ofQuotes 524288
  obtain ⟨staged, operation, m', waits, leads, made, sends⟩ := receive_quotes 524288 small ⟨200, 150⟩
  exact ⟨staged, operation, m', waits, leads, made, _, sends, HeartbeatRequest.ofQuotes_bounded _,
    large, Server.receive_large_heartbeat large, fun _ _ => rfl, fun _ => rfl⟩

end QuorumStore
