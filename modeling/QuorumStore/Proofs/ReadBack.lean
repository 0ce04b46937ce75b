import QuorumStore.Proofs.JsonSize
import QuorumStore.Proofs.Namespaces
import QuorumStore.Proofs.RoundTrip
/-! # Keys that are read back

A write is replied to with the key that its principal was given for the requested one. Both keys
mean the same record, so a read that comes next finds what was stored under either of them. But the
key that was given may be longer than the requested one, and a request may not have a key of any
length.
-/

namespace QuorumStore

/-! ## What a reply tells -/

/-- The reply to a request that succeeded is no reply to any other outcome. -/
theorem HttpResponse.ofOutcome_eq_success {outcome : Except NodeError RecordPayload}
    {p : RecordPayload} (same : ofOutcome outcome = ofOutcome (.ok p)) : outcome = .ok p := by
  have read : ∀ r r' : ClientReply, r.toJson = r'.toJson →
      (∀ j, r.payload = some j → j ≠ .null ∧ Json.Fits 126 j) →
      (∀ j, r'.payload = some j → j ≠ .null ∧ Json.Fits 126 j) → r = r' := by
    intro r r' texts payload payload'
    have told := clientReply_bytes "" 200 payload
    rw [texts, clientReply_bytes "" 200 payload'] at told
    exact (Except.ok.inj told).symm
  cases outcome with
  | error e =>
      have texts := Body.json.inj (congrArg HttpResponse.body same)
      have replies := read _ _ texts (ClientReply.payload_failure e) (ClientReply.payload_success p)
      have codes : ReplyCode.fail = .success := by
        have code : (ClientReply.failure e).code = .fail := by cases e <;> rfl
        rw [← code, replies]
        rfl
      simp at codes
  | ok q =>
      have texts := Body.json.inj (congrArg HttpResponse.body same)
      have replies := read _ _ texts (ClientReply.payload_success q) (ClientReply.payload_success p)
      have payloads : some q.toJson = some p.toJson := congrArg ClientReply.payload replies
      have parts : RecordPayload.ofJson? q.toJson = RecordPayload.ofJson? p.toJson := by
        rw [Option.some.inj payloads]
      exact congrArg Except.ok (Option.some.inj parts)

theorem HttpResponse.refusal_ne_success (e : NodeError) (p : RecordPayload) :
    refusal e ≠ ofOutcome (.ok p) := by
  intro same
  have outcome : (.error e : Except NodeError RecordPayload) = .ok p := ofOutcome_eq_success same
  simp at outcome

theorem Utf8.length_ofString (s : String) : (ofString s).length = s.utf8ByteSize := by
  rw [← String.size_toByteArray, ← String.utf8Encode_toList, List.utf8Encode,
    List.size_toByteArray, ofString, encode]

theorem Json.quoteSize_le_utf8ByteSize (s : String) : quoteSize s ≤ 6 * s.utf8ByteSize + 2 := by
  rw [← Utf8.length_ofString]
  exact quoteSize_le s

/-- A key that a principal was given can be requested unless it has become too long. -/
theorem keyFault?_owned (principal requested : String) :
    keyFault? (Key.owned principal requested) =
      if (Key.owned principal requested).utf8ByteSize ≤ 1024 then none else some .keyTooLong := by
  have some_ : (Key.owned principal requested).utf8ByteSize ≠ 0 := by
    rw [ne_eq, String.utf8ByteSize_eq_zero_iff]
    exact Key.owned_ne_empty principal requested
  rw [keyFault?, if_neg some_, maxKeyLength]
  by_cases fits : (Key.owned principal requested).utf8ByteSize ≤ 1024
  · rw [if_pos fits, if_neg (Nat.not_lt.mpr fits)]
  · rw [if_neg fits, if_pos (Nat.lt_of_not_le fits)]

/-- Asks for the value of a key, under a token of a principal and in a body that is not too large to
    be read. -/
structure ValueRequest.AsksFor (g : ValueRequest) (s : Server) (principal key : String) : Prop where
  reads : g.writes = false
  small : g.body.length ≤ maxBody
  asks : ∃ token, Json.decode? GetRequest.reading (Utf8.scan g.body) = some ⟨key, token⟩ ∧
    authorize s.verify token = .ok principal

namespace Server

variable {s : Server} {m : Member} {r g : ValueRequest} {principal key k v : String}

/-! ## A write that was granted -/

theorem screen_write (writes : r.writes = true) (small : ¬ maxBody < r.body.length) :
    s.screen r = match writeTarget s.verify r.body with
      | .error e => .error (.refusal e)
      | .ok (principal, key, write) => .ok (principal, .put key write) := by
  rw [screen, if_neg small, writes]
  rfl

theorem writeTarget_ok {verify : Verifier} {body : List UInt8} {write : Write}
    (h : writeTarget verify body = .ok (principal, key, write)) :
    ∃ q, Json.decode? PutRequest.reading (Utf8.scan body) = some q ∧ keyFault? q.key = none ∧
      key = Key.owned principal q.key := by
  simp only [writeTarget, bind_eq_ok] at h
  obtain ⟨q, decoded, _, checked, _, _, p, _, same⟩ := h
  obtain ⟨rfl, rest⟩ := Prod.mk.inj (Except.ok.inj same)
  obtain ⟨rfl, _⟩ := Prod.mk.inj rest
  refine ⟨q, decodeBody_ok decoded, ?_, rfl⟩
  rw [checkKey] at checked
  cases fault : keyFault? q.key with
  | none => rfl
  | some fault' => simp [fault] at checked

/-- A write that was granted has passed its checks, and what its key holds then is what the reply
    tells. -/
theorem granted_write (solitary : m.Solitary) (leads : m.node.role = .leader)
    (writes : r.writes = true) (granted : (s.exchange r m).1 = some (.ofOutcome (.ok ⟨k, v⟩))) :
    ∃ q principal record, Json.decode? PutRequest.reading (Utf8.scan r.body) = some q ∧
      s.worksFor principal r = true ∧ keyFault? q.key = none ∧ k = Key.owned principal q.key ∧
      v = Record.text record ∧ (s.exchange r m).2.contents k = some record := by
  obtain ⟨reply, contents, _, _⟩ := s.serves r solitary leads
  rw [granted, Option.some.injEq] at reply
  by_cases large : maxBody < r.body.length
  · have screened : s.screen r = .error .tooLarge := if_pos large
    rw [screened] at reply
    -- a client's reply is JSON, and this one is not
    cases congrArg HttpResponse.body reply
  have screened := screen_write (s := s) writes large
  cases target : writeTarget s.verify r.body with
  | error e =>
      rw [screened, target] at reply
      exact absurd reply.symm (HttpResponse.refusal_ne_success e _)
  | ok found =>
      obtain ⟨principal, key, write⟩ := found
      obtain ⟨q, decoded, length, given⟩ := writeTarget_ok target
      rw [target] at screened
      rw [screened, Network.reply_put] at reply contents
      cases resolved : write.resolve (m.contents key) with
      | error current =>
          rw [resolved] at reply
          exact absurd reply.symm (HttpResponse.refusal_ne_success _ _)
      | ok version =>
          simp only [resolved] at reply contents
          have outcome := HttpResponse.ofOutcome_eq_success reply.symm
          obtain ⟨rfl, rfl⟩ := RecordPayload.mk.inj (Except.ok.inj outcome)
          refine ⟨q, principal, (write.content version).record version, decoded,
            worksFor_iff.mpr ⟨_, screened⟩, length, given, rfl, ?_⟩
          rw [contents]
          exact Function.update_self ..

/-! ## A read -/

theorem screen_asksFor (asks : g.AsksFor s principal key) :
    s.screen g = match keyFault? key with
      | some fault => .error (.refusal (.malformedRequest fault))
      | none => .ok (principal, .get (Key.owned principal key)) := by
  obtain ⟨reads, small, token, decoded, authorised⟩ := asks
  have body : decodeBody GetRequest.reading g.body = .ok ⟨key, token⟩ := by
    rw [decodeBody, decoded]
  rw [screen, if_neg (Nat.not_lt.mpr small), reads, readTarget, body]
  cases fault : keyFault? key with
  | some fault' => simp [checkKey, fault, bind, Except.bind]
  | none => simp [checkKey, fault, authorised, bind, Except.bind, pure, Except.pure]

/-- A read is replied to with what its principal means by the key, if the key is one that can be
    requested. -/
theorem exchange_asksFor {record : Record} (solitary : m.Solitary) (leads : m.node.role = .leader)
    (asks : g.AsksFor s principal key)
    (holds : m.contents (Key.owned principal key) = some record) :
    (s.exchange g m).1 = some (match keyFault? key with
      | some fault => .refusal (.malformedRequest fault)
      | none => .ofOutcome (.ok ⟨Key.owned principal key, record.text⟩)) := by
  rw [(s.serves g solitary leads).reply, screen_asksFor asks]
  cases keyFault? key with
  | some fault => rfl
  | none =>
      simp only [Contents.reply, Contents.serve, holds, Answer.outcome, Demand.key]
      rfl

/-- After a write that was granted to its principal, a read of that principal for the key that the
    write has requested is replied to as the write was. So is one for the key that the reply has in
    it, unless this key is too long for a request: then the read is refused. -/
theorem granted_writes_read_back (s : Server) {m : Member} (solitary : m.Solitary)
    (leads : m.node.role = .leader) {r : ValueRequest} (writes : r.writes = true) {k v : String}
    (granted : (s.exchange r m).1 = some (.ofOutcome (.ok ⟨k, v⟩))) :
    ∃ q principal, Json.decode? PutRequest.reading (Utf8.scan r.body) = some q ∧
      s.worksFor principal r = true ∧ k = Key.owned principal q.key ∧
      ∀ g : ValueRequest,
        (g.AsksFor s principal q.key →
          (s.exchange g (s.exchange r m).2).1 = some (.ofOutcome (.ok ⟨k, v⟩))) ∧
        (g.AsksFor s principal k → (s.exchange g (s.exchange r m).2).1 = some
          (if k.utf8ByteSize ≤ 1024 then .ofOutcome (.ok ⟨k, v⟩)
            else .refusal (.malformedRequest .keyTooLong))) := by
  obtain ⟨q, principal, record, decoded, works, length, rfl, rfl, holds⟩ :=
    granted_write solitary leads writes granted
  obtain ⟨_, _, solitary', leads'⟩ := s.serves r solitary leads
  refine ⟨q, principal, decoded, works, rfl, fun g => ⟨fun asks => ?_, fun asks => ?_⟩⟩
  · rw [exchange_asksFor solitary' leads' asks holds, length]
  · have kept := Key.owned_owned principal q.key
    rw [exchange_asksFor solitary' leads' asks (by rw [kept, holds]), kept, keyFault?_owned]
    by_cases fits : (Key.owned principal q.key).utf8ByteSize ≤ 1024
    · simp only [if_pos fits]
    · simp only [if_neg fits]

/-- A leader without peers that holds nothing yet. -/
def blank : Member :=
  ((Member.start 0 "s" [] ⟨150, 300, 30, 50, 1000⟩).openElection ⟨1000, 200⟩).2

theorem blank_leads : blank.Solitary ∧ blank.node.role = .leader ∧ blank.contents = .empty := by
  have begins : blank.node.role = .leader ∧ blank.contents = .empty :=
    Member.openElection_start (by decide) "s"
  exact ⟨(Member.Solitary.start 0 "s" ⟨150, 300, 30, 50, 1000⟩).wakes ⟨1000, 200⟩, begins⟩

/-- Asks for a key. -/
def inquiry (token key : String) : ValueRequest where
  writes := false
  body := (GetRequest.toJson ⟨key, token⟩).bytes
  moment := ⟨3000, 200⟩
  expired := false

theorem inquiry_asksFor {token : String} (small : (inquiry token key).body.length ≤ maxBody)
    (authorised : authorize s.verify token = .ok principal) :
    (inquiry token key).AsksFor s principal key :=
  ⟨rfl, small, token, decodeBody_ok (GetRequest.decodeBody_bytes ⟨key, token⟩), authorised⟩

theorem authorize_trusting (owner : Key.isOwner principal = true) :
    authorize trusting.verify principal = .ok principal := by
  have named : principal ≠ "" := by
    rintro rfl
    simp [Key.isOwner] at owner
  rw [authorize, trusting]
  simp only [if_neg named, owner, if_true]

theorem contest_decoded (token key : String) :
    decodeBody PutRequest.reading (contest token key).body =
      .ok ⟨key, .object [(versionField, .ofNat 0)], some token⟩ :=
  PutRequest.decodeBody_bytes (by simp [Json.Fits, Json.FitsFields, Json.ofNat]) key token

theorem screen_contest (owner : Key.isOwner principal = true) (length : keyFault? key = none)
    (small : (contest principal key).body.length ≤ maxBody) :
    trusting.screen (contest principal key) =
      .ok (principal, .put (Key.owned principal key) (.upsert 0 ⟨[]⟩)) := by
  have taken : takeApart (.object [(versionField, .ofNat 0)]) = .ok ⟨.upsert 0 ⟨[]⟩, none⟩ := rfl
  have accepted : checkKey key = .ok () := by rw [checkKey, length]
  have target : writeTarget trusting.verify (contest principal key).body =
      .ok (principal, Key.owned principal key, .upsert 0 ⟨[]⟩) := by
    rw [writeTarget, contest_decoded]
    simp only [bind, Except.bind, accepted, taken, Option.some_or, Option.getD_some,
      authorize_trusting owner]
    rfl
  rw [screen_write rfl (Nat.not_lt.mpr small), target]

/-- Whoever comes first is granted the key. -/
theorem contest_granted (owner : Key.isOwner principal = true) (length : keyFault? key = none)
    (small : (contest principal key).body.length ≤ maxBody) :
    (trusting.exchange (contest principal key) blank).1 =
      some (.ofOutcome (.ok ⟨Key.owned principal key, Document.render ⟨[]⟩ 1⟩)) := by
  obtain ⟨solitary, leads, empty⟩ := blank_leads
  rw [(trusting.serves _ solitary leads).reply, screen_contest owner length small,
    Network.reply_put, empty]
  rfl

theorem granted_writes_read_back_under_both_keys :
    (trusting.exchange (inquiry "u" "k") (trusting.exchange (contest "u" "k") blank).2).1 =
      some (.ofOutcome (.ok ⟨"u:k", Document.render ⟨[]⟩ 1⟩)) ∧
    (trusting.exchange (inquiry "u" "u:k") (trusting.exchange (contest "u" "k") blank).2).1 =
      some (.ofOutcome (.ok ⟨"u:k", Document.render ⟨[]⟩ 1⟩)) := by
  obtain ⟨solitary, leads, _⟩ := blank_leads
  have screened : trusting.screen (contest "u" "k") =
      .ok ("u", .put (Key.owned "u" "k") (.upsert 0 ⟨[]⟩)) :=
    screen_contest rfl rfl (by decide +kernel)
  obtain ⟨q, principal, decoded, works, given, back⟩ :=
    granted_writes_read_back trusting solitary leads (r := contest "u" "k") rfl
      (contest_granted rfl rfl (by decide +kernel))
  rw [decodeBody_ok (contest_decoded "u" "k"), Option.some.injEq] at decoded
  obtain ⟨_, screened'⟩ := worksFor_iff.mp works
  rw [screened] at screened'
  obtain ⟨rfl, _⟩ := Prod.mk.inj (Except.ok.inj screened')
  have authorised : authorize trusting.verify "u" = .ok "u" := authorize_trusting rfl
  have key : q.key = "k" := by rw [← decoded]
  have first := (back (inquiry "u" "k")).1
  rw [key] at first
  exact ⟨first (inquiry_asksFor (by decide +kernel) authorised),
    (back (inquiry "u" "u:k")).2 (inquiry_asksFor (by decide +kernel) authorised)⟩

/-- A key of many letters. -/
def letters (n : Nat) : String := String.ofList (List.replicate n 'a')

theorem utf8ByteSize_letters (n : Nat) : (letters n).utf8ByteSize = n := by
  have ascii : ∀ c ∈ List.replicate n 'a', c.toNat ≤ 127 := by
    intro c mem
    rw [List.eq_of_mem_replicate mem]
    decide
  rw [← Utf8.length_ofString, Utf8.ofString, letters, String.toList_ofList,
    Utf8.length_encode_ascii ascii, List.length_replicate]

theorem length_contest_le (token key : String) : (contest token key).body.length ≤
    6 * key.utf8ByteSize + 6 * token.utf8ByteSize + 100 := by
  have sent : (contest token key).body = (Json.object [("payload", .object [("key", .string key),
      (tokenField, .string token),
      ("value", .object [(versionField, .number (.integer 0))])])]).bytes := rfl
  have names : Json.quoteSize "payload" = 9 ∧ Json.quoteSize "key" = 5 ∧
      Json.quoteSize tokenField = 7 ∧ Json.quoteSize "value" = 7 ∧
      Json.quoteSize versionField = 16 := by decide +kernel
  have ofKey := Json.quoteSize_le_utf8ByteSize key
  have ofToken := Json.quoteSize_le_utf8ByteSize token
  have zero : (Number.integer 0).print.length = 1 := rfl
  rw [sent, Json.length_bytes]
  simp only [Json.room, Json.roomFields, names, zero]
  omega

theorem length_inquiry_le (token key : String) : (inquiry token key).body.length ≤
    6 * key.utf8ByteSize + 6 * token.utf8ByteSize + 100 := by
  have sent : (inquiry token key).body = (Json.object [("payload",
      .object [("key", .string key), (tokenField, .string token)])]).bytes := rfl
  have names : Json.quoteSize "payload" = 9 ∧ Json.quoteSize "key" = 5 ∧
      Json.quoteSize tokenField = 7 := by decide +kernel
  have ofKey := Json.quoteSize_le_utf8ByteSize key
  have ofToken := Json.quoteSize_le_utf8ByteSize token
  rw [sent, Json.length_bytes]
  simp only [Json.room, Json.roomFields, names]
  omega

theorem owned_letters (n : Nat) : Key.owned "u" (letters n) = "u:" ++ letters n := by
  have foreign : ¬ Key.Within "u" (letters n) := by
    rw [← Key.front_isPrefixOf_iff, letters, String.toList_ofList]
    cases n with
    | zero => decide
    | succ n => simp [List.replicate_succ, List.isPrefixOf]
  rw [Key.owned_of_foreign foreign]
  rfl

/-- A key that was returned may be too long to be requested. -/
theorem returned_key_is_refused :
    (trusting.exchange (contest "u" (letters 1024)) blank).1 =
      some (.ofOutcome (.ok ⟨"u:" ++ letters 1024, Document.render ⟨[]⟩ 1⟩)) ∧
    (inquiry "u" ("u:" ++ letters 1024)).AsksFor trusting "u" ("u:" ++ letters 1024) ∧
    (trusting.exchange (inquiry "u" ("u:" ++ letters 1024))
      (trusting.exchange (contest "u" (letters 1024)) blank).2).1 =
        some (.refusal (.malformedRequest .keyTooLong)) ∧
    ∀ p, HttpResponse.refusal (.malformedRequest .keyTooLong) ≠ .ofOutcome (.ok p) := by
  have length : keyFault? (letters 1024) = none := by
    rw [keyFault?, utf8ByteSize_letters]
    rfl
  have size : ("u:" ++ letters 1024).utf8ByteSize = 1026 := by
    rw [String.utf8ByteSize_append, utf8ByteSize_letters]
    rfl
  have token : ("u" : String).utf8ByteSize = 1 := rfl
  have small : (contest "u" (letters 1024)).body.length ≤ maxBody := by
    have most := length_contest_le "u" (letters 1024)
    rw [utf8ByteSize_letters, token] at most
    exact most.trans (by decide)
  have small' : (inquiry "u" ("u:" ++ letters 1024)).body.length ≤ maxBody := by
    have most := length_inquiry_le "u" ("u:" ++ letters 1024)
    rw [size, token] at most
    exact most.trans (by decide)
  have granted : (trusting.exchange (contest "u" (letters 1024)) blank).1 =
      some (.ofOutcome (.ok ⟨"u:" ++ letters 1024, Document.render ⟨[]⟩ 1⟩)) := by
    rw [← owned_letters]
    exact contest_granted rfl length small
  have asks : (inquiry "u" ("u:" ++ letters 1024)).AsksFor trusting "u" ("u:" ++ letters 1024) :=
    inquiry_asksFor small' (authorize_trusting rfl)
  obtain ⟨solitary, leads, _⟩ := blank_leads
  obtain ⟨_, _, solitary', leads'⟩ := trusting.serves (contest "u" (letters 1024)) solitary leads
  obtain ⟨_, _, record, _, _, _, _, _, holds⟩ := granted_write solitary leads rfl granted
  have own : Key.owned "u" ("u:" ++ letters 1024) = "u:" ++ letters 1024 := by
    rw [← owned_letters, Key.owned_owned]
  have tooLong : keyFault? ("u:" ++ letters 1024) = some .keyTooLong := by
    rw [keyFault?, size]
    rfl
  refine ⟨granted, asks, ?_, HttpResponse.refusal_ne_success _⟩
  rw [exchange_asksFor solitary' leads' asks (by rw [own, holds]), tooLong]

end Server

end QuorumStore
