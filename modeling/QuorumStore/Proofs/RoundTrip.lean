import QuorumStore.Proofs.Principals
import QuorumStore.Proofs.DocumentText
import QuorumStore.Proofs.Retrying
import QuorumStore.Proofs.Versions
/-! # From the client and back

A client puts a document, which travels as an object in a string in a body, is taken apart, stored
as a text, and comes back in a string in a body. What the client gets is its own document: the
version in it is the one of the write, the token is gone, and nothing else has changed.
-/

namespace QuorumStore

open Json

/-! ## Requests of a client -/

theorem HttpRequest.json_body (method target : String) (j : Json) :
    (HttpRequest.json method target j).body = j.bytes := by
  rw [HttpRequest.json, Utf8.ofString, Json.compact, String.toList_ofList, Json.bytes]

/-- A read request is decoded from the bytes it is sent as. -/
theorem GetRequest.decodeBody_bytes (r : GetRequest) :
    decodeBody GetRequest.reading r.toJson.bytes = .ok r := by
  have fits : Fits Written.maxDepth r.toJson := by
    refine fits_ofFields fun pair mem => ?_
    obtain rfl := List.mem_singleton.mp mem
    exact fits_ofFields (by simp [Fits])
  have read : GetRequest.reading Written.maxDepth (written r.toJson) = some r := by
    rw [toJson, reading, Written.maxDepth, record_written]
    simp only [List.map_cons, List.map_nil, List.reverse_singleton, Fields.get?, if_true,
      Option.map_some, required]
    rw [reading.payloadReading, record_written]
    simp [Fields.get?, required, Json.optional, string_written, tokenField]
  rw [decodeBody, decode?_bytes _ (fits.exact _), read]

/-- A write request is decoded from the bytes it is sent as. -/
theorem PutRequest.decodeBody_bytes {value : Json} (sound : Fits 125 value) (key token : String) :
    decodeBody PutRequest.reading (PutRequest.toJson ⟨key, value, some token⟩).bytes =
      .ok ⟨key, value, some token⟩ := by
  have fits : Fits Written.maxDepth (PutRequest.toJson ⟨key, value, some token⟩) := by
    refine fits_ofFields fun pair mem => ?_
    obtain rfl := List.mem_singleton.mp mem
    exact fits_ofFields (by simp [Fits, sound])
  have any : Reading.any 125 (written value) = some value := json?_written value sound
  have read : PutRequest.reading Written.maxDepth
      (written (PutRequest.toJson ⟨key, value, some token⟩)) = some ⟨key, value, some token⟩ := by
    rw [toJson, reading, Written.maxDepth, record_written]
    simp only [List.map_cons, List.map_nil, List.reverse_singleton, Fields.get?, if_true,
      Option.map_some, required]
    rw [reading.payloadReading, record_written]
    simp [Fields.get?, required, Json.optional, string_written, nullable_text, tokenField, any]
  rw [decodeBody, decode?_bytes _ (fits.exact _), read]

/-- Asking for a value takes no more bytes than putting it. -/
theorem Client.getRequest_le (c : Client) (key text : String) :
    (c.getRequest key).body.length ≤ (c.putText key text).body.length := by
  have gets : GetRequest.toJson ⟨key, c.token⟩ = .object [("payload",
      .object [("key", .string key), (tokenField, .string c.token)])] := rfl
  have puts : PutRequest.toJson ⟨key, .string text, some c.token⟩ = .object [("payload",
      .object [("key", .string key), (tokenField, .string c.token), ("value", .string text)])] := rfl
  simp only [getRequest, putText, HttpRequest.json, gets, puts, Json.compact, Utf8.ofString,
    String.toList_ofList, Json.print, Json.printFields, Utf8.encode, List.flatMap_append,
    List.flatMap_cons, List.length_append]
  omega

/-! ## The document of a client -/

/-- What a server takes out of the object that a client has made of its document. -/
def Client.document (document : Json.Fields) (version : Nat) : Document :=
  ⟨((document.insert versionField (.ofNat version)).erase tokenField).erase versionField⟩

namespace Client

variable {document : Json.Fields} {version : Nat}

/-- The document is what the client sent, but for the version and the token. -/
theorem document_get? (sorted : document.Pairwise (·.1 < ·.1)) (name : String) :
    (Client.document document version).fields.get? name =
      if name = versionField ∨ name = tokenField then none else document.get? name := by
  have sorted' : (document.insert versionField (.ofNat version)).Pairwise (·.1 < ·.1) :=
    sorted_insert sorted
  rw [Client.document]
  by_cases isVersion : name = versionField
  · have sorted'' := sorted'.sublist (erase_sublist tokenField _)
    rw [isVersion, if_pos (.inl rfl), get?_erase_self sorted'' versionField]
  · rw [get?_erase_of_ne (Ne.symm isVersion)]
    by_cases isToken : name = tokenField
    · rw [isToken, if_pos (.inr rfl), get?_erase_self sorted' tokenField]
    · rw [if_neg (by simp [isVersion, isToken]), get?_erase_of_ne (Ne.symm isToken), get?_insert,
        if_neg (Ne.symm isVersion)]

theorem document_storable (fits : Fits Written.maxDepth (.object document))
    (small : version < Decimal.limit64) : (Client.document document version).Storable := by
  obtain ⟨sorted, members⟩ := fits
  rw [fitsFields_iff] at members
  have lookup : ∀ name, (Client.document document version).fields.get? name =
      if name = versionField ∨ name = tokenField then none else document.get? name :=
    document_get? sorted
  have part : (Client.document document version).fields.Sublist
      (document.insert versionField (.ofNat version)) :=
    (erase_sublist versionField _).trans (erase_sublist tokenField _)
  refine ⟨(sorted_insert sorted).sublist part, ?_, ?_, ?_⟩
  · intro field mem
    cases mem_insert (part.subset mem) with
    | inl new => exact new ▸ fits_ofNat small
    | inr old => exact members field old
  · rw [lookup, if_pos (.inr rfl)]
  · rw [lookup, if_pos (.inl rfl)]

/-- The text that a client makes of its document is taken apart into the write it means. -/
theorem takeApart_compact (fits : Fits Written.maxDepth (.object document))
    (small : version < Decimal.limit64) : ∃ token,
    takeApart (.string (Json.object (document.insert versionField (.ofNat version))).compact) =
      .ok ⟨.upsert version (Client.document document version), token⟩ := by
  obtain ⟨sorted, members⟩ := fits
  let sent := document.insert versionField (.ofNat version)
  have fits : Fits Written.maxDepth (.object sent) := by
    refine ⟨sorted_insert sorted, fitsFields_iff.mpr fun field mem => ?_⟩
    cases mem_insert mem with
    | inl new => exact new ▸ fits_ofNat small
    | inr old => exact fitsFields_iff.mp members field old
  have reads : Json.ofString (Json.object sent).compact = some (.object sent) := by
    rw [Json.ofString, Json.compact, String.toList_ofList]
    exact parse?_print fits
  have version_ : (sent.erase tokenField).get? versionField = some (.ofNat version) := by
    rw [get?_erase_of_ne (by decide), get?_insert, if_pos rfl]
  refine ⟨(sent.get? tokenField).bind Json.string?, ?_⟩
  rw [takeApart, Submission.ofValue, if_neg, reads]
  · simp only [Submission.ofObject, Submission.ofFields, version_, parseVersion_ofNat]
    rfl
  · exact Json.compact_object_ne_tombstoneText sent

/-- The text that a client makes of its document. -/
def sentText (document : Json.Fields) (version : Nat) : String :=
  (Json.object (document.insert versionField (.ofNat version))).compact

theorem decodeBody_putRequest (c : Client) (key : String) (document : Json.Fields)
    (version : Nat) : decodeBody PutRequest.reading (c.putRequest key document version).body =
      .ok ⟨key, .string (sentText document version), some c.token⟩ := by
  have sound : Fits 125 (.string (sentText document version)) := trivial
  rw [putRequest, putText, HttpRequest.json_body]
  exact PutRequest.decodeBody_bytes sound key c.token

theorem decodeBody_getRequest (c : Client) (key : String) :
    decodeBody GetRequest.reading (c.getRequest key).body = .ok ⟨key, c.token⟩ := by
  rw [getRequest, HttpRequest.json_body, GetRequest.decodeBody_bytes]

variable {c : Client} {key : String}

/-- A leader reads the request of a client as the write that the client means, under its token. -/
theorem readProposal_putRequest {n : Node} (fits : Fits Written.maxDepth (.object document))
    (small : version < Decimal.limit64) (length : keyFault? key = none) (leads : n.role = .leader) :
    ∃ p, readProposal (c.putRequest key document version).body n = .ok p ∧ p.requested = key ∧
      p.token = c.token ∧
      p.submission.write = .upsert version (Client.document document version) := by
  obtain ⟨token, taken⟩ := takeApart_compact fits small
  have accepted : checkKey key = .ok () := by rw [checkKey, length]
  have led : n.ensureLeader = .ok () := if_pos leads
  refine ⟨⟨key, ⟨.upsert version (Client.document document version), token⟩, c.token⟩, ?_, rfl, rfl,
    rfl⟩
  rw [readProposal, decodeBody_putRequest]
  simp only [bind, Except.bind, accepted, led, sentText, taken]
  rfl

variable {verify : Verifier} {principal : String}

theorem writeTarget_putRequest (fits : Fits Written.maxDepth (.object document))
    (small : version < Decimal.limit64) (length : keyFault? key = none)
    (authorised : authorize verify c.token = .ok principal) :
    writeTarget verify (c.putRequest key document version).body =
      .ok (principal, Key.owned principal key,
        .upsert version (Client.document document version)) := by
  obtain ⟨token, taken⟩ := takeApart_compact fits small
  have accepted : checkKey key = .ok () := by rw [checkKey, length]
  rw [writeTarget, decodeBody_putRequest]
  simp only [bind, Except.bind, accepted, sentText, taken, Option.some_or, Option.getD_some,
    authorised]
  rfl

theorem readTarget_getRequest (length : keyFault? key = none)
    (authorised : authorize verify c.token = .ok principal) :
    readTarget verify (c.getRequest key).body = .ok (principal, Key.owned principal key) := by
  have accepted : checkKey key = .ok () := by rw [checkKey, length]
  rw [readTarget, decodeBody_getRequest]
  simp only [bind, Except.bind, accepted, authorised]
  rfl

end Client

/-! ## Replies to a client -/

theorem hear_success (server url : String) (retry : Retry) (exposition : Metrics → List UInt8)
    (p : RecordPayload) :
    retry.hear server (clientReply url ((HttpResponse.ofOutcome (.ok p)).answer exposition)) =
      .ended (.granted p) := by
  have heard := clientReply_success url 200 p
  have payload : RecordPayload.ofJson? p.toJson = some p := rfl
  refine (congrArg (retry.hear server) heard).trans ?_
  simp [Retry.hear, ClientReply.success, payload]

theorem hear_mismatch (server url : String) (retry : Retry) (exposition : Metrics → List UInt8)
    (current supplied : Nat) : retry.hear server (clientReply url
      ((HttpResponse.refusal (.versionMismatch current supplied)).answer exposition)) =
        .ended (.refused "VersionMismatch" "Version mismatch") := by
  have heard := clientReply_failure url 200 (.versionMismatch current supplied)
  refine (congrArg (retry.hear server) heard).trans ?_
  simp [Retry.hear, ClientReply.failure, NodeError.code, NodeError.text]

/-- A client cannot decode that its request is too large, and makes it again. -/
theorem hear_tooLarge (server url : String) (retry : Retry) (exposition : Metrics → List UInt8) :
    ∃ retry', retry.hear server (clientReply url (HttpResponse.tooLarge.answer exposition)) =
      .again none retry' := by
  have none : (Json.decode? ClientReply.reading (Utf8.scan
      (Utf8.ofString "Failed to buffer the request body: length limit exceeded"))).isNone = true := by
    decide +kernel
  refine ⟨{ retry with fault := some .undecodable }, ?_⟩
  rw [clientReply, HttpResponse.tooLarge, HttpResponse.plain, HttpResponse.answer,
    Option.isNone_iff_eq_none.mp none, Retry.hear]

/-! ## One server -/

namespace Network

/-- Nothing happens to the members besides the calls of the client. -/
structure Calm (net : Network) : Prop where
  before : ∀ number members, net.before number members = members
  meanwhile : ∀ number m, net.meanwhile number m = m

/-- One address at which there is a member. -/
def sole (address : String) (m : Member) : String → Option Member :=
  Function.update (fun _ => none) address (some m)

/-- A request for a value as a call brings it to a member. -/
def ask (net : Network) (number : Nat) (writes : Bool) (body : List UInt8) : ValueRequest :=
  ⟨writes, body, net.moment number, net.expired number⟩

variable {net : Network} {c : Client} {address : String} {w : World} {m : Member}
  {r : HttpRequest} {writes : Bool} {body : List UInt8}

/-- A member that nothing else happens to handles a call as it exchanges a request. -/
theorem Calm.handle (calm : net.Calm) (address : String) (number : Nat) (writes : Bool)
    (body : List UInt8) (m : Member) : ∃ log, net.handle number address (net.ask number writes body).http m =
      (((net.server address).exchange (net.ask number writes body) m).1.map
          (HttpResponse.answer net.exposition), log,
        ((net.server address).exchange (net.ask number writes body) m).2) := by
  have moment : (net.ask number writes body).moment = net.moment number := rfl
  have expired : (net.ask number writes body).expired = net.expired number := rfl
  rcases received : (net.server address).receive (net.moment number)
      (net.ask number writes body).http m with ⟨response | ⟨staged, operation⟩, m'⟩
  · refine ⟨m'.node.log.drop m.node.log.length, ?_⟩
    simp only [Network.handle, Server.exchange, moment, received, Option.map_some]
  · refine ⟨m'.node.log.drop m.node.log.length, ?_⟩
    simp only [Network.handle, Server.exchange, moment, expired, received, calm.meanwhile]
    rcases staged.outcome? m'.node (net.expired number) with _ | outcome
    · rfl
    · rfl

/-- There is nobody but a leader without peers. -/
structure Rests (address : String) (m : Member) (w : World) : Prop where
  members : w.members = sole address m
  solitary : m.Solitary
  leads : m.node.role = .leader

/-- What a call brings to the client and to the only member: either the request was never heard of, or
    it was served, and if there is an answer, it is the reply to it. -/
structure Brings (net : Network) (address : String) (r : ValueRequest) (w : World) (m : Member)
    (brought : Option HttpAnswer × World) (m' : Member) : Prop where
  rests : Rests address m' brought.2
  tried : ∃ t, brought.2.tries = w.tries ++ [t] ∧ t.answered = brought.1.isSome
  served : brought.1 = none ∧ m'.contents = m.contents ∨
    m'.contents = (m.contents.reply ((net.server address).screen r)).2 ∧
      ∀ answer, brought.1 = some answer → answer =
        (m.contents.reply ((net.server address).screen r)).1.answer net.exposition

theorem Calm.call (calm : net.Calm) (rests : Rests address m w) (server : String)
    (asked : r = (net.ask w.tries.length writes body).http) :
    ∃ m', net.Brings address (net.ask w.tries.length writes body) w m (net.call server r w) m' := by
  obtain ⟨alone, solitary, leads⟩ := rests
  have unheard : net.Brings address (net.ask w.tries.length writes body) w m
      (none, ⟨w.members, w.tries ++ [⟨server, [], false⟩]⟩) m :=
    ⟨⟨alone, solitary, leads⟩, ⟨_, rfl, rfl⟩, .inl ⟨rfl, rfl⟩⟩
  rw [Network.call]
  simp only [calm.before]
  split
  · exact ⟨m, unheard⟩
  · exact ⟨m, unheard⟩
  · rename_i _ _ m' at_ _
    rw [alone] at at_
    obtain ⟨rfl, rfl⟩ : server = address ∧ m = m' := by
      by_cases same : server = address
      · rw [same, sole, Function.update_self] at at_
        exact ⟨same, Option.some.inj at_⟩
      · simp [sole, Function.update_of_ne same] at at_
    obtain ⟨log, handled⟩ := calm.handle server w.tries.length writes body m
    have served := (net.server server).serves (net.ask w.tries.length writes body) solitary leads
    rw [asked, handled, served.reply]
    refine ⟨_, ⟨?_, served.solitary, served.leads⟩, ⟨_, rfl, rfl⟩, .inr ⟨served.contents, ?_⟩⟩
    · simp only [alone, sole, Function.update_idem]
    · intro answer brings
      simp only at brings
      split at brings
      · exact (Option.some.inj brings).symm
      · simp at brings

/-- What holds before a call that is followed by another holds at the end if there is no outcome, and
    otherwise the outcome is one that a call from there can have. -/
theorem persist_ends (Good : World → Prop) (Ends : ClientOutcome → World → Prop)
    (step : ∀ (server : String) (retry : Retry) (w : World), Good w →
      match retry.hear server (clientReply (r.url server) (net.call server r w).1) with
      | .ended outcome => Ends outcome (net.call server r w).2
      | .again _ _ => Good (net.call server r w).2)
    (attempts : Nat) (retry : Retry) (good : Good w) :
    match (c.persist net.wire pause r attempts retry).run w with
    | (.ok outcome, w') => Ends outcome w'
    | (.error _, w') => Good w' := by
  induction attempts generalizing retry w with
  | zero => exact good
  | succ attempts ih =>
      rcases target : c.target retry with ⟨server, aimed⟩
      have next := step server aimed w good
      rw [persist_succ net c r attempts w target]
      cases heard : aimed.hear server (clientReply (r.url server) (net.call server r w).1) with
      | ended outcome =>
          rw [heard] at next
          exact next
      | again milliseconds retry' =>
          rw [heard] at next
          exact ih retry' next

/-! ## Putting and getting -/

variable {key principal owned text : String} {document : Json.Fields} {version : Nat}
  {d : Document}

/-- How a write is replied to, which depends on what it is based on. -/
theorem reply_put (c : Contents) (principal key : String) (write : Write) :
    c.reply (.ok (principal, .put key write)) =
      match write.resolve (c key) with
      | .ok version => (.ofOutcome (.ok (.ofRecord key ((write.content version).record version))),
          Function.update c key (some ((write.content version).record version)))
      | .error current =>
        (.refusal (.versionMismatch current (write.supplied current)), c) := by
  rw [Contents.reply, Contents.serve_put]
  cases write.resolve (c key) with
  | error current => rfl
  | ok version => rfl

theorem reply_get {c : Contents} (holds : c owned = some (.live text version)) :
    c.reply (.ok (principal, .get owned)) = (.ofOutcome (.ok ⟨owned, text⟩), c) := by
  simp only [Contents.reply, Contents.serve, holds, Answer.outcome]
  rfl

/-- If a write is granted, then it was not too large, and it has been done. -/
theorem Calm.puts (calm : net.Calm) (asked : ∀ number, r = (net.ask number true body).http)
    (screened : ∀ number, (net.server address).screen (net.ask number true body) =
      if maxBody < body.length then .error .tooLarge
      else .ok (principal, .put owned (.upsert version d)))
    (server : String) (retry : Retry) (w : World) (rests : ∃ m, Rests address m w) :
    match retry.hear server (clientReply (r.url server) (net.call server r w).1) with
    | .ended outcome => ∀ record, outcome = .granted record → ¬ maxBody < body.length ∧
        ∃ m, Rests address m (net.call server r w).2 ∧
          m.contents owned = some (.live (d.render (version + 1)) (version + 1))
    | .again _ _ => ∃ m, Rests address m (net.call server r w).2 := by
  obtain ⟨m, rests⟩ := rests
  obtain ⟨m', brings⟩ := calm.call rests server (asked w.tries.length)
  have left := brings.rests
  cases brought : (net.call server r w).1 with
  | none => exact ⟨m', left⟩
  | some answer =>
      obtain ⟨none, _⟩ | ⟨contents, reply⟩ := brings.served
      · simp [brought] at none
      · rw [reply answer brought]
        rw [screened] at contents ⊢
        by_cases large : maxBody < body.length
        · have replied : m.contents.reply (.error .tooLarge) = (.tooLarge, m.contents) := rfl
          obtain ⟨retry', again⟩ := hear_tooLarge server (r.url server) retry net.exposition
          rw [if_pos large, replied, again]
          exact ⟨m', left⟩
        · rw [if_neg large, reply_put] at contents ⊢
          cases resolved : (Write.upsert version d).resolve (m.contents owned) with
          | error current =>
              simp only [hear_mismatch]
              simp
          | ok given =>
              obtain rfl := Write.resolve_upsert resolved
              simp only [resolved, hear_success] at contents ⊢
              intro record granted
              refine ⟨large, m', left, ?_⟩
              rw [contents]
              exact Function.update_self ..

/-- What is got of a value is that value, or nothing. -/
theorem Calm.gets (calm : net.Calm) (asked : ∀ number, r = (net.ask number false body).http)
    (screened : ∀ number, (net.server address).screen (net.ask number false body) =
      .ok (principal, .get owned))
    (server : String) (retry : Retry) (w : World)
    (holds : (∃ m, Rests address m w ∧ m.contents owned = some (.live text version)) ∧
      ∀ t ∈ w.tries, t.answered = false) :
    match retry.hear server (clientReply (r.url server) (net.call server r w).1) with
    | .ended outcome => outcome = .granted ⟨owned, text⟩
    | .again _ _ =>
      (∃ m, Rests address m (net.call server r w).2 ∧
        m.contents owned = some (.live text version)) ∧
      ∀ t ∈ (net.call server r w).2.tries, t.answered = false := by
  obtain ⟨⟨m, rests, holds⟩, silent⟩ := holds
  obtain ⟨m', brings⟩ := calm.call rests server (asked w.tries.length)
  obtain ⟨t, tries, answered⟩ := brings.tried
  have served := brings.served
  rw [screened, reply_get holds] at served
  have kept : m'.contents = m.contents := by
    obtain ⟨_, same⟩ | ⟨same, _⟩ := served
    · exact same
    · exact same
  cases brought : (net.call server r w).1 with
  | none =>
      refine ⟨⟨m', brings.rests, by rw [kept, holds]⟩, fun t' mem => ?_⟩
      rw [tries] at mem
      rcases List.mem_append.mp mem with old | new
      · exact silent t' old
      · rw [List.mem_singleton.mp new, answered, brought]
        rfl
  | some answer =>
      obtain ⟨none, _⟩ | ⟨_, reply⟩ := served
      · simp [brought] at none
      · rw [reply answer brought, hear_success]

theorem screen_putRequest (fits : Fits Written.maxDepth (.object document))
    (small : version < Decimal.limit64) (length : keyFault? key = none)
    (authorised : authorize (net.server address).verify c.token = .ok principal) (number : Nat) :
    (net.server address).screen (net.ask number true (c.putRequest key document version).body) =
      if maxBody < (c.putRequest key document version).body.length then .error .tooLarge
      else .ok (principal,
        .put (Key.owned principal key) (.upsert version (Client.document document version))) := by
  have target := Client.writeTarget_putRequest fits small length authorised
  rw [Server.screen]
  simp only [ask, target, if_true]

theorem screen_getRequest (length : keyFault? key = none)
    (authorised : authorize (net.server address).verify c.token = .ok principal)
    (small : ¬ maxBody < (c.getRequest key).body.length) (number : Nat) :
    (net.server address).screen (net.ask number false (c.getRequest key).body) =
      .ok (principal, .get (Key.owned principal key)) := by
  have target := Client.readTarget_getRequest length authorised
  rw [Server.screen]
  simp only [ask, target, if_neg small, Bool.false_eq_true, if_false]

theorem ask_http (number : Nat) (method : r.method = if writes then "PUT" else "GET")
    (target : r.target = "/request") : r = (net.ask number writes r.body).http := by
  obtain ⟨_, _, body⟩ := r
  obtain rfl := method
  obtain rfl := target
  rfl

theorem Calm.put_granted (calm : net.Calm) (fits : Fits Written.maxDepth (.object document))
    (small : version < Decimal.limit64) (length : keyFault? key = none)
    (authorised : authorize (net.server address).verify c.token = .ok principal)
    (solitary : m.Solitary) (leads : m.node.role = .leader) {record : RecordPayload}
    (granted : net.serve c (c.putRequest key document version) (sole address m) =
      (.ok (.granted record), w)) :
    ¬ maxBody < (c.putRequest key document version).body.length ∧
      ∃ m', Rests address m' w ∧ m'.contents (Key.owned principal key) = some (.live
        ((Client.document document version).render (version + 1)) (version + 1)) := by
  have ends := persist_ends (c := c) (w := ⟨sole address m, []⟩)
    (fun w => ∃ m, Rests address m w)
    (fun outcome w => ∀ record, outcome = .granted record →
      ¬ maxBody < (c.putRequest key document version).body.length ∧
        ∃ m, Rests address m w ∧ m.contents (Key.owned principal key) = some (.live
          ((Client.document document version).render (version + 1)) (version + 1)))
    (calm.puts (fun number => ask_http number rfl rfl) (screen_putRequest fits small length authorised))
    c.attempts .start ⟨m, rfl, solitary, leads⟩
  have ran : (c.persist net.wire pause (c.putRequest key document version) c.attempts .start).run
      ⟨sole address m, []⟩ = (.ok (.granted record), w) := granted
  rw [ran] at ends
  exact ends record rfl

theorem Calm.get_told (calm : net.Calm) (length : keyFault? key = none)
    (authorised : authorize (net.server address).verify c.token = .ok principal)
    (small : ¬ maxBody < (c.getRequest key).body.length) (rests : Rests address m w)
    (holds : m.contents (Key.owned principal key) = some (.live text version)) :
    match net.serve c (c.getRequest key) w.members with
    | (.ok outcome, _) => outcome = .granted ⟨Key.owned principal key, text⟩
    | (.error _, w') => ∀ t ∈ w'.tries, t.answered = false := by
  have ends := persist_ends (c := c) (w := ⟨w.members, []⟩)
    (fun w => (∃ m, Rests address m w ∧
        m.contents (Key.owned principal key) = some (.live text version)) ∧
      ∀ t ∈ w.tries, t.answered = false)
    (fun outcome _ => outcome = .granted ⟨Key.owned principal key, text⟩)
    (calm.gets (fun number => ask_http number rfl rfl) (screen_getRequest length authorised small))
    c.attempts .start ⟨⟨m, ⟨rests.members, rests.solitary, rests.leads⟩, holds⟩, by simp⟩
  cases ran : net.serve c (c.getRequest key) w.members with
  | mk outcome w' =>
      rw [serve, Client.send] at ran
      rw [ran] at ends
      cases outcome with
      | ok outcome => exact ends
      | error e => exact ends.2

/-- Whatever a client puts under a key as a document is read by a leader as a write of that document
    which is based on the version the client has said, and is done under its token. And if a leader
    without peers grants it, a client that gets the key then is given a text of the document or hears
    nothing at all. The text has the version of the write in it, whatever the document has said, and
    no token; besides that it is the document. -/
theorem documents_come_back {net later : Network} (calm : net.Calm) (calm' : later.Calm)
    (c : Client) (key : String) (document : Json.Fields) (version : Nat) (address : String)
    (same : later.server address = net.server address)
    (length : 1 ≤ key.utf8ByteSize ∧ key.utf8ByteSize ≤ 1024)
    (authorised : authorize (net.server address).verify c.token = .ok principal)
    (fits : Fits 127 (.object document)) (small : version < 2 ^ 64)
    (solitary : m.Solitary) (leads : m.node.role = .leader) :
    (∃ p d, readProposal (c.putRequest key document version).body m.node = .ok p ∧
      p.requested = key ∧ p.token = c.token ∧ p.submission.write = .upsert version d ∧
      ∀ name, d.fields.get? name =
        if name = versionField ∨ name = tokenField then none else document.get? name) ∧
    ∀ record w, net.serve c (c.putRequest key document version) (sole address m) =
        (.ok (.granted record), w) →
      ∃ (text : String) (fields : Json.Fields), Json.ofString text = some (.object fields) ∧
        fields.Pairwise (·.1 < ·.1) ∧
        (∀ name, fields.get? name =
          if name = versionField then some (.string (Decimal.text (version + 1)))
          else if name = tokenField then none
          else document.get? name) ∧
        match later.serve c (c.getRequest key) w.members with
        | (.ok outcome, _) => outcome = .granted ⟨Key.owned principal key, text⟩
        | (.error _, w') => ∀ t ∈ w'.tries, t.answered = false := by
  have length : keyFault? key = none := by
    rw [keyFault?, if_neg (by omega), if_neg (by rw [maxKeyLength]; omega)]
  have storable := Client.document_storable fits small
  constructor
  · obtain ⟨p, read, requested, token, write⟩ :=
      Client.readProposal_putRequest fits small length leads
    exact ⟨p, _, read, requested, token, write, Client.document_get? fits.1⟩
  · intro record w granted
    obtain ⟨sent, m', rests, holds⟩ :=
      calm.put_granted fits small length authorised solitary leads granted
    have asks := c.getRequest_le key (Client.sentText document version)
    have told := calm'.get_told length (same ▸ authorised)
      (fun large => sent (Nat.lt_of_lt_of_le large asks)) rests holds
    refine ⟨_, _, storable.ofString_render (version + 1), sorted_insert storable.sorted,
      fun name => ?_, told⟩
    rw [Document.stored, get?_insert, Client.document_get? fits.1]
    by_cases isVersion : name = versionField
    · rw [if_pos isVersion.symm, if_pos isVersion]
    · rw [if_neg (Ne.symm isVersion), if_neg isVersion]
      by_cases isToken : name = tokenField
      · rw [if_pos (.inr isToken), if_pos isToken]
      · rw [if_neg (by simp [isVersion, isToken]), if_neg isToken]

/-- A network in which the first call of a request is lost on its way. -/
def hesitant : Network :=
  { forgetful with fate number := if number = 0 then .undelivered else .heard }

/-- A document with members that are not the client's to set. -/
def presumptuous : Json.Fields :=
  [("list", .array [.number (.integer (-1)), .string "\"\u0000"]), ("token", .string "x"),
    ("version_number", .number (.integer 7))]

/-- Whether a request was granted. -/
def grants : Except ClientError ClientOutcome → Bool
  | .ok (.granted _) => true
  | _ => false

theorem grants_iff {outcome : Except ClientError ClientOutcome} :
    grants outcome = true ↔ ∃ record, outcome = .ok (.granted record) := by
  rw [grants.eq_def]
  split
  · simp
  · rename_i other
    simpa using other

theorem documents_come_back_of_a_presumptuous_client :
    ∃ (text : String) (fields : Json.Fields), Json.ofString text = some (.object fields) ∧
      fields.get? "version_number" = some (.string (Decimal.text 1)) ∧
      fields.get? "token" = none ∧
      fields.get? "list" = some (.array [.number (.integer (-1)), .string "\"\u0000"]) ∧
      (hesitant.serve hopeful (hopeful.getRequest "k")
        (hesitant.serve hopeful (hopeful.putRequest "k" presumptuous 0) lone).2.members).1 =
          .ok (.granted ⟨"u:k", text⟩) := by
  have calm : hesitant.Calm := ⟨fun _ _ => rfl, fun _ _ => rfl⟩
  have fits : Fits 127 (.object presumptuous) :=
    ⟨by decide +kernel, by simp [presumptuous, Fits, FitsFields, FitsItems]⟩
  have authorised : authorize (hesitant.server "http://a").verify hopeful.token = .ok "u" := rfl
  obtain ⟨_, back⟩ := documents_come_back calm calm hopeful "k" presumptuous 0 "http://a" rfl
    (by decide) authorised fits (by decide)
    ((Member.Solitary.start 0 "http://a" ⟨150, 300, 30, 50, 1000⟩).wakes ⟨1000, 200⟩)
    (by decide +kernel)
  have put : grants (hesitant.serve hopeful (hopeful.putRequest "k" presumptuous 0) lone).1 =
    true := by decide +kernel
  have get : grants (hesitant.serve hopeful (hopeful.getRequest "k")
    (hesitant.serve hopeful (hopeful.putRequest "k" presumptuous 0) lone).2.members).1 =
      true := by decide +kernel
  rw [show sole "http://a" _ = lone from rfl] at back
  rcases stored : hesitant.serve hopeful (hopeful.putRequest "k" presumptuous 0) lone with ⟨put', w⟩
  rw [stored] at put get
  obtain ⟨record, rfl⟩ := grants_iff.mp put
  obtain ⟨text, fields, read, _, lookup, told⟩ := back record w stored
  refine ⟨text, fields, read, lookup _, lookup _, lookup _, ?_⟩
  rcases got : hesitant.serve hopeful (hopeful.getRequest "k") w.members with ⟨get', w'⟩
  rw [got] at get told
  obtain ⟨record', rfl⟩ := grants_iff.mp get
  exact congrArg Except.ok told

end Network

end QuorumStore
