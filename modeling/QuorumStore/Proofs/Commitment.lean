import QuorumStore.Proofs.LogMatching
/-! # What is committed

A leader commits what a majority holds once the last entry of it is one of its own term. Every later
leader was elected by a majority with a member of the first one in it, and that member keeps what it
holds and votes for nobody who is behind; so later leaders hold it as well. From there on it can
neither be replaced nor lost.
-/

namespace QuorumStore.Run

variable {n : Nat} (R : Run n)

/-! ## What leaders know -/

/-- A member has held a log in a term, at some moment so far. -/
def Held (k : Nat) (v : Fin n) (T : Nat) (log : Log) : Prop :=
  ∃ l ≤ k, (R.node l v).term = T ∧ log <+: (R.node l v).log

/-- What a leader knows about its peers is true. -/
structure Informed (k : Nat) (i : Fin n) (T : Nat) : Prop where
  aligned : (R.node k i).progress.length = (R.roster.peers i).length
  known : ∀ (peer : Nat) (p : Progress), (R.node k i).progress[peer]? = some p →
    p.matched ≤ (R.node k i).lastIndex ∧ (0 < p.matched →
      ∃ v, (R.roster.peers i)[peer]? = some v ∧
        R.Held k v T ((R.node k i).log.take p.matched))

variable {R} {k l T U : Nat} {i j v : Fin n} {a b log : Log}

theorem Held.mono (h : R.Held k v T log) (le : k ≤ l) : R.Held l v T log := by
  obtain ⟨m, before, holds⟩ := h
  exact ⟨m, Nat.le_trans before le, holds⟩

theorem Held.of_part (h : R.Held k v T b) (before : a <+: b) : R.Held k v T a := by
  obtain ⟨m, le, term, holds⟩ := h
  exact ⟨m, le, term, before.trans holds⟩

variable (R) in
/-- Every success in a round tells that the peer has held all that its request covers. -/
def Confirmed (k : Nat) (x : Round n) : Prop :=
  ∀ (peer : Nat) (reply : HeartbeatReply), (peer, reply) ∈ x.answers → reply.success = true →
    ∃ v r, (R.roster.peers x.caller)[peer]? = some v ∧ x.sent[peer]? = some r ∧
      ∃ s ≤ k, R.Leads s x.caller x.task ∧ (R.node s x.caller).Tells r ∧
        R.Held k v x.task ((R.node s x.caller).log.take r.lastIndex)

theorem Confirmed.succ {x : Round n} (h : R.Confirmed k x) : R.Confirmed (k + 1) x := by
  intro peer reply answered success
  obtain ⟨v, r, target, sent, s, le, leads, tells, held⟩ := h peer reply answered success
  exact ⟨v, r, target, sent, s, Nat.le_succ_of_le le, leads, tells, held.mono (Nat.le_succ k)⟩

theorem confirmed (k : Nat) : ∀ x ∈ (R.state k).rounds, R.Confirmed k x := by
  induction k with
  | zero => intro x hx; simp [state, System.start] at hx
  | succ k ih =>
      intro x hx
      cases R.roundAfter hx with
      | kept _ before => exact (ih x before).succ
      | opened i leads => intro peer reply answered; simp [Exchange.start] at answered
      | closed x _ _ before => exact (ih x before).succ
      | answered x p j request t before target sent next =>
          intro peer reply answered success
          rcases List.mem_append.mp answered with earlier | new
          · exact (ih x before).succ peer reply earlier success
          obtain ⟨rfl, rfl⟩ := Prod.mk.inj (List.mem_singleton.mp new)
          rcases Node.answers (R.sound k j).bound t request with ⟨failed, _⟩ | ⟨_, taken⟩
          · rw [failed] at success
            simp at success
          obtain ⟨s, le, leads, tells⟩ := R.sent k x before request (List.mem_of_getElem? sent)
          refine ⟨j, request, target, sent, s, Nat.le_succ_of_le le, leads, tells, k + 1,
            Nat.le_refl _, ?_, ?_⟩
          · rw [next, taken.term, tells.term]
            exact leads.2
          · rw [next]
            exact part_of_taken taken tells (matches_log k s j x.caller)

/-- Whatever else happens, a leader that learns nothing stays informed. -/
theorem Informed.succ (h : R.Informed k i T)
    (longer : (R.node k i).log <+: (R.node (k + 1) i).log)
    (same : (R.node (k + 1) i).progress = (R.node k i).progress) : R.Informed (k + 1) i T := by
  refine ⟨same ▸ h.aligned, fun peer p at_ => ?_⟩
  rw [same] at at_
  obtain ⟨inside, held⟩ := h.known peer p at_
  refine ⟨Nat.le_trans inside longer.length_le, fun pos => ?_⟩
  rw [Log.take_of_part longer inside]
  obtain ⟨v, target, held⟩ := held pos
  exact ⟨v, target, held.mono (Nat.le_succ k)⟩

/-- What an answer tells the leader is true. -/
theorem Informed.learn {x : Round n} {peer : Nat} {sent : HeartbeatRequest}
    {reply : HeartbeatReply} (h : R.Informed k i T) (leads : R.Leads k i T)
    (hx : x ∈ (R.state k).rounds) (own : x.caller = i) (task : x.task = T)
    (answered : (peer, reply) ∈ x.answers) (asked : x.sent[peer]? = some sent)
    (log : (R.node (k + 1) i).log = (R.node k i).log)
    (learned : (R.node (k + 1) i).progress =
      (R.node k i).progress.modify peer (Node.learn sent reply)) : R.Informed (k + 1) i T := by
  subst own task
  refine ⟨by rw [learned, List.length_modify, h.aligned], fun q p at_ => ?_⟩
  rw [learned] at at_
  rw [Node.lastIndex, log]
  obtain ⟨old, before, same | ⟨rfl, success, covers⟩⟩ := Node.learn_cases at_
  · obtain ⟨inside, held⟩ := h.known q old before
    rw [same]
    refine ⟨inside, fun pos => ?_⟩
    obtain ⟨v, target, held⟩ := held pos
    exact ⟨v, target, held.mono (Nat.le_succ k)⟩
  · obtain ⟨v, r, target, sent', s, le, led, tells, holds⟩ :=
      confirmed k x hx peer reply answered success
    obtain rfl := Option.some.inj (asked.symm.trans sent')
    have longer := led.grows leads le
    have covered : sent.lastIndex ≤ (R.node s x.caller).log.length := tells.lastIndex_le
    rw [covers]
    refine ⟨Nat.le_trans covered longer.length_le, fun _ => ⟨v, target, ?_⟩⟩
    rw [Log.take_of_part longer covered]
    exact holds.mono (Nat.le_succ k)

/-- A leader knows nothing about its peers when it has won, and learns from answers only. -/
theorem Leads.induct {motive : (k : Nat) → R.Leads k i T → Prop}
    (wins : ∀ k leads next, (R.node (k + 1) i).progress =
      List.replicate (R.roster.peers i).length ⟨next, 0⟩ → motive (k + 1) leads)
    (rests : ∀ k before leads, motive k before → (R.node k i).log <+: (R.node (k + 1) i).log →
      (R.node (k + 1) i).progress = (R.node k i).progress → motive (k + 1) leads)
    (learns : ∀ k before leads (x : Round n) (peer : Nat) (sent : HeartbeatRequest)
      (reply : HeartbeatReply), motive k before → x ∈ (R.state k).rounds → x.caller = i →
      x.task = T → (peer, reply) ∈ x.answers → x.sent[peer]? = some sent →
      (R.node (k + 1) i).log = (R.node k i).log →
      (R.node (k + 1) i).progress =
        (R.node k i).progress.modify peer (Node.learn sent reply) → motive (k + 1) leads)
    (k : Nat) (leads : R.Leads k i T) : motive k leads := by
  induction k with
  | zero =>
      have role := leads.1
      simp [node, member, state, System.start, Member.start, Node.start] at role
  | succ k ih =>
      cases R.change k i with
      | idle idle =>
          obtain ⟨role, term, progress⟩ := idle.leads leads.1
          exact rests k _ leads (ih ⟨role, term.symm.trans leads.2⟩) (by rw [idle.log]) progress
      | takes x r _ _ taken => exact absurd (taken.role.symm.trans leads.1) (by decide)
      | records x peer sent reply hx own answered asked role term _ term' log progress _ =>
          have task : x.task = T := term'.symm.trans leads.2
          exact learns k _ leads x peer sent reply (ih ⟨role, term.trans task⟩) hx own task answered
            asked log progress
      | stages e role own _ term log progress _ =>
          refine rests k _ leads (ih ⟨role, term.symm.trans leads.2⟩) ?_ progress
          rw [log]
          exact List.prefix_append ..
      | wins U elects =>
          obtain ⟨next, progress⟩ := elects.won.progress
          exact wins k leads next progress

theorem informed (k : Nat) (i : Fin n) (T : Nat) (leads : R.Leads k i T) : R.Informed k i T := by
  induction k, leads using Leads.induct with
  | wins k leads next progress =>
      refine ⟨by rw [progress, List.length_replicate], fun peer p at_ => ?_⟩
      rw [progress] at at_
      obtain rfl := List.eq_of_mem_replicate (List.mem_of_getElem? at_)
      exact ⟨Nat.zero_le _, fun pos => absurd pos (Nat.lt_irrefl 0)⟩
  | rests k before leads ih longer same => exact ih.succ longer same
  | learns k before leads x peer sent reply ih hx own task answered asked log progress =>
      exact ih.learn before hx own task answered asked log progress

/-! ## What a majority holds -/

variable (R) in
/-- A majority has held a log in a term, and the last entry of the log is one of that term. -/
structure Chosen (k T : Nat) (log : Log) : Prop where
  nonempty : log ≠ []
  last : log.lastTerm = T
  led : ∃ l ≤ k, ∃ i, R.Leads l i T ∧ log <+: (R.node l i).log
  held : ∃ Q : Finset (Fin n), quorum n ≤ Q.card ∧ ∀ v ∈ Q, R.Held k v T log

theorem Chosen.mono (h : R.Chosen k T log) (le : k ≤ l) : R.Chosen l T log := by
  obtain ⟨m, before, i, leads⟩ := h.led
  obtain ⟨Q, enough, held⟩ := h.held
  exact ⟨h.nonempty, h.last, ⟨m, Nat.le_trans before le, i, leads⟩, Q, enough,
    fun v hv => (held v hv).mono le⟩

/-- Whoever holds a log keeps it, as long as the leaders it follows have nothing else instead. -/
theorem keeps (le : k ≤ l) (holds : log <+: (R.node k v).log)
    (comparable : ∀ s < l, ∀ j U, (R.node k v).term ≤ U → U ≤ (R.node l v).term →
      R.Leads s j U → Log.Comparable log (R.node s j).log) : log <+: (R.node l v).log := by
  induction l, le using Nat.le_induction with
  | base => exact holds
  | succ l le ih =>
      have later := (R.later_succ l v).term
      have before := ih fun s lt j U lower upper =>
        comparable s (Nat.lt_succ_of_lt lt) j U lower (Nat.le_trans upper later)
      rcases R.log_cases l v with same | ⟨e, _, longer⟩ | ⟨x, hx, r, hr, taken⟩
      · rwa [same]
      · rw [longer]
        exact before.trans (List.prefix_append ..)
      · obtain ⟨s, le', leads, tells⟩ := R.sent l x hx r hr
        have term : x.task = (R.node (l + 1) v).term := by
          rw [taken.term, tells.term, leads.2]
        have since := (R.later le v).term
        have source := comparable s (Nat.lt_succ_of_le le') x.caller x.task (by omega)
          (Nat.le_of_eq term) leads
        exact Log.prefix_of_overlaid (taken_log taken tells (matches_log l s v x.caller)) before
          (source.of_prefixes (List.prefix_refl _) (List.take_prefix _ _))

/-- What is chosen is comparable with the log of every leader from its term on, once the leaders of
    later terms hold it. -/
theorem Chosen.comparable_of_leads {s m : Nat} (chosen : R.Chosen k T log)
    (carried : ∀ s < m, ∀ j U, T < U → R.Leads s j U → log <+: (R.node s j).log)
    (before : s < m) (reached : T ≤ U) (leads : R.Leads s j U) :
    Log.Comparable log (R.node s j).log := by
  rcases Nat.lt_or_eq_of_le reached with later | rfl
  · exact .inl (carried s before j U later leads)
  · obtain ⟨l, _, i, led, part⟩ := chosen.led
    exact (led.comparable leads).of_prefixes part (List.prefix_refl _)

/-- Whoever takes the lead of a later term holds what was chosen, if all leaders before held it. -/
theorem Chosen.of_takesLead (chosen : R.Chosen k T log) (takes : R.TakesLead l j U)
    (later : T < U)
    (carried : ∀ s < l + 1, ∀ j U, T < U → R.Leads s j U → log <+: (R.node s j).log) :
    log <+: (R.node l j).log := by
  obtain ⟨Q, enough, held⟩ := chosen.held
  obtain ⟨V, enough', backs⟩ := takes.backed
  obtain ⟨v, hq, hv⟩ := exists_mem_of_quorums enough enough'
  obtain ⟨a, _, term, holds⟩ := held v hq
  -- the voter keeps the log up to any moment in a later term, up to which nobody else was elected
  have keep : ∀ m ≤ l, a ≤ m → log <+: (R.node m v).log := by
    intro m le since
    refine keeps since holds fun s before j U lower _ leads => ?_
    exact chosen.comparable_of_leads carried (by omega) (term ▸ lower) leads
  have after : ∀ m, T < (R.node m v).term → a < m := by
    intro m lt
    apply Nat.lt_of_not_le
    intro le
    have := (R.later le v).term
    omega
  rcases backs v hv with rfl | ⟨m, le, votes, _, behind⟩
  · have := after (l + 1) (by rw [takes.2.2]; exact later)
    exact keep l (Nat.le_refl l) (by omega)
  · have := after m (by rw [votes]; exact later)
    refine Log.prefix_of_behind chosen.nonempty (rising m v) (keep m le (by omega)) behind ?_
    intro nonempty reached
    -- the candidate's log is what a leader of its last term had
    obtain ⟨s, le', i, leads, part⟩ := (traced l j).whole nonempty
    rw [chosen.last] at reached
    exact (chosen.comparable_of_leads carried (Nat.lt_succ_of_le le') reached leads)
      |>.of_prefixes (List.prefix_refl _) part

/-- Every leader of a later term holds what was chosen. -/
theorem Chosen.carried (chosen : R.Chosen k T log) (l : Nat) :
    ∀ j U, T < U → R.Leads l j U → log <+: (R.node l j).log := by
  induction l using Nat.strong_induction_on with
  | _ l ih =>
      intro j U later leads
      obtain ⟨s, before, takes, since⟩ := leads.since
      have first := chosen.of_takesLead takes later fun m le => ih m (by omega)
      have start := since (s + 1) (Nat.lt_succ_self s) before
      have grown := start.grows leads before
      rw [takes.log] at grown
      exact first.trans ((List.prefix_append ..).trans grown)

theorem Chosen.comparable {c d : Nat} (h : R.Chosen c T a) (h' : R.Chosen d U b) :
    Log.Comparable a b := by
  cases Nat.le_total T U with
  | inl le =>
      obtain ⟨l, _, i, leads, part⟩ := h'.led
      exact (h.comparable_of_leads (fun s _ => h.carried s) (Nat.lt_succ_self l) le leads)
        |>.of_prefixes (List.prefix_refl _) part
  | inr le =>
      obtain ⟨l, _, i, leads, part⟩ := h.led
      exact (h'.comparable_of_leads (fun s _ => h'.carried s) (Nat.lt_succ_self l) le leads)
        |>.of_prefixes (List.prefix_refl _) part |>.symm

/-! ## What is committed -/

variable (R) in
/-- All of a log has been chosen, in a term or before. -/
def Settled (k T : Nat) (log : Log) : Prop :=
  log = [] ∨ ∃ U ≤ T, ∃ chosen, R.Chosen k U chosen ∧ log <+: chosen

theorem Settled.mono (h : R.Settled k T log) (le : k ≤ l) (reached : T ≤ U) :
    R.Settled l U log := by
  rcases h with rfl | ⟨V, before, chosen, hc, part⟩
  · exact .inl rfl
  · exact .inr ⟨V, Nat.le_trans before reached, chosen, hc.mono le, part⟩

theorem Settled.of_part (h : R.Settled k T b) (before : a <+: b) : R.Settled k T a := by
  rcases h with rfl | ⟨V, reached, chosen, hc, part⟩
  · exact .inl (List.prefix_nil.mp before)
  · exact .inr ⟨V, reached, chosen, hc, before.trans part⟩

theorem Settled.comparable (h : R.Settled k T a) (h' : R.Settled l U b) :
    Log.Comparable a b := by
  rcases h with rfl | ⟨_, _, chosen, hc, part⟩
  · exact .inl List.nil_prefix
  rcases h' with rfl | ⟨_, _, chosen', hc', part'⟩
  · exact .inr List.nil_prefix
  · exact (hc.comparable hc').of_prefixes part part'

theorem Settled.carried (h : R.Settled k T log) (leads : R.Leads l j U) (later : T < U) :
    log <+: (R.node l j).log := by
  rcases h with rfl | ⟨V, reached, chosen, hc, part⟩
  · exact List.nil_prefix
  · exact part.trans (hc.carried l j U (Nat.lt_of_le_of_lt reached later) leads)

/-- What a majority has reached, by all that the leader knows, a majority has held. -/
theorem Informed.chosen {reached : Nat} (h : R.Informed k i T) (leads : R.Leads k i T)
    (found : reached = reachedByQuorum
      ((R.node k i).progress.map Progress.matched ++ [(R.node k i).lastIndex]))
    (pos : 0 < reached) (term : (R.node k i).log.termAt reached = T) :
    R.Chosen k T ((R.node k i).log.take reached) := by
  have inside : reached ≤ (R.node k i).log.length := by
    rw [found]
    refine reachedByQuorum_le fun m hm => ?_
    cases List.mem_append.mp hm with
    | inl known =>
        obtain ⟨p, hp, rfl⟩ := List.mem_map.mp known
        obtain ⟨peer, at_⟩ := List.mem_iff_getElem?.mp hp
        exact (h.known peer p at_).1
    | inr own => exact Nat.le_of_eq (List.mem_singleton.mp own)
  refine ⟨?_, ?_, ⟨k, Nat.le_refl k, i, leads, List.take_prefix _ _⟩, ?_⟩
  · apply List.ne_nil_of_length_pos
    rwa [List.length_take_of_le inside]
  · rw [Log.lastTerm_take inside, term]
  obtain ⟨Q, enough, all⟩ := exists_quorum_reached
    ((R.node k i).progress.map Progress.matched) (R.node k i).lastIndex
    (R.roster.peers_nodup i) (fun mem => (R.roster.mem_peers i i).mp mem rfl)
    (R.roster.length_peers i) (by rw [List.length_map, h.aligned])
  rw [← found] at all
  refine ⟨Q, enough, fun v hv => ?_⟩
  rcases all v hv with rfl | ⟨peer, m, target, matched, more⟩
  · exact ⟨k, Nat.le_refl k, leads.2, List.take_prefix _ _⟩
  · rw [List.getElem?_map] at matched
    obtain ⟨p, at_, rfl⟩ := Option.map_eq_some_iff.mp matched
    obtain ⟨w, target', held⟩ := (h.known peer p at_).2 (by omega)
    obtain rfl := Option.some.inj (target.symm.trans target')
    exact held.of_part (List.take_prefix_take_left more)

/-- Whatever is committed is settled. -/
theorem settled_upTo (k : Nat) : ∀ l ≤ k, ∀ i,
    R.Settled l (R.node l i).term ((R.node l i).log.take (R.node l i).commit) := by
  induction k with
  | zero =>
      intro l le i
      obtain rfl := Nat.le_zero.mp le
      exact .inl (by simp [node, member, state, System.start, Member.start, Node.start])
  | succ k ih =>
      intro l le i
      rcases Nat.lt_or_eq_of_le le with lt | rfl
      · exact ih l (Nat.le_of_lt_succ lt) i
      have later := R.later_succ k i
      have kept : (R.node (k + 1) i).commit = (R.node k i).commit →
          R.Settled (k + 1) (R.node (k + 1) i).term
            ((R.node (k + 1) i).log.take (R.node (k + 1) i).commit) := by
        intro same
        rw [same, later.committed]
        exact (ih k (Nat.le_refl k) i).mono (Nat.le_succ k) later.term
      have advanced : ∀ T, R.Leads (k + 1) i T → Node.Advances (R.node k i) (R.node (k + 1) i) →
          R.Settled (k + 1) (R.node (k + 1) i).term
            ((R.node (k + 1) i).log.take (R.node (k + 1) i).commit) := by
        intro T leads advances
        rcases advances with same | ⟨reached, found, more, upTo, term⟩
        · exact kept same
        · rw [leads.2] at term ⊢
          have chosen := (informed (k + 1) i T leads).chosen leads found (by omega) term
          exact .inr ⟨T, Nat.le_refl T, _, chosen, List.take_prefix_take_left upTo⟩
      cases R.change k i with
      | idle idle => exact kept idle.commit
      | records x peer sent reply _ _ _ _ _ _ role term _ _ advances =>
          exact advanced _ ⟨role, term⟩ advances
      | stages e _ _ role term _ _ advances => exact advanced _ ⟨role, term⟩ advances
      | wins T elects => exact advanced T elects.takesLead.2 elects.won.advances
      | takes x r hx hr taken =>
          obtain ⟨s, le, leads, tells⟩ := R.sent k x hx r hr
          rcases Nat.le_total (min (min r.commit r.lastIndex) (R.node (k + 1) i).lastIndex)
              (R.node k i).commit with less | more
          · exact kept (taken.commit.trans (Nat.max_eq_left less))
          have upTo : (R.node (k + 1) i).commit ≤ min r.commit r.lastIndex := by
            have := taken.commit.trans (Nat.max_eq_right more)
            omega
          have part := part_of_taken taken tells (matches_log k s i x.caller)
          have covered : (R.node (k + 1) i).commit ≤
              ((R.node s x.caller).log.take r.lastIndex).length := by
            rw [List.length_take_of_le tells.lastIndex_le]
            omega
          -- all that is committed here was committed at the sender when it made the request
          have source := ih s le x.caller
          rw [leads.2, ← tells.commit] at source
          rw [taken.term, tells.term, leads.2, Log.take_of_part part covered, List.take_take,
            Nat.min_eq_left (by omega)]
          exact (source.of_part (List.take_prefix_take_left (by omega))).mono (by omega)
            (Nat.le_refl _)

theorem settled (k : Nat) (i : Fin n) :
    R.Settled k (R.node k i).term ((R.node k i).log.take (R.node k i).commit) :=
  settled_upTo k k (Nat.le_refl k) i

/-- As far as two members have committed, they have committed the same. -/
theorem committed_eq {m : Nat} (hk : m ≤ (R.node k i).commit) (hl : m ≤ (R.node l j).commit) :
    (R.node k i).log.take m = (R.node l j).log.take m := by
  have boundK : (R.node k i).commit ≤ (R.node k i).log.length := (R.sound k i).bound
  have boundL : (R.node l j).commit ≤ (R.node l j).log.length := (R.sound l j).bound
  have length : ((R.node k i).log.take m).length = ((R.node l j).log.take m).length := by
    rw [List.length_take_of_le (by omega), List.length_take_of_le (by omega)]
  have comparable := ((settled k i).comparable (settled l j)).of_prefixes
    (List.take_prefix_take_left hk) (List.take_prefix_take_left hl)
  cases comparable with
  | inl h => exact h.eq_of_length length
  | inr h => exact (h.eq_of_length length.symm).symm

/-- Committed prefixes agree on their common length, at any two members and any two moments; so
    equal commit indices mean equal stores, and what is committed is there for good. -/
theorem committed_logs_agree (R : Run n) :
    (∀ k i l j (m : Nat), m ≤ (R.node k i).commit → m ≤ (R.node l j).commit →
      (R.node k i).log.take m = (R.node l j).log.take m) ∧
    (∀ k i l j, (R.node k i).commit = (R.node l j).commit →
      (R.node k i).store = (R.node l j).store) ∧
    ∀ k l i, k ≤ l → (R.node k i).commit ≤ (R.node l i).commit ∧
      (R.node l i).log.take (R.node k i).commit = (R.node k i).log.take (R.node k i).commit ∧
      (R.node k i).commit ≤ (R.node k i).log.length := by
  refine ⟨?_, ?_, ?_⟩
  · intro k i l j m hk hl
    exact committed_eq hk hl
  · intro k i l j same
    rw [(R.sound k i).replayed, (R.sound l j).replayed, same,
      committed_eq (Nat.le_of_eq same.symm) (Nat.le_refl _)]
  · intro k l i le
    have later := R.later le i
    exact ⟨later.commit, later.committed, (R.sound k i).bound⟩

theorem committed_logs_agree_in_the_sample :
    (sample.node 8 0).commit = 2 ∧ (sample.node 10 1).commit = 2 ∧
      (sample.node 8 0).log.take 2 = (sample.node 10 1).log.take 2 ∧
      (sample.node 8 0).store = (sample.node 10 1).store := by
  have first : (sample.node 8 0).commit = 2 := by decide +kernel
  have second : (sample.node 10 1).commit = 2 := by decide +kernel
  obtain ⟨logs, stores, _⟩ := committed_logs_agree sample
  refine ⟨first, second, ?_, stores 8 0 10 1 (first.trans second.symm)⟩
  exact logs 8 0 10 1 2 (Nat.le_of_eq first.symm) (Nat.le_of_eq second.symm)

end QuorumStore.Run
