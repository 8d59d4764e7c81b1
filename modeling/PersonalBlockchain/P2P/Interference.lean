import Std.Data.String.ToNat
import PersonalBlockchain.P2P.Connections
import PersonalBlockchain.P2P.Gossip

/-!
# Personal blockchain — what one peer does to the requests of another

Repeated messages are dropped, and one table of what came before serves all
connections. A request is answered unless it repeats what came before, so the
same request of another peer can take its answer away. There is a second way: a
peer on the same host that registers the listen port of another shares its
endpoint, and when that endpoint is banned the first connection that bears it is
closed.

Two runs are compared, with and without the messages of the other peer. `Alike` is
what their nodes have in common step by step: the first one recalls all that the
second one does, and what it recalls besides was sent by that peer.

## Results

* `answered_eq` — a request is answered exactly when it is admitted over an open
  connection and its answer finds room;
* `requests_not_swallowed` — in two runs of a node that differ by the messages of
  one peer, the same requests of another are answered, as long as none of them
  repeats a message of the first and the connection takes answers in both runs at
  the same time;
* `requests_not_swallowed_counterexample` — two peers ask for the chain within a
  second, and one of them gets it.
-/

namespace PersonalBlockchain

open Std FiniteMap Locking Routine NodeM Machine

variable {S : NodeSetup} {env : Env} {node node' : Node} {p q : PeerId} {key : String}
  {msg : Message} {t : Instant} {tr : List (Entry Node NodeEvent Unit)}
  {e e' : Entry Node NodeEvent Unit}

/-! ## The window -/

/-- A message with this key is a repetition at this time. -/
def Node.recalls (S : NodeSetup) (key : String) (t : Instant) (node : Node) : Bool :=
  match node.messageDedup[key]? with
  | some last => inSeconds (t - last) < S.options.timeouts.dedupWindowSec
  | none => false

theorem inDedupWindow_eq : inDedupWindow S env msg node =
    node.recalls S (dedupKey S msg) env.steady := rfl

theorem recalls_iff : node.recalls S key t = true ↔ ∃ last, node.messageDedup[key]? = some last ∧
    inSeconds (t - last) < S.options.timeouts.dedupWindowSec := by
  unfold Node.recalls
  cases node.messageDedup[key]? with
  | none => simp
  | some last => simp

theorem recalls_congr (h : node'.messageDedup = node.messageDedup) :
    node'.recalls S key t = node.recalls S key t := by
  rw [Node.recalls, Node.recalls, h]

theorem inSeconds_sub_le {t' last : Instant} (h : t ≤ t') :
    inSeconds (t - last) ≤ inSeconds (t' - last) :=
  Int.tdiv_le_tdiv (by decide) (Int.sub_le_sub_right h last)

/-- What has left the window does not come back. -/
theorem recalls_of_le {t' : Instant} (hle : t ≤ t') (h : node.recalls S key t' = true) :
    node.recalls S key t = true := by
  obtain ⟨last, hlast, hage⟩ := recalls_iff.mp h
  exact recalls_iff.mpr ⟨last, hlast, (inSeconds_sub_le hle).trans_lt hage⟩

/-- What is forgotten has left the window. -/
theorem recalls_remembered (hmsg : ¬ (msg.type = .ping ∨ msg.type = .pong))
    (hdedup : node'.messageDedup = node.remembered S env msg) (hle : env.steady ≤ t) :
    node'.recalls S key t =
      if dedupKey S msg = key then
        decide (inSeconds (t - env.steady) < S.options.timeouts.dedupWindowSec)
      else node.recalls S key t := by
  -- what the filter keeps is what is young enough at the later reading as well
  have hkept : node'.recalls S key t = true ↔
      ∃ last, (node.messageDedup.insert (dedupKey S msg) env.steady)[key]? = some last ∧
        inSeconds (t - last) < S.options.timeouts.dedupWindowSec := by
    simp only [recalls_iff, hdedup, Node.remembered, if_neg hmsg, getElem?_filter_eq_some]
    refine exists_congr fun last => ?_
    constructor
    · rintro ⟨⟨hlast, -⟩, hage⟩
      exact ⟨hlast, hage⟩
    · rintro ⟨hlast, hage⟩
      have hyoung : inSeconds (env.steady - last) < S.options.timeouts.dedupWindowSec :=
        (inSeconds_sub_le hle).trans_lt hage
      exact ⟨⟨hlast, decide_eq_true hyoung.le⟩, hage⟩
  rw [Bool.eq_iff_iff, hkept, getElem?_insert_eq]
  split
  · simp
  · exact recalls_iff.symm

/-! ## Requests and answers -/

/-- The type of the answer to a request. -/
def MessageType.answer : MessageType → Option MessageType
  | requestChain => some .responseChain
  | registerNode | requestBootstrap => some .responseBootstrap
  | requestPeers => some .responsePeers
  | _ => none

/-- Keys of messages of different types differ. -/
theorem type_of_dedupKey {msg' : Message} (h : dedupKey S msg = dedupKey S msg') :
    msg.type = msg'.type := by
  have hdigits : ∀ type : MessageType, ∀ c ∈ (toString type.number).toList, (c != ':') = true := by
    intro type
    exact List.all_eq_true.mp (by cases type <;> rfl)
  have hnumber : (toString msg.type.number).toList = (toString msg'.type.number).toList := by
    -- what stands before the colon
    have hlist := congrArg (fun s => s.toList.takeWhile (· != ':')) h
    simpa only [dedupKey, String.toList_append, List.append_assoc,
      List.takeWhile_append_of_pos (hdigits _), String.reduceToList, List.cons_append,
      List.takeWhile_cons, bne_self_eq_false, Bool.false_eq_true, if_false, List.append_nil]
      using hlist
  have hinjective : ∀ type type' : MessageType, type.number = type'.number → type = type' := by
    intro type type'
    cases type <;> cases type' <;> simp [MessageType.number]
  exact hinjective _ _ (Nat.repr_injective (String.toList_injective hnumber))

/-! ## What a message does -/

/-- No handler enters a message into the cache; `handleAdmitted` does. -/
theorem remember_not_mem_changes : NodeChange.remember ∉ msg.changes p key := by
  unfold Message.changes
  split <;> simp

theorem count_not_mem_changes : NodeChange.count q ∉ msg.changes p key := by
  unfold Message.changes
  split <;> simp

/-- Only an admitted message is remembered. -/
theorem handled_messageDedup (h : handleMessage S env p msg [] node = (.returned (), node'))
    (hlimited : node.Limited S) : node'.messageDedup =
      if node.Admits S env p msg then node.remembered S env msg else node.messageDedup := by
  split
  -- an admitted message is remembered before it is dispatched, and by nothing after that
  next hadmits =>
    obtain ⟨mid, hdispatch, rfl⟩ := handleMessage_returned hadmits h
    have htouches : Touches S env (msg.changes p (node.connection p).getEndpoint) []
        (dispatch S env p (node.connection p).getEndpoint msg) := dispatch_touches
    have hsteps := htouches (node.received S env p msg)
    rw [hdispatch] at hsteps
    exact (keeps_of_changes hsteps hlimited
      (I := fun last => last.messageDedup = node.remembered S env msg)
      (fun c hc _ _ hleads hI => (hleads.frame.messageDedup
        fun heq => remember_not_mem_changes (heq ▸ hc)).trans hI) rfl).1
  next hdropped =>
    rcases handleMessage_dropped hdropped h with ⟨-, rfl⟩ | ⟨-, rfl⟩
    · have hcounted : (node.counted env p).Limited S := hlimited
      have hframe : (NodeChange.penalize (node.connection p).getEndpoint).Frame
          (node.counted env p) ((node.counted env p).penalized S env
            (node.connection p).getEndpoint PeerScorer.penaltyInvalidTx) :=
        penalized_frame hcounted
      exact hframe.messageDedup nofun
    · rfl

/-- A message is counted for its own connection, whatever becomes of it. -/
theorem handled_messageTimes (h : handleMessage S env p msg [] node = (.returned (), node'))
    (hlimited : node.Limited S) (hlisted : node.Listed) (hp : p < node.nextPeer) :
    (node'.connection p).messageTimes = (node.connection p).recentTimes env.steady := by
  have hcount : (NodeChange.count p).Leads env.steady node (node.counted env p) := counted_leads
  have hlisted' := hcount.listed hlisted
  rw [messageTimes_of_changes (handleMessage_counted h) hlimited hlisted' hp ?_]
  · exact congrArg Peer.messageTimes (updatePeer_connection.trans (if_pos rfl))
  · rintro (hc | hc)
    · simp at hc
    · exact count_not_mem_changes hc

theorem send_run : NodeM.send p msg [] node =
    (.returned (), node.updatePeer p fun peer => peer.send msg) :=
  withLock_run List.not_mem_nil

/-- The `switch` sends the answer to a request. -/
theorem dispatch_request {type : MessageType} (hanswer : msg.type.answer = some type)
    (h : dispatch S env p key msg [] node = (.returned (), node')) :
    ∃ payload, node'.connection p = (node.connection p).send ⟨type, payload⟩ := by
  -- a case that ends with one `send`
  have hsent : ∀ {x : NodeM Unit} {mid : Node} {payload : Json}, x [] node = (.returned (), node') →
      x [] node = NodeM.send p ⟨type, payload⟩ [] mid → mid.connection = node.connection →
      ∃ payload, node'.connection p = (node.connection p).send ⟨type, payload⟩ := by
    intro x mid payload hx hsend hmid
    have hlast := congrArg (fun r => r.2.connection p) (hx.symm.trans (hsend.trans send_run))
    exact ⟨payload, hlast.trans ((if_pos rfl).trans (by rw [hmid]))⟩
  obtain ⟨mtype, payload⟩ := msg
  cases mtype
  all_goals try cases hanswer
  case requestChain => exact hsent h rfl rfl
  case requestBootstrap => exact hsent h rfl rfl
  case requestPeers => exact hsent h rfl rfl
  case registerNode =>
    change onRegisterNode env p payload [] node = _ at h
    rw [onRegisterNode] at h
    -- the endpoint is read before the answer is sent
    cases hendpoint : payload.value Json.getString "endpoint" "" with
    | error e =>
      rw [hendpoint, bind_run_threw rfl] at h
      cases h
    | ok endpoint =>
      rw [hendpoint, bind_run rfl, registered, ite_run] at h
      split at h
      · exact hsent h rfl rfl
      · exact hsent h rfl rfl

/-! ## Requests of one peer -/

/-- The sender of a message. -/
def NodeEvent.sender : NodeEvent → Option PeerId
  | .input _ (.message p _) => some p
  | _ => none

/-- The type of the answer that a request of `p` asks for. -/
def NodeEvent.asks (p : PeerId) : NodeEvent → Option MessageType
  | .input _ (.message q msg) => if q = p then msg.type.answer else none
  | _ => none

/-- The requests of `p`, in order. -/
def requests (p : PeerId) (tr : List (Entry Node NodeEvent Unit)) :
    List (Entry Node NodeEvent Unit) :=
  tr.filter fun e => (e.call.asks p).isSome

/-- The request came over an open connection, the queue for `p` has one message more,
and this is an answer to the request. Over a closed connection nothing is read, and
nothing that is queued for it is ever written. -/
def answered (p : PeerId) (e : Entry Node NodeEvent Unit) : Bool :=
  match e.call.asks p with
  | some type =>
    (e.pre.connection p).isOpen &&
      (e.post.connection p).writeQueue.length = (e.pre.connection p).writeQueue.length + 1 &&
        (e.post.connection p).writeQueue.getLast?.map Message.type = some type
  | none => false

/-- The connection of `p` is open and its queue is not full. -/
def takesAnswer (p : PeerId) (e : Entry Node NodeEvent Unit) : Bool :=
  (e.pre.connection p).isOpen && (e.pre.connection p).writeQueue.length < Peer.maxWriteQueue

/-- An event that asks is a message with a request in it. -/
theorem asks_eq_some {event : NodeEvent} {type : MessageType} (h : event.asks p = some type) :
    ∃ env msg, event = .input env (.message p msg) ∧ msg.type.answer = some type := by
  unfold NodeEvent.asks at h
  split at h
  next env q msg =>
    split at h
    next heq => exact ⟨env, msg, heq ▸ rfl, h⟩
    next => cases h
  next => cases h

/-- A request is answered when it is admitted over an open connection and its answer
finds room. -/
theorem answered_eq {type : MessageType}
    (hstep : nodeStep S e.call e.pre = some (e.ret, e.post)) (hlimited : e.pre.Limited S)
    (hcall : e.call = .input env (.message p msg)) (hanswer : msg.type.answer = some type) :
    answered p e = (decide (e.pre.Admits S env p msg) && takesAnswer p e) := by
  have hasks : e.call.asks p = some type := by
    rw [hcall]
    exact (if_pos rfl).trans hanswer
  have hcounted : ((e.pre.counted env p).connection p).writeQueue =
      (e.pre.connection p).writeQueue :=
    (congrArg Peer.writeQueue (updatePeer_connection.trans (if_pos rfl))).trans rfl
  rw [hcall] at hstep
  have hreturned := handlerReturned_eq_some.mp hstep
  simp only [answered, hasks, takesAnswer]
  -- what gets past the filters is answered when the queue has room
  by_cases hadmits : e.pre.Admits S env p msg
  · obtain ⟨mid, hdispatch, hpost⟩ := handleMessage_returned hadmits hreturned
    obtain ⟨payload, hmid⟩ := dispatch_request hanswer hdispatch
    have hqueue : (e.post.connection p).writeQueue =
        (((e.pre.counted env p).connection p).send ⟨type, payload⟩).writeQueue := by
      rw [hpost]
      exact congrArg Peer.writeQueue hmid
    rw [hqueue, Peer.send, hcounted, decide_eq_true hadmits, Bool.true_and]
    split
    next hfull => simp [hcounted, Nat.not_lt.mpr hfull]
    next hroom => simp [Nat.not_le.mp hroom]
  · -- a filter drops the message, and may penalize, which queues nothing
    have hqueue : (e.post.connection p).writeQueue = (e.pre.connection p).writeQueue := by
      rcases handleMessage_dropped hadmits hreturned with ⟨-, hpost⟩ | ⟨-, hpost⟩
      · have htouches : Touches S env {.quiet, .penalize (e.pre.connection p).getEndpoint,
            .shut (e.pre.connection p).getEndpoint} [] (penalizePeerByEndpoint S env
              (e.pre.connection p).getEndpoint PeerScorer.penaltyInvalidTx) :=
          penalizePeerByEndpoint_touches (.inl rfl) (.inr (.inl rfl)) (.inr (.inr rfl))
        rw [hpost, ← hcounted]
        refine writeQueue_of_changes (htouches (e.pre.counted env p)) hlimited ?_
        rintro c (rfl | rfl | rfl)
        · exact .inl rfl
        · exact .inr (.inl ⟨_, rfl⟩)
        · exact .inr (.inr ⟨_, rfl⟩)
      · rw [hpost, hcounted]
    rw [hqueue, decide_eq_false hadmits]
    simp

/-! ## Whose message is remembered -/

/-- The sender of a message that is remembered under this key. -/
def NodeEvent.records (S : NodeSetup) (key : String) (node : Node) : NodeEvent → Option PeerId
  | .input env (.message p msg) =>
    if node.Admits S env p msg ∧ ¬ (msg.type = .ping ∨ msg.type = .pong) ∧ dedupKey S msg = key
    then some p else none
  | _ => none

/-- The sender of the message that was remembered last under this key. -/
def lastRecorder (S : NodeSetup) (key : String) (tr : List (Entry Node NodeEvent Unit)) :
    Option PeerId :=
  (tr.filterMap fun e => e.call.records S key e.pre).getLast?

theorem lastRecorder_append : lastRecorder S key (tr ++ [e]) =
    (e.call.records S key e.pre).or (lastRecorder S key tr) := by
  rw [lastRecorder, List.filterMap_append, List.getLast?_append]
  cases hrecords : e.call.records S key e.pre <;> simp [hrecords, lastRecorder]

/-- What is recorded was admitted, and is no ping or pong. -/
theorem records_eq_some {event : NodeEvent} : event.records S key node = some q ↔
    ∃ env msg, event = .input env (.message q msg) ∧ node.Admits S env q msg ∧
      ¬ (msg.type = .ping ∨ msg.type = .pong) ∧ dedupKey S msg = key := by
  constructor
  · intro h
    unfold NodeEvent.records at h
    split at h
    next env p msg =>
      split at h
      next hrecords =>
        cases h
        exact ⟨env, msg, rfl, hrecords⟩
      next => cases h
    next => cases h
  · rintro ⟨env, msg, rfl, hrecords⟩
    exact if_pos hrecords

theorem unremembered_of_event {event : NodeEvent} (h : event.sender = none) :
    NodeChange.remember ∉ event.changes node := by
  cases event with
  | input env input => cases input <;> simp_all [NodeEvent.sender, NodeEvent.changes,
      NodeInput.changes]
  | _ => simp [NodeEvent.changes]

theorem uncounted_of_event {event : NodeEvent} (h : event.sender ≠ some p) :
    NodeChange.count p ∉ event.changes node := by
  cases event with
  | input env input =>
    cases input with
    | message q msg =>
      rintro (hc | hc)
      · have hpq : p ≠ q := fun heq => h (heq ▸ rfl)
        simp [hpq] at hc
      · exact count_not_mem_changes hc
    | _ => simp_all [NodeEvent.changes, NodeInput.changes]
  | _ => simp [NodeEvent.changes]

theorem sender_eq_some {event : NodeEvent} (h : event.sender = some p) :
    ∃ env msg, event = .input env (.message p msg) := by
  unfold NodeEvent.sender at h
  split at h
  next env q msg =>
    cases h
    exact ⟨env, msg, rfl⟩
  next => cases h

/-- What is remembered is recalled while it is in the window. -/
theorem recalls_of_records {event : NodeEvent} {u : Unit}
    (hstep : nodeStep S event node = some (u, node')) (hlimited : node.Limited S)
    (hrecords : event.records S key node = some q) (hle : event.steady ≤ t) :
    node'.recalls S key t =
      decide (inSeconds (t - event.steady) < S.options.timeouts.dedupWindowSec) := by
  obtain ⟨env, msg, rfl, hadmits, hheart, hkey⟩ := records_eq_some.mp hrecords
  have hdedup := handled_messageDedup (handlerReturned_eq_some.mp hstep) hlimited
  rw [if_pos hadmits] at hdedup
  exact (recalls_remembered hheart hdedup hle).trans (if_pos hkey)

/-- Whatever else happens, nothing is recalled or forgotten from then on. -/
theorem recalls_of_not_records {event : NodeEvent} {u : Unit}
    (hstep : nodeStep S event node = some (u, node')) (hlimited : node.Limited S)
    (hrecords : event.records S key node = none)
    (hle : event.sender.isSome = true → event.steady ≤ t) :
    node'.recalls S key t = node.recalls S key t := by
  -- only a message writes the table, and then under its own key
  cases hsender : event.sender with
  | none =>
    refine recalls_congr (keeps_of_changes (nodeStep_changes hstep) hlimited
      (I := fun last => last.messageDedup = node.messageDedup) (fun c hc _ _ hleads hI => ?_) rfl).1
    refine (hleads.frame.messageDedup fun heq => ?_).trans hI
    exact unremembered_of_event hsender (heq ▸ hc)
  | some p =>
    obtain ⟨env, msg, rfl⟩ := sender_eq_some hsender
    have hdedup := handled_messageDedup (handlerReturned_eq_some.mp hstep) hlimited
    split at hdedup
    next hadmits =>
      by_cases hheart : msg.type = .ping ∨ msg.type = .pong
      · exact recalls_congr (hdedup.trans (if_pos hheart))
      · refine (recalls_remembered hheart hdedup (hle rfl)).trans (if_neg fun hkey => ?_)
        rw [records_eq_some.mpr ⟨env, msg, rfl, hadmits, hheart, hkey⟩] at hrecords
        cases hrecords
    next => exact recalls_congr hdedup

/-! ## Two runs -/

/-- A request of `p` within its limit is dropped, as a repetition of a message
that `q` sent. -/
def NodeEvent.swallowed (S : NodeSetup) (p q : PeerId) (tr : List (Entry Node NodeEvent Unit))
    (node : Node) : NodeEvent → Bool
  | .input env (.message sender msg) =>
    sender = p && msg.type.answer.isSome && !node.senderLimited env p &&
      decide (node.repeated S env msg) && lastRecorder S (dedupKey S msg) tr = some q
  | _ => false

/-- The steady clock has not gone back since the messages before. -/
def InOrder (tr : List (Entry Node NodeEvent Unit)) (e : Entry Node NodeEvent Unit) : Prop :=
  e.call.sender.isSome = true →
    ∀ e' ∈ tr, e'.call.sender.isSome = true → e'.call.steady ≤ e.call.steady

instance : Decidable (InOrder tr e) := inferInstanceAs (Decidable (_ → _))

/-- A node as it is while `p` is connected. -/
structure Node.Serves (S : NodeSetup) (p : PeerId) (node : Node) : Prop where
  limited : node.Limited S
  listed : node.Listed
  known : p < node.nextPeer

theorem Node.Serves.step {event : NodeEvent} {u : Unit} (h : node.Serves S p)
    (hstep : nodeStep S event node = some (u, node')) : node'.Serves S p :=
  ⟨nodeStep_limited hstep h.limited, nodeStep_listed hstep h.limited h.listed,
    h.known.trans_le (nodeStep_nextPeer_le hstep h.limited)⟩

/-- The node of a run, and the node of the run without the messages of `q`. What
the second one recalls, the first one recalls, and the other way round unless `q`
sent it last. -/
structure Alike (S : NodeSetup) (p q : PeerId) (tr : List (Entry Node NodeEvent Unit))
    (node node' : Node) : Prop where
  serves : node.Serves S p
  serves' : node'.Serves S p
  times : (node'.connection p).messageTimes = (node.connection p).messageTimes
  fewer : ∀ msg : Message, msg.type.answer.isSome = true → ∀ t,
    (∀ e ∈ tr, e.call.sender.isSome = true → e.call.steady ≤ t) →
    node'.recalls S (dedupKey S msg) t = true → node.recalls S (dedupKey S msg) t = true
  others : ∀ msg : Message, msg.type.answer.isSome = true → ∀ t,
    (∀ e ∈ tr, e.call.sender.isSome = true → e.call.steady ≤ t) →
    lastRecorder S (dedupKey S msg) tr ≠ some q →
    node.recalls S (dedupKey S msg) t = true → node'.recalls S (dedupKey S msg) t = true

/-- The window of the rate limit depends on the times only. -/
theorem recentTimes_congr
    (h : (node'.connection p).messageTimes = (node.connection p).messageTimes) :
    (node'.connection p).recentTimes t = (node.connection p).recentTimes t := by
  rw [Peer.recentTimes, Peer.recentTimes, h]

theorem senderLimited_congr
    (h : (node'.connection p).messageTimes = (node.connection p).messageTimes) :
    node'.senderLimited env p = node.senderLimited env p :=
  congrArg (fun times : List Instant => decide (100 < Int32.ofNat times.length))
    (recentTimes_congr h)

/-- A step whose sender is not `p` leaves the limiter of `p` alone. -/
theorem messageTimes_of_step {event : NodeEvent} {u : Unit} (h : node.Serves S p)
    (hstep : nodeStep S event node = some (u, node')) (hsender : event.sender ≠ some p) :
    (node'.connection p).messageTimes = (node.connection p).messageTimes :=
  messageTimes_of_changes (nodeStep_changes hstep) h.limited h.listed h.known
    (uncounted_of_event hsender)

/-- A message of `q` that the second node does not get. -/
theorem Alike.skip {t' : Node} (h : Alike S p q tr e.pre t') (horder : InOrder tr e)
    (hstep : nodeStep S e.call e.pre = some (e.ret, e.post)) (hq : e.call.sender = some q)
    (hpq : p ≠ q) : Alike S p q (tr ++ [e]) e.post t' := by
  have hsome : e.call.sender.isSome = true := by rw [hq]; rfl
  have hother : e.call.sender ≠ some p := by
    rw [hq]
    exact fun heq => hpq (Option.some.inj heq).symm
  refine ⟨h.serves.step hstep, h.serves',
    h.times.trans (messageTimes_of_step h.serves hstep hother).symm, ?_, ?_⟩
  · intro msg hrequest t ht hrecalls
    have hle : e.call.steady ≤ t := ht e (by simp) hsome
    have ht' : ∀ e' ∈ tr, e'.call.sender.isSome = true → e'.call.steady ≤ t :=
      fun e' he' => ht e' (List.mem_append_left _ he')
    cases hrecords : e.call.records S (dedupKey S msg) e.pre with
    | none =>
      rw [recalls_of_not_records hstep h.serves.limited hrecords fun _ => hle]
      exact h.fewer msg hrequest t ht' hrecalls
    | some r =>
      -- it is remembered, so neither node recalled it
      obtain ⟨env, msg', hcall, hadmits, hheart, hkey⟩ := records_eq_some.mp hrecords
      have hbefore := h.fewer msg hrequest env.steady (fun e' he' hsome' => by
        have hle' := horder hsome e' he' hsome'
        rwa [hcall] at hle') (recalls_of_le (by rwa [hcall] at hle) hrecalls)
      refine absurd ⟨(not_or.mp hheart).1, (not_or.mp hheart).2, ?_⟩ hadmits.unrepeated
      rwa [inDedupWindow_eq, hkey]
  · intro msg hrequest t ht hrecorder hrecalls
    rw [lastRecorder_append] at hrecorder
    cases hrecords : e.call.records S (dedupKey S msg) e.pre with
    | none =>
      rw [hrecords, Option.none_or] at hrecorder
      rw [recalls_of_not_records hstep h.serves.limited hrecords fun hsome => ht e (by simp) hsome]
        at hrecalls
      exact h.others msg hrequest t (fun e' he' => ht e' (List.mem_append_left _ he')) hrecorder
        hrecalls
    | some r =>
      obtain ⟨env, msg', hcall, -⟩ := records_eq_some.mp hrecords
      rw [hcall] at hq
      rw [hrecords] at hrecorder
      exact absurd hq hrecorder

/-- Both nodes admit a request of `p`, or neither, unless it is swallowed. -/
theorem Alike.admits (h : Alike S p q tr e.pre e'.pre) (horder : InOrder tr e)
    (hstep : nodeStep S e.call e.pre = some (e.ret, e.post))
    (hstep' : nodeStep S e'.call e'.pre = some (e'.ret, e'.post)) (hcalls : e'.call = e.call)
    (hcall : e.call = .input env (.message p msg)) (hrequest : msg.type.answer.isSome = true)
    (hfree : e.call.swallowed S p q tr e.pre = false) :
    e'.pre.Admits S env p msg ↔ e.pre.Admits S env p msg := by
  have hlimited : e'.pre.senderLimited env p = e.pre.senderLimited env p :=
    senderLimited_congr h.times
  have hsofar : ∀ e' ∈ tr, e'.call.sender.isSome = true → e'.call.steady ≤ env.steady := by
    intro e' he' hsome
    have hle := horder (by rw [hcall]; rfl) e' he' hsome
    rwa [hcall] at hle
  rw [hcalls] at hstep'
  rw [hcall] at hstep hstep' hfree
  have hunbanned := unbanned_of_returned (handlerReturned_eq_some.mp hstep)
  have hunbanned' := unbanned_of_returned (handlerReturned_eq_some.mp hstep')
  constructor
  · intro hadmits
    refine ⟨hunbanned, hlimited ▸ hadmits.unlimited, fun hrepeated => ?_⟩
    -- what the first recalls is not from `q`
    have hnot : lastRecorder S (dedupKey S msg) tr ≠ some q := by
      intro hrecorder
      have hunlimited : e.pre.senderLimited env p = false := hlimited ▸ hadmits.unlimited
      simp [NodeEvent.swallowed, hrequest, hunlimited, hrepeated, hrecorder] at hfree
    exact hadmits.unrepeated ⟨hrepeated.1, hrepeated.2.1,
      h.others msg hrequest env.steady hsofar hnot hrepeated.2.2⟩
  · intro hadmits
    refine ⟨hunbanned', hlimited ▸ hadmits.unlimited, fun hrepeated => ?_⟩
    exact hadmits.unrepeated ⟨hrepeated.1, hrepeated.2.1,
      h.fewer msg hrequest env.steady hsofar hrepeated.2.2⟩

/-- An event that both nodes get, which is no message but of `p`. -/
theorem Alike.both (h : Alike S p q tr e.pre e'.pre) (horder : InOrder tr e)
    (hstep : nodeStep S e.call e.pre = some (e.ret, e.post))
    (hstep' : nodeStep S e'.call e'.pre = some (e'.ret, e'.post)) (hcalls : e'.call = e.call)
    (hfree : e.call.swallowed S p q tr e.pre = false)
    (hsender : e.call.sender = none ∨ e.call.sender = some p) (hpq : p ≠ q) :
    Alike S p q (tr ++ [e]) e.post e'.post := by
  have hrecords : ∀ msg : Message, msg.type.answer.isSome = true →
      e'.call.records S (dedupKey S msg) e'.pre = e.call.records S (dedupKey S msg) e.pre := by
    intro msg hrequest
    refine Option.ext fun r => ?_
    rw [records_eq_some, records_eq_some, hcalls]
    refine exists₂_congr fun env msg' => and_congr_right fun hcall => ?_
    refine and_congr_left fun hkey => ?_
    obtain rfl : r = p := by
      rw [hcall] at hsender
      exact hsender.elim nofun fun heq => Option.some.inj heq
    exact h.admits horder hstep hstep' hcalls hcall (type_of_dedupKey hkey.2 ▸ hrequest) hfree
  have htimes : (e'.post.connection p).messageTimes = (e.post.connection p).messageTimes := by
    by_cases hp : e.call.sender = some p
    · obtain ⟨env, msg, hcall⟩ := sender_eq_some hp
      rw [hcalls] at hstep'
      rw [hcall] at hstep hstep'
      rw [handled_messageTimes (handlerReturned_eq_some.mp hstep) h.serves.limited h.serves.listed
        h.serves.known, handled_messageTimes (handlerReturned_eq_some.mp hstep') h.serves'.limited
        h.serves'.listed h.serves'.known, recentTimes_congr h.times]
    · rw [messageTimes_of_step h.serves hstep hp, messageTimes_of_step h.serves' hstep'
        (hcalls ▸ hp), h.times]
  -- from the time of the event on, both have the message or neither
  have hsame : ∀ msg : Message, msg.type.answer.isSome = true → ∀ t,
      (∀ e' ∈ tr ++ [e], e'.call.sender.isSome = true → e'.call.steady ≤ t) →
      ((e.post.recalls S (dedupKey S msg) t = e.pre.recalls S (dedupKey S msg) t ∧
        e'.post.recalls S (dedupKey S msg) t = e'.pre.recalls S (dedupKey S msg) t ∧
        lastRecorder S (dedupKey S msg) (tr ++ [e]) = lastRecorder S (dedupKey S msg) tr) ∨
      e'.post.recalls S (dedupKey S msg) t = e.post.recalls S (dedupKey S msg) t) := by
    intro msg hrequest t ht
    have hle : e.call.sender.isSome = true → e.call.steady ≤ t := ht e (by simp)
    have hrecords' := hrecords msg hrequest
    cases hrecord : e.call.records S (dedupKey S msg) e.pre with
    | none =>
      rw [hrecord] at hrecords'
      refine .inl ⟨recalls_of_not_records hstep h.serves.limited hrecord hle,
        recalls_of_not_records hstep' h.serves'.limited hrecords' (hcalls ▸ hle), ?_⟩
      rw [lastRecorder_append, hrecord, Option.none_or]
    | some r =>
      rw [hrecord] at hrecords'
      have hmessage : e.call.sender.isSome = true := by
        obtain ⟨env, msg', hcall, -⟩ := records_eq_some.mp hrecord
        rw [hcall]
        rfl
      rw [recalls_of_records hstep h.serves.limited hrecord (hle hmessage),
        recalls_of_records hstep' h.serves'.limited hrecords' (hcalls ▸ hle hmessage), hcalls]
      exact .inr rfl
  refine ⟨h.serves.step hstep, h.serves'.step hstep', htimes, ?_, ?_⟩
  · intro msg hrequest t ht hrecalls
    rcases hsame msg hrequest t ht with ⟨hfirst, hsecond, -⟩ | heq
    · rw [hfirst]
      exact h.fewer msg hrequest t (fun e' he' => ht e' (List.mem_append_left _ he'))
        (hsecond ▸ hrecalls)
    · exact heq ▸ hrecalls
  · intro msg hrequest t ht hrecorder hrecalls
    rcases hsame msg hrequest t ht with ⟨hfirst, hsecond, hlast⟩ | heq
    · rw [hsecond]
      exact h.others msg hrequest t (fun e' he' => ht e' (List.mem_append_left _ he'))
        (hlast ▸ hrecorder) (hfirst ▸ hrecalls)
    · exact heq ▸ hrecalls

/-- The same request in two runs: it is answered in both or in neither, as far as
the connection takes an answer. -/
def SameAnswer (p : PeerId) (e e' : Entry Node NodeEvent Unit) : Prop :=
  e'.call = e.call ∧ ((e.call.asks p).isSome = true →
    ∃ admitted : Bool, answered p e = (admitted && takesAnswer p e) ∧
      answered p e' = (admitted && takesAnswer p e'))

/-- A request that both nodes get is answered by both or by neither, as far as
the connection takes an answer. -/
theorem Alike.answer (h : Alike S p q tr e.pre e'.pre) (horder : InOrder tr e)
    (hstep : nodeStep S e.call e.pre = some (e.ret, e.post))
    (hstep' : nodeStep S e'.call e'.pre = some (e'.ret, e'.post)) (hcalls : e'.call = e.call)
    (hfree : e.call.swallowed S p q tr e.pre = false) : SameAnswer p e e' := by
  refine ⟨hcalls, fun hasks => ?_⟩
  obtain ⟨type, hasks⟩ := Option.isSome_iff_exists.mp hasks
  obtain ⟨env, msg, hcall, hanswer⟩ := asks_eq_some hasks
  refine ⟨decide (e.pre.Admits S env p msg), answered_eq hstep h.serves.limited hcall hanswer, ?_⟩
  rw [answered_eq hstep' h.serves'.limited (hcalls.trans hcall) hanswer]
  have hadmits := h.admits horder hstep hstep' hcalls hcall (by rw [hanswer]; rfl) hfree
  simp only [hadmits]

theorem requests_cons (h : (e.call.asks p).isSome = true) :
    requests p (e :: tr) = e :: requests p tr := List.filter_cons_of_pos h

theorem requests_cons_of_not (h : ¬ (e.call.asks p).isSome = true) :
    requests p (e :: tr) = requests p tr := List.filter_cons_of_neg h

/-- Where an answer is taken to the same requests, the same requests are answered. -/
theorem answers_of_forall₂ {tr' : List (Entry Node NodeEvent Unit)}
    (h : List.Forall₂ (SameAnswer p) tr tr')
    (htakes : (requests p tr').map (takesAnswer p) = (requests p tr).map (takesAnswer p)) :
    (requests p tr').map (answered p) = (requests p tr).map (answered p) := by
  induction h with
  | nil => rfl
  | @cons e e' tr tr' hsame _ ih =>
    obtain ⟨hcalls, hanswers⟩ := hsame
    -- the two runs ask at the same places, and at each the one answers as the other
    by_cases hasks : (e.call.asks p).isSome = true
    · have hasks' : (e'.call.asks p).isSome = true := hcalls ▸ hasks
      obtain ⟨admitted, he, he'⟩ := hanswers hasks
      rw [requests_cons hasks, requests_cons hasks', List.map_cons, List.map_cons] at htakes ⊢
      obtain ⟨htakes, hrest⟩ := List.cons.inj htakes
      rw [he, he', htakes, ih hrest]
    · have hasks' : ¬ (e'.call.asks p).isSome = true := hcalls ▸ hasks
      rw [requests_cons_of_not hasks, requests_cons_of_not hasks'] at htakes ⊢
      exact ih htakes

/-- The requests are the same after events that ask for nothing are left out. -/
theorem requests_filter (keep : NodeEvent → Bool)
    (hkeep : ∀ event : NodeEvent, (event.asks p).isSome = true → keep event = true) :
    requests p (tr.filter fun e => keep e.call) = requests p tr := by
  rw [requests, List.filter_filter]
  refine List.filter_congr fun e _ => ?_
  cases hasks : (e.call.asks p).isSome with
  | false => rfl
  | true => rw [hkeep e.call hasks]; rfl

/-- **Requests that no other peer swallows.** From wherever `p` is connected,
take a run with messages of `p` and `q` on a clock that does not go back, and
the run of the same events without those of `q`. If no request of `p` within its
limit is dropped as a repetition of a message that `q` sent, and the connection
of `p` takes answers at the same requests in both runs, then the same requests
of `p` are answered. -/
theorem requests_not_swallowed (S : NodeSetup) (bootstrapNodes : List String)
    (blockchain : Blockchain) (storage : Option DataDir)
    (start : List (Entry Node NodeEvent Unit)) (node : Node)
    (hstart : NodeRun S (Node.create S bootstrapNodes blockchain storage) start node)
    (p q : PeerId) (hpq : p ≠ q) (hp : p < node.nextPeer)
    (tr tr' : List (Entry Node NodeEvent Unit)) (last last' : Node)
    (h : NodeRun S node tr last) (h' : NodeRun S node tr' last')
    (hsenders : ∀ e ∈ tr, e.call.sender = none ∨ e.call.sender = some p ∨ e.call.sender = some q)
    (hcalls : tr'.map Entry.call =
      (tr.map Entry.call).filter fun event => event.sender ≠ some q)
    (horder : Along InOrder tr)
    (hfree : Along (fun before e => e.call.swallowed S p q before e.pre = false) tr)
    (htakes : (requests p tr').map (takesAnswer p) = (requests p tr).map (takesAnswer p)) :
    (requests p tr').map (answered p) = (requests p tr).map (answered p) := by
  have hserves : node.Serves S p := by
    have hreached : node.Limited S ∧ node.Listed :=
      hstart.invariant (I := fun node => node.Limited S ∧ node.Listed)
        ⟨⟨rfl, rfl⟩, create_listed⟩ fun s event u s' ⟨hlimited, hlisted⟩ hs =>
          ⟨nodeStep_limited hs hlimited, nodeStep_listed hs hlimited hlisted⟩
    exact ⟨hreached.1, hreached.2, hp⟩
  -- run by run: what `q` sends is skipped, the rest is answered alike
  have hpairs : List.Forall₂ (SameAnswer p) (tr.filter fun e => e.call.sender ≠ some q) tr' := by
    refine (h.without (J := Alike S p q)
      (C := fun before e => (e.call.sender = none ∨ e.call.sender = some p ∨
        e.call.sender = some q) ∧ InOrder before e ∧ e.call.swallowed S p q before e.pre = false)
      ⟨hserves, hserves, rfl, fun _ _ _ _ hrecalls => hrecalls, fun _ _ _ _ _ hrecalls => hrecalls⟩
      ?_ ?_ (fun before e after heq => ⟨hsenders e (by simp [heq]), horder before e after heq,
        hfree before e after heq⟩) h' hcalls).2
    · intro tr e t hJ hC hstep hdropped
      exact hJ.skip hC.2.1 hstep (by simpa using hdropped) hpq
    · intro tr e e' hJ hC hstep hstep' hcall hkept
      obtain ⟨hsender, horder, hfree⟩ := hC
      have hsender' : e.call.sender = none ∨ e.call.sender = some p :=
        hsender.imp id fun hpeer => hpeer.resolve_right (by simpa using hkept)
      exact ⟨hJ.both horder hstep hstep' hcall hfree hsender' hpq,
        hJ.answer horder hstep hstep' hcall hfree⟩
  -- no request of `p` is dropped by leaving `q` out
  have hsame : requests p (tr.filter fun e => e.call.sender ≠ some q) = requests p tr := by
    refine requests_filter (fun event => event.sender ≠ some q) fun event hasks => ?_
    obtain ⟨type, hasks⟩ := Option.isSome_iff_exists.mp hasks
    obtain ⟨env, msg, rfl, -⟩ := asks_eq_some hasks
    simpa [NodeEvent.sender] using hpq
  rw [← hsame] at htakes ⊢
  exact answers_of_forall₂ hpairs htakes

/-! ## Two peers ask for the chain -/

section Sample

/-- The setup of the sample, with the digest of an empty object for the cache. -/
def requestSetup : NodeSetup :=
  setupOf [("\x7b\x7d", "44136fa355b3678a1146ad16f7e8649e94fb4fc21fe77e8310c060f61caaff8a")]

/-- The sample node. -/
def requestNode : Node := Node.create requestSetup [] sampleStart none

/-- Two connections, the first of the other peer. -/
def bothConnect : List NodeEvent :=
  [.input (sampleEnv 0) (.accepted (some ("10.0.0.2", 50000))),
    .input (sampleEnv 1) (.accepted (some ("10.0.0.3", 50000)))]

/-- The other peer asks for the chain at second 10, the peer at second 11. -/
def bothAsk : List NodeEvent :=
  [.input (sampleEnv 10) (.message 0 ⟨.requestChain, .object []⟩),
    .input (sampleEnv 11) (.message 1 ⟨.requestChain, .object []⟩)]

/-- The peer asks for the chain when the window is over. -/
def bothAskLater : List NodeEvent :=
  [.input (sampleEnv 10) (.message 0 ⟨.requestChain, .object []⟩),
    .input (sampleEnv 11) (.message 1 ⟨.requestPeers, .object []⟩),
    .input (sampleEnv 101) (.message 1 ⟨.requestChain, .object []⟩)]

end Sample

/-- The request of the second peer is answered without that of the first, and
not with it. -/
theorem requests_not_swallowed_counterexample :
    ∃ tr tr' last last', NodeRun requestSetup requestNode tr last ∧
      NodeRun requestSetup requestNode tr' last' ∧
      tr.map Entry.call = bothConnect ++ bothAsk ∧
      tr'.map Entry.call =
        (bothConnect ++ bothAsk).filter (fun event => event.sender ≠ some 0) ∧
      (requests 1 tr).map (answered 1) = [false] ∧
      (requests 1 tr').map (answered 1) = [true] := by
  obtain ⟨tr, last, hrun, hcalls, hanswers⟩ := Run.exists_of_exec_map (nodeStep requestSetup)
    (bothConnect ++ bothAsk) requestNode
    (fun r => decide ((requests 1 r.1).map (answered 1) = [false])) (by decide +kernel)
  obtain ⟨tr', last', hrun', hcalls', hanswers'⟩ := Run.exists_of_exec_map (nodeStep requestSetup)
    ((bothConnect ++ bothAsk).filter fun event => event.sender ≠ some 0) requestNode
    (fun r => decide ((requests 1 r.1).map (answered 1) = [true])) (by decide +kernel)
  exact ⟨tr, tr', last, last', hrun, hrun', hcalls, hcalls', of_decide_eq_true hanswers,
    of_decide_eq_true hanswers'⟩

/-- Different requests, and the same one later, are answered either way. -/
theorem requests_not_swallowed_later :
    ∃ tr tr' last last' node, NodeRun requestSetup node tr last ∧
      NodeRun requestSetup node tr' last' ∧
      tr.map Entry.call = bothAskLater ∧
      (requests 1 tr).map (answered 1) = [true, true] ∧
      (requests 1 tr').map (answered 1) = (requests 1 tr).map (answered 1) := by
  obtain ⟨start, node, hstart, hcheck⟩ := Run.exists_of_exec (nodeStep requestSetup) bothConnect
    requestNode (fun r => decide (1 < r.2.nextPeer) &&
      (Machine.exec (nodeStep requestSetup) bothAskLater r.2).any
        fun (first : List (Entry Node NodeEvent Unit) × Node) =>
        (Machine.exec (nodeStep requestSetup)
          (bothAskLater.filter fun event => event.sender ≠ some 0) r.2).any
        fun (second : List (Entry Node NodeEvent Unit) × Node) =>
        decide ((∀ e ∈ first.1, e.call.sender = none ∨ e.call.sender = some 1 ∨
            e.call.sender = some 0) ∧
          Along InOrder first.1 ∧
          Along (fun before e => e.call.swallowed requestSetup 1 0 before e.pre = false) first.1 ∧
          (requests 1 second.1).map (takesAnswer 1) = (requests 1 first.1).map (takesAnswer 1) ∧
          (requests 1 first.1).map (answered 1) = [true, true])) (by decide +kernel)
  -- both runs were evaluated, with the conditions on the first
  simp only [Bool.and_eq_true, decide_eq_true_eq, Option.any_eq_true] at hcheck
  obtain ⟨hp, ⟨tr, last⟩, hfirst, ⟨tr', last'⟩, hsecond, hsenders, horder, hfree, htakes,
    hanswers⟩ := hcheck
  refine ⟨tr, tr', last, last', node, Run.of_exec hfirst, Run.of_exec hsecond, exec_calls hfirst,
    hanswers, ?_⟩
  exact requests_not_swallowed requestSetup [] sampleStart none start node hstart 1 0 (by decide) hp
    tr tr' last last' (Run.of_exec hfirst) (Run.of_exec hsecond) hsenders
    (by rw [exec_calls hfirst, exec_calls hsecond]) horder hfree htakes

end PersonalBlockchain
