import PersonalBlockchain.Lib.Machine
import PersonalBlockchain.P2P.Wire

/-!
# Personal blockchain — the write queue of a connection

`Peer::send` is called by any thread: it serializes its message, and queues it
once it has `writeMutex_`. The completion handler of a write takes the same
mutex. Whichever finds a message and no write under way starts the next write.

A section under the mutex is one step. A handler never runs inside the call that
starts its write, so its step comes later, and which write completes is left
open.

## Results

* `writeStep_move` — what a step can do, and that flag, queue and writes agree after
  it (`Writer.Sound`);
* `sends_once_in_order` — in every run the messages that found room go out once each
  and in their order, one write at a time;
* `Peer.Mirrors.send`, `Peer.Mirrors.written`, `Peer.mirrors_writeFailed` — the
  connection of `P2P/Peer.lean`, which has messages in its queue and no bytes, goes
  with the writer step by step.
-/

namespace PersonalBlockchain

open Machine

/-- The bytes of a message. -/
abbrev Buffer := List Int8

/-- The writing side of a connection. -/
structure Writer where
  writeQueue : List Buffer := []
  writing : Bool := false
  /-- the writes that have started and not completed -/
  outstanding : List Buffer := []
  /-- of each thread in `send` the message that waits for the mutex -/
  waiting : Nat → Option Buffer := fun _ => none

namespace Writer

/-- `doWrite`: the first message goes to `async_write`. There has to be one. -/
def doWrite (w : Writer) (h : w.writeQueue ≠ []) : List Buffer × Writer :=
  ([w.writeQueue.head h], { w with outstanding := w.outstanding ++ [w.writeQueue.head h] })

/-- `send`, from the mutex on. With the new state come the messages that went to
`async_write`. -/
def send (data : Buffer) (w : Writer) : List Buffer × Writer :=
  if w.writeQueue.length ≥ Peer.maxWriteQueue then ([], w)
  else
    let queued := { w with writeQueue := w.writeQueue ++ [data] }
    if queued.writing then ([], queued)
    else { queued with writing := true }.doWrite (by simp [queued])

/-- The completion handler of `doWrite`. -/
def completed (ec : Bool) (w : Writer) : List Buffer × Writer :=
  if ec then ([], { w with writing := false, writeQueue := [] })
  else
    -- `pop_front`
    let popped := { w with writeQueue := w.writeQueue.tail }
    if h : popped.writeQueue ≠ [] then popped.doWrite h
    else ([], { popped with writing := false })

end Writer

/-- The steps of threads and completion handlers. -/
inductive WriteEvent
  /-- a thread calls `send`, and serializes -/
  | enter (thread : Nat) (msg : Message)
  /-- it gets the mutex -/
  | lock (thread : Nat)
  /-- one of the outstanding writes completes, with an error or without -/
  | complete (i : Nat) (ec : Bool)

/-- One step; the reply are the messages that went to `async_write`. -/
def writeStep (T : JsonText) : WriteEvent → Writer → Option (List Buffer × Writer)
  | .enter thread msg, w =>
    match w.waiting thread with
    | none => some ([],
        { w with waiting := Function.update w.waiting thread (some (msg.serialize T)) })
    | some _ => none
  | .lock thread, w =>
    match w.waiting thread with
    | none => none
    | some data =>
      some ({ w with waiting := Function.update w.waiting thread none }.send data)
  | .complete i ec, w =>
    if i < w.outstanding.length then
      some ({ w with outstanding := w.outstanding.eraseIdx i }.completed ec)
    else none

/-- A step in a run. -/
abbrev WriteEntry := Entry Writer WriteEvent (List Buffer)

/-- A run of the writing side of a new connection. -/
abbrev WriteRun (T : JsonText) (tr : List WriteEntry) (w : Writer) : Prop :=
  Run (writeStep T) {} tr w

/-- The message that finds room in the queue. -/
def WriteEntry.accepted (e : WriteEntry) : Option Buffer :=
  match e.call with
  | .lock thread =>
    if e.pre.writeQueue.length < Peer.maxWriteQueue then e.pre.waiting thread else none
  | _ => none

/-- The messages that found room, in the order of their locked sections. -/
def acceptedMessages (tr : List WriteEntry) : List Buffer := tr.filterMap WriteEntry.accepted

/-- The messages that went to `async_write`, in order. -/
def handedMessages (tr : List WriteEntry) : List Buffer := tr.flatMap Entry.ret

/-- The write failed. -/
def WriteEvent.failed : WriteEvent → Bool
  | .complete _ ec => ec
  | _ => false

/-- The flag, the queue and the writes agree. -/
structure Writer.Sound (w : Writer) : Prop where
  writing : w.writing = !w.writeQueue.isEmpty
  /-- what is being written is the first message, which is still there -/
  outstanding : w.outstanding = w.writeQueue.take 1
  bounded : w.writeQueue.length ≤ Peer.maxWriteQueue

variable {T : JsonText} {w w' : Writer} {data : Buffer}

namespace Writer

/-- There is but one write. -/
theorem Sound.last_outstanding (h : w.Sound) {i : Nat} (hi : i < w.outstanding.length) :
    w.outstanding.eraseIdx i = [] := by
  have hone : w.outstanding.length ≤ 1 := by
    rw [h.outstanding]
    exact List.length_take_le 1 _
  rw [← List.length_eq_zero_iff, List.length_eraseIdx_of_lt hi]
  omega

/-- The message that finds an empty queue goes out at once. -/
theorem Sound.send_eq (h : w.Sound) (hroom : w.writeQueue.length < Peer.maxWriteQueue) :
    w.send data =
      (if w.writeQueue = [] then [data] else [],
        { w with
          writeQueue := w.writeQueue ++ [data]
          writing := true
          outstanding := (w.writeQueue ++ [data]).take 1 }) := by
  obtain ⟨queue, writing, outstanding, waiting⟩ := w
  obtain ⟨hwriting, houtstanding, -⟩ := h
  obtain rfl : writing = !queue.isEmpty := hwriting
  obtain rfl : outstanding = queue.take 1 := houtstanding
  rw [send, if_neg (Nat.not_le.mpr hroom)]
  cases queue with
  | nil => rfl
  | cons front rest => rfl

/-- The message behind the one that is out follows it. -/
theorem Sound.completed_eq (h : w.Sound) {i : Nat} (hi : i < w.outstanding.length) :
    ∃ front rest, w.writeQueue = front :: rest ∧
      { w with outstanding := w.outstanding.eraseIdx i }.completed false =
        (rest.take 1,
          { w with
            writeQueue := rest
            writing := !rest.isEmpty
            outstanding := rest.take 1 }) := by
  rw [h.last_outstanding hi]
  obtain ⟨queue, writing, outstanding, waiting⟩ := w
  -- the write under way is that of the front of the queue
  obtain ⟨hwriting, houtstanding, -⟩ := h
  obtain rfl : writing = !queue.isEmpty := hwriting
  obtain rfl : outstanding = queue.take 1 := houtstanding
  cases queue with
  | nil => simp at hi
  | cons front rest =>
    refine ⟨front, rest, rfl, ?_⟩
    cases rest with
    | nil => rfl
    | cons next rest => rfl

end Writer

/-- What a step can do where flag, queue and writes agree. -/
inductive WriteMove (e : WriteEntry) : Prop
  /-- a thread comes to wait, or finds the queue full -/
  | idle : e.accepted = none → e.ret = [] → e.post.writeQueue = e.pre.writeQueue → WriteMove e
  | takes (data : Buffer) : e.accepted = some data →
      e.ret = (if e.pre.writeQueue = [] then [data] else []) →
      e.post.writeQueue = e.pre.writeQueue ++ [data] → WriteMove e
  /-- the first message is out -/
  | completes (front : Buffer) (rest : List Buffer) : e.accepted = none → e.ret = rest.take 1 →
      e.pre.writeQueue = front :: rest → e.post.writeQueue = rest → WriteMove e
  | fails : e.call.failed = true → WriteMove e

/-- **Step inversion.** Where flag, queue and writes agree they agree after the
step, and it takes no message, one message, or lets one out. -/
theorem writeStep_move {e : WriteEntry} (h : e.pre.Sound)
    (hstep : writeStep T e.call e.pre = some (e.ret, e.post)) : e.post.Sound ∧ WriteMove e := by
  obtain ⟨pre, call, ret, post⟩ := e
  replace h : pre.Sound := h
  cases call with
  | enter thread msg =>
    -- nothing but the waiting message changes
    simp only [writeStep] at hstep
    split at hstep
    · simp only [Option.some.injEq, Prod.mk.injEq] at hstep
      obtain ⟨rfl, rfl⟩ := hstep
      exact ⟨⟨h.writing, h.outstanding, h.bounded⟩, .idle rfl rfl rfl⟩
    · cases hstep
  | lock thread =>
    simp only [writeStep] at hstep
    split at hstep
    · cases hstep
    next data hdata =>
      rw [Option.some.injEq] at hstep
      by_cases hroom : pre.writeQueue.length < Peer.maxWriteQueue
      · have hpre : Writer.Sound { pre with waiting := Function.update pre.waiting thread none } :=
          ⟨h.writing, h.outstanding, h.bounded⟩
        rw [hpre.send_eq hroom, Prod.mk.injEq] at hstep
        obtain ⟨rfl, rfl⟩ := hstep
        have hbounded : (pre.writeQueue ++ [data]).length ≤ Peer.maxWriteQueue := by
          rw [List.length_append]
          exact hroom
        refine ⟨⟨by simp, rfl, hbounded⟩, .takes data ?_ rfl rfl⟩
        rw [WriteEntry.accepted]
        exact (if_pos hroom).trans hdata
      · -- the queue is full, and the message is gone
        rw [Writer.send, if_pos (Nat.not_lt.mp hroom), Prod.mk.injEq] at hstep
        obtain ⟨rfl, rfl⟩ := hstep
        refine ⟨⟨h.writing, h.outstanding, h.bounded⟩, .idle ?_ rfl rfl⟩
        rw [WriteEntry.accepted]
        exact if_neg hroom
  | complete i ec =>
    simp only [writeStep] at hstep
    split at hstep
    next hi =>
      rw [Option.some.injEq] at hstep
      cases ec with
      | true =>
        -- what was queued is never sent
        rw [Writer.completed, if_pos rfl, Prod.mk.injEq] at hstep
        obtain ⟨rfl, rfl⟩ := hstep
        exact ⟨⟨rfl, h.last_outstanding hi, Nat.zero_le _⟩, .fails rfl⟩
      | false =>
        obtain ⟨front, rest, hqueue, hcompleted⟩ := h.completed_eq hi
        rw [hcompleted, Prod.mk.injEq] at hstep
        obtain ⟨rfl, rfl⟩ := hstep
        have hbounded : rest.length ≤ Peer.maxWriteQueue := by
          have hlength := h.bounded
          rw [hqueue, List.length_cons] at hlength
          omega
        exact ⟨⟨rfl, rfl, hbounded⟩, .completes front rest rfl rfl hqueue rfl⟩
    · cases hstep

/-! ## The queue of a connection

`Peer` has the messages in its queue where the writer has their bytes. -/

/-- Queue and flag of a connection are those of the writer. -/
structure Peer.Mirrors (T : JsonText) (p : Peer) (w : Writer) : Prop where
  writeQueue : w.writeQueue = p.writeQueue.map (Message.serialize T)
  writing : w.writing = p.writing

variable {p : Peer} {msg : Message}

theorem Peer.Mirrors.send (h : p.Mirrors T w) :
    (p.send msg).Mirrors T (w.send (msg.serialize T)).2 := by
  have hlength : w.writeQueue.length = p.writeQueue.length := by
    rw [h.writeQueue, List.length_map]
  rw [Peer.send, Writer.send, hlength]
  split
  · exact h
  · have hqueue : w.writeQueue ++ [msg.serialize T] =
        (p.writeQueue ++ [msg]).map (Message.serialize T) := by
      rw [h.writeQueue, List.map_append]
      rfl
    -- a write is started unless one is under way
    dsimp only
    split
    next hwriting => exact ⟨hqueue, hwriting⟩
    next => exact ⟨hqueue, rfl⟩

/-- A handler that runs finds the flag set. -/
theorem Peer.Mirrors.written (h : p.Mirrors T w) (hwriting : w.writing = true) :
    p.written.Mirrors T (w.completed false).2 := by
  have hqueue : w.writeQueue.tail = p.writeQueue.tail.map (Message.serialize T) := by
    rw [h.writeQueue, List.map_tail]
  rw [Writer.completed, if_neg Bool.false_ne_true]
  dsimp only
  split
  next hmore =>
    refine ⟨hqueue, ?_⟩
    show w.writing = !p.writeQueue.tail.isEmpty
    rw [hwriting, ← List.isEmpty_map, ← hqueue]
    simpa using hmore
  -- the queue has run empty, and the writing stops
  next hlast =>
    refine ⟨hqueue, ?_⟩
    show false = !p.writeQueue.tail.isEmpty
    rw [← List.isEmpty_map, ← hqueue, not_not.mp hlast]
    rfl

theorem Peer.mirrors_writeFailed (T : JsonText) (p : Peer) (w : Writer) :
    p.writeFailed.Mirrors T (w.completed true).2 :=
  ⟨rfl, rfl⟩

/-! ## Runs -/

/-- Flag, queue and writes agree in every run, failed writes or not. -/
theorem sound_run {tr : List WriteEntry} (h : WriteRun T tr w) : w.Sound :=
  h.invariant ⟨rfl, rfl, Nat.zero_le _⟩ fun s a r s' hs hstep =>
    (writeStep_move (e := ⟨s, a, r, s'⟩) hs hstep).1

/-- The messages that found room are those that are out and those in the queue;
of the latter the first is on its way. -/
def SentInOrder (tr : List WriteEntry) (queue : List Buffer) : Prop :=
  ∃ sent, acceptedMessages tr = sent ++ queue ∧ handedMessages tr = sent ++ queue.take 1

variable {tr : List WriteEntry} {e : WriteEntry}

theorem acceptedMessages_snoc :
    acceptedMessages (tr ++ [e]) = acceptedMessages tr ++ e.accepted.toList := by
  cases haccepted : e.accepted <;> simp [acceptedMessages, haccepted]

theorem handedMessages_snoc : handedMessages (tr ++ [e]) = handedMessages tr ++ e.ret := by
  simp [handedMessages]

theorem SentInOrder.move (h : SentInOrder tr e.pre.writeQueue) (hmove : WriteMove e)
    (hok : e.call.failed = false) : SentInOrder (tr ++ [e]) e.post.writeQueue := by
  obtain ⟨sent, haccepted, hhanded⟩ := h
  rw [SentInOrder, acceptedMessages_snoc, handedMessages_snoc, haccepted, hhanded]
  cases hmove with
  | idle hnone hret hqueue =>
    rw [hnone, hret, hqueue]
    exact ⟨sent, by simp, by simp⟩
  | takes data hsome hret hqueue =>
    -- the first message of the queue changes only if there was none
    rw [hsome, hret, hqueue]
    refine ⟨sent, by simp, ?_⟩
    cases e.pre.writeQueue with
    | nil => simp
    | cons front rest => simp
  | completes front rest hnone hret hpre hpost =>
    -- `front` had been handed over when it came first
    rw [hnone, hret, hpre, hpost]
    exact ⟨sent ++ [front], by simp, by simp⟩
  | fails hfailed => rw [hok] at hfailed; cases hfailed

/-- **Outgoing messages are sent once and in order**, as long as no write fails.
In every run of the writing side of a new connection, with any number of threads
in `send`: what went to `async_write` is a beginning of the messages that found
room in the queue, in the order in which they found it, and all of them once the
queue is empty; one write at most is under way; the queue never has more than
its limit; and `writing_` is set exactly while the queue is not empty. -/
theorem sends_once_in_order (h : WriteRun T tr w) (hok : ∀ e ∈ tr, e.call.failed = false) :
    handedMessages tr <+: acceptedMessages tr ∧
      (w.writeQueue = [] → handedMessages tr = acceptedMessages tr) ∧
      w.outstanding.length ≤ 1 ∧ w.writeQueue.length ≤ Peer.maxWriteQueue ∧
      (w.writing = true ↔ w.writeQueue ≠ []) := by
  have hsound := sound_run h
  -- the second part of the invariant needs the first for its step
  have horder : w.Sound ∧ SentInOrder tr w.writeQueue := by
    refine (h.history_of (J := fun tr w => w.Sound ∧ SentInOrder tr w.writeQueue)
      (C := fun _ e => e.call.failed = false) ⟨⟨rfl, rfl, Nat.zero_le _⟩, [], rfl, rfl⟩ ?_ ?_).1
    · intro tr e hJ hnext hstep
      obtain ⟨hpost, hmove⟩ := writeStep_move hJ.1 hstep
      exact ⟨hpost, hJ.2.move hmove hnext⟩
    · exact fun before e after heq => hok e (by simp [heq])
  obtain ⟨sent, haccepted, hhanded⟩ := horder.2
  rw [haccepted, hhanded]
  refine ⟨?_, ?_, ?_, hsound.bounded, ?_⟩
  · exact (List.prefix_append_right_inj sent).mpr (List.take_prefix 1 _)
  · intro hempty
    rw [hempty, List.take_nil]
  · rw [hsound.outstanding]
    exact List.length_take_le 1 _
  · rw [hsound.writing]
    simp

section Sample

def pingMessage : Message := { type := .ping }
def pongMessage : Message := { type := .pong }

/-- Two threads send; the second of them gets the mutex first. -/
def twoSenders : List WriteEvent :=
  [.enter 0 pingMessage, .enter 1 pongMessage, .lock 1, .lock 0, .complete 0 false,
    .enter 1 pongMessage, .lock 1]

end Sample

/-- One message is out, one on its way and one behind it. -/
theorem sends_once_in_order_two_senders :
    ∃ (tr : List WriteEntry) (w : Writer), WriteRun sampleText tr w ∧
      acceptedMessages tr = [pongMessage, pingMessage, pongMessage].map
        (Message.serialize sampleText) ∧ w.writeQueue.length = 2 ∧
      handedMessages tr <+: acceptedMessages tr ∧
      (w.writeQueue = [] → handedMessages tr = acceptedMessages tr) ∧
      w.outstanding.length ≤ 1 ∧ w.writeQueue.length ≤ Peer.maxWriteQueue ∧
      (w.writing = true ↔ w.writeQueue ≠ []) := by
  obtain ⟨tr, w, hrun, hok, hcheck⟩ := Run.exists_of_exec_calls (writeStep sampleText) twoSenders
    {} (fun r => acceptedMessages r.1 = [pongMessage, pingMessage, pongMessage].map
      (Message.serialize sampleText) ∧ r.2.writeQueue.length = 2) (by decide +kernel)
    (P := fun call => call.failed = false) (by simp [twoSenders, WriteEvent.failed])
  obtain ⟨haccepted, hlength⟩ := of_decide_eq_true hcheck
  exact ⟨tr, w, hrun, haccepted, hlength, sends_once_in_order hrun hok⟩

end PersonalBlockchain
