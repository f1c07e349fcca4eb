import Buzz.Lib.Run
import Buzz.Lib.Table
import Buzz.PairRelay.Events

namespace Buzz.PairRelay
set_option autoImplicit true
open Json GitSign

def MAX_CONNS : ℕ := 128
def CHANNEL_CAP : ℕ := 4
def RATE_WINDOW : ℕ := 10000
def RATE_MSG_MAX : ℕ := 20
def RATE_EVENT_MAX : ℕ := 10
def SUB_ID_MAX : ℕ := 64
def MAX_EVENTS_PER_CONN : ℕ := 6
def MAX_DELIVERED_PER_P : ℕ := 12
def DEDUP_CAP : ℕ := 1024
def DELIVERED_MAP_CAP : ℕ := 4096

/-- TTL for entries in `seenIds` and `delivered`, in milliseconds like all of the clock. -/
def ENTRY_TTL : ℕ := 300000

variable {F : Type}

inductive OutMsg (F : Type) where
  | text (v : Value F)
  | pong (data : List UInt8)
  | close

structure Sub where
  connId : ℕ
  subId : String
  pValue : HexId 64

structure RateWindow where
  count : ℕ
  windowStart : ℕ

def RateWindow.tick (w : RateWindow) (now : ℕ) : RateWindow :=
  let w := if RATE_WINDOW ≤ now - w.windowStart then ⟨0, now⟩ else w
  { w with count := w.count + 1 }

/-- An EVENT that passed validation and the signature check, at some time. -/
structure Attempt (F : Type) where
  eventId : String
  idBytes : HexId 64
  pValue : HexId 64
  event : Value F
  validatedAt : ℕ

/-- Where the task of a connection is: waiting for a frame, or before the next lock it takes. -/
inductive Task (F : Type) where
  | idle
  | verified (a : Attempt F)
  | reserved (a : Attempt F)
  | refused (a : Attempt F) (reason : String)
  | leaving

namespace Task

/-- The EVENT that is being handled. -/
def attempt : Task F → Option (Attempt F)
  | .verified a => some a
  | .reserved a => some a
  | .refused a _ => some a
  | _ => none

/-- The EVENT whose id the task has reserved. -/
def held : Task F → Option (Attempt F)
  | .reserved a => some a
  | .refused a _ => some a
  | _ => none

theorem attempt_of_held {t : Task F} (h : t.held = some a) : t.attempt = some a := by
  cases t with
  | reserved b => exact h
  | refused b reason => exact h
  | idle => cases h
  | verified b => cases h
  | leaving => cases h

end Task

structure Conn (F : Type) where
  subId : Option String
  eventsAttempted : ℕ
  msgRate : RateWindow
  eventRate : RateWindow
  queue : List (OutMsg F)
  writerAlive : Bool
  task : Task F

namespace Conn

def new (now : ℕ) : Conn F where
  subId := none
  eventsAttempted := 0
  msgRate := ⟨0, now⟩
  eventRate := ⟨0, now⟩
  queue := []
  writerAlive := true
  task := .idle

def trySend (c : Conn F) (msg : OutMsg F) : Conn F × Bool :=
  if c.writerAlive && c.queue.length < CHANNEL_CAP then
    ({ c with queue := c.queue ++ [msg] }, true)
  else (c, false)

/-- A reply whose loss is ignored. -/
def reply (c : Conn F) (v : Value F) : Conn F :=
  (c.trySend (.text v)).1

def leave (c : Conn F) : Conn F :=
  { c with task := .leaving }

theorem trySend_task (c : Conn F) (msg : OutMsg F) : (c.trySend msg).1.task = c.task := by
  unfold trySend
  split <;> rfl

theorem reply_task (c : Conn F) (v : Value F) : (c.reply v).task = c.task :=
  c.trySend_task _

end Conn

def makeOk (id : String) (ok : Bool) (msg : String) : Value F :=
  .array [.string "OK", .string id, .bool ok, .string msg]

def makeClosed (subId msg : String) : Value F :=
  .array [.string "CLOSED", .string subId, .string msg]

def makeEose (subId : String) : Value F :=
  .array [.string "EOSE", .string subId]

def makeNotice (msg : String) : Value F :=
  .array [.string "NOTICE", .string msg]

/-- What arrives on a connection: a text as the JSON reader takes it, if it does. -/
inductive InFrame (F : Type) where
  | binary
  | ping (data : List UInt8)
  | pong
  | close
  | failed
  | text (json : Option (Value F))

/-- The libraries, and the time of the wall clock when the other clock started. -/
structure Env (K R F : Type) where
  externals : Externals K R F
  format : FloatFormat F
  sha256 : ByteArray → HexId 64
  epoch : ℕ

section Handlers

variable {K R : Type} (env : Env K R F)

/-- The wall clock in seconds. -/
def Env.wall (now : ℕ) : ℤ :=
  ((env.epoch + now) / 1000 : ℕ)

def Env.verify (ev : Value F) : Except String Unit :=
  verifyEventSig env.externals env.format env.sha256 ev

/-- The check of the `#p` and the registration are under one lock. -/
def handleReq (subs : List Sub) (i : ℕ) (c : Conn F) : List (Value F) → List Sub × Conn F
  | _ :: .string clientSubId :: filter :: more =>
    if SUB_ID_MAX < clientSubId.utf8ByteSize then
      (subs, c.reply (makeClosed "" "error: sub_id too long"))
    else if !more.isEmpty then
      (subs, c.reply (makeClosed clientSubId "error: multiple filters not supported"))
    else if filter.asObject.isNone then
      (subs, c.reply (makeClosed clientSubId "error: invalid filter"))
    else if c.subId.isSome then
      (subs, c.reply (makeClosed clientSubId "error: already subscribed, send CLOSE first"))
    else
      match validateFilter filter with
      | .error reason => (subs, c.reply (makeClosed clientSubId ("error: " ++ reason)))
      | .ok p =>
        if subs.any fun s => s.pValue = p then
          (subs, c.reply (makeClosed clientSubId "error: #p already has a live subscriber"))
        else
          let sent := c.trySend (.text (makeEose clientSubId))
          if sent.2 then
            (subs ++ [⟨i, clientSubId, p⟩], { sent.1 with subId := some clientSubId })
          else (subs, sent.1.leave)
  | _ => (subs, c.reply (makeNotice "error: invalid REQ"))

def handleEvent (now : ℕ) (c : Conn F) : List (Value F) → Conn F
  | [_, ev] =>
    let c := { c with eventRate := c.eventRate.tick now }
    if RATE_EVENT_MAX < c.eventRate.count then
      c.reply (makeOk (safeEventId ev) false "rate-limited")
    else if MAX_EVENTS_PER_CONN ≤ c.eventsAttempted then
      c.reply (makeOk (safeEventId ev) false "error: session event limit reached")
    else if ev.asObject.isNone then c.reply (makeOk "" false "invalid: malformed event")
    else
      match validateEvent (env.wall now) ev with
      | .error reason => c.reply (makeOk (safeEventId ev) false ("invalid: " ++ reason))
      | .ok (eventId, idBytes, pValue) =>
        match env.verify ev with
        | .error reason => c.reply (makeOk eventId false reason)
        | .ok _ =>
          { c with
            eventsAttempted := c.eventsAttempted + 1
            task := .verified { eventId, idBytes, pValue, event := ev, validatedAt := now } }
  | _ => c.reply (makeNotice "error: invalid EVENT")

def handleClose (subs : List Sub) (i : ℕ) (c : Conn F) : List (Value F) → List Sub × Conn F
  | [_, .string sid] =>
    if c.subId = some sid then
      (subs.filter fun s => s.connId ≠ i, { c with subId := none })
    else (subs, c)
  | _ => (subs, c.reply (makeNotice "error: invalid CLOSE"))

def handleText (now : ℕ) (subs : List Sub) (i : ℕ) (c : Conn F) (json : Option (Value F)) :
    List Sub × Conn F :=
  match json with
  | some (.array (verb :: args)) =>
    match verb.asStr with
    | none => (subs, c.reply (makeNotice "error: invalid message"))
    | some "REQ" => handleReq subs i c (verb :: args)
    | some "EVENT" => (subs, handleEvent env now c (verb :: args))
    | some "CLOSE" => handleClose subs i c (verb :: args)
    | some _ => (subs, c.reply (makeNotice "error: unsupported message"))
  | _ => (subs, c.reply (makeNotice "error: invalid message"))

def handleFrame (now : ℕ) (subs : List Sub) (i : ℕ) (c : Conn F) (frame : InFrame F) :
    List Sub × Conn F :=
  let c := { c with msgRate := c.msgRate.tick now }
  if RATE_MSG_MAX < c.msgRate.count then (subs, c.leave)
  else
    match frame with
    | .failed => (subs, c.leave)
    | .binary => (subs, c.leave)
    | .ping data =>
      let sent := c.trySend (.pong data)
      if sent.2 then (subs, sent.1) else (subs, sent.1.leave)
    | .pong => (subs, c)
    | .close => (subs, (c.trySend .close).1.leave)
    | .text json => handleText env now subs i c json

/-- What an attempt has been checked for. -/
structure Attempt.Checked (a : Attempt F) : Prop where
  valid : validateEvent (env.wall a.validatedAt) a.event = .ok (a.eventId, a.idBytes, a.pValue)
  verified : env.verify a.event = .ok ()

/-- What a frame makes of the task that reads it. -/
def Task.After (now : ℕ) (t : Task F) : Prop :=
  t = .idle ∨ t = .leaving ∨ ∃ a : Attempt F, t = .verified a ∧ a.validatedAt = now ∧ a.Checked env

variable {env} {c : Conn F}

theorem after_reply (h : c.task = .idle) (v : Value F) : (c.reply v).task.After env now :=
  .inl ((c.reply_task v).trans h)

theorem handleReq_after (h : c.task = .idle) (arr : List (Value F)) :
    (handleReq subs i c arr).2.task.After env now := by
  unfold handleReq
  split
  · simp only
    split
    · exact after_reply h _
    split
    · exact after_reply h _
    split
    · exact after_reply h _
    split
    · exact after_reply h _
    split
    · exact after_reply h _
    split
    · exact after_reply h _
    split
    · exact .inl ((c.trySend_task _).trans h)
    · exact .inr (.inl rfl)
  · exact after_reply h _

theorem handleEvent_after (h : c.task = .idle) (arr : List (Value F)) :
    (handleEvent env now c arr).task.After env now := by
  have htick : ({ c with eventRate := c.eventRate.tick now } : Conn F).task = .idle := h
  unfold handleEvent
  split
  · simp only
    generalize ({ c with eventRate := c.eventRate.tick now } : Conn F) = c at htick ⊢
    split
    · exact after_reply htick _
    split
    · exact after_reply htick _
    split
    · exact after_reply htick _
    split
    · exact after_reply htick _
    · rename_i hvalid
      split
      · exact after_reply htick _
      · rename_i hverified
        exact .inr (.inr ⟨_, rfl, rfl, hvalid, hverified⟩)
  · exact after_reply h _

theorem handleFrame_after (h : c.task = .idle) (frame : InFrame F) :
    (handleFrame env now subs i c frame).2.task.After env now := by
  have htick : ({ c with msgRate := c.msgRate.tick now } : Conn F).task = .idle := h
  unfold handleFrame
  simp only
  generalize ({ c with msgRate := c.msgRate.tick now } : Conn F) = c at htick ⊢
  split
  · exact .inr (.inl rfl)
  split
  · exact .inr (.inl rfl)
  · exact .inr (.inl rfl)
  · split
    · exact .inl ((c.trySend_task _).trans htick)
    · exact .inr (.inl rfl)
  · exact .inl htick
  · exact .inr (.inl rfl)
  · unfold handleText
    split
    · split
      · exact after_reply htick _
      · exact handleReq_after htick _
      · exact handleEvent_after htick _
      · unfold handleClose
        split
        · split
          · exact .inl htick
          · exact .inl htick
        · exact after_reply htick _
      · exact after_reply htick _
    · exact after_reply htick _

end Handlers

/-- An event that was put on a subscriber's channel. -/
structure Forward (F : Type) where
  attempt : Attempt F
  sub : Sub
  sentAt : ℕ

/-- The relay with its connections. What was `forwarded` is kept, and the events that passed the
checks are in `attempted`. -/
structure Relay (F : Type) where
  now : ℕ
  subs : List Sub
  connCount : ℕ
  rejecting : ℕ
  nextConnId : ℕ
  seenIds : List (HexId 64 × ℕ)
  delivered : Table (HexId 64) (ℕ × ℕ)
  conns : ℕ → Option (Conn F)
  forwarded : List (Forward F)
  attempted : List (Value F)

namespace Relay

def new : Relay F where
  now := 0
  subs := []
  connCount := 0
  rejecting := 0
  nextConnId := 0
  seenIds := []
  delivered := ∅
  conns := fun _ => none
  forwarded := []
  attempted := []

def setConn (r : Relay F) (i : ℕ) (c : Option (Conn F)) : Relay F :=
  { r with conns := Function.update r.conns i c }

/-- The ids that have not expired. -/
def liveIds (r : Relay F) : List (HexId 64 × ℕ) :=
  r.seenIds.filter fun e => r.now - e.2 < ENTRY_TTL

/-- Atomically check-and-reserve an event ID. -/
def reserveId (r : Relay F) (id : HexId 64) : Relay F × Except Unit Bool :=
  if r.liveIds.any fun e => e.1 = id then ({ r with seenIds := r.liveIds }, .ok true)
  else if DEDUP_CAP ≤ r.liveIds.length then ({ r with seenIds := r.liveIds }, .error ())
  else ({ r with seenIds := r.liveIds ++ [(id, r.now)] }, .ok false)

/-- `Vec::swap_remove`. -/
def swapRemove (l : List α) (i : ℕ) : List α :=
  match l.getLast? with
  | some last => (l.set i last).dropLast
  | none => l

/-- Remove a previously reserved ID. -/
def unreserveId (r : Relay F) (id : HexId 64) : Relay F :=
  match r.seenIds.findIdx? fun e => e.1 = id with
  | some pos => { r with seenIds := swapRemove r.seenIds pos }
  | none => r

/-- The budgets that have not expired. -/
def liveBudgets (r : Relay F) : Table (HexId 64) (ℕ × ℕ) :=
  r.delivered.retain fun _ e => r.now - e.2 < ENTRY_TTL

/-- How much of its budget a key has spent. -/
def spent (r : Relay F) (p : HexId 64) : ℕ :=
  ((r.liveBudgets.lookup p).map Prod.fst).getD 0

/-- The event is on the channel of the subscriber, and counts. -/
def forward (r : Relay F) (a : Attempt F) (sub : Sub) (c : Conn F) : Relay F :=
  { r.setConn sub.connId (some c) with
    delivered := r.liveBudgets.insert a.pValue (r.spent a.pValue + 1, r.now)
    forwarded := r.forwarded ++ [⟨a, sub, r.now⟩] }

/-- Atomically check for exactly one subscriber and deliver. -/
def deliverSingle (r : Relay F) (a : Attempt F) : Relay F × Except String Bool :=
  match r.subs.filter fun s => s.pValue = a.pValue with
  | [] => (r, .error "no live subscriber")
  | [sub] =>
    let evicted := { r with delivered := r.liveBudgets }
    if MAX_DELIVERED_PER_P ≤ r.spent a.pValue then
      (evicted, .error "recipient session budget exhausted")
    else if DELIVERED_MAP_CAP ≤ r.liveBudgets.entries.length &&
        (r.liveBudgets.lookup a.pValue).isNone then
      (evicted, .error "relay at capacity")
    else
      match r.conns sub.connId with
      | none => (evicted, .ok false)
      | some c =>
        let sent := c.trySend (.text (.array [.string "EVENT", .string sub.subId, a.event]))
        if sent.2 then (r.forward a sub sent.1, .ok true) else (evicted, .ok false)
  | _ => (r, .error "ambiguous recipient")

def removeSub (r : Relay F) (i : ℕ) : Relay F :=
  { r with subs := r.subs.filter fun s => s.connId ≠ i }

/-- The task of a connection gets on with what it has left to do. -/
def withTask (r : Relay F) (i : ℕ) (task : Task F) (answer : Option (Value F)) : Relay F :=
  match r.conns i with
  | none => r
  | some c =>
    let c := { c with task }
    r.setConn i (some (match answer with
      | some v => c.reply v
      | none => c))

/-- A task takes its next lock. -/
def advance (r : Relay F) (i : ℕ) : Task F → Relay F
  | .idle => r
  | .verified a =>
    let done := r.reserveId a.idBytes
    match done.2 with
    | .ok true => done.1.withTask i .idle (some (makeOk a.eventId false "duplicate: already seen"))
    | .error _ => done.1.withTask i .idle (some (makeOk a.eventId false "relay at capacity"))
    | .ok false => done.1.withTask i (.reserved a) none
  | .reserved a =>
    let done := r.deliverSingle a
    match done.2 with
    | .ok true => done.1.withTask i .idle (some (makeOk a.eventId true ""))
    | .ok false => done.1.withTask i (.refused a "delivery failed") none
    | .error reason => done.1.withTask i (.refused a reason) none
  | .refused a reason =>
    (r.unreserveId a.idBytes).withTask i .idle (some (makeOk a.eventId false reason))
  | .leaving =>
    { (r.removeSub i).setConn i none with connCount := r.connCount - 1 }

/-- A connection asks for a slot. -/
def connect (r : Relay F) : Relay F :=
  if MAX_CONNS ≤ r.connCount then
    { r with connCount := r.connCount + 1, rejecting := r.rejecting + 1 }
  else
    { r.setConn r.nextConnId (some (.new r.now)) with
      connCount := r.connCount + 1, nextConnId := r.nextConnId + 1 }

end Relay

inductive RelayOp (F : Type) where
  | tick (ms : ℕ)
  | connect
  | rejected
  | frame (i : ℕ) (frame : InFrame F)
  | advance (i : ℕ)
  | quit (i : ℕ)
  | drain (i : ℕ)
  | writerDies (i : ℕ)

/-- How long a task may take from the check of an event to its answer: it awaits nothing then. -/
def PROMPT : ℕ := 59000

namespace Relay

variable {K R : Type} (env : Env K R F)

/-- The events that a task has just checked. -/
def checkedBy : Task F → List (Value F)
  | .verified a => [a.event]
  | _ => []

/-- A frame comes in on a connection. -/
def receive (r : Relay F) (i : ℕ) (c : Conn F) (frame : InFrame F) : Relay F :=
  let done := handleFrame env r.now r.subs i c frame
  { r.setConn i (some done.2) with
    subs := done.1
    attempted := checkedBy done.2.task ++ r.attempted }

inductive Step (r : Relay F) : RelayOp F → Relay F → Prop where
  | tick {ms : ℕ} (hprompt : ∀ i c a, r.conns i = some c → c.task.attempt = some a →
      r.now + ms < a.validatedAt + PROMPT) : Step r (.tick ms) { r with now := r.now + ms }
  | connect : Step r .connect r.connect
  | rejected (h : 0 < r.rejecting) :
      Step r .rejected { r with connCount := r.connCount - 1, rejecting := r.rejecting - 1 }
  | frame {i : ℕ} {c : Conn F} {frame : InFrame F} (h : r.conns i = some c)
      (hidle : c.task = .idle) :
      Step r (.frame i frame) (r.receive env i c frame)
  | advance {i : ℕ} {c : Conn F} (h : r.conns i = some c) : Step r (.advance i) (r.advance i c.task)
  | quit {i : ℕ} {c : Conn F} (h : r.conns i = some c) (hidle : c.task = .idle) :
      Step r (.quit i) (r.setConn i (some c.leave))
  | drain {i : ℕ} {c : Conn F} (h : r.conns i = some c) :
      Step r (.drain i) (r.setConn i (some { c with queue := c.queue.tail }))
  | writerDies {i : ℕ} {c : Conn F} (h : r.conns i = some c) :
      Step r (.writerDies i) (r.setConn i (some { c with writerAlive := false }))

end Relay

end Buzz.PairRelay
