import Mathlib.Data.List.TakeWhile
import Mathlib.Logic.Function.Basic
import TaoPQ.Connection
import TaoPQ.Lib.Bytes
import TaoPQ.Lib.Escaping
import TaoPQ.Lib.Follows
import TaoPQ.Lib.Runs

/-!
# Notifications

`listen`, `unlisten`, `notify` and the notification handlers of `connection` (`connection.cpp`, `connection.hpp`).  Any
number of connections send statements to one server, which executes them in some order and sends each NOTIFY to the
connections that listen at that time.  What arrives is read by libpq whenever the library consumes input, and is passed
to the handlers by the loop of `handle_notifications`, which an exception of a handler ends.

No connection misses a notification, gets one twice or gets two in another order than the others
(`notifications_in_order`).  A handler hears all notifications of its channel for as long as the connection listens
(`every_notification_heard`), provided that the server knows the channel by the name that the program uses, which are
the names of less than 64 bytes (`channel_names`).

Handlers that use the connection themselves are left out.
-/

namespace TaoPQ

/-- What the encoding of a database says about strings: which of them are valid, what libpq says of the others, and
how an identifier is cut to less than 64 bytes. -/
structure Encoding where
  valid : Bytes → Bool
  complaint : String
  clip : Bytes → Bytes
  clip_short : ∀ s, s.length < 64 → clip s = s
  clip_length : ∀ s, (clip s).length < 64

/-- Every string is valid, and every byte a character. -/
def Encoding.sqlAscii : Encoding where
  valid _ := true
  complaint := ""
  clip s := s.take 63
  clip_short s hs := List.take_of_length_le (Nat.le_of_lt_succ hs)
  clip_length s := by
    rw [List.length_take]
    omega

/-- `PGnotify` -/
structure Notification where
  channel : Bytes
  payload : Bytes
  deriving DecidableEq

/-- What `listen`, `unlisten` and `notify` send: a text, or `SELECT pg_notify( $1, $2 )` with two parameters. -/
inductive ChannelQuery where
  | text (statement : Bytes)
  | pgNotify (channel payload : Bytes)
  deriving DecidableEq

/-- What the server does on such a statement. -/
inductive ChannelCommand where
  | listen (channel : Bytes)
  | unlisten (channel : Bytes)
  | notify (n : Notification)
  deriving DecidableEq

/-! ### The client -/

/-- A call of a handler: of the one for all notifications, or of the one for the channel. -/
inductive HandlerCall (H : Type) where
  | general (h : H) (n : Notification)
  | channel (h : H) (n : Notification)
  deriving DecidableEq

/-- A connection.  `sent` are the statements that the server has still to execute, `pending` the notifications that are
on their way, `queue` those that libpq has read.  In `handlers` a channel may have an empty `std::function`.  `received`
and `calls` record what `PQnotifies` has returned, and which handlers were called. -/
structure Client (H : Type) where
  isOpen : Bool
  sent : List ChannelQuery
  pending : List Notification
  queue : List Notification
  handler : Option H
  handlers : Bytes → Option (Option H)
  received : List Notification
  calls : List (HandlerCall H)

namespace Client

variable {H : Type}

/-- A connection just opened. -/
def init : Client H := ⟨true, [], [], [], none, fun _ => none, [], []⟩

/-- `connection::set_notification_handler` and `connection::reset_notification_handler` without a channel. -/
def setNotificationHandler (h : Option H) : Exec (Client H) Exn Unit := Exec.modify fun c => { c with handler := h }

/-- `connection::notification_handler` -/
def channelNotificationHandler (channel : Bytes) : Exec (Client H) Exn (Option H) := do
  let c ← Exec.get
  match c.handlers channel with
  | some h => return h
  | none => return none

/-- `connection::set_notification_handler` -/
def setChannelNotificationHandler (channel : Bytes) (h : Option H) : Exec (Client H) Exn Unit :=
  Exec.modify fun c => { c with handlers := Function.update c.handlers channel (some h) }

/-- `connection::reset_notification_handler` -/
def resetChannelNotificationHandler (channel : Bytes) : Exec (Client H) Exn Unit :=
  Exec.modify fun c => { c with handlers := Function.update c.handlers channel none }

variable (E : Encoding)

/-- `PQescapeIdentifier`, which reads up to the first byte `0`. -/
def pqEscapeIdentifier (identifier : Bytes) : Option Bytes :=
  if E.valid (stringAt identifier) then
    some (Byte.quote :: (Escaping.escape Byte.quote [Byte.quote] (stringAt identifier) ++ [Byte.quote]))
  else none

/-- `connection::escape_identifier` -/
def escapeIdentifier (identifier : Bytes) : Exec (Client H) Exn Bytes :=
  match pqEscapeIdentifier E identifier with
  | some s => return s
  | none => Exec.throw (.invalidArgument E.complaint)

/-- `connection::execute` up to where the statement is sent, unless the transaction that would execute it is refused,
or the statement can not be sent.  What happens while it waits are steps of their own. -/
def execute (refused : Option Exn) (q : ChannelQuery) : Exec (Client H) Exn Unit := do
  match refused with
  | some e => Exec.throw e
  | none =>
    let c ← Exec.get
    if c.isOpen then Exec.modify fun c => { c with sent := c.sent ++ [q] }
    else Exec.throw (.connectionError .libpq)

variable (refused : Option Exn)

/-- `connection::listen` -/
def listen (channel : Bytes) : Exec (Client H) Exn Unit := do
  let identifier ← escapeIdentifier E channel
  execute refused (.text (ascii "LISTEN " ++ identifier))

/-- `connection::listen` with a handler. -/
def listenWith (channel : Bytes) (h : Option H) : Exec (Client H) Exn Unit := do
  setChannelNotificationHandler channel h
  listen E refused channel

/-- `connection::unlisten` -/
def unlisten (channel : Bytes) : Exec (Client H) Exn Unit := do
  let identifier ← escapeIdentifier E channel
  execute refused (.text (ascii "UNLISTEN " ++ identifier))

/-- `connection::notify` -/
def notify (channel : Bytes) : Exec (Client H) Exn Unit := do
  let identifier ← escapeIdentifier E channel
  execute refused (.text (ascii "NOTIFY " ++ identifier))

/-- `connection::notify` with a payload.  Parameters end with their first byte `0`. -/
def notifyPayload (channel payload : Bytes) : Exec (Client H) Exn Unit :=
  execute refused (.pgNotify (stringAt channel) (stringAt payload))

/-! ### Handling notifications -/

-- whether the call of a handler throws, and how many calls of the connection were before it
variable (raises : HandlerCall H → Nat → Bool)

def callHandler (k : HandlerCall H) : Exec (Client H) Exn Unit := do
  let c ← Exec.get
  Exec.modify fun c => { c with calls := c.calls ++ [k] }
  if raises k c.calls.length then Exec.throw .user else pure ()

/-- `PQnotifies` -/
def pqNotifies : Exec (Client H) Exn (Option Notification) := do
  let c ← Exec.get
  match c.queue with
  | [] => return none
  | n :: queue =>
    Exec.modify fun c => { c with queue, received := c.received ++ [n] }
    return some n

/-- The handler for the channel, in the body of the loop of `handle_notifications`.  An empty `std::function` throws
`std::bad_function_call`. -/
def callChannelHandler (n : Notification) : Exec (Client H) Exn Unit := do
  let c ← Exec.get
  match c.handlers n.channel with
  | some (some h) => callHandler raises (.channel h n)
  | some none => Exec.throw .user
  | none => pure ()

/-- The body of the loop of `handle_notifications`. -/
def handle (n : Notification) : Exec (Client H) Exn Unit := do
  let c ← Exec.get
  match c.handler with
  | some h =>
    callHandler raises (.general h n)
    callChannelHandler raises n
  | none => callChannelHandler raises n

/-- The loop of `handle_notifications`, for at most so many rounds. -/
def handleLoop : Nat → Exec (Client H) Exn Unit
  | 0 => pure ()
  | rounds + 1 => do
    match ← pqNotifies with
    | none => pure ()
    | some n =>
      handle raises n
      handleLoop rounds

/-- `connection::handle_notifications` -/
def handleNotifications : Exec (Client H) Exn Unit := do
  let c ← Exec.get
  handleLoop raises (c.queue.length + 1)

/-- libpq reads the next notifications. -/
def readInput (count : Nat) : Exec (Client H) Exn Unit := do
  let c ← Exec.get
  if c.isOpen then
    Exec.modify fun c => { c with queue := c.queue ++ c.pending.take count, pending := c.pending.drop count }
  else Exec.throw (.connectionError .libpq)

/-- `m_pgconn.reset()` -/
def close : Exec (Client H) Exn Unit := Exec.modify fun c => { c with isOpen := false, queue := [] }

/-- `connection::consume_input`, where so many notifications have arrived, or the connection is broken.  libpq keeps
what it has read before. -/
def consumeInput (arrived : Option Nat) : Exec (Client H) Exn Unit := do
  match arrived with
  | some count => readInput count
  | none =>
    Exec.modify fun c => { c with isOpen := false }
    Exec.throw (.connectionError .libpq)

/-- `connection::get_notifications` -/
def getNotifications (arrived : Option Nat) : Exec (Client H) Exn Unit := do
  consumeInput arrived
  handleNotifications raises

end Client

/-! ### The server -/

namespace Encoding

variable (E : Encoding)

/-- The name behind the keyword: an identifier in quotes, which is cut to less than 64 bytes and must not be empty. -/
def readName : Bytes → Option Bytes
  | Byte.quote :: s =>
    match Escaping.readQuoted Byte.quote s with
    | some (name, rest) => if name ≠ [] ∧ rest.all Byte.isSpace then some (E.clip name) else none
    | none => none
  | _ => none

/-- The server reads a statement.  All others have nothing to do with notifications. -/
def readStatement (s : Bytes) : Option ChannelCommand :=
  let keyword := s.takeWhile (· ≠ Byte.space)
  let name := E.readName ((s.dropWhile (· ≠ Byte.space)).dropWhile Byte.isSpace)
  if keyword = ascii "LISTEN" then name.map .listen
  else if keyword = ascii "UNLISTEN" then name.map .unlisten
  else if keyword = ascii "NOTIFY" then name.map fun channel => .notify ⟨channel, []⟩
  else none

/-- What the server does, if anything.  Unlike an identifier, the argument of `pg_notify` is not cut. -/
def command : ChannelQuery → Option ChannelCommand
  | .text s => E.readStatement s
  | .pgNotify channel payload =>
    if channel = [] ∨ 64 ≤ channel.length ∨ 8000 ≤ payload.length then none else some (.notify ⟨channel, payload⟩)

end Encoding

/-- The connections and the server: which sessions there are, the channels to which they listen, and all notifications
in the order of the NOTIFYs, each with the connections that listened then. -/
structure Network (C H : Type) where
  clients : C → Client H
  alive : C → Bool
  listening : C → List Bytes
  log : List (Notification × (C → Bool))

namespace Network

variable {C H : Type} [DecidableEq C]

/-- Nobody listens. -/
def init : Network C H := ⟨fun _ => .init, fun _ => true, fun _ => [], []⟩

/-- The server executes a statement of a connection. -/
def perform (s : Network C H) (c : C) : Option ChannelCommand → Network C H
  | none => s
  | some (.listen channel) => { s with listening := Function.update s.listening c (channel :: s.listening c) }
  | some (.unlisten channel) =>
    { s with listening := Function.update s.listening c ((s.listening c).filter (· ≠ channel)) }
  | some (.notify n) =>
    { s with
      clients := fun d =>
        if n.channel ∈ s.listening d then { s.clients d with pending := (s.clients d).pending ++ [n] } else s.clients d
      log := s.log ++ [(n, fun d => decide (n.channel ∈ s.listening d))] }

/-- What a program calls. -/
inductive Call (H : Type) where
  | setHandler (h : Option H)
  | setChannelHandler (channel : Bytes) (h : Option H)
  | resetChannelHandler (channel : Bytes)
  | listen (channel : Bytes)
  | listenWith (channel : Bytes) (h : Option H)
  | unlisten (channel : Bytes)
  | notify (channel : Bytes)
  | notifyPayload (channel payload : Bytes)

/-- What happens: a call, the server executes the next statement of a connection, libpq reads from the socket, the
library handles notifications, a connection is lost or ended, or the server ends the session of a connection. -/
inductive Action (C H : Type) where
  | call (c : C) (k : Call H) (refused : Option Exn)
  | serve (c : C)
  | read (c : C) (count : Nat)
  | handle (c : C)
  | get (c : C) (arrived : Option Nat)
  | close (c : C)
  | endSession (c : C)

variable (E : Encoding) (raises : HandlerCall H → Nat → Bool)

def Call.run (refused : Option Exn) : Call H → Exec (Client H) Exn Unit
  | .setHandler h => Client.setNotificationHandler h
  | .setChannelHandler channel h => Client.setChannelNotificationHandler channel h
  | .resetChannelHandler channel => Client.resetChannelNotificationHandler channel
  | .listen channel => Client.listen E refused channel
  | .listenWith channel h => Client.listenWith E refused channel h
  | .unlisten channel => Client.unlisten E refused channel
  | .notify channel => Client.notify E refused channel
  | .notifyPayload channel payload => Client.notifyPayload refused channel payload

/-- A function of a connection is called, and returns or throws. -/
def onClient (s : Network C H) (c : C) (x : Exec (Client H) Exn Unit) : Option (Network C H) :=
  (x (s.clients c)).stateLeft.map fun client => { s with clients := Function.update s.clients c client }

/-- The server executes the next statement of a connection. -/
def serve (s : Network C H) (c : C) : Option (Network C H) :=
  match s.alive c, (s.clients c).sent with
  | true, q :: sent =>
    some (perform { s with clients := Function.update s.clients c { s.clients c with sent } } c (E.command q))
  | _, _ => none

def step (s : Network C H) : Action C H → Option (Network C H)
  | .call c k refused => s.onClient c (k.run E refused)
  | .serve c => s.serve E c
  | .read c count => s.onClient c (Client.readInput count)
  | .handle c => s.onClient c (Client.handleNotifications raises)
  | .get c arrived => s.onClient c (Client.getNotifications raises arrived)
  | .close c => s.onClient c Client.close
  | .endSession c =>
    some { s with alive := Function.update s.alive c false, listening := Function.update s.listening c [] }

/-- The notifications for a connection: those of the time when it listened. -/
def owed (c : C) (log : List (Notification × (C → Bool))) : List Notification := (log.filter (·.2 c)).map Prod.fst

end Network

/-! ### Names of channels -/

namespace Encoding

variable (E : Encoding)

/-- The name by which the server knows a channel of the program, if any. -/
def nameOf (channel : Bytes) : Option Bytes := if stringAt channel = [] then none else some (E.clip (stringAt channel))

theorem readName_quoted (s : Bytes) :
    E.readName (Byte.quote :: (Escaping.escape Byte.quote [Byte.quote] s ++ [Byte.quote])) =
      if s = [] then none else some (E.clip s) := by
  have hrest : ([] : Bytes).head? ≠ some Byte.quote := by simp
  have hread := Escaping.readQuoted_escape s hrest
  change (match Escaping.readQuoted Byte.quote (Escaping.escape Byte.quote [Byte.quote] s ++ [Byte.quote]) with
    | some (name, rest) => if name ≠ [] ∧ rest.all Byte.isSpace then some (E.clip name) else none
    | none => none) = _
  rw [hread]
  by_cases hs : s = []
  · rw [if_pos hs]
    exact if_neg fun h => h.1 hs
  · rw [if_neg hs]
    exact if_pos ⟨hs, rfl⟩

theorem readStatement_keyword (keyword : Bytes) (hkeyword : Byte.space ∉ keyword) (s : Bytes) :
    E.readStatement (keyword ++ Byte.space :: Byte.quote :: s) =
      if keyword = ascii "LISTEN" then (E.readName (Byte.quote :: s)).map .listen
      else if keyword = ascii "UNLISTEN" then (E.readName (Byte.quote :: s)).map .unlisten
      else if keyword = ascii "NOTIFY" then (E.readName (Byte.quote :: s)).map fun channel => .notify ⟨channel, []⟩
      else none := by
  have hall : ∀ b ∈ keyword, (decide (b ≠ Byte.space)) = true := by
    intro b hb
    rw [decide_eq_true_eq]
    exact ne_of_mem_of_not_mem hb hkeyword
  have htake : (keyword ++ Byte.space :: Byte.quote :: s).takeWhile (· ≠ Byte.space) = keyword := by
    rw [List.takeWhile_append_of_pos hall]
    simp
  have hdrop : ((keyword ++ Byte.space :: Byte.quote :: s).dropWhile (· ≠ Byte.space)).dropWhile Byte.isSpace =
      Byte.quote :: s := by
    rw [List.dropWhile_append_of_pos hall]
    rfl
  unfold readStatement
  rw [htake, hdrop]

section Valid

variable {E} {channel : Bytes} {identifier : Bytes} (h : Client.pqEscapeIdentifier E channel = some identifier)

include h

theorem identifier_eq :
    identifier = Byte.quote :: (Escaping.escape Byte.quote [Byte.quote] (stringAt channel) ++ [Byte.quote]) := by
  unfold Client.pqEscapeIdentifier at h
  split at h
  · exact (Option.some.inj h).symm
  · cases h

theorem readName_identifier : E.readName identifier = E.nameOf channel := by
  rw [identifier_eq h]
  exact E.readName_quoted _

theorem command_listen : E.command (.text (ascii "LISTEN " ++ identifier)) = (E.nameOf channel).map .listen := by
  rw [← readName_identifier h, identifier_eq h]
  exact E.readStatement_keyword (ascii "LISTEN") (by decide) _

theorem command_unlisten : E.command (.text (ascii "UNLISTEN " ++ identifier)) = (E.nameOf channel).map .unlisten := by
  rw [← readName_identifier h, identifier_eq h]
  exact E.readStatement_keyword (ascii "UNLISTEN") (by decide) _

theorem command_notify : E.command (.text (ascii "NOTIFY " ++ identifier)) =
    (E.nameOf channel).map fun name => .notify ⟨name, []⟩ := by
  rw [← readName_identifier h, identifier_eq h]
  exact E.readStatement_keyword (ascii "NOTIFY") (by decide) _

end Valid

/-- The server knows a channel by the name that the program uses if and only if the name is not empty, has less than
64 bytes and no byte `0`. -/
theorem nameOf_eq_self_iff (channel : Bytes) :
    E.nameOf channel = some channel ↔ channel ≠ [] ∧ channel.length < 64 ∧ Byte.nul ∉ channel := by
  constructor
  · intro h
    unfold nameOf at h
    split at h
    · cases h
    · rename_i hne
      have hclip : E.clip (stringAt channel) = channel := Option.some.inj h
      have hlength : channel.length < 64 := by
        rw [← hclip]
        exact E.clip_length _
      have hprefix : stringAt channel <+: channel := List.takeWhile_prefix _
      have hself : stringAt channel = channel := by
        rw [E.clip_short _ (Nat.lt_of_le_of_lt hprefix.length_le hlength)] at hclip
        exact hclip
      refine ⟨?_, hlength, ?_⟩
      · rintro rfl
        exact hne rfl
      · intro hnul
        rw [← hself] at hnul
        simpa using List.mem_takeWhile_imp hnul
  · rintro ⟨hne, hlength, hnul⟩
    have hself : stringAt channel = channel := by
      refine List.takeWhile_eq_self_iff.2 ?_
      intro b hb
      rw [decide_eq_true_eq]
      exact ne_of_mem_of_not_mem hb hnul
    rw [nameOf, hself, if_neg hne, E.clip_short _ hlength]

end Encoding

/-! ### The loop over the notifications -/

namespace Client

open Exec

variable {H : Type} {raises : HandlerCall H → Nat → Bool}

/-- The handlers for a notification. -/
def callsFor (c : Client H) (n : Notification) : List (HandlerCall H) :=
  (c.handler.map fun h => .general h n).toList ++ ((c.handlers n.channel).join.map fun h => .channel h n).toList

/-- No general handler throws. -/
def QuietGeneral (raises : HandlerCall H → Nat → Bool) : Prop := ∀ h n i, raises (.general h n) i = false

/-- The connection after calls of handlers. -/
def called (c : Client H) (ks : List (HandlerCall H)) : Client H := { c with calls := c.calls ++ ks }

theorem called_nil (c : Client H) : c.called [] = c := by rw [called, List.append_nil]

theorem called_called (c : Client H) (ks ls : List (HandlerCall H)) :
    (c.called ks).called ls = c.called (ks ++ ls) := by
  simp only [called, List.append_assoc]

/-- A call of a handler that throws ends the handling of the notification. -/
def Interrupted (raises : HandlerCall H → Nat → Bool) (c : Client H) (n : Notification) (e : Exn) (c' : Client H) :
    Prop :=
  e = .user ∧ ∃ ks, ks <+: c.callsFor n ∧ (QuietGeneral raises → ks = c.callsFor n) ∧ c' = c.called ks

theorem wp_callHandler {ub : Prop} {k : HandlerCall H} {Q : Unit → Client H → Prop} {F : Exn → Client H → Prop}
    {c : Client H} (hret : raises k c.calls.length = false → Q () (c.called [k]))
    (hthrow : raises k c.calls.length = true → F .user (c.called [k])) : wp ub (callHandler raises k) Q F c := by
  simp only [callHandler, wp_bind, wp_get, wp_modify, wp_ite, wp_pure, wp_throw]
  refine ⟨hthrow, ?_⟩
  intro h
  exact hret (by simpa using h)

/-- The handler for the channel is the last one. -/
theorem callChannelHandler_spec (c : Client H) (n : Notification) {ks : List (HandlerCall H)}
    (hks : (c.handler.map fun h => .general h n).toList = ks) :
    wp False (callChannelHandler raises n) (fun _ c' => c' = c.called (c.callsFor n)) (Interrupted raises c n)
      (c.called ks) := by
  have hcalls : c.callsFor n = ks ++ ((c.handlers n.channel).join.map fun h => .channel h n).toList :=
    congrArg (· ++ _) hks
  have hall : Interrupted raises c n .user (c.called (c.callsFor n)) :=
    ⟨rfl, c.callsFor n, List.prefix_refl _, fun _ => rfl, rfl⟩
  unfold callChannelHandler
  rw [wp_bind, wp_get]
  change wp False (match c.handlers n.channel with
    | some (some h) => callHandler raises (.channel h n)
    | some none => Exec.throw .user
    | none => return ()) _ _ _
  cases hchannel : c.handlers n.channel with
  | none =>
    have heq : c.callsFor n = ks := by simp [hcalls, hchannel]
    exact congrArg c.called heq.symm
  | some handler =>
    cases handler with
    | none =>
      have heq : c.callsFor n = ks := by simp [hcalls, hchannel]
      rw [heq] at hall
      exact hall
    | some h =>
      have heq : c.called (c.callsFor n) = (c.called ks).called [.channel h n] := by
        rw [called_called, hcalls, hchannel]
        rfl
      rw [heq] at hall ⊢
      exact wp_callHandler (fun _ => rfl) fun _ => hall

/-- A notification is passed to its handlers, one after the other, unless one of them throws. -/
theorem handle_spec (c : Client H) (n : Notification) :
    wp False (handle raises n) (fun _ c' => c' = c.called (c.callsFor n)) (Interrupted raises c n) c := by
  unfold handle
  rw [wp_bind, wp_get]
  cases hhandler : c.handler with
  | none =>
    have hchannel : wp False (callChannelHandler raises n) _ _ (c.called []) :=
      callChannelHandler_spec c n (by rw [hhandler]; rfl)
    rwa [called_nil] at hchannel
  | some h =>
    have hchannel : wp False (callChannelHandler raises n) _ _ (c.called [.general h n]) :=
      callChannelHandler_spec c n (by rw [hhandler]; rfl)
    refine (wp_bind ..).2 (wp_callHandler (fun _ => hchannel) ?_)
    intro hraises
    refine ⟨rfl, [.general h n], ?_, ?_, rfl⟩
    · simp [callsFor, hhandler]
    · intro hquiet
      rw [hquiet] at hraises
      cases hraises

/-- The connection after so many notifications were handled. -/
def handled (c : Client H) (ns rest : List Notification) (ks : List (HandlerCall H)) : Client H :=
  { c with queue := rest, received := c.received ++ ns, calls := c.calls ++ ks }

theorem handled_self {c : Client H} {rest : List Notification} (h : c.queue = rest) : c.handled [] rest [] = c := by
  subst h
  rw [handled, List.append_nil, List.append_nil]

theorem handled_called (c : Client H) (ns rest : List Notification) (ks ls : List (HandlerCall H)) :
    (c.handled ns rest ks).called ls = c.handled ns rest (ks ++ ls) := by
  simp only [handled, called, List.append_assoc]

theorem handled_handled (c : Client H) (ns ns' rest rest' : List Notification) (ks ls : List (HandlerCall H)) :
    (c.handled ns rest ks).handled ns' rest' ls = c.handled (ns ++ ns') rest' (ks ++ ls) := by
  simp only [handled, List.append_assoc]

theorem wp_pqNotifies {ub : Prop} {Q : Option Notification → Client H → Prop} {F : Exn → Client H → Prop} {c : Client H}
    (hnone : c.queue = [] → Q none c) (hsome : ∀ n rest, c.queue = n :: rest → Q (some n) (c.handled [n] rest [])) :
    wp ub pqNotifies Q F c := by
  unfold pqNotifies
  rw [wp_bind, wp_get]
  cases hqueue : c.queue with
  | nil => exact hnone hqueue
  | cons n rest =>
    have h := hsome n rest hqueue
    rw [handled, List.append_nil] at h
    exact h

/-- The loop ends with the queue empty, or at the first notification that a handler throws on. -/
theorem handleLoop_spec (c : Client H) {rounds : Nat} (hrounds : c.queue.length < rounds) :
    wp False (handleLoop raises rounds) (fun _ c' => c' = c.handled c.queue [] (c.queue.flatMap c.callsFor))
      (fun e c' => e = .user ∧ ∃ before n after ks, c.queue = before ++ n :: after ∧ ks <+: c.callsFor n ∧
        (QuietGeneral raises → ks = c.callsFor n) ∧
        c' = c.handled (before ++ [n]) after (before.flatMap c.callsFor ++ ks)) c := by
  induction rounds generalizing c with
  | zero => exact absurd hrounds (Nat.not_lt_zero _)
  | succ rounds ih =>
    unfold handleLoop
    rw [wp_bind]
    refine wp_pqNotifies ?_ ?_
    · intro hqueue
      rw [hqueue]
      exact (handled_self hqueue).symm
    · intro n rest hqueue
      rw [hqueue, List.length_cons] at hrounds
      refine (wp_bind ..).2 (wp_mono (handle_spec _ n) ?_ ?_)
      · rintro _ _ rfl
        rw [handled_called, hqueue, List.flatMap_cons]
        -- the rest is handled from the state after this notification
        refine wp_mono (ih _ (Nat.lt_of_succ_lt_succ hrounds)) ?_ ?_
        · rintro _ _ rfl
          exact handled_handled ..
        · rintro e _ ⟨rfl, before, m, after, ks, hrest, hprefix, hquiet, rfl⟩
          refine ⟨rfl, n :: before, m, after, ks, congrArg (n :: ·) hrest, hprefix, hquiet, ?_⟩
          rw [handled_handled, List.flatMap_cons, List.append_assoc (c.callsFor n)]
          rfl
      · rintro e _ ⟨rfl, ks, hprefix, hquiet, rfl⟩
        exact ⟨rfl, [], n, rest, ks, hqueue, hprefix, hquiet, handled_called ..⟩

/-- `handle_notifications` passes all notifications to their handlers.  When a handler throws, those before have been
handled, and those behind stay for the next time. -/
theorem handleNotifications_spec (c : Client H) :
    wp False (handleNotifications raises) (fun _ c' => c' = c.handled c.queue [] (c.queue.flatMap c.callsFor))
      (fun e c' => e = .user ∧ ∃ before n after ks, c.queue = before ++ n :: after ∧ ks <+: c.callsFor n ∧
        (QuietGeneral raises → ks = c.callsFor n) ∧
        c' = c.handled (before ++ [n]) after (before.flatMap c.callsFor ++ ks)) c :=
  (wp_bind ..).2 (handleLoop_spec c (Nat.lt_succ_self _))

/-- The answer that `Connection.handleNotifications` takes from the environment is how this loop ends. -/
theorem handleNotifications_thrown {DB : Type} {W : World} {conn : Connection DB} {c : Client H}
    (hW : W.handlerThrows conn.pg.clock = (handleNotifications raises c).thrown.isSome) :
    (Connection.handleNotifications W conn).thrown = (handleNotifications raises c).thrown := by
  unfold Connection.handleNotifications
  rw [hW]
  have hspec : wp False (handleNotifications raises) _ _ c := handleNotifications_spec c
  rcases ret_or_throw hspec with ⟨_, c', hc, -⟩ | ⟨e, c', hc, rfl, -⟩
  · rw [hc]
    rfl
  · rw [hc]
    rfl

/-! ### What functions of the connection do to the notifications -/

/-- Notifications are passed on in their order, and none gets lost as long as the connection is open. -/
structure Passes (c c' : Client H) : Prop where
  isOpen : c'.isOpen = true → c.isOpen = true ∧
    c'.received ++ c'.queue ++ c'.pending = c.received ++ c.queue ++ c.pending
  all : c'.received ++ c'.queue <+: c.received ++ c.queue ++ c.pending
  closed : c.isOpen = false → c'.received ++ c'.queue <+: c.received ++ c.queue

instance : IsPreorder (Client H) Passes where
  refl c := ⟨fun h => ⟨h, rfl⟩, List.prefix_append _ _, fun _ => List.prefix_refl _⟩
  trans c c' c'' h h' := by
    refine ⟨?_, ?_, ?_⟩
    · intro hopen
      obtain ⟨hopen', heq'⟩ := h'.isOpen hopen
      obtain ⟨hopen, heq⟩ := h.isOpen hopen'
      exact ⟨hopen, heq'.trans heq⟩
    · cases hopen : c'.isOpen with
      | true =>
        rw [← (h.isOpen hopen).2]
        exact h'.all
      | false => exact (h'.closed hopen).trans h.all
    · intro hclosed
      have hclosed' : c'.isOpen = false := by
        rw [Bool.eq_false_iff]
        intro hopen
        rw [(h.isOpen hopen).1] at hclosed
        cases hclosed
      exact (h'.closed hclosed').trans (h.closed hclosed)

/-- Nothing happens to the notifications. -/
theorem Passes.of_same {c c' : Client H} (hopen : c'.isOpen = c.isOpen) (hreceived : c'.received = c.received)
    (hqueue : c'.queue = c.queue) (hpending : c'.pending = c.pending) : Passes c c' := by
  have heq : c'.received ++ c'.queue = c.received ++ c.queue := by rw [hreceived, hqueue]
  refine ⟨?_, ?_, ?_⟩
  · intro h
    rw [heq, hpending]
    exact ⟨hopen ▸ h, rfl⟩
  · exact ⟨c.pending, congrArg (· ++ c.pending) heq⟩
  · intro _
    exact ⟨[], (List.append_nil _).trans heq⟩

theorem Passes.of_closed {c c' : Client H} (hclosed : c'.isOpen = false)
    (h : c'.received ++ c'.queue <+: c.received ++ c.queue) : Passes c c' := by
  refine ⟨?_, h.trans (List.prefix_append _ _), fun _ => h⟩
  intro hopen
  rw [hclosed] at hopen
  cases hopen

/-- Handled notifications stay in order. -/
theorem passes_handled {c : Client H} {ns rest : List Notification} (h : c.queue = ns ++ rest)
    (ks : List (HandlerCall H)) :
    Passes c (c.handled ns rest ks) := by
  have heq : c.received ++ ns ++ rest = c.received ++ c.queue := by rw [h, List.append_assoc]
  refine ⟨?_, ?_, ?_⟩
  · intro hopen
    exact ⟨hopen, congrArg (· ++ c.pending) heq⟩
  · exact ⟨c.pending, congrArg (· ++ c.pending) heq⟩
  · intro _
    exact ⟨[], (List.append_nil _).trans heq⟩

theorem handleNotifications_passes : Follows Passes (handleNotifications raises) := by
  intro c
  refine wp_mono (wp_weaken (handleNotifications_spec c)) ?_ ?_
  · rintro _ _ rfl
    exact passes_handled (List.append_nil _).symm _
  · rintro e _ ⟨-, before, n, after, ks, hqueue, -, -, rfl⟩
    refine passes_handled ?_ _
    rw [hqueue, List.append_assoc, List.singleton_append]

theorem readInput_passes (count : Nat) : Follows (Passes (H := H)) (readInput count) := by
  intro c
  simp only [readInput, wp_bind, wp_get, wp_ite, wp_modify, wp_throw]
  refine ⟨?_, fun _ => refl c⟩
  intro hopen
  have heq : c.received ++ (c.queue ++ c.pending.take count) ++ c.pending.drop count =
      c.received ++ c.queue ++ c.pending := by
    simp only [List.append_assoc, List.take_append_drop]
  refine ⟨fun _ => ⟨hopen, heq⟩, ?_, ?_⟩
  · rw [← heq]
    exact List.prefix_append _ _
  · intro hclosed
    rw [hopen] at hclosed
    cases hclosed

theorem close_passes : Follows (Passes (H := H)) close := by
  refine .modify fun c => .of_closed rfl ?_
  show c.received ++ [] <+: _
  rw [List.append_nil]
  exact List.prefix_append _ _

/-- `get_notifications` reads, or finds the connection broken, before it handles notifications. -/
theorem getNotifications_follows {R : Client H → Client H → Prop} [IsPreorder (Client H) R]
    (hread : ∀ count, Follows R (readInput count)) (hbroken : ∀ c, R c { c with isOpen := false })
    (hhandle : Follows R (handleNotifications raises)) (arrived : Option Nat) :
    Follows R (getNotifications raises arrived) := by
  refine .bind ?_ fun _ => hhandle
  cases arrived with
  | some count => exact hread count
  | none =>
    refine .bind (.modify hbroken) ?_
    intro _
    exact .throw _

theorem getNotifications_passes (arrived : Option Nat) : Follows Passes (getNotifications raises arrived) :=
  getNotifications_follows readInput_passes (fun _ => .of_closed rfl (List.prefix_refl _)) handleNotifications_passes
    arrived

/-! ### Which handlers are called -/

/-- The notification with which the general handler was called. -/
def generalPart : HandlerCall H → Option Notification
  | .general _ n => some n
  | .channel _ _ => none

/-- The notification with which the handler for a channel was called. -/
def channelPart : HandlerCall H → Option Notification
  | .general _ _ => none
  | .channel _ n => some n

/-- No handler is called twice for a notification, or for a later one first. -/
structure Once (c c' : Client H) : Prop where
  general : (c.calls.filterMap generalPart).Sublist c.received →
    (c'.calls.filterMap generalPart).Sublist c'.received
  channel : (c.calls.filterMap channelPart).Sublist c.received →
    (c'.calls.filterMap channelPart).Sublist c'.received

instance : IsPreorder (Client H) Once where
  refl _ := ⟨id, id⟩
  trans _ _ _ h h' := ⟨h'.general ∘ h.general, h'.channel ∘ h.channel⟩

theorem Once.of_same {c c' : Client H} (hcalls : c'.calls = c.calls) (hreceived : c'.received = c.received) :
    Once c c' := by
  constructor
  · rw [hcalls, hreceived]
    exact id
  · rw [hcalls, hreceived]
    exact id

/-- The handlers for a notification are called with it. -/
theorem callsFor_part {c : Client H} {n : Notification} {ks : List (HandlerCall H)} (h : ks <+: c.callsFor n) :
    (ks.filterMap generalPart).Sublist [n] ∧ (ks.filterMap channelPart).Sublist [n] := by
  have hks := h.sublist
  unfold callsFor at hks
  refine ⟨(hks.filterMap _).trans ?_, (hks.filterMap _).trans ?_⟩
  · cases c.handler <;> cases (c.handlers n.channel).join <;> simp [generalPart]
  · cases c.handler <;> cases (c.handlers n.channel).join <;> simp [channelPart, List.filterMap_cons]

theorem once_handled {c : Client H} {ns rest : List Notification} {ks : List (HandlerCall H)}
    (hgeneral : (ks.filterMap generalPart).Sublist ns) (hchannel : (ks.filterMap channelPart).Sublist ns) :
    Once c (c.handled ns rest ks) := by
  constructor
  · intro h
    show ((c.calls ++ ks).filterMap _).Sublist (c.received ++ ns)
    rw [List.filterMap_append]
    exact h.append hgeneral
  · intro h
    show ((c.calls ++ ks).filterMap _).Sublist (c.received ++ ns)
    rw [List.filterMap_append]
    exact h.append hchannel

theorem flatMap_callsFor_part (c : Client H) (ns : List Notification) :
    ((ns.flatMap c.callsFor).filterMap generalPart).Sublist ns ∧
      ((ns.flatMap c.callsFor).filterMap channelPart).Sublist ns := by
  induction ns with
  | nil => exact ⟨List.Sublist.refl _, List.Sublist.refl _⟩
  | cons n ns ih =>
    obtain ⟨hgeneral, hchannel⟩ := callsFor_part (List.prefix_refl (c.callsFor n))
    rw [List.flatMap_cons, List.filterMap_append, List.filterMap_append]
    exact ⟨hgeneral.append ih.1, hchannel.append ih.2⟩

theorem handleNotifications_once : Follows Once (handleNotifications raises) := by
  intro c
  refine wp_mono (wp_weaken (handleNotifications_spec c)) ?_ ?_
  · rintro _ _ rfl
    obtain ⟨hgeneral, hchannel⟩ := flatMap_callsFor_part c c.queue
    exact once_handled hgeneral hchannel
  · rintro e _ ⟨-, before, n, after, ks, -, hprefix, -, rfl⟩
    obtain ⟨hgeneral, hchannel⟩ := flatMap_callsFor_part c before
    obtain ⟨hgeneral', hchannel'⟩ := callsFor_part hprefix
    refine once_handled ?_ ?_
    · rw [List.filterMap_append]
      exact hgeneral.append hgeneral'
    · rw [List.filterMap_append]
      exact hchannel.append hchannel'

theorem readInput_once (count : Nat) : Follows (Once (H := H)) (readInput count) := by
  intro c
  simp only [readInput, wp_bind, wp_get, wp_ite, wp_modify, wp_throw]
  exact ⟨fun _ => .of_same rfl rfl, fun _ => refl c⟩

theorem getNotifications_once (arrived : Option Nat) : Follows Once (getNotifications raises arrived) :=
  getNotifications_follows readInput_once (fun _ => .of_same rfl rfl) handleNotifications_once arrived

/-- A call of the handler for a channel. -/
def isOn (channel : Bytes) : HandlerCall H → Bool
  | .general _ _ => false
  | .channel _ n => n.channel = channel

/-- The calls of the handlers for a channel. -/
def heard (channel : Bytes) (c : Client H) : List (HandlerCall H) := c.calls.filter (isOn channel)

/-- The notifications of a channel that have been sent to the connection, but not been handled. -/
def waiting (channel : Bytes) (c : Client H) : List Notification :=
  (c.queue ++ c.pending).filter (·.channel = channel)

/-- As long as the connection is open and has a handler for a channel, nothing is missed on the channel, and the server
is not asked to stop. -/
structure Hears (E : Encoding) (channel : Bytes) (h : H) (c c' : Client H) : Prop where
  handlers : c.handlers channel = some (some h) → c'.handlers channel = some (some h)
  heard : c.handlers channel = some (some h) → c'.isOpen = true → c.isOpen = true ∧
    heard channel c' ++ (waiting channel c').map (.channel h) = heard channel c ++ (waiting channel c).map (.channel h)
  sent : ∀ q ∈ c'.sent, q ∈ c.sent ∨ E.command q ≠ some (.unlisten channel)

instance (E : Encoding) (channel : Bytes) (h : H) : IsPreorder (Client H) (Hears E channel h) where
  refl _ := ⟨id, fun _ hopen => ⟨hopen, rfl⟩, fun _ => .inl⟩
  trans c c' c'' hr hr' := by
    refine ⟨hr'.handlers ∘ hr.handlers, ?_, ?_⟩
    · intro hhandler hopen
      obtain ⟨hopen', heq'⟩ := hr'.heard (hr.handlers hhandler) hopen
      obtain ⟨hopen, heq⟩ := hr.heard hhandler hopen'
      exact ⟨hopen, heq'.trans heq⟩
    · intro q hq
      exact (hr'.sent q hq).elim (hr.sent q) .inr

variable {E : Encoding} {channel : Bytes} {h : H}

theorem callsFor_filter {c : Client H} (hhandler : c.handlers channel = some (some h))
    (n : Notification) :
    (c.callsFor n).filter (isOn channel) = ([n].filter (·.channel = channel)).map (.channel h) := by
  have hgeneral : ((c.handler.map fun h => HandlerCall.general h n).toList).filter (isOn channel) = [] := by
    cases c.handler <;> rfl
  rw [callsFor, List.filter_append, hgeneral, List.nil_append]
  by_cases hn : n.channel = channel
  · simp [hn, hhandler, isOn]
  · cases (c.handlers n.channel).join <;> simp [hn, isOn]

theorem flatMap_callsFor_filter {c : Client H}
    (hhandler : c.handlers channel = some (some h)) (ns : List Notification) :
    (ns.flatMap c.callsFor).filter (isOn channel) = (ns.filter (·.channel = channel)).map (.channel h) := by
  induction ns with
  | nil => rfl
  | cons n ns ih =>
    rw [List.flatMap_cons, List.filter_append, ih, callsFor_filter hhandler, ← List.map_append, ← List.filter_append,
      List.singleton_append]

theorem hears_handled {c : Client H} {ns rest : List Notification} (hqueue : c.queue = ns ++ rest) :
    Hears E channel h c (c.handled ns rest (ns.flatMap c.callsFor)) := by
  refine ⟨id, ?_, fun _ => .inl⟩
  intro hhandler hopen
  refine ⟨hopen, ?_⟩
  show (c.calls ++ _).filter _ ++ ((rest ++ c.pending).filter _).map _ = _
  rw [heard, waiting, hqueue, List.filter_append, flatMap_callsFor_filter hhandler, List.append_assoc,
    ← List.map_append, ← List.filter_append, List.append_assoc]

theorem handleNotifications_hears (hquiet : QuietGeneral raises) :
    Follows (Hears E channel h) (handleNotifications raises) := by
  intro c
  refine wp_mono (wp_weaken (handleNotifications_spec c)) ?_ ?_
  · rintro _ _ rfl
    exact hears_handled (List.append_nil _).symm
  · rintro e _ ⟨-, before, n, after, ks, hqueue, -, hks, rfl⟩
    have hcalls : before.flatMap c.callsFor ++ ks = (before ++ [n]).flatMap c.callsFor := by
      rw [hks hquiet, List.flatMap_append, List.flatMap_singleton]
    rw [hcalls]
    refine hears_handled ?_
    rw [hqueue, List.append_assoc, List.singleton_append]

theorem readInput_hears (count : Nat) : Follows (Hears E channel h) (readInput count) := by
  intro c
  simp only [readInput, wp_bind, wp_get, wp_ite, wp_modify, wp_throw]
  refine ⟨?_, fun _ => refl c⟩
  intro hopen
  refine ⟨id, fun _ _ => ⟨hopen, ?_⟩, fun _ => .inl⟩
  show _ ++ ((c.queue ++ c.pending.take count ++ c.pending.drop count).filter _).map _ = _
  rw [List.append_assoc, List.take_append_drop]
  rfl

/-- A connection that is closed hears nothing more. -/
theorem hears_of_closed {c c' : Client H} (hclosed : c'.isOpen = false) (hhandlers : c'.handlers = c.handlers)
    (hsent : c'.sent = c.sent) : Hears E channel h c c' := by
  refine ⟨?_, ?_, ?_⟩
  · rw [hhandlers]
    exact id
  · intro _ hopen
    rw [hclosed] at hopen
    cases hopen
  · rw [hsent]
    exact fun _ => .inl

theorem getNotifications_hears (hquiet : QuietGeneral raises) (arrived : Option Nat) :
    Follows (Hears E channel h) (getNotifications raises arrived) :=
  getNotifications_follows readInput_hears (fun _ => hears_of_closed rfl rfl rfl) (handleNotifications_hears hquiet)
    arrived

end Client

namespace Network

open Exec Client

variable {C H : Type} {E : Encoding} {raises : HandlerCall H → Nat → Bool}

/-! ### What calls of the program do -/

/-- A call that changes the handler for a channel, or ends listening to it. -/
def Call.disturbs (E : Encoding) (channel : Bytes) : Call H → Bool
  | .setChannelHandler other _ => other = channel
  | .resetChannelHandler other => other = channel
  | .listenWith other _ => other = channel
  | .unlisten other => E.nameOf other = some channel
  | _ => false

/-- A call leaves the notifications alone, and, if it does not disturb a channel, the handler for it as well. -/
structure Asks (E : Encoding) (k : Call H) (c c' : Client H) : Prop where
  frame : c' = { c with sent := c'.sent, handler := c'.handler, handlers := c'.handlers }
  sent : ∃ qs, c'.sent = c.sent ++ qs ∧
    ∀ channel, k.disturbs E channel = false → ∀ q ∈ qs, E.command q ≠ some (.unlisten channel)
  handlers : ∀ channel, k.disturbs E channel = false → c'.handlers channel = c.handlers channel

theorem Asks.of_handlers {k : Call H} {c : Client H} {handler : Option H} {handlers : Bytes → Option (Option H)}
    (h : ∀ channel, k.disturbs E channel = false → handlers channel = c.handlers channel) :
    Asks E k c { c with handler, handlers } :=
  ⟨rfl, ⟨[], (List.append_nil _).symm, fun _ _ _ h => absurd h List.not_mem_nil⟩, h⟩

/-- A handler is set or reset for another channel. -/
theorem asks_update {k : Call H} {c : Client H} {other : Bytes}
    (hk : ∀ channel, k.disturbs E channel = decide (other = channel))
    (h : Option (Option H)) : Asks E k c { c with handlers := Function.update c.handlers other h } := by
  refine .of_handlers fun channel hchannel => Function.update_of_ne ?_ _ _
  rw [hk, decide_eq_false_iff_not] at hchannel
  exact fun heq => hchannel heq.symm

theorem execute_asks {k : Call H} {q : ChannelQuery} {refused : Option Exn} {c c' : Client H} (h : Asks E k c c')
    (hq : ∀ channel, k.disturbs E channel = false → E.command q ≠ some (.unlisten channel)) :
    Leaves (execute refused q) (Asks E k c) c' := by
  unfold execute
  cases refused with
  | some e => exact h
  | none =>
    rw [Leaves, wp_bind, wp_get, wp_ite, wp_modify, wp_throw]
    refine ⟨fun _ => ⟨?_, ?_, h.handlers⟩, fun _ => h⟩
    · exact congrArg (fun c'' : Client H => { c'' with sent := c'.sent ++ [q] }) h.frame
    · obtain ⟨qs, hqs, hall⟩ := h.sent
      refine ⟨qs ++ [q], ?_, ?_⟩
      · rw [← List.append_assoc, ← hqs]
      · intro channel hchannel q' hq'
        rcases List.mem_append.1 hq' with hq' | hq'
        · exact hall channel hchannel q' hq'
        · rw [List.mem_singleton.1 hq']
          exact hq channel hchannel

/-- A statement about a channel is sent. -/
theorem named_asks {k : Call H} {keyword channel : Bytes} {refused : Option Exn} {c c' : Client H} (h : Asks E k c c')
    (hk : ∀ identifier, pqEscapeIdentifier E channel = some identifier → ∀ other, k.disturbs E other = false →
      E.command (.text (keyword ++ identifier)) ≠ some (.unlisten other)) :
    Leaves (escapeIdentifier E channel >>= fun identifier => execute refused (.text (keyword ++ identifier)))
      (Asks E k c) c' := by
  rw [Leaves, wp_bind]
  unfold escapeIdentifier
  cases hidentifier : pqEscapeIdentifier E channel with
  | none => exact h
  | some identifier => exact execute_asks h (hk identifier hidentifier)

theorem run_asks (k : Call H) (refused : Option Exn) (c : Client H) : Leaves (k.run E refused) (Asks E k c) c := by
  have hrefl : Asks E k c c := .of_handlers fun _ _ => rfl
  cases k with
  | setHandler h => exact .of_handlers fun _ _ => rfl
  | setChannelHandler other h => exact asks_update (fun _ => rfl) _
  | resetChannelHandler other => exact asks_update (fun _ => rfl) _
  | listen other =>
    refine named_asks hrefl fun identifier hidentifier channel _ => ?_
    rw [Encoding.command_listen hidentifier]
    cases E.nameOf other <;> simp
  | listenWith other h =>
    refine named_asks (asks_update (fun _ => rfl) _) fun identifier hidentifier channel _ => ?_
    rw [Encoding.command_listen hidentifier]
    cases E.nameOf other <;> simp
  | unlisten other =>
    refine named_asks hrefl fun identifier hidentifier channel hchannel => ?_
    rw [Encoding.command_unlisten hidentifier]
    intro heq
    obtain ⟨name, hname, hcommand⟩ := Option.map_eq_some_iff.1 heq
    cases hcommand
    exact absurd hname (of_decide_eq_false hchannel)
  | notify other =>
    refine named_asks hrefl fun identifier hidentifier channel _ => ?_
    rw [Encoding.command_notify hidentifier]
    cases E.nameOf other <;> simp
  | notifyPayload other payload =>
    refine execute_asks hrefl fun channel _ => ?_
    unfold Encoding.command
    simp only
    split <;> simp

/-! ### Steps -/

/-- What is owed to a connection after a NOTIFY. -/
theorem owed_append (c : C) (log : List (Notification × (C → Bool))) (n : Notification) (listeners : C → Bool) :
    owed c (log ++ [(n, listeners)]) = owed c log ++ if listeners c then [n] else [] := by
  unfold owed
  rw [List.filter_append, List.map_append]
  cases hlistens : listeners c <;> simp [hlistens]

/-- The notifications of a connection are where they should be: those that libpq has returned, those that it has read
and, as long as the connection is open, those on their way are the ones that the connection is owed. -/
structure Account (c : C) (log : List (Notification × (C → Bool))) (client : Client H) : Prop where
  all : client.received ++ client.queue <+: owed c log
  isOpen : client.isOpen = true → client.received ++ client.queue ++ client.pending = owed c log

theorem Account.passes {c : C} {log : List (Notification × (C → Bool))} {client client' : Client H}
    (h : Account c log client) (hpasses : Passes client client') : Account c log client' := by
  constructor
  · cases hopen : client.isOpen with
    | true =>
      rw [← h.isOpen hopen]
      exact hpasses.all
    | false => exact (hpasses.closed hopen).trans h.all
  · intro hopen'
    obtain ⟨hopen, heq⟩ := hpasses.isOpen hopen'
    rw [heq, h.isOpen hopen]

/-- A NOTIFY reaches the connections that listen, and is owed to them. -/
theorem Account.notify {c : C} {log : List (Notification × (C → Bool))} {client : Client H} (h : Account c log client)
    (n : Notification) (listeners : C → Bool) : Account c (log ++ [(n, listeners)])
      (if listeners c then { client with pending := client.pending ++ [n] } else client) := by
  cases hlistens : listeners c with
  | true =>
    rw [if_pos rfl]
    constructor
    · rw [owed_append, hlistens]
      exact h.all.trans (List.prefix_append _ _)
    · intro hopen
      rw [owed_append, hlistens, if_pos rfl, ← h.isOpen hopen, List.append_assoc _ client.pending]
  | false =>
    rw [if_neg Bool.false_ne_true]
    constructor
    · rw [owed_append, hlistens, if_neg Bool.false_ne_true, List.append_nil]
      exact h.all
    · intro hopen
      rw [owed_append, hlistens, if_neg Bool.false_ne_true, List.append_nil]
      exact h.isOpen hopen

section Steps

variable [DecidableEq C] {s s' : Network C H}

theorem onClient_spec {c : C} {x : Exec (Client H) Exn Unit} {P : Client H → Prop} (hx : Leaves x P (s.clients c))
    (h : s.onClient c x = some s') :
    ∃ client, P client ∧ s' = { s with clients := Function.update s.clients c client } := by
  obtain ⟨client, hclient, rfl⟩ := Option.map_eq_some_iff.1 h
  exact ⟨client, Outcome.Sat.of_stateLeft hx hclient, rfl⟩

theorem serve_spec {c : C} (h : s.serve E c = some s') : s.alive c = true ∧ ∃ q sent, (s.clients c).sent = q :: sent ∧
    s' = perform { s with clients := Function.update s.clients c { s.clients c with sent } } c (E.command q) := by
  unfold serve at h
  split at h
  · rename_i q sent halive hsent
    exact ⟨halive, q, sent, hsent, (Option.some.inj h).symm⟩
  · cases h

/-- All connections have what they are owed, and call each handler at most once for a notification. -/
structure InOrder (s : Network C H) : Prop where
  account : ∀ c, Account c s.log (s.clients c)
  general : ∀ c, ((s.clients c).calls.filterMap generalPart).Sublist (s.clients c).received
  channel : ∀ c, ((s.clients c).calls.filterMap channelPart).Sublist (s.clients c).received

theorem InOrder.update (hs : InOrder s) {c : C} {client : Client H} (hpasses : Passes (s.clients c) client)
    (honce : Once (s.clients c) client) : InOrder { s with clients := Function.update s.clients c client } := by
  have hall : ∀ {P : C → Client H → Prop}, (∀ d, P d (s.clients d)) → P c client →
      ∀ d, P d (Function.update s.clients c client d) := by
    intro P hother hc d
    by_cases hd : d = c
    · subst hd
      rwa [Function.update_self]
    · rw [Function.update_of_ne hd]
      exact hother d
  refine ⟨?_, ?_, ?_⟩
  · exact hall (P := fun d client => Account d s.log client) hs.account ((hs.account c).passes hpasses)
  · exact hall (P := fun _ client => (client.calls.filterMap generalPart).Sublist client.received) hs.general
      (honce.general (hs.general c))
  · exact hall (P := fun _ client => (client.calls.filterMap channelPart).Sublist client.received) hs.channel
      (honce.channel (hs.channel c))

theorem InOrder.perform (hs : InOrder s) (c : C) (command : Option ChannelCommand) : InOrder (s.perform c command) := by
  cases command with
  | none => exact hs
  | some command =>
    cases command with
    | listen channel => exact ⟨hs.account, hs.general, hs.channel⟩
    | unlisten channel => exact ⟨hs.account, hs.general, hs.channel⟩
    | notify n =>
      refine ⟨?_, ?_, ?_⟩
      · intro d
        have haccount := (hs.account d).notify n fun d => decide (n.channel ∈ s.listening d)
        simp only [decide_eq_true_eq] at haccount
        exact haccount
      · intro d
        have hgeneral := hs.general d
        show List.Sublist ((if _ then _ else _ : Client H).calls.filterMap _) (if _ then _ else _ : Client H).received
        split <;> exact hgeneral
      · intro d
        have hchannel := hs.channel d
        show List.Sublist ((if _ then _ else _ : Client H).calls.filterMap _) (if _ then _ else _ : Client H).received
        split <;> exact hchannel

theorem InOrder.step {a : Action C H} (hs : InOrder s) (h : s.step E raises a = some s') : InOrder s' := by
  -- a function that keeps the order, and calls no handler
  have honClient : ∀ {c : C} {x : Exec (Client H) Exn Unit},
      Leaves x (fun client => Passes (s.clients c) client ∧ Once (s.clients c) client) (s.clients c) →
        s.onClient c x = some s' → InOrder s' := by
    intro c x hx h
    obtain ⟨client, ⟨hpasses, honce⟩, rfl⟩ := onClient_spec hx h
    exact hs.update hpasses honce
  cases a with
  | call c k refused =>
    refine honClient ((run_asks k refused _).mono ?_) h
    intro client hasks
    rw [hasks.frame]
    exact ⟨.of_same rfl rfl rfl rfl, .of_same rfl rfl⟩
  | serve c =>
    obtain ⟨-, q, sent, hsent, rfl⟩ := serve_spec h
    have hsent : InOrder { s with clients := Function.update s.clients c { s.clients c with sent } } :=
      hs.update (.of_same rfl rfl rfl rfl) (.of_same rfl rfl)
    exact hsent.perform c _
  | read c count => exact honClient ((readInput_passes count _).and (readInput_once count _)) h
  | handle c => exact honClient ((handleNotifications_passes _).and (handleNotifications_once _)) h
  | get c arrived => exact honClient ((getNotifications_passes arrived _).and (getNotifications_once arrived _)) h
  | close c =>
    refine honClient ((close_passes _).and ?_) h
    exact .of_same rfl rfl
  | endSession c =>
    obtain rfl := Option.some.inj h
    exact ⟨hs.account, hs.general, hs.channel⟩

/-! ### A listener -/

/-- The notifications on a channel. -/
def published (channel : Bytes) (log : List (Notification × (C → Bool))) : List Notification :=
  (log.map Prod.fst).filter (·.channel = channel)

/-- A call of a connection that changes its handler for a channel or ends its listening, or the end of its session. -/
def Action.disturbs (E : Encoding) (c : C) (channel : Bytes) : Action C H → Bool
  | .call d k _ => decide (d = c) && k.disturbs E channel
  | .endSession d => d = c
  | _ => false

/-- A connection listens to a channel and has a handler for it since a state, and has missed nothing. -/
structure Listener (E : Encoding) (c : C) (channel : Bytes) (h : H) (since s : Network C H) : Prop where
  handlers : (s.clients c).handlers channel = some (some h)
  listening : channel ∈ s.listening c
  sent : ∀ q ∈ (s.clients c).sent, E.command q ≠ some (.unlisten channel)
  log : since.log.length ≤ s.log.length
  heard : (s.clients c).isOpen = true →
    heard channel (s.clients c) ++ (waiting channel (s.clients c)).map (.channel h) =
      heard channel (since.clients c) ++
        (waiting channel (since.clients c) ++ published channel (s.log.drop since.log.length)).map (.channel h)

variable {c : C} {channel : Bytes} {h : H} {since : Network C H}

omit [DecidableEq C] in
theorem Listener.hears (hs : Listener E c channel h since s) (hhears : Hears E channel h (s.clients c) (s'.clients c))
    (hlistening : channel ∈ s'.listening c) (hlog : s'.log = s.log) : Listener E c channel h since s' := by
  refine ⟨hhears.handlers hs.handlers, hlistening, ?_, ?_, ?_⟩
  · intro q hq
    exact (hhears.sent q hq).elim (hs.sent q) id
  · rw [hlog]
    exact hs.log
  · intro hopen
    obtain ⟨hopen', heq⟩ := hhears.heard hs.handlers hopen
    rw [heq, hlog]
    exact hs.heard hopen'

/-- A function is called that leaves the handler and misses nothing. -/
theorem Listener.update (hs : Listener E c channel h since s) {d : C} {client : Client H}
    (hhears : d = c → Hears E channel h (s.clients d) client) :
    Listener E c channel h since { s with clients := Function.update s.clients d client } := by
  refine hs.hears ?_ hs.listening rfl
  show Hears E channel h (s.clients c) (Function.update s.clients d client c)
  by_cases hd : c = d
  · subst hd
    rw [Function.update_self]
    exact hhears rfl
  · rw [Function.update_of_ne hd]
    exact refl _

/-- A connection that listens is told of a NOTIFY. -/
theorem Listener.notify (hs : Listener E c channel h since s) (d : C) (n : Notification) :
    Listener E c channel h since (s.perform d (some (.notify n))) := by
  have hdrop : (s.perform d (some (.notify n))).log.drop since.log.length =
      s.log.drop since.log.length ++ [(n, fun d => decide (n.channel ∈ s.listening d))] :=
    List.drop_append_of_le_length hs.log
  have hlength : since.log.length ≤ (s.perform d (some (.notify n))).log.length := by
    refine hs.log.trans ?_
    show _ ≤ (s.log ++ [_]).length
    rw [List.length_append]
    exact Nat.le_add_right _ _
  have hpublished : published channel ((s.perform d (some (.notify n))).log.drop since.log.length) =
      published channel (s.log.drop since.log.length) ++ [n].filter (·.channel = channel) := by
    rw [hdrop, published, List.map_append, List.filter_append]
    rfl
  by_cases hn : n.channel ∈ s.listening c
  · have hclient : (s.perform d (some (.notify n))).clients c =
        { s.clients c with pending := (s.clients c).pending ++ [n] } := if_pos hn
    refine ⟨?_, hs.listening, ?_, hlength, ?_⟩
    · rw [hclient]
      exact hs.handlers
    · rw [hclient]
      exact hs.sent
    · intro hopen
      rw [hclient] at hopen ⊢
      have hwaiting : waiting channel { s.clients c with pending := (s.clients c).pending ++ [n] } =
          waiting channel (s.clients c) ++ [n].filter (·.channel = channel) := by
        unfold waiting
        rw [← List.append_assoc, List.filter_append]
      have hheard := hs.heard hopen
      rw [hpublished, hwaiting, List.map_append, ← List.append_assoc, ← List.append_assoc, List.map_append,
        ← List.append_assoc]
      exact congrArg (· ++ _) hheard
  · -- it is on another channel
    have hclient : (s.perform d (some (.notify n))).clients c = s.clients c := if_neg hn
    have hother : [n].filter (·.channel = channel) = [] := by
      refine List.filter_eq_nil_iff.2 ?_
      intro m hm
      rw [List.mem_singleton.1 hm, decide_eq_true_eq]
      rintro rfl
      exact hn hs.listening
    refine ⟨?_, hs.listening, ?_, hlength, ?_⟩
    · rw [hclient]
      exact hs.handlers
    · rw [hclient]
      exact hs.sent
    · rw [hclient, hpublished, hother, List.append_nil]
      exact hs.heard

theorem Listener.perform (hs : Listener E c channel h since s) (d : C) {command : Option ChannelCommand}
    (hcommand : d = c → command ≠ some (.unlisten channel)) : Listener E c channel h since (s.perform d command) := by
  cases command with
  | none => exact hs
  | some command =>
    cases command with
    | listen other =>
      refine hs.hears (refl _) ?_ rfl
      show channel ∈ Function.update s.listening d (other :: s.listening d) c
      by_cases hd : c = d
      · subst hd
        rw [Function.update_self]
        exact List.mem_cons_of_mem _ hs.listening
      · rw [Function.update_of_ne hd]
        exact hs.listening
    | unlisten other =>
      refine hs.hears (refl _) ?_ rfl
      show channel ∈ Function.update s.listening d ((s.listening d).filter (· ≠ other)) c
      by_cases hd : c = d
      · subst hd
        rw [Function.update_self, List.mem_filter, decide_eq_true_eq]
        refine ⟨hs.listening, ?_⟩
        rintro rfl
        exact hcommand rfl rfl
      · rw [Function.update_of_ne hd]
        exact hs.listening
    | notify n => exact hs.notify d n

theorem Asks.hears {k : Call H} (hk : k.disturbs E channel = false) {client client' : Client H}
    (h' : Asks E k client client') : Hears E channel h client client' := by
  refine ⟨fun hhandler => (h'.handlers channel hk).trans hhandler, ?_, ?_⟩
  · intro _
    rw [h'.frame]
    exact fun hopen => ⟨hopen, rfl⟩
  · obtain ⟨qs, hqs, hall⟩ := h'.sent
    rw [hqs]
    intro q hq
    exact (List.mem_append.1 hq).imp id (hall channel hk q)

theorem Listener.step (hquiet : QuietGeneral raises) (hs : Listener E c channel h since s) {a : Action C H}
    (ha : a.disturbs E c channel = false) (hstep : s.step E raises a = some s') : Listener E c channel h since s' := by
  have honClient : ∀ {d : C} {x : Exec (Client H) Exn Unit}, Leaves x (Hears E channel h (s.clients d)) (s.clients d) →
      s.onClient d x = some s' → Listener E c channel h since s' := by
    intro d x hx hstep
    obtain ⟨client, hhears, rfl⟩ := onClient_spec hx hstep
    exact hs.update fun _ => hhears
  cases a with
  | call d k refused =>
    obtain ⟨client, hasks, rfl⟩ := onClient_spec (run_asks k refused _) hstep
    refine hs.update ?_
    rintro rfl
    exact hasks.hears (by simpa [Action.disturbs] using ha)
  | serve d =>
    obtain ⟨-, q, sent, hsent, rfl⟩ := serve_spec hstep
    have hrest : Hears E channel h (s.clients d) { s.clients d with sent } := by
      refine ⟨id, fun _ hopen => ⟨hopen, rfl⟩, ?_⟩
      intro q' hq'
      rw [hsent]
      exact .inl (List.mem_cons_of_mem _ hq')
    refine (hs.update fun _ => hrest).perform d ?_
    rintro rfl
    refine hs.sent q ?_
    rw [hsent]
    exact List.mem_cons_self
  | read d count => exact honClient (readInput_hears count _) hstep
  | handle d => exact honClient (handleNotifications_hears hquiet _) hstep
  | get d arrived => exact honClient (getNotifications_hears hquiet arrived _) hstep
  | close d =>
    have hclosed : Hears E channel h (s.clients d) { s.clients d with isOpen := false, queue := [] } :=
      hears_of_closed rfl rfl rfl
    exact honClient (x := Client.close) hclosed hstep
  | endSession d =>
    obtain rfl := Option.some.inj hstep
    have hd : c ≠ d := fun hd => by simp [Action.disturbs, hd] at ha
    refine hs.hears (refl _) ?_ rfl
    show channel ∈ Function.update s.listening d [] c
    rw [Function.update_of_ne hd]
    exact hs.listening

end Steps

end Network

open Network Client

variable {C H : Type} [DecidableEq C]

/-- In every run of any number of connections: what libpq has returned to a connection, what it has read, and what is on
its way are the notifications of the time when the connection listened, each once and in the order of the NOTIFYs, and
no handler is called twice for a notification or in another order.  When a connection is lost, only the last ones are
missing. -/
theorem notifications_in_order (E : Encoding) (raises : HandlerCall H → Nat → Bool) {s : Network C H}
    (h : Run Network.init (Network.step E raises) (fun _ _ => True) s) (c : C) :
    (s.clients c).received ++ (s.clients c).queue <+: owed c s.log ∧
      ((s.clients c).isOpen = true →
        (s.clients c).received ++ (s.clients c).queue ++ (s.clients c).pending = owed c s.log) ∧
      ((s.clients c).calls.filterMap generalPart).Sublist (s.clients c).received ∧
      ((s.clients c).calls.filterMap channelPart).Sublist (s.clients c).received := by
  have hinit : InOrder (Network.init : Network C H) :=
    ⟨fun _ => ⟨List.prefix_refl _, fun _ => rfl⟩, fun _ => List.Sublist.refl _, fun _ => List.Sublist.refl _⟩
  have hs : InOrder s := h.invariant hinit fun _ _ _ hs _ hstep => hs.step hstep
  exact ⟨(hs.account c).all, (hs.account c).isOpen, hs.general c, hs.channel c⟩

/-- One notification is received, and one is not read yet. -/
theorem notifications_in_order_two : ∃ s : Network Bool Nat,
    (s.clients true).received.length = 1 ∧ (s.clients true).received ++ (s.clients true).queue <+: owed true s.log ∧
      ((s.clients true).isOpen = true →
        (s.clients true).received ++ (s.clients true).queue ++ (s.clients true).pending = owed true s.log) ∧
      ((s.clients true).calls.filterMap generalPart).Sublist (s.clients true).received ∧
      ((s.clients true).calls.filterMap channelPart).Sublist (s.clients true).received := by
  obtain ⟨s, hrun, hreceived⟩ := Run.of_trace (Network.init : Network Bool Nat)
    (Network.step .sqlAscii fun _ _ => false) (fun _ _ => True)
    [.call true (.listenWith (ascii "a") (some 7)) none, .serve true, .call false (.notify (ascii "a")) none,
      .serve false, .call false (.notifyPayload (ascii "a") (ascii "x")) none, .serve false, .read true 1, .handle true]
    (P := fun s => (s.clients true).received.length = 1) (by decide +kernel)
  exact ⟨s, hreceived, notifications_in_order .sqlAscii _ hrun true⟩

/-- A connection listens to a channel, has a handler for it and no UNLISTEN on its way.  As long as this is not changed,
the connection stays open and no general handler throws, every NOTIFY on the channel by any connection is heard by the
handler exactly once, in the order of the NOTIFYs, or waits for being handled. -/
theorem every_notification_heard (E : Encoding) {raises : HandlerCall H → Nat → Bool} (hquiet : QuietGeneral raises)
    {since s : Network C H} {c : C} {channel : Bytes} {h : H}
    (hhandler : (since.clients c).handlers channel = some (some h)) (hlistening : channel ∈ since.listening c)
    (hsent : ∀ q ∈ (since.clients c).sent, E.command q ≠ some (.unlisten channel))
    (hrun : Run since (Network.step E raises) (fun _ a => a.disturbs E c channel = false) s)
    (hopen : (s.clients c).isOpen = true) :
    heard channel (s.clients c) ++ (waiting channel (s.clients c)).map (.channel h) =
      heard channel (since.clients c) ++
        (waiting channel (since.clients c) ++ published channel (s.log.drop since.log.length)).map (.channel h) := by
  have hinit : Listener E c channel h since since := by
    refine ⟨hhandler, hlistening, hsent, Nat.le_refl _, ?_⟩
    intro _
    rw [List.drop_length]
    simp [published]
  have hs : Listener E c channel h since s :=
    hrun.invariant hinit fun _ _ _ hs ha hstep => hs.step hquiet ha hstep
  exact hs.heard hopen

theorem every_notification_heard_payload : ∃ s : Network Bool Nat,
    heard (ascii "a") (s.clients true) ++ (waiting (ascii "a") (s.clients true)).map (.channel 7) =
      heard (ascii "a") (Client.init : Client Nat) ++
        (waiting (ascii "a") (Client.init : Client Nat) ++ published (ascii "a") (s.log.drop 0)).map (.channel 7) := by
  obtain ⟨s, hrun, hopen⟩ := Run.of_trace
    (⟨fun _ => { Client.init with handlers := fun _ => some (some 7) }, fun _ => true, fun _ => [ascii "a"], []⟩ :
      Network Bool Nat) (Network.step .sqlAscii fun _ _ => false)
    (fun _ a => a.disturbs .sqlAscii true (ascii "a") = false)
    [.call false (.notifyPayload (ascii "a") (ascii "x")) none, .serve false, .read true 1, .handle true]
    (P := fun s => (s.clients true).isOpen = true) (by decide +kernel)
  exact ⟨s, every_notification_heard .sqlAscii (fun _ _ _ => rfl) rfl List.mem_cons_self (by decide) hrun hopen⟩

/-- Whatever a channel is called, `listen`, `unlisten` and `notify` send one statement each, which the server reads as
that statement for one and the same channel.  It is the channel of the handlers, which the program names, exactly if
the name is not empty, has less than 64 bytes and no byte `0`. -/
theorem channel_names (E : Encoding) {channel : Bytes} (hvalid : E.valid (stringAt channel) = true) {c : Client H}
    (hopen : c.isOpen = true) :
    (∃ q, listen E none channel c = .ret () { c with sent := c.sent ++ [q] } ∧
      E.command q = (E.nameOf channel).map .listen) ∧
    (∃ q, unlisten E none channel c = .ret () { c with sent := c.sent ++ [q] } ∧
      E.command q = (E.nameOf channel).map .unlisten) ∧
    (∃ q, notify E none channel c = .ret () { c with sent := c.sent ++ [q] } ∧
      E.command q = (E.nameOf channel).map fun name => .notify ⟨name, []⟩) ∧
    (E.nameOf channel = some channel ↔ channel ≠ [] ∧ channel.length < 64 ∧ Byte.nul ∉ channel) := by
  obtain ⟨identifier, hidentifier⟩ : ∃ identifier, pqEscapeIdentifier E channel = some identifier := ⟨_, if_pos hvalid⟩
  have hsend : ∀ keyword, (escapeIdentifier E channel >>= fun identifier =>
      execute none (.text (keyword ++ identifier)) : Exec (Client H) Exn Unit) c =
        .ret () { c with sent := c.sent ++ [.text (keyword ++ identifier)] } := by
    intro keyword
    have hescape : (escapeIdentifier E channel : Exec (Client H) Exn Bytes) c = .ret identifier c := by
      unfold escapeIdentifier
      rw [hidentifier]
      rfl
    rw [Exec.bind_ret hescape]
    show (if c.isOpen = true then _ else _ : Exec (Client H) Exn Unit) c = _
    rw [if_pos hopen]
    rfl
  exact ⟨⟨_, hsend _, Encoding.command_listen hidentifier⟩, ⟨_, hsend _, Encoding.command_unlisten hidentifier⟩,
    ⟨_, hsend _, Encoding.command_notify hidentifier⟩, E.nameOf_eq_self_iff channel⟩

theorem channel_names_quote :
    (∃ q, listen .sqlAscii none (ascii "a\"b") (Client.init : Client Nat) = .ret () { Client.init with sent := [q] } ∧
      Encoding.sqlAscii.command q = (Encoding.sqlAscii.nameOf (ascii "a\"b")).map .listen) ∧
    (∃ q, unlisten .sqlAscii none (ascii "a\"b") (Client.init : Client Nat) = .ret () { Client.init with sent := [q] } ∧
      Encoding.sqlAscii.command q = (Encoding.sqlAscii.nameOf (ascii "a\"b")).map .unlisten) ∧
    (∃ q, notify .sqlAscii none (ascii "a\"b") (Client.init : Client Nat) = .ret () { Client.init with sent := [q] } ∧
      Encoding.sqlAscii.command q = (Encoding.sqlAscii.nameOf (ascii "a\"b")).map fun name => .notify ⟨name, []⟩) ∧
    (Encoding.sqlAscii.nameOf (ascii "a\"b") = some (ascii "a\"b") ↔
      ascii "a\"b" ≠ [] ∧ (ascii "a\"b").length < 64 ∧ Byte.nul ∉ ascii "a\"b") :=
  channel_names .sqlAscii rfl rfl

end TaoPQ
