import TaoPQ.Deadlines
import TaoPQ.Lib.Bytes
import TaoPQ.Lib.Runs

/-!
# Waiting for a result

The loop of `connection::get_result` (`connection.cpp`), with `internal::poll` (`internal/poll.cpp`), between a server
and two sockets whose buffers are finite.  The query may be longer than what the buffers hold, and so may be what the
server answers before it has read all of the query, so that neither side can wait for the other one to read first.
While libpq still has something to send, the loop waits for both directions, and the wait comes to an end whatever the
order is in which bytes are moved: a result is there, or the deadline was reached, the network failed or a notification
handler threw (`get_result_ends`).
-/

namespace TaoPQ

open Exec

/-! ### `poll` -/

/-- What the system call `poll` returns for one socket: no event before the timeout, some events, or an error, which is
an interruption or not. -/
inductive SystemPoll where
  | none
  | ready (revents : Nat)
  | error (interrupted : Bool)
  deriving DecidableEq, Repr

/-- `POLLIN` -/
def pollin : Nat := 1

/-- `POLLOUT` -/
def pollout : Nat := 4

/-- The events that are waited for. -/
def pollEvents (waitForWrite : Bool) : Nat := pollin ||| (if waitForWrite then pollout else 0)

/-- `internal::poll`, where an error is the text of a `network_error`. -/
def internalPoll (waitForWrite : Bool) : SystemPoll → Except String PollStatus
  | .none => .ok .timeout
  | .ready revents =>
    if revents &&& pollEvents waitForWrite = 0 then
      .error ("poll() failed, events " ++ toString (pollEvents waitForWrite) ++ ", revents " ++ toString revents)
    else .ok (if revents &&& pollin ≠ 0 then .readable else .writable)
  | .error interrupted => if interrupted then .ok .again else .error "poll() failed: "

/-- How a round of the loop of `wait` ends: it is left, entered again, or something is thrown. -/
def roundEnds : PollStatus → Input → Except Exn Bool
  | .timeout, _ => .error (.timeoutReached "timeout reached")
  | .readable, .done => .ok true
  | .readable, .broken => .error (.connectionError .libpq)
  | .readable, .handler => .error .user
  | .writable, _ => .ok true
  | .again, _ => .ok false

/-- It is the loop that `waitRounds` runs. -/
theorem waitRounds_roundEnds {DB : Type} (timeout : Option Int) (deadline : Int) (w : Bool) {r : Round}
    (hsocket : r.socket = true) (s : Waiting DB) :
    wp False (waitRounds timeout deadline w [r]) (fun returned _ => roundEnds r.status r.input = .ok returned)
      (fun e _ => roundEnds r.status r.input = .error e) s := by
  rw [waitRounds, wp_ite]
  refine ⟨fun h => absurd (hsocket.symm.trans h) (by decide), fun _ => ?_⟩
  rw [wp_bind, wp_callPoll]
  cases r.status with
  | timeout => exact rfl
  | readable =>
    refine (wp_bind _ _).mpr ?_
    unfold getNotifications
    cases r.input with
    | done => exact rfl
    | broken => exact rfl
    | handler => exact rfl
  | writable => exact rfl
  | again => exact rfl

/-! ### The two sides and what is between them -/

/-- What is thrown by `get_result` while it waits. -/
inductive Failure where
  | exn (e : Exn)
  | networkError (what : String)
  deriving DecidableEq, Repr

/-- Where `get_result` is: at the head of its loop, in `wait`, or at one of its ends. -/
inductive Point where
  | loop (waitForWrite : Bool)
  | wait (waitForWrite : Bool)
  | returned
  | threw (e : Failure)
  deriving DecidableEq, Repr

/-- What `connection::socket` throws. -/
def noSocketError : Exn := .error (.text "PQsocket(): unable to retrieve file descriptor")

/-- Where `get_result` is after a round of the loop of `wait`. -/
def Point.after (waitForWrite : Bool) : Except Exn Bool → Point
  | .ok true => .loop waitForWrite
  | .ok false => .wait waitForWrite
  | .error e => .threw (.exn e)

/-- A connection on which `get_result` waits.  `output` is what libpq has not sent yet, `upstream` what the server has
not read yet and `taken` what it has read, `downstream` is on the way back, and `input` is what libpq has read.  The
connection may be `lost`, and `signals` interrupt a system call. -/
structure Link where
  point : Point
  output : Bytes
  upstream : Bytes
  taken : Bytes
  downstream : Bytes
  input : Bytes
  lost : Bool
  signals : Nat
  deriving DecidableEq, Repr

/-- What surrounds the loop: how many bytes the sockets hold in both directions, and how much room there is upstream
when `poll` reports that the socket is writable; what the server answers to what it has read, and whether it goes on
reading while it has something to write; and whether libpq is busy after what it has read.  `timed`, `fails`, `fragile`
and `handlers` say whether there is a deadline, whether `poll` may fail, whether the connection may be lost, and whether
a notification handler may throw. -/
structure Line where
  upstream : Nat
  downstream : Nat
  room : Nat
  answer : Bytes → Bytes
  reads : Bytes → Bool
  busy : Bytes → Bool
  timed : Bool
  fails : Bool
  fragile : Bool
  handlers : Bool
  room_pos : 0 < room
  room_le : room ≤ upstream
  downstream_pos : 0 < downstream
  answer_mono : ∀ {s t : Bytes}, s <+: t → answer s <+: answer t
  /-- A server with nothing to write reads. -/
  reads_nil : reads [] = true

/-- What `PQflush` has done: some bytes are sent, or what was to be sent is discarded, as the connection is lost. -/
inductive Flushed where
  | sent (n : Nat)
  | discarded
  deriving DecidableEq, Repr

/-- What happens next.  In a round of the loop, `PQflush` fails if there is no `Flushed`.  In a round of `wait`, `n`
bytes are read if the socket is readable, or libpq has no socket any more. -/
inductive LinkAction where
  | loop (flushed : Option Flushed) (handler : Bool)
  | poll (r : SystemPoll) (input : Input) (flushed : Flushed) (n : Nat)
  | noSocket
  | serverRead (n : Nat)
  | serverWrite (n : Nat)
  | lose
  deriving DecidableEq, Repr

namespace Line

variable (L : Line)

/-- There is so much room upstream that the socket is writable. -/
def Writable (x : Link) : Prop := x.upstream.length + L.room ≤ L.upstream

instance (x : Link) : Decidable (L.Writable x) := inferInstanceAs (Decidable (_ ≤ _))

/-- What the server has not written yet of its answer to what it has read. -/
def pending (x : Link) : Bytes := (L.answer x.taken).drop (x.input.length + x.downstream.length)

/-- `PQflush`, which sends something if the socket is writable. -/
def flush (x : Link) : Flushed → Option Link
  | .sent n =>
    if n ≤ x.output.length ∧ x.upstream.length + n ≤ L.upstream ∧ (x.output ≠ [] → L.Writable x → 0 < n) then
      some { x with output := x.output.drop n, upstream := x.upstream ++ x.output.take n }
    else none
  | .discarded => if x.lost then some { x with output := [] } else none

/-- `PQconsumeInput`, which flushes as well. -/
def consumeInput (x : Link) (flushed : Flushed) (n : Nat) : Option Link :=
  (L.flush x flushed).bind fun x =>
    if 0 < n ∧ n ≤ x.downstream.length then
      some { x with downstream := x.downstream.drop n, input := x.input ++ x.downstream.take n }
    else none

/-- When the system call returns so. -/
def Reports (x : Link) (waitForWrite : Bool) : SystemPoll → Prop
  | .none => L.timed
  | .ready revents =>
    (revents &&& pollin ≠ 0 → x.downstream ≠ [] ∨ x.lost) ∧
      (revents &&& pollout ≠ 0 → waitForWrite ∧ L.Writable x) ∧ (revents &&& pollEvents waitForWrite = 0 → L.fails)
  | .error true => 0 < x.signals
  | .error false => L.fails

instance (x : Link) (w : Bool) : (r : SystemPoll) → Decidable (L.Reports x w r)
  | .none => inferInstanceAs (Decidable (_ = _))
  | .ready _ => inferInstanceAs (Decidable (_ ∧ _))
  | .error true => inferInstanceAs (Decidable (_ < _))
  | .error false => inferInstanceAs (Decidable (_ = _))

/-- What a round of `wait` does with the bytes. -/
def duringRound (x : Link) (flushed : Flushed) (n : Nat) : PollStatus → Input → Option Link
  | .readable, .done => L.consumeInput x flushed n
  | .readable, .handler => if L.handlers then L.consumeInput x flushed n else none
  | .readable, .broken => if x.lost then some x else none
  | .again, _ => some { x with signals := x.signals - 1 }
  -- that the connection is closed then is in `waitRounds`
  | .timeout, _ => some x
  | .writable, _ => some x

/-- A round of the loop of `get_result` up to `wait`, or what follows the loop. -/
def loopStep (x : Link) (waitForWrite : Bool) (flushed : Option Flushed) (handler : Bool) : Option Link :=
  if L.busy x.input then
    if waitForWrite then
      match flushed with
      | some flushed => (L.flush x flushed).map fun x => { x with point := .wait (decide (x.output ≠ [])) }
      | none => if x.lost then some { x with point := .threw (.exn (.error .libpq)) } else none
    else some { x with point := .wait false }
  else if handler then
    if L.handlers then some { x with point := .threw (.exn .user) } else none
  else some { x with point := .returned }

/-- A round of the loop of `wait`. -/
def waitStep (x : Link) (waitForWrite : Bool) (r : SystemPoll) (input : Input) (flushed : Flushed) (n : Nat) :
    Option Link :=
  if L.Reports x waitForWrite r then
    match internalPoll waitForWrite r with
    | .ok status =>
      (L.duringRound x flushed n status input).map fun x =>
        { x with point := Point.after waitForWrite (roundEnds status input) }
    | .error what => some { x with point := .threw (.networkError what) }
  else none

def step (x : Link) : LinkAction → Option Link
  | .loop flushed handler =>
    match x.point with
    | .loop w => L.loopStep x w flushed handler
    | _ => none
  | .poll r input flushed n =>
    match x.point with
    | .wait w => L.waitStep x w r input flushed n
    | _ => none
  | .noSocket =>
    match x.point with
    | .wait _ => if x.lost then some { x with point := .threw (.exn noSocketError) } else none
    | _ => none
  | .serverRead n =>
    if x.lost = false ∧ 0 < n ∧ n ≤ x.upstream.length ∧ L.reads (L.pending x) then
      some { x with upstream := x.upstream.drop n, taken := x.taken ++ x.upstream.take n }
    else none
  | .serverWrite n =>
    if x.lost = false ∧ 0 < n ∧ n ≤ (L.pending x).length ∧ x.downstream.length + n ≤ L.downstream then
      some { x with downstream := x.downstream ++ (L.pending x).take n }
    else none
  | .lose => if L.fragile ∧ x.lost = false then some { x with lost := true } else none

/-- What may be thrown, and when. -/
def Allows : Failure → Prop
  | .exn (.timeoutReached what) => what = "timeout reached" ∧ L.timed
  | .exn .user => L.handlers
  | .exn (.connectionError _) => L.fragile
  | .exn (.error _) => L.fragile
  | .exn _ => False
  | .networkError _ => L.fails

/-- Nothing is waited for any more: libpq has got a result out of what the server answers to all that was sent, or what
is thrown has a reason. -/
def Finished (total : Bytes) (x : Link) : Prop :=
  match x.point with
  | .loop _ => False
  | .wait _ => False
  | .returned => L.busy x.input = false ∧ x.input <+: L.answer total
  | .threw e => L.Allows e

/-! ### What is kept -/

/-- No byte is lost or made up, and no socket holds more than it can. -/
structure Carries (total : Bytes) (x : Link) : Prop where
  sent : x.lost = false → x.taken ++ x.upstream ++ x.output = total
  got : x.taken ++ x.upstream ++ x.output <+: total
  answered : x.input ++ x.downstream <+: L.answer x.taken
  upstream_le : x.upstream.length ≤ L.upstream
  downstream_le : x.downstream.length ≤ L.downstream
  fragile_of_lost : x.lost = true → L.fragile = true

/-- What is known at the places of `get_result`. -/
def At (x : Link) : Point → Prop
  | .loop w => w = false → x.output = []
  | .wait w => w = false → x.output = [] ∧ L.busy x.input
  | .returned => L.busy x.input = false
  | .threw e => L.Allows e

/-- The invariant. -/
def Sound (total : Bytes) (x : Link) : Prop := L.Carries total x ∧ L.At x x.point

variable {L} {total : Bytes} {x x' : Link}

namespace Carries

theorem taken_le (hx : L.Carries total x) : x.taken <+: total := by
  have h := hx.got
  rw [List.append_assoc] at h
  exact (List.prefix_append _ _).trans h

theorem input_le (hx : L.Carries total x) : x.input <+: L.answer total :=
  ((List.prefix_append _ _).trans hx.answered).trans (L.answer_mono hx.taken_le)

theorem length_le (hx : L.Carries total x) : x.input.length + x.downstream.length ≤ (L.answer total).length := by
  have h := (hx.answered.trans (L.answer_mono hx.taken_le)).length_le
  rwa [List.length_append] at h

/-- What is on the way to the program, and then what the server has yet to write, follows what was read. -/
theorem append_pending (hx : L.Carries total x) : x.input ++ x.downstream ++ L.pending x = L.answer x.taken := by
  obtain ⟨rest, hrest⟩ := hx.answered
  rw [pending, ← hrest, ← List.length_append, List.drop_left]

end Carries

/-! ### How much is left to do -/

variable (L) (total) in
/-- The moves of single bytes that are left: each byte of the query goes out and arrives, and each byte of the answer is
written and read. -/
def left (x : Link) : Nat :=
  2 * x.output.length + x.upstream.length + ((L.answer total).length - (x.input.length + x.downstream.length)) +
    ((L.answer total).length - x.input.length)

variable (L) in
/-- How much a place counts.  A `wait` for a socket that is already writable is about to end without any byte having
moved, so that it counts more than the round of the loop that follows it. -/
def weight (x : Link) : Nat :=
  match x.point with
  | .loop _ => 2
  | .wait w => if w ∧ L.Writable x then 3 else 1
  | .returned => 0
  | .threw _ => 0

variable (L) (total) in
def measure (x : Link) : Nat := 3 * L.left total x + L.weight x + x.signals + (if x.lost then 0 else 1)

/-- What `PQflush` has done to the bytes. -/
theorem flush_cases {f : Flushed} (h : L.flush x f = some x') :
    (∃ n, n ≤ x.output.length ∧ x.upstream.length + n ≤ L.upstream ∧ (x.output ≠ [] → L.Writable x → 0 < n) ∧
      x' = { x with output := x.output.drop n, upstream := x.upstream ++ x.output.take n }) ∨
    (x.lost = true ∧ x' = { x with output := [] }) := by
  cases f with
  | sent n =>
    obtain ⟨⟨hn, hroom, hsome⟩, h⟩ := Option.ite_none_right_eq_some.1 h
    exact Or.inl ⟨n, hn, hroom, hsome, (Option.some.inj h).symm⟩
  | discarded =>
    obtain ⟨hlost, h⟩ := Option.ite_none_right_eq_some.1 h
    exact Or.inr ⟨hlost, (Option.some.inj h).symm⟩

theorem Carries.flush (hx : L.Carries total x) {f : Flushed} (h : L.flush x f = some x') : L.Carries total x' := by
  obtain ⟨hsent, hgot, hanswered, hup, hdown, hfragile⟩ := hx
  obtain ⟨n, hn, hroom, -, rfl⟩ | ⟨hlost, rfl⟩ := flush_cases h
  · have hbytes : x.taken ++ (x.upstream ++ x.output.take n) ++ x.output.drop n =
        x.taken ++ x.upstream ++ x.output := by
      simp only [List.append_assoc, List.take_append_drop]
    refine ⟨fun hlost => hbytes.trans (hsent hlost), hbytes ▸ hgot, hanswered, ?_, hdown, hfragile⟩
    simp only [List.length_append, List.length_take]
    omega
  · refine ⟨fun h => absurd (hlost.symm.trans h) (by decide), ?_, hanswered, hup, hdown, hfragile⟩
    rw [List.append_nil]
    exact (List.prefix_append _ _).trans hgot

/-- Flushing leaves less to do, if it moves anything. -/
theorem left_flush {f : Flushed} (h : L.flush x f = some x') : L.left total x' ≤ L.left total x := by
  obtain ⟨n, hn, -, -, rfl⟩ | ⟨-, rfl⟩ := flush_cases h
  · simp only [left, List.length_append, List.length_take, List.length_drop]
    omega
  · simp only [left, List.length_nil]
    omega

/-- After a flush that leaves something, the socket is not writable any more, or something was sent. -/
theorem left_flush_lt {f : Flushed} (h : L.flush x f = some x') (hmore : x'.output ≠ []) (hroom : L.Writable x') :
    L.left total x' < L.left total x := by
  obtain ⟨n, hn, -, hsome, rfl⟩ | ⟨-, rfl⟩ := flush_cases h
  · have hout : x.output ≠ [] := by
      intro hnil
      refine hmore ?_
      rw [hnil]
      exact List.drop_nil
    have hbefore : L.Writable x := by
      simp only [Writable, List.length_append] at hroom ⊢
      omega
    have hpos : 0 < n := hsome hout hbefore
    simp only [left, List.length_append, List.length_take, List.length_drop]
    omega
  · exact absurd rfl hmore

/-! ### What a step keeps, and that it leaves less to do -/

variable (L) (total) in
/-- What is to be shown of each step. -/
def Goes (x x' : Link) : Prop := L.Sound total x' ∧ L.measure total x' < L.measure total x

theorem at_point {y : Link} {p q : Point} : L.At { y with point := p } q ↔ L.At y q := by
  cases q <;> exact Iff.rfl

theorem measure_to {y : Link} {p : Point} : L.measure total { y with point := p } =
    3 * L.left total y + L.weight { y with point := p } + y.signals + (if y.lost then 0 else 1) := rfl

/-- A step to another place, after the bytes have been moved. -/
theorem goes_to {y : Link} {p : Point} (hy : L.Carries total y) (hat : L.At y p)
    (hlt : L.measure total { y with point := p } < L.measure total x) : L.Goes total x { y with point := p } :=
  ⟨⟨⟨hy.sent, hy.got, hy.answered, hy.upstream_le, hy.downstream_le, hy.fragile_of_lost⟩, at_point.2 hat⟩, hlt⟩

/-- A step to another place that moves no bytes. -/
theorem goes_on {p : Point} (hx : L.Carries total x) (hat : L.At x p)
    (hlt : L.weight { x with point := p } < L.weight x) : L.Goes total x { x with point := p } := by
  refine goes_to hx hat ?_
  rw [measure_to, measure]
  omega

theorem weight_wait {w : Bool} (hpoint : x.point = .wait w) :
    L.weight x = if w ∧ L.Writable x then 3 else 1 := by rw [weight, hpoint]

theorem weight_wait_pos {w : Bool} (hpoint : x.point = .wait w) : 0 < L.weight x := by
  rw [weight_wait hpoint]
  split <;> decide

/-- A round of the loop of `get_result`. -/
theorem goes_loop (hx : L.Sound total x) {w : Bool} (hpoint : x.point = .loop w) {f : Option Flushed} {handler : Bool}
    (h : L.loopStep x w f handler = some x') : L.Goes total x x' := by
  obtain ⟨hcarries, hat⟩ := hx
  rw [hpoint] at hat
  have hweight : L.weight x = 2 := by rw [weight, hpoint]
  unfold loopStep at h
  split at h
  case isTrue hbusy =>
    cases w with
    | false =>
      obtain rfl := Option.some.inj h
      refine goes_on hcarries (fun _ => ⟨hat rfl, hbusy⟩) ?_
      rw [hweight]
      exact Nat.one_lt_two
    | true =>
      cases f with
      | none =>
        obtain ⟨hlost, h⟩ := Option.ite_none_right_eq_some.1 h
        obtain rfl := Option.some.inj h
        refine goes_on hcarries (hcarries.fragile_of_lost hlost) ?_
        rw [hweight]
        exact Nat.two_pos
      | some f =>
        obtain ⟨y, hy, rfl⟩ := Option.map_eq_some_iff.1 h
        have hinput : y.input = x.input ∧ y.signals = x.signals ∧ y.lost = x.lost := by
          obtain ⟨n, -, -, -, rfl⟩ | ⟨-, rfl⟩ := flush_cases hy <;> exact ⟨rfl, rfl, rfl⟩
        obtain ⟨hinput, hsignals, hlost⟩ := hinput
        refine goes_to (hcarries.flush hy) (fun hw => ⟨?_, hinput ▸ hbusy⟩) ?_
        · exact not_not.1 (of_decide_eq_false hw)
        · -- a socket that is writable after that has taken something
          have hle : L.left total y ≤ L.left total x := left_flush hy
          have hlt : y.output ≠ [] → L.Writable y → L.left total y < L.left total x := left_flush_lt hy
          rw [measure_to, weight_wait rfl, measure, hweight, hsignals, hlost]
          split
          case isTrue hroom =>
            have hmoved := hlt (of_decide_eq_true hroom.1) hroom.2
            omega
          case isFalse => omega
  case isFalse hbusy =>
    have hdone : L.busy x.input = false := Bool.eq_false_iff.2 hbusy
    split at h
    · obtain ⟨hhandlers, h⟩ := Option.ite_none_right_eq_some.1 h
      obtain rfl := Option.some.inj h
      refine goes_on hcarries hhandlers ?_
      rw [hweight]
      exact Nat.two_pos
    · obtain rfl := Option.some.inj h
      refine goes_on hcarries hdone ?_
      rw [hweight]
      exact Nat.two_pos

theorem Carries.consumeInput (hx : L.Carries total x) {f : Flushed} {n : Nat}
    (h : L.consumeInput x f n = some x') : L.Carries total x' ∧ L.left total x' < L.left total x ∧
      x'.signals = x.signals ∧ x'.lost = x.lost ∧ (x.output = [] → x'.output = []) := by
  obtain ⟨y, hy, h⟩ := Option.bind_eq_some_iff.1 h
  obtain ⟨⟨hpos, hn⟩, h⟩ := Option.ite_none_right_eq_some.1 h
  obtain rfl := Option.some.inj h
  have hcarries := hx.flush hy
  have hle : L.left total y ≤ L.left total x := left_flush hy
  have hlength := hcarries.length_le
  have hbytes : y.input ++ y.downstream.take n ++ y.downstream.drop n = y.input ++ y.downstream := by
    rw [List.append_assoc, List.take_append_drop]
  refine ⟨⟨hcarries.sent, hcarries.got, ?_, hcarries.upstream_le, ?_, hcarries.fragile_of_lost⟩, ?_, ?_⟩
  · rw [hbytes]
    exact hcarries.answered
  · have hdown := hcarries.downstream_le
    rw [List.length_drop]
    omega
  · refine lt_of_lt_of_le ?_ hle
    simp only [left, List.length_append, List.length_take, List.length_drop]
    omega
  · obtain ⟨k, -, -, -, rfl⟩ | ⟨-, rfl⟩ := flush_cases hy
    · exact ⟨rfl, rfl, fun hnil => by rw [hnil, List.drop_nil]⟩
    · exact ⟨rfl, rfl, fun _ => rfl⟩

/-- `internal::poll` reports an error if there is one. -/
theorem fails_of_internalPoll {w : Bool} {r : SystemPoll} {what : String} (hr : L.Reports x w r)
    (h : internalPoll w r = .error what) : L.fails := by
  cases r with
  | none => cases h
  | ready revents =>
    by_cases hnone : revents &&& pollEvents w = 0
    · exact hr.2.2 hnone
    · rw [internalPoll, if_neg hnone] at h
      cases h
  | error interrupted =>
    cases interrupted with
    | false => exact hr
    | true => cases h

variable (L) in
/-- What is known when `internal::poll` has returned. -/
def Polled (x : Link) (w : Bool) : PollStatus → Prop
  | .timeout => L.timed
  | .readable => x.downstream ≠ [] ∨ x.lost
  | .writable => w ∧ L.Writable x
  | .again => 0 < x.signals

theorem polled_of_internalPoll {w : Bool} {r : SystemPoll} {status : PollStatus} (hr : L.Reports x w r)
    (h : internalPoll w r = .ok status) : L.Polled x w status := by
  cases r with
  | none =>
    cases h
    exact hr
  | ready revents =>
    obtain ⟨hin, hout, -⟩ := hr
    rw [internalPoll] at h
    split at h
    case isTrue => cases h
    case isFalse hsome =>
      by_cases hread : revents &&& pollin = 0
      · rw [if_neg (not_not.2 hread)] at h
        cases h
        refine hout fun hwrite => hsome ?_
        -- neither of the events that are waited for
        cases w with
        | false => exact hread
        | true => exact (Nat.and_or_distrib_left revents pollin pollout).trans (by rw [hread, hwrite]; rfl)
      · rw [if_pos hread] at h
        cases h
        exact hin hread
  | error interrupted =>
    cases interrupted with
    | false => cases h
    | true =>
      cases h
      exact hr

/-- A round of the loop of `wait` that ends after bytes were read. -/
theorem goes_read (hx : L.Sound total x) {w : Bool} (hpoint : x.point = .wait w) {f : Flushed} {n : Nat} {y : Link}
    (hy : L.consumeInput x f n = some y) {p : Point} (hp : p = .loop w ∨ p = .threw (.exn .user) ∧ L.handlers) :
    L.Goes total x { y with point := p } := by
  obtain ⟨hcarries, hat⟩ := hx
  rw [hpoint] at hat
  obtain ⟨hcarries', hlt, hsignals, hlost, hout⟩ := hcarries.consumeInput hy
  have hpos := weight_wait_pos hpoint (L := L)
  have hplace : L.weight { y with point := p } ≤ 2 ∧ L.At y p := by
    rcases hp with rfl | ⟨rfl, hhandlers⟩
    · exact ⟨le_refl 2, fun hw => hout (hat hw).1⟩
    · exact ⟨Nat.zero_le 2, hhandlers⟩
  obtain ⟨hweight, hat'⟩ := hplace
  refine goes_to hcarries' hat' ?_
  have hlosing : (if y.lost then 0 else 1) = if x.lost then 0 else 1 := by rw [hlost]
  rw [measure_to, measure]
  omega

/-- A round of the loop of `wait`. -/
theorem goes_wait (hx : L.Sound total x) {w : Bool} (hpoint : x.point = .wait w) {r : SystemPoll} {input : Input}
    {f : Flushed} {n : Nat} (h : L.waitStep x w r input f n = some x') : L.Goes total x x' := by
  obtain ⟨hcarries, hat⟩ := hx
  have hwait : L.At x (.wait w) := hpoint ▸ hat
  have hpos := weight_wait_pos hpoint (L := L)
  obtain ⟨hr, h⟩ := Option.ite_none_right_eq_some.1 h
  cases hpoll : internalPoll w r with
  | error what =>
    simp only [hpoll] at h
    obtain rfl := Option.some.inj h
    exact goes_on hcarries (fails_of_internalPoll hr hpoll) hpos
  | ok status =>
    simp only [hpoll] at h
    obtain ⟨y, hy, rfl⟩ := Option.map_eq_some_iff.1 h
    have hpolled := polled_of_internalPoll hr hpoll
    cases status with
    | timeout =>
      obtain rfl := Option.some.inj hy
      exact goes_on hcarries ⟨rfl, hpolled⟩ hpos
    | writable =>
      obtain rfl := Option.some.inj hy
      refine goes_on hcarries (fun hw => (hwait hw).1) ?_
      have hweight : L.weight x = 3 := (weight_wait hpoint).trans (if_pos hpolled)
      rw [hweight]
      exact Nat.lt_succ_self 2
    | again =>
      obtain rfl := Option.some.inj hy
      refine ⟨⟨⟨hcarries.sent, hcarries.got, hcarries.answered, hcarries.upstream_le, hcarries.downstream_le,
        hcarries.fragile_of_lost⟩, hwait⟩, ?_⟩
      have hsignal : 0 < x.signals := hpolled
      have hweight : L.weight { x with signals := x.signals - 1, point := .wait w } = L.weight x :=
        (weight_wait rfl).trans (weight_wait hpoint).symm
      have hmeasure : L.measure total { x with signals := x.signals - 1, point := .wait w } =
          3 * L.left total x + L.weight { x with signals := x.signals - 1, point := .wait w } + (x.signals - 1) +
            (if x.lost then 0 else 1) := rfl
      refine lt_of_eq_of_lt hmeasure ?_
      rw [hweight, measure]
      omega
    | readable =>
      cases input with
      | broken =>
        obtain ⟨hlost, h⟩ := Option.ite_none_right_eq_some.1 hy
        obtain rfl := Option.some.inj h
        exact goes_on hcarries (hcarries.fragile_of_lost hlost) hpos
      | done => exact goes_read ⟨hcarries, hat⟩ hpoint hy (Or.inl rfl)
      | handler =>
        obtain ⟨hhandlers, hy⟩ := Option.ite_none_right_eq_some.1 hy
        exact goes_read ⟨hcarries, hat⟩ hpoint hy (Or.inr ⟨rfl, hhandlers⟩)

theorem length_pending : (L.pending x).length = (L.answer x.taken).length - (x.input.length + x.downstream.length) :=
  List.length_drop

theorem At.congr {y : Link} {p : Point} (hat : L.At x p) (hinput : y.input = x.input) (houtput : y.output = x.output) :
    L.At y p := by
  cases p with
  | loop w => exact fun hw => houtput.trans (hat hw)
  | wait w => exact fun hw => ⟨houtput.trans (hat hw).1, hinput ▸ (hat hw).2⟩
  | returned => exact (congrArg L.busy hinput).trans hat
  | threw e => exact hat

/-- That there is more room upstream matters less than the bytes that have made room. -/
theorem weight_le {y : Link} (hpoint : y.point = x.point) : L.weight y ≤ L.weight x + 2 := by
  rw [weight, weight, hpoint]
  cases x.point with
  | loop w => exact Nat.le_add_right 2 2
  | wait w =>
    simp only
    split <;> split <;> decide
  | returned => exact Nat.zero_le _
  | threw e => exact Nat.zero_le _

theorem weight_eq {y : Link} (hpoint : y.point = x.point) (hup : y.upstream = x.upstream) :
    L.weight y = L.weight x := by
  rw [weight, weight, hpoint]
  cases x.point with
  | wait w => exact if_congr (by simp only [Writable, hup]) rfl rfl
  | loop w => rfl
  | returned => rfl
  | threw e => rfl

theorem goes_serverRead (hx : L.Sound total x) {n : Nat} (h : L.step x (.serverRead n) = some x') :
    L.Goes total x x' := by
  obtain ⟨hcarries, hat⟩ := hx
  obtain ⟨⟨hlost, hpos, hn, hreads⟩, h⟩ := Option.ite_none_right_eq_some.1 h
  obtain rfl := Option.some.inj h
  have hbytes : x.taken ++ x.upstream.take n ++ x.upstream.drop n = x.taken ++ x.upstream := by
    rw [List.append_assoc, List.take_append_drop]
  have hanswer : L.answer x.taken <+: L.answer (x.taken ++ x.upstream.take n) := L.answer_mono (List.prefix_append _ _)
  have hup := hcarries.upstream_le
  refine ⟨⟨⟨?_, ?_, hcarries.answered.trans hanswer, ?_, hcarries.downstream_le, hcarries.fragile_of_lost⟩,
    hat.congr rfl rfl⟩, ?_⟩
  · intro _
    rw [hbytes]
    exact hcarries.sent hlost
  · rw [hbytes]
    exact hcarries.got
  · rw [List.length_drop]
    omega
  · have hweight : L.weight { x with upstream := x.upstream.drop n, taken := x.taken ++ x.upstream.take n } ≤
        L.weight x + 2 := weight_le rfl
    simp only [measure, left, List.length_drop]
    omega

theorem goes_serverWrite (hx : L.Sound total x) {n : Nat} (h : L.step x (.serverWrite n) = some x') :
    L.Goes total x x' := by
  obtain ⟨hcarries, hat⟩ := hx
  obtain ⟨⟨hlost, hpos, hn, hroom⟩, h⟩ := Option.ite_none_right_eq_some.1 h
  obtain rfl := Option.some.inj h
  refine ⟨⟨⟨hcarries.sent, hcarries.got, ?_, hcarries.upstream_le, ?_, hcarries.fragile_of_lost⟩,
    hat.congr rfl rfl⟩, ?_⟩
  · rw [← hcarries.append_pending, ← List.append_assoc]
    exact List.prefix_append_right_inj _ |>.2 (List.take_prefix _ _)
  · rw [List.length_append, List.length_take]
    omega
  · have hweight : L.weight { x with downstream := x.downstream ++ (L.pending x).take n } = L.weight x :=
      weight_eq rfl rfl
    have hanswer := (L.answer_mono hcarries.taken_le).length_le
    rw [length_pending] at hn
    simp only [measure, left, List.length_append, List.length_take, length_pending]
    omega

theorem goes_lose (hx : L.Sound total x) (h : L.step x .lose = some x') : L.Goes total x x' := by
  obtain ⟨hcarries, hat⟩ := hx
  obtain ⟨⟨hfragile, hlost⟩, h⟩ := Option.ite_none_right_eq_some.1 h
  obtain rfl := Option.some.inj h
  refine ⟨⟨⟨nofun, hcarries.got, hcarries.answered, hcarries.upstream_le,
    hcarries.downstream_le, fun _ => hfragile⟩, hat.congr rfl rfl⟩, ?_⟩
  have hweight : L.weight { x with lost := true } = L.weight x := weight_eq rfl rfl
  have hleft : L.left total { x with lost := true } = L.left total x := rfl
  simp only [measure, hweight, hleft, hlost]
  exact Nat.lt_succ_self _

/-- A round of the loop begins at its head, and calls of `poll` and `socket` are made in `wait`. -/
theorem step_loop {f : Option Flushed} {handler : Bool} (h : L.step x (.loop f handler) = some x') :
    ∃ w, x.point = .loop w ∧ L.loopStep x w f handler = some x' := by
  cases hpoint : x.point with
  | loop w => exact ⟨w, rfl, by simpa only [step, hpoint] using h⟩
  | _ => simp [step, hpoint] at h

theorem step_poll {r : SystemPoll} {input : Input} {f : Flushed} {n : Nat}
    (h : L.step x (.poll r input f n) = some x') :
    ∃ w, x.point = .wait w ∧ L.waitStep x w r input f n = some x' := by
  cases hpoint : x.point with
  | wait w => exact ⟨w, rfl, by simpa only [step, hpoint] using h⟩
  | _ => simp [step, hpoint] at h

theorem step_noSocket (h : L.step x .noSocket = some x') :
    ∃ w, x.point = .wait w ∧ x.lost = true ∧ x' = { x with point := .threw (.exn noSocketError) } := by
  cases hpoint : x.point with
  | wait w =>
    simp only [step, hpoint] at h
    obtain ⟨hlost, h⟩ := Option.ite_none_right_eq_some.1 h
    exact ⟨w, rfl, hlost, (Option.some.inj h).symm⟩
  | _ => simp [step, hpoint] at h

/-- Every step keeps the invariant and leaves less to do. -/
theorem goes (hx : L.Sound total x) {a : LinkAction} (h : L.step x a = some x') : L.Goes total x x' := by
  cases a with
  | loop f handler =>
    obtain ⟨w, hpoint, h⟩ := step_loop h
    exact goes_loop hx hpoint h
  | poll r input f n =>
    obtain ⟨w, hpoint, h⟩ := step_poll h
    exact goes_wait hx hpoint h
  | noSocket =>
    obtain ⟨w, hpoint, hlost, rfl⟩ := step_noSocket h
    exact goes_on hx.1 (hx.1.fragile_of_lost hlost) (weight_wait_pos hpoint)
  | serverRead n => exact goes_serverRead hx h
  | serverWrite n => exact goes_serverWrite hx h
  | lose => exact goes_lose hx h

/-! ### There is always a step -/

variable (L) in
/-- Some step is possible. -/
def Moves (x : Link) : Prop := ∃ a x', L.step x a = some x'

/-- libpq can always be called. -/
theorem exists_flush (hup : x.upstream.length ≤ L.upstream) :
    ∃ f y, L.flush x f = some y ∧ y.downstream = x.downstream := by
  refine ⟨.sent (min x.output.length (L.upstream - x.upstream.length)), _, if_pos ⟨min_le_left _ _, ?_, ?_⟩, rfl⟩
  · omega
  · intro hout hroom
    have hpos := L.room_pos
    have hlength := List.length_pos_iff.2 hout
    simp only [Writable] at hroom
    omega

theorem moves_loop (hup : x.upstream.length ≤ L.upstream) {w : Bool} (hpoint : x.point = .loop w) : L.Moves x := by
  obtain ⟨f, y, hf, -⟩ := exists_flush hup
  by_cases hbusy : L.busy x.input
  · cases w with
    | false => exact ⟨.loop none false, _, by simp only [step, hpoint, loopStep, if_pos hbusy]; rfl⟩
    | true => exact ⟨.loop (some f) false, _, by simp only [step, hpoint, loopStep, if_pos hbusy, hf]; rfl⟩
  · exact ⟨.loop none false, _, by simp only [step, hpoint, loopStep, if_neg hbusy]; rfl⟩

/-- `poll` returns when there is something to read. -/
theorem moves_readable (hup : x.upstream.length ≤ L.upstream) {w : Bool} (hpoint : x.point = .wait w)
    (hread : x.downstream ≠ [] ∨ x.lost = true) : L.Moves x := by
  have hevents : pollin &&& pollEvents w ≠ 0 := by cases w <;> decide
  have hpoll : internalPoll w (.ready pollin) = .ok .readable := by cases w <;> rfl
  have hreports : L.Reports x w (.ready pollin) :=
    ⟨fun _ => hread, fun h => absurd rfl h, fun h => absurd h hevents⟩
  by_cases hdown : x.downstream = []
  · have hlost : x.lost = true := hread.resolve_left (not_not.2 hdown)
    refine ⟨.poll (.ready pollin) .broken .discarded 0, ?_⟩
    simp only [step, hpoint, waitStep, if_pos hreports, hpoll, duringRound, if_pos hlost]
    exact ⟨_, rfl⟩
  · obtain ⟨f, y, hf, hy⟩ := exists_flush hup
    have hlength : 0 < 1 ∧ 1 ≤ y.downstream.length := ⟨Nat.one_pos, hy ▸ List.length_pos_iff.2 hdown⟩
    refine ⟨.poll (.ready pollin) .done f 1, ?_⟩
    simp only [step, hpoint, waitStep, if_pos hreports, hpoll, duringRound, consumeInput, hf, Option.bind_some,
      if_pos hlength]
    exact ⟨_, rfl⟩

theorem moves_writable {w : Bool} (hpoint : x.point = .wait w) (hw : w = true) (hroom : L.Writable x) : L.Moves x := by
  subst hw
  have hreports : L.Reports x true (.ready pollout) :=
    ⟨fun h => absurd rfl h, fun _ => ⟨rfl, hroom⟩, fun h => absurd h (by decide)⟩
  have hpoll : internalPoll true (.ready pollout) = .ok .writable := rfl
  refine ⟨.poll (.ready pollout) .done .discarded 0, ?_⟩
  simp only [step, hpoint, waitStep, if_pos hreports, hpoll, duringRound]
  exact ⟨_, rfl⟩

/-- The server writes if it has anything to write. -/
theorem moves_server (hlost : x.lost = false) (hdown : x.downstream = []) (hpending : L.pending x ≠ []) :
    L.Moves x := by
  have hlength := List.length_pos_iff.2 hpending
  have hroom := L.downstream_pos
  exact ⟨.serverWrite 1, _, if_pos ⟨hlost, Nat.one_pos, hlength, by rw [hdown, List.length_nil]; omega⟩⟩

/-- Otherwise it reads, if there is anything to read. -/
theorem moves_reads (hlost : x.lost = false) (hup : x.upstream ≠ []) (hpending : L.pending x = []) : L.Moves x :=
  ⟨.serverRead 1, _, if_pos ⟨hlost, Nat.one_pos, List.length_pos_iff.2 hup, hpending ▸ L.reads_nil⟩⟩

/-- In `wait` there is always a step.  If the program has nothing to read and the server nothing to write or to read,
then all of the query was read or there is room for more of it, and in the first case the whole answer was read. -/
theorem moves_wait (hx : L.Sound total x) (hanswer : L.busy (L.answer total) = false) {w : Bool}
    (hpoint : x.point = .wait w) : L.Moves x := by
  obtain ⟨hcarries, hat⟩ := hx
  rw [hpoint] at hat
  by_cases hread : x.downstream ≠ [] ∨ x.lost = true
  · exact moves_readable hcarries.upstream_le hpoint hread
  obtain ⟨hdown, hlost⟩ := not_or.1 hread
  have hdown : x.downstream = [] := not_not.1 hdown
  have hlost : x.lost = false := Bool.eq_false_iff.2 hlost
  by_cases hpending : L.pending x = []
  · by_cases hup : x.upstream = []
    · cases w with
      | true =>
        refine moves_writable hpoint rfl ?_
        rw [Writable, hup, List.length_nil, Nat.zero_add]
        exact L.room_le
      | false =>
        obtain ⟨hout, hbusy⟩ := hat rfl
        have htaken : x.taken = total := by
          have h := hcarries.sent hlost
          rwa [hup, hout, List.append_nil, List.append_nil] at h
        have hinput : x.input = L.answer total := by
          have h := hcarries.append_pending
          rwa [hdown, hpending, List.append_nil, List.append_nil, htaken] at h
        rw [hinput, hanswer] at hbusy
        cases hbusy
    · exact moves_reads hlost hup hpending
  · exact moves_server hlost hdown hpending

theorem finished_or_moves (hx : L.Sound total x) (hanswer : L.busy (L.answer total) = false) :
    L.Finished total x ∨ L.Moves x := by
  cases hpoint : x.point with
  | loop w => exact Or.inr (moves_loop hx.1.upstream_le hpoint)
  | wait w => exact Or.inr (moves_wait hx hanswer hpoint)
  | returned =>
    have hat := hx.2
    rw [hpoint] at hat
    refine Or.inl ?_
    rw [Finished, hpoint]
    exact ⟨hat, hx.1.input_le⟩
  | threw e =>
    have hat := hx.2
    rw [hpoint] at hat
    refine Or.inl ?_
    rw [Finished, hpoint]
    exact hat

end Line

/-! ### The result -/

/-- `get_result` begins to wait for the answer to `total`, of which some part may have been sent, read and answered. -/
structure Line.Begins (L : Line) (total : Bytes) (x : Link) : Prop where
  point : x.point = .loop true
  sent : x.taken ++ x.upstream ++ x.output = total
  answered : x.input ++ x.downstream <+: L.answer x.taken
  upstream_le : x.upstream.length ≤ L.upstream
  downstream_le : x.downstream.length ≤ L.downstream
  fragile_of_lost : x.lost = true → L.fragile = true

theorem Line.Begins.sound {L : Line} {total : Bytes} {x : Link} (hx : L.Begins total x) : L.Sound total x := by
  have hgot : x.taken ++ x.upstream ++ x.output <+: total := ⟨[], (List.append_nil _).trans hx.sent⟩
  refine ⟨⟨fun _ => hx.sent, hgot, hx.answered, hx.upstream_le, hx.downstream_le, hx.fragile_of_lost⟩, ?_⟩
  rw [hx.point]
  exact nofun

/-- If the answer to a query contains a result, `get_result` does not wait forever, whatever the sizes of the buffers
are, whatever the order is in which things happen, and whether or not the server reads while it has something to
write. -/
theorem get_result_ends {L : Line} {total : Bytes} {x : Link} (hx : L.Begins total x)
    (hanswer : L.busy (L.answer total) = false) : Inevitable L.step (L.Finished total) x :=
  Inevitable.of_measure (I := L.Sound total) (L.measure total) (fun _ _ _ hs h => Line.goes hs h)
    (fun _ hs => Line.finished_or_moves hs hanswer) hx.sound

/-- A server that echoes each byte at once, and reads nothing while it has anything to write.  The sockets hold one byte
each, and the result is complete after three bytes. -/
def echo : Line where
  upstream := 1
  downstream := 1
  room := 1
  answer := id
  reads pending := pending.isEmpty
  busy input := decide (input.length < 3)
  timed := false
  fails := false
  fragile := false
  handlers := false
  room_pos := Nat.one_pos
  room_le := le_refl 1
  downstream_pos := Nat.one_pos
  answer_mono h := h
  reads_nil := rfl

/-- A query of four bytes, none of which has been sent. -/
def echoStart : Link := ⟨.loop true, [81, 49, 59, 0], [], [], [], [], false, 2⟩

theorem get_result_ends_echo : echo.Begins [81, 49, 59, 0] echoStart ∧
    Inevitable echo.step (echo.Finished [81, 49, 59, 0]) echoStart := by
  have hbegins : echo.Begins [81, 49, 59, 0] echoStart := by
    refine ⟨rfl, rfl, List.prefix_refl [], Nat.zero_le 1, Nat.zero_le 1, nofun⟩
  exact ⟨hbegins, get_result_ends hbegins rfl⟩

end TaoPQ
