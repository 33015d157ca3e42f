import TaoPQ.BulkLoad
import TaoPQ.Deadlines
import TaoPQ.Parameter
import TaoPQ.TableWriter

/-!
# Sizes

Strings have sizes of type `std::size_t`, and libpq takes them as `int`.  `connection::put_copy_data`, which
`table_writer::insert_raw` and `insert` end in, and the `parameter_traits` of strings and of binary data convert them
without looking (`connection.cpp`, `table_writer.cpp`, `parameter_traits.hpp`).  What is sent is whole if and only if it
is shorter than `2^31` bytes (`sent_whole_iff`).
-/

namespace TaoPQ

open Exec Escaping

/-! ### Sizes as `int` -/

theorem toInt_eq_iff (n : Nat) : toInt n = n ↔ n < 2 ^ 31 := by
  have hlt := toInt_lt n
  constructor
  · intro h
    omega
  · intro h
    exact toInt_of_fits (by omega) (by omega)

namespace Sizes

/-! ### Rows for COPY -/

/-- What `PQputCopyData` returns: 1, 0 or -1. -/
inductive PutStatus where
  | queued
  | full
  | failed
  deriving DecidableEq, Repr

/-- What happens in a round of the loop: what `PQputCopyData` can do, and the wait that follows if its buffer is
full. -/
structure Attempt where
  status : PutStatus
  rounds : List Round

/-- What happens while something is sent: the timeout, the time when it is computed, and the rounds of the loop. -/
structure Course where
  timeout : Option Int
  start : Int
  attempts : List Attempt

section

variable {DB : Type}

/-- `PQputCopyData`: it queues that many bytes if their number is positive, and nothing otherwise. -/
def callPutCopyData (buffer : Chunk) (nbytes : Int) : PutStatus → Exec (Waiting DB) Exn PutStatus
  | .queued => do
    let ok ← Exec.zoom Waiting.conn (fun c s => { s with conn := c })
      (Connection.libpq .putCopyData fun c => c.putCopyData (buffer.take nbytes.toNat))
    return if ok then .queued else .failed
  | .full => return .full
  | .failed => return .failed

/-- The loop of `connection::put_copy_data`, for as long as these attempts last.  The result says whether it has
returned. -/
def putCopyDataLoop (timeout : Option Int) (deadline : Int) (buffer : Chunk) :
    List Attempt → Exec (Waiting DB) Exn Bool
  | [] => return false
  | a :: attempts => do
    match ← callPutCopyData buffer (toInt buffer.length) a.status with
    | .queued => return true
    | .full =>
      let waited ← waitRounds timeout deadline true a.rounds
      if waited then putCopyDataLoop timeout deadline buffer attempts else return false
    | .failed => Exec.throw (.error .libpq)

/-- `connection::put_copy_data` -/
def putCopyData (buffer : Chunk) (k : Course) : Prog DB Bool :=
  Exec.zoom (fun s => ⟨s.conn, [], k.start⟩) (fun w s => { s with conn := w.conn })
    (putCopyDataLoop k.timeout (timeoutEnd k.timeout k.start) buffer k.attempts)

/-- `table_writer::insert_raw` -/
def insertRaw (b : Nat) (data : Chunk) (k : Course) : Prog DB Bool := do
  let _ ← guardOf b
  putCopyData data k

/-- `table_writer::insert` -/
def insert (b : Nat) (ts : List Param) (k : Course) : Prog DB Bool :=
  match TableWriter.insertIndexed ts with
  | some line => insertRaw b line k
  | none => Exec.undefined

/-- The bytes that libpq was given for the COPY that is under way. -/
def handed (c : PGconn DB) : Chunk :=
  match c.stream with
  | .copyIn _ _ received :: _ => received.flatten
  | _ => []

end

/-- Wherever a program has a table writer that is not committed yet, this hands all of `data` to libpq, or throws. -/
def HandsOver (data : Chunk) (send : {DB : Type} → Nat → Course → Prog DB Bool) : Prop :=
  ∀ (DB : Type) (W : World) (s : State DB) (b : Nat) (k : Course), Reachable W s → Returns (guardOf b) s →
    wp False (send b k) (fun returned s' => returned = true → handed s'.conn.pg = handed s.conn.pg ++ data)
      (fun _ _ => True) s

/-- The size of the line for a row: each field is followed by a tab, the last one by a newline. -/
def lineLength (ts : List Param) : Nat :=
  ((Param.fieldsOf ts).flatten.map fun x => (Param.fieldText x).length + 1).sum

/-! ### Strings as parameters -/

/-- `parameter_traits< std::string_view >` -/
def stringView (v : Option Bytes) : Arg := .leaf ⟨.text, 1, false⟩ v (toInt (v.getD []).length) false

/-- `parameter_traits< std::string >` -/
def string (v : Bytes) : Arg := .leaf ⟨.text, 1, false⟩ (some v) (toInt v.length) true

/-- `parameter_traits< std::span< const std::byte, Extent > >`, which are those of a vector as well. -/
def binary (v : Option Bytes) (inside : Bool) : Arg := .leaf ⟨.bytea, 1, false⟩ v (toInt (v.getD []).length) inside

/-- The arguments made of strings, of binary data, and of values that are sent as text, of which no length is passed. -/
inductive Known : Arg → Prop where
  | text (type : Oid) (selfContained : Bool) (v : Option Bytes) (inside : Bool) :
      Known (.leaf ⟨type, 0, selfContained⟩ v 0 inside)
  | stringView (v : Option Bytes) : Known (stringView v)
  | string (v : Bytes) : Known (string v)
  | binary (v : Option Bytes) (inside : Bool) : Known (binary v inside)
  | nullopt (t : ParamType) : Known (.nullopt t)
  | optional {v : Arg} : Known v → Known (.optional v)
  | pair {v w : Arg} : Known v → Known w → Known (.pair v w)
  | tuple {v : Arg} {vs : List Arg} : Known v → (∀ w ∈ vs, Known w) → Known (.tuple v vs)
  | aggregate {v : Arg} {vs : List Arg} : Known v → (∀ w ∈ vs, Known w) → Known (.aggregate v vs)
  | converted {v : Arg} : Known v → Known (.converted v)

/-- What a program passes: an argument of a type that it can be compiled for, as an lvalue or as a temporary. -/
structure Argument where
  arg : Arg
  rvalue : Bool
  known : Known arg
  wellFormed : arg.paramType.wellFormed = true

def Argument.passed (x : Argument) : Arg × Bool := (x.arg, x.rvalue)

/-- A string that is passed as an lvalue. -/
def Argument.ofString (v : Bytes) : Argument := ⟨string v, false, .string v, rfl⟩

/-- The sizes of what is sent in binary format. -/
def Argument.sizes (x : Argument) : List Nat :=
  (x.arg.leaves.filter (·.format = 1)).map fun c => (c.value.getD []).length

end Sizes

/-- With each value in binary format, its true size is passed. -/
def Arrays.Sized (A : Arrays) : Prop :=
  ∀ (i : Nat) (text : Bytes), A.formats[i]? = some (some 1) → A.values[i]?.bind Pointer.read = some (some text) →
    A.lengths[i]? = some (text.length : Int)

namespace Sizes

/-- In every program that passes no other arguments than these, the true sizes are passed whenever something is sent. -/
def SizesPassed (args : List Argument) : Prop :=
  ∀ ss s A, (∀ t ∈ s :: ss, t.From (args.map Argument.passed)) →
    (Parameter.perform (Parameter.objectsAfter ss) s).1 = .sent A → A.Sized

/-! ### What `put_copy_data` hands over -/

section

variable {DB : Type} {timeout : Option Int} {deadline : Int} {buffer : Chunk}

/-- A wait that returns leaves the connection as it is. -/
theorem waitRounds_conn (w : Bool) (rounds : List Round) (s : Waiting DB) :
    wp False (waitRounds timeout deadline w rounds) (fun _ s' => s'.conn = s.conn) (fun _ _ => True) s := by
  induction rounds generalizing s with
  | nil => exact rfl
  | cons r rounds ih =>
    rw [waitRounds, wp_ite]
    refine ⟨fun _ => trivial, fun _ => ?_⟩
    rw [wp_bind, wp_callPoll]
    cases r.status with
    | timeout => exact trivial
    | readable =>
      refine (wp_bind _ _).mpr ?_
      unfold getNotifications
      cases r.input with
      | done => exact rfl
      | broken => exact trivial
      | handler => exact trivial
    | writable => exact rfl
    | again => exact ih _

theorem callPutCopyData_spec (nbytes : Int) (status : PutStatus) (s : Waiting DB) :
    wp False (callPutCopyData buffer nbytes status)
      (fun r s' => (r = .queued → s.conn.pg.putCopyData (buffer.take nbytes.toNat) = (s'.conn.pg, true)) ∧
        (r = .full → s'.conn = s.conn))
      (fun _ _ => False) s := by
  cases status with
  | queued =>
    simp only [callPutCopyData, wp_bind, wp_zoom, wp_libpq, wp_pure]
    cases hok : (s.conn.pg.putCopyData (buffer.take nbytes.toNat)).2 with
    | true => exact ⟨fun _ => Prod.ext rfl hok, by simp⟩
    | false => simp
  | full => exact ⟨fun h => absurd h (by decide), fun _ => rfl⟩
  | failed => exact ⟨fun h => absurd h (by decide), fun h => absurd h (by decide)⟩

/-- When the loop returns, `PQputCopyData` has succeeded once, with as many bytes as the `int` tells. -/
theorem putCopyDataLoop_queues (attempts : List Attempt) (s : Waiting DB) :
    wp False (putCopyDataLoop timeout deadline buffer attempts)
      (fun returned s' => returned = true →
        s.conn.pg.putCopyData (passed buffer) = (s'.conn.pg, true))
      (fun _ _ => True) s := by
  induction attempts generalizing s with
  | nil => exact fun h => absurd h (by decide)
  | cons a attempts ih =>
    rw [putCopyDataLoop, wp_bind]
    refine wp_mono (callPutCopyData_spec _ a.status s) (fun r s₁ h₁ => ?_) fun _ _ => False.elim
    cases r with
    | queued => exact fun _ => h₁.1 rfl
    | full =>
      -- the buffer of libpq is full, and after a wait the loop goes on with the same connection
      rw [← h₁.2 rfl]
      refine (wp_bind _ _).mpr (wp_mono (waitRounds_conn true a.rounds s₁) (fun waited s₂ h₂ => ?_) fun _ _ => id)
      rw [wp_ite, ← h₂]
      exact ⟨fun _ => ih s₂, fun _ h => absurd h (by decide)⟩
    | failed => exact trivial

/-- What `PQputCopyData` needs, and what it does. -/
theorem putCopyData_cases {c c' : PGconn DB} {data : Chunk} (h : c.putCopyData data = (c', true)) :
    c.isOpen = true ∧ ∃ load rows received rest, c.stream = .copyIn load rows received :: rest ∧
      c' = { c with stream := .copyIn load rows (received ++ [data]) :: rest } := by
  unfold PGconn.putCopyData at h
  split at h
  · cases h
  · rename_i hopen
    split at h
    · rename_i load rows received rest hstream
      exact ⟨by simpa using hopen, load, rows, received, rest, hstream, (congrArg Prod.fst h).symm⟩
    · cases h

theorem handed_putCopyData {c c' : PGconn DB} {data : Chunk} (h : c.putCopyData data = (c', true)) :
    handed c' = handed c ++ data := by
  obtain ⟨-, load, rows, received, rest, hstream, rfl⟩ := putCopyData_cases h
  simp [handed, hstream]

theorem guardOf_same {s : State DB} {b : Nat} (hb : Returns (guardOf b) s) :
    wp False (guardOf b) (fun _ s' => s' = s) (fun _ _ => False) s := by
  refine wp_of_returns hb (E := fun _ _ => True) ?_
  simp only [guardOf, wp_bind, wp_derefBulk, implies_true, and_true]
  intro k _
  cases k.transaction with
  | none => exact trivial
  | some g =>
    rw [wp_derefPointer_some]
    refine ⟨fun _ => ?_, fun _ => trivial⟩
    exact wp_derefConnection g fun _ _ _ => rfl

/-- `insert_raw` hands over as many bytes as the `int` tells. -/
theorem insertRaw_hands {s : State DB} {b : Nat} (hb : Returns (guardOf b) s) (k : Course) :
    wp False (insertRaw b buffer k)
      (fun returned s' => returned = true →
        handed s'.conn.pg = handed s.conn.pg ++ passed buffer)
      (fun _ _ => True) s := by
  rw [insertRaw, wp_bind]
  refine wp_mono (guardOf_same hb) (fun _ s' hs' => ?_) fun _ _ => False.elim
  rw [hs', putCopyData, wp_zoom]
  exact wp_mono (putCopyDataLoop_queues k.attempts ⟨s.conn, [], k.start⟩)
    (fun _ _ h hreturned => handed_putCopyData (h hreturned)) fun _ _ => id

/-- Whether `PQputCopyData` fails does not depend on the data. -/
theorem putCopyData_accepts {c : PGconn DB} {data : Chunk} (h : (c.putCopyData data).2 = true) (data' : Chunk) :
    (c.putCopyData data').2 = true := by
  obtain ⟨hopen, load, rows, received, rest, hstream, -⟩ := putCopyData_cases (Prod.ext rfl h)
  simp [PGconn.putCopyData, hopen, hstream]

/-- A call that has to wait for nothing. -/
def atOnce : Course := ⟨none, 0, [⟨.queued, []⟩]⟩

theorem insertRaw_atOnce {s : State DB} {b : Nat} (hb : Returns (guardOf b) s)
    (hcopy : (s.conn.pg.putCopyData []).2 = true) (data : Chunk) : ∃ s', insertRaw b data atOnce s = .ret true s' := by
  have hok := putCopyData_accepts hcopy (data.take (toInt data.length).toNat)
  have hreturns : wp False (insertRaw b data atOnce) (fun returned _ => returned = true) (fun _ _ => False) s := by
    rw [insertRaw, wp_bind]
    refine wp_mono (guardOf_same hb) (fun _ s' hs' => ?_) fun _ _ => id
    rw [hs']
    simp [putCopyData, atOnce, putCopyDataLoop, callPutCopyData, hok]
  obtain ⟨_, s', hs', rfl⟩ := exists_ret hreturns
  exact ⟨s', hs'⟩

end

/-- A table writer has been opened. -/
theorem exists_writer : ∃ s : State Unit, Reachable .calm s ∧ s.bulk 0 = some ⟨false, some 0, some 1, 0, none⟩ ∧
    s.object 1 = some ⟨.transactionGuard 0, true⟩ ∧ (s.conn.pg.putCopyData []).2 = true :=
  Reaches.of_trace .calm (fun _ _ => True)
    [.direct 0, .tableWriter 0 1 0 ⟨"COPY t FROM STDIN", .copyFrom (fun _ db => some db) List.length⟩] ()
    (by decide +kernel)

theorem insertRaw_iff (data : Chunk) : HandsOver data (fun b => insertRaw b data) ↔ data.length < 2 ^ 31 := by
  rw [← passed_eq_self_iff]
  constructor
  · intro h
    obtain ⟨s, hs, hbulk, hguard, hcopy⟩ := exists_writer
    have hb : Returns (guardOf 0) s := by simp [guardOf, derefConnection, hbulk, hguard]
    obtain ⟨s', hs'⟩ := insertRaw_atOnce hb hcopy data
    have hwhole := wp_ret (h Unit .calm s 0 atOnce hs hb) hs' rfl
    have htaken := wp_ret (insertRaw_hands hb atOnce) hs' rfl
    exact List.append_cancel_left (htaken.symm.trans hwhole)
  · intro h DB W s b k _ hb
    refine wp_mono (insertRaw_hands hb k) (fun _ _ hs' hreturned => ?_) fun _ _ => id
    rw [hs' hreturned, h]

/-- The line that `insert` sends. -/
theorem exists_line (t : Param) (ts : List Param) :
    ∃ line, TableWriter.insertIndexed (t :: ts) = some line ∧ line.length = lineLength (t :: ts) := by
  obtain ⟨x, fs, hfs⟩ : ∃ x fs, (Param.fieldsOf (t :: ts)).flatten = x :: fs := by
    refine List.exists_cons_of_ne_nil fun h => Param.fields_ne_nil t ?_
    exact List.flatten_eq_nil_iff.mp h _ List.mem_cons_self
  have htabs := congrArg List.length (flatMap_terminated Byte.tab (Param.fieldText x) (fs.map Param.fieldText))
  rw [← List.map_cons, List.flatMap_map, List.length_flatMap, ← hfs, List.length_append] at htabs
  refine ⟨_, TableWriter.insertIndexed_eq t ts, ?_⟩
  rw [List.length_append, lineLength]
  refine htabs.symm.trans (congrArg List.sum (List.map_congr_left fun y _ => ?_))
  rw [List.length_append]
  rfl

theorem insert_iff (t : Param) (ts : List Param) : ∃ line, TableWriter.insertIndexed (t :: ts) = some line ∧
    (HandsOver line (fun b => insert b (t :: ts)) ↔ lineLength (t :: ts) < 2 ^ 31) := by
  obtain ⟨line, hline, hlength⟩ := exists_line t ts
  refine ⟨line, hline, ?_⟩
  rw [← hlength, ← insertRaw_iff]
  have hinsert {DB : Type} (b : Nat) : (insert b (t :: ts) : Course → Prog DB Bool) = insertRaw b line := by
    funext k
    rw [insert, hline]
  simp only [HandsOver, hinsert]

/-- Data is handed over like the `Connection.putCopyData` of the other modules does it. -/
theorem putCopyData_refines {DB : Type} {data : Chunk} (k : Course) (s : State DB) :
    wp False (putCopyData data k)
      (fun returned s' => returned = true → ∀ W : World, W.wait s.conn.pg.clock = .ready →
        Connection.putCopyData W data s.conn =
          .ret () { s.conn with pg := s'.conn.pg.tick, calls := .putCopyData :: s.conn.calls })
      (fun _ _ => True) s := by
  rw [putCopyData, wp_zoom]
  refine wp_mono (putCopyDataLoop_queues k.attempts ⟨s.conn, [], k.start⟩) (fun _ s' h => ?_) fun _ _ => id
  intro hreturned W hW
  have hput : s.conn.pg.putCopyData (passed data) = (s'.conn.pg, true) := h hreturned
  obtain ⟨hopen, load, rows, received, rest, hstream, hqueued⟩ := putCopyData_cases hput
  have hwait : Connection.waitWhen W (fun c => c.isOpen && c.inCopy) s.conn =
      .ret () { s.conn with pg := s.conn.pg.tick } := by
    have hbusy : (s.conn.pg.isOpen && s.conn.pg.inCopy) = true := by simp [PGconn.inCopy, hopen, hstream]
    show (if (s.conn.pg.isOpen && s.conn.pg.inCopy) = true then Connection.wait W else Pure.pure ()) s.conn = _
    rw [if_pos hbusy, Connection.wait, hW]
  have htick : s.conn.pg.tick.putCopyData (passed data) = (s'.conn.pg.tick, true) := by
    rw [hqueued]
    simp [PGconn.putCopyData, PGconn.tick, hopen, hstream]
  have hcall : Connection.libpq .putCopyData (fun c => c.putCopyData (passed data))
      { s.conn with pg := s.conn.pg.tick } =
      .ret true { s.conn with pg := s'.conn.pg.tick, calls := .putCopyData :: s.conn.calls } := by
    rw [Connection.libpq, htick]
  rw [Connection.putCopyData, bind_ret hwait, Connection.libpqOr, bind_ret hcall]
  rfl

/-! ### The lengths of parameters -/

end Sizes

/-- A column in binary format that has a value has its length. -/
def Column.Sized (c : Column) : Prop := ∀ text, c.format = 1 → c.value = some text → c.length = (text.length : Int)

theorem Arrays.Reads.sized_iff {A : Arrays} {cs : List Column} (h : A.Reads cs) : A.Sized ↔ ∀ c ∈ cs, c.Sized := by
  have hformat (i : Nat) : A.formats[i]? = cs[i]?.map fun c => some c.format := by rw [h.formats, List.getElem?_map]
  have hlength (i : Nat) : A.lengths[i]? = cs[i]?.map Column.length := by rw [h.lengths, List.getElem?_map]
  have hvalue (i : Nat) : A.values[i]?.bind Pointer.read = cs[i]?.map Column.value := by
    have hread : A.values[i]?.map Pointer.read = cs[i]?.map fun c => some c.value := by
      rw [← List.getElem?_map, h.values, List.getElem?_map]
    cases hx : A.values[i]? <;> cases hc : cs[i]? <;> simp_all
  constructor
  · intro hsized c hc text hbinary htext
    obtain ⟨i, hi⟩ := List.mem_iff_getElem?.mp hc
    have hpassed := hsized i text (by rw [hformat, hi, Option.map_some, hbinary])
      (by rw [hvalue, hi, Option.map_some, htext])
    rw [hlength, hi] at hpassed
    exact Option.some.inj hpassed
  · intro hcs i text hbinary htext
    rw [hformat] at hbinary
    rw [hvalue] at htext
    obtain ⟨c, hi, hc⟩ := Option.map_eq_some_iff.mp htext
    rw [hi] at hbinary
    have hcolumn := hcs c (List.mem_of_getElem? hi) text (Option.some.inj (Option.some.inj hbinary)) hc
    rw [hlength, hi, Option.map_some, hcolumn]

/-- Sizes in terms of what is at each index. -/
theorem Arrays.sized_map_range {n : Nat} {types : List (Option Oid)} {values : Nat → Pointer} {lengths : Nat → Int}
    {formats : Nat → Option Int} :
    Arrays.Sized ⟨types, (List.range n).map values, (List.range n).map lengths, (List.range n).map formats⟩ ↔
      ∀ i < n, ∀ text, formats i = some 1 → (values i).read = some (some text) → lengths i = (text.length : Int) := by
  constructor
  · intro h i hi text hbinary htext
    have hpassed := h i text (by simp [hi, hbinary]) (by simp [hi, htext])
    simpa [hi] using hpassed
  · intro h i text hbinary htext
    by_cases hi : i < n
    · simp only [List.getElem?_map, List.getElem?_range hi, Option.map_some, Option.bind_some, Option.some.injEq]
        at hbinary htext ⊢
      exact h i hi text hbinary htext
    · simp [hi] at hbinary

namespace Parameter

/-- An object with the true sizes. -/
abbrev Sized (p : Parameter) : Prop := p.arrays.Sized

variable {objects : List Parameter} {p q : Parameter}

theorem empty_sized (max : Nat) : (empty max).Sized :=
  Arrays.sized_map_range.mpr fun i hi => absurd hi (Nat.not_lt_zero i)

theorem objectAt_sized (h : ∀ p ∈ objects, p.Sized) (i : Nat) : (objectAt objects i).Sized := by
  rw [objectAt, List.getD_eq_getElem?_getD]
  cases hi : objects[i]? with
  | none => exact empty_sized 0
  | some p => exact h p (List.mem_of_getElem? hi)

theorem lapse_sized (h : p.Sized) : p.lapse.Sized := by
  refine Arrays.sized_map_range.mpr fun i hi text hbinary htext => ?_
  -- what can still be read is what was there
  have hsame : (p.values i).read = some (some text) := by
    simp only [Parameter.lapse] at htext
    cases hx : p.values i <;> rw [hx] at htext <;> first | exact htext | cases htext
  exact Arrays.sized_map_range.mp h i hi text hbinary hsame

/-- What is written behind the columns of an object. -/
theorem sized_assign {n : Nat} {types : Nat → Option Oid} {values : Nat → Pointer} {lengths : Nat → Int}
    {formats : Nat → Option Int} (hp : p.Sized)
    (hnew : ∀ I < n, ∀ text, formats I = some 1 → (values I).read = some (some text) → lengths I = (text.length : Int))
    (pos : Nat) :
    Sized ⟨p.max, pos, p.size + n, types, assign p.values p.size n values, assign p.lengths p.size n lengths,
      assign p.formats p.size n formats⟩ := by
  refine Arrays.sized_map_range.mpr fun i hi text hbinary htext => ?_
  by_cases hbefore : i < p.size
  · simp only [assign_before _ _ _ _ hbefore] at hbinary htext ⊢
    exact Arrays.sized_map_range.mp hp i hbefore text hbinary htext
  · obtain ⟨I, rfl⟩ := Nat.exists_eq_add_of_le (Nat.le_of_not_lt hbefore)
    have hI : I < n := Nat.lt_of_add_lt_add_left hi
    simp only [assign_behind _ _ _ _ hI] at hbinary htext ⊢
    exact hnew I hI text hbinary htext

theorem bindValue_sized {v : Arg} {rvalue : Bool} (hp : p.Sized) (hv : v.arrays.Sized)
    (h : p.bindValue v rvalue = .ok q) : q.Sized := by
  unfold bindValue at h
  split at h
  · cases h
  · obtain rfl := Except.ok.inj h
    refine sized_assign hp (fun I hI text hbinary htext => ?_) _
    refine Arrays.sized_map_range.mp hv I hI text hbinary (Eq.trans ?_ htext)
    -- the pointer may lead to a temporary now, but still to the same bytes
    split
    · cases v.value I <;> rfl
    · rfl

theorem bindObject_sized {r : Parameter} (hp : p.Sized) (hq : q.Sized) (h : p.bindObject q = .ok r) : r.Sized := by
  unfold bindObject at h
  split at h
  · cases h
  · obtain rfl := Except.ok.inj h
    exact sized_assign hp (Arrays.sized_map_range.mp hq) _

theorem bindImpl_sized (self : Option Nat) {x : Source} (hobjects : ∀ p ∈ objects, p.Sized) (hp : p.Sized)
    (hx : ∀ v rvalue, .value v rvalue = x → v.arrays.Sized) (h : bindImpl objects self p x = .ok q) : q.Sized := by
  cases x with
  | value v rvalue => exact bindValue_sized hp (hx v rvalue rfl) h
  | object i =>
    rw [bindImpl] at h
    split at h
    · exact bindObject_sized hp hp h
    · exact bindObject_sized hp (objectAt_sized hobjects i) h

theorem bind_sized (self : Option Nat) {xs : List Source} (hobjects : ∀ p ∈ objects, p.Sized) (hp : p.Sized)
    (hxs : ∀ v rvalue, .value v rvalue ∈ xs → v.arrays.Sized) : (bind objects self p xs).1.Sized := by
  induction xs generalizing p with
  | nil => exact hp
  | cons x xs ih =>
    rw [bind]
    cases hx : bindImpl objects self p x with
    | error e => exact hp
    | ok q =>
      have hq := bindImpl_sized self hobjects hp (fun v rvalue hv => hxs v rvalue (hv ▸ List.mem_cons_self)) hx
      exact ih hq fun v rvalue hv => hxs v rvalue (List.mem_cons_of_mem x hv)

end Parameter

/-- An argument of a type that the program can be compiled for, which tells its true sizes. -/
structure Arg.Whole (v : Arg) : Prop where
  wellFormed : v.paramType.wellFormed = true
  sized : ∀ c ∈ v.leaves, c.Sized

theorem Arg.Whole.arrays {v : Arg} (h : v.Whole) : v.arrays.Sized :=
  ((v.arrays_reads_iff).mpr h.wellFormed).sized_iff.mpr h.sized

namespace Parameter

variable {objects : List Parameter} {p : Parameter}

theorem send_sized {xs : List Source} (hobjects : ∀ p ∈ objects, p.Sized)
    (hxs : ∀ v rvalue, .value v rvalue ∈ xs → v.Whole) {A : Arrays} (h : send objects xs = .sent A) : A.Sized := by
  unfold send at h
  split at h
  · obtain rfl := Reply.sent.inj h
    exact objectAt_sized hobjects _
  · rename_i vs _ hdirect
    obtain rfl := Reply.sent.inj h
    obtain ⟨-, hmem⟩ := direct_eq [] hdirect
    have hvs : ∀ v ∈ vs, v.Whole := fun v hv => (hmem v hv).elim fun rvalue hsource => hxs v rvalue hsource
    refine ((sendTraits_reads_iff vs).mpr fun v hv => (hvs v hv).wellFormed).sized_iff.mpr fun c hc => ?_
    obtain ⟨v, hv, hc⟩ := List.mem_flatMap.mp hc
    exact (hvs v hv).sized c hc
  · rename_i xs _ _ _ _
    have hbound := bind_sized (p := .empty (parameterSize objects xs)) none hobjects (empty_sized _) fun v rvalue hv =>
      (hxs v rvalue hv).arrays
    split at h
    · rename_i p _ hp
      obtain rfl := Reply.sent.inj h
      rw [hp] at hbound
      exact hbound
    · cases h

/-- A statement sends true sizes only, and leaves objects with true sizes behind. -/
theorem perform_sized {s : Statement} (hobjects : ∀ p ∈ objects, p.Sized)
    (hs : ∀ v rvalue, .value v rvalue ∈ s.sources → v.Whole) :
    (∀ A, (perform objects s).1 = .sent A → A.Sized) ∧ ∀ p ∈ (perform objects s).2, p.Sized := by
  have hbind (self : Option Nat) {p : Parameter} (hp : p.Sized) : (bind objects self p s.sources).1.Sized :=
    bind_sized self hobjects hp fun v rvalue hv => (hs v rvalue hv).arrays
  have hlapse {ps : List Parameter} (hps : ∀ p ∈ ps, p.Sized) : ∀ p ∈ ps.map Parameter.lapse, p.Sized := by
    intro p hp
    obtain ⟨q, hq, rfl⟩ := List.mem_map.mp hp
    exact lapse_sized (hps q hq)
  cases s with
  | create max xs =>
    have hnew := hbind none (empty_sized max)
    simp only [perform, Statement.sources] at hnew ⊢
    split
    · rename_i p _ hp
      rw [hp] at hnew
      refine ⟨fun _ h => (by cases h), hlapse fun q hq => ?_⟩
      rcases List.mem_append.mp hq with hq | hq
      · exact hobjects q hq
      · exact List.mem_singleton.mp hq ▸ hnew
    · exact ⟨fun _ h => (by cases h), hobjects⟩
  | bind i xs =>
    have hnew := hbind (some i) (objectAt_sized hobjects i)
    have hset : ∀ q ∈ objects.set i (bind objects (some i) (objectAt objects i) xs).1, q.Sized := by
      intro q hq
      rcases List.mem_or_eq_of_mem_set hq with hq | rfl
      · exact hobjects q hq
      · exact hnew
    simp only [perform, Statement.sources] at hnew ⊢
    -- what was bound stays bound when a later source does not fit
    split
    · rename_i p _ hp
      rw [hp] at hset
      exact ⟨fun _ h => (by cases h), hlapse hset⟩
    · rename_i p _ hp
      rw [hp] at hset
      exact ⟨fun _ h => (by cases h), hlapse hset⟩
  | send xs => exact ⟨fun A h => send_sized hobjects hs h, hobjects⟩
  | sendNew max xs =>
    have hnew := hbind none (empty_sized max)
    simp only [perform, Statement.sources] at hnew ⊢
    split
    · rename_i p _ hp
      rw [hp] at hnew
      refine ⟨fun A h => ?_, hobjects⟩
      obtain rfl := Reply.sent.inj h
      exact hnew
    · exact ⟨fun _ h => (by cases h), hobjects⟩

theorem objectsAfter_sized {ss : List Statement} (hss : ∀ s ∈ ss, ∀ v rvalue, .value v rvalue ∈ s.sources → v.Whole) :
    ∀ p ∈ objectsAfter ss, p.Sized := by
  induction ss using List.reverseRecOn with
  | nil => exact fun p hp => absurd hp List.not_mem_nil
  | append_singleton ss s ih =>
    rw [objectsAfter, List.foldl_append]
    have hbefore := ih fun t ht => hss t (List.mem_append_left [s] ht)
    exact (perform_sized hbefore (hss s (List.mem_append_right ss List.mem_cons_self))).2

end Parameter

namespace Sizes

private theorem exists_of_flattenAll {α : Type} {leafCase : LeafTraits → Option Bytes → Int → Bool → α}
    {nullCase : LeafTraits → α} {vs : List Arg} {x : α} (h : x ∈ Arg.flattenAll leafCase nullCase vs) :
    ∃ v ∈ vs, x ∈ Arg.flatten leafCase nullCase v := by
  induction vs with
  | nil => exact absurd h List.not_mem_nil
  | cons v vs ih =>
    rcases List.mem_append.mp h with h | h
    · exact ⟨v, List.mem_cons_self, h⟩
    · obtain ⟨w, hw, hx⟩ := ih h
      exact ⟨w, List.mem_cons_of_mem v hw, hx⟩

/-- The length of a column in binary format is a size that was made an `int`. -/
theorem Known.length {v : Arg} (h : Known v) {c : Column} (hc : c ∈ v.leaves) (hbinary : c.format = 1) :
    c.length = toInt (c.value.getD []).length := by
  induction h with
  | text type selfContained v inside =>
    obtain rfl := List.mem_singleton.mp hc
    exact absurd hbinary (by simp)
  | stringView v =>
    rw [List.mem_singleton.mp hc]
  | string v =>
    rw [List.mem_singleton.mp hc, Option.getD_some]
  | binary v inside =>
    rw [List.mem_singleton.mp hc]
  | nullopt t =>
    obtain ⟨t, -, rfl⟩ := List.mem_map.mp hc
    exact ((toInt_eq_iff 0).mpr (by decide)).symm
  | optional _ ih => exact ih hc
  | pair _ _ ihv ihw => exact (List.mem_append.mp hc).elim ihv ihw
  | tuple _ _ ihv ihvs =>
    refine (List.mem_append.mp hc).elim ihv fun hc => ?_
    obtain ⟨w, hw, hc⟩ := exists_of_flattenAll hc
    exact ihvs w hw hc
  | aggregate _ _ ihv ihvs =>
    refine (List.mem_append.mp hc).elim ihv fun hc => ?_
    obtain ⟨w, hw, hc⟩ := exists_of_flattenAll hc
    exact ihvs w hw hc
  | converted _ ih => exact ih hc

theorem Argument.sized_iff (x : Argument) : (∀ c ∈ x.arg.leaves, c.Sized) ↔ ∀ n ∈ x.sizes, n < 2 ^ 31 := by
  constructor
  · intro h n hn
    obtain ⟨c, hc, rfl⟩ := List.mem_map.mp hn
    obtain ⟨hc, hbinary⟩ := List.mem_filter.mp hc
    have hlength := x.known.length hc (of_decide_eq_true hbinary)
    cases htext : c.value with
    | none => simp
    | some text =>
      rw [h c hc text (of_decide_eq_true hbinary) htext, htext] at hlength
      exact (toInt_eq_iff _).mp hlength.symm
  · intro h c hc text hbinary htext
    have hlength := x.known.length hc hbinary
    have hshort := h _ (List.mem_map_of_mem (List.mem_filter.mpr ⟨hc, decide_eq_true hbinary⟩))
    rw [htext] at hlength hshort
    rw [hlength]
    exact (toInt_eq_iff _).mpr hshort

theorem sizesPassed_iff (args : List Argument) : SizesPassed args ↔ ∀ x ∈ args, ∀ n ∈ x.sizes, n < 2 ^ 31 := by
  constructor
  · intro h x hx
    -- the argument is sent alone
    have hsized : (sendTraits [x.arg]).Sized := by
      refine h [] (.send [.value x.arg x.rvalue]) _ (fun t ht v rvalue hv => ?_) rfl
      obtain rfl := List.mem_singleton.mp ht
      obtain ⟨rfl, rfl⟩ := Parameter.Source.value.inj (List.mem_singleton.mp hv)
      exact List.mem_map_of_mem hx
    have hreads : (sendTraits [x.arg]).Reads (Arg.leavesOf [x.arg]) :=
      (sendTraits_reads_iff _).mpr fun v hv => List.mem_singleton.mp hv ▸ x.wellFormed
    refine x.sized_iff.mp fun c hc => hreads.sized_iff.mp hsized c ?_
    exact List.mem_flatMap.mpr ⟨x.arg, List.mem_cons_self, hc⟩
  · intro h ss s A hfrom hsent
    have hwhole : ∀ t ∈ s :: ss, ∀ v rvalue, .value v rvalue ∈ t.sources → v.Whole := by
      intro t ht v rvalue hv
      obtain ⟨x, hx, hxv⟩ := List.mem_map.mp (hfrom t ht v rvalue hv)
      obtain ⟨rfl, -⟩ := Prod.mk.inj hxv
      exact ⟨x.wellFormed, x.sized_iff.mpr (h x hx)⟩
    obtain ⟨hs, hss⟩ := List.forall_mem_cons.mp hwhole
    exact (Parameter.perform_sized (Parameter.objectsAfter_sized hss) hs).1 A hsent

/-- All bytes of a row reach libpq, or an exception is thrown, and each string or binary value is sent with its true
size, if and only if these are shorter than `2^31` bytes. -/
theorem sent_whole_iff (data : Chunk) (t : Param) (ts : List Param) (args : List Argument) :
    (HandsOver data (fun b => insertRaw b data) ↔ data.length < 2 ^ 31) ∧
    (∃ line, TableWriter.insertIndexed (t :: ts) = some line ∧
      (HandsOver line (fun b => insert b (t :: ts)) ↔ lineLength (t :: ts) < 2 ^ 31)) ∧
    (SizesPassed args ↔ ∀ x ∈ args, ∀ n ∈ x.sizes, n < 2 ^ 31) :=
  ⟨insertRaw_iff data, insert_iff t ts, sizesPassed_iff args⟩

theorem Argument.mem_sizes_ofString (v : Bytes) : v.length ∈ (Argument.ofString v).sizes := List.mem_cons_self

/-- Of `2^31` bytes nothing is handed over, and their size is passed as a negative one. -/
theorem longer_not_whole :
    toInt 2147483648 = -2147483648 ∧
      ¬ HandsOver (List.replicate 2147483648 97) (fun b => insertRaw b (List.replicate 2147483648 97)) ∧
      ¬ SizesPassed [.ofString (List.replicate 2147483648 97)] := by
  refine ⟨by decide +kernel, ?_, ?_⟩
  · rw [insertRaw_iff, List.length_replicate]
    decide
  · rw [sizesPassed_iff]
    intro h
    have hlt := h _ List.mem_cons_self _ (Argument.mem_sizes_ofString _)
    rw [List.length_replicate] at hlt
    exact absurd hlt (by decide)

end Sizes

end TaoPQ
