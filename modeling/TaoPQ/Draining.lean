import TaoPQ.CopyOut

/-!
# Reading the results of a command to the end

Outside pipeline mode, the results of one command are a finite stream that a null pointer ends.  What
`transaction_base::get_result` and the two functions `check_result` leave of it when they are done with the command:
nothing, except where they give up half-way.  They do so in two cases only (`CancelMissed`, `PartialMissed`).

The specifications of this file count the time, so that they say of every answer of the world whether it arrives.
-/

namespace TaoPQ

open Exec

variable {DB : Type} {W : World}

/-! ### The results of one command -/

/-- A result that is followed by others of the same query. -/
def PGresult.isPartial (r : PGresult) : Bool := r.status = .singleTuple || r.status = .tuplesChunk

/-- A result that is the last one of its command. -/
def PGresult.isFinal (r : PGresult) : Bool :=
  r.status = .emptyQuery || r.status = .commandOk || r.status = .tuplesOk || r.status = .fatalError

theorem PGresult.isPartial_iff (r : PGresult) :
    r.isPartial = true ↔ r.status = .singleTuple ∨ r.status = .tuplesChunk := by
  simp [isPartial]

theorem PGresult.isFinal_iff (r : PGresult) : r.isFinal = true ↔
    r.status = .emptyQuery ∨ r.status = .commandOk ∨ r.status = .tuplesOk ∨ r.status = .fatalError := by
  simp [isFinal, or_assoc]

/-- What libpq makes of the answer to one command. -/
inductive CommandStream : List (Item DB) → Prop where
  | results (partials : List PGresult) (r : PGresult) (hp : ∀ p ∈ partials, p.isPartial = true)
    (hr : r.isFinal = true) :
      CommandStream (partials.map .result ++ [.result r, .null])
  | copyIn (load : List Chunk → DB → Option DB) (rows : List Chunk → Nat) (received : List Chunk) :
      CommandStream [.copyIn load rows received]
  | copyOut (columns : Nat) (rows : List Chunk) (r : PGresult) (hr : r.status = .commandOk ∨ r.status = .fatalError) :
      CommandStream [.copyOut columns rows, .result r, .null]

namespace Connection

variable {c : Connection DB} {rest : List (Item DB)}

/-- Everything has been read, and the next command is accepted. -/
def Accepts (W : World) (c : Connection DB) : Prop :=
  c.pg.stream = [] ∧ ∀ byName cmd, (c.pg.send W byName cmd).2 = true

theorem ReadsAt.accepts {n : Nat} {c' : Connection DB} (h : c.ReadsAt [] n c') (ho : c.pg.isOpen = true)
    (hp : c.pg.pipeline = false) : c'.Accepts W := by
  obtain ⟨calls, rfl⟩ := h
  refine ⟨rfl, fun byName cmd => ?_⟩
  simp [PGconn.send, ho, hp]

/-! ### One step -/

theorem wp_getResult_null_at (ho : c.pg.isOpen = true) (hs : c.pg.stream = .null :: rest) :
    wp False (getResult W) (fun v c' => v = none ∧ c.ReadsAt rest (c.pg.clock + 2) c' ∧ W.Delivers c.pg.clock)
      (fun e _ => e.excused = true ∧ ¬ W.Delivers c.pg.clock) c :=
  wp_getResult_at (by simp [PGconn.isBusy, ho, hs]) fun n => by simp [PGconn.getResult, ho, hs]

/-- The result of a COPY TO stays where it is. -/
theorem wp_getResult_copyOut_at (ho : c.pg.isOpen = true) {columns : Nat} {rows : List Chunk}
    (hs : c.pg.stream = .copyOut columns rows :: rest) :
    wp False (getResult W) (fun v c' => v = some ⟨.copyOut, .other, columns, 0, none⟩ ∧
      c.ReadsAt c.pg.stream (c.pg.clock + 2) c' ∧ W.Delivers c.pg.clock)
      (fun e _ => e.excused = true ∧ ¬ W.Delivers c.pg.clock) c :=
  wp_getResult_at (by simp [PGconn.isBusy, ho, hs]) fun n => by simp [PGconn.getResult, ho, hs]

/-- So does that of a COPY FROM, for which there is nothing to wait. -/
theorem wp_getResult_copyIn_at (ho : c.pg.isOpen = true) {load : List Chunk → DB → Option DB}
    {rows : List Chunk → Nat} {received : List Chunk} (hs : c.pg.stream = [.copyIn load rows received]) :
    wp False (getResult W) (fun v c' => v = some (.plain .copyIn .other) ∧
      c.ReadsAt c.pg.stream (c.pg.clock + 1) c') (fun e _ => e.excused = true) c := by
  have hidle : c.pg.isBusy = false := by simp [PGconn.isBusy, ho, hs]
  have hread : c.pg.getResult = (c.pg, some (.plain .copyIn .other)) := by simp [PGconn.getResult, ho, hs]
  simp only [getResult, waitWhen, wp_bind, wp_get, hidle, Bool.false_eq_true, ↓reduceIte, wp_libpq, hread, wp_pure]
  refine wp_mono (wp_handleNotifications_at _) (fun _ c₂ h₂ => ?_) (fun _ _ he => he.1)
  exact ⟨trivial, .trans ⟨_, rfl⟩ h₂.1⟩

/-- The null pointer behind the last result. -/
theorem wp_consumeEmptyResult_at (ho : c.pg.isOpen = true) (hs : c.pg.stream = [.null]) :
    wp False (consumeEmptyResult W) (fun _ c' => c.ReadsAt [] (c.pg.clock + 2) c')
      (fun e _ => e.excused = true) c := by
  simp only [consumeEmptyResult, wp_bind]
  refine wp_mono (wp_getResult_null_at ho hs) (fun v c₁ h₁ => ?_) (fun _ _ he => he.1)
  obtain ⟨rfl, h₁, _⟩ := h₁
  exact h₁

/-- The rows of a COPY TO are thrown away, one wait for each of them, and one for the end. -/
theorem wp_clearCopyDataLoop_at {columns : Nat} (rows : List Chunk) (c : Connection DB) (ho : c.pg.isOpen = true)
    (hs : c.pg.stream = .copyOut columns rows :: rest) :
    wp False (clearCopyDataLoop W (rows.length + 1))
      (fun _ c' => c.ReadsAt rest (c.pg.clock + rows.length + 1) c' ∧
        ∀ i ≤ rows.length, W.wait (c.pg.clock + i) = .ready)
      (fun e _ => e.excused = true ∧ ¬ ∀ i ≤ rows.length, W.wait (c.pg.clock + i) = .ready) c := by
  induction rows generalizing c with
  | nil =>
    rw [List.length_nil, clearCopyDataLoop, wp_bind]
    refine wp_mono (wp_getCopyData_done ho hs) (fun d c₁ h₁ => ?_)
      (fun _ _ he => ⟨he.1, fun hw => he.2 (hw 0 (le_refl 0))⟩)
    obtain ⟨rfl, h₁, hready⟩ := h₁
    rw [wp_pure]
    refine ⟨h₁, fun i hi => ?_⟩
    obtain rfl : i = 0 := Nat.le_zero.1 hi
    exact hready
  | cons row rows ih =>
    rw [List.length_cons, clearCopyDataLoop, wp_bind]
    refine wp_mono (wp_getCopyData_row ho hs) (fun d c₁ h₁ => ?_)
      (fun _ _ he => ⟨he.1, fun hw => he.2 (hw 0 (Nat.zero_le _))⟩)
    obtain ⟨rfl, ⟨calls, rfl⟩, hready⟩ := h₁
    -- the waits of the rounds that follow are those after the first one
    have hlater : (∀ i ≤ rows.length, W.wait (c.pg.clock + 1 + i) = .ready) ↔
        ∀ i ≤ rows.length + 1, W.wait (c.pg.clock + i) = .ready := by
      constructor
      · intro h i hi
        cases i with
        | zero => exact hready
        | succ i =>
          have hi' := h i (by omega)
          rwa [Nat.add_assoc, Nat.add_comm 1 i] at hi'
      · intro h i hi
        rw [Nat.add_assoc, Nat.add_comm 1 i]
        exact h (i + 1) (by omega)
    refine wp_mono (ih ⟨{ c.pg with stream := .copyOut columns rows :: rest, clock := c.pg.clock + 1 }, _, _⟩ ho rfl)
      (fun _ c₂ h₂ => ⟨?_, hlater.1 h₂.2⟩) (fun e _ he => ⟨he.1, fun hw => he.2 (hlater.2 hw)⟩)
    obtain ⟨⟨calls', rfl⟩, _⟩ := h₂
    refine ⟨calls', ?_⟩
    simp only [Nat.add_right_comm, Nat.add_assoc, Nat.add_comm 1]

/-! ### A COPY TO that nobody asked for -/

/-- A COPY TO is given up half-way at a time: the request to cancel it fails, or it comes too late, the COPY succeeds,
and its result arrives. -/
def GivesUp (W : World) (rows : List Chunk) (r : PGresult) (n : Nat) : Prop :=
  W.cancelFails n = true ∨
    W.cancelLate n = true ∧ r.status = .commandOk ∧ (∀ i ≤ rows.length, W.wait (n + 1 + i) = .ready) ∧
      W.Delivers (n + 2 + rows.length)

/-- How an exception leaves the connection: with something unread exactly if `M`. -/
def Verdict (W : World) (M : Prop) (e : Exn) (c : Connection DB) : Prop :=
  M ∧ e.excused = false ∧ c.pg.stream ≠ [] ∨ ¬ M ∧ (e.excused = false → c.Accepts W)

theorem Verdict.excused {M : Prop} {e : Exn} (hM : ¬ M) (he : e.excused = true) (c : Connection DB) :
    Verdict W M e c := .inr ⟨hM, fun h => by simp [he] at h⟩

/-- The error that ends a COPY TO is read, with the null pointer behind it. -/
private theorem wp_endOfCopy {r : PGresult} (ho : c.pg.isOpen = true) (hp : c.pg.pipeline = false)
    (hs : c.pg.stream = [.result r, .null]) {Q : PGresult → Connection DB → Prop} {E : Exn → Connection DB → Prop}
    (hQ : ∀ c' : Connection DB, r.status = .fatalError → c'.Accepts W → Q r c')
    (hE : ∀ e c', e.excused = true → r.status = .fatalError ∨ ¬ W.Delivers c.pg.clock → E e c')
    (hbad : ∀ e (c' : Connection DB), r.status ≠ .fatalError → W.Delivers c.pg.clock → e.excused = false →
      c'.pg.stream ≠ [] → E e c') :
    wp False (getFatalError W) (fun v c => wp False (consumeEmptyResult W) (fun _ => Q v) E c) E c := by
  simp only [getFatalError, wp_bind]
  refine wp_mono (wp_getResult_result_at ho hs) (fun v c₁ h₁ => ?_) (fun e c' he => hE e c' he.1 (.inr he.2))
  obtain ⟨rfl, ⟨calls, rfl⟩, hd⟩ := h₁
  simp only [wp_ite, wp_pure, wp_throw]
  refine ⟨fun hr => ?_, fun hr => hbad _ _ hr hd rfl (List.cons_ne_nil _ _)⟩
  refine wp_mono (wp_consumeEmptyResult_at ho rfl) (fun _ c₂ h₂ => ?_) (fun e c' he => hE e c' he (.inl hr))
  exact hQ c₂ hr (h₂.accepts ho hp)

/-- The rows of a COPY TO are thrown away, and its error is read. -/
private theorem wp_thrownAway {columns : Nat} {rows : List Chunk} {r : PGresult} (ho : c.pg.isOpen = true)
    (hp : c.pg.pipeline = false) (hs : c.pg.stream = [.copyOut columns rows, .result r, .null])
    {Q : Connection DB → Prop} {E : Exn → Connection DB → Prop}
    (hQ : ∀ c' : Connection DB, r.status = .fatalError → c'.Accepts W → Q c')
    (hE : ∀ e c', e.excused = true → r.status = .fatalError ∨
      ¬ ((∀ i ≤ rows.length, W.wait (c.pg.clock + i) = .ready) ∧ W.Delivers (c.pg.clock + rows.length + 1)) → E e c')
    (hbad : ∀ e (c' : Connection DB), r.status ≠ .fatalError → (∀ i ≤ rows.length, W.wait (c.pg.clock + i) = .ready) →
      W.Delivers (c.pg.clock + rows.length + 1) → e.excused = false → c'.pg.stream ≠ [] → E e c') :
    wp False (clearCopyData W) (fun _ c =>
      wp False (getFatalError W) (fun _ c => wp False (consumeEmptyResult W) (fun _ => Q) E c) E c) E c := by
  have hpending : rowsPending c = rows.length := by simp [rowsPending, hs]
  rw [clearCopyData, wp_bind, wp_get, hpending]
  refine wp_mono (wp_clearCopyDataLoop_at rows c ho hs) (fun _ c₁ h₁ => ?_)
    (fun e c' he => hE e c' he.1 (.inr fun h => he.2 h.1))
  obtain ⟨⟨calls, rfl⟩, hw⟩ := h₁
  refine wp_endOfCopy (Q := fun _ => Q) (c := ⟨{ c.pg with
      stream := [.result r, .null]
      clock := c.pg.clock + rows.length + 1 }, c.prepared, calls⟩) ho hp rfl hQ (fun e c' he hr => hE e c' he ?_)
    (fun e c' hr => hbad e c' hr hw)
  exact hr.imp_right fun hd h => hd h.2

/-- The COPY TO is cancelled, its rows are thrown away, and its error is read. -/
private theorem wp_cancelled {columns : Nat} {rows : List Chunk} {r : PGresult} (ho : c.pg.isOpen = true)
    (hp : c.pg.pipeline = false) (hs : c.pg.stream = [.copyOut columns rows, .result r, .null])
    (hr : r.status = .commandOk ∨ r.status = .fatalError) {Q : Connection DB → Prop}
    {E : Exn → Connection DB → Prop} (hQ : ∀ c' : Connection DB, ¬ GivesUp W rows r c.pg.clock → c'.Accepts W → Q c')
    (hE : ∀ e c', Verdict W (GivesUp W rows r c.pg.clock) e c' → E e c') :
    wp False (cancel W) (fun _ c => wp False (clearCopyData W) (fun _ c =>
      wp False (getFatalError W) (fun _ c => wp False (consumeEmptyResult W) (fun _ => Q) E c) E c) E c) E c := by
  simp only [cancel, libpqOr, wp_bind, wp_libpq]
  cases hfails : W.cancelFails c.pg.clock with
  | true =>
    have hcancel : c.pg.cancel W = (c.pg.tick, false) := by simp [PGconn.cancel, ho, hfails]
    simp only [hcancel, Bool.false_eq_true, ↓reduceIte, wp_throw]
    exact hE _ _ (.inl ⟨.inl hfails, rfl, by simp [PGconn.tick, hs]⟩)
  | false =>
    cases hlate : W.cancelLate c.pg.clock with
    | true =>
      -- too late: all rows are read, and the result that the COPY has anyway
      have hcancel : c.pg.cancel W = ({ c.pg with clock := c.pg.clock + 1 }, true) := by
        simp [PGconn.cancel, ho, hfails, hlate, hs, PGconn.tick]
      have hclock : c.pg.clock + 1 + rows.length + 1 = c.pg.clock + 2 + rows.length := by omega
      have hnot (h : r.status = .fatalError ∨ ¬ ((∀ i ≤ rows.length, W.wait (c.pg.clock + 1 + i) = .ready) ∧
          W.Delivers (c.pg.clock + 1 + rows.length + 1))) : ¬ GivesUp W rows r c.pg.clock := by
        rintro (hf | ⟨_, hok, hw, hd⟩)
        · exact absurd (hfails.symm.trans hf) (by decide)
        · rcases h with h | h
          · exact absurd (hok.symm.trans h) (by decide)
          · exact h ⟨hw, by rwa [hclock]⟩
      simp only [hcancel, ↓reduceIte, wp_pure]
      refine wp_thrownAway (c := ⟨{ c.pg with clock := c.pg.clock + 1 }, c.prepared, .cancel :: c.calls⟩) ho hp hs
        (fun c' hr' => hQ c' (hnot (.inl hr'))) (fun e c' he hr' => hE e c' (.excused (hnot hr') he c'))
        (fun e c' hr' hw hd he hstream => hE e c' (.inl ⟨.inr ⟨hlate, hr.resolve_right hr', hw, ?_⟩, he, hstream⟩))
      rwa [hclock] at hd
    | false =>
      -- in time: no more rows, and an error
      have hcancel : c.pg.cancel W = ({ c.pg with
          session := c.pg.session.fail
          stream := [.copyOut columns [], .result .fatal, .null]
          clock := c.pg.clock + 1 }, true) := by
        simp [PGconn.cancel, ho, hfails, hlate, hs, PGconn.tick]
      have hnot : ¬ GivesUp W rows r c.pg.clock := by simp [GivesUp, hfails, hlate]
      simp only [hcancel, ↓reduceIte, wp_pure]
      exact wp_thrownAway (c := ⟨{ c.pg with
          session := c.pg.session.fail
          stream := [.copyOut columns [], .result .fatal, .null]
          clock := c.pg.clock + 1 }, c.prepared, .cancel :: c.calls⟩) ho hp rfl (fun c' _ => hQ c' hnot)
        (fun e c' he _ => hE e c' (.excused hnot he c')) (fun e c' hr' _ _ _ _ => absurd rfl hr')

/-! ### The results of a statement -/

/-- A COPY TO is answered, and given up half-way. -/
def CancelMissed (W : World) (c : Connection DB) : Prop :=
  ∃ columns rows r, c.pg.stream = [.copyOut columns rows, .result r, .null] ∧ W.Delivers c.pg.clock ∧
    GivesUp W rows r (c.pg.clock + 2)

/-- The first two results of a query arrive, and the first one is partial. -/
def PartialMissed (W : World) (c : Connection DB) : Prop :=
  ∃ p rest, c.pg.stream = .result p :: rest ∧ p.isPartial = true ∧ W.Delivers c.pg.clock ∧
    W.Delivers (c.pg.clock + 2)

theorem CancelMissed.delivers (h : CancelMissed W c) : W.Delivers c.pg.clock := by
  obtain ⟨_, _, _, _, hd, _⟩ := h
  exact hd

theorem cancelMissed_iff {columns : Nat} {rows : List Chunk} {r : PGresult}
    (hs : c.pg.stream = [.copyOut columns rows, .result r, .null]) (hd : W.Delivers c.pg.clock) :
    CancelMissed W c ↔ GivesUp W rows r (c.pg.clock + 2) := by
  constructor
  · rintro ⟨columns', rows', r', hs', _, h⟩
    cases hs.symm.trans hs'
    exact h
  · exact fun h => ⟨columns, rows, r, hs, hd, h⟩

theorem not_cancelMissed_result {p : PGresult} (hs : c.pg.stream = .result p :: rest) : ¬ CancelMissed W c := by
  rintro ⟨columns, rows, r, hs', _⟩
  cases hs.symm.trans hs'

theorem not_cancelMissed_copyIn {load : List Chunk → DB → Option DB} {rows : List Chunk → Nat}
    {received : List Chunk} (hs : c.pg.stream = .copyIn load rows received :: rest) : ¬ CancelMissed W c := by
  rintro ⟨columns, rows', r, hs', _⟩
  cases hs.symm.trans hs'

/-- `transaction_base::get_result` ends a COPY FROM with an error, and throws it. -/
private theorem wp_fetchResult_copyIn_at (ho : c.pg.isOpen = true) (hp : c.pg.pipeline = false)
    {load : List Chunk → DB → Option DB} {rows : List Chunk → Nat} {received : List Chunk}
    (hs : c.pg.stream = [.copyIn load rows received]) :
    wp False (fetchResult W) (fun _ _ => False) (fun e c' => e.excused = false → c'.Accepts W) c := by
  have excuse {e : Exn} {c' : Connection DB} (he : e.excused = true) : e.excused = false → c'.Accepts W := by
    simp [he]
  simp only [fetchResult, wp_bind]
  refine wp_mono (wp_getResult_copyIn_at ho hs) (fun v c₁ h₁ => ?_) (fun _ _ he => excuse he)
  obtain ⟨rfl, calls, rfl⟩ := h₁
  have hwaits : (c.pg.isOpen && c.pg.inCopy) = true := by simp [PGconn.inCopy, ho, hs]
  simp only [PGresult.plain, putCopyEnd, libpqOr, waitWhen, wp_bind, wp_get, wp_libpq]
  rw [if_pos (by exact hwaits)]
  refine wp_mono (wp_wait_at _) (fun _ c₂ h₂ => ?_) (fun _ _ he => excuse he.1)
  obtain ⟨⟨calls', rfl⟩, _⟩ := h₂
  simp only [PGconn.putCopyEnd, ho, hs, Bool.not_true, Bool.false_eq_true, ↓reduceIte, wp_pure]
  exact wp_endOfCopy (Q := fun v => wp False (result v) (fun _ _ => False) fun e c' => e.excused = false → c'.Accepts W)
    (c := ⟨{ c.pg with
      isOpen := true
      session := c.pg.session.fail
      stream := [.result .fatal, .null]
      clock := c.pg.clock + 1 + 1 }, c.prepared, .putCopyEnd :: calls'⟩) rfl hp rfl (fun c' _ hc' _ => hc')
    (fun _ _ he _ => excuse he) (fun _ _ hr _ _ _ => absurd rfl hr)

/-- Behind the result that ends a command, or behind a partial one. -/
private theorem wp_consumeEmptyResult_behind {p : PGresult} (ho : c.pg.isOpen = true) (hp : c.pg.pipeline = false)
    (hs : CommandStream (.result p :: c.pg.stream)) :
    wp False (consumeEmptyResult W) (fun _ c' => p.isPartial = false ∧ c'.Accepts W)
      (Verdict W (p.isPartial = true ∧ W.Delivers c.pg.clock)) c := by
  generalize hstream : (.result p :: c.pg.stream : List (Item DB)) = stream at hs
  cases hs with
  | results partials r hparts hr =>
    cases partials with
    | nil =>
      obtain ⟨hhead, htail⟩ := List.cons.inj hstream
      obtain rfl := Item.result.inj hhead
      have hfinal : p.isPartial = false := by
        rcases p.isFinal_iff.1 hr with hr | hr | hr | hr <;> simp [PGresult.isPartial, hr]
      have hnot : ¬ (p.isPartial = true ∧ W.Delivers c.pg.clock) := by simp [hfinal]
      exact wp_mono (wp_consumeEmptyResult_at ho htail) (fun _ c' h' => ⟨hfinal, h'.accepts ho hp⟩)
        (fun _ c' he => .excused hnot he c')
    | cons q partials =>
      obtain ⟨hhead, htail⟩ := List.cons.inj hstream
      obtain rfl := Item.result.inj hhead
      have hpart : p.isPartial = true := hparts p List.mem_cons_self
      -- one more result follows, which is not expected
      obtain ⟨q, rest, hnext, hrest⟩ : ∃ q rest, c.pg.stream = .result q :: rest ∧ rest ≠ [] := by
        cases partials with
        | nil => exact ⟨r, [.null], htail, by simp⟩
        | cons q partials => exact ⟨q, _, htail, by simp⟩
      simp only [consumeEmptyResult, wp_bind]
      refine wp_mono (wp_getResult_result_at ho hnext) (fun v c' h' => ?_)
        (fun _ c' he => .excused (fun h => he.2 h.2) he.1 c')
      obtain ⟨rfl, ⟨calls, rfl⟩, hd⟩ := h'
      exact .inl ⟨⟨hpart, hd⟩, rfl, hrest⟩
  | copyIn load rows received => cases hstream
  | copyOut columns rows r hr => cases hstream

/-- `transaction_base::get_result` -/
theorem wp_fetchResult_drains (ho : c.pg.isOpen = true) (hp : c.pg.pipeline = false) (hs : CommandStream c.pg.stream) :
    wp False (fetchResult W) (fun r c' => ¬ CancelMissed W c ∧ (r.isPartial = false → c'.Accepts W))
      (Verdict W (CancelMissed W c)) c := by
  generalize hstream : c.pg.stream = stream at hs
  cases hs with
  | results partials r hparts hr =>
    simp only [fetchResult, wp_bind]
    cases partials with
    | nil =>
      have hnot := not_cancelMissed_result (W := W) hstream
      refine wp_mono (wp_getResult_result_at ho hstream) (fun v c₁ h₁ => ?_) (fun _ c' he => .excused hnot he.1 c')
      obtain ⟨rfl, ⟨calls, rfl⟩, _⟩ := h₁
      have last : wp False (do consumeEmptyResult W; result r)
          (fun r c' => ¬ CancelMissed W c ∧ (r.isPartial = false → c'.Accepts W)) (Verdict W (CancelMissed W c))
          ⟨{ c.pg with stream := [.null], clock := c.pg.clock + 2 }, c.prepared, calls⟩ := by
        rw [wp_bind]
        refine wp_mono (wp_consumeEmptyResult_at ho rfl) (fun _ c₂ h₂ => ?_) (fun _ c' he => .excused hnot he c')
        have haccepts := h₂.accepts (W := W) ho hp
        rcases r.isFinal_iff.1 hr with hr | hr | hr | hr <;> simp [result, hr, Verdict, hnot, haccepts]
      rcases r.isFinal_iff.1 hr with hr | hr | hr | hr <;> simpa only [hr] using last
    | cons p partials =>
      have hnot := not_cancelMissed_result (W := W) hstream
      refine wp_mono (wp_getResult_result_at ho hstream) (fun v c₁ h₁ => ?_) (fun _ c' he => .excused hnot he.1 c')
      obtain ⟨rfl, _, _⟩ := h₁
      have hpart : p.isPartial = true := hparts p List.mem_cons_self
      have kept : wp False (result p) (fun r c' => ¬ CancelMissed W c ∧ (r.isPartial = false → c'.Accepts W))
          (Verdict W (CancelMissed W c)) c₁ := by
        rcases p.isPartial_iff.1 hpart with hp | hp <;> simp [result, hp, hnot, hpart]
      rcases p.isPartial_iff.1 hpart with hp | hp <;> simpa only [hp] using kept
  | copyIn load rows received =>
    have hnot := not_cancelMissed_copyIn (W := W) hstream
    exact wp_mono (wp_fetchResult_copyIn_at ho hp hstream) (fun _ _ => False.elim) (fun _ _ h => .inr ⟨hnot, h⟩)
  | copyOut columns rows r hr =>
    simp only [fetchResult, wp_bind]
    refine wp_mono (wp_getResult_copyOut_at ho hstream) (fun v c₁ h₁ => ?_)
      (fun _ c' he => .excused (fun h => he.2 h.delivers) he.1 c')
    obtain ⟨rfl, ⟨calls, rfl⟩, hd⟩ := h₁
    have missed := cancelMissed_iff hstream hd
    simp only [wp_bind, wp_throw]
    refine wp_cancelled (c := ⟨{ c.pg with clock := c.pg.clock + 2 }, c.prepared, calls⟩) ho hp hstream hr
      (fun c' hnot hc' => .inr ⟨fun h => hnot (missed.1 h), fun _ => hc'⟩) (fun e c' h => ?_)
    rwa [missed]

end Connection

/-! ### What libpq answers -/

theorem CommandStream.last {r : PGresult} (hr : r.isFinal = true) :
    CommandStream ([.result r, .null] : List (Item DB)) := .results [] r (fun _ hp => by cases hp) hr

theorem run_isFinal (σ : Session DB) (effect : DB → Option DB) {ok : PGresult} (hok : ok.isFinal = true) :
    (σ.run effect ok).2.isFinal = true := by
  unfold Session.run
  repeat' split
  all_goals first
    | exact hok
    | rfl

theorem deallocate_isFinal (σ : Session DB) (name : String) : (σ.deallocate name).2.isFinal = true := by
  unfold Session.deallocate
  repeat' split
  all_goals rfl

/-- The answer to a command is such a stream. -/
theorem CommandStream.run (c : PGconn DB) (byName : Bool) (cmd : Command DB) :
    CommandStream (c.run W byName cmd).2 := by
  cases cmd with
  | control k =>
    rcases Connection.control_status c.session (W.commitRefused c.clock) k with h | h
    · exact .last ((PGresult.isFinal_iff _).2 (.inr (.inl h)))
    · exact .last ((PGresult.isFinal_iff _).2 (.inr (.inr (.inr h))))
  | deallocate name => exact .last (deallocate_isFinal _ name)
  | user u =>
    simp only [PGconn.run]
    split
    · exact .last rfl
    · cases u.body with
      | empty => exact .last rfl
      | command effect n => exact .last (run_isFinal _ _ rfl)
      | query effect columns rows => exact .last (run_isFinal _ _ rfl)
      | copyFrom load rows =>
        simp only [PGconn.runUser]
        split
        · exact .last rfl
        · exact .copyIn load rows []
      | copyTo columns rows completes =>
        simp only [PGconn.runUser]
        repeat' split
        · exact .last rfl
        · exact .copyOut columns rows _ (.inl rfl)
        · exact .copyOut columns rows _ (.inr rfl)

/-- The status of the first result, if it is not a COPY. -/
theorem CommandStream.head_status {p : PGresult} {rest : List (Item DB)} (h : CommandStream (.result p :: rest)) :
    p.status = .singleTuple ∨ p.status = .tuplesChunk ∨ p.status = .emptyQuery ∨ p.status = .commandOk ∨
      p.status = .tuplesOk ∨ p.status = .fatalError := by
  generalize hs : (.result p :: rest : List (Item DB)) = stream at h
  cases h with
  | results partials r hp hr =>
    cases partials with
    | nil =>
      obtain rfl := Item.result.inj (List.cons.inj hs).1
      exact .inr (.inr (p.isFinal_iff.1 hr))
    | cons q partials =>
      obtain rfl := Item.result.inj (List.cons.inj hs).1
      exact (p.isPartial_iff.1 (hp p List.mem_cons_self)).imp_right .inl
  | copyIn load rows received => cases hs
  | copyOut columns rows r hr => cases hs

/-- Some partial results in front of a final one. -/
theorem CommandStream.split {c : PGconn DB} {r : PGresult} {rest : List (Item DB)} (h : CommandStream c.stream)
    (hs : c.stream = .result r :: rest) (hr : r.status = .tuplesOk) (partials : List PGresult)
    (hp : ∀ p ∈ partials, p.isPartial = true) :
    CommandStream (partials.map .result ++ .result { r with ntuples := 0 } :: rest) := by
  generalize c.stream = stream at h hs
  cases h with
  | results partials' r' hp' hr' =>
    cases partials' with
    | nil =>
      obtain ⟨hhead, rfl⟩ := List.cons.inj hs
      exact .results partials _ hp (by simp [PGresult.isFinal, hr])
    | cons q partials' =>
      obtain ⟨hhead, -⟩ := List.cons.inj hs
      obtain rfl := Item.result.inj hhead
      have hpart := hp' q List.mem_cons_self
      simp [PGresult.isPartial, hr] at hpart
  | copyIn load rows received => cases hs
  | copyOut columns rows r' hr' => cases hs

/-- It is one still when the rows are asked for one by one, or in chunks. -/
theorem CommandStream.setSingleRowMode {c : PGconn DB} (h : CommandStream c.stream) :
    CommandStream c.setSingleRowMode.1.stream := by
  unfold PGconn.setSingleRowMode
  repeat' split
  all_goals first
    | exact h
    | skip
  rename_i r rest hs hr
  have hsplit := h.split hs hr (List.replicate r.ntuples ⟨.singleTuple, .other, r.nfields, 1, none⟩)
    fun p hp => by simp [List.eq_of_mem_replicate hp, PGresult.isPartial]
  rwa [List.map_replicate] at hsplit

theorem CommandStream.setChunkedRowsMode {c : PGconn DB} (h : CommandStream c.stream) (size : Int) :
    CommandStream (c.setChunkedRowsMode size).1.stream := by
  unfold PGconn.setChunkedRowsMode
  split
  · exact h
  · split
    · rename_i r rest hs
      split
      · rename_i hr
        dsimp only
        generalize List.replicate (r.ntuples / size.toNat) size.toNat ++ _ = sizes
        have hsplit := h.split hs hr (sizes.map fun n => ⟨.tuplesChunk, .other, r.nfields, n, none⟩)
          fun p hp => by
            obtain ⟨n, -, rfl⟩ := List.mem_map.1 hp
            rfl
        rwa [List.map_map] at hsplit
      · exact h
    all_goals exact h

/-! ### What is left of the results -/

/-- The results of a command are waiting for the current transaction. -/
structure State.Answering (s : State DB) (a : Addr) : Prop where
  transaction : ∃ x, s.object a = some x ∧ x.connected = true
  current : s.current = some a
  isOpen : s.conn.pg.isOpen = true
  pipeline : s.conn.pg.pipeline = false
  stream : CommandStream s.conn.pg.stream

/-- When `x` is done with a command, and no timeout, lost connection or notification handler prevented it, the
results have been read to the end. -/
def Drains (W : World) {α : Type} (done : α → Bool) (x : Prog DB α) (s : State DB) : Prop :=
  wp False x (fun v s' => done v = true → s'.conn.Accepts W) (fun e s' => e.excused = false → s'.conn.Accepts W) s

/-- `check_result` of a table reader or of a table writer -/
def checkResult (W : World) (reader : Bool) (b : Nat) : Prog DB Unit :=
  if reader then readerCheckResult W b else writerCheckResult W b

/-- The statement is of the kind that a table reader, or a table writer, is for. -/
def Connection.Expected (reader : Bool) (c : Connection DB) : Prop :=
  match c.pg.stream with
  | .copyIn .. :: _ => reader = false
  | .copyOut .. :: _ => reader = true
  | _ => False

/-- A verdict on every way out decides whether the results are read to the end. -/
private theorem drains_iff {α : Type} {done : α → Bool} {x : Prog DB α} {s : State DB} {M : Prop}
    (h : wp False x (fun v s' => ¬ M ∧ (done v = true → s'.conn.Accepts W))
      (fun e s' => Connection.Verdict W M e s'.conn) s) : Drains W done x s ↔ ¬ M := by
  constructor
  · intro hd hM
    have hboth := wp_and h hd
    -- neither way out is left
    have hnone : wp False x (fun _ _ => False) (fun _ _ => False) s := wp_mono hboth (fun _ _ hq => hq.1.1 hM)
      fun e s' he => by
        rcases he.1 with ⟨_, hexc, hs⟩ | ⟨hn, _⟩
        · exact hs (he.2 hexc).1
        · exact hn hM
    obtain ⟨_, _, _, hfalse⟩ := exists_ret hnone
    exact hfalse
  · intro hM
    refine wp_mono h (fun _ _ hq => hq.2) (fun e s' he => ?_)
    rcases he with ⟨hM', _⟩ | ⟨_, he⟩
    · exact absurd hM' hM
    · exact he

section CheckResult

variable {s : State DB} {a : Addr} {b : Nat} {k : Bulk}

open Connection

/-- An unexpected result, and what is done about it. -/
private theorem wp_unexpected {p : PGresult} {rest : List (Item DB)} (h : s.Answering a)
    (hs : s.conn.pg.stream = .result p :: rest) (hd : W.Delivers s.conn.pg.clock) {c : Connection DB}
    (hc : s.conn.ReadsAt rest (s.conn.pg.clock + 2) c) {x : Prog DB Unit} {e : Exn}
    (hx : ∀ s', x s' = .throw e s') {Q : Unit → State DB → Prop} :
    wp False (do onConnection (consumeEmptyResult W); x) Q
      (fun e s' => Verdict W (CancelMissed W s.conn ∨ PartialMissed W s.conn) e s'.conn) { s with conn := c } := by
  have hnot := not_cancelMissed_result (W := W) hs
  have hmissed : p.isPartial = true ∧ W.Delivers (s.conn.pg.clock + 2) ↔
      CancelMissed W s.conn ∨ PartialMissed W s.conn := by
    constructor
    · exact fun h => .inr ⟨p, rest, hs, h.1, hd, h.2⟩
    · rintro (h | ⟨p', rest', hs', hp, _, hd'⟩)
      · exact absurd h hnot
      · cases hs.symm.trans hs'
        exact ⟨hp, hd'⟩
  obtain ⟨calls, rfl⟩ := hc
  rw [wp_bind, wp_onConnection]
  refine wp_mono (wp_consumeEmptyResult_behind (c := ⟨{ s.conn.pg with
      stream := rest, clock := s.conn.pg.clock + 2 }, s.conn.prepared, calls⟩) h.isOpen h.pipeline (hs ▸ h.stream))
    (fun _ c' h' => ?_) (fun e' c' h' => ?_)
  · have hfinal : ¬ (CancelMissed W s.conn ∨ PartialMissed W s.conn) := by
      rw [← hmissed, h'.1]
      simp
    unfold wp
    rw [hx]
    exact .inr ⟨hfinal, fun _ => h'.2⟩
  · rwa [hmissed] at h'

/-- `check_result` on a result that is not a COPY. -/
private theorem checkResult_result_drains (h : s.Answering a) (hk : s.bulk b = some k) (ha : k.transaction = some a)
    {p : PGresult} {rest : List (Item DB)} (hs : s.conn.pg.stream = .result p :: rest) (reader : Bool) :
    Drains W (fun _ => true) (checkResult W reader b) s ↔ ¬ (CancelMissed W s.conn ∨ PartialMissed W s.conn) := by
  refine drains_iff ?_
  obtain ⟨x, hx, hc⟩ := h.transaction
  have hnot : ¬ W.Delivers s.conn.pg.clock → ¬ (CancelMissed W s.conn ∨ PartialMissed W s.conn) := by
    rintro hd (⟨_, _, _, _, hd', _⟩ | ⟨_, _, _, _, hd', _⟩)
    · exact hd hd'
    · exact hd hd'
  have hcheck := (hs ▸ h.stream : CommandStream (.result p :: rest)).head_status
  cases reader with
  | true =>
    simp only [checkResult, ↓reduceIte, readerCheckResult, guardOf, derefConnection, wp_bind, wp_derefBulk, hk,
      Option.some.injEq, forall_eq', ha, wp_derefPointer_some, wp_deref, hx, hc, wp_pure, reduceCtorEq, false_implies,
      and_true, wp_onConnection]
    intro _
    refine wp_mono (wp_getResult_result_at h.isOpen hs) (fun v c₁ h₁ => ?_)
      (fun _ c' he => .excused (hnot he.2) he.1 c')
    obtain ⟨rfl, h₁, hd⟩ := h₁
    rcases hcheck with hp | hp | hp | hp | hp | hp <;> simp only [statusOf, hp] <;>
      exact wp_unexpected h hs hd h₁ fun _ => rfl
  | false =>
    simp only [checkResult, Bool.false_eq_true, ↓reduceIte, writerCheckResult, guardOf, derefConnection, wp_bind,
      wp_derefBulk, hk, Option.some.injEq, forall_eq', ha, wp_derefPointer_some, wp_deref, hx, hc, wp_pure,
      reduceCtorEq, false_implies, and_true, wp_onConnection]
    intro _
    refine wp_mono (wp_getResult_result_at h.isOpen hs) (fun v c₁ h₁ => ?_)
      (fun _ c' he => .excused (hnot he.2) he.1 c')
    obtain ⟨rfl, h₁, hd⟩ := h₁
    rcases hcheck with hp | hp | hp | hp | hp | hp <;> simp only [statusOf, hp] <;>
      exact wp_unexpected h hs hd h₁ fun _ => rfl

/-- A table reader leaves a COPY FROM to `get_result`. -/
private theorem readerCheckResult_copyIn_drains (h : s.Answering a) (hk : s.bulk b = some k)
    (ha : k.transaction = some a) {load : List Chunk → DB → Option DB} {rows : List Chunk → Nat}
    {received : List Chunk} (hs : s.conn.pg.stream = [.copyIn load rows received]) :
    Drains W (fun _ => true) (readerCheckResult W b) s := by
  obtain ⟨x, hx, hc⟩ := h.transaction
  have excuse {e : Exn} {c' : Connection DB} (he : e.excused = true) : e.excused = false → c'.Accepts W := by
    simp [he]
  unfold Drains
  simp only [readerCheckResult, guardOf, derefConnection, wp_bind, wp_derefBulk, hk, Option.some.injEq, forall_eq', ha,
    wp_derefPointer_some, wp_deref, hx, hc, ↓reduceIte, wp_pure, reduceCtorEq, false_implies, and_true, wp_onConnection]
  intro _
  refine wp_mono (wp_getResult_copyIn_at h.isOpen hs) (fun v c₁ h₁ => ?_) (fun _ _ he => excuse he)
  obtain ⟨rfl, calls, rfl⟩ := h₁
  simp only [statusOf, PGresult.plain, getResult, wp_bind]
  have hconn : ({ s with conn := ⟨{ s.conn.pg with clock := s.conn.pg.clock + 1 }, s.conn.prepared, calls⟩ } :
    State DB).object a = some x := hx
  rw [wp_check_current hconn hc h.current, wp_onConnection]
  exact wp_mono (wp_fetchResult_copyIn_at (c := ⟨{ s.conn.pg with clock := s.conn.pg.clock + 1 }, s.conn.prepared,
    calls⟩) h.isOpen h.pipeline hs) (fun _ _ => False.elim) (fun _ _ he => he)

/-- A table writer cancels a COPY TO as `get_result` does. -/
private theorem writerCheckResult_copyOut_drains (h : s.Answering a) (hk : s.bulk b = some k)
    (ha : k.transaction = some a) {columns : Nat} {rows : List Chunk} {r : PGresult}
    (hs : s.conn.pg.stream = [.copyOut columns rows, .result r, .null])
    (hr : r.status = .commandOk ∨ r.status = .fatalError) :
    Drains W (fun _ => true) (writerCheckResult W b) s ↔ ¬ CancelMissed W s.conn := by
  refine drains_iff ?_
  obtain ⟨x, hx, hc⟩ := h.transaction
  simp only [writerCheckResult, guardOf, derefConnection, wp_bind, wp_derefBulk, hk, Option.some.injEq, forall_eq', ha,
    wp_derefPointer_some, wp_deref, hx, hc, ↓reduceIte, wp_pure, reduceCtorEq, false_implies, and_true, wp_onConnection]
  intro _
  refine wp_mono (wp_getResult_copyOut_at h.isOpen hs) (fun v c₁ h₁ => ?_)
    (fun _ c' he => .excused (fun hm => he.2 hm.delivers) he.1 c')
  obtain ⟨rfl, ⟨calls, rfl⟩, hd⟩ := h₁
  have missed := cancelMissed_iff hs hd
  simp only [statusOf, wp_bind, wp_onConnection, wp_throw]
  refine wp_cancelled (c := ⟨{ s.conn.pg with clock := s.conn.pg.clock + 2 }, s.conn.prepared, calls⟩) h.isOpen
    h.pipeline hs hr (fun c' hnot hc' => .inr ⟨fun hm => hnot (missed.1 hm), fun _ => hc'⟩) (fun e c' hv => ?_)
  rwa [missed]

end CheckResult

/-- Whatever a command has been answered with: `get_result` reads all of it, unless a COPY TO is given up half-way,
and so does the `check_result` of a table reader or writer on a statement of the wrong kind, unless partial results
have been asked for. -/
theorem drains_iff_not_missed {s : State DB} {a : Addr} (h : s.Answering a) :
    (Drains W (fun r => !r.isPartial) (getResult W a) s ↔ ¬ Connection.CancelMissed W s.conn) ∧
      ∀ reader b k, s.bulk b = some k → k.transaction = some a → ¬ s.conn.Expected reader →
        (Drains W (fun _ => true) (checkResult W reader b) s ↔
          ¬ (Connection.CancelMissed W s.conn ∨ Connection.PartialMissed W s.conn)) := by
  constructor
  · obtain ⟨x, hx, hc⟩ := h.transaction
    refine drains_iff ?_
    simp only [getResult, wp_bind]
    rw [wp_check_current hx hc h.current, wp_onConnection]
    exact wp_mono (Connection.wp_fetchResult_drains h.isOpen h.pipeline h.stream)
      (fun r c' h' => ⟨h'.1, fun hp => h'.2 (by simpa using hp)⟩) (fun _ _ he => he)
  · intro reader b k hk ha hkind
    have hstream := h.stream
    generalize hs : s.conn.pg.stream = stream at hstream
    cases hstream with
    | results partials r hp hr =>
      cases partials with
      | nil => exact checkResult_result_drains h hk ha hs reader
      | cons q partials => exact checkResult_result_drains h hk ha hs reader
    | copyIn load rows received =>
      have hreader : reader = true := by simpa [Connection.Expected, hs] using hkind
      have hnot : ¬ (Connection.CancelMissed W s.conn ∨ Connection.PartialMissed W s.conn) := by
        rintro (hm | ⟨p, rest, hs', _⟩)
        · exact Connection.not_cancelMissed_copyIn hs hm
        · cases hs.symm.trans hs'
      subst hreader
      exact iff_of_true (readerCheckResult_copyIn_drains h hk ha hs) hnot
    | copyOut columns rows r hr =>
      have hreader : reader = false := by simpa [Connection.Expected, hs] using hkind
      have hnot : ¬ Connection.PartialMissed W s.conn := by
        rintro ⟨p, rest, hs', _⟩
        cases hs.symm.trans hs'
      subst hreader
      rw [or_iff_left hnot]
      exact writerCheckResult_copyOut_drains h hk ha hs hr

/-- The direct transaction has sent a COPY TO of one row, with the time that the connection has used so far. -/
def State.copyToSent : State Unit :=
  { State.directOnly () 0 with
    conn := ⟨{ PGconn.init () with
      stream := [.copyOut 1 [[97, 10]], .result ⟨.commandOk, .other, 0, 0, some 1⟩, .null] }, [], [.sendQueryParams]⟩ }

theorem State.copyToSent_reachable (W : World) : Reachable W State.copyToSent :=
  .step (c := .send 0 ⟨"COPY t TO STDOUT", .copyTo 1 [[97, 10]] true⟩) (.directOnly () 0 trivial) trivial
    ⟨by decide, rfl⟩

theorem State.copyToSent_answering : State.copyToSent.Answering 0 :=
  ⟨⟨⟨.autocommitTransaction, true⟩, rfl, rfl⟩, rfl, rfl, rfl, .copyOut 1 [[97, 10]] _ (.inl rfl)⟩

theorem drains_iff_not_missed_copyTo : ¬ Connection.CancelMissed .calm State.copyToSent.conn ∧
    Drains .calm (fun r => !r.isPartial) (getResult .calm 0) State.copyToSent := by
  have hnot : ¬ Connection.CancelMissed .calm State.copyToSent.conn := by
    rintro ⟨columns, rows, r, hs, hd, h | ⟨h, _⟩⟩
    · simp [World.calm] at h
    · simp [World.calm] at h
  exact ⟨hnot, (drains_iff_not_missed State.copyToSent_answering).1.2 hnot⟩

/-- A COPY TO that `get_result` cancels too late: the null pointer is left, and the next command is refused. -/
theorem late_cancel_leaves_null : ∃ W : World, Reachable W State.copyToSent ∧ State.copyToSent.Answering 0 ∧
    ∃ s', getResult W 0 State.copyToSent = .throw (.runtimeError "unexpected result status: PGRES_COMMAND_OK") s' ∧
      s'.conn.pg.isOpen = true ∧ s'.conn.pg.stream = [.null] ∧
      ∀ byName cmd, (s'.conn.pg.send W byName cmd).2 = false :=
  ⟨{ World.calm with cancelLate := fun _ => true }, State.copyToSent_reachable _, State.copyToSent_answering,
    _, rfl, rfl, rfl, fun _ _ => rfl⟩

end TaoPQ
