import TaoPQ.Batches
import TaoPQ.Containers

/-!
# Rows in portions

A program need not wait for all rows of a query: in the single-row mode they come one by one, and in the chunk mode in
chunks of a size that it chooses.  The loop over such results is that of `test/integration/single_row_mode.cpp` and
`chunk_mode.cpp`: it puts the rows of each result into a container, until a result is empty.  What it leaves is the
container that is made of the rows of one result that has them all (`rows_in_portions`), and it never ends with a part
of the rows as if that were all.
-/

namespace TaoPQ

/-! ### Rows of a part of a result -/

/-- Two conversions have the same value, or both throw. -/
def Conversion.Agree {β : Type} (x y : Conversion β) : Prop :=
  (∃ v, x = pure v ∧ y = pure v) ∨ ∃ e e', x = throw e ∧ y = throw e'

theorem Conversion.Agree.bind {β γ : Type} {x y : Conversion β} {f g : β → Conversion γ} (h : x.Agree y)
    (hf : ∀ v, (f v).Agree (g v)) : (x >>= f).Agree (y >>= g) := by
  rcases h with ⟨v, rfl, rfl⟩ | ⟨e, e', rfl, rfl⟩
  · exact hf v
  · exact .inr ⟨e, e', rfl, rfl⟩

theorem Conversion.Agree.of_pure {β : Type} (v : β) : Conversion.Agree (pure v) (pure v) := .inl ⟨v, rfl, rfl⟩

/-- Two rows with the same cells have the same value, or both have none. -/
theorem Row.Valid.agree {α : Type} {t : ResultType α} {r r' : Row} (hr : r.Valid) (hr' : r'.Valid)
    (hread : t.readable = true) (hcells : r.cells = r'.cells) : (r.as t).Agree (r'.as t) := by
  by_cases h : t.size = r.cells.length
  · have hsettles := ResultType.as_settles (Row.lawful α) hread ⟨hr, rfl⟩ h
    have hsettles' := ResultType.as_settles (Row.lawful α) hread ⟨hr', rfl⟩ (hcells ▸ h)
    rw [← hcells] at hsettles'
    cases hx : t.value r.cells with
    | some v =>
      rw [hx] at hsettles hsettles'
      exact .inl ⟨v, hsettles.eq_pure, hsettles'.eq_pure⟩
    | none =>
      rw [hx] at hsettles hsettles'
      obtain ⟨e, he, -⟩ := hsettles.eq_throw
      obtain ⟨e', he', -⟩ := hsettles'.eq_throw
      exact .inr ⟨e, e', he, he'⟩
  · have h' : t.size ≠ r'.cells.length := hcells ▸ h
    exact .inr ⟨_, _, ResultType.as_of_ne (Row.lawful α) ⟨hr, rfl⟩ h,
      ResultType.as_of_ne (Row.lawful α) ⟨hr', rfl⟩ h'⟩

namespace ResultSet

variable {α γ : Type}

/-- A result that has some of the rows, the way `libpq` hands them out: so many, from one on. -/
def part (res : ResultSet) (first n : Nat) : ResultSet where
  rows := (res.rows.drop first).take n
  columns := res.columns
  cells := fun x hx => res.cells x (List.mem_of_mem_drop (List.mem_of_mem_take hx))

/-- The value of a row is put at the end of a container. -/
def putRow (c : RowContainer (ResultValue α) γ) (t : ResultType α) (nrv : γ) (row : Row) : Conversion γ := do
  return c.insertEnd nrv (← row.as t)

/-- The loop of a program over the rows of a result, which puts them into a container that may have values already. -/
def appendTo (res : ResultSet) (c : RowContainer (ResultValue α) γ) (t : ResultType α) (nrv : γ) : Conversion γ :=
  match iterate Row.row Row.nextRow res.stop (res.rows.length + 1) res.begin with
  | some rows => rows.foldlM (putRow c t) nrv
  | none => none

/-- The rows from one on, put into a container. -/
def insertRows (res : ResultSet) (c : RowContainer (ResultValue α) γ) (t : ResultType α) (first n : Nat) (nrv : γ) :
    Conversion γ :=
  ((List.range' first n).map (Row.ofResult res)).foldlM (putRow c t) nrv

variable {res : ResultSet} {c : RowContainer (ResultValue α) γ} {t : ResultType α} {first n m : Nat} {nrv : γ}

theorem part_rows_length (h : first + n ≤ res.rows.length) : (res.part first n).rows.length = n := by
  rw [part, List.length_take, List.length_drop]
  omega

theorem asContainer_eq_insertRows (hcols : res.columns ≠ 0) :
    res.asContainer c t = res.insertRows c t 0 res.rows.length c.empty := by
  rw [asContainer_eq hcols, insertRows, List.range_eq_range']
  rfl

/-- The rows of two parts, one behind the other. -/
theorem insertRows_add :
    res.insertRows c t first (n + m) nrv =
      (res.insertRows c t first n nrv >>= fun nrv => res.insertRows c t (first + n) m nrv) := by
  rw [insertRows, ← List.range'_append_1, List.map_append, List.foldlM_append]
  rfl

/-- A row of a part has the cells of the row of the whole. -/
theorem part_cells {i : Nat} (hi : i < n) :
    (Row.ofResult (res.part first n) i).cells = (Row.ofResult res (first + i)).cells := by
  have hrow : (res.part first n).rows.getD i [] = res.rows.getD (first + i) [] := by
    rw [part, List.getD_eq_getElem?_getD, List.getD_eq_getElem?_getD, List.getElem?_take_of_lt hi, List.getElem?_drop]
  exact congrArg (fun x => (x.drop 0).take res.columns) hrow

/-- The loop over a part of the rows does what a loop over these rows of the whole does. -/
theorem appendTo_part (hread : t.readable = true) (h : first + n ≤ res.rows.length) (nrv : γ) :
    ((res.part first n).appendTo c t nrv).Agree (res.insertRows c t first n nrv) := by
  have hlength := part_rows_length h
  have hloop : ∀ k ≤ n, ∀ nrv,
      (((List.range' (n - k) k).map (Row.ofResult (res.part first n))).foldlM (putRow c t) nrv).Agree
        (res.insertRows c t (first + (n - k)) k nrv) := by
    intro k hk
    induction k with
    | zero => exact fun nrv => .of_pure nrv
    | succ k ih =>
      intro nrv
      have hi : n - (k + 1) < n := by omega
      have hnext : n - (k + 1) + 1 = n - k := by omega
      have hrow : ((Row.ofResult (res.part first n) (n - (k + 1))).as t).Agree
          ((Row.ofResult res (first + (n - (k + 1)))).as t) :=
        Row.Valid.agree (.ofResult (by omega)) (.ofResult (by omega)) hread (part_cells hi)
      rw [insertRows, List.range'_succ, List.range'_succ, List.map_cons, List.map_cons, List.foldlM_cons,
        List.foldlM_cons, Nat.add_assoc, hnext]
      exact (hrow.bind fun v => .of_pure _).bind (ih (by omega))
  have hall := hloop n (le_refl n) nrv
  rw [Nat.sub_self, Nat.add_zero] at hall
  rwa [appendTo, iterate_rows _ (Nat.lt_succ_self _), hlength, List.range_eq_range']

/-- The loop over all rows returns or throws. -/
theorem insertRows_cases (hread : t.readable = true) (h : first + n ≤ res.rows.length) (nrv : γ) :
    (∃ x, res.insertRows c t first n nrv = pure x) ∨ ∃ e, res.insertRows c t first n nrv = throw e := by
  rcases appendTo_part (c := c) hread h nrv with ⟨x, -, hx⟩ | ⟨-, e, -, he⟩
  · exact .inl ⟨x, hx⟩
  · exact .inr ⟨e, he⟩

end ResultSet

/-! ### The programs -/

section Programs

variable {DB α γ : Type} (W : World) (o : Addr) (res : ResultSet) (c : RowContainer (ResultValue α) γ)
  (t : ResultType α) (raise : ReadError → Exn)

/-- A conversion that is made in a program. -/
def convertOr (raise : ReadError → Exn) (x : Conversion γ) : Prog DB γ :=
  match x.run with
  | none => Exec.undefined
  | some (.error e) => Exec.throw (raise e)
  | some (.ok v) => return v

/-- The program executes a query with these rows, and makes a container of the result. -/
def readAtOnce (u : Statement DB) : Prog DB γ := do
  let r ← execute W o (.user u)
  convertOr raise ((res.part 0 r.ntuples).asContainer c t)

/-- The loop over the results of the query, up to one that is empty, with a bound on its rounds.  The rows up to `first`
have been read. -/
def portionLoop : Nat → Nat → γ → Prog DB γ
  | 0, _, _ => Exec.undefined
  | fuel + 1, first, nrv => do
    let r ← getResult W o
    if r.ntuples = 0 then return nrv
    else
      let nrv ← convertOr raise ((res.part first r.ntuples).appendTo c t nrv)
      portionLoop fuel (first + r.ntuples) nrv

/-- The program sends the query, asks for portions, and puts their rows into a container. -/
def readInPortions (m : RowsMode) (u : Statement DB) : Prog DB γ := do
  send W o (.user u)
  m.set o
  portionLoop W o res c t raise (res.rows.length + 1) 0 c.empty

end Programs

/-! ### The portions -/

namespace RowsMode

variable {m : RowsMode} {n columns : Nat}

theorem sum_sizes : (m.sizes n).sum = n := by
  cases m with
  | single => simp [sizes]
  | chunk rows =>
    have hsum : n / rows.toNat * rows.toNat + n % rows.toNat = n := Nat.div_add_mod' _ _
    rw [sizes, List.sum_append, List.sum_replicate_nat]
    split
    · rw [List.sum_nil]
      omega
    · rw [List.sum_singleton]
      exact hsum

theorem sizes_pos (hm : m.Positive) {k : Nat} (hk : k ∈ m.sizes n) : 0 < k := by
  cases m with
  | single =>
    obtain ⟨-, rfl⟩ := List.mem_replicate.1 hk
    exact Nat.one_pos
  | chunk rows =>
    have hrows : 0 < rows.toNat := Int.lt_toNat.2 hm
    rcases List.mem_append.1 hk with hk | hk
    · obtain ⟨-, rfl⟩ := List.mem_replicate.1 hk
      exact hrows
    · split at hk
      · cases hk
      · obtain rfl := List.mem_singleton.1 hk
        omega

theorem portion_ntuples : (portion columns m n).ntuples = n := by
  cases m <;> rfl

end RowsMode

/-! ### Steps -/

/-- The current transaction may talk to the server, outside pipeline mode. -/
structure State.Talks {DB : Type} (s : State DB) (o : Addr) : Prop where
  object : ∃ x, s.object o = some x ∧ x.connected = true
  current : s.current = some o
  isOpen : s.conn.pg.isOpen = true
  pipeline : s.conn.pg.pipeline = false

/-- The state is as before, apart from the session and what is to be read, and for the time and the record of calls. -/
def State.Offers {DB : Type} (s : State DB) (σ : Session DB) (items : List (Item DB)) (s' : State DB) : Prop :=
  ∃ n calls, s' = { s with
    conn := { s.conn with pg := { s.conn.pg with session := σ, stream := items, clock := n }, calls := calls } }

section Steps

open Exec

variable {DB : Type} {W : World} {s s' s'' : State DB} {o : Addr} {σ : Session DB} {items rest : List (Item DB)}

theorem State.ReadsTo.offers (h : s.ReadsTo items s') : s.Offers s.conn.pg.session items s' := by
  obtain ⟨c, rfl, n, calls, rfl⟩ := h
  exact ⟨n, calls, rfl⟩

theorem State.ReadsTo.trans (h : s.ReadsTo items s') (h' : s'.ReadsTo rest s'') : s.ReadsTo rest s'' := by
  obtain ⟨c, rfl, hc⟩ := h
  obtain ⟨c', rfl, hc'⟩ := h'
  exact ⟨c', rfl, hc.trans hc'⟩

theorem State.Offers.reads (h : s.Offers σ items s') (hs : s'.ReadsTo rest s'') : s.Offers σ rest s'' := by
  obtain ⟨n, calls, rfl⟩ := h
  obtain ⟨c, rfl, n', calls', rfl⟩ := hs
  exact ⟨n', calls', rfl⟩

/-- When nothing is left to read, only the session is not as before. -/
theorem State.Offers.turns (h : s.Offers σ [] s') (hs : s.conn.pg.stream = []) : s.Turns σ s' := by
  obtain ⟨n, calls, rfl⟩ := h
  exact ⟨n, calls, by simp only [hs]⟩

theorem State.Talks.of_offers (h : s.Talks o) (hs : s.Offers σ items s') :
    s'.Talks o ∧ s'.conn.pg.stream = items := by
  obtain ⟨n, calls, rfl⟩ := hs
  exact ⟨⟨h.object, h.current, h.isOpen, h.pipeline⟩, rfl⟩

/-- The order check passes. -/
theorem State.Talks.wp_check (h : s.Talks o) {β : Type} {f : Unit → Prog DB β} {Q : β → State DB → Prop}
    {E : Exn → State DB → Prop} (hf : wp False (f ()) Q E s) :
    wp False (checkCurrentTransaction o >>= f) Q E s := by
  obtain ⟨x, hx, hc⟩ := h.object
  rw [wp_bind]
  exact (wp_check_current hx hc h.current).2 hf

/-- A query is sent. -/
theorem wp_send_offers (h : s.Talks o) (hs : s.conn.pg.stream = []) {u : Statement DB} (hu : u.body.isCopy = false) :
    wp False (send W o (.user u)) (fun _ s' => s.Offers (s.answer u).1 [.result (s.answer u).2, .null] s')
      (fun _ _ => False) s := by
  have hrun : s.conn.pg.run W (s.conn.prepared.contains u.text) (.user u) =
      ({ s.conn.pg with session := (s.answer u).1 }, [.result (s.answer u).2, .null]) := PGconn.run_user _ _ hu
  have hsend : s.conn.pg.send W (s.conn.prepared.contains u.text) (.user u) =
      ({ s.conn.pg with session := (s.answer u).1, stream := [.result (s.answer u).2, .null] }, true) := by
    unfold PGconn.send
    rw [hrun]
    simp [h.isOpen, h.pipeline, hs]
  refine h.wp_check ?_
  rw [wp_onConnection]
  simp only [Connection.sendParams, wp_bind, wp_get]
  refine Connection.wp_libpqOr_true (congrArg Prod.snd hsend) ?_
  simp only [Command.text, hsend]
  exact ⟨s.conn.pg.clock, _, rfl⟩

/-- A portion is read. -/
theorem wp_getResult_portion (h : s.Talks o) {r : PGresult} (hr : r.isPartial = true)
    (hs : s.conn.pg.stream = .result r :: rest) :
    wp False (getResult W o) (fun v s' => v = r ∧ s.ReadsTo rest s') (fun _ _ => ¬ W.Reliable) s := by
  refine h.wp_check ?_
  rw [wp_onConnection]
  exact wp_mono (Connection.wp_fetchResult_part h.isOpen hr hs) (fun v c hv => ⟨hv.1, c, rfl, hv.2⟩) (fun _ _ => id)

/-- The last result of the query is read. -/
theorem wp_getResult_last (h : s.Talks o) {r : PGresult} (hr : r.isFinal = true)
    (hs : s.conn.pg.stream = [.result r, .null]) :
    wp False (getResult W o) (fun v s' => r.outcome = .ok v ∧ s.ReadsTo [] s')
      (fun e s' => ¬ W.Reliable ∨ r.outcome = .error e ∧ s.ReadsTo [] s') s := by
  refine h.wp_check ?_
  rw [wp_onConnection]
  refine wp_mono (Connection.wp_fetchResult_final h.isOpen ⟨[], r, by simp, .inl hr⟩ hs)
    (fun v c hv => ⟨hv.1, c, rfl, hv.2.2⟩) fun e c he => ?_
  exact he.imp_right fun he => ⟨he.1, c, rfl, he.2⟩

end Steps

/-! ### The loop -/

section Loop

open Exec (wp wp_bind wp_pure wp_throw wp_mono)

variable {DB α γ : Type} {W : World} {s : State DB} {o : Addr} {res : ResultSet}
  {c : RowContainer (ResultValue α) γ} {t : ResultType α} (raise : ReadError → Exn)

@[simp] theorem convertOr_pure (v : γ) : (convertOr raise (pure v) : Prog DB γ) = pure v := rfl

@[simp] theorem convertOr_throw (e : ReadError) :
    (convertOr raise (throw e : Conversion γ) : Prog DB γ) = Exec.throw (raise e) := rfl

/-- The loop goes through the portions that are left.  When it ends, everything has been read; a row that can not be
read leaves the results behind it unread. -/
theorem wp_portionLoop (hread : t.readable = true) {m : RowsMode} {last : PGresult} (hlast : last.status = .tuplesOk)
    (hempty : last.ntuples = 0) {sizes : List Nat} (hpos : ∀ k ∈ sizes, 0 < k) {first fuel : Nat}
    (hfuel : sizes.length < fuel) (hsum : first + sizes.sum = res.rows.length) (nrv : γ) (h : s.Talks o)
    (hs : s.conn.pg.stream =
      sizes.map (fun n => .result (m.portion last.nfields n)) ++ [.result last, .null]) :
    wp False (portionLoop W o res c t raise fuel first nrv)
      (fun x s' => res.insertRows c t first sizes.sum nrv = pure x ∧ s.ReadsTo [] s')
      (fun _ s' => ¬ W.Reliable ∨ ∃ e items, res.insertRows c t first sizes.sum nrv = throw e ∧ items ≠ [] ∧
        s.ReadsTo items s') s := by
  induction sizes generalizing s first fuel nrv with
  | nil =>
    obtain ⟨fuel, rfl⟩ := Nat.exists_eq_succ_of_ne_zero (Nat.ne_zero_of_lt hfuel)
    have hok : last.outcome = .ok last := by simp [PGresult.outcome, hlast]
    rw [portionLoop, wp_bind]
    refine wp_mono (wp_getResult_last h (by simp [PGresult.isFinal, hlast]) hs) (fun r s' hr => ?_) fun e s' he => ?_
    · obtain ⟨hr, hs'⟩ := hr
      rw [hok] at hr
      obtain rfl := Except.ok.inj hr
      rw [if_pos hempty]
      exact ⟨rfl, hs'⟩
    · rcases he with hw | ⟨he, -⟩
      · exact .inl hw
      · rw [hok] at he
        cases he
  | cons k sizes ih =>
    obtain ⟨fuel, rfl⟩ := Nat.exists_eq_succ_of_ne_zero (Nat.ne_zero_of_lt hfuel)
    obtain ⟨hk, hpos⟩ := List.forall_mem_cons.1 hpos
    rw [List.length_cons] at hfuel
    rw [List.sum_cons] at hsum
    rw [portionLoop, wp_bind]
    refine wp_mono (wp_getResult_portion h RowsMode.portion_isPartial hs) (fun r s₁ hr => ?_) fun _ _ => .inl
    obtain ⟨rfl, hs₁⟩ := hr
    obtain ⟨h₁, hstream⟩ := h.of_offers hs₁.offers
    rw [RowsMode.portion_ntuples, if_neg (Nat.ne_of_gt hk), wp_bind, List.sum_cons, ResultSet.insertRows_add]
    rcases ResultSet.appendTo_part (c := c) hread (show first + k ≤ res.rows.length by omega) nrv with
      ⟨v, hpart, hrows⟩ | ⟨e', e, hpart, hrows⟩
    · rw [hpart, hrows, convertOr_pure, wp_pure, pure_bind]
      refine wp_mono (ih hpos (Nat.lt_of_succ_lt_succ hfuel) (by omega) v h₁ hstream) (fun x s' hx => ?_)
        fun _ s' he => ?_
      · exact ⟨hx.1, hs₁.trans hx.2⟩
      · rcases he with hw | ⟨e, items, he, hitems, hs'⟩
        · exact .inl hw
        · exact .inr ⟨e, items, he, hitems, hs₁.trans hs'⟩
    · rw [hpart, hrows, convertOr_throw, wp_throw]
      exact .inr ⟨e, _, rfl, by simp, hs₁⟩

/-- When the server reports an error behind some portions, the loop does not return. -/
theorem wp_portionLoop_error {m : RowsMode} {sizes : List Nat} (hpos : ∀ k ∈ sizes, 0 < k) {columns : Nat}
    (first fuel : Nat) (nrv : γ) (h : s.Talks o)
    (hs : s.conn.pg.stream = sizes.map (fun n => .result (m.portion columns n)) ++ [.result .fatal, .null]) :
    wp True (portionLoop W o res c t raise fuel first nrv) (fun _ _ => False) (fun _ _ => True) s := by
  induction sizes generalizing s first fuel nrv with
  | nil =>
    cases fuel with
    | zero => exact trivial
    | succ fuel =>
      rw [portionLoop, wp_bind]
      refine Exec.wp_weaken (wp_mono (wp_getResult_last h (r := .fatal) rfl hs) (fun r s' hr => ?_)
        fun _ _ _ => trivial)
      cases hr.1
  | cons k sizes ih =>
    cases fuel with
    | zero => exact trivial
    | succ fuel =>
      obtain ⟨hk, hpos⟩ := List.forall_mem_cons.1 hpos
      rw [portionLoop, wp_bind]
      refine wp_mono (Exec.wp_weaken (wp_getResult_portion h RowsMode.portion_isPartial hs)) (fun r s₁ hr => ?_)
        fun _ _ _ => trivial
      obtain ⟨rfl, hs₁⟩ := hr
      obtain ⟨h₁, hstream⟩ := h.of_offers hs₁.offers
      rw [RowsMode.portion_ntuples, if_neg (Nat.ne_of_gt hk), wp_bind]
      rcases ((res.part first k).appendTo c t nrv).cases with hx | ⟨e, hx⟩ | ⟨v, hx⟩
      · rw [hx]
        exact trivial
      · rw [hx, convertOr_throw, wp_throw]
        exact trivial
      · rw [hx, convertOr_pure, wp_pure]
        exact ih hpos _ fuel v h₁ hstream

/-! ### The theorem -/

/-- What the server answers to a query: an error, or all its rows. -/
theorem answer_query {u : Statement DB} {effect : DB → Option DB} {columns rows : Nat}
    (hu : u.body = .query effect columns rows) :
    (s.answer u).2 = .fatal ∨ (s.answer u).2 = ⟨.tuplesOk, .other, columns, rows, some rows⟩ := by
  have hrun : ∀ ok : PGresult, (s.conn.pg.session.run effect ok).2 = .fatal ∨
      (s.conn.pg.session.run effect ok).2 = ok := by
    intro ok
    unfold Session.run
    repeat' split
    all_goals simp
  unfold State.answer Session.answer
  split
  · exact .inl rfl
  · rw [hu]
    exact hrun _

variable {u : Statement DB} {effect : DB → Option DB} (h : s.Talks o) (hstream : s.conn.pg.stream = [])
  (hcols : res.columns ≠ 0) (hread : t.readable = true) (hu : u.body = .query effect res.columns res.rows.length)

include h hstream hcols hread hu

theorem wp_readInPortions {m : RowsMode} (hm : m.Positive) :
    wp False (readInPortions W o res c t raise m u)
      (fun x s' => (s.answer u).2 ≠ .fatal ∧ res.asContainer c t = pure x ∧ s.Turns (s.answer u).1 s')
      (fun e s' => ¬ W.Reliable ∨ (s.answer u).2 = .fatal ∧ e = .sqlError .fatal ∧ s.Turns (s.answer u).1 s' ∨
        (s.answer u).2 ≠ .fatal ∧ ∃ e' items, res.asContainer c t = throw e' ∧ items ≠ [] ∧
          s.Offers (s.answer u).1 items s') s := by
  rw [readInPortions, wp_bind]
  refine wp_mono (wp_send_offers h hstream (by rw [hu]; rfl)) (fun _ s₁ h₁ => ?_) fun _ _ => False.elim
  obtain ⟨ht₁, hs₁⟩ := h.of_offers h₁
  rw [wp_bind]
  obtain ⟨x, hx, hc⟩ := ht₁.object
  refine wp_mono (RowsMode.wp_set hx hc ht₁.current ht₁.isOpen hm hs₁) (fun _ s₂ h₂ => ?_) fun _ _ => False.elim
  obtain ⟨ht₂, hs₂⟩ := ht₁.of_offers h₂.offers
  have hoffers := h₁.reads h₂
  rcases answer_query (s := s) hu with hanswer | hanswer
  · -- an error is the first result
    rw [hanswer] at hs₂
    rw [portionLoop, wp_bind]
    refine wp_mono (wp_getResult_last ht₂ (r := .fatal) rfl hs₂) (fun r s' hr => ?_) fun e s' he => ?_
    · cases hr.1
    · rcases he with hw | ⟨he, hs'⟩
      · exact .inl hw
      · exact .inr (.inl ⟨hanswer, (Except.error.inj he).symm, (hoffers.reads hs').turns hstream⟩)
  · have hne : (s.answer u).2 ≠ .fatal := by
      rw [hanswer]
      simp [PGresult.fatal, PGresult.plain]
    have hsum : (m.sizes res.rows.length).sum = res.rows.length := RowsMode.sum_sizes
    have hpos : ∀ k ∈ m.sizes res.rows.length, 0 < k := fun k => RowsMode.sizes_pos hm
    have hlength := List.length_le_sum_of_one_le _ hpos
    rw [hanswer] at hs₂
    rw [hsum] at hlength
    have hlast : (⟨.tuplesOk, .other, res.columns, 0, some res.rows.length⟩ : PGresult).status = .tuplesOk := rfl
    have hloop := wp_portionLoop (c := c) (W := W) raise hread hlast rfl hpos (Nat.lt_succ_of_le hlength)
      (by rw [hsum, Nat.zero_add]) c.empty ht₂ hs₂
    rw [hsum, ← ResultSet.asContainer_eq_insertRows hcols] at hloop
    refine wp_mono hloop (fun x s' hx => ?_) fun e s' he => ?_
    · exact ⟨hne, hx.1, (hoffers.reads hx.2).turns hstream⟩
    · rcases he with hw | ⟨e', items, he', hitems, hs'⟩
      · exact .inl hw
      · exact .inr (.inr ⟨hne, e', items, he', hitems, hoffers.reads hs'⟩)

theorem wp_readAtOnce :
    wp False (readAtOnce W o res c t raise u)
      (fun x s' => (s.answer u).2 ≠ .fatal ∧ res.asContainer c t = pure x ∧ s.Turns (s.answer u).1 s')
      (fun e s' => ¬ W.Reliable ∨ s.Turns (s.answer u).1 s' ∧ ((s.answer u).2 = .fatal ∧ e = .sqlError .fatal ∨
        (s.answer u).2 ≠ .fatal ∧ ∃ e', res.asContainer c t = throw e')) s := by
  rw [readAtOnce, execute, wp_bind, wp_bind]
  refine wp_mono (wp_send_offers h hstream (by rw [hu]; rfl)) (fun _ s₁ h₁ => ?_) fun _ _ => False.elim
  obtain ⟨ht₁, hs₁⟩ := h.of_offers h₁
  rcases answer_query (s := s) hu with hanswer | hanswer
  · rw [hanswer] at hs₁
    refine wp_mono (wp_getResult_last ht₁ (r := .fatal) rfl hs₁) (fun r s' hr => ?_) fun e s' he => ?_
    · cases hr.1
    · rcases he with hw | ⟨he, hs'⟩
      · exact .inl hw
      · exact .inr ⟨(h₁.reads hs').turns hstream, .inl ⟨hanswer, (Except.error.inj he).symm⟩⟩
  · have hne : (s.answer u).2 ≠ .fatal := by
      rw [hanswer]
      simp [PGresult.fatal, PGresult.plain]
    rw [hanswer] at hs₁
    refine wp_mono (wp_getResult_last ht₁ rfl hs₁) (fun r s' hr => ?_) fun e s' he => ?_
    · obtain ⟨hr, hs'⟩ := hr
      obtain rfl := Except.ok.inj hr
      have hturns := (h₁.reads hs').turns hstream
      have hall : res.part 0 res.rows.length = res := by
        simp [ResultSet.part]
      rw [hall]
      have hle : 0 + res.rows.length ≤ res.rows.length := by omega
      rcases ResultSet.insertRows_cases (c := c) hread hle c.empty with ⟨x, hx⟩ | ⟨e, he⟩
      · rw [← ResultSet.asContainer_eq_insertRows hcols] at hx
        rw [hx, convertOr_pure, wp_pure]
        exact ⟨hne, rfl, hturns⟩
      · rw [← ResultSet.asContainer_eq_insertRows hcols] at he
        rw [he, convertOr_throw, wp_throw]
        exact .inr ⟨hturns, .inr ⟨hne, e, rfl⟩⟩
    · rcases he with hw | ⟨he, -⟩
      · exact .inl hw
      · cases he

/-- The loop over portions never ends with a part of the rows, whatever happens on the way, and also when the server
reports an error behind some portions.  If the answers arrive, it makes the container that is made of the whole result,
and leaves everything as `execute` does, or both throw: the error of the server, or, when a row can not be read, its
exception.  In the latter case the results behind this row are left unread, and no statement is accepted. -/
theorem rows_in_portions {m : RowsMode} (hm : m.Positive) :
    (∀ x s', readInPortions W o res c t raise m u s = .ret x s' →
      res.asContainer c t = pure x ∧ s.Turns (s.answer u).1 s') ∧
    (∀ (s₁ : State DB) (sizes : List Nat) first fuel nrv, s₁.Talks o → (∀ k ∈ sizes, 0 < k) →
      s₁.conn.pg.stream = sizes.map (fun n => .result (m.portion res.columns n)) ++ [.result .fatal, .null] →
      ∀ x s', portionLoop W o res c t raise fuel first nrv s₁ ≠ .ret x s') ∧
    (W.Reliable →
      (∃ x s' s'', readAtOnce W o res c t raise u s = .ret x s' ∧
        readInPortions W o res c t raise m u s = .ret x s'' ∧ s.Turns (s.answer u).1 s' ∧ s.Turns (s.answer u).1 s'') ∨
      ∃ e e' s' s'', readAtOnce W o res c t raise u s = .throw e s' ∧
        readInPortions W o res c t raise m u s = .throw e' s'' ∧ s.Turns (s.answer u).1 s' ∧
        (e' = e ∧ s.Turns (s.answer u).1 s'' ∨
          (∃ items, items ≠ [] ∧ s.Offers (s.answer u).1 items s'') ∧
            ∀ cmd, ∃ e₁ s₁, send W o cmd s'' = .throw e₁ s₁ ∧ s₁.conn.pg = s''.conn.pg)) := by
  have hportions := wp_readInPortions (W := W) (c := c) raise h hstream hcols hread hu hm
  have honce := wp_readAtOnce (W := W) (c := c) raise h hstream hcols hread hu
  refine ⟨fun x s' hx => ?_, fun s₁ sizes first fuel nrv h₁ hpos hs₁ x s' hx => ?_, fun hW => ?_⟩
  · rw [wp, hx] at hportions
    exact hportions.2
  · have herror : wp True (portionLoop W o res c t raise fuel first nrv) (fun _ _ => False) (fun _ _ => True) s₁ :=
      wp_portionLoop_error raise hpos first fuel nrv h₁ hs₁
    rwa [wp, hx] at herror
  rcases Exec.ret_or_throw hportions with ⟨x, s'', hx, hne, hcontainer, hs''⟩ | ⟨e', s'', he', hcases⟩
  · rcases Exec.ret_or_throw honce with
      ⟨y, s', hy, -, hcontainer', hs'⟩ | ⟨e, s', -, hw | ⟨-, ⟨hfatal, -⟩ | ⟨-, e', hthrow⟩⟩⟩
    · rw [hcontainer] at hcontainer'
      obtain rfl := Except.ok.inj (Option.some.inj hcontainer')
      exact .inl ⟨x, s', s'', hy, hx, hs', hs''⟩
    · exact absurd hW hw
    · exact absurd hfatal hne
    · cases hcontainer.symm.trans hthrow
  · refine .inr ?_
    rcases hcases with hw | ⟨hfatal, rfl, hs''⟩ | ⟨hne, e₁, items, hthrow, hitems, hs''⟩
    · exact absurd hW hw
    · rcases Exec.ret_or_throw honce with ⟨y, s', -, hne, -⟩ | ⟨e, s', he, hw | ⟨hs', ⟨-, rfl⟩ | ⟨hne, -⟩⟩⟩
      · exact absurd hfatal hne
      · exact absurd hW hw
      · exact ⟨_, _, s', s'', he, he', hs', .inl ⟨rfl, hs''⟩⟩
      · exact absurd hfatal hne
    · obtain ⟨ht'', hstream''⟩ := h.of_offers hs''
      have hrefused (cmd : Command DB) : ∃ e₁ s₁, send W o cmd s'' = .throw e₁ s₁ ∧ s₁.conn.pg = s''.conn.pg := by
        have hsend : wp False (send W o cmd) (fun _ _ => False) (fun _ s₁ => s₁.conn.pg = s''.conn.pg) s'' := by
          refine ht''.wp_check ?_
          rw [wp_onConnection]
          exact Connection.wp_sendParams_refused cmd (.inr ⟨ht''.pipeline, by rwa [hstream'']⟩) fun _ _ => rfl
        exact Exec.exists_throw hsend
      rcases Exec.ret_or_throw honce with ⟨y, s', -, -, hcontainer, -⟩ | ⟨e, s', he, hw | ⟨hs', -⟩⟩
      · cases hcontainer.symm.trans hthrow
      · exact absurd hW hw
      · exact ⟨e, e', s', s'', he, he', hs', .inr ⟨⟨items, hitems, hs''⟩, hrefused⟩⟩

omit h hstream hcols hread hu in
/-- Three rows in chunks of two. -/
theorem rows_in_portions_chunks :
    let res : ResultSet := ⟨[[some (ascii "1")], [some (ascii "2")], [some (ascii "3")]], 1, by decide⟩
    let u : Statement Nat := ⟨"SELECT n FROM t", .query some 1 3⟩
    ∃ s', readInPortions .calm 0 res .vector (.leaf intResult) (fun _ => .runtimeError "") (.chunk 2) u
      (State.inTransaction 0) = .ret [.leaf 1, .leaf 2, .leaf 3] s' := by
  intro res u
  have htalks : (State.inTransaction 0).Talks 0 := ⟨⟨_, rfl, rfl⟩, rfl, rfl, rfl⟩
  have hcols : res.columns ≠ 0 := by decide
  have hbody : u.body = .query some res.columns res.rows.length := rfl
  have hchunk : (RowsMode.chunk 2).Positive := show (0 : Int) < 2 by decide
  obtain ⟨-, -, hall⟩ := rows_in_portions (W := .calm) (c := .vector) (t := .leaf intResult)
    (fun _ => .runtimeError "") htalks rfl hcols rfl hbody hchunk
  have honce : ∃ s', readAtOnce .calm 0 res .vector (.leaf intResult) (fun _ => .runtimeError "") u
      (State.inTransaction 0) = .ret [.leaf 1, .leaf 2, .leaf 3] s' := ⟨_, rfl⟩
  obtain ⟨s₀, hs₀⟩ := honce
  rcases hall World.calm_reliable with ⟨x, s', s'', hx, hx', -⟩ | ⟨e, e', s', s'', he, -⟩
  · obtain ⟨rfl, -⟩ := Outcome.ret.inj (hs₀.symm.trans hx)
    exact ⟨s'', hx'⟩
  · cases hs₀.symm.trans he

end Loop

end TaoPQ
