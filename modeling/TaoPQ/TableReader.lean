import TaoPQ.ArrayResults
import TaoPQ.PgCopy

/-!
# Rows read by a table reader

`table_reader::parse_data` decodes a line in the receive buffer itself: three positions move through it, and what has
been decoded is moved to the front of what remains to be read.  The line that the server makes of a row is decoded
into this row, and the strings of all its fields are still in place at the end (`parse_data_row`).
-/

namespace TaoPQ

open Byte Exec

/-- `m_buffer`, with the byte `0` that libpq puts behind the data, `m_data`, with pointers as positions in the buffer,
and `m_columns`. -/
structure RowData where
  buffer : Option Bytes
  data : List (Option Nat)
  columns : Nat

namespace TableReader

variable {ε : Type}

/-! ### Access to the buffer -/

/-- The buffer, which is not null where it is used. -/
def getBuffer : Exec RowData ε Bytes := fun d =>
  match d.buffer with
  | some m => .ret m d
  | none => .undefined

/-- `*p` -/
def load (p : Nat) : Exec RowData ε UInt8 := do
  let m ← getBuffer
  match m[p]? with
  | some b => return b
  | none => Exec.undefined

/-- `*p = b` -/
def store (p : Nat) (b : UInt8) : Exec RowData ε Unit := do
  let m ← getBuffer
  if p < m.length then Exec.modify fun d => { d with buffer := some (m.set p b) }
  else Exec.undefined

/-- `std::memmove( target, source, n )` -/
def memmove (target source n : Nat) : Exec RowData ε Unit := do
  let m ← getBuffer
  if source + n ≤ m.length ∧ target + n ≤ m.length then
    Exec.modify fun d => { d with buffer := some (m.take target ++ (m.drop source).take n ++ m.drop (target + n)) }
  else Exec.undefined

/-- `std::strpbrk( p, set )`, as a position. -/
def search (p : Nat) (set : Bytes) : Exec RowData ε (Option Nat) := do
  let m ← getBuffer
  match strpbrk set (m.drop p) with
  | some r => return r.map (p + ·)
  | none => Exec.undefined

/-- `m_data.emplace_back( p )` -/
def emplaceBack (p : Option Nat) : Exec RowData ε Unit := Exec.modify fun d => { d with data := d.data ++ [p] }

/-! ### The decoder -/

/-- `assert` -/
def assert (P : Prop) [Decidable P] : Exec RowData ε Unit := if P then Exec.pure () else Exec.undefined

/-- The letters behind a backslash. -/
def escapedByte (c : UInt8) : Option UInt8 :=
  if c = 98 then some backspace
  else if c = 102 then some formFeed
  else if c = 110 then some newline
  else if c = 114 then some carriageReturn
  else if c = 116 then some tab
  else if c = 118 then some verticalTab
  else if c = backslash then some backslash
  else none

/-- The `switch` in the loop of `parse_data`, which goes on with the loop. -/
def parseSwitch (loop : (read write begin : Nat) → Exec RowData ε Bool) (pos write begin : Nat) :
    Exec RowData ε Bool := do
  match ← load pos with
  | tab =>
    emplaceBack (some begin)
    store write nul
    loop (pos + 1) (pos + 1) (pos + 1)
  | backslash =>
    let c ← load (pos + 1)
    if c = 78 then do
      assert (write = begin)
      emplaceBack none
      match ← load (pos + 2) with
      | tab => loop (pos + 3) (pos + 3) (pos + 3)
      | newline => return true
      | _ => Exec.undefined
    else
      match escapedByte c with
      | some b =>
        store write b
        loop (pos + 2) (write + 1) begin
      | none => Exec.undefined
  | newline =>
    emplaceBack (some begin)
    store write nul
    let d ← Exec.get
    assert (d.data.length = d.columns)
    return true
  | _ => Exec.undefined

/-- The loop of `parse_data`. -/
def parseDataLoop : (fuel read write begin : Nat) → Exec RowData ε Bool
  | 0, _, _, _ => Exec.undefined
  | fuel + 1, read, write, begin => do
    match ← search read [tab, backslash, newline] with
    | none => Exec.undefined
    | some pos =>
      memmove write read (pos - read)
      parseSwitch (parseDataLoop fuel) pos (write + (pos - read)) begin

/-- `table_reader::parse_data` -/
def parseData : Exec RowData ε Bool := do
  Exec.modify fun d => { d with data := [] }
  let d ← Exec.get
  match d.buffer with
  | none => return false
  | some m => parseDataLoop m.length 0 0 0

/-! ### One round of the loop

The buffer is taken apart into what has been decoded, what has been read since and can be overwritten, and what
remains to be read.  Positions are the lengths of these parts. -/

section Access

variable (s m : Bytes) (b c : UInt8) (ps : List (Option Nat)) (cols : Nat)

private theorem load_append {p : Nat} (hp : p = s.length) :
    (load p : Exec RowData ε UInt8) ⟨some (s ++ b :: m), ps, cols⟩ = .ret b ⟨some (s ++ b :: m), ps, cols⟩ := by
  subst hp
  show (match (s ++ b :: m)[s.length]? with
    | some b => (return b : Exec RowData ε UInt8)
    | none => Exec.undefined) _ = _
  rw [List.getElem?_append_right (le_refl _), Nat.sub_self]
  rfl

private theorem store_append {p : Nat} (hp : p = s.length) :
    (store p b : Exec RowData ε Unit) ⟨some (s ++ c :: m), ps, cols⟩ = .ret () ⟨some (s ++ b :: m), ps, cols⟩ := by
  subst hp
  have hlt : s.length < (s ++ c :: m).length := by simp
  show (if s.length < (s ++ c :: m).length then _ else _ : Exec RowData ε Unit) _ = _
  rw [if_pos hlt, List.set_append_right _ _ (le_refl _), Nat.sub_self]
  rfl

end Access

private theorem assert_ret {P : Prop} [Decidable P] (h : P) (d : RowData) :
    (assert P : Exec RowData ε Unit) d = .ret () d := by
  rw [assert, if_pos h]
  rfl

/-- What stands before the next special character is moved to the front. -/
private theorem memmove_append (front gap before rest : Bytes) (ps : List (Option Nat)) (cols : Nat) :
    (memmove front.length (front.length + gap.length) before.length : Exec RowData ε Unit)
        ⟨some (front ++ (gap ++ (before ++ rest))), ps, cols⟩ =
      .ret () ⟨some (front ++ (before ++ ((gap ++ before).drop before.length ++ rest))), ps, cols⟩ := by
  have hbounds : front.length + gap.length + before.length ≤ (front ++ (gap ++ (before ++ rest))).length ∧
      front.length + before.length ≤ (front ++ (gap ++ (before ++ rest))).length := by
    simp only [List.length_append]
    omega
  have hsource : (front ++ (gap ++ (before ++ rest))).drop (front.length + gap.length) = before ++ rest := by
    rw [← List.drop_drop, List.drop_left, List.drop_left]
  have hbehind : (front ++ (gap ++ (before ++ rest))).drop (front.length + before.length) =
      (gap ++ before).drop before.length ++ rest := by
    rw [← List.drop_drop, List.drop_left, ← List.append_assoc, List.drop_append_of_le_length (by simp)]
  show (if _ ∧ _ then _ else _ : Exec RowData ε Unit) _ = _
  rw [if_pos hbounds, hsource, hbehind, List.take_left, List.take_left, List.append_assoc]
  rfl

/-- The characters that the loop looks for. -/
def lineSpecial : Bytes := [tab, backslash, newline]

private theorem search_append (s : Bytes) {before : Bytes} (hbefore : ∀ b ∈ before, b ≠ nul ∧ b ∉ lineSpecial)
    {c : UInt8} (hc : c ∈ lineSpecial) (rest : Bytes) (ps : List (Option Nat)) (cols : Nat) :
    (search s.length lineSpecial : Exec RowData ε (Option Nat)) ⟨some (s ++ (before ++ c :: rest)), ps, cols⟩ =
      .ret (some (s.length + before.length)) ⟨some (s ++ (before ++ c :: rest)), ps, cols⟩ := by
  have hnul : c ≠ nul := by
    rintro rfl
    exact absurd hc (by decide)
  show (match strpbrk lineSpecial ((s ++ (before ++ c :: rest)).drop s.length) with
    | some r => (return r.map (s.length + ·) : Exec RowData ε (Option Nat))
    | none => Exec.undefined) _ = _
  rw [List.drop_left, strpbrk_found hbefore hc hnul rest]
  rfl

/-- The loop up to its `switch`. -/
private theorem parseDataLoop_found (front gap : Bytes) {before : Bytes}
    (hbefore : ∀ b ∈ before, b ≠ nul ∧ b ∉ lineSpecial) {c : UInt8} (hc : c ∈ lineSpecial) (rest : Bytes)
    (ps : List (Option Nat)) (cols fuel begin : Nat) :
    ∃ gap', gap'.length = gap.length ∧
      (parseDataLoop (fuel + 1) (front.length + gap.length) front.length begin : Exec RowData ε Bool)
          ⟨some (front ++ (gap ++ (before ++ c :: rest))), ps, cols⟩ =
        parseSwitch (parseDataLoop fuel) ((front ++ before).length + gap'.length) (front ++ before).length begin
          ⟨some ((front ++ before) ++ (gap' ++ c :: rest)), ps, cols⟩ := by
  have hsearch := search_append (front ++ gap) (ε := ε) hbefore hc rest ps cols
  have hdistance : front.length + gap.length + before.length - (front.length + gap.length) = before.length := by omega
  have hlength : ((gap ++ before).drop before.length).length = gap.length := by simp
  have hpos : (front ++ before).length + ((gap ++ before).drop before.length).length =
      front.length + gap.length + before.length := by
    rw [hlength, List.length_append]
    omega
  rw [List.length_append, List.append_assoc] at hsearch
  refine ⟨(gap ++ before).drop before.length, hlength, ?_⟩
  rw [parseDataLoop]
  change (search (front.length + gap.length) lineSpecial >>= _) _ = _
  rw [bind_ret hsearch]
  simp only
  rw [hdistance, bind_ret (memmove_append front gap before (c :: rest) ps cols), hpos, List.length_append,
    List.append_assoc]

section Switch

variable (loop : (read write begin : Nat) → Exec RowData ε Bool) (front gap rest : Bytes) (ps : List (Option Nat))
  (cols begin : Nat)

/-- The byte `0` behind a field is written over what has been read. -/
private theorem store_terminator (c : UInt8) :
    ∃ m : Bytes, m.length = gap.length ∧
      (store front.length nul : Exec RowData ε Unit) ⟨some (front ++ (gap ++ c :: rest)), ps, cols⟩ =
        .ret () ⟨some ((front ++ nul :: m) ++ rest), ps, cols⟩ := by
  cases gap with
  | nil => exact ⟨[], rfl, by simpa using store_append front rest nul c ps cols rfl⟩
  | cons d gap => exact ⟨gap ++ [c], by simp, by simpa using store_append front (gap ++ c :: rest) nul d ps cols rfl⟩

private theorem load_found (c : UInt8) :
    (load (front.length + gap.length) : Exec RowData ε UInt8) ⟨some (front ++ (gap ++ c :: rest)), ps, cols⟩ =
      .ret c ⟨some (front ++ (gap ++ c :: rest)), ps, cols⟩ := by
  have h := load_append (ε := ε) (front ++ gap) rest c ps cols (p := front.length + gap.length) (by simp)
  rwa [List.append_assoc] at h

private theorem parseSwitch_tab :
    ∃ m : Bytes, m.length = gap.length ∧
      parseSwitch loop (front.length + gap.length) front.length begin
          ⟨some (front ++ (gap ++ tab :: rest)), ps, cols⟩ =
        loop (front ++ nul :: m).length (front ++ nul :: m).length (front ++ nul :: m).length
          ⟨some ((front ++ nul :: m) ++ rest), ps ++ [some begin], cols⟩ := by
  obtain ⟨m, hm, hstore⟩ := store_terminator (ε := ε) front gap rest (ps ++ [some begin]) cols tab
  have hlength : (front ++ nul :: m).length = front.length + gap.length + 1 := by
    rw [List.length_append, List.length_cons, hm]
    omega
  refine ⟨m, hm, ?_⟩
  rw [parseSwitch, bind_ret (load_found front gap rest ps cols tab), hlength]
  show (store front.length nul >>= _) (⟨_, ps ++ [some begin], cols⟩ : RowData) = _
  rw [bind_ret hstore]

private theorem parseSwitch_newline (hcols : ps.length + 1 = cols) :
    ∃ m : Bytes,
      parseSwitch loop (front.length + gap.length) front.length begin
          ⟨some (front ++ (gap ++ newline :: rest)), ps, cols⟩ =
        .ret true ⟨some ((front ++ nul :: m) ++ rest), ps ++ [some begin], cols⟩ := by
  obtain ⟨m, hm, hstore⟩ := store_terminator (ε := ε) front gap rest (ps ++ [some begin]) cols newline
  refine ⟨m, ?_⟩
  rw [parseSwitch, bind_ret (load_found front gap rest ps cols newline)]
  show (store front.length nul >>= _) (⟨_, ps ++ [some begin], cols⟩ : RowData) = _
  rw [bind_ret hstore]
  show (assert ((ps ++ [some begin]).length = cols) >>= _) _ = _
  have hlength : (ps ++ [some begin]).length = cols := by
    rw [List.length_append, List.length_singleton]
    exact hcols
  rw [bind_ret (assert_ret hlength _)]
  rfl

private theorem parseSwitch_escape {b c : UInt8} (hc : c ≠ 78) (hb : escapedByte c = some b) :
    ∃ gap' : Bytes, gap'.length = gap.length + 1 ∧
      parseSwitch loop (front.length + gap.length) front.length begin
          ⟨some (front ++ (gap ++ backslash :: c :: rest)), ps, cols⟩ =
        loop ((front ++ [b]).length + gap'.length) (front ++ [b]).length begin
          ⟨some ((front ++ [b]) ++ (gap' ++ rest)), ps, cols⟩ := by
  have hletter : (load (front.length + gap.length + 1) : Exec RowData ε UInt8)
      ⟨some (front ++ (gap ++ backslash :: c :: rest)), ps, cols⟩ =
        .ret c ⟨some (front ++ (gap ++ backslash :: c :: rest)), ps, cols⟩ := by
    have h := load_append (ε := ε) (front ++ (gap ++ [backslash])) rest c ps cols
      (p := front.length + gap.length + 1) (by simp; omega)
    simpa using h
  obtain ⟨gap', hgap, hstore⟩ : ∃ gap' : Bytes, gap'.length = gap.length + 1 ∧
      (store front.length b : Exec RowData ε Unit) ⟨some (front ++ (gap ++ backslash :: c :: rest)), ps, cols⟩ =
        .ret () ⟨some ((front ++ [b]) ++ (gap' ++ rest)), ps, cols⟩ := by
    cases gap with
    | nil => exact ⟨[c], rfl, by simpa using store_append front (c :: rest) b backslash ps cols rfl⟩
    | cons d gap =>
      refine ⟨gap ++ [backslash, c], by simp, ?_⟩
      simpa using store_append front (gap ++ backslash :: c :: rest) b d ps cols rfl
  have hread : (front ++ [b]).length + gap'.length = front.length + gap.length + 2 := by
    rw [List.length_append, List.length_singleton, hgap]
    omega
  refine ⟨gap', hgap, ?_⟩
  rw [parseSwitch, bind_ret (load_found front gap (c :: rest) ps cols backslash), hread, List.length_append,
    List.length_singleton]
  show (load (front.length + gap.length + 1) >>= _) _ = _
  rw [bind_ret hletter, if_neg hc, hb]
  show (store front.length b >>= _) _ = _
  rw [bind_ret hstore]

/-- A null, which stands alone in its field. -/
private theorem parseSwitch_null (delim : UInt8) :
    parseSwitch loop front.length front.length front.length
        ⟨some (front ++ backslash :: 78 :: delim :: rest), ps, cols⟩ =
      (match delim with
        | tab => loop (front.length + 3) (front.length + 3) (front.length + 3)
        | newline => return true
        | _ => Exec.undefined) ⟨some (front ++ backslash :: 78 :: delim :: rest), ps ++ [none], cols⟩ := by
  have hletter := load_append (ε := ε) (front ++ [backslash]) (delim :: rest) 78 ps cols (p := front.length + 1)
    (by simp)
  have hdelim := load_append (ε := ε) (front ++ [backslash, 78]) rest delim (ps ++ [none]) cols (p := front.length + 2)
    (by simp)
  have hfound := load_append (ε := ε) front (78 :: delim :: rest) backslash ps cols rfl
  rw [List.append_assoc, List.singleton_append] at hletter
  rw [List.append_assoc, List.cons_append, List.singleton_append] at hdelim
  rw [parseSwitch, bind_ret hfound]
  show (load (front.length + 1) >>= _) _ = _
  rw [bind_ret hletter, if_pos rfl, bind_ret (assert_ret rfl _)]
  show (load (front.length + 2) >>= _) (⟨_, ps ++ [none], cols⟩ : RowData) = _
  rw [bind_ret hdelim]

end Switch

/-! ### A field -/

/-- The decoder undoes the escapes of the server. -/
private theorem escapeByte_cases (b : UInt8) :
    (CopyOutput.escapeByte b = [b] ∧ b ∉ lineSpecial) ∨
      ∃ c, CopyOutput.escapeByte b = [backslash, c] ∧ c ≠ 78 ∧ escapedByte c = some b := by
  by_cases hspecial : b ∈ [backspace, formFeed, newline, carriageReturn, tab, verticalTab, backslash]
  · right
    have hall : ∀ b ∈ [backspace, formFeed, newline, carriageReturn, tab, verticalTab, backslash],
        CopyOutput.escapeByte b = [backslash, (CopyOutput.escapeByte b).getD 1 nul] ∧
          (CopyOutput.escapeByte b).getD 1 nul ≠ 78 ∧ escapedByte ((CopyOutput.escapeByte b).getD 1 nul) = some b := by
      decide
    exact ⟨_, hall b hspecial⟩
  · left
    simp only [List.mem_cons, List.not_mem_nil, or_false, not_or] at hspecial
    obtain ⟨h8, h12, h10, h13, h9, h11, h92⟩ := hspecial
    constructor
    · unfold CopyOutput.escapeByte
      rw [if_neg h8, if_neg h12, if_neg h10, if_neg h13, if_neg h9, if_neg h11, if_neg h92]
    · simp [lineSpecial, h9, h10, h92]

/-- What the loop does at the end of a field. -/
private def atDelimiter (delim : UInt8) (fuel n : Nat) : Exec RowData ε Bool :=
  if delim = tab then parseDataLoop fuel n n n else return true

/-- A string is moved to the front, with a byte `0` behind it. -/
private theorem parseDataLoop_string (before : Bytes) {s : Bytes}
    (hbefore : ∀ b ∈ before, b ≠ nul ∧ b ∉ lineSpecial) (hs : nul ∉ s) {delim : UInt8} (front gap rest : Bytes)
    {ps : List (Option Nat)} {cols : Nat} (hdelim : delim = tab ∨ delim = newline ∧ ps.length + 1 = cols)
    (begin fuel : Nat) (hfuel : (before ++ (s.flatMap CopyOutput.escapeByte ++ delim :: rest)).length ≤ fuel) :
    ∃ (m : Bytes) (fuel' : Nat), rest.length ≤ fuel' ∧
      (parseDataLoop fuel (front.length + gap.length) front.length begin : Exec RowData ε Bool)
          ⟨some (front ++ (gap ++ (before ++ (s.flatMap CopyOutput.escapeByte ++ delim :: rest)))), ps, cols⟩ =
        atDelimiter delim fuel' (front ++ before ++ s ++ nul :: m).length
          ⟨some ((front ++ before ++ s ++ nul :: m) ++ rest), ps ++ [some begin], cols⟩ := by
  induction s generalizing before front gap fuel with
  | nil =>
    obtain ⟨fuel, rfl⟩ : ∃ n, fuel = n + 1 := ⟨fuel - 1, by simp at hfuel; omega⟩
    have hmem : delim ∈ lineSpecial := by rcases hdelim with rfl | ⟨rfl, -⟩ <;> decide
    obtain ⟨gap', -, hfound⟩ := parseDataLoop_found (ε := ε) front gap hbefore hmem rest ps cols fuel begin
    have hrest : rest.length ≤ fuel := by
      simp at hfuel
      omega
    rcases hdelim with rfl | ⟨rfl, hcols⟩
    · obtain ⟨m, -, hswitch⟩ := parseSwitch_tab (parseDataLoop (ε := ε) fuel) (front ++ before) gap' rest ps cols begin
      refine ⟨m, fuel, hrest, ?_⟩
      rw [List.append_nil]
      exact hfound.trans hswitch
    · obtain ⟨m, hswitch⟩ :=
        parseSwitch_newline (parseDataLoop (ε := ε) fuel) (front ++ before) gap' rest ps cols begin hcols
      refine ⟨m, fuel, hrest, ?_⟩
      rw [List.append_nil]
      exact hfound.trans hswitch
  | cons b s ih =>
    have hb : b ≠ nul := fun h => hs (h ▸ List.mem_cons_self)
    have hs' : nul ∉ s := fun h => hs (List.mem_cons_of_mem b h)
    rw [List.flatMap_cons] at hfuel ⊢
    rcases escapeByte_cases b with ⟨hself, hplain⟩ | ⟨c, hescape, hc, hvalue⟩
    · have hbefore' : ∀ c ∈ before ++ [b], c ≠ nul ∧ c ∉ lineSpecial :=
        List.forall_mem_append.mpr ⟨hbefore, List.forall_mem_singleton.mpr ⟨hb, hplain⟩⟩
      rw [hself] at hfuel ⊢
      obtain ⟨m, fuel', hrest, hloop⟩ := ih (before ++ [b]) hbefore' hs' front gap fuel (by simpa using hfuel)
      refine ⟨m, fuel', hrest, ?_⟩
      simpa using hloop
    · rw [hescape] at hfuel ⊢
      obtain ⟨fuel, rfl⟩ : ∃ n, fuel = n + 1 := ⟨fuel - 1, by simp at hfuel; omega⟩
      obtain ⟨gap', -, hfound⟩ := parseDataLoop_found (ε := ε) front gap hbefore
        (c := backslash) (by decide) (c :: (s.flatMap CopyOutput.escapeByte ++ delim :: rest)) ps cols fuel begin
      obtain ⟨gap'', -, hswitch⟩ := parseSwitch_escape (parseDataLoop (ε := ε) fuel) (front ++ before) gap'
        (s.flatMap CopyOutput.escapeByte ++ delim :: rest) ps cols begin hc hvalue
      obtain ⟨m, fuel', hrest, hloop⟩ := ih [] (by simp) hs' (front ++ before ++ [b]) gap'' fuel
        (by simp at hfuel ⊢; omega)
      refine ⟨m, fuel', hrest, ?_⟩
      have htotal := hfound.trans (hswitch.trans hloop)
      simpa using htotal

/-! ### A row -/

/-- A pointer is null for a null, and points to the string otherwise, which ends with a byte `0`. -/
def PointsTo (m : Bytes) : Option Nat → Option Bytes → Prop
  | none, none => True
  | some p, some s => ∃ rest, m.drop p = s ++ nul :: rest
  | _, _ => False

/-- What is written behind a string does not change it. -/
theorem PointsTo.append {m : Bytes} {p : Option Nat} {x : Option Bytes} (h : PointsTo m p x) (rest : Bytes) :
    PointsTo (m ++ rest) p x := by
  match p, x, h with
  | none, none, _ => trivial
  | some p, some s, ⟨behind, hdrop⟩ =>
    have hlength : 0 < (m.drop p).length := by
      rw [hdrop]
      simp
    rw [List.length_drop] at hlength
    refine ⟨behind ++ rest, ?_⟩
    rw [List.drop_append_of_le_length (by omega), hdrop]
    simp

/-- One field.  The fields before it stay what they are. -/
private theorem parseDataLoop_field {x : Option Bytes} (hx : NulFree x) {delim : UInt8}
    (done rest : Bytes) {ps : List (Option Nat)} {xs : List (Option Bytes)}
    (hps : List.Forall₂ (PointsTo done) ps xs) {cols : Nat}
    (hdelim : delim = tab ∨ delim = newline ∧ ps.length + 1 = cols) (fuel : Nat)
    (hfuel : (CopyOutput.field x ++ delim :: rest).length ≤ fuel) :
    ∃ (done' : Bytes) (p : Option Nat) (fuel' : Nat), rest.length ≤ fuel' ∧
      List.Forall₂ (PointsTo done') (ps ++ [p]) (xs ++ [x]) ∧
      (parseDataLoop fuel done.length done.length done.length : Exec RowData ε Bool)
          ⟨some (done ++ (CopyOutput.field x ++ delim :: rest)), ps, cols⟩ =
        atDelimiter delim fuel' done'.length ⟨some (done' ++ rest), ps ++ [p], cols⟩ := by
  cases x with
  | none =>
    obtain ⟨fuel, rfl⟩ : ∃ n, fuel = n + 1 := ⟨fuel - 1, by simp at hfuel; omega⟩
    obtain ⟨gap, hgap, hfound⟩ := parseDataLoop_found (ε := ε) done [] (List.forall_mem_nil _) (c := backslash)
      (by decide) (78 :: delim :: rest) ps cols fuel done.length
    obtain rfl := List.length_eq_zero_iff.mp hgap
    have hnull := parseSwitch_null (parseDataLoop (ε := ε) fuel) done rest ps cols delim
    have hstays : List.Forall₂ (PointsTo (done ++ [backslash, 78, delim])) (ps ++ [none]) (xs ++ [none]) :=
      List.rel_append (hps.imp fun _ _ h => h.append _) (.cons trivial .nil)
    have hrest : rest.length ≤ fuel := by
      simp [CopyOutput.field, nullMarker] at hfuel
      omega
    have hlength : (done ++ [backslash, 78, delim]).length = done.length + 3 := by simp
    have hbuffer : (done ++ [backslash, 78, delim]) ++ rest = done ++ backslash :: 78 :: delim :: rest := by simp
    refine ⟨done ++ [backslash, 78, delim], none, fuel, hrest, hstays, ?_⟩
    rw [hlength, hbuffer]
    simp only [List.nil_append, List.append_nil, List.length_nil, Nat.add_zero] at hfound
    refine hfound.trans (hnull.trans ?_)
    rcases hdelim with rfl | ⟨rfl, -⟩ <;> rfl
  | some s =>
    have hs : nul ∉ s := hx s rfl
    obtain ⟨m, fuel', hrest, hloop⟩ :=
      parseDataLoop_string (ε := ε) [] (by simp) hs done [] rest hdelim done.length fuel hfuel
    have hpoints : PointsTo (done ++ s ++ nul :: m) (some done.length) (some s) :=
      ⟨m, by rw [List.append_assoc, List.drop_left]⟩
    have hstays : List.Forall₂ (PointsTo (done ++ s ++ nul :: m)) (ps ++ [some done.length]) (xs ++ [some s]) := by
      refine List.rel_append (hps.imp fun _ _ h => ?_) (.cons hpoints .nil)
      rw [List.append_assoc]
      exact h.append _
    refine ⟨done ++ s ++ nul :: m, some done.length, fuel', hrest, hstays, ?_⟩
    simpa [CopyOutput.field] using hloop

/-- The rest of a row. -/
theorem parseDataLoop_row {fs : List (Option Bytes)} (hne : fs ≠ []) (hfs : ∀ x ∈ fs, NulFree x)
    (done rest : Bytes) {ps : List (Option Nat)} {xs : List (Option Bytes)}
    (hps : List.Forall₂ (PointsTo done) ps xs) {cols : Nat} (hcols : ps.length + fs.length = cols) (fuel : Nat)
    (hfuel : (CopyOutput.row fs ++ rest).length ≤ fuel) :
    ∃ (m : Bytes) (qs : List (Option Nat)), List.Forall₂ (PointsTo m) qs (xs ++ fs) ∧
      (parseDataLoop fuel done.length done.length done.length : Exec RowData ε Bool)
          ⟨some (done ++ (CopyOutput.row fs ++ rest)), ps, cols⟩ = .ret true ⟨some m, qs, cols⟩ := by
  induction fs generalizing done ps xs fuel with
  | nil => exact absurd rfl hne
  | cons x fs ih =>
    have hx := hfs x List.mem_cons_self
    cases fs with
    | nil =>
      have hrow : CopyOutput.row [x] ++ rest = CopyOutput.field x ++ newline :: rest := by
        simp [CopyOutput.row]
      rw [hrow] at hfuel ⊢
      obtain ⟨done', p, fuel', -, hstays, hloop⟩ :=
        parseDataLoop_field (ε := ε) hx done rest hps (.inr ⟨rfl, hcols⟩) fuel hfuel
      exact ⟨_, _, (hstays.imp fun _ _ h => h.append rest), hloop⟩
    | cons y fs =>
      have hrow : CopyOutput.row (x :: y :: fs) ++ rest =
          CopyOutput.field x ++ tab :: (CopyOutput.row (y :: fs) ++ rest) := by
        simp [CopyOutput.row]
      rw [hrow] at hfuel ⊢
      obtain ⟨done', p, fuel', hfuel', hstays, hloop⟩ :=
        parseDataLoop_field (ε := ε) hx done (CopyOutput.row (y :: fs) ++ rest) hps (.inl rfl) fuel hfuel
      have hcols' : (ps ++ [p]).length + (y :: fs).length = cols := by
        rw [← hcols]
        simp only [List.length_append, List.length_cons, List.length_nil]
        omega
      obtain ⟨m, qs, hqs, htail⟩ := ih (List.cons_ne_nil y fs) (fun z hz => hfs z (List.mem_cons_of_mem x hz)) done'
        hstays hcols' fuel' hfuel'
      rw [List.append_assoc] at hqs
      exact ⟨m, qs, hqs, hloop.trans htail⟩

/-- The line that the server makes of a row is decoded into the row, when the server has announced its number of
fields: the pointers are those of the fields, and all of them are good when the line has been read. -/
theorem parse_data_row {fs : List (Option Bytes)} (hne : fs ≠ []) (hfs : ∀ x ∈ fs, NulFree x)
    (ps : List (Option Nat)) :
    ∃ (m : Bytes) (qs : List (Option Nat)), List.Forall₂ (PointsTo m) qs fs ∧
      (parseData : Exec RowData ε Bool) ⟨some (cString (CopyOutput.row fs)), ps, fs.length⟩ =
        .ret true ⟨some m, qs, fs.length⟩ :=
  parseDataLoop_row (ε := ε) hne hfs [] [nul] .nil (Nat.zero_add _) _ (le_refl _)

theorem parse_data_sample :
    ∃ (m : Bytes) (qs : List (Option Nat)),
      List.Forall₂ (PointsTo m) qs [some (ascii "a\tb"), none, some [newline, backslash], some [], none] ∧
      (parseData : Exec RowData Empty Bool)
        ⟨some (cString (CopyOutput.row [some (ascii "a\tb"), none, some [newline, backslash], some [], none])), [], 5⟩ =
          .ret true ⟨some m, qs, 5⟩ :=
  parse_data_row (List.cons_ne_nil _ _) (by decide) []

end TableReader

end TaoPQ
