import TaoPQ.Rows

/-!
# Lines that are no rows

`table_reader` takes any COPY TO statement, whatever its format, and `parse_data` takes any line for one of the default
text format.  The branches that such lines do not reach are marked as unreachable, and the number of fields is checked
by an assertion only, where it is checked.  `row_safe_iff` says which lines are good, with assertions and without.
-/

namespace TaoPQ

open Byte Exec

namespace TableReader

variable {ε : Type}

/-! ### Builds -/

/-- `assert`, which does nothing when `NDEBUG` is defined. -/
def assertIn (ndebug : Bool) (P : Prop) [Decidable P] : Exec RowData ε Unit :=
  if ndebug then Exec.pure () else assert P

/-- The `switch` in the loop of `parse_data`, in a build with or without `NDEBUG`. -/
def parseSwitchIn (ndebug : Bool) (loop : (read write begin : Nat) → Exec RowData ε Bool) (pos write begin : Nat) :
    Exec RowData ε Bool := do
  match ← load pos with
  | tab =>
    emplaceBack (some begin)
    store write nul
    loop (pos + 1) (pos + 1) (pos + 1)
  | backslash =>
    let c ← load (pos + 1)
    if c = 78 then do
      assertIn ndebug (write = begin)
      emplaceBack none
      match ← load (pos + 2) with
      | tab => loop (pos + 3) (pos + 3) (pos + 3)
      | newline => return true
      | _ => Exec.undefined
    else
      match escapedByte c with
      | some b =>
        store write b
        loop (pos + 2) (write + 1) begin
      | none => Exec.undefined
  | newline =>
    emplaceBack (some begin)
    store write nul
    let d ← Exec.get
    assertIn ndebug (d.data.length = d.columns)
    return true
  | _ => Exec.undefined

/-- The loop of `parse_data`. -/
def parseDataLoopIn (ndebug : Bool) : (fuel read write begin : Nat) → Exec RowData ε Bool
  | 0, _, _, _ => Exec.undefined
  | fuel + 1, read, write, begin => do
    match ← search read [tab, backslash, newline] with
    | none => Exec.undefined
    | some pos =>
      memmove write read (pos - read)
      parseSwitchIn ndebug (parseDataLoopIn ndebug fuel) pos (write + (pos - read)) begin

/-- `table_reader::parse_data` -/
def parseDataIn (ndebug : Bool) : Exec RowData ε Bool := do
  Exec.modify fun d => { d with data := [] }
  let d ← Exec.get
  match d.buffer with
  | none => return false
  | some m => parseDataLoopIn ndebug m.length 0 0 0

theorem parseDataLoopIn_false (fuel : Nat) :
    (parseDataLoopIn false fuel : (read write begin : Nat) → Exec RowData ε Bool) = parseDataLoop fuel := by
  induction fuel with
  | zero => rfl
  | succ fuel ih =>
    funext read write begin
    rw [parseDataLoopIn, parseDataLoop, ih]
    rfl

/-- `parseData` is the decoder of a build with assertions. -/
theorem parseDataIn_false : (parseDataIn false : Exec RowData ε Bool) = parseData := by
  funext d
  cases d with
  | mk buffer data columns =>
    cases buffer with
    | none => rfl
    | some m =>
      show parseDataLoopIn false m.length 0 0 0 ⟨some m, [], columns⟩ = parseDataLoop m.length 0 0 0 _
      rw [parseDataLoopIn_false]

/-- `table_reader::get_row` -/
def getRowIn {DB : Type} (ndebug : Bool) (W : World) (b : Nat) : Exec (Reading DB) Exn Bool := do
  let _ ← onState (getRawData W b)
  let k ← onState (derefBulk b)
  Exec.modify fun r => { r with row := ⟨k.buffer.map cString, r.row.data, k.columns⟩ }
  Exec.zoom Reading.row (fun d r => { r with row := d }) (parseDataIn ndebug)

theorem getRowIn_false {DB : Type} (W : World) (b : Nat) :
    (getRowIn false W b : Exec (Reading DB) Exn Bool) = getRow W b := by
  unfold getRowIn getRow
  rw [parseDataIn_false]

/-! ### Lines -/

/-- The text of a string: the letters behind its backslashes are known. -/
abbrev StringText : Bytes → Prop :=
  Escaping.Spelled backslash (fun b => b ≠ nul ∧ b ∉ lineSpecial) fun c => (escapedByte c).isSome = true

/-- The text of a field: a string, or the mark of a null, which stands alone where assertions see to it. -/
def FieldText (ndebug : Bool) (f : Bytes) : Prop :=
  StringText f ∨ ∃ s, StringText s ∧ f = s ++ nullMarker ∧ (ndebug = false → s = [])

/-- So many fields, with tabs between them, up to the end of the line. -/
def Decodes (ndebug : Bool) (columns : Nat) (line : Bytes) : Prop :=
  ∃ fs rest, fs ≠ [] ∧ fs.length = columns ∧ (∀ f ∈ fs, FieldText ndebug f) ∧
    line = [tab].intercalate fs ++ newline :: rest

/-! ### Access to what is still to be read

`m.drop p` is what is still to be read from the position `p` on.  Nothing is written behind it. -/

section Access

variable {m rest : Bytes} {p : Nat} (ps : List (Option Nat)) (cols : Nat)

theorem length_of_drop {b : UInt8} (h : m.drop p = b :: rest) : p < m.length := by
  have hlength := congrArg List.length h
  rw [List.length_drop, List.length_cons] at hlength
  omega

theorem drop_add {before : Bytes} (h : m.drop p = before ++ rest) : m.drop (p + before.length) = rest := by
  rw [← List.drop_drop, h, List.drop_left]

theorem getBuffer_some (m : Bytes) :
    (getBuffer : Exec RowData ε Bytes) ⟨some m, ps, cols⟩ = .ret m ⟨some m, ps, cols⟩ := rfl

theorem load_drop {b : UInt8} (h : m.drop p = b :: rest) :
    (load p : Exec RowData ε UInt8) ⟨some m, ps, cols⟩ = .ret b ⟨some m, ps, cols⟩ := by
  have hb : m[p]? = some b := by
    have hget := congrArg (fun l => l[0]?) h
    simpa [List.getElem?_drop] using hget
  rw [load, bind_ret (getBuffer_some ps cols m), hb]
  rfl

theorem load_end (h : m.drop p = []) : (load p : Exec RowData ε UInt8) ⟨some m, ps, cols⟩ = .undefined := by
  rw [load, bind_ret (getBuffer_some ps cols m), List.getElem?_eq_none (List.drop_eq_nil_iff.1 h)]
  rfl

/-- A byte is written in front of what is still to be read. -/
theorem store_drop {write : Nat} (b : UInt8) {c : UInt8} (h : m.drop p = c :: rest) (hwrite : write ≤ p) :
    ∃ m' : Bytes, m'.drop (p + 1) = rest ∧ (store write b : Exec RowData ε Unit) ⟨some m, ps, cols⟩ =
      .ret () ⟨some m', ps, cols⟩ := by
  have hlt := length_of_drop h
  refine ⟨m.set write b, ?_, ?_⟩
  · rw [List.drop_set_of_lt (by omega)]
    exact drop_add (show m.drop p = [c] ++ rest from h)
  · show (if write < m.length then _ else _ : Exec RowData ε Unit) _ = _
    rw [if_pos (by omega)]
    rfl

/-- What is moved to the front ends where it ended before, or in front of that. -/
theorem memmove_drop {write : Nat} {before : Bytes} {c : UInt8} (h : m.drop p = before ++ c :: rest)
    (hwrite : write ≤ p) :
    ∃ m' : Bytes, m'.drop (p + before.length) = c :: rest ∧
      (memmove write p before.length : Exec RowData ε Unit) ⟨some m, ps, cols⟩ = .ret () ⟨some m', ps, cols⟩ := by
  have hlt := length_of_drop (drop_add h)
  refine ⟨m.take write ++ (m.drop p).take before.length ++ m.drop (write + before.length), ?_, ?_⟩
  · have hfront : (m.take write ++ (m.drop p).take before.length).length = write + before.length := by
      rw [List.length_append, List.length_take, h, List.take_left]
      omega
    have hbehind : p + before.length = write + before.length + (p - write) := by omega
    rw [hbehind, ← hfront, ← List.drop_drop, List.drop_left, List.drop_drop, hfront, ← hbehind, drop_add h]
  · show (if p + before.length ≤ m.length ∧ write + before.length ≤ m.length then _ else _ :
      Exec RowData ε Unit) _ = _
    rw [if_pos ⟨by omega, by omega⟩]
    rfl

theorem search_eq {r : Option Nat} (h : strpbrk lineSpecial (m.drop p) = some r) :
    (search p lineSpecial : Exec RowData ε (Option Nat)) ⟨some m, ps, cols⟩ =
      .ret (r.map (p + ·)) ⟨some m, ps, cols⟩ := by
  rw [search, bind_ret (getBuffer_some ps cols m), h]
  rfl

theorem search_end (h : strpbrk lineSpecial (m.drop p) = none) :
    (search p lineSpecial : Exec RowData ε (Option Nat)) ⟨some m, ps, cols⟩ = .undefined := by
  rw [search, bind_ret (getBuffer_some ps cols m), h]
  rfl

theorem search_drop {before : Bytes} (hbefore : ∀ b ∈ before, b ≠ nul ∧ b ∉ lineSpecial) {c : UInt8}
    (hc : c ∈ lineSpecial) (h : m.drop p = before ++ c :: rest) :
    (search p lineSpecial : Exec RowData ε (Option Nat)) ⟨some m, ps, cols⟩ =
      .ret (some (p + before.length)) ⟨some m, ps, cols⟩ := by
  have hnul : c ≠ nul := by
    rintro rfl
    exact absurd hc (by decide)
  exact search_eq ps cols (by rw [h, strpbrk_found hbefore hc hnul rest])

end Access

/-- An assertion that holds, or that is not made. -/
theorem assertIn_ret {ndebug : Bool} {P : Prop} [Decidable P] (h : ndebug = true ∨ P) (d : RowData) :
    (assertIn ndebug P : Exec RowData ε Unit) d = .ret () d := by
  unfold assertIn assert
  rcases h with rfl | h
  · rfl
  · rw [if_pos h]
    cases ndebug <;> rfl

theorem assertIn_undefined {ndebug : Bool} {P : Prop} [Decidable P] (h : ¬ (ndebug = true ∨ P)) (d : RowData) :
    (assertIn ndebug P : Exec RowData ε Unit) d = .undefined := by
  obtain ⟨hbuild, hP⟩ := not_or.1 h
  unfold assertIn assert
  rw [if_neg hbuild, if_neg hP]
  rfl

/-! ### One round of the loop -/

section Round

variable (ndebug : Bool) {m rest : Bytes} (ps : List (Option Nat)) (cols : Nat)

/-- The loop up to its `switch`. -/
theorem parseDataLoopIn_found {read write : Nat} {before : Bytes}
    (hbefore : ∀ b ∈ before, b ≠ nul ∧ b ∉ lineSpecial) {c : UInt8} (hc : c ∈ lineSpecial)
    (h : m.drop read = before ++ c :: rest) (hwrite : write ≤ read) (fuel begin : Nat) :
    ∃ m' : Bytes, m'.drop (read + before.length) = c :: rest ∧
      (parseDataLoopIn ndebug (fuel + 1) read write begin : Exec RowData ε Bool) ⟨some m, ps, cols⟩ =
        parseSwitchIn ndebug (parseDataLoopIn ndebug fuel) (read + before.length) (write + before.length) begin
          ⟨some m', ps, cols⟩ := by
  obtain ⟨m', hm', hmemmove⟩ := memmove_drop (ε := ε) ps cols h hwrite
  have hdistance : read + before.length - read = before.length := by omega
  refine ⟨m', hm', ?_⟩
  rw [parseDataLoopIn]
  change (search read lineSpecial >>= _) _ = _
  rw [bind_ret (search_drop ps cols hbefore hc h)]
  simp only
  rw [hdistance, bind_ret hmemmove]

variable (loop : (read write begin : Nat) → Exec RowData ε Bool) {pos write : Nat} (begin : Nat)

theorem parseSwitchIn_tab (h : m.drop pos = tab :: rest) (hwrite : write ≤ pos) :
    ∃ m' : Bytes, m'.drop (pos + 1) = rest ∧ parseSwitchIn ndebug loop pos write begin ⟨some m, ps, cols⟩ =
      loop (pos + 1) (pos + 1) (pos + 1) ⟨some m', ps ++ [some begin], cols⟩ := by
  obtain ⟨m', hm', hstore⟩ := store_drop (ε := ε) (ps ++ [some begin]) cols nul h hwrite
  refine ⟨m', hm', ?_⟩
  rw [parseSwitchIn, bind_ret (load_drop ps cols h)]
  show (store write nul >>= _) (⟨_, ps ++ [some begin], cols⟩ : RowData) = _
  rw [bind_ret hstore]

/-- At the end of the line the number of fields is checked, in builds that check it. -/
theorem parseSwitchIn_newline (h : m.drop pos = newline :: rest) (hwrite : write ≤ pos) :
    ∃ m' : Bytes, parseSwitchIn ndebug loop pos write begin ⟨some m, ps, cols⟩ =
      if ndebug = true ∨ ps.length + 1 = cols then .ret true ⟨some m', ps ++ [some begin], cols⟩ else .undefined := by
  obtain ⟨m', -, hstore⟩ := store_drop (ε := ε) (ps ++ [some begin]) cols nul h hwrite
  refine ⟨m', ?_⟩
  rw [parseSwitchIn, bind_ret (load_drop ps cols h)]
  show (store write nul >>= _) (⟨_, ps ++ [some begin], cols⟩ : RowData) = _
  rw [bind_ret hstore]
  show (assertIn ndebug ((ps ++ [some begin]).length = cols) >>= _) _ = _
  rw [List.length_append, List.length_singleton]
  by_cases hcols : ndebug = true ∨ ps.length + 1 = cols
  · rw [bind_ret (assertIn_ret hcols _), if_pos hcols]
    rfl
  · rw [bind_undefined (assertIn_undefined hcols _), if_neg hcols]

theorem parseSwitchIn_escape {b c : UInt8} (hc : c ≠ 78) (hb : escapedByte c = some b)
    (h : m.drop pos = backslash :: c :: rest) (hwrite : write ≤ pos) :
    ∃ m' : Bytes, m'.drop (pos + 2) = rest ∧ parseSwitchIn ndebug loop pos write begin ⟨some m, ps, cols⟩ =
      loop (pos + 2) (write + 1) begin ⟨some m', ps, cols⟩ := by
  have hnext : m.drop (pos + 1) = c :: rest := drop_add (show m.drop pos = [backslash] ++ _ from h)
  obtain ⟨m', hm', hstore⟩ := store_drop (ε := ε) ps cols b hnext (Nat.le_succ_of_le hwrite)
  refine ⟨m', hm', ?_⟩
  rw [parseSwitchIn, bind_ret (load_drop ps cols h)]
  show (load (pos + 1) >>= _) _ = _
  rw [bind_ret (load_drop ps cols hnext), if_neg hc, hb]
  show (store write b >>= _) _ = _
  rw [bind_ret hstore]

/-- The letter behind the backslash is not known. -/
theorem parseSwitchIn_unknown {c : UInt8} (hc : c ≠ 78) (hb : escapedByte c = none)
    (h : m.drop pos = backslash :: c :: rest) :
    parseSwitchIn ndebug loop pos write begin ⟨some m, ps, cols⟩ = .undefined := by
  have hnext : m.drop (pos + 1) = c :: rest := drop_add (show m.drop pos = [backslash] ++ _ from h)
  rw [parseSwitchIn, bind_ret (load_drop ps cols h)]
  show (load (pos + 1) >>= _) _ = _
  rw [bind_ret (load_drop ps cols hnext), if_neg hc, hb]
  rfl

/-- Nothing is left behind the backslash. -/
theorem parseSwitchIn_end (h : m.drop pos = [backslash]) :
    parseSwitchIn ndebug loop pos write begin ⟨some m, ps, cols⟩ = .undefined := by
  have hnext : m.drop (pos + 1) = [] := drop_add (show m.drop pos = [backslash] ++ _ from h)
  rw [parseSwitchIn, bind_ret (load_drop ps cols h)]
  show (load (pos + 1) >>= _) _ = _
  rw [bind_undefined (load_end ps cols hnext)]

/-- Nothing is left behind the mark of a null. -/
theorem parseSwitchIn_null_end (h : m.drop pos = nullMarker) :
    parseSwitchIn ndebug loop pos write begin ⟨some m, ps, cols⟩ = .undefined := by
  have hletter : m.drop (pos + 1) = [78] := drop_add (show m.drop pos = [backslash] ++ _ from h)
  have hdelim : m.drop (pos + 2) = [] := drop_add (show m.drop pos = [backslash, 78] ++ [] from h)
  rw [parseSwitchIn, bind_ret (load_drop ps cols h)]
  show (load (pos + 1) >>= _) _ = _
  rw [bind_ret (load_drop ps cols hletter), if_pos rfl]
  by_cases hbegin : ndebug = true ∨ write = begin
  · rw [bind_ret (assertIn_ret hbegin _)]
    show (load (pos + 2) >>= _) (⟨_, ps ++ [none], cols⟩ : RowData) = _
    rw [bind_undefined (load_end (ps ++ [none]) cols hdelim)]
  · rw [bind_undefined (assertIn_undefined hbegin _)]

/-- The mark of a null, and what is expected behind it. -/
theorem parseSwitchIn_null {delim : UInt8} (h : m.drop pos = nullMarker ++ delim :: rest) :
    parseSwitchIn ndebug loop pos write begin ⟨some m, ps, cols⟩ =
      if ndebug = true ∨ write = begin then
        if delim = tab then loop (pos + 3) (pos + 3) (pos + 3) ⟨some m, ps ++ [none], cols⟩
        else if delim = newline then .ret true ⟨some m, ps ++ [none], cols⟩
        else .undefined
      else .undefined := by
  have hletter : m.drop (pos + 1) = 78 :: delim :: rest := drop_add (show m.drop pos = [backslash] ++ _ from h)
  have hdelim : m.drop (pos + 2) = delim :: rest := drop_add (show m.drop pos = [backslash, 78] ++ _ from h)
  rw [parseSwitchIn, bind_ret (load_drop ps cols h)]
  show (load (pos + 1) >>= _) _ = _
  rw [bind_ret (load_drop ps cols hletter), if_pos rfl]
  by_cases hbegin : ndebug = true ∨ write = begin
  · rw [bind_ret (assertIn_ret hbegin _), if_pos hbegin]
    show (load (pos + 2) >>= _) (⟨_, ps ++ [none], cols⟩ : RowData) = _
    rw [bind_ret (load_drop (ps ++ [none]) cols hdelim)]
    by_cases htab : delim = tab
    · subst htab
      exact (if_pos rfl).symm
    · rw [if_neg htab]
      by_cases hnewline : delim = newline
      · subst hnewline
        exact (if_pos rfl).symm
      · rw [if_neg hnewline]
        split
        · exact absurd rfl htab
        · exact absurd rfl hnewline
        · rfl
  · rw [bind_undefined (assertIn_undefined hbegin _), if_neg hbegin]

end Round

/-! ### What is read is a row -/

section Sound

variable (ndebug : Bool)

/-- What is left of a field of which nothing has been written yet, or something. -/
private def FieldFrom (fresh : Prop) (f : Bytes) : Prop :=
  StringText f ∨ ∃ s, StringText s ∧ f = s ++ nullMarker ∧ (ndebug = false → fresh ∧ s = [])

/-- The fields that are left, and how many entries there are when they have been read. -/
private def RowFrom (fresh : Prop) (entries total : Nat) (m : Bytes) : Prop :=
  ∃ f fs rest, m = [tab].intercalate (f :: fs) ++ newline :: rest ∧ FieldFrom ndebug fresh f ∧
    (∀ g ∈ fs, FieldText ndebug g) ∧ total = entries + (f :: fs).length

private theorem FieldFrom.text {fresh : Prop} {f : Bytes} (h : FieldFrom ndebug fresh f) : FieldText ndebug f := by
  rcases h with h | ⟨s, hs, rfl, halone⟩
  · exact .inl h
  · exact .inr ⟨s, hs, rfl, fun hb => (halone hb).2⟩

/-- A field ends, and others follow. -/
private theorem RowFrom.tab {fresh fresh' : Prop} {entries total : Nat} {f rest : Bytes}
    (hf : FieldFrom ndebug fresh f) (h : RowFrom ndebug fresh' (entries + 1) total rest) :
    RowFrom ndebug fresh entries total (f ++ Byte.tab :: rest) := by
  obtain ⟨g, fs, rest, rfl, hg, hfs, htotal⟩ := h
  refine ⟨f, g :: fs, rest, ?_, hf, List.forall_mem_cons.2 ⟨hg.text, hfs⟩, ?_⟩
  · rw [List.intercalate_cons_cons]
    simp
  · simp at htotal ⊢
    omega

private theorem RowFrom.newline {fresh : Prop} {entries : Nat} {f : Bytes} (hf : FieldFrom ndebug fresh f)
    (rest : Bytes) : RowFrom ndebug fresh entries (entries + 1) (f ++ Byte.newline :: rest) :=
  ⟨f, [], rest, by simp, hf, by simp, by simp⟩

/-- Behind an escape no null can be, if assertions see to it. -/
private theorem RowFrom.escape {fresh fresh' : Prop} (hfresh : ¬ fresh') {entries total : Nat} {before rest : Bytes}
    {c : UInt8} (hbefore : ∀ b ∈ before, b ≠ nul ∧ b ∉ lineSpecial) (hc : (escapedByte c).isSome = true)
    (h : RowFrom ndebug fresh' entries total rest) :
    RowFrom ndebug fresh entries total (before ++ backslash :: c :: rest) := by
  obtain ⟨f, fs, rest, rfl, hf, hfs, htotal⟩ := h
  refine ⟨before ++ backslash :: c :: f, fs, rest, ?_, ?_, hfs, htotal⟩
  · cases fs with
    | nil => simp
    | cons g fs =>
      rw [List.intercalate_cons_cons, List.intercalate_cons_cons]
      simp
  · rcases hf with hf | ⟨s, hs, rfl, halone⟩
    · exact .inl (.append_escaped hbefore hc hf)
    · exact .inr ⟨before ++ backslash :: c :: s, .append_escaped hbefore hc hs, by simp,
        fun hb => absurd (halone hb).1 hfresh⟩

variable (cols : Nat)

/-- The search finds something, or the loop can not go on. -/
private theorem parseDataLoopIn_cases (m : Bytes) (ps : List (Option Nat)) (fuel read write begin : Nat) :
    (parseDataLoopIn ndebug (fuel + 1) read write begin : Exec RowData ε Bool) ⟨some m, ps, cols⟩ = .undefined ∨
      ∃ before c rest, m.drop read = before ++ c :: rest ∧ c ∈ lineSpecial ∧
        ∀ b ∈ before, b ≠ nul ∧ b ∉ lineSpecial := by
  rw [parseDataLoopIn]
  change (search read lineSpecial >>= _) _ = _ ∨ _
  cases hfound : strpbrk lineSpecial (m.drop read) with
  | none => exact .inl (bind_undefined (search_end ps cols hfound) _)
  | some r =>
    cases r with
    | none => exact .inl (bind_ret (search_eq ps cols hfound) _)
    | some n => exact .inr (strpbrk_some hfound)

/-- Nothing is read, or the row with which the bytes begin. -/
private def ReadsRow (fresh : Prop) (ps : List (Option Nat)) (m : Bytes) (o : Outcome RowData ε Bool) : Prop :=
  o = .undefined ∨
    ∃ d : RowData, o = .ret true d ∧ d.columns = cols ∧ RowFrom ndebug fresh ps.length d.data.length m

namespace ReadsRow

variable {ndebug cols} {fresh fresh' : Prop} {ps : List (Option Nat)} {f rest : Bytes} {o : Outcome RowData ε Bool}

private theorem tab (hf : FieldFrom ndebug fresh f) {entry : Option Nat}
    (h : ReadsRow ndebug cols fresh' (ps ++ [entry]) rest o) :
    ReadsRow ndebug cols fresh ps (f ++ Byte.tab :: rest) o := by
  rcases h with hundefined | ⟨d, hret, hcols, hrow⟩
  · exact .inl hundefined
  · rw [List.length_append, List.length_singleton] at hrow
    exact .inr ⟨d, hret, hcols, .tab ndebug hf hrow⟩

private theorem newline (hf : FieldFrom ndebug fresh f) (m : Option Bytes) (entry : Option Nat) (rest : Bytes) :
    ReadsRow (ε := ε) ndebug cols fresh ps (f ++ Byte.newline :: rest) (.ret true ⟨m, ps ++ [entry], cols⟩) := by
  refine .inr ⟨_, rfl, rfl, ?_⟩
  rw [List.length_append, List.length_singleton]
  exact .newline ndebug hf rest

private theorem escape {before : Bytes} {c : UInt8} (hfresh : ¬ fresh')
    (hbefore : ∀ b ∈ before, b ≠ nul ∧ b ∉ lineSpecial) (hc : (escapedByte c).isSome = true) (h : ReadsRow ndebug cols fresh' ps rest o) :
    ReadsRow ndebug cols fresh ps (before ++ backslash :: c :: rest) o := by
  rcases h with hundefined | ⟨d, hret, hcols, hrow⟩
  · exact .inl hundefined
  · exact .inr ⟨d, hret, hcols, .escape ndebug hfresh hbefore hc hrow⟩

end ReadsRow

/-- The mark of a null is read, if it is all there is to the field. -/
private theorem parseSwitchIn_null_reads {loop : Nat → Nat → Nat → Exec RowData ε Bool} {m before rest : Bytes}
    {delim : UInt8} {ps : List (Option Nat)} {read write begin : Nat}
    (hloop : ∀ p, ReadsRow ndebug cols (p = p) (ps ++ [none]) (m.drop p) (loop p p p ⟨some m, ps ++ [none], cols⟩))
    (hplain : StringText before) (hbegin : begin ≤ write)
    (hm : m.drop (read + before.length) = nullMarker ++ delim :: rest) :
    ReadsRow ndebug cols (write = begin) ps (before ++ nullMarker ++ delim :: rest)
      (parseSwitchIn ndebug loop (read + before.length) (write + before.length) begin ⟨some m, ps, cols⟩) := by
  rw [parseSwitchIn_null ndebug ps cols loop begin hm]
  by_cases halone : ndebug = true ∨ write + before.length = begin
  · have hfield : FieldFrom ndebug (write = begin) (before ++ nullMarker) := by
      refine .inr ⟨before, hplain, rfl, fun hb => ?_⟩
      obtain h | h := halone
      · rw [hb] at h
        cases h
      · exact ⟨by omega, List.length_eq_zero_iff.1 (by omega)⟩
    rw [if_pos halone]
    by_cases htab : delim = tab
    · subst htab
      rw [if_pos rfl]
      have hrest : m.drop (read + before.length + 3) = rest :=
        drop_add (show m.drop (read + before.length) = [backslash, 78, tab] ++ rest from hm)
      have hread := hloop (read + before.length + 3)
      rw [hrest] at hread
      exact hread.tab hfield
    · rw [if_neg htab]
      by_cases hnewline : delim = newline
      · subst hnewline
        rw [if_pos rfl]
        exact .newline hfield _ _ rest
      · rw [if_neg hnewline]
        exact .inl rfl
  · rw [if_neg halone]
    exact .inl rfl

/-- When the loop returns, then it has read fields up to the end of the line. -/
private theorem parseDataLoopIn_sound (fuel : Nat) (m : Bytes) (ps : List (Option Nat)) {read write begin : Nat}
    (hwrite : write ≤ read) (hbegin : begin ≤ write) :
    ReadsRow ndebug cols (write = begin) ps (m.drop read)
      ((parseDataLoopIn ndebug fuel read write begin : Exec RowData ε Bool) ⟨some m, ps, cols⟩) := by
  induction fuel generalizing m ps read write begin with
  | zero => exact .inl rfl
  | succ fuel ih =>
    rcases parseDataLoopIn_cases (ε := ε) ndebug cols m ps fuel read write begin with
      hundefined | ⟨before, c, rest, hm, hc, hbefore⟩
    · exact .inl hundefined
    · obtain ⟨m', hm', hfound⟩ := parseDataLoopIn_found (ε := ε) ndebug ps cols hbefore hc hm hwrite fuel begin
      have hplain : StringText before := .of_plain hbefore
      have hpos : write + before.length ≤ read + before.length := Nat.add_le_add_right hwrite _
      rw [hfound, hm]
      obtain rfl | rfl | rfl : c = tab ∨ c = backslash ∨ c = newline := by simpa [lineSpecial] using hc
      · obtain ⟨m'', hm'', hswitch⟩ := parseSwitchIn_tab ndebug ps cols (parseDataLoopIn (ε := ε) ndebug fuel) begin hm'
          hpos
        rw [hswitch, ← hm'']
        exact .tab (.inl hplain) (ih m'' (ps ++ [some begin]) (le_refl _) (le_refl _))
      · cases rest with
        | nil => exact .inl (parseSwitchIn_end ndebug ps cols _ begin hm')
        | cons c rest =>
          by_cases hnull : c = 78
          · subst hnull
            cases rest with
            | nil => exact .inl (parseSwitchIn_null_end ndebug ps cols _ begin hm')
            | cons delim rest =>
              have hline : before ++ backslash :: 78 :: delim :: rest = before ++ nullMarker ++ delim :: rest := by
                rw [List.append_assoc]
                rfl
              rw [hline]
              exact parseSwitchIn_null_reads ndebug cols (fun p => ih m' (ps ++ [none]) (le_refl p) (le_refl p)) hplain
                hbegin hm'
          · cases hletter : escapedByte c with
            | none => exact .inl (parseSwitchIn_unknown ndebug ps cols _ begin hnull hletter hm')
            | some b =>
              obtain ⟨m'', hm'', hswitch⟩ := parseSwitchIn_escape ndebug ps cols (parseDataLoopIn (ε := ε) ndebug fuel)
                begin hnull hletter hm' hpos
              have hknown : (escapedByte c).isSome = true := by rw [hletter]; rfl
              rw [hswitch, ← hm'']
              -- something of the field has been written now
              have hread := ih m'' ps (show write + before.length + 1 ≤ read + before.length + 2 by omega)
                (show begin ≤ write + before.length + 1 by omega)
              exact .escape (by omega) hbefore hknown hread
      · obtain ⟨m'', hswitch⟩ := parseSwitchIn_newline ndebug ps cols (parseDataLoopIn (ε := ε) ndebug fuel) begin hm'
          hpos
        rw [hswitch]
        by_cases hcols : ndebug = true ∨ ps.length + 1 = cols
        · rw [if_pos hcols]
          exact .newline (.inl hplain) _ _ rest
        · rw [if_neg hcols]
          exact .inl rfl

end Sound

/-! ### A row is read -/

section Complete

variable (ndebug : Bool) (cols : Nat)

/-- The loop passes the escapes, and what is left stands for itself. -/
private theorem StringText.loop {s : Bytes} (hs : StringText s) {m y : Bytes} (ps : List (Option Nat))
    {read write : Nat} (hm : m.drop read = s ++ y) (hwrite : write ≤ read) (begin fuel : Nat)
    (hfuel : (s ++ y).length ≤ fuel) :
    ∃ (last m' : Bytes) (read' write' fuel' : Nat), (∀ b ∈ last, b ≠ nul ∧ b ∉ lineSpecial) ∧
      m'.drop read' = last ++ y ∧ write' ≤ read' ∧ (last ++ y).length ≤ fuel' ∧ (s = [] → last = [] ∧ write' = write) ∧
      (parseDataLoopIn ndebug fuel read write begin : Exec RowData ε Bool) ⟨some m, ps, cols⟩ =
        parseDataLoopIn ndebug fuel' read' write' begin ⟨some m', ps, cols⟩ := by
  induction hn : s.length using Nat.strong_induction_on generalizing s m read write fuel with
  | _ n ih =>
    subst hn
    rcases hs.split with hplain | ⟨before, c, rest, rfl, hbefore, hc, hrest⟩
    · exact ⟨s, m, read, write, fuel, hplain, hm, hwrite, hfuel, fun h => ⟨h, rfl⟩, rfl⟩
    · obtain ⟨fuel, rfl⟩ : ∃ n, fuel = n + 1 := ⟨fuel - 1, by simp at hfuel; omega⟩
      obtain ⟨b, hb⟩ := Option.isSome_iff_exists.1 hc
      have hnull : c ≠ 78 := by
        rintro rfl
        cases hb
      rw [List.append_assoc, List.cons_append, List.cons_append] at hm hfuel
      obtain ⟨m', hm', hfound⟩ := parseDataLoopIn_found (ε := ε) ndebug ps cols hbefore (show backslash ∈ lineSpecial by
        decide) hm hwrite fuel begin
      obtain ⟨m'', hm'', hswitch⟩ := parseSwitchIn_escape ndebug ps cols (parseDataLoopIn (ε := ε) ndebug fuel) begin
        hnull hb hm' (Nat.add_le_add_right hwrite _)
      obtain ⟨last, m₁, read', write', fuel', hlast, hm₁, hwrite', hfuel', -, hloop⟩ := ih rest.length
        (by simp; omega) hrest hm'' (show write + before.length + 1 ≤ read + before.length + 2 by omega) fuel
        (by simp at hfuel ⊢; omega) rfl
      exact ⟨last, m₁, read', write', fuel', hlast, hm₁, hwrite', hfuel', fun h => absurd h (by simp),
        hfound.trans (hswitch.trans hloop)⟩

/-- A field is read up to its end. -/
private theorem FieldText.loop {f : Bytes} (hf : FieldText ndebug f) {m rest : Bytes} {delim : UInt8}
    (ps : List (Option Nat)) (hdelim : delim = tab ∨ delim = newline ∧ ps.length + 1 = cols) {p : Nat}
    (hm : m.drop p = f ++ delim :: rest) (fuel : Nat) (hfuel : (f ++ delim :: rest).length ≤ fuel) :
    ∃ (m' : Bytes) (q : Nat) (x : Option Nat) (fuel' : Nat), (delim = tab → m'.drop q = rest) ∧ rest.length ≤ fuel' ∧
      (parseDataLoopIn ndebug fuel p p p : Exec RowData ε Bool) ⟨some m, ps, cols⟩ =
        if delim = tab then parseDataLoopIn ndebug fuel' q q q ⟨some m', ps ++ [x], cols⟩
        else .ret true ⟨some m', ps ++ [x], cols⟩ := by
  rcases hf with hs | ⟨s, hs, rfl, halone⟩
  · obtain ⟨last, m₁, read, write, fuel₁, hlast, hm₁, hwrite, hfuel₁, -, hloop⟩ :=
      StringText.loop (ε := ε) ndebug cols hs ps hm (le_refl p) p fuel hfuel
    obtain ⟨fuel₁, rfl⟩ : ∃ n, fuel₁ = n + 1 := ⟨fuel₁ - 1, by simp at hfuel₁; omega⟩
    have hspecial : delim ∈ lineSpecial := by rcases hdelim with rfl | ⟨rfl, -⟩ <;> decide
    obtain ⟨m₂, hm₂, hfound⟩ := parseDataLoopIn_found (ε := ε) ndebug ps cols hlast hspecial hm₁ hwrite fuel₁ p
    have hrest : rest.length ≤ fuel₁ := by
      simp at hfuel₁
      omega
    rcases hdelim with rfl | ⟨rfl, hcols⟩
    · obtain ⟨m₃, hm₃, hswitch⟩ := parseSwitchIn_tab ndebug ps cols (parseDataLoopIn (ε := ε) ndebug fuel₁) p hm₂
        (Nat.add_le_add_right hwrite _)
      exact ⟨m₃, _, some p, fuel₁, fun _ => hm₃, hrest, (hloop.trans (hfound.trans hswitch)).trans (if_pos rfl).symm⟩
    · obtain ⟨m₃, hswitch⟩ := parseSwitchIn_newline ndebug ps cols (parseDataLoopIn (ε := ε) ndebug fuel₁) p hm₂
        (Nat.add_le_add_right hwrite _)
      rw [if_pos (.inr hcols)] at hswitch
      exact ⟨m₃, 0, some p, fuel₁, fun h => absurd h (by decide), hrest, hloop.trans (hfound.trans hswitch)⟩
  · rw [List.append_assoc] at hm hfuel
    obtain ⟨last, m₁, read, write, fuel₁, hlast, hm₁, hwrite, hfuel₁, hempty, hloop⟩ :=
      StringText.loop (ε := ε) ndebug cols hs ps hm (le_refl p) p fuel hfuel
    obtain ⟨fuel₁, rfl⟩ : ∃ n, fuel₁ = n + 1 := ⟨fuel₁ - 1, by simp [nullMarker] at hfuel₁; omega⟩
    obtain ⟨m₂, hm₂, hfound⟩ := parseDataLoopIn_found (ε := ε) ndebug ps cols hlast
      (show backslash ∈ lineSpecial by decide) hm₁ hwrite fuel₁ p
    have hrest : rest.length ≤ fuel₁ := by
      simp [nullMarker] at hfuel₁
      omega
    have hbegin : ndebug = true ∨ write + last.length = p := by
      cases ndebug with
      | true => exact .inl rfl
      | false =>
        obtain ⟨rfl, rfl⟩ := hempty (halone rfl)
        exact .inr rfl
    have hswitch : parseSwitchIn ndebug (parseDataLoopIn (ε := ε) ndebug fuel₁) (read + last.length)
        (write + last.length) p ⟨some m₂, ps, cols⟩ = _ := parseSwitchIn_null ndebug ps cols _ p hm₂
    rw [if_pos hbegin] at hswitch
    refine ⟨m₂, read + last.length + 3, none, fuel₁, ?_, hrest, hloop.trans (hfound.trans (hswitch.trans ?_))⟩
    · rintro rfl
      exact drop_add (show m₂.drop (read + last.length) = [backslash, 78, tab] ++ rest from hm₂)
    · rcases hdelim with rfl | ⟨rfl, -⟩ <;> rfl

/-- As many fields as were announced are read, and each makes an entry. -/
private theorem parseDataLoopIn_complete {fs : List Bytes} (hne : fs ≠ []) (hfs : ∀ f ∈ fs, FieldText ndebug f)
    {m rest : Bytes} (ps : List (Option Nat)) (hcols : ps.length + fs.length = cols) {p : Nat}
    (hm : m.drop p = [tab].intercalate fs ++ newline :: rest) (fuel : Nat)
    (hfuel : ([tab].intercalate fs ++ newline :: rest).length ≤ fuel) :
    ∃ d : RowData, (parseDataLoopIn ndebug fuel p p p : Exec RowData ε Bool) ⟨some m, ps, cols⟩ = .ret true d ∧
      d.data.length = cols ∧ d.columns = cols := by
  induction fs generalizing m ps p fuel with
  | nil => exact absurd rfl hne
  | cons f fs ih =>
    obtain ⟨hf, hfs'⟩ := List.forall_mem_cons.1 hfs
    cases fs with
    | nil =>
      rw [List.intercalate_singleton] at hm hfuel
      obtain ⟨m', q, x, fuel', -, -, hloop⟩ := FieldText.loop (ε := ε) ndebug cols hf ps (.inr ⟨rfl, hcols⟩) hm fuel hfuel
      refine ⟨_, hloop, ?_, rfl⟩
      simpa using hcols
    | cons g fs =>
      rw [List.intercalate_cons_cons, List.append_assoc, List.append_assoc, List.singleton_append] at hm hfuel
      obtain ⟨m', q, x, fuel', hq, hfuel', hloop⟩ := FieldText.loop (ε := ε) ndebug cols hf ps (.inl rfl) hm fuel hfuel
      obtain ⟨d, hret, hd⟩ := ih (List.cons_ne_nil g fs) hfs' (ps ++ [x]) (by simp at hcols ⊢; omega) (hq rfl) fuel' hfuel'
      rw [if_pos rfl] at hloop
      exact ⟨d, hloop.trans hret, hd⟩

end Complete

/-- What `parse_data` makes of a line, if it makes as many entries as there are columns. -/
theorem parseDataIn_iff (ndebug : Bool) (columns : Nat) (line : Bytes) (ps : List (Option Nat)) :
    (∃ d : RowData, (parseDataIn ndebug : Exec RowData ε Bool) ⟨some (cString line), ps, columns⟩ = .ret true d ∧
      d.data.length = columns ∧ d.columns = columns) ↔ Decodes ndebug columns line := by
  show (∃ d : RowData, (parseDataLoopIn ndebug (cString line).length 0 0 0 : Exec RowData ε Bool)
    ⟨some (cString line), [], columns⟩ = .ret true d ∧ _) ↔ _
  constructor
  · rintro ⟨d, hret, hentries, -⟩
    rcases parseDataLoopIn_sound (ε := ε) ndebug columns (cString line).length (cString line) [] (le_refl 0) (le_refl 0)
      with hundefined | ⟨d', hret', -, f, fs, rest, hline, hf, hfs, htotal⟩
    · rw [hundefined] at hret
      cases hret
    · obtain ⟨-, rfl⟩ := Outcome.ret.inj (hret.symm.trans hret')
      have hcolumns : (f :: fs).length = columns := by
        rw [← hentries, htotal]
        simp
      have hends : rest ≠ [] := by
        rintro rfl
        have hlast := congrArg List.getLast? hline
        simp only [cString, List.drop_zero, List.getLast?_append, List.getLast?_singleton, Option.some_or] at hlast
        exact absurd (Option.some.inj hlast) (by decide)
      have hdrop := congrArg List.dropLast hline
      rw [List.drop_zero, cString, List.dropLast_concat, List.dropLast_append_of_ne_nil (List.cons_ne_nil _ _),
        List.dropLast_cons_of_ne_nil hends] at hdrop
      exact ⟨f :: fs, rest.dropLast, List.cons_ne_nil f fs, hcolumns, List.forall_mem_cons.2 ⟨hf.text, hfs⟩, hdrop⟩
  · rintro ⟨fs, rest, hne, hcolumns, hfs, rfl⟩
    have hmemory : cString ([tab].intercalate fs ++ newline :: rest) =
        [tab].intercalate fs ++ newline :: (rest ++ [nul]) := by simp [cString]
    rw [hmemory]
    exact parseDataLoopIn_complete ndebug columns hne hfs [] (by simpa using hcolumns) rfl _ (le_refl _)

/-- The decoder does not throw, and it does not change the number of columns. -/
theorem parseDataIn_cases (ndebug : Bool) (columns : Nat) (line : Bytes) (ps : List (Option Nat)) :
    (parseDataIn ndebug : Exec RowData ε Bool) ⟨some (cString line), ps, columns⟩ = .undefined ∨
      ∃ d : RowData, (parseDataIn ndebug : Exec RowData ε Bool) ⟨some (cString line), ps, columns⟩ = .ret true d ∧
        d.columns = columns := by
  rcases parseDataLoopIn_sound (ε := ε) ndebug columns (cString line).length (cString line) [] (le_refl 0) (le_refl 0)
    with hundefined | ⟨d, hret, hcolumns, -⟩
  · exact .inl hundefined
  · exact .inr ⟨d, hret, hcolumns⟩

/-! ### Rows of a table reader -/

section Reader

variable {DB : Type} (ndebug : Bool) (W : World) (b : Nat)

/-- `get_row` returns a row with an entry for each of its columns, or it throws. -/
def RowSafe (r : Reading DB) : Prop :=
  wp False (getRowIn ndebug W b) (fun more r' => more = true ∧ r'.row.data.length = r'.row.columns ∧
    ∀ k < r'.row.columns, ∃ p, (⟨⟨0, r'.row.columns⟩, r'.row⟩ : View).get k = Pure.pure p) (fun _ _ => True) r

/-- So many calls of `get_row` have returned a row. -/
inductive ReadsRows (r : Reading DB) : Nat → Reading DB → Prop where
  | start : ReadsRows r 0 r
  | row {n : Nat} {r₁ r₂ : Reading DB} :
    ReadsRows r n r₁ → getRowIn ndebug W b r₁ = .ret true r₂ → ReadsRows r (n + 1) r₂

variable {b} {r : Reading DB} {columns : Nat} {line : Chunk} {lines : List Chunk} {answer : PGresult}

/-- A line that has been received is decoded. -/
private theorem getRowIn_received (h : r.state.Copying b columns (line :: lines) answer)
    (hread : Exec.Returns (getRawData W b) r.state) : ∃ s' : State DB, s'.Copying b columns lines answer ∧
      getRowIn ndebug W b r = Exec.zoom Reading.row (fun d r => { r with row := d }) (parseDataIn ndebug)
        ⟨s', ⟨some (cString line), r.row.data, columns⟩⟩ := by
  obtain ⟨v, s', hret, -⟩ := exists_ret hread
  obtain ⟨rfl, hcopying, ⟨k, hk, hbuffer, hcolumns⟩, -⟩ := wp_ret (wp_getRawData_row h) hret
  refine ⟨s', hcopying, ?_⟩
  have hraw : onState (getRawData W b) r = .ret (some line) { r with state := s' } := zoom_ret _ hret
  have hderef : onState (derefBulk b) { r with state := s' } = .ret k { r with state := s' } := by
    unfold onState Exec.zoom derefBulk
    rw [hk]
  rw [getRowIn, bind_ret hraw, bind_ret hderef, hbuffer, hcolumns]
  rfl

/-- Where the line is not received, `get_row` throws what `get_raw_data` throws. -/
private theorem getRowIn_throws (h : r.state.Copying b columns (line :: lines) answer)
    (hread : ¬ Exec.Returns (getRawData W b) r.state) : ∃ e r', getRowIn ndebug W b r = .throw e r' := by
  rcases ret_or_throw (wp_getRawData_row (W := W) h) with ⟨v, s', hraw, _⟩ | ⟨e, s', hraw, _⟩
  · exact absurd (wp_of_ret hraw trivial) hread
  · have hthrow : onState (getRawData W b) r = .throw e { r with state := s' } := zoom_throw _ hraw
    exact ⟨e, _, bind_throw hthrow _⟩

/-- With an entry for each column, every access is one to an entry. -/
private theorem get_of_entries {d : RowData} (h : d.data.length = d.columns) {k : Nat} (hk : k < d.columns) :
    ∃ p, (⟨⟨0, d.columns⟩, d⟩ : View).get k = Pure.pure p := by
  have hlt : 0 + k < d.data.length := by omega
  refine ⟨d.data[0 + k], ?_⟩
  rw [View.get, View.ensureColumn, if_neg (Nat.not_le.2 hk), List.getElem?_eq_getElem hlt]
  rfl

/-- A received line decides alone. -/
theorem rowSafe_iff_decodes (h : r.state.Copying b columns (line :: lines) answer) :
    RowSafe ndebug W b r ↔ (Exec.Returns (getRawData W b) r.state → Decodes ndebug columns line) := by
  by_cases hread : Exec.Returns (getRawData W b) r.state
  · obtain ⟨s', -, hrow⟩ := getRowIn_received ndebug W h hread
    have hparse : RowSafe ndebug W b r ↔ wp False (parseDataIn ndebug : Exec RowData Exn Bool)
        (fun more d => more = true ∧ d.data.length = d.columns ∧
          ∀ k < d.columns, ∃ p, (⟨⟨0, d.columns⟩, d⟩ : View).get k = Pure.pure p)
        (fun _ _ => True) ⟨some (cString line), r.row.data, columns⟩ := by
      unfold RowSafe wp
      rw [hrow]
      exact wp_zoom Reading.row (fun d r => { r with row := d }) (parseDataIn ndebug)
    rw [hparse, ← parseDataIn_iff (ε := Exn) ndebug columns line r.row.data, forall_prop_of_true hread]
    unfold wp
    rcases parseDataIn_cases (ε := Exn) ndebug columns line r.row.data with hundefined | ⟨d, hret, hcolumns⟩
    · rw [hundefined]
      refine iff_of_false id ?_
      rintro ⟨d, hret, -⟩
      cases hret
    · rw [hret]
      constructor
      · rintro ⟨-, hentries, -⟩
        exact ⟨d, rfl, hentries.trans hcolumns, hcolumns⟩
      · rintro ⟨d', hret', hentries, -⟩
        obtain ⟨-, rfl⟩ := Outcome.ret.inj hret'
        have hboth : d.data.length = d.columns := hentries.trans hcolumns.symm
        exact ⟨rfl, hboth, fun k hk => get_of_entries hboth hk⟩
  · obtain ⟨e, r', hthrow⟩ := getRowIn_throws ndebug W h hread
    unfold RowSafe wp
    rw [hthrow]
    exact iff_of_true trivial fun hret => absurd hret hread

/-- The next lines are there after each row that was read. -/
theorem ReadsRows.copying {r₁ : Reading DB} {n : Nat} (h : ReadsRows ndebug W b r n r₁)
    (hr : r.state.Copying b columns lines answer) (hn : n ≤ lines.length) :
    r₁.state.Copying b columns (lines.drop n) answer := by
  induction h with
  | start => exact hr
  | @row n r₁ r₂ _ hrow ih =>
    have hcopying := ih (by omega)
    rw [List.drop_eq_getElem_cons (show n < lines.length by omega)] at hcopying
    by_cases hread : Exec.Returns (getRawData W b) r₁.state
    · obtain ⟨s', hs', heq⟩ := getRowIn_received ndebug W hcopying hread
      have hstate : wp True (getRowIn ndebug W b) (fun _ r' => r'.state = s') (fun _ _ => True) r₁ := by
        unfold wp
        rw [heq]
        refine (wp_zoom Reading.row (fun d r => { r with row := d }) (parseDataIn ndebug)).2 ?_
        exact wp_trivial (fun _ _ => rfl) fun _ _ => trivial
      rw [wp_ret hstate hrow]
      exact hs'
    · obtain ⟨e, r', hthrow⟩ := getRowIn_throws ndebug W hcopying hread
      rw [hthrow] at hrow
      cases hrow

variable {s₀ s : State DB} {o g : Addr} {u : Statement DB} {completes : Bool}

/-- At every row of every COPY TO: `get_row` is safe if and only if its line, once it has been received, consists of as
many fields as the server has announced columns. -/
theorem row_safe_iff (hs₀ : Reachable W s₀) (hl : (Call.tableReader o g b u).Legal s₀)
    (hu : u.body = .copyTo columns lines completes) (hctor : tableReader W o g b u s₀ = .ret () s) (d : RowData)
    {n : Nat} (hreads : ReadsRows ndebug W b ⟨s, d⟩ n r) (hline : lines[n]? = some line) :
    RowSafe ndebug W b r ↔ (Exec.Returns (getRawData W b) r.state → Decodes ndebug columns line) := by
  have hcopying := copying_of_tableReader hs₀ hl hu hctor
  obtain ⟨hn, hget⟩ := List.getElem?_eq_some_iff.1 hline
  have hrest := hreads.copying ndebug W hcopying hn.le
  rw [List.drop_eq_getElem_cons hn, hget] at hrest
  exact rowSafe_iff_decodes ndebug W hrest

/-- The second row of two, of which the first has been read. -/
theorem row_safe_second_row :
    ∃ (s : State Unit) (r : Reading Unit), ReadsRows false .calm 0 ⟨s, ⟨none, [], 0⟩⟩ 1 r ∧
      (RowSafe false .calm 0 r ↔ (Exec.Returns (getRawData .calm 0) r.state →
        Decodes false 2 (ascii "b\\tc\t\\N\n"))) := by
  obtain ⟨s, hctor, r, hrow⟩ : ∃ s, tableReader .calm 0 1 0 ⟨"COPY t TO STDOUT", .copyTo 2 [ascii "a\t\n",
      ascii "b\\tc\t\\N\n"] true⟩ (State.directOnly () 0) = .ret () s ∧
      ∃ r, getRowIn false .calm 0 ⟨s, ⟨none, [], 0⟩⟩ = .ret true r := ⟨_, rfl, _, rfl⟩
  have hreads : ReadsRows false .calm 0 ⟨s, ⟨none, [], 0⟩⟩ 1 r := .row .start hrow
  exact ⟨s, r, hreads, row_safe_iff false .calm (.directOnly () 0 trivial) (by decide) rfl hctor _ hreads rfl⟩

/-- A byte string as the server writes it in a CSV file. -/
theorem csv_row_unsafe :
    ∃ (s₀ s : State Unit), Reachable .calm s₀ ∧
      tableReader .calm 0 1 0 ⟨"COPY t TO STDOUT (FORMAT csv)", .copyTo 1 [ascii "\\x41\n"] true⟩ s₀ = .ret () s ∧
      ∀ ndebug, ¬ RowSafe ndebug .calm 0 ⟨s, ⟨none, [], 0⟩⟩ := by
  refine ⟨_, _, .directOnly () 0 trivial, rfl, fun ndebug => ?_⟩
  cases ndebug <;> exact id

end Reader

end TableReader

end TaoPQ
