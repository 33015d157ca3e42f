import TaoPQ.ArrayResults
import TaoPQ.ColumnTypes

/-!
# Columns of arrays

Vectors of the types with one column, and of optionals of them, nested as deep as the server allows.  The elements are
spelled and read by the traits of their type, whose `from` can throw.  An array that the server takes is rectangular,
and it comes back when its elements do (`ArrayColumn.stored`).  With these, rows of all types are inserted and read
again (`row_round_trip`).
-/

namespace TaoPQ

open Byte CString Exec

/-! ### Arrays of the server -/

namespace ArrayValue

mutual

/-- The lengths at each depth, if arrays at the same depth have the same length. -/
def dimensions : ArrayValue → Option (List Nat)
  | element _ => some []
  | array vs => dimensionsOf vs

def dimensionsOf : List ArrayValue → Option (List Nat)
  | [] => some [0]
  | [v] => (dimensions v).map (1 :: ·)
  | v :: w :: vs => do
    let ns ← dimensions v
    match ← dimensionsOf (w :: vs) with
    | n :: ms => if ns = ms then some ((n + 1) :: ms) else none
    | [] => none

end

mutual

/-- Each element goes through the functions of its type. -/
def mapElements (column : Bytes → Option Bytes) : ArrayValue → Option ArrayValue
  | element none => some (element none)
  | element (some s) => (column s).map fun t => element (some t)
  | array vs => (mapElementsOf column vs).map array

def mapElementsOf (column : Bytes → Option Bytes) : List ArrayValue → Option (List ArrayValue)
  | [] => some []
  | v :: vs => do
    let w ← mapElements column v
    let ws ← mapElementsOf column vs
    return w :: ws

end

mutual

/-- The text of an array with the default lower bounds. -/
def text : ArrayValue → Bytes
  | element x => ArrayOutput.element x
  | array vs => arrayLiteral (textOf vs)

def textOf : List ArrayValue → List Bytes
  | [] => []
  | v :: vs => text v :: textOf vs

end

end ArrayValue

/-- The number of dimensions that an array can have. -/
def maxDimensions : Nat := 6

/-- What comes back of a text that is stored in a column of arrays.  There is only one array without elements. -/
def arrayStore (column : Bytes → Option Bytes) (s : Bytes) : Option Bytes := do
  let v ← ArrayInput.parse s
  let ns ← v.dimensions
  let w ← v.mapElements column
  if maxDimensions < ns.length then none
  else if 0 ∈ ns then some (arrayLiteral [])
  else some w.text

/-! ### Reading arrays -/

section Reading

variable {α : Type}

/-- The exceptions of the parser, among those of the elements. -/
def raising (x : Exec Bytes InvalidArgument α) : Exec Bytes LeafError α := fun m =>
  match x m with
  | .ret a m' => .ret a m'
  | .throw e m' => .throw (.invalidArgument (ascii e.what)) m'
  | .undefined => .undefined

/-- The value, or the exception that is thrown instead. -/
def ofExcept : Except LeafError α → Exec Bytes LeafError α
  | .ok a => return a
  | .error e => Exec.throw e

/-- `internal::parse` for an element, the `from` of which can throw. -/
def parseLeaf (t : LeafResult α) : Exec Bytes LeafError α := do
  let c ← CString.deref
  if c = quote then do
    advance 1
    let input ← raising parseQuoted
    ofExcept (t.fromText (stringAt (cString input)))
  else do
    let input ← raising parseUnquoted
    if input = ascii "NULL" then
      match t.null with
      | some v => return v
      | none => Exec.throw (.invalidArgument (ascii "unexpected NULL value"))
    else ofExcept (t.fromText (stringAt (cString input)))

/-- The loop of `internal::parse` for a container. -/
def parseLeavesLoop (parse : Exec Bytes LeafError α) : Nat → List α → Exec Bytes LeafError (List α)
  | 0, _ => Exec.undefined
  | fuel + 1, container => do
    let v ← parse
    let c ← CString.deref
    advance 1
    match c with
    | comma | semicolon => parseLeavesLoop parse fuel (container ++ [v])
    | closeBrace => return container ++ [v]
    | _ => Exec.throw (.invalidArgument (ascii "expected ',', ';', or '\x7d'"))

/-- `internal::parse` for a container. -/
def parseLeaves (parse : Exec Bytes LeafError α) : Exec Bytes LeafError (List α) := do
  let c ← CString.deref
  advance 1
  if c ≠ openBrace then Exec.throw (.invalidArgument (ascii "expected '\x7b'"))
  else do
    let c ← CString.deref
    if c = closeBrace then do
      advance 1
      return []
    else do
      let m ← Exec.get
      parseLeavesLoop parse m.length []

/-- `internal::parse` for vectors nested `d` deep. -/
def parseNested (t : LeafResult α) : (d : Nat) → Exec Bytes LeafError (Vectors α d)
  | 0 => parseLeaf t
  | d + 1 => parseLeaves (parseNested t d)

/-- `result_traits< T >::from` for vectors nested `d + 1` deep. -/
def nestedFrom (t : LeafResult α) (d : Nat) : Exec Bytes LeafError (Vectors α (d + 1)) := do
  let container ← parseNested t (d + 1)
  let c ← CString.deref
  if c ≠ nul then Exec.throw (.invalidArgument (ascii "unexpected additional data"))
  else return container

end Reading

/-! ### Strings as elements -/

section Strings

variable {α β : Type}

/-- The type of an element whose `from` does not throw. -/
def LeafResult.ofTraits (t : ResultTraits α) : LeafResult α := ⟨t.null, fun s => .ok (t.fromText (cString s))⟩

theorem raising_bind (x : Exec Bytes InvalidArgument α) (f : α → Exec Bytes InvalidArgument β) :
    raising (x >>= f) = raising x >>= fun a => raising (f a) := by
  funext m
  show raising (Exec.bind x f) m = Exec.bind (raising x) (fun a => raising (f a)) m
  cases h : x m <;> simp only [raising, Exec.bind, h]

theorem raising_deref : raising CString.deref = CString.deref := by
  funext m
  cases m <;> rfl

theorem raising_advance (n : Nat) : raising (advance n) = advance n := by
  funext m
  unfold raising advance
  by_cases h : n ≤ m.length
  · simp only [if_pos h]
  · simp only [if_neg h]

theorem raising_ite (c : Prop) [Decidable c] (x y : Exec Bytes InvalidArgument α) :
    raising (if c then x else y) = if c then raising x else raising y := apply_ite raising c x y

variable {t : ResultTraits α}

private theorem parseLeaf_ofTraits (ht : ∀ m, t.fromText (cString (stringAt m)) = t.fromText m) :
    parseLeaf (.ofTraits t) = raising (parseElement t) := by
  have hof : ∀ input : Bytes, ofExcept ((LeafResult.ofTraits t).fromText (stringAt (cString input))) =
      raising (Pure.pure (t.fromText (cString input))) := by
    intro input
    show ofExcept (.ok (t.fromText (cString (stringAt (cString input))))) = _
    rw [ht]
    rfl
  unfold parseLeaf parseElement
  rw [raising_bind, raising_deref]
  refine congrArg _ (funext fun c => ?_)
  rw [raising_ite]
  by_cases hc : c = quote
  · rw [if_pos hc, if_pos hc, raising_bind, raising_advance]
    refine congrArg _ (funext fun _ => ?_)
    rw [raising_bind]
    exact congrArg _ (funext hof)
  · rw [if_neg hc, if_neg hc, raising_bind]
    refine congrArg _ (funext fun input => ?_)
    rw [raising_ite, hof]
    refine if_congr Iff.rfl ?_ rfl
    show _ = raising _
    unfold LeafResult.ofTraits
    cases t.null <;> rfl

private theorem raising_delimiter (c : UInt8) (x y z : Exec Bytes InvalidArgument α) :
    raising
        (match c with
        | comma | semicolon => x
        | closeBrace => y
        | _ => z) =
      match c with
      | comma | semicolon => raising x
      | closeBrace => raising y
      | _ => raising z := by
  split <;> rfl

private theorem parseLeavesLoop_raising (parse : Exec Bytes InvalidArgument α) (fuel : Nat) (container : List α) :
    parseLeavesLoop (raising parse) fuel container = raising (parseLoop parse fuel container) := by
  induction fuel generalizing container with
  | zero => rfl
  | succ fuel ih =>
    rw [parseLeavesLoop, parseLoop, raising_bind]
    refine congrArg _ (funext fun v => ?_)
    rw [raising_bind, raising_deref]
    refine congrArg _ (funext fun c => ?_)
    rw [raising_bind, raising_advance]
    refine congrArg _ (funext fun _ => ?_)
    rw [ih]
    exact (raising_delimiter c (parseLoop parse fuel (container ++ [v])) (return container ++ [v])
      (Exec.throw ⟨"expected ',', ';', or '\x7d'"⟩)).symm

private theorem parseLeaves_raising (parse : Exec Bytes InvalidArgument α) :
    parseLeaves (raising parse) = raising (parseArray parse) := by
  unfold parseLeaves parseArray
  rw [raising_bind, raising_deref]
  refine congrArg _ (funext fun c => ?_)
  rw [raising_bind, raising_advance]
  refine congrArg _ (funext fun _ => ?_)
  rw [raising_ite, raising_bind, raising_deref]
  refine if_congr Iff.rfl rfl (congrArg _ (funext fun c => ?_))
  rw [raising_ite, raising_bind, raising_bind, raising_advance]
  refine if_congr Iff.rfl rfl (congrArg _ (funext fun m => ?_))
  exact parseLeavesLoop_raising parse m.length []

private theorem parseNested_ofTraits (ht : ∀ m, t.fromText (cString (stringAt m)) = t.fromText m) (d : Nat) :
    parseNested (.ofTraits t) d = raising (parseVectors t d) := by
  induction d with
  | zero => exact parseLeaf_ofTraits ht
  | succ d ih =>
    rw [parseNested, ih]
    exact parseLeaves_raising _

/-- For elements whose `from` does not throw, this is `arrayFrom`. -/
theorem nestedFrom_ofTraits (ht : ∀ m, t.fromText (cString (stringAt m)) = t.fromText m) (d : Nat) :
    nestedFrom (.ofTraits t) d = raising (arrayFrom t d) := by
  unfold nestedFrom arrayFrom
  rw [parseNested_ofTraits ht, raising_bind]
  refine congrArg _ (funext fun container => ?_)
  rw [raising_bind, raising_deref]
  refine congrArg _ (funext fun c => ?_)
  rw [raising_ite]
  rfl

end Strings

/-! ### Reading what the server renders -/

section Rendered

variable {α : Type}

/-- Up to the delimiter behind it, the text is read as the value. -/
def ReadsAs (parse : Exec Bytes LeafError α) (text : Bytes) (v : α) : Prop :=
  ∀ delim rest, delim = comma ∨ delim = closeBrace → parse (text ++ delim :: rest) = .ret v (delim :: rest)

section Loop

variable {parse : Exec Bytes LeafError α} {text : Bytes} {v : α} (h : ReadsAs parse text v) (rest : Bytes)
  (fuel : Nat) (container : List α)

include h

private theorem parseLeavesLoop_comma : parseLeavesLoop parse (fuel + 1) container (text ++ comma :: rest) =
    parseLeavesLoop parse fuel (container ++ [v]) rest := by
  rw [parseLeavesLoop, bind_ret (h comma rest (.inl rfl)), bind_ret (deref_cons comma rest),
    bind_ret (advance_one comma rest)]
  rfl

private theorem parseLeavesLoop_closeBrace : parseLeavesLoop parse (fuel + 1) container (text ++ closeBrace :: rest) =
    .ret (container ++ [v]) rest := by
  rw [parseLeavesLoop, bind_ret (h closeBrace rest (.inr rfl)), bind_ret (deref_cons closeBrace rest),
    bind_ret (advance_one closeBrace rest)]
  rfl

end Loop

private theorem parseLeavesLoop_elements {parse : Exec Bytes LeafError α} {ts : List Bytes} {vs : List α}
    (h : List.Forall₂ (ReadsAs parse) ts vs) (hne : ts ≠ []) (rest : Bytes) (fuel : Nat) (container : List α)
    (hfuel : ([comma].intercalate ts ++ closeBrace :: rest).length ≤ fuel) :
    parseLeavesLoop parse fuel container ([comma].intercalate ts ++ closeBrace :: rest) =
      .ret (container ++ vs) rest := by
  induction h generalizing fuel container with
  | nil => exact absurd rfl hne
  | @cons t v ts vs ht hts ih =>
    obtain ⟨fuel, rfl⟩ : ∃ n, fuel = n + 1 := ⟨fuel - 1, by simp at hfuel; omega⟩
    cases hts with
    | nil =>
      rw [List.intercalate_singleton]
      exact parseLeavesLoop_closeBrace ht rest fuel container
    | @cons u w us ws hu hus =>
      rw [List.intercalate_cons_cons, List.append_assoc, List.append_assoc, List.singleton_append] at hfuel ⊢
      have hrest := ih (List.cons_ne_nil u us) fuel (container ++ [v]) (by simp at hfuel ⊢; omega)
      rw [parseLeavesLoop_comma ht, hrest, List.append_assoc]
      rfl

/-- An array is read as its elements are. -/
private theorem parseLeaves_literal {parse : Exec Bytes LeafError α} {ts : List Bytes} {vs : List α}
    (h : List.Forall₂ (ReadsAs parse) ts vs) (hbegins : ∀ t ∈ ts, Begins t) (rest : Bytes) :
    parseLeaves parse (arrayLiteral ts ++ rest) = .ret vs rest := by
  have hopen : ∀ m : Bytes, parseLeaves parse (openBrace :: m) = ((do
      let c ← CString.deref
      if c = closeBrace then do
        advance 1
        return []
      else do
        let m ← Exec.get
        parseLeavesLoop parse m.length []) : Exec Bytes LeafError (List α)) m := by
    intro m
    rw [parseLeaves, bind_ret (deref_cons openBrace m), bind_ret (advance_one openBrace m)]
    rfl
  rw [arrayLiteral, List.cons_append, hopen, List.append_assoc, List.singleton_append]
  cases h with
  | nil => rfl
  | @cons t v ts vs ht hts =>
    obtain ⟨c, s, htext, hc⟩ := (hbegins t List.mem_cons_self).intercalate ts
    have hloop := parseLeavesLoop_elements (.cons ht hts) (List.cons_ne_nil t ts) rest _ [] (le_refl _)
    rw [htext] at hloop ⊢
    rw [List.cons_append] at hloop ⊢
    rw [bind_ret (deref_cons c _), if_neg hc]
    exact hloop

variable {t : LeafResult α} {leaf : α → Bytes} {P : α → Prop} (hreads : ∀ x, P x → ReadsAs (parseLeaf t) (leaf x) x)
  (hbegins : ∀ x, P x → Begins (leaf x))

include hbegins

private theorem parseNested_literal {d : Nat} {l : List (Vectors α d)} (hl : ∀ w ∈ l, Vectors.All P d w)
    (hread : ∀ w ∈ l, ReadsAs (parseNested t d) (Vectors.fold leaf arrayLiteral d w) w) (rest : Bytes) :
    parseNested t (d + 1) (Vectors.fold leaf arrayLiteral (d + 1) l ++ rest) = .ret l rest := by
  have helements := forall₂_map (g := id) l hread
  rw [List.map_id] at helements
  refine parseLeaves_literal helements (fun u hu => ?_) rest
  obtain ⟨w, hw, rfl⟩ := List.mem_map.1 hu
  cases d with
  | zero => exact hbegins w (hl w hw)
  | succ d => exact ⟨openBrace, _, rfl, by decide⟩

include hreads

private theorem parseNested_fold (d : Nat) (v : Vectors α d) (hv : Vectors.All P d v) :
    ReadsAs (parseNested t d) (Vectors.fold leaf arrayLiteral d v) v := by
  induction d, v using Vectors.induction with
  | leaf x => exact hreads x hv
  | node d l ih =>
    intro delim rest _
    exact parseNested_literal hbegins hv (fun w hw => ih w hw (hv w hw)) (delim :: rest)

/-- Vectors are read as their elements are. -/
theorem nestedFrom_fold (d : Nat) (v : Vectors α (d + 1)) (hv : Vectors.All P (d + 1) v) :
    nestedFrom t d (cString (Vectors.fold leaf arrayLiteral (d + 1) v)) = .ret v [nul] := by
  change List (Vectors α d) at v
  have hread := parseNested_literal hbegins hv (fun w hw => parseNested_fold hreads hbegins d w (hv w hw)) [nul]
  rw [nestedFrom, cString, bind_ret hread, bind_ret (deref_cons nul [])]
  rfl

end Rendered

/-! ### Elements -/

/-- How an element is passed: for a type with optional elements or for one without. -/
def elementParam (nullable : Bool) : Option Scalar → Param
  | none => .nullopt 0
  | some x => if nullable then .optional x.param else x.param

/-- The spelling of an element. -/
def spelling : Option Scalar → Bytes
  | none => nullWord
  | some (.bool v) => boolText v
  | some (.char v) => elementText (some [v])
  | some (.integer v) => toChars v
  | some (.string v) => elementText (some v)
  | some (.binary v) => backslash :: Bytea.byteaText v

/-- A string that the server understands in an array, and that it does not divide in the text that comes back. -/
def Scalar.InArray : Scalar → Prop
  | .char v => ReadBack (some [v]) ∧ Unsplit (some [v])
  | .string v => ReadBack (some v) ∧ Unsplit (some v)
  | _ => True

namespace ScalarType

variable (encoded : Bytes → Bool) (fill : Nat → UInt8) (k : ScalarType) (nullable : Bool)

/-- The elements of arrays. -/
def HasElement : Option Scalar → Prop
  | none => nullable = true
  | some x => k.Has encoded x ∧ x.InArray

/-- The type of the elements as one of results. -/
def elementResult : LeafResult (Option Scalar) :=
  ⟨if nullable then some none else none, fun s => (k.fromText fill s).map some⟩

end ScalarType

namespace Param

theorem toArray_element (nullable : Bool) (x : Option Scalar) (data : Bytes) :
    toArray (elementParam nullable x) data = data ++ spelling x := by
  have hbinary : ∀ v : Bytes, data ++ [backslash, backslash] ++ ascii "x" ++ hexDigits v =
      data ++ backslash :: Bytea.byteaText v := by
    intro v
    rw [List.append_assoc, List.append_assoc]
    rfl
  cases x with
  | none => rfl
  | some x =>
    have hplain : toArray x.param data = data ++ spelling (some x) := by
      cases x with
      | bool v => rfl
      | char v => exact arrayAppend_eq data [v]
      | integer v => rfl
      | string v => exact arrayAppend_eq data v
      | binary v => exact hbinary v
    cases nullable with
    | false => exact hplain
    | true =>
      rw [← hplain]
      cases x <;> rfl

/-- The text of nested vectors, for any elements. -/
theorem toArray_fold {α : Type} {f : α → Param} {g : α → Bytes} (h : ∀ x data, toArray (f x) data = data ++ g x)
    (d : Nat) (v : Vectors α d) (data : Bytes) :
    toArray (Vectors.fold f .array d v) data = data ++ Vectors.fold g arrayLiteral d v := by
  induction d, v using Vectors.induction generalizing data with
  | leaf x => exact h x data
  | node d l ih => exact toArray_array (forall₂_map l ih) data

end Param

/-! ### What the server reads -/

namespace ArrayInput

theorem Reading.toOption_eq_some {r : Reading} {x : ArrayValue} (h : r.toOption = some x) : r = .value x := by
  cases r with
  | value y => rw [Option.some.inj h]
  | _ => cases h

theorem string_reads {s : Bytes} (h : ReadBack (some s)) :
    Reads (elementText (some s)) (.value (.element (some s))) := by
  have hreads := element_reads (some s)
  rwa [Reading.toOption_eq_some ((elementReading_iff _).2 h)] at hreads

/-- A text of letters and digits that is not `NULL`. -/
theorem plain_reads {s : Bytes} (hne : s ≠ []) (hs : ∀ b ∈ s, b ∉ arraySpecial ∧ ¬ isSpace b) (hnull : ¬ SpellsNull s) :
    Reads s (.value (.element (some s))) := by
  have hreads := bare_reads fun b hb => (hs b hb).1
  have htrim : trim s = s := trim_eq_self fun b hb => (hs b hb).2
  rwa [bareReading, htrim, if_neg hne, bareValue, if_neg fun h => hnull h.2] at hreads

theorem integer_reads (n : Int) : Reads (toChars n) (.value (.element (some (toChars n)))) := by
  have hbytes : ∀ b ∈ toChars n, Decimal.isDigit b = true ∨ b = 45 := by
    intro b hb
    rcases Int.eq_nat_or_neg n with ⟨n, rfl | rfl⟩
    · exact .inl (Decimal.isDigit_of_mem_decimal hb)
    · rcases Nat.eq_zero_or_pos n with rfl | hn
      · exact .inl (Decimal.isDigit_of_mem_decimal (n := 0) hb)
      · rw [toChars_neg hn] at hb
        rcases List.mem_cons.1 hb with hb | hb
        · exact .inr hb
        · exact .inl (Decimal.isDigit_of_mem_decimal hb)
  have hall : ∀ k < 256, (Decimal.isDigit (UInt8.ofNat k) = true ∨ UInt8.ofNat k = 45) →
      (UInt8.ofNat k ∉ arraySpecial ∧ ¬ isSpace (UInt8.ofNat k)) ∧ toUpper (UInt8.ofNat k) ≠ 78 := by decide +kernel
  have hplain : ∀ b ∈ toChars n, (b ∉ arraySpecial ∧ ¬ isSpace b) ∧ toUpper b ≠ 78 := by
    intro b hb
    have h := hall b.toNat b.toNat_lt
    rw [UInt8.ofNat_toNat] at h
    exact h (hbytes b hb)
  have hne : toChars n ≠ [] := by
    intro h
    have hread := ServerType.integerInput_toChars n
    rw [h] at hread
    cases hread
  refine plain_reads hne (fun b hb => (hplain b hb).1) fun hnull => ?_
  obtain ⟨b, s, hs⟩ := List.exists_cons_of_ne_nil hne
  rw [SpellsNull, hs, List.map_cons] at hnull
  exact (hplain b (hs ▸ List.mem_cons_self)).2 (List.cons.inj hnull).1

theorem binary_reads (v : Bytes) :
    Reads (backslash :: Bytea.byteaText v) (.value (.element (some (Bytea.byteaText v)))) := by
  intro m vs stack delim hm hdelim
  have hbegin : run ⟨m, vs :: stack⟩ [backslash, backslash, 120] =
      some ⟨.bare [backslash, 120] [] true, vs :: stack⟩ := by
    rcases hm with rfl | rfl <;> rfl
  have hsplit : backslash :: Bytea.byteaText v ++ [delim] =
      [backslash, backslash, 120] ++ (hexDigits v ++ [delim]) := rfl
  have hdigits := Bytea.run_escaped (hexDigits v) [backslash, 120] (vs :: stack) (Bytea.hexDigits_mem v)
  rw [hsplit, run_append, hbegin, Option.bind_some, run_append, hdigits, Option.bind_some]
  rcases hdelim with rfl | rfl
  · rfl
  · cases stack <;> rfl

/-- An element that the server understands. -/
theorem spelling_reads {x : Option Scalar} (hx : ∀ y ∈ x, y.InArray) :
    Reads (spelling x) (.value (.element (x.map Scalar.text))) := by
  cases x with
  | none => exact bare_reads (s := nullWord) (by decide)
  | some x =>
    have hx := hx x rfl
    cases x with
    | bool v => cases v <;> exact bare_reads (by decide)
    | char v => exact string_reads hx.1
    | integer n => exact integer_reads n
    | string v => exact string_reads hx.1
    | binary v => exact binary_reads v

theorem arrayReading_values (vs : List ArrayValue) : arrayReading (vs.map .value) = .value (.array vs) := by
  have h := (elementsReading_iff (f := .value) (g := id) vs).2 fun v _ => rfl
  rw [List.map_id] at h
  exact Reading.toOption_eq_some ((arrayReading_toOption _ _).2 h)

theorem reads_fold {α : Type} {leaf : α → Bytes} {value : α → ArrayValue} {P : α → Prop}
    (h : ∀ x, P x → Reads (leaf x) (.value (value x))) (d : Nat) (v : Vectors α d) (hv : Vectors.All P d v) :
    Reads (Vectors.fold leaf arrayLiteral d v) (.value (Vectors.fold value .array d v)) := by
  induction d, v using Vectors.induction with
  | leaf x => exact h x hv
  | node d l ih =>
    have helements := forall₂_map l fun w hw => ih w hw (hv w hw)
    have hreads := literal_reads helements
    have hmap : l.map (fun w => Reading.value (Vectors.fold value .array d w)) =
        (l.map (Vectors.fold value .array d)).map .value := by rw [List.map_map]; rfl
    rwa [hmap, arrayReading_values] at hreads

theorem parse_fold {α : Type} {leaf : α → Bytes} {value : α → ArrayValue} {P : α → Prop}
    (h : ∀ x, P x → Reads (leaf x) (.value (value x))) (d : Nat) (v : Vectors α (d + 1))
    (hv : Vectors.All P (d + 1) v) :
    parse (Vectors.fold leaf arrayLiteral (d + 1) v) = some (Vectors.fold value .array (d + 1) v) := by
  change List (Vectors α d) at v
  have helements := forall₂_map v fun w hw => reads_fold h d w (hv w hw)
  have hmap : v.map (fun w => Reading.value (Vectors.fold value .array d w)) =
      (v.map (Vectors.fold value .array d)).map .value := by rw [List.map_map]; rfl
  have hparse := parse_literal helements
  rw [hmap, arrayReading_values] at hparse
  exact hparse

end ArrayInput

/-! ### What the server stores -/

/-- The lists at each depth have the same length. -/
def Vectors.HasDimensions {α : Type} : (d : Nat) → List Nat → Vectors α d → Prop
  | 0, [] => fun _ => True
  | d + 1, n :: ns => fun (l : List (Vectors α d)) => l.length = n ∧ ∀ v ∈ l, HasDimensions d ns v
  | _, _ => fun _ => False

/-- Vectors that an array of the server can have: they are empty, or the lists at each depth have the same length,
which is not zero. -/
def Vectors.Rectangular {α : Type} (d : Nat) (v : Vectors α (d + 1)) : Prop :=
  v = ([] : List (Vectors α d)) ∨ ∃ ns, 0 ∉ ns ∧ HasDimensions (d + 1) ns v

namespace ArrayValue

private theorem dimensionsOf_of_forall {vs : List ArrayValue} (hne : vs ≠ []) {ns : List Nat}
    (h : ∀ v ∈ vs, dimensions v = some ns) : dimensionsOf vs = some (vs.length :: ns) := by
  induction vs with
  | nil => exact absurd rfl hne
  | cons v vs ih =>
    obtain ⟨hv, hvs⟩ := List.forall_mem_cons.1 h
    cases vs with
    | nil =>
      rw [dimensionsOf, hv]
      rfl
    | cons w ws =>
      have hrest := ih (List.cons_ne_nil w ws) hvs
      rw [dimensionsOf, hv, hrest]
      exact if_pos rfl

variable {α : Type} {value : α → Option Bytes}

/-- The array that nested vectors stand for. -/
def ofVectors (value : α → Option Bytes) (d : Nat) (v : Vectors α d) : ArrayValue :=
  Vectors.fold (fun x => element (value x)) array d v

theorem dimensions_ofVectors {d : Nat} {ns : List Nat} (hns : 0 ∉ ns) {v : Vectors α d}
    (hv : Vectors.HasDimensions d ns v) : dimensions (ofVectors value d v) = some ns := by
  induction d, v using Vectors.induction generalizing ns with
  | leaf x =>
    cases ns with
    | nil => rfl
    | cons n ns => exact hv.elim
  | node d l ih =>
    cases ns with
    | nil => exact hv.elim
    | cons n ns =>
      obtain ⟨hlength, hl⟩ := hv
      obtain ⟨hn, hns⟩ := not_or.1 (fun h => hns (List.mem_cons.2 h))
      have hne : l.map (ofVectors value d) ≠ [] := by
        intro h
        rw [List.map_eq_nil_iff.1 h] at hlength
        exact hn hlength
      have hall : ∀ w ∈ l.map (ofVectors value d), dimensions w = some ns := by
        intro w hw
        obtain ⟨u, hu, rfl⟩ := List.mem_map.1 hw
        exact ih u hu hns (hl u hu)
      have hdimensions := dimensionsOf_of_forall hne hall
      rw [List.length_map, hlength] at hdimensions
      exact hdimensions

theorem length_dimensions {d : Nat} {ns : List Nat} {v : Vectors α d} (hne : 0 ∉ ns)
    (hv : Vectors.HasDimensions d ns v) : ns.length = d := by
  induction d, v using Vectors.induction generalizing ns with
  | leaf x =>
    cases ns with
    | nil => rfl
    | cons n ns => exact hv.elim
  | node d l ih =>
    cases ns with
    | nil => exact hv.elim
    | cons n ns =>
      obtain ⟨hlength, hl⟩ := hv
      obtain ⟨hn, hns⟩ := not_or.1 (fun h => hne (List.mem_cons.2 h))
      cases l with
      | nil => exact absurd hlength hn
      | cons w l => exact congrArg (· + 1) (ih w List.mem_cons_self hns (hl w List.mem_cons_self))

theorem mapElements_ofVectors {column : Bytes → Option Bytes} {cell : α → Option Bytes} {P : α → Prop}
    (h : ∀ x, P x → mapElements column (element (value x)) = some (element (cell x))) (d : Nat) (v : Vectors α d)
    (hv : Vectors.All P d v) : mapElements column (ofVectors value d v) = some (ofVectors cell d v) := by
  induction d, v using Vectors.induction with
  | leaf x => exact h x hv
  | node d l ih =>
    have hlist : ∀ l' : List (Vectors α d), (∀ w ∈ l', w ∈ l) →
        mapElementsOf column (l'.map (ofVectors value d)) = some (l'.map (ofVectors cell d)) := by
      intro l' hl'
      induction l' with
      | nil => rfl
      | cons w l' ih' =>
        obtain ⟨hw, hrest⟩ := List.forall_mem_cons.1 hl'
        rw [List.map_cons, mapElementsOf, ih w hw (hv w hw), ih' hrest]
        rfl
    show (mapElementsOf column (l.map (ofVectors value d))).map array = _
    rw [hlist l fun w hw => hw]
    rfl

theorem text_ofVectors (d : Nat) (v : Vectors α d) :
    text (ofVectors value d v) = Vectors.fold (fun x => ArrayOutput.element (value x)) arrayLiteral d v := by
  induction d, v using Vectors.induction with
  | leaf x => rfl
  | node d l ih =>
    have hlist : ∀ l' : List (Vectors α d), (∀ w ∈ l', w ∈ l) → textOf (l'.map (ofVectors value d)) =
        l'.map (Vectors.fold (fun x => ArrayOutput.element (value x)) arrayLiteral d) := by
      intro l' hl'
      induction l' with
      | nil => rfl
      | cons w l' ih' =>
        obtain ⟨hw, hrest⟩ := List.forall_mem_cons.1 hl'
        rw [List.map_cons, List.map_cons, textOf, ih w hw, ih' hrest]
    exact congrArg arrayLiteral (hlist l fun w hw => hw)

end ArrayValue

theorem arrayStore_of {column : Bytes → Option Bytes} {s : Bytes} {v w : ArrayValue} {ns : List Nat}
    (hparse : ArrayInput.parse s = some v) (hns : v.dimensions = some ns) (hw : v.mapElements column = some w)
    (hlength : ns.length ≤ maxDimensions) :
    arrayStore column s = if 0 ∈ ns then some (arrayLiteral []) else some w.text := by
  have hlt : ¬ maxDimensions < ns.length := Nat.not_lt.2 hlength
  unfold arrayStore
  rw [hparse, Option.bind_eq_bind, Option.bind_some, hns, Option.bind_eq_bind, Option.bind_some, hw, Option.bind_some,
    if_neg hlt]

/-! ### There and back -/

/-- A type of columns for a type of values. -/
structure ScalarColumn where
  type : ScalarType
  server : ServerType
  fits : type.Fits server

/-- A type with one column: one of the types above, or vectors, nested `depth + 1` deep, of the type, or of optionals
of it. -/
inductive ColumnType where
  | scalar (column : ScalarColumn)
  | array (column : ScalarColumn) (depth : Nat) (nullable : Bool)

/-- A value of such a type. -/
inductive Datum where
  | scalar (x : Scalar)
  | array (depth : Nat) (v : Vectors (Option Scalar) (depth + 1))

namespace ScalarColumn

variable (encoded : Bytes → Bool) (fill : Nat → UInt8) (c : ScalarColumn) (d : Nat) (nullable : Bool)

/-- The vectors that the server takes. -/
def HasArray (v : Vectors (Option Scalar) (d + 1)) : Prop :=
  d + 1 ≤ maxDimensions ∧ Vectors.Rectangular d v ∧ Vectors.All (c.type.HasElement encoded nullable) (d + 1) v

/-- The text of vectors that is passed. -/
def arrayText (v : Vectors (Option Scalar) (d + 1)) : Bytes := Vectors.fold spelling arrayLiteral (d + 1) v

/-- The text that comes back. -/
def arrayCell (v : Vectors (Option Scalar) (d + 1)) : Bytes :=
  Vectors.fold (fun x => ArrayOutput.element (x.map Scalar.cell)) arrayLiteral (d + 1) v

variable {encoded c d nullable}

theorem hasElement_inArray {x : Option Scalar} (hx : c.type.HasElement encoded nullable x) : ∀ y ∈ x, y.InArray := by
  rintro y rfl
  exact hx.2

theorem mapElements_cell {x : Option Scalar} (hx : c.type.HasElement encoded nullable x) :
    ArrayValue.mapElements (c.server.store encoded) (.element (x.map Scalar.text)) =
      some (.element (x.map Scalar.cell)) := by
  cases x with
  | none => rfl
  | some x =>
    have hstore := (ScalarType.stored (fun _ => nul) c.fits hx.1).1
    show (c.server.store encoded x.text).map _ = _
    rw [hstore]
    rfl

/-- What the server makes of an array. -/
theorem arrayStore_text {v : Vectors (Option Scalar) (d + 1)} (hv : c.HasArray encoded d nullable v) :
    arrayStore (c.server.store encoded) (arrayText d v) = some (arrayCell d v) := by
  obtain ⟨hdepth, hrectangular, hall⟩ := hv
  have hparse := ArrayInput.parse_fold (P := c.type.HasElement encoded nullable)
    (fun x hx => ArrayInput.spelling_reads (hasElement_inArray hx)) d v hall
  have hmap := ArrayValue.mapElements_ofVectors (fun x hx => mapElements_cell hx) (d + 1) v hall
  have htext : (ArrayValue.ofVectors (fun x => x.map Scalar.cell) (d + 1) v).text = arrayCell d v :=
    ArrayValue.text_ofVectors (d + 1) v
  rcases hrectangular with rfl | ⟨ns, hns, hdimensions⟩
  · have hzero : (ArrayValue.array []).dimensions = some [0] := rfl
    exact (arrayStore_of hparse hzero hmap (by decide)).trans (if_pos List.mem_cons_self)
  · have hlength : ns.length ≤ maxDimensions := (ArrayValue.length_dimensions hns hdimensions).trans_le hdepth
    rw [arrayText, arrayStore_of hparse (ArrayValue.dimensions_ofVectors hns hdimensions) hmap hlength, if_neg hns,
      htext]

/-- What comes back of a value has no semicolon without quotes around it. -/
theorem unsplit_cell {x : Scalar} (hx : x.InArray) : Unsplit (some x.cell) := by
  have hplain : ∀ s : Bytes, semicolon ∉ s → Unsplit (some s) := fun s hs h => absurd h hs
  cases x with
  | bool v => cases v <;> exact hplain _ (by decide)
  | char v => exact hx.2
  | integer n =>
    refine hplain _ fun h => ?_
    have hread := ServerType.integerInput_toChars n
    rcases Int.eq_nat_or_neg n with ⟨n, rfl | rfl⟩
    · exact absurd (Decimal.isDigit_of_mem_decimal (n := n) h) (by decide)
    · rcases Nat.eq_zero_or_pos n with rfl | hn
      · exact absurd (Decimal.isDigit_of_mem_decimal (n := 0) h) (by decide)
      · rw [Scalar.cell, toChars_neg hn] at h
        rcases List.mem_cons.1 h with h | h
        · exact absurd h (by decide)
        · exact absurd (Decimal.isDigit_of_mem_decimal h) (by decide)
  | string v => exact hx.2
  | binary v =>
    refine hplain _ fun h => ?_
    have hdigits : semicolon ∉ Bytea.lowerHex := by decide
    rcases List.mem_cons.1 h with h | h
    · exact absurd h (by decide)
    · rcases List.mem_cons.1 h with h | h
      · exact absurd h (by decide)
      · exact hdigits (Bytea.hexDigits_mem v _ h)

private theorem raising_ret {α : Type} {x : Exec Bytes InvalidArgument α} {m m' : Bytes} {a : α}
    (h : x m = .ret a m') : raising x m = .ret a m' := by
  unfold raising
  rw [h]

/-- An element is read as what it was. -/
theorem element_readsAs {x : Option Scalar} (hx : c.type.HasElement encoded nullable x) :
    ReadsAs (parseLeaf (c.type.elementResult fill nullable)) (ArrayOutput.element (x.map Scalar.cell)) x := by
  intro delim rest hdelim
  have hdelims : delim ∈ [comma, semicolon, closeBrace] := by rcases hdelim with rfl | rfl <;> decide
  cases x with
  | none =>
    obtain rfl : nullable = true := hx
    have hread := raising_ret (parseUnquoted_bare (s := ascii "NULL") (by decide) hdelims rest)
    show parseLeaf _ (78 :: ([85, 76, 76] ++ delim :: rest)) = _
    rw [parseLeaf, bind_ret (deref_cons 78 _), if_neg (by decide)]
    exact (bind_ret hread _).trans rfl
  | some x =>
    obtain ⟨-, hnul, hfrom⟩ := ScalarType.stored fill c.fits hx.1
    have hsplit := unsplit_cell hx.2
    have hvalue : ofExcept ((c.type.elementResult fill nullable).fromText (stringAt (cString x.cell))) =
        Pure.pure (some x) := by
      rw [stringAt_cString hnul]
      show ofExcept ((c.type.fromText fill x.cell).map some) = _
      rw [hfrom]
      rfl
    show parseLeaf _ (ArrayOutput.element (some x.cell) ++ delim :: rest) = _
    by_cases hquotes : ArrayOutput.NeedsQuotes x.cell
    · have hread := raising_ret (parseQuoted_escape hnul (delim :: rest))
      rw [ArrayOutput.element, if_pos hquotes, List.cons_append, List.append_assoc, List.singleton_append, parseLeaf,
        bind_ret (deref_cons quote _), if_pos rfl, bind_ret (advance_one quote _)]
      refine (bind_ret hread _).trans ?_
      rw [hvalue]
      rfl
    · have hbytes : ∀ b ∈ x.cell, b ∉ ArrayOutput.special := fun b hb hmem => hquotes (.inr (.inl ⟨b, hb, .inl hmem⟩))
      have hbare : ∀ b ∈ x.cell, b ≠ nul ∧ b ∉ [comma, semicolon, closeBrace] := by
        intro b hb
        have hspecial := hbytes b hb
        have hsemicolon : b ≠ semicolon := fun h => hquotes (hsplit (h ▸ hb))
        simp only [ArrayOutput.special, List.mem_cons, List.not_mem_nil, or_false, not_or] at hspecial
        exact ⟨fun h => hnul (h ▸ hb), by simp [hspecial, hsemicolon]⟩
      have hnull : x.cell ≠ ascii "NULL" := fun h => hquotes (.inr (.inr (by rw [h]; decide)))
      have hread := raising_ret (parseUnquoted_bare hbare hdelims rest)
      obtain ⟨b, s, hs⟩ := List.exists_cons_of_ne_nil fun h : x.cell = [] => hquotes (.inl h)
      have hb : b ≠ quote := fun h => hbytes b (hs ▸ List.mem_cons_self) (by rw [h]; decide)
      have hfirst : (CString.deref : Exec Bytes LeafError UInt8) (x.cell ++ delim :: rest) =
          .ret b (x.cell ++ delim :: rest) := by
        rw [hs]
        rfl
      rw [ArrayOutput.element, if_neg hquotes, parseLeaf, bind_ret hfirst, if_neg hb]
      refine (bind_ret hread _).trans ?_
      rw [if_neg hnull, hvalue]
      rfl

theorem element_begins (x : Option Scalar) : Begins (ArrayOutput.element (x.map Scalar.cell)) :=
  ArrayOutput.element_begins _

theorem element_nul {x : Option Scalar} (hx : c.type.HasElement encoded nullable x) :
    nul ∉ ArrayOutput.element (x.map Scalar.cell) := by
  cases x with
  | none => decide
  | some x =>
    have hnul : nul ∉ x.cell := (ScalarType.stored (fun _ => nul) c.fits hx.1).2.1
    show nul ∉ ArrayOutput.element (some x.cell)
    rw [ArrayOutput.element]
    split
    · intro h
      rcases List.mem_cons.1 h with h | h
      · exact absurd h (by decide)
      · rcases List.mem_append.1 h with h | h
        · exact hnul (Escaping.mem_of_mem_escape _ _ h (by decide))
        · exact absurd h (by decide)
    · exact hnul

theorem arrayCell_nul (v : Vectors (Option Scalar) (d + 1))
    (hv : Vectors.All (c.type.HasElement encoded nullable) (d + 1) v) :
    nul ∉ arrayCell d v := by
  have hfold : ∀ (d : Nat) (v : Vectors (Option Scalar) d), Vectors.All (c.type.HasElement encoded nullable) d v →
      nul ∉ Vectors.fold (fun x => ArrayOutput.element (x.map Scalar.cell)) arrayLiteral d v := by
    intro d v hv
    induction d, v using Vectors.induction with
    | leaf x => exact element_nul hv
    | node d l ih =>
      intro h
      rcases List.mem_cons.1 h with h | h
      · exact absurd h (by decide)
      · rcases List.mem_append.1 h with h | h
        · obtain ⟨t, ht, hmem⟩ := Escaping.mem_of_mem_intercalate h (by decide)
          obtain ⟨w, hw, rfl⟩ := List.mem_map.1 ht
          exact ih w hw (hv w hw) hmem
        · exact absurd h (by decide)
  exact hfold (d + 1) v hv

end ScalarColumn

namespace ColumnType

variable (encoded : Bytes → Bool) (fill : Nat → UInt8)

/-- The values of the type that a column takes and gives back. -/
def Has : ColumnType → Datum → Prop
  | scalar c, .scalar x => c.type.Has encoded x
  | array c depth nullable, .array d v => d = depth ∧ c.HasArray encoded d nullable v
  | _, _ => False

def param : ColumnType → Datum → Param
  | scalar _, .scalar x => x.param
  | array _ _ nullable, .array d v => Vectors.fold (elementParam nullable) .array (d + 1) v
  | _, _ => .null

/-- The text that is passed. -/
def text : Datum → Bytes
  | .scalar x => x.text
  | .array d v => ScalarColumn.arrayText d v

def store : ColumnType → Bytes → Option Bytes
  | scalar c => c.server.store encoded
  | array c _ _ => arrayStore (c.server.store encoded)

/-- The type as one of results. -/
def result : ColumnType → LeafResult Datum
  | scalar c => ⟨none, fun s => (c.type.fromText fill s).map .scalar⟩
  | array c depth nullable =>
    ⟨none, fun s => (toExcept (nestedFrom (c.type.elementResult fill nullable) depth (cString s))).map (.array depth)⟩

variable {encoded}

theorem fields_param (c : ColumnType) (x : Datum) (hx : c.Has encoded x) :
    (c.param x).fields = [some (text x)] := by
  cases c with
  | scalar c =>
    cases x with
    | scalar x => exact x.fields_param
    | array d v => exact hx.elim
  | array c depth nullable =>
    cases x with
    | scalar x => exact hx.elim
    | array d v => exact congrArg (fun s => [some s]) (Param.toArray_fold (Param.toArray_element nullable) (d + 1) v [])

theorem stored (c : ColumnType) (x : Datum) (hx : c.Has encoded x) :
    ∃ s, c.store encoded (text x) = some s ∧ nul ∉ s ∧ (c.result fill).fromText s = .ok x := by
  cases c with
  | scalar c =>
    cases x with
    | scalar x =>
      obtain ⟨hstore, hnul, hfrom⟩ := ScalarType.stored fill c.fits hx
      refine ⟨x.cell, hstore, hnul, ?_⟩
      show (c.type.fromText fill x.cell).map Datum.scalar = _
      rw [hfrom]
      rfl
    | array d v => exact hx.elim
  | array c depth nullable =>
    cases x with
    | scalar x => exact hx.elim
    | array d v =>
      obtain ⟨rfl, hv⟩ := hx
      refine ⟨ScalarColumn.arrayCell d v, ScalarColumn.arrayStore_text hv, ScalarColumn.arrayCell_nul v hv.2.2, ?_⟩
      have helement : ∀ x, c.type.HasElement encoded nullable x →
          ReadsAs (parseLeaf (c.type.elementResult fill nullable)) (ArrayOutput.element (x.map Scalar.cell)) x :=
        fun x hx => ScalarColumn.element_readsAs fill hx
      have hread := nestedFrom_fold helement (fun x _ => ScalarColumn.element_begins x) d v hv.2.2
      show (toExcept (nestedFrom _ d (cString (ScalarColumn.arrayCell d v)))).map (Datum.array d) = _
      rw [ScalarColumn.arrayCell, hread]
      rfl

variable (encoded)

/-- All these types with their columns. -/
def codec (c : ColumnType) : Codec Datum where
  Has := c.Has encoded
  param := c.param
  text := text
  column := c.store encoded
  result := c.result fill
  fields_param := c.fields_param
  stored := c.stored fill

end ColumnType

end TaoPQ
