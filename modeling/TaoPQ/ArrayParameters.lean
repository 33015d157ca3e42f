import TaoPQ.ParameterTraits
import TaoPQ.PgArray
import Mathlib.Data.List.DropRight

/-!
# Array parameters

`to_array` for nested vectors of `std::optional< std::string >`, and what the server reads in the text it produces.
`array_append` puts the word `NULL` in quotes, but not `null`, and it puts spaces and tabs in quotes, but no other
white space.  The text is read back as the given value if and only if no element is hurt by this
(`array_parameters_read_back_iff`).
-/

namespace TaoPQ

open Byte Escaping

theorem forall₂_map {α β γ : Type} {R : β → γ → Prop} {f : α → β} {g : α → γ} (l : List α)
    (h : ∀ v ∈ l, R (f v) (g v)) : List.Forall₂ R (l.map f) (l.map g) := by
  rw [List.forall₂_map_left_iff, List.forall₂_map_right_iff, List.forall₂_same]
  exact h

/-! ### The text of an array parameter -/

/-- A `std::optional< std::string >`. -/
def Param.ofOptional : Option Bytes → Param
  | none => .nullopt 0
  | some s => .optional (.string s)

/-- A `std::vector` nested `d` deep over `std::optional< std::string >`. -/
def Param.ofVectors (d : Nat) (v : Vectors (Option Bytes) d) : Param := Vectors.fold Param.ofOptional .array d v

/-- The spelling that `array_append` and `parameter_traits< std::optional >` choose for an element. -/
def elementText : Option Bytes → Bytes
  | none => nullWord
  | some s => if WrittenBare s then s else quotedText s

namespace Param

theorem toArrayLoop_cons (e : Param) (es : List Param) (data : Bytes) :
    toArrayLoop (e :: es) data = toArrayLoop es (toArray e data ++ [comma]) := by
  cases e <;> simp only [toArrayLoop, toArray]

/-- When each element appends its text, the loop appends them all with a comma behind each. -/
private theorem toArrayLoop_eq {es : List Param} {ts : List Bytes}
    (h : List.Forall₂ (fun e t => ∀ data, toArray e data = data ++ t) es ts) (data : Bytes) :
    toArrayLoop es data = data ++ ts.flatMap (· ++ [comma]) := by
  induction h generalizing data with
  | nil => simp [toArrayLoop]
  | cons he _ ih =>
    rw [toArrayLoop_cons, he, ih, List.flatMap_cons]
    simp only [List.append_assoc]

/-- The comma behind the last element is overwritten. -/
theorem toArray_array {es : List Param} {ts : List Bytes}
    (h : List.Forall₂ (fun e t => ∀ data, toArray e data = data ++ t) es ts) (data : Bytes) :
    toArray (.array es) data = data ++ arrayLiteral ts := by
  rw [toArray, toArrayLoop_eq h, closeArray]
  cases h with
  | nil => simp [arrayLiteral]
  | cons _ _ =>
    rw [flatMap_terminated, ← List.append_assoc, List.dropLast_concat]
    simp [arrayLiteral]

private theorem toArray_ofVectors (d : Nat) (v : Vectors (Option Bytes) d) (data : Bytes) :
    toArray (ofVectors d v) data = data ++ Vectors.fold elementText arrayLiteral d v := by
  induction d, v using Vectors.induction generalizing data with
  | leaf x =>
    cases x with
    | none => rfl
    | some s => exact arrayAppend_eq data s
  | node d l ih => exact toArray_array (forall₂_map l ih) data

theorem arrayText_ofVectors (d : Nat) (v : Vectors (Option Bytes) d) :
    arrayText (ofVectors d v) = Vectors.fold elementText arrayLiteral d v := toArray_ofVectors d v []

end Param

/-! ### What the server reads -/

namespace ArrayInput

@[simp] theorem run_nil (r : Reader) : run r [] = some r := rfl

theorem run_cons (r : Reader) (b : UInt8) (s : Bytes) : run r (b :: s) = (step r b).bind fun r => run r s := rfl

theorem run_append (r : Reader) (s t : Bytes) : run r (s ++ t) = (run r s).bind fun r => run r t :=
  List.foldlM_append

/-- Between quotes everything is taken literally, once its escapes are removed. -/
private theorem run_quoted (s text : Bytes) (stack : List (List ArrayValue)) :
    run ⟨.quoted text, stack⟩ (escape backslash quotedSpecial s) = some ⟨.quoted (text ++ s), stack⟩ := by
  induction s generalizing text with
  | nil => simp
  | cons b s ih =>
    rw [escape_cons, run_append]
    have hstep : run ⟨.quoted text, stack⟩ (if b ∈ quotedSpecial then [backslash, b] else [b]) =
        some ⟨.quoted (text ++ [b]), stack⟩ := by
      by_cases hb : b ∈ quotedSpecial
      · rw [if_pos hb]
        rfl
      · have hquote : b ≠ quote := fun h => hb (by simp [h, quotedSpecial])
        have hbackslash : b ≠ backslash := fun h => hb (by simp [h, quotedSpecial])
        rw [if_neg hb, run_cons]
        simp only [step]
        rw [if_neg hquote, if_neg hbackslash]
        rfl
    rw [hstep, Option.bind_some, ih]
    simp

/-- Without quotes white space is only kept when something follows it. -/
private theorem run_bare {s : Bytes} (hs : ∀ b ∈ s, b ∉ arraySpecial) (u : Bytes) (stack : List (List ArrayValue)) :
    run ⟨.bare (u.rdropWhile isSpace) (u.rtakeWhile isSpace) false, stack⟩ s =
      some ⟨.bare ((u ++ s).rdropWhile isSpace) ((u ++ s).rtakeWhile isSpace) false, stack⟩ := by
  induction s generalizing u with
  | nil => simp
  | cons b s ih =>
    have hb := hs b List.mem_cons_self
    simp only [arraySpecial, List.mem_cons, List.not_mem_nil, or_false, not_or] at hb
    obtain ⟨hbackslash, hquote, hopen, hclose, hcomma, -⟩ := hb
    have hnext := ih (fun c hc => hs c (List.mem_cons_of_mem b hc)) (u ++ [b])
    rw [List.append_assoc, List.singleton_append] at hnext
    rw [run_cons, ← hnext]
    simp only [step]
    by_cases hspace : isSpace b
    · rw [if_pos hspace, List.rdropWhile_concat_pos _ _ _ hspace, List.rtakeWhile_concat_pos _ _ _ hspace]
      rfl
    · rw [if_neg hspace, if_neg (by simp [hcomma, hclose]), if_neg hbackslash, if_neg (by simp [hquote, hopen]),
        List.rdropWhile_concat_neg _ _ _ hspace, List.rtakeWhile_concat_neg _ _ _ hspace,
        List.rdropWhile_append_rtakeWhile]
      rfl

/-- What remains of an element without quotes. -/
def trim (s : Bytes) : Bytes := (s.dropWhile isSpace).rdropWhile isSpace

/-- Nothing has been read of the next element. -/
def Mode.Empty (m : Mode) : Prop := m = .opened ∨ m = .delimited

private theorem step_empty {m : Mode} (hm : m.Empty) {b : UInt8} (hb : b ≠ closeBrace)
    (stack : List (List ArrayValue)) : step ⟨m, stack⟩ b = enter b ⟨m, stack⟩ := by
  rcases hm with rfl | rfl
  · exact if_neg hb
  · rfl

/-- White space before an element is ignored. -/
private theorem run_enter {m : Mode} (hm : m.Empty) {s : Bytes} (hs : ∀ b ∈ s, b ∉ arraySpecial)
    (stack : List (List ArrayValue)) :
    run ⟨m, stack⟩ s =
      if trim s = [] then some ⟨m, stack⟩
      else some ⟨.bare (trim s) ((s.dropWhile isSpace).rtakeWhile isSpace) false, stack⟩ := by
  induction s with
  | nil => rfl
  | cons b s ih =>
    have hb := hs b List.mem_cons_self
    simp only [arraySpecial, List.mem_cons, List.not_mem_nil, or_false, not_or] at hb
    obtain ⟨hbackslash, hquote, hopen, hclose, hcomma, -⟩ := hb
    have hrest := fun c hc => hs c (List.mem_cons_of_mem b hc)
    rw [run_cons, step_empty hm hclose, enter, trim]
    by_cases hspace : isSpace b
    · rw [if_pos hspace, Option.bind_some, ih hrest, List.dropWhile_cons_of_pos hspace]
      rfl
    · have hne : (b :: s).rdropWhile isSpace ≠ [] := by
        rw [ne_eq, List.rdropWhile_eq_nil_iff]
        exact fun h => hspace (h b List.mem_cons_self)
      have hdrop : [b].rdropWhile isSpace = [b] := by rw [List.rdropWhile_singleton, if_neg hspace]
      have htake : [b].rtakeWhile isSpace = [] := List.rtakeWhile_concat_neg _ [] b hspace
      have hbare := run_bare hrest [b] stack
      rw [hdrop, htake] at hbare
      rw [if_neg hspace, if_neg hopen, if_neg hquote, if_neg hbackslash, if_neg (by simp [hcomma, hclose]),
        Option.bind_some, List.dropWhile_cons_of_neg hspace, if_neg hne]
      exact hbare

/-- What the server makes of the text of an element: an error, nothing but white space, or a value. -/
inductive Reading where
  | malformed
  | blank
  | value (x : ArrayValue)

/-- The value, if there is one. -/
def Reading.toOption : Reading → Option ArrayValue
  | value x => some x
  | _ => none

/-- The server reads the text in this way wherever an element can stand. -/
def Reads (text : Bytes) (r : Reading) : Prop :=
  ∀ (m : Mode) (vs : List ArrayValue) (stack : List (List ArrayValue)) (delim : UInt8),
    m.Empty → delim = comma ∨ delim = closeBrace →
    run ⟨m, vs :: stack⟩ (text ++ [delim]) =
      match r with
      | .malformed => none
      | .blank => step ⟨m, vs :: stack⟩ delim
      | .value x => delimit delim ((vs ++ [x]) :: stack)

private theorem delimiter_not_space {delim : UInt8} (h : delim = comma ∨ delim = closeBrace) :
    isSpace delim = false := by
  rcases h with rfl | rfl <;> rfl

/-- An element in quotes is the string between them. -/
theorem quoted_reads (s : Bytes) : Reads (quotedText s) (.value (.element (some s))) := by
  intro m vs stack delim hm hdelim
  have henter : step ⟨m, vs :: stack⟩ quote = some ⟨.quoted [], vs :: stack⟩ := step_empty hm (by decide) _
  rw [quotedText, List.cons_append, run_cons, henter, Option.bind_some, List.append_assoc, run_append, run_quoted,
    Option.bind_some, List.nil_append, List.singleton_append, run_cons]
  show run ⟨.completed, (vs ++ [.element (some s)]) :: stack⟩ [delim] = _
  rw [run_cons]
  simp only [step]
  rw [if_neg (by simp [delimiter_not_space hdelim])]
  cases delimit delim ((vs ++ [.element (some s)]) :: stack) <;> rfl

/-- What an element without quotes says. -/
def bareReading (s : Bytes) : Reading :=
  if trim s = [] then .blank else .value (.element (bareValue (trim s) false))

theorem bare_reads {s : Bytes} (hs : ∀ b ∈ s, b ∉ arraySpecial) : Reads s (bareReading s) := by
  intro m vs stack delim hm hdelim
  rw [run_append, run_enter hm hs, bareReading]
  by_cases hblank : trim s = []
  · rw [if_pos hblank, if_pos hblank, Option.bind_some, run_cons]
    cases step ⟨m, vs :: stack⟩ delim <;> rfl
  · rw [if_neg hblank, if_neg hblank, Option.bind_some, run_cons]
    simp only [step]
    rw [if_neg (by simp [delimiter_not_space hdelim]), if_pos hdelim]
    show (delimit delim ((vs ++ [_]) :: stack)).bind (fun r => run r []) = _
    cases delimit delim ((vs ++ [.element (bareValue (trim s) false)]) :: stack) <;> rfl

/-- What an element says as `elementText` spells it. -/
def elementReading : Option Bytes → Reading
  | none => .value (.element none)
  | some s => if WrittenBare s then bareReading s else .value (.element (some s))

theorem element_reads (x : Option Bytes) : Reads (elementText x) (elementReading x) := by
  cases x with
  | none => exact bare_reads (s := nullWord) (by decide)
  | some s =>
    by_cases hbare : WrittenBare s
    · rw [elementText, if_pos hbare, elementReading, if_pos hbare]
      exact bare_reads hbare.2.2
    · rw [elementText, if_neg hbare, elementReading, if_neg hbare]
      exact quoted_reads s

/-! ### Arrays in arrays -/

/-- What the elements of an array say.  White space alone between the braces is an array without elements. -/
def elementsReading : List Reading → Option (List ArrayValue)
  | [.blank] => some []
  | rs => rs.mapM Reading.toOption

private theorem elementsReading_cons_cons (r q : Reading) (rs : List Reading) :
    elementsReading (r :: q :: rs) = (r :: q :: rs).mapM Reading.toOption := by
  cases r <;> rfl

/-- What an array says. -/
def arrayReading (rs : List Reading) : Reading :=
  match elementsReading rs with
  | some vs => .value (.array vs)
  | none => .malformed

private theorem mapM_value (x : ArrayValue) (rs : List Reading) :
    (Reading.value x :: rs).mapM Reading.toOption = (rs.mapM Reading.toOption).map (x :: ·) := by
  rw [List.mapM_cons]
  cases rs.mapM Reading.toOption <;> rfl

/-- Behind a comma all the elements have to be there. -/
private theorem run_elements {ts : List Bytes} {rs : List Reading} (h : List.Forall₂ Reads ts rs) (hne : ts ≠ [])
    (vs : List ArrayValue) (stack : List (List ArrayValue)) :
    run ⟨.delimited, vs :: stack⟩ ([comma].intercalate ts ++ [closeBrace]) =
      (rs.mapM Reading.toOption).bind fun ws => close ((vs ++ ws) :: stack) := by
  induction h generalizing vs with
  | nil => exact absurd rfl hne
  | @cons t r ts rs ht hts ih =>
    cases hts with
    | nil =>
      have hlast := ht .delimited vs stack closeBrace (.inr rfl) (.inr rfl)
      rw [List.intercalate_singleton, hlast]
      cases r <;> rfl
    | @cons u q us qs hu hus =>
      have hfirst := ht .delimited vs stack comma (.inr rfl) (.inl rfl)
      rw [List.intercalate_cons_cons, List.append_assoc, run_append, hfirst]
      cases r with
      | malformed => rfl
      | blank => rfl
      | value x =>
        show run ⟨.delimited, (vs ++ [x]) :: stack⟩ _ = _
        rw [ih (by simp), mapM_value]
        cases (q :: qs).mapM Reading.toOption with
        | none => rfl
        | some ws => simp

/-- From the opening brace to the closing one. -/
private theorem run_literal {ts : List Bytes} {rs : List Reading} (h : List.Forall₂ Reads ts rs)
    (stack : List (List ArrayValue)) :
    run ⟨.opened, [] :: stack⟩ ([comma].intercalate ts ++ [closeBrace]) =
      (elementsReading rs).bind fun vs => close (vs :: stack) := by
  cases h with
  | nil => cases stack <;> rfl
  | @cons t r ts rs ht hts =>
    cases hts with
    | nil =>
      have honly := ht .opened [] stack closeBrace (.inl rfl) (.inr rfl)
      rw [List.intercalate_singleton, honly]
      cases r <;> rfl
    | @cons u q us qs hu hus =>
      have hfirst := ht .opened [] stack comma (.inl rfl) (.inl rfl)
      have hrest := run_elements (.cons hu hus) (List.cons_ne_nil u us)
      rw [List.intercalate_cons_cons, List.append_assoc, run_append, hfirst]
      cases r with
      | malformed => rfl
      | blank => rfl
      | value x =>
        show run ⟨.delimited, [x] :: stack⟩ _ = ((Reading.value x :: q :: qs).mapM Reading.toOption).bind _
        rw [hrest, mapM_value]
        cases (q :: qs).mapM Reading.toOption with
        | none => rfl
        | some ws => rfl

/-- An array in an array. -/
theorem literal_reads {ts : List Bytes} {rs : List Reading} (h : List.Forall₂ Reads ts rs) :
    Reads (arrayLiteral ts) (arrayReading rs) := by
  intro m vs stack delim hm hdelim
  have henter : step ⟨m, vs :: stack⟩ openBrace = some ⟨.opened, [] :: vs :: stack⟩ := step_empty hm (by decide) _
  rw [arrayLiteral, List.cons_append, run_cons, henter, Option.bind_some, run_append, run_literal h, arrayReading]
  cases elementsReading rs with
  | none => rfl
  | some ws =>
    show run ⟨.completed, (vs ++ [.array ws]) :: stack⟩ [delim] = _
    rw [run_cons]
    simp only [step]
    rw [if_neg (by simp [delimiter_not_space hdelim])]
    cases delimit delim ((vs ++ [.array ws]) :: stack) <;> rfl

/-- What nested vectors say as they are written. -/
def vectorsReading (d : Nat) (v : Vectors (Option Bytes) d) : Reading :=
  Vectors.fold elementReading arrayReading d v

private theorem vectors_read (d : Nat) (v : Vectors (Option Bytes) d) :
    Reads (Vectors.fold elementText arrayLiteral d v) (vectorsReading d v) := by
  induction d, v using Vectors.induction with
  | leaf x => exact element_reads x
  | node d l ih => exact literal_reads (forall₂_map l ih)

/-- The outermost braces. -/
theorem parse_literal {ts : List Bytes} {rs : List Reading} (h : List.Forall₂ Reads ts rs) :
    parse (arrayLiteral ts) = (arrayReading rs).toOption := by
  have hrun : run ⟨.start, []⟩ (arrayLiteral ts) = (elementsReading rs).bind fun vs => close [vs] := run_literal h []
  rw [parse, hrun, arrayReading]
  cases elementsReading rs <;> rfl

theorem parse_vectors (d : Nat) (l : List (Vectors (Option Bytes) d)) :
    parse (Vectors.fold elementText arrayLiteral (d + 1) l) = (vectorsReading (d + 1) l).toOption :=
  parse_literal (forall₂_map l fun v _ => vectors_read d v)

end ArrayInput

/-! ### When the array arrives -/

/-- The array that nested vectors stand for. -/
def arrayValue (d : Nat) (v : Vectors (Option Bytes) d) : ArrayValue := Vectors.fold .element .array d v

/-- An element that the server understands: if it is written without quotes, then it is not a spelling of `NULL`, and
it neither begins nor ends with white space. -/
def ReadBack : Option Bytes → Prop
  | none => True
  | some s => WrittenBare s → ¬ SpellsNull s ∧ (∀ b ∈ s.head?, ¬ isSpace b) ∧ ∀ b ∈ s.getLast?, ¬ isSpace b

namespace ArrayInput

theorem trim_eq_self_iff (s : Bytes) :
    trim s = s ↔ (∀ b ∈ s.head?, ¬ isSpace b) ∧ ∀ b ∈ s.getLast?, ¬ isSpace b := by
  unfold trim
  cases s with
  | nil => simp
  | cons b s =>
    by_cases hb : isSpace b
    · rw [List.dropWhile_cons_of_pos hb]
      constructor
      · intro h
        have hprefix := (List.rdropWhile_prefix isSpace (s.dropWhile isSpace)).length_le
        have hsuffix := (List.dropWhile_suffix (l := s) isSpace).length_le
        rw [h, List.length_cons] at hprefix
        omega
      · exact fun h => absurd hb (h.1 b rfl)
    · rw [List.dropWhile_cons_of_neg hb, List.rdropWhile_eq_self_iff]
      constructor
      · intro h
        refine ⟨fun c hc => ?_, fun c hc => ?_⟩
        · cases hc
          exact hb
        · rw [List.getLast?_eq_some_getLast (List.cons_ne_nil b s)] at hc
          cases hc
          exact h (List.cons_ne_nil b s)
      · intro h hne
        exact h.2 _ (List.getLast?_eq_some_getLast hne)

theorem elementReading_iff (x : Option Bytes) : (elementReading x).toOption = some (.element x) ↔ ReadBack x := by
  cases x with
  | none => exact iff_of_true rfl trivial
  | some s =>
    by_cases hbare : WrittenBare s
    · have hbody : (bareReading s).toOption = some (.element (some s)) ↔ ¬ SpellsNull s ∧ trim s = s := by
        unfold bareReading bareValue
        by_cases hblank : trim s = []
        · rw [if_pos hblank, hblank]
          exact iff_of_false (by simp [Reading.toOption]) fun h => hbare.1 h.2.symm
        · rw [if_neg hblank]
          by_cases hnull : SpellsNull (trim s)
          · rw [if_pos ⟨Bool.false_ne_true, hnull⟩]
            exact iff_of_false (by simp [Reading.toOption]) fun h => h.1 (h.2 ▸ hnull)
          · rw [if_neg fun h => hnull h.2]
            constructor
            · intro h
              simp only [Reading.toOption, Option.some.injEq, ArrayValue.element.injEq] at h
              exact ⟨fun hs => hnull (h.symm ▸ hs), h⟩
            · rintro ⟨-, h⟩
              rw [h]
              rfl
      rw [elementReading, if_pos hbare, hbody, trim_eq_self_iff]
      exact ⟨fun h _ => h, fun h => h hbare⟩
    · rw [elementReading, if_neg hbare]
      exact iff_of_true rfl fun h => absurd h hbare

section

variable {α : Type} {f : α → Reading} {g : α → ArrayValue}

private theorem mapM_toOption_iff (l : List α) :
    (l.map f).mapM Reading.toOption = some (l.map g) ↔ ∀ v ∈ l, (f v).toOption = some (g v) := by
  induction l with
  | nil => simp
  | cons v l ih =>
    rw [List.map_cons, List.map_cons, List.forall_mem_cons, ← ih]
    cases hv : f v with
    | malformed => exact iff_of_false (by simp [Reading.toOption]) fun h => Option.some_ne_none _ h.1.symm
    | blank => exact iff_of_false (by simp [Reading.toOption]) fun h => Option.some_ne_none _ h.1.symm
    | value x =>
      rw [mapM_value]
      simp [Reading.toOption, and_comm]

theorem elementsReading_iff (l : List α) :
    elementsReading (l.map f) = some (l.map g) ↔ ∀ v ∈ l, (f v).toOption = some (g v) := by
  have hmany := mapM_toOption_iff (f := f) (g := g) l
  match l with
  | [] => exact hmany
  | v :: w :: l =>
    rw [List.map_cons, List.map_cons, elementsReading_cons_cons]
    exact hmany
  | [v] =>
    cases hv : f v with
    | malformed => simpa [elementsReading, hv] using hmany
    | value x => simpa [elementsReading, hv] using hmany
    | blank => exact iff_of_false (by simp [elementsReading, hv]) (by simp [hv, Reading.toOption])

end

theorem arrayReading_toOption (rs : List Reading) (vs : List ArrayValue) :
    (arrayReading rs).toOption = some (.array vs) ↔ elementsReading rs = some vs := by
  unfold arrayReading
  cases elementsReading rs <;> simp [Reading.toOption]

/-- An array is read as it was given when everything in it is. -/
theorem vectorsReading_iff (d : Nat) (v : Vectors (Option Bytes) d) :
    (vectorsReading d v).toOption = some (arrayValue d v) ↔ Vectors.All ReadBack d v := by
  induction d, v using Vectors.induction with
  | leaf x => exact elementReading_iff x
  | node d l ih =>
    have helements : elementsReading (l.map (vectorsReading d)) = some (l.map (arrayValue d)) ↔
        ∀ v ∈ l, Vectors.All ReadBack d v :=
      (elementsReading_iff l).trans (forall₂_congr ih)
    exact (arrayReading_toOption _ _).trans helements

end ArrayInput

/-- Nested vectors of optional strings are read back as they are if and only if each string that is written without
quotes is no spelling of `NULL`, and neither begins nor ends with white space. -/
theorem array_parameters_read_back_iff (d : Nat) (v : Vectors (Option Bytes) (d + 1)) :
    ArrayInput.parse (Param.arrayText (Param.ofVectors (d + 1) v)) = some (arrayValue (d + 1) v) ↔
      Vectors.All ReadBack (d + 1) v := by
  rw [Param.arrayText_ofVectors]
  exact (ArrayInput.parse_vectors d v).symm ▸ ArrayInput.vectorsReading_iff (d + 1) v

/-- The string `null` becomes a null. -/
theorem lower_case_null_lost :
    ArrayInput.parse (Param.arrayText (Param.ofVectors 1 [some (ascii "null")])) = some (.array [.element none]) ∧
      ArrayInput.parse (Param.arrayText (Param.ofVectors 1 [some (ascii "null")])) ≠
        some (arrayValue 1 [some (ascii "null")]) := by
  have htext : ArrayInput.parse (Param.arrayText (Param.ofVectors 1 [some (ascii "null")])) =
      some (.array [.element none]) := by rfl
  refine ⟨htext, fun h => ?_⟩
  rw [htext] at h
  cases h

end TaoPQ
