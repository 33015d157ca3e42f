import TaoPQ.ArrayParameters
import TaoPQ.ResultTraits

/-!
# Reading array results

`result_traits< T >::from` on the text of an array, for nested vectors of `std::optional< std::string >`.  What
`array_append` writes is always read back (`array_round_trip`).  The server, however, does not put a semicolon in
quotes, which the parser takes for a separator, so that its text is read as it was meant if and only if no element
without quotes has a semicolon in it (`array_result_iff`).
-/

namespace TaoPQ

open Byte CString Escaping Exec

/-! ### Elements -/

section Quoted

variable {before : Bytes} (hbefore : ∀ b ∈ before, b ≠ nul ∧ b ∉ quotedSpecial) (m result : Bytes) (fuel : Nat)

include hbefore

theorem parseQuotedLoop_quote :
    parseQuotedLoop (fuel + 1) result (before ++ quote :: m) = .ret (result ++ before) m := by
  have hsearch : (search [backslash, quote] : Exec Bytes InvalidArgument _) (before ++ quote :: m) =
    .ret (some before.length) (before ++ quote :: m) := search_found hbefore (by decide) (by decide) m
  rw [parseQuotedLoop, bind_ret hsearch]
  simp only
  rw [bind_ret (slice_append before _), bind_ret (advance_append before _), bind_ret (deref_cons quote m),
    bind_ret (advance_one quote m)]
  rfl

theorem parseQuotedLoop_backslash (c : UInt8) :
    parseQuotedLoop (fuel + 1) result (before ++ backslash :: c :: m) =
      parseQuotedLoop fuel (result ++ before ++ [c]) m := by
  have hsearch : (search [backslash, quote] : Exec Bytes InvalidArgument _) (before ++ backslash :: c :: m) =
    .ret (some before.length) (before ++ backslash :: c :: m) := search_found hbefore (by decide) (by decide) (c :: m)
  rw [parseQuotedLoop, bind_ret hsearch]
  simp only
  rw [bind_ret (slice_append before _), bind_ret (advance_append before _), bind_ret (deref_cons backslash (c :: m)),
    bind_ret (advance_one backslash (c :: m))]
  show ((deref : Exec Bytes InvalidArgument UInt8) >>= _) (c :: m) = _
  rw [bind_ret (deref_cons c m), bind_ret (advance_one c m)]

end Quoted

/-- A string in quotes, the first part of it already passed. -/
private theorem parseQuotedLoop_escape (before : Bytes) {s : Bytes}
    (hbefore : ∀ b ∈ before, b ≠ nul ∧ b ∉ quotedSpecial) (hs : nul ∉ s) (rest result : Bytes) (fuel : Nat)
    (hfuel : (before ++ (escape backslash quotedSpecial s ++ quote :: rest)).length ≤ fuel) :
    parseQuotedLoop fuel result (before ++ (escape backslash quotedSpecial s ++ quote :: rest)) =
      .ret (result ++ before ++ s) rest := by
  induction s generalizing before result fuel with
  | nil =>
    obtain ⟨fuel, rfl⟩ : ∃ n, fuel = n + 1 := ⟨fuel - 1, by simp at hfuel; omega⟩
    rw [escape_nil, List.nil_append, parseQuotedLoop_quote hbefore, List.append_nil]
  | cons b s ih =>
    have hb : b ≠ nul := fun h => hs (h ▸ List.mem_cons_self)
    have hs' : nul ∉ s := fun h => hs (List.mem_cons_of_mem b h)
    rw [escape_cons] at hfuel ⊢
    by_cases hspecial : b ∈ quotedSpecial
    · obtain ⟨fuel, rfl⟩ : ∃ n, fuel = n + 1 := ⟨fuel - 1, by simp [hspecial] at hfuel; omega⟩
      have hrest := ih [] (by simp) hs' (result ++ before ++ [b]) fuel
        (by simp [hspecial] at hfuel ⊢; omega)
      rw [if_pos hspecial] at hfuel ⊢
      simp only [List.cons_append, List.nil_append, List.append_nil] at hrest ⊢
      rw [parseQuotedLoop_backslash hbefore, hrest]
      simp
    · have hbefore' : ∀ c ∈ before ++ [b], c ≠ nul ∧ c ∉ quotedSpecial :=
        List.forall_mem_append.mpr ⟨hbefore, List.forall_mem_singleton.mpr ⟨hb, hspecial⟩⟩
      rw [if_neg hspecial] at hfuel ⊢
      have hrest := ih (before ++ [b]) hbefore' hs' result fuel (by simpa using hfuel)
      simpa using hrest

theorem parseQuoted_escape {s : Bytes} (hs : nul ∉ s) (rest : Bytes) :
    parseQuoted (escape backslash quotedSpecial s ++ quote :: rest) = .ret s rest :=
  parseQuotedLoop_escape [] (by simp) hs rest [] _ (le_refl _)

theorem parseUnquoted_bare {s : Bytes} (hs : ∀ b ∈ s, b ≠ nul ∧ b ∉ [comma, semicolon, closeBrace]) {delim : UInt8}
    (hdelim : delim ∈ [comma, semicolon, closeBrace]) (rest : Bytes) :
    parseUnquoted (s ++ delim :: rest) = .ret s (delim :: rest) := by
  have hnul : delim ≠ nul := by
    rintro rfl
    exact absurd hdelim (by decide)
  rw [parseUnquoted, bind_ret (search_found hs hdelim hnul rest)]
  simp only
  rw [bind_ret (slice_append s _), bind_ret (advance_append s _)]
  rfl

/-! ### Containers -/

section Containers

variable {α : Type}

/-- In the loop the text of an element, up to the delimiter behind it, adds these values to the container. -/
def Yields (parse : Exec Bytes InvalidArgument α) (text : Bytes) (vs : List α) : Prop :=
  ∀ (fuel : Nat) (container : List α) (delim : UInt8) (rest : Bytes), delim = comma ∨ delim = closeBrace →
    (text ++ delim :: rest).length ≤ fuel →
    ∃ fuel', rest.length ≤ fuel' ∧
      parseLoop parse fuel container (text ++ delim :: rest) =
        if delim = comma then parseLoop parse fuel' (container ++ vs) rest else .ret (container ++ vs) rest

section Loop

variable {parse : Exec Bytes InvalidArgument α} {text rest : Bytes} {delim : UInt8} {v : α}

/-- Behind a separator the loop goes on. -/
private theorem parseLoop_separator (h : parse (text ++ delim :: rest) = .ret v (delim :: rest))
    (hdelim : delim = comma ∨ delim = semicolon) (fuel : Nat) (container : List α) :
    parseLoop parse (fuel + 1) container (text ++ delim :: rest) = parseLoop parse fuel (container ++ [v]) rest := by
  rw [parseLoop, bind_ret h, bind_ret (deref_cons delim rest), bind_ret (advance_one delim rest)]
  rcases hdelim with rfl | rfl <;> rfl

private theorem parseLoop_closeBrace (h : parse (text ++ closeBrace :: rest) = .ret v (closeBrace :: rest))
    (fuel : Nat) (container : List α) :
    parseLoop parse (fuel + 1) container (text ++ closeBrace :: rest) = .ret (container ++ [v]) rest := by
  rw [parseLoop, bind_ret h, bind_ret (deref_cons closeBrace rest), bind_ret (advance_one closeBrace rest)]
  rfl

end Loop

/-- An element that is read up to its delimiter is one value. -/
theorem Yields.one {parse : Exec Bytes InvalidArgument α} {text : Bytes} {v : α}
    (h : ∀ delim rest, delim = comma ∨ delim = closeBrace → parse (text ++ delim :: rest) = .ret v (delim :: rest)) :
    Yields parse text [v] := by
  intro fuel container delim rest hdelim hfuel
  obtain ⟨fuel, rfl⟩ : ∃ n, fuel = n + 1 := ⟨fuel - 1, by simp at hfuel; omega⟩
  have hread := h delim rest hdelim
  refine ⟨fuel, by simp at hfuel; omega, ?_⟩
  rcases hdelim with rfl | rfl
  · rw [if_pos rfl, parseLoop_separator hread (.inl rfl)]
  · rw [if_neg (by decide), parseLoop_closeBrace hread]

/-- The elements of an array, one after the other. -/
private theorem parseLoop_elements {parse : Exec Bytes InvalidArgument α} {ts : List Bytes} {vss : List (List α)}
    (h : List.Forall₂ (Yields parse) ts vss) (hne : ts ≠ []) (rest : Bytes) (fuel : Nat) (container : List α)
    (hfuel : ([comma].intercalate ts ++ closeBrace :: rest).length ≤ fuel) :
    parseLoop parse fuel container ([comma].intercalate ts ++ closeBrace :: rest) =
      .ret (container ++ vss.flatten) rest := by
  induction h generalizing fuel container with
  | nil => exact absurd rfl hne
  | @cons t vs ts vss ht hts ih =>
    cases hts with
    | nil =>
      rw [List.intercalate_singleton] at hfuel ⊢
      obtain ⟨fuel', -, hloop⟩ := ht fuel container closeBrace rest (.inr rfl) hfuel
      rw [hloop, if_neg (by decide)]
      simp
    | @cons u ws us wss hu hus =>
      rw [List.intercalate_cons_cons, List.append_assoc, List.append_assoc, List.singleton_append] at hfuel ⊢
      obtain ⟨fuel', hfuel', hloop⟩ := ht fuel container comma _ (.inl rfl) hfuel
      rw [hloop, if_pos rfl, ih (List.cons_ne_nil u us) fuel' (container ++ vs) hfuel']
      simp only [List.flatten_cons, List.append_assoc]

/-- The text does not begin like the end of an array. -/
def Begins (text : Bytes) : Prop := ∃ c s, text = c :: s ∧ c ≠ closeBrace

theorem Begins.intercalate {t : Bytes} (h : Begins t) (ts : List Bytes) :
    Begins ([comma].intercalate (t :: ts)) := by
  obtain ⟨c, s, rfl, hc⟩ := h
  cases ts with
  | nil => exact ⟨c, s, List.intercalate_singleton, hc⟩
  | cons u us => exact ⟨c, _, List.intercalate_cons_cons, hc⟩

/-- An array is what its elements yield together. -/
theorem parseArray_literal {parse : Exec Bytes InvalidArgument α} {ts : List Bytes} {vss : List (List α)}
    (h : List.Forall₂ (Yields parse) ts vss) (hbegins : ∀ t ∈ ts, Begins t) (rest : Bytes) :
    parseArray parse (arrayLiteral ts ++ rest) = .ret vss.flatten rest := by
  have hopen : ∀ m : Bytes, parseArray parse (openBrace :: m) = ((do
      let c ← deref
      if c = closeBrace then do
        advance 1
        return []
      else do
        let m ← Exec.get
        parseLoop parse m.length []) : Exec Bytes InvalidArgument (List α)) m := by
    intro m
    rw [parseArray, bind_ret (deref_cons openBrace m), bind_ret (advance_one openBrace m)]
    rfl
  rw [arrayLiteral, List.cons_append, hopen, List.append_assoc, List.singleton_append]
  cases h with
  | nil => rfl
  | @cons t vs ts vss ht hts =>
    obtain ⟨c, s, htext, hc⟩ := (hbegins t List.mem_cons_self).intercalate ts
    have hloop := parseLoop_elements (.cons ht hts) (List.cons_ne_nil t ts) rest _ [] (le_refl _)
    rw [htext] at hloop ⊢
    rw [List.cons_append] at hloop ⊢
    rw [bind_ret (deref_cons c _), if_neg hc]
    exact hloop

end Containers

/-! ### Nested vectors -/

section Nested

variable {α : Type}

/-- Nested vectors when each element of the innermost ones is replaced by some others. -/
def expand (pieces : α → List α) : (d : Nat) → Vectors α (d + 1) → Vectors α (d + 1)
  | 0 => fun (l : List α) => l.flatMap pieces
  | d + 1 => fun (l : List (Vectors α (d + 1))) => l.map (expand pieces d)

/-- When the elements yield these pieces, so do the nested vectors. -/
theorem parseVectors_literal {t : ResultTraits α} {leaf : α → Bytes} {pieces : α → List α} {P : α → Prop}
    (hyields : ∀ x, P x → Yields (parseElement t) (leaf x) (pieces x)) (hbegins : ∀ x, P x → Begins (leaf x))
    (d : Nat) (v : Vectors α (d + 1)) (hv : Vectors.All P (d + 1) v) (rest : Bytes) :
    parseVectors t (d + 1) (Vectors.fold leaf arrayLiteral (d + 1) v ++ rest) = .ret (expand pieces d v) rest := by
  induction d generalizing rest with
  | zero =>
    change List α at v
    have hyields' := forall₂_map v fun x hx => hyields x (hv x hx)
    refine (parseArray_literal hyields' ?_ rest).trans ?_
    · intro u hu
      obtain ⟨x, hx, rfl⟩ := List.mem_map.mp hu
      exact hbegins x (hv x hx)
    · rw [← List.flatMap_def]
      rfl
  | succ d ih =>
    change List (Vectors α (d + 1)) at v
    have hone : ∀ w ∈ v, Yields (parseVectors t (d + 1)) (Vectors.fold leaf arrayLiteral (d + 1) w)
        [expand pieces d w] :=
      fun w hw => .one fun delim rest _ => ih w (hv w hw) (delim :: rest)
    refine (parseArray_literal (forall₂_map v hone) ?_ rest).trans ?_
    · intro u hu
      obtain ⟨w, -, rfl⟩ := List.mem_map.mp hu
      exact ⟨openBrace, _, rfl, by decide⟩
    · rw [← List.flatMap_def, ← List.map_eq_flatMap]
      rfl

theorem arrayFrom_literal {t : ResultTraits α} {leaf : α → Bytes} {pieces : α → List α} {P : α → Prop}
    (hyields : ∀ x, P x → Yields (parseElement t) (leaf x) (pieces x)) (hbegins : ∀ x, P x → Begins (leaf x))
    (d : Nat) (v : Vectors α (d + 1)) (hv : Vectors.All P (d + 1) v) :
    arrayFrom t d (cString (Vectors.fold leaf arrayLiteral (d + 1) v)) = .ret (expand pieces d v) [nul] := by
  rw [arrayFrom, cString, bind_ret (parseVectors_literal hyields hbegins d v hv [nul]), bind_ret (deref_cons nul [])]
  rfl

/-- Nothing is changed if and only if every element is replaced by itself. -/
theorem expand_eq_self_iff {pieces : α → List α} (hpieces : ∀ x, pieces x ≠ []) (d : Nat) (v : Vectors α (d + 1)) :
    expand pieces d v = v ↔ Vectors.All (fun x => pieces x = [x]) (d + 1) v := by
  induction d with
  | zero =>
    change List α at v
    exact Vectors.flatMap_eq_self_iff hpieces v
  | succ d ih =>
    change List (Vectors α (d + 1)) at v
    have hmap := List.map_inj_left (l := v) (f := expand pieces d) (g := id)
    rw [List.map_id] at hmap
    exact hmap.trans (forall₂_congr fun w _ => ih w)

end Nested

/-! ### Optional strings -/

/-- `result_traits< std::optional< std::string > >` -/
abbrev optionalString : ResultTraits (Option Bytes) := optionalTraits stringTraits

/-- A `std::optional< std::string >` without a byte `0` in it. -/
def NulFree (x : Option Bytes) : Prop := ∀ s ∈ x, nul ∉ s

instance : DecidablePred NulFree := fun x => inferInstanceAs (Decidable (∀ s ∈ x, nul ∉ s))

/-- What a text without quotes is read as. -/
def bareResult (s : Bytes) : Option Bytes := if s = ascii "NULL" then none else some s

private theorem parseElement_quoted {s : Bytes} (hs : nul ∉ s) (rest : Bytes) :
    parseElement optionalString (quotedText s ++ rest) = .ret (some s) rest := by
  rw [quotedText, List.cons_append, List.append_assoc, List.singleton_append, parseElement,
    bind_ret (deref_cons quote _), if_pos rfl, bind_ret (advance_one quote _), bind_ret (parseQuoted_escape hs rest)]
  show Outcome.ret (some (stringAt (cString s))) rest = _
  rw [stringAt_cString hs]

private theorem parseElement_bare {s : Bytes} (hs : ∀ b ∈ s, b ≠ nul ∧ b ≠ quote ∧ b ∉ [comma, semicolon, closeBrace])
    {delim : UInt8} (hdelim : delim ∈ [comma, semicolon, closeBrace]) (rest : Bytes) :
    parseElement optionalString (s ++ delim :: rest) = .ret (bareResult s) (delim :: rest) := by
  have hfirst : ∃ c m, s ++ delim :: rest = c :: m ∧ c ≠ quote := by
    cases s with
    | nil =>
      refine ⟨delim, rest, rfl, ?_⟩
      rintro rfl
      exact absurd hdelim (by decide)
    | cons c s => exact ⟨c, _, rfl, (hs c List.mem_cons_self).2.1⟩
  have hread := parseUnquoted_bare (fun b hb => ⟨(hs b hb).1, (hs b hb).2.2⟩) hdelim rest
  obtain ⟨c, m, htext, hc⟩ := hfirst
  rw [htext] at hread ⊢
  rw [parseElement, bind_ret (deref_cons c m), if_neg hc, bind_ret hread, bareResult]
  by_cases hnull : s = ascii "NULL"
  · rw [if_pos hnull, if_pos hnull]
    rfl
  · have hnul : nul ∉ s := fun h => (hs nul h).1 rfl
    rw [if_neg hnull, if_neg hnull]
    show Outcome.ret (some (stringAt (cString s))) _ = _
    rw [stringAt_cString hnul]

theorem quoted_yields {s : Bytes} (hs : nul ∉ s) : Yields (parseElement optionalString) (quotedText s) [some s] :=
  .one fun delim rest _ => parseElement_quoted hs (delim :: rest)

/-- A text without quotes falls apart at its semicolons. -/
theorem bare_yields {s : Bytes} (hs : ∀ b ∈ s, b ≠ nul ∧ b ≠ quote ∧ b ∉ [comma, closeBrace]) :
    Yields (parseElement optionalString) s ((s.splitOn semicolon).map bareResult) := by
  induction hn : s.length using Nat.strong_induction_on generalizing s with
  | _ n ih =>
    subst hn
    have hclean : ∀ {u : Bytes}, (∀ b ∈ u, b ∈ s) → semicolon ∉ u →
        ∀ b ∈ u, b ≠ nul ∧ b ≠ quote ∧ b ∉ [comma, semicolon, closeBrace] := by
      intro u hu hsemicolon b hb
      obtain ⟨hnul, hquote, hdelim⟩ := hs b (hu b hb)
      have hne : b ≠ semicolon := fun h => hsemicolon (h ▸ hb)
      exact ⟨hnul, hquote, by simpa [hne] using hdelim⟩
    by_cases hsemicolon : semicolon ∈ s
    · obtain ⟨u, w, rfl, hu⟩ := List.eq_append_cons_of_mem hsemicolon
      intro fuel container delim rest hdelim hfuel
      obtain ⟨fuel, rfl⟩ : ∃ n, fuel = n + 1 := ⟨fuel - 1, by simp at hfuel; omega⟩
      have hread := parseElement_bare (hclean (fun b hb => List.mem_append_left _ hb) hu)
        (show semicolon ∈ [comma, semicolon, closeBrace] by decide) (w ++ delim :: rest)
      have hw := ih w.length (by simp; omega) (s := w) (fun b hb => hs b (by simp [hb])) rfl
      obtain ⟨fuel', hfuel', hloop⟩ := hw fuel (container ++ [bareResult u]) delim rest hdelim
        (by simp at hfuel ⊢; omega)
      refine ⟨fuel', hfuel', ?_⟩
      rw [List.append_assoc, List.cons_append, parseLoop_separator hread (.inr rfl), hloop,
        List.splitOn_append_cons_self_of_not_mem hu, List.map_cons]
      simp only [List.append_assoc, List.singleton_append]
    · rw [List.splitOn_eq_singleton hsemicolon]
      refine .one fun delim rest hdelim => parseElement_bare (hclean (fun b hb => hb) hsemicolon) ?_ rest
      rcases hdelim with rfl | rfl <;> decide

/-! ### The library's own spelling -/

private theorem elementText_yields (x : Option Bytes) (hx : NulFree x) :
    Yields (parseElement optionalString) (elementText x) [x] := by
  cases x with
  | none => exact bare_yields (s := nullWord) (by decide)
  | some s =>
    have hnul : nul ∉ s := hx s rfl
    by_cases hbare : WrittenBare s
    · have hs : ∀ b ∈ s, b ≠ nul ∧ b ≠ quote ∧ b ∉ [comma, closeBrace] := by
        intro b hb
        have hspecial := hbare.2.2 b hb
        simp only [arraySpecial, List.mem_cons, List.not_mem_nil, or_false, not_or] at hspecial
        refine ⟨fun h => hnul (h ▸ hb), hspecial.2.1, ?_⟩
        simp [hspecial]
      have hsemicolon : semicolon ∉ s := fun h => hbare.2.2 semicolon h (by decide)
      have hyields := bare_yields hs
      rw [List.splitOn_eq_singleton hsemicolon, List.map_singleton, bareResult,
        if_neg (show ¬ s = ascii "NULL" from hbare.2.1)] at hyields
      rw [elementText, if_pos hbare]
      exact hyields
    · rw [elementText, if_neg hbare]
      exact quoted_yields hnul

private theorem elementText_begins (x : Option Bytes) : Begins (elementText x) := by
  cases x with
  | none => exact ⟨_, _, rfl, by decide⟩
  | some s =>
    by_cases hbare : WrittenBare s
    · rw [elementText, if_pos hbare]
      cases s with
      | nil => exact absurd rfl hbare.1
      | cons c s => exact ⟨c, s, rfl, fun h => hbare.2.2 c List.mem_cons_self (by rw [h]; decide)⟩
    · rw [elementText, if_neg hbare]
      exact ⟨quote, _, rfl, by decide⟩

/-- The text of an array parameter is read back as the value it was made of, up to its end. -/
theorem array_round_trip (d : Nat) (v : Vectors (Option Bytes) (d + 1)) (hv : Vectors.All NulFree (d + 1) v) :
    arrayFrom optionalString d (cString (Param.arrayText (Param.ofVectors (d + 1) v))) = .ret v [nul] := by
  have hself : expand (fun x => [x]) d v = v := by
    refine (expand_eq_self_iff (fun x => List.cons_ne_nil x []) d v).mpr ?_
    exact Vectors.All.mono (fun _ _ => rfl) hv
  rw [Param.arrayText_ofVectors, arrayFrom_literal elementText_yields (fun x _ => elementText_begins x) d v hv, hself]

theorem array_round_trip_ragged :
    arrayFrom optionalString 1 (cString (Param.arrayText (Param.ofVectors 2
      [[none, some (ascii "NULL"), some []], [], [some (ascii "a;b"), some (ascii "null")]]))) =
        .ret [[none, some (ascii "NULL"), some []], [], [some (ascii "a;b"), some (ascii "null")]] [nul] :=
  array_round_trip 1 _ (.of_decide rfl)

/-! ### The spelling of the server -/

/-- What an element becomes as the server spells it. -/
def elementResults : Option Bytes → List (Option Bytes)
  | none => [none]
  | some s => if ArrayOutput.NeedsQuotes s then [some s] else (s.splitOn semicolon).map bareResult

/-- An element that comes back: if the server puts no quotes around it, then there is no semicolon in it. -/
def Unsplit : Option Bytes → Prop
  | none => True
  | some s => semicolon ∈ s → ArrayOutput.NeedsQuotes s

instance : DecidablePred Unsplit
  | none => .isTrue trivial
  | some s => inferInstanceAs (Decidable (semicolon ∈ s → ArrayOutput.NeedsQuotes s))

namespace ArrayOutput

private theorem bare_bytes {s : Bytes} (hs : ¬ NeedsQuotes s) : ∀ b ∈ s, b ∉ special := fun b hb hmem =>
  hs (.inr (.inl ⟨b, hb, .inl hmem⟩))

theorem element_yields (x : Option Bytes) (hx : NulFree x) :
    Yields (parseElement optionalString) (element x) (elementResults x) := by
  cases x with
  | none => exact bare_yields (s := ascii "NULL") (by decide)
  | some s =>
    have hnul : nul ∉ s := hx s rfl
    by_cases hquotes : NeedsQuotes s
    · rw [element, if_pos hquotes, elementResults, if_pos hquotes]
      exact quoted_yields hnul
    · rw [element, if_neg hquotes, elementResults, if_neg hquotes]
      refine bare_yields fun b hb => ?_
      have hspecial := bare_bytes hquotes b hb
      simp only [special, List.mem_cons, List.not_mem_nil, or_false, not_or] at hspecial
      refine ⟨fun h => hnul (h ▸ hb), hspecial.2.2.2.1, ?_⟩
      simp [hspecial]

theorem element_begins (x : Option Bytes) : Begins (element x) := by
  cases x with
  | none => exact ⟨_, _, rfl, by decide⟩
  | some s =>
    by_cases hquotes : NeedsQuotes s
    · rw [element, if_pos hquotes]
      exact ⟨quote, _, rfl, by decide⟩
    · rw [element, if_neg hquotes]
      cases s with
      | nil => exact absurd (.inl rfl) hquotes
      | cons c s => exact ⟨c, s, rfl, fun h => bare_bytes hquotes c List.mem_cons_self (by rw [h]; decide)⟩

end ArrayOutput

/-- An element is one value, itself, if and only if it is not cut at a semicolon. -/
theorem elementResults_iff (x : Option Bytes) : elementResults x = [x] ↔ Unsplit x := by
  cases x with
  | none => exact iff_of_true rfl trivial
  | some s =>
    by_cases hquotes : ArrayOutput.NeedsQuotes s
    · rw [elementResults, if_pos hquotes]
      exact iff_of_true rfl fun _ => hquotes
    · rw [elementResults, if_neg hquotes]
      by_cases hsemicolon : semicolon ∈ s
      · refine iff_of_false (fun h => ?_) fun h => hquotes (h hsemicolon)
        obtain ⟨u, w, rfl, hu⟩ := List.eq_append_cons_of_mem hsemicolon
        have hlength := congrArg List.length h
        have hpos := List.length_pos_iff.mpr (List.splitOn_ne_nil semicolon w)
        rw [List.splitOn_append_cons_self_of_not_mem hu, List.length_map, List.length_cons, List.length_singleton]
          at hlength
        omega
      · have hnull : s ≠ ascii "NULL" := by
          rintro rfl
          exact hquotes (by decide)
        rw [List.splitOn_eq_singleton hsemicolon, List.map_singleton, bareResult, if_neg hnull]
        exact iff_of_true rfl fun h => absurd h hsemicolon

/-- Reading the text that the server renders returns the array it has if and only if no element that stands without
quotes has a semicolon in it. -/
theorem array_result_iff (d : Nat) (v : Vectors (Option Bytes) (d + 1)) (hv : Vectors.All NulFree (d + 1) v) :
    arrayFrom optionalString d (cString (ArrayOutput.render (d + 1) v)) = .ret v [nul] ↔
      Vectors.All Unsplit (d + 1) v := by
  have hread := arrayFrom_literal ArrayOutput.element_yields (fun x _ => ArrayOutput.element_begins x) d v hv
  have hne : ∀ x, elementResults x ≠ [] := by
    intro x
    cases x with
    | none => exact List.cons_ne_nil _ _
    | some s =>
      rw [elementResults]
      split
      · exact List.cons_ne_nil _ _
      · exact fun h => List.splitOn_ne_nil semicolon s (List.map_eq_nil_iff.mp h)
  have hpieces := expand_eq_self_iff hne d v
  rw [ArrayOutput.render, hread]
  constructor
  · intro h
    have hself : expand elementResults d v = v := by injection h
    exact (hpieces.mp hself).mono fun x => (elementResults_iff x).mp
  · intro h
    rw [hpieces.mpr (h.mono fun x => (elementResults_iff x).mpr)]

theorem array_result_matrix :
    arrayFrom optionalString 1 (cString (ArrayOutput.render 2
      [[some (ascii "a;b c"), none], [some (ascii "NULL"), some []]])) =
        .ret [[some (ascii "a;b c"), none], [some (ascii "NULL"), some []]] [nul] := by
  have hnulFree : Vectors.All NulFree 2 [[some (ascii "a;b c"), none], [some (ascii "NULL"), some []]] := .of_decide rfl
  exact (array_result_iff 1 _ hnulFree).mpr (.of_decide rfl)

/-- One element with a semicolon comes back as two. -/
theorem semicolon_splits :
    arrayFrom optionalString 0 (cString (ArrayOutput.render 1 [some (ascii "a;b")])) =
        .ret [some (ascii "a"), some (ascii "b")] [nul] ∧
      arrayFrom optionalString 0 (cString (ArrayOutput.render 1 [some (ascii "a;b")])) ≠
        .ret [some (ascii "a;b")] [nul] := by
  have hread : arrayFrom optionalString 0 (cString (ArrayOutput.render 1 [some (ascii "a;b")])) =
      .ret [some (ascii "a"), some (ascii "b")] [nul] := by rfl
  refine ⟨hread, fun h => ?_⟩
  rw [hread] at h
  injection h with h
  exact absurd (congrArg List.length h) (by decide)

end TaoPQ
