import TaoPQ.ArrayResults

/-!
# Texts that are no arrays

What `result_traits< T >::from` does with any text that ends with a byte `0`, for containers of any kind, nested to any
depth.  It returns a container or throws, except for one kind of text: where a backslash in a quoted element is the last
byte in front of the `0`, `parse_quoted` takes the `0` for the byte that the backslash escapes, and goes on behind it
(`array_defined_iff`).
-/

namespace TaoPQ

open Byte CString Exec

/-! ### Array types -/

/-- How a container is filled, by `push_back` or by `insert`. -/
structure Container (β γ : Type) where
  empty : γ
  add : γ → β → γ

namespace Container

variable {β γ : Type}

/-- The loop of `internal::parse` for a container. -/
def parseLoop (c : Container β γ) (parse : Exec Bytes InvalidArgument β) : Nat → γ → Exec Bytes InvalidArgument γ
  | 0, _ => Exec.undefined
  | fuel + 1, container => do
    let v ← parse
    let b ← deref
    advance 1
    match b with
    | comma | semicolon => parseLoop c parse fuel (c.add container v)
    | closeBrace => return c.add container v
    | _ => Exec.throw ⟨"expected ',', ';', or '\x7d'"⟩

/-- `internal::parse` for a container. -/
def parse (c : Container β γ) (parse : Exec Bytes InvalidArgument β) : Exec Bytes InvalidArgument γ := do
  let b ← deref
  advance 1
  if b ≠ openBrace then Exec.throw ⟨"expected '\x7b'"⟩
  else do
    let b ← deref
    if b = closeBrace then do
      advance 1
      return c.empty
    else do
      let m ← Exec.get
      c.parseLoop parse m.length c.empty

/-- `std::vector` -/
def vector (β : Type) : Container β (List β) := ⟨[], fun l v => l ++ [v]⟩

theorem parseLoop_vector (parse : Exec Bytes InvalidArgument β) (fuel : Nat) (container : List β) :
    (vector β).parseLoop parse fuel container = TaoPQ.parseLoop parse fuel container := by
  induction fuel generalizing container with
  | zero => rfl
  | succ fuel ih =>
    rw [parseLoop, TaoPQ.parseLoop]
    congr 1
    funext v
    congr 1
    funext b
    congr 1
    funext _
    rw [ih]
    rfl

theorem parse_vector (parse : Exec Bytes InvalidArgument β) : (vector β).parse parse = parseArray parse := by
  unfold Container.parse parseArray
  simp only [parseLoop_vector]
  rfl

end Container

/-- A type of arrays: containers in containers, down to an element. -/
inductive ArrayType (α : Type) : Type → Type 1 where
  | element : ArrayType α α
  | container {β γ : Type} (c : Container β γ) (t : ArrayType α β) : ArrayType α γ

namespace ArrayType

variable {α γ : Type}

/-- How deep the containers are nested. -/
def depth : {γ : Type} → ArrayType α γ → Nat
  | _, element => 0
  | _, container _ t => t.depth + 1

/-- `internal::parse` -/
def parse (t : ResultTraits α) : {γ : Type} → ArrayType α γ → Exec Bytes InvalidArgument γ
  | _, element => parseElement t
  | _, container c u => c.parse (parse t u)

/-- `result_traits< T >::from` -/
def fromText (t : ResultTraits α) (u : ArrayType α γ) : Exec Bytes InvalidArgument γ := do
  let container ← u.parse t
  let b ← deref
  if b ≠ nul then Exec.throw ⟨"unexpected additional data"⟩
  else return container

/-- Vectors nested `d` deep. -/
def vectors (α : Type) : (d : Nat) → ArrayType α (Vectors α d)
  | 0 => element
  | d + 1 => container (.vector (Vectors α d)) (vectors α d)

theorem parse_vectors (t : ResultTraits α) (d : Nat) : (vectors α d).parse t = parseVectors t d := by
  induction d with
  | zero => rfl
  | succ d ih =>
    show (Container.vector _).parse ((vectors α d).parse t) = parseArray (parseVectors t d)
    rw [ih, Container.parse_vector]

theorem fromText_vectors (t : ResultTraits α) (d : Nat) : (vectors α (d + 1)).fromText t = arrayFrom t d := by
  rw [fromText, parse_vectors, arrayFrom]

end ArrayType

/-! ### Texts -/

/-- What stands between quotes: a backslash takes the next byte with it. -/
abbrev QuotedBody : Bytes → Prop := Escaping.Spelled backslash (· ∉ quotedSpecial) fun _ => True

/-- The bytes behind an element. -/
abbrev delimiters : Bytes := [comma, semicolon, closeBrace]

/-- The text of an element that is read: in quotes, or without. -/
def ElementText (nullable : Bool) (x : Bytes) : Prop :=
  (∃ s, QuotedBody s ∧ x = quote :: (s ++ [quote])) ∨
    x.head? ≠ some quote ∧ (∀ b ∈ x, b ∉ delimiters) ∧ (x = ascii "NULL" → nullable = true)

/-- Texts that are followed by separators. -/
inductive Items (P : Bytes → Prop) : Bytes → Prop where
  | nil : Items P []
  | cons {w rest : Bytes} {separator : UInt8} : P w → separator = comma ∨ separator = semicolon → Items P rest →
      Items P (w ++ separator :: rest)

/-- The text of an array that is read. -/
def WholeText (nullable : Bool) : Nat → Bytes → Prop
  | 0, x => ElementText nullable x
  | d + 1, x => x = [openBrace, closeBrace] ∨ ∃ items last, Items (WholeText nullable d) items ∧
      WholeText nullable d last ∧ x = openBrace :: (items ++ (last ++ [closeBrace]))

/-- The text of an array that ends in a quoted element, with the backslash of an escape. -/
def CutText (nullable : Bool) : Nat → Bytes → Prop
  | 0, x => ∃ s, QuotedBody s ∧ x = quote :: (s ++ [backslash])
  | d + 1, x => ∃ items cut, Items (WholeText nullable d) items ∧ CutText nullable d cut ∧
      x = openBrace :: (items ++ cut)

/-! ### Quoted elements -/

namespace QuotedBody

/-- The loop passes the escapes, and what is left stands for itself. -/
theorem loop {s : Bytes} (h : QuotedBody s) (hs : nul ∉ s) (m result : Bytes) (fuel : Nat)
    (hfuel : (s ++ m).length ≤ fuel) : ∃ last result' fuel', (∀ b ∈ last, b ≠ nul ∧ b ∉ quotedSpecial) ∧
      (last ++ m).length ≤ fuel' ∧
      parseQuotedLoop fuel result (s ++ m) = parseQuotedLoop fuel' result' (last ++ m) := by
  induction hn : s.length using Nat.strong_induction_on generalizing s result fuel with
  | _ n ih =>
    subst hn
    rcases h.split with hplain | ⟨before, b, rest, rfl, hbefore, -, hrest⟩
    · exact ⟨s, result, fuel, fun b hb => ⟨fun hnul => hs (hnul ▸ hb), hplain b hb⟩, hfuel, rfl⟩
    · have hclean : ∀ c ∈ before, c ≠ nul ∧ c ∉ quotedSpecial := fun c hc =>
        ⟨fun hnul => hs (by simp [← hnul, hc]), hbefore c hc⟩
      obtain ⟨fuel, rfl⟩ : ∃ n, fuel = n + 1 := ⟨fuel - 1, by simp at hfuel; omega⟩
      obtain ⟨last, result', fuel', hlast, hfuel', hloop⟩ := ih rest.length (by simp; omega) hrest
        (fun h => hs (by simp [h])) (result ++ before ++ [b]) fuel (by simp at hfuel ⊢; omega) rfl
      refine ⟨last, result', fuel', hlast, hfuel', ?_⟩
      rw [← hloop, List.append_assoc, List.cons_append, List.cons_append, parseQuotedLoop_backslash hclean]

theorem parse_closed {s : Bytes} (h : QuotedBody s) (hs : nul ∉ s) (m : Bytes) :
    ∃ v, parseQuoted (s ++ quote :: m) = .ret v m := by
  obtain ⟨last, result, fuel, hlast, hfuel, hloop⟩ := h.loop hs (quote :: m) [] _ (le_refl _)
  obtain ⟨fuel, rfl⟩ : ∃ n, fuel = n + 1 := ⟨fuel - 1, by simp at hfuel; omega⟩
  exact ⟨_, hloop.trans (parseQuotedLoop_quote hlast m result fuel)⟩

/-- The loop goes on behind the end of the memory. -/
theorem loop_cut {before : Bytes} (hbefore : ∀ b ∈ before, b ≠ nul ∧ b ∉ quotedSpecial) (result : Bytes) (fuel : Nat) :
    parseQuotedLoop (fuel + 1) result (before ++ [backslash, nul]) = .undefined := by
  rw [parseQuotedLoop_backslash hbefore]
  cases fuel with
  | zero => rfl
  | succ fuel => rfl

theorem parse_cut {s : Bytes} (h : QuotedBody s) (hs : nul ∉ s) :
    parseQuoted (s ++ [backslash, nul]) = .undefined := by
  obtain ⟨last, result, fuel, hlast, hfuel, hloop⟩ := h.loop hs [backslash, nul] [] _ (le_refl _)
  obtain ⟨fuel, rfl⟩ : ∃ n, fuel = n + 1 := ⟨fuel - 1, by simp at hfuel; omega⟩
  exact hloop.trans (loop_cut hlast result fuel)

end QuotedBody

/-- The quote is found, or there is none, or the text ends with the backslash of an escape. -/
theorem parseQuotedLoop_cases {x : Bytes} (hx : nul ∉ x) (result : Bytes) (fuel : Nat) (hfuel : x.length < fuel) :
    (∃ v s y, parseQuotedLoop fuel result (cString x) = .ret v (cString y) ∧ x = s ++ quote :: y ∧ QuotedBody s) ∨
      (∃ e m, parseQuotedLoop fuel result (cString x) = .throw e m) ∨
      parseQuotedLoop fuel result (cString x) = .undefined ∧ ∃ s, QuotedBody s ∧ x = s ++ [backslash] := by
  induction hn : x.length using Nat.strong_induction_on generalizing x result fuel with
  | _ n ih =>
    subst hn
    obtain ⟨fuel, rfl⟩ : ∃ n, fuel = n + 1 := ⟨fuel - 1, by omega⟩
    rcases none_or_first quotedSpecial x with hnone | ⟨before, b, rest, rfl, hb, hbefore⟩
    · have hsearch : (search [backslash, quote] : Exec Bytes InvalidArgument _) (cString x) = .ret none (cString x) :=
        search_none (fun b hb => ⟨fun hnul => hx (hnul ▸ hb), hnone b hb⟩) []
      refine .inr (.inl ⟨⟨"unterminated quoted string"⟩, cString x, ?_⟩)
      rw [parseQuotedLoop, bind_ret hsearch]
      rfl
    · have hclean : ∀ c ∈ before, c ≠ nul ∧ c ∉ quotedSpecial := fun c hc =>
        ⟨fun hnul => hx (by simp [← hnul, hc]), hbefore c hc⟩
      have hmemory : cString (before ++ b :: rest) = before ++ b :: cString rest := by simp [cString]
      rw [hmemory]
      obtain rfl | rfl : b = backslash ∨ b = quote := by simpa [quotedSpecial] using hb
      · cases rest with
        | nil => exact .inr (.inr ⟨QuotedBody.loop_cut hclean result fuel, before, .of_plain hbefore, rfl⟩)
        | cons c rest =>
          have hstep := parseQuotedLoop_backslash hclean (cString rest) result fuel c
          have hc : cString (c :: rest) = c :: cString rest := rfl
          rw [hc, hstep]
          rcases ih rest.length (by simp; omega) (x := rest) (fun h => hx (by simp [h])) (result ++ before ++ [c]) fuel
            (by simp at hfuel; omega) rfl with ⟨v, s, y, hret, rfl, hs⟩ | hthrow | ⟨hundefined, s, hs, rfl⟩
          · exact .inl ⟨v, before ++ backslash :: c :: s, y, hret, by simp, .append_escaped hbefore trivial hs⟩
          · exact .inr (.inl hthrow)
          · exact .inr (.inr ⟨hundefined, before ++ backslash :: c :: s, .append_escaped hbefore trivial hs, by simp⟩)
      · exact .inl ⟨_, before, rest, parseQuotedLoop_quote hclean (cString rest) result fuel, rfl, .of_plain hbefore⟩

/-! ### Reading in pieces -/

/-- What a parser does with the texts that it reads, and with those that are cut off: it stops at the delimiter behind
the former, and runs over the end of the latter. -/
structure ReadsText {β : Type} (parse : Exec Bytes InvalidArgument β) (whole cut : Bytes → Prop) : Prop where
  passes : ∀ w, whole w → nul ∉ w → ∀ delim ∈ delimiters, ∀ m, ∃ v, parse (w ++ delim :: m) = .ret v (delim :: m)
  runs_over : ∀ x, cut x → nul ∉ x → parse (cString x) = .undefined
  cases : ∀ x, nul ∉ x → (∃ v w y, parse (cString x) = .ret v (cString y) ∧ x = w ++ y ∧ whole w) ∨
    (∃ e m, parse (cString x) = .throw e m) ∨ parse (cString x) = .undefined ∧ cut x
  whole_begins : ∀ w, whole w → w.head? ≠ some closeBrace
  cut_begins : ∀ x, cut x → ∃ b s, x = b :: s ∧ b ≠ closeBrace

/-- An element without quotes is read, or there is nothing behind it. -/
theorem parseUnquoted_cases {x : Bytes} (hx : nul ∉ x) :
    (∃ w b y, parseUnquoted (cString x) = .ret w (cString (b :: y)) ∧ x = w ++ b :: y ∧ ∀ c ∈ w, c ∉ delimiters) ∨
      ∃ e m, parseUnquoted (cString x) = .throw e m := by
  rcases none_or_first delimiters x with hnone | ⟨before, b, rest, rfl, hb, hbefore⟩
  · have hsearch : (search [comma, semicolon, closeBrace] : Exec Bytes InvalidArgument _) (cString x) =
      .ret none (cString x) := search_none (fun b hb => ⟨fun hnul => hx (hnul ▸ hb), hnone b hb⟩) []
    refine .inr ⟨⟨"unterminated unquoted string"⟩, cString x, ?_⟩
    rw [parseUnquoted, bind_ret hsearch]
    rfl
  · have hclean : ∀ c ∈ before, c ≠ nul ∧ c ∉ delimiters := fun c hc =>
      ⟨fun hnul => hx (by simp [← hnul, hc]), hbefore c hc⟩
    have hmemory : cString (before ++ b :: rest) = before ++ b :: cString rest := by simp [cString]
    refine .inl ⟨before, b, rest, ?_, rfl, hbefore⟩
    rw [hmemory]
    exact parseUnquoted_bare hclean hb (cString rest)

section

variable {α : Type} (t : ResultTraits α)

theorem parseElement_behind_quote (m : Bytes) : parseElement t (quote :: m) =
    (parseQuoted >>= fun input => return t.fromText (cString input) : Exec Bytes InvalidArgument α) m := by
  rw [parseElement, bind_ret (deref_cons quote m), if_pos rfl, bind_ret (advance_one quote m)]

theorem parseElement_without_quote {b : UInt8} (hb : b ≠ quote) {m input m' : Bytes}
    (h : parseUnquoted (b :: m) = .ret input m') : parseElement t (b :: m) =
      if input = ascii "NULL" then t.null.elim (.throw ⟨"unexpected NULL value"⟩ m') fun v => .ret v m'
      else .ret (t.fromText (cString input)) m' := by
  rw [parseElement, bind_ret (deref_cons b m), if_neg hb, bind_ret h]
  by_cases hnull : input = ascii "NULL"
  · rw [if_pos hnull, if_pos hnull]
    cases t.null <;> rfl
  · rw [if_neg hnull, if_neg hnull]
    rfl

/-- An element is read, or given up, or it is cut off inside quotes. -/
private theorem parseElement_cases {x : Bytes} (hx : nul ∉ x) :
    (∃ v w y, parseElement t (cString x) = .ret v (cString y) ∧ x = w ++ y ∧ ElementText t.null.isSome w) ∨
      (∃ e m, parseElement t (cString x) = .throw e m) ∨
      parseElement t (cString x) = .undefined ∧ ∃ s, QuotedBody s ∧ x = quote :: (s ++ [backslash]) := by
  by_cases hfirst : x.head? = some quote
  · obtain ⟨x, rfl⟩ : ∃ y, x = quote :: y := List.head?_eq_some_iff.1 hfirst
    have hx' : nul ∉ x := fun h => hx (List.mem_cons_of_mem _ h)
    have hmemory : cString (quote :: x) = quote :: cString x := rfl
    rw [hmemory, parseElement_behind_quote]
    rcases parseQuotedLoop_cases hx' [] (cString x).length (by simp [cString]) with
      ⟨v, s, y, hret, rfl, hs⟩ | ⟨e, m, hthrow⟩ | ⟨hundefined, s, hs, rfl⟩
    · have hret' : parseQuoted (cString (s ++ quote :: y)) = .ret v (cString y) := hret
      refine .inl ⟨t.fromText (cString v), quote :: (s ++ [quote]), y, ?_, by simp, .inl ⟨s, hs, rfl⟩⟩
      rw [bind_ret hret']
      rfl
    · exact .inr (.inl ⟨e, m, bind_throw hthrow _⟩)
    · exact .inr (.inr ⟨bind_undefined hundefined _, s, hs, rfl⟩)
  · obtain ⟨b, m, hmemory, hb⟩ : ∃ b m, cString x = b :: m ∧ b ≠ quote := by
      cases x with
      | nil => exact ⟨nul, [], rfl, by decide⟩
      | cons b x => exact ⟨b, cString x, rfl, fun h => hfirst (by rw [h]; rfl)⟩
    rcases parseUnquoted_cases hx with ⟨w, c, y, hread, rfl, hw⟩ | ⟨e, m', hthrow⟩
    · rw [hmemory] at hread ⊢
      rw [parseElement_without_quote t hb hread]
      have hfirst' : w.head? ≠ some quote := by
        intro h
        obtain ⟨w, rfl⟩ := List.head?_eq_some_iff.1 h
        exact hfirst rfl
      by_cases hnull : w = ascii "NULL"
      · rw [if_pos hnull]
        cases hoption : t.null with
        | none => exact .inr (.inl ⟨_, _, rfl⟩)
        | some v => exact .inl ⟨v, w, c :: y, rfl, rfl, .inr ⟨hfirst', hw, fun _ => rfl⟩⟩
      · rw [if_neg hnull]
        exact .inl ⟨_, w, c :: y, rfl, rfl, .inr ⟨hfirst', hw, fun h => absurd h hnull⟩⟩
    · rw [hmemory] at hthrow ⊢
      refine .inr (.inl ⟨e, m', ?_⟩)
      rw [parseElement, bind_ret (deref_cons b m), if_neg hb, bind_throw hthrow]

theorem readsText_element : ReadsText (parseElement t) (ElementText t.null.isSome)
    fun x => ∃ s, QuotedBody s ∧ x = quote :: (s ++ [backslash]) where
  passes := by
    rintro w (⟨s, hs, rfl⟩ | ⟨hfirst, hbare, hnull⟩) hnul delim hdelim m
    · have hnul' : nul ∉ s := fun h => hnul (by simp [h])
      obtain ⟨v, hv⟩ := hs.parse_closed hnul' (delim :: m)
      refine ⟨t.fromText (cString v), ?_⟩
      have hmemory : quote :: (s ++ [quote]) ++ delim :: m = quote :: (s ++ quote :: delim :: m) := by simp
      rw [hmemory, parseElement_behind_quote, bind_ret hv]
      rfl
    · have hread := parseUnquoted_bare (fun b hb => ⟨fun h => hnul (h ▸ hb), hbare b hb⟩) hdelim m
      obtain ⟨b, m', hmemory, hb⟩ : ∃ b m', w ++ delim :: m = b :: m' ∧ b ≠ quote := by
        cases w with
        | nil => exact ⟨delim, m, rfl, by rintro rfl; exact absurd hdelim (by decide)⟩
        | cons b w => exact ⟨b, w ++ delim :: m, rfl, fun h => hfirst (by rw [h]; rfl)⟩
      rw [hmemory] at hread ⊢
      rw [parseElement_without_quote t hb hread]
      by_cases hw : w = ascii "NULL"
      · obtain ⟨v, hv⟩ := Option.isSome_iff_exists.1 (hnull hw)
        exact ⟨v, by rw [if_pos hw, hv]; rfl⟩
      · exact ⟨t.fromText (cString w), if_neg hw⟩
  runs_over := by
    rintro x ⟨s, hs, rfl⟩ hnul
    have hnul' : nul ∉ s := fun h => hnul (by simp [h])
    have hmemory : cString (quote :: (s ++ [backslash])) = quote :: (s ++ [backslash, nul]) := by simp [cString]
    rw [hmemory, parseElement_behind_quote, bind_undefined (hs.parse_cut hnul')]
  cases _ hx := parseElement_cases t hx
  whole_begins := by
    rintro w (⟨s, -, rfl⟩ | ⟨-, hw, -⟩) h
    · exact absurd (Option.some.inj h) (by decide)
    · obtain ⟨w, rfl⟩ := List.head?_eq_some_iff.1 h
      exact hw closeBrace List.mem_cons_self (by decide)
  cut_begins := by
    rintro x ⟨s, -, rfl⟩
    exact ⟨quote, s ++ [backslash], rfl, by decide⟩

end

/-! ### Containers -/

section Containers

variable {β γ : Type} {parse : Exec Bytes InvalidArgument β} {whole cut : Bytes → Prop} (c : Container β γ)

/-- What the byte behind an element says. -/
theorem Container.parseLoop_step {v : β} {b : UInt8} {m rest : Bytes} (h : parse m = .ret v (b :: rest)) (fuel : Nat)
    (container : γ) : c.parseLoop parse (fuel + 1) container m =
      if b = comma ∨ b = semicolon then c.parseLoop parse fuel (c.add container v) rest
      else if b = closeBrace then .ret (c.add container v) rest
      else .throw ⟨"expected ',', ';', or '\x7d'"⟩ rest := by
  rw [Container.parseLoop, bind_ret h, bind_ret (deref_cons b rest), bind_ret (advance_one b rest)]
  by_cases hseparator : b = comma ∨ b = semicolon
  · rw [if_pos hseparator]
    rcases hseparator with rfl | rfl <;> rfl
  · rw [if_neg hseparator]
    by_cases hclose : b = closeBrace
    · rw [if_pos hclose, hclose]
      rfl
    · rw [if_neg hclose]
      split
      · exact absurd (.inl rfl) hseparator
      · exact absurd (.inr rfl) hseparator
      · exact absurd rfl hclose
      · rfl

/-- The array that begins here. -/
theorem Container.parse_step {m : Bytes} (hm : m ≠ []) : c.parse parse (openBrace :: m) =
    if m.head? = some closeBrace then .ret c.empty m.tail else c.parseLoop parse m.length c.empty m := by
  obtain ⟨b, m, rfl⟩ := List.exists_cons_of_ne_nil hm
  rw [Container.parse, bind_ret (deref_cons openBrace _), bind_ret (advance_one openBrace _), if_neg (by decide),
    bind_ret (deref_cons b m), List.head?_cons]
  by_cases hb : b = closeBrace
  · rw [if_pos hb, if_pos (congrArg some hb), bind_ret (advance_one b m)]
    rfl
  · rw [if_neg hb, if_neg fun h => hb (Option.some.inj h)]
    rfl

theorem Items.begins {items : Bytes} (h : Items whole items) (hwhole : ∀ w, whole w → w.head? ≠ some closeBrace)
    {m : Bytes} (hm : items = [] → m.head? ≠ some closeBrace) : (items ++ m).head? ≠ some closeBrace := by
  cases h with
  | nil => exact hm rfl
  | @cons w rest separator hw hseparator _ =>
    cases w with
    | nil => rcases hseparator with rfl | rfl <;> exact fun h => absurd (Option.some.inj h) (by decide)
    | cons b w => exact hwhole (b :: w) hw

variable (h : ReadsText parse whole cut)

include h

/-- The loop passes all that is followed by a separator. -/
theorem ReadsText.loop_items {items : Bytes} (hitems : Items whole items) (hnul : nul ∉ items) (m : Bytes) (fuel : Nat)
    (container : γ) (hfuel : (items ++ m).length ≤ fuel) : ∃ fuel' container', m.length ≤ fuel' ∧
      c.parseLoop parse fuel container (items ++ m) = c.parseLoop parse fuel' container' m := by
  induction hitems generalizing fuel container with
  | nil => exact ⟨fuel, container, hfuel, rfl⟩
  | @cons w rest separator hw hseparator _ ih =>
    obtain ⟨fuel, rfl⟩ : ∃ n, fuel = n + 1 := ⟨fuel - 1, by simp at hfuel; omega⟩
    obtain ⟨v, hv⟩ := h.passes w hw (fun hmem => hnul (by simp [hmem])) separator
      (by rcases hseparator with rfl | rfl <;> decide) (rest ++ m)
    obtain ⟨fuel', container', hfuel', hloop⟩ := ih (fun hmem => hnul (by simp [hmem])) fuel (c.add container v)
      (by simp at hfuel ⊢; omega)
    refine ⟨fuel', container', hfuel', ?_⟩
    rw [← hloop, List.append_assoc, List.cons_append, c.parseLoop_step hv, if_pos hseparator]

/-- The brace is found, or a byte that may not stand there, or the text is cut off in the last element. -/
theorem ReadsText.loop_cases {x : Bytes} (hx : nul ∉ x) (fuel : Nat) (container : γ) (hfuel : x.length < fuel) :
    (∃ v items last y, c.parseLoop parse fuel container (cString x) = .ret v (cString y) ∧ Items whole items ∧
      whole last ∧ x = items ++ (last ++ closeBrace :: y)) ∨
      (∃ e m, c.parseLoop parse fuel container (cString x) = .throw e m) ∨
      c.parseLoop parse fuel container (cString x) = .undefined ∧
        ∃ items last, Items whole items ∧ cut last ∧ x = items ++ last := by
  induction fuel generalizing x container with
  | zero => exact absurd hfuel (Nat.not_lt_zero _)
  | succ fuel ih =>
    rcases h.cases x hx with ⟨v, w, y, hret, rfl, hw⟩ | ⟨e, m, hthrow⟩ | ⟨hundefined, hcut⟩
    · cases y with
      | nil =>
        have hret' : parse (cString (w ++ [])) = .ret v [nul] := hret
        rw [c.parseLoop_step hret', if_neg (by decide), if_neg (by decide)]
        exact .inr (.inl ⟨_, _, rfl⟩)
      | cons b y =>
        have hret' : parse (cString (w ++ b :: y)) = .ret v (b :: cString y) := hret
        rw [c.parseLoop_step hret']
        by_cases hseparator : b = comma ∨ b = semicolon
        · rw [if_pos hseparator]
          rcases ih (x := y) (fun hmem => hx (by simp [hmem])) (c.add container v) (by simp at hfuel; omega) with
            ⟨v, items, last, z, hloop, hitems, hlast, rfl⟩ | hthrow | ⟨hundefined, items, last, hitems, hcut, rfl⟩
          · exact .inl ⟨v, w ++ b :: items, last, z, hloop, .cons hw hseparator hitems, hlast, by simp⟩
          · exact .inr (.inl hthrow)
          · exact .inr (.inr ⟨hundefined, w ++ b :: items, last, .cons hw hseparator hitems, hcut, by simp⟩)
        · rw [if_neg hseparator]
          by_cases hb : b = closeBrace
          · rw [if_pos hb]
            exact .inl ⟨_, [], w, y, rfl, .nil, hw, by rw [hb]; rfl⟩
          · rw [if_neg hb]
            exact .inr (.inl ⟨_, _, rfl⟩)
    · exact .inr (.inl ⟨e, m, bind_throw hthrow _⟩)
    · exact .inr (.inr ⟨bind_undefined hundefined _, [], x, .nil, hcut, rfl⟩)

/-- The text of an array with these elements. -/
private abbrev ArrayOf (whole : Bytes → Prop) (x : Bytes) : Prop :=
  x = [openBrace, closeBrace] ∨
    ∃ items last, Items whole items ∧ whole last ∧ x = openBrace :: (items ++ (last ++ [closeBrace]))

/-- The text of an array that is cut off in an element. -/
private abbrev ArrayCut (whole cut : Bytes → Prop) (x : Bytes) : Prop :=
  ∃ items last, Items whole items ∧ cut last ∧ x = openBrace :: (items ++ last)

/-- A container is read, or given up, or it is cut off in an element. -/
private theorem ReadsText.container_cases {x : Bytes} (hx : nul ∉ x) :
    (∃ v w y, c.parse parse (cString x) = .ret v (cString y) ∧ x = w ++ y ∧ ArrayOf whole w) ∨
      (∃ e m, c.parse parse (cString x) = .throw e m) ∨
      c.parse parse (cString x) = .undefined ∧ ArrayCut whole cut x := by
  cases x with
  | nil => exact .inr (.inl ⟨_, _, rfl⟩)
  | cons b x =>
    have hmemory : cString (b :: x) = b :: cString x := rfl
    rw [hmemory]
    by_cases hopen : b = openBrace
    · subst hopen
      rw [c.parse_step (by simp [cString])]
      by_cases hclose : (cString x).head? = some closeBrace
      · obtain ⟨x, rfl⟩ : ∃ y, x = closeBrace :: y := by
          cases x with
          | nil => exact absurd (Option.some.inj hclose) (by decide)
          | cons b x => exact ⟨x, by rw [Option.some.inj hclose]⟩
        rw [if_pos hclose]
        exact .inl ⟨c.empty, [openBrace, closeBrace], x, rfl, rfl, .inl rfl⟩
      · rw [if_neg hclose]
        rcases h.loop_cases c (fun hmem => hx (List.mem_cons_of_mem _ hmem)) (cString x).length c.empty
          (by simp [cString]) with
          ⟨v, items, last, y, hloop, hitems, hlast, rfl⟩ | hthrow | ⟨hundefined, items, last, hitems, hcut, rfl⟩
        · exact .inl ⟨v, openBrace :: (items ++ (last ++ [closeBrace])), y, hloop, by simp,
            .inr ⟨items, last, hitems, hlast, rfl⟩⟩
        · exact .inr (.inl hthrow)
        · exact .inr (.inr ⟨hundefined, items, last, hitems, hcut, rfl⟩)
    · refine .inr (.inl ⟨⟨"expected '\x7b'"⟩, cString x, ?_⟩)
      rw [Container.parse, bind_ret (deref_cons b _), bind_ret (advance_one b _), if_pos hopen]
      rfl

/-- A container is read when what it consists of is. -/
theorem ReadsText.container : ReadsText (c.parse parse)
    (fun x => x = [openBrace, closeBrace] ∨
      ∃ items last, Items whole items ∧ whole last ∧ x = openBrace :: (items ++ (last ++ [closeBrace])))
    fun x => ∃ items last, Items whole items ∧ cut last ∧ x = openBrace :: (items ++ last) where
  passes := by
    have hempty : ∀ m, c.parse parse (openBrace :: closeBrace :: m) = .ret c.empty m := fun m =>
      c.parse_step (List.cons_ne_nil closeBrace m)
    rintro w (rfl | ⟨items, last, hitems, hlast, rfl⟩) hnul delim - m
    · exact ⟨c.empty, hempty (delim :: m)⟩
    · have hmemory : openBrace :: (items ++ (last ++ [closeBrace])) ++ delim :: m =
        openBrace :: (items ++ (last ++ closeBrace :: delim :: m)) := by simp
      rw [hmemory]
      by_cases hnone : items = [] ∧ last = []
      · obtain ⟨rfl, rfl⟩ := hnone
        exact ⟨c.empty, hempty (delim :: m)⟩
      · have hbegins : (items ++ (last ++ closeBrace :: delim :: m)).head? ≠ some closeBrace := by
          refine hitems.begins h.whole_begins fun hitems => ?_
          cases last with
          | nil => exact absurd ⟨hitems, rfl⟩ hnone
          | cons b last => exact h.whole_begins (b :: last) hlast
        obtain ⟨fuel, container, hfuel, hloop⟩ := h.loop_items c hitems (fun hmem => hnul (by simp [hmem]))
          (last ++ closeBrace :: delim :: m) _ c.empty (le_refl _)
        obtain ⟨fuel, rfl⟩ : ∃ n, fuel = n + 1 := ⟨fuel - 1, by simp at hfuel; omega⟩
        obtain ⟨v, hv⟩ := h.passes last hlast (fun hmem => hnul (by simp [hmem])) closeBrace (by decide) (delim :: m)
        refine ⟨c.add container v, ?_⟩
        rw [c.parse_step (by simp), if_neg hbegins, hloop, c.parseLoop_step hv, if_neg (by decide), if_pos rfl]
  runs_over := by
    rintro x ⟨items, last, hitems, hlast, rfl⟩ hnul
    have hmemory : cString (openBrace :: (items ++ last)) = openBrace :: (items ++ cString last) := by simp [cString]
    have hbegins : (items ++ cString last).head? ≠ some closeBrace := by
      refine hitems.begins h.whole_begins fun _ => ?_
      obtain ⟨b, s, rfl, hb⟩ := h.cut_begins last hlast
      exact fun h => hb (Option.some.inj h)
    obtain ⟨fuel, container, hfuel, hloop⟩ := h.loop_items c hitems (fun hmem => hnul (by simp [hmem]))
      (cString last) _ c.empty (le_refl _)
    obtain ⟨fuel, rfl⟩ : ∃ n, fuel = n + 1 := ⟨fuel - 1, by simp [cString] at hfuel; omega⟩
    have hlast := h.runs_over last hlast fun hmem => hnul (by simp [hmem])
    rw [hmemory, c.parse_step (by simp [cString]), if_neg hbegins, hloop, Container.parseLoop, bind_undefined hlast]
  cases _ hx := h.container_cases c hx
  whole_begins := by
    rintro w (rfl | ⟨items, last, -, -, rfl⟩) h
    · exact absurd (Option.some.inj h) (by decide)
    · exact absurd (Option.some.inj h) (by decide)
  cut_begins := by
    rintro x ⟨items, last, -, -, rfl⟩
    exact ⟨openBrace, items ++ last, rfl, by decide⟩

end Containers

/-! ### Arrays -/

namespace ArrayType

variable {α β γ : Type} (t : ResultTraits α)

theorem readsText (u : ArrayType α γ) :
    ReadsText (u.parse t) (WholeText t.null.isSome u.depth) (CutText t.null.isSome u.depth) := by
  induction u with
  | element => exact readsText_element t
  | container c u ih => exact ih.container c

/-- Behind the array nothing but the end of the text is accepted. -/
theorem fromText_cases (u : ArrayType α γ) {s : Bytes} (hs : nul ∉ s) :
    Exec.Defined (u.fromText t) (cString s) ∨
      u.parse t (cString s) = .undefined ∧ CutText t.null.isSome u.depth s := by
  rcases (u.readsText t).cases s hs with ⟨v, w, y, hret, -, -⟩ | ⟨e, m, hthrow⟩ | hundefined
  · left
    obtain ⟨b, m, hmemory⟩ : ∃ b m, cString y = b :: m := List.exists_cons_of_ne_nil (by simp [cString])
    rw [hmemory] at hret
    unfold Exec.Defined wp
    rw [fromText, bind_ret hret, bind_ret (deref_cons b m)]
    by_cases hb : b = nul
    · rw [if_neg (not_not.2 hb)]
      exact trivial
    · rw [if_pos hb]
      exact trivial
  · left
    unfold Exec.Defined wp
    rw [fromText, bind_throw hthrow]
    exact trivial
  · exact .inr hundefined

end ArrayType

/-- The text of an array is read or refused if and only if it does not end in a quoted element, with the backslash of
an escape. -/
theorem array_defined_iff {α β γ : Type} (t : ResultTraits α) (c : Container β γ) (u : ArrayType α β) {s : Bytes}
    (hs : nul ∉ s) : Exec.Defined ((ArrayType.container c u).fromText t) (cString s) ↔
      ¬ CutText t.null.isSome (u.depth + 1) s := by
  have hreads := (ArrayType.container c u).readsText t
  constructor
  · intro hdefined hcut
    have hundefined := hreads.runs_over s hcut hs
    unfold Exec.Defined wp at hdefined
    rw [ArrayType.fromText, bind_undefined hundefined] at hdefined
    exact hdefined
  · intro hcut
    rcases (ArrayType.container c u).fromText_cases t hs with hdefined | ⟨-, hcut'⟩
    · exact hdefined
    · exact absurd hcut' hcut

/-- A backslash in front of the last quote: the element has no end, but the text is not cut off. -/
theorem array_defined_escaped_quote : ¬ CutText true 2 (ascii "\x7b\x7b\"a\\\"") :=
  (array_defined_iff optionalString (.vector _) (ArrayType.vectors (Option Bytes) 1) (by decide)).mp trivial

/-- The search goes on behind the end of the text. -/
theorem array_undefined_backslash :
    ¬ Exec.Defined ((ArrayType.vectors (Option Bytes) 1).fromText optionalString) (cString (ascii "\x7b\"\\")) :=
  fun h => h

end TaoPQ
