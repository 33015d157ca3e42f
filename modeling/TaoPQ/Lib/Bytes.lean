import TaoPQ.Lib.Exec

/-!
# Bytes, and pointers into C strings

Strings are lists of bytes.  A `const char*` is the memory from where it points on, up to the end of the array it
points into: reading it when nothing is left, or moving it further, is undefined behaviour.  A C string ends with its
first byte `0`.
-/

abbrev Bytes := List UInt8

/-- What is said of all bytes of a string is checked along the string, not for all bytes that there are. -/
instance (priority := 2000) decidableForallBytes (P : UInt8 → Prop) [DecidablePred P] (s : Bytes) :
    Decidable (∀ b ∈ s, P b) := List.decidableBAll P s

instance (priority := 2000) decidableExistsBytes (P : UInt8 → Prop) [DecidablePred P] (s : Bytes) :
    Decidable (∃ b ∈ s, P b) := List.decidableBEx P s

/-- The bytes of a literal. -/
def ascii (s : String) : Bytes := s.toList.map Char.toUInt8

namespace Byte

@[match_pattern] abbrev nul : UInt8 := 0
@[match_pattern] abbrev backspace : UInt8 := 8
@[match_pattern] abbrev tab : UInt8 := 9
@[match_pattern] abbrev newline : UInt8 := 10
@[match_pattern] abbrev verticalTab : UInt8 := 11
@[match_pattern] abbrev formFeed : UInt8 := 12
@[match_pattern] abbrev carriageReturn : UInt8 := 13
@[match_pattern] abbrev space : UInt8 := 32
@[match_pattern] abbrev quote : UInt8 := 34
@[match_pattern] abbrev comma : UInt8 := 44
@[match_pattern] abbrev semicolon : UInt8 := 59
@[match_pattern] abbrev backslash : UInt8 := 92
@[match_pattern] abbrev openBrace : UInt8 := 123
@[match_pattern] abbrev closeBrace : UInt8 := 125

/-- White space in the C locale. -/
def isSpace (b : UInt8) : Bool := b ∈ [space, tab, newline, verticalTab, formFeed, carriageReturn]

/-- Lower case letters become upper case ones. -/
def toUpper (b : UInt8) : UInt8 := if 97 ≤ b ∧ b ≤ 122 then b - 32 else b

end Byte

/-- `c_str`: the string and the byte `0` behind it. -/
def cString (s : Bytes) : Bytes := s ++ [Byte.nul]

/-- The string that starts here, up to the first byte `0`. -/
def stringAt (m : Bytes) : Bytes := m.takeWhile (· ≠ Byte.nul)

theorem stringAt_append {s : Bytes} (hs : Byte.nul ∉ s) (m : Bytes) : stringAt (s ++ Byte.nul :: m) = s := by
  unfold stringAt
  induction s with
  | nil => simp
  | cons b s ih =>
    have hb : b ≠ Byte.nul := fun h => hs (h ▸ List.mem_cons_self)
    rw [List.cons_append, List.takeWhile_cons_of_pos (by simpa using hb), ih fun h => hs (List.mem_cons_of_mem b h)]

theorem stringAt_cString {s : Bytes} (hs : Byte.nul ∉ s) : stringAt (cString s) = s := stringAt_append hs []

/-- `std::strpbrk`: the distance to the first byte of the set, or `some none` where the string has none.  Nothing
comes out when the memory ends before the string does. -/
def strpbrk (set : Bytes) : Bytes → Option (Option Nat)
  | [] => none
  | b :: m =>
    if b = Byte.nul then some none
    else if b ∈ set then some (some 0)
    else (strpbrk set m).map (Option.map (· + 1))

/-- The search stops at the first byte of the set. -/
theorem strpbrk_found {set s : Bytes} (hs : ∀ b ∈ s, b ≠ Byte.nul ∧ b ∉ set) {b : UInt8} (hb : b ∈ set)
    (hnul : b ≠ Byte.nul) (m : Bytes) : strpbrk set (s ++ b :: m) = some (some s.length) := by
  induction s with
  | nil => rw [List.nil_append, strpbrk, if_neg hnul, if_pos hb, List.length_nil]
  | cons c s ih =>
    obtain ⟨hc, hset⟩ := hs c List.mem_cons_self
    have hrest := ih fun d hd => hs d (List.mem_cons_of_mem c hd)
    rw [List.cons_append, strpbrk, if_neg hc, if_neg hset, hrest]
    rfl

/-- The search ends at the end of the string. -/
theorem strpbrk_none {set s : Bytes} (hs : ∀ b ∈ s, b ≠ Byte.nul ∧ b ∉ set) (m : Bytes) :
    strpbrk set (s ++ Byte.nul :: m) = some none := by
  induction s with
  | nil => rw [List.nil_append, strpbrk, if_pos rfl]
  | cons c s ih =>
    obtain ⟨hc, hset⟩ := hs c List.mem_cons_self
    have hrest := ih fun d hd => hs d (List.mem_cons_of_mem c hd)
    rw [List.cons_append, strpbrk, if_neg hc, if_neg hset, hrest]
    rfl

/-- What the search has found. -/
theorem strpbrk_some {set m : Bytes} {n : Nat} (h : strpbrk set m = some (some n)) :
    ∃ before b rest, m = before ++ b :: rest ∧ b ∈ set ∧ ∀ c ∈ before, c ≠ Byte.nul ∧ c ∉ set := by
  induction m generalizing n with
  | nil => cases h
  | cons b m ih =>
    by_cases hnul : b = Byte.nul
    · rw [strpbrk, if_pos hnul] at h
      cases h
    · by_cases hb : b ∈ set
      · exact ⟨[], b, m, rfl, hb, by simp⟩
      · rw [strpbrk, if_neg hnul, if_neg hb, Option.map_eq_some_iff] at h
        obtain ⟨r, hr, hn⟩ := h
        obtain ⟨k, rfl, -⟩ := Option.map_eq_some_iff.1 hn
        obtain ⟨before, c, rest, rfl, hc, hbefore⟩ := ih hr
        exact ⟨b :: before, c, rest, rfl, hc, List.forall_mem_cons.2 ⟨⟨hnul, hb⟩, hbefore⟩⟩

/-- A string has none of the bytes of a set, or a first one. -/
theorem none_or_first (set : Bytes) (s : Bytes) :
    (∀ b ∈ s, b ∉ set) ∨ ∃ before b rest, s = before ++ b :: rest ∧ b ∈ set ∧ ∀ c ∈ before, c ∉ set := by
  induction s with
  | nil => exact .inl (by simp)
  | cons b s ih =>
    by_cases hb : b ∈ set
    · exact .inr ⟨[], b, s, rfl, hb, by simp⟩
    · rcases ih with hnone | ⟨before, c, rest, rfl, hc, hbefore⟩
      · exact .inl (List.forall_mem_cons.2 ⟨hb, hnone⟩)
      · exact .inr ⟨b :: before, c, rest, rfl, hc, List.forall_mem_cons.2 ⟨hb, hbefore⟩⟩

namespace CString

variable {ε : Type}

/-- `*p` -/
def deref : Exec Bytes ε UInt8 := fun m =>
  match m with
  | [] => .undefined
  | b :: _ => .ret b m

/-- `p += n` -/
def advance (n : Nat) : Exec Bytes ε Unit := fun m => if n ≤ m.length then .ret () (m.drop n) else .undefined

/-- `std::string( p, p + n )` -/
def slice (n : Nat) : Exec Bytes ε Bytes := fun m => if n ≤ m.length then .ret (m.take n) m else .undefined

/-- `std::strpbrk( p, set )` -/
def search (set : Bytes) : Exec Bytes ε (Option Nat) := fun m =>
  match strpbrk set m with
  | some r => .ret r m
  | none => .undefined

@[simp] theorem deref_cons (b : UInt8) (m : Bytes) : (deref : Exec Bytes ε UInt8) (b :: m) = .ret b (b :: m) := rfl

@[simp] theorem advance_append (s m : Bytes) : (advance s.length : Exec Bytes ε Unit) (s ++ m) = .ret () m := by
  unfold advance
  rw [if_pos (by simp)]
  simp

@[simp] theorem advance_one (b : UInt8) (m : Bytes) : (advance 1 : Exec Bytes ε Unit) (b :: m) = .ret () m := by
  unfold advance
  rw [if_pos (by simp)]
  simp

@[simp] theorem slice_append (s m : Bytes) :
    (slice s.length : Exec Bytes ε Bytes) (s ++ m) = .ret s (s ++ m) := by
  unfold slice
  rw [if_pos (by simp)]
  simp

theorem search_found {set s : Bytes} (hs : ∀ b ∈ s, b ≠ Byte.nul ∧ b ∉ set) {b : UInt8} (hb : b ∈ set)
    (hnul : b ≠ Byte.nul) (m : Bytes) :
    (search set : Exec Bytes ε (Option Nat)) (s ++ b :: m) = .ret (some s.length) (s ++ b :: m) := by
  unfold search
  rw [strpbrk_found hs hb hnul]

theorem search_none {set s : Bytes} (hs : ∀ b ∈ s, b ≠ Byte.nul ∧ b ∉ set) (m : Bytes) :
    (search set : Exec Bytes ε (Option Nat)) (s ++ Byte.nul :: m) = .ret none (s ++ Byte.nul :: m) := by
  unfold search
  rw [strpbrk_none hs]

end CString
