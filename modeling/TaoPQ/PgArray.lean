import TaoPQ.Lib.Bytes
import TaoPQ.Lib.Escaping
import TaoPQ.Lib.Vectors

/-!
# Arrays of text in PostgreSQL

The documented external form of an array whose delimiter is the comma: braces around the elements, which are
separated by commas.  On input, white space around an element that is not quoted is ignored, such an element is null
when it spells `NULL` in any letter case, double quotes group, and a backslash takes the next character literally.  On
output, an element is quoted when it would not be read back otherwise.
-/

namespace TaoPQ

open Byte Escaping

/-- What an array literal says: elements, which can be null, and arrays in arrays. -/
inductive ArrayValue where
  | element (v : Option Bytes)
  | array (v : List ArrayValue)

/-- The elements in braces, separated by commas. -/
def arrayLiteral (ts : List Bytes) : Bytes := openBrace :: ([comma].intercalate ts ++ [closeBrace])

/-- The word `NULL` in any letter case. -/
def SpellsNull (s : Bytes) : Prop := s.map toUpper = ascii "NULL"

instance (s : Bytes) : Decidable (SpellsNull s) := inferInstanceAs (Decidable (_ = _))

namespace ArrayInput

/-- Where the server is in the text.  An element without quotes is kept together with the white space that has been
read behind it, and with whether a backslash was in it. -/
inductive Mode where
  | start
  | opened
  | delimited
  | bare (text blanks : Bytes) (escaped : Bool)
  | bareEscape (text : Bytes)
  | quoted (text : Bytes)
  | quotedEscape (text : Bytes)
  | completed
  | finished (v : ArrayValue)

/-- The server while it reads: the arrays that are open, innermost first, with the elements read so far. -/
structure Reader where
  mode : Mode
  stack : List (List ArrayValue)

/-- The innermost array gets one more element. -/
def push (v : ArrayValue) : List (List ArrayValue) → Option Reader
  | [] => none
  | vs :: stack => some ⟨.completed, (vs ++ [v]) :: stack⟩

/-- The innermost array is complete. -/
def close : List (List ArrayValue) → Option Reader
  | [] => none
  | [vs] => some ⟨.finished (.array vs), []⟩
  | vs :: ws :: stack => some ⟨.completed, (ws ++ [.array vs]) :: stack⟩

/-- What can follow an element. -/
def delimit (b : UInt8) (stack : List (List ArrayValue)) : Option Reader :=
  if b = comma then some ⟨.delimited, stack⟩
  else if b = closeBrace then close stack
  else none

/-- The value of an element without quotes. -/
def bareValue (text : Bytes) (escaped : Bool) : Option Bytes :=
  if ¬ escaped ∧ SpellsNull text then none else some text

/-- An element begins. -/
def enter (b : UInt8) (r : Reader) : Option Reader :=
  if isSpace b then some r
  else if b = openBrace then some ⟨.opened, [] :: r.stack⟩
  else if b = quote then some ⟨.quoted [], r.stack⟩
  else if b = backslash then some ⟨.bareEscape [], r.stack⟩
  else if b = comma ∨ b = closeBrace then none
  else some ⟨.bare [b] [] false, r.stack⟩

/-- One more character is read. -/
def step (r : Reader) (b : UInt8) : Option Reader :=
  match r.mode with
  | .start =>
    if isSpace b then some r
    else if b = openBrace then some ⟨.opened, [[]]⟩
    else none
  | .opened => if b = closeBrace then close r.stack else enter b r
  | .delimited => enter b r
  | .bare text blanks escaped =>
    if isSpace b then some { r with mode := .bare text (blanks ++ [b]) escaped }
    else if b = comma ∨ b = closeBrace then
      (push (.element (bareValue text escaped)) r.stack).bind fun r => delimit b r.stack
    else if b = backslash then some { r with mode := .bareEscape (text ++ blanks) }
    else if b = quote ∨ b = openBrace then none
    else some { r with mode := .bare (text ++ blanks ++ [b]) [] escaped }
  | .bareEscape text => some { r with mode := .bare (text ++ [b]) [] true }
  | .quoted text =>
    if b = quote then push (.element (some text)) r.stack
    else if b = backslash then some { r with mode := .quotedEscape text }
    else some { r with mode := .quoted (text ++ [b]) }
  | .quotedEscape text => some { r with mode := .quoted (text ++ [b]) }
  | .completed => if isSpace b then some r else delimit b r.stack
  | .finished _ => if isSpace b then some r else none

/-- The server reads on. -/
def run (r : Reader) (text : Bytes) : Option Reader := text.foldlM step r

/-- What the server understands, unless the text is malformed. -/
def parse (text : Bytes) : Option ArrayValue :=
  match run ⟨.start, []⟩ text with
  | some ⟨.finished v, _⟩ => some v
  | _ => none

end ArrayInput

namespace ArrayOutput

/-- The characters that make the server put an element in quotes. -/
def special : Bytes := [openBrace, closeBrace, comma, quote, backslash]

/-- Whether the server puts the element in quotes. -/
def NeedsQuotes (s : Bytes) : Prop := s = [] ∨ (∃ b ∈ s, b ∈ special ∨ isSpace b) ∨ SpellsNull s

instance (s : Bytes) : Decidable (NeedsQuotes s) := inferInstanceAs (Decidable (_ ∨ _ ∨ _))

/-- One element. -/
def element : Option Bytes → Bytes
  | none => ascii "NULL"
  | some s => if NeedsQuotes s then quote :: (escape backslash [backslash, quote] s ++ [quote]) else s

/-- The text of an array with the default lower bounds. -/
def render (d : Nat) (v : Vectors (Option Bytes) d) : Bytes := Vectors.fold element arrayLiteral d v

end ArrayOutput

end TaoPQ
