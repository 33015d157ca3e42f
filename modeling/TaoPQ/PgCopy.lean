import TaoPQ.Lib.Bytes
import TaoPQ.Lib.Escaping

/-!
# The text format of `COPY` in PostgreSQL

The default format.  A row ends with a newline, its fields are separated by tabs, and a field that is exactly `\N` is
null.  Everything else is a string in which a backslash says how to take what follows it.
-/

namespace TaoPQ

open Byte Escaping

/-- How a null is written. -/
def nullMarker : Bytes := backslash :: ascii "N"

namespace CopyInput

/-- The value of an octal digit. -/
def octalDigit (b : UInt8) : Option UInt8 := if 48 ≤ b ∧ b ≤ 55 then some (b - 48) else none

/-- The value of a hexadecimal digit. -/
def hexadecimalDigit (b : UInt8) : Option UInt8 :=
  if 48 ≤ b ∧ b ≤ 57 then some (b - 48)
  else if 65 ≤ b ∧ b ≤ 70 then some (b - 55)
  else if 97 ≤ b ∧ b ≤ 102 then some (b - 87)
  else none

/-- The letters that stand for a control character behind a backslash; all others stand for themselves. -/
def unescapeByte (b : UInt8) : UInt8 :=
  if b = 98 then backspace
  else if b = 102 then formFeed
  else if b = 110 then newline
  else if b = 114 then carriageReturn
  else if b = 116 then tab
  else if b = 118 then verticalTab
  else b

/-- Where the server is in a field: behind a backslash, or in a numeric escape, with its value so far and the number
of octal digits that can still follow. -/
inductive Mode where
  | plain
  | escaped
  | octal (value : UInt8) (left : Nat)
  | hexStart
  | hex (value : UInt8)
deriving DecidableEq

/-- A character outside all escapes, or behind one that has ended. -/
def plainStep (b : UInt8) : Bytes × Mode := if b = backslash then ([], .escaped) else ([b], .plain)

/-- The characters that become known with one more character of the field. -/
def step : Mode → UInt8 → Bytes × Mode
  | .plain, b => plainStep b
  | .escaped, b =>
    match octalDigit b with
    | some v => ([], .octal v 2)
    | none => if b = 120 then ([], .hexStart) else ([unescapeByte b], .plain)
  | .octal v left, b =>
    match octalDigit b, left with
    | some d, 1 => ([8 * v + d], .plain)
    | some d, left + 1 => ([], .octal (8 * v + d) left)
    | _, _ => (v :: (plainStep b).1, (plainStep b).2)
  | .hexStart, b =>
    match hexadecimalDigit b with
    | some d => ([], .hex d)
    | none => (120 :: (plainStep b).1, (plainStep b).2)
  | .hex v, b =>
    match hexadecimalDigit b with
    | some d => ([16 * v + d], .plain)
    | none => (v :: (plainStep b).1, (plainStep b).2)

/-- What is left at the end of the field. -/
def flush : Mode → Bytes
  | .plain => []
  | .escaped => [backslash]
  | .octal v _ => [v]
  | .hexStart => [120]
  | .hex v => [v]

/-- The rest of a field. -/
def unescapeFrom (m : Mode) : Bytes → Bytes
  | [] => flush m
  | b :: s => (step m b).1 ++ unescapeFrom (step m b).2 s

/-- The value of a field. -/
def field (text : Bytes) : Option Bytes := if text = nullMarker then none else some (unescapeFrom .plain text)

/-- The fields of a row. -/
def row (line : Bytes) : List (Option Bytes) := (split backslash tab line).map field

/-- The lines of the data.  The newline behind the last one can be missing. -/
def lines (text : Bytes) : List Bytes :=
  let pieces := split backslash newline text
  if pieces.getLast? = some [] then pieces.dropLast else pieces

/-- The rows that the server loads. -/
def rows (text : Bytes) : List (List (Option Bytes)) := (lines text).map row

end CopyInput

namespace CopyOutput

/-- A character of a field. -/
def escapeByte (b : UInt8) : Bytes :=
  if b = backspace then backslash :: ascii "b"
  else if b = formFeed then backslash :: ascii "f"
  else if b = newline then backslash :: ascii "n"
  else if b = carriageReturn then backslash :: ascii "r"
  else if b = tab then backslash :: ascii "t"
  else if b = verticalTab then backslash :: ascii "v"
  else if b = backslash then [backslash, backslash]
  else [b]

/-- One field. -/
def field : Option Bytes → Bytes
  | none => nullMarker
  | some s => s.flatMap escapeByte

/-- The line of a row. -/
def row (fs : List (Option Bytes)) : Bytes := [tab].intercalate (fs.map field) ++ [newline]

end CopyOutput

end TaoPQ
