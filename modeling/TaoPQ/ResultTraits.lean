import TaoPQ.Lib.Bytes
import TaoPQ.Lib.Vectors

/-!
# Array results

How the text of an array becomes nested vectors: `result_traits_array.hpp` and `result_traits_array.cpp`, for
elements that are `std::string` or `std::optional< std::string >`.  The state of the functions is the memory that
`value` points into, from where it points on, so that reading behind the terminating `0` is undefined.  The loops have
fuel for as many rounds as there are bytes left.
-/

namespace TaoPQ

open Byte CString

/-- `std::invalid_argument` -/
structure InvalidArgument where
  what : String

/-- What `parse` uses of the `result_traits` of an element: `null`, where there is one, and `from`. -/
structure ResultTraits (α : Type) where
  null : Option α
  fromText : Bytes → α

/-- `result_traits< std::string >` -/
def stringTraits : ResultTraits Bytes := ⟨none, stringAt⟩

/-- `result_traits< std::optional< T > >` -/
def optionalTraits {α : Type} (t : ResultTraits α) : ResultTraits (Option α) :=
  ⟨some none, fun m => some (t.fromText m)⟩

/-- The loop of `internal::parse_quoted`. -/
def parseQuotedLoop : Nat → Bytes → Exec Bytes InvalidArgument Bytes
  | 0, _ => Exec.undefined
  | fuel + 1, result => do
    match ← search [backslash, quote] with
    | none => Exec.throw ⟨"unterminated quoted string"⟩
    | some n =>
      let text ← slice n
      advance n
      let pos ← deref
      advance 1
      match pos with
      | backslash =>
        let c ← deref
        advance 1
        parseQuotedLoop fuel (result ++ text ++ [c])
      | quote => return result ++ text
      | _ => Exec.undefined

/-- `internal::parse_quoted` -/
def parseQuoted : Exec Bytes InvalidArgument Bytes := do
  let m ← Exec.get
  parseQuotedLoop m.length []

/-- `internal::parse_unquoted` -/
def parseUnquoted : Exec Bytes InvalidArgument Bytes := do
  match ← search [comma, semicolon, closeBrace] with
  | none => Exec.throw ⟨"unterminated unquoted string"⟩
  | some n =>
    let result ← slice n
    advance n
    return result

section

variable {α : Type}

/-- `internal::parse` for an element. -/
def parseElement (t : ResultTraits α) : Exec Bytes InvalidArgument α := do
  let c ← deref
  if c = quote then do
    advance 1
    let input ← parseQuoted
    return t.fromText (cString input)
  else do
    let input ← parseUnquoted
    if input = ascii "NULL" then
      match t.null with
      | some v => return v
      | none => Exec.throw ⟨"unexpected NULL value"⟩
    else return t.fromText (cString input)

/-- The loop of `internal::parse` for a container. -/
def parseLoop (parse : Exec Bytes InvalidArgument α) : Nat → List α → Exec Bytes InvalidArgument (List α)
  | 0, _ => Exec.undefined
  | fuel + 1, container => do
    let v ← parse
    let c ← deref
    advance 1
    match c with
    | comma | semicolon => parseLoop parse fuel (container ++ [v])
    | closeBrace => return container ++ [v]
    | _ => Exec.throw ⟨"expected ',', ';', or '\x7d'"⟩

/-- `internal::parse` for a container. -/
def parseArray (parse : Exec Bytes InvalidArgument α) : Exec Bytes InvalidArgument (List α) := do
  let c ← deref
  advance 1
  if c ≠ openBrace then Exec.throw ⟨"expected '\x7b'"⟩
  else do
    let c ← deref
    if c = closeBrace then do
      advance 1
      return []
    else do
      let m ← Exec.get
      parseLoop parse m.length []

/-- `internal::parse` for vectors nested `d` deep. -/
def parseVectors (t : ResultTraits α) : (d : Nat) → Exec Bytes InvalidArgument (Vectors α d)
  | 0 => parseElement t
  | d + 1 => parseArray (parseVectors t d)

/-- `result_traits< T >::from` for vectors nested `d + 1` deep. -/
def arrayFrom (t : ResultTraits α) (d : Nat) : Exec Bytes InvalidArgument (Vectors α (d + 1)) := do
  let container ← parseVectors t (d + 1)
  let c ← deref
  if c ≠ nul then Exec.throw ⟨"unexpected additional data"⟩
  else return container

end

end TaoPQ
