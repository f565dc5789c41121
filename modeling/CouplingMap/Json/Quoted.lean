import CouplingMap.Json.Reader
import CouplingMap.Text.Numeral

/-!
# Quoted strings

* `Quoted.read`: reads a string after its opening quote; escapes must name a character.
* `Quoted.skip`: passes over a string after its opening quote. It asks less: an escaped half of a
  surrogate pair may stand alone.
* `Quoted.write`: quotes, backslashes and control characters are escaped, all else stands for
  itself.
-/

namespace CouplingMap.Json.Quoted

open Text (hexValue?)

/-! ## Hexadecimal escapes -/

/-- The number that four hexadecimal digits stand for. -/
def hexQuad? (a b c d : Char) : Option Nat := do
  some ((((← hexValue? a) * 16 + (← hexValue? b)) * 16 + (← hexValue? c)) * 16 + (← hexValue? d))

/-- What is wrong with a text that does not start with four hexadecimal digits: one of fewer than
four bytes ends too early. -/
def hexProblem (cs : List Char) : ReadError :=
  if (String.ofList cs).utf8ByteSize < 4 then .ended else .malformed

/-- Reads four hexadecimal digits. -/
def hexUnit : Reader Nat := fun cs =>
  match cs with
  | a :: b :: c :: d :: rest =>
    match hexQuad? a b c d with
    | some n => .ok (n, rest)
    | none => .error (hexProblem cs)
  | _ => .error (hexProblem cs)

/-- The first half of a surrogate pair. -/
def isHighSurrogate (n : Nat) : Bool := 0xD800 ≤ n && n ≤ 0xDBFF

/-- The second half of a surrogate pair. -/
def isLowSurrogate (n : Nat) : Bool := 0xDC00 ≤ n && n ≤ 0xDFFF

/-- The character that a surrogate pair encodes. -/
def ofSurrogates (high low : Nat) : Char :=
  Char.ofNat (0x10000 + (high - 0xD800) * 0x400 + (low - 0xDC00))

/-- Reads one given character. -/
def mark (c : Char) : Reader Unit := word [c]

/-- Reads a character escaped by its code, after `\u`. Characters outside of the basic plane are
written as a surrogate pair of two escapes. -/
def hexChar : Reader Char := fun cs => do
  let (n, cs) ← hexUnit cs
  if isLowSurrogate n then .error .malformed
  else if isHighSurrogate n then
    let ((), cs) ← mark '\\' cs
    let ((), cs) ← mark 'u' cs
    let (m, cs) ← hexUnit cs
    if isLowSurrogate m then .ok (ofSurrogates n m, cs) else .error .malformed
  else .ok (Char.ofNat n, cs)

/-! ## Reading -/

/-- The escapes of one letter, with the character each stands for. -/
def shortEscapes : List (Char × Char) :=
  [('"', '"'), ('\\', '\\'), ('/', '/'), ('b', '\x08'), ('f', '\x0c'), ('n', '\n'), ('r', '\r'),
   ('t', '\t')]

/-- The character that an escape of one letter stands for. -/
def shortEscape? (c : Char) : Option Char := (shortEscapes.find? fun e => e.1 == c).map Prod.snd

/-- Reads an escaped character, after the backslash. -/
def escape : Reader Char := fun cs =>
  match cs with
  | [] => .error .ended
  | c :: rest =>
    if c = 'u' then hexChar rest
    else match shortEscape? c with
      | some d => .ok (d, rest)
      | none => .error .malformed

/-- Passes over an escape, after the backslash. -/
def skipEscape : Reader Unit := fun cs =>
  match cs with
  | [] => .error .ended
  | c :: rest =>
    if c = 'u' then (hexUnit rest).map fun r => ((), r.2)
    else if (shortEscape? c).isSome then .ok ((), rest) else .error .malformed

/-- A control character may only stand in a string when it is escaped. -/
def isControl (c : Char) : Bool := c.toNat < 0x20

/-- Reads up to the closing quote. Every round takes a character off the first argument, which is
at least as long as the text; the characters already read are given in reverse. -/
def charsFrom (escaped : Reader Char) : List Char → List Char → Reader (List Char)
  | [], _, _ => .error .ended
  | _ :: _, _, [] => .error .ended
  | _ :: bound, done, c :: cs => do
    if c = '"' then .ok (done.reverse, cs)
    else if c = '\\' then
      let (d, cs) ← escaped cs
      charsFrom escaped bound (d :: done) cs
    else if isControl c then .error .malformed
    else charsFrom escaped bound (c :: done) cs

/-- Reads a string after its opening quote. -/
def read : Reader String := fun cs => do
  let (s, rest) ← charsFrom escape cs [] cs
  .ok (String.ofList s, rest)

/-- Passes over a string after its opening quote. -/
def skip : Reader Unit := fun cs => do
  let (_, rest) ← charsFrom (fun cs => (skipEscape cs).map fun r => (' ', r.2)) cs [] cs
  .ok ((), rest)

/-! ## Writing -/

/-- A hexadecimal digit, in lower case. -/
def hexDigit (n : Nat) : Char := Nat.digitChar n

/-- The written form of a character inside of a string. -/
def writeChar (c : Char) : List Char :=
  match c with
  | '"' => ['\\', '"']
  | '\\' => ['\\', '\\']
  | '\x08' => ['\\', 'b']
  | '\x0c' => ['\\', 'f']
  | '\n' => ['\\', 'n']
  | '\r' => ['\\', 'r']
  | '\t' => ['\\', 't']
  | c =>
    if isControl c then ['\\', 'u', '0', '0', hexDigit (c.toNat / 16), hexDigit (c.toNat % 16)]
    else [c]

/-- The written form of a string, with its quotes. -/
def write (s : String) : List Char :=
  '"' :: s.toList.flatMap writeChar ++ ['"']

end CouplingMap.Json.Quoted
