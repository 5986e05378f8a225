/-!
# Strict JSON syntax

The parts of JSON that a small reader needs, over the characters still to be
read. A reader gives back what it read and the characters after it, or nothing
when the text breaks the syntax. Texts may not hold bare control characters,
numbers may not begin with a spare zero, and no comma may trail.

A text that is read must stand for characters, so a lone surrogate escape is
refused in it. Inside a value that is only passed over, an escape needs four
hexadecimal digits and nothing more.
-/

namespace Framecast.Json

/-- The four characters that may stand between tokens. -/
def isBlank (c : Char) : Bool := c == ' ' || c == '\n' || c == '\t' || c == '\r'

/-- The text without its leading blanks. -/
def skipBlanks (cs : List Char) : List Char := cs.dropWhile isBlank

/-- The text after `c`, blanks before it apart. -/
def expect (c : Char) (cs : List Char) : Option (List Char) :=
  match skipBlanks cs with
  | d :: rest => if d = c then some rest else none
  | [] => none

/-- The value of a hexadecimal digit. -/
def hexDigit? (c : Char) : Option Nat :=
  if '0' ≤ c ∧ c ≤ '9' then some (c.toNat - '0'.toNat)
  else if 'a' ≤ c ∧ c ≤ 'f' then some (c.toNat - 'a'.toNat + 10)
  else if 'A' ≤ c ∧ c ≤ 'F' then some (c.toNat - 'A'.toNat + 10)
  else none

/-- Four hexadecimal digits. -/
def readHex4 : List Char → Option (Nat × List Char)
  | a :: b :: c :: d :: rest => do
    let a ← hexDigit? a
    let b ← hexDigit? b
    let c ← hexDigit? c
    let d ← hexDigit? d
    return (((a * 16 + b) * 16 + c) * 16 + d, rest)
  | _ => none

/-- The character that a one-letter escape stands for. -/
def shortEscape? (c : Char) : Option Char :=
  match c with
  | '"' => some '"'
  | '\\' => some '\\'
  | '/' => some '/'
  | 'b' => some '\x08'
  | 'f' => some '\x0c'
  | 'n' => some '\n'
  | 'r' => some '\r'
  | 't' => some '\t'
  | _ => none

/-- The character of a numeric escape, of which the backslash and the letter are already read. A
leading surrogate needs a trailing one in a second escape. -/
def readCodePoint (cs : List Char) : Option (Char × List Char) := do
  let (unit, rest) ← readHex4 cs
  if 0xDC00 ≤ unit ∧ unit ≤ 0xDFFF then none
  else if 0xD800 ≤ unit ∧ unit ≤ 0xDBFF then
    match rest with
    | '\\' :: 'u' :: more => do
      let (low, rest) ← readHex4 more
      if 0xDC00 ≤ low ∧ low ≤ 0xDFFF then
        return (Char.ofNat (0x10000 + (unit - 0xD800) * 0x400 + (low - 0xDC00)), rest)
      else none
    | _ => none
  else return (Char.ofNat unit, rest)

/-- One escape, of which the backslash is already read. -/
def readEscape : List Char → Option (Char × List Char)
  | 'u' :: rest => readCodePoint rest
  | c :: rest => (shortEscape? c).map fun e => (e, rest)
  | [] => none

/-- The characters of a text up to its closing quote, taking at most `n` steps. -/
def readCharacters : Nat → List Char → Option (List Char × List Char)
  | 0, _ => none
  | n + 1, cs =>
    match cs with
    | '"' :: rest => some ([], rest)
    | '\\' :: rest => do
      let (c, rest) ← readEscape rest
      let (text, rest) ← readCharacters n rest
      return (c :: text, rest)
    | c :: rest =>
      if c.toNat < 0x20 then none
      else do
        let (text, rest) ← readCharacters n rest
        return (c :: text, rest)
    | [] => none

/-- A text in quotes. -/
def readText (cs : List Char) : Option (String × List Char) := do
  let rest ← expect '"' cs
  let (text, rest) ← readCharacters (rest.length + 1) rest
  return (String.ofList text, rest)

/-- A whole number without sign, point or exponent. -/
def readNatural (cs : List Char) : Option (Nat × List Char) :=
  let start := skipBlanks cs
  let digits := start.takeWhile Char.isDigit
  let rest := start.dropWhile Char.isDigit
  let value := digits.foldl (fun n c => n * 10 + (c.toNat - '0'.toNat)) 0
  let spareZero := digits.head? == some '0' && 1 < digits.length
  let continues := match rest with
    | c :: _ => c == '.' || c == 'e' || c == 'E'
    | [] => false
  if digits.isEmpty || spareZero || continues then none else some (value, rest)

/-- Passes over the characters of a text and its closing quote, taking at most `n` steps. -/
def skipCharacters : Nat → List Char → Option (List Char)
  | 0, _ => none
  | n + 1, cs =>
    match cs with
    | '"' :: rest => some rest
    | '\\' :: 'u' :: rest => do
      let (_, rest) ← readHex4 rest
      skipCharacters n rest
    | '\\' :: c :: rest => if (shortEscape? c).isSome then skipCharacters n rest else none
    | c :: rest => if c == '\\' || c.toNat < 0x20 then none else skipCharacters n rest
    | [] => none

/-- Passes over one or more digits. -/
def skipDigits (cs : List Char) : Option (List Char) :=
  if (cs.takeWhile Char.isDigit).isEmpty then none else some (cs.dropWhile Char.isDigit)

/-- Passes over the whole part of a number. -/
def skipWhole (cs : List Char) : Option (List Char) :=
  match cs with
  | '0' :: c :: rest => if c.isDigit then none else some (c :: rest)
  | _ => skipDigits cs

/-- Passes over the digits after a point, if there is a point. -/
def skipFraction (cs : List Char) : Option (List Char) :=
  match cs with
  | '.' :: rest => skipDigits rest
  | _ => some cs

/-- Passes over an exponent, if there is one. -/
def skipExponent (cs : List Char) : Option (List Char) :=
  match cs with
  | c :: rest =>
    if c == 'e' || c == 'E' then
      match rest with
      | s :: more => if s == '+' || s == '-' then skipDigits more else skipDigits rest
      | [] => none
    else some cs
  | [] => some cs

/-- Passes over a number. -/
def skipNumber (cs : List Char) : Option (List Char) := do
  let unsigned := match cs with
    | '-' :: rest => rest
    | _ => cs
  let rest ← skipWhole unsigned
  let rest ← skipFraction rest
  skipExponent rest

mutual

/-- Passes over a value, taking at most `n` nested steps. -/
def skipValueWithin : Nat → List Char → Option (List Char)
  | 0, _ => none
  | n + 1, cs =>
    match skipBlanks cs with
    | '"' :: rest => skipCharacters (rest.length + 1) rest
    | '[' :: rest =>
      match skipBlanks rest with
      | ']' :: after => some after
      | _ => skipElements n rest
    | '{' :: rest =>
      match skipBlanks rest with
      | '}' :: after => some after
      | _ => skipMembers n rest
    | 't' :: 'r' :: 'u' :: 'e' :: rest => some rest
    | 'f' :: 'a' :: 'l' :: 's' :: 'e' :: rest => some rest
    | 'n' :: 'u' :: 'l' :: 'l' :: rest => some rest
    | start => skipNumber start

/-- Passes over the elements of an array and its closing bracket. -/
def skipElements : Nat → List Char → Option (List Char)
  | 0, _ => none
  | n + 1, cs =>
    match skipValueWithin n cs with
    | none => none
    | some rest =>
      match skipBlanks rest with
      | ',' :: more => skipElements n more
      | ']' :: after => some after
      | _ => none

/-- Passes over the members of an object and its closing brace. -/
def skipMembers : Nat → List Char → Option (List Char)
  | 0, _ => none
  | n + 1, cs =>
    match skipBlanks cs with
    | '"' :: start =>
      match (skipCharacters (start.length + 1) start).bind (expect ':') with
      | none => none
      | some value =>
        match skipValueWithin n value with
        | none => none
        | some rest =>
          match skipBlanks rest with
          | ',' :: more => skipMembers n more
          | '}' :: after => some after
          | _ => none
    | _ => none

end

/-- Passes over a value of any kind. -/
def skipValue (cs : List Char) : Option (List Char) := skipValueWithin (2 * cs.length + 2) cs

/-- Whether nothing but blanks is left. -/
def atEnd (cs : List Char) : Bool := (skipBlanks cs).isEmpty

end Framecast.Json
