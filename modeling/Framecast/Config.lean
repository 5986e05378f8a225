import Framecast.Json
import Framecast.Thread

/-!
# Configuration

A configuration names the producing thread and the least number of records that
a link's ring holds. Its text form is a JSON object with the keys `producer` and
`ringCapacity`; a missing key takes its default and an unknown key is passed
over. A list in that order of keys is read as well.
-/

namespace Framecast

/-- How a registry is set up. -/
structure Config where
  /-- The thread that owns the registry. -/
  producer : Thread := .game
  /-- The least capacity of each link's ring. -/
  ringCapacity : Nat := 10000
  deriving DecidableEq, Repr, Inhabited

namespace Config

/-- The configuration that says nothing. -/
def initial : Config := {}

/-- The text form, without blanks. -/
def text (c : Config) : String :=
  "\x7b\"producer\":\"" ++ c.producer.name ++ "\",\"ringCapacity\":" ++ toString c.ringCapacity
    ++ "\x7d"

/-- The largest ring capacity that can be written, the last 32-bit number. -/
def maxRingCapacity : Nat := 0xFFFFFFFF

/-- A thread: its name, or an object with its name as the only key and `null` as the value. -/
def readThread (cs : List Char) : Option (Thread × List Char) :=
  match Json.skipBlanks cs with
  | '{' :: rest => do
    let (name, rest) ← Json.readText rest
    let thread ← Thread.ofName? name
    let rest ← Json.expect ':' rest
    match Json.skipBlanks rest with
    | 'n' :: 'u' :: 'l' :: 'l' :: rest => do
      let rest ← Json.expect '}' rest
      return (thread, rest)
    | _ => none
  | start => do
    let (name, rest) ← Json.readText start
    let thread ← Thread.ofName? name
    return (thread, rest)

/-- A ring capacity: a whole number of at most 32 bits. -/
def readCapacity (cs : List Char) : Option (Nat × List Char) := do
  let (n, rest) ← Json.readNatural cs
  if n ≤ maxRingCapacity then return (n, rest) else none

/-- The members that were read so far. -/
structure Members where
  /-- The value of `producer`, once read. -/
  producer? : Option Thread := none
  /-- The value of `ringCapacity`, once read. -/
  ringCapacity? : Option Nat := none

/-- The configuration that the members give. -/
def Members.config (m : Members) : Config :=
  ⟨m.producer?.getD initial.producer, m.ringCapacity?.getD initial.ringCapacity⟩

/-- The value of one member. A known key may be given once; the value of an unknown key only has
to be well formed. -/
def readMember (m : Members) (key : String) (cs : List Char) : Option (Members × List Char) :=
  if key = "producer" then
    if m.producer?.isSome then none
    else (readThread cs).map fun (thread, rest) => ({ m with producer? := some thread }, rest)
  else if key = "ringCapacity" then
    if m.ringCapacity?.isSome then none
    else (readCapacity cs).map fun (n, rest) => ({ m with ringCapacity? := some n }, rest)
  else (Json.skipValue cs).map fun rest => (m, rest)

/-- The members of an object up to its closing brace, at most `n` of them. -/
def readMembers : Nat → Members → List Char → Option (Members × List Char)
  | 0, _, _ => none
  | n + 1, m, cs => do
    let (key, rest) ← Json.readText cs
    let rest ← Json.expect ':' rest
    let (m, rest) ← readMember m key rest
    match Json.skipBlanks rest with
    | ',' :: more => readMembers n m more
    | '}' :: after => some (m, after)
    | _ => none

/-- A configuration written as an object, of which the opening brace is already read. -/
def readObject (cs : List Char) : Option (Config × List Char) :=
  match Json.skipBlanks cs with
  | '}' :: after => some (initial, after)
  | _ => (readMembers (cs.length + 1) {} cs).map fun (m, rest) => (m.config, rest)

/-- A configuration written as a list, of which the opening bracket is already read. -/
def readList (cs : List Char) : Option (Config × List Char) :=
  match Json.skipBlanks cs with
  | ']' :: after => some (initial, after)
  | _ => do
    let (producer, rest) ← readThread cs
    match Json.skipBlanks rest with
    | ']' :: after => some ({ initial with producer }, after)
    | ',' :: more => do
      let (ringCapacity, rest) ← readCapacity more
      let rest ← Json.expect ']' rest
      return (⟨producer, ringCapacity⟩, rest)
    | _ => none

/-- The configuration written in a text, if the whole text is one. -/
def ofText? (text : String) : Option Config := do
  let (config, rest) ←
    match Json.skipBlanks text.toList with
    | '{' :: rest => readObject rest
    | '[' :: rest => readList rest
    | _ => none
  if Json.atEnd rest then return config else none

end Config

end Framecast
