import CommandScheduler.Wire.Document

/-!
# Reader — documents from text

A strict reader of JSON: four blanks, no leading zeros, no raw control characters in texts,
nothing after the value.  Every function takes the characters that are left and gives back those
that remain.
-/

namespace CommandScheduler
namespace Wire
namespace Reader

/-! ## Blanks and digits -/

def isBlank (c : Char) : Bool :=
  c = ' ' || c = '\n' || c = '\r' || c = '\t'

def skipBlanks (cs : List Char) : List Char :=
  cs.dropWhile isBlank

def digitValue (c : Char) : Nat :=
  c.toNat - '0'.toNat

/-- The number that decimal digits stand for. -/
def ofDigits (digits : List Char) : Nat :=
  digits.foldl (fun n c => n * 10 + digitValue c) 0

/-- The value of a hexadecimal digit. -/
def hexValue? (c : Char) : Option Nat :=
  if c.isDigit then some (digitValue c)
  else if 'a' ≤ c ∧ c ≤ 'f' then some (c.toNat - 'a'.toNat + 10)
  else if 'A' ≤ c ∧ c ≤ 'F' then some (c.toNat - 'A'.toNat + 10)
  else none

/-! ## Numbers -/

def skipDigits? (cs : List Char) : Option (List Char) :=
  match cs with
  | c :: rest => if c.isDigit then some (rest.dropWhile Char.isDigit) else none
  | [] => none

/-- A fraction, if there is one; whether there was, and the rest. -/
def fraction? : List Char → Option (Bool × List Char)
  | '.' :: rest => (skipDigits? rest).map (true, ·)
  | cs => some (false, cs)

/-- An exponent, if there is one; whether there was, and the rest. -/
def exponent? (cs : List Char) : Option (Bool × List Char) :=
  match cs with
  | c :: rest =>
    if c = 'e' ∨ c = 'E' then
      let digits :=
        match rest with
        | '+' :: digits => digits
        | '-' :: digits => digits
        | digits => digits
      (skipDigits? digits).map (true, ·)
    else
      some (false, cs)
  | [] => some (false, [])

/-- The digits before the point: a single zero, or digits that do not start with one. -/
def wholePart? (cs : List Char) : Option (List Char × List Char) :=
  match cs.takeWhile Char.isDigit, cs.dropWhile Char.isDigit with
  | [], _ => none
  | ['0'], rest => some (['0'], rest)
  | '0' :: _, _ => none
  | digits, rest => some (digits, rest)

def number? (cs : List Char) : Option (Document × List Char) := do
  let (negative, cs) :=
    match cs with
    | '-' :: rest => (true, rest)
    | cs => (false, cs)
  let (digits, cs) ← wholePart? cs
  let (hasFraction, cs) ← fraction? cs
  let (hasExponent, cs) ← exponent? cs
  let value := ofDigits digits
  if hasFraction || hasExponent || (negative && value == 0) then
    return (.decimal, cs)
  else
    return (.integer (if negative then -value else value), cs)

/-! ## Texts -/

/-- One unit of a text: a character as it stands, or a UTF-16 unit that is written by its code. -/
inductive TextUnit where
  | char (c : Char)
  | code (unit : Nat)

/-- The character that a single letter after a backslash stands for. -/
def escaped? : Char → Option Char
  | '"' => some '"'
  | '\\' => some '\\'
  | '/' => some '/'
  | 'b' => some '\x08'
  | 'f' => some '\x0c'
  | 'n' => some '\n'
  | 'r' => some '\r'
  | 't' => some '\t'
  | _ => none

/-- The units of a text up to its closing quote. -/
def units? : List Char → Option (List TextUnit × List Char)
  | [] => none
  | '"' :: rest => some ([], rest)
  | '\\' :: 'u' :: a :: b :: c :: d :: rest => do
    let high := (← hexValue? a) * 16 + (← hexValue? b)
    let low := (← hexValue? c) * 16 + (← hexValue? d)
    let (units, rest) ← units? rest
    return (.code (high * 256 + low) :: units, rest)
  | '\\' :: c :: rest => do
    let c ← escaped? c
    let (units, rest) ← units? rest
    return (.char c :: units, rest)
  | c :: rest =>
    if c.toNat < 0x20 || c = '\\' then
      none
    else do
      let (units, rest) ← units? rest
      return (.char c :: units, rest)

/-- The characters of a text; nothing if a code is half of a surrogate pair without the other. -/
def characters? : List TextUnit → Option (List Char)
  | [] => some []
  | .char c :: rest => (characters? rest).map (c :: ·)
  | .code high :: .code low :: rest =>
    if 0xd800 ≤ high ∧ high < 0xdc00 then
      if 0xdc00 ≤ low ∧ low < 0xe000 then
        let code := (high - 0xd800) * 0x400 + (low - 0xdc00) + 0x10000
        (characters? rest).map (Char.ofNat code :: ·)
      else
        none
    else if 0xdc00 ≤ high ∧ high < 0xe000 then
      none
    else
      (characters? (.code low :: rest)).map (Char.ofNat high :: ·)
  | .code unit :: rest =>
    if 0xd800 ≤ unit ∧ unit < 0xe000 then none
    else (characters? rest).map (Char.ofNat unit :: ·)

/-- A text after its opening quote. -/
def text? (cs : List Char) : Option (Option String × List Char) :=
  (units? cs).map fun (units, rest) => ((characters? units).map String.ofList, rest)

/-! ## Values -/

mutual

/-- A value; the fuel bounds the number of nested values and of items in a row. -/
def value? : Nat → List Char → Option (Document × List Char)
  | 0, _ => none
  | fuel + 1, cs =>
    match skipBlanks cs with
    | 'n' :: 'u' :: 'l' :: 'l' :: rest => some (.null, rest)
    | 't' :: 'r' :: 'u' :: 'e' :: rest => some (.bool true, rest)
    | 'f' :: 'a' :: 'l' :: 's' :: 'e' :: rest => some (.bool false, rest)
    | '"' :: rest => (text? rest).map fun (value, rest) => (.text value, rest)
    | '[' :: rest =>
      match skipBlanks rest with
      | ']' :: rest => some (.array [], rest)
      | rest => (items? fuel rest).map fun (items, rest) => (.array items, rest)
    | '\x7b' :: rest =>
      match skipBlanks rest with
      | '\x7d' :: rest => some (.object [], rest)
      | rest => (members? fuel rest).map fun (members, rest) => (.object members, rest)
    | cs => number? cs

/-- The items of an array up to its closing bracket. -/
def items? : Nat → List Char → Option (List Document × List Char)
  | 0, _ => none
  | fuel + 1, cs => do
    let (item, cs) ← value? fuel cs
    match skipBlanks cs with
    | ',' :: rest =>
      let (items, rest) ← items? fuel rest
      return (item :: items, rest)
    | ']' :: rest => return ([item], rest)
    | _ => none

/-- The members of an object up to its closing brace. -/
def members? : Nat → List Char → Option (List (Option String × Document) × List Char)
  | 0, _ => none
  | fuel + 1, cs =>
    match skipBlanks cs with
    | '"' :: rest => do
      let (key?, rest) ← text? rest
      match skipBlanks rest with
      | ':' :: rest =>
        let (value, rest) ← value? fuel rest
        match skipBlanks rest with
        | ',' :: rest =>
          let (members, rest) ← members? fuel rest
          return ((key?, value) :: members, rest)
        | '\x7d' :: rest => return ([(key?, value)], rest)
        | _ => none
      | _ => none
    | _ => none

end

end Reader

/-- The document that a text holds.  No character takes more than two units of fuel, so twice the
length is enough. -/
def Document.read? (text : String) : Option Document :=
  let cs := text.toList
  match Reader.value? (2 * cs.length + 2) cs with
  | some (document, rest) => if (Reader.skipBlanks rest).isEmpty then some document else none
  | none => none

end Wire
end CommandScheduler
