/-!
# Inspect — developer-facing text of values

Every public type of the library has an `inspect` function that writes a value in one line: records
as `Name { field: value }`, tuples as `Name(value)`, lists in square brackets and text between
double quotes.  The shapes are defined here once; the types only choose names and fields.
-/

namespace CommandScheduler
namespace Inspect

/-! ## Text -/

/-- How one character is written between double quotes: the quote, the backslash and the usual
blanks have short escapes, every other control character is written by its code in hexadecimal, and
all other characters stand for themselves. -/
def escape (c : Char) : String :=
  match c with
  | '"' => "\\\""
  | '\\' => "\\\\"
  | '\n' => "\\n"
  | '\r' => "\\r"
  | '\t' => "\\t"
  | '\x00' => "\\0"
  | c =>
    if c.toNat < 0x20 || (0x7f ≤ c.toNat && c.toNat < 0xa0) then
      "\\u\x7b" ++ String.ofList (Nat.toDigits 16 c.toNat) ++ "\x7d"
    else
      c.toString

/-- A text between double quotes. -/
def quoted (s : String) : String :=
  "\"" ++ String.join (s.toList.map escape) ++ "\""

/-! ## Composite values -/

/-- A list of already written items. -/
def list (items : List String) : String :=
  "[" ++ ", ".intercalate items ++ "]"

/-- A named tuple of already written items. -/
def tuple (name : String) (items : List String) : String :=
  name ++ "(" ++ ", ".intercalate items ++ ")"

/-- One `name: value` field of a record. -/
def field (name value : String) : String :=
  name ++ ": " ++ value

/-- A record that shows all its fields. -/
def record (name : String) (fields : List String) : String :=
  name ++ " \x7b " ++ ", ".intercalate fields ++ " \x7d"

/-- A record that shows only some of its fields, which two dots at the end say. -/
def partialRecord (name : String) (fields : List String) : String :=
  record name (fields ++ [".."])

def bool (b : Bool) : String :=
  if b then "true" else "false"

def nat (n : Nat) : String :=
  String.ofList (Nat.toDigits 10 n)

def int (n : Int) : String :=
  if n < 0 then "-" ++ nat n.natAbs else nat n.natAbs

end Inspect
end CommandScheduler
