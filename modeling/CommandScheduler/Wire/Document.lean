/-!
# Document — JSON values as they stand in a text

A document keeps what a strict reader may still have to refuse: the members of an object in their
order and with their repetitions, numbers that are not written as integers, and texts whose escapes
do not form characters.  Such parts do no harm where a value is ignored.
-/

namespace CommandScheduler
namespace Wire

/-- A JSON value. -/
inductive Document where
  | null
  | bool (value : Bool)
  | integer (value : Int)
  /-- A number with a fraction or an exponent, or minus zero; no type of the library is written so.
  -/
  | decimal
  /-- A text, without its characters if its escapes hold half of a surrogate pair. -/
  | text (value? : Option String)
  | array (items : List Document)
  /-- The members in the order of the text. -/
  | object (members : List (Option String × Document))
  deriving Inhabited

namespace Document

def ofString (value : String) : Document :=
  .text (some value)

/-- The document of an object with the given members. -/
def ofFields (fields : List (String × Document)) : Document :=
  .object (fields.map fun (key, value) => (some key, value))

/-! ## Reading off simple values -/

/-- An integer from `low` to `high`. -/
def intBetween? (low high : Int) : Document → Option Int
  | integer value => if low ≤ value ∧ value ≤ high then some value else none
  | _ => none

/-- A size or a count, which is an unsigned 64-bit value. -/
def size? (document : Document) : Option Nat :=
  (document.intBetween? 0 18446744073709551615).map Int.toNat

/-- An unsigned 8-bit value. -/
def byte? (document : Document) : Option UInt8 :=
  (document.intBetween? 0 255).map fun value => UInt8.ofNat value.toNat

/-- A signed 32-bit value. -/
def int32? (document : Document) : Option Int32 :=
  (document.intBetween? (-2147483648) 2147483647).map Int32.ofInt

def string? : Document → Option String
  | text value? => value?
  | _ => none

/-! ## Reading off records and variants -/

/-- The values of the members of a name. -/
def valuesOf (name : String) (members : List (Option String × Document)) : List Document :=
  members.filterMap fun (key?, value) => if key? = some name then some value else none

/-- The fields of a record, each with its value if it has one.  A record is written as an object,
whose other members are ignored, or as an array of the first values in order.  A repeated field and
a superfluous item are refused. -/
def fields? (names : List String) : Document → Option (List (Option Document))
  | object members =>
    if members.all (·.1.isSome) then
      names.mapM fun name =>
        match valuesOf name members with
        | [] => some none
        | [value] => some (some value)
        | _ => none
    else
      none
  | array items =>
    if items.length ≤ names.length then
      some (items.map some ++ List.replicate (names.length - items.length) none)
    else
      none
  | _ => none

/-- The fields of a record that must all be there. -/
def allFields? (names : List String) (document : Document) : Option (List Document) :=
  (document.fields? names).bind fun fields => fields.mapM id

/-- The name of a variant, and what it carries.  A variant is written as its name alone, or as an
object with the name as its only key. -/
def variant? : Document → Option (String × Option Document)
  | text (some name) => some (name, none)
  | object [(some name, payload)] => some (name, some payload)
  | _ => none

end Document
end Wire
end CommandScheduler
