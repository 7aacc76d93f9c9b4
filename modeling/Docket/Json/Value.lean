/-!
JSON values.  Numbers are told apart by what they can stand for: an integer that fits into 64 bits,
signed or unsigned, or anything else.  Nothing here computes with the latter, so they carry no value.
-/

namespace Docket

/-- A JSON value. Members of an object keep their order, and names may repeat. -/
inductive Json where
  | null
  | bool (b : Bool)
  | int (n : Int)
  /-- A number with a fraction or an exponent, a negative zero, or an integer beyond 64 bits. -/
  | real
  | str (s : String)
  /-- A string with half of a surrogate pair. It stands for no text. -/
  | unpaired
  | arr (items : List Json)
  | obj (members : List (String × Json))
deriving Repr, Inhabited

namespace Json

/-- The integers that have a 64-bit form, signed or unsigned. -/
def fits (n : Int) : Bool := -Int.pow 2 63 ≤ n && n < Int.pow 2 64

/-- An object member by name; of equal names the last counts. -/
def get? (name : String) : Json → Option Json
  | .obj members => (members.reverse.find? (·.1 = name)).map (·.2)
  | _ => none

def str? : Json → Option String
  | .str s => some s
  | _ => none

def int? : Json → Option Int
  | .int n => some n
  | _ => none

def bool? : Json → Option Bool
  | .bool b => some b
  | _ => none

def arr? : Json → Option (List Json)
  | .arr items => some items
  | _ => none

/-- An optional value; `null` where there is none. -/
def ofOption {α : Type} (f : α → Json) : Option α → Json
  | none => .null
  | some a => f a

def nat (n : Nat) : Json := .int n

end Json

end Docket
