import Docket.Json.Value

/-!
Looking up fields of objects.  A field that is missing, or of another kind, counts as a default.
-/

namespace Docket.Json

/-- A field; `null` where there is none. -/
def field (j : Json) (name : String) : Json := (j.get? name).getD .null

def has (j : Json) (name : String) : Bool := (j.get? name).isSome

def text? (j : Json) (name : String) : Option String := (j.get? name).bind str?

/-- A text; the empty one by default. -/
def text (j : Json) (name : String) : String := (j.text? name).getD ""

def integer? (j : Json) (name : String) : Option Int := (j.get? name).bind int?

/-- An integer; zero by default. -/
def integer (j : Json) (name : String) : Int := (j.integer? name).getD 0

def count (j : Json) (name : String) (default : Nat := 0) : Nat := ((j.integer? name).map Int.toNat).getD default

def flag (j : Json) (name : String) (default : Bool := false) : Bool := ((j.get? name).bind bool?).getD default

/-- The items of an array; none by default. -/
def items (j : Json) (name : String) : List Json := ((j.get? name).bind arr?).getD []

def texts (j : Json) (name : String) : List String := (j.items name).filterMap str?

/-- The members of an object. Of equal names only the last value counts, at the place of the first. -/
def members : Json → List (String × Json)
  | .obj ms => ms.foldl (fun out (name, value) =>
      if out.any (·.1 = name) then out.map fun m => if m.1 = name then (name, value) else m
      else out ++ [(name, value)]) []
  | _ => []

/-- An object with the members of two. What the second one says counts. -/
def merge (first second : Json) : Json := .obj (Json.obj (first.members ++ second.members)).members

mutual

/-- A value in which no two members of an object have the same name. -/
def unique : Json → Json
  | .obj ms => .obj (Json.obj (uniqueMembers ms)).members
  | .arr items => .arr (uniqueItems items)
  | j => j

/-- The same for the items of an array. -/
def uniqueItems : List Json → List Json
  | [] => []
  | j :: rest => unique j :: uniqueItems rest

/-- The same for the values of members. -/
def uniqueMembers : List (String × Json) → List (String × Json)
  | [] => []
  | (name, value) :: rest => (name, unique value) :: uniqueMembers rest

end

end Docket.Json
