import Docket.Regex.OfPattern
import Docket.Regex.Reader
import Docket.Regex.Size

/-!
From the text of a pattern to an expression that can be searched for.
-/

namespace Docket.Regex

/-- The expression that a text spells. With `caseInsensitive` the flag `i` is in force at its
start. -/
def compile (text : String) (caseInsensitive : Bool) : Except Fault Regex := do
  let pattern ← Pattern.read text.toList
  let (r, _) ← ofPattern { caseInsensitive } pattern
  if r.fits then return r else .error .programTooLarge

/-- Whether a text is the pattern of an expression. -/
def isPattern (text : String) (caseInsensitive : Bool) : Bool :=
  (compile text caseInsensitive).toBool

end Docket.Regex
