/-!
A tree of files and directories, as a finite map from places to what stands there.
-/

namespace Docket

/-- A place in a tree: the names on the way from the root. -/
abbrev Place := List String

/-- What stands at a place. -/
inductive Node where
  | file (content : ByteArray)
  | directory

/-- Files and directories. The root is always a directory; at other places stands what the first
entry for the place says. -/
structure FileTree where
  entries : List (Place × Node)

namespace FileTree

/-- A tree that has nothing but its root. -/
def empty : FileTree := ⟨[]⟩

instance : Inhabited FileTree := ⟨empty⟩

def lookup (t : FileTree) (p : Place) : Option Node :=
  if p = [] then some .directory else (t.entries.find? (·.1 = p)).map (·.2)

/-- Put something at a place, instead of what stands there. -/
def insert (t : FileTree) (p : Place) (n : Node) : FileTree :=
  ⟨(p, n) :: t.entries.filter (·.1 ≠ p)⟩

def erase (t : FileTree) (p : Place) : FileTree := ⟨t.entries.filter (·.1 ≠ p)⟩

theorem lookup_insert (t : FileTree) (p q : Place) (n : Node) (hq : q ≠ []) :
    (t.insert p n).lookup q = if q = p then some n else t.lookup q := by
  unfold lookup insert
  by_cases h : q = p
  · subst h
    simp [hq]
  · have hp : ¬p = q := fun e => h e.symm
    simp only [hq, if_false, List.find?_cons, hp, decide_false, h]
    congr 1
    rw [List.find?_filter]
    congr 1
    funext e
    by_cases he : e.1 = q <;> simp [he, h]

theorem lookup_erase (t : FileTree) (p q : Place) (hq : q ≠ []) :
    (t.erase p).lookup q = if q = p then none else t.lookup q := by
  unfold lookup erase
  by_cases h : q = p
  · subst h
    simp [hq, List.find?_filter]
  · simp only [hq, if_false, h]
    congr 1
    rw [List.find?_filter]
    congr 1
    funext e
    by_cases he : e.1 = q <;> simp [he, h]

/-- Every file below a place, with its way from there. -/
def filesBelow (t : FileTree) (root : Place) : List (Place × ByteArray) :=
  t.entries.filterMap fun (p, n) =>
    match n with
    | .file content => if root.isPrefixOf p then some (p.drop root.length, content) else none
    | .directory => none

end FileTree

end Docket
