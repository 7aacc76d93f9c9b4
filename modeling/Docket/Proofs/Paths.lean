import Docket.Files.Access
import Docket.Storage.Layout
import Mathlib.Data.List.Basic

/-!
Paths that lead from a directory along names.  Joining a name to a path adds one
component to it and nothing else, so that the components of a path below a root
are those of the root and then the names.
-/

namespace Docket

namespace Text

theorem splitChar_eq_splitOn (mark : Char) (l : List Char) :
    splitChar mark l = l.splitOn mark := by
  induction l with
  | nil => rfl
  | cons c rest ih =>
      rw [List.splitOn_cons_eq_if_modifyHead, splitChar, ih]
      by_cases hc : c = mark
      · simp [hc]
      · obtain ⟨piece, pieces, hsplit⟩ :=
          List.exists_cons_of_ne_nil (List.splitOn_ne_nil mark rest)
        simp [hc, hsplit]

theorem splitChar_ne_nil (mark : Char) (l : List Char) : splitChar mark l ≠ [] := by
  rw [splitChar_eq_splitOn]
  exact List.splitOn_ne_nil mark l

theorem splitChar_append_cons (mark : Char) (a b : List Char) :
    splitChar mark (a ++ mark :: b) = splitChar mark a ++ splitChar mark b := by
  simp only [splitChar_eq_splitOn, List.splitOn_append_cons_self]

theorem splitChar_of_notMem {mark : Char} {l : List Char} (h : mark ∉ l) :
    splitChar mark l = [l] := by
  rw [splitChar_eq_splitOn, List.splitOn_eq_singleton h]

theorem joinPieces_eq_intercalate (pieces : List (List Char)) :
    joinPieces pieces = ['/'].intercalate pieces := by
  induction pieces with
  | nil => rfl
  | cons piece rest ih =>
      cases rest with
      | nil => simp [joinPieces]
      | cons next rest =>
          rw [joinPieces, ih, List.intercalate_cons_cons]
          · simp
          · simp

theorem joinPieces_splitChar (l : List Char) : joinPieces (splitChar '/' l) = l := by
  rw [joinPieces_eq_intercalate, splitChar_eq_splitOn, List.intercalate_splitOn]

theorem pathComponents_append_cons (a b : List Char) :
    pathComponents (a ++ '/' :: b) = pathComponents a ++ pathComponents b := by
  simp only [pathComponents, splitChar_append_cons, List.filter_append]

@[simp]
theorem pathComponents_nil : pathComponents [] = [] := by decide

/-- A name that something in a directory can have. -/
structure IsName (name : String) : Prop where
  noSlash : '/' ∉ name.toList
  notIdle : isIdlePiece name.toList = false
  notUp : name ≠ ".."

namespace IsName

variable {name : String}

theorem pathComponents_eq (h : IsName name) : pathComponents name.toList = [name.toList] := by
  have hidle := h.notIdle
  simp only [isIdlePiece, Bool.or_eq_false_iff, List.isEmpty_eq_false_iff,
    decide_eq_false_iff_not] at hidle
  simp [pathComponents, splitChar_of_notMem h.noSlash, hidle.1, hidle.2]

theorem fileNameChars?_eq (h : IsName name) : fileNameChars? name.toList = some name.toList := by
  have hup : name.toList ≠ ['.', '.'] := by
    intro hname
    apply h.notUp
    rw [← String.ofList_toList (s := name), hname]
  simp [fileNameChars?, h.pathComponents_eq, hup]

end IsName

/-- What a name is joined to ends before a separator. -/
theorem exists_joinPath {directory path : String} (hdir : directory ≠ "")
    (hpath : '/' ∉ path.toList) :
    ∃ base, (joinPath directory path).toList = base ++ '/' :: path.toList ∧
      (directory.toList = base ∨ directory.toList = base ++ ['/']) := by
  have hrel : isAbsolute path = false := by
    cases hlist : path.toList with
    | nil => simp [isAbsolute, hlist]
    | cons c rest =>
        rw [hlist] at hpath
        have hc : c ≠ '/' := fun hc => hpath (by simp [hc])
        simp [isAbsolute, hlist, hc]
  have hempty : directory.isEmpty = false := by simpa using hdir
  simp only [joinPath, hrel, hempty, Bool.or_self, Bool.false_eq_true, if_false]
  split
  · next hlast =>
      obtain ⟨base, hbase⟩ := List.getLast?_eq_some_iff.mp hlast
      exact ⟨base, by simp [hbase], .inr hbase⟩
  · exact ⟨directory.toList, by simp, .inl rfl⟩

section Join

variable {directory name : String}

theorem joinPath_ne_empty (hdir : directory ≠ "") (hname : '/' ∉ name.toList) :
    joinPath directory name ≠ "" := by
  obtain ⟨base, hjoin, -⟩ := exists_joinPath hdir hname
  intro hempty
  rw [hempty] at hjoin
  simp at hjoin

theorem pathComponents_joinPath (hdir : directory ≠ "") (hname : IsName name) :
    pathComponents (joinPath directory name).toList =
      pathComponents directory.toList ++ [name.toList] := by
  obtain ⟨base, hjoin, hbase⟩ := exists_joinPath hdir hname.noSlash
  have hcomponents : pathComponents base = pathComponents directory.toList := by
    rcases hbase with hbase | hbase
    · rw [hbase]
    · rw [hbase, pathComponents_append_cons, pathComponents_nil, List.append_nil]
  rw [hjoin, pathComponents_append_cons, hcomponents, hname.pathComponents_eq]

theorem mem_joinPath {c : Char} (hdir : directory ≠ "") (hname : '/' ∉ name.toList)
    (hc : c ≠ '/') :
    c ∈ (joinPath directory name).toList ↔ c ∈ directory.toList ∨ c ∈ name.toList := by
  obtain ⟨base, hjoin, hbase | hbase⟩ := exists_joinPath hdir hname <;>
    simp [hjoin, hbase, hc]

/-- The last piece of a joined path is the name, and there are pieces before it. -/
theorem exists_splitChar_joinPath (hdir : directory ≠ "") (hname : '/' ∉ name.toList) :
    ∃ piece pieces,
      (splitChar '/' (joinPath directory name).toList).reverse =
        name.toList :: piece :: pieces := by
  obtain ⟨base, hjoin, -⟩ := exists_joinPath hdir hname
  obtain ⟨piece, pieces, hpieces⟩ := List.exists_cons_of_ne_nil
    (List.reverse_ne_nil_iff.mpr (splitChar_ne_nil '/' base))
  refine ⟨piece, pieces, ?_⟩
  rw [hjoin, splitChar_append_cons, splitChar_of_notMem hname, List.reverse_append, hpieces]
  rfl

/-- The parent of a path that ends in two names is the path without the last. -/
theorem parentPath?_joinPath {last : String} (hdir : directory ≠ "") (hname : IsName name)
    (hlast : '/' ∉ last.toList) (hidle : isIdlePiece last.toList = false) :
    parentPath? (joinPath (joinPath directory name) last) =
      some (joinPath directory name) := by
  have hne := joinPath_ne_empty hdir hname.noSlash
  obtain ⟨piece, pieces, hpieces⟩ := exists_splitChar_joinPath hdir hname.noSlash
  obtain ⟨base, hjoin, hbase⟩ := exists_joinPath hne hlast
  -- The path ends in a name, so that the separator before the last name is the only one there.
  have hbase : (joinPath directory name).toList = base := by
    rcases hbase with hbase | hbase
    · exact hbase
    · rw [hbase, splitChar_append_cons, List.reverse_append] at hpieces
      have hnil : name.toList = [] := by
        have := congrArg List.head? hpieces
        simpa [splitChar] using this.symm
      have hnotIdle := hname.notIdle
      simp [isIdlePiece, hnil] at hnotIdle
  have hsplit : (splitChar '/' (joinPath (joinPath directory name) last).toList).reverse =
      last.toList :: name.toList :: piece :: pieces := by
    rw [hjoin, ← hbase, splitChar_append_cons, splitChar_of_notMem hlast, List.reverse_append,
      hpieces]
    rfl
  have hwhole : joinPieces (name.toList :: piece :: pieces).reverse =
      (joinPath directory name).toList := by
    rw [← hpieces, List.reverse_reverse, joinPieces_splitChar]
  simp only [parentPath?, hsplit, List.dropWhile_cons, hidle, hname.notIdle,
    Bool.false_eq_true, if_false, hwhole, String.ofList_toList, List.isEmpty_reverse,
    List.isEmpty_cons, Bool.false_and]

end Join

end Text

theorem FileTree.endsAsDirectory_joinPath {directory name : String} (hdir : directory ≠ "")
    (hname : '/' ∉ name.toList) :
    endsAsDirectory (Text.joinPath directory name) = Text.isIdlePiece name.toList := by
  obtain ⟨piece, pieces, hpieces⟩ := Text.exists_splitChar_joinPath hdir hname
  simp only [endsAsDirectory, hpieces]

namespace Text

/-- The path from a directory along names. -/
def along (directory : String) (names : List String) : String := names.foldl joinPath directory

theorem along_append (directory : String) (a b : List String) :
    along directory (a ++ b) = along (along directory a) b := List.foldl_append

section Along

variable {directory : String} {names : List String}

theorem along_ne_empty (hdir : directory ≠ "") (hnames : ∀ name ∈ names, IsName name) :
    along directory names ≠ "" := by
  induction names generalizing directory with
  | nil => exact hdir
  | cons name rest ih =>
      exact ih (joinPath_ne_empty hdir (hnames name List.mem_cons_self).noSlash)
        fun other h => hnames other (List.mem_cons_of_mem name h)

/-- The components of a path along names are those of the directory and the names. -/
theorem pathComponents_along (hdir : directory ≠ "") (hnames : ∀ name ∈ names, IsName name) :
    (pathComponents (along directory names).toList).map String.ofList =
      (pathComponents directory.toList).map String.ofList ++ names := by
  induction names generalizing directory with
  | nil => simp [along]
  | cons name rest ih =>
      have hname := hnames name List.mem_cons_self
      have hrest := ih (joinPath_ne_empty hdir hname.noSlash)
        fun other h => hnames other (List.mem_cons_of_mem name h)
      rw [show along directory (name :: rest) = along (joinPath directory name) rest from rfl,
        hrest, pathComponents_joinPath hdir hname]
      simp

theorem mem_along {c : Char} (hdir : directory ≠ "") (hnames : ∀ name ∈ names, IsName name)
    (hc : c ≠ '/') :
    c ∈ (along directory names).toList ↔
      c ∈ directory.toList ∨ ∃ name ∈ names, c ∈ name.toList := by
  induction names generalizing directory with
  | nil => simp [along]
  | cons name rest ih =>
      have hname := hnames name List.mem_cons_self
      have hrest := ih (joinPath_ne_empty hdir hname.noSlash)
        fun other h => hnames other (List.mem_cons_of_mem name h)
      rw [show along directory (name :: rest) = along (joinPath directory name) rest from rfl,
        hrest, mem_joinPath hdir hname.noSlash hc]
      simp [or_assoc]

end Along

theorem endsAsDirectory_along {directory : String} {names : List String} (hdir : directory ≠ "")
    (hnames : ∀ name ∈ names, IsName name) (hne : names ≠ []) :
    FileTree.endsAsDirectory (along directory names) = false := by
  obtain ⟨before, last, rfl⟩ : ∃ before last, names = before ++ [last] :=
    ⟨_, _, (List.dropLast_append_getLast hne).symm⟩
  have hlast := hnames last (by simp)
  rw [along_append]
  exact (FileTree.endsAsDirectory_joinPath
    (along_ne_empty hdir fun name hname => hnames name (by simp [hname])) hlast.noSlash).trans
    hlast.notIdle

/-- The path of another file is another path. -/
theorem samePath_along {directory : String} {a b : List String} (hdir : directory ≠ "")
    (ha : ∀ name ∈ a, IsName name) (hb : ∀ name ∈ b, IsName name) (hne : a ≠ b) :
    samePath (along directory a) (along directory b) = false := by
  simp only [samePath, Bool.and_eq_false_iff, decide_eq_false_iff_not]
  right
  intro hsame
  have hmapped := congrArg (List.map String.ofList) hsame
  rw [pathComponents_along hdir ha, pathComponents_along hdir hb] at hmapped
  exact hne (List.append_cancel_left hmapped)

end Text

end Docket
