import Docket.Proofs.Paths
import Docket.Storage.Basic
import Mathlib.Data.List.Find
import Mathlib.Data.List.Induction
import Mathlib.Logic.Function.Basic

/-!
What operations do to a tree of files, below a root directory.  The files of a
tree are a function from places to contents, and an operation that succeeds
changes that function at the places it names; directories are only added.
-/

namespace Docket

namespace FileTree

variable {t u : FileTree}

/-! ### Following paths -/

theorem walk_append (t : FileTree) (here : Place) (a b : List String) :
    t.walk here (a ++ b) = t.walk here a >>= fun place => t.walk place b := by
  induction a generalizing here with
  | nil => rfl
  | cons name rest ih =>
      rw [List.cons_append, walk, walk]
      cases t.lookup here with
      | none => rfl
      | some node =>
          cases node with
          | file content => rfl
          | directory =>
              dsimp only
              split
              · exact ih _
              · split
                · rfl
                · exact ih _

/-- What is followed to its end leads somewhere in between. -/
theorem exists_walk_append {here place : Place} {a b : List String}
    (h : t.walk here (a ++ b) = .ok place) :
    ∃ between, t.walk here a = .ok between ∧ t.walk between b = .ok place := by
  rw [walk_append] at h
  cases hstart : t.walk here a with
  | error e =>
      rw [hstart] at h
      cases h
  | ok between =>
      rw [hstart] at h
      exact ⟨between, rfl, h⟩

/-- Names that are followed lead from directories. -/
theorem walk_cons {here place : Place} {name : String} {rest : List String}
    (hup : name ≠ "..") (h : t.walk here (name :: rest) = .ok place) :
    t.lookup here = some .directory ∧ name.utf8ByteSize ≤ maxNameSize ∧
      t.walk (here ++ [name]) rest = .ok place := by
  rw [walk] at h
  split at h
  · cases h
  · cases h
  · next hdir =>
      rw [if_neg hup] at h
      split at h
      · cases h
      · next hsize => exact ⟨hdir, Nat.le_of_not_lt hsize, h⟩

theorem walk_names {here place : Place} {names : List String}
    (hnames : ∀ name ∈ names, name ≠ "..") (h : t.walk here names = .ok place) :
    place = here ++ names := by
  induction names generalizing here with
  | nil =>
      cases h
      simp
  | cons name rest ih =>
      have hrest := (walk_cons (hnames name List.mem_cons_self) h).2.2
      rw [ih (fun other hother => hnames other (List.mem_cons_of_mem name hother)) hrest]
      simp

theorem size_of_walk {here place : Place} {names : List String}
    (hnames : ∀ name ∈ names, name ≠ "..") (h : t.walk here names = .ok place) :
    ∀ name ∈ names, name.utf8ByteSize ≤ maxNameSize := by
  induction names generalizing here with
  | nil => simp
  | cons name rest ih =>
      obtain ⟨-, hsize, hrest⟩ := walk_cons (hnames name List.mem_cons_self) h
      have hothers := ih (fun other hother => hnames other (List.mem_cons_of_mem name hother)) hrest
      exact List.forall_mem_cons.mpr ⟨hsize, hothers⟩

/-- A way that leads somewhere leads there still when directories are added. -/
theorem walk_mono (hdirs : ∀ q, t.lookup q = some .directory → u.lookup q = some .directory)
    {here place : Place} {names : List String} (h : t.walk here names = .ok place) :
    u.walk here names = .ok place := by
  induction names generalizing here with
  | nil => exact h
  | cons name rest ih =>
      rw [walk] at h ⊢
      split at h
      · cases h
      · cases h
      · next hdir =>
          rw [hdirs here hdir]
          dsimp only
          split at h
          · next hup => rw [if_pos hup, ih h]
          · next hup =>
              rw [if_neg hup]
              split at h
              · cases h
              · next hsize => rw [if_neg hsize, ih h]

/-- Only what is below a directory matters to the names that are followed from it. -/
theorem walk_mono_below {here place : Place} {names : List String}
    (hdirs : ∀ a, t.lookup (here ++ a) = some .directory → u.lookup (here ++ a) = some .directory)
    (hnames : ∀ name ∈ names, name ≠ "..") (h : t.walk here names = .ok place) :
    u.walk here names = .ok place := by
  induction names generalizing here with
  | nil => exact h
  | cons name rest ih =>
      have hname := hnames name List.mem_cons_self
      obtain ⟨hhere, hsize, hrest⟩ := walk_cons hname h
      have hhere' : u.lookup here = some .directory := by
        simpa using hdirs [] (by simpa using hhere)
      rw [walk, hhere']
      dsimp only
      rw [if_neg hname, if_neg (Nat.not_lt.mpr hsize)]
      have hothers : ∀ other ∈ rest, other ≠ ".." := fun other hother =>
        hnames other (List.mem_cons_of_mem name hother)
      refine ih (fun a ha => ?_) hothers hrest
      rw [List.append_assoc] at ha ⊢
      exact hdirs _ ha

/-- A way that ends in a directory starts in one. -/
theorem directory_of_walk {here place : Place} {names : List String}
    (h : t.walk here names = .ok place) (hplace : t.lookup place = some .directory) :
    t.lookup here = some .directory := by
  cases names with
  | nil =>
      cases h
      exact hplace
  | cons name rest =>
      rw [walk] at h
      split at h
      · cases h
      · cases h
      · assumption

theorem locate_eq_ok {path : String} {place : Place} :
    t.locate path = .ok place ↔
      '\x00' ∉ path.toList ∧ path ≠ "" ∧
        t.walk [] ((Text.pathComponents path.toList).map String.ofList) = .ok place := by
  unfold locate namesOf
  by_cases hnul : '\x00' ∈ path.toList
  · simp [hnul, Bind.bind, Except.bind]
  · by_cases hempty : path = ""
    · simp [hempty, Bind.bind, Except.bind]
    · simp [hnul, hempty, Bind.bind, Except.bind]

theorem locate_mono (hdirs : ∀ q, t.lookup q = some .directory → u.lookup q = some .directory)
    {path : String} {place : Place} (h : t.locate path = .ok place) :
    u.locate path = .ok place := by
  rw [locate_eq_ok] at h ⊢
  exact ⟨h.1, h.2.1, walk_mono hdirs h.2.2⟩

theorem find_eq_ok {path : String} {place : Place} {node : Node} :
    t.find path = .ok (place, node) ↔
      t.locate path = .ok place ∧ t.lookup place = some node ∧
        (node = .directory ∨ endsAsDirectory path = false) := by
  unfold find
  cases hlocate : t.locate path with
  | error e => simp [Bind.bind, Except.bind]
  | ok p =>
      have hbind : ∀ f : Place → Except FileFault (Place × Node),
          (Except.ok p >>= f) = f p := fun _ => rfl
      rw [hbind]
      constructor
      · intro h
        split at h
        · cases h
        · next hdir =>
            cases h
            exact ⟨rfl, hdir, .inl rfl⟩
        · next hfile =>
            split at h
            · cases h
            · next hends =>
                cases h
                exact ⟨rfl, hfile, .inr (by simpa using hends)⟩
      · rintro ⟨hplace, hnode, hends⟩
        cases hplace
        rw [hnode]
        cases node with
        | directory => rfl
        | file content =>
            have hends := hends.resolve_left (by simp)
            simp [hends]

theorem exists?_eq_true {path : String} :
    t.exists? path = true ↔ ∃ place node, t.find path = .ok (place, node) := by
  unfold exists?
  rcases t.find path with e | ⟨place, node⟩ <;> simp [Except.toOption]

theorem read_eq_ok {path : String} {content : ByteArray} :
    t.read path = .ok content ↔ ∃ place, t.find path = .ok (place, .file content) := by
  unfold read
  rcases t.find path with e | ⟨place, content' | _⟩ <;> simp [Bind.bind, Except.bind]

/-- What a path leads to stays, when the directories stay and the file does. -/
theorem find_mono (hdirs : ∀ q, t.lookup q = some .directory → u.lookup q = some .directory)
    {path : String} {place : Place} {node : Node} (h : t.find path = .ok (place, node))
    (hnode : u.lookup place = some node) : u.find path = .ok (place, node) := by
  rw [find_eq_ok] at h ⊢
  exact ⟨locate_mono hdirs h.1, hnode, h.2.2⟩

/-! ### Changes at a place -/

theorem lookup_insert_eq (t : FileTree) {p : Place} (hp : p ≠ []) (n : Node) :
    (t.insert p n).lookup = Function.update t.lookup p (some n) := by
  funext q
  by_cases hq : q = []
  · rw [hq, Function.update_of_ne hp.symm]
    simp [lookup]
  · rw [lookup_insert t p q n hq, Function.update_apply]

theorem lookup_erase_eq (t : FileTree) {p : Place} (hp : p ≠ []) :
    (t.erase p).lookup = Function.update t.lookup p none := by
  funext q
  by_cases hq : q = []
  · rw [hq, Function.update_of_ne hp.symm]
    simp [lookup]
  · rw [lookup_erase t p q hq, Function.update_apply]

theorem ne_nil_of_not_directory {p : Place} (h : t.lookup p ≠ some .directory) : p ≠ [] := by
  rintro rfl
  exact h (by simp [lookup])

/-- The content of the file at a place. -/
def contentAt? (t : FileTree) (p : Place) : Option ByteArray :=
  match t.lookup p with
  | some (.file content) => some content
  | _ => none

theorem contentAt?_eq_some {p : Place} {content : ByteArray} :
    t.contentAt? p = some content ↔ t.lookup p = some (.file content) := by
  unfold contentAt?
  split
  · next hfile => simp [hfile]
  · next hother =>
      simp only [reduceCtorEq, false_iff]
      exact hother content

theorem not_directory_of_contentAt? {p : Place} {content : ByteArray}
    (h : t.contentAt? p = some content) : t.lookup p ≠ some .directory := by
  rw [contentAt?_eq_some.mp h]
  simp

theorem find_of_contentAt?
    (hdirs : ∀ q, t.lookup q = some .directory → u.lookup q = some .directory)
    {path : String} {place : Place} {content : ByteArray}
    (h : t.find path = .ok (place, .file content)) (hcontent : u.contentAt? place = some content) :
    u.find path = .ok (place, .file content) :=
  find_mono hdirs h (contentAt?_eq_some.mp hcontent)

theorem contentAt?_of_find {path : String} {place : Place} {content : ByteArray}
    (h : t.find path = .ok (place, .file content)) : t.contentAt? place = some content :=
  contentAt?_eq_some.mpr (find_eq_ok.mp h).2.1

theorem contentAt?_of_lookup {p : Place} {node : Option Node}
    (h : u.lookup = Function.update t.lookup p node) :
    u.contentAt? = Function.update t.contentAt? p
      (node.bind fun n => match n with | .file content => some content | .directory => none) := by
  funext q
  by_cases hq : q = p
  · subst hq
    rw [Function.update_self, contentAt?, h, Function.update_self]
    rcases node with _ | _ | _ <;> rfl
  · rw [Function.update_of_ne hq, contentAt?, contentAt?, h, Function.update_of_ne hq]

/-- The directories of a tree are those of another and some on the way along
names from a place. -/
structure Spreads (t u : FileTree) (place : Place) (names : List String) : Prop where
  keeps : ∀ q, t.lookup q = some .directory → u.lookup q = some .directory
  made : ∀ q, u.lookup q = some .directory →
    t.lookup q = some .directory ∨ ∃ a, a <+: names ∧ q = place ++ a

namespace Spreads

variable {v : FileTree} {place : Place} {names : List String}

theorem refl (t : FileTree) (place : Place) (names : List String) :
    t.Spreads t place names := ⟨fun _ h => h, fun _ h => .inl h⟩

theorem trans (h : t.Spreads u place names) (h' : u.Spreads v place names) :
    t.Spreads v place names := by
  refine ⟨fun q hq => h'.keeps q (h.keeps q hq), fun q hq => ?_⟩
  rcases h'.made q hq with hq | hq
  · exact h.made q hq
  · exact .inr hq

/-- Where no directory was, and no directory comes, directories stay what they are. -/
theorem of_update {p : Place} {node : Option Node} (hp : t.lookup p ≠ some .directory)
    (hnode : node ≠ some .directory) (h : u.lookup = Function.update t.lookup p node) :
    t.Spreads u place names := by
  constructor
  · intro q hq
    rw [h, Function.update_of_ne, hq]
    rintro rfl
    exact hp hq
  · intro q hq
    left
    rw [h] at hq
    by_cases hqp : q = p
    · subst hqp
      rw [Function.update_self] at hq
      exact absurd hq hnode
    · rwa [Function.update_of_ne hqp] at hq

theorem of_directory {a : List String} (ha : a <+: names)
    (h : u.lookup = Function.update t.lookup (place ++ a) (some .directory)) :
    t.Spreads u place names := by
  constructor
  · intro q hq
    rw [h, Function.update_apply]
    split
    · rfl
    · exact hq
  · intro q hq
    by_cases hqa : q = place ++ a
    · exact .inr ⟨a, ha, hqa⟩
    · rw [h, Function.update_of_ne hqa] at hq
      exact .inl hq

end Spreads

/-! ### Operations -/

section Write

variable {path : String} {content : ByteArray}

theorem write_eq_ok :
    t.write path content = .ok u ↔ ∃ p, t.locate path = .ok p ∧
      endsAsDirectory path = false ∧ t.lookup p ≠ some .directory ∧
        u = t.insert p (.file content) := by
  unfold write
  cases hlocate : t.locate path with
  | error e => simp [Bind.bind, Except.bind]
  | ok p =>
      rw [show ∀ f : Place → Except FileFault FileTree, (Except.ok p >>= f) = f p from
        fun _ => rfl]
      cases endsAsDirectory path with
      | true => simp
      | false =>
          rcases hnode : t.lookup p with _ | content' | _ <;>
            simp [hnode, eq_comm]

theorem remove_eq_ok :
    t.remove path = .ok u ↔ ∃ p c, t.find path = .ok (p, .file c) ∧ u = t.erase p := by
  unfold remove
  rcases t.find path with e | ⟨p, c | _⟩ <;> simp [Bind.bind, Except.bind, eq_comm]

theorem lookup_of_erase {p q : Place} {node : Node} (h : (t.erase p).lookup q = some node) :
    t.lookup q = some node := by
  by_cases hq : q = []
  · subst hq
    exact h
  · rw [lookup_erase t p q hq] at h
    split at h
    · cases h
    · exact h

/-- To remove a file adds nothing. -/
theorem find_of_remove (h : t.remove path = .ok u) {other : String} {place : Place} {node : Node}
    (hfind : u.find other = .ok (place, node)) : t.find other = .ok (place, node) := by
  obtain ⟨p, c, -, rfl⟩ := remove_eq_ok.mp h
  exact find_mono (fun q => lookup_of_erase) hfind (lookup_of_erase (find_eq_ok.mp hfind).2.1)

theorem exists?_of_remove (h : t.remove path = .ok u) {other : String}
    (hthere : u.exists? other = true) : t.exists? other = true := by
  obtain ⟨place, node, hfind⟩ := exists?_eq_true.mp hthere
  exact exists?_eq_true.mpr ⟨place, node, find_of_remove h hfind⟩

/-- A file that has been removed is not there. -/
theorem exists?_remove_self (h : t.remove path = .ok u) : u.exists? path = false := by
  rw [Bool.eq_false_iff]
  intro hthere
  obtain ⟨place, node, hagain⟩ := exists?_eq_true.mp hthere
  have hbefore := find_of_remove h hagain
  obtain ⟨p, c, hfind, rfl⟩ := remove_eq_ok.mp h
  obtain ⟨rfl, -⟩ : p = place ∧ _ := Prod.mk.inj (Except.ok.inj (hfind.symm.trans hbefore))
  have hfile := (find_eq_ok.mp hfind).2.1
  have hgone := (find_eq_ok.mp hagain).2.1
  have hroot : p ≠ [] := @ne_nil_of_not_directory t p (by simp [hfile])
  rw [lookup_erase t p p hroot, if_pos rfl] at hgone
  cases hgone

/-- To write a file adds nothing at other places. -/
theorem exists?_of_write {content : ByteArray} (h : t.write path content = .ok u) {other : String}
    (hthere : u.exists? other = true) :
    t.exists? other = true ∨ ∃ place, t.locate path = .ok place ∧ t.locate other = .ok place := by
  obtain ⟨p, hp, -, hfile, rfl⟩ := write_eq_ok.mp h
  have hlookup := lookup_insert_eq t (ne_nil_of_not_directory hfile) (.file content)
  obtain ⟨place, node, hfind⟩ := exists?_eq_true.mp hthere
  obtain ⟨hlocate, hnode, hend⟩ := find_eq_ok.mp hfind
  have hbefore : t.locate other = .ok place := by
    refine locate_mono (fun q hq => ?_) hlocate
    rw [hlookup, Function.update_apply] at hq
    split at hq
    · cases hq
    · exact hq
  by_cases hplace : place = p
  · exact .inr ⟨p, hp, hplace ▸ hbefore⟩
  · rw [hlookup, Function.update_of_ne hplace] at hnode
    exact .inl (exists?_eq_true.mpr ⟨place, node, find_eq_ok.mpr ⟨hbefore, hnode, hend⟩⟩)

theorem mapError_eq_ok {ε ε' α : Type} {x : Except ε α} {f : ε → ε'} {a : α} :
    x.mapError f = .ok a ↔ x = .ok a := by
  cases x <;> simp [Except.mapError]

theorem perform_ensure_eq_ok :
    t.perform (.ensure path) = .ok u ↔ t.makeDirectories path = .ok u := mapError_eq_ok

theorem perform_copy_eq_ok {target : String} :
    t.perform (.copy path target) = .ok u ↔ t.copy path target = .ok u := mapError_eq_ok

theorem perform_drop_eq_ok {kept : String} :
    t.perform (.drop path kept) = .ok u ↔ t.remove path = .ok u := mapError_eq_ok

/-- What cannot be renamed is copied and then deleted. -/
theorem perform_move_eq_ok {target : String} :
    t.perform (.move path target) = .ok u ↔ t.rename path target = .ok u ∨
      (∃ fault, t.rename path target = .error fault) ∧
        ∃ v, t.copy path target = .ok v ∧ v.remove path = .ok u := by
  rw [perform]
  cases hrename : t.rename path target with
  | ok v => simp
  | error fault =>
      rw [mapError_eq_ok]
      cases t.copy path target <;> simp [Bind.bind, Except.bind]

theorem lookup_write (content : ByteArray) {p : Place} (hp : t.lookup p ≠ some .directory) :
    (t.insert p (.file content)).lookup =
      Function.update t.lookup p (some (.file content)) :=
  lookup_insert_eq t (ne_nil_of_not_directory hp) _

end Write

/-- A file that is copied elsewhere is there afterwards, and what was there is not. -/
theorem copy_eq_ok {source target : String} {p q : Place} {content : ByteArray}
    (hsource : t.find source = .ok (p, .file content)) (htarget : t.locate target = .ok q)
    (hne : p ≠ q) :
    t.copy source target = .ok u ↔ endsAsDirectory target = false ∧
      t.lookup q ≠ some .directory ∧
        u = (t.insert q (.file .empty)).insert q (.file content) := by
  unfold copy
  rw [hsource]
  dsimp only [Bind.bind, Except.bind]
  cases hends : endsAsDirectory target with
  | true => simp [write, htarget, hends, Bind.bind, Except.bind]
  | false =>
      by_cases hdir : t.lookup q = some .directory
      · simp [write, htarget, hends, hdir, Bind.bind, Except.bind]
      · have hempty : t.write target .empty = .ok (t.insert q (.file .empty)) :=
          write_eq_ok.mpr ⟨q, htarget, hends, hdir, rfl⟩
        have hlookup := lookup_write .empty hdir
        have hspread : t.Spreads (t.insert q (.file .empty)) [] [] :=
          .of_update hdir (by simp) hlookup
        have hfile : (t.insert q (.file .empty)).lookup p = some (.file content) := by
          rw [hlookup, Function.update_of_ne hne]
          exact (find_eq_ok.mp hsource).2.1
        have hwrite : (t.insert q (.file .empty)).write target content =
            .ok ((t.insert q (.file .empty)).insert q (.file content)) := by
          refine write_eq_ok.mpr ⟨q, locate_mono hspread.keeps htarget, hends, ?_, rfl⟩
          rw [hlookup, Function.update_self]
          simp
        simp [hempty, hfile, hwrite, hdir, eq_comm]

theorem copy_inv {source target : String} (h : t.copy source target = .ok u) :
    ∃ p content q, t.find source = .ok (p, .file content) ∧ t.locate target = .ok q ∧
      t.lookup q ≠ some .directory := by
  rcases hsource : t.find source with e | ⟨p, content | _⟩
  · simp [copy, hsource, Bind.bind, Except.bind] at h
  · cases hempty : t.write target .empty with
    | error e => simp [copy, hsource, hempty, Bind.bind, Except.bind] at h
    | ok v =>
        obtain ⟨q, hlocate, -, hfree, -⟩ := write_eq_ok.mp hempty
        exact ⟨p, content, q, rfl, hlocate, hfree⟩
  · simp [copy, hsource, Bind.bind, Except.bind] at h

theorem locate_of_copy {source target : String} (h : t.copy source target = .ok u) :
    ∃ q, t.locate target = .ok q := by
  obtain ⟨-, -, q, -, hlocate, -⟩ := copy_inv h
  exact ⟨q, hlocate⟩

theorem endsAsDirectory_of_copy {source target : String} (h : t.copy source target = .ok u) :
    endsAsDirectory target = false := by
  cases hends : endsAsDirectory target with
  | false => rfl
  | true =>
      obtain ⟨q, htarget⟩ := locate_of_copy h
      have hwrite : ∀ content, t.write target content = .error .isDirectory := fun content => by
        simp [write, htarget, hends, Bind.bind, Except.bind]
      rcases hsource : t.find source with e' | ⟨p, content | _⟩ <;>
        simp [copy, hsource, hwrite, Bind.bind, Except.bind] at h

theorem lookup_copy (content : ByteArray) {q : Place} (hq : t.lookup q ≠ some .directory) :
    ((t.insert q (.file .empty)).insert q (.file content)).lookup =
      Function.update t.lookup q (some (.file content)) := by
  have hne := ne_nil_of_not_directory hq
  rw [lookup_insert_eq _ hne, lookup_insert_eq _ hne, Function.update_idem]

theorem rename_eq_ok {source target : String} (h : t.rename source target = .ok u) :
    ∃ p n q, t.find source = .ok (p, n) ∧ t.locate target = .ok q ∧ t.lookup q = none ∧
      ¬ p <+: q ∧ u = t.transplant p q := by
  unfold rename at h
  cases hsource : t.find source with
  | error e =>
      rw [hsource] at h
      cases h
  | ok found =>
      cases htarget : t.locate target with
      | error e =>
          rw [hsource, htarget] at h
          cases h
      | ok q =>
          rw [hsource, htarget] at h
          dsimp only [Bind.bind, Except.bind] at h
          split at h
          · cases h
          · next hnone =>
              split at h
              · cases h
              · next hbelow =>
                  cases h
                  exact ⟨found.1, found.2, q, rfl, rfl, by simpa using hnone,
                    by simpa using hbelow, rfl⟩

theorem lookup_ne_none_of_mem {e : Place × Node} (he : e ∈ t.entries) : t.lookup e.1 ≠ none := by
  unfold lookup
  split
  · simp
  · rw [ne_eq, Option.map_eq_none_iff, List.find?_eq_none]
    intro h
    exact h e he (by simp)

/-- What a moved tree holds at a place: the entries that were there, or were moved there. -/
theorem lookup_transplant_eq (t : FileTree) (p q : Place) {x : Place} (hx : x ≠ []) :
    (t.transplant p q).lookup x = (t.entries.find? fun e =>
      (if p <+: e.1 then q ++ e.1.drop p.length else e.1) = x).map (·.2) := by
  simp only [lookup, transplant, hx, if_false, List.find?_map, Option.map_map]
  congr 1
  · funext e
    by_cases he : p <+: e.1 <;> simp [he]
  · congr 1
    funext e
    by_cases he : p <+: e.1 <;> simp [he]

/-- Moving a single file takes it from its place to another. -/
theorem lookup_transplant {p q : Place} (hp : p ≠ []) (hq : t.lookup q = none)
    (hbelow : ∀ x, p <+: x → t.lookup x ≠ none → x = p) (hover : ¬ q <+: p) :
    (t.transplant p q).lookup =
      Function.update (Function.update t.lookup p none) q (t.lookup p) := by
  have hq0 : q ≠ [] := ne_nil_of_not_directory (t := t) (by simp [hq])
  funext x
  by_cases hx : x = []
  · rw [hx, Function.update_of_ne hq0.symm, Function.update_of_ne hp.symm]
    simp [lookup]
  have hother : ∀ z : Place, z ≠ [] → t.lookup z = (t.entries.find? (·.1 = z)).map (·.2) :=
    fun z hz => by simp [lookup, hz]
  rw [lookup_transplant_eq t p q hx]
  by_cases hxq : x = q
  · subst hxq
    rw [Function.update_self, hother p hp]
    congr 1
    apply List.find?_congr
    intro e he
    have hstands := lookup_ne_none_of_mem he
    rw [decide_eq_decide]
    constructor
    · intro h
      by_cases hunder : p <+: e.1
      · exact hbelow e.1 hunder hstands
      · rw [if_neg hunder] at h
        exact absurd (h ▸ hq) hstands
    · intro h
      simp [h]
  · rw [Function.update_of_ne hxq]
    by_cases hxp : x = p
    · subst hxp
      rw [Function.update_self, Option.map_eq_none_iff, List.find?_eq_none]
      intro e he h
      by_cases hunder : x <+: e.1
      · rw [if_pos hunder, decide_eq_true_eq] at h
        exact hover ⟨_, h⟩
      · rw [if_neg hunder, decide_eq_true_eq] at h
        exact hunder (h ▸ List.prefix_refl x)
    · rw [Function.update_of_ne hxp, hother x hx]
      congr 1
      apply List.find?_congr
      intro e he
      by_cases hunder : p <+: e.1
      · have hep := hbelow e.1 hunder (lookup_ne_none_of_mem he)
        simp [hep, Ne.symm hxp, Ne.symm hxq]
      · simp [hunder]

theorem makeAlong_append (t : FileTree) {here p : Place} {a : List String} (b : List String)
    (ha : t.walk here a = .ok p) (hp : t.lookup p = some .directory) :
    t.makeAlong here (a ++ b) = t.makeAlong p b := by
  induction a generalizing here with
  | nil =>
      cases ha
      rfl
  | cons name rest ih =>
      have hhere := directory_of_walk ha hp
      rw [walk, hhere] at ha
      rw [List.cons_append, makeAlong, hhere]
      dsimp only at ha ⊢
      split
      · next hup =>
          rw [if_pos hup] at ha
          exact ih ha
      · next hup =>
          rw [if_neg hup] at ha
          split at ha
          · cases ha
          · next hsize =>
              rw [if_neg hsize, directory_of_walk ha hp]
              exact ih ha

/-! ### A root directory -/

/-- A path leads to a directory, and what stands below that stands in directories. -/
structure Rooted (t : FileTree) (root : String) (place : Place) : Prop where
  find_root : t.find root = .ok (place, .directory)
  stands : ∀ q name, t.lookup (place ++ (q ++ [name])) ≠ none →
    t.lookup (place ++ q) = some .directory

namespace Rooted

variable {root : String} {place : Place} {names : List String}

theorem directory (h : t.Rooted root place) : t.lookup place = some .directory :=
  (find_eq_ok.mp h.find_root).2.1

theorem ne_empty (h : t.Rooted root place) : root ≠ "" :=
  (locate_eq_ok.mp (find_eq_ok.mp h.find_root).1).2.1

/-- Whatever is below a place, a directory is at it. -/
theorem stands_over (h : t.Rooted root place) {q r : List String} (hr : r ≠ [])
    (hstands : t.lookup (place ++ q ++ r) ≠ none) : t.lookup (place ++ q) = some .directory := by
  induction r using List.reverseRecOn with
  | nil => exact absurd rfl hr
  | append_singleton r name ih =>
      have hover : t.lookup (place ++ (q ++ r)) = some .directory :=
        h.stands (q ++ r) name (by simpa using hstands)
      by_cases hnil : r = []
      · simpa [hnil] using hover
      · apply ih hnil
        rw [List.append_assoc, hover]
        simp

/-- Where a path along names leads: it goes on from where the root is. -/
theorem locate_along (h : t.Rooted root place) (hnames : ∀ name ∈ names, Text.IsName name)
    {p : Place} :
    t.locate (Text.along root names) = .ok p ↔
      (∀ name ∈ names, '\x00' ∉ name.toList) ∧ t.walk place names = .ok p := by
  have hroot := locate_eq_ok.mp (find_eq_ok.mp h.find_root).1
  have hwalk : t.walk [] ((Text.pathComponents (Text.along root names).toList).map String.ofList)
      = t.walk place names := by
    rw [Text.pathComponents_along h.ne_empty hnames, walk_append, hroot.2.2]
    rfl
  rw [locate_eq_ok, hwalk, Text.mem_along h.ne_empty hnames (by decide)]
  have hne := Text.along_ne_empty h.ne_empty hnames
  simp only [hroot.1, hne, false_or, not_exists, not_and, ne_eq, not_false_eq_true, true_and]

theorem eq_of_locate_along (h : t.Rooted root place)
    (hnames : ∀ name ∈ names, Text.IsName name) {p : Place}
    (hp : t.locate (Text.along root names) = .ok p) : p = place ++ names :=
  walk_names (fun name hname => (hnames name hname).notUp) ((h.locate_along hnames).mp hp).2

theorem eq_of_find_along (h : t.Rooted root place)
    (hnames : ∀ name ∈ names, Text.IsName name) {p : Place} {node : Node}
    (hp : t.find (Text.along root names) = .ok (p, node)) : p = place ++ names :=
  h.eq_of_locate_along hnames (find_eq_ok.mp hp).1

theorem find_of_lookup (h : t.Rooted root place) (hnames : ∀ name ∈ names, Text.IsName name)
    (hne : names ≠ []) (hlocate : t.locate (Text.along root names) = .ok (place ++ names))
    {node : Node} (hnode : t.lookup (place ++ names) = some node) :
    t.find (Text.along root names) = .ok (place ++ names, node) :=
  find_eq_ok.mpr ⟨hlocate, hnode, .inr (Text.endsAsDirectory_along h.ne_empty hnames hne)⟩

/-- Names that directories can hold are followed through directories. -/
theorem walk_of_directories (here : Place) (hnames : ∀ name ∈ names, name ≠ ".." ∧
    name.utf8ByteSize ≤ maxNameSize)
    (hdirs : ∀ a, a <+: names → a ≠ names → t.lookup (here ++ a) = some .directory) :
    t.walk here names = .ok (here ++ names) := by
  induction names generalizing here with
  | nil => simp [walk]
  | cons name rest ih =>
      have hhere : t.lookup here = some .directory := by
        simpa using hdirs [] List.nil_prefix (by simp)
      have hname := hnames name List.mem_cons_self
      have hrest := ih (here ++ [name])
        (fun other hother => hnames other (List.mem_cons_of_mem name hother))
        (fun a ha hne => by
          simpa using hdirs (name :: a) (List.cons_prefix_cons.mpr ⟨rfl, ha⟩) (by simpa using hne))
      rw [walk, hhere]
      dsimp only
      rw [if_neg hname.1, if_neg (Nat.not_lt.mpr hname.2), hrest]
      simp

/-- What stands below the root is found by its path. -/
theorem find_of_stands (h : t.Rooted root place) (hnames : ∀ name ∈ names, Text.IsName name)
    (hfit : ∀ name ∈ names, '\x00' ∉ name.toList ∧ name.utf8ByteSize ≤ maxNameSize)
    (hne : names ≠ []) {node : Node} (hnode : t.lookup (place ++ names) = some node) :
    t.find (Text.along root names) = .ok (place ++ names, node) := by
  refine h.find_of_lookup hnames hne ?_ hnode
  refine (h.locate_along hnames).mpr ⟨fun name hname => (hfit name hname).1, ?_⟩
  apply walk_of_directories place fun name hname => ⟨(hnames name hname).notUp, (hfit name hname).2⟩
  rintro a ⟨r, rfl⟩ hr
  apply h.stands_over (r := r)
  · rintro rfl
    simp at hr
  · rw [List.append_assoc, hnode]
    simp

/-- Everything in a tree stands in a directory. -/
theorem of_entries (hroot : t.find root = .ok (place, .directory))
    (hentries : ∀ e ∈ t.entries, t.lookup e.1.dropLast = some .directory) :
    t.Rooted root place := by
  refine ⟨hroot, fun q name hstands => ?_⟩
  have hplace : place ++ (q ++ [name]) = place ++ q ++ [name] := (List.append_assoc _ _ _).symm
  rw [hplace] at hstands
  unfold lookup at hstands
  rw [if_neg (by simp), ne_eq, Option.map_eq_none_iff, List.find?_eq_none] at hstands
  push Not at hstands
  obtain ⟨e, he, heq⟩ := hstands
  have hdir := hentries e he
  rw [of_decide_eq_true heq, List.dropLast_concat] at hdir
  exact hdir

/-- A path that leads somewhere leads there through directories. -/
theorem find_parent (h : t.Rooted root place) {a b : List String}
    (hnames : ∀ name ∈ a ++ b, Text.IsName name) (hb : b ≠ []) {p : Place}
    (hp : t.locate (Text.along root (a ++ b)) = .ok p) :
    t.find (Text.along root a) = .ok (place ++ a, .directory) := by
  have ha : ∀ name ∈ a, Text.IsName name := fun name hname =>
    hnames name (List.mem_append_left b hname)
  obtain ⟨hnul, hwalk⟩ := (h.locate_along hnames).mp hp
  obtain ⟨q, hstart, hrest⟩ := exists_walk_append hwalk
  obtain ⟨name, rest, rfl⟩ := List.exists_cons_of_ne_nil hb
  have hdir := (walk_cons (hnames name (by simp)).notUp hrest).1
  have hq := walk_names (fun name hname => (ha name hname).notUp) hstart
  subst hq
  refine find_eq_ok.mpr ⟨(h.locate_along ha).mpr ⟨?_, hstart⟩, hdir, .inl rfl⟩
  exact fun name hname => hnul name (List.mem_append_left _ hname)

/-- Something comes to stand in a directory, where no directory was. -/
theorem of_insert (h : t.Rooted root place) {q : List String} {name : String} {n : Node}
    (hover : t.lookup (place ++ q) = some .directory)
    (hplace : t.lookup (place ++ (q ++ [name])) ≠ some .directory)
    (hlookup : u.lookup = Function.update t.lookup (place ++ (q ++ [name])) (some n)) :
    u.Rooted root place := by
  have hdirs : ∀ p, t.lookup p = some .directory → u.lookup p = some .directory := by
    intro p hp
    rw [hlookup, Function.update_of_ne, hp]
    rintro rfl
    exact hplace hp
  refine ⟨find_mono hdirs h.find_root (hdirs _ h.directory), fun r m hr => ?_⟩
  apply hdirs
  by_cases hnew : place ++ (r ++ [m]) = place ++ (q ++ [name])
  · have hqr := (List.append_inj' (List.append_cancel_left hnew) rfl).1
    rwa [hqr]
  · rw [hlookup, Function.update_of_ne hnew] at hr
    exact h.stands r m hr

/-- A file is taken away. -/
theorem of_erase (h : t.Rooted root place) {p : Place}
    (hp : t.lookup p ≠ some .directory) (hlookup : u.lookup = Function.update t.lookup p none) :
    u.Rooted root place := by
  have hdirs : ∀ q, t.lookup q = some .directory → u.lookup q = some .directory := by
    intro q hq
    rw [hlookup, Function.update_of_ne, hq]
    rintro rfl
    exact hp hq
  refine ⟨find_mono hdirs h.find_root (hdirs _ h.directory), fun r m hr => ?_⟩
  apply hdirs
  apply h.stands r m
  intro hnone
  rw [hlookup, Function.update_apply, hnone] at hr
  simp at hr

/-- Making directories along names only adds directories. -/
theorem makeAlong_spec (h : t.Rooted root place) (a : List String)
    (hnames : ∀ name ∈ names, name ≠ "..")
    (hok : t.makeAlong (place ++ a) names = .ok u) :
    u.Rooted root place ∧ t.Spreads u place (a ++ names) ∧ u.contentAt? = t.contentAt? := by
  induction names generalizing t a with
  | nil =>
      cases hok
      exact ⟨h, .refl _ _ _, rfl⟩
  | cons name rest ih =>
      have hrest : ∀ other ∈ rest, other ≠ ".." := fun other hother =>
        hnames other (List.mem_cons_of_mem name hother)
      have hassoc : a ++ name :: rest = a ++ [name] ++ rest := by simp
      rw [makeAlong] at hok
      split at hok
      · next hhere =>
          rw [if_neg (hnames name List.mem_cons_self)] at hok
          split at hok
          · cases hok
          · dsimp only at hok
            split at hok
            · next hnone =>
                have hne : t.lookup (place ++ a ++ [name]) ≠ some .directory := by
                  rw [hnone]
                  simp
                have hlookup := lookup_insert_eq t (ne_nil_of_not_directory hne) .directory
                have hmade := h.of_insert hhere (by rwa [← List.append_assoc])
                  (by rw [← List.append_assoc, hlookup])
                obtain ⟨hrooted, hspread, hcontent⟩ :=
                  ih hmade (a ++ [name]) hrest (by rwa [← List.append_assoc])
                rw [hassoc]
                refine ⟨hrooted, .trans (.of_directory (List.prefix_append _ _) ?_) hspread, ?_⟩
                · rw [← List.append_assoc, hlookup]
                · rw [hcontent, contentAt?_of_lookup hlookup]
                  refine Function.update_eq_self_iff.mpr ?_
                  rw [contentAt?, hnone]
                  rfl
            · rw [hassoc]
              exact ih h (a ++ [name]) hrest (by rwa [← List.append_assoc])
            · cases hok
      · cases hok

theorem perform_ensure (h : t.Rooted root place) (hnames : ∀ name ∈ names, Text.IsName name)
    (hok : t.perform (.ensure (Text.along root names)) = .ok u) :
    u.Rooted root place ∧ t.Spreads u place names ∧ u.contentAt? = t.contentAt? := by
  have hroot := locate_eq_ok.mp (find_eq_ok.mp h.find_root).1
  have hne := Text.along_ne_empty h.ne_empty hnames
  have hmade := perform_ensure_eq_ok.mp hok
  have halong : t.makeAlong place names = .ok u := by
    simp only [makeDirectories, namesOf, String.isEmpty_iff, hne, if_false] at hmade
    split at hmade
    · cases hmade
    · simp only [Bind.bind, Except.bind] at hmade
      rwa [Text.pathComponents_along h.ne_empty hnames,
        makeAlong_append t names hroot.2.2 h.directory] at hmade
  have hspec := h.makeAlong_spec [] (fun name hname => (hnames name hname).notUp)
    (by rwa [List.append_nil])
  rwa [List.nil_append] at hspec

section Effects

variable {path : String} {p : Place} {a b : List String} {name : String} {content : ByteArray}

theorem perform_drop (h : t.Rooted root place) {kept : String}
    (hfile : t.find path = .ok (p, .file content))
    (hok : t.perform (.drop path kept) = .ok u) :
    u.Rooted root place ∧ u.lookup = Function.update t.lookup p none := by
  have hdir := not_directory_of_contentAt? (contentAt?_of_find hfile)
  obtain ⟨q, c, hfind, rfl⟩ := remove_eq_ok.mp (perform_drop_eq_ok.mp hok)
  rw [hfile] at hfind
  cases hfind
  have hlookup := lookup_erase_eq t (ne_nil_of_not_directory hdir)
  exact ⟨h.of_erase hdir hlookup, hlookup⟩

/-- A path to which a file is copied names a place in a directory. -/
theorem copy_spec (h : t.Rooted root place) (hb : ∀ x ∈ b ++ [name], Text.IsName x)
    (hfile : t.find path = .ok (p, .file content)) (hne : p ≠ place ++ (b ++ [name]))
    (hok : t.copy path (Text.along root (b ++ [name])) = .ok u) :
    t.locate (Text.along root (b ++ [name])) = .ok (place ++ (b ++ [name])) ∧
      u.Rooted root place ∧ t.lookup (place ++ (b ++ [name])) ≠ some .directory ∧
      u.lookup = Function.update t.lookup (place ++ (b ++ [name])) (some (.file content)) := by
  obtain ⟨q, htarget⟩ := locate_of_copy hok
  have hq := h.eq_of_locate_along hb htarget
  subst hq
  obtain ⟨-, hdir, rfl⟩ := (copy_eq_ok hfile htarget hne).mp hok
  have hlookup := lookup_copy content hdir
  have hover := (find_eq_ok.mp (h.find_parent hb (by simp) htarget)).2.1
  exact ⟨htarget, h.of_insert hover hdir hlookup, hdir, hlookup⟩

/-- A single file that is renamed leaves its place, and stands where nothing was. -/
theorem rename_spec (h : t.Rooted root place) (hb : ∀ x ∈ b ++ [name], Text.IsName x)
    (hne : a ≠ b ++ [name])
    (hfile : t.find (Text.along root a) = .ok (place ++ a, .file content))
    (hok : t.rename (Text.along root a) (Text.along root (b ++ [name])) = .ok u) :
    t.locate (Text.along root (b ++ [name])) = .ok (place ++ (b ++ [name])) ∧
      u.Rooted root place ∧ t.lookup (place ++ (b ++ [name])) ≠ some .directory ∧
      u.lookup = Function.update (Function.update t.lookup (place ++ a) none)
        (place ++ (b ++ [name])) (some (.file content)) := by
  have hplaces : place ++ a ≠ place ++ (b ++ [name]) := fun e => hne (List.append_cancel_left e)
  have hnode := (find_eq_ok.mp hfile).2.1
  have hdir : t.lookup (place ++ a) ≠ some .directory := by simp [hnode]
  obtain ⟨p, n, q, hsource, htarget, hnone, -, rfl⟩ := rename_eq_ok hok
  rw [hfile] at hsource
  cases hsource
  have hq := h.eq_of_locate_along hb htarget
  subst hq
  have hbelow : ∀ x, place ++ a <+: x → t.lookup x ≠ none → x = place ++ a := by
    rintro _ ⟨r, rfl⟩ hstands
    by_cases hr : r = []
    · simp [hr]
    · exact absurd (h.stands_over hr hstands) hdir
  have hover : ¬ place ++ (b ++ [name]) <+: place ++ a := by
    rintro ⟨r, hr⟩
    have hstands : t.lookup (place ++ (b ++ [name]) ++ r) ≠ none := by simp [hr, hnode]
    by_cases hnil : r = []
    · exact hplaces (by rw [← hr, hnil, List.append_nil])
    · simp [h.stands_over hnil hstands] at hnone
  have hlookup := lookup_transplant (ne_nil_of_not_directory hdir) hnone hbelow hover
  rw [hnode] at hlookup
  have hparent := (find_eq_ok.mp (h.find_parent hb (by simp) htarget)).2.1
  have herase := lookup_erase_eq t (ne_nil_of_not_directory hdir)
  refine ⟨htarget, ?_, by simp [hnone], hlookup⟩
  rw [← herase] at hlookup
  refine (h.of_erase hdir herase).of_insert ?_ ?_ hlookup
  · rw [herase, Function.update_of_ne, hparent]
    intro e
    rw [e] at hparent
    exact hdir hparent
  · rw [herase, Function.update_of_ne hplaces.symm, hnone]
    simp

/-- A file that is moved leaves its place, and stands where it is moved to, whether it was
renamed or copied. -/
theorem perform_move (h : t.Rooted root place) (ha : ∀ x ∈ a, Text.IsName x)
    (hb : ∀ x ∈ b ++ [name], Text.IsName x) (hne : a ≠ b ++ [name])
    (hfile : t.find (Text.along root a) = .ok (place ++ a, .file content))
    (hok : t.perform (.move (Text.along root a) (Text.along root (b ++ [name]))) = .ok u) :
    t.locate (Text.along root (b ++ [name])) = .ok (place ++ (b ++ [name])) ∧
      u.Rooted root place ∧ t.lookup (place ++ (b ++ [name])) ≠ some .directory ∧
      u.lookup = Function.update (Function.update t.lookup (place ++ a) none)
        (place ++ (b ++ [name])) (some (.file content)) := by
  rcases perform_move_eq_ok.mp hok with hrename | ⟨-, v, hcopy, hremove⟩
  · exact h.rename_spec hb hne hfile hrename
  · have hplaces : place ++ a ≠ place ++ (b ++ [name]) := fun e => hne (List.append_cancel_left e)
    obtain ⟨htarget, hrooted, hfree, hv⟩ := h.copy_spec hb hfile hplaces hcopy
    obtain ⟨q, c, hsource, rfl⟩ := remove_eq_ok.mp hremove
    have hq := hrooted.eq_of_find_along ha hsource
    subst hq
    have hvdir := not_directory_of_contentAt? (contentAt?_of_find hsource)
    have herase := lookup_erase_eq v (ne_nil_of_not_directory hvdir)
    refine ⟨htarget, hrooted.of_erase hvdir herase, hfree, ?_⟩
    rw [herase, hv, Function.update_comm hplaces]

end Effects

end Rooted

end FileTree

end Docket
