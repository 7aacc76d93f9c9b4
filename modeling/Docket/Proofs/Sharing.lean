import Docket.Proofs.Relocation

/-!
What becomes of the other files when the file of one document goes to the place of a
hash.  All that stood at one place is gone and everything else is as it was, so a path
is lost exactly if the way along it leads over that place.
-/

namespace Docket

namespace FileTree

variable {t u v : FileTree}

/-- Everything in a tree stands in a directory. -/
def Closed (t : FileTree) : Prop :=
  ∀ q name, t.lookup (q ++ [name]) ≠ none → t.lookup q = some .directory

/-- Whatever stands in a tree stands in another as well. -/
def Keeps (t u : FileTree) : Prop := ∀ q, t.lookup q ≠ none → u.lookup q = t.lookup q

namespace Closed

theorem rooted (h : t.Closed) {root : String} {place : Place}
    (hroot : t.find root = .ok (place, .directory)) : t.Rooted root place := by
  refine ⟨hroot, fun q name hstands => h (place ++ q) name ?_⟩
  rwa [List.append_assoc]

theorem above (h : t.Closed) {q r : Place} (hr : r ≠ []) (hstands : t.lookup (q ++ r) ≠ none) :
    t.lookup q = some .directory := by
  induction r using List.reverseRecOn with
  | nil => exact absurd rfl hr
  | append_singleton r name ih =>
      rw [← List.append_assoc] at hstands
      have hover := h (q ++ r) name hstands
      by_cases hnil : r = []
      · rwa [hnil, List.append_nil] at hover
      · exact ih hnil (by simp [hover])

/-- Above what stands, something stands. -/
theorem stands_above (h : t.Closed) {q p : Place} (hqp : q <+: p) (hp : t.lookup p ≠ none) :
    t.lookup q ≠ none := by
  obtain ⟨r, rfl⟩ := hqp
  by_cases hr : r = []
  · simpa [hr] using hp
  · simp [h.above hr hp]

theorem directory_above (h : t.Closed) {q p : Place} (hqp : q <+: p)
    (hp : t.lookup p = some .directory) : t.lookup q = some .directory := by
  obtain ⟨r, rfl⟩ := hqp
  by_cases hr : r = []
  · simpa [hr] using hp
  · exact h.above hr (by simp [hp])

theorem insert (h : t.Closed) {q : Place} {name : String} {n : Node}
    (hover : t.lookup q = some .directory) (hnone : t.lookup (q ++ [name]) = none) :
    (t.insert (q ++ [name]) n).Closed ∧ t.Keeps (t.insert (q ++ [name]) n) := by
  have hlookup := lookup_insert_eq t (p := q ++ [name]) (by simp) n
  have hkeeps : t.Keeps (t.insert (q ++ [name]) n) := by
    intro p hp
    rw [hlookup, Function.update_of_ne]
    rintro rfl
    exact hp hnone
  refine ⟨fun p m hstands => ?_, hkeeps⟩
  by_cases hnew : p ++ [m] = q ++ [name]
  · obtain ⟨rfl, -⟩ := List.append_inj' hnew rfl
    rw [hkeeps p (by simp [hover]), hover]
  · rw [hlookup, Function.update_of_ne hnew] at hstands
    have hdir := h p m hstands
    rw [hkeeps p (by simp [hdir]), hdir]

theorem erase (h : t.Closed) {p : Place} (hp : t.lookup p ≠ some .directory) :
    (t.erase p).Closed := by
  have hlookup := lookup_erase_eq t (ne_nil_of_not_directory hp)
  intro q name hstands
  have hold : t.lookup (q ++ [name]) ≠ none := by
    intro hnone
    rw [hlookup, Function.update_apply, hnone] at hstands
    simp at hstands
  have hdir := h q name hold
  rw [hlookup, Function.update_of_ne, hdir]
  rintro rfl
  exact hp hdir

end Closed

theorem Keeps.trans (h : t.Keeps u) (h' : u.Keeps v) : t.Keeps v := by
  intro q hq
  have hu := h q hq
  rw [h' q (by rwa [hu]), hu]

theorem Keeps.find {path : String} {place : Place} {node : Node} (h : t.Keeps u)
    (hfind : t.find path = .ok (place, node)) : u.find path = .ok (place, node) := by
  have hnode := (find_eq_ok.mp hfind).2.1
  refine find_mono (fun q hq => ?_) hfind ?_
  · rw [h q (by simp [hq]), hq]
  · rw [h place (by simp [hnode]), hnode]

/-! ### Making directories -/

theorem Closed.makeAlong (h : t.Closed) {here : Place} {names : List String}
    (hok : t.makeAlong here names = .ok u) : u.Closed ∧ t.Keeps u := by
  induction names generalizing t here with
  | nil =>
      cases hok
      exact ⟨h, fun _ _ => rfl⟩
  | cons name rest ih =>
      rw [FileTree.makeAlong] at hok
      split at hok
      · next hhere =>
          split at hok
          · exact ih h hok
          · split at hok
            · cases hok
            · dsimp only at hok
              split at hok
              · next hnone =>
                  obtain ⟨hclosed, hkeeps⟩ := h.insert (n := .directory) hhere hnone
                  obtain ⟨hclosed', hkeeps'⟩ := ih hclosed hok
                  exact ⟨hclosed', hkeeps.trans hkeeps'⟩
              · exact ih h hok
              · cases hok
      · cases hok

theorem Closed.ensure (h : t.Closed) {directory : String}
    (hok : t.perform (.ensure directory) = .ok u) : u.Closed ∧ t.Keeps u := by
  have hmade := perform_ensure_eq_ok.mp hok
  unfold makeDirectories at hmade
  split at hmade
  · cases hmade
    exact ⟨h, fun _ _ => rfl⟩
  · cases hnames : namesOf directory with
    | error e =>
        rw [hnames] at hmade
        cases hmade
    | ok names =>
        rw [hnames] at hmade
        exact h.makeAlong hmade

theorem Closed.ensureParent (h : t.Closed) {path : String}
    (hok : t.performAll (Storage.ensureParent t path) = (.ok (), u)) : u.Closed ∧ t.Keeps u := by
  have hsame : t.Closed ∧ t.Keeps t := ⟨h, fun _ _ => rfl⟩
  unfold Storage.ensureParent at hok
  split at hok
  · split at hok
    · cases hok
      exact hsame
    · exact h.ensure (performAll_singleton.mp hok)
  · cases hok
    exact hsame

/-! ### A place that is vacated -/

/-- Nothing is left at a place and below it, and all else that stood stands. -/
structure Vacated (t u : FileTree) (p : Place) : Prop where
  gone : ∀ q, p <+: q → u.lookup q = none
  kept : ∀ q, ¬ p <+: q → t.lookup q ≠ none → u.lookup q = t.lookup q

theorem vacated_of_remove (h : t.Closed) {path : String} {p : Place} {node : Node}
    (hfind : t.find path = .ok (p, node)) (hok : t.remove path = .ok u) : t.Vacated u p := by
  obtain ⟨p', content, hfile, rfl⟩ := remove_eq_ok.mp hok
  rw [hfind] at hfile
  cases hfile
  have hnode := (find_eq_ok.mp hfind).2.1
  have hdir : t.lookup p ≠ some .directory := by simp [hnode]
  have hlookup := lookup_erase_eq t (ne_nil_of_not_directory hdir)
  constructor
  · rintro _ ⟨r, rfl⟩
    by_contra hstands
    by_cases hr : r = []
    · apply hstands
      rw [hr, List.append_nil, hlookup, Function.update_self]
    · have hover := (h.erase hdir).above hr hstands
      rw [hlookup, Function.update_self] at hover
      cases hover
  · intro q hq _
    rw [hlookup, Function.update_of_ne]
    rintro rfl
    exact hq (List.prefix_refl q)

theorem vacated_of_rename (h : t.Closed) {source target : String} {p : Place} {node : Node}
    (hfind : t.find source = .ok (p, node)) (hok : t.rename source target = .ok u) :
    t.Vacated u p := by
  obtain ⟨p', n, q, hsource, -, hnone, hbelow, rfl⟩ := rename_eq_ok hok
  rw [hfind] at hsource
  cases hsource
  have hstands : t.lookup p ≠ none := by simp [(find_eq_ok.mp hfind).2.1]
  have hpnil : p ≠ [] := by
    rintro rfl
    exact hbelow List.nil_prefix
  have hover : ¬ q <+: p := fun hqp => h.stands_above hqp hstands hnone
  constructor
  · intro x hpx
    have hx : x ≠ [] := fun hnil => hpnil (List.prefix_nil.mp (hnil ▸ hpx))
    rw [lookup_transplant_eq t p q hx, Option.map_eq_none_iff, List.find?_eq_none]
    intro e _ hmoved
    rw [decide_eq_true_eq] at hmoved
    split at hmoved
    · -- Two ways above one place are one above the other.
      have hqx : q <+: x := ⟨_, hmoved⟩
      rcases List.prefix_or_prefix_of_prefix hpx hqx with hpq | hqp
      · exact hbelow hpq
      · exact hover hqp
    · next hunder => exact hunder (hmoved ▸ hpx)
  · intro x hpx hold
    by_cases hx : x = []
    · simp [hx, lookup]
    · rw [lookup_transplant_eq t p q hx, lookup, if_neg hx]
      congr 1
      apply List.find?_congr
      intro e _
      rw [decide_eq_decide]
      by_cases hunder : p <+: e.1
      · rw [if_pos hunder]
        constructor
        · intro hmoved
          exact absurd hnone (h.stands_above ⟨_, hmoved⟩ hold)
        · rintro rfl
          exact absurd hunder hpx
      · rw [if_neg hunder]

theorem Vacated.of_keeps {p : Place} (hkeeps : t.Keeps v) (h : v.Vacated u p) :
    t.Vacated u p := by
  refine ⟨h.gone, fun q hq hold => ?_⟩
  have hv := hkeeps q hold
  rw [h.kept q hq (by rwa [hv]), hv]

/-! ### Ways over a place -/

/-- The way along names leads over a place, or over one below it. -/
def Crosses (t : FileTree) (here : Place) (names : List String) (p : Place) : Prop :=
  ∃ before q, before <+: names ∧ t.walk here before = .ok q ∧ p <+: q

/-- The way along a path leads over a place, or over one below it. -/
def LeadsOver (t : FileTree) (path : String) (p : Place) : Prop :=
  ∃ names, namesOf path = .ok names ∧ t.Crosses [] names p

section Crosses

variable {here place p : Place} {name : String} {rest names : List String}

/-- Where a name leads from a directory. -/
theorem walk_directory (hdir : t.lookup here = some .directory) (name : String)
    (hsize : name = ".." ∨ name.utf8ByteSize ≤ maxNameSize) (rest : List String) :
    t.walk here (name :: rest) =
      t.walk (if name = ".." then here.dropLast else here ++ [name]) rest := by
  rw [walk, hdir]
  dsimp only
  by_cases hup : name = ".."
  · rw [if_pos hup, if_pos hup]
  · rw [if_neg hup, if_neg hup, if_neg (Nat.not_lt.mpr (hsize.resolve_left hup))]

theorem walk_eq_ok (h : t.walk here (name :: rest) = .ok place) :
    t.lookup here = some .directory ∧ (name = ".." ∨ name.utf8ByteSize ≤ maxNameSize) ∧
      t.walk (if name = ".." then here.dropLast else here ++ [name]) rest = .ok place := by
  have hdir : t.lookup here = some .directory := by
    rw [walk] at h
    split at h
    · cases h
    · cases h
    · assumption
  have hsize : name = ".." ∨ name.utf8ByteSize ≤ maxNameSize := by
    by_contra hnot
    rw [walk, hdir] at h
    dsimp only at h
    rw [if_neg fun hup => hnot (.inl hup), if_pos (by omega)] at h
    cases h
  rw [walk_directory hdir name hsize] at h
  exact ⟨hdir, hsize, h⟩

theorem crosses_cons (hdir : t.lookup here = some .directory)
    (hsize : name = ".." ∨ name.utf8ByteSize ≤ maxNameSize) :
    t.Crosses here (name :: rest) p ↔ p <+: here ∨
      t.Crosses (if name = ".." then here.dropLast else here ++ [name]) rest p := by
  constructor
  · rintro ⟨before, q, hbefore, hwalk, hq⟩
    rcases List.prefix_cons_iff.mp hbefore with rfl | ⟨b, rfl, hb⟩
    · cases hwalk
      exact .inl hq
    · rw [walk_directory hdir name hsize] at hwalk
      exact .inr ⟨b, q, hb, hwalk, hq⟩
  · rintro (hhere | ⟨before, q, hbefore, hwalk, hq⟩)
    · exact ⟨[], here, List.nil_prefix, rfl, hhere⟩
    · refine ⟨name :: before, q, List.cons_prefix_cons.mpr ⟨rfl, hbefore⟩, ?_, hq⟩
      rwa [walk_directory hdir name hsize]

/-- Only a way that ends at a file leads over it. -/
theorem eq_of_crosses (h : t.Closed) {content : ByteArray} (hfile : t.lookup p = some (.file content))
    (hwalk : t.walk here names = .ok place) (hstands : t.lookup place ≠ none)
    (hcross : t.Crosses here names p) : place = p := by
  induction names generalizing here with
  | nil =>
      cases hwalk
      obtain ⟨before, q, hbefore, hq, r, hr⟩ := hcross
      cases List.prefix_nil.mp hbefore
      cases hq
      by_cases hnil : r = []
      · simpa [hnil] using hr.symm
      · rw [← hr] at hstands
        rw [h.above hnil hstands] at hfile
        cases hfile
  | cons name rest ih =>
      obtain ⟨hdir, hsize, hrest⟩ := walk_eq_ok hwalk
      rcases (crosses_cons hdir hsize).mp hcross with hp | hp
      · rw [h.directory_above hp hdir] at hfile
        cases hfile
      · exact ih hrest hp

theorem leadsOver_iff_of_file (h : t.Closed) {content : ByteArray} {path : String} {node : Node}
    (hfile : t.lookup p = some (.file content)) (hfind : t.find path = .ok (place, node)) :
    t.LeadsOver path p ↔ place = p := by
  obtain ⟨hlocate, hnode, -⟩ := find_eq_ok.mp hfind
  constructor
  · rintro ⟨names, hnames, hcross⟩
    rw [locate, hnames] at hlocate
    exact eq_of_crosses h hfile hlocate (by simp [hnode]) hcross
  · rintro rfl
    cases hnames : namesOf path with
    | error fault =>
        rw [locate, hnames] at hlocate
        cases hlocate
    | ok names =>
        rw [locate, hnames] at hlocate
        exact ⟨names, hnames, names, place, List.prefix_rfl, hlocate, List.prefix_rfl⟩

namespace Vacated

/-- A way that does not lead over the place is followed as before. -/
theorem walk (h : t.Vacated u p) (hcross : ¬ t.Crosses here names p)
    (hwalk : t.walk here names = .ok place) : u.walk here names = .ok place := by
  induction names generalizing here with
  | nil => exact hwalk
  | cons name rest ih =>
      obtain ⟨hdir, hsize, hrest⟩ := walk_eq_ok hwalk
      rw [crosses_cons hdir hsize, not_or] at hcross
      have hdir' : u.lookup here = some .directory := by
        rw [h.kept here hcross.1 (by simp [hdir]), hdir]
      rw [walk_directory hdir' name hsize]
      exact ih hcross.2 hrest

/-- A way that is still followed to something does not lead over the place. -/
theorem not_crosses (h : t.Vacated u p) {place' : Place}
    (hwalk : t.walk here names = .ok place') (hwalk' : u.walk here names = .ok place)
    (hstands : u.lookup place ≠ none) : ¬ t.Crosses here names p := by
  induction names generalizing here with
  | nil =>
      cases hwalk'
      rintro ⟨before, q, hbefore, hq, hp⟩
      cases List.prefix_nil.mp hbefore
      cases hq
      exact hstands (h.gone _ hp)
  | cons name rest ih =>
      obtain ⟨hdir, hsize, hrest⟩ := walk_eq_ok hwalk
      obtain ⟨hdir', -, hrest'⟩ := walk_eq_ok hwalk'
      rw [crosses_cons hdir hsize, not_or]
      refine ⟨fun hp => ?_, ih hrest hrest'⟩
      rw [h.gone _ hp] at hdir'
      cases hdir'

variable {path : String} {node : Node}

theorem find (h : t.Vacated u p) (hlead : ¬ t.LeadsOver path p)
    (hfind : t.find path = .ok (place, node)) : u.find path = .ok (place, node) := by
  obtain ⟨hlocate, hnode, hends⟩ := find_eq_ok.mp hfind
  cases hnames : namesOf path with
  | error e =>
      rw [locate, hnames] at hlocate
      cases hlocate
  | ok names =>
      have hcross : ¬ t.Crosses [] names p := fun hcross => hlead ⟨names, hnames, hcross⟩
      have hwalk : t.walk [] names = .ok place := by
        rw [locate, hnames] at hlocate
        exact hlocate
      refine find_eq_ok.mpr ⟨?_, ?_, hends⟩
      · rw [locate, hnames]
        exact h.walk hcross hwalk
      · have hplace : ¬ p <+: place := fun hp =>
          hcross ⟨names, place, List.prefix_refl names, hwalk, hp⟩
        rw [h.kept place hplace (by simp [hnode]), hnode]

theorem not_exists (h : t.Vacated u p) (hlead : t.LeadsOver path p)
    (hfind : t.find path = .ok (place, node)) : u.exists? path = false := by
  obtain ⟨names, hnames, hcross⟩ := hlead
  rw [← Bool.not_eq_true, exists?_eq_true]
  rintro ⟨place', node', hfind'⟩
  obtain ⟨hlocate, -, -⟩ := find_eq_ok.mp hfind
  obtain ⟨hlocate', hnode', -⟩ := find_eq_ok.mp hfind'
  rw [locate, hnames] at hlocate hlocate'
  exact h.not_crosses hlocate hlocate' (by simp [hnode']) hcross

end Vacated

end Crosses

end FileTree

namespace Storage

open Text (along)

variable {s : Storage} {t u : FileTree} {place : Place} {d e : Document}
  {hash target path : String}

/-! ### Taking a file to the place of a hash -/

/-- What the path of a document leads to, from where it is taken to the place of a hash once the
directory for that is made. -/
def Takes (s : Storage) (t : FileTree) (d : Document) (hash : String) (p : Place) : Prop :=
  ∃ source target v node, s.documentPath d = .ok source ∧
    s.contentPath hash d.extension? = .ok target ∧ Text.samePath source target = false ∧
    t.performAll (ensureParent t target) = (.ok (), v) ∧ v.find source = .ok (p, node)

/-- A path leads over what is taken to the place of a hash. -/
def Robs (s : Storage) (t : FileTree) (d : Document) (hash path : String) : Prop :=
  ∃ p, s.Takes t d hash p ∧ t.LeadsOver path p

theorem Takes.unique {p q : Place} (h : s.Takes t d hash p) (h' : s.Takes t d hash q) : p = q := by
  obtain ⟨source, target, v, node, hsource, htarget, -, hmade, hfind⟩ := h
  obtain ⟨source', target', v', node', hsource', htarget', -, hmade', hfind'⟩ := h'
  rw [hsource] at hsource'
  cases hsource'
  rw [htarget] at htarget'
  cases htarget'
  rw [hmade] at hmade'
  cases hmade'
  rw [hfind] at hfind'
  cases hfind'
  rfl

theorem contentPath_eq_ok {extension : Option String}
    (h : s.contentPath hash extension = .ok target) :
    isContentHash hash = true ∧ target = along s.root (contentNames hash extension) := by
  have hhash : isContentHash hash = true := by
    by_contra hnot
    simp [contentPath, contentPath?, hnot] at h
  rw [contentPath_eq s hhash] at h
  cases h
  exact ⟨hhash, rfl⟩

/-- A file that stands at the place of a hash once the directory for it is made, stood there
before. -/
theorem exists_of_kept (h : t.Closed) (hroot : t.find s.root = .ok (place, .directory))
    (htarget : s.contentPath hash d.extension? = .ok target) {v : FileTree}
    (hmade : t.performAll (ensureParent t target) = (.ok (), v)) {q : Place} {content : ByteArray}
    (hlocate : v.locate target = .ok q) (hfile : v.lookup q = some (.file content)) :
    t.exists? target = true := by
  obtain ⟨hhash, rfl⟩ := contentPath_eq_ok htarget
  have hrooted := h.rooted hroot
  have hnames := isName_target hhash d
  have hwide := widened_of_prefix hrooted (by simp [shelfNames]) hnames List.prefix_rfl hmade
  have hq := hwide.rooted.eq_of_locate_along hnames hlocate
  subst hq
  obtain ⟨hnul, hwalk⟩ := (hwide.rooted.locate_along hnames).mp hlocate
  have hold : t.lookup (place ++ contentNames hash d.extension?) = some (.file content) := by
    rw [← FileTree.contentAt?_eq_some, ← hwide.contents]
    exact FileTree.contentAt?_eq_some.mpr hfile
  refine FileTree.exists?_eq_true.mpr ⟨_, _, hrooted.find_of_stands hnames (fun name hname => ?_)
    (by simp) hold⟩
  exact ⟨hnul name hname, FileTree.size_of_walk (fun x hx => (hnames x hx).notUp) hwalk name hname⟩

theorem carryOut_eq_ok {plan : Except StorageError (List FileEffect × String)}
    (h : carryOut t plan = (.ok target, u)) :
    ∃ effects, plan = .ok (effects, target) ∧ t.performAll effects = (.ok (), u) := by
  cases plan with
  | error fault => simp [carryOut] at h
  | ok found =>
      obtain ⟨effects, path⟩ := found
      rcases hrun : t.performAll effects with ⟨fault | ⟨⟩, v⟩
      · simp [carryOut, hrun, Except.map] at h
      · simp only [carryOut, hrun, Except.map, Prod.mk.injEq, Except.ok.injEq] at h
        obtain ⟨rfl, rfl⟩ := h
        exact ⟨effects, rfl, hrun⟩

/-- A file that is taken to the place of a hash, once the directory for it is made, is deleted if
something stands there, and is moved otherwise. -/
theorem relocate_eq_ok (h : s.relocate t d hash = (.ok target, u)) :
    ∃ source, s.documentPath d = .ok source ∧ s.contentPath hash d.extension? = .ok target ∧
      (Text.samePath source target = true ∧ u = t ∨ Text.samePath source target = false ∧
        ∃ v, t.performAll (ensureParent t target) = (.ok (), v) ∧
          v.perform (if t.exists? target then .drop source target else .move source target) =
            .ok u) := by
  obtain ⟨effects, hplan, hrun⟩ := carryOut_eq_ok h
  unfold relocation at hplan
  cases hsource : s.documentPath d with
  | error fault =>
      rw [hsource] at hplan
      cases hplan
  | ok source =>
      cases htarget : s.contentPath hash d.extension? with
      | error fault =>
          rw [hsource, htarget] at hplan
          cases hplan
      | ok target' =>
          rw [hsource, htarget] at hplan
          dsimp only [Bind.bind, Except.bind] at hplan
          split at hplan
          · next hsame =>
              cases hplan
              cases hrun
              exact ⟨source, rfl, rfl, .inl ⟨hsame, rfl⟩⟩
          · next hsame =>
              cases hplan
              obtain ⟨v, hmade, hlast⟩ := FileTree.performAll_append_ok hrun
              exact ⟨source, rfl, rfl, .inr ⟨by simpa using hsame, v, hmade,
                FileTree.performAll_singleton.mp hlast⟩⟩

/-- A file that is taken away is renamed: where nothing stands at the place of the hash, there is
no other reason why a rename fails but one that makes the copy fail as well. -/
theorem rename_of_move (h : t.Closed) (hroot : t.find s.root = .ok (place, .directory))
    (htarget : s.contentPath hash d.extension? = .ok target) (hnew : t.exists? target = false)
    {v : FileTree} (hmade : t.performAll (ensureParent t target) = (.ok (), v)) {source : String}
    (hok : v.perform (.move source target) = .ok u) : v.rename source target = .ok u := by
  rcases FileTree.perform_move_eq_ok.mp hok with hrename | ⟨⟨fault, hfault⟩, w, hcopy, hremove⟩
  · exact hrename
  exfalso
  obtain ⟨hhash, heq⟩ := contentPath_eq_ok htarget
  have hnames := isName_target hhash d
  obtain ⟨p, content, q, hfind, hlocate, hfree⟩ := FileTree.copy_inv hcopy
  have hclosed := (h.ensureParent hmade).1
  have hfile := (FileTree.find_eq_ok.mp hfind).2.1
  cases hnode : v.lookup q with
  | some node =>
      cases node with
      | directory => exact hfree hnode
      | file kept =>
          rw [exists_of_kept h hroot htarget hmade hlocate hnode] at hnew
          cases hnew
  | none =>
      -- The place of the source is no directory, so nothing can be located below it.
      have hnot : ¬ p <+: q := by
        intro hpq
        have hrooted := hclosed.rooted ((h.ensureParent hmade).2.find hroot)
        rw [heq] at hlocate
        have hparent := (FileTree.find_eq_ok.mp (hrooted.find_parent hnames (by simp) hlocate)).2.1
        have hq := hrooted.eq_of_locate_along hnames hlocate
        rw [hq, ← List.append_assoc, List.prefix_concat_iff] at hpq
        rcases hpq with hpq | hpq
        · rw [List.append_assoc, ← hq] at hpq
          rw [hpq, hnode] at hfile
          cases hfile
        · rw [hclosed.directory_above hpq hparent] at hfile
          cases hfile
      have hrename : v.rename source target = .ok (v.transplant p q) := by
        simp [FileTree.rename, hfind, hlocate, hnode, hnot, Bind.bind, Except.bind]
      rw [hrename] at hfault
      cases hfault

/-- What a call that takes the file of a document to the place of a hash does to the tree. -/
theorem relocate_cases (h : t.Closed) (hroot : t.find s.root = .ok (place, .directory))
    (hrelocate : s.relocate t d hash = (.ok target, u)) :
    (u = t ∧ ∀ p, ¬ s.Takes t d hash p) ∨ ∃ p, s.Takes t d hash p ∧ t.Vacated u p := by
  obtain ⟨source, hsource, htarget, ⟨hsame, rfl⟩ | ⟨hsame, v, hmade, hlast⟩⟩ :=
    relocate_eq_ok hrelocate
  · left
    refine ⟨rfl, ?_⟩
    rintro p ⟨source', target', v, node, hsource', htarget', hother, -⟩
    rw [hsource] at hsource'
    cases hsource'
    rw [htarget] at htarget'
    cases htarget'
    rw [hsame] at hother
    cases hother
  · right
    obtain ⟨hclosed, hkeeps⟩ := h.ensureParent hmade
    split at hlast
    · have hremove := FileTree.perform_drop_eq_ok.mp hlast
      obtain ⟨p, content, hfind, -⟩ := FileTree.remove_eq_ok.mp hremove
      exact ⟨p, ⟨source, target, v, _, hsource, htarget, hsame, hmade, hfind⟩,
        .of_keeps hkeeps (FileTree.vacated_of_remove hclosed hfind hremove)⟩
    · next hnew =>
        have hrename := rename_of_move h hroot htarget (by simpa using hnew) hmade hlast
        obtain ⟨p, node, q, hfind, -⟩ := FileTree.rename_eq_ok hrename
        exact ⟨p, ⟨source, target, v, node, hsource, htarget, hsame, hmade, hfind⟩,
          .of_keeps hkeeps (FileTree.vacated_of_rename hclosed hfind hrename)⟩

/-- To the place of the hash it has, no file of a document is taken. -/
theorem not_takes_of_hash (hhash : isContentHash hash = true) (hsame : d.hash = hash) (p : Place) :
    ¬ s.Takes t d hash p := by
  rintro ⟨source, target, v, node, hsource, htarget, hother, -⟩
  subst hsame
  rw [documentPath_kept s hhash] at hsource
  cases hsource
  obtain ⟨-, rfl⟩ := contentPath_eq_ok htarget
  simp [Text.samePath] at hother

/-- To the place of another hash, the file of a document is taken from where it is lodged. -/
theorem Lodges.takes {names : List String} {content : ByteArray}
    (hlodges : s.Lodges t place d names content) (h : t.Closed) (hne : d.hash ≠ hash)
    (hrelocate : s.relocate t d hash = (.ok target, u)) : s.Takes t d hash (place ++ names) := by
  obtain ⟨source, hsource, htarget, hends⟩ := relocate_eq_ok hrelocate
  rw [hlodges.path] at hsource
  cases hsource
  obtain ⟨hhash, heq⟩ := contentPath_eq_ok htarget
  have hother : Text.samePath (along s.root names) target = false := by
    rw [heq]
    exact Text.samePath_along hlodges.rooted.ne_empty hlodges.isName (isName_target hhash d)
      (hlodges.ne_contentNames hhash hne)
  rcases hends with ⟨hsame, -⟩ | ⟨-, v, hmade, -⟩
  · rw [hother] at hsame
    cases hsame
  · exact ⟨_, target, v, _, hlodges.path, htarget, hother, hmade,
      (h.ensureParent hmade).2.find hlodges.find⟩

/-- Two documents with plain names have one place exactly if they have one path. -/
theorem Lodges.place_eq_iff {names : List String} {content : ByteArray}
    (hlodges : s.Lodges t place d names content) (he : Text.IsStem e.id)
    (hpath : s.documentPath e = .ok path) {q : Place} {node : Node}
    (hfind : t.find path = .ok (q, node)) : q = place ++ names ↔ s.documentPath d = .ok path := by
  constructor
  · rintro rfl
    have hnode := (FileTree.find_eq_ok.mp hfind).2.1
    rw [(FileTree.find_eq_ok.mp hlodges.find).2.1] at hnode
    cases hnode
    obtain ⟨names', hlodges'⟩ :=
      Lodges.of_read hlodges.rooted he hpath (FileTree.read_eq_ok.mpr ⟨_, hfind⟩)
    have hsame := hlodges'.path
    rw [hpath] at hsame
    cases hsame
    have hplaces := hlodges'.rooted.eq_of_find_along hlodges'.isName hfind
    rw [← List.append_cancel_left hplaces]
    exact hlodges.path
  · intro hshared
    rw [hlodges.path] at hshared
    cases hshared
    rw [hlodges.find] at hfind
    cases hfind
    rfl

/-- Where names of documents are plain and the file of a document is there, what it is taken from
is the path of another exactly if both have that path, and the hash is new. -/
theorem robs_iff_shares (h : t.Closed) (hroot : t.find s.root = .ok (place, .directory))
    (hd : Text.IsStem d.id) (he : Text.IsStem e.id) {source : String} {content : ByteArray}
    (hsource : s.documentPath d = .ok source) (hread : t.read source = .ok content)
    (hrelocate : s.relocate t d hash = (.ok target, u)) (hpath : s.documentPath e = .ok path)
    (hexists : t.exists? path = true) :
    s.Robs t d hash path ↔ s.documentPath d = .ok path ∧ d.hash ≠ hash := by
  obtain ⟨names, hlodges⟩ := Lodges.of_read (h.rooted hroot) hd hsource hread
  obtain ⟨q, node, hfind⟩ := FileTree.exists?_eq_true.mp hexists
  have hfile := (FileTree.find_eq_ok.mp hlodges.find).2.1
  by_cases hsame : d.hash = hash
  · obtain ⟨-, -, htarget, -⟩ := relocate_eq_ok hrelocate
    have hnone := not_takes_of_hash (s := s) (t := t) (contentPath_eq_ok htarget).1 hsame
    constructor
    · rintro ⟨p, htakes, -⟩
      exact absurd htakes (hnone p)
    · rintro ⟨-, hne⟩
      exact absurd hsame hne
  · have htakes := hlodges.takes h hsame hrelocate
    have hrobs : s.Robs t d hash path ↔ t.LeadsOver path (place ++ names) := by
      constructor
      · rintro ⟨p, htakes', hlead⟩
        rwa [htakes'.unique htakes] at hlead
      · exact fun hlead => ⟨_, htakes, hlead⟩
    calc s.Robs t d hash path
        ↔ t.LeadsOver path (place ++ names) := hrobs
      _ ↔ q = place ++ names := FileTree.leadsOver_iff_of_file h hfile hfind
      _ ↔ s.documentPath d = .ok path := hlodges.place_eq_iff he hpath hfind
      _ ↔ s.documentPath d = .ok path ∧ d.hash ≠ hash := (and_iff_left hsame).symm

/-- A call that takes the file of a document to the place of a hash leaves to every other document
what its path leads to, unless the way there leads over what is taken; then nothing is left to it.
Among documents with plain names, that is so exactly if they share the file and the hash is new. -/
theorem relocate_spares_unless_robs (hclosed : t.Closed)
    (hroot : t.find s.root = .ok (place, .directory))
    (hrelocate : s.relocate t d hash = (.ok target, u)) (hpath : s.documentPath e = .ok path)
    (hexists : t.exists? path = true) :
    (¬ s.Robs t d hash path → u.find path = t.find path) ∧
      (s.Robs t d hash path → u.exists? path = false) ∧
      ∀ source content, Text.IsStem d.id → Text.IsStem e.id → s.documentPath d = .ok source →
        t.read source = .ok content →
          (s.Robs t d hash path ↔ s.documentPath d = .ok path ∧ d.hash ≠ hash) := by
  obtain ⟨q, node, hfind⟩ := FileTree.exists?_eq_true.mp hexists
  have hcases := relocate_cases hclosed hroot hrelocate
  refine ⟨fun hspared => ?_, ?_, fun source content hd he hsource hread =>
    robs_iff_shares hclosed hroot hd he hsource hread hrelocate hpath hexists⟩
  · rcases hcases with ⟨rfl, -⟩ | ⟨p, htakes, hvacated⟩
    · rfl
    · rw [hfind]
      exact hvacated.find (fun hlead => hspared ⟨p, htakes, hlead⟩) hfind
  · rintro ⟨p, htakes, hlead⟩
    rcases hcases with ⟨-, hnone⟩ | ⟨p', htakes', hvacated⟩
    · exact absurd htakes (hnone p)
    · rw [htakes.unique htakes'] at hlead
      exact hvacated.not_exists hlead hfind

/-! Two documents share a content, and the upload of a third waits. -/

/-- A data directory with one content and one upload. -/
def sharedTree : FileTree where
  entries := [(["data"], .directory), (["data", "documents"], .directory),
    (["data", "documents", "ab"], .directory), (["data", "documents", "ab", "cd"], .directory),
    (["data", "documents", "ab", "cd", "abcd.txt"], .file ⟨#[97, 98, 99]⟩),
    (["data", "incoming"], .directory), (["data", "incoming", "f.txt"], .file ⟨#[102]⟩)]

def textDocument (id hash : String) : Document :=
  { (default : Document) with id := id, filename := "a.txt", hash := hash }

theorem sharedTree_closed : sharedTree.Closed := by
  have hrooted : sharedTree.Rooted "/" [] := by
    refine .of_entries (by rfl) fun e he => ?_
    simp only [sharedTree, List.mem_cons, List.not_mem_nil, or_false] at he
    rcases he with rfl | rfl | rfl | rfl | rfl | rfl | rfl <;> rfl
  exact hrooted.stands

/-- The tree after one of the two documents got another hash. -/
def robbedTree : FileTree :=
  (relocate ⟨"/data"⟩ sharedTree (textDocument "d" "abcd") "abce").2

theorem relocate_sharedTree :
    relocate ⟨"/data"⟩ sharedTree (textDocument "d" "abcd") "abce" =
      (.ok "/data/documents/ab/ce/abce.txt", robbedTree) := by
  have hpath : (relocate ⟨"/data"⟩ sharedTree (textDocument "d" "abcd") "abce").1 =
      .ok "/data/documents/ab/ce/abce.txt" := by decide +kernel
  rw [robbedTree, ← hpath]

theorem read_sharedTree :
    sharedTree.read "/data/documents/ab/cd/abcd.txt" = .ok ⟨#[97, 98, 99]⟩ := by rfl

/-- The document that shares its file loses it to the other, and the upload stays. -/
theorem relocate_spares_unless_robs_sharedTree :
    robbedTree.exists? "/data/documents/ab/cd/abcd.txt" = false ∧
      robbedTree.find "/data/incoming/f.txt" = sharedTree.find "/data/incoming/f.txt" := by
  have hd : Text.IsStem (textDocument "d" "abcd").id := ⟨by decide, by decide⟩
  have hroot : sharedTree.find (⟨"/data"⟩ : Storage).root = .ok (["data"], .directory) := by rfl
  have hsource : documentPath ⟨"/data"⟩ (textDocument "d" "abcd") =
      .ok "/data/documents/ab/cd/abcd.txt" := by rfl
  have hother : documentPath ⟨"/data"⟩ (textDocument "e" "abcd") =
      .ok "/data/documents/ab/cd/abcd.txt" := by rfl
  have hwaiting : documentPath ⟨"/data"⟩ (textDocument "f" "") = .ok "/data/incoming/f.txt" := by
    rfl
  obtain ⟨-, hlost, hshares⟩ :=
    relocate_spares_unless_robs sharedTree_closed hroot relocate_sharedTree hother (by rfl)
  obtain ⟨hspared, -, hshares'⟩ :=
    relocate_spares_unless_robs sharedTree_closed hroot relocate_sharedTree hwaiting (by rfl)
  constructor
  · exact hlost ((hshares _ _ hd ⟨by decide, by decide⟩ hsource read_sharedTree).mpr
      ⟨hsource, by decide⟩)
  · refine hspared fun hrobs => ?_
    have hpath :=
      ((hshares' _ _ hd ⟨by decide, by decide⟩ hsource read_sharedTree).mp hrobs).1
    rw [hsource] at hpath
    exact absurd (Except.ok.inj hpath) (by decide)

/-- A document reads its content before another that has the same content is taken elsewhere, and
has no file afterwards. -/
theorem relocate_robs_sharedTree :
    documentPath ⟨"/data"⟩ (textDocument "e" "abcd") = .ok "/data/documents/ab/cd/abcd.txt" ∧
      sharedTree.read "/data/documents/ab/cd/abcd.txt" = .ok ⟨#[97, 98, 99]⟩ ∧
      relocate ⟨"/data"⟩ sharedTree (textDocument "d" "abcd") "abce" =
        (.ok "/data/documents/ab/ce/abce.txt", robbedTree) ∧
      robbedTree.exists? "/data/documents/ab/cd/abcd.txt" = false :=
  ⟨by rfl, read_sharedTree, relocate_sharedTree, by decide +kernel⟩

end Storage

end Docket
