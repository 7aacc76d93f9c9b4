import Docket.Proofs.Edits
import Docket.Proofs.Files
import Docket.Proofs.Names

/-!
How the file of a document comes to be named by its hash.  The tree and the store are
changed one after the other, so that a run of the step may end before the tree has
changed, between the two changes, after both, or after the tree was changed back.
-/

namespace Docket

namespace FileTree

variable {t u : FileTree} {a b : List FileEffect}

theorem performAll_append :
    t.performAll (a ++ b) = match t.performAll a with
      | (.ok (), u) => u.performAll b
      | (.error e, u) => (.error e, u) := by
  induction a generalizing t with
  | nil => rfl
  | cons effect rest ih =>
      rw [List.cons_append, performAll, performAll]
      cases t.perform effect with
      | error e => rfl
      | ok v => exact ih

/-- Effects that all happen, happen one after the other. -/
theorem performAll_append_ok {v : FileTree} (h : t.performAll (a ++ b) = (.ok (), v)) :
    ∃ u, t.performAll a = (.ok (), u) ∧ u.performAll b = (.ok (), v) := by
  rw [performAll_append] at h
  rcases hstart : t.performAll a with ⟨e | ⟨⟩, u⟩
  · rw [hstart] at h
    cases h
  · rw [hstart] at h
    exact ⟨u, rfl, h⟩

theorem performAll_singleton {effect : FileEffect} :
    t.performAll [effect] = (.ok (), u) ↔ t.perform effect = .ok u := by
  rw [performAll]
  cases t.perform effect with
  | error e => simp
  | ok v => simp [performAll]

/-- A tree after some directories were made on the way along names. -/
structure Widened (t u : FileTree) (root : String) (place : Place) (names : List String) :
    Prop where
  rooted : u.Rooted root place
  spreads : t.Spreads u place names
  contents : u.contentAt? = t.contentAt?

/-- A tree after a file went from one place to another, where it has the same content. -/
structure Moved (t u : FileTree) (root : String) (place : Place) (source target : List String)
    (content : ByteArray) : Prop where
  rooted : u.Rooted root place
  spreads : t.Spreads u place target.dropLast
  gone : u.lookup (place ++ source) = none
  arrived : u.find (Text.along root target) = .ok (place ++ target, .file content)
  contents : u.contentAt? = Function.update
    (Function.update t.contentAt? (place ++ source) none) (place ++ target) (some content)

/-- A tree after a copy of a moved file was put back. -/
structure PutBack (t u : FileTree) (root : String) (place : Place) (source target : List String)
    (content : ByteArray) : Prop where
  rooted : u.Rooted root place
  spreads : t.Spreads u place target.dropLast
  returned : u.find (Text.along root source) = .ok (place ++ source, .file content)
  contents : u.contentAt? = Function.update t.contentAt? (place ++ target) (some content)

/-- Nothing is read from where a file has gone. -/
theorem Moved.read_eq_error {root : String} {place : Place} {source target : List String}
    {content : ByteArray} (h : t.Moved u root place source target content)
    (hnames : ∀ name ∈ source, Text.IsName name) :
    ∃ fault, u.read (Text.along root source) = .error fault := by
  cases hread : u.read (Text.along root source) with
  | error fault => exact ⟨fault, rfl⟩
  | ok other =>
      obtain ⟨p, hfind⟩ := read_eq_ok.mp hread
      have hp := h.rooted.eq_of_find_along hnames hfind
      subst hp
      have hstands := (find_eq_ok.mp hfind).2.1
      rw [h.gone] at hstands
      cases hstands

end FileTree

namespace Storage

open Text (along)

variable {s : Storage} {t u : FileTree} {place : Place} {names source : List String}
  {name hash : String} {d : Document} {content : ByteArray}

/-- What it takes to have the directory of a file. -/
theorem ensureParent_along (h : t.Rooted s.root place) (hnil : names ≠ [])
    (hnames : ∀ x ∈ names ++ [name], Text.IsName x) :
    ensureParent t (along s.root (names ++ [name])) =
      if t.exists? (along s.root names) then [] else [.ensure (along s.root names)] := by
  obtain ⟨before, last, rfl⟩ : ∃ before last, names = before ++ [last] :=
    ⟨_, _, (List.dropLast_append_getLast hnil).symm⟩
  have hbefore : ∀ x ∈ before, Text.IsName x := fun x hx => hnames x (by simp [hx])
  have hname := hnames name (by simp)
  have hparent : Text.parentPath? (along s.root (before ++ [last] ++ [name])) =
      some (along s.root (before ++ [last])) := by
    rw [Text.along_append, Text.along_append]
    exact Text.parentPath?_joinPath (Text.along_ne_empty h.ne_empty hbefore)
      (hnames last (by simp)) hname.noSlash hname.notIdle
  simp only [ensureParent, hparent]

/-- Whatever of the effects that make a directory has happened, only directories were made. -/
theorem widened_of_prefix (h : t.Rooted s.root place) (hnil : names ≠ [])
    (hnames : ∀ x ∈ names ++ [name], Text.IsName x) {done : List FileEffect}
    (hdone : done <+: ensureParent t (along s.root (names ++ [name])))
    (hok : t.performAll done = (.ok (), u)) : t.Widened u s.root place names := by
  have hsame : t.Widened t s.root place names := ⟨h, .refl t place names, rfl⟩
  rw [ensureParent_along h hnil hnames] at hdone
  split at hdone
  · rw [List.prefix_nil.mp hdone] at hok
    cases hok
    exact hsame
  · rcases List.prefix_cons_iff.mp hdone with rfl | ⟨rest, rfl, hrest⟩
    · cases hok
      exact hsame
    · rw [List.prefix_nil.mp hrest] at hok
      obtain ⟨hrooted, hspread, hcontents⟩ := h.perform_ensure
        (fun x hx => hnames x (List.mem_append_left _ hx))
        (FileTree.performAll_singleton.mp hok)
      exact ⟨hrooted, hspread, hcontents⟩

theorem isName_target (hhash : isContentHash hash = true) (d : Document) :
    ∀ x ∈ shelfNames hash ++ [withExtension hash d.extension?], Text.IsName x :=
  isName_contentNames hhash fun _ he => Document.isStem_extension he

/-- A path that is no directory's by its end has a name at its end. -/
theorem isName_incoming (hroot : s.root ≠ "") (hid : Text.IsStem d.id)
    (hends : FileTree.endsAsDirectory (along s.root (incomingNames d)) = false) :
    ∀ x ∈ incomingNames d, Text.IsName x := by
  refine isName_incomingNames hid fun hnil => ?_
  have hincoming : Text.joinPath s.root "incoming" ≠ "" :=
    Text.joinPath_ne_empty hroot (by decide)
  have hjoin : along s.root (incomingNames d) =
      Text.joinPath (Text.joinPath s.root "incoming") "" := by
    rw [incomingNames, hnil]
    rfl
  rw [hjoin, FileTree.endsAsDirectory_joinPath hincoming (by decide)] at hends
  exact absurd hends (by decide)

/-- The file of a document is where it is expected, below the root and with a content. -/
structure Lodges (s : Storage) (t : FileTree) (place : Place) (d : Document)
    (names : List String) (content : ByteArray) : Prop where
  rooted : t.Rooted s.root place
  names_eq : d.hash = "" ∧ names = incomingNames d ∨
    isContentHash d.hash = true ∧ names = contentNames d.hash d.extension?
  isName : ∀ x ∈ names, Text.IsName x
  path : s.documentPath d = .ok (along s.root names)
  find : t.find (along s.root names) = .ok (place ++ names, .file content)

namespace Lodges

theorem contentAt? (h : s.Lodges t place d source content) :
    t.contentAt? (place ++ source) = some content := FileTree.contentAt?_of_find h.find

theorem nested (h : s.Lodges t place d source content) :
    ∃ before last, before ≠ [] ∧ source = before ++ [last] := by
  rcases h.names_eq with ⟨-, heq⟩ | ⟨-, heq⟩
  · exact ⟨["incoming"], _, by simp, heq⟩
  · exact ⟨shelfNames d.hash, _, by simp [shelfNames], heq⟩

/-- A document whose path leads to a content is lodged there. -/
theorem of_read (hrooted : t.Rooted s.root place) (hid : Text.IsStem d.id) {path : String}
    (hpath : s.documentPath d = .ok path) (hread : t.read path = .ok content) :
    ∃ names, s.Lodges t place d names content := by
  obtain ⟨p, hfind⟩ := FileTree.read_eq_ok.mp hread
  have hends := (FileTree.find_eq_ok.mp hfind).2.2.resolve_left (by simp)
  rcases documentPath_cases hpath with hempty | hhash
  · have hwaiting := documentPath_waiting s hempty
    have hwhole := hwaiting
    rw [hpath] at hwaiting
    cases hwaiting
    have hnames := isName_incoming hrooted.ne_empty hid hends
    have hp := hrooted.eq_of_find_along hnames hfind
    subst hp
    exact ⟨_, hrooted, .inl ⟨hempty, rfl⟩, hnames, hwhole, hfind⟩
  · have hkept := documentPath_kept s hhash
    have hwhole := hkept
    rw [hpath] at hkept
    cases hkept
    have hnames := isName_target hhash d
    have hp := hrooted.eq_of_find_along hnames hfind
    subst hp
    exact ⟨_, hrooted, .inr ⟨hhash, rfl⟩, hnames, hwhole, hfind⟩

/-- Where nothing has happened to the file and the directories around it, it is as before. -/
theorem transfer (h : s.Lodges t place d source content) (hrooted : u.Rooted s.root place)
    (hdirs : ∀ a, t.lookup (place ++ a) = some .directory →
      u.lookup (place ++ a) = some .directory)
    (hcontent : u.contentAt? (place ++ source) = some content) :
    s.Lodges u place d source content := by
  refine ⟨hrooted, h.names_eq, h.isName, h.path, ?_⟩
  obtain ⟨before, last, -, rfl⟩ := h.nested
  obtain ⟨hnul, hwalk⟩ := (h.rooted.locate_along h.isName).mp (FileTree.find_eq_ok.mp h.find).1
  have hwalk' := FileTree.walk_mono_below hdirs (fun x hx => (h.isName x hx).notUp) hwalk
  exact hrooted.find_of_lookup h.isName (by simp)
    ((hrooted.locate_along h.isName).mpr ⟨hnul, hwalk'⟩) (FileTree.contentAt?_eq_some.mp hcontent)

/-- The place of another hash is another place. -/
theorem ne_contentNames (h : s.Lodges t place d source content) (hhash : isContentHash hash = true)
    (hne : d.hash ≠ hash) : source ≠ contentNames hash d.extension? := by
  rcases h.names_eq with ⟨-, rfl⟩ | ⟨hold, rfl⟩
  · exact incomingNames_ne_contentNames d hash _
  · exact fun heq => hne (contentNames_injective hold hhash heq)

end Lodges

/-! ### The plans -/

section Plans

theorem moved_of_move (h : s.Lodges t place d source content)
    (hhash : isContentHash hash = true) (hne : d.hash ≠ hash) {v : FileTree}
    (hwide : t.Widened u s.root place (shelfNames hash))
    (hok : u.perform (.move (along s.root source)
      (along s.root (contentNames hash d.extension?))) = .ok v) :
    t.Moved v s.root place source (contentNames hash d.extension?) content := by
  have hsource := h.ne_contentNames hhash hne
  have hplaces : place ++ source ≠ place ++ contentNames hash d.extension? :=
    fun e => hsource (List.append_cancel_left e)
  have hfind := FileTree.find_of_contentAt? hwide.spreads.keeps h.find
    (by rw [hwide.contents, h.contentAt?])
  have hdir := FileTree.not_directory_of_contentAt? (FileTree.contentAt?_of_find hfind)
  obtain ⟨htarget, hrooted, hfree, hlookup⟩ :=
    hwide.rooted.perform_move h.isName (isName_target hhash d) hsource hfind hok
  have herase := FileTree.lookup_erase_eq u (FileTree.ne_nil_of_not_directory hdir)
  have hfree' : (u.erase (place ++ source)).lookup
      (place ++ contentNames hash d.extension?) ≠ some .directory := by
    rw [herase, Function.update_of_ne hplaces.symm]
    exact hfree
  have hput := hlookup
  rw [← herase] at hput
  have hspread : u.Spreads v place (shelfNames hash) :=
    .trans (.of_update hdir (by simp) herase) (.of_update hfree' (by simp) hput)
  refine ⟨hrooted, ?_, ?_, ?_, ?_⟩
  · rw [contentNames, List.dropLast_concat]
    exact hwide.spreads.trans hspread
  · rw [hlookup]
    exact (Function.update_of_ne hplaces _ _).trans (Function.update_self _ _ _)
  · refine hrooted.find_of_lookup (isName_target hhash d) (by simp)
      (FileTree.locate_mono hspread.keeps htarget) ?_
    rw [hlookup]
    exact Function.update_self _ _ _
  · rw [FileTree.contentAt?_of_lookup hput, FileTree.contentAt?_of_lookup herase,
      hwide.contents]
    rfl

theorem moved_of_drop (h : s.Lodges t place d source content)
    (hhash : isContentHash hash = true) (hne : d.hash ≠ hash) {v : FileTree}
    (hwide : t.Widened u s.root place (shelfNames hash))
    (hkept : t.read (along s.root (contentNames hash d.extension?)) = .ok content)
    (hok : u.perform (.drop (along s.root source)
      (along s.root (contentNames hash d.extension?))) = .ok v) :
    t.Moved v s.root place source (contentNames hash d.extension?) content := by
  have hsource := h.ne_contentNames hhash hne
  have hplaces : place ++ source ≠ place ++ contentNames hash d.extension? :=
    fun e => hsource (List.append_cancel_left e)
  obtain ⟨p, hkept⟩ := FileTree.read_eq_ok.mp hkept
  have hp := h.rooted.eq_of_find_along (isName_target hhash d) hkept
  subst hp
  have hcontent := FileTree.contentAt?_of_find hkept
  have hfind := FileTree.find_of_contentAt? hwide.spreads.keeps h.find
    (by rw [hwide.contents, h.contentAt?])
  have hdir := FileTree.not_directory_of_contentAt? (FileTree.contentAt?_of_find hfind)
  obtain ⟨hrooted, hlookup⟩ := hwide.rooted.perform_drop hfind hok
  have hspread : u.Spreads v place (shelfNames hash) := .of_update hdir (by simp) hlookup
  have hcontents : v.contentAt? = Function.update t.contentAt? (place ++ source) none := by
    rw [FileTree.contentAt?_of_lookup hlookup, hwide.contents]
    rfl
  have hdirs := (hwide.spreads.trans hspread).keeps
  have harrived : v.contentAt? (place ++ contentNames hash d.extension?) = some content := by
    rw [hcontents, Function.update_of_ne hplaces.symm]
    exact hcontent
  refine ⟨hrooted, ?_, ?_, FileTree.find_of_contentAt? hdirs hkept harrived, ?_⟩
  · rw [contentNames, List.dropLast_concat]
    exact hwide.spreads.trans hspread
  · rw [hlookup, Function.update_self]
  · -- The content was at its place before.
    rw [← hcontents]
    exact (Function.update_eq_self_iff.mpr harrived.symm).symm

/-- The plan that moves a file to the place of its hash. -/
theorem relocation_eq (h : s.Lodges t place d source content)
    (hhash : isContentHash hash = true) (hne : d.hash ≠ hash) :
    s.relocation t d hash =
      .ok (ensureParent t (along s.root (contentNames hash d.extension?)) ++
        [if t.exists? (along s.root (contentNames hash d.extension?))
          then .drop (along s.root source) (along s.root (contentNames hash d.extension?))
          else .move (along s.root source) (along s.root (contentNames hash d.extension?))],
        along s.root (contentNames hash d.extension?)) := by
  have hsame : Text.samePath (along s.root source)
      (along s.root (contentNames hash d.extension?)) = false :=
    Text.samePath_along h.rooted.ne_empty h.isName (isName_target hhash d)
      (h.ne_contentNames hhash hne)
  simp only [relocation, h.path, contentPath_eq s hhash d.extension?, Bind.bind, Except.bind,
    hsame, Bool.false_eq_true, if_false]
  rfl

/-- What happens of the plan before the last effect only makes directories, and the last effect
moves the file. -/
theorem relocation_spec (h : s.Lodges t place d source content)
    (hhash : isContentHash hash = true) (hne : d.hash ≠ hash)
    (hkept : ∀ path, s.contentPath hash d.extension? = .ok path → t.exists? path = true →
      t.read path = .ok content) :
    ∃ start last, s.relocation t d hash =
        .ok (start ++ [last], along s.root (contentNames hash d.extension?)) ∧
      (∀ e ∈ start, ∃ directory, e = .ensure directory) ∧
      ((∃ a b, last = .move a b) ∨ ∃ a b, last = .drop a b) ∧
      (∀ done u, done <+: start → t.performAll done = (.ok (), u) →
        t.Widened u s.root place (shelfNames hash)) ∧
      ∀ u, t.performAll (start ++ [last]) = (.ok (), u) →
        t.Moved u s.root place source (contentNames hash d.extension?) content := by
  have hwide : ∀ done u, done <+: ensureParent t (along s.root (contentNames hash d.extension?)) →
      t.performAll done = (.ok (), u) → t.Widened u s.root place (shelfNames hash) :=
    fun done u => widened_of_prefix h.rooted (by simp [shelfNames]) (isName_target hhash d)
  have hensures : ∀ e ∈ ensureParent t (along s.root (contentNames hash d.extension?)),
      ∃ directory, e = .ensure directory := by
    rw [contentNames, ensureParent_along h.rooted (by simp [shelfNames]) (isName_target hhash d)]
    intro e he
    split at he
    · cases he
    · exact ⟨_, List.mem_singleton.mp he⟩
  refine ⟨_, _, relocation_eq h hhash hne, hensures, ?_, hwide, ?_⟩
  · split
    · exact .inr ⟨_, _, rfl⟩
    · exact .inl ⟨_, _, rfl⟩
  · intro v hok
    obtain ⟨u, hstart, hlast⟩ := FileTree.performAll_append_ok hok
    have hwidened := hwide _ u (List.prefix_refl _) hstart
    rw [FileTree.performAll_singleton] at hlast
    split at hlast
    · next hexists =>
        have hread := hkept _ (contentPath_eq s hhash d.extension?) hexists
        exact moved_of_drop h hhash hne hwidened hread hlast
    · exact moved_of_move h hhash hne hwidened hlast

/-- The plan that puts a moved file back is one copy, and the copy succeeds. -/
theorem restoration_spec (h : s.Lodges t place d source content)
    (hhash : isContentHash hash = true) (hne : d.hash ≠ hash)
    (hmoved : t.Moved u s.root place source (contentNames hash d.extension?) content) :
    ∃ v, s.restoration u d hash = .ok ([.copy (along s.root (contentNames hash d.extension?))
        (along s.root source)], along s.root source) ∧
      u.perform (.copy (along s.root (contentNames hash d.extension?)) (along s.root source)) =
        .ok v ∧
      t.PutBack v s.root place source (contentNames hash d.extension?) content := by
  obtain ⟨before, last, hbefore, rfl⟩ := h.nested
  have hsource := h.ne_contentNames hhash hne
  have hplaces : place ++ (before ++ [last]) ≠ place ++ contentNames hash d.extension? :=
    fun e => hsource (List.append_cancel_left e)
  have hsame : Text.samePath (along s.root (contentNames hash d.extension?))
      (along s.root (before ++ [last])) = false :=
    Text.samePath_along h.rooted.ne_empty (isName_target hhash d) h.isName hsource.symm
  have hlocate := FileTree.locate_mono hmoved.spreads.keeps (FileTree.find_eq_ok.mp h.find).1
  have habsent : u.exists? (along s.root (before ++ [last])) = false := by
    rw [Bool.eq_false_iff]
    intro hexists
    obtain ⟨p, node, hfind⟩ := FileTree.exists?_eq_true.mp hexists
    have hp := hmoved.rooted.eq_of_find_along h.isName hfind
    subst hp
    have hstands := (FileTree.find_eq_ok.mp hfind).2.1
    rw [hmoved.gone] at hstands
    cases hstands
  have hparent : u.exists? (along s.root before) = true :=
    FileTree.exists?_eq_true.mpr ⟨_, _, hmoved.rooted.find_parent h.isName (by simp) hlocate⟩
  have hfree : u.lookup (place ++ (before ++ [last])) ≠ some .directory := by
    simp [hmoved.gone]
  have hends := Text.endsAsDirectory_along h.rooted.ne_empty h.isName (by simp)
  have hcopy := (FileTree.copy_eq_ok hmoved.arrived hlocate hplaces.symm).mpr
    ⟨hends, hfree, rfl⟩
  have hlookup := FileTree.lookup_copy content hfree
  have hspread : u.Spreads _ place (contentNames hash d.extension?).dropLast :=
    .of_update hfree (by simp) hlookup
  have hrooted := hmoved.rooted.of_insert
    (FileTree.find_eq_ok.mp (hmoved.rooted.find_parent h.isName (by simp) hlocate)).2.1
    hfree hlookup
  refine ⟨_, ?_, ?_, hrooted, hmoved.spreads.trans hspread, ?_, ?_⟩
  · simp only [restoration, h.path, contentPath_eq s hhash, Bind.bind, Except.bind, hsame,
      habsent, Bool.or_self, Bool.false_eq_true, if_false,
      ensureParent_along hmoved.rooted hbefore h.isName, hparent, if_true]
    rfl
  · rw [FileTree.perform, hcopy]
    rfl
  · refine hrooted.find_of_lookup h.isName (by simp)
      (FileTree.locate_mono hspread.keeps hlocate) ?_
    rw [hlookup]
    exact Function.update_self _ _ _
  · rw [FileTree.contentAt?_of_lookup hlookup, hmoved.contents, Function.update_comm hplaces.symm,
      Function.update_idem]
    refine congrArg (Function.update · _ _) ?_
    exact Function.update_eq_self_iff.mpr h.contentAt?.symm

end Plans

end Storage

/-! ### A run of the step -/

/-- A world whose files have changed while some moments passed. -/
def World.advanced (w : World) (files : FileTree) (since : List Moment) : World :=
  { w with files := files, moments := since ++ w.moments }

namespace Act

variable {s : Surroundings}

/-- Of effects in a row some happen, and then either all have happened, or the process stops, or
the next one fails. -/
theorem effects_cases (s : Surroundings) (effects : List FileEffect) (w : World) :
    ∃ done rest u, effects = done ++ rest ∧ w.files.performAll done = (.ok (), u) ∧
      (rest = [] ∧ effects.forM effect s w =
          (.ok (), w.advanced u (done.map .effect).reverse) ∨
        rest ≠ [] ∧ (∃ past, s.stops past = true) ∧ effects.forM effect s w =
          (.error .stop, w.advanced u (done.map .effect).reverse) ∨
        ∃ e after err, rest = e :: after ∧ u.perform e = .error err ∧ effects.forM effect s w =
          (.error (.error (.storage err)),
            w.advanced u (.effect e :: (done.map .effect).reverse))) := by
  induction effects generalizing w with
  | nil => exact ⟨[], [], w.files, rfl, rfl, .inl ⟨rfl, rfl⟩⟩
  | cons e rest ih =>
      have hforM : (e :: rest).forM effect = (effect e >>= fun _ => rest.forM effect) := rfl
      rw [hforM]
      cases hstop : s.stops w.moments with
      | true =>
          have he : effect e s w = (.error .stop, w) := by simp [effect, hstop]
          exact ⟨[], e :: rest, w.files, rfl, rfl,
            .inr (.inl ⟨by simp, ⟨_, hstop⟩, bind_of_error he⟩)⟩
      | false =>
          cases hperform : w.files.perform e with
          | error err =>
              have he : effect e s w = (.error (.error (.storage err)),
                  w.advanced w.files [.effect e]) := by
                simp [effect, hstop, hperform, World.advanced]
              exact ⟨[], e :: rest, w.files, rfl, rfl,
                .inr (.inr ⟨e, rest, err, rfl, hperform, bind_of_error he⟩)⟩
          | ok v =>
              have he : effect e s w = (.ok (), w.advanced v [.effect e]) := by
                simp [effect, hstop, hperform, World.advanced]
              have hnext : ∀ (u : FileTree) (since : List Moment),
                  (w.advanced v [.effect e]).advanced u since =
                    w.advanced u (since ++ [.effect e]) := by
                intro u since
                simp [World.advanced]
              obtain ⟨done, left, u, rfl, hdone, hends⟩ := ih (w.advanced v [.effect e])
              refine ⟨e :: done, left, u, rfl, ?_, ?_⟩
              · rw [FileTree.performAll, hperform]
                exact hdone
              · rw [bind_of_ok he]
                simpa only [hnext, List.map_cons, List.reverse_cons, List.cons_append]
                  using hends

/-- Of a plan some effects happen, and then either all have happened, or the process stops, or
the next one fails. -/
theorem carryOut_cases (s : Surroundings)
    (plan : FileTree → Except StorageError (List FileEffect × String)) {w : World}
    {effects : List FileEffect} {path : String}
    (hplan : plan w.files = .ok (effects, path)) :
    ∃ done rest u, effects = done ++ rest ∧ w.files.performAll done = (.ok (), u) ∧
      (rest = [] ∧ carryOut plan s w =
          (.ok path, w.advanced u (done.map .effect).reverse) ∨
        rest ≠ [] ∧ (∃ past, s.stops past = true) ∧ carryOut plan s w =
          (.error .stop, w.advanced u (done.map .effect).reverse) ∨
        ∃ e after err, rest = e :: after ∧ u.perform e = .error err ∧ carryOut plan s w =
          (.error (.error (.storage err)),
            w.advanced u (.effect e :: (done.map .effect).reverse))) := by
  have hcarry : carryOut plan s w =
      (effects.forM effect >>= fun _ => (pure path : Act World String)) s w := by
    have hstate : (state : Act World World) s w = (.ok w, w) := rfl
    have hread : ofExcept .storage (plan w.files) s w = (.ok (effects, path), w) := by
      rw [hplan]
      rfl
    rw [carryOut, bind_of_ok hstate, bind_of_ok hread]
  obtain ⟨done, rest, u, heffects, hdone, hends⟩ := effects_cases s effects w
  refine ⟨done, rest, u, heffects, hdone, ?_⟩
  rw [hcarry]
  rcases hends with ⟨hrest, hrun⟩ | ⟨hrest, hstop, hrun⟩ | ⟨e, after, err, hrest, herr, hrun⟩
  · exact .inl ⟨hrest, bind_of_ok hrun⟩
  · exact .inr (.inl ⟨hrest, hstop, bind_of_error hrun⟩)
  · exact .inr (.inr ⟨e, after, err, hrest, herr, bind_of_error hrun⟩)

theorem onWorld_eq {α : Type} {x : Act World α} {desk : Desk}
    {r : Except (Interruption PipelineError) α} {w : World} (hx : x s desk.world = (r, w)) :
    onWorld x s desk = (r, { desk with world := w }) := by
  simp only [onWorld, within, hx]

end Act

/-- What the place of a file hangs on: once the file has been moved, or the call that is to
store where it went has not been heeded, the row leads nowhere. -/
def Moment.Unmoors : Moment → Prop
  | .effect (.move _ _) | .effect (.drop _ _) | .call (.updateDocument _) => True
  | _ => False

/-- Others leave the documents alone. -/
def Surroundings.Respects (s : Surroundings) : Prop :=
  ∀ past st, (s.others past st).documents = st.documents

namespace Handler

variable {s : Surroundings} {d : Document}

/-- A stored document is stored again, or it is left as it is, by a process that stops before or a
store that refuses. -/
theorem store_cases (hrespects : s.Respects) {desk : Desk}
    (hdoc : desk.world.store.hasDocument d.id = true) :
    (∃ past, s.stops past = true) ∧ store d s desk = (.error .stop, desk) ∨
    (∃ e, store d s desk = (.error (.error e), desk.next s (.call (.updateDocument d))) ∧
      (desk.next s (.call (.updateDocument d))).world.store.documents =
        desk.world.store.documents) ∨
    store d s desk = (.ok (), desk.next s (.call (.updateDocument d))) ∧
      ∃ now, (desk.next s (.call (.updateDocument d))).world.store.documents =
        (desk.world.store.updateDocument d now).2.documents := by
  cases hstop : s.stops desk.world.moments with
  | true => exact .inl ⟨⟨_, hstop⟩, Act.onWorld_eq (Act.tell_of_stop _ hstop)⟩
  | false =>
      right
      have hrun : store d s desk = (s.verdict desk.world.moments desk.world.store
          (.updateDocument d), desk.next s (.call (.updateDocument d))) :=
        Act.onWorld_eq (Act.tell_of_go _ hstop)
      have hothers := hrespects desk.world.moments desk.world.store
      cases hrefuses : s.refuses desk.world.moments (.updateDocument d) with
      | some e =>
          refine .inl ⟨.store e, ?_, ?_⟩
          · rw [hrun, Surroundings.verdict, hrefuses]
          · rw [Desk.next_store, Surroundings.after, hrefuses, Option.isSome_some, if_pos rfl,
              hothers]
      | none =>
          have hperform : (StoreCall.updateDocument d).perform (s.clock desk.world.moments)
              (s.others desk.world.moments desk.world.store) =
                .ok ((s.others desk.world.moments desk.world.store).updateDocument d
                  (s.clock desk.world.moments)).2 := by
            apply orNoDocument_changeDocument
            rw [Store.hasDocument, hothers]
            exact hdoc
          refine .inr ⟨?_, s.clock desk.world.moments, ?_⟩
          · rw [hrun, Surroundings.verdict, hrefuses, hperform]
          · rw [Desk.next_store, Surroundings.after_of_heeded hrefuses hperform,
              Store.updateDocument, Store.changeDocument, hothers]
            rfl

/-- How the hash step of a document can end, after some moments: with which answer, and with which
files and rows. -/
inductive HashEnds (s : Surroundings) (w : World) (place : Place) (d : Document)
    (source : List String) (content : ByteArray) (since : List Moment) :
    Except (Interruption PipelineError) Unit → Desk → Prop
  /-- The row has the hash of the content. -/
  | same (hsame : d.hash = Sha256.hexDigest content) :
      HashEnds s w place d source content since (.ok ()) ⟨w, d⟩
  /-- The file was not moved. -/
  | still {i : Interruption PipelineError} {w' : World}
      (hwide : w.files.Widened w'.files s.storage.root place
        (Storage.shelfNames (Sha256.hexDigest content)))
      (hdocs : w'.store.documents = w.store.documents)
      (hlast : ∀ m, since.head? = some m → m.Unmoors → i ≠ .stop) :
      HashEnds s w place d source content since (.error i) ⟨w', d⟩
  /-- The process has stopped after the file was moved and before this was stored. -/
  | cut {w' : World} (hstop : ∃ past, s.stops past = true)
      (hmoved : w.files.Moved w'.files s.storage.root place source
        (Storage.contentNames (Sha256.hexDigest content) d.extension?) content)
      (hdocs : w'.store.documents = w.store.documents)
      (hlast : ∃ m, since.head? = some m ∧ m.Unmoors) :
      HashEnds s w place d source content since (.error .stop) ⟨w', d⟩
  /-- The file was moved, and this was stored. -/
  | stored {w' : World} {moved : Document}
      (hmoved : w.files.Moved w'.files s.storage.root place source
        (Storage.contentNames (Sha256.hexDigest content) d.extension?) content)
      (hcopy : moved.hash = Sha256.hexDigest content ∧ moved.id = d.id ∧
        moved.filename = d.filename)
      (hdocs : ∃ now, w'.store.documents = (w.store.updateDocument moved now).2.documents) :
      HashEnds s w place d source content since (.ok ()) ⟨w', moved⟩
  /-- The file was moved, which could not be stored, and was put back. -/
  | restored {e : PipelineError} {w' : World}
      (hback : w.files.PutBack w'.files s.storage.root place source
        (Storage.contentNames (Sha256.hexDigest content) d.extension?) content)
      (hdocs : w'.store.documents = w.store.documents) :
      HashEnds s w place d source content since (.error (.error e)) ⟨w', d⟩

variable {w : World} {place : Place} {source : List String} {content : ByteArray}

/-- However the step ends, the data directory stands. -/
theorem HashEnds.rooted {since : List Moment} {result : Except (Interruption PipelineError) Unit}
    {desk : Desk} (h : HashEnds s w place d source content since result desk)
    (hrooted : w.files.Rooted s.storage.root place) :
    desk.world.files.Rooted s.storage.root place := by
  cases h with
  | same => exact hrooted
  | still hwide => exact hwide.rooted
  | cut hstop hmoved => exact hmoved.rooted
  | stored hmoved => exact hmoved.rooted
  | restored hback => exact hback.rooted

/-- What the step does once the file has been moved: it stores where the file is, or puts it
back. -/
def record (storage : Storage) (d : Document) (hash target : String) : Handler := do
  let moved := rehashed d hash (← Act.state).world.files target
  match ← (store moved).attempt with
  | .ok () => Act.setCopy moved
  | .error e =>
    let _ ← (Act.onWorld (Act.carryOut fun t => storage.restoration t d hash)).attempt
    Act.fail e

section Run

variable (hpath : s.storage.Lodges w.files place d source content)

include hpath

theorem hash_eq : hash s ⟨w, d⟩ =
    if Sha256.hexDigest content = d.hash then (.ok (), ⟨w, d⟩)
    else (Act.onWorld
      (Act.carryOut fun t => s.storage.relocation t d (Sha256.hexDigest content)) >>=
        record s.storage d (Sha256.hexDigest content)) s ⟨w, d⟩ := by
  have hread : w.files.hashFile (Text.along s.storage.root source) =
      .ok (Sha256.hexDigest content) := by
    rw [FileTree.hashFile, FileTree.read_eq_ok.mpr ⟨_, hpath.find⟩]
  refine (Act.bind_of_ok (a := s) rfl).trans ?_
  refine (Act.bind_of_ok (a := d) rfl).trans ?_
  refine (Act.bind_of_ok (by rw [hpath.path]; rfl)).trans ?_
  refine (Act.bind_of_ok (a := (⟨w, d⟩ : Desk)) rfl).trans ?_
  refine (Act.bind_of_ok (by rw [hread]; rfl)).trans ?_
  split <;> rfl

/-- A file that is to be put back is put back, unless the process stops. -/
theorem putBack_cases (hnew : d.hash ≠ Sha256.hexDigest content) {u : FileTree}
    (hmoved : w.files.Moved u s.storage.root place source
      (Storage.contentNames (Sha256.hexDigest content) d.extension?) content)
    {desk : Desk} (hfiles : desk.world.files = u) :
    (∃ path back v, w.files.PutBack v s.storage.root place source
        (Storage.contentNames (Sha256.hexDigest content) d.extension?) content ∧
      Act.onWorld (Act.carryOut fun t => s.storage.restoration t d (Sha256.hexDigest content))
        s desk = (.ok path, { desk with world := desk.world.advanced v [.effect back] })) ∨
    (∃ past, s.stops past = true) ∧
      Act.onWorld (Act.carryOut fun t => s.storage.restoration t d (Sha256.hexDigest content))
        s desk = (.error .stop, desk) := by
  obtain ⟨v, hplan, hperform, hback⟩ :=
    Storage.restoration_spec hpath (isContentHash_hexDigest content) hnew hmoved
  generalize FileEffect.copy (Text.along s.storage.root
    (Storage.contentNames (Sha256.hexDigest content) d.extension?))
    (Text.along s.storage.root source) = back at hplan hperform
  rw [← hfiles] at hplan
  obtain ⟨done, rest, v', heffects, hdone, hends⟩ := Act.carryOut_cases s
    (fun t => s.storage.restoration t d (Sha256.hexDigest content)) hplan
  rw [hfiles] at hdone
  have hnone : rest ≠ [] → done = [] ∧ rest = [back] := by
    intro hrest
    rcases List.append_eq_singleton_iff.mp heffects.symm with h | h
    · exact h
    · exact absurd h.2 hrest
  rcases hends with ⟨rfl, hrun⟩ | ⟨hrest, hstop, hrun⟩ | ⟨e, after, err, hrest, herr, -⟩
  · rw [List.append_nil] at heffects
    subst heffects
    have hv := FileTree.performAll_singleton.mp hdone
    rw [hperform] at hv
    cases hv
    exact .inl ⟨_, back, v, hback, Act.onWorld_eq hrun⟩
  · obtain ⟨rfl, -⟩ := hnone hrest
    cases hdone
    refine .inr ⟨hstop, (Act.onWorld_eq hrun).trans ?_⟩
    rw [← hfiles]
    rfl
  · exfalso
    obtain ⟨rfl, hback'⟩ := hnone (by simp [hrest])
    cases hdone
    rw [hrest] at hback'
    cases hback'
    rw [hperform] at herr
    cases herr

/-- Once the file has been moved, this is stored, or the file goes back; only the end of the
process comes between. -/
theorem record_ends (hrespects : s.Respects) (hdoc : w.store.hasDocument d.id = true)
    (hnew : d.hash ≠ Sha256.hexDigest content) {u : FileTree}
    (hmoved : w.files.Moved u s.storage.root place source
      (Storage.contentNames (Sha256.hexDigest content) d.extension?) content)
    {since : List Moment} (hlast : ∃ m, since.head? = some m ∧ m.Unmoors) {target : String} :
    ∃ later, (record s.storage d (Sha256.hexDigest content) target s
        ⟨w.advanced u since, d⟩).2.world.moments = later ++ w.moments ∧
      HashEnds s w place d source content later
        (record s.storage d (Sha256.hexDigest content) target s ⟨w.advanced u since, d⟩).1
        (record s.storage d (Sha256.hexDigest content) target s ⟨w.advanced u since, d⟩).2 := by
  have hhash := isContentHash_hexDigest content
  generalize hdesk : (⟨w.advanced u since, d⟩ : Desk) = desk
  generalize hdocument : rehashed d (Sha256.hexDigest content) u target = moved
  have hcopy : moved.hash = Sha256.hexDigest content ∧ moved.id = d.id ∧
      moved.filename = d.filename := by
    subst hdocument
    exact ⟨rfl, rfl, rfl⟩
  have hfiles : desk.world.files = u := by rw [← hdesk]; rfl
  have hdocs : desk.world.store.documents = w.store.documents := by rw [← hdesk]; rfl
  have hmoments : desk.world.moments = since ++ w.moments := by rw [← hdesk]; rfl
  have hdeskCopy : desk.copy = d := by rw [← hdesk]
  have hhas : desk.world.store.hasDocument moved.id = true := by
    rw [hcopy.2.1, Store.hasDocument, hdocs]
    exact hdoc
  have hstate : (Act.state : Act Desk Desk) s desk = (.ok desk, desk) := rfl
  rw [record, Act.bind_of_ok hstate, hfiles, hdocument]
  rcases store_cases hrespects hhas with ⟨hstop, hrun⟩ | ⟨e, hrun, hsame⟩ | ⟨hrun, now, hupdate⟩
  · have hattempt : (store moved).attempt s desk = (.error .stop, desk) := by
      simp only [Act.attempt, hrun]
    rw [Act.bind_of_error hattempt]
    refine ⟨since, hmoments, ?_⟩
    rw [show desk = ⟨desk.world, d⟩ by rw [← hdeskCopy]]
    exact .cut hstop (by rwa [hfiles]) hdocs hlast
  · rw [Act.bind_of_ok (Act.attempt_of_fail hrun)]
    dsimp only
    have hnext : (desk.next s (.call (.updateDocument moved))).world.files = u := hfiles
    have hnow : (desk.next s (.call (.updateDocument moved))).world.moments =
        [.call (.updateDocument moved)] ++ since ++ w.moments := by
      rw [Desk.next_moments, hmoments]
      rfl
    have hcopied : (desk.next s (.call (.updateDocument moved))).copy = d := hdeskCopy
    rw [hdocs] at hsame
    rcases putBack_cases hpath hnew hmoved hnext with ⟨path, back, v, hback, hrun'⟩ | ⟨hstop, hrun'⟩
    · rw [Act.bind_of_ok (Act.attempt_of_ok hrun'), hcopied]
      refine ⟨[.effect back] ++ ([.call (.updateDocument moved)] ++ since), ?_, ?_⟩
      · exact congrArg (List.cons _) hnow
      · exact .restored hback hsame
    · have hattempt := Act.attempt_of_stop hrun'
      rw [Act.bind_of_error hattempt, show desk.next s (.call (.updateDocument moved)) =
        ⟨(desk.next s (.call (.updateDocument moved))).world, d⟩ by rw [← hcopied]]
      refine ⟨[.call (.updateDocument moved)] ++ since, hnow, ?_⟩
      exact .cut hstop (by rwa [hnext]) hsame ⟨_, rfl, trivial⟩
  · rw [Act.bind_of_ok (Act.attempt_of_ok hrun)]
    refine ⟨.call (.updateDocument moved) :: since, ?_, ?_⟩
    · change _ :: desk.world.moments = _
      rw [hmoments, List.cons_append]
    · change HashEnds s w place d source content _ _
        ⟨(desk.next s (.call (.updateDocument moved))).world, moved⟩
      refine .stored ?_ hcopy ⟨now, ?_⟩
      · rwa [show (desk.next s (.call (.updateDocument moved))).world.files = u from hfiles]
      · rw [hupdate, Store.updateDocument, Store.changeDocument, hdocs]
        rfl

/-- The hash step of a document that is where its row leads ends in one of five ways. -/
theorem hash_ends (hrespects : s.Respects) (hdoc : w.store.hasDocument d.id = true)
    (hkept : ∀ path, s.storage.contentPath (Sha256.hexDigest content) d.extension? = .ok path →
      w.files.exists? path = true → w.files.read path = .ok content) :
    ∃ since, (hash s ⟨w, d⟩).2.world.moments = since ++ w.moments ∧
      HashEnds s w place d source content since (hash s ⟨w, d⟩).1 (hash s ⟨w, d⟩).2 := by
  have hhash := isContentHash_hexDigest content
  rw [hash_eq hpath]
  by_cases hnew : d.hash = Sha256.hexDigest content
  · rw [if_pos hnew.symm]
    exact ⟨[], rfl, .same hnew⟩
  rw [if_neg (Ne.symm hnew)]
  obtain ⟨start, last, hplan, hensures, hmoves, hwide, hmoved⟩ :=
    Storage.relocation_spec hpath hhash hnew hkept
  obtain ⟨done, rest, u, heffects, hdone, hends⟩ := Act.carryOut_cases s
    (fun t => s.storage.relocation t d (Sha256.hexDigest content)) hplan
  -- As long as an effect is left, no more than directories were made.
  have hbefore : rest ≠ [] → done <+: start := by
    intro hrest
    rcases List.prefix_concat_iff.mp ⟨rest, heffects.symm⟩ with hall | hinit
    · rw [hall] at heffects
      exact absurd (List.append_right_eq_self.mp heffects.symm) hrest
    · exact hinit
  rcases hends with ⟨hrest, hrun⟩ | ⟨hrest, -, hrun⟩ | ⟨e, after, err, hrest, -, hrun⟩
  · subst hrest
    rw [List.append_nil] at heffects
    rw [Act.bind_of_ok (Act.onWorld_eq hrun)]
    subst heffects
    refine record_ends hpath hrespects hdoc hnew (hmoved u hdone) ⟨.effect last, by simp, ?_⟩
    rcases hmoves with ⟨a, b, rfl⟩ | ⟨a, b, rfl⟩ <;> trivial
  · rw [Act.bind_of_error (Act.onWorld_eq hrun)]
    have hinit := hbefore hrest
    refine ⟨(done.map .effect).reverse, rfl, .still (hwide done u hinit hdone) rfl ?_⟩
    intro m hm hunmoors
    exfalso
    have hmem : m ∈ done.map Moment.effect :=
      List.mem_reverse.mp (List.mem_of_mem_head? hm)
    obtain ⟨e, he, rfl⟩ := List.mem_map.mp hmem
    obtain ⟨directory, rfl⟩ := hensures e (hinit.subset he)
    exact hunmoors
  · rw [Act.bind_of_error (Act.onWorld_eq hrun)]
    refine ⟨_, rfl, .still (hwide done u (hbefore (by simp [hrest])) hdone) rfl ?_⟩
    intro m hm hunmoors
    simp

/-- Where nothing is refused, the step succeeds if its file operations do. -/
theorem hash_of_quiet (hquiet : s.Quiet) (hdoc : w.store.hasDocument d.id = true)
    (hfiles : ∀ effects path, s.storage.relocation w.files d (Sha256.hexDigest content) =
      .ok (effects, path) → (w.files.performAll effects).1 = .ok ()) :
    (hash s ⟨w, d⟩).1 = .ok () := by
  rw [hash_eq hpath]
  by_cases hnew : d.hash = Sha256.hexDigest content
  · rw [if_pos hnew.symm]
  rw [if_neg (Ne.symm hnew)]
  have hplan := Storage.relocation_eq hpath (isContentHash_hexDigest content) hnew
  have hall := hfiles _ _ hplan
  obtain ⟨done, rest, u, heffects, hdone, hends⟩ := Act.carryOut_cases s
    (fun t => s.storage.relocation t d (Sha256.hexDigest content)) hplan
  rcases hends with ⟨-, hrun⟩ | ⟨-, ⟨past, hstop⟩, -⟩ | ⟨e, after, err, rfl, hfails, -⟩
  · rw [Act.bind_of_ok (Act.onWorld_eq hrun)]
    generalize hdesk : (⟨w.advanced u (done.map .effect).reverse, d⟩ : Desk) = desk
    have hstate : (Act.state : Act Desk Desk) s desk = (.ok desk, desk) := rfl
    rw [record, Act.bind_of_ok hstate]
    have hstored := (store_of_quiet hquiet desk (d := rehashed d (Sha256.hexDigest content)
      desk.world.files (Text.along s.storage.root
        (Storage.contentNames (Sha256.hexDigest content) d.extension?)))
      (by rw [← hdesk]; exact hdoc)).1
    rw [Act.bind_of_ok (Act.attempt_of_ok hstored)]
    rfl
  · rw [hquiet.goes past] at hstop
    cases hstop
  · rw [heffects, FileTree.performAll_append, hdone] at hall
    simp [FileTree.performAll, hfails] at hall

end Run

end Handler


end Docket
