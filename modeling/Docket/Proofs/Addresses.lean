import Docket.Proofs.Files
import Docket.Proofs.Names

/-!
Where contents are kept.  The path of a document leads from the root over the shelf of its hash to
one name that starts with the hash, whatever the name of the uploaded file was, and no two contents
share a path unless they have the same hash and the same extension.
-/

namespace Docket

/-! ### Texts that spell a hash -/

/-- The digits that a hash is spelled with. -/
def hexDigits : List Char := "0123456789abcdefABCDEF".toList

/-- At least four digits, and nothing else. -/
def SpellsHash (hash : String) : Prop :=
  4 ≤ hash.toList.length ∧ ∀ c ∈ hash.toList, c ∈ hexDigits

theorem mem_hexDigits_iff {c : Char} :
    c ∈ hexDigits ↔ (c.isDigit || ('a' ≤ c && c ≤ 'f') || ('A' ≤ c && c ≤ 'F')) = true := by
  constructor
  · have hall : (hexDigits.all fun c =>
        c.isDigit || ('a' ≤ c && c ≤ 'f') || ('A' ≤ c && c ≤ 'F')) = true := by decide
    exact List.all_eq_true.mp hall c
  · intro h
    have hall : ∀ n < 128, ((Char.ofNat n).isDigit || ('a' ≤ Char.ofNat n && Char.ofNat n ≤ 'f') ||
        ('A' ≤ Char.ofNat n && Char.ofNat n ≤ 'F')) = true → Char.ofNat n ∈ hexDigits := by
      decide
    have hlt : c.toNat < 128 := by
      simp only [Char.isDigit, Bool.or_eq_true, Bool.and_eq_true, decide_eq_true_eq,
        Char.le_def, UInt32.le_iff_toNat_le, ge_iff_le] at h
      have h9 : '9'.val.toNat = 57 := rfl
      have hf : 'f'.val.toNat = 102 := rfl
      have hF : 'F'.val.toNat = 70 := rfl
      change c.val.toNat < 128
      omega
    have hc := hall c.toNat hlt
    rw [Char.ofNat_toNat] at hc
    exact hc h

theorem isContentHash_eq_true_iff {hash : String} :
    isContentHash hash = true ↔ SpellsHash hash := by
  simp only [isContentHash_iff, SpellsHash, mem_hexDigits_iff]

/-! ### Names that tell the hash and the extension -/

/-- A name tells the stem that it was made with and the extension, where an empty extension and none
come to the same. -/
theorem withExtension_eq_iff {stem stem' : String} {ext ext' : Option String}
    (hstem : '.' ∉ stem.toList) (hstem' : '.' ∉ stem'.toList) :
    withExtension stem ext = withExtension stem' ext' ↔
      stem = stem' ∧ ext.getD "" = ext'.getD "" := by
  have hwith : ∀ ext : Option String, (withExtension stem ext).toList =
      stem.toList ++ if ext.getD "" = "" then [] else '.' :: (ext.getD "").toList := by
    intro ext
    rcases ext with _ | ext
    · simp [withExtension]
    · by_cases hempty : ext = ""
      · simp [withExtension, hempty]
      · simp [withExtension, hempty]
  constructor
  · intro h
    obtain rfl := withExtension_stem_injective hstem hstem' h
    refine ⟨rfl, ?_⟩
    have hlist := congrArg String.toList h
    rw [hwith ext, hwith ext', List.append_cancel_left_eq] at hlist
    by_cases hempty : ext.getD "" = "" <;> by_cases hempty' : ext'.getD "" = ""
    · rw [hempty, hempty']
    · simp [hempty, hempty'] at hlist
    · simp [hempty, hempty'] at hlist
    · exact String.toList_inj.mp (by simpa [hempty, hempty'] using hlist)
  · rintro ⟨rfl, h⟩
    apply String.toList_inj.mp
    rw [hwith ext, hwith ext', h]

namespace Text

variable {directory name : String} {names : List String}

theorem isAbsolute_joinPath (hname : '/' ∉ name.toList) :
    isAbsolute (joinPath directory name) = isAbsolute directory := by
  by_cases hdir : directory = ""
  · have hhead : name.toList.head? ≠ some '/' := fun h => hname (List.mem_of_head? h)
    simp [hdir, joinPath, isAbsolute, hhead]
  · obtain ⟨base, hjoin, hbase | hbase⟩ := exists_joinPath hdir hname
    · obtain ⟨c, rest, hcons⟩ := List.exists_cons_of_ne_nil
        (show directory.toList ≠ [] by simpa using hdir)
      simp [isAbsolute, hjoin, ← hbase, hcons]
    · simp [isAbsolute, hjoin, hbase, List.head?_append]

theorem along_cons (directory name : String) (names : List String) :
    along directory (name :: names) = along (joinPath directory name) names := rfl

theorem isAbsolute_along (hnames : ∀ name ∈ names, '/' ∉ name.toList) :
    isAbsolute (along directory names) = isAbsolute directory := by
  induction names generalizing directory with
  | nil => rfl
  | cons name rest ih =>
      rw [along_cons, ih fun other h => hnames other (List.mem_cons_of_mem name h),
        isAbsolute_joinPath (hnames name List.mem_cons_self)]

/-- Names that are joined to a directory are the last components of the path, also where the
directory is not named at all. -/
theorem pathComponents_along_names (hnames : ∀ name ∈ names, IsName name) (hne : names ≠ []) :
    (pathComponents (along directory names).toList).map String.ofList =
      (pathComponents directory.toList).map String.ofList ++ names := by
  by_cases hdir : directory = ""
  · obtain ⟨name, rest, rfl⟩ := List.exists_cons_of_ne_nil hne
    obtain ⟨hname, hrest⟩ := List.forall_mem_cons.mp hnames
    have hfirst : name ≠ "" := by
      rintro rfl
      exact absurd hname.notIdle (by decide)
    have hjoin : joinPath "" name = name := by simp [joinPath]
    rw [hdir, along_cons, hjoin, pathComponents_along hfirst hrest, hname.pathComponents_eq]
    simp
  · exact pathComponents_along hdir hnames

variable {others : List String}

/-- Paths below one directory are the same exactly if their names are, in whatever way they are
compared. -/
theorem along_eq_iff (hnames : ∀ name ∈ names, IsName name) (hne : names ≠ [])
    (hothers : ∀ name ∈ others, IsName name) (hne' : others ≠ []) :
    (along directory names = along directory others ↔ names = others) ∧
    (samePath (along directory names) (along directory others) = true ↔
      along directory names = along directory others) := by
  have hinj : samePath (along directory names) (along directory others) = true →
      names = others := by
    intro h
    simp only [samePath, Bool.and_eq_true, decide_eq_true_eq] at h
    have hmapped := congrArg (List.map String.ofList) h.2
    rw [pathComponents_along_names hnames hne, pathComponents_along_names hothers hne'] at hmapped
    exact List.append_cancel_left hmapped
  have hsame : along directory names = along directory others →
      samePath (along directory names) (along directory others) = true := by
    intro h
    simp [samePath, h]
  exact ⟨⟨fun h => hinj (hsame h), fun h => congrArg _ h⟩,
    ⟨fun h => congrArg _ (hinj h), hsame⟩⟩

end Text

/-! ### Places on a shelf -/

namespace Storage

variable {s : Storage} {hash name path : String} {d d' : Document}

/-- A path leads to one name on the shelf of a hash, in one of the trees below the root. -/
structure OnShelf (s : Storage) (tree hash name path : String) : Prop where
  /-- The name is no way to other directories. -/
  isName : Text.IsName name
  whole : hash.toList <+: name.toList
  components : (Text.pathComponents path.toList).map String.ofList =
    (Text.pathComponents s.root.toList).map String.ofList ++
      [tree, (shelfOf hash).1, (shelfOf hash).2, name]
  absolute : Text.isAbsolute path = Text.isAbsolute s.root
  /-- Where a tree of files has something under the path, it has it on the shelf. -/
  confined : ∀ (t : FileTree) place, t.locate path = .ok place → ∃ shelf,
    t.walk [] ((Text.pathComponents s.root.toList).map String.ofList ++
      [tree, (shelfOf hash).1, (shelfOf hash).2]) = .ok shelf ∧ place = shelf ++ [name]

theorem onShelf_along {tree : String}
    (hnames : ∀ n ∈ [tree, (shelfOf hash).1, (shelfOf hash).2, name], Text.IsName n)
    (hwhole : hash.toList <+: name.toList) :
    s.OnShelf tree hash name
      (Text.along s.root [tree, (shelfOf hash).1, (shelfOf hash).2, name]) := by
  have hcomponents := @Text.pathComponents_along_names s.root _ hnames (List.cons_ne_nil _ _)
  refine ⟨hnames name (by simp), hwhole, hcomponents,
    Text.isAbsolute_along fun n hn => (hnames n hn).noSlash, fun t place hplace => ?_⟩
  have hwalk := (FileTree.locate_eq_ok.mp hplace).2.2
  have hlast : [tree, (shelfOf hash).1, (shelfOf hash).2, name] =
      [tree, (shelfOf hash).1, (shelfOf hash).2] ++ [name] := rfl
  rw [hcomponents, hlast, ← List.append_assoc] at hwalk
  obtain ⟨shelf, hshelf, hname⟩ := FileTree.exists_walk_append hwalk
  exact ⟨shelf, hshelf, FileTree.walk_names (by simpa using (hnames name (by simp)).notUp) hname⟩

theorem withExtension_starts (stem : String) (ext : Option String) :
    stem.toList <+: (withExtension stem ext).toList := by
  rcases withExtension_cases stem ext with h | ⟨e, -, -, h⟩
  · simp [h]
  · simp [h]

/-- The names that lead from the root to a preview. -/
def thumbnailNames (hash : String) : List String :=
  ["thumbnails", (shelfOf hash).1, (shelfOf hash).2, hash ++ ".png"]

theorem thumbnailPath_eq (s : Storage) (h : isContentHash hash = true) :
    s.thumbnailPath hash = .ok (Text.along s.root (thumbnailNames hash)) := by
  simp [thumbnailPath, thumbnailPath?, h, shelved, thumbnailNames, Text.along]

theorem isName_thumbnailNames (h : isContentHash hash = true) :
    ∀ n ∈ thumbnailNames hash, Text.IsName n := by
  have hpng : hash ++ ".png" = withExtension hash (some "png") := by
    simp [withExtension, String.append_assoc]
  have hshelf := isName_shelfNames h
  intro n hn
  simp only [thumbnailNames, List.mem_cons, List.not_mem_nil, or_false] at hn
  rcases hn with rfl | rfl | rfl | rfl
  · exact ⟨by decide, by decide, by decide⟩
  · exact hshelf _ (by simp [shelfNames])
  · exact hshelf _ (by simp [shelfNames])
  · rw [hpng]
    refine isName_withExtension (isStem_hash h) (fun e he => ?_) ?_
    · obtain rfl := Option.some.inj he
      exact ⟨by decide, by decide⟩
    · simp [withExtension]

/-- A hash is accepted wherever one is asked for, or nowhere. -/
theorem accepts_iff (s : Storage) (hash : String) (ext : Option String) :
    ((∃ path, s.contentPath hash ext = .ok path) ↔ SpellsHash hash) ∧
    ((∃ path, s.thumbnailPath hash = .ok path) ↔ SpellsHash hash) := by
  rw [← isContentHash_eq_true_iff]
  by_cases h : isContentHash hash = true
  · simp [contentPath_eq s h, thumbnailPath_eq s h, h]
  · simp [contentPath, contentPath?, thumbnailPath, thumbnailPath?, h]

theorem contentNames_ne_nil (hash : String) (ext : Option String) : contentNames hash ext ≠ [] :=
  List.cons_ne_nil _ _

theorem thumbnailNames_eq_iff {hash' : String} :
    thumbnailNames hash = thumbnailNames hash' ↔ hash = hash' := by
  constructor
  · intro h
    simpa [thumbnailNames] using congrArg List.getLast? h
  · rintro rfl
    rfl

/-- The names of two documents on their shelves are the same exactly if hash and extension are. -/
theorem contentNames_eq_iff {hash' : String} {ext ext' : Option String}
    (h : isContentHash hash = true) (h' : isContentHash hash' = true) :
    contentNames hash ext = contentNames hash' ext' ↔
      hash = hash' ∧ ext.getD "" = ext'.getD "" := by
  rw [← withExtension_eq_iff (isStem_hash h).noDot (isStem_hash h').noDot]
  constructor
  · exact fun heq => List.singleton_inj.mp (List.append_inj' heq rfl).2
  · intro heq
    have hsame := withExtension_stem_injective (isStem_hash h).noDot (isStem_hash h').noDot heq
    rw [contentNames, contentNames, heq, hsame]

/-- A document whose hash is one is kept on the shelf of the hash, and one path is another exactly
if hash and extension are; the same holds of previews, which have one extension. -/
theorem addresses_confined_and_injective (s : Storage) (d d' : Document)
    (h : SpellsHash d.hash) (h' : SpellsHash d'.hash) :
    (∀ hash ext, ((∃ path, s.contentPath hash ext = .ok path) ↔ SpellsHash hash) ∧
      ((∃ path, s.thumbnailPath hash = .ok path) ↔ SpellsHash hash)) ∧
    (∃ name path, s.documentPath d = .ok path ∧ s.OnShelf "documents" d.hash name path) ∧
    (∃ path path', s.documentPath d = .ok path ∧ s.documentPath d' = .ok path' ∧
      (path = path' ↔ d.hash = d'.hash ∧ d.extension?.getD "" = d'.extension?.getD "") ∧
      (Text.samePath path path' = true ↔ path = path')) ∧
    (∃ path path', s.thumbnailPath d.hash = .ok path ∧ s.thumbnailPath d'.hash = .ok path' ∧
      (path = path' ↔ d.hash = d'.hash) ∧
      (Text.samePath path path' = true ↔ path = path')) := by
  have hd := isContentHash_eq_true_iff.mpr h
  have hd' := isContentHash_eq_true_iff.mpr h'
  have hnames := isName_contentNames hd fun e he => d.isStem_extension he
  have hnames' := isName_contentNames hd' fun e he => d'.isStem_extension he
  have hdocuments := @Text.along_eq_iff s.root _ _ hnames (contentNames_ne_nil _ _) hnames'
    (contentNames_ne_nil _ _)
  have hthumbnails := @Text.along_eq_iff s.root _ _ (isName_thumbnailNames hd)
    (List.cons_ne_nil _ _) (isName_thumbnailNames hd') (List.cons_ne_nil _ _)
  refine ⟨s.accepts_iff, ⟨withExtension d.hash d.extension?, _, documentPath_kept s hd, ?_⟩,
    ⟨_, _, documentPath_kept s hd, documentPath_kept s hd', ?_, hdocuments.2⟩,
    ⟨_, _, thumbnailPath_eq s hd, thumbnailPath_eq s hd', ?_, hthumbnails.2⟩⟩
  · exact onShelf_along hnames (withExtension_starts d.hash d.extension?)
  · rw [hdocuments.1, contentNames_eq_iff hd hd']
  · rw [hthumbnails.1, thumbnailNames_eq_iff]

/-- A document whose file name leads upwards. -/
def climbing : Document :=
  { (default : Document) with hash := "abCD", filename := "../../etc/x.PDF" }

/-- A document whose file name starts with its only dot, so that it has no extension. -/
def hidden : Document := { (default : Document) with hash := "abCD", filename := "up/.pdf" }

theorem addresses_confined_and_injective_climbing :
    SpellsHash climbing.hash ∧ SpellsHash hidden.hash ∧
    (∃ name path, (Storage.mk "").documentPath climbing = .ok path ∧
      (Storage.mk "").OnShelf "documents" "abCD" name path) ∧
    ∃ path path', (Storage.mk "").documentPath climbing = .ok path ∧
      (Storage.mk "").documentPath hidden = .ok path' ∧ path ≠ path' := by
  have h : SpellsHash climbing.hash := isContentHash_eq_true_iff.mp (by decide)
  have h' : SpellsHash hidden.hash := isContentHash_eq_true_iff.mp (by decide)
  obtain ⟨-, hconfined, ⟨path, path', hpath, hpath', hsame, -⟩, -⟩ :=
    addresses_confined_and_injective ⟨""⟩ climbing hidden h h'
  refine ⟨h, h', hconfined, path, path', hpath, hpath', fun heq => ?_⟩
  have hextensions : climbing.extension?.getD "" ≠ hidden.extension?.getD "" := by decide +kernel
  exact hextensions (hsame.mp heq).2

end Storage

end Docket
