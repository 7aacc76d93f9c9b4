import Docket.Proofs.Intake
import Docket.Proofs.Reaching
import Mathlib.Logic.Relation

/-!
No upload is lost by naming files after their content.  Documents share files, so that the
hash step of one sometimes moves its upload, sometimes drops it, and sometimes puts it back;
whatever is done in whatever order, each row leads to what was taken in for its document.
-/

namespace Docket

open Docket.Calendar (Instant)
open Docket.Text (IsStem)

namespace Storage.Lodges

variable {s : Storage} {place : Place} {t : FileTree} {d d' : Document} {source : List String}
  {content other : ByteArray}

theorem congr (h : s.Lodges t place d source content) (hid : d.id = d'.id)
    (hfilename : d.filename = d'.filename) (hhash : d.hash = d'.hash) :
    s.Lodges t place d' source content where
  rooted := h.rooted
  names_eq := by
    have hold := h.names_eq
    rwa [incomingNames, hid, hhash, Document.extension?_congr hfilename] at hold
  isName := h.isName
  path := (s.documentPath_congr hid hfilename hhash).symm.trans h.path
  find := h.find

/-- Where the upload of one document waits, no other document has its file. -/
theorem ne_incomingNames (h : s.Lodges t place d source other) (hid : IsStem d.id)
    (hid' : IsStem d'.id) (hne : d.id ≠ d'.id) : source ≠ incomingNames d' := by
  rcases h.names_eq with ⟨-, rfl⟩ | ⟨-, rfl⟩
  · exact fun heq => hne (incomingNames_injective hid hid' heq)
  · exact (incomingNames_ne_contentNames d' _ _).symm

/-- Keeping a content under its digest changes no file of another content. -/
theorem update_contentNames (h : s.Lodges t place d source other)
    (hdigest : d.hash = "" ∨ d.hash = Sha256.hexDigest other)
    (hsame : Sha256.hexDigest other = Sha256.hexDigest content → other = content)
    {f : Place → Option ByteArray} (hf : f (place ++ source) = some other) (ext : Option String) :
    Function.update f (place ++ contentNames (Sha256.hexDigest content) ext) (some content)
      (place ++ source) = some other := by
  rw [Function.update_apply]
  split
  · next heq =>
      have hnames := List.append_cancel_left heq
      rcases h.names_eq with ⟨-, hwaits⟩ | ⟨hkept, hkeeps⟩
      · rw [hwaits] at hnames
        exact absurd hnames (incomingNames_ne_contentNames d _ ext)
      · rw [hkeeps] at hnames
        have hhash := contentNames_injective hkept (isContentHash_hexDigest content) hnames
        rcases hdigest with hempty | hdigest
        · exact absurd hempty (isContentHash_ne_empty hkept)
        · rw [hsame (hdigest.symm.trans hhash)]
  · exact hf

end Storage.Lodges

/-- A world, with what has happened to the documents of a data directory. -/
structure Vault where
  world : World
  /-- The documents that were taken in, each with its content, the last first. -/
  imported : List (String × ByteArray)
  /-- The documents whose last hash step succeeded. -/
  hashed : List String

namespace Vault

/-- A vault after a hash step of a document. -/
def afterHash (v : Vault) (surr : Surroundings) (d : Document) : Vault where
  world := (Handler.hash surr ⟨v.world, d⟩).2.world
  imported := v.imported
  hashed :=
    if (Handler.hash surr ⟨v.world, d⟩).1.isOk then d.id :: v.hashed
    else v.hashed.filter (· ≠ d.id)

/-- What is done to documents: one is taken in, or is hashed, where the store may refuse to
record this, or something happens elsewhere in the tree. -/
inductive Step (s : Storage) (place : Place) : Vault → Vault → Prop
  | takeIn {v : Vault} {d : Document} {source : String} {content : ByteArray} {queued : Bool}
      {now : Instant} {w : World} (hid : IsStem d.id) (hfresh : d.hash = "")
      (hsource : v.world.files.read source = .ok content)
      (htaken : v.world.takeIn s d (some source) queued now = (.ok (), w)) :
      Step s place v ⟨w, (d.id, content) :: v.imported, v.hashed⟩
  | hash {v : Vault} {surr : Surroundings} {row : DocumentRow} {d : Document}
      (hstorage : surr.storage = s) (hgoes : ∀ past, surr.stops past = false)
      (hrespects : surr.Respects) (hrow : row ∈ v.world.store.documents)
      (hlocates : row.Locates d) :
      Step s place v (v.afterHash surr d)
  | elsewhere {v : Vault} {files : FileTree} (hroot : files.find s.root = .ok (place, .directory))
      (hbelow : ∀ a, files.lookup (place ++ a) = v.world.files.lookup (place ++ a)) :
      Step s place v ⟨{ v.world with files := files }, v.imported, v.hashed⟩

/-- The root is a directory with nothing in it, and there are no documents. -/
structure Empty (s : Storage) (place : Place) (v : Vault) : Prop where
  root : v.world.files.find s.root = .ok (place, .directory)
  below : ∀ a, a ≠ [] → v.world.files.lookup (place ++ a) = none
  documents : v.world.store.documents = []
  imported : v.imported = []
  hashed : v.hashed = []

/-- Different contents that were taken in have different digests. -/
def Distinguished (v : Vault) : Prop :=
  ∀ a ∈ v.imported, ∀ b ∈ v.imported, Sha256.hexDigest a.2 = Sha256.hexDigest b.2 → a.2 = b.2

/-- Nothing that was taken in is lost. -/
structure Sound (s : Storage) (place : Place) (v : Vault) : Prop where
  /-- Each row is that of a document that was taken in. -/
  rows : v.world.store.documents.map (·.id) = (v.imported.map (·.1)).reverse
  /-- No two documents have one id. -/
  distinct : (v.imported.map (·.1)).Nodup
  /-- Each row leads to what was taken in. -/
  reaches : ∀ id content, (id, content) ∈ v.imported → v.world.Reaches s id content
  /-- Each file among the contents has its digest for its stem. -/
  named : ∀ names content,
    v.world.files.lookup (place ++ "documents" :: names) = some (.file content) →
      ∃ name, names.getLast? = some name ∧ Text.fileStem? name = some (Sha256.hexDigest content)
  /-- A hash step that succeeds has stored the digest. -/
  digests : ∀ row ∈ v.world.store.documents, row.id ∈ v.hashed →
    ∃ content, (row.id, content) ∈ v.imported ∧ row.hash = Sha256.hexDigest content
  /-- A hash step succeeds where its file operations do and the store refuses nothing. -/
  succeeds : ∀ row ∈ v.world.store.documents, ∀ content, (row.id, content) ∈ v.imported →
    ∀ d, row.Locates d → ∀ surr : Surroundings, surr.Quiet → surr.storage = s →
      (∀ effects path, s.relocation v.world.files d (Sha256.hexDigest content) =
        .ok (effects, path) → (v.world.files.performAll effects).1 = .ok ()) →
      (Handler.hash surr ⟨v.world, d⟩).1 = .ok ()
  /-- Hashing once more changes nothing. -/
  repeats : ∀ row ∈ v.world.store.documents, row.id ∈ v.hashed → ∀ d, row.Locates d →
    ∀ surr : Surroundings, surr.storage = s →
      Handler.hash surr ⟨v.world, d⟩ = (.ok (), ⟨v.world, d⟩)

/-! ### The files -/

/-- What may stand below the root: an upload that waits, or a content under its digest. -/
inductive Due (imported : List (String × ByteArray)) (content : ByteArray) (a : List String) : Prop
  | waiting (id : String) (ext : Option String) (hid : id ∈ imported.map (·.1))
      (heq : a = ["incoming"] ++ [withExtension id ext])
  | shelved (ext : Option String) (hmem : content ∈ imported.map (·.2))
      (hext : ∀ e, ext = some e → IsStem e)
      (heq : a = Storage.contentNames (Sha256.hexDigest content) ext)

section Files

variable {s : Storage} {place : Place} {t u : FileTree} {imported more : List (String × ByteArray)}
  {content : ByteArray}

theorem Due.mono {a : List String} (h : Due imported content a) (hmore : imported ⊆ more) :
    Due more content a := by
  cases h with
  | waiting id ext hid heq => exact .waiting id ext (List.map_subset _ hmore hid) heq
  | shelved ext hmem hext heq => exact .shelved ext (List.map_subset _ hmore hmem) hext heq

/-- The tree below the root, with nothing in it that is not due. -/
structure Filed (s : Storage) (place : Place) (t : FileTree)
    (imported : List (String × ByteArray)) : Prop where
  rooted : t.Rooted s.root place
  /-- No directory stands where a content goes. -/
  shallow : ∀ a, t.lookup (place ++ a) = some .directory → a.length < 4
  due : ∀ a content, t.contentAt? (place ++ a) = some content → Due imported content a

namespace Filed

/-- All that is new is one file that is due, and directories on the way to it. -/
theorem of_update (h : Filed s place t imported) (hmore : imported ⊆ more)
    (hrooted : u.Rooted s.root place) {names : List String} (hspread : t.Spreads u place names)
    (hshort : names.length < 4)
    (hcontents : ∀ a content, u.contentAt? (place ++ a) = some content →
      t.contentAt? (place ++ a) = some content ∨ Due more content a) :
    Filed s place u more where
  rooted := hrooted
  shallow := by
    intro a ha
    rcases hspread.made _ ha with hold | ⟨b, hb, heq⟩
    · exact h.shallow a hold
    · rw [List.append_cancel_left heq]
      exact lt_of_le_of_lt hb.length_le hshort
  due := by
    intro a content ha
    rcases hcontents a content ha with hold | hnew
    · exact (h.due a content hold).mono hmore
    · exact hnew

/-- What is found under a digest has that digest. -/
theorem read_of_exists (h : Filed s place t imported) {ext : Option String}
    (hext : ∀ e, ext = some e → IsStem e)
    (hsame : ∀ other ∈ imported.map (·.2), Sha256.hexDigest other = Sha256.hexDigest content →
      other = content) (path : String)
    (hpath : s.contentPath (Sha256.hexDigest content) ext = .ok path)
    (hexists : t.exists? path = true) : t.read path = .ok content := by
  have hhash := isContentHash_hexDigest content
  rw [s.contentPath_eq hhash] at hpath
  cases hpath
  obtain ⟨p, node, hfind⟩ := FileTree.exists?_eq_true.mp hexists
  have hp := h.rooted.eq_of_find_along (Storage.isName_contentNames hhash hext) hfind
  subst hp
  cases node with
  | directory =>
      have hshort := h.shallow _ (FileTree.find_eq_ok.mp hfind).2.1
      simp [Storage.contentNames, Storage.shelfNames] at hshort
  | file other =>
      cases h.due _ other (FileTree.contentAt?_of_find hfind) with
      | waiting id ext' hid heq => simp [Storage.contentNames, Storage.shelfNames] at heq
      | shelved ext' hmem hext' heq =>
          have hdigest := Storage.contentNames_injective hhash (isContentHash_hexDigest other) heq
          rw [hsame other hmem hdigest.symm] at hfind
          exact FileTree.read_eq_ok.mpr ⟨_, hfind⟩

/-- A document that is not there yet has no file. -/
theorem contentAt?_of_new (h : Filed s place t imported) {d : Document} (hid : IsStem d.id)
    (hstems : ∀ a ∈ imported, IsStem a.1) (hnew : d.id ∉ imported.map (·.1)) :
    t.contentAt? (place ++ Storage.incomingNames d) = none := by
  cases hcontent : t.contentAt? (place ++ Storage.incomingNames d) with
  | none => rfl
  | some content =>
      exfalso
      cases h.due _ content hcontent with
      | waiting id ext hmem heq =>
          obtain ⟨a, ha, rfl⟩ := List.mem_map.mp hmem
          have hname := List.singleton_inj.mp (List.append_inj' heq rfl).2
          apply hnew
          rw [withExtension_stem_injective hid.noDot (hstems a ha).noDot hname]
          exact hmem
      | shelved ext hmem hext heq => exact Storage.incomingNames_ne_contentNames d _ ext heq

end Filed

end Files

/-! ### The rows -/

/-- The file of a row holds a content, whose digest the row has if it has any. -/
structure Holds (s : Storage) (place : Place) (t : FileTree) (row : DocumentRow)
    (content : ByteArray) : Prop where
  hash : row.hash = "" ∨ row.hash = Sha256.hexDigest content
  lodges : ∀ d, row.Locates d → ∃ source, s.Lodges t place d source content

section Rows

variable {s : Storage} {place : Place} {t u : FileTree} {row : DocumentRow} {d : Document}
  {source : List String} {content other : ByteArray}

namespace Holds

/-- A row whose file stays holds its content. -/
theorem transfer (h : Holds s place t row other) (hrooted : u.Rooted s.root place)
    (hdirs : ∀ a, t.lookup (place ++ a) = some .directory →
      u.lookup (place ++ a) = some .directory)
    (hcontents : ∀ d source, row.Locates d → s.Lodges t place d source other →
      u.contentAt? (place ++ source) = some other) : Holds s place u row other where
  hash := h.hash
  lodges := by
    intro d hlocates
    obtain ⟨source, hlodges⟩ := h.lodges d hlocates
    exact ⟨source, hlodges.transfer hrooted hdirs (hcontents d source hlocates hlodges)⟩

theorem of_lodges (h : s.Lodges t place d source content) (hfresh : d.hash = "")
    (hlocates : row.Locates d) : Holds s place t row content where
  hash := .inl (hlocates.hash.trans hfresh)
  lodges := fun _ hother => ⟨source, h.congr (hlocates.id.symm.trans hother.id)
    (hlocates.filename.symm.trans hother.filename) (hlocates.hash.symm.trans hother.hash)⟩

/-- A row that has the digest holds the content that was moved there. -/
theorem of_moved (hmoved : t.Moved u s.root place source
      (Storage.contentNames (Sha256.hexDigest content) d.extension?) content)
    (hfilename : row.filename = d.filename) (hhash : row.hash = Sha256.hexDigest content) :
    Holds s place u row content where
  hash := .inr hhash
  lodges := by
    intro d' hlocates
    have hcontent := isContentHash_hexDigest content
    have hdigest : d'.hash = Sha256.hexDigest content := hlocates.hash.symm.trans hhash
    have hext : d'.extension? = d.extension? :=
      Document.extension?_congr (hlocates.filename.symm.trans hfilename)
    have hpath := s.documentPath_kept (hdigest ▸ hcontent)
    have hnames := Storage.isName_target hcontent d
    rw [hdigest, hext] at hpath
    refine ⟨Storage.contentNames (Sha256.hexDigest content) d.extension?, hmoved.rooted,
      .inr ⟨hdigest ▸ hcontent, ?_⟩, hnames, hpath, hmoved.arrived⟩
    rw [hdigest, hext]

end Holds

end Rows

/-- What is so after every step. -/
structure Invariant (s : Storage) (place : Place) (v : Vault) : Prop where
  filed : Filed s place v.world.files v.imported
  rows : v.world.store.documents.map (·.id) = (v.imported.map (·.1)).reverse
  distinct : (v.imported.map (·.1)).Nodup
  stems : ∀ a ∈ v.imported, IsStem a.1
  held : ∀ row ∈ v.world.store.documents, ∃ content, (row.id, content) ∈ v.imported ∧
    Holds s place v.world.files row content
  hashed : ∀ id ∈ v.hashed, ∃ row ∈ v.world.store.documents, row.id = id ∧ row.hash ≠ ""

/-! ### What a step keeps -/

theorem Empty.invariant {s : Storage} {place : Place} {v : Vault} (h : v.Empty s place) :
    v.Invariant s place where
  filed := by
    refine ⟨⟨h.root, fun q name hstands => ?_⟩, fun a ha => ?_, fun a content ha => ?_⟩
    · exact absurd (h.below _ (by simp)) hstands
    · by_cases hnil : a = []
      · simp [hnil]
      · rw [h.below a hnil] at ha
        cases ha
    · rw [FileTree.contentAt?_eq_some] at ha
      by_cases hnil : a = []
      · rw [hnil, List.append_nil, (FileTree.find_eq_ok.mp h.root).2.1] at ha
        cases ha
      · rw [h.below a hnil] at ha
        cases ha
  rows := by rw [h.documents, h.imported]; rfl
  distinct := by rw [h.imported]; exact List.nodup_nil
  stems := by simp [h.imported]
  held := by simp [h.documents]
  hashed := by simp [h.hashed]

namespace Invariant

variable {s : Storage} {place : Place} {v : Vault} {w : World} {d : Document} {row : DocumentRow}
  {content : ByteArray} {hashed : List String}

/-- Where the rows stay, each has to hold what it held. -/
theorem of_documents (h : v.Invariant s place)
    (hdocs : w.store.documents = v.world.store.documents)
    (hfiled : Filed s place w.files v.imported)
    (hheld : ∀ row ∈ v.world.store.documents, ∀ content, (row.id, content) ∈ v.imported →
      Holds s place v.world.files row content → Holds s place w.files row content)
    (hhashed : ∀ id ∈ hashed, ∃ row ∈ v.world.store.documents, row.id = id ∧ row.hash ≠ "") :
    Invariant s place ⟨w, v.imported, hashed⟩ where
  filed := hfiled
  rows := by rw [hdocs, h.rows]
  distinct := h.distinct
  stems := h.stems
  held := by
    intro row hrow
    rw [hdocs] at hrow
    obtain ⟨content, hmem, hholds⟩ := h.held row hrow
    exact ⟨content, hmem, hheld row hrow content hmem hholds⟩
  hashed := by
    rw [hdocs]
    exact hhashed

theorem isStem_of_row (h : v.Invariant s place) (hrow : row ∈ v.world.store.documents) :
    IsStem row.id := by
  obtain ⟨content, hmem, -⟩ := h.held row hrow
  exact h.stems _ hmem

theorem elsewhere (h : v.Invariant s place) {files : FileTree}
    (hroot : files.find s.root = .ok (place, .directory))
    (hbelow : ∀ a, files.lookup (place ++ a) = v.world.files.lookup (place ++ a)) :
    Invariant s place ⟨{ v.world with files := files }, v.imported, v.hashed⟩ := by
  have hcontents : ∀ a, files.contentAt? (place ++ a) = v.world.files.contentAt? (place ++ a) := by
    intro a
    rw [FileTree.contentAt?, hbelow]
    rfl
  have hrooted : files.Rooted s.root place := by
    refine ⟨hroot, fun q name hstands => ?_⟩
    rw [hbelow] at hstands ⊢
    exact h.filed.rooted.stands q name hstands
  refine h.of_documents rfl ⟨hrooted, fun a ha => ?_, fun a content ha => ?_⟩ ?_ h.hashed
  · exact h.filed.shallow a (hbelow a ▸ ha)
  · exact h.filed.due a content (hcontents a ▸ ha)
  · intro row hrow content hmem hholds
    refine hholds.transfer hrooted (fun a ha => (hbelow a).trans ha) ?_
    intro d source hlocates hlodges
    rw [hcontents, hlodges.contentAt?]

theorem takeIn (h : v.Invariant s place) {source : String} {queued : Bool} {now : Instant}
    (hid : IsStem d.id) (hfresh : d.hash = "") (hsource : v.world.files.read source = .ok content)
    (htaken : v.world.takeIn s d (some source) queued now = (.ok (), w)) :
    Invariant s place ⟨w, (d.id, content) :: v.imported, v.hashed⟩ := by
  obtain ⟨hnew, path, size, himport, hdocs⟩ := World.takeIn_eq_ok htaken
  have hnotMem : d.id ∉ v.imported.map (·.1) := by
    rw [← List.mem_reverse, ← h.rows]
    simpa [Store.hasDocument] using hnew
  have hfree := h.filed.contentAt?_of_new hid h.stems hnotMem
  obtain ⟨hlodges, hspread, hcontents⟩ :=
    Storage.importFile_spec h.filed.rooted hid hfresh hsource hfree himport
  have hstands : ∀ row ∈ v.world.store.documents, ∀ other,
      Holds s place v.world.files row other → Holds s place w.files row other := by
    intro row hrow other hholds
    refine hholds.transfer hlodges.rooted (fun a ha => hspread.keeps _ ha) ?_
    intro d' source' hlocates hlodges'
    have hne : row.id ≠ d.id := by
      intro heq
      apply hnotMem
      rw [← List.mem_reverse, ← h.rows, ← heq]
      exact List.mem_map_of_mem hrow
    have hnames := hlodges'.ne_incomingNames (hlocates.id ▸ h.isStem_of_row hrow) hid
      (hlocates.id ▸ hne)
    rw [hcontents, Function.update_of_ne fun heq => hnames (List.append_cancel_left heq)]
    exact hlodges'.contentAt?
  constructor
  case filed =>
    refine h.filed.of_update (List.subset_cons_self _ _) hlodges.rooted hspread (by simp) ?_
    intro a other ha
    rw [hcontents, Function.update_apply] at ha
    split at ha
    · next heq =>
        exact .inr (.waiting d.id d.extension? (by simp) (List.append_cancel_left heq))
    · exact .inl ha
  case rows =>
    rw [hdocs, List.map_append, h.rows]
    simp [DocumentRow.ofDocument]
  case distinct =>
    exact List.nodup_cons.mpr ⟨hnotMem, h.distinct⟩
  case stems =>
    intro a ha
    rcases List.mem_cons.mp ha with rfl | ha
    · exact hid
    · exact h.stems a ha
  case held =>
    intro row hrow
    rw [hdocs] at hrow
    rcases List.mem_append.mp hrow with hrow | hrow
    · obtain ⟨other, hmem, hholds⟩ := h.held row hrow
      exact ⟨other, List.mem_cons_of_mem _ hmem, hstands row hrow other hholds⟩
    · rw [List.mem_singleton.mp hrow]
      exact ⟨content, List.mem_cons_self, .of_lodges hlodges hfresh ⟨rfl, rfl, rfl⟩⟩
  case hashed =>
    intro id hmem
    obtain ⟨row, hrow, hhas⟩ := h.hashed id hmem
    rw [hdocs]
    exact ⟨row, List.mem_append_left _ hrow, hhas⟩

section Hash

variable {source : List String}

theorem shelf_short (content : ByteArray) (d : Document) :
    (Storage.contentNames (Sha256.hexDigest content) d.extension?).dropLast.length < 4 := by
  simp [Storage.contentNames, Storage.shelfNames]

/-- An upload whose content is put under its digest, or back from there, is due. -/
theorem filed_of_kept (h : v.Invariant s place) {u : FileTree} (hmem : (d.id, content) ∈ v.imported)
    (hrooted : u.Rooted s.root place)
    (hspread : v.world.files.Spreads u place
      (Storage.contentNames (Sha256.hexDigest content) d.extension?).dropLast)
    {f : Place → Option ByteArray}
    (hf : ∀ p other, f p = some other → v.world.files.contentAt? p = some other)
    (hcontents : u.contentAt? = Function.update f
      (place ++ Storage.contentNames (Sha256.hexDigest content) d.extension?) (some content)) :
    Filed s place u v.imported := by
  refine h.filed.of_update (List.Subset.refl _) hrooted hspread (shelf_short content d) ?_
  intro a other ha
  rw [hcontents, Function.update_apply] at ha
  split at ha
  · next heq =>
      cases ha
      exact .inr (.shelved d.extension? (List.mem_map_of_mem hmem)
        (fun e he => Document.isStem_extension he) (List.append_cancel_left heq))
  · exact .inl (hf _ other ha)

/-- A row that is given the digest holds the content that was moved there, and every other row
holds what it held. -/
theorem of_stored (h : v.Invariant s place) (hdistinguished : v.Distinguished)
    (hmem : (d.id, content) ∈ v.imported) (hrow : row ∈ v.world.store.documents)
    (hid : row.id = d.id)
    (hmoved : v.world.files.Moved w.files s.root place (Storage.incomingNames d)
      (Storage.contentNames (Sha256.hexDigest content) d.extension?) content)
    {moved : Document} {now : Instant} (hhash : moved.hash = Sha256.hexDigest content)
    (hmovedId : moved.id = d.id) (hfilename : moved.filename = d.filename)
    (hdocs : w.store.documents = (v.world.store.updateDocument moved now).2.documents) :
    Invariant s place ⟨w, v.imported, d.id :: v.hashed⟩ := by
  have hchanged : w.store.documents = v.world.store.documents.map fun r =>
      if r.id = d.id then r.withFieldsOf moved now else r := by
    rw [hdocs, ← hmovedId]
    rfl
  have hempty : moved.hash ≠ "" := by
    rw [hhash]
    exact isContentHash_ne_empty (isContentHash_hexDigest content)
  constructor
  case filed =>
    refine h.filed_of_kept hmem hmoved.rooted hmoved.spreads ?_ hmoved.contents
    intro p other hp
    rw [Function.update_apply] at hp
    split at hp
    · cases hp
    · exact hp
  case rows =>
    rw [hchanged, List.map_map, ← h.rows]
    apply List.map_congr_left
    intro r hr
    simp only [Function.comp]
    split <;> rfl
  case distinct =>
    exact h.distinct
  case stems =>
    exact h.stems
  case held =>
    intro r hr
    rw [hchanged] at hr
    obtain ⟨r', hr', rfl⟩ := List.mem_map.mp hr
    obtain ⟨other, hother, hholds⟩ := h.held r' hr'
    by_cases heq : r'.id = d.id
    · rw [if_pos heq]
      exact ⟨content, heq ▸ hmem, .of_moved hmoved hfilename hhash⟩
    · rw [if_neg heq]
      refine ⟨other, hother, hholds.transfer hmoved.rooted
        (fun a ha => hmoved.spreads.keeps _ ha) ?_⟩
      intro d' source' hlocates hlodges
      have hnames := hlodges.ne_incomingNames (hlocates.id ▸ h.isStem_of_row hr')
        (h.stems _ hmem) (hlocates.id ▸ heq)
      rw [hmoved.contents]
      refine hlodges.update_contentNames (hlocates.hash ▸ hholds.hash)
        (hdistinguished _ hother _ hmem) ?_ _
      rw [Function.update_of_ne fun heq => hnames (List.append_cancel_left heq)]
      exact hlodges.contentAt?
  case hashed =>
    intro id hhashed
    rw [hchanged]
    obtain ⟨r, hr, hrid, hhas⟩ : ∃ r ∈ v.world.store.documents, r.id = id ∧
        (r.id = d.id ∨ r.hash ≠ "") := by
      rcases List.mem_cons.mp hhashed with rfl | hold
      · exact ⟨row, hrow, hid, .inl hid⟩
      · obtain ⟨r, hr, hrid, hhas⟩ := h.hashed id hold
        exact ⟨r, hr, hrid, .inr hhas⟩
    refine ⟨_, List.mem_map_of_mem hr, ?_, ?_⟩
    · split <;> exact hrid
    · split
      · exact hempty
      · next hne => exact hhas.resolve_left hne

/-- Where the rows stay and no more than a content was put under its digest, every row holds what
it held. -/
theorem of_kept (h : v.Invariant s place) (hdistinguished : v.Distinguished)
    (hmem : (d.id, content) ∈ v.imported)
    (hdocs : w.store.documents = v.world.store.documents) (hrooted : w.files.Rooted s.root place)
    (hspread : v.world.files.Spreads w.files place
      (Storage.contentNames (Sha256.hexDigest content) d.extension?).dropLast)
    (hcontents : w.files.contentAt? = v.world.files.contentAt? ∨
      w.files.contentAt? = Function.update v.world.files.contentAt?
        (place ++ Storage.contentNames (Sha256.hexDigest content) d.extension?) (some content)) :
    Invariant s place ⟨w, v.imported, v.hashed.filter (· ≠ d.id)⟩ := by
  refine h.of_documents hdocs ?_ ?_ ?_
  · rcases hcontents with hsame | hput
    · refine h.filed.of_update (List.Subset.refl _) hrooted hspread (shelf_short content d) ?_
      exact fun a other ha => .inl (hsame ▸ ha)
    · exact h.filed_of_kept hmem hrooted hspread (fun p other hp => hp) hput
  · intro row hrow other hother hholds
    refine hholds.transfer hrooted (fun a ha => hspread.keeps _ ha) ?_
    intro d' source' hlocates hlodges
    rcases hcontents with hsame | hput
    · rw [hsame, hlodges.contentAt?]
    · rw [hput]
      exact hlodges.update_contentNames (hlocates.hash ▸ hholds.hash)
        (hdistinguished _ hother _ hmem) hlodges.contentAt? _
  · exact fun id hmem => h.hashed id (List.mem_of_mem_filter hmem)

/-- What the hash step needs to know of the files. -/
theorem read_of_exists (h : v.Invariant s place) (hdistinguished : v.Distinguished)
    (hmem : (d.id, content) ∈ v.imported) (path : String)
    (hpath : s.contentPath (Sha256.hexDigest content) d.extension? = .ok path)
    (hexists : v.world.files.exists? path = true) : v.world.files.read path = .ok content := by
  refine h.filed.read_of_exists (fun e he => Document.isStem_extension he) ?_ path hpath hexists
  intro other hother hsame
  obtain ⟨a, ha, rfl⟩ := List.mem_map.mp hother
  exact hdistinguished a ha _ hmem hsame

theorem hash {surr : Surroundings} (h : v.Invariant surr.storage place)
    (hdistinguished : v.Distinguished) (hgoes : ∀ past, surr.stops past = false)
    (hrespects : surr.Respects) (hrow : row ∈ v.world.store.documents) (hlocates : row.Locates d) :
    Invariant surr.storage place (v.afterHash surr d) := by
  obtain ⟨content, hmem, hholds⟩ := h.held row hrow
  obtain ⟨source, hlodges⟩ := hholds.lodges d hlocates
  rw [hlocates.id] at hmem
  unfold afterHash
  by_cases hnew : d.hash = Sha256.hexDigest content
  · have hsame : Handler.hash surr ⟨v.world, d⟩ = (.ok (), ⟨v.world, d⟩) := by
      rw [Handler.hash_eq hlodges, if_pos hnew.symm]
    rw [hsame]
    refine h.of_documents rfl h.filed (fun _ _ _ _ hholds => hholds) ?_
    intro id hid
    rcases List.mem_cons.mp hid with rfl | hold
    · refine ⟨row, hrow, hlocates.id, ?_⟩
      rw [hlocates.hash, hnew]
      exact isContentHash_ne_empty (isContentHash_hexDigest content)
    · exact h.hashed id hold
  · -- Only an upload that waits is moved: a digest that a row has is that of its content.
    have hempty : d.hash = "" :=
      (hlocates.hash ▸ hholds.hash).resolve_right hnew
    have hwaits : source = Storage.incomingNames d := by
      rcases hlodges.names_eq with ⟨-, hnames⟩ | ⟨hkept, -⟩
      · exact hnames
      · exact absurd hempty (isContentHash_ne_empty hkept)
    subst hwaits
    obtain ⟨since, -, hends⟩ := Handler.hash_ends hlodges hrespects (hlocates.hasDocument hrow)
      (h.read_of_exists hdistinguished hmem)
    generalize (Handler.hash surr ⟨v.world, d⟩).1 = result at hends ⊢
    generalize (Handler.hash surr ⟨v.world, d⟩).2 = desk at hends ⊢
    cases hends with
    | same hsame => exact absurd hsame hnew
    | still hwide hdocs hlast =>
        exact h.of_kept hdistinguished hmem hdocs hwide.rooted hwide.spreads (.inl hwide.contents)
    | cut hstop hmoved hdocs hlast =>
        obtain ⟨past, hstop⟩ := hstop
        rw [hgoes past] at hstop
        cases hstop
    | stored hmoved hcopy hdocs =>
        obtain ⟨now, hdocs⟩ := hdocs
        exact h.of_stored hdistinguished hmem hrow hlocates.id hmoved hcopy.1 hcopy.2.1
          hcopy.2.2 hdocs
    | restored hback hdocs =>
        exact h.of_kept hdistinguished hmem hdocs hback.rooted hback.spreads (.inr hback.contents)

end Hash

theorem step {v' : Vault} (h : v.Invariant s place) (hdistinguished : v.Distinguished)
    (hstep : Step s place v v') : v'.Invariant s place := by
  cases hstep with
  | takeIn hid hfresh hsource htaken => exact h.takeIn hid hfresh hsource htaken
  | hash hstorage hgoes hrespects hrow hlocates =>
      subst hstorage
      exact h.hash hdistinguished hgoes hrespects hrow hlocates
  | elsewhere hroot hbelow => exact h.elsewhere hroot hbelow

/-- A row holds what was taken in for its document. -/
theorem holds_of_mem (h : v.Invariant s place) (hrow : row ∈ v.world.store.documents)
    (hmem : (row.id, content) ∈ v.imported) : Holds s place v.world.files row content := by
  obtain ⟨other, hother, hholds⟩ := h.held row hrow
  have hsame : (row.id, other) = (row.id, content) :=
    List.inj_on_of_nodup_map h.distinct hother hmem rfl
  cases hsame
  exact hholds

/-- A document that was taken in has a row. -/
theorem exists_row (h : v.Invariant s place) {id : String} (hmem : (id, content) ∈ v.imported) :
    ∃ row, v.world.store.documentRow? id = some row := by
  have hid : id ∈ v.world.store.documents.map (·.id) := by
    rw [h.rows, List.mem_reverse]
    exact List.mem_map_of_mem hmem
  obtain ⟨r, hr, hrid⟩ := List.mem_map.mp hid
  rw [← Option.isSome_iff_exists, Store.documentRow?, List.find?_isSome]
  exact ⟨r, hr, decide_eq_true hrid⟩

theorem reaches (h : v.Invariant s place) {id : String} (hmem : (id, content) ∈ v.imported) :
    v.world.Reaches s id content := by
  obtain ⟨row, hrow⟩ := h.exists_row hmem
  have hid := Store.id_of_documentRow? hrow
  have hholds := h.holds_of_mem (List.mem_of_find?_eq_some hrow) (hid ▸ hmem)
  have hlocates : row.Locates
      { (default : Document) with id := row.id, filename := row.filename, hash := row.hash } :=
    ⟨rfl, rfl, rfl⟩
  obtain ⟨source, hlodges⟩ := hholds.lodges _ hlocates
  exact World.reaches_of_find hrow hlodges.path hlodges.find

theorem digests (h : v.Invariant s place) (hrow : row ∈ v.world.store.documents)
    (hhashed : row.id ∈ v.hashed) :
    ∃ content, (row.id, content) ∈ v.imported ∧ row.hash = Sha256.hexDigest content := by
  obtain ⟨content, hmem, hholds⟩ := h.held row hrow
  obtain ⟨r, hr, hrid, hhas⟩ := h.hashed row.id hhashed
  have hnodup : (v.world.store.documents.map (·.id)).Nodup := by
    rw [h.rows, List.nodup_reverse]
    exact h.distinct
  have hsame : r = row := List.inj_on_of_nodup_map hnodup hr hrow hrid
  subst hsame
  exact ⟨content, hmem, hholds.hash.resolve_left hhas⟩

theorem succeeds {surr : Surroundings} (h : v.Invariant surr.storage place) (hrow : row ∈ v.world.store.documents)
    (hmem : (row.id, content) ∈ v.imported) (hlocates : row.Locates d) (hquiet : surr.Quiet)
    (hfiles : ∀ effects path,
      surr.storage.relocation v.world.files d (Sha256.hexDigest content) = .ok (effects, path) →
        (v.world.files.performAll effects).1 = .ok ()) :
    (Handler.hash surr ⟨v.world, d⟩).1 = .ok () := by
  obtain ⟨source, hlodges⟩ := (h.holds_of_mem hrow hmem).lodges d hlocates
  exact Handler.hash_of_quiet hlodges hquiet (hlocates.hasDocument hrow) hfiles

theorem repeats {surr : Surroundings} (h : v.Invariant surr.storage place)
    (hrow : row ∈ v.world.store.documents) (hhashed : row.id ∈ v.hashed)
    (hlocates : row.Locates d) :
    Handler.hash surr ⟨v.world, d⟩ = (.ok (), ⟨v.world, d⟩) := by
  obtain ⟨content, hmem, hdigest⟩ := h.digests hrow hhashed
  obtain ⟨source, hlodges⟩ := (h.holds_of_mem hrow hmem).lodges d hlocates
  rw [Handler.hash_eq hlodges, if_pos (hdigest.symm.trans hlocates.hash)]

/-- A file among the contents is due there. -/
theorem named (h : v.Invariant s place) {names : List String}
    (hfile : v.world.files.lookup (place ++ "documents" :: names) = some (.file content)) :
    ∃ name, names.getLast? = some name ∧
      Text.fileStem? name = some (Sha256.hexDigest content) := by
  have hdue := h.filed.due ("documents" :: names) content (FileTree.contentAt?_eq_some.mpr hfile)
  cases hdue with
  | waiting id ext hid heq => simp at heq
  | shelved ext hmem hext heq =>
      have hhash := isContentHash_hexDigest content
      refine ⟨withExtension (Sha256.hexDigest content) ext, ?_, ?_⟩
      · rw [(List.cons.inj heq).2]
        rfl
      · exact fileStem?_withExtension (isStem_hash hhash) (isContentHash_ne_empty hhash) hext

theorem sound (h : v.Invariant s place) : v.Sound s place where
  rows := h.rows
  distinct := h.distinct
  reaches := fun _ _ hmem => h.reaches hmem
  named := fun _ _ hfile => h.named hfile
  digests := fun _ hrow hhashed => h.digests hrow hhashed
  succeeds := by
    intro row hrow content hmem d hlocates surr hquiet hstorage hfiles
    subst hstorage
    exact h.succeeds hrow hmem hlocates hquiet hfiles
  repeats := by
    intro row hrow hhashed d hlocates surr hstorage
    subst hstorage
    exact h.repeats hrow hhashed hlocates

end Invariant

/-! ### Runs -/

section Run

variable {s : Storage} {place : Place} {v v' : Vault}

theorem Step.imported_subset (h : Step s place v v') : v.imported ⊆ v'.imported := by
  cases h with
  | takeIn => exact List.subset_cons_self _ _
  | hash => exact List.Subset.refl _
  | elsewhere => exact List.Subset.refl _

theorem Distinguished.of_step (h : v'.Distinguished) (hstep : Step s place v v') :
    v.Distinguished :=
  fun a ha b hb => h a (hstep.imported_subset ha) b (hstep.imported_subset hb)

/-- Whatever is done to the documents of an empty data directory, in whatever order and wherever
the store refuses, nothing that was taken in is lost. -/
theorem run_keeps_uploads (hempty : v.Empty s place)
    (hrun : Relation.ReflTransGen (Step s place) v v') (hdistinguished : v'.Distinguished) :
    v'.Sound s place := by
  have hinvariant : v'.Invariant s place := by
    induction hrun with
    | refl => exact hempty.invariant
    | tail hrun hstep ih =>
        have hbefore := hdistinguished.of_step hstep
        exact (ih hbefore).step hbefore hstep
  exact hinvariant.sound

end Run

/-! Two uploads of one content are taken in, and the first is hashed. -/

def text : ByteArray := ⟨#[97, 98, 99]⟩

/-- A document whose upload is a text. -/
def textDocument (id : String) : Document :=
  { (default : Document) with id := id, filename := "a.txt" }

/-- The row of a document whose text was taken in. -/
def textRow (id : String) : DocumentRow := .ofDocument { textDocument id with size := 3 }

/-- A data directory where texts wait, the last first. -/
def waiting (ids : List String) : World where
  store := { documents := ids.reverse.map textRow }
  files :=
    { entries := (ids.map fun id => (["data", "incoming", id ++ ".txt"], .file text)) ++
        (if ids.isEmpty then [] else [(["data", "incoming"], .directory)]) ++
        [(["data"], .directory), (["upload"], .file text)] }

theorem waiting_empty : Empty ⟨"/data"⟩ ["data"] ⟨waiting [], [], []⟩ where
  root := by rfl
  below := by
    intro a ha
    simp [waiting, FileTree.lookup, ha]
  documents := rfl
  imported := rfl
  hashed := rfl

theorem step_waiting (ids : List String) (id : String) (imported : List (String × ByteArray))
    (hid : IsStem id) (hread : (waiting ids).files.read "/upload" = .ok text)
    (htaken : (waiting ids).takeIn ⟨"/data"⟩ (textDocument id) (some "/upload") false default =
      (.ok (), waiting (id :: ids))) :
    Step ⟨"/data"⟩ ["data"] ⟨waiting ids, imported, []⟩
      ⟨waiting (id :: ids), (id, text) :: imported, []⟩ :=
  Step.takeIn (s := ⟨"/data"⟩) (v := ⟨waiting ids, imported, []⟩) (d := textDocument id)
    hid rfl hread htaken

/-- Two uploads of one content wait. -/
def alike : Vault := ⟨waiting ["e", "d"], [("e", text), ("d", text)], []⟩

theorem run_keeps_uploads_alike :
    Sound ⟨"/data"⟩ ["data"] (alike.afterHash .bare (textDocument "d")) := by
  have hfirst := step_waiting [] "d" [] ⟨by decide, by decide⟩ (by rfl) (by rfl)
  have hsecond : Step _ _ _ alike :=
    step_waiting ["d"] "e" [("d", text)] ⟨by decide, by decide⟩ (by rfl) (by rfl)
  have hrow : textRow "d" ∈ alike.world.store.documents := List.mem_cons_self
  have hlocates : (textRow "d").Locates (textDocument "d") := ⟨rfl, rfl, rfl⟩
  have hthird : Step ⟨"/data"⟩ ["data"] alike (alike.afterHash .bare (textDocument "d")) :=
    .hash rfl (fun _ => rfl) (fun _ _ => rfl) hrow hlocates
  have hrun := ((Relation.ReflTransGen.refl.tail hfirst).tail hsecond).tail hthird
  apply run_keeps_uploads waiting_empty hrun
  intro a ha b hb hdigest
  have htext : ∀ c ∈ [("e", text), ("d", text)], c.2 = text := by simp
  exact (htext a ha).trans (htext b hb).symm

end Vault

end Docket
