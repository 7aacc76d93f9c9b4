import Docket.Proofs.Mirror
import Docket.Proofs.Relocation

/-!
Whether the row of a document leads to its content.  Moving the file and storing where it
went are two changes of two stores, and the row leads nowhere between them: a process that
stops there leaves a document whose next hash step fails, although its content is kept.
At every other point the row leads to the content.
-/

namespace Docket

open Docket.Calendar (Instant)

/-- The path of the file that a row leads to. -/
def DocumentRow.path (r : DocumentRow) (s : Storage) : Except StorageError String :=
  s.documentPath { (default : Document) with id := r.id, filename := r.filename, hash := r.hash }

/-- The row of a document leads to a file with a content. -/
def World.Reaches (w : World) (s : Storage) (id : String) (content : ByteArray) : Prop :=
  ∃ row path, w.store.documentRow? id = some row ∧ row.path s = .ok path ∧
    w.files.read path = .ok content

theorem Document.extension?_congr {d d' : Document} (h : d.filename = d'.filename) :
    d.extension? = d'.extension? := by
  rw [extension?, extension?, h]

/-- The path of a document depends on its id, its file name and its hash. -/
theorem Storage.documentPath_congr (s : Storage) {d d' : Document} (hid : d.id = d'.id)
    (hfilename : d.filename = d'.filename) (hhash : d.hash = d'.hash) :
    s.documentPath d = s.documentPath d' := by
  simp only [documentPath, documentPath?, incomingPath, hid, hhash,
    Document.extension?_congr hfilename]

/-- A document has what its row says of its file. -/
structure DocumentRow.Locates (r : DocumentRow) (d : Document) : Prop where
  id : r.id = d.id
  filename : r.filename = d.filename
  hash : r.hash = d.hash

theorem DocumentRow.Locates.path_eq {r : DocumentRow} {d : Document} (h : r.Locates d)
    (s : Storage) : r.path s = s.documentPath d :=
  s.documentPath_congr h.id h.filename h.hash

theorem DocumentRow.Locates.hasDocument {row : DocumentRow} {d : Document} {st : Store}
    (h : row.Locates d) (hrow : row ∈ st.documents) : st.hasDocument d.id = true := by
  simp only [Store.hasDocument, List.any_eq_true, decide_eq_true_eq]
  exact ⟨row, hrow, h.id⟩

theorem DocumentRow.Shows.locates {r : DocumentRow} {d : Document} (h : r.Shows d) :
    r.Locates d := by
  have hfields := h.fields
  constructor <;> rw [hfields] <;> rfl

theorem Store.documentRow?_congr {st st' : Store} (h : st'.documents = st.documents)
    (id : String) : st'.documentRow? id = st.documentRow? id := by
  rw [documentRow?, documentRow?, h]

theorem World.reaches_of_find {w : World} {s : Storage} {id : String} {content : ByteArray}
    {row : DocumentRow} {path : String} (hrow : w.store.documentRow? id = some row)
    (hpath : row.path s = .ok path) {place : Place}
    (hfind : w.files.find path = .ok (place, .file content)) : w.Reaches s id content :=
  ⟨row, path, hrow, hpath, FileTree.read_eq_ok.mpr ⟨place, hfind⟩⟩

namespace Handler

variable {s : Surroundings} {w : World} {d : Document} {place : Place} {content : ByteArray}
  {source : List String}

/-- Work has ended because the process has stopped after the file of a document was moved, and
before the store has heeded the call that says where it went. -/
def Cut (since : List Moment) (result : Except (Interruption PipelineError) Unit) : Prop :=
  result = .error .stop ∧ ∃ m, since.head? = some m ∧ m.Unmoors

theorem not_cut (since : List Moment) (result : Except (Interruption PipelineError) Unit)
    (h : result ≠ .error .stop) : ¬ Cut since result := fun hcut => h hcut.1

/-- Where the step is cut, the content is kept under its hash, and the next run of the step finds
no file. -/
def Stranded (s : Surroundings) (w : World) (d : Document) (content : ByteArray) : Prop :=
  (∃ path, s.storage.contentPath (Sha256.hexDigest content) d.extension? = .ok path ∧
    w.files.read path = .ok content) ∧
  ∀ again : Surroundings, again.storage = s.storage →
    ∃ path fault, hash again ⟨w, d⟩ = (.error (.error (.storage (.notRead path fault))), ⟨w, d⟩)

theorem hash_of_unread {again : Surroundings} {path : String} {fault : FileFault}
    (hpath : again.storage.documentPath d = .ok path) (hread : w.files.read path = .error fault) :
    hash again ⟨w, d⟩ = (.error (.error (.storage (.notRead path fault))), ⟨w, d⟩) := by
  refine (Act.bind_of_ok (a := again) rfl).trans ?_
  refine (Act.bind_of_ok (a := d) rfl).trans ?_
  refine (Act.bind_of_ok (by rw [hpath]; rfl)).trans ?_
  refine (Act.bind_of_ok (a := (⟨w, d⟩ : Desk)) rfl).trans ?_
  apply Act.bind_of_error
  rw [FileTree.hashFile, hread]
  rfl

theorem stranded_of_moved {u : World}
    (hpath : s.storage.Lodges w.files place d source content)
    (hmoved : w.files.Moved u.files s.storage.root place source
      (Storage.contentNames (Sha256.hexDigest content) d.extension?) content) :
    Stranded s u d content := by
  refine ⟨⟨_, s.storage.contentPath_eq (isContentHash_hexDigest content) _,
    FileTree.read_eq_ok.mpr ⟨_, hmoved.arrived⟩⟩, fun again hagain => ?_⟩
  obtain ⟨fault, hread⟩ := hmoved.read_eq_error hpath.isName
  exact ⟨_, fault, hash_of_unread (by rw [hagain, hpath.path]) hread⟩

/-- The next run of the step succeeds, where the store refuses nothing and its file operations
succeed. -/
def Resumes (s : Surroundings) (w : World) (id : String) (content : ByteArray) : Prop :=
  ∀ again : Surroundings, again.Quiet → again.storage = s.storage →
    ∀ row d, w.store.documentRow? id = some row → row.Locates d →
      (∀ effects path, s.storage.relocation w.files d (Sha256.hexDigest content) =
        .ok (effects, path) → (w.files.performAll effects).1 = .ok ()) →
      (hash again ⟨w, d⟩).1 = .ok ()

/-- A row that leads to the content lets the step succeed. -/
theorem resumes_of_reaches (hrooted : w.files.Rooted s.storage.root place) {id : String}
    (hid : Text.IsStem id) (hreaches : w.Reaches s.storage id content) :
    Resumes s w id content := by
  intro again hquiet hstorage row d hrow hlocates hfiles
  rw [← hstorage] at hrooted hreaches hfiles
  obtain ⟨row', path, hrow', hpath, hread⟩ := hreaches
  rw [hrow] at hrow'
  cases hrow'
  have hsame : id = d.id := (Store.id_of_documentRow? hrow).symm.trans hlocates.id
  rw [hlocates.path_eq] at hpath
  obtain ⟨source, hlodges⟩ := Storage.Lodges.of_read hrooted (hsame ▸ hid) hpath hread
  have hdoc := hlocates.hasDocument (List.mem_of_find?_eq_some hrow)
  exact hash_of_quiet hlodges hquiet hdoc hfiles

/-- Of the ways in which the step can end, the row leads to the content in all but one. -/
theorem reaches_of_ends (hlodges : s.storage.Lodges w.files place d source content)
    {row : DocumentRow} (hrow : w.store.documentRow? d.id = some row) (hlocates : row.Locates d)
    {since : List Moment} {result : Except (Interruption PipelineError) Unit} {desk : Desk}
    (hends : HashEnds s w place d source content since result desk) :
    (desk.world.Reaches s.storage d.id content ↔ ¬ Cut since result) ∧
      (Cut since result → Stranded s desk.world d content) := by
  have hsource : row.path s.storage = .ok (Text.along s.storage.root source) :=
    (hlocates.path_eq s.storage).trans hlodges.path
  have hrows : ∀ st : Store, st.documents = w.store.documents →
      st.documentRow? d.id = some row := fun st hst =>
    (Store.documentRow?_congr hst d.id).trans hrow
  cases hends with
  | same =>
      have hfound := World.reaches_of_find hrow hsource hlodges.find
      have hwhole := not_cut since (.ok ()) (by simp)
      exact ⟨iff_of_true hfound hwhole, fun h => absurd h hwhole⟩
  | @still i w' hwide hdocs hlast =>
      have hfound := World.reaches_of_find (hrows _ hdocs) hsource
        (FileTree.find_of_contentAt? hwide.spreads.keeps hlodges.find
          (by rw [hwide.contents, hlodges.contentAt?]))
      have hwhole : ¬ Cut since (.error i) := by
        rintro ⟨hstop, m, hm, hunmoors⟩
        exact hlast m hm hunmoors (Except.error.inj hstop)
      exact ⟨iff_of_true hfound hwhole, fun h => absurd h hwhole⟩
  | cut hstop hmoved hdocs hlast =>
      have hstranded := stranded_of_moved hlodges hmoved
      refine ⟨iff_of_false ?_ fun h => h ⟨rfl, hlast⟩, fun _ => hstranded⟩
      rintro ⟨row, path, hrow, hpath, hread⟩
      rw [hrows _ hdocs] at hrow
      cases hrow
      rw [hsource] at hpath
      cases hpath
      obtain ⟨fault, hunread⟩ := hmoved.read_eq_error hlodges.isName
      rw [hread] at hunread
      cases hunread
  | @stored w' moved hmoved hcopy hdocs =>
      obtain ⟨now, hdocs⟩ := hdocs
      obtain ⟨hhash, hmovedId, hfilename⟩ := hcopy
      have hupdated := (Store.documentRow?_congr hdocs d.id).trans
        (Store.documentRow?_changeDocument (by intro r; rfl))
      rw [hrow, Option.map_some, if_pos ((Store.id_of_documentRow? hrow).trans hmovedId.symm)]
        at hupdated
      have htarget := s.storage.documentPath_kept (hhash ▸ isContentHash_hexDigest content)
      rw [hhash, Document.extension?_congr hfilename] at htarget
      have hupdatedLocates : (row.withFieldsOf moved now).Locates moved :=
        ⟨(Store.id_of_documentRow? hrow).trans hmovedId.symm, rfl, rfl⟩
      have hpath := (hupdatedLocates.path_eq s.storage).trans htarget
      have hfound := World.reaches_of_find hupdated hpath hmoved.arrived
      have hwhole := not_cut since (.ok ()) (by simp)
      exact ⟨iff_of_true hfound hwhole, fun h => absurd h hwhole⟩
  | @restored e w' hback hdocs =>
      have hfound := World.reaches_of_find (hrows _ hdocs) hsource hback.returned
      have hwhole := not_cut since (.error (.error e)) (by simp)
      exact ⟨iff_of_true hfound hwhole, fun h => absurd h hwhole⟩

/-- A document whose row leads to its content has it after its hash step, wherever the process
stops in it, and can be hashed again, unless the step is cut. -/
theorem hash_reaches_unless_cut (hrespects : s.Respects)
    (hrooted : w.files.Rooted s.storage.root place) (hid : Text.IsStem d.id)
    (hget : w.store.getDocument d.id = .ok d) (hreaches : w.Reaches s.storage d.id content)
    (hkept : ∀ path, s.storage.contentPath (Sha256.hexDigest content) d.extension? = .ok path →
      w.files.exists? path = true → w.files.read path = .ok content) :
    ∃ since, (hash s ⟨w, d⟩).2.world.moments = since ++ w.moments ∧
      ((hash s ⟨w, d⟩).2.world.Reaches s.storage d.id content ↔
        ¬ Cut since (hash s ⟨w, d⟩).1) ∧
      (¬ Cut since (hash s ⟨w, d⟩).1 → Resumes s (hash s ⟨w, d⟩).2.world d.id content) ∧
      (Cut since (hash s ⟨w, d⟩).1 → Stranded s (hash s ⟨w, d⟩).2.world d content) := by
  obtain ⟨row, hrow, hread⟩ := Pass.row_of_getDocument hget
  have hlocates := (DocumentRow.shows_of_read hread).1.locates
  obtain ⟨row', path, hrow', hpath, hcontent⟩ := hreaches
  rw [hrow] at hrow'
  cases hrow'
  rw [hlocates.path_eq] at hpath
  obtain ⟨source, hlodges⟩ := Storage.Lodges.of_read hrooted hid hpath hcontent
  obtain ⟨since, hmoments, hends⟩ := hash_ends hlodges hrespects
    (Store.hasDocument_of_documentRow? hrow) hkept
  obtain ⟨hreached, hstranded⟩ := reaches_of_ends hlodges hrow hlocates hends
  refine ⟨since, hmoments, hreached, fun hwhole => ?_, hstranded⟩
  exact resumes_of_reaches (hends.rooted hrooted) hid (hreached.mpr hwhole)

end Handler

/-- A plan of one effect, which happens. -/
theorem Act.onWorld_carryOut_single {s : Surroundings} {e : FileEffect} {path : String}
    {u : FileTree} (plan : FileTree → Except StorageError (List FileEffect × String))
    (desk : Desk) (hplan : plan desk.world.files = .ok ([e], path))
    (hgoes : s.stops desk.world.moments = false) (hperform : desk.world.files.perform e = .ok u) :
    onWorld (carryOut plan) s desk =
      (.ok path, { desk with world := desk.world.advanced u [.effect e] }) := by
  have heffect : effect e s desk.world = (.ok (), desk.world.advanced u [.effect e]) := by
    simp only [effect, hgoes, hperform, Bool.false_eq_true, if_false]
    rfl
  apply onWorld_eq
  refine (bind_of_ok (a := desk.world) rfl).trans ?_
  refine (bind_of_ok (by rw [hplan]; rfl)).trans ?_
  exact bind_of_ok (bind_of_ok heffect)

/-! A step that is cut: the content of an upload is kept already, and the process stops after
the upload was deleted. -/

/-- A document whose upload waits. -/
def Document.fresh : Document :=
  { (default : Document) with id := "d", status := .processing }

/-- Surroundings in which the process stops after its first moment. -/
def Surroundings.halting : Surroundings :=
  { Surroundings.bare with storage := ⟨"/"⟩, stops := fun past => !past.isEmpty }

/-- A tree in which an upload waits whose content is kept already. -/
def FileTree.twofold (content : ByteArray) : FileTree where
  entries := [(["incoming"], .directory), (["incoming", "d"], .file content),
    (["documents"], .directory),
    (["documents", (shelfOf (Sha256.hexDigest content)).1], .directory),
    (Storage.shelfNames (Sha256.hexDigest content), .directory),
    (Storage.contentNames (Sha256.hexDigest content) none, .file content)]

def World.twofold (content : ByteArray) : World where
  store := { documents := [.ofDocument .fresh] }
  files := .twofold content

namespace FileTree

theorem twofold_rooted (content : ByteArray) : (twofold content).Rooted "/" [] := by
  refine Rooted.of_entries ?_ fun e he => ?_
  · refine find_eq_ok.mpr ⟨locate_eq_ok.mpr ⟨by decide, by decide, ?_⟩, ?_, .inl rfl⟩
    · rfl
    · rfl
  · simp only [twofold, List.mem_cons, List.not_mem_nil, or_false] at he
    rcases he with rfl | rfl | rfl | rfl | rfl | rfl <;>
      simp [twofold, lookup, Storage.shelfNames, Storage.contentNames]

theorem twofold_find_upload (content : ByteArray) :
    (twofold content).find (Text.along "/" ["incoming", "d"]) =
      .ok (["incoming", "d"], .file content) := by
  refine (twofold_rooted content).find_of_stands ?_ ?_ (by simp) ?_
  · intro name hname
    simp only [List.mem_cons, List.not_mem_nil, or_false] at hname
    rcases hname with rfl | rfl <;> exact ⟨by decide, by decide, by decide⟩
  · decide
  · simp [twofold, lookup]

theorem twofold_find_content (content : ByteArray) :
    (twofold content).find
        (Text.along "/" (Storage.contentNames (Sha256.hexDigest content) none)) =
      .ok (Storage.contentNames (Sha256.hexDigest content) none, .file content) := by
  have hhash := isContentHash_hexDigest content
  refine (twofold_rooted content).find_of_stands
    (Storage.isName_contentNames hhash (by simp)) (Storage.contentNames_fit hhash ?_) ?_ ?_
  · rw [length_hexDigest]
    decide
  · simp [Storage.contentNames]
  · simp [twofold, lookup, Storage.shelfNames, Storage.contentNames]

end FileTree

namespace Handler

variable (content : ByteArray)

theorem twofold_lodges : Surroundings.halting.storage.Lodges (FileTree.twofold content) []
    .fresh ["incoming", "d"] content where
  rooted := FileTree.twofold_rooted content
  names_eq := .inl ⟨rfl, by decide⟩
  isName := by
    intro name hname
    simp only [List.mem_cons, List.not_mem_nil, or_false] at hname
    rcases hname with rfl | rfl <;> exact ⟨by decide, by decide, by decide⟩
  path := Storage.documentPath_waiting _ rfl
  find := FileTree.twofold_find_upload content

theorem twofold_relocation :
    Surroundings.halting.storage.relocation (FileTree.twofold content) .fresh
        (Sha256.hexDigest content) =
      .ok ([.drop (Text.along "/" ["incoming", "d"])
          (Text.along "/" (Storage.contentNames (Sha256.hexDigest content) none))],
        Text.along "/" (Storage.contentNames (Sha256.hexDigest content) none)) := by
  have hhash := isContentHash_hexDigest content
  have hlodges := twofold_lodges content
  have hnew : Document.fresh.hash ≠ Sha256.hexDigest content :=
    fun h => isContentHash_ne_empty hhash h.symm
  have hnone : Document.fresh.extension? = none := by decide
  have hnames := Storage.isName_target hhash .fresh
  have hplan := Storage.relocation_eq hlodges hhash hnew
  rw [hnone] at hnames hplan
  have hfind := FileTree.twofold_find_content content
  have hexists : (FileTree.twofold content).exists? (Text.along Surroundings.halting.storage.root
      (Storage.contentNames (Sha256.hexDigest content) none)) = true :=
    FileTree.exists?_eq_true.mpr ⟨_, _, hfind⟩
  have hparent : (FileTree.twofold content).exists? (Text.along Surroundings.halting.storage.root
      (Storage.shelfNames (Sha256.hexDigest content))) = true :=
    FileTree.exists?_eq_true.mpr ⟨_, _, hlodges.rooted.find_parent hnames (by simp)
      (FileTree.find_eq_ok.mp hfind).1⟩
  have hensure : Storage.ensureParent (FileTree.twofold content) (Text.along
      Surroundings.halting.storage.root
        (Storage.contentNames (Sha256.hexDigest content) none)) = [] :=
    (Storage.ensureParent_along hlodges.rooted (by simp [Storage.shelfNames]) hnames).trans
      (if_pos hparent)
  rw [hplan, hensure, if_pos hexists]
  rfl

theorem record_of_stop {hash target : String} {desk : Desk}
    (hstop : s.stops desk.world.moments = true) :
    record s.storage d hash target s desk = (.error .stop, desk) := by
  have hstate : (Act.state : Act Desk Desk) s desk = (.ok desk, desk) := rfl
  refine (Act.bind_of_ok hstate).trans ?_
  exact Act.bind_of_error (Act.attempt_of_stop (Act.onWorld_eq (Act.tell_of_stop _ hstop)))

/-- The process stops after the upload was deleted, and the row still leads to it. -/
theorem hash_halting : ∃ u,
    hash .halting ⟨.twofold content, .fresh⟩ = (.error .stop,
      ⟨(World.twofold content).advanced u [.effect (.drop (Text.along "/" ["incoming", "d"])
        (Text.along "/" (Storage.contentNames (Sha256.hexDigest content) none)))], .fresh⟩) ∧
      (FileTree.twofold content).Moved u "/" [] ["incoming", "d"]
        (Storage.contentNames (Sha256.hexDigest content) none) content := by
  have hhash := isContentHash_hexDigest content
  have hlodges := twofold_lodges content
  have hnew : Document.fresh.hash ≠ Sha256.hexDigest content :=
    fun h => isContentHash_ne_empty hhash h.symm
  have hperform : (FileTree.twofold content).perform
      (.drop (Text.along "/" ["incoming", "d"])
        (Text.along "/" (Storage.contentNames (Sha256.hexDigest content) none))) =
      .ok ((FileTree.twofold content).erase ["incoming", "d"]) := by
    have hremove : (FileTree.twofold content).remove (Text.along "/" ["incoming", "d"]) =
        .ok ((FileTree.twofold content).erase ["incoming", "d"]) :=
      FileTree.remove_eq_ok.mpr ⟨_, _, FileTree.twofold_find_upload content, rfl⟩
    rw [FileTree.perform, hremove]
    rfl
  generalize hdrop : FileEffect.drop (Text.along "/" ["incoming", "d"])
    (Text.along "/" (Storage.contentNames (Sha256.hexDigest content) none)) = drop at hperform
  refine ⟨(FileTree.twofold content).erase ["incoming", "d"], ?_, ?_⟩
  · have hplan := twofold_relocation content
    rw [hdrop] at hplan
    have hcarry := Act.onWorld_carryOut_single (s := .halting)
      (fun t => Surroundings.halting.storage.relocation t .fresh (Sha256.hexDigest content))
      ⟨.twofold content, .fresh⟩ hplan rfl hperform
    have hrun := hash_eq (s := .halting) (w := .twofold content) (d := .fresh) hlodges
    rw [if_neg (Ne.symm hnew)] at hrun
    rw [hrun, Act.bind_of_ok hcarry]
    exact record_of_stop (s := .halting) rfl
  · have hwide : (FileTree.twofold content).Widened (FileTree.twofold content) "/" []
        (Storage.shelfNames (Sha256.hexDigest content)) :=
      ⟨hlodges.rooted, .refl _ _ _, rfl⟩
    have hkept := FileTree.read_eq_ok.mpr ⟨_, FileTree.twofold_find_content content⟩
    rw [← hdrop] at hperform
    exact Storage.moved_of_drop hlodges hhash hnew hwide hkept hperform

theorem twofold_reaches : (World.twofold content).Reaches ⟨"/"⟩ "d" content := by
  have hrow : (World.twofold content).store.documentRow? "d" = some (.ofDocument .fresh) := rfl
  exact World.reaches_of_find hrow (Storage.documentPath_waiting _ rfl)
    (FileTree.twofold_find_upload content)

theorem twofold_kept (path : String)
    (hpath : Surroundings.halting.storage.contentPath (Sha256.hexDigest content)
      Document.fresh.extension? = .ok path)
    (_hexists : (World.twofold content).files.exists? path = true) :
    (World.twofold content).files.read path = .ok content := by
  have htarget := Surroundings.halting.storage.contentPath_eq
    (isContentHash_hexDigest content) none
  have hnone : Document.fresh.extension? = none := by decide
  rw [hnone, htarget] at hpath
  cases hpath
  exact FileTree.read_eq_ok.mpr ⟨_, FileTree.twofold_find_content content⟩

/-- The statement, for an upload whose content is kept already, by a process that stops after its
first moment. -/
theorem hash_reaches_unless_cut_twofold :
    ∃ since, (hash .halting ⟨.twofold ⟨#[97, 98, 99]⟩, .fresh⟩).2.world.moments = since ++ [] ∧
      ((hash .halting ⟨.twofold ⟨#[97, 98, 99]⟩, .fresh⟩).2.world.Reaches ⟨"/"⟩ "d"
          ⟨#[97, 98, 99]⟩ ↔
        ¬ Cut since (hash .halting ⟨.twofold ⟨#[97, 98, 99]⟩, .fresh⟩).1) ∧
      (¬ Cut since (hash .halting ⟨.twofold ⟨#[97, 98, 99]⟩, .fresh⟩).1 →
        Resumes .halting (hash .halting ⟨.twofold ⟨#[97, 98, 99]⟩, .fresh⟩).2.world "d"
          ⟨#[97, 98, 99]⟩) ∧
      (Cut since (hash .halting ⟨.twofold ⟨#[97, 98, 99]⟩, .fresh⟩).1 →
        Stranded .halting (hash .halting ⟨.twofold ⟨#[97, 98, 99]⟩, .fresh⟩).2.world .fresh
          ⟨#[97, 98, 99]⟩) := by
  exact hash_reaches_unless_cut (fun _ _ => rfl) (FileTree.twofold_rooted _)
    ⟨by decide, by decide⟩ rfl (twofold_reaches _) (twofold_kept _)

/-- The row leads to the upload before the step, and nowhere once the process has stopped between
the two changes. -/
theorem hash_halting_unreached :
    (World.twofold content).Reaches ⟨"/"⟩ "d" content ∧
      (hash .halting ⟨.twofold content, .fresh⟩).1 = .error .stop ∧
      ¬ (hash .halting ⟨.twofold content, .fresh⟩).2.world.Reaches ⟨"/"⟩ "d" content := by
  obtain ⟨u, hrun, hmoved⟩ := hash_halting content
  rw [hrun]
  refine ⟨twofold_reaches content, rfl, ?_⟩
  rintro ⟨row, path, hrow, hpath, hread⟩
  have hfirst : row = .ofDocument .fresh := (Option.some.inj hrow).symm
  subst hfirst
  have hwaiting : DocumentRow.path (.ofDocument .fresh) ⟨"/"⟩ =
      .ok (Text.along "/" ["incoming", "d"]) := Storage.documentPath_waiting _ rfl
  rw [hwaiting] at hpath
  cases hpath
  obtain ⟨fault, hunread⟩ := hmoved.read_eq_error (twofold_lodges content).isName
  have hfiles : u.read (Text.along "/" ["incoming", "d"]) = .ok content := hread
  rw [hfiles] at hunread
  cases hunread

theorem hash_halting_unreached_abc :
    (World.twofold ⟨#[97, 98, 99]⟩).Reaches ⟨"/"⟩ "d" ⟨#[97, 98, 99]⟩ ∧
      (hash .halting ⟨.twofold ⟨#[97, 98, 99]⟩, .fresh⟩).1 = .error .stop ∧
      ¬ (hash .halting ⟨.twofold ⟨#[97, 98, 99]⟩, .fresh⟩).2.world.Reaches ⟨"/"⟩ "d"
        ⟨#[97, 98, 99]⟩ := hash_halting_unreached _

end Handler

end Docket
