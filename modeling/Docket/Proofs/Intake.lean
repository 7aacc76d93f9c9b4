import Docket.Pipeline.Intake
import Docket.Proofs.Relocation

/-!
What taking in a document does: its upload is copied to where it waits, and its row comes
after the others.
-/

namespace Docket

open Docket.Calendar (Instant)

variable {s : Storage} {d : Document} {source : String} {content : ByteArray}

/-- A file that is taken in waits where its document says, and the rest is as before. -/
theorem Storage.importFile_spec {place : Place} {t u : FileTree} {r : String × Document}
    (hrooted : t.Rooted s.root place) (hid : Text.IsStem d.id) (hfresh : d.hash = "")
    (hread : t.read source = .ok content) (hfree : t.contentAt? (place ++ incomingNames d) = none)
    (hok : s.importFile t source d = (.ok r, u)) :
    s.Lodges u place d (incomingNames d) content ∧ t.Spreads u place ["incoming"] ∧
      u.contentAt? = Function.update t.contentAt? (place ++ incomingNames d) (some content) := by
  have htarget : s.incomingPath d = Text.along s.root (incomingNames d) := rfl
  have hne : incomingNames d ≠ [] := by simp [incomingNames]
  unfold importFile at hok
  rw [htarget] at hok
  dsimp only at hok
  split at hok
  · next u' hdone =>
      cases hok
      obtain ⟨v, hstart, hlast⟩ := FileTree.performAll_append_ok hdone
      have hcopy := FileTree.perform_copy_eq_ok.mp (FileTree.performAll_singleton.mp hlast)
      have hnames := isName_incoming hrooted.ne_empty hid (FileTree.endsAsDirectory_of_copy hcopy)
      have hwide := widened_of_prefix hrooted (by simp) hnames (List.prefix_refl _) hstart
      obtain ⟨p, hfind⟩ := FileTree.read_eq_ok.mp hread
      have hcontent := FileTree.contentAt?_of_find hfind
      have helsewhere : p ≠ place ++ incomingNames d := by
        rintro rfl
        rw [hfree] at hcontent
        cases hcontent
      obtain ⟨hlocate, hrooted', hdir, hlookup⟩ := hwide.rooted.copy_spec hnames
        (FileTree.find_of_contentAt? hwide.spreads.keeps hfind (by rw [hwide.contents, hcontent]))
        helsewhere hcopy
      have hspread : v.Spreads u place ["incoming"] := .of_update hdir (by simp) hlookup
      have hfind' : u.find (Text.along s.root (incomingNames d)) =
          .ok (place ++ incomingNames d, .file content) := by
        refine hrooted'.find_of_lookup hnames hne (FileTree.locate_mono hspread.keeps hlocate) ?_
        rw [hlookup]
        exact Function.update_self _ _ _
      refine ⟨⟨hrooted', .inl ⟨hfresh, rfl⟩, hnames, documentPath_waiting s hfresh, hfind'⟩,
        hwide.spreads.trans hspread, ?_⟩
      rw [FileTree.contentAt?_of_lookup hlookup, hwide.contents]
      rfl
  · cases hok

/-- Of a document whose file is imported only the size changes. -/
theorem Storage.kept_of_importFile {t u : FileTree} {path : String} {kept : Document}
    (hok : s.importFile t source d = (.ok (path, kept), u)) :
    ∃ size, kept = { d with size } := by
  unfold importFile at hok
  dsimp only at hok
  split at hok
  · cases hok
    exact ⟨_, rfl⟩
  · cases hok

/-- A document that is taken in is new, and its row comes last. -/
theorem Store.documents_of_takeIn {st st' : Store} {queued : Bool} {now : Instant}
    (h : st.takeIn d queued now = .ok st') :
    st.hasDocument d.id = false ∧ st'.documents = st.documents ++ [.ofDocument d] := by
  cases hhas : st.hasDocument d.id with
  | true =>
      have hinsert : st.insertDocument d = .error (.notUnique "documents" ["id"]) := by
        rw [insertDocument, hhas]
        rfl
      rw [takeIn, hinsert] at h
      cases h
  | false =>
      have hinsert : st.insertDocument d =
          .ok { st with documents := st.documents ++ [.ofDocument d] } := by
        rw [insertDocument, hhas]
        rfl
      have hinserted : Store.hasDocument { st with documents := st.documents ++ [.ofDocument d] }
          d.id = true := by
        simp [hasDocument, DocumentRow.ofDocument]
      rw [takeIn, hinsert] at h
      cases queued with
      | false =>
          cases h
          exact ⟨rfl, rfl⟩
      | true =>
          have hqueue : Store.queueDocument { st with documents := st.documents ++ [.ofDocument d] }
              d.id now = .ok st' := h
          rw [queueDocument, hinserted] at hqueue
          cases hqueue
          exact ⟨rfl, rfl⟩

/-- A document that was taken in has had its file imported and its row stored. -/
theorem World.takeIn_eq_ok {w w' : World} {queued : Bool} {now : Instant}
    (h : w.takeIn s d (some source) queued now = (.ok (), w')) :
    w.store.hasDocument d.id = false ∧
      ∃ path size, s.importFile w.files source d = (.ok (path, { d with size }), w'.files) ∧
        w'.store.documents = w.store.documents ++ [.ofDocument { d with size }] := by
  unfold takeIn at h
  dsimp only at h
  rcases himport : s.importFile w.files source d with ⟨e | ⟨path, kept⟩, files⟩
  · rw [himport] at h
    cases h
  · obtain ⟨size, rfl⟩ := Storage.kept_of_importFile himport
    rw [himport] at h
    dsimp only [Except.map] at h
    cases htake : w.store.takeIn { d with size } queued now with
    | error e =>
        rw [htake] at h
        cases h
    | ok store =>
        obtain ⟨hnew, hdocs⟩ := Store.documents_of_takeIn htake
        rw [htake] at h
        cases h
        exact ⟨hnew, path, size, rfl, hdocs⟩

end Docket
