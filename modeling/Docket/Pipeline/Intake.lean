import Docket.Pipeline.World

/-!
Taking in uploaded documents.
-/

namespace Docket

open Docket.Calendar (Instant)

/-- Record a document, and let its steps wait if it is to be processed. -/
def Store.takeIn (s : Store) (d : Document) (queued : Bool) (now : Instant) : Except StoreError Store := do
  let s ← s.insertDocument d
  if queued then s.queueDocument d.id now else return s

/-- Take in a document: keep its file, which was uploaded to a path, and record it. A document may come
without a file. A file that has been kept stays even if its document cannot be recorded. -/
def World.takeIn (w : World) (s : Storage) (d : Document) (upload : Option String) (queued : Bool)
    (now : Instant) : Except PipelineError Unit × World :=
  let (kept, files) : Except StorageError Document × FileTree := match upload with
    | none => (.ok d, w.files)
    | some path =>
      let (r, files) := s.importFile w.files path d
      (r.map (·.2), files)
  let w := { w with files := files }
  match kept with
  | .error e => (.error (.storage e), w)
  | .ok d =>
    match w.store.takeIn d queued now with
    | .error e => (.error (.store e), w)
    | .ok store => (.ok (), { w with store := store })

end Docket
