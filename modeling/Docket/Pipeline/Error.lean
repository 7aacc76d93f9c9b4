import Docket.Extract.Error
import Docket.Search.Basic
import Docket.Storage.Basic
import Docket.Store.Error

/-!
Why a step of the pipeline, or the whole of it, breaks off.
-/

namespace Docket

/-- Why work on a document breaks off. -/
inductive PipelineError where
  | extract (e : ExtractError)
  | storage (e : StorageError)
  | store (e : StoreError)
  | search (e : SearchError)
  /-- There is no directory for files that are made on the way. -/
  | noScratch (path : String) (fault : FileFault)
deriving DecidableEq, Repr

/-- The wording of an error, as the job of a step keeps it. -/
def PipelineError.message : PipelineError → String
  | .extract e => e.message
  | .storage e => e.message
  | .store e => e.message
  | .search e => "Search index update failed: " ++ e.message
  | .noScratch path fault => "Failed to create scratch directory under '" ++ path ++ "': " ++ fault.message

end Docket
