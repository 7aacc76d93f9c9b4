/-!
The steps that a document passes through, and the state of the jobs that stand for them.
-/

namespace Docket

/-- A step of the pipeline. -/
inductive Step where
  | hash
  | thumbnail
  | parseContent
  | detectLanguage
  | rules
  | ftsIndex
deriving DecidableEq, Repr, Inhabited

namespace Step

/-- All steps in the order in which they run. -/
def all : List Step := [.hash, .thumbnail, .parseContent, .detectLanguage, .rules, .ftsIndex]

/-- The place of a step in the order. -/
def position : Step → Nat
  | .hash => 0
  | .thumbnail => 1
  | .parseContent => 2
  | .detectLanguage => 3
  | .rules => 4
  | .ftsIndex => 5

def name : Step → String
  | .hash => "hash"
  | .thumbnail => "thumbnail"
  | .parseContent => "parse_content"
  | .detectLanguage => "detect_language"
  | .rules => "rules"
  | .ftsIndex => "fts_index"

def ofName? (name : String) : Option Step := all.find? (·.name = name)

def unknownMessage (name : String) : String := "unknown process step '" ++ name ++ "'"

/-- Whether a document cannot go on without a step. A mandatory step that fails is tried again; the
outcome of any other step is final. -/
def mandatory : Step → Bool
  | .hash | .parseContent => true
  | _ => false

/-- A step and all steps behind it. -/
def onward (s : Step) : List Step := all.drop s.position

end Step

/-- The state of a job. -/
inductive JobStatus where
  | pending
  | running
  | finished
  | failed
deriving DecidableEq, Repr, Inhabited

namespace JobStatus

def name : JobStatus → String
  | .pending => "pending"
  | .running => "running"
  | .finished => "finished"
  | .failed => "failed"

def ofName? : String → Option JobStatus
  | "pending" => some .pending
  | "running" => some .running
  | "finished" => some .finished
  | "failed" => some .failed
  | _ => none

def unknownMessage (name : String) : String := "unknown job status '" ++ name ++ "'"

end JobStatus

end Docket
