import Docket.Extract.Extractor
import Docket.Interruption
import Docket.Pipeline.Error
import Docket.Pipeline.Event
import Docket.Rule.Evaluate
import Docket.Rule.AutoMatch
import Docket.Store.Jobs
import Docket.Store.Metadata
import Docket.Store.Rules

/-!
What the pipeline works on and what surrounds it.

A moment is a call of the store or an effect on files; each happens as a whole.  Before a moment the
process may stop, others may write to the store, and the store may refuse the call.  What surrounds
the pipeline decides all three from the moments so far, so that a run is determined by its
surroundings and the world it starts in.
-/

namespace Docket

open Docket.Calendar (Instant)

/-- A call of the store. -/
inductive StoreCall where
  | getDocument (id : String)
  | pendingSteps (id : String)
  | startJob (id : String) (step : Step)
  | finishJob (id : String) (step : Step) (message : Option String)
  | requeueJob (id : String) (step : Step)
  | clearJob (id : String) (step : Step)
  | cancelJobs (id : String)
  | setStatus (id : String) (status : DocumentStatus)
  | setContent (id content : String)
  | updateDocument (d : Document)
  | updateWithEntries (d : Document)
  | activeRules (userId : Int)
  | documentEntries (id : String)
  | autoMatchValues (userId : Int)
  | documentTags (id : String)
deriving DecidableEq, Repr

/-- The store after a call that is carried out. A call that only asks for something changes nothing. -/
def StoreCall.perform (c : StoreCall) (now : Instant) (s : Store) : Except StoreError Store :=
  match c with
  | .startJob id step => .ok (s.startJob id step now)
  | .finishJob id step message => .ok (s.finishJob id step message.isNone message now)
  | .requeueJob id step => .ok (s.requeueJob id step)
  | .clearJob id step => .ok (s.clearJob id step)
  | .cancelJobs id => .ok (s.deleteJobs id).2
  | .setStatus id status => Store.orNoDocument id (s.setStatus id status now)
  | .setContent id content => Store.orNoDocument id (s.setContent id content now)
  | .updateDocument d => Store.orNoDocument d.id (s.updateDocument d now)
  | .updateWithEntries d => do
    let r ← s.updateWithEntries d (d.entries.map Entry.ids) now
    Store.orNoDocument d.id r
  | .getDocument _ | .pendingSteps _ | .activeRules _ | .documentEntries _ | .autoMatchValues _
  | .documentTags _ => .ok s

/-- What happens as a whole. -/
inductive Moment where
  | call (c : StoreCall)
  | effect (e : FileEffect)
deriving DecidableEq, Repr

/-- What the pipeline works on, and what others can see of it. -/
structure World where
  store : Store
  files : FileTree
  /-- The calls of programs so far, the last first. -/
  toolCalls : List ToolCall := []
  /-- The events that were reported, the last first. -/
  events : List Event := []
  /-- The texts whose language was asked for, the last first. -/
  samples : List String := []
  /-- The documents that were handed to the search index, the last first. -/
  offered : List Document := []
  /-- The moments so far, the last first. -/
  moments : List Moment := []

/-- What surrounds the pipeline. -/
structure Surroundings where
  storage : Storage
  machine : Machine
  pageTools : PageTools
  extractors : List Extractor
  registry : Registry := .builtin
  language : LanguageSettings := {}
  thumbnailWidth : Nat := 300
  /-- The directory for files that are made on the way. -/
  scratch : String
  /-- The language of a text, if it can be told. -/
  identify : String → Option String
  /-- What the search index answers to a document. -/
  search : Document → Except SearchError Unit := fun _ => .ok ()
  /-- The time at the next moment. -/
  clock : List Moment → Instant
  /-- What others write to the store before a call. -/
  others : List Moment → Store → Store := fun _ s => s
  /-- Why the store refuses a call, if it does. -/
  refuses : List Moment → StoreCall → Option StoreError := fun _ _ => none
  /-- Whether the process stops before the next moment. -/
  stops : List Moment → Bool := fun _ => false

/-- Work on a state that contains a world, in given surroundings. What was done before an
interruption stays done. -/
def Act (σ α : Type) : Type := Surroundings → σ → Except (Interruption PipelineError) α × σ

namespace Act

variable {σ α : Type}

instance : Monad (Act σ) where
  pure a := fun _ w => (.ok a, w)
  bind x f := fun s w =>
    match x s w with
    | (.ok a, w) => f a s w
    | (.error i, w) => (.error i, w)

/-- Break off. -/
def interrupt (i : Interruption PipelineError) : Act σ α := fun _ w => (.error i, w)

def fail (e : PipelineError) : Act σ α := interrupt (.error e)

/-- Take the result of something that may have failed. -/
def ofExcept {ε : Type} (wrap : ε → PipelineError) : Except ε α → Act σ α
  | .ok a => pure a
  | .error e => fail (wrap e)

def surroundings : Act σ Surroundings := fun s w => (.ok s, w)

def state : Act σ σ := fun _ w => (.ok w, w)

def change (f : σ → σ) : Act σ Unit := fun _ w => (.ok (), f w)

/-- What becomes of work that may end with an error, which is then known. A panic and the end of the
process remain what they are. -/
def attempt (x : Act σ α) : Act σ (Except PipelineError α) := fun s w =>
  match x s w with
  | (.ok a, w) => (.ok (.ok a), w)
  | (.error (.error e), w) => (.ok (.error e), w)
  | (.error i, w) => (.error i, w)

/-- Work that is done whatever becomes of other work before it. -/
def followedBy (x : Act σ α) (cleanup : Act σ Unit) : Act σ α := fun s w =>
  match x s w with
  | (.error .stop, w) => (.error .stop, w)
  | (r, w) => (r, (cleanup s w).2)

/-- Work on a world as work on a state that contains it. -/
def within {ρ : Type} (get : ρ → σ) (set : σ → ρ → ρ) (x : Act σ α) : Act ρ α := fun s w =>
  let (r, inner) := x s (get w)
  (r, set inner w)

/-- Call the store. -/
def call (c : StoreCall) (run : Instant → Store → Except StoreError (α × Store)) : Act World α := fun s w =>
  if s.stops w.moments then (.error .stop, w)
  else
    let w := { w with store := s.others w.moments w.store }
    let done := { w with moments := .call c :: w.moments }
    match s.refuses w.moments c with
    | some e => (.error (.error (.store e)), done)
    | none =>
      match run (s.clock w.moments) w.store with
      | .ok (a, store) => (.ok a, { done with store := store })
      | .error e => (.error (.error (.store e)), done)

/-- Call the store for something that changes nothing. -/
def ask (c : StoreCall) (run : Store → Except StoreError α) : Act World α :=
  call c fun _ store => (run store).map (·, store)

/-- Call the store for a change. -/
def tell (c : StoreCall) : Act World Unit :=
  call c fun now store => (c.perform now store).map ((), ·)

def effect (e : FileEffect) : Act World Unit := fun s w =>
  if s.stops w.moments then (.error .stop, w)
  else
    let done := { w with moments := .effect e :: w.moments }
    match w.files.perform e with
    | .ok files => (.ok (), { done with files := files })
    | .error e => (.error (.error (.storage e)), done)

/-- Carry out a plan of effects on files. The answer is the path that the plan is for. -/
def carryOut (plan : FileTree → Except StorageError (List FileEffect × String)) : Act World String := do
  let (effects, path) ← ofExcept .storage (plan (← state).files)
  effects.forM effect
  return path

def extract (x : Extraction α) : Act World α := fun _ w =>
  let (r, b) := x.run.run ⟨w.files, w.toolCalls⟩
  (r.mapError (·.map .extract), { w with files := b.files, toolCalls := b.calls })

def report (e : Event) : Act World Unit := change fun w => { w with events := e :: w.events }

end Act

end Docket
