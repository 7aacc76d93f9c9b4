import Docket.Extract.Preview
import Docket.Pipeline.World
import Docket.Text.Clean

/-!
What each step does with a document.  A step works on the document as it was read when the pass
began, with what the steps before it have changed; that copy is kept apart from the store.
-/

namespace Docket

/-- A world, and a copy of a stored document. -/
structure Desk where
  world : World
  copy : Document

abbrev Handler := Act Desk Unit

namespace Act

/-- Work on the world of a desk. -/
def onWorld {α : Type} (x : Act World α) : Act Desk α := within Desk.world (fun w d => { d with world := w }) x

def copy : Act Desk Document := return (← state).copy

def setCopy (d : Document) : Act Desk Unit := change fun desk => { desk with copy := d }

end Act

namespace Handler

def store (d : Document) : Act Desk Unit := .onWorld (.tell (.updateDocument d))

/-- A document with the hash of its content, and the size of the file that holds it. -/
def rehashed (d : Document) (hash : String) (files : FileTree) (path : String) : Document :=
  { d with hash := hash, size := (Storage.sizeOf? files path).getD d.size }

/-- Name the file of the document by the hash of its content. If that cannot be stored the file goes
back to where it is expected. -/
def hash : Handler := do
  let s ← Act.surroundings
  let d ← Act.copy
  let path ← Act.ofExcept .storage (s.storage.documentPath d)
  let hash ← Act.ofExcept .storage ((← Act.state).world.files.hashFile path)
  if hash = d.hash then return
  else
    let target ← Act.onWorld (Act.carryOut fun t => s.storage.relocation t d hash)
    let moved := rehashed d hash (← Act.state).world.files target
    match ← (store moved).attempt with
    | .ok () => Act.setCopy moved
    | .error e =>
      let _ ← (Act.onWorld (Act.carryOut fun t => s.storage.restoration t d hash)).attempt
      Act.fail e

/-- Make a small picture of the document, if there are such of its kind. -/
def thumbnail (scratch : String) : Handler := do
  let s ← Act.surroundings
  let d ← Act.copy
  if !Preview.supports d.mimetype then return
  else
    let source ← Act.ofExcept .storage (s.storage.documentPath d)
    let target ← Act.ofExcept .storage (s.storage.thumbnailPath d.hash)
    let _ ← Act.onWorld (Act.extract
      (Preview.make s.machine s.pageTools s.thumbnailWidth source d.mimetype target scratch))

def parseContent (scratch : String) : Handler := do
  let s ← Act.surroundings
  let d ← Act.copy
  let path ← Act.ofExcept .storage (s.storage.documentPath d)
  let text ← Act.onWorld (Act.extract (Extractor.extractWith s.extractors path d.mimetype scratch))
  let content := Text.normalize text
  Act.onWorld (.tell (.setContent d.id content))
  Act.setCopy { d with content := content }

/-- The language of a text, if it can be told. That it was asked for is recorded. -/
def identify (sample : String) : Act World (Option String) := do
  let s ← Act.surroundings
  Act.change fun w => { w with samples := sample :: w.samples }
  return s.identify sample

def detectLanguage : Handler := do
  let s ← Act.surroundings
  let d ← Act.copy
  if !s.language.enabled then return
  else
    let sample := Text.cleanSample d.content s.language.maxChars
    if sample.isEmpty then return
    else match ← Act.onWorld (identify sample) with
      | none => return
      | some lang =>
        let spoken := { d with lang := lang }
        Act.setCopy spoken
        store spoken

/-- A document after rules, each of which sees what those before it have made. -/
def applyRules (registry : Registry) (d : Document) (rules : List Rule) : Document :=
  rules.foldl (fun d rule => (registry.evaluate rule d).document) d

/-- Attach values that the content mentions, and apply the rules of the owner. The copy changes only
once all is stored. -/
def rules : Handler := do
  let s ← Act.surroundings
  let d ← Act.copy
  let rules ← Act.onWorld (.ask (.activeRules d.userId) (·.activeRules d.userId))
  let entries ← Act.onWorld (.ask (.documentEntries d.id) fun st => .ok (st.documentEntries d.id))
  let values ← Act.onWorld (.ask (.autoMatchValues d.userId) (·.autoMatchValues d.userId))
  let (matched, _) := ({ d with metadata := some entries } : Document).autoMatch values
  let updated := applyRules s.registry matched rules
  Act.onWorld (.tell (.updateWithEntries updated))
  Act.setCopy updated

/-- Hand a document to the search index. -/
def offer (d : Document) : Act World Unit := do
  let s ← Act.surroundings
  Act.change fun w => { w with offered := d :: w.offered }
  Act.ofExcept .search (s.search d)

/-- Publish the document with its metadata and tags. -/
def ftsIndex : Handler := do
  let d ← Act.copy
  if d.metadata.isNone then
    let entries ← Act.onWorld (.ask (.documentEntries d.id) fun st => .ok (st.documentEntries d.id))
    Act.setCopy { d with metadata := some entries }
  let d ← Act.copy
  if d.tags.isNone then
    let tags ← Act.onWorld (.ask (.documentTags d.id) fun st => .ok (st.documentTags d.id))
    Act.setCopy { d with tags := some tags }
  Act.onWorld (offer (← Act.copy))

def ofStep (scratch : String) : Step → Handler
  | .hash => hash
  | .thumbnail => thumbnail scratch
  | .parseContent => parseContent scratch
  | .detectLanguage => detectLanguage
  | .rules => rules
  | .ftsIndex => ftsIndex

end Handler

end Docket
