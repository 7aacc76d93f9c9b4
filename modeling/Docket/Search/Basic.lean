import Docket.Config.Basic
import Docket.Document.Basic
import Docket.Json.Value

/-!
Publishing documents to a search service.
-/

namespace Docket

open Docket.Calendar (Date Instant)

/-- Seconds from the start of 1970. A leap second counts like the second before it. -/
def Calendar.Instant.unixSeconds (t : Instant) : Int :=
  (t.date.dayNumber - Date.epoch.dayNumber) * 86400 + t.second

/-- A document as it is published. -/
structure SearchDocument where
  id : String
  userId : Int
  name : String
  description : String
  content : String
  filename : String
  mimetype : String
  lang : String
  /-- Seconds from the start of 1970. -/
  date : Int
  /-- Keys and values, with a colon between them. -/
  metadata : List String
  tags : List String
deriving DecidableEq, Repr, Inhabited

namespace SearchDocument

/-- What is published of a document. -/
def ofDocument (d : Document) : SearchDocument where
  id := d.id
  userId := d.userId
  name := d.name
  description := d.description
  content := d.content
  filename := d.filename
  mimetype := d.mimetype
  lang := d.lang
  date := d.date.unixSeconds
  metadata := d.entries.map fun e => e.key ++ ":" ++ e.value
  tags := (d.tags.getD []).map (·.key)

def toJson (s : SearchDocument) : Json := .obj [
  ("id", .str s.id),
  ("user_id", .int s.userId),
  ("name", .str s.name),
  ("description", .str s.description),
  ("content", .str s.content),
  ("filename", .str s.filename),
  ("mimetype", .str s.mimetype),
  ("lang", .str s.lang),
  ("date", .int s.date),
  ("metadata", .arr (s.metadata.map .str)),
  ("tags", .arr (s.tags.map .str))]

end SearchDocument

/-- Why documents were not published. -/
inductive SearchError where
  /-- No connection to the service at an address. -/
  | connection (address : String)
  /-- The request could not be made. -/
  | request
  | rejected (status : Nat) (body : String)
deriving DecidableEq, Repr

def SearchError.message : SearchError → String
  | .connection address => "Cannot reach search service at " ++ address
  | .request => "Search request failed: "
  | .rejected status body => "Search service returned " ++ toString status ++ ": " ++ body

/-- What a service does with a request: it cannot be reached, or it answers with a status. -/
inductive ServiceReply where
  | unreachable
  | status (code : Nat) (body : String)
deriving DecidableEq, Repr

/-- A search service that is reached over the network. -/
structure SearchService where
  address : String
  index : String
  apiKey : Option String
deriving DecidableEq, Repr

namespace SearchService

def dropSlashes (address : String) : String :=
  String.ofList ((address.toList.reverse.dropWhile (· = '/')).reverse)

/-- The service that settings describe. An empty key counts as none. -/
def ofSettings (s : SearchSettings) : SearchService where
  address := dropSlashes s.url
  index := s.index
  apiKey := s.apiKey.filter (!·.isEmpty)

/-- Where documents are sent to. -/
def endpoint (s : SearchService) : String :=
  s.address ++ "/indexes/" ++ s.index ++ "/documents?primaryKey=id"

/-- The number of a socket: digits that make less than 65536, or nothing. -/
def isSocketNumber (s : List Char) : Bool :=
  s.all Char.isDigit && s.foldl (fun n c => n * 10 + (c.toNat - '0'.toNat)) 0 < 65536

def isForbiddenInHost (c : Char) : Bool :=
  c.toNat ≤ 0x20 || c.toNat = 0x7F || "#%/:<>?@[\\]^|".toList.contains c

/-- Whether an address is one of a web service: a scheme, a host and perhaps the
number of a socket. -/
def isWebAddress (address : String) : Bool :=
  let lower := String.ofList (address.toList.map Char.toLower)
  let rest? :=
    if Text.startsWith lower "http://" then some (address.toList.drop 7)
    else if Text.startsWith lower "https://" then some (address.toList.drop 8)
    else none
  match rest? with
  | none => false
  | some rest =>
    let authority := (rest.dropWhile (· = '/')).takeWhile fun c => c ≠ '/' && c ≠ '?' && c ≠ '#'
    let host := (Text.behindLast? '@' authority).getD authority
    let name := host.takeWhile (· ≠ ':')
    let number := (host.dropWhile (· ≠ ':')).drop 1
    !name.isEmpty && !name.any isForbiddenInHost && isSocketNumber number

/-- Whether a key may stand in the header of a request. -/
def isHeaderText (s : String) : Bool :=
  s.toList.all fun c => c = '\t' || (0x20 ≤ c.toNat && c.toNat ≠ 0x7F)

/-- Publish documents, given what the service does with a request. Where there is nothing to publish
no request is made. -/
def publish (s : SearchService) (reply : ServiceReply) (documents : List Document) :
    Except SearchError Unit :=
  if documents.isEmpty then .ok ()
  else if !isWebAddress s.address || !s.apiKey.all isHeaderText then .error .request
  else match reply with
    | .unreachable => .error (.connection s.address)
    | .status code body => if 200 ≤ code ∧ code < 300 then .ok () else .error (.rejected code body)

end SearchService

end Docket
