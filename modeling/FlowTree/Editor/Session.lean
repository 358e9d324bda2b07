import FlowTree.Editor.Highlight
import FlowTree.Editor.Location
import FlowTree.Editor.Symbol
import FlowTree.Files

/-!
Sessions with an editor: the documents that are open, what an editor asks and tells, and what it is
answered and told. A document that was never opened is read from its file when it is asked about, and
kept from then on.
-/

namespace FlowTree.Editor

/-- A change that an editor tells of: a new text for the whole document, or a change of some other form,
which is not followed. -/
inductive Change where
  | whole (text : Text)
  | other
  deriving DecidableEq, Repr

/-- What an editor asks or tells. -/
inductive Request where
  /-- The session begins; the editor asks what it can ask. -/
  | begin
  /-- Something that needs no answer and changes nothing. -/
  | notice
  | opened (uri : String) (text : Text)
  | changed (uri : String) (changes : List Change)
  | closed (uri : String)
  | symbols (uri : String)
  | highlights (uri : String)
  deriving DecidableEq, Repr

/-- What an editor is answered. -/
inductive Reply where
  | nothing
  /-- What the session can do. -/
  | capabilities (name version : String)
  | symbols (symbols : List Symbol)
  | highlights (numbers : List UInt32)

/-- What an editor is told of a document: its diagnostics, in place of those before. -/
structure Publication where
  uri : String
  findings : List Finding
  deriving DecidableEq, Repr

/-- Why a request fails. -/
inductive SessionError where
  /-- The URI cannot be used. -/
  | location (message : String)
  /-- The URI of a document to analyse cannot be used. -/
  | analysis (message : String)
  | file (path : Text) (e : FileError)
  deriving DecidableEq, Repr

/-- The error in words. -/
def SessionError.message : SessionError → Text
  | .location message => .ofString message
  | .analysis message => .ofString ("failed to analyze document: " ++ message)
  | .file path e =>
    .ofString "failed to read file " ++ path ++ .ofString (": " ++ e.readAction ++ " ") ++ path ++
      .ofString (": " ++ e.reason)

/-- A session: who serves it, and the documents it knows by their URIs. -/
structure Session where
  name : String
  version : String
  documents : List (String × Document) := []

/-- How a request is dealt with. -/
structure Outcome where
  session : Session
  reply : Except SessionError Reply := .ok .nothing
  published : List Publication := []

namespace Session

/-- The document of a URI, if the session knows it. -/
def document? (s : Session) (uri : String) : Option Document := s.documents.lookup uri

/-- Keep a document in place of the one that its URI had. -/
def put (s : Session) (d : Document) : Session :=
  { s with documents := (d.uri, d) :: s.documents.filter (·.1 ≠ d.uri) }

/-- Forget the document of a URI. -/
def forget (s : Session) (uri : String) : Session :=
  { s with documents := s.documents.filter (·.1 ≠ uri) }

/-- The diagnostics of a document, to publish. -/
def publication (d : Document) : Publication := ⟨d.uri, d.diagnostics.map Finding.ofDiagnostic⟩

/-- Take a new text for a document. -/
def update (s : Session) (uri : String) (text : Text) : Outcome :=
  match pathOfUri uri with
  | .error message => { session := s, reply := .error (.analysis message) }
  | .ok path =>
    let d := Document.analyze uri path text
    { session := s.put d, published := [publication d] }

/-- The last change of the whole text, if there is one. -/
def lastWhole? (changes : List Change) : Option Text :=
  changes.reverse.findSome? fun
    | .whole text => some text
    | .other => none

/-- Answer from a document, which is read from its file if the session does not know it. -/
def answer (disk : Text → Except FileError Text) (s : Session) (uri : String) (reply : Document → Reply) :
    Outcome :=
  match s.document? uri with
  | some d => { session := s, reply := .ok (reply d) }
  | none =>
    match pathOfUri uri with
    | .error message => { session := s, reply := .error (.location message) }
    | .ok path =>
      match disk path with
      | .error e => { session := s, reply := .error (.file path e) }
      | .ok text =>
        let d := Document.analyze uri path text
        { session := s.put d, reply := .ok (reply d), published := [publication d] }

/-- Deal with a request, the files being as `disk` says. -/
def handle (disk : Text → Except FileError Text) (s : Session) : Request → Outcome
  | .begin => { session := s, reply := .ok (.capabilities s.name s.version) }
  | .notice => { session := s }
  | .opened uri text => s.update uri text
  | .changed uri changes =>
    -- Each whole text replaces what came before, so only the last one counts.
    match lastWhole? changes with
    | some text => s.update uri text
    | none => { session := s }
  | .closed uri => { session := s.forget uri, published := [⟨uri, []⟩] }
  | .symbols uri => s.answer disk uri fun d => .symbols d.symbols
  | .highlights uri => s.answer disk uri fun d =>
    .highlights (encodeHighlights {} ((d.program?.map FlowTree.Editor.highlights).getD []))

end Session

/-! ### Messages as data -/

/-- A reply as data. Highlights without numbers have no list of them. -/
def Reply.toData : Reply → Data
  | .nothing => .null
  | .capabilities name version => .record [
      ("capabilities", .record [
        ("textDocumentSync", .record [("openClose", .bool true), ("change", .int 1)]),
        ("documentSymbolProvider", .bool true),
        ("semanticTokensProvider", .record [
          ("legend", .record [
            ("tokenTypes", .strings (TokenKind.legend.map (·.2))), ("tokenModifiers", .strings modifierLegend)]),
          ("full", .bool true)])]),
      ("serverInfo", .record [("name", .str name), ("version", .str version)])]
  | .symbols found => .list (found.map Symbol.toData)
  | .highlights numbers => .record [
      ("data", if numbers.isEmpty then .noList else .list (numbers.map fun n => .int n.toNat))]

/-- The method by which diagnostics are published. -/
def Publication.method : String := "textDocument/publishDiagnostics"

def Publication.toData (p : Publication) : Data :=
  .record [("uri", .str p.uri), ("diagnostics", .list (p.findings.map Finding.toData))]

end FlowTree.Editor
