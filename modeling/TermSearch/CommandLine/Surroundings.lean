import TermSearch.CommandLine.Invocation
import TermSearch.CommandLine.Transcript
import TermSearch.Text.Quoted

namespace TermSearch

open Terminal (LogEntry)

/-! What a command finds around it, and what the commands have in common: the
configuration of the directory, the text of the query, and the steps that lead
from that text to a query. -/

namespace ConfigError

def path : ConfigError → Path
  | .unreadable path _ => path
  | .unusable path _ => path

end ConfigError

namespace Discovery

def loading (path : Path) : LogEntry := ⟨.debug, "loading config " ++ path.text⟩

def endingLog (directory : Path) (discovery : Discovery) : List LogEntry :=
  match discovery.ending with
  | .atRoot =>
      (discovery.files.getLast?.map fun file =>
        ⟨.debug,
          file.path.text ++ " is a root config; skipping parents"⟩).toList
  | .complete =>
      [⟨.debug, "discovered " ++ toString discovery.files.length ++
        " config file(s) from " ++ directory.text⟩]
  | .broken error => [loading error.path]

def log (directory : Path) (discovery : Discovery) : List LogEntry :=
  (discovery.files.map fun file => loading file.path) ++
    discovery.endingLog directory

end Discovery

namespace CommandLine

structure Surroundings where
  tree : FileTree
  directory : Path
  home : Option Path
  input : ByteArray

namespace Surroundings

def global (surroundings : Surroundings) : Option Path :=
  surroundings.home.map fun home => home.child settingsFileName

def config (surroundings : Surroundings) : Transcript Config :=
  let discovery :=
    Discovery.run surroundings.tree surroundings.directory surroundings.global
  ⟨discovery.log surroundings.directory, "", [],
    (discovery.result.map Config.merge).mapError .configuration⟩

/-- Without the line ending at the end, if there is one. -/
def chomp (text : List Char) : List Char :=
  match text.reverse with
  | '\n' :: '\r' :: rest | '\n' :: rest => rest.reverse
  | _ => text

/-- The text of a query: its words, or without any the input. -/
def queryText (surroundings : Surroundings) (words : List String) :
    Except Failure String :=
  if words.isEmpty then
    match String.fromUTF8? surroundings.input with
    | none => .error .unreadableInput
    | some text => .ok (String.ofList (chomp text.toList))
  else
    .ok (" ".intercalate words)

end Surroundings

namespace Transcript

def warnings (config : Config) : Transcript Unit :=
  ⟨config.warnings.map fun warning => ⟨.warn, warning.text⟩, "", [], .ok ()⟩

def request (surroundings : Surroundings) (config : Config)
    (request : QueryRequest) : Transcript (String × Translator) := do
  let text ← ofResult (surroundings.queryText request.words)
  warnings config
  pure (text, request.translator config)

def tree (text : String) : Transcript SyntaxTree := do
  let tree ← ofResult
      ((SyntaxTree.parse text).mapError fun error => .query (.input error))
  record .trace ("syntax tree:\n" ++ tree.display)
  pure tree

def simplified (translator : Translator) (tree : SyntaxTree) :
    Transcript SearchQuery := do
  let query ← ofResult
      ((tree.toQuery translator.defaultFields).mapError fun violation =>
        .query (.internal violation))
  record .debug
    ("simplified " ++ toString tree.groups.length ++ " query group(s)")
  record .trace ("query:\n" ++ query.display)
  pure (query.withPage translator.page)

def query (translator : Translator) (text : String) :
    Transcript SearchQuery := do
  record .debug ("parsing query " ++ Text.quoted text)
  let tree ← tree text
  simplified translator tree

def document (query : SearchQuery) : Transcript QueryDocument :=
  ofResult (query.eval.mapError fun violation => .query (.internal violation))

theorem result_simplified (translator : Translator) (tree : SyntaxTree) :
    (simplified translator tree).result =
      ((tree.toQuery translator.defaultFields).map
        (·.withPage translator.page)).mapError (.query ∘ .internal) := by
  unfold simplified
  cases tree.toQuery translator.defaultFields <;> rfl

/-- The log aside, reading a query is what its translator does. -/
theorem result_query (translator : Translator) (text : String) :
    (query translator text).result =
      (translator.query text).mapError .query := by
  unfold query tree Translator.query
  cases SyntaxTree.parse text with
  | error error => rfl
  | ok tree =>
      change (simplified translator tree).result = _
      rw [result_simplified]
      dsimp only
      cases tree.toQuery translator.defaultFields <;> rfl

end Transcript

end CommandLine

end TermSearch
