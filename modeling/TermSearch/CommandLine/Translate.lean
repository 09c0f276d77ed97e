import TermSearch.CommandLine.Surroundings
import TermSearch.Document.Printer

namespace TermSearch.CommandLine

/-! The commands on queries: one prints the document of a query, the other also
what lies between the query and its document. -/

def addQuery (translator : Translator) (connective : Connective)
    (query : SearchQuery) (text : String) : Transcript SearchQuery := do
  match connective with
  | .all =>
      .record .debug ("adding must query " ++ Text.quoted text)
      let other ← Transcript.query translator text
      pure (query.addMust other.root)
  | .any =>
      .record .debug ("adding should query " ++ Text.quoted text)
      let other ← Transcript.query translator text
      pure (query.addShould other.root)

/-- All required queries are added before the alternative ones. -/
def TranslateRequest.build (request : TranslateRequest)
    (translator : Translator) (text : String) : Transcript SearchQuery := do
  let query ← Transcript.query translator text
  let query ← request.must.foldlM (addQuery translator .all) query
  request.should.foldlM (addQuery translator .any) query

def TranslateRequest.run (request : TranslateRequest)
    (surroundings : Surroundings) : Transcript Unit := do
  let config ← surroundings.config
  let (text, translator) ← Transcript.request surroundings config request.query
  let query ← request.build translator text
  let document ← Transcript.document query
  .print
    ((if request.compact then document.compact else document.pretty) ++ "\n")

def printSection (title text : String) : Transcript Unit :=
  .print (title ++ "\n" ++ Text.indentBlock text ++ "\n")

/-- Each step is printed as soon as it succeeds. -/
def QueryRequest.inspect (request : QueryRequest)
    (surroundings : Surroundings) : Transcript Unit := do
  let config ← surroundings.config
  let (text, translator) ← Transcript.request surroundings config request
  let tree ← Transcript.tree text
  printSection "Syntax tree:" tree.display
  .print "\n"
  let query ← Transcript.simplified translator tree
  printSection "Query:" query.display
  .print "\n"
  let document ← Transcript.document query
  printSection "Document:" document.pretty

end TermSearch.CommandLine
