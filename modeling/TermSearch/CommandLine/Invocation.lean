import TermSearch.Config.Basic

namespace TermSearch.CommandLine

/-! What a user asks for. -/

/-- A query, and what its options put in place of the configuration. -/
structure QueryRequest where
  /-- Without any words the query is read from the input. -/
  words : List String
  fields : List String
  offset : Option UInt64
  size : Option UInt64
  deriving DecidableEq, Repr

structure TranslateRequest where
  query : QueryRequest
  must : List String
  should : List String
  compact : Bool
  deriving DecidableEq, Repr

structure InitRequest where
  global : Bool
  force : Bool
  deriving DecidableEq, Repr

inductive Command where
  | translate (request : TranslateRequest)
  | inspect (request : QueryRequest)
  | init (request : InitRequest)
  | config
  deriving DecidableEq, Repr

def Command.readsInput : Command → Bool
  | .translate request => request.query.words.isEmpty
  | .inspect request => request.words.isEmpty
  | .init _ | .config => false

structure Invocation where
  verbosity : Nat
  command : Command
  deriving DecidableEq, Repr

/-- The translator of a request: each of its options counts before the
configuration. -/
def QueryRequest.translator (request : QueryRequest) (config : Config) :
    Translator where
  defaultFields :=
    if request.fields.isEmpty then config.defaultFields else request.fields
  page :=
    ⟨request.offset.getD config.page.offset, request.size.getD config.page.size⟩

end TermSearch.CommandLine
