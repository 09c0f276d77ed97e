import TermSearch.CommandLine.Arguments
import TermSearch.CommandLine.Init
import TermSearch.CommandLine.Translate

namespace TermSearch.CommandLine

open Terminal (LogEntry)

/-! A whole run: from arguments and surroundings to what the user sees of it. -/

inductive Status where
  | success
  | failure
  | rejected
  deriving DecidableEq, Repr

def Status.code : Status → Nat
  | .success => 0
  | .failure => 1
  | .rejected => 2

structure Outcome where
  status : Status
  output : String
  /-- The log, and the reason of a failure. -/
  errors : String
  tree : FileTree

def usage : String :=
  Text.unlines
    ["usage: esq [-v]... translate [-f FIELD]... [--from N] [--size N] [--must QUERY]...",
      "                            [--should QUERY]... [--compact] [QUERY]...",
      "       esq [-v]... inspect [-f FIELD]... [--from N] [--size N] [QUERY]...",
      "       esq [-v]... init [--global] [--force]",
      "       esq [-v]... config"]

namespace Transcript

def outcome (transcript : Transcript Unit) (verbosity : Nat)
    (tree : FileTree) : Outcome :=
  let log := LogEntry.showAll verbosity transcript.log
  let after := tree.putAll transcript.written
  match transcript.result with
  | .ok () => ⟨.success, transcript.output, log, after⟩
  | .error failure =>
      ⟨.failure, transcript.output, log ++ failure.report, after⟩

end Transcript

def showConfig (surroundings : Surroundings) : Transcript Unit := do
  let config ← surroundings.config
  .print (config.overview surroundings.global)

def Command.run (command : Command) (surroundings : Surroundings) :
    Transcript Unit :=
  match command with
  | .translate request => request.run surroundings
  | .inspect request => request.inspect surroundings
  | .init request => request.run surroundings
  | .config => showConfig surroundings

def Invocation.execute (invocation : Invocation)
    (surroundings : Surroundings) : Outcome :=
  (invocation.command.run surroundings).outcome invocation.verbosity
    surroundings.tree

def execute (arguments : List String) (surroundings : Surroundings) : Outcome :=
  match Invocation.ofArguments? arguments with
  | none => ⟨.rejected, "", usage, surroundings.tree⟩
  | some invocation => invocation.execute surroundings

end TermSearch.CommandLine
