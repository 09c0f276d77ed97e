import TermSearch.Config.Printer
import TermSearch.Terminal.Log

namespace TermSearch.CommandLine

open Terminal (Level LogEntry)

/-! What a command does while it runs: it makes entries in the log, prints text
and writes files, and in the end it has a value or the reason why there is
none. -/

inductive Failure where
  | configuration (error : ConfigError)
  | noHome
  | unreadableInput
  | query (error : QueryError)
  | alreadyThere (path : Path)
  | unwritable (path : Path) (failure : FileFailure)
  deriving DecidableEq, Repr

/-- The lines that tell the user. A query that cannot be read is shown with the
rules that were tried. -/
def Failure.report : Failure → String
  | .configuration error =>
      "error: failed to load configuration: " ++ error.display ++ "\n"
  | .noHome => "error: could not determine home directory\n"
  | .unreadableInput =>
      "error: failed to read query from stdin: " ++
        FileFailure.notText.message ++ "\n"
  | .query (.input error) =>
      "error: " ++ error.display ++ "\n\n" ++ error.ruleReport
  | .query (.internal violation) =>
      "error: " ++ (QueryError.internal violation).display ++ "\n"
  | .alreadyThere path =>
      "error: configuration file already exists: " ++ path.text ++
        "\nuse --force to overwrite\n"
  | .unwritable path failure =>
      "error: failed to write " ++ path.text ++ ": " ++ failure.message ++ "\n"

structure Transcript (α : Type) where
  log : List LogEntry
  output : String
  written : List (Path × String)
  result : Except Failure α

namespace Transcript

def ofResult (result : Except Failure α) : Transcript α := ⟨[], "", [], result⟩

def record (level : Level) (text : String) : Transcript Unit :=
  ⟨[⟨level, text⟩], "", [], .ok ()⟩

def print (text : String) : Transcript Unit := ⟨[], text, [], .ok ()⟩

/-- Writes a file into a tree, or fails at what stands in its way there. -/
def write (tree : FileTree) (path : Path) (text : String) : Transcript Unit :=
  match tree.obstacle? path with
  | some failure => ofResult (.error (.unwritable path failure))
  | none => ⟨[], "", [(path, text)], .ok ()⟩

/-- After a failure nothing follows. What was done until then stays done. -/
def andThen (first : Transcript α) (next : α → Transcript β) : Transcript β :=
  match first.result with
  | .error failure => ⟨first.log, first.output, first.written, .error failure⟩
  | .ok value =>
      ⟨first.log ++ (next value).log, first.output ++ (next value).output,
        first.written ++ (next value).written, (next value).result⟩

instance : Monad Transcript where
  pure value := ofResult (.ok value)
  bind := andThen

@[simp] theorem result_pure (value : α) :
    (pure value : Transcript α).result = .ok value := rfl

@[simp] theorem result_ofResult (result : Except Failure α) :
    (ofResult result).result = result := rfl

@[simp] theorem result_record (level : Level) (text : String) :
    (record level text).result = .ok () := rfl

@[simp] theorem result_print (text : String) :
    (print text).result = .ok () := rfl

@[simp] theorem output_print (text : String) : (print text).output = text := rfl

theorem result_bind (first : Transcript α) (next : α → Transcript β) :
    (first >>= next).result =
      first.result.bind fun value => (next value).result := by
  change (andThen first next).result = _
  unfold andThen Except.bind
  cases first.result <;> rfl

theorem written_bind (first : Transcript α) (next : α → Transcript β) :
    (first >>= next).written =
      first.written ++ match first.result with
        | .error _ => []
        | .ok value => (next value).written := by
  change (andThen first next).written = _
  unfold andThen
  cases first.result <;> simp

theorem output_bind (first : Transcript α) (next : α → Transcript β) :
    (first >>= next).output =
      first.output ++ match first.result with
        | .error _ => ""
        | .ok value => (next value).output := by
  change (andThen first next).output = _
  unfold andThen
  cases first.result <;> simp

end Transcript

end TermSearch.CommandLine
