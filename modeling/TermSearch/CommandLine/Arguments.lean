import TermSearch.CommandLine.Invocation

namespace TermSearch.CommandLine

/-! The arguments of the command line. Options come before or after the words
that they apply to. A long option has its value after an equals sign or as the
next argument, a short one also directly behind its letter, and letters of
options without a value can share an argument. After a lone `--` everything is a
word. -/

inductive Flag where
  | verbose
  | field
  | offset
  | size
  | must
  | should
  | compact
  | global
  | force
  deriving DecidableEq, Repr

namespace Flag

def name : Flag → String
  | .verbose => "verbose"
  | .field => "field"
  | .offset => "from"
  | .size => "size"
  | .must => "must"
  | .should => "should"
  | .compact => "compact"
  | .global => "global"
  | .force => "force"

def letter? : Flag → Option Char
  | .verbose => some 'v'
  | .field => some 'f'
  | _ => none

def takesValue : Flag → Bool
  | .field | .offset | .size | .must | .should => true
  | .verbose | .compact | .global | .force => false

def repeats : Flag → Bool
  | .verbose | .field | .must | .should => true
  | .offset | .size | .compact | .global | .force => false

end Flag

inductive Verb where
  | translate
  | inspect
  | init
  | config
  deriving DecidableEq, Repr

namespace Verb

def ofName? : String → Option Verb
  | "translate" => some .translate
  | "inspect" => some .inspect
  | "init" => some .init
  | "config" => some .config
  | _ => none

def flags : Verb → List Flag
  | .translate => [.verbose, .field, .offset, .size, .must, .should, .compact]
  | .inspect => [.verbose, .field, .offset, .size]
  | .init => [.verbose, .global, .force]
  | .config => [.verbose]

def takesWords : Verb → Bool
  | .translate | .inspect => true
  | .init | .config => false

end Verb

inductive Argument where
  | word (text : String)
  /-- Without a value the text is empty. -/
  | option (flag : Flag) (value : String)
  deriving DecidableEq, Repr

/-- The options of an argument, and the one among them that waits for its
value. -/
structure Options where
  complete : List Argument
  pending : Option Flag

namespace Options

def alone (flag : Flag) : Options :=
  if flag.takesValue then ⟨[], some flag⟩ else ⟨[.option flag ""], none⟩

def ofLong? (flags : List Flag) (text : List Char) : Option Options := do
  let flag ← flags.find? fun flag => flag.name.toList = text.takeWhile (· ≠ '=')
  match text.dropWhile (· ≠ '=') with
  | [] => pure (alone flag)
  | _ :: value =>
      if flag.takesValue then
        pure ⟨[.option flag (String.ofList value)], none⟩
      else
        none

def ofShort? (flags : List Flag) : List Char → Option Options
  | [] => some ⟨[], none⟩
  | letter :: rest => do
      let flag ← flags.find? fun flag => flag.letter? = some letter
      if flag.takesValue then
        match rest with
        | [] => pure ⟨[], some flag⟩
        | '=' :: value | value =>
            pure ⟨[.option flag (String.ofList value)], none⟩
      else
        let others ← ofShort? flags rest
        pure { others with complete := .option flag "" :: others.complete }

def ofArgument? (flags : List Flag) (argument : String) : Option Options :=
  match argument.toList with
  | '-' :: '-' :: text => ofLong? flags text
  | '-' :: letter :: letters => ofShort? flags (letter :: letters)
  | _ => some ⟨[.word argument], none⟩

end Options

/-- No argument that would be read as an option is the value of another one. -/
def isValue (argument : String) : Bool :=
  argument = "-" || argument.toList.head? ≠ some '-'

def readArguments? (flags : List Flag) :
    Option Flag → List String → Option (List Argument)
  | none, [] => some []
  | some _, [] => none
  | some flag, value :: rest =>
      if isValue value then
        (readArguments? flags none rest).map fun more =>
          .option flag value :: more
      else
        none
  | none, argument :: rest =>
      if argument = "--" then
        some (rest.map .word)
      else do
        let options ← Options.ofArgument? flags argument
        (readArguments? flags options.pending rest).map fun more =>
          options.complete ++ more

namespace Argument

def words (arguments : List Argument) : List String :=
  arguments.filterMap fun
    | .word text => some text
    | .option _ _ => none

def values (arguments : List Argument) (flag : Flag) : List String :=
  arguments.filterMap fun
    | .option other value => if other = flag then some value else none
    | .word _ => none

def isGiven (arguments : List Argument) (flag : Flag) : Bool :=
  !(values arguments flag).isEmpty

def areUnrepeated (arguments : List Argument) (flags : List Flag) : Bool :=
  flags.all fun flag => flag.repeats || (values arguments flag).length ≤ 1

end Argument

def readNatural? (text : String) : Option UInt64 :=
  let digits := match text.toList with
    | '+' :: digits | digits => digits
  if !digits.isEmpty && digits.all Char.isDigit then
    let value :=
      digits.foldl (fun value digit => 10 * value + (digit.toNat - '0'.toNat)) 0
    if value < UInt64.size then some value.toUInt64 else none
  else
    none

def naturalOption? (arguments : List Argument) (flag : Flag) :
    Option (Option UInt64) :=
  match Argument.values arguments flag with
  | [] => some none
  | value :: _ => (readNatural? value).map some

def QueryRequest.ofArguments? (arguments : List Argument) :
    Option QueryRequest := do
  let offset ← naturalOption? arguments .offset
  let size ← naturalOption? arguments .size
  pure
    ⟨Argument.words arguments, Argument.values arguments .field, offset, size⟩

namespace Command

def ofArguments? (verb : Verb) (arguments : List Argument) : Option Command :=
  match verb with
  | .translate => do
      let query ← QueryRequest.ofArguments? arguments
      pure (.translate ⟨query, Argument.values arguments .must,
        Argument.values arguments .should, Argument.isGiven arguments .compact⟩)
  | .inspect => (QueryRequest.ofArguments? arguments).map .inspect
  | .init =>
      some (.init ⟨Argument.isGiven arguments .global,
        Argument.isGiven arguments .force⟩)
  | .config => some .config

end Command

namespace Invocation

/-- A verb and what follows it. A longer log asked for here replaces one asked
for before the verb. -/
def ofVerb? (verbosity : Nat) (verb : Verb) (rest : List String) :
    Option Invocation := do
  let arguments ← readArguments? verb.flags none rest
  if Argument.areUnrepeated arguments verb.flags &&
      (verb.takesWords || (Argument.words arguments).isEmpty) then
    let command ← Command.ofArguments? verb arguments
    let count := (Argument.values arguments .verbose).length
    pure ⟨if count = 0 then verbosity else count, command⟩
  else
    none

/-- The first word is the verb; before it only a longer log can be asked for. -/
def read? (verbosity : Nat) : List String → Option Invocation
  | [] => none
  | argument :: rest =>
      if isValue argument then
        (Verb.ofName? argument).bind fun verb => ofVerb? verbosity verb rest
      else do
        let options ← Options.ofArgument? [.verbose] argument
        read? (verbosity + options.complete.length) rest

def ofArguments? (arguments : List String) : Option Invocation :=
  read? 0 arguments

end Invocation

end TermSearch.CommandLine
