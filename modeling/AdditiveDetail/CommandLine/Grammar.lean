/-
Reading a command line against a description of it: which options there
are, which of them take a value, and how many plain words may stand among
them.

# When a value is looked at

An option that waits for its value, and a plain word, are held back until
something else settles them: the next option, the next plain word, or the
end. Only then are they checked. So of two things wrong with a command
line the earlier one is reported, save that an unknown option right behind
a bad value is reported first.
-/

namespace AdditiveDetail

namespace CommandLine

/-- What there is help on. -/
inductive Topic where
  | program
  | score
  | info
  | config
  | help
  deriving DecidableEq

/-- Why a command line is not run. -/
inductive UsageError where
  /-- Help is wanted, in its long form or its short one. -/
  | helpAsked (topic : Topic) (isLong : Bool)
  | versionAsked
  | nothingAsked
  | missingCommand
  | unknownCommand
  | unknownArgument
  | missingArgument
  /-- A value that is missing, empty, or not one of those allowed. -/
  | invalidValue
  /-- A value that cannot be read. -/
  | unreadableValue
  /-- A value for an option that takes none. -/
  | superfluousValue
  | repeatedArgument
  deriving DecidableEq

/-- What is wrong with a value, if anything is. -/
abbrev Check := String → Option UsageError

/-- What an option does. -/
inductive Effect where
  | flag
  | value (check : Check)
  | help (topic : Topic)
  | version

structure OptionSpec where
  long : String
  short : Option Char
  effect : Effect

/-- The options and plain words of a command. -/
structure Grammar where
  options : List OptionSpec
  /-- Plain words, by name, in their order. -/
  words : List (String × Check)
  /-- Names that must be given. -/
  required : List String
  /-- Commands of which one may follow. -/
  commands : List String

/-- What has been given: names with their values. A flag has an empty
value. -/
abbrev Given := List (String × String)

/-- Something held back. -/
inductive Pending where
  | nothing
  /-- An option whose value is still to come. -/
  | waiting (name : String)
  | option (name value : String) (check : Check)
  | word (name value : String) (check : Check)

structure State where
  given : Given
  pending : Pending
  /-- How many plain words there have been. -/
  wordCount : Nat
  /-- Whether all that follows is plain words. -/
  wordsOnly : Bool

namespace State

def start : State where
  given := []
  pending := .nothing
  wordCount := 0
  wordsOnly := false

/-- Give a value to an option, which must not have one yet. -/
def give (s : State) (name value : String) (check : Check) :
    Except UsageError State :=
  if (s.given.lookup name).isSome then .error .repeatedArgument
  else
    match check value with
    | some e => .error e
    | none => .ok { s with given := s.given ++ [(name, value)] }

/-- Settle what is held back. -/
def settle (s : State) : Except UsageError State :=
  match s.pending with
  | .nothing => .ok s
  | .waiting _ => .error .invalidValue
  | .option name value check =>
      { s with pending := .nothing }.give name value check
  | .word name value check =>
      { s with pending := .nothing }.give name value check

/-- An option without a value has been met, by its long name or its
letter. -/
def meet (s : State) (o : OptionSpec) (byName : Bool) :
    Except UsageError State := do
  let s ← s.settle
  match o.effect with
  | .flag => s.give o.long "" fun _ => none
  | .value _ => return { s with pending := .waiting o.long }
  | .help topic => throw (.helpAsked topic byName)
  | .version => throw .versionAsked

/-- An option with a value joined to it has been met. -/
def meetJoined (s : State) (o : OptionSpec) (value : String) :
    Except UsageError State :=
  match o.effect with
  | .value check => do (← s.settle).give o.long value check
  | _ => throw .superfluousValue

end State

namespace Grammar

/-- A long option, behind its two hyphens, with or without a value joined
by an equals sign. -/
def readLong (g : Grammar) (s : State) (text : List Char) :
    Except UsageError State :=
  let name := String.ofList (text.takeWhile (· ≠ '='))
  match g.options.find? fun o => o.long = name,
      text.dropWhile (· ≠ '=') with
  | none, _ => throw .unknownArgument
  | some o, [] => s.meet o true
  | some o, _ :: value => s.meetJoined o (String.ofList value)

/-- A cluster of short options, behind its hyphen. What follows an option
that takes a value is its value. -/
def readShort (g : Grammar) (s : State) : List Char → Except UsageError State
  | [] => .ok s
  | c :: rest =>
      match g.options.find? fun o => o.short = some c with
      | none => throw .unknownArgument
      | some o =>
          match o.effect, rest with
          | .value _, [] => s.meet o false
          | .value _, '=' :: value => s.meetJoined o (String.ofList value)
          | .value _, value => s.meetJoined o (String.ofList value)
          | _, rest => do g.readShort (← s.meet o false) rest

/-- A plain word. -/
def readWord (g : Grammar) (s : State) (word : String) :
    Except UsageError State :=
  match g.words[s.wordCount]? with
  | some (name, check) => do
      let s ← s.settle
      return { s with
        pending := .word name word check
        wordCount := s.wordCount + 1 }
  | none =>
      if g.commands.isEmpty || (s.wordsOnly && g.commands.contains word) then
        throw .unknownArgument
      else throw .unknownCommand

/-- The option that waits for a value, with its check. -/
def waiting? (g : Grammar) (s : State) : Option (String × Check) :=
  match s.pending with
  | .waiting name =>
      match g.options.find? fun o => o.long = name with
      | some { effect := .value check, .. } => some (name, check)
      | _ => none
  | _ => none

/-- What the arguments come to: what has been given, and the command that
follows with its own arguments, if one does. -/
abbrev Reading := State × Option (String × List String)

/-- Read arguments up to the first command. -/
def readArguments (g : Grammar) :
    State → List String → Except UsageError Reading
  | s, [] => .ok (s, none)
  | s, argument :: rest => do
      if s.wordsOnly then
        g.readArguments (← g.readWord s argument) rest
      else
        match g.waiting? s with
        | none =>
            if g.commands.contains argument then
              return (s, some (argument, rest))
        | some _ => pure ()
        match argument.toList with
        | ['-', '-'] => g.readArguments { s with wordsOnly := true } rest
        | '-' :: '-' :: text =>
            g.readArguments (← g.readLong s text) rest
        | '-' :: c :: text =>
            g.readArguments (← g.readShort s (c :: text)) rest
        | _ =>
            match g.waiting? s with
            | some (name, check) =>
                g.readArguments
                  { s with pending := .option name argument check } rest
            | none => g.readArguments (← g.readWord s argument) rest

/-- Settle what is left, and see that nothing is missing. -/
def finish (g : Grammar) (s : State) : Except UsageError Given := do
  let s ← s.settle
  if g.commands.isEmpty then
    if g.required.all fun name => (s.given.lookup name).isSome then
      return s.given
    else throw .missingArgument
  else if s.given.isEmpty then throw .nothingAsked
  else throw .missingCommand

end Grammar

end CommandLine

end AdditiveDetail
