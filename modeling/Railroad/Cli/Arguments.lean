/-!
Words of a command line: options, with or without a value, and plain words.

A word is an option if it starts with a dash and is not a dash alone.  A value stands in the next word,
whatever that looks like, or after an equals sign.  Two dashes alone end the options.
-/
namespace Railroad.Cli

/-- An option that a command knows. -/
structure Flag where
  /-- The long form, dashes included. -/
  name : String
  /-- A letter that stands for an option without a value. -/
  letter : Option Char
  takesValue : Bool
deriving Repr, DecidableEq

/-- What is wrong with the words of a command line. -/
inductive UsageFault where
  | unknownOption (word : String)
  | missingValue (option : String)
  | unwantedValue (option : String)
  | badInteger (option value : String)
  | badPath (word : String)
  | missingWord
  | extraWord (word : String)
  | noCommand
  | unknownCommand (word : String)
deriving Repr, DecidableEq

/-- The words of a command line, sorted: the options in order, with their values, and the plain
words. -/
structure Arguments where
  options : List (String × Option String)
  words : List String
deriving Repr, DecidableEq

namespace Arguments

/-- Adds an option in front. -/
def withOption (a : Arguments) (name : String) (value : Option String) : Arguments :=
  { a with options := (name, value) :: a.options }

/-- Adds a plain word in front. -/
def withWord (a : Arguments) (word : String) : Arguments :=
  { a with words := word :: a.words }

/-- Whether an option is given. -/
def has (a : Arguments) (name : String) : Bool :=
  a.options.any (·.1 = name)

/-- The value of an option; the last one given counts. -/
def value? (a : Arguments) (name : String) : Option String :=
  (a.options.reverse.lookup name).join

end Arguments

/-- Whether a word is an option. -/
def isOption (word : String) : Bool :=
  match word.toList with
  | '-' :: _ :: _ => true
  | _ => false

/-- A word cut at its first equals sign. -/
def cutValue (word : String) : String × Option String :=
  let cs := word.toList
  let name := cs.takeWhile (· ≠ '=')
  match cs.dropWhile (· ≠ '=') with
  | [] => (word, none)
  | _ :: value => (String.ofList name, some (String.ofList value))

/-- The options that the letters after a dash stand for. -/
def letterOptions (flags : List Flag) (word : String) :
    Except UsageFault (List (String × Option String)) :=
  if word.startsWith "--" then .error (.unknownOption word)
  else
    (word.toList.drop 1).mapM fun c =>
      match flags.find? (·.letter = some c) with
      | some flag => .ok (flag.name, none)
      | none => .error (.unknownOption word)

/-- Sorts words.  Unless options may follow plain words, the first plain word ends the options. -/
def sortWords (flags : List Flag) (mixed : Bool) : List String → Except UsageFault Arguments
  | [] => .ok ⟨[], []⟩
  | word :: rest =>
      if word = "--" then .ok ⟨[], rest⟩
      else if isOption word then
        let (name, attached) := cutValue word
        match flags.find? (·.name = name), attached with
        | none, _ => do
            let options ← letterOptions flags word
            let a ← sortWords flags mixed rest
            return { a with options := options ++ a.options }
        | some ⟨_, _, false⟩, none => return (← sortWords flags mixed rest).withOption name none
        | some ⟨_, _, false⟩, some _ => .error (.unwantedValue name)
        | some ⟨_, _, true⟩, some value =>
            return (← sortWords flags mixed rest).withOption name (some value)
        | some ⟨_, _, true⟩, none =>
            match rest with
            | [] => .error (.missingValue name)
            | value :: rest => return (← sortWords flags mixed rest).withOption name (some value)
      else if mixed then return (← sortWords flags mixed rest).withWord word
      else .ok ⟨[], word :: rest⟩

end Railroad.Cli
