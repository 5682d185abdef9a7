import RomanScript.Text.Path

/-!
Arguments of the command line. Options of the program stand before the command; the command takes
exactly one file and no options of its own.
-/

namespace RomanScript.CommandLine

inductive Command where
  | tokens
  | parse
  | check
  | lower
  deriving DecidableEq, Repr

def Command.ofName? : String → Option Command
  | "tokens" => some tokens
  | "parse" => some parse
  | "check" => some check
  | "lower" => some lower
  | _ => none

inductive Request where
  | version
  | help
  | run (verbose : Bool) (command : Command) (path : String)
  deriving DecidableEq, Repr

def isOption (argument : String) : Bool :=
  argument.toList.head? == some '-' && 1 < argument.length

inductive Flag where
  | verbose
  | version
  | help
  deriving DecidableEq, Repr

/-- The option that an argument names; the short form of `--verbose` may be repeated. -/
def option? (argument : String) : Option Flag :=
  if argument = "--version" then some .version
  else if argument = "--help" then some .help
  else if argument = "--verbose" then some .verbose
  else if isOption argument && argument.toList.tail.all (· == 'v') then some .verbose
  else none

/-- The options before the command, and the arguments from there on; none if an option is
unknown. -/
def splitOptions : List Flag → List String → Option (List Flag × List String)
  | found, [] => some (found, [])
  | found, argument :: rest =>
    if argument = "--" then some (found, rest)
    else if isOption argument then
      match option? argument with
      | some option => splitOptions (found ++ [option]) rest
      | none => none
    else some (found, argument :: rest)

/-- The files among the arguments of a command; none if there is an option among them. -/
def filesFrom : List String → Option (List String)
  | [] => some []
  | argument :: rest =>
    if argument = "--" then some rest
    else if isOption argument then none
    else (filesFrom rest).map (argument :: ·)

/-- What ends the program at once, if one of its options does; the first of these counts. -/
def Request.ofFlags? (flags : List Flag) : Option Request :=
  match flags.find? (· != .verbose) with
  | some .version => some version
  | some .help => some help
  | _ => none

/-- The request that a list of arguments makes, if it makes one. What ends the program at once
counts more than the command, whatever that is. What stands for a command and is none is read as
options once more, so that two dashes before it do not hide an option that ends the program. -/
def Request.ofArguments? (arguments : List String) : Option Request := do
  let (options, rest) ← splitOptions [] arguments
  match ofFlags? options, rest with
  | some request, _ => return request
  | none, [] => none
  | none, name :: rest =>
    match Command.ofName? name with
    | some command => do
      match ← filesFrom rest with
      | [file] => return run (options.contains .verbose) command (Text.plainPath file)
      | _ => none
    | none => do
      let (options, _) ← splitOptions [] (name :: rest)
      ofFlags? options

end RomanScript.CommandLine
