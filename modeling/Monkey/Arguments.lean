import Monkey.CommandLine

/-!
# The arguments

The outer layer of the program, beside its input and output: how arguments are taken for options,
and the texts about them. Arguments are taken from left to right; the first one that is at fault, or
that asks for help or for the version, decides.
-/

namespace Monkey.CommandLine

/-- Why an argument is refused. -/
inductive Refusal where
  | unknown (argument : String)
  | repeated (option : String)
  | valued (option value : String)
  | emptyPath
deriving DecidableEq

/-- What the arguments ask for. -/
inductive Request where
  | run (options : Options)
  | help
  | version
  | refuse (refusal : Refusal)
deriving DecidableEq

namespace Options

/-- Nothing asked for. -/
def plain : Options := ⟨none, false, false⟩

/-- The options with one argument more that is no option, or what the program does instead. -/
def withPath (o : Options) (path : String) : Except Request Options :=
  if o.path.isSome then .error (.refuse (.unknown path))
  else if path = "" then .error (.refuse .emptyPath)
  else .ok { o with path := some path }

/-- The options with one named option more, or what the program does instead. -/
def withOption (o : Options) (name : String) : Except Request Options :=
  if name = "tokens" then
    if o.tokens then .error (.refuse (.repeated "--tokens")) else .ok { o with tokens := true }
  else if name = "synchronize" then
    if o.synchronize then .error (.refuse (.repeated "--synchronize"))
    else .ok { o with synchronize := true }
  else if name = "verbose" then .ok o
  else if name = "help" then .error .help
  else if name = "version" then .error .version
  else .error (.refuse (.unknown ("--" ++ name)))

/-- The names of all options. -/
def names : List String := ["tokens", "synchronize", "verbose", "help", "version"]

/-- The options with one argument more of the form `--name` or `--name=value`; no option takes a
value. -/
def withLong (o : Options) (argument : List Char) : Except Request Options :=
  let name := String.ofList (argument.takeWhile (· ≠ '='))
  match argument.dropWhile (· ≠ '=') with
  | [] => o.withOption name
  | _ :: value =>
    if name ∈ names then .error (.refuse (.valued ("--" ++ name) (String.ofList value)))
    else .error (.refuse (.unknown ("--" ++ name)))

/-- The options with some short ones more, or what the program does instead. -/
def withShort (o : Options) : List Char → Except Request Options
  | [] => .ok o
  | 'v' :: letters => o.withShort letters
  | 'h' :: _ => .error .help
  | 'V' :: _ => .error .version
  | letter :: _ => .error (.refuse (.unknown (String.ofList ['-', letter])))

/-- The options with one argument more, or what the program does instead. A single dash is a
path. -/
def withArgument (o : Options) (argument : String) : Except Request Options :=
  match argument.toList with
  | '-' :: '-' :: name => o.withLong name
  | '-' :: letter :: letters => o.withShort (letter :: letters)
  | _ => o.withPath argument

end Options

/-- What arguments behind the options ask for: none of them is an option. -/
def requestPaths (o : Options) : List String → Request
  | [] => .run o
  | argument :: arguments =>
    match o.withPath argument with
    | .ok o => requestPaths o arguments
    | .error request => request

/-- What more arguments ask for. Two dashes end the options. -/
def requestFrom (o : Options) : List String → Request
  | [] => .run o
  | argument :: arguments =>
    if argument = "--" then requestPaths o arguments
    else
      match o.withArgument argument with
      | .ok o => requestFrom o arguments
      | .error request => request

/-- What the arguments of the program ask for. -/
def request (arguments : List String) : Request := requestFrom .plain arguments

/-- The version line. -/
def versionText : String := "monkey-syntax 0.1.0\n"

/-- How the program is called. -/
def usage : String := "Usage: monkey-syntax [OPTIONS] [PATH]\n"

/-- The help text. -/
def helpText : String :=
  "Lexer and Pratt parser for the Monkey language\n\n" ++ usage ++ "\n" ++
  "Arguments:\n" ++
  "  [PATH]  Source file to read; standard input when omitted\n\n" ++
  "Options:\n" ++
  "      --tokens       Print the token stream instead of the parsed program\n" ++
  "      --synchronize  Skip to the next statement boundary after a statement with errors\n" ++
  "  -v, --verbose...   Increase logging verbosity (-v: debug, -vv+: trace)\n" ++
  "  -h, --help         Print help\n" ++
  "  -V, --version      Print version\n"

/-- Why an argument is refused, in a sentence. -/
def Refusal.message : Refusal → String
  | unknown argument => "unexpected argument '" ++ argument ++ "' found"
  | repeated option => "the argument '" ++ option ++ "' cannot be used multiple times"
  | valued option value =>
    "unexpected value '" ++ value ++ "' for '" ++ option ++ "' found; no more were expected"
  | emptyPath => "a value is required for '[PATH]' but none was supplied"

/-- The answer to arguments that are refused. -/
def Refusal.outcome (r : Refusal) : Outcome :=
  ⟨2, "", "error: " ++ r.message ++ "\n\n" ++ usage ++ "\nFor more information, try '--help'.\n"⟩

/-- The answer to a request, given the text that its options name, or why there is none. -/
def Request.outcome (source : Except String String) : Request → Outcome
  | .help => ⟨0, helpText, ""⟩
  | .version => ⟨0, versionText, ""⟩
  | .refuse refusal => refusal.outcome
  | .run options =>
    match source with
    | .ok source => options.outcome source
    | .error reason => options.unreadable reason

end Monkey.CommandLine
