import CertSteward.Text.Chars

/-!
# Arguments of the command line

The arguments name a command; options may stand before and after it, and what follows `--` is no
option. An option is given once at most before the command and once after it, where the latter
counts, unless it is one that collects values.

## Main definitions

* `CommandOption`, `Arguments.read` — options among arguments
* `Command`, `Invocation`
* `Invocation.read` — what the arguments ask for
-/

namespace CertSteward

/-! ### Options -/

/-- An option. -/
structure CommandOption where
  /-- The word after two dashes. -/
  word : String
  /-- The letter after one dash. -/
  letter : Option Char := none
  /-- Whether it has a value. -/
  hasValue : Bool := true
  /-- Whether it may be given several times. -/
  collects : Bool := false
  /-- Whether its value may be empty. -/
  mayBeEmpty : Bool := true
  /-- Whether nothing behind it is read. -/
  isLast : Bool := false
deriving DecidableEq, Repr

/-- Why arguments cannot be understood. -/
inductive UsageFault
  | noCommand
  | unknownCommand (name : String)
  | unknownOption (name : String)
  | missingValue (word : String)
  | unwantedValue (word : String)
  | givenTwice (word : String)
  | missingArgument (name : String)
  | unwantedArgument (text : String)
deriving DecidableEq, Repr

/-- The wording. -/
def UsageFault.message : UsageFault → String
  | noCommand => "a command is required"
  | unknownCommand name => "unknown command '" ++ name ++ "'"
  | unknownOption name => "unexpected option '" ++ name ++ "'"
  | missingValue word => "option '--" ++ word ++ "' needs a value"
  | unwantedValue word => "option '--" ++ word ++ "' has no value"
  | givenTwice word => "option '--" ++ word ++ "' can be given only once"
  | missingArgument name => "argument '" ++ name ++ "' is required"
  | unwantedArgument text => "unexpected argument '" ++ text ++ "'"

/-- What arguments give: options with their values, and words that are no options. -/
structure Arguments where
  options : List (String × String) := []
  words : List String := []
  /-- The arguments that were not read. -/
  rest : List String := []
deriving DecidableEq, Repr

namespace Arguments

/-- Whether an option is given. -/
def has (a : Arguments) (word : String) : Bool := (a.options.lookup word).isSome

/-- The values of an option, in their order. -/
def values (a : Arguments) (word : String) : List String :=
  (a.options.filter fun o => o.1 = word).map (·.2)

/-- The value of an option. -/
def value? (a : Arguments) (word : String) : Option String := a.options.lookup word

/-- Takes an option in. -/
def addOption (a : Arguments) (o : CommandOption) (value : String) : Except UsageFault Arguments :=
  if a.has o.word ∧ !o.collects then .error (.givenTwice o.word)
  else if value.isEmpty ∧ !o.mayBeEmpty then .error (.missingValue o.word)
  else .ok { a with options := a.options ++ [(o.word, value)] }

/-- Whether an argument looks like an option. -/
def isOption (s : String) : Bool := s.toList.head? = some '-' && s.length > 1

/-- An option with the value that stands in the same argument, if one does. -/
def recognize (options : List CommandOption) (s : String) :
    Except UsageFault (CommandOption × Option String) :=
  match s.toList with
  | '-' :: '-' :: text =>
    let (word, value) := match Chars.splitOnce '=' text with
      | some (word, value) => (String.ofList word, some (String.ofList value))
      | none => (String.ofList text, none)
    match options.find? fun o => o.word = word with
    | some o => .ok (o, value)
    | none => .error (.unknownOption s)
  | '-' :: letter :: text =>
    match options.find? fun o => o.letter = some letter with
    | some o =>
      let value := if text.head? = some '=' then text.drop 1 else text
      .ok (o, if text.isEmpty ∨ o.isLast then none else some (String.ofList value))
    | none => .error (.unknownOption s)
  | _ => .error (.unknownOption s)

/-- Reads arguments. With `stopAtWord` the first word ends them. -/
def read (options : List CommandOption) (stopAtWord : Bool) :
    Arguments → List String → Except UsageFault Arguments
  | a, [] => .ok a
  | a, "--" :: rest =>
    if stopAtWord then
      match rest with
      | [] => .ok a
      | word :: rest => .ok { a with words := a.words ++ [word], rest }
    else .ok { a with words := a.words ++ rest }
  | a, s :: rest =>
    if isOption s then
      match recognize options s with
      | .error e => .error e
      | .ok (o, some value) =>
        if o.hasValue then
          match a.addOption o value with
          | .ok a => read options stopAtWord a rest
          | .error e => .error e
        else .error (.unwantedValue o.word)
      | .ok (o, none) =>
        if o.hasValue then
          match rest with
          | [] => .error (.missingValue o.word)
          | value :: rest =>
            if isOption value then .error (.missingValue o.word)
            else
              match a.addOption o value with
              | .ok a => read options stopAtWord a rest
              | .error e => .error e
        else
          match a.addOption o "" with
          | .ok a => if o.isLast then .ok a else read options stopAtWord a rest
          | .error e => .error e
    else if stopAtWord then .ok { a with words := a.words ++ [s], rest }
    else read options stopAtWord { a with words := a.words ++ [s] } rest

/-- The one word among the arguments. -/
def only (a : Arguments) (name : String) : Except UsageFault String :=
  match a.words with
  | [] => .error (.missingArgument name)
  | [word] => .ok word
  | _ :: word :: _ => .error (.unwantedArgument word)

/-- That there is no word among the arguments. -/
def wordless (a : Arguments) : Except UsageFault Unit :=
  match a.words with
  | [] => .ok ()
  | word :: _ => .error (.unwantedArgument word)

end Arguments

/-! ### Commands -/

/-- What the program is told to do. -/
inductive Command
  | test
  | issue (domain : String) (others : List String) (wildcard autoRenew : Bool) (domainId : String)
  | renew (certificate : String) (force : Bool)
  | revoke (certificate reason : String)
  | validate (certificate : String)
  | health (asJson withCounts : Bool)
  | exportAs (certificate format : String) (passphrase output : Option String)
  | run
  | list (asJson : Bool)
deriving DecidableEq, Repr

/-- A command and the options that all commands have. -/
structure Invocation where
  /-- The path of the configuration. -/
  config : Option String := none
  isVerbose : Bool := false
  command : Command
deriving DecidableEq, Repr

/-- What arguments ask for. -/
inductive Asked
  | invocation (i : Invocation)
  | help
  /-- The version of the program, or of one of its commands. -/
  | version (command : Option String)
deriving DecidableEq, Repr

namespace Invocation

/-- The options that all commands have. -/
def shared : List CommandOption :=
  [{ word := "config", letter := some 'c', mayBeEmpty := false },
    { word := "verbose", hasValue := false },
    { word := "help", letter := some 'h', hasValue := false, isLast := true },
    { word := "version", letter := some 'V', hasValue := false, isLast := true }]

/-- The options of a command, if there is one of that name. -/
def optionsOf? : String → Option (List CommandOption)
  | "test" | "validate" | "run" => some []
  | "issue" => some [{ word := "san", collects := true }, { word := "wildcard", hasValue := false },
      { word := "no-auto-renew", hasValue := false }, { word := "domain-id" }]
  | "renew" => some [{ word := "force", hasValue := false }]
  | "revoke" => some [{ word := "reason" }]
  | "health" =>
    some [{ word := "json", hasValue := false }, { word := "metrics", hasValue := false }]
  | "export" => some [{ word := "format" }, { word := "passphrase" },
      { word := "output", letter := some 'o', mayBeEmpty := false }]
  | "list" => some [{ word := "json", hasValue := false }]
  | _ => none

/-- A command with its arguments. A passphrase may also come from a variable. -/
def commandOf (name : String) (a : Arguments) (environment : String → Option String) :
    Except UsageFault Command :=
  match name with
  | "test" => do
    a.wordless
    return .test
  | "issue" => do
    return .issue (← a.only "DOMAIN") (a.values "san") (a.has "wildcard") (!a.has "no-auto-renew")
      ((a.value? "domain-id").getD "")
  | "renew" => do return .renew (← a.only "CERTIFICATE") (a.has "force")
  | "revoke" => do
    return .revoke (← a.only "CERTIFICATE") ((a.value? "reason").getD "unspecified")
  | "validate" => do return .validate (← a.only "CERTIFICATE")
  | "health" => do
    a.wordless
    return .health (a.has "json") (a.has "metrics")
  | "export" => do
    let passphrase := a.value? "passphrase" <|> environment "CERTKEEPER_EXPORT_PASSPHRASE"
    return .exportAs (← a.only "CERTIFICATE") ((a.value? "format").getD "pem") passphrase
      (a.value? "output")
  | "run" => do
    a.wordless
    return .run
  | "list" => do
    a.wordless
    return .list (a.has "json")
  | _ => .error (.unknownCommand name)

/-- Help on the program or on one of its commands. -/
def helpOn : List String → Except UsageFault Asked
  | [] => .ok .help
  | [name] =>
    if name = "help" ∨ (optionsOf? name).isSome then .ok .help else .error (.unknownCommand name)
  | _ :: name :: _ => .error (.unknownCommand name)

/-- What arguments ask for. The path of the configuration may also come from a variable. -/
def read (arguments : List String) (environment : String → Option String) :
    Except UsageFault Asked := do
  let before ← Arguments.read shared true {} arguments
  if before.has "help" then return .help
  if before.has "version" then return .version none
  match before.words with
  | [] => throw .noCommand
  | "help" :: _ => helpOn before.rest
  | name :: _ =>
    match optionsOf? name with
    | none => throw (.unknownCommand name)
    | some options =>
      let after ← Arguments.read (options ++ shared) false {} before.rest
      if after.has "help" then return .help
      if after.has "version" then return .version (some name)
      let command ← commandOf name after environment
      let config := after.value? "config" <|> before.value? "config" <|>
        environment "CERTKEEPER_CONFIG"
      let isVerbose := before.has "verbose" || after.has "verbose"
      return .invocation { config, command, isVerbose }

end Invocation

end CertSteward
