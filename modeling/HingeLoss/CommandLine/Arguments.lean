import HingeLoss.Number.Bytes

/-! The arguments of the command line, read from left to right. -/

namespace HingeLoss.CommandLine

/-- The solver that a run uses. -/
inductive Method where
  | consensus
  | descent
deriving DecidableEq, Inhabited

/-- What an inference is asked to do. -/
structure Inference where
  problem : String
  method : Method
  streaming : Bool
  incompatibility : Bool
  persist : Option String

inductive Command where
  | infer (inference : Inference)
  | components (problem : String) (count : Nat)
  | values (persist : String)
  | settings

/-- A command line that asks for no run, or for none that can be understood. Help is for one command
or for all of them. -/
inductive Refusal where
  | version
  | help (command : Option String)
  | misuse
deriving DecidableEq

/-- The options that have been read so far. -/
structure Options where
  config : Option String := none
  problem : Option String := none
  method : Option Method := none
  persist : Option String := none
  count : Option Nat := none
  streaming : Bool := false
  incompatibility : Bool := false

/-- The options that a command knows, those with a value and those without. Without a command they
are the options before it. -/
structure Known where
  command : Option String
  valued : List String
  flags : List String

/-- A number of at most sixty-four bits. -/
def count? (text : String) : Option Nat := do
  let digits := match text.toList with
    | '+' :: rest => rest
    | rest => rest
  let value := digits.foldl (fun value c => value * 10 + (c.toNat - 48)) 0
  if !digits.isEmpty && digits.all Char.isDigit && value < UInt64.size then some value else none

def method? (text : String) : Option Method :=
  if text = "admm" then some .consensus
  else if text = "sgd" then some .descent
  else none

def path? (text : String) : Option String := if text.isEmpty then none else some text

/-- A value that an option has not got yet. -/
def fresh {α : Type} (held : Option α) (value : Option α) : Option (Option α) :=
  if held.isSome then none else value.map some

namespace Options

/-- The value of an option, which may be given once. -/
def accept (options : Options) (name value : String) : Option Options :=
  if name = "config" then
    (fresh options.config (path? value)).map fun config => { options with config }
  else if name = "problem" then
    (fresh options.problem (path? value)).map fun problem => { options with problem }
  else if name = "reasoner" then
    (fresh options.method (method? value)).map fun method => { options with method }
  else if name = "persist" then
    (fresh options.persist (path? value)).map fun persist => { options with persist }
  else if name = "top-k" then
    (fresh options.count (count? value)).map fun count => { options with count }
  else none

/-- A flag, which may be given once. -/
def raise (options : Options) (name : String) : Option Options :=
  if name = "streaming" then
    if options.streaming then none else some { options with streaming := true }
  else if name = "incompatibility" then
    if options.incompatibility then none else some { options with incompatibility := true }
  else none

end Options

/-- The name of a long option, and its value behind an equals sign. -/
def longOption? (argument : String) : Option (String × Option String) :=
  match argument.toList with
  | '-' :: '-' :: rest =>
      let name := String.ofList (rest.takeWhile (· ≠ '='))
      match rest.dropWhile (· ≠ '=') with
      | _ :: value => some (name, some (String.ofList value))
      | [] => some (name, none)
  | _ => none

/-- Short options stand behind one dash. A dash alone is a value. -/
def shortOptions? (argument : String) : Option (List Char) :=
  match argument.toList with
  | '-' :: c :: rest => if c = '-' then none else some (c :: rest)
  | _ => none

/-- An argument that is no option can be the value of one. -/
def isValue (argument : String) : Bool :=
  (longOption? argument).isNone && (shortOptions? argument).isNone

/-- The version is shown only where a command could stand. -/
def Known.version (known : Known) : Refusal :=
  if known.command.isNone then .version else .misuse

/-- The options up to the first argument that is none, and the arguments from there on. Behind two
dashes nothing may follow. -/
def readOptions (known : Known) :
    List String → Options → Except Refusal (Options × List String)
  | [], options => .ok (options, [])
  | argument :: rest, options =>
      match longOption? argument with
      | some ("", none) => if rest.isEmpty then .ok (options, []) else .error .misuse
      | some ("help", none) => .error (.help known.command)
      | some ("version", none) => .error known.version
      | some (name, some value) =>
          if known.valued.contains name then
            match options.accept name value with
            | some options => readOptions known rest options
            | none => .error .misuse
          else .error .misuse
      | some (name, none) =>
          if known.flags.contains name then
            match options.raise name with
            | some options => readOptions known rest options
            | none => .error .misuse
          else if known.valued.contains name then
            match rest with
            | value :: later =>
                if isValue value then
                  match options.accept name value with
                  | some options => readOptions known later options
                  | none => .error .misuse
                else .error .misuse
            | [] => .error .misuse
          else .error .misuse
      | none =>
          match shortOptions? argument with
          | some ('h' :: _) => .error (.help known.command)
          | some ('V' :: _) => .error known.version
          | some _ => .error .misuse
          | none => .ok (options, argument :: rest)

/-- The options of a command. Nothing else may follow it. -/
def readAll (known : Known) (arguments : List String) : Except Refusal Options := do
  let (options, rest) ← readOptions known arguments {}
  if rest.isEmpty then .ok options else .error .misuse

def require (held : Option String) : Except Refusal String :=
  match held with
  | some value => .ok value
  | none => .error .misuse

/-- The commands and what they do. -/
def commands : List (String × String) := [
  ("infer", "Ground a problem file and optimize its atom values"),
  ("components", "Show the connected components of a grounded problem"),
  ("values", "Print atom values saved by a previous `infer --persist`"),
  ("config", "Print the effective configuration as TOML"),
  ("help", "Print this message or the help of the given subcommand(s)")]

def isCommand (name : String) : Bool := commands.any fun command => command.1 = name

/-- A command with its options, and the settings file that they name. -/
def readCommand (name : String) (arguments : List String) :
    Except Refusal (Option String × Command) :=
  if name = "infer" then do
    let options ← readAll
      ⟨name, ["config", "problem", "reasoner", "persist"], ["streaming", "incompatibility"]⟩
      arguments
    let problem ← require options.problem
    .ok (options.config, .infer ⟨problem, options.method.getD .consensus, options.streaming,
      options.incompatibility, options.persist⟩)
  else if name = "components" then do
    let options ← readAll ⟨name, ["config", "problem", "top-k"], []⟩ arguments
    let problem ← require options.problem
    .ok (options.config, .components problem (options.count.getD 10))
  else if name = "values" then do
    let options ← readAll ⟨name, ["config", "persist"], []⟩ arguments
    .ok (options.config, .values (← require options.persist))
  else if name = "config" then do
    let options ← readAll ⟨name, ["config"], []⟩ arguments
    .ok (options.config, .settings)
  else if name = "help" && arguments.length ≤ 1 && arguments.all isCommand then
    .error (.help arguments.head?)
  else .error .misuse

/-- What a command line asks for: a settings file and a command. Of two settings files the one
behind the command counts. -/
structure Request where
  config : Option String
  command : Command

def Request.ofArguments (arguments : List String) : Except Refusal Request := do
  let (options, rest) ← readOptions ⟨none, ["config"], []⟩ arguments {}
  match rest with
  | [] => .error .misuse
  | name :: rest =>
      let (config, command) ← readCommand name rest
      .ok ⟨config.or options.config, command⟩

/-- The files that a request reads. -/
def Request.files (request : Request) : List String :=
  request.config.toList ++ match request.command with
    | .infer inference => inference.problem :: inference.persist.toList
    | .components problem _ => [problem]
    | .values persist => [persist]
    | .settings => []

/-- The folder of the database that a request uses. -/
def Request.database (request : Request) : Option String :=
  match request.command with
  | .infer inference => inference.persist
  | .values persist => some persist
  | _ => none

end HingeLoss.CommandLine
