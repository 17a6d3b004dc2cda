import PromqlGuide.Cli.Usage
import PromqlGuide.Config.Defaults

/-!
The commands and what a command line asks of them. Options that are not given get their values from
settings, and what is not set has a default.
-/
namespace PromqlGuide.Cli

/-- What is asked for: help, or something to do. -/
inductive Asked (α : Type) where
  | help
  | run (a : α)
  deriving Repr

/-! ### Requests -/

/-- What a command has to do. -/
inductive Request where
  | explain (query format : String) (theme : LooseText)
  | functions (name category search : Option String)
  | concepts (id : Option String)
  | scenarioList
  | scenario (id : String)
  deriving Repr, DecidableEq

/-- A request, the file that settings come from, and whether there is to be colour. -/
structure Invocation where
  request : Request
  configName : String
  color : Option Bool
  deriving Repr, DecidableEq

/-- A text that may be missing, as a parameter. -/
def optionalText : Option String → Json
  | none => .null
  | some s => .str s

/-- The parameters of a request. -/
def Request.parameters : Request → Config.Settings
  | explain query format theme =>
    [("out", .str format), ("out_theme", .text theme), ("query", .str query)]
  | functions name category search =>
    [("category", optionalText category), ("name", optionalText name),
      ("search", optionalText search)]
  | concepts id => [("concept_id", optionalText id)]
  | scenarioList => []
  | scenario id => [("scenario_id", .str id)]

/-- All parameters of an invocation. -/
def Invocation.parameters (i : Invocation) : Config.Settings :=
  let color := match i.color with
    | none => Json.null
    | some b => .bool b
  ("color_flag", color) :: ("config", .str i.configName) :: i.request.parameters

/-! ### Commands -/

/-- The commands. -/
inductive Command where
  | explain
  | functions
  | concepts
  | scenarioList
  | scenario
  deriving Repr, DecidableEq

/-- The command that a request belongs to. -/
def Request.command : Request → Command
  | explain .. => .explain
  | functions .. => .functions
  | concepts _ => .concepts
  | scenarioList => .scenarioList
  | scenario _ => .scenario

namespace Command

/-- The words that name a command. -/
def words : Command → String
  | explain => "explain"
  | functions => "functions"
  | concepts => "concepts"
  | scenarioList => "scenarios list"
  | scenario => "scenarios show"

/-- The options that every command has. -/
def sharedOptions : List (String × OptionKind) :=
  [("--config", .value "config"), ("--color", .switch "color_flag" true),
    ("--no-color", .switch "color_flag" false), ("--help", .help)]

/-- The options that only one command has. -/
def ownOptions : Command → List (String × OptionKind)
  | explain => [("--out", .value "out"), ("--out-theme", .value "out_theme")]
  | functions => [("--category", .value "category"), ("--search", .value "search")]
  | _ => []

/-- The options of a command; they may stand before or behind its argument. -/
def options (c : Command) : Options := ⟨c.ownOptions ++ sharedOptions, true⟩

/-- Whether a command takes an argument. -/
def takesArgument (c : Command) : Bool := c != scenarioList

/-- The settings that a command uses. -/
def settings (c : Command) (all : Config.Settings) : Config.Settings :=
  match c with
  | explain => Config.forExplain all
  | _ => Config.forCatalogs all

/-- The text that a parameter is set to. -/
def settingText? (settings : Config.Settings) (parameter : String) : Option LooseText :=
  match Json.lookup parameter settings with
  | some (.text t) => some t
  | _ => none

/-- The truth value that a parameter is set to. -/
def settingSwitch? (settings : Config.Settings) (parameter : String) : Option Bool :=
  match Json.lookup parameter settings with
  | some (.bool b) => some b
  | _ => none

/-- The text of an option: as given, as set, or its default. -/
def optionText (given : List Given) (settings : Config.Settings) (parameter default : String) :
    LooseText :=
  match Given.valueOf? given parameter with
  | some text => .plain text
  | none => (settingText? settings parameter).getD (.plain default)

/-- An argument that must be there. -/
def required (placeholder : String) : Option String → Except UsageFault String
  | some argument => .ok argument
  | none => .error (.missingArgument placeholder)

/-- The request that options and an argument amount to. -/
def request (c : Command) (settings : Config.Settings) (given : List Given)
    (argument : Option String) : Except UsageFault Request :=
  match c with
  | explain =>
    (required "QUERY" argument).map fun query =>
      .explain query (optionText given settings "out" OutputFormat.text.name).repaired
        (optionText given settings "out_theme" defaultTheme)
  | functions =>
    .ok (.functions argument (Given.valueOf? given "category") (Given.valueOf? given "search"))
  | concepts => .ok (.concepts argument)
  | scenarioList => .ok .scenarioList
  | scenario => (required "ID" argument).map .scenario

/-- Refuses arguments beyond those that are taken. -/
def noMore : List String → Except UsageFault Unit
  | [] => .ok ()
  | first :: others => .error (.extraArguments first others)

/-- What the arguments of a command ask for, under the settings of that command. -/
def invocationWith (c : Command) (settings : Config.Settings) (args : List String) :
    Except UsageFault (Asked Invocation) := do
  let (given, positional) ← (c.options.scan args).mapError .option
  if Given.asksHelp given then return .help
  let taken := if c.takesArgument then 1 else 0
  let request ← c.request settings given (positional.take taken).head?
  noMore (positional.drop taken)
  return .run
    ⟨request, (Given.valueOf? given "config").getD Config.defaultFileName,
      (Given.switchOf? given "color_flag").or (settingSwitch? settings "color_flag")⟩

/-- What the arguments of a command ask for. -/
def invocation (c : Command) (all : Config.Settings) (args : List String) :
    Except UsageFault (Asked Invocation) :=
  c.invocationWith (c.settings all) args

end Command

/-! ### Groups of commands -/

/-- What a name in a group stands for: a command or a group of its own. -/
inductive Member where
  | command (c : Command)
  | scenarios
  deriving Repr, DecidableEq

/-- The options in front of all commands. Nothing can be installed for a shell to complete commands,
so the two options for that show the overview of all commands, as help does. -/
def programOptions : Options :=
  ⟨[("--verbose", .counted "verbose"), ("-v", .counted "verbose"), ("--install-completion", .help),
    ("--show-completion", .help), ("--help", .help)], false⟩

/-- The options in front of the commands about scenarios. -/
def scenarioOptions : Options := ⟨[("--help", .help)], false⟩

/-- The members of the program. -/
def programMembers : List (String × Member) :=
  [("explain", .command .explain), ("functions", .command .functions),
    ("concepts", .command .concepts), ("scenarios", .scenarios)]

/-- The commands about scenarios. -/
def scenarioMembers : List (String × Command) :=
  [("list", .scenarioList), ("show", .scenario)]

/-- The options of a group as they were given, the member that is named, and its arguments. A name
that is none may still be an option, behind two dashes. -/
def chooseMember {α : Type} (options : Options) (members : List (String × α))
    (args : List String) : Except UsageFault (Asked (List Given × α × List String)) := do
  if args.isEmpty then .error .nothingAsked
  let (given, rest) ← (options.scan args).mapError .option
  if Given.asksHelp given then return .help
  match rest with
  | [] => .error .missingCommand
  | name :: arguments =>
    match members.lookup name with
    | some member => return .run (given, member, arguments)
    | none =>
      let (again, _) ← (options.scan rest).mapError .option
      if Given.asksHelp again then return .help
      .error (.unknownCommand name)

/-- What the arguments of the group about scenarios ask for. -/
def scenarioInvocation (all : Config.Settings) (args : List String) :
    Except UsageFault (Asked Invocation) := do
  match ← chooseMember scenarioOptions scenarioMembers args with
  | .help => return .help
  | .run (_, c, arguments) => c.invocation all arguments

/-- What a command line asks for, and how often it asks for more output. -/
def invocation (all : Config.Settings) (args : List String) :
    Except UsageFault (Asked (Nat × Invocation)) := do
  match ← chooseMember programOptions programMembers args with
  | .help => return .help
  | .run (given, member, arguments) =>
    let asked ←
      match member with
      | .command c => c.invocation all arguments
      | .scenarios => scenarioInvocation all arguments
    match asked with
    | .help => return .help
    | .run i => return .run (Given.countOf given "verbose", i)

end PromqlGuide.Cli
