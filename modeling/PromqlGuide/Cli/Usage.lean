import PromqlGuide.Catalog.Lookup
import PromqlGuide.Cli.Options
import PromqlGuide.Display.Output
import PromqlGuide.Query

/-!
The reasons for which a command line is refused, and what is said about them.

Main statement: one argument too many is named alone, in the singular
(`UsageFault.message_extraArgument`).
-/
namespace PromqlGuide.Cli

/-- Why a command line is refused. -/
inductive UsageFault where
  | option (fault : OptionFault)
  | nothingAsked
  | missingCommand
  | unknownCommand (name : String)
  | missingArgument (placeholder : String)
  | extraArguments (first : String) (others : List String)
  | format (fault : UnsupportedFormat)
  | query (fault : Query.Failure) (text : String)
  | entry (fault : Catalog.Missing)
  | category (name : String) (known : List String)
  deriving Repr, DecidableEq

/-- A short overview of all commands. -/
def helpText : String :=
  "Learn PromQL by explaining what queries compute.

Usage: [-v] COMMAND [ARGUMENTS]

Commands:
  explain QUERY [--out FORMAT] [--out-theme THEME]
  functions [NAME] [--category CATEGORY] [--search TEXT]
  concepts [ID]
  scenarios list
  scenarios show ID

Every command takes --config FILE, --color and --no-color."

/-- What is wrong with an option, in words. -/
def OptionFault.message : OptionFault → String
  | unknown name => "No such option " ++ Text.quoted name ++ "."
  | valueMissing name => "Option " ++ Text.quoted name ++ " requires an argument."
  | valueRefused name => "Option " ++ Text.quoted name ++ " does not take a value."

namespace UsageFault

/-- The message about arguments that no command takes. -/
def extraMessage (first : String) (others : List String) : String :=
  "Got unexpected extra argument" ++ (if others.isEmpty then "" else "s") ++ " (" ++
    String.intercalate " " (first :: others) ++ ")"

/-- What is wrong with a command line, in words. -/
def message : UsageFault → String
  | option fault => fault.message
  | nothingAsked => helpText
  | missingCommand => "Missing command."
  | unknownCommand name => "No such command " ++ Text.quoted name ++ "."
  | missingArgument placeholder => "Missing argument '" ++ placeholder ++ "'."
  | extraArguments first others => extraMessage first others
  | format fault => fault.message
  | query fault text => fault.report text.toList
  | entry fault => fault.message
  | category name known =>
    "Unknown category: " ++ name ++ ". Expected one of: " ++ String.intercalate ", " known

/-- A single argument too many is spoken of in the singular. -/
theorem message_extraArgument (arg : String) :
    (extraArguments arg []).message = "Got unexpected extra argument (" ++ arg ++ ")" := by
  rfl

end UsageFault

end PromqlGuide.Cli
