import SerialContract.Command.Arguments
import SerialContract.Text.Lines

/-!
# Help

What is told to those who ask how commands are called, or who called one wrongly.
-/

namespace SerialContract.Command

/-- How the commands are called. -/
def helpText : String := lines [
  "Generate matching device firmware and host clients from an interface contract",
  "",
  "Usage: serial-contract [-v] <COMMAND>",
  "",
  "Commands:",
  "  generate <CONTRACT> [-o DIR] [-t TARGET | --dialect FILE] [-f]",
  "                      Generate firmware and host client sources from a contract",
  "  check <CONTRACT>    Load and validate a contract, then print a summary",
  "  help [COMMAND]      Print this message",
  "",
  "Options:",
  "  -o, --output-dir DIR   Directory to write into (generated)",
  "  -t, --target TARGET    Device dialect: arduino or cpp (arduino)",
  "      --dialect FILE     YAML rules used instead of the built-in target",
  "  -f, --force            Overwrite files in a non-empty output directory",
  "  -v, --verbose          Tell what is done",
  "  -h, --help             Print help",
  "  -V, --version          Print version"]

/-- The version. -/
def versionText : String := line "serial-contract 0.1.0"

/-- What is wrong with a command line. -/
def UsageFault.message : UsageFault → String
  | help => helpText
  | version => versionText
  | nothing => helpText
  | missingCommand => "a command is required but none was given"
  | unknownCommand => "there is no such command"
  | unknownArgument => "unexpected argument"
  | missingArgument => "the contract file is required"
  | invalidValue => "a value is required but none was given"
  | unneededValue => "an option that takes no value was given one"
  | conflict => "an option was given twice, or with another that it excludes"
  | unknownTarget => "there is no such target"

/-- Whether help or the version was asked for. -/
def UsageFault.isAnswer : UsageFault → Bool
  | help | version => true
  | _ => false

end SerialContract.Command
