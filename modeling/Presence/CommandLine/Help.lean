/-! The usage and the help text. -/
namespace Presence.CommandLine

def usageLines : List String := [
  "usage: cppblocks [-h] [--handle-linux-macros] [--fuzzy-parsing]",
  "                 [--invalid-condition \x7bexception,true,error_variable\x7d]",
  "                 [--no-pseudo-block] [--set KEY=VALUE]",
  "                 [--source-tree SOURCE_TREE] [--format \x7bhuman,json\x7d] [--stats]",
  "                 [--verbose]",
  "                 inputs [inputs ...]"]

def helpLines : List String := usageLines ++ [
  "",
  "Extract #if blocks and their presence conditions from C source files.",
  "",
  "positional arguments:",
  "  inputs                paths to C source files, or - to read from stdin",
  "",
  "options:",
  "  -h, --help            show this help message and exit",
  "  --handle-linux-macros",
  "                        translate IS_ENABLED, IS_BUILTIN and IS_MODULE",
  "  --fuzzy-parsing       encode integer comparisons and bare identifiers as",
  "                        variables",
  "  --invalid-condition \x7bexception,true,error_variable\x7d",
  "                        how to handle conditions that cannot be parsed",
  "  --no-pseudo-block     do not wrap the file in a block when code lies outside",
  "                        all #if blocks",
  "  --set KEY=VALUE       apply a configuration setting such as",
  "                        code.extractor.fuzzy_parsing=true",
  "  --source-tree SOURCE_TREE",
  "                        directory the input paths are relative to",
  "  --format \x7bhuman,json\x7d",
  "                        output format for blocks and diagnostics",
  "  --stats               print parsing statistics",
  "  --verbose             log progress to stderr"]

end Presence.CommandLine
