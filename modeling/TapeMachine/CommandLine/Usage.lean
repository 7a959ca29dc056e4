/-!
# The usage text
-/

namespace TapeMachine.CommandLine

/-- The name under which the command is called. -/
def programName : String :=
  "bfrun"

def usage : String :=
  let name := programName
  "Usage:\n" ++
  s!"  {name} [OPTIONS] <FILE>        # Run the program in FILE\n" ++
  s!"  {name} [OPTIONS] --code <CODE> # Run CODE given on the command line\n" ++
  "\n" ++
  "Options:\n" ++
  "  --circular, -c        Make the tape circular (default: moving off either end is an error)\n" ++
  "  --bounded,  -b        Keep the tape bounded even if BFRUN_CIRCULAR or the config file says " ++
    "circular\n" ++
  "  --size,     -s <N>    Number of tape cells (default 65536)\n" ++
  "  --eof <POLICY>        Value stored by ',' at end of input: zero (default), max, unchanged\n" ++
  "  --code,     -e <CODE> Run CODE instead of a file\n" ++
  "  --help,     -h        Show this help\n" ++
  "\n" ++
  "Notes:\n" ++
  "- Characters outside of ><+-.,[] are ignored and may be used as comments.\n" ++
  "- Input (`,`) reads a single byte from stdin.\n" ++
  "- Defaults may also come from BFRUN_TAPE_LENGTH, BFRUN_CIRCULAR, BFRUN_EOF\n" ++
  "  or an [interpreter] section in ~/.config/bfrun.toml.\n" ++
  "- Set BFRUN_LOG=debug to see interpreter diagnostics on stderr.\n" ++
  "\n" ++
  "Examples:\n" ++
  "- Echo stdin back until end of input:\n" ++
  s!"    {name} --code \",[.,]\" < input.txt\n" ++
  "- Run on a small wrapping tape:\n" ++
  s!"    {name} -c -s 16 ./program.bf\n" ++
  "\n"

end TapeMachine.CommandLine
