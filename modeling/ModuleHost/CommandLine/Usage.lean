/-!
# Usage

The texts that describe the program.
-/

namespace ModuleHost.CommandLine

def programName : String := "nlreq"

def versionLine : String := programName ++ " 0.1.0\n"

def usage : String :=
  "Resolve, compile and load nl modules\n"
    ++ "\n"
    ++ "Usage: " ++ programName ++ " [OPTIONS] <COMMAND>\n"
    ++ "\n"
    ++ "Commands:\n"
    ++ "  compile [-o FILE] [-d] FILE  Compile a source file to bytecode\n"
    ++ "  disasm [--no-lines] FILE     Disassemble a bytecode file\n"
    ++ "  load NAME                    Load a module, running it even if already loaded\n"
    ++ "  resolve NAME                 Print the file a module name resolves to\n"
    ++ "  run NAME                     Require a module\n"
    ++ "  help                         Print this message\n"
    ++ "\n"
    ++ "Options:\n"
    ++ "  -I, --include <DIR>  Prepend a directory to the search path (repeatable)\n"
    ++ "      --config <FILE>  Configuration file (default: nlreq.toml in the working directory "
    ++ "or a parent)\n"
    ++ "  -o, --output <FILE>  Output file (default: input with .nlb extension)\n"
    ++ "  -d, --disasm         Show disassembly after compiling\n"
    ++ "      --no-lines       Hide source line numbers\n"
    ++ "  -h, --help           Print help\n"
    ++ "  -V, --version        Print version\n"

end ModuleHost.CommandLine
