import GraphicsBatch.Config.Settings

/-! # What the program says about itself -/

namespace GraphicsBatch.Application

def rights : String :=
  "(c) 2026 The PyOriel Authors. Licensed under the GNU GPL version 3 or later."

def versionText : String :=
  Config.programName ++ " " ++ Config.programVersion ++ "\n" ++ rights ++ "\n"

def usageText : String :=
  "Usage: oriel [options] PROGRAM.orl\n" ++
  "\n" ++
  "Run an Oriel graphics batch program.\n" ++
  "\n" ++
  "Positional argument:\n" ++
  "  PROGRAM.orl             Oriel source file to run.\n" ++
  "\n" ++
  "Options:\n" ++
  "  --interface=IFACE       Host interface to use. IFACE is one of:\n" ++
  "                            graphical  graphical window (default)\n" ++
  "                            pygame     graphical window using pygame\n" ++
  "                            none       no window; commands are logged\n" ++
  "  -n                      Same as --interface=none.\n" ++
  "  --pedantic              Labels must start at the beginning of a line.\n" ++
  "  -p                      Same as --pedantic.\n" ++
  "  --max-stack=N           Maximum Gosub nesting depth. Default is 10000.\n" ++
  "  --caption=TEXT          Initial window caption.\n" ++
  "  --dimensions=X,Y        Initial window size in pixels.\n" ++
  "  --config=FILE           Read options from configuration file FILE.\n" ++
  "  --preset=NAME           Load options from section [NAME] of the\n" ++
  "                          configuration file.\n" ++
  "  --logfile=FILE          Write log messages to FILE instead of stderr.\n" ++
  "  --debug                 Log every executed statement.\n" ++
  "  -d                      Same as --debug.\n" ++
  "  -h, --help              Show this text and exit.\n" ++
  "  -v, --version           Show version and exit.\n" ++
  "\n" ++
  "Exit status:\n" ++
  "  0  program ended, ran out of statements, or the window was closed\n" ++
  "  1  syntax error, undefined label or fatal runtime error\n" ++
  "  2  program file missing or unreadable\n" ++
  "\n" ++
  "Options are also read from ORIEL.INI in the current directory and from\n" ++
  "the user configuration file. Options in the [oriel] section apply by default.\n"

end GraphicsBatch.Application
