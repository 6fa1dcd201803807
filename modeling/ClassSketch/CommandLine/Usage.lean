/-!
# Usage and help
-/

namespace ClassSketch.CommandLine

def programName : String :=
  "plantuml-transpiler"

def usage : String :=
  "usage: plantuml-transpiler [-h] [--input INPUT] [--output OUTPUT]\n" ++
  "                           [--language LANGUAGE] [--indent INDENT]\n" ++
  "                           [--order-by-inheritance] [--list-languages]\n" ++
  "                           [--verbose]\n"

def help : String :=
  usage ++
  "\n" ++
  "Generate source code skeletons from a PlantUML class diagram\n" ++
  "\n" ++
  "options:\n" ++
  "  -h, --help            show this help message and exit\n" ++
  "  --input INPUT, -i INPUT\n" ++
  "                        Input .puml file (default: read stdin)\n" ++
  "  --output OUTPUT, -o OUTPUT\n" ++
  "                        Output file (default: write stdout)\n" ++
  "  --language LANGUAGE, -l LANGUAGE\n" ++
  "                        Target language: csharp, java, javascript, kotlin,\n" ++
  "                        python, ruby, typescript\n" ++
  "  --indent INDENT       Spaces per indent level\n" ++
  "  --order-by-inheritance\n" ++
  "                        Emit supertypes before their subtypes\n" ++
  "  --list-languages      List supported languages and exit\n" ++
  "  --verbose, -v         Log parser diagnostics\n"

end ClassSketch.CommandLine
