set_option autoImplicit false

/-! # Arguments of the command line -/

namespace TurtleLogo.Command

/-- How the result of a script is reported. -/
inductive Mode where
  /-- Lines as they are, failures for people. -/
  | text
  /-- One JSON object. -/
  | json
  deriving DecidableEq, Repr

/-- The mode of a name. -/
def Mode.ofName? (name : String) : Option Mode :=
  if name = "text" then some .text else if name = "json" then some .json else none

/-- What the arguments ask for. -/
structure Options where
  /-- The program text, if it is given in the arguments. -/
  script : Option String := none
  /-- The file that holds the program text. -/
  path : Option String := none
  mode : Mode := .text
  /-- Whether waiting takes time. -/
  realtime : Bool := false
  /-- Whether the button of the turtle is held down. -/
  button : Bool := false

/-- Why no script is run. -/
inductive Refusal where
  | scriptMissing
  | modeMissing
  | unknownOption (argument : String)

/-- The wording of a refusal. -/
def Refusal.message : Refusal → String
  | scriptMissing => "Error: -e requires a script argument"
  | modeMissing => "Error: -o expects 'text' or 'json'"
  | unknownOption argument => "Unknown option: " ++ argument

/-- What a command line asks for. -/
inductive Request where
  | help
  | refuse (why : Refusal)
  | run (options : Options)

/-- Reads the arguments in order; the first that settles the matter does, and of two settings the
later one holds. -/
def parse (o : Options) : List String → Request
  | [] => .run o
  | arg :: rest =>
    if arg = "-h" ∨ arg = "--help" then .help
    else if arg = "-e" ∨ arg = "--eval" then
      match rest with
      | script :: rest => parse { o with script := some script } rest
      | [] => .refuse .scriptMissing
    else if arg = "-o" ∨ arg = "--output" then
      match rest with
      | name :: rest =>
        match Mode.ofName? name with
        | some mode => parse { o with mode } rest
        | none => .refuse .modeMissing
      | [] => .refuse .modeMissing
    else if arg = "--realtime" then parse { o with realtime := true } rest
    else if arg = "--button" then parse { o with button := true } rest
    else if arg.toList.head? = some '-' then .refuse (.unknownOption arg)
    else parse { o with path := some arg } rest

/-- The help text. -/
def help : String :=
  "Logo CLI - turtle interpreter\n" ++
  "\n" ++
  "USAGE:\n" ++
  "    logo-cli <SCRIPT>         Run a Logo program\n" ++
  "    logo-cli -e <CODE>        Evaluate inline program\n" ++
  "    logo-cli -h               Show this help\n" ++
  "    cat file | logo-cli       Read program from stdin\n" ++
  "\n" ++
  "OPTIONS:\n" ++
  "    -e, --eval <CODE>         Evaluate inline program\n" ++
  "    -o, --output <MODE>       Output mode: text (default) or json\n" ++
  "        --realtime            Make wait and beep take real time\n" ++
  "        --button              Report the turtle button as pressed\n" ++
  "\n" ++
  "ENVIRONMENT:\n" ++
  "    LOGO_CLI_REALTIME=1       Same as --realtime\n" ++
  "    RUST_LOG                  Tracing filter, e.g. logo=debug\n"

end TurtleLogo.Command
