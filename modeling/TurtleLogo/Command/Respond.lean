import TurtleLogo.Command.Options
import TurtleLogo.Report.Script
import TurtleLogo.Session

set_option autoImplicit false

/-! # What the command line answers

The answer is a function of the arguments and of what they lead to: the bytes of a file or of the
standard input. -/

namespace TurtleLogo.Command

/-- What a finished command leaves. -/
structure Response where
  code : Nat
  stdout : String := ""
  stderr : String := ""

/-- Where a script may come from. -/
structure Surroundings where
  /-- The bytes of a file, or why it cannot be read. -/
  file : String → Except String ByteArray
  /-- The bytes on the standard input. -/
  input : ByteArray
  /-- Whether the environment asks for waiting to take time. -/
  realtime : Bool := false

/-- The wording for bytes that are no text. -/
def notText : String :=
  "stream did not contain valid UTF-8"

/-- Bytes as text. -/
def decode (bytes : ByteArray) : Except String String :=
  match String.fromUTF8? bytes with
  | some s => .ok s
  | none => .error notText

/-- The program text, or the complaint that there is none. A script among the arguments goes before
a file, and a file before the standard input. -/
def source (o : Options) (s : Surroundings) : Except String String :=
  match o.script, o.path with
  | some script, _ => .ok script
  | none, some path =>
    ((s.file path).bind decode).mapError fun why =>
      "Error reading file '" ++ path ++ "': " ++ why
  | none, none => (decode s.input).mapError ("Error reading from stdin: " ++ ·)

/-- The part of the stack, in bytes, that a script may use. -/
def stackBytes : Nat :=
  256 * 1024 * 1024

/-- The state in which a script starts. -/
def startWorld (o : Options) : World :=
  { limit := callLimit stackBytes, turtle := { button := o.button } }

/-- How a script ended, and the state it left. -/
structure Ending where
  failure? : Option Failure
  world : World

/-- Runs a script; none if it does not end. -/
def runScript (o : Options) (source : String) : Option Ending :=
  (Session.runSource source false (startWorld o)).map fun (result, w) =>
    match result with
    | .ok _ => ⟨none, w⟩
    | .error f => ⟨some f, w⟩

/-- Each text with a line feed after it. -/
def unlines (lines : List String) : String :=
  String.join (lines.map (· ++ "\n"))

/-- The written lines as entries of a report. All are shown when the script has ended, so none has
a time of its own. -/
def entries (w : World) : List Report.Entry :=
  w.lines.toList.map (⟨0, ·⟩)

/-- The response to a script that ended. -/
def Ending.respond (e : Ending) (mode : Mode) (source : String) (milliseconds : Nat) : Response :=
  match mode, e.failure? with
  | .text, none => ⟨0, unlines e.world.lines.toList, ""⟩
  | .text, some f => ⟨2, unlines e.world.lines.toList, f.report source ++ "\n"⟩
  | .json, none =>
    ⟨0, (Report.completed e.world.turtle milliseconds (entries e.world)).write ++ "\n", ""⟩
  | .json, some f => ⟨2, (Report.failure (entries e.world) f).write ++ "\n", ""⟩

/-- The response to a complaint. -/
def refusal (message : String) : Response :=
  ⟨1, "", message ++ "\n"⟩

/-- The response to a script that does not end. -/
def unfinished : Response :=
  ⟨2, "", ""⟩

/-- Runs what the options ask for. -/
def respondTo (o : Options) (s : Surroundings) : Response :=
  match source o s with
  | .error message => refusal message
  | .ok source =>
    match runScript o source with
    | some e => e.respond o.mode source 0
    | none => unfinished

/-- The response to a command line. -/
def respond (args : List String) (s : Surroundings) : Response :=
  match parse { realtime := s.realtime } args with
  | .help => ⟨0, help, ""⟩
  | .refuse why => refusal why.message
  | .run o => respondTo o s

end TurtleLogo.Command
