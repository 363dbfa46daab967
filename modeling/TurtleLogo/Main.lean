import TurtleLogo.Command.Respond

set_option autoImplicit false

/-! # The command line

Gathers what the command line leads to, runs it and writes the answer. -/

namespace TurtleLogo.Command

/-- Reads a stream to its end. -/
partial def readAll (stream : IO.FS.Stream) (sofar : ByteArray) : IO ByteArray := do
  let chunk ← stream.read 65536
  if chunk.isEmpty then pure sofar else readAll stream (sofar ++ chunk)

/-- The wording of a failure of the system. -/
def systemMessage : IO.Error → String
  | .noFileOrDirectory _ code _ => s!"No such file or directory (os error {code})"
  | .permissionDenied _ code _ => s!"Permission denied (os error {code})"
  | .inappropriateType _ code _ => s!"Is a directory (os error {code})"
  | e => toString e

/-- The bytes of a file, or why there are none. -/
def readFile (path : String) : IO (Except String ByteArray) := do
  try
    let bytes ← IO.FS.readBinFile path
    pure (.ok bytes)
  catch e => pure (.error (systemMessage e))

/-- What the options lead to; only what they need is read. -/
def gather (o : Options) : IO Surroundings := do
  match o.script, o.path with
  | some _, _ => pure ⟨fun _ => .ok ByteArray.empty, ByteArray.empty, o.realtime⟩
  | none, some path =>
    let bytes ← readFile path
    pure ⟨fun _ => bytes, ByteArray.empty, o.realtime⟩
  | none, none =>
    let bytes ← readAll (← IO.getStdin) ByteArray.empty
    pure ⟨fun _ => .ok ByteArray.empty, bytes, o.realtime⟩

/-- Takes the time that the turtle spent waiting. -/
def waitFor (seconds : Float) : IO Unit :=
  if seconds > 0.0 && seconds < 4.0e6 then IO.sleep (seconds * 1000.0).toUInt32 else pure ()

/-- Runs a script and measures how long it takes. -/
def runTimed (o : Options) (source : String) : IO Response := do
  let start ← IO.monoMsNow
  let ending ← IO.lazyPure fun _ => runScript o source
  match ending with
  | none => pure unfinished
  | some e =>
    if o.realtime then waitFor e.world.turtle.elapsed
    let finish ← IO.monoMsNow
    pure (e.respond o.mode source (finish - start))

/-- Runs what the options ask for. Without a script at a terminal there is only help. -/
def runOptions (o : Options) : IO Response := do
  if o.script.isNone && o.path.isNone && (← (← IO.getStdin).isTty) then
    pure ⟨1, help, ""⟩
  else
    match source o (← gather o) with
    | .error message => pure (refusal message)
    | .ok source => runTimed o source

/-- Answers a command line. -/
def answer (args : List String) : IO Response := do
  let realtime := (← IO.getEnv "LOGO_CLI_REALTIME") == some "1"
  match parse { realtime } args with
  | .help => pure ⟨0, help, ""⟩
  | .refuse why => pure (refusal why.message)
  | .run o => runOptions o

end TurtleLogo.Command

/-- Runs a script given by the arguments, a file or the standard input. -/
def main (args : List String) : IO UInt32 := do
  let response ← TurtleLogo.Command.answer args
  (← IO.getStdout).putStr response.stdout
  (← IO.getStderr).putStr response.stderr
  pure response.code.toUInt32
