import HeaviestChain.Daemon
import Std.Async.Signal

/-!
# The program

Gathers what the daemon needs from the process, and does what the daemon says: this is the one
place that reads the clock, the environment and files, writes, and waits.
-/

namespace HeaviestChain.Main

/-- The variables of the environment that matter. -/
def variableNames : List String :=
  Choice.all.map Choice.environmentName ++ ["CORVID_ENABLE_METRICS", "RUST_LOG"]

/-- What the operating system says is wrong with a file. -/
def fileError : IO.Error → FileError
  | .noFileOrDirectory _ code reason | .permissionDenied _ code reason
  | .inappropriateType _ code reason | .invalidArgument _ code reason
  | .resourceExhausted _ code reason | .illegalOperation code reason
  | .otherError code reason => ⟨reason, code.toNat⟩
  | error => ⟨toString error, 0⟩

/-- The content of a file, if it can be read. -/
def content (path : String) : IO (Except FileError Bytes) := do
  try
    let file ← IO.FS.Handle.mk path .read
    return .ok (← file.readBinToEnd).toList
  catch error => return .error (fileError error)

/-- Looks around for what the words ask for. -/
def lookAround (words : List String) : IO Surroundings := do
  let mut found : List (String × String) := []
  for name in variableNames do
    if let some value ← IO.getEnv name then
      found := (name, value) :: found
  let environment := (found.lookup ·)
  let path := (CommandLine.read words environment).toOption.bind fun choices =>
    choices.value? .file
  match path with
  | none => return ⟨environment, fun _ => .error .missing⟩
  | some path =>
      let content ← content path
      return ⟨environment, fun _ => content⟩

/-- Waits until the process is told to stop. -/
def awaitStop : IO StopReason := do
  let interrupt ← Std.Async.Signal.Waiter.mk .sigint false
  let terminate ← Std.Async.Signal.Waiter.mk .sigterm false
  let interrupted ← interrupt.wait
  let terminated ← terminate.wait
  let reason ← IO.waitAny
    [interrupted.map fun _ => StopReason.interrupt, terminated.map fun _ => StopReason.terminate]
  interrupt.stop
  terminate.stop
  IO.ofExcept reason

/-- The time now, in whole seconds. -/
def now : IO Timestamp := do
  let moment ← Std.Time.Timestamp.now
  return ⟨.ofNat moment.toSecondsSinceUnixEpoch.val.toNat⟩

/-- Writes records in the format of the plan. -/
def writeLog (plan : RunPlan) (records : List LogRecord) : IO Unit := do
  for record in records do
    IO.println (match plan.format with
      | .human => record.line
      | .json => record.json)
  (← IO.getStdout).flush

/-- Does what is left to do when no node is to be stopped. -/
def finish (ended : RunEnd) : IO UInt32 := do
  match ended with
  | .refused .help => IO.println Usage.help.text
  | .refused .misuse => IO.eprintln Usage.misuse.text
  | .failed error => IO.eprintln error.report
  | .unlogged => pure ()
  | .aborted plan records => writeLog plan records
  | .stopped plan records => writeLog plan records
  return .ofNat ended.exitCode

/-- Runs a node until the process is told to stop. -/
def run (words : List String) : IO UInt32 := do
  match Daemon.prepare words (← lookAround words) with
  | .error ended => finish ended
  | .ok plan =>
      match Daemon.start plan (← now) with
      | .error ended => finish ended
      | .ok (node, records) =>
          writeLog plan records
          let switch := (({} : StopSwitch).trip (← awaitStop)).1
          finish (.stopped plan (Daemon.stop plan node switch))

end HeaviestChain.Main

/-- The program. -/
def main (words : List String) : IO UInt32 := HeaviestChain.Main.run words
