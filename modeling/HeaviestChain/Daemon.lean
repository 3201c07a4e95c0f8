import HeaviestChain.CommandLine
import HeaviestChain.Log.Filter
import HeaviestChain.Node
import HeaviestChain.RootEngine
import HeaviestChain.Settings.Document
import HeaviestChain.StopSwitch

/-!
# The daemon

A program that runs one node until it is told to stop.  Its settings come from a file, if one is
named, and from the command line and the environment, which win over the file.  No transport is
attached, so nothing comes in; the node connects its genesis block and waits.
-/

namespace HeaviestChain

/-- Why the daemon runs no node. -/
inductive StartError where
  /-- The file at `path` gives no settings. -/
  | file (path : String) (error : SettingsError)
  /-- The node does not start. -/
  | node (error : NodeError)
  deriving DecidableEq

namespace StartError

/-- What is reported about the error. -/
def report : StartError → String
  | file path error =>
      s!"Error: loading config from {path}\n\nCaused by:\n    {(NodeError.settings error).message}"
  | node error => s!"Error: {error.message}"

end StartError

/-- What the daemon finds around it. -/
structure Surroundings where
  /-- The variables of the environment. -/
  environment? : String → Option String
  /-- The contents of files. -/
  file : String → Except FileError Bytes

/-- How the daemon goes on after it has read its settings. -/
structure RunPlan where
  /-- The settings of the node. -/
  settings : Settings
  /-- How the log is written. -/
  format : LogFormat
  /-- Which log records are written. -/
  filter : LogFilter
  /-- The file that gave settings, if one was named. -/
  path : Option String

/-- How a run of the daemon ends. -/
inductive RunEnd where
  /-- No node was started, for a reason that lies in the command line. -/
  | refused (usage : Usage)
  /-- No node was started, for a reason that is reported. -/
  | failed (error : StartError)
  /-- The daemon gave up, because a rule for its log could not be taken apart. -/
  | unlogged
  /-- The daemon gave up, because a queue would take too much memory. -/
  | aborted (plan : RunPlan) (records : List LogRecord)
  /-- A node ran until it was told to stop. -/
  | stopped (plan : RunPlan) (records : List LogRecord)

namespace RunEnd

/-- The exit code of the program. -/
def exitCode : RunEnd → Nat
  | refused usage => usage.exitCode
  | failed _ => 1
  | unlogged => 101
  | aborted .. => 101
  | stopped .. => 0

end RunEnd

namespace Daemon

/-! ## Settings -/

/-- The settings of a file with the choices put in. -/
def withChoices (settings : Settings) (choices : Choices) : Settings :=
  let network := (choices.value? .network).bind networkNumber?
  { settings with
    network := (network.map NetworkId.mk).getD settings.network
    logLevel := (choices.value? .logLevel).getD settings.logLevel
    logFormat := (choices.value? .logFormat).getD settings.logFormat
    collectsMetrics := choices.collectsMetrics || settings.collectsMetrics }

/-- The settings of the named file, or the usual ones if no file is named. -/
def fileSettings (surroundings : Surroundings) : Option String → Except StartError Settings
  | none => .ok {}
  | some path => (Settings.ofFile (surroundings.file path)).mapError (.file path)

/-- Which log records are written.  A variable of the environment wins over the settings if all of
it makes sense. -/
def logFilter (surroundings : Surroundings) (settings : Settings) :
    Except LogRuleError LogFilter :=
  match (surroundings.environment? "RUST_LOG").map LogFilter.ofText with
  | none | some (.error .meaningless) => LogFilter.ofSensibleRules settings.logLevel
  | some filter => filter

/-- The settings and the log format that the choices lead to. -/
def choose (surroundings : Surroundings) (choices : Choices) :
    Except StartError (Settings × LogFormat) := do
  let settings := withChoices (← fileSettings surroundings (choices.value? .file)) choices
  let settings ← settings.checked.mapError fun error => .node (.settings error)
  let format ← settings.format.mapError fun error => .node (.settings error)
  pure (settings, format)

/-- The plan that the choices lead to. -/
def plan (surroundings : Surroundings) (choices : Choices) : Except RunEnd RunPlan := do
  let (settings, format) ← (choose surroundings choices).mapError .failed
  let filter ← (logFilter surroundings settings).mapError fun _ => .unlogged
  pure { settings, format, filter, path := choices.value? .file }

/-! ## Log records -/

/-- A record of the daemon itself. -/
def record (level : LogLevel) (message : String) (fields : List (String × LogValue)) : LogRecord :=
  { level, target := "corvid_daemon", message, fields }

/-- A record of a part of the node. -/
def nodeRecord (part : String) (level : LogLevel) (message : String)
    (fields : List (String × LogValue)) : LogRecord :=
  { level, target := "corvid_node::" ++ part, message, fields }

/-- What the log is told about the work on a block. -/
def blockSpan (block : Block) : LogSpan :=
  { name := "block_process"
    target := "corvid_node::tracing_spans"
    fields := [("hash", .text block.hash.text), ("number", .number block.number.toNat)] }

/-- What is reported about an event; of events that need messages from peers there is nothing. -/
def eventRecords : ChainEvent → List LogRecord
  | .newBestBlock block =>
      [nodeRecord "block_processor" .info "new best block"
        [("hash", .text block.hash.text), ("number", .number block.number.toNat)]]
  | .blockConnected hash number =>
      [nodeRecord "block_processor" .debug "block connected"
        [("hash", .text hash.text), ("number", .number number.toNat)]]
  | _ => []

/-- What is reported before the node starts. -/
def loadRecords (plan : RunPlan) : List LogRecord :=
  match plan.path with
  | some path => [record .info "loaded config file" [("path", .text path)]]
  | none => []

/-- What is reported while the node starts, and connects its genesis block with these events. -/
def startRecords (settings : Settings) (genesis : Block) (events : List ChainEvent) :
    List LogRecord :=
  let network := LogValue.text settings.network.text
  [record .info "starting Corvid node"
      [("max_orphans", .number settings.maxOrphans.toNat),
        ("metrics", .truth settings.collectsMetrics), ("network", network)]] ++
    (events.flatMap eventRecords).map ({ · with span := some (blockSpan genesis) }) ++
    [nodeRecord "node" .info "genesis block connected" [("hash", .text genesis.hash.text)],
      nodeRecord "node" .info "node loop started" [("network", network)]]

/-- What is reported while the node stops. -/
def stopRecords {σ : Type} (node : Node σ) (reason : StopReason) : List LogRecord :=
  let why := ("reason", LogValue.text reason.name)
  let metrics := match node.metrics with
    | some metrics => [record .debug "final metrics" [("snapshot", .text metrics.text)]]
    | none => []
  let best := match node.participant.ledger.tree.best? with
    | some block =>
        [record .info "best block at shutdown"
          [("hash", .text block.hash.text), ("number", .number block.number.toNat)]]
    | none => []
  [nodeRecord "shutdown" .info "shutdown triggered" [why],
    nodeRecord "node" .info "node loop shutting down" [why]] ++
    metrics ++ best ++ [record .info "Corvid daemon exited cleanly" [why]]

/-! ## Running -/

/-- The greatest number of messages that a queue can have room for. -/
def maxQueueCapacity : Nat := UInt64.size / 8 - 1

/-- Whether there can be queues of the wanted sizes. -/
def hasRoom (settings : Settings) : Bool :=
  settings.inboundCapacity.toNat ≤ maxQueueCapacity &&
    settings.outboundCapacity.toNat ≤ maxQueueCapacity

/-- Reads the command line and the settings. -/
def prepare (words : List String) (surroundings : Surroundings) : Except RunEnd RunPlan := do
  let choices ← (CommandLine.read words surroundings.environment?).mapError .refused
  let plan ← plan surroundings choices
  if hasRoom plan.settings then pure plan
  else throw (.aborted plan ((loadRecords plan).filter plan.filter.passes))

/-- Starts the node and connects its genesis block.  Gives what is reported so far. -/
def start (plan : RunPlan) (now : Timestamp) :
    Except RunEnd (Node RootEngine × List LogRecord) := do
  let spec : GenesisSpec := {}
  let node ← (Node.start plan.settings (RootEngine.seeded spec.stateRoot)).mapError
    fun error => .failed (.node error)
  let seeded := node.seedGenesis spec.block now
  seeded.answer.mapError fun error => RunEnd.failed (.node error)
  let records := loadRecords plan ++ startRecords plan.settings spec.block seeded.events
  pure (seeded.node, records.filter plan.filter.passes)

/-- Stops a node whose switch was tripped.  Gives what is reported about that. -/
def stop (plan : RunPlan) (node : Node RootEngine) (switch : StopSwitch) : List LogRecord :=
  match switch.releasedFor? with
  | some reason => (stopRecords node reason).filter plan.filter.passes
  | none => []

/-- Runs the daemon until it is told to stop for the given reason. -/
def run (words : List String) (surroundings : Surroundings) (reason : StopReason)
    (now : Timestamp) : RunEnd :=
  let result := do
    let plan ← prepare words surroundings
    let (node, started) ← start plan now
    let switch := (({} : StopSwitch).trip reason).1
    pure (RunEnd.stopped plan (started ++ stop plan node switch))
  match result with
  | .ok ended => ended
  | .error ended => ended

end Daemon

end HeaviestChain
