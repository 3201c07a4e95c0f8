import HeaviestChain.Identity
import HeaviestChain.Storage
import HeaviestChain.Text.Shown

/-!
# Settings

What the operator of a node can choose, with the usual choices as defaults, and when a choice is
one that a node can run with.
-/

namespace HeaviestChain

/-- How the log is written. -/
inductive LogFormat where
  /-- For people. -/
  | human
  /-- For programs, one object a line. -/
  | json
  deriving DecidableEq

/-- What a node can be told before it starts. -/
structure Settings where
  /-- The network the node belongs to. -/
  network : NetworkId := .mainnet
  /-- How many blocks may wait for their parents. -/
  maxOrphans : UInt64 := 65536
  /-- How many seconds a block may wait for its parent. -/
  orphanLifetime : UInt64 := 3600
  /-- The seconds between two rounds of upkeep. -/
  upkeepInterval : UInt64 := 60
  /-- The number of received messages that there is room for. -/
  inboundCapacity : UInt64 := 1024
  /-- The number of frames to send that there is room for. -/
  outboundCapacity : UInt64 := 1024
  /-- How many blocks may be asked for after one status. -/
  maxSyncRequests : UInt64 := 512
  /-- The name of the log format. -/
  logFormat : String := "human"
  /-- Which log records are written. -/
  logLevel : String := "info"
  /-- Whether the node keeps count of what it does. -/
  collectsMetrics : Bool := false
  deriving DecidableEq

/-- Why settings are of no use. -/
inductive SettingsError where
  /-- A queue has no room. -/
  | noQueueCapacity
  /-- Upkeep would never pause. -/
  | noUpkeepInterval
  /-- No block could be asked for. -/
  | noSyncRequests
  /-- The requests after one status do not fit into the queue. -/
  | tooManySyncRequests (requests capacity : UInt64)
  /-- There is no log format of this name. -/
  | unknownLogFormat (name : String)
  /-- The text is no document that gives the settings. -/
  | unreadableDocument
  /-- A number is larger than a document can hold. -/
  | unwritableNumber
  /-- The file cannot be read. -/
  | file (error : FileError)
  /-- The file is not a text. -/
  | undecodableFile
  deriving DecidableEq

namespace SettingsError

/-- What is reported about the error. -/
def message : SettingsError → String
  | noQueueCapacity => "queue capacities must be non-zero"
  | noUpkeepInterval => "maintenance_interval_secs must be non-zero"
  | noSyncRequests => "max_sync_requests must be non-zero"
  | tooManySyncRequests requests capacity =>
      s!"max_sync_requests ({requests.toNat}) exceeds outbound_queue_capacity ({capacity.toNat})"
  | unknownLogFormat name =>
      s!"unknown log format {Text.quoted name}, expected \"human\" or \"json\""
  | unreadableDocument => "TOML"
  | unwritableNumber => "out-of-range value for u64 type"
  | file error => error.message
  | undecodableFile => "stream did not contain valid UTF-8"

end SettingsError

namespace LogFormat

/-- The name of the format. -/
def name : LogFormat → String
  | human => "human"
  | json => "json"

/-- The format of the given name, in capital or small letters. -/
def ofName (name : String) : Except SettingsError LogFormat :=
  match name.map Char.toLower with
  | "human" => .ok human
  | "json" => .ok json
  | other => .error (.unknownLogFormat other)

end LogFormat

namespace Settings

/-- The log format. -/
def format (settings : Settings) : Except SettingsError LogFormat :=
  LogFormat.ofName settings.logFormat

/-- The first reason why a node cannot run with the settings. -/
def flaw? (settings : Settings) : Option SettingsError :=
  if settings.inboundCapacity = 0 ∨ settings.outboundCapacity = 0 then some .noQueueCapacity
  else if settings.upkeepInterval = 0 then some .noUpkeepInterval
  else if settings.maxSyncRequests = 0 then some .noSyncRequests
  else if settings.outboundCapacity < settings.maxSyncRequests then
    some (.tooManySyncRequests settings.maxSyncRequests settings.outboundCapacity)
  else
    match settings.format with
    | .error error => some error
    | .ok _ => none

/-- The settings, if a node can run with them. -/
def checked (settings : Settings) : Except SettingsError Settings :=
  match settings.flaw? with
  | some error => .error error
  | none => .ok settings

end Settings

end HeaviestChain
