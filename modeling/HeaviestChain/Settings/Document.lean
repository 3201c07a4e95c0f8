import HeaviestChain.Settings
import HeaviestChain.Text.Utf8
import HeaviestChain.Toml.Document
import HeaviestChain.Toml.Written

/-!
# Settings in a document

Settings are kept in a TOML document with a key for each of them.  When a document is read, a key
that is missing means the usual choice, and other keys mean nothing.
-/

namespace HeaviestChain

/-- What a key of the document stands for. -/
inductive SettingValue where
  /-- A number of 32 bits. -/
  | halfWord (value : UInt32)
  /-- A number of 64 bits. -/
  | word (value : UInt64)
  /-- A text. -/
  | text (content : String)
  /-- A truth value. -/
  | truth (value : Bool)
  deriving DecidableEq

namespace SettingValue

/-- The value as it is written.  A document has room for numbers with a sign in 64 bits. -/
def written : SettingValue → Except SettingsError String
  | halfWord value => .ok (toString value.toNat)
  | word value =>
      if value ≤ Int64.maxValue.toUInt64 then .ok (toString value.toNat) else .error .unwritableNumber
  | text content => .ok (Toml.writtenText content)
  | truth value => .ok (if value then "true" else "false")

end SettingValue

namespace Settings

open Toml (Entries)

/-! ## Reading -/

/-- The whole number below `bound` that a key stands for, if the key is there. -/
def wholeNumber (document : Entries) (key : String) (bound default : Nat) :
    Except SettingsError Nat :=
  match document.lookup key with
  | none => .ok default
  | some (.value (.number (.integer value))) =>
      if 0 ≤ value ∧ value < bound then .ok value.toNat else .error .unreadableDocument
  | some _ => .error .unreadableDocument

/-- The 64-bit number that a key stands for. -/
def word (document : Entries) (key : String) (default : UInt64) : Except SettingsError UInt64 := do
  pure (.ofNat (← wholeNumber document key UInt64.size default.toNat))

/-- The text that a key stands for. -/
def text (document : Entries) (key default : String) : Except SettingsError String :=
  match document.lookup key with
  | none => .ok default
  | some (.value (.text content)) => .ok content
  | some _ => .error .unreadableDocument

/-- The truth value that a key stands for. -/
def truth (document : Entries) (key : String) (default : Bool) : Except SettingsError Bool :=
  match document.lookup key with
  | none => .ok default
  | some (.value (.boolean value)) => .ok value
  | some _ => .error .unreadableDocument

/-- The settings that a tree of keys gives. -/
def ofEntries (document : Entries) : Except SettingsError Settings := do
  let usual : Settings := {}
  let network ← wholeNumber document "network_id" UInt32.size usual.network.number.toNat
  pure
    { network := ⟨.ofNat network⟩
      maxOrphans := ← word document "max_orphans" usual.maxOrphans
      orphanLifetime := ← word document "orphan_expiry_secs" usual.orphanLifetime
      upkeepInterval := ← word document "maintenance_interval_secs" usual.upkeepInterval
      inboundCapacity := ← word document "inbound_queue_capacity" usual.inboundCapacity
      outboundCapacity := ← word document "outbound_queue_capacity" usual.outboundCapacity
      maxSyncRequests := ← word document "max_sync_requests" usual.maxSyncRequests
      logFormat := ← text document "log_format" usual.logFormat
      logLevel := ← text document "log_level" usual.logLevel
      collectsMetrics := ← truth document "enable_metrics" usual.collectsMetrics }

/-- The settings that a document gives, if a node can run with them. -/
def ofDocument (document : String) : Except SettingsError Settings :=
  match Toml.read? document with
  | none => .error .unreadableDocument
  | some entries => do (← ofEntries entries).checked

/-- The settings that a file with the given content gives, if it can be read. -/
def ofFile (content : Except FileError Bytes) : Except SettingsError Settings :=
  match content with
  | .error error => .error (.file error)
  | .ok bytes =>
      match Utf8.decode? bytes with
      | none => .error .undecodableFile
      | some document => ofDocument document

/-! ## Writing -/

/-- The keys with what they stand for, in the order in which they are written. -/
def entries (settings : Settings) : List (String × SettingValue) :=
  [("network_id", .halfWord settings.network.number),
    ("max_orphans", .word settings.maxOrphans),
    ("orphan_expiry_secs", .word settings.orphanLifetime),
    ("maintenance_interval_secs", .word settings.upkeepInterval),
    ("inbound_queue_capacity", .word settings.inboundCapacity),
    ("outbound_queue_capacity", .word settings.outboundCapacity),
    ("max_sync_requests", .word settings.maxSyncRequests),
    ("log_format", .text settings.logFormat),
    ("log_level", .text settings.logLevel),
    ("enable_metrics", .truth settings.collectsMetrics)]

/-- The document that gives the settings. -/
def toDocument (settings : Settings) : Except SettingsError String := do
  let lines ← settings.entries.mapM fun (key, value) => do
    pure s!"{key} = {← value.written}\n"
  pure (String.join lines)

end Settings

end HeaviestChain
