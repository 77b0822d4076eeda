import ChangeCapture.Delivery
import ChangeCapture.Streaming.Task

/-! # Sources of change records -/

namespace ChangeCapture

/-- A capture in the background: its tasks send records to one receiver and share one switch. -/
structure CaptureSource where
  config : Configuration
  /-- The database of the server. -/
  database : String
  /-- Committed offsets are saved. -/
  hasStore : Bool
  control : CaptureControl := {}
  channel : DeliveryChannel .sqlserver
  /-- The receiver was not given away yet. -/
  hasReceiver : Bool := true
  /-- How many tasks were started. -/
  started : Nat := 0

namespace CaptureSource

def ofConfiguration (config : Configuration) (database : String) (hasStore : Bool) : CaptureSource :=
  { config, database, hasStore, channel := .ofCapacity config.bufferSize }

/-- Gives the receiver away, once. -/
def takeReceiver (source : CaptureSource) : Bool × CaptureSource :=
  (source.hasReceiver, { source with hasReceiver := false })

/-- Starts a task with the number `started`. A task that was told to stop may still be running. -/
def start (source : CaptureSource) : Except CaptureError (CaptureTask × CaptureSource) := do
  let control ← source.control.start source.started
  let task := CaptureTask.ofConfiguration source.config source.database source.hasStore
  return (task, { source with control, started := source.started + 1 })

def stop (source : CaptureSource) : CaptureSource :=
  { source with control := source.control.stop }

/-- A task has ended. -/
def finish (source : CaptureSource) (task : Nat) (result : Except CaptureError Unit) :
    CaptureSource :=
  { source with control := source.control.finish task result }

def isHealthy (source : CaptureSource) : Bool := source.control.isHealthy

end CaptureSource

end ChangeCapture
