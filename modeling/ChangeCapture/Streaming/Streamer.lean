import ChangeCapture.Capture.ChangeStream
import ChangeCapture.Capture.Planner
import ChangeCapture.Configuration
import ChangeCapture.Offset.Tracker
import ChangeCapture.Snapshot.Reading

/-! # Capturing changes interval by interval -/

namespace ChangeCapture

/-! ## State -/

/-- Where a capture stands between two intervals. -/
structure Streamer where
  /-- The database of the server. -/
  database : String
  filter : TableFilter
  maxTransactions : Nat
  offsetKey : String
  /-- Committed offsets are saved. -/
  hasStore : Bool
  tracker : OffsetTracker .sqlserver := {}
  registry : RegistrySnapshot := {}
  /-- The whole listing is asked for next time. -/
  registryStale : Bool := true
  /-- The start of the last interval that was completed. -/
  lastFrom : Lsn := .null
  /-- The start of the next interval. -/
  nextFrom : Lsn := .null

/-- What became of an interval. -/
structure IntervalStats where
  first : Lsn
  last : Lsn
  windows : Nat
  delivered : Nat
  /-- Changes that had been committed before. -/
  skipped : Nat
  /-- The interval ended at the last transaction. -/
  caughtUp : Bool
  deriving DecidableEq, Repr

/-- A program that may fail and keeps the state in which it failed. -/
abbrev StreamStep := ExceptT CaptureError (StateT Streamer CaptureProgram)

namespace Streamer

def ofConfiguration (config : Configuration) (database : String) (hasStore : Bool) : Streamer :=
  { database, filter := config.tableFilter, maxTransactions := config.maxTransactions
    offsetKey := config.offsetKey, hasStore }

/-- Resumes after an offset: its interval is read again. -/
def resumeFrom (streamer : Streamer) (offset : Offset .sqlserver) : Streamer :=
  { streamer with nextFrom := offset.position, tracker := ⟨some offset⟩ }

def startAt (streamer : Streamer) (lsn : Lsn) : Streamer := { streamer with nextFrom := lsn }

def liftStep {α : Type} (step : CaptureStep α) : StreamStep α := ExceptT.mk (StateT.lift step.run)

def liftProgram {α : Type} (program : CaptureProgram α) : StreamStep α :=
  liftStep (ExceptT.lift program)

/-! ## Positions -/

def notIncremented (lsn next : Lsn) : CaptureError :=
  .invalidPosition s!"fn_cdc_increment_lsn({Lsn.display lsn}) returned {Lsn.display next}"

/-- The position after one, which must be greater. -/
def increment (lsn : Lsn) : CaptureStep Lsn := do
  let next ← Server.incrementLsn lsn
  if next ≤ lsn then throw (notIncremented lsn next) else return next

/-- The end of the interval from `first`: the last transaction that it may take, and `bound` at most. -/
def intervalEnd (maxTransactions : Nat) (first bound : Lsn) : CaptureStep Lsn := do
  if maxTransactions = 0 || first.isNull then return bound
  else
    let nth ← Server.nthTransactionLsn first maxTransactions
    return if nth.isNull || bound < nth then bound else nth

/-! ## Start -/

/-- The newest active capture instance of each table, in the order of the tables. Of two that start at
one position the first counts. -/
def newestInstances (sources : List CaptureInstance) : List CaptureInstance :=
  let newest := (sources.filter fun ci => !ci.isRetired).foldl add []
  newest.mergeSort fun ci cj => (compare ci.table cj.table).isLE
where
  add (newest : List CaptureInstance) (ci : CaptureInstance) : List CaptureInstance :=
    match newest with
    | [] => [ci]
    | known :: rest =>
        if known.table = ci.table then
          (if known.startLsn < ci.startLsn then ci else known) :: rest
        else known :: add rest ci

/-- The progress that a file keeps, or a new one at a position. -/
def loadProgress (database : String) (path : Option String) (highest : Lsn) :
    CaptureStep SnapshotState := do
  let kept ← match path with
    | some path => Server.readProgress path
    | none => pure none
  match kept with
  | some text => ExceptT.mk (pure (SnapshotState.read text))
  | none => do
      let time ← ExceptT.lift Server.now
      return SnapshotState.start database highest time

/-- Reads all captured tables; the answer is the position after which changes are to be read. -/
def readTables (streamer : Streamer) (config : Configuration) (highest : Lsn) :
    CaptureStep Lsn := do
  let state ← loadProgress streamer.database config.snapshotStatePath highest
  let watermark ← ExceptT.mk (pure state.watermark)
  let sources ← Registry.listSources streamer.database streamer.filter
  let schemas ← (newestInstances sources).mapM Registry.resolveSchema
  let (result, _) ← ExceptT.lift
    (SnapshotReading.execute config.lockTimeout config.snapshotStatePath schemas state)
  match result with
  | .ok _ => return watermark
  | .error e => throw e

/-- The position after `watermark`, or null if nothing was captured yet. -/
def startAfter (watermark : Lsn) : CaptureStep Lsn :=
  if watermark.isNull then return .null else increment watermark

/-- Finds out where the first interval starts: after the stored offset, at the configured start, after
a first reading, or after what was captured so far. -/
def establishStart (config : Configuration) : StreamStep Unit := do
  let streamer ← get
  let stored ← if streamer.hasStore then liftStep (Server.loadOffset streamer.offsetKey)
    else pure none
  match stored with
  | some offset => set (streamer.resumeFrom offset)
  | none =>
      match ← ExceptT.mk (pure config.startPosition) with
      | some (.offset offset) => set (streamer.resumeFrom offset)
      | some (.lsn lsn) => set (streamer.startAt lsn)
      | none => do
          let highest ← liftStep Server.maxLsn
          let watermark ← match config.snapshotMode with
            | .initial => liftStep (readTables streamer config highest)
            | .never => pure highest
          let first ← liftStep (startAfter watermark)
          set (streamer.startAt first)

/-! ## Intervals -/

/-- What is known of the capture instances for an interval that ends at `last`. As long as no instance is
new, the known listing is kept. New ones are looked for from the start of the interval before. -/
def reconcileRegistry (streamer : Streamer) (last : Lsn) : CaptureStep RegistryDiff := do
  let known := streamer.registry
  if streamer.registryStale || known.isEmpty || streamer.lastFrom.isNull then
    let latest ← Registry.listSources streamer.database streamer.filter
    return known.reconcile latest
  else
    let found ← Registry.listNewSources streamer.database streamer.filter streamer.lastFrom last
    if found.all fun ci => (known.get? ci.name).isSome then return known.reconcile known.toList
    else return known.reconcile (known.toList ++ found)

/-- The windows with the schemas of their tables. -/
def resolveWindows (windows : List SourceWindow) : CaptureStep (List PlannedWindow) :=
  windows.mapM fun window => do
    let schema ← Registry.resolveSchema window.source
    return { window, schema }

/-- How the delivery of the changes of an interval went on. -/
structure DeliveryProgress where
  resume : ResumeFilter .sqlserver
  delivered : Nat := 0
  /-- The capture was stopped before the last change. -/
  stopped : Bool := false

/-- Hands over a change, commits its offset when it is acknowledged and saves it. -/
def commitRecord (record : ChangeRecord .sqlserver) : StreamStep Unit := do
  liftStep (Server.deliver record)
  let streamer ← get
  let tracker ← ExceptT.mk (pure (streamer.tracker.commit record.offset))
  set { streamer with tracker }
  if streamer.hasStore then liftStep (Server.saveOffset streamer.offsetKey record.offset)

/-- Hands over changes one by one until the capture is stopped. Those that were committed before are
passed over. -/
def deliverRecords (progress : DeliveryProgress) :
    List (ChangeRecord .sqlserver) → StreamStep DeliveryProgress
  | [] => return progress
  | record :: records => do
      let (skip, resume) := progress.resume.step record.offset
      let progress := { progress with resume }
      if skip then deliverRecords progress records
      else if ← liftProgram Server.isActive then
        commitRecord record
        deliverRecords { progress with delivered := progress.delivered + 1 } records
      else return { progress with stopped := true }

/-- Delivers the changes of an interval that is fixed. A failure of reading comes after the changes
before it, unless the capture is stopped there. -/
def deliverInterval (first last bound : Lsn) (diff : RegistryDiff) : StreamStep IntervalStats := do
  let windows ← liftStep (Planner.plan diff.snapshot.toList first last)
  let planned ← liftStep (resolveWindows windows)
  let stream ← liftStep (ChangeStream.start planned)
  let (records, failure, _) := stream.drain
  let committed := (← get).tracker.committed
  let progress ← deliverRecords { resume := { resumeAfter := committed } } records
  let stats : IntervalStats :=
    { first, last, windows := planned.length, delivered := progress.delivered
      skipped := progress.resume.skipped, caughtUp := false }
  if progress.stopped then
    modify fun s => { s with registry := diff.snapshot, registryStale := false }
    return stats
  else
    match failure with
    | some e => throw e
    | none => do
        modify fun s =>
          { s with registry := diff.snapshot, registryStale := false, lastFrom := first }
        let nextFrom ← liftStep (increment last)
        modify fun s => { s with nextFrom }
        return { stats with caughtUp := last = bound }

/-- Reads one interval. There is none if nothing was captured from its start on, or no transaction. -/
def pollOnce : StreamStep (Option IntervalStats) := do
  let first := (← get).nextFrom
  let highest ← liftStep Server.maxLsn
  if highest.isNull || highest < first then return none
  else
    let lastTransaction ← liftStep Server.maxTransactionLsn
    if lastTransaction.isNull || lastTransaction < first then return none
    else
      let bound := min highest lastTransaction
      let last ← liftStep (intervalEnd (← get).maxTransactions first bound)
      let diff ← liftStep (reconcileRegistry (← get) last)
      modify fun s => { s with registryStale := true }
      let stats ← deliverInterval first last bound diff
      return some stats

/-! ## Runs -/

/-- Runs a step from a state; the answer is its outcome and the state after it. -/
def runStep {α : Type} (step : StreamStep α) (streamer : Streamer) :
    CaptureProgram (Except CaptureError α × Streamer) :=
  step.run.run streamer

end Streamer

end ChangeCapture
