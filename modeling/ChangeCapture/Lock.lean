import ChangeCapture.Capture.Server

/-! # Exclusive table locks -/

namespace ChangeCapture

/-- The outcome of something done under a lock that was released afterwards. Its own failure wins over
that of the release. -/
def afterRelease {α : Type} (result : Except CaptureError α) (released : Except CaptureError Unit) :
    Except CaptureError α :=
  match result, released with
  | .ok value, .ok _ => .ok value
  | .ok _, .error e => .error e
  | .error e, _ => .error e

/-- Does something under the lock of a table. If the lock is granted it is released once, whether that
succeeds or fails. -/
def withTableLock {m : Type → Type} [Monad m] {α : Type} (table : TableId) (timeout : Nat)
    (acquire : m LockAnswer) (release : m (Except CaptureError Unit))
    (body : m (Except CaptureError α)) : m (Except CaptureError α) := do
  match ← acquire with
  | .expired => return .error (.lockTimeout table.display timeout)
  | .refused e => return .error e
  | .granted => do
      let result ← body
      let released ← release
      return afterRelease result released

/-- Does something in a capture program under the lock of a table. -/
def CaptureStep.locked {α : Type} (table : TableId) (timeout : Nat) (body : CaptureStep α) :
    CaptureStep α :=
  ExceptT.mk
    (withTableLock table timeout (Server.lockTable table timeout) (Server.unlockTable table)
      body.run)

end ChangeCapture
