import ChangeCapture.Capture.Request
import ChangeCapture.Offset.Store

/-! # Storage in memory -/

namespace ChangeCapture

/-- Offsets by key and the texts of files by path. -/
structure MemoryStorage where
  offsets : OffsetMap .sqlserver := ∅
  files : Std.TreeMap String String := ∅

/-- Answers a request. -/
def MemoryStorage.answer : (request : StorageRequest) → StateM MemoryStorage request.Answer
  | .loadOffset key => return .ok ((← get).offsets.load key)
  | .saveOffset key offset => do
      modify fun storage => { storage with offsets := storage.offsets.save key offset }
      return .ok ()
  | .readProgress path => return .ok ((← get).files.get? path)
  | .writeProgress path text => do
      modify fun storage => { storage with files := storage.files.insert path text }
      return .ok ()

end ChangeCapture
