import ChangeCapture.Disk
import ChangeCapture.Json.Decoding
import ChangeCapture.Json.Writing
import ChangeCapture.Offset.Basic

/-! # Stores of offsets -/

namespace ChangeCapture

variable {b : Backend}

/-! ## JSON text of offsets -/

namespace Offset

def toJson (o : Offset b) : Json := .string o.render

def ofTree? (tree : Json.Tree) : Option (Offset b) := do
  let text ← tree.toString?
  (parse text).toOption

/-- The offset as a JSON string. -/
def writeJson (o : Offset b) : String := o.toJson.compact

/-- The bytes of that string. -/
def jsonBytes (o : Offset b) : List UInt8 := o.writeJson.toUTF8.toList

def readJson (text : String) : Except CaptureError (Offset b) := Json.decodeText ofTree? text

end Offset

/-! ## Stores in memory -/

/-- The last saved offset of each key. -/
abbrev OffsetMap (b : Backend) := Std.TreeMap String (Offset b)

namespace OffsetMap

def load (store : OffsetMap b) (key : String) : Option (Offset b) := store.get? key

def save (store : OffsetMap b) (key : String) (offset : Offset b) : OffsetMap b :=
  store.insert key offset

end OffsetMap

/-! ## Stores in files -/

namespace OffsetFiles

def invalidKey (key : String) : CaptureError := .config s!"Invalid offset key '{key}'"

/-- A key is not empty and names no path. -/
def isKey (key : String) : Bool :=
  !key.isEmpty && !key.toList.contains '/' && !key.toList.contains '\\'

def fileName (key : String) : String := key ++ ".json"

/-- The name of the file that is written before it replaces the other: it has another ending. What is
left of the file name of a single point is the name of the directory above. -/
def temporaryName (key : String) : String := if key = "." then ".." else key ++ ".tmp"

/-- The saved offset of a key, if there is one. -/
def load (dir : Directory) (key : String) : Except CaptureError (Option (Offset b)) :=
  if isKey key then do
    match ← dir.read? (fileName key) with
    | some text => (Offset.readJson text).map some
    | none => return none
  else .error (invalidKey key)

/-- What is done to save an offset: a file is emptied or created, written, with `fsync` forced to the
disk, and renamed. -/
def tasks (key : String) (offset : Offset b) (fsync : Bool) : List FileTask :=
  [.truncate (temporaryName key), .write (temporaryName key) offset.jsonBytes] ++
    (if fsync then [.sync (temporaryName key)] else []) ++ [.rename (temporaryName key) (fileName key)]

end OffsetFiles

/-- A store that was opened on a directory. -/
structure FileStore where
  disk : Disk := {}
  /-- What is written is forced to the disk before it takes the place of what was saved. -/
  fsync : Bool := true

namespace FileStore

/-- Another store on the same directory. -/
def reopen (store : FileStore) (fsync : Bool) : FileStore := { store with fsync }

def load (store : FileStore) (key : String) : Except CaptureError (Option (Offset b)) :=
  OffsetFiles.load store.disk.files key

/-- Saves an offset for a key. -/
def save (store : FileStore) (key : String) (offset : Offset b) :
    FileStore × Except CaptureError Unit :=
  if OffsetFiles.isKey key then
    let (disk, result) := store.disk.performAll (OffsetFiles.tasks key offset store.fsync)
    ({ store with disk }, result)
  else (store, .error (OffsetFiles.invalidKey key))

/-- The threads do all that is queued. -/
def settle (store : FileStore) : FileStore :=
  { store with disk := store.disk.finish store.disk.queued }

end FileStore

end ChangeCapture
