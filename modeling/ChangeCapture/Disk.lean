import ChangeCapture.Error
import Std.Data.TreeMap

/-! # Files, and the threads that write them

What is written to a file is queued first, and a thread does it at some later time, when the file may have
another name. -/

namespace ChangeCapture

/-! ## Directories -/

/-- The bytes of the files of a directory by name. -/
abbrev Directory := Std.TreeMap String (List UInt8)

namespace Directory

/-- The bytes that a name may have. -/
def maxNameBytes : Nat := 255

/-- The failures of using a name: a character that no name can have, and too many bytes. -/
def checkName (name : String) : Except CaptureError Unit :=
  if name.toList.contains '\x00' then
    .error (.io .invalidInput "file name contained an unexpected NUL byte")
  else if maxNameBytes < name.utf8ByteSize then
    .error (.io .invalidFilename "File name too long (os error 36)")
  else .ok ()

/-- The text of a file, if it exists. -/
def read? (dir : Directory) (name : String) : Except CaptureError (Option String) := do
  checkName name
  match dir.get? name with
  | none => return none
  | some bytes =>
      match String.fromUTF8? bytes.toByteArray with
      | some text => return some text
      | none => throw (.io .invalidData "stream did not contain valid UTF-8")

/-- The failure of writing to what is no file. -/
def notAFile : CaptureError := .io .isADirectory "Is a directory (os error 21)"

/-- Opens a file to write to it, which empties or creates it. Two points name the directory above. -/
def truncate (dir : Directory) (name : String) : Except CaptureError Directory :=
  if name = ".." then .error notAFile
  else do
    checkName name
    return dir.insert name []

/-- Writes over the first bytes of a file. -/
def overwrite (dir : Directory) (name : String) (bytes : List UInt8) : Directory :=
  dir.insert name (bytes ++ (dir.getD name []).drop bytes.length)

/-- Moves a file in one step to a name that may be in use. -/
def rename (dir : Directory) (source target : String) : Except CaptureError Directory := do
  checkName target
  match dir.get? source with
  | some bytes => return (dir.erase source).insert target bytes
  | none => throw (.io .notFound "No such file or directory (os error 2)")

end Directory

/-! ## Queued writes -/

/-- What is to be written to a file, which is known by the name that it has by now. -/
structure QueuedWrite where
  name : String
  bytes : List UInt8
  deriving DecidableEq

/-- A file that is renamed takes with it what is queued for it. -/
def QueuedWrite.follow (source target : String) (w : QueuedWrite) : QueuedWrite :=
  if w.name = source then { w with name := target } else w

/-- A directory and what the threads still have to write. -/
structure Disk where
  files : Directory := ∅
  queued : List QueuedWrite := []

/-- What a program asks for, one after another. -/
inductive FileTask where
  | truncate (name : String)
  /-- Is done as soon as the bytes are queued. -/
  | write (name : String) (bytes : List UInt8)
  /-- Is done when nothing is queued for the file any more, however the writes have ended. -/
  | sync (name : String)
  | rename (source target : String)

namespace Disk

/-- A thread writes the first `count` bytes of what is queued, and leaves the rest if it fails. -/
def work (disk : Disk) (w : QueuedWrite) (count : Nat) : Disk where
  files := disk.files.overwrite w.name (w.bytes.take count)
  queued := disk.queued.erase w

/-- The threads do some writes one after another. -/
def finish (disk : Disk) (writes : List QueuedWrite) : Disk :=
  writes.foldl (fun disk w => disk.work w w.bytes.length) disk

@[simp] theorem finish_nil (disk : Disk) : disk.finish [] = disk := rfl

@[simp] theorem finish_cons (disk : Disk) (w : QueuedWrite) (writes : List QueuedWrite) :
    disk.finish (w :: writes) = (disk.work w w.bytes.length).finish writes := rfl

def perform (disk : Disk) : FileTask → Except CaptureError Disk
  | .truncate name => do
      let files ← disk.files.truncate name
      return { disk with files }
  | .write name bytes => return { disk with queued := disk.queued ++ [⟨name, bytes⟩] }
  | .sync name => return disk.finish (disk.queued.filter (·.name = name))
  | .rename source target => do
      let files ← disk.files.rename source target
      -- a file whose place is taken is gone, with what is queued for it
      let queued := disk.queued.filter (·.name ≠ target)
      return { files, queued := queued.map (QueuedWrite.follow source target) }

/-- Performs some tasks up to the first failure, while no thread does anything by itself. -/
def performAll (disk : Disk) : List FileTask → Disk × Except CaptureError Unit
  | [] => (disk, .ok ())
  | task :: rest =>
      match disk.perform task with
      | .ok next => next.performAll rest
      | .error e => (disk, .error e)

end Disk

end ChangeCapture
