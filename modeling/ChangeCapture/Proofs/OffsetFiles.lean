import ChangeCapture.Proofs.Disk
import ChangeCapture.Proofs.OffsetTexts

/-! # Offsets in files

A save writes a file of its own and then renames it over what was saved before. Where it waits for its write
in between, a store in files behaves as a map from keys to offsets, wherever saves are cut off. Where it does
not wait, the file may be in place before it is written, and until then its key cannot be loaded. -/

namespace ChangeCapture

open List

variable {b : Backend}

namespace OffsetFiles

/-! ## Names of files -/

theorem isKey_eq_true {key : String} :
    isKey key = true ↔ ¬ (key = "" ∨ '/' ∈ key.toList ∨ '\\' ∈ key.toList) := by
  simp [isKey, and_assoc]

/-- The key is one, and its name with either ending may be that of a file. -/
structure Accepted (key : String) : Prop where
  isKey : isKey key
  file : Directory.checkName (fileName key) = .ok ()
  temporary : Directory.checkName (key ++ ".tmp") = .ok ()

/-- Short keys without a null character are accepted. -/
theorem accepted_of_short {key : String} (hkey : isKey key) (hnul : '\x00' ∉ key.toList)
    (hsize : key.utf8ByteSize ≤ 250) : Accepted key := by
  have hfile : (fileName key).utf8ByteSize = key.utf8ByteSize + 5 := String.utf8ByteSize_append
  have htemporary : (key ++ ".tmp").utf8ByteSize = key.utf8ByteSize + 4 := String.utf8ByteSize_append
  refine ⟨hkey, ?_, ?_⟩
  · simp only [Directory.checkName, Directory.maxNameBytes, hfile]
    rw [if_neg (by simpa [fileName] using hnul), if_neg (by omega)]
  · simp only [Directory.checkName, Directory.maxNameBytes, htemporary]
    rw [if_neg (by simpa using hnul), if_neg (by omega)]

theorem fileName_injective : Function.Injective fileName := by
  intro key key' h
  exact (String.append_left_inj _).mp h

theorem getLast?_temporaryName (key : String) :
    (temporaryName key).toList.getLast? = some (if key = "." then '.' else 'p') := by
  unfold temporaryName
  split_ifs
  · rfl
  · simp

theorem temporaryName_injective : Function.Injective temporaryName := by
  intro key key' h
  have hlast := congrArg (fun text : String => text.toList.getLast?) h
  simp only [getLast?_temporaryName, Option.some_inj] at hlast
  unfold temporaryName at h
  split_ifs at h hlast with hkey hkey'
  · rw [hkey, hkey']
  · cases hlast
  · cases hlast
  · exact (String.append_left_inj _).mp h

/-- A single point apart, no key leads to the directory above. -/
theorem temporaryName_ne_above {key : String} (hpoint : key ≠ ".") : temporaryName key ≠ ".." := by
  have hlast := getLast?_temporaryName key
  rw [if_neg hpoint] at hlast
  intro habove
  cases hlast.symm.trans (congrArg (fun text : String => text.toList.getLast?) habove)

/-- No temporary file has the name of a file that is kept. -/
theorem fileName_ne_temporaryName (key key' : String) : fileName key ≠ temporaryName key' := by
  intro h
  have hlast := congrArg (fun text : String => text.toList.getLast?) h
  have hfile : (fileName key).toList.getLast? = some 'n' := by simp [fileName]
  simp only [hfile, getLast?_temporaryName, Option.some_inj] at hlast
  split_ifs at hlast <;> cases hlast

/-! ## Loading -/

section Loading

variable {dir dir' : Directory} {key : String} {offset : Offset b}

/-- What is loaded depends on the file of the key alone. -/
theorem load_congr (h : dir'.get? (fileName key) = dir.get? (fileName key)) :
    load (b := b) dir' key = load dir key := by
  simp only [load, Directory.read?, h]

theorem load_of_written (hkey : Accepted key) (h : dir.get? (fileName key) = some offset.jsonBytes) :
    load dir key = .ok (some offset) := by
  rw [load, if_pos hkey.isKey, Directory.read?, hkey.file, h]
  simp only [bind, Except.bind, Offset.fromUTF8?_jsonBytes, pure, Except.pure]
  rw [Offset.readJson_writeJson]
  rfl

theorem load_of_not_isKey (h : isKey key = false) (dir : Directory) :
    load (b := b) dir key = .error (invalidKey key) := by
  simp [load, h]

/-- Of what was saved for a key its file holds only a front. -/
def Torn (dir : Directory) (key : String) (offset : Offset b) : Prop :=
  ∃ front, dir.get? (fileName key) = some front ∧ front <+: offset.jsonBytes ∧ front ≠ offset.jsonBytes

theorem exists_load_of_torn (hkey : Accepted key) (h : Torn dir key offset) :
    ∃ e, load (b := b) dir key = .error e := by
  obtain ⟨front, hget, hfront, hne⟩ := h
  rw [load, if_pos hkey.isKey, Directory.read?, hkey.file, hget]
  cases htext : String.fromUTF8? front.toByteArray with
  | none => exact ⟨_, by simp only [bind, Except.bind, htext]; rfl⟩
  | some text =>
      refine ⟨.json, ?_⟩
      simp only [bind, Except.bind, htext, pure, Except.pure, Offset.readJson_of_prefix hfront hne htext]
      rfl

end Loading

theorem mem_tasks {key : String} {offset : Offset b} {fsync : Bool} {task : FileTask}
    (h : task ∈ tasks key offset fsync) : task = .truncate (temporaryName key) ∨
      task = .write (temporaryName key) offset.jsonBytes ∨ task = .sync (temporaryName key) ∨
      task = .rename (temporaryName key) (fileName key) := by
  cases fsync <;> simp [tasks] at h <;> tauto

/-- A save leaves the files of all other keys alone. -/
theorem spares_of_mem_tasks {key key' : String} {offset : Offset b} {fsync : Bool} {task : FileTask}
    (h : task ∈ tasks key offset fsync) (hne : key' ≠ key) : task.Spares (fileName key') := by
  have htemporary : temporaryName key ≠ fileName key' := (fileName_ne_temporaryName key' key).symm
  rcases mem_tasks h with rfl | rfl | rfl | rfl
  · exact htemporary
  · exact htemporary
  · trivial
  · exact ⟨htemporary, fileName_injective.ne hne.symm⟩

/-! ## What is queued -/

/-- What each key is answered with. -/
abbrev Answers (b : Backend) := String → Except CaptureError (Option (Offset b))

/-- What may be queued: the offset that a key is answered with, for the file of the key, and something for a
temporary file that is known. -/
inductive Expected (under : Conditions) (answers : Answers b) (known : String → List UInt8 → Prop)
    (disk : Disk) : QueuedWrite → Prop where
  | kept {key : String} {offset : Offset b} (hkey : Accepted key) (hanswer : answers key = .ok (some offset))
      (hfronts : Fronts under disk (fileName key) offset.jsonBytes) :
      Expected under answers known disk ⟨fileName key, offset.jsonBytes⟩
  | temporary {key : String} {bytes : List UInt8} (h : known key bytes) :
      Expected under answers known disk ⟨temporaryName key, bytes⟩

/-- A key has its answer, or its file holds a front of what it is to be answered with. -/
def Answered (under : Conditions) (answers : Answers b) (disk : Disk) (key : String) : Prop :=
  load disk.files key = answers key ∨
    ∃ offset, answers key = .ok (some offset) ∧ Fronts under disk (fileName key) offset.jsonBytes

/-- Each key is answered, and what is queued is expected. -/
structure Serves (under : Conditions) (answers : Answers b) (known : String → List UInt8 → Prop)
    (disk : Disk) : Prop where
  answered : ∀ key, Accepted key → Answered under answers disk key
  expected : ∀ w ∈ disk.queued, Expected under answers known disk w

/-- Between saves only the temporary files of keys that are not accepted may be left to be written. -/
def Unused (key : String) (_ : List UInt8) : Prop := ¬ Accepted key

/-- While an offset is saved, its temporary file is written too. -/
def Saving (key : String) (offset : Offset b) (other : String) (bytes : List UInt8) : Prop :=
  Unused other bytes ∨ other = key ∧ bytes = offset.jsonBytes

section Serves

variable {under : Conditions} {answers : Answers b} {known known' : String → List UInt8 → Prop}
  {disk disk' : Disk} {key : String} {offset : Offset b} {v w : QueuedWrite}

/-- How a key is answered depends on its file and what is queued for that. -/
theorem Answered.congr (h : Answered under answers disk key)
    (hget : disk'.files.get? (fileName key) = disk.files.get? (fileName key))
    (hqueued : ∀ bytes, ⟨fileName key, bytes⟩ ∈ disk.queued → ⟨fileName key, bytes⟩ ∈ disk'.queued) :
    Answered under answers disk' key := by
  refine Or.imp (load_congr hget).trans ?_ h
  rintro ⟨offset, hanswer, hfronts⟩
  exact ⟨offset, hanswer, hfronts.congr hget (hqueued _)⟩

/-- Of a file that is kept only what its key is answered with may be written. -/
theorem Expected.bytes_eq (h : Expected under answers known disk w) (hname : w.name = fileName key)
    (hanswer : answers key = .ok (some offset)) : w.bytes = offset.jsonBytes := by
  cases h with
  | @kept key' _ _ hanswer' =>
      rw [fileName_injective hname, hanswer] at hanswer'
      cases hanswer'
      rfl
  | temporary => exact absurd hname.symm (fileName_ne_temporaryName _ _)

theorem Expected.mono (h : Expected under answers known disk w)
    (hknown : ∀ key bytes, known key bytes → known' key bytes) : Expected under answers known' disk w := by
  cases h with
  | kept hkey hanswer hfronts => exact .kept hkey hanswer hfronts
  | temporary h => exact .temporary (hknown _ _ h)

/-- What is expected does not depend on temporary files. -/
theorem Expected.congr (h : Expected under answers known disk w)
    (hget : ∀ key, disk'.files.get? (fileName key) = disk.files.get? (fileName key))
    (hqueued : disk.queued ⊆ disk'.queued) : Expected under answers known disk' w := by
  cases h with
  | kept hkey hanswer hfronts => exact .kept hkey hanswer (hfronts.congr (hget _) (@hqueued _))
  | temporary h => exact .temporary h

/-- What is expected stays so when something else is written that is expected. -/
theorem Expected.work (hv : Expected under answers known disk v) (hw : Expected under answers known disk w)
    {count : Nat} (hcount : under = .calm → w.bytes.length ≤ count) :
    Expected under answers known (disk.work w count) v := by
  cases hv with
  | kept hkey hanswer hfronts =>
      exact .kept hkey hanswer (hfronts.work (fun hname => hw.bytes_eq hname hanswer) hcount)
  | temporary h => exact .temporary h

namespace Serves

theorem mono (h : Serves under answers known disk)
    (hknown : ∀ key bytes, known key bytes → known' key bytes) : Serves under answers known' disk where
  answered := h.answered
  expected w hw := (h.expected w hw).mono hknown

/-- What is done with temporary files does not matter. -/
theorem congr (h : Serves under answers known disk)
    (hget : ∀ key, disk'.files.get? (fileName key) = disk.files.get? (fileName key))
    (hqueued : disk.queued ⊆ disk'.queued)
    (hknown : ∀ w ∈ disk'.queued, w ∈ disk.queued ∨ ∃ key, w.name = temporaryName key ∧ known key w.bytes) :
    Serves under answers known disk' where
  answered key hkey := (h.answered key hkey).congr (hget key) fun _ => @hqueued _
  expected w hw := by
    rcases hknown w hw with hw | ⟨key, hname, hknown⟩
    · exact (h.expected w hw).congr hget hqueued
    · obtain ⟨name, bytes⟩ := w
      cases hname
      exact .temporary hknown

/-- A write that is expected leaves a front of what its key is answered with. -/
theorem work (h : Serves under answers known disk) (hw : Expected under answers known disk w)
    {count : Nat} (hcount : under = .calm → w.bytes.length ≤ count) :
    Serves under answers known (disk.work w count) where
  answered key hkey := by
    by_cases hname : w.name = fileName key
    · cases hw with
      | @kept key' offset hkey' hanswer hfronts =>
          cases fileName_injective hname
          exact .inr ⟨offset, hanswer, hfronts.work (fun _ => rfl) hcount⟩
      | temporary => exact absurd hname.symm (fileName_ne_temporaryName _ _)
    · refine (h.answered key hkey).congr (disk.get?_work_of_ne (Ne.symm hname) count) fun bytes hmem => ?_
      refine (mem_erase_of_ne ?_).mpr hmem
      rintro rfl
      exact hname rfl
  expected v hv := (h.expected v (disk.queued_work_subset w count hv)).work hw hcount

theorem works (h : Serves under answers known disk) (hworks : disk.Works under disk') :
    Serves under answers known disk' := by
  obtain ⟨hw, hcount⟩ := hworks
  exact h.work (h.expected _ hw) fun hcalm => hcount (Conditions.ne_any_of_calm hcalm)

/-- When the process ends, nothing is queued any more, and what was begun does not matter. -/
theorem ends {last : Disk} (h : Serves under answers known disk) (hunder : under ≠ .calm)
    (hends : disk.Ends last) (known' : String → List UInt8 → Prop) : Serves under answers known' last := by
  have hworks {d d' : Disk} (hd : Serves under answers known d) (hstep : d.Works .any d') :
      Serves under answers known d' := by
    obtain ⟨hw, _⟩ := hstep
    exact hd.work (hd.expected _ hw) fun hcalm => absurd hcalm hunder
  obtain ⟨d, hd, rfl⟩ := hends.keeps hworks h
  refine ⟨fun key hkey => (hd.answered key hkey).imp_right ?_, fun _ hw => absurd hw not_mem_nil⟩
  rintro ⟨offset, hanswer, hfronts⟩
  exact ⟨offset, hanswer, hfronts.forget hunder⟩

theorem finish (h : Serves under answers known disk) {writes : List QueuedWrite}
    (hwrites : ∀ w ∈ writes, Expected under answers known disk w) :
    Serves under answers known (disk.finish writes) := by
  induction writes generalizing disk with
  | nil => exact h
  | cons w writes ih =>
      obtain ⟨hw, hwrites⟩ := forall_mem_cons.mp hwrites
      have hwhole : under = .calm → w.bytes.length ≤ w.bytes.length := fun _ => le_rfl
      rw [Disk.finish_cons]
      exact ih (h.work hw hwhole) fun v hv => (hwrites v hv).work hw hwhole

/-! ## Saving -/

theorem truncate (h : Serves under answers known disk)
    (hperform : disk.perform (.truncate (temporaryName key)) = .ok disk') :
    Serves under answers known disk' := by
  obtain ⟨_, _, rfl⟩ := Disk.perform_truncate_eq_ok.mp hperform
  exact h.congr (fun key' => Directory.get?_insert_of_ne (fileName_ne_temporaryName key' key))
    (Subset.refl _) fun w hw => .inl hw

theorem enqueue (h : Serves under answers known disk) {bytes : List UInt8} (hknown : known key bytes)
    (hperform : disk.perform (.write (temporaryName key) bytes) = .ok disk') :
    Serves under answers known disk' := by
  cases hperform
  refine h.congr (fun _ => rfl) (subset_append_left _ _) fun w hw => ?_
  refine (mem_append.mp hw).imp_right fun hw => ?_
  rw [mem_singleton.mp hw]
  exact ⟨key, rfl, hknown⟩

theorem sync (h : Serves under answers known disk) {name : String}
    (hperform : disk.perform (.sync name) = .ok disk') : Serves under answers known disk' := by
  cases hperform
  exact h.finish fun w hw => h.expected w (mem_of_mem_filter hw)

end Serves

variable {fsync : Bool} {last : Disk} {answer : Option (Except CaptureError Unit)}

/-- A save that cannot rename its file changes no answer. -/
theorem Serves.save_of_unnamed (h : Serves under answers Unused disk)
    (hfile : Directory.checkName (fileName key) ≠ .ok ())
    (hperforms : disk.Performs under (tasks key offset fsync) last answer) :
    Serves under answers Unused last := by
  have hunused : Unused key offset.jsonBytes := fun hkey => hfile hkey.file
  refine hperforms.keeps works (fun task htask d d' hd hperform => ?_)
    (fun hunder hd hends => hd.ends hunder hends Unused) h
  rcases mem_tasks htask with rfl | rfl | rfl | rfl
  · exact hd.truncate hperform
  · exact hd.enqueue hunused hperform
  · exact hd.sync hperform
  · exact absurd (Disk.perform_rename_eq_ok.mp hperform).1 hfile

/-- A save that cannot open its file changes no answer. -/
theorem Serves.save_of_unopened (h : Serves under answers Unused disk) {e : CaptureError}
    (hfails : ∀ d : Disk, d.perform (.truncate (temporaryName key)) = .error e)
    (hperforms : disk.Performs under (tasks key offset fsync) last answer) :
    Serves under answers Unused last ∧ (answer = none ∨ answer = some (.error e)) := by
  obtain ⟨d, hd, ⟨hunder, rfl, hends⟩ | ⟨rfl, rfl⟩⟩ := hperforms.of_failing hfails works h
  · exact ⟨hd.ends hunder hends Unused, .inl rfl⟩
  · exact ⟨hd, .inr rfl⟩

theorem Serves.save_of_not_accepted (h : Serves under answers Unused disk) (hkey : isKey key)
    (haccepted : ¬ Accepted key) (hperforms : disk.Performs under (tasks key offset fsync) last answer) :
    Serves under answers Unused last := by
  by_cases hfile : Directory.checkName (fileName key) = .ok ()
  · have hpoint : key ≠ "." := by
      rintro rfl
      exact haccepted (accepted_of_short hkey (by decide) (by decide))
    cases htemporary : Directory.checkName (key ++ ".tmp") with
    | ok => exact absurd ⟨hkey, hfile, htemporary⟩ haccepted
    | error e =>
        have hfails (d : Disk) : d.perform (.truncate (temporaryName key)) = .error e := by
          rw [Disk.perform, Directory.truncate, if_neg (temporaryName_ne_above hpoint), temporaryName,
            if_neg hpoint, htemporary]
          rfl
        exact (h.save_of_unopened hfails hperforms).1
  · exact h.save_of_unnamed hfile hperforms

/-- Two points cannot be opened. -/
theorem Serves.save_of_point (h : Serves under answers Unused disk)
    (hperforms : disk.Performs under (tasks "." offset fsync) last answer) :
    Serves under answers Unused last ∧ (answer = none ∨ answer = some (.error Directory.notAFile)) :=
  h.save_of_unopened (fun _ => rfl) hperforms

/-- While an offset is saved, nothing else is written to its temporary file. -/
theorem Expected.bytes_eq_of_saving (h : Expected under answers (Saving key offset) disk w)
    (hkey : Accepted key) (hname : w.name = temporaryName key) : w.bytes = offset.jsonBytes := by
  cases h with
  | kept => exact absurd hname (fileName_ne_temporaryName _ _)
  | temporary h =>
      rcases h with hunused | ⟨_, hbytes⟩
      · exact absurd (temporaryName_injective hname ▸ hkey) hunused
      · exact hbytes

/-- The temporary file holds a front of the offset. What holds of that may change from task to task. -/
structure Prepared (under since : Conditions) (answers : Answers b) (key : String) (offset : Offset b)
    (disk : Disk) : Prop where
  serves : Serves under answers (Saving key offset) disk
  fronts : Fronts since disk (temporaryName key) offset.jsonBytes

theorem Prepared.works {since : Conditions} (h : Prepared under since answers key offset disk)
    (hsince : since = .calm → under ≠ .any) (hkey : Accepted key) (hworks : disk.Works under disk') :
    Prepared under since answers key offset disk' := by
  have hserves := h.serves.works hworks
  obtain ⟨hw, hcount⟩ := hworks
  have hsame := (h.serves.expected _ hw).bytes_eq_of_saving hkey
  exact ⟨hserves, h.fronts.work hsame fun hknown => hcount (hsince hknown)⟩

/-- The file is opened. -/
theorem Serves.prepared (h : Serves under answers Unused disk)
    (hperform : disk.perform (.truncate (temporaryName key)) = .ok disk') :
    Prepared under .any answers key offset disk' := by
  have hserves : Serves under answers (Saving key offset) disk' :=
    (h.truncate hperform).mono fun _ _ => .inl
  obtain ⟨_, _, rfl⟩ := Disk.perform_truncate_eq_ok.mp hperform
  exact ⟨hserves, [], Directory.get?_insert_self, nil_prefix, absurd rfl⟩

/-- The offset is queued. -/
theorem Prepared.write (h : Prepared under .any answers key offset disk)
    (hperform : disk.perform (.write (temporaryName key) offset.jsonBytes) = .ok disk') :
    Prepared under under.unwaited answers key offset disk' := by
  have hserves := h.serves.enqueue (.inr ⟨rfl, rfl⟩) hperform
  obtain ⟨front, hget, hfront, _⟩ := h.fronts
  cases hperform
  refine ⟨hserves, front, hget, hfront, fun hunwaited => .inr ⟨?_, ?_⟩⟩
  · cases under <;> first | rfl | exact absurd rfl hunwaited
  · exact mem_append_right _ (mem_singleton_self _)

/-- The offset is waited for. -/
theorem Prepared.sync (h : Prepared under under.unwaited answers key offset disk) (hkey : Accepted key)
    (hperform : disk.perform (.sync (temporaryName key)) = .ok disk') :
    Prepared under under answers key offset disk' := by
  have hserves := h.serves.sync hperform
  cases hperform
  have hsame : ∀ w ∈ disk.queued.filter (·.name = temporaryName key),
      w.name = temporaryName key → w.bytes = offset.jsonBytes := fun w hw =>
    (h.serves.expected w (mem_of_mem_filter hw)).bytes_eq_of_saving hkey
  refine ⟨hserves, ?_⟩
  have hfronts := h.fronts
  cases under with
  | any => exact Disk.fronts_finish hfronts hsame
  | calm => exact Disk.fronts_finish hfronts hsame
  | durable =>
      exact Disk.fronts_finish_of_calm hfronts (fun hmem => mem_filter.mpr ⟨hmem, decide_eq_true rfl⟩) hsame

section Renaming

variable (hperform : disk.perform (.rename (temporaryName key) (fileName key)) = .ok disk')
include hperform

/-- A temporary file that is renamed leaves the files of all other keys alone. -/
theorem get?_renamed {key' : String} (hne : key' ≠ key) :
    disk'.files.get? (fileName key') = disk.files.get? (fileName key') := by
  obtain ⟨_, bytes, _, rfl⟩ := Disk.perform_rename_eq_ok.mp hperform
  rw [Directory.get?_insert_of_ne (fileName_injective.ne hne),
    Directory.get?_erase_of_ne (fileName_ne_temporaryName key' key)]

theorem mem_queued_renamed (hw : w ∈ disk.queued) (hname : w.name ≠ fileName key) :
    w.follow (temporaryName key) (fileName key) ∈ disk'.queued := by
  obtain ⟨_, bytes, _, rfl⟩ := Disk.perform_rename_eq_ok.mp hperform
  exact mem_map_of_mem (mem_filter.mpr ⟨hw, decide_eq_true hname⟩)

theorem mem_queued_renamed_of_ne {key' : String} (hne : key' ≠ key) {bytes : List UInt8}
    (hw : ⟨fileName key', bytes⟩ ∈ disk.queued) : ⟨fileName key', bytes⟩ ∈ disk'.queued := by
  have hmem := mem_queued_renamed hperform hw (fileName_injective.ne hne)
  rwa [QueuedWrite.follow, if_neg (fileName_ne_temporaryName key' key)] at hmem

theorem Prepared.fronts_renamed (h : Prepared under under answers key offset disk) :
    Fronts under disk' (fileName key) offset.jsonBytes := by
  obtain ⟨front, hget, hfront, hwhole⟩ := h.fronts
  have hmem (hw : ⟨temporaryName key, offset.jsonBytes⟩ ∈ disk.queued) :
      ⟨fileName key, offset.jsonBytes⟩ ∈ disk'.queued := by
    have hmem := mem_queued_renamed hperform hw (fileName_ne_temporaryName key key).symm
    rwa [QueuedWrite.follow, if_pos rfl] at hmem
  obtain ⟨_, bytes, hbytes, rfl⟩ := Disk.perform_rename_eq_ok.mp hperform
  obtain rfl : front = bytes := Option.some.inj (hget.symm.trans hbytes)
  exact ⟨front, Directory.get?_insert_self, hfront, fun hunder =>
    (hwhole hunder).imp_right (And.imp_right hmem)⟩

/-- When the temporary file is renamed, what was queued for it is queued for the file of its key. -/
theorem Prepared.expected_renamed (h : Prepared under under answers key offset disk) (hkey : Accepted key)
    (hw : w ∈ disk.queued) (hname : w.name ≠ fileName key) :
    Expected under (Function.update answers key (.ok (some offset))) Unused disk'
      (w.follow (temporaryName key) (fileName key)) := by
  have hexpected := h.serves.expected w hw
  rw [QueuedWrite.follow]
  split_ifs with htemporary
  · rw [hexpected.bytes_eq_of_saving hkey htemporary]
    exact .kept hkey (Function.update_self ..) (h.fronts_renamed hperform)
  · cases hexpected with
    | kept hkey' hanswer hfronts =>
        have hne := mt (congrArg fileName) hname
        exact .kept hkey' ((Function.update_of_ne hne _ _).trans hanswer)
          (hfronts.congr (get?_renamed hperform hne) (mem_queued_renamed_of_ne hperform hne))
    | temporary hsaving =>
        refine .temporary (hsaving.resolve_right ?_)
        rintro ⟨rfl, _⟩
        exact htemporary rfl

/-- The temporary file takes the place of the other, with what is queued for it. -/
theorem Prepared.rename (h : Prepared under under answers key offset disk) (hkey : Accepted key) :
    Serves under (Function.update answers key (.ok (some offset))) Unused disk' where
  answered key' hkey' := by
    by_cases hne : key' = key
    · subst hne
      exact .inr ⟨offset, Function.update_self .., h.fronts_renamed hperform⟩
    · rw [Answered, Function.update_of_ne hne]
      exact (h.serves.answered key' hkey').congr (get?_renamed hperform hne) fun _ =>
        mem_queued_renamed_of_ne hperform hne
  expected w hw := by
    have hqueued : w ∈ (disk.queued.filter (·.name ≠ fileName key)).map
        (QueuedWrite.follow (temporaryName key) (fileName key)) := by
      obtain ⟨_, _, _, rfl⟩ := Disk.perform_rename_eq_ok.mp hperform
      exact hw
    obtain ⟨v, hv, rfl⟩ := mem_map.mp hqueued
    obtain ⟨hv, hname⟩ := mem_filter.mp hv
    exact h.expected_renamed hperform hkey hv (of_decide_eq_true hname)

end Renaming

/-- How the save of a key that is accepted ends: it is cut off before the file is in its place, or behind
that, or it is done. -/
inductive Saved (under : Conditions) (answers : Answers b) (key : String) (offset : Offset b) :
    Disk → Option (Except CaptureError Unit) → Prop where
  | lost {last : Disk} (h : Serves under answers Unused last) : Saved under answers key offset last none
  | kept {last : Disk} (h : Serves under (Function.update answers key (.ok (some offset))) Unused last) :
      Saved under answers key offset last none
  | done {last : Disk} (h : Serves under (Function.update answers key (.ok (some offset))) Unused last) :
      Saved under answers key offset last (some (.ok ()))

theorem Prepared.saved_of_renaming (h : Prepared under under answers key offset disk) (hkey : Accepted key)
    (hperforms : disk.Performs under [.rename (temporaryName key) (fileName key)] last answer) :
    Saved under answers key offset last answer := by
  obtain ⟨d, hd, ⟨hunder, rfl, hends⟩ | ⟨e, herror, _⟩ | ⟨d', hok, hperforms⟩⟩ :=
    hperforms.of_cons (fun hd => hd.works Conditions.ne_any_of_calm hkey) h
  · exact .lost (hd.serves.ends hunder hends Unused)
  · obtain ⟨front, hget, _⟩ := hd.fronts
    cases herror.symm.trans (Disk.perform_rename_eq_ok.mpr ⟨hkey.file, front, hget, rfl⟩)
  · obtain ⟨d, hd, ⟨hunder, rfl, hends⟩ | ⟨rfl, rfl⟩⟩ := hperforms.of_nil Serves.works (hd.rename hok hkey)
    · exact .kept (hd.ends hunder hends Unused)
    · exact .done hd

theorem Prepared.saved_of_syncing (h : Prepared under under.unwaited answers key offset disk)
    (hkey : Accepted key) (hfsync : under = .durable → fsync = true)
    (hperforms : disk.Performs under ((if fsync then [.sync (temporaryName key)] else []) ++
      [.rename (temporaryName key) (fileName key)]) last answer) :
    Saved under answers key offset last answer := by
  cases fsync with
  | false =>
      have hunwaited : under.unwaited = under := Conditions.unwaited_of_ne (mt hfsync Bool.false_ne_true)
      rw [hunwaited] at h
      exact h.saved_of_renaming hkey hperforms
  | true =>
      obtain ⟨d, hd, ⟨hunder, rfl, hends⟩ | ⟨e, herror, _⟩ | ⟨d', hok, hperforms⟩⟩ :=
        hperforms.of_cons (fun hd => hd.works Conditions.ne_any_of_unwaited hkey) h
      · exact .lost (hd.serves.ends hunder hends Unused)
      · cases herror
      · exact (hd.sync hkey hok).saved_of_renaming hkey hperforms

theorem Prepared.saved_of_writing (h : Prepared under .any answers key offset disk) (hkey : Accepted key)
    (hfsync : under = .durable → fsync = true)
    (hperforms : disk.Performs under (.write (temporaryName key) offset.jsonBytes ::
      ((if fsync then [.sync (temporaryName key)] else []) ++
        [.rename (temporaryName key) (fileName key)])) last answer) :
    Saved under answers key offset last answer := by
  obtain ⟨d, hd, ⟨hunder, rfl, hends⟩ | ⟨e, herror, _⟩ | ⟨d', hok, hperforms⟩⟩ :=
    hperforms.of_cons (fun hd => hd.works nofun hkey) h
  · exact .lost (hd.serves.ends hunder hends Unused)
  · cases herror
  · exact (hd.write hok).saved_of_syncing hkey hfsync hperforms

theorem Serves.saved (h : Serves under answers Unused disk) (hkey : Accepted key) (hpoint : key ≠ ".")
    (hfsync : under = .durable → fsync = true)
    (hperforms : disk.Performs under (tasks key offset fsync) last answer) :
    Saved under answers key offset last answer := by
  have htemporary : temporaryName key = key ++ ".tmp" := if_neg hpoint
  have habove := temporaryName_ne_above hpoint
  obtain ⟨d, hd, ⟨hunder, rfl, hends⟩ | ⟨e, herror, _⟩ | ⟨d', hok, hperforms⟩⟩ :=
    hperforms.of_cons Serves.works h
  · exact .lost (hd.ends hunder hends Unused)
  · cases herror.symm.trans (Disk.perform_truncate_eq_ok.mpr ⟨habove, htemporary ▸ hkey.temporary, rfl⟩)
  · exact (hd.prepared hok).saved_of_writing hkey hfsync hperforms

end Serves

end OffsetFiles

end ChangeCapture
