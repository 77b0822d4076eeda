import ChangeCapture.Disk
import Mathlib.Data.List.Basic
import Mathlib.Logic.Relation

/-! # Files while threads write them

A program performs its tasks in their order. What it has queued is written at any time between them or
later, in any order, and a write that fails leaves the front of its bytes. -/

namespace ChangeCapture

open List

/-! ## Files of a directory -/

namespace Directory

variable {dir dir' : Directory} {name other : String} {bytes : List UInt8}

theorem truncate_eq_ok : dir.truncate name = .ok dir' ↔
    name ≠ ".." ∧ checkName name = .ok () ∧ dir' = dir.insert name [] := by
  unfold truncate
  split
  · rename_i habove
    simp [habove]
  · rename_i hname
    cases checkName name <;> simp [bind, Except.bind, pure, Except.pure, eq_comm, hname]

theorem rename_eq_ok {source target : String} : dir.rename source target = .ok dir' ↔
    checkName target = .ok () ∧
      ∃ bytes, dir.get? source = some bytes ∧ dir' = (dir.erase source).insert target bytes := by
  unfold rename
  cases checkName target with
  | error e => simp [bind, Except.bind]
  | ok _ => cases dir.get? source <;> simp [bind, Except.bind, pure, Except.pure, throw, throwThe,
      MonadExceptOf.throw, eq_comm]

theorem get?_insert_self : (dir.insert name bytes).get? name = some bytes := by
  simp

theorem get?_insert_of_ne (h : other ≠ name) : (dir.insert name bytes).get? other = dir.get? other := by
  simp [Std.TreeMap.getElem?_insert, h.symm]

theorem get?_erase_of_ne (h : other ≠ name) : (dir.erase name).get? other = dir.get? other := by
  simp [Std.TreeMap.getElem?_erase, h.symm]

theorem get?_overwrite_of_ne (h : other ≠ name) :
    (dir.overwrite name bytes).get? other = dir.get? other :=
  get?_insert_of_ne h

theorem get?_overwrite_self {held : List UInt8} (h : dir.get? name = some held) :
    (dir.overwrite name bytes).get? name = some (bytes ++ held.drop bytes.length) := by
  have hheld : dir.getD name [] = held := by
    rw [Std.TreeMap.getD_eq_getD_getElem?]
    exact congrArg (·.getD []) h
  rw [overwrite, get?_insert_self, hheld]

end Directory

/-! ## Fronts of what is written -/

/-- What may happen while files are written. -/
inductive Conditions where
  /-- Writes may fail, and the process may end. -/
  | any
  /-- No write fails, and the process goes on. -/
  | calm
  /-- No write fails and what is saved is waited for, but the process may end. -/
  | durable
  deriving DecidableEq

namespace Conditions

/-- What holds of a write that is not waited for. -/
def unwaited : Conditions → Conditions
  | any => any
  | calm | durable => calm

theorem ne_any_of_calm {under : Conditions} (h : under = calm) : under ≠ any := by
  rw [h]
  decide

theorem ne_any_of_unwaited {under : Conditions} (h : under.unwaited = calm) : under ≠ any := by
  rintro rfl
  cases h

theorem unwaited_of_ne {under : Conditions} (h : under ≠ durable) : under.unwaited = under := by
  cases under <;> first | rfl | contradiction

end Conditions

/-- What is written lies over a front of itself, so that the longer of both is left. -/
theorem take_append_drop_of_front {front bytes : List UInt8} (h : front <+: bytes) (count : Nat) :
    bytes.take count ++ front.drop (bytes.take count).length = bytes.take (max count front.length) := by
  obtain ⟨rest, rfl⟩ := h
  rcases Nat.le_total count front.length with hle | hle
  · have hlength : ((front ++ rest).take count).length = count := by
      rw [length_take, length_append]
      omega
    rw [hlength, Nat.max_eq_right hle, take_left, take_append_of_le_length hle, take_append_drop]
  · have hdrop : front.drop ((front ++ rest).take count).length = [] := by
      rw [drop_eq_nil_iff, length_take, length_append]
      omega
    rw [hdrop, append_nil, Nat.max_eq_left hle]

/-- A file holds some of the first bytes of what is written to it. If no write fails, it holds all of them,
or as long as the process goes on they may be queued. -/
def Fronts (under : Conditions) (disk : Disk) (name : String) (bytes : List UInt8) : Prop :=
  ∃ front, disk.files.get? name = some front ∧ front <+: bytes ∧
    (under ≠ .any → front = bytes ∨ under = .calm ∧ ⟨name, bytes⟩ ∈ disk.queued)

namespace Fronts

variable {under : Conditions} {disk disk' : Disk} {name : String} {bytes : List UInt8}

theorem of_whole (h : disk.files.get? name = some bytes) (under : Conditions) :
    Fronts under disk name bytes :=
  ⟨bytes, h, prefix_rfl, fun _ => .inl rfl⟩

theorem any (h : Fronts under disk name bytes) : Fronts .any disk name bytes := by
  obtain ⟨front, hget, hfront, _⟩ := h
  exact ⟨front, hget, hfront, absurd rfl⟩

theorem congr (h : Fronts under disk name bytes) (hget : disk'.files.get? name = disk.files.get? name)
    (hqueued : ⟨name, bytes⟩ ∈ disk.queued → ⟨name, bytes⟩ ∈ disk'.queued) :
    Fronts under disk' name bytes := by
  obtain ⟨front, hfront⟩ := h
  rw [← hget] at hfront
  exact ⟨front, hfront.1, hfront.2.1, fun hunder => (hfront.2.2 hunder).imp_right (And.imp_right hqueued)⟩

/-- Where the process may end, nothing depends on what is queued. -/
theorem forget (h : Fronts under disk name bytes) (hends : under ≠ .calm) :
    Fronts under { disk with queued := [] } name bytes := by
  obtain ⟨front, hget, hfront, hwhole⟩ := h
  exact ⟨front, hget, hfront, fun hunder => .inl ((hwhole hunder).resolve_right fun h => hends h.1)⟩

theorem overwrite (h : Fronts .any disk name bytes) {count : Nat} (hcount : bytes.length ≤ count)
    (under : Conditions) : Fronts under (disk.work ⟨name, bytes⟩ count) name bytes := by
  obtain ⟨front, hget, hfront, _⟩ := h
  refine of_whole ((Directory.get?_overwrite_self hget).trans ?_) under
  rw [take_append_drop_of_front hfront, take_of_length_le (Nat.le_trans hcount (Nat.le_max_left _ _))]

/-- A file keeps a front of what is written to it if nothing else is. -/
theorem work (h : Fronts under disk name bytes) {w : QueuedWrite} (hsame : w.name = name → w.bytes = bytes)
    {count : Nat} (hcount : under = .calm → w.bytes.length ≤ count) :
    Fronts under (disk.work w count) name bytes := by
  by_cases hname : w.name = name
  · obtain rfl := hsame hname
    subst hname
    obtain ⟨front, hget, hfront, hwhole⟩ := h
    have hwritten : (disk.work w count).files.get? w.name =
        some (w.bytes.take (max count front.length)) := by
      rw [← take_append_drop_of_front hfront]
      exact Directory.get?_overwrite_self hget
    refine ⟨_, hwritten, take_prefix _ _, fun hunder => .inl (take_of_length_le ?_)⟩
    rcases hwhole hunder with rfl | ⟨hcalm, _⟩
    · exact Nat.le_max_right _ _
    · exact Nat.le_trans (hcount hcalm) (Nat.le_max_left _ _)
  · have hne : (⟨name, bytes⟩ : QueuedWrite) ≠ w := by
      rintro rfl
      exact hname rfl
    exact h.congr (Directory.get?_overwrite_of_ne (Ne.symm hname)) (mem_erase_of_ne hne).mpr

end Fronts

/-- A task leaves a file alone. -/
def FileTask.Spares (name : String) : FileTask → Prop
  | .truncate other | .write other _ => other ≠ name
  | .sync _ => True
  | .rename source target => source ≠ name ∧ target ≠ name

namespace Disk

/-! ## Threads at work -/

/-- A thread does one of the queued writes. If no write fails, it writes all its bytes. -/
inductive Works (under : Conditions) : Disk → Disk → Prop where
  | work {disk w count} (hw : w ∈ disk.queued) (hcount : under ≠ .any → w.bytes.length ≤ count) :
      Works under disk (disk.work w count)

/-- The process ends with all its threads, some of which may have begun to write. -/
def Ends (disk last : Disk) : Prop :=
  ∃ d, Relation.ReflTransGen (Works .any) disk d ∧ last = { d with queued := [] }

/-- Tasks are performed one after another while the threads work. They come to their end or to a failure, or
the process ends, so that nothing is returned. -/
inductive Performs (under : Conditions) :
    Disk → List FileTask → Disk → Option (Except CaptureError Unit) → Prop where
  | works {disk disk' tasks last answer} (h : Works under disk disk')
      (hrest : Performs under disk' tasks last answer) : Performs under disk tasks last answer
  | done (disk) : Performs under disk [] disk (some (.ok ()))
  | task {disk disk' task rest last answer} (h : disk.perform task = .ok disk')
      (hrest : Performs under disk' rest last answer) : Performs under disk (task :: rest) last answer
  | failed {disk task rest e} (h : disk.perform task = .error e) :
      Performs under disk (task :: rest) disk (some (.error e))
  | ended {disk last} (tasks) (hunder : under ≠ .calm) (h : Ends disk last) :
      Performs under disk tasks last none

variable {under : Conditions} {disk disk' last : Disk} {tasks rest : List FileTask} {task : FileTask}
  {answer : Option (Except CaptureError Unit)} {name : String} {bytes : List UInt8} {w : QueuedWrite}

/-- Tasks that are performed while no thread works by itself are performed. -/
theorem performs_performAll (under : Conditions) (disk : Disk) (tasks : List FileTask) :
    Performs under disk tasks (disk.performAll tasks).1 (some (disk.performAll tasks).2) := by
  induction tasks generalizing disk with
  | nil => exact .done disk
  | cons task rest ih =>
      rw [performAll]
      cases hperform : disk.perform task with
      | error e => exact .failed hperform
      | ok next => exact .task hperform (ih next)

/-- What the threads keep holds when the process ends, up to what is queued. -/
theorem Ends.keeps {P : Disk → Prop} (h : disk.Ends last) (hworks : ∀ {d d'}, P d → Works .any d d' → P d')
    (hdisk : P disk) : ∃ d, P d ∧ last = { d with queued := [] } := by
  obtain ⟨d, hreached, rfl⟩ := h
  refine ⟨d, ?_, rfl⟩
  induction hreached with
  | refl => exact hdisk
  | tail _ hstep ih => exact hworks ih hstep

theorem performAll_cons_of_ok (h : disk.perform task = .ok disk') (rest : List FileTask) :
    disk.performAll (task :: rest) = disk'.performAll rest := by
  rw [performAll, h]

/-- The first task is the next thing that happens when the threads have worked for a while. -/
theorem Performs.of_cons {P : Disk → Prop} (h : Performs under disk (task :: rest) last answer)
    (hworks : ∀ {d d'}, P d → Works under d d' → P d') (hdisk : P disk) :
    ∃ d, P d ∧ (under ≠ .calm ∧ answer = none ∧ d.Ends last ∨
      (∃ e, d.perform task = .error e ∧ answer = some (.error e) ∧ last = d) ∨
      ∃ d', d.perform task = .ok d' ∧ Performs under d' rest last answer) := by
  generalize htasks : task :: rest = tasks at h
  induction h with
  | works hstep _ ih => exact ih (hworks hdisk hstep) htasks
  | done => cases htasks
  | task hperform hrest =>
      cases htasks
      exact ⟨_, hdisk, .inr (.inr ⟨_, hperform, hrest⟩)⟩
  | failed hperform =>
      cases htasks
      exact ⟨_, hdisk, .inr (.inl ⟨_, hperform, rfl, rfl⟩)⟩
  | ended _ hunder hends => exact ⟨_, hdisk, .inl ⟨hunder, rfl, hends⟩⟩

/-- When all tasks are done, the threads go on until something is returned or the process ends. -/
theorem Performs.of_nil {P : Disk → Prop} (h : Performs under disk [] last answer)
    (hworks : ∀ {d d'}, P d → Works under d d' → P d') (hdisk : P disk) :
    ∃ d, P d ∧ (under ≠ .calm ∧ answer = none ∧ d.Ends last ∨
      answer = some (.ok ()) ∧ last = d) := by
  generalize htasks : [] = tasks at h
  induction h with
  | works hstep _ ih => exact ih (hworks hdisk hstep) htasks
  | done => exact ⟨_, hdisk, .inr ⟨rfl, rfl⟩⟩
  | task | failed => cases htasks
  | ended _ hunder hends => exact ⟨_, hdisk, .inl ⟨hunder, rfl, hends⟩⟩

/-- If the first task always fails, nothing else is done. -/
theorem Performs.of_failing {P : Disk → Prop} {e : CaptureError}
    (h : Performs under disk (task :: rest) last answer) (hfails : ∀ d : Disk, d.perform task = .error e)
    (hworks : ∀ {d d'}, P d → Works under d d' → P d') (hdisk : P disk) :
    ∃ d, P d ∧ (under ≠ .calm ∧ answer = none ∧ d.Ends last ∨
      answer = some (.error e) ∧ last = d) := by
  obtain ⟨d, hd, hended | ⟨e', herror, rfl, rfl⟩ | ⟨d', hok, _⟩⟩ := h.of_cons hworks hdisk
  · exact ⟨d, hd, .inl hended⟩
  · cases (hfails last).symm.trans herror
    exact ⟨last, hd, .inr ⟨rfl, rfl⟩⟩
  · cases (hfails d).symm.trans hok

/-- Where something is returned, the process may end as well, just before that. -/
theorem Performs.cutOff {result : Except CaptureError Unit}
    (h : Performs under disk tasks last (some result)) (hunder : under ≠ .calm) :
    Performs under disk tasks { last with queued := [] } none := by
  generalize hanswer : some result = answer at h
  induction h with
  | works hstep _ ih => exact .works hstep (ih hanswer)
  | done disk => exact .ended [] hunder ⟨disk, .refl, rfl⟩
  | task hperform _ ih => exact .task hperform (ih hanswer)
  | failed => exact .ended _ hunder ⟨_, .refl, rfl⟩
  | ended => cases hanswer

/-- What all tasks and the threads keep holds in the end. -/
theorem Performs.keeps {P : Disk → Prop} (h : Performs under disk tasks last answer)
    (hworks : ∀ {d d'}, P d → Works under d d' → P d')
    (htasks : ∀ task ∈ tasks, ∀ {d d'}, P d → d.perform task = .ok d' → P d')
    (hends : ∀ {d d'}, under ≠ .calm → P d → d.Ends d' → P d') (hdisk : P disk) : P last := by
  induction h with
  | works hstep _ ih => exact ih htasks (hworks hdisk hstep)
  | done | failed => exact hdisk
  | task hperform _ ih =>
      exact ih (fun task hmem => htasks task (mem_cons_of_mem _ hmem))
        (htasks _ mem_cons_self hdisk hperform)
  | ended _ hunder h => exact hends hunder hdisk h

/-! ## What becomes of files -/

theorem perform_truncate_eq_ok : disk.perform (.truncate name) = .ok disk' ↔
    name ≠ ".." ∧ Directory.checkName name = .ok () ∧
      disk' = { disk with files := disk.files.insert name [] } := by
  have htruncate := @Directory.truncate_eq_ok disk.files
  rw [perform]
  cases hfiles : disk.files.truncate name with
  | error e =>
      refine iff_of_false (by simp [bind, Except.bind]) ?_
      rintro ⟨habove, hname, _⟩
      cases hfiles.symm.trans (htruncate.mpr ⟨habove, hname, rfl⟩)
  | ok files =>
      obtain ⟨habove, hname, rfl⟩ := htruncate.mp hfiles
      refine ⟨fun h => ⟨habove, hname, (Except.ok.inj h).symm⟩, ?_⟩
      rintro ⟨_, _, rfl⟩
      rfl

theorem perform_rename_eq_ok {source target : String} :
    disk.perform (.rename source target) = .ok disk' ↔
    Directory.checkName target = .ok () ∧ ∃ bytes, disk.files.get? source = some bytes ∧ disk' =
      { files := (disk.files.erase source).insert target bytes
        queued := (disk.queued.filter (·.name ≠ target)).map (QueuedWrite.follow source target) } := by
  have hrename := @Directory.rename_eq_ok disk.files
  rw [perform]
  cases hfiles : disk.files.rename source target with
  | error e =>
      refine iff_of_false (by simp [bind, Except.bind]) ?_
      rintro ⟨hname, bytes, hget, _⟩
      cases hfiles.symm.trans (hrename.mpr ⟨hname, bytes, hget, rfl⟩)
  | ok files =>
      obtain ⟨hname, bytes, hget, rfl⟩ := hrename.mp hfiles
      refine ⟨fun h => ⟨hname, bytes, hget, (Except.ok.inj h).symm⟩, ?_⟩
      rintro ⟨_, other, hother, rfl⟩
      cases hget.symm.trans hother
      rfl

theorem get?_work_of_ne (h : name ≠ w.name) (count : Nat) :
    (disk.work w count).files.get? name = disk.files.get? name :=
  Directory.get?_overwrite_of_ne h

theorem queued_work_subset (disk : Disk) (w : QueuedWrite) (count : Nat) :
    (disk.work w count).queued ⊆ disk.queued :=
  erase_subset

theorem fronts_finish {writes : List QueuedWrite} (h : Fronts under disk name bytes)
    (hsame : ∀ w ∈ writes, w.name = name → w.bytes = bytes) :
    Fronts under (disk.finish writes) name bytes := by
  induction writes generalizing disk with
  | nil => exact h
  | cons w writes ih =>
      obtain ⟨hw, hsame⟩ := forall_mem_cons.mp hsame
      rw [finish_cons]
      exact ih (h.work hw fun _ => Nat.le_refl w.bytes.length) hsame

/-- A write that is done is done wholly, and stays so. -/
theorem fronts_finish_of_mem {writes : List QueuedWrite} (h : Fronts .any disk name bytes)
    (hmem : ⟨name, bytes⟩ ∈ writes) (hsame : ∀ w ∈ writes, w.name = name → w.bytes = bytes) :
    Fronts .durable (disk.finish writes) name bytes := by
  induction writes generalizing disk with
  | nil => exact absurd hmem not_mem_nil
  | cons w writes ih =>
      obtain ⟨hw, hrest⟩ := forall_mem_cons.mp hsame
      rw [finish_cons]
      rcases mem_cons.mp hmem with rfl | hmem
      · exact fronts_finish (h.overwrite (Nat.le_refl bytes.length) .durable) hrest
      · exact ih (h.work hw nofun) hmem hrest

/-- When all is written that is queued for a file, nothing is left out. -/
theorem fronts_finish_of_calm {writes : List QueuedWrite} (h : Fronts .calm disk name bytes)
    (hall : ⟨name, bytes⟩ ∈ disk.queued → ⟨name, bytes⟩ ∈ writes)
    (hsame : ∀ w ∈ writes, w.name = name → w.bytes = bytes) :
    Fronts .durable (disk.finish writes) name bytes := by
  obtain ⟨front, hget, _, hwhole⟩ := id h
  rcases hwhole (by decide) with rfl | ⟨_, hmem⟩
  · exact fronts_finish (Fronts.of_whole hget .durable) hsame
  · exact fronts_finish_of_mem h.any (hall hmem) hsame

/-- When all that is queued is written, nothing is queued any more. -/
theorem queued_finish {writes : List QueuedWrite} (h : disk.queued = writes) :
    (disk.finish writes).queued = [] := by
  induction writes generalizing disk with
  | nil => exact h
  | cons w writes ih =>
      rw [finish_cons]
      refine ih ?_
      change disk.queued.erase w = writes
      rw [h, erase_cons_head]

/-- Nothing is queued for a file. -/
def Quiet (disk : Disk) (name : String) : Prop := ∀ w ∈ disk.queued, w.name ≠ name

/-- Nothing is queued for a file, which has not been touched since. -/
structure Untouched (disk : Disk) (name : String) (d : Disk) : Prop where
  quiet : d.Quiet name
  get?_eq : d.files.get? name = disk.files.get? name

theorem Untouched.work {d : Disk} (h : disk.Untouched name d) (hw : w.name ≠ name) (count : Nat) :
    disk.Untouched name (d.work w count) where
  quiet v hv := h.quiet v (queued_work_subset d w count hv)
  get?_eq := (get?_work_of_ne hw.symm count).trans h.get?_eq

theorem Untouched.finish {d : Disk} {writes : List QueuedWrite} (h : disk.Untouched name d)
    (hwrites : ∀ w ∈ writes, w.name ≠ name) : disk.Untouched name (d.finish writes) := by
  induction writes generalizing d with
  | nil => exact h
  | cons w writes ih =>
      obtain ⟨hw, hwrites⟩ := forall_mem_cons.mp hwrites
      rw [finish_cons]
      exact ih (h.work hw _) hwrites

theorem Untouched.perform {d d' : Disk} (h : disk.Untouched name d) (hspares : task.Spares name)
    (hperform : d.perform task = .ok d') : disk.Untouched name d' := by
  cases task with
  | truncate other =>
      obtain ⟨_, _, rfl⟩ := perform_truncate_eq_ok.mp hperform
      exact ⟨h.quiet, (Directory.get?_insert_of_ne (Ne.symm hspares)).trans h.get?_eq⟩
  | write other bytes =>
      cases hperform
      refine ⟨fun w hw => ?_, h.get?_eq⟩
      rcases mem_append.mp hw with hw | hw
      · exact h.quiet w hw
      · rw [mem_singleton.mp hw]
        exact hspares
  | sync other =>
      cases hperform
      exact h.finish fun w hw => h.quiet w (mem_of_mem_filter hw)
  | rename source target =>
      obtain ⟨hsource, htarget⟩ := hspares
      obtain ⟨_, bytes, _, rfl⟩ := perform_rename_eq_ok.mp hperform
      refine ⟨fun w hw => ?_, ?_⟩
      · obtain ⟨v, hv, rfl⟩ := mem_map.mp hw
        rw [QueuedWrite.follow]
        split
        · exact htarget
        · exact h.quiet v (mem_of_mem_filter hv)
      · rw [Directory.get?_insert_of_ne (Ne.symm htarget), Directory.get?_erase_of_ne (Ne.symm hsource)]
        exact h.get?_eq

theorem Untouched.works {d d' : Disk} (h : disk.Untouched name d) (hworks : Works under d d') :
    disk.Untouched name d' := by
  obtain ⟨hw, _⟩ := hworks
  exact h.work (h.quiet _ hw) _

theorem Untouched.ends {d : Disk} (h : disk.Untouched name d) (hends : d.Ends last) :
    disk.Untouched name last := by
  obtain ⟨d', hd', rfl⟩ := hends.keeps Untouched.works h
  exact ⟨fun _ hw => absurd hw not_mem_nil, hd'.get?_eq⟩

/-- Tasks that leave a file alone do not touch it. -/
theorem Performs.untouched (h : Performs under disk tasks last answer)
    (hspares : ∀ task ∈ tasks, task.Spares name) (hquiet : disk.Quiet name) :
    disk.Untouched name last :=
  h.keeps Untouched.works (fun task hmem _ _ hd hperform => hd.perform (hspares task hmem) hperform)
    (fun _ => Untouched.ends) ⟨hquiet, rfl⟩

end Disk

end ChangeCapture
