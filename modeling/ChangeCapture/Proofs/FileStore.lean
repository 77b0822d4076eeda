import ChangeCapture.Proofs.OffsetFiles

/-! # Stores in files as maps

A store in files is compared with a map from keys to offsets. What the map has for a key is loaded unless the
file of the key is torn. No file is torn where each save waits for its write and no write fails. Where saves
do not wait, a file is torn until it is written. A single point is a key that cannot be saved. -/

namespace ChangeCapture

open List
open OffsetFiles (Accepted Answers Serves Torn Unused fileName isKey tasks temporaryName)

variable {b : Backend}

/-! ## What is done with a store -/

/-- Something that is done with a store, and what is returned. -/
inductive StoreEvent (b : Backend) where
  | loaded (key : String) (answer : Except CaptureError (Option (Offset b)))
  /-- Nothing is returned by a save that is cut off. -/
  | saved (key : String) (offset : Offset b) (answer : Option (Except CaptureError Unit))
  | reopened (fsync : Bool)
  /-- A thread does one of the queued writes. -/
  | worked
  /-- The process ends, and its threads with it. -/
  | ended

/-- Some steps one after another, each with its event. -/
inductive StoreEvent.Runs {σ : Type} (step : σ → StoreEvent b → σ → Prop) :
    σ → List (StoreEvent b) → σ → Prop where
  | nil (s) : Runs step s [] s
  | cons {s event s' events last} (h : step s event s') (hrest : Runs step s' events last) :
      Runs step s (event :: events) last

namespace FileStore

/-- How a save may go while the threads work. -/
inductive Saves (under : Conditions) (store : FileStore) (key : String) (offset : Offset b) :
    FileStore → Option (Except CaptureError Unit) → Prop where
  | refused (hkey : isKey key = false) :
      Saves under store key offset store (some (.error (OffsetFiles.invalidKey key)))
  | performed {disk : Disk} {answer} (hkey : isKey key) (hfsync : under = .durable → store.fsync = true)
      (h : store.disk.Performs under (tasks key offset store.fsync) disk answer) :
      Saves under store key offset { store with disk } answer

/-- What a store in files does. -/
inductive Step (under : Conditions) : FileStore → StoreEvent b → FileStore → Prop where
  | loaded {store key answer} (h : store.load key = answer) : Step under store (.loaded key answer) store
  | saved {store key offset store' answer} (h : Saves under store key offset store' answer) :
      Step under store (.saved key offset answer) store'
  | reopened (store fsync) : Step under store (.reopened fsync) (store.reopen fsync)
  | worked {store : FileStore} {disk : Disk} (h : store.disk.Works under disk) :
      Step under store .worked { store with disk }
  | ended {store : FileStore} {disk : Disk} (hunder : under ≠ .calm) (h : store.disk.Ends disk) :
      Step under store .ended { store with disk }

/-- What the store has for a key is what a map has, or the file of the key holds a front of that. -/
def Holds (under : Conditions) (store : FileStore) (offsets : OffsetMap b) : Prop :=
  Serves under (fun key => .ok (offsets.load key)) Unused store.disk

end FileStore

/-- What a map does as a store that takes the same keys, but cannot save a single point. Where saves do not
wait or writes fail, what it has for a key may be missed. Where the names of its files are not accepted,
nothing is said of a key. -/
inductive OffsetMap.Step (under : Conditions) : OffsetMap b → StoreEvent b → OffsetMap b → Prop where
  | loaded {offsets key} (hkey : Accepted key) :
      Step under offsets (.loaded key (.ok (offsets.load key))) offsets
  | missed {offsets key offset e} (hkey : Accepted key) (hoffset : offsets.load key = some offset)
      (hunder : under ≠ .durable) : Step under offsets (.loaded key (.error e)) offsets
  | saved {offsets key offset} (hkey : Accepted key) (hpoint : key ≠ ".") :
      Step under offsets (.saved key offset (some (.ok ()))) (offsets.save key offset)
  | kept {offsets key offset} (hkey : Accepted key) (hpoint : key ≠ ".") :
      Step under offsets (.saved key offset none) (offsets.save key offset)
  | lost {offsets key offset} : Step under offsets (.saved key offset none) offsets
  | above {offsets offset} :
      Step under offsets (.saved "." offset (some (.error Directory.notAFile))) offsets
  | reopened {offsets fsync} : Step under offsets (.reopened fsync) offsets
  | worked {offsets} : Step under offsets .worked offsets
  | ended {offsets} : Step under offsets .ended offsets
  | loadRefused {offsets key} (hkey : isKey key = false) :
      Step under offsets (.loaded key (.error (OffsetFiles.invalidKey key))) offsets
  | saveRefused {offsets key offset} (hkey : isKey key = false) :
      Step under offsets (.saved key offset (some (.error (OffsetFiles.invalidKey key)))) offsets
  | notLoaded {offsets key answer} (hkey : isKey key) (h : ¬ Accepted key) :
      Step under offsets (.loaded key answer) offsets
  | notSaved {offsets key offset answer} (hkey : isKey key) (h : ¬ Accepted key) :
      Step under offsets (.saved key offset answer) offsets

namespace FileStore

variable {under : Conditions} {store store' : FileStore} {offsets : OffsetMap b} {key : String}
  {offset : Offset b} {answer : Option (Except CaptureError Unit)}

/-! ## Loading -/

/-- A store on a directory to which nothing is left to be written. -/
theorem holds_of_loads (under : Conditions) (hqueued : store.disk.queued = [])
    (h : ∀ key, Accepted key → store.load key = .ok (offsets.load key)) : store.Holds under offsets where
  answered key hkey := .inl (h key hkey)
  expected w hw := by
    rw [hqueued] at hw
    exact absurd hw not_mem_nil

theorem holds_empty (under : Conditions) (fsync : Bool) :
    ({ fsync } : FileStore).Holds under (∅ : OffsetMap b) := by
  refine holds_of_loads under rfl fun key hkey => ?_
  rw [load, OffsetFiles.load, if_pos hkey.isKey, Directory.read?, hkey.file]
  simp [OffsetMap.load, bind, Except.bind, pure, Except.pure]

/-- A key that is not answered for as in the map has a torn file, which may still be written. -/
theorem Holds.load_eq_or_torn (h : store.Holds under offsets) (hkey : Accepted key) :
    store.load key = .ok (offsets.load key) ∨
      ∃ offset, offsets.load key = some offset ∧ Torn store.disk.files key offset ∧
        (under ≠ .any → under = .calm ∧ ⟨fileName key, offset.jsonBytes⟩ ∈ store.disk.queued) := by
  rcases h.answered key hkey with hload | ⟨offset, hoffset, front, hget, hfront, hwhole⟩
  · exact .inl hload
  · have hoffset' : offsets.load key = some offset := Except.ok.inj hoffset
    by_cases heq : front = offset.jsonBytes
    · refine .inl ?_
      rw [hoffset']
      exact OffsetFiles.load_of_written hkey (heq ▸ hget)
    · exact .inr ⟨offset, hoffset', ⟨front, hget, hfront, heq⟩, fun hunder =>
        (hwhole hunder).resolve_left heq⟩

/-- Of a key is loaded what the map has, exactly if its file is not torn, and otherwise an error. -/
theorem Holds.load_eq_iff (h : store.Holds under offsets) (hkey : Accepted key) :
    store.load key = .ok (offsets.load key) ↔
      ∀ offset, offsets.load key = some offset → ¬ Torn store.disk.files key offset := by
  refine ⟨fun hload offset _ htorn => ?_, fun hwhole => ?_⟩
  · obtain ⟨e, herror⟩ := OffsetFiles.exists_load_of_torn hkey htorn
    cases hload.symm.trans herror
  · rcases h.load_eq_or_torn hkey with hload | ⟨offset, hoffset, htorn, _⟩
    · exact hload
    · exact absurd htorn (hwhole offset hoffset)

/-- No file is torn where what is saved is waited for, or by now is written. -/
theorem Holds.load_eq (h : store.Holds under offsets) (hkey : Accepted key)
    (hunder : under = .durable ∨ under = .calm ∧ store.disk.Quiet (fileName key)) :
    store.load key = .ok (offsets.load key) := by
  refine (h.load_eq_or_torn hkey).resolve_right ?_
  rintro ⟨offset, _, _, hqueued⟩
  rcases hunder with rfl | ⟨rfl, hquiet⟩
  · cases (hqueued (by decide)).1
  · exact hquiet _ (hqueued (by decide)).2 rfl

theorem Holds.exists_step_loaded (h : store.Holds under offsets) (key : String) :
    OffsetMap.Step under offsets (.loaded key (store.load key)) offsets := by
  by_cases hkey : isKey key
  · by_cases haccepted : Accepted key
    · rcases h.load_eq_or_torn haccepted with hload | ⟨offset, hoffset, htorn, hqueued⟩
      · rw [hload]
        exact .loaded haccepted
      · obtain ⟨e, herror⟩ := OffsetFiles.exists_load_of_torn haccepted htorn
        rw [load, herror]
        refine .missed haccepted hoffset ?_
        rintro rfl
        cases (hqueued (by decide)).1
    · exact .notLoaded hkey haccepted
  · rw [Bool.not_eq_true] at hkey
    rw [load, OffsetFiles.load_of_not_isKey hkey]
    exact .loadRefused hkey

/-! ## Saving -/

/-- What is saved by a call of its own is saved without a thread that works meanwhile. -/
theorem saves_save (hfsync : under = .durable → store.fsync = true) (key : String) (offset : Offset b) :
    Saves under store key offset (store.save key offset).1 (some (store.save key offset).2) := by
  rw [save]
  split_ifs with hkey
  · exact .performed hkey hfsync (Disk.performs_performAll under store.disk _)
  · exact .refused (eq_false_of_ne_true hkey)

theorem fsync_save (store : FileStore) (key : String) (offset : Offset b) :
    (store.save key offset).1.fsync = store.fsync := by
  rw [save]
  split <;> rfl

theorem Saves.of_not_isKey (h : Saves under store key offset store' answer) (hkey : isKey key = false) :
    store' = store ∧ answer = some (.error (OffsetFiles.invalidKey key)) := by
  cases h with
  | refused => exact ⟨rfl, rfl⟩
  | performed hkey' => cases hkey.symm.trans hkey'

/-- Just before a save returns, the process may end. -/
theorem Saves.cutOff {result : Except CaptureError Unit}
    (h : Saves under store key offset store' (some result)) (hunder : under ≠ .calm) (hkey : isKey key) :
    Saves under store key offset { store' with disk := { store'.disk with queued := [] } } none := by
  cases h with
  | refused hrefused => cases hrefused.symm.trans hkey
  | performed _ hfsync h => exact .performed hkey hfsync (h.cutOff hunder)

/-- Wherever a save ends, a key for which nothing is queued keeps what it had. -/
theorem Saves.load_of_ne (h : Saves under store key offset store' answer) {key' : String}
    (hne : key' ≠ key) (hquiet : store.disk.Quiet (fileName key')) :
    store'.load (b := b) key' = store.load key' := by
  cases h with
  | refused => rfl
  | performed _ _ h =>
      have huntouched := h.untouched (fun _ htask => OffsetFiles.spares_of_mem_tasks htask hne) hquiet
      exact OffsetFiles.load_congr huntouched.get?_eq

theorem Saves.answer_of_point (h : Saves under store "." offset store' answer)
    (hholds : store.Holds under offsets) :
    store'.Holds under offsets ∧ (answer = none ∨ answer = some (.error Directory.notAFile)) := by
  cases h with
  | refused hkey => cases hkey
  | performed _ _ h => exact hholds.save_of_point h

theorem Holds.saved (h : Serves under (Function.update (fun key => .ok (offsets.load key)) key
      (.ok (some offset))) Unused store.disk) : store.Holds under (offsets.save key offset) := by
  have hanswers : Function.update (fun key => .ok (offsets.load key)) key (.ok (some offset)) =
      (fun key' => .ok ((offsets.save key offset).load key') : Answers b) := by
    funext key'
    by_cases hne : key' = key
    · simp [hne, OffsetMap.load, OffsetMap.save]
    · simp [hne, Ne.symm hne, OffsetMap.load, OffsetMap.save, Std.TreeMap.getElem?_insert]
  rw [Holds, ← hanswers]
  exact h

/-- However a save goes, a map does the same. -/
theorem Saves.exists_step (h : Saves under store key offset store' answer)
    (hholds : store.Holds under offsets) :
    ∃ offsets', OffsetMap.Step under offsets (.saved key offset answer) offsets' ∧
      store'.Holds under offsets' := by
  by_cases hpoint : key = "."
  · subst hpoint
    obtain ⟨hholds', rfl | rfl⟩ := h.answer_of_point hholds
    · exact ⟨offsets, .lost, hholds'⟩
    · exact ⟨offsets, .above, hholds'⟩
  cases h with
  | refused hkey => exact ⟨offsets, .saveRefused hkey, hholds⟩
  | performed hkey hfsync h =>
      by_cases haccepted : Accepted key
      · cases Serves.saved hholds haccepted hpoint hfsync h with
        | lost hlast => exact ⟨offsets, .lost, hlast⟩
        | kept hlast => exact ⟨offsets.save key offset, .kept haccepted hpoint, .saved hlast⟩
        | done hlast => exact ⟨offsets.save key offset, .saved haccepted hpoint, .saved hlast⟩
      · exact ⟨offsets, .notSaved hkey haccepted, hholds.save_of_not_accepted hkey haccepted h⟩

theorem Holds.save (h : store.Holds under offsets) (hfsync : under = .durable → store.fsync = true)
    (hkey : Accepted key) (hpoint : key ≠ ".") (offset : Offset b) :
    (store.save key offset).2 = .ok () ∧
      (store.save key offset).1.Holds under (offsets.save key offset) := by
  have hsaves := saves_save hfsync key offset
  obtain ⟨next, hstep, hnext⟩ := hsaves.exists_step h
  generalize (store.save key offset).2 = result at hstep ⊢
  cases hstep with
  | saved => exact ⟨rfl, hnext⟩
  | above => exact absurd rfl hpoint
  | saveRefused hrefused => cases hrefused.symm.trans hkey.isKey
  | notSaved _ haccepted => exact absurd hkey haccepted

/-- Wherever a save that waits for its write is cut off, its key has what it had or what was to be saved. -/
theorem Saves.load_of_cut_off (h : Saves under store key offset store' none)
    (hholds : store.Holds under offsets) (hkey : Accepted key) (hdurable : under = .durable) :
    store'.load key = .ok (offsets.load key) ∨ store'.load key = .ok (some offset) := by
  obtain ⟨offsets', hstep, hholds'⟩ := h.exists_step hholds
  rw [hholds'.load_eq hkey (.inl hdurable)]
  cases hstep with
  | kept => exact .inr (by simp [OffsetMap.load, OffsetMap.save])
  | lost => exact .inl rfl
  | notSaved _ h => exact absurd hkey h

/-- Where a save does not wait for its write, an empty file takes the place of the other, and what was to be
written to it is left to the threads. -/
theorem save_of_not_synced (hfsync : store.fsync = false) (hqueued : store.disk.queued = [])
    (hkey : Accepted key) (hpoint : key ≠ ".") (offset : Offset b) :
    ∃ files : Directory, files.get? (fileName key) = some [] ∧
      store.save key offset = (⟨⟨files, [⟨fileName key, offset.jsonBytes⟩]⟩, false⟩, .ok ()) := by
  let opened : Directory := store.disk.files.insert (temporaryName key) []
  let files : Directory := (opened.erase (temporaryName key)).insert (fileName key) []
  have htruncate : store.disk.perform (.truncate (temporaryName key)) = .ok ⟨opened, []⟩ := by
    refine Disk.perform_truncate_eq_ok.mpr ⟨OffsetFiles.temporaryName_ne_above hpoint, ?_, ?_⟩
    · rw [temporaryName, if_neg hpoint]
      exact hkey.temporary
    · rw [← hqueued]
  have hwrite : (⟨opened, []⟩ : Disk).perform (.write (temporaryName key) offset.jsonBytes) =
      .ok ⟨opened, [⟨temporaryName key, offset.jsonBytes⟩]⟩ := rfl
  have hrename : (⟨opened, [⟨temporaryName key, offset.jsonBytes⟩]⟩ : Disk).perform
      (.rename (temporaryName key) (fileName key)) =
        .ok ⟨files, [⟨fileName key, offset.jsonBytes⟩]⟩ := by
    refine Disk.perform_rename_eq_ok.mpr ⟨hkey.file, [], Directory.get?_insert_self, ?_⟩
    simp [QueuedWrite.follow, (OffsetFiles.fileName_ne_temporaryName key key).symm, files]
  have htasks : tasks key offset false = [.truncate (temporaryName key),
    .write (temporaryName key) offset.jsonBytes, .rename (temporaryName key) (fileName key)] := rfl
  refine ⟨files, Directory.get?_insert_self, ?_⟩
  rw [save, if_pos hkey.isKey, hfsync, htasks, Disk.performAll_cons_of_ok htruncate,
    Disk.performAll_cons_of_ok hwrite, Disk.performAll_cons_of_ok hrename]
  rfl

theorem load_of_empty (hkey : Accepted key) (h : store.disk.files.get? (fileName key) = some []) :
    store.load (b := b) key = .error .json := by
  rw [load, OffsetFiles.load, if_pos hkey.isKey, Directory.read?, hkey.file, h]
  rfl

/-- Without waiting for its write, a save is done before its key can be loaded, and if the process ends then,
the key is lost. -/
theorem load_save_of_not_synced (hfsync : store.fsync = false) (hqueued : store.disk.queued = [])
    (hkey : Accepted key) (hpoint : key ≠ ".") (offset : Offset b) :
    (store.save key offset).2 = .ok () ∧
      (store.save key offset).1.load (b := b) key = .error .json ∧
      (store.save key offset).1.settle.load key = .ok (some offset) ∧
      ∃ cut, Saves .any store key offset cut none ∧ cut.load (b := b) key = .error .json := by
  obtain ⟨files, hempty, hsave⟩ := save_of_not_synced hfsync hqueued hkey hpoint offset
  have hany : Conditions.any = .durable → store.fsync = true := nofun
  have hsaves := saves_save hany key offset
  rw [hsave] at hsaves ⊢
  refine ⟨rfl, load_of_empty hkey hempty, OffsetFiles.load_of_written hkey ?_, ⟨⟨files, []⟩, false⟩, ?_,
    load_of_empty hkey hempty⟩
  · change (files.overwrite (fileName key) (offset.jsonBytes.take _)).get? (fileName key) = _
    rw [take_length, Directory.get?_overwrite_self hempty, drop_nil, append_nil]
  · exact hsaves.cutOff (by decide) hkey.isKey

/-! ## Standing for a map -/

/-- Whatever a store in files does, a map does too. -/
theorem Step.exists_step {event : StoreEvent b} (h : Step under store event store')
    (hholds : store.Holds under offsets) :
    ∃ offsets', OffsetMap.Step under offsets event offsets' ∧ store'.Holds under offsets' := by
  cases h with
  | loaded h => exact ⟨offsets, h ▸ hholds.exists_step_loaded _, hholds⟩
  | saved h => exact h.exists_step hholds
  | reopened => exact ⟨offsets, .reopened, hholds⟩
  | worked h => exact ⟨offsets, .worked, Serves.works hholds h⟩
  | ended hunder h => exact ⟨offsets, .ended, Serves.ends hholds hunder h Unused⟩

/-- A run of a store in files is a run of a map, with the same answers. -/
theorem exists_runs {events : List (StoreEvent b)} (h : StoreEvent.Runs (Step under) store events store')
    (hholds : store.Holds under offsets) :
    ∃ offsets', StoreEvent.Runs (OffsetMap.Step under) offsets events offsets' ∧
      store'.Holds under offsets' := by
  induction h generalizing offsets with
  | nil => exact ⟨offsets, .nil _, hholds⟩
  | cons hstep _ ih =>
      obtain ⟨next, hnext, hholds⟩ := hstep.exists_step hholds
      obtain ⟨last, hruns, hlast⟩ := ih hholds
      exact ⟨last, .cons hnext hruns, hlast⟩

/-- A store in files behaves as a map unless a file is torn. Its runs are runs of a map with the same answers,
but where saves do not wait or writes fail, what the map has for a key may be missed: it is loaded exactly if
the file of the key does not hold a mere front of it, and no other value ever is. Nothing is missed where
saves wait for their writes and none fails, and if they only do not wait, nothing for which the write is done.
A key that is empty or names a path is refused and touches no file. Wherever a save ends, all other keys for
which nothing is queued have their answers, and if it waits for its write, its own key has the old or the new
offset where it is cut off. A single point cannot be saved. Where a save does not wait for its write, it is
done before the key can be loaded, and where it is cut off then, the key has neither. -/
theorem serves_as_map_unless_torn (under : Conditions) :
    (∀ {store store' : FileStore} {offsets : OffsetMap b} {events : List (StoreEvent b)},
      store.Holds under offsets → StoreEvent.Runs (Step under) store events store' →
      ∃ offsets', StoreEvent.Runs (OffsetMap.Step under) offsets events offsets' ∧
        store'.Holds under offsets') ∧
    (∀ {store : FileStore} {offsets : OffsetMap b} {key : String},
      store.Holds under offsets → Accepted key →
      (store.load key = .ok (offsets.load key) ↔
        ∀ offset, offsets.load key = some offset → ¬ Torn store.disk.files key offset) ∧
      (store.load key = .ok (offsets.load key) ∨ ∃ e, store.load (b := b) key = .error e) ∧
      (under = .durable ∨ under = .calm ∧ store.disk.Quiet (fileName key) →
        store.load key = .ok (offsets.load key))) ∧
    (∀ {store : FileStore} {key : String} {offset : Offset b},
      key = "" ∨ '/' ∈ key.toList ∨ '\\' ∈ key.toList →
      let refusal := CaptureError.config s!"Invalid offset key '{key}'"
      store.load (b := b) key = .error refusal ∧ ∀ store' answer,
        Saves under store key offset store' answer → store' = store ∧ answer = some (.error refusal)) ∧
    (∀ {store store' : FileStore} {key key' : String} {offset : Offset b} {answer},
      Saves under store key offset store' answer → key' ≠ key → store.disk.Quiet (fileName key') →
      store'.load (b := b) key' = store.load key') ∧
    (∀ {store store' : FileStore} {offsets : OffsetMap b} {key : String} {offset : Offset b},
      store.Holds under offsets → Saves under store key offset store' none → Accepted key →
      under = .durable →
      store'.load key = .ok (offsets.load key) ∨ store'.load key = .ok (some offset)) ∧
    (∀ {store store' : FileStore} {offsets : OffsetMap b} {offset : Offset b} {answer},
      store.Holds under offsets → Saves under store "." offset store' answer →
      store'.Holds under offsets ∧ (answer = none ∨ answer = some (.error Directory.notAFile))) ∧
    (∀ {store : FileStore} (key : String) (offset : Offset b), (under = .durable → store.fsync = true) →
      Saves under store key offset (store.save key offset).1 (some (store.save key offset).2)) ∧
    ∀ {store : FileStore} {key : String} (offset : Offset b),
      store.fsync = false → store.disk.queued = [] → Accepted key → key ≠ "." →
      (store.save key offset).2 = .ok () ∧
        (store.save key offset).1.load (b := b) key = .error .json ∧
        (store.save key offset).1.settle.load key = .ok (some offset) ∧
        ∃ cut, Saves .any store key offset cut none ∧ cut.load (b := b) key = .error .json := by
  refine ⟨fun hholds h => exists_runs h hholds,
    fun hholds hkey => ⟨hholds.load_eq_iff hkey, ?_, hholds.load_eq hkey⟩, fun {store key offset} hkey => ?_,
    fun h => h.load_of_ne, fun hholds h => h.load_of_cut_off hholds, fun hholds h => h.answer_of_point hholds,
    fun key offset hfsync => saves_save hfsync key offset,
    fun offset hfsync hqueued hkey hpoint => load_save_of_not_synced hfsync hqueued hkey hpoint offset⟩
  · refine (hholds.load_eq_or_torn hkey).imp_right ?_
    rintro ⟨offset, _, htorn, _⟩
    exact OffsetFiles.exists_load_of_torn hkey htorn
  · have hrefused : isKey key = false := by
      rw [← Bool.not_eq_true, OffsetFiles.isKey_eq_true, not_not]
      exact hkey
    exact ⟨OffsetFiles.load_of_not_isKey hrefused _, fun _ _ h => h.of_not_isKey hrefused⟩

section Sample

def sampleOffset (position : Nat) : Offset .sqlserver where
  position := .ofNat position
  sequence := (.ofNat 1 : Lsn)
  op := 2
  origin := "dbo.orders:dbo_orders"

/-- A store that has saved an offset. -/
def sampleStore (fsync : Bool) : FileStore := (FileStore.save { fsync } "orders" (sampleOffset 1)).1

theorem accepted_orders : Accepted "orders" :=
  OffsetFiles.accepted_of_short (by decide) (by decide) (by decide)

end Sample

/-- An offset is loaded before it is written, one is loaded when it was waited for, one is saved for another
key, and one is cut off. -/
theorem serves_as_map_unless_torn_of_sample :
    (∃ offsets : OffsetMap .sqlserver, StoreEvent.Runs (OffsetMap.Step .any) ∅
        [.saved "orders" (sampleOffset 1) (some (.ok ())), .loaded "orders" (.error .json)] offsets ∧
      ((sampleStore false).load "orders" = .ok (offsets.load "orders") ↔ ∀ offset,
        offsets.load "orders" = some offset → ¬ Torn (sampleStore false).disk.files "orders" offset)) ∧
    (sampleStore true).load "orders" = .ok (some (sampleOffset 1)) ∧
    (sampleStore true).load (b := .sqlserver) "../orders" =
      .error (.config "Invalid offset key '../orders'") ∧
    (FileStore.save {} "orders.old" (sampleOffset 2)).1.load (b := .sqlserver) "orders" =
      FileStore.load {} "orders" ∧
    (∃ cut, Saves .durable (sampleStore true) "orders" (sampleOffset 2) cut none ∧
      (cut.load "orders" = .ok (some (sampleOffset 1)) ∨ cut.load "orders" = .ok (some (sampleOffset 2)))) ∧
    (FileStore.save {} "." (sampleOffset 2)).2 = .error Directory.notAFile ∧
    (sampleStore false).settle.load "orders" = .ok (some (sampleOffset 1)) := by
  have hpoint : "orders" ≠ "." := by decide
  have hholds : (sampleStore true).Holds .durable (OffsetMap.save ∅ "orders" (sampleOffset 1)) :=
    ((holds_empty .durable true).save (fun _ => rfl) accepted_orders hpoint (sampleOffset 1)).2
  obtain ⟨hruns, hloads, hrefused, hothers, _, hfails, hsaves, hlate⟩ :=
    serves_as_map_unless_torn (b := .sqlserver) .any
  obtain ⟨_, hkept, _, _, hcut, _⟩ := serves_as_map_unless_torn (b := .sqlserver) .durable
  have hsaved : Saves .any { fsync := false } "orders" (sampleOffset 1) (sampleStore false) _ :=
    hsaves "orders" (sampleOffset 1) nofun
  obtain ⟨hok, hload, hsettled, _⟩ := hlate (sampleOffset 1)
    (rfl : ({ fsync := false } : FileStore).fsync = false) rfl accepted_orders hpoint
  rw [hok] at hsaved
  obtain ⟨offsets, hmap, hlast⟩ :=
    hruns (holds_empty .any false) (.cons (.saved hsaved) (.cons (.loaded hload) (.nil _)))
  have hcutOff : Saves .durable (sampleStore true) "orders" (sampleOffset 2) _ none :=
    .performed accepted_orders.isKey (fun _ => fsync_save _ _ _) (.ended _ (by decide) ⟨_, .refl, rfl⟩)
  refine ⟨⟨offsets, hmap, (hloads hlast accepted_orders).1⟩, ?_, ?_, ?_, ⟨_, hcutOff, ?_⟩, ?_, hsettled⟩
  · have hlast := (hkept hholds accepted_orders).2.2 (.inl rfl)
    simpa [OffsetMap.load, OffsetMap.save] using hlast
  · exact (@hrefused (sampleStore true) "../orders" (sampleOffset 2) (.inr (.inl (by decide)))).1
  · have hquiet : (FileStore.disk {}).Quiet (fileName "orders") := fun _ hw => absurd hw not_mem_nil
    exact hothers (hsaves "orders.old" (sampleOffset 2) nofun) (by decide) hquiet
  · have hlast := hcut hholds hcutOff accepted_orders rfl
    simpa [OffsetMap.load, OffsetMap.save] using hlast
  · have hanswer := (hfails (holds_empty .any true) (hsaves "." (sampleOffset 2) nofun)).2
    simpa using hanswer

/-- A single point is a key whose file may be named, and it cannot be saved. Without waiting for the write, an
offset that was saved cannot be loaded, and one that was saved before is lost with the next when that is cut
off. -/
theorem answers_unlike_map :
    (isKey "." ∧ Directory.checkName (fileName ".") = .ok () ∧
      (FileStore.save {} "." (sampleOffset 1)).2 = .error Directory.notAFile ∧
      (FileStore.save {} "." (sampleOffset 1)).1.load (b := .sqlserver) "." = .ok none ∧
      (OffsetMap.save ∅ "." (sampleOffset 1)).load "." = some (sampleOffset 1)) ∧
    ((FileStore.save { fsync := false } "orders" (sampleOffset 1)).2 = .ok () ∧
      (sampleStore false).load (b := .sqlserver) "orders" = .error .json ∧
      (OffsetMap.save ∅ "orders" (sampleOffset 1)).load "orders" = some (sampleOffset 1)) ∧
    (sampleStore false).settle.load "orders" = .ok (some (sampleOffset 1)) ∧
    ∃ cut, Saves .any (sampleStore false).settle "orders" (sampleOffset 2) cut none ∧
      cut.load (b := .sqlserver) "orders" = .error .json := by
  have hpoint : "orders" ≠ "." := by decide
  obtain ⟨hok, hload, hsettled, _⟩ := load_save_of_not_synced
    (rfl : ({ fsync := false } : FileStore).fsync = false) rfl accepted_orders hpoint (sampleOffset 1)
  have hqueued : (sampleStore false).settle.disk.queued = [] := Disk.queued_finish rfl
  have hfsync : (sampleStore false).settle.fsync = false :=
    fsync_save { fsync := false } "orders" (sampleOffset 1)
  obtain ⟨_, _, _, hcut⟩ := load_save_of_not_synced hfsync hqueued accepted_orders hpoint (sampleOffset 2)
  refine ⟨⟨by decide, by decide, ?_, ?_, ?_⟩, ⟨hok, hload, ?_⟩, hsettled, hcut⟩
  · rfl
  · rfl
  · simp [OffsetMap.load, OffsetMap.save]
  · simp [OffsetMap.load, OffsetMap.save]

end FileStore

end ChangeCapture
