import ChangeCapture.Proofs.Progress

/-! # What outlasts a crash

The journal of a run relates what happened to what is stored and committed. Every acknowledgement, every
saved offset and every crash keeps it. -/

namespace ChangeCapture

open List

/-! ## Reading a history -/

/-- The offset that was saved for a key. -/
def Event.saved? (key : String) : Event → Option (Offset .sqlserver)
  | .saved key' o => if key' = key then some o else none
  | _ => none

/-- The start that was found while no offset was there to resume after. -/
def Event.start? : Event → Option Lsn
  | .began first none => some first
  | _ => none

/-- The event is the end of a life. -/
def Event.IsCrash : Event → Prop
  | .crashed _ => True
  | _ => False

namespace World

/-- The offsets that were saved for a key. -/
def saved (w : World) (key : String) : List (Offset .sqlserver) :=
  w.history.filterMap (Event.saved? key)

/-- The starts that were found while no offset was there to resume after. -/
def starts (w : World) : List Lsn := w.history.filterMap Event.start?

/-- What a new life would resume with. -/
def stored (w : World) (key : String) : OffsetTracker .sqlserver := ⟨w.store.load key⟩

variable (w : World) (event : Event) (key : String)

theorem saved_note : (w.note event).saved key = w.saved key ++ (event.saved? key).toList := by
  rw [saved, note, filterMap_append]
  cases h : event.saved? key <;> simp [saved, h]

theorem starts_note : (w.note event).starts = w.starts ++ event.start?.toList := by
  rw [starts, note, filterMap_append]
  cases h : event.start? <;> simp [starts, h]

theorem load_save (o : Offset .sqlserver) : (w.save key o).store.load key = some o :=
  Std.TreeMap.getElem?_insert_self

end World

/-- An event of a longer history is its last one or one before. -/
theorem split_append {history before after : List Event} {event last : Event}
    (h : history ++ [last] = before ++ event :: after) :
    after = [] ∧ event = last ∧ before = history ∨
      ∃ rest, after = rest ++ [last] ∧ history = before ++ event :: rest := by
  rcases eq_nil_or_concat' after with rfl | ⟨rest, last', rfl⟩
  · obtain ⟨rfl, hlast⟩ := append_inj' h rfl
    exact .inl ⟨rfl, (cons.inj hlast).1.symm, rfl⟩
  · rw [← cons_append, ← append_assoc] at h
    obtain ⟨rfl, hlast⟩ := append_inj' h rfl
    exact .inr ⟨rest, by rw [(cons.inj hlast).1], rfl⟩

/-! ## Acknowledgements of one life -/

/-- A record lies behind what was stored at every crash before, and behind what was acknowledged since
the last of them. -/
structure IsNew (before : List Event) (record : ChangeRecord .sqlserver) : Prop where
  stored : ∀ o, .crashed (some o) ∈ before → compare o record.offset = .lt
  later : ∀ {before' earlier between}, before = before' ++ .acknowledged earlier :: between →
    (∀ e ∈ between, ¬ e.IsCrash) → compare earlier.offset record.offset = .lt

/-- What was acknowledged since the last crash is committed, and every record was new when it was
acknowledged. -/
structure Sequential (tracker : OffsetTracker .sqlserver) (history : List Event) : Prop where
  committed : ∀ {before record after}, history = before ++ .acknowledged record :: after →
    (∀ e ∈ after, ¬ e.IsCrash) → tracker.Covers record.offset
  new : ∀ {before record after}, history = before ++ .acknowledged record :: after →
    IsNew before record

namespace Sequential

variable {tracker tracker' : OffsetTracker .sqlserver} {history : List Event} {event : Event}

theorem mono (h : Sequential tracker history)
    (hcovers : ∀ o, tracker.Covers o → tracker'.Covers o) : Sequential tracker' history :=
  ⟨fun hsplit hcrash => hcovers _ (h.committed hsplit hcrash), h.new⟩

/-- An event other than an acknowledgement; after a crash nothing needs to be committed. -/
theorem append (h : Sequential tracker history) (hevent : event.acknowledged? = none)
    (htracker : event.IsCrash ∨ tracker' = tracker) : Sequential tracker' (history ++ [event]) := by
  constructor
  · intro before record after hsplit hcrash
    rcases split_append hsplit with ⟨_, rfl, _⟩ | ⟨rest, rfl, hrest⟩
    · cases hevent
    · rcases htracker with hend | rfl
      · exact absurd hend (hcrash _ (by simp))
      · exact h.committed hrest fun e he => hcrash e (mem_append_left _ he)
  · intro before record after hsplit
    rcases split_append hsplit with ⟨_, rfl, _⟩ | ⟨rest, rfl, hrest⟩
    · cases hevent
    · exact h.new hrest

theorem acknowledged (h : Sequential tracker history) {record : ChangeRecord .sqlserver}
    (hstored : ∀ o, .crashed (some o) ∈ history → compare o record.offset = .lt)
    (hnew : ¬ tracker.Covers record.offset) :
    Sequential ⟨some record.offset⟩ (history ++ [.acknowledged record]) := by
  have hlt {before after} {earlier : ChangeRecord .sqlserver}
      (hsplit : history = before ++ .acknowledged earlier :: after)
      (hcrash : ∀ e ∈ after, ¬ e.IsCrash) : compare earlier.offset record.offset = .lt :=
    OffsetTracker.compare_lt_of_covers (h.committed hsplit hcrash) hnew
  constructor
  · intro before record' after hsplit hcrash
    rcases split_append hsplit with ⟨_, hrecord, _⟩ | ⟨rest, rfl, hrest⟩
    · cases hrecord
      exact ⟨_, rfl, Offset.covers_self⟩
    · exact ⟨_, rfl, Offset.covers_of_compare_lt
        (hlt hrest fun e he => hcrash e (mem_append_left _ he))⟩
  · intro before record' after hsplit
    rcases split_append hsplit with ⟨_, hrecord, rfl⟩ | ⟨rest, rfl, hrest⟩
    · cases hrecord
      exact ⟨hstored, hlt⟩
    · exact h.new hrest

end Sequential

/-! ## The journal -/

/-- How what has happened, what is stored and what is committed belong together. `initial` was stored
when the run began. -/
structure Journal (key : String) (initial : Option (Offset .sqlserver)) (starts : List Lsn)
    (tracker : OffsetTracker .sqlserver) (w : World) : Prop
    extends Sequential tracker w.history where
  starts_eq : w.starts = starts
  lasting : initial.isSome → (w.store.load key).isSome
  /-- What is stored was committed. -/
  committed_of_stored : ∀ {o}, (w.stored key).Covers o → tracker.Covers o
  /-- What was stored at any time remains covered. -/
  durable : ∀ {o p}, o ∈ w.saved key ∨ .crashed (some o) ∈ w.history → o.covers p →
    (w.stored key).Covers p
  ascending : (w.saved key).Pairwise fun o p => compare o p = .lt
  confirmed : ∀ o ∈ w.saved key, o ∈ w.acknowledged

namespace Journal

variable {key : String} {initial : Option (Offset .sqlserver)} {starts : List Lsn}
  {tracker tracker' : OffsetTracker .sqlserver} {w w' : World} {e : Event}

/-- Before anything has happened, what is stored counts as committed. -/
theorem begin (key : String) (server : CapturedServer) (store : OffsetMap .sqlserver) :
    Journal key (store.load key) [] (World.stored { server, store } key) { server, store } where
  committed h := by simp at h
  new h := by simp at h
  starts_eq := rfl
  lasting h := h
  committed_of_stored h := h
  durable h := by simp [World.saved] at h
  ascending := Pairwise.nil
  confirmed := by simp [World.saved]

theorem of_kept (h : Journal key initial starts tracker w) (hkept : w.Kept w') :
    Journal key initial starts tracker w' := by
  obtain ⟨server, store, history⟩ := w
  obtain ⟨server', store', history'⟩ := w'
  obtain ⟨rfl, rfl⟩ := hkept
  exact ⟨h.toSequential, h.starts_eq, h.lasting, h.committed_of_stored, h.durable, h.ascending,
    h.confirmed⟩

theorem mono (h : Journal key initial starts tracker w)
    (hcovers : ∀ o, tracker.Covers o → tracker'.Covers o) : Journal key initial starts tracker' w :=
  ⟨h.toSequential.mono hcovers, h.starts_eq, h.lasting,
    fun hstored => hcovers _ (h.committed_of_stored hstored), h.durable, h.ascending, h.confirmed⟩

/-- What was ever stored comes before what is not committed. -/
theorem compare_lt (h : Journal key initial starts tracker w) {o p : Offset .sqlserver}
    (ho : o ∈ w.saved key ∨ .crashed (some o) ∈ w.history) (hp : ¬ tracker.Covers p) :
    compare o p = .lt :=
  OffsetTracker.compare_lt_of_covers (h.committed_of_stored (h.durable ho Offset.covers_self)) hp

/-- Events that neither acknowledge nor save. -/
theorem note (h : Journal key initial starts tracker w) (hack : e.acknowledged? = none)
    (hsaved : e.saved? key = none) (htracker : e.IsCrash ∨ tracker' = tracker)
    (hstored : ∀ o, (w.stored key).Covers o → tracker'.Covers o)
    (hcrash : ∀ o, e = .crashed (some o) → w.store.load key = some o) :
    Journal key initial (starts ++ e.start?.toList) tracker' (w.note e) := by
  have hkept : (w.note e).saved key = w.saved key := by
    rw [World.saved_note, hsaved]
    exact append_nil _
  have hnone : (w.note e).acknowledged = w.acknowledged := by
    rw [World.acknowledged_note, hack]
    exact append_nil _
  refine ⟨h.toSequential.append hack htracker, by rw [World.starts_note, h.starts_eq], h.lasting,
    fun hcovers => hstored _ hcovers, fun {o p} ho hcovers => ?_, hkept ▸ h.ascending, ?_⟩
  · rw [hkept] at ho
    rcases ho with ho | ho
    · exact h.durable (.inl ho) hcovers
    · rcases mem_append.mp ho with ho | ho
      · exact h.durable (.inr ho) hcovers
      · exact ⟨o, hcrash o (mem_singleton.mp ho).symm, hcovers⟩
  · rw [hkept, hnone]
    exact h.confirmed

theorem acknowledged (h : Journal key initial starts tracker w) {record : ChangeRecord .sqlserver}
    (hnew : ¬ tracker.Covers record.offset) :
    Journal key initial starts ⟨some record.offset⟩ (w.note (.acknowledged record)) := by
  have hkept : (w.note (.acknowledged record)).saved key = w.saved key :=
    (w.saved_note _ key).trans (append_nil _)
  refine ⟨h.toSequential.acknowledged (fun o ho => h.compare_lt (.inr ho) hnew) hnew,
    ((w.starts_note _).trans (append_nil _)).trans h.starts_eq, h.lasting, fun {o} hcovers => ?_,
    fun {o p} ho hcovers => ?_, hkept ▸ h.ascending, fun o ho => ?_⟩
  · have hlt := OffsetTracker.compare_lt_of_covers (h.committed_of_stored hcovers) hnew
    exact ⟨_, rfl, Offset.covers_of_compare_lt hlt⟩
  · rw [hkept, World.note, mem_append] at ho
    exact h.durable (ho.imp_right fun ho => ho.resolve_right (by simp)) hcovers
  · rw [World.acknowledged_note]
    exact mem_append_left _ (h.confirmed o (hkept ▸ ho))

/-- A committed offset is saved that comes after all that were saved before. -/
theorem save {o : Offset .sqlserver} (h : Journal key initial starts ⟨some o⟩ w)
    (hlt : ∀ p ∈ w.saved key, compare p o = .lt) (hack : o ∈ w.acknowledged) :
    Journal key initial starts ⟨some o⟩ (w.save key o) := by
  have hload := w.load_save key o
  have hsaved : (w.save key o).saved key = w.saved key ++ [o] := by
    refine (w.saved_note (.saved key o) key).trans ?_
    rw [Event.saved?, if_pos rfl]
    rfl
  refine ⟨h.toSequential.append rfl (.inr rfl),
    ((w.starts_note (.saved key o)).trans (append_nil _)).trans h.starts_eq, fun _ => by simp [hload],
    fun hcovers => ?_, fun {p q} hp hcovers => ⟨o, hload, ?_⟩, ?_, fun p hp => ?_⟩
  · rwa [World.stored, hload] at hcovers
  · rw [hsaved, mem_append, mem_singleton] at hp
    have hold (hp : p ∈ w.saved key ∨ .crashed (some p) ∈ w.history) : o.covers q := by
      obtain ⟨_, hcommitted, hcovers⟩ := h.committed_of_stored (h.durable hp hcovers)
      cases hcommitted
      exact hcovers
    rcases hp with (hp | rfl) | hp
    · exact hold (.inl hp)
    · exact hcovers
    · exact hold (.inr ((mem_append.mp hp).resolve_right (by simp)))
  · rw [hsaved]
    exact pairwise_append.mpr ⟨h.ascending, pairwise_singleton _ _,
      fun p hp q hq => mem_singleton.mp hq ▸ hlt p hp⟩
  · rw [hsaved, mem_append, mem_singleton] at hp
    rw [World.acknowledged_save]
    rcases hp with hp | rfl
    · exact h.confirmed p hp
    · exact hack

theorem runInvariant (key : String) (initial : Option (Offset .sqlserver)) (starts : List Lsn) :
    RunInvariant key (Journal key initial starts) where
  kept h hkept := h.of_kept hkept
  stopped h := by
    simpa [Event.start?] using h.note (e := .stopped) rfl rfl (.inr rfl)
      (fun _ => h.committed_of_stored) (by simp)
  acknowledged h hnew := h.acknowledged hnew
  saved {record tracker w v} h hnew hkept := by
    have hnow := (h.acknowledged hnew).of_kept hkept
    refine hnow.save (fun p hp => h.compare_lt (.inl ?_) hnew) ?_
    · have hsame : v.saved key = w.saved key := by
        rw [World.saved, hkept.history]
        exact (w.saved_note _ key).trans (append_nil _)
      exact hsame ▸ hp
    · rw [hkept.acknowledged, World.acknowledged_note]
      exact mem_append_right _ mem_cons_self

/-- At a crash only what is stored remains. -/
theorem crash (h : Journal key initial starts tracker w) :
    Journal key initial starts (w.stored key) (w.note (.crashed (w.store.load key))) := by
  simpa [Event.start?] using h.note (e := .crashed (w.store.load key)) rfl rfl (.inl trivial)
    (fun _ hcovers => hcovers) (by simp)

end Journal

end ChangeCapture
