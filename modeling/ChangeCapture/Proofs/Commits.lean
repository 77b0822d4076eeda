import ChangeCapture.Proofs.Polling

/-! # Commits are never rejected

Whatever the server answers, what the filter lets through can be committed. -/

namespace ChangeCapture

open List
open Program (Ends)

/-! ## Commits of a run -/

/-- The offset of a record that was acknowledged. -/
def Event.acknowledged? : Event → Option (Offset .sqlserver)
  | .acknowledged record => some record.offset
  | _ => none

/-- The offsets of the records that were acknowledged. -/
def acknowledgedOffsets (events : List Event) : List (Offset .sqlserver) :=
  events.filterMap Event.acknowledged?

@[simp] theorem acknowledgedOffsets_append (events events' : List Event) :
    acknowledgedOffsets (events ++ events') =
      acknowledgedOffsets events ++ acknowledgedOffsets events' := filterMap_append

/-- Commits offsets one by one. -/
def OffsetTracker.commitAll (tracker : OffsetTracker .sqlserver) (offsets : List (Offset .sqlserver)) :
    Except CaptureError (OffsetTracker .sqlserver) := offsets.foldlM OffsetTracker.commit tracker

/-- What is committed at the end comes from committing all that was acknowledged in between. -/
def Commits (tracker : OffsetTracker .sqlserver) (w : World) (tracker' : OffsetTracker .sqlserver)
    (w' : World) : Prop :=
  ∃ events, w'.history = w.history ++ events ∧
    tracker.commitAll (acknowledgedOffsets events) = .ok tracker'

namespace Commits

variable {tracker tracker' : OffsetTracker .sqlserver} {w w' : World}

theorem refl (tracker : OffsetTracker .sqlserver) (w : World) : Commits tracker w tracker w :=
  ⟨[], by simp, rfl⟩

theorem of_kept (h : Commits tracker w tracker' w') {v : World} (hv : w'.Kept v) :
    Commits tracker w tracker' v := by
  obtain ⟨events, hhistory, hcommit⟩ := h
  exact ⟨events, hv.history.trans hhistory, hcommit⟩

/-- All that is acknowledged in a stretch is committed after what was committed before it. -/
theorem trans {tracker'' : OffsetTracker .sqlserver} {w'' : World} (h : Commits tracker w tracker' w')
    (h' : Commits tracker' w' tracker'' w'') :
    Commits tracker w tracker'' w'' := by
  obtain ⟨events, hhistory, hcommit⟩ := h
  obtain ⟨events', hhistory', hcommit'⟩ := h'
  refine ⟨events ++ events', by rw [hhistory', hhistory, append_assoc], ?_⟩
  rw [acknowledgedOffsets_append, OffsetTracker.commitAll, foldlM_append]
  rw [OffsetTracker.commitAll] at hcommit
  rw [hcommit]
  exact hcommit'

/-- An event other than an acknowledgement commits nothing. -/
theorem note (h : Commits tracker w tracker' w') {event : Event} (he : event.acknowledged? = none) :
    Commits tracker w tracker' (w'.note event) := by
  obtain ⟨events, hhistory, hcommit⟩ := h
  refine ⟨events ++ [event], by simp [World.note, hhistory], ?_⟩
  simp [acknowledgedOffsets, he] at hcommit ⊢
  exact hcommit

theorem acknowledged (h : Commits tracker w tracker' w') {record : ChangeRecord .sqlserver}
    (hnew : ¬ tracker'.Covers record.offset) :
    Commits tracker w ⟨some record.offset⟩ (w'.note (.acknowledged record)) := by
  obtain ⟨events, hhistory, hcommit⟩ := h
  refine ⟨events ++ [.acknowledged record], by simp [World.note, hhistory], ?_⟩
  rw [acknowledgedOffsets_append, OffsetTracker.commitAll, foldlM_append]
  rw [OffsetTracker.commitAll] at hcommit
  rw [hcommit]
  change tracker'.commit record.offset >>= pure = _
  rw [OffsetTracker.commit_of_not_covers hnew]
  rfl

theorem runInvariant (tracker : OffsetTracker .sqlserver) (w : World) (key : String) :
    RunInvariant key (Commits tracker w) where
  kept h hkept := h.of_kept hkept
  stopped h := h.note rfl
  acknowledged h hnew := h.acknowledged hnew
  saved h hnew hkept := ((h.acknowledged hnew).of_kept hkept).note rfl

end Commits

/-! ## Streams and polls -/

namespace Streamer

variable {rules : Rules} {s s' : Streamer} {w w' : World}

theorem commits_of_ends_deliverRecords {records : List (ChangeRecord .sqlserver)}
    (hascending : (records.map ChangeRecord.offset).Pairwise fun o p => compare o p = .lt)
    {result : Except CaptureError DeliveryProgress}
    (h : Ends rules.answers
      (runStep (deliverRecords { resume := { resumeAfter := s.tracker.committed } } records) s) w
      (result, s') w') :
    Commits s.tracker w s'.tracker w' := by
  have halways := always_deliverRecords s rules.calm_kept
    ((Commits.runInvariant s.tracker w s.offsetKey).delivery (fun h => h) records) (fun _ => trivial)
    { resume := { resumeAfter := s.tracker.committed } } rfl (nil_append records).symm hascending
    s.tracker (.inl rfl) (Commits.refl s.tracker w)
  obtain ⟨tracker, hs', hdelivered⟩ := halways.post_of_ends h
  dsimp only at hs' hdelivered
  rw [hs']
  cases hdelivered with
  | failed hcommits => exact hcommits
  | stopped hcommits => exact hcommits.note rfl
  | finished hcommits => exact hcommits

theorem polled_of_ends (hs : ∀ ci ∈ s.registry.toList, ci.IsPlain)
    {result : Except CaptureError (Option IntervalStats)}
    (h : Ends rules.answers (runStep pollOnce s) w (result, s') w') :
    Polled rules World.Kept s w (fun _ _ _ => Commits s.tracker w) result s' w' := by
  have halways := always_pollOnce rules.calm_kept (fun _ _ => trivial) (fun _ => trivial)
    fun hopening hkept => ⟨(hopening.ascending hs).2,
      (Commits.runInvariant s.tracker w s.offsetKey).delivery (fun h => h) _,
      (Commits.refl s.tracker w).of_kept hkept⟩
  exact halways.post_of_ends h

theorem Polled.commits {result : Except CaptureError (Option IntervalStats)}
    (h : Polled rules World.Kept s w (fun _ _ _ => Commits s.tracker w) result s' w') :
    Commits s.tracker w s'.tracker w' := by
  cases h with
  | idle h => exact (Commits.refl _ _).of_kept h
  | unopened h => exact (Commits.refl _ _).of_kept h
  | broken _ h => exact h
  | halted _ h => exact h.note rfl
  | unfinished _ h => exact h
  | completed _ _ h _ hlater => exact h.of_kept hlater

theorem Polled.isPlain (hs : ∀ ci ∈ s.registry.toList, ci.IsPlain) {related : World → World → Prop}
    {J : World → ChangeStream → List (ChangeRecord .sqlserver) → OffsetTracker .sqlserver → World →
      Prop} {result : Except CaptureError (Option IntervalStats)}
    (h : Polled rules related s w J result s' w') : ∀ ci ∈ s'.registry.toList, ci.IsPlain := by
  cases h with
  | idle | unopened | broken => exact hs
  | halted hopening => exact (hopening.ascending hs).1
  | unfinished hopening => exact (hopening.ascending hs).1
  | completed hopening => exact (hopening.ascending hs).1

/-- What was polled from a new streamer on is plain. -/
theorem Polls.isPlain (hs : ∀ ci ∈ s.registry.toList, ci.IsPlain) (h : Polls rules s w s' w') :
    ∀ ci ∈ s'.registry.toList, ci.IsPlain := by
  induction h with
  | none => exact hs
  | next _ hpoll ih => exact (polled_of_ends ih hpoll).isPlain ih

theorem isPlain_of_empty (hs : s.registry = {}) : ∀ ci ∈ s.registry.toList, ci.IsPlain := by
  intro ci hci
  rw [hs] at hci
  obtain ⟨name, hname⟩ := Registry.mem_values.mp hci
  simp at hname

end Streamer

/-- Whatever the cursors of windows with different labels yield, the changes up to the first failure are
in strictly ascending order, and every one that is handed over after an earlier commit can be
committed. This goes for every poll of a streamer, whatever the server has answered before. -/
theorem ascending_and_committed :
    (∀ {planned : List PlannedWindow} {w w' : World} {stream : ChangeStream},
      (planned.map fun p => p.window.label).Nodup →
      Ends Rules.lawless.answers (ChangeStream.start planned).run w (.ok stream) w' →
        (stream.drain.1.map ChangeRecord.offset).Pairwise (fun o p => compare o p = .lt) ∧
        ∀ {s s' : Streamer} {u u' : World} {result},
          Ends Rules.lawless.answers (Streamer.runStep (Streamer.deliverRecords
            { resume := { resumeAfter := s.tracker.committed } } stream.drain.1) s) u (result, s') u' →
          Commits s.tracker u s'.tracker u') ∧
    ∀ {config : Configuration} {database : String} {hasStore : Bool}
      {tracker : OffsetTracker .sqlserver} {first : Lsn} {w₀ w w' : World} {s s' : Streamer} {result},
      Streamer.Polls Rules.lawless
        { Streamer.ofConfiguration config database hasStore with tracker, nextFrom := first } w₀ s w →
      Ends Rules.lawless.answers (Streamer.runStep Streamer.pollOnce s) w (result, s') w' →
      Commits s.tracker w s'.tracker w' := by
  refine ⟨fun hlabels hstart => ?_, fun hpolls hpoll => ?_⟩
  · obtain ⟨states, inputs, _, _, hopened⟩ := ChangeStream.ends_start hstart
    have hascending := hopened.ascending (by rwa [map_map])
    exact ⟨hascending, fun h => Streamer.commits_of_ends_deliverRecords hascending h⟩
  · have hplain := hpolls.isPlain (Streamer.isPlain_of_empty rfl)
    exact (Streamer.polled_of_ends hplain hpoll).commits

/-! ## A sample -/

namespace Sample

def source (name : String) : CaptureInstance :=
  { table := { database := "shop", schema := "dbo", table := "orders" }, name, objectId := 0
    startLsn := .ofNat 1, stopLsn := .null, capturedColumns := ["id"] }

/-- The row of an insertion. -/
def row (position : Nat) : ChangeRow :=
  { startLsn := .ofNat position, seqval := .ofNat 1, operation := 2, values := [none] }

/-- The record of an insertion. -/
def record (name : String) (position : Nat) : ChangeRecord .sqlserver :=
  { kind := .insert, opCode := 2, table := (source name).table, source := name
    position := .ofNat position, sequence := Sequence.ofLsn (.ofNat 1), old := [], new := [none] }

/-- One instance of the table is listed, and two rows were inserted. -/
def server : CapturedServer where
  listing :=
    [{ schema := "dbo", table := "orders", name := "orders"
       startLsn := some [0, 0, 0, 0, 0, 0, 0, 0, 0, 1], endLsn := none
       capturedColumnList := some "[id]" }]
  changes name := if name = "orders" then [row 5, row 15] else []
  reported := .null
  ordered name := by
    split
    · decide
    · exact Pairwise.nil

def schema : TableSchema :=
  { id := (source "orders").table
    columns := [{ name := "id", position := 1, typeName := "int" }] }

def planned (first last : Nat) (name : String) : PlannedWindow :=
  { window := { source := source name, first := .ofNat first, last := .ofNat last, until? := none }
    schema }

/-- The stream of windows in each of which there is a row at one position. -/
def stream (first last position : Nat) (names : List String) : ChangeStream :=
  { merge :=
      { labels := names.map fun name => (source name).label
        pending := names.mapIdx fun input name =>
          { input, label := (source name).label, row := row position, rest := { rows := [] } }
        counts := names.map fun _ => 0 }
    states := names.map fun name =>
      { window := (planned first last name).window, schema, projection := [0] } }

end Sample

open Sample in
/-- Two insertions at one position go by the labels of their windows, and both are committed. Nothing is
committed in a poll that fails at once. -/
theorem ascending_and_committed_of_two :
    let records := [record "orders" 15, record "orders_v2" 15]
    let w : World := { server }
    (records.map ChangeRecord.offset).Pairwise (fun o p => compare o p = .lt) ∧
      Commits {} w ⟨some (record "orders_v2" 15).offset⟩
        ((w.note (.acknowledged (record "orders" 15))).note (.acknowledged (record "orders_v2" 15))) ∧
      Commits {} w {} w := by
  intro records w
  have hdrain : (stream 11 20 15 ["orders", "orders_v2"]).drain.1 = records := by decide +kernel
  have hstart : Ends Rules.lawless.answers
      (ChangeStream.start (["orders", "orders_v2"].map (planned 11 20))).run w
      (.ok (stream 11 20 15 ["orders", "orders_v2"])) w := by
    have hask (window : SourceWindow) : Rules.lawless.answers w (.server (.changes window))
        (Except.ok { rows := [row 15] } : Except CaptureError (Cursor ChangeRow)) w :=
      ⟨server, trivial, trivial, rfl⟩
    exact .ask (hask _) (.ask (hask _) (.refl _ _))
  have hdeliver : Ends Rules.lawless.answers
      (Streamer.runStep (Streamer.deliverRecords { resume := { resumeAfter := none } } records)
        (Streamer.ofConfiguration {} "shop" false)) w
      (.ok { resume := { resumeAfter := none }, delivered := 2 },
        { Streamer.ofConfiguration {} "shop" false with
          tracker := ⟨some (record "orders_v2" 15).offset⟩ })
      ((w.note (.acknowledged (record "orders" 15))).note
        (.acknowledged (record "orders_v2" 15))) := by
    have hactive (w : World) : Rules.lawless.answers w .isActive true w :=
      ⟨w.server, trivial, trivial, rfl⟩
    have hdeliver (w : World) (record : ChangeRecord .sqlserver) :
        Rules.lawless.answers w (.deliver record) (Except.ok () : Except CaptureError Unit)
          (w.note (.acknowledged record)) := ⟨w.server, trivial, trivial, rfl⟩
    exact .ask (hactive _) (.ask (hdeliver _ _) (.ask (hactive _) (.ask (hdeliver _ _) (.refl _ _))))
  have hfail : Rules.lawless.answers w (.server .maxLsn)
      (Except.error .connectionClosed : Except CaptureError Lsn) w := ⟨server, trivial, trivial, rfl⟩
  obtain ⟨hascending, hcommits⟩ := ascending_and_committed.1 (by decide) hstart
  rw [hdrain] at hascending hcommits
  refine ⟨hascending, hcommits (s := Streamer.ofConfiguration {} "shop" false) hdeliver, ?_⟩
  have hpolls : Streamer.Polls Rules.lawless
      { Streamer.ofConfiguration {} "shop" false with tracker := {}, nextFrom := .null } w
      { Streamer.ofConfiguration {} "shop" false with tracker := {}, nextFrom := .null } w := .none
  exact ascending_and_committed.2 hpolls (.ask hfail (.refl _ _))

end ChangeCapture
