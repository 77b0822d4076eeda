import ChangeCapture.Proofs.Interval
import ChangeCapture.Proofs.Merge.Failing
import ChangeCapture.Proofs.Stream.Reference

/-! # What a change tells of the rows of its instance

A change that a stream yields is told from the row that completes it and from the rows of its capture
instance, wherever the window of the instance begins and ends, and whatever fails behind it. -/

namespace ChangeCapture

open List
open Program (Ends)

/-! ## Rows and their changes -/

/-- The row shows what a row was before the change that another one completes. -/
structure ChangeRow.IsBefore (before row : ChangeRow) : Prop where
  operation : before.operation = 3
  startLsn : before.startLsn = row.startLsn
  seqval : before.seqval = row.seqval

/-- The change that a row completes among the rows of its instance. -/
inductive Stands (planned : PlannedWindow) (rows : List ChangeRow) (row : ChangeRow) :
    ChangeRecord .sqlserver → Prop where
  | delete {old} (hop : row.operation = 1) (hold : planned.image? row = some old) :
      Stands planned rows row (planned.change .delete row old [])
  | insert {new} (hop : row.operation = 2) (hnew : planned.image? row = some new) :
      Stands planned rows row (planned.change .insert row [] new)
  | update {before old new} (hop : row.operation = 4) (hmem : before ∈ rows)
      (hbefore : before.IsBefore row) (hold : planned.image? before = some old)
      (hnew : planned.image? row = some new) :
      Stands planned rows row (planned.change .update row old new)
  | unpaired {new} (hop : row.operation = 4) (hnone : ∀ before ∈ rows, ¬ before.IsBefore row)
      (hnew : planned.image? row = some new) :
      Stands planned rows row
        (planned.change .update row (replicate planned.schema.width none) new)

namespace ChangeRow.IsBefore

variable {before row : ChangeRow}

theorem compareKeys_eq (h : before.IsBefore row) (hop : row.operation = 4) :
    before.compareKeys row = .lt := by
  rw [ChangeRow.compareKeys_eq_lt, h.startLsn, h.seqval, h.operation, hop]
  exact .inr ⟨rfl, .inr ⟨rfl, by decide⟩⟩

/-- Among rows in order there is one at most. -/
theorem unique {other : ChangeRow} {rows : List ChangeRow}
    (hsorted : rows.Pairwise fun r s => r.compareKeys s = .lt) (hmem : before ∈ rows)
    (hother : other ∈ rows) (h : before.IsBefore row) (h' : other.IsBefore row) : before = other := by
  apply eq_of_compare_eq hsorted hmem hother
  simp [ChangeRow.compareKeys, h.startLsn, h.seqval, h.operation, h'.startLsn, h'.seqval, h'.operation]

end ChangeRow.IsBefore

namespace Stands

variable {planned planned' : PlannedWindow} {rows rows' : List ChangeRow} {row : ChangeRow}
  {record record' : ChangeRecord .sqlserver}

theorem exists_change (h : Stands planned rows row record) :
    row.Completes ∧ ∃ kind old new, record = planned.change kind row old new := by
  cases h with
  | delete hop => exact ⟨⟨.delete, by rw [hop]; rfl, by decide⟩, _, _, _, rfl⟩
  | insert hop => exact ⟨⟨.insert, by rw [hop]; rfl, by decide⟩, _, _, _, rfl⟩
  | update hop | unpaired hop => exact ⟨⟨.updateAfter, by rw [hop]; rfl, by decide⟩, _, _, _, rfl⟩

theorem completes (h : Stands planned rows row record) : row.Completes := h.exists_change.1

theorem offset_eq (h : Stands planned rows row record) :
    record.offset = row.offset planned.window.label := by
  obtain ⟨_, kind, old, new, rfl⟩ := h.exists_change
  rfl

theorem table_eq (h : Stands planned rows row record) : record.table = planned.window.source.table := by
  obtain ⟨_, kind, old, new, rfl⟩ := h.exists_change
  rfl

/-- Only a row before the change matters besides the one that completes it. -/
theorem congr (h : Stands planned rows row record) (hsame : ∀ before, row.operation = 4 →
    before.IsBefore row → (before ∈ rows ↔ before ∈ rows')) : Stands planned rows' row record := by
  cases h with
  | delete hop hold => exact .delete hop hold
  | insert hop hnew => exact .insert hop hnew
  | update hop hmem hbefore hold hnew =>
      exact .update hop ((hsame _ hop hbefore).mp hmem) hbefore hold hnew
  | unpaired hop hnone hnew =>
      refine .unpaired hop (fun before hmem hbefore => ?_) hnew
      exact hnone before ((hsame before hop hbefore).mpr hmem) hbefore

theorem image?_congr (hsource : planned.window.source = planned'.window.source)
    (hcolumns : planned.schema.columns = planned'.schema.columns) (row : ChangeRow) :
    planned.image? row = planned'.image? row := by
  rw [PlannedWindow.image?, PlannedWindow.image?, hsource, hcolumns]

/-- A row completes one change only. The bounds of the window do not matter. -/
theorem unique (hsorted : rows.Pairwise fun r s => r.compareKeys s = .lt)
    (hsource : planned.window.source = planned'.window.source)
    (hcolumns : planned.schema.columns = planned'.schema.columns)
    (h : Stands planned rows row record) (h' : Stands planned' rows row record') :
    record = record' := by
  have himage := image?_congr hsource hcolumns
  have hchange (kind : ChangeKind) (old new : Row) :
      planned.change kind row old new = planned'.change kind row old new := by
    rw [PlannedWindow.change, PlannedWindow.change, hsource]
  cases h with
  | delete hop hold =>
      cases h' with
      | delete _ hold' =>
          rw [himage, hold'] at hold
          cases hold
          exact hchange _ _ _
      | insert hop' | update hop' | unpaired hop' => simp [hop] at hop'
  | insert hop hnew =>
      cases h' with
      | insert _ hnew' =>
          rw [himage, hnew'] at hnew
          cases hnew
          exact hchange _ _ _
      | delete hop' | update hop' | unpaired hop' => simp [hop] at hop'
  | update hop hmem hbefore hold hnew =>
      cases h' with
      | update _ hmem' hbefore' hold' hnew' =>
          cases hbefore.unique hsorted hmem hmem' hbefore'
          rw [himage, hold'] at hold
          rw [himage, hnew'] at hnew
          cases hold
          cases hnew
          exact hchange _ _ _
      | unpaired _ hnone => exact absurd hbefore (hnone _ hmem)
      | delete hop' | insert hop' => simp [hop] at hop'
  | unpaired hop hnone hnew =>
      cases h' with
      | unpaired _ _ hnew' =>
          rw [himage, hnew'] at hnew
          cases hnew
          rw [hchange, TableSchema.width, TableSchema.width, hcolumns]
      | update _ hmem hbefore => exact absurd hbefore (hnone _ hmem)
      | delete hop' | insert hop' => simp [hop] at hop'

end Stands

/-- What comes before a row of the first ones is among them too. -/
theorem mem_of_prefix_of_lt {taken rows : List ChangeRow} {row before : ChangeRow}
    (hsorted : rows.Pairwise fun r s => r.compareKeys s = .lt) (htaken : taken <+: rows)
    (hrow : row ∈ taken) (hbefore : before ∈ rows) (hlt : before.compareKeys row = .lt) :
    before ∈ taken := by
  obtain ⟨rest, rfl⟩ := htaken
  apply (mem_append.mp hbefore).resolve_right
  intro hlater
  have hrow := (pairwise_append.mp hsorted).2.2 row hrow before hlater
  cases (Std.OrientedCmp.gt_of_lt hrow).symm.trans hlt

/-! ## Taking rows -/

namespace WindowState

/-- The state remembers the last row that was taken if it is one before a change. -/
structure Remembers (state : WindowState) (taken : List ChangeRow) : Prop where
  mem : ∀ before ∈ state.before, before ∈ taken
  last : ∀ before, taken.getLast? = some before → before.operation = 3 →
    state.window.owns before.startLsn → state.before = some before

variable {state state' : WindowState} {taken rest : List ChangeRow} {row : ChangeRow}
  {made : Option (ChangeRecord .sqlserver)} {record : ChangeRecord .sqlserver}

theorem remembers_of_fresh (h : state.before = none) : state.Remembers [] := ⟨by simp [h], by simp⟩

namespace Remembers

/-- A row that a newer instance owns is passed over. -/
theorem superseded (h : state.Remembers taken) (howns : ¬ state.window.owns row.startLsn) :
    state.Remembers (taken ++ [row]) where
  mem before hbefore := mem_append_left _ (h.mem before hbefore)
  last before hlast hop howned := by
    rw [getLast?_concat] at hlast
    cases hlast
    exact absurd howned howns

theorem assembled (h : state.Remembers taken) (hassembled : RowAssembly.Assembled state row made state') :
    state'.Remembers (taken ++ [row]) := by
  constructor
  · intro before hbefore
    cases hassembled with
    | delete | insert => exact mem_append_left _ (h.mem before hbefore)
    | held =>
        cases hbefore
        exact mem_concat_self
    | unpaired | paired => cases hbefore
  · intro before hlast hop howns
    rw [getLast?_concat] at hlast
    cases hlast
    cases hassembled with
    | held => rfl
    | delete hop' | insert hop' | unpaired hop' | paired hop' => simp [hop'] at hop

/-- A row before a change is the last one that was taken when the change is completed. -/
theorem eq_before (h : state.Remembers taken)
    (hsorted : (taken ++ row :: rest).Pairwise fun r s => r.compareKeys s = .lt)
    (hop : row.operation = 4) (howns : state.window.owns row.startLsn) {before : ChangeRow}
    (hmem : before ∈ taken) (hbefore : before.IsBefore row) : state.before = some before := by
  obtain ⟨earlier, later, rfl⟩ := append_of_mem hmem
  cases later with
  | nil => exact h.last before (by simp) hbefore.operation (hbefore.startLsn ▸ howns)
  | cons between later =>
      have hrows : (before :: between :: later ++ row :: rest).Pairwise
          fun r s => r.compareKeys s = .lt := by
        rw [append_assoc] at hsorted
        exact (pairwise_append.mp hsorted).2.1
      have hlt := (pairwise_cons.mp hrows).1 between (by simp)
      have hlt' := (pairwise_cons.mp (pairwise_cons.mp hrows).2).1 row (by simp)
      exact absurd hlt' (ChangeRow.not_between hbefore.startLsn hbefore.seqval hbefore.operation hop hlt)

/-- What a row completes is told from the rows that were taken before it. -/
theorem stands (h : state.Remembers taken) (hsound : state.Sound)
    (hsorted : (taken ++ row :: rest).Pairwise fun r s => r.compareKeys s = .lt)
    (howns : state.window.owns row.startLsn)
    (hassembled : RowAssembly.Assembled state row (some record) state') :
    Stands state.toPlanned taken row record := by
  cases hassembled with
  | delete hop _ hold =>
      rw [record_eq_change hop]
      exact .delete hop ((hsound.project _ _).mp hold)
  | insert hop _ hnew =>
      rw [record_eq_change hop]
      exact .insert hop ((hsound.project _ _).mp hnew)
  | unpaired hop hnone hnew =>
      rw [record_eq_change hop]
      refine .unpaired hop (fun before hmem hbefore => ?_) ((hsound.project _ _).mp hnew)
      rw [h.eq_before hsorted hop howns hmem hbefore] at hnone
      cases hnone
  | paired hop hbefore hlsn hseqval hold hnew =>
      rw [record_eq_change hop]
      exact .update hop (h.mem _ hbefore) ⟨hsound.before _ hbefore, hlsn, hseqval⟩
        ((hsound.project _ _).mp hold) ((hsound.project _ _).mp hnew)

end Remembers

end WindowState

/-! ## Streams -/

/-- The change is told from the rows of one of some windows. -/
def Tells (planned : List PlannedWindow) (rows : Nat → List ChangeRow)
    (record : ChangeRecord .sqlserver) : Prop :=
  ∃ (i : Nat) (p : PlannedWindow) (row : ChangeRow), planned[i]? = some p ∧ row ∈ rows i ∧
    p.window.owns row.startLsn ∧ Stands p (rows i) row record

/-- Each window has taken some rows and remembers the last of them. -/
structure Takes (states : List WindowState) (taken : Nat → List ChangeRow) : Prop where
  sound : ∀ state ∈ states, state.Sound
  remembers : ∀ (i : Nat) state, states[i]? = some state → state.Remembers (taken i)

section Taking

variable {labels : List String} {states : List WindowState} {state state' : WindowState}
  {taken : Nat → List ChangeRow} {rows : List (Nat × ChangeRow)} {i : Nat} {row : ChangeRow}

theorem takes_of_fresh (h : ∀ state ∈ states, state.Sound ∧ state.before = none) :
    Takes states fun _ => [] :=
  ⟨fun state hstate => (h state hstate).1,
    fun _ state hget => WindowState.remembers_of_fresh (h state (mem_of_getElem? hget)).2⟩

/-- The states are the same but for the one that has taken a row. -/
theorem Takes.set (h : Takes states taken) (hsound : state'.Sound)
    (hremembers : state'.Remembers (taken i ++ [row])) :
    Takes (states.set i state') (Function.update taken i (taken i ++ [row])) := by
  constructor
  · intro s hs
    rcases mem_or_eq_of_mem_set hs with hs | rfl
    · exact h.sound s hs
    · exact hsound
  · intro j s hget
    by_cases hj : j = i
    · subst hj
      rw [Function.update_self]
      obtain ⟨hj, rfl⟩ := List.getElem?_eq_some_iff.mp hget
      rwa [getElem_set_self]
    · rw [getElem?_set_ne (Ne.symm hj)] at hget
      rw [Function.update_of_ne hj]
      exact h.remembers j s hget

theorem Takes.superseded (h : Takes states taken) (hget : states[i]? = some state)
    (howns : ¬ state.window.owns row.startLsn) :
    Takes states (Function.update taken i (taken i ++ [row])) := by
  have hset : states.set i state = states := by
    obtain ⟨hi, rfl⟩ := List.getElem?_eq_some_iff.mp hget
    exact set_getElem_self hi
  rw [← hset]
  exact h.set (h.sound state (mem_of_getElem? hget)) ((h.remembers i state hget).superseded howns)

theorem Takes.assembled (h : Takes states taken) (hget : states[i]? = some state)
    {made : Option (ChangeRecord .sqlserver)} (hassembled : RowAssembly.Assembled state row made state') :
    Takes (states.set i state') (Function.update taken i (taken i ++ [row])) :=
  h.set (hassembled.sound (h.sound state (mem_of_getElem? hget)))
    ((h.remembers i state hget).assembled hassembled)

theorem map_toPlanned_set (hget : states[i]? = some state)
    (h : state'.toPlanned = state.toPlanned) :
    (states.set i state').map WindowState.toPlanned = states.map WindowState.toPlanned := by
  obtain ⟨hi, rfl⟩ := List.getElem?_eq_some_iff.mp hget
  rw [map_set, h, ← getElem_map WindowState.toPlanned (h := by simpa using hi), set_getElem_self]

/-- A row that is taken next is one that was still to come. -/
theorem update_append_ofInput (taken : Nat → List ChangeRow) (i : Nat) (row : ChangeRow)
    (rows : List (Nat × ChangeRow)) :
    (fun j => Function.update taken i (taken i ++ [row]) j ++ Merge.ofInput j rows) =
      fun j => taken j ++ Merge.ofInput j ((i, row) :: rows) := by
  funext j
  by_cases hj : j = i
  · subst hj
    rw [Function.update_self, Merge.ofInput_cons_self, append_assoc, singleton_append]
  · rw [Function.update_of_ne hj, Merge.ofInput_cons_of_ne hj]

/-- The change that a row completes is told from all rows of its window. -/
theorem Takes.tells (h : Takes states taken) (hget : states[i]? = some state)
    (howns : state.window.owns row.startLsn) {record : ChangeRecord .sqlserver}
    (hassembled : RowAssembly.Assembled state row (some record) state')
    (hsorted : (taken i ++ Merge.ofInput i ((i, row) :: rows)).Pairwise
      fun r s => r.compareKeys s = .lt) :
    Tells (states.map WindowState.toPlanned) (fun j => taken j ++ Merge.ofInput j ((i, row) :: rows))
      record := by
  have hstate := h.sound state (mem_of_getElem? hget)
  rw [Merge.ofInput_cons_self] at hsorted
  have hstands := (h.remembers i state hget).stands hstate hsorted howns hassembled
  refine ⟨i, state.toPlanned, row, by rw [getElem?_map, hget, Option.map_some], ?_, howns, ?_⟩
  · simp [Merge.ofInput_cons_self]
  · dsimp only
    rw [Merge.ofInput_cons_self]
    apply hstands.congr
    intro before hop hbefore
    have hlt := hbefore.compareKeys_eq hop
    refine ⟨mem_append_left _, fun hmem => (mem_append.mp hmem).resolve_right fun hlater => ?_⟩
    rcases mem_cons.mp hlater with rfl | hlater
    · cases hlt.symm.trans Std.ReflCmp.compare_self
    · have hrow := (pairwise_cons.mp (pairwise_append.mp hsorted).2.1).1 before hlater
      cases (Std.OrientedCmp.gt_of_lt hrow).symm.trans hlt

/-- Rows of windows are taken one by one, each behind those of its window that were taken before. -/
theorem Assembles.tells {records : List (ChangeRecord .sqlserver)} {failure : Option CaptureError}
    (h : Assembles labels states rows records failure) (htakes : Takes states taken)
    (hsorted : ∀ i, (taken i ++ Merge.ofInput i rows).Pairwise fun r s => r.compareKeys s = .lt) :
    ∀ record ∈ records,
      Tells (states.map WindowState.toPlanned) (fun i => taken i ++ Merge.ofInput i rows) record := by
  induction h generalizing taken with
  | nil | failed => simp
  | @superseded states i row rows state records failure hget howns _ ih =>
      have hnext := update_append_ofInput taken i row rows
      rw [← hnext]
      exact ih (htakes.superseded hget howns) fun j => congrFun hnext j ▸ hsorted j
  | @held states i row rows state state' records failure hget howns h _ ih =>
      have hassembled := RowAssembly.assemble_eq_ok.mp h
      have hnext := update_append_ofInput taken i row rows
      rw [← hnext, ← map_toPlanned_set hget hassembled.toPlanned_eq]
      exact ih (htakes.assembled hget hassembled) fun j => congrFun hnext j ▸ hsorted j
  | @completed states i row rows state state' record records failure hget howns h _ ih =>
      have hassembled := RowAssembly.assemble_eq_ok.mp h
      have hnext := update_append_ofInput taken i row rows
      rw [forall_mem_cons]
      constructor
      · exact htakes.tells hget howns hassembled (hsorted i)
      · rw [← hnext, ← map_toPlanned_set hget hassembled.toPlanned_eq]
        exact ih (htakes.assembled hget hassembled) fun j => congrFun hnext j ▸ hsorted j

end Taking

/-! ## Opening -/

theorem exists_of_mem_left {α β : Type} {R : α → β → Prop} {l : List α} {bs : List β} {a : α}
    (h : Forall₂ R l bs) (ha : a ∈ l) : ∃ b ∈ bs, R a b := by
  induction h with
  | nil => cases ha
  | cons hab _ ih =>
      rcases mem_cons.mp ha with rfl | ha
      · exact ⟨_, mem_cons_self, hab⟩
      · obtain ⟨b, hb, hab⟩ := ih ha
        exact ⟨b, mem_cons_of_mem _ hb, hab⟩

theorem forall₂_of_mapM {α β : Type} {f : α → Except CaptureError β} {l : List α} {bs : List β}
    (h : l.mapM f = .ok bs) : Forall₂ (fun a b => f a = .ok b) l bs := by
  induction l generalizing bs with
  | nil =>
      cases h
      exact .nil
  | cons a l ih =>
      rw [mapM_cons] at h
      cases ha : f a with
      | error e =>
          rw [ha] at h
          cases h
      | ok b =>
          cases hl : l.mapM f with
          | error e =>
              rw [ha, hl] at h
              cases h
          | ok rest =>
              rw [ha, hl] at h
              cases h
              exact .cons ha (ih hl)

theorem CaptureStep.forall₂_of_ends_mapM {rules : Rules} {α β : Type} {f : α → CaptureStep β}
    {l : List α} {bs : List β} {w w' : World}
    (h : Ends rules.answers (l.mapM f).run w (.ok bs) w') :
    Forall₂ (fun a b => ∃ v v', Ends rules.answers (f a).run v (.ok b) v') l bs := by
  induction l generalizing bs w with
  | nil =>
      rw [mapM_nil] at h
      cases Except.ok.inj (CaptureStep.ends_pure.mp h).1
      exact .nil
  | cons a l ih =>
      rw [mapM_cons] at h
      obtain ⟨b, v, hb, h⟩ := CaptureStep.ends_bind_ok.mp h
      obtain ⟨rest, v', hrest, h⟩ := CaptureStep.ends_bind_ok.mp h
      obtain ⟨hbs, rfl⟩ := CaptureStep.ends_pure.mp h
      cases hbs
      exact .cons ⟨w, v, hb⟩ (ih hrest)

namespace WindowState

variable {planned : PlannedWindow} {state : WindowState}

/-- Only windows whose schemas name captured columns are read. -/
theorem isCaptured_of_ofPlanned (h : ofPlanned planned = .ok state) : planned.IsCaptured := by
  unfold ofPlanned at h
  cases hindices : planned.schema.columns.mapM (capturedIndex planned) with
  | error e =>
      rw [hindices] at h
      cases h
  | ok indices =>
      intro column hcolumn
      obtain ⟨index, _, hindex⟩ := exists_of_mem_left (forall₂_of_mapM hindices) hcolumn
      unfold capturedIndex at hindex
      split at hindex
      · rename_i hfind
        obtain ⟨hindex, hname, _⟩ := findIdx?_eq_some_iff_getElem.mp hfind
        exact beq_iff_eq.mp hname ▸ getElem_mem hindex
      · cases hindex

theorem fresh_of_ofPlanned (h : ofPlanned planned = .ok state) :
    state.toPlanned = planned ∧ state.Sound ∧ state.before = none := by
  obtain ⟨state', hstate, hplanned, hbefore, hsound⟩ :=
    exists_ofPlanned (isCaptured_of_ofPlanned h)
  rw [h] at hstate
  cases hstate
  exact ⟨hplanned, hsound, hbefore⟩

end WindowState

namespace ChangeStream

/-- The states of a stream are those of its windows, and no row waits in them. -/
theorem states_of_ends_start {rules : Rules} {w w' : World} {planned : List PlannedWindow}
    {stream : ChangeStream} (h : Ends rules.answers (start planned).run w (.ok stream) w') :
    stream.states.map WindowState.toPlanned = planned ∧
      ∀ state ∈ stream.states, state.Sound ∧ state.before = none := by
  unfold start at h
  obtain ⟨states, v, hstates, h⟩ := CaptureStep.ends_bind_ok.mp h
  obtain ⟨inputs, v', _, h⟩ := CaptureStep.ends_bind_ok.mp h
  obtain ⟨merge, v'', _, h⟩ := CaptureStep.ends_bind_ok.mp h
  cases Except.ok.inj (CaptureStep.ends_pure.mp h).1
  have hfresh := (forall₂_of_mapM (CaptureStep.ends_ofExcept.mp hstates).1.symm).imp
    fun _ _ hstate => WindowState.fresh_of_ofPlanned hstate
  constructor
  · rw [← forall₂_eq_eq_eq, forall₂_map_left_iff]
    exact hfresh.flip.imp fun _ _ hstate => hstate.1
  · intro state hstate
    obtain ⟨_, _, hsound⟩ := exists_of_mem_left hfresh.flip hstate
    exact hsound.2

end ChangeStream

/-- The changes of a stream are told from the rows of its windows, of which the cursors read the first. -/
theorem Opened.tells {windows : List SourceWindow} {inputs : List (MergeInput ChangeRow)}
    {stream : ChangeStream} (h : Opened windows inputs stream)
    (hfresh : ∀ state ∈ stream.states, state.Sound ∧ state.before = none)
    {rows : SourceWindow → List ChangeRow}
    (hsorted : ∀ window, (rows window).Pairwise fun r s => r.compareKeys s = .lt)
    (hreads : ∀ (i : Nat) window (input : MergeInput ChangeRow), windows[i]? = some window →
      inputs[i]? = some input → input.cursor.rows <+: rows window) {record : ChangeRecord .sqlserver}
    (hrecord : record ∈ stream.drain.1) :
    ∃ planned ∈ stream.states.map WindowState.toPlanned, ∃ row ∈ rows planned.window,
      planned.window.owns row.startLsn ∧ Stands planned (rows planned.window) row record := by
  obtain ⟨failure, hassembles, _⟩ := h.assembles
  obtain ⟨last, hgives, _⟩ := Merge.exists_gives_drain stream.merge
  have hreached : Merge.Reached inputs ([] ++ stream.merge.drain.1) last :=
    (Merge.reached_start h.start_eq).gives hgives
  rw [nil_append] at hreached
  have hdrawn {i : Nat} {window : SourceWindow} (hwindow : windows[i]? = some window) :
      Merge.ofInput i stream.merge.drain.1 <+: rows window := by
    have hi : i < inputs.length := h.length_inputs ▸ (List.getElem?_eq_some_iff.mp hwindow).1
    exact (hreached.ofInput_prefix (getElem?_eq_getElem hi)).trans
      (hreads i window _ hwindow (getElem?_eq_getElem hi))
  have hgiven (i : Nat) : (([] : List ChangeRow) ++ Merge.ofInput i stream.merge.drain.1).Pairwise
      fun r s => r.compareKeys s = .lt := by
    rw [nil_append]
    cases hwindow : windows[i]? with
    | some window => exact (hsorted window).sublist (hdrawn hwindow).sublist
    | none =>
        have hnone : Merge.ofInput i stream.merge.drain.1 = [] := by
          rw [eq_nil_iff_forall_not_mem]
          intro row hrow
          have hlt := hreached.input_lt _ (Merge.mem_ofInput.mp hrow)
          rw [h.length_inputs] at hlt
          exact absurd (getElem?_eq_none_iff.mp hwindow) (not_le.mpr hlt)
        rw [hnone]
        exact .nil
  obtain ⟨i, p, row, hp, hrow, howns, hstands⟩ :=
    hassembles.tells (takes_of_fresh hfresh) hgiven record hrecord
  simp only [nil_append] at hrow hstands
  have hwindow : windows[i]? = some p.window := by
    rw [← h.windows_eq, show stream.states.map WindowState.window =
      (stream.states.map WindowState.toPlanned).map PlannedWindow.window by rw [map_map]; rfl,
      getElem?_map, hp, Option.map_some]
  refine ⟨p, mem_of_getElem? hp, row, (hdrawn hwindow).subset hrow, howns, ?_⟩
  apply hstands.congr
  intro before hop hbefore
  refine ⟨fun hmem => (hdrawn hwindow).subset hmem, fun hmem => ?_⟩
  exact mem_of_prefix_of_lt (hsorted _) (hdrawn hwindow) hrow hmem (hbefore.compareKeys_eq hop)

namespace OpensInterval

variable {rules : Rules} {sources : List CaptureInstance} {first last : Lsn} {w w' : World}
  {stream : ChangeStream}

/-- Every change of an interval is told from all rows of an instance that a window was planned for. -/
theorem stands (hrules : rules.Lawful) (h : OpensInterval rules sources first last w stream w')
    (hlast : last ≤ w.server.reported) {record : ChangeRecord .sqlserver}
    (hrecord : record ∈ stream.drain.1) :
    ∃ (planned : PlannedWindow) (row : ChangeRow),
      Planner.IsWindow sources first last planned.window ∧
      (∃ v v', Ends rules.answers (Registry.resolveSchema planned.window.source).run v
        (.ok planned.schema) v') ∧
      row ∈ w.server.windowRows planned.window ∧ planned.window.owns row.startLsn ∧
      Stands planned (w.server.changes planned.window.source.name) row record := by
  obtain ⟨windows, inputs, hopened, _, hreads⟩ := h.reads hrules hlast
  obtain ⟨hplan, hresolve, hstart⟩ := h
  obtain ⟨hplanned, hfresh⟩ := ChangeStream.states_of_ends_start hstart
  obtain ⟨p, hp, row, hrow, howns, hstands⟩ := hopened.tells hfresh w.server.ascending_windowRows
    (fun i window input hwindow hinput => (hreads i window input hwindow hinput).isPrefix) hrecord
  rw [hplanned] at hp
  have hwindow := mem_map_of_mem (f := PlannedWindow.window) hp
  rw [Streamer.ends_resolveWindows hresolve] at hwindow
  refine ⟨p, row, Planner.isWindow_of_ends_plan hplan _ hwindow, ?_, hrow, howns, ?_⟩
  · obtain ⟨window, _, v, v', hschema⟩ :=
      exists_of_mem_left (CaptureStep.forall₂_of_ends_mapM hresolve).flip hp
    obtain ⟨schema, u, hresolved, hdone⟩ := CaptureStep.ends_bind_ok.mp hschema
    cases Except.ok.inj (CaptureStep.ends_pure.mp hdone).1
    exact ⟨v, u, hresolved⟩
  · -- the row before a change lies at its position, and so in the same window
    apply hstands.congr
    intro before _ hbefore
    have hrange := CapturedServer.mem_windowRows.mp hrow
    rw [CapturedServer.mem_windowRows, hbefore.startLsn]
    exact ⟨And.left, fun hmem => ⟨hmem, hrange.2⟩⟩

end OpensInterval

end ChangeCapture
