import ChangeCapture.Proofs.Merge.Union
import ChangeCapture.Proofs.Stream.Draining
import ChangeCapture.Proofs.Stream.Reference
import Mathlib.Logic.Function.Basic

/-! # What a stream owes

While a stream is drained, the rows of each window that are still to come stand for the changes of the
window that were not yielded yet. -/

namespace ChangeCapture

open List

/-! ## Lists of lists -/

/-- What one list has more than before comes with all lists together. -/
theorem flatMap_perm_of_ne {α β : Type} {l : List α} {f g : α → List β} {a : α} {bs : List β}
    (hl : l.Nodup) (ha : a ∈ l) (hself : f a = bs ++ g a) (hne : ∀ b, b ≠ a → f b = g b) :
    l.flatMap f ~ bs ++ l.flatMap g := by
  induction l with
  | nil => cases ha
  | cons head l ih =>
      obtain ⟨hhead, hl⟩ := nodup_cons.mp hl
      rw [flatMap_cons, flatMap_cons]
      rcases mem_cons.mp ha with rfl | ha
      · have hrest : l.flatMap f = l.flatMap g :=
          flatMap_congr fun b hb => hne b fun heq => hhead (heq ▸ hb)
        rw [hself, hrest, append_assoc]
      · have hhead : head ≠ a := fun heq => hhead (heq ▸ ha)
        rw [hne head hhead]
        exact ((ih hl ha).append_left _).trans (perm_append_comm_assoc _ _ _)

theorem flatMap_range {α β : Type} {l : List α} {f : Nat → List β} {g : α → List β}
    (h : ∀ i a, l[i]? = some a → f i = g a) : (range l.length).flatMap f = l.flatMap g := by
  rw [flatMap_def, flatMap_def]
  congr 1
  apply ext_getElem (by simp)
  intro i hi _
  rw [length_map, length_range] at hi
  simpa using h i l[i] (getElem?_eq_getElem hi)

/-! ## Rows and changes -/

namespace ChangeStream

open Merge (ofInput Gives)
open RowAssembly (Assembled assemble_eq_ok reference_iff)

variable {stream : ChangeStream} {states : List WindowState} {given : List (Nat × ChangeRow)}
  {references : Nat → List (ChangeRecord .sqlserver)}
  {merge last : Merge ChangeRow} {i : Nat} {row : ChangeRow} {state state' : WindowState}

theorem drain_of_assembled {made : Option (ChangeRecord .sqlserver)}
    (h : stream.merge.next = (.ok (some (i, row)), merge)) (hget : stream.states[i]? = some state)
    (howns : state.window.owns row.startLsn) (hassembled : Assembled state row made state') :
    stream.drain =
      (made.toList ++ (drain { stream with merge, states := stream.states.set i state' }).1,
        (drain { stream with merge, states := stream.states.set i state' }).2) := by
  have ha : RowAssembly.assemble state (merge.label i) row = (.ok made, state') :=
    assemble_eq_ok.mpr hassembled
  cases made with
  | none => exact drain_of_assemble_none h hget howns ha
  | some record => exact drain_of_assemble_some h hget howns ha

/-! ## What is still to come -/

/-- The rows of a window that still have to be taken as changes. -/
def ahead (state : WindowState) (rows : List ChangeRow) : List ChangeRow :=
  state.before.toList ++ state.toPlanned.owned rows

theorem ahead_of_owns (howns : state.window.owns row.startLsn) (rows : List ChangeRow) :
    ahead state (row :: rows) = state.before.toList ++ row :: state.toPlanned.owned rows := by
  simp [ahead, PlannedWindow.owned, WindowState.toPlanned, howns]

theorem ahead_of_not_owns (howns : ¬ state.window.owns row.startLsn) (rows : List ChangeRow) :
    ahead state (row :: rows) = ahead state rows := by
  simp [ahead, PlannedWindow.owned, WindowState.toPlanned, howns]

/-- The rows of each window that are still to come stand for some changes. -/
def Owes (states : List WindowState) (given : List (Nat × ChangeRow))
    (references : Nat → List (ChangeRecord .sqlserver)) : Prop :=
  ∀ i state, states[i]? = some state →
    Reference state.toPlanned (ahead state (ofInput i given)) (references i)

theorem owes_iff (hget : states[i]? = some state) :
    Owes states given references ↔
      Reference state.toPlanned (ahead state (ofInput i given)) (references i) ∧
        ∀ j ≠ i, ∀ s, states[j]? = some s →
          Reference s.toPlanned (ahead s (ofInput j given)) (references j) := by
  constructor
  · exact fun h => ⟨h i state hget, fun j _ => h j⟩
  · rintro ⟨hself, hothers⟩ j s hs
    by_cases hne : j = i
    · subst hne
      cases hget.symm.trans hs
      exact hself
    · exact hothers j hne s hs

theorem owes_cons_of_not_owns (hget : states[i]? = some state)
    (howns : ¬ state.window.owns row.startLsn) :
    Owes states ((i, row) :: given) references ↔ Owes states given references := by
  rw [owes_iff hget, owes_iff hget, Merge.ofInput_cons_self, ahead_of_not_owns howns]
  simp +contextual only [ne_eq, Merge.ofInput_cons_of_ne, not_false_eq_true]

/-- What a row of its window leads to comes first. -/
theorem owes_cons_of_owns (hget : states[i]? = some state) (hsound : state.Sound)
    (howns : state.window.owns row.startLsn) :
    Owes states ((i, row) :: given) references ↔
      ∃ made state' records, Assembled state row made state' ∧
        references i = made.toList ++ records ∧
        Owes (states.set i state') given (Function.update references i records) := by
  have hi : i < states.length := (List.getElem?_eq_some_iff.mp hget).1
  rw [owes_iff hget, Merge.ofInput_cons_self, ahead_of_owns howns, reference_iff hsound]
  constructor
  · rintro ⟨⟨made, state', records, hassembled, hrecords, hreference⟩, hothers⟩
    refine ⟨made, state', records, hassembled, hrecords,
      (owes_iff (getElem?_set_self hi)).mpr ⟨?_, fun j hne s hs => ?_⟩⟩
    · rw [Function.update_self, ahead, hassembled.toPlanned_eq]
      exact hreference
    · rw [getElem?_set_ne hne.symm] at hs
      rw [Function.update_of_ne hne, ← Merge.ofInput_cons_of_ne hne row]
      exact hothers j hne s hs
  · rintro ⟨made, state', records, hassembled, hrecords, howes⟩
    obtain ⟨hreference, hothers⟩ := (owes_iff (getElem?_set_self hi)).mp howes
    rw [Function.update_self, ahead, hassembled.toPlanned_eq] at hreference
    refine ⟨⟨made, state', records, hassembled, hrecords, hreference⟩, fun j hne s hs => ?_⟩
    have hother := hothers j hne s (by rwa [getElem?_set_ne hne.symm])
    rwa [Function.update_of_ne hne, ← Merge.ofInput_cons_of_ne hne row] at hother

/-- At the end a row that waits would stand for no change. -/
theorem Owes.eq_nil (h : Owes states [] references) (hsound : ∀ state ∈ states, state.Sound)
    (hget : states[i]? = some state) : state.before = none ∧ references i = [] := by
  have hreference : Reference state.toPlanned (state.before.toList ++ []) (references i) :=
    h i state hget
  cases hbefore : state.before with
  | none =>
      rw [hbefore] at hreference
      generalize references i = records at hreference
      cases hreference
      exact ⟨rfl, rfl⟩
  | some before =>
      have hwaits : before.operation = 3 := (hsound _ (mem_of_getElem? hget)).before before hbefore
      rw [hbefore] at hreference
      generalize references i = records at hreference
      cases hreference with
      | delete hop | insert hop | unpaired hop => simp [hwaits] at hop

/-! ## Rows that are dropped -/

/-- The rows that newer instances own. -/
def dropped (windows : List SourceWindow) (given : List (Nat × ChangeRow)) : List ChangeRow :=
  (range windows.length).flatMap fun i => windows[i]?.toList.flatMap fun window =>
    (ofInput i given).filter fun row => !window.owns row.startLsn

theorem length_dropped_cons {windows : List SourceWindow} {window : SourceWindow}
    (hget : windows[i]? = some window) :
    (dropped windows ((i, row) :: given)).length =
      (dropped windows given).length + if window.owns row.startLsn then 0 else 1 := by
  obtain ⟨hi, _⟩ := List.getElem?_eq_some_iff.mp hget
  have hperm : dropped windows ((i, row) :: given) ~
      [row].filter (fun row => !window.owns row.startLsn) ++ dropped windows given := by
    refine flatMap_perm_of_ne nodup_range (mem_range.mpr hi) ?_ fun j hne => ?_
    · rw [Merge.ofInput_cons_self, hget]
      simp only [Option.toList_some, flatMap_singleton]
      rw [← filter_append]
      rfl
    · rw [Merge.ofInput_cons_of_ne hne]
  rw [hperm.length_eq]
  cases howns : window.owns row.startLsn <;> simp [howns, Nat.add_comm]

/-! ## Whole streams -/

theorem sound_set (hsound : ∀ state ∈ states, state.Sound) (hstate : state'.Sound) :
    ∀ state ∈ states.set i state', state.Sound := by
  intro s hs
  rcases mem_or_eq_of_mem_set hs with hs | rfl
  · exact hsound s hs
  · exact hstate

theorem waiting?_eq_none {labels : List String} :
    waiting? labels states = none ↔ ∀ state ∈ states, state.before = none := by
  induction states generalizing labels with
  | nil => simp [waiting?]
  | cons state states ih =>
      cases hbefore : state.before with
      | none => simp [waiting?, hbefore, ih]
      | some before => simp [waiting?, hbefore]

/-- If the rows of all windows stand for changes, the stream yields these and drops the others. -/
theorem drain_of_owes (h : Gives merge given last) (hlast : last.next = (.ok none, last))
    (hmerge : stream.merge = merge) (hinputs : ∀ x ∈ given, x.1 < stream.states.length)
    (hsound : ∀ state ∈ stream.states, state.Sound) (howes : Owes stream.states given references) :
    stream.drain.2.1 = none ∧
      stream.drain.1 ~ (range stream.states.length).flatMap references ∧
      stream.drain.2.2.superseded =
        stream.superseded + (dropped (stream.states.map WindowState.window) given).length := by
  induction h generalizing stream references with
  | nil =>
      have hend (i : Nat) (hi : i < stream.states.length) :=
        howes.eq_nil hsound (getElem?_eq_getElem hi)
      have hnone : (range stream.states.length).flatMap references = [] :=
        flatMap_eq_nil_iff.mpr fun i hi => (hend i (mem_range.mp hi)).2
      rw [drain_of_merge_none (hmerge ▸ hlast), hnone]
      refine ⟨waiting?_eq_none.mpr fun state hstate => ?_, .nil, by simp [dropped, ofInput]⟩
      obtain ⟨i, hi, rfl⟩ := mem_iff_getElem.mp hstate
      exact (hend i hi).1
  | @cons merge x rest given last hn _ ih =>
      obtain ⟨i, row⟩ := x
      obtain ⟨hi, hinputs⟩ := forall_mem_cons.mp hinputs
      have hget : stream.states[i]? = some stream.states[i] := getElem?_eq_getElem hi
      have hstate : stream.states[i].Sound := hsound _ (getElem_mem hi)
      rw [length_dropped_cons (getElem?_window hget)]
      by_cases howns : stream.states[i].window.owns row.startLsn
      · obtain ⟨made, state', records, hassembled, hrecords, howes⟩ :=
          (owes_cons_of_owns hget hstate howns).mp howes
        obtain ⟨hend, hperm, hcount⟩ := @ih { stream with
          merge := rest, states := stream.states.set i state' } _ hlast rfl (by simpa using hinputs)
            (sound_set hsound (hassembled.sound hstate)) howes
        rw [drain_of_assembled (hmerge ▸ hn) hget howns hassembled]
        refine ⟨hend, (hperm.append_left _).trans ?_, ?_⟩
        · rw [length_set]
          exact (flatMap_perm_of_ne nodup_range (mem_range.mpr hi)
            (by rw [hrecords, Function.update_self])
            fun j hne => (Function.update_of_ne hne _ _).symm).symm
        · have ha : RowAssembly.assemble stream.states[i] "" row = (.ok made, state') :=
            assemble_eq_ok.mpr hassembled
          rw [hcount, map_window_set hget ha, if_pos howns]
          rfl
      · rw [drain_of_superseded (hmerge ▸ hn) hget howns]
        obtain ⟨hend, hperm, hcount⟩ := @ih { stream with
          merge := rest, superseded := stream.superseded + 1 } _ hlast rfl hinputs hsound
            ((owes_cons_of_not_owns hget howns).mp howes)
        refine ⟨hend, hperm, ?_⟩
        rw [hcount, if_neg howns]
        dsimp only
        omega

/-- A stream that does not fail has found changes for the rows of all windows. -/
theorem exists_owes_of_drain (h : Gives merge given last) (hlast : last.next = (.ok none, last))
    (hmerge : stream.merge = merge) (hinputs : ∀ x ∈ given, x.1 < stream.states.length)
    (hsound : ∀ state ∈ stream.states, state.Sound) (hend : stream.drain.2.1 = none) :
    ∃ references, Owes stream.states given references := by
  induction h generalizing stream with
  | nil =>
      rw [drain_of_merge_none (hmerge ▸ hlast)] at hend
      refine ⟨fun _ => [], fun i state hget => ?_⟩
      have hbefore : state.before = none := waiting?_eq_none.mp hend state (mem_of_getElem? hget)
      rw [ahead, hbefore]
      exact .nil
  | @cons merge x rest given last hn _ ih =>
      obtain ⟨i, row⟩ := x
      obtain ⟨hi, hinputs⟩ := forall_mem_cons.mp hinputs
      have hget : stream.states[i]? = some stream.states[i] := getElem?_eq_getElem hi
      have hstate : stream.states[i].Sound := hsound _ (getElem_mem hi)
      by_cases howns : stream.states[i].window.owns row.startLsn
      · rcases ha : RowAssembly.assemble stream.states[i] (rest.label i) row with ⟨e | made, state'⟩
        · rw [drain_of_assemble_error (hmerge ▸ hn) hget howns ha] at hend
          cases hend
        · have hassembled := assemble_eq_ok.mp ha
          rw [drain_of_assembled (hmerge ▸ hn) hget howns hassembled] at hend
          obtain ⟨references, howes⟩ := @ih { stream with
            merge := rest, states := stream.states.set i state' } hlast rfl (by simpa using hinputs)
              (sound_set hsound (hassembled.sound hstate)) hend
          refine ⟨Function.update references i (made.toList ++ references i),
            (owes_cons_of_owns hget hstate howns).mpr
              ⟨made, state', references i, hassembled, Function.update_self .., ?_⟩⟩
          simpa using howes
      · rw [drain_of_superseded (hmerge ▸ hn) hget howns] at hend
        obtain ⟨references, howes⟩ := @ih { stream with
          merge := rest, superseded := stream.superseded + 1 } hlast rfl hinputs hsound hend
        exact ⟨references, (owes_cons_of_not_owns hget howns).mpr howes⟩

end ChangeStream

end ChangeCapture
