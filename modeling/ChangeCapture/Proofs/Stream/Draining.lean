import ChangeCapture.Proofs.Stream.Assembly

/-! # Draining a stream -/

namespace ChangeCapture

open List

namespace ChangeStream

/-! ## Single steps -/

theorem drain_of_next_error {stream rest : ChangeStream} {e : CaptureError}
    (h : stream.next = (.error e, rest)) : stream.drain = ([], some e, rest) := by
  rw [drain]
  split <;> simp_all

theorem drain_of_next_none {stream rest : ChangeStream} (h : stream.next = (.ok none, rest)) :
    stream.drain = ([], none, rest) := by
  rw [drain]
  split <;> simp_all

theorem drain_of_next_some {stream rest : ChangeStream} {record : ChangeRecord .sqlserver}
    (h : stream.next = (.ok (some record), rest)) :
    stream.drain = (record :: rest.drain.1, rest.drain.2) := by
  rw [drain]
  split <;> simp_all

/-- A row that completes no change leaves the rest of the stream. -/
theorem drain_of_next_eq {stream rest : ChangeStream} (h : stream.next = rest.next) :
    stream.drain = rest.drain := by
  rcases hn : rest.next with ⟨result, final⟩
  rw [hn] at h
  rcases result with e | _ | record
  · rw [drain_of_next_error h, drain_of_next_error hn]
  · rw [drain_of_next_none h, drain_of_next_none hn]
  · rw [drain_of_next_some h, drain_of_next_some hn]

section Next

variable {stream : ChangeStream} {merge : Merge ChangeRow} {i : Nat} {row : ChangeRow}
  {state state' : WindowState}

theorem next_of_merge_error {e : CaptureError} (h : stream.merge.next = (.error e, merge)) :
    stream.next = (.error e, { stream with merge }) := by
  rw [next]
  split <;> simp_all

/-- At the end a row before a change must not wait any more. -/
theorem next_of_merge_none (h : stream.merge.next = (.ok none, merge)) :
    stream.next =
      ((waiting? merge.labels stream.states).elim (.ok none) .error, { stream with merge }) := by
  rw [next]
  split <;> simp_all
  split <;> simp_all

theorem next_of_superseded (h : stream.merge.next = (.ok (some (i, row)), merge))
    (hget : stream.states[i]? = some state) (howns : ¬ state.window.owns row.startLsn) :
    stream.next = next { stream with merge, superseded := stream.superseded + 1 } := by
  rw [next]
  split <;> simp_all

/-- A row is answered for with the change that it completes or with its failure. -/
theorem next_of_assemble (answer : Except CaptureError (ChangeRecord .sqlserver))
    (h : stream.merge.next = (.ok (some (i, row)), merge)) (hget : stream.states[i]? = some state)
    (howns : state.window.owns row.startLsn)
    (ha : RowAssembly.assemble state (merge.label i) row = (answer.map some, state')) :
    stream.next = (answer.map some, { stream with merge, states := stream.states.set i state' }) := by
  cases answer <;>
  · rw [next]
    split <;> simp_all [Except.map]

theorem next_of_held (h : stream.merge.next = (.ok (some (i, row)), merge))
    (hget : stream.states[i]? = some state) (howns : state.window.owns row.startLsn)
    (ha : RowAssembly.assemble state (merge.label i) row = (.ok none, state')) :
    stream.next = next { stream with merge, states := stream.states.set i state' } := by
  rw [next]
  split <;> simp_all

theorem drain_of_merge_error {e : CaptureError} (h : stream.merge.next = (.error e, merge)) :
    stream.drain = ([], some e, { stream with merge }) :=
  drain_of_next_error (next_of_merge_error h)

theorem drain_of_merge_none (h : stream.merge.next = (.ok none, merge)) :
    stream.drain = ([], waiting? merge.labels stream.states, { stream with merge }) := by
  have hnext := next_of_merge_none h
  cases hw : waiting? merge.labels stream.states with
  | none =>
      rw [hw] at hnext
      exact drain_of_next_none hnext
  | some e =>
      rw [hw] at hnext
      exact drain_of_next_error hnext

theorem drain_of_superseded (h : stream.merge.next = (.ok (some (i, row)), merge))
    (hget : stream.states[i]? = some state) (howns : ¬ state.window.owns row.startLsn) :
    stream.drain =
      drain { stream with merge, superseded := stream.superseded + 1 } :=
  drain_of_next_eq (next_of_superseded h hget howns)

theorem drain_of_assemble_error {e : CaptureError}
    (h : stream.merge.next = (.ok (some (i, row)), merge)) (hget : stream.states[i]? = some state)
    (howns : state.window.owns row.startLsn)
    (ha : RowAssembly.assemble state (merge.label i) row = (.error e, state')) :
    stream.drain = ([], some e, { stream with merge, states := stream.states.set i state' }) :=
  drain_of_next_error (next_of_assemble (.error e) h hget howns ha)

theorem drain_of_assemble_none (h : stream.merge.next = (.ok (some (i, row)), merge))
    (hget : stream.states[i]? = some state) (howns : state.window.owns row.startLsn)
    (ha : RowAssembly.assemble state (merge.label i) row = (.ok none, state')) :
    stream.drain = drain { stream with merge, states := stream.states.set i state' } :=
  drain_of_next_eq (next_of_held h hget howns ha)

theorem drain_of_assemble_some {record : ChangeRecord .sqlserver}
    (h : stream.merge.next = (.ok (some (i, row)), merge)) (hget : stream.states[i]? = some state)
    (howns : state.window.owns row.startLsn)
    (ha : RowAssembly.assemble state (merge.label i) row = (.ok (some record), state')) :
    stream.drain =
      (record :: (drain { stream with merge, states := stream.states.set i state' }).1,
        (drain { stream with merge, states := stream.states.set i state' }).2) :=
  drain_of_next_some (next_of_assemble (.ok record) h hget howns ha)

end Next

/-! ## The rows of the merge -/

/-- The changes of a stream are those that the rows of its merge complete. A failure of either is a
failure of the stream. -/
theorem assembles_drain (stream : ChangeStream)
    (hinputs : ∀ x ∈ stream.merge.drain.1, x.1 < stream.states.length) :
    ∃ failure,
      Assembles stream.merge.labels stream.states stream.merge.drain.1 stream.drain.1 failure ∧
        (failure.isSome ∨ stream.merge.drain.2.isSome → stream.drain.2.1.isSome) := by
  generalize hmerge : stream.merge = merge at hinputs
  fun_induction Merge.drain merge generalizing stream with
  | case1 merge rest e hn =>
      rw [drain_of_merge_error (hmerge ▸ hn)]
      exact ⟨none, .nil _, fun _ => rfl⟩
  | case2 merge rest hn =>
      rw [drain_of_merge_none (hmerge ▸ hn)]
      exact ⟨none, .nil _, by simp⟩
  | case3 merge x rest hn ih =>
      obtain ⟨i, row⟩ := x
      obtain ⟨_, _, _, _, _, _, _, hlabels⟩ := Merge.next_eq_some hn
      have hi : i < stream.states.length := hinputs (i, row) mem_cons_self
      have hrest : ∀ x ∈ rest.drain.1, x.1 < stream.states.length :=
        fun x hx => hinputs x (mem_cons_of_mem _ hx)
      have hget : stream.states[i]? = some stream.states[i] := getElem?_eq_getElem hi
      by_cases howns : stream.states[i].window.owns row.startLsn
      · rcases ha : RowAssembly.assemble stream.states[i] (rest.label i) row with ⟨result, state'⟩
        have ha' : RowAssembly.assemble stream.states[i] (merge.labels.getD i "") row =
            (result, state') := by rw [← hlabels, ← ha, Merge.label]
        rcases result with e | _ | record
        · rw [drain_of_assemble_error (hmerge ▸ hn) hget howns ha]
          exact ⟨some e, .failed hget howns ha', fun _ => rfl⟩
        · rw [drain_of_assemble_none (hmerge ▸ hn) hget howns ha]
          obtain ⟨failure, h, hfailure⟩ := ih { stream with
            merge := rest, states := stream.states.set i state' } rfl (by simpa using hrest)
          exact ⟨failure, .held hget howns ha' (hlabels ▸ h), hfailure⟩
        · rw [drain_of_assemble_some (hmerge ▸ hn) hget howns ha]
          obtain ⟨failure, h, hfailure⟩ := ih { stream with
            merge := rest, states := stream.states.set i state' } rfl (by simpa using hrest)
          exact ⟨failure, .completed hget howns ha' (hlabels ▸ h), hfailure⟩
      · rw [drain_of_superseded (hmerge ▸ hn) hget howns]
        obtain ⟨failure, h, hfailure⟩ := ih { stream with
          merge := rest, superseded := stream.superseded + 1 } rfl hrest
        exact ⟨failure, .superseded hget howns (hlabels ▸ h), hfailure⟩

end ChangeStream

end ChangeCapture
