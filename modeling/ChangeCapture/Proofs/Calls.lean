import ChangeCapture.Proofs.Commits
import ChangeCapture.Proofs.Merge.Failing
import ChangeCapture.Proofs.Redo.Reading
import ChangeCapture.Proofs.Stream.Opening

/-! # Calls after a failure

When its rows cannot be read on, a stream stays failed, as its merge does. When one row stands for no
change, only the call that took the row fails, and the next call goes on behind it. -/

namespace ChangeCapture

open List
open Program (Answers Ends)

/-! ## Streams -/

namespace ChangeStream

/-- The stream after some more calls. -/
def after (stream : ChangeStream) : Nat → ChangeStream
  | 0 => stream
  | calls + 1 => stream.next.2.after calls

theorem next_after_of_next_eq {stream stream' : ChangeStream} (h : stream.next = stream'.next)
    (calls : Nat) : (stream.after calls).next = (stream'.after calls).next := by
  cases calls with
  | zero => exact h
  | succ calls => rw [after, after, h]

theorem after_of_next_self {stream : ChangeStream} (h : stream.next.2 = stream) (calls : Nat) :
    stream.after calls = stream := by
  induction calls with
  | zero => rfl
  | succ calls ih => rw [after, h, ih]

/-- What calls return while the states of some windows take rows: each row that its window owns is
answered for with its change or its failure, unless it is held back. -/
inductive Replies (labels : List String) : List WindowState → List (Nat × ChangeRow) →
    List (Except CaptureError (ChangeRecord .sqlserver)) → List WindowState → Prop where
  | nil (states) : Replies labels states [] [] states
  | superseded {states i row rows state replies last} (hget : states[i]? = some state)
      (howns : ¬ state.window.owns row.startLsn) :
      Replies labels states rows replies last → Replies labels states ((i, row) :: rows) replies last
  | held {states i row rows state state' replies last} (hget : states[i]? = some state)
      (howns : state.window.owns row.startLsn)
      (h : RowAssembly.assemble state (labels.getD i "") row = (.ok none, state')) :
      Replies labels (states.set i state') rows replies last →
      Replies labels states ((i, row) :: rows) replies last
  | answered {states i row rows state state' reply replies last} (hget : states[i]? = some state)
      (howns : state.window.owns row.startLsn)
      (h : RowAssembly.assemble state (labels.getD i "") row = (reply.map some, state')) :
      Replies labels (states.set i state') rows replies last →
      Replies labels states ((i, row) :: rows) (reply :: replies) last

/-- The result of a call: one of the replies in their order, and behind them a failure that lasts, or
nothing. -/
def returned (replies : List (Except CaptureError (ChangeRecord .sqlserver)))
    (lasting : Option CaptureError) (calls : Nat) :
    Except CaptureError (Option (ChangeRecord .sqlserver)) :=
  match replies[calls]? with
  | some reply => reply.map some
  | none => lasting.elim (.ok none) .error

/-- The calls of a stream are answered for with some rows one by one, and behind them with a failure, with
a row before a change that still waits, or with nothing. -/
def Answered (stream : ChangeStream) (rows : List (Nat × ChangeRow)) (failure : Option CaptureError) :
    Prop :=
  ∃ replies last, Replies stream.merge.labels stream.states rows replies last ∧
    ∀ calls, (stream.after calls).next.1 =
      returned replies (failure.or (waiting? stream.merge.labels last)) calls

section Answered

variable {stream : ChangeStream} {merge : Merge ChangeRow} {i : Nat} {row : ChangeRow}
  {state state' : WindowState} {rows : List (Nat × ChangeRow)} {failure : Option CaptureError}

theorem answered_of_merge_error {e : CaptureError} (h : stream.merge.next = (.error e, merge)) :
    Answered stream [] (some e) := by
  have hnext := next_of_merge_error h
  have hagain : next { stream with merge } = (.error e, { stream with merge }) :=
    next_of_merge_error (Merge.next_of_next_error h)
  refine ⟨[], stream.states, .nil _, fun calls => ?_⟩
  cases calls with
  | zero =>
      rw [after, hnext]
      rfl
  | succ calls =>
      rw [after, hnext, after_of_next_self (by rw [hagain]), hagain]
      rfl

theorem answered_of_merge_none (h : stream.merge.next = (.ok none, merge)) :
    Answered stream [] none := by
  obtain ⟨_, _, hmerge⟩ := Merge.next_eq_none h
  have hnext := next_of_merge_none h
  refine ⟨[], stream.states, .nil _, fun calls => ?_⟩
  rw [after_of_next_self (by rw [hnext, hmerge]), hnext, hmerge]
  rfl

theorem answered_of_superseded (hnext : stream.merge.next = (.ok (some (i, row)), merge))
    (hget : stream.states[i]? = some state) (howns : ¬ state.window.owns row.startLsn)
    (h : Answered { stream with merge, superseded := stream.superseded + 1 } rows failure) :
    Answered stream ((i, row) :: rows) failure := by
  obtain ⟨replies, last, hreplies, hcalls⟩ := h
  obtain ⟨_, _, _, _, _, _, _, hlabels⟩ := Merge.next_eq_some hnext
  rw [hlabels] at hreplies hcalls
  refine ⟨replies, last, .superseded hget howns hreplies, fun calls => ?_⟩
  rw [next_after_of_next_eq (next_of_superseded hnext hget howns), hcalls]

theorem answered_of_held (hnext : stream.merge.next = (.ok (some (i, row)), merge))
    (hget : stream.states[i]? = some state) (howns : state.window.owns row.startLsn)
    (ha : RowAssembly.assemble state (merge.label i) row = (.ok none, state'))
    (h : Answered { stream with merge, states := stream.states.set i state' } rows failure) :
    Answered stream ((i, row) :: rows) failure := by
  obtain ⟨replies, last, hreplies, hcalls⟩ := h
  obtain ⟨_, _, _, _, _, _, _, hlabels⟩ := Merge.next_eq_some hnext
  have ha' := ha
  rw [hlabels] at hreplies hcalls
  rw [Merge.label, hlabels] at ha'
  refine ⟨replies, last, .held hget howns ha' hreplies, fun calls => ?_⟩
  rw [next_after_of_next_eq (next_of_held hnext hget howns ha), hcalls]

theorem answered_of_assemble (reply : Except CaptureError (ChangeRecord .sqlserver))
    (hnext : stream.merge.next = (.ok (some (i, row)), merge))
    (hget : stream.states[i]? = some state) (howns : state.window.owns row.startLsn)
    (ha : RowAssembly.assemble state (merge.label i) row = (reply.map some, state'))
    (h : Answered { stream with merge, states := stream.states.set i state' } rows failure) :
    Answered stream ((i, row) :: rows) failure := by
  obtain ⟨replies, last, hreplies, hcalls⟩ := h
  obtain ⟨_, _, _, _, _, _, _, hlabels⟩ := Merge.next_eq_some hnext
  have ha' := ha
  rw [hlabels] at hreplies hcalls
  rw [Merge.label, hlabels] at ha'
  refine ⟨reply :: replies, last, .answered hget howns ha' hreplies, fun calls => ?_⟩
  have hstep := next_of_assemble reply hnext hget howns ha
  cases calls with
  | zero =>
      rw [after, hstep]
      rfl
  | succ calls =>
      rw [after, hstep, hcalls]
      rfl

end Answered

/-- The rows of the merge are answered for one by one, and then its failure lasts. -/
theorem answered_drain (stream : ChangeStream)
    (hinputs : ∀ x ∈ stream.merge.drain.1, x.1 < stream.states.length) :
    Answered stream stream.merge.drain.1 stream.merge.drain.2 := by
  generalize hmerge : stream.merge = merge at hinputs
  fun_induction Merge.drain merge generalizing stream with
  | case1 merge rest e hn => exact answered_of_merge_error (hmerge ▸ hn)
  | case2 merge rest hn => exact answered_of_merge_none (hmerge ▸ hn)
  | case3 merge x rest hn ih =>
      obtain ⟨i, row⟩ := x
      have hi : i < stream.states.length := hinputs (i, row) mem_cons_self
      have hrest : ∀ x ∈ rest.drain.1, x.1 < stream.states.length :=
        fun x hx => hinputs x (mem_cons_of_mem _ hx)
      have hget : stream.states[i]? = some stream.states[i] := getElem?_eq_getElem hi
      by_cases howns : stream.states[i].window.owns row.startLsn
      · rcases ha : RowAssembly.assemble stream.states[i] (rest.label i) row with ⟨result, state'⟩
        have hbehind := ih { stream with merge := rest, states := stream.states.set i state' } rfl
          (by simpa using hrest)
        rcases result with e | _ | record
        · exact answered_of_assemble (.error e) (hmerge ▸ hn) hget howns ha hbehind
        · exact answered_of_held (hmerge ▸ hn) hget howns ha hbehind
        · exact answered_of_assemble (.ok record) (hmerge ▸ hn) hget howns ha hbehind
      · exact answered_of_superseded (hmerge ▸ hn) hget howns
          (ih { stream with merge := rest, superseded := stream.superseded + 1 } rfl hrest)

end ChangeStream

/-! ## Readers of redo logs -/

namespace RedoReader

open RedoRequest (describing)

variable {tables : TableId → Except CaptureError TableSchema → Prop}

/-- Some calls one after another with what they return, and the reader then. -/
inductive Calls (answers : Answers RedoRequest.interface Unit) :
    RedoReader → List (Except CaptureError (Option (ChangeRecord .oracle))) → RedoReader → Prop where
  | nil (reader) : Calls answers reader [] reader
  | cons {reader result rest results last} (h : Ends answers reader.next () (result, rest) ()) :
      Calls answers rest results last → Calls answers reader (result :: results) last

/-- A call is answered for with the row that it takes, and behind the last row with the failure of the
merge or with nothing. -/
def Returns (tables : TableId → Except CaptureError TableSchema → Prop) (labels : List String)
    (row : Option (Nat × RedoRow)) (failure : Option CaptureError)
    (result : Except CaptureError (Option (ChangeRecord .oracle))) : Prop :=
  match row with
  | some x => ∃ reply, result = reply.map some ∧ Replies tables (labels.getD x.1 "") x.2 reply
  | none => result = failure.elim (.ok none) .error

/-- The rows of the merge are answered for one by one, and then its failure lasts. -/
theorem Calls.returns {reader last : RedoReader}
    {results : List (Except CaptureError (Option (ChangeRecord .oracle)))}
    (h : reader.Calls (describing tables) results last) (hreader : reader.Described tables) {n : Nat}
    {result : Except CaptureError (Option (ChangeRecord .oracle))} (hresult : results[n]? = some result) :
    Returns tables reader.merge.labels reader.merge.drain.1[n]? reader.merge.drain.2 result := by
  induction h generalizing n with
  | nil => cases hresult
  | @cons reader first rest results last hnext _ ih =>
      obtain ⟨hrest, ⟨e, hmerge, rfl⟩ | ⟨hmerge, rfl⟩ | ⟨x, reply, hmerge, rfl, hreply⟩⟩ :=
        replies_of_ends_next hreader hnext
      · have hagain := Merge.drain_of_next_error (Merge.next_of_next_error hmerge)
        rw [Merge.drain_of_next_error hmerge]
        cases n with
        | zero => exact (Option.some.inj hresult).symm
        | succ n => simpa [hagain, Returns] using ih hrest hresult
      · obtain ⟨_, _, hsame⟩ := Merge.next_eq_none hmerge
        have hagain := Merge.drain_of_next_none hmerge
        rw [hagain]
        cases n with
        | zero => exact (Option.some.inj hresult).symm
        | succ n => simpa [hsame, hagain] using ih hrest hresult
      · obtain ⟨_, _, _, _, _, _, _, hlabels⟩ := Merge.next_eq_some hmerge
        rw [Merge.drain_of_next_some hmerge]
        cases n with
        | zero => exact ⟨reply, (Option.some.inj hresult).symm, hreply⟩
        | succ n => simpa [hlabels] using ih hrest hresult

end RedoReader

/-! ## Failing and going on -/

/-- Every row that the merge of a stream or of a reader gives is answered for by one call: with its change
or with its failure, whatever the calls before it have returned. Only a row that its window does not own
or that is held back is passed over. Behind the last row, the failure of the merge, or of a row that
still waits, is returned by every call. -/
theorem rows_answered_for (rules : Rules) (tables : TableId → Except CaptureError TableSchema → Prop) :
    (∀ {w w' : World} {planned : List PlannedWindow} {stream : ChangeStream},
      Ends rules.answers (ChangeStream.start planned).run w (.ok stream) w' →
      stream.Answered stream.merge.drain.1 stream.merge.drain.2) ∧
    ∀ {first final : Scn} {reader last : RedoReader}
      {results : List (Except CaptureError (Option (ChangeRecord .oracle)))},
      Ends (RedoRequest.describing tables) (RedoReader.start first final) () (.ok reader) () →
      reader.Calls (RedoRequest.describing tables) results last →
      ∀ (n : Nat) result, results[n]? = some result →
        RedoReader.Returns tables reader.merge.labels reader.merge.drain.1[n]? reader.merge.drain.2
          result := by
  refine ⟨fun hstart => ?_, fun hstart hcalls n result hresult => ?_⟩
  · obtain ⟨_, _, _, _, hopened⟩ := ChangeStream.ends_start hstart
    exact ChangeStream.answered_drain _ fun x hx => hopened.length_states ▸ hopened.input_lt hx
  · obtain ⟨_, _, _, hschemas⟩ := RedoReader.start_of_ends hstart
    refine hcalls.returns (fun table schema hlookup => ?_) hresult
    rw [hschemas] at hlookup
    cases hlookup

namespace Sample

/-- A row whose operation is unknown. -/
def strangeRow : ChangeRow := { row 12 with operation := 9 }

/-- An insertion behind the strange row. -/
def strangeStream : ChangeStream :=
  { stream 11 20 15 ["orders"] with
    merge :=
      { labels := [(source "orders").label]
        pending :=
          [{ input := 0, label := (source "orders").label, row := strangeRow
             rest := { rows := [row 15] } }]
        counts := [0] } }

theorem ends_start_strange :
    Ends Rules.lawless.answers (ChangeStream.start [planned 11 20 "orders"]).run { server }
      (.ok strangeStream) { server } := by
  have hask : Rules.lawless.answers { server } (.server (.changes (planned 11 20 "orders").window))
      (Except.ok { rows := [strangeRow, row 15] } : Except CaptureError (Cursor ChangeRow)) { server } :=
    ⟨server, trivial, trivial, rfl⟩
  exact .ask hask (.refl _ _)

theorem next_strange :
    strangeStream.next.1 =
        .error (RowAssembly.unknownOperation (source "orders").label strangeRow) ∧
      (strangeStream.after 1).next.1 = .ok (some (record "orders" 15)) := by
  have hstrange := ChangeStream.next_of_assemble
    (.error (RowAssembly.unknownOperation (source "orders").label strangeRow))
    (show strangeStream.merge.next = (.ok (some (0, strangeRow)), _) from rfl) rfl (by decide) rfl
  refine ⟨congrArg Prod.fst hstrange, ?_⟩
  rw [ChangeStream.after, ChangeStream.after, hstrange]
  exact congrArg Prod.fst
    (ChangeStream.next_of_assemble (.ok (record "orders" 15)) rfl rfl (by decide) rfl)

/-- A row whose operation is not supported, and an insertion behind it. -/
def strangeReader : RedoReader where
  merge :=
    { labels := [threadLabel 1]
      pending :=
        [{ input := 0, label := threadLabel 1
           row := { RedoReader.sampleRow "T" with scn := .ofNat 41, operationCode := 9 }
           rest := { rows := [RedoReader.sampleRow "T"] } }]
      counts := [0] }

theorem ends_start_strangeReader :
    Ends RedoRequest.anything (RedoReader.start (.ofNat 41) (.ofNat 42)) () (.ok strangeReader) () := by
  have hthreads : RedoReader.distinctThreads [1] = [1] := by
    rw [RedoReader.distinctThreads, mergeSort_of_pairwise (by decide)]
    rfl
  refine RedoReader.ends_start (by decide) (hthreads ▸ RedoReader.ends_mineAll_cons
    { rows := [{ RedoReader.sampleRow "T" with scn := .ofNat 41, operationCode := 9 },
      RedoReader.sampleRow "T"] } (.refl _ _)) rfl

theorem calls_strangeReader :
    ∃ e last, strangeReader.Calls RedoRequest.anything
      [.error e, .ok (some (RedoReader.sampleRecord 1 "T"))] last := by
  have hstrange : Ends RedoRequest.anything strangeReader.next () _ () := .refl _ _
  have hrecord : Ends RedoRequest.anything
      (RedoReader.next { strangeReader with merge := strangeReader.merge.next.2 }) ()
      (.ok (some (RedoReader.sampleRecord 1 "T")), _) () :=
    RedoReader.ends_next (show Merge.next _ = (.ok (some (0, RedoReader.sampleRow "T")), _) from rfl)
      rfl rfl (@RedoReader.recordOf_sampleRow 1 "T" (by decide) (by decide))
  exact ⟨_, _, .cons hstrange (.cons hrecord (.nil _))⟩

end Sample

open Sample in
theorem rows_answered_for_of_strange :
    strangeStream.Answered strangeStream.merge.drain.1 strangeStream.merge.drain.2 ∧
      RedoReader.Returns (fun _ _ => True) strangeReader.merge.labels strangeReader.merge.drain.1[1]?
        strangeReader.merge.drain.2 (.ok (some (RedoReader.sampleRecord 1 "T"))) := by
  obtain ⟨hstream, hreader⟩ := rows_answered_for Rules.lawless fun _ _ => True
  refine ⟨hstream ends_start_strange, ?_⟩
  obtain ⟨e, last, hcalls⟩ := calls_strangeReader
  have hstart := ends_start_strangeReader
  rw [← RedoRequest.describing_true] at hstart hcalls
  exact hreader hstart hcalls 1 _ rfl

open Sample in
/-- Neither a stream nor a reader stays failed: the call after the failure of the first row gives the
change of the second. -/
theorem changes_behind_failures :
    (∃ stream e record, Ends Rules.lawless.answers
        (ChangeStream.start [planned 11 20 "orders"]).run { server } (.ok stream) { server } ∧
      stream.next.1 = .error e ∧ (stream.after 1).next.1 = .ok (some record)) ∧
    ∃ reader last e record,
      Ends RedoRequest.anything (RedoReader.start (.ofNat 41) (.ofNat 42)) () (.ok reader) () ∧
      reader.Calls RedoRequest.anything [.error e, .ok (some record)] last := by
  obtain ⟨hfails, hgoesOn⟩ := next_strange
  obtain ⟨e, last, hcalls⟩ := calls_strangeReader
  exact ⟨⟨_, _, _, ends_start_strange, hfails, hgoesOn⟩, _, last, e, _, ends_start_strangeReader, hcalls⟩

end ChangeCapture
