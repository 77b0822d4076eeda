import ChangeCapture.Proofs.Order
import ChangeCapture.Proofs.Text.Order
import ChangeCapture.Redo.Reader

/-! # The orders of redo rows and of their offsets

Rows of a redo log are merged by table name part by part, but offsets compare the joined text of the
table and the thread. The two orders agree on names that do not go on, where another ends, with a
character before a full stop or a colon. -/

namespace ChangeCapture

open List
open Std (TransCmp TransOrd LawfulEqOrd)

/-! ## Tables -/

namespace TableId

/-- Where a name of `t` goes on behind the end of that of `s`, it goes on with a character after the mark
that ends the name in a text. So the texts of `s` and `t` go as their names do. -/
structure SortsLike (s t : TableId) : Prop where
  database : s.database = t.database
  schema : ∀ c rest, t.schema.toList = s.schema.toList ++ c :: rest → '.' < c
  table : ∀ c rest, t.table.toList = s.table.toList ++ c :: rest → ':' < c

end TableId

/-- Tables and then sources go as their labels do. -/
theorem TableId.SortsLike.compare_sourceLabel {s t : TableId} {source source' : String}
    (h : s.SortsLike t) (hlt : (compare s t).then (compare source source') = .lt) :
    compare (sourceLabel s source) (sourceLabel t source') = .lt := by
  rw [compare_eq_lt_iff_toList, toList_sourceLabel, toList_sourceLabel]
  rcases Ordering.then_eq_lt.mp hlt with htable | ⟨htable, hsource⟩
  · have hparts : (compare s.schema t.schema).then (compare s.table t.table) = .lt := by
      have hall : (compare s.database t.database).then
        ((compare s.schema t.schema).then (compare s.table t.table)) = .lt := htable
      rwa [h.database, Std.ReflOrd.compare_self, Ordering.eq_then] at hall
    rcases Ordering.then_eq_lt.mp hparts with hschema | ⟨hschema, hname⟩
    · exact append_cons_lt (compare_eq_lt_iff_toList.mp hschema) h.schema
    · rw [LawfulEqOrd.eq_of_compare hschema]
      refine append_left_lt (List.cons_lt_cons_iff.mpr (.inr ⟨rfl, ?_⟩))
      exact append_cons_lt (compare_eq_lt_iff_toList.mp hname) h.table
  · rw [LawfulEqOrd.eq_of_compare htable]
    refine append_left_lt (List.cons_lt_cons_iff.mpr (.inr ⟨rfl, append_left_lt ?_⟩))
    exact List.cons_lt_cons_iff.mpr (.inr ⟨rfl, compare_eq_lt_iff_toList.mp hsource⟩)

/-! ## Rows -/

namespace RedoRow

instance : TransCmp compareKeys :=
  inferInstanceAs (TransCmp (compareLex (compareOn scn) (compareLex (compareOn sequence)
    (compareLex (compareOn operationCode) (compareOn table)))))

instance : TransCmp (MergeRow.compareKeys (α := RedoRow)) :=
  inferInstanceAs (TransCmp compareKeys)

end RedoRow

end ChangeCapture
