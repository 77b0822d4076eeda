import ChangeCapture.Capture.ChangeRow
import ChangeCapture.Offset.Basic
import ChangeCapture.Table
import Mathlib.Data.List.Pairwise
import Mathlib.Order.Compare
import Mathlib.Order.Lattice

/-! # The orders of positions, rows and offsets -/

namespace ChangeCapture

open Std (TransCmp TransOrd LawfulEqOrd OrientedCmp OrientedOrd ReflCmp)

/-! ## Strict order -/

/-- Lists in strict order are given by what is in them. -/
theorem eq_of_ascending {α : Type} {cmp : α → α → Ordering} [TransCmp cmp] {l l' : List α}
    (h : l.Pairwise fun a b => cmp a b = .lt) (h' : l'.Pairwise fun a b => cmp a b = .lt)
    (hmem : ∀ a, a ∈ l ↔ a ∈ l') : l = l' := by
  have hne {a b : α} (hlt : cmp a b = .lt) : a ≠ b := by
    rintro rfl
    cases hlt.symm.trans ReflCmp.compare_self
  have hperm : l.Perm l' := (List.perm_ext_iff_of_nodup (h.imp hne) (h'.imp hne)).mpr hmem
  refine hperm.eq_of_pairwise (fun a b _ _ hab hba => ?_) h h'
  cases (OrientedCmp.gt_of_lt hab).symm.trans hba

/-- What compares as equal in a list in strict order is the same. -/
theorem eq_of_compare_eq {α : Type} {cmp : α → α → Ordering} [OrientedCmp cmp] {l : List α} {a b : α}
    (h : l.Pairwise fun a b => cmp a b = .lt) (ha : a ∈ l) (hb : b ∈ l) (heq : cmp a b = .eq) :
    a = b := by
  refine List.Pairwise.forall_of_forall_of_flip (R := fun a b => cmp a b = .eq → a = b)
    (fun _ _ _ => rfl) (h.imp fun hlt heq => ?_) (h.imp fun hlt heq => ?_) ha hb heq
  · cases hlt.symm.trans heq
  · cases (OrientedCmp.gt_of_lt hlt).symm.trans heq

/-! ## Positions -/

namespace Position

variable {b : Backend}

theorem lt_iff_rank_lt {p q : Position b} : p < q ↔ p.rank < q.rank := Iff.rfl

instance : LinearOrder (Position b) where
  le_refl p := Nat.le_refl p.rank
  le_trans _ _ _ h h' := Nat.le_trans h h'
  le_antisymm _ _ h h' := rank_inj.mp (Nat.le_antisymm h h')
  le_total p q := Nat.le_total p.rank q.rank
  lt_iff_le_not_ge _ _ := Nat.lt_iff_le_and_not_ge
  toDecidableLE := inferInstance
  toDecidableLT := inferInstance
  toDecidableEq := inferInstance
  min_def _ _ := rfl
  max_def _ _ := rfl
  compare p q := compare p.rank q.rank
  compare_eq_compareOfLessAndEq p q := by
    change compareOfLessAndEq p.rank q.rank = compareOfLessAndEq p q
    simp only [compareOfLessAndEq, lt_iff_rank_lt, rank_inj]

instance : TransOrd (Position b) := inferInstanceAs (TransCmp (compareOn rank))

instance : LawfulEqOrd (Position b) where
  eq_of_compare h := rank_inj.mp (LawfulEqOrd.eq_of_compare h)

theorem compare_eq_lt {p q : Position b} : compare p q = .lt ↔ p < q := Nat.compare_eq_lt

theorem null_le (p : Position b) : null ≤ p := Nat.zero_le _

theorem isNull_iff {p : Position b} : p.isNull = true ↔ p = null := by
  cases p with
  | mk value => cases value <;> simp [isNull, null]

end Position

/-! ## Sequences -/

namespace Sequence

variable {b : Backend}

instance : TransOrd (Sequence b) := inferInstanceAs (TransCmp (compareOn rank))

instance : LawfulEqOrd (Sequence b) where
  eq_of_compare h := rank_inj.mp (LawfulEqOrd.eq_of_compare h)

end Sequence

/-! ## Tables -/

namespace TableId

instance : TransOrd TableId :=
  inferInstanceAs (TransCmp (compareLex (compareOn database)
    (compareLex (compareOn schema) (compareOn table))))

instance : LawfulEqOrd TableId where
  eq_of_compare h := by
    obtain ⟨hdatabase, hrest⟩ := Ordering.then_eq_eq.mp h
    obtain ⟨hschema, htable⟩ := Ordering.then_eq_eq.mp hrest
    exact TableId.ext (LawfulEqOrd.eq_of_compare hdatabase) (LawfulEqOrd.eq_of_compare hschema)
      (LawfulEqOrd.eq_of_compare htable)

end TableId

/-! ## Rows -/

instance : TransCmp ChangeRow.compareKeys :=
  inferInstanceAs (TransCmp (compareLex (compareOn ChangeRow.startLsn)
    (compareLex (compareOn ChangeRow.seqval) (compareOn ChangeRow.operation))))

instance : TransCmp (MergeRow.compareKeys (α := ChangeRow)) :=
  inferInstanceAs (TransCmp ChangeRow.compareKeys)

theorem ChangeRow.compareKeys_eq_lt {r s : ChangeRow} :
    r.compareKeys s = .lt ↔ r.startLsn < s.startLsn ∨ r.startLsn = s.startLsn ∧
      (r.seqval < s.seqval ∨ r.seqval = s.seqval ∧ r.operation < s.operation) := by
  have hop : compare r.operation s.operation = .lt ↔ r.operation < s.operation :=
    compareOfLessAndEq_eq_lt
  simp only [compareKeys, Ordering.then_eq_lt, Position.compare_eq_lt, hop,
    Std.LawfulEqCmp.compare_eq_iff_eq]

/-! ## Offsets -/

namespace Offset

variable {b : Backend} {o p q : Offset b}

instance : TransCmp (compareKey (b := b)) :=
  inferInstanceAs (TransCmp (compareLex (compareOn position)
    (compareLex (compareOn sequence) (compareOn op))))

instance : TransOrd (Offset b) :=
  inferInstanceAs (TransCmp (compareLex compareKey (compareOn origin)))

theorem compareKey_swap : o.compareKey p = (p.compareKey o).swap := OrientedCmp.eq_swap

theorem eq_of_compareKey (h : o.compareKey p = .eq) :
    o.position = p.position ∧ o.sequence = p.sequence ∧ o.op = p.op := by
  rw [compareKey, Ordering.then_eq_eq, Ordering.then_eq_eq] at h
  exact ⟨LawfulEqOrd.eq_of_compare h.1, LawfulEqOrd.eq_of_compare h.2.1,
    LawfulEqOrd.eq_of_compare h.2.2⟩

instance : LawfulEqOrd (Offset b) where
  eq_of_compare h := by
    obtain ⟨hkey, horigin⟩ := Ordering.then_eq_eq.mp h
    obtain ⟨hposition, hsequence, hop⟩ := eq_of_compareKey hkey
    exact Offset.ext hposition hsequence hop (LawfulEqOrd.eq_of_compare horigin)

theorem compare_eq_lt :
    compare o p = .lt ↔
      o.compareKey p = .lt ∨ o.compareKey p = .eq ∧ compare o.origin p.origin = .lt :=
  Ordering.then_eq_lt

theorem position_le_of_compareKey (h : (o.compareKey p).isLE) : o.position ≤ p.position := by
  rw [compareKey, Ordering.isLE_then_iff_or] at h
  rcases h with h | ⟨h, _⟩
  · exact (Position.compare_eq_lt.mp h).le
  · exact (LawfulEqOrd.eq_of_compare h).le

theorem compareKey_of_position_lt (h : o.position < p.position) : o.compareKey p = .lt := by
  rw [compareKey, Position.compare_eq_lt.mpr h, Ordering.lt_then]

/-! ### What an offset covers -/

theorem covers_iff :
    o.covers p ↔
      p.compareKey o = .lt ∨
        p.compareKey o = .eq ∧ (o.origin = "" ∨ (compare p.origin o.origin).isLE) := by
  unfold covers
  cases p.compareKey o <;> simp

theorem covers_of_compare_lt (h : compare p o = .lt) : o.covers p := by
  rcases compare_eq_lt.mp h with h | ⟨h, h'⟩
  · exact covers_iff.mpr (.inl h)
  · exact covers_iff.mpr (.inr ⟨h, .inr (by simp [h'])⟩)

theorem covers_of_position_lt (h : p.position < o.position) : o.covers p :=
  covers_iff.mpr (.inl (compareKey_of_position_lt h))

@[simp] theorem covers_self : o.covers o :=
  covers_iff.mpr (.inr ⟨ReflCmp.compare_self, .inr (by simp)⟩)

theorem position_le_of_covers (h : o.covers p) : p.position ≤ o.position := by
  apply position_le_of_compareKey
  rcases covers_iff.mp h with h | ⟨h, _⟩ <;> simp [h]

/-- A change that is not covered lies behind the offset. -/
theorem compare_lt_of_not_covers (h : ¬ o.covers p) : compare o p = .lt := by
  rw [covers_iff, not_or, not_and_or, not_or] at h
  obtain ⟨hkey, h⟩ := h
  rw [compare_eq_lt, compareKey_swap, OrientedOrd.eq_swap (a := o.origin)]
  cases hp : p.compareKey o with
  | lt => exact (hkey hp).elim
  | gt => exact .inl rfl
  | eq =>
      rcases h with h | ⟨_, h⟩
      · exact (h hp).elim
      · refine .inr ⟨rfl, ?_⟩
        cases ho : compare p.origin o.origin <;> simp_all

/-- What is covered goes down to all changes before it. -/
theorem covers_of_covers_of_lt (h : o.covers p) (hq : compare q p = .lt) : o.covers q := by
  rcases covers_iff.mp h with hp | ⟨hp, horigin⟩
  · refine covers_iff.mpr (.inl ?_)
    rcases compare_eq_lt.mp hq with hq | ⟨hq, _⟩
    · exact TransCmp.lt_trans hq hp
    · exact TransCmp.lt_of_eq_of_lt hq hp
  · rcases compare_eq_lt.mp hq with hq | ⟨hq, hlt⟩
    · exact covers_iff.mpr (.inl (TransCmp.lt_of_lt_of_eq hq hp))
    · refine covers_iff.mpr (.inr ⟨TransCmp.eq_trans hq hp, horigin.imp_right fun hle => ?_⟩)
      simp [TransCmp.lt_of_lt_of_isLE hlt hle]

/-- With a source, an offset covers nothing behind it. -/
theorem not_covers_of_compare_lt (ho : o.origin ≠ "") (h : compare o p = .lt) : ¬ o.covers p := by
  intro hc
  rw [compare_eq_lt, compareKey_swap, OrientedOrd.eq_swap (a := o.origin)] at h
  rcases covers_iff.mp hc with hkey | ⟨hkey, horigin⟩
  · simp [hkey] at h
  · rcases horigin with horigin | horigin
    · exact ho horigin
    · cases hp : compare p.origin o.origin <;> simp_all

end Offset

end ChangeCapture
