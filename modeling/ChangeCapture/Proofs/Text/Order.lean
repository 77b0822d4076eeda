import ChangeCapture.Record.Basic
import Mathlib.Data.String.Basic

/-! # The order of texts that are joined

Where one text ends in a mark and another one goes on, the character that stands against the mark decides
which of them comes first. -/

namespace ChangeCapture

open List

theorem compare_eq_lt_iff_toList {s t : String} : compare s t = .lt ↔ s.toList < t.toList :=
  compare_lt_iff_lt.trans String.lt_iff_toList_lt

theorem append_lt_append_iff {l r r' : List Char} : l ++ r < l ++ r' ↔ r < r' := by
  induction l with
  | nil => rfl
  | cons a l ih => simp [ih]

theorem append_cons_lt {l l' r r' : List Char} {mark : Char} (h : l < l')
    (hmark : ∀ c rest, l' = l ++ c :: rest → mark < c) : l ++ mark :: r < l' ++ mark :: r' := by
  induction l generalizing l' with
  | nil =>
      cases l' with
      | nil => cases h
      | cons c rest => exact List.cons_lt_cons_iff.mpr (.inl (hmark c rest rfl))
  | cons a l ih =>
      cases l' with
      | nil => cases h
      | cons b l' =>
          refine List.cons_lt_cons_iff.mpr ((List.cons_lt_cons_iff.mp h).imp_right fun ⟨heq, hlt⟩ => ?_)
          exact ⟨heq, ih hlt fun c rest hrest => hmark c rest (by rw [heq, hrest]; rfl)⟩

/-- One text goes on behind another, with a character below the mark that stands behind both, or with the
mark itself and what is then below the text behind the mark of the other. -/
def GoesBelow (mark : Char) (text longer behind behind' : List Char) : Prop :=
  ∃ c rest, longer = text ++ c :: rest ∧ (c < mark ∨ c = mark ∧ rest ++ mark :: behind' < behind)

theorem GoesBelow.lt {mark : Char} {text longer behind behind' : List Char}
    (h : GoesBelow mark text longer behind behind') : text < longer := by
  obtain ⟨c, rest, rfl, _⟩ := h
  have hlt : text ++ [] < text ++ c :: rest := append_left_lt (nil_lt_cons c rest)
  rwa [append_nil] at hlt

/-- With the mark behind it, the greater of two texts comes first exactly if it goes below. -/
theorem append_mark_lt_iff {mark : Char} {text longer behind behind' : List Char} (h : text < longer) :
    longer ++ mark :: behind' < text ++ mark :: behind ↔
      GoesBelow mark text longer behind behind' := by
  induction text generalizing longer with
  | nil =>
      cases longer with
      | nil => cases h
      | cons c rest => simp [GoesBelow, cons_lt_cons_iff]
  | cons a text ih =>
      cases longer with
      | nil => cases h
      | cons b longer =>
          rw [cons_append, cons_append, cons_lt_cons_iff]
          rcases cons_lt_cons_iff.mp h with hlt | ⟨rfl, hlt⟩
          · -- the first characters decide, and neither text goes on behind the other
            have hgoes : ¬ GoesBelow mark (a :: text) (b :: longer) behind behind' := by
              rintro ⟨c, rest, heq, _⟩
              exact Char.ne_of_lt hlt (cons.inj heq).1.symm
            have hlast : ¬ (b < a ∨ b = a ∧ longer ++ mark :: behind' < text ++ mark :: behind) := by
              rintro (hlt' | ⟨rfl, _⟩)
              · exact Char.lt_asymm hlt hlt'
              · exact Char.lt_irrefl _ hlt
            exact iff_of_false hlast hgoes
          · simp [ih hlt, GoesBelow]

theorem toList_sourceLabel (t : TableId) (source : String) :
    (sourceLabel t source).toList =
      t.schema.toList ++ '.' :: (t.table.toList ++ ':' :: source.toList) := by
  have htext : sourceLabel t source = t.schema ++ "." ++ t.table ++ ":" ++ source := rfl
  rw [htext]
  simp

end ChangeCapture
