import ChangeCapture.Text.Blank
import Mathlib.Data.List.TakeDrop
import Mathlib.Data.List.TakeWhile

/-! # Blanks -/

namespace ChangeCapture.Text

/-! ## Characters -/

theorem ne_of_isBlank {c other : Char} (h : isBlank c = true) (hother : isBlank other = false) :
    c ≠ other := by
  rintro rfl
  simp [h] at hother

theorem toNat_of_isBlank {c : Char} (h : isBlank c = true) : c.toNat ≤ 32 ∨ 133 ≤ c.toNat := by
  simp only [isBlank, Bool.or_eq_true, Bool.and_eq_true, decide_eq_true_eq, beq_iff_eq] at h
  omega

theorem not_isBlank_of_isDigit {c : Char} (h : c.isDigit = true) : isBlank c = false := by
  refine Bool.eq_false_iff.mpr fun hblank => ?_
  have hvalue := toNat_of_isBlank hblank
  simp only [Char.isDigit, Bool.and_eq_true, decide_eq_true_eq, ge_iff_le] at h
  have hlow : 48 ≤ c.toNat := h.1
  have hhigh : c.toNat ≤ 57 := h.2
  omega

/-- Blanks have no case. -/
theorem toLower_of_isBlank {c : Char} (h : isBlank c = true) : c.toLower = c := by
  have hvalue := toNat_of_isBlank h
  refine dif_neg fun ⟨hlow, hhigh⟩ => ?_
  have hlow : 65 ≤ c.toNat := UInt32.le_iff_toNat_le.mp hlow
  have hhigh : c.toNat ≤ 90 := UInt32.le_iff_toNat_le.mp hhigh
  omega

theorem toUpper_of_isBlank {c : Char} (h : isBlank c = true) : c.toUpper = c := by
  have hvalue := toNat_of_isBlank h
  refine dif_neg fun ⟨hlow, hhigh⟩ => ?_
  have hlow : 97 ≤ c.toNat := UInt32.le_iff_toNat_le.mp hlow
  have hhigh : c.toNat ≤ 122 := UInt32.le_iff_toNat_le.mp hhigh
  omega

/-! ## Trimming -/

theorem dropWhile_isBlank {text : List Char} (h : ∀ c ∈ text.head?, isBlank c = false) :
    text.dropWhile isBlank = text := by
  cases text with
  | nil => rfl
  | cons c rest => exact List.dropWhile_cons_of_neg (by simp [h c rfl])

theorem trimRight_append_blanks (text : List Char) {blanks : List Char}
    (hblanks : ∀ c ∈ blanks, isBlank c = true) : trimRight (text ++ blanks) = trimRight text := by
  rw [trimRight, List.reverse_append, List.dropWhile_append_of_pos (by simpa using hblanks), ← trimRight]

theorem trimRight_of_last {text : List Char} (h : ∀ c ∈ text.getLast?, isBlank c = false) :
    trimRight text = text := by
  rw [trimRight, dropWhile_isBlank (by simpa using h), List.reverse_reverse]

theorem trim_of_ends {text : List Char} (hhead : ∀ c ∈ text.head?, isBlank c = false)
    (hlast : ∀ c ∈ text.getLast?, isBlank c = false) : trim text = text := by
  rw [trim, trimLeft, dropWhile_isBlank hhead, trimRight_of_last hlast]

theorem trim_of_not_isBlank {text : List Char} (h : ∀ c ∈ text, isBlank c = false) : trim text = text :=
  trim_of_ends (fun c hc => h c (List.mem_of_mem_head? hc)) fun c hc => h c (List.mem_of_getLast? hc)

/-- Only blanks are trimmed. -/
theorem exists_trimRight_append (text : List Char) :
    ∃ blanks : List Char, (∀ c ∈ blanks, isBlank c = true) ∧ text = trimRight text ++ blanks := by
  refine ⟨(text.reverse.takeWhile isBlank).reverse, fun c hc => ?_, ?_⟩
  · exact List.mem_takeWhile_imp (List.mem_reverse.mp hc)
  · rw [trimRight, ← List.reverse_append, List.takeWhile_append_dropWhile, List.reverse_reverse]

theorem trimRight_append {text more : List Char} (h : trimRight more ≠ []) :
    trimRight (text ++ more) = text ++ trimRight more := by
  have hmore : (more.reverse.dropWhile isBlank).isEmpty = false := by
    simpa [trimRight] using h
  rw [trimRight, List.reverse_append, List.dropWhile_append, if_neg (by simp [hmore]),
    List.reverse_append, List.reverse_reverse, ← trimRight]

theorem trimLeft_append {text more : List Char} (h : trimLeft text ≠ []) :
    trimLeft (text ++ more) = trimLeft text ++ more := by
  have htext : (text.dropWhile isBlank).isEmpty = false := by
    simpa [trimLeft] using h
  rw [trimLeft, List.dropWhile_append, if_neg (by simp [htext]), ← trimLeft]

theorem getLast?_trimLeft {text : List Char} (h : trimLeft text ≠ []) :
    (trimLeft text).getLast? = text.getLast? := by
  conv_rhs => rw [← List.takeWhile_append_dropWhile (p := isBlank) (l := text)]
  rw [← trimLeft, List.getLast?_append, List.getLast?_eq_some_getLast h, Option.some_or]

/-- What is left before the blanks at the end is not all blank. -/
theorem trimLeft_trimRight_ne_nil {text : List Char} (h : trimRight text ≠ []) :
    trimLeft (trimRight text) ≠ [] := by
  intro hblank
  rw [trimLeft, List.dropWhile_eq_nil_iff] at hblank
  have hne : text.reverse.dropWhile isBlank ≠ [] := by simpa [trimRight] using h
  have hlast : (text.reverse.dropWhile isBlank).head hne ∈ trimRight text := by simp [trimRight]
  exact Bool.false_ne_true ((List.head_dropWhile_not isBlank hne).symm.trans (hblank _ hlast))

/-- Blanks at the end of a text are trimmed. -/
theorem trim_append (text : List Char) {blanks : List Char} (hblanks : ∀ c ∈ blanks, isBlank c = true) :
    trim (text ++ blanks) = trim text := by
  by_cases htext : trimLeft text = []
  · have hboth : trimLeft (text ++ blanks) = [] := by
      rw [trimLeft, List.dropWhile_eq_nil_iff] at htext ⊢
      simpa [or_imp, forall_and] using ⟨htext, hblanks⟩
    rw [trim, trim, hboth, htext]
  · rw [trim, trimLeft_append htext, trimRight_append_blanks _ hblanks, ← trim]

/-- Blanks at both ends of a text are trimmed. -/
theorem trim_of_blanks (text : List Char) {front back : List Char}
    (hfront : ∀ c ∈ front, isBlank c = true) (hback : ∀ c ∈ back, isBlank c = true) :
    trim (front ++ (text ++ back)) = trim text := by
  have hleft : trimLeft (front ++ (text ++ back)) = trimLeft (text ++ back) :=
    List.dropWhile_append_of_pos hfront
  rw [trim, hleft, ← trim, trim_append text hback]

end ChangeCapture.Text
