import ChangeCapture.Value.Literal
import Mathlib.Logic.Basic

/-! # Quoted literals are read as they are written -/

namespace ChangeCapture.Literal

/-- The text in quotes. -/
def quote (text : List Char) : List Char := '\'' :: (escape text ++ ['\''])

theorem escape_cons_of_ne {c : Char} (h : c ≠ '\'') (rest : List Char) :
    escape (c :: rest) = c :: escape rest := if_neg h

theorem escape_append (text more : List Char) : escape (text ++ more) = escape text ++ escape more := by
  induction text with
  | nil => rfl
  | cons c text ih =>
      by_cases hc : c = '\''
      · subst hc
        exact congrArg ('\'' :: '\'' :: ·) ih
      · rw [List.cons_append, escape_cons_of_ne hc, escape_cons_of_ne hc, ih, List.cons_append]

theorem escape_of_not_mem {text : List Char} (h : '\'' ∉ text) : escape text = text := by
  induction text with
  | nil => rfl
  | cons c text ih =>
      obtain ⟨hc, htext⟩ := not_or.mp (mt List.mem_cons.mpr h)
      rw [escape_cons_of_ne (Ne.symm hc), ih htext]

theorem length_le_escape (text : List Char) : text.length ≤ (escape text).length := by
  induction text with
  | nil => exact Nat.le_refl 0
  | cons c text ih =>
      rw [escape]
      split <;> simp only [List.length_cons] <;> omega

theorem unescape_cons_of_ne {c : Char} (h : c ≠ '\'') (rest : List Char) :
    unescape (c :: rest) = c :: unescape rest := by
  rw [unescape]
  exact fun _ hquote => absurd hquote h

/-- A text comes back from its escaped form, whatever comes next. -/
theorem unescape_escape_append (text rest : List Char) :
    unescape (escape text ++ rest) = text ++ unescape rest := by
  induction text with
  | nil => rfl
  | cons c text ih =>
      by_cases hc : c = '\''
      · subst hc
        exact congrArg ('\'' :: ·) ih
      · rw [escape_cons_of_ne hc, List.cons_append, unescape_cons_of_ne hc, ih, List.cons_append]

theorem unescape_escape (text : List Char) : unescape (escape text) = text := by
  simpa [unescape] using unescape_escape_append text []

/-- A text without quotes stays as it is. -/
theorem unescape_of_not_mem {text : List Char} (h : '\'' ∉ text) : unescape text = text := by
  have hround := unescape_escape text
  rwa [escape_of_not_mem h] at hround

/-- A quote before an escaped text stays. -/
theorem unescape_quote_escape (text : List Char) : unescape ('\'' :: escape text) = '\'' :: text := by
  induction text with
  | nil => rfl
  | cons c text ih =>
      by_cases hc : c = '\''
      · subst hc
        exact congrArg ('\'' :: ·) ih
      · rw [escape_cons_of_ne hc, unescape, unescape_cons_of_ne hc, unescape_escape]
        exact fun _ _ heq => absurd (List.cons.inj heq).1 hc

/-- A literal is read up to the quote behind it, whatever comes next but another quote. -/
theorem readBody?_escape (text : List Char) {tail : List Char} (htail : tail.head? ≠ some '\'') :
    readBody? (escape text ++ '\'' :: tail) = some text := by
  induction text with
  | nil =>
      rw [escape, List.nil_append, readBody?]
      rintro rest rfl
      exact htail rfl
  | cons c text ih =>
      by_cases hc : c = '\''
      · subst hc
        exact congrArg (Option.map ('\'' :: ·)) ih
      · rw [escape_cons_of_ne hc, List.cons_append, readBody?, ih, Option.map_some]
        · exact fun _ hquote => absurd hquote hc
        · exact hc

/-- What is read stands in front in its escaped form. -/
theorem exists_tail_of_readBody? {source text : List Char} (h : readBody? source = some text) :
    ∃ tail, tail.head? ≠ some '\'' ∧ source = escape text ++ '\'' :: tail := by
  fun_induction readBody? source generalizing text with
  | case1 => cases h
  | case2 rest ih =>
      obtain ⟨body, hbody, rfl⟩ := Option.map_eq_some_iff.mp h
      obtain ⟨tail, htail, rfl⟩ := ih hbody
      exact ⟨tail, htail, rfl⟩
  | case3 tail hpair =>
      cases h
      refine ⟨tail, fun hhead => ?_, rfl⟩
      obtain ⟨rest, rfl⟩ := List.head?_eq_some_iff.mp hhead
      exact hpair rest rfl
  | case4 c rest _ hc ih =>
      obtain ⟨body, hbody, rfl⟩ := Option.map_eq_some_iff.mp h
      obtain ⟨tail, htail, rfl⟩ := ih hbody
      exact ⟨tail, htail, by rw [escape_cons_of_ne hc, List.cons_append]⟩

end ChangeCapture.Literal
