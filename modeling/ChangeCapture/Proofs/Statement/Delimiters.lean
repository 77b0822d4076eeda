import ChangeCapture.Proofs.Statement.Reading
import ChangeCapture.Proofs.Text.Blank

/-! # What ends a value

The delimiters of each context, given by their form and not by a test. -/

namespace ChangeCapture.Statement

/-! ## Words -/

/-- A keyword is found exactly if it stands in front in any case and no character goes on with it. -/
theorem Input.afterKeyword?_eq_some {keyword : String} {text rest : List Char} :
    afterKeyword? keyword text = some rest ↔ ∃ written : List Char,
      Text.lowerAscii written = keyword.toList ∧ text = written ++ rest ∧
        ∀ c ∈ rest.head?, isWordChar c = false := by
  constructor
  · intro h
    unfold afterKeyword? at h
    dsimp only at h
    split_ifs at h with hwritten hgoes
    cases h
    refine ⟨_, hwritten, (List.take_append_drop _ text).symm, fun c hc => ?_⟩
    rw [Option.mem_def.mp hc] at hgoes
    exact Bool.eq_false_iff.mpr hgoes
  · rintro ⟨written, hwritten, rfl, hrest⟩
    have hlength : keyword.toList.length = written.length := by
      rw [← hwritten, Text.lowerAscii, List.length_map]
    have hstop : rest.head?.any isWordChar = false := by
      cases rest with
      | nil => rfl
      | cons c rest => exact hrest c rfl
    simp [afterKeyword?, hlength, hwritten, hstop]

/-- Blanks, the word in any case, and a blank or nothing behind it. -/
def SpacedWord (word : String) (text : List Char) : Prop :=
  ∃ blanks written rest : List Char, text = blanks ++ (written ++ rest) ∧ blanks ≠ [] ∧
    (∀ c ∈ blanks, Text.isAsciiBlank c = true) ∧ Text.lowerAscii written = word.toList ∧
    ∀ c ∈ rest.head?, Text.isAsciiBlank c = true

/-- A word that begins with no blank is found behind the blanks. -/
theorem beginsWithSpaced_iff {word : String} (hne : word ≠ "")
    (hword : word.toList.head?.any Text.isBlank = false) {text : List Char} :
    beginsWithSpaced word text = true ↔ SpacedWord word text := by
  constructor
  · intro h
    obtain ⟨hhead, hrest⟩ := Bool.and_eq_true_iff.mp h
    split at hrest
    · rename_i rest hafter
      obtain ⟨written, hwritten, htext, _⟩ := Input.afterKeyword?_eq_some.mp hafter
      refine ⟨text.takeWhile Text.isAsciiBlank, written, rest, ?_, ?_, ?_, hwritten, ?_⟩
      · rw [← htext, List.takeWhile_append_dropWhile]
      · cases text with
        | nil => simp at hhead
        | cons c text =>
            have hc : Text.isAsciiBlank c = true := hhead
            simp [hc]
      · exact fun c hc => List.mem_takeWhile_imp hc
      · intro c hc
        obtain ⟨more, rfl⟩ := List.head?_eq_some_iff.mp hc
        simpa using hrest
    · cases hrest
  · rintro ⟨blanks, written, rest, rfl, hblanks, hall, hwritten, hrest⟩
    obtain ⟨b, others, rfl⟩ := List.exists_cons_of_ne_nil hblanks
    have hafter : Input.afterKeyword? word (written ++ rest) = some rest :=
      Input.afterKeyword?_eq_some.mpr ⟨written, hwritten, rfl, fun c hc =>
        Input.not_isWordChar_of_isAsciiBlank (hrest c hc)⟩
    have hdrop : (written ++ rest).dropWhile Text.isAsciiBlank = written ++ rest := by
      cases written with
      | nil => exact absurd (String.toList_eq_nil_iff.mp hwritten.symm) hne
      | cons c written =>
          refine List.dropWhile_cons_of_neg fun hblank => ?_
          have hc := Text.isBlank_of_isAsciiBlank hblank
          rw [← hwritten, Text.lowerAscii, List.map_cons, Text.toLower_of_isBlank hc] at hword
          cases hc.symm.trans hword
    have hbehind : (rest.isEmpty || rest.head?.any Text.isAsciiBlank) = true := by
      cases rest with
      | nil => rfl
      | cons c rest => exact hrest c rfl
    simp only [beginsWithSpaced, List.dropWhile_append_of_pos hall, hdrop, hafter, hbehind, Bool.and_true]
    exact hall b List.mem_cons_self

/-! ## Delimiters -/

/-- The text begins with what ends a value in the context. -/
inductive ValueContext.Delimits : ValueContext → List Char → Prop where
  | semicolon {context : ValueContext} {rest : List Char} : Delimits context (';' :: rest)
  | nextOfTuple {rest : List Char} : Delimits .tuple (',' :: rest)
  | endOfTuple {rest : List Char} : Delimits .tuple (')' :: rest)
  | nextAssignment {rest : List Char} : Delimits .setClause (',' :: rest)
  | condition {text : List Char} (htext : SpacedWord "where" text) : Delimits .setClause text
  | nextPredicate {text : List Char} (htext : SpacedWord "and" text) : Delimits .whereClause text

/-- The test for the end of a value finds the delimiters and nothing else. -/
theorem ValueContext.endsBefore_iff {context : ValueContext} {text : List Char} :
    context.endsBefore text = true ↔ context.Delimits text := by
  have hwhere := @beginsWithSpaced_iff "where" (by decide) (by decide) text
  have hand := @beginsWithSpaced_iff "and" (by decide) (by decide) text
  constructor
  · intro h
    cases context <;>
      simp only [endsBefore, Bool.or_eq_true, beq_iff_eq, hwhere, hand, List.head?_eq_some_iff] at h
    · rcases h with ⟨rest, rfl⟩ | ⟨rest, rfl⟩ | ⟨rest, rfl⟩
      · exact .semicolon
      · exact .nextOfTuple
      · exact .endOfTuple
    · rcases h with ⟨rest, rfl⟩ | ⟨rest, rfl⟩ | htext
      · exact .semicolon
      · exact .nextAssignment
      · exact .condition htext
    · rcases h with ⟨rest, rfl⟩ | htext
      · exact .semicolon
      · exact .nextPredicate htext
  · intro h
    cases h with
    | semicolon | nextOfTuple | endOfTuple | nextAssignment => simp [endsBefore]
    | condition htext => simp [endsBefore, hwhere.mpr htext]
    | nextPredicate htext => simp [endsBefore, hand.mpr htext]

end ChangeCapture.Statement
