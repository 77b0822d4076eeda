import ChangeCapture.Proofs.Statement.Writing
import ChangeCapture.Proofs.Value.Literal
import ChangeCapture.Value.Default

/-! # Parentheses that belong together

The parenthesis at the front of a text is closed by its last character if all between them is balanced. -/

namespace ChangeCapture

namespace DefaultExpression

variable {depth : Nat} {c : Char} {text : List Char}

theorem closesAtEnd_plain (quoted : Bool) (hquote : c ≠ '\'') (hopen : c ≠ '(') (hclose : c ≠ ')')
    (rest : List Char) : closesAtEnd depth quoted (c :: rest) = closesAtEnd depth quoted rest := by
  rw [closesAtEnd, if_neg hquote, if_neg (fun h => hopen h.1), if_neg (fun h => hclose h.1)]

/-- Only a quote counts in quotes. -/
theorem closesAtEnd_quoted (hbody : '\'' ∉ text) (rest : List Char) :
    closesAtEnd depth true (text ++ '\'' :: rest) = closesAtEnd depth false rest := by
  induction text with
  | nil => rfl
  | cons c text ih =>
      obtain ⟨hc, htext⟩ := not_or.mp (mt List.mem_cons.mpr hbody)
      rw [List.cons_append, closesAtEnd, if_neg (Ne.symm hc)]
      simpa using ih htext

/-- A balanced text changes nothing at any depth. -/
theorem closesAtEnd_append (h : Balanced text) (depth : Nat) (rest : List Char) :
    closesAtEnd (depth + 1) false (text ++ rest) = closesAtEnd (depth + 1) false rest := by
  induction h generalizing depth rest with
  | nil => rfl
  | char hquote hopen hclose _ ih =>
      rw [List.cons_append, closesAtEnd_plain false hquote hopen hclose, ih]
  | quoted hbody _ ih =>
      rw [List.cons_append, List.append_assoc, List.cons_append]
      exact (closesAtEnd_quoted hbody _).trans (ih depth rest)
  | group _ _ ihinner ihrest =>
      rw [List.cons_append, List.append_assoc, List.cons_append]
      exact (ihinner (depth + 1) _).trans (ihrest depth rest)

theorem exists_quote_of_closesAtEnd (h : closesAtEnd depth true text = true) :
    ∃ body rest, '\'' ∉ body ∧ text = body ++ '\'' :: rest ∧ closesAtEnd depth false rest = true := by
  induction text with
  | nil => cases h
  | cons c text ih =>
      by_cases hc : c = '\''
      · subst hc
        exact ⟨[], text, List.not_mem_nil, rfl, h⟩
      · rw [closesAtEnd, if_neg hc] at h
        obtain ⟨body, rest, hbody, rfl, hrest⟩ := ih (by simpa using h)
        exact ⟨c :: body, rest, by simpa using ⟨Ne.symm hc, hbody⟩, rfl, hrest⟩

/-- What stands before the parenthesis that closes the innermost open one is balanced. -/
theorem exists_balanced_of_closesAtEnd (h : closesAtEnd (depth + 1) false text = true) :
    ∃ inner rest, Balanced inner ∧ text = inner ++ ')' :: rest ∧
      (if depth = 0 then rest = [] else closesAtEnd depth false rest = true) := by
  induction hlength : text.length using Nat.strongRecOn generalizing depth text with
  | _ length ih =>
      subst hlength
      match text with
      | [] => cases h
      | c :: text =>
          by_cases hquote : c = '\''
          · subst hquote
            obtain ⟨body, rest, hbody, rfl, hrest⟩ := @exists_quote_of_closesAtEnd (depth + 1) text h
            obtain ⟨inner, last, hinner, rfl, hlast⟩ := ih _ (by simp; omega) hrest rfl
            exact ⟨_, last, .quoted hbody hinner, by simp, hlast⟩
          by_cases hopen : c = '('
          · subst hopen
            obtain ⟨group, rest, hgroup, rfl, hrest⟩ :=
              @ih text.length (by simp) (depth + 1) text h rfl
            obtain ⟨inner, last, hinner, rfl, hlast⟩ := ih _ (by simp; omega) hrest rfl
            exact ⟨_, last, .group hgroup hinner, by simp, hlast⟩
          by_cases hclose : c = ')'
          · subst hclose
            refine ⟨[], text, .nil, rfl, ?_⟩
            cases depth with
            | zero => exact List.isEmpty_iff.mp h
            | succ depth => exact h
          · rw [closesAtEnd_plain false hquote hopen hclose] at h
            obtain ⟨inner, last, hinner, rfl, hlast⟩ := ih text.length (by simp) h rfl
            exact ⟨c :: inner, last, .char hquote hopen hclose hinner, rfl, hlast⟩

/-- The parenthesis at the front is closed by the one at the end if all between them is balanced. -/
theorem closesAtEnd_iff_balanced {inner : List Char} :
    closesAtEnd 0 false ('(' :: (inner ++ [')'])) = true ↔ Balanced inner := by
  constructor
  · intro h
    obtain ⟨front, last, hfront, hinner, hlast⟩ :=
      @exists_balanced_of_closesAtEnd 0 (inner ++ [')']) h
    rw [if_pos rfl] at hlast
    rw [hlast] at hinner
    rwa [List.append_cancel_right hinner]
  · intro h
    exact closesAtEnd_append h 0 [')']

/-- A literal is passed over, whichever quotes it holds. -/
theorem closesAtEnd_escape (argument : List Char) (rest : List Char) :
    closesAtEnd depth true (Literal.escape argument ++ '\'' :: rest) = closesAtEnd depth false rest := by
  induction argument with
  | nil => rfl
  | cons c argument ih =>
      by_cases hc : c = '\''
      · subst hc
        exact ih
      · rw [Literal.escape_cons_of_ne hc, List.cons_append, closesAtEnd, if_neg hc]
        simpa using ih

/-- A literal is balanced, whatever it holds. -/
theorem balanced_quote (text : List Char) : Balanced (Literal.quote text) := by
  rw [← closesAtEnd_iff_balanced, Literal.quote, List.cons_append, List.append_assoc]
  exact closesAtEnd_escape text [')']

end DefaultExpression

end ChangeCapture
