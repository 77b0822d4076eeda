import ChangeCapture.Proofs.Statement.Writing
import ChangeCapture.Proofs.Text.Blank

/-! # Values are read as they are written -/

namespace ChangeCapture

theorem isPlainChar_iff {c : Char} : isPlainChar c = true ↔
    Text.isBlank c = false ∧ c ≠ '\'' ∧ c ≠ '(' ∧ c ≠ ')' ∧ c ≠ ',' ∧ c ≠ ';' := by
  simp [isPlainChar, and_assoc]

theorem isNumberChar_iff {c : Char} : isNumberChar c = true ↔
    c.isDigit = true ∨ c = '+' ∨ c = '-' ∨ c = '.' ∨ c = 'e' ∨ c = 'E' := by
  simp [isNumberChar, or_assoc]

theorem isPlainChar_of_isNumberChar {c : Char} (h : isNumberChar c = true) : isPlainChar c = true := by
  rcases isNumberChar_iff.mp h with hdigit | rfl | rfl | rfl | rfl | rfl
  · have hne {other : Char} (hother : other.isDigit = false) : c ≠ other := by
      rintro rfl
      cases hdigit.symm.trans hother
    exact isPlainChar_iff.mpr ⟨Text.not_isBlank_of_isDigit hdigit, hne rfl, hne rfl, hne rfl, hne rfl, hne rfl⟩
  all_goals decide

namespace Statement

/-! ## Spans -/

theorem ValueContext.not_endsBefore (context : ValueContext) {c : Char}
    (hblank : Text.isBlank c = false) (hclose : c ≠ ')') (hcomma : c ≠ ',') (hsemicolon : c ≠ ';')
    (rest : List Char) :
    context.endsBefore (c :: rest) = false := by
  have hascii : Text.isAsciiBlank c = false :=
    Bool.eq_false_iff.mpr fun h => by simp [Text.isBlank_of_isAsciiBlank h] at hblank
  cases context <;> simp [endsBefore, beginsWithSpaced, hascii, hcomma, hclose, hsemicolon]

/-- The parts of a span with more characters before the value. -/
def prepend (taken : List Char) : List Char × List Char × Nesting → List Char × List Char × Nesting
  | (value, tail, final) => (taken ++ value, tail, final)

@[simp] theorem prepend_prepend (first second : List Char) (span : List Char × List Char × Nesting) :
    prepend first (prepend second span) = prepend (first ++ second) span := by
  simp [prepend]

/-- A span goes over the whole text whatever follows it. -/
def PassesOver (context : ValueContext) (before : Nesting) (text : List Char) (after : Nesting) :
    Prop :=
  ∀ rest, spanValue context before (text ++ rest) = prepend text (spanValue context after rest)

namespace PassesOver

variable {context : ValueContext} {before between after : Nesting} {c : Char}
  {text more : List Char} {depth : Nat}

theorem nil : PassesOver context before [] before := fun _ => rfl

theorem append (h : PassesOver context before text between)
    (hmore : PassesOver context between more after) :
    PassesOver context before (text ++ more) after := by
  intro rest
  rw [List.append_assoc, h, hmore, prepend_prepend]

theorem cons (h : PassesOver context before [c] between)
    (hmore : PassesOver context between more after) : PassesOver context before (c :: more) after :=
  h.append hmore

/-- Outside quotes a span goes on over everything but the end of a value. -/
theorem unquoted (c : Char) (depth : Nat)
    (hends : ∀ rest, depth = 0 → context.endsBefore (c :: rest) = false) :
    PassesOver context ⟨depth, false⟩ [c]
      (if c = '\'' then ⟨depth, true⟩ else if c = '(' then ⟨depth + 1, false⟩
        else if c = ')' then ⟨depth - 1, false⟩ else ⟨depth, false⟩) := by
  intro rest
  have hgo : ¬(depth = 0 ∧ context.endsBefore (c :: rest) = true) := by
    rintro ⟨hdepth, h⟩
    simp [hends rest hdepth] at h
  rw [List.singleton_append, spanValue, if_neg hgo]
  rfl

/-- In parentheses nothing ends a value. -/
theorem inner_char (hquote : c ≠ '\'') (hopen : c ≠ '(') (hclose : c ≠ ')') :
    PassesOver context ⟨depth + 1, false⟩ [c] ⟨depth + 1, false⟩ := by
  simpa [hquote, hopen, hclose] using @unquoted context c (depth + 1)

theorem close_group : PassesOver context ⟨depth + 1, false⟩ [')'] ⟨depth, false⟩ := by
  simpa using @unquoted context ')' (depth + 1)

theorem open_quote : PassesOver context ⟨depth, false⟩ ['\''] ⟨depth, true⟩ := by
  simpa using unquoted '\'' depth fun rest _ =>
    context.not_endsBefore (by decide) (by decide) (by decide) (by decide) rest

theorem open_group : PassesOver context ⟨depth, false⟩ ['('] ⟨depth + 1, false⟩ := by
  simpa using unquoted '(' depth fun rest _ =>
    context.not_endsBefore (by decide) (by decide) (by decide) (by decide) rest

theorem quoted_char (hquote : c ≠ '\'') : PassesOver context ⟨depth, true⟩ [c] ⟨depth, true⟩ := by
  intro rest
  have hstep : (c != '\'') = true := by simpa using hquote
  rw [List.singleton_append, spanValue, hstep]
  · rfl
  · simp [hquote]

theorem quoted_pair : PassesOver context ⟨depth, true⟩ ['\'', '\''] ⟨depth, true⟩ := fun _ => rfl

/-- Two quotes in a row are read as one escaped quote. Nothing changes if the first of them is
read as the end of the quoted text, for the second opens it again. -/
theorem close_quote : PassesOver context ⟨depth, true⟩ ['\''] ⟨depth, false⟩ := by
  intro rest
  cases rest with
  | nil => rfl
  | cons c rest =>
      by_cases hc : c = '\''
      · subst hc
        have hopen := @open_quote context depth rest
        have hpair := @quoted_pair context depth rest
        simp only [List.cons_append, List.nil_append] at hopen hpair ⊢
        rw [hopen, hpair, prepend_prepend]
        rfl
      · rw [List.singleton_append, spanValue]
        · rfl
        · intro _ _ htail
          exact hc (List.head_eq_of_cons_eq htail)

theorem plain (hplain : ∀ c ∈ text, isPlainChar c) : PassesOver context .outside text .outside := by
  induction text with
  | nil => exact nil
  | cons c text ih =>
      obtain ⟨hblank, hquote, hopen, hclose, hcomma, hsemicolon⟩ :=
        isPlainChar_iff.mp (hplain c List.mem_cons_self)
      have hc := unquoted c 0 fun rest _ =>
        context.not_endsBefore hblank hclose hcomma hsemicolon rest
      simp only [hquote, hopen, hclose, if_false] at hc
      exact hc.cons (ih fun d hd => hplain d (List.mem_cons_of_mem _ hd))

theorem quoted (hbody : '\'' ∉ text) : PassesOver context ⟨depth, true⟩ text ⟨depth, true⟩ := by
  induction text with
  | nil => exact nil
  | cons c text ih =>
      obtain ⟨hc, htext⟩ := not_or.mp (mt List.mem_cons.mpr hbody)
      exact (quoted_char (Ne.symm hc)).cons (ih htext)

theorem escaped (content : List Char) :
    PassesOver context ⟨depth, true⟩ (Literal.escape content) ⟨depth, true⟩ := by
  induction content with
  | nil => exact nil
  | cons c content ih =>
      by_cases hc : c = '\''
      · subst hc
        exact quoted_pair.append ih
      · rw [Literal.escape, if_neg hc]
        exact (quoted_char hc).cons ih

theorem balanced (htext : Balanced text) :
    ∀ depth, PassesOver context ⟨depth + 1, false⟩ text ⟨depth + 1, false⟩ := by
  induction htext with
  | nil => exact fun _ => nil
  | char hquote hopen hclose _ ih => exact fun depth => (inner_char hquote hopen hclose).cons (ih depth)
  | quoted hbody _ ih =>
      exact fun depth => open_quote.cons ((quoted hbody).append (close_quote.cons (ih depth)))
  | group _ _ ihinner ihrest =>
      exact fun depth =>
        open_group.cons ((ihinner (depth + 1)).append (close_group.cons (ihrest depth)))

/-- The blank in the text for what has no text stands before neither of the words that end a value. -/
theorem unsupported : PassesOver context .outside ValueToken.unsupportedText.toList .outside := by
  have hblank : PassesOver context .outside [' ', 'T'] .outside := by
    intro rest
    have hends : context.endsBefore (' ' :: 'T' :: rest) = false := by
      cases context <;>
        simp [ValueContext.endsBefore, beginsWithSpaced, Text.isAsciiBlank, Input.afterKeyword?,
          Text.lowerAscii]
    have htype := @plain context ['T'] (List.all_eq_true.mp (by decide)) rest
    change spanValue context ⟨0, false⟩ (' ' :: 'T' :: rest) = prepend [' '] (prepend ['T'] _)
    rw [spanValue, if_neg (by simp [hends]), ← htype]
    rfl
  have hfirst : PassesOver context .outside "Unsupported".toList .outside :=
    plain (List.all_eq_true.mp (by decide))
  have hlast : PassesOver context .outside "ype".toList .outside :=
    plain (List.all_eq_true.mp (by decide))
  exact (hfirst.append hblank).append hlast

end PassesOver

theorem passesOver_written {token : ValueToken} {text : String} (h : token.Written text)
    (context : ValueContext) : PassesOver context .outside text.toList .outside := by
  cases h with
  | null => exact .plain (List.all_eq_true.mp (by decide))
  | unsupported => exact .unsupported
  | literal content =>
      simp only [String.toList_append, String.toList_ofList]
      exact (PassesOver.open_quote.append (.escaped content)).append .close_quote
  | number _ hchars => exact .plain fun c hc => isPlainChar_of_isNumberChar (hchars c hc)
  | call hname harguments =>
      rw [String.toList_ofList]
      exact (PassesOver.plain hname).append
        (PassesOver.open_group.cons ((PassesOver.balanced harguments 0).append .close_group))

theorem spanValue_of_passesOver {context : ValueContext} {text tail : List Char}
    (h : PassesOver context .outside text .outside)
    (htail : tail = [] ∨ context.endsBefore tail = true) :
    spanValue context .outside (text ++ tail) = (text, tail, .outside) := by
  have hstop : spanValue context .outside tail = ([], tail, .outside) := by
    cases tail with
    | nil => rfl
    | cons c rest =>
        have hends := htail.resolve_left (List.cons_ne_nil _ _)
        rw [Nesting.outside, spanValue, if_pos ⟨rfl, hends⟩, Nesting.outside]
  rw [h, hstop, prepend, List.append_nil]

end Statement

/-! ## Classes -/

namespace ValueToken

theorem bodyBeforeQuote_escape (content : List Char) :
    bodyBeforeQuote? (Literal.escape content ++ ['\'']) = some (Literal.escape content) := by
  induction content with
  | nil => rfl
  | cons c content ih =>
      by_cases hc : c = '\''
      · subst hc
        simp [Literal.escape, bodyBeforeQuote?, ih]
      · rw [Literal.escape, if_neg hc, List.cons_append, bodyBeforeQuote?]
        · simp [hc, ih]
        · simp [hc]
        · simp [hc]

theorem classify_literal (content : List Char) :
    classify ('\'' :: (Literal.escape content ++ ['\'']))
      = .literal (String.ofList (Literal.escape content)) := by
  have hne (word : String) (hword : word.toList.head? ≠ some '\'') :
      String.ofList ('\'' :: (Literal.escape content ++ ['\''])) ≠ word := by
    rintro rfl
    simp at hword
  rw [classify, if_neg (hne _ (by decide)), if_neg (hne _ (by decide)), literalBody?,
    bodyBeforeQuote_escape]

/-- What is not one of the two fixed words and does not start with a quote is kept as it is. -/
theorem classify_expression {text : List Char} (hnull : String.ofList text ≠ "NULL")
    (hunsupported : String.ofList text ≠ unsupportedText) (hhead : text.head? ≠ some '\'') :
    classify text = .expression (String.ofList text) := by
  have hbody : literalBody? text = none := by
    rw [literalBody?.eq_def]
    split
    · simp at hhead
    · rfl
  rw [classify, if_neg hnull, if_neg hunsupported, hbody]

theorem classify_written {token : ValueToken} {text : String} (h : token.Written text) :
    classify text.toList = token := by
  cases h with
  | null => decide
  | unsupported => decide
  | literal content => simpa using classify_literal content
  | number _ hchars =>
      have hne (word : String) (hword : word.toList.all isNumberChar = false) : text ≠ word := by
        rintro rfl
        rw [List.all_eq_true.mpr hchars] at hword
        cases hword
      have hhead : text.toList.head? ≠ some '\'' := fun hhead =>
        absurd (hchars _ (List.mem_of_head? hhead)) (by decide)
      rw [classify_expression _ _ hhead, String.ofList_toList]
      · rw [String.ofList_toList]
        exact hne _ (by decide)
      · rw [String.ofList_toList]
        exact hne _ (by decide)
  | @call name arguments hname _ =>
      have hne (word : String) (hword : '(' ∉ word.toList) :
          String.ofList (name ++ '(' :: (arguments ++ [')'])) ≠ word := by
        rintro rfl
        simp at hword
      have hhead : (name ++ '(' :: (arguments ++ [')'])).head? ≠ some '\'' := by
        cases name with
        | nil => simp
        | cons c name =>
            have hquote := (isPlainChar_iff.mp (hname c List.mem_cons_self)).2.1
            simpa using hquote
      rw [String.toList_ofList]
      exact classify_expression (hne _ (by decide)) (hne _ (by decide)) hhead

end ValueToken

/-! ## Values -/

namespace Statement

/-- The text ends in a character that stays when blanks and a semicolon are cut off. -/
def EndsFirmly (text : List Char) : Prop :=
  ∃ c ∈ text.getLast?, Text.isBlank c = false ∧ c ≠ ';'

theorem EndsFirmly.append {text : List Char} (h : EndsFirmly text) (before : List Char) :
    EndsFirmly (before ++ text) := by
  obtain ⟨c, hlast, hc⟩ := h
  exact ⟨c, by simp [List.getLast?_append, Option.mem_def.mp hlast], hc⟩

theorem endsFirmly_concat {c : Char} (hblank : Text.isBlank c = false) (hsemicolon : c ≠ ';')
    (before : List Char) : EndsFirmly (before ++ [c]) :=
  EndsFirmly.append ⟨c, rfl, hblank, hsemicolon⟩ before

theorem endsFirmly_plain {text : List Char} (hne : text ≠ []) (h : ∀ c ∈ text, isPlainChar c) :
    EndsFirmly text := by
  have hlast := isPlainChar_iff.mp (h _ (List.getLast_mem hne))
  exact ⟨text.getLast hne, List.getLast?_eq_some_getLast hne, hlast.1, hlast.2.2.2.2.2⟩

theorem endsFirmly_written {token : ValueToken} {text : String} (h : token.Written text) :
    EndsFirmly text.toList := by
  cases h with
  | null => exact endsFirmly_plain (by decide) (List.all_eq_true.mp (by decide))
  | unsupported =>
      have hlast : EndsFirmly "Type".toList :=
        endsFirmly_plain (by decide) (List.all_eq_true.mp (by decide))
      exact hlast.append "Unsupported ".toList
  | literal content =>
      rw [String.toList_append]
      exact endsFirmly_concat (by decide) (by decide) _
  | number hne hchars =>
      exact endsFirmly_plain (mt String.toList_eq_nil_iff.mp hne) fun c hc =>
        isPlainChar_of_isNumberChar (hchars c hc)
  | call _ _ =>
      rw [String.toList_ofList, ← List.cons_append, ← List.append_assoc]
      exact endsFirmly_concat (by decide) (by decide) _

theorem head_written {token : ValueToken} {text : String} (h : token.Written text) :
    ∃ c rest, text.toList = c :: rest ∧ Text.isBlank c = false := by
  cases h with
  | null => exact ⟨'N', "ULL".toList, by decide, by decide⟩
  | unsupported => exact ⟨'U', "nsupported Type".toList, by decide, by decide⟩
  | literal content => exact ⟨'\'', Literal.escape content ++ ['\''], by simp, by decide⟩
  | number hne hchars =>
      obtain ⟨c, rest, hrest⟩ := List.exists_cons_of_ne_nil (mt String.toList_eq_nil_iff.mp hne)
      have hc := hchars c (hrest ▸ List.mem_cons_self)
      exact ⟨c, rest, hrest, (isPlainChar_iff.mp (isPlainChar_of_isNumberChar hc)).1⟩
  | @call name arguments hname _ =>
      rw [String.toList_ofList]
      cases name with
      | nil => exact ⟨'(', _, rfl, by decide⟩
      | cons c name => exact ⟨c, _, rfl, (isPlainChar_iff.mp (hname c List.mem_cons_self)).1⟩

/-- The result holds a value, and `tail` is left to read. -/
def Yields {α : Type} (result : Except Fault (α × Input)) (value : α) (tail : List Char) : Prop :=
  ∃ next, result = .ok (value, next) ∧ next.rest = tail

theorem Input.value_written {input : Input} {context : ValueContext} {token : ValueToken}
    {text : String} {tail : List Char} (h : token.Written text)
    (hrest : input.rest = text.toList ++ tail) (htail : tail = [] ∨ context.endsBefore tail = true) :
    Yields (input.value context) token tail := by
  have hspan := spanValue_of_passesOver (passesOver_written h context) htail
  obtain ⟨c, hlast, hblank, _⟩ := endsFirmly_written h
  obtain ⟨first, rest, hfirst, hfirstBlank⟩ := head_written h
  have htrim : Text.trim text.toList = text.toList := by
    refine Text.trim_of_ends (fun d hd => ?_) fun d hd => ?_
    · rw [hfirst, List.head?_cons, Option.mem_some_iff] at hd
      exact hd ▸ hfirstBlank
    · exact Option.mem_unique hlast hd ▸ hblank
  have hne : text.toList.isEmpty = false := by rw [hfirst, List.isEmpty_cons]
  refine ⟨input.advance text.toList tail, ?_, rfl⟩
  simp only [Input.value, hrest, hspan, htrim, hne, ValueToken.classify_written h]
  rfl

end Statement

end ChangeCapture
