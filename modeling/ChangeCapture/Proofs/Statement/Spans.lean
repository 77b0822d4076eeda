import ChangeCapture.Proofs.Statement.Delimiters
import ChangeCapture.Proofs.Value.QuotedDefaults

/-! # Where values end

A value goes on to the first delimiter that stands in no quotes and in no parentheses. What is open at a
place is counted here quote by quote and parenthesis by parenthesis, without looking ahead for a second
quote. -/

namespace ChangeCapture

/-! ## Quotes in pairs -/

namespace Literal

/-- Quotes stand in adjacent pairs only. -/
inductive Paired : List Char → Prop where
  | nil : Paired []
  | pair {rest : List Char} (hrest : Paired rest) : Paired ('\'' :: '\'' :: rest)
  | char {c : Char} {rest : List Char} (hc : c ≠ '\'') (hrest : Paired rest) : Paired (c :: rest)

theorem paired_escape (content : List Char) : Paired (escape content) := by
  induction content with
  | nil => exact .nil
  | cons c content ih =>
      by_cases hc : c = '\''
      · subst hc
        exact .pair ih
      · rw [escape_cons_of_ne hc]
        exact .char hc ih

/-- A text with its quotes in pairs is the escaped form of the text that is read from it. -/
theorem Paired.escape_unescape {text : List Char} (h : Paired text) : escape (unescape text) = text := by
  induction h with
  | nil => rfl
  | pair _ ih => exact congrArg ('\'' :: '\'' :: ·) ih
  | char hc _ ih => rw [unescape_cons_of_ne hc, escape_cons_of_ne hc, ih]

end Literal

theorem ValueToken.classify_eq_literal {token : List Char} {body : String} :
    classify token = .literal body ↔
      token = '\'' :: (body.toList ++ ['\'']) ∧ Literal.Paired body.toList := by
  constructor
  · intro h
    unfold classify at h
    split_ifs at h
    split at h
    · rename_i content hbody
      cases h
      obtain ⟨htoken, text, rfl⟩ := literalBody?_eq_some.mp hbody
      rw [String.toList_ofList]
      exact ⟨htoken, Literal.paired_escape text⟩
    · cases h
  · rintro ⟨rfl, hpaired⟩
    rw [← hpaired.escape_unescape, classify_literal, hpaired.escape_unescape, String.ofList_toList]

namespace Statement

/-! ## What is open -/

namespace Nesting

/-- What is open behind a character. A quote opens or closes; a parenthesis counts outside quotes. -/
def step (nesting : Nesting) (c : Char) : Nesting :=
  if c = '\'' then { nesting with quoted := !nesting.quoted }
  else if nesting.quoted then nesting
  else if c = '(' then { nesting with depth := nesting.depth + 1 }
  else if c = ')' then { nesting with depth := nesting.depth - 1 }
  else nesting

/-- What is open behind a text. -/
def after (nesting : Nesting) (text : List Char) : Nesting := text.foldl step nesting

variable {nesting : Nesting} {depth : Nat} {c : Char} {text : List Char}

@[simp] theorem after_nil (nesting : Nesting) : nesting.after [] = nesting := rfl

@[simp] theorem after_cons (nesting : Nesting) (c : Char) (text : List Char) :
    nesting.after (c :: text) = (nesting.step c).after text := rfl

@[simp] theorem after_append (nesting : Nesting) (text more : List Char) :
    nesting.after (text ++ more) = (nesting.after text).after more := List.foldl_append

theorem step_quoted (depth : Nat) (c : Char) : step ⟨depth, true⟩ c = ⟨depth, c != '\''⟩ := by
  by_cases hc : c = '\''
  · subst hc
    rfl
  · simp [step, hc]

theorem step_unquoted (depth : Nat) (c : Char) : step ⟨depth, false⟩ c =
    if c = '\'' then ⟨depth, true⟩ else if c = '(' then ⟨depth + 1, false⟩
      else if c = ')' then ⟨depth - 1, false⟩ else ⟨depth, false⟩ := by
  simp [step]

end Nesting

/-! ## Spans -/

section Spans

variable {context : ValueContext} {nesting final : Nesting} {text value tail : List Char}

/-- What a span leaves open is what its characters leave open. -/
theorem after_of_spanValue (h : spanValue context nesting text = (value, tail, final)) :
    nesting.after value = final := by
  fun_induction spanValue context nesting text generalizing value tail final with
  | case1 =>
      cases h
      rfl
  | case2 depth rest front last opened hspan ih =>
      cases h
      -- the two quotes of a pair leave open what was open before them
      have hfront : Nesting.after ⟨depth, true⟩ front = opened := ih hspan
      exact hfront
  | case3 depth c rest _ front last opened hspan ih =>
      cases h
      rw [Nesting.after_cons, Nesting.step_quoted]
      exact ih hspan
  | case4 depth c rest hends =>
      cases h
      rw [hends.1]
      rfl
  | case5 depth c rest _ next front last =>
      rename_i hspan ih
      cases h
      rw [Nesting.after_cons, Nesting.step_unquoted]
      exact ih hspan

/-- A span ends with the text or before a delimiter. -/
theorem stops_of_spanValue (h : spanValue context nesting text = (value, tail, final)) :
    tail = [] ∨ context.Delimits tail := by
  fun_induction spanValue context nesting text generalizing value tail final with
  | case1 =>
      cases h
      exact .inl rfl
  | case2 | case3 | case5 =>
      rename_i hspan ih
      cases h
      exact ih hspan
  | case4 depth c rest hends =>
      cases h
      exact .inr (ValueContext.endsBefore_iff.mp hends.2)

theorem ValueContext.not_delimits_quote (context : ValueContext) (rest : List Char) :
    ¬ context.Delimits ('\'' :: rest) := by
  rw [← endsBefore_iff, context.not_endsBefore (by decide) (by decide) (by decide) (by decide)]
  exact Bool.false_ne_true

/-- No delimiter stands in a span at a place that nothing encloses. -/
theorem not_delimits_of_spanValue (h : spanValue context nesting text = (value, tail, final)) :
    ∀ before after, value = before ++ after → after ≠ [] → nesting.after before = .outside →
      ¬ context.Delimits (after ++ tail) := by
  fun_induction spanValue context nesting text generalizing value tail final with
  | case1 | case4 =>
      cases h
      rintro before after hvalue hafter
      exact absurd (List.append_eq_nil_iff.mp hvalue.symm).2 hafter
  | case2 depth rest front last opened hspan ih =>
      cases h
      rintro before after hvalue hafter hplace
      rcases before with _ | ⟨_, _ | ⟨_, before⟩⟩
      · cases hplace
      · -- the place between the two quotes of a pair counts as outside, and no delimiter is a quote
        cases hvalue
        exact context.not_delimits_quote _
      · obtain ⟨rfl, hrest⟩ := List.cons.inj hvalue
        obtain ⟨rfl, hfront⟩ := List.cons.inj hrest
        exact ih hspan before after hfront hafter hplace
  | case3 depth c rest _ front last opened hspan ih =>
      cases h
      rintro before after hvalue hafter hplace
      cases before with
      | nil => cases hplace
      | cons d before =>
          obtain ⟨rfl, hfront⟩ := List.cons.inj hvalue
          rw [Nesting.after_cons, Nesting.step_quoted] at hplace
          exact ih hspan before after hfront hafter hplace
  | case5 depth c rest hgo next front last =>
      rename_i hspan ih
      cases h
      rintro before after hvalue hafter hplace
      cases before with
      | nil =>
          have hrest : front ++ last = rest := by
            have hsplit := spanValue_append context next rest
            rwa [hspan] at hsplit
          have hdepth : depth = 0 := congrArg Nesting.depth hplace
          rw [← List.nil_append after, ← hvalue, List.cons_append, hrest, ← ValueContext.endsBefore_iff]
          exact fun hends => hgo ⟨hdepth, hends⟩
      | cons d before =>
          obtain ⟨rfl, hfront⟩ := List.cons.inj hvalue
          rw [Nesting.after_cons, Nesting.step_unquoted] at hplace
          exact ih hspan before after hfront hafter hplace

end Spans

/-! ## Closing -/

/-- Each literal that is opened is closed by a quote that stands alone, and each parenthesis that is opened
outside quotes by one behind a balanced text. -/
structure ClosesAll (text : List Char) : Prop where
  literals : ∀ before after, text = before ++ '\'' :: after →
    (Nesting.outside.after before).quoted = false →
      ∃ content rest, rest.head? ≠ some '\'' ∧ after = Literal.escape content ++ '\'' :: rest
  groups : ∀ before after, text = before ++ '(' :: after →
    (Nesting.outside.after before).quoted = false →
      ∃ inner rest, Balanced inner ∧ after = inner ++ ')' :: rest

section Closing

variable {depth base : Nat} {quoted : Bool} {text : List Char}

/-- A text in which no quote stands alone leaves a literal open. -/
theorem quoted_of_readBody? (h : Literal.readBody? text = none) :
    (Nesting.after ⟨depth, true⟩ text).quoted = true := by
  fun_induction Literal.readBody? text with
  | case1 => rfl
  | case2 rest ih => exact ih (Option.map_eq_none_iff.mp h)
  | case3 => cases h
  | case4 c rest hpair hc ih =>
      have hplain : (c != '\'') = true := by simpa using hc
      rw [Nesting.after_cons, Nesting.step_quoted, hplain]
      exact ih (Option.map_eq_none_iff.mp h)

/-- A text that closes more parentheses than it opens closes the first of them somewhere. -/
theorem exists_closesAtEnd (h : (Nesting.after ⟨base + (depth + 1), quoted⟩ text).depth ≤ base) :
    ∃ front rest, text = front ++ rest ∧
      DefaultExpression.closesAtEnd (depth + 1) quoted front = true := by
  induction text generalizing depth quoted with
  | nil =>
      have hdepth : base + (depth + 1) ≤ base := h
      omega
  | cons c text ih =>
      rw [Nesting.after_cons] at h
      cases quoted with
      | true =>
          rw [Nesting.step_quoted] at h
          obtain ⟨front, rest, rfl, hfront⟩ := ih h
          refine ⟨c :: front, rest, rfl, ?_⟩
          by_cases hquote : c = '\''
          · subst hquote
            exact hfront
          · have hplain : (c != '\'') = true := by simpa using hquote
            simpa [DefaultExpression.closesAtEnd, hquote, hplain] using hfront
      | false =>
          rw [Nesting.step_unquoted] at h
          split_ifs at h with hquote hopen hclose
          · obtain ⟨front, rest, rfl, hfront⟩ := ih h
            exact ⟨c :: front, rest, rfl, by simpa [DefaultExpression.closesAtEnd, hquote] using hfront⟩
          · obtain ⟨front, rest, rfl, hfront⟩ := @ih (depth + 1) false h
            exact ⟨c :: front, rest, rfl, by simpa [DefaultExpression.closesAtEnd, hopen] using hfront⟩
          · subst hclose
            cases depth with
            | zero => exact ⟨[')'], text, rfl, rfl⟩
            | succ depth =>
                obtain ⟨front, rest, rfl, hfront⟩ := @ih depth false h
                exact ⟨')' :: front, rest, rfl, hfront⟩
          · obtain ⟨front, rest, rfl, hfront⟩ := ih h
            refine ⟨c :: front, rest, rfl, ?_⟩
            rwa [DefaultExpression.closesAtEnd_plain false hquote hopen hclose]

/-- A parenthesis that is closed again has a balanced text between it and the one that closes it. -/
theorem exists_balanced_of_depth (h : (Nesting.after ⟨base + 1, false⟩ text).depth ≤ base) :
    ∃ inner rest, Balanced inner ∧ text = inner ++ ')' :: rest := by
  obtain ⟨front, rest, rfl, hfront⟩ := @exists_closesAtEnd 0 base false text h
  obtain ⟨inner, last, hinner, rfl, _⟩ := DefaultExpression.exists_balanced_of_closesAtEnd hfront
  exact ⟨inner, last ++ rest, hinner, by simp⟩

/-- Where nothing is left open, all that was opened is closed. -/
theorem closesAll_of_after (h : Nesting.outside.after text = .outside) : ClosesAll text where
  literals before after htext hplace := by
    subst htext
    rcases hbefore : Nesting.outside.after before with ⟨depth, quoted⟩
    obtain rfl : quoted = false := by rwa [hbefore] at hplace
    rw [Nesting.after_append, hbefore, Nesting.after_cons] at h
    cases hbody : Literal.readBody? after with
    | none =>
        have hopen := @quoted_of_readBody? depth after hbody
        cases hopen.symm.trans (congrArg Nesting.quoted h)
    | some content =>
        obtain ⟨rest, hrest, hafter⟩ := Literal.exists_tail_of_readBody? hbody
        exact ⟨content, rest, hrest, hafter⟩
  groups before after htext hplace := by
    subst htext
    rcases hbefore : Nesting.outside.after before with ⟨depth, quoted⟩
    obtain rfl : quoted = false := by rwa [hbefore] at hplace
    rw [Nesting.after_append, hbefore, Nesting.after_cons] at h
    have hdepth : (Nesting.after ⟨depth + 1, false⟩ after).depth = 0 := congrArg Nesting.depth h
    exact exists_balanced_of_depth (hdepth.trans_le (Nat.zero_le depth))

end Closing

/-! ## Values -/

theorem Input.value_eq_ok {input next : Input} {context : ValueContext} {token : ValueToken} :
    input.value context = .ok (token, next) ↔ ∃ written tail,
      spanValue context .outside input.rest = (written, tail, .outside) ∧ Text.trim written ≠ [] ∧
        token = ValueToken.classify (Text.trim written) ∧ next = input.advance written tail := by
  rcases hspan : spanValue context .outside input.rest with ⟨written, tail, ⟨depth, quoted⟩⟩
  constructor
  · intro h
    simp only [Input.value, hspan] at h
    split_ifs at h with hquoted hdepth hempty
    cases h
    obtain rfl : depth = 0 := by omega
    obtain rfl : quoted = false := Bool.eq_false_iff.mpr hquoted
    exact ⟨written, tail, rfl, fun hnil => hempty (List.isEmpty_iff.mpr hnil), rfl, rfl⟩
  · rintro ⟨_, _, hsame, hne, rfl, rfl⟩
    cases hsame
    have hempty : (Text.trim written).isEmpty = false := by simpa using hne
    simp [Input.value, hspan, hempty]

/-- A value that is read ends at the first delimiter of its context that stands outside quotes and
parentheses, or with the text. All that is opened in it is closed. It is a literal exactly if it consists,
but for blanks around it, of quotes in pairs between two quotes; the text that such a literal stands for is
written as that literal. -/
theorem Input.value_ends_first {input next : Input} {context : ValueContext} {token : ValueToken}
    (h : input.value context = .ok (token, next)) :
    ∃ written, input.rest = written ++ next.rest ∧ next.offset = input.offset + byteLength written ∧
      (next.rest = [] ∨ context.Delimits next.rest) ∧
      (∀ before after, written = before ++ after → after ≠ [] →
        Nesting.outside.after before = .outside → ¬ context.Delimits (after ++ next.rest)) ∧
      Nesting.outside.after written = .outside ∧ ClosesAll written ∧
      ∀ body : String, (token = .literal body ↔
          Text.trim written = '\'' :: (body.toList ++ ['\'']) ∧ Literal.Paired body.toList) ∧
        (token = .literal body → Literal.escape (Literal.unescape body.toList) = body.toList) := by
  obtain ⟨written, tail, hspan, _, rfl, rfl⟩ := Input.value_eq_ok.mp h
  have hrest : written ++ tail = input.rest := by
    have hsplit := spanValue_append context .outside input.rest
    rwa [hspan] at hsplit
  have hafter := after_of_spanValue hspan
  refine ⟨written, hrest.symm, rfl, stops_of_spanValue hspan, not_delimits_of_spanValue hspan, hafter,
    closesAll_of_after hafter, fun body => ⟨ValueToken.classify_eq_literal, fun hliteral => ?_⟩⟩
  exact (ValueToken.classify_eq_literal.mp hliteral).2.escape_unescape

/-- A literal with a delimiter and two quotes in it ends before the comma behind it. -/
theorem Input.value_ends_first_of_sample :
    ∃ written, "'a, ''b) ' , NULL)".toList = written ++ ", NULL)".toList ∧
      ClosesAll written ∧ Text.trim written = "'a, ''b) '".toList := by
  have hvalue : Input.value ⟨0, "'a, ''b) ' , NULL)".toList⟩ .tuple =
      .ok (.literal "a, ''b) ", ⟨11, ", NULL)".toList⟩) := by decide
  obtain ⟨written, hrest, _, _, _, _, hcloses, hliteral⟩ := Input.value_ends_first hvalue
  exact ⟨written, hrest, hcloses, ((hliteral "a, ''b) ").1.mp rfl).1⟩

end Statement

end ChangeCapture
