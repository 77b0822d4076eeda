import ChangeCapture.Proofs.Bytes.Expression
import ChangeCapture.Proofs.Bytes.Statement
import ChangeCapture.Proofs.Value.Defaults

/-! # Default values read by index -/

namespace ChangeCapture.Bytes

open DefaultExpression (closesAtEnd dropNationalMark inner?)
open Statement (byteLength)

/-! ## Readers -/

/-- The parenthesis opened `depth` levels up is closed by the character at index `last`. -/
def closesAt (last depth : Nat) (quoted : Bool) : List (Nat × Char) → Bool
  | [] => false
  | (i, c) :: rest =>
      if c = '\'' then closesAt last depth (!quoted) rest
      else if c = '(' ∧ !quoted then closesAt last (depth + 1) quoted rest
      else if c = ')' ∧ !quoted then
        if depth - 1 = 0 then i == last else closesAt last (depth - 1) quoted rest
      else closesAt last depth quoted rest

/-- The parenthesis at the front of a text is closed by its last character. -/
def encloses (text : String) : Option Bool := do
  let last ← minus? text.utf8ByteSize 1
  return closesAt last 0 false (charIndices 0 text.toList)

/-- The text without the parentheses that enclose it, and without the blanks inside them. -/
def stripParens (text : String) : Option String :=
  if text.toList.head? = some '(' ∧ text.toList.getLast? = some ')' then do
    if ← encloses text then
      let inner := Text.trimString (← slice? text 1 (← minus? text.utf8ByteSize 1))
      let ⟨_⟩ ← less? inner.toList.length text.toList.length
      stripParens inner
    else return text
  else return text
termination_by text.toList.length
decreasing_by assumption

/-- What stands between a quote at the front and a quote at the end. -/
def quotedBody? (text : String) : Option (Option String) :=
  let text := String.ofList (dropNationalMark text.toList)
  if 2 ≤ text.utf8ByteSize ∧ text.toList.head? = some '\'' ∧ text.toList.getLast? = some '\'' then do
    return some (← slice? text 1 (← minus? text.utf8ByteSize 1))
  else return none

/-! ## Ends -/

/-- A text is cut out between its two ends if these are of ASCII. -/
theorem exists_inside (first last : Char) (hfirst : first.toNat < 128) (hlast : last.toNat < 128)
    (body : List Char) : ∃ stop, minus? (String.ofList (first :: (body ++ [last]))).utf8ByteSize 1 = some stop ∧
      slice? (String.ofList (first :: (body ++ [last]))) 1 stop = some (String.ofList body) := by
  have hsize : byteLength [first] = 1 := by rw [byteLength_cons, utf8Size_of_ascii hfirst, byteLength_nil]
  have hcut := exists_stop [first] body hlast
  rwa [hsize] at hcut

theorem getLast?_between (first : Char) (body : List Char) (last : Char) :
    (first :: (body ++ [last])).getLast? = some last := by
  rw [← List.cons_append, List.getLast?_concat]

/-! ## Parentheses -/

theorem closesAt_eq {last start : Nat} (text : List Char) (hlast : last + 1 = start + byteLength text)
    (depth : Nat) (quoted : Bool) :
    closesAt last depth quoted (charIndices start text) = closesAtEnd depth quoted text := by
  induction text generalizing start depth quoted with
  | nil => rfl
  | cons c text ih =>
      rw [byteLength_cons, ← Nat.add_assoc] at hlast
      rw [charIndices, closesAt, closesAtEnd, ih hlast, ih hlast, ih hlast, ih hlast]
      split_ifs with hquote hopen hclose hdepth
      · rfl
      · rfl
      · -- the parenthesis stands at the last index if nothing follows it
        have hsize : c.utf8Size = 1 := by
          rw [hclose.1]
          rfl
        rw [Bool.eq_iff_iff, beq_iff_eq, List.isEmpty_iff, ← byteLength_eq_zero_iff]
        omega
      · rfl
      · rfl

/-- It is asked of texts that begin with a parenthesis only, and an empty text has no last index. -/
theorem encloses_eq (c : Char) (rest : List Char) :
    encloses (String.ofList (c :: rest)) = some (closesAtEnd 0 false (c :: rest)) := by
  have hsize : 1 ≤ (String.ofList (c :: rest)).utf8ByteSize := by
    rw [utf8ByteSize_ofList, byteLength_cons]
    have := c.utf8Size_pos
    omega
  unfold encloses
  rw [minus?_of_le hsize, Option.bind_eq_bind, Option.bind_some, String.toList_ofList, closesAt_eq]
  · rfl
  · rw [← utf8ByteSize_ofList]
    omega

theorem inner?_eq_some {text body : List Char} :
    inner? text = some body ↔ text = '(' :: (body ++ [')']) ∧ closesAtEnd 0 false text = true := by
  constructor
  · intro h
    unfold inner? at h
    split at h
    · rename_i rest
      split at h
      · rename_i hcloses
        obtain ⟨inner, last, _, rfl, hlast⟩ :=
          @DefaultExpression.exists_balanced_of_closesAtEnd 0 rest hcloses
        rw [if_pos rfl] at hlast
        subst hlast
        rw [List.dropLast_concat] at h
        cases h
        exact ⟨rfl, hcloses⟩
      · cases h
    · cases h
  · rintro ⟨rfl, hcloses⟩
    rw [inner?, if_pos hcloses, List.dropLast_concat]

theorem stripParens_eq (text : List Char) :
    stripParens (String.ofList text) = some (String.ofList (DefaultExpression.stripParens text)) := by
  have hends (body : List Char) : (String.ofList ('(' :: (body ++ [')']))).toList.head? = some '(' ∧
      (String.ofList ('(' :: (body ++ [')']))).toList.getLast? = some ')' := by
    rw [String.toList_ofList]
    exact ⟨rfl, getLast?_between _ _ _⟩
  fun_induction DefaultExpression.stripParens text with
  | case1 text body hinner ih =>
      obtain ⟨rfl, hcloses⟩ := inner?_eq_some.mp hinner
      obtain ⟨stop, hstop, hslice⟩ := exists_inside '(' ')' (by decide) (by decide) body
      have htrim : Text.trimString (String.ofList body) = String.ofList (Text.trim body) := by
        rw [Text.trimString, String.toList_ofList]
      have hlength : (Text.trimString (String.ofList body)).toList.length <
          (String.ofList ('(' :: (body ++ [')']))).toList.length := by
        rw [htrim, String.toList_ofList, String.toList_ofList]
        exact (DefaultExpression.length_trim_le body).trans_lt (DefaultExpression.length_of_inner? hinner)
      rw [stripParens, if_pos (hends _), encloses_eq, hcloses, hstop]
      simp only [Option.bind_eq_bind, Option.bind_some, if_pos, hslice, less?_of_lt hlength]
      rw [htrim, ih]
  | case2 text hinner =>
      rw [stripParens]
      split_ifs with hends
      · rw [String.toList_ofList] at hends
        obtain ⟨body, rfl⟩ := exists_between hends.1 hends.2 (by rintro rfl; cases hends.2)
        have hcloses : closesAtEnd 0 false ('(' :: (body ++ [')'])) = false := by
          refine Bool.eq_false_iff.mpr fun hcloses => ?_
          cases hinner.symm.trans (inner?_eq_some.mpr ⟨rfl, hcloses⟩)
        rw [encloses_eq, hcloses]
        rfl
      · rfl

/-! ## Literals -/

theorem quotedBody?_eq (text : List Char) :
    quotedBody? (String.ofList text) = some ((DefaultExpression.quotedBody? text).map String.ofList) := by
  unfold quotedBody?
  simp only [String.toList_ofList]
  cases hbody : DefaultExpression.quotedBody? text with
  | none =>
      refine if_neg ?_
      rintro ⟨hsize, hfirst, hlast⟩
      obtain ⟨body, htext⟩ := exists_between hfirst hlast fun htext => by
        rw [htext] at hsize
        exact absurd hsize (by decide)
      cases hbody.symm.trans (DefaultExpression.quotedBody?_eq_some.mpr htext)
  | some body =>
      obtain ⟨stop, hstop, hslice⟩ := exists_inside '\'' '\'' (by decide) (by decide) body
      have hsize : 2 ≤ (String.ofList ('\'' :: (body ++ ['\'']))).utf8ByteSize := by
        rw [utf8ByteSize_ofList, byteLength_cons, byteLength_append, byteLength_cons, utf8Size_of_ascii (by decide)]
        omega
      rw [DefaultExpression.quotedBody?_eq_some.mp hbody, if_pos ⟨hsize, rfl, getLast?_between _ _ _⟩, hstop]
      simp only [Option.bind_eq_bind, Option.bind_some, hslice]
      rfl

/-! ## All readers -/

/-- Every text and every expression is read by index as it is read by character: no access by index is out of
range or divides a character, and every reading ends. Whether parentheses enclose a text is asked only of one
that begins with a parenthesis, so that the empty text, which has no last index, never comes to `encloses`. -/
theorem read_by_index :
    (∀ sql, (parse sql).run = some (Statement.parse sql)) ∧
    (∀ source, (content source).run = some (Expression.content source.toList)) ∧
    (∀ arguments expr, (firstLiteral arguments expr).run =
      some ((Expression.firstLiteral arguments.toList expr.toList).map String.ofList)) ∧
    (∀ escaped expr, (decodeEscaped escaped expr).run =
      some (match Expression.decodeEscaped? escaped.toList with
        | some text => .ok (String.ofList text)
        | none => .error (Expression.invalidEscape expr.toList))) ∧
    (∀ expr, stripParens expr = some (String.ofList (DefaultExpression.stripParens expr.toList))) ∧
    (∀ c rest, encloses (String.ofList (c :: rest)) = some (closesAtEnd 0 false (c :: rest))) ∧
    (∀ expr, quotedBody? expr = some ((DefaultExpression.quotedBody? expr.toList).map String.ofList)) := by
  refine ⟨parse_eq, fun source => (content_eq source).run_eq, fun arguments expr => ?_, fun escaped expr => ?_,
    fun expr => ?_, encloses_eq, fun expr => ?_⟩
  · have hread := firstLiteral_eq arguments.toList expr.toList
    rw [String.ofList_toList, String.ofList_toList] at hread
    exact hread.run_map
  · have hread := decodeEscaped_eq escaped.toList expr
    rw [String.ofList_toList] at hread
    rw [hread]
    cases Expression.decodeEscaped? escaped.toList <;> rfl
  · rw [← stripParens_eq, String.ofList_toList]
  · rw [← quotedBody?_eq, String.ofList_toList]

end ChangeCapture.Bytes
