import ChangeCapture.Proofs.Text.Blank
import ChangeCapture.Proofs.Value.Literal
import ChangeCapture.Value.Expression

/-! # Calls around values

A call of one of five functions stands for the value of its first argument. -/

namespace ChangeCapture.Expression

/-! ## Functions -/

/-- The functions that redo statements put around values. -/
inductive Wrapper where
  | date
  | timestamp
  | zonedTimestamp
  | escapedText
  | raw
  deriving DecidableEq, Repr

namespace Wrapper

def name : Wrapper → String
  | .date => "TO_DATE"
  | .timestamp => "TO_TIMESTAMP"
  | .zonedTimestamp => "TO_TIMESTAMP_TZ"
  | .escapedText => "UNISTR"
  | .raw => "HEXTORAW"

/-- What a call with the given first argument stands for. -/
def decode (wrapper : Wrapper) (argument expr : List Char) : Except CaptureError Content :=
  match wrapper with
  | .date | .timestamp | .zonedTimestamp => .ok (.text argument)
  | .escapedText =>
      match decodeEscaped? argument with
      | some text => .ok (.text text)
      | none => .error (invalidEscape expr)
  | .raw =>
      match Text.Hex.decode (String.ofList (Text.trim argument)) with
      | .ok bytes => .ok (.bytes bytes)
      | .error fault => .error (invalidRaw expr fault)

end Wrapper

/-! ## Calls -/

/-- The text begins with the name in any case and a parenthesis, and it ends with a parenthesis. -/
def IsCall (name : String) (expr inner : List Char) : Prop :=
  ∃ word, Text.upperAscii word = name.toList ∧ expr = word ++ '(' :: (inner ++ [')'])

section Calls

variable {name other : String} {expr inner : List Char}

theorem callArguments?_eq_some : callArguments? name expr = some inner ↔ IsCall name expr inner := by
  constructor
  · intro h
    unfold callArguments? at h
    dsimp only at h
    split at h
    · rename_i hword
      split at h
      · rename_i rest hrest
        split at h
        · rename_i hlast
          cases h
          obtain ⟨front, rfl⟩ := List.getLast?_eq_some_iff.mp hlast
          refine ⟨_, hword, ?_⟩
          rw [List.dropLast_concat, ← hrest, List.take_append_drop]
        · cases h
      · cases h
    · cases h
  · rintro ⟨word, hword, rfl⟩
    have hlength : word.length = name.toList.length := by rw [← hword, Text.upperAscii, List.length_map]
    rw [callArguments?, ← hlength, List.take_left, List.drop_left, if_pos hword]
    simp

/-- Only a parenthesis is a parenthesis in upper case. -/
theorem not_mem_of_upperAscii {word : List Char} (hname : '(' ∉ name.toList)
    (hword : Text.upperAscii word = name.toList) : '(' ∉ word := fun hmem =>
  hname (hword ▸ List.mem_map.mpr ⟨'(', hmem, rfl⟩)

/-- A call has one name and one list of arguments. -/
theorem IsCall.name_eq (h : IsCall name expr inner) {inner' : List Char} (h' : IsCall other expr inner')
    (hname : '(' ∉ name.toList) (hother : '(' ∉ other.toList) : name = other := by
  obtain ⟨word, hword, hexpr⟩ := h
  obtain ⟨word', hword', hexpr'⟩ := h'
  have hfirst {word rest : List Char} (hword : '(' ∉ word) :
      (word ++ '(' :: rest).takeWhile (· != '(') = word := by
    rw [List.takeWhile_append_of_pos]
    · simp
    · rintro c hc
      have hne : c ≠ '(' := fun heq => hword (heq ▸ hc)
      simpa using hne
  have hsame : word = word' := by
    rw [← hfirst (not_mem_of_upperAscii hname hword), ← hexpr, hexpr',
      hfirst (not_mem_of_upperAscii hother hword')]
  rw [← String.toList_inj, ← hword, ← hword', hsame]

/-- A call has no blanks at its ends. -/
theorem IsCall.trim_eq (h : IsCall name expr inner) (hname : name.toList.any Text.isBlank = false) :
    Text.trim expr = expr := by
  obtain ⟨word, hword, rfl⟩ := h
  refine Text.trim_of_ends (fun c hc => ?_) fun c hc => ?_
  · cases word with
    | nil =>
        cases hc
        decide
    | cons d word =>
        cases hc
        refine Bool.eq_false_iff.mpr fun hblank => ?_
        have hmem : c ∈ name.toList := by
          rw [← hword, Text.upperAscii, List.map_cons, Text.toUpper_of_isBlank hblank]
          exact List.mem_cons_self
        exact List.any_eq_false.mp hname c hmem hblank
  · rw [← List.cons_append, ← List.append_assoc, List.getLast?_concat] at hc
    cases hc
    decide

end Calls

/-! ## Arguments -/

/-- The arguments begin with the literal, perhaps behind blanks. -/
def Opens (inner argument tail : List Char) : Prop :=
  ∃ blanks : List Char, (∀ c ∈ blanks, Text.isBlank c = true) ∧ tail.head? ≠ some '\'' ∧
    inner = blanks ++ '\'' :: (Literal.escape argument ++ '\'' :: tail)

theorem opens_escape (argument : List Char) {tail : List Char} (htail : tail.head? ≠ some '\'') :
    Opens ('\'' :: (Literal.escape argument ++ '\'' :: tail)) argument tail :=
  ⟨[], by simp, htail, rfl⟩

/-- What stands behind the literal is not looked at. -/
theorem firstLiteral_eq_ok {inner expr argument : List Char} :
    firstLiteral inner expr = .ok argument ↔ ∃ tail, Opens inner argument tail := by
  constructor
  · intro h
    unfold firstLiteral at h
    split at h
    · rename_i rest hrest
      split at h
      · rename_i body hbody
        cases h
        obtain ⟨tail, htail, rfl⟩ := Literal.exists_tail_of_readBody? hbody
        refine ⟨tail, inner.takeWhile Text.isBlank, fun c hc => List.mem_takeWhile_imp hc, htail, ?_⟩
        rw [← hrest, Text.trimLeft, List.takeWhile_append_dropWhile]
      · cases h
    · cases h
  · rintro ⟨tail, blanks, hblanks, htail, rfl⟩
    have hleft : Text.trimLeft (blanks ++ '\'' :: (Literal.escape argument ++ '\'' :: tail)) =
        '\'' :: (Literal.escape argument ++ '\'' :: tail) := by
      rw [Text.trimLeft, List.dropWhile_append_of_pos hblanks]
      exact Text.dropWhile_isBlank (by simp; decide)
    simp only [firstLiteral, hleft, Literal.readBody?_escape argument htail]

/-! ## Contents -/

namespace Wrapper

variable {wrapper : Wrapper} {expr inner : List Char}

theorem name_injective : Function.Injective name := by
  intro first second
  cases first <;> cases second <;> decide

theorem callArguments?_eq (h : IsCall wrapper.name expr inner) (other : Wrapper) :
    callArguments? other.name expr = if other = wrapper then some inner else none := by
  have hparen (wrapper : Wrapper) : '(' ∉ wrapper.name.toList := by cases wrapper <;> decide
  split
  · subst other
    exact callArguments?_eq_some.mpr h
  · rename_i hne
    refine Option.eq_none_iff_forall_ne_some.mpr fun inner' hinner' => hne (name_injective ?_)
    exact (callArguments?_eq_some.mp hinner').name_eq h (hparen other) (hparen wrapper)

theorem decode_ne_null {argument : List Char} : wrapper.decode argument expr ≠ .ok .null := by
  intro h
  cases wrapper with
  | date | timestamp | zonedTimestamp => cases h
  | escapedText | raw =>
      dsimp only [decode] at h
      split at h <;> cases h

theorem trim_eq (h : IsCall wrapper.name expr inner) : Text.trim expr = expr :=
  IsCall.trim_eq h (by cases wrapper <;> decide)

/-- A call stands for what its function makes of the first argument. -/
theorem content_eq (h : IsCall wrapper.name expr inner) :
    content expr = firstLiteral inner expr >>= fun argument => wrapper.decode argument expr := by
  have hdate := callArguments?_eq h .date
  have htimestamp := callArguments?_eq h .timestamp
  have hzoned := callArguments?_eq h .zonedTimestamp
  have hescaped := callArguments?_eq h .escapedText
  have hraw := callArguments?_eq h .raw
  simp only [name] at hdate htimestamp hzoned hescaped hraw
  cases wrapper <;>
    simp only [content, trim_eq h, hdate, htimestamp, hzoned, hescaped, hraw, reduceCtorEq, reduceIte,
      Option.orElse_eq_orElse, Option.orElse_eq_or, Option.some_or, Option.none_or] <;>
    cases firstLiteral inner expr <;> rfl

/-- The value of a call is that of its first argument. -/
theorem content_eq_ok (h : IsCall wrapper.name expr inner) {value : Content} : content expr = .ok value ↔
    ∃ argument tail, Opens inner argument tail ∧ wrapper.decode argument expr = .ok value := by
  rw [content_eq h]
  constructor
  · intro hvalue
    cases hliteral : firstLiteral inner expr with
    | error failure =>
        rw [hliteral] at hvalue
        cases hvalue
    | ok argument =>
        rw [hliteral] at hvalue
        obtain ⟨tail, htail⟩ := firstLiteral_eq_ok.mp hliteral
        exact ⟨argument, tail, htail, hvalue⟩
  · rintro ⟨argument, tail, hopens, hvalue⟩
    rw [firstLiteral_eq_ok.mpr ⟨tail, hopens⟩]
    exact hvalue

end Wrapper

end ChangeCapture.Expression
