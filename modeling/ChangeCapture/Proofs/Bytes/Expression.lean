import ChangeCapture.Proofs.Bytes.Words
import ChangeCapture.Proofs.Value.Escapes

/-! # Expressions read by index -/

namespace ChangeCapture.Bytes

open Expression (Content invalidEscape invalidRaw noQuotedArgument unterminatedArgument)
open Statement (byteLength)

/-! ## Readers -/

/-- What stands between the parentheses of a call of a function. The name is sought in the expression in
upper case, the arguments are cut out of the expression itself. -/
def callArguments? (name upper expr : String) : Option (Option String) :=
  let rest := upper.toList.drop name.toList.length
  if name.toList <+: upper.toList ∧ rest.head? = some '(' ∧ rest.getLast? = some ')' then do
    return some (← slice? expr (name.utf8ByteSize + 1) (← minus? expr.utf8ByteSize 1))
  else return none

/-- The text of a literal behind its first quote. -/
def literalText? (read : String) : List (Nat × Char) → Option String
  | [] => none
  | (_, c) :: rest =>
      if c = '\'' then
        match rest with
        | (_, '\'') :: rest => literalText? (read.push '\'') rest
        | _ => some read
      else literalText? (read.push c) rest

/-- The first argument of a call, a quoted literal. -/
def firstLiteral (arguments expr : String) : Checked CaptureError String :=
  match charIndices 0 (Text.trimLeft arguments.toList) with
  | (_, '\'') :: rest =>
      match literalText? "" rest with
      | some text => return text
      | none => throw (unterminatedArgument expr.toList)
  | _ => throw (noQuotedArgument expr.toList)

/-- The code unit of an escape behind its backslash, and what follows it. A code of four bytes is looked for;
where these do not end between characters there is none. -/
def escapedUnit (text expr : String) : Checked CaptureError (Nat × String) :=
  match (slice? text 0 4).bind fun code => Expression.readUnit? code.toList with
  | some unit => do return (unit, ← slice? text 4 text.utf8ByteSize)
  | none => throw (invalidEscape expr.toList)

/-- The code units of a text in which a backslash begins an escape. -/
def escapedUnits (expr : String) : List Char → Checked CaptureError (List Nat)
  | [] => return []
  | '\\' :: '\\' :: rest => do return '\\'.toNat :: (← escapedUnits expr rest)
  | c :: rest =>
      if c = '\\' then do
        let (unit, after) ← escapedUnit (String.ofList rest) expr
        let ⟨_⟩ ← less? after.toList.length (c :: rest).length
        return unit :: (← escapedUnits expr after.toList)
      else do return Text.Utf16.encodeChar c ++ (← escapedUnits expr rest)
termination_by text => text.length
decreasing_by
  · exact Nat.lt_succ_of_lt (Nat.lt_succ_self _)
  · assumption
  · exact Nat.lt_succ_self _

/-- The text that is escaped. -/
def decodeEscaped (text expr : String) : Checked CaptureError String := do
  match Text.Utf16.decode? (← escapedUnits expr text.toList) with
  | some decoded => return String.ofList decoded
  | none => throw (invalidEscape expr.toList)

/-- The arguments of the first of the calls whose name fits. -/
def firstCall? (upper expr : String) : List String → Option (Option String)
  | [] => return none
  | name :: names => do
      match ← callArguments? name upper expr with
      | some arguments => return some arguments
      | none => firstCall? upper expr names

/-- What an expression stands for. -/
def content (source : String) : Checked CaptureError Content := do
  let expr := Text.trimString source
  let upper := String.ofList (Text.upperAscii expr.toList)
  match ← firstCall? upper expr ["TO_DATE", "TO_TIMESTAMP", "TO_TIMESTAMP_TZ"] with
  | some arguments => return .text (← firstLiteral arguments expr).toList
  | none =>
      match ← callArguments? "UNISTR" upper expr with
      | some arguments =>
          let escaped ← firstLiteral arguments expr
          return .text (← decodeEscaped escaped expr).toList
      | none =>
          match ← callArguments? "HEXTORAW" upper expr with
          | some arguments =>
              let digits ← firstLiteral arguments expr
              match Text.Hex.decode (Text.trimString digits) with
              | .ok bytes => return .bytes bytes
              | .error fault => throw (invalidRaw expr.toList fault)
          | none =>
              if upper = "EMPTY_CLOB()" then return .text []
              else if upper = "EMPTY_BLOB()" then return .bytes []
              else if upper = "NULL" then return .null
              else return .text expr.toList

/-! ## Ends -/

/-- A text with its two ends is more than the first of them. -/
theorem exists_between {text : List Char} {first last : Char} (hfirst : text.head? = some first)
    (hlast : text.getLast? = some last) (hne : text ≠ [first]) : ∃ body, text = first :: (body ++ [last]) := by
  obtain ⟨rest, rfl⟩ := List.head?_eq_some_iff.mp hfirst
  obtain ⟨front, hfront⟩ := List.getLast?_eq_some_iff.mp hlast
  cases front with
  | nil =>
      cases hfront
      exact absurd rfl hne
  | cons c body =>
      cases hfront
      exact ⟨body, rfl⟩

/-- A text is cut off before its last character if that is of ASCII. -/
theorem exists_stop (front body : List Char) {last : Char} (hlast : last.toNat < 128) :
    ∃ stop, minus? (String.ofList (front ++ body ++ [last])).utf8ByteSize 1 = some stop ∧
      slice? (String.ofList (front ++ body ++ [last])) (byteLength front) stop = some (String.ofList body) := by
  refine ⟨_, ?_, slice?_ofList front body [last]⟩
  have hsize : (String.ofList (front ++ body ++ [last])).utf8ByteSize = byteLength (front ++ body) + 1 := by
    rw [utf8ByteSize_ofList, byteLength_append _ [last], byteLength_cons, utf8Size_of_ascii hlast]
    rfl
  rw [hsize, minus?_of_le (Nat.le_add_left 1 _), Nat.add_sub_cancel]

/-! ## Calls -/

theorem ascii_of_toUpper {c : Char} (h : c.toUpper.toNat < 128) : c.toNat < 128 := by
  unfold Char.toUpper at h
  split at h
  · rename_i hc
    have hle : c.toNat ≤ 122 := UInt32.le_iff_toNat_le.mp hc.2
    omega
  · exact h

/-- Only a character that is no letter is one in upper case. -/
theorem toUpper_eq_iff {c other : Char} (hother : other.toNat < 65) : c.toUpper = other ↔ c = other := by
  unfold Char.toUpper
  split
  · rename_i hc
    have hlow : 97 ≤ c.val.toNat := UInt32.le_iff_toNat_le.mp hc.1
    have hhigh : c.val.toNat ≤ 122 := UInt32.le_iff_toNat_le.mp hc.2
    have hshift : ('A'.val - 'a'.val).toNat = 2 ^ 32 - 32 := by decide
    have hvalue := UInt32.toNat_add c.val ('A'.val - 'a'.val)
    rw [hshift] at hvalue
    refine iff_of_false ?_ ?_
    · rintro rfl
      have hother : (c.val + ('A'.val - 'a'.val)).toNat < 65 := hother
      omega
    · rintro rfl
      have hother : c.val.toNat < 65 := hother
      omega
  · exact Iff.rfl

section Calls

variable {name : String} {expr : List Char}

theorem isCall_iff : (name.toList <+: Text.upperAscii expr ∧
    ((Text.upperAscii expr).drop name.toList.length).head? = some '(' ∧
    ((Text.upperAscii expr).drop name.toList.length).getLast? = some ')') ↔
      ∃ inner, Expression.IsCall name expr inner := by
  constructor
  · rintro ⟨⟨tail, hname⟩, hopen, hclose⟩
    rw [← hname, List.drop_left] at hopen hclose
    obtain ⟨word, rest, rfl, hword, rfl⟩ := List.map_eq_append_iff.mp hname.symm
    rw [List.head?_map, Option.map_eq_some_iff] at hopen
    rw [List.getLast?_map, Option.map_eq_some_iff] at hclose
    obtain ⟨first, hopen, hfirst⟩ := hopen
    obtain ⟨last, hclose, hlast⟩ := hclose
    rw [toUpper_eq_iff (by decide)] at hfirst hlast
    subst hfirst hlast
    obtain ⟨inner, rfl⟩ := exists_between hopen hclose (by rintro rfl; cases hclose)
    exact ⟨inner, word, hword, rfl⟩
  · rintro ⟨inner, word, hword, rfl⟩
    have hupper : Text.upperAscii (word ++ '(' :: (inner ++ [')'])) =
        name.toList ++ '(' :: (Text.upperAscii inner ++ [')']) := by
      rw [← hword]
      simp [Text.upperAscii]
    rw [hupper, List.drop_left]
    refine ⟨List.prefix_append _ _, rfl, ?_⟩
    rw [← List.cons_append, List.getLast?_concat]

theorem callArguments?_eq (name : String) (expr : List Char) (hname : name.toList.all (·.toNat < 128)) :
    callArguments? name (String.ofList (Text.upperAscii expr)) (String.ofList expr) =
      some ((Expression.callArguments? name expr).map String.ofList) := by
  unfold callArguments?
  rw [String.toList_ofList]
  cases hcall : Expression.callArguments? name expr with
  | none =>
      have hnot : ¬ ∃ inner, Expression.IsCall name expr inner := by
        rintro ⟨inner, hinner⟩
        cases hcall.symm.trans (Expression.callArguments?_eq_some.mpr hinner)
      exact if_neg (mt isCall_iff.mp hnot)
  | some inner =>
      have hinner := Expression.callArguments?_eq_some.mp hcall
      rw [if_pos (isCall_iff.mpr ⟨inner, hinner⟩)]
      obtain ⟨word, hword, rfl⟩ := hinner
      have hname : ∀ c ∈ name.toList, c.toNat < 128 := by simpa using hname
      have hascii : ∀ c ∈ word, c.toNat < 128 := fun c hc =>
        ascii_of_toUpper (hname c.toUpper (hword ▸ List.mem_map_of_mem hc))
      have hsize : name.utf8ByteSize + 1 = byteLength (word ++ ['(']) := by
        rw [utf8ByteSize_eq, Scanner.byteLength_of_ascii hname, ← hword, byteLength_append,
          Scanner.byteLength_of_ascii hascii, Text.upperAscii, List.length_map]
        rfl
      have hexpr : word ++ '(' :: (inner ++ [')']) = (word ++ ['(']) ++ inner ++ [')'] := by simp
      obtain ⟨stop, hstop, hslice⟩ := exists_stop (word ++ ['(']) inner (show ')'.toNat < 128 by decide)
      rw [hexpr, hstop, hsize]
      simp only [Option.bind_eq_bind, Option.bind_some, hslice]
      rfl

theorem firstCall?_eq (names : List String) (expr : List Char)
    (hnames : ∀ name ∈ names, name.toList.all (·.toNat < 128)) :
    firstCall? (String.ofList (Text.upperAscii expr)) (String.ofList expr) names =
      some ((names.findSome? (Expression.callArguments? · expr)).map String.ofList) := by
  induction names with
  | nil => rfl
  | cons name names ih =>
      obtain ⟨hname, hnames⟩ := List.forall_mem_cons.mp hnames
      rw [firstCall?, callArguments?_eq name expr hname, List.findSome?_cons]
      cases Expression.callArguments? name expr with
      | some inner => rfl
      | none => exact ih hnames

end Calls

/-! ## Arguments -/

theorem literalText?_eq (read : List Char) (start : Nat) (text : List Char) :
    literalText? (String.ofList read) (charIndices start text) =
      (Literal.readBody? text).map fun body => String.ofList (read ++ body) := by
  have hpush (read : List Char) (c : Char) : (String.ofList read).push c = String.ofList (read ++ [c]) := by
    simp
  fun_induction Literal.readBody? text generalizing read start with
  | case1 => rfl
  | case2 rest ih =>
      simp only [charIndices, literalText?, if_pos, hpush, ih, Option.map_map]
      simp [Function.comp_def]
  | case3 rest hpair =>
      cases rest with
      | nil => simp [charIndices, literalText?]
      | cons c rest =>
          have hc : c ≠ '\'' := fun hc => hpair rest (hc ▸ rfl)
          simp [charIndices, literalText?, hc]
  | case4 c rest hpair hc ih =>
      have hread : literalText? (String.ofList read) (charIndices start (c :: rest)) =
          literalText? ((String.ofList read).push c) (charIndices (start + c.utf8Size) rest) := by
        rw [literalText?.eq_def]
        exact if_neg hc
      rw [hread, hpush, ih, Option.map_map]
      simp [Function.comp_def]

theorem firstLiteral_eq (arguments expr : List Char) :
    Agrees (fun text body => text = String.ofList body)
      (firstLiteral (String.ofList arguments) (String.ofList expr)) (Expression.firstLiteral arguments expr) := by
  unfold firstLiteral Expression.firstLiteral
  rw [String.toList_ofList, String.toList_ofList]
  cases Text.trimLeft arguments with
  | nil => exact .error _
  | cons c rest =>
      by_cases hc : c = '\''
      · subst hc
        have htext := literalText?_eq [] (0 + '\''.utf8Size) rest
        rw [String.ofList_nil] at htext
        simp only [charIndices, htext]
        cases Literal.readBody? rest with
        | none => exact .error _
        | some body => exact .ok rfl
      · rw [charIndices]
        split
        · rename_i heq
          cases heq
          exact absurd rfl hc
        · split
          · rename_i heq
            exact absurd (List.cons.inj heq).1 hc
          · exact .error _

/-! ## Escapes -/

theorem ascii_of_charValue? {c : Char} {value : Nat} (h : Text.Hex.charValue? c = some value) :
    c.toNat < 128 := by
  unfold Text.Hex.charValue? at h
  split at h
  · assumption
  · cases h

theorem ascii_of_mapM_charValue? {digits : List Char} {values : List Nat}
    (h : digits.mapM Text.Hex.charValue? = some values) : ∀ c ∈ digits, c.toNat < 128 := by
  induction digits generalizing values with
  | nil => simp
  | cons c digits ih =>
      simp only [List.mapM_cons, bind, Option.bind_eq_some_iff] at h
      obtain ⟨value, hvalue, values, hvalues, _⟩ := h
      exact List.forall_mem_cons.mpr ⟨ascii_of_charValue? hvalue, ih hvalues⟩

/-- A code unit is written in ASCII. -/
theorem ascii_of_readUnit? {code : List Char} {unit : Nat} (h : Expression.readUnit? code = some unit) :
    ∀ c ∈ code, c.toNat < 128 := by
  unfold Expression.readUnit? at h
  split at h
  · obtain ⟨values, hvalues, _⟩ := Option.map_eq_some_iff.mp h
    exact List.forall_mem_cons.mpr ⟨by decide, ascii_of_mapM_charValue? hvalues⟩
  · obtain ⟨values, hvalues, _⟩ := Option.map_eq_some_iff.mp h
    exact ascii_of_mapM_charValue? hvalues

/-- What is cut off at the front of a text has as many bytes as it should. -/
theorem slice?_zero_eq_some {text : List Char} {size : Nat} {front : String}
    (h : slice? (String.ofList text) 0 size = some front) :
    ∃ rest, text = front.toList ++ rest ∧ byteLength front.toList = size := by
  have hvalid : String.Pos.Raw.IsValid (String.ofList text) ⟨size⟩ := by
    unfold slice? at h
    split at h
    · rename_i hvalid
      exact hvalid.2.2
    · cases h
  obtain ⟨before, after, htext, hsize⟩ := String.Pos.Raw.isValid_iff_exists_append.mp hvalid
  have hlist : text = before.toList ++ after.toList := by
    rw [← String.toList_append, ← htext, String.toList_ofList]
  have hlength : byteLength before.toList = size := by
    rw [← utf8ByteSize_eq]
    exact (congrArg String.Pos.Raw.byteIdx hsize).symm
  have hslice := slice?_ofList [] before.toList after.toList
  rw [List.nil_append, ← hlist, hlength, String.ofList_toList] at hslice
  cases h.symm.trans hslice
  exact ⟨after.toList, hlist, hlength⟩

/-- The code is cut out if it has four characters of ASCII, and no other code is valid. -/
theorem slice?_code {text : List Char} {unit : Nat} :
    ((slice? (String.ofList text) 0 4).bind fun code => Expression.readUnit? code.toList) = some unit ↔
      ∃ code rest, text = code ++ rest ∧ code.length = 4 ∧ Expression.readUnit? code = some unit := by
  constructor
  · intro h
    obtain ⟨code, hslice, hunit⟩ := Option.bind_eq_some_iff.mp h
    obtain ⟨rest, htext, hsize⟩ := slice?_zero_eq_some hslice
    refine ⟨code.toList, rest, htext, ?_, hunit⟩
    rw [← Scanner.byteLength_of_ascii (ascii_of_readUnit? hunit), hsize]
  · rintro ⟨code, rest, rfl, hlength, hunit⟩
    have hsize : byteLength ([] ++ code) = 4 := by
      rw [List.nil_append, Scanner.byteLength_of_ascii (ascii_of_readUnit? hunit), hlength]
    have hslice := slice?_ofList [] code rest
    rw [hsize] at hslice
    refine Option.bind_eq_some_iff.mpr ⟨String.ofList code, hslice, ?_⟩
    rwa [String.toList_ofList]

theorem escapedUnit_eq (code : List Char) {rest : List Char} {unit : Nat} (hlength : code.length = 4)
    (hunit : Expression.readUnit? code = some unit) (expr : String) :
    escapedUnit (String.ofList (code ++ rest)) expr = pure (unit, String.ofList rest) := by
  have hsize : byteLength code = 4 := by
    rw [Scanner.byteLength_of_ascii (ascii_of_readUnit? hunit), hlength]
  have hafter := slice?_ofList code rest []
  rw [List.append_nil, hsize, ← utf8ByteSize_ofList] at hafter
  unfold escapedUnit
  rw [slice?_code.mpr ⟨code, rest, rfl, hlength, hunit⟩]
  simp only [hafter]
  rfl

theorem escapedUnit_invalid {text : List Char}
    (h : ∀ code rest, text = code ++ rest → code.length = 4 → Expression.readUnit? code = none)
    (expr : String) : escapedUnit (String.ofList text) expr = throw (invalidEscape expr.toList) := by
  unfold escapedUnit
  split
  · rename_i unit hunit
    obtain ⟨code, rest, htext, hlength, hunit⟩ := slice?_code.mp hunit
    cases hunit.symm.trans (h code rest htext hlength)
  · rfl

theorem escapedUnits_code {text : List Char} (h : text.head? ≠ some '\\') (expr : String) :
    escapedUnits expr ('\\' :: text) = (do
      let (unit, after) ← escapedUnit (String.ofList text) expr
      let ⟨_⟩ ← less? after.toList.length (text.length + 1)
      return unit :: (← escapedUnits expr after.toList)) := by
  cases text with
  | nil => simp [escapedUnits]
  | cons c text =>
      have hc : c ≠ '\\' := fun hc => h (hc ▸ rfl)
      simp [escapedUnits, hc]

theorem escapedUnits_eq (text : List Char) (expr : String) :
    escapedUnits expr text =
      match Expression.escapedUnits? text with
      | some units => return units
      | none => throw (invalidEscape expr.toList) := by
  fun_induction Expression.escapedUnits? text with
  | case1 =>
      rw [escapedUnits]
  | case2 rest ih =>
      rw [escapedUnits, ih]
      cases Expression.escapedUnits? rest <;> rfl
  | case3 a b c d rest hpair ih =>
      rw [escapedUnits_code (by simpa using hpair)]
      cases hunit : Expression.readUnit? [a, b, c, d] with
      | none =>
          rw [escapedUnit_invalid]
          · rfl
          · rintro code rest' htext hlength
            obtain ⟨rfl, rfl⟩ :=
              List.append_inj (show [a, b, c, d] ++ rest = code ++ rest' from htext) hlength.symm
            exact hunit
      | some unit =>
          have hcode : escapedUnit (String.ofList (a :: b :: c :: d :: rest)) expr =
              pure (unit, String.ofList rest) := escapedUnit_eq [a, b, c, d] rfl hunit expr
          have hlength : (String.ofList rest).toList.length < (a :: b :: c :: d :: rest).length + 1 := by
            simp only [String.toList_ofList, List.length_cons]
            omega
          rw [hcode, pure_bind]
          simp only [less?_of_lt hlength, lift_some_bind]
          rw [String.toList_ofList, ih]
          cases Expression.escapedUnits? rest <;> rfl
  | case4 rest hpair hshort =>
      have hhead : rest.head? ≠ some '\\' := fun hhead => by
        obtain ⟨more, rfl⟩ := List.head?_eq_some_iff.mp hhead
        exact hpair more rfl rfl
      rw [escapedUnits_code hhead, escapedUnit_invalid]
      · rfl
      · rintro code rest' rfl hlength
        obtain ⟨a, b, c, d, rfl⟩ := List.length_eq_four.mp hlength
        exact absurd rfl (hshort a b c d rest' rfl)
  | case5 c rest hpair hlong hc ih =>
      simp only [escapedUnits, if_neg hc, ih]
      cases Expression.escapedUnits? rest <;> rfl

theorem decodeEscaped_eq (text : List Char) (expr : String) :
    decodeEscaped (String.ofList text) expr =
      match Expression.decodeEscaped? text with
      | some decoded => return String.ofList decoded
      | none => throw (invalidEscape expr.toList) := by
  unfold decodeEscaped Expression.decodeEscaped?
  rw [String.toList_ofList, escapedUnits_eq]
  cases Expression.escapedUnits? text <;> rfl

/-! ## Contents -/

theorem findSome?_dateCalls (expr : List Char) :
    ["TO_DATE", "TO_TIMESTAMP", "TO_TIMESTAMP_TZ"].findSome? (Expression.callArguments? · expr) =
      (Expression.callArguments? "TO_DATE" expr <|> Expression.callArguments? "TO_TIMESTAMP" expr <|>
        Expression.callArguments? "TO_TIMESTAMP_TZ" expr) := by
  simp only [List.findSome?_cons, List.findSome?_nil]
  cases Expression.callArguments? "TO_DATE" expr <;> cases Expression.callArguments? "TO_TIMESTAMP" expr <;>
    cases Expression.callArguments? "TO_TIMESTAMP_TZ" expr <;> rfl

theorem content_eq (source : String) : Agrees Eq (content source) (Expression.content source.toList) := by
  unfold content Expression.content
  rw [Text.trimString]
  generalize Text.trim source.toList = expr
  simp only [String.toList_ofList, ← findSome?_dateCalls,
    firstCall?_eq ["TO_DATE", "TO_TIMESTAMP", "TO_TIMESTAMP_TZ"] expr (by decide),
    callArguments?_eq "UNISTR" expr (by decide), callArguments?_eq "HEXTORAW" expr (by decide), lift_some_bind]
  cases ["TO_DATE", "TO_TIMESTAMP", "TO_TIMESTAMP_TZ"].findSome? (Expression.callArguments? · expr) with
  | some arguments =>
      have hmap (found : Except CaptureError (List Char)) :
          found.map Content.text = found >>= fun body => return .text body := by cases found <;> rfl
      simp only [Option.map_some, hmap]
      refine (firstLiteral_eq arguments expr).bind fun text body _ htext => ?_
      subst htext
      exact .ok (by rw [String.toList_ofList])
  | none =>
      cases Expression.callArguments? "UNISTR" expr with
      | some arguments =>
          refine (firstLiteral_eq arguments expr).bind fun text escaped _ htext => ?_
          subst htext
          rw [decodeEscaped_eq, String.toList_ofList]
          cases Expression.decodeEscaped? escaped with
          | none => exact .error _
          | some decoded => exact .ok (by rw [String.toList_ofList])
      | none =>
          cases Expression.callArguments? "HEXTORAW" expr with
          | some arguments =>
              refine (firstLiteral_eq arguments expr).bind fun text digits _ htext => ?_
              subst htext
              rw [Text.trimString, String.toList_ofList]
              cases Text.Hex.decode (String.ofList (Text.trim digits)) with
              | error fault => exact .error _
              | ok bytes => exact .ok rfl
          | none =>
              simp only [Option.map_none]
              split_ifs <;> exact .ok rfl

end ChangeCapture.Bytes
