import ChangeCapture.Json.Decoding
import ChangeCapture.Json.Writing
import ChangeCapture.Proofs.Text.Integer
import ChangeCapture.Proofs.Text.Utf16
import Mathlib.Data.List.TakeDrop

/-! # JSON text is read as it is written -/

namespace ChangeCapture

open List

namespace Json

/-! ## Strings -/

theorem readNumber?_control {n : Nat} (h : n < 0x20) :
    Text.Hex.readNumber? ['0', '0', Text.lowerHexDigit (n / 16), Text.lowerHexDigit (n % 16)] =
      some n := by
  revert h
  revert n
  decide

/-- The code units before those of the rest. -/
def prepend (units : List Nat) (p : List Nat × List Char) : List Nat × List Char := (units ++ p.1, p.2)

theorem readUnits?_escape {c escaped : Char} (hne : c ≠ 'u') (h : escapedChar? c = some escaped)
    (rest : List Char) :
    readUnits? ('\\' :: c :: rest) = (readUnits? rest).map (prepend (Text.Utf16.encodeChar escaped)) := by
  rw [readUnits?.eq_def]
  cases hrest : readUnits? rest <;> simp [hne, h, hrest, prepend]

theorem readUnits?_plain {c : Char} (hquote : c ≠ '"') (hbackslash : c ≠ '\\') (hcontrol : ¬ c.toNat < 0x20)
    (rest : List Char) :
    readUnits? (c :: rest) = (readUnits? rest).map (prepend (Text.Utf16.encodeChar c)) := by
  rw [readUnits?.eq_def]
  cases hrest : readUnits? rest <;> simp [hbackslash, hcontrol, hrest, prepend]

/-- A character is read as it is written. -/
theorem readUnits?_writeChar (c : Char) (rest : List Char) :
    readUnits? (writeChar c ++ rest) =
      (readUnits? rest).map (prepend (Text.Utf16.encodeChar c)) := by
  unfold writeChar
  split_ifs with hquote hbackslash hb hf hn hr ht hcontrol
  all_goals subst_vars
  all_goals try exact readUnits?_escape (by decide) rfl rest
  · have hunit := readNumber?_control hcontrol
    have hplane : c.toNat < 0x10000 := by omega
    simp only [cons_append, nil_append]
    rw [readUnits?, hunit]
    cases hrest : readUnits? rest <;> simp [prepend, Text.Utf16.encodeChar, hplane]
  · exact readUnits?_plain hquote hbackslash hcontrol rest

theorem readUnits?_write (chars rest : List Char) :
    readUnits? (chars.flatMap writeChar ++ '"' :: rest) = some (Text.Utf16.encode chars, rest) := by
  induction chars with
  | nil => rfl
  | cons c chars ih =>
      rw [flatMap_cons, append_assoc, readUnits?_writeChar, ih]
      rfl

/-- A string is read as it is written. -/
theorem readString?_write (s : String) (rest : List Char) :
    readString? (s.toList.flatMap writeChar ++ '"' :: rest) = some (some s, rest) := by
  rw [readString?, readUnits?_write, Option.map_some]
  dsimp only
  rw [Text.Utf16.decode?_encode, Option.map_some, String.ofList_toList]

/-- What is read up to a closing quote is read in front of anything. -/
theorem readUnits?_append {text rest : List Char} {units : List Nat}
    (h : readUnits? text = some (units, rest)) (more : List Char) :
    readUnits? (text ++ more) = some (units, rest ++ more) := by
  fun_induction readUnits? text generalizing units with
  | case1 => cases h
  | case2 rest' =>
      cases h
      rfl
  | case3 a b c d rest' ih =>
      simp only [Option.bind_eq_bind, Option.bind_eq_some_iff] at h
      obtain ⟨unit, hunit, ⟨units', rest''⟩, hrest, h⟩ := h
      cases h
      simp only [cons_append]
      rw [readUnits?, hunit, Option.bind_eq_bind, Option.bind_some, ih hrest]
      rfl
  | case4 c rest' hunit ih => 
      simp only [Option.bind_eq_bind, Option.bind_eq_some_iff] at h
      obtain ⟨escaped, hescaped, ⟨units', rest''⟩, hrest, h⟩ := h
      cases h
      have hne : c ≠ 'u' := by
        rintro rfl
        cases hescaped
      rw [cons_append, cons_append, readUnits?_escape hne hescaped, ih hrest]
      rfl
  | case5 c rest' hquote hbackslash hunit hcontrol => cases h
  | case6 c rest' hquote hbackslash hunit hcontrol ih =>
      simp only [Option.bind_eq_bind, Option.bind_eq_some_iff] at h
      obtain ⟨⟨units', rest''⟩, hrest, h⟩ := h
      cases h
      -- a backslash with nothing behind it is no end of a string
      have hplain : c ≠ '\\' := by
        rintro rfl
        cases rest' with
        | nil => cases hrest
        | cons d rest' => exact hunit d rest' rfl rfl
      rw [cons_append, readUnits?_plain hquote hplain hcontrol, ih hrest]
      rfl

/-! ## Integers -/

/-- The number that an integer is written as. -/
def NumberToken.ofInt (n : Int) : NumberToken :=
  { negative := decide (n < 0), whole := Nat.toDigits 10 n.natAbs, fraction := [], exponent := none }

/-- An integer of 64 bits is read back, and no other. -/
theorem NumberToken.toInt?_ofInt (n : Int) : (ofInt n).toInt? =
    if Text.minInt64 ≤ n ∧ n < UInt64.size then some n else none := by
  by_cases hneg : n < 0
  · have habs : (n.natAbs : Int) = -n := by omega
    have hpos : 0 < n.natAbs := by omega
    have hsize : n < 18446744073709551616 := by omega
    simp [toInt?, ofInt, Text.readDecimal?_toDigits, hneg, habs, hpos, hsize]
  · have habs : (n.natAbs : Int) = n := by omega
    have hmin : Text.minInt64 ≤ n := by
      rw [Text.minInt64]
      omega
    have hsize : n.natAbs < UInt64.size ↔ n < UInt64.size := by omega
    simp [toInt?, ofInt, Text.readDecimal?_toDigits, hneg, habs, hmin, hsize]

/-- Only zero begins with a zero. -/
theorem head?_toDigits_ne {n : Nat} (h : n ≠ 0) : (Nat.toDigits 10 n).head? ≠ some '0' := by
  induction n using Nat.strongRecOn with
  | _ n ih =>
      rw [Nat.toDigits_eq_if (by decide)]
      split_ifs with hlt
      · simp [Nat.digitChar_eq_zero, h]
      · have hquotient := ih (n / 10) (by omega) (by omega)
        cases hdigits : Nat.toDigits 10 (n / 10) with
        | nil => exact absurd hdigits Nat.toDigits_ne_nil
        | cons c rest =>
            rw [hdigits] at hquotient
            simpa using hquotient

/-- What comes after a value does not go on with a number. -/
def Delimited (rest : List Char) : Prop :=
  ∀ c ∈ rest.head?, c.isDigit = false ∧ c ≠ '.' ∧ c ≠ 'e' ∧ c ≠ 'E'

theorem readDigits?_append {digits rest : List Char} (hne : digits ≠ [])
    (hdigits : ∀ c ∈ digits, c.isDigit) (hrest : ∀ c ∈ rest.head?, c.isDigit = false) :
    readDigits? (digits ++ rest) = some (digits, rest) := by
  have htake : rest.takeWhile Char.isDigit = [] := by
    cases rest with
    | nil => rfl
    | cons c rest => simp [hrest c rfl]
  have hdrop : rest.dropWhile Char.isDigit = rest := by
    cases rest with
    | nil => rfl
    | cons c rest => simp [hrest c rfl]
  rw [readDigits?, span_eq_takeWhile_dropWhile, takeWhile_append_of_pos hdigits,
    dropWhile_append_of_pos hdigits, htake, hdrop, append_nil]
  cases digits with
  | nil => exact absurd rfl hne
  | cons => rfl

theorem readWhole?_toDigits (n : Nat) {rest : List Char} (hrest : ∀ c ∈ rest.head?, c.isDigit = false) :
    readWhole? (Nat.toDigits 10 n ++ rest) = some (Nat.toDigits 10 n, rest) := by
  by_cases hzero : n = 0
  · subst hzero
    cases rest with
    | nil => rfl
    | cons c rest => simp [readWhole?, hrest c rfl]
  · have hread := readDigits?_append Nat.toDigits_ne_nil (@Text.isDigit_of_mem_toDigits n) hrest
    have hhead := head?_toDigits_ne hzero
    cases hn : Nat.toDigits 10 n with
    | nil => exact absurd hn Nat.toDigits_ne_nil
    | cons c digits =>
        rw [hn] at hread hhead
        have hc : c ≠ '0' := fun hc => hhead (by rw [hc, head?_cons])
        rw [← hread, cons_append, readWhole?.eq_def]
        simp [hc]

namespace Delimited

variable {rest : List Char}

theorem readFraction?_eq (h : Delimited rest) : readFraction? rest = some ([], rest) := by
  cases rest with
  | nil => rfl
  | cons c rest =>
      rw [readFraction?.eq_def]
      simp [(h c rfl).2.1]

theorem readExponent?_eq (h : Delimited rest) : readExponent? rest = some (none, rest) := by
  cases rest with
  | nil => rfl
  | cons c rest =>
      obtain ⟨_, _, he, hE⟩ := h c rfl
      simp [readExponent?, he, hE]

theorem not_isDigit (h : Delimited rest) : ∀ c ∈ rest.head?, c.isDigit = false := fun c hc => (h c hc).1

end Delimited

/-- An integer is read as it is written. -/
theorem readNumber?_toString (n : Int) {rest : List Char} (hrest : Delimited rest) :
    readNumber? ((toString n).toList ++ rest) = some (NumberToken.ofInt n, rest) := by
  have hwhole := readWhole?_toDigits n.natAbs hrest.not_isDigit
  rw [Text.toList_toString_int, append_assoc]
  by_cases hneg : n < 0
  · simp [readNumber?, hneg, hwhole, hrest.readFraction?_eq, hrest.readExponent?_eq, NumberToken.ofInt]
  · obtain ⟨c, others, hdigits, hc⟩ := Text.exists_toDigits_eq_cons n.natAbs
    have hminus : ∀ digits, Nat.toDigits 10 n.natAbs ++ rest ≠ '-' :: digits := by
      intro digits heq
      rw [hdigits] at heq
      rw [(cons.inj heq).1] at hc
      cases hc
    simp [readNumber?, hneg, hwhole, hrest.readFraction?_eq, hrest.readExponent?_eq, NumberToken.ofInt]

/-! ## Values -/

/-- A text is read as a value wherever it stands. -/
def ReadsAs (text : String) (tree : Tree) : Prop :=
  ∀ {fuel : Nat} {rest : List Char}, (text.toList ++ rest).length < fuel → Delimited rest →
    readTree fuel (text.toList ++ rest) = some (tree, rest)

theorem skipSpace_append {blanks : List Char} (h : ∀ c ∈ blanks, isSpace c) (rest : List Char) :
    skipSpace (blanks ++ rest) = skipSpace rest := dropWhile_append_of_pos h

theorem skipSpace_cons_of_not {c : Char} (h : isSpace c = false) (rest : List Char) :
    skipSpace (c :: rest) = c :: rest := dropWhile_cons_of_neg (by simp [h])

/-- Blanks before a value do not count. -/
theorem readTree_append {blanks : List Char} (h : ∀ c ∈ blanks, isSpace c) (fuel : Nat)
    (rest : List Char) : readTree fuel (blanks ++ rest) = readTree fuel rest := by
  cases fuel with
  | zero => rfl
  | succ fuel => simp only [readTree, skipSpace_append h]

theorem readsAs_null : ReadsAs "null" .null := by
  intro fuel rest hfuel _
  cases fuel with
  | zero => omega
  | succ fuel => rfl

theorem readsAs_bool (b : Bool) : ReadsAs (compact (.bool b)) (.bool b) := by
  intro fuel rest hfuel _
  cases fuel with
  | zero => omega
  | succ fuel => cases b <;> rfl

theorem readsAs_string (s : String) : ReadsAs (writeString s) (.string (some s)) := by
  intro fuel rest hfuel _
  cases fuel with
  | zero => omega
  | succ fuel =>
      have hread := readString?_write s rest
      rw [writeString, String.toList_ofList]
      simp only [cons_append, nil_append, append_assoc]
      rw [readTree, skipSpace_cons_of_not (by decide)]
      simp [hread]

/-- A digit or a minus sign begins a number. -/
theorem readTree_number {c : Char} (h : c.isDigit ∨ c = '-') (fuel : Nat) (rest : List Char) :
    readTree (fuel + 1) (c :: rest) =
      (readNumber? (c :: rest)).map fun p => (.number p.1, p.2) := by
  have hspace : isSpace c = false := by
    rcases h with h | rfl
    · simp only [isSpace, Bool.or_eq_false_iff, beq_eq_false_iff_ne]
      refine ⟨⟨⟨?_, ?_⟩, ?_⟩, ?_⟩
      all_goals
        rintro rfl
        exact absurd h (by decide)
    · rfl
  have hne {other : Char} (hdigit : other.isDigit = false) (hminus : other ≠ '-') : c ≠ other := by
    rintro rfl
    rcases h with h | h
    · exact absurd h (by simp [hdigit])
    · exact hminus h
  have hquote : c ≠ '"' := hne (by decide) (by decide)
  have hbracket : c ≠ '[' := hne (by decide) (by decide)
  have hbrace : c ≠ '\x7b' := hne (by decide) (by decide)
  have hn : c ≠ 'n' := hne (by decide) (by decide)
  have ht : c ≠ 't' := hne (by decide) (by decide)
  have hf : c ≠ 'f' := hne (by decide) (by decide)
  rw [readTree, skipSpace_cons_of_not hspace]
  split
  · rename_i heq
    cases heq
  · rename_i heq
    exact absurd (cons.inj heq).1 hquote
  · rename_i heq
    exact absurd (cons.inj heq).1 hbracket
  · rename_i heq
    exact absurd (cons.inj heq).1 hbrace
  · rename_i heq
    cases heq
    rw [if_neg hn, if_neg ht, if_neg hf]

theorem readsAs_integer (n : Int) : ReadsAs (toString n) (.number (.ofInt n)) := by
  intro fuel rest hfuel hrest
  have hread := readNumber?_toString n hrest
  cases fuel with
  | zero => omega
  | succ fuel =>
      obtain ⟨c, digits, htext, hc⟩ :
          ∃ c digits, (toString n).toList = c :: digits ∧ (c.isDigit ∨ c = '-') := by
        rw [Text.toList_toString_int]
        by_cases hneg : n < 0
        · exact ⟨'-', _, by rw [if_pos hneg]; rfl, .inr rfl⟩
        · obtain ⟨c, digits, hdigits, hc⟩ := Text.exists_toDigits_eq_cons n.natAbs
          exact ⟨c, digits, by rw [if_neg hneg, nil_append, hdigits], .inl hc⟩
      rw [htext, cons_append] at hread ⊢
      rw [readTree_number hc, hread, Option.map_some]

/-- A string that is cut short is read as nothing. -/
theorem parse?_eq_none_of_prefix {s : String} {front : List Char}
    (h : front <+: (writeString s).toList) (hne : front ≠ (writeString s).toList) :
    Tree.parse? (String.ofList front) = none := by
  obtain ⟨more, htext⟩ := h
  rw [writeString, String.toList_ofList] at htext hne
  cases front with
  | nil => rfl
  | cons c front =>
      obtain ⟨rfl, hrest⟩ := cons.inj htext
      have hbody : front ++ more = s.toList.flatMap writeChar ++ ['"'] := hrest
      have hcut : readUnits? front = none := by
        by_contra hread
        obtain ⟨⟨units, rest⟩, hread⟩ := Option.ne_none_iff_exists'.mp hread
        have hwhole := readUnits?_append hread more
        rw [hbody, readUnits?_write] at hwhole
        obtain ⟨_, hnil⟩ := Prod.mk.inj (Option.some.inj hwhole)
        obtain ⟨_, rfl⟩ := append_eq_nil_iff.mp hnil.symm
        exact hne (by rw [← append_nil front, hbody]; rfl)
      have hread : readTree (front.length + 2) ('"' :: front) = none := by
        rw [readTree, skipSpace_cons_of_not (by decide)]
        simp [readString?, hcut]
      rw [Tree.parse?, String.toList_ofList, length_cons, hread]
/-! ## Objects -/

/-- A member of an object as it is written. -/
def memberText (level : Nat) (m : String × Json) : String := writeString m.1 ++ ": " ++ indented level m.2

theorem indentedMembers_eq_map (level : Nat) (members : List (String × Json)) :
    indentedMembers level members = members.map (memberText level) := by
  induction members with
  | nil => rfl
  | cons m members ih => rw [indentedMembers, ih, map_cons, memberText]

/-- A member is read as a member of a tree. -/
def MemberReadsAs (level : Nat) (m : String × Json) (t : Option String × Tree) : Prop :=
  t.1 = some m.1 ∧ ReadsAs (indented level m.2) t.2

theorem isSpace_newLine (level : Nat) : ∀ c ∈ (newLine level).toList, isSpace c := by
  intro c hc
  simp only [newLine, String.toList_append, String.toList_ofList, mem_append, mem_replicate] at hc
  rcases hc with hc | ⟨_, rfl⟩
  · obtain rfl : c = '\n' := by simpa using hc
    rfl
  · rfl

theorem toList_memberText (level : Nat) (m : String × Json) : (memberText level m).toList =
    '"' :: (m.1.toList.flatMap writeChar ++ '"' :: ':' :: ' ' :: (indented level m.2).toList) := by
  simp [memberText, writeString]

/-- What follows a member decides whether there are more. -/
theorem readMembers_member {level : Nat} {m : String × Json} {t : Option String × Tree}
    (h : MemberReadsAs level m t) {blanks rest : List Char} {fuel : Nat}
    (hblanks : ∀ c ∈ blanks, isSpace c)
    (hfuel : ((memberText level m).toList ++ rest).length ≤ fuel) (hrest : Delimited rest)
    {after : List Char} :
    (skipSpace rest = ',' :: after →
      readMembers (fuel + 1) (blanks ++ ((memberText level m).toList ++ rest)) =
        (readMembers fuel after).map fun p => (t :: p.1, p.2)) ∧
    (skipSpace rest = '\x7d' :: after →
      readMembers (fuel + 1) (blanks ++ ((memberText level m).toList ++ rest)) =
        some ([t], after)) := by
  obtain ⟨hname, hvalue⟩ := h
  obtain ⟨name, tree⟩ := t
  cases hname
  rw [toList_memberText] at hfuel ⊢
  simp only [cons_append, append_assoc, length_cons, length_append] at hfuel ⊢
  have hspace : ∀ c ∈ [' '], isSpace c := by simp [isSpace]
  have hblank := readTree_append hspace fuel ((indented level m.2).toList ++ rest)
  rw [hvalue (by rw [length_append]; omega) hrest, singleton_append] at hblank
  rw [readMembers, skipSpace_append hblanks, skipSpace_cons_of_not (by decide)]
  simp only [readString?_write, Option.bind_eq_bind, Option.bind_some]
  rw [skipSpace_cons_of_not (by decide)]
  simp only [hblank, Option.bind_some]
  constructor
  · intro hafter
    simp only [hafter]
    cases readMembers fuel after <;> rfl
  · intro hafter
    simp only [hafter]
    rfl

theorem delimited_of_cons {c : Char} (hdigit : c.isDigit = false) (hpoint : c ≠ '.') (he : c ≠ 'e')
    (hE : c ≠ 'E') (rest : List Char) : Delimited (c :: rest) := by
  intro other hother
  cases hother
  exact ⟨hdigit, hpoint, he, hE⟩

/-- Blanks end a value. -/
theorem delimited_append {blanks rest : List Char} (h : ∀ c ∈ blanks, isSpace c)
    (hrest : Delimited rest) : Delimited (blanks ++ rest) := by
  cases blanks with
  | nil => exact hrest
  | cons c blanks =>
      have hc := h c mem_cons_self
      simp only [isSpace, Bool.or_eq_true, beq_iff_eq] at hc
      rcases hc with ((rfl | rfl) | rfl) | rfl <;>
        exact delimited_of_cons (by decide) (by decide) (by decide) (by decide) _

/-- Members that are written one after another are read in their order. -/
theorem readMembers_written {level : Nat} {members : List (String × Json)}
    {trees : List (Option String × Tree)} (h : Forall₂ (MemberReadsAs level) members trees)
    (hne : members ≠ []) {blanks closing : List Char} (hblanks : ∀ c ∈ blanks, isSpace c)
    (hclosing : ∀ c ∈ closing, isSpace c) {fuel : Nat} {rest : List Char}
    (hfuel : (blanks ++ ((',' :: blanks).intercalate
      (members.map fun m => (memberText level m).toList) ++ (closing ++ '\x7d' :: rest))).length < fuel) :
    readMembers fuel (blanks ++ ((',' :: blanks).intercalate
      (members.map fun m => (memberText level m).toList) ++ (closing ++ '\x7d' :: rest))) =
        some (trees, rest) := by
  induction h generalizing fuel with
  | nil => exact absurd rfl hne
  | @cons m t members trees hm htail ih =>
      obtain ⟨fuel, rfl⟩ : ∃ n, fuel = n + 1 := ⟨fuel - 1, by omega⟩
      cases members with
      | nil =>
          cases htail
          simp only [map_cons, map_nil, intercalate_singleton, length_append] at hfuel ⊢
          have hclose : Delimited (closing ++ '\x7d' :: rest) :=
            delimited_append hclosing (delimited_of_cons (by decide) (by decide) (by decide) (by decide) _)
          apply (readMembers_member hm hblanks (by simp only [length_append]; omega) hclose).2
          rw [skipSpace_append hclosing, skipSpace_cons_of_not (by decide)]
      | cons m' members =>
          simp only [map_cons, intercalate_cons_cons, append_assoc, cons_append] at hfuel ih ⊢
          simp only [length_append, length_cons] at hfuel
          have hcomma : Delimited (',' :: (blanks ++ ((',' :: blanks).intercalate
              ((memberText level m').toList :: members.map fun m => (memberText level m).toList) ++
                (closing ++ '\x7d' :: rest)))) :=
            delimited_of_cons (by decide) (by decide) (by decide) (by decide) _
          rw [(readMembers_member hm hblanks (by simp only [length_append, length_cons]; omega) hcomma).1
            (skipSpace_cons_of_not (by decide) _), ih (by simp) (by simp only [length_append, length_cons]; omega),
            Option.map_some]

/-- Members begin with the name of the first. -/
theorem skipSpace_members {blanks : List Char} (hblanks : ∀ c ∈ blanks, isSpace c) (level : Nat)
    (m : String × Json) (members : List (String × Json)) (rest : List Char) :
    ∃ after, skipSpace (blanks ++ ((',' :: blanks).intercalate
      ((m :: members).map fun m => (memberText level m).toList) ++ rest)) = '"' :: after := by
  rw [skipSpace_append hblanks, map_cons]
  cases members with
  | nil => exact ⟨_, by rw [map_nil, intercalate_singleton, toList_memberText, cons_append,
      skipSpace_cons_of_not (by decide)]⟩
  | cons m' members => exact ⟨_, by rw [map_cons, intercalate_cons_cons, toList_memberText, cons_append,
      cons_append, cons_append, skipSpace_cons_of_not (by decide)]⟩

/-- An object is read as it is written if its members are. -/
theorem readsAs_object {level : Nat} {members : List (String × Json)}
    {trees : List (Option String × Tree)} (h : Forall₂ (MemberReadsAs (level + 1)) members trees) :
    ReadsAs (indented level (.object members)) (.object trees) := by
  intro fuel rest hfuel hrest
  cases fuel with
  | zero => omega
  | succ fuel =>
      rw [indented, indentedMembers_eq_map] at hfuel ⊢
      cases members with
      | nil =>
          cases h
          have htext : (block "\x7b" "\x7d" level []).toList = ['\x7b', '\x7d'] := by simp [block]
          rw [map_nil, htext]
          rfl
      | cons m members =>
          have htext : (block "\x7b" "\x7d" level ((m :: members).map (memberText (level + 1)))).toList ++
              rest = '\x7b' :: ((newLine (level + 1)).toList ++
                ((',' :: (newLine (level + 1)).toList).intercalate
                  ((m :: members).map fun m => (memberText (level + 1) m).toList) ++
                    ((newLine level).toList ++ '\x7d' :: rest))) := by
            simp [block, String.toList_intercalate, Function.comp_def]
          rw [htext, length_cons] at hfuel
          have hread := readMembers_written h (by simp) (isSpace_newLine _) (isSpace_newLine _)
            (Nat.succ_lt_succ_iff.mp hfuel)
          obtain ⟨after, hfirst⟩ := skipSpace_members (isSpace_newLine (level + 1)) (level + 1) m members
            ((newLine level).toList ++ '\x7d' :: rest)
          rw [htext, readTree, skipSpace_cons_of_not (by decide)]
          simp only [hfirst, hread]
          rfl

/-- A text that is written as a value is read as that. -/
theorem parse?_eq_of_readsAs {text : String} {tree : Tree} (h : ReadsAs text tree) :
    Tree.parse? text = some tree := by
  have hread : readTree (text.toList.length + 1) (text.toList ++ []) = some (tree, []) :=
    h (by simp) (by simp [Delimited])
  rw [append_nil] at hread
  rw [Tree.parse?, hread]
  rfl

end Json

end ChangeCapture
