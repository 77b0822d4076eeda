import ChangeCapture.Decimal.Reading
import ChangeCapture.Decimal.Shortest
import ChangeCapture.Proofs.Text.Integer

/-! # Decimal numerals

A text is read as a number exactly if it is a numeral or one of the words for what has no numeral. A
number is written as a numeral if it is finite and as such a word if it is not. -/

namespace ChangeCapture.Decimal

/-! ## Grammar -/

inductive IsSign : List Char → Prop where
  | absent : IsSign []
  | plus : IsSign ['+']
  | minus : IsSign ['-']

/-- Digits with an optional point before, among or behind them. -/
inductive IsMantissa : List Char → Prop where
  | integer {digits : List Char} (hne : digits ≠ []) (hdigits : ∀ c ∈ digits, c.isDigit) :
      IsMantissa digits
  | pointed {whole part : List Char} (hne : whole ++ part ≠ [])
      (hdigits : ∀ c ∈ whole ++ part, c.isDigit) : IsMantissa (whole ++ '.' :: part)

/-- Nothing, or a mark of either case with a signed integer behind it. -/
inductive IsExponent : List Char → Prop where
  | absent : IsExponent []
  | marked {mark : Char} {sign digits : List Char} (hmark : mark = 'e' ∨ mark = 'E') (hsign : IsSign sign)
      (hne : digits ≠ []) (hdigits : ∀ c ∈ digits, c.isDigit) : IsExponent (mark :: (sign ++ digits))

/-- A decimal numeral: an optional sign, digits with an optional point, and an optional exponent. -/
inductive IsNumeral : List Char → Prop where
  | intro {sign mantissa exponent : List Char} (hsign : IsSign sign) (hmantissa : IsMantissa mantissa)
      (hexponent : IsExponent exponent) : IsNumeral (sign ++ (mantissa ++ exponent))

def numberWords : List String := ["nan", "inf", "infinity"]

/-- A word for infinity or for no number, in any case and with an optional sign. -/
inductive IsNumberWord : List Char → Prop where
  | intro {sign word : List Char} (hsign : IsSign sign)
      (hword : String.ofList (word.map Char.toLower) ∈ numberWords) : IsNumberWord (sign ++ word)

/-! ## Numerals and words -/

section Characters

variable {text : List Char}

theorem IsSign.toLower_ne (h : IsSign text) : ∀ c ∈ text, c.toLower ≠ 'n' := by
  cases h with
  | absent => exact List.forall_mem_nil _
  | plus | minus => exact List.forall_mem_singleton.mpr (by decide)

theorem toLower_ne_of_isDigit {digits : List Char} (h : ∀ c ∈ digits, c.isDigit) :
    ∀ c ∈ digits, c.toLower ≠ 'n' := by
  intro c hc
  rw [Text.toLower_of_isDigit (h c hc)]
  rintro rfl
  exact absurd (h 'n' hc) (by decide)

theorem IsNumeral.toLower_ne (h : IsNumeral text) : ∀ c ∈ text, c.toLower ≠ 'n' := by
  obtain ⟨hsign, hmantissa, hexponent⟩ := h
  refine List.forall_mem_append.mpr ⟨hsign.toLower_ne, List.forall_mem_append.mpr ⟨?_, ?_⟩⟩
  · cases hmantissa with
    | integer _ hdigits => exact toLower_ne_of_isDigit hdigits
    | pointed _ hdigits =>
        obtain ⟨hwhole, hpart⟩ := List.forall_mem_append.mp (toLower_ne_of_isDigit hdigits)
        exact List.forall_mem_append.mpr ⟨hwhole, List.forall_mem_cons.mpr ⟨by decide, hpart⟩⟩
  · cases hexponent with
    | absent => simp
    | marked hmark hsign _ hdigits =>
        refine List.forall_mem_cons.mpr ⟨?_, ?_⟩
        · rcases hmark with rfl | rfl <;> decide
        · exact List.forall_mem_append.mpr ⟨hsign.toLower_ne, toLower_ne_of_isDigit hdigits⟩

/-- Each of the words has a letter that no numeral has. -/
theorem IsNumeral.not_isNumberWord (h : IsNumeral text) : ¬ IsNumberWord text := by
  intro hword
  cases hword with
  | @intro sign word hsign hword =>
      have hletter : 'n' ∈ (String.ofList (word.map Char.toLower)).toList := by
        simp only [numberWords, List.mem_cons, List.not_mem_nil, or_false] at hword
        rcases hword with hword | hword | hword <;> rw [hword] <;> decide
      rw [String.toList_ofList] at hletter
      obtain ⟨c, hc, hlower⟩ := List.mem_map.mp hletter
      exact h.toLower_ne c (List.mem_append_right sign hc) hlower

end Characters

/-! ## Reading -/

section Reading

variable {text : List Char}

theorem spanDigits_eq (text : List Char) :
    spanDigits text = (text.takeWhile Char.isDigit, text.dropWhile Char.isDigit) :=
  List.span_eq_takeWhile_dropWhile Char.isDigit text

theorem append_of_spanDigits {digits rest : List Char} (h : spanDigits text = (digits, rest)) :
    text = digits ++ rest := by
  rw [spanDigits_eq] at h
  cases h
  exact List.takeWhile_append_dropWhile.symm

/-- Digits are read up to the first other character. -/
theorem spanDigits_append {digits rest : List Char} (hdigits : ∀ c ∈ digits, c.isDigit)
    (hrest : ∀ c ∈ rest.head?, c.isDigit = false) : spanDigits (digits ++ rest) = (digits, rest) := by
  have htail : rest.takeWhile Char.isDigit = [] ∧ rest.dropWhile Char.isDigit = rest := by
    cases rest with
    | nil => exact ⟨rfl, rfl⟩
    | cons c rest => simp [hrest c rfl]
  rw [spanDigits_eq, List.takeWhile_append_of_pos hdigits, List.dropWhile_append_of_pos hdigits,
    htail.1, htail.2, List.append_nil]

theorem exists_isSign_takeSign (text : List Char) :
    ∃ sign, IsSign sign ∧ text = sign ++ (takeSign text).2 := by
  unfold takeSign
  split
  · exact ⟨_, .minus, rfl⟩
  · exact ⟨_, .plus, rfl⟩
  · exact ⟨_, .absent, rfl⟩

/-- A sign is taken from a text that has no second one. -/
theorem takeSign_append {sign : List Char} (hsign : IsSign sign) (hminus : text.head? ≠ some '-')
    (hplus : text.head? ≠ some '+') : (takeSign (sign ++ text)).2 = text := by
  cases hsign with
  | absent =>
      rw [List.nil_append, takeSign]
      · rintro rest rfl
        exact hminus rfl
      · rintro rest rfl
        exact hplus rfl
  | plus | minus => rfl

theorem head?_ne_of_isDigit {digits rest : List Char} (hne : digits ≠ []) (h : ∀ c ∈ digits, c.isDigit)
    {c : Char} (hc : c.isDigit = false) : (digits ++ rest).head? ≠ some c := by
  cases digits with
  | nil => exact absurd rfl hne
  | cons d digits =>
      intro hhead
      cases hhead
      simp [h c List.mem_cons_self] at hc

theorem exists_readExponent?_iff : (∃ n, readExponent? text = some n) ↔ IsExponent text := by
  constructor
  · rintro ⟨n, hn⟩
    unfold readExponent? at hn
    split at hn
    · exact .absent
    · rename_i mark rest
      split at hn
      · rename_i hmark
        obtain ⟨value, hvalue, _⟩ := Option.map_eq_some_iff.mp hn
        obtain ⟨digits, hdigits, _⟩ := Option.bind_eq_some_iff.mp hvalue
        obtain ⟨hne, hall⟩ := Text.exists_readDecimal?_iff.mp ⟨digits, hdigits⟩
        obtain ⟨sign, hsign, hrest⟩ := exists_isSign_takeSign rest
        rw [hrest]
        exact .marked hmark hsign hne hall
      · cases hn
  · rintro (_ | ⟨hmark, hsign, hne, hall⟩)
    · exact ⟨0, rfl⟩
    · obtain ⟨n, hn⟩ := Text.exists_readDecimal?_iff.mpr ⟨hne, hall⟩
      have hhead (c : Char) (hc : c.isDigit = false) := @head?_ne_of_isDigit _ [] hne hall c hc
      simp only [List.append_nil] at hhead
      have hdigits := takeSign_append hsign (hhead '-' rfl) (hhead '+' rfl)
      rw [readExponent?, if_pos hmark]
      simp [hdigits, hn]

theorem IsExponent.head? (h : IsExponent text) : ∀ c ∈ text.head?, c.isDigit = false ∧ c ≠ '.' := by
  rcases h with _ | ⟨rfl | rfl, _, _, _⟩ <;> simp

/-- The digits behind a point, and what follows them. -/
def spanPart : List Char → List Char × List Char
  | '.' :: rest => spanDigits rest
  | rest => ([], rest)

theorem spanPart_of_head? (h : text.head? ≠ some '.') : spanPart text = ([], text) := by
  rw [spanPart]
  rintro rest rfl
  exact h rfl

/-- A number is read if its digits and its exponent are. -/
theorem exists_readUnsigned? {negative : Bool} {whole after part tail : List Char}
    (hwhole : spanDigits text = (whole, after)) (hpart : spanPart after = (part, tail)) :
    (∃ n, readUnsigned? negative text = some n) ↔
      (whole ++ part ≠ [] ∧ ∀ c ∈ whole ++ part, c.isDigit) ∧ IsExponent tail := by
  have hread : readUnsigned? negative text =
      (Text.readDecimal? ((spanDigits text).1 ++ (spanPart (spanDigits text).2).1)).bind fun digits =>
        (readExponent? (spanPart (spanDigits text).2).2).bind fun exponent =>
          some ⟨negative, digits, exponent - ((spanPart (spanDigits text).2).1.length : Int)⟩ := rfl
  rw [hwhole, hpart] at hread
  rw [hread, ← Text.exists_readDecimal?_iff, ← exists_readExponent?_iff]
  constructor
  · rintro ⟨n, hn⟩
    obtain ⟨digits, hdigits, hn⟩ := Option.bind_eq_some_iff.mp hn
    obtain ⟨exponent, hexponent, _⟩ := Option.bind_eq_some_iff.mp hn
    exact ⟨⟨digits, hdigits⟩, exponent, hexponent⟩
  · rintro ⟨⟨digits, hdigits⟩, exponent, hexponent⟩
    rw [hdigits, hexponent]
    exact ⟨_, rfl⟩

/-- Digits with an optional point and an optional exponent are read, and nothing else. -/
theorem exists_readUnsigned?_iff {negative : Bool} : (∃ n, readUnsigned? negative text = some n) ↔
    ∃ mantissa exponent, IsMantissa mantissa ∧ IsExponent exponent ∧ text = mantissa ++ exponent := by
  constructor
  · intro h
    rcases hwhole : spanDigits text with ⟨whole, after⟩
    rcases hpart : spanPart after with ⟨part, tail⟩
    obtain ⟨⟨hne, hdigits⟩, hexponent⟩ := (exists_readUnsigned? hwhole hpart).mp h
    have htext := append_of_spanDigits hwhole
    unfold spanPart at hpart
    split at hpart
    · refine ⟨_, tail, .pointed hne hdigits, hexponent, ?_⟩
      rw [htext, append_of_spanDigits hpart, List.append_assoc, List.cons_append]
    · cases hpart
      rw [List.append_nil] at hne hdigits
      exact ⟨whole, _, .integer hne hdigits, hexponent, htext⟩
  · rintro ⟨mantissa, exponent, hmantissa, hexponent, rfl⟩
    have hhead := hexponent.head?
    cases hmantissa with
    | integer hne hdigits =>
        have hwhole := spanDigits_append hdigits fun c hc => (hhead c hc).1
        have hpart : spanPart exponent = ([], exponent) :=
          spanPart_of_head? fun hc => (hhead '.' hc).2 rfl
        refine (exists_readUnsigned? hwhole hpart).mpr ⟨?_, hexponent⟩
        rw [List.append_nil]
        exact ⟨hne, hdigits⟩
    | @pointed whole part hne hdigits =>
        obtain ⟨hwholeDigits, hpartDigits⟩ := List.forall_mem_append.mp hdigits
        have hwhole : spanDigits (whole ++ '.' :: part ++ exponent) =
            (whole, '.' :: (part ++ exponent)) := by
          rw [List.append_assoc, List.cons_append]
          exact spanDigits_append hwholeDigits (by simp)
        have hpart : spanPart ('.' :: (part ++ exponent)) = (part, exponent) :=
          spanDigits_append hpartDigits fun c hc => (hhead c hc).1
        exact (exists_readUnsigned? hwhole hpart).mpr ⟨⟨hne, hdigits⟩, hexponent⟩

theorem IsMantissa.head? (h : IsMantissa text) (rest : List Char) {c : Char} (hdigit : c.isDigit = false)
    (hpoint : c ≠ '.') : (text ++ rest).head? ≠ some c := by
  cases h with
  | integer hne hdigits => exact head?_ne_of_isDigit hne hdigits hdigit
  | @pointed whole part hne hdigits =>
      cases whole with
      | nil => simpa using hpoint.symm
      | cons d whole =>
          rw [List.append_assoc]
          exact head?_ne_of_isDigit (List.cons_ne_nil d whole) (List.forall_mem_append.mp hdigits).1 hdigit

theorem head?_ne_of_numberWord {word : List Char}
    (hword : String.ofList (word.map Char.toLower) ∈ numberWords) {c : Char}
    (hc : c.toLower ∉ ['n', 'i']) : word.head? ≠ some c := by
  intro hhead
  obtain ⟨rest, rfl⟩ := List.head?_eq_some_iff.mp hhead
  simp only [numberWords, List.mem_cons, List.not_mem_nil, or_false, ← String.toList_inj,
    String.toList_ofList] at hword
  refine hc ?_
  rcases hword with hword | hword | hword <;> rw [(List.cons.inj hword).1] <;> decide

/-- A number is read if one of the words or an unsigned numeral stands behind its sign. -/
theorem exists_readNumberText? (text : List Char) : (∃ n, readNumberText? text = some n) ↔
    String.ofList ((takeSign text).2.map Char.toLower) ∈ numberWords ∨
      ∃ n, readUnsigned? (takeSign text).1 (takeSign text).2 = some n := by
  simp only [readNumberText?, numberWords, List.mem_cons, List.not_mem_nil, or_false]
  split_ifs with hnan hinf
  · simp [hnan]
  · simp [hinf]
  · simp [hnan, hinf, Option.map_eq_some_iff]

/-- A text is read as a number exactly if it is a numeral or a word. -/
theorem exists_readNumberText?_iff :
    (∃ n, readNumberText? text = some n) ↔ IsNumeral text ∨ IsNumberWord text := by
  rw [exists_readNumberText?]
  constructor
  · intro h
    obtain ⟨sign, hsign, htext⟩ := exists_isSign_takeSign text
    rw [htext]
    rcases h with hword | hnumeral
    · exact .inr (.intro hsign hword)
    · obtain ⟨mantissa, exponent, hmantissa, hexponent, hbody⟩ := exists_readUnsigned?_iff.mp hnumeral
      rw [hbody]
      exact .inl (.intro hsign hmantissa hexponent)
  · rintro (⟨hsign, hmantissa, hexponent⟩ | ⟨hsign, hword⟩)
    · right
      rw [takeSign_append hsign (hmantissa.head? _ (by decide) (by decide))
        (hmantissa.head? _ (by decide) (by decide))]
      exact exists_readUnsigned?_iff.mpr ⟨_, _, hmantissa, hexponent, rfl⟩
    · left
      rwa [takeSign_append hsign (head?_ne_of_numberWord hword (by decide))
        (head?_ne_of_numberWord hword (by decide))]

end Reading

/-! ## Writing -/

theorem isDigit_of_mem_zeros {n : Nat} : ∀ c ∈ List.replicate n '0', c.isDigit := fun c hc => by
  rw [List.eq_of_mem_replicate hc]
  rfl

theorem isMantissa_positional (d : DecimalDigits) : IsMantissa d.positional := by
  have hdigits : ∀ c ∈ Nat.toDigits 10 d.digits, c.isDigit := Text.isDigit_of_mem_toDigits
  have hne : Nat.toDigits 10 d.digits ≠ [] := Nat.toDigits_ne_nil
  unfold DecimalDigits.positional
  dsimp only
  split
  · rename_i hpoint
    have hpart := List.forall_mem_append.mpr ⟨@isDigit_of_mem_zeros (-d.point).toNat, hdigits⟩
    exact @IsMantissa.pointed ['0'] _ (List.cons_ne_nil _ _) (List.forall_mem_cons.mpr ⟨rfl, hpart⟩)
  split
  · exact .integer (List.append_ne_nil_of_left_ne_nil hne _)
      (List.forall_mem_append.mpr ⟨hdigits, isDigit_of_mem_zeros⟩)
  · rw [List.append_assoc, List.singleton_append]
    exact .pointed (by rwa [List.take_append_drop]) (by rwa [List.take_append_drop])

theorem IsMantissa.isNumeral {mantissa : List Char} (h : IsMantissa mantissa) (negative : Prop)
    [Decidable negative] : IsNumeral (if negative then '-' :: mantissa else mantissa) := by
  have hnumeral {sign : List Char} (hsign : IsSign sign) : IsNumeral (sign ++ mantissa) := by
    simpa using IsNumeral.intro hsign h .absent
  split
  · exact hnumeral .minus
  · exact hnumeral .absent

/-- A finite number is written as a numeral. -/
theorem isNumeral_render {x : Binary64} (h : x.isFinite = true) : IsNumeral (render x).toList := by
  have hfield : x.exponentField ≠ 2047 := of_decide_eq_true h
  have hnan : x.isNaN = false := by simp [Binary64.isNaN, hfield]
  have hinfinite : x.isInfinite = false := by simp [Binary64.isInfinite, hfield]
  have hmantissa : IsMantissa (if x.significand = 0 then ['0'] else (shortestDigits x).positional) := by
    split
    · exact .integer (List.cons_ne_nil _ _) (List.forall_mem_singleton.mpr rfl)
    · exact isMantissa_positional _
  simpa [render, hnan, hinfinite] using hmantissa.isNumeral (x.isNegative = true)

/-- A number that is not finite is written as a word. -/
theorem isNumberWord_render {x : Binary64} (h : x.isFinite = false) : IsNumberWord (render x).toList := by
  have hfield : x.exponentField = 2047 := by simpa [Binary64.isFinite] using h
  by_cases hfraction : x.fraction = 0
  · have hnan : x.isNaN = false := by simp [Binary64.isNaN, hfraction]
    have hinfinite : x.isInfinite = true := by simp [Binary64.isInfinite, hfield, hfraction]
    have hword : String.ofList (['i', 'n', 'f'].map Char.toLower) ∈ numberWords := by decide
    simp only [render, hnan, hinfinite, if_true, String.toList_ofList, Bool.false_eq_true, if_false]
    split
    · exact .intro .minus hword
    · exact .intro .absent hword
  · have hnan : x.isNaN = true := by simp [Binary64.isNaN, hfield, hfraction]
    rw [render, if_pos hnan]
    exact @IsNumberWord.intro [] "NaN".toList .absent (by decide)

/-- An integer is written as a numeral. -/
theorem isNumeral_toString (n : Int) : IsNumeral (toString n).toList := by
  have hmantissa : IsMantissa (Nat.toDigits 10 n.natAbs) :=
    .integer Nat.toDigits_ne_nil Text.isDigit_of_mem_toDigits
  have hnumeral := hmantissa.isNumeral (n < 0)
  rw [Text.toList_toString_int]
  split <;> rename_i hneg
  · rwa [if_pos hneg] at hnumeral
  · rwa [if_neg hneg] at hnumeral

end ChangeCapture.Decimal
