import ChangeCapture.Proofs.Statement.Reading

/-! # What may come after a statement -/

namespace ChangeCapture

namespace Statement

/-- What may come after a statement: blanks of some kind, and behind them nothing or a text that a
semicolon begins. -/
structure Ending where
  blank : Char → Bool
  closing : List Char
  isBlank_of_blank : ∀ c, blank c = true → Text.isBlank c = true
  head_closing : ∀ c ∈ closing.head?, c = ';'

namespace Ending

variable {ending : Ending}

/-- The text is the ending from some place in its blanks on. -/
def Writes (ending : Ending) (more : List Char) : Prop :=
  ∃ blanks : List Char, (∀ c ∈ blanks, ending.blank c = true) ∧ more = blanks ++ ending.closing

theorem writes_closing (ending : Ending) : ending.Writes ending.closing := ⟨[], by simp, rfl⟩

theorem Writes.head {more : List Char} (h : ending.Writes more) :
    ∀ c ∈ more.head?, Text.isBlank c = true ∨ c = ';' := by
  obtain ⟨blanks, hblanks, rfl⟩ := h
  cases blanks with
  | nil => exact fun c hc => .inr (ending.head_closing c hc)
  | cons b blanks =>
      rintro c hc
      cases Option.mem_some_iff.mp hc
      exact .inl (ending.isBlank_of_blank b (hblanks b List.mem_cons_self))

theorem Writes.head_ne {more : List Char} (h : ending.Writes more) {c : Char}
    (hblank : Text.isBlank c = false) (hsemicolon : c ≠ ';') : more.head? ≠ some c := by
  intro hc
  rcases h.head c hc with hc | hc
  · simp [hc] at hblank
  · exact hsemicolon hc

theorem dropWhile_closing (ending : Ending) :
    ending.closing.dropWhile Text.isAsciiBlank = ending.closing := by
  cases hclosing : ending.closing with
  | nil => rfl
  | cons c rest =>
      have hc : c = ';' := ending.head_closing c (by rw [hclosing]; rfl)
      rw [hc]
      rfl

theorem Writes.dropWhile {more : List Char} (h : ending.Writes more) :
    ending.Writes (more.dropWhile Text.isAsciiBlank) := by
  obtain ⟨blanks, hblanks, rfl⟩ := h
  refine ⟨blanks.dropWhile Text.isAsciiBlank, fun c hc => hblanks c ?_, ?_⟩
  · exact (List.dropWhile_sublist _).subset hc
  · rw [List.dropWhile_append]
    split
    · rename_i hnone
      rw [dropWhile_closing, List.isEmpty_iff.mp hnone, List.nil_append]
    · rfl

/-- The longer input goes on with the ending where the other one ends. -/
def Follows (ending : Ending) (input longer : Input) : Prop :=
  ∃ more, ending.Writes more ∧ longer.rest = input.rest ++ more

theorem Follows.skipBlanks {input longer : Input} (h : ending.Follows input longer) :
    ending.Follows input.skipBlanks longer.skipBlanks := by
  obtain ⟨more, hmore, hrest⟩ := h
  simp only [Follows, Input.skipBlanks, Input.advance, hrest, List.dropWhile_append]
  split
  · rename_i hnone
    rw [List.isEmpty_iff.mp hnone]
    exact ⟨_, hmore.dropWhile, rfl⟩
  · exact ⟨more, hmore, rfl⟩

/-! ## Characters and words -/

theorem exists_of_rel {α β : Type} {r : α → β → Prop} {a : α} {found : Option β}
    (h : Option.Rel r (some a) found) : ∃ b, found = some b ∧ r a b := by
  cases h with
  | some h => exact ⟨_, rfl, h⟩

theorem eq_none_of_rel {α β : Type} {r : α → β → Prop} {found : Option β}
    (h : Option.Rel r none found) : found = none := by
  cases h
  rfl

/-- A character is next in both inputs or in neither. -/
theorem Follows.eat? {input longer : Input} (h : ending.Follows input longer) {c : Char}
    (hblank : Text.isBlank c = false) (hsemicolon : c ≠ ';') :
    Option.Rel ending.Follows (input.eat? c) (longer.eat? c) := by
  obtain ⟨more, hmore, hrest⟩ := h
  cases hinput : input.rest with
  | nil =>
      have hlonger : longer.rest.head? ≠ some c := by
        rw [hrest, hinput]
        exact hmore.head_ne hblank hsemicolon
      rw [Input.eat_eq_none hlonger, Input.eat_eq_none (by simp [hinput])]
      exact .none
  | cons d rest =>
      rw [hinput, List.cons_append] at hrest
      by_cases hd : d = c
      · simp only [Input.eat?, hinput, hrest, if_pos hd]
        exact .some ⟨more, hmore, rfl⟩
      · simp only [Input.eat?, hinput, hrest, if_neg hd]
        exact .none

theorem range_of_isWordChar {c : Char} (h : Input.isWordChar c = true) :
    48 ≤ c.toNat ∧ c.toNat ≤ 122 := by
  have hbounds {low high : Char} (h : low.val ≤ c.val ∧ c.val ≤ high.val) :
      low.toNat ≤ c.toNat ∧ c.toNat ≤ high.toNat :=
    ⟨UInt32.le_iff_toNat_le.mp h.1, UInt32.le_iff_toNat_le.mp h.2⟩
  have hboth {p q : Prop} [Decidable p] [Decidable q] (h : (decide p && decide q) = true) : p ∧ q := by
    simpa using h
  have hclass : ((c.isUpper || c.isLower) || c.isDigit || c == '_') = true := h
  simp only [Bool.or_eq_true, beq_iff_eq] at hclass
  rcases hclass with ((hupper | hlower) | hdigit) | rfl
  · have hrange : 65 ≤ c.toNat ∧ c.toNat ≤ 90 := hbounds (of_decide_eq_true hupper)
    omega
  · have hrange : 97 ≤ c.toNat ∧ c.toNat ≤ 122 := hbounds (hboth hlower)
    omega
  · have hrange : 48 ≤ c.toNat ∧ c.toNat ≤ 57 := hbounds (hboth hdigit)
    omega
  · decide

/-- What comes next in an ending belongs to no word, in whichever case. -/
theorem Writes.not_isWordChar {more : List Char} (h : ending.Writes more) {c : Char}
    (hc : c ∈ more.head?) : Input.isWordChar c = false ∧ Input.isWordChar c.toLower = false := by
  rcases h.head c hc with hblank | rfl
  · have hvalue := Text.toNat_of_isBlank hblank
    have hword : Input.isWordChar c = false := by
      refine Bool.eq_false_iff.mpr fun hword => ?_
      obtain ⟨hlow, hhigh⟩ := range_of_isWordChar hword
      omega
    exact ⟨hword, (Text.toLower_of_isBlank hblank).symm ▸ hword⟩
  · decide

/-- One or more letters, digits and underscores. -/
def IsKeyword (keyword : String) : Prop :=
  keyword ≠ "" ∧ keyword.toList.all Input.isWordChar = true

instance (keyword : String) : Decidable (IsKeyword keyword) := inferInstanceAs (Decidable (_ ∧ _))

/-- A keyword is next in both texts or in neither, for no ending completes it or goes on with it. -/
theorem Writes.afterKeyword? {more : List Char} (hmore : ending.Writes more) {keyword : String}
    (hkeyword : IsKeyword keyword) (text : List Char) :
    Input.afterKeyword? keyword (text ++ more) = (Input.afterKeyword? keyword text).map (· ++ more) := by
  by_cases hlength : keyword.toList.length ≤ text.length
  · have hhead : ((text.drop keyword.toList.length ++ more).head?.any Input.isWordChar) =
        (text.drop keyword.toList.length).head?.any Input.isWordChar := by
      cases text.drop keyword.toList.length with
      | cons c rest => rfl
      | nil =>
          cases hnext : more with
          | nil => rfl
          | cons c rest => exact (hmore.not_isWordChar (by rw [hnext]; rfl)).1
    simp only [Input.afterKeyword?, List.take_append_of_le_length hlength,
      List.drop_append_of_le_length hlength, hhead]
    split
    · split <;> rfl
    · rfl
  · have hshort : Text.lowerAscii (text.take keyword.toList.length) ≠ keyword.toList := by
      intro h
      have hsame := congrArg List.length h
      simp only [Text.lowerAscii, List.length_map, List.length_take] at hsame
      omega
    have hlong : Text.lowerAscii ((text ++ more).take keyword.toList.length) ≠ keyword.toList := by
      intro h
      cases hnext : more with
      | nil => exact hshort (by rwa [hnext, List.append_nil] at h)
      | cons c rest =>
          obtain ⟨left, hleft⟩ := Nat.exists_eq_add_of_lt (Nat.lt_of_not_le hlength)
          have hmem : c.toLower ∈ keyword.toList := by
            rw [← h, hnext, List.take_append, hleft, Text.lowerAscii]
            simp [Nat.add_assoc]
          have hno := (hmore.not_isWordChar (c := c) (by rw [hnext]; rfl)).2
          rw [List.all_eq_true.mp hkeyword.2 _ hmem] at hno
          cases hno
    simp only [Input.afterKeyword?, if_neg hshort, if_neg hlong, Option.map_none]

theorem Follows.eatKeyword? {input longer : Input} (h : ending.Follows input longer) (keyword : String)
    (hkeyword : IsKeyword keyword) :
    Option.Rel ending.Follows (input.eatKeyword? keyword) (longer.eatKeyword? keyword) := by
  obtain ⟨more, hmore, hrest⟩ := h
  simp only [Input.eatKeyword?, hrest, hmore.afterKeyword? hkeyword]
  cases Input.afterKeyword? keyword input.rest with
  | none => exact .none
  | some rest => exact .some ⟨more, hmore, rfl⟩

/-! ## Where values end -/

/-- The text is a keyword behind blanks, and the ending comes next. -/
def Dangling (keyword : String) (text : List Char) : Prop :=
  text.head?.any Text.isAsciiBlank ∧
    Input.afterKeyword? keyword (text.dropWhile Text.isAsciiBlank) = some []

theorem afterKeyword?_nil {keyword : String} (hkeyword : IsKeyword keyword) :
    Input.afterKeyword? keyword [] = none := by
  have hne : ([] : List Char) ≠ keyword.toList := fun h =>
    hkeyword.1 (String.toList_eq_nil_iff.mp h.symm)
  exact if_neg (by simpa [Text.lowerAscii] using hne)

theorem Writes.afterKeyword?_dropWhile {more : List Char} (hmore : ending.Writes more)
    {keyword : String} (hkeyword : IsKeyword keyword) (text : List Char) :
    Input.afterKeyword? keyword ((text ++ more).dropWhile Text.isAsciiBlank) =
      (Input.afterKeyword? keyword (text.dropWhile Text.isAsciiBlank)).map (· ++ more) := by
  rw [List.dropWhile_append]
  split
  · rename_i hnone
    have hmoreNone := hmore.dropWhile.afterKeyword? hkeyword []
    rw [List.nil_append, afterKeyword?_nil hkeyword, Option.map_none] at hmoreNone
    rw [List.isEmpty_iff.mp hnone, afterKeyword?_nil hkeyword, hmoreNone, Option.map_none]
  · exact hmore.afterKeyword? hkeyword _

theorem Writes.beginsWithSpaced {more : List Char} (hmore : ending.Writes more) {keyword : String}
    (hkeyword : IsKeyword keyword) : beginsWithSpaced keyword more = false := by
  have hnone := hmore.afterKeyword?_dropWhile hkeyword []
  rw [List.nil_append, List.dropWhile_nil, afterKeyword?_nil hkeyword, Option.map_none] at hnone
  rw [Statement.beginsWithSpaced, hnone, Bool.and_false]

theorem Writes.beginsWithSpaced_append {more : List Char} (hmore : ending.Writes more) {keyword : String}
    (hkeyword : IsKeyword keyword) {text : List Char} (htext : text ≠ [])
    (hdangling : ¬ Dangling keyword text) :
    Statement.beginsWithSpaced keyword (text ++ more) = Statement.beginsWithSpaced keyword text := by
  have hhead : (text ++ more).head? = text.head? := by
    rw [List.head?_append, List.head?_eq_some_head htext, Option.some_or]
  cases hblank : text.head?.any Text.isAsciiBlank with
  | false => simp only [Statement.beginsWithSpaced, hhead, hblank, Bool.false_and]
  | true =>
      simp only [Statement.beginsWithSpaced, hhead, hblank, hmore.afterKeyword?_dropWhile hkeyword]
      cases hrest : Input.afterKeyword? keyword (text.dropWhile Text.isAsciiBlank) with
      | none => rfl
      | some rest =>
          cases rest with
          | nil => exact absurd ⟨hblank, hrest⟩ hdangling
          | cons c rest => rfl

end Ending

/-- The word that ends a value in the context dangles; what it begins is missing. -/
def ValueContext.Dangles : ValueContext → List Char → Prop
  | .tuple, _ => False
  | .setClause, text => Ending.Dangling "where" text
  | .whereClause, text => Ending.Dangling "and" text

namespace Ending

theorem endsBefore_of_dangles {context : ValueContext} {text : List Char} (h : context.Dangles text) :
    context.endsBefore text = true := by
  have hspaced {keyword : String} (h : Dangling keyword text) : beginsWithSpaced keyword text = true := by
    rw [beginsWithSpaced, h.1, h.2]
    rfl
  cases context with
  | tuple => exact h.elim
  | setClause => simp [ValueContext.endsBefore, hspaced h]
  | whereClause => simp [ValueContext.endsBefore, hspaced h]

theorem Writes.endsBefore_append {ending : Ending} {more : List Char} (hmore : ending.Writes more)
    {context : ValueContext} {text : List Char} (htext : text ≠ []) (hdangles : ¬ context.Dangles text) :
    context.endsBefore (text ++ more) = context.endsBefore text := by
  have hhead : (text ++ more).head? = text.head? := by
    rw [List.head?_append, List.head?_eq_some_head htext, Option.some_or]
  cases context with
  | tuple => simp only [ValueContext.endsBefore, hhead]
  | setClause =>
      simp only [ValueContext.endsBefore, hhead, hmore.beginsWithSpaced_append (by decide) htext hdangles]
  | whereClause =>
      simp only [ValueContext.endsBefore, hhead, hmore.beginsWithSpaced_append (by decide) htext hdangles]

/-! ## Values -/

/-- A value goes on over the blanks of the ending. -/
theorem Writes.spanValue {ending : Ending} {more : List Char} (hmore : ending.Writes more)
    (context : ValueContext) : ∃ blanks : List Char, (∀ c ∈ blanks, Text.isBlank c = true) ∧
      spanValue context .outside more = (blanks, ending.closing, .outside) := by
  obtain ⟨blanks, hblanks, rfl⟩ := hmore
  refine ⟨blanks, fun c hc => ending.isBlank_of_blank c (hblanks c hc), ?_⟩
  induction blanks with
  | nil =>
      cases hclosing : ending.closing with
      | nil => rfl
      | cons c rest =>
          have hc : c = ';' := ending.head_closing c (by rw [hclosing]; rfl)
          subst hc
          rfl
  | cons b blanks ih =>
      have hb := ending.isBlank_of_blank b (hblanks b List.mem_cons_self)
      have hne (c : Char) (hc : Text.isBlank c = false) : b ≠ c := Text.ne_of_isBlank hb hc
      have hspaced (keyword : String) (hkeyword : IsKeyword keyword) :=
        Writes.beginsWithSpaced ⟨b :: blanks, hblanks, rfl⟩ hkeyword
      have hgo : context.endsBefore (b :: (blanks ++ ending.closing)) = false := by
        have hwhere := hspaced "where" (by decide)
        have hand := hspaced "and" (by decide)
        rw [List.cons_append] at hwhere hand
        cases context <;>
          simp [ValueContext.endsBefore, hwhere, hand, hne ';' (by decide), hne ',' (by decide),
            hne ')' (by decide)]
      rw [Nesting.outside, List.cons_append, Statement.spanValue, if_neg (by simp [hgo])]
      simp only [hne '\'' (by decide), hne '(' (by decide), hne ')' (by decide), if_false]
      rw [← Nesting.outside, ih fun c hc => hblanks c (List.mem_cons_of_mem _ hc)]

/-- A value ends where it ended, or it goes on over blanks. -/
theorem Writes.spanValue_append {ending : Ending} {more : List Char} (hmore : ending.Writes more)
    {context : ValueContext} {nesting : Nesting} {text value tail : List Char}
    (hspan : Statement.spanValue context nesting text = (value, tail, .outside))
    (hdangles : ¬ context.Dangles tail) :
    ∃ blanks after : List Char, (∀ c ∈ blanks, Text.isBlank c = true) ∧ ending.Writes after ∧
      Statement.spanValue context nesting (text ++ more) = (value ++ blanks, tail ++ after, .outside) := by
  fun_induction Statement.spanValue context nesting text generalizing value tail with
  | case1 nesting =>
      cases hspan
      obtain ⟨blanks, hblanks, hspan⟩ := hmore.spanValue context
      exact ⟨blanks, ending.closing, hblanks, ending.writes_closing, hspan⟩
  | case2 depth rest value tail final hrest ih =>
      cases hspan
      obtain ⟨blanks, after, hblanks, hafter, hspan⟩ := ih hrest hdangles
      refine ⟨blanks, after, hblanks, hafter, ?_⟩
      rw [List.cons_append, List.cons_append, Statement.spanValue, hspan]
      rfl
  | case3 depth c rest hpair value tail final hrest ih =>
      cases hspan
      obtain ⟨blanks, after, hblanks, hafter, hspan⟩ := ih hrest hdangles
      refine ⟨blanks, after, hblanks, hafter, ?_⟩
      rw [List.cons_append, Statement.spanValue, hspan]
      · rfl
      · -- The ending does not make a pair of a quote that stands last.
        intro others hquote hothers
        cases rest with
        | nil =>
            have hhead : more.head? = some '\'' := congrArg List.head? hothers
            exact hmore.head_ne (by decide) (by decide) hhead
        | cons d rest => exact hpair rest hquote (by rw [(List.cons.inj hothers).1])
  | case4 depth c rest hends =>
      cases hspan
      refine ⟨[], more, by simp, hmore, ?_⟩
      rw [List.cons_append, Statement.spanValue, if_pos, List.append_nil]
      exact ⟨hends.1, (hmore.endsBefore_append (List.cons_ne_nil c rest) hdangles).trans hends.2⟩
  | case5 depth c rest hgo next value tail hspan hdangles =>
      rename_i final hrest ih
      cases hspan
      obtain ⟨blanks, after, hblanks, hafter, hspan⟩ := ih hrest hdangles
      refine ⟨blanks, after, hblanks, hafter, ?_⟩
      have hstay : ¬ (depth = 0 ∧ context.endsBefore (c :: (rest ++ more)) = true) := by
        rintro ⟨hdepth, hends⟩
        have hno : ¬ context.Dangles (c :: rest) := fun h => hgo ⟨hdepth, endsBefore_of_dangles h⟩
        exact hgo ⟨hdepth, (hmore.endsBefore_append (List.cons_ne_nil c rest) hno).symm.trans hends⟩
      rw [List.cons_append, Statement.spanValue, if_neg hstay]
      change prepend [c] (Statement.spanValue context next (rest ++ more)) = _
      rw [hspan]
      rfl

end Ending

end Statement

end ChangeCapture
