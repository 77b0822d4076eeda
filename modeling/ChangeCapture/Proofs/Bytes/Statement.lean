import ChangeCapture.Proofs.Bytes.Values
import ChangeCapture.Proofs.Statement.Following

/-! # Statements are read alike by byte and by character -/

namespace ChangeCapture.Bytes

open Statement (Fault Input byteLength)

namespace Scanner

variable {origin scanner : Scanner} {input : Input}

namespace At

/-! ## Parts -/

theorem target (h : At origin scanner input) : Reads origin scanner.target input.target := by
  refine h.skipBlanks_bind fun scanner hat => ?_
  refine hat.identifier.bind fun schema scanner input _ hat => ?_
  refine (hat.expect (by decide)).bind fun scanner input _ hat => ?_
  refine hat.identifier.bind fun table scanner input _ hat => ?_
  exact hat.reads_return _

/-! The lists are read by induction on the characters that are left; every round reads some of them. -/

theorem columnNames (h : At origin scanner input) : Reads origin scanner.columnNames input.columnNames := by
  induction hsize : input.rest.length using Nat.strong_induction_on generalizing scanner input with
  | _ size ih =>
      rw [Scanner.columnNames, Input.columnNames_eq]
      refine h.skipBlanks_bind fun scanner hat => ?_
      refine hat.identifier.bind fun name _ named hname hat => ?_
      refine hat.skipBlanks_bind fun scanner hat => ?_
      rcases hat.eat? (c := ')') (by decide) with ⟨heat, heat'⟩ | ⟨_, _, heat, heat', hat⟩ <;>
        simp only [heat, heat', lift_some_bind]
      · refine (hat.expect (by decide)).bind fun _ next hnext hat => ?_
        have h₁ := Input.length_skipBlanks_le input
        have h₂ := Input.length_identifier_lt hname
        have h₃ := Input.length_skipBlanks_le named
        have h₄ := Input.length_expect_lt hnext
        have hlength : next.rest.length < input.rest.length := by omega
        refine h.less?_bind hat hlength ?_
        refine (ih _ (hsize ▸ hlength) hat rfl).bind fun names _ _ _ hat => ?_
        exact hat.reads_return _
      · exact hat.reads_return _

theorem tupleValues (h : At origin scanner input) : Reads origin scanner.tupleValues input.tupleValues := by
  induction hsize : input.rest.length using Nat.strong_induction_on generalizing scanner input with
  | _ size ih =>
      rw [Scanner.tupleValues, Input.tupleValues_eq]
      refine (h.value .tuple).bind fun value _ read hread hat => ?_
      rcases hat.eat? (c := ')') (by decide) with ⟨heat, heat'⟩ | ⟨_, _, heat, heat', hat⟩ <;>
        simp only [heat, heat', lift_some_bind]
      · refine (hat.expect (by decide)).bind fun _ next hnext hat => ?_
        have h₁ := Input.length_value_le hread
        have h₂ := Input.length_expect_lt hnext
        have hlength : next.rest.length < input.rest.length := by omega
        refine h.less?_bind hat hlength ?_
        refine (ih _ (hsize ▸ hlength) hat rfl).bind fun values _ _ _ hat => ?_
        exact hat.reads_return _
      · exact hat.reads_return _

theorem assignment (h : At origin scanner input) : Reads origin scanner.assignment input.assignment := by
  refine h.skipBlanks_bind fun scanner hat => ?_
  refine hat.identifier.bind fun column scanner input _ hat => ?_
  refine hat.skipBlanks_bind fun scanner hat => ?_
  refine (hat.expect (by decide)).bind fun scanner input _ hat => ?_
  refine hat.skipBlanks_bind fun scanner hat => ?_
  refine (hat.value .setClause).bind fun value scanner input _ hat => ?_
  exact hat.reads_return _

theorem assignments (h : At origin scanner input) : Reads origin scanner.assignments input.assignments := by
  induction hsize : input.rest.length using Nat.strong_induction_on generalizing scanner input with
  | _ size ih =>
      rw [Scanner.assignments, Input.assignments_eq]
      refine h.assignment.bind fun pair _ read hread hat => ?_
      rcases hat.eat? (c := ',') (by decide) with ⟨heat, heat'⟩ | ⟨_, next, heat, heat', hnext⟩ <;>
        simp only [heat, heat', lift_some_bind]
      · exact hat.reads_return _
      · have h₁ := Input.length_assignment_lt hread
        have h₂ := Input.length_eat_lt heat'
        have hlength : next.rest.length < input.rest.length := by omega
        refine h.less?_bind hnext hlength ?_
        refine (ih _ (hsize ▸ hlength) hnext rfl).bind fun pairs _ _ _ hat => ?_
        exact hat.reads_return _

theorem predicate (h : At origin scanner input) : Reads origin scanner.predicate input.predicate := by
  refine h.skipBlanks_bind fun scanner hat => ?_
  refine hat.identifier.bind fun column _ named _ hat => ?_
  refine hat.skipBlanks_bind fun scanner hat => ?_
  rcases hat.eatKeyword? "is" (by decide) with ⟨heat, heat'⟩ | ⟨_, _, heat, heat', hat⟩ <;>
    simp only [heat, heat', lift_some_bind]
  · refine (hat.expect (by decide)).bind fun scanner input _ hat => ?_
    refine hat.skipBlanks_bind fun scanner hat => ?_
    refine (hat.value .whereClause).bind fun value scanner input _ hat => ?_
    exact hat.reads_return _
  · refine hat.skipBlanks_bind fun scanner hat => ?_
    refine (hat.expectKeyword (by decide)).bind fun scanner input _ hat => ?_
    exact hat.reads_return _

theorem predicates (h : At origin scanner input) : Reads origin scanner.predicates input.predicates := by
  induction hsize : input.rest.length using Nat.strong_induction_on generalizing scanner input with
  | _ size ih =>
      rw [Scanner.predicates, Input.predicates_eq]
      refine h.predicate.bind fun pair _ read hread hat => ?_
      refine hat.skipBlanks_bind fun scanner hat => ?_
      rcases hat.eatKeyword? "and" (by decide) with ⟨heat, heat'⟩ | ⟨_, next, heat, heat', hnext⟩ <;>
        simp only [heat, heat', lift_some_bind]
      · exact hat.reads_return _
      · have h₁ := Input.length_predicate_lt hread
        have h₂ := Input.length_skipBlanks_le read
        have h₃ := Input.length_eatKeyword_le heat'
        have hlength : next.rest.length < input.rest.length := by omega
        refine h.less?_bind hnext hlength ?_
        refine (ih _ (hsize ▸ hlength) hnext rfl).bind fun pairs _ _ _ hat => ?_
        exact hat.reads_return _

theorem condition (h : At origin scanner input) : Reads origin scanner.condition input.condition := by
  unfold Scanner.condition Input.condition
  refine h.skipBlanks_bind fun scanner hat => ?_
  rcases hat.eatKeyword? "where" (by decide) with ⟨heat, heat'⟩ | ⟨_, _, heat, heat', hwhere⟩ <;>
    simp only [heat, heat', lift_some_bind]
  · exact hat.reads_return _
  · refine hwhere.predicates.bind fun pairs _ _ _ hat => ?_
    exact hat.reads_return _

/-! ## Operations -/

theorem columnList (h : At origin scanner input) : Reads origin scanner.columnList input.columnList := by
  unfold Scanner.columnList Input.columnList
  rcases h.eat? (c := '(') (by decide) with ⟨heat, heat'⟩ | ⟨_, _, heat, heat', hat⟩ <;>
    simp only [heat, heat', lift_some_bind]
  · exact h.reads_return _
  · refine hat.columnNames.bind fun names _ _ _ hat => ?_
    refine hat.skipBlanks_bind fun scanner hat => ?_
    exact hat.reads_return _

theorem pairValues (h : At origin scanner input) (columns : Option (List String)) (values : List ValueToken) :
    Agrees Eq (scanner.pairValues columns values) (input.pairValues columns values) := by
  unfold Scanner.pairValues Input.pairValues
  cases columns with
  | none => exact .ok rfl
  | some names =>
      by_cases hlength : names.length = values.length
      · simp only [if_pos hlength]
        exact .ok rfl
      · simp only [if_neg hlength]
        exact h.agrees_error _

theorem insertion (h : At origin scanner input) : Reads origin scanner.insertion input.insertion := by
  refine h.target.bind fun target scanner input _ hat => ?_
  refine hat.skipBlanks_bind fun scanner hat => ?_
  refine hat.columnList.bind fun columns scanner input _ hat => ?_
  refine (hat.expectKeyword (by decide)).bind fun scanner input _ hat => ?_
  refine hat.skipBlanks_bind fun scanner hat => ?_
  refine (hat.expect (by decide)).bind fun scanner input _ hat => ?_
  refine hat.tupleValues.bind fun values scanner input _ hat => ?_
  refine (hat.pairValues columns values).bind fun _ assignments _ hsame => ?_
  rw [hsame]
  exact hat.reads_return _

theorem change (h : At origin scanner input) : Reads origin scanner.change input.change := by
  refine h.target.bind fun target scanner input _ hat => ?_
  refine hat.skipBlanks_bind fun scanner hat => ?_
  refine (hat.expectKeyword (by decide)).bind fun scanner input _ hat => ?_
  refine hat.assignments.bind fun pairs scanner input _ hat => ?_
  refine hat.condition.bind fun predicates scanner input _ hat => ?_
  exact hat.reads_return _

theorem deletion (h : At origin scanner input) : Reads origin scanner.deletion input.deletion := by
  refine h.target.bind fun target scanner input _ hat => ?_
  refine hat.condition.bind fun predicates scanner input _ hat => ?_
  exact hat.reads_return _

theorem statement (h : At origin scanner input) : Reads origin scanner.statement input.statement := by
  unfold Scanner.statement Input.statement
  rcases h.eatKeyword? "insert" (by decide) with ⟨heat, heat'⟩ | ⟨_, _, heat, heat', hat⟩ <;>
    simp only [heat, heat', lift_some_bind]
  · rcases h.eatKeyword? "update" (by decide) with ⟨heat, heat'⟩ | ⟨_, _, heat, heat', hat⟩ <;>
      simp only [heat, heat', lift_some_bind]
    · rcases h.eatKeyword? "delete" (by decide) with ⟨heat, heat'⟩ | ⟨_, _, heat, heat', hat⟩ <;>
        simp only [heat, heat', lift_some_bind]
      · exact h.agrees_error _
      · refine hat.skipBlanks_bind fun scanner hat => ?_
        refine (hat.expectKeyword (by decide)).bind fun scanner input _ hat => ?_
        exact hat.deletion
    · exact hat.change
  · refine hat.skipBlanks_bind fun scanner hat => ?_
    refine (hat.expectKeyword (by decide)).bind fun scanner input _ hat => ?_
    exact hat.insertion

theorem finish (h : At origin scanner input) : Agrees Eq scanner.finish input.finish := by
  unfold Scanner.finish Input.finish
  refine h.skipBlanks_bind fun last hat => ?_
  cases hrest : input.skipBlanks.rest with
  | nil =>
      have hstands := hat.stands
      rw [hrest] at hstands
      rw [if_neg hstands.eq_stop.not_lt]
      exact .ok rfl
  | cons c rest =>
      have hstands := hat.stands
      rw [hrest] at hstands
      rw [if_pos hstands.lt_stop]
      exact hat.agrees_error _

end At

/-! ## Bodies -/

/-- A text that is not blank has a core between its blanks. -/
structure Surrounds (text front core back : List Char) : Prop where
  append : text = front ++ (core ++ back)
  right : Text.trimRight text = front ++ core
  left : Text.trimLeft text = core ++ back
  core_ne_nil : core ≠ []
  blank : ∀ c ∈ back, Text.isBlank c = true

theorem exists_surrounds {text : List Char} (h : Text.trimRight text ≠ []) :
    ∃ back, Surrounds text ((Text.trimRight text).takeWhile Text.isBlank)
      (Text.trimLeft (Text.trimRight text)) back := by
  obtain ⟨back, hback, htext⟩ := Text.exists_trimRight_append text
  have hright : Text.trimRight text =
      (Text.trimRight text).takeWhile Text.isBlank ++ Text.trimLeft (Text.trimRight text) :=
    List.takeWhile_append_dropWhile.symm
  have hne := Text.trimLeft_trimRight_ne_nil h
  refine ⟨back, ?_, hright, ?_, hne, hback⟩
  · rw [← List.append_assoc, ← hright]
    exact htext
  · rw [← Text.trimLeft_append hne, ← htext]

section Bodies

variable {sql : String} {front core back : List Char}

theorem Surrounds.ofText_eq (h : Surrounds sql.toList front core back) :
    ofText sql = some
      { text := sql
        pos := byteLength front
        stop := byteLength front + byteLength (Statement.withoutSemicolon core) } := by
  have hstart : minus? sql.utf8ByteSize (byteLength (Text.trimLeft sql.toList)) = some (byteLength front) := by
    rw [utf8ByteSize_eq, h.left, h.append, byteLength_append front, minus?_of_le (Nat.le_add_left _ _),
      Nat.add_sub_cancel]
  have hstop : byteLength (Statement.withoutSemicolon (Text.trimRight sql.toList)) =
      byteLength front + byteLength (Statement.withoutSemicolon core) := by
    rw [h.right, Statement.withoutSemicolon_append front h.core_ne_nil, byteLength_append]
  rw [ofText, hstart, ← hstop]
  rfl

/-- Behind the body stands the semicolon that was left out, or what was trimmed. -/
theorem Surrounds.exists_after (h : Surrounds sql.toList front core back) :
    ∃ after, core ++ back = Statement.withoutSemicolon core ++ after ∧
      ∀ c ∈ after.head?, c = ';' ∨ Text.isBlank c = true := by
  rcases Statement.eq_withoutSemicolon core with hsame | hsemicolon
  · exact ⟨back, by rw [← hsame], fun c hc => .inr (h.blank c (List.mem_of_mem_head? hc))⟩
  · refine ⟨';' :: back, ?_, by simp⟩
    conv_lhs => rw [hsemicolon]
    simp

/-- A text that is not blank is read from the first to the last character of its body. -/
theorem exists_ofText (h : Text.trimRight sql.toList ≠ []) :
    ∃ scanner, ofText sql = some scanner ∧ At scanner scanner (Statement.bodyOf sql) := by
  obtain ⟨back, hcore⟩ := exists_surrounds h
  obtain ⟨after, hafter, hhead⟩ := hcore.exists_after
  have hbody : Statement.bodyOf sql =
      { offset := byteLength ((Text.trimRight sql.toList).takeWhile Text.isBlank)
        rest := Statement.withoutSemicolon (Text.trimLeft (Text.trimRight sql.toList)) } := by
    rw [Statement.bodyOf, Statement.toList_dropEndWhile, Statement.body, if_neg (by simpa using h)]
    rfl
  rw [hbody]
  refine ⟨_, hcore.ofText_eq, ⟨_, after, ?_, rfl, rfl, hhead⟩, rfl, rfl, rfl⟩
  rw [← hafter, ← hcore.append, String.ofList_toList]

end Bodies

/-- In a blank text the scanner begins behind the end of the body. -/
theorem ofText_blank {sql : String} (h : Text.trimRight sql.toList = []) :
    ofText sql = some { text := sql, pos := sql.utf8ByteSize, stop := 0 } := by
  obtain ⟨back, hback, htext⟩ := Text.exists_trimRight_append sql.toList
  have hleft : Text.trimLeft sql.toList = [] := by
    rw [htext, h]
    exact List.dropWhile_eq_nil_iff.mpr hback
  rw [ofText, h, hleft]
  rfl

/-- No keyword begins at or behind the end of the body. -/
theorem eatKeyword?_behind (h : scanner.stop ≤ scanner.pos) {keyword : String}
    (hkeyword : 0 < keyword.utf8ByteSize) : scanner.eatKeyword? keyword = some none := by
  have hnone : scanner.keywordAt keyword scanner.pos = some false := if_neg (by omega)
  rw [eatKeyword?, hnone]
  rfl

theorem statement_behind (h : scanner.stop ≤ scanner.pos) :
    scanner.statement = throw (scanner.fault .noOperation) := by
  unfold statement
  simp only [eatKeyword?_behind h (show 0 < "insert".utf8ByteSize by decide),
    eatKeyword?_behind h (show 0 < "update".utf8ByteSize by decide),
    eatKeyword?_behind h (show 0 < "delete".utf8ByteSize by decide), lift_some_bind]

theorem statement_nil (h : input.rest = []) : input.statement = .error (input.fault .noOperation) := by
  have hnone {keyword : String} (hkeyword : Statement.Ending.IsKeyword keyword) :
      input.eatKeyword? keyword = none := by
    rw [Input.eatKeyword?, h, Statement.Ending.afterKeyword?_nil hkeyword, Option.map_none]
  rw [Input.statement, hnone (by decide), hnone (by decide), hnone (by decide)]

end Scanner

/-! ## Texts -/

theorem parseBody_eq (sql : String) : Agrees Eq (parseBody sql)
    (Statement.parseBody sql.utf8ByteSize (sql.dropEndWhile Text.isBlank).copy.toList) := by
  unfold parseBody Statement.parseBody
  rw [← Statement.bodyOf]
  by_cases h : Text.trimRight sql.toList = []
  · have hbody : Statement.bodyOf sql = { offset := sql.utf8ByteSize, rest := [] } := by
      rw [Statement.bodyOf, Statement.toList_dropEndWhile, h]
      rfl
    rw [Scanner.ofText_blank h, lift_some_bind, Scanner.statement_behind (Nat.zero_le _), hbody,
      Scanner.statement_nil rfl]
    exact .error _
  · obtain ⟨scanner, hscanner, hat⟩ := Scanner.exists_ofText h
    rw [hscanner, lift_some_bind]
    refine hat.statement.bind fun statement scanner input _ hat => ?_
    exact hat.finish.bind fun _ _ _ _ => .ok rfl

theorem parse_eq (sql : String) : (parse sql).run = some (Statement.parse sql) := by
  unfold parse Statement.parse
  split_ifs
  · rfl
  · rw [ExceptT.run_adapt, (parseBody_eq sql).run_eq]
    cases Statement.parseBody sql.utf8ByteSize (sql.dropEndWhile Text.isBlank).copy.toList <;> rfl

end ChangeCapture.Bytes
