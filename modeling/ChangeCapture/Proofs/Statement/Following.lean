import ChangeCapture.Proofs.Statement.Endings

/-! # Nothing but blanks follows a statement -/

namespace ChangeCapture

namespace Statement

namespace Ending

/-! ## Steps -/

/-- Whatever is read from the shorter input is read from the longer one, if what the former leaves is
complete. -/
def KeepsIf {α : Type} (ending : Ending) (complete : List Char → Prop)
    (result longer : Except Fault (α × Input)) : Prop :=
  ∀ value next, result = .ok (value, next) → complete next.rest →
    ∃ after, longer = .ok (value, after) ∧ ending.Follows next after

/-- Whatever is read from the shorter input is read from the longer one. -/
abbrev Keeps {α : Type} (ending : Ending) (result longer : Except Fault (α × Input)) : Prop :=
  ending.KeepsIf (fun _ => True) result longer

/-- A step that reads no value succeeds on the longer input, too. -/
def KeepsPlace (ending : Ending) (result longer : Except Fault Input) : Prop :=
  ∀ next, result = .ok next → ∃ after, longer = .ok after ∧ ending.Follows next after

section Steps

variable {ending : Ending} {α β : Type} {input longer : Input} {complete complete' : List Char → Prop}

/-- Later steps may show that what an earlier one left was complete. -/
theorem KeepsIf.bind {result longer : Except Fault (α × Input)}
    {go : α × Input → Except Fault (β × Input)}
    (h : ending.KeepsIf complete result longer)
    (hgo : ∀ value next after, result = .ok (value, next) → ending.Follows next after →
      ending.KeepsIf complete' (go (value, next)) (go (value, after)))
    (hcomplete : ∀ value next final last, go (value, next) = .ok (final, last) → complete' last.rest →
      complete next.rest) :
    ending.KeepsIf complete' (result >>= go) (longer >>= go) := by
  intro final last hlast hlastComplete
  obtain ⟨⟨value, next⟩, hnext, hfinal⟩ := bind_eq_ok.mp hlast
  obtain ⟨after, rfl, hafter⟩ := h value next hnext (hcomplete value next final last hfinal hlastComplete)
  exact hgo value next after hnext hafter final last hfinal hlastComplete

theorem Keeps.bind {result longer : Except Fault (α × Input)}
    {go : α × Input → Except Fault (β × Input)}
    (h : ending.Keeps result longer)
    (hgo : ∀ value next after, result = .ok (value, next) → ending.Follows next after →
      ending.KeepsIf complete (go (value, next)) (go (value, after))) :
    ending.KeepsIf complete (result >>= go) (longer >>= go) :=
  KeepsIf.bind h hgo fun _ _ _ _ _ _ => trivial

theorem KeepsPlace.bind {result longer : Except Fault Input} {go : Input → Except Fault (β × Input)}
    (h : ending.KeepsPlace result longer)
    (hgo : ∀ next after, result = .ok next → ending.Follows next after →
      ending.KeepsIf complete (go next) (go after)) :
    ending.KeepsIf complete (result >>= go) (longer >>= go) := by
  intro final last hlast hcomplete
  obtain ⟨next, hnext, hfinal⟩ := bind_eq_ok.mp hlast
  obtain ⟨after, rfl, hafter⟩ := h next hnext
  exact hgo next after hnext hafter final last hfinal hcomplete

theorem Follows.keeps_return (h : ending.Follows input longer) (value : α) :
    ending.KeepsIf complete (pure (value, input)) (pure (value, longer)) := by
  rintro _ _ ⟨⟩ _
  exact ⟨longer, rfl, h⟩

theorem Follows.expect (h : ending.Follows input longer) {c : Char} (hblank : Text.isBlank c = false)
    (hsemicolon : c ≠ ';') : ending.KeepsPlace (input.expect c) (longer.expect c) := by
  intro next hnext
  have hrel := h.eat? hblank hsemicolon
  unfold Input.expect at hnext ⊢
  cases heat : input.eat? c with
  | none => simp [heat] at hnext
  | some found =>
      rw [heat] at hnext hrel
      cases hnext
      obtain ⟨after, hafter, hfollows⟩ := exists_of_rel hrel
      exact ⟨after, by rw [hafter], hfollows⟩

theorem Follows.expectKeyword (h : ending.Follows input longer) {keyword : String}
    (hkeyword : IsKeyword keyword) :
    ending.KeepsPlace (input.expectKeyword keyword) (longer.expectKeyword keyword) := by
  intro next hnext
  have hrel := h.eatKeyword? keyword hkeyword
  unfold Input.expectKeyword at hnext ⊢
  cases heat : input.eatKeyword? keyword with
  | none => simp [heat] at hnext
  | some found =>
      rw [heat] at hnext hrel
      cases hnext
      obtain ⟨after, hafter, hfollows⟩ := exists_of_rel hrel
      exact ⟨after, by rw [hafter], hfollows⟩

theorem rest_of_eat? {c : Char} {next : Input} (h : input.eat? c = some next) :
    input.rest = c :: next.rest := by
  unfold Input.eat? at h
  cases hrest : input.rest with
  | nil => simp [hrest] at h
  | cons d rest =>
      by_cases hd : d = c
      · simp only [hrest, if_pos hd] at h
        cases h
        rw [hd, Input.advance]
      · simp [hrest, if_neg hd] at h

theorem rest_of_expect {c : Char} {next : Input} (h : input.expect c = .ok next) :
    input.rest = c :: next.rest := by
  unfold Input.expect at h
  split at h
  · cases h
    exact rest_of_eat? ‹_›
  · cases h

/-- A name that is read stands in front in double quotes. -/
theorem exists_quotedName {name : String} {next : Input} (h : input.identifier = .ok (name, next)) :
    ∃ text, QuotedName name text ∧ input.rest = text.toList ++ next.rest := by
  unfold Input.identifier at h
  cases hopen : input.expect '"' with
  | error fault => simp [hopen] at h
  | ok opened =>
      have hquotes : '"' ∉ opened.rest.takeWhile (· != '"') := fun hmem => by
        simpa using List.mem_takeWhile_imp hmem
      cases hdrop : opened.rest.dropWhile (· != '"') with
      | nil => simp [hopen, hdrop] at h
      | cons quote rest =>
          have hquote : quote = '"' := by
            have hfirst := List.dropWhile_get_zero_not (· != '"') opened.rest (by simp [hdrop])
            simpa [hdrop] using hfirst
          subst hquote
          have hopened : opened.rest = opened.rest.takeWhile (· != '"') ++ '"' :: rest := by
            rw [← hdrop, List.takeWhile_append_dropWhile]
          simp only [hopen, hdrop] at h
          split at h
          · cases h
          · rename_i hne
            cases h
            refine ⟨_, ⟨⟨?_, ?_⟩, rfl⟩, ?_⟩
            · simpa [← String.toList_eq_nil_iff] using hne
            · rwa [String.toList_ofList]
            · rw [rest_of_expect hopen]
              refine (congrArg ('"' :: ·) hopened).trans ?_
              simp [Input.advance]

/-- A name ends with its quote, so that nothing behind it counts. -/
theorem Follows.identifier (h : ending.Follows input longer) :
    ending.Keeps input.identifier longer.identifier := by
  intro name next hnext _
  obtain ⟨more, hmore, hrest⟩ := h
  obtain ⟨text, hname, htext⟩ := exists_quotedName hnext
  have hlonger : longer.rest = text.toList ++ (next.rest ++ more) := by
    rw [hrest, htext, List.append_assoc]
  obtain ⟨after, hafter, hafterRest⟩ := Input.identifier_written hname hlonger
  exact ⟨after, hafter, more, hmore, hafterRest⟩

/-! ## Lists of names and values -/

/-- A value is read the same with an ending behind it, unless it was ended by a word that dangles. -/
theorem Follows.value (h : ending.Follows input longer) {context : ValueContext} :
    ending.KeepsIf (¬ context.Dangles ·) (input.value context) (longer.value context) := by
  intro token next hvalue hdangles
  obtain ⟨more, hmore, hrest⟩ := h
  rcases hspan : Statement.spanValue context .outside input.rest with ⟨written, tail, nesting⟩
  simp only [Input.value, hspan] at hvalue
  split at hvalue
  · cases hvalue
  split at hvalue
  · cases hvalue
  split at hvalue
  · cases hvalue
  rename_i hquoted hdepth hempty
  cases hvalue
  have hnesting : nesting = .outside := by
    cases nesting
    simp_all [Nesting.outside]
  rw [hnesting] at hspan
  obtain ⟨blanks, after, hblanks, hafter, hlonger⟩ := hmore.spanValue_append hspan hdangles
  refine ⟨longer.advance (written ++ blanks) (tail ++ after), ?_, after, hafter, rfl⟩
  rw [Input.value, hrest, hlonger]
  simp only [Text.trim_append written hblanks, if_neg hempty]
  rfl

theorem Follows.target (h : ending.Follows input longer) : ending.Keeps input.target longer.target := by
  refine h.skipBlanks.identifier.bind fun schema named named' _ hnamed => ?_
  refine (hnamed.expect (by decide) (by decide)).bind fun dotted dotted' _ hdotted => ?_
  exact hdotted.identifier.bind fun table last last' _ hlast => hlast.keeps_return _

theorem Follows.columnNames (h : ending.Follows input longer) :
    ending.Keeps input.columnNames longer.columnNames := by
  induction hlength : input.rest.length using Nat.strong_induction_on generalizing input longer with
  | _ length ih =>
      subst hlength
      rw [Input.columnNames_eq, Input.columnNames_eq]
      refine h.skipBlanks.identifier.bind fun name named named' hname hnamed => ?_
      have hclose := hnamed.skipBlanks.eat? (c := ')') (by decide) (by decide)
      dsimp only
      generalize named.skipBlanks.eat? ')' = closed, named'.skipBlanks.eat? ')' = closed' at hclose ⊢
      cases hclose with
      | some hlast => exact hlast.keeps_return _
      | none =>
          refine (hnamed.skipBlanks.expect (by decide) (by decide)).bind fun next next' hcomma hnext => ?_
          refine (ih _ ?_ hnext rfl).bind fun names last last' _ hlast => hlast.keeps_return _
          have h₁ := Input.length_skipBlanks_le input
          have h₂ := Input.length_identifier_lt hname
          have h₃ := Input.length_skipBlanks_le named
          have h₄ := Input.length_expect_lt hcomma
          omega

theorem Follows.tupleValues (h : ending.Follows input longer) :
    ending.Keeps input.tupleValues longer.tupleValues := by
  induction hlength : input.rest.length using Nat.strong_induction_on generalizing input longer with
  | _ length ih =>
      subst hlength
      rw [Input.tupleValues_eq, Input.tupleValues_eq]
      refine KeepsIf.bind h.value (fun value read read' hread hfollows => ?_) fun _ _ _ _ _ _ => id
      have hclose := hfollows.eat? (c := ')') (by decide) (by decide)
      dsimp only
      generalize read.eat? ')' = closed, read'.eat? ')' = closed' at hclose ⊢
      cases hclose with
      | some hlast => exact hlast.keeps_return _
      | none =>
          refine (hfollows.expect (by decide) (by decide)).bind fun next next' hcomma hnext => ?_
          refine (ih _ ?_ hnext rfl).bind fun values last last' _ hlast => hlast.keeps_return _
          have h₁ := Input.length_value_le hread
          have h₂ := Input.length_expect_lt hcomma
          omega

/-! ## Assignments and conditions -/

theorem not_dangles_of_head {context : ValueContext} {text : List Char}
    (h : text.head?.any Text.isAsciiBlank = false) : ¬ context.Dangles text := by
  cases context with
  | tuple => exact id
  | setClause | whereClause => exact fun hdangling => absurd hdangling.1 (by simp [h])

/-- A keyword does not dangle if it is not there or if something follows it. -/
theorem not_dangling {keyword : String}
    (h : ∀ next, input.skipBlanks.eatKeyword? keyword = some next → next.rest ≠ []) :
    ¬ Dangling keyword input.rest := by
  rintro ⟨_, hrest⟩
  have heat : input.skipBlanks.eatKeyword? keyword = some _ := congrArg (Option.map _) hrest
  exact h _ heat rfl

theorem Follows.assignment (h : ending.Follows input longer) :
    ending.KeepsIf (¬ ValueContext.setClause.Dangles ·) input.assignment longer.assignment := by
  refine h.skipBlanks.identifier.bind fun column named named' _ hnamed => ?_
  refine (hnamed.skipBlanks.expect (by decide) (by decide)).bind fun equals equals' _ hequals => ?_
  refine KeepsIf.bind hequals.skipBlanks.value (fun value read read' _ hread => hread.keeps_return _) ?_
  rintro _ _ _ _ ⟨⟩
  exact id

theorem Follows.assignments (h : ending.Follows input longer) :
    ending.KeepsIf (¬ ValueContext.setClause.Dangles ·) input.assignments longer.assignments := by
  induction hlength : input.rest.length using Nat.strong_induction_on generalizing input longer with
  | _ length ih =>
      subst hlength
      rw [Input.assignments_eq, Input.assignments_eq]
      refine KeepsIf.bind h.assignment (fun pair read read' hread hfollows => ?_) ?_
      · have hcomma := hfollows.eat? (c := ',') (by decide) (by decide)
        dsimp only
        cases hnext : read.eat? ',' with
        | none =>
            rw [hnext] at hcomma
            rw [eq_none_of_rel hcomma]
            exact hfollows.keeps_return _
        | some next =>
            rw [hnext] at hcomma
            obtain ⟨next', hnext', hfollows⟩ := exists_of_rel hcomma
            rw [hnext']
            refine KeepsIf.bind (ih _ ?_ hfollows rfl)
              (fun pairs last last' _ hlast => hlast.keeps_return _) ?_
            · have h₁ := Input.length_assignment_lt hread
              have h₂ := Input.length_eat_lt hnext
              omega
            · rintro _ _ _ _ ⟨⟩
              exact id
      · intro pair read pairs last hlast hcomplete
        dsimp only at hlast
        cases hnext : read.eat? ',' with
        | none =>
            rw [hnext] at hlast
            cases hlast
            exact hcomplete
        | some next =>
            rw [rest_of_eat? hnext]
            exact not_dangles_of_head rfl

theorem Follows.predicate (h : ending.Follows input longer) :
    ending.KeepsIf (¬ ValueContext.whereClause.Dangles ·) input.predicate longer.predicate := by
  refine h.skipBlanks.identifier.bind fun column named named' _ hnamed => ?_
  have hword := hnamed.skipBlanks.eatKeyword? "is" (by decide)
  dsimp only
  generalize named.skipBlanks.eatKeyword? "is" = word,
    named'.skipBlanks.eatKeyword? "is" = word' at hword ⊢
  cases hword with
  | some hword =>
      exact (hword.skipBlanks.expectKeyword (by decide)).bind fun read read' _ hread => hread.keeps_return _
  | none =>
      refine (hnamed.skipBlanks.expect (by decide) (by decide)).bind fun equals equals' _ hequals => ?_
      refine KeepsIf.bind hequals.skipBlanks.value (fun value read read' _ hread => hread.keeps_return _) ?_
      rintro _ _ _ _ ⟨⟩
      exact id

theorem predicates_ne_nil {pairs : List (String × ValueToken)} {next : Input}
    (h : input.predicates = .ok (pairs, next)) : input.rest ≠ [] := by
  rw [Input.predicates_eq] at h
  obtain ⟨⟨pair, read⟩, hread, _⟩ := bind_eq_ok.mp h
  exact List.ne_nil_of_length_pos (Nat.lt_of_le_of_lt (Nat.zero_le _) (Input.length_predicate_lt hread))

theorem Follows.predicates (h : ending.Follows input longer) :
    ending.Keeps input.predicates longer.predicates := by
  induction hlength : input.rest.length using Nat.strong_induction_on generalizing input longer with
  | _ length ih =>
      subst hlength
      rw [Input.predicates_eq, Input.predicates_eq]
      refine KeepsIf.bind h.predicate (fun pair read read' hread hfollows => ?_) ?_
      · have hand := hfollows.skipBlanks.eatKeyword? "and" (by decide)
        dsimp only
        cases hnext : read.skipBlanks.eatKeyword? "and" with
        | none =>
            rw [hnext] at hand
            rw [eq_none_of_rel hand]
            exact hfollows.skipBlanks.keeps_return _
        | some next =>
            rw [hnext] at hand
            obtain ⟨next', hnext', hfollows⟩ := exists_of_rel hand
            rw [hnext']
            refine Keeps.bind (ih _ ?_ hfollows rfl) fun pairs last last' _ hlast => hlast.keeps_return _
            have h₁ := Input.length_predicate_lt hread
            have h₂ := Input.length_skipBlanks_le read
            have h₃ := Input.length_eatKeyword_le hnext
            omega
      · intro pair read pairs last hlast _
        refine not_dangling fun next hnext => ?_
        dsimp only at hlast
        rw [hnext] at hlast
        obtain ⟨_, hpredicates, _⟩ := bind_eq_ok.mp hlast
        exact predicates_ne_nil hpredicates

theorem Follows.condition (h : ending.Follows input longer) :
    ending.Keeps input.condition longer.condition := by
  have hword := h.skipBlanks.eatKeyword? "where" (by decide)
  unfold Input.condition
  generalize input.skipBlanks.eatKeyword? "where" = word,
    longer.skipBlanks.eatKeyword? "where" = word' at hword ⊢
  cases hword with
  | some hword => exact hword.predicates.bind fun pairs last last' _ hlast => hlast.keeps_return _
  | none => exact h.skipBlanks.keeps_return _

/-! ## Statements -/

theorem Follows.columnList (h : ending.Follows input longer) :
    ending.Keeps input.columnList longer.columnList := by
  have hopen := h.eat? (c := '(') (by decide) (by decide)
  unfold Input.columnList
  generalize input.eat? '(' = opened, longer.eat? '(' = opened' at hopen ⊢
  cases hopen with
  | some hopened =>
      exact hopened.columnNames.bind fun names last last' _ hlast => hlast.skipBlanks.keeps_return _
  | none => exact h.keeps_return _

/-- Only a fault tells where it was noticed. -/
theorem pairValues_eq_ok {columns : Option (List String)} {values : List ValueToken}
    {assignments : Assignments} (h : input.pairValues columns values = .ok assignments) (other : Input) :
    other.pairValues columns values = .ok assignments := by
  cases columns with
  | none => exact h
  | some names =>
      simp only [Input.pairValues] at h ⊢
      split at h
      · rwa [if_pos ‹_›]
      · cases h

theorem Follows.insertion (h : ending.Follows input longer) :
    ending.Keeps input.insertion longer.insertion := by
  refine h.target.bind fun target named named' _ hnamed => ?_
  refine hnamed.skipBlanks.columnList.bind fun columns listed listed' _ hlisted => ?_
  refine (hlisted.expectKeyword (by decide)).bind fun word word' _ hword => ?_
  refine (hword.skipBlanks.expect (by decide) (by decide)).bind fun opened opened' _ hopened => ?_
  refine hopened.tupleValues.bind fun values read read' _ hread => ?_
  intro statement last hlast _
  obtain ⟨assignments, hassignments, hlast⟩ := bind_eq_ok.mp hlast
  cases hlast
  refine ⟨read', ?_, hread⟩
  dsimp only
  rw [pairValues_eq_ok hassignments read']
  rfl

theorem Follows.change (h : ending.Follows input longer) : ending.Keeps input.change longer.change := by
  refine h.target.bind fun target named named' _ hnamed => ?_
  refine (hnamed.skipBlanks.expectKeyword (by decide)).bind fun word word' _ hword => ?_
  refine KeepsIf.bind hword.assignments (fun pairs read read' _ hread => ?_) ?_
  · exact hread.condition.bind fun predicates last last' _ hlast => hlast.keeps_return _
  · intro pairs read statement last hlast _
    refine not_dangling fun next hnext => ?_
    obtain ⟨_, hcondition, _⟩ := bind_eq_ok.mp hlast
    simp only [Input.condition, hnext] at hcondition
    obtain ⟨_, hpredicates, _⟩ := bind_eq_ok.mp hcondition
    exact predicates_ne_nil hpredicates

theorem Follows.deletion (h : ending.Follows input longer) :
    ending.Keeps input.deletion longer.deletion := by
  refine h.target.bind fun target named named' _ hnamed => ?_
  exact hnamed.condition.bind fun predicates last last' _ hlast => hlast.keeps_return _

theorem Follows.statement (h : ending.Follows input longer) :
    ending.Keeps input.statement longer.statement := by
  have hinsert := h.eatKeyword? "insert" (by decide)
  have hupdate := h.eatKeyword? "update" (by decide)
  have hdelete := h.eatKeyword? "delete" (by decide)
  unfold Input.statement
  generalize input.eatKeyword? "insert" = word, longer.eatKeyword? "insert" = word' at hinsert ⊢
  cases hinsert with
  | some hword =>
      exact (hword.skipBlanks.expectKeyword (by decide)).bind fun next next' _ hnext => hnext.insertion
  | none =>
  generalize input.eatKeyword? "update" = word, longer.eatKeyword? "update" = word' at hupdate ⊢
  cases hupdate with
  | some hword => exact hword.change
  | none =>
  generalize input.eatKeyword? "delete" = word, longer.eatKeyword? "delete" = word' at hdelete ⊢
  cases hdelete with
  | some hword =>
      exact (hword.skipBlanks.expectKeyword (by decide)).bind fun next next' _ hnext => hnext.deletion
  | none =>
      intro _ _ h
      cases h

theorem rest_of_finish (h : input.finish = .ok ()) : input.skipBlanks.rest = [] := by
  unfold Input.finish at h
  split at h
  · exact List.isEmpty_iff.mp ‹_›
  · cases h

/-- A statement is finished if only blanks of ASCII are added. -/
theorem Follows.finish (h : ending.Follows input longer) (hclosing : ending.closing = [])
    (hascii : ∀ c, ending.blank c = true → Text.isAsciiBlank c = true) (hfinish : input.finish = .ok ()) :
    longer.finish = .ok () := by
  obtain ⟨more, ⟨blanks, hblanks, hmore⟩, hrest⟩ := h
  have hinput : input.rest.dropWhile Text.isAsciiBlank = [] := rest_of_finish hfinish
  have hlonger : longer.skipBlanks.rest = [] := by
    refine List.dropWhile_eq_nil_iff.mpr fun c hc => ?_
    rw [hrest, hmore, hclosing, List.append_nil, List.mem_append] at hc
    exact hc.elim (List.dropWhile_eq_nil_iff.mp hinput c) fun hc => hascii c (hblanks c hc)
  rw [Input.finish, hlonger]
  rfl

/-- A semicolon is left over, with all that it begins. -/
theorem Follows.finish_error (h : ending.Follows input longer) (hclosing : ending.closing ≠ [])
    (hfinish : input.finish = .ok ()) : ∃ fault, longer.finish = .error fault := by
  obtain ⟨more, ⟨blanks, _, hmore⟩, hrest⟩ := h.skipBlanks
  refine ⟨_, if_neg ?_⟩
  rw [hrest, rest_of_finish hfinish, hmore, List.nil_append, List.isEmpty_iff]
  exact List.append_ne_nil_of_right_ne_nil _ hclosing

end Steps

end Ending

/-! ## Bodies -/

theorem toList_dropEndWhile (sql : String) :
    (sql.dropEndWhile Text.isBlank).copy.toList = Text.trimRight sql.toList := by
  have hsplit : (sql.dropEndWhile Text.isBlank).copy.toList ++
      (sql.takeEndWhile Text.isBlank).copy.toList = sql.toList := by
    rw [← String.toList_append, String.dropEndWhile_append_takeEndWhile]
  have hblanks : ∀ c ∈ (sql.takeEndWhile Text.isBlank).copy.toList, Text.isBlank c = true := by
    have hall := @String.revAll_takeEndWhile _ Text.isBlank _ _ _ sql
    rwa [String.Slice.revAll_bool_eq, List.all_eq_true] at hall
  have hlast : ∀ c ∈ (sql.dropEndWhile Text.isBlank).copy.toList.getLast?, Text.isBlank c = false := by
    have hends := @String.endsWith_dropEndWhile _ Text.isBlank _ _ _ _ sql
    rw [String.Slice.endsWith_bool_eq_getLast?] at hends
    intro c hc
    rwa [Option.mem_def.mp hc, Option.any_some] at hends
  rw [← hsplit, Text.trimRight_append_blanks _ hblanks, Text.trimRight_of_last hlast]

/-- The text without one semicolon at its end. -/
def withoutSemicolon (text : List Char) : List Char :=
  if text.getLast? = some ';' then text.dropLast else text

theorem eq_withoutSemicolon (text : List Char) :
    text = withoutSemicolon text ∨ text = withoutSemicolon text ++ [';'] := by
  unfold withoutSemicolon
  split
  · obtain ⟨front, rfl⟩ := List.getLast?_eq_some_iff.mp ‹_›
    exact .inr (by rw [List.dropLast_concat])
  · exact .inl rfl

theorem withoutSemicolon_append (text : List Char) {more : List Char} (h : more ≠ []) :
    withoutSemicolon (text ++ more) = text ++ withoutSemicolon more := by
  have hlast : (text ++ more).getLast? = more.getLast? := by
    rw [List.getLast?_append, List.getLast?_eq_some_getLast h, Option.some_or]
  unfold withoutSemicolon
  rw [hlast]
  split
  · exact List.dropLast_append_of_ne_nil h
  · rfl

/-- The body of a text, and its place in it. -/
def bodyOf (sql : String) : Input :=
  body sql.utf8ByteSize (sql.dropEndWhile Text.isBlank).copy.toList

theorem rest_bodyOf (sql : String) :
    (bodyOf sql).rest = withoutSemicolon (Text.trimLeft (Text.trimRight sql.toList)) := by
  rw [bodyOf, toList_dropEndWhile]
  cases Text.trimRight sql.toList <;> rfl

theorem parse_eq_ok_iff {sql : String} {statement : Statement} : parse sql = .ok statement ↔
    sql.utf8ByteSize ≤ maxBytes ∧
      ∃ rest, (bodyOf sql).statement = .ok (statement, rest) ∧ rest.finish = .ok () := by
  have hbody : parseBody sql.utf8ByteSize (sql.dropEndWhile Text.isBlank).copy.toList = .ok statement ↔
      ∃ rest, (bodyOf sql).statement = .ok (statement, rest) ∧ rest.finish = .ok () := by
    unfold parseBody
    constructor
    · intro h
      obtain ⟨⟨_, rest⟩, hread, h⟩ := bind_eq_ok.mp h
      obtain ⟨_, hfinish, h⟩ := bind_eq_ok.mp h
      cases h
      exact ⟨rest, hread, hfinish⟩
    · rintro ⟨rest, hread, hfinish⟩
      exact bind_eq_ok.mpr ⟨_, hread, bind_eq_ok.mpr ⟨_, hfinish, rfl⟩⟩
  rw [parse_eq_ok, hbody]

/-- The statement that a body holds is held by a longer body, too, if only blanks of ASCII were added. -/
theorem parse_of_follows {ending : Ending} {sql longer : String} {statement : Statement}
    (h : parse sql = .ok statement) (hfollows : ending.Follows (bodyOf sql) (bodyOf longer))
    (hclosing : ending.closing = [])
    (hascii : ∀ c, ending.blank c = true → Text.isAsciiBlank c = true)
    (hsize : longer.utf8ByteSize ≤ maxBytes) : parse longer = .ok statement := by
  obtain ⟨_, rest, hread, hfinish⟩ := parse_eq_ok_iff.mp h
  obtain ⟨after, hafter, hfollows⟩ := hfollows.statement _ _ hread trivial
  exact parse_eq_ok_iff.mpr ⟨hsize, after, hafter, hfollows.finish hclosing hascii hfinish⟩

/-- Anything that a semicolon begins behind a body is refused. -/
theorem parse_error_of_follows {ending : Ending} {sql longer : String} {statement : Statement}
    (h : parse sql = .ok statement) (hfollows : ending.Follows (bodyOf sql) (bodyOf longer))
    (hclosing : ending.closing ≠ []) :
    ∃ reason text, parse longer = .error (.unparsableStatement reason text none) := by
  obtain ⟨_, rest, hread, hfinish⟩ := parse_eq_ok_iff.mp h
  obtain ⟨after, hafter, hfollows⟩ := hfollows.statement _ _ hread trivial
  obtain ⟨fault, hfault⟩ := hfollows.finish_error hclosing hfinish
  have hbody : parseBody longer.utf8ByteSize (longer.dropEndWhile Text.isBlank).copy.toList =
      .error fault := by
    rw [parseBody, ← bodyOf, hafter]
    simp only [bind, Except.bind, hfault]
  rw [parse, hbody]
  split
  · exact ⟨_, _, rfl⟩
  · exact ⟨_, _, rfl⟩

/-- An accepted text holds more than blanks. -/
theorem trimLeft_ne_nil {sql : String} {statement : Statement} (h : parse sql = .ok statement) :
    Text.trimLeft (Text.trimRight sql.toList) ≠ [] := by
  obtain ⟨_, rest, hread, _⟩ := parse_eq_ok_iff.mp h
  intro hnone
  have hempty : (bodyOf sql).rest = [] := by
    rw [rest_bodyOf, hnone]
    rfl
  have hword (keyword : String) (hkeyword : Ending.IsKeyword keyword) :
      (bodyOf sql).eatKeyword? keyword = none := by
    rw [Input.eatKeyword?, hempty, Ending.afterKeyword?_nil hkeyword, Option.map_none]
  rw [Input.statement, hword _ (by decide), hword _ (by decide), hword _ (by decide)] at hread
  cases hread

/-! ## Endings -/

namespace Ending

def blanksOnly : Ending where
  blank := Text.isAsciiBlank
  closing := []
  isBlank_of_blank := fun _ => Text.isBlank_of_isAsciiBlank
  head_closing := by simp

/-- Blanks, a semicolon and what it begins. -/
def semicolonBefore (rest : List Char) : Ending where
  blank := Text.isBlank
  closing := ';' :: rest
  isBlank_of_blank := fun _ => id
  head_closing := by simp

end Ending

section Bodies

variable {sql : String} {statement : Statement}

theorem follows_blanksOnly {before ending after : String} (h : parse sql = .ok statement)
    (hlast : ∀ c ∈ sql.toList.getLast?, Text.isBlank c = false ∧ c ≠ ';')
    (hbefore : ∀ c ∈ before.toList, Text.isAsciiBlank c = true) (hending : ending = "" ∨ ending = ";")
    (hafter : ∀ c ∈ after.toList, Text.isBlank c = true) :
    Ending.blanksOnly.Follows (bodyOf sql) (bodyOf (sql ++ before ++ ending ++ after)) := by
  have hright := Text.trimRight_of_last fun c hc => (hlast c hc).1
  have hleft := trimLeft_ne_nil h
  rw [hright] at hleft
  have hbody : (bodyOf sql).rest = Text.trimLeft sql.toList := by
    rw [rest_bodyOf, hright, withoutSemicolon, if_neg]
    rw [Text.getLast?_trimLeft hleft]
    exact fun hsemicolon => (hlast ';' hsemicolon).2 rfl
  simp only [Ending.Follows, hbody, rest_bodyOf, String.toList_append,
    Text.trimRight_append_blanks _ hafter]
  rcases hending with rfl | rfl
  · have hblanks : ∀ c ∈ before.toList, Text.isBlank c = true := fun c hc =>
      Text.isBlank_of_isAsciiBlank (hbefore c hc)
    refine ⟨[], ⟨[], by simp, rfl⟩, ?_⟩
    rw [String.toList_empty, List.append_nil, List.append_nil, Text.trimRight_append_blanks _ hblanks,
      ← rest_bodyOf, hbody]
  · refine ⟨before.toList, ⟨before.toList, hbefore, (List.append_nil _).symm⟩, ?_⟩
    have hsemicolon : withoutSemicolon (before.toList ++ [';']) = before.toList := by
      rw [withoutSemicolon, if_pos List.getLast?_concat, List.dropLast_concat]
    have hend : Text.trimRight (sql.toList ++ before.toList ++ ";".toList) =
        sql.toList ++ (before.toList ++ [';']) := by
      rw [Text.trimRight_of_last (by simp; decide), List.append_assoc]
      rfl
    rw [hend, Text.trimLeft_append hleft, withoutSemicolon_append _ (by simp), hsemicolon]

theorem follows_semicolon {more : String} (h : parse sql = .ok statement)
    (hmore : ∃ c ∈ more.toList, Text.isBlank c = false) :
    ∃ rest, (Ending.semicolonBefore rest).Follows (bodyOf sql) (bodyOf (sql ++ ";" ++ more)) := by
  obtain ⟨blanks, hblanks, hsql⟩ := Text.exists_trimRight_append sql.toList
  have hbody := trimLeft_ne_nil h
  have hleft : Text.trimLeft sql.toList = Text.trimLeft (Text.trimRight sql.toList) ++ blanks := by
    conv_lhs => rw [hsql]
    exact Text.trimLeft_append hbody
  have hkept : Text.trimRight more.toList ≠ [] := by
    obtain ⟨c, hc, hblank⟩ := hmore
    rw [Text.trimRight, ne_eq, List.reverse_eq_nil_iff, List.dropWhile_eq_nil_iff]
    exact fun hall => by simp [hall c (List.mem_reverse.mpr hc)] at hblank
  have hlonger : (bodyOf (sql ++ ";" ++ more)).rest =
      Text.trimLeft sql.toList ++ ';' :: withoutSemicolon (Text.trimRight more.toList) := by
    have hne : Text.trimLeft sql.toList ≠ [] := by simp [hleft, hbody]
    rw [rest_bodyOf, String.toList_append, String.toList_append, Text.trimRight_append hkept,
      List.append_assoc, Text.trimLeft_append hne, ← List.append_assoc, withoutSemicolon_append _ hkept,
      List.append_assoc]
    rfl
  rw [hleft, List.append_assoc] at hlonger
  -- The semicolon is the one that ended the accepted text, or else the one behind it.
  rcases eq_withoutSemicolon (Text.trimLeft (Text.trimRight sql.toList)) with hnone | hsemicolon
  · refine ⟨withoutSemicolon (Text.trimRight more.toList), _, ⟨blanks, hblanks, rfl⟩, ?_⟩
    rw [hlonger, rest_bodyOf, ← hnone]
    rfl
  · refine ⟨blanks ++ ';' :: withoutSemicolon (Text.trimRight more.toList), _,
      ⟨[], by simp, rfl⟩, ?_⟩
    rw [hlonger, rest_bodyOf]
    conv_lhs => rw [hsemicolon]
    simp [Ending.semicolonBefore]

/-- Behind an accepted statement blanks, a semicolon and again blanks change nothing. What else follows
a semicolon is refused, and with it the statement. -/
theorem only_blanks_follow (h : parse sql = .ok statement) :
    (∀ before ending after : String,
      (∀ c ∈ sql.toList.getLast?, Text.isBlank c = false ∧ c ≠ ';') →
      (∀ c ∈ before.toList, Text.isAsciiBlank c = true) → (ending = "" ∨ ending = ";") →
      (∀ c ∈ after.toList, Text.isBlank c = true) →
      (sql ++ before ++ ending ++ after).utf8ByteSize ≤ maxBytes →
        parse (sql ++ before ++ ending ++ after) = .ok statement) ∧
      ∀ more : String, (∃ c ∈ more.toList, Text.isBlank c = false) →
        ∃ reason text, parse (sql ++ ";" ++ more) = .error (.unparsableStatement reason text none) := by
  refine ⟨fun before ending after hlast hbefore hending hafter hsize => ?_, fun more hmore => ?_⟩
  · exact parse_of_follows h (follows_blanksOnly h hlast hbefore hending hafter) rfl (fun _ => id) hsize
  · obtain ⟨rest, hfollows⟩ := follows_semicolon h hmore
    exact parse_error_of_follows h hfollows (by simp [Ending.semicolonBefore])

end Bodies

/-- A condition behind the semicolon is refused, though the statement would take it in front. -/
theorem only_blanks_follow_of_sample :
    parse "delete from \"S\".\"T\"" = .ok ⟨.delete, "S", "T", .named [], none⟩ ∧
      parse ("delete from \"S\".\"T\"" ++ "\t" ++ ";" ++ "\n ") = .ok ⟨.delete, "S", "T", .named [], none⟩ ∧
      ∃ reason text, parse ("delete from \"S\".\"T\"" ++ ";" ++ " where \"X\" = 1") =
        .error (.unparsableStatement reason text none) := by
  have hname (name : String) (h : IsName name) : QuotedName name ("\"" ++ name ++ "\"") := ⟨h, rfl⟩
  have hwritten : Statement.Written ⟨.delete, "S", "T", .named [], none⟩ "delete from \"S\".\"T\"" :=
    .delete (hname "S" (by decide)) (hname "T" (by decide)) .absent
  have hparse := parse_of_written hwritten (by decide)
  have hfollow := only_blanks_follow hparse
  have hlast : ∀ c ∈ ("delete from \"S\".\"T\"").toList.getLast?, Text.isBlank c = false ∧ c ≠ ';' := by
    intro c hc
    have hquote : c = '"' := Option.mem_unique hc (by decide)
    subst hquote
    decide
  refine ⟨hparse, ?_, hfollow.2 _ ⟨'w', by decide, by decide⟩⟩
  exact hfollow.1 "\t" ";" "\n " hlast (List.all_eq_true.mp (by decide)) (.inr rfl)
    (List.all_eq_true.mp (by decide)) (by decide)

end Statement

end ChangeCapture
