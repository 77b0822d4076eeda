import ChangeCapture.Proofs.Statement.Value
import ChangeCapture.Statement.Parser

/-! # Statements are read as they are written -/

namespace ChangeCapture

namespace Statement

/-! ## Steps -/

theorem bind_eq_ok {ε α β : Type} {result : Except ε α} {go : α → Except ε β} {final : β} :
    (result >>= go) = .ok final ↔ ∃ value, result = .ok value ∧ go value = .ok final := by
  cases result with
  | error e => simp [bind, Except.bind]
  | ok value => simp [bind, Except.bind]

theorem Yields.bind {α β : Type} {result : Except Fault (α × Input)}
    {go : α × Input → Except Fault (β × Input)} {value : α} {final : β} {tail last : List Char}
    (h : Yields result value tail)
    (hgo : ∀ next, next.rest = tail → Yields (go (value, next)) final last) :
    Yields (result >>= go) final last := by
  obtain ⟨next, rfl, hnext⟩ := h
  exact hgo next hnext

/-- The result leaves `tail` to be read. -/
def Leaves (result : Except Fault Input) (tail : List Char) : Prop :=
  ∃ next, result = .ok next ∧ next.rest = tail

theorem Leaves.bind {β : Type} {result : Except Fault Input} {go : Input → Except Fault (β × Input)}
    {final : β} {tail last : List Char} (h : Leaves result tail)
    (hgo : ∀ next, next.rest = tail → Yields (go next) final last) :
    Yields (result >>= go) final last := by
  obtain ⟨next, rfl, hnext⟩ := h
  exact hgo next hnext

theorem yields_return {α : Type} {value : α} {input : Input} {tail : List Char}
    (h : input.rest = tail) : Yields (pure (value, input)) value tail := ⟨input, rfl, h⟩

/-! ## Words -/

namespace Input

variable {input : Input} {tail : List Char}

theorem rest_skipBlanks (blanks tail : List Char) (hrest : input.rest = blanks ++ tail)
    (hblanks : blanks.all Text.isAsciiBlank)
    (htail : ∀ c ∈ tail.head?, Text.isAsciiBlank c = false) : input.skipBlanks.rest = tail := by
  rw [skipBlanks, advance, hrest, List.dropWhile_append_of_pos (List.all_eq_true.mp hblanks)]
  cases tail with
  | nil => rfl
  | cons c tail => exact List.dropWhile_cons_of_neg (by simp [htail c rfl])

/-- One blank is skipped before what is no blank. -/
theorem rest_skipBlank (tail : List Char) (hrest : input.rest = ' ' :: tail)
    (htail : ∀ c ∈ tail.head?, Text.isAsciiBlank c = false) : input.skipBlanks.rest = tail :=
  rest_skipBlanks [' '] tail hrest (by decide) htail

theorem exists_eat {c : Char} (hrest : input.rest = c :: tail) :
    ∃ next, input.eat? c = some next ∧ next.rest = tail := by
  simp [eat?, hrest, advance]

theorem eat_eq_none {c : Char} (hrest : input.rest.head? ≠ some c) : input.eat? c = none := by
  cases h : input.rest with
  | nil => simp [eat?, h]
  | cons d rest =>
      rw [h] at hrest
      simpa [eat?, h] using hrest

theorem expect_written {c : Char} (hrest : input.rest = c :: tail) : Leaves (input.expect c) tail := by
  obtain ⟨next, hnext, htail⟩ := exists_eat hrest
  exact ⟨next, by simp [expect, hnext], htail⟩

theorem not_isWordChar_of_isAsciiBlank {c : Char} (h : Text.isAsciiBlank c = true) :
    isWordChar c = false := by
  simp only [Text.isAsciiBlank, Bool.or_eq_true, beq_iff_eq] at h
  rcases h with (((rfl | rfl) | rfl) | rfl) | rfl <;> decide

theorem exists_eatKeyword (keyword : String) (word : List Char) (hrest : input.rest = word ++ tail)
    (hword : Text.lowerAscii word = keyword.toList)
    (htail : ∀ c ∈ tail.head?, isWordChar c = false) :
    ∃ next, input.eatKeyword? keyword = some next ∧ next.rest = tail := by
  have hlength : keyword.toList.length = word.length := by
    simp [← hword, Text.lowerAscii]
  have hhead : tail.head?.any isWordChar = false := by
    cases tail with
    | nil => rfl
    | cons c tail => exact htail c rfl
  simp [eatKeyword?, afterKeyword?, hrest, hlength, hword, hhead, advance]

theorem eatKeyword_eq_none {keyword : String} (k : Char) (ks : List Char)
    (hkeyword : keyword.toList = k :: ks) (hrest : input.rest.head?.map Char.toLower ≠ some k) :
    input.eatKeyword? keyword = none := by
  have hword : Text.lowerAscii (input.rest.take keyword.toList.length) ≠ keyword.toList := by
    intro h
    rw [hkeyword] at h
    cases hr : input.rest with
    | nil => simp [hr, Text.lowerAscii] at h
    | cons c rest =>
        rw [hr] at h hrest
        simp [Text.lowerAscii] at h hrest
        exact hrest h.1
  simp [eatKeyword?, afterKeyword?, hword]

theorem expectKeyword_written (keyword : String) (word : List Char) (hrest : input.rest = word ++ tail)
    (hword : Text.lowerAscii word = keyword.toList) (htail : ∀ c ∈ tail.head?, isWordChar c = false) :
    Leaves (input.expectKeyword keyword) tail := by
  obtain ⟨next, hnext, htail⟩ := exists_eatKeyword keyword word hrest hword htail
  exact ⟨next, by simp [expectKeyword, hnext], htail⟩

/-! ## Names -/

theorem identifier_written {name text : String} (h : QuotedName name text)
    (hrest : input.rest = text.toList ++ tail) : Yields input.identifier name tail := by
  obtain ⟨⟨hne, hquote⟩, rfl⟩ := h
  have hopen : input.rest = '"' :: (name.toList ++ '"' :: tail) := by simpa using hrest
  obtain ⟨opened, hopened, hopenedRest⟩ := expect_written hopen
  have hname : ∀ c ∈ name.toList, (c != '"') = true := by
    intro c hc
    simpa using ne_of_mem_of_not_mem hc hquote
  have htake : opened.rest.takeWhile (· != '"') = name.toList := by
    rw [hopenedRest, List.takeWhile_append_of_pos hname]
    simp
  have hdrop : opened.rest.dropWhile (· != '"') = '"' :: tail := by
    rw [hopenedRest, List.dropWhile_append_of_pos hname]
    simp
  refine ⟨opened.advance (name.toList ++ ['"']) tail, ?_, rfl⟩
  simp [identifier, hopened, htake, hdrop, hne]

/-- Blanks before a name are skipped. -/
theorem identifier_after_blanks {name text : String} (blanks : List Char) (h : QuotedName name text)
    (hblanks : blanks.all Text.isAsciiBlank)
    (hrest : input.rest = blanks ++ (text.toList ++ tail)) :
    Yields input.skipBlanks.identifier name tail := by
  refine identifier_written h (rest_skipBlanks blanks _ hrest hblanks ?_)
  simp [h.2, Text.isAsciiBlank]

theorem target_written {schema schemaName table tableName : String}
    (hschema : QuotedName schema schemaName) (htable : QuotedName table tableName)
    (hrest : input.rest = ' ' :: (schemaName.toList ++ '.' :: (tableName.toList ++ tail))) :
    Yields input.target (schema, table) tail := by
  have hblank : input.rest = [' '] ++ (schemaName.toList ++ '.' :: (tableName.toList ++ tail)) := hrest
  refine (identifier_after_blanks [' '] hschema (by decide) hblank).bind fun named hnamed => ?_
  refine (expect_written hnamed).bind fun dotted hdotted => ?_
  refine (identifier_written htable hdotted).bind fun last hlast => ?_
  exact yields_return hlast

/-! ## Lists of names and values -/

theorem columnNames_eq (input : Input) : input.columnNames = (do
    let (name, named) ← input.skipBlanks.identifier
    match named.skipBlanks.eat? ')' with
    | some closed => return ([name], closed)
    | none => do
        let next ← named.skipBlanks.expect ','
        let (names, last) ← next.columnNames
        return (name :: names, last)) := by
  rw [columnNames]
  split
  case h_1 fault h => simp only [h, bind, Except.bind]
  case h_2 name named h =>
    simp only [h, bind, Except.bind]
    cases named.skipBlanks.eat? ')' with
    | some closed => rfl
    | none => cases named.skipBlanks.expect ',' <;> rfl

theorem tupleValues_eq (input : Input) : input.tupleValues = (do
    let (value, read) ← input.value .tuple
    match read.eat? ')' with
    | some closed => return ([value], closed)
    | none => do
        let next ← read.expect ','
        let (values, last) ← next.tupleValues
        return (value :: values, last)) := by
  rw [tupleValues]
  split
  case h_1 fault h => simp only [h, bind, Except.bind]
  case h_2 value read h =>
    simp only [h, bind, Except.bind]
    cases read.eat? ')' with
    | some closed => rfl
    | none => cases read.expect ',' <;> rfl

theorem assignments_eq (input : Input) : input.assignments = (do
    let (pair, read) ← input.assignment
    match read.eat? ',' with
    | none => return ([pair], read)
    | some next => do
        let (pairs, last) ← next.assignments
        return (pair :: pairs, last)) := by
  rw [assignments]
  split
  case h_1 fault h => simp only [h, bind, Except.bind]
  case h_2 pair read h =>
    simp only [h, bind, Except.bind]
    split
    case h_1 hc =>
      simp only [hc]
      rfl
    case h_2 next hc => simp only [hc]

theorem predicates_eq (input : Input) : input.predicates = (do
    let (pair, read) ← input.predicate
    match read.skipBlanks.eatKeyword? "and" with
    | none => return ([pair], read.skipBlanks)
    | some next => do
        let (pairs, last) ← next.predicates
        return (pair :: pairs, last)) := by
  rw [predicates]
  split
  case h_1 fault h => simp only [h, bind, Except.bind]
  case h_2 pair read h =>
    simp only [h, bind, Except.bind]
    split
    case h_1 hc =>
      simp only [hc]
      rfl
    case h_2 next hc => simp only [hc]


theorem columnNames_written {columns : List String} {names : String}
    (h : Separated "," QuotedName columns names)
    (hrest : input.rest = names.toList ++ ')' :: tail) : Yields input.columnNames columns tail := by
  induction h generalizing input with
  | @last column name hcolumn =>
      rw [columnNames_eq]
      refine (identifier_after_blanks [] hcolumn rfl hrest).bind fun named hnamed => ?_
      have hskip := rest_skipBlanks [] _ hnamed (by simp) (by simp [Text.isAsciiBlank])
      obtain ⟨closed, hclosed, hlast⟩ := exists_eat hskip
      simp only [hclosed]
      exact yields_return hlast
  | @cons column name columns names hcolumn _ ih =>
      have hcomma : input.rest = name.toList ++ ',' :: (names.toList ++ ')' :: tail) := by
        simpa using hrest
      rw [columnNames_eq]
      refine (identifier_after_blanks [] hcolumn rfl hcomma).bind fun named hnamed => ?_
      have hskip := rest_skipBlanks [] _ hnamed (by simp) (by simp [Text.isAsciiBlank])
      have hopen : named.skipBlanks.eat? ')' = none := eat_eq_none (by simp [hskip])
      simp only [hopen]
      refine (expect_written hskip).bind fun next hnext => ?_
      exact (ih hnext).bind fun last hlast => yields_return hlast

theorem tupleValues_written {values : List ValueToken} {written : String}
    (h : Separated "," ValueToken.Written values written)
    (hrest : input.rest = written.toList ++ ')' :: tail) : Yields input.tupleValues values tail := by
  induction h generalizing input with
  | last hvalue =>
      rw [tupleValues_eq]
      refine (value_written hvalue hrest (.inr rfl)).bind fun read hread => ?_
      obtain ⟨closed, hclosed, hlast⟩ := exists_eat hread
      simp only [hclosed]
      exact yields_return hlast
  | @cons value text values texts hvalue _ ih =>
      have hcomma : input.rest = text.toList ++ ',' :: (texts.toList ++ ')' :: tail) := by
        simpa using hrest
      rw [tupleValues_eq]
      refine (value_written hvalue hcomma (.inr rfl)).bind fun read hread => ?_
      have hopen : read.eat? ')' = none := eat_eq_none (by simp [hread])
      simp only [hopen]
      refine (expect_written hread).bind fun next hnext => ?_
      exact (ih hnext).bind fun last hlast => yields_return hlast

/-! ## Assignments -/

theorem value_after_equals {context : ValueContext} {token : ValueToken} {text : String}
    (h : token.Written text) (hrest : input.rest = ' ' :: (text.toList ++ tail))
    (htail : tail = [] ∨ context.endsBefore tail = true) :
    Yields (input.skipBlanks.value context) token tail := by
  obtain ⟨c, rest, hc, hblank⟩ := head_written h
  refine value_written h (rest_skipBlank _ hrest fun d hd => ?_) htail
  rw [hc, List.cons_append, List.head?_cons, Option.mem_some_iff] at hd
  subst hd
  exact Bool.eq_false_iff.mpr fun h => by simp [Text.isBlank_of_isAsciiBlank h] at hblank

theorem assignment_written {pair : String × ValueToken} {text : String}
    (h : WrittenAssignment pair text) (hrest : input.rest = ' ' :: (text.toList ++ tail))
    (htail : tail = [] ∨ ValueContext.setClause.endsBefore tail = true) :
    Yields input.assignment pair tail := by
  obtain @⟨column, name, written, value, hcolumn, hvalue⟩ := h
  have hequals :
      input.rest = [' '] ++ (name.toList ++ ' ' :: '=' :: ' ' :: (written.toList ++ tail)) := by
    simpa using hrest
  refine (identifier_after_blanks [' '] hcolumn (by decide) hequals).bind fun named hnamed => ?_
  have hskip := rest_skipBlank _ hnamed (by simp [Text.isAsciiBlank])
  refine (expect_written hskip).bind fun equals hequals => ?_
  exact (value_after_equals hvalue hequals htail).bind fun read hread => yields_return hread

/-- The text after the last assignment is empty or begins the condition. -/
theorem assignments_written {pairs : List (String × ValueToken)} {text : String}
    (h : Separated ", " WrittenAssignment pairs text)
    (hrest : input.rest = ' ' :: (text.toList ++ tail))
    (htail : tail = [] ∨ beginsWithSpaced "where" tail = true) :
    Yields input.assignments pairs tail := by
  induction h generalizing input with
  | @last pair text hpair =>
      have hends : tail = [] ∨ ValueContext.setClause.endsBefore tail = true :=
        htail.imp_right fun h => by simp [ValueContext.endsBefore, h]
      have hcomma : tail.head? ≠ some ',' := by
        rcases htail with rfl | hwhere
        · simp
        · intro hhead
          simp [beginsWithSpaced, hhead, Text.isAsciiBlank] at hwhere
      rw [assignments_eq]
      refine (assignment_written hpair hrest hends).bind fun read hread => ?_
      simp only [eat_eq_none (hread ▸ hcomma)]
      exact yields_return hread
  | @cons pair text pairs texts hpair _ ih =>
      have hcomma : input.rest = ' ' :: (text.toList ++ ',' :: ' ' :: (texts.toList ++ tail)) := by
        simpa using hrest
      rw [assignments_eq]
      refine (assignment_written hpair hcomma (.inr rfl)).bind fun read hread => ?_
      obtain ⟨next, hnext, hnextRest⟩ := exists_eat hread
      simp only [hnext]
      exact (ih hnextRest).bind fun last hlast => yields_return hlast

/-! ## Conditions -/

theorem predicate_written {pair : String × ValueToken} {text : String} (h : WrittenPredicate pair text)
    (hrest : input.rest = ' ' :: (text.toList ++ tail))
    (htail : tail = [] ∨ beginsWithSpaced "and" tail = true) : Yields input.predicate pair tail := by
  cases h with
  | @equals column name written value hcolumn hvalue =>
      have hequals :
          input.rest = [' '] ++ (name.toList ++ ' ' :: '=' :: ' ' :: (written.toList ++ tail)) := by
        simpa using hrest
      have hends : tail = [] ∨ ValueContext.whereClause.endsBefore tail = true :=
        htail.imp_right fun h => by simp [ValueContext.endsBefore, h]
      refine (identifier_after_blanks [' '] hcolumn (by decide) hequals).bind fun named hnamed => ?_
      have hskip := rest_skipBlank _ hnamed (by simp [Text.isAsciiBlank])
      have hno : named.skipBlanks.eatKeyword? "is" = none :=
        eatKeyword_eq_none 'i' ['s'] rfl (by simp [hskip])
      simp only [hno]
      refine (expect_written hskip).bind fun equals hequals => ?_
      exact (value_after_equals hvalue hequals hends).bind fun read hread => yields_return hread
  | @isNull column name hcolumn =>
      have hwords : input.rest =
          [' '] ++ (name.toList ++ ' ' :: 'I' :: 'S' :: ' ' :: ("NULL".toList ++ tail)) := by
        simpa using hrest
      have hword : ∀ c ∈ tail.head?, isWordChar c = false := by
        intro c hc
        rcases htail with rfl | hand
        · simp at hc
        · simp only [beginsWithSpaced, Option.mem_def.mp hc, Option.any_some, Bool.and_eq_true] at hand
          exact not_isWordChar_of_isAsciiBlank hand.1
      refine (identifier_after_blanks [' '] hcolumn (by decide) hwords).bind fun named hnamed => ?_
      have hskip := rest_skipBlank _ hnamed (by simp [Text.isAsciiBlank])
      obtain ⟨is, his, hisRest⟩ :=
        exists_eatKeyword "is" ['I', 'S'] hskip (by decide)
          (by simp [isWordChar])
      simp only [his]
      have hnull := rest_skipBlank ("NULL".toList ++ tail) hisRest (by simp [Text.isAsciiBlank])
      have hread :=
        expectKeyword_written "null" "NULL".toList hnull (by decide) hword
      exact hread.bind fun read hread => yields_return hread

theorem predicates_written {pairs : List (String × ValueToken)} {text : String}
    (h : Separated " and " WrittenPredicate pairs text) (hrest : input.rest = ' ' :: text.toList) :
    Yields input.predicates pairs [] := by
  induction h generalizing input with
  | last hpair =>
      rw [predicates_eq]
      refine (predicate_written hpair (by simpa using hrest) (.inl rfl)).bind fun read hread => ?_
      have hskip := rest_skipBlanks [] _ hread (by simp) (by simp)
      have hno : read.skipBlanks.eatKeyword? "and" = none :=
        eatKeyword_eq_none 'a' ['n', 'd'] rfl (by simp [hskip])
      simp only [hno]
      exact yields_return hskip
  | @cons pair text pairs texts hpair _ ih =>
      have hand :
          input.rest = ' ' :: (text.toList ++ ' ' :: ("and".toList ++ ' ' :: texts.toList)) := by
        simpa using hrest
      have hspaced : beginsWithSpaced "and" (' ' :: ("and".toList ++ ' ' :: texts.toList)) = true := by
        simp [beginsWithSpaced, Text.isAsciiBlank, afterKeyword?, Text.lowerAscii, isWordChar]
      rw [predicates_eq]
      refine (predicate_written hpair hand (.inr hspaced)).bind fun read hread => ?_
      have hskip := rest_skipBlank ("and".toList ++ ' ' :: texts.toList) hread
        (by simp [Text.isAsciiBlank])
      obtain ⟨next, hnext, hnextRest⟩ := exists_eatKeyword "and" _ hskip (by decide)
        (by simp [isWordChar])
      simp only [hnext]
      exact (ih hnextRest).bind fun last hlast => yields_return hlast

theorem condition_written {predicates : Option (List (String × ValueToken))} {text : String}
    (h : WrittenCondition predicates text) (hrest : input.rest = text.toList) :
    Yields input.condition predicates [] := by
  cases h with
  | absent =>
      have hskip := rest_skipBlanks [] [] hrest (by simp) (by simp)
      have hno : input.skipBlanks.eatKeyword? "where" = none :=
        eatKeyword_eq_none 'w' "here".toList rfl (by simp [hskip])
      simp only [condition, hno]
      exact yields_return hskip
  | @present pairs text hpairs =>
      have hwhere : input.rest = ' ' :: ("where".toList ++ ' ' :: text.toList) := by simpa using hrest
      have hskip := rest_skipBlank _ hwhere (by simp [Text.isAsciiBlank])
      obtain ⟨next, hnext, hnextRest⟩ := exists_eatKeyword "where" _ hskip (by decide)
        (by simp [isWordChar])
      simp only [condition, hnext]
      exact (predicates_written hpairs hnextRest).bind fun last hlast => yields_return hlast

/-! ## Statements -/

/-- The parts of an insertion, with or without a list of columns. -/
theorem insertion_written {schema schemaName table tableName written : String}
    (columns : Option (List String)) {values : List ValueToken} {assignments : Assignments}
    (hschema : QuotedName schema schemaName) (htable : QuotedName table tableName)
    (hrest : input.rest = ' ' :: (schemaName.toList ++ '.' :: (tableName.toList ++ tail)))
    (hcolumns : ∀ named : Input, named.rest = tail → Yields named.skipBlanks.columnList columns
      ("values".toList ++ ' ' :: '(' :: (written.toList ++ [')'])))
    (hvalues : Separated "," ValueToken.Written values written)
    (hpairs : ∀ read : Input, read.pairValues columns values = .ok assignments) :
    Yields input.insertion ⟨.insert, schema, table, assignments, none⟩ [] := by
  refine (target_written hschema htable hrest).bind fun named hnamed => ?_
  refine (hcolumns named hnamed).bind fun listed hlisted => ?_
  refine (expectKeyword_written "values" _ hlisted (by decide) (by simp [isWordChar])).bind fun word hword => ?_
  have hskip := rest_skipBlank _ hword (by simp [Text.isAsciiBlank])
  refine (expect_written hskip).bind fun opened hopened => ?_
  refine (tupleValues_written hvalues hopened).bind fun read hread => ?_
  simp only [hpairs]
  exact yields_return hread

theorem statement_of_insertion {result : Statement} (tail : List Char)
    (hrest : input.rest = "insert".toList ++ ' ' :: ("into".toList ++ ' ' :: tail))
    (h : ∀ next : Input, next.rest = ' ' :: tail → Yields next.insertion result []) :
    Yields input.statement result [] := by
  obtain ⟨verb, hverb, hverbRest⟩ :=
    exists_eatKeyword "insert" _ hrest (by decide) (by simp [isWordChar])
  have hskip := rest_skipBlank ("into".toList ++ ' ' :: tail) hverbRest
    (by simp [Text.isAsciiBlank])
  simp only [statement, hverb]
  exact (expectKeyword_written "into" _ hskip (by decide) (by simp [isWordChar])).bind h

theorem statement_of_change {result : Statement} (tail : List Char) (hrest : input.rest = "update".toList ++ ' ' :: tail)
    (h : ∀ next : Input, next.rest = ' ' :: tail → Yields next.change result []) :
    Yields input.statement result [] := by
  have hinsert : input.eatKeyword? "insert" = none :=
    eatKeyword_eq_none 'i' "nsert".toList rfl (by simp [hrest])
  obtain ⟨verb, hverb, hverbRest⟩ :=
    exists_eatKeyword "update" _ hrest (by decide) (by simp [isWordChar])
  simp only [statement, hinsert, hverb]
  exact h verb hverbRest

theorem statement_of_deletion {result : Statement} (tail : List Char)
    (hrest : input.rest = "delete".toList ++ ' ' :: ("from".toList ++ ' ' :: tail))
    (h : ∀ next : Input, next.rest = ' ' :: tail → Yields next.deletion result []) :
    Yields input.statement result [] := by
  have hinsert : input.eatKeyword? "insert" = none :=
    eatKeyword_eq_none 'i' "nsert".toList rfl (by simp [hrest])
  have hupdate : input.eatKeyword? "update" = none :=
    eatKeyword_eq_none 'u' "pdate".toList rfl (by simp [hrest])
  obtain ⟨verb, hverb, hverbRest⟩ :=
    exists_eatKeyword "delete" _ hrest (by decide) (by simp [isWordChar])
  have hskip := rest_skipBlank ("from".toList ++ ' ' :: tail) hverbRest
    (by simp [Text.isAsciiBlank])
  simp only [statement, hinsert, hupdate, hverb]
  exact (expectKeyword_written "from" _ hskip (by decide) (by simp [isWordChar])).bind h

theorem statement_written {result : Statement} {text : String} (h : result.Written text)
    (hrest : input.rest = text.toList) : Yields input.statement result [] := by
  cases h with
  | @positional schema schemaName table tableName written values hschema htable hvalues =>
      refine statement_of_insertion (schemaName.toList ++ '.' :: (tableName.toList ++ ' ' ::
        ("values".toList ++ ' ' :: '(' :: (written.toList ++ [')'])))) (by simpa using hrest)
        fun next hnext => ?_
      refine insertion_written none hschema htable hnext (fun named hnamed => ?_) hvalues
        fun _ => rfl
      have hskip := rest_skipBlank
        ("values".toList ++ ' ' :: '(' :: (written.toList ++ [')'])) hnamed
        (by simp [Text.isAsciiBlank])
      have hno : named.skipBlanks.eat? '(' = none := eat_eq_none (by simp [hskip])
      simp only [columnList, hno]
      exact yields_return hskip
  | @named schema schemaName table tableName names written columns values hschema htable hcolumns
      hvalues hlength =>
      refine statement_of_insertion (schemaName.toList ++ '.' :: (tableName.toList ++ '(' ::
        (names.toList ++ ')' :: ' ' :: ("values".toList ++ ' ' :: '(' :: (written.toList ++ [')'])))))
        (by simpa using hrest) fun next hnext => ?_
      refine insertion_written (some columns) hschema htable hnext (fun named hnamed => ?_)
        hvalues fun read => by simp [pairValues, hlength]
      have hskip := rest_skipBlanks [] _ hnamed (by simp) (by simp [Text.isAsciiBlank])
      obtain ⟨opened, hopened, hopenedRest⟩ := exists_eat hskip
      simp only [columnList, hopened]
      refine (columnNames_written hcolumns hopenedRest).bind fun listed hlisted => yields_return ?_
      exact rest_skipBlank _ hlisted (by simp [Text.isAsciiBlank])
  | @update schema schemaName table tableName assignments condition pairs predicates hschema htable
      hpairs hcondition =>
      refine statement_of_change (schemaName.toList ++ '.' :: (tableName.toList ++ ' ' ::
        ("set".toList ++ ' ' :: (assignments.toList ++ condition.toList)))) (by simpa using hrest)
        fun next hnext => ?_
      refine (target_written hschema htable hnext).bind fun named hnamed => ?_
      have hskip := rest_skipBlank ("set".toList ++ ' ' :: (assignments.toList ++ condition.toList))
        hnamed (by simp [Text.isAsciiBlank])
      refine (expectKeyword_written "set" _ hskip (by decide) (by simp [isWordChar])).bind
        fun word hword => ?_
      refine (assignments_written hpairs hword ?_).bind fun read hread => ?_
      · cases hcondition with
        | absent => exact .inl rfl
        | present _ =>
            refine .inr ?_
            simp [beginsWithSpaced, Text.isAsciiBlank, afterKeyword?, Text.lowerAscii, isWordChar]
      · exact (condition_written hcondition hread).bind fun last hlast => yields_return hlast
  | @delete schema schemaName table tableName condition predicates hschema htable hcondition =>
      refine statement_of_deletion
        (schemaName.toList ++ '.' :: (tableName.toList ++ condition.toList))
        (by simpa using hrest) fun next hnext => ?_
      refine (target_written hschema htable hnext).bind fun named hnamed => ?_
      exact (condition_written hcondition hnamed).bind fun last hlast => yields_return hlast

end Input

/-! ## Texts -/

theorem endsFirmly_quotedName {name text : String} (h : QuotedName name text) :
    EndsFirmly text.toList := by
  rw [h.2, String.toList_append]
  exact endsFirmly_concat (by decide) (by decide) _

theorem endsFirmly_separated {α : Type} {separator : String} {Writes : α → String → Prop}
    {items : List α} {text : String} (h : Separated separator Writes items text)
    (hitem : ∀ item text, Writes item text → EndsFirmly text.toList) : EndsFirmly text.toList := by
  induction h with
  | last hlast => exact hitem _ _ hlast
  | cons _ _ ih =>
      rw [String.toList_append]
      exact ih.append _

theorem endsFirmly_assignment {pair : String × ValueToken} {text : String}
    (h : WrittenAssignment pair text) : EndsFirmly text.toList := by
  obtain ⟨_, hvalue⟩ := h
  rw [String.toList_append]
  exact (endsFirmly_written hvalue).append _

theorem endsFirmly_predicate {pair : String × ValueToken} {text : String}
    (h : WrittenPredicate pair text) : EndsFirmly text.toList := by
  cases h with
  | equals _ hvalue =>
      rw [String.toList_append]
      exact (endsFirmly_written hvalue).append _
  | isNull _ =>
      rw [String.toList_append]
      exact EndsFirmly.append ⟨'L', by decide, by decide, by decide⟩ _

theorem EndsFirmly.append_condition {text condition : String}
    {predicates : Option (List (String × ValueToken))} (h : EndsFirmly text.toList)
    (hcondition : WrittenCondition predicates condition) :
    EndsFirmly (text ++ condition).toList := by
  cases hcondition with
  | absent => simpa using h
  | present hpairs =>
      rw [String.toList_append, String.toList_append]
      exact ((endsFirmly_separated hpairs fun _ _ => endsFirmly_predicate).append _).append _

theorem endsFirmly_statement {statement : Statement} {text : String} (h : statement.Written text) :
    EndsFirmly text.toList := by
  cases h with
  | positional _ _ _ | named _ _ _ _ _ =>
      rw [String.toList_append]
      exact endsFirmly_concat (by decide) (by decide) _
  | update _ _ hpairs hcondition =>
      refine EndsFirmly.append_condition ?_ hcondition
      rw [String.toList_append]
      exact (endsFirmly_separated hpairs fun _ _ => endsFirmly_assignment).append _
  | delete _ htable hcondition =>
      refine EndsFirmly.append_condition ?_ hcondition
      rw [String.toList_append]
      exact (endsFirmly_quotedName htable).append _

theorem head_statement {statement : Statement} {text : String} (h : statement.Written text) :
    ∃ c ∈ text.toList.head?, Text.isBlank c = false := by
  cases h with
  | positional _ _ _ | named _ _ _ _ _ => exact ⟨'i', by simp, by decide⟩
  | update _ _ _ _ => exact ⟨'u', by simp, by decide⟩
  | delete _ _ _ => exact ⟨'d', by simp, by decide⟩

theorem dropEndWhile_of_last {text : String} (h : ∃ c ∈ text.toList.getLast?, Text.isBlank c = false) :
    (text.dropEndWhile Text.isBlank).copy = text := by
  obtain ⟨c, hlast, hblank⟩ := h
  have hends : text.endsWith Text.isBlank = false := by
    rw [String.endsWith_bool_eq_getLast?, Option.mem_def.mp hlast, Option.any_some, hblank]
  rw [String.dropEndWhile_eq_toSlice hends, String.copy_toSlice]

/-- The body is the text before the semicolon. -/
theorem rest_body (text ending : List Char) (hhead : ∃ c ∈ text.head?, Text.isBlank c = false)
    (hlast : EndsFirmly text) (hending : ending = [] ∨ ending = [';']) (size : Nat) :
    (body size (text ++ ending)).rest = text := by
  obtain ⟨c, hc, hblank⟩ := hhead
  obtain ⟨rest, rfl⟩ := List.head?_eq_some_iff.mp hc
  obtain ⟨d, hd, _, hsemicolon⟩ := hlast
  have htrim : Text.trimLeft (c :: rest ++ ending) = c :: rest ++ ending :=
    List.dropWhile_cons_of_neg (by simp [hblank])
  rw [body, if_neg (by simp), htrim]
  rcases hending with rfl | rfl
  · have hkeep : (c :: rest).getLast? ≠ some ';' := by
      rw [Option.mem_def.mp hd]
      simpa using hsemicolon
    simp only [List.append_nil, if_neg hkeep]
  · simp only [List.getLast?_concat, List.dropLast_concat, if_true]

theorem parseBody_written {statement : Statement} {text ending : String} (h : statement.Written text)
    (hending : ending = "" ∨ ending = ";") (size : Nat) :
    parseBody size (text ++ ending).toList = .ok statement := by
  have hbody := rest_body text.toList ending.toList (head_statement h) (endsFirmly_statement h)
    (hending.imp (by rintro rfl; rfl) (by rintro rfl; rfl)) size
  obtain ⟨last, hlast, hnil⟩ := Input.statement_written h hbody
  have hfinish : last.finish = .ok () := by
    simp [Input.finish, Input.skipBlanks, Input.advance, hnil]
  rw [parseBody, String.toList_append, hlast]
  simp only [bind, Except.bind, hfinish]
  rfl

theorem dropEndWhile_written {statement : Statement} {text ending : String} (h : statement.Written text)
    (hending : ending = "" ∨ ending = ";") :
    ((text ++ ending).dropEndWhile Text.isBlank).copy = text ++ ending := by
  refine dropEndWhile_of_last ?_
  rcases hending with rfl | rfl
  · obtain ⟨c, hlast, hblank, _⟩ := endsFirmly_statement h
    exact ⟨c, by simpa using hlast, hblank⟩
  · exact ⟨';', by simp, by decide⟩

/-- A text holds a statement if it is not too large and its body, without the blanks at the end, is one. -/
theorem parse_eq_ok {sql : String} {statement : Statement} : parse sql = .ok statement ↔
    sql.utf8ByteSize ≤ maxBytes ∧
      parseBody sql.utf8ByteSize (sql.dropEndWhile Text.isBlank).copy.toList = .ok statement := by
  rw [parse]
  by_cases hsize : maxBytes < sql.utf8ByteSize
  · simp [if_pos hsize, Nat.not_le.mpr hsize]
  · rw [if_neg hsize]
    cases parseBody sql.utf8ByteSize (sql.dropEndWhile Text.isBlank).copy.toList <;>
      simp [Nat.not_lt.mp hsize]

theorem parse_of_written {statement : Statement} {text : String} (h : statement.Written text)
    (hsize : text.utf8ByteSize ≤ maxBytes) : parse text = .ok statement := by
  have htrim := dropEndWhile_written h (.inl rfl)
  have hbody := parseBody_written h (.inl rfl) text.utf8ByteSize
  rw [String.append_empty] at htrim hbody
  rw [parse_eq_ok, htrim]
  exact ⟨hsize, hbody⟩

/-- A statement is read back from the text that the log writes for it, with or without a semicolon at
the end. -/
theorem parse_written {statement : Statement} {text ending : String} (h : statement.Written text)
    (hending : ending = "" ∨ ending = ";") (hsize : (text ++ ending).utf8ByteSize ≤ maxBytes) :
    parse (text ++ ending) = .ok statement := by
  rw [parse, if_neg (Nat.not_lt.mpr hsize), dropEndWhile_written h hending, parseBody_written h hending]

/-- The names and values of this change hold most of what has a meaning elsewhere in a statement. -/
theorem parse_written_of_sample :
    parse ("update \"A.B\".\"T\" set \"X\" = 'it''s, where', \"Y\" = F('a)''', (1)) where \"X\" IS NULL" ++
        " and \"and\" = Unsupported Type" ++ ";")
      = .ok ⟨.update, "A.B", "T",
          .named [("X", .literal "it''s, where"), ("Y", .expression "F('a)''', (1))")],
          some [("X", .null), ("and", .unsupported)]⟩ := by
  have hname (name : String) (h : IsName name) : QuotedName name ("\"" ++ name ++ "\"") := ⟨h, rfl⟩
  have hend : Balanced ", (1)".toList :=
    .char (by decide) (by decide) (by decide) (.char (by decide) (by decide) (by decide)
      (.group (.char (by decide) (by decide) (by decide) .nil) .nil))
  have harguments : Balanced "'a)''', (1)".toList :=
    @Balanced.quoted ['a', ')'] _ (by decide) (@Balanced.quoted [] _ (by decide) hend)
  have hcall := @ValueToken.Written.call ['F'] _ (List.all_eq_true.mp (by decide)) harguments
  have hassignments : Separated ", " WrittenAssignment _ _ :=
    .cons (.set (hname "X" (by decide)) (.literal "it's, where".toList))
      (.last (.set (hname "Y" (by decide)) hcall))
  have hpredicates : Separated " and " WrittenPredicate _ _ :=
    .cons (.isNull (hname "X" (by decide))) (.last (.equals (hname "and" (by decide)) .unsupported))
  exact parse_written
    (.update (hname "A.B" (by decide)) (hname "T" (by decide)) hassignments (.present hpredicates))
    (.inr rfl) (by decide)

end Statement

end ChangeCapture
