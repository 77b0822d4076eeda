import ChangeCapture.Statement.Basic
import ChangeCapture.Statement.Value
import ChangeCapture.Value.Literal

/-! # How the log writes statements

A relation between statements and their texts. It is no function, for a null condition has two
spellings. -/

namespace ChangeCapture

/-! ## Names -/

/-- A name that can stand in double quotes. -/
def IsName (name : String) : Prop := name ≠ "" ∧ '"' ∉ name.toList

instance (name : String) : Decidable (IsName name) := inferInstanceAs (Decidable (_ ∧ _))

/-- The text is the name in double quotes. -/
def QuotedName (name text : String) : Prop := IsName name ∧ text = "\"" ++ name ++ "\""

/-! ## Values -/

/-- A digit, a sign, the decimal point or the mark of an exponent. -/
def isNumberChar (c : Char) : Bool :=
  c.isDigit || c == '+' || c == '-' || c == '.' || c == 'e' || c == 'E'

/-- A character that neither ends a value nor opens anything in it. -/
def isPlainChar (c : Char) : Bool :=
  !Text.isBlank c && c != '\'' && c != '(' && c != ')' && c != ',' && c != ';'

/-- Text in which all quotes are closed and the parentheses outside quotes are balanced. -/
inductive Balanced : List Char → Prop where
  | nil : Balanced []
  | char {c : Char} {rest : List Char} (hquote : c ≠ '\'') (hopen : c ≠ '(') (hclose : c ≠ ')')
      (hrest : Balanced rest) : Balanced (c :: rest)
  | quoted {body rest : List Char} (hbody : '\'' ∉ body) (hrest : Balanced rest) :
      Balanced ('\'' :: (body ++ '\'' :: rest))
  | group {inner rest : List Char} (hinner : Balanced inner) (hrest : Balanced rest) :
      Balanced ('(' :: (inner ++ ')' :: rest))

/-- The log writes the value as the text. -/
inductive ValueToken.Written : ValueToken → String → Prop where
  | null : Written .null "NULL"
  | unsupported : Written .unsupported ValueToken.unsupportedText
  | literal (content : List Char) :
      Written (.literal (String.ofList (Literal.escape content)))
        ("'" ++ String.ofList (Literal.escape content) ++ "'")
  | number {source : String} (hne : source ≠ "") (hchars : ∀ c ∈ source.toList, isNumberChar c) :
      Written (.expression source) source
  /-- The last character closes the parenthesis after the name. -/
  | call {name arguments : List Char} (hname : ∀ c ∈ name, isPlainChar c)
      (harguments : Balanced arguments) :
      Written (.expression (String.ofList (name ++ '(' :: (arguments ++ [')']))))
        (String.ofList (name ++ '(' :: (arguments ++ [')'])))

/-! ## Lists -/

/-- The texts of one or more items with a separator between them. -/
inductive Separated {α : Type} (separator : String) (Writes : α → String → Prop) :
    List α → String → Prop where
  | last {item : α} {text : String} (hitem : Writes item text) : Separated separator Writes [item] text
  | cons {item : α} {text : String} {items : List α} {texts : String} (hitem : Writes item text)
      (hitems : Separated separator Writes items texts) :
      Separated separator Writes (item :: items) (text ++ separator ++ texts)

/-- A column, an equals sign and the value that it is set to. -/
inductive WrittenAssignment : String × ValueToken → String → Prop where
  | set {column name written : String} {value : ValueToken} (hcolumn : QuotedName column name)
      (hvalue : value.Written written) : WrittenAssignment (column, value) (name ++ " = " ++ written)

/-- A column with the value that it has. Null is written in words or as any other value. -/
inductive WrittenPredicate : String × ValueToken → String → Prop where
  | equals {column name written : String} {value : ValueToken} (hcolumn : QuotedName column name)
      (hvalue : value.Written written) : WrittenPredicate (column, value) (name ++ " = " ++ written)
  | isNull {column name : String} (hcolumn : QuotedName column name) :
      WrittenPredicate (column, .null) (name ++ " IS NULL")

/-- The end of a change or a deletion: one or more predicates, or nothing. -/
inductive WrittenCondition : Option (List (String × ValueToken)) → String → Prop where
  | absent : WrittenCondition none ""
  | present {pairs : List (String × ValueToken)} {text : String}
      (hpairs : Separated " and " WrittenPredicate pairs text) :
      WrittenCondition (some pairs) (" where " ++ text)

/-! ## Statements -/

/-- The log writes the statement as the text. -/
inductive Statement.Written : Statement → String → Prop where
  /-- An insertion of one value for each column in the order of the table. -/
  | positional {schema schemaName table tableName written : String} {values : List ValueToken}
      (hschema : QuotedName schema schemaName) (htable : QuotedName table tableName)
      (hvalues : Separated "," ValueToken.Written values written) :
      Written ⟨.insert, schema, table, .positional values, none⟩
        ("insert into " ++ schemaName ++ "." ++ tableName ++ " values (" ++ written ++ ")")
  /-- An insertion that lists as many columns as values. -/
  | named {schema schemaName table tableName names written : String} {columns : List String}
      {values : List ValueToken}
      (hschema : QuotedName schema schemaName) (htable : QuotedName table tableName)
      (hcolumns : Separated "," QuotedName columns names)
      (hvalues : Separated "," ValueToken.Written values written)
      (hlength : columns.length = values.length) :
      Written ⟨.insert, schema, table, .named (columns.zip values), none⟩
        ("insert into " ++ schemaName ++ "." ++ tableName ++ "(" ++ names ++ ") values (" ++ written
          ++ ")")
  | update {schema schemaName table tableName assignments condition : String}
      {pairs : List (String × ValueToken)} {predicates : Option (List (String × ValueToken))}
      (hschema : QuotedName schema schemaName) (htable : QuotedName table tableName)
      (hpairs : Separated ", " WrittenAssignment pairs assignments)
      (hcondition : WrittenCondition predicates condition) :
      Written ⟨.update, schema, table, .named pairs, predicates⟩
        ("update " ++ schemaName ++ "." ++ tableName ++ " set " ++ assignments ++ condition)
  | delete {schema schemaName table tableName condition : String}
      {predicates : Option (List (String × ValueToken))}
      (hschema : QuotedName schema schemaName) (htable : QuotedName table tableName)
      (hcondition : WrittenCondition predicates condition) :
      Written ⟨.delete, schema, table, .named [], predicates⟩
        ("delete from " ++ schemaName ++ "." ++ tableName ++ condition)

end ChangeCapture
