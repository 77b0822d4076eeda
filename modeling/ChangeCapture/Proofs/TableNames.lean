import ChangeCapture.Table

/-! # Names in brackets

A reader of names in brackets takes two closing brackets for one of the name, and one alone for the end of
the name. It reads a table back from its two names, whatever they hold. -/

namespace ChangeCapture.TableId

/-! ## A reader of names -/

/-- The name up to its closing bracket, and what stands behind that. -/
def readNameBody? : List Char → Option (List Char × List Char)
  | [] => none
  | ']' :: ']' :: rest => (readNameBody? rest).map fun (name, tail) => (']' :: name, tail)
  | ']' :: rest => some ([], rest)
  | c :: rest => (readNameBody? rest).map fun (name, tail) => (c :: name, tail)

/-- A name in brackets at the front, and what stands behind it. -/
def readName? : List Char → Option (String × List Char)
  | '[' :: rest => (readNameBody? rest).map fun (name, tail) => (String.ofList name, tail)
  | _ => none

/-- The two names of a text that has a point between them and nothing behind them. -/
def readBracketed? (text : String) : Option (String × String) :=
  match readName? text.toList with
  | some (schema, '.' :: rest) =>
      match readName? rest with
      | some (table, []) => some (schema, table)
      | _ => none
  | _ => none

/-! ## One name -/

section Names

variable {name tail text : List Char}

theorem doubleBracket_cons_of_ne {c : Char} (h : c ≠ ']') (rest : List Char) :
    doubleBracket (c :: rest) = c :: doubleBracket rest := if_neg h

/-- A name is read up to the bracket that was written behind it, for the brackets before that one stand in
pairs. -/
theorem readNameBody?_doubleBracket (name : List Char) (htail : tail.head? ≠ some ']') :
    readNameBody? (doubleBracket name ++ ']' :: tail) = some (name, tail) := by
  induction name with
  | nil =>
      rw [doubleBracket, List.nil_append, readNameBody?]
      rintro rest rfl
      exact htail rfl
  | cons c name ih =>
      by_cases hc : c = ']'
      · subst hc
        exact congrArg (Option.map fun (name, tail) => (']' :: name, tail)) ih
      · rw [doubleBracket_cons_of_ne hc, List.cons_append, readNameBody?, ih, Option.map_some]
        · exact fun _ hbracket => absurd hbracket hc
        · exact hc

/-- What is read stands in front with its closing brackets written twice. -/
theorem eq_of_readNameBody? (h : readNameBody? text = some (name, tail)) :
    text = doubleBracket name ++ ']' :: tail ∧ tail.head? ≠ some ']' := by
  fun_induction readNameBody? text generalizing name tail with
  | case1 => cases h
  | case2 rest ih =>
      obtain ⟨⟨front, last⟩, hfront, hname⟩ := Option.map_eq_some_iff.mp h
      cases hname
      obtain ⟨rfl, hlast⟩ := ih hfront
      exact ⟨rfl, hlast⟩
  | case3 rest hpair =>
      cases h
      refine ⟨rfl, fun hhead => ?_⟩
      obtain ⟨others, rfl⟩ := List.head?_eq_some_iff.mp hhead
      exact hpair others rfl
  | case4 c rest _ hc ih =>
      obtain ⟨⟨front, last⟩, hfront, hname⟩ := Option.map_eq_some_iff.mp h
      cases hname
      obtain ⟨rfl, hlast⟩ := ih hfront
      exact ⟨by rw [doubleBracket_cons_of_ne hc, List.cons_append], hlast⟩

/-- A name in brackets is read exactly if it stands in front and no further closing bracket follows. -/
theorem readName?_eq_some {name : String} : readName? text = some (name, tail) ↔
    text = bracketName name ++ tail ∧ tail.head? ≠ some ']' := by
  constructor
  · intro h
    unfold readName? at h
    split at h
    · obtain ⟨⟨body, last⟩, hbody, hname⟩ := Option.map_eq_some_iff.mp h
      cases hname
      obtain ⟨rfl, htail⟩ := eq_of_readNameBody? hbody
      exact ⟨by simp [bracketName], htail⟩
    · cases h
  · rintro ⟨rfl, htail⟩
    have hbody := readNameBody?_doubleBracket name.toList htail
    simp [bracketName, readName?, hbody]

end Names

/-! ## Two names -/

theorem toList_bracketed (t : TableId) :
    t.bracketed.toList = bracketName t.schema ++ '.' :: bracketName t.table := by
  simp [bracketed]

/-- A text is read as two names exactly if it is that of the table with these names. -/
theorem readBracketed?_eq_some {text : String} {t : TableId} :
    readBracketed? text = some (t.schema, t.table) ↔ text = t.bracketed := by
  constructor
  · intro h
    unfold readBracketed? at h
    split at h
    · rename_i schema rest hschema
      split at h
      · rename_i table htable
        obtain ⟨rfl, rfl⟩ := Prod.mk.inj (Option.some.inj h)
        obtain ⟨htext, _⟩ := readName?_eq_some.mp hschema
        obtain ⟨rfl, _⟩ := readName?_eq_some.mp htable
        rw [← String.toList_inj, htext, toList_bracketed, List.append_nil]
      · cases h
    · cases h
  · rintro rfl
    have hschema : readName? t.bracketed.toList = some (t.schema, '.' :: bracketName t.table) :=
      readName?_eq_some.mpr ⟨toList_bracketed t, by simp⟩
    have htable : readName? (bracketName t.table) = some (t.table, []) :=
      readName?_eq_some.mpr ⟨(List.append_nil _).symm, by simp⟩
    simp only [readBracketed?, hschema, htable]

/-- The two names of a table are read back from its text, which therefore belongs to no other names. A name
in brackets ends where it was ended, whatever it holds and whatever follows: what is read is the name whose
text stands in front. -/
theorem bracketed_read_back (t : TableId) :
    readBracketed? t.bracketed = some (t.schema, t.table) ∧
      (∀ other : TableId, other.bracketed = t.bracketed ↔ other.schema = t.schema ∧ other.table = t.table) ∧
      ∀ (name : String) (text tail : List Char), readName? text = some (name, tail) ↔
        text = bracketName name ++ tail ∧ tail.head? ≠ some ']' := by
  have hread (t : TableId) : readBracketed? t.bracketed = some (t.schema, t.table) :=
    readBracketed?_eq_some.mpr rfl
  refine ⟨hread t, fun other => ⟨fun h => ?_, fun ⟨hschema, htable⟩ => ?_⟩, fun _ _ _ => readName?_eq_some⟩
  · have hsame := hread other
    rw [h, hread t] at hsame
    obtain ⟨hschema, htable⟩ := Prod.mk.inj (Option.some.inj hsame)
    exact ⟨hschema.symm, htable.symm⟩
  · rw [bracketed, hschema, htable, bracketed]

/-- A schema whose brackets, point and opening bracket look like the border between two names. -/
example : readBracketed? (TableId.bracketed ⟨"db", "a]].[b]", "[.]"⟩) = some ("a]].[b]", "[.]") := by cbv

end ChangeCapture.TableId
