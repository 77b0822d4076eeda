import ChangeCapture.Capture.Instance
import Mathlib.Data.List.Infix

/-! # Lists of captured columns

A list of names is read back from its text exactly if no name holds a bracket or the separator. The
separator cannot begin in one name and end in the next, since it does not end as it begins. -/

namespace ChangeCapture

/-! ## Parts of a text -/

/-- What stands between two names. -/
def columnSeparator : List Char := [',', ' ']

theorem splitCommaBlank_ne_nil (text : List Char) : splitCommaBlank text ≠ [] := by
  fun_cases splitCommaBlank text <;> simp_all

theorem not_separator_cons {c : Char} {rest : List Char}
    (h : ∀ tail, c = ',' → rest = ' ' :: tail → False) : ¬ columnSeparator <+: c :: rest := by
  rintro ⟨tail, htail⟩
  obtain ⟨rfl, rfl⟩ := List.cons.inj htail
  exact h tail rfl rfl

/-- A character that begins no separator belongs to the first part. -/
theorem splitCommaBlank_cons {c : Char} {rest part : List Char} {parts : List (List Char)}
    (hc : ¬ columnSeparator <+: c :: rest) (hrest : splitCommaBlank rest = part :: parts) :
    splitCommaBlank (c :: rest) = (c :: part) :: parts := by
  rw [splitCommaBlank, hrest]
  rintro tail rfl rfl
  exact hc ⟨tail, rfl⟩

/-- A separator stays one if another one follows somewhere behind it. -/
theorem separator_prefix_append {first rest : List Char} (hfirst : first ≠ [])
    (h : columnSeparator <+: first ++ (columnSeparator ++ rest)) : columnSeparator <+: first := by
  match first with
  | [] => exact absurd rfl hfirst
  | [c] =>
      -- the second character would be the comma of the separator behind
      obtain ⟨tail, htail⟩ := h
      simp [columnSeparator] at htail
  | c :: d :: first =>
      obtain ⟨tail, htail⟩ := h
      obtain ⟨rfl, rfl, _⟩ : ',' = c ∧ ' ' = d ∧ _ := by simpa [columnSeparator] using htail
      exact ⟨first, rfl⟩

/-- A separator divides the parts before it from those behind it. -/
theorem splitCommaBlank_append (first rest : List Char) :
    splitCommaBlank (first ++ (columnSeparator ++ rest)) =
      splitCommaBlank first ++ splitCommaBlank rest := by
  fun_induction splitCommaBlank first with
  | case1 => rfl
  | case2 first ih => exact congrArg ([] :: ·) ih
  | case3 c first hseparator part parts hparts ih =>
      rw [hparts] at ih
      exact splitCommaBlank_cons
        (mt (separator_prefix_append (List.cons_ne_nil c first)) (not_separator_cons hseparator)) ih
  | case4 c first _ hnone => exact absurd hnone (splitCommaBlank_ne_nil first)

/-- A text without a separator is its own only part. -/
theorem splitCommaBlank_of_no_separator {text : List Char} (h : ¬ columnSeparator <:+: text) :
    splitCommaBlank text = [text] := by
  induction text with
  | nil => rfl
  | cons c rest ih =>
      obtain ⟨hbegins, hrest⟩ := not_or.mp (mt List.infix_cons_iff.mpr h)
      exact splitCommaBlank_cons hbegins (ih hrest)

theorem prefix_of_splitCommaBlank {text part : List Char} {parts : List (List Char)}
    (h : splitCommaBlank text = part :: parts) : part <+: text := by
  fun_induction splitCommaBlank text generalizing part parts with
  | case1 | case2 =>
      cases h
      exact List.nil_prefix
  | case3 c rest _ first others hfirst ih =>
      cases h
      exact List.cons_prefix_cons.mpr ⟨rfl, ih hfirst⟩
  | case4 c rest _ hnone => exact absurd hnone (splitCommaBlank_ne_nil rest)

/-- No part holds a separator. -/
theorem not_infix_of_mem_splitCommaBlank {text : List Char} :
    ∀ part ∈ splitCommaBlank text, ¬ columnSeparator <:+: part := by
  fun_induction splitCommaBlank text with
  | case1 => simp [columnSeparator]
  | case2 rest ih => exact List.forall_mem_cons.mpr ⟨by simp [columnSeparator], ih⟩
  | case3 c rest hseparator part parts hpart ih =>
      rw [hpart] at ih
      obtain ⟨hfirst, hothers⟩ := List.forall_mem_cons.mp ih
      refine List.forall_mem_cons.mpr ⟨fun hheld => ?_, hothers⟩
      rcases List.infix_cons_iff.mp hheld with hbegins | hheld
      · -- the first part goes on as the text does, so that a separator at its front is one of the text
        have hwhole : columnSeparator <+: c :: rest :=
          hbegins.trans (List.cons_prefix_cons.mpr ⟨rfl, prefix_of_splitCommaBlank hpart⟩)
        exact not_separator_cons hseparator hwhole
      · exact hfirst hheld
  | case4 c rest _ hnone => exact absurd hnone (splitCommaBlank_ne_nil rest)

/-- The parts are made of characters of the text. -/
theorem mem_of_mem_splitCommaBlank {text : List Char} {c : Char} :
    ∀ part ∈ splitCommaBlank text, c ∈ part → c ∈ text := by
  fun_induction splitCommaBlank text with
  | case1 => simp
  | case2 rest ih =>
      refine List.forall_mem_cons.mpr ⟨by simp, fun part hpart hc => ?_⟩
      exact List.mem_cons_of_mem _ (List.mem_cons_of_mem _ (ih part hpart hc))
  | case3 d rest _ part parts hpart ih =>
      rw [hpart] at ih
      obtain ⟨hfirst, hothers⟩ := List.forall_mem_cons.mp ih
      refine List.forall_mem_cons.mpr ⟨fun hc => ?_, fun other hother hc => ?_⟩
      · exact List.mem_cons.mpr ((List.mem_cons.mp hc).imp id hfirst)
      · exact List.mem_cons_of_mem d (hothers other hother hc)
  | case4 c rest _ hnone => exact absurd hnone (splitCommaBlank_ne_nil rest)

/-! ## Names in a list -/

def dropBrackets (text : List Char) : List Char := text.filter fun c => c != '[' && c != ']'

theorem dropBrackets_of_not_mem {text : List Char} (hopen : '[' ∉ text) (hclose : ']' ∉ text) :
    dropBrackets text = text := by
  refine List.filter_eq_self.mpr fun c hc => ?_
  have hc₁ : c ≠ '[' := fun h => hopen (h ▸ hc)
  have hc₂ : c ≠ ']' := fun h => hclose (h ▸ hc)
  simp [hc₁, hc₂]

/-- The name can stand in a list: it holds neither a bracket nor a separator. -/
def IsColumnName (name : List Char) : Prop :=
  '[' ∉ name ∧ ']' ∉ name ∧ ¬ columnSeparator <:+: name

/-- The names that a name turns into when it is read from a list. -/
def namesRead (name : String) : List String :=
  (splitCommaBlank (dropBrackets name.toList)).map String.ofList

/-- Whatever is read from a list can stand in one. -/
theorem isColumnName_of_mem_parse {list : Option String} {name : String}
    (h : name ∈ parseCapturedColumns list) : IsColumnName name.toList := by
  unfold parseCapturedColumns at h
  dsimp only at h
  split at h
  · cases h
  · obtain ⟨part, hpart, rfl⟩ := List.mem_map.mp h
    rw [String.toList_ofList]
    have hbracket (c : Char) (hc : (c != '[' && c != ']') = false) : c ∉ part := fun hmem => by
      have hkept := (List.mem_filter.mp (mem_of_mem_splitCommaBlank part hpart hmem)).2
      rw [hc] at hkept
      cases hkept
    exact ⟨hbracket '[' (by decide), hbracket ']' (by decide), not_infix_of_mem_splitCommaBlank part hpart⟩

/-- The text of a list without its brackets divides into what each name turns into. -/
theorem splitCommaBlank_render {columns : List String} (hne : columns ≠ []) :
    (splitCommaBlank (dropBrackets (renderCapturedColumns columns).toList)).map String.ofList =
      columns.flatMap namesRead := by
  induction columns with
  | nil => exact absurd rfl hne
  | cons name columns ih =>
      have hname : dropBrackets ('[' :: (name.toList ++ [']'])) = dropBrackets name.toList := by
        simp [dropBrackets]
      cases columns with
      | nil => simp [renderCapturedColumns, hname, namesRead]
      | cons next columns =>
          have hlist : (renderCapturedColumns (name :: next :: columns)).toList =
              '[' :: (name.toList ++ [']']) ++ (columnSeparator ++
                (renderCapturedColumns (next :: columns)).toList) := by
            simp [renderCapturedColumns, columnSeparator]
          have hseparator (text more : List Char) : dropBrackets (text ++ (columnSeparator ++ more)) =
              dropBrackets text ++ (columnSeparator ++ dropBrackets more) := by
            simp [dropBrackets, columnSeparator]
          rw [List.flatMap_cons (x := name), namesRead, ← ih (List.cons_ne_nil _ _), hlist, hseparator,
            hname, splitCommaBlank_append, List.map_append]

/-- A list of names is read as what its names turn into one by one, if anything is left of them. -/
theorem parse_render {columns : List String} (hne : columns ≠ [])
    (hleft : columns.flatMap namesRead ≠ [""]) :
    parseCapturedColumns (some (renderCapturedColumns columns)) = columns.flatMap namesRead := by
  have hread := splitCommaBlank_render hne
  have hstripped : dropBrackets (renderCapturedColumns columns).toList ≠ [] := fun hnil => by
    rw [hnil] at hread
    exact hleft hread.symm
  rw [← hread, parseCapturedColumns]
  exact if_neg (by simpa [dropBrackets] using hstripped)

/-- A list of columns that is not just the empty name is read back from its text exactly if no name holds
a bracket or a comma with a blank behind it. -/
theorem columns_read_back_iff {columns : List String} (hne : columns ≠ []) (hempty : columns ≠ [""]) :
    parseCapturedColumns (some (renderCapturedColumns columns)) = columns ↔
      ∀ name ∈ columns, '[' ∉ name.toList ∧ ']' ∉ name.toList ∧ ¬ [',', ' '] <:+: name.toList := by
  constructor
  · intro h name hname
    exact isColumnName_of_mem_parse (h.symm ▸ hname)
  · intro h
    have hsame (name : String) (hname : name ∈ columns) : namesRead name = [name] := by
      obtain ⟨hopen, hclose, hseparator⟩ := h name hname
      rw [namesRead, dropBrackets_of_not_mem hopen hclose, splitCommaBlank_of_no_separator hseparator,
        List.map_singleton, String.ofList_toList]
    have hall : columns.flatMap namesRead = columns := by
      rw [List.flatMap_congr hsame, List.flatMap_singleton']
    rw [parse_render hne (by rwa [hall]), hall]

/-- Names that end in a comma, begin with a blank or are empty, and a name that holds a separator. -/
theorem columns_read_back_iff_of_sample :
    parseCapturedColumns (some "[a,], [ b], [], [,]") = ["a,", " b", "", ","] ∧
      parseCapturedColumns (some "[a, b]") ≠ ["a, b"] := by
  have hsplit := @columns_read_back_iff ["a,", " b", "", ","] (by decide) (by decide)
  have hjoined := @columns_read_back_iff ["a, b"] (by decide) (by decide)
  refine ⟨hsplit.mpr (by decide), fun h => ?_⟩
  exact absurd (hjoined.mp h) (by decide)

end ChangeCapture
