import ChangeCapture.Configuration
import ChangeCapture.Proofs.OffsetTexts
import Mathlib.Data.List.Infix

/-! # What reports show of a password

The connection text has no escapes, so that a report looks for the first mark of a password in it and for the
semicolon behind that. What is told about it holds for any texts in the settings. -/

namespace ChangeCapture

open List

/-! ## Texts that occur in others -/

section Infix

variable {text left right : List Char} {c : Char}

theorem prefix_append_cons_iff (hc : c ∉ text) : text <+: left ++ c :: right ↔ text <+: left := by
  induction left generalizing text with
  | nil =>
      cases text with
      | nil => simp
      | cons a text =>
          rw [mem_cons, not_or] at hc
          simp [cons_prefix_cons, Ne.symm hc.1]
  | cons d left ih =>
      cases text with
      | nil => simp
      | cons a text =>
          rw [mem_cons, not_or] at hc
          rw [cons_append, cons_prefix_cons, cons_prefix_cons, ih hc.2]

/-- A text without some character occurs on one side of it. -/
theorem infix_append_cons_iff (hc : c ∉ text) :
    text <:+: left ++ c :: right ↔ text <:+: left ∨ text <:+: right := by
  induction left with
  | nil =>
      have hprefix : text <+: [] ++ c :: right ↔ text <+: [] := prefix_append_cons_iff hc
      rw [nil_append] at hprefix ⊢
      rw [infix_cons_iff, hprefix, prefix_nil, infix_nil]
  | cons d left ih =>
      rw [cons_append, infix_cons_iff, ih, ← cons_append, prefix_append_cons_iff hc, infix_cons_iff,
        or_assoc]

/-- A text does not begin where its first character does not occur. -/
theorem cons_infix_append_iff (hc : c ∉ left) : c :: text <:+: left ++ right ↔ c :: text <:+: right := by
  induction left with
  | nil => rfl
  | cons d left ih =>
      rw [mem_cons, not_or] at hc
      rw [cons_append, infix_cons_iff, ih hc.2, cons_prefix_cons]
      simp [hc.1]

theorem dropWhile_append_cons (left right : List Char) (c : Char) :
    (left ++ c :: right).dropWhile (· != c) = left.dropWhile (· != c) ++ c :: right := by
  induction left with
  | nil => simp
  | cons d left ih =>
      by_cases hd : d = c
      · simp [hd]
      · simpa [hd] using ih

end Infix

namespace Configuration

/-! ## Hiding what follows a mark -/

variable {text : List Char}

theorem semicolon_not_mem_passwordMark : ';' ∉ passwordMark := by decide

theorem isPrefixOf_passwordMark (text rest : List Char) :
    passwordMark.isPrefixOf (text ++ ';' :: rest) = true ↔ passwordMark <+: text :=
  isPrefixOf_iff_prefix.trans (prefix_append_cons_iff semicolon_not_mem_passwordMark)

/-- A part of a text without a mark stays as it is. -/
theorem redact_of_not_infix (h : ¬ passwordMark <:+: text) (rest : List Char) :
    redact (text ++ ';' :: rest) = text ++ ';' :: redact rest := by
  induction text with
  | nil =>
      have hnone := (isPrefixOf_passwordMark [] rest).not.mpr (by decide)
      rw [nil_append] at hnone ⊢
      rw [redact, if_neg hnone]
      rfl
  | cons c text ih =>
      rw [infix_cons_iff, not_or] at h
      have hnone := (isPrefixOf_passwordMark (c :: text) rest).not.mpr h.1
      rw [cons_append] at hnone ⊢
      rw [redact, if_neg hnone, ih h.2]
      rfl

/-- Behind a part of a text with a mark all stays as it is. -/
theorem redact_of_infix (h : passwordMark <:+: text) :
    ∃ shown, ∀ rest, redact (text ++ ';' :: rest) = shown ++ ';' :: rest := by
  induction text with
  | nil => exact absurd h (by decide)
  | cons c text ih =>
      by_cases hprefix : passwordMark <+: c :: text
      · refine ⟨"Password=[REDACTED]".toList ++ text.dropWhile (· != ';'), fun rest => ?_⟩
        have hmark := (isPrefixOf_passwordMark (c :: text) rest).mpr hprefix
        rw [cons_append] at hmark ⊢
        rw [redact, if_pos hmark, dropWhile_append_cons, append_assoc]
      · obtain ⟨shown, hshown⟩ := ih ((infix_cons_iff.mp h).resolve_left hprefix)
        refine ⟨c :: shown, fun rest => ?_⟩
        have hnone := (isPrefixOf_passwordMark (c :: text) rest).not.mpr hprefix
        rw [cons_append] at hnone ⊢
        rw [redact, if_neg hnone, hshown]
        rfl

theorem redact_mark (rest : List Char) :
    redact (passwordMark ++ rest) = "Password=[REDACTED]".toList ++ rest.dropWhile (· != ';') := rfl

/-! ## Connection texts -/

variable {config : Configuration} {p q : String}

/-- A setting before the password holds the mark of a password. -/
def HoldsMark (config : Configuration) : Prop :=
  passwordMark <:+: config.host.toList ∨ passwordMark <:+: config.database.toList ∨
    passwordMark <:+: config.username.toList

/-- The connection text before the password, without the semicolon that ends it. -/
def textBefore (config : Configuration) : String :=
  s!"Server={config.host},{config.port};Database={config.database};User Id={config.username}"

/-- The settings behind the password. -/
def partsBehind (config : Configuration) : List String :=
  s!"Application Name={config.applicationName}" :: s!"Connect Timeout={config.connectSeconds}" ::
    (if config.trustServerCertificate then ["TrustServerCertificate=true"] else []) ++
    [if config.encrypt then "Encrypt=true" else "Encrypt=false"]

/-- The connection text behind the password, without the semicolon that begins it. -/
def textBehind (config : Configuration) : String := String.intercalate ";" config.partsBehind

theorem connectionParts_eq (h : config.password = some p) :
    config.connectionParts = s!"Server={config.host},{config.port}" :: s!"Database={config.database}" ::
      s!"User Id={config.username}" :: s!"Password={p}" :: config.partsBehind := by
  simp only [connectionParts, partsBehind, h, Option.map_some, Option.toList_some, cons_append, nil_append]

theorem connectionString_eq (h : config.password = some p) : config.connectionString =
    config.textBefore ++ ";" ++ "Password=" ++ p ++ ";" ++ config.textBehind := by
  have hself (text : String) : toString text = text := rfl
  have hbehind : config.partsBehind ≠ [] := cons_ne_nil _ _
  rw [connectionString, connectionParts_eq h, String.intercalate_cons_cons, String.intercalate_cons_cons,
    String.intercalate_cons_cons, String.intercalate_cons_of_ne_nil hbehind, textBefore, textBehind]
  simp only [hself, String.append_assoc]
  rfl

theorem passwordMark_infix_textBefore : passwordMark <:+: config.textBefore.toList ↔ config.HoldsMark := by
  have htext : config.textBefore.toList = "Server=".toList ++ (config.host.toList ++ ',' ::
      ((toString config.port).toList ++ ';' :: ("Database=".toList ++ (config.database.toList ++ ';' ::
        ("User Id=".toList ++ config.username.toList))))) := by
    have hself (text : String) : toString text = text := rfl
    simp [textBefore, hself]
  have hmark : passwordMark = 'P' :: "assword=".toList := rfl
  have hport : ¬ 'P' :: "assword=".toList <:+: (toString config.port).toList := fun h =>
    not_mem_toString_nat rfl config.port (h.subset mem_cons_self)
  rw [htext, HoldsMark, hmark, cons_infix_append_iff (by decide), infix_append_cons_iff (by decide),
    infix_append_cons_iff (by decide), cons_infix_append_iff (by decide), infix_append_cons_iff (by decide),
    cons_infix_append_iff (by decide), or_iff_right hport]

/-! ## Reports -/

/-- A configuration with a password. -/
abbrev withPassword (config : Configuration) (password : String) : Configuration :=
  { config with password := some password }

/-- What a password shows in reports if no mark comes before it. -/
def shownOf (password : String) : List Char := password.toList.dropWhile (· != ';')

theorem textBefore_withPassword : (config.withPassword p).textBefore = config.textBefore := by
  simp only [textBefore]

theorem textBehind_withPassword : (config.withPassword p).textBehind = config.textBehind := by
  simp only [textBehind, partsBehind, connectSeconds]

theorem toList_redacted (config : Configuration) (p : String) :
    (config.withPassword p).redactedConnectionString.toList =
      redact (config.textBefore.toList ++ ';' :: (passwordMark ++ (p.toList ++ ';' ::
        config.textBehind.toList))) := by
  have hsemicolon : ";".toList = [';'] := rfl
  have hmark : "Password=".toList = passwordMark := rfl
  have htext : (config.withPassword p).connectionString = (config.withPassword p).textBefore ++ ";" ++
      "Password=" ++ p ++ ";" ++ (config.withPassword p).textBehind := connectionString_eq rfl
  rw [redactedConnectionString, htext, String.toList_ofList, textBefore_withPassword,
    textBehind_withPassword]
  simp only [String.toList_append, hsemicolon, hmark, append_assoc, cons_append, nil_append]

/-- Without a mark before it a password is shown from its first semicolon on. -/
theorem toList_redacted_of_not_holdsMark (h : ¬ config.HoldsMark) (p : String) :
    (config.withPassword p).redactedConnectionString.toList =
      config.textBefore.toList ++ ';' :: ("Password=[REDACTED]".toList ++ (shownOf p ++ ';' ::
        config.textBehind.toList)) := by
  rw [toList_redacted, redact_of_not_infix (passwordMark_infix_textBefore.not.mpr h), redact_mark,
    dropWhile_append_cons, shownOf]

/-- Behind a mark in another setting a password is shown as it is. -/
theorem toList_redacted_of_holdsMark (h : config.HoldsMark) : ∃ shown, ∀ p,
    (config.withPassword p).redactedConnectionString.toList =
      shown ++ (p.toList ++ ';' :: config.textBehind.toList) := by
  obtain ⟨shown, hshown⟩ := redact_of_infix (passwordMark_infix_textBefore.mpr h)
  refine ⟨shown ++ ';' :: passwordMark, fun p => ?_⟩
  rw [toList_redacted, hshown, append_assoc, cons_append]

theorem redactedConnectionString_eq_iff :
    (config.withPassword p).redactedConnectionString = (config.withPassword q).redactedConnectionString ↔
      p = q ∨ ¬ config.HoldsMark ∧ shownOf p = shownOf q := by
  rw [← String.toList_inj]
  by_cases h : config.HoldsMark
  · obtain ⟨shown, hshown⟩ := toList_redacted_of_holdsMark h
    rw [hshown, hshown, append_cancel_left_eq, append_cancel_right_eq, String.toList_inj]
    simp [h]
  · rw [toList_redacted_of_not_holdsMark h, toList_redacted_of_not_holdsMark h]
    have hsame : p = q → shownOf p = shownOf q := congrArg shownOf
    simpa [h] using hsame

/-- What is kept for reports does not come into the connection text. -/
theorem redactedConnectionString_reported (config : Configuration) (text : String) :
    { config with reportedConnection := text }.redactedConnectionString =
      config.redactedConnectionString := by
  simp only [redactedConnectionString, connectionString, connectionParts, connectSeconds]

/-- Of the password itself a description only shows that there is one. -/
theorem describedFields_withPassword (config : Configuration) (p q text : String) :
    describedFields { config.withPassword p with reportedConnection := text } =
      describedFields { config.withPassword q with reportedConnection := text } := by
  simp only [describedFields, Option.map_some]

theorem describe_withPassword (config : Configuration) (p q text : String) :
    describe { config.withPassword p with reportedConnection := text } =
      describe { config.withPassword q with reportedConnection := text } := by
  unfold describe
  rw [describedFields_withPassword config p q]

theorem build_eq_ok {built : Configuration} : config.build = .ok built ↔ config.validate = .ok () ∧
    built = { config with reportedConnection := config.redactedConnectionString } := by
  rw [build]
  cases config.validate <;> simp [Except.map, eq_comm]

/-- All reports of two valid configurations with the same settings and two passwords are alike exactly if
the passwords go on alike from their first semicolon and no setting before them holds a mark. So a password
is hidden only up to its first semicolon, and not at all behind a mark in the host, the database or the
name of the user. -/
theorem reports_alike_iff {built built' : Configuration}
    (h : (config.withPassword p).build = .ok built) (h' : (config.withPassword q).build = .ok built') :
    (built.describe = built'.describe ∧
        built.redactedConnectionString = built'.redactedConnectionString ∧
        built.reportedConnection = built'.reportedConnection) ↔
      p = q ∨ ¬ config.HoldsMark ∧ shownOf p = shownOf q := by
  obtain ⟨_, rfl⟩ := build_eq_ok.mp h
  obtain ⟨_, rfl⟩ := build_eq_ok.mp h'
  rw [← redactedConnectionString_eq_iff, redactedConnectionString_reported,
    redactedConnectionString_reported]
  constructor
  · intro hreports
    exact hreports.2.1
  · intro hredacted
    rw [hredacted]
    exact ⟨describe_withPassword config p q _, rfl, rfl⟩

section Sample

/-- A configuration with all that is required but a password. -/
def sampleConfiguration : Configuration where
  username := "sa"
  database := "shop"

theorem build_sampleConfiguration (p : String) : (sampleConfiguration.withPassword p).build =
    .ok { sampleConfiguration.withPassword p with
      reportedConnection := (sampleConfiguration.withPassword p).redactedConnectionString } :=
  build_eq_ok.mpr ⟨rfl, rfl⟩

theorem not_holdsMark_sampleConfiguration : ¬ sampleConfiguration.HoldsMark := by
  unfold HoldsMark
  decide

end Sample

/-- Two passwords without semicolons are hidden. -/
theorem reports_alike_iff_of_sample :
    shownOf "secret" = shownOf "hidden" ∧
      ((sampleConfiguration.withPassword "secret").redactedConnectionString =
        (sampleConfiguration.withPassword "hidden").redactedConnectionString) := by
  have hshown : shownOf "secret" = shownOf "hidden" := by decide
  have hreports := (reports_alike_iff (build_sampleConfiguration "secret")
    (build_sampleConfiguration "hidden")).mpr (.inr ⟨not_holdsMark_sampleConfiguration, hshown⟩)
  exact ⟨hshown, hreports.2.2⟩

/-- Of two passwords with semicolons the ends are shown. -/
theorem shown_behind_semicolon :
    ¬ ∀ (config built built' : Configuration) (p q : String),
      (config.withPassword p).build = .ok built → (config.withPassword q).build = .ok built' →
      built.describe = built'.describe ∧
        built.redactedConnectionString = built'.redactedConnectionString ∧
        built.reportedConnection = built'.reportedConnection := by
  intro hall
  obtain ⟨_, _, hreported⟩ := hall sampleConfiguration _ _ "a;secret" "a;hidden"
    (build_sampleConfiguration _) (build_sampleConfiguration _)
  rcases redactedConnectionString_eq_iff.mp hreported with heq | ⟨_, hshown⟩
  · exact absurd heq (by decide)
  · exact absurd hshown (by decide)

end Configuration

end ChangeCapture
