import ChangeCapture.Proofs.Steps

/-! # The growth of a log

Between two requests rows may be added to the log, but none at a position up to which it was said to be
captured. What lies there is the same at any later time. -/

namespace ChangeCapture

open List

namespace CapturedServer

/-- A later state of a server: the rows up to what was said to be captured are the same. -/
structure Extends (server later : CapturedServer) : Prop where
  listing : later.listing = server.listing
  reported : server.reported ≤ later.reported
  same : ∀ name row, row.startLsn ≤ server.reported →
    (row ∈ later.changes name ↔ row ∈ server.changes name)

namespace Extends

variable {server later last : CapturedServer}

@[refl] theorem refl (server : CapturedServer) : server.Extends server :=
  ⟨rfl, le_rfl, fun _ _ _ => Iff.rfl⟩

theorem trans (h : server.Extends later) (h' : later.Extends last) : server.Extends last :=
  ⟨h'.listing.trans h.listing, h.reported.trans h'.reported, fun name row hrow =>
    (h'.same name row (hrow.trans h.reported)).trans (h.same name row hrow)⟩

end Extends

@[refl] theorem Grows.refl (server : CapturedServer) : server.Grows server :=
  ⟨rfl, rfl, fun _ _ h => h, fun _ _ h => .inl h⟩

theorem Grows.extends {server later : CapturedServer} (h : server.Grows later) :
    server.Extends later := by
  refine ⟨h.listing, h.reported.ge, fun name row hrow => ⟨fun hmem => ?_, h.kept name row⟩⟩
  rcases h.beyond name row hmem with hmem | hlt
  · exact hmem
  · exact absurd hrow (not_le.mpr hlt)

theorem extends_afterAnswer (server : CapturedServer) (r : ServerRequest) (answer : r.Answer) :
    server.Extends (server.afterAnswer r answer) := by
  cases r with
  | maxLsn =>
      cases answer with
      | ok lsn => exact ⟨rfl, le_max_left _ _, fun _ _ _ => Iff.rfl⟩
      | error e => exact .refl server
  | _ => exact .refl server

theorem ascending_windowRows (server : CapturedServer) (window : SourceWindow) :
    (server.windowRows window).Pairwise fun r s => r.compareKeys s = .lt :=
  (server.ordered window.source.name).filter _

theorem mem_windowRows {server : CapturedServer} {window : SourceWindow} {row : ChangeRow} :
    row ∈ server.windowRows window ↔
      row ∈ server.changes window.source.name ∧ window.first ≤ row.startLsn ∧
        row.startLsn ≤ window.last := by
  simp [windowRows, Position.inRange]

/-- The rows of a window that was captured stay the same. -/
theorem Extends.windowRows_eq {server later : CapturedServer} (h : server.Extends later)
    {window : SourceWindow} (hlast : window.last ≤ server.reported) :
    later.windowRows window = server.windowRows window := by
  refine eq_of_ascending (ascending_windowRows _ _) (ascending_windowRows _ _) fun row => ?_
  rw [mem_windowRows, mem_windowRows]
  constructor
  · rintro ⟨hmem, hfirst, hrow⟩
    exact ⟨(h.same _ row (hrow.trans hlast)).mp hmem, hfirst, hrow⟩
  · rintro ⟨hmem, hfirst, hrow⟩
    exact ⟨(h.same _ row (hrow.trans hlast)).mpr hmem, hfirst, hrow⟩

end CapturedServer

/-! ## Lawful rules -/

/-- The server keeps to its documentation, and its log may only grow. -/
structure Rules.Lawful (rules : Rules) : Prop where
  drifts : ∀ {server later}, rules.Drifts server later → server.Extends later
  serves : ∀ {server r answer}, rules.Serves server r answer → server.Documented r answer

theorem Rules.lawful_documented : Rules.documented.Lawful := ⟨fun h => h.extends, fun h => h⟩

theorem Rules.lawful_still : Rules.still.Lawful := ⟨fun h => h ▸ .refl _, fun h => h⟩

theorem Rules.lawful_fixed (columns : TableId → List Column) : (Rules.fixed columns).Lawful :=
  ⟨fun h => h ▸ .refl _, fun h => h.1⟩

theorem World.Responds.extends {w w' : World} {r : CaptureRequest} {answer : r.Answer}
    (h : w.Responds r answer w') : w.server.Extends w'.server := by
  cases r with
  | server r => exact h ▸ CapturedServer.extends_afterAnswer w.server r answer
  | storage request =>
      cases request with
      | loadOffset => exact h.1 ▸ .refl _
      | saveOffset => rcases h with rfl | ⟨rfl, _⟩ <;> exact .refl _
      | readProgress | writeProgress => exact h ▸ .refl _
  | lockTable | now => exact h ▸ .refl _
  | deliver =>
      cases answer with
      | ok => exact h ▸ .refl _
      | error => exact h ▸ .refl _
  | isActive =>
      cases answer with
      | true => exact h ▸ .refl _
      | false => exact h ▸ .refl _

/-- A request leaves the change tables as they are. -/
theorem World.Responds.changes_eq {w w' : World} {r : CaptureRequest} {answer : r.Answer}
    (h : w.Responds r answer w') : w'.server.changes = w.server.changes := by
  cases r with
  | server r =>
      subst h
      cases r with
      | maxLsn => cases answer <;> rfl
      | _ => rfl
  | storage request =>
      cases request with
      | loadOffset => exact h.1 ▸ rfl
      | saveOffset => rcases h with rfl | ⟨rfl, _⟩ <;> rfl
      | readProgress | writeProgress => exact h ▸ rfl
  | lockTable | now => exact h ▸ rfl
  | deliver => cases answer <;> exact h ▸ rfl
  | isActive => cases answer <;> exact h ▸ rfl

/-- No row of a log that grows is lost. -/
theorem Rules.mem_changes_of_leads {α : Type} {p q : CaptureProgram α} {w w' : World}
    (h : Program.Leads Rules.documented.answers p w q w') {name : String} {row : ChangeRow}
    (hrow : row ∈ w.server.changes name) : row ∈ w'.server.changes name := by
  induction h with
  | refl => exact hrow
  | ask h _ ih =>
      obtain ⟨server, hgrows, _, hresponds⟩ := h
      apply ih
      rw [hresponds.changes_eq]
      exact hgrows.kept _ _ hrow

theorem Rules.Lawful.extends {rules : Rules} (hrules : rules.Lawful) {w w' : World}
    {r : CaptureRequest} {answer : r.Answer} (h : rules.answers w r answer w') :
    w.server.Extends w'.server := by
  obtain ⟨server, hdrift, _, h⟩ := h
  exact (hrules.drifts hdrift).trans h.extends

theorem Rules.Lawful.extends_of_leads {rules : Rules} (hrules : rules.Lawful) {α : Type}
    {p q : CaptureProgram α} {w w' : World} (h : Program.Leads rules.answers p w q w') :
    w.server.Extends w'.server := by
  induction h with
  | refl => exact .refl _
  | ask h _ ih => exact (hrules.extends h).trans ih

/-- A later world in which nothing else has happened. -/
structure World.Later (w w' : World) : Prop extends World.Kept w w' where
  server : w.server.Extends w'.server

theorem Rules.Lawful.calm {rules : Rules} (hrules : rules.Lawful) : rules.Calm World.Later where
  refl w := ⟨rules.calm_kept.refl w, .refl _⟩
  trans h h' := ⟨rules.calm_kept.trans h.toKept h'.toKept, h.server.trans h'.server⟩
  drift h := ⟨⟨rfl, rfl⟩, hrules.drifts h⟩
  quiet hr h := ⟨rules.calm_kept.quiet hr h, hrules.extends h⟩

end ChangeCapture
