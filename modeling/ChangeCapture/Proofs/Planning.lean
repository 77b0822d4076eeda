import ChangeCapture.Capture.Planner
import ChangeCapture.Proofs.Registry

/-! # The windows of an interval -/

namespace ChangeCapture

theorem SourceWindow.owns_iff {window : SourceWindow} {lsn : Lsn} :
    window.owns lsn ↔ ∀ cutoff, window.until? = some cutoff → lsn < cutoff := by
  unfold owns
  cases window.until? <;> simp

namespace Planner

open List CaptureStep
open Program (Ends)

variable {rules : Rules} {sources : List CaptureInstance} {first last : Lsn}
  {source : CaptureInstance} {w w' : World}

/-! ## Windows and what they are for -/

/-- A window of an interval. -/
structure IsWindow (sources : List CaptureInstance) (first last : Lsn) (window : SourceWindow) :
    Prop where
  mem : window.source ∈ sources
  lower : max window.source.startLsn first ≤ window.first
  last_eq : window.last = last
  live : window.source.stopLsn.isNull ∨ first ≤ window.source.stopLsn
  until_eq : window.until? = supersededAt? window.source sources

/-- An instance owns the changes at a position: it was active there, and no newer one of its table has
taken over. -/
structure Owns (sources : List CaptureInstance) (source : CaptureInstance) (lsn : Lsn) : Prop where
  mem : source ∈ sources
  started : source.startLsn ≤ lsn
  live : source.stopLsn.isNull ∨ lsn ≤ source.stopLsn
  current : ∀ cutoff, supersededAt? source sources = some cutoff → lsn < cutoff

/-- There is a window unless it is empty or begins behind its cutoff. -/
theorem windowFrom_eq_some_iff {lower : Lsn} {window : SourceWindow} :
    windowFrom sources source lower last = some window ↔
      lower ≤ last ∧ (∀ cutoff, supersededAt? source sources = some cutoff → lower < cutoff) ∧
        window = { source, first := lower, last, until? := supersededAt? source sources } := by
  unfold windowFrom
  by_cases hlast : lower ≤ last
  · rw [if_neg (not_lt.mpr hlast)]
    cases supersededAt? source sources <;> simp [hlast, eq_comm]
  · simp [hlast, not_le.mp hlast]

theorem windowFrom_eq_some {lower : Lsn} {window : SourceWindow}
    (h : windowFrom sources source lower last = some window) :
    window = { source, first := lower, last, until? := supersededAt? source sources } :=
  (windowFrom_eq_some_iff.mp h).2.2

/-- There is a window for what an instance owns. -/
theorem windowFrom_of_owns {lower lsn : Lsn} (h : Owns sources source lsn) (hlower : lower ≤ lsn)
    (hlast : lsn ≤ last) :
    windowFrom sources source lower last =
      some { source, first := lower, last, until? := supersededAt? source sources } :=
  windowFrom_eq_some_iff.mpr
    ⟨hlower.trans hlast, fun cutoff hcut => lt_of_le_of_lt hlower (h.current cutoff hcut), rfl⟩

/-! ## The window of an instance -/

/-- How the window of an instance is found. -/
inductive Windowed (rules : Rules) (sources : List CaptureInstance) (first last : Lsn)
    (source : CaptureInstance) (w w' : World) : Option SourceWindow → Prop where
  | stopped (hstop : ¬ source.stopLsn.isNull) (hlt : source.stopLsn < first) :
      Windowed rules sources first last source w w' none
  | bounded (hlive : source.stopLsn.isNull ∨ first ≤ source.stopLsn) :
      Windowed rules sources first last source w w'
        (windowFrom sources source (max source.startLsn first) last)
  | asked {lowest : Lsn} (hlive : source.stopLsn.isNull ∨ first ≤ source.stopLsn)
      (hnull : (max source.startLsn first).isNull)
      (hask : rules.answers w (.server (.minLsn source.name))
        (Except.ok lowest : Except CaptureError Lsn) w') :
      Windowed rules sources first last source w w'
        (if lowest.isNull then none else windowFrom sources source lowest last)

theorem ends_windowOf {window : Option SourceWindow}
    (h : Ends rules.answers (windowOf sources first last source).run w (.ok window) w') :
    Windowed rules sources first last source w w' window := by
  unfold windowOf at h
  split at h
  · rename_i hstopped
    obtain ⟨hstop, hlt⟩ : source.stopLsn.isNull = false ∧ source.stopLsn < first := by
      simpa using hstopped
    rw [Except.ok.inj (ends_pure.mp h).1]
    exact .stopped (by simp [hstop]) hlt
  · rename_i hlive
    have hlive : source.stopLsn.isNull ∨ first ≤ source.stopLsn := by
      cases hnull : source.stopLsn.isNull with
      | true => exact .inl rfl
      | false => exact .inr (by simpa [hnull] using hlive)
    dsimp only at h
    split at h
    · rename_i hnull
      obtain ⟨lowest, v, hask, h⟩ := ends_bind_ok.mp h
      obtain ⟨hwindow, rfl⟩ := ends_pure.mp h
      rw [Except.ok.inj hwindow]
      exact .asked hlive hnull (ends_request.mp hask)
    · rw [Except.ok.inj (ends_pure.mp h).1]
      exact .bounded hlive

theorem Windowed.isWindow {window : SourceWindow}
    (h : Windowed rules sources first last source w w' (some window)) (hmem : source ∈ sources) :
    window.source = source ∧ IsWindow sources first last window := by
  generalize hfound : some window = found at h
  cases h with
  | stopped => cases hfound
  | bounded hlive =>
      rw [windowFrom_eq_some hfound.symm]
      exact ⟨rfl, hmem, le_rfl, rfl, hlive, rfl⟩
  | @asked lowest hlive hnull hask =>
      split at hfound
      · cases hfound
      · rw [windowFrom_eq_some hfound.symm]
        refine ⟨rfl, hmem, ?_, rfl, hlive, rfl⟩
        dsimp only
        rw [Position.isNull_iff.mp hnull]
        exact Position.null_le _

/-- The rows that an instance owns lie in its window. -/
theorem Windowed.exists_window (hrules : rules.Lawful) {found : Option SourceWindow}
    (h : Windowed rules sources first last source w w' found) {row : ChangeRow}
    (hrow : row ∈ w.server.changes source.name) (hreported : row.startLsn ≤ w.server.reported)
    (howns : Owns sources source row.startLsn) (hfirst : first ≤ row.startLsn)
    (hlast : row.startLsn ≤ last) :
    ∃ window, found = some window ∧ window.source = source ∧ window.first ≤ row.startLsn ∧
      window.owns row.startLsn := by
  have hwindow (lower : Lsn) (hlower : lower ≤ row.startLsn) :
      ∃ window, windowFrom sources source lower last = some window ∧ window.source = source ∧
        window.first ≤ row.startLsn ∧ window.owns row.startLsn :=
    ⟨_, windowFrom_of_owns howns hlower hlast, rfl, hlower, SourceWindow.owns_iff.mpr howns.current⟩
  cases h with
  | stopped hstop hlt =>
      rcases howns.live with hnull | hle
      · exact absurd hnull hstop
      · exact absurd (hfirst.trans hle) (not_le.mpr hlt)
  | bounded => exact hwindow _ (max_le howns.started hfirst)
  | @asked lowest _ _ hask =>
      obtain ⟨server, hdrift, hserves, _⟩ := hask
      have hmem := ((hrules.drifts hdrift).same _ row hreported).mpr hrow
      obtain ⟨hnull, hle⟩ := hrules.serves hserves lowest rfl row hmem
      rw [if_neg (by simpa using hnull)]
      exact hwindow lowest hle

theorem quiet_windowOf : (windowOf sources first last source).IsQuiet := by
  unfold windowOf
  split
  · exact quiet_pure _
  · dsimp only
    split
    · exact quiet_bind (x := Server.minLsn source.name) (quiet_server _) fun _ => quiet_pure _
    · exact quiet_pure _

/-! ## All windows -/

theorem ends_windowsOf {list : List CaptureInstance} (hlist : list ⊆ sources)
    {windows : List SourceWindow}
    (h : Ends rules.answers (windowsOf sources first last list).run w (.ok windows) w') :
    windows.map SourceWindow.source <+ list ∧
      ∀ window ∈ windows, IsWindow sources first last window := by
  induction list generalizing windows w with
  | nil =>
      cases Except.ok.inj (ends_pure.mp h).1
      simp
  | cons source list ih =>
      obtain ⟨hmem, hlist⟩ := cons_subset.mp hlist
      obtain ⟨found, v, hfound, h⟩ := ends_bind_ok.mp h
      obtain ⟨rest, v', hrest, h⟩ := ends_bind_ok.mp h
      obtain ⟨hwindows, rfl⟩ := ends_pure.mp h
      obtain ⟨hsublist, hall⟩ := ih hlist hrest
      cases Except.ok.inj hwindows
      cases found with
      | none => exact ⟨hsublist.cons _, hall⟩
      | some window =>
          obtain ⟨hsource, hwindow⟩ := (ends_windowOf hfound).isWindow hmem
          refine ⟨?_, forall_mem_cons.mpr ⟨hwindow, hall⟩⟩
          simpa [hsource] using hsublist

/-- The window of an instance is found after those of the instances before it. -/
theorem windowed_of_ends_windowsOf {list : List CaptureInstance} {windows : List SourceWindow}
    (hmem : source ∈ list)
    (h : Ends rules.answers (windowsOf sources first last list).run w (.ok windows) w') :
    ∃ earlier others found v v',
      Ends rules.answers (windowsOf sources first last earlier).run w (.ok others) v ∧
        Windowed rules sources first last source v v' found ∧ ∀ window ∈ found, window ∈ windows := by
  induction list generalizing windows w with
  | nil => cases hmem
  | cons head list ih =>
      obtain ⟨found, v, hfound, h⟩ := ends_bind_ok.mp h
      obtain ⟨rest, v', hrest, h⟩ := ends_bind_ok.mp h
      obtain ⟨hwindows, rfl⟩ := ends_pure.mp h
      cases Except.ok.inj hwindows
      rcases mem_cons.mp hmem with rfl | hmem
      · exact ⟨[], [], found, w, v, .refl _ _, ends_windowOf hfound, fun window hwindow =>
          mem_append_left _ (Option.mem_toList.mpr hwindow)⟩
      · obtain ⟨earlier, others, found', u, u', hearlier, hfound', hkept⟩ := ih hmem hrest
        refine ⟨head :: earlier, found.toList ++ others, found', u, u', ?_, hfound',
          fun window hwindow => mem_append_right _ (hkept window hwindow)⟩
        exact ends_bind_ok.mpr ⟨found, v, hfound, ends_bind_ok.mpr
          ⟨others, u, hearlier, ends_pure.mpr ⟨rfl, rfl⟩⟩⟩

theorem exists_window_of_ends_windowsOf (hrules : rules.Lawful) {list : List CaptureInstance}
    {windows : List SourceWindow}
    (h : Ends rules.answers (windowsOf sources first last list).run w (.ok windows) w')
    {row : ChangeRow} (hmem : source ∈ list) (hrow : row ∈ w.server.changes source.name)
    (hreported : row.startLsn ≤ w.server.reported) (howns : Owns sources source row.startLsn)
    (hfirst : first ≤ row.startLsn) (hlast : row.startLsn ≤ last) :
    ∃ window ∈ windows, window.source = source ∧ window.first ≤ row.startLsn ∧
      window.owns row.startLsn := by
  obtain ⟨earlier, others, found, v, v', hearlier, hfound, hkept⟩ := windowed_of_ends_windowsOf hmem h
  have hextends := hrules.extends_of_leads hearlier
  obtain ⟨window, rfl, hwindow⟩ := hfound.exists_window hrules
    ((hextends.same _ row hreported).mpr hrow) (hreported.trans hextends.reported) howns hfirst hlast
  exact ⟨window, hkept window rfl, hwindow⟩

theorem quiet_windowsOf {list : List CaptureInstance} :
    (windowsOf sources first last list).IsQuiet := by
  induction list with
  | nil => exact quiet_pure _
  | cons source list ih =>
      exact quiet_bind quiet_windowOf fun _ => quiet_bind ih fun _ => quiet_pure _

theorem ends_plan {windows : List SourceWindow}
    (h : Ends rules.answers (plan sources first last).run w (.ok windows) w') :
    ∃ found, Ends rules.answers (windowsOf sources first last sources).run w (.ok found) w' ∧
      windows ~ found := by
  obtain ⟨found, v, hfound, h⟩ := ends_bind_ok.mp h
  obtain ⟨hwindows, rfl⟩ := ends_pure.mp h
  refine ⟨found, hfound, ?_⟩
  rw [Except.ok.inj hwindows]
  exact mergeSort_perm _ _

theorem quiet_plan : (plan sources first last).IsQuiet :=
  quiet_bind quiet_windowsOf fun _ => quiet_pure _

theorem isWindow_of_ends_plan {windows : List SourceWindow}
    (h : Ends rules.answers (plan sources first last).run w (.ok windows) w') :
    ∀ window ∈ windows, IsWindow sources first last window := by
  obtain ⟨found, hfound, hperm⟩ := ends_plan h
  exact fun window hwindow => (ends_windowsOf (Subset.refl _) hfound).2 window
    (hperm.mem_iff.mp hwindow)

/-- Plain instances of different names have windows of different labels. -/
theorem nodup_labels_of_ends_plan (hplain : ∀ ci ∈ sources, ci.IsPlain)
    (hnames : (sources.map CaptureInstance.name).Nodup) {windows : List SourceWindow}
    (h : Ends rules.answers (plan sources first last).run w (.ok windows) w') :
    (windows.map SourceWindow.label).Nodup := by
  obtain ⟨found, hfound, hperm⟩ := ends_plan h
  have hsublist := (ends_windowsOf (Subset.refl _) hfound).1
  have hfound : (found.map SourceWindow.source).Nodup := hsublist.nodup (Nodup.of_map _ hnames)
  have hlabels : ((found.map SourceWindow.source).map CaptureInstance.label).Nodup := by
    refine Nodup.map_on (fun ci hi cj hj heq => ?_) hfound
    replace hi := hsublist.subset hi
    replace hj := hsublist.subset hj
    exact inj_on_of_nodup_map hnames hi hj
      (CaptureInstance.name_eq_of_label (hplain ci hi) (hplain cj hj) heq)
  rw [map_map] at hlabels
  exact (hperm.map SourceWindow.label).nodup_iff.mpr hlabels

theorem exists_window_of_ends_plan (hrules : rules.Lawful) {windows : List SourceWindow}
    (h : Ends rules.answers (plan sources first last).run w (.ok windows) w') {row : ChangeRow}
    (hrow : row ∈ w.server.changes source.name) (hreported : row.startLsn ≤ w.server.reported)
    (howns : Owns sources source row.startLsn) (hfirst : first ≤ row.startLsn)
    (hlast : row.startLsn ≤ last) :
    ∃ window ∈ windows, window.source = source ∧ window.first ≤ row.startLsn ∧
      window.owns row.startLsn := by
  obtain ⟨found, hfound, hperm⟩ := ends_plan h
  obtain ⟨window, hmem, hwindow⟩ := exists_window_of_ends_windowsOf hrules hfound howns.mem hrow
    hreported howns hfirst hlast
  exact ⟨window, hperm.mem_iff.mpr hmem, hwindow⟩

end Planner

end ChangeCapture
