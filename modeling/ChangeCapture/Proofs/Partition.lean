import ChangeCapture.Proofs.Planning
import Mathlib.Data.List.MinMax

/-! # How windows divide the log

A position belongs to the newest instance of a table that started at or before it. The windows of active
instances divide an interval, so that each position lies in exactly one window of a table. A retired
instance keeps what lies behind its start from the older ones all the same. -/

namespace ChangeCapture

open List
open Std (TransCmp TransOrd LawfulEqOrd OrientedCmp)

/-! ## Ranges -/

/-- The instance recorded the changes at a position. -/
structure CaptureInstance.Valid (ci : CaptureInstance) (lsn : Lsn) : Prop where
  known : ¬ ci.startLsn.isNull
  started : ci.startLsn ≤ lsn
  live : ci.stopLsn.isNull ∨ lsn ≤ ci.stopLsn

namespace SourceWindow

/-- The changes at a position are read from the window. -/
def includes (window : SourceWindow) (lsn : Lsn) : Bool :=
  lsn.inRange window.first window.last && window.owns lsn

variable {window : SourceWindow} {lsn : Lsn}

theorem includes_iff :
    window.includes lsn ↔ window.first ≤ lsn ∧ lsn ≤ window.last ∧ window.owns lsn := by
  simp [includes, Position.inRange, and_assoc]

end SourceWindow

namespace Planner

open SourceWindow (owns_iff includes_iff)
open Program (Ends)

variable {sources sources' : List CaptureInstance} {source other : CaptureInstance} {table : TableId}
  {first last lower lsn cutoff : Lsn} {window : SourceWindow}

/-! ## The next newer instance -/

theorem supersedes_iff :
    supersedes other source ↔ other.table = source.table ∧ other.name ≠ source.name ∧
      ¬ other.startLsn.isNull ∧ source.startLsn < other.startLsn := by
  simp [supersedes]

theorem supersededAt?_eq_some :
    supersededAt? source sources = some cutoff ↔
      (∃ other ∈ sources, supersedes other source ∧ other.startLsn = cutoff) ∧
        ∀ other ∈ sources, supersedes other source → cutoff ≤ other.startLsn := by
  rw [supersededAt?, min?_eq_some_iff, forall_mem_map]
  simp [and_assoc]

theorem exists_supersededAt? (hmem : other ∈ sources) (h : supersedes other source) :
    ∃ cutoff, supersededAt? source sources = some cutoff ∧ cutoff ≤ other.startLsn := by
  cases hcut : supersededAt? source sources with
  | none =>
      rw [supersededAt?, min?_eq_none_iff, map_eq_nil_iff] at hcut
      exact absurd (mem_filter.mpr ⟨hmem, h⟩) (hcut ▸ not_mem_nil)
  | some cutoff => exact ⟨cutoff, rfl, (supersededAt?_eq_some.mp hcut).2 other hmem h⟩

theorem supersededAt?_perm (h : sources' ~ sources) :
    supersededAt? source sources' = supersededAt? source sources := by
  ext cutoff
  rw [supersededAt?_eq_some, supersededAt?_eq_some]
  simp only [h.mem_iff]

/-! ## The newest instance -/

/-- Of the instances of a table that started at or before a position, none started later. -/
structure Newest (sources : List CaptureInstance) (table : TableId) (lsn : Lsn)
    (source : CaptureInstance) : Prop where
  mem : source ∈ sources
  table_eq : source.table = table
  started : source.startLsn ≤ lsn
  le : ∀ other ∈ sources, other.table = table → other.startLsn ≤ lsn →
    other.startLsn ≤ source.startLsn

theorem exists_newest (h : ∃ ci ∈ sources, ci.table = table ∧ ci.startLsn ≤ lsn) :
    ∃ source, Newest sources table lsn source := by
  obtain ⟨ci, hmem, htable, hstarted⟩ := h
  let started := sources.filter fun ci => ci.table = table ∧ ci.startLsn ≤ lsn
  have hstarted : ci ∈ started := mem_filter.mpr ⟨hmem, by simp [htable, hstarted]⟩
  cases hmax : started.argmax CaptureInstance.startLsn with
  | none => exact absurd hstarted (argmax_eq_none.mp hmax ▸ not_mem_nil)
  | some source =>
      obtain ⟨hsource, hbefore⟩ := mem_filter.mp (argmax_mem hmax)
      obtain ⟨htable, hle⟩ : source.table = table ∧ source.startLsn ≤ lsn := by simpa using hbefore
      refine ⟨source, hsource, htable, hle, fun other hother htable hle => ?_⟩
      exact le_of_mem_argmax (mem_filter.mpr ⟨hother, by simp [htable, hle]⟩) hmax

/-- An instance is the newest up to where the next newer one takes over. -/
theorem newest_iff (hnames : (sources.map CaptureInstance.name).Nodup) (hmem : source ∈ sources)
    (hstarted : source.startLsn ≤ lsn) :
    Newest sources source.table lsn source ↔
      ∀ cutoff, supersededAt? source sources = some cutoff → lsn < cutoff := by
  constructor
  · intro h cutoff hcut
    obtain ⟨⟨other, hother, hsupersedes, rfl⟩, _⟩ := supersededAt?_eq_some.mp hcut
    obtain ⟨htable, _, _, hlater⟩ := supersedes_iff.mp hsupersedes
    exact not_le.mp fun hle => absurd (h.le other hother htable hle) (not_le.mpr hlater)
  · intro h
    refine ⟨hmem, rfl, hstarted, fun other hother htable hle => not_lt.mp fun hlater => ?_⟩
    have hname : other.name ≠ source.name := by
      intro hname
      rw [inj_on_of_nodup_map hnames hother hmem hname] at hlater
      exact lt_irrefl _ hlater
    have hknown : ¬ other.startLsn.isNull := by
      intro hnull
      rw [Position.isNull_iff.mp hnull] at hlater
      exact absurd hlater (not_lt.mpr (Position.null_le _))
    obtain ⟨cutoff, hcut, hcutoff⟩ :=
      exists_supersededAt? hother (supersedes_iff.mpr ⟨htable, hname, hknown, hlater⟩)
    exact absurd (h cutoff hcut) (not_lt.mpr (hcutoff.trans hle))

theorem Newest.owns (h : Newest sources table lsn source)
    (hnames : (sources.map CaptureInstance.name).Nodup)
    (hlive : source.stopLsn.isNull ∨ lsn ≤ source.stopLsn) : Owns sources source lsn := by
  refine ⟨h.mem, h.started, hlive, (newest_iff hnames h.mem h.started).mp ?_⟩
  rw [h.table_eq]
  exact h

/-- What is read from a window belongs to its instance. -/
theorem IsWindow.newest (h : IsWindow sources first last window)
    (hnames : (sources.map CaptureInstance.name).Nodup) (hincludes : window.includes lsn) :
    Newest sources window.source.table lsn window.source := by
  obtain ⟨hfirst, _, howns⟩ := includes_iff.mp hincludes
  have hstarted : window.source.startLsn ≤ lsn :=
    (le_max_left _ _).trans (h.lower.trans hfirst)
  refine (newest_iff hnames h.mem hstarted).mpr fun cutoff hcut => ?_
  exact owns_iff.mp howns cutoff (h.until_eq.trans hcut)

/-- What an instance owns is read from its window. -/
theorem exists_windowFrom (h : Owns sources source lsn) (hlower : lower ≤ lsn) (hlast : lsn ≤ last) :
    ∃ window, windowFrom sources source lower last = some window ∧ window.source = source ∧
      window.includes lsn :=
  ⟨_, windowFrom_of_owns h hlower hlast, rfl, includes_iff.mpr ⟨hlower, hlast, owns_iff.mpr h.current⟩⟩

/-! ## Active instances -/

/-- All instances are active, and those of a table start at different positions. -/
structure Active (sources : List CaptureInstance) : Prop where
  names : (sources.map CaptureInstance.name).Nodup
  live : ∀ ci ∈ sources, ci.stopLsn.isNull
  known : ∀ ci ∈ sources, ¬ ci.startLsn.isNull
  starts : ∀ ci ∈ sources, ∀ cj ∈ sources, ci.table = cj.table → ci.startLsn = cj.startLsn → ci = cj

/-- The window has something to read in the interval, behind the start of its instance and before its
cutoff. -/
structure Fits (first last : Lsn) (window : SourceWindow) : Prop where
  known : ¬ window.first.isNull
  first_le : first ≤ window.first
  nonempty : window.first ≤ window.last
  last_eq : window.last = last
  started : window.source.startLsn ≤ window.first
  current : ∀ cutoff, window.until? = some cutoff → window.first < cutoff

/-- The windows of active instances. -/
def windowsIn (sources : List CaptureInstance) (first last : Lsn) : List SourceWindow :=
  sources.filterMap fun source => windowFrom sources source (max source.startLsn first) last

theorem mem_windowsIn :
    window ∈ windowsIn sources first last ↔ ∃ source ∈ sources,
      windowFrom sources source (max source.startLsn first) last = some window := mem_filterMap

theorem not_isNull_max (h : ¬ source.startLsn.isNull) : ¬ (max source.startLsn first).isNull := by
  intro hnull
  have hle : source.startLsn ≤ .null := Position.isNull_iff.mp hnull ▸ le_max_left _ first
  exact h (Position.isNull_iff.mpr (le_antisymm hle (Position.null_le _)))

/-- The server is not asked where an active instance starts. -/
theorem windowsOf_of_active (list : List CaptureInstance) (hlive : ∀ ci ∈ list, ci.stopLsn.isNull)
    (hknown : ∀ ci ∈ list, ¬ ci.startLsn.isNull) :
    windowsOf sources first last list = pure (list.filterMap fun source =>
      windowFrom sources source (max source.startLsn first) last) := by
  induction list with
  | nil => rfl
  | cons source list ih =>
      obtain ⟨hsource, hlive⟩ := forall_mem_cons.mp hlive
      obtain ⟨hstart, hknown⟩ := forall_mem_cons.mp hknown
      have hwindow : windowOf sources first last source =
          pure (windowFrom sources source (max source.startLsn first) last) := by
        simp [windowOf, hsource, not_isNull_max hstart]
      rw [windowsOf, hwindow, ih hlive hknown, pure_bind, pure_bind, filterMap_cons]
      cases windowFrom sources source (max source.startLsn first) last <;> rfl

theorem plan_of_active (h : Active sources) :
    plan sources first last = pure ((windowsIn sources first last).mergeSort windowLE) := by
  rw [plan, windowsOf_of_active sources h.live h.known, pure_bind]
  rfl

namespace Active

theorem isWindow (h : Active sources) (hwindow : window ∈ windowsIn sources first last) :
    IsWindow sources first last window := by
  obtain ⟨source, hsource, hfrom⟩ := mem_windowsIn.mp hwindow
  rw [windowFrom_eq_some hfrom]
  exact ⟨hsource, le_rfl, rfl, .inl (h.live source hsource), rfl⟩

theorem fits (h : Active sources) (hwindow : window ∈ windowsIn sources first last) :
    Fits first last window := by
  obtain ⟨source, hsource, hfrom⟩ := mem_windowsIn.mp hwindow
  obtain ⟨hlast, hcurrent, rfl⟩ := windowFrom_eq_some_iff.mp hfrom
  exact ⟨not_isNull_max (h.known source hsource), le_max_right _ _, hlast, rfl, le_max_left _ _,
    hcurrent⟩

/-- Windows of one instance are the same. -/
theorem eq_of_source_eq {window' : SourceWindow} (hwindow : window ∈ windowsIn sources first last)
    (hwindow' : window' ∈ windowsIn sources first last) (h : window.source = window'.source) :
    window = window' := by
  obtain ⟨source, _, hfrom⟩ := mem_windowsIn.mp hwindow
  obtain ⟨source', _, hfrom'⟩ := mem_windowsIn.mp hwindow'
  obtain rfl : source = source' := by
    rwa [windowFrom_eq_some hfrom, windowFrom_eq_some hfrom'] at h
  exact Option.some.inj (hfrom.symm.trans hfrom')

theorem nodup_windowsIn (h : Active sources) : (windowsIn sources first last).Nodup := by
  refine Nodup.filterMap (fun source source' window hfrom hfrom' => ?_) (Nodup.of_map _ h.names)
  have hsource : window.source = source := by rw [windowFrom_eq_some hfrom]
  have hsource' : window.source = source' := by rw [windowFrom_eq_some hfrom']
  exact hsource.symm.trans hsource'

/-- Exactly one window includes a position at which an instance of the table had started. -/
theorem exists_filter_eq (h : Active sources) (hfirst : first ≤ lsn) (hlast : lsn ≤ last)
    (hstarted : ∃ ci ∈ sources, ci.table = table ∧ ci.startLsn ≤ lsn) {windows : List SourceWindow}
    (hwindows : windows ~ windowsIn sources first last) :
    ∃ window, windows.filter (fun w => w.source.table = table ∧ w.includes lsn) = [window] ∧
      Newest sources table lsn window.source := by
  obtain ⟨source, hnewest⟩ := exists_newest hstarted
  obtain ⟨window, hfrom, rfl, hincludes⟩ :=
    exists_windowFrom (hnewest.owns h.names (.inl (h.live source hnewest.mem)))
      (max_le hnewest.started hfirst) hlast
  have hmem : window ∈ windowsIn sources first last := mem_windowsIn.mpr ⟨_, hnewest.mem, hfrom⟩
  refine ⟨window, perm_singleton.mp ?_, hnewest⟩
  have hnodup : windows.Nodup := hwindows.nodup_iff.mpr h.nodup_windowsIn
  refine (perm_ext_iff_of_nodup (hnodup.filter _) (nodup_singleton _)).mpr fun w => ?_
  rw [mem_filter, mem_singleton, hwindows.mem_iff, decide_eq_true_iff]
  constructor
  · rintro ⟨hw, htable, hw'⟩
    have hnewest' := (h.isWindow hw).newest h.names hw'
    rw [htable] at hnewest'
    have hstart : w.source.startLsn = window.source.startLsn :=
      le_antisymm (hnewest.le _ hnewest'.mem htable hnewest'.started)
        (hnewest'.le _ hnewest.mem hnewest.table_eq hnewest.started)
    exact eq_of_source_eq hw hmem (h.starts _ hnewest'.mem _ hnewest.mem
      (htable.trans hnewest.table_eq.symm) hstart)
  · rintro rfl
    exact ⟨hmem, hnewest.table_eq, hincludes⟩

end Active

/-! ## The order of the instances -/

/-- Windows go by table and then by the name of their instance. -/
def compareWindows (v w : SourceWindow) : Ordering :=
  (compare v.source.table w.source.table).then (compare v.source.name w.source.name)

instance : TransCmp compareWindows :=
  inferInstanceAs (TransCmp (compareLex (compareOn fun w : SourceWindow => w.source.table)
    (compareOn fun w => w.source.name)))

theorem windowLE_iff {v w : SourceWindow} : windowLE v w ↔ (compareWindows v w).isLE := Iff.rfl

theorem pairwise_mergeSort_windowLE (windows : List SourceWindow) :
    (windows.mergeSort windowLE).Pairwise fun v w => windowLE v w := by
  refine pairwise_mergeSort (fun u v w huv hvw => ?_) (fun v w => ?_) windows
  · exact windowLE_iff.mpr (TransCmp.isLE_trans (windowLE_iff.mp huv) (windowLE_iff.mp hvw))
  · have hswap : compareWindows w v = (compareWindows v w).swap := OrientedCmp.eq_swap
    rw [Bool.or_eq_true, windowLE_iff, windowLE_iff, hswap]
    cases compareWindows v w <;> simp

theorem windowsIn_perm (h : sources' ~ sources) :
    windowsIn sources' first last ~ windowsIn sources first last := by
  have hfrom : (fun source => windowFrom sources' source (max source.startLsn first) last) =
      fun source => windowFrom sources source (max source.startLsn first) last := by
    funext source
    rw [windowFrom, windowFrom, supersededAt?_perm h]
  rw [windowsIn, hfrom]
  exact h.filterMap _

namespace Active

theorem perm (h : Active sources) (hperm : sources' ~ sources) : Active sources' where
  names := (hperm.map _).nodup_iff.mpr h.names
  live ci hci := h.live ci (hperm.mem_iff.mp hci)
  known ci hci := h.known ci (hperm.mem_iff.mp hci)
  starts ci hci cj hcj := h.starts ci (hperm.mem_iff.mp hci) cj (hperm.mem_iff.mp hcj)

theorem sorted_eq (h : Active sources) (hperm : sources' ~ sources) :
    (windowsIn sources' first last).mergeSort windowLE =
      (windowsIn sources first last).mergeSort windowLE := by
  have hwindows : windowsIn sources' first last ~ windowsIn sources first last := windowsIn_perm hperm
  refine Perm.eq_of_pairwise (fun v w hv hw hvw hwv => ?_) (pairwise_mergeSort_windowLE _)
    (pairwise_mergeSort_windowLE _)
    ((mergeSort_perm _ _).trans (hwindows.trans (mergeSort_perm _ _).symm))
  rw [mem_mergeSort, hwindows.mem_iff] at hv
  rw [mem_mergeSort] at hw
  have heq : compareWindows v w = .eq := OrientedCmp.isLE_antisymm hvw hwv
  have hname := LawfulEqOrd.eq_of_compare (Ordering.then_eq_eq.mp heq).2
  exact eq_of_source_eq hv hw
    (inj_on_of_nodup_map h.names (h.isWindow hv).mem (h.isWindow hw).mem hname)

end Active

/-- The windows of active instances are found without asking the server, whatever the order of the
instances, and lie in the interval. If an instance of a table had started at or before a position of the
interval, exactly one window of the table includes that position, and it is that of the newest such
instance; otherwise none does. -/
theorem plan_divides (h : Active sources) :
    ∃ windows, plan sources first last = pure windows ∧
      (∀ window ∈ windows, window.source ∈ sources ∧ Fits first last window) ∧
      (∀ table lsn, first ≤ lsn → lsn ≤ last →
        ((∃ ci ∈ sources, ci.table = table ∧ ci.startLsn ≤ lsn) →
          ∃ window, windows.filter (fun w => w.source.table = table ∧ w.includes lsn) = [window] ∧
            Newest sources table lsn window.source) ∧
        ((¬ ∃ ci ∈ sources, ci.table = table ∧ ci.startLsn ≤ lsn) →
          ∀ window ∈ windows, window.source.table = table →
            ¬ (window.first ≤ lsn ∧ window.owns lsn))) ∧
      ∀ sources', sources' ~ sources → plan sources' first last = pure windows := by
  refine ⟨_, plan_of_active h, fun window hwindow => ?_, fun table lsn hfirst hlast => ⟨?_, ?_⟩,
    fun sources' hperm => ?_⟩
  · rw [mem_mergeSort] at hwindow
    exact ⟨(h.isWindow hwindow).mem, h.fits hwindow⟩
  · exact fun hstarted => h.exists_filter_eq hfirst hlast hstarted (mergeSort_perm _ _)
  · intro hnone window hwindow htable ⟨hbefore, _⟩
    rw [mem_mergeSort] at hwindow
    exact hnone ⟨window.source, (h.isWindow hwindow).mem, htable,
      (h.fits hwindow).started.trans hbefore⟩
  · rw [plan_of_active (h.perm hperm), h.sorted_eq hperm]

namespace SamplePlan

/-- An instance of one table. -/
def instanceOf (name : String) (start stop : Lsn) : CaptureInstance :=
  { table := { database := "shop", schema := "dbo", table := "orders" }, name, objectId := 0
    startLsn := start, stopLsn := stop, capturedColumns := ["id"] }

def older : CaptureInstance := instanceOf "orders_v1" (.ofNat 10) .null

def newer : CaptureInstance := instanceOf "orders_v2" (.ofNat 20) .null

end SamplePlan

open SamplePlan in
/-- Before the newer instance starts, a position is in the window of the older one. -/
theorem plan_divides_of_sample :
    ∃ windows, plan [newer, older] (.ofNat 12) (.ofNat 30) = pure windows ∧
      ∃ window, windows.filter (fun w => w.source.table = older.table ∧ w.includes (.ofNat 15)) =
          [window] ∧ Newest [newer, older] older.table (.ofNat 15) window.source := by
  have hactive : Active [newer, older] := ⟨by decide, by decide, by decide, by decide⟩
  obtain ⟨windows, hplan, _, hdivides, _⟩ :=
    @plan_divides [newer, older] (.ofNat 12) (.ofNat 30) hactive
  refine ⟨windows, hplan, (hdivides older.table (.ofNat 15) (by decide) (by decide)).1 ?_⟩
  exact ⟨older, by decide, rfl, by decide⟩

/-! ## Retired instances -/

theorem Windowed.eq_windowFrom {rules : Rules} {w w' : World} {found : Option SourceWindow}
    (h : Windowed rules sources first last source w w' found) (hvalid : source.Valid lsn)
    (hfirst : first ≤ lsn) :
    found = windowFrom sources source (max source.startLsn first) last := by
  cases h with
  | stopped hstop hlt =>
      rcases hvalid.live with hnull | hle
      · exact absurd hnull hstop
      · exact absurd (hfirst.trans hle) (not_le.mpr hlt)
  | bounded => rfl
  | asked _ hnull => exact absurd hnull (not_isNull_max hvalid.known)

/-- A window of the table includes the position, and its instance recorded the changes there. -/
def Covered (windows : List SourceWindow) (table : TableId) (lsn : Lsn) : Prop :=
  ∃ window ∈ windows, window.source.table = table ∧ window.includes lsn ∧ window.source.Valid lsn

/-- Whatever instances are retired, the changes of a table at a position are read exactly if the newest
instance that started at or before it, or one of those that started together with that, still recorded
them. -/
theorem covered_iff_newest_valid {rules : Rules} {w w' : World} {windows : List SourceWindow}
    (hnames : (sources.map CaptureInstance.name).Nodup)
    (h : Ends rules.answers (plan sources first last).run w (.ok windows) w')
    (hfirst : first ≤ lsn) (hlast : lsn ≤ last) :
    Covered windows table lsn ↔ ∃ source, Newest sources table lsn source ∧ source.Valid lsn := by
  constructor
  · rintro ⟨window, hwindow, htable, hincludes, hvalid⟩
    have hnewest := (isWindow_of_ends_plan h window hwindow).newest hnames hincludes
    exact ⟨window.source, htable ▸ hnewest, hvalid⟩
  · rintro ⟨source, hnewest, hvalid⟩
    obtain ⟨list, hlist, hperm⟩ := ends_plan h
    obtain ⟨_, _, found, v, v', _, hfound, hkept⟩ := windowed_of_ends_windowsOf hnewest.mem hlist
    obtain ⟨window, hfrom, rfl, hincludes⟩ :=
      exists_windowFrom (hnewest.owns hnames hvalid.live) (max_le hnewest.started hfirst) hlast
    have hwindow : window ∈ list := hkept window ((hfound.eq_windowFrom hvalid hfirst).trans hfrom)
    exact ⟨window, hperm.mem_iff.mpr hwindow, hnewest.table_eq, hincludes, hvalid⟩

namespace SamplePlan

/-- A newer instance that was retired before the older one. -/
def retired : CaptureInstance := instanceOf "orders_v2" (.ofNat 20) (.ofNat 25)

/-- No change has been captured. -/
def emptyWorld : World :=
  { server := { listing := [], changes := fun _ => [], reported := .null, ordered := fun _ => .nil } }

end SamplePlan

open SamplePlan in
/-- While the newer instance recorded changes, they are read from it. -/
theorem covered_iff_newest_valid_of_sample :
    ∃ windows, Ends Rules.lawless.answers (plan [older, retired] (.ofNat 15) (.ofNat 40)).run
        emptyWorld (.ok windows) emptyWorld ∧
      Covered windows older.table (.ofNat 22) := by
  obtain ⟨windows, hplan⟩ :
      ∃ windows, plan [older, retired] (.ofNat 15) (.ofNat 40) = pure windows := ⟨_, rfl⟩
  have hends : Ends Rules.lawless.answers (plan [older, retired] (.ofNat 15) (.ofNat 40)).run
      emptyWorld (.ok windows) emptyWorld := hplan ▸ .refl _ _
  refine ⟨windows, hends, (covered_iff_newest_valid (by decide) hends (by decide) (by decide)).mpr ?_⟩
  exact ⟨retired, ⟨by decide, rfl, by decide, by decide⟩, by decide, by decide, by decide⟩

open SamplePlan in
/-- An instance that was retired keeps the older one from being read where nothing else is. -/
theorem lost_behind_retired :
    ¬ ∀ (sources : List CaptureInstance) (first last : Lsn) (windows : List SourceWindow)
        (table : TableId) (lsn : Lsn),
      (sources.map CaptureInstance.name).Nodup →
      (∀ ci ∈ sources, ci.stopLsn.isNull ∨ ci.startLsn ≤ ci.stopLsn) →
      plan sources first last = pure windows → first ≤ lsn → lsn ≤ last →
      (∃ ci ∈ sources, ci.table = table ∧ ci.Valid lsn) → Covered windows table lsn := by
  intro h
  have hplan : plan [older, retired] (.ofNat 26) (.ofNat 40) = pure [] := by
    have hwindows : windowsOf [older, retired] (.ofNat 26) (.ofNat 40) [older, retired] = pure [] := rfl
    rw [plan, hwindows, pure_bind, mergeSort_nil]
  have hcovered : Covered [] older.table (.ofNat 30) :=
    h [older, retired] (.ofNat 26) (.ofNat 40) [] older.table (.ofNat 30) (by decide) (by decide)
      hplan (by decide) (by decide) ⟨older, by decide, rfl, by decide, by decide, by decide⟩
  obtain ⟨window, hwindow, _⟩ := hcovered
  exact not_mem_nil hwindow

end Planner

end ChangeCapture
