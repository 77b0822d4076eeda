import ChangeCapture.Proofs.LateInstances
import ChangeCapture.Proofs.Partition
import Mathlib.Data.List.Sort

/-! # Listings that grow

Between two polls capture instances may be added to the listing. What is known lags behind it, but only
by instances that start in the last interval or behind it. Those that start up to the end of the next
interval are found, so that the windows of the interval are those of the whole listing. -/

namespace ChangeCapture

open List
open Program (Ends)

/-! ## What is listed -/

namespace Registry

variable {database : String} {filter : TableFilter} {rows : List ListedInstance}
  {latest : List CaptureInstance} {name : String} {ci : CaptureInstance}

/-- The instance of a row, if the row is valid and its table is captured. -/
def offered? (database : String) (filter : TableFilter) (row : ListedInstance) :
    Option CaptureInstance :=
  match row.toInstance database with
  | .ok ci => if filter.matches ci.table then some ci else none
  | .error _ => none

/-- The instances of captured tables in a listing by name. Of several of one name the last counts. -/
def offered (database : String) (filter : TableFilter) (rows : List ListedInstance) :
    Std.TreeMap String CaptureInstance := byName (rows.filterMap (offered? database filter))

theorem offered_eq (h : instancesOf database filter rows = .ok latest) :
    offered database filter rows = byName latest := by
  suffices hall : rows.filterMap (offered? database filter) = latest by rw [offered, hall]
  induction rows generalizing latest with
  | nil => cases h; rfl
  | cons row rows ih =>
      unfold instancesOf at h
      cases hrow : row.toInstance database with
      | error e =>
          rw [hrow] at h
          cases h
      | ok first =>
          cases hrest : instancesOf database filter rows with
          | error e =>
              rw [hrow, hrest] at h
              cases h
          | ok rest =>
              rw [hrow, hrest] at h
              cases h
              by_cases hmatches : filter.matches first.table
              all_goals simp [offered?, hrow, hmatches, ih hrest]

theorem exists_row_of_offered (h : (offered database filter rows)[name]? = some ci) :
    ∃ row ∈ rows, row.toInstance database = .ok ci := by
  obtain ⟨row, hrow, hci⟩ := mem_filterMap.mp (mem_of_getElem?_byName h)
  unfold offered? at hci
  split at hci
  · split at hci
    · cases hci
      exact ⟨row, hrow, ‹_›⟩
    · cases hci
  · cases hci

/-- A lawful server finds exactly listed instances, and every one that starts in the range. The other
rows of its listing need not be valid. -/
theorem offered_of_ends_listNewSources {rules : Rules} (hrules : rules.Lawful) {w w' : World}
    {first last : Lsn} {found : List CaptureInstance}
    (h : Ends rules.answers (listNewSources database filter first last).run w (.ok found) w')
    (ci : CaptureInstance) :
    (ci ∈ found → (offered database filter w.server.listing)[ci.name]? = some ci) ∧
      ((offered database filter w.server.listing)[ci.name]? = some ci → ¬ ci.startLsn.isNull →
        ci.startLsn.inRange first last → ci ∈ found) := by
  obtain ⟨v, names, hask, hfound⟩ := ends_listNewSources h
  have hextends := hrules.extends hask
  obtain ⟨server, hdrift, hserves, _⟩ := hask
  have hnames := hrules.serves hserves names rfl
  rw [(hrules.drifts hdrift).listing] at hnames
  have hnamed (hci : (offered database filter w.server.listing)[ci.name]? = some ci)
      (hnull : ¬ ci.startLsn.isNull) (hrange : ci.startLsn.inRange first last) :
      ci.name ∈ names := by
    obtain ⟨row, hrow, hinstance⟩ := exists_row_of_offered hci
    obtain ⟨hname, _, hstart⟩ := ListedInstance.of_toInstance hinstance
    exact (hnames ci.name).mpr ⟨row, hrow, hname.symm, _, hstart, by simpa using hnull, hrange⟩
  rcases hfound with ⟨rfl, rfl⟩ | ⟨latest, hlist, rfl⟩
  · constructor
    · intro hci
      cases hci
    · intro hci hnull hrange
      cases hnamed hci hnull hrange
  · have hlatest := instancesOf_of_ends_listSources hrules hlist
    rw [hextends.listing] at hlatest
    rw [offered_eq hlatest] at hnamed ⊢
    constructor
    · intro hci
      obtain ⟨name, hname⟩ := exists_of_mem_pick hci
      rwa [keyed_byName _ _ _ hname]
    · intro hci hnull hrange
      exact mem_pick hci (hnamed hci hnull hrange)

/-- What is known is listed, and what is listed besides starts at a position of some kind. -/
structure Gains (known listed : Std.TreeMap String CaptureInstance) (starts : Lsn → Prop) : Prop where
  kept : ∀ {name : String} {ci}, known[name]? = some ci → listed[name]? = some ci
  gained : ∀ {name : String} {ci}, listed[name]? = some ci → known[name]? = none →
    starts ci.startLsn

namespace Gains

variable {known listed later : Std.TreeMap String CaptureInstance} {starts starts' : Lsn → Prop}

theorem of_eq (h : ∀ name : String, known[name]? = listed[name]?) : Gains known listed starts where
  kept hname := h _ ▸ hname
  gained hname hnone := by simp [h, hname] at hnone

theorem keyed (h : Gains known listed starts) (hlisted : Keyed listed) : Keyed known :=
  fun name ci hname => hlisted name ci (h.kept hname)

theorem mono (h : Gains known listed starts) (himp : ∀ start, starts start → starts' start) :
    Gains known listed starts' := ⟨h.kept, fun hname hnone => himp _ (h.gained hname hnone)⟩

theorem trans (h : Gains known listed starts) (h' : Gains listed later starts) :
    Gains known later starts where
  kept hname := h'.kept (h.kept hname)
  gained {name ci} hname hnone := by
    cases hlisted : listed[name]? with
    | none => exact h'.gained hname hlisted
    | some cj =>
        have heq := h'.kept hlisted
        rw [hname] at heq
        cases heq
        exact h.gained hlisted hnone

end Gains

end Registry

/-! ## Windows of what is known -/

/-- Instances that are known are listed in the same order. -/
theorem Registry.values_sublist {known listed : Std.TreeMap String CaptureInstance}
    (h : ∀ {name : String} {ci}, known[name]? = some ci → listed[name]? = some ci) :
    known.values <+ listed.values := by
  rw [values_eq, values_eq]
  apply Sublist.map
  have hordered (t : Std.TreeMap String CaptureInstance) :
      t.toList.Pairwise fun a b => compare a.1 b.1 = .lt := t.ordered_keys_toList
  have hsubset : known.toList ⊆ listed.toList := by
    intro entry hentry
    rw [Std.TreeMap.mem_toList_iff_getElem?_eq_some] at hentry ⊢
    exact h hentry
  have hnodup : known.toList.Nodup := by
    apply (hordered known).imp
    intro a b hlt heq
    rw [heq, Std.ReflOrd.compare_self] at hlt
    cases hlt
  have hantisymm : Std.Antisymm fun a b : String × CaptureInstance => compare a.1 b.1 = .lt := by
    constructor
    intro a b hab hba
    rw [Std.OrientedOrd.eq_swap, hba] at hab
    cases hab
  exact sublist_of_subperm_of_pairwise (subperm_of_subset hnodup hsubset) (hordered _) (hordered _)

/-- Windows of one instance that read the same. -/
structure SourceWindow.Alike (v w : SourceWindow) : Prop where
  source : v.source = w.source
  first : v.first = w.first
  last : v.last = w.last
  owns : ∀ lsn, lsn ≤ v.last → v.owns lsn = w.owns lsn

namespace Planner

open CaptureStep

variable {known sources list list' : List CaptureInstance} {source : CaptureInstance}
  {first last lower lsn : Lsn}

/-- All but some of the instances start behind an interval. -/
structure StartBehind (known sources : List CaptureInstance) (last : Lsn) : Prop where
  sublist : known <+ sources
  nodup : sources.Nodup
  behind : ∀ ci ∈ sources, ci ∈ known ∨ last < ci.startLsn

theorem lt_supersededAt?_iff :
    (∀ cutoff, supersededAt? source sources = some cutoff → lsn < cutoff) ↔
      ∀ other ∈ sources, supersedes other source → lsn < other.startLsn := by
  constructor
  · intro h other hother hsupersedes
    obtain ⟨cutoff, hcut, hle⟩ := exists_supersededAt? hother hsupersedes
    exact (h cutoff hcut).trans_le hle
  · intro h cutoff hcut
    obtain ⟨⟨other, hother, hsupersedes, rfl⟩, _⟩ := supersededAt?_eq_some.mp hcut
    exact h other hother hsupersedes

namespace StartBehind

/-- What starts behind the interval takes over nothing in it. -/
theorem lt_supersededAt?_iff (h : StartBehind known sources last) (hlsn : lsn ≤ last) :
    (∀ cutoff, supersededAt? source known = some cutoff → lsn < cutoff) ↔
      ∀ cutoff, supersededAt? source sources = some cutoff → lsn < cutoff := by
  rw [Planner.lt_supersededAt?_iff, Planner.lt_supersededAt?_iff]
  constructor
  · intro hknown other hother hsupersedes
    rcases h.behind other hother with hmem | hbehind
    · exact hknown other hmem hsupersedes
    · exact hlsn.trans_lt hbehind
  · exact fun hsources other hother => hsources other (h.sublist.subset hother)

theorem rel_windowFrom (h : StartBehind known sources last) :
    Option.Rel SourceWindow.Alike (windowFrom known source lower last)
      (windowFrom sources source lower last) := by
  by_cases hwindow : lower ≤ last ∧
      ∀ cutoff, supersededAt? source known = some cutoff → lower < cutoff
  · obtain ⟨hlower, hcurrent⟩ := hwindow
    rw [windowFrom_eq_some_iff.mpr ⟨hlower, hcurrent, rfl⟩,
      windowFrom_eq_some_iff.mpr ⟨hlower, (h.lt_supersededAt?_iff hlower).mp hcurrent, rfl⟩]
    refine .some ⟨rfl, rfl, rfl, fun lsn hlsn => ?_⟩
    rw [Bool.eq_iff_iff, SourceWindow.owns_iff, SourceWindow.owns_iff]
    exact h.lt_supersededAt?_iff hlsn
  · have hnone : windowFrom known source lower last = none := by
      rw [Option.eq_none_iff_forall_ne_some]
      intro window hsome
      obtain ⟨hlower, hcurrent, _⟩ := windowFrom_eq_some_iff.mp hsome
      exact hwindow ⟨hlower, hcurrent⟩
    have hnone' : windowFrom sources source lower last = none := by
      rw [Option.eq_none_iff_forall_ne_some]
      intro window hsome
      obtain ⟨hlower, hcurrent, _⟩ := windowFrom_eq_some_iff.mp hsome
      exact hwindow ⟨hlower, (h.lt_supersededAt?_iff hlower).mpr hcurrent⟩
    rw [hnone, hnone']
    exact .none

theorem alike_windowOf (h : StartBehind known sources last) :
    StepsAlike (Option.Rel SourceWindow.Alike) (windowOf known first last source)
      (windowOf sources first last source) := by
  unfold windowOf
  split
  · exact alike_pure .none
  · dsimp only
    split
    · apply alike_bind (alike_refl (R := Eq) (fun _ => rfl) (Server.minLsn source.name))
      rintro lowest _ rfl
      apply alike_pure
      split
      · exact .none
      · exact h.rel_windowFrom
    · exact alike_pure h.rel_windowFrom

/-- There is no window for what starts behind the interval, and nothing is asked about it. -/
theorem windowOf_eq_none (hbehind : last < source.startLsn) :
    windowOf sources first last source = pure none := by
  have hnull : ¬ source.startLsn.isNull := by
    intro hnull
    rw [Position.isNull_iff.mp hnull] at hbehind
    exact absurd hbehind (not_lt.mpr (Position.null_le _))
  have hwindow : windowFrom sources source (max source.startLsn first) last = none := by
    rw [windowFrom, if_pos (hbehind.trans_le (le_max_left _ _))]
  unfold windowOf
  dsimp only
  rw [if_neg (not_isNull_max hnull), hwindow]
  split <;> rfl

/-- The windows of what is known are found by the same requests as those of the whole listing. -/
theorem alike_windowsOf (h : StartBehind known sources last) (hlist : StartBehind list list' last) :
    StepsAlike (Forall₂ SourceWindow.Alike) (windowsOf known first last list)
      (windowsOf sources first last list') := by
  obtain ⟨hsublist, hnodup, hbehind⟩ := hlist
  induction hsublist with
  | slnil => exact alike_pure .nil
  | @cons list list' source hsublist ih =>
      obtain ⟨hsource, hnodup⟩ := nodup_cons.mp hnodup
      have hstart := (hbehind source mem_cons_self).resolve_left fun hmem =>
        hsource (hsublist.subset hmem)
      rw [windowsOf, windowOf_eq_none hstart, pure_bind]
      simpa using ih hnodup fun ci hci => hbehind ci (mem_cons_of_mem _ hci)
  | @cons_cons list list' source hsublist ih =>
      obtain ⟨hsource, hnodup⟩ := nodup_cons.mp hnodup
      have hrest : ∀ ci ∈ list', ci ∈ list ∨ last < ci.startLsn := by
        intro ci hci
        apply (hbehind ci (mem_cons_of_mem _ hci)).imp_left
        intro hmem
        apply (mem_cons.mp hmem).resolve_left
        rintro rfl
        exact hsource hci
      rw [windowsOf, windowsOf]
      apply alike_bind h.alike_windowOf
      intro window window' hwindow
      apply alike_bind (ih hnodup hrest)
      intro windows windows' hwindows
      apply alike_pure
      cases hwindow with
      | none => exact hwindows
      | some halike => exact .cons halike hwindows

end StartBehind

/-- Windows that read the same are sorted in the same way. -/
theorem forall₂_mergeSort {windows windows' : List SourceWindow}
    (h : Forall₂ SourceWindow.Alike windows windows') :
    Forall₂ SourceWindow.Alike (windows.mergeSort windowLE) (windows'.mergeSort windowLE) := by
  have hlength := h.length_eq
  let pairs := windows.zip windows'
  have hpairs : ∀ pair ∈ pairs, pair.1.Alike pair.2 := fun pair hpair => forall₂_zip h hpair
  have hsources {a b : SourceWindow × SourceWindow} (ha : a ∈ pairs) (hb : b ∈ pairs) :
      windowLE a.1 b.1 = windowLE a.2 b.2 := by
    rw [windowLE, windowLE, (hpairs a ha).source, (hpairs b hb).source]
  have hfirst : (pairs.mergeSort fun a b => windowLE a.1 b.1).map Prod.fst =
      windows.mergeSort windowLE := by
    rw [map_mergeSort (f := Prod.fst) (s := windowLE) (fun a _ b _ => rfl), map_fst_zip hlength.le]
  have hsecond : (pairs.mergeSort fun a b => windowLE a.1 b.1).map Prod.snd =
      windows'.mergeSort windowLE := by
    rw [map_mergeSort (f := Prod.snd) (s := windowLE) fun a ha b hb => hsources ha hb,
      map_snd_zip hlength.ge]
  rw [← hfirst, ← hsecond, forall₂_map_left_iff, forall₂_map_right_iff, forall₂_same]
  exact fun pair hpair => hpairs pair (mem_mergeSort.mp hpair)

/-- Planning asks the same of what is known as of the whole listing, and plans windows that read the
same. -/
theorem StartBehind.alike_plan (h : StartBehind known sources last) (first : Lsn) :
    StepsAlike (Forall₂ SourceWindow.Alike) (plan known first last) (plan sources first last) := by
  apply alike_bind (h.alike_windowsOf h)
  intro windows windows' hwindows
  exact alike_pure (forall₂_mergeSort hwindows)

end Planner

/-! ## The interval of a poll -/

namespace Streamer

section Ends

variable {answers : Program.Answers CaptureRequest.interface World} {α β : Type} {s s' : Streamer}
  {w w' : World}

/-- Composed steps that end well do so one after the other. -/
theorem ends_bind_ok {x : StreamStep α} {f : α → StreamStep β} {b : β} :
    Ends answers (runStep (x >>= f) s) w (.ok b, s') w' ↔
      ∃ a t v, Ends answers (runStep x s) w (.ok a, t) v ∧
        Ends answers (runStep (f a) t) v (.ok b, s') w' := by
  apply StatefulStep.ends_bind_iff.trans
  constructor
  · rintro (h | ⟨e, hb, _⟩)
    · exact h
    · cases hb
  · exact .inl

theorem ends_pure {a b : α} :
    Ends answers (runStep (pure a) s) w (.ok b, s') w' ↔ b = a ∧ s' = s ∧ w' = w := by
  apply StatefulStep.ends_ofExcept.trans
  rw [Except.ok.injEq]

theorem ends_liftStep_ok {step : CaptureStep α} {a : α} :
    Ends answers (runStep (liftStep step) s) w (.ok a, s') w' ↔
      Ends answers step.run w (.ok a) w' ∧ s' = s := StatefulStep.ends_lift.trans and_comm

end Ends

/-- An interval that is to be read, and what is known of the instances for it. -/
structure FoundInterval where
  first : Lsn
  last : Lsn
  /-- The end of what was captured. -/
  bound : Lsn
  diff : RegistryDiff

/-- The part of a poll before planning: finds an interval, if there is one. -/
def findInterval : StreamStep (Option FoundInterval) := do
  let first := (← get).nextFrom
  let highest ← liftStep Server.maxLsn
  if highest.isNull || highest < first then return none
  else
    let lastTransaction ← liftStep Server.maxTransactionLsn
    if lastTransaction.isNull || lastTransaction < first then return none
    else
      let bound := min highest lastTransaction
      let last ← liftStep (intervalEnd (← get).maxTransactions first bound)
      let diff ← liftStep (reconcileRegistry (← get) last)
      modify fun s => { s with registryStale := true }
      return some { first, last, bound, diff }

/-- A poll finds an interval, and then plans and delivers it. -/
theorem pollOnce_eq : pollOnce = findInterval >>= fun found =>
    match found with
    | none => pure none
    | some found => some <$> deliverInterval found.first found.last found.bound found.diff := by
  simp only [pollOnce, findInterval, bind_assoc]
  congr 1; funext s
  congr 1; funext highest
  split
  · simp
  · simp only [bind_assoc]
    congr 1; funext lastTransaction
    split <;> simp

variable {rules : Rules} {s s' : Streamer} {w w' : World}

/-- A poll that has found an interval ends as its delivery does. -/
theorem ends_pollOnce_of_found {t : Streamer} {v : World} {found : FoundInterval}
    {result : Except CaptureError IntervalStats}
    (hfind : Ends rules.answers (runStep findInterval s) w (.ok (some found), t) v)
    (hdeliver : Ends rules.answers
      (runStep (deliverInterval found.first found.last found.bound found.diff) t) v (result, s') w') :
    Ends rules.answers (runStep pollOnce s) w (result.map some, s') w' := by
  rw [pollOnce_eq]
  apply ends_bind hfind
  apply Program.ends_andThen.mpr
  exact ⟨_, _, hdeliver, by cases result <;> exact .refl _ _⟩

/-- The interval that a lawful server lets a poll find begins at the next position. -/
theorem of_ends_findInterval (hrules : rules.Lawful) {found : FoundInterval}
    (h : Ends rules.answers (runStep findInterval s) w (.ok (some found), s') w') :
    found.first = s.nextFrom ∧ s.nextFrom ≤ found.last ∧ ∃ v, w.server.Extends v.server ∧
      Ends rules.answers (reconcileRegistry s found.last).run v (.ok found.diff) w' := by
  unfold findInterval at h
  replace h := StatefulStep.ends_get_bind.mp h
  obtain ⟨highest, _, v₁, hhighest, h⟩ := ends_bind_ok.mp h
  obtain ⟨hhighest, rfl⟩ := ends_liftStep_ok.mp hhighest
  split at h
  · cases (ends_pure.mp h).1
  · rename_i hcaptured
    obtain ⟨lastTransaction, _, v₂, hlast, h⟩ := ends_bind_ok.mp h
    obtain ⟨hlast, rfl⟩ := ends_liftStep_ok.mp hlast
    split at h
    · cases (ends_pure.mp h).1
    · rename_i htransaction
      simp only [Bool.or_eq_true, decide_eq_true_eq, not_or, not_lt] at hcaptured htransaction
      replace h := StatefulStep.ends_get_bind.mp h
      obtain ⟨last, _, v₃, hend, h⟩ := ends_bind_ok.mp h
      obtain ⟨hend, rfl⟩ := ends_liftStep_ok.mp hend
      replace h := StatefulStep.ends_get_bind.mp h
      obtain ⟨diff, _, v₄, hreconcile, h⟩ := ends_bind_ok.mp h
      obtain ⟨hreconcile, rfl⟩ := ends_liftStep_ok.mp hreconcile
      replace h := StatefulStep.ends_modify_bind.mp h
      obtain ⟨hfound, _, rfl⟩ := ends_pure.mp h
      cases hfound
      have hextends := (hrules.extends_of_leads hhighest).trans
        ((hrules.extends_of_leads hlast).trans (hrules.extends_of_leads hend))
      have hle := first_le_of_ends_intervalEnd hrules (le_min hcaptured.2 htransaction.2) hend
      exact ⟨rfl, hle, v₃, hextends, hreconcile⟩

/-! ## What is known -/

/-- Both start where new instances are looked for. -/
def StartsFrom (first start : Lsn) : Prop := ¬ start.isNull ∧ first ≤ start

/-- What is known, if it is not asked for anew, lacks only instances that are still looked for. -/
structure Trails (s : Streamer) (server : CapturedServer) : Prop where
  plain : ∀ ci ∈ s.registry.toList, ci.IsPlain
  order : s.lastFrom ≤ s.nextFrom
  known : s.Seeks → Registry.Gains s.registry.sources
    (Registry.offered s.database s.filter server.listing) (StartsFrom s.lastFrom)

theorem StartsFrom.of_lt {first last start : Lsn} (hfirst : first ≤ last) (h : last < start) :
    StartsFrom first start := by
  constructor
  · intro hnull
    rw [Position.isNull_iff.mp hnull] at h
    exact absurd (Position.null_le last) (not_le.mpr h)
  · exact hfirst.trans h.le

/-- Whatever was known before, only instances that start behind the interval are not known for it. -/
theorem gains_of_relisted (hrules : rules.Lawful) (hs : s.Trails w.server) {last : Lsn}
    {relisted : List CaptureInstance} (h : Relisted rules s last w w' relisted) :
    Registry.Gains (Registry.byName relisted)
      (Registry.offered s.database s.filter w.server.listing) (last < ·) := by
  cases h with
  | all h =>
      apply Registry.Gains.of_eq
      rw [Registry.offered_eq (Registry.instancesOf_of_ends_listSources hrules h)]
      simp
  | known hseeks h hknown =>
      have hgains := hs.known hseeks
      have hkeyed := hgains.keyed (Registry.keyed_byName _)
      have hsame (name : String) :
          (Registry.byName s.registry.toList)[name]? = s.registry.sources[name]? :=
        (Registry.byName_values hkeyed).getElem?_eq
      constructor
      · intro name ci hname
        exact hgains.kept (hsame name ▸ hname)
      · intro name ci hname hnone
        rw [hsame] at hnone
        obtain ⟨hnull, hfrom⟩ := hgains.gained hname hnone
        -- up to the end of the interval it would have been found
        by_contra hlast
        obtain rfl := Registry.keyed_byName _ _ _ hname
        have hfound := (Registry.offered_of_ends_listNewSources hrules h ci).2 hname hnull
          (by simpa [Position.inRange] using ⟨hfrom, not_lt.mp hlast⟩)
        exact hknown ci hfound hnone
  | @extended found hseeks h =>
      have hgains := hs.known hseeks
      have hkeyed := hgains.keyed (Registry.keyed_byName _)
      have hsame (name : String) : (Registry.byName (s.registry.toList ++ found))[name]? =
          (Registry.byName found)[name]?.or s.registry.sources[name]? := by
        rw [Registry.getElem?_byName_append_list]
        congr 1
        exact (Registry.byName_values hkeyed).getElem?_eq
      constructor
      · intro name ci hname
        rw [hsame, Option.or_eq_some_iff] at hname
        rcases hname with hname | ⟨_, hname⟩
        · have hci := (Registry.offered_of_ends_listNewSources hrules h ci).1
            (Registry.mem_of_getElem?_byName hname)
          rwa [Registry.keyed_byName _ _ _ hname] at hci
        · exact hgains.kept hname
      · intro name ci hname hnone
        rw [hsame, Option.or_eq_none_iff] at hnone
        obtain ⟨hnull, hfrom⟩ := hgains.gained hname hnone.2
        by_contra hlast
        obtain rfl := Registry.keyed_byName _ _ _ hname
        have hfound := (Registry.offered_of_ends_listNewSources hrules h ci).2 hname hnull
          (by simpa [Position.inRange] using ⟨hfrom, not_lt.mp hlast⟩)
        obtain ⟨_, hlisted⟩ := Registry.exists_of_mem hfound
        rw [hnone.1] at hlisted
        cases hlisted

namespace Trails

/-- What is committed, whether all is asked for, and how far the log has grown do not matter. -/
theorem wait {server : CapturedServer} (h : s.Trails w.server)
    (hlisting : server.listing = w.server.listing) (tracker : OffsetTracker .sqlserver)
    (registryStale : Bool) : Trails { s with tracker, registryStale } server := by
  refine ⟨h.plain, h.order, fun hseeks => ?_⟩
  rw [hlisting]
  exact h.known ⟨hseeks.known, hseeks.last⟩

/-- The listing gains instances that start where new ones are looked for. -/
theorem of_gains {later : CapturedServer} (h : s.Trails w.server)
    (hgains : Registry.Gains (Registry.offered s.database s.filter w.server.listing)
      (Registry.offered s.database s.filter later.listing) (StartsFrom s.lastFrom)) :
    s.Trails later := ⟨h.plain, h.order, fun hseeks => (h.known hseeks).trans hgains⟩

/-- For an interval only instances that start behind it are not known. -/
theorem gains_of_opening (hrules : rules.Lawful) (h : s.Trails w.server) {last : Lsn}
    {diff : RegistryDiff} {stream : ChangeStream} (hopening : Opening rules s w last diff stream w') :
    s.nextFrom ≤ last ∧ Registry.Gains diff.snapshot.sources
      (Registry.offered s.database s.filter w.server.listing) (last < ·) := by
  obtain ⟨hhighest, hcaptured, hlast, htransaction, hend, hreconcile, _⟩ := hopening
  have hextends := ((hrules.extends hhighest).trans (hrules.extends hlast)).trans
    (hrules.extends_of_leads hend)
  have hfirst := first_le_of_ends_intervalEnd hrules (le_min hcaptured htransaction) hend
  obtain ⟨relisted, hrelisted, hdiff⟩ := ends_reconcileRegistry hreconcile
  apply And.intro hfirst
  rw [hdiff, ← hextends.listing]
  exact gains_of_relisted hrules (h.wait hextends.listing s.tracker s.registryStale) hrelisted

/-- What an interval has found out trails behind the listing all the same. -/
theorem take_over (hrules : rules.Lawful) (h : s.Trails w.server) {last : Lsn} {diff : RegistryDiff}
    {stream : ChangeStream} {v : World} {server : CapturedServer}
    (hopening : Opening rules s w last diff stream v) (hlisting : server.listing = w.server.listing)
    (tracker : OffsetTracker .sqlserver) {lastFrom nextFrom : Lsn} (hlower : lastFrom ≤ s.nextFrom)
    (horder : lastFrom ≤ nextFrom) :
    Trails { s with
      tracker, registry := diff.snapshot, registryStale := false, lastFrom, nextFrom } server := by
  obtain ⟨hfirst, hgains⟩ := h.gains_of_opening hrules hopening
  apply Trails.mk (hopening.ascending h.plain).1 horder
  intro _
  rw [hlisting]
  exact hgains.mono fun start => StartsFrom.of_lt (hlower.trans hfirst)

end Trails

/-- A poll keeps up that what is known trails behind the listing, wherever the poll ends. -/
theorem trails_of_ends_pollOnce (hrules : rules.Lawful) (h : s.Trails w.server)
    {result : Except CaptureError (Option IntervalStats)}
    (hpoll : Ends rules.answers (runStep pollOnce s) w (result, s') w') :
    s'.fresh = s.fresh ∧ s'.Trails w'.server := by
  have hlisting := (hrules.extends_of_leads hpoll).listing
  cases polled_of_ends h.plain hpoll with
  | idle => exact ⟨rfl, h.wait hlisting _ _⟩
  | unopened => exact ⟨rfl, h.wait hlisting _ _⟩
  | broken => exact ⟨rfl, h.wait hlisting _ _⟩
  | halted hopening => exact ⟨rfl, h.take_over hrules hopening hlisting _ h.order h.order⟩
  | unfinished hopening => exact ⟨rfl, h.take_over hrules hopening hlisting _ le_rfl le_rfl⟩
  | completed hopening _ _ hnext =>
      have hfirst := (h.gains_of_opening hrules hopening).1
      have hlater := (isLeast_of_ends_increment hrules hnext).1
      exact ⟨rfl, h.take_over hrules hopening hlisting _ le_rfl (hfirst.trans hlater.le)⟩

/-! ## Polls while the listing grows -/

/-- Polls one after another, between which the server changes. Whatever else becomes of it, its listing
only gains instances, and those of captured tables start where new ones are looked for. -/
inductive GrowingPolls (rules : Rules) (s : Streamer) (w : World) : Streamer → World → Prop where
  | none : GrowingPolls rules s w s w
  | gains {s' u} {later : CapturedServer} (h : GrowingPolls rules s w s' u)
      (hgains : Registry.Gains (Registry.offered s'.database s'.filter u.server.listing)
        (Registry.offered s'.database s'.filter later.listing) (StartsFrom s'.lastFrom)) :
      GrowingPolls rules s w s' { u with server := later }
  | next {s' u result s'' u'} (h : GrowingPolls rules s w s' u)
      (hpoll : Ends rules.answers (runStep pollOnce s') u (result, s'') u') :
      GrowingPolls rules s w s'' u'

theorem GrowingPolls.trails (hrules : rules.Lawful) (h : s.Trails w.server)
    (hpolls : GrowingPolls rules s w s' w') : s'.fresh = s.fresh ∧ s'.Trails w'.server := by
  induction hpolls with
  | none => exact ⟨rfl, h⟩
  | gains _ hgains ih => exact ⟨ih.1, ih.2.of_gains hgains⟩
  | next _ hpoll ih =>
      obtain ⟨hfresh, htrails⟩ := trails_of_ends_pollOnce hrules ih.2 hpoll
      exact ⟨hfresh.trans ih.1, htrails⟩

/-- A new streamer knows nothing. -/
theorem trails_of_fresh {config : Configuration} {database : String} {hasStore : Bool} {start : Lsn}
    {tracker : OffsetTracker .sqlserver} {server : CapturedServer} :
    Trails { Streamer.ofConfiguration config database hasStore with tracker, nextFrom := start }
      server := ⟨isPlain_of_empty rfl, Position.null_le _, fun hseeks => absurd rfl hseeks.known⟩

/-- For the interval that a poll finds, only listed instances that start behind it are not known. -/
theorem Trails.gains_of_ends_findInterval (hrules : rules.Lawful) (h : s.Trails w.server)
    {found : FoundInterval}
    (hfind : Ends rules.answers (runStep findInterval s) w (.ok (some found), s') w') :
    Registry.Gains found.diff.snapshot.sources
      (Registry.offered s.database s.filter w.server.listing) (found.last < ·) := by
  obtain ⟨_, _, v, hextends, hreconcile⟩ := of_ends_findInterval hrules hfind
  obtain ⟨relisted, hrelisted, hdiff⟩ := ends_reconcileRegistry hreconcile
  rw [hdiff, ← hextends.listing]
  exact gains_of_relisted hrules (h.wait hextends.listing s.tracker s.registryStale) hrelisted

end Streamer

namespace Registry.Gains

variable {known listed : Std.TreeMap String CaptureInstance} {last : Lsn}

/-- What is known has exactly the listed instances that start up to the end of an interval, and maybe
others that are listed. -/
theorem mem_values (h : Gains known listed (last < ·)) (hlisted : Keyed listed) (ci : CaptureInstance) :
    (ci ∈ known.values → listed[ci.name]? = some ci) ∧
      (listed[ci.name]? = some ci → ci.startLsn ≤ last → ci ∈ known.values) := by
  constructor
  · intro hci
    obtain ⟨name, hname⟩ := Registry.mem_values.mp hci
    have hkept := h.kept hname
    rwa [hlisted name ci hkept]
  · intro hci hstart
    cases hknown : known[ci.name]? with
    | none => exact absurd (h.gained hci hknown) (not_lt.mpr hstart)
    | some cj =>
        rw [h.kept hknown] at hci
        cases hci
        exact Registry.mem_values.mpr ⟨_, hknown⟩

theorem startBehind (h : Gains known listed (last < ·)) (hlisted : Keyed listed) :
    Planner.StartBehind known.values listed.values last where
  sublist := values_sublist h.kept
  nodup := Nodup.of_map _ (nodup_names_values hlisted)
  behind ci hci := by
    obtain ⟨name, hname⟩ := Registry.mem_values.mp hci
    cases hknown : known[name]? with
    | none => exact .inr (h.gained hname hknown)
    | some cj =>
        rw [h.kept hknown] at hname
        cases hname
        exact .inl (Registry.mem_values.mpr ⟨_, hknown⟩)

end Registry.Gains

/-- While the listing only gains instances that start where new ones are looked for, whatever fails in
between, the snapshot for an interval has only listed instances of captured tables, and all that start up
to the end of the interval. Planning from it asks the same as planning from the whole listing and plans
windows of the same instances with the same bounds that own the same positions of the interval. -/
theorem planned_as_from_whole_listing {config : Configuration} {database : String} {hasStore : Bool}
    {server : CapturedServer} {store : OffsetMap .sqlserver} {start : Lsn}
    {resumed : Option (Offset .sqlserver)} {s s' : Streamer} {w w' : World}
    {found : Streamer.FoundInterval}
    (hpolls : Streamer.GrowingPolls Rules.documented
      { Streamer.ofConfiguration config database hasStore with
        tracker := ⟨resumed⟩, nextFrom := start } { server, store } s w)
    (hfind : Ends Rules.documented.answers (Streamer.runStep Streamer.findInterval s) w
      (.ok (some found), s') w') :
    (∀ ci ∈ found.diff.snapshot.toList,
      (Registry.offered database config.tableFilter w.server.listing)[ci.name]? = some ci) ∧
    (∀ ci, (Registry.offered database config.tableFilter w.server.listing)[ci.name]? = some ci →
      ci.startLsn ≤ found.last → ci ∈ found.diff.snapshot.toList) ∧
    ∀ latest, Registry.instancesOf database config.tableFilter w.server.listing = .ok latest →
      CaptureStep.StepsAlike (Forall₂ SourceWindow.Alike)
        (Planner.plan found.diff.snapshot.toList found.first found.last)
        (Planner.plan (RegistrySnapshot.ofList latest).toList found.first found.last) := by
  obtain ⟨hfresh, htrails⟩ := hpolls.trails Rules.lawful_documented Streamer.trails_of_fresh
  have hgains := htrails.gains_of_ends_findInterval Rules.lawful_documented hfind
  have hdatabase : s.database = database := congrArg Streamer.database hfresh
  have hfilter : s.filter = config.tableFilter := congrArg Streamer.filter hfresh
  rw [hdatabase, hfilter] at hgains
  have hkeyed := Registry.keyed_byName
    (w.server.listing.filterMap (Registry.offered? database config.tableFilter))
  refine ⟨fun ci => (hgains.mem_values hkeyed ci).1, fun ci => (hgains.mem_values hkeyed ci).2, ?_⟩
  intro latest hlatest
  have halike := (hgains.startBehind hkeyed).alike_plan found.first
  rwa [Registry.offered_eq hlatest] at halike

namespace Sample

open CaptureStep Streamer

theorem instancesOf_later :
    Registry.instancesOf "shop" configuration.tableFilter laterServer.listing =
      .ok [source "orders", late] := by decide +kernel

/-- The late instance is all that is gained. -/
theorem gains_late : Registry.Gains (Registry.offered "shop" configuration.tableFilter server.listing)
    (Registry.offered "shop" configuration.tableFilter laterServer.listing)
    (StartsFrom polled.lastFrom) := by
  have hserver : Registry.instancesOf "shop" configuration.tableFilter server.listing =
      .ok [source "orders"] := by decide +kernel
  have hlater (name : String) : (Registry.byName [source "orders", late])[name]? =
      if late.name = name then some late else (Registry.byName [source "orders"])[name]? :=
    Registry.getElem?_byName_append [source "orders"] late name
  rw [Registry.offered_eq hserver, Registry.offered_eq instancesOf_later]
  constructor
  · intro name ci hname
    have hci := mem_singleton.mp (Registry.mem_of_getElem?_byName hname)
    have hne : late.name ≠ name := by
      rw [← Registry.keyed_byName _ _ _ hname, hci]
      decide
    rw [hlater, if_neg hne, hname]
  · intro name ci hname hnone
    rw [hlater, hnone] at hname
    split at hname
    · cases hname
      exact ⟨by decide, by decide⟩
    · cases hname

/-- After the interval of the sample the late instance is listed. -/
theorem growingPolls : GrowingPolls Rules.documented
    { Streamer.ofConfiguration configuration "shop" true with
      tracker := ⟨none⟩, nextFrom := .ofNat 11 } { server, store := ∅ } polled listed :=
  .gains (.next .none (ends_pollOnce .null [])) gains_late

/-- The next interval with what is found out for it. -/
def foundLate : FoundInterval :=
  { first := .ofNat 21, last := .ofNat 30, bound := .ofNat 30, diff := lateDiff }

/-- An interval that ends at the last transaction is found when the listing is known. -/
theorem ends_findInterval_of {s : Streamer} {w v : World} {last : Lsn} {diff : RegistryDiff}
    (hall : s.maxTransactions = 0) (hnull : last.isNull = false) (hfirst : s.nextFrom ≤ last)
    (hmax : Rules.documented.answers w (.server .maxLsn)
      (Except.ok last : Except CaptureError Lsn) v)
    (hreconcile : Ends Rules.documented.answers (reconcileRegistry s last).run v (.ok diff) v) :
    Ends Rules.documented.answers (runStep findInterval s) w
      (.ok (some { first := s.nextFrom, last, bound := last, diff }),
        { s with registryStale := true }) v := by
  have hlast : Rules.documented.answers v (.server .maxTransactionLsn)
      (Except.ok last : Except CaptureError Lsn) v := ⟨_, .refl _, trivial, rfl⟩
  have hend : Ends Rules.documented.answers
      (intervalEnd s.maxTransactions s.nextFrom (min last last)).run v (.ok last) v := by
    rw [intervalEnd, hall, min_self]
    exact .refl _ _
  have hgoing : ¬ (last.isNull || decide (last < s.nextFrom)) := by simp [hnull, hfirst]
  unfold findInterval
  apply ends_bind (.refl _ _)
  apply ends_bind (ends_liftStep (ends_request.mpr hmax))
  rw [if_neg hgoing]
  apply ends_bind (ends_liftStep (ends_request.mpr hlast))
  rw [if_neg hgoing]
  apply ends_bind (.refl _ _)
  apply ends_bind (ends_liftStep hend)
  apply ends_bind (.refl _ _)
  rw [min_self]
  exact ends_bind (ends_liftStep hreconcile) (.refl _ _)

theorem ends_findInterval_late :
    Ends Rules.documented.answers (runStep findInterval polled) listed
      (.ok (some foundLate), { polled with registryStale := true }) reported :=
  ends_findInterval_of rfl rfl (by decide) ⟨_, .refl _, trivial, rfl⟩ ends_reconcile

end Sample

open Sample in
/-- The late instance is found, and the windows are those of the whole listing. -/
theorem planned_as_from_whole_listing_of_sample :
    late ∈ lateDiff.snapshot.toList ∧
      CaptureStep.StepsAlike (Forall₂ SourceWindow.Alike)
        (Planner.plan lateDiff.snapshot.toList (.ofNat 21) (.ofNat 30))
        (Planner.plan (RegistrySnapshot.ofList [source "orders", late]).toList (.ofNat 21)
          (.ofNat 30)) := by
  obtain ⟨_, hfinds, hplans⟩ := planned_as_from_whole_listing growingPolls ends_findInterval_late
  constructor
  · apply hfinds late
    · have hoffered : Registry.offered "shop" configuration.tableFilter listed.server.listing = _ :=
        Registry.offered_eq instancesOf_later
      rw [hoffered]
      exact Registry.getElem?_byName_of_mem (by decide) (by simp)
    · decide
  · exact hplans _ instancesOf_later

end ChangeCapture
