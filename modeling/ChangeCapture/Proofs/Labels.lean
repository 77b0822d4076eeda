import ChangeCapture.Proofs.Partition
import ChangeCapture.Proofs.Redo.Order
import ChangeCapture.Proofs.Stream.Order

/-! # The order of labels

Windows are planned by table and then by the name of their instance. Where keys are equal, a merge goes by
the labels, each of which is one text `schema.table:name`. The two orders differ where a name goes on
behind another one with a character that comes before the mark there, as digits come before a colon. -/

namespace ChangeCapture

open List
open Std (TransCmp LawfulEqOrd OrientedCmp ReflCmp ReflOrd)

/-! ## Labels of instances -/

namespace CaptureInstance

variable {ci cj : CaptureInstance}

/-- Schema, table and name in this order of comparison, the database being no part of a label. -/
def compareParts (ci cj : CaptureInstance) : Ordering :=
  (compare ci.table.schema cj.table.schema).then
    ((compare ci.table.table cj.table.table).then (compare ci.name cj.name))

instance : TransCmp compareParts :=
  inferInstanceAs (TransCmp (compareLex (compareOn fun ci : CaptureInstance => ci.table.schema)
    (compareLex (compareOn fun ci => ci.table.table) (compareOn fun ci => ci.name))))

/-- Table and name as they stand in the label. -/
def labelBehindSchema (ci : CaptureInstance) : List Char :=
  ci.table.table.toList ++ ':' :: ci.name.toList

theorem toList_label (ci : CaptureInstance) :
    ci.label.toList = ci.table.schema.toList ++ '.' :: ci.labelBehindSchema :=
  toList_sourceLabel ci.table ci.name

/-- The schema of an instance goes on behind that of an earlier one and below the point, or the schemas
are the same and its table goes on behind that of the earlier one and below the colon. -/
inductive Overtakes (later earlier : CaptureInstance) : Prop where
  | schema (h : GoesBelow '.' earlier.table.schema.toList later.table.schema.toList
      earlier.labelBehindSchema later.labelBehindSchema)
  | table (hschema : later.table.schema = earlier.table.schema)
      (h : GoesBelow ':' earlier.table.table.toList later.table.table.toList
        earlier.name.toList later.name.toList)

theorem Overtakes.compareParts_eq_lt (h : cj.Overtakes ci) : ci.compareParts cj = .lt := by
  rw [compareParts, Ordering.then_eq_lt, Ordering.then_eq_lt]
  cases h with
  | schema h => exact .inl (compare_eq_lt_iff_toList.mpr h.lt)
  | table hschema h =>
      exact .inr ⟨hschema ▸ ReflCmp.compare_self, .inl (compare_eq_lt_iff_toList.mpr h.lt)⟩

theorem label_eq_of_compareParts (h : ci.compareParts cj = .eq) : ci.label = cj.label := by
  obtain ⟨hschema, h⟩ := Ordering.then_eq_eq.mp h
  obtain ⟨htable, hname⟩ := Ordering.then_eq_eq.mp h
  rw [← String.toList_inj, toList_label, toList_label, labelBehindSchema, labelBehindSchema,
    LawfulEqOrd.eq_of_compare hschema, LawfulEqOrd.eq_of_compare htable,
    LawfulEqOrd.eq_of_compare hname]

/-- Where the schemas are equal, the tables decide with the colon behind them, and then the names. -/
theorem labelBehindSchema_lt_iff
    (h : (compare ci.table.table cj.table.table).then (compare ci.name cj.name) = .lt) :
    cj.labelBehindSchema < ci.labelBehindSchema ↔
      GoesBelow ':' ci.table.table.toList cj.table.table.toList ci.name.toList cj.name.toList := by
  rw [labelBehindSchema, labelBehindSchema]
  rcases Ordering.then_eq_lt.mp h with htable | ⟨htable, hname⟩
  · exact append_mark_lt_iff (compare_eq_lt_iff_toList.mp htable)
  · rw [LawfulEqOrd.eq_of_compare htable, append_lt_append_iff, cons_lt_cons_iff]
    have hname : ¬ cj.name.toList < ci.name.toList :=
      List.lt_asymm (compare_eq_lt_iff_toList.mp hname)
    exact iff_of_false (by simp [hname]) fun h => List.lt_irrefl _ h.lt

/-- Of two instances, the label of the later one comes first exactly if it overtakes the other. -/
theorem compare_label_of_lt (h : ci.compareParts cj = .lt) :
    compare cj.label ci.label = .lt ↔ cj.Overtakes ci := by
  rw [compare_eq_lt_iff_toList, toList_label, toList_label]
  rcases Ordering.then_eq_lt.mp h with hschema | ⟨hschema, h⟩
  · have hlt := compare_eq_lt_iff_toList.mp hschema
    rw [append_mark_lt_iff hlt]
    refine ⟨.schema, fun h => ?_⟩
    cases h with
    | schema h => exact h
    | table heq => exact absurd hlt (heq ▸ List.lt_irrefl _)
  · have heq := LawfulEqOrd.eq_of_compare hschema
    rw [heq, append_lt_append_iff, cons_lt_cons_self, labelBehindSchema_lt_iff h]
    refine ⟨.table heq.symm, fun h => ?_⟩
    cases h with
    | schema h => exact absurd h.lt (heq ▸ List.lt_irrefl _)
    | table _ h => exact h

/-- The label of an instance that is planned later comes before that of an earlier one. Instances of
different databases can stand against the order of their labels without overtaking. -/
inductive LabelledBefore (later earlier : CaptureInstance) : Prop where
  | overtaking (h : later.Overtakes earlier)
  | acrossDatabases (h : later.compareParts earlier = .lt) (hnot : ¬ earlier.Overtakes later)
      (hne : later.label ≠ earlier.label)

theorem compare_label_eq_lt : compare cj.label ci.label = .lt ↔ cj.LabelledBefore ci := by
  constructor
  · intro h
    have hne : cj.label ≠ ci.label := by
      intro heq
      rw [heq, ReflOrd.compare_self] at h
      cases h
    cases hparts : ci.compareParts cj with
    | lt => exact .overtaking ((compare_label_of_lt hparts).mp h)
    | eq => exact absurd (label_eq_of_compareParts hparts).symm hne
    | gt =>
        have hparts := OrientedCmp.lt_of_gt hparts
        refine .acrossDatabases hparts (fun hover => ?_) hne
        cases (OrientedCmp.gt_of_lt h).symm.trans ((compare_label_of_lt hparts).mpr hover)
  · intro h
    cases h with
    | overtaking h => exact (compare_label_of_lt h.compareParts_eq_lt).mpr h
    | acrossDatabases h hnot hne =>
        cases hlabel : compare cj.label ci.label with
        | lt => rfl
        | eq => exact absurd (LawfulEqOrd.eq_of_compare hlabel) hne
        | gt => exact absurd ((compare_label_of_lt h).mp (OrientedCmp.lt_of_gt hlabel)) hnot

/-- In one database, labels change places with the planner's order by overtaking only. -/
theorem labelledBefore_iff_overtakes (hdatabase : ci.table.database = cj.table.database)
    (hle : ((compare ci.table cj.table).then (compare ci.name cj.name)).isLE) :
    cj.LabelledBefore ci ↔ cj.Overtakes ci := by
  refine ⟨fun h => ?_, .overtaking⟩
  cases h with
  | overtaking h => exact h
  | acrossDatabases h =>
      -- without the databases, the planner goes by what stands in the labels
      have hparts : (compare ci.table cj.table).then (compare ci.name cj.name) =
          ci.compareParts cj := by
        change (((compare ci.table.database cj.table.database).then _).then _) = _
        rw [hdatabase, ReflOrd.compare_self, Ordering.eq_then, Ordering.then_assoc]
        rfl
      rw [hparts, OrientedCmp.gt_of_lt h] at hle
      cases hle

end CaptureInstance

/-! ## Rows of equal keys -/

/-- In a list in strict order, the order of two members is that in which they stand. -/
theorem pair_sublist_iff {α : Type} {cmp : α → α → Ordering} [TransCmp cmp] {l : List α} {a b : α}
    (h : l.Pairwise fun a b => cmp a b = .lt) (ha : a ∈ l) (hb : b ∈ l) :
    [a, b] <+ l ↔ cmp a b = .lt := by
  constructor
  · exact fun hsub => pairwise_iff_forall_sublist.mp h hsub
  · intro hlt
    obtain ⟨before, behind, rfl⟩ := append_of_mem ha
    obtain ⟨_, hbehind, hcross⟩ := pairwise_append.mp h
    rcases mem_append.mp hb with hb | hb
    · have hgt : cmp b a = .lt := hcross b hb a mem_cons_self
      cases (OrientedCmp.gt_of_lt hlt).symm.trans hgt
    · rcases mem_cons.mp hb with rfl | hb
      · cases ReflCmp.compare_self.symm.trans hlt
      · exact (cons_sublist_cons.mpr (singleton_sublist.mpr hb)).trans (sublist_append_right _ _)

/-- Of two rows with equal keys, that of the later window is given first exactly if its label comes
first. -/
theorem Opened.given_first_iff {windows : List SourceWindow} {inputs : List (MergeInput ChangeRow)}
    {stream : ChangeStream} (h : Opened windows inputs stream) {i j : Nat} (hij : i < j)
    {v v' : SourceWindow} (hi : windows[i]? = some v) (hj : windows[j]? = some v') {r s : ChangeRow}
    (hkeys : r.compareKeys s = .eq) (hr : (i, r) ∈ stream.merge.drain.1)
    (hs : (j, s) ∈ stream.merge.drain.1) :
    [(j, s), (i, r)] <+ stream.merge.drain.1 ↔ compare v'.label v.label = .lt := by
  have hsorted := (Merge.sound_start h.start_eq).drain_ascending
  have hcompare : Merge.compareGiven stream.merge.labels (j, s) (i, r) =
      (compare v'.label v.label).then .gt := by
    have hkeys : MergeRow.compareKeys s r = .eq := OrientedCmp.eq_comm.mp hkeys
    rw [Merge.compareGiven, hkeys, Ordering.eq_then, h.merge_labels]
    simp [hi, hj, Nat.compare_eq_gt.mpr hij]
  rw [pair_sublist_iff hsorted hs hr, hcompare, Ordering.then_eq_lt]
  simp

/-! ## Windows of an interval -/

namespace Planner

open Program (Ends)

variable {rules : Rules} {sources : List CaptureInstance} {first last : Lsn} {w w' : World}

theorem sorted_of_ends_plan {windows : List SourceWindow}
    (h : Ends rules.answers (plan sources first last).run w (.ok windows) w') :
    windows.Pairwise fun v v' => windowLE v v' := by
  obtain ⟨found, _, _, h⟩ := CaptureStep.ends_bind_ok.mp h
  rw [Except.ok.inj (CaptureStep.ends_pure.mp h).1]
  exact pairwise_mergeSort_windowLE found

theorem pairwise_labels_iff (windows : List SourceWindow) :
    (windows.map SourceWindow.label).Pairwise (fun a b => (compare a b).isLE) ↔
      windows.Pairwise fun v v' => ¬ v'.source.LabelledBefore v.source := by
  rw [pairwise_map]
  refine Pairwise.iff fun v v' => ?_
  rw [← CaptureInstance.compare_label_eq_lt, ← OrientedCmp.gt_iff_lt, Ordering.isLE_iff_ne_gt]
  rfl

/-- Where no name goes on behind another one below the mark, the labels ascend. -/
theorem labels_ascend_of_sortsLike {windows : List SourceWindow}
    (h : Ends rules.answers (plan sources first last).run w (.ok windows) w')
    (hsorts : ∀ ci ∈ sources, ∀ cj ∈ sources, ci.table.SortsLike cj.table) :
    (windows.map SourceWindow.label).Pairwise fun a b => (compare a b).isLE := by
  refine pairwise_map.mpr ((sorted_of_ends_plan h).imp_of_mem fun {v v'} hv hv' hle => ?_)
  have hsortsLike := hsorts _ (isWindow_of_ends_plan h v hv).mem _ (isWindow_of_ends_plan h v' hv').mem
  cases hcompare : compareWindows v v' with
  | lt =>
      have hlt : compare v.label v'.label = .lt := hsortsLike.compare_sourceLabel hcompare
      simp [hlt]
  | eq =>
      obtain ⟨htable, hname⟩ := Ordering.then_eq_eq.mp hcompare
      have heq : v.label = v'.label := by
        rw [SourceWindow.label, CaptureInstance.label, LawfulEqOrd.eq_of_compare htable,
          LawfulEqOrd.eq_of_compare hname]
        rfl
      simp [heq]
  | gt =>
      rw [windowLE_iff, hcompare] at hle
      cases hle

/-- Windows are planned by table and name. Their labels ascend exactly if none is labelled before an
earlier one, which in one database means that its schema goes on below the point or its table below the
colon. Exactly then, of rows with equal keys, the merge gives that of the later window first. -/
theorem labels_ascend_iff {windows : List SourceWindow}
    (h : Ends rules.answers (plan sources first last).run w (.ok windows) w') :
    windows.Pairwise (fun v v' => windowLE v v' ∧
        (v.source.table.database = v'.source.table.database →
          (v'.source.LabelledBefore v.source ↔ v'.source.Overtakes v.source))) ∧
      ((windows.map SourceWindow.label).Pairwise (fun a b => (compare a b).isLE) ↔
        windows.Pairwise fun v v' => ¬ v'.source.LabelledBefore v.source) ∧
      ∀ inputs stream, Opened windows inputs stream → ∀ (i j : Nat) (v v' : SourceWindow), i < j →
        windows[i]? = some v → windows[j]? = some v' → ∀ r s : ChangeRow, r.compareKeys s = .eq →
        (i, r) ∈ stream.merge.drain.1 → (j, s) ∈ stream.merge.drain.1 →
        ([(j, s), (i, r)] <+ stream.merge.drain.1 ↔ v'.source.LabelledBefore v.source) := by
  refine ⟨(sorted_of_ends_plan h).imp fun hle => ⟨hle, fun hdatabase =>
    CaptureInstance.labelledBefore_iff_overtakes hdatabase hle⟩, pairwise_labels_iff windows, ?_⟩
  intro inputs stream hopened i j v v' hij hi hj r s hkeys hr hs
  rw [hopened.given_first_iff hij hi hj hkeys hr hs]
  exact CaptureInstance.compare_label_eq_lt

namespace SamplePlan

/-- An instance of a table that is named as the table. -/
def instanceNamed (table : String) : CaptureInstance :=
  { table := { database := "shop", schema := "dbo", table }, name := "dbo_" ++ table, objectId := 0
    startLsn := .ofNat 10, stopLsn := .null, capturedColumns := ["id"] }

/-- The window of such an instance. -/
def windowNamed (table : String) : SourceWindow :=
  { source := instanceNamed table, first := .ofNat 12, last := .ofNat 30, until? := none }

def insertion : ChangeRow :=
  { startLsn := .ofNat 15, seqval := .ofNat 1, operation := 2, values := [] }

/-- Both tables have a row at one position. -/
def rivals : List (MergeInput ChangeRow) :=
  [⟨"dbo.orders:dbo_orders", { rows := [insertion] }⟩,
    ⟨"dbo.orders2:dbo_orders2", { rows := [insertion] }⟩]

/-- The stream of the two windows, in which the row of the second one comes first. -/
def rivalStream : ChangeStream :=
  { merge :=
      { labels := rivals.map MergeInput.label
        pending := [⟨1, "dbo.orders2:dbo_orders2", insertion, { rows := [] }⟩,
          ⟨0, "dbo.orders:dbo_orders", insertion, { rows := [] }⟩]
        counts := [0, 0] }
    states := [windowNamed "orders", windowNamed "orders2"].map fun window =>
      { window, schema := { id := window.source.table, columns := [] }, projection := [] } }

theorem opened_rivals : Opened [windowNamed "orders", windowNamed "orders2"] rivals rivalStream :=
  ⟨rfl, rfl, rfl⟩

theorem plan_rivals :
    plan [instanceNamed "orders", instanceNamed "orders2"] (.ofNat 12) (.ofNat 30) =
      pure [windowNamed "orders", windowNamed "orders2"] := by
  have hwindows : windowsOf [instanceNamed "orders", instanceNamed "orders2"] (.ofNat 12) (.ofNat 30)
      [instanceNamed "orders", instanceNamed "orders2"] =
        pure [windowNamed "orders", windowNamed "orders2"] := rfl
  rw [plan, hwindows, pure_bind, mergeSort_of_pairwise (by decide)]

end SamplePlan

open SamplePlan in
/-- The window of `orders2` is planned behind that of `orders`, and its row is given first. -/
theorem labels_ascend_iff_of_sample :
    Ends Rules.lawless.answers
        (plan [instanceNamed "orders", instanceNamed "orders2"] (.ofNat 12) (.ofNat 30)).run emptyWorld
        (.ok [windowNamed "orders", windowNamed "orders2"]) emptyWorld ∧
      (instanceNamed "orders2").Overtakes (instanceNamed "orders") ∧
      [(1, insertion), (0, insertion)] <+ rivalStream.merge.drain.1 := by
  have hends : Ends Rules.lawless.answers
      (plan [instanceNamed "orders", instanceNamed "orders2"] (.ofNat 12) (.ofNat 30)).run emptyWorld
      (.ok [windowNamed "orders", windowNamed "orders2"]) emptyWorld := plan_rivals ▸ .refl _ _
  -- the digit stands against the colon
  have hovertakes : (instanceNamed "orders2").Overtakes (instanceNamed "orders") :=
    .table rfl ⟨'2', [], rfl, .inl (by decide)⟩
  obtain ⟨_, _, hgiven⟩ := labels_ascend_iff hends
  refine ⟨hends, hovertakes, ?_⟩
  exact (hgiven rivals rivalStream opened_rivals 0 1 _ _ (by decide) rfl rfl insertion insertion
    (by decide) (by decide +kernel) (by decide +kernel)).mpr (.overtaking hovertakes)

open SamplePlan in
/-- The labels of two tables, the name of one of which goes on with a digit, are not in order. -/
theorem labels_descend :
    ¬ ∀ (sources : List CaptureInstance) (first last : Lsn) (windows : List SourceWindow),
      plan sources first last = pure windows →
      (windows.map SourceWindow.label).Pairwise fun a b => (compare a b).isLE := by
  intro h
  have hlabels := h _ _ _ _ plan_rivals
  revert hlabels
  decide

end Planner

end ChangeCapture
