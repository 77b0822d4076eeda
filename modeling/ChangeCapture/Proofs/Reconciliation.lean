import ChangeCapture.Proofs.Registry

/-! # Reconciling listings

A reconciliation puts every name that was known or is listed into one of three classes, and over some
reconciliations the known names are those that were added and have not disappeared since. -/

namespace ChangeCapture

open List

/-! ## The last instance of a name -/

namespace Registry

/-- The last instance of a name in a listing. -/
def lastOf? (sources : List CaptureInstance) (name : String) : Option CaptureInstance :=
  sources.reverse.find? fun ci => ci.name = name

variable {sources : List CaptureInstance} {name : String} {ci : CaptureInstance}

theorem lastOf?_append (sources : List CaptureInstance) (ci : CaptureInstance) (name : String) :
    lastOf? (sources ++ [ci]) name = if ci.name = name then some ci else lastOf? sources name := by
  rw [lastOf?, reverse_append, reverse_singleton, singleton_append, find?_cons]
  split <;> simp_all [lastOf?]

theorem getElem?_byName (sources : List CaptureInstance) (name : String) :
    (byName sources)[name]? = lastOf? sources name := by
  induction sources using List.reverseRecOn with
  | nil => simp [byName, lastOf?]
  | append_singleton sources ci ih => rw [getElem?_byName_append, lastOf?_append, ih]

/-- The names of a list that holds what is found under its names, where something is so. -/
theorem mem_names_iff (found : String → Option CaptureInstance) (P : String → Prop)
    (hkeyed : ∀ name ci, found name = some ci → ci.name = name)
    (hmem : ∀ ci, ci ∈ sources ↔ found ci.name = some ci ∧ P ci.name) :
    name ∈ sources.map CaptureInstance.name ↔ found name ≠ none ∧ P name := by
  rw [mem_map, Option.ne_none_iff_exists']
  constructor
  · rintro ⟨ci, hci, rfl⟩
    obtain ⟨hfound, hholds⟩ := (hmem ci).mp hci
    exact ⟨⟨ci, hfound⟩, hholds⟩
  · rintro ⟨⟨ci, hci⟩, hholds⟩
    obtain rfl := hkeyed name ci hci
    exact ⟨ci, (hmem ci).mpr ⟨hci, hholds⟩, rfl⟩

theorem lastOf?_eq_none : lastOf? sources name = none ↔ name ∉ sources.map CaptureInstance.name := by
  simp [lastOf?]

end Registry

/-! ## Snapshots -/

namespace RegistrySnapshot

open Registry (lastOf? Keyed)

variable {snapshot : RegistrySnapshot} {latest : List CaptureInstance} {ci : CaptureInstance}
  {name : String} {s : Standing}

theorem keyed_ofList (sources : List CaptureInstance) : Keyed (ofList sources).sources :=
  Registry.keyed_byName sources

@[simp] theorem get?_ofList (sources : List CaptureInstance) (name : String) :
    (ofList sources).get? name = lastOf? sources name := Registry.getElem?_byName sources name

theorem mem_toList (h : Keyed snapshot.sources) :
    ci ∈ snapshot.toList ↔ snapshot.get? ci.name = some ci := by
  refine Registry.mem_values.trans ⟨?_, fun hci => ⟨_, hci⟩⟩
  rintro ⟨name, hname⟩
  rw [h name ci hname]
  exact hname

theorem mem_names_toList (h : Keyed snapshot.sources) :
    name ∈ snapshot.toList.map CaptureInstance.name ↔ snapshot.get? name ≠ none := by
  simpa using Registry.mem_names_iff snapshot.get? (fun _ => True) h fun ci => by simp [mem_toList h]

theorem nodup_names_toList (h : Keyed snapshot.sources) :
    (snapshot.toList.map CaptureInstance.name).Nodup := Registry.nodup_names_values h

theorem length_toList (snapshot : RegistrySnapshot) : snapshot.toList.length = snapshot.size := by
  rw [toList, Registry.values_eq, length_map, Std.TreeMap.length_toList]
  rfl

/-! ## One reconciliation -/

/-- The listed instances that stand in some way to what was known. -/
def listedAs (snapshot : RegistrySnapshot) (latest : List CaptureInstance) (s : Standing) :
    List CaptureInstance := (ofList latest).toList.filter fun ci => snapshot.standing ci = s

/-- The known instances whose names are not listed any more. -/
def gone (snapshot : RegistrySnapshot) (latest : List CaptureInstance) : List CaptureInstance :=
  snapshot.toList.filter fun ci => ((ofList latest).get? ci.name).isNone

theorem added_reconcile : (snapshot.reconcile latest).added = snapshot.listedAs latest .added := rfl

theorem retired_reconcile :
    (snapshot.reconcile latest).retired = snapshot.listedAs latest .retired ++ snapshot.gone latest :=
  rfl

theorem unchanged_reconcile :
    (snapshot.reconcile latest).unchanged = (snapshot.listedAs latest .unchanged).length := rfl

@[simp] theorem snapshot_reconcile : (snapshot.reconcile latest).snapshot = ofList latest := rfl

theorem standing_eq_added : snapshot.standing ci = .added ↔ snapshot.get? ci.name = none := by
  unfold standing
  cases snapshot.get? ci.name with
  | none => simp
  | some known =>
      dsimp only
      split <;> simp

theorem standing_eq_retired :
    snapshot.standing ci = .retired ↔
      ∃ known, snapshot.get? ci.name = some known ∧ ¬ known.isRetired ∧ ci.isRetired := by
  unfold standing
  cases snapshot.get? ci.name with
  | none => simp
  | some known =>
      dsimp only
      split <;> simp_all

theorem standing_eq_unchanged :
    snapshot.standing ci = .unchanged ↔
      ∃ known, snapshot.get? ci.name = some known ∧ (known.isRetired ∨ ¬ ci.isRetired) := by
  unfold standing
  cases snapshot.get? ci.name with
  | none => simp
  | some known =>
      dsimp only
      split <;> simp_all [imp_iff_not_or]

theorem mem_listedAs :
    ci ∈ snapshot.listedAs latest s ↔
      lastOf? latest ci.name = some ci ∧ snapshot.standing ci = s := by
  rw [listedAs, mem_filter, mem_toList (keyed_ofList latest), get?_ofList, decide_eq_true_iff]

theorem mem_added : ci ∈ (snapshot.reconcile latest).added ↔
    lastOf? latest ci.name = some ci ∧ snapshot.get? ci.name = none := by
  rw [added_reconcile, mem_listedAs, standing_eq_added]

theorem mem_gone (h : Keyed snapshot.sources) :
    ci ∈ snapshot.gone latest ↔ snapshot.get? ci.name = some ci ∧ lastOf? latest ci.name = none := by
  rw [gone, mem_filter, mem_toList h, get?_ofList, Option.isNone_iff_eq_none]

theorem mem_names_gone (h : Keyed snapshot.sources) :
    name ∈ (snapshot.gone latest).map CaptureInstance.name ↔
      snapshot.get? name ≠ none ∧ lastOf? latest name = none :=
  Registry.mem_names_iff snapshot.get? (lastOf? latest · = none) h fun _ => mem_gone h

/-- The listed instances are divided by how they stand. -/
theorem perm_listedAs (snapshot : RegistrySnapshot) (latest : List CaptureInstance) :
    snapshot.listedAs latest .added ++ (snapshot.listedAs latest .retired ++
      snapshot.listedAs latest .unchanged) ~ (ofList latest).toList := by
  unfold listedAs
  induction (ofList latest).toList with
  | nil => simp
  | cons ci rest ih =>
      cases h : snapshot.standing ci with
      | added => simpa [h] using ih
      | retired => simpa [h] using perm_middle.trans (ih.cons ci)
      | unchanged =>
          rw [← append_assoc] at ih ⊢
          simpa [h] using perm_middle.trans (ih.cons ci)

/-- The three classes make up what is listed and what has disappeared. -/
theorem perm_classes (snapshot : RegistrySnapshot) (latest : List CaptureInstance) :
    (snapshot.reconcile latest).added ++ (snapshot.reconcile latest).retired ++
        snapshot.listedAs latest .unchanged ~
      (ofList latest).toList ++ snapshot.gone latest := by
  rw [added_reconcile, retired_reconcile]
  refine Perm.trans ?_ ((snapshot.perm_listedAs latest).append_right _)
  simp only [append_assoc]
  exact ((perm_append_comm).append_left _).append_left _

theorem disjoint_gone (h : Keyed snapshot.sources) :
    ((ofList latest).toList.map CaptureInstance.name).Disjoint
      ((snapshot.gone latest).map CaptureInstance.name) := by
  intro name hlisted hgone
  obtain ⟨ci, hci, rfl⟩ := mem_map.mp hlisted
  obtain ⟨known, hknown, hname⟩ := mem_map.mp hgone
  rw [mem_toList (keyed_ofList latest), get?_ofList] at hci
  rw [mem_gone h, hname, hci] at hknown
  cases hknown.2

/-- What is counted is what is listed now. -/
theorem length_classes (h : Keyed snapshot.sources) :
    (snapshot.reconcile latest).added.length + (snapshot.reconcile latest).unchanged +
        ((snapshot.reconcile latest).retired.filter fun ci => ((ofList latest).get? ci.name).isSome).length =
      (ofList latest).size := by
  have hlisted : (snapshot.listedAs latest .retired).filter
      (fun ci => ((ofList latest).get? ci.name).isSome) = snapshot.listedAs latest .retired :=
    filter_eq_self.mpr fun ci hci => by simp [(mem_listedAs.mp hci).1]
  have hgone : (snapshot.gone latest).filter (fun ci => ((ofList latest).get? ci.name).isSome) = [] :=
    filter_eq_nil_iff.mpr fun ci hci => by simp [((mem_gone h).mp hci).2]
  have hlength := (snapshot.perm_listedAs latest).length_eq
  rw [length_append, length_append, length_toList] at hlength
  rw [added_reconcile, unchanged_reconcile, retired_reconcile, filter_append, hlisted, hgone, append_nil]
  omega

end RegistrySnapshot

/-! ## What a reconciliation says -/

open Registry (lastOf?) in
/-- A reconciliation with the listed instances that it only counts: each name that was known or is listed
stands in one of three classes, once. -/
structure RegistryDiff.Classifies (diff : RegistryDiff) (snapshot : RegistrySnapshot)
    (latest kept : List CaptureInstance) : Prop where
  /-- The new snapshot has the last instance of each name. -/
  last : ∀ name, diff.snapshot.get? name = lastOf? latest name
  once : ((diff.added ++ diff.retired ++ kept).map CaptureInstance.name).Nodup
  all : ∀ name, name ∈ (diff.added ++ diff.retired ++ kept).map CaptureInstance.name ↔
    name ∈ snapshot.toList.map CaptureInstance.name ∨ name ∈ latest.map CaptureInstance.name
  /-- What is added was not known. -/
  mem_added : ∀ ci, ci ∈ diff.added ↔ lastOf? latest ci.name = some ci ∧ snapshot.get? ci.name = none
  /-- What is retired has stopped since, or is not listed any more. -/
  mem_retired : ∀ ci, ci ∈ diff.retired ↔
    (lastOf? latest ci.name = some ci ∧
      ∃ known, snapshot.get? ci.name = some known ∧ ¬ known.isRetired ∧ ci.isRetired) ∨
    snapshot.get? ci.name = some ci ∧ lastOf? latest ci.name = none
  mem_kept : ∀ ci, ci ∈ kept ↔ lastOf? latest ci.name = some ci ∧
    ∃ known, snapshot.get? ci.name = some known ∧ (known.isRetired ∨ ¬ ci.isRetired)
  unchanged : diff.unchanged = kept.length
  size : diff.added.length + diff.unchanged +
    (diff.retired.filter fun ci => (diff.snapshot.get? ci.name).isSome).length = diff.snapshot.size

namespace RegistrySnapshot

open Registry (lastOf? Keyed)

variable {snapshot : RegistrySnapshot} {latest : List CaptureInstance} {ci : CaptureInstance}
  {name : String}

theorem classifies_reconcile (h : Keyed snapshot.sources) (latest : List CaptureInstance) :
    (snapshot.reconcile latest).Classifies snapshot latest (snapshot.listedAs latest .unchanged) where
  last name := get?_ofList latest name
  once := by
    refine (((snapshot.perm_classes latest).map CaptureInstance.name).nodup_iff).mpr ?_
    rw [map_append]
    refine (nodup_names_toList (keyed_ofList latest)).append ?_ (disjoint_gone h)
    exact (nodup_names_toList h).sublist (filter_sublist.map _)
  all name := by
    rw [((snapshot.perm_classes latest).map CaptureInstance.name).mem_iff, map_append, mem_append,
      mem_names_gone h, mem_names_toList h, mem_names_toList (keyed_ofList latest), get?_ofList, ne_eq,
      Registry.lastOf?_eq_none, not_not]
    tauto
  mem_added _ := mem_added
  mem_retired ci := by rw [retired_reconcile, mem_append, mem_listedAs, standing_eq_retired, mem_gone h]
  mem_kept ci := by rw [mem_listedAs, standing_eq_unchanged]
  unchanged := rfl
  size := length_classes h

theorem mem_names_added :
    name ∈ (snapshot.reconcile latest).added.map CaptureInstance.name ↔
      lastOf? latest name ≠ none ∧ snapshot.get? name = none := by
  have hkeyed (name : String) (ci : CaptureInstance) (hlast : lastOf? latest name = some ci) :
      ci.name = name := keyed_ofList latest name ci ((get?_ofList latest name).trans hlast)
  exact Registry.mem_names_iff (lastOf? latest) (snapshot.get? · = none) hkeyed fun _ => mem_added

end RegistrySnapshot

/-! ## Chains of reconciliations -/

/-- The instances that were known and are not listed any more. -/
def RegistryDiff.disappeared (diff : RegistryDiff) : List CaptureInstance :=
  diff.retired.filter fun ci => (diff.snapshot.get? ci.name).isNone

/-- A name was added and has not disappeared since. -/
def AddedSince (name : String) (diffs : List RegistryDiff) : Prop :=
  ∃ before diff later, diffs = before ++ diff :: later ∧
    name ∈ diff.added.map CaptureInstance.name ∧
    ∀ next ∈ later, name ∉ next.disappeared.map CaptureInstance.name

theorem addedSince_cons {name : String} {diff : RegistryDiff} {diffs : List RegistryDiff} :
    AddedSince name (diff :: diffs) ↔
      (name ∈ diff.added.map CaptureInstance.name ∧
        ∀ next ∈ diffs, name ∉ next.disappeared.map CaptureInstance.name) ∨ AddedSince name diffs := by
  constructor
  · rintro ⟨before, first, later, hsplit, hadded, hlater⟩
    cases before with
    | nil =>
        obtain ⟨rfl, rfl⟩ := cons.inj hsplit
        exact .inl ⟨hadded, hlater⟩
    | cons _ before => exact .inr ⟨before, first, later, (cons.inj hsplit).2, hadded, hlater⟩
  · rintro (⟨hadded, hlater⟩ | ⟨before, first, later, rfl, hadded, hlater⟩)
    · exact ⟨[], diff, diffs, rfl, hadded, hlater⟩
    · exact ⟨diff :: before, first, later, rfl, hadded, hlater⟩

namespace RegistrySnapshot

open Registry (lastOf? Keyed)

variable {snapshot : RegistrySnapshot} {latest : List CaptureInstance} {name : String}

/-- Reconciles with some listings one after another: the diffs, and what is known then. -/
def reconcileAll (snapshot : RegistrySnapshot) :
    List (List CaptureInstance) → List RegistryDiff × RegistrySnapshot
  | [] => ([], snapshot)
  | latest :: listings =>
      let diff := snapshot.reconcile latest
      let (diffs, last) := diff.snapshot.reconcileAll listings
      (diff :: diffs, last)

theorem disappeared_reconcile (h : Keyed snapshot.sources) :
    (snapshot.reconcile latest).disappeared = snapshot.gone latest := by
  have hlisted : (snapshot.listedAs latest .retired).filter
      (fun ci => ((ofList latest).get? ci.name).isNone) = [] :=
    filter_eq_nil_iff.mpr fun ci hci => by simp [(mem_listedAs.mp hci).1]
  have hgone : (snapshot.gone latest).filter (fun ci => ((ofList latest).get? ci.name).isNone) =
      snapshot.gone latest := filter_eq_self.mpr fun ci hci => by simp [((mem_gone h).mp hci).2]
  rw [RegistryDiff.disappeared, retired_reconcile, filter_append, snapshot_reconcile, hlisted, hgone,
    nil_append]

/-- A name is known after a reconciliation if it was added, or if it was known and has not disappeared. -/
theorem get?_reconcile_ne_none (h : Keyed snapshot.sources) :
    (snapshot.reconcile latest).snapshot.get? name ≠ none ↔
      name ∈ (snapshot.reconcile latest).added.map CaptureInstance.name ∨
        snapshot.get? name ≠ none ∧
          name ∉ (snapshot.reconcile latest).disappeared.map CaptureInstance.name := by
  rw [mem_names_added, disappeared_reconcile h, mem_names_gone h, snapshot_reconcile, get?_ofList]
  tauto

/-- After any reconciliations, what was added and what was known at first is known, unless it has
disappeared since. -/
theorem get?_reconcileAll_ne_none (h : Keyed snapshot.sources) (listings : List (List CaptureInstance)) :
    (snapshot.reconcileAll listings).2.get? name ≠ none ↔
      (snapshot.get? name ≠ none ∧ ∀ diff ∈ (snapshot.reconcileAll listings).1,
        name ∉ diff.disappeared.map CaptureInstance.name) ∨
      AddedSince name (snapshot.reconcileAll listings).1 := by
  induction listings generalizing snapshot with
  | nil => simp [reconcileAll, AddedSince]
  | cons latest listings ih =>
      have hkeyed : Keyed (snapshot.reconcile latest).snapshot.sources := keyed_ofList latest
      rw [reconcileAll]
      dsimp only
      rw [ih hkeyed, get?_reconcile_ne_none h, addedSince_cons, forall_mem_cons]
      tauto

end RegistrySnapshot

/-- A reconciliation classifies the names of any two listings, and after a chain of them exactly the names
are known that were added and have not disappeared since; what a chain begins with counts as added. -/
theorem reconciles_names (known : List CaptureInstance) :
    (∀ latest, ∃ kept,
      ((RegistrySnapshot.ofList known).reconcile latest).Classifies (.ofList known) latest kept) ∧
    (∀ listings name,
      ((RegistrySnapshot.ofList known).reconcileAll listings).2.get? name ≠ none ↔
        (name ∈ known.map CaptureInstance.name ∧
          ∀ diff ∈ ((RegistrySnapshot.ofList known).reconcileAll listings).1,
            name ∉ diff.disappeared.map CaptureInstance.name) ∨
        AddedSince name ((RegistrySnapshot.ofList known).reconcileAll listings).1) ∧
    ∀ listings name, (({} : RegistrySnapshot).reconcileAll listings).2.get? name ≠ none ↔
      AddedSince name (({} : RegistrySnapshot).reconcileAll listings).1 := by
  have hkeyed := RegistrySnapshot.keyed_ofList known
  refine ⟨fun latest => ⟨_, RegistrySnapshot.classifies_reconcile hkeyed latest⟩,
    fun listings name => ?_, fun listings name => ?_⟩
  · rw [RegistrySnapshot.get?_reconcileAll_ne_none hkeyed, RegistrySnapshot.get?_ofList, ne_eq,
      Registry.lastOf?_eq_none, not_not]
  · have hkeyed : Registry.Keyed ({} : RegistrySnapshot).sources := RegistrySnapshot.keyed_ofList []
    have hempty : ({} : RegistrySnapshot).get? name = none := RegistrySnapshot.get?_ofList [] name
    rw [RegistrySnapshot.get?_reconcileAll_ne_none hkeyed, hempty]
    simp

end ChangeCapture
