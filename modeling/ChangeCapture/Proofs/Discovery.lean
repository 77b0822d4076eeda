import ChangeCapture.Proofs.Registry

/-! # What an interval finds out about capture instances -/

namespace ChangeCapture

open List CaptureStep
open Program (Ends)

/-! ## Listings -/

namespace Registry

variable {rules : Rules} {database : String} {filter : TableFilter} {w w' : World}
  {latest : List CaptureInstance}

/-- The listing was asked for once, and what it has of the captured tables is known. -/
theorem ends_listSources
    (h : Ends rules.answers (listSources database filter).run w (.ok latest) w') :
    ∃ rows : List ListedInstance, rules.answers w (.server .listInstances) (Except.ok rows) w' ∧
      instancesOf database filter rows = .ok latest := by
  obtain ⟨rows, v, hlist, h⟩ := ends_bind_ok.mp h
  obtain ⟨hlatest, rfl⟩ := ends_ofExcept.mp h
  exact ⟨rows, ends_request.mp (ends_mapError_ok.mp hlist), hlatest.symm⟩

/-- New instances are looked up in a listing by the names that the server gives. -/
theorem ends_listNewSources {first last : Lsn} {found : List CaptureInstance}
    (h : Ends rules.answers (listNewSources database filter first last).run w (.ok found) w') :
    ∃ v names, rules.answers w (.server (.listNewInstances first last))
        (Except.ok names : Except CaptureError (List String)) v ∧
      (names = [] ∧ found = [] ∨ ∃ latest,
        Ends rules.answers (listSources database filter).run v (.ok latest) w' ∧
          found = pick (byName latest) names) := by
  obtain ⟨names, v, hask, h⟩ := ends_bind_ok.mp h
  refine ⟨v, names, ends_request.mp (ends_mapError_ok.mp hask), ?_⟩
  split at h
  · rename_i hnames
    exact .inl ⟨List.isEmpty_iff.mp hnames, Except.ok.inj (ends_pure.mp h).1⟩
  · obtain ⟨latest, v', hlist, h⟩ := ends_bind_ok.mp h
    obtain ⟨hfound, rfl⟩ := ends_pure.mp h
    exact .inr ⟨latest, hlist, Except.ok.inj hfound⟩

/-- The listing of a lawful server is the one that it has. -/
theorem instancesOf_of_ends_listSources (hrules : rules.Lawful)
    (h : Ends rules.answers (listSources database filter).run w (.ok latest) w') :
    instancesOf database filter w.server.listing = .ok latest := by
  obtain ⟨rows, ⟨server, hdrift, hserves, _⟩, hlatest⟩ := ends_listSources h
  have hrows : rows = server.listing := hrules.serves hserves rows rfl
  rwa [hrows, (hrules.drifts hdrift).listing] at hlatest

/-- What a lawful server finds is listed, and it finds every instance that starts in the range. -/
theorem mem_of_ends_listNewSources (hrules : rules.Lawful)
    (hlatest : instancesOf database filter w.server.listing = .ok latest) {first last : Lsn}
    {found : List CaptureInstance}
    (h : Ends rules.answers (listNewSources database filter first last).run w (.ok found) w')
    (ci : CaptureInstance) :
    (ci ∈ found → (byName latest)[ci.name]? = some ci) ∧
      ((byName latest)[ci.name]? = some ci → ¬ ci.startLsn.isNull →
        ci.startLsn.inRange first last → ci ∈ found) := by
  obtain ⟨v, names, hask, hfound⟩ := ends_listNewSources h
  have hpick : found = pick (byName latest) names := by
    rcases hfound with ⟨rfl, rfl⟩ | ⟨latest', hlist, rfl⟩
    · rfl
    · have hlatest' := instancesOf_of_ends_listSources hrules hlist
      rw [(hrules.extends hask).listing, hlatest] at hlatest'
      rw [Except.ok.inj hlatest']
  obtain ⟨server, hdrift, hserves, _⟩ := hask
  have hnames := hrules.serves hserves names rfl
  rw [(hrules.drifts hdrift).listing] at hnames
  subst hpick
  refine ⟨fun hci => ?_, fun hci hnull hrange => ?_⟩
  · obtain ⟨name, hname⟩ := exists_of_mem_pick hci
    rwa [keyed_byName _ _ _ hname]
  · obtain ⟨row, hrow, hinstance⟩ :=
      exists_row_of_mem_instancesOf hlatest (mem_of_getElem?_byName hci)
    obtain ⟨hname, _, hstart⟩ := ListedInstance.of_toInstance hinstance
    exact mem_pick hci
      ((hnames ci.name).mpr ⟨row, hrow, hname.symm, ci.startLsn, hstart, by simpa using hnull, hrange⟩)

theorem quiet_listSources : (listSources database filter).IsQuiet :=
  quiet_bind (quiet_mapError (x := Server.listInstances) (quiet_server _) _) fun _ =>
    quiet_ofExcept _

theorem quiet_listNewSources {first last : Lsn} :
    (listNewSources database filter first last).IsQuiet := by
  refine quiet_bind (quiet_mapError (x := Server.listNewInstances first last) (quiet_server _) _)
    fun names => ?_
  split
  · exact quiet_pure _
  · exact quiet_bind quiet_listSources fun _ => quiet_pure _

end Registry

/-! ## Reconciliation -/

namespace Streamer

open Registry

variable {rules : Rules} {s : Streamer} {w w' : World} {last : Lsn} {diff : RegistryDiff}

/-- New instances are looked for; there is something to which they are added. -/
structure Seeks (s : Streamer) : Prop where
  known : ¬ s.registry.isEmpty
  last : ¬ s.lastFrom.isNull

/-- The instances from which the snapshot of an interval that ends at `last` is made. -/
inductive Relisted (rules : Rules) (s : Streamer) (last : Lsn) (w w' : World) :
    List CaptureInstance → Prop where
  | all {latest} (h : Ends rules.answers (listSources s.database s.filter).run w (.ok latest) w') :
      Relisted rules s last w w' latest
  | known {found} (hseeks : s.Seeks)
      (h : Ends rules.answers
        (listNewSources s.database s.filter s.lastFrom last).run w (.ok found) w')
      (hknown : ∀ ci ∈ found, s.registry.get? ci.name ≠ none) :
      Relisted rules s last w w' s.registry.toList
  | extended {found} (hseeks : s.Seeks)
      (h : Ends rules.answers
        (listNewSources s.database s.filter s.lastFrom last).run w (.ok found) w') :
      Relisted rules s last w w' (s.registry.toList ++ found)

theorem ends_reconcileRegistry
    (h : Ends rules.answers (reconcileRegistry s last).run w (.ok diff) w') :
    ∃ latest, Relisted rules s last w w' latest ∧ diff.snapshot = .ofList latest := by
  unfold reconcileRegistry at h
  dsimp only at h
  split at h
  · obtain ⟨latest, v, hlist, h⟩ := ends_bind_ok.mp h
    obtain ⟨hdiff, rfl⟩ := ends_pure.mp h
    exact ⟨latest, .all hlist, by rw [Except.ok.inj hdiff]; rfl⟩
  · rename_i hstale
    have hseeks : s.Seeks := by
      constructor <;> simp_all
    obtain ⟨found, v, hfound, h⟩ := ends_bind_ok.mp h
    split at h
    · rename_i hall
      obtain ⟨hdiff, rfl⟩ := ends_pure.mp h
      refine ⟨_, .known hseeks hfound fun ci hci hnone => ?_, by rw [Except.ok.inj hdiff]; rfl⟩
      simpa [hnone] using List.all_eq_true.mp hall ci hci
    · obtain ⟨hdiff, rfl⟩ := ends_pure.mp h
      exact ⟨_, .extended hseeks hfound, by rw [Except.ok.inj hdiff]; rfl⟩

theorem quiet_reconcileRegistry : (reconcileRegistry s last).IsQuiet := by
  unfold reconcileRegistry
  dsimp only
  split
  · exact quiet_bind quiet_listSources fun _ => quiet_pure _
  · refine quiet_bind quiet_listNewSources fun found => ?_
    split <;> exact quiet_pure _

/-- Whatever the server answers, plain instances are taken over only. -/
theorem isPlain_of_relisted {latest : List CaptureInstance}
    (hs : ∀ ci ∈ s.registry.toList, ci.IsPlain) (h : Relisted rules s last w w' latest) :
    ∀ ci ∈ latest, ci.IsPlain := by
  cases h with
  | all h =>
      obtain ⟨rows, _, hlatest⟩ := ends_listSources h
      exact isPlain_of_instancesOf hlatest
  | known => exact hs
  | extended _ h =>
      intro ci hci
      rcases mem_append.mp hci with hci | hci
      · exact hs ci hci
      · obtain ⟨_, _, _, ⟨_, rfl⟩ | ⟨latest, hlist, rfl⟩⟩ := ends_listNewSources h
        · cases hci
        · obtain ⟨rows, _, hlatest⟩ := ends_listSources hlist
          obtain ⟨name, hname⟩ := exists_of_mem_pick hci
          exact isPlain_of_instancesOf hlatest ci (mem_of_getElem?_byName hname)

/-- What is known is listed, and what is listed besides starts where new instances are looked for. -/
structure Reflects (s : Streamer) (latest : List CaptureInstance) : Prop where
  listed : ∀ {name : String} {ci}, s.registry.sources[name]? = some ci →
    (byName latest)[name]? = some ci
  sought : ∀ {name : String} {ci}, (byName latest)[name]? = some ci →
    s.registry.sources[name]? = none → s.lastFrom ≤ ci.startLsn ∧ ci.startLsn ≤ s.nextFrom

/-- What is known of capture instances, if anything, reflects the listing of the server. -/
def Knows (s : Streamer) (server : CapturedServer) : Prop :=
  s.registry.isEmpty ∨ ∃ latest,
    instancesOf s.database s.filter server.listing = .ok latest ∧ s.Reflects latest

/-- What is committed, and whether all is asked for, does not matter. -/
theorem Knows.wait {server : CapturedServer} (h : s.Knows server)
    (tracker : OffsetTracker .sqlserver) (registryStale : Bool) :
    Knows { s with tracker, registryStale } server :=
  h.imp_right fun ⟨latest, hlatest, hknown⟩ => ⟨latest, hlatest, hknown.listed, hknown.sought⟩

namespace Reflects

variable {latest found : List CaptureInstance} {ci : CaptureInstance}

theorem of_equiv (h : s.registry.sources.Equiv (byName latest)) : s.Reflects latest where
  listed hname := h.getElem?_eq.symm.trans hname
  sought hname hnone := by
    rw [h.getElem?_eq, hname] at hnone
    cases hnone

/-- What is listed but not known is found in an interval. -/
theorem mem_found (hrules : rules.Lawful) (h : s.Reflects latest) (hseeks : s.Seeks)
    (hlast : s.nextFrom ≤ last)
    (hlatest : instancesOf s.database s.filter w.server.listing = .ok latest)
    (hfound : Ends rules.answers
      (listNewSources s.database s.filter s.lastFrom last).run w (.ok found) w')
    (hci : (byName latest)[ci.name]? = some ci) (hnew : s.registry.sources[ci.name]? = none) :
    ci ∈ found := by
  obtain ⟨hafter, hbefore⟩ := h.sought hci hnew
  refine (mem_of_ends_listNewSources hrules hlatest hfound ci).2 hci (fun hnull => ?_) ?_
  · -- no position lies before a null start, so that the last interval would start at null
    refine hseeks.last (Position.isNull_iff.mpr (le_antisymm ?_ (Position.null_le _)))
    rwa [← Position.isNull_iff.mp hnull]
  · simpa [Position.inRange] using ⟨hafter, hbefore.trans hlast⟩

/-- Together with all that is new everything listed is known. -/
theorem equiv_append (h : s.Reflects latest)
    (hfound : ∀ ci ∈ found, (byName latest)[ci.name]? = some ci)
    (hnew : ∀ ci, (byName latest)[ci.name]? = some ci → s.registry.sources[ci.name]? = none →
      ci ∈ found) :
    (byName (s.registry.toList ++ found)).Equiv (byName latest) := by
  have hkeyed : Keyed s.registry.sources := fun name ci hname => keyed_byName _ _ _ (h.listed hname)
  apply Std.TreeMap.Equiv.of_forall_constGet?_eq
  intro name
  rw [getElem?_byName_append_list, RegistrySnapshot.toList, (byName_values hkeyed).getElem?_eq]
  cases hname : (byName found)[name]? with
  | some ci =>
      have hci := hfound ci (mem_of_getElem?_byName hname)
      rw [keyed_byName _ _ _ hname] at hci
      exact hci.symm
  | none =>
      rw [Option.none_or]
      cases hknown : s.registry.sources[name]? with
      | some ci => exact (h.listed hknown).symm
      | none =>
          cases hlisted : (byName latest)[name]? with
          | none => rfl
          | some ci =>
              obtain rfl := keyed_byName _ _ _ hlisted
              obtain ⟨_, hci⟩ := exists_of_mem (hnew ci hlisted hknown)
              rw [hname] at hci
              cases hci

end Reflects

/-- A lawful server makes known what its listing has. -/
theorem equiv_of_relisted (hrules : rules.Lawful) (hs : s.Knows w.server) (hlast : s.nextFrom ≤ last)
    {relisted : List CaptureInstance} (h : Relisted rules s last w w' relisted) :
    ∃ latest, instancesOf s.database s.filter w.server.listing = .ok latest ∧
      (byName relisted).Equiv (byName latest) := by
  cases h with
  | all h => exact ⟨_, instancesOf_of_ends_listSources hrules h, .rfl⟩
  | known hseeks h hknown =>
      obtain ⟨latest, hlatest, hreflects⟩ := hs.resolve_left hseeks.known
      -- nothing that is listed is new
      have hequiv : (byName (s.registry.toList ++ [])).Equiv (byName latest) :=
        hreflects.equiv_append (by simp) fun ci hci hnone =>
          absurd hnone (hknown ci (hreflects.mem_found hrules hseeks hlast hlatest h hci hnone))
      exact ⟨latest, hlatest, by rwa [append_nil] at hequiv⟩
  | extended hseeks h =>
      obtain ⟨latest, hlatest, hreflects⟩ := hs.resolve_left hseeks.known
      exact ⟨latest, hlatest, hreflects.equiv_append
        (fun ci hci => (mem_of_ends_listNewSources hrules hlatest h ci).1 hci)
        fun _ hci hnone => hreflects.mem_found hrules hseeks hlast hlatest h hci hnone⟩

end Streamer

end ChangeCapture
