import ChangeCapture.Proofs.Progress

/-! # Where a capture starts -/

namespace ChangeCapture.Streamer

open CaptureStep
open Program (Ends)

/-- Where a capture starts that knows neither an offset nor a start before: it resumes after the stored
offset, begins at the configured start, or behind what was captured. -/
inductive Starts (config : Configuration) (s : Streamer) (stored : Option (Offset .sqlserver)) :
    Streamer → Prop where
  | stored {o} (h : stored = some o) : Starts config s stored (s.resumeFrom o)
  | offset {o} (h : stored = none) (hstart : config.startPosition = .ok (some (.offset o))) :
      Starts config s stored (s.resumeFrom o)
  | position {first} (h : stored = none) (hstart : config.startPosition = .ok (some (.lsn first))) :
      Starts config s stored (s.startAt first)
  | captured {first} (h : stored = none) (hstart : config.startPosition = .ok none) :
      Starts config s stored (s.startAt first)

/-- A start sets where to go on and leaves the rest. -/
theorem Starts.fresh {config : Configuration} {s s' : Streamer} {stored : Option (Offset .sqlserver)}
    (h : Starts config s stored s') : s'.fresh = s.fresh ∧ s'.registry = s.registry := by
  cases h <;> exact ⟨rfl, rfl⟩

variable {rules : Rules} {related : World → World → Prop} {inv : World → Prop} {s : Streamer}
  {w : World} {config : Configuration}

theorem quiet_loadOffset (key : String) : (Server.loadOffset key).IsQuiet :=
  ⟨trivial, fun _ => trivial⟩

theorem quiet_startAfter (watermark : Lsn) : (startAfter watermark).IsQuiet := by
  unfold startAfter
  split
  · exact quiet_pure _
  · exact quiet_increment _

/-- The store answers with what it has. -/
theorem eq_load_of_ends {key : String} {found : Option (Offset .sqlserver)} {w' : World}
    (h : Ends rules.answers (Server.loadOffset key).run w (.ok found) w') :
    found = w.store.load key := by
  obtain ⟨server, _, _, _, h⟩ := ends_request.mp h
  exact h found rfl

/-- A start that needs no first reading asks quietly, and finds out where to start or changes nothing. -/
theorem always_establishStart (hcalm : rules.Calm related) (hstore : s.hasStore = true)
    (hread : w.store.load s.offsetKey = none → config.startPosition = .ok none →
      config.snapshotMode = .never)
    (hinv : ∀ w', related w w' → inv w') :
    StepAlways rules.answers inv
      (fun result s' w' => related w w' ∧
        match result with
        | .ok _ => Starts config s (w.store.load s.offsetKey) s'
        | .error _ => s' = s)
      (establishStart config) s w := by
  unfold establishStart
  refine always_bind (always_get ?_)
  dsimp only
  rw [if_pos hstore]
  refine always_bind (always_quiet hcalm (quiet_loadOffset _) hinv fun r v hv hload => ?_)
  cases r with
  | error e => exact ⟨hv, rfl⟩
  | ok found =>
      have hfound := eq_load_of_ends hload
      cases found with
      | some o => exact always_set ⟨hv, .stored hfound.symm⟩
      | none =>
          dsimp only
          generalize hstart : config.startPosition = start
          refine always_bind (always_ofExcept ?_)
          cases start with
          | error e => exact ⟨hv, rfl⟩
          | ok start =>
              rcases start with _ | o | first
              · refine always_bind (always_quiet hcalm quiet_maxLsn
                  (fun w' h => hinv w' (hcalm.trans hv h)) fun r v' hv' _ => ?_)
                replace hv' := hcalm.trans hv hv'
                cases r with
                | error e => exact ⟨hv', rfl⟩
                | ok highest =>
                    dsimp only
                    rw [hread hfound.symm hstart]
                    refine always_bind (always_pure ?_)
                    refine always_bind (always_quiet hcalm (quiet_startAfter highest)
                      (fun w' h => hinv w' (hcalm.trans hv' h)) fun r u hu _ => ?_)
                    cases r with
                    | error e => exact ⟨hcalm.trans hv' hu, rfl⟩
                    | ok first =>
                        exact always_set ⟨hcalm.trans hv' hu, .captured hfound.symm hstart⟩
              · exact always_set ⟨hv, .offset hfound.symm hstart⟩
              · exact always_set ⟨hv, .position hfound.symm hstart⟩

end ChangeCapture.Streamer
