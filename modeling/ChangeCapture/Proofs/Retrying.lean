import ChangeCapture.Proofs.Runs
import ChangeCapture.Streaming.Task
import Mathlib.Algebra.Group.Nat.Defs

/-! # Calls that are repeated

A task calls what finds out where to start until that succeeds, and then what reads an interval, again and
again. Both calls share one count of failures: each success starts it anew, and the pause after a failure
grows with it. -/

namespace ChangeCapture

open List Program

/-! ## Delays -/

namespace Backoff

variable {backoff : Backoff} {j k : Nat}

theorem factor_mono (h : j ≤ k) : factor j ≤ factor k := by
  unfold factor
  by_cases hk : k < 32
  · rw [if_pos (Nat.lt_of_le_of_lt h hk), if_pos hk]
    exact Nat.pow_le_pow_right (by decide) h
  · rw [if_neg hk]
    split
    · rename_i hj
      have hpow : Nat.pow 2 j ≤ Nat.pow 2 31 :=
        Nat.pow_le_pow_right (Nat.zero_lt_succ 1) (Nat.le_of_lt_succ hj)
      exact Nat.le_trans hpow (by decide)
    · exact Nat.le_refl _

theorem delay_mono (h : j ≤ k) : backoff.delay j ≤ backoff.delay k := by
  have hbase : backoff.base * factor j ≤ backoff.base * factor k := Nat.mul_le_mul_left _ (factor_mono h)
  simp only [delay]
  omega

theorem delay_le_max : backoff.delay k ≤ backoff.max := Nat.min_le_right _ _

/-- While the base doubles, only the greatest delay bounds what it comes to. -/
theorem delay_eq (hk : k < 32) (hmax : backoff.max ≤ longest) :
    backoff.delay k = min backoff.max (backoff.base * 2 ^ k) := by
  have hfactor : factor k = 2 ^ k := if_pos hk
  rw [delay, hfactor]
  omega

end Backoff

/-! ## Calls -/

/-- What a call of a task returns: one that finds out where to start returns nothing. -/
abbrev CallResult := Except CaptureError (Option IntervalStats)

/-- The call failed, and may succeed another time. -/
def failedForNow : CallResult → Bool
  | .ok _ => false
  | .error e => e.isRetriable

/-- How many failures that may pass have followed one another at the end of some calls. -/
def failuresInRow (results : List CallResult) : Nat := (results.reverse.takeWhile failedForNow).length

theorem failuresInRow_concat (results : List CallResult) (result : CallResult) :
    failuresInRow (results ++ [result]) = if failedForNow result then failuresInRow results + 1 else 0 := by
  simp only [failuresInRow, reverse_append, reverse_singleton, singleton_append, takeWhile_cons]
  split <;> rfl

namespace CaptureTask

variable {W : Type} {answers : Answers CaptureRequest.interface W}

/-- The switch is on whenever a task looks at it. -/
def StaysOn (answers : Answers CaptureRequest.interface W) : Prop :=
  ∀ w w' answer, answers w .isActive answer w' → answer = true

/-- The call that a task makes in its phase may return a result and leave the streamer in some state. -/
inductive Returns (answers : Answers CaptureRequest.interface W) (task : CaptureTask) (w : W) :
    CallResult → Streamer → W → Prop where
  | started {result s w'} (hphase : task.phase = .starting)
      (h : Ends answers (Streamer.runStep (Streamer.establishStart task.config) task.streamer) w
        (result, s) w') : Returns answers task w (result.map fun _ => none) s w'
  | polled {v result s w'} (hphase : task.phase = .polling) (hactive : answers w .isActive true v)
      (h : Ends answers (Streamer.runStep Streamer.pollOnce task.streamer) v (result, s) w') :
      Returns answers task w result s w'

/-- What a task does when its call has returned. -/
def afterCall (task : CaptureTask) (s : Streamer) : CallResult → TaskOutcome
  | .error e => { task with streamer := s }.afterFailure e
  | .ok stats =>
      match task.phase with
      | .starting => .pause 0 { task with streamer := s, backoff := task.backoff.reset, phase := .polling }
      | .polling =>
          .pause (pauseAfter task.config stats)
            { task with streamer := s, backoff := task.backoff.reset }

variable {task task' : CaptureTask} {s : Streamer} {result : CallResult} {w w' : W} {out : TaskOutcome}

/-- An attempt to start is a call and what follows from it. -/
theorem startStep_eq (hphase : task.phase = .starting) :
    task.startStep = (Streamer.runStep (Streamer.establishStart task.config) task.streamer).andThen
      fun out => .done (task.afterCall out.2 (out.1.map fun _ => none)) := by
  apply congrArg (Program.andThen _)
  funext ⟨result, s⟩
  cases result with
  | ok _ =>
      simp only [Except.map, afterCall, hphase]
      rfl
  | error e => rfl

/-- Reading an interval is a call and what follows from it. -/
theorem pollStep_eq (hphase : task.phase = .polling) :
    task.pollStep = .ask CaptureRequest.isActive fun (active : Bool) =>
      if active then (Streamer.runStep Streamer.pollOnce task.streamer).andThen
        fun out => .done (task.afterCall out.2 out.1)
      else .done (.finished (.ok ())) := by
  apply congrArg (Program.ask _)
  funext active
  cases (active : Bool) with
  | false => rfl
  | true =>
      apply congrArg (Program.andThen (Streamer.runStep Streamer.pollOnce task.streamer))
      funext ⟨result, s⟩
      cases result with
      | ok stats =>
          simp only [afterCall, hphase]
          rfl
      | error e => rfl

/-- While the switch is on, a step of a task is a call and what follows from it. -/
theorem ends_step_iff (hon : StaysOn answers) :
    Ends answers task.step w out w' ↔
      ∃ result s, Returns answers task w result s w' ∧ out = task.afterCall s result := by
  unfold step
  cases hphase : task.phase with
  | starting =>
      rw [startStep_eq hphase, ends_andThen]
      constructor
      · rintro ⟨⟨result, s⟩, v, hcall, h⟩
        obtain ⟨hout, rfl⟩ := leads_done.mp h
        exact ⟨_, s, .started hphase hcall, done.inj hout⟩
      · rintro ⟨result, s, hcall, rfl⟩
        cases hcall with
        | started _ h => exact ⟨_, w', h, .refl _ _⟩
        | polled hpolling => cases hphase.symm.trans hpolling
  | polling =>
      dsimp only
      rw [pollStep_eq hphase]
      apply ends_ask.trans
      constructor
      · rintro ⟨active, v, hactive, h⟩
        cases hon _ _ _ hactive
        obtain ⟨⟨result, s⟩, u, hcall, h⟩ := ends_andThen.mp h
        obtain ⟨hout, rfl⟩ := leads_done.mp h
        exact ⟨result, s, .polled hphase hactive hcall, done.inj hout⟩
      · rintro ⟨result, s, hcall, rfl⟩
        cases hcall with
        | started hstarting => cases hphase.symm.trans hstarting
        | polled _ hactive h => exact ⟨_, _, hactive, ends_andThen.mpr ⟨_, w', h, .refl _ _⟩⟩

/-! ## Counting failures -/

/-- A task that is at the end of some calls: its delays go by the failures since the last success, and it
reads intervals when one of the calls has succeeded. -/
structure Counts (config : Configuration) (results : List CallResult) (task : CaptureTask) : Prop where
  configured : task.config = config
  counted : task.backoff = { config.backoff with attempt := failuresInRow results }
  within : 0 < config.maxRetries → failuresInRow results ≤ config.maxRetries
  phase : task.phase = .polling ↔ ∃ stats, .ok stats ∈ results

theorem afterFailure_eq (task : CaptureTask) (e : CaptureError) :
    task.afterFailure e =
      if e.isRetriable ∧ (0 < task.backoff.maxAttempts → task.backoff.attempt < task.backoff.maxAttempts)
      then .pause (task.backoff.delay task.backoff.attempt)
        { task with backoff := { task.backoff with attempt := task.backoff.attempt + 1 } }
      else .finished (.error e) := by
  unfold afterFailure Backoff.next
  by_cases hretry : e.isRetriable
  · by_cases hlimit : 0 < task.backoff.maxAttempts ∧ task.backoff.maxAttempts ≤ task.backoff.attempt
    · rw [if_pos hretry, if_pos hlimit, if_neg fun h => absurd (h.2 hlimit.1) (Nat.not_lt.mpr hlimit.2)]
    · rw [if_pos hretry, if_neg hlimit, if_pos]
      exact ⟨hretry, fun hpos => Nat.lt_of_not_le fun hle => hlimit ⟨hpos, hle⟩⟩
  · rw [if_neg hretry, if_neg fun h => hretry h.1]

variable {config : Configuration} {results : List CallResult}

/-- After a failure a task goes on just if the failure may pass and not too many preceded it. -/
theorem Counts.afterCall_error (h : Counts config results task) (e : CaptureError) :
    task.afterCall s (.error e) =
      if e.isRetriable ∧ (0 < config.maxRetries → failuresInRow results < config.maxRetries)
      then .pause (config.backoff.delay (failuresInRow results)) { task with
        streamer := s, backoff := { config.backoff with attempt := failuresInRow results + 1 } }
      else .finished (.error e) := by
  rw [afterCall, afterFailure_eq, h.counted]
  rfl

theorem counts_ofConfiguration (database : String) (hasStore : Bool) :
    Counts config [] (ofConfiguration config database hasStore) :=
  ⟨rfl, rfl, fun _ => Nat.zero_le _, ⟨nofun, nofun⟩⟩

/-- A call keeps the count. -/
theorem Counts.next {millis : Nat} (h : Counts config results task)
    (hnext : task.afterCall s result = .pause millis task') : Counts config (results ++ [result]) task' := by
  cases result with
  | error e =>
      rw [h.afterCall_error] at hnext
      split at hnext
      · rename_i htolerated
        have hcount : failuresInRow (results ++ [.error e]) = failuresInRow results + 1 := by
          rw [failuresInRow_concat, failedForNow, if_pos htolerated.1]
        cases hnext
        exact { configured := h.configured, counted := hcount ▸ rfl,
                within := fun hpos => hcount ▸ htolerated.2 hpos,
                phase := by simpa using h.phase }
      · cases hnext
  | ok stats =>
      have hcount : failuresInRow (results ++ [.ok stats]) = 0 := failuresInRow_concat results _
      have hreset : task.backoff.reset = { config.backoff with attempt := 0 } := by
        rw [h.counted]
        rfl
      rw [afterCall] at hnext
      split at hnext
      all_goals
        cases hnext
        exact { configured := h.configured, counted := hcount ▸ hreset,
                within := fun _ => hcount ▸ Nat.zero_le _,
                phase := by simp [*] }

/-- A failure is not tolerated if it does not pass or is one too many. -/
theorem Counts.not_tolerated_iff (h : Counts config results task) (e : CaptureError) :
    ¬ (e.isRetriable ∧ (0 < config.maxRetries → failuresInRow results < config.maxRetries)) ↔
      e.isRetriable = false ∨
        0 < config.maxRetries ∧ failuresInRow (results ++ [.error e]) = config.maxRetries + 1 := by
  have hwithin := h.within
  rw [failuresInRow_concat, failedForNow]
  cases e.isRetriable with
  | false => simp
  | true =>
      simp only [true_and, if_true, reduceCtorEq, false_or]
      omega

/-- After a call a task ends just if the call failed and no other attempt is to follow. -/
theorem Counts.finished_iff (h : Counts config results task) {final : Except CaptureError Unit} :
    task.afterCall s result = .finished final ↔ ∃ e, result = .error e ∧ final = .error e ∧
      (e.isRetriable = false ∨
        0 < config.maxRetries ∧ failuresInRow (results ++ [result]) = config.maxRetries + 1) := by
  cases result with
  | ok stats =>
      have hgoes : task.afterCall s (.ok stats) ≠ .finished final := by
        rw [afterCall]
        split <;> nofun
      exact iff_of_false hgoes nofun
  | error e =>
      rw [h.afterCall_error]
      constructor
      · intro hfinal
        split at hfinal
        · cases hfinal
        · rename_i hgiven
          cases hfinal
          exact ⟨e, rfl, rfl, (h.not_tolerated_iff e).mp hgiven⟩
      · rintro ⟨_, ⟨⟩, rfl, hgiven⟩
        exact if_neg ((h.not_tolerated_iff e).mpr hgiven)

/-- The pause after a failure is the delay that its count gives. -/
theorem Counts.pause_of_error (h : Counts config results task) {e : CaptureError} {millis : Nat}
    (hpause : task.afterCall s (.error e) = .pause millis task') :
    millis = config.backoff.delay (failuresInRow results) := by
  rw [h.afterCall_error] at hpause
  split at hpause
  · cases hpause
    rfl
  · cases hpause

/-! ## Runs -/

/-- A task that has made some calls and goes on. -/
inductive GoesOn (answers : Answers CaptureRequest.interface W) (first : CaptureTask) (w₀ : W) :
    List CallResult → CaptureTask → W → Prop where
  | start : GoesOn answers first w₀ [] first w₀
  | next {results : List CallResult} {task : CaptureTask} {w : W} {result : CallResult} {s : Streamer}
      {w' : W} {millis : Nat} {task' : CaptureTask} (h : GoesOn answers first w₀ results task w)
      (hcall : Returns answers task w result s w')
      (hpause : task.afterCall s result = .pause millis task') :
      GoesOn answers first w₀ (results ++ [result]) task' w'

theorem GoesOn.counts {w₀ : W} {database : String} {hasStore : Bool}
    (h : GoesOn answers (ofConfiguration config database hasStore) w₀ results task w) :
    Counts config results task := by
  induction h with
  | start => exact counts_ofConfiguration database hasStore
  | next _ _ hpause ih => exact ih.next hpause

/-- As long as the switch is on, a task ends just when a call fails in a way that does not pass, or fails
once more than may follow one another, and its result is that failure. Until then each failure is followed
by a pause that the failures before it determine, and each success starts their count anew. -/
theorem retries_as_configured (hon : StaysOn answers) (config : Configuration)
    (hmax : config.retryMax < UInt64.size) (database : String) (hasStore : Bool) (w₀ : W) :
    (∀ j k, j ≤ k → config.backoff.delay j ≤ config.backoff.delay k) ∧
    (∀ k, config.backoff.delay k ≤ config.retryMax) ∧
    (∀ k, k < 32 → config.backoff.delay k = min config.retryMax (config.retryInitial * 2 ^ k)) ∧
    ∀ {results : List CallResult} {task : CaptureTask} {w : W},
      GoesOn answers (ofConfiguration config database hasStore) w₀ results task w →
      (task.phase = .polling ↔ ∃ stats, .ok stats ∈ results) ∧
      (∀ out w', Ends answers task.step w out w' ↔
        ∃ result s, Returns answers task w result s w' ∧ out = task.afterCall s result) ∧
      (∀ s result final, task.afterCall s result = .finished final ↔
        ∃ e, result = .error e ∧ final = .error e ∧
          (e.isRetriable = false ∨
            0 < config.maxRetries ∧ failuresInRow (results ++ [result]) = config.maxRetries + 1)) ∧
      ∀ s e millis task', failuresInRow results < UInt32.size - 1 →
        task.afterCall s (.error e) = .pause millis task' →
        millis = config.backoff.delay (failuresInRow results) := by
  have hlongest : config.retryMax ≤ Backoff.longest := by
    have hsize : UInt64.size ≤ Backoff.longest := by decide
    exact Nat.le_trans (Nat.le_of_lt hmax) hsize
  refine ⟨fun j k => Backoff.delay_mono, fun k => Backoff.delay_le_max,
    fun k hk => Backoff.delay_eq hk hlongest, ?_⟩
  intro results task w h
  exact ⟨h.counts.phase, fun _ _ => ends_step_iff hon, fun _ _ _ => h.counts.finished_iff,
    fun _ _ _ _ _ => h.counts.pause_of_error⟩

end CaptureTask

namespace Sample

/-- Surroundings whose store cannot be reached. -/
def unreachable : Answers CaptureRequest.interface Unit := fun _ r answer _ =>
  match r, answer with
  | .isActive, (active : Bool) => active = true
  | .storage (.loadOffset _), (stored : Except CaptureError (Option (Offset .sqlserver))) =>
      stored = .error .connectionClosed
  | _, _ => True

/-- One failure is put up with. -/
def patient : Configuration := { maxRetries := 1 }

def firstTask : CaptureTask := .ofConfiguration patient "shop" true

/-- The first attempt has failed. -/
def secondTask : CaptureTask := { firstTask with backoff := { patient.backoff with attempt := 1 } }

theorem unreachable_staysOn : CaptureTask.StaysOn unreachable := fun _ _ _ h => h

theorem returns_unreachable :
    CaptureTask.Returns unreachable firstTask () (.error .connectionClosed) firstTask.streamer () := by
  have hload : unreachable () (.storage (.loadOffset patient.offsetKey))
      (Except.error .connectionClosed : Except CaptureError (Option (Offset .sqlserver))) () := rfl
  have hcall : Ends unreachable (Streamer.runStep (Streamer.establishStart firstTask.config)
      firstTask.streamer) () (.error .connectionClosed, firstTask.streamer) () :=
    .ask hload (.refl _ _)
  exact .started rfl hcall

theorem goesOn_unreachable :
    CaptureTask.GoesOn unreachable firstTask () [.error .connectionClosed] secondTask () :=
  .next .start returns_unreachable rfl

end Sample

open Sample in
/-- The second failure is one too many. -/
theorem CaptureTask.retries_as_configured_of_sample :
    GoesOn unreachable firstTask () [.error .connectionClosed] secondTask () ∧
    firstTask.afterCall firstTask.streamer (.error .connectionClosed) = .pause 500 secondTask ∧
    patient.backoff.delay 0 = 500 ∧
    secondTask.afterCall firstTask.streamer (.error .connectionClosed) =
      .finished (.error .connectionClosed) := by
  obtain ⟨-, -, hdelay, hruns⟩ :=
    retries_as_configured unreachable_staysOn patient (by decide) "shop" true ()
  obtain ⟨-, -, hfinished, -⟩ := hruns goesOn_unreachable
  have hlast : failuresInRow [.error .connectionClosed, .error .connectionClosed] = 2 := rfl
  refine ⟨goesOn_unreachable, rfl, hdelay 0 (by decide), ?_⟩
  exact (hfinished _ _ _).mpr ⟨.connectionClosed, rfl, rfl, .inr ⟨by decide, hlast⟩⟩

end ChangeCapture
