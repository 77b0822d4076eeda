import ChangeCapture.Proofs.Journal
import ChangeCapture.Proofs.Starting

/-! # Lives of a capture

A process that captures changes may crash between any two requests, and another one takes over with what
is stored. -/

namespace ChangeCapture

open List
open Program (Leads Ends)

/-! ## Lives -/

/-- What a process is doing. -/
inductive Life where
  | down
  | starting (s : Streamer)
  | polling (s : Streamer)

/-- The worlds that a life passes in its next step. -/
inductive Life.Passes (rules : Rules) (config : Configuration) : Life → World → World → Prop where
  | down {w} : Passes rules config .down w w
  | starting {s w q w'}
      (h : Leads rules.answers (Streamer.runStep (Streamer.establishStart config) s) w q w') :
      Passes rules config (.starting s) w w'
  | polling {s w q w'} (h : Leads rules.answers (Streamer.runStep Streamer.pollOnce s) w q w') :
      Passes rules config (.polling s) w w'

/-- What several lives that share a store come to. A life finds out where to start, which it may try
again, and then polls. -/
inductive Reaches (rules : Rules) (config : Configuration) (database : String) (w₀ : World) :
    Life → World → Prop where
  | refl : Reaches rules config database w₀ .down w₀
  | boot {w} (h : Reaches rules config database w₀ .down w) :
      Reaches rules config database w₀
        (.starting (Streamer.ofConfiguration config database true)) w
  | retry {s w e s' w'} (h : Reaches rules config database w₀ (.starting s) w)
      (hstart : Ends rules.answers (Streamer.runStep (Streamer.establishStart config) s) w
        (.error e, s') w') :
      Reaches rules config database w₀ (.starting s') w'
  | began {s w s' w'} (h : Reaches rules config database w₀ (.starting s) w)
      (hstart : Ends rules.answers (Streamer.runStep (Streamer.establishStart config) s) w
        (.ok (), s') w') :
      Reaches rules config database w₀ (.polling s')
        (w'.note (.began s'.nextFrom s'.tracker.committed))
  | poll {s w result s' w'} (h : Reaches rules config database w₀ (.polling s) w)
      (hpoll : Ends rules.answers (Streamer.runStep Streamer.pollOnce s) w (result, s') w') :
      Reaches rules config database w₀ (.polling s') w'
  | crash {life w w'} (h : Reaches rules config database w₀ life w)
      (hpass : life.Passes rules config w w') :
      Reaches rules config database w₀ .down (w'.note (.crashed (w'.store.load config.offsetKey)))

/-! ## What every life keeps up -/

section Lives

variable {rules : Rules} {config : Configuration} {database : String}
  {initial : Option (Offset .sqlserver)} {sources : List CaptureInstance}
  {past : List Lsn → Offset .sqlserver → Prop} {life : Life} {w w' : World}

/-- The changes in question depend on the starts that were found. At first those count that the stored
offset does not cover, and a start without a stored offset is not behind any of them. -/
structure Origin (config : Configuration) (database : String)
    (initial : Option (Offset .sqlserver)) (past : List Lsn → Offset .sqlserver → Prop) : Prop where
  rest : ∀ {o}, past [] o → ¬ (⟨initial⟩ : OffsetTracker .sqlserver).Covers o
  began : initial = none → ∀ {s starts o},
    Streamer.Starts config (Streamer.ofConfiguration config database true) none s →
    past (starts ++ (Event.began s.nextFrom s.tracker.committed).start?.toList) o →
    ¬ s.tracker.Covers o ∧ s.nextFrom ≤ o.position

/-- At any time, all that is committed of the changes in question was acknowledged. -/
structure Accounted (config : Configuration) (database : String)
    (initial : Option (Offset .sqlserver)) (sources : List CaptureInstance)
    (past : List Lsn → Offset .sqlserver → Prop) (w : World) : Prop where
  sources_eq : sources = Registry.captured database config.tableFilter w.server.listing
  exists_tracker : ∃ tracker nextFrom, Settles (past w.starts) sources tracker nextFrom w ∧
    Journal config.offsetKey initial w.starts tracker w

/-- Without a life, what is stored takes the place of what is committed. -/
structure Resting (config : Configuration) (database : String)
    (initial : Option (Offset .sqlserver)) (sources : List CaptureInstance)
    (past : List Lsn → Offset .sqlserver → Prop) (w : World) : Prop where
  sources_eq : sources = Registry.captured database config.tableFilter w.server.listing
  settles : Settles (past w.starts) sources (w.stored config.offsetKey) .null w
  journal : Journal config.offsetKey initial w.starts (w.stored config.offsetKey) w

namespace Resting

theorem accounted (h : Resting config database initial sources past w) :
    Accounted config database initial sources past w :=
  ⟨h.sources_eq, _, _, h.settles, h.journal⟩

theorem later (h : Resting config database initial sources past w) (hlater : w.Later w') :
    Resting config database initial sources past w' := by
  have hstarts : w'.starts = w.starts := by rw [World.starts, hlater.history, World.starts]
  have hstored : w'.stored config.offsetKey = w.stored config.offsetKey := by
    rw [World.stored, hlater.store, World.stored]
  refine ⟨by rw [h.sources_eq, hlater.server.listing], ?_, ?_⟩
  · rw [hstarts, hstored]
    exact h.settles.later hlater
  · rw [hstarts, hstored]
    exact h.journal.of_kept hlater.toKept

theorem initial_eq_none (h : Resting config database initial sources past w)
    (hload : w.store.load config.offsetKey = none) : initial = none := by
  cases initial with
  | none => rfl
  | some o => simpa [hload] using h.journal.lasting rfl

end Resting

/-- A crash leaves what is stored. -/
theorem Accounted.crash (h : Accounted config database initial sources past w) :
    Resting config database initial sources past
      (w.note (.crashed (w.store.load config.offsetKey))) := by
  obtain ⟨hsources, tracker, nextFrom, hsettles, hjournal⟩ := h
  have hstarts : (w.note (.crashed (w.store.load config.offsetKey))).starts = w.starts :=
    (w.starts_note _).trans (append_nil _)
  refine ⟨hsources, ?_, ?_⟩
  · rw [hstarts]
    refine Settles.note (fun o hpast hcovered => hsettles o hpast (.inl ?_)) _
    rcases hcovered with hcovers | hnull
    · exact hjournal.committed_of_stored hcovers
    · exact absurd hnull (not_lt.mpr (Position.null_le _))
  · rw [hstarts]
    exact hjournal.crash

/-- What holds in each stage of a life. -/
inductive Life.Stands (config : Configuration) (database : String)
    (initial : Option (Offset .sqlserver)) (sources : List CaptureInstance)
    (past : List Lsn → Offset .sqlserver → Prop) : Life → World → Prop where
  | down {v} (h : Resting config database initial sources past v) :
      Stands config database initial sources past .down v
  | starting {v} (h : Resting config database initial sources past v) :
      Stands config database initial sources past
        (.starting (Streamer.ofConfiguration config database true)) v
  | polling {s v} (hfresh : s.fresh = Streamer.ofConfiguration config database true)
      (h : s.Tracks (past v.starts) sources (Journal config.offsetKey initial v.starts) v) :
      Stands config database initial sources past (.polling s) v

theorem Streamer.settings_of_fresh {s : Streamer}
    (h : s.fresh = Streamer.ofConfiguration config database true) :
    s.database = database ∧ s.filter = config.tableFilter ∧ s.offsetKey = config.offsetKey :=
  ⟨congrArg (fun t : Streamer => t.database) h, congrArg (fun t : Streamer => t.filter) h,
    congrArg (fun t : Streamer => t.offsetKey) h⟩

/-- A start makes up for what was not acknowledged before. -/
theorem Resting.began (horigin : Origin config database initial past)
    (h : Resting config database initial sources past w) {s : Streamer}
    (hstart : Streamer.Starts config (Streamer.ofConfiguration config database true)
      (w.store.load config.offsetKey) s) :
    Life.Stands config database initial sources past (.polling s)
      (w.note (.began s.nextFrom s.tracker.committed)) := by
  obtain ⟨hfresh, hregistry⟩ := hstart.fresh
  obtain ⟨hdatabase, hfilter, _⟩ := Streamer.settings_of_fresh hfresh
  have hcovers : ∀ o, (w.stored config.offsetKey).Covers o → s.tracker.Covers o := by
    rintro o ⟨stored, hstored, hcovers⟩
    cases hstart with
    | stored hload => exact ⟨stored, hload.symm.trans hstored, hcovers⟩
    | offset hload | position hload | captured hload => cases hload.symm.trans hstored
  have hsettles : Settles (past (w.note (.began s.nextFrom s.tracker.committed)).starts) sources
      s.tracker s.nextFrom w := by
    intro o hpast hcovered
    rw [World.starts_note] at hpast
    cases hload : w.store.load config.offsetKey with
    | none =>
        obtain ⟨hnew, hle⟩ := horigin.began (h.initial_eq_none hload) (hload ▸ hstart) hpast
        rcases hcovered with hcovers | hlt
        · exact absurd hcovers hnew
        · exact absurd hle (not_le.mpr hlt)
    | some stored =>
        rw [hload] at hstart
        cases hstart with
        | stored hstored =>
            cases hstored
            refine h.settles o (by simpa [Event.start?, Streamer.resumeFrom] using hpast)
              (.inl ⟨stored, hload, ?_⟩)
            rcases hcovered with ⟨_, hcommitted, hcovers⟩ | hlt
            · cases hcommitted
              exact hcovers
            · exact Offset.covers_of_position_lt hlt
        | offset hnone | position hnone | captured hnone => cases hnone
  have hjournal := (h.journal.mono hcovers).note (e := .began s.nextFrom s.tracker.committed) rfl rfl
    (.inr rfl) hcovers (by simp)
  refine .polling hfresh ⟨.inl (by rw [hregistry]; rfl), ?_, hsettles.note _, ?_⟩
  · rw [hdatabase, hfilter]
    exact h.sources_eq
  · rw [World.starts_note]
    exact hjournal

/-- A start of a life that needs no first reading. -/
theorem Resting.always_establishStart (hrules : rules.Lawful)
    (hread : initial = none → config.startPosition = .ok none → config.snapshotMode = .never)
    (h : Resting config database initial sources past w) :
    Streamer.StepAlways rules.answers (Resting config database initial sources past)
      (fun result s w' => Resting config database initial sources past w' ∧
        match result with
        | .ok _ => Streamer.Starts config (Streamer.ofConfiguration config database true)
            (w'.store.load config.offsetKey) s
        | .error _ => s = Streamer.ofConfiguration config database true)
      (Streamer.establishStart config) (Streamer.ofConfiguration config database true) w := by
  refine (Streamer.always_establishStart hrules.calm rfl
    (fun hload hstart => hread (h.initial_eq_none hload) hstart)
    fun w' hlater => h.later hlater).mono fun result s w' hstart => ⟨h.later hstart.1, ?_⟩
  cases result with
  | ok u =>
      rw [hstart.1.store]
      exact hstart.2
  | error e => exact hstart.2

/-- A poll of a life. -/
theorem Life.Stands.always_pollOnce (hrules : rules.Lawful) {s : Streamer}
    (h : Life.Stands config database initial sources past (.polling s) w) :
    Streamer.StepAlways rules.answers (Accounted config database initial sources past)
      (fun result s' w' => Life.Stands config database initial sources past (.polling s') w' ∧
        w'.starts = w.starts ∧ s.Advances w result s' w')
      Streamer.pollOnce s w := by
  cases h with
  | polling hfresh h =>
      obtain ⟨hdatabase, hfilter, hkey⟩ := Streamer.settings_of_fresh hfresh
      have hsources {u : World} (hu : w.server.Extends u.server) :
          sources = Registry.captured database config.tableFilter u.server.listing := by
        rw [h.sources_eq, hdatabase, hfilter, hu.listing]
      refine (Streamer.always_pollOnce_of_tracks hrules
        (hkey ▸ Journal.runInvariant config.offsetKey initial w.starts) h).mono_inv ?_ ?_
      · rintro u ⟨hextends, tracker, nextFrom, hsettles, hjournal⟩
        refine ⟨hsources hextends, tracker, nextFrom, ?_, ?_⟩
        · rwa [hjournal.starts_eq]
        · rwa [hjournal.starts_eq]
      · rintro result s' w' ⟨hfresh', _, htracks, hadvances⟩
        have hstarts := htracks.holds.starts_eq
        exact ⟨.polling (hfresh'.trans hfresh) (by rwa [hstarts]), hstarts, hadvances⟩

theorem Life.Stands.accounted_of_polling {s : Streamer}
    (h : Life.Stands config database initial sources past (.polling s) w) :
    Accounted config database initial sources past w := by
  cases h with
  | polling hfresh h =>
      obtain ⟨hdatabase, hfilter, _⟩ := Streamer.settings_of_fresh hfresh
      exact ⟨hdatabase ▸ hfilter ▸ h.sources_eq, _, _, h.settles, h.holds⟩

/-- Wherever a life is, what is committed is accounted for. -/
theorem Life.Stands.accounted (hrules : rules.Lawful)
    (hread : initial = none → config.startPosition = .ok none → config.snapshotMode = .never)
    (h : life.Stands config database initial sources past w)
    (hpass : life.Passes rules config w w') :
    Accounted config database initial sources past w' := by
  cases hpass with
  | down =>
      cases h with
      | down h => exact h.accounted
  | starting hleads =>
      cases h with
      | starting h =>
          exact ((h.always_establishStart hrules hread).inv_of_leads (fun _ _ h => h.1)
            hleads).accounted
  | polling hleads =>
      exact (h.always_pollOnce hrules).inv_of_leads (fun _ _ h => h.1.accounted_of_polling) hleads

/-- Every step of a life keeps up what holds in its stages, and so do several lives. -/
theorem Reaches.stands (hrules : rules.Lawful) {server : CapturedServer}
    {store : OffsetMap .sqlserver}
    (hread : store.load config.offsetKey = none → config.startPosition = .ok none →
      config.snapshotMode = .never)
    (horigin : Origin config database (store.load config.offsetKey) past)
    (h : Reaches rules config database { server, store } life w) :
    life.Stands config database (store.load config.offsetKey)
      (Registry.captured database config.tableFilter server.listing) past w := by
  induction h with
  | refl =>
      refine .down ⟨rfl, fun o hpast hcovered => ?_, ?_⟩
      · rcases hcovered with hcovers | hnull
        · exact absurd hcovers (horigin.rest hpast)
        · exact absurd hnull (not_lt.mpr (Position.null_le _))
      · exact .begin _ _ _
  | boot _ ih =>
      cases ih with
      | down h => exact .starting h
  | retry _ hstart ih =>
      cases ih with
      | starting h =>
          obtain ⟨hrest, rfl⟩ := (h.always_establishStart hrules hread).post_of_ends hstart
          exact .starting hrest
  | began _ hstart ih =>
      cases ih with
      | starting h =>
          obtain ⟨hrest, hstarts⟩ := (h.always_establishStart hrules hread).post_of_ends hstart
          exact hrest.began horigin hstarts
  | poll _ hpoll ih => exact ((ih.always_pollOnce hrules).post_of_ends hpoll).1
  | crash _ hpass ih => exact .down (ih.accounted hrules hread hpass).crash

end Lives

/-! ## At least once -/

/-- A change lies behind where the first life starts, which is after the stored offset or at the
configured start. -/
def Configuration.StartsBefore (config : Configuration) (stored : Option (Offset .sqlserver))
    (o : Offset .sqlserver) : Prop :=
  match stored, config.startPosition with
  | some resumed, _ => ¬ resumed.covers o
  | none, .ok (some (.offset resumed)) => ¬ resumed.covers o
  | none, .ok (some (.lsn first)) => first ≤ o.position
  | none, _ => False

theorem Configuration.origin_startsBefore (config : Configuration) (database : String)
    (stored : Option (Offset .sqlserver)) :
    Origin config database stored fun _ => config.StartsBefore stored := by
  constructor
  · rintro o hpast ⟨resumed, hresumed, hcovers⟩
    cases hresumed
    exact hpast hcovers
  · rintro rfl s starts o hstart hpast
    unfold StartsBefore at hpast
    cases hstart with
    | stored h => cases h
    | offset _ hconfig =>
        rw [hconfig] at hpast
        refine ⟨?_, not_lt.mp fun hlt => hpast (Offset.covers_of_position_lt hlt)⟩
        rintro ⟨_, hresumed, hcovers⟩
        cases hresumed
        exact hpast hcovers
    | position _ hconfig =>
        rw [hconfig] at hpast
        refine ⟨?_, hpast⟩
        rintro ⟨_, hresumed, _⟩
        cases hresumed
    | captured _ hconfig =>
        rw [hconfig] at hpast
        exact hpast.elim

/-- However often a capture crashes and starts again, if its first life has a stored offset or a
configured start, the saved offsets are in strictly ascending order and belong to acknowledged changes,
every change from the first start up to the stored offset was acknowledged, and none is acknowledged
again unless there was a crash in between and the offset that was stored then comes before it. -/
theorem acknowledged_at_least_once {config : Configuration} {database : String}
    {server : CapturedServer} {store : OffsetMap .sqlserver} {life : Life} {w w' : World}
    (hstart : (store.load config.offsetKey).isSome ∨ config.startPosition ≠ .ok none)
    (hreach : Reaches Rules.documented config database { server, store } life w)
    (hpass : life.Passes Rules.documented config w w') :
    (w'.saved config.offsetKey).Pairwise (fun o p => compare o p = .lt) ∧
    (∀ o ∈ w'.saved config.offsetKey,
      ∃ record, .acknowledged record ∈ w'.history ∧ record.offset = o) ∧
    (∀ stored, w'.store.load config.offsetKey = some stored → ∀ record,
      Assigns (Registry.captured database config.tableFilter server.listing) w' record →
      config.StartsBefore (store.load config.offsetKey) record.offset →
      stored.covers record.offset → record.offset ∈ w'.acknowledged) ∧
    ∀ {before first between again after},
      w'.history = before ++ .acknowledged first :: (between ++ .acknowledged again :: after) →
      first.offset = again.offset →
      (∃ saved, .crashed saved ∈ between) ∧
        ∀ o, .crashed (some o) ∈ between → compare o again.offset = .lt := by
  have hread : store.load config.offsetKey = none → config.startPosition = .ok none →
      config.snapshotMode = .never := by
    intro hload hnone
    rcases hstart with hstored | hconfig
    · simp [hload] at hstored
    · exact absurd hnone hconfig
  have hstands := hreach.stands Rules.lawful_documented hread (config.origin_startsBefore database _)
  obtain ⟨_, tracker, nextFrom, hsettles, hjournal⟩ :=
    hstands.accounted Rules.lawful_documented hread hpass
  refine ⟨hjournal.ascending, fun o ho => ?_, fun stored hstored record hassigns hpast hcovers => ?_,
    fun {before first between again after} hsplit heq => ?_⟩
  · exact World.mem_acknowledged.mp (hjournal.confirmed o ho)
  · have hsettled := hsettles record.offset hpast
      (.inl (hjournal.committed_of_stored ⟨stored, hstored, hcovers⟩))
    exact hsettled.acknowledged (hassigns.hasChange hsettled.reported)
  · have hsplit : w'.history =
        (before ++ .acknowledged first :: between) ++ .acknowledged again :: after := by simp [hsplit]
    have hnew := hjournal.new hsplit
    constructor
    · by_contra hnone
      have hlt := hnew.later rfl fun e he hcrash => by
        cases e with
        | crashed saved => exact hnone ⟨saved, he⟩
        | acknowledged | saved | stopped | began => exact hcrash
      rw [heq, Std.ReflOrd.compare_self] at hlt
      cases hlt
    · exact fun o ho => hnew.stored o (by simp [ho])

/-! ## A sample -/

namespace Sample

open Streamer

theorem load_world (reported : Lsn) (history : List Event) (key : String) :
    Rules.documented.answers (world reported history) (.storage (.loadOffset key))
      (Except.ok none : Except CaptureError (Option (Offset .sqlserver)))
      (world reported history) :=
  ⟨_, .refl _, trivial, rfl, fun _ hok => (Except.ok.inj hok).symm⟩

/-- The configured start is where the interval of the sample begins. -/
def configurationAt : Configuration := { configuration with startLsn := "0000000000000000000B" }

theorem ends_establishStart (reported : Lsn) (history : List Event) :
    Ends Rules.documented.answers (runStep (establishStart configurationAt)
      (Streamer.ofConfiguration configurationAt "shop" true)) (world reported history)
      (.ok (), started) (world reported history) := by
  have hstart : configurationAt.startPosition = .ok (some (.lsn (.ofNat 11))) := by decide +kernel
  refine ends_bind (.refl _ _) ?_
  refine ends_bind (ends_liftStep (.ask (load_world _ _ _) (.refl _ _))) ?_
  exact ends_bind (ends_ofExcept hstart) (.refl _ _)

end Sample

open Sample in
/-- The first life reads an interval and crashes. -/
theorem acknowledged_at_least_once_of_sample :
    let w := delivered (world (.ofNat 20) [.began (.ofNat 11) none])
    let w' := w.note (.crashed (some (record "orders" 15).offset))
    (w'.saved configurationAt.offsetKey).Pairwise (fun o p => compare o p = .lt) ∧
      (record "orders" 15).offset ∈ w'.acknowledged := by
  intro w w'
  have hstart : configurationAt.startPosition = .ok (some (.lsn (.ofNat 11))) := by decide +kernel
  have hreach : Reaches Rules.documented configurationAt "shop" { server } .down w' :=
    .crash (.poll (.began (.boot .refl) (ends_establishStart .null []))
      (ends_pollOnce .null [.began (.ofNat 11) none])) (.polling (.refl _ _))
  have hpast : configurationAt.StartsBefore none (record "orders" 15).offset := by
    unfold Configuration.StartsBefore
    rw [hstart]
    decide
  have hassigns : Assigns (Registry.captured "shop" configurationAt.tableFilter server.listing) w'
      (record "orders" 15) := captured_eq ▸ assigns rfl
  obtain ⟨hascending, _, hstored, _⟩ := acknowledged_at_least_once (.inr (by simp [hstart])) hreach .down
  exact ⟨hascending, hstored _ rfl _ hassigns hpast Offset.covers_self⟩

end ChangeCapture
