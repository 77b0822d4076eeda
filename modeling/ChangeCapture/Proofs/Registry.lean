import ChangeCapture.Proofs.Growth
import Mathlib.Data.List.Induction
import Mathlib.Data.List.Nodup

/-! # What is known of capture instances -/

namespace ChangeCapture

open List

/-! ## Instances by name -/

namespace Registry

variable {known : Std.TreeMap String CaptureInstance} {sources : List CaptureInstance}
  {ci : CaptureInstance} {name : String}

/-- Every instance is found by its own name. -/
def Keyed (known : Std.TreeMap String CaptureInstance) : Prop :=
  ∀ (name : String) (ci : CaptureInstance), known[name]? = some ci → ci.name = name

theorem values_eq (known : Std.TreeMap String CaptureInstance) :
    known.values = known.toList.map Prod.snd := by
  change known.foldr (fun _ value values => value :: values) [] = _
  rw [Std.TreeMap.foldr_eq_foldr_toList]
  induction known.toList with
  | nil => rfl
  | cons entry entries ih => rw [foldr_cons, ih, map_cons]

theorem mem_values : ci ∈ known.values ↔ ∃ name : String, known[name]? = some ci := by
  simp [values_eq]

theorem nodup_names_values (h : Keyed known) : (known.values.map CaptureInstance.name).Nodup := by
  have hkeys : known.values.map CaptureInstance.name = known.toList.map Prod.fst := by
    rw [values_eq, map_map]
    refine map_congr_left fun entry hentry => ?_
    exact h _ _ (Std.TreeMap.mem_toList_iff_getElem?_eq_some.mp hentry)
  rw [hkeys]
  refine pairwise_map.mpr (known.distinct_keys_toList.imp fun hne heq => hne ?_)
  rw [heq]
  exact Std.ReflCmp.compare_self

theorem byName_append (sources : List CaptureInstance) (ci : CaptureInstance) :
    byName (sources ++ [ci]) = (byName sources).insert ci.name ci := by
  simp [byName]

theorem getElem?_byName_append (sources : List CaptureInstance) (ci : CaptureInstance)
    (name : String) :
    (byName (sources ++ [ci]))[name]? = if ci.name = name then some ci else (byName sources)[name]? := by
  rw [byName_append, Std.TreeMap.getElem?_insert]
  simp

theorem keyed_byName (sources : List CaptureInstance) : Keyed (byName sources) := by
  induction sources using List.reverseRecOn with
  | nil => simp [Keyed, byName]
  | append_singleton sources ci ih =>
      intro name found h
      rw [getElem?_byName_append] at h
      split at h
      · cases h
        assumption
      · exact ih name found h

theorem mem_of_getElem?_byName (h : (byName sources)[name]? = some ci) : ci ∈ sources := by
  induction sources using List.reverseRecOn with
  | nil => simp [byName] at h
  | append_singleton sources last ih =>
      rw [getElem?_byName_append] at h
      split at h
      · cases h
        simp
      · exact mem_append_left _ (ih h)

theorem exists_of_mem (h : ci ∈ sources) : ∃ found, (byName sources)[ci.name]? = some found := by
  induction sources using List.reverseRecOn with
  | nil => cases h
  | append_singleton sources last ih =>
      rw [getElem?_byName_append]
      split
      · exact ⟨last, rfl⟩
      · rename_i hne
        rcases mem_append.mp h with h | h
        · exact ih h
        · exact absurd (congrArg _ (mem_singleton.mp h).symm) hne

/-- Among instances of different names each is found. -/
theorem getElem?_byName_of_mem (hnames : (sources.map CaptureInstance.name).Nodup)
    (h : ci ∈ sources) : (byName sources)[ci.name]? = some ci := by
  obtain ⟨found, hfound⟩ := exists_of_mem h
  have heq : found = ci :=
    inj_on_of_nodup_map hnames (mem_of_getElem?_byName hfound) h (keyed_byName sources _ _ hfound)
  rw [hfound, heq]

/-- What is known by name is the same when it is listed and known again. -/
theorem byName_values (h : Keyed known) : (byName known.values).Equiv known := by
  apply Std.TreeMap.Equiv.of_forall_constGet?_eq
  intro name
  cases hname : known[name]? with
  | some ci =>
      have hmem : ci ∈ known.values := mem_values.mpr ⟨name, hname⟩
      rw [← h name ci hname]
      exact getElem?_byName_of_mem (nodup_names_values h) hmem
  | none =>
      cases hfound : (byName known.values)[name]? with
      | none => rfl
      | some ci =>
          obtain ⟨name', hci⟩ := mem_values.mp (mem_of_getElem?_byName hfound)
          rw [← keyed_byName _ _ _ hfound, h name' ci hci, hci] at hname
          cases hname

theorem exists_of_mem_pick {names : List String} (h : ci ∈ pick known names) :
    ∃ name : String, known[name]? = some ci := by
  induction names generalizing known with
  | nil => cases h
  | cons name names ih =>
      unfold pick at h
      split at h
      · rename_i found hfound
        rcases mem_cons.mp h with rfl | h
        · exact ⟨name, hfound⟩
        · obtain ⟨name', hname⟩ := ih h
          rw [Std.TreeMap.getElem?_erase] at hname
          split at hname
          · cases hname
          · exact ⟨name', hname⟩
      · exact ih h

theorem mem_pick {names : List String} (hci : known[name]? = some ci) (hname : name ∈ names) :
    ci ∈ pick known names := by
  induction names generalizing known with
  | nil => cases hname
  | cons first names ih =>
      unfold pick
      by_cases heq : first = name
      · rw [heq, Std.TreeMap.get?_eq_getElem?, hci]
        exact mem_cons_self
      · have hname := (mem_cons.mp hname).resolve_left (Ne.symm heq)
        split
        · refine mem_cons_of_mem _ (ih ?_ hname)
          rw [Std.TreeMap.getElem?_erase, if_neg (by simpa using heq), hci]
        · exact ih hci hname

/-- Of two lists that are known one after the other the second counts. -/
theorem getElem?_byName_append_list (sources later : List CaptureInstance) (name : String) :
    (byName (sources ++ later))[name]? = (byName later)[name]?.or (byName sources)[name]? := by
  induction later using List.reverseRecOn with
  | nil => simp [byName]
  | append_singleton later ci ih =>
      rw [← append_assoc, getElem?_byName_append, getElem?_byName_append, ih]
      split <;> rfl

end Registry

/-! ## Valid names -/

/-- The name has no colon, so that a label says where it begins. -/
def CaptureInstance.IsPlain (ci : CaptureInstance) : Prop := ':' ∉ ci.name.toList

theorem Validation.not_mem_of_captureInstance {name : String} {u : Unit}
    (h : Validation.captureInstance name = .ok u) : ':' ∉ name.toList := by
  unfold captureInstance at h
  split at h
  · cases h
  · split at h
    · cases h
    · split at h
      · rename_i hplain
        intro hmem
        rw [isPlainName, Bool.and_eq_true, List.all_eq_true] at hplain
        exact absurd (hplain.2 ':' hmem) (by decide)
      · cases h

/-- A row gives an instance of its name that starts where it says, if the name is valid. -/
theorem ListedInstance.of_toInstance {database : String} {row : ListedInstance}
    {ci : CaptureInstance} (h : row.toInstance database = .ok ci) :
    ci.name = row.name ∧ ci.IsPlain ∧ Position.ofBytes row.startLsn = .ok ci.startLsn := by
  unfold toInstance at h
  cases hname : Validation.captureInstance row.name with
  | error e =>
      rw [hname] at h
      cases h
  | ok u =>
      have hplain := Validation.not_mem_of_captureInstance hname
      cases hstart : row.position "start_lsn" row.startLsn with
      | error e =>
          rw [hname, hstart] at h
          cases h
      | ok start =>
          cases hstop : row.position "end_lsn" row.endLsn with
          | error e =>
              rw [hname, hstart, hstop] at h
              cases h
          | ok stop =>
              rw [hname, hstart, hstop] at h
              simp only [bind, Except.bind] at h
              split at h
              · cases h
              · cases h
                refine ⟨rfl, hplain, ?_⟩
                unfold position at hstart
                split at hstart
                · rename_i hbytes
                  cases hstart
                  exact hbytes
                · cases hstart

/-- Every instance of a listing comes from one of its rows. -/
theorem Registry.exists_row_of_mem_instancesOf {database : String} {filter : TableFilter}
    {rows : List ListedInstance} {latest : List CaptureInstance}
    (h : instancesOf database filter rows = .ok latest) {ci : CaptureInstance} (hci : ci ∈ latest) :
    ∃ row ∈ rows, row.toInstance database = .ok ci := by
  induction rows generalizing latest with
  | nil =>
      cases h
      cases hci
  | cons row rows ih =>
      unfold instancesOf at h
      cases hrow : row.toInstance database with
      | error e =>
          rw [hrow] at h
          cases h
      | ok first =>
          cases hrest : instancesOf database filter rows with
          | error e =>
              rw [hrow, hrest] at h
              cases h
          | ok rest =>
              have hlatest : latest = if filter.matches first.table then first :: rest else rest := by
                rw [hrow, hrest] at h
                exact (Except.ok.inj h).symm
              have hmem : ci = first ∨ ci ∈ rest := by
                rw [hlatest] at hci
                split at hci
                · exact mem_cons.mp hci
                · exact .inr hci
              rcases hmem with rfl | hmem
              · exact ⟨row, mem_cons_self, hrow⟩
              · obtain ⟨row', hrow', hinstance⟩ := ih hrest hmem
                exact ⟨row', mem_cons_of_mem _ hrow', hinstance⟩

theorem Registry.isPlain_of_instancesOf {database : String} {filter : TableFilter}
    {rows : List ListedInstance} {latest : List CaptureInstance}
    (h : instancesOf database filter rows = .ok latest) : ∀ ci ∈ latest, ci.IsPlain := by
  intro ci hci
  obtain ⟨row, _, hrow⟩ := exists_row_of_mem_instancesOf h hci
  exact (ListedInstance.of_toInstance hrow).2.1

/-- What stands behind the last of some marks is given by the whole. -/
theorem eq_of_append_cons {α : Type} {mark : α} {before before' behind behind' : List α}
    (h : before ++ mark :: behind = before' ++ mark :: behind') (hb : mark ∉ behind)
    (hb' : mark ∉ behind') : behind = behind' := by
  rcases append_eq_append_iff.mp h with ⟨between, _, h⟩ | ⟨between, _, h⟩
  · cases between with
    | nil => exact (cons.inj h).2
    | cons c between =>
        rw [(cons.inj h).2] at hb
        simp at hb
  · cases between with
    | nil => exact (cons.inj h).2.symm
    | cons c between =>
        rw [(cons.inj h).2] at hb'
        simp at hb'

/-- Plain instances with one label have one name. -/
theorem CaptureInstance.name_eq_of_label {ci cj : CaptureInstance} (hi : ci.IsPlain)
    (hj : cj.IsPlain) (h : ci.label = cj.label) : ci.name = cj.name := by
  have htext (c : CaptureInstance) :
      c.label.toList = (toString c.table).toList ++ ':' :: c.name.toList := by
    simp [label, sourceLabel]
    rfl
  have hlists := congrArg String.toList h
  rw [htext, htext] at hlists
  exact String.toList_injective (eq_of_append_cons hlists hi hj)

end ChangeCapture
