import RedkeyOperator.Controller.Reconcile
import RedkeyOperator.Controller.Conditions

/-!
# Facts about lists of configs

What the pure parts of `redkey_config.go` return: the sorted list and its last element,
the split of a list at its last Applied config, the generation test, and the config a
create request carries.
-/

namespace RedkeyOperator

/-! ## Sorting -/

theorem perm_sortBySequence (items : List RedkeyConfig) : (sortBySequence items).Perm items :=
  List.perm_insertionSort _ items

theorem mem_sortBySequence {items : List RedkeyConfig} {c : RedkeyConfig} :
    c ∈ sortBySequence items ↔ c ∈ items :=
  (perm_sortBySequence items).mem_iff

theorem sorted_sortBySequence (items : List RedkeyConfig) :
    (sortBySequence items).Pairwise fun a b => a.spec.sequence ≤ b.spec.sequence := by
  have : Std.Total fun a b : RedkeyConfig => a.spec.sequence ≤ b.spec.sequence :=
    ⟨fun a b => Int.le_total _ _⟩
  have : IsTrans RedkeyConfig fun a b => a.spec.sequence ≤ b.spec.sequence :=
    ⟨fun _ _ _ => Int.le_trans⟩
  exact List.pairwise_insertionSort _ items

/-- The last config of a sorted list has the highest sequence. -/
theorem sequence_le_getLast {L : List RedkeyConfig} {c d : RedkeyConfig}
    (hL : L.Pairwise fun a b => a.spec.sequence ≤ b.spec.sequence) (hc : L.getLast? = some c)
    (hd : d ∈ L) : d.spec.sequence ≤ c.spec.sequence := by
  obtain ⟨init, rfl⟩ := List.getLast?_eq_some_iff.mp hc
  rcases List.mem_append.mp hd with hinit | hlast
  · exact (List.pairwise_append.mp hL).2.2 d hinit c List.mem_cons_self
  · rw [List.mem_singleton.mp hlast]

/-- The next sequence is above every listed one. -/
theorem lt_nextSequence {L : List RedkeyConfig} {c : RedkeyConfig}
    (hL : L.Pairwise fun a b => a.spec.sequence ≤ b.spec.sequence) (hc : c ∈ L) :
    c.spec.sequence < nextSequence L.getLast? := by
  obtain ⟨last, hlast⟩ : ∃ last, L.getLast? = some last :=
    Option.isSome_iff_exists.mp (List.getLast?_isSome.mpr (List.ne_nil_of_mem hc))
  rw [hlast]
  exact Int.lt_add_one_of_le (sequence_le_getLast hL hlast hc)

/-- A config above all others comes last. -/
theorem getLast?_sortBySequence {items rest : List RedkeyConfig} {c : RedkeyConfig}
    (hitems : items.Perm (rest ++ [c]))
    (hlt : ∀ d ∈ rest, d.spec.sequence < c.spec.sequence) :
    (sortBySequence items).getLast? = some c := by
  have hmem : ∀ d, d ∈ sortBySequence items ↔ d ∈ rest ++ [c] :=
    fun d => mem_sortBySequence.trans hitems.mem_iff
  have hc : c ∈ sortBySequence items := (hmem c).mpr (by simp)
  obtain ⟨last, hlast⟩ : ∃ last, (sortBySequence items).getLast? = some last :=
    Option.isSome_iff_exists.mp (List.getLast?_isSome.mpr (List.ne_nil_of_mem hc))
  -- the last one is at least as high as `c`, so it is none of the others
  have hle := sequence_le_getLast (sorted_sortBySequence items) hlast hc
  rcases List.mem_append.mp ((hmem last).mp (List.mem_of_getLast? hlast)) with hrest | hself
  · exact absurd (hlt last hrest) (not_lt_of_ge hle)
  · rw [hlast, List.mem_singleton.mp hself]

/-! ## The last Applied config -/

/-- Where a config is Applied, there is a last one. -/
theorem exists_lastApplied {L : List RedkeyConfig} {c : RedkeyConfig} (hc : c ∈ L)
    (happlied : c.status.configPhase = .applied) : ∃ i, lastApplied L = some i := by
  induction L with
  | nil => cases hc
  | cons d L ih =>
      unfold lastApplied
      cases hL : lastApplied L with
      | some i => exact ⟨i + 1, rfl⟩
      | none =>
          rcases List.mem_cons.mp hc with rfl | htail
          · exact ⟨0, by simp [happlied]⟩
          · obtain ⟨i, hi⟩ := ih htail
            rw [hL] at hi
            cases hi

/-- The list splits at the last Applied config. -/
theorem lastApplied_split {L : List RedkeyConfig} {i : ℕ} (h : lastApplied L = some i) :
    ∃ old a new, L = old ++ a :: new ∧ old.length = i ∧ a.status.configPhase = .applied ∧
      ∀ c ∈ new, c.status.configPhase ≠ .applied := by
  -- along the list; the last one is looked for in the rest first
  induction L generalizing i with
  | nil => simp [lastApplied] at h
  | cons c L ih =>
      unfold lastApplied at h
      cases hL : lastApplied L with
      | some j =>
          simp only [hL, Option.some.injEq] at h
          obtain ⟨old, a, new, rfl, hlen, ha, hnew⟩ := ih hL
          exact ⟨c :: old, a, new, rfl, by simp [hlen, h], ha, hnew⟩
      | none =>
          simp only [hL] at h
          split at h
          case isFalse => cases h
          case isTrue hc =>
            refine ⟨[], c, L, rfl, by simpa using h, hc, ?_⟩
            -- a later Applied config would have been found
            intro d hd hdapplied
            obtain ⟨j, hj⟩ := exists_lastApplied hd hdapplied
            rw [hL] at hj
            cases hj

/-- What cleanup deletes stands before an Applied config. -/
theorem exists_applied_of_mem_take {L : List RedkeyConfig} {i : ℕ} {c : RedkeyConfig}
    (hL : L.Pairwise fun a b => a.spec.sequence ≤ b.spec.sequence) (h : lastApplied L = some i)
    (hc : c ∈ L.take i) :
    ∃ old a new, L = old ++ a :: new ∧ c ∈ old ∧ a.status.configPhase = .applied ∧
      c.spec.sequence ≤ a.spec.sequence := by
  obtain ⟨old, a, new, rfl, rfl, ha, -⟩ := lastApplied_split h
  rw [List.take_left] at hc
  exact ⟨old, a, new, rfl, hc, ha, (List.pairwise_append.mp hL).2.2 c hc a List.mem_cons_self⟩

/-- Without an Applied config, nothing is cleaned up. -/
theorem afterCleanup_of_lastApplied_eq_none {L : List RedkeyConfig} (h : lastApplied L = none) :
    afterCleanup L = L := by
  unfold afterCleanup
  split
  · rfl
  · rw [h]

/-- None is Applied, so there is no last one. -/
theorem lastApplied_eq_none {L : List RedkeyConfig}
    (h : ∀ c ∈ L, c.status.configPhase ≠ .applied) : lastApplied L = none := by
  cases hL : lastApplied L with
  | none => rfl
  | some i =>
      obtain ⟨old, a, new, rfl, -, ha, -⟩ := lastApplied_split hL
      exact absurd ha (h a (by simp))

/-- What cleanup deletes from a list: everything before the last Applied
config, whatever its phase. -/
def superseded (configs : List RedkeyConfig) : List RedkeyConfig :=
  if configs.length ≤ 1 then [] else
    match lastApplied configs with
    | none => []
    | some i => configs.take i

theorem superseded_append_afterCleanup (L : List RedkeyConfig) :
    superseded L ++ afterCleanup L = L := by
  unfold superseded afterCleanup
  split
  · rfl
  · cases lastApplied L with
    | none => rfl
    | some i => exact List.take_append_drop i L

/-- Cleanup is the deletion of the superseded configs, and returns the
others. -/
theorem cleanupSupersededConfigs_eq (L : List RedkeyConfig) :
    cleanupSupersededConfigs L = deleteSuperseded (superseded L) (afterCleanup L) := by
  unfold cleanupSupersededConfigs superseded afterCleanup
  split
  · rfl
  · cases lastApplied L <;> rfl

/-- The configs before the last Applied one go. -/
theorem superseded_of_lastApplied {L : List RedkeyConfig} {i : ℕ} (h : lastApplied L = some i) :
    superseded L = L.take i ∧ afterCleanup L = L.drop i := by
  unfold superseded afterCleanup
  split
  case isTrue hlen =>
    obtain ⟨old, a, new, rfl, rfl, -, -⟩ := lastApplied_split h
    obtain rfl : old = [] := List.eq_nil_of_length_eq_zero (by simp at hlen; omega)
    exact ⟨rfl, rfl⟩
  case isFalse => simp [h]

/-- Without an Applied config, nothing is superseded. -/
theorem superseded_of_lastApplied_eq_none {L : List RedkeyConfig} (h : lastApplied L = none) :
    superseded L = [] := by
  simp [superseded, h]

/-- Where something is superseded, what is left starts with an Applied
config. -/
theorem exists_applied_afterCleanup {L : List RedkeyConfig} (h : superseded L ≠ []) :
    ∃ a ∈ afterCleanup L, a.status.configPhase = .applied := by
  cases hL : lastApplied L with
  | none => exact absurd (superseded_of_lastApplied_eq_none hL) h
  | some i =>
      obtain ⟨old, a, new, rfl, rfl, ha, -⟩ := lastApplied_split hL
      rw [(superseded_of_lastApplied hL).2, List.drop_left]
      exact ⟨a, List.mem_cons_self, ha⟩

/-- The split decides where the last Applied config is. -/
theorem lastApplied_append {old new : List RedkeyConfig} {a : RedkeyConfig}
    (ha : a.status.configPhase = .applied) (hnew : ∀ c ∈ new, c.status.configPhase ≠ .applied) :
    lastApplied (old ++ a :: new) = some old.length := by
  induction old with
  | nil => simp [lastApplied, lastApplied_eq_none hnew, ha]
  | cons c old ih => simp [lastApplied, ih]

/-- Losing some of the older configs makes no difference to which ones are
older. -/
theorem superseded_filter {L : List RedkeyConfig} {p : RedkeyConfig → Bool}
    (h : ∀ c ∈ afterCleanup L, p c = true) : superseded (L.filter p) = (superseded L).filter p := by
  cases hL : lastApplied L with
  | none =>
      rw [afterCleanup_of_lastApplied_eq_none hL] at h
      rw [List.filter_eq_self.mpr h, superseded_of_lastApplied_eq_none hL, List.filter_nil]
  | some i =>
      obtain ⟨old, a, new, rfl, rfl, ha, hnew⟩ := lastApplied_split hL
      rw [(superseded_of_lastApplied hL).2, List.drop_left] at h
      have hsplit : (old ++ a :: new).filter p = old.filter p ++ a :: new := by
        rw [List.filter_append, List.filter_eq_self.mpr h]
      rw [hsplit, (superseded_of_lastApplied (lastApplied_append ha hnew)).1,
        (superseded_of_lastApplied hL).1, List.take_left, List.take_left]

/-- Cleanup leaves nothing to clean up. -/
theorem superseded_afterCleanup (L : List RedkeyConfig) : superseded (afterCleanup L) = [] := by
  unfold afterCleanup
  split
  case isTrue hlen => rw [superseded, if_pos hlen]
  case isFalse hlen =>
    cases hlast : lastApplied L with
    | none => simp [superseded, hlast]
    | some i =>
        rcases lastApplied_split hlast with ⟨old, a, new, rfl, rfl, happlied, hnew⟩
        have hfirst : lastApplied (a :: new) = some 0 := by
          simp [lastApplied, lastApplied_eq_none hnew, happlied]
        simp [superseded, hfirst]

theorem afterCleanup_ne_nil {L : List RedkeyConfig} (h : L ≠ []) : afterCleanup L ≠ [] := by
  unfold afterCleanup
  split
  · exact h
  · cases hlast : lastApplied L with
    | none => exact h
    | some i =>
        rcases lastApplied_split hlast with ⟨old, a, new, rfl, rfl, -⟩
        simp

/-! ## The active config -/

theorem exists_active {L : List RedkeyConfig} (h : L ≠ []) :
    ∃ active, selectActiveConfig L = some active := by
  rcases List.exists_cons_of_ne_nil h with ⟨c, L, rfl⟩
  unfold selectActiveConfig
  split
  · exact ⟨c, rfl⟩
  · cases (c :: L).find? fun c => c.status.configPhase = .inProgress with
    | some d => exact ⟨d, rfl⟩
    | none => exact ⟨c, rfl⟩

/-- How it was selected: it is in progress, or the first one of a list in
which none is. In a list of one config the phase is not looked at. -/
theorem selectActiveConfig_cases {L : List RedkeyConfig} {active : RedkeyConfig}
    (h : selectActiveConfig L = some active) :
    active ∈ L ∧ (active.status.configPhase = .inProgress ∨ L.head? = some active ∧
      (L = [active] ∨ ∀ c ∈ L, c.status.configPhase ≠ .inProgress)) := by
  unfold selectActiveConfig at h
  split at h
  case isTrue hlen =>
    obtain ⟨c, rfl⟩ := List.length_eq_one_iff.mp hlen
    obtain rfl : c = active := Option.some.inj h
    exact ⟨List.mem_singleton_self c, Or.inr ⟨rfl, Or.inl rfl⟩⟩
  case isFalse =>
    cases hfind : L.find? fun c => c.status.configPhase = .inProgress with
    | some c =>
        rw [hfind] at h
        obtain rfl : c = active := Option.some.inj h
        exact ⟨List.mem_of_find?_eq_some hfind, Or.inl (by simpa using List.find?_some hfind)⟩
    | none =>
        rw [hfind] at h
        refine ⟨List.mem_of_head? h, Or.inr ⟨h, Or.inr ?_⟩⟩
        simpa using hfind

/-- An active config that is Applied is the last one that is. -/
theorem sequence_le_of_active {L : List RedkeyConfig} {active c : RedkeyConfig}
    (hL : L.Pairwise fun a b => a.spec.sequence ≤ b.spec.sequence)
    (hactive : selectActiveConfig (afterCleanup L) = some active)
    (happlied : active.status.configPhase = .applied) (hc : c ∈ L)
    (hcapplied : c.status.configPhase = .applied) :
    active ∈ afterCleanup L ∧ c.spec.sequence ≤ active.spec.sequence := by
  rcases selectActiveConfig_cases hactive with ⟨hmem, hprogress | ⟨hhead, -⟩⟩
  · -- one in progress is not Applied
    rw [hprogress] at happlied
    cases happlied
  · refine ⟨hmem, ?_⟩
    unfold afterCleanup at hhead
    split at hhead
    case isTrue hlen =>
      -- a list of at most one config
      rcases L with _ | ⟨d, _ | ⟨e, L⟩⟩
      · cases hc
      · obtain rfl : d = active := Option.some.inj hhead
        rw [List.mem_singleton.mp hc]
      · simp at hlen
    case isFalse =>
      rcases exists_lastApplied hc hcapplied with ⟨i, hi⟩
      rcases lastApplied_split hi with ⟨old, a, new, rfl, rfl, -, hnew⟩
      simp only [hi, List.drop_left, List.head?_cons, Option.some.injEq] at hhead
      subst hhead
      rcases List.mem_append.mp hc with hold | hrest
      · exact (List.pairwise_append.mp hL).2.2 c hold a List.mem_cons_self
      · rcases List.mem_cons.mp hrest with rfl | hnewer
        · exact le_refl _
        · exact absurd hcapplied (hnew c hnewer)

/-! ## Generations -/

/-- The config records a generation of at least `g`. -/
def RedkeyConfig.Covers (c : RedkeyConfig) (g : Int) : Prop :=
  ∃ g', c.generation? = some g' ∧ g ≤ g'

/-- `needsNewConfig` answers false for two reasons. -/
theorem needsNewConfig_eq_false {cluster : Redkey} {latest : Option RedkeyConfig}
    (h : needsNewConfig cluster latest = false) :
    (∃ c, latest = some c ∧ c.Covers cluster.generation) ∨
      cluster.generation ≤ cluster.status.observedGeneration := by
  unfold needsNewConfig at h
  cases hgen : latest.bind RedkeyConfig.generation? with
  | none =>
      simp only [hgen, decide_eq_false_iff_not, not_lt] at h
      exact Or.inr h
  | some g =>
      obtain ⟨c, rfl, hc⟩ := Option.bind_eq_some_iff.mp hgen
      by_cases hle : cluster.generation ≤ g
      · exact Or.inl ⟨c, rfl, g, hc, hle⟩
      · simp only [hgen, hle, if_false, decide_eq_false_iff_not, not_lt] at h
        exact Or.inr h

/-- A config of generation `g` is replaced when the generation has moved on,
and no later one was observed. -/
theorem needsNewConfig_iff {cluster : Redkey} {c : RedkeyConfig} {g : Int}
    (hg : c.generation? = some g) : needsNewConfig cluster (some c) = true ↔
      g < cluster.generation ∧ cluster.status.observedGeneration < cluster.generation := by
  simp only [needsNewConfig, Option.bind_some, hg]
  by_cases hle : cluster.generation ≤ g
  · simp [hle]
  · simp [hle, not_le.mp hle]

/-- A config that needs replacing records an older generation. -/
theorem generation_lt_of_needsNewConfig {cluster : Redkey} {c : RedkeyConfig} {g : Int}
    (h : needsNewConfig cluster (some c) = true) (hg : c.generation? = some g) :
    g < cluster.generation :=
  ((needsNewConfig_iff hg).mp h).1

/-! ## The config that is created -/

section NewConfig

variable (cluster : Redkey) (highest : Option RedkeyConfig)

/-- The name is the one of the cluster, with the sequence number behind a
dash. -/
theorem newConfig_key : (newConfig cluster highest).key =
    ⟨cluster.ns, Decimal.dashed cluster.name (nextSequence highest)⟩ := rfl

theorem newConfig_sequence : (newConfig cluster highest).spec.sequence = nextSequence highest := rfl

/-- The label under which the config is listed is the operator's, whatever the
user's are. -/
theorem newConfig_selected :
    (newConfig cluster highest).selected cluster.ns clusterLabel cluster.name = true := by
  have hlabel : (newConfig cluster highest).metadata.labels.lookup clusterLabel =
      some cluster.name := by
    refine (lookup_mergeMeta_of_mem ?_).trans ?_
    · simp
    · simp
  exact decide_eq_true ⟨rfl, hlabel⟩

/-- The recorded generation is read back as it was. -/
theorem newConfig_generation (h : Decimal.InInt64 cluster.generation) :
    (newConfig cluster highest).generation? = some cluster.generation := by
  have hann : (newConfig cluster highest).metadata.annotations.lookup generationAnnotation =
      some (Decimal.formatInt cluster.generation) := by
    refine (lookup_mergeMeta_of_mem ?_).trans ?_
    · simp
    · simp
  simp [RedkeyConfig.generation?, hann, Decimal.formatInt_ne_empty, Decimal.parseInt_formatInt h]

end NewConfig

end RedkeyOperator
