import RedkeyOperator.Controller.Lemmas
import RedkeyOperator.Lib.Trace

/-!
# Deleting superseded configs

`cleanupSupersededConfigs` deletes the configs before the last Applied one, oldest first, and stops
at the first error. What it leaves is the list without some first part of them; the deletion that
failed may have been made. Called again on the configs that are left, it ends where a call without
failures would have ended (`cleanup_again`).

The path for a cluster that is being scaled to zero does not clean up, and mirrors the first config
of the whole list where the normal path mirrors the first one that is left. The two differ exactly
when an older config has been superseded by an Applied one (`same_source_iff`).
-/

namespace RedkeyOperator

open Interleaved

/-! ## The store without some configs -/

namespace Store

/-- The store without the configs that have one of the keys. -/
def without (s : Store) (keys : List NamespacedName) : Store :=
  { s with configs := s.configs.filter fun c => c.key ∉ keys }

@[simp] theorem without_nil (s : Store) : s.without [] = s := by
  simp [without]

theorem without_without (s : Store) (keys keys' : List NamespacedName) :
    (s.without keys).without keys' = s.without (keys ++ keys') := by
  simp only [without, List.filter_filter, List.mem_append, not_or, Bool.decide_and, Bool.and_comm]

theorem mem_without {s : Store} {keys : List NamespacedName} {c : RedkeyConfig} :
    c ∈ (s.without keys).configs ↔ c ∈ s.configs ∧ c.key ∉ keys := by
  simp [without]

/-- What `listConfigs` returns for the cluster with the key. -/
def listing (s : Store) (key : NamespacedName) : List RedkeyConfig :=
  sortBySequence (s.configs.filter (·.selected key.ns clusterLabel key.name))

end Store

/-- A deletion is made, unless the config is gone already. -/
theorem serve_deleteConfig (fill : Deployment → Deployment) (key : NamespacedName) (s : Store) :
    serve fill (.deleteConfig key) s = (.ok (), s.without [key]) ∨
      serve fill (.deleteConfig key) s = (.error .notFound, s.without [key]) := by
  have hserve : serve fill (.deleteConfig key) s =
      s.commit (Configs.delete s.configs key) fun configs => { s with configs := configs } := rfl
  -- in both cases no config with the key is left
  have herase : { s with configs := Configs.erase s.configs key } = s.without [key] := by
    simp [Store.without, Configs.erase]
  rw [hserve, ← herase]
  cases hdelete : Configs.delete s.configs key with
  | ok configs =>
      obtain rfl := Configs.delete_ok hdelete
      exact Or.inl rfl
  | error e =>
      obtain ⟨rfl, hsame⟩ := Configs.delete_error hdelete
      rw [hsame]
      exact Or.inr rfl

/-- Counters are outside the state, whether or not the server fails. -/
theorem faulty_metric {fill : Deployment → Deployment} {event : MetricEvent} {s s' : Store}
    {r : Resp (.metric event)} (h : (faulty fill).exec (.metric event) s r s') : s' = s := by
  rcases h with hserved | ⟨_, -, -, rfl | rfl⟩
  · cases hserved
    rfl
  · rfl
  · rfl

/-! ## The loop -/

/-- A deletion that succeeded. -/
def Deleted (e : Event Call Resp) : Bool :=
  match e with
  | ⟨.deleteConfig _, .ok _⟩ => true
  | _ => false

/-- An increment of the counter. -/
def Counted (e : Event Call Resp) : Bool :=
  match e with
  | ⟨.metric .cleanupDeletedConfig, _⟩ => true
  | _ => false

/-- A deletion that ended with an error other than NotFound. -/
def Refused (e : Event Call Resp) : Bool :=
  match e with
  | ⟨.deleteConfig _, .error e⟩ => e ≠ .notFound
  | _ => false

/-- How the loop over `old` can end: at its end if no deletion is refused, and
at the first one that is. The refused deletion is the last request, and it may
have been made all the same. -/
inductive LoopEnds (old kept : List RedkeyConfig) (s : Store) (tr : List (Event Call Resp)) :
    Except Err (List RedkeyConfig × Option Err) → Store → Prop
  | done (hnone : ∀ ev ∈ tr, Refused ev = false) :
      LoopEnds old kept s tr (.ok (kept, none)) (s.without (old.map RedkeyConfig.key))
  | failed {j n : ℕ} {c : RedkeyConfig} {e : ApiError} {before : List (Event Call Resp)}
      (hc : old[j]? = some c) (he : e ≠ .notFound)
      (htr : tr = before ++ [⟨.deleteConfig c.key, .error e⟩])
      (hfirst : ∀ ev ∈ before, Refused ev = false) (hn : n = j ∨ n = j + 1) :
      LoopEnds old kept s tr (.ok (old.drop j ++ kept, some (.api e)))
        (s.without ((old.take n).map RedkeyConfig.key))

/-- One more config was deleted before. -/
theorem LoopEnds.cons {old kept : List RedkeyConfig} {c : RedkeyConfig} {s s' : Store}
    {tr : List (Event Call Resp)} {x : Except Err (List RedkeyConfig × Option Err)}
    (h : LoopEnds old kept (s.without [c.key]) tr x s') (evs : List (Event Call Resp))
    (hevs : ∀ ev ∈ evs, Refused ev = false) :
    LoopEnds (c :: old) kept s (evs ++ tr) x s' := by
  have hjoin : ∀ before : List (Event Call Resp), (∀ ev ∈ before, Refused ev = false) →
      ∀ ev ∈ evs ++ before, Refused ev = false :=
    fun before hbefore => List.forall_mem_append.mpr ⟨hevs, hbefore⟩
  cases h with
  | done hnone =>
      rw [Store.without_without]
      exact .done (hjoin tr hnone)
  | @failed j n d e before hd he htr hfirst hn =>
      rw [Store.without_without]
      have htr' : evs ++ tr = (evs ++ before) ++ [⟨.deleteConfig d.key, .error e⟩] := by
        rw [htr, List.append_assoc]
      refine .failed (j := j + 1) (n := n + 1) (by simpa using hd) he htr' (hjoin before hfirst) ?_
      omega

/-- Every deletion that succeeds is counted, and the loop ends in one of the
two ways. -/
theorem traces_deleteSuperseded {fill : Deployment → Deployment} {old kept : List RedkeyConfig}
    {s s' : Store} {tr : List (Event Call Resp)}
    {x : Except Err (List RedkeyConfig × Option Err)}
    (h : Traces (faulty fill) (deleteSuperseded old kept) s tr x s') :
    LoopEnds old kept s tr x s' ∧ tr.countP Counted = tr.countP Deleted := by
  -- along the loop; a deletion is served or fails, and only a failure ends it
  induction old generalizing s tr with
  | nil =>
      obtain ⟨rfl, rfl, rfl⟩ := h
      have hdone : LoopEnds [] kept s' [] (.ok (kept, none)) (s'.without []) := .done (by simp)
      rw [Store.without_nil] at hdone
      exact ⟨hdone, rfl⟩
  | cons c old ih =>
      obtain ⟨r, s₁, rest, hexec, rfl, hrest⟩ := h
      rcases hexec with hserved | ⟨e, he, rfl, hs₁⟩
      · rcases serve_deleteConfig fill c.key s with hserve | hserve
        · -- deleted, and counted
          rw [hserve] at hserved
          cases hserved
          obtain ⟨r', s₂, rest, hmetric, rfl, hrest⟩ := hrest
          obtain rfl := faulty_metric hmetric
          obtain ⟨hends, hcount⟩ := ih hrest
          refine ⟨hends.cons [⟨.deleteConfig c.key, .ok ()⟩, ⟨.metric .cleanupDeletedConfig, r'⟩]
            (by simp [Refused]), ?_⟩
          simp [List.countP_cons, Counted, Deleted, hcount]
        · -- gone already
          rw [hserve] at hserved
          cases hserved
          obtain ⟨hends, hcount⟩ := ih hrest
          refine ⟨hends.cons [⟨.deleteConfig c.key, .error .notFound⟩] (by simp [Refused]), ?_⟩
          simp [Counted, Deleted, hcount]
      · -- the loop ends here
        have hend : rest = [] ∧ x = .ok (c :: old ++ kept, some (.api e)) ∧ s' = s₁ := by
          cases e with
          | notFound => exact absurd rfl he
          | _ => exact hrest
        obtain ⟨rfl, rfl, rfl⟩ := hend
        refine ⟨?_, by simp [Counted, Deleted]⟩
        have hfailed : ∀ n, n = 0 ∨ n = 1 → LoopEnds (c :: old) kept s
            [⟨.deleteConfig c.key, .error e⟩] (.ok (c :: old ++ kept, some (.api e)))
            (s.without (((c :: old).take n).map RedkeyConfig.key)) :=
          fun n hn => .failed (j := 0) rfl he (List.nil_append _).symm (by simp) hn
        rcases hs₁ with rfl | rfl
        · simpa using hfailed 0 (Or.inl rfl)
        · have hstore : (serve fill (.deleteConfig c.key) s).2 = s.without [c.key] := by
            rcases serve_deleteConfig fill c.key s with hserve | hserve <;> rw [hserve]
          rw [hstore]
          exact hfailed 1 (Or.inr rfl)

theorem traces_cleanup {fill : Deployment → Deployment} {L : List RedkeyConfig} {s s' : Store}
    {tr : List (Event Call Resp)} {x : Except Err (List RedkeyConfig × Option Err)}
    (h : Traces (faulty fill) (cleanupSupersededConfigs L) s tr x s') :
    LoopEnds (superseded L) (afterCleanup L) s tr x s' ∧ tr.countP Counted = tr.countP Deleted := by
  rw [cleanupSupersededConfigs_eq] at h
  exact traces_deleteSuperseded h

/-! ## Without failures -/

theorem run_deleteSuperseded (fill : Deployment → Deployment) (old kept : List RedkeyConfig)
    (s : Store) : (deleteSuperseded old kept).run (serve fill) s =
      (.ok (kept, none), s.without (old.map RedkeyConfig.key)) := by
  induction old generalizing s with
  | nil =>
      rw [List.map_nil, Store.without_nil]
      rfl
  | cons c old ih =>
      have hstep : (deleteSuperseded (c :: old) kept).run (serve fill) s =
          (deleteSuperseded old kept).run (serve fill) (s.without [c.key]) := by
        rw [deleteSuperseded]
        refine (Prog.run_call (serve fill) (.deleteConfig c.key) _ s).trans ?_
        rcases serve_deleteConfig fill c.key s with hserve | hserve <;> rw [hserve] <;> rfl
      rw [hstep, ih, Store.without_without]
      rfl

/-- Without failures, `cleanupSupersededConfigs` deletes exactly the configs
before the last Applied one. -/
theorem run_cleanup (fill : Deployment → Deployment) (L : List RedkeyConfig) (s : Store) :
    (cleanupSupersededConfigs L).run (serve fill) s =
      (.ok (afterCleanup L, none), s.without ((superseded L).map RedkeyConfig.key)) := by
  rw [cleanupSupersededConfigs_eq]
  exact run_deleteSuperseded fill _ _ s

/-! ## Once more -/

/-- The store has the configs of the list, except that some that are to be
deleted may be gone already. -/
structure Store.Holds (s : Store) (key : NamespacedName) (L : List RedkeyConfig) : Prop where
  /-- No two configs of the store have the same key. -/
  unique : (s.configs.map RedkeyConfig.key).Nodup
  selected : ∀ c ∈ L, c.selected key.ns clusterLabel key.name = true
  /-- All configs of the cluster are in the list. -/
  same : ∀ c ∈ s.configs, c.selected key.ns clusterLabel key.name = true ∨
    (∃ d ∈ L, d.key = c.key) → c ∈ L
  /-- Those that are not to be deleted are there. -/
  kept : ∀ c ∈ afterCleanup L, c ∈ s.configs

section Again

variable {key : NamespacedName} {L : List RedkeyConfig} {s : Store}

/-- The list of what is left. -/
theorem Store.Holds.listing (h : s.Holds key L)
    (hstrict : L.Pairwise fun c d => c.spec.sequence < d.spec.sequence)
    (hkeys : (L.map RedkeyConfig.key).Nodup) (keys : List NamespacedName) :
    (s.without keys).listing key =
      L.filter fun c => Configs.has (s.without keys).configs c.key := by
  have hmem : ∀ c, c ∈ (s.without keys).listing key ↔
      c ∈ L.filter fun c => Configs.has (s.without keys).configs c.key := by
    intro c
    simp only [Store.listing, mem_sortBySequence, List.mem_filter, Store.mem_without,
      Configs.has_iff]
    constructor
    · rintro ⟨⟨hc, hnot⟩, hsel⟩
      exact ⟨h.same c hc (Or.inl hsel), c, ⟨hc, hnot⟩, rfl⟩
    · rintro ⟨hc, d, ⟨hd, hnot⟩, hkey⟩
      have hdL := h.same d hd (Or.inr ⟨c, hc, hkey.symm⟩)
      obtain rfl := List.inj_on_of_nodup_map hkeys hdL hc hkey
      exact ⟨⟨hd, hnot⟩, h.selected d hc⟩
  have hirrefl : Std.Irrefl fun c d : RedkeyConfig => c.spec.sequence < d.spec.sequence :=
    ⟨fun _ => Int.lt_irrefl _⟩
  have hantisymm : Std.Antisymm fun c d : RedkeyConfig => c.spec.sequence < d.spec.sequence :=
    ⟨fun _ _ h h' => absurd h' (Int.lt_asymm h)⟩
  refine List.Pairwise.eq_of_mem_iff ?_ (hstrict.filter _) hmem
  -- sorted, and no two of its configs have the same sequence
  have hsequences : (L.map (·.spec.sequence)).Nodup :=
    List.pairwise_map.mpr (hstrict.imp fun hlt => hlt.ne)
  have hunique : ((s.without keys).listing key).Pairwise fun c d => c.key ≠ d.key := by
    refine ((perm_sortBySequence _).pairwise_iff fun hne => Ne.symm hne).mpr ?_
    exact ((List.pairwise_map.mp h.unique).filter _).filter _
  refine ((sorted_sortBySequence _).and hunique).imp_of_mem ?_
  intro c d hc hd ⟨hle, hne⟩
  refine lt_of_le_of_ne hle fun heq => hne ?_
  have hcL := List.mem_of_mem_filter ((hmem c).mp hc)
  have hdL := List.mem_of_mem_filter ((hmem d).mp hd)
  exact congrArg _ (List.inj_on_of_nodup_map hsequences hcL hdL heq)

/-- Deleting a first part of some configs, and then those that are left. -/
theorem Store.without_rest (s : Store) (old : List RedkeyConfig) (n : ℕ) :
    (s.without ((old.take n).map RedkeyConfig.key)).without
        ((old.filter fun c => Configs.has (s.without ((old.take n).map RedkeyConfig.key)).configs
          c.key).map RedkeyConfig.key) =
      s.without (old.map RedkeyConfig.key) := by
  rw [Store.without_without]
  unfold Store.without
  congr 1
  refine List.filter_congr fun c hc => decide_eq_decide.mpr (not_congr ?_)
  rw [List.mem_append]
  constructor
  · rintro (hfirst | hrest)
    · exact List.map_subset _ (List.take_subset n old) hfirst
    · exact List.map_subset _ (List.filter_subset_self _) hrest
  · intro hmem
    by_cases hfirst : c.key ∈ (old.take n).map RedkeyConfig.key
    · exact Or.inl hfirst
    · obtain ⟨d, hd, hkey⟩ := List.mem_map.mp hmem
      refine Or.inr (List.mem_map.mpr ⟨d, List.mem_filter.mpr ⟨hd, ?_⟩, hkey⟩)
      exact Configs.has_iff.mpr ⟨c, Store.mem_without.mpr ⟨hc, hfirst⟩, hkey.symm⟩

/-- What is not to be deleted has no key in common with what is. -/
theorem key_not_mem_superseded (hkeys : (L.map RedkeyConfig.key).Nodup) {c : RedkeyConfig}
    (hc : c ∈ afterCleanup L) : c.key ∉ (superseded L).map RedkeyConfig.key := by
  rw [← superseded_append_afterCleanup L, List.map_append] at hkeys
  intro hmem
  exact List.disjoint_of_nodup_append hkeys hmem (List.mem_map_of_mem hc)

/-- A call that was cut off anywhere, and one on what it left. -/
theorem cleanup_again (fill : Deployment → Deployment) (h : s.Holds key L)
    (hstrict : L.Pairwise fun c d => c.spec.sequence < d.spec.sequence)
    (hkeys : (L.map RedkeyConfig.key).Nodup) (n : ℕ) {s' : Store}
    (hs' : s' = s.without (((superseded L).take n).map RedkeyConfig.key)) :
    ((cleanupSupersededConfigs (s'.listing key)).run (serve fill) s').2 =
      ((cleanupSupersededConfigs L).run (serve fill) s).2 := by
  subst hs'
  have hkept : ∀ c ∈ afterCleanup L, Configs.has
      (s.without (((superseded L).take n).map RedkeyConfig.key)).configs c.key = true := by
    intro c hc
    refine Configs.has_iff.mpr ⟨c, Store.mem_without.mpr ⟨h.kept c hc, fun hmem => ?_⟩, rfl⟩
    exact key_not_mem_superseded hkeys hc (List.map_subset _ (List.take_subset n _) hmem)
  rw [run_cleanup, run_cleanup, h.listing hstrict hkeys, superseded_filter hkept]
  exact s.without_rest (superseded L) n

end Again

/-! ## Cleanup under failures -/

section Cleanup

variable {fill : Deployment → Deployment} {L : List RedkeyConfig} {s s' : Store}
variable {tr : List (Event Call Resp)} {x : Except Err (List RedkeyConfig × Option Err)}

theorem LoopEnds.nil (h : LoopEnds [] L s tr x s') : s' = s ∧ x = .ok (L, none) := by
  cases h with
  | done _ => simp
  | failed hc _ _ _ _ => cases hc

/-- The end of the loop, in terms of the whole list. -/
theorem LoopEnds.split {i : ℕ} (hi : i ≤ L.length)
    (h : LoopEnds (L.take i) (L.drop i) s tr x s') :
    ∃ n ≤ i, s' = s.without ((L.take n).map RedkeyConfig.key) ∧
      (n = i ∧ x = .ok (L.drop i, none) ∧ (∀ ev ∈ tr, Refused ev = false) ∨
        ∃ j c e before, j < i ∧ L[j]? = some c ∧ e ≠ .notFound ∧
          tr = before ++ [⟨.deleteConfig c.key, .error e⟩] ∧
          (∀ ev ∈ before, Refused ev = false) ∧ (n = j ∨ n = j + 1) ∧
          x = .ok (L.drop j, some (.api e))) := by
  cases h with
  | done hnone => exact ⟨i, le_refl i, rfl, Or.inl ⟨rfl, rfl, hnone⟩⟩
  | @failed j n c e before hc he htr hfirst hn =>
      -- the config of the failed deletion is one of the old ones
      have hj : j < i := by
        have hlt := (List.getElem?_eq_some_iff.mp hc).1
        rw [List.length_take] at hlt
        exact lt_of_lt_of_le hlt (Nat.min_le_left _ _)
      have hrest : (L.take i).drop j ++ L.drop i = L.drop j := by
        conv_rhs => rw [← List.take_append_drop i L]
        rw [List.drop_append_of_le_length]
        rw [List.length_take]
        omega
      rw [List.getElem?_take_of_lt hj] at hc
      rw [hrest, List.take_take, Nat.min_eq_left (by omega)]
      refine ⟨n, by omega, rfl, Or.inr ?_⟩
      exact ⟨j, c, e, before, hj, hc, he, htr, hfirst, hn, rfl⟩

/-- What a call of `cleanupSupersededConfigs` removes and returns, whatever
its deletions end with, and that it can be repeated. The call ends with the
first deletion that is refused, and without an error if none is. -/
theorem cleanup_exact (fill : Deployment → Deployment) (key : NamespacedName)
    (hstrict : L.Pairwise fun c d => c.spec.sequence < d.spec.sequence)
    (hkeys : (L.map RedkeyConfig.key).Nodup)
    (h : Traces (faulty fill) (cleanupSupersededConfigs L) s tr x s') :
    ((∀ i, lastApplied L = some i → i = 0) → s' = s ∧ x = .ok (L, none)) ∧
    ((∃ c ∈ L, c.status.configPhase = .applied) → ∃ i, lastApplied L = some i) ∧
    (∀ i, lastApplied L = some i →
      (∃ n ≤ i, s' = s.without ((L.take n).map RedkeyConfig.key) ∧
        (n = i ∧ x = .ok (L.drop i, none) ∧ (∀ ev ∈ tr, Refused ev = false) ∨
          ∃ j c e before, j < i ∧ L[j]? = some c ∧ e ≠ .notFound ∧
            tr = before ++ [⟨.deleteConfig c.key, .error e⟩] ∧
            (∀ ev ∈ before, Refused ev = false) ∧ (n = j ∨ n = j + 1) ∧
            x = .ok (L.drop j, some (.api e)))) ∧
      (∀ c ∈ L.drop i, c ∈ s.configs → c ∈ s'.configs) ∧
      ∃ a new, L.drop i = a :: new ∧ a.status.configPhase = .applied ∧
        ∀ c ∈ new, c.status.configPhase ≠ .applied) ∧
    (s.Holds key L →
      ((cleanupSupersededConfigs (s'.listing key)).run (serve fill) s').2 =
        ((cleanupSupersededConfigs L).run (serve fill) s).2) ∧
    tr.countP Counted = tr.countP Deleted := by
  obtain ⟨hends, hcount⟩ := traces_cleanup h
  have happlied : (∃ c ∈ L, c.status.configPhase = .applied) → ∃ i, lastApplied L = some i := by
    rintro ⟨c, hc, happlied⟩
    exact exists_lastApplied hc happlied
  refine ⟨?_, happlied, ?_, ?_, hcount⟩
  · -- nothing is older than the last Applied one
    intro hzero
    cases hlast : lastApplied L with
    | none =>
        rw [superseded_of_lastApplied_eq_none hlast,
          afterCleanup_of_lastApplied_eq_none hlast] at hends
        exact hends.nil
    | some i =>
        obtain rfl := hzero i hlast
        rw [(superseded_of_lastApplied hlast).1, (superseded_of_lastApplied hlast).2] at hends
        exact hends.nil
  · intro i hlast
    have hends' := hends
    rw [(superseded_of_lastApplied hlast).1, (superseded_of_lastApplied hlast).2] at hends'
    obtain ⟨old, a, new, hL, hold, ha, hnew⟩ := lastApplied_split hlast
    have hi : i ≤ L.length := by
      rw [hL, List.length_append]
      omega
    obtain ⟨n, hn, hs', hresult⟩ := hends'.split hi
    -- the deleted ones are in front of it, under other keys
    have hkept : ∀ c ∈ L.drop i, c ∈ s.configs → c ∈ s'.configs := by
      intro c hc hstored
      rw [hs', Store.mem_without]
      refine ⟨hstored, fun hmem => ?_⟩
      rw [← (superseded_of_lastApplied hlast).2] at hc
      refine key_not_mem_superseded hkeys hc ?_
      rw [(superseded_of_lastApplied hlast).1]
      exact List.map_subset _ (List.take_prefix_take_left hn).subset hmem
    have hdrop : L.drop i = a :: new := by rw [hL, ← hold, List.drop_left]
    exact ⟨⟨n, hn, hs', hresult⟩, hkept, a, new, hdrop, ha, hnew⟩
  · -- wherever the first call has stopped, the second one ends in the same place
    intro hholds
    cases hends with
    | done _ =>
        refine cleanup_again fill hholds hstrict hkeys (superseded L).length ?_
        rw [List.take_length]
    | @failed j n c e before _ _ _ _ _ => exact cleanup_again fill hholds hstrict hkeys n rfl

/-- Three configs; the second one is Applied as well, the third one asks for
zero. -/
def overlapping : List RedkeyConfig :=
  let first := { newConfig sampleCluster none with status := { configPhase := .applied } }
  let second := { newConfig sampleCluster (some first) with status := { configPhase := .applied } }
  [first, second, newConfig { sampleCluster with spec := { primaries := 0 } } (some second)]

/-- The store of some configs. -/
def Store.ofConfigs (configs : List RedkeyConfig) : Store where
  redkeys := fun _ => none
  configs := configs
  robin := fun _ _ => none

/-- A server that refuses to delete configs. -/
def refuse : (c : Call) → Store → Resp c × Store
  | .deleteConfig _, s => (.error .other, s)
  | c, s => serve id c s

/-- Its refusals are failures of the server before the request. -/
theorem refuse_faulty (c : Call) (s : Store) :
    (faulty id).exec c s (refuse c s).1 (refuse c s).2 := by
  cases c with
  | deleteConfig key => exact Or.inr ⟨.other, by decide, rfl, Or.inl rfl⟩
  | _ => exact Or.inl rfl

/-- All deletions are refused in the first call, and the second one makes up
for them. -/
theorem cleanup_of_overlapping :
    ((cleanupSupersededConfigs (((cleanupSupersededConfigs overlapping).run refuse
          (Store.ofConfigs overlapping)).2.listing sampleCluster.key)).run (serve id)
        ((cleanupSupersededConfigs overlapping).run refuse (Store.ofConfigs overlapping)).2).2 =
      ((cleanupSupersededConfigs overlapping).run (serve id) (Store.ofConfigs overlapping)).2 := by
  have hholds : (Store.ofConfigs overlapping).Holds sampleCluster.key overlapping := by
    refine ⟨by decide +kernel, by decide +kernel, fun c hc _ => hc, ?_⟩
    intro c hc
    have hmem : c ∈ superseded overlapping ++ afterCleanup overlapping :=
      List.mem_append_right _ hc
    rwa [superseded_append_afterCleanup] at hmem
  have hcall := traces_events refuse_faulty (cleanupSupersededConfigs overlapping)
    (Store.ofConfigs overlapping)
  exact (cleanup_exact id sampleCluster.key (by decide +kernel) (by decide +kernel) hcall).2.2.2.1
    hholds

end Cleanup

/-! ## The config whose status is mirrored -/

section Source

variable {L : List RedkeyConfig}

theorem selectActiveConfig_of_idle (h : ∀ c ∈ L, c.status.configPhase ≠ .inProgress) :
    selectActiveConfig L = L.head? := by
  have hfind : L.find? (fun c => c.status.configPhase = .inProgress) = none := by
    simpa using h
  unfold selectActiveConfig
  rw [hfind]
  split <;> rfl

theorem selectActiveConfig_of_busy (h : ∃ c ∈ L, c.status.configPhase = .inProgress) :
    selectActiveConfig L = L.find? fun c => c.status.configPhase = .inProgress := by
  obtain ⟨c, hc, hbusy⟩ := h
  unfold selectActiveConfig
  split
  case isTrue hlen =>
    obtain ⟨d, rfl⟩ := List.length_eq_one_iff.mp hlen
    obtain rfl := List.mem_singleton.mp hc
    simp [hbusy]
  case isFalse =>
    have hsome : (L.find? fun c => c.status.configPhase = .inProgress).isSome :=
      List.find?_isSome.mpr ⟨c, hc, by simpa using hbusy⟩
    obtain ⟨d, hd⟩ := Option.isSome_iff_exists.mp hsome
    rw [hd]
    rfl

/-- The first config that is left is the last Applied one, if there is one. -/
theorem source_after_cleanup (hidle : ∀ c ∈ L, c.status.configPhase ≠ .inProgress) :
    selectActiveConfig (afterCleanup L) = (afterCleanup L).head? := by
  refine selectActiveConfig_of_idle fun c hc => hidle c ?_
  rw [← superseded_append_afterCleanup L]
  exact List.mem_append_right _ hc

/-- Nothing is superseded when no config after the first one is Applied. -/
theorem superseded_eq_nil_iff : superseded L = [] ↔
    ∀ c ∈ L.tail, c.status.configPhase ≠ .applied := by
  cases hlast : lastApplied L with
  | none =>
      rw [superseded_of_lastApplied_eq_none hlast]
      refine ⟨fun _ c hc happlied => ?_, fun _ => rfl⟩
      obtain ⟨i, hi⟩ := exists_lastApplied (List.mem_of_mem_tail hc) happlied
      rw [hlast] at hi
      cases hi
  | some i =>
      rw [(superseded_of_lastApplied hlast).1]
      obtain ⟨old, a, new, rfl, rfl, ha, hnew⟩ := lastApplied_split hlast
      rw [List.take_left]
      constructor
      · rintro rfl
        exact hnew
      · intro htail
        cases old with
        | nil => rfl
        | cons c old => exact absurd ha (htail a (by simp))

/-- A config in progress is chosen with and without cleanup. -/
theorem same_source_of_busy
    (horder : L.Pairwise fun c d =>
      c.status.configPhase = .inProgress → d.status.configPhase ≠ .applied)
    (hbusy : ∃ c ∈ L, c.status.configPhase = .inProgress) :
    selectActiveConfig L = selectActiveConfig (afterCleanup L) := by
  cases hlast : lastApplied L with
  | none => rw [afterCleanup_of_lastApplied_eq_none hlast]
  | some i =>
      rw [selectActiveConfig_of_busy hbusy, (superseded_of_lastApplied hlast).2]
      obtain ⟨old, a, new, rfl, rfl, ha, -⟩ := lastApplied_split hlast
      -- before the Applied config none is in progress
      have hold : ∀ c ∈ old, c.status.configPhase ≠ .inProgress := fun c hc hprogress =>
        (List.pairwise_append.mp horder).2.2 c hc a List.mem_cons_self hprogress ha
      have hrest : ∃ c ∈ a :: new, c.status.configPhase = .inProgress := by
        obtain ⟨c, hc, hprogress⟩ := hbusy
        rcases List.mem_append.mp hc with hmem | hmem
        · exact absurd hprogress (hold c hmem)
        · exact ⟨c, hmem, hprogress⟩
      rw [List.drop_left, selectActiveConfig_of_busy hrest, List.find?_append,
        List.find?_eq_none.mpr (by simpa using hold), Option.none_or]

/-- Without one, the two choose differently as soon as something is
superseded. -/
theorem same_source_of_idle
    (hstrict : L.Pairwise fun c d => c.spec.sequence < d.spec.sequence)
    (hidle : ∀ c ∈ L, c.status.configPhase ≠ .inProgress) :
    selectActiveConfig L = selectActiveConfig (afterCleanup L) ↔ superseded L = [] := by
  rw [source_after_cleanup hidle, selectActiveConfig_of_idle hidle]
  have hL := superseded_append_afterCleanup L
  cases hsup : superseded L with
  | nil =>
      rw [hsup, List.nil_append] at hL
      rw [hL]
      simp
  | cons c old =>
      rw [hsup] at hL
      have hhead : L.head? = some c := (congrArg List.head? hL).symm
      simp only [reduceCtorEq, iff_false]
      intro hsame
      -- the oldest config would come again
      have hmem : c ∈ afterCleanup L := List.mem_of_head? (hsame.symm.trans hhead)
      rw [← hL] at hstrict
      exact Int.lt_irrefl _ ((List.pairwise_cons.mp hstrict).1 c (List.mem_append_right _ hmem))

/-- The waiting branch of `reconcileScaleToZero` mirrors the config that the
normal path mirrors exactly when one is in progress or no config after the
first one is Applied; the normal path mirrors the last Applied one. -/
theorem same_source_iff (fill : Deployment → Deployment) {kept : List RedkeyConfig}
    {s s' : Store} {tr : List (Event Call Resp)}
    (hstrict : L.Pairwise fun c d => c.spec.sequence < d.spec.sequence)
    (horder : L.Pairwise fun c d =>
      c.status.configPhase = .inProgress → d.status.configPhase ≠ .applied)
    (h : Traces (faulty fill) (cleanupSupersededConfigs L) s tr (.ok (kept, none)) s') :
    (selectActiveConfig L = selectActiveConfig kept ↔
      (∃ c ∈ L, c.status.configPhase = .inProgress) ∨
        ∀ c ∈ L.tail, c.status.configPhase ≠ .applied) ∧
    ((∀ c ∈ L, c.status.configPhase ≠ .inProgress) → ∀ a ∈ L, a.status.configPhase = .applied →
      (∀ c ∈ L, c.status.configPhase = .applied → c.spec.sequence ≤ a.spec.sequence) →
      selectActiveConfig kept = some a ∧
        (selectActiveConfig L = some a ↔ ∀ c ∈ L.tail, c.status.configPhase ≠ .applied)) := by
  obtain rfl : kept = afterCleanup L := by
    have hends := (traces_cleanup h).1
    generalize hx : (Except.ok (kept, none) : Except Err (List RedkeyConfig × Option Err)) = x
      at hends
    cases hends with
    | done => exact congrArg Prod.fst (Except.ok.inj hx)
    | failed => cases hx
  have hiff : selectActiveConfig L = selectActiveConfig (afterCleanup L) ↔
      (∃ c ∈ L, c.status.configPhase = .inProgress) ∨
        ∀ c ∈ L.tail, c.status.configPhase ≠ .applied := by
    by_cases hbusy : ∃ c ∈ L, c.status.configPhase = .inProgress
    · exact iff_of_true (same_source_of_busy horder hbusy) (Or.inl hbusy)
    · have hidle : ∀ c ∈ L, c.status.configPhase ≠ .inProgress := by simpa using hbusy
      rw [same_source_of_idle hstrict hidle, superseded_eq_nil_iff, or_iff_right hbusy]
  refine ⟨hiff, ?_⟩
  intro hidle a ha happlied hhighest
  have hsource : selectActiveConfig (afterCleanup L) = some a := by
    obtain ⟨i, hi⟩ := exists_lastApplied ha happlied
    rw [source_after_cleanup hidle, (superseded_of_lastApplied hi).2]
    obtain ⟨old, b, new, rfl, rfl, hb, hnew⟩ := lastApplied_split hi
    rw [List.drop_left, List.head?_cons]
    -- the last Applied config has the highest sequence of those
    rcases List.mem_append.mp ha with hold | hrest
    · have hlt := (List.pairwise_append.mp hstrict).2.2 a hold b List.mem_cons_self
      exact absurd (hhighest b (by simp) hb) (not_le_of_gt hlt)
    · rcases List.mem_cons.mp hrest with rfl | hmem
      · rfl
      · exact absurd happlied (hnew a hmem)
  refine ⟨hsource, ?_⟩
  rw [← hsource, hiff]
  refine or_iff_right ?_
  rintro ⟨c, hc, hprogress⟩
  exact hidle c hc hprogress

/-- A config that was never superseded, and one that waits for zero. -/
def waiting : List RedkeyConfig :=
  let first := { newConfig sampleCluster none with status := { configPhase := .applied } }
  [first, newConfig { sampleCluster with spec := { primaries := 0 } } (some first)]

/-- Here both paths mirror the Applied config. -/
theorem same_source_of_waiting : selectActiveConfig waiting =
    selectActiveConfig (afterCleanup waiting) := by
  have hcall := traces_events (M := faulty id) (h := serve id) (fun c s => Or.inl rfl)
    (cleanupSupersededConfigs waiting) (Store.ofConfigs waiting)
  rw [run_cleanup] at hcall
  exact (same_source_iff id (by decide +kernel) (by decide +kernel) hcall).1.mpr
    (Or.inr (by decide +kernel))

/-- An Applied config that is not the first one: the waiting branch mirrors
the older one. -/
theorem sources_of_overlapping_differ :
    overlapping.Pairwise (fun c d => c.spec.sequence < d.spec.sequence) ∧
    (∃ z, overlapping.getLast? = some z ∧ z.spec.primaries = 0 ∧
      z.status.configPhase ≠ .applied) ∧
    (overlapping.Pairwise fun c d =>
      c.status.configPhase = .inProgress → d.status.configPhase ≠ .applied) ∧
    (∃ tr s', Traces (faulty id) (cleanupSupersededConfigs overlapping)
      (Store.ofConfigs overlapping) tr (.ok (afterCleanup overlapping, none)) s') ∧
    (selectActiveConfig overlapping).map (·.spec.sequence) = some 1 ∧
    (selectActiveConfig (afterCleanup overlapping)).map (·.spec.sequence) = some 2 := by
  -- the call of cleanup is the one in which nothing fails
  refine ⟨by decide +kernel, ⟨_, rfl, rfl, by decide⟩, by decide +kernel, ?_, by decide +kernel,
    by decide +kernel⟩
  have hcall := traces_events (M := faulty id) (h := serve id) (fun c s => Or.inl rfl)
    (cleanupSupersededConfigs overlapping) (Store.ofConfigs overlapping)
  rw [run_cleanup] at hcall
  exact ⟨_, _, hcall⟩

end Source

end RedkeyOperator
