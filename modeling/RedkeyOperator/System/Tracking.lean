import RedkeyOperator.System.Undisturbed
import RedkeyOperator.System.Lagging

/-!
# The config of the current generation

The operator with up-to-date reads, in runs in which users edit the spec at any time, Robin reports
on the configs, and any request may be lost. Two things tell a reconcile that a generation has its
config: the highest config records it, or the status has observed it. `Tracks` says that both are
right: if one of them holds and the cluster has primaries, then the highest config is a snapshot of
the current spec, and Robin has not skipped it (`Heads`).

While a reconcile runs, neither a config nor the status is newer than the Redkey it started from
(`TracksFrom`). An edit that comes in between therefore leaves nothing to be proved about the new
generation, and a teardown for an old one does not matter to it.
-/

namespace RedkeyOperator

open Interleaved Interleaved.Op

/-! ## The system -/

/-- Robin leaves terminal phases alone, and skips a config only for a newer
one. It need not take up the configs in order. -/
def Finishes (configs : List RedkeyConfig) (c : RedkeyConfig) (status : RedkeyConfigStatus) :
    Prop :=
  (isTerminalConfigPhase c.status.configPhase = true →
    status.configPhase = c.status.configPhase) ∧
  (status.configPhase = .superseded → c.status.configPhase = .superseded ∨
    ∃ d ∈ configs, c.spec.sequence < d.spec.sequence)

instance (configs : List RedkeyConfig) (c : RedkeyConfig) (status : RedkeyConfigStatus) :
    Decidable (Finishes configs c status) :=
  inferInstanceAs (Decidable ((_ → _) ∧ (_ → _ ∨ ∃ d ∈ configs, _)))

/-- Any edit of the spec; a generation is a 64-bit number. -/
def Edits (_ : World) (live : Redkey) (_ : RedkeySpec) : Prop :=
  Decimal.InInt64 (live.generation + 1)

instance (w : World) (live : Redkey) (spec : RedkeySpec) : Decidable (Edits w live spec) :=
  inferInstanceAs (Decidable (_ ∧ _))

/-- The operator, the users who make the edits of `user`, and Robin; any call
may be lost. -/
def trackedRuns (fill : Deployment → Deployment) (key : NamespacedName)
    (user : World → Redkey → RedkeySpec → Prop) : Sem Call Resp World :=
  freshRuns fill (World.Env key user Finishes) fun _ _ _ => True

/-- `P` survives the edits of `user` and the status writes of reconciles that
started from a Redkey with `P`. Modules that know more about the users choose
another `P`, such as a bound on the primaries. -/
structure Keeps (user : World → Redkey → RedkeySpec → Prop) (P : Redkey → Prop) : Prop where
  ranged : ∀ w live spec, user w live spec → Decimal.InInt64 (live.generation + 1)
  edit : ∀ w live spec, user w live spec → P live → P (live.edit spec)
  write : ∀ live cluster status, P live → P cluster →
    status.observedGeneration = cluster.generation → P (live.written status)

/-! ## The invariant -/

/-- The highest config is the one of the Redkey's generation, and Robin has
not skipped it. -/
structure Heads (key : NamespacedName) (live : Redkey) (w : World) (c : RedkeyConfig) : Prop where
  mem : c ∈ w.configsOf key
  highest : ∀ d ∈ w.configsOf key, d.spec.sequence ≤ c.spec.sequence
  current : c.gen = live.generation
  phase : c.status.configPhase ≠ .superseded

/-- The Redkey is stored, and what is known about its generation is right. The
configs are found under their label, but created under a name; `named` says
that no other config has such a name. -/
structure Tracks (key : NamespacedName) (live : Redkey) (w : World) : Prop where
  stored : w.store.redkeys key = some live
  formed : w.Formed key
  ofCluster : ∀ c ∈ w.configsOf key, c.OfCluster key
  named : ∀ c ∈ w.store.configs, ∀ n, c.key = ⟨key.ns, Decimal.dashed key.name n⟩ →
    c ∈ w.configsOf key
  ranged : Decimal.InInt64 live.generation
  /-- The status does not get ahead of the spec. -/
  observed : live.status.observedGeneration ≤ live.generation
  notAfter : ∀ c ∈ w.configsOf key, c.gen ≤ live.generation
  /-- A config of the current generation is a snapshot of the current spec. -/
  snapshot : ∀ c ∈ w.configsOf key, c.gen = live.generation →
    ∃ highest, c.Same (newConfig live highest)
  /-- With primaries, both signs that the generation has its config are
  right. -/
  headed : live.spec.primaries ≠ 0 → live.status.observedGeneration = live.generation ∨
    (∃ c ∈ w.configsOf key, c.gen = live.generation) → ∃ c, Heads key live w c

/-- The same while the reconcile of `cluster` is running: nothing is newer
than it. `live` may be newer by any number of edits, but no config and no
status can be, because only this reconcile writes them. -/
structure TracksFrom (key : NamespacedName) (cluster live : Redkey) (w : World) : Prop
    extends Tracks key live w where
  keyed : cluster.key = key
  started : Decimal.InInt64 cluster.generation
  /-- The Redkey that is stored now is the same version or a later one. -/
  before : cluster.Before live
  /-- The status has not been set back since the reconcile started. -/
  since : cluster.status.observedGeneration ≤ live.status.observedGeneration
  seen : live.status.observedGeneration ≤ cluster.generation
  behind : ∀ c ∈ w.configsOf key, c.gen ≤ cluster.generation

/-- A cluster without configs whose names are free. Its generation was not
observed yet. -/
structure Untouched (key : NamespacedName) (live : Redkey) (w : World) : Prop where
  stored : w.store.redkeys key = some live
  formed : w.Formed key
  configs : w.configsOf key = []
  free : ∀ c ∈ w.store.configs, ∀ n, c.key ≠ ⟨key.ns, Decimal.dashed key.name n⟩
  ranged : Decimal.InInt64 live.generation
  observed : live.status.observedGeneration < live.generation

variable {key : NamespacedName} {live cluster : Redkey} {w w' : World} {c t : RedkeyConfig}

/-- The invariant holds at the start, since there is nothing it could be wrong
about. -/
theorem Untouched.tracks (h : Untouched key live w) : Tracks key live w where
  stored := h.stored
  formed := h.formed
  ofCluster c hc := by simp [h.configs] at hc
  named c hc n hn := absurd hn (h.free c hc n)
  ranged := h.ranged
  observed := h.observed.le
  notAfter c hc := by simp [h.configs] at hc
  snapshot c hc := by simp [h.configs] at hc
  headed := by
    rintro - (hobs | ⟨c, hc, -⟩)
    · exact absurd hobs h.observed.ne
    · simp [h.configs] at hc

/-- A report leaves the highest config where it is. -/
theorem Heads.robinWrite (h : Heads key live w c) (hw : w.Formed key)
    {status : RedkeyConfigStatus} (ht : t ∈ w.configsOf key)
    (hreport : Finishes (w.configsOf key) t status) :
    ∃ c', Heads key live (w.robinWrite t.key status) c' := by
  obtain ⟨c', hc', hspec, hstatus⟩ := hw.exists_robinWrite status ht h.mem
  obtain ⟨c₀, hc₀, hmeta, hspec₀, -⟩ := hw.mem_robinWrite ht hc'
  obtain rfl : c₀ = c := hw.eq_of_sequence hc₀ h.mem (by rw [← hspec₀, hspec])
  refine ⟨c', hc', ?_, ?_, ?_⟩
  · intro d hd
    obtain ⟨d₀, hd₀, -, hspec', -⟩ := hw.mem_robinWrite ht hd
    rw [hspec', hspec]
    exact h.highest d₀ hd₀
  · exact (RedkeyConfig.Same.gen ⟨hmeta, hspec⟩).trans h.current
  · rcases hstatus with ⟨rfl, -⟩ | ⟨rfl, hnew⟩
    · exact h.phase
    · -- there is no newer config it could be skipped for
      intro hskip
      rw [hnew] at hskip
      rcases hreport.2 hskip with hold | ⟨d, hd, hlt⟩
      · exact h.phase hold
      · exact absurd (h.highest d hd) (not_le_of_gt hlt)

/-- So does the deletion of another one. -/
theorem Heads.eraseConfig (h : Heads key live w c) {k : NamespacedName} (hk : c.key ≠ k) :
    Heads key live (w.eraseConfig k) c :=
  ⟨mem_configsOf_eraseConfig.mpr ⟨h.mem, hk⟩,
    fun d hd => h.highest d (mem_configsOf_eraseConfig.mp hd).1, h.current, h.phase⟩

/-- A config depends on the key, the generation and the spec only. The status
of the Redkey a reconcile has started from may be outdated. -/
theorem newConfig_congr {highest : Option RedkeyConfig} (hkey : cluster.key = live.key)
    (hgen : cluster.generation = live.generation) (hspec : cluster.spec = live.spec) :
    newConfig cluster highest = newConfig live highest := by
  obtain ⟨hns, hname⟩ : cluster.ns = live.ns ∧ cluster.name = live.name := by
    simpa [Redkey.key] using hkey
  simp only [newConfig, hns, hname, hgen, hspec]

/-- The config of a generation that nothing is newer than: it gets the highest
sequence, and nobody has reported on it yet. -/
theorem Heads.addConfig {highest : Option RedkeyConfig} (hkey : cluster.key = key)
    (hranged : Decimal.InInt64 cluster.generation) (hgen : live.generation = cluster.generation)
    (habove : ∀ d ∈ w.configsOf key, d.spec.sequence < nextSequence highest) :
    Heads key live (w.addConfig (newConfig cluster highest)) (newConfig cluster highest) where
  mem := by
    refine mem_configsOf.mpr ⟨List.mem_append_right _ List.mem_cons_self, ?_⟩
    rw [← hkey]
    exact newConfig_selected cluster highest
  highest d hd := by
    rcases mem_configsOf_addConfig hd with hd | rfl
    · exact (habove d hd).le
    · exact le_refl _
  current := by
    rw [RedkeyConfig.gen, newConfig_generation cluster highest hranged, hgen]
    rfl
  phase := fun h => by cases h

namespace Tracks

theorem setRobin (h : Tracks key live w) (robin : (k : Kind) → Objs k) :
    Tracks key live (w.setRobin robin) :=
  { h with
    formed := h.formed.setRobin robin
    headed := fun hp hsign =>
      (h.headed hp hsign).imp fun _ hc => ⟨hc.mem, hc.highest, hc.current, hc.phase⟩ }

/-- An edit: nothing has observed the new generation yet. -/
theorem edit (h : Tracks key live w) (spec : RedkeySpec)
    (hranged : Decimal.InInt64 (live.generation + 1)) :
    Tracks key (live.edit spec) (w.setRedkey key (live.edit spec)) where
  stored := Store.setRedkey_redkeys_self _ _ _
  formed := h.formed.setRedkey ((Redkey.edit_key _ _).trans (h.formed.keyed live h.stored))
  ofCluster := h.ofCluster
  named := h.named
  ranged := hranged
  observed := h.observed.trans (Int.lt_succ _).le
  notAfter c hc := (h.notAfter c hc).trans (Int.lt_succ _).le
  snapshot c hc hgen := absurd (hgen ▸ h.notAfter c hc) (not_le_of_gt (Int.lt_succ _))
  headed := by
    rintro - (hobs | ⟨c, hc, hgen⟩)
    · exact absurd (hobs ▸ h.observed) (not_le_of_gt (Int.lt_succ _))
    · exact absurd (hgen ▸ h.notAfter c hc) (not_le_of_gt (Int.lt_succ _))

/-- A report: the configs keep their metadata and specs, so only `headed`
depends on what it says. -/
theorem robinWrite (h : Tracks key live w) {status : RedkeyConfigStatus}
    (ht : t ∈ w.configsOf key) (hreport : Finishes (w.configsOf key) t status) :
    Tracks key live (w.robinWrite t.key status) where
  stored := h.stored
  formed := h.formed.robinWrite _ _
  ofCluster c hc := by
    obtain ⟨c₀, hc₀, hmeta, hspec, -⟩ := h.formed.mem_robinWrite ht hc
    exact RedkeyConfig.Same.ofCluster ⟨hmeta, hspec⟩ (h.ofCluster c₀ hc₀)
  named c hc n hn := by
    obtain ⟨c₀, hc₀, hmeta, hspec, -⟩ := Configs.mem_robinWrite hc
    have hkey : c.key = c₀.key := RedkeyConfig.Same.key ⟨hmeta, hspec⟩
    refine mem_configsOf.mpr ⟨hc, ?_⟩
    rw [selected_congr hmeta]
    exact (mem_configsOf.mp (h.named c₀ hc₀ n (hkey ▸ hn))).2
  ranged := h.ranged
  observed := h.observed
  notAfter c hc := by
    obtain ⟨c₀, hc₀, hmeta, hspec, -⟩ := h.formed.mem_robinWrite ht hc
    rw [RedkeyConfig.Same.gen ⟨hmeta, hspec⟩]
    exact h.notAfter c₀ hc₀
  snapshot c hc hgen := by
    obtain ⟨c₀, hc₀, hmeta, hspec, -⟩ := h.formed.mem_robinWrite ht hc
    rw [RedkeyConfig.Same.gen ⟨hmeta, hspec⟩] at hgen
    obtain ⟨highest, hsame⟩ := h.snapshot c₀ hc₀ hgen
    exact ⟨highest, hmeta.trans hsame.1, hspec.trans hsame.2⟩
  headed hp hsign := by
    -- the signs are the same as before the report
    have hsign' : live.status.observedGeneration = live.generation ∨
        ∃ c ∈ w.configsOf key, c.gen = live.generation := by
      refine hsign.imp_right ?_
      rintro ⟨c, hc, hgen⟩
      obtain ⟨c₀, hc₀, hmeta, hspec, -⟩ := h.formed.mem_robinWrite ht hc
      exact ⟨c₀, hc₀, RedkeyConfig.Same.gen ⟨hmeta, hspec⟩ ▸ hgen⟩
    obtain ⟨c, hc⟩ := h.headed hp hsign'
    exact hc.robinWrite h.formed ht hreport

/-- A status write that records a generation with its config. -/
theorem write (h : Tracks key live w) {status : RedkeyStatus}
    (hle : status.observedGeneration ≤ live.generation)
    (hmade : live.spec.primaries ≠ 0 → status.observedGeneration = live.generation →
      ∃ c, Heads key live w c) :
    Tracks key (live.written status) (w.setRedkey key (live.written status)) where
  stored := Store.setRedkey_redkeys_self _ _ _
  formed := h.formed.setRedkey (h.formed.keyed live h.stored)
  ofCluster := h.ofCluster
  named := h.named
  ranged := h.ranged
  observed := hle
  notAfter := h.notAfter
  snapshot := h.snapshot
  headed hp hsign := by
    have hheads : ∃ c, Heads key live w c := by
      rcases hsign with hobs | hc
      · exact hmade hp hobs
      · exact h.headed hp (Or.inr hc)
    exact hheads.imp fun _ hc => ⟨hc.mem, hc.highest, hc.current, hc.phase⟩

/-- A deletion, if the config of the generation is still there afterwards. -/
theorem eraseConfig (h : Tracks key live w) {k : NamespacedName}
    (hmade : live.spec.primaries ≠ 0 → live.status.observedGeneration = live.generation ∨
      (∃ c ∈ w.configsOf key, c.gen = live.generation) →
      ∃ c, Heads key live (w.eraseConfig k) c) :
    Tracks key live (w.eraseConfig k) where
  stored := h.stored
  formed := h.formed.eraseConfig k
  ofCluster c hc := h.ofCluster c (mem_configsOf_eraseConfig.mp hc).1
  named c hc n hn := by
    obtain ⟨hmem, hne⟩ := Configs.mem_erase.mp hc
    exact mem_configsOf_eraseConfig.mpr ⟨h.named c hmem n hn, hne⟩
  ranged := h.ranged
  observed := h.observed
  notAfter c hc := h.notAfter c (mem_configsOf_eraseConfig.mp hc).1
  snapshot c hc := h.snapshot c (mem_configsOf_eraseConfig.mp hc).1
  headed hp hsign := by
    refine hmade hp (hsign.imp_right ?_)
    rintro ⟨c, hc, hgen⟩
    exact ⟨c, (mem_configsOf_eraseConfig.mp hc).1, hgen⟩

/-- The name of the next config is free: a config with such a name is one of
the cluster, and has a lower sequence. -/
theorem name_free (h : Tracks key live w) {highest : Option RedkeyConfig} (hkey : cluster.key = key)
    (hpos : 1 ≤ nextSequence highest)
    (habove : ∀ d ∈ w.configsOf key, d.spec.sequence < nextSequence highest) :
    ∀ d ∈ w.store.configs, d.key ≠ (newConfig cluster highest).key := by
  intro d hd heq
  subst hkey
  have hmem := h.named d hd _ heq
  have hof := h.ofCluster d hmem
  rw [hof.named] at heq
  -- two configs with one name have one sequence
  have hseq := (Decimal.dashed_inj (le_trans (by decide) hof.positive) (le_trans (by decide) hpos)
    (congrArg NamespacedName.name heq)).2
  exact (habove d hmem).ne hseq

end Tracks

namespace TracksFrom

/-- A reconcile starts from the Redkey as it is stored. -/
theorem start (h : Tracks key live w) : TracksFrom key live live w :=
  { h with
    keyed := h.formed.keyed live h.stored
    started := h.ranged
    before := Redkey.Before.refl live
    since := le_refl _
    seen := h.observed
    behind := h.notAfter }

/-- Only the generation the reconcile started from can have its config, or be
observed. -/
theorem generation_eq (h : TracksFrom key cluster live w)
    (hsign : live.status.observedGeneration = live.generation ∨
      ∃ c ∈ w.configsOf key, c.gen = live.generation) : live.generation = cluster.generation := by
  refine le_antisymm ?_ h.before.1
  rcases hsign with hobs | ⟨c, hc, hgen⟩
  · exact hobs ▸ h.seen
  · exact hgen ▸ h.behind c hc

/-- Robin's objects are not mentioned here either. -/
theorem setRobin (h : TracksFrom key cluster live w) (robin : (k : Kind) → Objs k) :
    TracksFrom key cluster live (w.setRobin robin) :=
  { h with toTracks := h.toTracks.setRobin robin }

/-- An edit in the middle of a reconcile: it is outdated from here on. -/
theorem edit (h : TracksFrom key cluster live w) (spec : RedkeySpec)
    (hranged : Decimal.InInt64 (live.generation + 1)) :
    TracksFrom key cluster (live.edit spec) (w.setRedkey key (live.edit spec)) :=
  { h with
    toTracks := h.toTracks.edit spec hranged
    before := h.before.trans ⟨(Int.lt_succ _).le, fun heq => absurd heq (Int.lt_succ _).ne⟩ }

/-- Reports do not touch what the reconcile knows of generations. -/
theorem robinWrite (h : TracksFrom key cluster live w) {status : RedkeyConfigStatus}
    (ht : t ∈ w.configsOf key) (hreport : Finishes (w.configsOf key) t status) :
    TracksFrom key cluster live (w.robinWrite t.key status) :=
  { h with
    toTracks := h.toTracks.robinWrite ht hreport
    behind := by
      intro c hc
      obtain ⟨c₀, hc₀, hmeta, hspec, -⟩ := h.formed.mem_robinWrite ht hc
      rw [RedkeyConfig.Same.gen ⟨hmeta, hspec⟩]
      exact h.behind c₀ hc₀ }

/-- The reconcile records the generation it started from. -/
theorem write (h : TracksFrom key cluster live w) {status : RedkeyStatus}
    (hobs : status.observedGeneration = cluster.generation)
    (hmade : cluster.spec.primaries ≠ 0 → live.generation = cluster.generation →
      ∃ c, Heads key live w c) :
    TracksFrom key cluster (live.written status) (w.setRedkey key (live.written status)) :=
  { h with
    toTracks := by
      refine h.toTracks.write (hobs ▸ h.before.1) ?_
      intro hp hgen
      -- it is the current one only if nothing was edited
      rw [hobs] at hgen
      exact hmade (h.before.2 hgen ▸ hp) hgen.symm
    since := le_trans (le_trans h.since h.seen) (le_of_eq hobs.symm)
    seen := le_of_eq hobs }

/-- The reconcile creates the config of the generation it started from. -/
theorem addConfig (h : TracksFrom key cluster live w) {highest : Option RedkeyConfig}
    (hpos : 1 ≤ nextSequence highest)
    (habove : ∀ d ∈ w.configsOf key, d.spec.sequence < nextSequence highest) :
    TracksFrom key cluster live (w.addConfig (newConfig cluster highest)) := by
  obtain rfl := h.keyed
  have hgen : (newConfig cluster highest).gen = cluster.generation := by
    rw [RedkeyConfig.gen, newConfig_generation cluster highest h.started]
    rfl
  have hof : (newConfig cluster highest).OfCluster cluster.key := by
    have hrecorded := newConfig_generation cluster highest h.started
    exact ⟨newConfig_selected cluster highest, rfl, hpos, hgen.symm ▸ hrecorded⟩
  -- the new config is the only one that is not there already
  have hnew : ∀ {Q : RedkeyConfig → Prop}, (∀ c ∈ w.configsOf cluster.key, Q c) →
      Q (newConfig cluster highest) →
      ∀ c ∈ (w.addConfig (newConfig cluster highest)).configsOf cluster.key, Q c := by
    intro Q hold hQ c hc
    rcases mem_configsOf_addConfig hc with hc | rfl
    · exact hold c hc
    · exact hQ
  have hbehind := hnew h.behind hgen.le
  have hformed := h.formed.addConfig rfl (h.toTracks.name_free rfl hpos habove)
  have hsnapshot := hnew (Q := fun c => c.gen = live.generation →
      ∃ highest, c.Same (newConfig live highest)) h.snapshot (by
    intro hlive
    have hsame : cluster.generation = live.generation := hgen.symm.trans hlive
    rw [newConfig_congr (h.formed.keyed live h.stored).symm hsame (h.before.2 hsame)]
    exact ⟨highest, rfl, rfl⟩)
  have htracks : Tracks cluster.key live (w.addConfig (newConfig cluster highest)) := {
    stored := h.stored
    formed := hformed
    ofCluster := hnew h.ofCluster hof
    named := by
      intro c hc n hn
      rcases List.mem_append.mp hc with hc | hc
      · exact mem_addConfig_of_mem (h.named c hc n hn)
      · refine mem_configsOf.mpr ⟨List.mem_append_right _ hc, ?_⟩
        rw [List.mem_singleton.mp hc]
        exact hof.selected
    ranged := h.ranged
    observed := h.observed
    notAfter := hnew h.notAfter (hgen ▸ h.before.1)
    snapshot := hsnapshot
    headed := by
      intro hp hsign
      have hle : live.generation ≤ cluster.generation := by
        rcases hsign with hobs | ⟨c, hc, hlive⟩
        · exact hobs ▸ h.seen
        · exact hlive ▸ hbehind c hc
      have hsame : live.generation = cluster.generation := le_antisymm hle h.before.1
      exact ⟨_, Heads.addConfig rfl h.started hsame habove⟩ }
  exact { h with toTracks := htracks, behind := hbehind }

/-- A deletion that does not hit the config of the generation. -/
theorem eraseConfig (h : TracksFrom key cluster live w) {k : NamespacedName}
    (hmade : cluster.spec.primaries ≠ 0 → live.generation = cluster.generation →
      ∃ c, Heads key live (w.eraseConfig k) c) :
    TracksFrom key cluster live (w.eraseConfig k) :=
  { h with
    toTracks := by
      refine h.toTracks.eraseConfig ?_
      intro hp hsign
      have hgen := h.generation_eq hsign
      exact hmade (h.before.2 hgen.symm ▸ hp) hgen
    behind := fun c hc => h.behind c (mem_configsOf_eraseConfig.mp hc).1 }

end TracksFrom

/-! ## Assertions -/

/-- The config of the generation the reconcile started from is there, unless
it is outdated. -/
def MadeFor (key : NamespacedName) (cluster live : Redkey) (w : World) : Prop :=
  live.generation = cluster.generation → ∃ c, Heads key live w c

/-- `L` shows the configs of the cluster, up to their status. This lasts from
the list to the create, since only this reconcile creates and deletes
configs. -/
structure Shows (key : NamespacedName) (L : List RedkeyConfig) (w : World) : Prop where
  strict : L.Pairwise fun a b => a.spec.sequence < b.spec.sequence
  complete : ∀ c ∈ w.configsOf key, ∃ d ∈ L, d.Same c
  present : ∀ d ∈ L, ∃ c ∈ w.configsOf key, d.Same c

/-- No config of `L` is above all that are there. This is what is left of
`Shows` while cleanup deletes configs. -/
structure Topped (key : NamespacedName) (L : List RedkeyConfig) (w : World) : Prop where
  strict : L.Pairwise fun a b => a.spec.sequence < b.spec.sequence
  ofCluster : ∀ c ∈ L, c.OfCluster key
  top : ∃ top ∈ w.configsOf key, ∀ c ∈ L, c.spec.sequence ≤ top.spec.sequence

/-- What a list returns, after sorting. -/
theorem Shows.of_list (h : w.Formed key) {items : List RedkeyConfig}
    (hperm : items.Perm (w.configsOf key)) : Shows key (sortBySequence items) w where
  strict := by
    have hmem : ∀ c ∈ sortBySequence items, c ∈ w.configsOf key :=
      fun c hc => hperm.mem_iff.mp (mem_sortBySequence.mp hc)
    -- names are unique, so no config is listed twice
    have hnodup : (sortBySequence items).Nodup :=
      ((perm_sortBySequence items).trans hperm).nodup_iff.mpr
        (List.Nodup.filter _ (List.Nodup.of_map _ h.nodup))
    refine ((sorted_sortBySequence items).and hnodup).imp_of_mem ?_
    intro c d hc hd hcd
    exact lt_of_le_of_ne hcd.1 fun heq => hcd.2 (h.eq_of_sequence (hmem c hc) (hmem d hd) heq)
  complete c hc := ⟨c, mem_sortBySequence.mpr (hperm.mem_iff.mpr hc), rfl, rfl⟩
  present d hd := ⟨d, hperm.mem_iff.mp (mem_sortBySequence.mp hd), rfl, rfl⟩

namespace Shows

variable {L : List RedkeyConfig}

theorem robinWrite (h : Shows key L w) (hw : w.Formed key) {status : RedkeyConfigStatus}
    (ht : t ∈ w.configsOf key) : Shows key L (w.robinWrite t.key status) where
  strict := h.strict
  complete c hc := by
    obtain ⟨c₀, hc₀, hmeta, hspec, -⟩ := hw.mem_robinWrite ht hc
    obtain ⟨d, hd, hsame⟩ := h.complete c₀ hc₀
    exact ⟨d, hd, hsame.1.trans hmeta.symm, hsame.2.trans hspec.symm⟩
  present d hd := by
    obtain ⟨c, hc, hsame⟩ := h.present d hd
    obtain ⟨c', hc', hspec, hstatus⟩ := hw.exists_robinWrite status ht hc
    obtain ⟨c₀, hc₀, hmeta, hspec₀, -⟩ := hw.mem_robinWrite ht hc'
    obtain rfl : c₀ = c := hw.eq_of_sequence hc₀ hc (by rw [← hspec₀, hspec])
    exact ⟨c', hc', hsame.1.trans hmeta.symm, hsame.2.trans hspec.symm⟩

/-- The order that `Highest` and cleanup rely on. -/
theorem sorted (h : Shows key L w) : L.Pairwise fun a b => a.spec.sequence ≤ b.spec.sequence :=
  h.strict.imp fun hlt => hlt.le

/-- The next sequence is above every config. -/
theorem above (h : Shows key L w) :
    ∀ d ∈ w.configsOf key, d.spec.sequence < nextSequence L.getLast? := by
  intro d hd
  obtain ⟨c, hc, hsame⟩ := h.complete d hd
  exact hsame.2 ▸ lt_nextSequence h.sorted hc

theorem positive (h : Shows key L w) (hof : ∀ c ∈ w.configsOf key, c.OfCluster key) :
    1 ≤ nextSequence L.getLast? := by
  cases hlast : L.getLast? with
  | none => exact le_refl _
  | some last =>
      obtain ⟨c, hc, hsame⟩ := h.present last (List.mem_of_getLast? hlast)
      have hpos := (hsame.ofCluster (hof c hc)).positive
      simp only [nextSequence]
      omega

/-- The last config of the list is the highest one there is. -/
theorem topped (h : Shows key L w) (hof : ∀ c ∈ w.configsOf key, c.OfCluster key) (hne : L ≠ []) :
    Topped key L w where
  strict := h.strict
  ofCluster d hd := by
    obtain ⟨c, hc, hsame⟩ := h.present d hd
    exact hsame.ofCluster (hof c hc)
  top := by
    have hlast : L.getLast? = some (L.getLast hne) := List.getLast?_eq_some_getLast hne
    obtain ⟨c, hc, hsame⟩ := h.present _ (List.getLast_mem hne)
    exact ⟨c, hc, fun d hd => hsame.2 ▸ sequence_le_getLast h.sorted hlast hd⟩

end Shows

namespace Topped

variable {L : List RedkeyConfig}

theorem robinWrite (h : Topped key L w) (hw : w.Formed key) {status : RedkeyConfigStatus}
    (ht : t ∈ w.configsOf key) : Topped key L (w.robinWrite t.key status) where
  strict := h.strict
  ofCluster := h.ofCluster
  top := by
    obtain ⟨top, htop, hle⟩ := h.top
    obtain ⟨top', htop', hspec, -⟩ := hw.exists_robinWrite status ht htop
    exact ⟨top', htop', fun c hc => hspec ▸ hle c hc⟩

/-- A config that stands before another one is below the top. -/
theorem below (h : Topped key L w) {old new : List RedkeyConfig} {a : RedkeyConfig}
    (hL : L = old ++ a :: new) (hc : c ∈ old) :
    c.OfCluster key ∧ ∃ top ∈ w.configsOf key, (∀ c ∈ L, c.spec.sequence ≤ top.spec.sequence) ∧
      c.spec.sequence < top.spec.sequence := by
  obtain ⟨top, htop, hle⟩ := h.top
  subst hL
  refine ⟨h.ofCluster c (by simp [hc]), top, htop, hle, ?_⟩
  refine lt_of_lt_of_le ?_ (hle a (by simp))
  exact (List.pairwise_append.mp h.strict).2.2 c hc a List.mem_cons_self

end Topped

/-- Deleting an old config leaves the top, and the config of the generation
with it. -/
theorem TracksFrom.eraseOld {L : List RedkeyConfig} (hw : TracksFrom key cluster live w)
    (hmade : MadeFor key cluster live w) (htopped : Topped key L w) {old new : List RedkeyConfig}
    {a : RedkeyConfig} (hL : L = old ++ a :: new) (hc : c ∈ old) :
    TracksFrom key cluster live (w.eraseConfig c.key) ∧
      MadeFor key cluster live (w.eraseConfig c.key) ∧ Topped key L (w.eraseConfig c.key) := by
  obtain ⟨hof, top, htop, hle, hlt⟩ := htopped.below hL hc
  have hne : ∀ d ∈ w.configsOf key, top.spec.sequence ≤ d.spec.sequence → d.key ≠ c.key := by
    intro d hd hled heq
    have hseq := ((hw.ofCluster d hd).key_eq_iff hof).mp heq
    omega
  have hmade' : MadeFor key cluster live (w.eraseConfig c.key) := by
    intro hgen
    obtain ⟨d, hd⟩ := hmade hgen
    exact ⟨d, hd.eraseConfig (hne d hd.mem (hd.highest top htop))⟩
  have htop' : top ∈ (w.eraseConfig c.key).configsOf key :=
    mem_configsOf_eraseConfig.mpr ⟨htop, hne top htop (le_refl _)⟩
  have htopped' : Topped key L (w.eraseConfig c.key) :=
    ⟨htopped.strict, htopped.ofCluster, top, htop', hle⟩
  exact ⟨hw.eraseConfig fun _ => hmade', hmade', htopped'⟩

/-! ## A reconcile -/

namespace Tracking

/-- The invariant of the idle system. -/
def Idle (key : NamespacedName) (P : Redkey → Prop) (w : World) : Prop :=
  ∃ live, P live ∧ Tracks key live w

/-- The reconcile of `cluster` is running, and has got as far as `F` says. `F`
may speak of the Redkey that is stored and of the configs. -/
def Run (key : NamespacedName) (P : Redkey → Prop) (cluster : Redkey) (F : Redkey → World → Prop)
    (w : World) : Prop :=
  P cluster ∧ ∃ live, P live ∧ TracksFrom key cluster live w ∧ F live w

/-- The state after a reconcile that succeeded: with primaries, the status has
observed the generation it started from. -/
def Observed (key : NamespacedName) (P : Redkey → Prop) (w : World) : Prop :=
  ∃ cluster live, P cluster ∧ P live ∧ Tracks key live w ∧
    (cluster.spec.primaries ≠ 0 → live.status.observedGeneration = cluster.generation)

/-- The other parties keep `F`, as long as the reconcile of `cluster` is
running. -/
structure Lasts (key : NamespacedName) (user : World → Redkey → RedkeySpec → Prop)
    (cluster : Redkey) (F : Redkey → World → Prop) : Prop where
  edit : ∀ live w spec, user w live spec → TracksFrom key cluster live w → F live w →
    F (live.edit spec) (w.setRedkey key (live.edit spec))
  robin : ∀ live w t status, TracksFrom key cluster live w → F live w → t ∈ w.configsOf key →
    Finishes (w.configsOf key) t status → F live (w.robinWrite t.key status)

section Lasts

variable {user : World → Redkey → RedkeySpec → Prop}

theorem lasts_true : Lasts key user cluster fun _ _ => True :=
  ⟨fun _ _ _ _ _ _ => trivial, fun _ _ _ _ _ _ _ _ => trivial⟩

theorem Lasts.and {F F' : Redkey → World → Prop} (h : Lasts key user cluster F)
    (h' : Lasts key user cluster F') :
    Lasts key user cluster fun live w => F live w ∧ F' live w where
  edit live w spec hu hw hF := ⟨h.edit live w spec hu hw hF.1, h'.edit live w spec hu hw hF.2⟩
  robin live w t status hw hF ht hr :=
    ⟨h.robin live w t status hw hF.1 ht hr, h'.robin live w t status hw hF.2 ht hr⟩

theorem lasts_shows {L : List RedkeyConfig} : Lasts key user cluster fun _ w => Shows key L w where
  edit _ _ _ _ _ h := ⟨h.strict, h.complete, h.present⟩
  robin _ _ _ _ hw h ht _ := h.robinWrite hw.formed ht

theorem lasts_topped {L : List RedkeyConfig} :
    Lasts key user cluster fun _ w => Topped key L w where
  edit _ _ _ _ _ h := ⟨h.strict, h.ofCluster, h.top⟩
  robin _ _ _ _ hw h ht _ := h.robinWrite hw.formed ht

/-- The config is there until the generation moves on. -/
theorem lasts_made : Lasts key user cluster (MadeFor key cluster) where
  edit live w spec _ hw _ hgen := by
    have hle := hw.before.1
    change live.generation + 1 = cluster.generation at hgen
    omega
  robin live w t status hw h ht hr hgen := by
    obtain ⟨c, hc⟩ := h hgen
    exact hc.robinWrite hw.formed ht hr

/-- A report leaves the configs where they are. -/
theorem lasts_some : Lasts key user cluster fun _ w => ∃ c, c ∈ w.configsOf key where
  edit _ _ _ _ _ h := h
  robin _ _ _ status hw h ht _ := by
    obtain ⟨c, hc⟩ := h
    obtain ⟨c', hc', -⟩ := hw.formed.exists_robinWrite status ht hc
    exact ⟨c', hc'⟩

end Lasts

section Triples

variable {fill : Deployment → Deployment} {user : World → Redkey → RedkeySpec → Prop}
variable {P : Redkey → Prop} {F : Redkey → World → Prop} {L : List RedkeyConfig}
variable {now : Time} {r : RedkeyReconciler}

/-- What holds during a reconcile is enough for the next one, wherever this
one ends. -/
theorem Run.idle (h : Run key P cluster F w) : Idle key P w := by
  obtain ⟨-, live, hlive, hw, -⟩ := h
  exact ⟨live, hlive, hw.toTracks⟩

/-- What was known last may be replaced by what follows from it. -/
theorem Run.imp {F' : Redkey → World → Prop} (h : Run key P cluster F w)
    (himp : ∀ live, TracksFrom key cluster live w → F live w → F' live w) :
    Run key P cluster F' w := by
  obtain ⟨hcluster, live, hlive, hw, hF⟩ := h
  exact ⟨hcluster, live, hlive, hw, himp live hw hF⟩

theorem Observed.idle (h : Observed key P w) : Idle key P w := by
  obtain ⟨-, live, -, hlive, hw, -⟩ := h
  exact ⟨live, hlive, hw⟩

/-- Users and Robin may take steps at any point of a reconcile. -/
theorem stable_run (hP : Keeps user P) (hF : Lasts key user cluster F) :
    Stable (trackedRuns fill key user) (Run key P cluster F) := by
  rintro w w' ⟨-, henv⟩ ⟨hcluster, live, hlive, hw, hFw⟩
  cases henv with
  | @userUpdate live' spec hstored hedit =>
      obtain rfl : live' = live := Option.some.inj (hstored.symm.trans hw.stored)
      have hlive' : P (live'.edit spec) := hP.edit w live' spec hedit hlive
      have hw' := hw.edit spec (hP.ranged w live' spec hedit)
      have hFw' := hF.edit live' w spec hedit hw hFw
      exact ⟨hcluster, live'.edit spec, hlive', hw', hFw'⟩
  | @robinWrite t status ht hreport =>
      have hw' := hw.robinWrite ht hreport
      have hFw' := hF.robin live w t status hw hFw ht hreport
      exact ⟨hcluster, live, hlive, hw', hFw'⟩

theorem stable_idle (hP : Keeps user P) : Stable (trackedRuns fill key user) (Idle key P) := by
  rintro w w' ⟨-, henv⟩ ⟨live, hlive, hw⟩
  cases henv with
  | @userUpdate live' spec hstored hedit =>
      obtain rfl : live' = live := Option.some.inj (hstored.symm.trans hw.stored)
      have hlive' : P (live'.edit spec) := hP.edit w live' spec hedit hlive
      have hw' := hw.edit spec (hP.ranged w live' spec hedit)
      exact ⟨live'.edit spec, hlive', hw'⟩
  | robinWrite ht hreport => exact ⟨live, hlive, hw.robinWrite ht hreport⟩

theorem stable_observed (hP : Keeps user P) :
    Stable (trackedRuns fill key user) (Observed key P) := by
  rintro w w' ⟨-, henv⟩ ⟨cluster, live, hcluster, hlive, hw, hobs⟩
  cases henv with
  | @userUpdate live' spec hstored hedit =>
      obtain rfl : live' = live := Option.some.inj (hstored.symm.trans hw.stored)
      have hlive' : P (live'.edit spec) := hP.edit w live' spec hedit hlive
      have hw' := hw.edit spec (hP.ranged w live' spec hedit)
      -- an edit leaves the status as it is
      exact ⟨cluster, live'.edit spec, hcluster, hlive', hw', hobs⟩
  | robinWrite ht hreport =>
      have hw' := hw.robinWrite ht hreport
      exact ⟨cluster, live, hcluster, hlive, hw', hobs⟩

/-- A triple of the system with the invariant after errors. -/
abbrev TrackTriple {α : Type} (fill : Deployment → Deployment) (key : NamespacedName)
    (user : World → Redkey → RedkeySpec → Prop) (P : Redkey → Prop) (A : World → Prop) (p : Rec α)
    (Q : α → World → Prop) : Prop :=
  Triple (trackedRuns fill key user) (fun _ _ _ _ => True) (Idle key P) A p Q

theorem quiet : Quiet (trackedRuns fill key user) fun _ _ _ _ => True :=
  fresh_quiet fun _ _ _ => trivial

/-- Work on Robin's objects keeps what does not mention them. -/
theorem run_robin_triple {G : (c : Call) → World → Resp c → World → Prop} {I : World → Prop}
    (hP : Keeps user P) (hF : Lasts key user cluster F)
    (hrobin : ∀ live w robin, F live w → F live (w.setRobin robin))
    (hI : ∀ w, Run key P cluster F w → I w)
    (hG : ∀ c w r w', Run key P cluster F w' → G c w r w') {α : Type} {p : Rec α}
    (hp : p.Uses (KeyedReads fun _ => True) (Call.OnRobin fun _ => True)) :
    Triple (trackedRuns fill key user) G I (Run key P cluster F) p
      fun _ => Run key P cluster F := by
  refine fresh_robin_triple (stable_run hP hF) hI ?_ (fun c w r w' _ _ hw' => hG c w r w' hw') hp
  rintro w robin ⟨hcluster, live, hlive, hw, hFw⟩
  exact ⟨hcluster, live, hlive, hw.setRobin robin, hrobin live w robin hFw⟩

/-- The same with the invariant after errors. -/
theorem robin_triple (hP : Keeps user P) (hF : Lasts key user cluster F)
    (hrobin : ∀ live w robin, F live w → F live (w.setRobin robin)) {α : Type} {p : Rec α}
    (hp : p.Uses (KeyedReads fun _ => True) (Call.OnRobin fun _ => True)) :
    TrackTriple fill key user P (Run key P cluster F) p fun _ => Run key P cluster F :=
  run_robin_triple hP hF hrobin (fun _ hw => hw.idle) (fun _ _ _ _ _ => trivial) hp

theorem list_triple (hP : Keeps user P) (hF : Lasts cluster.key user cluster F) :
    TrackTriple fill cluster.key user P (Run cluster.key P cluster F) (listConfigs cluster)
      fun L => Run cluster.key P cluster fun live w => F live w ∧ Shows cluster.key L w := by
  refine fresh_list_triple (stable_run hP hF) (fun w hw => hw.idle) (fun _ _ _ => trivial) ?_
  intro w items hw hperm _
  exact hw.imp fun live hw hF => ⟨hF, Shows.of_list hw.formed hperm⟩

/-- The next config is created: its name is free, so the server cannot answer
AlreadyExists. -/
theorem run_create_triple {I : World → Prop} (hP : Keeps user P)
    (hF : Lasts cluster.key user cluster F)
    (hI : ∀ w, Run cluster.key P cluster (fun live w => F live w ∧ Shows cluster.key L w) w → I w)
    (hI' : ∀ w, Run cluster.key P cluster (fun live w => MadeFor cluster.key cluster live w ∧
      ∃ c, c ∈ w.configsOf cluster.key) w → I w) :
    Triple (trackedRuns fill cluster.key user) (fun _ _ _ _ => True) I
      (Run cluster.key P cluster fun live w => F live w ∧ Shows cluster.key L w)
      (createNewConfig cluster L.getLast?) fun _ => Run cluster.key P cluster fun live w =>
        MadeFor cluster.key cluster live w ∧ ∃ c, c ∈ w.configsOf cluster.key := by
  refine fresh_create_found_triple quiet (stable_run hP (hF.and lasts_shows))
    (stable_run hP (lasts_made.and lasts_some)) hI hI' (fun _ _ _ _ _ => trivial) ?_ ?_
  · rintro w ⟨hcluster, live, hlive, hw, -, hshows⟩ -
    have hw' := hw.addConfig (hshows.positive hw.ofCluster) hshows.above
    refine ⟨hcluster, live, hlive, hw', ?_, ?_⟩
    · -- it is the highest one now
      exact fun hgen => ⟨_, Heads.addConfig rfl hw.started hgen hshows.above⟩
    · refine ⟨newConfig cluster L.getLast?, mem_configsOf.mpr ⟨?_, newConfig_selected cluster _⟩⟩
      exact List.mem_append_right _ List.mem_cons_self
  · rintro w ⟨-, live, -, hw, -, hshows⟩ ⟨c, hc, hkey⟩
    exact absurd hkey (hw.toTracks.name_free rfl (hshows.positive hw.ofCluster) hshows.above c hc)

/-- The same with the invariant after errors. -/
theorem create_triple (hP : Keeps user P) (hF : Lasts cluster.key user cluster F) :
    TrackTriple fill cluster.key user P
      (Run cluster.key P cluster fun live w => F live w ∧ Shows cluster.key L w)
      (createNewConfig cluster L.getLast?) fun _ => Run cluster.key P cluster fun live w =>
        MadeFor cluster.key cluster live w ∧ ∃ c, c ∈ w.configsOf cluster.key :=
  run_create_triple hP hF (fun _ hw => hw.idle) fun _ hw => hw.idle

/-- Cleanup deletes configs before the last Applied one. The config of the
generation is the highest, so it stays. -/
theorem cleanup_triple (hP : Keeps user P) (hne : L ≠ []) :
    TrackTriple fill key user P
      (Run key P cluster fun live w => MadeFor key cluster live w ∧ Topped key L w)
      (cleanupSupersededConfigs L) fun res w =>
        (res.2 = none → res.1 ≠ [] ∧ Run key P cluster (MadeFor key cluster) w) ∧
        (res.2 ≠ none → Idle key P w) := by
  refine (cleanupSupersededConfigs_triple quiet (stable_run hP (lasts_made.and lasts_topped)) L
    ?_).post ?_
  · intro i hi c hc
    obtain ⟨old, a, new, hL, rfl, -, -⟩ := lastApplied_split hi
    rw [hL, List.take_left] at hc
    refine fresh_delete_call (G := fun _ _ _ _ => True) (fun _ _ _ _ _ => trivial) ?_
    rintro w ⟨hcluster, live, hlive, hw, hmade, htopped⟩
    exact ⟨hcluster, live, hlive, hw.eraseOld hmade htopped hL hc⟩
  · rintro ⟨kept, err⟩ w ⟨hw, hkept⟩
    refine ⟨fun herr => ⟨?_, hw.imp fun _ _ h => h.1⟩, fun _ => hw.idle⟩
    rw [hkept herr]
    exact afterCleanup_ne_nil hne

/-- A status write of the reconcile: it is accepted, or the reconcile is where
it was. If its answer is lost, it may have been accepted as well. -/
theorem write_call (hP : Keeps user P) (written : Redkey) (hkey : written.key = key)
    (hobs : written.status.observedGeneration = cluster.generation)
    (hF : ∀ live w, cluster.spec.primaries ≠ 0 → F live w → MadeFor key cluster live w)
    (hFwrite : ∀ live w status, F live w →
      F (live.written status) (w.setRedkey key (live.written status))) :
    ∀ w r w', Run key P cluster F w →
      (trackedRuns fill key user).exec (.updateRedkeyStatus written) w r w' →
      Outcome (fun _ => Run key P cluster fun live w => F live w ∧ live.status = written.status)
        (Run key P cluster F) r w' := by
  have hcall : ∀ w live stored, Run key P cluster F w → w.store.redkeys written.key = some live →
      live.writeStatus written = .ok stored →
      Run key P cluster (fun live w => F live w ∧ live.status = written.status)
        (w.setRedkey written.key stored) := by
    rintro w live stored ⟨hcluster, live', hlive, hw, hFw⟩ hstored hwrite
    rw [hkey] at hstored ⊢
    obtain rfl : live = live' := Option.some.inj (hstored.symm.trans hw.stored)
    obtain ⟨-, rfl⟩ := Redkey.writeStatus_ok hwrite
    have hlive' : P (live.written written.status) :=
      hP.write live cluster written.status hlive hcluster hobs
    have hw' := hw.write hobs fun hp => hF live w hp hFw
    have hFw' := hFwrite live w written.status hFw
    exact ⟨hcluster, live.written written.status, hlive', hw', hFw', rfl⟩
  -- answered, lost on the way there, or lost on the way back
  rintro w r w' hw (⟨-, hexec⟩ | ⟨rfl, rfl | ⟨r₀, -, hexec⟩⟩)
  · rcases exec_updateRedkeyStatus hexec with ⟨live, stored, hlive, hstored, rfl, rfl⟩ |
      ⟨⟨e, rfl⟩, rfl, -⟩
    · exact hcall w live stored hw hlive hstored
    · exact hw
  · exact hw
  · rcases exec_updateRedkeyStatus hexec with ⟨live, stored, hlive, hstored, rfl, rfl⟩ |
      ⟨⟨e, rfl⟩, rfl, -⟩
    · exact (hcall w live stored hw hlive hstored).imp fun _ _ h => h.1
    · exact hw

/-- The status of a success is the generation that was reconciled. `G` is a
guarantee of the calls that follows from what is known. -/
theorem run_aggregate_triple {G : (c : Call) → World → Resp c → World → Prop} {I : World → Prop}
    (hP : Keeps user P) (hF : Lasts cluster.key user cluster F)
    (hmade : ∀ live w, cluster.spec.primaries ≠ 0 → F live w → MadeFor cluster.key cluster live w)
    (hwrite : ∀ live w status, F live w →
      F (live.written status) (w.setRedkey cluster.key (live.written status)))
    (hI : ∀ w, Run cluster.key P cluster F w → I w)
    (hG : ∀ c w r w', Run cluster.key P cluster F w' → G c w r w') :
    Triple (trackedRuns fill cluster.key user) G I (Run cluster.key P cluster F)
      (aggregateStatus now cluster L) fun _ => Run cluster.key P cluster fun live w =>
        F live w ∧ (L ≠ [] → live.status.observedGeneration = cluster.generation) := by
  refine aggregateStatus_writes_triple (B := fun latest w => latest.key = cluster.key ∧
    Run cluster.key P cluster F w) hI (stable_run hP hF)
    (fun latest w w' hstep hw => ⟨hw.1, stable_run hP hF w w' hstep hw.2⟩) ?_ ?_ ?_
  · intro hnone w hw
    -- a list with a config has an active one
    refine hw.imp fun live w h => ⟨h, fun hne => ?_⟩
    obtain ⟨active, hactive⟩ := exists_active hne
    cases hnone.symm.trans hactive
  · rintro w r w' hw (⟨-, hexec⟩ | ⟨rfl, rfl | ⟨r₀, -, hexec⟩⟩)
    · obtain ⟨rfl, rfl⟩ := exec_getRedkey hexec
      refine ⟨hG _ _ _ _ hw, ?_⟩
      cases hfind : find w'.store.redkeys cluster.key with
      | ok latest =>
          obtain ⟨hcluster, live, hlive, hw, hF⟩ := hw
          exact ⟨hw.formed.keyed latest (find_eq_ok.mp hfind), hcluster, live, hlive, hw, hF⟩
      | error e => exact hw
    · exact ⟨hG _ _ _ _ hw, hw⟩
    · obtain ⟨-, rfl⟩ := exec_getRedkey hexec
      exact ⟨hG _ _ _ _ hw, hw⟩
  · -- the status names the generation of the Redkey the reconcile started from
    rintro activeConfig _ latest w r w' ⟨hkey, hw⟩ hexec
    have hout := write_call hP
      { latest with status := aggregatedStatus now cluster.generation latest activeConfig } hkey rfl
      hmade hwrite w r w' hw hexec
    cases r with
    | ok _ =>
        obtain ⟨hcluster, live, hlive, hw', hFw, hstatus⟩ := hout
        refine ⟨hG _ _ _ _ ⟨hcluster, live, hlive, hw', hFw⟩, hcluster, live, hlive, hw', hFw, ?_⟩
        exact fun _ => by rw [hstatus]; rfl
    | error e => exact ⟨hG _ _ _ _ hout, hout⟩

/-- A reconcile that gets here with primaries has a config to aggregate. -/
theorem aggregate_triple (hP : Keeps user P) (hF : Lasts cluster.key user cluster F)
    (hmade : ∀ live w, cluster.spec.primaries ≠ 0 → F live w → MadeFor cluster.key cluster live w)
    (hwrite : ∀ live w status, F live w →
      F (live.written status) (w.setRedkey cluster.key (live.written status)))
    (hne : cluster.spec.primaries ≠ 0 → L ≠ []) :
    TrackTriple fill cluster.key user P (Run cluster.key P cluster F)
      (aggregateStatus now cluster L) fun _ => Observed cluster.key P := by
  refine (run_aggregate_triple hP hF hmade hwrite (fun w hw => hw.idle)
    fun _ _ _ _ _ => trivial).post ?_
  rintro - w ⟨hcluster, live, hlive, hw, -, hobs⟩
  exact ⟨cluster, live, hcluster, hlive, hw.toTracks, fun hp => hobs (hne hp)⟩

/-- The status of a cluster without primaries is written from the Redkey that
the reconcile started from. -/
theorem run_scaledToZero_triple {I : World → Prop} (hP : Keeps user P)
    (hF : Lasts cluster.key user cluster F)
    (hwrite : ∀ live w status, F live w →
      F (live.written status) (w.setRedkey cluster.key (live.written status)))
    (hzero : cluster.spec.primaries = 0) (hI : ∀ w, Run cluster.key P cluster F w → I w) :
    Triple (trackedRuns fill cluster.key user) (fun _ _ _ _ => True) I (Run cluster.key P cluster F)
      (updateStatusScaledToZero now cluster) fun _ => Run cluster.key P cluster fun live w =>
        F live w ∧ live.status = scaledToZeroStatus now cluster := by
  refine api_triple (stable_run hP hF) ?_
  intro w r w' hw hexec
  refine ⟨trivial, ?_⟩
  have hout := write_call hP { cluster with status := scaledToZeroStatus now cluster } rfl rfl
    (fun _ _ hp _ => absurd hzero hp) hwrite w r w' hw hexec
  cases r with
  | ok _ => exact hout
  | error e => exact hI w' hout

/-- It says nothing about a generation with primaries. -/
theorem scaledToZero_triple (hP : Keeps user P) (hF : Lasts cluster.key user cluster F)
    (hwrite : ∀ live w status, F live w →
      F (live.written status) (w.setRedkey cluster.key (live.written status)))
    (hzero : cluster.spec.primaries = 0) :
    TrackTriple fill cluster.key user P (Run cluster.key P cluster F)
      (updateStatusScaledToZero now cluster) fun _ => Observed cluster.key P := by
  refine (run_scaledToZero_triple hP hF hwrite hzero fun w hw => hw.idle).post ?_
  rintro - w ⟨hcluster, live, hlive, hw, -⟩
  exact ⟨cluster, live, hcluster, hlive, hw.toTracks, fun hp => absurd hzero hp⟩

/-- A teardown deletes what it likes: the config of a generation with
primaries is not there. -/
theorem deleteAll_triple (hP : Keeps user P) (hzero : cluster.spec.primaries = 0) :
    TrackTriple fill cluster.key user P (Run cluster.key P cluster fun _ _ => True)
      (deleteAllConfigs cluster) fun _ => Run cluster.key P cluster fun _ _ => True := by
  have hstable : Stable (trackedRuns fill cluster.key user)
      (Run cluster.key P cluster fun _ _ => True) := stable_run hP lasts_true
  refine Triple.bind (Q := fun _ => Run cluster.key P cluster fun _ _ => True)
    (Triple.request hstable ?_) ?_
  · intro w r w' hw hexec
    have hsame : w' = w := freshRuns_state (A := fun w' => w' = w) rfl
      (fun _ _ _ hexec => (exec_listConfigs hexec).2) hexec
    rw [hsame]
    exact ⟨trivial, hw⟩
  · intro r
    match r with
    | .error e => exact Triple.throw fun _ hw => hw.idle
    | .ok items =>
        refine deleteConfigs_triple (A := fun _ => Run cluster.key P cluster fun _ _ => True)
          (fun _ => hstable) items ?_
        intro c rest _ w r w' hw hexec
        have hw' : Run cluster.key P cluster (fun _ _ => True) w' := by
          refine (fresh_delete_call (G := fun _ _ _ _ => True) (fun _ _ _ _ _ => trivial) ?_
            w r w' hw hexec).2
          rintro w ⟨hcluster, live, hlive, hw, -⟩
          exact ⟨hcluster, live, hlive, hw.eraseConfig fun hp => absurd hzero hp, trivial⟩
        refine ⟨trivial, ?_⟩
        cases r with
        | ok _ => exact hw'
        -- a config that is gone already is no failure
        | error e => exact tolerating_error.mpr ⟨fun _ => hw', fun _ => hw'.idle⟩

/-- The four cases of the scale-to-zero path. -/
theorem zero_triple (hP : Keeps user P) (hzero : cluster.spec.primaries = 0) :
    TrackTriple fill cluster.key user P (Run cluster.key P cluster fun _ _ => True)
      (reconcileScaleToZero r now cluster) fun _ => Observed cluster.key P := by
  refine reconcileScaleToZero_triple _ (list_triple hP lasts_true) ?_ ?_ ?_ ?_
  · exact (scaledToZero_triple hP lasts_true (fun _ _ _ _ => trivial) hzero).pre
      fun w hw => hw.imp fun _ _ _ => trivial
  · intro L c hlast _
    -- the configs that were listed are still there after Robin's objects were repaired
    have hrobin : ∀ (_ : Redkey) (w : World) robin, True ∧ Shows cluster.key L w →
        True ∧ Shows cluster.key L (w.setRobin robin) :=
      fun _ _ _ h => ⟨h.1, h.2.strict, h.2.complete, h.2.present⟩
    refine Triple.bind (robin_triple hP (lasts_true.and lasts_shows) hrobin
      (ensureRBAC_uses trivial)) fun _ => ?_
    refine Triple.bind (robin_triple hP (lasts_true.and lasts_shows) hrobin
      (ensureRobinDeployment_uses trivial)) fun _ => ?_
    -- the config that asks Robin to scale down is created
    rw [← hlast]
    refine (create_triple hP lasts_true).post ?_
    rintro - w ⟨hcluster, live, hlive, hw, -⟩
    exact ⟨cluster, live, hcluster, hlive, hw.toTracks, fun hp => absurd hzero hp⟩
  · intro L c _ _ _
    -- Robin has finished: everything is deleted
    refine Triple.pre (A := Run cluster.key P cluster fun _ _ => True) ?_ fun w hw =>
      hw.imp fun _ _ _ => trivial
    refine Triple.bind (robin_triple hP lasts_true (fun _ _ _ h => h)
      (deleteRobinDeployment_uses trivial)) fun _ => ?_
    refine Triple.bind (robin_triple hP lasts_true (fun _ _ _ h => h)
      (deleteRBAC_uses trivial)) fun _ => ?_
    -- the last two stages of the teardown
    refine Triple.bind (deleteAll_triple hP hzero) fun _ => ?_
    exact scaledToZero_triple hP lasts_true (fun _ _ _ _ => trivial) hzero
  · intro L c _ _ _
    refine Triple.pre (A := Run cluster.key P cluster fun _ _ => True) ?_ fun w hw =>
      hw.imp fun _ _ _ => trivial
    refine Triple.bind (robin_triple hP lasts_true (fun _ _ _ h => h)
      (ensureRBAC_uses trivial)) fun _ => ?_
    refine Triple.bind (robin_triple hP lasts_true (fun _ _ _ h => h)
      (ensureRobinDeployment_uses trivial)) fun _ => ?_
    exact aggregate_triple hP lasts_true (fun _ _ hp _ => absurd hzero hp) (fun _ _ _ _ => trivial)
      fun hp => absurd hzero hp

theorem configs_triple (hP : Keeps user P) (hpos : cluster.spec.primaries ≠ 0) :
    TrackTriple fill cluster.key user P (Run cluster.key P cluster fun _ _ => True)
      (reconcileConfigs r now cluster) fun _ => Observed cluster.key P := by
  have hrobin : ∀ (live : Redkey) (w : World) (robin : (k : Kind) → Objs k), True → True :=
    fun _ _ _ h => h
  refine reconcileConfigs_triple
    (fun L => Run cluster.key P cluster fun _ w => True ∧ Shows cluster.key L w)
    (Run cluster.key P cluster fun live w => MadeFor cluster.key cluster live w ∧
      ∃ c, c ∈ w.configsOf cluster.key)
    (fun L => Run cluster.key P cluster fun live w => (MadeFor cluster.key cluster live w ∧
      ∃ c, c ∈ w.configsOf cluster.key) ∧ Shows cluster.key L w)
    (fun L w => L ≠ [] ∧ Run cluster.key P cluster (MadeFor cluster.key cluster) w) quiet
    (stable_idle hP) (stable_observed hP)
    (robin_triple hP lasts_true hrobin (ensureRBAC_uses trivial))
    (robin_triple hP lasts_true hrobin (ensureRobinDeployment_uses trivial))
    (list_triple hP lasts_true) ?_ (list_triple hP (lasts_made.and lasts_some)) ?_ ?_ ?_ ?_
  · exact fun L _ => create_triple hP lasts_true
  · -- no new config is needed: the last one is current, or the status has observed the generation
    rintro L w hne hno ⟨hcluster, live, hlive, hw, -, hshows⟩
    have hsome : ∃ c, c ∈ w.configsOf cluster.key := by
      obtain ⟨d, hd⟩ := List.exists_mem_of_ne_nil L hne
      obtain ⟨c, hc, -⟩ := hshows.present d hd
      exact ⟨c, hc⟩
    refine ⟨hcluster, live, hlive, hw, ⟨fun hgen => ?_, hsome⟩, hshows⟩
    refine hw.headed (hw.before.2 hgen.symm ▸ hpos) ?_
    rcases needsNewConfig_eq_false hno with ⟨d, hlast, g, hg, hle⟩ | hobs
    · obtain ⟨c, hc, hsame⟩ := hshows.present d (List.mem_of_getLast? hlast)
      have hdg : d.gen = g := by rw [RedkeyConfig.gen, hg]; rfl
      refine Or.inr ⟨c, hc, le_antisymm (hw.notAfter c hc) ?_⟩
      rw [hgen, ← hsame.gen, hdg]
      exact hle
    · exact Or.inl (le_antisymm hw.observed (hgen ▸ hobs.trans hw.since))
  · -- an empty list shows that there is no config, but there is one
    rintro w ⟨-, live, -, -, ⟨-, c, hc⟩, hshows⟩
    obtain ⟨d, hd, -⟩ := hshows.complete c hc
    cases hd
  · intro L hne
    refine (cleanup_triple hP hne).pre ?_
    exact fun w hw => hw.imp fun live hw h => ⟨h.1.1, h.2.topped hw.ofCluster hne⟩
  · rintro L w ⟨hne, hw⟩
    refine aggregate_triple hP lasts_made (fun _ _ _ h => h) ?_ (fun _ => hne) w hw
    intro live w status h hgen
    exact (h hgen).imp fun _ hc => ⟨hc.mem, hc.highest, hc.current, hc.phase⟩

/-- A reconcile keeps the invariant, and leaves the generation observed when
it succeeds. -/
theorem reconcile_triple (hP : Keeps user P) :
    TrackTriple fill key user P (Idle key P) (reconcile r now key) fun _ => Observed key P := by
  refine RedkeyOperator.reconcile_triple
    (fun cluster w => cluster.key = key ∧ Run key P cluster (fun _ _ => True) w) quiet
    (stable_idle hP) (stable_observed hP) (stable_idle hP)
    (fresh_get_call (G := fun _ _ _ _ => True) (fun _ hw => hw) (fun _ _ _ => trivial) ?_ ?_) ?_ ?_
  · rintro w cluster ⟨live, hlive, hw⟩ hstored
    obtain rfl : cluster = live := Option.some.inj (hstored.symm.trans hw.stored)
    have hkey : cluster.key = key := hw.formed.keyed cluster hstored
    exact ⟨hkey, hlive, cluster, hlive, TracksFrom.start hw, trivial⟩
  · rintro w ⟨live, -, hw⟩ hnone
    cases hnone.symm.trans hw.stored
  · rintro cluster hzero w ⟨rfl, hw⟩
    exact zero_triple hP hzero w hw
  · rintro cluster hpos w ⟨rfl, hw⟩
    exact configs_triple hP hpos w hw

/-! ## Whole runs -/

variable {init : World → Prop}

/-- Every reconcile starts from the invariant and leads back to it. -/
theorem rounds (hP : Keeps user P) : Rounds (trackedRuns fill key user) (fun _ _ _ _ => True)
    (Reconciles key) (Idle key P) (Observed key P) where
  stable := stable_idle hP
  stable_ok := stable_observed hP
  weaken _ h := h.idle
  entry := by
    rintro p ⟨r, now, rfl⟩
    exact reconcile_triple hP

/-- The invariant holds whenever no reconcile is running. -/
theorem reachable_idle (hP : Keeps user P) (hinit : ∀ w, init w → Idle key P w)
    (hm : Reachable (trackedRuns fill key user) (Reconciles key) init ⟨w, none⟩) : Idle key P w :=
  (rounds hP).idle hinit hm

/-- A reconcile that has succeeded has observed the generation it started
from. -/
theorem reachable_observed (hP : Keeps user P) (hinit : ∀ w, init w → Idle key P w) {res : Result}
    (hm : Reachable (trackedRuns fill key user) (Reconciles key) init ⟨w, some (.ret (.ok res))⟩) :
    Observed key P w :=
  (rounds hP).ok hinit hm

end Triples

end Tracking

end RedkeyOperator
