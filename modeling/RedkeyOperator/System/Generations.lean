import RedkeyOperator.System.LaggingRules

/-!
# No spec generation is lost

When a reconcile of a spec with primaries records its generation as observed, there should be a
config of that generation or a later one. `needsNewConfig` falls back on the observed
generation, so a generation recorded without its config is never picked up again.

Behind a cache this fails: a create request computed from an outdated list can run into a config
of an older generation, and `AlreadyExists` counts as success
(`stale_list_loses_generation`). It holds on every run in which each create request
(`FreshCreate`)

* either names a config that is there and has at least its generation,
* or carries a sequence above all that are there

(`observed_generation_has_config`). Teardowns may happen in between; `Traced` carries the
generation `z` of the last one.
-/

namespace RedkeyOperator

open Interleaved

/-- A create request that was not computed from an outdated list, as far as it
matters. Its name is taken by a config that is at least as new, or its
sequence is above all that are there. -/
def FreshCreate : Call → View → Prop
  | .createConfig config, v =>
      (∀ d ∈ v.configs.live, d.key = config.key → config.gen ≤ d.gen) ∧
      ((∀ d ∈ v.configs.live, d.key ≠ config.key) →
        ∀ d ∈ v.configs.live, d.spec.sequence < config.spec.sequence)
  | _, _ => True

instance : (c : Call) → (v : View) → Decidable (FreshCreate c v)
  | .createConfig _, _ => inferInstanceAs (Decidable (_ ∧ _))
  | .getRedkey .., _ => .isTrue trivial
  | .updateRedkeyStatus _, _ => .isTrue trivial
  | .listConfigs .., _ => .isTrue trivial
  | .deleteConfig _, _ => .isTrue trivial
  | .get .., _ => .isTrue trivial
  | .create .., _ => .isTrue trivial
  | .patch .., _ => .isTrue trivial
  | .delete .., _ => .isTrue trivial
  | .metric _, _ => .isTrue trivial

/-- Some config of the list has the key. -/
def HasKey (L : List RedkeyConfig) (k : NamespacedName) : Prop := ∃ d ∈ L, d.key = k

/-! ## The configs -/

/-- What can be said of the readable versions of the configs when everything
up to the generation `z` may have been torn down: a name stands for one
generation, names disappear from the front of the history only, and every
readable config above `z` has a successor on the server. -/
structure Traced (key : NamespacedName) (z : Int) (configs : Lag (List RedkeyConfig)) : Prop where
  dated : ∀ L ∈ configs.versions, ∀ L' ∈ configs.versions, ∀ c ∈ L, ∀ d ∈ L',
    c.key = d.key → c.gen = d.gen
  sorted : ∀ L ∈ configs.versions, ∀ c ∈ L, ∀ d ∈ L,
    c.spec.sequence < d.spec.sequence → c.gen ≤ d.gen
  /-- A name that has left the server is in every version before one that has
  it. -/
  gone : configs.Ordered fun L L' => ∀ k, HasKey L' k → ¬ HasKey configs.live k → HasKey L k
  /-- A name that is on the server is in every version after one that has
  it. -/
  kept : configs.Ordered fun L L' => ∀ k, HasKey L k → HasKey configs.live k → HasKey L' k
  /-- Above `z`, every config has a successor. -/
  followed : ∀ L ∈ configs.versions, ∀ c ∈ L, c.gen ≤ z ∨
    ∃ d ∈ configs.live, c.spec.sequence ≤ d.spec.sequence ∧ c.gen ≤ d.gen

namespace Traced

variable {key : NamespacedName} {z : Int} {configs : Lag (List RedkeyConfig)}

theorem nil : Traced key z ⟨[], []⟩ where
  dated L hL _ _ c hc := by
    obtain rfl : L = [] := by simpa [Lag.versions] using hL
    cases hc
  sorted L hL c hc := by
    obtain rfl : L = [] := by simpa [Lag.versions] using hL
    cases hc
  gone := List.pairwise_singleton _ _
  kept := List.pairwise_singleton _ _
  followed L hL c hc := by
    obtain rfl : L = [] := by simpa [Lag.versions] using hL
    cases hc

/-- A list forgets the versions before the one it has read. -/
theorem list (h : Traced key z configs) {l : Lag (List RedkeyConfig)} (hl : configs.Read l) :
    Traced key z l where
  dated L hL L' hL' := h.dated L (hl.mem hL) L' (hl.mem hL')
  sorted L hL := h.sorted L (hl.mem hL)
  gone := by
    rw [hl.1]
    exact h.gone.read hl
  kept := by
    rw [hl.1]
    exact h.kept.read hl
  followed L hL := by
    rw [hl.1]
    exact h.followed L (hl.mem hL)

/-- Once everything up to `z` counts as torn down, nothing needs a
successor. -/
theorem raise (h : Traced key z configs) {z' : Int}
    (hz : ∀ L ∈ configs.versions, ∀ c ∈ L, c.gen ≤ z') : Traced key z' configs :=
  ⟨h.dated, h.sorted, h.gone, h.kept, fun L hL c hc => Or.inl (hz L hL c hc)⟩

/-- A new version of the configs: what disappears was read, what appears has a
name that no readable version uses, and every config has a successor. -/
theorem commit (h : Traced key z configs) {new : List RedkeyConfig}
    (hdated : ∀ c ∈ new, ∀ L ∈ configs.versions, ∀ d ∈ L, c.key = d.key → c.gen = d.gen)
    (hdated' : ∀ c ∈ new, ∀ d ∈ new, c.key = d.key → c.gen = d.gen)
    (hsorted : ∀ c ∈ new, ∀ d ∈ new, c.spec.sequence < d.spec.sequence → c.gen ≤ d.gen)
    (hgone : ∀ k, HasKey configs.live k → ¬ HasKey new k → HasKey configs.head k)
    (hfresh : ∀ k, HasKey new k →
      HasKey configs.live k ∨ ∀ L ∈ configs.versions, ¬ HasKey L k)
    (hfollowed : ∀ c ∈ configs.live, c.gen ≤ z ∨
      ∃ d ∈ new, c.spec.sequence ≤ d.spec.sequence ∧ c.gen ≤ d.gen) :
    Traced key z (configs.commit new) := by
  refine ⟨?_, ?_, ?_, ?_, ?_⟩
  · -- old and old, old and new, new and old, new and new
    intro L hL L' hL' c hc d hd hkey
    rcases Lag.mem_versions_commit.mp hL with hold | rfl <;>
      rcases Lag.mem_versions_commit.mp hL' with hold' | rfl
    · exact h.dated L hold L' hold' c hc d hd hkey
    · exact (hdated d hd L hold c hc hkey.symm).symm
    · exact hdated c hc L' hold' d hd hkey
    · exact hdated' c hc d hd hkey
  · intro L hL
    rcases Lag.mem_versions_commit.mp hL with hold | rfl
    · exact h.sorted L hold
    · exact hsorted
  · refine Lag.ordered_commit.mpr ⟨List.Pairwise.imp_of_mem ?_ h.gone, ?_⟩
    · intro L L' hL _ hrel k hk hnot
      by_cases hlive : HasKey configs.live k
      · -- it was read, so it is in every readable version
        have hhead := hgone k hlive hnot
        rcases h.kept.head hL with rfl | hkept
        · exact hhead
        · exact hkept k hhead hlive
      · exact hrel k hk hlive
    · exact fun L _ k hk hnot => absurd hk hnot
  · refine Lag.ordered_commit.mpr ⟨List.Pairwise.imp_of_mem ?_ h.kept, ?_⟩
    · intro L L' hL _ hrel k hk hnew
      rcases hfresh k hnew with hlive | hnone
      · exact hrel k hk hlive
      · exact absurd hk (hnone L hL)
    · exact fun L _ k _ hnew => hnew
  · intro L hL c hc
    rcases Lag.mem_versions_commit.mp hL with hold | rfl
    · rcases h.followed L hold c hc with hz | ⟨d, hd, hseq, hgen⟩
      · exact Or.inl hz
      · rcases hfollowed d hd with hz | ⟨e, he, hseq', hgen'⟩
        · -- the successor of a successor is a successor
          exact Or.inl (hgen.trans hz)
        · exact Or.inr ⟨e, he, hseq.trans hseq', hgen.trans hgen'⟩
    · exact Or.inr ⟨c, hc, le_refl _, le_refl _⟩

theorem robinWrite (h : Traced key z configs) (k : NamespacedName) (status : RedkeyConfigStatus) :
    Traced key z (configs.commit (Configs.robinWrite configs.live k status)) := by
  -- a report adds no config and removes none, so each of the six goals is about old ones
  have hback : ∀ c ∈ Configs.robinWrite configs.live k status, ∃ d ∈ configs.live, c.Same d := by
    intro c hc
    obtain ⟨d, hd, hmeta, hspec, -⟩ := Configs.mem_robinWrite hc
    exact ⟨d, hd, hmeta, hspec⟩
  have hforth : ∀ d ∈ configs.live, ∃ c ∈ Configs.robinWrite configs.live k status, c.Same d := by
    intro d hd
    refine ⟨_, List.mem_map_of_mem hd, ?_⟩
    split
    · exact ⟨rfl, rfl⟩
    · exact ⟨rfl, rfl⟩
  refine h.commit ?_ ?_ ?_ ?_ ?_ ?_
  · intro c hc L hL d hd hkey
    obtain ⟨c₀, hc₀, hsame⟩ := hback c hc
    rw [hsame.gen]
    exact h.dated _ Lag.live_mem L hL c₀ hc₀ d hd (hsame.key ▸ hkey)
  · intro c hc d hd hkey
    obtain ⟨c₀, hc₀, hc⟩ := hback c hc
    obtain ⟨d₀, hd₀, hd⟩ := hback d hd
    rw [hc.gen, hd.gen]
    rw [hc.key, hd.key] at hkey
    exact h.dated _ Lag.live_mem _ Lag.live_mem c₀ hc₀ d₀ hd₀ hkey
  · intro c hc d hd hlt
    obtain ⟨c₀, hc₀, hc⟩ := hback c hc
    obtain ⟨d₀, hd₀, hd⟩ := hback d hd
    rw [hc.gen, hd.gen]
    rw [hc.2, hd.2] at hlt
    exact h.sorted _ Lag.live_mem c₀ hc₀ d₀ hd₀ hlt
  · rintro k' ⟨d, hd, rfl⟩ hnot
    obtain ⟨c, hc, hsame⟩ := hforth d hd
    exact absurd ⟨c, hc, hsame.key⟩ hnot
  · rintro k' ⟨c, hc, rfl⟩
    obtain ⟨d, hd, hsame⟩ := hback c hc
    exact Or.inl ⟨d, hd, hsame.key.symm⟩
  · intro d hd
    obtain ⟨c, hc, hsame⟩ := hforth d hd
    exact Or.inr ⟨c, hc, hsame.2 ▸ le_refl _, hsame.gen ▸ le_refl _⟩

/-- Deleting a config that was read and whose successors, if it needs any,
have other names. -/
theorem erase (h : Traced key z configs) {c : RedkeyConfig} (hc : c ∈ configs.head)
    (hsucc : ∀ d ∈ configs.live, d.key = c.key → d.gen ≤ z ∨
      ∃ e ∈ configs.live, e.key ≠ c.key ∧ d.spec.sequence ≤ e.spec.sequence ∧ d.gen ≤ e.gen) :
    Traced key z (configs.commit (Configs.erase configs.live c.key)) := by
  have hsub : ∀ d ∈ Configs.erase configs.live c.key, d ∈ configs.live :=
    fun d hd => (Configs.mem_erase.mp hd).1
  refine h.commit ?_ ?_ ?_ ?_ ?_ ?_
  · exact fun d hd L hL e he => h.dated _ Lag.live_mem L hL d (hsub d hd) e he
  · exact fun d hd e he => h.dated _ Lag.live_mem _ Lag.live_mem d (hsub d hd) e (hsub e he)
  · exact fun d hd e he => h.sorted _ Lag.live_mem d (hsub d hd) e (hsub e he)
  · -- only the deleted name has disappeared
    rintro k ⟨d, hd, rfl⟩ hnot
    by_cases hkey : d.key = c.key
    · exact ⟨c, hc, hkey.symm⟩
    · exact absurd ⟨d, Configs.mem_erase.mpr ⟨hd, hkey⟩, rfl⟩ hnot
  · rintro k ⟨d, hd, rfl⟩
    exact Or.inl ⟨d, hsub d hd, rfl⟩
  · intro d hd
    by_cases hkey : d.key = c.key
    · rcases hsucc d hd hkey with hz | ⟨e, he, hne, hseq, hgen⟩
      · exact Or.inl hz
      · exact Or.inr ⟨e, Configs.mem_erase.mpr ⟨he, hne⟩, hseq, hgen⟩
    · exact Or.inr ⟨d, Configs.mem_erase.mpr ⟨hd, hkey⟩, le_refl _, le_refl _⟩

/-- Cleanup deletes a config that stands below another one in the list it
read. Whatever that other one's fate, its successor is a successor. -/
theorem cleanup_succ (h : Traced key z configs)
    (hof : ∀ L ∈ configs.versions, ∀ c ∈ L, c.OfCluster key) {c a : RedkeyConfig}
    (hc : c ∈ configs.head) (ha : a ∈ configs.head) (hlt : c.spec.sequence < a.spec.sequence) :
    ∀ d ∈ configs.live, d.key = c.key → d.gen ≤ z ∨
      ∃ e ∈ configs.live, e.key ≠ c.key ∧ d.spec.sequence ≤ e.spec.sequence ∧ d.gen ≤ e.gen := by
  intro d hd hkey
  have hcof := hof _ Lag.head_mem c hc
  have hseq : d.spec.sequence = c.spec.sequence :=
    ((hof _ Lag.live_mem d hd).key_eq_iff hcof).mp hkey
  -- sequences grow with the generations in the list that was read
  have hgen : d.gen ≤ a.gen := by
    rw [h.dated _ Lag.live_mem _ Lag.head_mem d hd c hc hkey]
    exact h.sorted _ Lag.head_mem c hc a ha hlt
  rcases h.followed _ Lag.head_mem a ha with hz | ⟨e, he, hseq', hgen'⟩
  · exact Or.inl (hgen.trans hz)
  · refine Or.inr ⟨e, he, ?_, by omega, hgen.trans hgen'⟩
    rw [ne_eq, (hof _ Lag.live_mem e he).key_eq_iff hcof]
    omega

/-- A create request that succeeds. Its name is above everything in the
last-read version, and a name that is readable but not on the server would be
in there. -/
theorem create (h : Traced key z configs)
    (hof : ∀ L ∈ configs.versions, ∀ c ∈ L, c.OfCluster key) {new : RedkeyConfig}
    (hnew : new.OfCluster key)
    (habove : ∀ c ∈ configs.head, c.spec.sequence < new.spec.sequence)
    (hgen : ∀ L ∈ configs.versions, ∀ c ∈ L, c.gen ≤ new.gen)
    (hfresh : ∀ d ∈ configs.live, d.key ≠ new.key)
    (htop : ∀ d ∈ configs.live, d.spec.sequence < new.spec.sequence) :
    Traced key z (configs.commit (configs.live ++ [new])) := by
  have mem_snoc : ∀ {c}, c ∈ configs.live ++ [new] ↔ c ∈ configs.live ∨ c = new := by simp
  -- the name has never been used: a config that had it would be in the list it is above of
  have hunused : ∀ L ∈ configs.versions, ∀ c ∈ L, new.key ≠ c.key := by
    intro L hL c hc hkey
    have hnot : ¬ HasKey configs.live new.key := fun ⟨d, hd, hd'⟩ => hfresh d hd hd'
    have hhead : HasKey configs.head new.key := by
      rcases h.gone.head hL with rfl | hgone
      · exact ⟨c, hc, hkey.symm⟩
      · exact hgone new.key ⟨c, hc, hkey.symm⟩ hnot
    obtain ⟨d, hd, hdkey⟩ := hhead
    have hseq := ((hof _ Lag.head_mem d hd).key_eq_iff hnew).mp hdkey
    have := habove d hd
    omega
  refine h.commit ?_ ?_ ?_ ?_ ?_ ?_
  · intro c hc L hL d hd hkey
    rcases mem_snoc.mp hc with hc | rfl
    · exact h.dated _ Lag.live_mem L hL c hc d hd hkey
    · exact absurd hkey (hunused L hL d hd)
  · intro c hc d hd hkey
    rcases mem_snoc.mp hc with hc' | rfl <;> rcases mem_snoc.mp hd with hd' | rfl
    · exact h.dated _ Lag.live_mem _ Lag.live_mem c hc' d hd' hkey
    · exact absurd hkey (hfresh c hc')
    · exact absurd hkey.symm (hfresh d hd')
    · rfl
  · intro c hc d hd hlt
    rcases mem_snoc.mp hc with hc' | rfl <;> rcases mem_snoc.mp hd with hd' | rfl
    · exact h.sorted _ Lag.live_mem c hc' d hd' hlt
    · -- the new config is the newest
      exact hgen _ Lag.live_mem c hc'
    · -- and the highest
      have := htop d hd'
      omega
    · exact le_refl _
  · rintro k ⟨d, hd, rfl⟩ hnot
    exact absurd ⟨d, List.mem_append_left _ hd, rfl⟩ hnot
  · rintro k ⟨c, hc, rfl⟩
    rcases mem_snoc.mp hc with hc | rfl
    · exact Or.inl ⟨c, hc, rfl⟩
    · exact Or.inr fun L hL ⟨d, hd, hkey⟩ => hunused L hL d hd hkey.symm
  · exact fun c hc => Or.inr ⟨c, List.mem_append_left _ hc, le_refl _, le_refl _⟩

end Traced

/-! ## The Redkey -/

/-- The snapshot and the readable versions: the Redkeys a reconcile may still
be working on. -/
def View.seen (v : View) : List Redkey := v.snapshot :: v.redkey.versions

/-- What can be said of the Redkey when everything up to the generation `z`
may have been torn down: a version with primaries is newer, and if its
generation was observed there is a config for it. -/
structure Stamped (z : Int) (v : View) : Prop where
  bound : z ≤ v.snapshot.generation
  newer : ∀ r ∈ v.seen, r.spec.primaries ≠ 0 → z < r.generation
  observed : ∀ r ∈ v.redkey.versions, r.status.observedGeneration ≤ v.snapshot.generation
  stamped : ∀ r ∈ v.seen, r.spec.primaries ≠ 0 → r.generation ≤ r.status.observedGeneration →
    ∃ d ∈ v.configs.live, r.generation ≤ d.gen

namespace Stamped

variable {key : NamespacedName} {z : Int} {v : View}

/-- The snapshot moves on to a version that was read. -/
theorem start (h : Stamped z v) (hbasic : v.Basic key) {l : Lag Redkey} (hl : v.redkey.Read l) :
    Stamped z { v with redkey := l, snapshot := l.head } := by
  have hseen : ∀ r ∈ l.head :: l.versions, r ∈ v.seen := by
    intro r hr
    rcases List.mem_cons.mp hr with rfl | hr
    · exact List.mem_cons_of_mem _ (hl.mem Lag.head_mem)
    · exact List.mem_cons_of_mem _ (hl.mem hr)
  have hle := (hbasic.current _ (hl.mem Lag.head_mem)).1
  exact {
    bound := h.bound.trans hle
    newer := fun r hr => h.newer r (hseen r hr)
    observed := fun r hr => (h.observed r (hl.mem hr)).trans hle
    stamped := fun r hr => h.stamped r (hseen r hr) }

theorem read (h : Stamped z v) {l : Lag Redkey} (hl : v.redkey.Read l) :
    Stamped z { v with redkey := l } := by
  have hseen : ∀ r ∈ v.snapshot :: l.versions, r ∈ v.seen := by
    intro r hr
    rcases List.mem_cons.mp hr with rfl | hr
    · exact List.mem_cons_self
    · exact List.mem_cons_of_mem _ (hl.mem hr)
  exact {
    bound := h.bound
    newer := fun r hr => h.newer r (hseen r hr)
    observed := fun r hr => h.observed r (hl.mem hr)
    stamped := fun r hr => h.stamped r (hseen r hr) }

/-- A new version of the Redkey. -/
theorem commit (h : Stamped z v) {r : Redkey} (hnewer : r.spec.primaries ≠ 0 → z < r.generation)
    (hobs : r.status.observedGeneration ≤ v.snapshot.generation)
    (hstamped : r.spec.primaries ≠ 0 → r.generation ≤ r.status.observedGeneration →
      ∃ d ∈ v.configs.live, r.generation ≤ d.gen) :
    Stamped z { v with redkey := v.redkey.commit r } := by
  have hseen : ∀ r' ∈ v.snapshot :: (v.redkey.commit r).versions, r' ∈ v.seen ∨ r' = r := by
    intro r' hr'
    rcases List.mem_cons.mp hr' with rfl | hr'
    · exact Or.inl List.mem_cons_self
    · rcases Lag.mem_versions_commit.mp hr' with hold | rfl
      · exact Or.inl (List.mem_cons_of_mem _ hold)
      · exact Or.inr rfl
  refine ⟨h.bound, ?_, ?_, ?_⟩
  · intro r' hr'
    rcases hseen r' hr' with hold | rfl
    · exact h.newer r' hold
    · exact hnewer
  · intro r' hr'
    rcases Lag.mem_versions_commit.mp hr' with hold | rfl
    · exact h.observed r' hold
    · exact hobs
  · intro r' hr'
    rcases hseen r' hr' with hold | rfl
    · exact h.stamped r' hold
    · exact hstamped

theorem edit (h : Stamped z v) (hbasic : v.Basic key) (spec : RedkeySpec) :
    Stamped z { v with redkey := v.redkey.commit (v.redkey.live.edit spec) } := by
  have hlive := (hbasic.current _ Lag.live_mem).1
  have hobs := h.observed _ Lag.live_mem
  have hbound := h.bound
  refine h.commit ?_ hobs ?_
  · intro _
    simp only [Redkey.edit]
    omega
  · intro _ hle
    simp only [Redkey.edit] at hle
    omega

/-- A status write that records the snapshot's generation, for which there is
a config. -/
theorem write (h : Stamped z v) (hbasic : v.Basic key) {cluster stored : Redkey}
    (hobs : cluster.status.observedGeneration = v.snapshot.generation)
    (hw : v.redkey.live.writeStatus cluster = .ok stored)
    (hmade : v.snapshot.spec.primaries ≠ 0 →
      ∃ d ∈ v.configs.live, v.snapshot.generation ≤ d.gen) :
    Stamped z { v with redkey := v.redkey.commit stored } := by
  obtain ⟨-, rfl⟩ := Redkey.writeStatus_ok hw
  have hlive := hbasic.current _ Lag.live_mem
  refine h.commit (h.newer v.redkey.live (List.mem_cons_of_mem _ Lag.live_mem)) hobs.le ?_
  intro hp hle
  -- the generation on the server is still the snapshot's
  have heq : v.snapshot.generation = v.redkey.live.generation :=
    le_antisymm hlive.1 (hle.trans hobs.le)
  obtain ⟨d, hd, hgen⟩ := hmade (hlive.2 heq ▸ hp)
  exact ⟨d, hd, heq ▸ hgen⟩

/-- A list of the configs leaves the server as it is. -/
theorem list (h : Stamped z v) {l : Lag (List RedkeyConfig)} (hl : v.configs.Read l) :
    Stamped z { v with configs := l } := by
  refine ⟨h.bound, h.newer, h.observed, ?_⟩
  rw [show ({ v with configs := l } : View).configs.live = v.configs.live from hl.1]
  exact h.stamped

/-- A teardown on behalf of the snapshot makes its generation the bound. -/
theorem raise (h : Stamped z v) (hbasic : v.Basic key) (hzero : v.snapshot.spec.primaries = 0) :
    Stamped v.snapshot.generation v := by
  refine ⟨le_refl _, ?_, h.observed, h.stamped⟩
  intro r hr hp
  rcases List.mem_cons.mp hr with rfl | hr
  · exact absurd hzero hp
  · obtain ⟨hle, heq⟩ := hbasic.current r hr
    exact lt_of_le_of_ne hle fun hgen => hp (heq hgen ▸ hzero)

/-- A new version of the configs in which everything above `z` has a
successor. -/
theorem commitConfigs (h : Stamped z v) {new created : List RedkeyConfig}
    (hsucc : ∀ c ∈ v.configs.live, c.gen ≤ z ∨ ∃ d ∈ new, c.gen ≤ d.gen) :
    Stamped z { v with configs := v.configs.commit new, created := created } := by
  refine ⟨h.bound, h.newer, h.observed, ?_⟩
  intro r hr hp hle
  obtain ⟨d, hd, hgen⟩ := h.stamped r hr hp hle
  rcases hsucc d hd with hz | ⟨e, he, hgen'⟩
  · have := h.newer r hr hp
    omega
  · exact ⟨e, he, hgen.trans hgen'⟩

end Stamped

/-! ## Whole runs -/

/-- There is a config for the snapshot's generation, or a later one. That is
what a status write says when it records the generation. -/
def Covered (v : View) : Prop := ∃ d ∈ v.configs.live, v.snapshot.generation ≤ d.gen

/-- The invariant, with `z` as the generation of the last teardown. `made` and
`torn` are the stages of a reconcile after its config is there, and after its
teardown has begun. -/
def Tracked (key : NamespacedName) (g : Progress) (v : View) : Prop :=
  ∃ z, Traced key z v.configs ∧ Stamped z v ∧
    (g = .made → v.snapshot.spec.primaries ≠ 0 → Covered v) ∧
    (g = .torn → z = v.snapshot.generation)

/-- A new version of the configs in which everything above `z` has a successor
covers what was covered. -/
theorem Covered.commit {z : Int} {v : View} (h : Covered v) (hs : Stamped z v)
    (hp : v.snapshot.spec.primaries ≠ 0) {new created : List RedkeyConfig}
    (hsucc : ∀ c ∈ v.configs.live, c.gen ≤ z ∨ ∃ d ∈ new, c.gen ≤ d.gen) :
    Covered { v with configs := v.configs.commit new, created := created } := by
  obtain ⟨d, hd, hgen⟩ := h
  rcases hsucc d hd with hz | ⟨e, he, hgen'⟩
  · have := hs.newer v.snapshot List.mem_cons_self hp
    omega
  · exact ⟨e, he, hgen.trans hgen'⟩

/-- The invariant with a new version of the configs. -/
theorem Tracked.commit {key : NamespacedName} {g : Progress} {z : Int} {v : View}
    {new created : List RedkeyConfig} (ht : Traced key z (v.configs.commit new))
    (hs : Stamped z v) (hmade : g = .made → v.snapshot.spec.primaries ≠ 0 → Covered v)
    (htorn : g = .torn → z = v.snapshot.generation)
    (hsucc : ∀ c ∈ v.configs.live, c.gen ≤ z ∨ ∃ d ∈ new, c.gen ≤ d.gen) :
    Tracked key g { v with configs := v.configs.commit new, created := created } :=
  ⟨z, ht, hs.commitConfigs hsucc, fun hg hp => (hmade hg hp).commit hs hp hsucc, htorn⟩

/-- Deleting a config whose successors, if it needs any, have other names. -/
theorem Tracked.erase {key : NamespacedName} {g : Progress} {z : Int} {v : View} {c : RedkeyConfig}
    (ht : Traced key z v.configs) (hs : Stamped z v)
    (hmade : g = .made → v.snapshot.spec.primaries ≠ 0 → Covered v)
    (htorn : g = .torn → z = v.snapshot.generation) (hc : c ∈ v.configs.head)
    (hsucc : ∀ d ∈ v.configs.live, d.key = c.key → d.gen ≤ z ∨
      ∃ e ∈ v.configs.live, e.key ≠ c.key ∧ d.spec.sequence ≤ e.spec.sequence ∧ d.gen ≤ e.gen) :
    Tracked key g { v with configs := v.configs.commit (Configs.erase v.configs.live c.key) } := by
  refine Tracked.commit (ht.erase hc hsucc) hs hmade htorn ?_
  intro d hd
  by_cases hkey : d.key = c.key
  · rcases hsucc d hd hkey with hz | ⟨e, he, hne, -, hgen⟩
    · exact Or.inl hz
    · exact Or.inr ⟨e, Configs.mem_erase.mpr ⟨he, hne⟩, hgen⟩
  · exact Or.inr ⟨d, Configs.mem_erase.mpr ⟨hd, hkey⟩, le_refl _⟩

/-- The invariant is kept by every step of the system: one case per request
and per step of the environment. -/
theorem tracked_laws (key : NamespacedName) : View.Laws key FreshCreate (Tracked key) where
  weaken := by
    rintro g v ⟨z, ht, hs, -, -⟩
    exact ⟨z, ht, hs, by simp, by simp⟩
  env := by
    rintro g v v' hbasic ⟨z, ht, hs, hmade, htorn⟩ hstep
    cases hstep with
    -- => an edit leaves the configs alone
    | userUpdate spec => exact ⟨z, ht, hs.edit hbasic spec, hmade, htorn⟩
    | robinWrite k status =>
        refine Tracked.commit (ht.robinWrite k status) hs hmade htorn fun c hc => Or.inr ?_
        refine ⟨_, List.mem_map_of_mem hc, ?_⟩
        split
        · exact le_refl _
        · exact le_refl _
  start := by
    rintro v l hbasic ⟨z, ht, hs, -, -⟩ hread
    exact ⟨z, ht, hs.start hbasic hread, by simp, by simp⟩
  read := by
    rintro g v l _ ⟨z, ht, hs, hmade, htorn⟩ hread
    exact ⟨z, ht, hs.read hread, hmade, htorn⟩
  write := by
    rintro g v cluster stored hbasic ⟨z, ht, hs, hmade, htorn⟩ hg hobs hw
    exact ⟨z, ht, hs.write hbasic hobs hw fun hp => hmade (hg hp) hp, hmade, htorn⟩
  list := by
    rintro g v l _ ⟨z, ht, hs, hmade, htorn⟩ hread
    refine ⟨z, ht.list hread, hs.list hread, fun hg hp => ?_, htorn⟩
    obtain ⟨d, hd, hgen⟩ := hmade hg hp
    exact ⟨d, hread.1 ▸ hd, hgen⟩
  create := by
    rintro v L hbasic ⟨z, ht, hs, -, -⟩ hlists - hok hfresh
    obtain ⟨hof, hgen, -⟩ := hbasic.newConfig hlists
    -- the name was computed from the list that was read last
    have habove : ∀ c ∈ v.configs.head,
        c.spec.sequence < (newConfig v.snapshot L.getLast?).spec.sequence := fun c hc =>
      lt_nextSequence (hlists.strict.imp fun hlt => hlt.le) (hlists.perm.mem_iff.mpr hc)
    have hnewest : ∀ M ∈ v.configs.versions, ∀ c ∈ M,
        c.gen ≤ (newConfig v.snapshot L.getLast?).gen := by
      intro M hM c hc
      rw [hgen]
      exact (hbasic.notAfter M hM c hc).1
    have hkeep : ∀ c ∈ v.configs.live, c.gen ≤ z ∨
        ∃ d ∈ v.configs.live ++ [newConfig v.snapshot L.getLast?], c.gen ≤ d.gen := fun c hc =>
      Or.inr ⟨c, List.mem_append_left _ hc, le_refl _⟩
    have ht' := ht.create hbasic.ofCluster hof habove hnewest hfresh (hok.2 hfresh)
    refine ⟨z, ht', hs.commitConfigs hkeep, fun _ _ => ?_, by simp⟩
    exact ⟨_, List.mem_append_right _ List.mem_cons_self, hgen.ge⟩
  found := by
    rintro v L hbasic ⟨z, ht, hs, -, -⟩ hlists hok ⟨d, hd, hkey⟩
    refine ⟨z, ht, hs, fun _ _ => ⟨d, hd, ?_⟩, by simp⟩
    -- the config that has the name is at least as new
    rw [← (hbasic.newConfig hlists).2.1]
    exact hok.1 d hd hkey
  skip := by
    rintro v L hbasic ⟨z, ht, hs, -, -⟩ hlists hpos hno
    refine ⟨z, ht, hs, fun _ hp => ?_, by simp⟩
    -- the last listed config is current, or the generation was observed
    rcases needsNewConfig_eq_false hno with ⟨c, hlast, g, hg, hle⟩ | hobs
    · have hmem := hlists.perm.mem_iff.mp (List.mem_of_getLast? hlast)
      have hgen : g = c.gen := by
        rw [(hbasic.ofCluster _ Lag.head_mem c hmem).dated] at hg
        exact (Option.some.inj hg).symm
      -- a config of this generation was not torn down, so it has a successor
      rcases ht.followed _ Lag.head_mem c hmem with hz | ⟨d, hd, -, hgen'⟩
      · have := hs.newer v.snapshot List.mem_cons_self hp
        omega
      · exact ⟨d, hd, by omega⟩
    · exact hs.stamped v.snapshot List.mem_cons_self hp hobs
  cleanup := by
    rintro v L c d hbasic ⟨z, ht, hs, hmade, htorn⟩ hlists hc hd hlt
    have hc := hlists.perm.mem_iff.mp hc
    have hd := hlists.perm.mem_iff.mp hd
    exact Tracked.erase ht hs hmade htorn hc (ht.cleanup_succ hbasic.ofCluster hc hd hlt)
  teardown := by
    rintro v l hbasic ⟨z, ht, hs, -, -⟩ hzero - hread
    -- the snapshot's generation becomes the bound
    refine ⟨v.snapshot.generation, (ht.list hread).raise ?_, ?_, by simp, fun _ => rfl⟩
    · exact fun L hL c hc => (hbasic.notAfter L (hread.mem hL) c hc).1
    · exact (hs.raise hbasic hzero).list hread
  tear := by
    rintro v c hbasic ⟨z, ht, hs, hmade, htorn⟩ - hc
    refine Tracked.erase ht hs hmade htorn hc fun d hd _ => Or.inl ?_
    rw [htorn rfl]
    exact (hbasic.notAfter _ Lag.live_mem d hd).1

/-- A Redkey whose generation was not observed yet, as it is after its
creation. -/
def View.Unobserved (key : NamespacedName) (v : View) : Prop :=
  v.Init key ∧ v.snapshot.status.observedGeneration < v.snapshot.generation

theorem tracked_init {key : NamespacedName} {v : View} (h : v.Unobserved key) :
    Tracked key .idle v := by
  obtain ⟨h, hobs⟩ := h
  have hseen : ∀ r ∈ v.seen, r = v.snapshot := by
    intro r hr
    unfold View.seen at hr
    rw [h.redkey] at hr
    simpa [Lag.versions] using hr
  have htraced : Traced key (v.snapshot.generation - 1) v.configs := by
    rw [h.configs]
    exact Traced.nil
  refine ⟨v.snapshot.generation - 1, htraced, ?_, by simp, by simp⟩
  refine ⟨by omega, ?_, ?_, ?_⟩
  · intro r hr _
    rw [hseen r hr]
    omega
  · intro r hr
    rw [hseen r (List.mem_cons_of_mem _ hr)]
    exact hobs.le
  · intro r hr _ hle
    rw [hseen r hr] at hle
    omega

/-- On the runs whose create requests are fresh, a generation is recorded as
observed on behalf of a spec with primaries only when there is a config for
it. -/
theorem observed_generation_has_config (fill : Deployment → Deployment) (key : NamespacedName)
    {s s' : Lagging} {cluster : Redkey} {k : Resp (.updateRedkeyStatus cluster) → Rec Result}
    {r : Resp (.updateRedkeyStatus cluster)}
    (hm : Reachable (laggingRuns fill FreshCreate) (Reconciles key) (fun s => s.view.Unobserved key)
      ⟨s, some (.call (.updateRedkeyStatus cluster) k)⟩)
    (hexec : (laggingRuns fill FreshCreate).exec (.updateRedkeyStatus cluster) s r s')
    (hp : 0 < s.view.snapshot.spec.primaries) :
    ∃ d ∈ s'.view.configs.live, d.selected key.ns clusterLabel key.name = true ∧
      ∃ g, d.generation? = some g ∧ cluster.status.observedGeneration ≤ g := by
  obtain ⟨hobs, hp', hbasic, z, -, -, hmade, -⟩ :=
    (tracked_laws key).reachable_write (fun v hv => ⟨hv.1, tracked_init hv⟩) hm hexec hp.ne'
  obtain ⟨d, hd, hgen⟩ := hmade rfl hp'
  have hof := hbasic.ofCluster _ Lag.live_mem d hd
  exact ⟨d, hd, hof.selected, d.gen, hof.dated, hobs ▸ hgen⟩

/-- The first reconcile of a new cluster, up to its status write. -/
def firstStatusWrite : Machine Call Resp (Except Err Result) Lagging :=
  Prog.advance (fun c s => Lagging.answer id true c s) 15
    (reconcile { resyncInterval := 60 } 7 sampleCluster.key) (Lagging.initial sampleCluster)

theorem firstStatusWrite_reachable :
    Reachable (laggingRuns id FreshCreate) (Reconciles sampleCluster.key)
      (fun s => s.view.Unobserved sampleCluster.key) firstStatusWrite := by
  have hidle : Reachable (laggingRuns id FreshCreate) (Reconciles sampleCluster.key)
      (fun s => s.view.Unobserved sampleCluster.key) ⟨Lagging.initial sampleCluster, none⟩ :=
    Reachable.idle ⟨Lagging.initial_init (by decide), by decide⟩
  exact Lagging.reachable_answer_runs (hidle.start ⟨_, _, rfl⟩) true 15 (by decide +kernel)

/-- The first generation is recorded with its config. -/
theorem first_observed_generation_has_config :
    ∃ (cluster : Redkey) (s' : Lagging),
      nextWrite firstStatusWrite.thread = some cluster ∧
      cluster.status.observedGeneration = 1 ∧
      ∃ d ∈ s'.view.configs.live, ∃ g, d.generation? = some g ∧
        cluster.status.observedGeneration ≤ g := by
  have hobserved : (nextWrite firstStatusWrite.thread).any
      (·.status.observedGeneration == 1) = true := by decide +kernel
  obtain ⟨cluster, hcluster, hobs⟩ := (Option.any_eq_true _ _).mp hobserved
  obtain ⟨k, -, hm⟩ := reachable_nextWrite firstStatusWrite_reachable hcluster
  obtain ⟨d, hd, -, g, hg, hle⟩ := observed_generation_has_config id sampleCluster.key hm
    (Lagging.answer_exec_runs id true FreshCreate _ _ trivial) (by decide +kernel)
  exact ⟨cluster, _, hcluster, eq_of_beq hobs, d, hd, g, hg, hle⟩

/-! ### A lost generation

A new cluster is reconciled; its config `c-1` is created, and the cache has not seen it yet. The
user scales to five primaries. The next reconcile still lists nothing, asks for `c-1` again, and
takes `AlreadyExists` for success; then the cache catches up, and the second generation is
recorded as observed. -/

/-- The first reconcile, with a cache that does not move. -/
def staleReconcile : Machine Call Resp (Except Err Result) Lagging :=
  Machine.advance (fun c s => Lagging.answer id false c s) 30
    ⟨Lagging.initial sampleCluster, some (reconcile { resyncInterval := 60 } 7 sampleCluster.key)⟩

/-- The user has scaled up. -/
def scaledUp : Lagging :=
  { staleReconcile.shared with view := { staleReconcile.shared.view with
    redkey := staleReconcile.shared.view.redkey.commit
      (staleReconcile.shared.view.redkey.live.edit { primaries := 5 }) } }

/-- The second reconcile, up to its status write: the cache catches up after
the create request, which is the seventh call. -/
def lostStatusWrite : Machine Call Resp (Except Err Result) Lagging :=
  (Machine.advance (fun c s => Lagging.answer id false c s) 7
    ⟨scaledUp, some (reconcile { resyncInterval := 60 } 8 sampleCluster.key)⟩).advance
      (fun c s => Lagging.answer id true c s) 2

theorem lostStatusWrite_reachable :
    Reachable (lagging id) (Reconciles sampleCluster.key)
      (fun s => s.view.Unobserved sampleCluster.key) lostStatusWrite := by
  have hidle : Reachable (lagging id) (Reconciles sampleCluster.key)
      (fun s => s.view.Unobserved sampleCluster.key) ⟨Lagging.initial sampleCluster, none⟩ :=
    Reachable.idle ⟨Lagging.initial_init (by decide), by decide⟩
  have hfirst : Reachable (lagging id) (Reconciles sampleCluster.key)
      (fun s => s.view.Unobserved sampleCluster.key) staleReconcile :=
    Lagging.reachable_answer (hidle.start ⟨_, _, rfl⟩) false 30
  have hedit : Reachable (lagging id) (Reconciles sampleCluster.key)
      (fun s => s.view.Unobserved sampleCluster.key) ⟨scaledUp, none⟩ :=
    (hfirst.finish (by decide +kernel)).env
      ⟨View.Env.userUpdate { primaries := 5 } (by decide +kernel), rfl⟩
  exact Lagging.reachable_answer (Lagging.reachable_answer (hedit.start ⟨_, _, rfl⟩) false 7) true 2

/-- The second generation is recorded as observed, all configs are of the
first one, and `needsNewConfig` sees nothing to do. -/
theorem stale_list_loses_generation :
    ∃ (s s' : Lagging) (cluster stored : Redkey)
      (k : Resp (.updateRedkeyStatus cluster) → Rec Result),
      Reachable (lagging id) (Reconciles sampleCluster.key)
        (fun s => s.view.Unobserved sampleCluster.key)
        ⟨s, some (.call (.updateRedkeyStatus cluster) k)⟩ ∧
      (lagging id).exec (.updateRedkeyStatus cluster) s (.ok stored) s' ∧
      0 < s.view.snapshot.spec.primaries ∧
      s'.view.redkey.live.status.observedGeneration = 2 ∧
      (∀ d ∈ s'.view.configs.live, d.generation? = some 1) ∧
      needsNewConfig s'.view.redkey.live s'.view.configs.live.getLast? = false := by
  have hversion : (nextWrite lostStatusWrite.thread).any (·.resourceVersion ==
      lostStatusWrite.shared.view.redkey.live.resourceVersion) = true := by decide +kernel
  obtain ⟨cluster, hcluster, hrv⟩ := (Option.any_eq_true _ _).mp hversion
  obtain ⟨k, hk, hm⟩ := reachable_nextWrite lostStatusWrite_reachable hcluster
  have hexec := Lagging.answer_exec id true (.updateRedkeyStatus cluster) lostStatusWrite.shared
  -- the state after the write, by running one call further
  have hnext : (Lagging.answer id true (.updateRedkeyStatus cluster) lostStatusWrite.shared).2 =
      (lostStatusWrite.advance (fun c s => Lagging.answer id true c s) 1).shared := by
    unfold Machine.advance
    rw [hk]
    rfl
  have hok : ∃ stored, (Lagging.answer id true (.updateRedkeyStatus cluster)
      lostStatusWrite.shared).1 = .ok stored :=
    ⟨_, if_pos (eq_of_beq hrv).symm⟩
  obtain ⟨stored, hstored⟩ := hok
  rw [hstored, hnext] at hexec
  exact ⟨lostStatusWrite.shared, _, cluster, stored, k, hm, hexec, by decide +kernel,
    by decide +kernel, by decide +kernel, by decide +kernel⟩

end RedkeyOperator
