import RedkeyOperator.System.Convergence
import RedkeyOperator.System.Teardown

/-!
# Hibernation

The counterpart of convergence for a cluster with `primaries = 0`. The operator asks Robin for zero
with a config, and takes everything down once Robin has applied it. When no deletion of a config is
lost on the way, two reconciles that succeed are enough, with Robin finishing the configs in between
(`hibernates`), from every state but one kind: the highest config asks for zero, and Robin has
skipped it.

A teardown that is interrupted can lead there, when it has deleted the configs above an older one
for zero. No reconcile ever leaves such a state again, unless the spec is edited: the operator waits
for Robin to apply a config that Robin is done with (`stuck_stays`).
-/

namespace RedkeyOperator

open Interleaved Interleaved.Op

/-! ## The highest config -/

/-- The config with the highest sequence, the only one that the scale-to-zero
path looks at. -/
structure Tops (key : NamespacedName) (w : World) (c : RedkeyConfig) : Prop where
  mem : c ∈ w.configsOf key
  highest : ∀ d ∈ w.configsOf key, d.spec.sequence ≤ c.spec.sequence

/-- The highest config asks for zero, and Robin has skipped it. It will never
be Applied, so the teardown never comes. -/
def Stuck (key : NamespacedName) (w : World) : Prop :=
  ∃ c, Tops key w c ∧ c.spec.primaries = 0 ∧ c.status.configPhase = .superseded

/-- The highest config, if there is one, asks for zero, and Robin has not
skipped it. -/
def Asked (key : NamespacedName) (w : World) : Prop :=
  ∀ c, Tops key w c → c.spec.primaries = 0 ∧ c.status.configPhase ≠ .superseded

instance (key : NamespacedName) (w : World) : Decidable (Stuck key w) :=
  decidable_of_iff (∃ c ∈ w.configsOf key, (∀ d ∈ w.configsOf key,
      d.spec.sequence ≤ c.spec.sequence) ∧ c.spec.primaries = 0 ∧ c.status.configPhase = .superseded)
    ⟨fun ⟨c, hc, hmax, h⟩ => ⟨c, ⟨hc, hmax⟩, h⟩, fun ⟨c, hc, h⟩ => ⟨c, hc.mem, hc.highest, h⟩⟩

/-- Nothing runs, and the status says so: ready, with zero replicas, for the
current generation. -/
structure Asleep (key : NamespacedName) (live : Redkey) (w : World) : Prop where
  stored : w.store.redkeys key = some live
  configs : w.configsOf key = []
  observed : live.status.observedGeneration = live.generation
  replicas : live.status.replicas = 0
  phase : live.status.phase = .ready
  status : live.status.status = .unset

variable {key : NamespacedName} {live cluster : Redkey} {w w' : World} {c d t : RedkeyConfig}
variable {L : List RedkeyConfig}

/-- Only the configs matter for this, neither the Redkey nor Robin's
objects. -/
theorem stuck_congr (h : w'.configsOf key = w.configsOf key) : Stuck key w' ↔ Stuck key w := by
  have htops : ∀ c, Tops key w' c ↔ Tops key w c := by
    intro c
    constructor
    · exact fun hc => ⟨h ▸ hc.mem, h ▸ hc.highest⟩
    · exact fun hc => ⟨h ▸ hc.mem, h ▸ hc.highest⟩
  simp only [Stuck, htops]

/-- There is at most one highest config, as a sequence names one config. -/
theorem Tops.unique (hw : w.Formed key) (hc : Tops key w c) (hd : Tops key w d) : c = d :=
  hw.eq_of_sequence hc.mem hd.mem (le_antisymm (hd.highest c hc.mem) (hc.highest d hd.mem))

/-- The highest config before a report is the highest one after it, and Robin
does not skip it: there is no newer one to skip it for. -/
theorem Tops.of_robinWrite (hw : w.Formed key) {status : RedkeyConfigStatus}
    (ht : t ∈ w.configsOf key) (hr : Finishes (w.configsOf key) t status)
    (hc : Tops key (w.robinWrite t.key status) c) :
    ∃ c₀, Tops key w c₀ ∧ c.spec = c₀.spec ∧
      (c.status.configPhase = .superseded ↔ c₀.status.configPhase = .superseded) := by
  obtain ⟨c₀, hc₀, -, hspec, hstatus⟩ := hw.mem_robinWrite ht hc.mem
  -- a report changes no sequence
  have htop : Tops key w c₀ := by
    refine ⟨hc₀, fun d hd => ?_⟩
    obtain ⟨d', hd', hspec', -⟩ := hw.exists_robinWrite status ht hd
    rw [← hspec', ← hspec]
    exact hc.highest d' hd'
  refine ⟨c₀, htop, hspec, ?_⟩
  rcases hstatus with rfl | ⟨rfl, hnew⟩
  · exact Iff.rfl
  · rw [hnew]
    constructor
    · intro hskip
      -- it was skipped before, or for a newer config, which does not exist
      rcases hr.2 hskip with hold | ⟨d, hd, hlt⟩
      · exact hold
      · exact absurd (htop.highest d hd) (not_le_of_gt hlt)
    · intro hold
      rw [hr.1 (by simp [isTerminalConfigPhase, hold]), hold]

theorem Tops.exists_robinWrite (hw : w.Formed key) {status : RedkeyConfigStatus}
    (ht : t ∈ w.configsOf key) (hc : Tops key w c) :
    ∃ c', Tops key (w.robinWrite t.key status) c' := by
  obtain ⟨c', hc', hspec, -⟩ := hw.exists_robinWrite status ht hc.mem
  refine ⟨c', hc', fun d hd => ?_⟩
  obtain ⟨d₀, hd₀, -, hspec', -⟩ := hw.mem_robinWrite ht hd
  rw [hspec', hspec]
  exact hc.highest d₀ hd₀

/-- Robin neither skips the highest config nor takes that back. -/
theorem stuck_robinWrite (hw : w.Formed key) {status : RedkeyConfigStatus}
    (ht : t ∈ w.configsOf key) (hr : Finishes (w.configsOf key) t status) :
    Stuck key (w.robinWrite t.key status) ↔ Stuck key w := by
  constructor
  · rintro ⟨c, hc, hzero, hskip⟩
    obtain ⟨c₀, hc₀, hspec, hiff⟩ := hc.of_robinWrite hw ht hr
    exact ⟨c₀, hc₀, hspec ▸ hzero, hiff.mp hskip⟩
  · rintro ⟨c₀, hc₀, hzero, hskip⟩
    obtain ⟨c, hc⟩ := hc₀.exists_robinWrite hw ht
    obtain ⟨c₁, hc₁, hspec, hiff⟩ := hc.of_robinWrite hw ht hr
    obtain rfl := Tops.unique hw hc₀ hc₁
    exact ⟨c, hc, hspec ▸ hzero, hiff.mpr hskip⟩

/-- What was asked for stays asked for. -/
theorem Asked.robinWrite (h : Asked key w) (hw : w.Formed key) {status : RedkeyConfigStatus}
    (ht : t ∈ w.configsOf key) (hr : Finishes (w.configsOf key) t status) :
    Asked key (w.robinWrite t.key status) := by
  intro c hc
  obtain ⟨c₀, hc₀, hspec, hiff⟩ := hc.of_robinWrite hw ht hr
  exact ⟨hspec ▸ (h c₀ hc₀).1, fun hskip => (h c₀ hc₀).2 (hiff.mp hskip)⟩

theorem Asked.not_stuck (h : Asked key w) : ¬ Stuck key w :=
  fun ⟨c, hc, _, hskip⟩ => (h c hc).2 hskip

/-- There is nothing to be asked for when no config is left. -/
theorem asked_of_nil (h : w.configsOf key = []) : Asked key w := by
  intro c hc
  have hmem := hc.mem
  simp [h] at hmem

/-- The last config of a list is the highest one. -/
theorem tops_of_list {items : List RedkeyConfig} (hperm : items.Perm (w.configsOf key))
    (hlast : (sortBySequence items).getLast? = some c) : Tops key w c where
  mem := hperm.mem_iff.mp (mem_sortBySequence.mp (List.mem_of_getLast? hlast))
  highest _ hd := sequence_le_getLast (sorted_sortBySequence items) hlast
    (mem_sortBySequence.mpr (hperm.mem_iff.mpr hd))

/-- It stays the highest one, up to its status. Other parties may report on
it, but they create no configs. -/
theorem Shows.tops (h : Shows key L w) (hw : w.Formed key) (hlast : L.getLast? = some c)
    (hd : Tops key w d) : d.spec = c.spec := by
  obtain ⟨c', hc', hsame⟩ := h.present c (List.mem_of_getLast? hlast)
  obtain ⟨d', hd', hsame'⟩ := h.complete d hd.mem
  have hle : d.spec.sequence ≤ c'.spec.sequence := by
    rw [← hsame.2, ← hsame'.2]
    exact sequence_le_getLast h.sorted hlast hd'
  rw [hsame.2, hw.eq_of_sequence hd.mem hc' (le_antisymm hle (hd.highest c' hc'))]

/-- An empty list means that there are no configs, and stays right. -/
theorem Shows.eq_nil (h : Shows key [] w) : w.configsOf key = [] := by
  refine List.eq_nil_iff_forall_not_mem.mpr fun c hc => ?_
  obtain ⟨d, hd, -⟩ := h.complete c hc
  cases hd

/-! ## The system -/

/-- The system without edits; any call may be lost, but for the deletion of a
config. A teardown that loses one can leave the cluster stuck. -/
def firmRuns (fill : Deployment → Deployment) (key : NamespacedName) : Sem Call Resp World where
  env := (calmRuns fill key).env
  exec c w r w' := (calmRuns fill key).exec c w r w' ∧
    ∀ k, c = .deleteConfig k → World.exec fill c w r w'

namespace Hibernation

open Tracking Convergence

variable {fill : Deployment → Deployment} {now : Time} {r : RedkeyReconciler}
variable {g : Int} {spec : RedkeySpec} {I : World → Prop} {F F' : Redkey → World → Prop}

/-- Nobody edits the Redkey, and the state is in `F`. What is tracked of the
configs goes with it. -/
def Zero (key : NamespacedName) (g : Int) (spec : RedkeySpec) (F : Redkey → World → Prop)
    (w : World) : Prop :=
  ∃ live, Pinned g spec live ∧ Tracks key live w ∧ F live w

/-- What the running reconcile knows, without what it knows about its own
Redkey. -/
theorem zero_of_run (h : Run key (Pinned g spec) cluster F w) : Zero key g spec F w := by
  obtain ⟨-, live, hlive, hw, hF⟩ := h
  exact ⟨live, hlive, hw.toTracks, hF⟩

theorem Zero.imp (h : Zero key g spec F w)
    (himp : ∀ live, Tracks key live w → F live w → F' live w) : Zero key g spec F' w := by
  obtain ⟨live, hlive, hw, hF⟩ := h
  exact ⟨live, hlive, hw, himp live hw hF⟩

theorem stable_zero (hF : ∀ cluster, Lasts key (fun _ _ _ => False) cluster F) :
    Stable (calmRuns fill key) (Zero key g spec F) := by
  rintro w w' ⟨-, henv⟩ ⟨live, hlive, hw, hFw⟩
  cases henv with
  | userUpdate _ hedit => exact hedit.elim
  | robinWrite ht hr =>
      have hFw' := (hF live).robin _ _ _ _ (TracksFrom.start hw) hFw ht hr
      exact ⟨live, hlive, hw.robinWrite ht hr, hFw'⟩

/-- What Robin keeps when nobody edits the spec. -/
theorem lasts_of_robin (h : ∀ live w t status, TracksFrom key cluster live w → F live w →
      t ∈ w.configsOf key → Finishes (w.configsOf key) t status → F live (w.robinWrite t.key status)) :
    Lasts key (fun _ _ _ => False) cluster F :=
  ⟨fun _ _ _ h => h.elim, h⟩

/-- The triples of the lossy system hold here too, as there are fewer runs. -/
theorem firm {α : Type} {G : (c : Call) → World → Resp c → World → Prop} {A : World → Prop}
    {p : Rec α} {Q : α → World → Prop} (h : Triple (calmRuns fill key) G I A p Q) :
    Triple (firmRuns fill key) G I A p Q :=
  Triple.sub (M := calmRuns fill key) (fun _ _ hstep => hstep) (fun _ _ _ _ hexec => hexec.1) h

/-! ### The teardown -/

/-- A run that has got as far as `F`, without the objects of the kinds. -/
abbrev RunGone (key : NamespacedName) (g : Int) (spec : RedkeySpec) (cluster : Redkey)
    (F : Redkey → World → Prop) (kinds : List Kind) : World → Prop :=
  Run key (Pinned g spec) cluster fun live w => F live w ∧ GoneOf key kinds w

/-- Robin does not bring its own objects back. -/
theorem lasts_gone {kinds : List Kind} :
    Lasts key (fun _ _ _ => False) cluster fun _ w => GoneOf key kinds w :=
  lasts_of_robin fun _ _ _ _ _ h _ _ => h

/-- One more kind is gone, with everything else as it was. -/
theorem deleteIfPresent_triple {kinds : List Kind} {k : Kind} {text : String}
    (hF : Lasts key (fun _ _ _ => False) cluster F)
    (hrobin : ∀ live w robin, F live w → F live (w.setRobin robin))
    (hI : ∀ w, Run key (Pinned g spec) cluster F w → I w) :
    Triple (calmRuns fill key) (fun _ _ _ _ => True) I (RunGone key g spec cluster F kinds)
      (deleteIfPresent k (robinKeyOf key) text) fun _ => RunGone key g spec cluster F (k :: kinds) := by
  refine fresh_deleteIfPresent_triple (stable_run (keeps_pinned g spec) (hF.and lasts_gone))
    (fun w hw => hI w (hw.imp fun _ _ h => h.1)) (fun w hw => hI w (hw.imp fun _ _ h => h.1))
    (fun _ _ _ _ _ => trivial) ?_ ?_
  · -- deleted
    rintro w ⟨hcluster, live, hlive, hw, hFw, hgone⟩
    exact ⟨hcluster, live, hlive, hw.setRobin _, hrobin live w _ hFw, hgone.setObj k⟩
  · -- not there
    rintro w ⟨hcluster, live, hlive, hw, hFw, hgone⟩ hnone
    exact ⟨hcluster, live, hlive, hw, hFw, goneOf_cons hgone hnone⟩

/-- Every config is one of the list. -/
def Among (key : NamespacedName) (items : List RedkeyConfig) (w : World) : Prop :=
  ∀ c ∈ w.configsOf key, ∃ d ∈ items, c.key = d.key

/-- No config is added while the loop runs: only a reconcile creates configs,
and this is the only one. -/
theorem lasts_among {items : List RedkeyConfig} :
    Lasts key (fun _ _ _ => False) cluster fun _ w => Among key items w := by
  refine lasts_of_robin fun live w t status hw h ht _ c hc => ?_
  obtain ⟨c₀, hc₀, hmeta, hspec, -⟩ := hw.formed.mem_robinWrite ht hc
  rw [RedkeyConfig.Same.key ⟨hmeta, hspec⟩]
  exact h c₀ hc₀

/-- The deletion of the first config leaves the others to be deleted. -/
theorem Among.erase {items : List RedkeyConfig} (h : Among key (c :: items) w) :
    Among key items (w.eraseConfig c.key) := by
  intro d hd
  obtain ⟨hmem, hne⟩ := mem_configsOf_eraseConfig.mp hd
  obtain ⟨e, he, heq⟩ := h d hmem
  rcases List.mem_cons.mp he with rfl | he
  · exact absurd heq hne
  · exact ⟨e, he, heq⟩

theorem lasts_robinGone :
    Lasts key (fun _ _ _ => False) cluster fun _ w => RobinGone key w :=
  lasts_of_robin fun _ _ _ _ _ h _ _ => h

/-- After the three deletions of `deleteRBAC` all four kinds are gone. -/
theorem deleteRBAC_triple (hF : Lasts cluster.key (fun _ _ _ => False) cluster F)
    (hrobin : ∀ live w robin, F live w → F live (w.setRobin robin))
    (hI : ∀ w, Run cluster.key (Pinned g spec) cluster F w → I w) :
    Triple (calmRuns fill cluster.key) (fun _ _ _ _ => True) I
      (RunGone cluster.key g spec cluster F [.deployment]) (deleteRBAC cluster) fun _ =>
        Run cluster.key (Pinned g spec) cluster fun live w => F live w ∧ RobinGone cluster.key w := by
  refine (Triple.bind (deleteIfPresent_triple hF hrobin hI) fun _ =>
    Triple.bind (deleteIfPresent_triple hF hrobin hI) fun _ =>
      deleteIfPresent_triple hF hrobin hI).post ?_
  intro _ w hw
  refine hw.imp fun live _ h => ⟨h.1, fun k => h.2 k ?_⟩
  cases k <;> decide

/-- The teardown is over but for the status: neither configs nor objects of
Robin's are left. -/
def Down (key : NamespacedName) (_ : Redkey) (w : World) : Prop :=
  w.configsOf key = [] ∧ RobinGone key w

/-- There is nothing left for Robin to report on. -/
theorem lasts_down : Lasts key (fun _ _ _ => False) cluster (Down key) := by
  refine lasts_of_robin fun live w t status _ h ht _ => ?_
  rw [h.1] at ht
  cases ht

/-- Without lost deletions the loop deletes every config: each one is among
those that were listed. -/
theorem deleteAll_triple (hF : Lasts cluster.key (fun _ _ _ => False) cluster F)
    (hI : ∀ w, Run cluster.key (Pinned g spec) cluster F w → I w)
    (hzero : cluster.spec.primaries = 0) :
    Triple (firmRuns fill cluster.key) (fun _ _ _ _ => True) I
      (Run cluster.key (Pinned g spec) cluster fun live w => F live w ∧ RobinGone cluster.key w)
      (deleteAllConfigs cluster) fun _ =>
        Run cluster.key (Pinned g spec) cluster (Down cluster.key) := by
  -- what is left while the loop runs
  let Left (items : List RedkeyConfig) : World → Prop := Run cluster.key (Pinned g spec) cluster
    fun _ w => Among cluster.key items w ∧ RobinGone cluster.key w
  have hcalm : ∀ items, Stable (calmRuns fill cluster.key) (Left items) := fun items =>
    stable_run (keeps_pinned g spec) (lasts_among.and lasts_robinGone)
  have hstable : ∀ items, Stable (firmRuns fill cluster.key) (Left items) := hcalm
  refine Triple.bind (Q := Outcome Left I) (firm (Triple.request
    (stable_run (keeps_pinned g spec) (hF.and lasts_robinGone)) ?_)) ?_
  · rintro w r w' hw (⟨-, hexec⟩ | ⟨rfl, rfl | ⟨r₀, -, hexec⟩⟩)
    · obtain ⟨⟨items, hperm, rfl⟩, rfl⟩ := exec_listConfigs hexec
      have hleft : Left items _ := hw.imp fun _ _ h =>
        ⟨fun c hc => ⟨c, hperm.mem_iff.mpr hc, rfl⟩, h.2⟩
      exact ⟨trivial, hleft⟩
    · exact ⟨trivial, hI _ (hw.imp fun _ _ h => h.1)⟩
    · obtain ⟨-, rfl⟩ := exec_listConfigs hexec
      exact ⟨trivial, hI _ (hw.imp fun _ _ h => h.1)⟩
  · intro r
    match r with
    | .error e => exact Triple.throw fun _ hw => hw
    | .ok items =>
        refine (deleteConfigs_triple hstable items ?_).post ?_
        · -- NotFound is as good as a deletion that was made
          rintro c rest - w r w' ⟨hcluster, live, hlive, hw, hamong, hgone⟩ ⟨-, hfirm⟩
          obtain ⟨hr, rfl⟩ := exec_deleteConfig (hfirm _ rfl)
          have herased := hw.eraseConfig (k := c.key) fun hp => absurd hzero hp
          have hw' : Left rest (w.eraseConfig c.key) :=
            ⟨hcluster, live, hlive, herased, hamong.erase, hgone⟩
          refine ⟨trivial, ?_⟩
          rcases hr with rfl | rfl
          · exact hw'
          · exact tolerating_error.mpr ⟨fun _ => hw', fun hne => absurd rfl hne⟩
        · -- among no configs there is none
          intro _ w hw
          refine hw.imp fun _ _ h => ⟨List.eq_nil_iff_forall_not_mem.mpr fun c hc => ?_, h.2⟩
          obtain ⟨d, hd, -⟩ := h.1 c hc
          cases hd

/-- The whole teardown. -/
theorem teardown_triple (g : Int) (spec : RedkeySpec)
    (hF : Lasts cluster.key (fun _ _ _ => False) cluster F)
    (hrobin : ∀ live w robin, F live w → F live (w.setRobin robin))
    (hI : ∀ w, Run cluster.key (Pinned g spec) cluster F w → I w)
    (hI' : ∀ w, Run cluster.key (Pinned g spec) cluster (Down cluster.key) w → I w)
    (hzero : cluster.spec.primaries = 0) :
    Triple (firmRuns fill cluster.key) (fun _ _ _ _ => True) I
      (Run cluster.key (Pinned g spec) cluster F) (do
        deleteRobinDeployment cluster
        deleteRBAC cluster
        deleteAllConfigs cluster
        updateStatusScaledToZero now cluster) fun _ =>
        Run cluster.key (Pinned g spec) cluster fun live w =>
          Down cluster.key live w ∧ live.status = scaledToZeroStatus now cluster := by
  have hdeployment : Triple (calmRuns fill cluster.key) (fun _ _ _ _ => True) I
      (RunGone cluster.key g spec cluster F []) (deleteRobinDeployment cluster) fun _ =>
        RunGone cluster.key g spec cluster F [.deployment] := deleteIfPresent_triple hF hrobin hI
  refine Triple.bind (firm (hdeployment.pre fun w hw =>
    hw.imp fun _ _ h => ⟨h, fun _ hk => by cases hk⟩)) fun _ => ?_
  refine Triple.bind (firm (deleteRBAC_triple hF hrobin hI)) fun _ => ?_
  refine Triple.bind (deleteAll_triple hF hI hzero) fun _ => ?_
  exact firm (run_scaledToZero_triple (keeps_pinned g spec) lasts_down (fun _ _ _ h => h) hzero hI')

/-! ### The reconcile that asks for zero -/

/-- A property of the configs that Robin keeps, between being asked and not
being stuck. The first reconcile is run from the weaker one, the second from
the stronger one. -/
structure Waits (key : NamespacedName) (F : Redkey → World → Prop) : Prop where
  lasts : ∀ cluster, Lasts key (fun _ _ _ => False) cluster F
  setRobin : ∀ live w robin, F live w → F live (w.setRobin robin)
  written : ∀ live w status, F live w →
    F (live.written status) (w.setRedkey key (live.written status))
  not_stuck : ∀ live w, F live w → ¬ Stuck key w
  of_asked : ∀ live w, Asked key w → F live w

theorem waits_not_stuck : Waits key fun _ w => ¬ Stuck key w where
  lasts _ := lasts_of_robin fun _ _ _ _ hw h ht hr hstuck =>
    h ((stuck_robinWrite hw.formed ht hr).mp hstuck)
  setRobin _ _ robin h := fun hstuck => h ((stuck_congr (configsOf_setRobin robin)).mp hstuck)
  written _ _ _ h := fun hstuck => h ((stuck_congr (configsOf_setRedkey _ _)).mp hstuck)
  not_stuck _ _ h := h
  of_asked _ _ h := h.not_stuck

theorem waits_asked : Waits key fun _ w => Asked key w where
  lasts _ := lasts_of_robin fun _ _ _ _ hw h ht hr => h.robinWrite hw.formed ht hr
  setRobin _ _ _ h := fun c hc => h c ⟨hc.mem, hc.highest⟩
  written _ _ _ h := fun c hc => h c ⟨hc.mem, hc.highest⟩
  not_stuck _ _ h := h.not_stuck
  of_asked _ _ h := h

/-- The config a reconcile has just created asks for zero, since nobody has
edited the spec. -/
theorem asked_of_made (hz : spec.primaries = 0)
    (h : Run key (Pinned g spec) cluster (MadeFor key cluster) w) : Asked key w := by
  obtain ⟨hcluster, live, hlive, hw, hmade⟩ := h
  obtain ⟨c, hc⟩ := hmade (hlive.1.trans hcluster.1.symm)
  obtain ⟨highest, hsame⟩ := hw.snapshot c hc.mem hc.current
  intro d hd
  obtain rfl := Tops.unique hw.formed hd ⟨hc.mem, hc.highest⟩
  refine ⟨?_, hc.phase⟩
  rw [hsame.2]
  exact (congrArg RedkeySpec.primaries hlive.2).trans hz

/-- A reconcile of a cluster that is not stuck: when it succeeds, the highest
config asks for zero and Robin has not skipped it, or there is none. -/
theorem ask_triple (hW : Waits cluster.key F) (hz : spec.primaries = 0)
    (hzero : cluster.spec.primaries = 0) :
    Triple (firmRuns fill cluster.key) (fun _ _ _ _ => True) (Zero cluster.key g spec F)
      (Run cluster.key (Pinned g spec) cluster F) (reconcileScaleToZero r now cluster) fun _ =>
        Zero cluster.key g spec fun _ w => Asked cluster.key w := by
  have hP := keeps_pinned g spec
  have hlasts := hW.lasts cluster
  -- what holds when the reconcile fails after the list
  have hI : ∀ L w, Run cluster.key (Pinned g spec) cluster
      (fun live w => F live w ∧ Shows cluster.key L w) w → Zero cluster.key g spec F w :=
    fun L w hw => (zero_of_run hw).imp fun _ _ h => h.1
  -- what holds when the teardown fails near its end
  have hdown : ∀ w, Run cluster.key (Pinned g spec) cluster (Down cluster.key) w →
      Zero cluster.key g spec F w :=
    fun w hw => (zero_of_run hw).imp fun live _ h => hW.of_asked live w (asked_of_nil h.1)
  have hnil : Lasts cluster.key (fun _ _ _ => False) cluster
      fun _ w => w.configsOf cluster.key = [] := by
    refine lasts_of_robin fun _ _ _ _ _ h ht _ => ?_
    rw [h] at ht
    cases ht
  have hrobin : ∀ L live (w : World) robin, F live w ∧ Shows cluster.key L w →
      F live (w.setRobin robin) ∧ Shows cluster.key L (w.setRobin robin) :=
    fun L live w robin h =>
      ⟨hW.setRobin live w robin h.1, h.2.strict, h.2.complete, h.2.present⟩
  refine reconcileScaleToZero_triple
    (fun L => Run cluster.key (Pinned g spec) cluster fun live w => F live w ∧ Shows cluster.key L w)
    (firm (fresh_list_triple (stable_run hP hlasts) (fun _ => zero_of_run) (fun _ _ _ => trivial) ?_))
    ?_ ?_ ?_ ?_
  · -- the list
    intro w items hw hperm _
    exact hw.imp fun live hw hF => ⟨hF, Shows.of_list hw.formed hperm⟩
  · -- case A: there is no config
    refine firm (((run_scaledToZero_triple hP hnil (fun _ _ _ h => h) hzero ?_).pre ?_).post ?_)
    · exact fun w hw => (zero_of_run hw).imp fun live _ h => hW.of_asked live w (asked_of_nil h)
    · exact fun w hw => hw.imp fun _ _ h => h.2.eq_nil
    · exact fun _ w hw => (zero_of_run hw).imp fun _ _ h => asked_of_nil h.1
  · -- case B: a config for zero is created
    intro L c hlast _
    refine firm (Triple.bind (run_robin_triple hP (hlasts.and lasts_shows) (hrobin L) (hI L)
      (fun _ _ _ _ _ => trivial) (ensureRBAC_uses trivial)) fun _ => ?_)
    refine Triple.bind (run_robin_triple hP (hlasts.and lasts_shows) (hrobin L) (hI L)
      (fun _ _ _ _ _ => trivial) (ensureRobinDeployment_uses trivial)) fun _ => ?_
    rw [← hlast]
    refine (run_create_triple hP hlasts (hI L) ?_).post ?_
    · intro w hw
      have hasked := asked_of_made hz (hw.imp fun _ _ h => h.1)
      exact (zero_of_run hw).imp fun live _ _ => hW.of_asked live w hasked
    · intro _ w hw
      have hasked := asked_of_made hz (hw.imp fun _ _ h => h.1)
      exact (zero_of_run hw).imp fun _ _ _ => hasked
  · -- case C: the teardown leaves no config
    intro L c _ _ _
    refine ((teardown_triple g spec hlasts hW.setRobin (fun _ => zero_of_run) hdown hzero).pre ?_).post ?_
    · exact fun w hw => hw.imp fun _ _ h => h.1
    · exact fun _ w hw => (zero_of_run hw).imp fun _ _ h => asked_of_nil h.1.1
  · -- case D: the highest config asks for zero already
    intro L c hlast hc _
    refine firm (Triple.bind (run_robin_triple hP (hlasts.and lasts_shows) (hrobin L) (hI L)
      (fun _ _ _ _ _ => trivial) (ensureRBAC_uses trivial)) fun _ => ?_)
    refine Triple.bind (run_robin_triple hP (hlasts.and lasts_shows) (hrobin L) (hI L)
      (fun _ _ _ _ _ => trivial) (ensureRobinDeployment_uses trivial)) fun _ => ?_
    refine (run_aggregate_triple hP (hlasts.and lasts_shows) (fun _ _ hp _ => absurd hzero hp) ?_ (hI L)
      (fun _ _ _ _ _ => trivial)).post ?_
    · exact fun live w status h =>
        ⟨hW.written live w status h.1, h.2.strict, h.2.complete, h.2.present⟩
    · -- it is not stuck, so Robin is at work on the highest config
      intro _ w hw
      refine (zero_of_run hw).imp fun live hw h d hd => ?_
      have hspec := h.1.2.tops hw.formed hlast hd
      have hzero' : d.spec.primaries = 0 := hspec ▸ hc
      exact ⟨hzero', fun hskip => hW.not_stuck live w h.1.1 ⟨d, hd, hzero', hskip⟩⟩

/-! ### The reconcile that takes everything down -/

variable {had : Prop}

/-- Robin is done. If there were configs (`had`), Robin's objects go before
they do. -/
structure Done (key : NamespacedName) (had : Prop) (_ : Redkey) (w : World) : Prop where
  finished : AllFinished key w
  asked : Asked key w
  robin : w.configsOf key = [] → had → RobinGone key w

/-- The cluster is asleep, and Robin's objects are gone if there were
configs. -/
def Sleeps (key : NamespacedName) (had : Prop) (live : Redkey) (w : World) : Prop :=
  Asleep key live w ∧ (had → RobinGone key w)

/-- Terminal configs stay terminal, and the highest one stays what it is. -/
theorem lasts_done : Lasts key (fun _ _ _ => False) cluster (Done key had) := by
  refine lasts_of_robin fun _ w t status hw h ht hr => ?_
  have hfinished := h.finished.robinWrite hw.formed ht hr
  have hasked := h.asked.robinWrite hw.formed ht hr
  refine ⟨hfinished, hasked, fun hnil => ?_⟩
  -- the config of the report is still there
  obtain ⟨c', hc', -⟩ := hw.formed.exists_robinWrite status ht ht
  simp [hnil] at hc'

/-- What holds while Robin's objects are deleted: the configs are all still
there. -/
theorem lasts_due : Lasts key (fun _ _ _ => False) cluster
    fun _ w => (AllFinished key w ∧ Asked key w) ∧ ∃ c, c ∈ w.configsOf key := by
  refine Lasts.and (lasts_of_robin fun _ _ _ _ hw h ht hr => ?_) lasts_some
  exact ⟨h.1.robinWrite hw.formed ht hr, h.2.robinWrite hw.formed ht hr⟩

/-- A teardown that has failed at the status is as good as done for the next
one. -/
theorem Done.of_down (h : Down key live w) : Done key had live w :=
  ⟨fun c hc => (by simp [h.1] at hc), asked_of_nil h.1, fun _ _ => h.2⟩

/-- The status that is written is that of a cluster asleep. -/
theorem asleep_of_write (hcluster : Pinned g spec cluster) (hlive : Pinned g spec live)
    (hw : Tracks key live w) (hnil : w.configsOf key = [])
    (hstatus : live.status = scaledToZeroStatus now cluster) : Asleep key live w where
  stored := hw.stored
  configs := hnil
  observed := by
    rw [hstatus]
    exact hcluster.1.trans hlive.1.symm
  replicas := by rw [hstatus]; rfl
  phase := by rw [hstatus]; rfl
  status := by rw [hstatus]; rfl

/-- A reconcile once Robin is done: the highest config is Applied, so the
teardown is the branch that is taken, unless there is nothing to take down. -/
theorem finish_triple (hzero : cluster.spec.primaries = 0) :
    Triple (firmRuns fill cluster.key) (fun _ _ _ _ => True)
      (Zero cluster.key g spec (Done cluster.key had))
      (Run cluster.key (Pinned g spec) cluster (Done cluster.key had))
      (reconcileScaleToZero r now cluster) fun _ =>
        Zero cluster.key g spec (Sleeps cluster.key had) := by
  have hP := keeps_pinned g spec
  have hnil : Lasts cluster.key (fun _ _ _ => False) cluster
      fun _ w => w.configsOf cluster.key = [] ∧ (had → RobinGone cluster.key w) := by
    refine lasts_of_robin fun _ _ _ _ _ h ht _ => ?_
    rw [h.1] at ht
    cases ht
  -- the highest config of the list asks for zero and is Applied
  refine reconcileScaleToZero_triple
    (fun L w => (∀ c, L.getLast? = some c → c.spec.primaries = 0 ∧ c.status.configPhase = .applied) ∧
      Run cluster.key (Pinned g spec) cluster
        (fun live w => Done cluster.key had live w ∧ Shows cluster.key L w) w)
    (firm (fresh_list_triple (stable_run hP lasts_done) (fun _ => zero_of_run)
      (fun _ _ _ => trivial) ?_)) ?_ ?_ ?_ ?_
  · intro w items hw hperm _
    refine ⟨fun c hlast => ?_, hw.imp fun live hw h => ⟨h, Shows.of_list hw.formed hperm⟩⟩
    obtain ⟨-, live, -, hw, hdone⟩ := hw
    have htop := tops_of_list hperm hlast
    obtain ⟨hc, hskip⟩ := hdone.asked c htop
    have hterminal := hdone.finished c htop.mem
    exact ⟨hc, by simpa [isTerminalConfigPhase, hskip] using hterminal⟩
  · refine firm (((run_scaledToZero_triple hP hnil (fun _ _ _ h => h) hzero ?_).pre ?_).post ?_)
    · refine fun w hw => (zero_of_run hw).imp fun live _ h => ⟨fun c hc => ?_, asked_of_nil h.1, ?_⟩
      · simp [h.1] at hc
      · exact fun _ => h.2
    · exact fun w hw => hw.2.imp fun _ _ h => ⟨h.2.eq_nil, h.1.robin h.2.eq_nil⟩
    · rintro _ w ⟨hcluster, live, hlive, hw, ⟨hnone, hgone⟩, hstatus⟩
      have hasleep := asleep_of_write hcluster hlive hw.toTracks hnone hstatus
      exact ⟨live, hlive, hw.toTracks, hasleep, hgone⟩
  · -- case B does not arise
    intro L c hlast hc w hw
    exact absurd (hw.1 c hlast).1 hc
  · intro L c hlast _ _
    -- the configs are there while Robin's objects go
    refine ((teardown_triple g spec lasts_due ?_ ?_ ?_ hzero).pre ?_).post ?_
    · exact fun live w robin h => ⟨⟨h.1.1, fun c hc => h.1.2 c ⟨hc.mem, hc.highest⟩⟩, h.2⟩
    · refine fun w hw => (zero_of_run hw).imp fun _ _ h => ⟨h.1.1, h.1.2, fun hnone => ?_⟩
      obtain ⟨c, hc⟩ := h.2
      simp [hnone] at hc
    · exact fun w hw => (zero_of_run hw).imp fun _ _ h => Done.of_down h
    · refine fun w hw => hw.2.imp fun _ _ h => ⟨⟨h.1.finished, h.1.asked⟩, ?_⟩
      obtain ⟨c', hc', -⟩ := h.2.present c (List.mem_of_getLast? hlast)
      exact ⟨c', hc'⟩
    · rintro _ w ⟨hcluster, live, hlive, hw, hdown, hstatus⟩
      have hasleep := asleep_of_write hcluster hlive hw.toTracks hdown.1 hstatus
      exact ⟨live, hlive, hw.toTracks, hasleep, fun _ => hdown.2⟩
  · -- neither does case D
    intro L c hlast _ hphase w hw
    exact absurd (hw.1 c hlast).2 hphase

/-! ### Reconciles that change nothing -/

/-- Every call keeps the invariant, so it holds in the middle of a reconcile
too. -/
def KeepsZero (key : NamespacedName) (g : Int) (spec : RedkeySpec) (F : Redkey → World → Prop)
    (c : Call) (w : World) (_ : Resp c) (w' : World) : Prop :=
  Zero key g spec F w → Zero key g spec F w'

/-- Nothing is left for Robin to report on. -/
theorem lasts_sleeps : Lasts key (fun _ _ _ => False) cluster (Sleeps key had) := by
  refine lasts_of_robin fun _ _ _ _ _ h ht _ => ?_
  rw [h.1.configs] at ht
  cases ht

/-- A reconcile of a cluster asleep only writes the status, and this any
number of times. -/
theorem sleep_triple (hzero : cluster.spec.primaries = 0) :
    Triple (calmRuns fill cluster.key) (KeepsZero cluster.key g spec (Sleeps cluster.key had))
      (Zero cluster.key g spec (Sleeps cluster.key had))
      (Run cluster.key (Pinned g spec) cluster (Sleeps cluster.key had))
      (reconcileScaleToZero r now cluster) fun _ =>
        Zero cluster.key g spec (Sleeps cluster.key had) := by
  have hstable : Stable (calmRuns fill cluster.key)
      (Run cluster.key (Pinned g spec) cluster (Sleeps cluster.key had)) :=
    stable_run (keeps_pinned g spec) lasts_sleeps
  refine reconcileScaleToZero_triple
    (fun L w => L = [] ∧ Run cluster.key (Pinned g spec) cluster (Sleeps cluster.key had) w)
    (fresh_list_triple hstable (fun _ => zero_of_run) (fun _ _ _ h => h) ?_) ?_ ?_ ?_ ?_
  · -- the list is empty
    intro w items hw hperm _
    refine ⟨?_, hw⟩
    obtain ⟨-, live, -, -, hsleeps⟩ := hw
    rw [hsleeps.1.configs] at hperm
    obtain rfl := hperm.eq_nil
    rfl
  · refine api_triple (fun w w' hstep hw => ⟨hw.1, hstable w w' hstep hw.2⟩) ?_
    rintro w r w' ⟨-, hw⟩ hexec
    have hw' : Run cluster.key (Pinned g spec) cluster (Sleeps cluster.key had) w' := by
      refine (fresh_write_call (G := fun _ _ _ _ => True) (fun _ _ _ _ _ => trivial) (fun _ h => h)
        ?_ w r w' hw hexec).2
      rintro w live' stored ⟨hcluster, live, hlive, hw, hsleeps⟩ hstored hwrite
      obtain rfl : live' = live := Option.some.inj (hstored.symm.trans hw.stored)
      obtain ⟨-, rfl⟩ := Redkey.writeStatus_ok hwrite
      change Run cluster.key (Pinned g spec) cluster (Sleeps cluster.key had)
        (w.setRedkey cluster.key (live'.written (scaledToZeroStatus now cluster)))
      have hlive : Pinned g spec (live'.written (scaledToZeroStatus now cluster)) := hlive
      have hobs : (scaledToZeroStatus now cluster).observedGeneration = cluster.generation := rfl
      have hw' := hw.write hobs fun hp => absurd hzero hp
      have hasleep : Asleep cluster.key _ _ :=
        asleep_of_write hcluster hlive hw'.toTracks hsleeps.1.configs rfl
      exact ⟨hcluster, _, hlive, hw', hasleep, hsleeps.2⟩
    exact ⟨fun _ => zero_of_run hw', outcome_const (zero_of_run hw') (zero_of_run hw')⟩
  -- there is no config in the list
  · rintro L c hlast - w ⟨rfl, -⟩
    cases hlast
  · rintro L c hlast - - w ⟨rfl, -⟩
    cases hlast
  · rintro L c hlast - - w ⟨rfl, -⟩
    cases hlast

/-- Some of the runs without edits. What is shown of all of them holds here as
well. -/
structure Within (M : Sem Call Resp World) (fill : Deployment → Deployment) (key : NamespacedName) :
    Prop where
  env : ∀ w w', M.env w w' → (calmRuns fill key).env w w'
  exec : ∀ c w r w', M.exec c w r w' → (calmRuns fill key).exec c w r w'

theorem within_calm : Within (calmRuns fill key) fill key :=
  ⟨fun _ _ h => h, fun _ _ _ _ h => h⟩

theorem within_firm : Within (firmRuns fill key) fill key :=
  ⟨fun _ _ h => h, fun _ _ _ _ h => h.1⟩

variable {M : Sem Call Resp World} {G : (c : Call) → World → Resp c → World → Prop}

/-- A reconcile of a cluster at zero is its scale-to-zero branch, as the spec
it reads has no primaries. -/
theorem rounds (hM : Within M fill key) (hz : spec.primaries = 0)
    (hG : ∀ c w r, G c w r w) (hF : ∀ cluster, Lasts key (fun _ _ _ => False) cluster F)
    (hF' : ∀ cluster, Lasts key (fun _ _ _ => False) cluster F')
    (hweaken : ∀ live w, F' live w → F live w)
    (hzero : ∀ r now (cluster : Redkey), cluster.key = key → cluster.spec.primaries = 0 →
      Triple M G (Zero key g spec F) (Run key (Pinned g spec) cluster F)
        (reconcileScaleToZero r now cluster) fun _ => Zero key g spec F') :
    Rounds M G (Reconciles key) (Zero key g spec F) (Zero key g spec F') where
  stable w w' hstep := stable_zero hF w w' (hM.env w w' hstep)
  stable_ok w w' hstep := stable_zero hF' w w' (hM.env w w' hstep)
  weaken w h := h.imp fun live _ => hweaken live w
  entry := by
    rintro p ⟨r, now, rfl⟩
    have hquiet : Quiet M G := by
      refine ⟨fun e w r w' hexec => ?_, fun e w r => hG (.metric e) w r⟩
      exact (fresh_quiet (G := G) fun e w r => hG (.metric e) w r).state e w r w'
        (hM.exec _ _ _ _ hexec)
    have hstable : Stable M (Zero key g spec F) :=
      fun w w' hstep => stable_zero hF w w' (hM.env w w' hstep)
    refine RedkeyOperator.reconcile_triple (fun cluster w => cluster.key = key ∧
      cluster.spec.primaries = 0 ∧ Run key (Pinned g spec) cluster F w) hquiet hstable
      (fun w w' hstep => stable_zero hF' w w' (hM.env w w' hstep)) hstable ?_ ?_ ?_
    · intro w r w' hw hexec
      refine fresh_get_call (G := G) (fun _ hw => hw) (fun w r _ => hG _ w r) ?_ ?_ w r w' hw
        (hM.exec _ _ _ _ hexec)
      · rintro w cluster ⟨live, hlive, hw, hFw⟩ hstored
        obtain rfl : cluster = live := Option.some.inj (hstored.symm.trans hw.stored)
        -- the snapshot is the live Redkey
        have hkey : cluster.key = key := hw.formed.keyed cluster hstored
        have hp : cluster.spec.primaries = 0 := hlive.2 ▸ hz
        have hrun : Run key (Pinned g spec) cluster F w :=
          ⟨hlive, cluster, hlive, TracksFrom.start hw, hFw⟩
        exact ⟨hkey, hp, hrun⟩
      · rintro w ⟨live, -, hw, -⟩ hnone
        cases hnone.symm.trans hw.stored
    · rintro cluster - w ⟨hkey, hp, hw⟩
      exact hzero r now cluster hkey hp w hw
    · -- the other branch is not taken
      rintro cluster hne w ⟨-, hp, -⟩
      exact absurd hp hne

/-- A reconcile asks for zero when it succeeds, and any number of failed ones
do no harm. -/
theorem ask_rounds (hW : Waits key F) (hz : spec.primaries = 0) :
    Rounds (firmRuns fill key) (fun _ _ _ _ => True) (Reconciles key) (Zero key g spec F)
      (Zero key g spec fun _ w => Asked key w) := by
  refine rounds within_firm hz (fun _ _ _ => trivial) hW.lasts waits_asked.lasts hW.of_asked ?_
  rintro r now cluster rfl hp
  exact ask_triple hW hz hp

/-- A reconcile that succeeds after Robin is done puts the cluster to
sleep. -/
theorem finish_rounds (hz : spec.primaries = 0) :
    Rounds (firmRuns fill key) (fun _ _ _ _ => True) (Reconciles key)
      (Zero key g spec (Done key had)) (Zero key g spec (Sleeps key had)) := by
  refine rounds within_firm hz (fun _ _ _ => trivial) (fun _ => lasts_done) (fun _ => lasts_sleeps)
    ?_ ?_
  · refine fun live w h => ⟨fun c hc => ?_, asked_of_nil h.1.configs, fun _ => h.2⟩
    simp [h.1.configs] at hc
  · rintro r now cluster rfl hp
    exact finish_triple hp

/-- Further reconciles leave it asleep, whatever is lost. -/
theorem sleep_rounds (hz : spec.primaries = 0) :
    Rounds (calmRuns fill key) (KeepsZero key g spec (Sleeps key had)) (Reconciles key)
      (Zero key g spec (Sleeps key had)) (Zero key g spec (Sleeps key had)) := by
  refine rounds within_calm hz (fun _ _ _ h => h) (fun _ => lasts_sleeps) (fun _ => lasts_sleeps)
    (fun _ _ h => h) ?_
  rintro r now cluster rfl hp
  exact sleep_triple hp

end Hibernation

/-! ## Every run -/

open Hibernation Tracking Convergence

/-- Take any state `w₀` the system can get into with `primaries = 0`, in which
the cluster is not stuck, and suppose nobody edits the spec any more and no
deletion of a config is lost. After a reconcile that succeeds (`w₁`), Robin
finishing the configs (`w₂`) and another reconcile that succeeds (`w₃`),
nothing is left but the Redkey. It stays that way, whatever is lost. -/
theorem hibernates (fill : Deployment → Deployment) (key : NamespacedName) {w₀ w₁ w₂ w₃ : World}
    {res res' : Result} {live : Redkey} {m : Machine Call Resp (Except Err Result) World}
    (h₀ : Reachable (trackedRuns fill key Edits) (Reconciles key)
      (fun w => ∃ cluster, Untouched key cluster w) ⟨w₀, none⟩)
    (hlive : w₀.store.redkeys key = some live) (hzero : live.spec.primaries = 0)
    (hfree : ¬ Stuck key w₀)
    (h₁ : Reachable (firmRuns fill key) (Reconciles key) (· = w₀) ⟨w₁, some (.ret (.ok res))⟩)
    (h₂ : Reachable (firmRuns fill key) (Reconciles key) (· = w₁) ⟨w₂, none⟩)
    (hdone : AllFinished key w₂)
    (h₃ : Reachable (firmRuns fill key) (Reconciles key) (· = w₂) ⟨w₃, some (.ret (.ok res'))⟩)
    (h₄ : Reachable (calmRuns fill key) (Reconciles key) (· = w₃) m) :
    ∃ live', live'.generation = live.generation ∧ live'.spec = live.spec ∧
      Asleep key live' m.shared ∧ (w₂.configsOf key ≠ [] → RobinGone key m.shared) := by
  obtain ⟨live₀, -, hw₀⟩ := reachable_idle keeps_edits
    (fun w ⟨cluster, hw⟩ => ⟨cluster, trivial, hw.tracks⟩) h₀
  obtain rfl : live = live₀ := Option.some.inj (hlive.symm.trans hw₀.stored)
  have hstart : Zero key live.generation live.spec (fun _ w => ¬ Stuck key w) w₀ :=
    ⟨live, ⟨rfl, rfl⟩, hw₀, hfree⟩
  -- the first reconcile asks,
  have hasked := (ask_rounds waits_not_stuck hzero).ok (fun w hw => hw ▸ hstart) h₁
  -- Robin works on it,
  have hwaiting := (ask_rounds waits_asked hzero).idle (fun w hw => hw ▸ hasked) h₂
  have hfinish : ∀ w, w = w₂ →
      Zero key live.generation live.spec (Done key (w₂.configsOf key ≠ [])) w := by
    intro w hw
    rw [hw]
    exact hwaiting.imp fun _ _ h => ⟨hdone, h, fun hnil hne => absurd hnil hne⟩
  -- and the second one takes everything down
  have hsleeps := (finish_rounds hzero).ok hfinish h₃
  obtain ⟨live', hlive', -, hasleep, hgone⟩ := (sleep_rounds hzero).always (fun w hw => hw ▸ hsleeps)
    (fun w hw => hw ▸ hsleeps) (stable_zero fun _ => lasts_sleeps) (fun _ _ _ _ hG hw => hG hw) h₄
  exact ⟨live', hlive'.1, hlive'.2, hasleep, hgone⟩

/-- The spec of the sample cluster, scaled to zero. -/
def sampleZero : RedkeySpec := { sampleCluster.spec with primaries := 0 }

/-- Robin has applied the config for three primaries when the user asks for
none. -/
def goodNight : World :=
  (((World.initial sampleCluster).reconciled id sampleCluster.key 1).reported sampleCluster.key 1
    { configPhase := .applied, status := .ready }).edited sampleCluster.key sampleZero

theorem goodNight_reachable :
    Reachable (trackedRuns id sampleCluster.key Edits) (Reconciles sampleCluster.key)
      (fun w => ∃ cluster, Untouched sampleCluster.key cluster w) ⟨goodNight, none⟩ := by
  have hconfigured : Reachable (trackedRuns id sampleCluster.key Edits)
      (Reconciles sampleCluster.key) (fun w => ∃ cluster, Untouched sampleCluster.key cluster w)
      ⟨(World.initial sampleCluster).reconciled id sampleCluster.key 1, none⟩ :=
    World.reachable_reconciled id (Reachable.idle ⟨sampleCluster, initial_untouched⟩)
      (Prog.checks_true _ _ _ _) (by decide +kernel)
  exact (hconfigured.env ⟨trivial, World.env_reported (by decide +kernel)⟩).env
    ⟨trivial, World.env_edited sampleZero (by decide +kernel)⟩

/-- Robin has applied the config for none. -/
def lightsOut : World :=
  (goodNight.reconciled id sampleCluster.key 2).reported sampleCluster.key 2
    { configPhase := .applied }

/-- A call that is answered is one of these runs. -/
theorem firm_served (fill : Deployment → Deployment) (key : NamespacedName) (c : Call) (w : World)
    (r : Resp c) (w' : World) (h : World.exec fill c w r w') : (firmRuns fill key).exec c w r w' :=
  ⟨Or.inl ⟨trivial, h⟩, fun _ _ => h⟩

/-- So is a reconcile all of whose calls are answered. -/
theorem firm_reconciled (w : World) (now : Time) (res : Result)
    (hres : (Machine.advance (fun c w => World.answer id (fun _ => false) c w) 40
      ⟨w, some (reconcile { resyncInterval := 60 } now sampleCluster.key)⟩).thread =
        some (.ret (.ok res))) :
    Reachable (firmRuns id sampleCluster.key) (Reconciles sampleCluster.key) (· = w)
      ⟨w.reconciled id sampleCluster.key now, some (.ret (.ok res))⟩ :=
  World.reachable_reconciled_ok id (firm_served id sampleCluster.key) (Reachable.idle rfl) hres

theorem hibernates_sample :
    ∃ live, live.spec.primaries = 0 ∧
      Asleep sampleCluster.key live (lightsOut.reconciled id sampleCluster.key 3) ∧
      RobinGone sampleCluster.key (lightsOut.reconciled id sampleCluster.key 3) := by
  obtain ⟨live, hlive⟩ : ∃ live, goodNight.store.redkeys sampleCluster.key = some live :=
    Option.isSome_iff_exists.mp (by decide +kernel)
  have hzero : (goodNight.store.redkeys sampleCluster.key).map (fun live => live.spec.primaries) =
      some 0 := by decide +kernel
  rw [hlive, Option.map_some, Option.some.injEq] at hzero
  have hidle : Reachable (firmRuns id sampleCluster.key) (Reconciles sampleCluster.key)
      (· = goodNight.reconciled id sampleCluster.key 2)
      ⟨goodNight.reconciled id sampleCluster.key 2, none⟩ := Reachable.idle rfl
  have happlied : Reachable (firmRuns id sampleCluster.key) (Reconciles sampleCluster.key) _
      ⟨lightsOut, none⟩ := hidle.env ⟨trivial, World.env_reported (by decide +kernel)⟩
  have hdone : ∀ c ∈ lightsOut.configsOf sampleCluster.key,
      isTerminalConfigPhase c.status.configPhase = true := by decide +kernel
  obtain ⟨live', -, hspec, hasleep, hgone⟩ := hibernates id sampleCluster.key goodNight_reachable
    hlive hzero (by decide +kernel) (firm_reconciled goodNight 2 { requeueAfter := 60 } rfl) happlied
    hdone (firm_reconciled lightsOut 3 { requeueAfter := 60 } rfl) (Reachable.idle rfl)
  exact ⟨live', hspec ▸ hzero, hasleep, hgone (by decide +kernel)⟩

end RedkeyOperator
