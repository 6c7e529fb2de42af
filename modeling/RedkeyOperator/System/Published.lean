import RedkeyOperator.Lib.History
import RedkeyOperator.System.LaggingRules

/-!
# The published generation

Both status writers publish the generation of the Redkey their reconcile started from, over a
version they may have read later. The cache of the Redkey never goes back, so the next snapshot is
at least as new as anything published so far (`View.Observed`): what the status says of the
observed generation only ever grows, and never runs ahead of the spec.
-/

namespace RedkeyOperator

open Interleaved Relation

/-- What every version of the Redkey that can still be read says of the last
snapshot. The status of each is one that some reconcile has published, and
none started later than the last. -/
structure View.Observed (v : View) : Prop where
  /-- Generations only grow from version to version. -/
  ordered : v.redkey.Ordered fun r r' => r.generation ≤ r'.generation
  /-- The last reconcile has started from a version that is not newer. -/
  current : ∀ r ∈ v.redkey.versions, v.snapshot.generation ≤ r.generation
  /-- Nothing newer than its snapshot has been published. -/
  observed : ∀ r ∈ v.redkey.versions, r.status.observedGeneration ≤ v.snapshot.generation

/-- The status moves on to a generation that is as new at least. It may stay
where it is. -/
def View.Advances (v v' : View) : Prop :=
  v.redkey.live.status.observedGeneration ≤ v'.redkey.live.status.observedGeneration

theorem View.Env.advances {v v' : View} (h : View.Env v v') : v.Advances v' := by
  cases h <;> exact le_rfl

namespace View.Observed

variable {v v' : View}

theorem init {key : NamespacedName} (h : v.Init key)
    (hobs : v.snapshot.status.observedGeneration ≤ v.snapshot.generation) : v.Observed := by
  have hred : ∀ r ∈ v.redkey.versions, r = v.snapshot := by
    intro r hr
    rw [h.redkey] at hr
    simpa [Lag.versions] using hr
  refine ⟨?_, ?_, ?_⟩
  · rw [h.redkey]
    exact List.pairwise_singleton _ _
  · intro r hr
    rw [hred r hr]
  · intro r hr
    rw [hred r hr]
    exact hobs

/-- A new version of the Redkey. -/
theorem commit (h : v.Observed) {r : Redkey} (hgen : v.redkey.live.generation ≤ r.generation)
    (hobs : r.status.observedGeneration ≤ v.snapshot.generation) :
    View.Observed { v with redkey := v.redkey.commit r } := by
  refine ⟨Lag.ordered_commit.mpr ⟨h.ordered, ?_⟩, ?_, ?_⟩
  · intro r' hr'
    rcases h.ordered.live hr' with rfl | hle
    · exact hgen
    · exact hle.trans hgen
  · intro r' hr'
    rcases Lag.mem_versions_commit.mp hr' with hold | rfl
    · exact h.current r' hold
    · exact (h.current _ Lag.live_mem).trans hgen
  · intro r' hr'
    rcases Lag.mem_versions_commit.mp hr' with hold | rfl
    · exact h.observed r' hold
    · exact hobs

theorem read (h : v.Observed) {l : Lag Redkey} (hl : v.redkey.Read l) :
    View.Observed { v with redkey := l } :=
  ⟨h.ordered.read hl, fun r hr => h.current r (hl.mem hr), fun r hr => h.observed r (hl.mem hr)⟩

/-- A reconcile starts from the version it reads. -/
theorem start (h : v.Observed) {l : Lag Redkey} (hl : v.redkey.Read l) :
    View.Observed { v with redkey := l, snapshot := l.head } := by
  have hordered := h.ordered.read hl
  refine ⟨hordered, ?_, ?_⟩
  · intro r hr
    rcases hordered.head hr with rfl | hle
    · exact le_rfl
    · exact hle
  · -- nothing published is newer than the last snapshot, which is not newer than this one
    intro r hr
    exact (h.observed r (hl.mem hr)).trans (h.current _ (hl.mem Lag.head_mem))

/-- A step of the user or of Robin. -/
theorem env (h : v.Observed) (hstep : View.Env v v') : v'.Observed := by
  cases hstep with
  | userUpdate spec _ =>
      -- an edit leaves the status alone
      have hobs := h.observed _ Lag.live_mem
      exact h.commit (Int.le_add_one le_rfl) hobs
  | robinWrite k status => exact { h with }

/-- A status write on behalf of the snapshot. -/
theorem write (h : v.Observed) {written stored : Redkey}
    (hobs : written.status.observedGeneration = v.snapshot.generation)
    (hstored : v.redkey.live.writeStatus written = .ok stored) :
    View.Observed { v with redkey := v.redkey.commit stored } ∧
      v.Advances { v with redkey := v.redkey.commit stored } := by
  obtain ⟨-, rfl⟩ := Redkey.writeStatus_ok hstored
  exact ⟨h.commit le_rfl hobs.le, (h.observed _ Lag.live_mem).trans hobs.ge⟩

/-- Both writers publish the generation of the Redkey that the reconcile
started from. -/
theorem madeFor {now : Time} {cluster written : Redkey}
    (h : (Call.updateRedkeyStatus written).MadeFor now cluster) :
    written.status.observedGeneration = cluster.generation := by
  cases h <;> rfl

/-- A request of the reconcile that started from the snapshot. -/
theorem exec (h : v.Observed) {now : Time} {c : Call} {x : Resp c} (hc : c.MadeFor now v.snapshot)
    (hexec : View.exec c v x v') : v'.Observed ∧ v.Advances v' := by
  cases c with
  | getRedkey k site =>
      obtain ⟨l, hl, rfl, rfl⟩ := hexec
      cases hc
      exact ⟨h.read hl, by rw [Advances, View.readAt, hl.1]⟩
  | updateRedkeyStatus written =>
      obtain ⟨rfl, rfl⟩ := hexec
      -- the write is accepted or refused
      split
      case h_1 stored hstored => exact h.write (madeFor hc) hstored
      case h_2 => exact ⟨h, le_rfl⟩
  | listConfigs ns label value site =>
      obtain ⟨l, items, -, -, -, rfl⟩ := hexec
      exact ⟨{ h with }, le_rfl⟩
  | createConfig config =>
      obtain rfl : v' = _ := congrArg Prod.snd hexec
      cases Configs.create v.configs.live config <;> exact ⟨{ h with }, le_rfl⟩
  | deleteConfig k =>
      obtain rfl : v' = _ := congrArg Prod.snd hexec
      cases Configs.delete v.configs.live k <;> exact ⟨{ h with }, le_rfl⟩
  | _ =>
      obtain rfl : v' = v := hexec
      exact ⟨h, le_rfl⟩

end View.Observed

/-! ## Whole runs -/

section Runs

variable {ok : Call → View → Prop} {key : NamespacedName}

/-- The reconcile and its environment keep the invariant, and every request
moves the status on. -/
theorem observed_laws : SnapshotLaws (viewRuns ok)
    (fun _ v _ v' => v.Observed → v'.Observed ∧ v.Advances v') View.Observed
    (fun cluster v => v.Observed ∧ v.snapshot = cluster) key := by
  refine SnapshotLaws.lossy {
    quiet := ⟨fun _ _ _ _ hexec => hexec.2, fun _ _ _ h => ⟨h, le_rfl⟩⟩
    idle := fun _ _ henv h => h.env henv.2
    running := fun _ _ _ henv h =>
      ⟨h.1.env henv.2, (View.Laws.env_snapshot henv.2).trans h.2⟩
    weaken := fun _ _ h => h.1
    start := ?_
    call := ?_ } (fun _ _ _ _ hG => hG) fun _ _ _ h => ⟨h, le_rfl⟩
  · -- the read at the start moves the snapshot on
    rintro v _ _ h ⟨-, l, hl, rfl, rfl⟩
    exact ⟨fun _ => ⟨h.start hl, by rw [View.Advances, View.readAt, hl.1]⟩, h.start hl, rfl⟩
  · rintro now _ c v x v' hc ⟨h, rfl⟩ ⟨-, hexec⟩
    obtain ⟨h', hadvances⟩ := h.exec hc hexec
    exact ⟨fun _ => ⟨h', hadvances⟩, h', hc.snapshot_eq hexec⟩

/-- A Redkey that was just created, with a status that is not ahead of it. The
server does not let users write a status with the spec. -/
structure View.NotAhead (key : NamespacedName) (v : View) : Prop where
  init : v.Init key
  observed : v.snapshot.status.observedGeneration ≤ v.snapshot.generation

/-- The observed generation never goes back, and is never ahead of the spec,
whatever the caches show and whichever requests are lost. -/
theorem observed_generation_advances (fill : Deployment → Deployment) (ok : Call → View → Prop)
    (key : NamespacedName) {m m' : Machine Call Resp (Except Err Result) Lagging}
    (hm : Reachable (laggingRuns fill ok) (Reconciles key) (fun s => s.view.NotAhead key) m)
    (hrun : ReflTransGen (Step (laggingRuns fill ok) (Reconciles key)) m m') :
    m.shared.view.redkey.live.status.observedGeneration ≤
      m'.shared.view.redkey.live.status.observedGeneration ∧
    m'.shared.view.redkey.live.status.observedGeneration ≤
      m'.shared.view.redkey.live.generation := by
  have hinit : ∀ v : View, v.NotAhead key → v.Observed := fun v h => .init h.init h.observed
  -- the claim is about the Redkey only, so Robin's objects are left out
  have hview : ∀ {m : Machine Call Resp (Except Err Result) Lagging},
      Reachable (laggingRuns fill ok) (Reconciles key) (fun s => s.view.NotAhead key) m →
        Reachable (viewRuns ok) (Reconciles key) (View.NotAhead key) ⟨m.shared.view, m.thread⟩ :=
    fun hm => (laggingRuns_projects fill ok).reachable (fun _ hs => hs) hm
  have hinv : ∀ {m : Machine Call Resp (Except Err Result) Lagging},
      Reachable (laggingRuns fill ok) (Reconciles key) (fun s => s.view.NotAhead key) m →
        m.shared.view.Observed :=
    fun hm => observed_laws.reachable hinit (fun _ _ _ _ hG h => (hG h).1) (hview hm)
  refine ⟨?_, ?_⟩
  · refine Reachable.steps (D := fun s s' : Lagging => s.view.Advances s'.view) (fun _ => le_rfl)
      (fun _ _ _ => le_trans) ?_ ?_ hm hrun
    · -- henv.2.1.advances => step by step from `m` on
      exact fun _ _ henv => henv.2.1.advances
    · intro s c k x s' hcall hexec
      exact (observed_laws.reachable_call hinit (hview hcall)
        ((laggingRuns_projects fill ok).exec _ _ _ _ hexec) (hinv hcall)).2
  · obtain ⟨s₀, hs₀, hrun₀⟩ := hm
    have h := hinv ⟨s₀, hs₀, hrun₀.trans hrun⟩
    exact (h.observed _ Lag.live_mem).trans (h.current _ Lag.live_mem)

end Runs

/-! ### A second generation -/

/-- A reconcile of the sample cluster, with up-to-date reads. -/
def publishedFrom (now : Time) (s : Lagging) : Machine Call Resp (Except Err Result) Lagging :=
  Machine.advance (fun c s => Lagging.answer id true c s) 40
    ⟨s, some (reconcile { resyncInterval := 60 } now sampleCluster.key)⟩

theorem reachable_publishedFrom {init : Lagging → Prop} {s : Lagging} (now : Time)
    (hm : Reachable (laggingRuns id fun _ _ => True) (Reconciles sampleCluster.key) init
      ⟨s, none⟩) :
    Reachable (laggingRuns id fun _ _ => True) (Reconciles sampleCluster.key) init
      (publishedFrom now s) :=
  (hm.start ⟨_, _, rfl⟩).advance (fun _ _ => true)
    (fun c s _ => Lagging.answer_exec_runs id true _ c s trivial) 40
    fun p _ => Prog.checks_true _ 40 p _

/-- The first reconcile is done. -/
def publishedOnce : Lagging := (publishedFrom 7 (Lagging.initial sampleCluster)).shared

/-- The user has asked for five primaries, and the second one is done too. -/
def publishedTwice : Machine Call Resp (Except Err Result) Lagging :=
  publishedFrom 8 (publishedOnce.edited { sampleCluster.spec with primaries := 5 })

/-- The generation that was published first, and the one after an edit. -/
theorem observed_generation_advances_sample :
    publishedOnce.view.redkey.live.status.observedGeneration = 1 ∧
    publishedOnce.view.redkey.live.status.observedGeneration ≤
      publishedTwice.shared.view.redkey.live.status.observedGeneration ∧
    publishedTwice.shared.view.redkey.live.status.observedGeneration ≤
      publishedTwice.shared.view.redkey.live.generation := by
  have hidle : Reachable (laggingRuns id fun _ _ => True) (Reconciles sampleCluster.key)
      (fun s => s.view.NotAhead sampleCluster.key) ⟨Lagging.initial sampleCluster, none⟩ :=
    Reachable.idle ⟨Lagging.initial_init (by decide), by decide⟩
  have hfirst := (reachable_publishedFrom 7 hidle).finish (by decide +kernel)
  -- the rest of the run, from there on
  have hrest : Reachable (laggingRuns id fun _ _ => True) (Reconciles sampleCluster.key)
      (fun s => s = publishedOnce) publishedTwice := by
    have hstart : Reachable (laggingRuns id fun _ _ => True) (Reconciles sampleCluster.key)
        (fun s => s = publishedOnce) ⟨publishedOnce, none⟩ := Reachable.idle rfl
    refine reachable_publishedFrom 8 (hstart.env ⟨trivial, ?_, rfl⟩)
    exact View.Env.userUpdate _ (by decide +kernel)
  obtain ⟨_, rfl, hrun⟩ := hrest
  have h := observed_generation_advances id (fun _ _ => True) sampleCluster.key hfirst hrun
  exact ⟨by decide +kernel, h⟩

end RedkeyOperator
