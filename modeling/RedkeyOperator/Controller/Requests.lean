import RedkeyOperator.Controller.Rules
import RedkeyOperator.Lib.Locality

/-!
# The requests of a reconcile

A reconcile reads its Redkey once. Every request it makes afterwards is one of a short list, filled
in from that snapshot and from what was read since (`Call.MadeFor`); this holds whatever the
answers are, so it holds in every system the reconcile may run in.

`SnapshotLaws` is the proof rule that comes with the list: an assertion about the snapshot and the
state that each of the requests keeps holds from the first read to the end.
-/

namespace RedkeyOperator

open Interleaved Interleaved.Op

/-- The requests of a reconcile that started from `cluster`. Keys, labels and
new objects are all built from the snapshot; what is patched or deleted may
also come from what was read since. -/
inductive Call.MadeFor (now : Time) (cluster : Redkey) : Call → Prop
  /-- Counters are updated on every path, also on those that fail. -/
  | metric (e : MetricEvent) : MadeFor now cluster (.metric e)
  | get (k : Kind) : MadeFor now cluster (.get k (robinKey cluster))
  | createSA : MadeFor now cluster (.create .serviceAccount (desiredSA cluster))
  | createRole : MadeFor now cluster (.create .role (desiredRole cluster))
  | createRB : MadeFor now cluster (.create .roleBinding (desiredRB cluster))
  | createDeployment :
      MadeFor now cluster (.create .deployment (buildDesiredRobinDeployment cluster))
  /-- Only labels and annotations differ from what is stored. -/
  | patchSA (patched : ServiceAccount) : MadeFor now cluster (.patch .serviceAccount patched)
  /-- The rules are always written as a whole. -/
  | patchRole (patched : Role) (hrules : patched.rules = desiredRobinRules) :
      MadeFor now cluster (.patch .role patched)
  /-- A binding that refers to another Role cannot be patched; `replaceRB`
  deletes it first. -/
  | patchRB (patched : RoleBinding) (hsubjects : patched.subjects = (desiredRB cluster).subjects)
      (href : patched.roleRef = (desiredRB cluster).roleRef) :
      MadeFor now cluster (.patch .roleBinding patched)
  | patchDeployment (existing : Deployment) : MadeFor now cluster
      (.patch .deployment (patchedDeployment existing (buildDesiredRobinDeployment cluster)))
  | delete (k : Kind) : MadeFor now cluster (.delete k (robinKey cluster))
  | replaceRB (key : NamespacedName) : MadeFor now cluster (.delete .roleBinding key)
  | list (site : ListSite) :
      MadeFor now cluster (.listConfigs cluster.ns clusterLabel cluster.name site)
  /-- The config of the snapshot's spec, numbered after the highest one that
  was listed. -/
  | createConfig (highest : Option RedkeyConfig) :
      MadeFor now cluster (.createConfig (newConfig cluster highest))
  | deleteConfig (key : NamespacedName) : MadeFor now cluster (.deleteConfig key)
  | reread : MadeFor now cluster (.getRedkey cluster.key .aggregateStatus)
  /-- The status of the active config, on top of the Redkey that was read
  again. -/
  | aggregated (latest : Redkey) (active : RedkeyConfig) :
      MadeFor now cluster (.updateRedkeyStatus { latest with
        status := aggregatedStatus now cluster.generation latest active })
  /-- The status of a cluster without configs, on top of the snapshot
  itself. -/
  | scaledToZero : MadeFor now cluster
      (.updateRedkeyStatus { cluster with status := scaledToZeroStatus now cluster })

section Requests

variable {cluster : Redkey} {now : Time} {r : RedkeyReconciler} {α : Type}

/-- Whatever the answers are, the program makes no other requests. -/
abbrev Makes (now : Time) (cluster : Redkey) (p : Rec α) : Prop :=
  Op.Uses (fun _ _ => True) (Call.MadeFor now cluster) p

/-! ## Robin's objects -/

/-- The shape shared by the `ensure*` functions: a read, and one of two
continuations. An error other than NotFound ends the program. -/
theorem withExisting_makes {k : Kind} {absent : Rec Unit} {present : Obj k → Rec Unit}
    (habsent : Makes now cluster absent) (hpresent : ∀ obj, Makes now cluster (present obj)) :
    Makes now cluster (withExisting k (robinKey cluster) absent present) := by
  refine ⟨.get k, ?_⟩
  intro x _
  match x with
  -- the object is there, and may have to be patched
  | .ok obj => exact hpresent obj
  -- it is created
  | .error .notFound => exact habsent
  | .error .alreadyExists => trivial
  | .error .conflict => trivial
  | .error .other => trivial

theorem ensureServiceAccount_makes : Makes now cluster (ensureServiceAccount cluster) := by
  refine withExisting_makes (uses_api .createSA) ?_
  intro existing
  dsimp only
  split
  · exact uses_api (.patchSA _)
  · trivial

theorem ensureRole_makes : Makes now cluster (ensureRole cluster) := by
  refine withExisting_makes (uses_api .createRole) ?_
  intro existing
  dsimp only
  split
  · exact uses_api (.patchRole _ rfl)
  · trivial

/-- The binding is the one object that may have to be replaced, since its
`roleRef` is immutable. -/
theorem ensureRoleBinding_makes : Makes now cluster (ensureRoleBinding cluster) := by
  refine withExisting_makes (uses_api .createRB) ?_
  intro existing
  dsimp only
  split
  · exact uses_bind (uses_api (.replaceRB _)) fun _ => uses_api .createRB
  -- the reference is the desired one, so that a patch leaves it alone
  case isFalse href =>
    split
    · exact uses_api (.patchRB _ rfl (not_not.mp href))
    · trivial

theorem ensureRBAC_makes : Makes now cluster (ensureRBAC cluster) :=
  uses_bind ensureServiceAccount_makes fun _ =>
    uses_bind ensureRole_makes fun _ => ensureRoleBinding_makes

/-- The Deployment is created as it is built, or patched over what is
stored. -/
theorem ensureRobinDeployment_makes : Makes now cluster (ensureRobinDeployment cluster) := by
  refine withExisting_makes
    (uses_bind (uses_api .createDeployment) fun _ => uses_metric (.metric _)) ?_
  intro existing
  split
  · exact uses_bind (uses_api (.patchDeployment existing)) fun _ => uses_metric (.metric _)
  · trivial

/-- One deletion. NotFound counts as success. -/
theorem deleteIfPresent_makes {k : Kind} {text : String} :
    Makes now cluster (deleteIfPresent k (robinKey cluster) text) := by
  refine ⟨.delete k, ?_⟩
  intro x _
  match x with
  | .ok _ => trivial
  | .error .notFound => trivial
  | .error .alreadyExists => trivial
  | .error .conflict => trivial
  | .error .other => trivial

theorem deleteRBAC_makes : Makes now cluster (deleteRBAC cluster) :=
  uses_bind deleteIfPresent_makes fun _ =>
    uses_bind deleteIfPresent_makes fun _ => deleteIfPresent_makes

/-! ## Configs -/

theorem listConfigs_makes : Makes now cluster (listConfigs cluster) :=
  uses_bind (uses_api (.list _)) fun _ => uses_pure _

/-- One create. AlreadyExists counts as success, and only a config that is new
is counted. -/
theorem createNewConfig_makes {highest : Option RedkeyConfig} :
    Makes now cluster (createNewConfig cluster highest) := by
  refine ⟨.createConfig highest, ?_⟩
  intro x _
  match x with
  | .ok _ => exact uses_metric (.metric _)
  | .error .alreadyExists => trivial
  | .error .notFound => trivial
  | .error .conflict => trivial
  | .error .other => trivial

/-- The deletions of the cleanup, oldest config first. -/
theorem deleteSuperseded_makes (old kept : List RedkeyConfig) :
    Makes now cluster (deleteSuperseded old kept) := by
  induction old with
  | nil => trivial
  | cons c old ih =>
      refine ⟨.deleteConfig c.key, ?_⟩
      intro x _
      match x with
      | .ok _ =>
          -- each deletion that was made is counted before the next one
          have hrest : Makes now cluster (do
              metric .cleanupDeletedConfig
              deleteSuperseded old kept) := uses_bind (uses_metric (.metric _)) fun _ => ih
          exact hrest
      | .error .notFound => exact ih
      | .error .alreadyExists => trivial
      | .error .conflict => trivial
      | .error .other => trivial

/-- The cleanup deletes configs and does nothing else. -/
theorem cleanupSupersededConfigs_makes (configs : List RedkeyConfig) :
    Makes now cluster (cleanupSupersededConfigs configs) := by
  unfold cleanupSupersededConfigs
  split
  · trivial
  · split
    · trivial
    · exact deleteSuperseded_makes _ _

/-- The loop of `deleteAllConfigs`; there is no counter here. -/
theorem deleteConfigs_makes (items : List RedkeyConfig) :
    Makes now cluster (deleteConfigs items) := by
  induction items with
  | nil => trivial
  | cons c items ih =>
      refine ⟨.deleteConfig c.key, ?_⟩
      intro x _
      match x with
      | .ok _ => exact ih
      | .error .notFound => exact ih
      | .error .alreadyExists => trivial
      | .error .conflict => trivial
      | .error .other => trivial

theorem deleteAllConfigs_makes : Makes now cluster (deleteAllConfigs cluster) := by
  refine ⟨.list _, ?_⟩
  intro x _
  match x with
  | .ok items => exact deleteConfigs_makes items
  | .error e => trivial

/-! ## Status -/

/-- A retry makes the requests of `fn` once more, so it makes no others. -/
theorem retryOnConflict_makes {fn : Rec α} (hfn : Makes now cluster fn) (n : ℕ) :
    Makes now cluster (retryOnConflict n fn) := by
  induction n with
  | zero => exact hfn
  | succ n ih =>
      refine uses_catchError hfn ?_
      intro e
      match e with
      -- the one error that is retried
      | .api .conflict => exact ih
      | .api .notFound => trivial
      | .api .alreadyExists => trivial
      | .api .other => trivial
      | .wrapped _ _ => trivial

/-- Each attempt reads the Redkey again and writes a status on top of it. -/
theorem aggregateStatus_makes {configs : List RedkeyConfig} :
    Makes now cluster (aggregateStatus now cluster configs) := by
  unfold aggregateStatus
  split
  · trivial
  · refine retryOnConflict_makes ?_ _
    refine uses_bind (uses_api .reread) fun latest => ?_
    exact uses_bind (uses_api (.aggregated latest _)) fun _ => uses_pure _

theorem updateStatusScaledToZero_makes :
    Makes now cluster (updateStatusScaledToZero now cluster) :=
  uses_api .scaledToZero

/-! ## The reconcile -/

/-- A stage adds the counter of its failure to the requests. -/
theorem staged_makes {stage : Stage} {p : Rec α} (hp : Makes now cluster p) :
    Makes now cluster (staged stage p) :=
  uses_catchError hp fun e => uses_bind (uses_metric (.metric _)) fun _ => uses_throw e

/-- All four cases of the scale-to-zero path. -/
theorem reconcileScaleToZero_makes : Makes now cluster (reconcileScaleToZero r now cluster) := by
  refine uses_bind listConfigs_makes fun configs => ?_
  split
  · -- case A: no config is left
    exact uses_bind updateStatusScaledToZero_makes fun _ => uses_pure _
  · split
    · -- case B: Robin is asked to scale down
      refine uses_bind ensureRBAC_makes fun _ => uses_bind ensureRobinDeployment_makes fun _ => ?_
      exact uses_bind createNewConfig_makes fun _ => uses_pure _
    · split
      · -- case C: the teardown
        refine uses_bind deleteIfPresent_makes fun _ => uses_bind deleteRBAC_makes fun _ => ?_
        refine uses_bind deleteAllConfigs_makes fun _ => ?_
        exact uses_bind updateStatusScaledToZero_makes fun _ => uses_pure _
      · -- case D: Robin is still at it
        refine uses_bind ensureRBAC_makes fun _ => uses_bind ensureRobinDeployment_makes fun _ => ?_
        exact uses_bind aggregateStatus_makes fun _ => uses_pure _

theorem ensureConfig_makes (configs : List RedkeyConfig) :
    Makes now cluster (ensureConfig cluster configs) := by
  unfold ensureConfig
  split
  · exact uses_bind (staged_makes createNewConfig_makes) fun _ => staged_makes listConfigs_makes
  · trivial

/-- The cleanup and the status, with the cleanup's own error passed on. -/
theorem settleConfigs_makes (configs : List RedkeyConfig) :
    Makes now cluster (settleConfigs now cluster configs) := by
  unfold settleConfigs
  split
  · trivial
  · refine uses_bind (staged_makes ?_) fun kept => ?_
    · refine uses_bind (cleanupSupersededConfigs_makes configs) ?_
      rintro ⟨kept, err⟩
      cases err with
      | none => exact uses_pure _
      | some e => exact uses_throw e
    · exact uses_bind (staged_makes aggregateStatus_makes) fun _ => uses_pure _

/-- The path of a cluster with primaries, stage by stage. -/
theorem reconcileConfigs_makes : Makes now cluster (reconcileConfigs r now cluster) := by
  refine uses_bind (staged_makes ensureRBAC_makes) fun _ => ?_
  refine uses_bind (staged_makes ensureRobinDeployment_makes) fun _ => ?_
  refine uses_bind (staged_makes listConfigs_makes) fun configs => ?_
  refine uses_bind (ensureConfig_makes configs) fun configs => ?_
  refine uses_bind (settleConfigs_makes configs) ?_
  rintro ⟨cluster', configs⟩
  exact uses_bind (uses_metric (.metric _)) fun _ => uses_pure _

end Requests

/-! ## The proof rule -/

section Snapshot

variable {σ : Type} {M : Sem Call Resp σ} {G : (c : Call) → σ → Resp c → σ → Prop} {I : σ → Prop}
variable {A : Redkey → σ → Prop} {key : NamespacedName}

/-- `I` holds between reconciles and `A cluster` while the one that started
from `cluster` runs: every request of the list keeps it, with the guarantee
`G`. -/
structure SnapshotLaws (M : Sem Call Resp σ) (G : (c : Call) → σ → Resp c → σ → Prop)
    (I : σ → Prop) (A : Redkey → σ → Prop) (key : NamespacedName) : Prop where
  quiet : Quiet M G
  idle : Stable M I
  running : ∀ cluster, Stable M (A cluster)
  weaken : ∀ cluster s, A cluster s → I s
  /-- The first read starts the snapshot. A Redkey that is gone ends the
  reconcile. -/
  start : ∀ s x s', I s → M.exec (.getRedkey key .reconcile) s x s' →
    G (.getRedkey key .reconcile) s x s' ∧ Tolerating .notFound A I I x s'
  /-- Every later request is on the list, whatever was read since. -/
  call : ∀ now cluster c s x s', c.MadeFor now cluster → A cluster s → M.exec c s x s' →
    G c s x s' ∧ A cluster s'

namespace SnapshotLaws

/-- From the laws to a triple of the whole reconcile. Both of its paths make
requests of the list only, so neither needs an argument of its own. -/
theorem triple (h : SnapshotLaws M G I A key) {r : RedkeyReconciler} {now : Time} :
    Triple M G I I (reconcile r now key) fun _ => I := by
  -- what remains after the first read, for any program with the right requests
  have hrest : ∀ (cluster : Redkey) {α : Type} {p : Rec α}, Makes now cluster p →
      Triple M G I (A cluster) p fun _ => I := by
    intro cluster α p hp
    refine ((Triple.of_uses (h.running cluster) ?_ hp).error (h.weaken cluster)).post
      fun _ => h.weaken cluster
    exact fun c s x s' hc hs hexec => ⟨trivial, h.call now cluster c s x s' hc hs hexec⟩
  exact reconcile_triple A h.quiet h.idle h.idle h.idle h.start
    (fun cluster _ => hrest cluster reconcileScaleToZero_makes)
    fun cluster _ => hrest cluster reconcileConfigs_makes

/-- The laws hold with lost requests too, if they hold without. A lost request
either has not been made or has been made without the answer getting back. -/
theorem lossy (h : SnapshotLaws M G I A key)
    (hlost : ∀ c s x s', G c s x s' → G c s (lost c) s') (hidle : ∀ c s, I s → G c s (lost c) s) :
    SnapshotLaws (M.lossy lost) G I A key where
  quiet := by
    refine ⟨?_, h.quiet.free⟩
    rintro e s x s' (hexec | ⟨-, heq | ⟨x₀, hexec⟩⟩)
    · exact h.quiet.state e s x s' hexec
    · exact heq
    · exact h.quiet.state e s x₀ s' hexec
  idle := h.idle
  running := h.running
  weaken := h.weaken
  start s x s' := lossy_tolerating (by decide) (fun _ hs => hs) h.weaken (fun _ hs => hs)
    (hlost _) (fun s => hidle _ s) h.start s x s'
  call := by
    rintro now cluster c s x s' hc hs (hexec | ⟨rfl, rfl | ⟨x₀, hexec⟩⟩)
    · -- answered
      exact h.call now cluster c s x s' hc hs hexec
    · -- not made
      exact ⟨hidle c _ (h.weaken cluster _ hs), hs⟩
    · -- made, and the answer is lost
      obtain ⟨hG, hs'⟩ := h.call now cluster c s x₀ s' hc hs hexec
      exact ⟨hlost c s x₀ s' hG, hs'⟩

variable {init : σ → Prop}

/-- A reconcile can be started whenever `I` holds. -/
theorem entry (h : SnapshotLaws M G I A key) {p : Rec Result} (hp : Reconciles key p) {s : σ}
    (hs : I s) : Interleaved.wp M G (fun _ s => I s) p s := by
  obtain ⟨r, now, rfl⟩ := hp
  exact h.triple.entry hs

/-- Every request of every run has the guarantee. -/
theorem reachable_call (h : SnapshotLaws M G I A key) (hinit : ∀ s, init s → I s) {s s' : σ}
    {c : Call} {k : Resp c → Rec Result} {x : Resp c}
    (hm : Reachable M (Reconciles key) init ⟨s, some (.call c k)⟩) (hexec : M.exec c s x s') :
    G c s x s' :=
  Interleaved.reachable_call hinit h.idle (fun _ => h.idle) (fun _ _ hs => hs)
    (fun _ hp _ hs => h.entry hp hs) hm hexec

/-- If the guarantee keeps `I`, it holds in the middle of a reconcile too. -/
theorem reachable (h : SnapshotLaws M G I A key) (hinit : ∀ s, init s → I s)
    (hG : ∀ c s x s', G c s x s' → I s → I s') {m : Machine Call Resp (Except Err Result) σ}
    (hm : Reachable M (Reconciles key) init m) : I m.shared :=
  reachable_always hinit h.idle (fun _ => h.idle) (fun _ _ hs => hs)
    (fun _ hp _ hs => h.entry hp hs) hinit h.idle hG hm

end SnapshotLaws

/-- The requests of the whole reconcile: the first read, counters, and what is
on the list for a Redkey that the read can have returned. -/
theorem reconcile_makes {r : RedkeyReconciler} {now : Time} {ok : (c : Call) → Resp c → Prop}
    {P : Redkey → Prop} (hok : ∀ c, ∃ x, ok c x)
    (hP : ∀ cluster, ok (.getRedkey key .reconcile) (.ok cluster) → P cluster) :
    (reconcile r now key).Uses ok fun c => c = .getRedkey key .reconcile ∨ (∃ e, c = .metric e) ∨
      ∃ now cluster, P cluster ∧ c.MadeFor now cluster := by
  have hlaws : SnapshotLaws (Sem.allowing ok) (fun c _ _ _ => c = .getRedkey key .reconcile ∨
      (∃ e, c = .metric e) ∨ ∃ now cluster, P cluster ∧ c.MadeFor now cluster) (fun _ => True)
      (fun cluster _ => P cluster) key := {
    quiet := ⟨fun _ _ _ _ _ => rfl, fun e _ _ => Or.inr (Or.inl ⟨e, rfl⟩)⟩
    idle := stable_allowing _
    running := fun _ => stable_allowing _
    weaken := fun _ _ _ => trivial
    start := by
      intro _ x _ _ hx
      refine ⟨Or.inl rfl, ?_⟩
      cases x with
      | ok cluster => exact hP cluster hx
      | error e => exact tolerating_error.mpr ⟨fun _ => trivial, fun _ => trivial⟩
    call := fun now cluster c _ _ _ hc hcluster _ =>
      ⟨Or.inr (Or.inr ⟨now, cluster, hcluster, hc⟩), hcluster⟩ }
  exact uses_of_wp hok (hlaws.triple () trivial)

end Snapshot

end RedkeyOperator
