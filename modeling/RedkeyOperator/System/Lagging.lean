import RedkeyOperator.Controller.Rules
import RedkeyOperator.Controller.Lemmas
import RedkeyOperator.Lib.Lag
import RedkeyOperator.Lib.Exec

/-!
# The operator behind informer caches

One Redkey and its configs on the API server, with an operator that reads every kind through a
cache of its own. A read returns a current or earlier version and never goes back; the kinds lag
independently. Writes act on the server. One reconcile runs at a time, and between any two of its
requests the user may edit the spec and Robin may write the status of any config.

* `View` holds the Redkey and the configs, `Lagging` adds Robin's objects;
* `lagging` is the semantics of the calls;
* `Basic` is the invariant every result about this system starts from.

Two components of `View` are history: `snapshot` is the Redkey the last reconcile started from,
and `created` lists the configs ever created, oldest first.
-/

namespace RedkeyOperator

open Interleaved

/-- The Redkey and its configs, each with the versions a cache may still have
to show. -/
structure View where
  redkey : Lag Redkey
  configs : Lag (List RedkeyConfig)
  snapshot : Redkey
  created : List RedkeyConfig := []

/-- Robin's objects. -/
abbrev RobinCaches := (k : Kind) → Lag (Objs k)

/-- The whole system. Robin's objects have no part in what is said of
generations and configs, so most proofs are about the view alone. -/
structure Lagging where
  view : View
  robin : RobinCaches

namespace View

/-- The Redkey was read; the read at the start of a reconcile makes the
snapshot. -/
def readAt (v : View) (site : ReadSite) (l : Lag Redkey) : View :=
  match site with
  | .reconcile => { v with redkey := l, snapshot := l.head }
  | .aggregateStatus => { v with redkey := l }

/-- A new version of the configs, if there is one, with what it created. A
request that is refused leaves everything as it is. -/
def writeConfigs (v : View) (created : List RedkeyConfig)
    (outcome : Except ApiError (List RedkeyConfig)) : Except ApiError Unit × View :=
  match outcome with
  | .ok configs => (.ok (), { v with
      configs := v.configs.commit configs
      created := v.created ++ created })
  | .error e => (.error e, v)

/-- The calls about the Redkey and its configs; the others do not touch them.
Reads go through the caches, writes go to the server. -/
def exec : (c : Call) → View → Resp c → View → Prop
  | .getRedkey _ site, v, r, v' => ∃ l, v.redkey.Read l ∧ r = .ok l.head ∧ v' = v.readAt site l
  | .updateRedkeyStatus cluster, v, r, v' =>
      r = v.redkey.live.writeStatus cluster ∧
      v' = match v.redkey.live.writeStatus cluster with
        | .ok stored => { v with redkey := v.redkey.commit stored }
        | .error _ => v
  | .listConfigs ns label value _, v, r, v' => ∃ l items, v.configs.Read l ∧
      -- a cache lists in no particular order
      items.Perm (l.head.filter (·.selected ns label value)) ∧
      r = .ok items ∧ v' = { v with configs := l }
  | .createConfig config, v, r, v' =>
      (r, v') = v.writeConfigs [config] (Configs.create v.configs.live config)
  | .deleteConfig key, v, r, v' => (r, v') = v.writeConfigs [] (Configs.delete v.configs.live key)
  | _, v, _, v' => v' = v

end View

/-- A write to the objects of a kind. -/
def RobinCaches.write {k : Kind} (o : RobinCaches) (outcome : Except ApiError (Objs k))
    (r : Except ApiError Unit) (o' : RobinCaches) : Prop :=
  match outcome with
  | .ok objs => r = .ok () ∧ o' = Function.update o k ((o k).commit objs)
  | .error e => r = .error e ∧ o' = o

/-- The calls about Robin's objects, and metrics. -/
def RobinCaches.exec (fill : Deployment → Deployment) :
    (c : Call) → RobinCaches → Resp c → RobinCaches → Prop
  | .get k key, o, r, o' => ∃ l, (o k).Read l ∧ r = find l.head key ∧ o' = Function.update o k l
  | .create k obj, o, r, o' => o.write ((o k).live.create fill obj) r o'
  | .patch k obj, o, r, o' => o.write ((o k).live.patch fill obj) r o'
  | .delete k key, o, r, o' => o.write ((o k).live.delete key) r o'
  | .metric _, o, r, o' => r = .ok () ∧ o' = o
  | _, o, _, o' => o' = o

/-- The steps of the user and of Robin, which are new versions on the server.
A generation is a 64-bit number. -/
inductive View.Env : View → View → Prop
  | userUpdate {v : View} (spec : RedkeySpec)
      (hrange : Decimal.InInt64 (v.redkey.live.generation + 1)) :
      View.Env v { v with redkey := v.redkey.commit (v.redkey.live.edit spec) }
  | robinWrite {v : View} (key : NamespacedName) (status : RedkeyConfigStatus) :
      View.Env v { v with
        configs := v.configs.commit (Configs.robinWrite v.configs.live key status) }

/-- The Redkey and its configs, with any answer to a request about Robin's
objects. -/
def viewSem : Sem Call Resp View where
  env := View.Env
  exec := View.exec

/-- The system: the environment moves the view only, and a call acts on both
parts. -/
def lagging (fill : Deployment → Deployment) : Sem Call Resp Lagging where
  env s s' := View.Env s.view s'.view ∧ s'.robin = s.robin
  exec c s r s' := View.exec c s.view r s'.view ∧ RobinCaches.exec fill c s.robin r s'.robin

/-- The runs of the system in which every call that reaches the server meets
`ok`; any request may be lost. -/
def laggingRuns (fill : Deployment → Deployment) (ok : Call → View → Prop) :
    Sem Call Resp Lagging :=
  ((lagging fill).guarded (fun c s _ => ok c s.view) fun _ _ => True).lossy lost

/-- The runs as far as the Redkey and its configs are concerned. Every call
meets `ok`, and any call may be lost. -/
def viewRuns (ok : Call → View → Prop) : Sem Call Resp View :=
  (viewSem.guarded (fun c v _ => ok c v) fun _ _ => True).lossy lost

/-- What the view does in the system it can do by itself. -/
theorem lagging_projects (fill : Deployment → Deployment) :
    Sem.Projects Lagging.view (lagging fill) viewSem where
  env _ _ h := h.1
  exec _ _ _ _ h := h.1

/-- The same with a condition on the calls and with losses. -/
theorem laggingRuns_projects (fill : Deployment → Deployment) (ok : Call → View → Prop) :
    Sem.Projects Lagging.view (laggingRuns fill ok) (viewRuns ok) :=
  ((lagging_projects fill).guarded (fun c v _ => ok c v) fun _ _ => True).lossy lost

/-- A Redkey without configs, and nothing to catch up on: the caches show what
is on the server. -/
structure View.Init (key : NamespacedName) (v : View) : Prop where
  redkey : v.redkey = ⟨[], v.snapshot⟩
  keyed : v.snapshot.key = key
  ranged : Decimal.InInt64 v.snapshot.generation
  configs : v.configs = ⟨[], []⟩
  created : v.created = []

/-- The system with a Redkey that was just created. -/
def Lagging.initial (cluster : Redkey) : Lagging where
  view := { redkey := ⟨[], cluster⟩, configs := ⟨[], []⟩, snapshot := cluster }
  robin := fun _ => ⟨[], fun _ => none⟩

/-- No version is left to catch up on at the start. -/
theorem Lagging.initial_init {cluster : Redkey} (h : Decimal.InInt64 cluster.generation) :
    (Lagging.initial cluster).view.Init cluster.key :=
  ⟨rfl, rfl, h, rfl, rfl⟩

/-- `L` is the last-read version of the configs, in strictly increasing
order. -/
structure View.Lists (v : View) (L : List RedkeyConfig) : Prop where
  perm : L.Perm v.configs.head
  strict : L.Pairwise fun c d => c.spec.sequence < d.spec.sequence

/-! ## Answers

One way to answer every call: reads catch up with the server, except that a list of configs
stays at the version read last unless it is to be `fresh`. -/

namespace Lagging

/-- The user edits the spec. -/
def edited (spec : RedkeySpec) (s : Lagging) : Lagging :=
  { s with view := { s.view with redkey := s.view.redkey.commit (s.view.redkey.live.edit spec) } }

/-- Robin reports on a config. -/
def reported (key : NamespacedName) (status : RedkeyConfigStatus) (s : Lagging) : Lagging :=
  { s with view := { s.view with
    configs := s.view.configs.commit (Configs.robinWrite s.view.configs.live key status) } }

/-- A new version of the objects of a kind, if there is one. -/
def writeRobin {k : Kind} (s : Lagging) (outcome : Except ApiError (Objs k)) :
    Except ApiError Unit × Lagging :=
  match outcome with
  | .ok objs => (.ok (), { s with robin := Function.update s.robin k ((s.robin k).commit objs) })
  | .error e => (.error e, s)

/-- The answers of this section. -/
def answer (fill : Deployment → Deployment) (fresh : Bool) :
    (c : Call) → Lagging → Resp c × Lagging
  -- => the Redkey and Robin's objects are read up to date, the configs if the list is
  -- `fresh`
  | .getRedkey _ site, s =>
      (.ok s.view.redkey.live, { s with view := s.view.readAt site (s.view.redkey.pick true) })
  | .updateRedkeyStatus cluster, s =>
      (s.view.redkey.live.writeStatus cluster,
        { s with view := match s.view.redkey.live.writeStatus cluster with
          | .ok stored => { s.view with redkey := s.view.redkey.commit stored }
          | .error _ => s.view })
  | .listConfigs ns label value _, s =>
      (.ok ((s.view.configs.pick fresh).head.filter (·.selected ns label value)),
        { s with view := { s.view with configs := s.view.configs.pick fresh } })
  | .createConfig config, s =>
      let (r, v) := s.view.writeConfigs [config] (Configs.create s.view.configs.live config)
      (r, { s with view := v })
  | .deleteConfig key, s =>
      let (r, v) := s.view.writeConfigs [] (Configs.delete s.view.configs.live key)
      (r, { s with view := v })
  | .get k key, s => (find (s.robin k).live key,
      { s with robin := Function.update s.robin k ((s.robin k).pick true) })
  | .create k obj, s => s.writeRobin ((s.robin k).live.create fill obj)
  | .patch k obj, s => s.writeRobin ((s.robin k).live.patch fill obj)
  | .delete k key, s => s.writeRobin ((s.robin k).live.delete key)
  | .metric _, s => (.ok (), s)

/-- A write to Robin's objects leaves the view alone. -/
theorem writeRobin_exec {k : Kind} (s : Lagging) (outcome : Except ApiError (Objs k)) :
    (s.writeRobin outcome).2.view = s.view ∧
      s.robin.write outcome (s.writeRobin outcome).1 (s.writeRobin outcome).2.robin := by
  cases outcome with
  | ok objs => exact ⟨rfl, rfl, rfl⟩
  | error e => exact ⟨rfl, rfl, rfl⟩

/-- The answers are among those the system may give. -/
theorem answer_exec (fill : Deployment → Deployment) (fresh : Bool) (c : Call) (s : Lagging) :
    (lagging fill).exec c s (s.answer fill fresh c).1 (s.answer fill fresh c).2 := by
  -- every call by itself; reads pick a version they may return
  cases c with
  | getRedkey key site =>
      exact ⟨⟨s.view.redkey.pick true, Lag.read_pick _ _, rfl, rfl⟩, rfl⟩
  | updateRedkeyStatus cluster => exact ⟨⟨rfl, rfl⟩, rfl⟩
  | listConfigs ns label value site =>
      exact ⟨⟨s.view.configs.pick fresh, _, Lag.read_pick _ _, List.Perm.refl _, rfl, rfl⟩, rfl⟩
  | createConfig config => exact ⟨rfl, rfl⟩
  | deleteConfig key => exact ⟨rfl, rfl⟩
  | get k key => exact ⟨rfl, _, Lag.read_pick _ true, rfl, rfl⟩
  | create k obj => exact s.writeRobin_exec _
  | patch k obj => exact s.writeRobin_exec _
  | delete k key => exact s.writeRobin_exec _
  | metric e => exact ⟨rfl, rfl, rfl⟩

/-- The same in the runs in which the calls meet a condition. -/
theorem answer_exec_runs (fill : Deployment → Deployment) (fresh : Bool)
    (ok : Call → View → Prop) (c : Call) (s : Lagging) (hok : ok c s.view) :
    (laggingRuns fill ok).exec c s (s.answer fill fresh c).1 (s.answer fill fresh c).2 :=
  Or.inl ⟨hok, answer_exec fill fresh c s⟩

variable {fill : Deployment → Deployment} {ok : Call → View → Prop} {init : Lagging → Prop}
variable {key : NamespacedName} {m : Machine Call Resp (Except Err Result) Lagging}

/-- Answering some calls of the running reconcile is a run of the system. -/
theorem reachable_answer (hm : Reachable (lagging fill) (Reconciles key) init m) (fresh : Bool)
    (n : ℕ) :
    Reachable (lagging fill) (Reconciles key) init
      (m.advance (fun c s => answer fill fresh c s) n) :=
  hm.advance (fun _ _ => true) (fun c s _ => answer_exec fill fresh c s) n
    fun p _ => Prog.checks_true _ n p _

/-- The same, when the calls meet the condition of the run. -/
theorem reachable_answer_runs [∀ c v, Decidable (ok c v)] {s : Lagging} {p : Rec Result}
    (hm : Reachable (laggingRuns fill ok) (Reconciles key) init ⟨s, some p⟩) (fresh : Bool) (n : ℕ)
    (hok : Prog.checks (fun c s => answer fill fresh c s) (fun c s => decide (ok c s.view)) n p s =
      true) :
    Reachable (laggingRuns fill ok) (Reconciles key) init
      (Prog.advance (fun c s => answer fill fresh c s) n p s) :=
  Reachable.advance (fun c s => decide (ok c s.view)) (m := ⟨s, some p⟩) hm
    (fun c s h => answer_exec_runs fill fresh ok c s (of_decide_eq_true h)) n
    fun _ hq => Option.some.inj hq ▸ hok

end Lagging

/-! ## Robin's part -/

/-- Work on Robin's objects leaves the Redkey and its configs alone. -/
theorem view_of_onRobin {c : Call} (hc : c.OnRobin fun _ => True) {v v' : View} {r : Resp c}
    (h : View.exec c v r v') : v' = v := by
  cases c <;> first | exact h | cases hc

/-! ## The Redkey's part -/

/-- What a call can do to the Redkey: read a version, have a status write
accepted, or nothing. -/
inductive View.RedkeyStep (l : Lag Redkey) : Call → Lag Redkey → Prop
  | same {c : Call} : RedkeyStep l c l
  | read {l' : Lag Redkey} {key : NamespacedName} {site : ReadSite} (hread : l.Read l') :
      RedkeyStep l (.getRedkey key site) l'
  | write {written stored : Redkey} (hstored : l.live.writeStatus written = .ok stored) :
      RedkeyStep l (.updateRedkeyStatus written) (l.commit stored)

theorem View.redkeyStep {c : Call} {v v' : View} {r : Resp c} (h : View.exec c v r v') :
    View.RedkeyStep v.redkey c v'.redkey := by
  cases c with
  | getRedkey key site =>
      obtain ⟨l, hl, rfl, rfl⟩ := h
      cases site <;> exact .read hl
  | updateRedkeyStatus written =>
      -- a write that is refused changes nothing
      obtain ⟨rfl, rfl⟩ := h
      cases hstored : v.redkey.live.writeStatus written with
      | error e => exact .same
      | ok stored => exact .write hstored
  | listConfigs ns label value site =>
      obtain ⟨l, items, hl, hitems, rfl, rfl⟩ := h
      exact .same
  | createConfig config =>
      obtain rfl : v' = _ := congrArg Prod.snd h
      cases Configs.create v.configs.live config <;> exact .same
  | deleteConfig key =>
      obtain rfl : v' = _ := congrArg Prod.snd h
      cases Configs.delete v.configs.live key <;> exact .same
  | _ =>
      obtain rfl : v' = v := h
      exact .same

/-- A Redkey that was read meets `P`. -/
def Reads (P : Redkey → Prop) : (c : Call) → Resp c → Prop
  | .getRedkey _ _, .ok cluster => P cluster
  | _, _ => True

/-- A Redkey that was read is one of its versions. -/
theorem View.exec_reads {c : Call} {v v' : View} {r : Resp c} (h : View.exec c v r v') :
    Reads (· ∈ v'.redkey.versions) c r := by
  cases c with
  | getRedkey key site =>
      obtain ⟨l, hl, rfl, rfl⟩ := h
      cases site <;> exact Lag.head_mem
  | _ => trivial

/-! ## The basic invariant -/

/-- `r'` is a later version of the Redkey: a spec change is a new generation.
Status writes keep both. -/
def Redkey.Before (r r' : Redkey) : Prop :=
  r.generation ≤ r'.generation ∧ (r.generation = r'.generation → r.spec = r'.spec)

theorem Redkey.Before.refl (r : Redkey) : r.Before r := ⟨le_refl _, fun _ => rfl⟩

/-- Later versions of later versions. If the first and the last have one
generation, so has the one in between. -/
theorem Redkey.Before.trans {r₁ r₂ r₃ : Redkey} (h₁ : r₁.Before r₂) (h₂ : r₂.Before r₃) :
    r₁.Before r₃ := by
  refine ⟨le_trans h₁.1 h₂.1, ?_⟩
  intro heq
  have h12 : r₁.generation = r₂.generation := le_antisymm h₁.1 (heq ▸ h₂.1)
  exact (h₁.2 h12).trans (h₂.2 (h12 ▸ heq))

/-- The generation recorded in a config, with 0 in place of one that cannot be
read. -/
def RedkeyConfig.gen (c : RedkeyConfig) : Int := c.generation?.getD 0

/-- A config as the operator creates it, up to its status: named after its
sequence, with the label and a generation that can be read. -/
structure RedkeyConfig.OfCluster (key : NamespacedName) (c : RedkeyConfig) : Prop where
  selected : c.selected key.ns clusterLabel key.name = true
  named : c.key = ⟨key.ns, Decimal.dashed key.name c.spec.sequence⟩
  positive : 1 ≤ c.spec.sequence
  dated : c.generation? = some c.gen

/-- The config was created for the snapshot's generation or an earlier one.
For the same generation it has the snapshot's primaries. -/
def RedkeyConfig.NotAfter (c : RedkeyConfig) (snapshot : Redkey) : Prop :=
  c.gen ≤ snapshot.generation ∧
    (c.gen = snapshot.generation → c.spec.primaries = snapshot.spec.primaries)

theorem RedkeyConfig.NotAfter.mono {c : RedkeyConfig} {r r' : Redkey} (h : c.NotAfter r)
    (hr : r.Before r') : c.NotAfter r' := by
  refine ⟨le_trans h.1 hr.1, ?_⟩
  intro heq
  have hgen : c.gen = r.generation := le_antisymm h.1 (heq ▸ hr.1)
  rw [h.2 hgen, hr.2 (hgen ▸ heq)]

/-- Two configs that differ in their status at most. Nobody changes metadata
or spec of a config. -/
def RedkeyConfig.Same (c d : RedkeyConfig) : Prop := c.metadata = d.metadata ∧ c.spec = d.spec

theorem RedkeyConfig.Same.key {c d : RedkeyConfig} (h : c.Same d) : c.key = d.key := by
  simp [RedkeyConfig.key, h.1]

theorem RedkeyConfig.Same.gen {c d : RedkeyConfig} (h : c.Same d) : c.gen = d.gen := by
  simp [RedkeyConfig.gen, RedkeyConfig.generation?, h.1]

theorem RedkeyConfig.Same.ofCluster {c d : RedkeyConfig} {key : NamespacedName} (h : c.Same d)
    (hd : d.OfCluster key) : c.OfCluster key := by
  obtain ⟨hmeta, hspec⟩ := h
  obtain ⟨hsel, hname, hpos, hdate⟩ := hd
  refine ⟨?_, ?_, ?_, ?_⟩
  · simpa [RedkeyConfig.selected, hmeta] using hsel
  · simpa [RedkeyConfig.key, hmeta, hspec] using hname
  · rw [hspec]
    exact hpos
  · simpa [RedkeyConfig.gen, RedkeyConfig.generation?, hmeta] using hdate

theorem RedkeyConfig.Same.notAfter {c d : RedkeyConfig} {r : Redkey} (h : c.Same d)
    (hd : d.NotAfter r) : c.NotAfter r := by
  unfold RedkeyConfig.NotAfter at hd ⊢
  rw [h.gen, h.2]
  exact hd

/-- Two configs of the cluster have the same key exactly when they have the
same sequence, since the number at the end of a name can be read back. -/
theorem RedkeyConfig.OfCluster.key_eq_iff {key : NamespacedName} {c d : RedkeyConfig}
    (hc : c.OfCluster key) (hd : d.OfCluster key) :
    c.key = d.key ↔ c.spec.sequence = d.spec.sequence := by
  rw [hc.named, hd.named]
  constructor
  · intro h
    have hname := congrArg NamespacedName.name h
    have hc0 : 0 ≤ c.spec.sequence := le_trans (by decide) hc.positive
    have hd0 : 0 ≤ d.spec.sequence := le_trans (by decide) hd.positive
    exact (Decimal.dashed_inj hc0 hd0 hname).2
  · intro h
    rw [h]

/-- What holds of the Redkey's versions and of every config that can be read,
at any time. The snapshot is behind every version that can still be read,
because a cache never goes back. -/
structure View.Basic (key : NamespacedName) (v : View) : Prop where
  /-- One Redkey, and generations that fit in 64 bits. -/
  keyed : ∀ r ∈ v.redkey.versions, r.key = key
  ranged : ∀ r ∈ v.redkey.versions, Decimal.InInt64 r.generation
  /-- Versions are read in the order in which they were written. -/
  ordered : v.redkey.Ordered Redkey.Before
  /-- No read goes back behind the snapshot. -/
  current : ∀ r ∈ v.redkey.versions, v.snapshot.Before r
  snapshotKeyed : v.snapshot.key = key
  snapshotRanged : Decimal.InInt64 v.snapshot.generation
  /-- Every config that can be read was made by the operator, for the snapshot
  or earlier. -/
  ofCluster : ∀ L ∈ v.configs.versions, ∀ c ∈ L, c.OfCluster key
  notAfter : ∀ L ∈ v.configs.versions, ∀ c ∈ L, c.NotAfter v.snapshot
  unique : ∀ L ∈ v.configs.versions, L.Pairwise fun c d => c.key ≠ d.key

namespace View.Basic

variable {key : NamespacedName} {v : View}

theorem init (h : v.Init key) : v.Basic key := by
  -- there is one version of the Redkey and one of the configs
  have hred : ∀ r ∈ v.redkey.versions, r = v.snapshot := by
    intro r hr
    rw [h.redkey] at hr
    simpa [Lag.versions] using hr
  have hconf : ∀ L ∈ v.configs.versions, L = [] := by
    intro L hL
    rw [h.configs] at hL
    simpa [Lag.versions] using hL
  refine ⟨?_, ?_, ?_, ?_, h.keyed, h.ranged, ?_, ?_, ?_⟩
  · intro r hr
    rw [hred r hr]
    exact h.keyed
  · intro r hr
    rw [hred r hr]
    exact h.ranged
  · rw [h.redkey]
    exact List.pairwise_singleton _ _
  · intro r hr
    rw [hred r hr]
    exact Redkey.Before.refl _
  · intro L hL c hc
    rw [hconf L hL] at hc
    cases hc
  · intro L hL c hc
    rw [hconf L hL] at hc
    cases hc
  · intro L hL
    rw [hconf L hL]
    exact List.Pairwise.nil

/-- A read of the Redkey in the middle of a reconcile. -/
theorem read (h : v.Basic key) {l : Lag Redkey} (hl : v.redkey.Read l) :
    Basic key { v with redkey := l } where
  keyed r hr := h.keyed r (hl.mem hr)
  ranged r hr := h.ranged r (hl.mem hr)
  ordered := h.ordered.read hl
  current r hr := h.current r (hl.mem hr)
  snapshotKeyed := h.snapshotKeyed
  snapshotRanged := h.snapshotRanged
  ofCluster := h.ofCluster
  notAfter := h.notAfter
  unique := h.unique

/-- The read at the start of a reconcile: the snapshot moves on. Configs that
are not after the old snapshot are not after the new one. -/
theorem start (h : v.Basic key) {l : Lag Redkey} (hl : v.redkey.Read l) :
    Basic key { v with redkey := l, snapshot := l.head } where
  keyed r hr := h.keyed r (hl.mem hr)
  ranged r hr := h.ranged r (hl.mem hr)
  ordered := h.ordered.read hl
  current r hr := by
    rcases (h.ordered.read hl).head hr with rfl | hbefore
    · exact Redkey.Before.refl _
    · exact hbefore
  snapshotKeyed := h.keyed _ (hl.mem Lag.head_mem)
  snapshotRanged := h.ranged _ (hl.mem Lag.head_mem)
  ofCluster := h.ofCluster
  notAfter L hL c hc := (h.notAfter L hL c hc).mono (h.current _ (hl.mem Lag.head_mem))
  unique := h.unique

/-- A new version of the Redkey. -/
theorem commit (h : v.Basic key) {r : Redkey} (hkey : r.key = key)
    (hrange : Decimal.InInt64 r.generation) (hlater : v.redkey.live.Before r) :
    Basic key { v with redkey := v.redkey.commit r } := by
  -- it is later than all versions that can still be read
  have hlive : ∀ r' ∈ v.redkey.versions, r'.Before r := by
    intro r' hr'
    rcases h.ordered.live hr' with rfl | hbefore
    · exact hlater
    · exact hbefore.trans hlater
  refine ⟨?_, ?_, Lag.ordered_commit.mpr ⟨h.ordered, hlive⟩, ?_, h.snapshotKeyed,
    h.snapshotRanged, h.ofCluster, h.notAfter, h.unique⟩
  · simpa [or_imp, forall_and] using ⟨h.keyed, hkey⟩
  · simpa [or_imp, forall_and] using ⟨h.ranged, hrange⟩
  · simpa [or_imp, forall_and] using ⟨h.current, (h.current _ Lag.live_mem).trans hlater⟩

theorem write (h : v.Basic key) {cluster stored : Redkey}
    (hw : v.redkey.live.writeStatus cluster = .ok stored) :
    Basic key { v with redkey := v.redkey.commit stored } := by
  obtain ⟨-, rfl⟩ := Redkey.writeStatus_ok hw
  exact h.commit (h.keyed v.redkey.live Lag.live_mem) (h.ranged v.redkey.live Lag.live_mem)
    (Redkey.Before.refl v.redkey.live)

theorem edit (h : v.Basic key) (spec : RedkeySpec)
    (hrange : Decimal.InInt64 (v.redkey.live.generation + 1)) :
    Basic key { v with redkey := v.redkey.commit (v.redkey.live.edit spec) } := by
  refine h.commit (h.keyed v.redkey.live Lag.live_mem) hrange ⟨?_, ?_⟩
  · exact (Int.lt_succ _).le
  · intro heq
    exact absurd heq (Int.lt_succ _).ne

/-- A list may leave old versions of the configs behind. -/
theorem list (h : v.Basic key) {l : Lag (List RedkeyConfig)} (hl : v.configs.Read l) :
    Basic key { v with configs := l } where
  keyed := h.keyed
  ranged := h.ranged
  ordered := h.ordered
  current := h.current
  snapshotKeyed := h.snapshotKeyed
  snapshotRanged := h.snapshotRanged
  ofCluster L hL := h.ofCluster L (hl.mem hL)
  notAfter L hL := h.notAfter L (hl.mem hL)
  unique L hL := h.unique L (hl.mem hL)

/-- A new version of the configs, from whichever request or report. -/
theorem commitConfigs (h : v.Basic key) {L : List RedkeyConfig} {created : List RedkeyConfig}
    (hof : ∀ c ∈ L, c.OfCluster key) (hna : ∀ c ∈ L, c.NotAfter v.snapshot)
    (hunique : L.Pairwise fun c d => c.key ≠ d.key) :
    Basic key { v with configs := v.configs.commit L, created := created } where
  keyed := h.keyed
  ranged := h.ranged
  ordered := h.ordered
  current := h.current
  snapshotKeyed := h.snapshotKeyed
  snapshotRanged := h.snapshotRanged
  ofCluster := by simpa [or_imp, forall_and] using ⟨h.ofCluster, hof⟩
  notAfter := by simpa [or_imp, forall_and] using ⟨h.notAfter, hna⟩
  unique := by simpa [or_imp, forall_and] using ⟨h.unique, hunique⟩

theorem create (h : v.Basic key) {c : RedkeyConfig} (hof : c.OfCluster key)
    (hna : c.NotAfter v.snapshot) (hfresh : ∀ d ∈ v.configs.live, d.key ≠ c.key) :
    Basic key { v with
      configs := v.configs.commit (v.configs.live ++ [c])
      created := v.created ++ [c] } := by
  refine h.commitConfigs ?_ ?_ ?_
  · simpa [or_imp, forall_and] using ⟨h.ofCluster _ Lag.live_mem, hof⟩
  · simpa [or_imp, forall_and] using ⟨h.notAfter _ Lag.live_mem, hna⟩
  · simpa [List.pairwise_append] using ⟨h.unique _ Lag.live_mem, hfresh⟩

theorem erase (h : v.Basic key) (k : NamespacedName) :
    Basic key { v with configs := v.configs.commit (Configs.erase v.configs.live k) } := by
  refine h.commitConfigs ?_ ?_ ((h.unique _ Lag.live_mem).filter _)
  · exact fun c hc => h.ofCluster _ Lag.live_mem c (Configs.mem_erase.mp hc).1
  · exact fun c hc => h.notAfter _ Lag.live_mem c (Configs.mem_erase.mp hc).1

theorem robinWrite (h : v.Basic key) (k : NamespacedName) (status : RedkeyConfigStatus) :
    Basic key { v with
      configs := v.configs.commit (Configs.robinWrite v.configs.live k status) } := by
  refine h.commitConfigs ?_ ?_ ?_
  · intro c hc
    obtain ⟨d, hd, hmeta, hspec, -⟩ := Configs.mem_robinWrite hc
    exact RedkeyConfig.Same.ofCluster ⟨hmeta, hspec⟩ (h.ofCluster _ Lag.live_mem d hd)
  · intro c hc
    obtain ⟨d, hd, hmeta, hspec, -⟩ := Configs.mem_robinWrite hc
    exact RedkeyConfig.Same.notAfter ⟨hmeta, hspec⟩ (h.notAfter _ Lag.live_mem d hd)
  · refine List.pairwise_map.mpr ((h.unique _ Lag.live_mem).imp ?_)
    intro c d hne
    -- a report changes no name
    have hkey : ∀ e : RedkeyConfig,
        (if e.key = k then { e with status := status } else e).key = e.key := by
      intro e
      split <;> rfl
    rw [hkey, hkey]
    exact hne

/-- The list of a cluster's configs is all of them, in whichever version it
was read. -/
theorem filter_selected (h : v.Basic key) {L : List RedkeyConfig} (hL : L ∈ v.configs.versions) :
    L.filter (·.selected v.snapshot.ns clusterLabel v.snapshot.name) = L := by
  obtain rfl := h.snapshotKeyed
  exact List.filter_eq_self.mpr fun c hc => (h.ofCluster L hL c hc).selected

/-- What `listConfigs` returns, after sorting. -/
theorem lists (h : v.Basic key) {items : List RedkeyConfig}
    (hitems : items.Perm
      (v.configs.head.filter (·.selected v.snapshot.ns clusterLabel v.snapshot.name))) :
    v.Lists (sortBySequence items) := by
  rw [h.filter_selected Lag.head_mem] at hitems
  have hperm := (perm_sortBySequence items).trans hitems
  refine ⟨hperm, ?_⟩
  have hof : ∀ c ∈ sortBySequence items, c.OfCluster key :=
    fun c hc => h.ofCluster _ Lag.head_mem c (hperm.mem_iff.mp hc)
  have hunique : (sortBySequence items).Pairwise fun c d => c.key ≠ d.key :=
    (hperm.pairwise_iff fun hne => Ne.symm hne).mpr (h.unique _ Lag.head_mem)
  refine ((sorted_sortBySequence items).and hunique).imp_of_mem ?_
  intro c d hc hd hcd
  -- two configs with one sequence would have one name
  refine lt_of_le_of_ne hcd.1 fun heq => hcd.2 ?_
  exact ((hof c hc).key_eq_iff (hof d hd)).mpr heq

/-- The config a reconcile creates after listing `L`. The name may be taken
all the same, as the list may be outdated. -/
theorem newConfig (h : v.Basic key) {L : List RedkeyConfig} (hL : v.Lists L) :
    (newConfig v.snapshot L.getLast?).OfCluster key ∧
      (newConfig v.snapshot L.getLast?).gen = v.snapshot.generation ∧
      (newConfig v.snapshot L.getLast?).NotAfter v.snapshot := by
  have hgen := newConfig_generation v.snapshot L.getLast? h.snapshotRanged
  have hgen' : (RedkeyOperator.newConfig v.snapshot L.getLast?).gen = v.snapshot.generation := by
    simp [RedkeyConfig.gen, hgen]
  refine ⟨⟨?_, ?_, ?_, ?_⟩, hgen', hgen'.le, fun _ => rfl⟩
  · obtain rfl := h.snapshotKeyed
    exact newConfig_selected v.snapshot _
  · obtain rfl := h.snapshotKeyed
    rfl
  · rw [newConfig_sequence]
    cases hlast : L.getLast? with
    | none => exact le_refl _
    | some c =>
        have hmem := hL.perm.mem_iff.mp (List.mem_of_getLast? hlast)
        have hpos := (h.ofCluster _ Lag.head_mem c hmem).positive
        simp only [nextSequence]
        omega
  · rw [hgen', hgen]

/-- The basic invariant survives every step of the user and of Robin. -/
theorem env (h : v.Basic key) {v' : View} (hstep : View.Env v v') : v'.Basic key := by
  cases hstep with
  | userUpdate spec hrange => exact h.edit spec hrange
  | robinWrite k status => exact h.robinWrite k status

end View.Basic

end RedkeyOperator
