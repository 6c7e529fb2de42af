import RedkeyOperator.Controller.Requests
import RedkeyOperator.System.Lagging

/-!
# Invariants of the lagging system

What has to be shown of an invariant of the lagging system, one law per kind of step
(`View.Laws`), and that the laws suffice for whole runs (`View.Laws.reachable`,
`View.Laws.reachable_write`).

The assertion is indexed by what the running reconcile has achieved (`Progress`):

* `idle`: nothing, or no reconcile is running;
* `made`: the snapshot's generation has its config;
* `torn`: the teardown has listed what it deletes.
-/

namespace RedkeyOperator

open Interleaved Interleaved.Op

/-- What the running reconcile has achieved. A law about a later stage may use
what the earlier ones have established. -/
inductive Progress where
  | idle
  | made
  | torn
deriving DecidableEq, Repr

/-- `J` is kept by every step, `ok` being known of each call that reaches the
server. Every law may use the basic invariant, and those about configs that
were listed also what is known of the list. -/
structure View.Laws (key : NamespacedName) (ok : Call → View → Prop)
    (J : Progress → View → Prop) : Prop where
  /-- Giving up what was achieved is always possible: a reconcile may fail
  anywhere. -/
  weaken : ∀ g v, J g v → J .idle v
  /-- Edits of the user and reports of Robin. -/
  env : ∀ g v v', v.Basic key → J g v → View.Env v v' → J g v'
  /-- The first read, which makes the snapshot. -/
  start : ∀ v l, v.Basic key → J .idle v → v.redkey.Read l →
    J .idle { v with redkey := l, snapshot := l.head }
  /-- The read before each attempt to write the status. -/
  read : ∀ g v l, v.Basic key → J g v → v.redkey.Read l → J g { v with redkey := l }
  /-- A status on behalf of the snapshot's generation. -/
  write : ∀ g v cluster stored, v.Basic key → J g v → (v.snapshot.spec.primaries ≠ 0 → g = .made) →
    cluster.status.observedGeneration = v.snapshot.generation →
    v.redkey.live.writeStatus cluster = .ok stored → J g { v with redkey := v.redkey.commit stored }
  /-- A list for the reconcile itself, which may be an old one. -/
  list : ∀ g v l, v.Basic key → J g v → v.configs.Read l → J g { v with configs := l }
  /-- The snapshot's generation gets its config. -/
  create : ∀ v L, v.Basic key → J .idle v → v.Lists L →
    (∀ c, L.getLast? = some c → c.gen < v.snapshot.generation) →
    ok (.createConfig (newConfig v.snapshot L.getLast?)) v →
    (∀ d ∈ v.configs.live, d.key ≠ (newConfig v.snapshot L.getLast?).key) →
    J .made { v with
      configs := v.configs.commit (v.configs.live ++ [newConfig v.snapshot L.getLast?])
      created := v.created ++ [newConfig v.snapshot L.getLast?] }
  /-- The name of the new config is taken, which the controller takes for
  success. -/
  found : ∀ v L, v.Basic key → J .idle v → v.Lists L →
    ok (.createConfig (newConfig v.snapshot L.getLast?)) v →
    (∃ d ∈ v.configs.live, d.key = (newConfig v.snapshot L.getLast?).key) → J .made v
  /-- The last of the listed configs is recent enough. -/
  skip : ∀ v L, v.Basic key → J .idle v → v.Lists L → v.snapshot.spec.primaries ≠ 0 →
    needsNewConfig v.snapshot L.getLast? = false → J .made v
  /-- A config goes that has a listed one above it. -/
  cleanup : ∀ v L c d, v.Basic key → J .made v → v.Lists L → c ∈ L → d ∈ L →
    c.spec.sequence < d.spec.sequence →
    J .made { v with configs := v.configs.commit (Configs.erase v.configs.live c.key) }
  teardown : ∀ v l, v.Basic key → J .idle v → v.snapshot.spec.primaries = 0 →
    ok (.listConfigs v.snapshot.ns clusterLabel v.snapshot.name .deleteAllConfigs) v →
    v.configs.Read l → J .torn { v with configs := l }
  /-- A config goes that the teardown has listed. -/
  tear : ∀ v c, v.Basic key → J .torn v → v.snapshot.spec.primaries = 0 → c ∈ v.configs.head →
    J .torn { v with configs := v.configs.commit (Configs.erase v.configs.live c.key) }

namespace View.Laws

/-- The invariant, while the reconcile of `cluster` is running. `g` is how far
the reconcile has got. -/
structure At (key : NamespacedName) (J : Progress → View → Prop) (g : Progress) (cluster : Redkey)
    (v : View) : Prop where
  basic : v.Basic key
  holds : J g v
  snapshot : v.snapshot = cluster

/-- The invariant, after the configs were listed. The list is one of a version
that the caches could still show. -/
structure Listed (key : NamespacedName) (J : Progress → View → Prop) (g : Progress)
    (cluster : Redkey) (L : List RedkeyConfig) (v : View) : Prop extends At key J g cluster v where
  lists : v.Lists L

/-- The invariant of the idle system, in which no reconcile has made any
progress. -/
def Inv (key : NamespacedName) (J : Progress → View → Prop) (v : View) : Prop :=
  v.Basic key ∧ J .idle v

/-- The guarantee: the invariant holds after every call, and a status is
written on behalf of a spec with primaries only once its generation has its
config. -/
def Guarantee (key : NamespacedName) (J : Progress → View → Prop) :
    (c : Call) → View → Resp c → View → Prop
  | .updateRedkeyStatus cluster, v, _, v' => Inv key J v' ∧
      (v.snapshot.spec.primaries ≠ 0 →
        cluster.status.observedGeneration = v.snapshot.generation ∧ v'.Basic key ∧ J .made v')
  | .metric _, v, _, v' => v' = v
  | _, _, _, v' => Inv key J v'

variable {key : NamespacedName} {ok : Call → View → Prop} {J : Progress → View → Prop}
variable {g : Progress} {cluster : Redkey} {L : List RedkeyConfig}

/-- Whatever was achieved, the invariant of the idle system holds. -/
theorem At.inv (h : View.Laws key ok J) {v : View} (hv : At key J g cluster v) : Inv key J v :=
  ⟨hv.basic, h.weaken g v hv.holds⟩

theorem env_snapshot {v v' : View} (h : View.Env v v') : v'.snapshot = v.snapshot := by
  cases h <;> rfl

theorem snapshot_write {v v' : View} {written : Redkey} {r : Resp (.updateRedkeyStatus written)}
    (h : (viewRuns ok).exec (.updateRedkeyStatus written) v r v') : v'.snapshot = v.snapshot := by
  have hcall : ∀ r, View.exec (.updateRedkeyStatus written) v r v' → v'.snapshot = v.snapshot := by
    rintro r ⟨-, rfl⟩
    split
    · rfl
    · rfl
  -- answered, not made, or made without an answer
  rcases h with hexec | ⟨-, rfl | ⟨r₀, hexec⟩⟩
  · exact hcall r hexec.2
  · rfl
  · exact hcall r₀ hexec.2

/-- Other parties write to the server, and a write does not move the
reader. -/
theorem env_head {v v' : View} (h : View.Env v v') : v'.configs.head = v.configs.head := by
  cases h with
  | userUpdate => rfl
  | robinWrite => simp

theorem stable_inv (h : View.Laws key ok J) : Stable (viewRuns ok) (Inv key J) :=
  fun v v' hstep hv => ⟨hv.1.env hstep.2, h.env _ v v' hv.1 hv.2 hstep.2⟩

theorem stable_at (h : View.Laws key ok J) : Stable (viewRuns ok) (At key J g cluster) := by
  intro v v' hstep hv
  have hbasic : v'.Basic key := hv.basic.env hstep.2
  have hholds : J g v' := h.env g v v' hv.basic hv.holds hstep.2
  have hsnapshot : v'.snapshot = cluster := (env_snapshot hstep.2).trans hv.snapshot
  exact ⟨hbasic, hholds, hsnapshot⟩

/-- Other parties may change the configs, but not what was listed. -/
theorem stable_listed (h : View.Laws key ok J) :
    Stable (viewRuns ok) (Listed key J g cluster L) := by
  intro v v' hstep hv
  have hperm := hv.lists.perm
  rw [← env_head hstep.2] at hperm
  exact ⟨h.stable_at v v' hstep hv.toAt, hperm, hv.lists.strict⟩

theorem quiet : Quiet (viewRuns ok) (Guarantee key J) where
  state e v r v' := by
    rintro (hexec | ⟨-, rfl | ⟨r₀, hexec⟩⟩)
    · exact hexec.2
    · rfl
    · exact hexec.2
  free _ _ _ := rfl

/-! ## The stages of a reconcile -/

/-- For calls that leave the view alone the guarantee is the invariant. -/
theorem guarantee_onRobin {c : Call} (hc : c.OnRobin fun _ => True) {v : View} (hv : Inv key J v)
    (r : Resp c) : Guarantee key J c v r v := by
  cases c <;> first | exact hv | rfl | cases hc

/-- Work on Robin's objects goes unnoticed: the view has none of them. -/
theorem robin_triple {A : View → Prop} (hA : Stable (viewRuns ok) A)
    (hAI : ∀ v, A v → Inv key J v) {α : Type} {p : Rec α}
    (hp : p.Uses (KeyedReads fun _ => True) (Call.OnRobin fun _ => True)) :
    Triple (viewRuns ok) (Guarantee key J) (Inv key J) A p fun _ => A := by
  refine (Triple.of_uses hA ?_ hp).error hAI
  intro c v r v' hc hv hexec
  -- the view is the same in all three ways a call can end
  have hsame : v' = v := by
    rcases hexec with hexec | ⟨-, rfl | ⟨r₀, hexec⟩⟩
    · exact view_of_onRobin hc hexec.2
    · rfl
    · exact view_of_onRobin hc hexec.2
  subst hsame
  exact ⟨keyedReads_true c r, guarantee_onRobin hc (hAI _ hv) r, hv⟩

/-- A list returns some version of the configs that is no older than the last
one. -/
theorem list_triple (h : View.Laws key ok J) :
    Triple (viewRuns ok) (Guarantee key J) (Inv key J) (At key J g cluster) (listConfigs cluster)
      fun L => Listed key J g cluster L := by
  refine listConfigs_triple h.stable_at
    (lossy_call (fun v hv => hv.inv h) (fun _ _ hv => hv.toAt.inv h) (fun _ _ _ hG => hG)
      (fun v hv => hv.inv h) ?_)
  -- the reader moves to the version that was listed
  rintro v r v' hv ⟨-, l, items, hread, hperm, rfl, rfl⟩
  have hbasic := hv.basic.list hread
  have hat : At key J g cluster { v with configs := l } :=
    ⟨hbasic, h.list g v l hv.basic hv.holds hread, hv.snapshot⟩
  rw [← hv.snapshot] at hperm
  exact ⟨hat.inv h, hat, hbasic.lists hperm⟩

/-- `createNewConfig`, when the last of the listed configs is of an older
generation. The two ways in which it ends well both leave the generation with
its config. -/
theorem create_triple (h : View.Laws key ok J)
    (hlt : ∀ v, Listed key J .idle cluster L v →
      ∀ c, L.getLast? = some c → c.gen < cluster.generation) :
    Triple (viewRuns ok) (Guarantee key J) (Inv key J) (Listed key J .idle cluster L)
      (createNewConfig cluster L.getLast?) fun _ => At key J .made cluster := by
  refine createNewConfig_triple quiet h.stable_listed h.stable_at
    (lossy_tolerating (by decide) (fun v hv => hv.inv h) (fun _ v hv => hv.inv h)
      (fun v hv => hv.inv h) (fun _ _ _ hG => hG) (fun v hv => hv.inv h) ?_)
  rintro v r v' hv ⟨hok, hexec⟩
  obtain rfl := hv.snapshot
  obtain ⟨hof, -, hna⟩ := hv.basic.newConfig hv.lists
  unfold viewSem View.exec View.writeConfigs at hexec
  cases hcreate : Configs.create v.configs.live (newConfig v.snapshot L.getLast?) with
  | ok configs =>
      simp only [hcreate, Prod.mk.injEq] at hexec
      obtain ⟨rfl, rfl⟩ := hexec
      obtain ⟨rfl, hfresh⟩ := Configs.create_ok hcreate
      have hbasic := hv.basic.create hof hna hfresh
      have hmade := h.create v L hv.basic hv.holds hv.lists (hlt v hv) hok hfresh
      have hat : At key J .made v.snapshot _ := ⟨hbasic, hmade, rfl⟩
      exact ⟨hat.inv h, hat⟩
  | error e =>
      -- the controller takes `AlreadyExists` for success, so the invariant has to as well
      simp only [hcreate, Prod.mk.injEq] at hexec
      obtain ⟨rfl, rfl⟩ := hexec
      obtain ⟨rfl, hfound⟩ := Configs.create_error hcreate
      have hmade := h.found _ L hv.basic hv.holds hv.lists hok hfound
      have hat : At key J .made _ _ := ⟨hv.basic, hmade, rfl⟩
      exact ⟨hat.inv h, hat⟩

/-- A delete on the server, whatever becomes of the reply. -/
theorem delete_call (h : View.Laws key ok J) {A : View → Prop} {k : NamespacedName}
    (hA : ∀ v, A v → At key J g cluster v)
    (herase : ∀ v, A v →
      A { v with configs := v.configs.commit (Configs.erase v.configs.live k) }) :
    ∀ v r v', A v → (viewRuns ok).exec (.deleteConfig k) v r v' →
      Guarantee key J (.deleteConfig k) v r v' ∧ A v' := by
  have hcall : ∀ v r v', A v →
      (viewSem.guarded (fun c v _ => ok c v) fun _ _ => True).exec (.deleteConfig k) v r v' →
        A v' := by
    rintro v r v' hv ⟨-, hexec⟩
    unfold viewSem View.exec View.writeConfigs at hexec
    cases hdelete : Configs.delete v.configs.live k with
    | ok configs =>
        simp only [hdelete, Prod.mk.injEq, List.append_nil] at hexec
        obtain ⟨-, rfl⟩ := hexec
        rw [Configs.delete_ok hdelete]
        exact herase v hv
    | error e =>
        simp only [hdelete, Prod.mk.injEq] at hexec
        obtain ⟨-, rfl⟩ := hexec
        exact hv
  -- the reply arrives, or is lost before or after the server has seen the request
  rintro v r v' hv (hexec | ⟨rfl, rfl | ⟨r₀, hexec⟩⟩)
  · have hv' := hcall v r v' hv hexec
    exact ⟨(hA v' hv').inv h, hv'⟩
  · exact ⟨(hA _ hv).inv h, hv⟩
  · have hv' := hcall v r₀ v' hv hexec
    exact ⟨(hA v' hv').inv h, hv'⟩

/-- The cleanup deletes configs that have an Applied one above them in the
list. -/
theorem cleanup_triple (h : View.Laws key ok J) :
    Triple (viewRuns ok) (Guarantee key J) (Inv key J) (Listed key J .made cluster L)
      (cleanupSupersededConfigs L)
      fun res v => (res.2 = none → At key J .made cluster v) ∧ (res.2 ≠ none → Inv key J v) := by
  by_cases hstrict : L.Pairwise fun c d => c.spec.sequence < d.spec.sequence
  · refine (cleanupSupersededConfigs_triple quiet h.stable_listed L ?_).post ?_
    · intro i hi c hc
      -- the Applied config that makes `c` an old one
      obtain ⟨old, a, new, rfl, hold, -, -⟩ :=
        exists_applied_of_mem_take (hstrict.imp fun hlt => hlt.le) hi hc
      have hlt : c.spec.sequence < a.spec.sequence :=
        (List.pairwise_append.mp hstrict).2.2 c hold a List.mem_cons_self
      refine h.delete_call (fun v hv => hv.toAt) ?_
      intro v hv
      refine ⟨⟨hv.basic.erase c.key, ?_, hv.snapshot⟩, ?_, hv.lists.strict⟩
      · exact h.cleanup v _ c a hv.basic hv.holds hv.lists (by simp [hold]) (by simp) hlt
      · simpa using hv.lists.perm
    · intro res v hv
      exact ⟨fun _ => hv.1.toAt, fun _ => hv.1.inv h⟩
  · exact fun v hv => absurd hv.lists.strict hstrict

/-- A status write that records the snapshot's generation. On behalf of a spec
with primaries it may only be made once the generation has its config. -/
theorem write_call (h : View.Laws key ok J) {written : Redkey}
    (hmade : cluster.spec.primaries ≠ 0 → g = .made)
    (hobs : written.status.observedGeneration = cluster.generation) :
    ∀ v r v', At key J g cluster v → (viewRuns ok).exec (.updateRedkeyStatus written) v r v' →
      Guarantee key J (.updateRedkeyStatus written) v r v' ∧ At key J g cluster v' := by
  -- the guarantee, whatever the state after the call
  have hguar : ∀ v v' r, v.snapshot = cluster → At key J g cluster v' →
      Guarantee key J (.updateRedkeyStatus written) v r v' := by
    intro v v' r hsnap hv'
    refine ⟨hv'.inv h, ?_⟩
    intro hp
    rw [hsnap] at hp ⊢
    obtain rfl := hmade hp
    exact ⟨hobs, hv'.basic, hv'.holds⟩
  -- the server accepts the write, or refuses it for an old version
  have hcall : ∀ v r v', At key J g cluster v →
      (viewSem.guarded (fun c v _ => ok c v) fun _ _ => True).exec (.updateRedkeyStatus written) v r
        v' → At key J g cluster v' := by
    rintro v r v' hv ⟨-, -, hexec⟩
    obtain rfl := hv.snapshot
    cases hw : v.redkey.live.writeStatus written with
    | ok stored =>
        simp only [hw] at hexec
        subst hexec
        have hholds := h.write g v _ _ hv.basic hv.holds hmade hobs hw
        exact ⟨hv.basic.write hw, hholds, rfl⟩
    | error e =>
        simp only [hw] at hexec
        subst hexec
        exact hv
  rintro v r v' hv (hexec | ⟨rfl, rfl | ⟨r₀, hexec⟩⟩)
  · have hv' := hcall v r v' hv hexec
    exact ⟨hguar v v' r hv.snapshot hv', hv'⟩
  · exact ⟨hguar _ _ _ hv.snapshot hv, hv⟩
  · have hv' := hcall v r₀ v' hv hexec
    exact ⟨hguar v v' _ hv.snapshot hv', hv'⟩

/-- Each attempt of `aggregateStatus` reads the Redkey again, and this does
not change what the reconcile knows. -/
theorem aggregate_triple (h : View.Laws key ok J) {now : Time}
    (hmade : cluster.spec.primaries ≠ 0 → g = .made) :
    Triple (viewRuns ok) (Guarantee key J) (Inv key J) (At key J g cluster)
      (aggregateStatus now cluster L) fun _ => Inv key J := by
  refine (aggregateStatus_triple (B := fun _ => At key J g cluster) (fun v hv => hv.inv h)
    h.stable_at (fun _ => h.stable_at) ?_ ?_).post fun _ v hv => hv.inv h
  · have hcall := lossy_call (M := viewSem.guarded (fun c v _ => ok c v) fun _ _ => True)
      (G := Guarantee key J) (c := .getRedkey cluster.key .aggregateStatus) (A := At key J g cluster)
      (I := At key J g cluster) (Q := fun _ => At key J g cluster) (fun _ hv => hv)
      (fun _ _ hv => hv) (fun _ _ _ hG => hG) (fun v hv => hv.inv h)
    refine hcall ?_
    rintro v r v' hv ⟨-, l, hread, rfl, rfl⟩
    have hat : At key J g cluster { v with redkey := l } :=
      ⟨hv.basic.read hread, h.read g v l hv.basic hv.holds hread, hv.snapshot⟩
    exact ⟨hat.inv h, hat⟩
  · intro activeConfig _ latest
    exact h.write_call hmade rfl

/-- Nothing has to be shown of the configs when the spec has no primaries. -/
theorem scaledToZero_triple (h : View.Laws key ok J) {now : Time}
    (hzero : cluster.spec.primaries = 0) :
    Triple (viewRuns ok) (Guarantee key J) (Inv key J) (At key J g cluster)
      (updateStatusScaledToZero now cluster) fun _ => Inv key J := by
  refine api_triple h.stable_at ?_
  intro v r v' hv hexec
  obtain ⟨hG, hv'⟩ := h.write_call (fun hp => absurd hzero hp) rfl v r v' hv hexec
  refine ⟨hG, ?_⟩
  cases r with
  | ok _ => exact hv'.inv h
  | error _ => exact hv'.inv h

/-- The teardown lists once more, and deletes what this list has returned. -/
theorem deleteAll_triple (h : View.Laws key ok J) (hzero : cluster.spec.primaries = 0) :
    Triple (viewRuns ok) (Guarantee key J) (Inv key J) (At key J .idle cluster)
      (deleteAllConfigs cluster) fun _ => At key J .torn cluster := by
  -- the loop deletes what was listed, which stays the last-read version
  let Tearing (items : List RedkeyConfig) (v : View) : Prop :=
    At key J .torn cluster v ∧ ∀ c ∈ items, c ∈ v.configs.head
  have hstable : ∀ items, Stable (viewRuns ok) (Tearing items) := by
    intro items v v' hstep hv
    exact ⟨h.stable_at v v' hstep hv.1, (env_head hstep.2).symm ▸ hv.2⟩
  refine Triple.bind (Q := fun r v => Outcome Tearing (Inv key J) r v)
    (Triple.request h.stable_at ?_) ?_
  · refine lossy_call (fun v hv => hv.inv h) (fun _ _ hv => hv.1.inv h) (fun _ _ _ hG => hG)
      (fun v hv => hv.inv h) ?_
    rintro v r v' hv ⟨hok, l, items, hread, hperm, rfl, rfl⟩
    obtain rfl := hv.snapshot
    have hat : At key J .torn v.snapshot { v with configs := l } :=
      ⟨hv.basic.list hread, h.teardown v l hv.basic hv.holds hzero hok hread, rfl⟩
    have hitems : ∀ c ∈ items, c ∈ l.head :=
      fun c hc => (List.mem_filter.mp (hperm.mem_iff.mp hc)).1
    exact ⟨hat.inv h, hat, hitems⟩
  · intro r
    match r with
    | .error e => exact Triple.throw fun _ hv => hv
    | .ok items =>
        refine (deleteConfigs_triple hstable items ?_).post fun _ v hv => hv.1
        intro c rest _ v r v' hv hexec
        -- a deletion leaves the rest of the list to be deleted
        have herase : ∀ v, Tearing (c :: rest) v → Tearing (c :: rest)
            { v with configs := v.configs.commit (Configs.erase v.configs.live c.key) } := by
          rintro v ⟨hat, hitems⟩
          refine ⟨⟨hat.basic.erase c.key, ?_, hat.snapshot⟩, by simpa using hitems⟩
          exact h.tear v c hat.basic hat.holds (hat.snapshot ▸ hzero) (hitems c List.mem_cons_self)
        obtain ⟨hG, hat, hitems⟩ := h.delete_call (fun v hv => hv.1) herase v r v' hv hexec
        refine ⟨hG, ?_⟩
        have hrest : Tearing rest v' := ⟨hat, fun d hd => hitems d (List.mem_cons_of_mem c hd)⟩
        cases r with
        | ok _ => exact hrest
        | error e => exact tolerating_error.mpr ⟨fun _ => hrest, fun _ => hat.inv h⟩

/-! ## Whole runs -/

/-- The scale-to-zero path. It does not look at generations: that the new
config is of a newer one follows from the specs, as one generation has one
spec. -/
theorem zero_triple (h : View.Laws key ok J) {r : RedkeyReconciler} {now : Time}
    (hzero : cluster.spec.primaries = 0) :
    Triple (viewRuns ok) (Guarantee key J) (Inv key J) (At key J .idle cluster)
      (reconcileScaleToZero r now cluster) fun _ => Inv key J := by
  have hinv : ∀ L v, Listed key J .idle cluster L v → Inv key J v := fun L v hv => hv.inv h
  refine reconcileScaleToZero_triple (Listed key J .idle cluster) h.list_triple ?_ ?_ ?_ ?_
  · -- case A
    exact (h.scaledToZero_triple hzero).pre fun v hv => hv.toAt
  · -- case B
    intro L c hlast hp
    refine Triple.bind (robin_triple h.stable_listed (hinv L) (ensureRBAC_uses trivial)) fun _ => ?_
    refine Triple.bind (robin_triple h.stable_listed (hinv L)
      (ensureRobinDeployment_uses trivial)) fun _ => ?_
    rw [← hlast]
    refine (h.create_triple ?_).post fun _ v hv => hv.inv h
    -- equal generations would mean equal specs
    intro v hv d hd
    obtain rfl : c = d := Option.some.inj (hlast.symm.trans hd)
    have hmem := hv.lists.perm.mem_iff.mp (List.mem_of_getLast? hlast)
    obtain ⟨hle, heq⟩ := hv.basic.notAfter _ Lag.head_mem c hmem
    rw [hv.snapshot] at hle heq
    refine lt_of_le_of_ne hle fun hgen => hp ?_
    rw [heq hgen, hzero]
  · -- case C
    -- case D
    intro L c _ _ _
    refine Triple.bind (robin_triple h.stable_listed (hinv L)
      (deleteRobinDeployment_uses trivial)) fun _ => ?_
    refine Triple.bind (robin_triple h.stable_listed (hinv L) (deleteRBAC_uses trivial)) fun _ => ?_
    refine Triple.bind ((h.deleteAll_triple hzero).pre fun v hv => hv.toAt) fun _ => ?_
    exact h.scaledToZero_triple hzero
  · intro L c _ _ _
    refine Triple.bind (robin_triple h.stable_listed (hinv L) (ensureRBAC_uses trivial)) fun _ => ?_
    refine Triple.bind (robin_triple h.stable_listed (hinv L)
      (ensureRobinDeployment_uses trivial)) fun _ => ?_
    exact (h.aggregate_triple (g := .idle) fun hp => absurd hzero hp).pre fun v hv => hv.toAt

/-- The path of a cluster with primaries. After `ensureConfig` the generation
has its config, because one was created, was there under the name, or was
listed. -/
theorem configs_triple (h : View.Laws key ok J) {r : RedkeyReconciler} {now : Time}
    (hpos : cluster.spec.primaries ≠ 0) :
    Triple (viewRuns ok) (Guarantee key J) (Inv key J) (At key J .idle cluster)
      (reconcileConfigs r now cluster) fun _ => Inv key J := by
  have hinv : ∀ v, At key J .idle cluster v → Inv key J v := fun v hv => hv.inv h
  refine reconcileConfigs_triple (Listed key J .idle cluster) (At key J .made cluster)
    (Listed key J .made cluster) (fun _ => At key J .made cluster) quiet h.stable_inv h.stable_inv
    (robin_triple h.stable_at hinv (ensureRBAC_uses trivial))
    (robin_triple h.stable_at hinv (ensureRobinDeployment_uses trivial))
    h.list_triple ?_ h.list_triple ?_ (fun v hv => hv.inv h) (fun L _ => h.cleanup_triple)
    fun L => h.aggregate_triple fun _ => rfl
  · -- a config is created only when the last one is of an older generation
    intro L hneed
    refine h.create_triple ?_
    intro v hv c hlast
    have hmem := List.mem_of_getLast? hlast
    rcases hneed with rfl | hneed
    · cases hmem
    · rw [hlast] at hneed
      exact generation_lt_of_needsNewConfig hneed
        (hv.basic.ofCluster _ Lag.head_mem c (hv.lists.perm.mem_iff.mp hmem)).dated
  · -- otherwise the last one is recent enough
    intro L v _ hno hv
    obtain rfl := hv.snapshot
    have hmade := h.skip v L hv.basic hv.holds hv.lists hpos hno
    exact ⟨⟨hv.basic, hmade, rfl⟩, hv.lists⟩

theorem reconcile_triple (h : View.Laws key ok J) (r : RedkeyReconciler) (now : Time) :
    Triple (viewRuns ok) (Guarantee key J) (Inv key J) (Inv key J) (reconcile r now key)
      fun _ => Inv key J := by
  refine RedkeyOperator.reconcile_triple (At key J .idle) quiet h.stable_inv h.stable_inv
    h.stable_inv (lossy_tolerating (by decide) (fun _ hv => hv) (fun _ _ hv => hv.inv h)
      (fun _ hv => hv) (fun _ _ _ hG => hG) (fun _ hv => hv) ?_)
    (fun _ hzero => h.zero_triple hzero) fun _ hpos => h.configs_triple hpos
  rintro v r v' hv ⟨-, l, hread, rfl, rfl⟩
  have hat : At key J .idle l.head { v with redkey := l, snapshot := l.head } :=
    ⟨hv.1.start hread, h.start v l hv.1 hv.2 hread, rfl⟩
  exact ⟨hat.inv h, hat⟩

theorem entry_wp (h : View.Laws key ok J) (p : Rec Result) (hp : Reconciles key p) (v : View)
    (hv : Inv key J v) :
    Interleaved.wp (viewRuns ok) (Guarantee key J) (fun _ v => Inv key J v) p v := by
  obtain ⟨r, now, rfl⟩ := hp
  exact (h.reconcile_triple r now).entry hv

variable {init : View → Prop}

/-- The invariant holds in every state of every run, also in the middle of a
reconcile. -/
theorem reachable (h : View.Laws key ok J) (hinit : ∀ v, init v → v.Init key ∧ J .idle v)
    {fill : Deployment → Deployment} {m : Machine Call Resp (Except Err Result) Lagging}
    (hm : Reachable (laggingRuns fill ok) (Reconciles key) (fun s => init s.view) m) :
    Inv key J m.shared.view := by
  have hstart : ∀ v, init v → Inv key J v :=
    fun v hv => ⟨View.Basic.init (hinit v hv).1, (hinit v hv).2⟩
  have hview := (laggingRuns_projects fill ok).reachable (fun _ hs => hs) hm
  refine reachable_always hstart h.stable_inv (fun _ => h.stable_inv) (fun _ _ hv => hv) h.entry_wp
    hstart h.stable_inv ?_ hview
  intro c v r v' hG hv
  cases c with
  | metric e => exact hG ▸ hv
  | updateRedkeyStatus cluster => exact hG.1
  | _ => exact hG

/-- A status is written on behalf of a spec with primaries only once its
generation has its config. -/
theorem reachable_write (h : View.Laws key ok J) (hinit : ∀ v, init v → v.Init key ∧ J .idle v)
    {fill : Deployment → Deployment} {s s' : Lagging} {cluster : Redkey}
    {k : Resp (.updateRedkeyStatus cluster) → Rec Result} {r : Resp (.updateRedkeyStatus cluster)}
    (hm : Reachable (laggingRuns fill ok) (Reconciles key) (fun s => init s.view)
      ⟨s, some (.call (.updateRedkeyStatus cluster) k)⟩)
    (hexec : (laggingRuns fill ok).exec (.updateRedkeyStatus cluster) s r s')
    (hp : s.view.snapshot.spec.primaries ≠ 0) :
    cluster.status.observedGeneration = s'.view.snapshot.generation ∧
      s'.view.snapshot.spec.primaries ≠ 0 ∧ s'.view.Basic key ∧ J .made s'.view := by
  have hsnap := snapshot_write ((laggingRuns_projects fill ok).exec _ _ _ _ hexec)
  have hview := (laggingRuns_projects fill ok).reachable (fun _ hs => hs) hm
  rw [hsnap]
  obtain ⟨hobs, hmade⟩ := (reachable_call
    (fun v hv => ⟨View.Basic.init (hinit v hv).1, (hinit v hv).2⟩) h.stable_inv
    (fun _ => h.stable_inv) (fun _ _ hv => hv) h.entry_wp hview
    ((laggingRuns_projects fill ok).exec _ _ _ _ hexec)).2 hp
  exact ⟨hobs, hp, hmade⟩

end View.Laws

/-! ## Requests that come from the snapshot -/

/-- Only the first read of a reconcile makes a snapshot; the later one is made
at another place of the program. -/
theorem Call.MadeFor.snapshot_eq {now : Time} {cluster : Redkey} {c : Call} {v v' : View}
    {x : Resp c} (hc : c.MadeFor now cluster) (hexec : View.exec c v x v') :
    v'.snapshot = v.snapshot := by
  cases c with
  | getRedkey k site =>
      obtain ⟨l, -, -, rfl⟩ := hexec
      cases hc
      rfl
  | updateRedkeyStatus written =>
      obtain ⟨-, rfl⟩ := hexec
      split <;> rfl
  | listConfigs ns label value site =>
      obtain ⟨l, items, -, -, -, rfl⟩ := hexec
      rfl
  | createConfig config =>
      obtain rfl : v' = _ := congrArg Prod.snd hexec
      cases Configs.create v.configs.live config <;> rfl
  | deleteConfig k =>
      obtain rfl : v' = _ := congrArg Prod.snd hexec
      cases Configs.delete v.configs.live k <;> rfl
  | _ =>
      obtain rfl : v' = v := hexec
      rfl

end RedkeyOperator
