import RedkeyOperator.Api.Admission
import RedkeyOperator.Lib.History
import RedkeyOperator.System.LaggingRules

/-!
# Where configs come from

Robin works from the configs and never reads the Redkey. Between the two stands an operator whose
caches are outdated, whose requests get lost and which may stop anywhere. Still, every config there
ever was is the snapshot of one version that the user wrote and the API server admitted, so what
the validation rules say about specs holds of configs:

* each is the snapshot of a valid spec;
* all of them agree on the fields that cannot be changed (`RedkeySpec.SameKind`).

The second is more than the rules say by themselves: `storage` may be added or left out. But a
valid spec has storage exactly when it is not ephemeral, and that cannot be changed.

The runs carry the versions that the user has written.
-/

namespace RedkeyOperator

open Interleaved

/-- A user's edit is admitted by the rules of the resource; the other steps
leave the Redkey alone. -/
def View.Admitted (v v' : View) : Prop :=
  v'.redkey.live = v.redkey.live ∨ admitted v.redkey.live v'.redkey.live.spec = true

/-- Runs in which any request may be lost and every edit is admitted. -/
def admittedRuns (fill : Deployment → Deployment) : Sem Call Resp Lagging :=
  ((lagging fill).guarded (fun _ _ _ => True) fun s s' => s.view.Admitted s'.view).lossy lost

/-- The versions that the user has written, the live one included. A version
is noted once, when its generation is seen for the first time; status writes
do not change the generation. -/
def noteVersion (live : Redkey) (written : List Redkey) : List Redkey :=
  if live.generation ∈ written.map Redkey.generation then written else written ++ [live]

/-- The runs with the list of the versions the user has written beside the
state. Only the environment adds to the list. -/
def writtenRuns (fill : Deployment → Deployment) : Sem Call Resp (Lagging × List Redkey) :=
  (admittedRuns fill).withHistory (fun s => noteVersion s.view.redkey.live)
    fun _ _ _ written => written

/-! ## Versions -/

/-- The same, up to what the operator writes: the status and the resource
version. -/
structure Redkey.SameVersion (r u : Redkey) : Prop where
  ns : r.ns = u.ns
  name : r.name = u.name
  generation : r.generation = u.generation
  spec : r.spec = u.spec

theorem Redkey.SameVersion.refl (r : Redkey) : r.SameVersion r := ⟨rfl, rfl, rfl, rfl⟩

/-- A config is made from what the user wrote, and from nothing else. -/
theorem Redkey.SameVersion.newConfig {r u : Redkey} (h : r.SameVersion u)
    (highest : Option RedkeyConfig) : newConfig r highest = newConfig u highest := by
  simp [RedkeyOperator.newConfig, h.ns, h.name, h.generation, h.spec]

/-- The fields that cannot be changed after the Redkey has been created. A
config carries them to Robin, which has no other place to read them from. -/
structure RedkeySpec.SameKind (a b : RedkeySpec) : Prop where
  mode : a.mode = b.mode
  ephemeral : a.ephemeral = b.ephemeral
  storage : a.storage = b.storage
  storageClassName : a.storageClassName = b.storageClassName

theorem RedkeySpec.SameKind.refl (a : RedkeySpec) : a.SameKind a := ⟨rfl, rfl, rfl, rfl⟩

/-- A chain of admitted edits changes none of these fields. -/
theorem RedkeySpec.SameKind.trans {a b c : RedkeySpec} (h : a.SameKind b) (h' : b.SameKind c) :
    a.SameKind c :=
  ⟨h.mode.trans h'.mode, h.ephemeral.trans h'.ephemeral, h.storage.trans h'.storage,
    h.storageClassName.trans h'.storageClassName⟩

theorem RedkeySpec.SameKind.symm {a b : RedkeySpec} (h : a.SameKind b) : b.SameKind a :=
  ⟨h.mode.symm, h.ephemeral.symm, h.storage.symm, h.storageClassName.symm⟩

/-- Storage is set exactly when the cluster is not ephemeral. -/
theorem RedkeySpec.storage_eq_empty_iff {spec : RedkeySpec} (h : spec.valid = true) :
    spec.storage = "" ↔ spec.ephemeral = true := by
  obtain ⟨-, hset, hnotBoth, -⟩ := of_decide_eq_true h
  constructor
  · intro hempty
    exact hset.resolve_right (not_not.mpr hempty)
  · intro heph
    by_contra hstorage
    exact hnotBoth ⟨heph, hstorage⟩

/-- What the rules for an update say about the new spec. The rule for
`storage` lets it be added or left out, but a valid spec has storage exactly
when it is not ephemeral. -/
theorem RedkeySpec.sameKind_of_admitted {old : Redkey} {new : RedkeySpec}
    (hold : old.spec.valid = true) (h : admitted old new = true) :
    new.valid = true ∧ old.spec.SameKind new := by
  obtain ⟨hnew, hkeeps, -, -⟩ := of_decide_eq_true h
  obtain ⟨hmode, heph, hstorage, hclass, -⟩ := of_decide_eq_true hkeeps
  refine ⟨hnew, hmode.symm, heph.symm, ?_, hclass.symm⟩
  -- the rule holds if the old or the new storage is empty; then both are
  rcases hstorage with hempty | hempty | heq
  · have hnew' := (storage_eq_empty_iff hnew).mpr (heph ▸ (storage_eq_empty_iff hold).mp hempty)
    rw [hempty, hnew']
  · have hold' := (storage_eq_empty_iff hold).mpr (heph ▸ (storage_eq_empty_iff hnew).mp hempty)
    rw [hempty, hold']
  · exact heq.symm

/-! ## The invariant -/

/-- `written` are the versions that the user has written, and everything comes
from them: what may be read, what a running reconcile works with, and the
configs that were created. -/
structure Provenance (v : View) (written : List Redkey) : Prop where
  /-- Any version that a read may return, the live one included. -/
  versions : ∀ r ∈ v.redkey.versions, ∃ u ∈ written, r.SameVersion u
  /-- The Redkey that the running reconcile has started from. -/
  snapshot : ∃ u ∈ written, v.snapshot.SameVersion u
  latest : ∀ u ∈ written, u.generation ≤ v.redkey.live.generation
  increasing : written.Pairwise fun u u' => u.generation < u'.generation
  ranged : ∀ u ∈ written, Decimal.InInt64 u.generation
  valid : ∀ u ∈ written, u.spec.valid = true
  fixed : ∀ u ∈ written, u.spec.SameKind v.redkey.live.spec
  created : ∀ c ∈ v.created, ∃ u ∈ written, ∃ highest, c = newConfig u highest
  stored : ∀ L ∈ v.configs.versions, ∀ c ∈ L, ∃ e ∈ v.created, c.Same e

namespace Provenance

variable {v v' : View} {written : List Redkey}

theorem init {key : NamespacedName} (h : v.Init key) (hvalid : v.snapshot.spec.valid = true) :
    Provenance v [v.snapshot] := by
  have hlive : v.redkey.live = v.snapshot := by rw [h.redkey]
  have hself : ∃ u ∈ [v.snapshot], v.snapshot.SameVersion u := ⟨_, List.mem_cons_self, .refl _⟩
  refine ⟨?_, hself, ?_, List.pairwise_singleton _ _, ?_, ?_, ?_, ?_, ?_⟩
  · intro r hr
    rw [h.redkey] at hr
    obtain rfl : r = v.snapshot := by simpa [Lag.versions] using hr
    exact hself
  · simp [hlive]
  · simpa using h.ranged
  · simpa using hvalid
  · simpa [hlive] using RedkeySpec.SameKind.refl v.snapshot.spec
  · rw [h.created]
    exact fun c hc => absurd hc List.not_mem_nil
  · intro L hL c hc
    rw [h.configs] at hL
    obtain rfl : L = [] := by simpa [Lag.versions] using hL
    cases hc

/-- The live version is valid, and noted already. -/
theorem live (h : Provenance v written) :
    ∃ u ∈ written, v.redkey.live.SameVersion u ∧ v.redkey.live.spec.valid = true := by
  obtain ⟨u, hu, hsame⟩ := h.versions _ Lag.live_mem
  exact ⟨u, hu, hsame, hsame.spec ▸ h.valid u hu⟩

/-- There is nothing new to note. -/
theorem noteVersion_live (h : Provenance v written) :
    noteVersion v.redkey.live written = written := by
  obtain ⟨u, hu, hsame, -⟩ := h.live
  exact if_pos (List.mem_map.mpr ⟨u, hu, hsame.generation.symm⟩)

/-! ### The user and Robin -/

/-- The user writes another version. It is above all the others and has their
kind. -/
theorem edit (h : Provenance v written) {spec : RedkeySpec}
    (hrange : Decimal.InInt64 (v.redkey.live.generation + 1))
    (hadmitted : admitted v.redkey.live spec = true) :
    Provenance { v with redkey := v.redkey.commit (v.redkey.live.edit spec) }
      (written ++ [v.redkey.live.edit spec]) := by
  obtain ⟨-, -, -, hlive⟩ := h.live
  obtain ⟨hvalid, hkind⟩ := RedkeySpec.sameKind_of_admitted hlive hadmitted
  have hmem : v.redkey.live.edit spec ∈ written ++ [v.redkey.live.edit spec] := by simp
  have hgen : (v.redkey.live.edit spec).generation = v.redkey.live.generation + 1 := rfl
  -- what was written before stays written
  have hmore : ∀ {P : Redkey → Prop}, (∃ u ∈ written, P u) →
      ∃ u ∈ written ++ [v.redkey.live.edit spec], P u :=
    fun ⟨u, hu, hP⟩ => ⟨u, List.mem_append_left _ hu, hP⟩
  refine ⟨?_, hmore h.snapshot, ?_, ?_, ?_, ?_, ?_, fun c hc => hmore (h.created c hc), h.stored⟩
  · intro r hr
    rcases Lag.mem_versions_commit.mp hr with hold | rfl
    · exact hmore (h.versions r hold)
    · exact ⟨_, hmem, .refl _⟩
  · intro u hu
    rcases List.mem_append.mp hu with hold | hnew
    · exact (h.latest u hold).trans (Int.le_add_one le_rfl)
    · rw [List.mem_singleton.mp hnew]
      exact le_rfl
  · refine List.pairwise_append.mpr ⟨h.increasing, List.pairwise_singleton _ _, ?_⟩
    intro u hu u' hu'
    rw [List.mem_singleton.mp hu', hgen]
    exact Int.lt_add_one_of_le (h.latest u hu)
  · simpa [or_imp, forall_and, hgen] using ⟨h.ranged, hrange⟩
  · simpa [or_imp, forall_and] using ⟨h.valid, hvalid⟩
  · intro u hu
    rcases List.mem_append.mp hu with hold | hnew
    · exact (h.fixed u hold).trans hkind
    · rw [List.mem_singleton.mp hnew]
      exact .refl _

/-- Another version of the configs, with the same metadata and specs or fewer
of them. -/
theorem commitConfigs (h : Provenance v written) {L : List RedkeyConfig}
    (hL : ∀ c ∈ L, ∃ d ∈ v.configs.live, c.Same d) :
    Provenance { v with configs := v.configs.commit L } written := by
  refine { h with stored := ?_ }
  intro K hK c hc
  rcases Lag.mem_versions_commit.mp hK with hold | rfl
  · exact h.stored K hold c hc
  · obtain ⟨d, hd, hsame⟩ := hL c hc
    obtain ⟨e, he, hsame'⟩ := h.stored _ Lag.live_mem d hd
    exact ⟨e, he, hsame.1.trans hsame'.1, hsame.2.trans hsame'.2⟩

/-- A step of the user or of Robin. -/
theorem env (h : Provenance v written) (hstep : View.Env v v') (hadmitted : v.Admitted v') :
    Provenance v' (noteVersion v'.redkey.live written) := by
  cases hstep with
  | userUpdate spec hrange =>
      have hnew : noteVersion (v.redkey.live.edit spec) written =
          written ++ [v.redkey.live.edit spec] := by
        -- the generation has not been there before
        refine if_neg fun hmem => ?_
        obtain ⟨u, hu, hgen⟩ := List.mem_map.mp hmem
        exact absurd (h.latest u hu) (by simp [hgen, Redkey.edit])
      rw [Lag.commit_live, hnew]
      refine h.edit hrange ?_
      rcases hadmitted with heq | hadmitted
      · exact absurd (congrArg Redkey.generation heq) (by simp [Redkey.edit])
      · exact hadmitted
  | robinWrite k status =>
      -- Robin writes no version
      rw [h.noteVersion_live]
      refine h.commitConfigs fun c hc => ?_
      obtain ⟨d, hd, hmeta, hspec, -⟩ := Configs.mem_robinWrite hc
      exact ⟨d, hd, hmeta, hspec⟩

/-! ### The requests of a reconcile -/

/-- A read returns one of the versions, so the reconcile works with one of
them. -/
theorem read (h : Provenance v written) {l : Lag Redkey} (hl : v.redkey.Read l) (site : ReadSite) :
    Provenance (v.readAt site l) written := by
  have hread : Provenance { v with redkey := l } written := by
    refine ⟨fun r hr => h.versions r (hl.mem hr), h.snapshot, ?_, h.increasing, h.ranged, h.valid,
      ?_, h.created, h.stored⟩
    · rw [hl.1]
      exact h.latest
    · rw [hl.1]
      exact h.fixed
  cases site with
  | reconcile => exact { hread with snapshot := h.versions _ (hl.mem Lag.head_mem) }
  | aggregateStatus => exact hread

theorem writeStatus (h : Provenance v written) {cluster stored : Redkey}
    (hstored : v.redkey.live.writeStatus cluster = .ok stored) :
    Provenance { v with redkey := v.redkey.commit stored } written := by
  obtain ⟨-, rfl⟩ := Redkey.writeStatus_ok hstored
  refine { h with versions := ?_ }
  intro r hr
  rcases Lag.mem_versions_commit.mp hr with hold | rfl
  · exact h.versions r hold
  · obtain ⟨u, hu, hsame⟩ := h.versions _ Lag.live_mem
    exact ⟨u, hu, hsame.ns, hsame.name, hsame.generation, hsame.spec⟩

/-- The new config is the snapshot of the version that the reconcile works
with. -/
theorem create (h : Provenance v written) (highest : Option RedkeyConfig) :
    Provenance { v with
      configs := v.configs.commit (v.configs.live ++ [newConfig v.snapshot highest])
      created := v.created ++ [newConfig v.snapshot highest] } written := by
  refine { h with created := ?_, stored := ?_ }
  · intro c hc
    rcases List.mem_append.mp hc with hold | hnew
    · exact h.created c hold
    · obtain ⟨u, hu, hsame⟩ := h.snapshot
      exact ⟨u, hu, highest, (List.mem_singleton.mp hnew).trans (hsame.newConfig highest)⟩
  · -- the configs that were stored before are still known
    have hknown : ∀ L ∈ v.configs.versions, ∀ c ∈ L,
        ∃ e ∈ v.created ++ [newConfig v.snapshot highest], c.Same e := by
      intro L hL c hc
      obtain ⟨e, he, hsame⟩ := h.stored L hL c hc
      exact ⟨e, List.mem_append_left _ he, hsame⟩
    intro L hL c hc
    rcases Lag.mem_versions_commit.mp hL with hold | rfl
    · exact hknown L hold c hc
    · rcases List.mem_append.mp hc with hold | hnew
      · exact hknown _ Lag.live_mem c hold
      · exact ⟨c, List.mem_append_right _ hnew, rfl, rfl⟩

/-- A request of the reconcile that started from the snapshot. -/
theorem exec {now : Time} {c : Call} {x : Resp c} (h : Provenance v written)
    (hc : c.MadeFor now v.snapshot) (hexec : View.exec c v x v') :
    Provenance v' written := by
  cases hc with
  | reread =>
      -- the read of `aggregateStatus` leaves the snapshot alone
      obtain ⟨l, hl, rfl, rfl⟩ := hexec
      exact h.read hl .aggregateStatus
  | aggregated latest active =>
      obtain ⟨rfl, rfl⟩ := hexec
      split
      case h_1 stored hstored => exact h.writeStatus hstored
      case h_2 => exact h
  | scaledToZero =>
      obtain ⟨rfl, rfl⟩ := hexec
      split
      case h_1 stored hstored => exact h.writeStatus hstored
      case h_2 => exact h
  | list site =>
      obtain ⟨l, items, hl, hitems, rfl, rfl⟩ := hexec
      exact { h with stored := fun L hL => h.stored L (hl.mem hL) }
  | createConfig highest =>
      obtain rfl : v' = _ := congrArg Prod.snd hexec
      cases hcreate : Configs.create v.configs.live (newConfig v.snapshot highest) with
      | error e => exact h
      | ok L =>
          obtain ⟨rfl, -⟩ := Configs.create_ok hcreate
          exact h.create highest
  | deleteConfig k =>
      obtain rfl : v' = _ := congrArg Prod.snd hexec
      cases hdelete : Configs.delete v.configs.live k with
      | error e => exact h
      | ok L =>
          obtain rfl := Configs.delete_ok hdelete
          have herase := h.commitConfigs (L := Configs.erase v.configs.live k) fun c hc =>
            ⟨c, (Configs.mem_erase.mp hc).1, rfl, rfl⟩
          simpa [View.writeConfigs] using herase
  -- => Robin's objects are outside the view
  | _ =>
      obtain rfl : v' = v := hexec
      exact h

/-- What this says of the configs. -/
theorem origin (h : Provenance v written) :
    (∀ c ∈ v.created, ∃ u ∈ written, c.generation? = some u.generation ∧
      u.spec.valid = true ∧ ∃ highest, c = newConfig u highest) ∧
    (∀ c ∈ v.configs.live, ∃ e ∈ v.created, c.Same e) ∧
    ∀ c ∈ v.created, ∀ d ∈ v.created,
      c.spec.mode = d.spec.mode ∧ c.spec.ephemeral = d.spec.ephemeral ∧
      c.spec.storage = d.spec.storage ∧ c.spec.storageClassName = d.spec.storageClassName := by
  refine ⟨?_, h.stored _ Lag.live_mem, ?_⟩
  · intro c hc
    obtain ⟨u, hu, highest, rfl⟩ := h.created c hc
    exact ⟨u, hu, newConfig_generation u highest (h.ranged u hu), h.valid u hu, highest, rfl⟩
  · intro c hc d hd
    obtain ⟨u, hu, _, rfl⟩ := h.created c hc
    obtain ⟨u', hu', _, rfl⟩ := h.created d hd
    have hkind := (h.fixed u hu).trans (h.fixed u' hu').symm
    exact ⟨hkind.mode, hkind.ephemeral, hkind.storage, hkind.storageClassName⟩

end Provenance

/-! ## Whole runs -/

section Runs

variable {fill : Deployment → Deployment} {key : NamespacedName}

theorem admittedRuns_metric {e : MetricEvent} {x : Resp (.metric e)} {s s' : Lagging}
    (h : (admittedRuns fill).exec (.metric e) s x s') : s' = s := by
  rcases Sem.exec_of_lossy_guarded h with ⟨-, heq⟩ | ⟨_, ⟨hview, -, hrobin⟩, -⟩
  · exact heq
  · cases s
    cases s'
    exact congrArg₂ Lagging.mk hview hrobin

/-- The environment keeps the snapshot of the running reconcile. -/
theorem Provenance.moved {y y' : Lagging × List Redkey} (h : Provenance y.1.view y.2)
    (henv : (writtenRuns fill).env y y') :
    Provenance y'.1.view y'.2 ∧ y'.1.view.snapshot = y.1.view.snapshot := by
  obtain ⟨⟨hadmitted, hstep, -⟩, hwritten⟩ := henv
  rw [hwritten]
  exact ⟨h.env hstep hadmitted, View.Laws.env_snapshot hstep⟩

/-- Provenance is kept by every request of a reconcile and by every step of
the environment, whether the request was lost, or only its answer. -/
theorem provenance_laws :
    SnapshotLaws (writtenRuns fill)
      (fun _ y _ y' => Provenance y.1.view y.2 → Provenance y'.1.view y'.2)
      (fun y => Provenance y.1.view y.2)
      (fun cluster y => Provenance y.1.view y.2 ∧ y.1.view.snapshot = cluster) key where
  quiet := ⟨fun _ _ _ _ h => Prod.ext (admittedRuns_metric h.1) h.2, fun _ _ _ => id⟩
  idle _ _ henv h := (h.moved henv).1
  running _ _ _ henv h := ⟨(h.1.moved henv).1, (h.1.moved henv).2.trans h.2⟩
  weaken _ _ h := h.1
  start := by
    rintro ⟨s, _⟩ x ⟨s', written⟩ h ⟨hexec, rfl⟩
    -- a read whose answer is lost ends the reconcile
    have hlost : ∀ h' : Provenance s'.view written,
        Tolerating .notFound
          (fun cluster y => Provenance y.1.view y.2 ∧ y.1.view.snapshot = cluster)
          (fun y => Provenance y.1.view y.2)
          (fun y : Lagging × List Redkey => Provenance y.1.view y.2)
          (lost (.getRedkey key .reconcile)) (s', written) :=
      fun h' => tolerating_error.mpr ⟨fun _ => h', fun _ => h'⟩
    rcases Sem.exec_of_lossy_guarded hexec with ⟨rfl, rfl⟩ | ⟨x₀, ⟨⟨l, hl, rfl, hview⟩, -⟩, hx⟩
    · exact ⟨id, hlost h⟩
    · have hread : Provenance s'.view written := hview ▸ h.read hl .reconcile
      refine ⟨fun _ => hread, ?_⟩
      rcases hx with rfl | rfl
      · exact hlost hread
      · exact ⟨hread, by rw [hview]; rfl⟩
  call := by
    rintro now _ c ⟨s, _⟩ x ⟨s', written⟩ hc ⟨h, rfl⟩ ⟨hexec, rfl⟩
    rcases Sem.exec_of_lossy_guarded hexec with ⟨-, rfl⟩ | ⟨x₀, ⟨hexec, -⟩, -⟩
    · exact ⟨id, h, rfl⟩
    · have h' := h.exec hc hexec
      exact ⟨fun _ => h', h', hc.snapshot_eq hexec⟩

/-- A Redkey that was just created, with a valid spec. It is the only version
so far. -/
structure JustCreated (key : NamespacedName) (y : Lagging × List Redkey) : Prop where
  init : y.1.view.Init key
  valid : y.1.view.snapshot.spec.valid = true
  written : y.2 = [y.1.view.snapshot]

/-- Every config there ever was is the snapshot of one version that the user
wrote, with a valid spec; all of them agree on what cannot be changed. -/
theorem configs_have_origin (fill : Deployment → Deployment) (key : NamespacedName)
    {s : Lagging} {written : List Redkey} {t : Option (Rec Result)}
    (hm : Reachable (writtenRuns fill) (Reconciles key) (JustCreated key) ⟨(s, written), t⟩) :
    written.Pairwise (fun u u' => u.generation < u'.generation) ∧
    (∀ c ∈ s.view.created, ∃ u ∈ written, c.generation? = some u.generation ∧
      u.spec.valid = true ∧ ∃ highest, c = newConfig u highest) ∧
    (∀ c ∈ s.view.configs.live, ∃ e ∈ s.view.created, c.Same e) ∧
    ∀ c ∈ s.view.created, ∀ d ∈ s.view.created,
      c.spec.mode = d.spec.mode ∧ c.spec.ephemeral = d.spec.ephemeral ∧
      c.spec.storage = d.spec.storage ∧ c.spec.storageClassName = d.spec.storageClassName := by
  have h : Provenance s.view written := by
    refine provenance_laws.reachable ?_ (fun _ _ _ _ hkeeps => hkeeps) hm
    intro y hy
    rw [hy.written]
    exact .init hy.init hy.valid
  exact ⟨h.increasing, h.origin⟩

end Runs

/-! ### Two versions -/

/-- A reconcile with up-to-date reads. -/
def Lagging.reconciled (cluster : Redkey) (now : Time) (s : Lagging) :
    Machine Call Resp (Except Err Result) Lagging :=
  Machine.advance (fun c s => Lagging.answer id true c s) 40
    ⟨s, some (reconcile { resyncInterval := 60 } now cluster.key)⟩

/-- A reconcile can be added to a run, since no check has to be met. -/
theorem Lagging.reachable_reconciled {cluster : Redkey} {init : Lagging → Prop} {s : Lagging}
    (now : Time) (hm : Reachable (admittedRuns id) (Reconciles cluster.key) init ⟨s, none⟩) :
    Reachable (admittedRuns id) (Reconciles cluster.key) init (s.reconciled cluster now) :=
  (hm.start ⟨_, _, rfl⟩).advance (fun _ _ => true)
    (fun c s _ => Or.inl ⟨trivial, Lagging.answer_exec id true c s⟩) 40
    fun p _ => Prog.checks_true _ 40 p _

/-- The first reconcile is done, and the user asks for five primaries. -/
def rescaled : Lagging :=
  ((Lagging.initial persistentCluster).reconciled persistentCluster 7).shared.edited
    { persistentCluster.spec with primaries := 5 }

theorem rescaled_reachable :
    Reachable (admittedRuns id) (Reconciles persistentCluster.key)
      (· = Lagging.initial persistentCluster) (rescaled.reconciled persistentCluster 8) := by
  have hidle : Reachable (admittedRuns id) (Reconciles persistentCluster.key)
      (· = Lagging.initial persistentCluster) ⟨Lagging.initial persistentCluster, none⟩ :=
    Reachable.idle rfl
  have hfirst := (Lagging.reachable_reconciled 7 hidle).finish (by decide +kernel)
  refine Lagging.reachable_reconciled 8 (hfirst.env ⟨Or.inr ?_, ?_, rfl⟩)
  · decide +kernel
  · exact View.Env.userUpdate _ (by decide +kernel)

/-- Two configs come from two versions. -/
theorem configs_have_origin_sample :
    (rescaled.reconciled persistentCluster 8).shared.view.created.length = 2 ∧
    ∃ written : List Redkey,
      ∀ c ∈ (rescaled.reconciled persistentCluster 8).shared.view.created,
        ∃ u ∈ written, c.generation? = some u.generation ∧ u.spec.valid = true ∧
          ∃ highest, c = newConfig u highest := by
  refine ⟨by decide +kernel, ?_⟩
  obtain ⟨written, ⟨s₀, w₀⟩, ⟨rfl, rfl⟩, hsteps⟩ :
      ∃ written, Reachable (writtenRuns id) (Reconciles persistentCluster.key)
        (fun y => y.1 = Lagging.initial persistentCluster ∧ y.2 = [persistentCluster])
        ⟨((rescaled.reconciled persistentCluster 8).shared, written),
          (rescaled.reconciled persistentCluster 8).thread⟩ :=
    -- the run with the versions beside it
    rescaled_reachable.withHistory [persistentCluster]
  have hm : Reachable (writtenRuns id) (Reconciles persistentCluster.key)
      (JustCreated persistentCluster.key) _ :=
    ⟨_, ⟨Lagging.initial_init (by decide), by decide +kernel, rfl⟩, hsteps⟩
  exact ⟨written, (configs_have_origin id persistentCluster.key hm).2.1⟩

end RedkeyOperator
