import RedkeyOperator.Lib.Pool
import RedkeyOperator.System.LastApplied
import RedkeyOperator.System.Provenance

/-!
# Several operators at once

Leader election is a flag of the manager, and a leader that is held up may go on after its lease
has run out. Then several operators reconcile the same Redkey. Each of them reads through caches of
its own and runs one reconcile of it at a time; all they share is the API server.

What is shown of one operator in `Provenance` and `LastApplied` does not depend on its being alone:

* every config is the snapshot of one version that the user wrote (`operators_share_origin`): the
  requests of a reconcile are made from its own snapshot;
* a recorded topology is that of a config that has been Applied, and is never cleared
  (`operators_keep_record`): a status is written over the version it was computed from, or not at
  all.
-/

namespace RedkeyOperator

open Interleaved Relation

/-- What one operator can still read, and the Redkey that its last reconcile
started from. The versions on the server are kept apart from it, as they are
shared. -/
structure OperatorCache where
  redkeys : List Redkey := []
  configs : List (List RedkeyConfig) := []
  snapshot : Redkey

/-- The server and the caches of the operators; `created` lists the configs
ever created. -/
@[ext]
structure Replicas (ι : Type) where
  redkey : Redkey
  configs : List RedkeyConfig := []
  created : List RedkeyConfig := []
  cache : ι → OperatorCache

namespace Replicas

variable {ι : Type} {s s' : Replicas ι} {i j : ι}

/-- The Redkey and its configs, as one of them sees it. -/
def view (s : Replicas ι) (i : ι) : View where
  redkey := ⟨(s.cache i).redkeys, s.redkey⟩
  configs := ⟨(s.cache i).configs, s.configs⟩
  snapshot := (s.cache i).snapshot
  created := s.created

/-- The caches of an operator get to know what another party did. Whatever
changes on the server becomes one more version to be read. -/
structure Told (s s' : Replicas ι) (i : ι) : Prop where
  redkey : (s.view i).redkey.Put s'.redkey (s'.view i).redkey
  configs : (s.view i).configs.Put s'.configs (s'.view i).configs
  snapshot : (s'.view i).snapshot = (s.view i).snapshot

/-- The steps of the user and of Robin. They change what is on the server, for
all operators alike. -/
inductive Moved (s s' : Replicas ι) : Prop
  | userUpdate (spec : RedkeySpec) (hrange : Decimal.InInt64 (s.redkey.generation + 1))
      (hredkey : s'.redkey = s.redkey.edit spec) (hconfigs : s'.configs = s.configs)
  | robinWrite (key : NamespacedName) (status : RedkeyConfigStatus)
      (hredkey : s'.redkey = s.redkey)
      (hconfigs : s'.configs = Configs.robinWrite s.configs key status)

/-- A party other than the operators has moved. Every operator is told of it,
sooner or later. -/
structure Env (s s' : Replicas ι) : Prop where
  moved : s.Moved s'
  created : s'.created = s.created
  told : ∀ i, s.Told s' i

theorem view_eq {v : View} (hredkey : (s.view i).redkey = v.redkey)
    (hconfigs : (s.view i).configs = v.configs) (hsnapshot : (s.view i).snapshot = v.snapshot)
    (hcreated : s.created = v.created) : s.view i = v := by
  cases v
  subst hredkey hconfigs hsnapshot hcreated
  rfl

/-- Nothing to be told of. -/
theorem Told.view_eq (h : s.Told s' i) (hredkey : s'.redkey = s.redkey)
    (hconfigs : s'.configs = s.configs) (hcreated : s'.created = s.created) :
    s'.view i = s.view i :=
  Replicas.view_eq (h.redkey.eq_self hredkey) (h.configs.eq_self hconfigs) h.snapshot hcreated

/-- To one of the operators, the user and Robin do what they do to one that is
alone, or nothing. -/
theorem Env.view (h : s.Env s') (i : ι) :
    s'.view i = s.view i ∨ View.Env (s.view i) (s'.view i) := by
  have htold := h.told i
  cases h.moved with
  | userUpdate spec hrange hredkey hconfigs =>
      right
      -- an edit is always a change
      have hne : s'.redkey ≠ s.redkey := by
        intro heq
        have hgen := congrArg Redkey.generation (hredkey.symm.trans heq)
        simp [Redkey.edit] at hgen
      have hview : s'.view i = { s.view i with
          redkey := (s.view i).redkey.commit (s.redkey.edit spec) } :=
        Replicas.view_eq (hredkey ▸ htold.redkey.eq_commit hne) (htold.configs.eq_self hconfigs)
          htold.snapshot h.created
      rw [hview]
      exact View.Env.userUpdate spec hrange
  | robinWrite key status hredkey hconfigs =>
      -- a report may be one that changes nothing
      by_cases hsame : s'.configs = s.configs
      · exact Or.inl (htold.view_eq hredkey hsame h.created)
      · have hview : s'.view i = { s.view i with
            configs := (s.view i).configs.commit (Configs.robinWrite s.configs key status) } :=
          Replicas.view_eq (htold.redkey.eq_self hredkey) (hconfigs ▸ htold.configs.eq_commit hsame)
            htold.snapshot h.created
        rw [hview]
        exact Or.inr (View.Env.robinWrite key status)

/-- The caches are what the operators see besides the server. -/
theorem cache_eq (h : s'.view i = s.view i) : s'.cache i = s.cache i := by
  have hredkeys := congrArg (fun v => v.redkey.past) h
  have hconfigs := congrArg (fun v => v.configs.past) h
  have hsnapshot := congrArg View.snapshot h
  simp only [view] at hredkeys hconfigs hsnapshot
  cases hs : s.cache i
  cases hs' : s'.cache i
  simp_all

end Replicas

variable {ι : Type}

/-- One of the operators; a request about Robin's objects may get any answer.
The others are told of what it did. -/
def replica (i : ι) : Sem Call Resp (Replicas ι) where
  env := Replicas.Env
  exec c s x s' := View.exec c (s.view i) x (s'.view i) ∧ ∀ j, j ≠ i → s.Told s' j

theorem replica_metric [DecidableEq ι] {i : ι} {s s' : Replicas ι} {e : MetricEvent}
    {x : Resp (.metric e)} (h : (replica i).exec (.metric e) s x s') : s' = s := by
  obtain ⟨hview, htold⟩ := h
  have hview : s'.view i = s.view i := hview
  have hredkey : s'.redkey = s.redkey := congrArg (fun v => v.redkey.live) hview
  have hconfigs : s'.configs = s.configs := congrArg (fun v => v.configs.live) hview
  have hcreated : s'.created = s.created := congrArg View.created hview
  refine Replicas.ext hredkey hconfigs hcreated (funext fun j => ?_)
  by_cases hj : j = i
  · exact hj ▸ Replicas.cache_eq hview
  · exact Replicas.cache_eq ((htold j hj).view_eq hredkey hconfigs hcreated)

/-! ## Provenance -/

/-- Runs in which any request may be lost and every edit is admitted, with the
versions that the user has written. -/
def originRuns (i : ι) : Sem Call Resp (Replicas ι × List Redkey) :=
  (((replica i).guarded (fun _ _ _ => True) fun s s' =>
    s'.redkey = s.redkey ∨ admitted s.redkey s'.redkey.spec = true).lossy lost).withHistory
      (fun s => noteVersion s.redkey) fun _ _ _ written => written

section Origin

variable {i : ι} {y y' : Replicas ι × List Redkey} {c : Call} {x : Resp c} {key : NamespacedName}

theorem originRuns_exec (h : (originRuns i).exec c y x y') :
    y'.2 = y.2 ∧ (x = lost c ∧ y'.1 = y.1 ∨
      ∃ x₀, (replica i).exec c y.1 x₀ y'.1 ∧ (x = lost c ∨ x = x₀)) :=
  ⟨h.2, Sem.exec_of_lossy_guarded h.1⟩

/-- Nobody else touches the snapshot of an operator. -/
theorem snapshot_besides {i : ι} (h : (Sem.besides originRuns i).env y y') :
    (y'.1.view i).snapshot = (y.1.view i).snapshot := by
  rcases h with ⟨j, ⟨-, henv⟩, -⟩ | ⟨j, c, x, hj, hexec⟩
  · exact (henv.told i).snapshot
  · rcases (originRuns_exec hexec).2 with ⟨-, heq⟩ | ⟨_, ⟨-, htold⟩, -⟩
    · rw [heq]
    · exact (htold i (Ne.symm hj)).snapshot

/-- The requests of an operator are made from its own snapshot, whatever the
others do. -/
theorem origin_laws [DecidableEq ι] (i : ι) : SnapshotLaws (Sem.besides originRuns i)
    (fun c y _ _ => c = .getRedkey key .reconcile ∨ (∃ e, c = .metric e) ∨
      ∃ now, c.MadeFor now (y.1.view i).snapshot)
    (fun _ => True) (fun cluster y => (y.1.view i).snapshot = cluster) key where
  quiet := by
    refine ⟨?_, fun e _ _ => Or.inr (Or.inl ⟨e, rfl⟩)⟩
    intro e y x y' hexec
    obtain ⟨hwritten, heq | ⟨_, hserved, -⟩⟩ := originRuns_exec hexec
    · exact Prod.ext heq.2 hwritten
    · exact Prod.ext (replica_metric hserved) hwritten
  idle := fun _ _ _ _ => trivial
  running := fun _ _ _ henv h => (snapshot_besides henv).trans h
  weaken := fun _ _ _ => trivial
  start := by
    intro y x y' _ hexec
    refine ⟨Or.inl rfl, ?_⟩
    cases x with
    | error e => exact tolerating_error.mpr ⟨fun _ => trivial, fun _ => trivial⟩
    | ok cluster =>
        obtain ⟨-, ⟨hlost, -⟩ | ⟨x₀, ⟨⟨l, -, rfl, hview⟩, -⟩, hx⟩⟩ := originRuns_exec hexec
        · cases hlost
        · -- an answer that arrives is the one that was given
          rcases hx with hlost | hok
          · cases hlost
          · cases hok
            show (y'.1.view i).snapshot = l.head
            rw [hview]
            rfl
  call := by
    rintro now _ c y x y' hc rfl hexec
    refine ⟨Or.inr (Or.inr ⟨now, hc⟩), ?_⟩
    rcases (originRuns_exec hexec).2 with ⟨-, heq⟩ | ⟨_, ⟨hview, -⟩, -⟩
    · rw [heq]
    · exact hc.snapshot_eq hview

/-- Configs are created, and not forgotten. -/
theorem View.mem_created {v v' : View} (h : View.exec c v x v') {e : RedkeyConfig}
    (he : e ∈ v.created) : e ∈ v'.created := by
  cases c with
  | getRedkey k site =>
      obtain ⟨l, -, -, rfl⟩ := h
      cases site <;> exact he
  | updateRedkeyStatus written =>
      obtain ⟨-, rfl⟩ := h
      split <;> exact he
  | listConfigs ns label value site =>
      obtain ⟨l, items, -, -, -, rfl⟩ := h
      exact he
  | createConfig config =>
      obtain rfl : v' = _ := congrArg Prod.snd h
      cases Configs.create v.configs.live config with
      | ok L => exact List.mem_append_left _ he
      | error _ => exact he
  | deleteConfig k =>
      obtain rfl : v' = _ := congrArg Prod.snd h
      cases Configs.delete v.configs.live k with
      | ok L => exact List.mem_append_left _ he
      | error _ => exact he
  | _ =>
      obtain rfl : v' = v := h
      exact he

/-- What one operator did is news to another. Its cache is as it was, with the
new versions at the end. -/
theorem Provenance.told {s s' : Replicas ι} {i j : ι} {written : List Redkey}
    (h : Provenance (s.view j) written) (h' : Provenance (s'.view i) written) (htold : s.Told s' j)
    (hcreated : ∀ e ∈ s.created, e ∈ s'.created) : Provenance (s'.view j) written := by
  refine { h' with versions := ?_, snapshot := htold.snapshot ▸ h.snapshot, stored := ?_ }
  · intro r hr
    rcases htold.redkey.mem hr with hold | rfl
    · exact h.versions r hold
    · exact h'.versions _ Lag.live_mem
  · intro L hL c hc
    rcases htold.configs.mem hL with hold | rfl
    · obtain ⟨e, he, hsame⟩ := h.stored L hold c hc
      exact ⟨e, hcreated e he, hsame⟩
    · exact h'.stored _ Lag.live_mem c hc

/-- Everything that any of the operators can see comes from the user. -/
def SharedProvenance (y : Replicas ι × List Redkey) : Prop :=
  ∀ i, Provenance (y.1.view i) y.2

/-- A step of the user or of Robin. -/
theorem SharedProvenance.env (h : SharedProvenance y) (henv : (originRuns i).env y y') :
    SharedProvenance y' := by
  obtain ⟨⟨hadmitted, hstep⟩, hwritten⟩ := henv
  have hwritten : y'.2 = noteVersion y'.1.redkey y.2 := hwritten
  intro j
  rw [hwritten]
  rcases hstep.view j with hview | hview
  · have hredkey : y'.1.redkey = y.1.redkey := congrArg (fun v => v.redkey.live) hview
    -- nothing has happened to this operator
    have hold : noteVersion y.1.redkey y.2 = y.2 := (h j).noteVersion_live
    rw [hview, hredkey, hold]
    exact h j
  · exact (h j).env hview hadmitted

theorem SharedProvenance.exec [DecidableEq ι] (h : SharedProvenance y)
    (hc : c = .getRedkey key .reconcile ∨ (∃ e, c = .metric e) ∨
      ∃ now, c.MadeFor now (y.1.view i).snapshot)
    (hexec : (originRuns i).exec c y x y') : SharedProvenance y' := by
  obtain ⟨hwritten, ⟨-, heq⟩ | ⟨x₀, ⟨hview, htold⟩, -⟩⟩ := originRuns_exec hexec
  · intro j
    rw [heq, hwritten]
    exact h j
  · -- first the operator whose request it is, then the others
    have hown : Provenance (y'.1.view i) y.2 := by
      rcases hc with rfl | ⟨e, rfl⟩ | ⟨now, hmade⟩
      · obtain ⟨l, hl, -, hread⟩ := hview
        rw [hread]
        exact (h i).read hl .reconcile
      · have hsame : y'.1.view i = y.1.view i := hview
        rw [hsame]
        exact h i
      · exact (h i).exec hmade hview
    intro j
    rw [hwritten]
    by_cases hj : j = i
    · exact hj ▸ hown
    · exact (h j).told hown (htold j hj) fun e he => View.mem_created hview he

/-- The operators start on a Redkey that was just created, with a valid
spec. -/
structure Replicas.JustCreated (key : NamespacedName) (y : Replicas ι × List Redkey) : Prop where
  init : ∀ i, (y.1.view i).Init key
  valid : y.1.redkey.spec.valid = true
  written : y.2 = [y.1.redkey]

theorem Replicas.JustCreated.provenance (h : Replicas.JustCreated key y) : SharedProvenance y := by
  intro i
  have hredkey : y.1.redkey = (y.1.view i).snapshot :=
    congrArg Lag.live (h.init i).redkey
  have hvalid := h.valid
  rw [h.written, hredkey]
  rw [hredkey] at hvalid
  exact .init (h.init i) hvalid

end Origin

/-- However many operators there are, every config that any of them ever
created is the snapshot of one version that the user wrote, with a valid spec;
all of them agree on what cannot be changed. -/
theorem operators_share_origin [DecidableEq ι] [Nonempty ι] (key : NamespacedName) (workers : ℕ)
    {m : Pool ι Call Resp (Except Err Result) (Replicas ι × List Redkey)}
    (hm : Pool.Reachable originRuns (fun _ => Reconciles key) workers (Replicas.JustCreated key)
      m) :
    (∀ c ∈ m.shared.1.created, ∃ u ∈ m.shared.2, c.generation? = some u.generation ∧
      u.spec.valid = true ∧ ∃ highest, c = newConfig u highest) ∧
    (∀ c ∈ m.shared.1.configs, ∃ e ∈ m.shared.1.created, c.Same e) ∧
    ∀ c ∈ m.shared.1.created, ∀ d ∈ m.shared.1.created,
      c.spec.mode = d.spec.mode ∧ c.spec.ephemeral = d.spec.ephemeral ∧
      c.spec.storage = d.spec.storage ∧ c.spec.storageClassName = d.spec.storageClassName := by
  have hall : SharedProvenance m.shared := by
    refine hm.invariant (P := fun i c y => c = .getRedkey key .reconcile ∨ (∃ e, c = .metric e) ∨
      ∃ now, c.MadeFor now (y.1.view i).snapshot) (fun _ hy => hy.provenance)
      (fun _ _ _ henv h => h.env henv) ?_ (fun _ _ _ _ _ hc h hexec => h.exec hc hexec)
    -- the request might be lost, so it can be made at any rate
    intro i y c k hcall _
    have hlost : (originRuns i).exec c y (lost c) y := ⟨Or.inr ⟨rfl, Or.inl rfl⟩, rfl⟩
    exact (origin_laws i).reachable_call (fun _ _ => trivial) hcall hlost
  obtain ⟨i⟩ := ‹Nonempty ι›
  exact (hall i).origin

/-! ## The record of the last applied topology -/

/-- The configs that are Applied on the server. -/
def Replicas.applied (s : Replicas ι) : List RedkeyConfig :=
  s.configs.filter fun c => c.status.configPhase = .applied

/-- Runs in which any request may be lost and no edit changes `ephemeral`,
with the configs that were Applied at some time. -/
def keptRuns (i : ι) : Sem Call Resp (Replicas ι × List RedkeyConfig) :=
  (((replica i).guarded (fun _ _ _ => True) fun s s' =>
    s'.redkey.spec.ephemeral = s.redkey.spec.ephemeral).lossy lost).withHistory
      (fun s applied => applied ++ s.applied) fun _ _ s applied => applied ++ s.applied

section Record

variable {i : ι} {c : Call} {x : Resp c} {key : NamespacedName}

theorem Redkey.UpTo.step {l l' : Lag Redkey} {r : Redkey} (h : View.RedkeyStep l c l')
    (hr : r.UpTo l.live) : r.UpTo l'.live := by
  cases h with
  | same => exact hr
  | read hread => exact hread.1 ▸ hr
  | write hstored =>
      obtain ⟨-, rfl⟩ := Redkey.writeStatus_ok hstored
      exact hr.newer (Nat.lt_succ_self _) rfl

/-- What one operator did is news to another. -/
theorem Recorded.told {s s' : Replicas ι} {i j : ι} {applied applied' : List RedkeyConfig}
    {m m' : Memory} (h : Recorded (s.view j) applied m) (h' : Recorded (s'.view i) applied' m')
    (htold : s.Told s' j) (hsub : ∀ c ∈ applied, c ∈ applied')
    (hlive : ∀ r : Redkey, r.UpTo s.redkey → r.UpTo s'.redkey) :
    Recorded (s'.view j) applied' m := by
  refine { h' with versions := ?_, snapshot := ?_, redkeys := ?_, listable := ?_, configs := ?_ }
  · intro r hr
    rcases htold.redkey.mem hr with hold | rfl
    · exact hlive r (h.versions r hold)
    · exact Redkey.UpTo.refl _
  · exact fun r hr => hlive r (h.snapshot r hr)
  · exact fun r hr => hlive r (h.redkeys r hr)
  · intro L hL d hd happ
    rcases htold.configs.mem hL with hold | rfl
    · exact hsub d (h.listable L hold d hd happ)
    · exact h'.listable _ Lag.live_mem d hd happ
  · exact fun d hd happ => hsub d (h.configs d hd happ)

/-- A lost reply tells nothing. -/
theorem knows_lost (live : Redkey) (applied : List RedkeyConfig) (c : Call) :
    Knows live applied c (lost c) := by
  cases c <;> trivial

/-- A record is not cleared. -/
def Replicas.KeepsRecord (s s' : Replicas ι) : Prop :=
  s.redkey.status.lastAppliedPrimaries ≠ 0 → s'.redkey.status.lastAppliedPrimaries ≠ 0

variable {y y' : (Replicas ι × List RedkeyConfig) × (ι → Memory)}

/-- What each of the operators has read is on record, and so is what was
Applied. -/
def SharedRecord (y : (Replicas ι × List RedkeyConfig) × (ι → Memory)) : Prop :=
  ∀ i, Recorded (y.1.1.view i) y.1.2 (y.2 i)

/-- A request of one of the operators, as it looks to that operator. -/
theorem SharedRecord.own (h : SharedRecord y) (hallows : (y.2 i).Allows c)
    (hexec : (keptRuns i).exec c y.1 x y'.1) :
    Recorded (y'.1.1.view i) y'.1.2 ((y.2 i).note c x) ∧ y.1.1.KeepsRecord y'.1.1 := by
  obtain ⟨hcall, happlied⟩ := hexec
  rw [happlied]
  rcases Sem.exec_of_lossy_guarded hcall with ⟨rfl, heq⟩ | ⟨x₀, ⟨hview, -⟩, hx⟩
  · rw [heq]
    exact ⟨((h i).mono fun d hd => List.mem_append_left _ hd).note (knows_lost _ _ _), id⟩
  · obtain ⟨hrec, hkeeps, hknows⟩ := (h i).exec hallows hview
    refine ⟨?_, hkeeps⟩
    rcases hx with rfl | rfl
    · exact hrec.note (knows_lost _ _ _)
    · exact hrec.note hknows

variable [DecidableEq ι]

/-- The runs with what each of the operators has read. -/
def recallingRuns (i : ι) : Sem Call Resp ((Replicas ι × List RedkeyConfig) × (ι → Memory)) :=
  (keptRuns i).withHistory (fun _ m => m) fun c x _ m =>
    Function.update m i ((m i).note c x)

theorem recalling_projects (i : ι) :
    Sem.Projects (fun y => y.2 i) (Sem.besides recallingRuns i) (Sem.remembering Memory.note) where
  env y y' := by
    rintro (⟨j, -, hmem⟩ | ⟨j, c, x, hj, -, hmem⟩)
    · exact congrFun hmem i
    · exact (congrFun hmem i).trans (Function.update_of_ne (Ne.symm hj) _ _)
  exec c y x y' h := (congrFun h.2 i).trans (Function.update_self _ _ _)

/-- A step of the user or of Robin. -/
theorem SharedRecord.env [Nonempty ι] (h : SharedRecord y) (henv : (recallingRuns i).env y y') :
    SharedRecord y' ∧ y.1.1.KeepsRecord y'.1.1 := by
  obtain ⟨⟨⟨heph, hstep⟩, happlied⟩, hmem⟩ := henv
  have hboth : ∀ j, Recorded (y'.1.1.view j) (y.1.2 ++ y'.1.1.applied) (y.2 j) ∧
      y.1.1.KeepsRecord y'.1.1 := by
    intro j
    rcases hstep.view j with hview | hview
    · refine ⟨?_, ?_⟩
      · rw [hview]
        exact (h j).mono fun d hd => List.mem_append_left _ hd
      · have hredkey : y'.1.1.redkey = y.1.1.redkey := congrArg (fun v => v.redkey.live) hview
        rw [Replicas.KeepsRecord, hredkey]
        exact id
    · exact (h j).env hview heph
  refine ⟨?_, ?_⟩
  · intro j
    rw [happlied, hmem]
    exact (hboth j).1
  · obtain ⟨j⟩ := ‹Nonempty ι›
    exact (hboth j).2

/-- A request of one of the operators: to itself as if it were alone, to the
others as news. -/
theorem SharedRecord.exec (h : SharedRecord y) (hallows : (y.2 i).Allows c)
    (hexec : (recallingRuns i).exec c y x y') :
    SharedRecord y' ∧ y.1.1.KeepsRecord y'.1.1 := by
  obtain ⟨hcall, hmem⟩ := hexec
  have hmem : y'.2 = Function.update y.2 i ((y.2 i).note c x) := hmem
  obtain ⟨hown, hkeeps⟩ := h.own hallows hcall
  refine ⟨?_, hkeeps⟩
  intro j
  rw [hmem]
  by_cases hj : j = i
  · subst hj
    rw [Function.update_self]
    exact hown
  · rw [Function.update_of_ne hj]
    obtain ⟨hcall, happlied⟩ := hcall
    have hsub : ∀ d ∈ y.1.2, d ∈ y'.1.2 := by
      intro d hd
      rw [happlied]
      exact List.mem_append_left _ hd
    rcases Sem.exec_of_lossy_guarded hcall with ⟨-, heq⟩ | ⟨x₀, ⟨hview, htold⟩, -⟩
    · rw [heq]
      exact (h j).mono hsub
    · exact (h j).told hown (htold j hj) hsub fun r hr => hr.step (View.redkeyStep hview)

/-- The operators start on a Redkey without configs and without a record. -/
structure Replicas.NothingRecorded (key : NamespacedName) (y : Replicas ι × List RedkeyConfig) :
    Prop where
  init : ∀ i, (y.1.view i).Init key
  unrecorded : y.1.redkey.status.Unrecorded
  history : y.2 = []

/-- Every run keeps the invariant, and the record. -/
theorem SharedRecord.steps [Nonempty ι] {workers : ℕ}
    {init : (Replicas ι × List RedkeyConfig) × (ι → Memory) → Prop}
    {m m' : Pool ι Call Resp (Except Err Result)
      ((Replicas ι × List RedkeyConfig) × (ι → Memory))}
    (hm : Pool.Reachable recallingRuns (fun _ => Reconciles key) workers init m)
    (hrun : ReflTransGen (Pool.Step recallingRuns (fun _ => Reconciles key) workers) m m')
    (h : SharedRecord m.shared) :
    SharedRecord m'.shared ∧ m.shared.1.1.KeepsRecord m'.shared.1.1 := by
  refine Pool.Reachable.steps (D := fun y y' => SharedRecord y →
      SharedRecord y' ∧ y.1.1.KeepsRecord y'.1.1) (P := fun i c y => (y.2 i).Allows c)
    (fun _ h => ⟨h, id⟩) ?_ (fun _ _ _ henv h => h.env henv) ?_
    (fun _ _ _ _ _ hallows hexec h => h.exec hallows hexec) hm hrun h
  · intro y₁ y₂ y₃ h₁₂ h₂₃ h
    obtain ⟨h₂, hkeeps⟩ := h₁₂ h
    obtain ⟨h₃, hkeeps'⟩ := h₂₃ h₂
    exact ⟨h₃, fun hne => hkeeps' (hkeeps hne)⟩
  · -- an operator writes what follows from its own reads
    intro i y c k hcall x
    exact Reachable.recalls (recalling_projects i) (fun _ hp => reconcile_writes hp) hcall x

end Record

/-- However many operators there are, the recorded topology is that of one
config that has been Applied; a record is never cleared, and a cluster without
storage has none. -/
theorem operators_keep_record [DecidableEq ι] [Nonempty ι] (key : NamespacedName) (workers : ℕ)
    {y : Replicas ι × List RedkeyConfig} {ts : ι → Option (Rec Result)}
    (hm : Pool.Reachable keptRuns (fun _ => Reconciles key) workers (Replicas.NothingRecorded key)
      ⟨y, ts⟩) :
    y.1.redkey.status.RecordOf y.2 ∧
      (y.1.redkey.spec.ephemeral = true → y.1.redkey.status.Unrecorded) ∧
      ∀ y' ts', ReflTransGen (Pool.Step keptRuns (fun _ => Reconciles key) workers) ⟨y, ts⟩
        ⟨y', ts'⟩ → y.1.KeepsRecord y'.1 := by
  have hmem : ∃ m, Pool.Reachable recallingRuns (fun _ => Reconciles key) workers
      (fun x => Replicas.NothingRecorded key x.1 ∧ x.2 = fun _ => {}) ⟨(y, m), ts⟩ :=
    hm.withHistory (fun _ : ι => ({} : Memory))
  obtain ⟨m, hmem⟩ := hmem
  -- the run so far, from nothing on record
  have hrec : SharedRecord (y, m) := by
    obtain ⟨⟨y₀, m₀⟩, ⟨hinit, rfl⟩, hrun⟩ := hmem
    have hidle : Pool.Reachable recallingRuns (fun _ => Reconciles key) workers (fun _ => True)
        (⟨(y₀, fun _ => {}), fun _ => none⟩ : Pool ι Call Resp (Except Err Result) _) :=
      ⟨_, trivial, .refl⟩
    refine (SharedRecord.steps hidle hrun ?_).1
    intro i
    rw [hinit.history]
    exact Recorded.init (hinit.init i) hinit.unrecorded
  obtain ⟨i⟩ := ‹Nonempty ι›
  refine ⟨(hrec i).record, (hrec i).ephemeral, ?_⟩
  -- and the run from here on
  intro y' ts' hrun
  have hrun' : ∃ m', ReflTransGen (Pool.Step recallingRuns (fun _ => Reconciles key) workers)
      ⟨(y, m), ts⟩ ⟨(y', m'), ts'⟩ := Pool.steps_withHistory hrun m
  obtain ⟨m', hrun'⟩ := hrun'
  have : Nonempty ι := ⟨i⟩
  exact (SharedRecord.steps hmem hrun' hrec).2

end RedkeyOperator
