import RedkeyOperator.Controller.Rules
import RedkeyOperator.Controller.Lemmas
import RedkeyOperator.Lib.History

/-!
# What a reconcile writes to the status

A reconcile has two status writers, and what they write is a function of what the reconcile has
read: the Redkey it started from, the ones it read again, and the configs it listed (`Memory`).
`reconcile_writes` says so for any semantics of the calls; what is known about the things read
carries over to what is written.
-/

namespace RedkeyOperator

open Interleaved Interleaved.Op

/-- What the running reconcile has read. It is filled by the answers to its
own requests, so it is the same in every system. -/
structure Memory where
  snapshot : Option Redkey := none
  /-- The Redkeys that were read again for a status write. -/
  redkeys : List Redkey := []
  configs : List RedkeyConfig := []
  /-- The last answer to `listConfigs`. -/
  listed : Option (List RedkeyConfig) := none

/-- A reconcile starts with its first read, which wipes the memory; every
later read adds to it. -/
def Memory.note : (c : Call) → Resp c → Memory → Memory
  -- => the memory of the reconcile before it is gone
  | .getRedkey _ .reconcile, .ok cluster, _ => { snapshot := some cluster }
  | .getRedkey _ .reconcile, .error _, _ => {}
  | .getRedkey _ .aggregateStatus, .ok latest, m => { m with redkeys := m.redkeys ++ [latest] }
  | .listConfigs _ _ _ .listConfigs, .ok items, m =>
      { m with configs := m.configs ++ items, listed := some items }
  | .listConfigs _ _ _ .deleteAllConfigs, .ok items, m => { m with configs := m.configs ++ items }
  | _, _, m => m

/-- There is nothing left to scale down: no config, or the highest one is
Applied and for zero. -/
def ScaledDown (items : List RedkeyConfig) : Prop :=
  items = [] ∨ ∃ c ∈ items, (∀ d ∈ items, d.spec.sequence ≤ c.spec.sequence) ∧
    c.spec.primaries = 0 ∧ c.status.configPhase = .applied

/-- The two status writes: of an active config over a Redkey that was read
again, and of a cluster at zero over the snapshot. -/
inductive Memory.Writes (m : Memory) : Redkey → Prop
  | aggregated {cluster latest : Redkey} {active : RedkeyConfig} {now : Time}
      (hsnapshot : m.snapshot = some cluster) (hlatest : latest ∈ m.redkeys)
      (hactive : active ∈ m.configs) :
      Writes m { latest with status := aggregatedStatus now cluster.generation latest active }
  | scaledToZero {cluster : Redkey} {items : List RedkeyConfig} {now : Time}
      (hsnapshot : m.snapshot = some cluster) (hzero : cluster.spec.primaries = 0)
      (hlisted : m.listed = some items) (hdone : ScaledDown items) :
      Writes m { cluster with status := scaledToZeroStatus now cluster }

/-- A status write is one of the two. -/
def Memory.Allows (m : Memory) : Call → Prop
  | .updateRedkeyStatus written => m.Writes written
  | _ => True

section Writes

variable {cluster : Redkey} {L : List RedkeyConfig} {now : Time} {r : RedkeyReconciler}

/-- A triple about the memory: every status write is allowed. It holds for any
server, as the memory is all there is. -/
abbrev WritesTriple {α : Type} (A : Memory → Prop) (p : Rec α) (Q : α → Memory → Prop) : Prop :=
  Triple (Sem.remembering Memory.note) (fun c m _ _ => m.Allows c) (fun _ => True) A p Q

theorem writes_quiet : Quiet (Sem.remembering Memory.note) fun c m _ _ => m.Allows c where
  state _ _ _ _ h := h
  free _ _ _ := trivial

/-- A call that reads neither the Redkey nor configs. -/
def Call.Unnoted : Call → Prop
  | .getRedkey .. => False
  | .listConfigs .. => False
  | .updateRedkeyStatus _ => False
  | _ => True

theorem Memory.note_unnoted {c : Call} (hc : c.Unnoted) (r : Resp c) (m : Memory) :
    m.note c r = m := by
  cases c with
  | getRedkey _ _ => exact hc.elim
  | listConfigs _ _ _ _ => exact hc.elim
  | _ => rfl

/-- Such calls leave the memory as it is. -/
theorem unnoted_triple {α : Type} {A : Memory → Prop} {p : Rec α}
    {ok : (c : Call) → Resp c → Prop} (hok : ∀ c r, ok c r) (hp : p.Uses ok Call.Unnoted) :
    WritesTriple A p fun _ => A := by
  refine (Triple.of_uses (stable_remembering A) ?_ hp).error fun _ _ => trivial
  rintro c m r _ hc hm rfl
  rw [Memory.note_unnoted hc]
  refine ⟨hok c r, ?_, hm⟩
  cases c with
  | updateRedkeyStatus _ => exact hc.elim
  | _ => trivial

theorem Call.OnRobin.unnoted {c : Call} (h : c.OnRobin fun _ => True) : c.Unnoted := by
  cases c <;> trivial

/-- The parts of a reconcile that deal with Robin's objects write no
status. -/
theorem robin_writes {α : Type} {A : Memory → Prop} {p : Rec α}
    (hp : p.Uses (KeyedReads fun _ => True) (Call.OnRobin fun _ => True)) :
    WritesTriple A p fun _ => A :=
  unnoted_triple keyedReads_true (hp.mono fun _ => Call.OnRobin.unnoted)

/-- The reconcile of `cluster` is running: this is what its first read has
returned. -/
def Started (cluster : Redkey) (m : Memory) : Prop := m.snapshot = some cluster

/-- It has listed the configs, and goes on with some of them. Cleanup may have
dropped the others. -/
structure Lists (cluster : Redkey) (L : List RedkeyConfig) (m : Memory) : Prop where
  snapshot : m.snapshot = some cluster
  configs : ∀ c ∈ L, c ∈ m.configs
  listed : ∃ items, m.listed = some items ∧ ∀ c, c ∈ L ↔ c ∈ items

theorem list_writes : WritesTriple (Started cluster) (listConfigs cluster) fun L m =>
    Lists cluster L m ∧ L.Pairwise fun a b => a.spec.sequence ≤ b.spec.sequence := by
  refine listConfigs_triple (stable_remembering _) ?_
  rintro m r _ hm rfl
  refine ⟨trivial, ?_⟩
  cases r with
  | error e => trivial
  | ok items =>
      have hmem : ∀ c, c ∈ sortBySequence items ↔ c ∈ items :=
        fun c => (perm_sortBySequence items).mem_iff
      have hconfigs : ∀ c ∈ sortBySequence items, c ∈ m.configs ++ items :=
        fun c hc => List.mem_append_right _ ((hmem c).mp hc)
      exact ⟨⟨hm, hconfigs, items, rfl, hmem⟩, sorted_sortBySequence items⟩

theorem create_writes {A : Memory → Prop} {highest : Option RedkeyConfig} :
    WritesTriple A (createNewConfig cluster highest) fun _ => A := by
  refine createNewConfig_triple writes_quiet (stable_remembering _) (stable_remembering _) ?_
  rintro m r _ hm rfl
  refine ⟨trivial, ?_⟩
  cases r with
  | ok _ => exact hm
  | error e => exact tolerating_error.mpr ⟨fun _ => hm, fun _ => trivial⟩

/-- Nor does cleanup, and what it leaves is known when no deletion fails. -/
theorem cleanup_writes {A : Memory → Prop} :
    WritesTriple A (cleanupSupersededConfigs L) fun res m =>
      A m ∧ (res.2 = none → res.1 = afterCleanup L) := by
  refine cleanupSupersededConfigs_triple writes_quiet (stable_remembering _) L ?_
  rintro _ _ _ _ m r _ hm rfl
  exact ⟨trivial, hm⟩

/-- The status of an active config over what was read again. -/
theorem aggregate_writes :
    WritesTriple (fun m => m.snapshot = some cluster ∧ ∀ c ∈ L, c ∈ m.configs)
      (aggregateStatus now cluster L) fun _ _ => True := by
  refine (aggregateStatus_triple (B := fun latest m => m.snapshot = some cluster ∧
    (∀ c ∈ L, c ∈ m.configs) ∧ latest ∈ m.redkeys) (fun _ _ => trivial) (stable_remembering _)
    (fun _ => stable_remembering _) ?_ ?_).post fun _ _ _ => trivial
  · rintro m r _ hm rfl
    refine ⟨trivial, ?_⟩
    cases r with
    | error e => exact hm
    | ok latest => exact ⟨hm.1, hm.2, List.mem_append_right _ List.mem_cons_self⟩
  · rintro active hactive latest m r _ ⟨hsnapshot, hconfigs, hlatest⟩ rfl
    have hmem := (selectActiveConfig_cases hactive).1
    exact ⟨.aggregated hsnapshot hlatest (hconfigs active hmem), hsnapshot, hconfigs⟩

/-- The scaled-to-zero status over the snapshot. -/
theorem zero_writes (hzero : cluster.spec.primaries = 0) :
    WritesTriple (fun m => m.snapshot = some cluster ∧ ∃ items, m.listed = some items ∧
      ScaledDown items) (updateStatusScaledToZero now cluster) fun _ _ => True := by
  refine api_triple (stable_remembering _) ?_
  rintro m r _ ⟨hsnapshot, items, hlisted, hdone⟩ rfl
  refine ⟨.scaledToZero hsnapshot hzero hlisted hdone, ?_⟩
  cases r <;> trivial

/-- The list of `deleteAllConfigs` is not the one that decided. -/
theorem deleteAll_writes {A : Memory → Prop}
    (hA : ∀ m items, A m → A { m with configs := m.configs ++ items }) :
    WritesTriple A (deleteAllConfigs cluster) fun _ => A := by
  refine Triple.bind (Q := fun _ => A) (Triple.request (stable_remembering _) ?_) ?_
  · rintro m r _ hm rfl
    refine ⟨trivial, ?_⟩
    cases r with
    | ok items => exact hA m items hm
    | error e => exact hm
  · intro r
    cases r with
    | error e => exact Triple.throw fun _ _ => trivial
    | ok items =>
        refine deleteConfigs_triple (A := fun _ => A) (fun _ => stable_remembering _) items ?_
        rintro c rest - m r _ hm rfl
        refine ⟨trivial, ?_⟩
        cases r with
        | ok _ => exact hm
        | error e => exact tolerating_error.mpr ⟨fun _ => hm, fun _ => trivial⟩

/-- The highest config of a sorted list. -/
theorem scaledDown_of_getLast {items : List RedkeyConfig} {c : RedkeyConfig}
    (hsorted : L.Pairwise fun a b => a.spec.sequence ≤ b.spec.sequence)
    (hmem : ∀ c, c ∈ L ↔ c ∈ items) (hlast : L.getLast? = some c) (hzero : c.spec.primaries = 0)
    (happlied : c.status.configPhase = .applied) : ScaledDown items := by
  refine Or.inr ⟨c, (hmem c).mp (List.mem_of_getLast? hlast), ?_, hzero, happlied⟩
  intro d hd
  exact sequence_le_getLast hsorted hlast ((hmem d).mpr hd)

/-- The path for zero writes either status, depending on the highest
config. -/
theorem scaleToZero_writes (hzero : cluster.spec.primaries = 0) :
    WritesTriple (Started cluster) (reconcileScaleToZero r now cluster) fun _ _ => True := by
  refine reconcileScaleToZero_triple _ list_writes ?_ ?_ ?_ ?_
  · -- no config
    refine (zero_writes hzero).pre ?_
    rintro m ⟨⟨hsnapshot, -, items, hitems, hmem⟩, -⟩
    have hnone : items = [] := List.eq_nil_iff_forall_not_mem.mpr
      fun c hc => List.not_mem_nil ((hmem c).mpr hc)
    exact ⟨hsnapshot, items, hitems, Or.inl hnone⟩
  · intro L c _ _
    refine Triple.bind (robin_writes (ensureRBAC_uses trivial)) fun _ => ?_
    refine Triple.bind (robin_writes (ensureRobinDeployment_uses trivial)) fun _ => ?_
    exact create_writes.post fun _ _ _ => trivial
  · -- the highest config is Applied and for zero
    intro L c hlast hprimaries happlied
    refine Triple.bind (robin_writes (deleteRobinDeployment_uses trivial)) fun _ => ?_
    refine Triple.bind (robin_writes (deleteRBAC_uses trivial)) fun _ => ?_
    refine Triple.bind (Triple.pre (deleteAll_writes (A := fun m => m.snapshot = some cluster ∧
      ∃ items, m.listed = some items ∧ ScaledDown items) fun _ _ h => h) ?_) fun _ =>
        zero_writes hzero
    rintro m ⟨⟨hsnapshot, -, items, hitems, hmem⟩, hsorted⟩
    have hdone := scaledDown_of_getLast hsorted hmem hlast hprimaries happlied
    exact ⟨hsnapshot, items, hitems, hdone⟩
  · intro L c _ _ _
    refine Triple.bind (robin_writes (ensureRBAC_uses trivial)) fun _ => ?_
    refine Triple.bind (robin_writes (ensureRobinDeployment_uses trivial)) fun _ => ?_
    exact aggregate_writes.pre fun m hm => ⟨hm.1.snapshot, hm.1.configs⟩

/-- The normal path writes the status of an active config. It is one of the
listed ones, as cleanup only drops some of them. -/
theorem configs_writes :
    WritesTriple (Started cluster) (reconcileConfigs r now cluster) fun _ _ => True := by
  refine reconcileConfigs_triple (Lists cluster) (Started cluster) (Lists cluster)
    (fun L m => m.snapshot = some cluster ∧ ∀ c ∈ L, c ∈ m.configs) writes_quiet
    (stable_remembering _) (stable_remembering _) (robin_writes (ensureRBAC_uses trivial))
    (robin_writes (ensureRobinDeployment_uses trivial)) (list_writes.post fun _ _ h => h.1) ?_
    (list_writes.post fun _ _ h => h.1) (fun _ _ _ _ h => h) (fun _ _ => trivial) ?_
    fun _ => aggregate_writes
  · intro L _
    exact create_writes.pre fun m hm => hm.snapshot
  · intro L _
    refine cleanup_writes.post ?_
    rintro ⟨kept, err⟩ m ⟨hm, hkept⟩
    have hlisted : err = none → ∀ c ∈ kept, c ∈ m.configs := by
      intro herr c hc
      obtain rfl : kept = afterCleanup L := hkept herr
      exact hm.configs c (superseded_append_afterCleanup L ▸ List.mem_append_right _ hc)
    exact ⟨fun herr => ⟨hm.snapshot, hlisted herr⟩, fun _ => trivial⟩

/-- Every status write of a reconcile is one of the two. -/
theorem reconcile_writes {key : NamespacedName} {p : Rec Result} (hp : Reconciles key p)
    (m : Memory) : Interleaved.wp (Sem.remembering Memory.note) (fun c m _ _ => m.Allows c)
      (fun _ _ => True) p m := by
  rcases hp with ⟨r, now, rfl⟩
  refine Triple.entry (A := fun _ => True) (reconcile_triple Started writes_quiet
    (stable_remembering _) (stable_remembering _) (stable_remembering _) ?_
    (fun _ hzero => scaleToZero_writes hzero) fun _ _ => configs_writes) trivial
  rintro m r _ - rfl
  refine ⟨trivial, ?_⟩
  cases r with
  | ok cluster => rfl
  | error e => exact tolerating_error.mpr ⟨fun _ => trivial, fun _ => trivial⟩

end Writes

end RedkeyOperator
