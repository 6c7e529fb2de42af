import RedkeyOperator.System.Tracking
import RedkeyOperator.Api.Admission

/-!
# The recorded topology: the system and its invariant

The status of a cluster with storage records the topology that was last applied, so that admission
can demand it back after a scale to zero. The record is made by the reconciles that find an Applied
config with primaries active, and the branch that asks Robin to scale down makes none.

The calls of a reconcile interleave with the edits of a user and the reports of Robin, one call at
a time (`topologyRuns`). The invariant (`OnRecord`) keeps track of the best Applied config with
primaries, also after it was deleted, in the runs in which a user goes to zero only once the
cluster has settled on its spec (`ZeroWhenSettled`). While a reconcile is running, the Redkey it
started from and the list it works on may both be outdated; `StartedFrom`, `Phased` and `Cleaning`
say what still holds of them. This module shows what the single changes of the store do to these.
-/

namespace RedkeyOperator

open Interleaved Interleaved.Op

/-! ## The system -/

/-- Robin takes the configs up in sequence order, from Pending over InProgress
to Applied, and marks one Superseded only when a newer one is waiting. -/
def TakesInTurn (configs : List RedkeyConfig) (c : RedkeyConfig) (status : RedkeyConfigStatus) :
    Prop :=
  -- terminal phases stay, and Applied comes after everything below
  InOrder configs c status ∧
  -- a config is passed over for a newer one that waits
  (status.configPhase = .superseded → c.status.configPhase = .superseded ∨
    ∃ d ∈ configs, c.spec.sequence < d.spec.sequence ∧
      (d.status.configPhase = .unset ∨ d.status.configPhase = .pending)) ∧
  (status.configPhase = .inProgress → ∀ d ∈ configs, d.spec.sequence < c.spec.sequence →
    isTerminalConfigPhase d.status.configPhase = true) ∧
  (status.configPhase = .applied →
    c.status.configPhase = .applied ∨ c.status.configPhase = .inProgress)

/-- The topology of the config is the one on record. -/
def Redkey.Records (live : Redkey) (c : RedkeyConfig) : Prop :=
  live.status.lastAppliedPrimaries = c.spec.primaries ∧
    live.status.lastAppliedReplicasPerPrimary = c.spec.replicasPerPrimary

/-- The config has no primaries, or is terminal, and on record if it is
Applied. -/
def Redkey.Settles (live : Redkey) (c : RedkeyConfig) : Prop :=
  0 < c.spec.primaries → isTerminalConfigPhase c.status.configPhase = true ∧
    (c.status.configPhase = .applied → live.Records c)

/-- The Redkey's generation has its config, and that is the highest one. -/
def Current (key : NamespacedName) (live : Redkey) (w : World) : Prop :=
  ∃ c ∈ w.configsOf key, c.generation? = some live.generation ∧
    ∀ d ∈ w.configsOf key, d.spec.sequence ≤ c.spec.sequence

/-- A user goes to zero only once the cluster has settled on its spec: the
generation has its config, every config with primaries is terminal, and the
Applied ones are on record.

A reconcile that still works on an older spec cannot have created that config,
so no config with primaries is created after such an edit. -/
def ZeroWhenSettled (key : NamespacedName) (w : World) (live : Redkey) (spec : RedkeySpec) : Prop :=
  live.spec.primaries ≠ 0 → spec.primaries = 0 →
    (∀ c ∈ w.configsOf key, live.Settles c) ∧ Current key live w

/-- An edit that is admitted and meets `ok`; a generation is a 64-bit
number. -/
def AdmittedEdit (ok : World → Redkey → RedkeySpec → Prop) (w : World) (live : Redkey)
    (spec : RedkeySpec) : Prop :=
  admitted live spec = true ∧ Decimal.InInt64 (live.generation + 1) ∧ ok w live spec

/-- Admission keeps the storage of a cluster, and its primaries from being
negative. -/
theorem AdmittedEdit.spec {ok : World → Redkey → RedkeySpec → Prop} {w : World} {live : Redkey}
    {spec : RedkeySpec} (h : AdmittedEdit ok w live spec) :
    spec.ephemeral = live.spec.ephemeral ∧ 0 ≤ spec.primaries := by
  have hadmitted := h.1
  simp only [admitted, RedkeySpec.valid, RedkeySpec.keepsImmutable, decide_eq_true_eq]
    at hadmitted
  exact ⟨hadmitted.2.1.2.1, hadmitted.1.1⟩

/-- The world from one teardown to the next: `applied` is what Robin has
marked Applied since the last teardown was completed, and `deleting` says that
the running reconcile tears down and has come to the deletion of the
configs. -/
structure Epoch where
  /-- The store, with what was Applied since the last teardown. -/
  world : World
  /-- The running reconcile is deleting all configs. -/
  deleting : Bool := false

/-- The epoch after a call that leaves the world `w`. A reconcile starts with
its read of the Redkey; it tears down when it lists the configs to delete them
all, and has done so when the status write that follows is accepted. -/
def Epoch.after (deleting : Bool) (w : World) : (c : Call) → Resp c → Epoch
  | .getRedkey _ .reconcile, _ => ⟨w, false⟩
  | .listConfigs _ _ _ .deleteAllConfigs, _ => ⟨w, true⟩
  -- => with this write the teardown is completed, and nothing counts as Applied any more
  | .updateRedkeyStatus _, .ok _ =>
      if deleting then ⟨{ w with applied := [] }, false⟩ else ⟨w, false⟩
  | _, _ => ⟨w, deleting⟩

/-- The operator, a user who makes the admitted edits that meet `ok`, and
Robin. -/
def topology (fill : Deployment → Deployment) (key : NamespacedName)
    (ok : World → Redkey → RedkeySpec → Prop) : Sem Call Resp Epoch where
  env e e' := World.Env key (AdmittedEdit ok) TakesInTurn e.world e'.world ∧
    e'.deleting = e.deleting
  exec c e r e' := ∃ w, World.exec fill c e.world r w ∧ e' = .after e.deleting w c r

/-- The status write of a teardown is accepted: nobody has changed the Redkey
since the reconcile read it. -/
def Epoch.Completes (e : Epoch) : (c : Call) → Resp c → Prop
  | .updateRedkeyStatus _, r => e.deleting = true → ∃ stored, r = .ok stored
  | _, _ => True

/-- The runs in which no edit comes in between the read and the status write
of a teardown. -/
def topologyRuns (fill : Deployment → Deployment) (key : NamespacedName)
    (ok : World → Redkey → RedkeySpec → Prop) : Sem Call Resp Epoch :=
  (topology fill key ok).guarded (fun c e r => e.Completes c r) fun _ _ => True

/-- The start: a cluster with storage and without configs. Its spec and its
generation are such as the server admits. -/
structure Unapplied (key : NamespacedName) (e : Epoch) : Prop where
  /-- The objects are stored under their own keys. -/
  formed : e.world.Formed key
  /-- The Redkey is there, and it is not ephemeral. -/
  live : ∃ live, e.world.store.redkeys key = some live ∧ live.spec.ephemeral = false ∧
    0 ≤ live.spec.primaries ∧ Decimal.InInt64 live.generation
  configs : e.world.configsOf key = []
  applied : e.world.applied = []

/-- The highest config with primaries among the Applied ones. It is the one
that admission has to demand back. -/
def Best (applied : List RedkeyConfig) (b : RedkeyConfig) : Prop :=
  b ∈ applied ∧ 0 < b.spec.primaries ∧
    ∀ d ∈ applied, 0 < d.spec.primaries → d.spec.sequence ≤ b.spec.sequence

/-! ## The invariant -/

/-- Every config is settled, and the best one that was Applied is on
record. -/
structure Rested (key : NamespacedName) (live : Redkey) (w : World) : Prop where
  /-- None of the configs has anything left to record. -/
  settled : ∀ c ∈ w.configsOf key, live.Settles c
  /-- This holds even if the best one has been deleted. -/
  best : ∀ b, Best w.applied b → live.Records b

/-- What holds between two reconciles, and in the middle of one. The history
of Applied configs is compared with the store, since cleanup may have deleted
some of them. -/
structure OnRecord (key : NamespacedName) (live : Redkey) (w : World) : Prop where
  /-- The objects are stored under their own keys. -/
  formed : w.Formed key
  stored : w.store.redkeys key = some live
  /-- It keeps its data, as the record is only made then. -/
  persistent : live.spec.ephemeral = false
  primaries : 0 ≤ live.spec.primaries
  ranged : Decimal.InInt64 live.generation
  /-- Configs get their primaries from admitted specs. -/
  nonneg : ∀ c ∈ w.configsOf key, 0 ≤ c.spec.primaries
  /-- Generations come from earlier versions of the Redkey. -/
  behind : ∀ c ∈ w.configsOf key, ∀ g, c.generation? = some g → g ≤ live.generation
  /-- A config in the history that is still stored is as it was. -/
  same : ∀ b ∈ w.applied, ∀ c ∈ w.configsOf key, c.spec.sequence = b.spec.sequence →
    c.spec = b.spec ∧ c.status.configPhase = .applied
  /-- Nothing below an Applied config is waiting. -/
  ordered : ∀ b ∈ w.applied, ∀ c ∈ w.configsOf key, c.spec.sequence < b.spec.sequence →
    isTerminalConfigPhase c.status.configPhase = true
  /-- Every Applied config is in the history. -/
  logged : ∀ c ∈ w.configsOf key, c.status.configPhase = .applied →
    ∃ b ∈ w.applied, c.spec.sequence = b.spec.sequence
  /-- Cleanup keeps one that is at least as high. -/
  covered : ∀ b ∈ w.applied, ∃ c ∈ w.configsOf key, c.status.configPhase = .applied ∧
    b.spec.sequence ≤ c.spec.sequence
  pruned : ∀ b ∈ w.applied, (∃ c ∈ w.configsOf key, c.spec.sequence = b.spec.sequence) ∨
    ∀ c ∈ w.configsOf key, b.spec.sequence < c.spec.sequence
  /-- The best one is still stored or on record. -/
  best : ∀ b, Best w.applied b → live.Records b ∨
    ∃ c ∈ w.configsOf key, c.status.configPhase = .applied ∧ c.spec.sequence = b.spec.sequence
  /-- Below a config for zero everything is terminal, and the best one on
  record. -/
  zeroed : ∀ z ∈ w.configsOf key, z.spec.primaries = 0 → ∀ c ∈ w.configsOf key,
    c.spec.sequence < z.spec.sequence → 0 < c.spec.primaries →
    isTerminalConfigPhase c.status.configPhase = true ∧
      ∀ b, Best w.applied b → c.spec.sequence = b.spec.sequence → live.Records b
  /-- Once the user has asked for zero, everything is settled. -/
  asleep : live.spec.primaries = 0 → Rested key live w

section Reports

variable {key : NamespacedName} {live : Redkey} {w : World} {c t : RedkeyConfig}

/-- A report changes the phase of no terminal config. -/
theorem phase_of_terminal {status : RedkeyConfigStatus} {c' : RedkeyConfig}
    (hreport : InOrder (w.configsOf key) t status)
    (hstatus : c' = c ∨ c = t ∧ c'.status = status)
    (hterminal : isTerminalConfigPhase c.status.configPhase = true) :
    c'.status.configPhase = c.status.configPhase := by
  rcases hstatus with rfl | ⟨rfl, hnew⟩
  · rfl
  · rw [hnew]
    exact hreport.1 hterminal

/-- A config that becomes Applied was not terminal. -/
theorem not_terminal_of_newly {status : RedkeyConfigStatus}
    (hreport : InOrder (w.configsOf key) t status) (hbefore : t.status.configPhase ≠ .applied)
    (hafter : status.configPhase = .applied) :
    isTerminalConfigPhase t.status.configPhase = false := by
  by_contra hterminal
  rw [Bool.not_eq_false] at hterminal
  exact hbefore ((hreport.1 hterminal).symm.trans hafter)

theorem Redkey.Settles.robinWrite {status : RedkeyConfigStatus} {c' : RedkeyConfig}
    (hsettles : live.Settles c) (hreport : InOrder (w.configsOf key) t status)
    (hspec : c'.spec = c.spec) (hstatus : c' = c ∨ c = t ∧ c'.status = status) :
    live.Settles c' := by
  intro hpos
  rw [hspec] at hpos
  obtain ⟨hterminal, hrecords⟩ := hsettles hpos
  have hphase := phase_of_terminal hreport hstatus hterminal
  unfold Redkey.Records at hrecords ⊢
  rw [hphase, hspec]
  exact ⟨hterminal, hrecords⟩

/-- What is best after a report was best before, unless it has just become
Applied. -/
theorem Best.before {status : RedkeyConfigStatus} {k : NamespacedName} {b : RedkeyConfig}
    (hb : Best (w.robinWrite k status).applied b) (hold : b ∈ w.applied) : Best w.applied b :=
  ⟨hold, hb.2.1, fun d hd => hb.2.2 d (List.mem_append_left _ hd)⟩

theorem RedkeyConfig.generation?_congr {d : RedkeyConfig} (h : c.metadata = d.metadata) :
    c.generation? = d.generation? := by
  simp [RedkeyConfig.generation?, h]

/-- A report leaves the highest config, and its generation, as they are. -/
theorem Current.robinWrite (h : Current key live w) (hw : w.Formed key)
    {status : RedkeyConfigStatus} (ht : t ∈ w.configsOf key) :
    Current key live (w.robinWrite t.key status) := by
  obtain ⟨c, hc, hgen, hhighest⟩ := h
  obtain ⟨c', hc', hspec, -⟩ := hw.exists_robinWrite status ht hc
  obtain ⟨c₀, hc₀, hmeta, hspec₀, -⟩ := hw.mem_robinWrite ht hc'
  -- of one sequence there is one config, before the report and after
  obtain rfl : c₀ = c := hw.eq_of_sequence hc₀ hc (by rw [← hspec₀, hspec])
  refine ⟨c', hc', (RedkeyConfig.generation?_congr hmeta).trans hgen, ?_⟩
  intro d hd
  obtain ⟨d₀, hd₀, -, hspec', -⟩ := hw.mem_robinWrite ht hd
  rw [hspec', hspec]
  exact hhighest d₀ hd₀

end Reports

namespace Rested

variable {key : NamespacedName} {live live' : Redkey} {w : World} {t : RedkeyConfig}

/-- Only the record matters, not the rest of the Redkey. -/
theorem congr (h : Rested key live w) (hrecord : ∀ b, live'.Records b ↔ live.Records b) :
    Rested key live' w where
  settled c hc hpos := by
    obtain ⟨hterminal, hrecords⟩ := h.settled c hc hpos
    exact ⟨hterminal, fun happlied => (hrecord c).mpr (hrecords happlied)⟩
  best b hb := (hrecord b).mpr (h.best b hb)

theorem robinWrite (h : Rested key live w) (hw : w.Formed key) {status : RedkeyConfigStatus}
    (ht : t ∈ w.configsOf key) (hreport : InOrder (w.configsOf key) t status) :
    Rested key live (w.robinWrite t.key status) where
  settled c hc := by
    obtain ⟨c₀, hc₀, -, hspec, hstatus⟩ := hw.mem_robinWrite ht hc
    exact (h.settled c₀ hc₀).robinWrite hreport hspec hstatus
  best b hb := by
    rcases hw.mem_applied_robinWrite ht hb.1 with hold | ⟨hbspec, hbefore, hafter⟩
    · exact h.best b (hb.before hold)
    · have hterminal := (h.settled t ht (hbspec ▸ hb.2.1)).1
      rw [not_terminal_of_newly hreport hbefore hafter] at hterminal
      cases hterminal

/-- Deletions leave the rest settled. The history is not touched by them. -/
theorem eraseConfig (h : Rested key live w) (k : NamespacedName) :
    Rested key live (w.eraseConfig k) :=
  ⟨fun c hc => h.settled c (mem_configsOf_eraseConfig.mp hc).1, h.best⟩

end Rested

namespace OnRecord

variable {key : NamespacedName} {live : Redkey} {w : World} {b c t : RedkeyConfig}

theorem init {e : Epoch} (h : Unapplied key e) : ∃ live, OnRecord key live e.world := by
  obtain ⟨live, hlive, hpersistent, hprimaries, hranged⟩ := h.live
  have hnone : ∀ c, c ∉ e.world.configsOf key := by simp [h.configs]
  have hfresh : ∀ b, b ∉ e.world.applied := by simp [h.applied]
  refine ⟨live, ?_⟩
  exact {
    formed := h.formed
    stored := hlive
    persistent := hpersistent
    primaries := hprimaries
    ranged := hranged
    nonneg := fun c hc => absurd hc (hnone c)
    behind := fun c hc => absurd hc (hnone c)
    same := fun b hb => absurd hb (hfresh b)
    ordered := fun b hb => absurd hb (hfresh b)
    logged := fun c hc => absurd hc (hnone c)
    covered := fun b hb => absurd hb (hfresh b)
    pruned := fun b hb => absurd hb (hfresh b)
    best := fun b hb => absurd hb.1 (hfresh b)
    zeroed := fun z hz => absurd hz (hnone z)
    asleep := fun _ => ⟨fun c hc => absurd hc (hnone c), fun b hb => absurd hb.1 (hfresh b)⟩ }

/-- Applied configs of one sequence are one config. -/
theorem records_of_sequence (h : OnRecord key live w) (hb : b ∈ w.applied)
    (hc : c ∈ w.configsOf key) (hseq : c.spec.sequence = b.spec.sequence) {live' : Redkey} :
    live'.Records b ↔ live'.Records c := by
  unfold Redkey.Records
  rw [(h.same b hb c hc hseq).1]

/-- The best Applied config is on record once all configs are settled. -/
theorem best_records (h : OnRecord key live w) (hsettled : ∀ c ∈ w.configsOf key, live.Settles c)
    (hb : Best w.applied b) : live.Records b := by
  rcases h.best b hb with hrecords | ⟨c, hc, happlied, hseq⟩
  · exact hrecords
  · have hpos : 0 < c.spec.primaries := (h.same b hb.1 c hc hseq).1 ▸ hb.2.1
    exact (h.records_of_sequence hb.1 hc hseq).mpr ((hsettled c hc hpos).2 happlied)

/-- Everything is settled once the user may go to zero. -/
theorem rested (h : OnRecord key live w) (hsettled : ∀ c ∈ w.configsOf key, live.Settles c) :
    Rested key live w :=
  ⟨hsettled, fun _ hb => h.best_records hsettled hb⟩

theorem setRedkey (h : OnRecord key live w) {live' : Redkey} (hkey : live'.key = key)
    (hpersistent : live'.spec.ephemeral = false) (hprimaries : 0 ≤ live'.spec.primaries)
    (hranged : Decimal.InInt64 live'.generation) (hlater : live.generation ≤ live'.generation)
    (hrecord : ∀ b, live'.Records b ↔ live.Records b)
    (hasleep : live'.spec.primaries = 0 → Rested key live w) :
    OnRecord key live' (w.setRedkey key live') :=
  { h with
    formed := h.formed.setRedkey hkey
    stored := Store.setRedkey_redkeys_self _ _ _
    persistent := hpersistent
    primaries := hprimaries
    ranged := hranged
    behind := fun c hc g hg => (h.behind c hc g hg).trans hlater
    best := fun b hb => (h.best b hb).imp_left (hrecord b).mpr
    zeroed := fun z hz hzero c hc hlt hpos => by
      obtain ⟨hterminal, hbest⟩ := h.zeroed z hz hzero c hc hlt hpos
      exact ⟨hterminal, fun b hb hseq => (hrecord b).mpr (hbest b hb hseq)⟩
    asleep := fun hzero => by
      have hrested := (hasleep hzero).congr hrecord
      exact ⟨hrested.settled, hrested.best⟩ }

/-- An edit leaves the record alone, and goes to zero only when everything is
settled. -/
theorem edit (h : OnRecord key live w) {spec : RedkeySpec}
    (hedit : AdmittedEdit (ZeroWhenSettled key) w live spec) :
    OnRecord key (live.edit spec) (w.setRedkey key (live.edit spec)) := by
  obtain ⟨hephemeral, hnonneg⟩ := hedit.spec
  obtain ⟨-, hranged, hok⟩ := hedit
  have hrested : spec.primaries = 0 → Rested key live w := by
    intro hzero
    by_cases hwas : live.spec.primaries = 0
    · exact h.asleep hwas
    · exact h.rested (hok hwas hzero).1
  have hpersistent : spec.ephemeral = false := hephemeral.trans h.persistent
  exact h.setRedkey (h.formed.keyed live h.stored) hpersistent hnonneg hranged
    (Int.lt_succ _).le (fun _ => Iff.rfl) hrested

/-- An Applied config stays where it is. -/
theorem exists_applied_robinWrite (h : OnRecord key live w) {status : RedkeyConfigStatus}
    (ht : t ∈ w.configsOf key) (hreport : InOrder (w.configsOf key) t status)
    (hc : c ∈ w.configsOf key) (happlied : c.status.configPhase = .applied) :
    ∃ c' ∈ (w.robinWrite t.key status).configsOf key, c'.status.configPhase = .applied ∧
      c'.spec.sequence = c.spec.sequence := by
  obtain ⟨c', hc', hspec, hstatus⟩ := h.formed.exists_robinWrite status ht hc
  have hphase := phase_of_terminal hreport (hstatus.imp_left And.left)
    (by simp [isTerminalConfigPhase, happlied])
  exact ⟨c', hc', hphase.trans happlied, by rw [hspec]⟩

/-- A config that becomes Applied is in the store. -/
theorem exists_newly_robinWrite (h : OnRecord key live w) {status : RedkeyConfigStatus}
    (ht : t ∈ w.configsOf key) (hafter : status.configPhase = .applied) :
    ∃ c' ∈ (w.robinWrite t.key status).configsOf key, c'.status.configPhase = .applied ∧
      c'.spec.sequence = t.spec.sequence := by
  obtain ⟨c', hc', hspec, ⟨-, hne⟩ | ⟨-, hstatus⟩⟩ := h.formed.exists_robinWrite status ht ht
  · exact absurd rfl hne
  · exact ⟨c', hc', by rw [hstatus, hafter], by rw [hspec]⟩

/-- A report of Robin's. The best config may change, but only to one that is
stored. -/
theorem robinWrite (h : OnRecord key live w) {status : RedkeyConfigStatus}
    (ht : t ∈ w.configsOf key) (hreport : InOrder (w.configsOf key) t status) :
    OnRecord key live (w.robinWrite t.key status) := by
  have hformed : (w.robinWrite t.key status).Formed key := h.formed.robinWrite _ _
  refine { h with
    formed := hformed
    nonneg := ?nonneg, behind := ?behind, same := ?same, ordered := ?ordered, logged := ?logged
    covered := ?covered, pruned := ?pruned, best := ?best, zeroed := ?zeroed
    asleep := fun hzero => (h.asleep hzero).robinWrite h.formed ht hreport }
  case nonneg =>
    intro c hc
    obtain ⟨c₀, hc₀, -, hspec, -⟩ := h.formed.mem_robinWrite ht hc
    rw [hspec]
    exact h.nonneg c₀ hc₀
  case behind =>
    intro c hc g hg
    obtain ⟨c₀, hc₀, hmeta, -⟩ := h.formed.mem_robinWrite ht hc
    rw [RedkeyConfig.generation?_congr hmeta] at hg
    exact h.behind c₀ hc₀ g hg
  case same =>
    intro b hb c hc hseq
    rcases h.formed.mem_applied_robinWrite ht hb with hold | ⟨hbspec, -, hafter⟩
    · obtain ⟨c₀, hc₀, -, hspec, hstatus⟩ := h.formed.mem_robinWrite ht hc
      rw [hspec] at hseq ⊢
      obtain ⟨hsame, happlied⟩ := h.same b hold c₀ hc₀ hseq
      have hterminal : isTerminalConfigPhase c₀.status.configPhase = true := by
        simp [isTerminalConfigPhase, happlied]
      exact ⟨hsame, (phase_of_terminal hreport hstatus hterminal).trans happlied⟩
    -- the config that has just become Applied is the one reported on
    · obtain ⟨c', hc', happlied, hseq'⟩ := h.exists_newly_robinWrite ht hafter
      obtain rfl : c = c' := hformed.eq_of_sequence hc hc' (by rw [hseq, hbspec, hseq'])
      obtain ⟨c₀, hc₀, -, hspec, -⟩ := h.formed.mem_robinWrite ht hc
      have hc₀t : c₀ = t := h.formed.eq_of_sequence hc₀ ht (by rw [← hspec, hseq'])
      exact ⟨by rw [hspec, hc₀t, hbspec], happlied⟩
  case ordered =>
    intro b hb c hc hlt
    obtain ⟨c₀, hc₀, -, hspec, hstatus⟩ := h.formed.mem_robinWrite ht hc
    rw [hspec] at hlt
    have hterminal : isTerminalConfigPhase c₀.status.configPhase = true := by
      rcases h.formed.mem_applied_robinWrite ht hb with hold | ⟨hbspec, -, hafter⟩
      · exact h.ordered b hold c₀ hc₀ hlt
      · exact hreport.2 hafter c₀ hc₀ (hbspec ▸ hlt)
    rw [phase_of_terminal hreport hstatus hterminal]
    exact hterminal
  case logged =>
    intro c hc happlied
    obtain ⟨c₀, hc₀, -, hspec, hstatus⟩ := h.formed.mem_robinWrite ht hc
    rw [hspec]
    by_cases hbefore : c₀.status.configPhase = .applied
    · obtain ⟨b, hb, hseq⟩ := h.logged c₀ hc₀ hbefore
      exact ⟨b, List.mem_append_left _ hb, hseq⟩
    · rcases hstatus with rfl | ⟨rfl, hstatus⟩
      · exact absurd happlied hbefore
      · refine ⟨{ c₀ with status := status }, List.mem_append_right _ ?_, rfl⟩
        refine List.mem_map.mpr ⟨c₀, List.mem_filter.mpr ⟨(mem_configsOf.mp hc₀).1, ?_⟩, rfl⟩
        simp [hbefore, hstatus ▸ happlied]
  case covered =>
    intro b hb
    rcases h.formed.mem_applied_robinWrite ht hb with hold | ⟨hbspec, -, hafter⟩
    · obtain ⟨c, hc, happlied, hle⟩ := h.covered b hold
      obtain ⟨c', hc', happlied', hseq⟩ := h.exists_applied_robinWrite ht hreport hc happlied
      exact ⟨c', hc', happlied', hseq ▸ hle⟩
    · obtain ⟨c', hc', happlied', hseq⟩ := h.exists_newly_robinWrite ht hafter
      exact ⟨c', hc', happlied', by rw [hbspec, hseq]⟩
  case pruned =>
    intro b hb
    rcases h.formed.mem_applied_robinWrite ht hb with hold | ⟨hbspec, -, hafter⟩
    · rcases h.pruned b hold with ⟨c, hc, hseq⟩ | hbelow
      · obtain ⟨c', hc', hspec, -⟩ := h.formed.exists_robinWrite status ht hc
        exact Or.inl ⟨c', hc', by rw [hspec, hseq]⟩
      · refine Or.inr fun c hc => ?_
        obtain ⟨c₀, hc₀, -, hspec, -⟩ := h.formed.mem_robinWrite ht hc
        rw [hspec]
        exact hbelow c₀ hc₀
    · obtain ⟨c', hc', -, hseq⟩ := h.exists_newly_robinWrite ht hafter
      exact Or.inl ⟨c', hc', by rw [hbspec, hseq]⟩
  case best =>
    intro b hb
    rcases h.formed.mem_applied_robinWrite ht hb.1 with hold | ⟨hbspec, -, hafter⟩
    · rcases h.best b (hb.before hold) with hrecords | ⟨c, hc, happlied, hseq⟩
      · exact Or.inl hrecords
      · obtain ⟨c', hc', happlied', hseq'⟩ := h.exists_applied_robinWrite ht hreport hc happlied
        exact Or.inr ⟨c', hc', happlied', hseq'.trans hseq⟩
    · obtain ⟨c', hc', happlied', hseq⟩ := h.exists_newly_robinWrite ht hafter
      exact Or.inr ⟨c', hc', happlied', by rw [hbspec, hseq]⟩
  case zeroed =>
    intro z hz hzero c hc hlt hpos
    obtain ⟨z₀, hz₀, -, hzspec, -⟩ := h.formed.mem_robinWrite ht hz
    obtain ⟨c₀, hc₀, -, hspec, hstatus⟩ := h.formed.mem_robinWrite ht hc
    rw [hzspec] at hzero hlt
    rw [hspec] at hlt hpos ⊢
    obtain ⟨hterminal, hbestc⟩ := h.zeroed z₀ hz₀ hzero c₀ hc₀ hlt hpos
    refine ⟨?_, ?_⟩
    · rw [phase_of_terminal hreport hstatus hterminal]
      exact hterminal
    · intro b hb hseq
      rcases h.formed.mem_applied_robinWrite ht hb.1 with hold | ⟨hbspec, hbefore, hafter⟩
      · exact hbestc b (hb.before hold) hseq
      -- the config reported on is terminal, so this is not its first Applied
      · obtain rfl : c₀ = t := h.formed.eq_of_sequence hc₀ ht (by rw [hseq, hbspec])
        rw [not_terminal_of_newly hreport hbefore hafter] at hterminal
        cases hterminal

/-- A config of the reconcile of `cluster`, above all others. It has primaries
only if the user has not gone to zero since, and none only if everything is
settled. -/
theorem addConfig (h : OnRecord key live w) {cluster : Redkey} {highest : Option RedkeyConfig}
    (hkey : cluster.key = key) (hprimaries : 0 ≤ cluster.spec.primaries)
    (hranged : Decimal.InInt64 cluster.generation) (hgen : cluster.generation ≤ live.generation)
    (hnew : ∀ c ∈ w.store.configs, c.key ≠ (newConfig cluster highest).key)
    (habove : ∀ c ∈ w.configsOf key, c.spec.sequence < nextSequence highest)
    (hpos : cluster.spec.primaries ≠ 0 → live.spec.primaries ≠ 0)
    (hzero : cluster.spec.primaries = 0 → Rested key live w) :
    OnRecord key live (w.addConfig (newConfig cluster highest)) := by
  -- it is above what was Applied as well
  have hlt : ∀ b ∈ w.applied, b.spec.sequence < nextSequence highest := by
    intro b hb
    obtain ⟨c, hc, -, hle⟩ := h.covered b hb
    exact hle.trans_lt (habove c hc)
  refine { h with
    formed := h.formed.addConfig hkey hnew
    nonneg := ?nonneg, behind := ?behind, same := ?same, ordered := ?ordered, logged := ?logged
    covered := ?covered, pruned := ?pruned, best := ?best, zeroed := ?zeroed, asleep := ?asleep }
  case nonneg =>
    intro c hc
    rcases mem_configsOf_addConfig hc with hold | rfl
    · exact h.nonneg c hold
    · exact hprimaries
  case behind =>
    intro c hc g hg
    rcases mem_configsOf_addConfig hc with hold | rfl
    · exact h.behind c hold g hg
    · rw [newConfig_generation cluster highest hranged, Option.some.injEq] at hg
      exact hg ▸ hgen
  case same =>
    intro b hb c hc hseq
    rcases mem_configsOf_addConfig hc with hold | rfl
    · exact h.same b hb c hold hseq
    · exact absurd hseq (hlt b hb).ne'
  case ordered =>
    intro b hb c hc hbelow
    rcases mem_configsOf_addConfig hc with hold | rfl
    · exact h.ordered b hb c hold hbelow
    · exact absurd hbelow (hlt b hb).not_gt
  case logged =>
    intro c hc happlied
    rcases mem_configsOf_addConfig hc with hold | rfl
    · exact h.logged c hold happlied
    · cases happlied
  case covered =>
    intro b hb
    obtain ⟨c, hc, happlied, hle⟩ := h.covered b hb
    exact ⟨c, mem_addConfig_of_mem hc, happlied, hle⟩
  case pruned =>
    intro b hb
    rcases h.pruned b hb with ⟨c, hc, hseq⟩ | hbelow
    · exact Or.inl ⟨c, mem_addConfig_of_mem hc, hseq⟩
    · refine Or.inr fun c hc => ?_
      rcases mem_configsOf_addConfig hc with hold | rfl
      · exact hbelow c hold
      · exact hlt b hb
  case best =>
    intro b hb
    refine (h.best b hb).imp_right ?_
    rintro ⟨c, hc, happlied, hseq⟩
    exact ⟨c, mem_addConfig_of_mem hc, happlied, hseq⟩
  case zeroed =>
    intro z hz hz0 c hc hbelow hcpos
    rcases mem_configsOf_addConfig hc with hcold | rfl
    · rcases mem_configsOf_addConfig hz with hzold | rfl
      · exact h.zeroed z hzold hz0 c hcold hbelow hcpos
      -- the new config is for zero, so everything below it is settled
      · have hrested := hzero hz0
        exact ⟨(hrested.settled c hcold hcpos).1, fun b hb _ => hrested.best b hb⟩
    · rcases mem_configsOf_addConfig hz with hzold | rfl
      · exact absurd hbelow (habove z hzold).not_gt
      · exact absurd hbelow (lt_irrefl _)
  case asleep =>
    intro hlive
    refine ⟨?_, (h.asleep hlive).best⟩
    intro c hc
    rcases mem_configsOf_addConfig hc with hold | rfl
    · exact (h.asleep hlive).settled c hold
    · exact fun hcpos => absurd hlive (hpos hcpos.ne')

/-- Cleanup deletes the lowest config, below an Applied one. -/
theorem eraseConfig (h : OnRecord key live w) {a : RedkeyConfig} {k : NamespacedName}
    (ha : a ∈ w.configsOf key) (happlied : a.status.configPhase = .applied)
    (hbelow : ∀ c ∈ w.configsOf key, c.key = k → c.spec.sequence < a.spec.sequence)
    (hlowest : ∀ c ∈ w.configsOf key, c.key = k → ∀ d ∈ w.configsOf key, d.key ≠ k →
      c.spec.sequence < d.spec.sequence) :
    OnRecord key live (w.eraseConfig k) := by
  have hmem : ∀ c, c ∈ (w.eraseConfig k).configsOf key → c ∈ w.configsOf key :=
    fun c hc => (mem_configsOf_eraseConfig.mp hc).1
  have ha' : a ∈ (w.eraseConfig k).configsOf key :=
    mem_configsOf_eraseConfig.mpr ⟨ha, fun hkey => lt_irrefl _ (hbelow a ha hkey)⟩
  refine { h with
    formed := h.formed.eraseConfig k
    nonneg := fun c hc => h.nonneg c (hmem c hc)
    behind := fun c hc => h.behind c (hmem c hc)
    same := fun b hb c hc => h.same b hb c (hmem c hc)
    ordered := fun b hb c hc => h.ordered b hb c (hmem c hc)
    logged := fun c hc => h.logged c (hmem c hc)
    covered := ?covered
    pruned := ?pruned
    best := ?best
    zeroed := fun z hz hzero c hc => h.zeroed z (hmem z hz) hzero c (hmem c hc)
    asleep := fun hzero => (h.asleep hzero).eraseConfig k }
  case covered =>
    intro b hb
    obtain ⟨c, hc, hphase, hle⟩ := h.covered b hb
    by_cases hkey : c.key = k
    · exact ⟨a, ha', happlied, hle.trans (hbelow c hc hkey).le⟩
    · exact ⟨c, mem_configsOf_eraseConfig.mpr ⟨hc, hkey⟩, hphase, hle⟩
  case pruned =>
    intro b hb
    rcases h.pruned b hb with ⟨c, hc, hseq⟩ | hbelow'
    · by_cases hkey : c.key = k
      · refine Or.inr fun d hd => ?_
        obtain ⟨hd, hne⟩ := mem_configsOf_eraseConfig.mp hd
        exact hseq ▸ hlowest c hc hkey d hd hne
      · exact Or.inl ⟨c, mem_configsOf_eraseConfig.mpr ⟨hc, hkey⟩, hseq⟩
    · exact Or.inr fun c hc => hbelow' c (hmem c hc)
  case best =>
    intro b hb
    rcases h.best b hb with hrecords | ⟨c, hc, hphase, hseq⟩
    · exact Or.inl hrecords
    · by_cases hkey : c.key = k
      · have hlt := hbelow c hc hkey
        -- if the best one itself is deleted, the config above it must be for zero
        rcases (h.nonneg a ha).lt_or_eq with hpos | hzero
        -- an Applied config with primaries above the best one
        · obtain ⟨b', hb', hseq'⟩ := h.logged a ha happlied
          have hpos' : 0 < b'.spec.primaries := (h.same b' hb' a ha hseq').1 ▸ hpos
          have hle := hb.2.2 b' hb' hpos'
          omega
        · have hpos : 0 < c.spec.primaries := (h.same b hb.1 c hc hseq).1 ▸ hb.2.1
          exact Or.inl ((h.zeroed a ha hzero.symm c hc hlt hpos).2 b hb hseq)
      · exact Or.inr ⟨c, mem_configsOf_eraseConfig.mpr ⟨hc, hkey⟩, hphase, hseq⟩

/-- No Applied config with primaries is better than the best one. -/
theorem sequence_le_best (h : OnRecord key live w) {a : RedkeyConfig} (ha : a ∈ w.configsOf key)
    (happlied : a.status.configPhase = .applied) (hpos : 0 < a.spec.primaries)
    (hb : Best w.applied b) : a.spec.sequence ≤ b.spec.sequence := by
  obtain ⟨b', hb', hseq⟩ := h.logged a ha happlied
  have hpos' : 0 < b'.spec.primaries := (h.same b' hb' a ha hseq).1 ▸ hpos
  exact hseq ▸ hb.2.2 b' hb' hpos'

/-- The status write of a reconcile with primaries puts an Applied config on
record, the last one of a list that may be outdated: a better one is stored,
since Robin has applied it meanwhile. Below a config for zero nothing has
become Applied since. -/
theorem record (h : OnRecord key live w) {live' : Redkey} {a : RedkeyConfig}
    (hkey : live'.key = key) (hspec : live'.spec = live.spec)
    (hgen : live'.generation = live.generation) (hprimaries : live.spec.primaries ≠ 0)
    (ha : a ∈ w.configsOf key) (happlied : a.status.configPhase = .applied)
    (hpos : 0 < a.spec.primaries)
    (hlast : ∀ z ∈ w.configsOf key, z.spec.primaries = 0 → ∀ c ∈ w.configsOf key,
      c.spec.sequence < z.spec.sequence → 0 < c.spec.primaries →
      c.status.configPhase = .applied → c.spec.sequence ≤ a.spec.sequence)
    (hrecords : live'.Records a) : OnRecord key live' (w.setRedkey key live') := by
  have hne : live'.spec.primaries ≠ 0 := hspec ▸ hprimaries
  refine { h with
    formed := h.formed.setRedkey hkey
    stored := Store.setRedkey_redkeys_self _ _ _
    persistent := hspec ▸ h.persistent
    primaries := hspec ▸ h.primaries
    ranged := hgen ▸ h.ranged
    behind := fun c hc g hg => hgen ▸ h.behind c hc g hg
    best := ?best
    zeroed := ?zeroed
    -- the user has asked for primaries, so nothing is said about zero
    asleep := fun hzero => absurd hzero hne }
  case best =>
    intro b hb
    rcases h.pruned b hb.1 with ⟨c, hc, hseq⟩ | hbelow
    · exact Or.inr ⟨c, hc, (h.same b hb.1 c hc hseq).2, hseq⟩
    · exact absurd (hbelow a ha) (h.sequence_le_best ha happlied hpos hb).not_gt
  case zeroed =>
    intro z hz hzero c hc hbelow hcpos
    refine ⟨(h.zeroed z hz hzero c hc hbelow hcpos).1, ?_⟩
    intro b hb hseq
    have hcapplied := (h.same b hb.1 c hc hseq).2
    have hle := hlast z hz hzero c hc hbelow hcpos hcapplied
    have hge := h.sequence_le_best ha happlied hpos hb
    exact (h.records_of_sequence hb.1 ha (by omega)).mpr hrecords

theorem setRobin (h : OnRecord key live w) (robin : (k : Kind) → Objs k) :
    OnRecord key live (w.setRobin robin) :=
  { h with
    formed := h.formed.setRobin robin
    asleep := fun hzero => ⟨(h.asleep hzero).settled, (h.asleep hzero).best⟩ }

/-- A status write that leaves the record as it is. -/
theorem keepRecord (h : OnRecord key live w) {live' : Redkey} (hkey : live'.key = key)
    (hspec : live'.spec = live.spec) (hgen : live'.generation = live.generation)
    (hrecord : ∀ b, live'.Records b ↔ live.Records b) :
    OnRecord key live' (w.setRedkey key live') :=
  h.setRedkey hkey (hspec ▸ h.persistent) (hspec ▸ h.primaries) (hgen ▸ h.ranged) hgen.ge hrecord
    fun hzero => h.asleep (hspec ▸ hzero)

end OnRecord

/-! ## A running reconcile

Edits and reports come in while a reconcile is working on the Redkey and on the list it has read. -/

/-- The reconcile of `cluster` is running. Users may have moved on, but no
config is newer than `cluster`; and a user who has gone to zero since has
found the config of its generation. -/
structure StartedFrom (key : NamespacedName) (cluster live : Redkey) (w : World) : Prop where
  keyed : cluster.key = key
  ranged : Decimal.InInt64 cluster.generation
  nonneg : 0 ≤ cluster.spec.primaries
  /-- In an earlier version, or still the current one. -/
  before : cluster.Before live
  since : ∀ c ∈ w.configsOf key, ∀ g, c.generation? = some g → g ≤ cluster.generation
  /-- The edit to zero has waited for the last of them. -/
  owed : cluster.spec.primaries ≠ 0 → live.spec.primaries = 0 → Current key cluster w

/-- The phases in a list that was read: terminal ones are still those of the
store, and below a config for zero they all are terminal. -/
structure Phased (key : NamespacedName) (L : List RedkeyConfig) (w : World) : Prop where
  /-- Reports do not change a terminal phase. -/
  settled : ∀ d ∈ L, ∀ c ∈ w.configsOf key, d.spec.sequence = c.spec.sequence →
    isTerminalConfigPhase d.status.configPhase = true →
    c.status.configPhase = d.status.configPhase
  /-- So nothing below a config for zero becomes Applied later on. -/
  zeroed : ∀ z ∈ L, z.spec.primaries = 0 → ∀ d ∈ L, d.spec.sequence < z.spec.sequence →
    0 < d.spec.primaries → isTerminalConfigPhase d.status.configPhase = true

/-- Cleanup is on its way through the list `L`, with `rest` still to be
deleted. -/
structure Cleaning (key : NamespacedName) (L rest : List RedkeyConfig) (w : World) : Prop where
  /-- The list is in the order of the sequences. -/
  strict : L.Pairwise fun a b => a.spec.sequence < b.spec.sequence
  nodup : (L.map RedkeyConfig.key).Nodup
  /-- What is stored is still to be deleted, or to be kept. -/
  left : ∀ c ∈ w.configsOf key, ∃ d ∈ rest ++ afterCleanup L, d.Same c
  kept : ∀ d ∈ afterCleanup L, ∃ c ∈ w.configsOf key, d.Same c
  /-- The phases in the list may be outdated. -/
  phased : Phased key L w

/-- The record of the Redkey is still the one of `cluster`. Only a status
write of a reconcile changes it. -/
def SameRecord (cluster live : Redkey) : Prop :=
  live.status.lastAppliedPrimaries = cluster.status.lastAppliedPrimaries ∧
    live.status.lastAppliedReplicasPerPrimary = cluster.status.lastAppliedReplicasPerPrimary

theorem SameRecord.iff {cluster live : Redkey} (h : SameRecord cluster live) (b : RedkeyConfig) :
    cluster.Records b ↔ live.Records b := by
  unfold Redkey.Records
  rw [h.1, h.2]

section Running

variable {key : NamespacedName} {cluster live : Redkey} {w : World} {c t : RedkeyConfig}
variable {L rest : List RedkeyConfig}

namespace StartedFrom

/-- A reconcile starts from the Redkey as it is stored. -/
theorem start (h : OnRecord key live w) : StartedFrom key live live w where
  keyed := h.formed.keyed live h.stored
  ranged := h.ranged
  nonneg := h.primaries
  before := Redkey.Before.refl live
  since := h.behind
  owed hpos hzero := absurd hzero hpos

/-- A user may go to zero meanwhile, but not before the config is there. -/
theorem edit (h : StartedFrom key cluster live w) {spec : RedkeySpec}
    (hedit : AdmittedEdit (ZeroWhenSettled key) w live spec) :
    StartedFrom key cluster (live.edit spec) (w.setRedkey key (live.edit spec)) :=
  { h with
    before := h.before.trans ⟨(Int.lt_succ _).le, fun heq => absurd heq (Int.lt_succ _).ne⟩
    owed := by
      intro hpos hzero
      by_cases hwas : live.spec.primaries = 0
      · exact h.owed hpos hwas
      -- the edit goes to zero: the highest config is of the generation that is left behind, and
      -- no config is newer than the Redkey the reconcile started from
      · obtain ⟨-, c, hc, hgen, hhighest⟩ := hedit.2.2 hwas hzero
        have hle := h.since c hc _ hgen
        refine ⟨c, hc, ?_, hhighest⟩
        rw [hgen, le_antisymm hle h.before.1] }

theorem robinWrite (h : StartedFrom key cluster live w) (hw : w.Formed key)
    {status : RedkeyConfigStatus} (ht : t ∈ w.configsOf key) :
    StartedFrom key cluster live (w.robinWrite t.key status) :=
  { h with
    since := by
      intro c hc g hg
      obtain ⟨c₀, hc₀, hmeta, -⟩ := hw.mem_robinWrite ht hc
      rw [RedkeyConfig.generation?_congr hmeta] at hg
      exact h.since c₀ hc₀ g hg
    owed := fun hpos hzero => (h.owed hpos hzero).robinWrite hw ht }

theorem setRobin (h : StartedFrom key cluster live w) (robin : (k : Kind) → Objs k) :
    StartedFrom key cluster live (w.setRobin robin) :=
  { h with }

/-- Whoever finds that its generation needs a config has no user who has gone
to zero since. -/
theorem primaries_ne_zero (h : StartedFrom key cluster live w) (hw : w.Formed key)
    (hshows : Shows key L w) (hpos : cluster.spec.primaries ≠ 0)
    (hneed : L = [] ∨ needsNewConfig cluster L.getLast? = true) : live.spec.primaries ≠ 0 := by
  intro hzero
  obtain ⟨c, hc, hgen, hhighest⟩ := h.owed hpos hzero
  obtain ⟨d, hd, hsame⟩ := hshows.complete c hc
  obtain ⟨last, hlast⟩ : ∃ last, L.getLast? = some last :=
    Option.isSome_iff_exists.mp (List.getLast?_isSome.mpr (List.ne_nil_of_mem hd))
  -- the last config of the list is the highest one of the store
  obtain ⟨top, htop, htopSame⟩ := hshows.present last (List.mem_of_getLast? hlast)
  have hle : top.spec.sequence ≤ c.spec.sequence := hhighest top htop
  have hge : d.spec.sequence ≤ last.spec.sequence := sequence_le_getLast hshows.sorted hlast hd
  rw [hsame.2, htopSame.2] at hge
  obtain rfl : top = c := hw.eq_of_sequence htop hc (le_antisymm hle hge)
  have hlastGen : last.generation? = some cluster.generation :=
    (RedkeyConfig.generation?_congr htopSame.1).trans hgen
  rcases hneed with rfl | hneed
  · cases hd
  · rw [hlast] at hneed
    exact lt_irrefl _ (generation_lt_of_needsNewConfig hneed hlastGen)

end StartedFrom

namespace Phased

theorem of_list (h : OnRecord key live w) {items : List RedkeyConfig}
    (hperm : items.Perm (w.configsOf key)) : Phased key (sortBySequence items) w := by
  have hmem : ∀ d ∈ sortBySequence items, d ∈ w.configsOf key :=
    fun d hd => hperm.mem_iff.mp (mem_sortBySequence.mp hd)
  refine { settled := ?settled, zeroed := ?zeroed }
  case settled =>
    intro d hd c hc hseq _
    rw [h.formed.eq_of_sequence (hmem d hd) hc hseq]
  case zeroed =>
    intro z hz hzero d hd hlt hpos
    exact (h.zeroed z (hmem z hz) hzero d (hmem d hd) hlt hpos).1

/-- A phase that was terminal in the list is terminal in the store, so this
report does not change it. -/
theorem robinWrite (h : Phased key L w) (hw : w.Formed key) {status : RedkeyConfigStatus}
    (ht : t ∈ w.configsOf key) (hreport : InOrder (w.configsOf key) t status) :
    Phased key L (w.robinWrite t.key status) := by
  refine ⟨?_, h.zeroed⟩
  intro d hd c hc hseq hterminal
  obtain ⟨c₀, hc₀, -, hspec, hstatus⟩ := hw.mem_robinWrite ht hc
  have hphase := h.settled d hd c₀ hc₀ (by rw [hseq, hspec]) hterminal
  rw [phase_of_terminal hreport hstatus (hphase ▸ hterminal), hphase]

theorem eraseConfig (h : Phased key L w) (k : NamespacedName) : Phased key L (w.eraseConfig k) :=
  ⟨fun d hd c hc => h.settled d hd c (mem_configsOf_eraseConfig.mp hc).1, h.zeroed⟩

end Phased

namespace Cleaning

theorem start (hw : w.Formed key) (hshows : Shows key L w) (hphased : Phased key L w) :
    Cleaning key L (superseded L) w where
  strict := hshows.strict
  nodup := by
    have hsequences : (L.map fun d => d.spec.sequence).Nodup :=
      List.pairwise_map.mpr (hshows.strict.imp fun hlt => hlt.ne)
    refine List.Nodup.map_on ?_ (List.Nodup.of_map _ hsequences)
    intro d hd e he hkey
    -- the two show one config of the store, so they have one sequence
    obtain ⟨c, hc, hdc⟩ := hshows.present d hd
    obtain ⟨c', hc', hec⟩ := hshows.present e he
    obtain rfl : c = c' := hw.eq_of_key hc hc' (by rw [← hdc.key, hkey, hec.key])
    have hseq : d.spec.sequence = e.spec.sequence := by rw [hdc.2, hec.2]
    exact List.inj_on_of_nodup_map hsequences hd he hseq
  left c hc := by
    rw [superseded_append_afterCleanup]
    exact hshows.complete c hc
  kept d hd := by
    refine hshows.present d ?_
    rw [← superseded_append_afterCleanup L]
    exact List.mem_append_right _ hd
  phased := hphased

/-- A report changes neither metadata nor spec, so the list shows the same
configs. -/
theorem robinWrite (h : Cleaning key L rest w) (hw : w.Formed key) {status : RedkeyConfigStatus}
    (ht : t ∈ w.configsOf key) (hreport : InOrder (w.configsOf key) t status) :
    Cleaning key L rest (w.robinWrite t.key status) where
  strict := h.strict
  nodup := h.nodup
  left c hc := by
    obtain ⟨c₀, hc₀, hmeta, hspec, -⟩ := hw.mem_robinWrite ht hc
    obtain ⟨d, hd, hsame⟩ := h.left c₀ hc₀
    exact ⟨d, hd, hsame.1.trans hmeta.symm, hsame.2.trans hspec.symm⟩
  kept d hd := by
    obtain ⟨c, hc, hsame⟩ := h.kept d hd
    obtain ⟨c', hc', hspec, -⟩ := hw.exists_robinWrite status ht hc
    obtain ⟨c₀, hc₀, hmeta, hspec₀, -⟩ := hw.mem_robinWrite ht hc'
    obtain rfl : c₀ = c := hw.eq_of_sequence hc₀ hc (by rw [← hspec₀, hspec])
    exact ⟨c', hc', hsame.1.trans hmeta.symm, hsame.2.trans hspec.symm⟩
  phased := h.phased.robinWrite hw ht hreport

/-- The next deletion: it takes the lowest config that is left, and stays
below an Applied one. -/
theorem delete (h : Cleaning key L (c :: rest) w) (hrest : c :: rest <:+ superseded L)
    (hw : OnRecord key live w) :
    OnRecord key live (w.eraseConfig c.key) ∧ Cleaning key L rest (w.eraseConfig c.key) := by
  obtain ⟨done, hdone⟩ := hrest
  have hL : done ++ c :: (rest ++ afterCleanup L) = L := by
    have hsplit := superseded_append_afterCleanup L
    rwa [← hdone, List.append_assoc, List.cons_append] at hsplit
  have hc : c ∈ L := hL ▸ List.mem_append_right _ List.mem_cons_self
  have hmem : ∀ d ∈ rest ++ afterCleanup L, d ∈ L :=
    fun d hd => hL ▸ List.mem_append_right _ (List.mem_cons_of_mem _ hd)
  -- everything else that is left comes after it in the list
  have habove : ∀ d ∈ rest ++ afterCleanup L, c.spec.sequence < d.spec.sequence := by
    intro d hd
    have hstrict := h.strict
    rw [← hL] at hstrict
    exact List.rel_of_pairwise_cons (List.pairwise_append.mp hstrict).2.1 hd
  have hshown : ∀ d ∈ L, d.key = c.key → d = c := fun d hd hkey =>
    List.inj_on_of_nodup_map h.nodup hd hc hkey
  have hself : ∀ d ∈ w.configsOf key, d.key = c.key → d.spec.sequence = c.spec.sequence := by
    intro d hd hkey
    obtain ⟨e, he, hsame⟩ := h.left d hd
    have heL : e ∈ L := (List.mem_cons.mp he).elim (fun heq => heq ▸ hc) (hmem e)
    rw [← hsame.2, hshown e heL (hsame.key.trans hkey)]
  have hother : ∀ d ∈ w.configsOf key, d.key ≠ c.key →
      ∃ e ∈ rest ++ afterCleanup L, e.Same d := by
    intro d hd hkey
    obtain ⟨e, he, hsame⟩ := h.left d hd
    rcases List.mem_cons.mp he with rfl | he
    · exact absurd hsame.key.symm hkey
    · exact ⟨e, he, hsame⟩
  -- the last Applied config of the list is still there, and still Applied
  obtain ⟨a, ha, hamem, happlied⟩ : ∃ a ∈ w.configsOf key,
      c.spec.sequence < a.spec.sequence ∧ a.status.configPhase = .applied := by
    obtain ⟨d, hd, hdapplied⟩ := exists_applied_afterCleanup (L := L) (hdone ▸ by simp)
    obtain ⟨a, ha, hsame⟩ := h.kept d hd
    have hdmem := List.mem_append_right rest hd
    refine ⟨a, ha, hsame.2 ▸ habove d hdmem, ?_⟩
    rw [h.phased.settled d (hmem d hdmem) a ha (by rw [hsame.2])
      (by simp [isTerminalConfigPhase, hdapplied]), hdapplied]
  have hbelow : ∀ d ∈ w.configsOf key, d.key = c.key → d.spec.sequence < a.spec.sequence :=
    fun d hd hkey => hself d hd hkey ▸ hamem
  have hlowest : ∀ d ∈ w.configsOf key, d.key = c.key → ∀ e ∈ w.configsOf key, e.key ≠ c.key →
      d.spec.sequence < e.spec.sequence := by
    intro d hd hkey e he hne
    obtain ⟨e', he', hsame⟩ := hother e he hne
    rw [hself d hd hkey, ← hsame.2]
    exact habove e' he'
  have hcleaning : Cleaning key L rest (w.eraseConfig c.key) := by
    refine { h with left := ?left, kept := ?kept, phased := h.phased.eraseConfig _ }
    case left =>
      intro d hd
      obtain ⟨hd, hne⟩ := mem_configsOf_eraseConfig.mp hd
      exact hother d hd hne
    case kept =>
      intro d hd
      obtain ⟨e, he, hsame⟩ := h.kept d hd
      refine ⟨e, mem_configsOf_eraseConfig.mpr ⟨he, fun hkey => ?_⟩, hsame⟩
      have hdmem := List.mem_append_right rest hd
      rw [hshown d (hmem d hdmem) (hsame.key.trans hkey)] at hdmem
      exact lt_irrefl _ (habove c hdmem)
  exact ⟨hw.eraseConfig ha happlied hbelow hlowest, hcleaning⟩

/-- After cleanup, an active config that is Applied in the list is Applied in
the store, and below a config for zero there is no later one. -/
theorem newest (h : Cleaning key L [] w) {active : RedkeyConfig}
    (hactive : selectActiveConfig (afterCleanup L) = some active)
    (happlied : active.status.configPhase = .applied) :
    ∃ a ∈ w.configsOf key, a.spec = active.spec ∧ a.status.configPhase = .applied ∧
      ∀ z ∈ w.configsOf key, z.spec.primaries = 0 → ∀ c ∈ w.configsOf key,
        c.spec.sequence < z.spec.sequence → 0 < c.spec.primaries →
        c.status.configPhase = .applied → c.spec.sequence ≤ a.spec.sequence := by
  have hsub : ∀ d ∈ afterCleanup L, d ∈ L := fun d hd => by
    rw [← superseded_append_afterCleanup L]
    exact List.mem_append_right _ hd
  have hmem : active ∈ afterCleanup L := (selectActiveConfig_cases hactive).1
  obtain ⟨a, ha, hsame⟩ := h.kept active hmem
  have hstored : a.status.configPhase = .applied := by
    have hterminal : isTerminalConfigPhase active.status.configPhase = true := by
      simp [isTerminalConfigPhase, happlied]
    rw [h.phased.settled active (hsub active hmem) a ha (by rw [hsame.2]) hterminal, happlied]
  refine ⟨a, ha, hsame.2.symm, hstored, ?_⟩
  intro z hz hzero c hc hlt hpos hcapplied
  obtain ⟨z', hz', hzsame⟩ := h.left z hz
  obtain ⟨c', hc', hcsame⟩ := h.left c hc
  rw [← hzsame.2] at hzero hlt
  rw [← hcsame.2] at hlt hpos ⊢
  -- it was terminal when the list was read, so it was Applied then
  have hterminal := h.phased.zeroed z' (hsub z' hz') hzero c' (hsub c' hc') hlt hpos
  have hphase := h.phased.settled c' (hsub c' hc') c hc (by rw [hcsame.2]) hterminal
  have hle := sequence_le_of_active (h.strict.imp le_of_lt) hactive happlied (hsub c' hc')
    (hphase ▸ hcapplied)
  exact hsame.2 ▸ hle.2

end Cleaning

end Running

end RedkeyOperator
