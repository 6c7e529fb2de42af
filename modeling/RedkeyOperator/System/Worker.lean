import RedkeyOperator.System.Staffing

/-!
# No work without a worker

A config that is neither Applied nor Superseded is work for Robin, and Robin needs its Deployment,
ServiceAccount, Role and RoleBinding. They are created before a config is and deleted only once
every config is terminal, so in every state of every run of the system, between two calls and after
a reconcile that was cut short, pending work finds all four (`pending_config_has_robin`).

The invariant (`Manned`) needs two more facts: below an Applied config every config is terminal,
which makes the test of a teardown on the highest sequence enough, and the RoleBinding refers to
the Role the operator gives it, so it is never replaced.
-/

namespace RedkeyOperator

open Interleaved Interleaved.Op

/-! ## The system -/

/-- The other parties: users and Robin, and whoever edits Robin's objects in
place. A role reference cannot be edited. -/
inductive Bystander (key : NamespacedName) : World → World → Prop
  | party {w w' : World} (h : World.Env key (fun _ _ _ => True) InOrder w w') : Bystander key w w'
  /-- Nothing is added and nothing is removed, but what is there may
  change. -/
  | touch {w : World} (robin : (k : Kind) → Objs k)
      (hsome : ∀ k key', (robin k key').isSome = (w.store.robin k key').isSome)
      (href : ∀ key' old new, w.store.robin .roleBinding key' = some old →
        robin .roleBinding key' = some new → RoleBinding.roleRef new = RoleBinding.roleRef old) :
      Bystander key w (w.setRobin robin)

/-- Up-to-date reads, and any call may be lost. -/
def workerRuns (fill : Deployment → Deployment) (key : NamespacedName) : Sem Call Resp World :=
  freshRuns fill (Bystander key) fun _ _ _ => True

/-- The start: no config of the cluster, and no RoleBinding that the operator
would replace. -/
structure Unstaffed (key : NamespacedName) (w : World) : Prop where
  formed : w.Formed key
  configs : w.configsOf key = []
  bound : ∀ k obj, w.store.robin k (robinKeyOf key) = some obj → RefersToRole key k obj

/-! ## The invariant -/

/-- The invariant: pending work finds Robin. The other fields are what it
takes to keep this. -/
structure Manned (key : NamespacedName) (w : World) : Prop where
  formed : w.Formed key
  /-- Robin works in sequence order, so nothing is pending below an Applied
  config. -/
  ordered : ∀ c ∈ w.configsOf key, c.status.configPhase = .applied → ∀ d ∈ w.configsOf key,
    d.spec.sequence < c.spec.sequence → isTerminalConfigPhase d.status.configPhase = true
  staffed : (∃ c ∈ w.configsOf key, isTerminalConfigPhase c.status.configPhase = false) →
    Staffed key w
  /-- The RoleBinding is one that the operator would not replace. -/
  bound : ∀ k obj, w.store.robin k (robinKeyOf key) = some obj → RefersToRole key k obj

/-- Every config of the cluster is terminal: there is nothing for Robin to
do. -/
def Idle (key : NamespacedName) (w : World) : Prop :=
  ∀ c ∈ w.configsOf key, isTerminalConfigPhase c.status.configPhase = true

variable {key : NamespacedName} {w w' : World} {fill : Deployment → Deployment}

/-- Without configs nothing is pending. -/
theorem Unstaffed.manned (h : Unstaffed key w) : Manned key w where
  formed := h.formed
  ordered c hc := by simp [h.configs] at hc
  staffed := by
    rintro ⟨c, hc, -⟩
    simp [h.configs] at hc
  bound := h.bound

namespace Manned

/-- Changes to the Redkey alone. -/
theorem setRedkey (h : Manned key w) {cluster : Redkey} (hkey : cluster.key = key) :
    Manned key (w.setRedkey key cluster) :=
  ⟨h.formed.setRedkey hkey, h.ordered, h.staffed, h.bound⟩

/-- A deletion leaves less to be done. -/
theorem eraseConfig (h : Manned key w) (k : NamespacedName) : Manned key (w.eraseConfig k) where
  formed := h.formed.eraseConfig k
  ordered c hc happlied d hd := h.ordered c (mem_configsOf_eraseConfig.mp hc).1 happlied d
    (mem_configsOf_eraseConfig.mp hd).1
  staffed := by
    rintro ⟨c, hc, hpending⟩
    exact h.staffed ⟨c, (mem_configsOf_eraseConfig.mp hc).1, hpending⟩
  bound := h.bound

/-- A config above all others, with Robin at hand. It is the only step that
makes work. -/
theorem addConfig (h : Manned key w) (hstaffed : Staffed key w) {cluster : Redkey}
    {highest : Option RedkeyConfig} (hkey : cluster.key = key)
    (hnew : ∀ c ∈ w.store.configs, c.key ≠ (newConfig cluster highest).key)
    (habove : ∀ c ∈ w.configsOf key, c.spec.sequence < nextSequence highest) :
    Manned key (w.addConfig (newConfig cluster highest)) where
  formed := h.formed.addConfig hkey hnew
  -- the new config is not Applied, and is not below any other
  ordered c hc happlied d hd hlt := by
    rcases mem_configsOf_addConfig hc with hc | rfl
    · rcases mem_configsOf_addConfig hd with hd | rfl
      · exact h.ordered c hc happlied d hd hlt
      · exact absurd hlt (habove c hc).not_gt
    · cases happlied
  staffed _ := hstaffed
  bound := h.bound

/-- Robin reports, in sequence order. -/
theorem robinWrite (h : Manned key w) {t : RedkeyConfig} {status : RedkeyConfigStatus}
    (ht : t ∈ w.configsOf key) (hreport : InOrder (w.configsOf key) t status) :
    Manned key (w.robinWrite t.key status) where
  formed := h.formed.robinWrite _ _
  ordered c hc happlied d hd hlt := by
    obtain ⟨c₀, hc₀, -, hspec, hstatus⟩ := h.formed.mem_robinWrite ht hc
    obtain ⟨d₀, hd₀, -, hspec', hstatus'⟩ := h.formed.mem_robinWrite ht hd
    rw [hspec, hspec'] at hlt
    rcases hstatus with rfl | ⟨rfl, hnew⟩
    -- the report is about a config below an Applied one, or makes one Applied
    · have hterminal := h.ordered c hc₀ happlied d₀ hd₀ hlt
      rcases hstatus' with rfl | ⟨rfl, hnew'⟩
      · exact hterminal
      · rw [hnew', hreport.1 hterminal]
        exact hterminal
    · rcases hstatus' with rfl | ⟨rfl, -⟩
      · exact hreport.2 (hnew ▸ happlied) d hd₀ hlt
      · exact absurd hlt (lt_irrefl _)
  staffed := by
    rintro ⟨c, hc, hpending⟩
    obtain ⟨c₀, hc₀, -, -, rfl | ⟨rfl, hnew⟩⟩ := h.formed.mem_robinWrite ht hc
    · exact h.staffed ⟨c, hc₀, hpending⟩
    -- a config that waits after the report was waiting before it
    · refine h.staffed ⟨c₀, hc₀, Bool.eq_false_iff.mpr fun hterminal => ?_⟩
      rw [hnew, hreport.1 hterminal, hterminal] at hpending
      cases hpending
  bound := h.bound

/-- An edit of Robin's objects in place. Only the binding is looked at, and
its reference stays. -/
theorem touch (h : Manned key w) {robin : (k : Kind) → Objs k}
    (hsome : ∀ k key', (robin k key').isSome = (w.store.robin k key').isSome)
    (href : ∀ key' old new, w.store.robin .roleBinding key' = some old →
      robin .roleBinding key' = some new → RoleBinding.roleRef new = RoleBinding.roleRef old) :
    Manned key (w.setRobin robin) where
  formed := h.formed.setRobin robin
  ordered := h.ordered
  staffed hpending k := (hsome k _).trans (h.staffed hpending k)
  bound k obj hobj := by
    cases k with
    | roleBinding =>
        have hold := hsome .roleBinding (robinKeyOf key)
        change robin .roleBinding (robinKeyOf key) = some obj at hobj
        rw [hobj] at hold
        obtain ⟨old, hold⟩ := Option.isSome_iff_exists.mp hold.symm
        exact (href _ old obj hold hobj).trans (h.bound .roleBinding old hold)
    | serviceAccount => trivial
    | role => trivial
    | deployment => trivial

/-- One of Robin's objects is created or patched. -/
theorem setObj (fill : Deployment → Deployment) (h : Manned key w) {k : Kind} {obj : Obj k}
    (hobj : RefersToRole key k obj) (key' : NamespacedName) :
    Manned key (w.setObj k key' (some (withDefaults fill k obj))) where
  formed := h.formed.setObj k key' _
  ordered := h.ordered
  staffed hpending k' := w.store.isSome_setObj (h.staffed hpending k')
  bound k' obj' hobj' := by
    -- another kind, another key, or the object itself
    by_cases hk : k' = k
    · subst hk
      by_cases hkey : robinKeyOf key = key'
      · rw [← hkey, World.setObj_store, Store.setObj_self, Option.some.injEq] at hobj'
        cases k' <;> first | trivial | exact hobj' ▸ hobj
      · rw [World.setObj_store, w.store.setObj_of_ne_key hkey] at hobj'
        exact h.bound k' obj' hobj'
    · rw [World.setObj_store, w.store.setObj_of_ne_kind hk] at hobj'
      exact h.bound k' obj' hobj'

/-- Robin may go once there is nothing left to do. -/
theorem unstaff (h : Manned key w) (hidle : Idle key w) {k : Kind} (key' : NamespacedName) :
    Manned key (w.setObj k key' none) where
  formed := h.formed.setObj k key' _
  ordered := h.ordered
  staffed := by
    rintro ⟨c, hc, hpending⟩
    rw [hidle c hc] at hpending
    cases hpending
  bound k' obj' hobj' := by
    by_cases hk : k' = k
    · subst hk
      by_cases hkey : robinKeyOf key = key'
      · rw [← hkey, World.setObj_store, Store.setObj_self] at hobj'
        cases hobj'
      · rw [World.setObj_store, w.store.setObj_of_ne_key hkey] at hobj'
        exact h.bound k' obj' hobj'
    · rw [World.setObj_store, w.store.setObj_of_ne_kind hk] at hobj'
      exact h.bound k' obj' hobj'

/-- When the highest config is Applied there is nothing left to do. This is
the test a teardown makes. -/
theorem idle (h : Manned key w) {L : List RedkeyConfig} {c : RedkeyConfig}
    (hperm : L.Perm (w.configsOf key))
    (hsorted : L.Pairwise fun a b => a.spec.sequence ≤ b.spec.sequence)
    (hlast : L.getLast? = some c) (happlied : c.status.configPhase = .applied) : Idle key w := by
  intro d hd
  have hc : c ∈ w.configsOf key := hperm.mem_iff.mp (List.mem_of_getLast? hlast)
  -- below the highest config, or the highest one itself
  rcases (sequence_le_getLast hsorted hlast (hperm.mem_iff.mpr hd)).lt_or_eq with hlt | heq
  · exact h.ordered c hc happlied d hd hlt
  · rw [h.formed.eq_of_sequence hd hc heq]
    simp [isTerminalConfigPhase, happlied]

end Manned

namespace Worker

/-! ## Assertions -/

/-- The invariant, with some of Robin's objects known to exist: those that the
reconcile has ensured. -/
structure Staff (key : NamespacedName) (kinds : List Kind) (w : World) : Prop where
  manned : Manned key w
  exist : ∀ k ∈ kinds, (w.store.robin k (robinKeyOf key)).isSome

/-- The invariant, with nothing left to do. -/
structure Resting (key : NamespacedName) (w : World) : Prop where
  manned : Manned key w
  idle : Idle key w

/-- Every call keeps the invariant, so it also holds in the middle of a
reconcile. -/
def KeepsManned (key : NamespacedName) (c : Call) (w : World) (_ : Resp c) (w' : World) : Prop :=
  Manned key w → Manned key w'

/-- The other parties remove none of Robin's objects. -/
theorem stable_staff (kinds : List Kind) : Stable (workerRuns fill key) (Staff key kinds) := by
  rintro w w' ⟨-, henv⟩ ⟨hw, hkinds⟩
  cases henv with
  | party h =>
      cases h with
      | userUpdate hlive _ =>
          have hkey := hw.formed.keyed _ hlive
          exact ⟨hw.setRedkey ((Redkey.edit_key _ _).trans hkey), hkinds⟩
      | robinWrite hc hreport => exact ⟨hw.robinWrite hc hreport, hkinds⟩
  | touch robin hsome href =>
      exact ⟨hw.touch hsome href, fun k hk => (hsome k _).trans (hkinds k hk)⟩

theorem stable_manned : Stable (workerRuns fill key) (Manned key) := by
  intro w w' hstep hw
  exact (stable_staff [] w w' hstep ⟨hw, fun _ h => by cases h⟩).manned

/-- Once all configs are terminal, only the operator can make work again. -/
theorem stable_resting : Stable (workerRuns fill key) (Resting key) := by
  rintro w w' hstep ⟨hw, hidle⟩
  refine ⟨stable_manned w w' hstep hw, ?_⟩
  obtain ⟨-, henv⟩ := hstep
  cases henv with
  | party h =>
      cases h with
      | userUpdate => exact hidle
      -- a report does not reopen a config
      | robinWrite ht hreport =>
          intro c hc
          obtain ⟨c₀, hc₀, -, -, rfl | ⟨rfl, hnew⟩⟩ := hw.formed.mem_robinWrite ht hc
          · exact hidle c hc₀
          · rw [hnew, hreport.1 (hidle c₀ hc₀)]
            exact hidle c₀ hc₀
  | touch => exact hidle

theorem quiet_manned : Quiet (workerRuns fill key) (KeepsManned key) :=
  fresh_quiet fun _ _ _ h => h

/-! ## Robin's objects -/

/-- A triple of the system with the invariant after errors. -/
abbrev WorkerTriple {α : Type} (fill : Deployment → Deployment) (key : NamespacedName)
    (A : World → Prop) (p : Rec α) (Q : α → World → Prop) : Prop :=
  Triple (workerRuns fill key) (KeepsManned key) (Manned key) A p Q

variable {cluster : Redkey} {L : List RedkeyConfig} {now : Time} {r : RedkeyReconciler}

/-- Nothing that is done to put Robin in place breaks the invariant. The
branch that replaces the RoleBinding is not taken. -/
theorem staffing : Staffing fill (Bystander key) (fun _ _ _ => True) (KeepsManned key) key
    (Manned key) (Staff key) fun _ _ => False where
  quiet := quiet_manned
  stable := stable_staff
  stable_astray _ _ _ _ h := h
  inv _ _ hw := hw.manned
  inv_astray _ _ h := h.elim
  guarantee _ _ _ _ hw' _ := hw'
  put _ w _ _ _ hobj hw :=
    ⟨hw.manned.setObj fill hobj _, fun k' hk' => w.store.isSome_setObj (hw.exist k' hk')⟩
  found kinds w k hpost hw := by
    obtain ⟨obj, hobj, -⟩ := hpost
    refine ⟨hw.manned, fun k' hk' => ?_⟩
    rcases List.mem_cons.mp hk' with rfl | hk'
    · exact Option.isSome_of_eq_some hobj
    · exact hw.exist k' hk'
  astray _ _ rb hrb hrefers hw := hrefers (hw.manned.bound .roleBinding rb hrb)
  replace _ _ _ h := h.elim

/-- After `ensureRBAC` three of the four objects are there. -/
theorem ensureRBAC_triple :
    WorkerTriple fill cluster.key (Manned cluster.key) (ensureRBAC cluster) fun _ =>
      Staff cluster.key [.roleBinding, .role, .serviceAccount] :=
  staffing.ensureRBAC_triple.pre fun _ hw => ⟨hw, fun _ hk => by cases hk⟩

theorem ensureRobinDeployment_triple {kinds : List Kind} :
    WorkerTriple fill cluster.key (Staff cluster.key kinds) (ensureRobinDeployment cluster) fun _ =>
      Staff cluster.key (.deployment :: kinds) :=
  staffing.ensureRobinDeployment_triple

/-- The teardown may delete Robin's objects, as nothing is pending. -/
theorem deleteIfPresent_triple {k : Kind} {k' : NamespacedName} {text : String} :
    WorkerTriple fill key (Resting key) (deleteIfPresent k k' text) fun _ => Resting key := by
  refine fresh_deleteIfPresent_triple stable_resting (fun _ hw => hw.manned)
    (fun _ hw => hw.manned) ?_ ?_ (fun _ hw _ => hw)
  · rintro w r w' - (hw' | hw') <;> exact fun _ => hw'.manned
  · exact fun w hw => ⟨hw.manned.unstaff hw.idle k', hw.idle⟩

theorem deleteRBAC_triple :
    WorkerTriple fill key (Resting key) (deleteRBAC cluster) fun _ => Resting key :=
  Triple.bind deleteIfPresent_triple fun _ =>
    Triple.bind deleteIfPresent_triple fun _ => deleteIfPresent_triple

/-! ## The stages of a reconcile -/

theorem Staff.staffed (h : Staff key allKinds w) : Staffed key w :=
  fun k => h.exist k (mem_allKinds k)

/-- No config of the cluster has the next sequence yet. Only the operator
could change that. -/
structure Below (key : NamespacedName) (next : Int) (w : World) : Prop where
  formed : w.Formed key
  lt : ∀ c ∈ w.configsOf key, c.spec.sequence < next

/-- Edits and reports leave the sequences alone. -/
theorem stable_below {next : Int} : Stable (workerRuns fill key) (Below key next) := by
  rintro w w' ⟨-, henv⟩ ⟨hw, hlt⟩
  cases henv with
  | party h =>
      cases h with
      | userUpdate hlive _ =>
          have hkey := hw.keyed _ hlive
          exact ⟨hw.setRedkey ((Redkey.edit_key _ _).trans hkey), hlt⟩
      | robinWrite ht _ =>
          refine ⟨hw.robinWrite _ _, fun c hc => ?_⟩
          obtain ⟨c₀, hc₀, -, hspec, -⟩ := hw.mem_robinWrite ht hc
          exact hspec ▸ hlt c₀ hc₀
  | touch => exact ⟨hw.setRobin _, hlt⟩

/-- After a list: Robin at hand, and nothing above the list. -/
def Bounded (key : NamespacedName) (L : List RedkeyConfig) (w : World) : Prop :=
  Staff key allKinds w ∧ Below key (nextSequence L.getLast?) w

/-- With up-to-date reads the next sequence is above every config. -/
theorem below_of_list {items : List RedkeyConfig} (h : w.Formed key)
    (hperm : items.Perm (w.configsOf key)) :
    Below key (nextSequence (sortBySequence items).getLast?) w :=
  ⟨h, fun _ hc => lt_nextSequence (sorted_sortBySequence items)
    (mem_sortBySequence.mpr (hperm.mem_iff.mpr hc))⟩

/-- The list of a reconcile with primaries, made with all of Robin's objects
in place. -/
theorem list_triple :
    WorkerTriple fill cluster.key (Staff cluster.key allKinds) (listConfigs cluster) fun L =>
      Bounded cluster.key L := by
  refine fresh_list_triple (stable_staff _) (fun w hw => hw.manned) (fun _ _ _ h => h) ?_
  exact fun w items hw hperm _ => ⟨hw, below_of_list hw.manned.formed hperm⟩

/-- The config is created with Robin at hand, above all the others. -/
theorem createNewConfig_staffed :
    WorkerTriple fill cluster.key (Bounded cluster.key L) (createNewConfig cluster L.getLast?)
      fun _ => Staff cluster.key allKinds := by
  refine fresh_create_triple quiet_manned ((stable_staff _).and stable_below) (stable_staff _)
    (fun w hw => hw.1.manned) (fun w hw => hw.manned) ?_ ?_ fun _ hw => hw.1
  · rintro w r w' hw (rfl | hw')
    · exact fun h => h
    · exact fun _ => hw'.manned
  · rintro w ⟨hw, hbelow⟩ hnew
    exact ⟨hw.manned.addConfig hw.staffed rfl hnew hbelow.lt, hw.exist⟩

/-- A status write changes nothing that matters here. -/
theorem write_call {written : Redkey} (hkey : written.key = key) :
    ∀ w r w', Manned key w → (workerRuns fill key).exec (.updateRedkeyStatus written) w r w' →
      KeepsManned key (.updateRedkeyStatus written) w r w' ∧ Manned key w' := by
  refine fresh_write_call (fun _ _ _ _ hw' _ => hw') (fun _ hw => hw) ?_
  intro w live stored hw hlive hstored
  obtain ⟨-, rfl⟩ := Redkey.writeStatus_ok hstored
  rw [hkey] at hlive ⊢
  exact hw.setRedkey (hw.formed.keyed live hlive)

/-- The status is not part of the invariant. -/
theorem aggregateStatus_manned :
    WorkerTriple fill cluster.key (Manned cluster.key) (aggregateStatus now cluster L) fun _ =>
      Manned cluster.key := by
  refine fresh_aggregate_triple
    (Q := fun latest w => latest.key = cluster.key ∧ Manned cluster.key w) stable_manned
    (fun latest w w' hstep hw => ⟨hw.1, stable_manned w w' hstep hw.2⟩) (fun _ hw => hw)
    (fun _ _ _ h => h) (fun w latest hw hlatest => ⟨hw.formed.keyed latest hlatest, hw⟩) ?_
  rintro activeConfig _ latest w r w' ⟨hkey, hw⟩ hexec
  refine write_call ?_ w r w' hw hexec
  exact hkey

theorem scaledToZero_manned :
    WorkerTriple fill cluster.key (Manned cluster.key) (updateStatusScaledToZero now cluster)
      fun _ => Manned cluster.key := by
  refine api_triple stable_manned ?_
  intro w r w' hw hexec
  obtain ⟨hG, hw'⟩ := write_call rfl w r w' hw hexec
  exact ⟨hG, outcome_const hw' hw'⟩

theorem deleteAllConfigs_resting :
    WorkerTriple fill cluster.key (Resting cluster.key) (deleteAllConfigs cluster) fun _ =>
      Resting cluster.key := by
  refine Triple.bind (Q := fun _ => Resting cluster.key) (Triple.request stable_resting ?_) ?_
  · intro w r w' hw hexec
    have hsame : w' = w := freshRuns_state (A := fun w' => w' = w) rfl
      (fun _ _ _ hexec => (exec_listConfigs hexec).2) hexec
    rw [hsame]
    exact ⟨fun h => h, hw⟩
  · intro r
    match r with
    | .error e => exact Triple.throw fun _ hw => hw.manned
    | .ok items =>
        refine deleteConfigs_triple (A := fun _ => Resting cluster.key) (fun _ => stable_resting)
          items ?_
        intro c rest _ w r w' hw hexec
        have herase : ∀ w, Resting cluster.key w → Resting cluster.key (w.eraseConfig c.key) :=
          fun w hw => ⟨hw.manned.eraseConfig c.key,
            fun d hd => hw.idle d (mem_configsOf_eraseConfig.mp hd).1⟩
        obtain ⟨hG, hw'⟩ := fresh_delete_call (G := KeepsManned cluster.key)
          (fun _ _ _ _ hw' _ => hw'.manned) herase w r w' hw hexec
        refine ⟨hG, ?_⟩
        cases r with
        | ok _ => exact hw'
        | error e => exact tolerating_error.mpr ⟨fun _ => hw', fun _ => hw'.manned⟩

/-- After the list of a scale-to-zero reconcile: when the highest config is
Applied, everything is. -/
structure Zeroed (key : NamespacedName) (L : List RedkeyConfig) (w : World) : Prop where
  manned : Manned key w
  below : Below key (nextSequence L.getLast?) w
  idle : ∀ c, L.getLast? = some c → c.status.configPhase = .applied → Idle key w

theorem reconcileScaleToZero_manned :
    WorkerTriple fill cluster.key (Manned cluster.key) (reconcileScaleToZero r now cluster) fun _ =>
      Manned cluster.key := by
  refine reconcileScaleToZero_triple (Zeroed cluster.key) ?_ ?_ ?_ ?_ ?_
  · -- the list, with what its last config says about all of them
    refine fresh_list_triple stable_manned (fun _ hw => hw) (fun _ _ _ h => h) ?_
    intro w items hw hperm _
    refine ⟨hw, below_of_list hw.formed hperm, fun c hlast happlied => ?_⟩
    exact hw.idle ((perm_sortBySequence items).trans hperm) (sorted_sortBySequence items) hlast
      happlied
  · exact scaledToZero_manned.pre fun w hw => hw.manned
  · -- case B: Robin's objects first, then the config
    intro L c hlast _
    have hrobin : ∀ w robin, Below cluster.key (nextSequence L.getLast?) w →
        Below cluster.key (nextSequence L.getLast?) (w.setRobin robin) :=
      fun w robin hw => ⟨hw.formed.setRobin robin, hw.lt⟩
    refine Triple.bind ((fresh_robin_frame stable_below hrobin (ensureRBAC_uses trivial)
      ensureRBAC_triple).pre fun w (hw : Zeroed cluster.key L w) => ⟨hw.manned, hw.below⟩) fun _ => ?_
    refine Triple.bind (fresh_robin_frame stable_below hrobin (ensureRobinDeployment_uses trivial)
      ensureRobinDeployment_triple) fun _ => ?_
    rw [← hlast]
    exact createNewConfig_staffed.post fun _ w hw => hw.manned
  · -- Robin's objects may go: all configs are terminal, and stay so
    intro L c hlast _ happlied
    have hrest : ∀ w, Zeroed cluster.key L w → Resting cluster.key w :=
      fun w hw => ⟨hw.manned, hw.idle c hlast happlied⟩
    refine Triple.bind (deleteIfPresent_triple.pre hrest) fun _ => ?_
    refine Triple.bind deleteRBAC_triple fun _ => ?_
    refine Triple.bind deleteAllConfigs_resting fun _ => ?_
    exact scaledToZero_manned.pre fun w hw => hw.manned
  · -- case D
    intro L c _ _ _
    refine Triple.bind (ensureRBAC_triple.pre fun w hw => hw.manned) fun _ => ?_
    refine Triple.bind ensureRobinDeployment_triple fun _ => ?_
    exact aggregateStatus_manned.pre fun w hw => hw.manned

/-- The path of a cluster with primaries: Robin's objects are ensured before a
config is created. -/
theorem reconcileConfigs_manned :
    WorkerTriple fill cluster.key (Manned cluster.key) (reconcileConfigs r now cluster) fun _ =>
      Manned cluster.key := by
  refine reconcileConfigs_triple (Bounded cluster.key) (Staff cluster.key allKinds)
    (fun _ => Manned cluster.key) (fun _ => Manned cluster.key) quiet_manned stable_manned
    stable_manned ensureRBAC_triple ensureRobinDeployment_triple list_triple
    (fun L _ => createNewConfig_staffed) (list_triple.post fun _ w hw => hw.1.manned)
    (fun L w _ _ hw => hw.1.manned) (fun _ hw => hw) ?_ fun L => aggregateStatus_manned
  intro L _
  refine (cleanupSupersededConfigs_triple quiet_manned stable_manned L ?_).post
    fun res w hw => ⟨fun _ => hw.1, fun _ => hw.1⟩
  intro i _ c _
  exact fresh_delete_call (fun _ _ _ _ hw' _ => hw') fun w hw => hw.eraseConfig c.key

theorem reconcile_manned :
    WorkerTriple fill key (Manned key) (reconcile r now key) fun _ => Manned key := by
  refine reconcile_triple (fun cluster w => cluster.key = key ∧ Manned key w) quiet_manned
    stable_manned stable_manned stable_manned (fresh_get_call (fun _ hw => hw) (fun _ _ _ h => h)
      (fun w cluster hw hlive => ⟨hw.formed.keyed cluster hlive, hw⟩) fun _ hw _ => hw) ?_ ?_
  · rintro cluster _ w ⟨rfl, hw⟩
    exact reconcileScaleToZero_manned w hw
  · rintro cluster _ w ⟨rfl, hw⟩
    exact reconcileConfigs_manned w hw

end Worker

/-! ## Every run -/

/-- In every state of every run, a config that is neither Applied nor
Superseded finds Robin's Deployment, ServiceAccount, Role and RoleBinding. -/
theorem pending_config_has_robin (fill : Deployment → Deployment) (key : NamespacedName)
    {m : Machine Call Resp (Except Err Result) World}
    (hm : Reachable (workerRuns fill key) (Reconciles key) (Unstaffed key) m)
    {c : RedkeyConfig} (hc : c ∈ m.shared.configsOf key)
    (hpending : c.status.configPhase ≠ .applied ∧ c.status.configPhase ≠ .superseded) :
    ∀ k, (m.shared.store.robin k (robinKeyOf key)).isSome := by
  have hmanned : Manned key m.shared := by
    refine reachable_always (I := Manned key) (Q := fun _ => Manned key)
      (G := Worker.KeepsManned key) (fun w hw => hw.manned) Worker.stable_manned (fun _ => Worker.stable_manned)
      (fun _ _ hw => hw) ?_ (fun w hw => hw.manned) Worker.stable_manned (fun _ _ _ _ hG => hG) hm
    rintro p ⟨r, now, rfl⟩ w hw
    exact Worker.reconcile_manned.entry hw
  refine hmanned.staffed ⟨c, hc, ?_⟩
  simp [isTerminalConfigPhase, hpending]

/-- The first reconcile of a new cluster, with a config to work on. -/
def staffedReconcile : Machine Call Resp (Except Err Result) World :=
  Machine.advance (fun c w => World.answer id (fun _ => false) c w) 12
    ⟨World.initial sampleCluster, some (reconcile { resyncInterval := 60 } 7 sampleCluster.key)⟩

/-- It is a run from a state without configs. -/
theorem staffedReconcile_reachable :
    Reachable (workerRuns id sampleCluster.key) (Reconciles sampleCluster.key)
      (Unstaffed sampleCluster.key) staffedReconcile := by
  have hinit : Unstaffed sampleCluster.key (World.initial sampleCluster) :=
    ⟨World.initial_formed sampleCluster, rfl, fun _ _ h => by cases h⟩
  exact World.reachable_answer id _ ((Reachable.idle hinit).start ⟨_, _, rfl⟩) 12
    fun p _ => Prog.checks_true _ _ p _

theorem staffedReconcile_has_robin :
    staffedReconcile.shared.configsOf sampleCluster.key = [newConfig sampleCluster none] ∧
    ∀ k, (staffedReconcile.shared.store.robin k (robinKeyOf sampleCluster.key)).isSome := by
  have hconfigs : staffedReconcile.shared.configsOf sampleCluster.key =
      [newConfig sampleCluster none] := rfl
  refine ⟨hconfigs, pending_config_has_robin id sampleCluster.key staffedReconcile_reachable
    (c := newConfig sampleCluster none) ?_ ?_⟩
  · rw [hconfigs]
    exact List.mem_singleton_self _
  · decide

end RedkeyOperator
