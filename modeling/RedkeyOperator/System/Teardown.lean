import RedkeyOperator.System.Fresh

/-!
# Teardown

A reconcile of a cluster whose highest config has `primaries = 0` and is Applied tears everything
down: the Deployment, the RBAC objects, and the configs in the order the API server lists them. A
call that fails stops it, and the retry decides anew what to do from the configs that are left.

When the list is in an order in which, whatever prefix is deleted, the highest config of the rest
still has `primaries = 0` and is Applied, every retry goes on with the teardown, and the one that
succeeds leaves nothing behind (`teardown_goes_on`). The list is not sorted, though: with the
config that asks for zero listed first, a failure after its delete brings Robin back
(`teardown_undone`).
-/

namespace RedkeyOperator

open Interleaved Interleaved.Op

/-! ## The system -/

/-- The highest config asks for zero primaries and is Applied. This is what
the teardown waits for. -/
def HighestDone (configs : List RedkeyConfig) : Prop :=
  ∀ c ∈ configs, (∀ d ∈ configs, d.spec.sequence ≤ c.spec.sequence) →
    c.spec.primaries = 0 ∧ c.status.configPhase = .applied

/-- It stays that way while the list is deleted from the front. The deletions
may be cut short anywhere, so this is asked of every rest of the list. -/
def SafeOrder (items : List RedkeyConfig) : Prop :=
  ∀ rest, rest <:+ items → HighestDone rest

instance (configs : List RedkeyConfig) : Decidable (HighestDone configs) :=
  inferInstanceAs (Decidable (∀ c ∈ configs, (∀ d ∈ configs, d.spec.sequence ≤ c.spec.sequence) →
    c.spec.primaries = 0 ∧ c.status.configPhase = .applied))

instance (items : List RedkeyConfig) : Decidable (SafeOrder items) :=
  decidable_of_iff (∀ rest ∈ items.tails, HighestDone rest) (by simp [SafeOrder])

/-- The configs to delete, as they were listed. `deleteAllConfigs` does not
sort them. -/
def deletionOrder : (c : Call) → Resp c → Option (List RedkeyConfig)
  | .listConfigs _ _ _ .deleteAllConfigs, .ok items => some items
  | _, _ => none

/-- The configs to delete are listed in a safe order. The other calls are not
restricted. -/
def ListsInSafeOrder (c : Call) (_ : World) (r : Resp c) : Prop :=
  ∀ items ∈ deletionOrder c r, SafeOrder items

instance (c : Call) (w : World) (r : Resp c) : Decidable (ListsInSafeOrder c w r) :=
  inferInstanceAs (Decidable (∀ items ∈ deletionOrder c r, SafeOrder items))

/-- The request creates an object. -/
def Call.creates : Call → Bool
  | .createConfig _ => true
  | .create _ _ => true
  | _ => false

/-- Nobody but the operator moves, and any call may be lost, before or after
it had its effect. -/
def teardownRuns (fill : Deployment → Deployment) (ok : (c : Call) → World → Resp c → Prop) :
    Sem Call Resp World :=
  freshRuns fill (fun _ _ => False) ok

/-- The cluster is stored with `primaries = 0`. -/
def AtZero (key : NamespacedName) (w : World) : Prop :=
  ∃ live, w.store.redkeys key = some live ∧ live.key = key ∧ live.spec.primaries = 0

/-- The start: configs, the highest of which asks for zero and is Applied. The
next reconcile tears down. -/
structure TeardownDue (key : NamespacedName) (w : World) : Prop where
  zero : AtZero key w
  nodup : (w.store.configs.map RedkeyConfig.key).Nodup
  configs : w.configsOf key ≠ []
  highest : HighestDone (w.configsOf key)

/-- None of Robin's objects is left. -/
def RobinGone (key : NamespacedName) (w : World) : Prop :=
  ∀ k, w.store.robin k (robinKeyOf key) = none

/-- Robin's objects of the kinds are gone. -/
def GoneOf (key : NamespacedName) (kinds : List Kind) (w : World) : Prop :=
  ∀ k ∈ kinds, w.store.robin k (robinKeyOf key) = none

theorem GoneOf.setObj {key : NamespacedName} {w : World} {kinds : List Kind}
    (h : GoneOf key kinds w) (k : Kind) :
    GoneOf key (k :: kinds) (w.setObj k (robinKeyOf key) none) := by
  intro k' hk'
  by_cases hk : k' = k
  · subst hk
    exact w.store.setObj_self k' _ none
  · rw [World.setObj_store, w.store.setObj_of_ne_kind hk]
    exact h k' ((List.mem_cons.mp hk').resolve_left hk)

theorem goneOf_cons {key : NamespacedName} {w : World} {kinds : List Kind} {k : Kind}
    (h : GoneOf key kinds w) (hk : w.store.robin k (robinKeyOf key) = none) :
    GoneOf key (k :: kinds) w := by
  intro k' hk'
  rcases List.mem_cons.mp hk' with rfl | hk'
  · exact hk
  · exact h k' hk'

/-! ## The invariant -/

namespace Teardown

/-- Robin's objects of the kinds are gone, and the teardown is still due, or
over. It is over only once Robin is gone, which is deleted before the
configs. -/
structure Gone (key : NamespacedName) (kinds : List Kind) (w : World) : Prop where
  zero : AtZero key w
  nodup : (w.store.configs.map RedkeyConfig.key).Nodup
  highest : HighestDone (w.configsOf key)
  finished : w.configsOf key = [] → RobinGone key w
  gone : GoneOf key kinds w

/-- What holds whenever no reconcile is running. -/
abbrev Inv (key : NamespacedName) : World → Prop := Gone key []

/-- The teardown is over: no config is left, and no reconcile will create
one. -/
def Over (key : NamespacedName) (w : World) : Prop :=
  Inv key w ∧ w.configsOf key = []

/-- The configs of the cluster are the rest of the list, and this rest is in a
safe order. -/
structure Left (key : NamespacedName) (rest : List RedkeyConfig) (w : World) : Prop where
  gone : Inv key w
  robin : RobinGone key w
  perm : (w.configsOf key).Perm rest
  safe : SafeOrder rest

/-- No call creates anything, whatever it is answered. -/
def NoCreate (c : Call) (_ : World) (_ : Resp c) (_ : World) : Prop := c.creates = false

variable {key : NamespacedName} {kinds : List Kind} {w w' : World}
variable {fill : Deployment → Deployment}

/-- There are configs at the start, so nothing is over yet. -/
theorem inv_of_due (h : TeardownDue key w) : Inv key w :=
  ⟨h.zero, h.nodup, h.highest, fun hnone => absurd hnone h.configs, fun _ hk => by cases hk⟩

/-- Wherever a teardown stops, the retry can start from there. -/
theorem Gone.inv (h : Gone key kinds w) : Inv key w :=
  ⟨h.zero, h.nodup, h.highest, h.finished, fun _ hk => by cases hk⟩

theorem Gone.setObj (h : Gone key kinds w) (k : Kind) :
    Gone key (k :: kinds) (w.setObj k (robinKeyOf key) none) := by
  refine ⟨h.zero, h.nodup, h.highest, ?_, h.gone.setObj k⟩
  intro hnone k'
  have hgone : GoneOf key [k'] w := fun _ hk => List.mem_singleton.mp hk ▸ h.finished hnone k'
  exact hgone.setObj k k' (List.mem_cons_of_mem _ (List.mem_singleton_self k'))

/-- A status write leaves the spec alone. -/
theorem Gone.setRedkey (h : Gone key kinds w) {live written stored : Redkey}
    (hlive : w.store.redkeys key = some live) (hstored : live.writeStatus written = .ok stored) :
    Gone key kinds (w.setRedkey key stored) := by
  obtain ⟨old, hold, hkey, hzero⟩ := h.zero
  obtain rfl : live = old := Option.some.inj (hlive.symm.trans hold)
  have hzero' : AtZero key (w.setRedkey key stored) := by
    obtain ⟨-, rfl⟩ := Redkey.writeStatus_ok hstored
    exact ⟨_, Store.setRedkey_redkeys_self _ _ _, hkey, hzero⟩
  exact ⟨hzero', h.nodup, h.highest, h.finished, h.gone⟩

/-- Deleting the first config of the rest. -/
theorem Left.erase {c : RedkeyConfig} {rest : List RedkeyConfig} (h : Left key (c :: rest) w) :
    Left key rest (w.eraseConfig c.key) := by
  have hperm : ((w.eraseConfig c.key).configsOf key).Perm rest := by
    have hnodup : ((c :: rest).map RedkeyConfig.key).Nodup :=
      (h.perm.map _).nodup_iff.mp (h.gone.nodup.sublist (List.filter_sublist.map _))
    -- names are unique, so the others stay
    have hrest : Configs.erase (c :: rest) c.key = rest := by
      have hne : ∀ d ∈ rest, d.key ≠ c.key := fun d hd heq =>
        (List.nodup_cons.mp hnodup).1 (heq ▸ List.mem_map_of_mem hd)
      rw [Configs.erase, List.filter_cons_of_neg (by simp)]
      exact List.filter_eq_self.mpr fun d hd => decide_eq_true (hne d hd)
    rw [configsOf_eraseConfig, ← hrest]
    exact h.perm.filter _
  have hsafe : SafeOrder rest := fun rest' hrest' =>
    h.safe rest' (hrest'.trans (List.suffix_cons c rest))
  -- whatever is left, the highest config still asks for zero
  have hhighest : HighestDone ((w.eraseConfig c.key).configsOf key) := by
    intro d hd hmax
    exact hsafe rest List.suffix_rfl d (hperm.mem_iff.mp hd)
      fun e he => hmax e (hperm.mem_iff.mpr he)
  have hnodup : ((w.eraseConfig c.key).store.configs.map RedkeyConfig.key).Nodup :=
    h.gone.nodup.sublist (List.filter_sublist.map _)
  have hgone : Inv key (w.eraseConfig c.key) :=
    ⟨h.gone.zero, hnodup, hhighest, fun _ => h.robin, h.gone.gone⟩
  exact ⟨hgone, h.robin, hperm, hsafe⟩

/-- The highest listed config. A retry looks at it to decide what to do. -/
theorem Gone.last (h : Gone key kinds w) {L : List RedkeyConfig} {c : RedkeyConfig}
    (hperm : L.Perm (w.configsOf key))
    (hsorted : L.Pairwise fun a b => a.spec.sequence ≤ b.spec.sequence)
    (hlast : L.getLast? = some c) :
    c.spec.primaries = 0 ∧ c.status.configPhase = .applied := by
  refine h.highest c (hperm.mem_iff.mp (List.mem_of_getLast? hlast)) ?_
  exact fun d hd => sequence_le_getLast hsorted hlast (hperm.mem_iff.mpr hd)

/-! ## A reconcile -/

theorem stable {ok : (c : Call) → World → Resp c → Prop} (A : World → Prop) :
    Stable (teardownRuns fill ok) A :=
  fun _ _ hstep => hstep.2.elim

/-- A triple of the system with the invariant after errors. -/
abbrev TeardownTriple {α : Type} (fill : Deployment → Deployment) (key : NamespacedName)
    (A : World → Prop) (p : Rec α) (Q : α → World → Prop) : Prop :=
  Triple (teardownRuns fill ListsInSafeOrder) NoCreate (Inv key) A p Q

theorem quiet_noCreate {ok : (c : Call) → World → Resp c → Prop} :
    Quiet (teardownRuns fill ok) NoCreate :=
  fresh_quiet fun _ _ _ => rfl

variable {cluster : Redkey} {now : Time} {r : RedkeyReconciler}

/-- One of Robin's objects, which may be gone already. -/
theorem deleteIfPresent_triple {k : Kind} {text : String} :
    TeardownTriple fill key (Gone key kinds) (deleteIfPresent k (robinKeyOf key) text) fun _ =>
      Gone key (k :: kinds) := by
  refine fresh_deleteIfPresent_triple (stable _) (fun _ hw => hw.inv) (fun _ hw => hw.inv)
    (fun _ _ _ _ _ => rfl) (fun _ hw => hw.setObj k) ?_
  exact fun w hw hnone => { hw with gone := goneOf_cons hw.gone hnone }

theorem deleteRBAC_triple :
    TeardownTriple fill cluster.key (Gone cluster.key [.deployment]) (deleteRBAC cluster)
      fun _ w => Inv cluster.key w ∧ RobinGone cluster.key w := by
  refine (Triple.bind deleteIfPresent_triple fun _ => Triple.bind deleteIfPresent_triple fun _ =>
    deleteIfPresent_triple).post ?_
  intro _ w hw
  refine ⟨hw.inv, fun k => hw.gone k ?_⟩
  cases k <;> decide

/-- The configs, in the order in which they were listed. -/
theorem deleteAllConfigs_triple :
    TeardownTriple fill cluster.key (fun w => Inv cluster.key w ∧ RobinGone cluster.key w)
      (deleteAllConfigs cluster) fun _ => Over cluster.key := by
  refine Triple.bind (Q := fun r w => Outcome (Left cluster.key) (Inv cluster.key) r w)
    (Triple.request (stable _) (lossy_call (fun w hw => hw.1) (fun _ w hw => hw.gone)
      (fun _ _ _ hG => hG) (fun _ _ => rfl) ?_)) ?_
  · rintro w r w' ⟨hw, hrobin⟩ ⟨hok, hexec⟩
    -- the list is all there is, in some order
    obtain ⟨⟨items, hperm, rfl⟩, rfl⟩ := exec_listConfigs hexec
    exact ⟨rfl, hw, hrobin, hperm.symm, hok items rfl⟩
  · intro r
    match r with
    | .error e => exact Triple.throw fun _ hw => hw
    | .ok items =>
        refine (deleteConfigs_triple (fun rest => stable (Left cluster.key rest)) items ?_).post ?_
        · intro c rest _
          refine lossy_tolerating (by decide) (fun w hw => hw.gone) (fun _ w hw => hw.gone)
            (fun w hw => hw.gone) (fun _ _ _ hG => hG) (fun _ _ => rfl) ?_
          rintro w r w' hw ⟨-, hexec⟩
          obtain ⟨rfl | rfl, rfl⟩ := exec_deleteConfig hexec
          · exact ⟨rfl, hw.erase⟩
          · -- a config that is gone already is no failure
            exact ⟨rfl, tolerating_error.mpr ⟨fun _ => hw.erase, fun hne => absurd rfl hne⟩⟩
        · exact fun _ w hw => ⟨hw.gone, hw.perm.eq_nil⟩

/-- The status write at the end, accepted or not. -/
theorem scaledToZero_triple :
    TeardownTriple fill cluster.key (Over cluster.key) (updateStatusScaledToZero now cluster)
      fun _ => Over cluster.key := by
  refine api_triple (stable _) ?_
  intro w r w' hw hexec
  have hw' : Over cluster.key w' := by
    refine (fresh_write_call (G := NoCreate) (fun _ _ _ _ _ => rfl) (fun _ h => h) ?_ w r w' hw
      hexec).2
    exact fun w live stored hw hlive hstored => ⟨hw.1.setRedkey hlive hstored, hw.2⟩
  exact ⟨rfl, outcome_const hw' hw'.1⟩

/-- A reconcile goes on with the teardown, or has only the status left to
write. -/
theorem reconcileScaleToZero_over :
    TeardownTriple fill cluster.key (Inv cluster.key) (reconcileScaleToZero r now cluster) fun _ =>
      Over cluster.key := by
  let Listed (L : List RedkeyConfig) (w : World) : Prop := Inv cluster.key w ∧
    L.Perm (w.configsOf cluster.key) ∧ L.Pairwise fun a b => a.spec.sequence ≤ b.spec.sequence
  refine reconcileScaleToZero_triple Listed ?_ ?_ ?_ ?_ ?_
  · refine fresh_list_triple (stable _) (fun _ hw => hw) (fun _ _ _ => rfl) ?_
    exact fun w items hw hperm _ =>
      ⟨hw, (perm_sortBySequence items).trans hperm, sorted_sortBySequence items⟩
  · exact scaledToZero_triple.pre fun w hw => ⟨hw.1, hw.2.1.nil_eq.symm⟩
  -- the other two cases need a highest config that asks for more or is not Applied
  · intro L c hlast hp w hw
    exact absurd (hw.1.last hw.2.1 hw.2.2 hlast).1 hp
  · intro L c _ _ _
    refine Triple.bind (deleteIfPresent_triple.pre fun w (hw : Listed L w) => hw.1) fun _ => ?_
    refine Triple.bind deleteRBAC_triple fun _ => ?_
    exact Triple.bind deleteAllConfigs_triple fun _ => scaledToZero_triple
  · intro L c hlast _ hphase w hw
    exact absurd (hw.1.last hw.2.1 hw.2.2 hlast).2 hphase

/-- A reconcile that succeeds has torn everything down. -/
theorem reconcile_over :
    TeardownTriple fill key (Inv key) (reconcile r now key) fun _ => Over key := by
  refine reconcile_triple
    (fun cluster w => cluster.key = key ∧ cluster.spec.primaries = 0 ∧ Inv key w) quiet_noCreate
    (stable _) (stable _) (stable _) (fresh_get_call (fun _ hw => hw) (fun _ _ _ => rfl) ?_ ?_)
    ?_ ?_
  · intro w cluster hw hcluster
    -- the snapshot is the live Redkey, which asks for zero
    obtain ⟨live, hlive, hkey, hzero⟩ := hw.zero
    obtain rfl : cluster = live := Option.some.inj (hcluster.symm.trans hlive)
    exact ⟨hkey, hzero, hw⟩
  · intro w hw hnone
    obtain ⟨live, hlive, -⟩ := hw.zero
    rw [hnone] at hlive
    cases hlive
  · rintro cluster _ w ⟨rfl, -, hw⟩
    exact reconcileScaleToZero_over w hw
  · rintro cluster hp w ⟨-, hzero, -⟩
    exact absurd hzero hp

/-- What is left after a reconcile, successful or not. -/
theorem entry_wp (p : Rec Result) (hp : Reconciles key p) (w : World) (hw : Inv key w) :
    Interleaved.wp (teardownRuns fill ListsInSafeOrder) NoCreate
      (fun x w => Outcome (fun _ => Over key) (Inv key) x w) p w := by
  obtain ⟨r, now, rfl⟩ := hp
  refine Interleaved.wp_mono ?_ (reconcile_over w hw)
  intro x w hx
  cases x with
  | ok _ => exact hx
  | error _ => exact hx

/-- In both cases the next reconcile starts from the invariant. -/
theorem inv_of_outcome (x : Except Err Result) (w : World)
    (h : Outcome (fun _ => Over key) (Inv key) x w) : Inv key w := by
  cases x with
  | ok _ => exact h.1
  | error _ => exact h

end Teardown

/-! ## Every run -/

/-- As long as the configs to delete are listed in a safe order, no call of
any reconcile creates anything, and a reconcile that returns without error
leaves nothing behind. -/
theorem teardown_goes_on (fill : Deployment → Deployment) (key : NamespacedName)
    {m : Machine Call Resp (Except Err Result) World}
    (hm : Reachable (teardownRuns fill ListsInSafeOrder) (Reconciles key) (TeardownDue key) m) :
    (∀ c k, m.thread = some (.call c k) → c.creates = false) ∧
    (∀ res, m.thread = some (.ret (.ok res)) →
      m.shared.configsOf key = [] ∧ ∀ k, m.shared.store.robin k (robinKeyOf key) = none) := by
  obtain ⟨w, t⟩ := m
  refine ⟨?_, ?_⟩
  · rintro c k rfl
    -- a call that is lost shows what the call is
    exact reachable_call (fun w => Teardown.inv_of_due) (Teardown.stable _)
      (fun _ => Teardown.stable _) Teardown.inv_of_outcome Teardown.entry_wp hm
      (Or.inr ⟨rfl, Or.inl rfl⟩)
  · rintro res rfl
    obtain ⟨hinv, hnone⟩ := reachable_ret (fun w => Teardown.inv_of_due) (Teardown.stable _)
      (fun _ => Teardown.stable _) Teardown.inv_of_outcome Teardown.entry_wp hm
    exact ⟨hnone, hinv.finished hnone⟩

/-- The sample cluster, scaled to zero. -/
def idleCluster : Redkey :=
  { sampleCluster with spec := { sampleCluster.spec with primaries := 0 } }

/-- The config for its three primaries. -/
def threeApplied : RedkeyConfig :=
  { newConfig sampleCluster none with status := { configPhase := .applied } }

/-- And the one for none. -/
def zeroApplied : RedkeyConfig :=
  { newConfig idleCluster (some threeApplied) with status := { configPhase := .applied } }

/-- The store that lists the configs in the order given. -/
def teardownStart (configs : List RedkeyConfig) : World :=
  { World.initial idleCluster with
    store := { (World.initial idleCluster).store with configs := configs } }

theorem teardownStart_due (configs : List RedkeyConfig)
    (hnodup : (configs.map RedkeyConfig.key).Nodup)
    (hconfigs : (teardownStart configs).configsOf idleCluster.key ≠ [])
    (hhighest : HighestDone ((teardownStart configs).configsOf idleCluster.key)) :
    TeardownDue idleCluster.key (teardownStart configs) :=
  ⟨⟨idleCluster, by simp [teardownStart, World.initial], rfl, rfl⟩, hnodup, hconfigs, hhighest⟩

/-- A teardown in a safe order, from its first call to its result. -/
def wholeTeardown : Machine Call Resp (Except Err Result) World :=
  Machine.advance (fun c w => World.answer id (fun _ => false) c w) 30
    ⟨teardownStart [threeApplied, zeroApplied],
      some (reconcile { resyncInterval := 60 } 7 idleCluster.key)⟩

/-- The config for zero primaries is listed last. -/
theorem wholeTeardown_reachable :
    Reachable (teardownRuns id ListsInSafeOrder) (Reconciles idleCluster.key)
      (TeardownDue idleCluster.key) wholeTeardown := by
  have hdue := teardownStart_due [threeApplied, zeroApplied] (by decide +kernel)
    (by decide +kernel) (by decide +kernel)
  refine World.reachable_answer id _ ((Reachable.idle hdue).start ⟨_, _, rfl⟩) 30 ?_
  rintro p ⟨rfl⟩
  decide +kernel

/-- Nothing is left after this run. -/
theorem wholeTeardown_leaves_nothing :
    wholeTeardown.shared.configsOf idleCluster.key = [] ∧
      ∀ k, wholeTeardown.shared.store.robin k (robinKeyOf idleCluster.key) = none :=
  (teardown_goes_on id idleCluster.key wholeTeardown_reachable).2 { requeueAfter := 60 } rfl

/-- The call that is about to be made creates something. -/
def aboutToCreate (t : Option (Rec Result)) : Bool :=
  match t with
  | some (.call c _) => c.creates
  | _ => false

theorem aboutToCreate_eq {t : Option (Rec Result)} (h : aboutToCreate t = true) :
    ∃ c k, t = some (.call c k) ∧ c.creates = true := by
  unfold aboutToCreate at h
  split at h
  case h_1 c k => exact ⟨c, k, rfl, h⟩
  case h_2 => cases h

/-- The server cannot delete the config for three primaries. -/
def threeStuck : Call → Bool
  | .deleteConfig key => key = threeApplied.key
  | _ => false

/-- The config for zero is listed, and deleted, first; the other delete
fails. -/
def brokenTeardown : Machine Call Resp (Except Err Result) World :=
  Machine.advance (fun c w => World.answer id threeStuck c w) 30
    ⟨teardownStart [zeroApplied, threeApplied],
      some (reconcile { resyncInterval := 60 } 7 idleCluster.key)⟩

/-- The retry, up to the config it creates. -/
def retriedTeardown : Machine Call Resp (Except Err Result) World :=
  Machine.advance (fun c w => World.answer id (fun _ => false) c w) 11
    ⟨brokenTeardown.shared, some (reconcile { resyncInterval := 60 } 8 idleCluster.key)⟩

/-- The retry finds only the config for three primaries. -/
theorem retriedTeardown_reachable :
    Reachable (teardownRuns id fun _ _ _ => True) (Reconciles idleCluster.key)
      (TeardownDue idleCluster.key) retriedTeardown := by
  have hdue := teardownStart_due [zeroApplied, threeApplied] (by decide +kernel)
    (by decide +kernel) (by decide +kernel)
  have hbroken : Reachable (teardownRuns id fun _ _ _ => True) (Reconciles idleCluster.key)
      (TeardownDue idleCluster.key) brokenTeardown := by
    refine World.reachable_answer id _ ((Reachable.idle hdue).start ⟨_, _, rfl⟩) 30 ?_
    rintro p ⟨rfl⟩
    decide +kernel
  have hidle := hbroken.finish (by decide +kernel)
  exact World.reachable_answer id _ (hidle.start ⟨_, _, rfl⟩) 11 fun p _ => Prog.checks_true _ _ p _

/-- Without a safe order the retry of a teardown creates Robin's objects
again, and a config. -/
theorem teardown_undone :
    ∃ m, Reachable (teardownRuns id fun _ _ _ => True) (Reconciles idleCluster.key)
      (TeardownDue idleCluster.key) m ∧ ∃ c k, m.thread = some (.call c k) ∧ c.creates = true :=
  ⟨retriedTeardown, retriedTeardown_reachable, aboutToCreate_eq (by decide +kernel)⟩

end RedkeyOperator
