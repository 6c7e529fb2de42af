import RedkeyOperator.System.Fresh

/-!
# Undisturbed reconciles

A reconcile during which nobody else moves and no call fails. What it does to the store is a
function of the store and the clock (`World.effect`), whatever order the configs are listed in: the
functions of the controller each have an exact specification, from one world to another, and
`reconcile_effect` puts them together.
-/

namespace RedkeyOperator

open Interleaved Interleaved.Op

/-- An undisturbed reconcile, at any time and with any settings: every call is
answered by the server and nobody else makes a step. -/
def ReconcileRuns (fill : Deployment → Deployment) (key : NamespacedName) (w : World)
    (x : Except Err Result) (w' : World) : Prop :=
  ∃ settings now, Runs (fresh fill fun _ _ => False) (reconcile settings now key) w x w'

/-- A triple without errors. -/
abbrev EndsTriple {α : Type} (fill : Deployment → Deployment) (A : World → Prop) (p : Rec α)
    (Q : α → World → Prop) : Prop :=
  Triple (fresh fill fun _ _ => False) (fun _ _ _ _ => True) (fun _ => False) A p Q

variable {fill : Deployment → Deployment}

/-- Nobody else moves, so everything is stable. -/
theorem still (A : World → Prop) : Stable (fresh fill fun _ _ => False) A :=
  fun _ _ hstep => hstep.elim

theorem ends_quiet : Quiet (fresh fill fun _ _ => False) fun _ _ _ _ => True where
  state _ _ _ _ := exec_metric
  free _ _ _ := trivial

/-- The world after an undisturbed reconcile, computed. It is used for
concrete runs; the general statements go through `World.effect`. -/
def World.settled (fill : Deployment → Deployment) (key : NamespacedName) (w : World) : World :=
  ((reconcile { resyncInterval := 60 } 7 key).run (fun c w => w.served fill c) w).2

/-- Running the program on the server is an undisturbed reconcile. -/
theorem reconcileRuns_settled (fill : Deployment → Deployment) (key : NamespacedName) (w : World) :
    ∃ x, ReconcileRuns fill key w x (w.settled fill key) :=
  ⟨_, _, _, runs_run (World.served_exec fill) _ _⟩

/-! ## Robin's objects -/

/-- The object as a reconcile of the cluster leaves it: as it is built where
there is none, and otherwise with the parts replaced that the operator looks
after. -/
def ensured (fill : Deployment → Deployment) (cluster : Redkey) :
    (k : Kind) → Option (Obj k) → Obj k
  | .serviceAccount, none => desiredSA cluster
  | .serviceAccount, some (existing : ServiceAccount) =>
      ({ metadata := existing.metadata.relabel (rbacMeta cluster) } : ServiceAccount)
  | .role, none => desiredRole cluster
  | .role, some (existing : Role) =>
      ({ metadata := existing.metadata.relabel (rbacMeta cluster)
         rules := desiredRobinRules } : Role)
  | .roleBinding, none => desiredRB cluster
  -- the reference to the Role is immutable, so a binding with another one is replaced
  | .roleBinding, some (existing : RoleBinding) =>
      if existing.roleRef ≠ (desiredRB cluster).roleRef then desiredRB cluster
      else { existing with
        metadata := existing.metadata.relabel (rbacMeta cluster)
        subjects := (desiredRB cluster).subjects }
  | .deployment, none => fill (buildDesiredRobinDeployment cluster)
  -- the Deployment is left alone when it already has all that is asked for
  | .deployment, some (existing : Deployment) =>
      if robinDeploymentNeedsUpdate existing (buildDesiredRobinDeployment cluster) then
        fill (patchedDeployment existing (buildDesiredRobinDeployment cluster))
      else existing

namespace World

variable {w : World}

/-- The world with the object of the kind ensured. -/
def ensure (fill : Deployment → Deployment) (cluster : Redkey) (k : Kind) (w : World) : World :=
  w.setObj k (robinKey cluster) (some (ensured fill cluster k (w.store.robin k (robinKey cluster))))

/-- Storing what is stored changes nothing. -/
theorem setObj_eq_self {k : Kind} {key : NamespacedName} {obj : Option (Obj k)}
    (h : w.store.robin k key = obj) : w.setObj k key obj = w := by
  rw [setObj, w.store.setObj_eq_self h]

theorem setObj_setObj (k : Kind) (key : NamespacedName) (obj obj' : Option (Obj k)) :
    (w.setObj k key obj).setObj k key obj' = w.setObj k key obj' := by
  simp only [setObj, Store.setObj_setObj]

end World

/-- Robin's objects of the cluster are stored under their own key. -/
def RobinKeyed (key : NamespacedName) (w : World) : Prop :=
  ∀ k obj, w.store.robin k key = some obj → (Obj.metadata obj).key = key

/-- From exactly this world to exactly that one. An exact specification of
this kind can be chained without invariants. -/
abbrev Leads {α : Type} (fill : Deployment → Deployment) (w : World) (p : Rec α) (w' : World) :
    Prop :=
  EndsTriple fill (fun v => v = w) p fun _ v => v = w'

section Robin

variable {k : Kind} {key : NamespacedName} {obj : Obj k} {w w' : World} {cluster : Redkey}

/-- A create of an object that is not there succeeds. -/
theorem create_leads (hkey : obj.metadata.key = key) (h : w.store.robin k key = none) :
    Leads fill w (api (.create k obj)) (w.setObj k key (some (withDefaults fill k obj))) := by
  subst hkey
  refine api_triple (still _) ?_
  rintro _ r w' rfl hexec
  rcases exec_create hexec with ⟨rfl, -, rfl⟩ | ⟨-, hsome, -⟩
  · exact ⟨trivial, rfl⟩
  · simp [h] at hsome

/-- A patch of an object that is there succeeds. -/
theorem patch_leads (hkey : obj.metadata.key = key) (h : (w.store.robin k key).isSome) :
    Leads fill w (api (.patch k obj)) (w.setObj k key (some (withDefaults fill k obj))) := by
  subst hkey
  refine api_triple (still _) ?_
  rintro _ r w' rfl hexec
  rcases exec_patch hexec with ⟨rfl, -, rfl⟩ | ⟨-, hnone, -⟩
  · exact ⟨trivial, rfl⟩
  · simp [hnone] at h

theorem delete_leads {key' : NamespacedName} (hkey : key' = key)
    (h : (w.store.robin k key).isSome) :
    Leads fill w (api (.delete k key')) (w.setObj k key none) := by
  subst hkey
  refine api_triple (still _) ?_
  rintro _ r w' rfl hexec
  rcases exec_delete hexec with ⟨rfl, rfl⟩ | ⟨-, hnone, -⟩
  · exact ⟨trivial, rfl⟩
  · simp [hnone] at h

/-- What was read decides which of the two continuations runs, and the world
has not changed in between. -/
theorem withExisting_leads {absent : Rec Unit} {present : Obj k → Rec Unit}
    (habsent : w.store.robin k key = none → Leads fill w absent w')
    (hpresent : ∀ obj, w.store.robin k key = some obj → Leads fill w (present obj) w') :
    Leads fill w (withExisting k key absent present) w' := by
  refine Triple.bind (Q := fun r v => v = w ∧ r = find (w.store.robin k) key)
    (Triple.request (still _) ?_) ?_
  · rintro _ r w' rfl hexec
    rcases exec_get hexec with ⟨hr, rfl⟩
    exact ⟨trivial, rfl, hr⟩
  · -- the answer is that of the store
    rintro r v ⟨rfl, hr⟩
    cases hobj : v.store.robin k key with
    | none =>
        rw [find, hobj] at hr
        subst hr
        exact habsent hobj v rfl
    | some obj =>
        rw [find, hobj] at hr
        subst hr
        exact hpresent obj hobj v rfl

/-- Metadata that has not drifted is relabelled to itself. -/
theorem relabel_of_not_drifted {existing desired : ObjectMeta}
    (h : ¬ existing.drifted desired = true) : existing.relabel desired = existing := by
  simp only [ObjectMeta.drifted, decide_eq_true_eq, not_or, not_not] at h
  rw [ObjectMeta.relabel, ← h.1, ← h.2]

/-- Each `ensure*` function stores the ensured object, and skips the request
when this would change nothing. -/
theorem ensureServiceAccount_leads (hkeyed : RobinKeyed (robinKey cluster) w) :
    Leads fill w (ensureServiceAccount cluster) (w.ensure fill cluster .serviceAccount) := by
  refine withExisting_leads ?_ ?_
  · intro hnone
    rw [World.ensure, hnone]
    exact create_leads rfl hnone
  · intro existing hsome
    rw [World.ensure, hsome]
    dsimp only
    split
    case isTrue => exact patch_leads (hkeyed .serviceAccount existing hsome) (by simp [hsome])
    -- no request, as the object is already the ensured one
    case isFalse hsame =>
      rw [World.setObj_eq_self (hsome.trans (congrArg some ?_))]
      · exact Triple.pure fun _ h => h
      · rw [ensured, relabel_of_not_drifted hsame]

/-- The Role, whose rules are compared as a whole. -/
theorem ensureRole_leads (hkeyed : RobinKeyed (robinKey cluster) w) :
    Leads fill w (ensureRole cluster) (w.ensure fill cluster .role) := by
  refine withExisting_leads ?_ ?_
  · intro hnone
    rw [World.ensure, hnone]
    exact create_leads rfl hnone
  · intro existing hsome
    rw [World.ensure, hsome]
    dsimp only
    split
    case isTrue => exact patch_leads (hkeyed .role existing hsome) (by simp [hsome])
    case isFalse hsame =>
      rw [not_or, not_ne_iff] at hsame
      rw [World.setObj_eq_self (hsome.trans (congrArg some ?_))]
      · exact Triple.pure fun _ h => h
      · rw [ensured, relabel_of_not_drifted hsame.2, ← hsame.1]

/-- The binding, with its three cases: replaced, patched, left alone. -/
theorem ensureRoleBinding_leads (hkeyed : RobinKeyed (robinKey cluster) w) :
    Leads fill w (ensureRoleBinding cluster) (w.ensure fill cluster .roleBinding) := by
  refine withExisting_leads ?_ ?_
  · intro hnone
    rw [World.ensure, hnone]
    exact create_leads rfl hnone
  · intro existing hsome
    have hkey := hkeyed .roleBinding existing hsome
    rw [World.ensure, hsome, ensured]
    dsimp only
    split
    case isTrue =>
      -- another role: deleted and created again
      rw [← World.setObj_setObj .roleBinding (robinKey cluster) none]
      refine Triple.bind (delete_leads hkey (by simp [hsome])) fun _ => ?_
      exact create_leads rfl (Store.setObj_self _ _ _ _)
    case isFalse =>
      split
      case isTrue => exact patch_leads hkey (by simp [hsome])
      case isFalse hsame =>
        rw [not_or, not_ne_iff] at hsame
        rw [World.setObj_eq_self (hsome.trans (congrArg some ?_))]
        · exact Triple.pure fun _ h => h
        · rw [relabel_of_not_drifted hsame.2, ← hsame.1]

/-- The Deployment, which is compared by what the operator asks for and not by
equality. -/
theorem ensureRobinDeployment_leads (hkeyed : ∀ existing : Deployment,
      w.store.robin .deployment (robinKey cluster) = some existing →
      existing.metadata.key = robinKey cluster) :
    Leads fill w (ensureRobinDeployment cluster) (w.ensure fill cluster .deployment) := by
  change Leads fill w (withExisting .deployment (robinKey cluster) _ _) _
  refine withExisting_leads ?_ ?_
  · intro hnone
    rw [World.ensure, hnone]
    exact Triple.bind (create_leads rfl hnone) fun _ => metric_triple ends_quiet (still _)
  · intro existing hsome
    rw [World.ensure, hsome, ensured]
    split
    case isTrue =>
      exact Triple.bind (patch_leads (hkeyed existing hsome) (by simp [hsome]))
        fun _ => metric_triple ends_quiet (still _)
    case isFalse =>
      rw [World.setObj_eq_self hsome]
      exact Triple.pure fun _ h => h

/-- The world with all of Robin's objects ensured: created if they were
missing, repaired if they had drifted. -/
def World.ensureRobin (fill : Deployment → Deployment) (cluster : Redkey) (w : World) : World :=
  w.setRobin fun k => Function.update (w.store.robin k) (robinKey cluster)
    (some (ensured fill cluster k (w.store.robin k (robinKey cluster))))

/-- Ensuring one kind leaves the others alone. -/
theorem World.ensure_robin_ne {k' : Kind} (h : k' ≠ k) :
    (w.ensure fill cluster k).store.robin k' = w.store.robin k' := by
  funext key
  exact congrFun (w.store.setObj_of_ne_kind h) _

/-- The four kinds one after the other are all of Robin's objects. -/
theorem World.ensure_ensure :
    (((w.ensure fill cluster .serviceAccount).ensure fill cluster .role).ensure fill cluster
      .roleBinding).ensure fill cluster .deployment = w.ensureRobin fill cluster := by
  refine World.ext ?_ rfl rfl
  simp only [World.ensure, World.setObj, Store.setObj, Store.setObjs, World.ensureRobin,
    World.setRobin]
  congr 1
  funext k
  cases k <;> simp [Function.update]

/-- Ensured objects have the key of Robin's objects. The API server's defaults
must not change the metadata. -/
theorem ensured_key (hfill : ∀ d, (fill d).metadata = d.metadata) {existing : Option (Obj k)}
    (h : ∀ obj, existing = some obj → (Obj.metadata obj).key = robinKey cluster) :
    (Obj.metadata (ensured fill cluster k existing)).key = robinKey cluster := by
  cases existing with
  | none =>
      cases k with
      | deployment => exact congrArg ObjectMeta.key (hfill _)
      | _ => rfl
  -- a patched object keeps its metadata but for labels and annotations
  | some obj =>
      have hobj := h obj rfl
      cases k with
      | serviceAccount => exact hobj
      | role => exact hobj
      | roleBinding =>
          rw [ensured]
          split
          · rfl
          · exact hobj
      | deployment =>
          rw [ensured]
          split
          · exact (congrArg ObjectMeta.key (hfill _)).trans hobj
          · exact hobj

/-- So the next kind is ensured in a world of the same form. -/
theorem RobinKeyed.ensure (hfill : ∀ d, (fill d).metadata = d.metadata)
    (h : RobinKeyed (robinKey cluster) w) : RobinKeyed (robinKey cluster) (w.ensure fill cluster k) := by
  intro k' obj hobj
  by_cases hk : k' = k
  · subst hk
    rw [World.ensure, World.setObj_store, Store.setObj_self] at hobj
    obtain rfl := Option.some.inj hobj
    exact ensured_key hfill (h k')
  · rw [World.ensure_robin_ne hk] at hobj
    exact h k' obj hobj

/-- The ServiceAccount, the Role and the binding, in this order. -/
theorem ensureRBAC_leads (hfill : ∀ d, (fill d).metadata = d.metadata)
    (h : RobinKeyed (robinKey cluster) w) :
    Leads fill w (ensureRBAC cluster) (((w.ensure fill cluster .serviceAccount).ensure fill cluster
      .role).ensure fill cluster .roleBinding) :=
  Triple.bind (ensureServiceAccount_leads h) fun _ =>
    Triple.bind (ensureRole_leads (h.ensure hfill)) fun _ =>
      ensureRoleBinding_leads ((h.ensure hfill).ensure hfill)

theorem ensureDeployment_leads (hfill : ∀ d, (fill d).metadata = d.metadata)
    (h : RobinKeyed (robinKey cluster) w) :
    Leads fill (((w.ensure fill cluster .serviceAccount).ensure fill cluster .role).ensure fill
      cluster .roleBinding) (ensureRobinDeployment cluster) (w.ensureRobin fill cluster) :=
  World.ensure_ensure ▸
    ensureRobinDeployment_leads ((((h.ensure hfill).ensure hfill).ensure hfill) .deployment)

end Robin

/-! ## Configs -/

namespace World

variable {w : World} {key : NamespacedName}

/-- The configs of the cluster as `listConfigs` returns them. -/
def listed (key : NamespacedName) (w : World) : List RedkeyConfig :=
  sortBySequence (w.configsOf key)

/-- The sequences of the cluster's configs are pairwise distinct. Then there
is only one way to sort them. -/
def Distinct (key : NamespacedName) (w : World) : Prop :=
  ∀ c ∈ w.configsOf key, ∀ d ∈ w.configsOf key, c.spec.sequence = d.spec.sequence → c = d

/-- The world after `createNewConfig`: a config with a name that is taken is
not created, and this is no error. -/
def withConfig (cluster : Redkey) (highest : Option RedkeyConfig) (w : World) : World :=
  if Configs.has w.store.configs (newConfig cluster highest).key then w
  else w.addConfig (newConfig cluster highest)

/-- The world without the configs of the list. -/
def eraseConfigs (items : List RedkeyConfig) (w : World) : World :=
  { w with store := { w.store with
      configs := w.store.configs.filter fun c => decide (∀ d ∈ items, c.key ≠ d.key) } }

theorem eraseConfigs_nil : w.eraseConfigs [] = w := by
  simp [eraseConfigs]

/-- The first deletion, and then the others. -/
theorem eraseConfigs_cons (c : RedkeyConfig) (items : List RedkeyConfig) :
    (w.eraseConfig c.key).eraseConfigs items = w.eraseConfigs (c :: items) := by
  refine World.ext ?_ rfl rfl
  simp only [eraseConfigs, eraseConfig, Configs.erase, List.filter_filter, List.forall_mem_cons]
  congr 2
  funext d
  rw [Bool.and_comm, ← Bool.decide_and]

/-- The order of the deletions does not matter for what is left. -/
theorem eraseConfigs_perm {items items' : List RedkeyConfig} (h : items.Perm items') :
    w.eraseConfigs items = w.eraseConfigs items' := by
  refine World.ext ?_ rfl rfl
  simp only [eraseConfigs, h.mem_iff]

/-- What is left of the cluster's configs. -/
theorem configsOf_eraseConfigs (items : List RedkeyConfig) :
    (w.eraseConfigs items).configsOf key =
      (w.configsOf key).filter fun c => decide (∀ d ∈ items, c.key ≠ d.key) := by
  simp only [configsOf, eraseConfigs, List.filter_filter]
  exact List.filter_congr fun c _ => Bool.and_comm _ _

theorem configsOf_eraseConfigs_all : (w.eraseConfigs (w.configsOf key)).configsOf key = [] := by
  rw [configsOf_eraseConfigs, List.filter_eq_nil_iff]
  intro c hc
  simp only [decide_eq_true_eq, not_forall]
  exact ⟨c, hc, fun hne => hne rfl⟩

theorem mem_listed {c : RedkeyConfig} : c ∈ w.listed key ↔ c ∈ w.configsOf key :=
  mem_sortBySequence

/-- A sorted list of the configs is the one that is listed. -/
theorem Distinct.eq_listed (h : w.Distinct key) {L : List RedkeyConfig}
    (hperm : L.Perm (w.configsOf key))
    (hsorted : L.Pairwise fun a b => a.spec.sequence ≤ b.spec.sequence) : L = w.listed key := by
  refine List.Perm.eq_of_pairwise ?_ hsorted (sorted_sortBySequence _)
    (hperm.trans (perm_sortBySequence _).symm)
  intro a b ha hb hab hba
  exact h a (hperm.mem_iff.mp ha) b (mem_listed.mp hb) (le_antisymm hab hba)

end World

section Configs

variable {w : World} {cluster : Redkey} {now : Time}

/-- The order in which the server lists the configs is lost by sorting
them. -/
theorem list_leads (h : w.Distinct cluster.key) :
    EndsTriple fill (fun v => v = w) (listConfigs cluster) fun L v =>
      v = w ∧ L = w.listed cluster.key := by
  refine listConfigs_triple (still _) ?_
  rintro _ r w' rfl hexec
  rcases exec_listConfigs hexec with ⟨⟨items, hperm, rfl⟩, rfl⟩
  exact ⟨trivial, rfl, h.eq_listed ((perm_sortBySequence items).trans hperm)
    (sorted_sortBySequence items)⟩

/-- The two ways in which `createNewConfig` ends well. -/
theorem createNewConfig_leads {highest : Option RedkeyConfig} :
    Leads fill w (createNewConfig cluster highest) (w.withConfig cluster highest) := by
  refine createNewConfig_triple ends_quiet (still _) (still _) ?_
  rintro _ r w' rfl hexec
  refine ⟨trivial, ?_⟩
  rcases exec_createConfig hexec with ⟨rfl, hnew, rfl⟩ | ⟨rfl, hfound, rfl⟩
  · -- created
    change _ = World.withConfig _ _ _
    rw [World.withConfig, if_neg]
    exact Bool.eq_false_iff.mp (Configs.not_has_iff.mpr hnew)
  · -- a config with that name is there already
    refine tolerating_error.mpr ⟨fun _ => ?_, fun hne => absurd rfl hne⟩
    rw [World.withConfig, if_pos (Configs.has_iff.mpr hfound)]

/-- A deletion, after which the config is gone one way or the other. -/
theorem deleteConfig_leads {key : NamespacedName} :
    EndsTriple fill (fun v => v = w) (attempt (.deleteConfig key)) fun r v =>
      v = w.eraseConfig key ∧ (r = .ok () ∨ r = .error .notFound) := by
  refine Triple.request (still _) ?_
  rintro _ r w' rfl hexec
  exact ⟨trivial, (exec_deleteConfig hexec).2, (exec_deleteConfig hexec).1⟩

/-- The loop of the cleanup, without failures. The induction is over what is
still to be deleted, in any world. -/
theorem deleteSuperseded_leads (old kept : List RedkeyConfig) :
    EndsTriple fill (fun v => v = w) (deleteSuperseded old kept) fun res v =>
      v = w.eraseConfigs old ∧ res = (kept, none) := by
  induction old generalizing w with
  | nil => exact Triple.pure fun v hv => ⟨hv.trans World.eraseConfigs_nil.symm, rfl⟩
  | cons c old ih =>
      refine Triple.bind deleteConfig_leads ?_
      rw [← World.eraseConfigs_cons]
      rintro r v ⟨rfl, rfl | rfl⟩
      · -- deleted and counted
        exact Triple.bind (metric_triple ends_quiet (still _)) (fun _ => ih) _ rfl
      · -- gone before
        exact ih _ rfl

/-- The cleanup deletes exactly the superseded configs. -/
theorem cleanup_leads (L : List RedkeyConfig) :
    EndsTriple fill (fun v => v = w) (cleanupSupersededConfigs L) fun res v =>
      v = w.eraseConfigs (superseded L) ∧ res = (afterCleanup L, none) := by
  unfold cleanupSupersededConfigs superseded afterCleanup
  split
  · exact Triple.pure fun v hv => ⟨hv.trans World.eraseConfigs_nil.symm, rfl⟩
  · cases lastApplied L with
    | none => exact Triple.pure fun v hv => ⟨hv.trans World.eraseConfigs_nil.symm, rfl⟩
    | some i => exact deleteSuperseded_leads _ _

theorem deleteConfigs_leads (items : List RedkeyConfig) :
    Leads fill w (deleteConfigs items) (w.eraseConfigs items) := by
  induction items generalizing w with
  | nil => exact Triple.pure fun v hv => hv.trans World.eraseConfigs_nil.symm
  | cons c items ih =>
      refine Triple.bind deleteConfig_leads ?_
      rw [← World.eraseConfigs_cons]
      rintro r v ⟨rfl, rfl | rfl⟩
      · exact ih _ rfl
      · exact ih _ rfl

/-- All configs of the cluster go, in whatever order they were listed. -/
theorem deleteAllConfigs_leads :
    Leads fill w (deleteAllConfigs cluster) (w.eraseConfigs (w.configsOf cluster.key)) := by
  refine Triple.bind (Q := fun r v => v = w ∧ ∃ items, r = .ok items ∧
    items.Perm (w.configsOf cluster.key)) (Triple.request (still _) ?_) ?_
  · rintro _ r w' rfl hexec
    rcases exec_listConfigs hexec with ⟨⟨items, hperm, rfl⟩, rfl⟩
    exact ⟨trivial, rfl, items, rfl, hperm⟩
  · rintro r v ⟨rfl, items, rfl, hperm⟩
    rw [← World.eraseConfigs_perm hperm]
    exact deleteConfigs_leads items _ rfl

end Configs

/-! ## Status -/

/-- The Redkey as it is stored once the status was written. -/
def Redkey.written (live : Redkey) (status : RedkeyStatus) : Redkey :=
  { live with status := status, resourceVersion := live.resourceVersion + 1 }

/-- The world after `aggregateStatus` on a stored cluster. -/
def World.aggregated (now : Time) (cluster : Redkey) (L : List RedkeyConfig) (w : World) : World :=
  match selectActiveConfig L with
  | none => w
  | some active =>
      w.setRedkey cluster.key (cluster.written (aggregatedStatus now cluster.generation cluster active))

section Status

variable {w : World} {cluster : Redkey} {now : Time} {status : RedkeyStatus}

/-- The status of a Redkey that nobody has changed since is stored. -/
theorem writeStatus_leads (hlive : w.store.redkeys cluster.key = some cluster) :
    Leads fill w (api (.updateRedkeyStatus { cluster with status := status }))
      (w.setRedkey cluster.key (cluster.written status)) := by
  refine api_triple (still _) ?_
  rintro _ r w' rfl hexec
  refine ⟨trivial, ?_⟩
  rcases exec_updateRedkeyStatus hexec with ⟨live, stored, hlive', hstored, rfl, rfl⟩ | ⟨-, -, hstale⟩
  · -- the version is the one that was read, so there is no conflict
    obtain rfl : live = cluster := Option.some.inj (hlive'.symm.trans hlive)
    rcases Redkey.writeStatus_ok hstored with ⟨-, rfl⟩
    rfl
  · exact absurd rfl (hstale cluster hlive)

/-- Without errors there is nothing to retry. -/
theorem retryOnConflict_ends {α : Type} {A : World → Prop} {fn : Rec α} {Q : α → World → Prop}
    (h : EndsTriple fill A fn Q) (n : ℕ) : EndsTriple fill A (retryOnConflict n fn) Q := by
  cases n with
  | zero => exact h
  | succ n => exact Triple.catchError h fun _ _ hfalse => hfalse.elim

/-- The Redkey that is read again is the one the reconcile started from. -/
theorem aggregateStatus_leads (hlive : w.store.redkeys cluster.key = some cluster)
    (L : List RedkeyConfig) :
    Leads fill w (aggregateStatus now cluster L) (w.aggregated now cluster L) := by
  unfold aggregateStatus World.aggregated
  cases selectActiveConfig L with
  | none => exact Triple.pure fun _ h => h
  | some active =>
      refine retryOnConflict_ends ?_ _
      refine Triple.bind (Q := fun latest v => v = w ∧ latest = cluster) (api_triple (still _) ?_) ?_
      · rintro _ r w' rfl hexec
        rcases exec_getRedkey hexec with ⟨rfl, rfl⟩
        rw [find_eq_ok.mpr hlive]
        exact ⟨trivial, rfl, rfl⟩
      · rintro latest v ⟨rfl, rfl⟩
        exact Triple.bind (writeStatus_leads hlive) (fun _ => Triple.pure fun _ h => h) v rfl

end Status

/-! ## The reconcile -/

/-- No object of the kind is left, whether there was one or not. -/
theorem deleteIfPresent_leads {k : Kind} {key : NamespacedName} {text : String} {w : World} :
    Leads fill w (deleteIfPresent k key text) (w.setObj k key none) := by
  refine Triple.bind (Q := fun r v => v = w.setObj k key none ∧ (r = .ok () ∨ r = .error .notFound))
    (Triple.request (still _) ?_) ?_
  · rintro _ r w' rfl hexec
    rcases exec_delete hexec with ⟨rfl, rfl⟩ | ⟨rfl, hnone, rfl⟩
    · exact ⟨trivial, rfl, Or.inl rfl⟩
    · exact ⟨trivial, (World.setObj_eq_self hnone).symm, Or.inr rfl⟩
  · rintro r v ⟨rfl, rfl | rfl⟩
    · exact Triple.pure (fun _ h => h) _ rfl
    · exact Triple.pure (fun _ h => h) _ rfl

namespace World

/-- None of Robin's objects is left. -/
def dropRobin (key : NamespacedName) (w : World) : World :=
  w.setRobin fun k => Function.update (w.store.robin k) key none

/-- The four deletions of the teardown, in its order. -/
theorem setObj_none (w : World) (key : NamespacedName) :
    (((w.setObj .deployment key none).setObj .roleBinding key none).setObj .role key none).setObj
      .serviceAccount key none = w.dropRobin key := by
  refine World.ext ?_ rfl rfl
  simp only [setObj, Store.setObj, Store.setObjs, dropRobin, setRobin]
  congr 1
  funext k
  cases k <;> simp [Function.update]

/-- The world after the teardown. -/
def tornDown (now : Time) (cluster : Redkey) (w : World) : World :=
  ((w.dropRobin (robinKey cluster)).eraseConfigs (w.configsOf cluster.key)).setRedkey cluster.key
    (cluster.written (scaledToZeroStatus now cluster))

/-- The world after a reconcile with `primaries = 0`, by the four cases of
`reconcileScaleToZero`. -/
def scaledToZero (fill : Deployment → Deployment) (now : Time) (cluster : Redkey) (w : World) :
    World :=
  match (w.listed cluster.key).getLast? with
  | none => w.setRedkey cluster.key (cluster.written (scaledToZeroStatus now cluster))
  | some latestConfig =>
      if latestConfig.spec.primaries ≠ 0 then
        (w.ensureRobin fill cluster).withConfig cluster (some latestConfig)
      else if latestConfig.status.configPhase = .applied then w.tornDown now cluster
      else (w.ensureRobin fill cluster).aggregated now cluster (w.listed cluster.key)

section ScaledToZero

variable {w : World} {fill : Deployment → Deployment} {now : Time} {cluster : Redkey}
variable {c : RedkeyConfig}

theorem scaledToZero_of_nil (h : w.listed cluster.key = []) :
    w.scaledToZero fill now cluster =
      w.setRedkey cluster.key (cluster.written (scaledToZeroStatus now cluster)) := by
  rw [scaledToZero, h]
  rfl

theorem scaledToZero_of_primaries (hlast : (w.listed cluster.key).getLast? = some c)
    (hc : c.spec.primaries ≠ 0) :
    w.scaledToZero fill now cluster =
      (w.ensureRobin fill cluster).withConfig cluster (some c) := by
  rw [scaledToZero, hlast]
  exact if_pos hc

theorem scaledToZero_of_applied (hlast : (w.listed cluster.key).getLast? = some c)
    (hc : c.spec.primaries = 0) (hphase : c.status.configPhase = .applied) :
    w.scaledToZero fill now cluster = w.tornDown now cluster := by
  rw [scaledToZero, hlast]
  exact (if_neg (not_not.mpr hc)).trans (if_pos hphase)

theorem scaledToZero_of_waiting (hlast : (w.listed cluster.key).getLast? = some c)
    (hc : c.spec.primaries = 0) (hphase : c.status.configPhase ≠ .applied) :
    w.scaledToZero fill now cluster =
      (w.ensureRobin fill cluster).aggregated now cluster (w.listed cluster.key) := by
  rw [scaledToZero, hlast]
  exact (if_neg (not_not.mpr hc)).trans (if_neg hphase)

end ScaledToZero

/-- The world after `ensureConfig`. -/
def withCurrentConfig (cluster : Redkey) (w : World) : World :=
  if w.listed cluster.key = [] ∨ needsNewConfig cluster (w.listed cluster.key).getLast? then
    w.withConfig cluster (w.listed cluster.key).getLast?
  else w

/-- The world after `settleConfigs`. -/
def cleanedUp (now : Time) (cluster : Redkey) (w : World) : World :=
  if w.listed cluster.key = [] then w
  else (w.eraseConfigs (superseded (w.listed cluster.key))).aggregated now cluster
    (afterCleanup (w.listed cluster.key))

/-- The world after a reconcile with `primaries ≠ 0`. -/
def configured (fill : Deployment → Deployment) (now : Time) (cluster : Redkey) (w : World) :
    World :=
  ((w.ensureRobin fill cluster).withCurrentConfig cluster).cleanedUp now cluster

/-- The world after a reconcile. -/
def effect (fill : Deployment → Deployment) (now : Time) (key : NamespacedName) (w : World) :
    World :=
  match w.store.redkeys key with
  | none => w
  | some cluster =>
      if cluster.spec.primaries = 0 then w.scaledToZero fill now cluster
      else w.configured fill now cluster

section Effect

variable {w : World} {fill : Deployment → Deployment} {now : Time} {key : NamespacedName}
variable {live : Redkey}

theorem effect_of_none (hlive : w.store.redkeys key = none) : w.effect fill now key = w := by
  rw [effect, hlive]

theorem effect_of_zero (hlive : w.store.redkeys key = some live) (hzero : live.spec.primaries = 0) :
    w.effect fill now key = w.scaledToZero fill now live := by
  rw [effect, hlive]
  exact if_pos hzero

theorem effect_of_primaries (hlive : w.store.redkeys key = some live)
    (hpos : live.spec.primaries ≠ 0) : w.effect fill now key = w.configured fill now live := by
  rw [effect, hlive]
  exact if_neg hpos

end Effect

end World

section Reconcile

variable {w : World} {cluster : Redkey} {now : Time} {r : RedkeyReconciler}

/-- The new config is one of the cluster's. -/
theorem World.configsOf_withConfig {highest : Option RedkeyConfig} :
    (w.withConfig cluster highest).configsOf cluster.key =
      if Configs.has w.store.configs (newConfig cluster highest).key then w.configsOf cluster.key
      else w.configsOf cluster.key ++ [newConfig cluster highest] := by
  unfold World.withConfig
  split
  · rfl
  · have hselected : (newConfig cluster highest).selected cluster.key.ns clusterLabel
        cluster.key.name = true := newConfig_selected cluster highest
    simp [World.configsOf, World.addConfig, hselected]

/-- The new config is above the listed ones, so its sequence is a new one. -/
theorem World.Distinct.withConfig (h : w.Distinct cluster.key) :
    (w.withConfig cluster (w.listed cluster.key).getLast?).Distinct cluster.key := by
  unfold World.Distinct
  rw [World.configsOf_withConfig]
  split
  · exact h
  · have hlt : ∀ c ∈ w.configsOf cluster.key,
        c.spec.sequence < nextSequence (w.listed cluster.key).getLast? :=
      fun c hc => lt_nextSequence (sorted_sortBySequence _) (World.mem_listed.mpr hc)
    simp only [List.mem_append, List.mem_singleton]
    rintro c (hc | rfl) d (hd | rfl) hseq
    · exact h c hc d hd hseq
    · -- the new one against an old one
      exact absurd hseq (hlt c hc).ne
    · exact absurd hseq (hlt d hd).ne'
    · rfl

theorem World.Distinct.withCurrentConfig (h : w.Distinct cluster.key) :
    (w.withCurrentConfig cluster).Distinct cluster.key := by
  unfold World.withCurrentConfig
  split
  · exact h.withConfig
  · exact h

/-- Creating a config leaves the Redkeys alone. -/
theorem redkeys_withCurrentConfig : (w.withCurrentConfig cluster).store.redkeys = w.store.redkeys := by
  unfold World.withCurrentConfig World.withConfig
  split
  · split <;> rfl
  · rfl

/-- The path of a cluster with primaries, as the composition of what its parts
do. Each part starts in the world the one before has left. -/
theorem reconcileConfigs_leads (hfill : ∀ d, (fill d).metadata = d.metadata)
    (hkeyed : RobinKeyed (robinKey cluster) w) (hdistinct : w.Distinct cluster.key)
    (hlive : w.store.redkeys cluster.key = some cluster) :
    Leads fill w (reconcileConfigs r now cluster) (w.configured fill now cluster) := by
  have hdistinct₁ : (w.ensureRobin fill cluster).Distinct cluster.key := hdistinct
  have hdistinct₂ := hdistinct₁.withCurrentConfig
  have hlive₂ : ((w.ensureRobin fill cluster).withCurrentConfig cluster).store.redkeys cluster.key =
      some cluster := by
    rw [redkeys_withCurrentConfig]
    exact hlive
  -- the world after Robin's objects, and the one with a config for the generation
  unfold World.configured
  generalize hw₁ : w.ensureRobin fill cluster = w₁ at hdistinct₁ hdistinct₂ hlive₂ ⊢
  generalize hw₂ : w₁.withCurrentConfig cluster = w₂ at hdistinct₂ hlive₂ ⊢
  refine reconcileConfigs_triple (fun L v => v = w₁ ∧ L = w₁.listed cluster.key) (fun v => v = w₂)
    (fun L v => v = w₂ ∧ L = w₂.listed cluster.key) (fun L v => w₂.listed cluster.key ≠ [] ∧
      v = w₂.eraseConfigs (superseded (w₂.listed cluster.key)) ∧
      L = afterCleanup (w₂.listed cluster.key)) ends_quiet (still _) (still _)
    (ensureRBAC_leads hfill hkeyed) (hw₁ ▸ ensureDeployment_leads hfill hkeyed)
    (list_leads hdistinct₁) ?_ (list_leads hdistinct₂) ?_ ?_ ?_ ?_
  · -- a config is missing, and is created
    rintro L hneeds v ⟨rfl, rfl⟩
    refine createNewConfig_leads.post ?_ v rfl
    intro _ v' hv'
    rw [hv', ← hw₂, World.withCurrentConfig, if_pos hneeds]
  · -- none is missing
    rintro L v hne hno ⟨rfl, rfl⟩
    rw [← hw₂, World.withCurrentConfig, if_neg (by simp [hne, hno])]
    exact ⟨rfl, rfl⟩
  · -- no config at all, not even after the creation
    rintro v ⟨rfl, hL⟩
    rw [World.cleanedUp, if_pos hL.symm]
  · -- without failures every deletion succeeds
    rintro L hne v ⟨rfl, rfl⟩
    refine (cleanup_leads _).post ?_ v rfl
    rintro res v' ⟨hv', rfl⟩
    exact ⟨fun _ => ⟨hne, hv', rfl⟩, fun h => absurd rfl h⟩
  · -- the status is aggregated from what the cleanup has left
    rintro L v ⟨hne, rfl, rfl⟩
    rw [World.cleanedUp, if_neg hne]
    exact aggregateStatus_leads (w := w₂.eraseConfigs _) hlive₂ _ _ rfl

/-- Case C: Robin first, then the configs, and the status at the end. -/
theorem teardown_leads (hlive : w.store.redkeys cluster.key = some cluster) :
    Leads fill w (do
      deleteRobinDeployment cluster
      deleteRBAC cluster
      deleteAllConfigs cluster
      updateStatusScaledToZero now cluster) (w.tornDown now cluster) := by
  refine Triple.bind deleteIfPresent_leads fun _ => Triple.bind (Triple.bind
    deleteIfPresent_leads fun _ => Triple.bind deleteIfPresent_leads fun _ =>
      deleteIfPresent_leads) fun _ => ?_
  rw [World.setObj_none]
  exact Triple.bind deleteAllConfigs_leads fun _ => writeStatus_leads hlive

/-- The scale-to-zero path, by the last of the listed configs. -/
theorem reconcileScaleToZero_leads (hfill : ∀ d, (fill d).metadata = d.metadata)
    (hkeyed : RobinKeyed (robinKey cluster) w) (hdistinct : w.Distinct cluster.key)
    (hlive : w.store.redkeys cluster.key = some cluster) :
    Leads fill w (reconcileScaleToZero r now cluster) (w.scaledToZero fill now cluster) := by
  refine reconcileScaleToZero_triple (fun L v => v = w ∧ L = w.listed cluster.key)
    (list_leads hdistinct) ?_ ?_ ?_ ?_
  · -- case A
    rintro v ⟨rfl, hL⟩
    rw [World.scaledToZero_of_nil hL.symm]
    exact writeStatus_leads hlive v rfl
  · -- case B
    rintro L c hlast hc v ⟨rfl, rfl⟩
    rw [World.scaledToZero_of_primaries hlast hc]
    exact Triple.bind (ensureRBAC_leads hfill hkeyed) (fun _ =>
      Triple.bind (ensureDeployment_leads hfill hkeyed) fun _ => createNewConfig_leads) v rfl
  · -- case C
    rintro L c hlast hc happlied v ⟨rfl, rfl⟩
    rw [World.scaledToZero_of_applied hlast hc happlied]
    exact teardown_leads hlive v rfl
  · -- case D
    rintro L c hlast hc hphase v ⟨rfl, rfl⟩
    rw [World.scaledToZero_of_waiting hlast hc hphase]
    exact Triple.bind (ensureRBAC_leads hfill hkeyed) (fun _ =>
      Triple.bind (ensureDeployment_leads hfill hkeyed) fun _ =>
        aggregateStatus_leads (w := v.ensureRobin fill cluster) hlive _) v rfl

/-- What the API server and the naming scheme give the stored objects of a
cluster. -/
structure World.Stored (key : NamespacedName) (w : World) : Prop where
  redkey : ∀ live, w.store.redkeys key = some live → live.key = key
  configs : (w.store.configs.map RedkeyConfig.key).Nodup
  /-- Robin's objects are stored under their own key. -/
  robin : RobinKeyed (robinKeyOf key) w
  /-- No two configs of the cluster have the same sequence. -/
  distinct : w.Distinct key

/-- The whole reconcile, from the first read to the last write. -/
theorem reconcile_leads {key : NamespacedName} (hfill : ∀ d, (fill d).metadata = d.metadata)
    (hw : w.Stored key) : Leads fill w (reconcile r now key) (w.effect fill now key) := by
  refine reconcile_triple (fun cluster v => v = w ∧ w.store.redkeys key = some cluster) ends_quiet
    (still _) (still _) (still _) ?_ ?_ ?_
  · rintro _ r w' rfl hexec
    rcases exec_getRedkey hexec with ⟨rfl, rfl⟩
    refine ⟨trivial, ?_⟩
    cases hlive : w'.store.redkeys key with
    | some cluster =>
        rw [find_eq_ok.mpr hlive]
        exact ⟨rfl, rfl⟩
    -- a Redkey that is gone ends it at once
    | none =>
        rw [find_eq_error.mpr ⟨rfl, hlive⟩]
        refine tolerating_error.mpr ⟨fun _ => ?_, fun hne => absurd rfl hne⟩
        exact (World.effect_of_none hlive).symm
  · rintro cluster hzero v ⟨rfl, hlive⟩
    obtain rfl : cluster.key = key := hw.redkey cluster hlive
    rw [World.effect_of_zero hlive hzero]
    exact reconcileScaleToZero_leads hfill hw.robin hw.distinct hlive v rfl
  · rintro cluster hpos v ⟨rfl, hlive⟩
    obtain rfl : cluster.key = key := hw.redkey cluster hlive
    rw [World.effect_of_primaries hlive hpos]
    exact reconcileConfigs_leads hfill hw.robin hw.distinct hlive v rfl

/-- An undisturbed reconcile ends without error, and does what `World.effect`
says. -/
theorem reconcile_effect {key : NamespacedName} (hfill : ∀ d, (fill d).metadata = d.metadata)
    {w' : World} {x : Except Err Result} (hw : w.Stored key)
    (hrun : ReconcileRuns fill key w x w') :
    (∃ res, x = .ok res) ∧ ∃ now, w' = w.effect fill now key := by
  rcases hrun with ⟨settings, now, hrun⟩
  have hpost := hrun.post (reconcile_leads hfill hw w rfl)
  cases x with
  | ok res => exact ⟨⟨res, rfl⟩, now, hpost⟩
  | error e => exact hpost.elim

end Reconcile

end RedkeyOperator
