import RedkeyOperator.Api.Authorization
import RedkeyOperator.Controller.Requests
import RedkeyOperator.System.Watches

/-!
# The operator may do what it does

The operator runs with the rules of its ClusterRole and writes a Role for Robin. Two things have to
fit: the requests of a reconcile, and the permissions that are handed on. As long as nobody else
raises Robin's Role above the operator's own rules, no request is ever forbidden, and whoever is
bound to that Role can do nothing that the operator cannot (`Bounded`).

A binding is checked against the Role as it is on the server when the request arrives, which is not
the one that the reconcile has read.
-/

namespace RedkeyOperator

open Interleaved Interleaved.Op

/-- A Role that gives nothing the operator does not have, or another
object. -/
def Obj.Bounded : {k : Kind} → Obj k → Prop
  | .role, (role : Role) => covers operatorRules role.rules = true
  | _, _ => True

/-- Robin's Role gives nothing that the operator does not have. -/
def Watched.Bounded (key : NamespacedName) (s : Watched) : Prop :=
  ∀ role : Role, (s.robin .role).live (robinKeyOf key) = some role →
    covers operatorRules role.rules = true

/-- The runs in which nobody else raises Robin's Role above the operator's
rules. The operator itself is not restricted. -/
def boundedRuns (fill : Deployment → Deployment) (key : NamespacedName) :
    Sem Call Resp Watched :=
  (Sem.guarded ⟨Watched.Env key, Watched.exec fill⟩ (fun _ _ _ => True)
    fun s s' => s.Bounded key → s'.Bounded key).lossy lost

/-- `DesiredRobinRules` are among the operator's. -/
theorem covers_desiredRobinRules : covers operatorRules desiredRobinRules = true := by
  decide +kernel

section Bounded

variable {fill : Deployment → Deployment} {key : NamespacedName} {s s' : Watched} {c : Call}
variable {x : Resp c} {now : Time} {cluster : Redkey}

theorem boundedRuns_exec (h : (boundedRuns fill key).exec c s x s') :
    (watched fill key).exec c s x s' := by
  rcases h with h | ⟨hx, hs | ⟨x₀, h⟩⟩
  · exact Or.inl h.2
  · exact Or.inr ⟨hx, Or.inl hs⟩
  · exact Or.inr ⟨hx, Or.inr ⟨x₀, h.2⟩⟩

/-- All requests of the controller are within its rules, so nothing is
lost. -/
theorem watched_boundedRuns (h : (watched fill key).exec c s x s') :
    (boundedRuns fill key).exec c s x s' := by
  rcases h with h | ⟨hx, hs | ⟨x₀, h⟩⟩
  · exact Or.inl ⟨trivial, h⟩
  · exact Or.inr ⟨hx, Or.inl hs⟩
  · exact Or.inr ⟨hx, Or.inr ⟨x₀, trivial, h⟩⟩

theorem Watched.Bounded.other (h : s.Bounded key) {k : Kind} (hk : Kind.role ≠ k)
    (l : Lag (Objs k)) : (s.withRobin k l).Bounded key := by
  unfold Bounded
  rw [s.withRobin_robin_ne l hk]
  exact h

theorem Watched.Bounded.write (h : s.Bounded key) {k : Kind} {k' : NamespacedName}
    {obj : Option (Obj k)} {l : Lag (Objs k)}
    (hput : (s.robin k).Put (Function.update (s.robin k).live k' obj) l)
    (hobj : ∀ o, obj = some o → Obj.Bounded o) : (s.withRobin k l).Bounded key := by
  cases k with
  | role =>
      intro role hrole
      rw [withRobin_robin_self, hput.live] at hrole
      -- a Role under another name is none of Robin's
      by_cases hkey : robinKeyOf key = k'
      · rw [hkey, Function.update_self] at hrole
        exact hobj role hrole
      · rw [Function.update_of_ne hkey] at hrole
        exact h role hrole
  | _ => exact h.other (by decide) l

/-- The Role that a reconcile writes has the rules of `DesiredRobinRules`, so
every request keeps the bound. -/
theorem Watched.Bounded.exec (h : s.Bounded key) (hc : c.MadeFor now cluster)
    (hexec : Watched.exec fill c s x s') : s'.Bounded key := by
  -- what the three kinds of writes leave, given the object they write
  have hcreate : ∀ {k : Kind} {obj : Obj k} {x : Resp (.create k obj)},
      Watched.exec fill (.create k obj) s x s' → Obj.Bounded (withDefaults fill k obj) →
      s'.Bounded key := by
    intro k obj x hexec hobj
    rcases exec_create hexec with ⟨-, -, l, hput, rfl⟩ | ⟨-, rfl⟩
    · exact h.write hput fun o ho => Option.some.inj ho ▸ hobj
    · exact h
  have hpatch : ∀ {k : Kind} {obj : Obj k} {x : Resp (.patch k obj)},
      Watched.exec fill (.patch k obj) s x s' → Obj.Bounded (withDefaults fill k obj) →
      s'.Bounded key := by
    intro k obj x hexec hobj
    rcases exec_patch hexec with ⟨-, l, hput, rfl⟩ | ⟨-, rfl⟩
    · exact h.write hput fun o ho => Option.some.inj ho ▸ hobj
    · exact h
  have hdelete : ∀ {k : Kind} {k' : NamespacedName} {x : Resp (.delete k k')},
      Watched.exec fill (.delete k k') s x s' → s'.Bounded key := by
    intro k k' x hexec
    rcases exec_delete hexec with ⟨-, -, l, hput, rfl⟩ | ⟨-, rfl⟩
    · exact h.write hput fun o ho => by cases ho
    · exact h
  cases hc with
  | createRole => exact hcreate hexec covers_desiredRobinRules
  | patchRole patched hrules =>
      exact hpatch hexec
        ((congrArg (covers operatorRules) hrules).trans covers_desiredRobinRules)
  | createSA => exact hcreate hexec trivial
  | createRB => exact hcreate hexec trivial
  | createDeployment => exact hcreate hexec trivial
  | patchSA patched => exact hpatch hexec trivial
  | patchRB patched _ _ => exact hpatch hexec trivial
  | patchDeployment existing => exact hpatch hexec trivial
  | delete k => exact hdelete hexec
  | replaceRB k => exact hdelete hexec
  -- => the other requests are not about Roles
  | list site =>
      obtain ⟨items, -, -, rfl⟩ := hexec
      exact h
  | createConfig highest =>
      rcases exec_createConfig hexec with ⟨-, -, l, -, rfl⟩ | ⟨-, -, rfl⟩ <;> exact h
  | deleteConfig k =>
      rcases exec_deleteConfig hexec with ⟨-, l, -, rfl⟩ | ⟨⟨-, rfl⟩, -⟩ <;> exact h
  | aggregated latest active =>
      rcases exec_updateRedkeyStatus hexec with ⟨-, rfl⟩ | ⟨_, -, rfl⟩ | ⟨-, -, rfl⟩ <;> exact h
  | scaledToZero =>
      rcases exec_updateRedkeyStatus hexec with ⟨-, rfl⟩ | ⟨_, -, rfl⟩ | ⟨-, -, rfl⟩ <;> exact h
  | _ =>
      obtain ⟨-, rfl⟩ := hexec
      exact h

/-! ## The requests -/

/-- The rules allow every verb that a reconcile uses. -/
theorem permissions_allowed (c : Call) : c.permissions.all (allowed operatorRules) = true := by
  unfold Call.permissions
  -- the requests about Robin's objects name the resource of their kind
  split
  case h_6 k _ => cases k <;> decide +kernel
  case h_7 k _ => cases k <;> decide +kernel
  case h_8 k _ => cases k <;> decide +kernel
  case h_9 k _ => cases k <;> decide +kernel
  all_goals decide +kernel

/-- A binding that refers to Robin's Role hands on what that Role gives, if it
is there. -/
theorem Watched.Bounded.binding (h : s.Bounded key) {binding : RoleBinding}
    (hkey : ⟨binding.metadata.ns, binding.roleRef.name⟩ = robinKeyOf key) :
    covers operatorRules (binding.grants (s.robin .role).live) = true := by
  unfold RoleBinding.grants
  rw [hkey]
  cases hrole : (s.robin .role).live (robinKeyOf key) with
  | none => rfl
  | some role => exact h role hrole

theorem Watched.Bounded.grants (h : s.Bounded key) (hc : c.MadeFor now cluster)
    (hfor : c.IsFor key) (hkey : cluster.key = key) :
    covers operatorRules (c.grants (s.robin .role).live) = true := by
  subst hkey
  cases hc with
  | createRole => exact covers_desiredRobinRules
  | patchRole patched hrules =>
      exact (congrArg (covers operatorRules) hrules).trans covers_desiredRobinRules
  | createRB => exact h.binding rfl
  | patchRB patched _ href =>
      -- a patch keeps the namespace of the binding
      refine h.binding ?_
      rw [href]
      exact congrArg (NamespacedName.mk · (robinName cluster)) (congrArg NamespacedName.ns hfor)
  | get k => rfl
  | delete k => rfl
  | _ => rfl

end Bounded

/-! ## Whole runs -/

/-- A request of the reconcile of the cluster. -/
def Call.Made (key : NamespacedName) (c : Call) : Prop :=
  c = .getRedkey key .reconcile ∨ (∃ e, c = .metric e) ∨
    ∃ now cluster, Redkey.key cluster = key ∧ c.MadeFor now cluster

/-- No request is forbidden, and Robin's Role gives nothing that the operator
does not have. -/
theorem requests_authorized (fill : Deployment → Deployment) (key : NamespacedName)
    (hfill : ∀ d, (fill d).metadata = d.metadata) (clock : Watched → Time → Prop)
    {m : Worker Call Resp (Except Err Result) Watched}
    (hm : Worker.Reachable (boundedRuns fill key) (workQueue key clock)
      (fun s => Owned key s ∧ s.Bounded key) m) :
    (∀ c k, m.thread = some (.call c k) →
      c.authorized operatorRules (m.shared.robin .role).live = true) ∧
    ∀ (role : Role) (a : Attributes), (m.shared.robin .role).live (robinKeyOf key) = some role →
      allowed role.rules a = true → allowed operatorRules a = true := by
  -- a reconcile makes requests for its own cluster only
  have hentry : ∀ s p, (workQueue key clock).entry s p →
      p.Uses (fun c x => (OwnAnswer key c x ∧ ReadsOwned key c x) ∧ OwnAnswer key c x)
        fun c => (c.IsFor key ∧ c.WritesOwned key) ∧ c.Made key := by
    rintro s p ⟨settings, now, -, rfl⟩
    refine (Prog.Uses.and reconcile_uses reconcile_owned).and ?_
    refine reconcile_makes (fun c => ⟨lost c, ?_⟩) fun _ hcluster => hcluster
    cases c <;> trivial
  have henv : ∀ s s', Owned key s ∧ s.Bounded key → (boundedRuns fill key).env s s' →
      Owned key s' ∧ s'.Bounded key :=
    fun s s' hs hstep => ⟨hs.1.env hstep.2, hstep.1 hs.2⟩
  have hinv := hm.uses (fun s => Owned key s ∧ s.Bounded key) (fun _ hs => hs) henv hentry ?_
  · obtain ⟨⟨-, hbounded⟩, huses⟩ := hinv
    refine ⟨fun c k hthread => ?_, fun role a hrole => allowed_of_covers (hbounded role hrole)⟩
    -- the next request is one of those
    obtain ⟨⟨⟨hfor, -⟩, hmade⟩, -⟩ := huses _ hthread
    refine decide_eq_true ⟨permissions_allowed c, ?_⟩
    rcases hmade with rfl | ⟨e, rfl⟩ | ⟨now, cluster, hkey, hmade⟩
    · rfl
    · rfl
    · exact hbounded.grants hmade hfor hkey
  · rintro c s x s' ⟨hc, hmade⟩ ⟨howned, hbounded⟩ hexec
    obtain ⟨hok, howned'⟩ := howned.watched hfill hc (boundedRuns_exec hexec)
    refine ⟨⟨hok, hok.1⟩, howned', ?_⟩
    -- whoever gets the answer, the server has done the same
    have hcall : ∀ x, Watched.exec fill c s x s' → s'.Bounded key := by
      intro x hexec
      rcases hmade with rfl | ⟨e, rfl⟩ | ⟨now, cluster, -, hmade⟩
      · exact hexec.2 ▸ hbounded
      · exact hexec.2 ▸ hbounded
      · exact hbounded.exec hmade hexec
    rcases hexec with hexec | ⟨-, rfl | ⟨x₀, hexec⟩⟩
    · exact hcall x hexec.2
    · exact hbounded
    · exact hcall x₀ hexec.2

/-- The first reconcile, when it is about to bind Robin's ServiceAccount to
the Role. -/
def Watched.sampleBinding : Machine Call Resp (Except Err Result) Watched :=
  (reconcile { resyncInterval := 60 } 7 sampleCluster.key).advance (fun c s => s.answer id c) 6
    (Watched.initial sampleCluster)

/-- The kind of the object that is about to be created. -/
def nextCreate : Option (Rec Result) → Option Kind
  | some (.call (.create k _) _) => some k
  | _ => none

/-- The binding is created after the Role, so it is checked against the Role
that is there. -/
theorem requests_authorized_sample :
    nextCreate Watched.sampleBinding.thread = some .roleBinding ∧
    (∀ c k, Watched.sampleBinding.thread = some (.call c k) →
      c.authorized operatorRules (Watched.sampleBinding.shared.robin .role).live = true) ∧
    ((Watched.sampleBinding.shared.robin .role).live (robinKeyOf sampleCluster.key)).isSome := by
  have hinit : Worker.Reachable (boundedRuns id sampleCluster.key)
      (workQueue sampleCluster.key fun _ _ => True)
      (fun s => Owned sampleCluster.key s ∧ s.Bounded sampleCluster.key)
      ⟨Watched.initial sampleCluster, true, none⟩ :=
    ⟨_, ⟨Watched.initial_owned sampleCluster, fun role hrole => by cases hrole⟩, .refl⟩
  have hrun := (hinit.step (.start ⟨{ resyncInterval := 60 }, 7, trivial, rfl⟩)).advance (n := 6)
    (fun _ _ => true) (fun c s _ => watched_boundedRuns (Watched.answer_exec id _ c s))
    (Prog.checks_true _ 6 _ _)
  exact ⟨by decide +kernel,
    (requests_authorized id sampleCluster.key (fun _ => rfl) (fun _ _ => True) hrun).1,
    by decide +kernel⟩

end RedkeyOperator
