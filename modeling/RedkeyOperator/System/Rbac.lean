import RedkeyOperator.Controller.Rules

/-!
# Robin's permissions

`ensureRBAC` repairs three objects, one after another, and stops at the first failure. A binding
with another role reference cannot be patched; it is deleted and created again, and is missing in
between.

What one step can leave behind is `Repair`. The three steps do not touch each other's objects, so
the outcomes of `ensureRBAC` are put together from theirs (`ensureRBAC_converges`).
-/

namespace RedkeyOperator

open Interleaved

/-! ## The desired state -/

/-- The labels and annotations are the desired ones. -/
def ObjectMeta.Labelled (existing desired : ObjectMeta) : Prop :=
  existing.labels = desired.labels ∧ existing.annotations = desired.annotations

theorem ObjectMeta.drifted_iff {existing desired : ObjectMeta} :
    existing.drifted desired = true ↔ ¬ existing.Labelled desired := by
  simp only [drifted, Labelled, decide_eq_true_eq, ne_eq, not_and_or]

/-- A patch sends the metadata of the existing object with the labels and
annotations replaced. -/
theorem ObjectMeta.labelled_relabel (existing desired : ObjectMeta) :
    (existing.relabel desired).Labelled desired := ⟨rfl, rfl⟩

/-- The object is as the cluster asks for it. Of a ServiceAccount only labels
and annotations matter; the Deployment is not among the objects here. -/
def Desired (cluster : Redkey) : (k : Kind) → Obj k → Prop
  | .serviceAccount, (o : ServiceAccount) => o.metadata.Labelled (rbacMeta cluster)
  | .role, (o : Role) => o.metadata.Labelled (rbacMeta cluster) ∧ o.rules = desiredRobinRules
  | .roleBinding, (o : RoleBinding) =>
      o.metadata.Labelled (rbacMeta cluster) ∧ o.subjects = (desiredRB cluster).subjects ∧
        o.roleRef = (desiredRB cluster).roleRef
  | .deployment, _ => True

/-- The kinds that `ensureRBAC` is about. -/
def rbacKinds : List Kind := [.serviceAccount, .role, .roleBinding]

namespace Store

/-- The objects under the key have that key. Without this a patch, which goes
to the key of the object that was read, could miss it. -/
def KeyedAt (s : Store) (key : NamespacedName) : Prop :=
  ∀ k obj, s.robin k key = some obj → (Obj.metadata obj).key = key

/-- The object of the kind is there, and as desired. -/
def HasDesired (s : Store) (cluster : Redkey) (k : Kind) : Prop :=
  ∃ obj, s.robin k (robinKey cluster) = some obj ∧ Desired cluster k obj

end Store

/-! ## Requests -/

section Requests

variable {fill : Deployment → Deployment} {k : Kind} {key : NamespacedName} {obj : Obj k}
variable {s : Store}

/-- The three writes, where the server grants them. What is stored has the
defaults filled in. -/
theorem serve_create (hkey : obj.metadata.key = key) (h : s.robin k key = none) :
    serve fill (.create k obj) s = (.ok (), s.setObj k key (some (withDefaults fill k obj))) := by
  subst hkey
  simp [serve, Store.commit, Objs.create, h, Store.setObj]

theorem serve_patch (hkey : obj.metadata.key = key) (h : (s.robin k key).isSome) :
    serve fill (.patch k obj) s = (.ok (), s.setObj k key (some (withDefaults fill k obj))) := by
  subst hkey
  obtain ⟨old, hold⟩ := Option.isSome_iff_exists.mp h
  simp [serve, Store.commit, Objs.patch, hold, Store.setObj]

theorem serve_delete (h : (s.robin k key).isSome) :
    serve fill (.delete k key) s = (.ok (), s.setObj k key none) := by
  obtain ⟨old, hold⟩ := Option.isSome_iff_exists.mp h
  simp [serve, Store.commit, Objs.delete, hold, Store.setObj]

end Requests

/-- Every request is served, or it fails, if it `may`. A request that fails
may have been served all the same. A failure is never reported as NotFound,
which would be taken for an answer. -/
def MayFail (fill : Deployment → Deployment) (may : Prop) (M : Sem Call Resp Store) : Prop :=
  ∀ c s r s', M.exec c s r s' → (r, s') = serve fill c s ∨
    may ∧ ∃ e, e ≠ .notFound ∧ r = .error e ∧ (s' = s ∨ s' = (serve fill c s).2)

/-- The server without failures. -/
def serving (fill : Deployment → Deployment) : Sem Call Resp Store where
  env _ _ := False
  exec c s r s' := (r, s') = serve fill c s

theorem faulty_mayFail (fill : Deployment → Deployment) : MayFail fill True (faulty fill) :=
  fun _ _ _ _ h => h.imp id fun hfail => ⟨trivial, hfail⟩

theorem serving_mayFail (fill : Deployment → Deployment) : MayFail fill False (serving fill) :=
  fun _ _ _ _ h => Or.inl h

/-! ## One object -/

/-- How the repair of an object can end. Only a binding with another role
reference can be missing after it. -/
inductive Repair (cluster : Redkey) (may : Prop) (k : Kind) (s : Store) :
    Except Err Unit → Store → Prop
  | fine (hdesired : s.HasDesired cluster k) : Repair cluster may k s (.ok ()) s
  /-- The object was created, patched or replaced. -/
  | repaired {obj : Obj k} (hdesired : Desired cluster k obj)
      (hkey : obj.metadata.key = robinKey cluster) :
      Repair cluster may k s (.ok ()) (s.setObj k (robinKey cluster) (some obj))
  /-- A request has failed before anything was changed. -/
  | failed (hmay : may) {e : Err} : Repair cluster may k s (.error e) s
  /-- The last request has failed, but was served. -/
  | late (hmay : may) {e : Err} {obj : Obj k} (hdesired : Desired cluster k obj)
      (hkey : obj.metadata.key = robinKey cluster) :
      Repair cluster may k s (.error e) (s.setObj k (robinKey cluster) (some obj))
  /-- The binding was deleted, and then a request has failed. -/
  | removed (hmay : may) {e : Err} {old : RoleBinding} (hk : k = .roleBinding)
      (hold : s.robin .roleBinding (robinKey cluster) = some old)
      (hdrift : old.roleRef ≠ (desiredRB cluster).roleRef) :
      Repair cluster may k s (.error e) (s.setObj k (robinKey cluster) none)

section Steps

variable {fill : Deployment → Deployment} {may : Prop} {M : Sem Call Resp Store} {cluster : Redkey}
variable {k : Kind} {s s₁ s' : Store} {tr : List (Event Call Resp)} {x : Except Err Unit}

/-- A request that the server would grant. -/
theorem traces_granted {c : Call} {a : Payload c} {y : Except Err (Payload c)}
    (hM : MayFail fill may M) (hserve : serve fill c s = (.ok a, s₁))
    (h : Traces M (api c) s tr y s') :
    y = .ok a ∧ s' = s₁ ∨ may ∧ ∃ e, y = .error e ∧ (s' = s ∨ s' = s₁) := by
  obtain ⟨r, hexec, -, rfl⟩ := traces_api.mp h
  rcases hM c s r s' hexec with hserved | ⟨hmay, e, -, rfl, hs'⟩
  · rw [hserve] at hserved
    cases hserved
    exact Or.inl ⟨rfl, rfl⟩
  · rw [hserve] at hs'
    exact Or.inr ⟨hmay, .api e, rfl, hs'⟩

/-- The desired object takes its place, unless the request fails. -/
theorem Repair.of_outcome {obj : Obj k} (hdesired : Desired cluster k obj)
    (hkey : obj.metadata.key = robinKey cluster)
    (h : x = .ok () ∧ s' = s.setObj k (robinKey cluster) (some obj) ∨
      may ∧ ∃ e, x = .error e ∧ (s' = s ∨ s' = s.setObj k (robinKey cluster) (some obj))) :
    Repair cluster may k s x s' := by
  rcases h with ⟨rfl, rfl⟩ | ⟨hmay, e, rfl, rfl | rfl⟩
  · exact .repaired hdesired hkey
  · exact .failed hmay
  · exact .late hmay hdesired hkey

/-- A patch brings the desired object about. The server fills in nothing
here. -/
theorem repair_patch (hM : MayFail fill may M) {obj : Obj k}
    (h : Traces M (api (.patch k obj)) s tr x s') (hdesired : Desired cluster k obj)
    (hkey : obj.metadata.key = robinKey cluster) (hfill : withDefaults fill k obj = obj)
    (hsome : (s.robin k (robinKey cluster)).isSome) : Repair cluster may k s x s' := by
  have hserve : serve fill (.patch k obj) s = _ := serve_patch hkey hsome
  rw [hfill] at hserve
  exact .of_outcome hdesired hkey (traces_granted hM hserve h)

/-- The object is read, and dealt with as it is. -/
theorem traces_withExisting {absent : Rec Unit} {present : Obj k → Rec Unit}
    (hM : MayFail fill may M)
    (h : Traces M (withExisting k (robinKey cluster) absent present) s tr x s') :
    ∃ r rest, tr = ⟨.get k (robinKey cluster), r⟩ :: rest ∧
      ((∃ obj, s.robin k (robinKey cluster) = some obj ∧ Traces M (present obj) s rest x s') ∨
        (s.robin k (robinKey cluster) = none ∧ Traces M absent s rest x s') ∨
        may ∧ rest = [] ∧ ∃ e, x = .error e ∧ s' = s) := by
  obtain ⟨r, s₁, rest, hexec, rfl, hrest⟩ := h
  refine ⟨r, rest, rfl, ?_⟩
  have hserve : serve fill (.get k (robinKey cluster)) s =
      (find (s.robin k) (robinKey cluster), s) := rfl
  rcases hM _ s r s₁ hexec with hserved | ⟨hmay, e, he, rfl, hs₁⟩
  · rw [hserve, find] at hserved
    cases hobj : s.robin k (robinKey cluster) with
    | some obj =>
        rw [hobj] at hserved
        cases hserved
        exact Or.inl ⟨obj, rfl, hrest⟩
    | none =>
        rw [hobj] at hserved
        cases hserved
        exact Or.inr (Or.inl ⟨rfl, hrest⟩)
  · -- a read that fails changes nothing, whether it was served or not
    obtain rfl : s₁ = s := by
      rcases hs₁ with rfl | rfl <;> rfl
    have hend : rest = [] ∧ x = .error (.api e) ∧ s' = s₁ := by
      cases e with
      | notFound => exact absurd rfl he
      | _ => exact hrest
    obtain ⟨rfl, rfl, rfl⟩ := hend
    exact Or.inr (Or.inr ⟨hmay, rfl, _, rfl, rfl⟩)

/-- The two ways to go on after the read, if it does not fail. -/
theorem repair_withExisting {absent : Rec Unit} {present : Obj k → Rec Unit}
    (hM : MayFail fill may M)
    (habsent : ∀ tr, s.robin k (robinKey cluster) = none → Traces M absent s tr x s' →
      Repair cluster may k s x s')
    (hpresent : ∀ obj tr, s.robin k (robinKey cluster) = some obj →
      Traces M (present obj) s tr x s' → Repair cluster may k s x s')
    (h : Traces M (withExisting k (robinKey cluster) absent present) s tr x s') :
    Repair cluster may k s x s' := by
  obtain ⟨r, rest, -, ⟨obj, hobj, hrest⟩ | ⟨hnone, hrest⟩ | ⟨hmay, -, e, rfl, rfl⟩⟩ :=
    traces_withExisting hM h
  · exact hpresent obj rest hobj hrest
  · exact habsent rest hnone hrest
  · exact .failed hmay

/-- The three functions, each a repair. The ServiceAccount is patched if its
metadata has drifted. -/
theorem repair_serviceAccount (hM : MayFail fill may M) (hkeyed : s.KeyedAt (robinKey cluster))
    (h : Traces M (ensureServiceAccount cluster) s tr x s') :
    Repair cluster may .serviceAccount s x s' := by
  refine repair_withExisting hM ?_ ?_ h
  · intro tr hnone hrun
    exact .of_outcome ⟨rfl, rfl⟩ rfl (traces_granted hM (serve_create rfl hnone) hrun)
  · intro (existing : ServiceAccount) tr hsome hrun
    dsimp only at hrun
    split at hrun
    case isTrue hdrift =>
      exact repair_patch hM hrun (ObjectMeta.labelled_relabel _ _)
        (hkeyed .serviceAccount existing hsome) rfl (by simp [hsome])
    case isFalse hsame =>
      obtain ⟨-, rfl, rfl⟩ := hrun
      exact .fine ⟨existing, hsome, not_not.mp (mt ObjectMeta.drifted_iff.mpr hsame)⟩

/-- The Role is patched if its rules or its metadata have drifted. -/
theorem repair_role (hM : MayFail fill may M) (hkeyed : s.KeyedAt (robinKey cluster))
    (h : Traces M (ensureRole cluster) s tr x s') : Repair cluster may .role s x s' := by
  refine repair_withExisting hM ?_ ?_ h
  · intro tr hnone hrun
    exact .of_outcome ⟨⟨rfl, rfl⟩, rfl⟩ rfl (traces_granted hM (serve_create rfl hnone) hrun)
  · intro (existing : Role) tr hsome hrun
    dsimp only at hrun
    split at hrun
    case isTrue hdrift =>
      exact repair_patch hM hrun ⟨ObjectMeta.labelled_relabel _ _, rfl⟩
        (hkeyed .role existing hsome) rfl (by simp [hsome])
    case isFalse hsame =>
      obtain ⟨-, rfl, rfl⟩ := hrun
      rw [not_or, not_ne_iff] at hsame
      exact .fine ⟨existing, hsome, not_not.mp (mt ObjectMeta.drifted_iff.mpr hsame.2), hsame.1⟩

/-- The binding is replaced if it refers to another role, which cannot be
patched. -/
theorem repair_roleBinding (hM : MayFail fill may M) (hkeyed : s.KeyedAt (robinKey cluster))
    (h : Traces M (ensureRoleBinding cluster) s tr x s') :
    Repair cluster may .roleBinding s x s' := by
  have hdesired : Desired cluster .roleBinding (desiredRB cluster) := ⟨⟨rfl, rfl⟩, rfl, rfl⟩
  refine repair_withExisting hM ?_ ?_ h
  · intro tr hnone hrun
    exact .of_outcome hdesired rfl (traces_granted hM (serve_create rfl hnone) hrun)
  · intro (existing : RoleBinding) tr hsome hrun
    have hkey : existing.metadata.key = robinKey cluster := hkeyed .roleBinding existing hsome
    dsimp only at hrun
    split at hrun
    case isTrue hdrift =>
      -- deleted, and created again
      have hdelete : serve fill (.delete .roleBinding existing.metadata.key) s =
          (.ok (), s.setObj .roleBinding (robinKey cluster) none) := by
        rw [hkey]
        exact serve_delete (by simp [hsome])
      rcases Op.traces_bind.mp hrun with ⟨tr₁, tr₂, a, s₁, rfl, hdel, hcre⟩ | ⟨e, rfl, hdel⟩
      · rcases traces_granted hM hdelete hdel with ⟨-, rfl⟩ | ⟨-, e, he, -⟩
        · -- the key is free after the deletion
          have hcreate := traces_granted hM (serve_create rfl (Store.setObj_self s _ _ _)) hcre
          rw [Store.setObj_setObj] at hcreate
          rcases hcreate with ⟨rfl, rfl⟩ | ⟨hmay, e, rfl, rfl | rfl⟩
          · exact .repaired hdesired rfl
          · exact .removed hmay rfl hsome hdrift
          · exact .late hmay hdesired rfl
        · cases he
      · rcases traces_granted hM hdelete hdel with ⟨hok, -⟩ | ⟨hmay, _, -, rfl | rfl⟩
        · cases hok
        · exact .failed hmay
        · exact .removed hmay rfl hsome hdrift
    case isFalse hroleRef =>
      split at hrun
      case isTrue hdrift =>
        exact repair_patch hM hrun ⟨ObjectMeta.labelled_relabel _ _, rfl, not_ne_iff.mp hroleRef⟩
          hkey rfl (by simp [hsome])
      case isFalse hsame =>
        obtain ⟨-, rfl, rfl⟩ := hrun
        -- none of the three comparisons has found a difference
        rw [not_or, not_ne_iff] at hsame
        exact .fine ⟨existing, hsome, not_not.mp (mt ObjectMeta.drifted_iff.mpr hsame.2), hsame.1,
          not_ne_iff.mp hroleRef⟩

end Steps

/-! ## What a repair leaves -/

/-- The object is as it was, or as desired; a binding with another role
reference may be gone. -/
def Left (cluster : Redkey) (k : Kind) (s s' : Store) : Prop :=
  s'.robin k (robinKey cluster) = s.robin k (robinKey cluster) ∨ s'.HasDesired cluster k ∨
    k = .roleBinding ∧ s'.robin k (robinKey cluster) = none ∧ ∃ old : RoleBinding,
      s.robin .roleBinding (robinKey cluster) = some old ∧
        old.roleRef ≠ (desiredRB cluster).roleRef

section Composition

variable {fill : Deployment → Deployment} {may : Prop} {M : Sem Call Resp Store} {cluster : Redkey}
variable {k k' : Kind} {s s₁ s' : Store} {tr : List (Event Call Resp)} {x : Except Err Unit}

/-- A repair leaves the objects of the other kinds alone. -/
theorem Repair.other (h : Repair cluster may k s x s') (hk : k' ≠ k) :
    s'.robin k' = s.robin k' := by
  cases h with
  | fine => rfl
  | failed => rfl
  | _ => exact s.setObj_of_ne_kind hk

/-- Every object that was put in place has the key it is stored under. -/
theorem Repair.keyed (h : Repair cluster may k s x s') (hkeyed : s.KeyedAt (robinKey cluster)) :
    s'.KeyedAt (robinKey cluster) := by
  intro k' obj hobj
  by_cases hk : k' = k
  · subst hk
    cases h with
    | fine => exact hkeyed k' obj hobj
    | failed => exact hkeyed k' obj hobj
    | repaired _ hkey =>
        rw [Store.setObj_self] at hobj
        exact Option.some.inj hobj ▸ hkey
    | late _ _ hkey =>
        rw [Store.setObj_self] at hobj
        exact Option.some.inj hobj ▸ hkey
    | removed =>
        rw [Store.setObj_self] at hobj
        cases hobj
  · rw [h.other hk] at hobj
    exact hkeyed k' obj hobj

/-- A repair that succeeds has brought the object to the desired state. -/
theorem Repair.ok (h : Repair cluster may k s (.ok ()) s') : s'.HasDesired cluster k := by
  cases h with
  | fine hdesired => exact hdesired
  | repaired hdesired _ => exact ⟨_, Store.setObj_self _ _ _ _, hdesired⟩

/-- A repair that fails has left the object in one of the ways above. -/
theorem Repair.error {e : Err} (h : Repair cluster may k s (.error e) s') :
    may ∧ Left cluster k s s' := by
  cases h with
  | failed hmay => exact ⟨hmay, Or.inl rfl⟩
  | late hmay hdesired _ =>
      exact ⟨hmay, Or.inr (Or.inl ⟨_, Store.setObj_self _ _ _ _, hdesired⟩)⟩
  | removed hmay hk hold hdrift =>
      exact ⟨hmay, Or.inr (Or.inr ⟨hk, Store.setObj_self _ _ _ _, _, hold, hdrift⟩)⟩

theorem Store.HasDesired.congr (h : s.HasDesired cluster k) (heq : s'.robin k = s.robin k) :
    s'.HasDesired cluster k := by
  obtain ⟨obj, hobj, hdesired⟩ := h
  exact ⟨obj, heq ▸ hobj, hdesired⟩

theorem Left.congr (h : Left cluster k s₁ s') (heq : s₁.robin k = s.robin k) :
    Left cluster k s s' := by
  rcases h with hsame | hdesired | ⟨hk, hnone, hold⟩
  · exact Or.inl (heq ▸ hsame)
  · exact Or.inr (Or.inl hdesired)
  · subst hk
    exact Or.inr (Or.inr ⟨rfl, hnone, heq ▸ hold⟩)

/-- The three repairs, one after another. A failure of one of them leaves the
ones before it done and the ones after it not begun. -/
theorem traces_ensureRBAC (hM : MayFail fill may M) (hkeyed : s.KeyedAt (robinKey cluster))
    (h : Traces M (ensureRBAC cluster) s tr x s') :
    s'.KeyedAt (robinKey cluster) ∧ (x = .ok () → ∀ k ∈ rbacKinds, s'.HasDesired cluster k) ∧
      ∀ e, x = .error e → may ∧ ∀ k ∈ rbacKinds, Left cluster k s s' := by
  -- the kinds one by one
  have hall : ∀ P : Kind → Prop, P .serviceAccount → P .role → P .roleBinding →
      ∀ k ∈ rbacKinds, P k := by
    intro P hsa hrole hrb k hk
    simp only [rbacKinds, List.mem_cons, List.not_mem_nil, or_false] at hk
    rcases hk with rfl | rfl | rfl
    · exact hsa
    · exact hrole
    · exact hrb
  rcases Op.traces_bind.mp h with ⟨_, _, a, s₁, rfl, hrun, hrest⟩ | ⟨e, rfl, hrun⟩
  · have hsa := repair_serviceAccount hM hkeyed hrun
    have hkeyed₁ := hsa.keyed hkeyed
    rcases Op.traces_bind.mp hrest with ⟨_, _, a', s₂, rfl, hrun, hrun'⟩ | ⟨e, rfl, hrun⟩
    · have hrole := repair_role hM hkeyed₁ hrun
      have hkeyed₂ := hrole.keyed hkeyed₁
      have hrb := repair_roleBinding hM hkeyed₂ hrun'
      have hsa' : s'.HasDesired cluster .serviceAccount :=
        (hsa.ok.congr (hrole.other (by decide))).congr (hrb.other (by decide))
      have hrole' : s'.HasDesired cluster .role := hrole.ok.congr (hrb.other (by decide))
      refine ⟨hrb.keyed hkeyed₂, ?_, ?_⟩
      · rintro rfl
        exact hall _ hsa' hrole' hrb.ok
      · rintro e rfl
        -- only the binding was not repaired
        obtain ⟨hmay, hleft⟩ := hrb.error
        refine ⟨hmay, hall _ (Or.inr (Or.inl hsa')) (Or.inr (Or.inl hrole')) (hleft.congr ?_)⟩
        exact (hrole.other (by decide)).trans (hsa.other (by decide))
    · have hrole := repair_role hM hkeyed₁ hrun
      refine ⟨hrole.keyed hkeyed₁, fun hok => (by cases hok), ?_⟩
      rintro _ -
      -- the ServiceAccount is repaired, and the binding is as it was
      obtain ⟨hmay, hleft⟩ := hrole.error
      refine ⟨hmay, hall _ (Or.inr (Or.inl (hsa.ok.congr (hrole.other (by decide)))))
        (hleft.congr (hsa.other (by decide))) (Or.inl ?_)⟩
      rw [hrole.other (by decide), hsa.other (by decide)]
  · have hsa := repair_serviceAccount hM hkeyed hrun
    refine ⟨hsa.keyed hkeyed, fun hok => (by cases hok), ?_⟩
    rintro _ -
    -- the other two are as they were
    obtain ⟨hmay, hleft⟩ := hsa.error
    refine ⟨hmay, hall _ hleft (Or.inl ?_) (Or.inl ?_)⟩
    · rw [hsa.other (by decide)]
    · rw [hsa.other (by decide)]

/-! ## Nothing to repair -/

/-- A function that finds its object as desired returns after the read, or
with its failure. -/
theorem reads_withExisting {absent : Rec Unit} {present : Obj k → Rec Unit}
    (hM : MayFail fill may M) (hdesired : s.HasDesired cluster k)
    (hpresent : ∀ obj, Desired cluster k obj → present obj = pure ())
    (h : Traces M (withExisting k (robinKey cluster) absent present) s tr x s') :
    (∀ e ∈ tr, e.1.isRead = true) ∧ s' = s := by
  obtain ⟨obj, hobj, hd⟩ := hdesired
  obtain ⟨r, rest, rfl, ⟨obj', hobj', hrest⟩ | ⟨hnone, -⟩ | ⟨-, rfl, _, -, rfl⟩⟩ :=
    traces_withExisting hM h
  · obtain rfl : obj = obj' := Option.some.inj (hobj.symm.trans hobj')
    rw [hpresent obj hd] at hrest
    obtain ⟨rfl, -, rfl⟩ := hrest
    exact ⟨by simp [Call.isRead], rfl⟩
  · rw [hobj] at hnone
    cases hnone
  · exact ⟨by simp [Call.isRead], rfl⟩

theorem not_drifted {existing desired : ObjectMeta} (h : existing.Labelled desired) :
    ¬ existing.drifted desired = true :=
  fun hdrift => ObjectMeta.drifted_iff.mp hdrift h

/-- A call that finds everything as desired only reads. -/
theorem ensureRBAC_reads (hM : MayFail fill may M)
    (hdesired : ∀ k ∈ rbacKinds, s.HasDesired cluster k)
    (h : Traces M (ensureRBAC cluster) s tr x s') : ∀ e ∈ tr, e.1.isRead = true := by
  have hsa : ∀ tr y s₁, Traces M (ensureServiceAccount cluster) s tr y s₁ →
      (∀ e ∈ tr, e.1.isRead = true) ∧ s₁ = s := by
    intro tr y s₁ hrun
    refine reads_withExisting hM (hdesired .serviceAccount (by decide)) ?_ hrun
    exact fun (obj : ServiceAccount) hd => if_neg (not_drifted hd)
  have hrole : ∀ tr y s₁, Traces M (ensureRole cluster) s tr y s₁ →
      (∀ e ∈ tr, e.1.isRead = true) ∧ s₁ = s := by
    intro tr y s₁ hrun
    refine reads_withExisting hM (hdesired .role (by decide)) ?_ hrun
    exact fun (obj : Role) hd => if_neg (not_or.mpr ⟨not_ne_iff.mpr hd.2, not_drifted hd.1⟩)
  have hrb : ∀ tr y s₁, Traces M (ensureRoleBinding cluster) s tr y s₁ →
      (∀ e ∈ tr, e.1.isRead = true) ∧ s₁ = s := by
    intro tr y s₁ hrun
    refine reads_withExisting hM (hdesired .roleBinding (by decide)) ?_ hrun
    intro (obj : RoleBinding) hd
    exact (if_neg (not_ne_iff.mpr hd.2.2)).trans
      (if_neg (not_or.mpr ⟨not_ne_iff.mpr hd.2.1, not_drifted hd.1⟩))
  -- a failed read ends the pass early, and is a read all the same
  rcases Op.traces_bind.mp h with ⟨tr₁, tr₂, a, s₁, rfl, hrun, hrest⟩ | ⟨e, rfl, hrun⟩
  · obtain ⟨hreads, rfl⟩ := hsa _ _ _ hrun
    rw [List.forall_mem_append]
    refine ⟨hreads, ?_⟩
    rcases Op.traces_bind.mp hrest with ⟨tr₃, tr₄, a', s₂, rfl, hrun, hrun'⟩ | ⟨e, rfl, hrun⟩
    · obtain ⟨hreads', rfl⟩ := hrole _ _ _ hrun
      exact List.forall_mem_append.mpr ⟨hreads', (hrb _ _ _ hrun').1⟩
    · exact (hrole _ _ _ hrun).1
  · exact (hsa _ _ _ hrun).1

/-! ## Convergence -/

/-- `ensureRBAC` under failures: what it leaves when it succeeds and when it
fails, and that a call without failures gets to the desired state from
anywhere. -/
theorem ensureRBAC_converges (fill : Deployment → Deployment) (cluster : Redkey)
    (hkeyed : s.KeyedAt (robinKey cluster))
    (h : Traces (faulty fill) (ensureRBAC cluster) s tr x s') :
    (x = .ok () → (∀ k ∈ rbacKinds, s'.HasDesired cluster k) ∧
      ∀ tr₂ x₂ s₂, Traces (faulty fill) (ensureRBAC cluster) s' tr₂ x₂ s₂ →
        ∀ e ∈ tr₂, e.1.isRead = true) ∧
    (∀ e, x = .error e → ∀ k ∈ rbacKinds, Left cluster k s s') ∧
    s'.KeyedAt (robinKey cluster) ∧
    ∀ s₀, s₀.KeyedAt (robinKey cluster) →
      ((ensureRBAC cluster).run (serve fill) s₀).1 = .ok () ∧
      ∀ k ∈ rbacKinds, ((ensureRBAC cluster).run (serve fill) s₀).2.HasDesired cluster k := by
  obtain ⟨hkeyed', hok, herror⟩ := traces_ensureRBAC (faulty_mayFail fill) hkeyed h
  refine ⟨?_, fun e he => (herror e he).2, hkeyed', ?_⟩
  · intro hx
    exact ⟨hok hx, fun _ _ _ hagain => ensureRBAC_reads (faulty_mayFail fill) (hok hx) hagain⟩
  · intro s₀ hkeyed₀
    -- the run of a server without failures is a run of `serving`
    have hserved := traces_events (M := serving fill) (h := serve fill) (fun c s => rfl)
      (ensureRBAC cluster) s₀
    obtain ⟨-, hok₀, herror₀⟩ := traces_ensureRBAC (serving_mayFail fill) hkeyed₀ hserved
    cases hx : ((ensureRBAC cluster).run (serve fill) s₀).1 with
    | ok a => exact ⟨rfl, hok₀ hx⟩
    | error e => exact (herror₀ e hx).1.elim

end Composition

/-! ### A binding that is lost for a while -/

/-- A binding to another role. -/
def otherBinding : RoleBinding :=
  { desiredRB sampleCluster with
    roleRef := { (desiredRB sampleCluster).roleRef with name := "admin" } }

/-- There is nothing else. -/
def otherRole : Store where
  redkeys := fun _ => none
  configs := []
  robin := fun k key =>
    match k with
    | .roleBinding => if key = robinKey sampleCluster then some otherBinding else none
    | _ => none

/-- A server that refuses to create bindings. -/
def refuseBindings : (c : Call) → Store → Resp c × Store
  | .create .roleBinding _, s => (.error .other, s)
  | c, s => serve id c s

/-- Refusing to create bindings is one of the failures there may be. -/
theorem refuseBindings_faulty (c : Call) (s : Store) :
    (faulty id).exec c s (refuseBindings c s).1 (refuseBindings c s).2 := by
  cases c with
  | create k obj =>
      cases k with
      | roleBinding => exact Or.inr ⟨.other, by decide, rfl, Or.inl rfl⟩
      | _ => exact Or.inl rfl
  | _ => exact Or.inl rfl

/-- The binding is deleted and cannot be created: one of the outcomes of a
call that fails. The next call without failures creates it. -/
theorem ensureRBAC_of_otherRole :
    Left sampleCluster .roleBinding otherRole
        ((ensureRBAC sampleCluster).run refuseBindings otherRole).2 ∧
      ((ensureRBAC sampleCluster).run (serve id)
        ((ensureRBAC sampleCluster).run refuseBindings otherRole).2).1 = .ok () := by
  have hkeyed : otherRole.KeyedAt (robinKey sampleCluster) := by
    intro k obj hobj
    cases k with
    | roleBinding =>
        have hstored : otherRole.robin .roleBinding (robinKey sampleCluster) =
            some otherBinding := by
          simp [otherRole]
        rw [hstored] at hobj
        cases hobj
        rfl
    | _ => cases hobj
  have hrun := traces_events refuseBindings_faulty (ensureRBAC sampleCluster) otherRole
  obtain ⟨-, herror, hkeyed', hagain⟩ := ensureRBAC_converges id sampleCluster hkeyed hrun
  have hfailed : ((ensureRBAC sampleCluster).run refuseBindings otherRole).1 =
      .error (.api .other) := by decide +kernel
  exact ⟨herror _ hfailed .roleBinding (by decide), (hagain _ hkeyed').1⟩

end RedkeyOperator
