import RedkeyOperator.System.Fresh

/-!
# Putting Robin in place

`ensureRBAC` and `ensureRobinDeployment` leave all four of Robin's objects in the store when they
succeed. What else is known of the state on the way differs from result to result: `Staffing` lists
what an assertion has to withstand, and the rules for the two functions follow from that once.

The role reference of a RoleBinding cannot be changed. A binding that refers elsewhere is deleted
and created anew, and between these two calls there is none.
-/

namespace RedkeyOperator

open Interleaved Interleaved.Op

/-- All four of Robin's objects exist. Nothing is said about what is in
them. -/
def Staffed (key : NamespacedName) (w : World) : Prop :=
  ∀ k, (w.store.robin k (robinKeyOf key)).isSome

/-- The role reference of a RoleBinding is the one the operator gives it. Only
then the binding is not replaced. -/
def RefersToRole (key : NamespacedName) : (k : Kind) → Obj k → Prop
  | .roleBinding, rb => RoleBinding.roleRef rb =
      { apiGroup := "rbac.authorization.k8s.io", kind := "Role", name := key.name ++ "-robin" }
  | _, _ => True

/-- Robin's object of the kind is there, and is not one that the operator
would replace. -/
def InPost (key : NamespacedName) (k : Kind) (w : World) : Prop :=
  ∃ obj, w.store.robin k (robinKeyOf key) = some obj ∧ RefersToRole key k obj

/-- All of Robin's objects. -/
def allKinds : List Kind := [.deployment, .roleBinding, .role, .serviceAccount]

theorem mem_allKinds (k : Kind) : k ∈ allKinds := by
  cases k <;> decide

/-- Defaults are filled into Deployments only. -/
theorem refersToRole_withDefaults {key : NamespacedName} {k : Kind} {obj : Obj k}
    (fill : Deployment → Deployment) (h : RefersToRole key k obj) :
    RefersToRole key k (withDefaults fill k obj) := by
  cases k <;> exact h

variable {key : NamespacedName} {w : World}

/-- Storing an object that is not to be replaced keeps the others in post. -/
theorem InPost.put {k k' : Kind} {obj : Obj k} (h : InPost key k' w) (hobj : RefersToRole key k obj)
    (key' : NamespacedName) : InPost key k' (w.setObj k key' (some obj)) := by
  obtain ⟨old, hold, hrefers⟩ := h
  -- an object of another kind, of this kind and name, or of this kind and another name
  by_cases hk : k' = k
  · subst hk
    by_cases hkey : robinKeyOf key = key'
    · subst hkey
      exact ⟨obj, w.store.setObj_self _ _ _, hobj⟩
    · exact ⟨old, (w.store.setObj_of_ne_key hkey).trans hold, hrefers⟩
  · exact ⟨old, (congrFun (w.store.setObj_of_ne_kind hk) _).trans hold, hrefers⟩

/-- Removing a RoleBinding leaves the objects of the other kinds in post. -/
theorem InPost.remove {k k' : Kind} (h : InPost key k' w) (hk : k' ≠ k) (key' : NamespacedName) :
    InPost key k' (w.setObj k key' none) := by
  obtain ⟨old, hold, hrefers⟩ := h
  exact ⟨old, (congrFun (w.store.setObj_of_ne_kind hk) _).trans hold, hrefers⟩

/-- What has to be known of an assertion `A kinds`, which says among other
things that Robin's objects of these kinds are there. `Astray kinds` is what
is known while a RoleBinding is replaced; `I` is left behind by a call that
fails. -/
structure Staffing (fill : Deployment → Deployment) (env : World → World → Prop)
    (ok : (c : Call) → World → Resp c → Prop) (G : (c : Call) → World → Resp c → World → Prop)
    (key : NamespacedName) (I : World → Prop) (A Astray : List Kind → World → Prop) : Prop where
  quiet : Quiet (freshRuns fill env ok) G
  stable : ∀ kinds, Stable (freshRuns fill env ok) (A kinds)
  stable_astray : ∀ kinds, Stable (freshRuns fill env ok) (Astray kinds)
  inv : ∀ kinds w, A kinds w → I w
  inv_astray : ∀ kinds w, Astray kinds w → I w
  guarantee : ∀ c w r w', I w' → G c w r w'
  /-- An object is stored, here or elsewhere. -/
  put : ∀ kinds w k key' obj, RefersToRole key k obj → A kinds w →
    A kinds (w.setObj k key' (some (withDefaults fill k obj)))
  /-- An object is found, or has just been created. -/
  found : ∀ kinds w k, InPost key k w → A kinds w → A (k :: kinds) w
  /-- The RoleBinding that is found refers elsewhere. -/
  astray : ∀ kinds w rb, w.store.robin .roleBinding (robinKeyOf key) = some rb →
    ¬ RefersToRole key .roleBinding rb → A kinds w → Astray kinds w
  replace : ∀ kinds w key', Astray kinds w → A kinds (w.setObj .roleBinding key' none)

namespace Staffing

variable {fill : Deployment → Deployment} {env : World → World → Prop}
variable {ok : (c : Call) → World → Resp c → Prop} {G : (c : Call) → World → Resp c → World → Prop}
variable {I : World → Prop} {A Astray : List Kind → World → Prop}
variable {kinds : List Kind} {k : Kind} {obj : Obj k} {cluster : Redkey}

/-- A call, answered or lost. A lost one may have been served. -/
theorem call (h : Staffing fill env ok G key I A Astray) {c : Call} {B : World → Prop}
    {Q : Resp c → World → Prop} (hB : ∀ w, B w → I w) (hQ : ∀ r w, Q r w → I w)
    (hlost : ∀ w, I w → Q (lost c) w)
    (hexec : ∀ w r w', B w → World.exec fill c w r w' → Q r w') :
    ∀ w r w', B w → (freshRuns fill env ok).exec c w r w' → G c w r w' ∧ Q r w' := by
  intro w r w' hw hcall
  have hout : Q r w' := by
    rcases hcall with ⟨-, hcall⟩ | ⟨rfl, rfl | ⟨r₀, -, hcall⟩⟩
    · exact hexec w r w' hw hcall
    · exact hlost _ (hB _ hw)
    · exact hlost w' (hQ r₀ w' (hexec w r₀ w' hw hcall))
  exact ⟨h.guarantee c w r w' (hQ r w' hout), hout⟩

/-- A request whose failure ends the reconcile. -/
theorem request_triple (h : Staffing fill env ok G key I A Astray) {c : Call} {B : World → Prop}
    {Q : Payload c → World → Prop} (hstable : Stable (freshRuns fill env ok) B)
    (hB : ∀ w, B w → I w) (hQ : ∀ a w, Q a w → I w)
    (hexec : ∀ w r w', B w → World.exec fill c w r w' → Outcome Q I r w') :
    Triple (freshRuns fill env ok) G I B (api c) Q := by
  refine api_triple hstable (h.call hB ?_ (fun _ hw => hw) hexec)
  intro r w hr
  cases r with
  | ok a => exact hQ a w hr
  | error e => exact hr

/-- A create that succeeds puts the object in post. -/
theorem create_triple (h : Staffing fill env ok G key I A Astray)
    (hkey : obj.metadata.key = robinKeyOf key) (hobj : RefersToRole key k obj) :
    Triple (freshRuns fill env ok) G I (A kinds) (api (.create k obj)) fun _ => A (k :: kinds) := by
  refine h.request_triple (h.stable kinds) (h.inv kinds) (fun _ => h.inv _) ?_
  intro w r w' hw hexec
  rcases exec_create hexec with ⟨rfl, -, rfl⟩ | ⟨rfl, -, rfl⟩
  · have hstored : InPost key k
        (w.setObj k obj.metadata.key (some (withDefaults fill k obj))) :=
      ⟨_, hkey ▸ w.store.setObj_self _ _ _, refersToRole_withDefaults fill hobj⟩
    exact h.found kinds _ k hstored (h.put kinds w k _ obj hobj hw)
  · exact h.inv kinds _ hw

theorem patch_triple (h : Staffing fill env ok G key I A Astray) (hobj : RefersToRole key k obj) :
    Triple (freshRuns fill env ok) G I (A kinds) (api (.patch k obj)) fun _ => A kinds := by
  refine h.request_triple (h.stable kinds) (h.inv kinds) (fun _ => h.inv kinds) ?_
  intro w r w' hw hexec
  rcases exec_patch hexec with ⟨rfl, -, rfl⟩ | ⟨rfl, -, rfl⟩
  · exact h.put kinds w k _ obj hobj hw
  · exact h.inv kinds _ hw

theorem metric_triple (h : Staffing fill env ok G key I A Astray) {e : MetricEvent} :
    Triple (freshRuns fill env ok) G I (A kinds) (metric e) fun _ => A kinds :=
  RedkeyOperator.metric_triple h.quiet (h.stable kinds)

/-- What is known of an object that was found: it is in post, or a RoleBinding
that has gone astray. -/
def Found (key : NamespacedName) (A Astray : List Kind → World → Prop) (kinds : List Kind)
    {k : Kind} (obj : Obj k) (w : World) : Prop :=
  (RefersToRole key k obj ∧ A (k :: kinds) w) ∨
    (k = .roleBinding ∧ ¬ RefersToRole key k obj ∧ Astray kinds w)

/-- In both cases a failure may follow. -/
theorem found_inv (h : Staffing fill env ok G key I A Astray)
    (hw : Found key A Astray kinds obj w) : I w := by
  rcases hw with ⟨-, hw⟩ | ⟨-, -, hw⟩
  · exact h.inv _ w hw
  · exact h.inv_astray kinds w hw

/-- An object is there once it was found, or created. -/
theorem withExisting_triple (h : Staffing fill env ok G key I A Astray) {absent : Rec Unit}
    {present : Obj k → Rec Unit} {kinds' : List Kind}
    (habsent : Triple (freshRuns fill env ok) G I (A kinds) absent fun _ => A kinds')
    (hpresent : ∀ obj, Triple (freshRuns fill env ok) G I (Found key A Astray kinds obj)
      (present obj) fun _ => A kinds') :
    Triple (freshRuns fill env ok) G I (A kinds) (withExisting k (robinKeyOf key) absent present)
      fun _ => A kinds' := by
  refine Triple.bind (Q := Tolerating .notFound (Found key A Astray kinds) (A kinds) I)
    (Triple.request (h.stable kinds) (h.call (h.inv kinds) ?_ ?_ ?_)) ?_
  · intro r w hr
    cases r with
    | ok obj => exact h.found_inv hr
    | error e =>
        obtain ⟨hmissing, hother⟩ := tolerating_error.mp hr
        exact (eq_or_ne e .notFound).elim (fun he => h.inv kinds w (hmissing he)) hother
  · -- tolerating_error => a lost read ends the call
    exact fun w hw => tolerating_error.mpr ⟨fun he => (by cases he), fun _ => hw⟩
  · intro w r w' hw hexec
    obtain ⟨rfl, rfl⟩ := exec_get hexec
    cases hfind : find (w'.store.robin k) (robinKeyOf key) with
    | error e => exact tolerating_error.mpr ⟨fun _ => hw, fun _ => h.inv kinds w' hw⟩
    | ok obj =>
        have hobj := find_eq_ok.mp hfind
        -- only the reference of a binding can be another one
        by_cases hrefers : RefersToRole key k obj
        · exact Or.inl ⟨hrefers, h.found kinds w' k ⟨obj, hobj, hrefers⟩ hw⟩
        · cases k with
          | roleBinding => exact Or.inr ⟨rfl, hrefers, h.astray kinds w' obj hobj hrefers hw⟩
          | _ => exact absurd trivial hrefers
  · intro r
    match r with
    | .ok obj => exact hpresent obj
    | .error .notFound => exact habsent
    | .error .alreadyExists => exact Triple.throw fun _ hw => hw
    | .error .conflict => exact Triple.throw fun _ hw => hw
    | .error .other => exact Triple.throw fun _ hw => hw

/-- The rule for the objects that are never replaced. -/
theorem ensure_triple (h : Staffing fill env ok G key I A Astray) {absent : Rec Unit}
    {present : Obj k → Rec Unit} (hk : k ≠ .roleBinding)
    (habsent : Triple (freshRuns fill env ok) G I (A kinds) absent fun _ => A (k :: kinds))
    (hpresent : ∀ obj, Triple (freshRuns fill env ok) G I (A (k :: kinds)) (present obj) fun _ =>
      A (k :: kinds)) :
    Triple (freshRuns fill env ok) G I (A kinds) (withExisting k (robinKeyOf key) absent present)
      fun _ => A (k :: kinds) := by
  refine h.withExisting_triple habsent ?_
  rintro obj w (⟨-, hw⟩ | ⟨rfl, -⟩)
  · exact hpresent obj w hw
  · exact absurd rfl hk

/-- The ServiceAccount is patched at most. -/
theorem ensureServiceAccount_triple (h : Staffing fill env ok G cluster.key I A Astray) :
    Triple (freshRuns fill env ok) G I (A kinds) (ensureServiceAccount cluster) fun _ =>
      A (.serviceAccount :: kinds) := by
  refine h.ensure_triple (by decide) (h.create_triple rfl trivial) ?_
  intro existing
  dsimp only
  split
  · exact h.patch_triple trivial
  · exact Triple.pure fun _ hw => hw

theorem ensureRole_triple (h : Staffing fill env ok G cluster.key I A Astray) :
    Triple (freshRuns fill env ok) G I (A kinds) (ensureRole cluster) fun _ =>
      A (.role :: kinds) := by
  refine h.ensure_triple (by decide) (h.create_triple rfl trivial) ?_
  intro existing
  dsimp only
  split
  · exact h.patch_triple trivial
  · exact Triple.pure fun _ hw => hw

/-- The RoleBinding is patched if it refers to the right Role, and replaced
otherwise. -/
theorem ensureRoleBinding_triple (h : Staffing fill env ok G cluster.key I A Astray) :
    Triple (freshRuns fill env ok) G I (A kinds) (ensureRoleBinding cluster) fun _ =>
      A (.roleBinding :: kinds) := by
  refine h.withExisting_triple (h.create_triple rfl rfl) ?_
  rintro existing w (⟨hrefers, hw⟩ | ⟨-, hrefers, hw⟩)
  · have hsame : ¬ (RoleBinding.roleRef existing ≠ (desiredRB cluster).roleRef) :=
      fun hne => hne hrefers
    dsimp only
    rw [if_neg hsame]
    split
    · -- the patch keeps the reference
      have hpatched : RefersToRole cluster.key .roleBinding { existing with
          metadata := existing.metadata.relabel (rbacMeta cluster)
          subjects := (desiredRB cluster).subjects } := hrefers
      exact h.patch_triple hpatched w hw
    · exact Triple.pure (fun _ hw => hw) w hw
  · have hother : RoleBinding.roleRef existing ≠ (desiredRB cluster).roleRef := hrefers
    dsimp only
    rw [if_pos hother]
    -- the binding goes, and the next call brings the right one
    have hdesired : RefersToRole cluster.key .roleBinding (desiredRB cluster) := rfl
    refine Triple.bind (Q := fun _ => A kinds) (h.request_triple (h.stable_astray kinds)
      (h.inv_astray kinds) (fun _ => h.inv kinds) ?_) (fun _ => h.create_triple rfl hdesired) w hw
    intro w r w' hw hexec
    rcases exec_delete hexec with ⟨rfl, rfl⟩ | ⟨rfl, -, rfl⟩
    · exact h.replace kinds w _ hw
    · exact h.inv_astray kinds _ hw

theorem ensureRBAC_triple (h : Staffing fill env ok G cluster.key I A Astray) :
    Triple (freshRuns fill env ok) G I (A []) (ensureRBAC cluster) fun _ =>
      A [.roleBinding, .role, .serviceAccount] := by
  refine Triple.bind h.ensureServiceAccount_triple fun _ => ?_
  exact Triple.bind h.ensureRole_triple fun _ => h.ensureRoleBinding_triple

/-- The Deployment comes last, and is counted when it is written. -/
theorem ensureRobinDeployment_triple (h : Staffing fill env ok G cluster.key I A Astray) :
    Triple (freshRuns fill env ok) G I (A kinds) (ensureRobinDeployment cluster) fun _ =>
      A (.deployment :: kinds) := by
  refine h.ensure_triple (by decide) (Triple.bind (h.create_triple rfl trivial) fun _ =>
    h.metric_triple) ?_
  intro existing
  split
  · exact Triple.bind (h.patch_triple trivial) fun _ => h.metric_triple
  · exact Triple.pure fun _ hw => hw

end Staffing

end RedkeyOperator
