import RedkeyOperator.Api.Server

/-!
# Authorisation

What the API server checks before it serves a request. The rules of the requester have to allow the
verb on the resource, and nobody hands out permissions they do not have: the rules of a Role that
is written, and those of the Role that a binding refers to, have to be covered by the requester's
own (`covers`). That check is exact: covered rules allow nothing else (`allowed_of_covers`).
-/

namespace RedkeyOperator

/-- What a request asks to do; a subresource follows its resource after a
slash. -/
structure Attributes where
  verb : String
  /-- The resource it is done to, within its group. -/
  apiGroup : String
  resource : String
deriving DecidableEq, Repr

/-- An entry of a rule: the value itself, or the wildcard. -/
def entryMatches (entries : List String) (value : String) : Bool :=
  entries.contains value ∨ entries.contains "*"

/-- A rule allows every combination of its entries. -/
def PolicyRule.allows (rule : PolicyRule) (a : Attributes) : Bool :=
  entryMatches rule.verbs a.verb ∧ entryMatches rule.apiGroups a.apiGroup ∧
    entryMatches rule.resources a.resource

/-- One rule is enough. Nothing can be forbidden by a rule. -/
def allowed (rules : List PolicyRule) (a : Attributes) : Bool := rules.any (·.allows a)

/-- A rule broken down to single entries. -/
def PolicyRule.breakdown (rule : PolicyRule) : List Attributes :=
  rule.verbs.flatMap fun verb => rule.apiGroups.flatMap fun apiGroup =>
    rule.resources.map fun resource => ⟨verb, apiGroup, resource⟩

/-- The requester has whatever `granted` gives. -/
def covers (rules granted : List PolicyRule) : Bool :=
  granted.all fun rule => rule.breakdown.all (allowed rules)

theorem PolicyRule.mem_breakdown {rule : PolicyRule} {a : Attributes} :
    a ∈ rule.breakdown ↔
      a.verb ∈ rule.verbs ∧ a.apiGroup ∈ rule.apiGroups ∧ a.resource ∈ rule.resources := by
  simp only [breakdown, List.mem_flatMap, List.mem_map]
  constructor
  · rintro ⟨verb, hverb, apiGroup, hgroup, resource, hresource, rfl⟩
    exact ⟨hverb, hgroup, hresource⟩
  · rintro ⟨hverb, hgroup, hresource⟩
    exact ⟨_, hverb, _, hgroup, _, hresource, rfl⟩

/-- The entry that matches a value: whatever matches the entry matches the
value. -/
theorem exists_entry {entries : List String} {value : String}
    (h : entryMatches entries value = true) :
    ∃ entry ∈ entries, ∀ others, entryMatches others entry = true →
      entryMatches others value = true := by
  simp only [entryMatches, decide_eq_true_eq, List.contains_iff_mem] at h ⊢
  rcases h with hvalue | hany
  · exact ⟨value, hvalue, fun _ hothers => hothers⟩
  · exact ⟨"*", hany, fun _ hothers => Or.inr (hothers.elim id id)⟩

/-- Whatever the covered rules allow, the requester was allowed before. -/
theorem allowed_of_covers {rules granted : List PolicyRule} (h : covers rules granted = true)
    {a : Attributes} (ha : allowed granted a = true) : allowed rules a = true := by
  obtain ⟨rule, hrule, hallows⟩ := List.any_eq_true.mp ha
  obtain ⟨hverb, hgroup, hresource⟩ := of_decide_eq_true hallows
  obtain ⟨verb, hverb, hverbs⟩ := exists_entry hverb
  obtain ⟨apiGroup, hgroup, hgroups⟩ := exists_entry hgroup
  obtain ⟨resource, hresource, hresources⟩ := exists_entry hresource
  -- the entries that match the request are covered by one rule
  have hentry : ⟨verb, apiGroup, resource⟩ ∈ rule.breakdown :=
    PolicyRule.mem_breakdown.mpr ⟨hverb, hgroup, hresource⟩
  have hcovered := List.all_eq_true.mp (List.all_eq_true.mp h rule hrule) _ hentry
  obtain ⟨own, hown, hentries⟩ := List.any_eq_true.mp hcovered
  obtain ⟨hv, hg, hr⟩ := of_decide_eq_true hentries
  have hallowed : own.allows a = true :=
    decide_eq_true ⟨hverbs _ hv, hgroups _ hg, hresources _ hr⟩
  exact List.any_eq_true.mpr ⟨own, hown, hallowed⟩

/-! ## The operator's rules -/

/-- What a controller needs for the objects it manages. -/
def allVerbs : List String := ["get", "list", "watch", "create", "update", "patch", "delete"]

/-- The rules of the operator's ClusterRole, from the markers of
`redkey_controller.go`. -/
def operatorRules : List PolicyRule := [
  ⟨["redkey.inditex.dev"], ["redkeys"], allVerbs⟩,
  ⟨["redkey.inditex.dev"], ["redkeys/status"], ["get", "update", "patch"]⟩,
  ⟨["redkey.inditex.dev"], ["redkeys/scale"], ["get", "update", "patch"]⟩,
  ⟨["redkey.inditex.dev"], ["redkeys/finalizers"], ["update"]⟩,
  -- configs are never updated: the operator creates and deletes them
  ⟨["redkey.inditex.dev"], ["redkeyconfigs"], ["get", "list", "watch", "create", "delete"]⟩,
  ⟨["redkey.inditex.dev"], ["redkeyconfigs/status"], ["get", "update", "patch"]⟩,
  ⟨[""], ["configmaps", "services"], allVerbs⟩,
  ⟨[""], ["pods"], ["get", "list", "watch", "delete"]⟩,
  ⟨[""], ["secrets"], ["get"]⟩,
  ⟨[""], ["persistentvolumeclaims"], ["list", "delete"]⟩,
  ⟨["apps"], ["statefulsets"], allVerbs⟩,
  ⟨["policy"], ["poddisruptionbudgets"], allVerbs⟩,
  ⟨["apps"], ["deployments"], allVerbs⟩,
  ⟨[""], ["serviceaccounts"], allVerbs⟩,
  ⟨["rbac.authorization.k8s.io"], ["roles", "rolebindings"], allVerbs⟩]

/-! ## What the requests need -/

/-- The group that an object of Robin's belongs to. -/
def Kind.apiGroup : Kind → String
  | .serviceAccount => ""
  | .role => "rbac.authorization.k8s.io"
  | .roleBinding => "rbac.authorization.k8s.io"
  | .deployment => "apps"

/-- The name of the kind in a rule. -/
def Kind.resource : Kind → String
  | .serviceAccount => "serviceaccounts"
  | .role => "roles"
  | .roleBinding => "rolebindings"
  | .deployment => "deployments"

/-- A read goes through a cache, which lists and watches. -/
def readPermissions (apiGroup resource : String) : List Attributes :=
  ["get", "list", "watch"].map fun verb => ⟨verb, apiGroup, resource⟩

/-- A controller reference blocks the deletion of its owner, which is a matter
of the owner's finalizers. -/
def createPermissions (apiGroup resource : String) : List Attributes :=
  [⟨"create", apiGroup, resource⟩, ⟨"update", "redkey.inditex.dev", "redkeys/finalizers"⟩]

/-- What the requester has to be allowed for a request. -/
def Call.permissions : Call → List Attributes
  | .getRedkey _ _ => readPermissions "redkey.inditex.dev" "redkeys"
  | .updateRedkeyStatus _ => [⟨"update", "redkey.inditex.dev", "redkeys/status"⟩]
  | .listConfigs _ _ _ _ => readPermissions "redkey.inditex.dev" "redkeyconfigs"
  | .createConfig _ => createPermissions "redkey.inditex.dev" "redkeyconfigs"
  | .deleteConfig _ => [⟨"delete", "redkey.inditex.dev", "redkeyconfigs"⟩]
  | .get k _ => readPermissions k.apiGroup k.resource
  | .create k _ => createPermissions k.apiGroup k.resource
  | .patch k _ => [⟨"patch", k.apiGroup, k.resource⟩]
  | .delete k _ => [⟨"delete", k.apiGroup, k.resource⟩]
  -- [] => not a request to the server
  | .metric _ => []

/-- The rules of the Role that the binding refers to. A binding to a Role that
is not there hands out nothing, and is not stored either. -/
def RoleBinding.grants (roles : Objs .role) (binding : RoleBinding) : List PolicyRule :=
  match roles ⟨binding.metadata.ns, binding.roleRef.name⟩ with
  | some (role : Role) => role.rules
  | none => []

/-- The permissions that a request hands out. -/
def Call.grants (roles : Objs .role) : Call → List PolicyRule
  | .create .role (obj : Role) => obj.rules
  | .patch .role (obj : Role) => obj.rules
  | .create .roleBinding (obj : RoleBinding) => obj.grants roles
  | .patch .roleBinding (obj : RoleBinding) => obj.grants roles
  | _ => []

/-- The request of a requester with `rules` is not forbidden. -/
def Call.authorized (rules : List PolicyRule) (roles : Objs .role) (c : Call) : Bool :=
  c.permissions.all (allowed rules) ∧ covers rules (c.grants roles)

end RedkeyOperator
