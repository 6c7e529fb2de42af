import RedkeyOperator.Api.Redkey

/-!
# Admission

The validation rules of the Redkey resource, as the API server evaluates them on a user's edit of
the spec. The status is not part of such an edit: the rules that mention it see the stored one. A
field that is left out of the stored object because it is empty (`omitempty`) does not `has`.
-/

namespace RedkeyOperator

/-- The rules on the new spec alone. -/
def RedkeySpec.valid (spec : RedkeySpec) : Bool :=
  0 ≤ spec.primaries ∧
  (spec.ephemeral ∨ spec.storage ≠ "") ∧
  ¬ (spec.ephemeral ∧ spec.storage ≠ "") ∧
  ¬ (¬ spec.ephemeral ∧ spec.purgeKeysOnRebalance = some true) ∧
  (spec.mode ≠ .standalone ∨ spec.primaries ≤ 1) ∧
  (spec.mode ≠ .standalone ∨ spec.replicasPerPrimary = 0) ∧
  spec.accessModes.all (["ReadWriteOnce", "ReadOnlyMany", "ReadWriteMany"].contains ·)

/-- The fields that cannot be changed; an optional one can be added or left
out. -/
def RedkeySpec.keepsImmutable (old new : RedkeySpec) : Bool :=
  new.mode = old.mode ∧
  new.ephemeral = old.ephemeral ∧
  (old.storage = "" ∨ new.storage = "" ∨ new.storage = old.storage) ∧
  new.storageClassName = old.storageClassName ∧
  (old.accessModes = [] ∨ new.accessModes = [] ∨ new.accessModes = old.accessModes)

/-- The first root rule: scaling up from zero restores the primaries. -/
def restoresPrimaries (old : Redkey) (new : RedkeySpec) : Bool :=
  new.ephemeral ∨ old.spec.primaries ≠ 0 ∨ new.primaries = 0 ∨
  old.status.lastAppliedPrimaries = 0 ∨ new.primaries = old.status.lastAppliedPrimaries

/-- The second root rule: and the replicas per primary. -/
def restoresReplicas (old : Redkey) (new : RedkeySpec) : Bool :=
  new.ephemeral ∨ old.spec.primaries ≠ 0 ∨ new.primaries = 0 ∨
  old.status.lastAppliedPrimaries = 0 ∨
  new.replicasPerPrimary = old.status.lastAppliedReplicasPerPrimary

/-- The edit is admitted. -/
def admitted (old : Redkey) (new : RedkeySpec) : Bool :=
  new.valid ∧ old.spec.keepsImmutable new ∧ restoresPrimaries old new ∧ restoresReplicas old new

end RedkeyOperator
