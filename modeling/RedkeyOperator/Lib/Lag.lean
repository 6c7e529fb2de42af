import Mathlib.Data.List.Chain

/-!
# Lagging reads

`Lag β` is a value of type `β` on a server together with what a reader behind a
cache can still see of it: the earlier versions that are not older than the last one
it read, oldest first, and the live one.

A write appends a version (`commit`). A read drops some of the oldest versions and
returns the first one left (`Read`): it may be outdated, but never goes back. The version
returned last is `head`.
-/

/-- A value with the versions of it that can still be read. What is older than
the version read last is forgotten. -/
structure Lag (β : Type) where
  past : List β
  live : β

namespace Lag

variable {β : Type} {l l' : Lag β} {b v : β}

/-- The versions that can be read, oldest first. -/
def versions (l : Lag β) : List β := l.past ++ [l.live]

/-- The oldest version that can be read: the one read last. -/
def head (l : Lag β) : β := l.past.headD l.live

/-- The server has a new version; the one that was live can still be read. -/
def commit (l : Lag β) (b : β) : Lag β := ⟨l.versions, b⟩

/-- A read that returns `l'.head`. The reader may skip versions, and what it
skips it never sees. -/
def Read (l l' : Lag β) : Prop := l'.live = l.live ∧ l'.past <:+ l.past

@[simp] theorem commit_live : (l.commit b).live = b := rfl

@[simp] theorem versions_commit : (l.commit b).versions = l.versions ++ [b] := rfl

theorem mem_versions_commit : v ∈ (l.commit b).versions ↔ v ∈ l.versions ∨ v = b := by
  simp

/-- A write on the server does not move the reader. -/
@[simp] theorem head_commit : (l.commit b).head = l.head := by
  obtain ⟨past, live⟩ := l
  cases past with
  | nil => rfl
  | cons p ps => rfl

/-- A write always leaves a trace: there is one more version to be read. -/
theorem commit_ne (l : Lag β) (b : β) : l.commit b ≠ l := by
  intro h
  have hlength := congrArg (fun l => l.past.length) h
  simp [commit, versions] at hlength

/-- There is always something to read, and the first version is the one that
was read last. -/
theorem versions_eq_cons (l : Lag β) : ∃ rest, l.versions = l.head :: rest := by
  obtain ⟨past, live⟩ := l
  cases past with
  | nil => exact ⟨[], rfl⟩
  | cons p ps => exact ⟨ps ++ [live], rfl⟩

theorem head_mem : l.head ∈ l.versions := by
  obtain ⟨rest, hrest⟩ := l.versions_eq_cons
  rw [hrest]
  exact List.mem_cons_self

theorem live_mem : l.live ∈ l.versions := by
  simp [versions]

/-- A read only drops versions, so it finds nothing that was not there. -/
theorem Read.suffix (h : l.Read l') : l'.versions <:+ l.versions := by
  obtain ⟨pre, hpre⟩ := h.2
  refine ⟨pre, ?_⟩
  simp [versions, ← hpre, h.1]

theorem Read.mem (h : l.Read l') (hv : v ∈ l'.versions) : v ∈ l.versions :=
  h.suffix.subset hv

/-- A read that catches up with the server, or stays where it is. These are
the two extremes between which every read lies. -/
def pick (l : Lag β) (fresh : Bool) : Lag β := if fresh then ⟨[], l.live⟩ else l

theorem read_pick (l : Lag β) (fresh : Bool) : l.Read (l.pick fresh) := by
  cases fresh with
  | false => exact ⟨rfl, List.suffix_rfl⟩
  | true => exact ⟨rfl, List.nil_suffix⟩

/-- Every pair of readable versions, in order, is related by `r`. For a
transitive `r` this follows from the writes one by one. -/
def Ordered (l : Lag β) (r : β → β → Prop) : Prop := l.versions.Pairwise r

variable {r : β → β → Prop}

/-- A reader that moves on sees fewer versions in the same order. -/
theorem Ordered.read (h : l.Ordered r) (hr : l.Read l') : l'.Ordered r :=
  List.Pairwise.sublist hr.suffix.sublist h

/-- A new version has to be related to all the readable ones. -/
theorem ordered_commit : (l.commit b).Ordered r ↔ l.Ordered r ∧ ∀ v ∈ l.versions, r v b := by
  simp [Ordered, List.pairwise_append]

/-- What the reader has seen comes before everything it may still see. -/
theorem Ordered.head (h : l.Ordered r) (hv : v ∈ l.versions) : v = l.head ∨ r l.head v := by
  obtain ⟨rest, hrest⟩ := l.versions_eq_cons
  unfold Ordered at h
  -- the version read last is the first of them
  rw [hrest] at h hv
  rcases List.mem_cons.mp hv with heq | hmem
  · exact Or.inl heq
  · exact Or.inr ((List.pairwise_cons.mp h).1 v hmem)

/-- The live version comes after everything that can be read. -/
theorem Ordered.live (h : l.Ordered r) (hv : v ∈ l.versions) : v = l.live ∨ r v l.live := by
  unfold Ordered versions at h
  rcases List.mem_append.mp hv with hpast | hlive
  · exact Or.inr ((List.pairwise_append.mp h).2.2 v hpast l.live (by simp))
  · exact Or.inl (List.mem_singleton.mp hlive)

/-! ## A reader that is told about new versions

Instead of moving when it reads, such a reader moves to the next version when it is told of it; a
write that changes nothing makes no version to be told of. -/

/-- The server stores `b`. A write of what is stored already makes no
version. -/
inductive Put (l : Lag β) (b : β) : Lag β → Prop
  | same (heq : b = l.live) : Put l b l
  | new (hne : b ≠ l.live) : Put l b (l.commit b)

/-- The reader is told of the next version. -/
def Delivers (l l' : Lag β) : Prop := ∃ old, l = ⟨old :: l'.past, l'.live⟩

/-- If the reader has been told of everything after a write, the write was one
that changed nothing. -/
theorem Put.eq_of_caughtUp (h : l.Put b l') (hpast : l'.past = []) : l' = l := by
  cases h with
  | same => rfl
  | new _ => exact absurd hpast (by simp [commit, versions])

theorem Put.eq_self (h : l.Put b l') (hb : b = l.live) : l' = l := by
  cases h with
  | same => rfl
  | new hne => exact absurd hb hne

theorem Put.eq_commit (h : l.Put b l') (hb : b ≠ l.live) : l' = l.commit b := by
  cases h with
  | same heq => exact absurd heq hb
  | new _ => rfl

/-- Only the version that was written can be new. -/
theorem Put.mem (h : l.Put b l') (hv : v ∈ l'.versions) : v ∈ l.versions ∨ v = b := by
  cases h with
  | same heq => exact Or.inl hv
  | new _ => exact mem_versions_commit.mp hv

theorem Put.live (h : l.Put b l') : l'.live = b := by
  cases h with
  | same heq => exact heq.symm
  | new _ => rfl

/-- Only a delivery moves the reader, no write does. -/
theorem Put.head (h : l.Put b l') : l'.head = l.head := by
  cases h with
  | same => rfl
  | new _ => exact head_commit

/-- Neighbouring versions stay related when the new one is related to the live
one. -/
theorem Put.chain (h : l.Put b l') (hchain : l.versions.IsChain r) (hb : b ≠ l.live → r l.live b) :
    l'.versions.IsChain r := by
  cases h with
  | same => exact hchain
  | new hne =>
      -- the new version follows the one that was live
      have hlast : (l.past ++ l.live :: [b]).IsChain r :=
        List.isChain_split.mpr ⟨hchain, List.isChain_pair.mpr (hb hne)⟩
      rwa [versions_commit, versions, List.append_assoc]

/-- A delivery drops the oldest version. -/
theorem Delivers.suffix (h : l.Delivers l') : l'.versions <:+ l.versions := by
  obtain ⟨old, rfl⟩ := h
  exact List.suffix_cons _ _

theorem Delivers.mem (h : l.Delivers l') (hv : v ∈ l'.versions) : v ∈ l.versions :=
  h.suffix.subset hv

/-- Everything can be delivered, one version after the other. -/
theorem delivers_all (l : Lag β) : Relation.ReflTransGen Delivers l ⟨[], l.live⟩ := by
  obtain ⟨past, live⟩ := l
  induction past with
  | nil => exact .refl
  | cons old past ih => exact .head ⟨old, rfl⟩ ih

/-- The version the reader leaves and the one it gets to are neighbours. -/
theorem Delivers.rel (h : l.Delivers l') (hchain : l.versions.IsChain r) : r l.head l'.head := by
  obtain ⟨old, rfl⟩ := h
  obtain ⟨rest, hrest⟩ := l'.versions_eq_cons
  have hcons : (old :: l'.versions).IsChain r := hchain
  rw [hrest] at hcons
  exact hcons.rel

end Lag
