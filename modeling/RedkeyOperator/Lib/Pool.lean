import RedkeyOperator.Lib.History
import Mathlib.Data.Set.Card

/-!
# A pool of programs

Programs run at the same time on one shared state, at most one for each index, and at most so many
in all. Each index has a semantics of its own, for the calls of its program and for the other
parties that deal with it.

What one program does in the pool it does in a run of its own, with the calls of the other programs
among the steps of the other parties (`Sem.besides`, `Pool.Reachable.thread`). So what a program
knows of its calls it knows in the pool, and an invariant has to be shown of single steps only
(`Pool.Reachable.invariant`, `Pool.Reachable.steps`).

When every index has a part of the state to itself (`Separate`), the pool projects to the machine of
a single program: what the pool does to the part of an index is a run of that index alone
(`Separate.projects`). Whatever is proved about the runs of one program then holds in the pool.
-/

namespace Interleaved

open Relation

variable {ι C : Type} {R : C → Type} {α σ : Type}

/-- The shared state, and the program that is running for each index, if one
is. -/
structure Pool (ι C : Type) (R : C → Type) (α σ : Type) where
  /-- What all programs work on. -/
  shared : σ
  /-- What is left of each program. -/
  threads : ι → Option (Prog C R α)

namespace Pool

/-- The indices a program is running for. -/
def busy (m : Pool ι C R α σ) : Set ι :=
  {i | m.threads i ≠ none}

@[simp] theorem busy_idle (s : σ) : busy (⟨s, fun _ => none⟩ : Pool ι C R α σ) = ∅ := by
  simp [busy]

variable [DecidableEq ι]

/-- One step of the pool. Every step belongs to one index, and leaves the
programs of the others where they are. -/
inductive Step (M : ι → Sem C R σ) (entry : ι → Prog C R α → Prop) (workers : ℕ) :
    Pool ι C R α σ → Pool ι C R α σ → Prop
  /-- A party of some index moves. -/
  | env {s s' : σ} {ts : ι → Option (Prog C R α)} {i : ι} (henv : (M i).env s s') :
      Step M entry workers ⟨s, ts⟩ ⟨s', ts⟩
  /-- A program is started for an index that has none, by a worker that is
  free. -/
  | start {s : σ} {ts : ι → Option (Prog C R α)} {i : ι} {p : Prog C R α} (hidle : ts i = none)
      (hfree : (busy ⟨s, ts⟩).encard < workers) (hp : entry i p) :
      Step M entry workers ⟨s, ts⟩ ⟨s, Function.update ts i (some p)⟩
  /-- The program of an index makes its next call, which is answered in the
  semantics of that index. -/
  | call {s s' : σ} {ts : ι → Option (Prog C R α)} {i : ι} {c : C} {k : R c → Prog C R α} {r : R c}
      (hnext : ts i = some (.call c k)) (hexec : (M i).exec c s r s') :
      Step M entry workers ⟨s, ts⟩ ⟨s', Function.update ts i (some (k r))⟩
  /-- The program of an index has ended, and its worker is free again. -/
  | finish {s : σ} {ts : ι → Option (Prog C R α)} {i : ι} {a : α} (hdone : ts i = some (.ret a)) :
      Step M entry workers ⟨s, ts⟩ ⟨s, Function.update ts i none⟩

/-- Every run starts without programs. -/
def Reachable (M : ι → Sem C R σ) (entry : ι → Prog C R α → Prop) (workers : ℕ) (init : σ → Prop)
    (m : Pool ι C R α σ) : Prop :=
  ∃ s, init s ∧ ReflTransGen (Step M entry workers) ⟨s, fun _ => none⟩ m

variable {M : ι → Sem C R σ} {entry : ι → Prog C R α → Prop} {workers : ℕ} {init : σ → Prop}
variable {m : Pool ι C R α σ}

theorem busy_update_some {s s' : σ} {ts : ι → Option (Prog C R α)} {i : ι} {p : Prog C R α} :
    busy ⟨s', Function.update ts i (some p)⟩ = insert i (busy ⟨s, ts⟩) := by
  ext j
  by_cases hj : j = i
  · subst hj
    simp [busy]
  · simp [busy, hj]

theorem busy_update_none {s s' : σ} {ts : ι → Option (Prog C R α)} {i : ι} :
    busy ⟨s', Function.update ts i none⟩ ⊆ busy ⟨s, ts⟩ := by
  intro j hj
  by_cases hji : j = i
  · subst hji
    simp [busy] at hj
  · simpa [busy, hji] using hj

/-- There are never more programs than workers. -/
theorem Reachable.busy_le (hm : Reachable M entry workers init m) : m.busy.encard ≤ workers := by
  obtain ⟨s₀, -, hrun⟩ := hm
  induction hrun with
  | refl => simp [busy]
  | tail _ hstep ih =>
      cases hstep with
      | env _ => exact ih
      | @start s ts i p hidle hfree _ =>
          -- one more, and a worker was free for it
          rw [busy_update_some (s := s), Set.encard_insert_of_notMem (by simp [busy, hidle])]
          exact Order.add_one_le_of_lt hfree
      | @call s s' ts i c k r hnext _ =>
          rw [busy_update_some (s := s), Set.insert_eq_of_mem (by simp [busy, hnext])]
          exact ih
      | finish _ => exact (Set.encard_le_encard busy_update_none).trans ih

/-! ### Concrete runs -/

/-- The program of the index makes its next call, or is done. Calls are
answered by a handler. -/
def turn (h : ι → (c : C) → σ → R c × σ) (m : Pool ι C R α σ) (i : ι) : Pool ι C R α σ :=
  match m.threads i with
  | some (.call c k) =>
      ⟨(h i c m.shared).2, Function.update m.threads i (some (k (h i c m.shared).1))⟩
  | some (.ret _) => ⟨m.shared, Function.update m.threads i none⟩
  | none => m

theorem Reachable.start (hm : Reachable M entry workers init m) {i : ι} {p : Prog C R α}
    (hidle : m.threads i = none) (hfree : m.busy.encard < workers) (hp : entry i p) :
    Reachable M entry workers init ⟨m.shared, Function.update m.threads i (some p)⟩ := by
  obtain ⟨s₀, hs₀, hrun⟩ := hm
  exact ⟨s₀, hs₀, hrun.tail (.start hidle hfree hp)⟩

/-- A turn is a step, if the handler answers as the semantics allows. -/
theorem Reachable.turn {h : ι → (c : C) → σ → R c × σ}
    (hexec : ∀ i c s, (M i).exec c s (h i c s).1 (h i c s).2)
    (hm : Reachable M entry workers init m) (i : ι) :
    Reachable M entry workers init (m.turn h i) := by
  obtain ⟨s₀, hs₀, hrun⟩ := hm
  unfold Pool.turn
  split
  case h_1 hnext => exact ⟨s₀, hs₀, hrun.tail (.call hnext (hexec i _ _))⟩
  case h_2 hdone => exact ⟨s₀, hs₀, hrun.tail (.finish hdone)⟩
  case h_3 => exact ⟨s₀, hs₀, hrun⟩

/-- The programs take turns. -/
theorem Reachable.turns {h : ι → (c : C) → σ → R c × σ}
    (hexec : ∀ i c s, (M i).exec c s (h i c s).1 (h i c s).2)
    (hm : Reachable M entry workers init m) (schedule : List ι) :
    Reachable M entry workers init (schedule.foldl (Pool.turn h) m) := by
  induction schedule generalizing m with
  | nil => exact hm
  | cons i schedule ih => exact ih (hm.turn hexec i)

end Pool

/-! ### The run of one program -/

/-- The semantics of the program of `i`, to which the other programs are
parties like any other. -/
def Sem.besides (M : ι → Sem C R σ) (i : ι) : Sem C R σ where
  env s s' := (∃ j, (M j).env s s') ∨ ∃ j c r, j ≠ i ∧ (M j).exec c s r s'
  exec := (M i).exec

namespace Pool

variable [DecidableEq ι] {M : ι → Sem C R σ} {entry : ι → Prog C R α → Prop} {workers : ℕ}
variable {init : σ → Prop} {m m' : Pool ι C R α σ}

/-- A step of the pool is a step of `i`, or of a party to it, or none. -/
theorem thread_step (hstep : Step M entry workers m m') (i : ι) :
    ReflTransGen (Interleaved.Step (Sem.besides M i) (entry i)) ⟨m.shared, m.threads i⟩
      ⟨m'.shared, m'.threads i⟩ := by
  cases hstep with
  | @env s s' ts j henv => exact .single (.env (Or.inl ⟨j, henv⟩))
  | @start s ts j p hidle _ hp =>
      by_cases hij : i = j
      · subst hij
        simpa [hidle] using .single (.start hp)
      · simpa [hij] using .refl
  | @call s s' ts j c k r hnext hexec =>
      by_cases hij : i = j
      · subst hij
        simpa [hnext] using .single (.call hexec)
      · -- a call of another program
        simpa [hij] using .single (.env (Or.inr ⟨j, c, r, Ne.symm hij, hexec⟩))
  | @finish s ts j a hdone =>
      by_cases hij : i = j
      · subst hij
        simpa [hdone] using .single .finish
      · simpa [hij] using .refl

/-- Every program runs on its own. -/
theorem Reachable.thread (hm : Reachable M entry workers init m) (i : ι) :
    Interleaved.Reachable (Sem.besides M i) (entry i) init ⟨m.shared, m.threads i⟩ := by
  obtain ⟨s₀, hs₀, hrun⟩ := hm
  refine ⟨s₀, hs₀, ?_⟩
  induction hrun with
  | refl => exact .refl
  | tail _ hstep ih => exact ih.trans (thread_step hstep i)

/-- What every step of a run relates, with `P` known of each call that is
made. -/
theorem Reachable.steps {D : σ → σ → Prop} {P : ι → C → σ → Prop} (hrefl : ∀ s, D s s)
    (htrans : ∀ s₁ s₂ s₃, D s₁ s₂ → D s₂ s₃ → D s₁ s₃)
    (henv : ∀ i s s', (M i).env s s' → D s s')
    (hP : ∀ i s c k, Interleaved.Reachable (Sem.besides M i) (entry i) init ⟨s, some (.call c k)⟩ →
      R c → P i c s)
    (hcall : ∀ i c s r s', P i c s → (M i).exec c s r s' → D s s')
    (hm : Reachable M entry workers init m) (hrun : ReflTransGen (Step M entry workers) m m') :
    D m.shared m'.shared := by
  induction hrun with
  | refl => exact hrefl _
  | @tail m₁ m₂ hrun hstep ih =>
      -- the call is made in a reachable state, so `P` is known of it
      have hm₁ : Reachable M entry workers init m₁ := by
        obtain ⟨s₀, hs₀, hrun₀⟩ := hm
        exact ⟨s₀, hs₀, hrun₀.trans hrun⟩
      refine htrans _ _ _ ih ?_
      cases hstep with
      | @env s s' ts j hstep => exact henv j _ _ hstep
      | start => exact hrefl _
      | @call s s' ts j c k r hnext hexec =>
          exact hcall j c s r s' (hP j s c k (hnext ▸ hm₁.thread j) r) hexec
      | finish => exact hrefl _

/-- An invariant of the steps. -/
theorem Reachable.invariant {J : σ → Prop} {P : ι → C → σ → Prop} (hinit : ∀ s, init s → J s)
    (henv : ∀ i s s', (M i).env s s' → J s → J s')
    (hP : ∀ i s c k, Interleaved.Reachable (Sem.besides M i) (entry i) init ⟨s, some (.call c k)⟩ →
      R c → P i c s)
    (hcall : ∀ i c s r s', P i c s → J s → (M i).exec c s r s' → J s')
    (hm : Reachable M entry workers init m) : J m.shared := by
  obtain ⟨s₀, hs₀, hrun⟩ := hm
  exact Reachable.steps (D := fun s s' => J s → J s') (fun _ h => h)
    (fun _ _ _ h h' hs => h' (h hs)) henv hP
    (fun i c s r s' hc hexec hs => hcall i c s r s' hc hs hexec) ⟨s₀, hs₀, .refl⟩ hrun
    (hinit s₀ hs₀)

variable {τ : Type} {moved : σ → τ → τ} {called : ι → (c : C) → R c → σ → τ → τ}

/-- A history goes along with the steps. -/
theorem steps_withHistory (h : ReflTransGen (Step M entry workers) m m') (t : τ) :
    ∃ t', ReflTransGen (Step (fun i => (M i).withHistory moved (called i)) entry workers)
      ⟨(m.shared, t), m.threads⟩ ⟨(m'.shared, t'), m'.threads⟩ := by
  induction h with
  | refl => exact ⟨t, .refl⟩
  | tail _ hstep ih =>
      obtain ⟨t', hrun⟩ := ih
      cases hstep with
      | @env s s' ts j henv => exact ⟨moved s' t', hrun.tail (.env (i := j) ⟨henv, rfl⟩)⟩
      | @start s ts j p hidle hfree hp => exact ⟨t', hrun.tail (.start hidle hfree hp)⟩
      | @call s s' ts j c k r hnext hexec =>
          exact ⟨called j c r s' t', hrun.tail (.call hnext ⟨hexec, rfl⟩)⟩
      | finish hdone => exact ⟨t', hrun.tail (.finish hdone)⟩

theorem Reachable.withHistory (hm : Reachable M entry workers init m) (t₀ : τ) :
    ∃ t, Reachable (fun i => (M i).withHistory moved (called i)) entry workers
      (fun x => init x.1 ∧ x.2 = t₀) ⟨(m.shared, t), m.threads⟩ := by
  obtain ⟨s₀, hs₀, hrun⟩ := hm
  obtain ⟨t, hrun'⟩ := steps_withHistory hrun t₀
  exact ⟨t, (s₀, t₀), ⟨hs₀, rfl⟩, hrun'⟩

end Pool

/-- On states of `I`, each index has a part of the state, given by what it
means to agree on it. The calls of `P i` get responses of `ok i`; these calls
and the other parties of `i` see and change the part of `i` only. -/
structure Separate (M : ι → Sem C R σ) (I : σ → Prop) (agree : ι → σ → σ → Prop)
    (ok : ι → (c : C) → R c → Prop) (P : ι → C → Prop) : Prop where
  /-- Agreement can be chained. -/
  refl : ∀ i s, agree i s s
  trans : ∀ i s t u, agree i s t → agree i t u → agree i s u
  /-- The calls of an index stay in `I`. -/
  answers : ∀ i c s r s', P i c → I s → (M i).exec c s r s' → ok i c r ∧ I s'
  /-- The call has the same answer and effect in every state that agrees on
  the part. -/
  exec_local : ∀ i c s r s' t, P i c → I s → I t → agree i t s → (M i).exec c s r s' →
    ∃ t', (M i).exec c t r t' ∧ agree i t' s'
  /-- It has no effect on the parts of the others. -/
  exec_frames : ∀ i j c s r s', i ≠ j → P j c → I s → (M j).exec c s r s' → agree i s s'
  /-- The same goes for the other parties. -/
  env_inv : ∀ i s s', I s → (M i).env s s' → I s'
  env_local : ∀ i s s' t, I s → I t → agree i t s → (M i).env s s' →
    ∃ t', (M i).env t t' ∧ agree i t' s'
  env_frames : ∀ i j s s', i ≠ j → I s → (M j).env s s' → agree i s s'

/-- What holds of an index in the pool: its program keeps to its calls, and it
could be running alone. -/
structure Alone (M : Sem C R σ) (entry : Prog C R α → Prop) (init I : σ → Prop)
    (agree : σ → σ → Prop) (ok : (c : C) → R c → Prop) (P : C → Prop) (s : σ)
    (t : Option (Prog C R α)) : Prop where
  /-- The program makes calls of the index only. -/
  uses : ∀ p, t = some p → p.Uses ok P
  /-- There is a run of the index alone, to a state with the same part. -/
  run : ∃ u, I u ∧ agree u s ∧ Interleaved.Reachable M entry init ⟨u, t⟩

section Projection

variable {M : ι → Sem C R σ} {entry : ι → Prog C R α → Prop} {workers : ℕ}
variable {init I : σ → Prop} {agree : ι → σ → σ → Prop} {ok : ι → (c : C) → R c → Prop}
variable {P : ι → C → Prop} {m m' : Pool ι C R α σ}

/-- The state of one index after a step that is not its own. -/
theorem Separate.alone_frame (h : Separate M I agree ok P) {i : ι} {s s' : σ}
    {t : Option (Prog C R α)} (hframe : agree i s s')
    (hi : Alone (M i) (entry i) init I (agree i) (ok i) (P i) s t) :
    Alone (M i) (entry i) init I (agree i) (ok i) (P i) s' t := by
  obtain ⟨u, hu, hagree, hrun⟩ := hi.run
  exact ⟨hi.uses, u, hu, h.trans i u s s' hagree hframe, hrun⟩

variable [DecidableEq ι]

/-- One step: the index it belongs to makes it too, the others stay where they
are. -/
theorem Separate.step (h : Separate M I agree ok P)
    (hentry : ∀ i p, entry i p → p.Uses (ok i) (P i)) (hstep : Pool.Step M entry workers m m')
    (hI : I m.shared)
    (hm : ∀ i, Alone (M i) (entry i) init I (agree i) (ok i) (P i) m.shared (m.threads i)) :
    I m'.shared ∧
      ∀ i, Alone (M i) (entry i) init I (agree i) (ok i) (P i) m'.shared (m'.threads i) := by
  cases hstep with
  | @env s s' ts j henv =>
      refine ⟨h.env_inv j s s' hI henv, fun i => ?_⟩
      by_cases hij : i = j
      · subst hij
        obtain ⟨u, hu, hagree, s₀, hs₀, hrun⟩ := (hm i).run
        -- the same step in the run of the index alone
        obtain ⟨u', henv', hagree'⟩ := h.env_local i s s' u hI hu hagree henv
        have hu' : I u' := h.env_inv i u u' hu henv'
        exact ⟨(hm i).uses, u', hu', hagree', s₀, hs₀, hrun.tail (.env henv')⟩
      · exact h.alone_frame (h.env_frames i j s s' hij hI henv) (hm i)
  | @start s ts j p hidle _ hp =>
      refine ⟨hI, (Function.forall_update_iff ts (fun i => Alone (M i) (entry i) init I (agree i)
        (ok i) (P i) s)).mpr ⟨?_, fun i _ => hm i⟩⟩
      have hj : Alone (M j) (entry j) init I (agree j) (ok j) (P j) s none := hidle ▸ hm j
      obtain ⟨u, hu, hagree, s₀, hs₀, hrun⟩ := hj.run
      have huses : ∀ q, some p = some q → q.Uses (ok j) (P j) :=
        fun q hq => Option.some.inj hq ▸ hentry j p hp
      exact ⟨huses, u, hu, hagree, s₀, hs₀, hrun.tail (.start hp)⟩
  | @call s s' ts j c k r hnext hexec =>
      have hj : Alone (M j) (entry j) init I (agree j) (ok j) (P j) s (some (.call c k)) :=
        hnext ▸ hm j
      have huses := hj.uses (.call c k) rfl
      obtain ⟨hr, hI'⟩ := h.answers j c s r s' huses.1 hI hexec
      refine ⟨hI', (Function.forall_update_iff ts (fun i => Alone (M i) (entry i) init I (agree i)
        (ok i) (P i) s')).mpr ⟨?_, fun i hij => ?_⟩⟩
      · obtain ⟨u, hu, hagree, s₀, hs₀, hrun⟩ := hj.run
        obtain ⟨u', hexec', hagree'⟩ := h.exec_local j c s r s' u huses.1 hI hu hagree hexec
        have hu' : I u' := (h.answers j c u r u' huses.1 hu hexec').2
        have hrest : ∀ q, some (k r) = some q → q.Uses (ok j) (P j) :=
          fun q hq => Option.some.inj hq ▸ huses.2 r hr
        exact ⟨hrest, u', hu', hagree', s₀, hs₀, hrun.tail (.call hexec')⟩
      · exact h.alone_frame (h.exec_frames i j c s r s' hij huses.1 hI hexec) (hm i)
  | @finish s ts j a hdone =>
      refine ⟨hI, (Function.forall_update_iff ts (fun i => Alone (M i) (entry i) init I (agree i)
        (ok i) (P i) s)).mpr ⟨?_, fun i _ => hm i⟩⟩
      have hj : Alone (M j) (entry j) init I (agree j) (ok j) (P j) s (some (.ret a)) :=
        hdone ▸ hm j
      obtain ⟨u, hu, hagree, s₀, hs₀, hrun⟩ := hj.run
      exact ⟨fun q hq => (by cases hq), u, hu, hagree, s₀, hs₀, hrun.tail .finish⟩

/-- Every index of the pool could be running alone. -/
theorem Separate.projects (h : Separate M I agree ok P)
    (hentry : ∀ i p, entry i p → p.Uses (ok i) (P i)) (hinit : ∀ s, init s → I s)
    (hm : Pool.Reachable M entry workers init m) :
    I m.shared ∧
      ∀ i, Alone (M i) (entry i) init I (agree i) (ok i) (P i) m.shared (m.threads i) := by
  obtain ⟨s₀, hs₀, hrun⟩ := hm
  induction hrun with
  | refl =>
      have hidle : ∀ i, Interleaved.Reachable (M i) (entry i) init ⟨s₀, none⟩ :=
        fun _ => ⟨s₀, hs₀, ReflTransGen.refl⟩
      have hI := hinit s₀ hs₀
      exact ⟨hI, fun i => ⟨fun p hp => (by cases hp), s₀, hI, h.refl i s₀, hidle i⟩⟩
  | tail _ hstep ih => exact h.step hentry hstep ih.1 ih.2

end Projection

end Interleaved
