import RedkeyOperator.Lib.Rules

/-!
# History variables

Some properties of a run are about what happened earlier in it. `Sem.withHistory` keeps such a
history beside the state; nothing looks at it, so every run has one (`Reachable.withHistory`).

A history that notes the calls of a program and their responses says what the program knows. Which
call it makes next can then be derived from the program alone: in the semantics `Sem.remembering`
the history is all there is, and any response may come (`Reachable.remembers`).
-/

namespace Interleaved

open Relation

variable {C : Type} {R : C → Type} {α σ τ : Type}

/-- `M` with a history; `moved` and `called` see the state after the step. -/
def Sem.withHistory (M : Sem C R σ) (moved : σ → τ → τ) (called : (c : C) → R c → σ → τ → τ) :
    Sem C R (σ × τ) where
  env x y := M.env x.1 y.1 ∧ y.2 = moved y.1 x.2
  exec c x r y := M.exec c x.1 r y.1 ∧ y.2 = called c r y.1 x.2

/-- Only the history: any response may come. -/
def Sem.remembering (note : (c : C) → R c → τ → τ) : Sem C R τ where
  env t t' := t' = t
  exec c t r t' := t' = note c r t

section History

variable {M : Sem C R σ} {entry : Prog C R α → Prop} {init : σ → Prop}
variable {moved : σ → τ → τ} {called : (c : C) → R c → σ → τ → τ}

/-- The history goes along with the steps. -/
theorem steps_withHistory {m m' : Machine C R α σ} (h : ReflTransGen (Step M entry) m m') (t : τ) :
    ∃ t', ReflTransGen (Step (M.withHistory moved called) entry) ⟨(m.shared, t), m.thread⟩
      ⟨(m'.shared, t'), m'.thread⟩ := by
  induction h with
  | refl => exact ⟨t, .refl⟩
  | tail _ hstep ih =>
      rcases ih with ⟨t', hrun⟩
      cases hstep with
      | @env s s' thread henv => exact ⟨moved s' t', hrun.tail (.env ⟨henv, rfl⟩)⟩
      | start hp => exact ⟨t', hrun.tail (.start hp)⟩
      | @call s c k r s' hexec => exact ⟨called c r s' t', hrun.tail (.call ⟨hexec, rfl⟩)⟩
      | finish => exact ⟨t', hrun.tail .finish⟩

theorem Reachable.withHistory {m : Machine C R α σ} (hm : Reachable M entry init m) (t₀ : τ) :
    ∃ t, Reachable (M.withHistory moved called) entry (fun x => init x.1 ∧ x.2 = t₀)
      ⟨(m.shared, t), m.thread⟩ := by
  rcases hm with ⟨s₀, hs₀, hrun⟩
  rcases steps_withHistory hrun t₀ with ⟨t, hrun'⟩
  exact ⟨t, (s₀, t₀), ⟨hs₀, rfl⟩, hrun'⟩

/-! ## What a program remembers -/

variable {note : (c : C) → R c → τ → τ} {init : σ × τ → Prop}

/-- A history of the calls is a memory of its own. -/
theorem remembering_projects :
    Sem.Projects Prod.snd (M.withHistory (fun _ t => t) fun c r _ => note c r)
      (Sem.remembering note) where
  env _ _ h := h.2
  exec _ _ _ _ h := h.2

theorem stable_remembering (A : τ → Prop) : Stable (Sem.remembering (R := R) note) A := by
  rintro t _ rfl h
  exact h

/-- A call of the running program is one that its memory allows, wherever the
memory is kept. -/
theorem Reachable.recalls {f : σ → τ} (hproj : Sem.Projects f M (Sem.remembering note))
    {P : C → τ → Prop}
    (hentry : ∀ p, entry p → ∀ t, wp (Sem.remembering note) (fun c t _ _ => P c t)
      (fun _ _ => True) p t)
    {init : σ → Prop} {s : σ} {c : C} {k : R c → Prog C R α}
    (hm : Reachable M entry init ⟨s, some (.call c k)⟩) (r : R c) : P c (f s) := by
  have hmem : Reachable (Sem.remembering note) entry (fun _ => True) ⟨f s, some (.call c k)⟩ :=
    hproj.reachable (fun _ _ => trivial) hm
  -- in the memory alone, every state is as good as any other
  exact reachable_call (M := Sem.remembering note) (G := fun c t _ _ => P c t)
    (I := fun _ => True) (Q := fun _ _ => True) (r := r) (fun _ _ => trivial)
    (stable_remembering _) (fun _ => stable_remembering _) (fun _ _ _ => trivial)
    (fun p hp t _ => hentry p hp t) hmem rfl

/-- The same, for a memory that is the history. -/
theorem Reachable.remembers {P : C → τ → Prop}
    (hentry : ∀ p, entry p → ∀ t, wp (Sem.remembering note) (fun c t _ _ => P c t)
      (fun _ _ => True) p t)
    {x : σ × τ} {c : C} {k : R c → Prog C R α}
    (hm : Reachable (M.withHistory (fun _ t => t) fun c r _ => note c r) entry init
      ⟨x, some (.call c k)⟩) (r : R c) : P c x.2 :=
  Reachable.recalls remembering_projects hentry hm r

/-! ## Invariants of the steps -/

variable {init : σ → Prop}

/-- An invariant of the steps, with `P` known of each call that is made. -/
theorem Reachable.invariant {J : σ → Prop} {P : C → σ → Prop} (hinit : ∀ s, init s → J s)
    (henv : ∀ s s', M.env s s' → J s → J s')
    (hP : ∀ s c k, Reachable M entry init ⟨s, some (.call c k)⟩ → R c → P c s)
    (hcall : ∀ c s r s', P c s → J s → M.exec c s r s' → J s') {m : Machine C R α σ}
    (hm : Reachable M entry init m) : J m.shared := by
  rcases hm with ⟨s₀, hs₀, hrun⟩
  induction hrun with
  | refl => exact hinit s₀ hs₀
  | tail hrun hstep ih =>
      cases hstep with
      | env hstep => exact henv _ _ hstep ih
      | start _ => exact ih
      -- => the call is made in a reachable state, so `P` is known of it
      | @call s c k r s' hexec => exact hcall c s r s' (hP s c k ⟨s₀, hs₀, hrun⟩ r) ih hexec
      | finish => exact ih

/-- What every step of a run relates, from any point of it on. -/
theorem Reachable.steps {D : σ → σ → Prop} (hrefl : ∀ s, D s s)
    (htrans : ∀ s₁ s₂ s₃, D s₁ s₂ → D s₂ s₃ → D s₁ s₃)
    (henv : ∀ s s', M.env s s' → D s s')
    (hcall : ∀ s c k r s', Reachable M entry init ⟨s, some (.call c k)⟩ → M.exec c s r s' → D s s')
    {m m' : Machine C R α σ} (hm : Reachable M entry init m)
    (hrun : ReflTransGen (Step M entry) m m') : D m.shared m'.shared := by
  induction hrun with
  | refl => exact hrefl _
  | @tail m₁ m₂ hrun hstep ih =>
      have hm₁ : Reachable M entry init m₁ := by
        rcases hm with ⟨s₀, hs₀, hrun₀⟩
        exact ⟨s₀, hs₀, hrun₀.trans hrun⟩
      refine htrans _ _ _ ih ?_
      cases hstep with
      | env hstep => exact henv _ _ hstep
      | start _ => exact hrefl _
      | call hexec => exact hcall _ _ _ _ _ hm₁ hexec
      | finish => exact hrefl _

end History

end Interleaved
