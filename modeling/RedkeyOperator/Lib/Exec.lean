import RedkeyOperator.Lib.Prog
import Mathlib.Data.Nat.Notation

/-!
# Running a program for a while

Concrete runs of the interleaved machine. A handler answers the calls of a program one
after another (`Prog.advance`); as long as every answer it gives is one the semantics
allows (`Prog.checks`), the machine it ends in is reachable.
-/

namespace Interleaved

variable {C : Type} {R : C → Type} {α σ : Type}

namespace Prog

/-- Answer the next `n` calls. -/
def advance (h : (c : C) → σ → R c × σ) : ℕ → Prog C R α → σ → Machine C R α σ
  | 0, p, s => ⟨s, some p⟩
  | _, ret a, s => ⟨s, some (ret a)⟩
  | n + 1, call c k, s => (k (h c s).1).advance h n (h c s).2

/-- Each of the next `n` calls meets `ok` when it is made. Together with a
handler that is right wherever `ok` holds, this makes the run one of the
semantics. -/
def checks (h : (c : C) → σ → R c × σ) (ok : C → σ → Bool) : ℕ → Prog C R α → σ → Bool
  | 0, _, _ => true
  | _, ret _, _ => true
  | n + 1, call c k, s => ok c s && (k (h c s).1).checks h ok n (h c s).2

/-- Nothing has to be checked of a handler that is always right. -/
theorem checks_true (h : (c : C) → σ → R c × σ) (n : ℕ) (p : Prog C R α) (s : σ) :
    p.checks h (fun _ _ => true) n s = true := by
  induction n generalizing p s with
  | zero => cases p <;> rfl
  | succ n ih =>
      cases p with
      | ret a => rfl
      | call c k => exact ih _ _

variable {M : Sem C R σ} {entry : Prog C R α → Prop} {init : σ → Prop}
variable {h : (c : C) → σ → R c × σ} {ok : C → σ → Bool}

theorem advance_steps (hok : ∀ c s, ok c s = true → M.exec c s (h c s).1 (h c s).2) (n : ℕ)
    (p : Prog C R α) (s : σ) (hp : p.checks h ok n s = true) :
    Relation.ReflTransGen (Step M entry) ⟨s, some p⟩ (p.advance h n s) := by
  induction n generalizing p s with
  | zero => cases p <;> exact Relation.ReflTransGen.refl
  | succ n ih =>
      cases p with
      | ret a => exact Relation.ReflTransGen.refl
      | call c k =>
          -- the first call is checked in this state, the others in the one it leads to
          obtain ⟨hc, hk⟩ := Bool.and_eq_true_iff.mp hp
          exact Relation.ReflTransGen.head (Step.call (hok c s hc)) (ih _ _ hk)

end Prog

/-- The program has ended, and `finish` may follow. -/
def Machine.done (m : Machine C R α σ) : Bool :=
  match m.thread with
  | some (.ret _) => true
  | _ => false

/-- Answer the next `n` calls of the running program, if there is one. -/
def Machine.advance (h : (c : C) → σ → R c × σ) (n : ℕ) (m : Machine C R α σ) : Machine C R α σ :=
  match m.thread with
  | some p => p.advance h n m.shared
  | none => m

/-- Each of the next `n` calls of the running program meets `ok`, see
`Prog.checks`. -/
def Machine.checks (h : (c : C) → σ → R c × σ) (ok : C → σ → Bool) (n : ℕ)
    (m : Machine C R α σ) : Bool :=
  match m.thread with
  | some p => p.checks h ok n m.shared
  | none => true

/-- What was checked of the machine was checked of its program. -/
theorem Machine.checks_thread {h : (c : C) → σ → R c × σ} {ok : C → σ → Bool} {n : ℕ}
    {m : Machine C R α σ} (hm : m.checks h ok n = true) (p : Prog C R α)
    (hp : m.thread = some p) : p.checks h ok n m.shared = true := by
  unfold Machine.checks at hm
  rwa [hp] at hm

namespace Reachable

variable {M : Sem C R σ} {entry : Prog C R α → Prop} {init : σ → Prop}
variable {h : (c : C) → σ → R c × σ}

theorem idle {s : σ} (hs : init s) : Reachable M entry init ⟨s, none⟩ :=
  ⟨s, hs, Relation.ReflTransGen.refl⟩

/-- Another party makes a step; the program, if there is one, waits. -/
theorem env {s s' : σ} {t : Option (Prog C R α)} (hm : Reachable M entry init ⟨s, t⟩)
    (hstep : M.env s s') : Reachable M entry init ⟨s', t⟩ := by
  obtain ⟨s₀, hs₀, hrun⟩ := hm
  exact ⟨s₀, hs₀, hrun.tail (Step.env hstep)⟩

theorem start {s : σ} {p : Prog C R α} (hm : Reachable M entry init ⟨s, none⟩) (hp : entry p) :
    Reachable M entry init ⟨s, some p⟩ := by
  obtain ⟨s₀, hs₀, hrun⟩ := hm
  exact ⟨s₀, hs₀, hrun.tail (Step.start hp)⟩

/-- The running program makes its next `n` calls, without steps of others in
between. -/
theorem advance (ok : C → σ → Bool) {m : Machine C R α σ} (hm : Reachable M entry init m)
    (hok : ∀ c s, ok c s = true → M.exec c s (h c s).1 (h c s).2) (n : ℕ)
    (hp : ∀ p, m.thread = some p → p.checks h ok n m.shared = true) :
    Reachable M entry init (m.advance h n) := by
  obtain ⟨s, t⟩ := m
  cases t with
  | none => exact hm
  | some p =>
      obtain ⟨s₀, hs₀, hrun⟩ := hm
      exact ⟨s₀, hs₀, hrun.trans (Prog.advance_steps hok n p s (hp p rfl))⟩

/-- A program that has ended leaves the machine idle. -/
theorem finish {m : Machine C R α σ} (hm : Reachable M entry init m) (hdone : m.done = true) :
    Reachable M entry init ⟨m.shared, none⟩ := by
  obtain ⟨s, t⟩ := m
  obtain ⟨s₀, hs₀, hrun⟩ := hm
  unfold Machine.done at hdone
  split at hdone
  case h_1 heq =>
    cases heq
    exact ⟨s₀, hs₀, hrun.tail Step.finish⟩
  case h_2 => cases hdone

end Reachable

end Interleaved
