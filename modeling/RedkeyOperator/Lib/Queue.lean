import RedkeyOperator.Lib.Locality
import RedkeyOperator.Lib.Exec

/-!
# A worker behind a queue

A program that does not run at any time, but when it has been asked for. Requests come from steps of
the other parties that are noticed (`Policy.wakes`), from a program that ended badly
(`Policy.retry`), from a timer, and from a worker that died and was replaced. They are held in a
queue that has room for one: a request that is already there is not added again, and one that
arrives while the program runs is kept until it has ended.

* `Worker.Reachable.uses`: an invariant, from the footprint of the programs;
* `Worker.Reachable.at_rest`: nothing runs and nothing is queued, and there is nothing left to be
  noticed. Then the last program has run from its first call to its last on the state as it is now.
-/

namespace Interleaved

open Relation

variable {C : Type} {R : C → Type} {α σ : Type}

/-- The shared state, whether a run is requested, and the program that is
running, if one is. -/
structure Worker (C : Type) (R : C → Type) (α σ : Type) where
  /-- What the program and the other parties work on. -/
  shared : σ
  /-- The queue has room for one request. -/
  queued : Bool
  /-- What is left of the program. -/
  thread : Option (Prog C R α)

namespace Worker

/-- What is run, which steps of the other parties ask for a run, and which
results do. A program may be chosen by the state it starts in. -/
structure Policy (C : Type) (R : C → Type) (α σ : Type) where
  /-- The programs that can be started. -/
  entry : σ → Prog C R α → Prop
  /-- A step that is noticed. -/
  wakes : σ → σ → Prop
  /-- A result after which the program is run again. -/
  retry : α → Prop

/-- One step of a worker. A step may put a request into the queue also where
it does not have to, and only the start of a program takes one out. -/
inductive Step (M : Sem C R σ) (policy : Policy C R α σ) : Worker C R α σ → Worker C R α σ → Prop
  /-- Somebody else moves. If the step is noticed, a run is requested. -/
  | env {s s' : σ} {q q' : Bool} {t : Option (Prog C R α)} (henv : M.env s s')
      (hkeeps : q' = false → q = false) (hwakes : policy.wakes s s' → q' = true) :
      Step M policy ⟨s, q, t⟩ ⟨s', q', t⟩
  /-- A run is requested by the clock. -/
  | timer {s : σ} {q : Bool} {t : Option (Prog C R α)} : Step M policy ⟨s, q, t⟩ ⟨s, true, t⟩
  /-- A request is taken out of the queue, and the program starts. From now on
  the queue has room for another request. -/
  | start {s : σ} {p : Prog C R α} (hp : policy.entry s p) :
      Step M policy ⟨s, true, none⟩ ⟨s, false, some p⟩
  /-- The running program makes its next call and gets an answer. -/
  | call {s s' : σ} {q : Bool} {c : C} {k : R c → Prog C R α} {r : R c} (hexec : M.exec c s r s') :
      Step M policy ⟨s, q, some (.call c k)⟩ ⟨s', q, some (k r)⟩
  /-- The program has ended. A result that asks for it puts a request back. -/
  | finish {s : σ} {q q' : Bool} {a : α} (hkeeps : q' = false → q = false)
      (hretry : policy.retry a → q' = true) : Step M policy ⟨s, q, some (.ret a)⟩ ⟨s, q', none⟩
  /-- The worker dies in the middle of the program. Its successor starts with
  a request, as if everything had just been noticed. -/
  | crash {s : σ} {q : Bool} {p : Prog C R α} : Step M policy ⟨s, q, some p⟩ ⟨s, true, none⟩

/-- Every run starts with a request. -/
def Reachable (M : Sem C R σ) (policy : Policy C R α σ) (init : σ → Prop) (m : Worker C R α σ) :
    Prop :=
  ∃ s₀, init s₀ ∧ ReflTransGen (Step M policy) ⟨s₀, true, none⟩ m

variable {M : Sem C R σ} {policy : Policy C R α σ} {init : σ → Prop} {m m' : Worker C R α σ}

theorem Reachable.step (hm : Reachable M policy init m) (hstep : Step M policy m m') :
    Reachable M policy init m' := by
  obtain ⟨s₀, hs₀, hrun⟩ := hm
  exact ⟨s₀, hs₀, hrun.tail hstep⟩

/-- An invariant that the other parties and the calls of a footprint keep. -/
theorem Reachable.uses (J : σ → Prop) {ok : (c : C) → R c → Prop} {P : C → Prop}
    (hinit : ∀ s, init s → J s) (henv : ∀ s s', J s → M.env s s' → J s')
    (hentry : ∀ s p, policy.entry s p → p.Uses ok P)
    (hcall : ∀ c s r s', P c → J s → M.exec c s r s' → ok c r ∧ J s')
    (hm : Reachable M policy init m) :
    J m.shared ∧ ∀ p, m.thread = some p → p.Uses ok P := by
  obtain ⟨s₀, hs₀, hrun⟩ := hm
  -- what is left of the program keeps to the footprint, and its calls keep the invariant
  induction hrun with
  | refl => exact ⟨hinit s₀ hs₀, fun p hp => by cases hp⟩
  | tail _ hstep ih =>
      obtain ⟨hJ, huses⟩ := ih
      cases hstep with
      | env hstep _ _ => exact ⟨henv _ _ hJ hstep, huses⟩
      | timer => exact ⟨hJ, huses⟩
      | start hp =>
          refine ⟨hJ, ?_⟩
          rintro p ⟨⟩
          exact hentry _ _ hp
      | call hexec =>
          obtain ⟨hc, hk⟩ := huses _ rfl
          obtain ⟨hok, hJ'⟩ := hcall _ _ _ _ hc hJ hexec
          refine ⟨hJ', ?_⟩
          rintro p ⟨⟩
          exact hk _ hok
      | finish _ _ => exact ⟨hJ, fun p hp => by cases hp⟩
      | crash => exact ⟨hJ, fun p hp => by cases hp⟩

/-! ## At rest -/

/-- Once the requests are dealt with and nothing is left to be noticed, `Good`
holds; a program that is running establishes it on the state as it is. -/
def Settles (M : Sem C R σ) (policy : Policy C R α σ) (Calm Good : σ → Prop)
    (m : Worker C R α σ) : Prop :=
  m.queued = false → Calm m.shared →
    match m.thread with
    | none => Good m.shared
    | some p => wp (Sem.allowing fun c r => M.exec c m.shared r m.shared) (fun _ _ _ _ => True)
        (fun a _ => ¬ policy.retry a → Good m.shared) p ()

/-- Nothing but a request can spoil it. A step that changes the state is
noticed or is not calm, and a program that starts now sees the state as it
is. -/
theorem Settles.step {Calm Good J : σ → Prop} (hJ : J m.shared)
    (henv : ∀ s s', J s → M.env s s' → Calm s' → policy.wakes s s' ∨ s' = s)
    (hcall : ∀ c s r s', J s → M.exec c s r s' → Calm s' → s' = s)
    (hentry : ∀ s p, J s → Calm s → policy.entry s p →
      wp (Sem.allowing fun c r => M.exec c s r s) (fun _ _ _ _ => True)
        (fun a _ => ¬ policy.retry a → Good s) p ())
    (hstep : Step M policy m m') (h : Settles M policy Calm Good m) :
    Settles M policy Calm Good m' := by
  cases hstep with
  | @env s s' q q' t hstep hkeeps hwakes =>
      intro hq hcalm
      -- a step that is not noticed has changed nothing, or has left something to be noticed
      rcases henv s s' hJ hstep hcalm with hwake | heq
      · exact absurd (hwakes hwake) (by simp [show q' = false from hq])
      · change Calm s' at hcalm
        subst heq
        exact h (hkeeps hq) hcalm
  | timer => exact fun hq => by cases hq
  | @start s p hp => exact fun _ hcalm => hentry s p hJ hcalm hp
  | @call s s' q c k r hexec =>
      intro hq hcalm
      obtain heq : s' = s := hcall c s r s' hJ hexec hcalm
      change Calm s' at hcalm
      subst heq
      exact (h hq hcalm () .refl r () hexec).2
  | @finish s q q' a hkeeps hretry =>
      intro hq hcalm
      exact h (hkeeps hq) hcalm fun hr => absurd (hretry hr) (by simp [show q' = false from hq])
  | crash => exact fun hq => by cases hq

/-- The rule for a worker at rest. -/
theorem Reachable.at_rest (J Calm Good : σ → Prop)
    (hJ : ∀ m, Reachable M policy init m → J m.shared)
    (henv : ∀ s s', J s → M.env s s' → Calm s' → policy.wakes s s' ∨ s' = s)
    (hcall : ∀ c s r s', J s → M.exec c s r s' → Calm s' → s' = s)
    (hentry : ∀ s p, J s → Calm s → policy.entry s p →
      wp (Sem.allowing fun c r => M.exec c s r s) (fun _ _ _ _ => True)
        (fun a _ => ¬ policy.retry a → Good s) p ())
    {s : σ} (hm : Reachable M policy init ⟨s, false, none⟩) (hcalm : Calm s) : Good s := by
  have hsettles : ∀ m, Reachable M policy init m → Settles M policy Calm Good m := by
    rintro m ⟨s₀, hs₀, hrun⟩
    induction hrun with
    | refl => exact fun hq => by cases hq
    | tail hrun hstep ih => exact ih.step (hJ _ ⟨s₀, hs₀, hrun⟩) henv hcall hentry hstep
  exact hsettles _ hm rfl hcalm

/-! ## Concrete runs -/

/-- The other parties go on, with the request waiting. -/
theorem Reachable.others {s s' : σ} {t : Option (Prog C R α)}
    (hm : Reachable M policy init ⟨s, true, t⟩) (hrun : ReflTransGen M.env s s') :
    Reachable M policy init ⟨s', true, t⟩ := by
  induction hrun with
  | refl => exact hm
  | tail _ hstep ih => exact ih.step (.env hstep id fun _ => rfl)

/-- Answer the next `n` calls of the running program. -/
theorem Reachable.advance {h : (c : C) → σ → R c × σ} (ok : C → σ → Bool)
    (hok : ∀ c s, ok c s = true → M.exec c s (h c s).1 (h c s).2) {n : ℕ} {s : σ} {q : Bool}
    {p : Prog C R α} (hm : Reachable M policy init ⟨s, q, some p⟩)
    (hp : p.checks h ok n s = true) :
    Reachable M policy init ⟨(p.advance h n s).shared, q, (p.advance h n s).thread⟩ := by
  induction n generalizing p s with
  | zero => cases p <;> exact hm
  | succ n ih =>
      -- a program that has ended makes no calls
      cases p with
      | ret a => exact hm
      | call c k =>
          obtain ⟨hc, hk⟩ := Bool.and_eq_true_iff.mp hp
          exact ih (hm.step (.call (hok c s hc))) hk

end Worker

end Interleaved
