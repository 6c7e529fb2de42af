import Mathlib.Logic.Relation

/-!
# Client programs over a call interface

A controller is a program that talks to a server: it issues a call, looks at the
response, and goes on. `Prog C R α` is that shape and nothing else: calls `c : C`,
responses `r : R c`, and a continuation for every response. What a call *does* is
not part of the program; a semantics is supplied afterwards, so that one program
can be run against an up-to-date server, against lagging caches, or against a
server that loses requests.

* `Prog.run`: the deterministic reading, one handler call after another;
* `Sem`: the relational reading, with the steps of the other parties in between;
* `Machine` and `Step`: the interleaved system, one program at a time.

`Op` is the error-returning variant, `Prog` over `Except`, with the usual
sequencing: the first error ends the program.
-/

namespace Interleaved

/-- A program that issues calls from `C`, gets a response of type `R c` to the
call `c`, and ends with a value of type `α`. -/
inductive Prog (C : Type) (R : C → Type) (α : Type) where
  | ret (a : α) : Prog C R α
  /-- One more call, and what to do with the response. -/
  | call (c : C) (k : R c → Prog C R α) : Prog C R α

variable {C : Type} {R : C → Type} {α β ε σ : Type}

namespace Prog

/-- Sequencing: run `p`, then the program its result selects. -/
def bind : Prog C R α → (α → Prog C R β) → Prog C R β
  | ret a, f => f a
  | call c k, f => call c fun r => (k r).bind f

@[simp] theorem bind_ret (a : α) (f : α → Prog C R β) : (ret a).bind f = f a := rfl

/-- The call comes first, the rest follows it. -/
@[simp] theorem bind_call (c : C) (k : R c → Prog C R α) (f : α → Prog C R β) :
    (call c k).bind f = call c fun r => (k r).bind f := rfl

/-- The deterministic reading: every call is answered by the handler `h`. -/
def run (h : (c : C) → σ → R c × σ) : Prog C R α → σ → α × σ
  | ret a, s => (a, s)
  | call c k, s => (k (h c s).1).run h (h c s).2

/-- The handler answers the call and the program goes on from there. -/
@[simp] theorem run_call (h : (c : C) → σ → R c × σ) (c : C) (k : R c → Prog C R α) (s : σ) :
    (call c k).run h s = (k (h c s).1).run h (h c s).2 := rfl

/-- Every call the program can make satisfies `P`, as long as the responses it
gets satisfy `ok`. A footprint: it says what the program touches, not what
happens. -/
def Uses (ok : (c : C) → R c → Prop) (P : C → Prop) : Prog C R α → Prop
  | ret _ => True
  | call c k => P c ∧ ∀ r, ok c r → (k r).Uses ok P

/-- A sequence uses what its parts use. -/
theorem uses_bind {ok : (c : C) → R c → Prop} {P : C → Prop} {p : Prog C R α}
    {f : α → Prog C R β} (hp : p.Uses ok P) (hf : ∀ a, (f a).Uses ok P) :
    (p.bind f).Uses ok P := by
  -- on the first program; the second one starts where it returns
  induction p with
  | ret a => exact hf a
  | call c k ih => exact ⟨hp.1, fun r hr => ih r (hp.2 r hr)⟩

theorem Uses.mono {ok : (c : C) → R c → Prop} {P P' : C → Prop} {p : Prog C R α}
    (h : p.Uses ok P) (hP : ∀ c, P c → P' c) : p.Uses ok P' := by
  induction p with
  | ret a => trivial
  | call c k ih => exact ⟨hP c h.1, fun r hr => ih r (h.2 r hr)⟩

/-- Two footprints hold at the same time. -/
theorem Uses.and {ok ok' : (c : C) → R c → Prop} {P P' : C → Prop} {p : Prog C R α}
    (h : p.Uses ok P) (h' : p.Uses ok' P') :
    p.Uses (fun c r => ok c r ∧ ok' c r) fun c => P c ∧ P' c := by
  induction p with
  | ret a => trivial
  | call c k ih => exact ⟨⟨h.1, h'.1⟩, fun r hr => ih r (h.2 r hr.1) (h'.2 r hr.2)⟩

theorem uses_true (p : Prog C R α) : p.Uses (fun _ _ => True) fun _ => True := by
  induction p with
  | ret a => trivial
  | call c k ih => exact ⟨trivial, fun r _ => ih r⟩

end Prog

/-! ## Error-returning programs -/

/-- A program that ends with a value or with an error. Errors are results like
any other, so the rules for `Prog` apply. -/
def Op (C : Type) (R : C → Type) (ε α : Type) := Prog C R (Except ε α)

namespace Op

instance : Monad (Op C R ε) where
  pure a := Prog.ret (.ok a)
  bind p f := Prog.bind p fun
    | .ok a => f a
    | .error e => Prog.ret (.error e)

/-- End the program with an error. -/
def throw (e : ε) : Op C R ε α := Prog.ret (.error e)

/-- Issue a call and hand its response over, whatever it is. -/
def request (c : C) : Op C R ε (R c) := Prog.call c fun r => Prog.ret (.ok r)

/-- Run `p`; when it ends with an error, go on with `h`. -/
def catchError (p : Op C R ε α) (h : ε → Op C R ε α) : Op C R ε α :=
  Prog.bind p fun
    | .ok a => Prog.ret (.ok a)
    | .error e => h e

/-- The footprint of an error-returning program, see `Prog.Uses`. -/
def Uses (ok : (c : C) → R c → Prop) (P : C → Prop) (p : Op C R ε α) : Prop := Prog.Uses ok P p

section Uses

variable {ok : (c : C) → R c → Prop} {P : C → Prop}

theorem uses_true (p : Op C R ε α) : p.Uses (fun _ _ => True) fun _ => True :=
  Prog.uses_true p

theorem uses_pure (a : α) : Uses ok P (pure a : Op C R ε α) := trivial

/-- The response is known to be a possible one in what follows the call. -/
theorem uses_request_bind {c : C} {f : R c → Op C R ε β} (hc : P c)
    (hf : ∀ r, ok c r → (f r).Uses ok P) : Uses ok P (request c >>= f) :=
  ⟨hc, hf⟩

/-- An error ends the sequence, and nothing is called after it. -/
theorem uses_bind {p : Op C R ε α} {f : α → Op C R ε β} (hp : p.Uses ok P)
    (hf : ∀ a, (f a).Uses ok P) : (p >>= f).Uses ok P := by
  refine Prog.uses_bind hp ?_
  intro x
  cases x with
  | ok a => exact hf a
  | error e => trivial

theorem uses_throw (e : ε) : Uses ok P (throw e : Op C R ε α) := trivial

/-- The handler may make calls as well. -/
theorem uses_catchError {p : Op C R ε α} {h : ε → Op C R ε α} (hp : p.Uses ok P)
    (hh : ∀ e, (h e).Uses ok P) : (p.catchError h).Uses ok P := by
  refine Prog.uses_bind hp ?_
  intro x
  cases x with
  | ok a => trivial
  | error e => exact hh e

end Uses

end Op

/-! ## Relational semantics and the interleaved machine -/

/-- A semantics: `env` is one step of the other parties, `exec c s r s'` says
that the call `c` in state `s` may be answered by `r` and leave the state
`s'`. -/
structure Sem (C : Type) (R : C → Type) (σ : Type) where
  env : σ → σ → Prop
  /-- One call; there may be several answers, or none. -/
  exec : (c : C) → σ → R c → σ → Prop

namespace Sem

variable {C : Type} {R : C → Type} {σ : Type}

/-- Any call may fail: it is answered by `fail`, and either had no effect or
had its effect and lost the reply. -/
def lossy (M : Sem C R σ) (fail : (c : C) → R c) : Sem C R σ where
  env := M.env
  exec c s r s' := M.exec c s r s' ∨ r = fail c ∧ (s' = s ∨ ∃ r₀, M.exec c s r₀ s')

/-- The runs of `M` in which every call meets a condition on the state before
it and on the response, and every step of the other parties a condition on the
states around it. -/
def guarded (M : Sem C R σ) (call : (c : C) → σ → R c → Prop) (other : σ → σ → Prop) :
    Sem C R σ where
  env s s' := other s s' ∧ M.env s s'
  exec c s r s' := call c s r ∧ M.exec c s r s'

/-- A call did nothing and failed, or had its effect; then the reply may still
be lost. -/
theorem exec_of_lossy_guarded {M : Sem C R σ} {call : (c : C) → σ → R c → Prop}
    {other : σ → σ → Prop} {fail : (c : C) → R c} {c : C} {s s' : σ} {r : R c}
    (h : ((M.guarded call other).lossy fail).exec c s r s') :
    r = fail c ∧ s' = s ∨ ∃ r₀, M.exec c s r₀ s' ∧ (r = fail c ∨ r = r₀) := by
  rcases h with ⟨-, hexec⟩ | ⟨hr, hs | ⟨r₀, -, hexec⟩⟩
  · exact Or.inr ⟨r, hexec, Or.inr rfl⟩
  · exact Or.inl ⟨hr, hs⟩
  · exact Or.inr ⟨r₀, hexec, Or.inl hr⟩

end Sem

/-- The shared state, and the program that is running on it, if one is. -/
structure Machine (C : Type) (R : C → Type) (α σ : Type) where
  /-- What the program and the other parties work on. -/
  shared : σ
  thread : Option (Prog C R α)

/-- One step of the interleaved system. Programs of `entry` run one at a time;
in between two calls of the running program the other parties may move. -/
inductive Step (M : Sem C R σ) (entry : Prog C R α → Prop) :
    Machine C R α σ → Machine C R α σ → Prop
  /-- Somebody else moves, whether or not a program is running. -/
  | env {s s' t} : M.env s s' → Step M entry ⟨s, t⟩ ⟨s', t⟩
  /-- A program is started; none is running. -/
  | start {s p} : entry p → Step M entry ⟨s, none⟩ ⟨s, some p⟩
  /-- The running program makes its next call and gets an answer. -/
  | call {s c k r s'} : M.exec c s r s' → Step M entry ⟨s, some (.call c k)⟩ ⟨s', some (k r)⟩
  /-- The program has ended, and its result is dropped. -/
  | finish {s a} : Step M entry ⟨s, some (.ret a)⟩ ⟨s, none⟩

/-- The states of every run that starts idle in a state of `init`. -/
def Reachable (M : Sem C R σ) (entry : Prog C R α → Prop) (init : σ → Prop)
    (m : Machine C R α σ) : Prop :=
  ∃ s₀, init s₀ ∧ Relation.ReflTransGen (Step M entry) ⟨s₀, none⟩ m

/-! ## Projections -/

/-- `f` maps the steps of `M` to steps of `N`: the part of the state that `f`
keeps moves as `N` allows. -/
structure Sem.Projects {τ : Type} (f : σ → τ) (M : Sem C R σ) (N : Sem C R τ) : Prop where
  env : ∀ s s', M.env s s' → N.env (f s) (f s')
  exec : ∀ c s r s', M.exec c s r s' → N.exec c (f s) r (f s')

namespace Sem.Projects

variable {τ : Type} {f : σ → τ} {M : Sem C R σ} {N : Sem C R τ}

/-- Calls may be lost on both sides. -/
theorem lossy (h : Projects f M N) (fail : (c : C) → R c) :
    Projects f (M.lossy fail) (N.lossy fail) where
  env := h.env
  exec c s r s' := by
    rintro (hexec | ⟨rfl, rfl | ⟨r₀, hexec⟩⟩)
    · exact Or.inl (h.exec c s r s' hexec)
    · exact Or.inr ⟨rfl, Or.inl rfl⟩
    · exact Or.inr ⟨rfl, Or.inr ⟨r₀, h.exec c s r₀ s' hexec⟩⟩

/-- A condition on the part that is kept restricts both sides. -/
theorem guarded (h : Projects f M N) (call : (c : C) → τ → R c → Prop)
    (other : τ → τ → Prop) :
    Projects f (M.guarded (fun c s => call c (f s)) fun s s' => other (f s) (f s'))
      (N.guarded call other) where
  env s s' hstep := ⟨hstep.1, h.env s s' hstep.2⟩
  exec c s r s' hexec := ⟨hexec.1, h.exec c s r s' hexec.2⟩

/-- The program is the same, so every step is one on the other side. -/
theorem step (h : Projects f M N) {entry : Prog C R α → Prop} {m m' : Machine C R α σ}
    (hstep : Step M entry m m') :
    Step N entry ⟨f m.shared, m.thread⟩ ⟨f m'.shared, m'.thread⟩ := by
  -- only the shared state is mapped
  cases hstep with
  | env henv => exact Step.env (h.env _ _ henv)
  | start hp => exact Step.start hp
  | call hexec => exact Step.call (h.exec _ _ _ _ hexec)
  | finish => exact Step.finish

/-- Runs project to runs. -/
theorem reachable (h : Projects f M N) {entry : Prog C R α → Prop} {init : σ → Prop}
    {init' : τ → Prop} (hinit : ∀ s, init s → init' (f s)) {m : Machine C R α σ}
    (hm : Reachable M entry init m) : Reachable N entry init' ⟨f m.shared, m.thread⟩ := by
  obtain ⟨s₀, hs₀, hrun⟩ := hm
  refine ⟨f s₀, hinit s₀ hs₀, ?_⟩
  induction hrun with
  | refl => exact Relation.ReflTransGen.refl
  | tail _ hstep ih => exact ih.tail (h.step hstep)

end Sem.Projects

end Interleaved
