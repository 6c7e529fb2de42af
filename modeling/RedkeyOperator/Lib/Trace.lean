import RedkeyOperator.Lib.Rules

/-!
# The calls of a run

`Traces M p s tr a s'` is a run of `p` together with the calls it makes and the responses it gets,
in order. Statements about requests, and not only about the state they leave, are made with it:
that nothing is written, or how often a call succeeded.

A semantics in which the other parties move before every call (`Sem.disturbed`) turns an
interleaved run into an undisturbed one.
-/

namespace Interleaved

open Relation

variable {C : Type} {R : C → Type} {α β ε σ : Type}

/-- A call and the response to it. -/
abbrev Event (C : Type) (R : C → Type) := (c : C) × R c

/-- `p` runs from `s` to `s'`, makes the calls of `tr` and ends with `a`. -/
def Traces (M : Sem C R σ) : Prog C R α → σ → List (Event C R) → α → σ → Prop
  | .ret a, s, tr, a', s' => tr = [] ∧ a' = a ∧ s' = s
  | .call c k, s, tr, a, s' => ∃ r s₁ rest, M.exec c s r s₁ ∧ tr = ⟨c, r⟩ :: rest ∧
      Traces M (k r) s₁ rest a s'

/-- The other parties move before every call. -/
def Sem.disturbed (M : Sem C R σ) : Sem C R σ where
  env := M.env
  exec c s r s' := ∃ s₁, ReflTransGen M.env s s₁ ∧ M.exec c s₁ r s'

section Traces

variable {M : Sem C R σ} {s s' : σ} {tr : List (Event C R)}

/-- The calls of a sequence are those of its parts, one after the other. -/
theorem traces_bind {p : Prog C R α} {f : α → Prog C R β} {b : β} :
    Traces M (p.bind f) s tr b s' ↔ ∃ tr₁ tr₂ a s₁, tr = tr₁ ++ tr₂ ∧ Traces M p s tr₁ a s₁ ∧
      Traces M (f a) s₁ tr₂ b s' := by
  -- on the first program; its calls come first
  induction p generalizing s tr with
  | ret a =>
      constructor
      · intro h
        exact ⟨[], tr, a, s, rfl, ⟨rfl, rfl, rfl⟩, h⟩
      · rintro ⟨tr₁, tr₂, a', s₁, rfl, ⟨rfl, rfl, rfl⟩, h⟩
        exact h
  | call c k ih =>
      constructor
      · rintro ⟨r, s₁, rest, hexec, rfl, hrest⟩
        rcases (ih r).mp hrest with ⟨tr₁, tr₂, a, s₂, rfl, hp, hf⟩
        exact ⟨⟨c, r⟩ :: tr₁, tr₂, a, s₂, rfl, ⟨r, s₁, tr₁, hexec, rfl, hp⟩, hf⟩
      · rintro ⟨_, tr₂, a, s₂, rfl, ⟨r, s₁, tr₁, hexec, rfl, hp⟩, hf⟩
        exact ⟨r, s₁, tr₁ ++ tr₂, hexec, rfl, (ih r).mpr ⟨tr₁, tr₂, a, s₂, rfl, hp, hf⟩⟩

/-- The calls that a handler answers. -/
def Prog.events (h : (c : C) → σ → R c × σ) : Prog C R α → σ → List (Event C R)
  | .ret _, _ => []
  | .call c k, s => ⟨c, (h c s).1⟩ :: (k (h c s).1).events h (h c s).2

theorem traces_events {h : (c : C) → σ → R c × σ} (hexec : ∀ c s, M.exec c s (h c s).1 (h c s).2)
    (p : Prog C R α) (s : σ) : Traces M p s (p.events h s) (p.run h s).1 (p.run h s).2 := by
  induction p generalizing s with
  | ret a => exact ⟨rfl, rfl, rfl⟩
  | call c k ih => exact ⟨_, _, _, hexec c s, rfl, ih _ _⟩

end Traces

/-! ## Error-returning programs -/

namespace Op

variable {M : Sem C R σ} {s s' : σ} {tr : List (Event C R)}

/-- The second program runs when the first one ends well. -/
theorem traces_bind {p : Op C R ε α} {f : α → Op C R ε β} {x : Except ε β} :
    Traces M (p >>= f : Op C R ε β) s tr x s' ↔
      (∃ tr₁ tr₂ a s₁, tr = tr₁ ++ tr₂ ∧ Traces M p s tr₁ (.ok a) s₁ ∧
        Traces M (f a) s₁ tr₂ x s') ∨
      (∃ e, x = .error e ∧ Traces M p s tr (.error e) s') := by
  refine Iff.trans Interleaved.traces_bind ?_
  constructor
  · rintro ⟨tr₁, tr₂, y, s₁, rfl, hp, hf⟩
    cases y with
    | ok a => exact Or.inl ⟨tr₁, tr₂, a, s₁, rfl, hp, hf⟩
    | error e =>
        rcases hf with ⟨rfl, rfl, rfl⟩
        exact Or.inr ⟨e, rfl, by simpa using hp⟩
  · rintro (⟨tr₁, tr₂, a, s₁, rfl, hp, hf⟩ | ⟨e, rfl, hp⟩)
    · exact ⟨tr₁, tr₂, .ok a, s₁, rfl, hp, hf⟩
    · exact ⟨tr, [], .error e, s', by simp, hp, rfl, rfl, rfl⟩

/-- The handler runs when the program fails. -/
theorem traces_catchError {p : Op C R ε α} {h : ε → Op C R ε α} {x : Except ε α} :
    Traces M (p.catchError h : Op C R ε α) s tr x s' ↔
      (∃ a, x = .ok a ∧ Traces M p s tr (.ok a) s') ∨
      (∃ tr₁ tr₂ e s₁, tr = tr₁ ++ tr₂ ∧ Traces M p s tr₁ (.error e) s₁ ∧
        Traces M (h e) s₁ tr₂ x s') := by
  refine Iff.trans Interleaved.traces_bind ?_
  constructor
  · rintro ⟨tr₁, tr₂, y, s₁, rfl, hp, hf⟩
    cases y with
    | ok a =>
        rcases hf with ⟨rfl, rfl, rfl⟩
        exact Or.inl ⟨a, rfl, by simpa using hp⟩
    | error e => exact Or.inr ⟨tr₁, tr₂, e, s₁, rfl, hp, hf⟩
  · rintro (⟨a, rfl, hp⟩ | ⟨tr₁, tr₂, e, s₁, rfl, hp, hf⟩)
    · exact ⟨tr, [], .ok a, s', by simp, hp, rfl, rfl, rfl⟩
    · exact ⟨tr₁, tr₂, .error e, s₁, rfl, hp, hf⟩

end Op

end Interleaved
