import RedkeyOperator.Lib.Rules

/-!
# Programs that work on different parts of the state

A part of the state is given by what it means for two states to agree on it. A set of calls is
*local* to a part when the responses, and what becomes of the part, depend on the part alone; it
*frames* a part when it leaves it alone.

When the calls of `p` are local to a part that the calls of `q` frame, `p` does not notice `q`:
neither when `q` runs before it (`Local.run_after`), nor when the two run interleaved
(`Local.shuffle`).

The footprint that such an argument starts from can be had from the proof rules
(`uses_of_wp`): they are applied to a semantics that has no state and allows the responses of
`ok`.
-/

namespace Interleaved

variable {C : Type} {R : C → Type} {α β ε σ : Type}

/-! ## Footprints from the proof rules -/

/-- The semantics without state in which a call gets any of the responses of
`ok`. -/
def Sem.allowing (ok : (c : C) → R c → Prop) : Sem C R Unit where
  env _ _ := False
  exec c _ r _ := ok c r

theorem stable_allowing {ok : (c : C) → R c → Prop} (A : Unit → Prop) :
    Stable (Sem.allowing ok) A :=
  fun _ _ hstep => hstep.elim

/-- Every call that is guaranteed to meet `P` does, as long as every call has
some response. -/
theorem uses_of_wp {ok : (c : C) → R c → Prop} (hok : ∀ c, ∃ r, ok c r) {P : C → Prop}
    {Q : α → Unit → Prop} {p : Prog C R α}
    (h : wp (Sem.allowing ok) (fun c _ _ _ => P c) Q p ()) : p.Uses ok P := by
  induction p with
  | ret a => trivial
  | call c k ih =>
      refine ⟨?_, ?_⟩
      · rcases hok c with ⟨r, hr⟩
        exact (h () .refl r () hr).1
      · intro r hr
        exact ih r (h () .refl r () hr).2

/-! ## Parts of the state -/

/-- On states of `I`, the calls of `P` get responses of `ok` and stay in
`I`. -/
def Serves (h : (c : C) → σ → R c × σ) (I : σ → Prop) (ok : (c : C) → R c → Prop)
    (P : C → Prop) : Prop :=
  ∀ c s, P c → I s → ok c (h c s).1 ∧ I (h c s).2

/-- The calls of `P` see and change a part of the state only. -/
def Local (h : (c : C) → σ → R c × σ) (I : σ → Prop) (agree : σ → σ → Prop) (P : C → Prop) : Prop :=
  ∀ c s t, P c → I s → I t → agree s t → (h c s).1 = (h c t).1 ∧ agree (h c s).2 (h c t).2

/-- The calls of `P` leave a part of the state alone. -/
def Frames (h : (c : C) → σ → R c × σ) (I : σ → Prop) (agree : σ → σ → Prop) (P : C → Prop) :
    Prop :=
  ∀ c s, P c → I s → agree s (h c s).2

section Runs

variable {h : (c : C) → σ → R c × σ} {I : σ → Prop} {agree : σ → σ → Prop}
variable {ok ok' : (c : C) → R c → Prop} {P P' : C → Prop} {p : Prog C R α} {q : Prog C R β}
variable {s t : σ}

theorem Serves.run (hserves : Serves h I ok P) (hp : p.Uses ok P) (hs : I s) : I (p.run h s).2 := by
  induction p generalizing s with
  | ret a => exact hs
  | call c k ih =>
      rcases hserves c s hp.1 hs with ⟨hr, hs'⟩
      exact ih _ (hp.2 _ hr) hs'

/-- A program of framing calls frames. -/
theorem Frames.run (hagree : Equivalence agree) (hserves : Serves h I ok P)
    (hframes : Frames h I agree P) (hp : p.Uses ok P) (hs : I s) : agree s (p.run h s).2 := by
  induction p generalizing s with
  | ret a => exact hagree.refl s
  | call c k ih =>
      rcases hserves c s hp.1 hs with ⟨hr, hs'⟩
      exact hagree.trans (hframes c s hp.1 hs) (ih _ (hp.2 _ hr) hs')

/-- A program of local calls is local. -/
theorem Local.run (hserves : Serves h I ok P) (hlocal : Local h I agree P) (hp : p.Uses ok P)
    (hs : I s) (ht : I t) (hst : agree s t) :
    (p.run h s).1 = (p.run h t).1 ∧ agree (p.run h s).2 (p.run h t).2 := by
  induction p generalizing s t with
  | ret a => exact ⟨rfl, hst⟩
  | call c k ih =>
      rcases hlocal c s t hp.1 hs ht hst with ⟨hresp, hst'⟩
      rcases hserves c s hp.1 hs with ⟨hr, hs'⟩
      rcases hserves c t hp.1 ht with ⟨-, ht'⟩
      rw [Prog.run_call, Prog.run_call, ← hresp]
      exact ih _ (hp.2 _ hr) hs' ht' hst'

/-- A local program does the same before and after one that frames its
part. -/
theorem Local.run_after (hagree : Equivalence agree) (hserves : Serves h I ok P)
    (hserves' : Serves h I ok' P') (hlocal : Local h I agree P) (hframes : Frames h I agree P')
    (hp : p.Uses ok P) (hq : q.Uses ok' P') (hs : I s) :
    (p.run h (q.run h s).2).1 = (p.run h s).1 ∧
      agree (p.run h (q.run h s).2).2 (q.run h (p.run h s).2).2 := by
  have hbefore : agree s (q.run h s).2 := hframes.run hagree hserves' hq hs
  have hafter : agree (p.run h s).2 (q.run h (p.run h s).2).2 :=
    hframes.run hagree hserves' hq (hserves.run hp hs)
  rcases hlocal.run hserves hp hs (hserves'.run hq hs) hbefore with ⟨hresult, hpart⟩
  exact ⟨hresult.symm, hagree.trans (hagree.symm hpart) hafter⟩

/-! ## Two programs at once -/

/-- The calls of two programs are answered in some order. -/
inductive Shuffle (h : (c : C) → σ → R c × σ) :
    Prog C R α → Prog C R β → σ → α → β → σ → Prop
  | done {a b s} : Shuffle h (.ret a) (.ret b) s a b s
  /-- The first program makes its next call. -/
  | left {c k q s a b s'} (hrest : Shuffle h (k (h c s).1) q (h c s).2 a b s') :
      Shuffle h (.call c k) q s a b s'
  /-- The second program makes its next call. -/
  | right {p c k s a b s'} (hrest : Shuffle h p (k (h c s).1) (h c s).2 a b s') :
      Shuffle h p (.call c k) s a b s'

theorem Shuffle.symm {a : α} {b : β} (hrun : Shuffle h p q s a b t) : Shuffle h q p s b a t := by
  induction hrun with
  | done => exact .done
  | left _ ih => exact .right ih
  | right _ ih => exact .left ih

/-- A local program does not notice that the other one is running. -/
theorem Local.shuffle (hagree : Equivalence agree) (hserves : Serves h I ok P)
    (hserves' : Serves h I ok' P') (hlocal : Local h I agree P) (hframes : Frames h I agree P')
    {a : α} {b : β} (hrun : Shuffle h p q s a b t) (hp : p.Uses ok P) (hq : q.Uses ok' P')
    (hs : I s) : a = (p.run h s).1 ∧ agree (p.run h s).2 t := by
  induction hrun with
  | done => exact ⟨rfl, hagree.refl _⟩
  -- => its own call: it goes on from there
  | @left c k q s a b s' _ ih =>
      rcases hserves c s hp.1 hs with ⟨hr, hs'⟩
      exact ih (hp.2 _ hr) hq hs'
  | @right p c k s a b s' _ ih =>
      -- the step of the other program leaves the part alone, so `p` would have done the same before
      rcases hserves' c s hq.1 hs with ⟨hr, hs'⟩
      rcases hlocal.run hserves hp hs hs' (hframes c s hq.1 hs) with ⟨hresult, hpart⟩
      rcases ih hp (hq.2 _ hr) hs' with ⟨ha, ht⟩
      exact ⟨ha.trans hresult.symm, hagree.trans hpart ht⟩

end Runs

end Interleaved
