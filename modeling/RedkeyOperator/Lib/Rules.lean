import RedkeyOperator.Lib.Prog

/-!
# Proof rules for interleaved programs

Rely/guarantee reasoning in weakest-precondition form. `wp M G Q p s` says: start
`p` in `s`, let the other parties (`M.env`) move before every call, let `M.exec`
answer the calls; then every call made satisfies the guarantee `G`, and when `p`
ends with `a` in a state `s'`, `Q a s'` holds.

Interference is taken into account at the calls only, so sequencing is plain
composition (`wp_bind`), and an assertion has to be stable under `M.env` exactly
where a call follows it (`wp_call`).

`reachable_wp` packages the induction over runs once: an invariant that is stable and
is re-established by every entry program holds whenever the system is idle, and
what the running program still has to do is always covered by its `wp`.
-/

namespace Interleaved

open Relation

variable {C : Type} {R : C → Type} {α β ε σ : Type}

/-- The other parties never falsify `A`. -/
def Stable (M : Sem C R σ) (A : σ → Prop) : Prop :=
  ∀ s s', M.env s s' → A s → A s'

/-- Two stable assertions are stable together. -/
theorem Stable.and {M : Sem C R σ} {A B : σ → Prop} (hA : Stable M A) (hB : Stable M B) :
    Stable M (fun s => A s ∧ B s) :=
  fun s s' h hs => ⟨hA s s' h hs.1, hB s s' h hs.2⟩

/-- Any number of steps of the others leaves it alone. -/
theorem Stable.reach {M : Sem C R σ} {A : σ → Prop} (hA : Stable M A) {s s' : σ}
    (h : ReflTransGen M.env s s') (hs : A s) : A s' := by
  induction h with
  | refl => exact hs
  | tail _ hstep ih => exact hA _ _ hstep ih

/-- The weakest precondition of `p` for the postcondition `Q`, with the
guarantee `G` required of every call. -/
def wp (M : Sem C R σ) (G : (c : C) → σ → R c → σ → Prop) (Q : α → σ → Prop) :
    Prog C R α → σ → Prop
  | .ret a, s => Q a s
  | .call c k, s => ∀ s', ReflTransGen M.env s s' → ∀ r s'', M.exec c s' r s'' →
      G c s' r s'' ∧ wp M G Q (k r) s''

section Rules

variable {M : Sem C R σ} {G : (c : C) → σ → R c → σ → Prop}

/-- A program that is done has to meet its postcondition where it is. -/
@[simp] theorem wp_ret {Q : α → σ → Prop} {a : α} {s : σ} :
    wp M G Q (.ret a : Prog C R α) s ↔ Q a s := Iff.rfl

/-- Sequencing is composition: no stability is asked for in between. -/
theorem wp_bind {Q : β → σ → Prop} {p : Prog C R α} {f : α → Prog C R β} {s : σ} :
    wp M G Q (p.bind f) s ↔ wp M G (fun a s => wp M G Q (f a) s) p s := by
  -- on the first program; the two sides differ only where it returns
  induction p generalizing s with
  | ret a => rfl
  | call c k ih =>
      constructor
      · intro h s' henv r s'' hexec
        exact ⟨(h s' henv r s'' hexec).1, (ih r).mp (h s' henv r s'' hexec).2⟩
      · intro h s' henv r s'' hexec
        exact ⟨(h s' henv r s'' hexec).1, (ih r).mpr (h s' henv r s'' hexec).2⟩

/-- The rule of consequence for the postcondition. -/
theorem wp_mono {Q Q' : α → σ → Prop} (hQ : ∀ a s, Q a s → Q' a s) {p : Prog C R α} {s : σ}
    (h : wp M G Q p s) : wp M G Q' p s := by
  induction p generalizing s with
  | ret a => exact hQ a s h
  | call c k ih =>
      intro s' henv r s'' hexec
      exact ⟨(h s' henv r s'' hexec).1, ih r (h s' henv r s'' hexec).2⟩

/-- Fewer steps, and fewer answers. -/
theorem wp_sub {N : Sem C R σ} (henv : ∀ s s', N.env s s' → M.env s s')
    (hexec : ∀ c s r s', N.exec c s r s' → M.exec c s r s') {Q : α → σ → Prop} {p : Prog C R α}
    {s : σ} (h : wp M G Q p s) : wp N G Q p s := by
  induction p generalizing s with
  | ret a => exact h
  | call c k ih =>
      intro s' hsteps r s'' hcall
      have hsteps' : ReflTransGen M.env s s' := ReflTransGen.mono henv _ _ hsteps
      obtain ⟨hG, hrest⟩ := h s' hsteps' r s'' (hexec c s' r s'' hcall)
      exact ⟨hG, ih r hrest⟩

/-- From a part of the state to the whole: as long as `K` holds, the steps of
`M` are steps of `N` on the part that `f` keeps, and the guarantee of `N`
makes sure that `K` goes on. -/
theorem wp_lift {τ : Type} {N : Sem C R τ} {GN : (c : C) → τ → R c → τ → Prop} {f : σ → τ}
    {K : σ → Prop} (henv : ∀ s s', K s → M.env s s' → N.env (f s) (f s') ∧ K s')
    (hexec : ∀ c s r s', K s → M.exec c s r s' → N.exec c (f s) r (f s'))
    (hG : ∀ c s r s', K s → M.exec c s r s' → GN c (f s) r (f s') → K s' ∧ G c s r s')
    {Q : α → τ → Prop} {p : Prog C R α} {s : σ} (hs : K s) (h : wp N GN Q p (f s)) :
    wp M G (fun a s => Q a (f s) ∧ K s) p s := by
  induction p generalizing s with
  | ret a => exact ⟨h, hs⟩
  | call c k ih =>
      intro s' hsteps r s'' hcall
      -- the steps of the others are mapped first, and `K` with them
      have hmoved : ReflTransGen N.env (f s) (f s') ∧ K s' := by
        clear hcall
        induction hsteps with
        | refl => exact ⟨.refl, hs⟩
        | tail _ hstep ihs =>
            obtain ⟨hstep', hK⟩ := henv _ _ ihs.2 hstep
            exact ⟨ihs.1.tail hstep', hK⟩
      obtain ⟨hGN, hrest⟩ := h (f s') hmoved.1 r (f s'') (hexec c s' r s'' hmoved.2 hcall)
      obtain ⟨hK, hG'⟩ := hG c s' r s'' hmoved.2 hcall hGN
      exact ⟨hG', ih r hK hrest⟩

/-- The call rule: a stable assertion survives until the call is executed. -/
theorem wp_call {A : σ → Prop} (hA : Stable M A) {Q : α → σ → Prop} {c : C}
    {k : R c → Prog C R α} {s : σ} (hs : A s)
    (h : ∀ s r s', A s → M.exec c s r s' → G c s r s' ∧ wp M G Q (k r) s') :
    wp M G Q (.call c k) s := by
  intro s' henv r s'' hexec
  exact h s' r s'' (hA.reach henv hs) hexec

/-- A program inside a footprint `P` keeps every stable assertion that the
calls of `P` keep. -/
theorem wp_of_uses {A : σ → Prop} (hA : Stable M A) {ok : (c : C) → R c → Prop} {P : C → Prop}
    (hcall : ∀ c s r s', P c → A s → M.exec c s r s' → ok c r ∧ G c s r s' ∧ A s')
    {p : Prog C R α} (hp : p.Uses ok P) {s : σ} (hs : A s) :
    wp M G (fun _ s => A s) p s := by
  -- every call is one of the footprint, and so are those that follow an answer of `ok`
  induction p generalizing s with
  | ret a => exact hs
  | call c k ih =>
      refine wp_call hA hs ?_
      intro s r s' hs' hexec
      obtain ⟨hok, hG, hA'⟩ := hcall c s r s' hp.1 hs' hexec
      exact ⟨hG, ih r (hp.2 r hok) hA'⟩

/-- The frame rule: a program inside a footprint `P` also keeps what the calls
of `P` keep. -/
theorem wp_frame {F : σ → Prop} (hF : Stable M F) {ok : (c : C) → R c → Prop} {P : C → Prop}
    (hcall : ∀ c s r s', P c → F s → M.exec c s r s' → ok c r ∧ F s')
    {Q : α → σ → Prop} {p : Prog C R α} (hp : p.Uses ok P) {s : σ} (hs : F s)
    (h : wp M G Q p s) : wp M G (fun a s => Q a s ∧ F s) p s := by
  induction p generalizing s with
  | ret a => exact ⟨h, hs⟩
  | call c k ih =>
      intro s' henv r s'' hexec
      obtain ⟨hok, hF'⟩ := hcall c s' r s'' hp.1 (hF.reach henv hs) hexec
      obtain ⟨hG, hrest⟩ := h s' henv r s'' hexec
      exact ⟨hG, ih r (hp.2 r hok) hF' hrest⟩

/-! ## Runs -/

/-- A step of somebody else does not matter to a program that has not come to
its next call. -/
theorem wp_env {Q : α → σ → Prop} (hQ : ∀ a, Stable M (Q a)) {p : Prog C R α} {s s' : σ}
    (hstep : M.env s s') (h : wp M G Q p s) : wp M G Q p s' := by
  cases p with
  | ret a => exact hQ a s s' hstep h
  | call c k =>
      intro t henv r t' hexec
      exact h t (ReflTransGen.head hstep henv) r t' hexec

/-- What an invariant promises about a machine: it holds when nothing runs,
and the running program will end in a state of `Q`. -/
def Covered (M : Sem C R σ) (G : (c : C) → σ → R c → σ → Prop) (I : σ → Prop)
    (Q : α → σ → Prop) (m : Machine C R α σ) : Prop :=
  match m.thread with
  | none => I m.shared
  | some p => wp M G Q p m.shared

variable {entry : Prog C R α → Prop} {init I : σ → Prop} {Q : α → σ → Prop}

/-- One step of the machine keeps the promise. Only a call makes use of the
`wp`, and only a start of the entry programs. -/
theorem covered_step (hI : Stable M I) (hQ : ∀ a, Stable M (Q a)) (hQI : ∀ a s, Q a s → I s)
    (hentry : ∀ p, entry p → ∀ s, I s → wp M G Q p s)
    {m m' : Machine C R α σ} (hstep : Step M entry m m') (h : Covered M G I Q m) :
    Covered M G I Q m' := by
  cases hstep with
  | @env s s' t henv =>
      cases t with
      | none => exact hI s s' henv h
      | some p => exact wp_env hQ henv h
  | @start s p hp => exact hentry p hp s h
  | @call s c k r s' hexec => exact (h s ReflTransGen.refl r s' hexec).2
  | @finish s a => exact hQI a s h

/-- The induction over runs: see `Covered`. -/
theorem reachable_wp (hinit : ∀ s, init s → I s) (hI : Stable M I) (hQ : ∀ a, Stable M (Q a))
    (hQI : ∀ a s, Q a s → I s) (hentry : ∀ p, entry p → ∀ s, I s → wp M G Q p s)
    {m : Machine C R α σ} (hm : Reachable M entry init m) : Covered M G I Q m := by
  obtain ⟨s₀, hs₀, hrun⟩ := hm
  induction hrun with
  | refl => exact hinit s₀ hs₀
  | tail _ hstep ih => exact covered_step hI hQ hQI hentry hstep ih

/-- A program that has ended has met its postcondition. -/
theorem reachable_ret (hinit : ∀ s, init s → I s) (hI : Stable M I) (hQ : ∀ a, Stable M (Q a))
    (hQI : ∀ a s, Q a s → I s) (hentry : ∀ p, entry p → ∀ s, I s → wp M G Q p s)
    {s : σ} {a : α} (hm : Reachable M entry init ⟨s, some (.ret a)⟩) : Q a s :=
  reachable_wp hinit hI hQ hQI hentry hm

/-- Every call of every run satisfies the guarantee. -/
theorem reachable_call (hinit : ∀ s, init s → I s) (hI : Stable M I) (hQ : ∀ a, Stable M (Q a))
    (hQI : ∀ a s, Q a s → I s) (hentry : ∀ p, entry p → ∀ s, I s → wp M G Q p s)
    {s s' : σ} {c : C} {k : R c → Prog C R α} {r : R c}
    (hm : Reachable M entry init ⟨s, some (.call c k)⟩) (hexec : M.exec c s r s') :
    G c s r s' :=
  (reachable_wp hinit hI hQ hQI hentry hm s ReflTransGen.refl r s' hexec).1

/-- A state property that the other parties and every guaranteed call preserve
holds in every state of every run, also in the middle of a program. -/
theorem reachable_always {J : σ → Prop} (hinit : ∀ s, init s → I s) (hI : Stable M I)
    (hQ : ∀ a, Stable M (Q a)) (hQI : ∀ a s, Q a s → I s)
    (hentry : ∀ p, entry p → ∀ s, I s → wp M G Q p s)
    (hJ₀ : ∀ s, init s → J s) (hJ : Stable M J)
    (hG : ∀ c s r s', G c s r s' → J s → J s')
    {m : Machine C R α σ} (hm : Reachable M entry init m) : J m.shared := by
  obtain ⟨s₀, hs₀, hrun⟩ := hm
  induction hrun with
  | refl => exact hJ₀ s₀ hs₀
  | @tail m₁ m₂ hrun hstep ih =>
      -- what the running program guarantees of the call it is at
      have hcov : Covered M G I Q m₁ := reachable_wp hinit hI hQ hQI hentry ⟨s₀, hs₀, hrun⟩
      cases hstep with
      | @env s s' t henv => exact hJ s s' henv ih
      | start _ => exact ih
      | @call s c k r s' hexec =>
          exact hG c s r s' (hcov s ReflTransGen.refl r s' hexec).1 ih
      | finish => exact ih

/-! ## Undisturbed runs -/

/-- `p` runs from `s` to `s'` without anyone else moving, and ends with
`a`. -/
def Runs (M : Sem C R σ) : Prog C R α → σ → α → σ → Prop
  | .ret a, s, a', s' => a' = a ∧ s' = s
  | .call c k, s, a, s' => ∃ r s₁, M.exec c s r s₁ ∧ Runs M (k r) s₁ a s'

/-- The rules hold for such a run in particular. -/
theorem Runs.post {p : Prog C R α} {s s' : σ} {a : α} (hrun : Runs M p s a s')
    (h : wp M G Q p s) : Q a s' := by
  induction p generalizing s with
  | ret a₀ =>
      obtain ⟨rfl, rfl⟩ := hrun
      exact h
  | call c k ih =>
      obtain ⟨r, s₁, hexec, hrest⟩ := hrun
      exact ih r hrest (h s ReflTransGen.refl r s₁ hexec).2

theorem Runs.mono {N : Sem C R σ} (hMN : ∀ c s r s', M.exec c s r s' → N.exec c s r s')
    {p : Prog C R α} {s s' : σ} {a : α} (hrun : Runs M p s a s') : Runs N p s a s' := by
  induction p generalizing s with
  | ret a₀ => exact hrun
  | call c k ih =>
      obtain ⟨r, s₁, hexec, hrest⟩ := hrun
      exact ⟨r, s₁, hMN c s r s₁ hexec, ih r hrest⟩

/-- Such a run is one of the interleaved machine. -/
theorem Runs.reachable {p : Prog C R α} {s s' : σ} {a : α} (hrun : Runs M p s a s')
    (hm : Reachable M entry init ⟨s, some p⟩) : Reachable M entry init ⟨s', some (.ret a)⟩ := by
  induction p generalizing s with
  | ret a₀ =>
      obtain ⟨rfl, rfl⟩ := hrun
      exact hm
  | call c k ih =>
      obtain ⟨r, s₁, hexec, hrest⟩ := hrun
      obtain ⟨s₀, hs₀, hsteps⟩ := hm
      exact ih r hrest ⟨s₀, hs₀, hsteps.tail (.call hexec)⟩

/-- The deterministic reading is such a run. -/
theorem runs_run {h : (c : C) → σ → R c × σ} (hexec : ∀ c s, M.exec c s (h c s).1 (h c s).2)
    (p : Prog C R α) (s : σ) : Runs M p s (p.run h s).1 (p.run h s).2 := by
  induction p generalizing s with
  | ret a => exact ⟨rfl, rfl⟩
  | call c k ih => exact ⟨_, _, hexec c s, ih _ _⟩

end Rules

/-! ## Error-returning programs -/

namespace Op

/-- The weakest precondition of an error-returning program: `Q` for its value,
`E` for its error. -/
def wp (M : Sem C R σ) (G : (c : C) → σ → R c → σ → Prop) (Q : α → σ → Prop)
    (E : ε → σ → Prop) (p : Op C R ε α) (s : σ) : Prop :=
  Interleaved.wp M G (fun x s => match x with
    | .ok a => Q a s
    | .error e => E e s) p s

variable {M : Sem C R σ} {G : (c : C) → σ → R c → σ → Prop} {E : ε → σ → Prop}

@[simp] theorem wp_pure {Q : α → σ → Prop} {a : α} {s : σ} :
    wp M G Q E (pure a) s ↔ Q a s := Iff.rfl

@[simp] theorem wp_throw {Q : α → σ → Prop} {e : ε} {s : σ} :
    wp M G Q E (throw e : Op C R ε α) s ↔ E e s := Iff.rfl

/-- The second program is run after a value; an error is final. -/
@[simp] theorem wp_bind {Q : β → σ → Prop} {p : Op C R ε α} {f : α → Op C R ε β} {s : σ} :
    wp M G Q E (p >>= f) s ↔ wp M G (fun a s => wp M G Q E (f a) s) E p s := by
  refine Iff.trans Interleaved.wp_bind ⟨Interleaved.wp_mono ?_, Interleaved.wp_mono ?_⟩
  · intro x s h
    cases x with
    | ok a => exact h
    | error e => exact h
  · intro x s h
    cases x with
    | ok a => exact h
    | error e => exact h

/-- The rule of consequence, for values and errors. -/
theorem wp_mono {Q Q' : α → σ → Prop} {E' : ε → σ → Prop} (hQ : ∀ a s, Q a s → Q' a s)
    (hE : ∀ e s, E e s → E' e s) {p : Op C R ε α} {s : σ} (h : wp M G Q E p s) :
    wp M G Q' E' p s := by
  refine Interleaved.wp_mono ?_ h
  intro x s hx
  cases x with
  | ok a => exact hQ a s hx
  | error e => exact hE e s hx

/-- Errors of the program are those its handler starts from. -/
@[simp] theorem wp_catchError {Q : α → σ → Prop} {p : Op C R ε α} {h : ε → Op C R ε α} {s : σ} :
    wp M G Q E (p.catchError h) s ↔ wp M G Q (fun e s => wp M G Q E (h e) s) p s := by
  refine Iff.trans Interleaved.wp_bind ⟨Interleaved.wp_mono ?_, Interleaved.wp_mono ?_⟩
  · intro x s hx
    cases x with
    | ok a => exact hx
    | error e => exact hx
  · intro x s hx
    cases x with
    | ok a => exact hx
    | error e => exact hx

/-! ### Triples

Most specifications treat all errors alike: whatever the error, `I` holds after it. -/

/-- `Q` after a value, `I` after an error. -/
def Outcome (Q : α → σ → Prop) (I : σ → Prop) : Except ε α → σ → Prop
  | .ok a, s => Q a s
  | .error _, s => I s

/-- From a state of `A`, the program ends with a value in a state of `Q`, or
with an error in a state of `I`. -/
def Triple (M : Sem C R σ) (G : (c : C) → σ → R c → σ → Prop) (I A : σ → Prop)
    (p : Op C R ε α) (Q : α → σ → Prop) : Prop :=
  ∀ s, A s → wp M G Q (fun _ s => I s) p s

namespace Triple

variable {I A A' : σ → Prop} {Q Q' : α → σ → Prop} {p : Op C R ε α}

theorem pure {a : α} (h : ∀ s, A s → Q a s) : Triple M G I A (pure a : Op C R ε α) Q := h

/-- An error, in a state that is good enough for one. -/
theorem throw {e : ε} (h : ∀ s, A s → I s) : Triple M G I A (throw e : Op C R ε α) Q := h

/-- The postcondition of the first program is the precondition of the
second. -/
theorem bind {B : β → σ → Prop} {f : α → Op C R ε β} (hp : Triple M G I A p Q)
    (hf : ∀ a, Triple M G I (Q a) (f a) B) : Triple M G I A (p >>= f) B := by
  intro s hs
  rw [wp_bind]
  exact wp_mono (fun a s h => hf a s h) (fun _ _ h => h) (hp s hs)

theorem mono (hp : Triple M G I A p Q) (hA : ∀ s, A' s → A s) (hQ : ∀ a s, Q a s → Q' a s) :
    Triple M G I A' p Q' :=
  fun s hs => wp_mono hQ (fun _ _ h => h) (hp s (hA s hs))

theorem pre (hp : Triple M G I A p Q) (hA : ∀ s, A' s → A s) : Triple M G I A' p Q :=
  hp.mono hA fun _ _ h => h

theorem post (hp : Triple M G I A p Q) (hQ : ∀ a s, Q a s → Q' a s) : Triple M G I A p Q' :=
  hp.mono (fun _ h => h) hQ

theorem error {J : σ → Prop} (hp : Triple M G J A p Q) (hJ : ∀ s, J s → I s) :
    Triple M G I A p Q :=
  fun s hs => wp_mono (fun _ _ h => h) (fun _ s h => hJ s h) (hp s hs)

theorem sub {N : Sem C R σ} (henv : ∀ s s', N.env s s' → M.env s s')
    (hexec : ∀ c s r s', N.exec c s r s' → M.exec c s r s') (hp : Triple M G I A p Q) :
    Triple N G I A p Q :=
  fun s hs => Interleaved.wp_sub henv hexec (hp s hs)

/-- A triple about a part of the state, see `wp_lift`. -/
theorem lift {τ : Type} {N : Sem C R τ} {GN : (c : C) → τ → R c → τ → Prop} {f : σ → τ}
    {K : σ → Prop} {I A : τ → Prop} {Q : α → τ → Prop}
    (henv : ∀ s s', K s → M.env s s' → N.env (f s) (f s') ∧ K s')
    (hexec : ∀ c s r s', K s → M.exec c s r s' → N.exec c (f s) r (f s'))
    (hG : ∀ c s r s', K s → M.exec c s r s' → GN c (f s) r (f s') → K s' ∧ G c s r s')
    (hp : Triple N GN I A p Q) :
    Triple M G (fun s => I (f s) ∧ K s) (fun s => A (f s) ∧ K s) p fun a s => Q a (f s) ∧ K s := by
  rintro s ⟨hA, hK⟩
  refine Interleaved.wp_mono ?_ (Interleaved.wp_lift henv hexec hG hK (hp (f s) hA))
  intro x s hx
  cases x with
  | ok _ => exact hx
  | error _ => exact hx

/-- Errors may be caught where they are known to leave `J`. -/
theorem catchError {J : σ → Prop} {h : ε → Op C R ε α} (hp : Triple M G J A p Q)
    (hh : ∀ e, Triple M G I J (h e) Q) : Triple M G I A (p.catchError h) Q := by
  intro s hs
  rw [wp_catchError]
  exact wp_mono (fun _ _ h => h) (fun e s h => hh e s h) (hp s hs)

/-- The call rule for a single request. -/
theorem request (hA : Stable M A) {c : C} {Q : R c → σ → Prop}
    (h : ∀ s r s', A s → M.exec c s r s' → G c s r s' ∧ Q r s') :
    Triple M G I A (request c : Op C R ε (R c)) Q :=
  fun _ hs => wp_call hA hs h

/-- A program inside a footprint keeps what the calls of the footprint
keep. -/
theorem of_uses (hA : Stable M A) {ok : (c : C) → R c → Prop} {P : C → Prop}
    (hcall : ∀ c s r s', P c → A s → M.exec c s r s' → ok c r ∧ G c s r s' ∧ A s')
    (hp : p.Uses ok P) : Triple M G A A p fun _ => A := by
  intro s hs
  refine Interleaved.wp_mono ?_ (Interleaved.wp_of_uses hA hcall hp hs)
  intro x s hx
  cases x with
  | ok _ => exact hx
  | error _ => exact hx

/-- A program that ends well whatever it ends with. -/
theorem entry {I : σ → Prop} (h : Triple M G I A p fun _ => I) {s : σ} (hs : A s) :
    Interleaved.wp M G (fun _ s => I s) p s := by
  refine Interleaved.wp_mono ?_ (h s hs)
  intro x s hx
  cases x with
  | ok _ => exact hx
  | error _ => exact hx

/-- The frame rule: see `wp_frame`. -/
theorem frame {F : σ → Prop} (hF : Stable M F) {ok : (c : C) → R c → Prop} {P : C → Prop}
    (hcall : ∀ c s r s', P c → F s → M.exec c s r s' → ok c r ∧ F s') (hp : p.Uses ok P)
    (h : Triple M G I A p Q) :
    Triple M G I (fun s => A s ∧ F s) p fun a s => Q a s ∧ F s := by
  rintro s ⟨hs, hFs⟩
  refine Interleaved.wp_mono ?_ (Interleaved.wp_frame hF hcall hp hFs (h s hs))
  rintro x s ⟨hx, hFs⟩
  cases x with
  | ok _ => exact ⟨hx, hFs⟩
  | error _ => exact hx

end Triple

/-! ### Whole runs -/

/-- Each operation of a run leads from `I` to `P` when it succeeds, and back
to `I` when it does not. -/
structure Rounds (M : Sem C R σ) (G : (c : C) → σ → R c → σ → Prop) (entry : Op C R ε α → Prop)
    (I P : σ → Prop) : Prop where
  /-- What holds between operations is kept by the others. -/
  stable : Stable M I
  stable_ok : Stable M P
  /-- After a success the next operation may start. -/
  weaken : ∀ s, P s → I s
  entry : ∀ p, entry p → Triple M G I I p fun _ => P

namespace Rounds

variable {entry : Op C R ε α → Prop} {init I P : σ → Prop}

/-- Whatever an operation ends with, the others do not spoil it. -/
theorem outcome_stable (h : Rounds M G entry I P) (x : Except ε α) :
    Stable M (Outcome (fun _ => P) I x) := by
  cases x with
  | ok _ => exact h.stable_ok
  | error _ => exact h.stable

theorem outcome_weaken (h : Rounds M G entry I P) (x : Except ε α) (s : σ)
    (hx : Outcome (fun _ => P) I x s) : I s := by
  cases x with
  | ok _ => exact h.weaken s hx
  | error _ => exact hx

theorem outcome_entry (h : Rounds M G entry I P) (p : Op C R ε α) (hp : entry p) (s : σ)
    (hs : I s) : Interleaved.wp M G (Outcome (fun _ => P) I) p s := by
  refine Interleaved.wp_mono (fun x s hx => ?_) (h.entry p hp s hs)
  cases x with
  | ok _ => exact hx
  | error _ => exact hx

/-- Between two operations. -/
theorem idle (h : Rounds M G entry I P) (hinit : ∀ s, init s → I s) {s : σ}
    (hm : Reachable M entry init ⟨s, none⟩) : I s :=
  reachable_wp hinit h.stable h.outcome_stable h.outcome_weaken h.outcome_entry hm

/-- After one that has succeeded. -/
theorem ok (h : Rounds M G entry I P) (hinit : ∀ s, init s → I s) {s : σ} {a : α}
    (hm : Reachable M entry init ⟨s, some (.ret (.ok a))⟩) : P s :=
  reachable_ret hinit h.stable h.outcome_stable h.outcome_weaken h.outcome_entry hm

/-- A property that every guaranteed call keeps holds all the time. -/
theorem always {J : σ → Prop} (h : Rounds M G entry I P) (hinit : ∀ s, init s → I s)
    (hJ₀ : ∀ s, init s → J s) (hJ : Stable M J) (hG : ∀ c s r s', G c s r s' → J s → J s')
    {m : Machine C R (Except ε α) σ} (hm : Reachable M entry init m) : J m.shared :=
  reachable_always hinit h.stable h.outcome_stable h.outcome_weaken h.outcome_entry hJ₀ hJ hG hm

end Rounds

end Op

end Interleaved
