import RedkeyOperator.Controller.Reconcile
import RedkeyOperator.Lib.Trace

/-!
# Proof rules for the controller

One rule per function of the controller, over any semantics of the calls. They reduce a
specification of `reconcile` to obligations about single requests:

* the functions that deal with Robin's objects have a footprint (`ensureRBAC_uses`, ...);
* the loops have an invariant rule (`deleteSuperseded_triple`, `deleteConfigs_triple`,
  `retryOnConflict_triple`);
* `reconcileScaleToZero_triple`, `reconcileConfigs_triple` and `reconcile_triple` put the
  stages together.
-/

namespace RedkeyOperator

open Interleaved Interleaved.Op

/-! ## Robin's objects -/

/-- The call is about an object of Robin's, with a key of `keys`, or a metric.
Such calls leave the Redkey and the configs alone. -/
def Call.OnRobin (keys : NamespacedName → Prop) : Call → Prop
  | .get _ key => keys key
  | .create _ obj => keys obj.metadata.key
  | .patch _ obj => keys obj.metadata.key
  | .delete _ key => keys key
  | .metric _ => True
  | _ => False

/-- An object that is read has a key of `keys`. -/
def KeyedReads (keys : NamespacedName → Prop) : (c : Call) → Resp c → Prop
  | .get _ _, .ok obj => keys (Obj.metadata obj).key
  | _, _ => True

/-- With every key allowed, nothing is asked of the answers. -/
theorem keyedReads_true (c : Call) (r : Resp c) : KeyedReads (fun _ => True) c r := by
  unfold KeyedReads
  split <;> trivial

section Uses

variable {ok : (c : Call) → Resp c → Prop} {P : Call → Prop}

/-- A request whose failure ends the program. -/
theorem uses_api {c : Call} (hc : P c) : Op.Uses ok P (api c) := by
  refine uses_request_bind hc ?_
  intro r _
  cases r with
  | ok a => trivial
  | error e => trivial

theorem uses_metric {e : MetricEvent} (he : P (.metric e)) : Op.Uses ok P (metric e) :=
  uses_request_bind he fun _ _ => uses_pure ()

end Uses

section Robin

variable {keys : NamespacedName → Prop} {cluster : Redkey}

/-- What the two continuations may use, given the key of the object that was
read. -/
theorem withExisting_uses {k : Kind} {key : NamespacedName} {absent : Rec Unit}
    {present : Obj k → Rec Unit} (hkey : keys key)
    (habsent : Op.Uses (KeyedReads keys) (Call.OnRobin keys) absent)
    (hpresent : ∀ obj : Obj k, keys obj.metadata.key →
      Op.Uses (KeyedReads keys) (Call.OnRobin keys) (present obj)) :
    Op.Uses (KeyedReads keys) (Call.OnRobin keys) (withExisting k key absent present) := by
  refine ⟨hkey, ?_⟩
  intro r hr
  match r with
  | .ok obj => exact hpresent obj hr
  | .error .notFound => exact habsent
  | .error .alreadyExists => trivial
  | .error .conflict => trivial
  | .error .other => trivial

/-- The `ensure*` functions read under Robin's key, create under it, and patch
what they have read. -/
theorem ensureServiceAccount_uses (h : keys (robinKey cluster)) :
    Op.Uses (KeyedReads keys) (Call.OnRobin keys) (ensureServiceAccount cluster) := by
  refine withExisting_uses h (uses_api h) ?_
  intro existing hkey
  dsimp only
  split
  · exact uses_api hkey
  · trivial

theorem ensureRole_uses (h : keys (robinKey cluster)) :
    Op.Uses (KeyedReads keys) (Call.OnRobin keys) (ensureRole cluster) := by
  refine withExisting_uses h (uses_api h) ?_
  intro existing hkey
  dsimp only
  split
  · exact uses_api hkey
  · trivial

/-- A binding that is replaced is deleted under the key it was read with. -/
theorem ensureRoleBinding_uses (h : keys (robinKey cluster)) :
    Op.Uses (KeyedReads keys) (Call.OnRobin keys) (ensureRoleBinding cluster) := by
  refine withExisting_uses h (uses_api h) ?_
  intro existing hkey
  dsimp only
  split
  · exact uses_bind (uses_api hkey) fun _ => uses_api h
  · split
    · exact uses_api hkey
    · trivial

theorem ensureRBAC_uses (h : keys (robinKey cluster)) :
    Op.Uses (KeyedReads keys) (Call.OnRobin keys) (ensureRBAC cluster) :=
  uses_bind (ensureServiceAccount_uses h) fun _ =>
    uses_bind (ensureRole_uses h) fun _ => ensureRoleBinding_uses h

theorem ensureRobinDeployment_uses (h : keys (robinKey cluster)) :
    Op.Uses (KeyedReads keys) (Call.OnRobin keys) (ensureRobinDeployment cluster) := by
  refine withExisting_uses h (uses_bind (uses_api h) fun _ => uses_metric trivial) ?_
  intro existing hkey
  split
  · exact uses_bind (uses_api hkey) fun _ => uses_metric trivial
  · trivial

theorem deleteIfPresent_uses {k : Kind} {key : NamespacedName} {text : String} (h : keys key) :
    Op.Uses (KeyedReads keys) (Call.OnRobin keys) (deleteIfPresent k key text) := by
  refine ⟨h, ?_⟩
  intro r _
  match r with
  | .ok _ => trivial
  | .error .notFound => trivial
  | .error .alreadyExists => trivial
  | .error .conflict => trivial
  | .error .other => trivial

theorem deleteRobinDeployment_uses (h : keys (robinKey cluster)) :
    Op.Uses (KeyedReads keys) (Call.OnRobin keys) (deleteRobinDeployment cluster) :=
  deleteIfPresent_uses h

theorem deleteRBAC_uses (h : keys (robinKey cluster)) :
    Op.Uses (KeyedReads keys) (Call.OnRobin keys) (deleteRBAC cluster) :=
  uses_bind (deleteIfPresent_uses h) fun _ =>
    uses_bind (deleteIfPresent_uses h) fun _ => deleteIfPresent_uses h

end Robin

/-! ## Requests, metrics and stages -/

section Triples

variable {σ α : Type} {M : Sem Call Resp σ} {G : (c : Call) → σ → Resp c → σ → Prop}
variable {I A : σ → Prop}

/-- Metric updates leave the state alone and need no guarantee. Every system
here has this, so that counters never get into an argument. -/
structure Quiet (M : Sem Call Resp σ) (G : (c : Call) → σ → Resp c → σ → Prop) : Prop where
  state : ∀ e s r s', M.exec (.metric e) s r s' → s' = s
  free : ∀ e s r, G (.metric e) s r s

/-- A request that has to succeed: what it leads to, and the invariant if it
fails. -/
theorem api_triple (hA : Stable M A) {c : Call} {Q : Payload c → σ → Prop}
    (h : ∀ s r s', A s → M.exec c s r s' → G c s r s' ∧ Outcome Q I r s') :
    Triple M G I A (api c) Q := by
  refine Triple.bind (Triple.request hA h) ?_
  intro r
  cases r with
  | ok a => exact Triple.pure fun _ h => h
  | error e => exact Triple.throw fun _ h => h

/-- What holds after a call that may also end with the error `e₀`. The
controller takes this error for success, so it has an assertion of its own. -/
def Tolerating {α : Type} (e₀ : ApiError) (Q : α → σ → Prop) (P I : σ → Prop) :
    Except ApiError α → σ → Prop
  | .ok a, s => Q a s
  | .error e, s => if e = e₀ then P s else I s

theorem tolerating_error {e₀ e : ApiError} {Q : α → σ → Prop} {P : σ → Prop} {s : σ} :
    Tolerating e₀ Q P I (.error e) s ↔ (e = e₀ → P s) ∧ (e ≠ e₀ → I s) := by
  by_cases he : e = e₀ <;> simp [Tolerating, he]

/-- A call that may be lost leaves the state in `A`, or in what its effect
leads to, which is only known to satisfy `I`. -/
theorem lossy_answer {c : Call} {O : Resp c → σ → Prop} (hAI : ∀ s, A s → I s)
    (hOI : ∀ r s, O r s → I s) (hout₀ : ∀ s, I s → O (lost c) s)
    (hlost : ∀ s r s', G c s r s' → G c s (lost c) s') (hidle : ∀ s, A s → G c s (lost c) s)
    (h : ∀ s r s', A s → M.exec c s r s' → G c s r s' ∧ O r s') :
    ∀ s r s', A s → (M.lossy lost).exec c s r s' → G c s r s' ∧ O r s' := by
  rintro s r s' hs (hexec | ⟨rfl, rfl | ⟨r₀, hexec⟩⟩)
  · -- answered
    exact h s r s' hs hexec
  · -- not made
    exact ⟨hidle _ hs, hout₀ _ (hAI _ hs)⟩
  · -- made, and the answer is lost
    obtain ⟨hG, hout⟩ := h s r₀ s' hs hexec
    exact ⟨hlost s r₀ s' hG, hout₀ s' (hOI r₀ s' hout)⟩

/-- The rule for a call that has to succeed. -/
theorem lossy_call {c : Call} {Q : Payload c → σ → Prop} (hAI : ∀ s, A s → I s)
    (hQI : ∀ a s, Q a s → I s) (hlost : ∀ s r s', G c s r s' → G c s (lost c) s')
    (hidle : ∀ s, A s → G c s (lost c) s)
    (h : ∀ s r s', A s → M.exec c s r s' → G c s r s' ∧ Outcome Q I r s') :
    ∀ s r s', A s → (M.lossy lost).exec c s r s' → G c s r s' ∧ Outcome Q I r s' := by
  refine lossy_answer hAI ?_ (fun _ hs => hs) hlost hidle h
  intro r s hs
  cases r with
  | ok a => exact hQI a s hs
  | error e => exact hs

/-- The rule for a call with an error that is tolerated. A lost call never
ends with that error. -/
theorem lossy_tolerating {c : Call} {e₀ : ApiError} (he₀ : e₀ ≠ .other)
    {Q : Payload c → σ → Prop} {P : σ → Prop} (hAI : ∀ s, A s → I s) (hQI : ∀ a s, Q a s → I s)
    (hPI : ∀ s, P s → I s) (hlost : ∀ s r s', G c s r s' → G c s (lost c) s')
    (hidle : ∀ s, A s → G c s (lost c) s)
    (h : ∀ s r s', A s → M.exec c s r s' → G c s r s' ∧ Tolerating e₀ Q P I r s') :
    ∀ s r s', A s → (M.lossy lost).exec c s r s' → G c s r s' ∧ Tolerating e₀ Q P I r s' := by
  refine lossy_answer hAI ?_ ?_ hlost hidle h
  · intro r s hs
    cases r with
    | ok a => exact hQI a s hs
    | error e =>
        obtain ⟨hP, hI⟩ := tolerating_error.mp hs
        exact (eq_or_ne e e₀).elim (fun he => hPI s (hP he)) hI
  · exact fun s hs => tolerating_error.mpr ⟨fun he => absurd he.symm he₀, fun _ => hs⟩

/-- Counting keeps everything. -/
theorem metric_triple (hq : Quiet M G) (hA : Stable M A) {e : MetricEvent} :
    Triple M G I A (metric e) fun _ => A := by
  refine Triple.bind (Q := fun _ => A) (Triple.request hA ?_) fun _ => Triple.pure fun _ h => h
  intro s r s' hs hexec
  rw [hq.state e s r s' hexec]
  exact ⟨hq.free e s r, hs⟩

/-- A stage adds a counter to its failure. -/
theorem staged_triple (hq : Quiet M G) (hI : Stable M I) {stage : Stage} {p : Rec α}
    {Q : α → σ → Prop} (hp : Triple M G I A p Q) : Triple M G I A (staged stage p) Q := by
  refine Triple.catchError hp ?_
  intro e
  exact Triple.bind (metric_triple hq hI) fun _ => Triple.throw fun _ h => h

/-- Every attempt, failed ones included, leaves the state ready for another
one. -/
theorem retryOnConflict_triple (hAI : ∀ s, A s → I s) {fn : Rec α} {Q : α → σ → Prop}
    (hfn : Triple M G A A fn Q) (n : ℕ) : Triple M G I A (retryOnConflict n fn) Q := by
  induction n with
  | zero => exact fun s hs => Op.wp_mono (fun _ _ h => h) (fun _ s h => hAI s h) (hfn s hs)
  | succ n ih =>
      refine Triple.catchError hfn ?_
      intro e
      match e with
      | .api .conflict => exact ih
      | .api .notFound => exact Triple.throw hAI
      | .api .alreadyExists => exact Triple.throw hAI
      | .api .other => exact Triple.throw hAI
      | .wrapped _ _ => exact Triple.throw hAI

/-! ## Configs -/

/-- The configs come back sorted by sequence. -/
theorem listConfigs_triple (hA : Stable M A) {cluster : Redkey}
    {Q : List RedkeyConfig → σ → Prop}
    (h : ∀ s r s', A s →
      M.exec (.listConfigs cluster.ns clusterLabel cluster.name .listConfigs) s r s' →
      G (.listConfigs cluster.ns clusterLabel cluster.name .listConfigs) s r s' ∧
        Outcome (fun items => Q (sortBySequence items)) I r s') :
    Triple M G I A (listConfigs cluster) Q :=
  Triple.bind (api_triple hA h) fun _ => Triple.pure fun _ h => h

/-- `createNewConfig` ends well when the config is created and when its name
is taken. -/
theorem createNewConfig_triple (hq : Quiet M G) (hA : Stable M A) {B : σ → Prop}
    (hB : Stable M B) {cluster : Redkey} {highestSeq : Option RedkeyConfig}
    (h : ∀ s r s', A s → M.exec (.createConfig (newConfig cluster highestSeq)) s r s' →
      G (.createConfig (newConfig cluster highestSeq)) s r s' ∧
        Tolerating .alreadyExists (fun _ => B) B I r s') :
    Triple M G I A (createNewConfig cluster highestSeq) fun _ => B := by
  refine Triple.bind (Triple.request hA h) ?_
  intro r
  match r with
  | .ok _ => exact metric_triple hq hB
  | .error .alreadyExists => exact Triple.pure fun _ h => h
  | .error .notFound => exact Triple.throw fun _ h => h
  | .error .conflict => exact Triple.throw fun _ h => h
  | .error .other => exact Triple.throw fun _ h => h

/-- The loop of `cleanupSupersededConfigs`: an assertion that each delete
keeps. -/
theorem deleteSuperseded_triple (hq : Quiet M G) (hA : Stable M A) (old kept : List RedkeyConfig)
    (h : ∀ c ∈ old, ∀ s r s', A s → M.exec (.deleteConfig c.key) s r s' →
      G (.deleteConfig c.key) s r s' ∧ A s') :
    Triple M G I A (deleteSuperseded old kept) fun res s =>
      A s ∧ (res.2 = none → res.1 = kept) := by
  induction old with
  | nil => exact Triple.pure fun s hs => ⟨hs, fun _ => rfl⟩
  | cons c old ih =>
      have ih := ih fun c hc => h c (List.mem_cons_of_mem _ hc)
      refine Triple.bind (Triple.request (Q := fun _ => A) hA (h c List.mem_cons_self)) ?_
      intro r
      match r with
      -- Triple => deleted and counted; NotFound is passed over; anything else ends the loop
      | .ok _ => exact Triple.bind (metric_triple hq hA) fun _ => ih
      | .error .notFound => exact ih
      | .error .alreadyExists => exact Triple.pure fun s hs => ⟨hs, fun h => by cases h⟩
      | .error .conflict => exact Triple.pure fun s hs => ⟨hs, fun h => by cases h⟩
      | .error .other => exact Triple.pure fun s hs => ⟨hs, fun h => by cases h⟩

/-- The same loop, with an assertion about what is left of the list and
another one for the loop that was broken off. -/
theorem deleteSuperseded_rest_triple (hq : Quiet M G) {A : List RedkeyConfig → σ → Prop}
    {J : σ → Prop} (hA : ∀ rest, Stable M (A rest)) (old kept : List RedkeyConfig)
    (h : ∀ c rest, c :: rest <:+ old → ∀ s r s', A (c :: rest) s →
      M.exec (.deleteConfig c.key) s r s' →
      G (.deleteConfig c.key) s r s' ∧ Tolerating .notFound (fun _ => A rest) (A rest) J r s') :
    Triple M G I (A old) (deleteSuperseded old kept) fun res s =>
      (res.2 = none → res.1 = kept ∧ A [] s) ∧ (res.2 ≠ none → J s) := by
  -- a loop that was broken off returns its error in the result
  have hfail : ∀ res : List RedkeyConfig × Option Err, res.2 ≠ none → ∀ s, J s →
      (res.2 = none → res.1 = kept ∧ A [] s) ∧ (res.2 ≠ none → J s) :=
    fun res hres s hs => ⟨fun hnone => absurd hnone hres, fun _ => hs⟩
  induction old with
  | nil => exact Triple.pure fun s hs => ⟨fun _ => ⟨rfl, hs⟩, fun hne => absurd rfl hne⟩
  | cons c old ih =>
      have ih := ih fun d rest hrest => h d rest (hrest.trans (List.suffix_cons c old))
      refine Triple.bind (Triple.request (hA _) (h c old List.suffix_rfl)) ?_
      intro r
      match r with
      | .ok _ => exact Triple.bind (metric_triple hq (hA old)) fun _ => ih
      | .error .notFound => exact ih
      | .error .alreadyExists => exact Triple.pure (hfail _ (by simp))
      | .error .conflict => exact Triple.pure (hfail _ (by simp))
      | .error .other => exact Triple.pure (hfail _ (by simp))

/-- Cleanup deletes configs that stand before an Applied one in the list. -/
theorem cleanupSupersededConfigs_triple (hq : Quiet M G) (hA : Stable M A)
    (configs : List RedkeyConfig)
    (h : ∀ i, lastApplied configs = some i → ∀ c ∈ configs.take i, ∀ s r s', A s →
      M.exec (.deleteConfig c.key) s r s' → G (.deleteConfig c.key) s r s' ∧ A s') :
    Triple M G I A (cleanupSupersededConfigs configs) fun res s =>
      A s ∧ (res.2 = none → res.1 = afterCleanup configs) := by
  unfold cleanupSupersededConfigs afterCleanup
  split
  · exact Triple.pure fun s hs => ⟨hs, fun _ => rfl⟩
  · cases hlast : lastApplied configs with
    | none => exact Triple.pure fun s hs => ⟨hs, fun _ => rfl⟩
    | some i => exact deleteSuperseded_triple hq hA _ _ (h i hlast)

/-- The loop of `deleteAllConfigs`: an assertion about what is left of the
list. -/
theorem deleteConfigs_triple {A : List RedkeyConfig → σ → Prop} (hA : ∀ rest, Stable M (A rest))
    (items : List RedkeyConfig)
    (h : ∀ c rest, c :: rest <:+ items → ∀ s r s', A (c :: rest) s →
      M.exec (.deleteConfig c.key) s r s' →
      G (.deleteConfig c.key) s r s' ∧ Tolerating .notFound (fun _ => A rest) (A rest) I r s') :
    Triple M G I (A items) (deleteConfigs items) fun _ => A [] := by
  induction items with
  | nil => exact Triple.pure fun _ hs => hs
  | cons c items ih =>
      have ih := ih fun d rest hrest => h d rest (hrest.trans (List.suffix_cons c items))
      refine Triple.bind (Triple.request (hA _) (h c items List.suffix_rfl)) ?_
      intro r
      match r with
      | .ok _ => exact ih
      | .error .notFound => exact ih
      | .error .alreadyExists => exact Triple.throw fun _ hs => hs
      | .error .conflict => exact Triple.throw fun _ hs => hs
      | .error .other => exact Triple.throw fun _ hs => hs

/-- `aggregateStatus`: a failed attempt leaves `A`, with `B` between the read
and the write, and a write that succeeds leads to `P`. -/
theorem aggregateStatus_writes_triple (hAI : ∀ s, A s → I s) (hA : Stable M A) {now : Time}
    {cluster : Redkey} {configs : List RedkeyConfig} {B : Redkey → σ → Prop} {P : σ → Prop}
    (hB : ∀ latest, Stable M (B latest))
    (hnone : selectActiveConfig configs = none → ∀ s, A s → P s)
    (hget : ∀ s r s', A s → M.exec (.getRedkey cluster.key .aggregateStatus) s r s' →
      G (.getRedkey cluster.key .aggregateStatus) s r s' ∧ Outcome B A r s')
    (hput : ∀ activeConfig, selectActiveConfig configs = some activeConfig →
      ∀ (latest : Redkey) s r s', B latest s →
      M.exec (.updateRedkeyStatus { latest with
        status := aggregatedStatus now cluster.generation latest activeConfig }) s r s' →
      G (.updateRedkeyStatus { latest with
        status := aggregatedStatus now cluster.generation latest activeConfig }) s r s' ∧
        Outcome (fun _ => P) A r s') :
    Triple M G I A (aggregateStatus now cluster configs) fun _ => P := by
  unfold aggregateStatus
  split
  case _ hactive => exact Triple.pure (hnone hactive)
  case _ activeConfig hactive =>
    refine retryOnConflict_triple hAI ?_ _
    refine Triple.bind (Q := B) (api_triple hA hget) fun latest => ?_
    exact Triple.bind (api_triple (hB latest) (hput activeConfig hactive latest)) fun _ =>
      Triple.pure fun _ h => h

/-- `aggregateStatus`: read and write attempts that both keep `A`, with `B` in
between. -/
theorem aggregateStatus_triple (hAI : ∀ s, A s → I s) (hA : Stable M A) {now : Time}
    {cluster : Redkey} {configs : List RedkeyConfig} {B : Redkey → σ → Prop}
    (hB : ∀ latest, Stable M (B latest))
    (hget : ∀ s r s', A s → M.exec (.getRedkey cluster.key .aggregateStatus) s r s' →
      G (.getRedkey cluster.key .aggregateStatus) s r s' ∧ Outcome B A r s')
    (hput : ∀ activeConfig, selectActiveConfig configs = some activeConfig →
      ∀ (latest : Redkey) s r s', B latest s →
      M.exec (.updateRedkeyStatus { latest with
        status := aggregatedStatus now cluster.generation latest activeConfig }) s r s' →
      G (.updateRedkeyStatus { latest with
        status := aggregatedStatus now cluster.generation latest activeConfig }) s r s' ∧ A s') :
    Triple M G I A (aggregateStatus now cluster configs) fun _ => A := by
  refine aggregateStatus_writes_triple hAI hA hB (fun _ _ h => h) hget ?_
  intro activeConfig hactive latest s r s' hs hexec
  obtain ⟨hG, hA'⟩ := hput activeConfig hactive latest s r s' hs hexec
  refine ⟨hG, ?_⟩
  cases r with
  | ok _ => exact hA'
  | error _ => exact hA'

/-! ## The reconcile -/

variable {cluster : Redkey} {now : Time} {r : RedkeyReconciler}

/-- The four cases of a reconcile with `primaries = 0`, from the assertion
`Zero` about the list it starts with. -/
theorem reconcileScaleToZero_triple {P : σ → Prop} (Zero : List RedkeyConfig → σ → Prop)
    (hlist : Triple M G I A (listConfigs cluster) Zero)
    (hA : Triple M G I (Zero []) (updateStatusScaledToZero now cluster) fun _ => P)
    (hB : ∀ L c, L.getLast? = some c → c.spec.primaries ≠ 0 →
      Triple M G I (Zero L) (do
        ensureRBAC cluster
        ensureRobinDeployment cluster
        createNewConfig cluster (some c)) fun _ => P)
    (hC : ∀ L c, L.getLast? = some c → c.spec.primaries = 0 → c.status.configPhase = .applied →
      Triple M G I (Zero L) (do
        deleteRobinDeployment cluster
        deleteRBAC cluster
        deleteAllConfigs cluster
        updateStatusScaledToZero now cluster) fun _ => P)
    (hD : ∀ L c, L.getLast? = some c → c.spec.primaries = 0 → c.status.configPhase ≠ .applied →
      Triple M G I (Zero L) (do
        ensureRBAC cluster
        ensureRobinDeployment cluster
        aggregateStatus now cluster L) fun _ => P) :
    Triple M G I A (reconcileScaleToZero r now cluster) fun _ => P := by
  refine Triple.bind hlist ?_
  intro L s hs
  cases hL : L.getLast? with
  | none =>
      -- everything is deleted already, and only the status is left to write
      rw [List.getLast?_eq_none_iff] at hL
      subst hL
      simp only [Op.wp_bind, Op.wp_pure]
      exact hA s hs
  | some c =>
      by_cases hp : c.spec.primaries = 0
      · by_cases hphase : c.status.configPhase = .applied
        · simpa only [hp, hphase, ne_eq, not_true_eq_false, if_false, if_true, Op.wp_bind, Op.wp_pure]
            using hC L c hL hp hphase s hs
        · simpa only [hp, hphase, ne_eq, not_true_eq_false, if_false, Op.wp_bind, Op.wp_pure]
            using hD L c hL hp hphase s hs
      · simpa only [hp, ne_eq, not_false_eq_true, if_true, Op.wp_bind, Op.wp_pure]
          using hB L c hL hp s hs

/-- The stages of a reconcile with `primaries ≠ 0`, each with the assertion it
starts from. -/
theorem reconcileConfigs_triple {P Rbac Up : σ → Prop} (Listed : List RedkeyConfig → σ → Prop)
    (Made : σ → Prop) (Settle Kept : List RedkeyConfig → σ → Prop)
    (hq : Quiet M G) (hI : Stable M I) (hP : Stable M P)
    (hrbac : Triple M G I A (ensureRBAC cluster) fun _ => Rbac)
    (hdeployment : Triple M G I Rbac (ensureRobinDeployment cluster) fun _ => Up)
    (hlist : Triple M G I Up (listConfigs cluster) Listed)
    (hcreate : ∀ L, L = [] ∨ needsNewConfig cluster L.getLast? = true →
      Triple M G I (Listed L) (createNewConfig cluster L.getLast?) fun _ => Made)
    (hrelist : Triple M G I Made (listConfigs cluster) Settle)
    (hskip : ∀ L s, L ≠ [] → needsNewConfig cluster L.getLast? = false → Listed L s → Settle L s)
    (hnone : ∀ s, Settle [] s → P s)
    (hcleanup : ∀ L, L ≠ [] → Triple M G I (Settle L) (cleanupSupersededConfigs L)
      fun res s => (res.2 = none → Kept res.1 s) ∧ (res.2 ≠ none → I s))
    (haggregate : ∀ L, Triple M G I (Kept L) (aggregateStatus now cluster L) fun _ => P) :
    Triple M G I A (reconcileConfigs r now cluster) fun _ => P := by
  -- a list that is up to date is passed on, any other one is read again
  have hensure : ∀ L, Triple M G I (Listed L) (ensureConfig cluster L) Settle := by
    intro L
    unfold ensureConfig
    split
    case isTrue h =>
      have hneed : L = [] ∨ needsNewConfig cluster L.getLast? = true := by
        simpa [List.isEmpty_iff] using h
      exact Triple.bind (staged_triple hq hI (hcreate L hneed)) fun _ =>
        staged_triple hq hI hrelist
    case isFalse h =>
      have hno : L ≠ [] ∧ needsNewConfig cluster L.getLast? = false := by
        simpa [List.isEmpty_iff] using h
      exact Triple.pure fun s hs => hskip L s hno.1 hno.2 hs
  -- a failed cleanup ends the reconcile before the status is aggregated
  have hsettle : ∀ L, Triple M G I (Settle L) (settleConfigs now cluster L) fun _ => P := by
    intro L
    unfold settleConfigs
    split
    case isTrue h =>
      obtain rfl := List.isEmpty_iff.mp h
      exact Triple.pure hnone
    case isFalse h =>
      have hne : L ≠ [] := by simpa [List.isEmpty_iff] using h
      refine Triple.bind (Q := Kept) (staged_triple hq hI (Triple.bind (hcleanup L hne) ?_)) ?_
      · rintro ⟨kept, err⟩
        cases err with
        | none => exact Triple.pure fun s hs => hs.1 rfl
        | some e => exact Triple.throw fun s hs => hs.2 (by simp)
      · intro kept
        exact Triple.bind (staged_triple hq hI (haggregate kept)) fun _ => Triple.pure fun _ h => h
  refine Triple.bind (staged_triple hq hI hrbac) fun _ => ?_
  refine Triple.bind (staged_triple hq hI hdeployment) fun _ => ?_
  refine Triple.bind (staged_triple hq hI hlist) fun L => ?_
  refine Triple.bind (hensure L) fun L' => ?_
  refine Triple.bind (hsettle L') ?_
  rintro ⟨cluster', kept⟩
  exact Triple.bind (metric_triple hq hP) fun _ => Triple.pure fun _ h => h

/-- A reconcile starts by reading the Redkey, and works on what it read. A
Redkey that is gone is no failure. -/
theorem reconcile_triple (At : Redkey → σ → Prop) {P : σ → Prop} {req : NamespacedName}
    (hq : Quiet M G) (hI : Stable M I) (hP : Stable M P) (hA : Stable M A)
    (hget : ∀ s r s', A s → M.exec (.getRedkey req .reconcile) s r s' →
      G (.getRedkey req .reconcile) s r s' ∧ Tolerating .notFound At P I r s')
    (hzero : ∀ cluster : Redkey, cluster.spec.primaries = 0 →
      Triple M G I (At cluster) (reconcileScaleToZero r now cluster) fun _ => P)
    (hconfigs : ∀ cluster : Redkey, cluster.spec.primaries ≠ 0 →
      Triple M G I (At cluster) (reconcileConfigs r now cluster) fun _ => P) :
    Triple M G I A (reconcile r now req) fun _ => P := by
  -- any error but NotFound is counted and passed on
  have hfail : ∀ e : ApiError, Triple M G I I
      (do metric (.stageError .getCluster); throw (.api e) : Rec Result) fun _ => P :=
    fun e => Triple.bind (metric_triple hq hI) fun _ => Triple.throw fun _ h => h
  refine Triple.bind (Triple.request hA hget) ?_
  intro x
  match x with
  | .error .notFound =>
      exact Triple.bind (metric_triple hq hP) fun _ => Triple.pure fun _ h => h
  | .error .alreadyExists => exact hfail .alreadyExists
  | .error .conflict => exact hfail .conflict
  | .error .other => exact hfail .other
  | .ok cluster =>
      by_cases hp : (cluster : Redkey).spec.primaries = 0
      · intro s hs
        simp only [hp, if_true]
        refine Triple.bind (staged_triple hq hI (hzero cluster hp)) ?_ s hs
        rintro ⟨res, cluster'⟩
        exact Triple.bind (metric_triple hq hP) fun _ => Triple.pure fun _ h => h
      · intro s hs
        simp only [hp, if_false]
        exact hconfigs cluster hp s hs

end Triples

/-! ## The requests of a run -/

/-- The trace of a single request. -/
theorem traces_api {σ : Type} {M : Sem Call Resp σ} {c : Call} {s s' : σ}
    {tr : List (Event Call Resp)} {x : Except Err (Payload c)} :
    Traces M (api c) s tr x s' ↔ ∃ r : Resp c, M.exec c s r s' ∧ tr = [⟨c, r⟩] ∧
      x = match r with
        | .ok a => .ok a
        | .error e => .error (.api e) := by
  constructor
  · rintro ⟨r, s₁, rest, hexec, rfl, hrest⟩
    cases r with
    | ok a =>
        obtain ⟨rfl, rfl, rfl⟩ := hrest
        exact ⟨_, hexec, rfl, rfl⟩
    | error e =>
        obtain ⟨rfl, rfl, rfl⟩ := hrest
        exact ⟨_, hexec, rfl, rfl⟩
  · rintro ⟨r, hexec, rfl, rfl⟩
    refine ⟨r, s', [], hexec, rfl, ?_⟩
    cases r with
    | ok a => exact ⟨rfl, rfl, rfl⟩
    | error e => exact ⟨rfl, rfl, rfl⟩

end RedkeyOperator
