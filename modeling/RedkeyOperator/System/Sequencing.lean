import RedkeyOperator.System.LaggingRules

/-!
# Sequence order is spec order

As long as nothing is torn down, the configs ever created are numbered `1, 2, 3, …`
without gap or reuse, in the order of the generations they were created for, and the
last one is still there (`created_in_spec_order`).

The sequence number is computed from a list that may be outdated. What saves it is that
cleanup deletes only configs it has read, and never the last one of a list. So a config
with a number above everything in the last-read version is still on the server
(`Sequenced.recent`), and a create request for an outdated number runs into it.
-/

namespace RedkeyOperator

open Interleaved

/-- `created` is the history of the configs, with `configs` as what is left of
it. The last three fields compare the history with the versions a list can
still return. -/
structure Sequenced (key : NamespacedName) (configs : Lag (List RedkeyConfig))
    (created : List RedkeyConfig) : Prop where
  numbered : ∀ (i : ℕ) c, created[i]? = some c → c.spec.sequence = i + 1
  /-- A later config is of a later generation. -/
  increasing : created.Pairwise fun c d => c.gen < d.gen
  /-- All of them were made by `newConfig` for this cluster. -/
  ofCluster : ∀ c ∈ created, c.OfCluster key
  known : ∀ L ∈ configs.versions, ∀ c ∈ L, ∃ e ∈ created, c.Same e
  newest : ∀ e, created.getLast? = some e → ∃ d ∈ configs.live, d.Same e
  /-- Later versions reach at least as high as earlier ones. -/
  tops : configs.Ordered fun L L' => ∀ c ∈ L, ∃ d ∈ L', c.spec.sequence ≤ d.spec.sequence
  /-- What no list has shown yet is there as well. -/
  recent : ∀ e ∈ created, (∀ c ∈ configs.head, c.spec.sequence < e.spec.sequence) →
    ∃ d ∈ configs.live, d.Same e

namespace Sequenced

variable {key : NamespacedName} {configs : Lag (List RedkeyConfig)} {created : List RedkeyConfig}

theorem sequence_le (h : Sequenced key configs created) {e : RedkeyConfig} (he : e ∈ created) :
    e.spec.sequence ≤ created.length := by
  obtain ⟨i, hi, hget⟩ := List.getElem_of_mem he
  have hseq := h.numbered i e (by rw [List.getElem?_eq_getElem hi, hget])
  omega

theorem exists_sequence (h : Sequenced key configs created) {n : Int} (hpos : 1 ≤ n)
    (hle : n ≤ created.length) : ∃ e ∈ created, e.spec.sequence = n := by
  obtain ⟨i, hi⟩ := Int.eq_ofNat_of_zero_le (show 0 ≤ n - 1 by omega)
  have hlt : i < created.length := by omega
  refine ⟨created[i], List.getElem_mem hlt, ?_⟩
  rw [h.numbered i _ (List.getElem?_eq_getElem hlt)]
  omega

theorem last_sequence (h : Sequenced key configs created) {e : RedkeyConfig}
    (he : created.getLast? = some e) : e.spec.sequence = created.length := by
  have hne : created ≠ [] := by
    rintro rfl
    cases he
  have hpos := List.length_pos_iff.mpr hne
  rw [List.getLast?_eq_getElem?] at he
  have hseq := h.numbered _ e he
  omega

/-- No version holds a sequence that was not given out. -/
theorem sequence_le_of_mem (h : Sequenced key configs created) {L : List RedkeyConfig}
    {c : RedkeyConfig} (hL : L ∈ configs.versions) (hc : c ∈ L) :
    c.spec.sequence ≤ created.length := by
  obtain ⟨e, he, -, hspec⟩ := h.known L hL c hc
  rw [hspec]
  exact h.sequence_le he

/-- The config with the last number is the one created last, whose generation
is the highest. -/
theorem gen_le_of_sequence (h : Sequenced key configs created) {d e : RedkeyConfig}
    (hd : d ∈ created) (he : e ∈ created) (hseq : d.spec.sequence = created.length) :
    e.gen ≤ d.gen := by
  obtain ⟨i, hi, rfl⟩ := List.getElem_of_mem he
  obtain ⟨j, hj, rfl⟩ := List.getElem_of_mem hd
  have hjlast := h.numbered j _ (List.getElem?_eq_getElem hj)
  rcases Nat.lt_or_eq_of_le (show i ≤ j by omega) with hlt | rfl
  · exact (List.pairwise_iff_getElem.mp h.increasing i j hi hj hlt).le
  · exact le_refl _

theorem nil : Sequenced key ⟨[], []⟩ [] where
  numbered i c h := by simp at h
  increasing := List.Pairwise.nil
  ofCluster c hc := by cases hc
  known L hL c hc := by
    obtain rfl : L = [] := by simpa [Lag.versions] using hL
    cases hc
  newest e he := by cases he
  tops := List.pairwise_singleton _ _
  recent e he := by cases he

theorem list (h : Sequenced key configs created) {l : Lag (List RedkeyConfig)}
    (hl : configs.Read l) : Sequenced key l created where
  numbered := h.numbered
  increasing := h.increasing
  ofCluster := h.ofCluster
  known L hL := h.known L (hl.mem hL)
  newest := by
    rw [hl.1]
    exact h.newest
  tops := h.tops.read hl
  recent e he hnew := by
    rw [hl.1]
    refine h.recent e he fun c hc => ?_
    -- the version read now reaches at least as high as the one read before
    rcases h.tops.head (hl.mem Lag.head_mem) with heq | htop
    · exact hnew c (heq ▸ hc)
    · obtain ⟨d, hd, hle⟩ := htop c hc
      exact lt_of_le_of_lt hle (hnew d hd)

/-- A new version of the configs that keeps what has to be kept. -/
theorem commit (h : Sequenced key configs created) {L : List RedkeyConfig}
    (hknown : ∀ c ∈ L, ∃ e ∈ created, c.Same e)
    (hnewest : ∀ e, created.getLast? = some e → ∃ d ∈ L, d.Same e)
    (hrecent : ∀ e ∈ created, (∀ c ∈ configs.head, c.spec.sequence < e.spec.sequence) →
      ∃ d ∈ L, d.Same e) : Sequenced key (configs.commit L) created where
  numbered := h.numbered
  increasing := h.increasing
  ofCluster := h.ofCluster
  known := by simpa [or_imp, forall_and] using ⟨h.known, hknown⟩
  newest := hnewest
  tops := by
    refine Lag.ordered_commit.mpr ⟨h.tops, ?_⟩
    intro L' hL' c hc
    obtain ⟨e, he, -⟩ := h.known L' hL' c hc
    obtain ⟨last, hlast⟩ : ∃ last, created.getLast? = some last :=
      Option.isSome_iff_exists.mp (List.getLast?_isSome.mpr (List.ne_nil_of_mem he))
    obtain ⟨d, hd, hsame⟩ := hnewest last hlast
    refine ⟨d, hd, ?_⟩
    rw [hsame.2, h.last_sequence hlast]
    exact h.sequence_le_of_mem hL' hc
  recent := by simpa using hrecent

/-- A report leaves every config there, with its metadata and its spec. -/
theorem robinWrite (h : Sequenced key configs created) (k : NamespacedName)
    (status : RedkeyConfigStatus) :
    Sequenced key (configs.commit (Configs.robinWrite configs.live k status)) created := by
  have hkeep : ∀ e, (∃ d ∈ configs.live, d.Same e) →
      ∃ d ∈ Configs.robinWrite configs.live k status, d.Same e := by
    rintro e ⟨d, hd, hsame⟩
    refine ⟨_, List.mem_map_of_mem hd, ?_⟩
    split
    · exact hsame
    · exact hsame
  refine h.commit ?_ (fun e he => hkeep e (h.newest e he)) fun e he hnew =>
    hkeep e (h.recent e he hnew)
  intro c hc
  obtain ⟨d, hd, hmeta, hspec, -⟩ := Configs.mem_robinWrite hc
  obtain ⟨e, he, hsame⟩ := h.known _ Lag.live_mem d hd
  exact ⟨e, he, hmeta.trans hsame.1, hspec.trans hsame.2⟩

/-- Deleting a config of the last-read version that is not the last one in
it. -/
theorem erase (h : Sequenced key configs created) {c d : RedkeyConfig} (hc : c ∈ configs.head)
    (hd : d ∈ configs.head) (hlt : c.spec.sequence < d.spec.sequence) :
    Sequenced key (configs.commit (Configs.erase configs.live c.key)) created := by
  have hof : c.OfCluster key := by
    obtain ⟨e, he, hsame⟩ := h.known _ Lag.head_mem c hc
    exact hsame.ofCluster (h.ofCluster e he)
  -- only the config with the sequence of `c` goes
  have hkeep : ∀ e ∈ created, c.spec.sequence < e.spec.sequence →
      (∃ d ∈ configs.live, d.Same e) → ∃ d ∈ Configs.erase configs.live c.key, d.Same e := by
    rintro e he hseq ⟨b, hb, hsame⟩
    refine ⟨b, Configs.mem_erase.mpr ⟨hb, ?_⟩, hsame⟩
    rw [hsame.key, ne_eq, (h.ofCluster e he).key_eq_iff hof]
    exact hseq.ne'
  refine h.commit ?_ ?_ ?_
  · exact fun b hb => h.known _ Lag.live_mem b (Configs.mem_erase.mp hb).1
  · intro e he
    refine hkeep e (List.mem_of_getLast? he) ?_ (h.newest e he)
    rw [h.last_sequence he]
    exact lt_of_lt_of_le hlt (h.sequence_le_of_mem Lag.head_mem hd)
  · intro e he hnew
    exact hkeep e he (hnew c hc) (h.recent e he hnew)

/-- A create request that succeeds carries the next number. -/
theorem nextSequence_eq (h : Sequenced key configs created) {L : List RedkeyConfig}
    {new : RedkeyConfig} (hperm : L.Perm configs.head)
    (hsorted : L.Pairwise fun c d => c.spec.sequence < d.spec.sequence)
    (hnew : new.OfCluster key) (hseq : new.spec.sequence = nextSequence L.getLast?)
    (hfresh : ∀ d ∈ configs.live, d.key ≠ new.key) :
    new.spec.sequence = created.length + 1 := by
  have hbelow : ∀ c ∈ configs.head, c.spec.sequence < new.spec.sequence := fun c hc =>
    hseq ▸ lt_nextSequence (hsorted.imp fun hlt => hlt.le) (hperm.mem_iff.mpr hc)
  have hle : new.spec.sequence ≤ created.length + 1 := by
    cases hlast : L.getLast? with
    | none =>
        rw [hseq, hlast]
        simp [nextSequence]
    | some last =>
        have hmem := hperm.mem_iff.mp (List.mem_of_getLast? hlast)
        have := h.sequence_le_of_mem Lag.head_mem hmem
        rw [hseq, hlast]
        simpa [nextSequence] using this
  refine le_antisymm hle ?_
  by_contra hgt
  -- a number given out before, above everything in the last-read version: still on the server
  obtain ⟨e, he, hnum⟩ := h.exists_sequence hnew.positive (by omega)
  obtain ⟨d, hd, hsame⟩ := h.recent e he fun c hc => hnum ▸ hbelow c hc
  refine hfresh d hd ?_
  rw [hsame.key, (h.ofCluster e he).key_eq_iff hnew, hnum]

/-- The last config of the list is the last one created, so the new one is of
a later generation than all of them. -/
theorem gen_lt_of_getLast (h : Sequenced key configs created) {L : List RedkeyConfig}
    {new : RedkeyConfig} (hperm : L.Perm configs.head)
    (hseq : new.spec.sequence = nextSequence L.getLast?)
    (hnext : new.spec.sequence = created.length + 1)
    (hgen : ∀ c, L.getLast? = some c → c.gen < new.gen) : ∀ e ∈ created, e.gen < new.gen := by
  intro e he
  have hpos := List.length_pos_of_mem he
  cases hL : L.getLast? with
  | none =>
      rw [hL] at hseq
      simp only [nextSequence] at hseq
      omega
  | some c =>
      rw [hL] at hseq
      simp only [nextSequence] at hseq
      have hmem := hperm.mem_iff.mp (List.mem_of_getLast? hL)
      obtain ⟨d, hd, hsame⟩ := h.known _ Lag.head_mem c hmem
      have hnum : d.spec.sequence = created.length := by
        rw [← hsame.2]
        omega
      calc e.gen ≤ d.gen := h.gen_le_of_sequence hd he hnum
        _ = c.gen := hsame.gen.symm
        _ < new.gen := hgen c hL

/-- A create request is accepted: the history grows by the next number, of a
later generation. -/
theorem create (h : Sequenced key configs created) {L : List RedkeyConfig} {new : RedkeyConfig}
    (hperm : L.Perm configs.head)
    (hsorted : L.Pairwise fun c d => c.spec.sequence < d.spec.sequence)
    (hnew : new.OfCluster key) (hseq : new.spec.sequence = nextSequence L.getLast?)
    (hgen : ∀ c, L.getLast? = some c → c.gen < new.gen)
    (hfresh : ∀ d ∈ configs.live, d.key ≠ new.key) :
    Sequenced key (configs.commit (configs.live ++ [new])) (created ++ [new]) := by
  -- that the name is free is what makes the number the next one
  have hnext := h.nextSequence_eq hperm hsorted hnew hseq hfresh
  have hlast := h.gen_lt_of_getLast hperm hseq hnext hgen
  refine
    { numbered := ?numbered, increasing := ?increasing, ofCluster := ?ofCluster
      known := ?known, newest := ?newest, tops := ?tops, recent := ?recent }
  case numbered =>
    intro i c hi
    rw [List.getElem?_append] at hi
    split at hi
    case isTrue => exact h.numbered i c hi
    case isFalse hge =>
      obtain ⟨hzero, rfl⟩ : i - created.length = 0 ∧ new = c := by
        simpa [List.getElem?_singleton] using hi
      omega
  case increasing =>
    simpa [List.pairwise_append] using ⟨h.increasing, hlast⟩
  case ofCluster =>
    simpa [or_imp, forall_and] using ⟨h.ofCluster, hnew⟩
  case known =>
    intro L' hL' c hc
    rcases List.mem_append.mp (Lag.versions_commit ▸ hL') with hold | hlive
    · obtain ⟨e, he, hsame⟩ := h.known L' hold c hc
      exact ⟨e, List.mem_append_left _ he, hsame⟩
    · obtain rfl := List.mem_singleton.mp hlive
      rcases List.mem_append.mp hc with hc | hc
      · obtain ⟨e, he, hsame⟩ := h.known _ Lag.live_mem c hc
        exact ⟨e, List.mem_append_left _ he, hsame⟩
      · obtain rfl := List.mem_singleton.mp hc
        exact ⟨c, by simp, rfl, rfl⟩
  case newest =>
    intro e he
    obtain rfl : new = e := by simpa using he
    exact ⟨new, by simp, rfl, rfl⟩
  case tops =>
    refine Lag.ordered_commit.mpr ⟨h.tops, ?_⟩
    intro L' hL' c hc
    refine ⟨new, by simp, ?_⟩
    have := h.sequence_le_of_mem hL' hc
    omega
  case recent =>
    intro e he hnew'
    rw [Lag.head_commit] at hnew'
    rcases List.mem_append.mp he with he | he
    · obtain ⟨d, hd, hsame⟩ := h.recent e he hnew'
      exact ⟨d, List.mem_append_left _ hd, hsame⟩
    · obtain rfl := List.mem_singleton.mp he
      exact ⟨e, by simp, rfl, rfl⟩

end Sequenced

/-! ## Whole runs -/

/-- `deleteAllConfigs` is never executed. -/
def NoTeardown (c : Call) (_ : View) : Prop := c.listsForDeletion = false

instance (c : Call) (v : View) : Decidable (NoTeardown c v) :=
  inferInstanceAs (Decidable (c.listsForDeletion = false))

/-- The numbering survives every step; the teardown is out of the question. -/
theorem sequenced_laws (key : NamespacedName) :
    View.Laws key NoTeardown fun g v => g ≠ .torn ∧ Sequenced key v.configs v.created where
  weaken _ _ h := ⟨by simp, h.2⟩
  env g v v' _ h hstep := by
    refine ⟨h.1, ?_⟩
    cases hstep with
    | userUpdate => exact h.2
    | robinWrite k status => exact h.2.robinWrite k status
  start _ _ _ h _ := h
  read _ _ _ _ h _ := h
  write _ _ _ _ _ h _ _ _ := h
  list _ _ _ _ h hread := ⟨h.1, h.2.list hread⟩
  create v L hbasic h hlists hgen _ hfresh := by
    obtain ⟨hof, hnew, -⟩ := hbasic.newConfig hlists
    refine ⟨by simp, h.2.create hlists.perm hlists.strict hof rfl ?_ hfresh⟩
    intro c hc
    rw [hnew]
    exact hgen c hc
  found _ _ _ h _ _ _ := ⟨by simp, h.2⟩
  skip _ _ _ h _ _ _ := ⟨by simp, h.2⟩
  cleanup v L c d _ h hlists hc hd hlt :=
    ⟨by simp, h.2.erase (hlists.perm.mem_iff.mp hc) (hlists.perm.mem_iff.mp hd) hlt⟩
  teardown _ _ _ _ _ hok _ := by cases hok
  tear _ _ _ h _ _ := absurd rfl h.1

/-- The configs ever created are numbered without gap or reuse, a later one
has the larger number and the larger generation, and the one with the highest
number is still there. -/
theorem created_in_spec_order (fill : Deployment → Deployment) (key : NamespacedName)
    {m : Machine Call Resp (Except Err Result) Lagging}
    (hm : Reachable (laggingRuns fill NoTeardown) (Reconciles key) (fun s => s.view.Init key) m) :
    m.shared.view.created.map (·.spec.sequence) =
      (List.range m.shared.view.created.length).map (fun i : ℕ => (i : Int) + 1) ∧
    m.shared.view.created.Pairwise (fun c d => c.spec.sequence < d.spec.sequence ∧
      ∃ g g', c.generation? = some g ∧ d.generation? = some g' ∧ g < g') ∧
    ∀ c ∈ m.shared.view.created,
      (∀ d ∈ m.shared.view.created, d.spec.sequence ≤ c.spec.sequence) →
      ∃ d ∈ m.shared.view.configs.live, d.key = c.key ∧ d.Same c := by
  have hinit : ∀ v : View, v.Init key →
      v.Init key ∧ Progress.idle ≠ .torn ∧ Sequenced key v.configs v.created := by
    intro v hv
    rw [hv.configs, hv.created]
    exact ⟨hv, by simp, Sequenced.nil⟩
  -- the invariant holds in all reachable states
  obtain ⟨-, -, h⟩ := (sequenced_laws key).reachable hinit hm
  refine ⟨?_, ?_, ?_⟩
  · refine List.ext_getElem (by simp) ?_
    intro i hi _
    rw [List.getElem_map, List.getElem_map, List.getElem_range]
    exact h.numbered i _ (List.getElem?_eq_getElem (by simpa using hi))
  · rw [List.pairwise_iff_getElem]
    intro i j hi hj hij
    have hnumber := h.numbered i _ (List.getElem?_eq_getElem hi)
    have hnumber' := h.numbered j _ (List.getElem?_eq_getElem hj)
    have hdated := (h.ofCluster _ (List.getElem_mem hi)).dated
    have hdated' := (h.ofCluster _ (List.getElem_mem hj)).dated
    have hgen := List.pairwise_iff_getElem.mp h.increasing i j hi hj hij
    refine ⟨?_, _, _, hdated, hdated', hgen⟩
    rw [hnumber, hnumber']
    omega
  · intro c hc hmax
    obtain ⟨last, hlast⟩ : ∃ last, m.shared.view.created.getLast? = some last :=
      Option.isSome_iff_exists.mp (List.getLast?_isSome.mpr (List.ne_nil_of_mem hc))
    -- the highest number is the last one given out
    have hle : c.spec.sequence ≤ last.spec.sequence := h.last_sequence hlast ▸ h.sequence_le hc
    have hseq : c.spec.sequence = last.spec.sequence :=
      le_antisymm hle (hmax last (List.mem_of_getLast? hlast))
    obtain ⟨i, hi, rfl⟩ := List.getElem_of_mem hc
    have hci := h.numbered i _ (List.getElem?_eq_getElem hi)
    have hlen := h.last_sequence hlast
    obtain rfl : i = m.shared.view.created.length - 1 := by omega
    rw [List.getLast?_eq_getElem?, List.getElem?_eq_getElem hi] at hlast
    obtain rfl := Option.some.inj hlast
    obtain ⟨d, hd, hsame⟩ := h.newest _ (by
      rw [List.getLast?_eq_getElem?, List.getElem?_eq_getElem hi])
    exact ⟨d, hd, hsame.key, hsame⟩

/-! ### A config that a lagging list keeps waiting -/

/-- A reconcile of the sample cluster, with lists that are up to date or as
old as the last one. -/
def listingReconcile (fresh : Bool) (now : Time) (s : Lagging) :
    Machine Call Resp (Except Err Result) Lagging :=
  Prog.advance (fun c s => Lagging.answer id fresh c s) 40
    (reconcile { resyncInterval := 60 } now sampleCluster.key) s

/-- The runs of the sample cluster without a teardown. -/
def Lagging.Sequences (m : Machine Call Resp (Except Err Result) Lagging) : Prop :=
  Reachable (laggingRuns id NoTeardown) (Reconciles sampleCluster.key)
    (fun s => s.view.Init sampleCluster.key) m

/-- The reconcile runs without a teardown, which is evaluated. -/
theorem Lagging.Sequences.reconcile {s : Lagging} (hm : Lagging.Sequences ⟨s, none⟩) (fresh : Bool)
    (now : Time) (hok : Prog.checks (fun c s => Lagging.answer id fresh c s)
      (fun c s => decide (NoTeardown c s.view)) 40
      (reconcile { resyncInterval := 60 } now sampleCluster.key) s = true) :
    Lagging.Sequences (listingReconcile fresh now s) :=
  Lagging.reachable_answer_runs (hm.start ⟨_, _, rfl⟩) fresh 40 hok

/-- The first config is on the server but not yet in the cache, and the user
has asked for five primaries. -/
def editedAfterFirst : Lagging :=
  (listingReconcile false 7 (Lagging.initial sampleCluster)).shared.edited
    { sampleCluster.spec with primaries := 5 }

/-- The second reconcile does not see the first config: it asks for the name
of it once more, and takes the refusal for a config that is there. -/
def listedTooEarly : Lagging := (listingReconcile false 8 editedAfterFirst).shared

/-- The third one sees the first config, and creates another. -/
def listedAgain : Machine Call Resp (Except Err Result) Lagging :=
  listingReconcile true 9 listedTooEarly

/-- Three reconciles, with an edit after the first one. -/
theorem listedAgain_reachable : Lagging.Sequences listedAgain := by
  have hidle : Lagging.Sequences ⟨Lagging.initial sampleCluster, none⟩ :=
    Reachable.idle (Lagging.initial_init (by decide))
  have hfirst := (hidle.reconcile false 7 (by decide +kernel)).finish (by decide +kernel)
  have hedited : Lagging.Sequences ⟨editedAfterFirst, none⟩ :=
    hfirst.env ⟨trivial, View.Env.userUpdate _ (by decide +kernel), rfl⟩
  have hearly : Lagging.Sequences ⟨listedTooEarly, none⟩ :=
    (hedited.reconcile false 8 (by decide +kernel)).finish (by decide +kernel)
  exact hearly.reconcile true 9 (by decide +kernel)

/-- The second reconcile creates nothing, and the third takes the next number
for the edited spec. -/
theorem listedAgain_in_spec_order :
    listedTooEarly.view.created.map (·.spec.sequence) = [1] ∧
    listedAgain.shared.view.created.map (fun c => (c.spec.sequence, c.spec.primaries)) =
      [(1, 3), (2, 5)] ∧
    listedAgain.shared.view.created.Pairwise (fun c d => c.spec.sequence < d.spec.sequence ∧
      ∃ g g', c.generation? = some g ∧ d.generation? = some g' ∧ g < g') ∧
    ∀ c ∈ listedAgain.shared.view.created,
      (∀ d ∈ listedAgain.shared.view.created, d.spec.sequence ≤ c.spec.sequence) →
      ∃ d ∈ listedAgain.shared.view.configs.live, d.key = c.key ∧ d.Same c := by
  have h := created_in_spec_order id sampleCluster.key listedAgain_reachable
  exact ⟨by decide +kernel, by decide +kernel, h.2⟩

end RedkeyOperator
