import RedkeyOperator.System.Watches

/-!
# At rest

What holds once the work queue is empty and everything has been delivered. The last reconcile has
then run on the server as it is and has left it as it is, so each of its functions has found its
work done (`StillTriple`):

* Robin's objects are as `ensureRBAC` and `ensureRobinDeployment` want them;
* no config is missing and none is left to be deleted;
* the status is the one that the reconcile would write, the time included.

A cluster that is scaled to zero and has no config is the exception to the first: such a reconcile
returns before it looks at Robin's objects, so they may be there or not (`UpToDate.asleep`).
-/

namespace RedkeyOperator

open Interleaved Interleaved.Op

/-- The object is there, and the reconcile would leave it as it is. -/
def Watched.InPlace (fill : Deployment → Deployment) (cluster : Redkey) (s : Watched) (k : Kind) :
    Prop :=
  ∃ obj, (s.robin k).live (robinKey cluster) = some obj ∧ ensured fill cluster k (some obj) = obj

/-- `L` is the list of the configs, by sequence. The server lists them in any
order, and the operator sorts them. -/
structure Watched.Listing (s : Watched) (L : List RedkeyConfig) : Prop where
  perm : L.Perm s.configs.live
  sorted : L.Pairwise fun a b => a.spec.sequence ≤ b.spec.sequence

/-- There is nothing left for a reconcile at `now` to do: each of the
constructors is a path through `Reconcile` on which every object is found as
the path would leave it. -/
inductive UpToDate (fill : Deployment → Deployment) (now : Time) (s : Watched) : Prop
  /-- The cluster is up: its configs are cleaned up and the status is that of
  the active one. -/
  | running {L : List RedkeyConfig} {active : RedkeyConfig}
      (hprimaries : s.redkey.live.spec.primaries ≠ 0)
      (hrobin : ∀ k, s.InPlace fill s.redkey.live k)
      (hlist : s.Listing L) (hclean : superseded L = [])
      (hactive : selectActiveConfig L = some active)
      (hstatus : s.redkey.live.status =
        aggregatedStatus now s.redkey.live.generation s.redkey.live active)
  /-- Robin has yet to apply the config with zero primaries. -/
  | scalingDown {L : List RedkeyConfig} {last active : RedkeyConfig}
      (hprimaries : s.redkey.live.spec.primaries = 0)
      (hrobin : ∀ k, s.InPlace fill s.redkey.live k)
      (hlist : s.Listing L) (hlast : L.getLast? = some last)
      (hwaits : last.spec.primaries = 0 ∧ last.status.configPhase ≠ .applied)
      (hactive : selectActiveConfig L = some active)
      (hstatus : s.redkey.live.status =
        aggregatedStatus now s.redkey.live.generation s.redkey.live active)
  /-- Nothing is left to be taken down. Case A of `reconcileScaleToZero` only
  writes the status, so nothing is known here about Robin's objects. -/
  | asleep (hprimaries : s.redkey.live.spec.primaries = 0) (hnone : s.configs.live = [])
      (hstatus : s.redkey.live.status = scaledToZeroStatus now s.redkey.live)

/-- All three states carry the time of the reconcile that has left them. -/
theorem UpToDate.lastUpdatedAt {fill : Deployment → Deployment} {now : Time} {s : Watched}
    (h : UpToDate fill now s) : s.redkey.live.status.lastUpdatedAt = some now := by
  cases h with
  | running _ _ _ _ _ hstatus => rw [hstatus]; rfl
  | scalingDown _ _ _ _ _ _ hstatus => rw [hstatus]; rfl
  | asleep _ _ hstatus => rw [hstatus]; rfl

/-! ## Calls that leave everything as it is -/

section Still

variable {fill : Deployment → Deployment} {key : NamespacedName} {s : Watched}
variable {c : Call} {k : Kind}

/-- A call that did not come back as lost has reached the server. -/
theorem watched_answered {r : Resp c} {s' : Watched} (h : (watched fill key).exec c s r s')
    (hr : r ≠ lost c) : Watched.exec fill c s r s' := by
  rcases h with h | ⟨hlost, -⟩
  · exact h
  · exact absurd hlost hr

/-- A write that leaves the state as it is has stored what is stored. -/
theorem still_robin {objs : Objs k} {l : Lag (Objs k)} (hput : (s.robin k).Put objs l)
    (hs : s = s.withRobin k l) : (s.robin k).live = objs := by
  have hl : s.robin k = l := (congrArg (fun s => s.robin k) hs).trans (s.withRobin_robin_self k l)
  exact (congrArg Lag.live hl).trans hput.live

theorem still_configs {L : List RedkeyConfig} {l : Lag (List RedkeyConfig)}
    (hput : s.configs.Put L l) (hs : s = { s with configs := l }) : s.configs.live = L :=
  (congrArg (fun s => s.configs.live) hs).trans hput.live

/-- A create that is accepted changes something. -/
theorem still_create {obj : Obj k} (h : (watched fill key).exec (.create k obj) s (.ok ()) s) :
    False := by
  rcases Watched.exec_create (watched_answered h (by simp [lost])) with
    ⟨-, hnone, l, hput, hs⟩ | ⟨⟨e, he⟩, -⟩
  · have hlive := congrFun (still_robin hput hs) obj.metadata.key
    rw [hnone, Function.update_self] at hlive
    cases hlive
  · cases he

/-- A patch may be accepted and change nothing, if the object is already as
patched. -/
theorem still_patch {obj : Obj k} (h : (watched fill key).exec (.patch k obj) s (.ok ()) s) :
    (s.robin k).live obj.metadata.key = some (withDefaults fill k obj) := by
  rcases Watched.exec_patch (watched_answered h (by simp [lost])) with
    ⟨-, l, hput, hs⟩ | ⟨⟨e, he⟩, -⟩
  · rw [still_robin hput hs, Function.update_self]
  · cases he

/-- A deletion that is accepted changes something. -/
theorem still_delete {key' : NamespacedName}
    (h : (watched fill key).exec (.delete k key') s (.ok ()) s) : False := by
  rcases Watched.exec_delete (watched_answered h (by simp [lost])) with
    ⟨-, hsome, l, hput, hs⟩ | ⟨⟨e, he⟩, -⟩
  · rw [still_robin hput hs, Function.update_self] at hsome
    cases hsome
  · cases he

theorem still_createConfig {config : RedkeyConfig}
    (h : (watched fill key).exec (.createConfig config) s (.ok ()) s) : False := by
  rcases Watched.exec_createConfig (watched_answered h (by simp [lost])) with
    ⟨-, -, l, hput, hs⟩ | ⟨he, -⟩
  · exact absurd (still_configs hput hs) (by simp)
  · cases he

/-- A create that changes nothing has found the name taken. -/
theorem still_alreadyExists {config : RedkeyConfig}
    (h : (watched fill key).exec (.createConfig config) s (.error .alreadyExists) s) :
    ∃ c ∈ s.configs.live, c.key = config.key := by
  rcases Watched.exec_createConfig (watched_answered h (by simp [lost])) with
    ⟨he, -⟩ | ⟨-, hfound, -⟩
  · cases he
  · exact hfound

/-- A config that is there is not deleted, nor is it missing. -/
theorem still_deleteConfig {config : RedkeyConfig} (hc : config ∈ s.configs.live)
    {r : Resp (.deleteConfig config.key)}
    (h : (watched fill key).exec (.deleteConfig config.key) s r s) : r = lost _ := by
  by_contra hr
  have hmem : config ∉ Configs.erase s.configs.live config.key :=
    fun hmem => (Configs.mem_erase.mp hmem).2 rfl
  rcases Watched.exec_deleteConfig (watched_answered h hr) with ⟨-, l, hput, hs⟩ | ⟨-, hsame⟩
  · exact hmem (still_configs hput hs ▸ hc)
  · exact hmem (hsame.symm ▸ hc)

/-- An accepted status write that changes nothing has written the status that
is there. -/
theorem still_update {cluster : Redkey} {stored : Redkey}
    (h : (watched fill key).exec (.updateRedkeyStatus cluster) s (.ok stored) s) :
    s.redkey.live.status = cluster.status := by
  rcases Watched.exec_updateRedkeyStatus (watched_answered h (by simp [lost])) with
    ⟨hsame, -⟩ | ⟨stored, -, hs⟩ | ⟨e, he, -⟩
  · exact hsame.symm
  · -- a new version would be a change
    exact absurd (congrArg Watched.redkey hs).symm (Lag.commit_ne _ _)
  · cases he

end Still

/-! ## A reconcile that leaves everything as it is -/

/-- A program whose calls all leave the state as it is: what is known once it
has succeeded. -/
abbrev StillTriple {α : Type} (fill : Deployment → Deployment) (key : NamespacedName) (s : Watched)
    (A : Prop) (p : Rec α) (Q : α → Prop) : Prop :=
  Triple (Sem.allowing fun c r => (watched fill key).exec c s r s) (fun _ _ _ _ => True)
    (fun _ => True) (fun _ => A) p fun a _ => Q a

section Triples

variable {fill : Deployment → Deployment} {key : NamespacedName} {s : Watched} {A : Prop}
variable {k : Kind} {cluster : Redkey} {now : Time} {L : List RedkeyConfig}

/-- Counters are outside the state. -/
theorem still_quiet :
    Quiet (Sem.allowing fun c r => (watched fill key).exec c s r s) fun _ _ _ _ => True where
  state _ _ _ _ _ := rfl
  free _ _ _ := trivial

/-- A request that has to succeed; if it fails there is nothing to show. -/
theorem still_api {c : Call} {Q : Payload c → Prop}
    (h : ∀ a, A → (watched fill key).exec c s (.ok a) s → Q a) :
    StillTriple fill key s A (api c) Q := by
  refine api_triple (stable_allowing _) ?_
  intro _ r _ hA hexec
  refine ⟨trivial, ?_⟩
  cases r with
  | ok a => exact h a hA hexec
  | error e => trivial

theorem still_metric {e : MetricEvent} : StillTriple fill key s A (metric e) fun _ => A :=
  metric_triple still_quiet (stable_allowing _)

/-- Nothing has to be known of a part whose result is not used. -/
theorem still_true {α : Type} (p : Rec α) : StillTriple fill key s A p fun _ => True :=
  ((Triple.of_uses (A := fun _ => True) (stable_allowing _) (fun _ _ _ _ _ _ _ =>
    ⟨trivial, trivial, trivial⟩) (uses_true p)).pre fun _ _ => trivial)

/-- What is known of the state stays known. -/
theorem still_frame {α : Type} {p : Rec α} {Q : α → Prop} (h : StillTriple fill key s True p Q) :
    StillTriple fill key s A p fun a => A ∧ Q a :=
  fun _ hA => Op.wp_mono (fun _ _ hQ => ⟨hA, hQ⟩) (fun _ _ h => h) (h () trivial)

/-! ### Robin's objects -/

/-- The object that was read is the live one, since everything is delivered.
An object that is missing would be created, which is a change. -/
theorem withExisting_still (hcalm : s.CaughtUp) {absent : Rec Unit} {present : Obj k → Rec Unit}
    (habsent : StillTriple fill key s True absent fun _ => False)
    (hpresent : ∀ obj : Obj k, (s.robin k).live (robinKey cluster) = some obj →
      StillTriple fill key s True (present obj) fun _ => ensured fill cluster k (some obj) = obj) :
    StillTriple fill key s True (withExisting k (robinKey cluster) absent present)
      fun _ => s.InPlace fill cluster k := by
  refine Triple.bind (Q := fun r _ => ∀ obj, r = .ok obj →
    (s.robin k).live (robinKey cluster) = some obj) (Triple.request (stable_allowing _) ?_) ?_
  · intro _ r _ _ hexec
    refine ⟨trivial, ?_⟩
    rintro obj rfl
    -- the cache shows the live objects
    obtain ⟨hfind, -⟩ := watched_answered hexec (by simp [lost])
    rw [Lag.head, hcalm.robin k] at hfind
    exact find_eq_ok.mp hfind.symm
  · intro r
    match r with
    | .ok obj =>
        intro _ hobj
        exact Op.wp_mono (fun _ _ h => ⟨obj, hobj obj rfl, h⟩) (fun _ _ h => h)
          (hpresent obj (hobj obj rfl) () trivial)
    | .error .notFound => exact (habsent.pre fun _ _ => trivial).post fun _ _ h => h.elim
    | .error .alreadyExists => exact Triple.throw fun _ _ => trivial
    | .error .conflict => exact Triple.throw fun _ _ => trivial
    | .error .other => exact Triple.throw fun _ _ => trivial

theorem create_still {obj : Obj k} :
    StillTriple fill key s True (api (.create k obj)) fun _ => False :=
  still_api fun _ _ h => still_create h

/-- A patch that changes nothing stores what is there. -/
theorem patch_still {obj : Obj k} {existing : Obj k}
    (hlive : (s.robin k).live (robinKey cluster) = some existing)
    (hkey : (Obj.metadata obj).key = robinKey cluster) :
    StillTriple fill key s True (api (.patch k obj))
      fun _ => withDefaults fill k obj = existing := by
  refine still_api fun _ _ h => ?_
  have hpatched := still_patch h
  rw [hkey, hlive] at hpatched
  exact (Option.some.inj hpatched).symm

/-- Each `ensure*` function has found its object in place: it was not patched,
or the patch has changed nothing. -/
theorem ensureServiceAccount_still (h : Owned cluster.key s) (hcalm : s.CaughtUp) :
    StillTriple fill key s True (ensureServiceAccount cluster)
      fun _ => s.InPlace fill cluster .serviceAccount := by
  refine withExisting_still hcalm create_still ?_
  intro existing hlive
  have hkey := (h.robin .serviceAccount _ Lag.live_mem existing hlive).keyed
  dsimp only
  split
  case isTrue => exact patch_still hlive hkey
  case isFalse hsame =>
    refine Triple.pure fun _ _ => ?_
    rw [ensured, relabel_of_not_drifted hsame]

theorem ensureRole_still (h : Owned cluster.key s) (hcalm : s.CaughtUp) :
    StillTriple fill key s True (ensureRole cluster) fun _ => s.InPlace fill cluster .role := by
  refine withExisting_still hcalm create_still ?_
  intro existing hlive
  have hkey := (h.robin .role _ Lag.live_mem existing hlive).keyed
  dsimp only
  split
  case isTrue => exact patch_still hlive hkey
  case isFalse hsame =>
    rw [not_or, not_ne_iff] at hsame
    refine Triple.pure fun _ _ => ?_
    rw [ensured, relabel_of_not_drifted hsame.2, ← hsame.1]

/-- The binding refers to the right Role, as it was not replaced. -/
theorem ensureRoleBinding_still (h : Owned cluster.key s) (hcalm : s.CaughtUp) :
    StillTriple fill key s True (ensureRoleBinding cluster)
      fun _ => s.InPlace fill cluster .roleBinding := by
  refine withExisting_still hcalm create_still ?_
  intro existing hlive
  have hkey := (h.robin .roleBinding _ Lag.live_mem existing hlive).keyed
  dsimp only
  split
  case isTrue =>
    -- it would be deleted first
    refine Triple.bind (Q := fun _ _ => False) (still_api fun _ _ h => still_delete h) fun _ => ?_
    exact fun _ hfalse => hfalse.elim
  case isFalse hrole =>
    rw [ensured, if_neg hrole]
    split
    case isTrue => exact patch_still hlive hkey
    case isFalse hsame =>
      rw [not_or, not_ne_iff] at hsame
      refine Triple.pure fun _ _ => ?_
      rw [relabel_of_not_drifted hsame.2, ← hsame.1]

/-- The Deployment is in place. It may still be patched every time, if the
patch stores what is stored. -/
theorem ensureRobinDeployment_still (h : Owned cluster.key s) (hcalm : s.CaughtUp) :
    StillTriple fill key s True (ensureRobinDeployment cluster)
      fun _ => s.InPlace fill cluster .deployment := by
  change StillTriple fill key s True (withExisting .deployment (robinKey cluster) _ _) _
  refine withExisting_still hcalm ?_ ?_
  · exact Triple.bind create_still fun _ _ hfalse => hfalse.elim
  · intro existing hlive
    have hkey := (h.robin .deployment _ Lag.live_mem existing hlive).keyed
    rw [ensured]
    split
    case isTrue => exact Triple.bind (patch_still hlive hkey) fun _ => still_metric
    case isFalse => exact Triple.pure fun _ _ => rfl

/-- The three RBAC objects are in place. -/
def Watched.RbacInPlace (fill : Deployment → Deployment) (cluster : Redkey) (s : Watched) : Prop :=
  s.InPlace fill cluster .serviceAccount ∧ s.InPlace fill cluster .role ∧
    s.InPlace fill cluster .roleBinding

theorem rbac_still (h : Owned cluster.key s) (hcalm : s.CaughtUp) :
    StillTriple fill key s True (ensureRBAC cluster) fun _ => s.RbacInPlace fill cluster := by
  refine Triple.bind (ensureServiceAccount_still h hcalm) fun _ => ?_
  refine Triple.bind (still_frame (ensureRole_still h hcalm)) fun _ => ?_
  refine (still_frame (ensureRoleBinding_still h hcalm)).post ?_
  exact fun _ _ hall => ⟨hall.1.1, hall.1.2, hall.2⟩

theorem deployment_still (h : Owned cluster.key s) (hcalm : s.CaughtUp) :
    StillTriple fill key s (s.RbacInPlace fill cluster) (ensureRobinDeployment cluster)
      fun _ => ∀ k, s.InPlace fill cluster k := by
  refine (still_frame (ensureRobinDeployment_still h hcalm)).post ?_
  rintro _ _ ⟨⟨haccount, hrole, hbinding⟩, hdeployment⟩ k
  cases k with
  | serviceAccount => exact haccount
  | role => exact hrole
  | roleBinding => exact hbinding
  | deployment => exact hdeployment

/-! ### Configs -/

/-- The cache of the configs is up to date, and all of them have the label. -/
theorem listed_still (h : Owned cluster.key s) (hcalm : s.CaughtUp) {site : ListSite}
    {items : List RedkeyConfig}
    (hexec : (watched fill key).exec (.listConfigs cluster.ns clusterLabel cluster.name site) s
      (.ok items) s) : items.Perm s.configs.live := by
  obtain ⟨items', hperm, hitems, -⟩ := watched_answered hexec (by simp [lost])
  cases hitems
  rwa [Lag.head, hcalm.configs, List.headD_nil, List.filter_eq_self.mpr ?_] at hperm
  exact fun c hc => (h.configs _ Lag.live_mem c hc).selected

/-- What was listed are the configs on the server. -/
theorem list_still (h : Owned cluster.key s) (hcalm : s.CaughtUp) :
    StillTriple fill key s A (listConfigs cluster) fun L => A ∧ s.Listing L := by
  refine listConfigs_triple (stable_allowing _) ?_
  intro _ r _ hA hexec
  refine ⟨trivial, ?_⟩
  cases r with
  | error e => trivial
  | ok items =>
      have hperm := (perm_sortBySequence items).trans (listed_still h hcalm hexec)
      exact ⟨hA, hperm, sorted_sortBySequence items⟩

/-- No config is missing: its name would be that of one that is there. -/
theorem create_still_config (h : Owned cluster.key s) :
    StillTriple fill key s (s.Listing L) (createNewConfig cluster L.getLast?) fun _ => False := by
  refine createNewConfig_triple still_quiet (stable_allowing _) (stable_allowing _) ?_
  intro _ r _ hL hexec
  refine ⟨trivial, ?_⟩
  cases r with
  | ok _ => exact still_createConfig hexec
  | error e =>
      refine tolerating_error.mpr ⟨?_, fun _ => trivial⟩
      rintro rfl
      obtain ⟨c, hc, hkey⟩ := still_alreadyExists hexec
      -- the config under the name has the next sequence, which is above all of them
      obtain ⟨n, hseq, hnamed⟩ := (h.configs _ Lag.live_mem c hc).named
      obtain ⟨m, hm⟩ := exists_nextSequence fun d hd =>
        (h.configs _ Lag.live_mem d (hL.perm.mem_iff.mp hd)).named
      have hname : Decimal.dashed cluster.name n = Decimal.dashed cluster.name (m : ℤ) := by
        have hkeys := hnamed.symm.trans hkey
        rw [newConfig_key, hm] at hkeys
        exact congrArg NamespacedName.name hkeys
      have hnm := (Decimal.dashed_inj (by omega) (by omega) hname).2
      have hlt := lt_nextSequence hL.sorted (hL.perm.mem_iff.mpr hc)
      omega

/-- No config is left to be deleted, or the deletion of it would have been a
change. -/
theorem cleanup_still :
    StillTriple fill key s (A ∧ s.Listing L) (cleanupSupersededConfigs L) fun res =>
      (res.2 = none → res.1 = L ∧ superseded L = [] ∧ A ∧ s.Listing L) ∧ (res.2 ≠ none → True) := by
  rw [cleanupSupersededConfigs_eq]
  refine (deleteSuperseded_rest_triple (J := fun _ => True)
    (A := fun rest _ => rest = superseded L ∧ A ∧ s.Listing L) still_quiet
    (fun _ => stable_allowing _) (superseded L) (afterCleanup L) ?_).mono
    (fun _ h => ⟨rfl, h⟩) ?_
  · rintro c rest - _ r _ ⟨hrest, -, hL⟩ hexec
    refine ⟨trivial, ?_⟩
    -- what is to be deleted is on the server
    have hmem : c ∈ s.configs.live := by
      refine hL.perm.mem_iff.mp ?_
      rw [← superseded_append_afterCleanup L, ← hrest]
      exact List.mem_append_left _ List.mem_cons_self
    rw [still_deleteConfig hmem hexec]
    exact tolerating_error.mpr ⟨fun he => (by cases he), fun _ => trivial⟩
  · -- the loop has come to its end, so there was nothing to delete
    rintro ⟨kept, err⟩ _ ⟨hnone, -⟩
    refine ⟨fun herr => ?_, fun _ => trivial⟩
    obtain ⟨hkept, hold, hA, hL⟩ := hnone herr
    refine ⟨?_, hold.symm, hA, hL⟩
    have hsplit := superseded_append_afterCleanup L
    rw [← hold, List.nil_append] at hsplit
    exact hkept.trans hsplit

/-- There is no config for `deleteAllConfigs` to delete. -/
theorem deleteAll_still (h : Owned cluster.key s) (hcalm : s.CaughtUp) :
    StillTriple fill key s True (deleteAllConfigs cluster) fun _ => s.configs.live = [] := by
  refine Triple.bind (Q := fun r _ => ∀ items, r = .ok items → items.Perm s.configs.live)
    (Triple.request (stable_allowing _) ?_) ?_
  · intro _ r _ _ hexec
    refine ⟨trivial, ?_⟩
    rintro items rfl
    exact listed_still h hcalm hexec
  · intro r
    match r with
    | .error e => exact Triple.throw fun _ _ => trivial
    | .ok items =>
        intro _ hitems
        have hperm := hitems items rfl
        refine (deleteConfigs_triple (A := fun rest _ => rest = items) (fun _ => stable_allowing _)
          items ?_).post ?_ () rfl
        · rintro c rest - _ r _ rfl hexec
          refine ⟨trivial, ?_⟩
          rw [still_deleteConfig (hperm.mem_iff.mp List.mem_cons_self) hexec]
          exact tolerating_error.mpr ⟨fun he => (by cases he), fun _ => trivial⟩
        · rintro _ _ rfl
          exact List.perm_nil.mp hperm.symm

/-! ### Status -/

/-- The status is the one of the active config. -/
theorem aggregate_still (hcalm : s.CaughtUp) (hne : A → L ≠ []) :
    StillTriple fill key s A (aggregateStatus now cluster L) fun _ =>
      A ∧ ∃ active, selectActiveConfig L = some active ∧
        s.redkey.live.status = aggregatedStatus now cluster.generation s.redkey.live active := by
  refine aggregateStatus_writes_triple (fun _ _ => trivial) (stable_allowing _)
    (B := fun latest _ => A ∧ latest = s.redkey.live) (fun _ => stable_allowing _) ?_ ?_ ?_
  · -- there is an active config
    intro hnone _ hA
    obtain ⟨active, hactive⟩ := exists_active (hne hA)
    cases hnone.symm.trans hactive
  · -- the Redkey that is read again is the live one
    intro _ r _ hA hexec
    refine ⟨trivial, ?_⟩
    cases r with
    | error e => exact hA
    | ok latest =>
        obtain ⟨hlatest, -⟩ := watched_answered hexec (by simp [lost])
        rw [Lag.head, hcalm.redkey] at hlatest
        exact ⟨hA, Except.ok.inj hlatest⟩
  · -- the write has left the status as it is
    rintro active hactive latest _ r _ ⟨hA, rfl⟩ hexec
    refine ⟨trivial, ?_⟩
    cases r with
    | error e => exact hA
    | ok stored => exact ⟨hA, active, hactive, still_update hexec⟩

/-! ### The reconcile -/

variable {r : RedkeyReconciler}

/-- The path of a cluster with primaries leads to `UpToDate.running`. -/
theorem configs_still (h : Owned s.redkey.live.key s) (hcalm : s.CaughtUp)
    (hpos : s.redkey.live.spec.primaries ≠ 0) :
    StillTriple fill key s True (reconcileConfigs r now s.redkey.live)
      fun _ => UpToDate fill now s := by
  -- known from the first two stages on
  let Robin : Prop := ∀ k, s.InPlace fill s.redkey.live k
  refine reconcileConfigs_triple (fun L _ => Robin ∧ s.Listing L) (fun _ => False)
    (fun L _ => (L ≠ [] ∧ Robin) ∧ s.Listing L)
    (fun L _ => (L ≠ [] ∧ Robin) ∧ s.Listing L ∧ superseded L = []) still_quiet
    (stable_allowing _) (stable_allowing _) (rbac_still h hcalm) (deployment_still h hcalm)
    (list_still h hcalm) ?_ (fun _ hfalse => hfalse.elim) ?_ ?_ ?_ ?_
  · -- (create_still_config => nothing is created,
    exact fun L _ => (create_still_config h).pre fun _ hL => hL.2
  · exact fun L _ hne _ hL => ⟨⟨hne, hL.1⟩, hL.2⟩
  · exact fun _ hL => absurd rfl hL.1.1
  · -- nothing is cleaned up,
    -- and the status is as it would be written
    intro L _
    refine cleanup_still.post fun res _ hres => ⟨fun hnone => ?_, hres.2⟩
    obtain ⟨rfl, hclean, hrobin, hL⟩ := hres.1 hnone
    exact ⟨hrobin, hL, hclean⟩
  · intro L
    refine (aggregate_still hcalm fun hL => hL.1.1).post ?_
    rintro _ _ ⟨⟨⟨-, hrobin⟩, hL, hclean⟩, active, hactive, hstatus⟩
    exact .running hpos hrobin hL hclean hactive hstatus

/-- The scale-to-zero path leads to one of the other two states; two of its
four cases always change something. -/
theorem scaleToZero_still (h : Owned s.redkey.live.key s) (hcalm : s.CaughtUp)
    (hzero : s.redkey.live.spec.primaries = 0) :
    StillTriple fill key s True (reconcileScaleToZero r now s.redkey.live)
      fun _ => UpToDate fill now s := by
  refine reconcileScaleToZero_triple (fun L _ => True ∧ s.Listing L) (list_still h hcalm)
    ?_ ?_ ?_ ?_
  · -- no config: only the status is written
    refine still_api fun _ hL hexec => ?_
    exact .asleep hzero (List.perm_nil.mp hL.2.perm.symm) (still_update hexec)
  · -- a config would be created
    intro L c hlast _
    refine Triple.bind (still_frame (still_true _)) fun _ => ?_
    refine Triple.bind (still_frame (still_true _)) fun _ => ?_
    rw [← hlast]
    exact ((create_still_config h).pre fun _ hL => hL.1.1.2).post fun _ _ hfalse => hfalse.elim
  · -- the highest config would be deleted, with all others
    intro L c hlast _ _
    refine Triple.bind (still_frame (still_true _)) fun _ => ?_
    refine Triple.bind (still_frame (still_true _)) fun _ => ?_
    refine Triple.bind (still_frame (deleteAll_still h hcalm)) fun _ => ?_
    rintro _ ⟨⟨⟨⟨-, hL⟩, -⟩, -⟩, hnone⟩
    have hmem := hL.perm.mem_iff.mp (List.mem_of_getLast? hlast)
    rw [hnone] at hmem
    cases hmem
  · -- Robin is at work
    intro L c hlast hprimaries hphase
    have hne : L ≠ [] := List.ne_nil_of_mem (List.mem_of_getLast? hlast)
    refine Triple.bind (still_frame (rbac_still h hcalm)) fun _ => ?_
    refine Triple.bind (Q := fun _ _ => s.Listing L ∧ ∀ k, s.InPlace fill s.redkey.live k) ?_
      fun _ => ?_
    · rintro _ ⟨⟨-, hL⟩, hrbac⟩
      exact still_frame (A := s.Listing L) ((deployment_still h hcalm).pre fun _ _ => hrbac) () hL
    · refine (aggregate_still hcalm fun _ => hne).post ?_
      rintro _ _ ⟨⟨hL, hrobin⟩, active, hactive, hstatus⟩
      exact .scalingDown hzero hrobin hL hlast ⟨hprimaries, hphase⟩ hactive hstatus

/-- A reconcile that succeeds and leaves everything as it is has read the live
Redkey, and has found its work done. -/
theorem reconcile_still (h : Owned s.redkey.live.key s) (hcalm : s.CaughtUp) :
    StillTriple fill key s True (reconcile r now key) fun _ => UpToDate fill now s := by
  refine reconcile_triple (fun cluster _ => cluster = s.redkey.live) still_quiet (stable_allowing _)
    (stable_allowing _) (stable_allowing _) ?_ ?_ ?_
  · intro _ r _ _ hexec
    refine ⟨trivial, ?_⟩
    -- a lost read ends the reconcile without success
    by_cases hlost : r = lost _
    · subst hlost
      exact tolerating_error.mpr ⟨fun he => (by cases he), fun _ => trivial⟩
    · obtain ⟨rfl, -⟩ := watched_answered hexec hlost
      rw [Lag.head, hcalm.redkey]
      exact rfl
  · rintro _ hzero _ rfl
    exact scaleToZero_still h hcalm hzero () trivial
  · rintro _ hpos _ rfl
    exact configs_still h hcalm hpos () trivial

end Triples

/-! ## Whole runs -/

section Runs

variable {fill : Deployment → Deployment} {key : NamespacedName} {clock : Watched → Time → Prop}
variable {init : Watched → Prop} {s : Watched}

/-- The last reconcile ran at one of the times of the clock. -/
theorem reachable_upToDate (hfill : ∀ d, (fill d).metadata = d.metadata)
    (hinit : ∀ s, init s → Owned key s)
    (hm : Worker.Reachable (watched fill key) (workQueue key clock) init ⟨s, false, none⟩)
    (hcalm : s.CaughtUp) : ∃ now, clock s now ∧ UpToDate fill now s := by
  refine Worker.Reachable.at_rest (Owned key) Watched.CaughtUp
    (fun s => ∃ now, clock s now ∧ UpToDate fill now s)
    (fun m hm => reachable_owned hfill hinit hm)
    (fun s s' hs hstep hcalm => (hs.wakes hstep).imp_right fun h => h.same hcalm)
    (fun c s r s' _ hexec hcalm => (watched_hidden hexec).same hcalm) ?_ hm hcalm
  rintro s p hs hcalm ⟨settings, now, hclock, rfl⟩
  have hkey : s.redkey.live.key = key := hs.keyed _ Lag.live_mem
  refine Interleaved.wp_mono ?_ (reconcile_still (hkey.symm ▸ hs) hcalm () trivial)
  intro x _ hx hok
  cases x with
  | ok res => exact ⟨now, hclock, hx⟩
  | error e => exact absurd ⟨e, rfl⟩ hok

/-- The clock has moved on since the last write of the status, so the next
write would differ from it. -/
def Watched.Ticked (s : Watched) (now : Time) : Prop :=
  s.redkey.live.status.lastUpdatedAt ≠ some now

/-- With a clock that ticks between two reconciles, the operator never comes
to rest. A reconcile that finds nothing to do still stamps `lastUpdatedAt`,
and the watch on the Redkeys has no predicate that would keep the event of
that write from the queue. -/
theorem never_at_rest (fill : Deployment → Deployment) (key : NamespacedName)
    (hfill : ∀ d, (fill d).metadata = d.metadata) {s : Watched} (hcalm : s.CaughtUp) :
    ¬ Worker.Reachable (watched fill key) (workQueue key Watched.Ticked) (Owned key)
      ⟨s, false, none⟩ := by
  intro hm
  obtain ⟨now, hticked, h⟩ := reachable_upToDate hfill (fun _ hs => hs) hm hcalm
  exact hticked h.lastUpdatedAt

end Runs

/-! ### A cluster at rest -/

namespace Watched

/-- When everything is delivered, the second reconcile writes the status. -/
def sampleReported : Watched :=
  (sampleStarted.delivered.reconciled id sampleCluster.key 8).shared.delivered

theorem sampleReported_reachable {clock : Watched → Time → Prop}
    (hstart : clock (initial sampleCluster) 7) (hreport : clock sampleStarted.delivered 8) :
    Worker.Reachable (watched id sampleCluster.key) (workQueue sampleCluster.key clock)
      (Owned sampleCluster.key) ⟨sampleReported, true, none⟩ := by
  have hstarted := (sampleStarted_reachable hstart true).others (env_delivered sampleCluster.key _)
  exact (reachable_reconciled hstarted hreport (by decide +kernel) true).others
    (env_delivered sampleCluster.key _)

end Watched

section Sample

open Watched

/-- All that is left of the second reconcile is its own status write, in the
queue. -/
theorem never_at_rest_sample :
    Worker.Reachable (watched id sampleCluster.key) (workQueue sampleCluster.key Ticked)
      (Owned sampleCluster.key) ⟨sampleReported, true, none⟩ ∧
    ¬ Worker.Reachable (watched id sampleCluster.key) (workQueue sampleCluster.key Ticked)
      (Owned sampleCluster.key) ⟨sampleReported, false, none⟩ := by
  have hreach : Worker.Reachable (watched id sampleCluster.key)
      (workQueue sampleCluster.key Ticked) (Owned sampleCluster.key)
      ⟨sampleReported, true, none⟩ :=
    sampleReported_reachable (by unfold Ticked; decide +kernel) (by unfold Ticked; decide +kernel)
  exact ⟨hreach, never_at_rest id sampleCluster.key (fun _ => rfl) (delivered_caughtUp _)⟩

end Sample

end RedkeyOperator
