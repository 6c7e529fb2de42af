import RedkeyOperator.Controller.Ownership
import RedkeyOperator.Lib.Queue
import RedkeyOperator.System.Cleanup
import RedkeyOperator.System.Lagging
import RedkeyOperator.System.Undisturbed

/-!
# The operator behind watches

A reconcile runs when it has been asked for. The operator watches the Redkeys and the objects they
control (`SetupWithManager`): each change on the server is delivered to the operator's cache some
time later, and the delivery puts the Redkey in question into the work queue. A reconcile reads
what has been delivered, nothing newer; one that fails is queued again, as is the one during which
the operator died.

Anybody may change anything in between: the user the spec, Robin its reports, and whoever else can
delete configs and change or delete Robin's objects, as long as the controller reference stays.

* every change is delivered as an event of the one Redkey (`Owned`), since every object carries
  its controller reference;
* a step of the others or a call of a reconcile is hidden from the caches, or it is a delivery and
  the Redkey is queued (`Owned.wakes`, `watched_hidden`).
-/

namespace RedkeyOperator

open Interleaved Interleaved.Op

/-- The server, and how far the operator's cache of each kind has got. Unlike
in the lagging system, a cache moves only when an event is delivered. -/
structure Watched where
  redkey : Lag Redkey
  configs : Lag (List RedkeyConfig)
  robin : RobinCaches

namespace Watched

/-- The objects of a kind, or the cache of them, have moved. -/
def withRobin (s : Watched) (k : Kind) (l : Lag (Objs k)) : Watched :=
  { s with robin := Function.update s.robin k l }

@[simp] theorem withRobin_robin_self (s : Watched) (k : Kind) (l : Lag (Objs k)) :
    (s.withRobin k l).robin k = l :=
  Function.update_self _ _ _

theorem withRobin_robin_ne (s : Watched) {k k' : Kind} (l : Lag (Objs k)) (h : k' ≠ k) :
    (s.withRobin k l).robin k' = s.robin k' :=
  Function.update_of_ne h _ _

theorem withRobin_withRobin (s : Watched) (k : Kind) (l l' : Lag (Objs k)) :
    (s.withRobin k l).withRobin k l' = s.withRobin k l' := by
  simp [withRobin]

/-- A write to the configs: the server stores the outcome, or refuses. -/
def putConfigs (s : Watched) (outcome : Except ApiError (List RedkeyConfig))
    (r : Except ApiError Unit) (s' : Watched) : Prop :=
  match outcome with
  | .ok configs => r = .ok () ∧ ∃ l, s.configs.Put configs l ∧ s' = { s with configs := l }
  | .error e => r = .error e ∧ s' = s

/-- A write to the objects of a kind. -/
def putRobin {k : Kind} (s : Watched) (outcome : Except ApiError (Objs k))
    (r : Except ApiError Unit) (s' : Watched) : Prop :=
  match outcome with
  | .ok objs => r = .ok () ∧ ∃ l, (s.robin k).Put objs l ∧
      s' = s.withRobin k l
  | .error e => r = .error e ∧ s' = s

/-- Reads are answered from the caches, writes by the server. A write that
changes nothing is not stored: it is answered with what is there, and there is
no event about it. -/
def exec (fill : Deployment → Deployment) : (c : Call) → Watched → Resp c → Watched → Prop
  | .getRedkey _ _, s, r, s' => r = .ok s.redkey.head ∧ s' = s
  | .updateRedkeyStatus cluster, s, r, s' =>
      match s.redkey.live.writeStatus cluster with
      | .ok stored =>
          if cluster.status = s.redkey.live.status then r = .ok s.redkey.live ∧ s' = s
          else r = .ok stored ∧ s' = { s with redkey := s.redkey.commit stored }
      | .error e => r = .error e ∧ s' = s
  | .listConfigs ns label value _, s, r, s' => ∃ items : List RedkeyConfig,
      items.Perm (s.configs.head.filter (·.selected ns label value)) ∧ r = .ok items ∧ s' = s
  | .createConfig config, s, r, s' => s.putConfigs (Configs.create s.configs.live config) r s'
  | .deleteConfig key, s, r, s' => s.putConfigs (Configs.delete s.configs.live key) r s'
  | .get k key, s, r, s' => r = find (s.robin k).head key ∧ s' = s
  | .create k obj, s, r, s' => s.putRobin ((s.robin k).live.create fill obj) r s'
  | .patch k obj, s, r, s' => s.putRobin ((s.robin k).live.patch fill obj) r s'
  | .delete k key, s, r, s' => s.putRobin ((s.robin k).live.delete key) r s'
  | .metric _, s, r, s' => r = .ok () ∧ s' = s

/-! ### What the writes do -/

section Writes

variable {fill : Deployment → Deployment} {s s' : Watched} {k : Kind} {key : NamespacedName}

/-- The two outcomes of a write, with the state after each. -/
theorem putConfigs_cases {outcome : Except ApiError (List RedkeyConfig)}
    {r : Except ApiError Unit} (h : s.putConfigs outcome r s') :
    (∃ configs l, outcome = .ok configs ∧ r = .ok () ∧ s.configs.Put configs l ∧
      s' = { s with configs := l }) ∨ ∃ e, outcome = .error e ∧ r = .error e ∧ s' = s := by
  cases outcome with
  | ok configs =>
      obtain ⟨hr, l, hput, hs⟩ := h
      exact Or.inl ⟨configs, l, rfl, hr, hput, hs⟩
  | error e => exact Or.inr ⟨e, rfl, h.1, h.2⟩

theorem putRobin_cases {outcome : Except ApiError (Objs k)} {r : Except ApiError Unit}
    (h : s.putRobin outcome r s') :
    (∃ objs l, outcome = .ok objs ∧ r = .ok () ∧ (s.robin k).Put objs l ∧
      s' = s.withRobin k l) ∨
    ∃ e, outcome = .error e ∧ r = .error e ∧ s' = s := by
  cases outcome with
  | ok objs =>
      obtain ⟨hr, l, hput, hs⟩ := h
      exact Or.inl ⟨objs, l, rfl, hr, hput, hs⟩
  | error e => exact Or.inr ⟨e, rfl, h.1, h.2⟩

/-- A status write changes nothing, makes a new version, or is refused. -/
theorem exec_updateRedkeyStatus {cluster : Redkey} {r : Resp (.updateRedkeyStatus cluster)}
    (h : exec fill (.updateRedkeyStatus cluster) s r s') :
    (cluster.status = s.redkey.live.status ∧ s' = s) ∨
    (∃ stored, s.redkey.live.writeStatus cluster = .ok stored ∧
      s' = { s with redkey := s.redkey.commit stored }) ∨
    ∃ e, r = .error e ∧ s' = s := by
  simp only [exec] at h
  split at h
  case h_1 stored hstored =>
    split at h
    case isTrue hsame => exact Or.inl ⟨hsame, h.2⟩
    case isFalse => exact Or.inr (Or.inl ⟨stored, hstored, h.2⟩)
  case h_2 e _ => exact Or.inr (Or.inr ⟨e, h.1, h.2⟩)

/-- A create is accepted, or the name is taken. -/
theorem exec_createConfig {config : RedkeyConfig} {r : Resp (.createConfig config)}
    (h : exec fill (.createConfig config) s r s') :
    (r = .ok () ∧ (∀ c ∈ s.configs.live, c.key ≠ config.key) ∧
      ∃ l, s.configs.Put (s.configs.live ++ [config]) l ∧ s' = { s with configs := l }) ∨
    (r = .error .alreadyExists ∧ (∃ c ∈ s.configs.live, c.key = config.key) ∧ s' = s) := by
  rcases putConfigs_cases h with ⟨L, l, hcreate, rfl, hput, rfl⟩ | ⟨e, hcreate, rfl, rfl⟩
  · obtain ⟨rfl, hfresh⟩ := Configs.create_ok hcreate
    exact Or.inl ⟨rfl, hfresh, l, hput, rfl⟩
  · obtain ⟨rfl, hfound⟩ := Configs.create_error hcreate
    exact Or.inr ⟨rfl, hfound, rfl⟩

/-- A deletion is made, or there was nothing to delete. -/
theorem exec_deleteConfig {r : Resp (.deleteConfig key)}
    (h : exec fill (.deleteConfig key) s r s') :
    (r = .ok () ∧ ∃ l, s.configs.Put (Configs.erase s.configs.live key) l ∧
      s' = { s with configs := l }) ∨
    (r = .error .notFound ∧ s' = s) ∧ Configs.erase s.configs.live key = s.configs.live := by
  rcases putConfigs_cases h with ⟨L, l, hdelete, rfl, hput, rfl⟩ | ⟨e, hdelete, rfl, rfl⟩
  · obtain rfl := Configs.delete_ok hdelete
    exact Or.inl ⟨rfl, l, hput, rfl⟩
  · obtain ⟨rfl, hsame⟩ := Configs.delete_error hdelete
    exact Or.inr ⟨⟨rfl, rfl⟩, hsame⟩

/-- One of Robin's objects is created, with the server's defaults. -/
theorem exec_create {obj : Obj k} {r : Resp (.create k obj)} (h : exec fill (.create k obj) s r s') :
    (r = .ok () ∧ (s.robin k).live obj.metadata.key = none ∧
      ∃ l, (s.robin k).Put (Function.update (s.robin k).live obj.metadata.key
        (some (withDefaults fill k obj))) l ∧
      s' = s.withRobin k l) ∨
    (∃ e, r = .error e) ∧ s' = s := by
  rcases putRobin_cases h with ⟨objs, l, hcreate, rfl, hput, rfl⟩ | ⟨e, -, rfl, rfl⟩
  · obtain ⟨rfl, hnone⟩ := Objs.create_ok hcreate
    exact Or.inl ⟨rfl, hnone, l, hput, rfl⟩
  · exact Or.inr ⟨⟨e, rfl⟩, rfl⟩

theorem exec_patch {obj : Obj k} {r : Resp (.patch k obj)} (h : exec fill (.patch k obj) s r s') :
    (r = .ok () ∧
      ∃ l, (s.robin k).Put (Function.update (s.robin k).live obj.metadata.key
        (some (withDefaults fill k obj))) l ∧
      s' = s.withRobin k l) ∨
    (∃ e, r = .error e) ∧ s' = s := by
  rcases putRobin_cases h with ⟨objs, l, hpatch, rfl, hput, rfl⟩ | ⟨e, -, rfl, rfl⟩
  · obtain ⟨rfl, -⟩ := Objs.patch_ok hpatch
    exact Or.inl ⟨rfl, l, hput, rfl⟩
  · exact Or.inr ⟨⟨e, rfl⟩, rfl⟩

/-- A deletion is only accepted for an object that is there. -/
theorem exec_delete {r : Resp (.delete k key)} (h : exec fill (.delete k key) s r s') :
    (r = .ok () ∧ ((s.robin k).live key).isSome ∧
      ∃ l, (s.robin k).Put (Function.update (s.robin k).live key none) l ∧
      s' = s.withRobin k l) ∨
    (∃ e, r = .error e) ∧ s' = s := by
  rcases putRobin_cases h with ⟨objs, l, hdelete, rfl, hput, rfl⟩ | ⟨e, -, rfl, rfl⟩
  · -- otherwise the server would have answered NotFound
    have hsome : ((s.robin k).live key).isSome := by
      unfold Objs.delete at hdelete
      split at hdelete
      case h_1 _ hobj => simp [hobj]
      case h_2 => cases hdelete
    obtain rfl := Objs.delete_ok hdelete
    exact Or.inl ⟨rfl, hsome, l, hput, rfl⟩
  · exact Or.inr ⟨⟨e, rfl⟩, rfl⟩

end Writes

/-- The steps of everybody else, and the deliveries. -/
inductive Env (key : NamespacedName) : Watched → Watched → Prop
  /-- The user edits the spec. -/
  | userUpdate {s : Watched} (spec : RedkeySpec) :
      Env key s { s with redkey := s.redkey.commit (s.redkey.live.edit spec) }
  /-- Robin reports on a config. -/
  | robinWrite {s : Watched} (k : NamespacedName) (status : RedkeyConfigStatus)
      {l : Lag (List RedkeyConfig)}
      (hput : s.configs.Put (Configs.robinWrite s.configs.live k status) l) :
      Env key s { s with configs := l }
  | deleteConfig {s : Watched} (k : NamespacedName) {l : Lag (List RedkeyConfig)}
      (hput : s.configs.Put (Configs.erase s.configs.live k) l) : Env key s { s with configs := l }
  /-- Somebody creates, changes or deletes one of Robin's objects. A changed
  object keeps its name and its controller reference. -/
  | drift {s : Watched} (k : Kind) (obj : Option (Obj k))
      (hobj : ∀ o, obj = some o → o.metadata.RobinOf key) {l : Lag (Objs k)}
      (hput : (s.robin k).Put (Function.update (s.robin k).live (robinKeyOf key) obj) l) :
      Env key s (s.withRobin k l)
  /-- An event about the Redkey is delivered. -/
  | seeRedkey {s : Watched} {l : Lag Redkey} (hl : s.redkey.Delivers l) :
      Env key s { s with redkey := l }
  | seeConfigs {s : Watched} {l : Lag (List RedkeyConfig)} (hl : s.configs.Delivers l) :
      Env key s { s with configs := l }
  | seeRobin {s : Watched} (k : Kind) {l : Lag (Objs k)} (hl : (s.robin k).Delivers l) :
      Env key s (s.withRobin k l)

end Watched

/-! ## Events -/

/-- A config is new, gone or different, and the Redkey controls it. The watch
on configs maps it to its owner. -/
def ConfigsWake (key : NamespacedName) (old new : List RedkeyConfig) : Prop :=
  ∃ c, (c ∈ old ∧ c ∉ new ∨ c ∈ new ∧ c ∉ old) ∧ c.metadata.ownerRequest = some key

/-- An object is new, gone or different, and the Redkey controls it, before or
after. The watch looks at both versions of an update. -/
def ObjsWake {k : Kind} (key : NamespacedName) (old new : Objs k) : Prop :=
  ∃ k', old k' ≠ new k' ∧ ∃ obj, (old k' = some obj ∨ new k' = some obj) ∧
    (Obj.metadata obj).ownerRequest = some key

/-- A delivery puts the Redkey into the work queue: the watches of
`SetupWithManager`. -/
inductive Watched.Wakes (key : NamespacedName) (s s' : Watched) : Prop
  /-- `For`: an event about a Redkey is a request for it. -/
  | redkey (hl : s.redkey.Delivers s'.redkey) (hkey : s'.redkey.head.key = key)
  /-- `Owns`: an event about a config is a request for the Redkey that
  controls it. -/
  | configs (hl : s.configs.Delivers s'.configs)
      (hwake : ConfigsWake key s.configs.head s'.configs.head)
  /-- The same for each kind of Robin's objects. -/
  | robin (k : Kind) (hl : (s.robin k).Delivers (s'.robin k))
      (hwake : ObjsWake key (s.robin k).head (s'.robin k).head)

/-- The operator and everybody else; any request may be lost, before or after
it had its effect. -/
def watched (fill : Deployment → Deployment) (key : NamespacedName) : Sem Call Resp Watched :=
  Sem.lossy ⟨Watched.Env key, Watched.exec fill⟩ lost

/-- The work queue: a reconcile whenever the Redkey is in it, and again if it
fails. `clock` says at what times reconciles may run. -/
def workQueue (key : NamespacedName) (clock : Watched → Time → Prop) :
    Worker.Policy Call Resp (Except Err Result) Watched where
  entry s p := ∃ r now, clock s now ∧ p = reconcile r now key
  wakes := Watched.Wakes key
  retry a := ∃ e, a = .error e

/-- Everything on the server has been delivered, so reads are up to date. -/
structure Watched.CaughtUp (s : Watched) : Prop where
  redkey : s.redkey.past = []
  configs : s.configs.past = []
  robin : ∀ k, (s.robin k).past = []

/-! ## Ownership -/

/-- A config as the operator creates it: named after the cluster, with its
label, and controlled by the Redkey. -/
structure RedkeyConfig.OwnedBy (key : NamespacedName) (c : RedkeyConfig) : Prop where
  named : c.NamedFor key
  selected : c.selected key.ns clusterLabel key.name = true
  owned : c.metadata.ownerRequest = some key

/-- What is stored is the Redkey's own, and every version of it is an event of
the Redkey. -/
structure Owned (key : NamespacedName) (s : Watched) : Prop where
  /-- Every version of the Redkey that can be read has the key of the
  request. -/
  keyed : ∀ r ∈ s.redkey.versions, r.key = key
  configs : ∀ L ∈ s.configs.versions, ∀ c ∈ L, c.OwnedBy key
  robin : ∀ k, ∀ objs ∈ (s.robin k).versions, ∀ o,
    objs (robinKeyOf key) = some o → (Obj.metadata o).RobinOf key
  /-- Between two neighbouring versions a config has changed that the Redkey
  controls. -/
  configEvents : s.configs.versions.IsChain (ConfigsWake key)
  robinEvents : ∀ k, (s.robin k).versions.IsChain (ObjsWake key)

namespace Owned

variable {key : NamespacedName} {s : Watched}

/-- A new version of the Redkey. -/
theorem putRedkey (h : Owned key s) {live : Redkey} (hkey : live.key = key) :
    Owned key { s with redkey := s.redkey.commit live } := by
  refine { h with keyed := ?_ }
  intro r hr
  rcases Lag.mem_versions_commit.mp hr with hold | rfl
  · exact h.keyed r hold
  · exact hkey

/-- A new version of the configs, if it is one. -/
theorem putConfigs (h : Owned key s) {L : List RedkeyConfig} {l : Lag (List RedkeyConfig)}
    (hput : s.configs.Put L l) (hL : ∀ c ∈ L, c.OwnedBy key)
    (hevent : L ≠ s.configs.live → ConfigsWake key s.configs.live L) :
    Owned key { s with configs := l } := by
  refine { h with configs := ?_, configEvents := hput.chain h.configEvents hevent }
  intro K hK
  rcases hput.mem hK with hold | rfl
  · exact h.configs K hold
  · exact hL

/-- The versions of one kind are replaced. -/
theorem setRobin (h : Owned key s) {k : Kind} {l : Lag (Objs k)}
    (hobjs : ∀ objs ∈ l.versions, ∀ o,
      objs (robinKeyOf key) = some o → (Obj.metadata o).RobinOf key)
    (hevents : l.versions.IsChain (ObjsWake key)) :
    Owned key (s.withRobin k l) := by
  refine { h with robin := ?_, robinEvents := ?_ }
  · -- the other kinds are as they were
    intro k'
    by_cases hk : k' = k
    · subst hk
      simpa using hobjs
    · simpa [s.withRobin_robin_ne l hk] using h.robin k'
  · intro k'
    by_cases hk : k' = k
    · subst hk
      simpa using hevents
    · simpa [s.withRobin_robin_ne l hk] using h.robinEvents k'

/-- An object of the cluster changes. -/
theorem putRobin (h : Owned key s) {k : Kind} {obj : Option (Obj k)} {l : Lag (Objs k)}
    (hput : (s.robin k).Put (Function.update (s.robin k).live (robinKeyOf key) obj) l)
    (hobj : ∀ o, obj = some o → (Obj.metadata o).RobinOf key) :
    Owned key (s.withRobin k l) := by
  -- the new version has one object replaced
  have hversions : ∀ objs ∈ l.versions, ∀ o,
      objs (robinKeyOf key) = some o → (Obj.metadata o).RobinOf key := by
    intro objs hobjs o ho
    rcases hput.mem hobjs with hold | rfl
    · exact h.robin k objs hold o ho
    · exact hobj o (by simpa using ho)
  -- the object that was there, or the one that is there now
  have hevent : Function.update (s.robin k).live (robinKeyOf key) obj ≠ (s.robin k).live →
      ObjsWake key (s.robin k).live (Function.update (s.robin k).live (robinKeyOf key) obj) := by
    intro hne
    have hdiff : (s.robin k).live (robinKeyOf key) ≠ obj := by
      rintro rfl
      exact hne (Function.update_eq_self _ _)
    refine ⟨robinKeyOf key, by simpa using hdiff, ?_⟩
    cases hold : (s.robin k).live (robinKeyOf key) with
    | some o => exact ⟨o, Or.inl rfl, (h.robin k _ Lag.live_mem o hold).owned⟩
    | none =>
        obtain ⟨o, rfl⟩ : ∃ o, obj = some o := Option.ne_none_iff_exists'.mp (hold ▸ hdiff.symm)
        exact ⟨o, Or.inr (Function.update_self _ _ _), (hobj o rfl).owned⟩
  exact h.setRobin hversions (hput.chain (h.robinEvents k) hevent)

/-! ### The events of a write -/

/-- A deletion that changes something has deleted a config of the Redkey. -/
theorem wakes_of_erase (h : Owned key s) {k : NamespacedName}
    (hne : Configs.erase s.configs.live k ≠ s.configs.live) :
    ConfigsWake key s.configs.live (Configs.erase s.configs.live k) := by
  obtain ⟨c, hc, hkey⟩ : ∃ c ∈ s.configs.live, c.key = k := by
    by_contra hnone
    push Not at hnone
    exact hne (List.filter_eq_self.mpr fun c hc => decide_eq_true (hnone c hc))
  refine ⟨c, Or.inl ⟨hc, fun hmem => (Configs.mem_erase.mp hmem).2 hkey⟩, ?_⟩
  exact (h.configs _ Lag.live_mem c hc).owned

/-- A report that changes something has changed a config of the Redkey. -/
theorem wakes_of_report (h : Owned key s) {k : NamespacedName} {status : RedkeyConfigStatus}
    (hne : Configs.robinWrite s.configs.live k status ≠ s.configs.live) :
    ConfigsWake key s.configs.live (Configs.robinWrite s.configs.live k status) := by
  -- a config with another status, which none has afterwards
  obtain ⟨c, hc, hkey, hstatus⟩ : ∃ c ∈ s.configs.live, c.key = k ∧ c.status ≠ status := by
    by_contra hnone
    push Not at hnone
    refine hne ((List.map_congr_left fun c hc => ?_).trans (List.map_id _))
    split
    case isTrue hkey => rw [← hnone c hc hkey, id]
    case isFalse => rfl
  refine ⟨c, Or.inl ⟨hc, fun hmem => ?_⟩, (h.configs _ Lag.live_mem c hc).owned⟩
  obtain ⟨d, -, hd⟩ := List.mem_map.mp hmem
  split at hd
  case isTrue => exact hstatus (hd ▸ rfl)
  case isFalse hother => exact hother (hd ▸ hkey)

/-- A report leaves the metadata alone, and with them the owner. -/
theorem report (h : Owned key s) {k : NamespacedName} {status : RedkeyConfigStatus}
    {c : RedkeyConfig} (hc : c ∈ Configs.robinWrite s.configs.live k status) : c.OwnedBy key := by
  obtain ⟨d, hd, hmeta, hspec, -⟩ := Configs.mem_robinWrite hc
  obtain ⟨⟨n, hn, hkey⟩, hsel, howned⟩ := h.configs _ Lag.live_mem d hd
  refine ⟨⟨n, hspec ▸ hn, ?_⟩, ?_, hmeta ▸ howned⟩
  · exact (RedkeyConfig.Same.key ⟨hmeta, hspec⟩).trans hkey
  · simpa [RedkeyConfig.selected, hmeta] using hsel

/-- The steps of everybody else keep the controller references, and deliveries
only drop versions. -/
theorem env (h : Owned key s) {s' : Watched} (hstep : Watched.Env key s s') : Owned key s' := by
  cases hstep with
  | userUpdate spec => exact h.putRedkey (h.keyed s.redkey.live Lag.live_mem)
  | robinWrite k status hput => exact h.putConfigs hput (fun c hc => h.report hc) h.wakes_of_report
  | deleteConfig k hput =>
      exact h.putConfigs hput (fun c hc => h.configs _ Lag.live_mem c (Configs.mem_erase.mp hc).1)
        h.wakes_of_erase
  | drift k obj hobj hput => exact h.putRobin hput hobj
  | seeRedkey hl => exact { h with keyed := fun r hr => h.keyed r (hl.mem hr) }
  | seeConfigs hl =>
      exact { h with
        configs := fun L hL => h.configs L (hl.mem hL)
        configEvents := h.configEvents.suffix hl.suffix }
  | @seeRobin k l hl =>
      exact h.setRobin (fun objs hobjs => h.robin k objs (hl.mem hobjs))
        ((h.robinEvents k).suffix hl.suffix)

/-! ### The calls of a reconcile -/

variable {fill : Deployment → Deployment} {c : Call} {r : Resp c} {s' : Watched}

/-- `createNewConfig` sets the controller reference, the label and the
name. -/
theorem newConfig_ownedBy {cluster : Redkey} {highest : Option RedkeyConfig} {n : ℕ}
    (hn : nextSequence highest = n) : (newConfig cluster highest).OwnedBy cluster.key where
  named := by
    refine ⟨n, hn, ?_⟩
    rw [newConfig_key, hn]
    rfl
  selected := newConfig_selected cluster highest
  owned := rfl

/-- The API server's defaults do not touch the metadata. -/
theorem withDefaults_robinOf (hfill : ∀ d, (fill d).metadata = d.metadata) {k : Kind} {obj : Obj k}
    (h : (Obj.metadata obj).RobinOf key) : (Obj.metadata (withDefaults fill k obj)).RobinOf key := by
  cases k with
  | deployment =>
      change (fill obj).metadata.RobinOf key
      rw [hfill]
      exact h
  | _ => exact h

/-- A call about objects of the cluster that stores what the Redkey
controls. -/
theorem exec (h : Owned key s) (hfill : ∀ d, (fill d).metadata = d.metadata)
    (hc : c.IsFor key ∧ c.WritesOwned key) (hexec : Watched.exec fill c s r s') :
    (OwnAnswer key c r ∧ ReadsOwned key c r) ∧ Owned key s' := by
  cases c with
  -- reads, answered from the caches
  | getRedkey k site =>
      obtain ⟨rfl, rfl⟩ := hexec
      have hkey := h.keyed _ Lag.head_mem
      exact ⟨⟨hkey, hkey⟩, h⟩
  -- the key of a Redkey never changes
  | updateRedkeyStatus cluster =>
      refine ⟨⟨trivial, trivial⟩, ?_⟩
      rcases Watched.exec_updateRedkeyStatus hexec with ⟨-, rfl⟩ | ⟨stored, hstored, rfl⟩ | ⟨-, -, rfl⟩
      · exact h
      · obtain ⟨-, rfl⟩ := Redkey.writeStatus_ok hstored
        exact h.putRedkey (h.keyed s.redkey.live Lag.live_mem)
      · exact h
  | listConfigs ns label value site =>
      obtain ⟨items, hperm, rfl, rfl⟩ := hexec
      refine ⟨⟨?_, trivial⟩, h⟩
      intro d hd
      exact (h.configs _ Lag.head_mem d (List.mem_of_mem_filter (hperm.mem_iff.mp hd))).named
  -- the new config is itself the event
  | createConfig config =>
      refine ⟨⟨trivial, trivial⟩, ?_⟩
      rcases Watched.exec_createConfig hexec with ⟨-, hfresh, l, hput, rfl⟩ | ⟨-, -, rfl⟩
      · obtain ⟨⟨cluster, highest, rfl, rfl, n, hn⟩, -⟩ := hc
        have hnew : (newConfig cluster highest).OwnedBy cluster.key := newConfig_ownedBy hn
        refine h.putConfigs hput ?_ fun _ => ⟨_, Or.inr ⟨by simp, fun hmem => ?_⟩, hnew.owned⟩
        · intro d hd
          rcases List.mem_append.mp hd with hold | hd
          · exact h.configs _ Lag.live_mem d hold
          · exact List.mem_singleton.mp hd ▸ hnew
        · exact hfresh _ hmem rfl
      · exact h
  -- the config that is gone is the event
  | deleteConfig k =>
      refine ⟨⟨trivial, trivial⟩, ?_⟩
      rcases Watched.exec_deleteConfig hexec with ⟨-, l, hput, rfl⟩ | ⟨⟨-, rfl⟩, -⟩
      · exact h.putConfigs hput
          (fun d hd => h.configs _ Lag.live_mem d (Configs.mem_erase.mp hd).1) h.wakes_of_erase
      · exact h
  -- what is cached is a version that was stored
  | get k k' =>
      obtain ⟨rfl, rfl⟩ := hexec
      obtain rfl : k' = robinKeyOf key := hc.1
      refine ⟨?_, h⟩
      unfold find
      cases hobj : (s'.robin k).head (robinKeyOf key) with
      | none => exact ⟨trivial, trivial⟩
      | some obj =>
          have hmeta := h.robin k _ Lag.head_mem obj hobj
          exact ⟨hmeta.keyed, hmeta⟩
  -- what is created or patched carries the reference
  | create k obj =>
      refine ⟨⟨trivial, trivial⟩, ?_⟩
      rcases Watched.exec_create hexec with ⟨-, -, l, hput, rfl⟩ | ⟨-, rfl⟩
      · rw [hc.2.keyed] at hput
        exact h.putRobin hput fun o ho => Option.some.inj ho ▸ withDefaults_robinOf hfill hc.2
      · exact h
  | patch k obj =>
      refine ⟨⟨trivial, trivial⟩, ?_⟩
      rcases Watched.exec_patch hexec with ⟨-, l, hput, rfl⟩ | ⟨-, rfl⟩
      · rw [hc.2.keyed] at hput
        exact h.putRobin hput fun o ho => Option.some.inj ho ▸ withDefaults_robinOf hfill hc.2
      · exact h
  | delete k k' =>
      refine ⟨⟨trivial, trivial⟩, ?_⟩
      obtain rfl : k' = robinKeyOf key := hc.1
      rcases Watched.exec_delete hexec with ⟨-, -, l, hput, rfl⟩ | ⟨-, rfl⟩
      · exact h.putRobin hput fun o ho => by cases ho
      · exact h
  | metric e =>
      obtain ⟨rfl, rfl⟩ := hexec
      exact ⟨⟨trivial, trivial⟩, h⟩

end Owned

/-! ## Runs -/

section Runs

variable {fill : Deployment → Deployment} {key : NamespacedName} {clock : Watched → Time → Prop}
variable {init : Watched → Prop} {s s' : Watched} {c : Call} {r : Resp c}

/-- The same for calls that may be lost. -/
theorem Owned.watched (h : Owned key s) (hfill : ∀ d, (fill d).metadata = d.metadata)
    (hc : c.IsFor key ∧ c.WritesOwned key) (hexec : (watched fill key).exec c s r s') :
    (OwnAnswer key c r ∧ ReadsOwned key c r) ∧ Owned key s' := by
  have hlost : OwnAnswer key c (lost c) ∧ ReadsOwned key c (lost c) := by
    cases c <;> exact ⟨trivial, trivial⟩
  rcases hexec with hexec | ⟨rfl, rfl | ⟨r₀, hexec⟩⟩
  · exact h.exec hfill hc hexec
  · exact ⟨hlost, h⟩
  · exact ⟨hlost, (h.exec hfill hc hexec).2⟩

/-- Whatever happens, the objects of the cluster keep their controller
reference. The two footprints of a reconcile are used together: what it asks
for is the cluster's, and what it stores is the Redkey's. -/
theorem reachable_owned (hfill : ∀ d, (fill d).metadata = d.metadata)
    (hinit : ∀ s, init s → Owned key s) {m : Worker Call Resp (Except Err Result) Watched}
    (hm : Worker.Reachable (watched fill key) (workQueue key clock) init m) :
    Owned key m.shared := by
  have hentry : ∀ s p, (workQueue key clock).entry s p →
      p.Uses (fun c r => OwnAnswer key c r ∧ ReadsOwned key c r)
        fun c => c.IsFor key ∧ c.WritesOwned key := by
    rintro s p ⟨settings, now, -, rfl⟩
    exact Prog.Uses.and reconcile_uses reconcile_owned
  refine (hm.uses (Owned key) hinit (fun s s' hs hstep => hs.env hstep) hentry ?_).1
  exact fun c s r s' hc hs hexec => hs.watched hfill hc hexec

/-! ### What is noticed -/

/-- What a reconcile would read now. -/
def Watched.seen (s : Watched) : Redkey × List RedkeyConfig × ((k : Kind) → Objs k) :=
  (s.redkey.head, s.configs.head, fun k => (s.robin k).head)

/-- A step on the server: the caches show what they did, and there is
something to be delivered if it has changed anything. -/
structure Watched.Hidden (s s' : Watched) : Prop where
  seen : s'.seen = s.seen
  same : s'.CaughtUp → s' = s

namespace Watched.Hidden

theorem refl (s : Watched) : Hidden s s := ⟨rfl, fun _ => rfl⟩

/-- A new version of the Redkey is there to be delivered. -/
theorem commit (live : Redkey) : Hidden s { s with redkey := s.redkey.commit live } where
  seen := by simp [Watched.seen]
  same hcalm := absurd hcalm.redkey (by simp [Lag.commit, Lag.versions])

theorem configs {L : List RedkeyConfig} {l : Lag (List RedkeyConfig)} (hput : s.configs.Put L l) :
    Hidden s { s with configs := l } where
  seen := by simp [Watched.seen, hput.head]
  same hcalm := by rw [hput.eq_of_caughtUp hcalm.configs]

theorem robin {k : Kind} {objs : Objs k} {l : Lag (Objs k)} (hput : (s.robin k).Put objs l) :
    Hidden s (s.withRobin k l) where
  seen := by
    have hrobin : (fun k' => ((s.withRobin k l).robin k').head) = fun k' => (s.robin k').head := by
      funext k'
      by_cases hk : k' = k
      · subst hk
        simpa using hput.head
      · rw [s.withRobin_robin_ne l hk]
    rw [Watched.seen, hrobin]
    rfl
  same hcalm := by
    have hpast := hcalm.robin k
    rw [withRobin_robin_self] at hpast
    rw [hput.eq_of_caughtUp hpast, withRobin, Function.update_eq_self]

end Watched.Hidden

/-- A step of the others is a step on the server, or a delivery that is
noticed. -/
theorem Owned.wakes (h : Owned key s) (hstep : Watched.Env key s s') :
    Watched.Wakes key s s' ∨ Watched.Hidden s s' := by
  cases hstep with
  | userUpdate spec => exact Or.inr (.commit _)
  | robinWrite k status hput => exact Or.inr (.configs hput)
  | deleteConfig k hput => exact Or.inr (.configs hput)
  | drift k obj hobj hput => exact Or.inr (.robin hput)
  | seeRedkey hl => exact Or.inl (.redkey hl (h.keyed _ (hl.mem Lag.head_mem)))
  | seeConfigs hl => exact Or.inl (.configs hl (hl.rel h.configEvents))
  | @seeRobin k l hl =>
      refine Or.inl (.robin k ?_ ?_)
      · simpa using hl
      · simpa using hl.rel (h.robinEvents k)

theorem Watched.exec_hidden (hexec : Watched.exec fill c s r s') : Watched.Hidden s s' := by
  cases c with
  | updateRedkeyStatus cluster =>
      rcases exec_updateRedkeyStatus hexec with ⟨-, rfl⟩ | ⟨stored, -, rfl⟩ | ⟨-, -, rfl⟩
      · exact .refl s'
      · exact .commit stored
      · exact .refl s'
  | createConfig config =>
      rcases exec_createConfig hexec with ⟨-, -, l, hput, rfl⟩ | ⟨-, -, rfl⟩
      · exact .configs hput
      · exact .refl s'
  | deleteConfig k =>
      rcases exec_deleteConfig hexec with ⟨-, l, hput, rfl⟩ | ⟨⟨-, rfl⟩, -⟩
      · exact .configs hput
      · exact .refl s'
  | create k obj =>
      rcases exec_create hexec with ⟨-, -, l, hput, rfl⟩ | ⟨-, rfl⟩
      · exact .robin hput
      · exact .refl s'
  | patch k obj =>
      rcases exec_patch hexec with ⟨-, l, hput, rfl⟩ | ⟨-, rfl⟩
      · exact .robin hput
      · exact .refl s'
  | delete k k' =>
      rcases exec_delete hexec with ⟨-, -, l, hput, rfl⟩ | ⟨-, rfl⟩
      · exact .robin hput
      · exact .refl s'
  -- reads
  | listConfigs ns label value site =>
      obtain ⟨items, -, -, rfl⟩ := hexec
      exact .refl s'
  | _ =>
      obtain ⟨-, rfl⟩ := hexec
      exact .refl s'

theorem watched_hidden (hexec : (watched fill key).exec c s r s') : Watched.Hidden s s' := by
  rcases hexec with hexec | ⟨-, rfl | ⟨r₀, hexec⟩⟩
  · exact Watched.exec_hidden hexec
  · exact .refl s'
  · exact Watched.exec_hidden hexec

end Runs

/-! ### Concrete runs -/

namespace Watched

/-- A Redkey that was just created. -/
def initial (cluster : Redkey) : Watched where
  redkey := ⟨[], cluster⟩
  configs := ⟨[], []⟩
  robin := fun _ => ⟨[], fun _ => none⟩

/-- A new Redkey has no objects yet. -/
theorem initial_owned (cluster : Redkey) : Owned cluster.key (initial cluster) where
  keyed r hr := by
    obtain rfl : r = cluster := by simpa [initial, Lag.versions] using hr
    rfl
  configs L hL c hc := by
    obtain rfl : L = [] := by simpa [initial, Lag.versions] using hL
    cases hc
  robin k objs hobjs o ho := by
    obtain rfl : objs = fun _ => none := by simpa [initial, Lag.versions] using hobjs
    cases ho
  configEvents := List.isChain_singleton _
  robinEvents _ := List.isChain_singleton _

/-- Everything is delivered. -/
def delivered (s : Watched) : Watched where
  redkey := ⟨[], s.redkey.live⟩
  configs := ⟨[], s.configs.live⟩
  robin := fun k => ⟨[], (s.robin k).live⟩

theorem delivered_caughtUp (s : Watched) : s.delivered.CaughtUp := ⟨rfl, rfl, fun _ => rfl⟩

/-- Reads, status writes and creates are answered; the other calls are
lost. -/
def answer (fill : Deployment → Deployment) : (c : Call) → Watched → Resp c × Watched
  | .getRedkey _ _, s => (.ok s.redkey.head, s)
  | .updateRedkeyStatus cluster, s =>
      match s.redkey.live.writeStatus cluster with
      | .ok stored =>
          if cluster.status = s.redkey.live.status then (.ok s.redkey.live, s)
          else (.ok stored, { s with redkey := s.redkey.commit stored })
      | .error e => (.error e, s)
  | .listConfigs ns label value _, s => (.ok (s.configs.head.filter (·.selected ns label value)), s)
  | .createConfig config, s =>
      match Configs.create s.configs.live config with
      | .ok L => (.ok (), { s with configs := s.configs.commit L })
      | .error e => (.error e, s)
  | .get k key, s => (find (s.robin k).head key, s)
  | .create k obj, s =>
      match (s.robin k).live.create fill obj with
      | .ok objs => (.ok (), s.withRobin k ((s.robin k).commit objs))
      | .error e => (.error e, s)
  | c, s => (lost c, s)

/-- Each answer is one that the server may give, or the call is lost. -/
theorem answer_exec (fill : Deployment → Deployment) (key : NamespacedName) (c : Call)
    (s : Watched) :
    (watched fill key).exec c s (s.answer fill c).1 (s.answer fill c).2 := by
  cases c with
  | getRedkey key site => exact Or.inl ⟨rfl, rfl⟩
  | listConfigs ns label value site => exact Or.inl ⟨_, List.Perm.refl _, rfl, rfl⟩
  | get k key => exact Or.inl ⟨rfl, rfl⟩
  | updateRedkeyStatus cluster =>
      left
      simp only [answer, exec]
      cases s.redkey.live.writeStatus cluster with
      | ok stored =>
          dsimp only
          split_ifs <;> exact ⟨rfl, rfl⟩
      | error e => exact ⟨rfl, rfl⟩
  | createConfig config =>
      left
      simp only [answer, exec]
      cases hcreate : Configs.create s.configs.live config with
      | ok L =>
          obtain ⟨rfl, -⟩ := Configs.create_ok hcreate
          exact ⟨rfl, _, .new (by simp), rfl⟩
      | error e => exact ⟨rfl, rfl⟩
  -- a create that was accepted makes a version
  | create k obj =>
      left
      simp only [answer, exec]
      cases hcreate : (s.robin k).live.create fill obj with
      | ok objs =>
          obtain ⟨rfl, hnone⟩ := Objs.create_ok hcreate
          refine ⟨rfl, _, .new fun heq => ?_, rfl⟩
          have hlive := congrFun heq obj.metadata.key
          rw [hnone, Function.update_self] at hlive
          cases hlive
      | error e => exact ⟨rfl, rfl⟩
  | _ => exact Or.inr ⟨rfl, Or.inl rfl⟩

/-- Everything can be delivered, kind by kind. -/
theorem env_delivered (key : NamespacedName) (s : Watched) :
    Relation.ReflTransGen (Env key) s s.delivered := by
  have hredkey (s : Watched) :
      Relation.ReflTransGen (Env key) s { s with redkey := ⟨[], s.redkey.live⟩ } :=
    s.redkey.delivers_all.lift (fun l => ({ s with redkey := l } : Watched))
      fun _ _ hl => .seeRedkey hl
  have hconfigs (s : Watched) :
      Relation.ReflTransGen (Env key) s { s with configs := ⟨[], s.configs.live⟩ } :=
    s.configs.delivers_all.lift (fun l => ({ s with configs := l } : Watched))
      fun _ _ hl => .seeConfigs hl
  have hrobin (k : Kind) (s : Watched) :
      Relation.ReflTransGen (Env key) s (s.withRobin k ⟨[], (s.robin k).live⟩) := by
    have hrun : Relation.ReflTransGen (Env key) (s.withRobin k (s.robin k))
        (s.withRobin k ⟨[], (s.robin k).live⟩) := by
      refine (s.robin k).delivers_all.lift (fun l => s.withRobin k l) fun l l' hl => ?_
      have hsee : Env key (s.withRobin k l) ((s.withRobin k l).withRobin k l') :=
        .seeRobin k (by rwa [withRobin_robin_self])
      rwa [withRobin_withRobin] at hsee
    simpa [withRobin] using hrun
  -- first the Redkey, then the configs, then Robin's objects
  have hall := ((((((hredkey s).trans (hconfigs _)).trans (hrobin .serviceAccount _)).trans
    (hrobin .role _)).trans (hrobin .roleBinding _)).trans (hrobin .deployment _))
  convert hall using 1
  unfold delivered
  congr 1
  funext k
  cases k <;> rfl

/-- A reconcile from the first call to the last. -/
def reconciled (fill : Deployment → Deployment) (key : NamespacedName) (now : Time) (s : Watched) :
    Machine Call Resp (Except Err Result) Watched :=
  (reconcile { resyncInterval := 60 } now key).advance (fun c s => s.answer fill c) 40 s

/-- The program has ended well. -/
def succeeded (m : Machine Call Resp (Except Err Result) Watched) : Bool :=
  match m.thread with
  | some (.ret (.ok _)) => true
  | _ => false

theorem succeeded_eq {m : Machine Call Resp (Except Err Result) Watched}
    (h : succeeded m = true) : ∃ res, m.thread = some (.ret (.ok res)) := by
  unfold succeeded at h
  split at h
  case h_1 res heq => exact ⟨res, heq⟩
  case h_2 => cases h

/-- A reconcile that ends well takes the Redkey off the queue, unless it was
put there again in the meantime. -/
theorem reachable_reconciled {fill : Deployment → Deployment} {key : NamespacedName}
    {clock : Watched → Time → Prop} {init : Watched → Prop} {s : Watched} {now : Time}
    (hm : Worker.Reachable (watched fill key) (workQueue key clock) init ⟨s, true, none⟩)
    (hclock : clock s now) (hok : succeeded (s.reconciled fill key now) = true) (q : Bool) :
    Worker.Reachable (watched fill key) (workQueue key clock) init
      ⟨(s.reconciled fill key now).shared, q, none⟩ := by
  obtain ⟨res, hres⟩ := succeeded_eq hok
  have hrun := (hm.step (.start ⟨{ resyncInterval := 60 }, now, hclock, rfl⟩)).advance
    (fun _ _ => true) (fun c s _ => answer_exec fill key c s) (Prog.checks_true _ 40 _ _)
  refine Worker.Reachable.step (hres ▸ hrun) (.finish (fun _ => rfl) ?_)
  rintro ⟨e, ⟨⟩⟩

/-- The first reconcile creates everything. -/
def sampleStarted : Watched := ((initial sampleCluster).reconciled id sampleCluster.key 7).shared

theorem sampleStarted_reachable {clock : Watched → Time → Prop}
    (hstart : clock (initial sampleCluster) 7) (q : Bool) :
    Worker.Reachable (watched id sampleCluster.key) (workQueue sampleCluster.key clock)
      (Owned sampleCluster.key) ⟨sampleStarted, q, none⟩ := by
  have hinit : Worker.Reachable (watched id sampleCluster.key) (workQueue sampleCluster.key clock)
      (Owned sampleCluster.key) ⟨initial sampleCluster, true, none⟩ :=
    ⟨_, initial_owned sampleCluster, .refl⟩
  exact reachable_reconciled hinit hstart (by decide +kernel) q

end Watched

/-- What the operator makes is the Redkey's, and no change of what a reconcile
would read goes unnoticed. -/
theorem every_change_queued (fill : Deployment → Deployment) (key : NamespacedName)
    (hfill : ∀ d, (fill d).metadata = d.metadata) (clock : Watched → Time → Prop)
    {m : Worker Call Resp (Except Err Result) Watched}
    (hm : Worker.Reachable (watched fill key) (workQueue key clock) (Owned key) m) :
    (∀ c ∈ m.shared.configs.live, c.metadata.ownerRequest = some key) ∧
    (∀ k o, (m.shared.robin k).live (robinKeyOf key) = some o →
      (Obj.metadata o).ownerRequest = some key) ∧
    ∀ m', Worker.Step (watched fill key) (workQueue key clock) m m' →
      m'.shared.seen ≠ m.shared.seen → m'.queued = true := by
  have howned := reachable_owned hfill (fun _ hs => hs) hm
  refine ⟨fun c hc => (howned.configs _ Lag.live_mem c hc).owned,
    fun k o ho => (howned.robin k _ Lag.live_mem o ho).owned, ?_⟩
  intro m' hstep hseen
  cases hstep with
  | env henv _ hwakes =>
      -- a delivery queues the Redkey, and nothing else moves a cache
      rcases howned.wakes henv with hwake | hhidden
      · exact hwakes hwake
      · exact absurd hhidden.seen hseen
  | call hexec => exact absurd (watched_hidden hexec).seen hseen
  | timer => rfl
  | crash => rfl
  | start hp => exact absurd rfl hseen
  | finish _ _ => exact absurd rfl hseen

/-- Before anything of the first reconcile is delivered. -/
theorem every_change_queued_sample :
    Watched.sampleStarted.configs.live.length = 1 ∧ Watched.sampleStarted.configs.head = [] ∧
    (∀ c ∈ Watched.sampleStarted.configs.live,
      c.metadata.ownerRequest = some sampleCluster.key) ∧
    ∀ m', Worker.Step (watched id sampleCluster.key) (workQueue sampleCluster.key fun _ _ => True)
        ⟨Watched.sampleStarted, false, none⟩ m' →
      m'.shared.seen ≠ Watched.sampleStarted.seen → m'.queued = true := by
  have h := every_change_queued id sampleCluster.key (fun _ => rfl) (fun _ _ => True)
    (Watched.sampleStarted_reachable trivial false)
  exact ⟨by decide +kernel, List.isEmpty_iff.mp (by decide +kernel), h.1, h.2.2⟩

end RedkeyOperator
