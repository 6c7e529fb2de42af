import RedkeyOperator.Controller.Rules
import RedkeyOperator.Controller.Lemmas
import RedkeyOperator.Lib.Exec

/-!
# The operator with up-to-date reads

The API server's store as the operator sees it without a cache in between. The lists it gets come
in any order. `World` adds two histories to the store: the configs the operator has created, and
those Robin has marked Applied.

What a request does is said once, per kind of request (`exec_getRedkey`, ...). The other parties
are a user who edits the Redkey and Robin who reports on its configs (`World.Env`); the edits and
reports that may happen differ from result to result.
-/

namespace RedkeyOperator

open Interleaved

/-! ## State -/

/-- The store, the configs created and the configs marked Applied, oldest
first. The two histories are for statements only; no party reads them. -/
@[ext] structure World where
  store : Store
  created : List RedkeyConfig := []
  applied : List RedkeyConfig := []

namespace World

variable (w : World)

/-- The configs that `listConfigs` lists for the cluster with the key. Whoever
puts the label on a config makes it one of these. -/
def configsOf (key : NamespacedName) : List RedkeyConfig :=
  w.store.configs.filter (·.selected key.ns clusterLabel key.name)

/-- The world with another Redkey under the key. -/
def setRedkey (key : NamespacedName) (cluster : Redkey) : World :=
  { w with store := w.store.setRedkey key cluster }

/-- The world with one more config, which the operator has created. -/
def addConfig (config : RedkeyConfig) : World :=
  { w with
    store := { w.store with configs := w.store.configs ++ [config] }
    created := w.created ++ [config] }

/-- The world without the config of the name. The histories keep it, as it was
created and may have been Applied. -/
def eraseConfig (key : NamespacedName) : World :=
  { w with store := { w.store with configs := Configs.erase w.store.configs key } }

/-- The world with other objects of Robin. -/
def setRobin (robin : (k : Kind) → Objs k) : World :=
  { w with store := { w.store with robin := robin } }

/-- The world with another object of the kind under the key, or with none. -/
def setObj (k : Kind) (key : NamespacedName) (obj : Option (Obj k)) : World :=
  { w with store := w.store.setObj k key obj }

@[simp] theorem setObj_store (k : Kind) (key : NamespacedName) (obj : Option (Obj k)) :
    (w.setObj k key obj).store = w.store.setObj k key obj := rfl

/-- Robin reports on a config. What it marks Applied for the first time goes
into the history. -/
def robinWrite (key : NamespacedName) (status : RedkeyConfigStatus) : World :=
  { w with
    store := w.store.robinWrite key status
    applied := w.applied ++ (w.store.configs.filter fun c =>
      c.key = key ∧ c.status.configPhase ≠ .applied ∧ status.configPhase = .applied).map
        fun c => { c with status := status } }

end World

/-! ## Requests -/

/-- The response to a call and the store after it. Lists come in any order, so
nothing may depend on it. -/
def Store.answers (fill : Deployment → Deployment) :
    (c : Call) → Store → Resp c → Store → Prop
  | .listConfigs ns label value _, s, r, s' =>
      s' = s ∧ ∃ items, items.Perm (s.configs.filter (·.selected ns label value)) ∧ r = .ok items
  | c, s, r, s' => (r, s') = serve fill c s

/-- What a call adds to the history of created configs. -/
def createdBy : (c : Call) → Resp c → List RedkeyConfig
  | .createConfig config, .ok _ => [config]
  | _, _ => []

/-- The step of a call: its effect on the store, and what it adds to the
history. -/
def World.exec (fill : Deployment → Deployment) (c : Call) (w : World) (r : Resp c) (w' : World) :
    Prop :=
  Store.answers fill c w.store r w'.store ∧ w'.created = w.created ++ createdBy c r ∧
    w'.applied = w.applied

/-- The system, with `env` as the steps of the other parties. Every call is
answered on the state as it is. -/
def fresh (fill : Deployment → Deployment) (env : World → World → Prop) : Sem Call Resp World where
  env := env
  exec := World.exec fill

/-- Its runs in which every call meets the condition `ok`, and any call may be
lost, before or after the server has seen it. -/
def freshRuns (fill : Deployment → Deployment) (env : World → World → Prop)
    (ok : (c : Call) → World → Resp c → Prop) : Sem Call Resp World :=
  ((fresh fill env).guarded ok fun _ _ => True).lossy lost

/-- The other parties of a cluster: a user who makes the edits of `user`, and
Robin, who makes the reports of `robin`. What they may do is left open here,
as it differs from result to result. -/
inductive World.Env (key : NamespacedName) (user : World → Redkey → RedkeySpec → Prop)
    (robin : List RedkeyConfig → RedkeyConfig → RedkeyConfigStatus → Prop) : World → World → Prop
  | userUpdate {w : World} {live : Redkey} {spec : RedkeySpec}
      (hlive : w.store.redkeys key = some live) (hedit : user w live spec) :
      Env key user robin w (w.setRedkey key (live.edit spec))
  | robinWrite {w : World} {c : RedkeyConfig} {status : RedkeyConfigStatus}
      (hc : c ∈ w.configsOf key) (hreport : robin (w.configsOf key) c status) :
      Env key user robin w (w.robinWrite c.key status)

/-- Robin marks a config Applied when every config below it is terminal, and
leaves terminal phases alone. -/
def InOrder (configs : List RedkeyConfig) (c : RedkeyConfig) (status : RedkeyConfigStatus) : Prop :=
  (isTerminalConfigPhase c.status.configPhase = true →
    status.configPhase = c.status.configPhase) ∧
  (status.configPhase = .applied → ∀ d ∈ configs, d.spec.sequence < c.spec.sequence →
    isTerminalConfigPhase d.status.configPhase = true)

theorem find_eq_ok {α : Type} {objs : NamespacedName → Option α} {key : NamespacedName} {a : α} :
    find objs key = .ok a ↔ objs key = some a := by
  unfold find
  cases objs key <;> simp

/-- The only way for a read of the store to fail is that there is nothing. -/
theorem find_eq_error {α : Type} {objs : NamespacedName → Option α} {key : NamespacedName}
    {e : ApiError} : find objs key = .error e ↔ e = .notFound ∧ objs key = none := by
  unfold find
  cases objs key <;> simp [eq_comm]

/-- A write is made and succeeds, or has no effect and says why. -/
theorem commit_eq {α : Type} {s s' : Store} {outcome : Except ApiError α} {put : α → Store}
    {r : Except ApiError Unit} (h : (r, s') = s.commit outcome put) :
    (∃ a, outcome = .ok a ∧ r = .ok () ∧ s' = put a) ∨
      (∃ e, outcome = .error e ∧ r = .error e ∧ s' = s) := by
  unfold Store.commit at h
  cases outcome with
  | ok a => exact Or.inl ⟨a, rfl, Prod.mk.inj h⟩
  | error e => exact Or.inr ⟨e, rfl, Prod.mk.inj h⟩

section Exec

variable {fill : Deployment → Deployment} {w w' : World}

/-- A call that is not a create adds nothing to the history. -/
theorem World.eq_of_store {s : Store} (hstore : w'.store = s) (hcreated : w'.created = w.created ++ [])
    (happlied : w'.applied = w.applied) : w' = { w with store := s } :=
  World.ext hstore (by simpa using hcreated) happlied

theorem exec_getRedkey {key : NamespacedName} {site : ReadSite} {r : Resp (.getRedkey key site)}
    (h : World.exec fill (.getRedkey key site) w r w') :
    r = find w.store.redkeys key ∧ w' = w := by
  obtain ⟨hanswer, hcreated, happlied⟩ := h
  obtain ⟨hr, hs⟩ := Prod.mk.inj hanswer
  exact ⟨hr, World.eq_of_store hs hcreated happlied⟩

/-- A status is stored if the version is that of the live Redkey, and refused
otherwise. -/
theorem exec_updateRedkeyStatus {cluster : Redkey} {r : Resp (.updateRedkeyStatus cluster)}
    (h : World.exec fill (.updateRedkeyStatus cluster) w r w') :
    (∃ live stored, w.store.redkeys cluster.key = some live ∧
      live.writeStatus cluster = .ok stored ∧ r = .ok stored ∧
      w' = w.setRedkey cluster.key stored) ∨
    ((∃ e, r = .error e) ∧ w' = w ∧ ∀ live, w.store.redkeys cluster.key = some live →
      live.resourceVersion ≠ cluster.resourceVersion) := by
  obtain ⟨hanswer, hcreated, happlied⟩ := h
  unfold Store.answers serve at hanswer
  cases hlive : w.store.redkeys cluster.key with
  -- the Redkey is gone
  | none =>
      simp only [hlive, Prod.mk.injEq] at hanswer
      refine Or.inr ⟨⟨_, hanswer.1⟩, World.eq_of_store hanswer.2 hcreated happlied, ?_⟩
      intro live hsome
      cases hsome
  | some live =>
      cases hw : live.writeStatus cluster with
      | ok stored =>
          simp only [hlive, hw, Prod.mk.injEq] at hanswer
          exact Or.inl ⟨live, stored, rfl, hw, hanswer.1,
            World.eq_of_store hanswer.2 hcreated happlied⟩
      -- a refusal means that the versions differ
      | error e =>
          simp only [hlive, hw, Prod.mk.injEq] at hanswer
          refine Or.inr ⟨⟨e, hanswer.1⟩, World.eq_of_store hanswer.2 hcreated happlied, ?_⟩
          rintro live' hsome hrv
          cases hsome
          simp [Redkey.writeStatus, hrv] at hw

/-- A list returns the configs with the label, in any order. -/
theorem exec_listConfigs {ns label value : String} {site : ListSite}
    {r : Resp (.listConfigs ns label value site)}
    (h : World.exec fill (.listConfigs ns label value site) w r w') :
    (∃ items, items.Perm (w.store.configs.filter (·.selected ns label value)) ∧ r = .ok items) ∧
      w' = w := by
  obtain ⟨⟨hs, hitems⟩, hcreated, happlied⟩ := h
  exact ⟨hitems, World.eq_of_store hs hcreated happlied⟩

/-- A create is made unless the name is taken. -/
theorem exec_createConfig {config : RedkeyConfig} {r : Resp (.createConfig config)}
    (h : World.exec fill (.createConfig config) w r w') :
    (r = .ok () ∧ (∀ c ∈ w.store.configs, c.key ≠ config.key) ∧ w' = w.addConfig config) ∨
      (r = .error .alreadyExists ∧ (∃ c ∈ w.store.configs, c.key = config.key) ∧ w' = w) := by
  obtain ⟨hanswer, hcreated, happlied⟩ := h
  rcases commit_eq hanswer with ⟨configs, hcreate, rfl, hs⟩ | ⟨e, hcreate, rfl, hs⟩
  · obtain ⟨rfl, hnew⟩ := Configs.create_ok hcreate
    exact Or.inl ⟨rfl, hnew, World.ext hs hcreated happlied⟩
  · obtain ⟨rfl, hfound⟩ := Configs.create_error hcreate
    exact Or.inr ⟨rfl, hfound, World.eq_of_store hs hcreated happlied⟩

/-- After a deletion the config is gone, also when there was none to
delete. -/
theorem exec_deleteConfig {key : NamespacedName} {r : Resp (.deleteConfig key)}
    (h : World.exec fill (.deleteConfig key) w r w') :
    (r = .ok () ∨ r = .error .notFound) ∧ w' = w.eraseConfig key := by
  obtain ⟨hanswer, hcreated, happlied⟩ := h
  rcases commit_eq hanswer with ⟨configs, hdelete, rfl, hs⟩ | ⟨e, hdelete, rfl, hs⟩
  · rw [Configs.delete_ok hdelete] at hs
    exact ⟨Or.inl rfl, World.eq_of_store hs hcreated happlied⟩
  · -- nothing was there to be erased
    obtain ⟨rfl, hsame⟩ := Configs.delete_error hdelete
    refine ⟨Or.inr rfl, ?_⟩
    rw [World.eq_of_store hs hcreated happlied, World.eraseConfig, hsame]

theorem exec_get {k : Kind} {key : NamespacedName} {r : Resp (.get k key)}
    (h : World.exec fill (.get k key) w r w') : r = find (w.store.robin k) key ∧ w' = w := by
  obtain ⟨hanswer, hcreated, happlied⟩ := h
  obtain ⟨hr, hs⟩ := Prod.mk.inj hanswer
  exact ⟨hr, World.eq_of_store hs hcreated happlied⟩

/-- The server stores the object with its defaults filled in. -/
theorem exec_create {k : Kind} {obj : Obj k} {r : Resp (.create k obj)}
    (h : World.exec fill (.create k obj) w r w') :
    (r = .ok () ∧ w.store.robin k obj.metadata.key = none ∧
      w' = w.setObj k obj.metadata.key (some (withDefaults fill k obj))) ∨
      (r = .error .alreadyExists ∧ (w.store.robin k obj.metadata.key).isSome ∧ w' = w) := by
  obtain ⟨hanswer, hcreated, happlied⟩ := h
  rcases commit_eq hanswer with ⟨objs, hcreate, rfl, hs⟩ | ⟨e, hcreate, rfl, hs⟩
  · obtain ⟨rfl, habsent⟩ := Objs.create_ok hcreate
    exact Or.inl ⟨rfl, habsent, World.eq_of_store hs hcreated happlied⟩
  · obtain ⟨rfl, hpresent⟩ := Objs.create_error hcreate
    exact Or.inr ⟨rfl, hpresent, World.eq_of_store hs hcreated happlied⟩

/-- A patch of an object that is gone fails. -/
theorem exec_patch {k : Kind} {obj : Obj k} {r : Resp (.patch k obj)}
    (h : World.exec fill (.patch k obj) w r w') :
    (r = .ok () ∧ (w.store.robin k obj.metadata.key).isSome ∧
      w' = w.setObj k obj.metadata.key (some (withDefaults fill k obj))) ∨
      (r = .error .notFound ∧ w.store.robin k obj.metadata.key = none ∧ w' = w) := by
  obtain ⟨hanswer, hcreated, happlied⟩ := h
  rcases commit_eq hanswer with ⟨objs, hpatch, rfl, hs⟩ | ⟨e, hpatch, rfl, hs⟩
  · obtain ⟨rfl, hpresent⟩ := Objs.patch_ok hpatch
    exact Or.inl ⟨rfl, hpresent, World.eq_of_store hs hcreated happlied⟩
  · obtain ⟨rfl, habsent⟩ := Objs.patch_error hpatch
    exact Or.inr ⟨rfl, habsent, World.eq_of_store hs hcreated happlied⟩

theorem exec_delete {k : Kind} {key : NamespacedName} {r : Resp (.delete k key)}
    (h : World.exec fill (.delete k key) w r w') :
    (r = .ok () ∧ w' = w.setObj k key none) ∨
      (r = .error .notFound ∧ w.store.robin k key = none ∧ w' = w) := by
  obtain ⟨hanswer, hcreated, happlied⟩ := h
  rcases commit_eq hanswer with ⟨objs, hdelete, rfl, hs⟩ | ⟨e, hdelete, rfl, hs⟩
  · rw [Objs.delete_ok hdelete] at hs
    exact Or.inl ⟨rfl, World.eq_of_store hs hcreated happlied⟩
  · obtain ⟨rfl, habsent⟩ := Objs.delete_error hdelete
    exact Or.inr ⟨rfl, habsent, World.eq_of_store hs hcreated happlied⟩

theorem exec_metric {e : MetricEvent} {r : Resp (.metric e)}
    (h : World.exec fill (.metric e) w r w') : w' = w := by
  obtain ⟨hanswer, hcreated, happlied⟩ := h
  exact World.eq_of_store (Prod.mk.inj hanswer).2 hcreated happlied

/-- A call about Robin's objects changes nothing else. -/
theorem exec_onRobin {keys : NamespacedName → Prop} {c : Call} (hc : c.OnRobin keys) {r : Resp c}
    (h : World.exec fill c w r w') : ∃ robin, w' = w.setRobin robin := by
  have hsame : w' = w → ∃ robin, w' = w.setRobin robin := fun hw => ⟨w.store.robin, hw⟩
  cases c with
  | get k key => exact hsame (exec_get h).2
  | create k obj =>
      rcases exec_create h with ⟨-, -, rfl⟩ | ⟨-, -, hw⟩
      · exact ⟨_, rfl⟩
      · exact hsame hw
  | patch k obj =>
      rcases exec_patch h with ⟨-, -, rfl⟩ | ⟨-, -, hw⟩
      · exact ⟨_, rfl⟩
      · exact hsame hw
  | delete k key =>
      rcases exec_delete h with ⟨-, rfl⟩ | ⟨-, -, hw⟩
      · exact ⟨_, rfl⟩
      · exact hsame hw
  | metric e => exact hsame (exec_metric h)
  | getRedkey _ _ => cases hc
  | updateRedkeyStatus _ => cases hc
  | listConfigs _ _ _ _ => cases hc
  | createConfig _ => cases hc
  | deleteConfig _ => cases hc

end Exec

/-! ## The configs of a cluster -/

section ConfigsOf

variable {w : World} {key : NamespacedName} {c t : RedkeyConfig}

/-- The configs of a cluster are those with its label, in its namespace. -/
theorem mem_configsOf : c ∈ w.configsOf key ↔
    c ∈ w.store.configs ∧ c.selected key.ns clusterLabel key.name = true :=
  List.mem_filter

@[simp] theorem configsOf_setRedkey (k : NamespacedName) (cluster : Redkey) :
    (w.setRedkey k cluster).configsOf key = w.configsOf key := rfl

@[simp] theorem configsOf_setRobin (robin : (k : Kind) → Objs k) :
    (w.setRobin robin).configsOf key = w.configsOf key := rfl

@[simp] theorem configsOf_setObj (k : Kind) (k' : NamespacedName) (obj : Option (Obj k)) :
    (w.setObj k k' obj).configsOf key = w.configsOf key := rfl

/-- Deleting and selecting can be exchanged. -/
theorem configsOf_eraseConfig (k : NamespacedName) :
    (w.eraseConfig k).configsOf key = Configs.erase (w.configsOf key) k := by
  simp only [World.configsOf, World.eraseConfig, Configs.erase, List.filter_filter]
  exact List.filter_congr fun d _ => Bool.and_comm _ _

theorem mem_configsOf_eraseConfig {k : NamespacedName} :
    c ∈ (w.eraseConfig k).configsOf key ↔ c ∈ w.configsOf key ∧ c.key ≠ k := by
  rw [configsOf_eraseConfig, Configs.mem_erase]

theorem mem_addConfig_of_mem {config : RedkeyConfig} (h : c ∈ w.configsOf key) :
    c ∈ (w.addConfig config).configsOf key :=
  mem_configsOf.mpr ⟨List.mem_append_left _ (mem_configsOf.mp h).1, (mem_configsOf.mp h).2⟩

theorem mem_configsOf_addConfig {config : RedkeyConfig}
    (h : c ∈ (w.addConfig config).configsOf key) : c ∈ w.configsOf key ∨ c = config := by
  obtain ⟨hc, hsel⟩ := mem_configsOf.mp h
  rcases List.mem_append.mp hc with hold | hnew
  · exact Or.inl (mem_configsOf.mpr ⟨hold, hsel⟩)
  · exact Or.inr (List.mem_singleton.mp hnew)

/-- Only the metadata decide whether a config is listed. -/
theorem selected_congr {ns label value : String} {d : RedkeyConfig} (h : c.metadata = d.metadata) :
    c.selected ns label value = d.selected ns label value := by
  simp [RedkeyConfig.selected, h]

/-- A report changes no metadata, so the same configs are listed. -/
theorem configsOf_robinWrite (k : NamespacedName) (status : RedkeyConfigStatus) :
    (w.robinWrite k status).configsOf key = Configs.robinWrite (w.configsOf key) k status := by
  simp only [World.configsOf, World.robinWrite, Store.robinWrite, Configs.robinWrite,
    List.filter_map]
  congr 1
  refine List.filter_congr fun d _ => ?_
  simp only [Function.comp_apply]
  split <;> rfl

end ConfigsOf

/-- What the API server and the naming scheme give a cluster: Redkeys and
configs are stored under their own keys, and a config of the cluster is named
after its sequence. -/
structure World.Formed (key : NamespacedName) (w : World) : Prop where
  keyed : ∀ live, w.store.redkeys key = some live → live.key = key
  nodup : (w.store.configs.map RedkeyConfig.key).Nodup
  named : ∀ c ∈ w.configsOf key, c.key = ⟨key.ns, Decimal.dashed key.name c.spec.sequence⟩

namespace World.Formed

variable {key : NamespacedName} {w : World} {c d t : RedkeyConfig}

/-- The name tells the configs of a cluster apart. -/
theorem eq_of_key (h : w.Formed key) (hc : c ∈ w.configsOf key) (hd : d ∈ w.configsOf key)
    (hkey : c.key = d.key) : c = d :=
  List.inj_on_of_nodup_map h.nodup (mem_configsOf.mp hc).1 (mem_configsOf.mp hd).1 hkey

/-- So does the sequence, from which the name is built. -/
theorem eq_of_sequence (h : w.Formed key) (hc : c ∈ w.configsOf key) (hd : d ∈ w.configsOf key)
    (hseq : c.spec.sequence = d.spec.sequence) : c = d := by
  refine h.eq_of_key hc hd ?_
  rw [h.named c hc, h.named d hd, hseq]

/-- After a report, every config is as it was, but for the one reported on. -/
theorem mem_robinWrite (h : w.Formed key) {status : RedkeyConfigStatus}
    (ht : t ∈ w.configsOf key) (hc : c ∈ (w.robinWrite t.key status).configsOf key) :
    ∃ c₀ ∈ w.configsOf key, c.metadata = c₀.metadata ∧ c.spec = c₀.spec ∧
      (c = c₀ ∨ c₀ = t ∧ c.status = status) := by
  obtain ⟨hmem, hsel⟩ := mem_configsOf.mp hc
  obtain ⟨c₀, hc₀, hmeta, hspec, hstatus⟩ := Configs.mem_robinWrite hmem
  have hof : c₀ ∈ w.configsOf key := mem_configsOf.mpr ⟨hc₀, selected_congr hmeta ▸ hsel⟩
  refine ⟨c₀, hof, hmeta, hspec, hstatus.imp_right ?_⟩
  exact fun hnew => ⟨h.eq_of_key hof ht hnew.1, hnew.2⟩

/-- And every config is still there, with its old status unless it is the one
reported on. -/
theorem exists_robinWrite (h : w.Formed key) (status : RedkeyConfigStatus)
    (ht : t ∈ w.configsOf key) (hc : c ∈ w.configsOf key) :
    ∃ c' ∈ (w.robinWrite t.key status).configsOf key, c'.spec = c.spec ∧
      (c' = c ∧ c ≠ t ∨ c = t ∧ c'.status = status) := by
  rcases mem_configsOf.mp hc with ⟨hmem, hsel⟩
  by_cases hkey : c.key = t.key
  · -- the config of the report
    refine ⟨{ c with status := status }, mem_configsOf.mpr ⟨?_, hsel⟩, rfl, Or.inr ⟨?_, rfl⟩⟩
    · exact List.mem_map.mpr ⟨c, hmem, if_pos hkey⟩
    · exact h.eq_of_key hc ht hkey
  · -- any other one
    refine ⟨c, mem_configsOf.mpr ⟨List.mem_map.mpr ⟨c, hmem, if_neg hkey⟩, hsel⟩, rfl, Or.inl ⟨rfl, ?_⟩⟩
    exact fun heq => hkey (congrArg RedkeyConfig.key heq)

/-- What a report adds to the history: the config it marks Applied, if it was
not Applied before. -/
theorem mem_applied_robinWrite (h : w.Formed key) {status : RedkeyConfigStatus}
    (ht : t ∈ w.configsOf key) (hc : c ∈ (w.robinWrite t.key status).applied) :
    c ∈ w.applied ∨ c.spec = t.spec ∧ t.status.configPhase ≠ .applied ∧
      status.configPhase = .applied := by
  rcases List.mem_append.mp hc with hold | hnew
  · exact Or.inl hold
  · rcases List.mem_map.mp hnew with ⟨c₀, hc₀, rfl⟩
    rcases List.mem_filter.mp hc₀ with ⟨hmem, hphase⟩
    simp only [decide_eq_true_eq] at hphase
    obtain rfl : c₀ = t :=
      List.inj_on_of_nodup_map h.nodup hmem (mem_configsOf.mp ht).1 hphase.1
    exact Or.inr ⟨rfl, hphase.2⟩

/-- A Redkey is replaced by another version of itself. -/
theorem setRedkey (h : w.Formed key) {cluster : Redkey} (hkey : cluster.key = key) :
    (w.setRedkey key cluster).Formed key where
  keyed live hlive := by
    simp only [World.setRedkey, Store.setRedkey_redkeys_self, Option.some.injEq] at hlive
    rw [← hlive, hkey]
  nodup := h.nodup
  named := h.named

theorem setRobin (h : w.Formed key) (robin : (k : Kind) → Objs k) :
    (w.setRobin robin).Formed key :=
  ⟨h.keyed, h.nodup, h.named⟩

theorem setObj (h : w.Formed key) (k : Kind) (k' : NamespacedName) (obj : Option (Obj k)) :
    (w.setObj k k' obj).Formed key :=
  ⟨h.keyed, h.nodup, h.named⟩

theorem eraseConfig (h : w.Formed key) (k : NamespacedName) : (w.eraseConfig k).Formed key where
  keyed := h.keyed
  nodup := h.nodup.sublist (List.filter_sublist.map _)
  named c hc := h.named c (mem_configsOf_eraseConfig.mp hc).1

/-- A new config has a new name, and one that goes with its sequence. -/
theorem addConfig (h : w.Formed key) {cluster : Redkey} {highest : Option RedkeyConfig}
    (hkey : cluster.key = key)
    (hnew : ∀ c ∈ w.store.configs, c.key ≠ (newConfig cluster highest).key) :
    (w.addConfig (newConfig cluster highest)).Formed key where
  keyed := h.keyed
  nodup := by
    simp only [World.addConfig, List.map_append, List.map_cons, List.map_nil]
    refine h.nodup.append (List.nodup_singleton _) ?_
    intro k hk hk'
    obtain ⟨c, hc, rfl⟩ := List.mem_map.mp hk
    exact hnew c hc (List.mem_singleton.mp hk')
  named c hc := by
    rcases mem_configsOf_addConfig hc with hold | rfl
    · exact h.named c hold
    · rw [newConfig_key, newConfig_sequence, ← hkey]
      rfl

theorem robinWrite (h : w.Formed key) (k : NamespacedName) (status : RedkeyConfigStatus) :
    (w.robinWrite k status).Formed key where
  keyed := h.keyed
  nodup := (Configs.map_key_robinWrite w.store.configs k status).symm ▸ h.nodup
  named c hc := by
    obtain ⟨hmem, hsel⟩ := mem_configsOf.mp hc
    obtain ⟨c₀, hc₀, hmeta, hspec, -⟩ := Configs.mem_robinWrite hmem
    have hnamed := h.named c₀ (mem_configsOf.mpr ⟨hc₀, selected_congr hmeta ▸ hsel⟩)
    rw [hspec, ← hnamed, RedkeyConfig.key, RedkeyConfig.key, hmeta]

end World.Formed

/-! ## Calls that may be lost -/

section Runs

open Op

variable {fill : Deployment → Deployment} {env : World → World → Prop}
variable {ok : (c : Call) → World → Resp c → Prop} {G : (c : Call) → World → Resp c → World → Prop}
variable {I A B : World → Prop}

/-- A property of the state after a call, whether or not the reply arrives. -/
theorem freshRuns_state {c : Call} {w w' : World} {r : Resp c} (hw : A w)
    (h : ∀ r w', ok c w r → World.exec fill c w r w' → A w')
    (hexec : (freshRuns fill env ok).exec c w r w') : A w' := by
  rcases hexec with ⟨hok, hexec⟩ | ⟨-, rfl | ⟨r₀, hok, hexec⟩⟩
  · exact h r w' hok hexec
  · exact hw
  · exact h r₀ w' hok hexec

/-- Counters change nothing, answered or lost. -/
theorem fresh_quiet (hG : ∀ e w r, G (.metric e) w r w) : Quiet (freshRuns fill env ok) G where
  state _ w _ _ := freshRuns_state (A := fun w' => w' = w) rfl fun _ _ _ => exec_metric
  free := hG

/-- A response that says no more than the state does. -/
theorem outcome_const {ε α : Type} {r : Except ε α} {w : World} (hB : B w) (hI : I w) :
    Outcome (fun _ => B) I r w := by
  cases r with
  | ok _ => exact hB
  | error _ => exact hI

/-- Work on Robin's objects keeps what does not mention them. -/
theorem fresh_robin_triple {α : Type} {p : Rec α} (hA : Stable (freshRuns fill env ok) A)
    (hAI : ∀ w, A w → I w) (hrobin : ∀ w robin, A w → A (w.setRobin robin))
    (hG : ∀ c w r w', Call.OnRobin (fun _ => True) c → A w → A w' → G c w r w')
    (hp : p.Uses (KeyedReads fun _ => True) (Call.OnRobin fun _ => True)) :
    Triple (freshRuns fill env ok) G I A p fun _ => A := by
  refine (Triple.of_uses hA ?_ hp).error hAI
  intro c w r w' hc hw hexec
  -- the call changes Robin's objects at most, wherever the reply goes
  have hw' : A w' := by
    refine freshRuns_state hw ?_ hexec
    intro r w' _ hexec
    obtain ⟨robin, rfl⟩ := exec_onRobin hc hexec
    exact hrobin w robin hw
  exact ⟨keyedReads_true c r, hG c w r w' hc hw hw', hw'⟩

/-- Such work keeps it next to what else is known about it. The part `F` is
about the rest of the store, `A` and `Q` are about Robin's objects. -/
theorem fresh_robin_frame {α : Type} {p : Rec α} {Q : α → World → Prop} {F : World → Prop}
    (hF : Stable (freshRuns fill env ok) F) (hrobin : ∀ w robin, F w → F (w.setRobin robin))
    (hp : p.Uses (KeyedReads fun _ => True) (Call.OnRobin fun _ => True))
    (h : Triple (freshRuns fill env ok) G I A p Q) :
    Triple (freshRuns fill env ok) G I (fun w => A w ∧ F w) p fun a w => Q a w ∧ F w := by
  refine Triple.frame hF ?_ hp h
  intro c w r w' hc hw hexec
  refine ⟨keyedReads_true c r, freshRuns_state hw ?_ hexec⟩
  intro r w' _ hexec
  obtain ⟨robin, rfl⟩ := exec_onRobin hc hexec
  exact hrobin w robin hw

/-- The deletion of one of Robin's objects: it is gone, or was not there. The
rule asks for both ways to establish `B`. -/
theorem fresh_deleteIfPresent_triple {k : Kind} {key : NamespacedName} {text : String}
    (hA : Stable (freshRuns fill env ok) A) (hAI : ∀ w, A w → I w) (hBI : ∀ w, B w → I w)
    (hG : ∀ w r w', A w → A w' ∨ B w' → G (.delete k key) w r w')
    (hdelete : ∀ w, A w → B (w.setObj k key none))
    (hmissing : ∀ w, A w → w.store.robin k key = none → B w) :
    Triple (freshRuns fill env ok) G I A (deleteIfPresent k key text) fun _ => B := by
  refine Triple.bind (Q := Tolerating .notFound (fun _ => B) B I) (Triple.request hA ?_) ?_
  · -- what the server does when it sees the request
    have hexec : ∀ w r w', A w → World.exec fill (.delete k key) w r w' →
        B w' ∧ (r = .ok () ∨ r = .error .notFound) := by
      intro w r w' hw hexec
      rcases exec_delete hexec with ⟨rfl, rfl⟩ | ⟨rfl, hnone, rfl⟩
      · exact ⟨hdelete w hw, Or.inl rfl⟩
      · exact ⟨hmissing w' hw hnone, Or.inr rfl⟩
    -- a lost reply is an error, and not NotFound
    have hfail : ∀ w, I w → Tolerating .notFound (fun _ => B) B I (lost (.delete k key)) w :=
      fun w hw => tolerating_error.mpr ⟨fun h => (by cases h), fun _ => hw⟩
    rintro w r w' hw (⟨-, hcall⟩ | ⟨rfl, rfl | ⟨r₀, -, hcall⟩⟩)
    · obtain ⟨hw', rfl | rfl⟩ := hexec w r w' hw hcall
      · exact ⟨hG _ _ _ hw (Or.inr hw'), hw'⟩
      · exact ⟨hG _ _ _ hw (Or.inr hw'), tolerating_error.mpr ⟨fun _ => hw', fun hne => absurd rfl hne⟩⟩
    · exact ⟨hG _ _ _ hw (Or.inl hw), hfail _ (hAI _ hw)⟩
    · obtain ⟨hw', -⟩ := hexec w r₀ w' hw hcall
      exact ⟨hG _ _ _ hw (Or.inr hw'), hfail _ (hBI _ hw')⟩
  · intro r
    match r with
    | .ok _ => exact Triple.pure fun _ hw => hw
    | .error .notFound => exact Triple.pure fun _ hw => hw
    | .error .alreadyExists => exact Triple.throw fun _ hw => hw
    | .error .conflict => exact Triple.throw fun _ hw => hw
    | .error .other => exact Triple.throw fun _ hw => hw

/-- A list of configs is the configs of the cluster, by sequence. -/
theorem fresh_list_triple {cluster : Redkey} {Q : List RedkeyConfig → World → Prop}
    (hA : Stable (freshRuns fill env ok) A) (hAI : ∀ w, A w → I w)
    (hG : ∀ w r, A w → G (.listConfigs cluster.ns clusterLabel cluster.name .listConfigs) w r w)
    (h : ∀ w items, A w → items.Perm (w.configsOf cluster.key) →
      ok (.listConfigs cluster.ns clusterLabel cluster.name .listConfigs) w (.ok items) →
      Q (sortBySequence items) w) :
    Triple (freshRuns fill env ok) G I A (listConfigs cluster) Q := by
  refine listConfigs_triple hA ?_
  rintro w r w' hw (⟨hok, hexec⟩ | ⟨rfl, rfl | ⟨r₀, -, hexec⟩⟩)
  · -- answered
    obtain ⟨⟨items, hperm, rfl⟩, rfl⟩ := exec_listConfigs hexec
    exact ⟨hG _ _ hw, h _ items hw hperm hok⟩
  · -- not made
    exact ⟨hG _ _ hw, hAI _ hw⟩
  · -- made, and the answer is lost
    obtain ⟨-, rfl⟩ := exec_listConfigs hexec
    exact ⟨hG _ _ hw, hAI _ hw⟩

/-- A read of the Redkey, which may be gone; the caller decides what that
means. -/
theorem fresh_get_call {key : NamespacedName} {site : ReadSite} {Q : Redkey → World → Prop}
    (hAI : ∀ w, A w → I w) (hG : ∀ w r, A w → G (.getRedkey key site) w r w)
    (hfound : ∀ w cluster, A w → w.store.redkeys key = some cluster → Q cluster w)
    (hmissing : ∀ w, A w → w.store.redkeys key = none → B w) :
    ∀ w r w', A w → (freshRuns fill env ok).exec (.getRedkey key site) w r w' →
      G (.getRedkey key site) w r w' ∧ Tolerating .notFound Q B I r w' := by
  rintro w r w' hw (⟨-, hexec⟩ | ⟨rfl, rfl | ⟨r₀, -, hexec⟩⟩)
  · obtain ⟨rfl, rfl⟩ := exec_getRedkey hexec
    refine ⟨hG _ _ hw, ?_⟩
    cases hfind : find w'.store.redkeys key with
    | ok cluster => exact hfound w' cluster hw (find_eq_ok.mp hfind)
    | error e =>
        exact tolerating_error.mpr ⟨fun _ => hmissing w' hw (find_eq_error.mp hfind).2,
          fun _ => hAI w' hw⟩
  · exact ⟨hG _ _ hw, tolerating_error.mpr ⟨fun h => (by cases h), fun _ => hAI _ hw⟩⟩
  · obtain ⟨-, rfl⟩ := exec_getRedkey hexec
    exact ⟨hG _ _ hw, tolerating_error.mpr ⟨fun h => (by cases h), fun _ => hAI _ hw⟩⟩

/-- A delete keeps what the loss of the config does not break. -/
theorem fresh_delete_call {k : NamespacedName}
    (hG : ∀ w r w', A w → A w' → G (.deleteConfig k) w r w')
    (herase : ∀ w, A w → A (w.eraseConfig k)) :
    ∀ w r w', A w → (freshRuns fill env ok).exec (.deleteConfig k) w r w' →
      G (.deleteConfig k) w r w' ∧ A w' := by
  intro w r w' hw hexec
  have hw' : A w' := by
    refine freshRuns_state hw ?_ hexec
    intro r w' _ hexec
    rw [(exec_deleteConfig hexec).2]
    exact herase w hw
  exact ⟨hG w r w' hw hw', hw'⟩

/-- A status write, accepted or not. -/
theorem fresh_write_call {written : Redkey}
    (hG : ∀ w r w', A w → B w' → G (.updateRedkeyStatus written) w r w')
    (hAB : ∀ w, A w → B w)
    (hwrite : ∀ w live stored, A w → w.store.redkeys written.key = some live →
      live.writeStatus written = .ok stored → B (w.setRedkey written.key stored)) :
    ∀ w r w', A w → (freshRuns fill env ok).exec (.updateRedkeyStatus written) w r w' →
      G (.updateRedkeyStatus written) w r w' ∧ B w' := by
  intro w r w' hw hexec
  have hw' : B w' := by
    refine freshRuns_state (hAB w hw) ?_ hexec
    intro r w' _ hexec
    rcases exec_updateRedkeyStatus hexec with ⟨live, stored, hlive, hstored, -, rfl⟩ | ⟨-, rfl, -⟩
    · exact hwrite w live stored hw hlive hstored
    · exact hAB w' hw
  exact ⟨hG w r w' hw hw', hw'⟩

/-- A create that is accepted, or finds the name taken. Both count as success,
so `B` has to hold after either. -/
theorem fresh_create_found_triple {cluster : Redkey} {highest : Option RedkeyConfig}
    (hq : Quiet (freshRuns fill env ok) G) (hA : Stable (freshRuns fill env ok) A)
    (hB : Stable (freshRuns fill env ok) B) (hAI : ∀ w, A w → I w) (hBI : ∀ w, B w → I w)
    (hG : ∀ w r w', A w → w' = w ∨ B w' → G (.createConfig (newConfig cluster highest)) w r w')
    (hadd : ∀ w, A w → (∀ c ∈ w.store.configs, c.key ≠ (newConfig cluster highest).key) →
      B (w.addConfig (newConfig cluster highest)))
    (hfound : ∀ w, A w → (∃ c ∈ w.store.configs, c.key = (newConfig cluster highest).key) → B w) :
    Triple (freshRuns fill env ok) G I A (createNewConfig cluster highest) fun _ => B := by
  refine createNewConfig_triple hq hA hB ?_
  -- what the server does when it sees the request
  have hcall : ∀ w r w', A w → World.exec fill (.createConfig (newConfig cluster highest)) w r w' →
      B w' ∧ (r = .ok () ∨ r = .error .alreadyExists) := by
    intro w r w' hw hexec
    rcases exec_createConfig hexec with ⟨rfl, hnew, rfl⟩ | ⟨rfl, htaken, rfl⟩
    · exact ⟨hadd w hw hnew, Or.inl rfl⟩
    · exact ⟨hfound _ hw htaken, Or.inr rfl⟩
  have hgone : ∀ w, I w → Tolerating .alreadyExists (fun _ => B) B I
      (lost (.createConfig (newConfig cluster highest))) w :=
    fun w hw => tolerating_error.mpr ⟨fun h => (by cases h), fun _ => hw⟩
  rintro w r w' hw (⟨-, hexec⟩ | ⟨rfl, rfl | ⟨r₀, -, hexec⟩⟩)
  · obtain ⟨hw', rfl | rfl⟩ := hcall w r w' hw hexec
    · exact ⟨hG w _ w' hw (Or.inr hw'), hw'⟩
    · exact ⟨hG w _ w' hw (Or.inr hw'), hw'⟩
  · exact ⟨hG _ _ _ hw (Or.inl rfl), hgone _ (hAI _ hw)⟩
  · obtain ⟨hw', -⟩ := hcall w r₀ w' hw hexec
    exact ⟨hG w _ w' hw (Or.inr hw'), hgone w' (hBI w' hw')⟩

/-- The same, for a `B` that does not depend on why the create has
succeeded. -/
theorem fresh_create_triple {cluster : Redkey} {highest : Option RedkeyConfig}
    (hq : Quiet (freshRuns fill env ok) G) (hA : Stable (freshRuns fill env ok) A)
    (hB : Stable (freshRuns fill env ok) B) (hAI : ∀ w, A w → I w) (hBI : ∀ w, B w → I w)
    (hG : ∀ w r w', A w → w' = w ∨ B w' → G (.createConfig (newConfig cluster highest)) w r w')
    (hadd : ∀ w, A w → (∀ c ∈ w.store.configs, c.key ≠ (newConfig cluster highest).key) →
      B (w.addConfig (newConfig cluster highest)))
    (hfound : ∀ w, A w → B w) :
    Triple (freshRuns fill env ok) G I A (createNewConfig cluster highest) fun _ => B :=
  fresh_create_found_triple hq hA hB hAI hBI hG hadd fun w hw _ => hfound w hw

/-- The status of an active config is written over what was re-read. `A` has
to survive each attempt, as a conflict starts another one. -/
theorem fresh_aggregate_triple {now : Time} {cluster : Redkey} {configs : List RedkeyConfig}
    {Q : Redkey → World → Prop} (hA : Stable (freshRuns fill env ok) A)
    (hQ : ∀ latest, Stable (freshRuns fill env ok) (Q latest)) (hAI : ∀ w, A w → I w)
    (hgetG : ∀ w r, A w → G (.getRedkey cluster.key .aggregateStatus) w r w)
    (hfound : ∀ w latest, A w → w.store.redkeys cluster.key = some latest → Q latest w)
    (hput : ∀ activeConfig, selectActiveConfig configs = some activeConfig →
      ∀ (latest : Redkey) w r w', Q latest w →
      (freshRuns fill env ok).exec (.updateRedkeyStatus { latest with
        status := aggregatedStatus now cluster.generation latest activeConfig }) w r w' →
      G (.updateRedkeyStatus { latest with
        status := aggregatedStatus now cluster.generation latest activeConfig }) w r w' ∧ A w') :
    Triple (freshRuns fill env ok) G I A (aggregateStatus now cluster configs) fun _ => A := by
  refine aggregateStatus_triple hAI hA hQ ?_ hput
  intro w r w' hw hexec
  obtain ⟨hG, hout⟩ := fresh_get_call (B := A) (I := A) (fun _ h => h) hgetG hfound
    (fun _ h _ => h) w r w' hw hexec
  refine ⟨hG, ?_⟩
  cases r with
  | ok latest => exact hout
  | error e => exact (eq_or_ne e .notFound).elim (tolerating_error.mp hout).1 (tolerating_error.mp hout).2

end Runs

/-! ## Answers

Concrete runs: a call is answered from the store, lists in the order of the store, unless the
server is down for it. -/

namespace World

/-- The store of a cluster that was just created. -/
def initial (cluster : Redkey) : World where
  store := {
    redkeys := fun key => if key = cluster.key then some cluster else none
    configs := []
    robin := fun _ _ => none }

/-- A new cluster has nothing that could be named wrongly. -/
theorem initial_formed (cluster : Redkey) : (initial cluster).Formed cluster.key where
  keyed live hlive := by
    simp only [initial, if_true, Option.some.injEq] at hlive
    rw [hlive]
  nodup := List.nodup_nil
  named c hc := by cases hc

variable (fill : Deployment → Deployment) (down : Call → Bool)

/-- The answer of a server that is there. -/
def served (c : Call) (w : World) : Resp c × World :=
  ((serve fill c w.store).1,
    { w with
      store := (serve fill c w.store).2
      created := w.created ++ createdBy c (serve fill c w.store).1 })

/-- The answer of a server that is down for some calls: those get lost, and
have had no effect. -/
def answer (c : Call) (w : World) : Resp c × World :=
  if down c then (lost c, w) else w.served fill c

/-- The server's own order is one of the orders a list may come in. -/
theorem served_exec (c : Call) (w : World) :
    World.exec fill c w (w.served fill c).1 (w.served fill c).2 := by
  refine ⟨?_, rfl, rfl⟩
  cases c with
  | listConfigs ns label value site => exact ⟨rfl, _, List.Perm.refl _, rfl⟩
  | _ => rfl

variable {env : World → World → Prop} {ok : (c : Call) → World → Resp c → Prop}
variable {init : World → Prop} {key : NamespacedName}

/-- Each answer is a step of the system with lost requests. -/
theorem answer_exec (c : Call) (w : World) (h : down c = true ∨ ok c w (w.served fill c).1) :
    (freshRuns fill env ok).exec c w (w.answer fill down c).1 (w.answer fill down c).2 := by
  unfold answer
  cases hdown : down c with
  | true => exact Or.inr ⟨rfl, Or.inl rfl⟩
  | false =>
      refine Or.inl ⟨h.resolve_left ?_, served_exec fill c w⟩
      simp [hdown]

/-- Answering some calls of a reconcile is a run of the system. -/
theorem reachable_answer [∀ c w r, Decidable (ok c w r)]
    {m : Machine Call Resp (Except Err Result) World}
    (hm : Reachable (freshRuns fill env ok) (Reconciles key) init m) (n : ℕ)
    (hok : ∀ p, m.thread = some p → p.checks (fun c w => answer fill down c w)
      (fun c w => down c || decide (ok c w (served fill c w).1)) n m.shared = true) :
    Reachable (freshRuns fill env ok) (Reconciles key) init
      (m.advance (fun c w => answer fill down c w) n) :=
  hm.advance (fun c w => down c || decide (ok c w (served fill c w).1))
    (fun c w h => answer_exec fill down c w (by simpa using h)) n hok

/-- The world after a reconcile whose calls are all answered. -/
def reconciled (key : NamespacedName) (now : Time) (w : World) : World :=
  (Machine.advance (fun c w => answer fill (fun _ => false) c w) 40
    ⟨w, some (reconcile { resyncInterval := 60 } now key)⟩).shared

/-- A reconcile that is over after forty calls, from an idle machine to an
idle machine. -/
theorem reachable_reconciled [∀ c w r, Decidable (ok c w r)] {w : World} {now : Time}
    (hm : Reachable (freshRuns fill env ok) (Reconciles key) init ⟨w, none⟩)
    (hok : (reconcile { resyncInterval := 60 } now key).checks
      (fun c w => answer fill (fun _ => false) c w)
      (fun c w => false || decide (ok c w (served fill c w).1)) 40 w = true)
    (hdone : (Machine.advance (fun c w => answer fill (fun _ => false) c w) 40
      ⟨w, some (reconcile { resyncInterval := 60 } now key)⟩).done = true) :
    Reachable (freshRuns fill env ok) (Reconciles key) init ⟨w.reconciled fill key now, none⟩ := by
  refine (reachable_answer fill (fun _ => false) (hm.start ⟨_, now, rfl⟩) 40 ?_).finish hdone
  rintro p ⟨rfl⟩
  exact hok

/-- It is a run of every system that may answer them all, and it ends well
when the reconcile does. -/
theorem reachable_reconciled_ok {M : Sem Call Resp World}
    (hM : ∀ c w r w', World.exec fill c w r w' → M.exec c w r w') {w : World} {now : Time}
    {res : Result} (hm : Reachable M (Reconciles key) init ⟨w, none⟩)
    (hres : (Machine.advance (fun c w => answer fill (fun _ => false) c w) 40
      ⟨w, some (reconcile { resyncInterval := 60 } now key)⟩).thread = some (.ret (.ok res))) :
    Reachable M (Reconciles key) init
      ⟨w.reconciled fill key now, some (.ret (.ok res))⟩ := by
  have hrun := (hm.start ⟨{ resyncInterval := 60 }, now, rfl⟩).advance (fun _ _ => true)
    (fun c w _ => hM c w _ _ (served_exec fill c w)) 40 fun p _ => Prog.checks_true _ _ p _
  rw [← hres]
  exact hrun

/-- The world after an edit of the spec. -/
def edited (key : NamespacedName) (spec : RedkeySpec) (w : World) : World :=
  match w.store.redkeys key with
  | some live => w.setRedkey key (live.edit spec)
  | none => w

/-- The world after a report on the config with the sequence. -/
def reported (key : NamespacedName) (sequence : Int) (status : RedkeyConfigStatus) (w : World) :
    World :=
  match (w.configsOf key).find? fun c => c.spec.sequence = sequence with
  | some c => w.robinWrite c.key status
  | none => w

variable {user : World → Redkey → RedkeySpec → Prop}
variable {robin : List RedkeyConfig → RedkeyConfig → RedkeyConfigStatus → Prop}

/-- An edit that `user` allows is a step of the user. -/
theorem env_edited [∀ w live spec, Decidable (user w live spec)] {w : World} (spec : RedkeySpec)
    (h : (w.store.redkeys key).any (fun live => decide (user w live spec)) = true) :
    World.Env key user robin w (w.edited key spec) := by
  unfold edited
  cases hlive : w.store.redkeys key with
  | none => simp [hlive] at h
  | some live => exact .userUpdate hlive (by simpa [hlive] using h)

/-- A report that `robin` allows is a step of Robin. -/
theorem env_reported [∀ configs c status, Decidable (robin configs c status)] {w : World}
    {sequence : Int} {status : RedkeyConfigStatus}
    (h : ((w.configsOf key).find? fun c => c.spec.sequence = sequence).any
      (fun c => decide (robin (w.configsOf key) c status)) = true) :
    World.Env key user robin w (w.reported key sequence status) := by
  unfold reported
  cases hc : (w.configsOf key).find? fun c => c.spec.sequence = sequence with
  | none => simp [hc] at h
  | some c => exact .robinWrite (List.mem_of_find?_eq_some hc) (by simpa [hc] using h)

end World

end RedkeyOperator
