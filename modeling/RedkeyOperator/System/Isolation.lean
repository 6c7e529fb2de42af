import RedkeyOperator.System.Fresh
import RedkeyOperator.Controller.Footprint

/-!
# Clusters do not interfere

The objects of a cluster are told apart by their names and by one label. The names are built from
the name of the Redkey with `-robin` or a dash and a number, and both can be undone; the label
always has the operator's value, whatever the user's labels are. So the requests of a reconcile
change the objects of its own cluster only (`serve_touches`), and reconciles of two clusters
commute (`clusters_do_not_interfere`), and may also run at the same time
(`concurrent_reconciles`).

This is about configs that the operator made: named after their cluster and their sequence.
-/

namespace RedkeyOperator

open Interleaved

/-! ## Names -/

/-- Robin's objects of two clusters have different names: the ending is the
same for all of them. -/
theorem robinKeyOf_injective : Function.Injective robinKeyOf := by
  intro X Y h
  rcases NamespacedName.mk.inj h with ⟨hns, hname⟩
  have hlist := congrArg String.toList hname
  simp only [String.toList_append, List.append_cancel_right_eq] at hlist
  rcases X with ⟨ns, X⟩
  rcases Y with ⟨ns', Y⟩
  obtain rfl : ns = ns' := hns
  exact congrArg (NamespacedName.mk ns) (String.toList_injective hlist)

/-- So do their configs. A name such as `a-1-1` can be split in one way only,
at its last dash. -/
theorem configKeyOf_injective {X Y : NamespacedName} {m n : ℕ}
    (h : configKeyOf X m = configKeyOf Y n) : X = Y := by
  rcases NamespacedName.mk.inj h with ⟨hns, hname⟩
  rcases Decimal.dashed_inj (Int.natCast_nonneg m) (Int.natCast_nonneg n) hname with ⟨hbase, -⟩
  rcases X with ⟨ns, X⟩
  rcases Y with ⟨ns', Y⟩
  exact congrArg₂ NamespacedName.mk hns hbase

/-! ## What a request changes -/

/-- The stored objects of a cluster: each under its own key, the configs named
after it. -/
structure Store.Own (key : NamespacedName) (s : Store) : Prop where
  redkey : ∀ live, s.redkeys key = some live → live.key = key
  robin : ∀ k obj, s.robin k (robinKeyOf key) = some obj → (Obj.metadata obj).key = robinKeyOf key
  configs : ∀ c ∈ s.configs, c.selected key.ns clusterLabel key.name = true → c.NamedFor key

/-- What a request for a cluster may do to the store. It writes objects of the
cluster's own names and nothing else. -/
inductive Store.Touches (key : NamespacedName) (s : Store) : Store → Prop
  | nothing : Touches key s s
  /-- A status write; the Redkey is there and keeps its key. -/
  | redkey {live stored : Redkey} (hlive : s.redkeys key = some live)
      (hkey : stored.key = live.key) : Touches key s (s.setRedkey key stored)
  /-- One of Robin's objects is written or deleted. -/
  | robin {k : Kind} {obj : Option (Obj k)}
      (hkey : ∀ o, obj = some o → (Obj.metadata o).key = robinKeyOf key) :
      Touches key s (s.setObjs k (Function.update (s.robin k) (robinKeyOf key) obj))
  /-- A config with the name and the label of the cluster. -/
  | create {config : RedkeyConfig} (hnamed : config.NamedFor key)
      (hns : config.metadata.ns = key.ns)
      (hlabel : config.metadata.labels.lookup clusterLabel = some key.name) :
      Touches key s { s with configs := s.configs ++ [config] }
  | erase {n : ℕ} :
      Touches key s { s with configs := Configs.erase s.configs (configKeyOf key n) }

section Serve

variable {fill : Deployment → Deployment} {key key' : NamespacedName} {s t : Store} {c : Call}

theorem withDefaults_key (hfill : ∀ d, (fill d).metadata = d.metadata) {k : Kind} (obj : Obj k) :
    (Obj.metadata (withDefaults fill k obj)).key = (Obj.metadata obj).key := by
  cases k with
  | deployment => exact congrArg ObjectMeta.key (hfill _)
  | _ => rfl

/-- The label of the cluster is among the labels of every new config, since it
is put in last. -/
theorem newConfig_label (cluster : Redkey) (highest : Option RedkeyConfig) :
    (newConfig cluster highest).metadata.labels.lookup clusterLabel = some cluster.name := by
  have h := newConfig_selected cluster highest
  simp only [RedkeyConfig.selected, decide_eq_true_eq] at h
  exact h.2

/-- The name is made from the cluster and the sequence. -/
theorem newConfig_namedFor {cluster : Redkey} {highest : Option RedkeyConfig} {n : ℕ}
    (hn : nextSequence highest = n) : (newConfig cluster highest).NamedFor cluster.key :=
  ⟨n, hn, by rw [newConfig_key, hn]; rfl⟩

/-- The state after a request that may be refused. -/
theorem commit_state {α : Type} {outcome : Except ApiError α} {put : α → Store} {T : Store → Prop}
    (hsame : T s) (hput : ∀ a, outcome = .ok a → T (put a)) : T (s.commit outcome put).2 := by
  cases outcome with
  | ok a => exact hput a rfl
  | error e => exact hsame

/-- A request for a cluster touches only what is its own. -/
theorem serve_touches (hfill : ∀ d, (fill d).metadata = d.metadata) (hc : c.IsFor key) :
    s.Touches key (serve fill c s).2 := by
  cases c with
  | getRedkey k site => exact .nothing
  | listConfigs ns label value site => exact .nothing
  | get k k' => exact .nothing
  | metric e => exact .nothing
  | updateRedkeyStatus cluster =>
      obtain rfl : cluster.key = key := hc
      cases hlive : s.redkeys cluster.key with
      | none =>
          simp only [serve, hlive]
          exact .nothing
      | some live =>
          cases hstored : live.writeStatus cluster with
          | error e =>
              simp only [serve, hlive, hstored]
              exact .nothing
          | ok stored =>
              simp only [serve, hlive, hstored]
              -- a status write stores the live Redkey with another status
              refine .redkey hlive ?_
              rw [(Redkey.writeStatus_ok hstored).2]
              rfl
  | createConfig config =>
      rcases hc with ⟨cluster, highest, rfl, rfl, n, hn⟩
      refine commit_state .nothing ?_
      intro configs hcreate
      rw [(Configs.create_ok hcreate).1]
      exact .create (newConfig_namedFor hn) rfl (newConfig_label cluster highest)
  | deleteConfig k =>
      rcases hc with ⟨n, rfl⟩
      refine commit_state .nothing ?_
      intro configs hdelete
      rw [Configs.delete_ok hdelete]
      exact .erase
  | create k obj =>
      refine commit_state .nothing ?_
      intro objs hcreate
      rw [(Objs.create_ok hcreate).1, show (Obj.metadata obj).key = robinKeyOf key from hc]
      refine .robin ?_
      rintro o ⟨rfl⟩
      exact (withDefaults_key hfill obj).trans hc
  | patch k obj =>
      refine commit_state .nothing ?_
      intro objs hpatch
      rw [(Objs.patch_ok hpatch).1, show (Obj.metadata obj).key = robinKeyOf key from hc]
      refine .robin ?_
      rintro o ⟨rfl⟩
      exact (withDefaults_key hfill obj).trans hc
  | delete k k' =>
      obtain rfl : k' = robinKeyOf key := hc
      refine commit_state .nothing ?_
      intro objs hdelete
      rw [Objs.delete_ok hdelete]
      exact .robin fun o ho => by cases ho

/-- The objects of every cluster stay its own, whichever cluster the request
is for. -/
theorem Store.Touches.own (h : s.Touches key' t) (hs : s.Own key) : t.Own key := by
  cases h with
  | nothing => exact hs
  | @redkey live stored hlive hkey =>
      refine ⟨?_, hs.robin, hs.configs⟩
      intro live' hlive'
      -- the Redkey of this cluster or of another one
      by_cases heq : key = key'
      · subst heq
        rw [Store.setRedkey_redkeys_self] at hlive'
        obtain rfl := Option.some.inj hlive'
        exact hkey.trans (hs.redkey live hlive)
      · rw [Store.setRedkey_redkeys_ne s _ heq] at hlive'
        exact hs.redkey live' hlive'
  | @robin k obj hkey =>
      refine ⟨hs.redkey, ?_, hs.configs⟩
      intro k' o ho
      by_cases hk : k' = k
      · subst hk
        rw [Store.setObjs_robin_self] at ho
        -- the object of this cluster or of another one
        by_cases heq : robinKeyOf key = robinKeyOf key'
        · rw [heq, Function.update_self] at ho
          rw [heq]
          exact hkey o ho
        · rw [Function.update_of_ne heq] at ho
          exact hs.robin k' o ho
      · rw [Store.setObjs_robin_ne s _ hk] at ho
        exact hs.robin k' o ho
  | @create config hnamed hns hlabel =>
      refine ⟨hs.redkey, hs.robin, ?_⟩
      intro c hc hsel
      rcases List.mem_append.mp hc with hold | hnew
      · exact hs.configs c hold hsel
      · -- the label says whose config it is
        rw [List.mem_singleton.mp hnew] at hsel ⊢
        simp only [RedkeyConfig.selected, hns, hlabel, Option.some.injEq, decide_eq_true_eq] at hsel
        obtain rfl : key' = key := by
          rcases key with ⟨ns, name⟩
          rcases key' with ⟨ns', name'⟩
          exact congrArg₂ NamespacedName.mk hsel.1 hsel.2
        exact hnamed
  | erase =>
      refine ⟨hs.redkey, hs.robin, ?_⟩
      exact fun c hc => hs.configs c (Configs.mem_erase.mp hc).1

/-- What is read of a cluster is its own. -/
theorem ownAnswer_serve (hc : c.IsFor key) (hs : s.Own key) :
    OwnAnswer key c (serve fill c s).1 := by
  cases c with
  | getRedkey k site =>
      obtain rfl : k = key := hc
      change OwnAnswer k (.getRedkey k site) (find s.redkeys k)
      cases hfind : find s.redkeys k with
      | ok live => exact hs.redkey live (find_eq_ok.mp hfind)
      | error e => trivial
  | listConfigs ns label value site =>
      rcases hc with ⟨rfl, rfl, rfl⟩
      intro c hc
      exact hs.configs c (List.mem_of_mem_filter hc) (List.of_mem_filter hc)
  | get k k' =>
      obtain rfl : k' = robinKeyOf key := hc
      change OwnAnswer key (.get k (robinKeyOf key)) (find (s.robin k) (robinKeyOf key))
      cases hfind : find (s.robin k) (robinKeyOf key) with
      | ok obj => exact hs.robin k obj (find_eq_ok.mp hfind)
      | error e => trivial
  | _ => trivial

/-! ## Parts of the store -/

/-- Some keys of each sort. A region is a part of the store that a request may
leave alone, or depend on. -/
structure Region where
  redkey : NamespacedName → Prop
  robin : NamespacedName → Prop
  config : NamespacedName → Prop

/-- The keys of a cluster. -/
def Region.of (key : NamespacedName) : Region where
  redkey k := k = key
  robin k := k = robinKeyOf key
  config k := ∃ n, k = configKeyOf key n

/-- The keys of neither cluster. What is stored under them is out of reach of
both reconciles. -/
def Region.others (X Y : NamespacedName) : Region where
  redkey k := k ≠ X ∧ k ≠ Y
  robin k := k ≠ robinKeyOf X ∧ k ≠ robinKeyOf Y
  config k := ∀ n, k ≠ configKeyOf X n ∧ k ≠ configKeyOf Y n

/-- The region has no key of the cluster. -/
structure Region.Avoids (ρ : Region) (key : NamespacedName) : Prop where
  redkey : ¬ ρ.redkey key
  robin : ¬ ρ.robin (robinKeyOf key)
  config : ∀ n, ¬ ρ.config (configKeyOf key n)

open Classical in
/-- The configs of a region. -/
noncomputable def Store.configsIn (ρ : Region) (s : Store) : List RedkeyConfig :=
  s.configs.filter fun c => decide (ρ.config c.key)

/-- The configs of a region are those with a key in it. -/
theorem Store.mem_configsIn {ρ : Region} {config : RedkeyConfig} :
    config ∈ s.configsIn ρ ↔ config ∈ s.configs ∧ ρ.config config.key := by
  simp [Store.configsIn]

/-- The stores have the same objects in the region. Configs are compared as
lists, since a list request returns them in this order. -/
structure Store.Agree (ρ : Region) (s t : Store) : Prop where
  redkeys : ∀ k, ρ.redkey k → s.redkeys k = t.redkeys k
  robin : ∀ kind k, ρ.robin k → s.robin kind k = t.robin kind k
  configs : s.configsIn ρ = t.configsIn ρ

/-- Stores that agree on a region cannot be told apart by it. -/
theorem Store.agree_equivalence (ρ : Region) : Equivalence (Store.Agree ρ) where
  refl _ := ⟨fun _ _ => rfl, fun _ _ _ => rfl, rfl⟩
  symm h := ⟨fun k hk => (h.redkeys k hk).symm, fun kind k hk => (h.robin kind k hk).symm,
    h.configs.symm⟩
  trans h h' := ⟨fun k hk => (h.redkeys k hk).trans (h'.redkeys k hk),
    fun kind k hk => (h.robin kind k hk).trans (h'.robin kind k hk), h.configs.trans h'.configs⟩

theorem region_of_avoids {X Y : NamespacedName} (h : X ≠ Y) : (Region.of X).Avoids Y where
  redkey hk := h hk.symm
  robin hk := h (robinKeyOf_injective hk).symm
  config n hk := by
    rcases hk with ⟨m, hm⟩
    exact h (configKeyOf_injective hm).symm

theorem others_avoids_left (X Y : NamespacedName) : (Region.others X Y).Avoids X where
  redkey hk := hk.1 rfl
  robin hk := hk.1 rfl
  config n hk := (hk n).1 rfl

theorem others_avoids_right (X Y : NamespacedName) : (Region.others X Y).Avoids Y where
  redkey hk := hk.2 rfl
  robin hk := hk.2 rfl
  config n hk := (hk n).2 rfl

/-- A request for a cluster leaves a region without its keys alone. -/
theorem Store.Touches.agree {ρ : Region} (h : s.Touches key t) (hρ : ρ.Avoids key) :
    s.Agree ρ t := by
  have hself := (Store.agree_equivalence ρ).refl s
  cases h with
  | nothing => exact hself
  | redkey hlive hkey =>
      refine ⟨?_, hself.robin, hself.configs⟩
      intro k hk
      have hne : k ≠ key := fun heq => hρ.redkey (heq ▸ hk)
      rw [Store.setRedkey_redkeys_ne s _ hne]
  | @robin k obj hkey =>
      refine ⟨hself.redkeys, ?_, hself.configs⟩
      intro k' key' hk
      have hne : key' ≠ robinKeyOf key := fun heq => hρ.robin (heq ▸ hk)
      -- an object of another kind is out of reach, one of this kind has another name
      by_cases hkind : k' = k
      · subst hkind
        rw [Store.setObjs_robin_self, Function.update_of_ne hne]
      · rw [Store.setObjs_robin_ne s _ hkind]
  | @create config hnamed hns hlabel =>
      refine ⟨hself.redkeys, hself.robin, ?_⟩
      rcases hnamed with ⟨n, -, hkey⟩
      simp [Store.configsIn, hkey, hρ.config n]
  | @erase n =>
      refine ⟨hself.redkeys, hself.robin, ?_⟩
      simp only [Store.configsIn, Configs.erase, List.filter_filter]
      refine List.filter_congr fun c _ => ?_
      by_cases hc : ρ.config c.key
      · have hne : c.key ≠ configKeyOf key n := fun heq => hρ.config n (heq ▸ hc)
        simp [hc, hne]
      · simp [hc]

/-- The same as a frame rule: what a program for a cluster does leaves such a
region alone. -/
theorem frames_serve (hfill : ∀ d, (fill d).metadata = d.metadata) {ρ : Region}
    (hρ : ρ.Avoids key) {I : Store → Prop} :
    Frames (serve fill) I (Store.Agree ρ) (Call.IsFor key) :=
  fun _ _ hc _ => (serve_touches hfill hc).agree hρ

/-! ### Its own part -/

namespace Store.Agree

theorem has_eq (h : s.Agree (.of key) t) (n : ℕ) :
    Configs.has s.configs (configKeyOf key n) = Configs.has t.configs (configKeyOf key n) := by
  have hin : ∀ s : Store, Configs.has s.configs (configKeyOf key n) = true ↔
      ∃ c ∈ s.configsIn (.of key), c.key = configKeyOf key n := by
    -- a config with such a name is in the region
    intro s
    rw [Configs.has_iff]
    constructor
    · rintro ⟨c, hc, hkey⟩
      exact ⟨c, Store.mem_configsIn.mpr ⟨hc, n, hkey⟩, hkey⟩
    · rintro ⟨c, hc, hkey⟩
      exact ⟨c, (Store.mem_configsIn.mp hc).1, hkey⟩
  rw [Bool.eq_iff_iff, hin s, hin t, h.configs]

/-- The same write to two stores that agree makes them agree again. -/
theorem setRedkey (h : s.Agree (.of key) t) (stored : Redkey) :
    (s.setRedkey key stored).Agree (.of key) (t.setRedkey key stored) where
  redkeys k hk := by
    obtain rfl : k = key := hk
    simp
  robin := h.robin
  configs := h.configs

theorem setObj (h : s.Agree (.of key) t) (k : Kind) (obj : Option (Obj k)) :
    (s.setObjs k (Function.update (s.robin k) (robinKeyOf key) obj)).Agree (.of key)
      (t.setObjs k (Function.update (t.robin k) (robinKeyOf key) obj)) where
  redkeys := h.redkeys
  robin k' key' hk := by
    by_cases hkind : k' = k
    · subst hkind
      obtain rfl : key' = robinKeyOf key := hk
      simp
    · rw [Store.setObjs_robin_ne s _ hkind, Store.setObjs_robin_ne t _ hkind]
      exact h.robin k' key' hk
  configs := h.configs

theorem append (h : s.Agree (.of key) t) (config : RedkeyConfig) :
    Store.Agree (.of key) { s with configs := s.configs ++ [config] }
      { t with configs := t.configs ++ [config] } where
  redkeys := h.redkeys
  robin := h.robin
  configs := by
    have hconfigs := h.configs
    simp only [Store.configsIn, List.filter_append] at hconfigs ⊢
    rw [hconfigs]

theorem erase (h : s.Agree (.of key) t) (k : NamespacedName) :
    Store.Agree (.of key) { s with configs := Configs.erase s.configs k }
      { t with configs := Configs.erase t.configs k } where
  redkeys := h.redkeys
  robin := h.robin
  configs := by
    have hcomm : ∀ s : Store, Store.configsIn (.of key)
        { s with configs := Configs.erase s.configs k } =
          Configs.erase (s.configsIn (.of key)) k := by
      -- the order of two filters does not matter
      intro s
      simp only [Store.configsIn, Configs.erase, List.filter_filter]
      exact List.filter_congr fun c _ => Bool.and_comm _ _
    rw [hcomm s, hcomm t, h.configs]

/-- The label selects configs that are named after the cluster. -/
theorem selected (h : s.Agree (.of key) t) (hs : s.Own key) (ht : t.Own key) :
    s.configs.filter (·.selected key.ns clusterLabel key.name) =
      t.configs.filter (·.selected key.ns clusterLabel key.name) := by
  have hin : ∀ s : Store, s.Own key → s.configs.filter (·.selected key.ns clusterLabel key.name) =
      (s.configsIn (.of key)).filter (·.selected key.ns clusterLabel key.name) := by
    intro s hs
    rw [Store.configsIn, List.filter_filter]
    refine List.filter_congr fun c hc => ?_
    cases hsel : c.selected key.ns clusterLabel key.name with
    | false => rfl
    | true =>
        rcases hs.configs c hc hsel with ⟨n, -, hkey⟩
        have hin : (Region.of key).config c.key := ⟨n, hkey⟩
        simp [hin]
  rw [hin s hs, hin t ht, h.configs]

/-- A request that looks at the cluster's object of a kind, and puts one in
its place. -/
theorem commit (h : s.Agree (.of key) t) (k : Kind) (request : Objs k → Except ApiError (Objs k))
    (outcome : Option (Obj k) → Except ApiError (Option (Obj k)))
    (hrequest : ∀ objs, request objs =
      (outcome (objs (robinKeyOf key))).map (Function.update objs (robinKeyOf key))) :
    (s.commit (request (s.robin k)) (s.setObjs k)).1 =
        (t.commit (request (t.robin k)) (t.setObjs k)).1 ∧
      (s.commit (request (s.robin k)) (s.setObjs k)).2.Agree (.of key)
        (t.commit (request (t.robin k)) (t.setObjs k)).2 := by
  rw [hrequest, hrequest, h.robin k (robinKeyOf key) rfl]
  cases outcome (t.robin k (robinKeyOf key)) with
  | ok obj => exact ⟨rfl, h.setObj k obj⟩
  | error e => exact ⟨rfl, h⟩

end Store.Agree

/-- The response to a request for a cluster, and what becomes of the cluster's
part, depend on that part. -/
theorem local_serve :
    Local (serve fill) (Store.Own key) (Store.Agree (.of key)) (Call.IsFor key) := by
  intro c s t hc hs ht h
  cases c with
  | getRedkey k site =>
      obtain rfl : k = key := hc
      refine ⟨?_, h⟩
      simp only [serve, find, h.redkeys k rfl]
  | updateRedkeyStatus cluster =>
      obtain rfl : cluster.key = key := hc
      simp only [serve, h.redkeys cluster.key rfl]
      cases t.redkeys cluster.key with
      | none => exact ⟨rfl, h⟩
      | some live =>
          dsimp only
          cases live.writeStatus cluster with
          | ok stored => exact ⟨rfl, h.setRedkey stored⟩
          | error e => exact ⟨rfl, h⟩
  | listConfigs ns label value site =>
      rcases hc with ⟨rfl, rfl, rfl⟩
      refine ⟨?_, h⟩
      -- the label shows only configs of the cluster
      simp only [serve, h.selected hs ht]
  | createConfig config =>
      rcases hc with ⟨cluster, highest, rfl, rfl, n, hn⟩
      have hkey : (newConfig cluster highest).key = configKeyOf cluster.key n := by
        rw [newConfig_key, hn]
        rfl
      simp only [serve, Configs.create, hkey, h.has_eq n]
      cases Configs.has t.configs (configKeyOf cluster.key n) with
      | true => exact ⟨rfl, h⟩
      | false => exact ⟨rfl, h.append _⟩
  | deleteConfig k =>
      rcases hc with ⟨n, rfl⟩
      simp only [serve, Configs.delete, h.has_eq n]
      cases Configs.has t.configs (configKeyOf key n) with
      | true => exact ⟨rfl, h.erase _⟩
      | false => exact ⟨rfl, h⟩
  | get k k' =>
      obtain rfl : k' = robinKeyOf key := hc
      refine ⟨?_, h⟩
      simp only [serve, find, h.robin k (robinKeyOf key) rfl]
  | create k obj =>
      refine h.commit k (Objs.create fill · obj)
        (·.elim (.ok (some (withDefaults fill k obj))) fun _ => .error .alreadyExists) ?_
      intro objs
      rw [Objs.create, show (Obj.metadata obj).key = robinKeyOf key from hc]
      cases objs (robinKeyOf key) <;> rfl
  | patch k obj =>
      refine h.commit k (Objs.patch fill · obj)
        (·.elim (.error .notFound) fun _ => .ok (some (withDefaults fill k obj))) ?_
      intro objs
      rw [Objs.patch, show (Obj.metadata obj).key = robinKeyOf key from hc]
      cases objs (robinKeyOf key) <;> rfl
  | delete k k' =>
      obtain rfl : k' = robinKeyOf key := hc
      refine h.commit k (Objs.delete · (robinKeyOf key))
        (·.elim (.error .notFound) fun _ => .ok none) ?_
      intro objs
      rw [Objs.delete]
      cases objs (robinKeyOf key) <;> rfl
  | metric e => exact ⟨rfl, h⟩

/-- A reconcile of one cluster can rely on the objects of both being their
own. -/
theorem serves_own {X Y : NamespacedName} (hfill : ∀ d, (fill d).metadata = d.metadata) :
    Serves (serve fill) (fun s => s.Own X ∧ s.Own Y) (OwnAnswer X) (Call.IsFor X) := by
  intro c s hc hs
  have htouches : s.Touches X (serve fill c s).2 := serve_touches hfill hc
  exact ⟨ownAnswer_serve hc hs.1, htouches.own hs.1, htouches.own hs.2⟩

/-! ## Whole reconciles -/

theorem serves_own_comm {X Y : NamespacedName} (hfill : ∀ d, (fill d).metadata = d.metadata) :
    Serves (serve fill) (fun s => s.Own X ∧ s.Own Y) (OwnAnswer Y) (Call.IsFor Y) := by
  intro c s hc hs
  have h := serves_own (Y := X) hfill c s hc hs.symm
  exact ⟨h.1, h.2.symm⟩

/-- The server of `World` lists configs in any order, and is otherwise the
same. -/
theorem ownAnswer_answers {w w' : World} {r : Resp c} (hc : c.IsFor key) (hs : w.store.Own key)
    (h : World.exec fill c w r w') :
    OwnAnswer key c r ∧ w'.store = (serve fill c w.store).2 := by
  cases c with
  | listConfigs ns label value site =>
      rcases exec_listConfigs h with ⟨⟨items, hperm, rfl⟩, rfl⟩
      rcases hc with ⟨rfl, rfl, rfl⟩
      refine ⟨?_, rfl⟩
      intro c hc
      have hmem := hperm.mem_iff.mp hc
      exact hs.configs c (List.mem_of_mem_filter hmem) (List.of_mem_filter hmem)
  | _ =>
      have hserve : (r, w'.store) = serve fill _ w.store := h.1
      have hown : OwnAnswer key _ (serve fill _ w.store).1 := ownAnswer_serve hc hs
      rw [← hserve] at hown
      exact ⟨hown, congrArg Prod.snd hserve⟩

/-- The listed configs have the label of the cluster. -/
theorem listConfigs_labelled {env : World → World → Prop}
    {ok : (c : Call) → World → Resp c → Prop} {cluster : Redkey} {w w' : World}
    {configs : List RedkeyConfig}
    (hrun : Runs (freshRuns fill env ok) (listConfigs cluster) w (.ok configs) w') :
    ∀ c ∈ configs, c.metadata.labels.lookup clusterLabel = some cluster.name := by
  rcases hrun with ⟨r, w₁, hexec, hrest⟩
  cases r with
  | error e => cases hrest.1
  | ok items =>
      obtain ⟨heq, -⟩ := hrest
      obtain rfl : configs = sortBySequence items := Except.ok.inj heq
      rcases hexec with ⟨-, hexec⟩ | ⟨hlost, -⟩
      · rcases (exec_listConfigs hexec).1 with ⟨items', hperm, hitems⟩
        obtain rfl : items = items' := Except.ok.inj hitems
        intro c hc
        have hmem := hperm.mem_iff.mp ((List.perm_insertionSort _ items).mem_iff.mp hc)
        have hsel := List.of_mem_filter hmem
        simp only [RedkeyConfig.selected, decide_eq_true_eq] at hsel
        exact hsel.2
      · cases hlost

/-- A lost reply says nothing. -/
theorem ownAnswer_lost (c : Call) : OwnAnswer key c (lost c) := by
  cases c <;> trivial

/-- A reconcile, with any of its calls lost, keeps the objects of another
cluster. -/
theorem reconcile_keeps {X Y : NamespacedName} (hfill : ∀ d, (fill d).metadata = d.metadata)
    (hXY : X ≠ Y) {r : RedkeyReconciler} {now : Time} {w w' : World} {res : Except Err Result}
    (hX : w.store.Own X) (hY : w.store.Own Y)
    (hrun : Runs (freshRuns fill (fun _ _ => False) fun _ _ _ => True) (reconcile r now X) w res
      w') :
    w'.store.Own Y ∧ w.store.Agree (.of Y) w'.store := by
  have hstable : Stable (freshRuns fill (fun _ _ => False) fun _ _ _ => True) fun v =>
      v.store.Own X ∧ v.store.Own Y ∧ w.store.Agree (.of Y) v.store :=
    fun _ _ hstep => hstep.2.elim
  refine (hrun.post (wp_of_uses (G := fun _ _ _ _ => True) hstable ?_ reconcile_uses
    ⟨hX, hY, (Store.agree_equivalence _).refl _⟩)).2
  rintro c v r v' hc ⟨hX, hY, hagree⟩ hexec
  -- one request, answered or not
  have hstep : ∀ (r : Resp c) v', World.exec fill c v r v' → OwnAnswer X c r ∧
      v'.store.Own X ∧ v'.store.Own Y ∧ w.store.Agree (.of Y) v'.store := by
    intro r v' hexec
    rcases ownAnswer_answers hc hX hexec with ⟨hown, hstore⟩
    have htouches : v.store.Touches X v'.store := hstore ▸ serve_touches hfill hc
    refine ⟨hown, htouches.own hX, htouches.own hY, ?_⟩
    exact (Store.agree_equivalence _).trans hagree (htouches.agree (region_of_avoids hXY.symm))
  rcases hexec with ⟨-, hexec⟩ | ⟨rfl, rfl | ⟨r₀, -, hexec⟩⟩
  · exact ⟨(hstep r v' hexec).1, trivial, (hstep r v' hexec).2⟩
  · exact ⟨ownAnswer_lost c, trivial, hX, hY, hagree⟩
  · exact ⟨ownAnswer_lost c, trivial, (hstep r₀ v' hexec).2⟩

/-- Stores that agree on all parts are the same, up to the order of the
configs. -/
theorem Store.Agree.same {X Y : NamespacedName} (hXY : X ≠ Y) (hX : s.Agree (.of X) t)
    (hY : s.Agree (.of Y) t) (hothers : s.Agree (.others X Y) t) :
    s.redkeys = t.redkeys ∧ s.robin = t.robin ∧ s.configs.Perm t.configs := by
  classical
  refine ⟨?_, ?_, ?_⟩
  · funext k
    by_cases hk : k = X
    · exact hX.redkeys k hk
    · by_cases hk' : k = Y
      · exact hY.redkeys k hk'
      · exact hothers.redkeys k ⟨hk, hk'⟩
  · funext kind k
    by_cases hk : k = robinKeyOf X
    · exact hX.robin kind k hk
    · by_cases hk' : k = robinKeyOf Y
      · exact hY.robin kind k hk'
      · exact hothers.robin kind k ⟨hk, hk'⟩
  · -- the configs of X, those of Y and the others make up the store
    have hparts : ∀ s : Store, (s.configsIn (.of X) ++ (s.configsIn (.of Y) ++
        s.configsIn (.others X Y))).Perm s.configs := by
      intro s
      have hrest : ((s.configs.filter fun c => !decide ((Region.of X).config c.key))).Perm
          (s.configsIn (.of Y) ++ s.configsIn (.others X Y)) := by
        have hsplit := List.filter_append_perm (fun c => decide ((Region.of Y).config c.key))
          (s.configs.filter fun c => !decide ((Region.of X).config c.key))
        refine hsplit.symm.trans ?_
        rw [List.filter_filter, List.filter_filter, Store.configsIn, Store.configsIn]
        refine List.Perm.append (List.Perm.of_eq ?_) (List.Perm.of_eq ?_)
        · refine List.filter_congr fun c _ => ?_
          by_cases hc : (Region.of Y).config c.key
          · rcases hc with ⟨n, hn⟩
            have hnot : ¬ (Region.of X).config c.key :=
              hn ▸ (region_of_avoids hXY).config n
            simp [hnot]
          · simp [hc]
        · refine List.filter_congr fun c _ => ?_
          rw [Bool.eq_iff_iff]
          simp only [Bool.and_eq_true, Bool.not_eq_true', decide_eq_false_iff_not,
            decide_eq_true_eq]
          simp only [Region.of, Region.others, not_exists, forall_and]
          exact and_comm
      exact (hrest.symm.append_left _).trans (List.filter_append_perm _ _)
    exact (hparts s).symm.trans (by rw [hX.configs, hY.configs, hothers.configs]; exact hparts t)

/-- Two reconciles at the same time, their requests in any order, have the
results they have alone, and leave the store that they leave one after the
other. -/
theorem concurrent_reconciles {X Y : NamespacedName} (hfill : ∀ d, (fill d).metadata = d.metadata)
    (hXY : X ≠ Y) (hX : s.Own X) (hY : s.Own Y) {r r' : RedkeyReconciler} {now now' : Time}
    {a b : Except Err Result}
    (hrun : Shuffle (serve fill) (reconcile r now X) (reconcile r' now' Y) s a b t) :
    a = ((reconcile r now X).run (serve fill) s).1 ∧
      b = ((reconcile r' now' Y).run (serve fill) s).1 ∧
      ((reconcile r now X).run (serve fill) s).2.Agree (.of X) t ∧
      ((reconcile r' now' Y).run (serve fill) s).2.Agree (.of Y) t := by
  have hleft := Local.shuffle (Store.agree_equivalence (.of X)) (serves_own hfill)
    (serves_own_comm hfill) (fun c s t hc hs ht => local_serve c s t hc hs.1 ht.1)
    (frames_serve hfill (region_of_avoids hXY)) hrun reconcile_uses reconcile_uses ⟨hX, hY⟩
  have hright := Local.shuffle (Store.agree_equivalence (.of Y)) (serves_own hfill)
    (serves_own_comm hfill) (fun c s t hc hs ht => local_serve c s t hc hs.1 ht.1)
    (frames_serve hfill (region_of_avoids hXY.symm)) hrun.symm reconcile_uses reconcile_uses
    ⟨hY, hX⟩
  exact ⟨hleft.1, hright.1, hleft.2, hright.2⟩

/-- The other order gives the same store: each program finds its own part as
if the other had not run, and the rest is left alone by both. -/
theorem reconciles_commute {X Y : NamespacedName} (hfill : ∀ d, (fill d).metadata = d.metadata)
    (hXY : X ≠ Y) (hX : s.Own X) (hY : s.Own Y) (p q : Rec Result)
    (hp : p.Uses (OwnAnswer X) (Call.IsFor X)) (hq : q.Uses (OwnAnswer Y) (Call.IsFor Y)) :
    (p.run (serve fill) (q.run (serve fill) s).2).1 = (p.run (serve fill) s).1 ∧
      (q.run (serve fill) (p.run (serve fill) s).2).1 = (q.run (serve fill) s).1 ∧
      (p.run (serve fill) (q.run (serve fill) s).2).2.redkeys =
        (q.run (serve fill) (p.run (serve fill) s).2).2.redkeys ∧
      (p.run (serve fill) (q.run (serve fill) s).2).2.robin =
        (q.run (serve fill) (p.run (serve fill) s).2).2.robin ∧
      (p.run (serve fill) (q.run (serve fill) s).2).2.configs.Perm
        (q.run (serve fill) (p.run (serve fill) s).2).2.configs := by
  have hserves := serves_own (X := X) (Y := Y) hfill
  have hserves' := serves_own_comm (X := X) (Y := Y) hfill
  have hleft := Local.run_after (Store.agree_equivalence (.of X)) hserves hserves'
    (fun c s t hc hs ht => local_serve c s t hc hs.1 ht.1)
    (frames_serve hfill (region_of_avoids hXY)) hp hq ⟨hX, hY⟩
  have hright := Local.run_after (Store.agree_equivalence (.of Y)) hserves' hserves
    (fun c s t hc hs ht => local_serve c s t hc hs.2 ht.2)
    (frames_serve hfill (region_of_avoids hXY.symm)) hq hp ⟨hX, hY⟩
  -- neither touches the objects of other clusters
  have hothers : ∀ {s : Store}, s.Own X ∧ s.Own Y →
      s.Agree (.others X Y) (q.run (serve fill) (p.run (serve fill) s).2).2 ∧
      s.Agree (.others X Y) (p.run (serve fill) (q.run (serve fill) s).2).2 := by
    intro s hs
    have hequiv := Store.agree_equivalence (.others X Y)
    have hpframe : ∀ {s : Store}, s.Own X ∧ s.Own Y →
        s.Agree (.others X Y) (p.run (serve fill) s).2 :=
      fun hs => Frames.run hequiv hserves (frames_serve hfill (others_avoids_left X Y)) hp hs
    have hqframe : ∀ {s : Store}, s.Own X ∧ s.Own Y →
        s.Agree (.others X Y) (q.run (serve fill) s).2 :=
      fun hs => Frames.run hequiv hserves' (frames_serve hfill (others_avoids_right X Y)) hq hs
    exact ⟨hequiv.trans (hpframe hs) (hqframe (hserves.run hp hs)),
      hequiv.trans (hqframe hs) (hpframe (hserves'.run hq hs))⟩
  rcases hothers ⟨hX, hY⟩ with ⟨hpq, hqp⟩
  refine ⟨hleft.1, hright.1, ?_⟩
  exact Store.Agree.same hXY hleft.2 ((Store.agree_equivalence _).symm hright.2)
    ((Store.agree_equivalence _).trans ((Store.agree_equivalence _).symm hqp) hpq)

end Serve

/-! ## Labels -/

/-- A label selector matches labels that have all its entries, whatever other
labels there are. -/
def Selects (selector labels : StringMap) : Prop :=
  ∀ k v, selector.lookup k = some v → labels.lookup k = some v

theorem robinBaseLabels_cluster (cluster : Redkey) :
    (robinBaseLabels cluster).lookup clusterLabel = some cluster.name :=
  Finmap.lookup_insert _

/-- Whatever the user's labels are, Robin's pods have the labels of the
selector. -/
theorem selects_template (cluster : Redkey) :
    Selects (buildDesiredRobinDeployment cluster).selector
      (buildDesiredRobinDeployment cluster).template.labels := by
  intro k v hk
  have hmem : k ∈ robinBaseLabels cluster := Finmap.mem_of_lookup_eq_some hk
  exact (lookup_mergeMeta_of_mem hmem).trans hk

/-- The label with the name of the cluster tells the pods of two Robins
apart. -/
theorem not_selects_template {cluster cluster' : Redkey} (h : cluster.name ≠ cluster'.name) :
    ¬ Selects (buildDesiredRobinDeployment cluster).selector
      (buildDesiredRobinDeployment cluster').template.labels := by
  intro hsel
  have hX := hsel clusterLabel cluster.name (robinBaseLabels_cluster cluster)
  have hY := selects_template cluster' clusterLabel cluster'.name (robinBaseLabels_cluster cluster')
  exact h (Option.some.inj (hX.symm.trans hY))

/-! ## Two clusters of a namespace -/

/-- The clusters of one namespace do not interfere, whatever their specs: a
reconcile of one leaves the other's Redkey, configs and Robin objects as they
are, also when calls of it fail; it never lists a config made for the other;
the selector of its Robin matches its own pods and not the other's; and the
two orders of two reconciles give the same results and the same store. -/
theorem clusters_do_not_interfere {fill : Deployment → Deployment}
    (hfill : ∀ d, (fill d).metadata = d.metadata) {ns X Y : String} (hXY : X ≠ Y) {s : Store}
    (hX : s.Own ⟨ns, X⟩) (hY : s.Own ⟨ns, Y⟩) :
    (∀ r now w res w', w.store = s →
      Runs (freshRuns fill (fun _ _ => False) fun _ _ _ => True) (reconcile r now ⟨ns, X⟩) w res
        w' →
      w'.store.redkeys ⟨ns, Y⟩ = s.redkeys ⟨ns, Y⟩ ∧
      w'.configsOf ⟨ns, Y⟩ = w.configsOf ⟨ns, Y⟩ ∧
      ∀ k, w'.store.robin k (robinKeyOf ⟨ns, Y⟩) = s.robin k (robinKeyOf ⟨ns, Y⟩)) ∧
    (∀ clusterX clusterY : Redkey, clusterX.key = ⟨ns, X⟩ → clusterY.key = ⟨ns, Y⟩ →
      (∀ w configs w', Runs (freshRuns fill (fun _ _ => False) fun _ _ _ => True)
          (listConfigs clusterX) w (.ok configs) w' →
        ∀ highest status, { newConfig clusterY highest with status := status } ∉ configs) ∧
      Selects (buildDesiredRobinDeployment clusterX).selector
        (buildDesiredRobinDeployment clusterX).template.labels ∧
      ¬ Selects (buildDesiredRobinDeployment clusterX).selector
        (buildDesiredRobinDeployment clusterY).template.labels) ∧
    (∀ r r' now now',
      let p : Rec Result := reconcile r now ⟨ns, X⟩
      let q : Rec Result := reconcile r' now' ⟨ns, Y⟩
      let pq := q.run (serve fill) (p.run (serve fill) s).2
      let qp := p.run (serve fill) (q.run (serve fill) s).2
      qp.1 = (p.run (serve fill) s).1 ∧ pq.1 = (q.run (serve fill) s).1 ∧
      qp.2.redkeys = pq.2.redkeys ∧ qp.2.robin = pq.2.robin ∧ qp.2.configs.Perm pq.2.configs) := by
  have hkeys : (⟨ns, X⟩ : NamespacedName) ≠ ⟨ns, Y⟩ := by simpa using hXY
  refine ⟨?_, ?_, ?_⟩
  · rintro r now w res w' rfl hrun
    rcases reconcile_keeps hfill hkeys hX hY hrun with ⟨hown, hagree⟩
    refine ⟨(hagree.redkeys _ rfl).symm, (hagree.selected hY hown).symm, ?_⟩
    exact fun k => (hagree.robin k _ rfl).symm
  · intro clusterX clusterY hkeyX hkeyY
    have hname : clusterX.name ≠ clusterY.name := by
      rw [show clusterX.name = X from congrArg NamespacedName.name hkeyX,
        show clusterY.name = Y from congrArg NamespacedName.name hkeyY]
      exact hXY
    refine ⟨?_, selects_template clusterX, not_selects_template hname⟩
    -- whatever its status, a config of the other cluster carries the other label
    intro w configs w' hrun highest status hmem
    exact hname (Option.some.inj ((listConfigs_labelled hrun _ hmem).symm.trans
      (newConfig_label clusterY highest)))
  · intro r r' now now'
    exact reconciles_commute hfill hkeys hX hY _ _ reconcile_uses reconcile_uses

/-- The store with two Redkeys whose names look alike. -/
def lookalikes : Store where
  redkeys := fun key =>
    if key = ⟨"cache", "a"⟩ then some { sampleCluster with name := "a" }
    else if key = ⟨"cache", "a-1"⟩ then some { sampleCluster with name := "a-1" }
    else none
  configs := [{ newConfig { sampleCluster with name := "a" } none with
    status := { configPhase := .applied } }]
  robin := fun _ _ => none

/-- Each of the two owns its objects. The config of `a` is not labelled for
the other one. -/
theorem lookalikes_own {name : String} (hname : name = "a" ∨ name = "a-1") :
    lookalikes.Own ⟨"cache", name⟩ where
  redkey live hlive := by
    rcases hname with rfl | rfl
    · cases hlive
      rfl
    · cases hlive
      rfl
  robin k obj hobj := by cases hobj
  configs c hc hsel := by
    obtain rfl := List.mem_singleton.mp hc
    rcases hname with rfl | rfl
    · exact ⟨1, rfl, rfl⟩
    · exact absurd hsel (by decide)

/-- The config of `a` has the name of the other Redkey. -/
theorem clusters_do_not_interfere_lookalikes :
    ((reconcile { resyncInterval := 60 } 7 ⟨"cache", "a-1"⟩).run (serve id)
        ((reconcile { resyncInterval := 60 } 7 ⟨"cache", "a"⟩).run (serve id)
          lookalikes).2).2.configs.Perm
      ((reconcile { resyncInterval := 60 } 7 ⟨"cache", "a"⟩).run (serve id)
        ((reconcile { resyncInterval := 60 } 7 ⟨"cache", "a-1"⟩).run (serve id)
          lookalikes).2).2.configs :=
  ((clusters_do_not_interfere (fun _ => rfl) (by decide : "a-1" ≠ "a")
    (lookalikes_own (.inr rfl)) (lookalikes_own (.inl rfl))).2.2 _ _ 7 7).2.2.2.2

end RedkeyOperator
