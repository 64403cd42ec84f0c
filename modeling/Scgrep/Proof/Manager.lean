import Scgrep.Spec.Manager
import Scgrep.Spec.Tables

/-!
# The clients of a process

* `PlanOK`: what the plan of an address holds, by the roles of the address.
* `planOK_address`: what the two loops make of the plan of every address.
* `start_plan`: **one client for each address, with the topics of its roles, and without
  verification only when the address is of no Global Broker.**
* `start_roles`: each topic goes to the brokers of its role.
* `clientIds_nodup_iff`: **the client ids are distinct exactly when no host is given with two ports.**
-/

namespace Scgrep

namespace MqttManager

variable {cfg : Config}

/-! ## Plans -/

/-- A Global Broker has the address. -/
def IsGlobal (cfg : Config) (a : String × ℕ) : Prop := ∃ broker ∈ cfg.brokers, broker.address = a

/-- A replay broker has the address. -/
def IsReplay (cfg : Config) (a : String × ℕ) : Prop := ∃ broker ∈ cfg.replayBrokers, broker.address = a

/-- **What the plan of an address holds**, after Global Brokers (`g`) and replay brokers (`r`) of it. -/
structure PlanOK (cfg : Config) (a : String × ℕ) (g r : Prop) (plan : Option Plan) : Prop where
  isSome : plan.isSome = true ↔ g ∨ r
  address : ∀ p ∈ plan, p.broker.address = a
  subs : ∀ p ∈ plan, ∀ t, t ∈ p.subs ↔ g ∧ t ∈ cfg.subscriptionTopics ∨ r ∧ t ∈ cfg.replayWildcardTopics
  roles : ∀ p ∈ plan, "Global Broker" ∈ p.roles ↔ g
  tls : ∀ p ∈ plan, p.tlsInsecure = true → cfg.replayBrokerTlsInsecure = true ∧ ¬ g ∧ r

theorem planOK_none (cfg : Config) (a : String × ℕ) : PlanOK cfg a False False none where
  isSome := by simp
  address p h := by cases h
  subs p h := by cases h
  roles p h := by cases h
  tls p h := by cases h

section Steps

variable {a : String × ℕ} {g r : Prop} {plan : Option Plan}

/-- The plan that a step starts from. -/
theorem PlanOK.planFor (h : PlanOK cfg a g r plan) {broker : BrokerConfig} (ha : broker.address = a) :
    (planFor broker plan).broker.address = a ∧
    (∀ t, t ∈ (planFor broker plan).subs ↔
      g ∧ t ∈ cfg.subscriptionTopics ∨ r ∧ t ∈ cfg.replayWildcardTopics) ∧
    ("Global Broker" ∈ (planFor broker plan).roles ↔ g) ∧
    ((planFor broker plan).tlsInsecure = true → cfg.replayBrokerTlsInsecure = true ∧ ¬ g ∧ r) := by
  cases plan with
  | some p => exact ⟨h.address p rfl, h.subs p rfl, h.roles p rfl, h.tls p rfl⟩
  | none =>
    have hno : ¬ (g ∨ r) := fun hgr => by have := h.isSome.2 hgr; simp at this
    rw [not_or] at hno
    refine ⟨ha, ?_, ?_, ?_⟩
    · intro t
      simp [MqttManager.planFor, hno.1, hno.2]
    · simp [MqttManager.planFor, hno.1]
    · intro hf
      cases hf

/-- A turn of the first loop. -/
theorem PlanOK.globalPlan (h : PlanOK cfg a g False plan) {broker : BrokerConfig} (ha : broker.address = a) :
    PlanOK cfg a True False (some (globalPlan cfg broker plan)) := by
  obtain ⟨haddr, hsubs, -, htls⟩ := h.planFor ha
  have hsecure : ¬ (MqttManager.planFor broker plan).tlsInsecure = true := fun hf => (htls hf).2.2
  refine ⟨by simp, ?_, ?_, ?_, ?_⟩
  · rintro p ⟨⟩; exact haddr
  · rintro p ⟨⟩ t
    unfold MqttManager.globalPlan
    rw [List.mem_append, hsubs]
    tauto
  · rintro p ⟨⟩
    unfold MqttManager.globalPlan
    simp
  · rintro p ⟨⟩ hf
    exact absurd hf hsecure

/-- A turn of the second loop. -/
theorem PlanOK.replayPlan (h : PlanOK cfg a g r plan) {broker : BrokerConfig} (ha : broker.address = a) :
    PlanOK cfg a g True (some (replayPlan cfg broker plan)) := by
  obtain ⟨haddr, hsubs, hroles, htls⟩ := h.planFor ha
  have hroles' : "Global Broker" ∈ (MqttManager.planFor broker plan).roles ++ ["Replay broker"] ↔ g := by
    rw [List.mem_append, hroles]
    simp
  have hsubs' : ∀ t, t ∈ (MqttManager.planFor broker plan).subs ++ cfg.replayWildcardTopics ↔
      g ∧ t ∈ cfg.subscriptionTopics ∨ True ∧ t ∈ cfg.replayWildcardTopics := by
    intro t
    rw [List.mem_append, hsubs]
    tauto
  refine ⟨by simp, ?_, ?_, ?_, ?_⟩
  all_goals
    rintro p ⟨⟩
    unfold MqttManager.replayPlan
    dsimp only
    split
  · exact haddr
  · exact haddr
  · exact hsubs'
  · exact hsubs'
  · exact hroles'
  · exact hroles'
  · rename_i hglobal
    intro hf
    exact ⟨hf, fun hg => hglobal (hroles'.2 hg), trivial⟩
  · intro hf
    have := htls hf
    exact ⟨this.1, this.2.1, trivial⟩

end Steps

/-- The first loop, seen from an address. -/
theorem planOK_brokers {a : String × ℕ} (brokers : List BrokerConfig) (ha : ∀ b ∈ brokers, b.address = a) :
    ∀ {g : Prop} {plan : Option Plan}, PlanOK cfg a g False plan →
      PlanOK cfg a (g ∨ brokers ≠ []) False
        (brokers.foldl (fun plan broker => some (globalPlan cfg broker plan)) plan) := by
  induction brokers with
  | nil =>
    intro g plan h
    simpa using h
  | cons b brokers ih =>
    intro g plan h
    have hrest := ih (fun x hx => ha x (List.mem_cons_of_mem _ hx)) (h.globalPlan (ha b List.mem_cons_self))
    simpa using hrest

/-- The second loop, seen from an address. -/
theorem planOK_replayBrokers {a : String × ℕ} {g : Prop} (brokers : List BrokerConfig)
    (ha : ∀ b ∈ brokers, b.address = a) : ∀ {r : Prop} {plan : Option Plan}, PlanOK cfg a g r plan →
      PlanOK cfg a g (r ∨ brokers ≠ [])
        (brokers.foldl (fun plan broker => some (replayPlan cfg broker plan)) plan) := by
  induction brokers with
  | nil =>
    intro r plan h
    simpa using h
  | cons b brokers ih =>
    intro r plan h
    have hrest := ih (fun x hx => ha x (List.mem_cons_of_mem _ hx)) (h.replayPlan (ha b List.mem_cons_self))
    simpa using hrest

theorem filter_ne_nil_iff {brokers : List BrokerConfig} {a : String × ℕ} :
    False ∨ (brokers.filter fun b => b.address = a) ≠ [] ↔ ∃ b ∈ brokers, b.address = a := by
  rw [false_or, ne_eq, List.filter_eq_nil_iff]
  simp

/-- **The plan of every address**, after both loops. -/
theorem planOK_address (cfg : Config) (a : String × ℕ) :
    PlanOK cfg a (IsGlobal cfg a) (IsReplay cfg a) ((plans cfg).get? a) := by
  have haddr : ∀ l : List BrokerConfig, ∀ b ∈ l.filter fun b => b.address = a, b.address = a := by
    intro l b hb
    simpa using (List.mem_filter.1 hb).2
  have hglobal := planOK_brokers _ (haddr cfg.brokers) (planOK_none cfg a)
  have hreplay := planOK_replayBrokers _ (haddr cfg.replayBrokers) hglobal
  -- the plan of an address is made by the brokers at that address alone
  unfold plans
  dsimp only
  rw [Dict.get?_foldl_update BrokerConfig.address (replayPlan cfg),
    Dict.get?_foldl_update BrokerConfig.address (globalPlan cfg)]
  have hg : IsGlobal cfg a = (False ∨ (cfg.brokers.filter fun b => b.address = a) ≠ []) :=
    propext filter_ne_nil_iff.symm
  have hr : IsReplay cfg a = (False ∨ (cfg.replayBrokers.filter fun b => b.address = a) ≠ []) :=
    propext filter_ne_nil_iff.symm
  rw [hg, hr]
  exact hreplay

/-! ## Clients -/

theorem address_buildClient (broker : BrokerConfig) (subscriptions : List String) (role : String)
    (tlsInsecure : Bool) :
    (buildClient cfg broker subscriptions role tlsInsecure).address = broker.address := rfl

theorem map_address (cfg : Config) : (start cfg).map Client.address = (plans cfg).items.map Prod.fst := by
  unfold start
  rw [List.map_map]
  refine List.map_congr_left fun item hitem => ?_
  exact (planOK_address cfg item.1).address item.2 (Dict.get?_eq_some.2 hitem)

/-- No two clients connect to one address. -/
theorem address_nodup (cfg : Config) : ((start cfg).map Client.address).Nodup := by
  rw [map_address]
  exact (plans cfg).nodup

/-- Every address has a client. -/
theorem mem_address {a : String × ℕ} :
    a ∈ (start cfg).map Client.address ↔ IsGlobal cfg a ∨ IsReplay cfg a := by
  have hsome := (planOK_address cfg a).isSome
  rw [map_address, ← hsome, Option.isSome_iff_ne_none, ne_eq, Dict.get?_eq_none, not_not]

/-- A client is built from the plan of its address. -/
theorem mem_start {client : Client} (h : client ∈ start cfg) :
    ∃ plan, (plans cfg).get? client.address = some plan ∧
      client = buildClient cfg plan.broker (Dict.fromKeys plan.subs)
        (" + ".intercalate (Dict.fromKeys plan.roles)) plan.tlsInsecure := by
  obtain ⟨⟨a, plan⟩, hitem, rfl⟩ := List.mem_map.1 h
  have hget := Dict.get?_eq_some.2 hitem
  have haddr : plan.broker.address = a := (planOK_address cfg a).address plan hget
  refine ⟨plan, ?_, rfl⟩
  dsimp only
  rw [address_buildClient, haddr]
  exact hget

/-- **The topics of a client** are those of the roles of its address. -/
theorem mem_subscriptions {client : Client} (h : client ∈ start cfg) (t : String) :
    t ∈ client.subscriptions ↔ IsGlobal cfg client.address ∧ t ∈ cfg.subscriptionTopics ∨
      IsReplay cfg client.address ∧ t ∈ cfg.replayWildcardTopics := by
  obtain ⟨plan, hplan, hclient⟩ := mem_start h
  have hsubs : client.subscriptions = Dict.fromKeys plan.subs := congrArg Client.subscriptions hclient
  rw [hsubs, Dict.mem_fromKeys]
  exact (planOK_address cfg client.address).subs plan hplan t

theorem subscriptions_nodup {client : Client} (h : client ∈ start cfg) : client.subscriptions.Nodup := by
  obtain ⟨plan, -, hclient⟩ := mem_start h
  have hsubs : client.subscriptions = Dict.fromKeys plan.subs := congrArg Client.subscriptions hclient
  rw [hsubs]
  exact Dict.fromKeys_nodup _

/-- **Verification is only left out** for a broker that is no Global Broker, and only on request. -/
theorem unverified {client : Client} (h : client ∈ start cfg) (htls : client.tls = .unverified) :
    cfg.replayBrokerTlsInsecure = true ∧ ¬ IsGlobal cfg client.address := by
  obtain ⟨plan, hplan, hclient⟩ := mem_start h
  have hsetup : client.tls =
      if plan.broker.tls then (if plan.tlsInsecure then .unverified else .verified) else .plain :=
    congrArg Client.tls hclient
  have hinsecure : plan.tlsInsecure = true := by
    rw [htls] at hsetup
    by_contra hno
    rw [if_neg hno] at hsetup
    split at hsetup <;> cases hsetup
  have := (planOK_address cfg client.address).tls plan hplan hinsecure
  exact ⟨this.1, this.2.1⟩

/-- **The connection plan.** There is one client for each address of a broker. Its subscriptions do not
repeat, and are the test topics when the address is of a Global Broker, with the replay wildcards when
it is of a replay broker; so it has all test topics, or all wildcards, exactly in that role, unless
those are all among the others anyway. It goes without verification only on request, and only when the
address is of no Global Broker. -/
theorem start_plan (cfg : Config) :
    ((start cfg).map Client.address).Nodup ∧
    (∀ a, a ∈ (start cfg).map Client.address ↔ IsGlobal cfg a ∨ IsReplay cfg a) ∧
    ∀ client ∈ start cfg, client.subscriptions.Nodup ∧
      (∀ t, t ∈ client.subscriptions ↔ IsGlobal cfg client.address ∧ t ∈ cfg.subscriptionTopics ∨
        IsReplay cfg client.address ∧ t ∈ cfg.replayWildcardTopics) ∧
      (¬ cfg.subscriptionTopics ⊆ cfg.replayWildcardTopics →
        (cfg.subscriptionTopics ⊆ client.subscriptions ↔ IsGlobal cfg client.address)) ∧
      (¬ cfg.replayWildcardTopics ⊆ cfg.subscriptionTopics →
        (cfg.replayWildcardTopics ⊆ client.subscriptions ↔ IsReplay cfg client.address)) ∧
      (client.tls = .unverified →
        cfg.replayBrokerTlsInsecure = true ∧ ¬ IsGlobal cfg client.address) := by
  refine ⟨address_nodup cfg, fun a => mem_address, ?_⟩
  intro client h
  have hmem := mem_subscriptions h
  refine ⟨subscriptions_nodup h, hmem, ?_, ?_, unverified h⟩
  · intro hapart
    constructor
    · -- without the role each of the topics is there as a wildcard
      intro hsub
      by_contra hno
      refine hapart fun t ht => ?_
      rcases (hmem t).1 (hsub ht) with h1 | h1
      · exact absurd h1.1 hno
      · exact h1.2
    · intro hg t ht
      exact (hmem t).2 (Or.inl ⟨hg, ht⟩)
  · intro hapart
    constructor
    · intro hsub
      by_contra hno
      refine hapart fun t ht => ?_
      rcases (hmem t).1 (hsub ht) with h1 | h1
      · exact h1.2
      · exact absurd h1.1 hno
    · intro hr t ht
      exact (hmem t).2 (Or.inr ⟨hr, ht⟩)

/-- **Each topic goes to the brokers of its role**, and nothing else does, for a process none of whose
test topics is one of its own replay wildcards. -/
theorem start_roles (hown : ∀ t ∈ cfg.subscriptionTopics, t ∉ cfg.replayWildcardTopics) :
    ((start cfg).map Client.address).Nodup ∧
    (∀ a, a ∈ (start cfg).map Client.address ↔ IsGlobal cfg a ∨ IsReplay cfg a) ∧
    ∀ client ∈ start cfg, client.subscriptions.Nodup ∧
      (∀ t ∈ cfg.subscriptionTopics, t ∈ client.subscriptions ↔ IsGlobal cfg client.address) ∧
      (∀ t ∈ cfg.replayWildcardTopics, t ∈ client.subscriptions ↔ IsReplay cfg client.address) ∧
      (∀ t ∈ client.subscriptions, t ∈ cfg.subscriptionTopics ∨ t ∈ cfg.replayWildcardTopics) ∧
      (client.tls = .unverified →
        cfg.replayBrokerTlsInsecure = true ∧ ¬ IsGlobal cfg client.address) := by
  obtain ⟨hnodup, haddress, hclients⟩ := start_plan cfg
  refine ⟨hnodup, haddress, fun client h => ?_⟩
  obtain ⟨hdistinct, hmem, -, -, htls⟩ := hclients client h
  refine ⟨hdistinct, fun t ht => ?_, fun t ht => ?_, fun t ht => ?_, htls⟩
  · have hno : t ∉ cfg.replayWildcardTopics := hown t ht
    rw [hmem]
    tauto
  · have hno : t ∉ cfg.subscriptionTopics := fun htest => hown t htest ht
    rw [hmem]
    tauto
  · exact ((hmem t).1 ht).imp And.right And.right

theorem start_roles_sample :
    ((start shippedConfig).map Client.address).Nodup ∧
    (∀ a, a ∈ (start shippedConfig).map Client.address ↔
      IsGlobal shippedConfig a ∨ IsReplay shippedConfig a) ∧
    ∀ client ∈ start shippedConfig, client.subscriptions.Nodup ∧
      (∀ t ∈ shippedConfig.subscriptionTopics,
        t ∈ client.subscriptions ↔ IsGlobal shippedConfig client.address) ∧
      (∀ t ∈ shippedConfig.replayWildcardTopics,
        t ∈ client.subscriptions ↔ IsReplay shippedConfig client.address) ∧
      (∀ t ∈ client.subscriptions,
        t ∈ shippedConfig.subscriptionTopics ∨ t ∈ shippedConfig.replayWildcardTopics) ∧
      (client.tls = .unverified →
        shippedConfig.replayBrokerTlsInsecure = true ∧ ¬ IsGlobal shippedConfig client.address) :=
  start_roles (by decide +kernel)

/-! ## Client ids -/

theorem clientId_eq {client : Client} (h : client ∈ start cfg) :
    client.clientId = "scgrep-" ++ (cfg.subscriberId ++ ("-" ++ client.host)) := by
  obtain ⟨plan, -, rfl⟩ := mem_start h
  rfl

/-- The client id names the host. -/
theorem clientId_inj {c c' : Client} (h : c ∈ start cfg) (h' : c' ∈ start cfg) :
    c.clientId = c'.clientId ↔ c.host = c'.host := by
  rw [clientId_eq h, clientId_eq h', ← String.toList_inj, ← String.toList_inj]
  simp only [String.toList_append, List.append_cancel_left_eq]

theorem mem_brokers {a : String × ℕ} : a ∈ (start cfg).map Client.address ↔
    ∃ b ∈ cfg.brokers ++ cfg.replayBrokers, b.address = a := by
  rw [mem_address]
  unfold IsGlobal IsReplay
  simp only [List.mem_append, or_and_right, exists_or]

/-- **The client ids of a process are distinct exactly when no host is given with two ports.** -/
theorem clientIds_nodup_iff (cfg : Config) : ((start cfg).map Client.clientId).Nodup ↔
    ∀ b ∈ cfg.brokers ++ cfg.replayBrokers, ∀ b' ∈ cfg.brokers ++ cfg.replayBrokers,
      b.host = b'.host → b.port = b'.port := by
  have hinj : ∀ {c c' : Client}, c ∈ start cfg → c' ∈ start cfg → c.address = c'.address → c = c' :=
    fun h h' => List.inj_on_of_nodup_map (address_nodup cfg) h h'
  constructor
  · intro hnodup b hb b' hb' hhost
    obtain ⟨c, hc, hca⟩ := List.mem_map.1 (mem_brokers.2 ⟨b, hb, rfl⟩)
    obtain ⟨c', hc', hca'⟩ := List.mem_map.1 (mem_brokers.2 ⟨b', hb', rfl⟩)
    have h1 : c.host = b.host := congrArg Prod.fst hca
    have h2 : c'.host = b'.host := congrArg Prod.fst hca'
    have hid : c.clientId = c'.clientId := (clientId_inj hc hc').2 (by rw [h1, h2, hhost])
    -- one id, so one client, which has one port
    have hsame : c = c' := List.inj_on_of_nodup_map hnodup hc hc' hid
    have haddr : b.address = b'.address := by rw [← hca, ← hca', hsame]
    exact congrArg Prod.snd haddr
  · intro hports
    refine List.Nodup.map_on ?_ (address_nodup cfg).of_map
    intro c hc c' hc' hid
    obtain ⟨b, hb, hba⟩ := mem_brokers.1 (List.mem_map_of_mem hc)
    obtain ⟨b', hb', hba'⟩ := mem_brokers.1 (List.mem_map_of_mem hc')
    have h1 : b.host = c.host := congrArg Prod.fst hba
    have h2 : b'.host = c'.host := congrArg Prod.fst hba'
    have hhost : b.host = b'.host := by rw [h1, h2, (clientId_inj hc hc').1 hid]
    have haddr : b.address = b'.address := Prod.ext hhost (hports b hb b' hb' hhost)
    exact hinj hc hc' (hba.symm.trans (haddr.trans hba'))

/-- The URLs of a broker with a listener for each role. -/
def twoPortUrls : List (String × Url) :=
  [("mqtts://broker.example:8883", ⟨"mqtts", some "broker.example", some (some 8883), none, none⟩),
    ("mqtts://broker.example:8884", ⟨"mqtts", some "broker.example", some (some 8884), none, none⟩)]

def twoPortLib : Lib := Tables.lib { sampleTables with urls := twoPortUrls }

/-- The environment that names them. -/
def twoPortEnv (name : String) : Option String :=
  [("SENSOR_CENTRE_ID", "int-wmo"), ("SUBSCRIPTION_TOPICS", "cache/a/wis2/#"),
    ("GLOBAL_BROKER_URLS", "mqtts://broker.example:8883"),
    ("GLOBAL_REPLAY_BROKER_URLS", "mqtts://broker.example:8884")].lookup name

/-- **One host with two ports**: both clients get one id. -/
theorem two_ports_one_id : ∃ cfg, Config.fromEnv twoPortLib "sub" twoPortEnv = .ok cfg ∧
    (start cfg).map Client.clientId = ["scgrep-sub-broker.example", "scgrep-sub-broker.example"] ∧
    ¬ ((start cfg).map Client.clientId).Nodup := by
  have hcfg : Config.fromEnv twoPortLib "sub" twoPortEnv = .ok { shippedConfig with
      brokers := [⟨"mqtts://broker.example:8883", "broker.example", 8883, none, none, true⟩]
      replayBrokers := [⟨"mqtts://broker.example:8884", "broker.example", 8884, none, none, true⟩] } := by
    decide +kernel
  exact ⟨_, hcfg, by decide +kernel, by decide +kernel⟩

end MqttManager

end Scgrep
