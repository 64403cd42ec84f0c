import Scgrep.Proof.Manager
import Scgrep.Proof.ProfileLines
import Scgrep.Spec.ConnectionLog
import Scgrep.Spec.Restarts

/-!
# The lines that the restart history reads

* `matchHistory_line`: the expressions read each record of `ConnectionRecord` back.
* `matchHistory_cycle`: a line of a cycle is none of them.
* `line_lt`: lines are in the order of their instants.
-/

namespace Scgrep

open Calendar Pattern

/-! ## Roles -/

namespace MqttManager

variable {cfg : Config}

/-- A plan has roles, and no others. -/
def RolesOK (plan : Option Plan) : Prop :=
  ∀ p ∈ plan, p.roles ≠ [] ∧ ∀ role ∈ p.roles, role = "Global Broker" ∨ role = "Replay broker"

theorem rolesOK_append {plan : Option Plan} (h : RolesOK plan) (broker : BrokerConfig) {role : String}
    (hrole : role = "Global Broker" ∨ role = "Replay broker") :
    (planFor broker plan).roles ++ [role] ≠ [] ∧ ∀ x ∈ (planFor broker plan).roles ++ [role],
      x = "Global Broker" ∨ x = "Replay broker" := by
  refine ⟨List.append_ne_nil_of_right_ne_nil _ (List.cons_ne_nil _ _), fun x hx => ?_⟩
  rcases List.mem_append.1 hx with hx | hx
  · cases plan with
    | none => cases hx
    | some p => exact (h p rfl).2 x hx
  · obtain rfl := List.mem_singleton.1 hx
    exact hrole

theorem rolesOK_address (cfg : Config) (a : String × ℕ) : RolesOK ((plans cfg).get? a) := by
  have hfold : ∀ (f : BrokerConfig → Option Plan → Plan), (∀ b plan, RolesOK plan → RolesOK (some (f b plan))) →
      ∀ (brokers : List BrokerConfig) (plan : Option Plan), RolesOK plan →
        RolesOK (brokers.foldl (fun plan broker => some (f broker plan)) plan) := by
    intro f hf brokers
    induction brokers with
    | nil => intro plan h; exact h
    | cons b brokers ih => intro plan h; exact ih _ (hf b plan h)
  unfold plans
  dsimp only
  rw [Dict.get?_foldl_update BrokerConfig.address (replayPlan cfg),
    Dict.get?_foldl_update BrokerConfig.address (globalPlan cfg)]
  refine hfold _ (fun b plan h => ?_) _ _ (hfold _ (fun b plan h => ?_) _ _ fun p hp => by cases hp)
  · rintro p ⟨⟩
    unfold replayPlan
    dsimp only
    split <;> exact rolesOK_append h b (.inr rfl)
  · rintro p ⟨⟩
    exact rolesOK_append h b (.inl rfl)

/-- **The role of a client.** -/
theorem role_mem {client : Client} (h : client ∈ start cfg) : client.role ∈ ["Global Broker", "Replay broker",
    "Global Broker + Replay broker", "Replay broker + Global Broker"] := by
  obtain ⟨plan, hplan, hclient⟩ := mem_start h
  have hrole : client.role = " + ".intercalate (Dict.fromKeys plan.roles) := congrArg Client.role hclient
  obtain ⟨hne, hroles⟩ := rolesOK_address cfg client.address plan hplan
  have hnodup := Dict.fromKeys_nodup plan.roles
  have hsub : ∀ role ∈ Dict.fromKeys plan.roles, role = "Global Broker" ∨ role = "Replay broker" :=
    fun role hmem => hroles role (Dict.mem_fromKeys.1 hmem)
  have hkeys : Dict.fromKeys plan.roles ≠ [] := by
    obtain ⟨role, hrole⟩ := List.exists_mem_of_ne_nil _ hne
    exact List.ne_nil_of_mem (Dict.mem_fromKeys.2 hrole)
  rw [hrole]
  match hl : Dict.fromKeys plan.roles with
  | [] => exact absurd hl hkeys
  | [a] =>
    rw [hl] at hsub
    rcases hsub a List.mem_cons_self with rfl | rfl <;> decide
  | [a, b] =>
    rw [hl] at hsub hnodup
    rcases hsub a (by simp) with rfl | rfl <;> rcases hsub b (by simp) with rfl | rfl
    · exact absurd hnodup (by decide)
    · decide
    · decide
    · exact absurd hnodup (by decide)
  | a :: b :: c :: rest =>
    rw [hl] at hsub hnodup
    simp only [List.nodup_cons, List.mem_cons, not_or] at hnodup
    rcases hsub a (by simp) with rfl | rfl <;> rcases hsub b (by simp) with rfl | rfl <;>
      rcases hsub c (by simp) with rfl | rfl <;> simp at hnodup

end MqttManager

/-! ## Records -/

variable {cfg : Config}

/-- What is known of the names in the records. -/
structure HistoryNames (cfg : Config) : Prop where
  centre : Plain cfg.sensorCentreId
  subscriber : Plain cfg.subscriberId
  subscriber_open : ')' ∉ cfg.subscriberId.toList
  redisUrl : Plain cfg.redisUrl
  host : ∀ client ∈ MqttManager.start cfg, Plain client.host ∧ ';' ∉ client.host.toList

namespace ConnectionRecord

/-- The records of the clients of a process. -/
def Of (cfg : Config) : ConnectionRecord → Prop
  | .connected client => client ∈ MqttManager.start cfg
  | .disconnected client => client ∈ MqttManager.start cfg
  | _ => True

def kind : ConnectionRecord → HistoryKind
  | .starting => .start
  | .disconnected _ => .disconnect
  | _ => .connect

/-- What the history says of a record. -/
def detail (cfg : Config) : ConnectionRecord → String
  | .starting => cfg.sensorCentreId ++ "  subscriber-id=" ++ cfg.subscriberId
  | .redis => "Redis at " ++ cfg.redisUrl
  | .connected client => client.role ++ " " ++ client.host
  | .disconnected client => client.host

/-- The event of a record. -/
def event (cfg : Config) (t : LogInstant) (r : ConnectionRecord) : HistoryEvent :=
  ⟨r.kind, timestampOf t.stamp, r.detail cfg⟩

end ConnectionRecord

/-- A run without white space ends before the letter it is followed by. -/
theorem lazyRun_whole {stop : Char} (l : List Char) : ∀ {w : List Char}, w ≠ [] →
    (∀ c ∈ w, notSpace c = true) → stop ∉ w → lazyRun stop (w ++ stop :: l) = some w := by
  intro w
  induction w with
  | nil => intro h; exact absurd rfl h
  | cons c w ih =>
    intro _ hp hstop
    rw [List.cons_append]
    unfold lazyRun
    rw [if_pos (hp c List.mem_cons_self)]
    cases w with
    | nil => exact if_pos rfl
    | cons d w =>
      rw [List.mem_cons, not_or] at hstop
      have hd : ¬ (d :: w ++ stop :: l).head? = some stop := fun h => hstop.2 (by
        rw [Option.some.inj h.symm]; exact List.mem_cons_self)
      rw [if_neg hd, ih (List.cons_ne_nil _ _) (fun x hx => hp x (List.mem_cons_of_mem _ hx)) hstop.2]
      rfl

/-- What stands behind `Connected to `. -/
def connectedRole (l : List Char) : Option (String × List Char) :=
  ["Global Broker", "Replay broker", "Redis"].findSome? fun role =>
    (role.toList.isPrefixOf? l).map fun l => (role, l.dropWhile Text.isSpace)

theorem connectedRole_redis (l : List Char) :
    connectedRole ("Redis at ".toList ++ l) = some ("Redis", "at ".toList ++ l) := rfl

theorem connectedRole_global (l : List Char) :
    connectedRole ("Global Broker".toList ++ l) = some ("Global Broker", l.dropWhile Text.isSpace) := rfl

theorem connectedRole_replay (l : List Char) :
    connectedRole ("Replay broker".toList ++ l) = some ("Replay broker", l.dropWhile Text.isSpace) := rfl

theorem isPrefixOf?_append (w l : List Char) : w.isPrefixOf? (w ++ l) = some l :=
  List.isPrefixOf?_eq_some_iff_append_eq.2 rfl

theorem search_starting {centre subscriber : String} (hcentre : Plain centre) (hsubscriber : Plain subscriber)
    (hopen : ')' ∉ subscriber.toList) : searchLastBy notNewline matchStarting ("INFO [scgrep] ".toList ++
      ("Starting SCGRep sensor centre ".toList ++ (centre.toList ++ (" (subscriber-id=".toList ++
        (subscriber.toList ++ [')']))))) = some (centre.toList, subscriber.toList) := by
  refine searchLastBy_bind (by decide) (List.all_eq_true.1 (by decide)) ?_ fun hinf => ?_
  · refine matchRun_whole hcentre.toList_ne hcentre.notSpace rfl ?_
    rw [isPrefixOf?_append]
    exact lazyRun_whole [] hsubscriber.toList_ne hsubscriber.notSpace hopen
  · -- a second place would be behind the first text
    have hstart := @infix_of_head_not_mem _ 'S' "tarting SCGRep sensor centre ".toList "tarting ".toList
      ("SCGRep sensor centre ".toList ++ (centre.toList ++ (" (subscriber-id=".toList ++
        (subscriber.toList ++ [')'])))) (by decide) hinf
    rcases List.infix_cons_iff.1 hstart with hpre | hinf
    · exact absurd (List.cons_prefix_cons.1 (List.cons_prefix_cons.1 hpre).2).1 (by decide)
    have hrest := @infix_of_head_not_mem _ 'S' "tarting SCGRep sensor centre ".toList
      "CGRep sensor centre ".toList _ (by decide) hinf
    -- and none of the words there begins with `SCGRep`
    have hword : ' ' :: "SCGRep".toList <:+: 'S' :: "tarting SCGRep sensor centre ".toList := by decide
    have hend := infix_of_head_not_mem hcentre.space_not_mem (hword.trans hrest)
    rcases List.infix_cons_iff.1 hend with hpre | hinf
    · exact absurd (List.cons_prefix_cons.1 (List.cons_prefix_cons.1 hpre).2).1 (by decide)
    · have hspace := hinf.subset (List.mem_cons_self)
      rcases List.mem_append.1 hspace with hmem | hmem
      · exact absurd hmem (by decide)
      · rcases List.mem_append.1 hmem with hmem | hmem
        · exact hsubscriber.space_not_mem hmem
        · exact absurd hmem (by decide)

theorem dropWhile_name {s : String} (hs : Plain s) : s.toList.dropWhile Text.isSpace = s.toList := by
  obtain ⟨c, rest, h⟩ := List.exists_cons_of_ne_nil hs.toList_ne
  have hhead : ¬ Text.isSpace c = true := by
    rw [hs.solid c (by rw [h]; exact List.mem_cons_self)]
    exact Bool.false_ne_true
  rw [h, List.dropWhile_cons_of_neg hhead]

/-- A role is read up to the first broker that it names. -/
theorem connectedRole_client {role name : String} (hrole : role ∈ ["Global Broker", "Replay broker",
    "Global Broker + Replay broker", "Replay broker + Global Broker"]) (hname : Plain name) :
    ∃ first m, connectedRole ((role ++ " ").toList ++ name.toList) = some (first, m) ∧
      first.toList ++ ' ' :: m = (role ++ " ").toList ++ name.toList := by
  have hdrop : (' ' :: name.toList).dropWhile Text.isSpace = name.toList := dropWhile_name hname
  simp only [List.mem_cons, List.not_mem_nil, or_false] at hrole
  rcases hrole with rfl | rfl | rfl | rfl
  · exact ⟨_, _, (connectedRole_global (' ' :: name.toList)).trans (by rw [hdrop]), rfl⟩
  · exact ⟨_, _, (connectedRole_replay (' ' :: name.toList)).trans (by rw [hdrop]), rfl⟩
  · exact ⟨_, _, connectedRole_global (" + Replay broker ".toList ++ name.toList), rfl⟩
  · exact ⟨_, _, connectedRole_replay (" + Global Broker ".toList ++ name.toList), rfl⟩

/-- A record of a connection: nothing behind its first words is one. -/
theorem search_connected {logger name : List Char} {role : List Char} {m : String × List Char}
    (hlogger : ∀ c ∈ logger, notNewline c = true) (hm : connectedRole (role ++ name) = some m)
    (hname : ' ' ∉ name) (hrole : ¬ "Connected to ".toList <:+: role) :
    searchLastBy notNewline matchConnected (logger ++ ("Connected to ".toList ++ (role ++ name))) = some m := by
  refine searchLastBy_bind (by decide) hlogger hm fun hinf => hrole ?_
  have hrest := @infix_of_head_not_mem _ 'C' "onnected to ".toList "onnected to ".toList (role ++ name)
    (by decide) hinf
  exact @infix_of_last_not_mem _ ' ' "Connected to".toList name role hname hrest

theorem search_disconnected {host : String} (hhost : Plain host) (hopen : ';' ∉ host.toList) :
    searchLastBy notNewline matchDisconnected ("WARNING [scgrep.mqtt_client] ".toList ++
      ("Disconnected from ".toList ++ (host.toList ++ "; will auto-reconnect".toList))) = some host.toList := by
  refine searchLastBy_bind (by decide) (List.all_eq_true.1 (by decide)) ?_ fun hinf => ?_
  · exact lazyRun_whole _ hhost.toList_ne hhost.notSpace hopen
  · have hrest := @infix_of_head_not_mem _ 'D' "isconnected from ".toList "isconnected from ".toList _
      (by decide) hinf
    have hword : ' ' :: "from ".toList <:+: 'D' :: "isconnected from ".toList := by decide
    exact absurd (infix_of_head_not_mem hhost.space_not_mem (hword.trans hrest)) (by decide)

/-- A text that begins in its own way is not among names without white space. -/
theorem not_infix_plain {c : Char} {v pre : List Char} {s : String} (hpre : c ∉ pre) (hs : Plain s)
    {w l : List Char} (hw : ' ' :: w <:+: c :: v) (hl : ¬ ' ' :: w <:+: l) :
    ¬ c :: v <:+: pre ++ (s.toList ++ l) :=
  fun hinf => hl (infix_of_head_not_mem hs.space_not_mem (hw.trans (infix_of_head_not_mem hpre hinf)))

/-- The first words of a connection are no start. -/
theorem no_starting {logger name role : List Char} (hname : ' ' ∉ name)
    (h : ¬ "Starting SCGRep sensor centre ".toList <:+: logger ++ ("Connected to ".toList ++ role)) :
    searchLastBy notNewline matchStarting (logger ++ ("Connected to ".toList ++ (role ++ name))) = none := by
  refine searchLastBy_bind_none fun hinf => h ?_
  rw [← List.append_assoc, ← List.append_assoc, List.append_assoc logger] at hinf
  exact @infix_of_last_not_mem _ ' ' "Starting SCGRep sensor centre".toList name _ hname hinf

/-- Nothing is stripped of a text that ends in a name. -/
theorem strip_name {a : String} {s : String} {c : Char} (ha : a.toList.head? = some c)
    (hc : Text.isSpace c = false) (hs : Plain s) : Text.strip (a ++ s) = a ++ s := by
  obtain ⟨rest, hrest⟩ : ∃ rest, a.toList = c :: rest := ⟨_, List.eq_cons_of_mem_head? ha⟩
  obtain ⟨init, x, hx⟩ : ∃ init x, s.toList = init ++ [x] :=
    ⟨_, _, (List.dropLast_append_getLast hs.toList_ne).symm⟩
  have hlast : ¬ Text.isSpace x = true := by
    rw [hs.solid x (by rw [hx]; exact List.mem_append_right _ List.mem_cons_self)]
    exact Bool.false_ne_true
  have hhead : ¬ Text.isSpace c = true := by
    rw [hc]
    exact Bool.false_ne_true
  unfold Text.strip
  rw [String.toList_append, hrest, List.cons_append, List.dropWhile_cons_of_neg hhead, hx, ← List.cons_append,
    ← List.append_assoc, List.rdropWhile_concat_neg _ _ _ hlast, List.append_assoc, ← hx, ← hrest,
    ← String.toList_append, String.ofList_toList]

theorem matchHistory_stamped (t : LogInstant) (rest : List Char) :
    matchHistory (String.ofList (t.asctime ++ ' ' :: rest)) =
      ((searchLastBy notNewline matchStarting rest).map fun m =>
        (HistoryKind.start, t.matched, String.ofList m.1 ++ "  subscriber-id=" ++ String.ofList m.2)).or
      (((searchLastBy notNewline matchConnected rest).map fun m =>
        (HistoryKind.connect, t.matched, Text.strip (m.1 ++ " " ++ String.ofList m.2))).or
      ((searchLastBy notNewline matchDisconnected rest).map fun host =>
        (HistoryKind.disconnect, t.matched, String.ofList host))) := by
  unfold matchHistory
  rw [String.toList_ofList, matchStamp_asctime]
  rfl

theorem ConnectionRecord.line_eq (cfg : Config) (t : LogInstant) (r : ConnectionRecord) :
    r.line cfg t.logStamp =
      String.ofList (t.asctime ++ ' ' :: (r.head.toList ++ (r.text cfg).toList)) := by
  unfold ConnectionRecord.line LogInstant.logStamp
  rw [← String.toList_inj]
  simp

/-- A connection is read with what stands behind `Connected to `. -/
theorem matchHistory_connected (t : LogInstant) {logger role : List Char} {first name : String} {m : List Char}
    (hlogger : ∀ c ∈ logger, notNewline c = true) (hname : Plain name)
    (hm : connectedRole (role ++ name.toList) = some (first, m)) (hrole : ¬ "Connected to ".toList <:+: role)
    (hstart : ¬ "Starting SCGRep sensor centre ".toList <:+: logger ++ ("Connected to ".toList ++ role))
    (hdetail : first.toList ++ ' ' :: m = role ++ name.toList) {c : Char} (hc : role.head? = some c)
    (hsolid : Text.isSpace c = false) :
    matchHistory (String.ofList (t.asctime ++ ' ' ::
      (logger ++ ("Connected to ".toList ++ (role ++ name.toList))))) =
      some (.connect, t.matched, String.ofList role ++ name) := by
  have htext : first ++ " " ++ String.ofList m = String.ofList role ++ name := by
    rw [← String.toList_inj]
    simpa using hdetail
  rw [matchHistory_stamped, no_starting hname.space_not_mem hstart,
    search_connected hlogger hm hname.space_not_mem hrole]
  dsimp only [Option.map_none, Option.map_some, Option.none_or, Option.some_or]
  rw [htext, strip_name (by rw [String.toList_ofList]; exact hc) hsolid hname]

/-- A disconnection is read with its host. -/
theorem matchHistory_disconnected (t : LogInstant) {host : String} (hhost : Plain host) (hopen : ';' ∉ host.toList) :
    matchHistory (String.ofList (t.asctime ++ ' ' :: ("WARNING [scgrep.mqtt_client] ".toList ++
      ("Disconnected from ".toList ++ (host.toList ++ "; will auto-reconnect".toList))))) =
      some (.disconnect, t.matched, host) := by
  have hstart : ¬ "Starting SCGRep sensor centre ".toList <:+: "WARNING [scgrep.mqtt_client] ".toList ++
      ("Disconnected from ".toList ++ (host.toList ++ "; will auto-reconnect".toList)) := by
    rw [← List.append_assoc]
    exact @not_infix_plain 'S' "tarting SCGRep sensor centre ".toList _ _ (by decide) hhost "SCGRep".toList _
      (by decide) (by decide)
  have hconnected : ¬ "Connected to ".toList <:+: "WARNING [scgrep.mqtt_client] ".toList ++
      ("Disconnected from ".toList ++ (host.toList ++ "; will auto-reconnect".toList)) := by
    rw [← List.append_assoc]
    exact @not_infix_plain 'C' "onnected to ".toList _ _ (by decide) hhost "to ".toList _
      (by decide) (by decide)
  have hnone : searchLastBy notNewline matchStarting ("WARNING [scgrep.mqtt_client] ".toList ++
      ("Disconnected from ".toList ++ (host.toList ++ "; will auto-reconnect".toList))) = none :=
    searchLastBy_bind_none hstart
  have hnone' : searchLastBy notNewline matchConnected ("WARNING [scgrep.mqtt_client] ".toList ++
      ("Disconnected from ".toList ++ (host.toList ++ "; will auto-reconnect".toList))) = none :=
    searchLastBy_bind_none hconnected
  rw [matchHistory_stamped, hnone, hnone', search_disconnected hhost hopen]
  dsimp only [Option.map_none, Option.map_some, Option.none_or]
  rw [String.ofList_toList]

namespace ConnectionRecord

/-- **The expressions read the records back.** -/
theorem matchHistory_line (hcfg : HistoryNames cfg) (t : LogInstant) {r : ConnectionRecord} (hr : r.Of cfg) :
    matchHistory (r.line cfg t.logStamp) = some (r.kind, t.matched, r.detail cfg) := by
  rw [line_eq]
  cases r with
  | starting =>
    have hline : (starting.text cfg).toList = "Starting SCGRep sensor centre ".toList ++
        (cfg.sensorCentreId.toList ++ (" (subscriber-id=".toList ++ (cfg.subscriberId.toList ++ [')']))) := by
      unfold text
      simp only [String.toList_append, List.append_assoc]
      rfl
    rw [hline, matchHistory_stamped]
    unfold head
    dsimp only
    rw [search_starting hcfg.centre hcfg.subscriber hcfg.subscriber_open]
    dsimp only [Option.map_some, Option.some_or]
    rw [String.ofList_toList, String.ofList_toList]
    rfl
  | redis =>
    have hline : (redis.text cfg).toList =
        "Connected to ".toList ++ ("Redis at ".toList ++ cfg.redisUrl.toList) := by
      unfold text
      simp only [String.toList_append]
      rfl
    rw [hline]
    refine (matchHistory_connected t (List.all_eq_true.1 (by decide)) hcfg.redisUrl
      (connectedRole_redis _) (by decide) (by decide) rfl rfl (by decide)).trans ?_
    rfl
  | connected client =>
    obtain ⟨hhost, -⟩ := hcfg.host client hr
    have hline : ((connected client).text cfg).toList =
        "Connected to ".toList ++ ((client.role ++ " ").toList ++ client.host.toList) := by
      unfold text
      simp only [String.toList_append, List.append_assoc]
    have hdetail : (connected client).detail cfg = String.ofList (client.role ++ " ").toList ++ client.host := by
      rw [String.ofList_toList]
      rfl
    have hrole := MqttManager.role_mem hr
    obtain ⟨first, m, hm, hsplit⟩ := connectedRole_client hrole hhost
    have hnone : ¬ "Connected to ".toList <:+: (client.role ++ " ").toList ∧
        ¬ "Starting SCGRep sensor centre ".toList <:+:
          "INFO [scgrep.mqtt_client] ".toList ++ ("Connected to ".toList ++ (client.role ++ " ").toList) ∧
        ∃ c, (client.role ++ " ").toList.head? = some c ∧ Text.isSpace c = false := by
      simp only [List.mem_cons, List.not_mem_nil, or_false] at hrole
      rcases hrole with h | h | h | h <;> rw [h] <;> exact ⟨by decide +kernel, by decide +kernel, _, rfl, by decide⟩
    obtain ⟨hconnected, hstarting, c, hc, hsolid⟩ := hnone
    have hhead : (connected client).head = "INFO [scgrep.mqtt_client] " := rfl
    rw [hline, hdetail, hhead]
    exact matchHistory_connected t (List.all_eq_true.1 (by decide)) hhost hm hconnected hstarting hsplit hc hsolid
  | disconnected client =>
    obtain ⟨hhost, hopen⟩ := hcfg.host client hr
    have hline : ((disconnected client).text cfg).toList =
        "Disconnected from ".toList ++ (client.host.toList ++ "; will auto-reconnect".toList) := by
      unfold text
      simp only [String.toList_append, List.append_assoc]
    have hhead : (disconnected client).head = "WARNING [scgrep.mqtt_client] " := rfl
    rw [hline, hhead]
    exact matchHistory_disconnected t hhost hopen

end ConnectionRecord

/-! ## Other lines -/

/-- **A line without three words** is no event. -/
theorem matchHistory_words (t : LogInstant) {words : List (List Char)} {rest : List Char}
    (hrest : rest <:+: [' '].intercalate words) (hne : words ≠ []) (hs : ∀ w ∈ words, ' ' ∉ w)
    (hno : ∀ w ∈ ["SCGRep".toList, "to".toList, "from".toList], w ∉ words) :
    matchHistory (String.ofList (t.asctime ++ ' ' :: rest)) = none := by
  have habsent : ∀ {w lit : List Char}, ' ' ∉ w → w ∉ words → ' ' :: (w ++ [' ']) <:+: lit → ¬ lit <:+: rest := by
    intro w lit hw hmem hlit hinf
    have hword := mem_splitOn_of_infix hw (hlit.trans (hinf.trans hrest))
    rw [List.splitOn_intercalate ' ' hs hne] at hword
    exact hmem hword
  have hstarting : searchLastBy notNewline matchStarting rest = none :=
    searchLastBy_bind_none (habsent (by decide) (hno "SCGRep".toList (by decide)) (by decide))
  have hconnected : searchLastBy notNewline matchConnected rest = none :=
    searchLastBy_bind_none (habsent (by decide) (hno "to".toList (by decide)) (by decide))
  have hdisconnected : searchLastBy notNewline matchDisconnected rest = none :=
    searchLastBy_bind_none (habsent (by decide) (hno "from".toList (by decide)) (by decide))
  rw [matchHistory_stamped, hstarting, hconnected, hdisconnected]
  rfl

/-- **A line of a cycle** is no event. -/
theorem matchHistory_cycle {L : Lib} {E : CycleEnv} (hiso : WindowReadsBack L cfg E) (t : LogInstant)
    {m : CycleMessage} (hm : m.Named) : matchHistory (String.ofList (t.asctime ++ ' ' ::
      ("INFO [scgrep.test_cycle] " ++ m.text L cfg E).toList)) = none := by
  have hwords := @cycleLine_words L cfg E t.logStamp m
  have hline : (cycleLine t.logStamp (m.text L cfg E)).toList = t.logStamp.text.toList ++
      ' ' :: (("INFO [scgrep.test_cycle] " ++ m.text L cfg E).toList ++ ['\n']) := by
    unfold cycleLine
    simp
  rw [hline] at hwords
  have hrest := List.tail_eq_of_cons_eq (List.append_cancel_left hwords)
  have hlong : ∀ {n : ℤ}, IsoReadsBack L n → ∀ w ∈ ["SCGRep".toList, "to".toList, "from".toList],
      ∀ l, w ≠ (epochToIso L n).toList ++ l := by
    intro n h w hw l he
    have hlength := congrArg List.length he
    rw [List.length_append, h.length] at hlength
    simp only [List.mem_cons, List.not_mem_nil, or_false] at hw
    rcases hw with rfl | rfl | rfl <;> simp [isoShape] at hlength <;> omega
  refine @matchHistory_words t ((m.words L cfg E).map String.toList) _
    ⟨[], ['\n'], by rw [List.nil_append, hrest]⟩ ?_ (words_solid hiso hm) fun w hw hmem => ?_
  · cases m <;> exact List.cons_ne_nil _ _
  · have hS := hlong hiso.1 w hw []
    have hE := hlong hiso.2 w hw ['\n']
    simp only [List.mem_cons, List.not_mem_nil, or_false] at hw
    -- but for the ends of the window, a word begins with a text of its own
    rcases hw with rfl | rfl | rfl <;> cases m <;> simp [CycleMessage.words] at hmem hS hE <;>
      exact hmem.elim hS hE

/-! ## Stamps -/

theorem asciiDigit_digits (k : ℕ) : ∀ n, (digits k n).map asciiDigit = digits k n := by
  induction k with
  | zero => intro n; rfl
  | succ k ih =>
    intro n
    have hmod : n % 10 < 10 := Nat.mod_lt _ (by decide)
    have hdigit : asciiDigit (Nat.digitChar (n % 10)) = Nat.digitChar (n % 10) := by
      unfold asciiDigit
      rw [if_pos (isDigit_isDecimal (isDigit_digitChar hmod)), decimalValue_digitChar hmod]
    unfold digits
    rw [List.map_append, ih, List.map_singleton, hdigit]

/-- The digits of a valid date and a valid time are those that the format asks for. -/
theorem matchFormat_text (t : Stamp) : matchFormat t.date.text t.timeText = true := by
  have hmonth : ∀ n < 13, 1 ≤ n →
      twoDigits monthField (Nat.digitChar (n / 10 % 10)) (Nat.digitChar (n % 10)) = true := by decide
  have hday : ∀ n < 32, 1 ≤ n →
      twoDigits dayField (Nat.digitChar (n / 10 % 10)) (Nat.digitChar (n % 10)) = true := by decide +kernel
  have hhour : ∀ n < 24,
      twoDigits hourField (Nat.digitChar (n / 10 % 10)) (Nat.digitChar (n % 10)) = true := by decide +kernel
  have hminute : ∀ n < 60,
      twoDigits minuteField (Nat.digitChar (n / 10 % 10)) (Nat.digitChar (n % 10)) = true := by decide +kernel
  have hsecond : ∀ n < 60,
      twoDigits secondField (Nat.digitChar (n / 10 % 10)) (Nat.digitChar (n % 10)) = true := by decide +kernel
  have hlast : t.date.day < 32 :=
    t.date.day_le.trans_lt (Nat.lt_succ_of_le (monthDays_le (isLeap t.date.year) t.date.month))
  change (twoDigits monthField _ _ && twoDigits dayField _ _ && twoDigits hourField _ _ &&
    twoDigits minuteField _ _ && twoDigits secondField _ _) = true
  rw [hmonth t.date.month (Nat.lt_succ_of_le t.date.month_le) t.date.month_pos, hday t.date.day hlast t.date.day_pos,
    hhour t.hour t.hour_lt, hminute t.minute t.minute_lt, hsecond t.second t.second_lt]
  rfl

/-- **`strptime` of a stamp** is its second. -/
theorem strptime_matched (t : LogInstant) : strptime t.matched = some (timestampOf t.stamp) := by
  have hformat : matchFormat t.matched.date.toList t.matched.hms = true := by
    unfold LogInstant.matched LogInstant.dateText
    rw [String.toList_ofList]
    exact matchFormat_text t.stamp
  have htext : t.matched.date.toList ++ ' ' :: t.matched.hms = t.stamp.text ' ' := by
    unfold LogInstant.matched LogInstant.dateText Stamp.text
    rw [String.toList_ofList]
  have hmap : (t.stamp.text ' ').map asciiDigit = t.stamp.text ' ' := by
    have hsep : asciiDigit '-' = '-' ∧ asciiDigit ' ' = ' ' ∧ asciiDigit ':' = ':' := by decide
    unfold Stamp.text Date.text Stamp.timeText
    simp only [List.map_append, List.map_cons, asciiDigit_digits, hsep]
  have hread := @readStamp_text ' ' t.stamp t.year_lt []
  rw [List.append_nil] at hread
  unfold strptime
  rw [if_pos hformat, htext, hmap, hread]

-- a digit of another script is read in the day, but not in the month
example : strptime ⟨"2024-01-1٥", "00:00:00".toList, []⟩ = some (newYear + 14 * 86400) ∧
    strptime ⟨"2024-0١-15", "00:00:00".toList, []⟩ = none := by decide +kernel

/-- **Later lines are greater**, whatever they say. -/
theorem asctime_lt {s t : LogInstant} (h : s.instant < t.instant) (u v : List Char) :
    s.asctime ++ u < t.asctime ++ v := by
  have hs : (s.ms : ℚ) < 1000 := by exact_mod_cast s.ms_lt
  have ht : (t.ms : ℚ) < 1000 := by exact_mod_cast t.ms_lt
  unfold LogInstant.instant at h
  unfold LogInstant.asctime
  rw [List.append_assoc, List.append_assoc, Stamp.text_append_lt s.year_lt t.year_lt]
  rcases lt_trichotomy s.stamp.seconds t.stamp.seconds with hlt | heq | hgt
  · exact .inl hlt
  · have hms : s.ms < t.ms := by
      rw [heq] at h
      have : (s.ms : ℚ) < t.ms := by linarith
      exact_mod_cast this
    refine .inr ⟨Stamp.seconds_injective heq, ?_⟩
    rw [List.cons_append, List.cons_append, List.cons_lt_cons_self, digits_append_lt 3 s.ms_lt t.ms_lt]
    exact .inl hms
  · have hsec : (t.stamp.seconds : ℚ) + 1 ≤ s.stamp.seconds := by exact_mod_cast hgt
    have hms : (0 : ℚ) ≤ s.ms := Nat.cast_nonneg _
    linarith

namespace ConnectionRecord

theorem line_lt {cfg cfg' : Config} {s t : LogInstant} (h : s.instant < t.instant) (r r' : ConnectionRecord) :
    r.line cfg s.logStamp < r'.line cfg' t.logStamp := by
  rw [line_eq, line_eq, String.lt_iff_toList_lt, String.toList_ofList, String.toList_ofList]
  exact asctime_lt h _ _

/-- Lines in order are in the order of time. -/
theorem time_le {cfg cfg' : Config} {s t : LogInstant} {r r' : ConnectionRecord}
    (h : r.line cfg s.logStamp < r'.line cfg' t.logStamp) : timestampOf s.stamp ≤ timestampOf t.stamp := by
  by_contra hlt
  have hsec : (t.stamp.seconds : ℤ) < s.stamp.seconds := by
    unfold timestampOf at hlt
    omega
  have hms : (t.ms : ℚ) < 1000 := by exact_mod_cast t.ms_lt
  have hms' : (0 : ℚ) ≤ s.ms := Nat.cast_nonneg _
  have hsec' : (t.stamp.seconds : ℚ) + 1 ≤ s.stamp.seconds := by exact_mod_cast hsec
  have hinstant : t.instant < s.instant := by
    unfold LogInstant.instant
    linarith
  exact lt_asymm h (line_lt hinstant r' r)

end ConnectionRecord

/-! ## Events -/

variable {zone : ℤ → ℤ} {wanted : List String}

/-- The local time of an instant is one of a date. -/
def HasLocal (zone : ℤ → ℤ) (t : LogInstant) : Prop :=
  -unixEpoch ≤ timestampOf t.stamp + zone (timestampOf t.stamp) ∧
    timestampOf t.stamp + zone (timestampOf t.stamp) < endOfTime

instance (zone : ℤ → ℤ) (t : LogInstant) : Decidable (HasLocal zone t) := inferInstanceAs (Decidable (_ ∧ _))

/-- **A record is its event**, if its date is wanted. -/
theorem historyEvent_line (hcfg : HistoryNames cfg) {t : LogInstant} (ht : HasLocal zone t)
    {r : ConnectionRecord} (hr : r.Of cfg) :
    historyEvent zone wanted (r.line cfg t.logStamp) =
      .ok (if wanted ≠ [] ∧ localDate zone (timestampOf t.stamp) ∉ wanted then none
        else some (r.event cfg t)) := by
  unfold historyEvent
  rw [ConnectionRecord.matchHistory_line hcfg t hr]
  dsimp only
  rw [strptime_matched]
  dsimp only
  unfold HasLocal at ht
  unfold inYears
  rw [if_pos ht]
  dsimp only
  split
  · rfl
  · rfl

theorem historyEvent_other {line : String} (h : matchHistory line = none) :
    historyEvent zone wanted line = .ok none := by
  unfold historyEvent
  rw [h]

end Scgrep
