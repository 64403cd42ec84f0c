import Scgrep.Lib.Dict
import Scgrep.Spec.Config

/-!
# `mqtt_client.py`: `MqttManager`

`MqttManager.start` as far as it decides which clients there are: the plans of the
two loops over the brokers, and the client that each plan is built into. What a
client does once it is connected is the subject of `Spec/Handler.lean`.
-/

namespace Scgrep

/-- The key of a plan. -/
def BrokerConfig.address (broker : BrokerConfig) : String × ℕ := (broker.host, broker.port)

/-- A plan. -/
structure Plan where
  broker : BrokerConfig
  subs : List String
  roles : List String
  tlsInsecure : Bool

/-- `client.tls_set`, if it is called, and with which verification. -/
inductive TlsSetup where
  | plain
  | verified
  | unverified
deriving DecidableEq

/-- A client: the broker that it connects to, what it is set up with, and what it subscribes to whenever
it is connected. -/
structure Client where
  host : String
  port : ℕ
  clientId : String
  userData : String
  credentials : Option (String × Option String)
  tls : TlsSetup
  subscriptions : List String
  role : String
deriving DecidableEq

/-- What a client connects to. -/
def Client.address (client : Client) : String × ℕ := (client.host, client.port)

namespace MqttManager

variable (cfg : Config)

/-- `_broker_url`. -/
def brokerUrl (broker : BrokerConfig) : String :=
  (if broker.tls then "mqtts" else "mqtt") ++ "://" ++ broker.host ++ ":" ++ toString broker.port

/-- `_build_client`. -/
def buildClient (broker : BrokerConfig) (subscriptions : List String) (role : String)
    (tlsInsecure : Bool) : Client where
  host := broker.host
  port := broker.port
  clientId := "scgrep-" ++ (cfg.subscriberId ++ ("-" ++ broker.host))
  userData := brokerUrl broker
  credentials := broker.username.map fun username => (username, broker.password)
  tls := if broker.tls then (if tlsInsecure then .unverified else .verified) else .plain
  subscriptions := subscriptions
  role := role

/-- `plan_for`, when there may be a plan for the address already. -/
def planFor (broker : BrokerConfig) (plan : Option Plan) : Plan := plan.getD ⟨broker, [], [], false⟩

/-- What the first loop does to the plan of a Global Broker. -/
def globalPlan (broker : BrokerConfig) (plan : Option Plan) : Plan :=
  let plan := planFor broker plan
  { plan with
    subs := plan.subs ++ cfg.subscriptionTopics
    roles := plan.roles ++ ["Global Broker"] }

/-- What the second loop does to the plan of a replay broker. -/
def replayPlan (broker : BrokerConfig) (plan : Option Plan) : Plan :=
  let plan := planFor broker plan
  let plan := { plan with
    subs := plan.subs ++ cfg.replayWildcardTopics
    roles := plan.roles ++ ["Replay broker"] }
  -- a Global Broker keeps its verification
  if "Global Broker" ∉ plan.roles then { plan with tlsInsecure := cfg.replayBrokerTlsInsecure } else plan

/-- The plans. -/
def plans : Dict (String × ℕ) Plan :=
  let plans := cfg.brokers.foldl
    (fun plans broker => plans.set broker.address (globalPlan cfg broker (plans.get? broker.address)))
    Dict.empty
  cfg.replayBrokers.foldl
    (fun plans broker => plans.set broker.address (replayPlan cfg broker (plans.get? broker.address)))
    plans

/-- `start`: the clients that it builds. -/
def start : List Client :=
  (plans cfg).items.map fun item =>
    let plan := item.2
    buildClient cfg plan.broker (Dict.fromKeys plan.subs) (" + ".intercalate (Dict.fromKeys plan.roles))
      plan.tlsInsecure

end MqttManager

end Scgrep
