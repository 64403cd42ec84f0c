import Scgrep.Proof.Channels
import Scgrep.Proof.ReplayRun

/-!
# The three counts of a cycle agree

A `Catalogue` holds the messages of a cycle: which ids there are, each with one time and
one topic. When those with a time in the window and a configured topic are delivered live
before the baseline counts (`DeliveredLive`), served by the services (`ServedAll`) and
replayed in time (`ReplayedAll`), each of them any number of times, in any order and with
others among them, **the baseline, the http and the mqtt count of each cell are all the
number of these messages** (`three_counts_agree`).

Each pipeline has its own part: retention (`received_due`), paging (`served_due`) and
routing (`replayed_due`).
-/

namespace Scgrep

open Redis

/-! ## Messages -/

/-- The messages that are delivered, served or replayed. -/
structure Catalogue where
  ids : Finset String
  time : String → ℚ
  topic : String → String

/-- The JSON object is the message `x`. -/
structure Catalogue.Describes (M : Catalogue) (L : Lib) (data : Json) (x : String) : Prop where
  object : data.isDict = true
  id : data.get "id" = .str x
  id_ne : x ≠ ""
  /-- the commands that store it succeed -/
  encodes : L.encodes x = true
  known : x ∈ M.ids
  given : (timeValueOf data).truthy = true
  time : parseTimeToEpoch L (pyStr L (timeValueOf data)) = some (M.time x)

/-- The payload is the message `x`. -/
def Catalogue.Carries (M : Catalogue) (L : Lib) (payload x : String) : Prop :=
  ∃ data, L.loads payload = .ok data ∧ M.Describes L data x

/-- A live message. -/
def Catalogue.Live (M : Catalogue) (L : Lib) (msg : MqttMessage) (x : String) : Prop :=
  M.Carries L msg.payload x ∧ msg.topic = M.topic x ∧ Text.startsWith msg.topic "replay/" = false

/-- A replay by centre `c`. -/
def Catalogue.Replay (M : Catalogue) (E : Ctx) (c : String) (msg : MqttMessage) (x : String) : Prop :=
  M.Carries E.L msg.payload x ∧ msg.topic = replayTopic c E.cfg.subscriberId (M.topic x)

/-- The messages that a topic selects, with a time in the window. -/
def Catalogue.due (M : Catalogue) (E : Ctx) (P : String) : Finset String :=
  M.ids.filter fun x => topicMatches E.L P (M.topic x) = true ∧ (E.window.start : ℚ) ≤ M.time x ∧
    M.time x < (E.window.stop : ℚ)

variable {M : Catalogue} {L : Lib} {E : Ctx}

theorem Catalogue.mem_due {P x : String} : x ∈ M.due E P ↔
    x ∈ M.ids ∧ topicMatches E.L P (M.topic x) = true ∧ (E.window.start : ℚ) ≤ M.time x ∧
      M.time x < (E.window.stop : ℚ) := Finset.mem_filter

namespace Catalogue.Describes

variable {data : Json} {x : String}

theorem featureRecord_eq (h : M.Describes L data x) :
    featureRecord L data = some (x, pyStr L (timeValueOf data)) := by
  have hx : (Json.str x).truthy = true := by
    show (x != "") = true
    exact bne_iff_ne.2 h.id_ne
  simp only [featureRecord, h.object, h.id, h.given, hx, Bool.not_true, Bool.false_eq_true,
    Bool.or_self, if_false]
  rfl

theorem parseMessage_eq {payload : String} (h : M.Describes L data x) (hl : L.loads payload = .ok data) :
    parseMessage L payload = .ok (some (x, pyStr L (timeValueOf data))) := by
  have hx : (Json.str x).truthy = true := by
    show (x != "") = true
    exact bne_iff_ne.2 h.id_ne
  simp only [parseMessage, hl, h.object, h.id, h.given, hx, Bool.not_true, Bool.false_eq_true,
    Bool.or_self, if_false]
  rfl

/-- An object is one message. -/
theorem unique {y : String} (h : M.Describes L data x) (h' : M.Describes L data y) : x = y :=
  Json.str.inj (h.id.symm.trans h'.id)

end Catalogue.Describes

/-- What a payload is parsed to. -/
theorem Catalogue.Carries.parsed {payload x : String} (h : M.Carries L payload x) :
    ∃ v, parseMessage L payload = .ok (some (x, v)) ∧ parseTimeToEpoch L v = some (M.time x) := by
  obtain ⟨data, hl, hd⟩ := h
  exact ⟨_, hd.parseMessage_eq hl, hd.time⟩

/-- It is not refused. -/
theorem Catalogue.Carries.not_refused {payload x : String} (h : M.Carries L payload x)
    (timeValue : String) : refuses L x timeValue = false := by
  obtain ⟨data, -, hd⟩ := h
  exact refuses_of_encodes hd.encodes timeValue

theorem Catalogue.Carries.known {payload x : String} (h : M.Carries L payload x) : x ∈ M.ids := by
  obtain ⟨data, -, hd⟩ := h
  exact hd.known

/-- A live message is stored as one. -/
theorem Catalogue.Live.arrival {msg : MqttMessage} {x : String} (h : M.Live L msg x) (t : ℚ) :
    ∃ v, messageOp L t msg = some (.message t x v (M.topic x)) ∧
      parseTimeToEpoch L v = some (M.time x) := by
  obtain ⟨hc, ht, hr⟩ := h
  obtain ⟨v, hp, hv⟩ := hc.parsed
  refine ⟨v, ?_, hv⟩
  unfold messageOp
  rw [hp]
  dsimp only
  rw [hc.not_refused v, if_neg (by decide), if_neg (by rw [hr]; decide), ht]

/-- A replay is read as one. -/
theorem Catalogue.Replay.record (hsep : E.cfg.Separate) {c : String} (hc : c ∈ E.cfg.replayCentreIds)
    {msg : MqttMessage} {x : String} (h : M.Replay E c msg x) :
    replayRecord E.L msg = some ⟨c, x, M.time x, M.topic x⟩ := by
  obtain ⟨hcar, ht⟩ := h
  obtain ⟨v, hp, hv⟩ := hcar.parsed
  have hr : Text.startsWith msg.topic "replay/" = true := by rw [ht]; exact replay_startsWith _ _ _
  have hparts := replayParts_replayTopic (hsep.centre_plain c hc).1 hsep.subscriber_plain (M.topic x)
  unfold replayRecord
  rw [if_pos hr, ht, hparts, hp]
  dsimp only
  rw [hcar.not_refused v, if_neg (by decide), hv, Option.map_some]

/-! ## The three deliveries -/

variable {ops : List StoreOp} {reg : ReplayRegistry} {m : Metrics} {w₀ : World} {es : List Event}

/-- The messages handled during the cycle are live messages and replays of the catalogue, on
topics without a wildcard. -/
structure Handles (M : Catalogue) (E : Ctx) (es : List Event) : Prop where
  message : ∀ msg, Event.deliver msg ∈ es → (∃ x, M.Live E.L msg x) ∨
    ∃ c ∈ E.cfg.replayCentreIds, ∃ x, M.Replay E c msg x
  plain : ∀ msg, Event.deliver msg ∈ es → '+' ∉ msg.topic.toList

/-- The messages that are due were delivered live when the baselines are counted, none of them
more than 59 seconds ahead of its time, and the count comes before one in the window can have
expired (as it does at the cycle's own time, `cutoff_lt_start`). -/
structure DeliveredLive (M : Catalogue) (E : Ctx) (ops : List StoreOp) (reg : ReplayRegistry)
    (m : Metrics) (es : List Event) (b : ℕ) : Prop where
  reads : ReadsAt E (afterHistory E ops reg m) es b
  past_clocked : (ops.filterMap StoreOp.arrival?).Pairwise fun a a' => a.now ≤ a'.now
  past_now : ∀ a ∈ ops.filterMap StoreOp.arrival?, a.now ≤ E.wall E.started
  past_known : ∀ a ∈ ops.filterMap StoreOp.arrival?, a.msgId ∈ M.ids ∧
    parseTimeToEpoch E.L a.timeValue = some (M.time a.msgId) ∧ a.topic = M.topic a.msgId
  ahead : ∀ P ∈ E.cfg.subscriptionTopics, ∀ a ∈ liveArrivals E ops es b, a.msgId ∈ M.due E P →
    M.time a.msgId ≤ a.now + 59
  all : ∀ P ∈ E.cfg.subscriptionTopics, ∀ x ∈ M.due E P, ∃ a ∈ liveArrivals E ops es b, a.msgId = x
  soon : E.wall (worldAt E (afterHistory E ops reg m) es b).now - (E.cfg.redisExpiry : ℚ) + 59 <
    (E.window.start : ℚ)

/-- The service of cell `i` serves messages of the catalogue that its query selects, those in the
window among them, and announces some when it serves some. -/
structure ServedAll (M : Catalogue) (E : Ctx) (w₀ : World) (es : List Event) (i : ℕ) (cell : Cell)
    (pages : List Json) (N : ℤ) : Prop where
  serves : Serves E w₀ es i cell pages N
  known : ∀ page ∈ pages, ∀ feature ∈ pageFeatures page,
    ∃ x, M.Describes E.L feature x ∧ querySelects cell.topic (M.topic x)
  all : ∀ x ∈ M.ids, querySelects cell.topic (M.topic x) → (E.window.start : ℚ) ≤ M.time x →
    M.time x < (E.window.stop : ℚ) → ∃ page ∈ pages, ∃ feature ∈ pageFeatures page,
      M.Describes E.L feature x
  number : (∃ page ∈ pages, pageFeatures page ≠ []) → 0 < N

/-- The messages that are due are replayed for cell `i`, each after its fetch has registered its
channel and before the deadline; and the answer to the POST can be decoded. -/
structure ReplayedAll (M : Catalogue) (E : Ctx) (w₀ : World) (es : List Event) (i : ℕ) (cell : Cell) :
    Prop where
  all : ∀ x ∈ M.due E cell.topic, ∃ r d msg, RegistersAt E w₀ es r i cell ∧ r < d ∧
    es[d]? = some (.deliver msg) ∧ (worldAt E w₀ es d).now < E.deadlineAt ∧
      M.Replay E cell.centreId msg x
  post : ∀ (n : ℕ) (x : Exchange), es[n]? = some (.postReply i x) → x.Decodes E.L

/-! ## The baseline -/

/-- What arrives live is of the catalogue. -/
theorem DeliveredLive.known (hh : Handles M E es) {b : ℕ} (h : DeliveredLive M E ops reg m es b)
    {a : Arrival} (ha : a ∈ liveArrivals E ops es b) : a.msgId ∈ M.ids ∧
      parseTimeToEpoch E.L a.timeValue = some (M.time a.msgId) ∧ a.topic = M.topic a.msgId := by
  rcases mem_liveArrivals.1 ha with ha | ⟨t, msg, op, hx, hop, ha⟩
  · exact h.past_known a ha
  · obtain ⟨n, hn, -⟩ := (mem_timeline (E := E) (w := afterHistory E ops reg m)).1 hx
    have hmem : Event.deliver msg ∈ es := List.mem_of_mem_take (List.mem_of_getElem? hn)
    rcases hh.message msg hmem with ⟨x, hlive⟩ | ⟨c, hc, x, hrep⟩
    · obtain ⟨v, hop', hv⟩ := hlive.arrival (E.wall t)
      rw [hop'] at hop
      obtain rfl := Option.some.inj hop
      obtain rfl := Option.some.inj ha
      exact ⟨hlive.1.known, hv, rfl⟩
    · -- a replay is not stored live
      have hr : Text.startsWith msg.topic "replay/" = true := by
        rw [hrep.2]; exact replay_startsWith _ _ _
      obtain ⟨v, hp, -⟩ := hrep.1.parsed
      unfold messageOp at hop
      rw [hp] at hop
      dsimp only at hop
      rw [hrep.1.not_refused v, if_neg (by decide), if_pos hr] at hop
      obtain ⟨parts, -, rfl⟩ := Option.map_eq_some_iff.1 hop
      cases ha

/-- **The baseline counts what is due.** -/
theorem received_due (hacc : E.cfg.Accepted) (hsep : E.cfg.Separate) (hh : Handles M E es) {b : ℕ}
    (h : DeliveredLive M E ops reg m es b)
    (hpub : ((afterHistory E ops reg m).run E es).main = .published) {P : String}
    (hP : P ∈ E.cfg.subscriptionTopics) :
    receivedIn E (afterHistory E ops reg m) es P = (M.due E P).card := by
  have he := hacc.redisExpiry_nonneg
  have hids : idsIn E.L E.window P (liveArrivals E ops es b) = M.due E P := by
    ext x
    rw [mem_idsIn, Catalogue.mem_due]
    constructor
    · rintro ⟨a, ha, rfl, hsel, hin⟩
      obtain ⟨hid, ht, htop⟩ := h.known hh ha
      obtain ⟨hlo, hhi⟩ := (timeIn_eq_true ht).1 hin
      exact ⟨hid, by rw [← htop]; exact hsel, hlo, hhi⟩
    · rintro ⟨hid, hsel, hlo, hhi⟩
      obtain ⟨a, ha, rfl⟩ := h.all P hP x (Catalogue.mem_due.2 ⟨hid, hsel, hlo, hhi⟩)
      obtain ⟨-, ht, htop⟩ := h.known hh ha
      exact ⟨a, ha, rfl, by rw [htop]; exact hsel, (timeIn_eq_true ht).2 ⟨hlo, hhi⟩⟩
  have hcount := count_of_baseline (W := E.window)
    (liveArrivals_clocked h.past_clocked h.past_now b) (fun a ha => (h.known hh ha).2.1)
    (fun a ha a' ha' hid => by
      rw [(h.known hh ha).2.2, (h.known hh ha').2.2, hid])
    (fun a ha => liveArrivals_now h.past_now ha)
    (fun a ha hin => h.ahead P hP a ha (by rw [← hids]; exact hin))
    (baseline_at_read he hP h.reads) h.soon
  rw [receivedIn_eq fresh_afterHistory hpub hsep.topics hP h.reads, hcount, hids]

/-! ## The pages -/

/-- The record of a feature that is a message. -/
theorem Catalogue.Describes.mem_records {page feature : Json} {x : String}
    (h : M.Describes L feature x) (hf : feature ∈ pageFeatures page) :
    (x, M.time x) ∈ pageRecords L page := by
  refine List.mem_filterMap.2 ⟨feature, hf, ?_⟩
  rw [h.featureRecord_eq, Option.bind_some, h.time, Option.map_some]

/-- The records of pages of messages. -/
theorem record_known {pages : List Json} (hknown : ∀ page ∈ pages, ∀ feature ∈ pageFeatures page,
    ∃ x, M.Describes L feature x) {r : String × ℚ} (hr : r ∈ pages.flatMap (pageRecords L)) :
    r.2 = M.time r.1 ∧ ∃ page ∈ pages, ∃ feature ∈ pageFeatures page, M.Describes L feature r.1 := by
  obtain ⟨page, hpage, hr⟩ := List.mem_flatMap.1 hr
  obtain ⟨feature, hf, hrec⟩ := List.mem_filterMap.1 hr
  obtain ⟨y, hy⟩ := hknown page hpage feature hf
  rw [hy.featureRecord_eq, Option.bind_some, hy.time, Option.map_some] at hrec
  obtain rfl := Option.some.inj hrec
  exact ⟨rfl, page, hpage, feature, hf, hy⟩

theorem soleSyncKey (hacc : E.cfg.Accepted) (hsep : E.cfg.Separate) {i : ℕ} {cell : Cell}
    (hi : E.cfg.cells[i]? = some cell) : SoleSyncKey E i cell := by
  intro j cell' hj hk
  obtain ⟨hc, ht⟩ := syncKey_inj (hsep.centre_plain _ (centre_mem hj)).2
    (hsep.centre_plain _ (centre_mem hi)).2 hk
  refine cell_index (pairs_nodup (hsep.distinct hacc)) hi hj ?_
  unfold Cell.pair
  rw [hc, ht]

section Pages

variable {i : ℕ} {cell : Cell} {pages : List Json} {N : ℤ}

/-- **The pages hold what is due**, and nothing else with a time in the window. -/
theorem ServedAll.pageIds_eq (hacc : E.cfg.Accepted) (hsep : E.cfg.Separate) (hL : ImplementsMqtt E.L)
    (hi : E.cfg.cells[i]? = some cell) (h : ServedAll M E w₀ es i cell pages N) :
    pageIds E pages = M.due E cell.topic := by
  have hquery : ∀ t, querySelects cell.topic t ↔ topicMatches E.L cell.topic t = true :=
    fun t => hsep.query_iff hacc hL (cell_mem hi).1 t
  have hdesc : ∀ page ∈ pages, ∀ feature ∈ pageFeatures page, ∃ x, M.Describes E.L feature x := by
    intro page hpage feature hf
    obtain ⟨x, hx, -⟩ := h.known page hpage feature hf
    exact ⟨x, hx⟩
  ext x
  rw [mem_pageIds, Catalogue.mem_due]
  constructor
  · rintro ⟨τ, hr, hlo, hhi⟩
    obtain ⟨hτ, page, hpage, feature, hf, hx⟩ := record_known hdesc hr
    obtain rfl : τ = M.time x := hτ
    obtain ⟨y, hy, hsel⟩ := h.known page hpage feature hf
    obtain rfl := hx.unique hy
    exact ⟨hx.known, (hquery _).1 hsel, hlo, hhi⟩
  · rintro ⟨hid, hsel, hlo, hhi⟩
    obtain ⟨page, hpage, feature, hf, hx⟩ := h.all x hid ((hquery _).2 hsel) hlo hhi
    exact ⟨M.time x, List.mem_flatMap.2 ⟨page, hpage, hx.mem_records hf⟩, hlo, hhi⟩

/-- **The http count is what is due.** -/
theorem served_due (hacc : E.cfg.Accepted) (hsep : E.cfg.Separate) (hL : ImplementsMqtt E.L)
    (hf : Fresh w₀) (hstart : w₀.now = E.started) (hpub : (w₀.run E es).main = .published)
    (hend : (w₀.run E es).now ≤ E.started + (E.cfg.redisExpiry : ℚ))
    (hi : E.cfg.cells[i]? = some cell) (h : ServedAll M E w₀ es i cell pages N) :
    fetchedIn E w₀ es cell .http = (M.due E cell.topic).card := by
  have hτ : ∀ r ∈ pages.flatMap (pageRecords E.L), r.2 = M.time r.1 := by
    intro r hr
    refine (record_known (fun page hpage feature hf => ?_) hr).1
    obtain ⟨x, hx, -⟩ := h.known page hpage feature hf
    exact ⟨x, hx⟩
  rw [sync_fetched hf hstart hpub (pairs_nodup (hsep.distinct hacc)) h.serves hi
    (soleSyncKey hacc hsep hi) hτ hend, h.pageIds_eq hacc hsep hL hi]

/-- Where something is due, the synchronous fetch announces it. -/
theorem announced (hacc : E.cfg.Accepted) (hsep : E.cfg.Separate) (hL : ImplementsMqtt E.L)
    (hf : Fresh w₀) (hstart : w₀.now = E.started) (hi : E.cfg.cells[i]? = some cell)
    (h : ServedAll M E w₀ es i cell pages N) (hne : (M.due E cell.topic).Nonempty) {n : ℕ}
    (hn : n ≤ es.length) {out : Outcome} (hs : (worldAt E w₀ es n).sync i = .finished out) :
    ∃ k, numberMatchedFrom out = some k ∧ 0 < k := by
  refine ⟨N, sync_number hf hstart h.serves hi (soleSyncKey hacc hsep hi) hn hs, h.number ?_⟩
  obtain ⟨x, hx⟩ := hne
  obtain ⟨hid, hsel, hlo, hhi⟩ := Catalogue.mem_due.1 hx
  have hquery := (hsep.query_iff hacc hL (cell_mem hi).1 (M.topic x)).2 hsel
  obtain ⟨page, hpage, feature, hf, -⟩ := h.all x hid hquery hlo hhi
  exact ⟨page, hpage, List.ne_nil_of_mem hf⟩

end Pages

/-! ## The replays -/

/-- A replay on a topic without wildcards is not one of the centre `+`. -/
theorem Catalogue.Replay.centre_ne_plus {c : String} {msg : MqttMessage} {x : String}
    (h : M.Replay E c msg x) (hplain : '+' ∉ msg.topic.toList) : c ≠ "+" := by
  rintro rfl
  refine hplain ?_
  rw [h.2]
  unfold replayTopic
  simp [String.toList_append]

/-- **What is due is replayed** for a cell, and nothing else with a time in the window. -/
theorem replays_due (hacc : E.cfg.Accepted) (hsep : E.cfg.Separate) (hL : ImplementsMqtt E.L)
    (hh : Handles M E es)
    (hrep : ∀ j cell', E.cfg.cells[j]? = some cell' → ReplayedAll M E w₀ es j cell') {i : ℕ}
    {cell : Cell} (hi : E.cfg.cells[i]? = some cell) :
    Replays E w₀ es i cell M.time (M.due E cell.topic) := by
  -- a message with a record is a replay of the catalogue
  have hmsg : ∀ msg r, Event.deliver msg ∈ es → replayRecord E.L msg = some r →
      ∃ c ∈ E.cfg.replayCentreIds, ∃ x, M.Replay E c msg x ∧ r = ⟨c, x, M.time x, M.topic x⟩ := by
    intro msg r hmem hr
    rcases hh.message msg hmem with ⟨x, -, -, hlive⟩ | ⟨c, hc, x, hx⟩
    · unfold replayRecord at hr
      rw [if_neg (by rw [hlive]; decide)] at hr
      cases hr
    · rw [hx.record hsep hc] at hr
      exact ⟨c, hc, x, hx, (Option.some.inj hr).symm⟩
  refine ⟨?_, ?_, ?_, ?_⟩
  · intro msg r hmem hr
    obtain ⟨c, hc, x, hx, rfl⟩ := hmsg msg r hmem hr
    rfl
  · intro msg r hmem hr hind hlo hhi
    obtain ⟨c, hc, x, hx, rfl⟩ := hmsg msg r hmem hr
    obtain ⟨-, hsel⟩ := (indexesFor_replay hsep hi hc hx.2 hr).2.2.1 hind
    exact Catalogue.mem_due.2 ⟨hx.1.known, hsel, hlo, hhi⟩
  · intro x hx
    exact (Catalogue.mem_due.1 hx).2.2
  · intro x hx
    obtain ⟨r, d, msg, hreg, hrd, hd, hdt, hmsg⟩ := (hrep i cell hi).all x hx
    have hsel := (Catalogue.mem_due.1 hx).2.1
    have hc := centre_mem hi
    have hrec := hmsg.record hsep hc
    refine ⟨r, hreg, d, msg, _, hrd, hd, hdt, hrec, rfl, ?_, ?_⟩
    · exact (indexesFor_replay hsep hi hc hmsg.2 hrec).2.2.2 ⟨rfl, hsel⟩
    · refine oneChannel_replay hsep hacc hL (cell_mem hi).1 hsel hc (fun j cell' hj ht => ?_) hmsg.2
      -- the same message is replayed for the other centre
      have hx' : x ∈ M.due E cell'.topic := by rw [ht]; exact hx
      obtain ⟨-, d', msg', -, -, hd', -, hmsg'⟩ := (hrep j cell' hj).all x hx'
      exact hmsg'.centre_ne_plus (hh.plain msg' (List.mem_of_getElem? hd'))

/-- **The mqtt count is what is due.** -/
theorem replayed_due (hacc : E.cfg.Accepted) (hsep : E.cfg.Separate) (hL : ImplementsMqtt E.L)
    (hf : Fresh w₀) (hstart : w₀.now = E.started) (hr : OwnChannels E w₀.reg)
    (hpub : (w₀.run E es).main = .published)
    (hend : (w₀.run E es).now ≤ E.started + (E.cfg.redisExpiry : ℚ)) (hh : Handles M E es)
    (hrep : ∀ j cell', E.cfg.cells[j]? = some cell' → ReplayedAll M E w₀ es j cell') {i : ℕ}
    {cell : Cell} (hi : E.cfg.cells[i]? = some cell) {pages : List Json} {N : ℤ}
    (h : ServedAll M E w₀ es i cell pages N) :
    fetchedIn E w₀ es cell .mqtt = (M.due E cell.topic).card :=
  (replays_due hacc hsep hL hh hrep hi).fetched hacc.redisExpiry_nonneg hf hstart hr hpub
    (pairs_nodup (hsep.distinct hacc)) hi (hrep i cell hi).post
    (fun hne _ _ hn hs => announced hacc hsep hL hf hstart hi h hne hn hs) hend

/-! ## Agreement -/

/-- A cycle after a history of calls that is over before the sets of its fetches can expire, in
which every message that is due was delivered live, is served and is replayed. -/
structure FullCycle (M : Catalogue) (E : Ctx) (ops : List StoreOp) (reg : ReplayRegistry) (m : Metrics)
    (es : List Event) : Prop where
  published : ((afterHistory E ops reg m).run E es).main = .published
  ends : ((afterHistory E ops reg m).run E es).now ≤ E.started + (E.cfg.redisExpiry : ℚ)
  channels : OwnChannels E reg
  handles : Handles M E es
  live : ∃ b, DeliveredLive M E ops reg m es b
  served : ∀ i cell, E.cfg.cells[i]? = some cell →
    ∃ pages N, ServedAll M E (afterHistory E ops reg m) es i cell pages N
  replayed : ∀ i cell, E.cfg.cells[i]? = some cell →
    ReplayedAll M E (afterHistory E ops reg m) es i cell

/-- **The three counts of each cell agree**: all of them are the number of messages that are due. -/
theorem three_counts_agree {uuid : String} {env : String → Option String}
    (hcfg : Config.fromEnv E.L uuid env = .ok E.cfg) (hsep : E.cfg.Separate) (hL : ImplementsMqtt E.L)
    (h : FullCycle M E ops reg m es) {i : ℕ} {cell : Cell} (hi : E.cfg.cells[i]? = some cell) :
    receivedIn E (afterHistory E ops reg m) es cell.topic = (M.due E cell.topic).card ∧
      fetchedIn E (afterHistory E ops reg m) es cell .http = (M.due E cell.topic).card ∧
      fetchedIn E (afterHistory E ops reg m) es cell .mqtt = (M.due E cell.topic).card := by
  have hacc := fromEnv_spec hcfg
  obtain ⟨b, hlive⟩ := h.live
  obtain ⟨pages, N, hserved⟩ := h.served i cell hi
  refine ⟨received_due hacc hsep h.handles hlive h.published (cell_mem hi).1, ?_, ?_⟩
  · exact served_due hacc hsep hL fresh_afterHistory rfl h.published h.ends hi hserved
  · exact replayed_due hacc hsep hL fresh_afterHistory rfl h.channels h.published h.ends h.handles
      h.replayed hi hserved

/-! ## A sample cycle -/

/-- A feature of the service, as the broker delivers it too. -/
def sampleFeature (x time : String) : Json := .obj [("id", .str x), ("time", .str time)]

/-- A first page that links to a second one, which repeats its message. -/
def firstPage : Json := .obj [("numberMatched", .int 2),
  ("features", .arr [sampleFeature "a" "2024-01-01T00:01:00Z"]),
  ("links", .arr [.obj [("rel", .str "next"), ("href", .str "?p=2")]])]

def secondPage : Json := .obj
  [("features", .arr [sampleFeature "b" "2024-01-01T00:00:00Z", sampleFeature "a" "2024-01-01T00:01:00Z"])]

/-- The sample tables with the payloads and the pages of two messages. -/
def cycleTables : Tables :=
  { sampleTables with
    jsons := [("a", .ok (sampleFeature "a" "2024-01-01T00:01:00Z")),
      ("b", .ok (sampleFeature "b" "2024-01-01T00:00:00Z")), ("p", .ok firstPage), ("q", .ok secondPage)]
    joins := [(("https://x/collections/wis2-notification-messages/items?datetime=/&topic=cache/a/wis2",
      "?p=2"), "https://x/2")] }

/-- A cycle of one cell over two messages. -/
def cycleCtx : Ctx := ⟨cycleTables.lib, oneTopicConfig, 0, newYear + 600⟩

def cycleCell : Cell := ⟨"cache/a/wis2/#", "ca-eccc", "https://x"⟩

def twoMessages : Catalogue where
  ids := {"a", "b"}
  time x := if x = "a" then newYear + 60 else newYear
  topic _ := "cache/a/wis2/us/x"

def cycleHistory : List StoreOp :=
  [.message (newYear + 9) "b" "2024-01-01T00:00:00Z" "cache/a/wis2/us/x",
    .message (newYear + 70) "b" "2024-01-01T00:00:00Z" "cache/a/wis2/us/x", .clearReplay ["ca-eccc"]]

def replayOf (payload : String) : Event :=
  .deliver ⟨"replay/a/wis2/ca-eccc/sub/cache/a/wis2/us/x", payload⟩

def cycleRun : List Event :=
  [.deliver ⟨"cache/a/wis2/us/x", "a"⟩, .readBaselines, .clear, .register 0, .syncBegin 0,
    .syncReply 0 (.answer 200 "p"), .syncTurn 0, .syncReply 0 (.answer 200 "q"), .syncTurn 0, .post 0,
    .postReply 0 .fails, replayOf "b", replayOf "a", .tick 100, replayOf "a", .decide 0, .tick 185,
    .finish 0, .collect, .collect, .publish]

def cycleStart : World := afterHistory cycleCtx cycleHistory ReplayRegistry.new Metrics.new

theorem oneTopic_separate : oneTopicConfig.Separate where
  topics := by decide
  centres := by decide
  hash := by
    intro P hP
    obtain rfl := List.mem_singleton.1 hP
    exact ⟨"cache/a/wis2", rfl⟩
  plain := by decide
  hierarchy := by decide
  apart := by
    intro P hP Q hQ _
    rw [List.mem_singleton.1 hP, List.mem_singleton.1 hQ]
  centre_plain := by decide
  subscriber_plain := by decide

theorem describes_a : twoMessages.Describes cycleTables.lib (sampleFeature "a" "2024-01-01T00:01:00Z") "a" :=
  ⟨rfl, rfl, by decide, rfl, by decide, rfl, by decide +kernel⟩

theorem describes_b : twoMessages.Describes cycleTables.lib (sampleFeature "b" "2024-01-01T00:00:00Z") "b" :=
  ⟨rfl, rfl, by decide, rfl, by decide, rfl, by decide +kernel⟩

/-- The messages of the run. -/
theorem cycle_handles : Handles twoMessages cycleCtx cycleRun := by
  have hmem : ∀ msg, Event.deliver msg ∈ cycleRun → msg = ⟨"cache/a/wis2/us/x", "a"⟩ ∨
      msg = ⟨"replay/a/wis2/ca-eccc/sub/cache/a/wis2/us/x", "b"⟩ ∨
      msg = ⟨"replay/a/wis2/ca-eccc/sub/cache/a/wis2/us/x", "a"⟩ := by
    intro msg h
    simpa [cycleRun, replayOf, or_assoc] using h
  refine ⟨fun msg h => ?_, fun msg h => ?_⟩
  · rcases hmem msg h with rfl | rfl | rfl
    · exact Or.inl ⟨"a", ⟨_, rfl, describes_a⟩, rfl, by decide⟩
    · exact Or.inr ⟨"ca-eccc", by decide, "b", ⟨_, rfl, describes_b⟩, by decide⟩
    · exact Or.inr ⟨"ca-eccc", by decide, "a", ⟨_, rfl, describes_a⟩, by decide⟩
  · rcases hmem msg h with rfl | rfl | rfl
    · decide
    · decide
    · decide

theorem cycle_live : DeliveredLive twoMessages cycleCtx cycleHistory ReplayRegistry.new Metrics.new
    cycleRun 1 where
  reads := ⟨rfl, by decide +kernel⟩
  past_clocked := by decide +kernel
  past_now := by decide +kernel
  past_known := by decide +kernel
  ahead := by decide +kernel
  all := by decide +kernel
  soon := by decide +kernel

theorem cycle_served : ServedAll twoMessages cycleCtx cycleStart cycleRun 0 cycleCell
    [firstPage, secondPage] 2 := by
  have hreply : ∀ n x, cycleRun[n]? = some (.syncReply 0 x) →
      x = .answer 200 "p" ∧ n = 5 ∨ x = .answer 200 "q" ∧ n = 7 := by
    intro n x h
    have hmem : (Event.syncReply 0 x, n) ∈ cycleRun.zipIdx := List.mem_zipIdx_iff_getElem?.2 h
    simpa [cycleRun, replayOf] using hmem
  have hturn : ∀ n, cycleRun[n]? = some (.syncTurn 0) → n = 6 ∨ n = 8 := by
    intro n h
    have hmem : (Event.syncTurn 0, n) ∈ cycleRun.zipIdx := List.mem_zipIdx_iff_getElem?.2 h
    simpa [cycleRun, replayOf] using hmem
  refine ⟨⟨⟨"?p=2", "https://x/2", rfl, by decide +kernel, rfl⟩, by decide, ?_, ?_, ?_, ?_⟩, ?_, ?_, ?_⟩
  · intro page hpage
    rcases List.mem_cons.1 hpage with rfl | hpage
    · unfold PageEncodes
      decide +kernel
    · obtain rfl := List.mem_singleton.1 hpage
      unfold PageEncodes
      decide +kernel
  · intro page h
    obtain rfl := Option.some.inj h
    rfl
  · intro n x k h hk
    rcases hreply n x h with ⟨rfl, rfl⟩ | ⟨rfl, rfl⟩
    · have h0 : ((worldAt cycleCtx cycleStart cycleRun 5).sync 0).awaits = some 0 := by decide +kernel
      rw [h0] at hk
      obtain rfl := Option.some.inj hk
      exact ⟨_, rfl, 200, "p", rfl, rfl⟩
    · have h1 : ((worldAt cycleCtx cycleStart cycleRun 7).sync 0).awaits = some 1 := by decide +kernel
      rw [h1] at hk
      obtain rfl := Option.some.inj hk
      exact ⟨_, rfl, 200, "q", rfl, rfl⟩
  · intro n p page h _
    rcases hturn n h with rfl | rfl
    · decide +kernel
    · decide +kernel
  · intro page hpage feature hf
    have hsel : querySelects cycleCell.topic "cache/a/wis2/us/x" := by decide
    rcases List.mem_cons.1 hpage with rfl | hpage
    · obtain rfl := List.mem_singleton.1 hf
      exact ⟨"a", describes_a, hsel⟩
    · obtain rfl := List.mem_singleton.1 hpage
      rcases List.mem_cons.1 hf with rfl | hf
      · exact ⟨"b", describes_b, hsel⟩
      · obtain rfl := List.mem_singleton.1 hf
        exact ⟨"a", describes_a, hsel⟩
  · intro x hx _ _ _
    rcases Finset.mem_insert.1 hx with rfl | hx
    · exact ⟨firstPage, List.mem_cons_self, _, List.mem_singleton_self _, describes_a⟩
    · obtain rfl := Finset.mem_singleton.1 hx
      exact ⟨secondPage, List.mem_cons_of_mem _ (List.mem_singleton_self _), _, List.mem_cons_self,
        describes_b⟩
  · intro _
    decide

theorem cycle_replayed : ReplayedAll twoMessages cycleCtx cycleStart cycleRun 0 cycleCell := by
  have hreg : RegistersAt cycleCtx cycleStart cycleRun 3 0 cycleCell := ⟨rfl, ⟨rfl, rfl⟩, rfl⟩
  refine ⟨fun x hx => ?_, fun n x h s t hx => ?_⟩
  · rcases Finset.mem_insert.1 (Catalogue.mem_due.1 hx).1 with rfl | hx
    · exact ⟨3, 14, _, hreg, by decide, rfl, by decide +kernel, ⟨_, rfl, describes_a⟩, by decide⟩
    · obtain rfl := Finset.mem_singleton.1 hx
      exact ⟨3, 11, _, hreg, by decide, rfl, by decide +kernel, ⟨_, rfl, describes_b⟩, by decide⟩
  · have hmem : (Event.postReply 0 x, n) ∈ cycleRun.zipIdx := List.mem_zipIdx_iff_getElem?.2 h
    have hfail : x = .fails ∧ n = 10 := by simpa [cycleRun, replayOf] using hmem
    rw [hfail.1] at hx
    cases hx

theorem cell_of_oneTopic {i : ℕ} {cell : Cell} (hi : oneTopicConfig.cells[i]? = some cell) :
    i = 0 ∧ cell = cycleCell := by
  obtain ⟨hlt, -⟩ := List.getElem?_eq_some_iff.1 hi
  have hlt : i < 1 := hlt
  obtain rfl : i = 0 := by omega
  exact ⟨rfl, (Option.some.inj hi).symm⟩

/-- Both messages are counted, once, by all three. -/
theorem three_counts_sample :
    receivedIn cycleCtx cycleStart cycleRun cycleCell.topic = 2 ∧
      fetchedIn cycleCtx cycleStart cycleRun cycleCell .http = 2 ∧
      fetchedIn cycleCtx cycleStart cycleRun cycleCell .mqtt = 2 := by
  have hcfg : Config.fromEnv cycleCtx.L "sub" (sampleEnv "cache/a/wis2/#" "ca-eccc" "https://x") =
      .ok cycleCtx.cfg := by decide +kernel
  have hfull : FullCycle twoMessages cycleCtx cycleHistory ReplayRegistry.new Metrics.new cycleRun := by
    refine ⟨by decide +kernel, by decide +kernel, fun ch hch => (by cases hch), cycle_handles,
      ⟨1, cycle_live⟩, fun i cell hi => ?_, fun i cell hi => ?_⟩
    · obtain ⟨rfl, rfl⟩ := cell_of_oneTopic hi
      exact ⟨_, _, cycle_served⟩
    · obtain ⟨rfl, rfl⟩ := cell_of_oneTopic hi
      exact cycle_replayed
  have hcell : cycleCtx.cfg.cells[0]? = some cycleCell := rfl
  have hdue : (twoMessages.due cycleCtx cycleCell.topic).card = 2 := by decide +kernel
  have h := three_counts_agree hcfg oneTopic_separate (fun _ _ => rfl) hfull (i := 0) hcell
  rw [hdue] at h
  exact h

end Scgrep
