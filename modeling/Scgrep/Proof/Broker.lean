import Std.Data.String.ToNat
import Scgrep.Proof.Manager
import Scgrep.Spec.Broker
import Scgrep.Spec.Tables

/-!
# The series of a broker tell of that broker

The status, the message age and the subscriptions of all brokers are kept in
shared dictionaries, written by the main thread and by a network thread for each
client. `broker_series`: in every run they are what one record for each broker
would hold, which follows the callbacks of its own client only. The clients are
told apart by their URL labels (`userData_inj`).
-/

namespace Scgrep

open MqttManager

variable {cfg : Config}

/-! ## The labels -/

/-- What stands before and after the last `c`. -/
theorem append_cons_inj {α : Type*} {c : α} {l l' d d' : List α} (hd : c ∉ d) (hd' : c ∉ d')
    (h : l ++ c :: d = l' ++ c :: d') : l = l' ∧ d = d' := by
  induction l generalizing l' with
  | nil =>
    cases l' with
    | nil => exact ⟨rfl, (List.cons.inj h).2⟩
    | cons a l' =>
      -- the rest would hold a second one
      have hrest := (List.cons.inj h).2
      exact absurd (hrest ▸ List.mem_append_right l' List.mem_cons_self) hd
  | cons a l ih =>
    cases l' with
    | nil =>
      have hrest := (List.cons.inj h).2
      exact absurd (hrest ▸ List.mem_append_right l List.mem_cons_self) hd'
    | cons a' l' =>
      obtain ⟨rfl, hrest⟩ := List.cons.inj h
      obtain ⟨rfl, hdd⟩ := ih hrest
      exact ⟨rfl, hdd⟩

theorem colon_not_mem_port (port : ℕ) : ':' ∉ (toString port).toList := by
  intro h
  rw [show toString port = port.repr from rfl, Nat.toList_repr] at h
  exact absurd (Nat.isDigit_of_mem_toDigits (by decide) (by decide) h) (by decide)

/-- **A URL label names one address.** -/
theorem brokerUrl_address {b b' : BrokerConfig} (h : brokerUrl b = brokerUrl b') :
    b.address = b'.address := by
  have hchars := congrArg String.toList h
  unfold brokerUrl at hchars
  simp only [String.toList_append] at hchars
  rw [List.append_assoc _ ":".toList, List.append_assoc _ ":".toList] at hchars
  -- the port is what follows the last colon
  obtain ⟨hbefore, hport⟩ := append_cons_inj (colon_not_mem_port b.port) (colon_not_mem_port b'.port) hchars
  have hp : b.port = b'.port := Nat.repr_injective (String.toList_inj.1 hport)
  have hh : b.host = b'.host := by
    cases ht : b.tls <;> cases ht' : b'.tls <;> rw [ht, ht'] at hbefore
    · exact String.toList_inj.1 (List.append_cancel_left hbefore)
    · exact absurd hbefore (by simp)
    · exact absurd hbefore (by simp)
    · exact String.toList_inj.1 (List.append_cancel_left hbefore)
  unfold BrokerConfig.address
  rw [hh, hp]

/-- **The clients have labels of their own.** -/
theorem userData_inj {j k : ℕ} {c c' : Client} (hj : (start cfg)[j]? = some c)
    (hk : (start cfg)[k]? = some c') (h : c.userData = c'.userData) : j = k := by
  have hurl : ∀ {c : Client}, c ∈ start cfg → ∃ b : BrokerConfig, c.userData = brokerUrl b ∧
      c.address = b.address := by
    intro c hc
    obtain ⟨plan, -, hclient⟩ := mem_start hc
    exact ⟨plan.broker, congrArg Client.userData hclient, by rw [hclient]; rfl⟩
  obtain ⟨b, hb, haddr⟩ := hurl (List.mem_of_getElem? hj)
  obtain ⟨b', hb', haddr'⟩ := hurl (List.mem_of_getElem? hk)
  have hsame : c.address = c'.address := by
    rw [haddr, haddr']
    exact brokerUrl_address (hb ▸ hb' ▸ h)
  obtain ⟨hj', rfl⟩ := List.getElem?_eq_some_iff.1 hj
  obtain ⟨hk', rfl⟩ := List.getElem?_eq_some_iff.1 hk
  have hlen : ((start cfg).map Client.address).length = (start cfg).length := List.length_map ..
  have hj'' : j < ((start cfg).map Client.address).length := hlen ▸ hj'
  have hk'' : k < ((start cfg).map Client.address).length := hlen ▸ hk'
  have hget : ((start cfg).map Client.address)[j] = ((start cfg).map Client.address)[k] := by
    rw [List.getElem_map, List.getElem_map]
    exact hsame
  exact (List.Nodup.getElem_inj_iff (address_nodup cfg)).1 hget

/-! ## One record for each broker -/

/-- The dictionaries show what the record of client `k` says. -/
structure Shows (cfg : Config) (k : ℕ) (client : Client) (w : BrokerWorld) (r : BrokerRecord) : Prop where
  now : r.now = w.now
  begun : r.begun = w.begun
  running : r.running = w.running k
  subscribed : w.subscribed k = List.replicate r.subscribes (client.subscriptions.map fun t => (t, 1))
  lastAt : r.lastAt ≤ r.now
  fresh : w.begun ≤ k → r.connected = false
  /-- before the client is begun there is nothing of it -/
  unknown : w.begun ≤ k → w.running k = false ∧ w.lastMessageAt.get? client.userData = none
  known : k < w.begun → w.status.get? client.userData = some (flag r.connected) ∧
    w.aged.get? client.userData = some () ∧ w.lastMessageAt.get? client.userData = some r.lastAt

theorem shows_init {k : ℕ} {client : Client} (now : ℚ) :
    Shows cfg k client (BrokerWorld.init now) (BrokerRecord.init now) where
  now := rfl
  begun := rfl
  running := rfl
  subscribed := rfl
  lastAt := le_rfl
  fresh _ := rfl
  unknown _ := ⟨rfl, rfl⟩
  known h := absurd h (Nat.not_lt_zero k)

theorem contains_eq_false {d : Dict String ℚ} {url : String} (h : d.get? url = none) :
    d.contains url = false := by
  unfold Dict.contains
  rw [h]; rfl

/-- Another client's entry of a dictionary. -/
theorem get?_set_other {ν : Type} {j k : ℕ} {c client : Client} (hj : (start cfg)[j]? = some c)
    (hk : (start cfg)[k]? = some client) (hne : j ≠ k) (d : Dict String ν) (v : ν) :
    (d.set c.userData v).get? client.userData = d.get? client.userData :=
  Dict.get?_set_ne _ (fun h => hne (userData_inj hj hk h.symm)) v

/-- `start` begins a client. -/
theorem shows_begin {k : ℕ} {client : Client} (hk : (start cfg)[k]? = some client) {w : BrokerWorld}
    {r : BrokerRecord} (h : Shows cfg k client w r) (raises : Bool) :
    Shows cfg k client (w.begin cfg raises) (r.step (start cfg).length k (.begin raises)) := by
  simp only [BrokerWorld.begin, BrokerRecord.step]
  cases hc : (start cfg)[w.begun]? with
  | none =>
    rw [if_pos (h.begun ▸ List.getElem?_eq_none_iff.1 hc)]
    exact h
  | some c =>
    have hlt : w.begun < (start cfg).length := (List.getElem?_eq_some_iff.1 hc).1
    rw [if_neg (by rw [h.begun]; omega)]
    dsimp only
    by_cases hown : w.begun = k
    · -- it is this one
      subst hown
      obtain rfl : c = client := Option.some.inj (hc.symm.trans hk)
      obtain ⟨-, hlast⟩ := h.unknown le_rfl
      rw [if_pos h.begun]
      have hconnected : r.connected = false := h.fresh le_rfl
      refine ⟨h.now, by dsimp only; rw [h.begun], by dsimp only; rw [Function.update_self],
        h.subscribed, le_rfl, fun _ => hconnected, ?_, ?_⟩
      · intro hle; simp only at hle; omega
      · intro _
        simp only [BrokerWorld.trackMessageAge, BrokerWorld.setBrokerStatus, contains_eq_false hlast]
        exact ⟨by rw [Dict.get?_set_self, hconnected], Dict.get?_set_self .., by
          rw [h.now]; exact Dict.get?_set_self ..⟩
    · rw [if_neg (by rw [h.begun]; exact hown)]
      have hlast : (if w.lastMessageAt.contains c.userData then w.lastMessageAt
          else w.lastMessageAt.set c.userData w.now).get? client.userData =
            w.lastMessageAt.get? client.userData := by
        split
        · rfl
        · exact get?_set_other hc hk hown _ _
      have hrun : Function.update w.running w.begun (!raises) k = w.running k :=
        Function.update_of_ne (Ne.symm hown) ..
      refine ⟨h.now, by dsimp only; rw [h.begun], h.running.trans hrun.symm, h.subscribed, h.lastAt, ?_, ?_, ?_⟩
      · intro hle; exact h.fresh (by simp only at hle; omega)
      · intro hle
        obtain ⟨h1, h2⟩ := h.unknown (by simp only at hle; omega)
        exact ⟨hrun.trans h1, hlast.trans h2⟩
      · intro hlt'
        obtain ⟨h1, h2, h3⟩ := h.known (by simp only at hlt'; omega)
        exact ⟨(get?_set_other hc hk hown _ _).trans h1, (get?_set_other hc hk hown _ _).trans h2,
          hlast.trans h3⟩

/-- A callback of another client, which writes its own entries only. -/
theorem Shows.of_other {k : ℕ} {client : Client} {w w' : BrokerWorld} {r : BrokerRecord}
    (h : Shows cfg k client w r) (hnow : w'.now = w.now) (hbegun : w'.begun = w.begun)
    (hrunning : w'.running = w.running) (hsub : w'.subscribed k = w.subscribed k)
    (hstatus : w'.status.get? client.userData = w.status.get? client.userData)
    (haged : w'.aged = w.aged)
    (hlast : w'.lastMessageAt.get? client.userData = w.lastMessageAt.get? client.userData) :
    Shows cfg k client w' r where
  now := h.now.trans hnow.symm
  begun := h.begun.trans hbegun.symm
  running := by rw [hrunning]; exact h.running
  subscribed := hsub.trans h.subscribed
  lastAt := h.lastAt
  fresh hle := h.fresh (hbegun ▸ hle)
  unknown hle := by
    rw [hrunning, hlast]
    exact h.unknown (hbegun ▸ hle)
  known hlt := by
    rw [hstatus, haged, hlast]
    exact h.known (hbegun ▸ hlt)

/-- A client whose thread runs is begun. -/
theorem Shows.begun_of_running {k : ℕ} {client : Client} {w : BrokerWorld} {r : BrokerRecord}
    (h : Shows cfg k client w r) (hrun : w.running k = true) : k < w.begun := by
  by_contra hle
  rw [(h.unknown (not_lt.1 hle)).1] at hrun
  cases hrun

/-- A callback of the client sets its status. -/
theorem Shows.setStatus {k : ℕ} {client : Client} {w : BrokerWorld} {r : BrokerRecord}
    (h : Shows cfg k client w r) (hrun : w.running k = true) (connected : Bool) :
    Shows cfg k client (w.setBrokerStatus client.userData connected) { r with connected } where
  now := h.now
  begun := h.begun
  running := h.running
  subscribed := h.subscribed
  lastAt := h.lastAt
  fresh hle := absurd (h.begun_of_running hrun) (not_lt.2 hle)
  unknown hle := absurd (h.begun_of_running hrun) (not_lt.2 hle)
  known hlt := ⟨Dict.get?_set_self .., (h.known hlt).2⟩

theorem onClient_eq {j : ℕ} {c : Client} (hj : (start cfg)[j]? = some c)
    (f : Client → BrokerWorld → BrokerWorld) (w : BrokerWorld) :
    w.onClient cfg j f = if w.running j then f c w else w := by
  unfold BrokerWorld.onClient
  rw [hj]

/-- A callback leaves the world alone, or is one of a client whose thread runs. -/
theorem onClient_cases (j : ℕ) (f : Client → BrokerWorld → BrokerWorld) (w : BrokerWorld) :
    w.onClient cfg j f = w ∨ ∃ c, (start cfg)[j]? = some c ∧ w.onClient cfg j f = f c w := by
  cases hj : (start cfg)[j]? with
  | none => exact Or.inl (by unfold BrokerWorld.onClient; rw [hj])
  | some c =>
    rw [onClient_eq hj]
    split
    · exact Or.inr ⟨c, rfl, rfl⟩
    · exact Or.inl rfl

/-- The callbacks of the other clients. -/
theorem shows_other {j k : ℕ} {client : Client} (hk : (start cfg)[k]? = some client) (hne : j ≠ k)
    {w : BrokerWorld} {r : BrokerRecord} (h : Shows cfg k client w r)
    {f : Client → BrokerWorld → BrokerWorld}
    (hf : f = BrokerWorld.onDisconnect ∨ f = BrokerWorld.onMessage ∨
      ∃ reasonCode, f = BrokerWorld.onConnect j reasonCode) :
    Shows cfg k client (w.onClient cfg j f) r := by
  rcases @onClient_cases cfg j f w with heq | ⟨c, hc, heq⟩
  · rw [heq]; exact h
  rw [heq]
  rcases hf with rfl | rfl | ⟨reasonCode, rfl⟩
  · exact h.of_other rfl rfl rfl rfl (get?_set_other hc hk hne _ _) rfl rfl
  · exact h.of_other rfl rfl rfl rfl rfl rfl (get?_set_other hc hk hne _ _)
  · unfold BrokerWorld.onConnect
    split
    · exact h.of_other rfl rfl rfl rfl (get?_set_other hc hk hne _ _) rfl rfl
    · exact h.of_other rfl rfl rfl (Function.update_of_ne (Ne.symm hne) ..)
        (get?_set_other hc hk hne _ _) rfl rfl

/-- **A step** of the whole is a step of each record. -/
theorem shows_step {k : ℕ} {client : Client} (hk : (start cfg)[k]? = some client) {w : BrokerWorld}
    {r : BrokerRecord} (h : Shows cfg k client w r) (e : BrokerEvent) :
    Shows cfg k client (w.step cfg e) (r.step (start cfg).length k e) := by
  cases e with
  | tick d =>
    simp only [BrokerWorld.step, BrokerRecord.step]
    split
    · rename_i hd
      exact ⟨by dsimp only; rw [h.now], h.begun, h.running, h.subscribed,
        h.lastAt.trans (le_add_of_nonneg_right hd), h.fresh, h.unknown, h.known⟩
    · exact h
  | «begin» raises => exact shows_begin hk h raises
  | connect j reasonCode =>
    simp only [BrokerWorld.step, BrokerRecord.step]
    by_cases hj : j = k
    · subst hj
      rw [onClient_eq hk]
      by_cases hrun : w.running j = true
      · rw [if_pos hrun, if_pos ⟨rfl, h.running.trans hrun⟩]
        unfold BrokerWorld.onConnect
        by_cases hcode : reasonCode = 0
        · rw [if_neg (not_not.2 hcode), if_pos hcode]
          have hset := h.setStatus hrun true
          refine ⟨h.now, h.begun, h.running, ?_, h.lastAt, hset.fresh, hset.unknown, hset.known⟩
          simp only [Function.update_self, List.replicate_succ', h.subscribed]
        · rw [if_pos hcode, if_neg hcode]
          exact h.setStatus hrun false
      · rw [if_neg hrun, if_neg (fun hand => hrun (h.running.symm.trans hand.2))]
        exact h
    · rw [if_neg (fun hand => hj hand.1)]
      exact shows_other hk hj h (Or.inr (Or.inr ⟨reasonCode, rfl⟩))
  | disconnect j =>
    simp only [BrokerWorld.step, BrokerRecord.step]
    by_cases hj : j = k
    · subst hj
      rw [onClient_eq hk]
      by_cases hrun : w.running j = true
      · rw [if_pos hrun, if_pos ⟨rfl, h.running.trans hrun⟩]
        exact h.setStatus hrun false
      · rw [if_neg hrun, if_neg (fun hand => hrun (h.running.symm.trans hand.2))]
        exact h
    · rw [if_neg (fun hand => hj hand.1)]
      exact shows_other hk hj h (Or.inl rfl)
  | message j =>
    simp only [BrokerWorld.step, BrokerRecord.step]
    by_cases hj : j = k
    · subst hj
      rw [onClient_eq hk]
      by_cases hrun : w.running j = true
      · rw [if_pos hrun, if_pos ⟨rfl, h.running.trans hrun⟩]
        have hbegun := h.begun_of_running hrun
        exact ⟨h.now, h.begun, h.running, h.subscribed, le_rfl, h.fresh,
          fun hle => absurd hbegun (not_lt.2 hle), fun hlt => ⟨(h.known hlt).1, (h.known hlt).2.1, by
            rw [h.now]; exact Dict.get?_set_self ..⟩⟩
      · rw [if_neg hrun, if_neg (fun hand => hrun (h.running.symm.trans hand.2))]
        exact h
    · rw [if_neg (fun hand => hj hand.1)]
      exact shows_other hk hj h (Or.inr (Or.inl rfl))

theorem shows_run {k : ℕ} {client : Client} (hk : (start cfg)[k]? = some client)
    (es : List BrokerEvent) : ∀ (w : BrokerWorld) (r : BrokerRecord), Shows cfg k client w r →
      Shows cfg k client (w.run cfg es) (r.run (start cfg).length k es) := by
  induction es with
  | nil => intro w r h; exact h
  | cons e es ih => intro w r h; exact ih _ _ (shows_step hk h e)

/-- **The series of a broker tell of that broker.** Once its client is begun, `broker_status`
says whether it is connected, `broker_last_message_age` how long ago the last message came from
it (or its client was begun), which is never negative, and it was subscribed to all its topics at
each successful connection, whatever the other brokers do. -/
theorem broker_series (cfg : Config) (now : ℚ) (es : List BrokerEvent) {k : ℕ} {client : Client}
    (hk : (start cfg)[k]? = some client) (hbegun : k < ((BrokerWorld.init now).run cfg es).begun) :
    let w := (BrokerWorld.init now).run cfg es
    let r := (BrokerRecord.init now).run (start cfg).length k es
    w.status.get? client.userData = some (flag r.connected) ∧
      w.messageAge client.userData = some (r.now - r.lastAt) ∧ 0 ≤ r.now - r.lastAt ∧
      w.subscribed k = List.replicate r.subscribes (client.subscriptions.map fun t => (t, 1)) := by
  have h := shows_run hk es _ _ (@shows_init cfg k client now)
  obtain ⟨hstatus, haged, hlast⟩ := h.known hbegun
  refine ⟨hstatus, ?_, sub_nonneg.2 h.lastAt, h.subscribed⟩
  unfold BrokerWorld.messageAge Dict.contains
  rw [haged, hlast, h.now]
  rfl

/-- The second of two brokers connects, falls silent and is lost, while the first is never reached. -/
theorem broker_series_sample :
    let w := (BrokerWorld.init 0).run shippedConfig
      [.begin false, .begin false, .connect 1 0, .tick 5, .message 1, .tick 90, .disconnect 1]
    w.messageAge "mqtts://wis2-grep.weather.gc.ca:8883" = some 90 := by
  have h := @broker_series shippedConfig 0
    [.begin false, .begin false, .connect 1 0, .tick 5, .message 1, .tick 90, .disconnect 1] 1
    ((start shippedConfig).get ⟨1, by decide⟩) rfl (by decide +kernel)
  exact h.2.1.trans (by decide +kernel)

end Scgrep
