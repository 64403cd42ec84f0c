import Scgrep.Proof.LiveRun

/-!
# What a paged fetch stores during a cycle

* `PageChain`, `Serves`: a service that answers the requests of a fetch with the pages
  of a chain, each in time.
* `SyncInv`: the fetch is on its chain, and its sync set holds the records of the pages
  it has processed. Every event keeps this (`syncInv_step`, `syncInv_run`).
* `sync_fetched`: **so what is published for it is the number of distinct ids on all
  pages** with a time in the window, however they are paged.
-/

namespace Scgrep

open Redis

/-! ## Chains of pages -/

/-- Pages that link to each other from a URL on, up to one without a link. -/
def PageChain (L : Lib) : String → List Json → Prop
  | _, [] => False
  | _, [page] => nextPageHref page = none
  | url, page :: next :: rest => ∃ href nextUrl, nextPageHref page = some href ∧
      L.urljoin url href = some nextUrl ∧ PageChain L nextUrl (next :: rest)

/-- The ids on a page that have a time, with these times. -/
def pageRecords (L : Lib) (page : Json) : List (String × ℚ) :=
  (pageFeatures page).filterMap fun feature =>
    (featureRecord L feature).bind fun m => (parseTimeToEpoch L m.2).map (m.1, ·)

variable {L : Lib}

/-- The page count of a fetch on a chain never runs out. -/
theorem syncTurn_chain {c : FetchCall} {now : ℚ} {p : PageLoop} {page : Json} {rest : List Json}
    (hc : PageChain L p.pageUrl (page :: rest)) (henc : PageEncodes L page) (hp : p.turns < maxPages)
    (ht : now < c.deadlineAt) :
    (rest = [] ∧ ∃ p', syncTurn L c now p page = .inl (finishPages p') ∧
        p'.numberMatched = p.numberMatched) ∨
      ∃ p' url, syncTurn L c now p page = .inr (p', url) ∧ PageChain L url rest ∧
        p'.turns = p.turns ∧ p'.numberMatched = p.numberMatched := by
  unfold syncTurn
  rw [if_neg (by omega), countFeatures_ok henc]
  cases rest with
  | nil =>
    have hno : nextPageHref page = none := hc
    refine Or.inl ⟨rfl, { p with messagesSeen := p.messagesSeen + (pageFeatures page).length }, ?_, rfl⟩
    simp only [hno]
  | cons next rest =>
    obtain ⟨href, url, hh, hu, hc⟩ := hc
    refine Or.inr ⟨{ p with messagesSeen := p.messagesSeen + (pageFeatures page).length }, url, ?_, hc,
      rfl, rfl⟩
    simp only [hh, hu]
    rw [if_neg (not_le.2 ht)]

/-! ## The sync set -/

/-- The records of a page, as its sync set sees them. -/
def pageDeliveries (E : Ctx) (cell : Cell) (t : ℚ) (page : Json) :
    List (Retention.Delivery String String ℚ) :=
  (pageRecords E.L page).map fun m => ⟨E.wall t, m.1, m.2, cell.topic, true⟩

variable {E : Ctx} {w₀ : World} {es : List Event}

/-- The features that are stored, as the sync set of the cell sees them. -/
theorem storeSync_fold_at (cell : Cell) (t : ℚ) (fs : List Json) : ∀ db : Db,
    ((fs.filterMap (featureRecord E.L)).foldl (fun db m => (storeSyncMessage E.L E.cfg.store (E.wall t)
      cell.centreId cell.topic m.1 m.2 db).2) db) (syncKey cell.centreId cell.topic) =
    ((fs.filterMap fun feature => (featureRecord E.L feature).bind fun m =>
        (parseTimeToEpoch E.L m.2).map (m.1, ·)).map fun m : String × ℚ =>
          (⟨E.wall t, m.1, m.2, cell.topic, true⟩ : Retention.Delivery String String ℚ)).foldl
      (Retention.touchStep (E.cfg.redisExpiry : ℚ)) (db (syncKey cell.centreId cell.topic)) := by
  induction fs with
  | nil => intro db; rfl
  | cons f fs ih =>
    intro db
    rw [List.filterMap_cons, List.filterMap_cons]
    cases hf : featureRecord E.L f with
    | none => exact ih db
    | some m =>
      rw [Option.bind_some]
      cases ht : parseTimeToEpoch E.L m.2 with
      | none =>
        -- a time that does not parse: `store_sync_message` discards the feature
        dsimp only [Option.map_none]
        rw [List.foldl_cons, storeSyncMessage_unparsed ht]
        exact ih db
      | some τ =>
        dsimp only [Option.map_some]
        rw [List.foldl_cons, ih, List.map_cons, List.foldl_cons, storeSyncMessage_at ht,
          decide_eq_true rfl]
        rfl

/-- **A page is scored in its sync set**, and renews it. -/
theorem processFeatures_at (cell : Cell) (t : ℚ) {page : Json} (henc : PageEncodes E.L page) (db : Db) :
    (processFeatures E.L E.cfg.store (E.wall t) cell.centreId cell.topic page db).2
        (syncKey cell.centreId cell.topic) =
      (pageDeliveries E cell t page).foldl (Retention.touchStep (E.cfg.redisExpiry : ℚ))
        (db (syncKey cell.centreId cell.topic)) := by
  unfold processFeatures
  rw [storedFeatures_eq henc]
  exact storeSync_fold_at cell t (pageFeatures page) db

/-- A message leaves the sync sets alone. -/
theorem deliver_frame {k : String} (hk : keyFamily k = some 's') (w : World) (msg : MqttMessage) :
    (w.deliver E msg).db k = w.db k := by
  rw [deliver_db]
  unfold messageOp
  split
  · split
    · rfl
    split
    · cases replayParts msg.topic with
      | none => rfl
      | some parts =>
        exact storeReplayMessage_frame (by rw [hk]; decide) _ _ _ _ _ _
    · exact storeMessage_frame (by rw [hk]; decide) (by rw [hk]; decide) _ _ _ _ _
  · rfl

/-! ## The state of a fetch on its chain -/

/-- The number of the page that a fetch waits for. -/
def SyncState.awaits : SyncState → Option ℕ
  | .requested _ => some 0
  | .waiting p _ => some (p.turns + 1)
  | _ => none

/-- The pages that a fetch has processed. -/
def SyncState.processed (pages : List Json) : SyncState → List Json
  | .ready => []
  | .requested _ => []
  | .page p _ => pages.take p.turns
  | .waiting p _ => pages.take (p.turns + 1)
  | .finished _ => pages

/-- The fetch follows the chain of pages, whose first one gives the number `N`. -/
def SyncState.OnChain (L : Lib) (pages : List Json) (N : ℤ) : SyncState → Prop
  | .ready => True
  | .requested _ => True
  | .page p q => p.numberMatched = N ∧
      ∃ rest, pages.drop p.turns = q :: rest ∧ PageChain L p.pageUrl (q :: rest)
  | .waiting p nextUrl => p.numberMatched = N ∧ PageChain L nextUrl (pages.drop (p.turns + 1))
  | .finished out => ∃ r, out = .ok r ∧ r.protocol = .http ∧ r.aborted = false ∧
      r.invalidFormat = false ∧ r.messagesFetched = N

/-- The service of cell `i` answers each request with the page of the chain that is due, and
every page is processed before the deadline. -/
structure Serves (E : Ctx) (w₀ : World) (es : List Event) (i : ℕ) (cell : Cell) (pages : List Json)
    (N : ℤ) : Prop where
  chain : PageChain E.L (E.call cell).firstUrl pages
  size : pages.length ≤ maxPages
  /-- the commands that store them succeed -/
  encodes : ∀ page ∈ pages, PageEncodes E.L page
  number : ∀ page, pages.head? = some page → pyInt E.L (page.get "numberMatched") = .ok N
  replies : ∀ n x k, es[n]? = some (.syncReply i x) → ((worldAt E w₀ es n).sync i).awaits = some k →
    ∃ page, pages[k]? = some page ∧ x.Gives E.L page
  inTime : ∀ n p page, es[n]? = some (.syncTurn i) → (worldAt E w₀ es n).sync i = .page p page →
    (worldAt E w₀ es n).now < E.deadlineAt

/-- The fetch is on its chain, and its set holds the records of the pages it has processed. -/
structure SyncInv (E : Ctx) (i : ℕ) (cell : Cell) (pages : List Json) (N : ℤ) (w : World) : Prop where
  chain : (w.sync i).OnChain E.L pages N
  stored : ∃ ds : List (Retention.Delivery String String ℚ),
    w.db (syncKey cell.centreId cell.topic) = Retention.touched (E.cfg.redisExpiry : ℚ) ds ∧
      ds.map (fun d => (d.id, d.score)) = ((w.sync i).processed pages).flatMap (pageRecords E.L) ∧
      ∀ d ∈ ds, d.hit = true ∧ E.wall E.started ≤ d.now ∧ d.now ≤ E.wall w.now

/-- The page in hand is the next one of the chain. -/
theorem page_of_drop {pages rest : List Json} {k : ℕ} {q : Json} (h : pages.drop k = q :: rest) :
    k < pages.length ∧ pages[k]? = some q ∧ pages.drop (k + 1) = rest := by
  have hlt : k < pages.length := by
    by_contra hle
    rw [List.drop_of_length_le (not_lt.1 hle)] at h
    cases h
  rw [List.drop_eq_getElem_cons hlt] at h
  obtain ⟨rfl, rfl⟩ := List.cons.inj h
  exact ⟨hlt, List.getElem?_eq_getElem hlt, rfl⟩

/-- The invariant of an event that leaves the fetch and its set alone. -/
theorem SyncInv.same {i : ℕ} {cell : Cell} {pages : List Json} {N : ℤ} {w w' : World}
    (h : SyncInv E i cell pages N w) (hs : w'.sync i = w.sync i)
    (hdb : w'.db (syncKey cell.centreId cell.topic) = w.db (syncKey cell.centreId cell.topic))
    (hnow : w.now ≤ w'.now) : SyncInv E i cell pages N w' := by
  obtain ⟨hc, ds, hset, hrec, hds⟩ := h
  refine ⟨by rw [hs]; exact hc, ds, by rw [hdb, hset], by rw [hs, hrec], fun d hd => ?_⟩
  obtain ⟨h1, h2, h3⟩ := hds d hd
  have hw : E.wall w.now ≤ E.wall w'.now := by unfold Ctx.wall; linarith
  exact ⟨h1, h2, h3.trans hw⟩

/-- The invariant of a fetch that moves on without touching its set. -/
theorem SyncInv.move {i : ℕ} {cell : Cell} {pages : List Json} {N : ℤ} {w : World}
    (h : SyncInv E i cell pages N w) {s : SyncState} (hc : s.OnChain E.L pages N)
    (hp : s.processed pages = (w.sync i).processed pages) :
    SyncInv E i cell pages N (w.setSync i s) := by
  obtain ⟨-, ds, hset, hrec, hds⟩ := h
  have hs : (w.setSync i s).sync i = s := by rw [setSync_sync, if_pos rfl]
  exact ⟨by rw [hs]; exact hc, ds, hset, by rw [hs, hp, hrec], hds⟩

theorem turned_finished {L : Lib} {pages : List Json} {N : ℤ} {p : PageLoop} (hp : p.numberMatched = N) :
    (SyncState.finished (finishPages p)).OnChain L pages N := by
  refine ⟨_, rfl, rfl, rfl, rfl, ?_⟩
  exact hp

/-- The deliveries of the records of a page carry its records. -/
theorem pageDeliveries_records (cell : Cell) (now : ℚ) (q : Json) :
    (pageDeliveries E cell now q).map (fun d => (d.id, d.score)) = pageRecords E.L q := by
  unfold pageDeliveries
  rw [List.map_map]
  exact List.map_id _

/-- A processed page puts its records into the sync set. -/
theorem stored_turn {cell : Cell} {pages : List Json} {w : World} (hnow : E.started ≤ w.now)
    {p : PageLoop} {q : Json} (henc : PageEncodes E.L q) (hturns : p.turns < maxPages)
    (hget : pages[p.turns]? = some q)
    {ds : List (Retention.Delivery String String ℚ)}
    (hset : w.db (syncKey cell.centreId cell.topic) = Retention.touched (E.cfg.redisExpiry : ℚ) ds)
    (hrec : ds.map (fun d => (d.id, d.score)) = (pages.take p.turns).flatMap (pageRecords E.L))
    (hds : ∀ d ∈ ds, d.hit = true ∧ E.wall E.started ≤ d.now ∧ d.now ≤ E.wall w.now) :
    ∃ ds : List (Retention.Delivery String String ℚ),
      turnDb E cell w p q (syncKey cell.centreId cell.topic) =
        Retention.touched (E.cfg.redisExpiry : ℚ) ds ∧
      ds.map (fun d => (d.id, d.score)) = (pages.take (p.turns + 1)).flatMap (pageRecords E.L) ∧
      ∀ d ∈ ds, d.hit = true ∧ E.wall E.started ≤ d.now ∧ d.now ≤ E.wall w.now := by
  have hwall : E.wall E.started ≤ E.wall w.now := by unfold Ctx.wall; linarith
  refine ⟨ds ++ pageDeliveries E cell w.now q, ?_, ?_, fun d hd => ?_⟩
  · unfold turnDb
    rw [if_neg (by omega), processFeatures_at cell w.now henc, hset]
    unfold Retention.touched
    rw [List.foldl_append]
  · have hq : pages.take (p.turns + 1) = pages.take p.turns ++ [q] := by
      rw [List.take_add_one, hget]
      rfl
    rw [List.map_append, hrec, pageDeliveries_records, hq, List.flatMap_append,
      List.flatMap_singleton]
  · rcases List.mem_append.1 hd with hd | hd
    · exact hds d hd
    · obtain ⟨m, -, rfl⟩ := List.mem_map.1 hd
      exact ⟨rfl, hwall, le_rfl⟩

/-- **A turn of the page loop** stores its page and goes on along the chain. -/
theorem SyncInv.turn {i : ℕ} {cell : Cell} {pages : List Json} {N : ℤ} {w : World}
    (h : SyncInv E i cell pages N w) (hsize : pages.length ≤ maxPages)
    (henc : ∀ page ∈ pages, PageEncodes E.L page) (hnow : E.started ≤ w.now)
    {p : PageLoop} {q : Json} (hs : w.sync i = .page p q) (ht : w.now < E.deadlineAt) :
    SyncInv E i cell pages N (({ w with db := turnDb E cell w p q }).setSync i
      (.turned (Scgrep.syncTurn E.L (E.call cell) w.now p q))) := by
  obtain ⟨hc, ds, hset, hrec, hds⟩ := h
  rw [hs] at hc hrec
  obtain ⟨hN, rest, hdrop, hc⟩ := hc
  obtain ⟨hlt, hget, hrest⟩ := page_of_drop hdrop
  have hturns : p.turns < maxPages := by omega
  have hq := henc q (List.mem_of_getElem? hget)
  have hstored := stored_turn hnow hq hturns hget hset hrec hds
  rcases syncTurn_chain (c := E.call cell) hc hq hturns ht with ⟨rfl, p', hout, hN'⟩ | ⟨p', url, hout, hc', hk, hN'⟩
  · -- the last page
    have hall : pages.take (p.turns + 1) = pages := by
      rw [List.take_of_length_le]
      exact List.drop_eq_nil_iff.1 hrest
    rw [hall] at hstored
    rw [hout]
    refine ⟨?_, ?_⟩
    · rw [setSync_sync, if_pos rfl]
      exact turned_finished (hN'.trans hN)
    · rw [setSync_sync, if_pos rfl]
      exact hstored
  · rw [hout]
    refine ⟨?_, ?_⟩
    · rw [setSync_sync, if_pos rfl]
      refine ⟨hN'.trans hN, ?_⟩
      rw [hk, hrest]
      exact hc'
    · rw [setSync_sync, if_pos rfl]
      show ∃ ds, _ ∧ _ = (pages.take (p'.turns + 1)).flatMap (pageRecords E.L) ∧ _
      rw [hk]
      exact hstored

/-- A page that is there begins the rest of the chain. -/
theorem drop_of_page {pages : List Json} {k : ℕ} {q : Json} (h : pages[k]? = some q) :
    ∃ rest, pages.drop k = q :: rest := by
  obtain ⟨hlt, rfl⟩ := List.getElem?_eq_some_iff.1 h
  exact ⟨_, List.drop_eq_getElem_cons hlt⟩

/-- **The response that is due** puts the next page in hand. -/
theorem SyncInv.reply {n i : ℕ} {cell : Cell} {pages : List Json} {N : ℤ} {x : Exchange} {k : ℕ}
    (hserve : Serves E w₀ es i cell pages N) (h : SyncInv E i cell pages N (worldAt E w₀ es n))
    (he : es[n]? = some (.syncReply i x)) (hk : ((worldAt E w₀ es n).sync i).awaits = some k)
    {out : Outcome ⊕ PageLoop × Json}
    (hfirst : ∀ start, (worldAt E w₀ es n).sync i = .requested start →
      out = Scgrep.syncFirst E.L (E.call cell) start (worldAt E w₀ es n).now x)
    (hnext : ∀ p url, (worldAt E w₀ es n).sync i = .waiting p url →
      out = Scgrep.syncNext E.L p url x) :
    SyncInv E i cell pages N ((worldAt E w₀ es n).setSync i (.reached out)) := by
  obtain ⟨q, hq, hg⟩ := hserve.replies n x k he hk
  obtain ⟨rest, hdrop⟩ := drop_of_page hq
  have hc := h.chain
  cases hs : (worldAt E w₀ es n).sync i with
  | requested start =>
    rw [hs] at hk
    obtain rfl : 0 = k := Option.some.inj hk
    have hhead : pages.head? = some q := by rw [List.head?_eq_getElem?]; exact hq
    obtain ⟨status, hout⟩ := syncFirst_page (c := E.call cell) (L := E.L) hg (hserve.number q hhead)
    rw [hfirst start hs, hout]
    refine h.move ⟨rfl, rest, hdrop, ?_⟩ ?_
    · rw [List.drop_zero] at hdrop
      rw [← hdrop]
      exact hserve.chain
    · rw [hs]
      exact (List.take_zero : pages.take 0 = [])
  | waiting p url =>
    rw [hs] at hk hc
    obtain rfl : p.turns + 1 = k := Option.some.inj hk
    obtain ⟨hN, hc⟩ := hc
    obtain ⟨status, hout⟩ := syncNext_page p url hg
    rw [hnext p url hs, hout]
    refine h.move ⟨hN, rest, hdrop, ?_⟩ ?_
    · rw [← hdrop]
      exact hc
    · rw [hs]
      rfl
  | ready => rw [hs] at hk; cases hk
  | page p q => rw [hs] at hk; cases hk
  | finished out => rw [hs] at hk; cases hk

/-- No other cell has the sync set of the cell. -/
def SoleSyncKey (E : Ctx) (i : ℕ) (cell : Cell) : Prop :=
  ∀ (j : ℕ) (cell' : Cell), E.cfg.cells[j]? = some cell' →
    syncKey cell'.centreId cell'.topic = syncKey cell.centreId cell.topic → j = i

/-- **Every event keeps the invariant**, once the sets are cleared. -/
theorem syncInv_step {n i : ℕ} {cell : Cell} {pages : List Json} {N : ℤ} {e : Event}
    (hserve : Serves E w₀ es i cell pages N) (hi : E.cfg.cells[i]? = some cell)
    (hkey : SoleSyncKey E i cell) (he : es[n]? = some e)
    (hnow : E.started ≤ (worldAt E w₀ es n).now) (hphase : 2 ≤ (worldAt E w₀ es n).main.phase)
    (h : SyncInv E i cell pages N (worldAt E w₀ es n)) :
    SyncInv E i cell pages N (worldAt E w₀ es (n + 1)) := by
  have hst := step_spec (E := E) (worldAt E w₀ es n) e
  rw [← worldAt_succ he] at hst
  -- the fetches of the other cells have sets of their own
  have hother : ∀ {j : ℕ} (s : SyncState), j ≠ i →
      ((worldAt E w₀ es n).setSync j s).sync i = (worldAt E w₀ es n).sync i := by
    intro j s hj
    rw [setSync_sync, if_neg (Ne.symm hj)]
  generalize worldAt E w₀ es (n + 1) = w' at hst
  cases hst with
  | tick hd => exact h.same rfl rfl (show _ ≤ _ + _ by linarith)
  | deliver msg => exact h.same rfl (deliver_frame (keyFamily_syncKey _ _) _ msg) le_rfl
  | clear hm => rw [hm] at hphase; exact absurd hphase (by decide)
  | @syncBegin j cell' hj hs =>
    by_cases hji : j = i
    · subst hji
      exact h.move trivial (by rw [hs]; rfl)
    · exact h.same (hother _ hji) rfl le_rfl
  | @syncFirst j cell' start x hj hs =>
    by_cases hji : j = i
    · subst hji
      obtain rfl : cell' = cell := Option.some.inj (hj.1.symm.trans hi)
      refine h.reply hserve he (by rw [hs]; rfl) (fun start' hs' => ?_) fun p url hs' => ?_
      · rw [hs] at hs'; cases hs'; rfl
      · rw [hs] at hs'; cases hs'
    · exact h.same (hother _ hji) rfl le_rfl
  | @syncNext j cell' p url x hj hs =>
    by_cases hji : j = i
    · subst hji
      refine h.reply hserve he (by rw [hs]; rfl) (fun start' hs' => ?_) fun p' url' hs' => ?_
      · rw [hs] at hs'; cases hs'
      · rw [hs] at hs'; cases hs'; rfl
    · exact h.same (hother _ hji) rfl le_rfl
  | @syncTurn j cell' p q hj hs =>
    by_cases hji : j = i
    · subst hji
      obtain rfl : cell' = cell := Option.some.inj (hj.1.symm.trans hi)
      exact h.turn hserve.size hserve.encodes hnow hs (hserve.inTime n p q he hs)
    · refine h.same ?_ ?_ le_rfl
      · rw [setSync_sync, if_neg (Ne.symm hji)]
      · refine turnDb_frame ?_ (worldAt E w₀ es n) p q
        intro hk
        exact hji (hkey j cell' hj.1 hk.symm)
  | _ => exact h.same rfl rfl le_rfl

/-- Before the clearing no fetch has begun. -/
theorem sync_ready (hf : Fresh w₀) {n : ℕ} (h : (worldAt E w₀ es n).main.phase < 2) (i : ℕ) :
    (worldAt E w₀ es n).sync i = .ready := by
  have key : ∀ n, (worldAt E w₀ es n).main.phase < 2 → (worldAt E w₀ es n).sync i = .ready := by
    intro n
    refine run_keeps (P := fun w => w.main.phase < 2 → w.sync i = .ready) (fun w e hw hlt => ?_) _ _
      fun _ => hf.sync i
    have hlt' : w.main.phase < 2 := lt_of_le_of_lt (phase_step w e) hlt
    have hno : ∀ {j : ℕ} {cell : Cell}, ¬ w.Fetches E j cell := by
      intro j cell hj
      have hphase := hj.phase
      omega
    have hst := step_spec (E := E) w e
    generalize w.step E e = w' at hst
    cases hst with
    | syncBegin hi hs => exact absurd hi hno
    | syncFirst x hi hs => exact absurd hi hno
    | syncNext x hi hs => exact absurd hi hno
    | syncTurn hi hs => exact absurd hi hno
    | _ => exact hw hlt'
  exact key n h

/-- **The invariant holds** at every instant after the clearing. -/
theorem syncInv_run (hf : Fresh w₀) (hstart : w₀.now = E.started) {i : ℕ} {cell : Cell}
    {pages : List Json} {N : ℤ} (hserve : Serves E w₀ es i cell pages N)
    (hi : E.cfg.cells[i]? = some cell) (hkey : SoleSyncKey E i cell) {q : ℕ} (hq : ClearsAt E w₀ es q)
    {n : ℕ} (hn : q < n) (hle : n ≤ es.length) : SyncInv E i cell pages N (worldAt E w₀ es n) := by
  induction n, hn using Nat.le_induction with
  | base =>
    obtain ⟨hmain, hdb⟩ := clear_at hq
    have hready : (worldAt E w₀ es (q + 1)).sync i = .ready := by
      have h0 : (worldAt E w₀ es q).sync i = .ready := by
        refine sync_ready hf ?_ i
        rw [hq.2]; decide
      rw [worldAt_succ hq.1]
      simp only [World.step, World.clear, hq.2]
      exact h0
    refine ⟨by rw [hready]; trivial, [], ?_, by rw [hready]; rfl, fun d hd => by cases hd⟩
    rw [hdb]
    exact clearSync_at _ (centre_mem hi) (cell_mem hi).1 _
  | succ n hn ih =>
    obtain ⟨e, he⟩ : ∃ e, es[n]? = some e := ⟨es[n], List.getElem?_eq_getElem (by omega)⟩
    have hnow : E.started ≤ (worldAt E w₀ es n).now := by
      rw [← hstart]
      exact now_start n
    have hphase : 2 ≤ (worldAt E w₀ es n).main.phase := by
      have h1 : (worldAt E w₀ es (q + 1)).main.phase ≤ (worldAt E w₀ es n).main.phase := phase_mono hn
      rw [(clear_at hq).1] at h1
      exact h1
    exact syncInv_step hserve hi hkey he hnow hphase (ih (by omega))

/-! ## The count -/

/-- The distinct ids on the pages with a time in the window. -/
def pageIds (E : Ctx) (pages : List Json) : Finset String :=
  (((pages.flatMap (pageRecords E.L)).filter fun m =>
    decide ((E.window.start : ℚ) ≤ m.2) && decide (m.2 < (E.window.stop : ℚ))).map Prod.fst).toFinset

theorem mem_pageIds {pages : List Json} {x : String} :
    x ∈ pageIds E pages ↔ ∃ τ, (x, τ) ∈ pages.flatMap (pageRecords E.L) ∧
      (E.window.start : ℚ) ≤ τ ∧ τ < (E.window.stop : ℚ) := by
  simp only [pageIds, List.mem_toFinset, List.mem_map, List.mem_filter, Bool.and_eq_true,
    decide_eq_true_eq]
  constructor
  · rintro ⟨⟨y, τ⟩, ⟨hm, h1, h2⟩, rfl⟩
    exact ⟨τ, hm, h1, h2⟩
  · rintro ⟨τ, hm, h1, h2⟩
    exact ⟨(x, τ), ⟨hm, h1, h2⟩, rfl⟩

/-- How a fetch on its chain ends. -/
theorem SyncInv.outcome {i : ℕ} {cell : Cell} {pages : List Json} {N : ℤ} {w : World}
    (h : SyncInv E i cell pages N w) {out : Outcome} (hs : w.sync i = .finished out) :
    ∃ r, out = .ok r ∧ r.aborted = false ∧ numberMatchedFrom out = some N := by
  have hc := h.chain
  rw [hs] at hc
  obtain ⟨r, rfl, hp, ha, hfmt, hN⟩ := hc
  refine ⟨r, rfl, ha, ?_⟩
  unfold numberMatchedFrom
  simp only [hp, ha, hfmt, hN, ne_eq, not_true_eq_false, Bool.false_eq_true, or_self, if_false]

/-- What the set of such a fetch then holds in the window. -/
theorem SyncInv.zrange_eq {i : ℕ} {cell : Cell} {pages : List Json} {N : ℤ} {w : World}
    (h : SyncInv E i cell pages N w) {out : Outcome} (hs : w.sync i = .finished out)
    {τ : String → ℚ} (hτ : ∀ m ∈ pages.flatMap (pageRecords E.L), m.2 = τ m.1)
    (hend : w.now ≤ E.started + (E.cfg.redisExpiry : ℚ)) :
    zrange (E.wall w.now) (E.window.start : ℚ) (E.window.stop : ℚ)
      (w.db (syncKey cell.centreId cell.topic)) = pageIds E pages := by
  obtain ⟨-, ds, hset, hrec, hds⟩ := h
  rw [hs] at hrec
  have hmem : ∀ d ∈ ds, (d.id, d.score) ∈ pages.flatMap (pageRecords E.L) := by
    intro d hd
    have hd' := List.mem_map_of_mem (f := fun d => (d.id, d.score)) hd
    rw [hrec] at hd'
    exact hd'
  have hone : Retention.OneScore ds := by
    intro d hd d' hd' hid
    have h1 := hτ _ (hmem d hd)
    have h2 := hτ _ (hmem d' hd')
    rw [show d.score = τ d.id from h1, show d'.score = τ d'.id from h2, hid]
  have hwall : E.wall w.now ≤ E.wall E.started + (E.cfg.redisExpiry : ℚ) := by
    unfold Ctx.wall
    linarith
  have htimes : ∀ d ∈ ds, E.wall E.started ≤ d.now ∧
      d.now ≤ E.wall E.started + (E.cfg.redisExpiry : ℚ) := by
    intro d hd
    obtain ⟨-, h2, h3⟩ := hds d hd
    exact ⟨h2, h3.trans hwall⟩
  ext x
  rw [hset, Retention.mem_touched ds hone htimes hwall, mem_pageIds]
  constructor
  · rintro ⟨d, hd, rfl, -, h1, h2⟩
    exact ⟨d.score, hmem d hd, h1, h2⟩
  · rintro ⟨τ', hm, h1, h2⟩
    have hm' : (x, τ') ∈ ds.map fun d => (d.id, d.score) := by rw [hrec]; exact hm
    obtain ⟨d, hd, hd'⟩ := List.mem_map.1 hm'
    obtain ⟨rfl, rfl⟩ := Prod.mk.inj hd'
    exact ⟨d, hd, rfl, (hds d hd).1, h1, h2⟩

/-- The clearing comes before a future is collected. -/
theorem cleared_before (hf : Fresh w₀) {n k : ℕ} (h : CollectsAt E w₀ es n k) :
    ∃ q < n, ClearsAt E w₀ es q := by
  have hlt : n < es.length := (List.getElem?_eq_some_iff.1 h.1).1
  refine cleared hf.main hlt.le ?_
  rw [h.2.1]
  exact le_rfl

/-- A fetch that is over gives the number on its first page. -/
theorem sync_number (hf : Fresh w₀) (hstart : w₀.now = E.started) {i : ℕ} {cell : Cell}
    {pages : List Json} {N : ℤ} (hserve : Serves E w₀ es i cell pages N)
    (hi : E.cfg.cells[i]? = some cell) (hkey : SoleSyncKey E i cell) {n : ℕ} (hn : n ≤ es.length)
    {out : Outcome} (hs : (worldAt E w₀ es n).sync i = .finished out) :
    numberMatchedFrom out = some N := by
  have hphase : 2 ≤ (worldAt E w₀ es n).main.phase := by
    by_contra hlt
    rw [sync_ready hf (not_le.1 hlt) i] at hs
    cases hs
  obtain ⟨q, hq, hclear⟩ := cleared hf.main hn hphase
  obtain ⟨r, -, -, hN⟩ := (syncInv_run hf hstart hserve hi hkey hclear hq hn).outcome hs
  exact hN

/-- **What is published for a paged fetch** is the number of distinct ids on its pages with a
time in the window. -/
theorem sync_fetched (hf : Fresh w₀) (hstart : w₀.now = E.started)
    (hpub : (w₀.run E es).main = .published) (hn : (E.cfg.cells.map Cell.pair).Nodup) {i : ℕ}
    {cell : Cell} {pages : List Json} {N : ℤ} (hserve : Serves E w₀ es i cell pages N)
    (hi : E.cfg.cells[i]? = some cell) (hkey : SoleSyncKey E i cell) {τ : String → ℚ}
    (hτ : ∀ m ∈ pages.flatMap (pageRecords E.L), m.2 = τ m.1)
    (hend : (w₀.run E es).now ≤ E.started + (E.cfg.redisExpiry : ℚ)) :
    fetchedIn E w₀ es cell .http = (pageIds E pages).card := by
  obtain ⟨b, c, hc⟩ := published_spec hf hpub
  have hlt : i < E.cfg.cells.length := (List.getElem?_eq_some_iff.1 hi).1
  have hcol := hc.collects (2 * i) (by omega)
  obtain ⟨q, hq, hclear⟩ := cleared_before hf hcol
  have hle : c (2 * i) < es.length := (List.getElem?_eq_some_iff.1 hcol.1).1
  obtain ⟨-, -, -, out, hout⟩ := hcol
  have hnow : (worldAt E w₀ es (c (2 * i))).now ≤ E.started + (E.cfg.redisExpiry : ℚ) :=
    (now_end (c (2 * i))).trans hend
  have hinv := syncInv_run hf hstart hserve hi hkey hclear hq hle.le
  obtain ⟨r, rfl, hab, -⟩ := hinv.outcome (future_sync hout)
  have hset := hinv.zrange_eq (future_sync hout) hτ hnow
  have hs : (cycleOf E w₀ es b c).outcome i .http = .ok r := by
    show ((worldAt E w₀ es (c (2 * i))).future (2 * i)).getD (.error .valueError) = .ok r
    rw [hout]; rfl
  have hre : (cycleOf E w₀ es b c).recountAt E.cfg i cell .http =
      countSyncMessages (E.wall (worldAt E w₀ es (c (2 * i))).now) (worldAt E w₀ es (c (2 * i))).db
        cell.centreId cell.topic E.window.start E.window.stop := by
    unfold CycleEnv.recountAt
    rw [hs]
    dsimp only
    rw [if_neg (by rw [hab]; decide)]
    rfl
  rw [fetchedIn_eq_recount hf hc hn hi, hre]
  unfold countSyncMessages
  rw [zcount_eq_card, hset]

end Scgrep
