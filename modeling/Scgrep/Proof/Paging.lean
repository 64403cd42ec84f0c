import Scgrep.Spec.Paging
import Scgrep.Proof.SyncRun

/-!
# Walking a chain of pages

* `chainAt`: the pages of a service, each at the URL that the one before links to.
* `Walked`: some pages are the first ones of the chain, as many as the page limit, the
  deadline and the chain allow.
* `TraceInv`: the sync set is what the calls have made of it, and the calls are the
  records of the processed pages. Every page keeps this (`traceInv_process`).
* `sync_fetch_exact`: **the fetch walks the chain, counts every entry and stores every
  record.**
-/

namespace Scgrep

open Redis

variable {L : Lib} {S : RedisStore} {c : FetchCall}

/-! ## The run and the fetch -/

/-- For a service that does not look at the URL, the outcome is that of `syncFetch`. -/
theorem syncPagesRun_outcome (σ : SyncScript) (callAt : ℕ → ℚ) (n : ℕ) :
    ∀ (p : PageLoop) (page : Json) (t : SyncTrace),
      (syncPagesRun L S c (fun k _ => σ.exchange k) ⟨σ.start, σ.firstAt, σ.turnAt, callAt⟩ n p page t).1 =
        syncPages L c σ n p page := by
  induction n with
  | zero => intro p page t; rfl
  | succ n ih =>
    intro p page t
    unfold syncPagesRun syncPages
    dsimp only
    cases syncTurn L c (σ.turnAt p.turns) p page with
    | inl out => rfl
    | inr q =>
      obtain ⟨p', url⟩ := q
      dsimp only
      cases syncNext L p' url (σ.exchange (p'.turns + 1)) with
      | inl out => rfl
      | inr q => exact ih q.1 q.2 _

theorem syncRun_outcome (σ : SyncScript) (callAt : ℕ → ℚ) (db : Db) :
    (syncRun L S c (fun k _ => σ.exchange k) ⟨σ.start, σ.firstAt, σ.turnAt, callAt⟩ db).1 =
      syncFetch L c σ := by
  unfold syncRun syncFetch
  dsimp only
  cases syncFirst L c σ.start σ.firstAt (σ.exchange 0) with
  | inl out => rfl
  | inr q => exact syncPagesRun_outcome σ callAt maxPages q.1 q.2 _

/-- At one clock reading, a page does to the keyspace what `processFeatures` does. -/
theorem process_db (now : ℚ) (t : SyncTrace) (page : Json) :
    (t.process L S c (fun _ => now) page).db =
      (processFeatures L S now c.centreId c.topic page t.db).2 := by
  have hfold : ∀ (ms : List (String × String)) (t : SyncTrace),
      (ms.foldl (SyncTrace.store L S c fun _ => now) t).db =
        ms.foldl (fun db m => (storeSyncMessage L S now c.centreId c.topic m.1 m.2 db).2) t.db := by
    intro ms
    induction ms with
    | nil => intro t; rfl
    | cons m ms ih => intro t; exact ih _
  exact hfold _ _

/-! ## The chain -/

/-- The URL that the next link of a page leads to. -/
def nextUrl (L : Lib) (url : String) (page : Json) : Option String :=
  (nextPageHref page).bind (L.urljoin url)

/-- The page in an answer. -/
def Exchange.page? (L : Lib) : Exchange → Option Json
  | .answer _ text =>
    match L.loads text with
    | .ok page => some page
    | _ => none
  | _ => none

/-- The `k`-th page of the chain from a URL on, and the URL it is found at. -/
def chainAt (L : Lib) (serve : Service) (url : String) : ℕ → Option (String × Json)
  | 0 => ((serve 0 url).page? L).map (url, ·)
  | k + 1 => (chainAt L serve url k).bind fun q => (nextUrl L q.1 q.2).bind fun next =>
    ((serve (k + 1) next).page? L).map (next, ·)

/-- No turn before the `k`-th finds the deadline passed. -/
def InTimeBefore (c : FetchCall) (τ : SyncClock) (k : ℕ) : Prop := ∀ j < k, τ.turnAt j < c.deadlineAt

/-- On the pages of the chain that are processed, every id can be stored and every next link that
is followed can be resolved; and the answer to it is a page, not JSON, or a failure: the decoder
does not run out of stack. -/
structure ChainServed (L : Lib) (c : FetchCall) (serve : Service) (τ : SyncClock) : Prop where
  resolvable : ∀ k < maxPages, InTimeBefore c τ (k + 1) → ∀ u page href,
    chainAt L serve c.firstUrl k = some (u, page) → nextPageHref page = some href →
      L.urljoin u href ≠ none
  decodes : ∀ k < maxPages, InTimeBefore c τ (k + 1) → ∀ u page next,
    chainAt L serve c.firstUrl k = some (u, page) → nextUrl L u page = some next →
      (serve (k + 1) next).Decodes L
  encodes : ∀ k < maxPages, InTimeBefore c τ k → ∀ u page,
    chainAt L serve c.firstUrl k = some (u, page) → PageEncodes L page

theorem page?_eq_some {x : Exchange} {page : Json} : x.page? L = some page ↔ x.Gives L page := by
  unfold Exchange.page? Exchange.Gives
  cases x with
  | fails => simp
  | broken s => simp
  | answer s text =>
    cases hl : L.loads text with
    | ok v => simp [hl]
    | valueError => simp [hl]
    | recursionError => simp [hl]

/-- The number of feature entries on some pages. -/
def featureTotal (pages : List Json) : ℕ := (pages.map fun page => (pageFeatures page).length).sum

theorem featureTotal_append (pages : List Json) (page : Json) :
    featureTotal (pages ++ [page]) = featureTotal pages + (pageFeatures page).length := by
  simp [featureTotal]

/-- **Pages walked**: the first ones of the chain, each once, and no more than the page limit, the
deadline and the chain allow. -/
structure Walked (L : Lib) (c : FetchCall) (serve : Service) (τ : SyncClock) (pages : List Json) :
    Prop where
  pos : 0 < pages.length
  bound : pages.length ≤ maxPages
  initial : ∀ k < pages.length, (chainAt L serve c.firstUrl k).map Prod.snd = pages[k]?
  inTime : ∀ k, k + 1 < pages.length → τ.turnAt k < c.deadlineAt
  stopped : pages.length = maxPages ∨ c.deadlineAt ≤ τ.turnAt (pages.length - 1) ∨
    chainAt L serve c.firstUrl pages.length = none

variable {serve : Service} {τ : SyncClock}

/-- The ids of the walked pages can all be stored. -/
theorem Walked.encodes {pages : List Json} (h : Walked L c serve τ pages) (hs : ChainServed L c serve τ) :
    ∀ page ∈ pages, PageEncodes L page := by
  intro page hpage
  obtain ⟨k, hk, rfl⟩ := List.mem_iff_getElem.1 hpage
  have hat := h.initial k hk
  rw [List.getElem?_eq_getElem hk] at hat
  obtain ⟨⟨u, page⟩, hchain, heq⟩ := Option.map_eq_some_iff.1 hat
  rw [← heq]
  exact hs.encodes k (hk.trans_le h.bound) (fun j hj => h.inTime j (by omega)) u page hchain

/-! ## The page loop -/

/-- With a page in hand: the pages before it are processed. -/
structure WalkInv (L : Lib) (c : FetchCall) (serve : Service) (τ : SyncClock) (p : PageLoop)
    (page : Json) (pages : List Json) : Prop where
  here : chainAt L serve c.firstUrl p.turns = some (p.pageUrl, page)
  length : pages.length = p.turns
  initial : ∀ k < pages.length, (chainAt L serve c.firstUrl k).map Prod.snd = pages[k]?
  inTime : ∀ k < pages.length, τ.turnAt k < c.deadlineAt
  seen : p.messagesSeen = featureTotal pages

/-- Processing the page in hand. -/
theorem WalkInv.initial_append {p : PageLoop} {page : Json} {pages : List Json}
    (h : WalkInv L c serve τ p page pages) : ∀ k < (pages ++ [page]).length,
      (chainAt L serve c.firstUrl k).map Prod.snd = (pages ++ [page])[k]? := by
  intro k hk
  rw [List.length_append, List.length_singleton] at hk
  rcases Nat.lt_or_ge k pages.length with hlt | hge
  · rw [List.getElem?_append_left hlt]
    exact h.initial k hlt
  · have hkeq : k = pages.length := by omega
    rw [hkeq, List.getElem?_concat_length, h.length, h.here]
    rfl

/-- The walk ends with the page in hand. -/
theorem WalkInv.walked {p : PageLoop} {page : Json} {pages : List Json}
    (h : WalkInv L c serve τ p page pages) (hlt : p.turns < maxPages)
    (hstop : c.deadlineAt ≤ τ.turnAt p.turns ∨ chainAt L serve c.firstUrl (p.turns + 1) = none) :
    Walked L c serve τ (pages ++ [page]) := by
  have hlen : (pages ++ [page]).length = p.turns + 1 := by
    rw [List.length_append, List.length_singleton, h.length]
  refine ⟨by omega, by omega, h.initial_append, ?_, Or.inr ?_⟩
  · intro k hk
    exact h.inTime k (by rw [h.length]; omega)
  · rw [hlen, Nat.add_sub_cancel]
    exact hstop

/-- The walk ends at the page limit. -/
theorem WalkInv.walked_limit {p : PageLoop} {page : Json} {pages : List Json}
    (h : WalkInv L c serve τ p page pages) (hlim : p.turns = maxPages) :
    Walked L c serve τ pages := by
  have hlen : pages.length = maxPages := h.length.trans hlim
  have hmax : 0 < maxPages := by decide
  refine ⟨by omega, by omega, h.initial, ?_, Or.inl hlen⟩
  intro k hk
  exact h.inTime k (by omega)

theorem process_pages (callAt : ℕ → ℚ) (t : SyncTrace) (page : Json) :
    (t.process L S c callAt page).pages = t.pages ++ [page] := by
  have hfold : ∀ (ms : List (String × String)) (t : SyncTrace),
      (ms.foldl (SyncTrace.store L S c callAt) t).pages = t.pages := by
    intro ms
    induction ms with
    | nil => intro t; rfl
    | cons m ms ih => intro t; exact ih _
  exact hfold _ _

theorem chainAt_succ {url u : String} {page : Json} {k : ℕ}
    (h : chainAt L serve url k = some (u, page)) : chainAt L serve url (k + 1) =
      (nextUrl L u page).bind fun next => ((serve (k + 1) next).page? L).map (next, ·) := by
  unfold chainAt
  rw [h]
  rfl

/-- Without a next link the chain ends. -/
theorem chainAt_no_link {url u : String} {page : Json} {k : ℕ}
    (h : chainAt L serve url k = some (u, page)) (hh : nextPageHref page = none) :
    chainAt L serve url (k + 1) = none := by
  rw [chainAt_succ h, nextUrl, hh]
  rfl

/-- With one it goes on as the answer says. -/
theorem chainAt_link {url u next : String} {page : Json} {k : ℕ}
    (h : chainAt L serve url k = some (u, page)) (hn : nextUrl L u page = some next) :
    chainAt L serve url (k + 1) = ((serve (k + 1) next).page? L).map (next, ·) := by
  rw [chainAt_succ h, hn, Option.bind_some]

/-- The next page in hand. -/
theorem WalkInv.next {p p' : PageLoop} {page page' : Json} {pages : List Json}
    (h : WalkInv L c serve τ p page pages) (htime : τ.turnAt p.turns < c.deadlineAt)
    (hhere : chainAt L serve c.firstUrl p'.turns = some (p'.pageUrl, page'))
    (hturns : p'.turns = p.turns + 1) (hseen : p'.messagesSeen = featureTotal (pages ++ [page])) :
    WalkInv L c serve τ p' page' (pages ++ [page]) := by
  have hlen : (pages ++ [page]).length = p.turns + 1 := by
    rw [List.length_append, List.length_singleton, h.length]
  refine ⟨hhere, by omega, h.initial_append, ?_, hseen⟩
  intro k hk
  rcases Nat.lt_or_ge k pages.length with hlt | hge
  · exact h.inTime k hlt
  · have hlength := h.length
    have hkeq : k = p.turns := by omega
    rw [hkeq]
    exact htime

/-- What the end of the loop says about the pages. -/
def EndsWith (L : Lib) (c : FetchCall) (serve : Service) (τ : SyncClock) (numberMatched : ℤ)
    (out : Outcome × SyncTrace) : Prop :=
  ∃ r t, out = (.ok r, t) ∧ Walked L c serve τ t.pages ∧
    (r.invalidNumberMatched = true ↔ (featureTotal t.pages : ℤ) ≠ numberMatched)

theorem endsWith_finishPages {p : PageLoop} {t : SyncTrace} (hwalk : Walked L c serve τ t.pages)
    (hseen : p.messagesSeen = featureTotal t.pages) :
    EndsWith L c serve τ p.numberMatched (finishPages p, t) := by
  refine ⟨_, t, rfl, hwalk, ?_⟩
  rw [← hseen]
  exact decide_eq_true_iff

/-- **The page loop walks the chain** and compares the number of entries with `numberMatched`. -/
theorem syncPagesRun_walks (hs : ChainServed L c serve τ) (n : ℕ) :
    ∀ (p : PageLoop) (page : Json) (t : SyncTrace), p.turns + n = maxPages →
      WalkInv L c serve τ p page t.pages →
      EndsWith L c serve τ p.numberMatched (syncPagesRun L S c serve τ n p page t) := by
  induction n with
  | zero =>
    intro p page t hn h
    exact endsWith_finishPages (h.walked_limit (by omega)) h.seen
  | succ n ih =>
    intro p page t hn h
    have hlt : p.turns < maxPages := by omega
    set t₁ := t.process L S c τ.callAt page with ht₁
    have hpages : t₁.pages = t.pages ++ [page] := process_pages τ.callAt t page
    have htotal : p.messagesSeen + (pageFeatures page).length = featureTotal t₁.pages := by
      rw [hpages, featureTotal_append, h.seen]
    -- the loop ends after this page, for one of the three reasons
    have hdone : ∀ status, (c.deadlineAt ≤ τ.turnAt p.turns ∨
        chainAt L serve c.firstUrl (p.turns + 1) = none) →
        EndsWith L c serve τ p.numberMatched (finishPages { p with
          messagesSeen := p.messagesSeen + (pageFeatures page).length, lastStatus := status }, t₁) := by
      intro status hstop
      refine endsWith_finishPages ?_ htotal
      rw [hpages]
      exact h.walked hlt hstop
    have hbefore : InTimeBefore c τ p.turns := fun j hj => h.inTime j (by rw [h.length]; exact hj)
    unfold syncPagesRun syncTurn
    rw [if_neg (by omega), countFeatures_ok (hs.encodes _ hlt hbefore _ _ h.here)]
    dsimp only
    rw [← ht₁]
    cases hh : nextPageHref page with
    | none => exact hdone p.lastStatus (Or.inr (chainAt_no_link h.here hh))
    | some href =>
      dsimp only
      by_cases hd : c.deadlineAt ≤ τ.turnAt p.turns
      · rw [if_pos hd]
        exact hdone p.lastStatus (Or.inl hd)
      rw [if_neg hd]
      have hafter : InTimeBefore c τ (p.turns + 1) := by
        intro j hj
        rcases Nat.lt_succ_iff_lt_or_eq.1 hj with hj | rfl
        · exact hbefore j hj
        · exact not_le.1 hd
      cases hu : L.urljoin p.pageUrl href with
      | none => exact absurd hu (hs.resolvable _ hlt hafter _ _ _ h.here hh)
      | some url =>
        have hnext : nextUrl L p.pageUrl page = some url := by
          rw [nextUrl, hh]
          exact hu
        have hchain := chainAt_link h.here hnext
        dsimp only
        by_cases hgives : ∃ page', (serve (p.turns + 1) url).Gives L page'
        · obtain ⟨page', hg⟩ := hgives
          obtain ⟨st, hsn⟩ := syncNext_page
            { p with messagesSeen := p.messagesSeen + (pageFeatures page).length } url hg
          rw [hsn]
          dsimp only
          have hhere : chainAt L serve c.firstUrl (p.turns + 1) = some (url, page') := by
            rw [hchain, page?_eq_some.2 hg]
            rfl
          refine ih _ page' t₁ (by dsimp only; omega) ?_
          rw [hpages]
          exact h.next (not_le.1 hd) hhere rfl (htotal.trans (congrArg featureTotal hpages))
        · have hno : ∀ page', ¬ (serve (p.turns + 1) url).Gives L page' := not_exists.1 hgives
          obtain ⟨st, hsn⟩ := syncNext_stop
            { p with messagesSeen := p.messagesSeen + (pageFeatures page).length } url
            (hs.decodes _ hlt hafter _ _ _ h.here hnext) hno
          rw [hsn]
          refine hdone st (Or.inr ?_)
          have hnone : (serve (p.turns + 1) url).page? L = none :=
            Option.eq_none_iff_forall_ne_some.2 fun page' hp => hno page' (page?_eq_some.1 hp)
          rw [hchain, hnone]
          rfl

/-! ## The sync set -/

/-- What the calls with a parseable time do to the sync set. -/
def callDeliveries (L : Lib) (topic : String) (calls : List SyncCall) :
    List (Retention.Delivery String String ℚ) :=
  calls.filterMap fun call => (parseTimeToEpoch L call.timeValue).map fun epoch =>
    ⟨call.now, call.msgId, epoch, topic, true⟩

/-- **The calls are the records of the processed pages**, and the sync set is what they made of it. -/
structure TraceInv (L : Lib) (S : RedisStore) (c : FetchCall) (t : SyncTrace) : Prop where
  set : t.db (syncKey c.centreId c.topic) =
    Retention.touched (S.expiry : ℚ) (callDeliveries L c.topic t.calls)
  records : t.calls.map (fun call => (call.msgId, call.timeValue)) =
    t.pages.flatMap fun page => (storedFeatures L page).filterMap (featureRecord L)

theorem set_store (callAt : ℕ → ℚ) (m : String × String) {t : SyncTrace}
    (h : t.db (syncKey c.centreId c.topic) =
      Retention.touched (S.expiry : ℚ) (callDeliveries L c.topic t.calls)) :
    (t.store L S c callAt m).db (syncKey c.centreId c.topic) =
      Retention.touched (S.expiry : ℚ) (callDeliveries L c.topic (t.store L S c callAt m).calls) := by
  unfold SyncTrace.store callDeliveries
  dsimp only
  rw [List.filterMap_append]
  cases ht : parseTimeToEpoch L m.2 with
  | none =>
    rw [storeSyncMessage_unparsed ht, h]
    simp [ht, callDeliveries]
  | some epoch =>
    rw [storeSyncMessage_at ht, h]
    simp only [List.filterMap_cons, ht, Option.map_some, List.filterMap_nil]
    rw [Retention.touched_append]
    simp only [callDeliveries, decide_true]

/-- **Every page keeps it.** -/
theorem traceInv_process (callAt : ℕ → ℚ) {t : SyncTrace} (h : TraceInv L S c t) (page : Json) :
    TraceInv L S c (t.process L S c callAt page) := by
  have hset : ∀ (ms : List (String × String)) (t : SyncTrace),
      t.db (syncKey c.centreId c.topic) =
        Retention.touched (S.expiry : ℚ) (callDeliveries L c.topic t.calls) →
      (ms.foldl (SyncTrace.store L S c callAt) t).db (syncKey c.centreId c.topic) =
        Retention.touched (S.expiry : ℚ)
          (callDeliveries L c.topic (ms.foldl (SyncTrace.store L S c callAt) t).calls) := by
    intro ms
    induction ms with
    | nil => intro t h; exact h
    | cons m ms ih => intro t h; exact ih _ (set_store callAt m h)
  have hcalls : ∀ (ms : List (String × String)) (t : SyncTrace),
      (ms.foldl (SyncTrace.store L S c callAt) t).calls.map (fun call => (call.msgId, call.timeValue)) =
        t.calls.map (fun call => (call.msgId, call.timeValue)) ++ ms := by
    intro ms
    induction ms with
    | nil => intro t; exact (List.append_nil _).symm
    | cons m ms ih =>
      intro t
      rw [List.foldl_cons, ih]
      unfold SyncTrace.store
      rw [List.map_append, List.append_assoc]
      rfl
  refine ⟨hset _ _ h.set, ?_⟩
  rw [process_pages, List.flatMap_append, ← h.records, List.flatMap_singleton]
  exact hcalls _ _

/-- **The run keeps it.** -/
theorem traceInv_run (n : ℕ) : ∀ (p : PageLoop) (page : Json) (t : SyncTrace), TraceInv L S c t →
    TraceInv L S c (syncPagesRun L S c serve τ n p page t).2 := by
  induction n with
  | zero => intro p page t h; exact h
  | succ n ih =>
    intro p page t h
    have h₁ := traceInv_process τ.callAt h page
    unfold syncPagesRun
    dsimp only
    cases syncTurn L c (τ.turnAt p.turns) p page with
    | inl out => exact h₁
    | inr q =>
      obtain ⟨p', url⟩ := q
      dsimp only
      cases syncNext L p' url (serve (p'.turns + 1) url) with
      | inl out => exact h₁
      | inr q => exact ih q.1 q.2 _ h₁

/-- Each of them is a hit. -/
theorem filter_callDeliveries (topic : String) (calls : List SyncCall) :
    (callDeliveries L topic calls).filter Retention.Delivery.hit = callDeliveries L topic calls := by
  refine List.filter_eq_self.2 fun d hd => ?_
  obtain ⟨call, -, hd⟩ := List.mem_filterMap.1 hd
  obtain ⟨epoch, -, rfl⟩ := Option.map_eq_some_iff.1 hd
  rfl

/-- The scores that the calls give are those of the records of the pages, whose ids can all be
stored. -/
theorem hits_callDeliveries {t : SyncTrace} (h : TraceInv L S c t)
    (henc : ∀ page ∈ t.pages, PageEncodes L page) :
    Retention.hits (callDeliveries L c.topic t.calls) = t.pages.flatMap (pageRecords L) := by
  have hpages : t.pages.flatMap (pageRecords L) =
      (t.pages.flatMap fun page => (storedFeatures L page).filterMap (featureRecord L)).filterMap
        fun m => (parseTimeToEpoch L m.2).map (m.1, ·) := by
    rw [List.filterMap_flatMap]
    refine List.flatMap_congr fun page hpage => ?_
    rw [storedFeatures_eq (henc page hpage), List.filterMap_filterMap]
    rfl
  unfold Retention.hits
  rw [filter_callDeliveries, hpages, ← h.records, List.filterMap_map]
  unfold callDeliveries
  rw [List.map_filterMap]
  congr 1
  funext call
  simp only [Function.comp_apply, Option.map_map]
  rfl

/-- No command, nor a reading at `now`, finds the sync set expired: no two calls in a row that
renew it, nor the last one and the reading, lie more than its TTL apart. -/
def WithinTtl (L : Lib) (S : RedisStore) (now : ℚ) (calls : List SyncCall) : Prop :=
  List.IsChain (fun a b => b ≤ a + (S.expiry : ℚ))
    ((calls.filter fun call => (parseTimeToEpoch L call.timeValue).isSome).map SyncCall.now ++ [now])

theorem renewed_of_withinTtl {now : ℚ} {calls : List SyncCall} (topic : String)
    (h : WithinTtl L S now calls) :
    Retention.Renewed (S.expiry : ℚ) now (callDeliveries L topic calls) := by
  have htimes : ∀ calls : List SyncCall, (callDeliveries L topic calls).map Retention.Delivery.now =
      (calls.filter fun call => (parseTimeToEpoch L call.timeValue).isSome).map SyncCall.now := by
    intro calls
    induction calls with
    | nil => rfl
    | cons call calls ih =>
      unfold callDeliveries at ih ⊢
      rw [List.filterMap_cons, List.filter_cons]
      cases parseTimeToEpoch L call.timeValue with
      | none => exact ih
      | some epoch => exact congrArg (call.now :: ·) ih
  unfold Retention.Renewed
  rw [filter_callDeliveries, htimes]
  exact h

/-- A page has no more records than entries. -/
theorem length_records_le (pages : List Json) :
    (pages.flatMap (pageRecords L)).length ≤ featureTotal pages := by
  unfold featureTotal
  rw [List.length_flatMap]
  refine List.sum_le_sum fun page _ => ?_
  exact List.length_filterMap_le _ _

/-- **The sync set never holds more ids than the processed pages have entries**, in any window. -/
theorem count_le_total {t : SyncTrace} (h : TraceInv L S c t)
    (henc : ∀ page ∈ t.pages, PageEncodes L page) (now : ℚ) (lo hi : ℤ) :
    countSyncMessages now t.db c.centreId c.topic lo hi ≤ featureTotal t.pages := by
  have hsub : zrange now (lo : ℚ) (hi : ℚ) (t.db (syncKey c.centreId c.topic)) ⊆
      ((t.pages.flatMap (pageRecords L)).map Prod.fst).toFinset := by
    intro m hm
    obtain ⟨s, hs, -, -⟩ := mem_zrange.1 hm
    rw [h.set] at hs
    obtain ⟨d, hd, hid, hhit, -⟩ := ((Retention.zscore_touched _ _).1 hs).delivered
    rw [List.mem_toFinset, ← hits_callDeliveries h henc]
    refine List.mem_map.2 ⟨(d.id, d.score), ?_, hid⟩
    exact List.mem_map.2 ⟨d, List.mem_filter.2 ⟨List.mem_reverse.1 hd, hhit⟩, rfl⟩
  calc countSyncMessages now t.db c.centreId c.topic lo hi
      = (zrange now (lo : ℚ) (hi : ℚ) (t.db (syncKey c.centreId c.topic))).card := zcount_eq_card _ _ _ _
    _ ≤ ((t.pages.flatMap (pageRecords L)).map Prod.fst).toFinset.card := Finset.card_le_card hsub
    _ ≤ ((t.pages.flatMap (pageRecords L)).map Prod.fst).length := List.toFinset_card_le _
    _ = (t.pages.flatMap (pageRecords L)).length := List.length_map _
    _ ≤ featureTotal t.pages := length_records_le _

/-! ## The fetch -/

/-- **The fetch processes the chain exactly.** Against a service whose first answer has the
`numberMatched` `N` it walks the chain, flags `N` iff it is not the number of entries on the walked
pages, and leaves in a cleared sync set, within its TTL, the ids of their records with their last
scores. So no window counts more than `N` unless `N` is flagged. -/
theorem sync_fetch_exact {db : Db} {page : Json} {N : ℤ} (hg : (serve 0 c.firstUrl).Gives L page)
    (hN : pyInt L (page.get "numberMatched") = .ok N) (hs : ChainServed L c serve τ)
    (hclear : db (syncKey c.centreId c.topic) = none) :
    ∃ r t, syncRun L S c serve τ db = (.ok r, t) ∧ Walked L c serve τ t.pages ∧
      (r.invalidNumberMatched = true ↔ N ≠ featureTotal t.pages) ∧
      (∀ now, WithinTtl L S now t.calls → ∀ m,
        zscore now (t.db (syncKey c.centreId c.topic)) m =
          Retention.latest (t.pages.flatMap (pageRecords L)) m) ∧
      (r.invalidNumberMatched = false → ∀ (now : ℚ) (lo hi : ℤ),
        (countSyncMessages now t.db c.centreId c.topic lo hi : ℤ) ≤ N) := by
  obtain ⟨status, hfirst⟩ : ∃ status, syncFirst L c τ.start τ.firstAt (serve 0 c.firstUrl) =
      .inr (⟨c.firstUrl, 0, 0, N, (τ.firstAt - τ.start) * 1000, status⟩, page) := syncFirst_page hg hN
  have hhere : chainAt L serve c.firstUrl 0 = some (c.firstUrl, page) := by
    unfold chainAt
    rw [page?_eq_some.2 hg]
    rfl
  set p : PageLoop := ⟨c.firstUrl, 0, 0, N, (τ.firstAt - τ.start) * 1000, status⟩ with hp
  obtain ⟨r, t, hrun, hwalk, hflag⟩ := syncPagesRun_walks (S := S) (τ := τ) hs maxPages p page ⟨[], [], db⟩
    (Nat.zero_add _) ⟨hhere, rfl, by simp, by simp, rfl⟩
  have hinv : TraceInv L S c t := by
    have h : TraceInv L S c (syncPagesRun L S c serve τ maxPages p page ⟨[], [], db⟩).2 :=
      traceInv_run maxPages p page _ ⟨hclear, rfl⟩
    rw [hrun] at h
    exact h
  have henc : ∀ page ∈ t.pages, PageEncodes L page := hwalk.encodes hs
  refine ⟨r, t, ?_, hwalk, hflag.trans ne_comm, ?_, ?_⟩
  · unfold syncRun
    rw [hfirst]
    exact hrun
  · intro now hnow m
    rw [hinv.set, ← hits_callDeliveries hinv henc]
    exact Retention.zscore_of_renewed _ (renewed_of_withinTtl c.topic hnow) m
  · intro hvalid now lo hi
    have htotal : (featureTotal t.pages : ℤ) = N := by
      by_contra hne
      rw [hflag.2 hne] at hvalid
      cases hvalid
    rw [← htotal]
    exact_mod_cast count_le_total hinv henc now lo hi

/-! ## A chain that never ends -/

/-- A page whose next link points back to itself. -/
def loopPage : Json :=
  .obj [("numberMatched", .int 1),
    ("features", .arr [.obj [("id", .str "a"), ("properties", .obj [("pubtime", .str "t")])]]),
    ("links", .arr [.obj [("rel", .str "next"), ("href", .str "https://x/next")]])]

/-- A last page with an id that has a lone surrogate. -/
def lonePage : Json :=
  .obj [("features", .arr [.obj [("id", .str "\\ud800"), ("time", .str "2024-01-01T00:00:00Z")]])]

/-- The link of the page is absolute, so that joining gives the link itself. -/
def loopLib : Lib :=
  { ({ sampleTables with
      jsons := [("page", .ok loopPage), ("lone", .ok lonePage), ("deep", .recursionError)]
      lone := ["\\ud800"] } : Tables).lib with
    urljoin := fun _ href => some href }

def loopServe : Service := fun _ _ => .answer 200 "page"

def loopClock : SyncClock := ⟨0, 0, fun _ => 0, fun _ => 0⟩

def loopCall : FetchCall := ⟨"https://x", "c", "cache/a/wis2/#", "s", "e", 285, 285⟩

theorem loop_gives : (loopServe 0 loopCall.firstUrl).Gives loopLib loopPage := ⟨200, "page", rfl, rfl⟩

theorem loop_chain (k : ℕ) : (chainAt loopLib loopServe loopCall.firstUrl k).map Prod.snd = some loopPage := by
  induction k with
  | zero => rfl
  | succ k ih =>
    obtain ⟨⟨u, page⟩, hk, hpage⟩ := Option.map_eq_some_iff.1 ih
    obtain rfl : page = loopPage := hpage
    unfold chainAt
    rw [hk]
    rfl

theorem loop_served : ChainServed loopLib loopCall loopServe loopClock := by
  refine ⟨?_, ?_, ?_⟩
  · intro k _ _ u page href _ _ h
    cases h
  · intro k _ _ u page next _ _ status text h
    cases h
    have hl : loopLib.loads "page" = .ok loopPage := rfl
    rw [hl]
    exact Loads.noConfusion
  · intro k _ _ u page hk
    have hpage := loop_chain k
    rw [hk] at hpage
    obtain rfl : page = loopPage := Option.some.inj hpage
    unfold PageEncodes
    decide +kernel

theorem sync_fetch_endless : ∃ r t,
    syncRun loopLib ⟨660, ["cache/a/wis2/#"]⟩ loopCall loopServe loopClock Redis.Db.empty = (.ok r, t) ∧
      t.pages.length = 10000 ∧ r.invalidNumberMatched = true := by
  have hclear : (Redis.Db.empty : Db) (syncKey loopCall.centreId loopCall.topic) = none := rfl
  have hN : pyInt loopLib (loopPage.get "numberMatched") = .ok 1 := rfl
  obtain ⟨r, t, hrun, hwalk, hflag, -⟩ := sync_fetch_exact (S := ⟨660, ["cache/a/wis2/#"]⟩) (τ := loopClock)
    loop_gives hN loop_served hclear
  have hlen : t.pages.length = 10000 := by
    rcases hwalk.stopped with h | h | h
    · exact h
    · exact absurd h (show ¬ (285 : ℚ) ≤ 0 by decide)
    · have hnext := loop_chain t.pages.length
      rw [h] at hnext
      cases hnext
  have hpages : t.pages = List.replicate 10000 loopPage := by
    refine List.eq_replicate_iff.2 ⟨hlen, fun page hmem => ?_⟩
    obtain ⟨k, hk, rfl⟩ := List.mem_iff_getElem.1 hmem
    have h := hwalk.initial k hk
    rw [loop_chain, List.getElem?_eq_getElem hk] at h
    exact (Option.some.inj h).symm
  have htotal : featureTotal t.pages = 10000 := by
    rw [hpages, featureTotal, List.map_replicate, List.sum_replicate]
    rfl
  refine ⟨r, t, hrun, hlen, hflag.2 ?_⟩
  rw [htotal]
  decide

/-! ## Pages that raise -/

/-- The service that answers the request for the next page with the text. -/
def secondServe (text : String) : Service := fun k _ => .answer 200 (if k = 0 then "page" else text)

/-- **A second page can end the fetch with an exception**: one that exhausts the decoder's stack, or
one with an id that UTF-8 cannot encode. -/
theorem sync_fetch_raises :
    (∀ text, (secondServe text 0 loopCall.firstUrl).Gives loopLib loopPage) ∧
    pyInt loopLib (loopPage.get "numberMatched") = .ok 1 ∧
    (∀ url href, loopLib.urljoin url href ≠ none) ∧
    (syncRun loopLib ⟨660, ["cache/a/wis2/#"]⟩ loopCall (secondServe "deep") loopClock
      Redis.Db.empty).1 = .error .recursionError ∧
    (syncRun loopLib ⟨660, ["cache/a/wis2/#"]⟩ loopCall (secondServe "lone") loopClock
      Redis.Db.empty).1 = .error .unicodeEncodeError :=
  ⟨fun _ => ⟨200, "page", rfl, rfl⟩, rfl, fun _ _ => Option.some_ne_none _, rfl, rfl⟩

end Scgrep
