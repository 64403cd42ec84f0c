import Scgrep.Spec.Fetch

/-!
# How the fetches end

* `syncFetch_result`, `asyncFetch_result`: the protocol of a result, and what an
  aborted one counts.
* `syncFetch_returns_iff`, `asyncFetch_returns_iff`: **when they return instead of
  raising**, in terms of what the service answers: the pages the loop is served
  (`Served`) and the clock at each turn.
-/

namespace Scgrep

variable {L : Lib} {c : FetchCall}

/-- The results of a protocol: one that was aborted counts nothing. -/
def ResultOf (p : Protocol) (r : FetchResult) : Prop :=
  r.protocol = p ∧ (r.aborted = true → r.messagesFetched = 0)

/-- The outcomes of a protocol: a result of it, or an exception. -/
def OutcomeOf (p : Protocol) (out : Outcome) : Prop := ∀ r, out = .ok r → ResultOf p r

theorem outcomeOf_error (p : Protocol) (e : PyErr) : OutcomeOf p (.error e) := by
  intro r h; cases h

theorem outcomeOf_finishPages (p : PageLoop) : OutcomeOf .http (finishPages p) := by
  intro r h; cases h; exact ⟨rfl, fun h => by cases h⟩

theorem outcomeOf_invalidFirst (ttfbMs : ℚ) (status : ℤ) :
    OutcomeOf .http (invalidFirst ttfbMs status) := by
  intro r h; cases h; exact ⟨rfl, fun h => by cases h⟩

/-! ## The pieces of the synchronous fetch -/

theorem syncFirst_inl {start now : ℚ} {x : Exchange} {out : Outcome}
    (h : syncFirst L c start now x = .inl out) : OutcomeOf .http out := by
  unfold syncFirst at h
  cases x with
  | fails => cases h; intro r h; cases h; exact ⟨rfl, fun _ => rfl⟩
  | broken s => cases h; exact outcomeOf_error _ _
  | answer s t =>
    dsimp only at h
    cases hl : L.loads t with
    | valueError => rw [hl] at h; cases h; exact outcomeOf_invalidFirst _ _
    | recursionError => rw [hl] at h; cases h; exact outcomeOf_error _ _
    | ok page =>
      rw [hl] at h
      dsimp only at h
      split at h
      · cases h; exact outcomeOf_invalidFirst _ _
      · split at h
        · cases h
        · cases h; exact outcomeOf_invalidFirst _ _
        · cases h; exact outcomeOf_invalidFirst _ _
        · cases h; exact outcomeOf_error _ _

theorem syncTurn_inl {now : ℚ} {p : PageLoop} {page : Json} {out : Outcome}
    (h : syncTurn L c now p page = .inl out) : OutcomeOf .http out := by
  unfold syncTurn at h
  split at h
  · cases h; exact outcomeOf_finishPages _
  split at h
  · cases h; exact outcomeOf_error _ _
  dsimp only at h
  split at h
  · cases h; exact outcomeOf_finishPages _
  split at h
  · cases h; exact outcomeOf_finishPages _
  split at h
  · cases h; exact outcomeOf_error _ _
  · cases h

theorem syncNext_inl {p : PageLoop} {url : String} {x : Exchange} {out : Outcome}
    (h : syncNext L p url x = .inl out) : OutcomeOf .http out := by
  unfold syncNext at h
  cases x with
  | fails => cases h; exact outcomeOf_finishPages _
  | broken s => cases h; exact outcomeOf_finishPages _
  | answer s t =>
    dsimp only at h
    cases hl : L.loads t with
    | valueError => rw [hl] at h; cases h; exact outcomeOf_finishPages _
    | recursionError => rw [hl] at h; cases h; exact outcomeOf_error _ _
    | ok page => rw [hl] at h; cases h

theorem syncPages_outcome (σ : SyncScript) (n : ℕ) : ∀ (p : PageLoop) (page : Json),
    OutcomeOf .http (syncPages L c σ n p page) := by
  induction n with
  | zero => intro p page; exact outcomeOf_finishPages p
  | succ n ih =>
    intro p page
    unfold syncPages
    cases ht : syncTurn L c (σ.turnAt p.turns) p page with
    | inl out => exact syncTurn_inl ht
    | inr q =>
      obtain ⟨p', url⟩ := q
      dsimp only
      cases hn : syncNext L p' url (σ.exchange (p'.turns + 1)) with
      | inl out => exact syncNext_inl hn
      | inr q => exact ih q.1 q.2

/-- **A synchronous fetch** gives an `http` result, and counts nothing when aborted. -/
theorem syncFetch_result (c : FetchCall) (σ : SyncScript) : OutcomeOf .http (syncFetch L c σ) := by
  unfold syncFetch
  cases h : syncFirst L c σ.start σ.firstAt (σ.exchange 0) with
  | inl out => exact syncFirst_inl h
  | inr q => exact syncPages_outcome σ maxPages q.1 q.2

theorem resultOf_unexpected (a : PostState) : ResultOf .mqtt (unexpectedResult a) :=
  ⟨rfl, fun h => by cases h⟩

theorem resultOf_asyncFinish (c : FetchCall) (a : PostState) (counter : ReplayCounter) :
    ResultOf .mqtt (asyncFinish c a counter) := by
  unfold asyncFinish
  split
  · exact ⟨rfl, fun _ => rfl⟩
  · exact ⟨rfl, fun h => by cases h⟩

/-- **An asynchronous fetch** gives an `mqtt` result, and counts nothing when aborted. -/
theorem asyncFetch_result (c : FetchCall) (subscriberId : String) (brokerAuthorities : List String)
    (baseline : ℕ) (numberMatched : Option ℤ) (σ : AsyncScript) :
    OutcomeOf .mqtt (asyncFetch L c subscriberId brokerAuthorities baseline numberMatched σ) := by
  unfold asyncFetch
  intro r h
  split at h
  · cases h
  · split at h
    · cases h; exact resultOf_asyncFinish _ _ _
    · cases h; exact resultOf_unexpected _

/-! ## When they raise -/

/-- The body of an answer can be decoded without exhausting the stack. -/
def Exchange.Decodes (L : Lib) (x : Exchange) : Prop :=
  ∀ status text, x = .answer status text → L.loads text ≠ .recursionError

/-- The page is decoded from the answer. -/
def Exchange.Gives (L : Lib) (x : Exchange) (page : Json) : Prop :=
  ∃ status text, x = .answer status text ∧ L.loads text = .ok page

/-- **An asynchronous fetch returns** iff the answer to its POST can be decoded. -/
theorem asyncFetch_returns_iff (c : FetchCall) (subscriberId : String)
    (brokerAuthorities : List String) (baseline : ℕ) (numberMatched : Option ℤ) (σ : AsyncScript) :
    (∃ r, asyncFetch L c subscriberId brokerAuthorities baseline numberMatched σ = .ok r) ↔
      σ.exchange.Decodes L := by
  have hret : ∀ a : PostState, ∃ r, (if expectMessages numberMatched baseline then
      (.ok (asyncFinish c a σ.counter) : Outcome) else .ok (unexpectedResult a)) = .ok r := by
    intro a
    split <;> exact ⟨_, rfl⟩
  unfold asyncFetch asyncPost Exchange.Decodes
  cases σ.exchange with
  | fails => exact ⟨fun _ s t h => (by cases h), fun _ => hret _⟩
  | broken s => exact ⟨fun _ s t h => (by cases h), fun _ => hret _⟩
  | answer s t =>
    cases hl : L.loads t with
    | valueError =>
      dsimp only; rw [hl]
      exact ⟨fun _ s' t' h => (by cases h; rw [hl]; exact fun h => by cases h), fun _ => hret _⟩
    | recursionError =>
      dsimp only; rw [hl]
      exact ⟨fun ⟨r, h⟩ => (by cases h), fun h => absurd hl (h s t rfl)⟩
    | ok metadata =>
      dsimp only; rw [hl]
      refine ⟨fun _ s' t' h => (by cases h; rw [hl]; exact fun h => by cases h), fun _ => ?_⟩
      dsimp only
      split
      · rename_i h; split at h <;> cases h
      · exact hret _

/-- A page and the URL it came from, as the loop is served them from its `k₀`-th turn on: each
next one is linked by the one before, in time, and answered by something that decodes. -/
inductive Served (L : Lib) (c : FetchCall) (σ : SyncScript) (k₀ : ℕ) (url₀ : String) (page₀ : Json) :
    ℕ → String → Json → Prop where
  | first : Served L c σ k₀ url₀ page₀ k₀ url₀ page₀
  | next {k : ℕ} {url href nextUrl : String} {page page' : Json} :
      Served L c σ k₀ url₀ page₀ k url page → k < maxPages → nextPageHref page = some href →
      σ.turnAt k < c.deadlineAt → L.urljoin url href = some nextUrl →
      (σ.exchange (k + 1)).Gives L page' → Served L c σ k₀ url₀ page₀ (k + 1) nextUrl page'

theorem Served.le {σ : SyncScript} {k₀ k : ℕ} {url₀ url : String} {page₀ page : Json}
    (h : Served L c σ k₀ url₀ page₀ k url page) : k₀ ≤ k := by
  induction h with
  | first => exact le_rfl
  | next _ _ _ _ _ _ ih => omega

/-- From the second page on. -/
theorem Served.tail {σ : SyncScript} {k₀ k : ℕ} {url₀ url₁ href url : String}
    {page₀ page₁ page : Json} (h1 : k₀ < maxPages) (h2 : nextPageHref page₀ = some href)
    (h3 : σ.turnAt k₀ < c.deadlineAt) (h4 : L.urljoin url₀ href = some url₁)
    (h5 : (σ.exchange (k₀ + 1)).Gives L page₁)
    (h : Served L c σ (k₀ + 1) url₁ page₁ k url page) : Served L c σ k₀ url₀ page₀ k url page := by
  induction h with
  | first => exact Served.first.next h1 h2 h3 h4 h5
  | next _ g1 g2 g3 g4 g5 ih => exact ih.next g1 g2 g3 g4 g5

theorem Served.head {σ : SyncScript} {k₀ k : ℕ} {url₀ url : String} {page₀ page : Json}
    (h : Served L c σ k₀ url₀ page₀ k url page) :
    (k = k₀ ∧ url = url₀ ∧ page = page₀) ∨
      ∃ href url₁ page₁, nextPageHref page₀ = some href ∧ L.urljoin url₀ href = some url₁ ∧
        (σ.exchange (k₀ + 1)).Gives L page₁ ∧ Served L c σ (k₀ + 1) url₁ page₁ k url page := by
  induction h with
  | first => exact Or.inl ⟨rfl, rfl, rfl⟩
  | next _ g1 g2 g3 g4 g5 ih =>
    rcases ih with ⟨rfl, rfl, rfl⟩ | ⟨href, url₁, page₁, h2, h4, h5, ih⟩
    · exact Or.inr ⟨_, _, _, g2, g4, g5, Served.first⟩
    · exact Or.inr ⟨href, url₁, page₁, h2, h4, h5, ih.next g1 g2 g3 g4 g5⟩

/-- After a page without a successor in time the loop is served no other. -/
theorem Served.only_first {σ : SyncScript} {k₀ k : ℕ} {url₀ url : String} {page₀ page : Json}
    (hno : ∀ href, nextPageHref page₀ = some href → ¬ σ.turnAt k₀ < c.deadlineAt)
    (h : Served L c σ k₀ url₀ page₀ k url page) : k = k₀ ∧ url = url₀ ∧ page = page₀ := by
  induction h with
  | first => exact ⟨rfl, rfl, rfl⟩
  | next _ g1 g2 g3 _ _ ih =>
    obtain ⟨rfl, rfl, rfl⟩ := ih
    exact absurd g3 (hno _ g2)

/-- No feature of the page is refused. -/
def PageEncodes (L : Lib) (page : Json) : Prop :=
  ∀ feature ∈ pageFeatures page, featureRefused L feature = false

theorem countFeatures_ok {page : Json} (h : PageEncodes L page) :
    countFeatures L page = .ok (pageFeatures page).length := by
  have hany : (pageFeatures page).any (featureRefused L) = false :=
    List.any_eq_false.2 fun feature hf => by rw [h feature hf]; exact Bool.false_ne_true
  unfold countFeatures
  rw [hany]
  rfl

theorem countFeatures_error {page : Json} (h : ¬ PageEncodes L page) :
    countFeatures L page = .error .unicodeEncodeError := by
  have hany : (pageFeatures page).any (featureRefused L) = true := by
    unfold PageEncodes at h
    push Not at h
    obtain ⟨feature, hf, hr⟩ := h
    exact List.any_eq_true.2 ⟨feature, hf, Bool.eq_true_of_not_eq_false hr⟩
  unfold countFeatures
  rw [hany]
  rfl

/-- All features of such a page are stored. -/
theorem storedFeatures_eq {page : Json} (h : PageEncodes L page) :
    storedFeatures L page = pageFeatures page := by
  unfold storedFeatures
  refine List.takeWhile_eq_self_iff.2 fun feature hf => ?_
  rw [h feature hf]
  rfl

/-- In its `k`-th turn the loop can store the page and go on to the next one, if it does. -/
def TurnFine (L : Lib) (c : FetchCall) (σ : SyncScript) (k : ℕ) (url : String) (page : Json) : Prop :=
  k < maxPages → PageEncodes L page ∧
    ∀ href, nextPageHref page = some href → σ.turnAt k < c.deadlineAt →
      L.urljoin url href ≠ none ∧ (σ.exchange (k + 1)).Decodes L

/-- A page without a successor in time ends the loop. -/
theorem TurnFine.of_no_next {σ : SyncScript} {k₀ : ℕ} {url₀ : String} {page₀ : Json}
    (henc : PageEncodes L page₀)
    (hno : ∀ href, nextPageHref page₀ = some href → ¬ σ.turnAt k₀ < c.deadlineAt) (k : ℕ)
    (url : String) (page : Json) (h : Served L c σ k₀ url₀ page₀ k url page) :
    TurnFine L c σ k url page := by
  obtain ⟨rfl, rfl, rfl⟩ := h.only_first hno
  exact fun _ => ⟨henc, fun href hh ht => absurd ht (hno href hh)⟩

/-- The answer to the first request can be read and decoded, and so can every page after it. -/
structure SyncFine (L : Lib) (c : FetchCall) (σ : SyncScript) : Prop where
  body : ∀ status, σ.exchange 0 ≠ .broken status
  decodes : (σ.exchange 0).Decodes L
  finite : ∀ page, (σ.exchange 0).Gives L page →
    pyInt L (page.get "numberMatched") ≠ .error .overflowError
  turns : ∀ page n, (σ.exchange 0).Gives L page → pyInt L (page.get "numberMatched") = .ok n →
    ∀ k url page', Served L c σ 0 c.firstUrl page k url page' → TurnFine L c σ k url page'

theorem Exchange.Gives.decodes {x : Exchange} {page : Json} (h : x.Gives L page) : x.Decodes L := by
  obtain ⟨s, t, rfl, hl⟩ := h
  intro s' t' he
  cases he
  rw [hl]; exact fun h => by cases h

theorem Exchange.Gives.unique {x : Exchange} {page page' : Json} (h : x.Gives L page)
    (h' : x.Gives L page') : page = page' := by
  obtain ⟨s, t, rfl, hl⟩ := h
  obtain ⟨s', t', he, hl'⟩ := h'
  cases he
  rw [hl] at hl'; cases hl'; rfl

/-- A first answer with a number enters the loop with its page. -/
theorem syncFirst_page {start now : ℚ} {x : Exchange} {page : Json} {N : ℤ}
    (hg : x.Gives L page) (hN : pyInt L (page.get "numberMatched") = .ok N) :
    ∃ status, syncFirst L c start now x =
      .inr (⟨c.firstUrl, 0, 0, N, (now - start) * 1000, status⟩, page) := by
  obtain ⟨s, t, rfl, hl⟩ := hg
  have hnone : (page.get "numberMatched").isNone = false := by
    cases hv : page.get "numberMatched" with
    | null => rw [hv] at hN; cases hN
    | _ => rfl
  refine ⟨s, ?_⟩
  simp only [syncFirst, hl, hnone, hN]
  rfl

/-- A next answer that gives a page goes on with it. -/
theorem syncNext_page (p : PageLoop) (url : String) {x : Exchange} {page : Json} (hg : x.Gives L page) :
    ∃ status, syncNext L p url x =
      .inr ({ p with lastStatus := status, pageUrl := url, turns := p.turns + 1 }, page) := by
  obtain ⟨s, text, rfl, hl⟩ := hg
  refine ⟨s, ?_⟩
  simp only [syncNext, hl]

/-- One that gives none ends the loop. -/
theorem syncNext_stop (p : PageLoop) (url : String) {x : Exchange} (hdec : x.Decodes L)
    (hno : ∀ page, ¬ x.Gives L page) :
    ∃ status, syncNext L p url x = .inl (finishPages { p with lastStatus := status }) := by
  cases x with
  | fails => exact ⟨p.lastStatus, rfl⟩
  | broken s => exact ⟨p.lastStatus, rfl⟩
  | answer s text =>
    refine ⟨s, ?_⟩
    cases hl : L.loads text with
    | ok page => exact absurd ⟨s, text, rfl, hl⟩ (hno page)
    | valueError => simp only [syncNext, hl]
    | recursionError => exact absurd hl (hdec s text rfl)

/-- What a request for the next page leads to. -/
theorem syncNext_cases (p : PageLoop) (url : String) (x : Exchange) :
    (∃ out, syncNext L p url x = .inl (.ok out) ∧ x.Decodes L ∧ ∀ page, ¬ x.Gives L page) ∨
      (∃ e, syncNext L p url x = .inl (.error e) ∧ ¬ x.Decodes L) ∨
      ∃ page status, x.Gives L page ∧ syncNext L p url x =
        .inr ({ p with lastStatus := status, pageUrl := url, turns := p.turns + 1 }, page) := by
  by_cases hgives : ∃ page, x.Gives L page
  · obtain ⟨page, hg⟩ := hgives
    obtain ⟨status, hs⟩ := syncNext_page p url hg
    exact Or.inr (Or.inr ⟨page, status, hg, hs⟩)
  have hno := not_exists.1 hgives
  by_cases hdec : x.Decodes L
  · obtain ⟨status, hs⟩ := syncNext_stop p url hdec hno
    exact Or.inl ⟨_, hs, hdec, hno⟩
  · refine Or.inr (Or.inl ⟨.recursionError, ?_, hdec⟩)
    unfold Exchange.Decodes at hdec
    push Not at hdec
    obtain ⟨s, text, rfl, hl⟩ := hdec
    simp only [syncNext, hl]

/-- **The page loop returns** iff every turn it comes to is fine. -/
theorem syncPages_returns_iff (σ : SyncScript) (n : ℕ) : ∀ (p : PageLoop) (page : Json),
    p.turns + n = maxPages →
    ((∃ r, syncPages L c σ n p page = .ok r) ↔
      ∀ k url page', Served L c σ p.turns p.pageUrl page k url page' → TurnFine L c σ k url page') := by
  induction n with
  | zero =>
    intro p page hn
    refine ⟨fun _ k url page' h hk => ?_, fun _ => ⟨_, rfl⟩⟩
    have := h.le
    omega
  | succ n ih =>
    intro p page hn
    have hlt : p.turns < maxPages := by omega
    unfold syncPages syncTurn
    rw [if_neg (by omega)]
    by_cases henc : PageEncodes L page
    swap
    · rw [countFeatures_error henc]
      refine iff_of_false (fun ⟨r, h⟩ => by cases h) fun h => ?_
      exact henc (h _ _ _ Served.first hlt).1
    rw [countFeatures_ok henc]
    dsimp only
    cases hh : nextPageHref page with
    | none =>
      exact iff_of_true ⟨_, rfl⟩ (TurnFine.of_no_next henc fun href h => by rw [hh] at h; cases h)
    | some href =>
      dsimp only
      by_cases hd : c.deadlineAt ≤ σ.turnAt p.turns
      · rw [if_pos hd]
        exact iff_of_true ⟨_, rfl⟩ (TurnFine.of_no_next henc fun _ _ => not_lt.2 hd)
      rw [if_neg hd]
      have hd' := not_le.1 hd
      cases hu : L.urljoin p.pageUrl href with
      | none =>
        refine iff_of_false (fun ⟨r, h⟩ => by cases h) fun h => ?_
        exact ((h _ _ _ Served.first hlt).2 href hh hd').1 hu
      | some url =>
        dsimp only
        rcases syncNext_cases (L := L) { p with messagesSeen := p.messagesSeen + (pageFeatures page).length } url
          (σ.exchange (p.turns + 1)) with ⟨out, hs, hdec, hno⟩ | ⟨e, hs, hdec⟩ | ⟨page₁, st, hg, hs⟩
        · rw [hs]
          refine iff_of_true ⟨out, rfl⟩ fun k url' page' h => ?_
          rcases h.head with ⟨rfl, rfl, rfl⟩ | ⟨_, _, page₁, -, -, hg, -⟩
          · refine fun _ => ⟨henc, fun href' hh' _ => ?_⟩
            rw [hh] at hh'; cases hh'
            exact ⟨by rw [hu]; exact Option.some_ne_none url, hdec⟩
          · exact absurd hg (hno page₁)
        · rw [hs]
          refine iff_of_false (fun ⟨r, h⟩ => by cases h) fun h => ?_
          exact hdec ((h _ _ _ Served.first hlt).2 href hh hd').2
        · rw [hs]
          dsimp only
          rw [ih _ page₁ (by dsimp only; omega)]
          dsimp only
          constructor
          · intro h k url' page' hk
            rcases hk.head with ⟨rfl, rfl, rfl⟩ | ⟨href', url₁, page₁', hh', hu', hg', hk'⟩
            · refine fun _ => ⟨henc, fun href' hh' _ => ?_⟩
              rw [hh] at hh'; cases hh'
              exact ⟨by rw [hu]; exact Option.some_ne_none url, hg.decodes⟩
            · rw [hh] at hh'; cases hh'
              rw [hu] at hu'; cases hu'
              rw [hg.unique hg'] at h
              exact h k url' page' hk'
          · intro h k url' page' hk
            exact h k url' page' (hk.tail hlt hh hd' hu hg)

theorem pyInt_error (v : Json) (e : PyErr) (h : pyInt L v = .error e) :
    e = .valueError ∨ e = .typeError ∨ e = .overflowError := by
  cases v with
  | float x => cases x <;> cases h <;> simp
  | str s =>
    unfold pyInt at h
    dsimp only at h
    split at h
    · cases h
    · cases h; simp
  | _ => cases h <;> simp

/-- What the first response leads to. -/
theorem syncFirst_cases (c : FetchCall) (start now : ℚ) (x : Exchange) :
    (∃ r, syncFirst L c start now x = .inl (.ok r) ∧ (∀ s, x ≠ .broken s) ∧ x.Decodes L ∧
        ∀ page, x.Gives L page → ∃ e, pyInt L (page.get "numberMatched") = .error e ∧ e ≠ .overflowError) ∨
      (∃ e, syncFirst L c start now x = .inl (.error e) ∧ ((∃ s, x = .broken s) ∨ ¬ x.Decodes L ∨
        ∃ page, x.Gives L page ∧ pyInt L (page.get "numberMatched") = .error .overflowError)) ∨
      ∃ page n p, x.Gives L page ∧ pyInt L (page.get "numberMatched") = .ok n ∧
        syncFirst L c start now x = .inr (p, page) ∧ p.turns = 0 ∧ p.pageUrl = c.firstUrl := by
  cases x with
  | fails =>
    exact Or.inl ⟨_, rfl, fun s h => (by cases h), fun s t h => (by cases h),
      fun page ⟨s, t, h, _⟩ => by cases h⟩
  | broken s => exact Or.inr (Or.inl ⟨_, rfl, Or.inl ⟨s, rfl⟩⟩)
  | answer s t =>
    have hbody : ∀ s', Exchange.answer s t ≠ .broken s' := fun s' h => by cases h
    have hdec : L.loads t ≠ .recursionError → (Exchange.answer s t).Decodes L := by
      intro h s' t' he; cases he; exact h
    cases hl : L.loads t with
    | valueError =>
      refine Or.inl ⟨_, by simp only [syncFirst, hl]; rfl, hbody, hdec (by rw [hl]; simp), ?_⟩
      rintro page ⟨s', t', h, h'⟩; cases h; rw [hl] at h'; cases h'
    | recursionError =>
      exact Or.inr (Or.inl ⟨_, by simp only [syncFirst, hl]; rfl, Or.inr (Or.inl fun h => h s t rfl hl)⟩)
    | ok page =>
      have hg : (Exchange.answer s t).Gives L page := ⟨s, t, rfl, hl⟩
      cases hp : pyInt L (page.get "numberMatched") with
      | ok n =>
        have hnone : (page.get "numberMatched").isNone = false := by
          cases hv : page.get "numberMatched" with
          | null => rw [hv] at hp; cases hp
          | _ => rfl
        refine Or.inr (Or.inr ⟨page, n, ⟨c.firstUrl, 0, 0, n, (now - start) * 1000, s⟩, hg, hp, ?_, rfl, rfl⟩)
        simp only [syncFirst, hl, hnone, hp]; rfl
      | error e =>
        have hinv : e ≠ .overflowError → ∃ r, syncFirst L c start now (.answer s t) = .inl (.ok r) := by
          intro hne
          simp only [syncFirst, hl, hp]
          split
          · exact ⟨_, rfl⟩
          · rcases pyInt_error _ e hp with rfl | rfl | rfl
            · exact ⟨_, rfl⟩
            · exact ⟨_, rfl⟩
            · exact absurd rfl hne
        by_cases hne : e = .overflowError
        · subst hne
          have hnone : (page.get "numberMatched").isNone = false := by
            cases hv : page.get "numberMatched" with
            | null => rw [hv] at hp; cases hp
            | _ => rfl
          refine Or.inr (Or.inl ⟨_, by simp only [syncFirst, hl, hnone, hp]; rfl, ?_⟩)
          exact Or.inr (Or.inr ⟨page, hg, hp⟩)
        · obtain ⟨r, hr⟩ := hinv hne
          refine Or.inl ⟨r, hr, hbody, hdec (by rw [hl]; simp), fun page' hg' => ⟨e, ?_, hne⟩⟩
          rw [hg'.unique hg, hp]

/-- **A synchronous fetch returns** iff every answer it comes to is fine. -/
theorem syncFetch_returns_iff (c : FetchCall) (σ : SyncScript) :
    (∃ r, syncFetch L c σ = .ok r) ↔ SyncFine L c σ := by
  unfold syncFetch
  rcases syncFirst_cases (L := L) c σ.start σ.firstAt (σ.exchange 0) with
    ⟨r, hs, hb, hd, hno⟩ | ⟨e, hs, hbad⟩ | ⟨page, n, p, hg, hn, hs, h0, hu⟩
  · rw [hs]
    refine iff_of_true ⟨r, rfl⟩ ⟨hb, hd, ?_, ?_⟩
    · intro page hg
      obtain ⟨e, he, hne⟩ := hno page hg
      rw [he]; exact fun h => hne (Except.error.inj h)
    · intro page n hg hn
      obtain ⟨e, he, -⟩ := hno page hg
      rw [he] at hn; cases hn
  · rw [hs]
    refine iff_of_false (fun ⟨r, h⟩ => by cases h) fun h => ?_
    rcases hbad with ⟨s, hb⟩ | hd | ⟨page, hg, ho⟩
    · exact h.body s hb
    · exact hd h.decodes
    · exact h.finite page hg ho
  · rw [hs]
    dsimp only
    rw [syncPages_returns_iff σ maxPages p page (by rw [h0, Nat.zero_add]), h0, hu]
    constructor
    · intro h
      refine ⟨fun s hb => ?_, hg.decodes, ?_, ?_⟩
      · obtain ⟨s', t, ha, -⟩ := hg
        rw [hb] at ha; cases ha
      · intro page' hg' ho
        rw [hg'.unique hg, hn] at ho; cases ho
      · intro page' n' hg' _
        rw [hg'.unique hg]; exact h
    · intro h; exact h.turns page n hg hn

end Scgrep
