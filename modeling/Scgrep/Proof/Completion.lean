import Mathlib.Algebra.Order.Archimedean.Basic
import Mathlib.Algebra.Order.BigOperators.Group.Finset
import Scgrep.Lib.Variant
import Scgrep.Proof.Deadline

/-!
# Every cycle is completed

The threads of a cycle wait for one another: the main thread for every fetch, an
asynchronous fetch for the synchronous one of its cell, and all for the service.
`fair_published`: under a fair schedule the cycle is published, whatever the
service answers (also when each page links to another) and whatever is delivered.

`World.work` bounds the steps the threads have left, and every step of one of them
takes something from it (`step_work`). Past the deadline some thread can step
(`exists_able`).
-/

namespace Scgrep

open World

variable {E : Ctx}

/-! ## The steps that are left -/

def MainState.work (n : ℕ) : MainState → ℕ
  | .begin => 2 * n + 3
  | .counted => 2 * n + 2
  | .collecting k => 2 * n - k + 1
  | .published => 0

/-- Two steps a page, as long as the loop has turns. -/
def SyncState.work : SyncState → ℕ
  | .ready => 2 * maxPages + 3
  | .requested _ => 2 * maxPages + 2
  | .page p _ => 2 * (maxPages - p.turns) + 1
  | .waiting p _ => max 2 (2 * (maxPages - p.turns))
  | .finished _ => 0

def AsyncState.work : AsyncState → ℕ
  | .ready => 5
  | .registered _ => 4
  | .started _ _ => 3
  | .posted _ _ => 2
  | .waiting _ _ => 1
  | .finished _ => 0

/-- The steps the threads of a cycle over `n` cells have left. -/
def World.work (n : ℕ) (w : World) : ℕ :=
  w.main.work n + ∑ i ∈ Finset.range n, (w.sync i).work + ∑ i ∈ Finset.range n, (w.async i).work

theorem sum_update_lt {S : Type*} {n i : ℕ} (hi : i < n) (f : S → ℕ) (g : ℕ → S) {s : S}
    (h : f s < f (g i)) :
    ∑ j ∈ Finset.range n, f (Function.update g i s j) < ∑ j ∈ Finset.range n, f (g j) := by
  refine Finset.sum_lt_sum (fun j _ => ?_) ⟨i, Finset.mem_range.2 hi, ?_⟩
  · by_cases hj : j = i
    · subst hj; rw [Function.update_self]; exact h.le
    · rw [Function.update_of_ne hj]
  · rw [Function.update_self]; exact h

theorem work_setSync {n i : ℕ} (hi : i < n) (w : World) {s : SyncState}
    (h : s.work < (w.sync i).work) : (w.setSync i s).work n < w.work n := by
  have := sum_update_lt hi SyncState.work w.sync h
  change w.main.work n + _ + _ < _
  unfold World.work
  simp only [World.setSync]
  omega

theorem work_setAsync {n i : ℕ} (hi : i < n) (w : World) {s : AsyncState}
    (h : s.work < (w.async i).work) : (w.setAsync i s).work n < w.work n := by
  have := sum_update_lt hi AsyncState.work w.async h
  unfold World.work
  simp only [World.setAsync]
  omega

/-! ## What a step takes -/

/-- A step of a synchronous fetch takes from its work. -/
theorem SyncMove.work_lt {w : World} {cell : Cell} {s s' : SyncState} (h : SyncMove E w cell s s') :
    s'.work < s.work := by
  cases h with
  | start => simp only [SyncState.work]; omega
  | first start x =>
    rcases syncFirst_cases (L := E.L) (E.call cell) start w.now x with
      ⟨r, h, -⟩ | ⟨e, h, -⟩ | ⟨page, n, p, -, -, h, h0, -⟩ <;>
      rw [h] <;> simp only [SyncState.reached, SyncState.work] <;> omega
  | next p url x =>
    rcases syncNext_cases (L := E.L) p url x with ⟨out, h, -⟩ | ⟨e, h, -⟩ | ⟨page, status, -, h⟩ <;>
      rw [h] <;> simp only [SyncState.reached, SyncState.work] <;> omega
  | turn p q =>
    unfold Scgrep.syncTurn
    -- the loop asks for another page only while it has turns
    by_cases ht : maxPages ≤ p.turns
    · rw [if_pos ht]; simp only [SyncState.turned, SyncState.work]; omega
    rw [if_neg ht]
    split
    · simp only [SyncState.turned, SyncState.work]; omega
    dsimp only
    split
    · simp only [SyncState.turned, SyncState.work]; omega
    split
    · simp only [SyncState.turned, SyncState.work]; omega
    split
    · simp only [SyncState.turned, SyncState.work]; omega
    · simp only [SyncState.turned, SyncState.work]; omega

/-- So does a step of an asynchronous one. -/
theorem AsyncMove.work_lt {w : World} {i : ℕ} {cell : Cell} {s s' : AsyncState}
    (h : AsyncMove E w i cell s s') : s'.work < s.work := by
  cases h with
  | reply k start x =>
    rcases AsyncState.replied_cases k (asyncPost E.L (E.call cell) E.cfg.subscriberId
      E.brokerAuthorities start w.now x) with ⟨out, h⟩ | ⟨a, h⟩ <;>
      rw [h] <;> simp only [AsyncState.work] <;> omega
  | _ => simp only [AsyncState.work]; omega

/-- Where every thread stands. -/
def World.SameThreads (w w' : World) : Prop :=
  w'.main = w.main ∧ w'.sync = w.sync ∧ w'.async = w.async

/-- **A step** takes from the work that is left, or it leaves every thread where it stands. -/
theorem step_work (w : World) (e : Event) :
    w.SameThreads (w.step E e) ∨
      (w.step E e).work E.cfg.cells.length < w.work E.cfg.cells.length := by
  have hs := step_spec (E := E) w e
  generalize w.step E e = w' at hs
  have hcell : ∀ {i : ℕ} {cell : Cell}, w.Fetches E i cell → i < E.cfg.cells.length :=
    fun hi => (List.getElem?_eq_some_iff.1 hi.1).1
  cases hs with
  | readBaselines hm =>
    refine Or.inr ?_
    simp only [World.work, hm, MainState.work]; omega
  | clear hm =>
    refine Or.inr ?_
    simp only [World.work, hm, MainState.work]; omega
  | @collect k cell out hm hc hf =>
    have := (List.getElem?_eq_some_iff.1 hc).1
    refine Or.inr ?_
    simp only [World.work, hm, MainState.work]; omega
  | publish hm hk hd =>
    refine Or.inr ?_
    simp only [World.work, hm, MainState.work]; omega
  | @syncBegin i cell hi hr =>
    refine Or.inr (work_setSync (hcell hi) w ?_)
    rw [hr]; exact (@SyncMove.start E w cell).work_lt
  | @syncFirst i cell start x hi hr =>
    refine Or.inr (work_setSync (hcell hi) w ?_)
    rw [hr]; exact (SyncMove.first start x).work_lt
  | @syncNext i cell p url x hi hr =>
    refine Or.inr (work_setSync (hcell hi) w ?_)
    rw [hr]; exact (@SyncMove.next E w cell p url x).work_lt
  | @syncTurn i cell p page hi hr =>
    refine Or.inr (work_setSync (hcell hi) { w with db := turnDb E cell w p page } ?_)
    rw [hr]; exact (SyncMove.turn p page).work_lt
  | @register i cell hi ha =>
    refine Or.inr (work_setAsync (hcell hi) { w with reg := w.reg.register (E.channel cell) } ?_)
    rw [ha]; exact (@AsyncMove.register E w i cell).work_lt
  | @post i cell k hi ha =>
    refine Or.inr (work_setAsync (hcell hi) w ?_)
    rw [ha]; exact (@AsyncMove.post E w i cell k).work_lt
  | @postReply i cell k start x hi ha =>
    refine Or.inr (work_setAsync (hcell hi) w ?_)
    rw [ha]; exact (AsyncMove.reply (i := i) k start x).work_lt
  | @wait i cell k a out hi ha hs he =>
    refine Or.inr (work_setAsync (hcell hi) w ?_)
    rw [ha]; exact (AsyncMove.wait (E := E) k a out hs he).work_lt
  | @skip i cell k a out hi ha hs he =>
    refine Or.inr (work_setAsync (hcell hi) { w with reg := w.reg.unregister (E.channel cell) } ?_)
    rw [ha]; exact (AsyncMove.skip (E := E) k a out hs he).work_lt
  | @finish i cell k a hi ha hd =>
    refine Or.inr (work_setAsync (hcell hi) { w with reg := w.reg.unregister (E.channel cell) } ?_)
    rw [ha]; exact (@AsyncMove.finish E w i cell k a hd).work_lt
  | _ => exact Or.inl ⟨rfl, rfl, rfl⟩

/-! ## Acts that can be taken -/

/-- The fetches of a cell are submitted. -/
def World.Runs (E : Ctx) (w : World) (i : ℕ) : Prop := ∃ cell, w.Fetches E i cell

/-- The act would be a step of its thread. -/
def World.Able (E : Ctx) (w : World) : Act → Prop
  | .readBaselines => w.main = .begin
  | .clear => w.main = .counted
  | .collect => ∃ k, w.main = .collecting k ∧ k < 2 * E.cfg.cells.length ∧ w.future k ≠ none
  | .publish => w.main = .collecting (2 * E.cfg.cells.length) ∧ E.deadlineAt ≤ w.now
  | .syncBegin i => w.Runs E i ∧ w.sync i = .ready
  | .syncReply i => w.Runs E i ∧
      ((∃ s, w.sync i = .requested s) ∨ ∃ p url, w.sync i = .waiting p url)
  | .syncTurn i => w.Runs E i ∧ ∃ p page, w.sync i = .page p page
  | .register i => w.Runs E i ∧ w.async i = .ready
  | .post i => w.Runs E i ∧ ∃ k, w.async i = .registered k
  | .postReply i => w.Runs E i ∧ ∃ k s, w.async i = .started k s
  | .decide i => w.Runs E i ∧ (∃ k a, w.async i = .posted k a) ∧ (w.sync i).outcome? ≠ none
  | .finish i => w.Runs E i ∧ (∃ k a, w.async i = .waiting k a) ∧ E.deadlineAt ≤ w.now

/-- What can be done can still be done when every thread stands where it stood. -/
theorem able_later {w w' : World} {a : Act} (h : w.Able E a) (hs : w.SameThreads w')
    (hn : w.now ≤ w'.now) : w'.Able E a := by
  obtain ⟨hm, hsync, hasync⟩ := hs
  have hruns : ∀ {i}, w.Runs E i → w'.Runs E i := by
    rintro i ⟨cell, hc, hsub⟩
    refine ⟨cell, hc, ?_⟩
    unfold World.submitted at hsub ⊢
    rw [hm]; exact hsub
  have hfut : ∀ k, w'.future k = w.future k := by
    intro k
    unfold World.future
    rw [hsync, hasync]
  cases a with
  | readBaselines => exact hm.trans h
  | clear => exact hm.trans h
  | collect =>
    obtain ⟨k, hk, hlt, hf⟩ := h
    exact ⟨k, hm.trans hk, hlt, by rw [hfut]; exact hf⟩
  | publish => exact ⟨hm.trans h.1, h.2.trans hn⟩
  | syncBegin i => exact ⟨hruns h.1, by rw [hsync]; exact h.2⟩
  | syncReply i => exact ⟨hruns h.1, by rw [hsync]; exact h.2⟩
  | syncTurn i => exact ⟨hruns h.1, by rw [hsync]; exact h.2⟩
  | register i => exact ⟨hruns h.1, by rw [hasync]; exact h.2⟩
  | post i => exact ⟨hruns h.1, by rw [hasync]; exact h.2⟩
  | postReply i => exact ⟨hruns h.1, by rw [hasync]; exact h.2⟩
  | decide i => exact ⟨hruns h.1, by rw [hasync, hsync]; exact h.2⟩
  | finish i => exact ⟨hruns h.1, by rw [hasync]; exact h.2.1, h.2.2.trans hn⟩

theorem onCell_fetches {i : ℕ} {cell : Cell} {w : World} (hi : w.Fetches E i cell)
    (f : Cell → World → World) : w.onCell E i f = f cell w := by
  unfold World.onCell
  rw [hi.1]
  exact if_pos hi.2

theorem setSync_moves {w v : World} {i : ℕ} {s : SyncState} (h : s ≠ w.sync i) :
    ¬ w.SameThreads (v.setSync i s) := by
  intro hs
  have := congrFun hs.2.1 i
  rw [setSync_sync, if_pos rfl] at this
  exact h this

theorem setAsync_moves {w v : World} {i : ℕ} {s : AsyncState} (h : s ≠ w.async i) :
    ¬ w.SameThreads (v.setAsync i s) := by
  intro hs
  have := congrFun hs.2.2 i
  rw [setAsync_async, if_pos rfl] at this
  exact h this

/-- **An act that can be taken** moves its thread. -/
theorem able_moves {w : World} {a : Act} (h : w.Able E a) {e : Event} (he : e.act? = some a) :
    ¬ w.SameThreads (w.step E e) := by
  cases e with
  | tick d => cases he
  | deliver msg => cases he
  | readBaselines =>
    cases he
    intro hs
    have hm : w.main = .begin := h
    have := hs.1
    simp only [World.step, World.readBaselines, hm] at this
    cases this
  | clear =>
    cases he
    intro hs
    have hm : w.main = .counted := h
    have := hs.1
    simp only [World.step, World.clear, hm] at this
    cases this
  | collect =>
    cases he
    obtain ⟨k, hm, hlt, hf⟩ := h
    intro hs
    obtain ⟨out, hout⟩ := Option.ne_none_iff_exists'.1 hf
    have hc := List.getElem?_eq_getElem (l := E.cfg.cells) (i := k / 2) (by omega)
    have := hs.1
    simp only [World.step, World.collect, hm, hc, hout] at this
    cases this
  | publish =>
    cases he
    obtain ⟨hm, hd⟩ := h
    intro hs
    have := hs.1
    simp only [World.step, World.publish, hm, hd, and_self, if_true] at this
    cases this
  | syncBegin i =>
    cases he
    obtain ⟨⟨cell, hi⟩, hr⟩ := h
    simp only [World.step, onCell_fetches hi, World.syncBegin, hr]
    exact setSync_moves (by rw [hr]; exact fun h => by cases h)
  | syncReply i x =>
    cases he
    obtain ⟨⟨cell, hi⟩, ⟨s, hr⟩ | ⟨p, url, hr⟩⟩ := h
    · simp only [World.step, onCell_fetches hi, World.syncReply, hr]
      split <;> exact setSync_moves (by rw [hr]; exact fun h => by cases h)
    · simp only [World.step, onCell_fetches hi, World.syncReply, hr]
      split <;> exact setSync_moves (by rw [hr]; exact fun h => by cases h)
  | syncTurn i =>
    cases he
    obtain ⟨⟨cell, hi⟩, p, page, hr⟩ := h
    simp only [World.step, onCell_fetches hi, World.syncTurn, hr]
    split <;> exact setSync_moves (by rw [hr]; exact fun h => by cases h)
  | register i =>
    cases he
    obtain ⟨⟨cell, hi⟩, ha⟩ := h
    simp only [World.step, onCell_fetches hi, World.register, ha]
    exact setAsync_moves (by rw [ha]; exact fun h => by cases h)
  | post i =>
    cases he
    obtain ⟨⟨cell, hi⟩, k, ha⟩ := h
    simp only [World.step, onCell_fetches hi, World.post, ha]
    exact setAsync_moves (by rw [ha]; exact fun h => by cases h)
  | postReply i x =>
    cases he
    obtain ⟨⟨cell, hi⟩, k, s, ha⟩ := h
    simp only [World.step, onCell_fetches hi, World.postReply, ha]
    split <;> exact setAsync_moves (by rw [ha]; exact fun h => by cases h)
  | decide i =>
    cases he
    obtain ⟨⟨cell, hi⟩, ⟨k, a, ha⟩, hs⟩ := h
    obtain ⟨out, hout⟩ := Option.ne_none_iff_exists'.1 hs
    simp only [World.step, onCell_fetches hi, World.decide, ha, hout]
    split <;> exact setAsync_moves (by rw [ha]; exact fun h => by cases h)
  | finish i =>
    cases he
    obtain ⟨⟨cell, hi⟩, ⟨k, a, ha⟩, hd⟩ := h
    simp only [World.step, onCell_fetches hi, World.finish, ha, if_pos hd]
    exact setAsync_moves (by rw [ha]; exact fun h => by cases h)

/-! ## Some thread can step -/

/-- The main thread collects no more futures than there are. -/
theorem collecting_le (es : List Event) (w : World)
    (h : ∀ k, w.main = .collecting k → k ≤ 2 * E.cfg.cells.length) :
    ∀ k, (w.run E es).main = .collecting k → k ≤ 2 * E.cfg.cells.length := by
  refine run_keeps (P := fun w => ∀ k, w.main = .collecting k → k ≤ 2 * E.cfg.cells.length)
    (fun w e hw k hk => ?_) es w h
  rcases main_moved (E := E) w e with hm | ⟨-, hm⟩ | ⟨-, hm⟩ | ⟨k', -, hlt, -, hm⟩ | ⟨-, -, hm⟩
  · exact hw k (hm ▸ hk)
  · rw [hm] at hk; cases hk
  · rw [hm] at hk; cases hk; exact Nat.zero_le _
  · rw [hm] at hk; cases hk; exact hlt
  · rw [hm] at hk; cases hk

/-- A synchronous fetch that is not over can step, or its response can come. -/
theorem exists_sync_able {w : World} {i : ℕ} (hi : w.Runs E i) (h : (w.sync i).outcome? = none) :
    w.Able E (.syncBegin i) ∨ w.Able E (.syncReply i) ∨ w.Able E (.syncTurn i) := by
  cases hs : w.sync i with
  | ready => exact Or.inl ⟨hi, hs⟩
  | requested s => exact Or.inr (Or.inl ⟨hi, Or.inl ⟨s, hs⟩⟩)
  | page p page => exact Or.inr (Or.inr ⟨hi, p, page, hs⟩)
  | waiting p url => exact Or.inr (Or.inl ⟨hi, Or.inr ⟨p, url, hs⟩⟩)
  | finished out => rw [hs] at h; cases h

/-- The acts of the fetches of a cell. -/
theorem exists_fetch_able {w : World} {i : ℕ} (hi : w.Runs E i) (hd : E.deadlineAt ≤ w.now)
    (h : (w.sync i).outcome? = none ∨ (w.async i).outcome? = none) :
    ∃ a, w.Able E a ∧ ∀ n, i < n → a.Of n := by
  have hsync : (w.sync i).outcome? = none → ∃ a, w.Able E a ∧ ∀ n, i < n → a.Of n := by
    intro hs
    rcases exists_sync_able hi hs with h | h | h <;> exact ⟨_, h, fun n hn => hn⟩
  by_cases hs : (w.sync i).outcome? = none
  · exact hsync hs
  have ha := h.resolve_left hs
  cases hstate : w.async i with
  | ready => exact ⟨.register i, ⟨hi, hstate⟩, fun n hn => hn⟩
  | registered k => exact ⟨.post i, ⟨hi, k, hstate⟩, fun n hn => hn⟩
  | started k s => exact ⟨.postReply i, ⟨hi, k, s, hstate⟩, fun n hn => hn⟩
  | posted k a => exact ⟨.decide i, ⟨hi, ⟨k, a, hstate⟩, hs⟩, fun n hn => hn⟩
  | waiting k a => exact ⟨.finish i, ⟨hi, ⟨k, a, hstate⟩, hd⟩, fun n hn => hn⟩
  | finished out => rw [hstate] at ha; cases ha

/-- **Past the deadline some thread can step**, until the cycle is published. -/
theorem exists_able {w : World} (hk : ∀ k, w.main = .collecting k → k ≤ 2 * E.cfg.cells.length)
    (hd : E.deadlineAt ≤ w.now) (hm : w.main ≠ .published) :
    ∃ a, a.Of E.cfg.cells.length ∧ w.Able E a := by
  cases hmain : w.main with
  | begin => exact ⟨.readBaselines, trivial, hmain⟩
  | counted => exact ⟨.clear, trivial, hmain⟩
  | published => exact absurd hmain hm
  | collecting k =>
    by_cases hlt : k < 2 * E.cfg.cells.length
    · by_cases hf : w.future k = none
      · -- the future it waits for is that of a fetch that is not over
        have hi : k / 2 < E.cfg.cells.length := by omega
        have hruns : w.Runs E (k / 2) :=
          ⟨_, List.getElem?_eq_getElem hi, by unfold World.submitted; rw [hmain]⟩
        have hopen : (w.sync (k / 2)).outcome? = none ∨ (w.async (k / 2)).outcome? = none := by
          unfold World.future at hf
          split at hf
          · exact Or.inl hf
          · exact Or.inr hf
        obtain ⟨a, ha, hof⟩ := exists_fetch_able hruns hd hopen
        exact ⟨a, hof _ hi, ha⟩
      · exact ⟨.collect, trivial, k, hmain, hlt, hf⟩
    · have : k = 2 * E.cfg.cells.length := le_antisymm (hk k hmain) (not_lt.1 hlt)
      exact ⟨.publish, trivial, this ▸ hmain, hd⟩

theorem runTo_succ (w : World) (σ : ℕ → Event) (m : ℕ) :
    w.runTo E σ (m + 1) = (w.runTo E σ m).step E (σ m) := by
  unfold World.runTo
  rw [List.range_succ, List.map_append, run_append]
  rfl

theorem runTo_now_le (w : World) (σ : ℕ → Event) {m n : ℕ} (h : m ≤ n) :
    (w.runTo E σ m).now ≤ (w.runTo E σ n).now := by
  induction n, h using Nat.le_induction with
  | base => exact le_rfl
  | succ n _ ih =>
    rw [runTo_succ]
    exact ih.trans (now_run _ [σ n])

/-- **Every cycle is completed.** Under a fair schedule a cycle is published, however its
requests end and whatever else is delivered. Redis commands succeed, and the window is in the
years that `datetime` has. -/
theorem fair_published (db : Db) (reg : ReplayRegistry) (m : Metrics) (σ : ℕ → Event)
    (hσ : Fair E (World.init E db reg m) σ) :
    ∃ n, ((World.init E db reg m).runTo E σ n).main = .published := by
  obtain ⟨start, hstart⟩ := hσ.clock E.deadlineAt
  have hrule : Variant.Rule (fun n => (World.init E db reg m).runTo E σ n)
      (fun a n => (σ n).act? = some a) (World.work E.cfg.cells.length)
      (fun w => w.main = .published) (fun a w => a.Of E.cfg.cells.length ∧ w.Able E a) start := by
    refine ⟨fun n _ => ?_, fun n hn hg => ?_, fun n a _ ha hw => ?_, fun n a _ ha hact => ?_⟩
    · rw [runTo_succ]
      rcases step_work (E := E) ((World.init E db reg m).runTo E σ n) (σ n) with ⟨h1, h2, h3⟩ | h
      · unfold World.work; rw [h1, h2, h3]
      · exact h.le
    · exact exists_able (collecting_le _ _ fun k hk => by cases hk)
        (hstart.trans (runTo_now_le _ _ hn)) hg
    · rw [runTo_succ] at hw ⊢
      rcases step_work (E := E) ((World.init E db reg m).runTo E σ n) (σ n) with h | h
      · exact ⟨ha.1, able_later ha.2 h (now_run _ [σ n])⟩
      · exact absurd hw h.ne
    · rw [runTo_succ]
      exact (step_work _ _).resolve_left (able_moves ha.2 hact)
  obtain ⟨n, -, hn⟩ := hrule.exists_goal fun n a ha => hσ.again a ha.1 n
  exact ⟨n, hn⟩

/-! ## A fair schedule -/

/-- Every act of a cycle over one cell in turn, a second apart; no request is ever answered. -/
def everyAct : List Event :=
  [.tick 1, .readBaselines, .clear, .syncBegin 0, .syncReply 0 .fails, .syncTurn 0, .register 0,
    .post 0, .postReply 0 .fails, .decide 0, .finish 0, .collect, .publish]

def everyTurn (m : ℕ) : Event := everyAct.getD (m % 13) (.tick 1)

theorem everyTurn_at (m j : ℕ) (h : j < 13) : everyTurn (13 * m + j) = everyAct.getD j (.tick 1) := by
  unfold everyTurn
  rw [Nat.mul_add_mod, Nat.mod_eq_of_lt h]

theorem everyTurn_now (w : World) (k : ℕ) : w.now + k ≤ (w.runTo E everyTurn (13 * k)).now := by
  induction k with
  | zero => simp [World.runTo, World.run]
  | succ k ih =>
    have htick : (w.runTo E everyTurn (13 * k + 1)).now = (w.runTo E everyTurn (13 * k)).now + 1 := by
      rw [runTo_succ, now_step]
      rw [show everyTurn (13 * k) = .tick 1 from everyTurn_at k 0 (by omega)]
      simp [Event.clock]
    have hle := runTo_now_le (E := E) w everyTurn (show 13 * k + 1 ≤ 13 * (k + 1) by omega)
    push_cast
    linarith

theorem everyTurn_fair (hn : E.cfg.cells.length = 1) (w : World) : Fair E w everyTurn where
  clock t := by
    obtain ⟨k, hk⟩ := exists_nat_ge (t - w.now)
    exact ⟨13 * k, by linarith [everyTurn_now (E := E) w k]⟩
  again a ha m := by
    rw [hn] at ha
    have key : ∀ j, j < 13 → (everyAct.getD j (.tick 1)).act? = some a →
        ∃ n, m ≤ n ∧ (everyTurn n).act? = some a :=
      fun j hj h => ⟨13 * m + j, by omega, by rw [everyTurn_at m j hj]; exact h⟩
    have hi : ∀ i : ℕ, i < 1 → i = 0 := fun i h => by omega
    cases a with
    | readBaselines => exact key 1 (by omega) rfl
    | clear => exact key 2 (by omega) rfl
    | collect => exact key 11 (by omega) rfl
    | publish => exact key 12 (by omega) rfl
    | syncBegin i => exact key 3 (by omega) (by rw [hi i ha]; rfl)
    | syncReply i => exact key 4 (by omega) (by rw [hi i ha]; rfl)
    | syncTurn i => exact key 5 (by omega) (by rw [hi i ha]; rfl)
    | register i => exact key 6 (by omega) (by rw [hi i ha]; rfl)
    | post i => exact key 7 (by omega) (by rw [hi i ha]; rfl)
    | postReply i => exact key 8 (by omega) (by rw [hi i ha]; rfl)
    | decide i => exact key 9 (by omega) (by rw [hi i ha]; rfl)
    | finish i => exact key 10 (by omega) (by rw [hi i ha]; rfl)

theorem fair_published_sample :
    ∃ n, ((World.init ⟨sampleTables.lib, shippedConfig, 0, newYear⟩ Redis.Db.empty
      ReplayRegistry.new Metrics.new).runTo ⟨sampleTables.lib, shippedConfig, 0, newYear⟩
        everyTurn n).main = .published :=
  fair_published _ _ _ _ (everyTurn_fair rfl _)

end Scgrep
