import Mathlib.Tactic.Linarith
import Mathlib.Data.List.Chain
import Scgrep.Lib.Redis

/-!
# Deduplicated and plain indexing with retention

A consumer of deliveries keeps, in one keyspace, a marker for each identifier
(`SET NX EX`) and a sorted set. A delivery whose marker is absent is marked and,
if it is a **hit**, indexed: scored, with everything older than the retention
time pruned and the expiry of the set renewed. A delivery whose marker is there
is dropped. (`run`)

* `mem_retained`: **no hit is lost.** With a clock that never goes back, one score
  per identifier and no score more than `slack` ahead of the clock, the set holds
  exactly the delivered hits in every range above `now - ttl + slack`.
* `mem_first`: within one retention period the set holds the identifiers whose
  first delivery is a hit.
* `zscore_touched`: what a set that is only scored and renewed holds (`Kept`).
* `mem_touched`: within one retention period that is every identifier with a hit.
* `zscore_hits`: **and it holds the last scores.**
-/

namespace Retention

open Redis

/-- A delivery: when, which identifier, its score, a text, and whether the set indexes it. -/
structure Delivery (σ μ K : Type*) where
  now : K
  id : μ
  score : K
  text : σ
  hit : Bool

/-- The markers and the set. -/
@[ext] structure State (σ μ K : Type*) where
  marks : μ → Slot σ μ K
  set : Slot σ μ K

/-- Nothing stored. -/
def State.empty {σ μ K : Type*} : State σ μ K := ⟨fun _ => none, none⟩

variable {σ μ K : Type*} [DecidableEq μ] [Field K] [LinearOrder K]

/-- One delivery. -/
def step (ttl : K) (s : State σ μ K) (d : Delivery σ μ K) : State σ μ K :=
  match setNxEx d.now d.text ttl (s.marks d.id) with
  | (false, _) => s
  | (true, mark) =>
    { marks := Function.update s.marks d.id mark
      set := if d.hit then index d.now d.id d.score (d.now - ttl) ttl s.set else s.set }

/-- All deliveries, on nothing. -/
def run (ttl : K) (ds : List (Delivery σ μ K)) : State σ μ K := ds.foldl (step ttl) State.empty

/-- Deliveries without markers and pruning. -/
def touchStep (ttl : K) (o : Slot σ μ K) (d : Delivery σ μ K) : Slot σ μ K :=
  if d.hit then touch d.now d.id d.score ttl o else o

/-- All deliveries, on an absent set. -/
def touched (ttl : K) (ds : List (Delivery σ μ K)) : Slot σ μ K := ds.foldl (touchStep ttl) none

/-! ## One step -/

theorem step_marked {ttl : K} {s : State σ μ K} {d : Delivery σ μ K} {e : Entry σ μ K}
    (h : purge d.now (s.marks d.id) = some e) : step ttl s d = s := by
  simp only [step, setNxEx, h]

theorem step_unmarked {ttl : K} {s : State σ μ K} {d : Delivery σ μ K}
    (h : purge d.now (s.marks d.id) = none) :
    step ttl s d =
      { marks := Function.update s.marks d.id (some ⟨.str d.text, some (d.now + ttl)⟩)
        set := if d.hit then index d.now d.id d.score (d.now - ttl) ttl s.set else s.set } := by
  simp only [step, setNxEx, h]

theorem run_append (ttl : K) (ds : List (Delivery σ μ K)) (d : Delivery σ μ K) :
    run ttl (ds ++ [d]) = step ttl (run ttl ds) d := by
  simp [run, List.foldl_append]

theorem touched_append (ttl : K) (ds : List (Delivery σ μ K)) (d : Delivery σ μ K) :
    touched ttl (ds ++ [d]) = touchStep ttl (touched ttl ds) d := by
  simp [touched, List.foldl_append]

/-- The clock never goes back. -/
def Clocked (ds : List (Delivery σ μ K)) : Prop := ds.Pairwise fun a b => a.now ≤ b.now

/-- An identifier has one score. -/
def OneScore (ds : List (Delivery σ μ K)) : Prop :=
  ∀ d ∈ ds, ∀ e ∈ ds, d.id = e.id → d.score = e.score

/-- An identifier is always or never a hit. -/
def OneHit (ds : List (Delivery σ μ K)) : Prop :=
  ∀ d ∈ ds, ∀ e ∈ ds, d.id = e.id → d.hit = e.hit

/-- A marker is there only for a delivered identifier. -/
theorem marked_delivered (ttl : K) (ds : List (Delivery σ μ K)) {m : μ} {e : Entry σ μ K}
    (h : (run ttl ds).marks m = some e) : ∃ d ∈ ds, d.id = m := by
  induction ds using List.reverseRecOn with
  | nil => cases h
  | append_singleton ds d ih =>
    rw [run_append] at h
    cases hp : purge d.now ((run ttl ds).marks d.id) with
    | some e' =>
      rw [step_marked hp] at h
      obtain ⟨d', hd', hm⟩ := ih h
      exact ⟨d', List.mem_append_left _ hd', hm⟩
    | none =>
      rw [step_unmarked hp] at h
      by_cases hm : m = d.id
      · exact ⟨d, List.mem_append_right _ (by simp), hm.symm⟩
      · simp only [Function.update_of_ne hm] at h
        obtain ⟨d', hd', hm'⟩ := ih h
        exact ⟨d', List.mem_append_left _ hd', hm'⟩

theorem notStr_run (ttl : K) (ds : List (Delivery σ μ K)) : NotStr (run ttl ds).set := by
  induction ds using List.reverseRecOn with
  | nil => intro x t h; cases h
  | append_singleton ds d ih =>
    rw [run_append]
    cases hp : purge d.now ((run ttl ds).marks d.id) with
    | some e => rw [step_marked hp]; exact ih
    | none =>
      rw [step_unmarked hp]
      dsimp only
      split
      · exact ih.index _ _ _ _ _
      · exact ih

theorem notStr_touched (ttl : K) (ds : List (Delivery σ μ K)) :
    NotStr (touched ttl ds) := by
  induction ds using List.reverseRecOn with
  | nil => intro x t h; cases h
  | append_singleton ds d ih =>
    rw [touched_append]
    unfold touchStep
    split
    · exact ih.touch _ _ _ _
    · exact ih

/-- What the set holds was delivered as a hit, with that score. -/
theorem held_delivered (ttl : K) (ds : List (Delivery σ μ K)) {z : Dict μ K} {t : Option K} {m : μ}
    {s : K} (h : (run ttl ds).set = some ⟨.zset z, t⟩) (hm : z.get? m = some s) :
    ∃ d ∈ ds, d.id = m ∧ d.hit = true ∧ d.score = s := by
  induction ds using List.reverseRecOn generalizing z t with
  | nil => cases h
  | append_singleton ds d ih =>
    have old : ∀ {z t}, (run ttl ds).set = some ⟨.zset z, t⟩ → z.get? m = some s →
        ∃ d' ∈ ds ++ [d], d'.id = m ∧ d'.hit = true ∧ d'.score = s := by
      intro z t h hm
      obtain ⟨d', hd', h'⟩ := ih h hm
      exact ⟨d', List.mem_append_left _ hd', h'⟩
    rw [run_append] at h
    cases hp : purge d.now ((run ttl ds).marks d.id) with
    | some e => rw [step_marked hp] at h; exact old h hm
    | none =>
      rw [step_unmarked hp] at h
      dsimp only at h
      by_cases hh : d.hit = true
      · rw [if_pos hh, index_eq (notStr_run ttl ds)] at h
        dsimp only at h
        split at h
        · cases h
        · simp only [Option.some.injEq, Entry.mk.injEq, Value.zset.injEq] at h
          obtain ⟨rfl, -⟩ := h
          rw [Dict.get?_filter, Option.filter_eq_some_iff, Dict.get?_set] at hm
          obtain ⟨hm, -⟩ := hm
          by_cases hmd : m = d.id
          · rw [if_pos hmd] at hm
            exact ⟨d, List.mem_append_right _ (by simp), hmd.symm, hh, Option.some.inj hm⟩
          · rw [if_neg hmd] at hm
            have hm : zscore d.now (run ttl ds).set m = some s := hm
            obtain ⟨z', t', ho, hz⟩ := zscore_some hm
            exact old ho hz
      · rw [if_neg hh] at h; exact old h hm

/-! ## Retention -/

omit [Field K] [LinearOrder K] in
/-- The slot is a set that holds `m` with score `s` and exists until `e`. -/
def Holds (o : Slot σ μ K) (m : μ) (s e : K) : Prop :=
  ∃ z, o = some ⟨.zset z, some e⟩ ∧ z.get? m = some s

theorem holds_index {o : Slot σ μ K} (ho : NotStr o) {now ttl cutoff s s' : K} {m m' : μ}
    (h : (if m' = m then some s else zscore now o m') = some s') (hc : cutoff < s') :
    Holds (index now m s cutoff ttl o) m' s' (now + ttl) := by
  rw [index_eq ho]
  have hg : (((zset now o).set m s).filter fun p => decide (cutoff < p.2)).get? m' = some s' := by
    rw [Dict.get?_filter, Option.filter_eq_some_iff, Dict.get?_set]
    exact ⟨h, decide_eq_true hc⟩
  dsimp only
  split
  · rename_i he
    rw [Dict.get?_eq_some, List.isEmpty_iff.1 he] at hg; cases hg
  · exact ⟨_, rfl, hg⟩

omit [Field K] in
theorem Holds.zscore {o : Slot σ μ K} {m : μ} {s e now : K} (h : Holds o m s e) (hn : now ≤ e) :
    zscore now o m = some s := by
  obtain ⟨z, rfl, hz⟩ := h
  rw [zscore_alive hn, hz]

variable [IsStrictOrderedRing K]

/-- Indexing keeps a member that is held long enough, or makes it one, unless it is old. -/
theorem kept_index {ttl slack : K} (hslack : 0 ≤ slack) {o : Slot σ μ K} (hns : NotStr o)
    (d : Delivery σ μ K) {m : μ} {s : K} (hs : s ≤ d.now + slack)
    (h : (m = d.id ∧ s = d.score) ∨ (m ≠ d.id ∧ (s ≤ d.now - ttl + slack ∨
      ∃ e, Holds o m s e ∧ s + ttl ≤ e + slack))) :
    s ≤ d.now - ttl + slack ∨
      ∃ e, Holds (index d.now d.id d.score (d.now - ttl) ttl o) m s e ∧ s + ttl ≤ e + slack := by
  rcases le_or_gt s (d.now - ttl) with hold | hnew
  · left; linarith
  have hexp : s + ttl ≤ d.now + ttl + slack := by linarith
  rcases h with ⟨hid, hsc⟩ | ⟨hid, hold | ⟨e, he, hse⟩⟩
  · refine Or.inr ⟨_, holds_index hns ?_ hnew, hexp⟩
    rw [if_pos hid, hsc]
  · exact Or.inl hold
  · rcases lt_or_ge e d.now with hlt | hge
    · left; linarith
    · refine Or.inr ⟨_, holds_index hns ?_ hnew, hexp⟩
      rw [if_neg hid, he.zscore hge]

/-- A delivered hit of an identifier that is never delivered more than `slack` ahead of the clock
is old, or held for as long as it is not. -/
theorem kept_run (ttl : K) {slack : K} (hslack : 0 ≤ slack) (ds : List (Delivery σ μ K)) (hc : Clocked ds)
    (hs : OneScore ds) (hh : OneHit ds) {m : μ}
    (ha : ∀ d ∈ ds, d.id = m → d.score ≤ d.now + slack) {now : K} (hn : ∀ d ∈ ds, d.now ≤ now) :
    ∀ d ∈ ds, d.id = m → d.hit = true → d.score ≤ now - ttl + slack ∨
      ∃ e, Holds (run ttl ds).set m d.score e ∧ d.score + ttl ≤ e + slack := by
  induction ds using List.reverseRecOn generalizing now with
  | nil => intro d hd; cases hd
  | append_singleton ds d ih =>
    have hmem : ∀ {x}, x ∈ ds → x ∈ ds ++ [d] := fun h => List.mem_append_left _ h
    have hd : d ∈ ds ++ [d] := List.mem_append_right _ (by simp)
    have hdn : d.now ≤ now := hn d hd
    have hle : ∀ x ∈ ds, x.now ≤ d.now := fun x hx =>
      (List.pairwise_append.1 hc).2.2 x hx d (by simp)
    have ih' := ih (List.pairwise_append.1 hc).1 (fun x hx y hy => hs x (hmem hx) y (hmem hy))
      (fun x hx y hy => hh x (hmem hx) y (hmem hy)) (fun x hx => ha x (hmem hx)) hle
    -- it is enough to look at the clock of the last delivery
    suffices key : ∀ x ∈ ds ++ [d], x.id = m → x.hit = true → x.score ≤ d.now - ttl + slack ∨
        ∃ e, Holds (run ttl (ds ++ [d])).set m x.score e ∧ x.score + ttl ≤ e + slack by
      intro x hx hxm hxh
      rcases key x hx hxm hxh with h | h
      · left; linarith
      · exact Or.inr h
    rw [run_append]
    cases hp : purge d.now ((run ttl ds).marks d.id) with
    | some e =>
      -- a duplicate: the same identifier came before, with the same score and hit
      rw [step_marked hp]
      obtain ⟨d', hd', hid⟩ := marked_delivered ttl ds (purge_eq_some.1 hp).1
      intro x hx hxm hxh
      rcases List.mem_append.1 hx with hx | hx
      · exact ih' x hx hxm hxh
      · rw [List.mem_singleton] at hx
        subst hx
        rw [hs x hd d' (hmem hd') hid.symm]
        exact ih' d' hd' (hid.trans hxm) (by rw [← hh x hd d' (hmem hd') hid.symm, hxh])
    | none =>
      rw [step_unmarked hp]
      dsimp only
      intro x hx hxm hxh
      by_cases hdh : d.hit = true
      · rw [if_pos hdh]
        have hax : x.score ≤ d.now + slack := by
          rcases List.mem_append.1 hx with h | h
          · have h1 := ha x (hmem h) hxm; have h2 := hle x h; linarith
          · rw [List.mem_singleton] at h; subst h; exact ha x hd hxm
        refine kept_index hslack (notStr_run ttl ds) d hax ?_
        by_cases hid : m = d.id
        · exact Or.inl ⟨hid, hs x hx d hd (hxm.trans hid)⟩
        · have hx' : x ∈ ds := by
            rcases List.mem_append.1 hx with h | h
            · exact h
            · rw [List.mem_singleton] at h; subst h; exact absurd hxm.symm hid
          exact Or.inr ⟨hid, ih' x hx' hxm hxh⟩
      · rw [if_neg hdh]
        rcases List.mem_append.1 hx with h | h
        · exact ih' x h hxm hxh
        · rw [List.mem_singleton] at h; subst h; exact absurd hxh hdh

/-- **No hit is lost.** A range above `now - ttl + slack` holds exactly the delivered hits, when
none of those is delivered more than `slack` ahead of the clock. -/
theorem mem_retained {ttl slack : K} (hslack : 0 ≤ slack) (ds : List (Delivery σ μ K))
    (hc : Clocked ds) (hs : OneScore ds) (hh : OneHit ds) {lo hi : K}
    (ha : ∀ d ∈ ds, d.hit = true → lo ≤ d.score → d.score < hi → d.score ≤ d.now + slack) {now : K}
    (hn : ∀ d ∈ ds, d.now ≤ now) (hlo : now - ttl + slack < lo) {m : μ} :
    m ∈ zrange now lo hi (run ttl ds).set ↔
      ∃ d ∈ ds, d.id = m ∧ d.hit = true ∧ lo ≤ d.score ∧ d.score < hi := by
  rw [mem_zrange]
  constructor
  · rintro ⟨s, hz, h1, h2⟩
    obtain ⟨z, t, ho, hm⟩ := zscore_some hz
    obtain ⟨d, hd, hid, hdh, rfl⟩ := held_delivered ttl ds ho hm
    exact ⟨d, hd, hid, hdh, h1, h2⟩
  · rintro ⟨d, hd, rfl, hdh, h1, h2⟩
    have ha' : ∀ x ∈ ds, x.id = d.id → x.score ≤ x.now + slack := by
      intro x hx hid
      have hscore := hs x hx d hd hid
      have hhit := hh x hx d hd hid
      exact ha x hx (hhit.trans hdh) (by rw [hscore]; exact h1) (by rw [hscore]; exact h2)
    rcases kept_run ttl hslack ds hc hs hh ha' hn d hd rfl hdh with h | ⟨e, he, hse⟩
    · linarith
    · exact ⟨d.score, he.zscore (by linarith), h1, h2⟩

/-! ## One retention period -/

omit [Field K] [LinearOrder K] [IsStrictOrderedRing K] in
/-- The first delivery of an identifier. -/
def first (ds : List (Delivery σ μ K)) (m : μ) : Option (Delivery σ μ K) :=
  ds.find? fun d => decide (d.id = m)

omit [Field K] [LinearOrder K] [IsStrictOrderedRing K] in
theorem first_append (ds : List (Delivery σ μ K)) (d : Delivery σ μ K) (m : μ) :
    first (ds ++ [d]) m = (first ds m).or (if d.id = m then some d else none) := by
  unfold first
  rw [List.find?_append]
  by_cases h : d.id = m <;> simp [h]

omit [Field K] [LinearOrder K] [IsStrictOrderedRing K] in
theorem first_eq_none {ds : List (Delivery σ μ K)} {m : μ} :
    first ds m = none ↔ ∀ d ∈ ds, d.id ≠ m := by
  simp [first]

omit [Field K] [LinearOrder K] [IsStrictOrderedRing K] in
theorem first_eq_some {ds : List (Delivery σ μ K)} {m : μ} {d : Delivery σ μ K}
    (h : first ds m = some d) : d ∈ ds ∧ d.id = m :=
  ⟨List.mem_of_find?_eq_some h, by simpa using List.find?_some h⟩

/-- Within one retention period every delivered identifier keeps its marker. -/
theorem marked_of_period (ttl : K) {t₀ : K} (ds : List (Delivery σ μ K))
    (h0 : ∀ d ∈ ds, t₀ ≤ d.now) {d : Delivery σ μ K} (hd : d ∈ ds) :
    ∃ v e, (run ttl ds).marks d.id = some ⟨v, some e⟩ ∧ t₀ + ttl ≤ e := by
  induction ds using List.reverseRecOn generalizing d with
  | nil => cases hd
  | append_singleton ds x ih =>
    have hx0 := h0 x (List.mem_append_right _ (by simp))
    have ih' : ∀ {d}, d ∈ ds → _ := ih fun y hy => h0 y (List.mem_append_left _ hy)
    rw [run_append]
    cases hp : purge x.now ((run ttl ds).marks x.id) with
    | some e =>
      rw [step_marked hp]
      rcases List.mem_append.1 hd with h | h
      · exact ih' h
      · rw [List.mem_singleton] at h
        subst h
        obtain ⟨d', hd', hid⟩ := marked_delivered ttl ds (purge_eq_some.1 hp).1
        rw [← hid]; exact ih' hd'
    | none =>
      rw [step_unmarked hp]
      dsimp only
      by_cases hid : d.id = x.id
      · rw [hid, Function.update_self]
        exact ⟨_, _, rfl, by linarith⟩
      · rw [Function.update_of_ne hid]
        rcases List.mem_append.1 hd with h | h
        · exact ih' h
        · rw [List.mem_singleton] at h; subst h; exact absurd rfl hid

omit [IsStrictOrderedRing K] in
/-- An identifier that was not delivered has no marker. -/
theorem marks_of_first_none (ttl : K) {ds : List (Delivery σ μ K)} {m : μ} (h : first ds m = none) :
    (run ttl ds).marks m = none := by
  cases hm : (run ttl ds).marks m with
  | none => rfl
  | some e =>
    obtain ⟨d, hd, hid⟩ := marked_delivered ttl ds hm
    exact absurd hid (first_eq_none.1 h d hd)

/-- What the set holds above the last cutoff are the first deliveries that are hits. -/
theorem zscore_first {ttl t₀ now : K} (ds : List (Delivery σ μ K))
    (h0 : ∀ d ∈ ds, t₀ ≤ d.now) (hn : ∀ d ∈ ds, d.now ≤ now) (hp : now ≤ t₀ + ttl) {t : K}
    (ht : t ≤ t₀ + ttl) {m : μ} {s : K} (hs : now - ttl < s) :
    zscore t (run ttl ds).set m = some s ↔
      ∃ d, first ds m = some d ∧ d.hit = true ∧ d.score = s := by
  induction ds using List.reverseRecOn generalizing t with
  | nil => simp [run, State.empty, first, zscore_none]
  | append_singleton ds x ih =>
    have hx : x ∈ ds ++ [x] := List.mem_append_right _ (by simp)
    have hx0 := h0 x hx
    have hxn := hn x hx
    have h0' : ∀ d ∈ ds, t₀ ≤ d.now := fun y hy => h0 y (List.mem_append_left _ hy)
    have ih' : ∀ {t}, t ≤ t₀ + ttl → _ := ih h0' fun y hy => hn y (List.mem_append_left _ hy)
    rw [run_append, first_append]
    cases hf : first ds x.id with
    | some d =>
      -- the identifier has its marker, so nothing changes
      obtain ⟨hd, hid⟩ := first_eq_some hf
      obtain ⟨v, e, he, hle⟩ := marked_of_period ttl ds h0' hd
      rw [hid] at he
      rw [step_marked (by rw [he]; exact purge_of_le (by linarith)), ih' ht]
      by_cases hm : x.id = m
      · rw [← hm, hf]; rfl
      · rw [if_neg hm, Option.or_none]
    | none =>
      rw [step_unmarked (by rw [marks_of_first_none ttl hf]; rfl)]
      dsimp only
      by_cases hh : x.hit = true
      · rw [if_pos hh, zscore_index (notStr_run ttl ds) _ _ _ _ (by linarith),
          Option.filter_eq_some_iff]
        by_cases hm : m = x.id
        · subst hm
          rw [hf, if_pos rfl, Option.none_or, if_pos rfl]
          have : x.now - ttl ≤ now - ttl := by linarith
          constructor
          · rintro ⟨h, -⟩; exact ⟨x, rfl, hh, Option.some.inj h⟩
          · rintro ⟨d, hd, -, rfl⟩
            obtain rfl := Option.some.inj hd
            exact ⟨rfl, decide_eq_true (by linarith)⟩
        · rw [if_neg hm, if_neg (Ne.symm hm), Option.or_none, ih' (by linarith)]
          have : x.now - ttl < s := by linarith
          simp [this]
      · rw [if_neg hh, ih' ht]
        by_cases hm : x.id = m
        · subst hm
          rw [hf, Option.none_or, if_pos rfl]
          simp [hh]
        · rw [if_neg hm, Option.or_none]

/-- **Within one retention period** the first delivery of an identifier decides. -/
theorem mem_first {ttl t₀ now lo hi : K} (ds : List (Delivery σ μ K))
    (h0 : ∀ d ∈ ds, t₀ ≤ d.now) (hn : ∀ d ∈ ds, d.now ≤ now) (hp : now ≤ t₀ + ttl)
    (hlo : now - ttl < lo) {m : μ} :
    m ∈ zrange now lo hi (run ttl ds).set ↔
      ∃ d, first ds m = some d ∧ d.hit = true ∧ lo ≤ d.score ∧ d.score < hi := by
  rw [mem_zrange]
  constructor
  · rintro ⟨s, hz, h1, h2⟩
    obtain ⟨d, hd, hh, rfl⟩ := (zscore_first ds h0 hn hp hp (by linarith)).1 hz
    exact ⟨d, hd, hh, h1, h2⟩
  · rintro ⟨d, hd, hh, h1, h2⟩
    exact ⟨d.score, (zscore_first ds h0 hn hp hp (by linarith)).2 ⟨d, hd, hh, rfl⟩, h1, h2⟩

/-! ## Scoring without markers -/

omit [IsStrictOrderedRing K] in
/-- Read at `now`, after the given deliveries (the last one first), the set holds `m`
with score `s`: its last delivery gave that score, and from then on no two deliveries
to the set, nor the last one and the reading, lie more than `ttl` apart. -/
def Kept (ttl : K) (m : μ) (s : K) : K → List (Delivery σ μ K) → Prop
  | _, [] => False
  | now, d :: ds =>
    if d.hit then now ≤ d.now + ttl ∧ (if d.id = m then d.score = s else Kept ttl m s d.now ds)
    else Kept ttl m s now ds

omit [IsStrictOrderedRing K] in
/-- **What a set that is only scored and renewed holds.** -/
theorem zscore_touched (ttl : K) (ds : List (Delivery σ μ K)) {now : K} {m : μ} {s : K} :
    zscore now (touched ttl ds) m = some s ↔ Kept ttl m s now ds.reverse := by
  induction ds using List.reverseRecOn generalizing now with
  | nil => simp [touched, Kept, zscore_none]
  | append_singleton ds d ih =>
    rw [touched_append, List.reverse_append, List.reverse_singleton, List.singleton_append]
    unfold touchStep Kept
    by_cases hh : d.hit = true
    · rw [if_pos hh, if_pos hh]
      rcases le_or_gt now (d.now + ttl) with hle | hgt
      · rw [zscore_touch (notStr_touched ttl ds) _ _ _ hle]
        by_cases hm : d.id = m
        · rw [if_pos hm.symm, if_pos hm]; simp [hle]
        · rw [if_neg (Ne.symm hm), if_neg hm, ih]; simp [hle]
      · rw [touch_eq (notStr_touched ttl ds), zscore_expired hgt]
        simp [not_le.2 hgt]
    · rw [if_neg hh, if_neg hh, ih]

omit [IsStrictOrderedRing K] in
theorem Kept.delivered {ttl : K} {m : μ} {s now : K} {ds : List (Delivery σ μ K)}
    (h : Kept ttl m s now ds) : ∃ d ∈ ds, d.id = m ∧ d.hit = true ∧ d.score = s := by
  induction ds generalizing now with
  | nil => exact absurd h id
  | cons d ds ih =>
    unfold Kept at h
    by_cases hh : d.hit = true
    · rw [if_pos hh] at h
      by_cases hm : d.id = m
      · rw [if_pos hm] at h; exact ⟨d, List.mem_cons_self, hm, hh, h.2⟩
      · rw [if_neg hm] at h
        obtain ⟨d', hd', h'⟩ := ih h.2
        exact ⟨d', List.mem_cons_of_mem _ hd', h'⟩
    · rw [if_neg hh] at h
      obtain ⟨d', hd', h'⟩ := ih h
      exact ⟨d', List.mem_cons_of_mem _ hd', h'⟩

/-- With one score per identifier and no gap, a delivered hit is kept. -/
theorem Kept.of_period {ttl t₀ : K} {now : K} {ds : List (Delivery σ μ K)} (hs : OneScore ds)
    (h0 : ∀ d ∈ ds, t₀ ≤ d.now ∧ d.now ≤ t₀ + ttl) (hp : now ≤ t₀ + ttl) {d : Delivery σ μ K}
    (hd : d ∈ ds) (hh : d.hit = true) : Kept ttl d.id d.score now ds := by
  induction ds generalizing now with
  | nil => cases hd
  | cons x ds ih =>
    have hs' : OneScore ds := fun a ha b hb =>
      hs a (List.mem_cons_of_mem _ ha) b (List.mem_cons_of_mem _ hb)
    have h0' : ∀ d ∈ ds, t₀ ≤ d.now ∧ d.now ≤ t₀ + ttl := fun a ha =>
      h0 a (List.mem_cons_of_mem _ ha)
    obtain ⟨hx0, hx1⟩ := h0 x List.mem_cons_self
    unfold Kept
    rcases List.mem_cons.1 hd with rfl | hd
    · rw [if_pos hh, if_pos rfl]
      exact ⟨by linarith, rfl⟩
    · by_cases hxh : x.hit = true
      · rw [if_pos hxh]
        refine ⟨by linarith, ?_⟩
        by_cases hid : x.id = d.id
        · rw [if_pos hid]
          exact hs x List.mem_cons_self d (List.mem_cons_of_mem _ hd) hid
        · rw [if_neg hid]; exact ih hs' h0' hx1 hd
      · rw [if_neg hxh]; exact ih hs' h0' hp hd

/-- **Within one retention period** every identifier with a hit is held. -/
theorem mem_touched {ttl t₀ now lo hi : K} (ds : List (Delivery σ μ K)) (hs : OneScore ds)
    (h0 : ∀ d ∈ ds, t₀ ≤ d.now ∧ d.now ≤ t₀ + ttl) (hp : now ≤ t₀ + ttl) {m : μ} :
    m ∈ zrange now lo hi (touched ttl ds) ↔
      ∃ d ∈ ds, d.id = m ∧ d.hit = true ∧ lo ≤ d.score ∧ d.score < hi := by
  rw [mem_zrange]
  constructor
  · rintro ⟨s, hz, h1, h2⟩
    obtain ⟨d, hd, hid, hh, rfl⟩ := ((zscore_touched ttl ds).1 hz).delivered
    exact ⟨d, List.mem_reverse.1 hd, hid, hh, h1, h2⟩
  · rintro ⟨d, hd, rfl, hh, h1, h2⟩
    refine ⟨d.score, (zscore_touched ttl ds).2 ?_, h1, h2⟩
    refine Kept.of_period ?_ (fun x hx => h0 x (List.mem_reverse.1 hx)) hp
      (List.mem_reverse.2 hd) hh
    exact fun a ha b hb => hs a (List.mem_reverse.1 ha) b (List.mem_reverse.1 hb)

/-! ## The last score -/

omit [Field K] [LinearOrder K] [IsStrictOrderedRing K] in
/-- The last score that a list of scored identifiers gives `m`. -/
def latest (l : List (μ × K)) (m : μ) : Option K := l.reverse.lookup m

omit [Field K] [IsStrictOrderedRing K] in
/-- The identifiers whose last score lies in `[lo, hi)`. -/
def latestIn (lo hi : K) (l : List (μ × K)) : Finset μ :=
  (l.map Prod.fst).toFinset.filter fun m =>
    (latest l m).any fun s => decide (lo ≤ s) && decide (s < hi)

omit [Field K] [LinearOrder K] [IsStrictOrderedRing K] in
/-- The hits, as scored identifiers. -/
def hits (ds : List (Delivery σ μ K)) : List (μ × K) :=
  (ds.filter Delivery.hit).map fun d => (d.id, d.score)

omit [Field K] [LinearOrder K] [IsStrictOrderedRing K] in
theorem latest_append (l : List (μ × K)) (p : μ × K) (m : μ) :
    latest (l ++ [p]) m = if m = p.1 then some p.2 else latest l m := by
  unfold latest
  rw [List.reverse_append, List.reverse_singleton, List.singleton_append, List.lookup_cons]
  by_cases h : m = p.1
  · rw [if_pos h, beq_iff_eq.2 h]
  · rw [if_neg h, beq_eq_false_iff_ne.2 h]

omit [Field K] [LinearOrder K] [IsStrictOrderedRing K] in
/-- The last score was given. -/
theorem mem_of_latest {l : List (μ × K)} {m : μ} {s : K} (h : latest l m = some s) : (m, s) ∈ l := by
  induction l using List.reverseRecOn with
  | nil => cases h
  | append_singleton l p ih =>
    rw [latest_append] at h
    split at h
    · rename_i hm
      rw [List.mem_append, List.mem_singleton]
      exact Or.inr (Prod.ext hm (Option.some.inj h).symm)
    · exact List.mem_append_left _ (ih h)

omit [Field K] [LinearOrder K] [IsStrictOrderedRing K] in
/-- Whatever is scored has a last score. -/
theorem latest_of_mem {l : List (μ × K)} {p : μ × K} (h : p ∈ l) : ∃ s, latest l p.1 = some s := by
  induction l using List.reverseRecOn with
  | nil => cases h
  | append_singleton l q ih =>
    rw [latest_append]
    split
    · exact ⟨_, rfl⟩
    · rename_i hm
      rcases List.mem_append.1 h with h | h
      · exact ih h
      · rw [List.mem_singleton] at h; subst h; exact absurd rfl hm

omit [Field K] [LinearOrder K] [IsStrictOrderedRing K] in
/-- With one score for each identifier, the order and the number of times do not matter. -/
theorem latest_congr {l l' : List (μ × K)} (hl : ∀ p ∈ l, ∀ q ∈ l, p.1 = q.1 → p.2 = q.2)
    (h : ∀ p, p ∈ l ↔ p ∈ l') (m : μ) : latest l m = latest l' m := by
  have hl' : ∀ p ∈ l', ∀ q ∈ l', p.1 = q.1 → p.2 = q.2 := fun p hp q hq =>
    hl p ((h p).2 hp) q ((h q).2 hq)
  have key : ∀ {l : List (μ × K)}, (∀ p ∈ l, ∀ q ∈ l, p.1 = q.1 → p.2 = q.2) → ∀ s,
      latest l m = some s ↔ (m, s) ∈ l := by
    intro l hl s
    refine ⟨mem_of_latest, fun hm => ?_⟩
    obtain ⟨s', hs'⟩ := latest_of_mem hm
    have hs : s' = s := hl _ (mem_of_latest hs') _ hm rfl
    rw [hs', hs]
  ext s
  rw [key hl, key hl', h]

omit [Field K] [LinearOrder K] [IsStrictOrderedRing K] [DecidableEq μ] in
theorem hits_append (ds : List (Delivery σ μ K)) (d : Delivery σ μ K) :
    hits (ds ++ [d]) = if d.hit then hits ds ++ [(d.id, d.score)] else hits ds := by
  unfold hits
  by_cases hh : d.hit = true
  · simp [hh]
  · simp [hh]

omit [IsStrictOrderedRing K] [DecidableEq μ] in
/-- Read at `now`, the set was renewed in time: no two hits in a row, nor the last one and the
reading, lie more than `ttl` apart. -/
def Renewed (ttl now : K) (ds : List (Delivery σ μ K)) : Prop :=
  List.IsChain (fun a b => b ≤ a + ttl) ((ds.filter Delivery.hit).map Delivery.now ++ [now])

omit [IsStrictOrderedRing K] [DecidableEq μ] in
theorem renewed_append_hit {ttl now : K} {ds : List (Delivery σ μ K)} {d : Delivery σ μ K}
    (hh : d.hit = true) : Renewed ttl now (ds ++ [d]) ↔ Renewed ttl d.now ds ∧ now ≤ d.now + ttl := by
  have hlist : ((ds ++ [d]).filter Delivery.hit).map Delivery.now ++ [now] =
      (ds.filter Delivery.hit).map Delivery.now ++ d.now :: now :: [] := by
    rw [List.filter_append, List.filter_cons_of_pos hh, List.map_append, List.append_assoc]
    rfl
  unfold Renewed
  rw [hlist, List.isChain_append_cons_cons]
  exact and_congr_right fun _ => and_iff_left (List.isChain_singleton _)

omit [IsStrictOrderedRing K] in
/-- **A set that was renewed in time** holds the last scores of the hits. -/
theorem zscore_of_renewed {ttl now : K} (ds : List (Delivery σ μ K)) (h : Renewed ttl now ds) (m : μ) :
    zscore now (touched ttl ds) m = latest (hits ds) m := by
  induction ds using List.reverseRecOn generalizing now with
  | nil => rfl
  | append_singleton ds d ih =>
    rw [touched_append, hits_append]
    unfold touchStep
    by_cases hh : d.hit = true
    · obtain ⟨hds, hnow⟩ := (renewed_append_hit hh).1 h
      rw [if_pos hh, if_pos hh, latest_append, zscore_touch (notStr_touched ttl ds) _ _ _ hnow, ih hds]
    · rw [if_neg hh, if_neg hh]
      apply ih
      unfold Renewed at h ⊢
      rw [List.filter_append, List.filter_cons_of_neg hh] at h
      simpa using h

omit [DecidableEq μ] in
/-- Within one retention period the set is renewed in time. -/
theorem renewed_of_period {ttl t₀ now : K} (ds : List (Delivery σ μ K))
    (h0 : ∀ d ∈ ds, t₀ ≤ d.now ∧ d.now ≤ t₀ + ttl) (hp : now ≤ t₀ + ttl) : Renewed ttl now ds := by
  have hmem : ∀ a ∈ (ds.filter Delivery.hit).map Delivery.now, t₀ ≤ a ∧ a ≤ t₀ + ttl := by
    intro a ha
    obtain ⟨d, hd, rfl⟩ := List.mem_map.1 ha
    exact h0 d (List.mem_of_mem_filter hd)
  unfold Renewed
  apply List.Pairwise.isChain
  rw [List.pairwise_append]
  refine ⟨List.pairwise_of_forall_mem_list ?_, List.pairwise_singleton _ _, ?_⟩
  · intro a ha b hb
    have h1 := (hmem a ha).1
    have h2 := (hmem b hb).2
    linarith
  · intro a ha b hb
    have h1 := (hmem a ha).1
    rw [List.mem_singleton.1 hb]
    linarith

/-- **Within one retention period** the set holds the last scores of the hits. -/
theorem zscore_hits {ttl t₀ now : K} (ds : List (Delivery σ μ K))
    (h0 : ∀ d ∈ ds, t₀ ≤ d.now ∧ d.now ≤ t₀ + ttl) (hp : now ≤ t₀ + ttl) (m : μ) :
    zscore now (touched ttl ds) m = latest (hits ds) m :=
  zscore_of_renewed ds (renewed_of_period ds h0 hp) m

omit [Field K] [IsStrictOrderedRing K] in
/-- A set whose scores are the last scores of a list, counted in a range. -/
theorem zcount_latest {now lo hi : K} {o : Slot σ μ K} {l : List (μ × K)}
    (h : ∀ m, zscore now o m = latest l m) : zcount now lo hi o = (latestIn lo hi l).card := by
  rw [zcount_eq_card]
  congr 1
  ext m
  rw [mem_zrange, latestIn, Finset.mem_filter, List.mem_toFinset, h m]
  constructor
  · rintro ⟨s, hs, h1, h2⟩
    exact ⟨List.mem_map.2 ⟨_, mem_of_latest hs, rfl⟩, by rw [hs]; simp [h1, h2]⟩
  · rintro ⟨-, hs⟩
    rw [Option.any_eq_true] at hs
    obtain ⟨s, hs, h12⟩ := hs
    rw [Bool.and_eq_true, decide_eq_true_eq, decide_eq_true_eq] at h12
    exact ⟨s, hs, h12⟩

end Retention
