import Scgrep.Lib.Retention

/-!
# A sorted set as a log of commands

What the commands `ZADD`, `ZREMRANGEBYSCORE` and `EXPIRE` (`Redis.index`) have made of one
key, for any list of them. The cutoff of a pruning may be read some time before the command
runs.

* `mem_indexed`: **above `now - ttl + slack` the set holds what some command has indexed**,
  whatever the order of the commands, when an identifier has one score and none is more than
  `slack` ahead of the clock.
* `zrange_eq_of_same`: two lists that index the same, at whatever clock readings, leave the
  same range.
-/

namespace IndexLog

open Redis Retention

/-- A command: when it runs, what it indexes with which score, and up to where it prunes. -/
structure Command (μ K : Type*) where
  now : K
  id : μ
  score : K
  cutoff : K

variable {σ μ K : Type*} [DecidableEq μ] [Field K] [LinearOrder K]

/-- One command. -/
def step (ttl : K) (o : Slot σ μ K) (c : Command μ K) : Slot σ μ K :=
  index c.now c.id c.score c.cutoff ttl o

/-- All commands, on an absent key. -/
def indexed (ttl : K) (cs : List (Command μ K)) : Slot σ μ K := cs.foldl (step ttl) none

theorem indexed_append (ttl : K) (cs : List (Command μ K)) (c : Command μ K) :
    (indexed ttl (cs ++ [c]) : Slot σ μ K) = step ttl (indexed ttl cs) c := by
  simp [indexed, List.foldl_append]

theorem notStr_indexed (ttl : K) (cs : List (Command μ K)) : NotStr (indexed ttl cs : Slot σ μ K) := by
  induction cs using List.reverseRecOn with
  | nil => intro x t h; cases h
  | append_singleton cs c ih =>
    rw [indexed_append]
    exact ih.index _ _ _ _ _

/-- What the set holds was indexed, with that score. -/
theorem held_indexed (ttl : K) (cs : List (Command μ K)) {z : Dict μ K} {t : Option K} {m : μ} {s : K}
    (h : (indexed ttl cs : Slot σ μ K) = some ⟨.zset z, t⟩) (hm : z.get? m = some s) :
    ∃ c ∈ cs, c.id = m ∧ c.score = s := by
  induction cs using List.reverseRecOn generalizing z t with
  | nil => cases h
  | append_singleton cs c ih =>
    rw [indexed_append, step, index_eq (notStr_indexed ttl cs)] at h
    dsimp only at h
    split at h
    · cases h
    · simp only [Option.some.injEq, Entry.mk.injEq, Value.zset.injEq] at h
      obtain ⟨rfl, -⟩ := h
      rw [Dict.get?_filter, Option.filter_eq_some_iff, Dict.get?_set] at hm
      obtain ⟨hm, -⟩ := hm
      by_cases hc : m = c.id
      · rw [if_pos hc] at hm
        exact ⟨c, List.mem_append_right _ (by simp), hc.symm, Option.some.inj hm⟩
      · rw [if_neg hc] at hm
        have hold : zscore c.now (indexed ttl cs : Slot σ μ K) m = some s := hm
        obtain ⟨z', t', ho, hz⟩ := zscore_some hold
        obtain ⟨c', hc', hid⟩ := ih ho hz
        exact ⟨c', List.mem_append_left _ hc', hid⟩

/-- What is assumed of a list of commands, as seen at `now`. -/
structure Orderly (ttl now : K) (cs : List (Command μ K)) : Prop where
  clocked : cs.Pairwise fun a b => a.now ≤ b.now
  upTo : ∀ c ∈ cs, c.now ≤ now
  /-- a cutoff is of an earlier reading -/
  pruned : ∀ c ∈ cs, c.cutoff ≤ c.now - ttl

/-- An identifier has one score. -/
def OneScore (cs : List (Command μ K)) : Prop := ∀ c ∈ cs, ∀ d ∈ cs, c.id = d.id → c.score = d.score

omit [DecidableEq μ] in
theorem Orderly.later {ttl now now' : K} {cs : List (Command μ K)} (h : Orderly ttl now cs)
    (hle : now ≤ now') : Orderly ttl now' cs :=
  ⟨h.clocked, fun c hc => (h.upTo c hc).trans hle, h.pruned⟩

omit [DecidableEq μ] in
/-- One more command, at the reading `now`. -/
theorem Orderly.append {ttl now : K} {cs : List (Command μ K)} (h : Orderly ttl now cs) {c : Command μ K}
    (hnow : c.now = now) (hcut : c.cutoff ≤ now - ttl) : Orderly ttl now (cs ++ [c]) where
  clocked := List.pairwise_append.2 ⟨h.clocked, List.pairwise_singleton _ _, by
    intro a ha b hb
    rw [List.mem_singleton.1 hb, hnow]
    exact h.upTo a ha⟩
  upTo := by
    intro d hd
    rcases List.mem_append.1 hd with hd | hd
    · exact h.upTo d hd
    · rw [List.mem_singleton.1 hd, hnow]
  pruned := by
    intro d hd
    rcases List.mem_append.1 hd with hd | hd
    · exact h.pruned d hd
    · rw [List.mem_singleton.1 hd, hnow]
      exact hcut

variable [IsStrictOrderedRing K]

/-- A command keeps a member that is held long enough, or makes it one, unless it is old. -/
theorem kept_step {ttl slack : K} (hslack : 0 ≤ slack) {o : Slot σ μ K} (hns : NotStr o) {c : Command μ K}
    (hcut : c.cutoff ≤ c.now - ttl) {m : μ} {s : K} (hs : s ≤ c.now + slack)
    (h : (m = c.id ∧ s = c.score) ∨ (m ≠ c.id ∧ (s ≤ c.now - ttl + slack ∨
      ∃ e, Holds o m s e ∧ s + ttl ≤ e + slack))) :
    s ≤ c.now - ttl + slack ∨ ∃ e, Holds (step ttl o c) m s e ∧ s + ttl ≤ e + slack := by
  rcases le_or_gt s c.cutoff with hold | hnew
  · left
    linarith
  have hexp : s + ttl ≤ c.now + ttl + slack := by linarith
  rcases h with ⟨hid, hsc⟩ | ⟨hid, hold | ⟨e, he, hse⟩⟩
  · refine Or.inr ⟨_, holds_index hns ?_ hnew, hexp⟩
    rw [if_pos hid, hsc]
  · exact Or.inl hold
  · rcases lt_or_ge e c.now with hlt | hge
    · left
      linarith
    · refine Or.inr ⟨_, holds_index hns ?_ hnew, hexp⟩
      rw [if_neg hid, he.zscore hge]

/-- What a command has indexed is old, or held for as long as it is not. -/
theorem kept_indexed {ttl slack : K} (hslack : 0 ≤ slack) (cs : List (Command μ K)) (hs : OneScore cs)
    (ha : ∀ c ∈ cs, c.score ≤ c.now + slack) {now : K} (h : Orderly ttl now cs) :
    ∀ c ∈ cs, c.score ≤ now - ttl + slack ∨
      ∃ e, Holds (indexed ttl cs : Slot σ μ K) c.id c.score e ∧ c.score + ttl ≤ e + slack := by
  induction cs using List.reverseRecOn generalizing now with
  | nil =>
    intro c hc
    cases hc
  | append_singleton cs c ih =>
    have hc : c ∈ cs ++ [c] := List.mem_append_right _ (by simp)
    have hmem : ∀ {x}, x ∈ cs → x ∈ cs ++ [c] := fun hx => List.mem_append_left _ hx
    have hclocked := List.pairwise_append.1 h.clocked
    have hle : ∀ x ∈ cs, x.now ≤ c.now := fun x hx => hclocked.2.2 x hx c (by simp)
    have hold : Orderly ttl c.now cs := ⟨hclocked.1, hle, fun x hx => h.pruned x (hmem hx)⟩
    have ih' := ih (fun x hx y hy => hs x (hmem hx) y (hmem hy)) (fun x hx => ha x (hmem hx)) hold
    intro x hx
    have hlast : x.score ≤ c.now - ttl + slack ∨
        ∃ e, Holds (indexed ttl (cs ++ [c]) : Slot σ μ K) x.id x.score e ∧ x.score + ttl ≤ e + slack := by
      rw [indexed_append]
      have hscore : x.score ≤ c.now + slack := by
        rcases List.mem_append.1 hx with hx' | hx'
        · have h₁ := ha x hx
          have h₂ := hle x hx'
          linarith
        · rw [List.mem_singleton.1 hx']
          exact ha c hc
      refine kept_step hslack (notStr_indexed ttl cs) (h.pruned c hc) hscore ?_
      by_cases hid : x.id = c.id
      · exact Or.inl ⟨hid, hs x hx c hc hid⟩
      · rcases List.mem_append.1 hx with hx' | hx'
        · exact Or.inr ⟨hid, ih' x hx'⟩
        · exact absurd (congrArg Command.id (List.mem_singleton.1 hx')) hid
    -- at a later reading it is older, and held as long
    have hnow := h.upTo c hc
    rcases hlast with hlast | hlast
    · left
      linarith
    · exact Or.inr hlast

/-- **Above `now - ttl + slack` the set holds what some command has indexed.** -/
theorem mem_indexed {ttl slack : K} (hslack : 0 ≤ slack) {cs : List (Command μ K)} (hs : OneScore cs)
    (ha : ∀ c ∈ cs, c.score ≤ c.now + slack) {now : K} (h : Orderly ttl now cs) {lo hi : K}
    (hlo : now - ttl + slack < lo) {m : μ} :
    m ∈ zrange now lo hi (indexed ttl cs : Slot σ μ K) ↔ ∃ c ∈ cs, c.id = m ∧ lo ≤ c.score ∧ c.score < hi := by
  rw [mem_zrange]
  constructor
  · rintro ⟨s, hz, h₁, h₂⟩
    obtain ⟨z, t, ho, hm⟩ := zscore_some hz
    obtain ⟨c, hc, hid, rfl⟩ := held_indexed ttl cs ho hm
    exact ⟨c, hc, hid, h₁, h₂⟩
  · rintro ⟨c, hc, rfl, h₁, h₂⟩
    rcases kept_indexed (σ := σ) hslack cs hs ha h c hc with hold | ⟨e, he, hse⟩
    · linarith
    · exact ⟨c.score, he.zscore (by linarith), h₁, h₂⟩

/-- **The order does not matter**: two lists that index the same leave the same range. -/
theorem zrange_eq_of_same {ttl slack : K} (hslack : 0 ≤ slack) {cs ds : List (Command μ K)} (hs : OneScore cs)
    (hcs : ∀ c ∈ cs, c.score ≤ c.now + slack) (hds : ∀ d ∈ ds, d.score ≤ d.now + slack) {now : K}
    (hc : Orderly ttl now cs) (hd : Orderly ttl now ds)
    (hsame : ∀ m s, (∃ c ∈ cs, c.id = m ∧ c.score = s) ↔ ∃ d ∈ ds, d.id = m ∧ d.score = s) {lo : K}
    (hlo : now - ttl + slack < lo) (hi : K) :
    zrange now lo hi (indexed ttl cs : Slot σ μ K) = zrange now lo hi (indexed ttl ds : Slot σ μ K) := by
  have hsd : OneScore ds := by
    intro d hd d' hd' hid
    obtain ⟨c, hc, hcid, hcs⟩ := (hsame d.id d.score).2 ⟨d, hd, rfl, rfl⟩
    obtain ⟨c', hc', hcid', hcs'⟩ := (hsame d'.id d'.score).2 ⟨d', hd', rfl, rfl⟩
    rw [← hcs, ← hcs']
    exact hs c hc c' hc' (by rw [hcid, hcid', hid])
  have hrange : ∀ {es : List (Command μ K)} {m : μ}, (∃ c ∈ es, c.id = m ∧ lo ≤ c.score ∧ c.score < hi) ↔
      ∃ s, (∃ c ∈ es, c.id = m ∧ c.score = s) ∧ lo ≤ s ∧ s < hi := by
    intro es m
    constructor
    · rintro ⟨c, hc, hid, hr⟩
      exact ⟨c.score, ⟨c, hc, hid, rfl⟩, hr⟩
    · rintro ⟨s, ⟨c, hc, hid, rfl⟩, hr⟩
      exact ⟨c, hc, hid, hr⟩
  ext m
  rw [mem_indexed hslack hs hcs hc hlo, mem_indexed hslack hsd hds hd hlo, hrange, hrange]
  simp only [hsame]

end IndexLog
