import Mathlib.Order.Lattice
import Mathlib.Logic.Function.Basic
import Scgrep.Lib.Dict

/-!
# A Redis keyspace with expiring keys

The commands `SET NX EX`, `ZADD`, `ZREMRANGEBYSCORE`, `EXPIRE`, `ZCOUNT` and
`DEL` on one keyspace, over any types of keys, strings and members and any
ordered additive clock (which is also the type of the scores).

Every command but `DEL` works on the **slot** of one key, as it stands at the
clock reading at which the command runs: a key whose expiry lies before that
reading counts as absent (`purge`). A command on a key of the other type is
refused (`WRONGTYPE`) and leaves the slot as it is.

* `zscore`, `zrange`: what a sorted set holds, and what a range of it holds.
* `zcount_eq_card`: `ZCOUNT` is the size of the range.
* `touch`: `ZADD` followed by `EXPIRE`. `index`: the same with a pruning
  `ZREMRANGEBYSCORE` in between. Both are idempotent at one clock reading.
* `foldl_update_idem`: a loop that runs an idempotent command on the keys of a
  list, as seen from one key.
-/

namespace Redis

/-- What a key can hold. -/
inductive Value (σ μ K : Type*) where
  | str (s : σ)
  | zset (z : Dict μ K)

/-- A key's value and the instant after which it no longer exists. -/
structure Entry (σ μ K : Type*) where
  val : Value σ μ K
  expireAt : Option K

/-- What is stored under one key, expired or not. -/
abbrev Slot (σ μ K : Type*) := Option (Entry σ μ K)

/-- The keyspace. -/
abbrev Db (κ σ μ K : Type*) := κ → Slot σ μ K

/-- The empty keyspace. -/
def Db.empty {κ σ μ K : Type*} : Db κ σ μ K := fun _ => none

variable {κ σ μ K : Type*} [LinearOrder K]

/-- Whether the entry still exists at `now`. -/
def Entry.alive (e : Entry σ μ K) (now : K) : Bool :=
  match e.expireAt with
  | none => true
  | some t => decide (now ≤ t)

/-- The slot as a command at `now` finds it. -/
def purge (now : K) (o : Slot σ μ K) : Slot σ μ K := o.filter (Entry.alive · now)

section Commands

variable [DecidableEq μ] [Add K]

/-- `SET key x NX EX ttl`: the reply says whether the key was set. -/
def setNxEx (now : K) (x : σ) (ttl : K) (o : Slot σ μ K) : Bool × Slot σ μ K :=
  match purge now o with
  | none => (true, some ⟨.str x, some (now + ttl)⟩)
  | some e => (false, some e)

/-- `ZADD key s m`. -/
def zadd (now : K) (m : μ) (s : K) (o : Slot σ μ K) : Slot σ μ K :=
  match purge now o with
  | none => some ⟨.zset (Dict.empty.set m s), none⟩
  | some ⟨.zset z, t⟩ => some ⟨.zset (z.set m s), t⟩
  | some ⟨.str x, t⟩ => some ⟨.str x, t⟩

/-- The reply of `ZADD key s m`: whether `m` is a new member. -/
def zadded (now : K) (m : μ) (o : Slot σ μ K) : Bool :=
  match purge now o with
  | none => true
  | some ⟨.zset z, _⟩ => !z.contains m
  | some ⟨.str _, _⟩ => false

/-- `ZREMRANGEBYSCORE key -inf hi`. A sorted set that becomes empty is deleted. -/
def zremrangebyscore (now hi : K) (o : Slot σ μ K) : Slot σ μ K :=
  match purge now o with
  | none => none
  | some ⟨.zset z, t⟩ =>
    let z' := z.filter fun p => decide (hi < p.2)
    if z'.items.isEmpty then none else some ⟨.zset z', t⟩
  | some ⟨.str x, t⟩ => some ⟨.str x, t⟩

/-- `EXPIRE key ttl`. -/
def expire (now ttl : K) (o : Slot σ μ K) : Slot σ μ K :=
  match purge now o with
  | none => none
  | some e => some { e with expireAt := some (now + ttl) }

/-- The sorted set under the key, empty when there is none. -/
def zset (now : K) (o : Slot σ μ K) : Dict μ K :=
  match purge now o with
  | some ⟨.zset z, _⟩ => z
  | _ => Dict.empty

/-- `ZCOUNT key lo (hi`: the upper bound is exclusive. -/
def zcount (now lo hi : K) (o : Slot σ μ K) : ℕ :=
  (zset now o).count fun p => decide (lo ≤ p.2) && decide (p.2 < hi)

/-- The score of a member. -/
def zscore (now : K) (o : Slot σ μ K) (m : μ) : Option K := (zset now o).get? m

/-- The members whose score lies in `[lo, hi)`. -/
def zrange (now lo hi : K) (o : Slot σ μ K) : Finset μ :=
  (zset now o).keysWhere fun p => decide (lo ≤ p.2) && decide (p.2 < hi)

/-- `ZADD` and `EXPIRE` on one key. -/
def touch (now : K) (m : μ) (s ttl : K) (o : Slot σ μ K) : Slot σ μ K :=
  expire now ttl (zadd now m s o)

/-- `ZADD`, `ZREMRANGEBYSCORE` and `EXPIRE` on one key. -/
def index (now : K) (m : μ) (s cutoff ttl : K) (o : Slot σ μ K) : Slot σ μ K :=
  expire now ttl (zremrangebyscore now cutoff (zadd now m s o))

end Commands

omit [LinearOrder K] in
/-- A slot that holds no string. -/
def NotStr (o : Slot σ μ K) : Prop := ∀ x t, o ≠ some ⟨.str x, t⟩

/-! ## Presence -/

theorem purge_some (now : K) (v : Value σ μ K) (t : K) :
    purge now (some ⟨v, some t⟩) = if now ≤ t then some ⟨v, some t⟩ else none := by
  by_cases h : now ≤ t <;> simp [purge, Option.filter, Entry.alive, h]

theorem purge_eq_some {now : K} {o : Slot σ μ K} {e : Entry σ μ K} :
    purge now o = some e ↔ o = some e ∧ e.alive now = true := by
  unfold purge; rw [Option.filter_eq_some_iff]

theorem purge_of_le {now : K} {v : Value σ μ K} {t : K} (h : now ≤ t) :
    purge now (some ⟨v, some t⟩) = some ⟨v, some t⟩ := by
  rw [purge_some, if_pos h]

theorem purge_of_lt {now : K} {v : Value σ μ K} {t : K} (h : t < now) :
    purge now (some ⟨v, some t⟩) = none := by
  rw [purge_some, if_neg (not_le.2 h)]

/-- What exists at a reading existed before. -/
theorem Entry.alive_earlier {e : Entry σ μ K} {now now' : K} (hle : now ≤ now')
    (h : e.alive now' = true) : e.alive now = true := by
  unfold Entry.alive at h ⊢
  cases hx : e.expireAt with
  | none => rfl
  | some t =>
    rw [hx] at h
    exact decide_eq_true (hle.trans (of_decide_eq_true h))

theorem purge_none_later {now now' : K} {o : Slot σ μ K} (h : purge now o = none) (hle : now ≤ now') :
    purge now' o = none := by
  cases hp : purge now' o with
  | none => rfl
  | some e =>
    obtain ⟨ho, ha⟩ := purge_eq_some.1 hp
    have hsome := purge_eq_some.2 ⟨ho, Entry.alive_earlier hle ha⟩
    rw [h] at hsome
    cases hsome

theorem NotStr.purge {o : Slot σ μ K} (h : NotStr o) (now : K) : NotStr (purge now o) := by
  intro x t hp
  exact h x t (purge_eq_some.1 hp).1

omit [LinearOrder K] in
/-- A slot without strings is absent or a sorted set. -/
theorem NotStr.cases {o : Slot σ μ K} (h : NotStr o) :
    o = Option.none ∨ ∃ z t, o = some ⟨.zset z, t⟩ := by
  cases o with
  | none => exact Or.inl rfl
  | some e =>
    obtain ⟨v, t⟩ := e
    cases v with
    | str x => exact absurd rfl (h x t)
    | zset z => exact Or.inr ⟨z, t, rfl⟩

/-! ## Reading -/

theorem zset_alive {now t : K} (h : now ≤ t) (z : Dict μ K) :
    zset now (some ⟨.zset z, some t⟩ : Slot σ μ K) = z := by
  unfold zset; rw [purge_of_le h]

theorem zset_none (now : K) : zset now (none : Slot σ μ K) = Dict.empty := rfl

variable [DecidableEq μ]

theorem zscore_none (now : K) (m : μ) : zscore now (none : Slot σ μ K) m = none := rfl

theorem zscore_alive {now t : K} (h : now ≤ t) (z : Dict μ K) (m : μ) :
    zscore now (some ⟨.zset z, some t⟩ : Slot σ μ K) m = z.get? m := by
  unfold zscore; rw [zset_alive h]

theorem zscore_expired {now t : K} (h : t < now) (v : Value σ μ K) (m : μ) :
    zscore now (some ⟨v, some t⟩) m = none := by
  unfold zscore zset; rw [purge_of_lt h]; rfl

/-- What is read from a key was stored under it. -/
theorem zscore_some {now : K} {o : Slot σ μ K} {m : μ} {s : K} (h : zscore now o m = some s) :
    ∃ z t, o = some ⟨.zset z, t⟩ ∧ z.get? m = some s := by
  unfold zscore zset at h
  cases hp : purge now o with
  | none => rw [hp] at h; cases h
  | some e =>
    obtain ⟨v, t⟩ := e
    rw [hp] at h
    cases v with
    | str x => cases h
    | zset z => exact ⟨z, t, (purge_eq_some.1 hp).1, h⟩

theorem mem_zrange {now lo hi : K} {o : Slot σ μ K} {m : μ} :
    m ∈ zrange now lo hi o ↔ ∃ s, zscore now o m = some s ∧ lo ≤ s ∧ s < hi := by
  unfold zrange zscore
  rw [Dict.mem_keysWhere]
  simp

/-- **`ZCOUNT` is the size of the range.** -/
theorem zcount_eq_card (now lo hi : K) (o : Slot σ μ K) :
    zcount now lo hi o = (zrange now lo hi o).card := Dict.count_eq_card _ _

/-- Sets with the same scores have the same counts. -/
theorem zcount_congr {now now' : K} {o o' : Slot σ μ K}
    (h : ∀ m, zscore now o m = zscore now' o' m) (lo hi : K) :
    zcount now lo hi o = zcount now' lo hi o' := by
  rw [zcount_eq_card, zcount_eq_card]
  congr 1
  ext m
  rw [mem_zrange, mem_zrange, h]

/-! ## Writing -/

variable [Add K]

/-- `touch` on a slot without strings. -/
theorem touch_eq {o : Slot σ μ K} (ho : NotStr o) (now : K) (m : μ) (s ttl : K) :
    touch now m s ttl o = some ⟨.zset ((zset now o).set m s), some (now + ttl)⟩ := by
  unfold touch zadd zset
  rcases (ho.purge now).cases with h | ⟨z, t, h⟩
  · rw [h]; rfl
  · have ha := (purge_eq_some.1 h).2
    rw [h]
    have : purge now (some ⟨.zset (z.set m s), t⟩ : Slot σ μ K) = some ⟨.zset (z.set m s), t⟩ :=
      purge_eq_some.2 ⟨rfl, ha⟩
    simp only [expire, this]

/-- `index` on a slot without strings. -/
theorem index_eq {o : Slot σ μ K} (ho : NotStr o) (now : K) (m : μ) (s cutoff ttl : K) :
    index now m s cutoff ttl o =
      let z := ((zset now o).set m s).filter fun p => decide (cutoff < p.2)
      if z.items.isEmpty then none else some ⟨.zset z, some (now + ttl)⟩ := by
  have key : ∀ (z : Dict μ K) (t : Option K), (⟨.zset z, t⟩ : Entry σ μ K).alive now = true →
      expire now ttl (zremrangebyscore now cutoff (some ⟨.zset z, t⟩ : Slot σ μ K)) =
        let z' := z.filter fun p => decide (cutoff < p.2)
        if z'.items.isEmpty then none else some ⟨.zset z', some (now + ttl)⟩ := by
    intro z t ha
    have h1 : purge now (some ⟨.zset z, t⟩ : Slot σ μ K) = some ⟨.zset z, t⟩ :=
      purge_eq_some.2 ⟨rfl, ha⟩
    simp only [zremrangebyscore, h1]
    split
    · rfl
    · have h2 : ∀ z', purge now (some ⟨.zset z', t⟩ : Slot σ μ K) = some ⟨.zset z', t⟩ :=
        fun z' => purge_eq_some.2 ⟨rfl, ha⟩
      simp only [expire, h2]
  unfold index zadd zset
  rcases (ho.purge now).cases with h | ⟨z, t, h⟩
  · rw [h]; exact key _ none rfl
  · rw [h]; exact key _ t (purge_eq_some.1 h).2

theorem NotStr.touch {o : Slot σ μ K} (ho : NotStr o) (now : K) (m : μ) (s ttl : K) :
    NotStr (touch now m s ttl o) := by
  rw [touch_eq ho]; intro x t h; cases h

theorem NotStr.index {o : Slot σ μ K} (ho : NotStr o) (now : K) (m : μ) (s cutoff ttl : K) :
    NotStr (index now m s cutoff ttl o) := by
  rw [index_eq ho]
  intro x t
  dsimp only
  split
  · intro h; cases h
  · intro h; cases h

/-- The scores right after `touch`, read while the key is alive. -/
theorem zscore_touch {o : Slot σ μ K} (ho : NotStr o) {now now' : K} {ttl : K} (m m' : μ) (s : K)
    (hn : now' ≤ now + ttl) :
    zscore now' (touch now m s ttl o) m' = if m' = m then some s else zscore now o m' := by
  rw [touch_eq ho, zscore_alive hn, Dict.get?_set]; rfl

/-- The scores right after `index`, read while the key is alive. -/
theorem zscore_index {o : Slot σ μ K} (ho : NotStr o) {now now' : K} {ttl : K} (m m' : μ)
    (s cutoff : K) (hn : now' ≤ now + ttl) :
    zscore now' (index now m s cutoff ttl o) m' =
      (if m' = m then some s else zscore now o m').filter fun x => decide (cutoff < x) := by
  rw [index_eq ho]
  have hg : (((zset now o).set m s).filter fun p => decide (cutoff < p.2)).get? m' =
      (if m' = m then some s else zscore now o m').filter fun x => decide (cutoff < x) := by
    rw [Dict.get?_filter, Dict.get?_set]; rfl
  dsimp only
  split
  · rename_i he
    rw [← hg, zscore_none]
    symm
    rw [Dict.get?_eq_none, List.isEmpty_iff.1 he]; simp
  · rw [zscore_alive hn, hg]

/-! ## Repetition -/

theorem touch_touch {o : Slot σ μ K} (ho : NotStr o) {now ttl : K} (hn : now ≤ now + ttl) (m : μ)
    (s : K) : touch now m s ttl (touch now m s ttl o) = touch now m s ttl o := by
  rw [touch_eq (ho.touch now m s ttl), touch_eq ho, zset_alive hn, Dict.set_set]

theorem index_index {o : Slot σ μ K} (ho : NotStr o) {now ttl : K} (hn : now ≤ now + ttl) (m : μ)
    (s cutoff : K) :
    index now m s cutoff ttl (index now m s cutoff ttl o) = index now m s cutoff ttl o := by
  rw [index_eq (ho.index now m s cutoff ttl), index_eq ho]
  dsimp only
  by_cases he : (((zset now o).set m s).filter fun p => decide (cutoff < p.2)).items = []
  · have h0 := Dict.filter_set_empty he
    simp only [List.isEmpty_iff.2 he, if_true, zset_none, List.isEmpty_iff.2 h0]
  · have hne : (((zset now o).set m s).filter fun p => decide (cutoff < p.2)).items.isEmpty = false := by
      simpa [List.isEmpty_iff] using he
    simp only [hne, Bool.false_eq_true, if_false, zset_alive hn, Dict.filter_set_again]

/-- **A loop of idempotent updates, seen from one key**: the update happened if some
element of the list that passes the test has that key. -/
theorem foldl_update_idem {ι κ α : Type*} [DecidableEq κ] (key : ι → κ) (c : ι → Bool) (f : α → α)
    (k : κ) (l : List ι) : ∀ g : κ → α, (f (f (g k)) = f (g k)) →
    (l.foldl (fun g i => if c i then Function.update g (key i) (f (g (key i))) else g) g) k =
      if ∃ i ∈ l, c i = true ∧ key i = k then f (g k) else g k := by
  induction l with
  | nil => intro g _; simp
  | cons i l ih =>
    intro g hf
    rw [List.foldl_cons]
    by_cases hc : c i = true
    · rw [if_pos hc]
      by_cases hk : key i = k
      · have hg : Function.update g (key i) (f (g (key i))) k = f (g k) := by rw [hk]; simp
        rw [ih _ (by rw [hg, hf, hf]), hg, hf, ite_self, if_pos ⟨i, List.mem_cons_self, hc, hk⟩]
      · have hg : Function.update g (key i) (f (g (key i))) k = g k :=
          Function.update_of_ne (Ne.symm hk) _ _
        rw [ih _ (by rw [hg, hf]), hg]
        simp [hk]
    · rw [if_neg hc, ih g hf]
      simp [hc]

end Redis
