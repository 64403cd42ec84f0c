import Mathlib.Data.List.Nodup
import Mathlib.Data.Finset.Card
import Mathlib.Data.List.Dedup

/-!
# Insertion-ordered dictionaries

A `Dict` is a list of key/value pairs with distinct keys, in insertion order.
`set` overwrites a value in place and appends a new key, so the order of the
items is the order in which the keys were first set. Mathlib's `AList` moves an
overwritten key to the front, which is observable wherever the items are scanned
in order.

* `get?_set`, `get?_erase`, `get?_filter`: lookups after each operation.
* `set_set`, `set_of_get?`: overwriting twice, overwriting with the same value.
* `get?_foldl_update`: updating many keys in turn.
* `fromKeys`: the keys of a list without repetition.
* `count_eq_card`: counting items is counting distinct keys.
-/

/-- A dictionary whose items are kept in insertion order. -/
structure Dict (κ ν : Type*) where
  items : List (κ × ν)
  nodup : (items.map Prod.fst).Nodup

namespace Dict

variable {κ ν : Type*}

theorem ext_items {d e : Dict κ ν} (h : d.items = e.items) : d = e := by
  cases d; cases e; simp_all

/-- The empty dictionary. -/
def empty : Dict κ ν := ⟨[], List.nodup_nil⟩

/-- The items that satisfy `p`. -/
def filter (d : Dict κ ν) (p : κ × ν → Bool) : Dict κ ν :=
  ⟨d.items.filter p, d.nodup.sublist (List.filter_sublist.map _)⟩

/-- The number of items that satisfy `p`. -/
def count (d : Dict κ ν) (p : κ × ν → Bool) : ℕ := d.items.countP p

theorem filter_filter (d : Dict κ ν) (p : κ × ν → Bool) : (d.filter p).filter p = d.filter p := by
  apply ext_items; simp [filter]

variable [DecidableEq κ]

/-- The value of `k`, if `k` is set. -/
def get? (d : Dict κ ν) (k : κ) : Option ν := d.items.lookup k

/-- Whether `k` is set. -/
def contains (d : Dict κ ν) (k : κ) : Bool := (d.get? k).isSome

theorem keys_replace (l : List (κ × ν)) (k : κ) (v : ν) :
    (l.map fun p => if p.1 = k then (k, v) else p).map Prod.fst = l.map Prod.fst := by
  rw [List.map_map]
  apply List.map_congr_left
  intro p _
  by_cases h : p.1 = k <;> simp [h]

/-- `d[k] = v`: in place when `k` is set, at the end otherwise. -/
def set (d : Dict κ ν) (k : κ) (v : ν) : Dict κ ν :=
  if h : k ∈ d.items.map Prod.fst then
    ⟨d.items.map fun p => if p.1 = k then (k, v) else p, by rw [keys_replace]; exact d.nodup⟩
  else
    ⟨d.items ++ [(k, v)], by
      rw [List.map_append, List.map_singleton]
      exact d.nodup.append (List.nodup_singleton k) (by simpa using h)⟩

/-- `d.pop(k, None)`. -/
def erase (d : Dict κ ν) (k : κ) : Dict κ ν := d.filter fun p => p.1 ≠ k

/-- The keys of the items that satisfy `p`. -/
def keysWhere (d : Dict κ ν) (p : κ × ν → Bool) : Finset κ :=
  ((d.items.filter p).map Prod.fst).toFinset

/-! ## Lookups -/

theorem lookup_eq_some {l : List (κ × ν)} (hl : (l.map Prod.fst).Nodup) {k : κ} {v : ν} :
    l.lookup k = some v ↔ (k, v) ∈ l := by
  induction l with
  | nil => simp
  | cons p l ih =>
    obtain ⟨a, b⟩ := p
    simp only [List.map_cons, List.nodup_cons] at hl
    by_cases h : k = a
    · subst h
      have hv : ∀ w, (k, w) ∉ l := fun w hw => hl.1 (List.mem_map.2 ⟨_, hw, rfl⟩)
      simp [hv, eq_comm]
    · have hka : (k == a) = false := by simpa using h
      simp [List.lookup_cons, hka, ih hl.2, h]

theorem get?_eq_some {d : Dict κ ν} {k : κ} {v : ν} : d.get? k = some v ↔ (k, v) ∈ d.items :=
  lookup_eq_some d.nodup

theorem get?_eq_none {d : Dict κ ν} {k : κ} : d.get? k = none ↔ k ∉ d.items.map Prod.fst := by
  constructor
  · intro h hk
    obtain ⟨⟨a, v⟩, hm, rfl⟩ := List.mem_map.1 hk
    rw [get?_eq_some.2 hm] at h; cases h
  · intro h
    cases hg : d.get? k with
    | none => rfl
    | some v => exact absurd (List.mem_map.2 ⟨_, get?_eq_some.1 hg, rfl⟩) h

/-- Two lookups agree when they hold of the same values. -/
theorem get?_congr {d e : Dict κ ν} {k k' : κ}
    (h : ∀ v, (k, v) ∈ d.items ↔ (k', v) ∈ e.items) : d.get? k = e.get? k' := by
  apply Option.ext
  intro v
  rw [get?_eq_some, get?_eq_some, h]

theorem get?_set_self (d : Dict κ ν) (k : κ) (v : ν) : (d.set k v).get? k = some v := by
  rw [get?_eq_some]
  unfold set
  split
  · rename_i h
    obtain ⟨p, hp, hk⟩ := List.mem_map.1 h
    exact List.mem_map.2 ⟨p, hp, by rw [if_pos hk]⟩
  · simp

theorem get?_set_ne (d : Dict κ ν) {k k' : κ} (h : k' ≠ k) (v : ν) :
    (d.set k v).get? k' = d.get? k' := by
  apply get?_congr
  intro w
  unfold set
  split
  · simp only [List.mem_map]
    constructor
    · rintro ⟨p, hp, he⟩
      by_cases hpk : p.1 = k
      · rw [if_pos hpk] at he; exact absurd (congrArg Prod.fst he).symm h
      · rw [if_neg hpk] at he; rwa [← he]
    · intro hm
      exact ⟨_, hm, by rw [if_neg h]⟩
  · simp [h]

theorem get?_set (d : Dict κ ν) (k k' : κ) (v : ν) :
    (d.set k v).get? k' = if k' = k then some v else d.get? k' := by
  by_cases h : k' = k
  · subst h; rw [if_pos rfl, get?_set_self]
  · rw [if_neg h, get?_set_ne d h]

theorem get?_filter (d : Dict κ ν) (p : κ × ν → Bool) (k : κ) :
    (d.filter p).get? k = (d.get? k).filter fun v => p (k, v) := by
  apply Option.ext
  intro v
  rw [get?_eq_some, Option.filter_eq_some_iff, get?_eq_some]
  simp [filter]

theorem get?_erase (d : Dict κ ν) (k k' : κ) :
    (d.erase k).get? k' = if k' = k then none else d.get? k' := by
  unfold erase
  rw [get?_filter]
  by_cases h : k' = k
  · subst h; cases d.get? k' <;> simp [Option.filter]
  · rw [if_neg h]; cases d.get? k' <;> simp [Option.filter, h]

/-! ## Overwriting -/

/-- Setting a key to the value it has changes nothing. -/
theorem set_of_get? {d : Dict κ ν} {k : κ} {v : ν} (h : d.get? k = some v) : d.set k v = d := by
  have hm := get?_eq_some.1 h
  have hk : k ∈ d.items.map Prod.fst := List.mem_map.2 ⟨_, hm, rfl⟩
  apply ext_items
  unfold set
  rw [dif_pos hk]
  conv_rhs => rw [← List.map_id d.items]
  apply List.map_congr_left
  intro p hp
  by_cases hpk : p.1 = k
  · have : d.get? p.1 = some p.2 := get?_eq_some.2 hp
    rw [hpk, h] at this
    rw [if_pos hpk, id, Option.some.inj this, ← hpk]
  · rw [if_neg hpk, id]

theorem set_set (d : Dict κ ν) (k : κ) (v : ν) : (d.set k v).set k v = d.set k v :=
  set_of_get? (get?_set_self d k v)

/-- A new key goes to the end. -/
theorem items_set_new {d : Dict κ ν} {k : κ} (h : d.get? k = none) (v : ν) :
    (d.set k v).items = d.items ++ [(k, v)] := by
  unfold set; rw [dif_neg (get?_eq_none.1 h)]

/-- Setting a key again after filtering, and filtering again, changes nothing. -/
theorem filter_set_again (d : Dict κ ν) (k : κ) (v : ν) (p : κ × ν → Bool) :
    (((d.set k v).filter p).set k v).filter p = (d.set k v).filter p := by
  have hg : ((d.set k v).filter p).get? k = if p (k, v) then some v else none := by
    rw [get?_filter, get?_set_self]; rfl
  by_cases hp : p (k, v) = true
  · rw [if_pos hp] at hg
    rw [set_of_get? hg, filter_filter]
  · rw [if_neg hp] at hg
    apply ext_items
    have hi := items_set_new hg v
    simp only [filter] at hi ⊢
    rw [hi]
    simp [hp]

/-- Filtering what was just set into nothing leaves nothing of the setting. -/
theorem filter_set_empty {d : Dict κ ν} {k : κ} {v : ν} {p : κ × ν → Bool}
    (h : ((d.set k v).filter p).items = []) : (((empty : Dict κ ν).set k v).filter p).items = [] := by
  have hp : ¬ p (k, v) = true := by
    intro hp
    have := get?_eq_some.1 (get?_set_self d k v)
    have hm : (k, v) ∈ ((d.set k v).filter p).items := List.mem_filter.2 ⟨this, hp⟩
    rw [h] at hm; cases hm
  simp [filter, set, empty, hp]

theorem mem_keys_set {d : Dict κ ν} {k k' : κ} {v : ν} (h : k' ∈ (d.set k v).items.map Prod.fst) :
    k' = k ∨ k' ∈ d.items.map Prod.fst := by
  by_contra hno
  rw [not_or] at hno
  exact get?_eq_none.1 ((get?_set_ne d hno.1 v).trans (get?_eq_none.2 hno.2)) h

theorem mem_keys_erase {d : Dict κ ν} {k k' : κ} (h : k' ∈ (d.erase k).items.map Prod.fst) :
    k' ∈ d.items.map Prod.fst := by
  obtain ⟨p, hp, rfl⟩ := List.mem_map.1 h
  exact List.mem_map_of_mem (List.mem_of_mem_filter hp)

/-! ## Many items -/

/-- Setting other keys leaves a key alone. -/
theorem get?_foldl_set_ne {k : κ} (l : List (κ × ν)) : ∀ d : Dict κ ν, k ∉ l.map Prod.fst →
    (l.foldl (fun d p => d.set p.1 p.2) d).get? k = d.get? k := by
  induction l with
  | nil => intro d _; rfl
  | cons p l ih =>
    intro d hk
    rw [List.map_cons, List.mem_cons, not_or] at hk
    rw [List.foldl_cons, ih _ hk.2, get?_set_ne _ hk.1]

/-- Of distinct keys each has the value it was set to. -/
theorem get?_foldl_set {k : κ} {v : ν} (l : List (κ × ν)) : ∀ d : Dict κ ν, (l.map Prod.fst).Nodup →
    (k, v) ∈ l → (l.foldl (fun d p => d.set p.1 p.2) d).get? k = some v := by
  induction l with
  | nil => intro d _ h; cases h
  | cons p l ih =>
    intro d hn h
    rw [List.map_cons, List.nodup_cons] at hn
    rcases List.mem_cons.1 h with rfl | h
    · rw [List.foldl_cons, get?_foldl_set_ne _ _ hn.1, get?_set_self]
    · exact ih _ hn.2 h

/-- **Updating keys one after the other** updates each by the steps that are its own. -/
theorem get?_foldl_update {α : Type*} (key : α → κ) (f : α → Option ν → ν) (k : κ) (l : List α) :
    ∀ d : Dict κ ν, (l.foldl (fun d x => d.set (key x) (f x (d.get? (key x)))) d).get? k =
      (l.filter fun x => key x = k).foldl (fun o x => some (f x o)) (d.get? k) := by
  induction l with
  | nil => intro d; rfl
  | cons x l ih =>
    intro d
    rw [List.foldl_cons, ih]
    by_cases h : key x = k
    · rw [List.filter_cons_of_pos (by simpa using h), List.foldl_cons, h, get?_set_self]
    · rw [List.filter_cons_of_neg (by simpa using h), get?_set_ne _ (Ne.symm h)]

/-- The keys without repetition, in the order in which they come first. -/
def fromKeys (l : List κ) : List κ :=
  ((l.foldl (fun d k => d.set k ()) (empty : Dict κ Unit)).items).map Prod.fst

theorem fromKeys_nodup (l : List κ) : (fromKeys l).Nodup := Dict.nodup _

theorem mem_fromKeys {l : List κ} {k : κ} : k ∈ fromKeys l ↔ k ∈ l := by
  have hget := get?_foldl_update (ν := Unit) (fun k : κ => k) (fun _ _ => ()) k l empty
  have hempty : (empty : Dict κ Unit).get? k = none := rfl
  rw [hempty] at hget
  have hnone : k ∉ fromKeys l ↔ l.filter (fun x => x = k) = [] := by
    unfold fromKeys
    rw [← get?_eq_none, hget]
    cases l.filter (fun x => x = k) with
    | nil => simp
    | cons x xs =>
      have hsome : ∀ (ys : List κ) (o : Option Unit), (o ≠ none ∨ ys ≠ []) →
          ys.foldl (fun _ _ => some ()) o ≠ none := by
        intro ys
        induction ys with
        | nil => intro o h; exact h.resolve_right fun h => h rfl
        | cons y ys ih => intro o _; exact ih _ (Or.inl (by simp))
      simpa using hsome (x :: xs) none (Or.inr (by simp))
  have hmem : k ∉ l ↔ l.filter (fun x => x = k) = [] := by
    rw [List.filter_eq_nil_iff]
    simp only [decide_eq_true_eq]
    constructor
    · rintro h x hx rfl; exact h hx
    · intro h hk; exact h k hk rfl
  exact not_iff_not.1 (hnone.trans hmem.symm)

/-! ## Counting -/

theorem mem_keysWhere {d : Dict κ ν} {p : κ × ν → Bool} {k : κ} :
    k ∈ d.keysWhere p ↔ ∃ v, d.get? k = some v ∧ p (k, v) = true := by
  unfold keysWhere
  simp only [List.mem_toFinset, List.mem_map, List.mem_filter, get?_eq_some]
  constructor
  · rintro ⟨⟨a, v⟩, h, rfl⟩; exact ⟨v, h⟩
  · rintro ⟨v, h⟩; exact ⟨(k, v), h, rfl⟩

/-- **Counting items is counting distinct keys.** -/
theorem count_eq_card (d : Dict κ ν) (p : κ × ν → Bool) : d.count p = (d.keysWhere p).card := by
  unfold count keysWhere
  rw [List.card_toFinset, List.Nodup.dedup, List.length_map, List.countP_eq_length_filter]
  exact d.nodup.sublist (List.filter_sublist.map _)

end Dict
