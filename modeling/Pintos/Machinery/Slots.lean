import Mathlib.Data.Finset.Card

/-!
# Machinery/Slots — a table of slots as the things in it

The entries of a table are the things in its slots, in order. When they are pairs with distinct
keys, the table represents a finite map: filling a slot is an insertion, clearing one a deletion,
and a scan from the first slot on lists every key once.
-/

namespace Machinery

open Function List

variable {α : Type}

/-- What the first `n` slots hold. -/
def entries (n : ℕ) (t : ℕ → Option α) : List α := (List.range n).filterMap t

section

variable {n k : ℕ} {t t' : ℕ → Option α} {a : α}

lemma entries_succ (n : ℕ) (t : ℕ → Option α) : entries (n + 1) t = entries n t ++ (t n).toList := by
  rw [entries, range_succ, entries]
  cases h : t n <;> simp [h]

lemma mem_entries : a ∈ entries n t ↔ ∃ k < n, t k = some a := by simp [entries, mem_filterMap]

lemma entries_congr (h : ∀ k < n, t k = t' k) : entries n t = entries n t' :=
  filterMap_congr fun k hk => h k (mem_range.mp hk)

lemma length_entries_le (n : ℕ) (t : ℕ → Option α) : (entries n t).length ≤ n := by
  simpa [entries] using length_filterMap_le t (List.range n)

/-- There is a free slot as long as there are fewer entries than slots. -/
lemma exists_free_iff : (∃ k < n, t k = none) ↔ (entries n t).length < n := by
  induction n with
  | zero => simp
  | succ n ih =>
    have hle := length_entries_le n t
    rw [entries_succ, length_append]
    cases h : t n with
    | none =>
      refine iff_of_true ⟨n, Nat.lt_succ_self n, h⟩ ?_
      simp only [Option.toList_none, length_nil]
      omega
    | some a =>
      simp only [Option.toList_some, length_singleton]
      rw [Nat.add_lt_add_iff_right, ← ih]
      constructor
      · rintro ⟨k, hk, hfree⟩
        refine ⟨k, ?_, hfree⟩
        obtain hk | rfl := Nat.lt_succ_iff_lt_or_eq.mp hk
        · exact hk
        · rw [h] at hfree
          cases hfree
      · rintro ⟨k, hk, hfree⟩
        exact ⟨k, Nat.lt_succ_of_lt hk, hfree⟩

/-- A slot is overwritten: what it held goes, and what it holds comes. -/
lemma entries_update (hk : k < n) (t : ℕ → Option α) (o : Option α) :
    ((t k).toList ++ entries n (update t k o)).Perm (o.toList ++ entries n t) := by
  induction n with
  | zero => cases hk
  | succ n ih =>
    rw [entries_succ, entries_succ]
    obtain hk | rfl := Nat.lt_succ_iff_lt_or_eq.mp hk
    · rw [update_of_ne (by omega), ← append_assoc, ← append_assoc]
      exact (ih hk).append_right _
    · rw [entries_congr fun j hj => update_of_ne (Nat.ne_of_lt hj) .., update_self]
      refine perm_append_comm.trans ?_
      rw [← append_assoc]
      exact perm_append_comm.append_right _

lemma entries_fill (hk : k < n) (hfree : t k = none) (a : α) :
    (entries n (update t k (some a))).Perm (a :: entries n t) := by
  have h := entries_update hk t (some a)
  rwa [hfree] at h

lemma entries_clear (hk : k < n) (h : t k = some a) :
    (a :: entries n (update t k none)).Perm (entries n t) := by
  have hperm := entries_update hk t none
  rwa [h] at hperm

lemma countP_entries_map {β : Type} {g : ℕ → α → β} {p : β → Bool} {q : α → Bool}
    (h : ∀ i a, p (g i a) = q a) (n : ℕ) (t : ℕ → Option α) :
    (entries n fun i => (t i).map (g i)).countP p = (entries n t).countP q := by
  induction n with
  | zero => rfl
  | succ n ih =>
    rw [entries_succ, entries_succ, countP_append, countP_append, ih]
    cases t n with
    | none => rfl
    | some a => simp [h]

lemma length_entries_map {β : Type} (g : ℕ → α → β) (n : ℕ) (t : ℕ → Option α) :
    (entries n fun i => (t i).map (g i)).length = (entries n t).length := by
  have h := countP_entries_map (g := g) (p := fun _ => true)
    (fun _ _ => rfl) n t
  rwa [countP_true, countP_true] at h

/-! ## Scans -/

/-- What the slots from `k` on, up to `n`, hold. -/
def entriesFrom (k n : ℕ) (t : ℕ → Option α) : List α := (List.range' k (n - k)).filterMap t

lemma entriesFrom_zero (n : ℕ) (t : ℕ → Option α) : entriesFrom 0 n t = entries n t := by
  rw [entriesFrom, entries, range_eq_range', Nat.sub_zero]

lemma entriesFrom_self (n : ℕ) (t : ℕ → Option α) : entriesFrom n n t = [] := by
  rw [entriesFrom, Nat.sub_self]
  rfl

lemma entriesFrom_of_lt (hk : k < n) (t : ℕ → Option α) :
    entriesFrom k n t = (t k).toList ++ entriesFrom (k + 1) n t := by
  have hn : n - k = n - (k + 1) + 1 := by omega
  rw [entriesFrom, hn, range'_succ, filterMap_cons]
  cases t k <;> rfl

lemma entriesFrom_skip {j : ℕ} (hkj : k ≤ j) (hj : j ≤ n) (hfree : ∀ i, k ≤ i → i < j → t i = none) :
    entriesFrom k n t = entriesFrom j n t := by
  induction j, hkj using Nat.le_induction with
  | base => rfl
  | succ j hkj ih =>
    rw [ih (by omega) fun i hi hij => hfree i hi (by omega), entriesFrom_of_lt hj,
      hfree j hkj (Nat.lt_succ_self j)]
    rfl

end

/-! ## Finite maps -/

/-- A table represents a finite map: no key is in two slots, and the pairs in them are the map's. -/
structure Represents {κ β : Type} [DecidableEq κ] [DecidableEq β] (n : ℕ) (t : ℕ → Option (κ × β))
    (map : Finset (κ × β)) : Prop where
  keys : ((entries n t).map Prod.fst).Nodup
  pairs : (entries n t).toFinset = map

namespace Represents

variable {κ β : Type} [DecidableEq κ] [DecidableEq β] {n k : ℕ} {t t' : ℕ → Option (κ × β)}
  {map : Finset (κ × β)} {p : κ × β}

lemma mem_iff (h : Represents n t map) : p ∈ map ↔ ∃ k < n, t k = some p := by
  rw [← h.pairs, mem_toFinset, mem_entries]

lemma congr (h : Represents n t map) (ht : ∀ k < n, t' k = t k) : Represents n t' map := by
  have hentries := entries_congr ht
  exact ⟨hentries ▸ h.keys, hentries ▸ h.pairs⟩

/-- There is a free slot as long as the map is smaller than the table. -/
lemma exists_free_iff (h : Represents n t map) : (∃ k < n, t k = none) ↔ map.card < n := by
  rw [Machinery.exists_free_iff, ← h.pairs, toFinset_card_of_nodup (.of_map _ h.keys)]

lemma of_free (hfree : ∀ k < n, t k = none) : Represents n t ∅ := by
  have hnil : entries n t = [] := eq_nil_iff_forall_not_mem.mpr fun p hp => by
    obtain ⟨k, hk, hp⟩ := mem_entries.mp hp
    rw [hfree k hk] at hp
    cases hp
  refine ⟨?_, ?_⟩
  · rw [hnil]
    exact nodup_nil
  · rw [hnil]
    rfl

/-- A pair with a new key is put in a free slot. -/
lemma insert (h : Represents n t map) (hk : k < n) (hfree : t k = none)
    (hnew : ∀ b, (p.1, b) ∉ map) (ht : ∀ j < n, t' j = if j = k then some p else t j) :
    Represents n t' (Insert.insert p map) := by
  have hperm : (entries n t').Perm (p :: entries n t) := by
    refine (List.Perm.of_eq (entries_congr fun j hj => ?_)).trans (entries_fill hk hfree p)
    rw [ht j hj, update_apply]
  refine ⟨?_, ?_⟩
  · rw [(hperm.map Prod.fst).nodup_iff, map_cons, nodup_cons]
    refine ⟨fun hmem => ?_, h.keys⟩
    obtain ⟨q, hq, hkey⟩ := List.mem_map.mp hmem
    refine hnew q.2 ?_
    rw [← hkey, ← h.pairs]
    exact mem_toFinset.mpr hq
  · rw [toFinset_eq_of_perm _ _ hperm, toFinset_cons, h.pairs]

/-- A slot is cleared, and the key in it is in no other. -/
lemma erase (h : Represents n t map) (hk : k < n) (hp : t k = some p)
    (ht : ∀ j < n, t' j = if j = k then none else t j) :
    Represents n t' (map.filter fun q => q.1 ≠ p.1) := by
  have hperm : (p :: entries n t').Perm (entries n t) := by
    refine (List.Perm.of_eq (congrArg (p :: ·) (entries_congr fun j hj => ?_))).trans
      (entries_clear hk hp)
    rw [ht j hj, update_apply]
  have hkeys := h.keys
  rw [← (hperm.map Prod.fst).nodup_iff, map_cons, nodup_cons] at hkeys
  refine ⟨hkeys.2, ?_⟩
  ext q
  rw [Finset.mem_filter, ← h.pairs, ← toFinset_eq_of_perm _ _ hperm, toFinset_cons,
    Finset.mem_insert, mem_toFinset]
  constructor
  · intro hq
    refine ⟨.inr hq, fun hkey => hkeys.1 ?_⟩
    rw [← hkey]
    exact mem_map_of_mem hq
  · rintro ⟨rfl | hq, hne⟩
    · exact absurd rfl hne
    · exact hq

end Represents

end Machinery
