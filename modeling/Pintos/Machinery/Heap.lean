import Mathlib.Data.List.Nodup
import Mathlib.Algebra.Group.Nat.Defs

/-!
# Machinery/Heap — objects by their address

A `Heap` holds objects of one type, the newest first, each under an address of its own; what is
allocated next gets an address that was never used. Every operation says what it does to the search
for the newest object with a property, and to the count of those.
-/

namespace Machinery

open Option

/-- Objects by their address, the newest first. -/
structure Heap (α : Type) where
  cells : List (ℕ × α)
  /-- the address of what is allocated next -/
  next : ℕ
  fresh : ∀ c ∈ cells, c.1 < next
  nodup : (cells.map Prod.fst).Nodup

namespace Heap

variable {α : Type}

def empty : Heap α := ⟨[], 0, nofun, List.nodup_nil⟩

def get? (h : Heap α) (a : ℕ) : Option α := (h.cells.find? fun c => c.1 = a).map Prod.snd

/-- The newest object with `p`, and its address. -/
def search (h : Heap α) (p : α → Bool) : Option (ℕ × α) := h.cells.find? fun c => p c.2

/-- How many objects have `p`. -/
def count (h : Heap α) (p : α → Bool) : ℕ := h.cells.countP fun c => p c.2

/-- A new object, at the address `h.next`. -/
def alloc (h : Heap α) (x : α) : Heap α where
  cells := (h.next, x) :: h.cells
  next := h.next + 1
  fresh := by
    intro c hc
    obtain rfl | hc := List.mem_cons.mp hc
    · exact Nat.lt_succ_self _
    · exact Nat.lt_succ_of_lt (h.fresh c hc)
  nodup := by
    rw [List.map_cons, List.nodup_cons]
    refine ⟨fun hmem => ?_, h.nodup⟩
    obtain ⟨c, hc, hnext⟩ := List.mem_map.mp hmem
    exact Nat.lt_irrefl _ (hnext ▸ h.fresh c hc)

/-- The object at `a` goes. -/
def free (h : Heap α) (a : ℕ) : Heap α where
  cells := h.cells.filter fun c => c.1 ≠ a
  next := h.next
  fresh c hc := h.fresh c (List.mem_filter.mp hc).1
  nodup := h.nodup.sublist (List.filter_sublist.map _)

/-- The cell of `a` with its object changed, the others as they are. -/
def touch (a : ℕ) (f : α → α) (c : ℕ × α) : ℕ × α := (c.1, if c.1 = a then f c.2 else c.2)

def modify (h : Heap α) (a : ℕ) (f : α → α) : Heap α where
  cells := h.cells.map (touch a f)
  next := h.next
  fresh := by
    intro c hc
    obtain ⟨d, hd, rfl⟩ := List.mem_map.mp hc
    exact h.fresh d hd
  nodup := by
    rw [List.map_map]
    exact h.nodup

/-! ## Finding -/

section

variable {h : Heap α} {a b : ℕ} {x : α} {p : α → Bool}

lemma get?_eq_some : h.get? a = some x ↔ (a, x) ∈ h.cells := by
  constructor
  · intro hget
    obtain ⟨c, hc, rfl⟩ := map_eq_some_iff.mp hget
    obtain rfl : c.1 = a := by simpa using List.find?_some hc
    exact List.mem_of_find?_eq_some hc
  · intro hmem
    obtain ⟨c, hc⟩ : ∃ c, h.cells.find? (fun c => c.1 = a) = some c :=
      isSome_iff_exists.mp (List.find?_isSome.mpr ⟨(a, x), hmem, by simp⟩)
    have hca : c.1 = a := by simpa using List.find?_some hc
    have hinj := List.inj_on_of_nodup_map h.nodup (List.mem_of_find?_eq_some hc) hmem hca
    rw [get?, hc, hinj]
    rfl

lemma lt_next (hx : h.get? a = some x) : a < h.next := h.fresh _ (get?_eq_some.mp hx)

lemma ne_next (hx : h.get? a = some x) : a ≠ h.next := Nat.ne_of_lt (lt_next hx)

lemma get?_next (h : Heap α) : h.get? h.next = none :=
  Option.eq_none_iff_forall_ne_some.mpr fun _ hx => ne_next hx rfl

@[simp] lemma get?_alloc_self (h : Heap α) (x : α) : (h.alloc x).get? h.next = some x :=
  get?_eq_some.mpr List.mem_cons_self

lemma get?_alloc_of_ne (ha : a ≠ h.next) (x : α) : (h.alloc x).get? a = h.get? a := by
  have hne : (decide (h.next = a)) = false := by simpa using Ne.symm ha
  simp only [get?, alloc, List.find?_cons, hne]

lemma get?_alloc_of_some (hx : h.get? a = some x) (y : α) : (h.alloc y).get? a = some x := by
  rw [get?_alloc_of_ne (ne_next hx), hx]

@[simp] lemma get?_free_self (h : Heap α) (a : ℕ) : (h.free a).get? a = none := by
  refine eq_none_iff_forall_ne_some.mpr fun x hx => ?_
  simpa using (List.mem_filter.mp (get?_eq_some.mp hx)).2

lemma get?_free_of_ne (hab : b ≠ a) : (h.free a).get? b = h.get? b := by
  refine ext fun x => ?_
  rw [get?_eq_some, get?_eq_some]
  refine List.mem_filter.trans (and_iff_left ?_)
  simpa using hab

lemma get?_free_eq_some : (h.free a).get? b = some x ↔ b ≠ a ∧ h.get? b = some x := by
  obtain rfl | hab := eq_or_ne b a
  · simp
  · rw [get?_free_of_ne hab]
    exact (and_iff_right hab).symm

lemma get?_modify_self (hx : h.get? a = some x) (f : α → α) :
    (h.modify a f).get? a = some (f x) := by
  refine get?_eq_some.mpr (List.mem_map.mpr ⟨(a, x), get?_eq_some.mp hx, ?_⟩)
  simp [touch]

lemma get?_modify_of_ne (hab : b ≠ a) (f : α → α) : (h.modify a f).get? b = h.get? b := by
  refine ext fun x => ?_
  rw [get?_eq_some, get?_eq_some]
  constructor
  · intro hmem
    obtain ⟨⟨b', y⟩, hc, heq⟩ := List.mem_map.mp hmem
    obtain ⟨rfl, rfl⟩ := Prod.mk.inj heq
    rwa [if_neg hab]
  · intro hmem
    exact List.mem_map.mpr ⟨(b, x), hmem, by simp [touch, hab]⟩

lemma get?_modify (h : Heap α) (a b : ℕ) (f : α → α) :
    (h.modify a f).get? b = (h.get? b).map fun x => if b = a then f x else x := by
  obtain rfl | hb := eq_or_ne b a
  · cases hx : h.get? b with
    | none =>
      refine eq_none_iff_forall_ne_some.mpr fun y hy => ?_
      obtain ⟨⟨c, x⟩, hc, heq⟩ := List.mem_map.mp (get?_eq_some.mp hy)
      obtain rfl : c = b := (Prod.mk.inj heq).1
      rw [get?_eq_some.mpr hc] at hx
      cases hx
    | some x => simpa using get?_modify_self hx f
  · simp [get?_modify_of_ne hb, hb]

lemma search_eq_some (hs : h.search p = some (a, x)) : h.get? a = some x ∧ p x = true := by
  have hp := List.find?_some hs
  exact ⟨get?_eq_some.mpr (List.mem_of_find?_eq_some hs), hp⟩

lemma search_eq_none (hs : h.search p = none) (hx : h.get? a = some x) : p x = false := by
  simpa using List.find?_eq_none.mp hs _ (get?_eq_some.mp hx)

/-! ## Counting -/

lemma count_alloc (h : Heap α) (x : α) (p : α → Bool) :
    (h.alloc x).count p = h.count p + (p x).toNat := by
  rw [count, alloc, List.countP_cons]
  cases p x <;> rfl

lemma count_pos (hx : h.get? a = some x) (hp : p x = true) : 0 < h.count p :=
  List.countP_pos_iff.mpr ⟨(a, x), get?_eq_some.mp hx, hp⟩

lemma count_mono {q : α → Bool} (hpq : ∀ a x, h.get? a = some x → p x = true → q x = true) :
    h.count p ≤ h.count q :=
  List.countP_mono_left fun c hc => hpq c.1 c.2 (get?_eq_some.mpr hc)

lemma exists_of_count_pos (hpos : 0 < h.count p) : ∃ a x, h.get? a = some x ∧ p x = true := by
  obtain ⟨⟨a, x⟩, hmem, hp⟩ := List.countP_pos_iff.mp hpos
  exact ⟨a, x, get?_eq_some.mpr hmem, hp⟩

lemma countP_filter_of_nodup {l : List (ℕ × α)} (hl : (l.map Prod.fst).Nodup)
    (hx : (a, x) ∈ l) (p : α → Bool) :
    (l.filter fun c => c.1 ≠ a).countP (fun c => p c.2) + (p x).toNat =
      l.countP fun c => p c.2 := by
  induction l with
  | nil => cases hx
  | cons c l ih =>
    obtain ⟨hc, hl⟩ := List.nodup_cons.mp hl
    rw [List.countP_cons]
    obtain rfl | hx := List.mem_cons.mp hx
    · have hself : l.filter (fun c => c.1 ≠ a) = l := by
        refine List.filter_eq_self.mpr fun d hd => ?_
        have hne : d.1 ≠ a := fun hda => hc (List.mem_map.mpr ⟨d, hd, hda⟩)
        simpa using hne
      rw [List.filter_cons_of_neg (by simp), hself]
      cases p x <;> rfl
    · have hca : c.1 ≠ a := by
        intro hca
        exact hc (List.mem_map.mpr ⟨_, hx, hca.symm⟩)
      rw [List.filter_cons_of_pos (by simpa using hca), List.countP_cons, ← ih hl hx]
      omega

/-- One object less. -/
lemma count_free (hx : h.get? a = some x) (p : α → Bool) :
    (h.free a).count p + (p x).toNat = h.count p :=
  countP_filter_of_nodup h.nodup (get?_eq_some.mp hx) p

lemma countP_map_of_nodup {l : List (ℕ × α)} (hl : (l.map Prod.fst).Nodup) (hx : (a, x) ∈ l)
    (f : α → α) (p : α → Bool) :
    (l.map (touch a f)).countP (fun c => p c.2) + (p x).toNat =
      l.countP (fun c => p c.2) + (p (f x)).toNat := by
  induction l with
  | nil => cases hx
  | cons c l ih =>
    obtain ⟨hc, hl⟩ := List.nodup_cons.mp hl
    rw [List.map_cons, List.countP_cons, List.countP_cons]
    obtain rfl | hx := List.mem_cons.mp hx
    · have hself : l.map (touch a f) = l := by
        refine (List.map_congr_left fun d hd => ?_).trans (List.map_id l)
        have hne : d.1 ≠ a := fun hda => hc (List.mem_map.mpr ⟨d, hd, hda⟩)
        simp [touch, hne]
      have htouch : (touch a f (a, x)).2 = f x := if_pos rfl
      rw [hself, htouch]
      cases p x <;> cases p (f x) <;> rfl
    · have hca : c.1 ≠ a := by
        intro hca
        exact hc (List.mem_map.mpr ⟨_, hx, hca.symm⟩)
      have htouch : (touch a f c).2 = c.2 := if_neg hca
      rw [htouch]
      have := ih hl hx
      omega

lemma count_modify (hx : h.get? a = some x) (f : α → α) (p : α → Bool) :
    (h.modify a f).count p + (p x).toNat = h.count p + (p (f x)).toNat :=
  countP_map_of_nodup h.nodup (get?_eq_some.mp hx) f p

end

/-! ## Addresses -/

/-- The addresses in use. -/
def addresses (h : Heap α) : List ℕ := h.cells.map Prod.fst

lemma mem_addresses {h : Heap α} {a : ℕ} : a ∈ h.addresses ↔ ∃ x, h.get? a = some x := by
  simp [addresses, get?_eq_some]

lemma addresses_alloc (h : Heap α) (x : α) : (h.alloc x).addresses = h.next :: h.addresses := rfl

lemma addresses_modify (h : Heap α) (a : ℕ) (f : α → α) :
    (h.modify a f).addresses = h.addresses := by
  simp [addresses, modify, touch, Function.comp_def]

lemma addresses_free (h : Heap α) (a : ℕ) : (h.free a).addresses = h.addresses.erase a := by
  rw [addresses, addresses, h.nodup.erase_eq_filter a, List.filter_map]
  refine congrArg _ (List.filter_congr fun c _ => ?_)
  simp [bne, beq_eq_decide]

lemma count_eq_countP (h : Heap α) (p : α → Bool) :
    h.count p = h.addresses.countP fun a => (h.get? a).any p := by
  rw [addresses, List.countP_map]
  refine List.countP_congr fun c hc => ?_
  have hget : h.get? c.1 = some c.2 := get?_eq_some.mpr hc
  simp [hget]

/-! ## Growing older -/

/-- `h'` is `h`, later: what was freed by then is free. -/
structure Later (h h' : Heap α) : Prop where
  next : h.next ≤ h'.next
  gone : ∀ a < h.next, h.get? a = none → h'.get? a = none

section

variable {h h' h'' : Heap α}

lemma Later.refl (h : Heap α) : h.Later h := ⟨Nat.le_refl _, fun _ _ => id⟩

lemma Later.trans (hh : h.Later h') (hh' : h'.Later h'') : h.Later h'' where
  next := Nat.le_trans hh.next hh'.next
  gone a ha hnone := hh'.gone a (Nat.lt_of_lt_of_le ha hh.next) (hh.gone a ha hnone)

lemma later_alloc (h : Heap α) (x : α) : h.Later (h.alloc x) where
  next := Nat.le_succ _
  gone _ ha hnone := (get?_alloc_of_ne (Nat.ne_of_lt ha) x).trans hnone

lemma later_free (h : Heap α) (b : ℕ) : h.Later (h.free b) where
  next := Nat.le_refl _
  gone a _ hnone := by
    by_cases hab : a = b
    · rw [hab]
      exact get?_free_self h b
    · exact (get?_free_of_ne hab).trans hnone

lemma later_modify (h : Heap α) (b : ℕ) (f : α → α) : h.Later (h.modify b f) where
  next := Nat.le_refl _
  gone _ _ hnone := by rw [get?_modify, hnone, map_none]

end

end Heap

end Machinery
