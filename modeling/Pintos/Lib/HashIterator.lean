import Pintos.Lib.Hash
import Pintos.Lib.ListFamily

/-!
# Lib/HashIterator — going through a hash table

An iterator goes on in the bucket of its element, and at the tail of a bucket goes to the beginning
of the next one, which may be a tail again. What is left to be found is the rest of the bucket and
the buckets after it. `hash_apply` goes through the same elements, bucket by bucket.
-/

namespace Pintos.Hash

open Machinery KernelList List

section Functions

variable {α : Type}

/-- `struct hash_iterator`, with the number of the bucket. -/
structure HashIterator (α : Type) where
  bucket : ℕ
  elem : Option α

/-- `hash_first`. -/
def hashFirst (buckets : ℕ → KernelList α) : HashIterator α := ⟨0, some (buckets 0).head⟩

variable [DecidableEq α]

def hashNextLoop (bucketCnt : ℕ) (buckets : ℕ → KernelList α) :
    ℕ → HashIterator α → ListM α (HashIterator α)
  | 0, _ => throw .endless
  | turns + 1, i => do
    if i.elem = some (buckets i.bucket).tail then
      if i.bucket + 1 ≥ bucketCnt then return ⟨i.bucket + 1, none⟩
      hashNextLoop bucketCnt buckets turns ⟨i.bucket + 1, some (← listBegin (buckets (i.bucket + 1)))⟩
    else return i

/-- `hash_next`: the iterator, which is at the element that is returned. -/
def hashNext (turns bucketCnt : ℕ) (buckets : ℕ → KernelList α) (i : HashIterator α) :
    ListM α (HashIterator α) := do
  let elem ← listNext (← deref i.elem)
  hashNextLoop bucketCnt buckets turns ⟨i.bucket, some elem⟩

/-- `while (hash_next (&i))`: the elements that `hash_cur` returns. -/
def iterateLoop (inner bucketCnt : ℕ) (buckets : ℕ → KernelList α) :
    ℕ → HashIterator α → ListM α (List α)
  | 0, _ => throw .endless
  | turns + 1, i => do
    let i ← hashNext inner bucketCnt buckets i
    match i.elem with
    | none => return []
    | some e => return e :: (← iterateLoop inner bucketCnt buckets turns i)

def iterate (turns bucketCnt : ℕ) (buckets : ℕ → KernelList α) : ListM α (List α) :=
  iterateLoop turns bucketCnt buckets turns (hashFirst buckets)

variable {σ : Type} (action : σ → α → σ)

/-- The inner loop of `hash_apply`; the action changes a state of its own. -/
def applyBucket (bucket : KernelList α) : ℕ → α → σ → ListM α σ
  | 0, _, _ => throw .endless
  | turns + 1, elem, s => do
    if elem = bucket.tail then return s
    let next ← listNext elem
    applyBucket bucket turns next (action s elem)

/-- The outer loop of `hash_apply`, with so many buckets to go from the `i`-th on. -/
def applyBuckets (turns : ℕ) (buckets : ℕ → KernelList α) : ℕ → ℕ → σ → ListM α σ
  | 0, _, s => return s
  | left + 1, i, s => do
    let s ← applyBucket action (buckets i) turns (← listBegin (buckets i)) s
    applyBuckets turns buckets left (i + 1) s

/-- `hash_apply`. -/
def hashApply (turns bucketCnt : ℕ) (buckets : ℕ → KernelList α) (s : σ) : ListM α σ :=
  applyBuckets action turns buckets bucketCnt 0 s

end Functions

/-! ## A table in memory -/

/-- A hash table in memory: its buckets are lists of their own, and there is one at least. -/
structure InMemory {α : Type} (h : Links α) (buckets : ℕ → KernelList α) (t : Hash α) : Prop where
  bucketCnt_pos : 0 < t.bucketCnt
  family : Family h (fun i : Fin t.bucketCnt => buckets i) fun i => t.buckets i

section

variable {α : Type} {h : Links α} {buckets : ℕ → KernelList α} {t : Hash α} {b left turns : ℕ}
  {m₁ m₂ : List α}

/-- What is in so many buckets from `b` on. -/
def inBuckets (t : Hash α) (b left : ℕ) : List α := (List.range' b left).flatMap t.buckets

lemma inBuckets_zero (t : Hash α) (b : ℕ) : t.inBuckets b 0 = [] := rfl

lemma inBuckets_succ (t : Hash α) (b left : ℕ) :
    t.inBuckets b (left + 1) = t.buckets b ++ t.inBuckets (b + 1) left := by
  rw [inBuckets, range'_succ, flatMap_cons, inBuckets]

lemma InMemory.wellFormed (hm : InMemory h buckets t) (hb : b < t.bucketCnt) :
    WellFormed h (buckets b) (t.buckets b) := hm.family.wellFormed ⟨b, hb⟩

lemma InMemory.nodup (hm : InMemory h buckets t) : (t.inBuckets 0 t.bucketCnt).Nodup := by
  rw [inBuckets, nodup_flatMap, ← range_eq_range']
  constructor
  · intro i hi
    have hall := (hm.wellFormed (mem_range.mp hi)).nodup
    rw [nodes, nodup_cons] at hall
    exact (nodup_append.mp hall.2).1
  · refine pairwise_lt_range.imp_of_mem fun {i j} hi hj hij => ?_
    have hapart := hm.family.apart ⟨i, mem_range.mp hi⟩ ⟨j, mem_range.mp hj⟩
      fun heq => hij.ne (Fin.mk.inj heq)
    intro x hx hx'
    exact hapart (mem_nodes.mpr (.inr (.inl hx))) (mem_nodes.mpr (.inr (.inl hx')))

lemma length_bucket_le (hb : b < t.bucketCnt) :
    (t.buckets b).length ≤ (t.inBuckets 0 t.bucketCnt).length := by
  obtain ⟨l₁, l₂, hsplit⟩ := append_of_mem (mem_range.mpr hb)
  rw [inBuckets, ← range_eq_range', hsplit, flatMap_append, flatMap_cons,
    length_append, length_append]
  omega

variable [DecidableEq α]

/-! ## The iterator -/

/-- An iterator is at an element, with the elements `rest` to come. -/
def At (t : Hash α) (i : HashIterator α) (x : α) (rest : List α) : Prop :=
  ∃ b left m₁ m₂, i = ⟨b, some x⟩ ∧ b + 1 + left = t.bucketCnt ∧ t.buckets b = m₁ ++ x :: m₂ ∧
    rest = m₂ ++ t.inBuckets (b + 1) left

section

variable (hm : InMemory h buckets t) (hb : b + 1 + left = t.bucketCnt)
  (hbucket : t.buckets b = m₁ ++ m₂)

include hm hb hbucket

/-- Empty buckets are skipped. -/
lemma InMemory.does_hashNextLoop (hturns : left < turns) :
    Does (hashNextLoop t.bucketCnt buckets turns ⟨b, some ((buckets b).start m₂)⟩) h fun i h' =>
      h' = h ∧ ((m₂ ++ t.inBuckets (b + 1) left = [] ∧ i.elem = none) ∨
        ∃ x rest, m₂ ++ t.inBuckets (b + 1) left = x :: rest ∧ t.At i x rest) := by
  induction turns generalizing b left m₁ m₂ with
  | zero => exact absurd hturns (Nat.not_lt_zero _)
  | succ turns ih =>
    have hw := hm.wellFormed (b := b) (by omega)
    rw [hbucket] at hw
    rw [hashNextLoop]
    dsimp only
    cases m₂ with
    | cons x m₂ =>
      have hne : some x ≠ some (buckets b).tail := fun heq => hw.start_ne_tail (Option.some.inj heq)
      rw [start_cons, if_neg hne]
      exact (does_pure _).mpr ⟨rfl, .inr ⟨x, _, rfl, b, left, m₁, m₂, rfl, hb, hbucket, rfl⟩⟩
    | nil =>
      rw [start_nil, if_pos rfl]
      cases left with
      | zero =>
        rw [if_pos (by omega)]
        exact (does_pure _).mpr ⟨rfl, .inl ⟨rfl, rfl⟩⟩
      | succ left =>
        have hw' := hm.wellFormed (b := b + 1) (by omega)
        rw [if_neg (by omega), does_bind, hw'.does_listBegin]
        exact ih (by omega) (nil_append _).symm (by omega)

lemma InMemory.does_hashNext (hturns : left < turns) :
    Does (hashNext turns t.bucketCnt buckets ⟨b, some ((buckets b).stop m₁)⟩) h fun i h' =>
      h' = h ∧ ((m₂ ++ t.inBuckets (b + 1) left = [] ∧ i.elem = none) ∨
        ∃ x rest, m₂ ++ t.inBuckets (b + 1) left = x :: rest ∧ t.At i x rest) := by
  have hw := hm.wellFormed (b := b) (by omega)
  rw [hbucket] at hw
  rw [hashNext, does_bind, does_deref, does_bind, does_listNext hw.joined.1]
  exact hm.does_hashNextLoop hb hbucket hturns

lemma InMemory.does_iterateLoop {inner : ℕ} (hinner : t.bucketCnt ≤ inner)
    (hturns : (m₂ ++ t.inBuckets (b + 1) left).length < turns) :
    Does (iterateLoop inner t.bucketCnt buckets turns ⟨b, some ((buckets b).stop m₁)⟩) h fun l h' =>
      l = m₂ ++ t.inBuckets (b + 1) left ∧ h' = h := by
  induction turns generalizing b left m₁ m₂ with
  | zero => exact absurd hturns (Nat.not_lt_zero _)
  | succ turns ih =>
    rw [iterateLoop, does_bind]
    refine (hm.does_hashNext hb hbucket (by omega)).mono ?_
    rintro i h' ⟨rfl, ⟨hnil, hnone⟩ | ⟨x, rest, hcons, b', left', m₁', m₂', rfl, hb', hbucket', rfl⟩⟩
    · rw [hnone, hnil]
      exact (does_pure _).mpr ⟨rfl, rfl⟩
    · rw [hcons] at hturns
      have hsplit : t.buckets b' = (m₁' ++ [x]) ++ m₂' := by
        rw [hbucket', append_assoc]
        rfl
      have hrest := ih hb' hsplit (Nat.lt_of_succ_lt_succ hturns)
      rw [stop_concat] at hrest
      rw [hcons]
      refine does_bind.mpr (hrest.mono ?_)
      rintro l h'' ⟨rfl, rfl⟩
      exact (does_pure _).mpr ⟨rfl, rfl⟩

end

/-! ## The action -/

variable {σ : Type} (action : σ → α → σ)
variable {Q : σ → Links α → Prop}

lemma does_applyBucket {bucket : KernelList α} (hw : WellFormed h bucket (m₁ ++ m₂))
    (hturns : m₂.length < turns) (s : σ) :
    Does (applyBucket action bucket turns (bucket.start m₂) s) h Q ↔ Q (m₂.foldl action s) h := by
  induction m₂ generalizing m₁ turns s with
  | nil =>
    obtain ⟨turns, rfl⟩ := succ_of_lt hturns
    rw [applyBucket, start_nil, if_pos rfl, does_pure, foldl_nil]
  | cons x m₂ ih =>
    obtain ⟨turns, rfl⟩ := succ_of_lt hturns
    rw [applyBucket, start_cons, if_neg hw.start_ne_tail, does_bind, does_listNext hw.links.2,
      ih hw.further (Nat.lt_of_succ_lt_succ hturns), foldl_cons]

lemma InMemory.does_applyBuckets (hm : InMemory h buckets t) (hb : b + left = t.bucketCnt)
    (hturns : ∀ i < t.bucketCnt, (t.buckets i).length < turns) (s : σ) :
    Does (applyBuckets action turns buckets left b s) h Q ↔
      Q ((t.inBuckets b left).foldl action s) h := by
  induction left generalizing b s with
  | zero => rw [applyBuckets, does_pure, inBuckets_zero, foldl_nil]
  | succ left ih =>
    have hlt : b < t.bucketCnt := by omega
    have hw := hm.wellFormed hlt
    have hw' : WellFormed h (buckets b) ([] ++ t.buckets b) := hw
    rw [applyBuckets, does_bind, hw.does_listBegin, does_bind,
      does_applyBucket action hw' (hturns b hlt), ih (by omega), inBuckets_succ, foldl_append]

end

/-- **Iteration is exact.** `hash_first` and `hash_next` come to every element once, and
`hash_apply` to the same in the same order. -/
theorem hash_iteration {α : Type} [DecidableEq α] {h : Links α} {buckets : ℕ → KernelList α} {t : Hash α}
    (hm : InMemory h buckets t) :
    ∃ elems : List α, elems.Nodup ∧ (∀ x, x ∈ elems ↔ ∃ i < t.bucketCnt, x ∈ t.buckets i) ∧
      ∃ enough, ∀ turns ≥ enough,
        (Does (iterate turns t.bucketCnt buckets) h fun l h' => l = elems ∧ h' = h) ∧
        ∀ (σ : Type) (action : σ → α → σ) (s : σ),
          Does (hashApply action turns t.bucketCnt buckets s) h fun s' h' =>
            s' = elems.foldl action s ∧ h' = h := by
  obtain ⟨left, hleft⟩ : ∃ left, 0 + 1 + left = t.bucketCnt :=
    ⟨t.bucketCnt - 1, by have := hm.bucketCnt_pos; omega⟩
  refine ⟨t.inBuckets 0 t.bucketCnt, hm.nodup, fun x => ?_,
    t.bucketCnt + (t.inBuckets 0 t.bucketCnt).length + 1, fun turns hturns => ⟨?_, ?_⟩⟩
  · rw [inBuckets, mem_flatMap, ← range_eq_range']
    exact exists_congr fun i => and_congr_left' mem_range
  · have hall : t.inBuckets 0 t.bucketCnt = t.buckets 0 ++ t.inBuckets (0 + 1) left := by
      rw [← inBuckets_succ, ← hleft, Nat.add_comm]
    rw [hall] at hturns ⊢
    exact hm.does_iterateLoop hleft (nil_append _).symm (by omega) (by omega)
  · intro σ action s
    refine (hm.does_applyBuckets action (Nat.zero_add _) (fun i hi => ?_) s).mpr ⟨rfl, rfl⟩
    have hle := length_bucket_le hi
    omega

/-- The table with the buckets `4 5` and `6`. -/
theorem hash_iteration_two :
    ∃ elems : List ℕ, elems.Nodup ∧ (∀ x, x ∈ elems ↔ ∃ i < 2, x ∈ (sampleLists (i = 0)).2) ∧
      ∃ enough, ∀ turns ≥ enough,
        Does (iterate turns 2 fun i => (sampleLists (i = 0)).1) sampleLinks fun l _ => l = elems := by
  have hm : InMemory sampleLinks (fun i => (sampleLists (i = 0)).1)
      ⟨3, 2, fun i => (sampleLists (i = 0)).2⟩ := by
    refine ⟨by decide, fun i => family_sample.wellFormed _, fun i j hij => family_sample.apart _ _ ?_⟩
    revert i j
    decide
  obtain ⟨elems, hnodup, hmem, enough, hall⟩ := hash_iteration hm
  exact ⟨elems, hnodup, hmem, enough, fun turns hturns => (hall turns hturns).1.mono fun _ _ h => h.1⟩

end Pintos.Hash
