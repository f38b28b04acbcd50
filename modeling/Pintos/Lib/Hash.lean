import Pintos.Machinery.Buckets
import Pintos.Machinery.KeyedSet
import Mathlib.Data.Fintype.Card
import Mathlib.Data.Nat.Bitwise

/-!
# Lib/Hash — a hash table is a set keyed by what `less` cannot tell apart

A table has a power of two of buckets, and every change may be followed by `rehash`. Elements are
pointers, of which there are fewer than 2³². As long as `less` is a strict weak order and elements
it cannot tell apart have one hash, the table is a `KeyedSet`.
-/

namespace Pintos

open Machinery Function List

/-- `struct hash`; its functions `hash` and `less` are parameters. -/
structure Hash (ε : Type) where
  elemCnt : ℕ
  bucketCnt : ℕ
  buckets : ℕ → List ε

namespace Hash

/-! ## Powers of two -/

/-- `turn_off_least_1bit`. -/
def turnOffLeast1bit (x : ℕ) : ℕ := x &&& (x - 1)

/-- `is_power_of_2`. -/
def isPowerOf2 (x : ℕ) : Bool := x ≠ 0 ∧ turnOffLeast1bit x = 0

/-- The loop of `rehash` that makes the number of buckets a power of two. -/
def turnOff : ℕ → ℕ → ℕ
  | 0, x => x
  | turns + 1, x => if isPowerOf2 x then x else turnOff turns (turnOffLeast1bit x)

/-- `new_bucket_cnt`, for so many elements. -/
def newBucketCnt (elemCnt : ℕ) : ℕ :=
  let cnt := if elemCnt / 2 < 4 then 4 else elemCnt / 2
  turnOff cnt cnt

/-- The loop ends at a power of two, not below the one it started above. -/
lemma turnOff_eq {turns x k : ℕ} (hturns : x ≤ turns) (hk : 2 ^ k ≤ x) :
    ∃ j, k ≤ j ∧ turnOff turns x = 2 ^ j := by
  have hx : x ≠ 0 := Nat.ne_of_gt ((Nat.two_pow_pos k).trans_le hk)
  induction turns generalizing x with
  | zero => exact absurd (Nat.le_zero.mp hturns) hx
  | succ turns ih =>
    rw [turnOff]
    split_ifs with hpower
    · obtain ⟨j, rfl⟩ := (Nat.and_sub_one_eq_zero_iff_isPowerOfTwo hx).mp (of_decide_eq_true hpower).2
      exact ⟨j, (Nat.pow_le_pow_iff_right (by decide)).mp hk, rfl⟩
    · -- the highest bit stays
      have hnot : ¬ x.isPowerOfTwo := fun h =>
        hpower (decide_eq_true ⟨hx, (Nat.and_sub_one_eq_zero_iff_isPowerOfTwo hx).mpr h⟩)
      have hhigh := Nat.ge_two_pow_of_testBit (Nat.and_sub_one_testBit_log2 hx hnot)
      have hlow : turnOffLeast1bit x ≤ x - 1 := Nat.and_le_right
      have hle : 2 ^ k ≤ turnOffLeast1bit x :=
        (Nat.pow_le_pow_right (by decide) ((Nat.le_log2 hx).mpr hk)).trans hhigh
      refine ih (by omega) hle ?_
      exact Nat.ne_of_gt ((Nat.two_pow_pos k).trans_le hle)

lemma newBucketCnt_eq (elemCnt : ℕ) : ∃ k, 2 ≤ k ∧ newBucketCnt elemCnt = 2 ^ k := by
  refine turnOff_eq le_rfl ?_
  split_ifs <;> omega

/-! ## The functions -/

variable {ε : Type} (hash : ε → BitVec 32) (less : ε → ε → Bool)

/-- The bucket of an element. -/
def findBucket (h : Hash ε) (e : ε) : ℕ := (hash e).toNat &&& (h.bucketCnt - 1)

/-- The element in a bucket that `less` cannot tell from `e`. -/
def findElem (h : Hash ε) (bucket : ℕ) (e : ε) : Option ε :=
  (h.buckets bucket).find? fun hi => !less hi e && !less e hi

/-- An element comes to the front of a bucket. -/
def pushFront (h : Hash ε) (bucket : ℕ) (e : ε) : Hash ε :=
  { h with buckets := update h.buckets bucket (e :: h.buckets bucket) }

/-- `insert_elem`. -/
def insertElem (h : Hash ε) (bucket : ℕ) (e : ε) : Hash ε :=
  { h.pushFront bucket e with elemCnt := (h.elemCnt + 1) % 2 ^ 32 }

/-- `remove_elem`: the element is unlinked from the list it is in. -/
def removeElem [DecidableEq ε] (h : Hash ε) (e : ε) : Hash ε :=
  { h with elemCnt := (h.elemCnt + 2 ^ 32 - 1) % 2 ^ 32, buckets := fun i => (h.buckets i).erase e }

/-- An element of an old bucket goes to its new one. -/
def move (h : Hash ε) (e : ε) : Hash ε := h.pushFront (h.findBucket hash e) e

/-- `rehash`, with the answer of `malloc`. -/
def rehash (h : Hash ε) (alloc : Bool) : Hash ε :=
  if newBucketCnt h.elemCnt = h.bucketCnt then h
  else if alloc then
    (List.range h.bucketCnt).foldl (fun t i => (h.buckets i).foldl (move hash) t)
      ⟨h.elemCnt, newBucketCnt h.elemCnt, fun _ => []⟩
  else h

/-- The loop of `hash_clear` over a bucket: those the destructor was called for, and those popped
off. -/
def popAll : List ε → List ε → List ε
  | destroyed, [] => destroyed
  | destroyed, e :: bucket => popAll (destroyed ++ [e]) bucket

/-- A turn of its outer loop. -/
def clearBucket (destructor : Bool) (t : List ε × (ℕ → List ε)) (i : ℕ) : List ε × (ℕ → List ε) :=
  (if destructor then popAll t.1 (t.2 i) else t.1, update t.2 i [])

/-- `hash_clear`, and the elements that its destructor is called for, if there is one. -/
def clear (h : Hash ε) (destructor : Bool) : List ε × Hash ε :=
  let t := (List.range h.bucketCnt).foldl (clearBucket destructor) ([], h.buckets)
  (t.1, ⟨0, h.bucketCnt, t.2⟩)

/-- `hash_init`, with the memory that `malloc` finds. -/
def init (found : Option (ℕ → List ε)) : Option (Hash ε) :=
  found.map fun buckets => (clear ⟨0, 4, buckets⟩ false).2

/-- `hash_insert`. -/
def insert (h : Hash ε) (alloc : Bool) (new : ε) : Option ε × Hash ε :=
  let bucket := h.findBucket hash new
  match h.findElem less bucket new with
  | none => (none, (h.insertElem bucket new).rehash hash alloc)
  | some old => (some old, h.rehash hash alloc)

/-- `hash_replace`. -/
def replace [DecidableEq ε] (h : Hash ε) (alloc : Bool) (new : ε) : Option ε × Hash ε :=
  let bucket := h.findBucket hash new
  match h.findElem less bucket new with
  | none => (none, (h.insertElem bucket new).rehash hash alloc)
  | some old => (some old, ((h.removeElem old).insertElem bucket new).rehash hash alloc)

/-- `hash_find`. -/
def find (h : Hash ε) (e : ε) : Option ε := h.findElem less (h.findBucket hash e) e

/-- `hash_delete`. -/
def delete [DecidableEq ε] (h : Hash ε) (alloc : Bool) (e : ε) : Option ε × Hash ε :=
  match h.findElem less (h.findBucket hash e) e with
  | none => (none, h)
  | some found => (some found, (h.removeElem found).rehash hash alloc)

/-! ## Runs -/

/-- The calls, with the answers of `malloc`. -/
inductive Call (ε : Type) where
  | insert (alloc : Bool) (e : ε)
  | replace (alloc : Bool) (e : ε)
  | find (e : ε)
  | delete (alloc : Bool) (e : ε)
  | clear (destructor : Bool)

/-- What a call returns, and the table it leaves. -/
def call [DecidableEq ε] (h : Hash ε) : Call ε → Option ε × Hash ε
  | .insert alloc e => h.insert hash less alloc e
  | .replace alloc e => h.replace hash less alloc e
  | .find e => (h.find hash less e, h)
  | .delete alloc e => h.delete hash less alloc e
  | .clear destructor => (none, (h.clear destructor).2)

/-- What calls return one after the other, and the table they leave. -/
def calls [DecidableEq ε] (h : Hash ε) : List (Call ε) → List (Option ε) × Hash ε
  | [] => ([], h)
  | c :: cs => ((h.call hash less c).1 :: (calls (h.call hash less c).2 cs).1,
      (calls (h.call hash less c).2 cs).2)

/-! ## The set that a table is -/

/-- `less` cannot tell two elements apart. -/
def Same (a b : ε) : Prop := less a b = false ∧ less b a = false

/-- A strict weak order. -/
structure StrictWeak : Prop where
  irrefl : ∀ a, less a a = false
  trans : ∀ a b c, less a b = true → less b c = true → less a c = true
  same : ∀ a b c, Same less a b → Same less b c → Same less a c

/-- Elements that `less` cannot tell apart have one key. -/
def StrictWeak.setoid {less : ε → ε → Bool} (h : StrictWeak less) : Setoid ε where
  r := Same less
  iseqv := ⟨fun a => ⟨h.irrefl a, h.irrefl a⟩, fun hab => ⟨hab.2, hab.1⟩, fun {a b c} => h.same a b c⟩

/-- The calls on a keyed set. -/
noncomputable def spec {r : Setoid ε} (s : KeyedSet r) : Call ε → Option ε × KeyedSet r
  | .insert _ e => (s.find e, s.insert e)
  | .replace _ e => (s.find e, s.replace e)
  | .find e => (s.find e, s)
  | .delete _ e => (s.find e, s.delete e)
  | .clear _ => (none, .empty)

/-- What calls return one after the other, and the set they leave. -/
noncomputable def specs {r : Setoid ε} (s : KeyedSet r) : List (Call ε) → List (Option ε) × KeyedSet r
  | [] => ([], s)
  | c :: cs => ((spec s c).1 :: (specs (spec s c).2 cs).1, (specs (spec s c).2 cs).2)

/-! ## Elements in their places -/

/-- Every element is in its bucket. -/
structure Placed (h : Hash ε) : Prop where
  power : ∃ k, 2 ≤ k ∧ h.bucketCnt = 2 ^ k
  placed : ∀ i < h.bucketCnt, ∀ x ∈ h.buckets i, h.findBucket hash x = i

/-- The table holds the elements of a set, each once, and has counted them. -/
structure Holds (h : Hash ε) (elems : Finset ε) : Prop extends Placed hash h where
  nodup : (contents h.bucketCnt h.buckets).Nodup
  mem : ∀ x, x ∈ contents h.bucketCnt h.buckets ↔ x ∈ elems
  count : h.elemCnt = elems.card

section

variable {hash less} {h t : Hash ε} {e x : ε} {elems : Finset ε}

lemma Placed.findBucket_lt (hp : Placed hash h) (e : ε) : h.findBucket hash e < h.bucketCnt := by
  obtain ⟨k, -, hk⟩ := hp.power
  have hpos : 0 < h.bucketCnt := hk ▸ Nat.two_pow_pos k
  exact Nat.and_le_right.trans_lt (Nat.sub_lt hpos Nat.one_pos)

lemma Placed.mem_contents (hp : Placed hash h) :
    x ∈ contents h.bucketCnt h.buckets ↔ x ∈ h.buckets (h.findBucket hash x) := by
  rw [Machinery.mem_contents]
  constructor
  · rintro ⟨i, hi, hx⟩
    rwa [hp.placed i hi x hx]
  · exact fun hx => ⟨_, hp.findBucket_lt x, hx⟩

lemma Placed.move (hp : Placed hash h) (e : ε) : Placed hash (h.move hash e) ∧
    (contents h.bucketCnt (h.move hash e).buckets).Perm (e :: contents h.bucketCnt h.buckets) := by
  refine ⟨⟨hp.power, fun i hi x hx => ?_⟩, contents_push (hp.findBucket_lt e) h.buckets e⟩
  obtain rfl | hne := eq_or_ne i (h.findBucket hash e)
  · have hcons : (h.move hash e).buckets (h.findBucket hash e) = e :: h.buckets (h.findBucket hash e) :=
      update_self ..
    rw [hcons] at hx
    obtain rfl | hx := mem_cons.mp hx
    · rfl
    · exact hp.placed _ hi x hx
  · have hother : (h.move hash e).buckets i = h.buckets i := update_of_ne hne ..
    rw [hother] at hx
    exact hp.placed i hi x hx

lemma Placed.foldl_move (hp : Placed hash t) (l : List ε) : Placed hash (l.foldl (Hash.move hash) t) ∧
    (l.foldl (Hash.move hash) t).elemCnt = t.elemCnt ∧
    (l.foldl (Hash.move hash) t).bucketCnt = t.bucketCnt ∧
    (contents t.bucketCnt (l.foldl (Hash.move hash) t).buckets).Perm
      (l ++ contents t.bucketCnt t.buckets) := by
  induction l generalizing t with
  | nil => exact ⟨hp, rfl, rfl, .refl _⟩
  | cons a l ih =>
    obtain ⟨hmoved, hperm⟩ := hp.move a
    obtain ⟨hplaced, helem, hbucket, hall⟩ := ih hmoved
    refine ⟨hplaced, helem, hbucket, hall.trans ?_⟩
    exact (hperm.append_left l).trans perm_middle

lemma Holds.rehash (hh : Holds hash h elems) (alloc : Bool) :
    Holds hash (h.rehash hash alloc) elems := by
  rw [Hash.rehash]
  split_ifs with hsame halloc
  · exact hh
  · have hempty : Placed hash (⟨h.elemCnt, newBucketCnt h.elemCnt, fun _ => []⟩ : Hash ε) :=
      ⟨newBucketCnt_eq h.elemCnt, fun _ _ _ => nofun⟩
    rw [← foldl_flatMap]
    obtain ⟨hplaced, helem, hbucket, hperm⟩ := hempty.foldl_move (contents h.bucketCnt h.buckets)
    rw [contents_nil, append_nil, ← hbucket] at hperm
    exact ⟨hplaced, hperm.nodup_iff.mpr hh.nodup, fun x => hperm.mem_iff.trans (hh.mem x),
      helem.trans hh.count⟩
  · exact hh

lemma Holds.findElem_eq (hless : StrictWeak less) (hhash : ∀ a b, Same less a b → hash a = hash b)
    {s : KeyedSet hless.setoid} (hh : Holds hash h s.elems) (e : ε) :
    h.findElem less (h.findBucket hash e) e = s.find e := by
  have hkey (x : ε) : (!less x e && !less e x) = true ↔ Same less x e := by
    rw [Bool.and_eq_true, Bool.not_eq_true', Bool.not_eq_true']
    exact Iff.rfl
  match hfound : h.findElem less (h.findBucket hash e) e with
  | some x =>
    have hsame := find?_some hfound
    refine (KeyedSet.find_eq_some.mpr ⟨?_, (hkey x).mp hsame⟩).symm
    refine (hh.mem x).mp (Machinery.mem_contents.mpr ⟨_, hh.findBucket_lt e, ?_⟩)
    exact mem_of_find?_eq_some hfound
  | none =>
    refine (KeyedSet.find_eq_none.mpr fun x hx hsame => ?_).symm
    have hbucket : h.findBucket hash x = h.findBucket hash e := by
      rw [findBucket, findBucket, hhash x e hsame]
    have hmem : x ∈ h.buckets (h.findBucket hash e) :=
      hbucket ▸ hh.toPlaced.mem_contents.mp ((hh.mem x).mpr hx)
    exact find?_eq_none.mp hfound x hmem ((hkey x).mpr hsame)

lemma popAll_eq (destroyed bucket : List ε) : popAll destroyed bucket = destroyed ++ bucket := by
  induction bucket generalizing destroyed with
  | nil => exact (append_nil _).symm
  | cons e bucket ih => rw [popAll, ih, append_assoc, singleton_append]

/-- The destructor is called for all that the buckets hold, and nothing is left in them. -/
lemma clear_eq (h : Hash ε) (destructor : Bool) :
    h.clear destructor = (if destructor then contents h.bucketCnt h.buckets else [],
      ⟨0, h.bucketCnt, fun i => if i < h.bucketCnt then [] else h.buckets i⟩) := by
  have hloop (n : ℕ) : (List.range n).foldl (clearBucket destructor) ([], h.buckets) =
      (if destructor then contents n h.buckets else [], fun i => if i < n then [] else h.buckets i) := by
    induction n with
    | zero => cases destructor <;> simp [contents]
    | succ n ih =>
      rw [range_succ, foldl_append, ih, foldl_cons, foldl_nil, clearBucket, Prod.mk.injEq]
      refine ⟨?_, funext fun i => ?_⟩
      · cases destructor <;> simp [popAll_eq, contents_succ]
      · obtain rfl | hne := eq_or_ne i n
        · rw [update_self, if_pos i.lt_succ_self]
        · rw [update_of_ne hne]
          exact if_congr (by omega) rfl rfl
  rw [clear, hloop]

lemma holds_clear (hpower : ∃ k, 2 ≤ k ∧ h.bucketCnt = 2 ^ k) (destructor : Bool) :
    Holds hash (h.clear destructor).2 ∅ := by
  have hnil (i : ℕ) (hi : i < h.bucketCnt) : (h.clear destructor).2.buckets i = [] := by
    rw [clear_eq]
    exact if_pos hi
  have hcontents : contents h.bucketCnt (h.clear destructor).2.buckets = [] := by
    rw [contents_congr hnil, contents_nil]
  refine ⟨⟨hpower, fun i hi x hx => ?_⟩, ?_, fun x => ?_, rfl⟩
  · rw [hnil i hi] at hx
    cases hx
  · rw [show (h.clear destructor).2.bucketCnt = h.bucketCnt from rfl, hcontents]
    exact nodup_nil
  · rw [show (h.clear destructor).2.bucketCnt = h.bucketCnt from rfl, hcontents]
    simp

variable [DecidableEq ε]

lemma Holds.insertElem [Fintype ε] (hcard : Fintype.card ε < 2 ^ 32) (hh : Holds hash h elems)
    (he : e ∉ elems) :
    Holds hash (h.insertElem (h.findBucket hash e) e) (Insert.insert e elems) := by
  obtain ⟨hplaced, hperm⟩ := hh.toPlaced.move e
  have hlt : elems.card + 1 < 2 ^ 32 := by
    rw [← Finset.card_insert_of_notMem he]
    exact (Finset.card_le_univ _).trans_lt hcard
  refine ⟨⟨hplaced.power, hplaced.placed⟩, hperm.nodup_iff.mpr ?_, fun x => hperm.mem_iff.trans ?_, ?_⟩
  · exact nodup_cons.mpr ⟨fun hmem => he ((hh.mem e).mp hmem), hh.nodup⟩
  · rw [mem_cons, hh.mem, Finset.mem_insert]
  · rw [Finset.card_insert_of_notMem he, ← hh.count]
    exact Nat.mod_eq_of_lt (hh.count ▸ hlt)

@[simp] lemma bucketCnt_removeElem (h : Hash ε) (e : ε) : (h.removeElem e).bucketCnt = h.bucketCnt := by
  obtain ⟨elemCnt, bucketCnt, buckets⟩ := h
  exact (rfl : _ = bucketCnt)

lemma findBucket_removeElem (h : Hash ε) (e x : ε) :
    (h.removeElem e).findBucket hash x = h.findBucket hash x := by
  rw [findBucket, bucketCnt_removeElem, findBucket]

lemma Holds.removeElem (hh : Holds hash h elems) (hcard : elems.card < 2 ^ 32) (he : e ∈ elems) :
    Holds hash (h.removeElem e) (elems.erase e) := by
  have hmem : e ∈ h.buckets (h.findBucket hash e) :=
    hh.toPlaced.mem_contents.mp ((hh.mem e).mpr he)
  have hlt := hh.findBucket_lt e
  -- the element is in no other bucket, so that only its own changes
  have hsame : contents h.bucketCnt (h.removeElem e).buckets = contents h.bucketCnt
      (update h.buckets (h.findBucket hash e) ((h.buckets (h.findBucket hash e)).erase e)) := by
    refine contents_congr fun i hi => ?_
    show (h.buckets i).erase e = _
    obtain rfl | hne := eq_or_ne i (h.findBucket hash e)
    · rw [update_self]
    · rw [update_of_ne hne]
      exact erase_of_not_mem fun hx => hne (hh.placed i hi e hx).symm
  have hperm := contents_erase hlt hmem
  rw [← hsame] at hperm
  have hnodup := hperm.nodup_iff.mpr hh.nodup
  obtain ⟨hnot, hrest⟩ := nodup_cons.mp hnodup
  refine ⟨⟨?_, fun i hi x hx => ?_⟩, ?_, fun x => ?_, ?_⟩
  · rw [bucketCnt_removeElem]
    exact hh.power
  · rw [bucketCnt_removeElem] at hi
    rw [findBucket_removeElem]
    exact hh.placed i hi x (mem_of_mem_erase hx)
  · rwa [bucketCnt_removeElem]
  · rw [Finset.mem_erase, ← hh.mem, ← hperm.mem_iff, mem_cons, bucketCnt_removeElem]
    constructor
    · intro hx
      refine ⟨?_, .inr hx⟩
      rintro rfl
      exact hnot hx
    · rintro ⟨hne, heq | hx⟩
      · exact absurd heq hne
      · exact hx
  · have hpos : 0 < elems.card := Finset.card_pos.mpr ⟨e, he⟩
    rw [Hash.removeElem, Finset.card_erase_of_mem he, hh.count]
    simp only
    omega

lemma Holds.call [Fintype ε] (hcard : Fintype.card ε < 2 ^ 32) (hless : StrictWeak less)
    (hhash : ∀ a b, Same less a b → hash a = hash b) {s : KeyedSet hless.setoid}
    (hh : Holds hash h s.elems) (c : Call ε) :
    (h.call hash less c).1 = (spec s c).1 ∧ Holds hash (h.call hash less c).2 (spec s c).2.elems := by
  have hfind (e : ε) := hh.findElem_eq hless hhash e
  have hsmall : s.elems.card < 2 ^ 32 := (Finset.card_le_univ _).trans_lt hcard
  have hadd {e : ε} (hnone : s.find e = none) :
      Holds hash (h.insertElem (h.findBucket hash e) e) (s.replace e).elems := by
    have hnot : e ∉ s.elems := fun he =>
      KeyedSet.find_eq_none.mp hnone e he ⟨hless.irrefl e, hless.irrefl e⟩
    have hinsert : (s.replace e).elems = Insert.insert e s.elems := by
      ext x
      rw [KeyedSet.mem_replace_of_find_eq_none hnone, Finset.mem_insert]
    rw [hinsert]
    exact hh.insertElem hcard hnot
  have hremove {e old : ε} (hsome : s.find e = some old) :
      Holds hash (h.removeElem old) (s.delete e).elems := by
    have hdelete : (s.delete e).elems = s.elems.erase old := by
      ext x
      rw [KeyedSet.mem_delete_of_find_eq_some hsome, Finset.mem_erase, and_comm]
    rw [hdelete]
    exact hh.removeElem hsmall (KeyedSet.find_eq_some.mp hsome).1
  match c with
  | .insert alloc e =>
    simp only [Hash.call, Hash.insert, hfind, spec, KeyedSet.insert]
    match hs : s.find e with
    | none => exact ⟨rfl, (hadd hs).rehash alloc⟩
    | some old => exact ⟨rfl, hh.rehash alloc⟩
  | .replace alloc e =>
    simp only [Hash.call, Hash.replace, hfind, spec]
    match hs : s.find e with
    | none => exact ⟨rfl, (hadd hs).rehash alloc⟩
    | some old =>
      have hnot : e ∉ (s.delete e).elems := fun he =>
        (KeyedSet.mem_delete.mp he).2 ⟨hless.irrefl e, hless.irrefl e⟩
      have hinsert : (s.replace e).elems = Insert.insert e (s.delete e).elems := by
        ext x
        rw [KeyedSet.mem_replace, Finset.mem_insert, KeyedSet.mem_delete]
      have hadded := (hremove hs).insertElem hcard hnot
      rw [findBucket_removeElem, ← hinsert] at hadded
      exact ⟨rfl, hadded.rehash alloc⟩
  | .find e => exact ⟨hfind e, hh⟩
  | .delete alloc e =>
    simp only [Hash.call, Hash.delete, hfind, spec]
    match hs : s.find e with
    | none =>
      have hdelete : (s.delete e).elems = s.elems := by
        ext x
        rw [KeyedSet.mem_delete]
        exact and_iff_left_of_imp (KeyedSet.find_eq_none.mp hs x)
      rw [hdelete]
      exact ⟨rfl, hh⟩
    | some old => exact ⟨rfl, (hremove hs).rehash alloc⟩
  | .clear destructor => exact ⟨rfl, holds_clear hh.power destructor⟩

lemma Holds.calls [Fintype ε] (hcard : Fintype.card ε < 2 ^ 32) (hless : StrictWeak less)
    (hhash : ∀ a b, Same less a b → hash a = hash b) {s : KeyedSet hless.setoid}
    (hh : Holds hash h s.elems) (cs : List (Call ε)) :
    (h.calls hash less cs).1 = (specs s cs).1 ∧
      Holds hash (h.calls hash less cs).2 (specs s cs).2.elems := by
  induction cs generalizing h s with
  | nil => exact ⟨rfl, hh⟩
  | cons c cs ih =>
    obtain ⟨hreturn, hnext⟩ := hh.call hcard hless hhash c
    obtain ⟨hreturns, hlast⟩ := ih hnext
    exact ⟨congrArg₂ List.cons hreturn hreturns, hlast⟩

end

/-- **A hash table is a set keyed by what `less` cannot tell apart.** The calls return what the set
returns; the table has a power of two of buckets, the elements of the set, and each in the bucket of
its hash. A destructor is called once for each. -/
theorem hash_is_keyed_set {ε : Type} [DecidableEq ε] [Fintype ε] (hcard : Fintype.card ε < 2 ^ 32)
    {hash : ε → BitVec 32} {less : ε → ε → Bool} (hless : StrictWeak less)
    (hhash : ∀ a b, Same less a b → hash a = hash b) {found : Option (ℕ → List ε)} {h₀ : Hash ε}
    (hinit : init found = some h₀) (cs : List (Call ε)) :
    let h := (h₀.calls hash less cs).2
    let s := specs (.empty : KeyedSet hless.setoid) cs
    (h₀.calls hash less cs).1 = s.1 ∧
    (∃ k, h.bucketCnt = 2 ^ k) ∧ 4 ≤ h.bucketCnt ∧
    (∀ i < h.bucketCnt, ∀ x ∈ h.buckets i, i = (hash x).toNat &&& (h.bucketCnt - 1)) ∧
    ((contents h.bucketCnt h.buckets).Pairwise fun x y => ¬ Same less x y) ∧
    (∀ x, x ∈ contents h.bucketCnt h.buckets ↔ x ∈ s.2.elems) ∧
    h.elemCnt = (contents h.bucketCnt h.buckets).length ∧
    (h.clear true).1.Perm (contents h.bucketCnt h.buckets) := by
  obtain ⟨buckets, -, rfl⟩ := Option.map_eq_some_iff.mp hinit
  have hstart : Holds hash (clear ⟨0, 4, buckets⟩ false).2
      (KeyedSet.empty : KeyedSet hless.setoid).elems := holds_clear ⟨2, Nat.le_refl 2, rfl⟩ false
  obtain ⟨hreturns, hh⟩ := hstart.calls hcard hless hhash cs
  obtain ⟨k, hk, hpower⟩ := hh.power
  refine ⟨hreturns, ⟨k, hpower⟩, ?_, fun i hi x hx => (hh.placed i hi x hx).symm, ?_, hh.mem, ?_, ?_⟩
  · rw [hpower]
    exact Nat.pow_le_pow_right Nat.two_pos hk
  · refine hh.nodup.imp_of_mem fun {x y} hx hy hne hsame => hne ?_
    exact KeyedSet.keyed _ x ((hh.mem x).mp hx) y ((hh.mem y).mp hy) hsame
  · rw [hh.count, ← toFinset_card_of_nodup hh.nodup]
    refine congrArg Finset.card (Finset.ext fun x => ?_)
    rw [mem_toFinset, hh.mem]
  · rw [clear_eq]
    exact .refl _

/-- Three elements, told apart by their order. -/
theorem hash_is_keyed_set_three : ∃ (h₀ : Hash (Fin 3)) (hless : StrictWeak fun a b : Fin 3 => a < b),
    init (some fun _ => []) = some h₀ ∧
    let hash (x : Fin 3) : BitVec 32 := .ofNat 32 x
    let cs : List (Call (Fin 3)) := [.insert true 0, .insert false 1, .replace true 1, .delete true 2]
    (h₀.calls hash (fun a b => a < b) cs).1 = [none, none, some 1, none] ∧
      (specs (.empty : KeyedSet hless.setoid) cs).1 = [none, none, some 1, none] := by
  have hless : StrictWeak fun a b : Fin 3 => a < b := by
    refine ⟨by decide, by decide, fun a b c hab hbc => ?_⟩
    simp only [Same, decide_eq_false_iff_not, not_lt] at hab hbc ⊢
    exact ⟨hbc.1.trans hab.1, hab.2.trans hbc.2⟩
  have hcard : Fintype.card (Fin 3) < 2 ^ 32 := by
    decide
  have hhash (a b : Fin 3) (hab : Same (fun a b : Fin 3 => a < b) a b) :
      BitVec.ofNat 32 a = BitVec.ofNat 32 b := by
    simp only [Same, decide_eq_false_iff_not, not_lt] at hab
    rw [le_antisymm hab.2 hab.1]
  have hinit : init (some fun _ => ([] : List (Fin 3))) = some _ := rfl
  exact ⟨_, hless, hinit, rfl, (hash_is_keyed_set hcard hless hhash hinit _).1.symm.trans rfl⟩

end Hash

end Pintos
