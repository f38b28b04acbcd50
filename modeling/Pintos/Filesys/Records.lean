import Pintos.Filesys.Contents
import Pintos.Filesys.Directory
import Pintos.Machinery.Slots

/-!
# Filesys/Records — a directory as a table of records

What the loops over the records find, and what writing one does to the others, *whatever* `malloc`
answers: without memory a read comes back short and the loop ends early, and a write writes nothing.
-/

namespace Pintos

open Machinery EStateM Block

namespace Fs

/-! ## One record -/

variable {e : DirEntry}

namespace DirEntry

variable {b b' : ℕ → UInt8}

lemma ofBytes_congr (h : ∀ n < entrySize, b n = b' n) : ofBytes b = ofBytes b' := by
  have hlt (n : ℕ) (hn : n < 20) : b n = b' n := h n hn
  have hword : leWord b = leWord b' := leWord_congr fun j hj => hlt j (by omega)
  have hname : (fun i : Fin 15 => b (4 + i)) = fun i : Fin 15 => b' (4 + i) :=
    funext fun i => hlt _ (by omega)
  rw [ofBytes, ofBytes, hword, hname, hlt 19 (by decide)]

/-- A record is read as it was written. -/
lemma ofBytes_byte (h : e.inodeSector < 2 ^ 32) : ofBytes e.byte = e := by
  have hword : leWord e.byte = e.inodeSector := by
    refine (leWord_congr fun j hj => ?_).trans (leWord_leByte h)
    exact if_pos hj
  have hname : (fun i : Fin 15 => e.byte (4 + i)) = e.name := by
    funext i
    have hlow : ¬ 4 + (i : ℕ) < 4 := by omega
    have hhigh : 4 + (i : ℕ) < 19 := by omega
    rw [byte, if_neg hlow, dif_pos hhigh]
    exact congrArg e.name (Fin.ext (show 4 + (i : ℕ) - 4 = i by omega))
  have huse : decide (e.byte 19 ≠ 0) = e.inUse := by
    rw [byte]
    cases e.inUse <;> rfl
  rw [ofBytes, hword, hname, huse]

/-- What a record holds: a name and a sector. -/
def held (e : DirEntry) : Option (List UInt8 × ℕ) :=
  if e.inUse then some (e.str, e.inodeSector) else none

lemma held_eq_some {p : List UInt8 × ℕ} :
    e.held = some p ↔ e.inUse = true ∧ p = (e.str, e.inodeSector) := by
  rw [held]
  split_ifs with h
  · simp [h, eq_comm]
  · simp [h]

lemma held_eq_none : e.held = none ↔ e.inUse = false := by
  rw [held]
  split_ifs with h <;> simp [h]

end DirEntry

/-- A name that fits is what the record says it is. -/
lemma str_strlcpy {name : CString} (h : name.bytes.length ≤ nameMax) (junk : Fin 15 → UInt8)
    (x : ℕ) (inUse : Bool) : (DirEntry.mk x (strlcpy junk name) inUse).str = name.bytes := by
  have h : name.bytes.length ≤ 14 := h
  have htake : name.bytes.take 14 = name.bytes := List.take_of_length_le h
  have hmin : min name.bytes.length 14 = name.bytes.length := by omega
  -- the characters, the null character, and what was there before
  have hsplit : List.ofFn (strlcpy junk name) =
      name.bytes ++ 0 :: (List.ofFn junk).drop (name.bytes.length + 1) := by
    refine List.ext_getElem ?_ fun j hj hj' => ?_
    · simp
      omega
    · simp only [List.getElem_ofFn, strlcpy, hmin, htake]
      obtain hlt | rfl | hgt := Nat.lt_trichotomy j name.bytes.length
      · rw [if_neg (by omega)]
        simp [hlt]
      · simp
      · rw [if_neg (by omega), List.getElem_append_right (by omega)]
        have hplace : name.bytes.length + 1 + (j - name.bytes.length - 1) = j := by omega
        simp only [List.getElem_cons, List.getElem_drop, List.getElem_ofFn, hplace]
        rw [dif_neg (by omega), List.getD_eq_getElem?_getD, List.getElem?_eq_none (by omega)]
        rfl
  have hall : ∀ c ∈ name.bytes, (decide (c ≠ 0)) = true := by
    intro c hc
    refine decide_eq_true fun hzero => name.noNul (hzero ▸ hc)
  rw [DirEntry.str, hsplit, List.takeWhile_append_of_pos hall]
  simp

/-! ## The table -/

/-- Record `k` of the directory with inode `d`. -/
def entryAt (disk : Block) (d : InodeDisk) (k : ℕ) : DirEntry :=
  .ofBytes fun n => disk.byte (d.base + entrySize * k + n)

lemma entryAt_sector_lt (disk : Block) (d : InodeDisk) (k : ℕ) :
    (entryAt disk d k).inodeSector < 2 ^ 32 :=
  leWord_lt fun n => disk.byte (d.base + entrySize * k + n)

/-- Record `k` is a whole record of the directory. -/
def InTable (d : InodeDisk) (k : ℕ) : Prop := (entrySize * k + entrySize : ℕ) ≤ d.length

lemma inTable_iff {d : InodeDisk} {k : ℕ} : InTable d k ↔ (20 * k + 20 : ℕ) ≤ d.length := Iff.rfl

/-- Writing a record changes that record. -/
lemma entryAt_put {disk : Block} {d : InodeDisk} (h : e.inodeSector < 2 ^ 32) (k j : ℕ) :
    entryAt (disk.put (d.base + entrySize * k) entrySize e.byte) d j =
      if j = k then e else entryAt disk d j := by
  rw [entryAt, byte_put]
  split_ifs with hjk
  · rw [hjk, ← DirEntry.ofBytes_byte h]
    refine DirEntry.ofBytes_congr fun n hn => ?_
    have hn : n < 20 := hn
    rw [overwrite_of_mem (by omega) (by show _ < _ + 20; omega), DirEntry.ofBytes_byte h]
    congr 1
    omega
  · refine DirEntry.ofBytes_congr fun n hn => ?_
    have hn : n < 20 := hn
    refine overwrite_of_notMem ?_
    show d.base + 20 * j + n < d.base + 20 * k ∨ d.base + 20 * k + 20 ≤ d.base + 20 * j + n
    omega

section Runs

variable {s : Fs} {a : ℕ} {i : Inode} {m : Mem}

section

variable (hi : s.inodes.get? a = some i) (hd : i.data.Fits s.disk)

include hi hd

lemma readEntry_run (m : Mem) (k : ℕ) : ∃ r, (readEntry m a (entrySize * k)).run s = .ok r s ∧
      (∀ e, r = some e → InTable i.data k ∧ e = entryAt s.disk i.data k) ∧
      (m.answer = true → r = none → ¬ InTable i.data k) := by
  obtain ⟨c, hc, hfull, hrun⟩ := inodeReadAt_run m entrySize (entrySize * k) hi hd
  rw [InodeDisk.avail] at hc hfull
  have hsize : entrySize = 20 := rfl
  by_cases hlen : c = entrySize
  · refine ⟨some (entryAt s.disk i.data k), ?_, ?_, fun _ hnone => ?_⟩
    · simp only [readEntry, run_bind, hrun, length_slice, if_pos hlen]
      refine congrArg (fun e => EStateM.Result.ok (some e) s) (DirEntry.ofBytes_congr fun n hn => ?_)
      rw [hlen, List.getD_eq_getElem?_getD, getElem?_slice hn]
      rfl
    · rintro _ ⟨⟩
      refine ⟨?_, rfl⟩
      rw [InTable]
      omega
    · cases hnone
  · refine ⟨none, ?_, fun e he => ?_, fun hm _ htable => hlen ?_⟩
    · simp only [readEntry, run_bind, hrun, length_slice, if_neg hlen]
      rfl
    · cases he
    · rw [InTable] at htable
      have hc := hfull hm
      omega

lemma findEntry_run (m : Mem) (p : DirEntry → Bool) (turns k₀ : ℕ) : ∃ r k,
      (findEntry m a p turns (entrySize * k₀)).run s = .ok (r, entrySize * k) s ∧ k₀ ≤ k ∧
      (∀ j, k₀ ≤ j → j < k → InTable i.data j ∧ p (entryAt s.disk i.data j) = false) ∧
      (∀ e, r = some e → InTable i.data k ∧ e = entryAt s.disk i.data k ∧ p e = true) ∧
      (r = none → (∀ j, (m.sub j).answer = true) → k < k₀ + turns → ¬ InTable i.data k) := by
  induction turns generalizing k₀ with
  | zero =>
    refine ⟨none, k₀, rfl, le_rfl, fun j hj hj' => ?_, nofun, fun _ _ hlt => ?_⟩
    · omega
    · omega
  | succ turns ih =>
    obtain ⟨r, hrun, hsome, hnone⟩ := readEntry_run hi hd (m.sub (entrySize * k₀)) k₀
    cases r with
    | none =>
      refine ⟨none, k₀, ?_, le_rfl, fun j hj hj' => by omega, nofun, fun _ hm _ => ?_⟩
      · simp only [findEntry, run_bind, hrun, run_pure]
      · exact hnone (hm _) rfl
    | some e =>
      obtain ⟨htable, he⟩ := hsome e rfl
      by_cases hp : p e = true
      · refine ⟨some e, k₀, ?_, le_rfl, fun j hj hj' => by omega, ?_, nofun⟩
        · simp only [findEntry, run_bind, hrun, hp, if_true, run_pure]
        · rintro _ ⟨⟩
          exact ⟨htable, he, hp⟩
      · obtain ⟨r, k, hrest, hle, hbefore, hfound, hend⟩ := ih (k₀ + 1)
        refine ⟨r, k, ?_, by omega, fun j hj hj' => ?_, hfound, fun hr hm hlt => ?_⟩
        · simp only [findEntry, run_bind, hrun, hp]
          exact hrest
        · obtain rfl | hne := eq_or_ne j k₀
          · exact ⟨htable, he ▸ by simpa using hp⟩
          · exact hbefore j (by omega) hj'
        · exact hend hr hm (by omega)

lemma scan_run (m : Mem) (p : DirEntry → Bool) (k₀ : ℕ) : ∃ r k,
      (do let n ← turns a; findEntry m a p n (entrySize * k₀) : FsM _).run s =
        .ok (r, entrySize * k) s ∧ k₀ ≤ k ∧
      (∀ j, k₀ ≤ j → j < k → InTable i.data j ∧ p (entryAt s.disk i.data j) = false) ∧
      (∀ e, r = some e → InTable i.data k ∧ e = entryAt s.disk i.data k ∧ p e = true) ∧
      (r = none → (∀ j, (m.sub j).answer = true) → ¬ InTable i.data k) := by
  have hturns : (turns a).run s = .ok (i.data.length.toNat / entrySize + 1) s := by
    simp only [turns, inodeLength, run_bind, run_get, hi, orThrow, run_pure]
  obtain ⟨r, k, hrun, hle, hbefore, hfound, hend⟩ :=
    findEntry_run hi hd m p (i.data.length.toNat / entrySize + 1) k₀
  refine ⟨r, k, ?_, hle, hbefore, hfound, fun hr hm => ?_⟩
  · rwa [run_bind, hturns]
  · by_cases hlt : k < k₀ + (i.data.length.toNat / 20 + 1)
    · exact hend hr hm hlt
    · -- the record before it would not be in the table
      obtain ⟨htable, -⟩ := hbefore (k - 1) (by omega) (by omega)
      rw [inTable_iff] at htable
      omega

end

variable (hi : s.inodes.get? a = some i)

include hi

/-- `lookup` finds the first record with the name, if there is one and there is memory. -/
lemma lookup_run (hd : i.data.Fits s.disk) (m : Mem) (name : CString) :
    ∃ r, (lookup m a name).run s = .ok r s ∧
      (∀ e ofs, r = some (e, ofs) → ∃ k, ofs = entrySize * k ∧ InTable i.data k ∧
        e = entryAt s.disk i.data k ∧ e.held = some (name.bytes, e.inodeSector) ∧
        ∀ j < k, ∀ x, (entryAt s.disk i.data j).held ≠ some (name.bytes, x)) ∧
      (r = none → (∀ j, (m.sub j).answer = true) → ∀ k x, InTable i.data k →
        (entryAt s.disk i.data k).held ≠ some (name.bytes, x)) := by
  obtain ⟨r, k, hrun, -, hbefore, hfound, hend⟩ :=
    scan_run hi hd m (fun e => e.inUse && e.str = name.bytes) 0
  have hother (j : ℕ) (hj : j < k) (x : ℕ) : (entryAt s.disk i.data j).held ≠ some (name.bytes, x) := by
    intro hheld
    obtain ⟨huse, hname⟩ := DirEntry.held_eq_some.mp hheld
    have hp := (hbefore j (Nat.zero_le j) hj).2
    rw [huse, ← (Prod.mk.inj hname).1] at hp
    simp at hp
  refine ⟨r.map fun e => (e, entrySize * k), ?_, ?_, ?_⟩
  · rw [Nat.mul_zero] at hrun
    rw [lookup, ← bind_assoc, run_bind, hrun]
    rfl
  · intro e ofs he
    obtain ⟨e', rfl, heq⟩ := Option.map_eq_some_iff.mp he
    obtain ⟨rfl, rfl⟩ := Prod.mk.inj heq
    obtain ⟨htable, he, hp⟩ := hfound e' rfl
    simp only [Bool.and_eq_true, decide_eq_true_eq] at hp
    exact ⟨k, rfl, htable, he, DirEntry.held_eq_some.mpr ⟨hp.1, by rw [hp.2]⟩,
      hother⟩
  · intro hr hm j x hj
    have hnone : r = none := by simpa using hr
    have hend := hend hnone hm
    rw [inTable_iff] at hend hj
    exact hother j (by omega) x

lemma does_dirReaddir {n k₀ dir : ℕ} (hd : i.data.Fits s.disk) (m : Mem)
    (hm : ∀ j, (m.sub j).answer = true) (hn : i.data.length = (entrySize * n : ℕ)) (hk₀ : k₀ ≤ n)
    (hdir : s.dirs.get? dir = some ⟨a, entrySize * k₀⟩) :
    Does (dirReaddir m dir) s fun r s' => ∃ k pos, k₀ ≤ k ∧
      (∀ j, k₀ ≤ j → j < k → (entryAt s.disk i.data j).held = none) ∧
      s' = s.setDirs (s.dirs.modify dir fun d => { d with pos := pos }) ∧
      (k = n ∧ r = none ∨ k < n ∧ pos = entrySize * (k + 1) ∧
        ∃ p, (entryAt s.disk i.data k).held = some p ∧ r = some p.1) := by
  obtain ⟨r, k, hrun, hle, hbefore, hfound, hend⟩ := scan_run hi hd m (fun e => e.inUse) k₀
  have htable (j : ℕ) : InTable i.data j ↔ j < n := by
    have hn : i.data.length = (20 * n : ℕ) := hn
    rw [inTable_iff]
    omega
  have hfree (j : ℕ) (hj : k₀ ≤ j) (hjk : j < k) : (entryAt s.disk i.data j).held = none :=
    DirEntry.held_eq_none.mpr (hbefore j hj hjk).2
  simp only [dirReaddir, does_bind, does_get, does_orThrow, does_modify, does_pure]
  refine ⟨_, hdir, (does_bind ..).mp (does_of_run hrun ?_)⟩
  cases r with
  | none =>
    refine ⟨k, _, hle, hfree, rfl, .inl ⟨Nat.le_antisymm ?_ ?_, rfl⟩⟩
    · -- otherwise the record before is not in the table
      refine Nat.le_of_not_lt fun hlt => Nat.lt_irrefl n ?_
      exact (htable n).mp (hbefore n hk₀ hlt).1
    · exact Nat.le_of_not_lt fun hlt => hend rfl hm ((htable k).mpr hlt)
  | some e =>
    obtain ⟨hk, he, huse⟩ := hfound e rfl
    refine ⟨k, _, hle, hfree, rfl, .inr ⟨(htable k).mp hk, rfl, (e.str, e.inodeSector), ?_, rfl⟩⟩
    exact he ▸ DirEntry.held_eq_some.mpr ⟨huse, rfl⟩

/-- A record is written whole, or nothing is; only at the end of the table is no room for it. -/
lemma writeEntry_run (hdeny : i.denyWriteCnt = 0) (hd : i.data.Fits s.disk) (m : Mem) {n k : ℕ}
    (hn : i.data.length = (entrySize * n : ℕ)) (hk : k ≤ n) (e : DirEntry) :
    ((writeEntry m a (entrySize * k) e).run s = .ok true
        (s.setDisk (s.disk.put (i.data.base + entrySize * k) entrySize e.byte)) ∧ k < n) ∨
      (writeEntry m a (entrySize * k) e).run s = .ok false s ∧ (m.answer = true → k = n) := by
  have hsize : entrySize = 20 := rfl
  cases hm : m.answer with
  | false =>
    have hrun := inodeWriteAt_no_memory m entrySize (entrySize * k) e.byte hi hm (by decide)
    refine .inr ⟨?_, nofun⟩
    simp only [writeEntry, run_bind, hrun]
    rfl
  | true =>
    obtain ⟨w, -, hfull, hrun⟩ := inodeWriteAt_run m entrySize (entrySize * k) e.byte hi hdeny hd
    have hw := hfull hm
    rw [InodeDisk.avail, hn, hsize] at hw
    obtain hlt | rfl := Nat.lt_or_eq_of_le hk
    · refine .inl ⟨?_, hlt⟩
      obtain rfl : w = 20 := by omega
      simp only [writeEntry, run_bind, hrun]
      rfl
    · refine .inr ⟨?_, fun _ => rfl⟩
      obtain rfl : w = 0 := by omega
      simp only [writeEntry, run_bind, hrun, put_zero]
      rfl

end Runs

end Fs

end Pintos
