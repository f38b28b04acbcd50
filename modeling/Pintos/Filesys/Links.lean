import Pintos.Filesys.Layout
import Pintos.Filesys.Records

/-!
# Filesys/Links — a directory whose records are files

A record in use links a file that no other record links and that is not removed. A volume is a
sound file system with such a directory in sector `D`; here is what opening, closing, linking and
unlinking do to it, at any point of a call.
-/

namespace Pintos

open Machinery Heap

namespace Fs

/-- What record `k` of the directory in sector `D` holds. -/
def slot (s : Fs) (D k : ℕ) : Option (List UInt8 × ℕ) :=
  (entryAt s.disk (s.disk.inodeAt D) k).held

/-- The records of directory `D` link files of `K`, each once, and none removed. -/
structure Linked (K : ℕ → Prop) (D n : ℕ) (s : Fs) : Prop where
  mem : K D
  ne : D ≠ freeMapSector
  capacity : (s.disk.inodeAt D).length = (entrySize * n : ℕ)
  target : ∀ k < n, ∀ p, s.slot D k = some p → K p.2 ∧ p.2 ≠ freeMapSector ∧ p.2 ≠ D
  distinct : ∀ j < n, ∀ k < n, ∀ p q, s.slot D j = some p → s.slot D k = some q → p.2 = q.2 → j = k
  kept : ∀ a i, s.inodes.get? a = some i → i.removed = true →
    i.sector ≠ D ∧ ∀ k < n, ∀ p, s.slot D k = some p → p.2 ≠ i.sector

/-- A volume: a sound file system with a directory in `D`, and `pend` references pending. -/
structure Volume (K : ℕ → Prop) (pend : ℕ → ℕ) (f₀ D n : ℕ) (s : Fs) : Prop where
  sound : Sound K s
  counted : Counted pend s
  file : s.freeMapFile = some f₀
  allowed : ∀ f x, s.files.get? f = some x → x.denyWrite = false
  linked : Linked K D n s

/-- The file with its inode in `x` may be linked by record `k`. -/
structure Linkable (K : ℕ → Prop) (D n : ℕ) (s : Fs) (k x : ℕ) : Prop where
  mem : K x
  ne : x ≠ freeMapSector ∧ x ≠ D
  other : ∀ j < n, j ≠ k → ∀ p, s.slot D j = some p → p.2 ≠ x
  kept : ∀ a i, s.inodes.get? a = some i → i.removed = true → i.sector ≠ x

/-- The state with record `k` written. -/
def setEntry (s : Fs) (D k : ℕ) (e : DirEntry) : Fs :=
  s.setDisk (s.disk.put ((s.disk.inodeAt D).base + entrySize * k) entrySize e.byte)

section

variable {K K' L : ℕ → Prop} {pend : ℕ → ℕ} {f₀ D n a k : ℕ} {i : Inode} {s s' : Fs}

/-! ## Inodes that were there before -/

/-- The inode `j` at `b` is one of `s`, up to the counts of its openers. -/
def Old (s : Fs) (b : ℕ) (j : Inode) : Prop :=
  ∃ j', s.inodes.get? b = some j' ∧ j'.removed = j.removed ∧ j'.sector = j.sector

lemma old_of_modify {b : ℕ} {j : Inode} {g : Inode → Inode}
    (hj : (s.inodes.modify a g).get? b = some j)
    (hg : ∀ i, (g i).removed = i.removed ∧ (g i).sector = i.sector) : s.Old b j := by
  obtain ⟨j', hj', rfl⟩ := Option.map_eq_some_iff.mp ((get?_modify ..).symm.trans hj)
  refine ⟨j', hj', ?_⟩
  split_ifs
  · exact ⟨(hg j').1.symm, (hg j').2.symm⟩
  · exact ⟨rfl, rfl⟩

lemma old_of_dropRef {b : ℕ} {j : Inode} (hj : (s.dropRef a i).inodes.get? b = some j) :
    s.Old b j := by
  rw [dropRef] at hj
  split_ifs at hj
  · exact ⟨j, (get?_free_eq_some.mp hj).2, rfl, rfl⟩
  · exact old_of_modify hj fun _ => ⟨rfl, rfl⟩

lemma Opened.old {x b : ℕ} {j : Inode} (h : Opened s x a s') (hj : s'.inodes.get? b = some j) :
    s.Old b j ∨ b = s.inodes.next ∧ j.removed = false := by
  cases h with
  | reopened => exact .inl (old_of_modify hj fun _ => ⟨rfl, rfl⟩)
  | loaded =>
    obtain rfl | hb := eq_or_ne b s.inodes.next
    · cases (get?_alloc_self ..).symm.trans hj
      exact .inr ⟨rfl, rfl⟩
    · exact .inl ⟨j, (get?_alloc_of_ne hb _).symm.trans hj, rfl, rfl⟩

/-- No inode is removed on the way from `s` to `s'`. -/
def Keeps (s s' : Fs) : Prop := ∀ b j, s'.inodes.get? b = some j → j.removed = true → s.Old b j

lemma Keeps.of_inodes (h : s'.inodes = s.inodes) : Keeps s s' :=
  fun _ j hj _ => ⟨j, h ▸ hj, rfl, rfl⟩

lemma Keeps.trans {s'' : Fs} (h : Keeps s s') (h' : Keeps s' s'') : Keeps s s'' := by
  intro b j hj hr
  obtain ⟨j', hj', hr', hsector'⟩ := h' b j hj hr
  obtain ⟨i, hi, hr'', hsector⟩ := h b j' hj' (hr'.trans hr)
  exact ⟨i, hi, hr''.trans hr', hsector.trans hsector'⟩

variable {x : ℕ}

lemma Opened.keeps (h : Opened s x a s') : Keeps s s' := by
  intro b j hj hr
  refine (h.old hj).resolve_right fun hnew => ?_
  cases hnew.2.symm.trans hr

lemma keeps_dropRef (s : Fs) (a : ℕ) (i : Inode) : Keeps s (s.dropRef a i) :=
  fun _ _ hj _ => old_of_dropRef hj

/-! ## What a change leaves -/

lemma byte_of_spares {x o : ℕ} (hd : s.disk.Spares L s'.disk) (hx : L x)
    (ho : o < (s.disk.inodeAt x).length) :
    s'.disk.byte ((s.disk.inodeAt x).base + o) = s.disk.byte ((s.disk.inodeAt x).base + o) := by
  have hdata := InodeDisk.data_of_lt ho (s.disk.length_inodeAt_lt x)
  show s'.disk.sector _ _ = s.disk.sector _ _
  rw [hd x _ hx (.inr hdata)]

lemma slot_of_spares (hd : s.disk.Spares L s'.disk) (hD : L D)
    (hn : (s.disk.inodeAt D).length = (entrySize * n : ℕ)) (hk : k < n) :
    s'.slot D k = s.slot D k := by
  have hn : (s.disk.inodeAt D).length = (20 * n : ℕ) := hn
  rw [slot, hd.inodeAt hD]
  refine congrArg DirEntry.held (DirEntry.ofBytes_congr fun o ho => ?_)
  have ho : o < 20 := ho
  rw [Nat.add_assoc]
  exact byte_of_spares hd hD (by rw [hn]; show ((20 * k + o : ℕ) : ℤ) < _; omega)

namespace Linked

/-- A change that spares the directory, and removes no inode, keeps the links. -/
lemma of_spares (h : Linked K D n s) (hd : s.disk.Spares L s'.disk) (hD : L D)
    (hKD : K' D) (hK : ∀ k < n, ∀ p, s.slot D k = some p → K' p.2) (hkeeps : Keeps s s') :
    Linked K' D n s' := by
  have hslot (k : ℕ) (hk : k < n) : s'.slot D k = s.slot D k := slot_of_spares hd hD h.capacity hk
  refine ⟨hKD, h.ne, ?_, fun k hk p hp => ?_, fun j hj k hk p q hp hq => ?_, fun a i hi hr => ?_⟩
  · rw [hd.inodeAt hD]
    exact h.capacity
  · rw [hslot k hk] at hp
    exact ⟨hK k hk p hp, (h.target k hk p hp).2⟩
  · rw [hslot j hj] at hp
    rw [hslot k hk] at hq
    exact h.distinct j hj k hk p q hp hq
  · obtain ⟨j, hj, hjr, hsector⟩ := hkeeps a i hi hr
    obtain ⟨hne, hkept⟩ := h.kept a j hj (hjr.trans hr)
    refine ⟨hsector ▸ hne, fun k hk p hp => ?_⟩
    rw [hslot k hk] at hp
    exact hsector ▸ hkept k hk p hp

lemma of_inodes (h : Linked K D n s) (hdisk : s'.disk = s.disk) (hkeeps : Keeps s s') :
    Linked K D n s' :=
  h.of_spares (hdisk ▸ .refl s.disk K) h.mem h.mem (fun k hk p hp => (h.target k hk p hp).1) hkeeps

end Linked

namespace Volume

section

variable (h : Volume K pend f₀ D n s)

include h

section

variable (hi : s.inodes.get? a = some i)

include hi

lemma linked_surviving {p : List UInt8 × ℕ} (hk : k < n) (hp : s.slot D k = some p) :
    Surviving K i p.2 :=
  ⟨(h.linked.target k hk p hp).1, fun hgone => (h.linked.kept a i hi hgone.2.2).2 k hk p hp hgone.1⟩

lemma surviving : Surviving K i D :=
  ⟨h.linked.mem, fun hgone => (h.linked.kept a i hi hgone.2.2).1 hgone.1.symm⟩

lemma denyCnt : i.denyWriteCnt = 0 := by
  have hnone : s.deniers a = 0 := by
    refine Nat.eq_zero_of_not_pos fun hpos => ?_
    obtain ⟨f, x, hx, hdeny⟩ := exists_of_count_pos hpos
    rw [h.allowed f x hx, Bool.and_false] at hdeny
    cases hdeny
  rw [(h.counted.counts hi).2.2, hnone]
  rfl

lemma fits : i.data.Fits s.disk := by
  obtain ⟨hK, hdata⟩ := h.sound.known a i hi
  rw [hdata]
  exact h.sound.laid.fits hK

end

/-- A change of the disk and the free map that spares the directory. -/
lemma after (ha : After L K' s s') (hD : L D) (hKD : K' D)
    (hK : ∀ k < n, ∀ p, s.slot D k = some p → K' p.2) : Volume K' pend f₀ D n s' := by
  refine ⟨ha.sound, h.counted.of_heaps_eq ha.heaps, ha.file.trans h.file, ?_,
    h.linked.of_spares ha.spares hD hKD hK (.of_inodes (inodes_of_heaps ha.heaps))⟩
  rw [files_of_heaps ha.heaps]
  exact h.allowed

lemma others : Others K D := ⟨h.linked.mem, h.linked.ne⟩

lemma after_same (ha : After (Others K) K s s') : Volume K pend f₀ D n s' :=
  h.after ha h.others h.linked.mem fun k hk p hp => (h.linked.target k hk p hp).1

lemma opened (hx : K x) (ho : Opened s x a s') : Volume K (more pend a) f₀ D n s' := by
  have hheaps : s'.disk = s.disk ∧ s'.files = s.files ∧ s'.freeMapFile = s.freeMapFile := by
    cases ho <;> exact ⟨rfl, rfl, rfl⟩
  obtain ⟨hdisk, hfiles, hfile⟩ := hheaps
  exact ⟨h.sound.opened hx ho, h.counted.opened ho, hfile.trans h.file, hfiles ▸ h.allowed,
    h.linked.of_inodes hdisk ho.keeps⟩

lemma dropRef (hi : s.inodes.get? a = some i) (ha : pend a ≠ 0)
    (hsector : i.sector ≠ freeMapSector) : Volume K (less pend a) f₀ D n (s.dropRef a i) :=
  ⟨h.sound.dropRef hi hsector, h.counted.dropRef hi ha, h.file, h.allowed,
    h.linked.of_inodes rfl (keeps_dropRef s a i)⟩

lemma mem_map : K freeMapSector := by
  obtain ⟨i, hi, hsector, -⟩ := h.sound.map f₀ h.file
  obtain ⟨x, -, hx⟩ := fileInode_eq_some.mp hi
  exact hsector ▸ (h.sound.known _ i hx).1

lemma not_removed (hi : s.inodes.get? a = some i) (hD : i.sector = D) : i.removed = false :=
  Bool.eq_false_iff.mpr fun hr => (h.linked.kept a i hi hr).1 hD

/-- A reference is given up, and with the last one to a removed file, the file. -/
lemma close (m : Mem) (hi : s.inodes.get? a = some i) (ha : pend a ≠ 0)
    (hsector : i.sector ≠ freeMapSector) : Does (inodeClose m a) s fun _ s' =>
      Volume (Surviving K i) (less pend a) f₀ D n s' ∧ s'.heaps = (s.dropRef a i).heaps ∧
        s.disk.Spares (Others K) s'.disk := by
  refine (h.sound.closeInode h.counted m h.file hi hsector).mono fun _ s' hs' => ?_
  refine ⟨(h.dropRef hi ha hsector).after hs' h.others (h.surviving hi) ?_,
    hs'.heaps, hs'.spares⟩
  intro k hk p hp
  exact h.linked_surviving hi hk hp

end

/-! ### Files and directories -/

section

variable (h : Volume K pend f₀ D n s)

include h

lemma allocFile (ha : pend a ≠ 0) :
    Volume K (less pend a) f₀ D n (s.setFiles (s.files.alloc ⟨a, 0, false⟩)) := by
  refine ⟨h.sound.setFiles fun f x _ hx => ⟨x, get?_alloc_of_some hx _, rfl⟩,
    h.counted.allocFile ha 0, h.file, fun f x hx => ?_,
    h.linked.of_inodes rfl (.of_inodes rfl)⟩
  obtain rfl | hf := eq_or_ne f s.files.next
  · cases (get?_alloc_self ..).symm.trans hx
    rfl
  · exact h.allowed f x ((get?_alloc_of_ne hf _).symm.trans hx)

lemma freeFile {f : ℕ} {x : File} (hx : s.files.get? f = some x) (hf : f ≠ f₀) :
    Volume K (more pend x.inode) f₀ D n (s.setFiles (s.files.free f)) := by
  refine ⟨h.sound.setFiles fun g y hg hy => ⟨y, ?_, rfl⟩, h.counted.freeFile hx (h.allowed f x hx),
    h.file, fun g y hy => ?_, h.linked.of_inodes rfl (.of_inodes rfl)⟩
  · cases h.file.symm.trans hg
    rw [get?_free_of_ne hf.symm, hy]
  · exact h.allowed g y (get?_free_eq_some.mp hy).2

lemma moveFile {f : ℕ} {x : File} (hx : s.files.get? f = some x) (w : ℕ) : Volume K pend f₀ D n
      (s.setFiles (s.files.modify f fun y => { y with pos := y.pos + w })) := by
  refine ⟨h.sound.setFiles fun g y _ hy => ?_, h.counted.moveFile hx, h.file, fun g y hy => ?_,
    h.linked.of_inodes rfl (.of_inodes rfl)⟩
  · rw [get?_modify, hy]
    refine ⟨_, rfl, ?_⟩
    split_ifs <;> rfl
  · obtain ⟨z, hz, rfl⟩ := Option.map_eq_some_iff.mp ((get?_modify ..).symm.trans hy)
    split_ifs
    · exact h.allowed g z hz
    · exact h.allowed g z hz

lemma allocDir (ha : pend a ≠ 0) :
    Volume K (less pend a) f₀ D n (s.setDirs (s.dirs.alloc ⟨a, 0⟩)) :=
  ⟨⟨h.sound.laid, h.sound.known, h.sound.map⟩, h.counted.allocDir ha 0, h.file, h.allowed,
    h.linked.of_inodes rfl (.of_inodes rfl)⟩

lemma freeDir {d : ℕ} {x : Dir} (hx : s.dirs.get? d = some x) :
    Volume K (more pend x.inode) f₀ D n (s.setDirs (s.dirs.free d)) :=
  ⟨⟨h.sound.laid, h.sound.known, h.sound.map⟩, h.counted.freeDir hx, h.file, h.allowed,
    h.linked.of_inodes rfl (.of_inodes rfl)⟩

end

/-! ### Data -/

section

variable (h : Volume K pend f₀ D n s) (hx : K x)

include h hx

lemma spares_data {d : Block} (hd : s.disk.ChangedIn (s.disk.inodeAt x).Data d) :
    s.disk.Spares (fun y => K y ∧ y ≠ x) d :=
  hd.spares fun _ _ hy hn hdata => h.sound.laid.not_owns hy.1 hx hy.2 hn (.inr hdata)

lemma sound_data {d : Block} (hd : s.disk.ChangedIn (s.disk.inodeAt x).Data d) :
    Sound K (s.setDisk d) := by
  have hsector (y : ℕ) (hy : K y) : d.inodeAt y = s.disk.inodeAt y :=
    congrArg _ (hd.sector y (h.sound.laid.not_data hx hy))
  refine ⟨h.sound.laid.changedIn hd fun y hy => h.sound.laid.not_data hx hy, fun b i hi => ?_,
    h.sound.map⟩
  obtain ⟨hK, hdata⟩ := h.sound.known b i hi
  exact ⟨hK, hdata.trans (hsector _ hK).symm⟩

lemma write {d : Block} (hD : D ≠ x) (hd : s.disk.ChangedIn (s.disk.inodeAt x).Data d) :
    Volume K pend f₀ D n (s.setDisk d) :=
  ⟨h.sound_data hx hd, h.counted.of_heaps_eq rfl, h.file, h.allowed,
    h.linked.of_spares (h.spares_data hx hd) ⟨h.linked.mem, hD⟩ h.linked.mem
      (fun k hk p hp => (h.linked.target k hk p hp).1) (.of_inodes rfl)⟩

end

/-! ### Links -/

section

variable (h : Volume K pend f₀ D n s) (hk : k < n)

include h hk

lemma changedIn_setEntry (e : DirEntry) :
    s.disk.ChangedIn (s.disk.inodeAt D).Data (s.setEntry D k e).disk := by
  have hn := h.linked.capacity
  have hroom : entrySize ≤ (s.disk.inodeAt D).avail entrySize (entrySize * k) := by
    rw [InodeDisk.avail, hn]
    show 20 ≤ (max 0 (min (20 : ℤ) ((20 * n : ℕ) - ((20 * k : ℕ) : ℤ)))).toNat
    omega
  exact InodeDisk.changedIn_put (h.sound.laid.nonneg D h.linked.mem) (s.disk.length_inodeAt_lt D)
    hroom e.byte

lemma slot_setEntry {e : DirEntry} (he : e.inodeSector < 2 ^ 32) (j : ℕ) :
    (s.setEntry D k e).slot D j = if j = k then e.held else s.slot D j := by
  have hinode : (s.setEntry D k e).disk.inodeAt D = s.disk.inodeAt D :=
    congrArg _ ((h.changedIn_setEntry hk e).sector D (h.sound.laid.own D h.linked.mem))
  rw [slot, hinode, setEntry, disk_setDisk, entryAt_put he]
  split_ifs <;> rfl

lemma spares_setEntry (e : DirEntry) :
    s.disk.Spares (fun x => K x ∧ x ≠ D) (s.setEntry D k e).disk :=
  h.spares_data h.linked.mem (h.changedIn_setEntry hk e)

/-- A record is written, that links a file or none. -/
lemma setEntry {e : DirEntry} (he : e.inodeSector < 2 ^ 32)
    (hlink : ∀ p, e.held = some p → Linkable K D n s k p.2) :
    Volume K pend f₀ D n (s.setEntry D k e) := by
  have hchanged := h.changedIn_setEntry hk e
  have hslot := h.slot_setEntry hk he
  refine ⟨h.sound_data h.linked.mem hchanged, h.counted.of_heaps_eq rfl, h.file, h.allowed,
    h.linked.mem, h.linked.ne, ?_, fun j hj p hp => ?_, fun j hj l hl p q hp hq hpq => ?_,
    fun b i hi hr => ?_⟩
  · have hinode : (s.setEntry D k e).disk.inodeAt D = s.disk.inodeAt D :=
      congrArg _ (hchanged.sector D (h.sound.laid.own D h.linked.mem))
    rw [hinode]
    exact h.linked.capacity
  · rw [hslot] at hp
    split_ifs at hp
    · exact ⟨(hlink p hp).mem, (hlink p hp).ne⟩
    · exact h.linked.target j hj p hp
  · rw [hslot] at hp hq
    split_ifs at hp hq with hjk hlk hlk
    · rw [hjk, hlk]
    · exact absurd hpq.symm ((hlink p hp).other l hl hlk q hq)
    · exact absurd hpq ((hlink q hq).other j hj hjk p hp)
    · exact h.linked.distinct j hj l hl p q hp hq hpq
  · obtain ⟨hne, hkept⟩ := h.linked.kept b i hi hr
    refine ⟨hne, fun j hj p hp => ?_⟩
    rw [hslot] at hp
    split_ifs at hp
    · exact ((hlink p hp).kept b i hi hr).symm
    · exact hkept j hj p hp

end

lemma remove (h : Volume K pend f₀ D n s) (hi : s.inodes.get? a = some i)
    (hne : i.sector ≠ freeMapSector ∧ i.sector ≠ D)
    (hunlinked : ∀ j < n, ∀ p, s.slot D j = some p → p.2 ≠ i.sector) : Volume K pend f₀ D n
      (s.setInodes (s.inodes.modify a fun i => { i with removed := true })) := by
  refine ⟨h.sound.modifyInode (fun _ => ⟨rfl, rfl⟩) fun j hj hmap => ?_, h.counted.removed hi, h.file,
    h.allowed, h.linked.mem, h.linked.ne, h.linked.capacity, h.linked.target, h.linked.distinct,
    fun b j hj hr => ?_⟩
  · cases hi.symm.trans hj
    exact absurd hmap hne.1
  · obtain ⟨j', hj', rfl⟩ := Option.map_eq_some_iff.mp ((get?_modify ..).symm.trans hj)
    split_ifs at hr ⊢ with hb
    · cases hi.symm.trans (hb ▸ hj')
      exact ⟨hne.2, hunlinked⟩
    · exact h.linked.kept b j' hj' hr

end Volume

end

end Fs

end Pintos
