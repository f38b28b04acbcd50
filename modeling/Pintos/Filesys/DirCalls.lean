import Pintos.Filesys.Links

/-!
# Filesys/DirCalls — what the calls on a directory do to a volume

A lookup that runs out of memory misses a name, and then `dir_add` may overwrite a record in use, or
link one name twice. The volume stays one in every case. With memory enough, the calls answer what
the records say.
-/

namespace Pintos

open Machinery Heap

namespace Fs

/-! ## Addresses are not used again -/

/-- An inode at an old address is the inode it was. -/
structure Ages (s s' : Fs) : Prop where
  next : s.inodes.next ≤ s'.inodes.next
  sector : ∀ b i', s'.inodes.get? b = some i' → b < s.inodes.next →
    ∃ i, s.inodes.get? b = some i ∧ i.sector = i'.sector

/-- What a part of a call leaves alone: old inodes, and what the files in `L` own. -/
structure Calm (L : ℕ → Prop) (s s' : Fs) : Prop where
  ages : Ages s s'
  spares : s.disk.Spares L s'.disk

section

variable {K K' L L' : ℕ → Prop} {pend : ℕ → ℕ} {f₀ D n a k : ℕ} {i : Inode} {s s' s'' : Fs}

lemma Ages.trans (h : Ages s s') (h' : Ages s' s'') : Ages s s'' := by
  refine ⟨h.next.trans h'.next, fun b j hj hb => ?_⟩
  obtain ⟨j', hj', hsector'⟩ := h'.sector b j hj (hb.trans_le h.next)
  obtain ⟨i, hi, hsector⟩ := h.sector b j' hj' hb
  exact ⟨i, hi, hsector.trans hsector'⟩

lemma Ages.of_inodes (h : s'.inodes = s.inodes) : Ages s s' := by
  refine ⟨Nat.le_of_eq (by rw [h]), fun b i hi _ => ⟨i, ?_, rfl⟩⟩
  rwa [← h]

lemma Ages.of_old (hnext : s.inodes.next ≤ s'.inodes.next)
    (h : ∀ b j, s'.inodes.get? b = some j → b < s.inodes.next → s.Old b j) : Ages s s' := by
  refine ⟨hnext, fun b j hj hb => ?_⟩
  obtain ⟨i, hi, -, hsector⟩ := h b j hj hb
  exact ⟨i, hi, hsector⟩

lemma ages_modify {g : Inode → Inode} (hg : ∀ i, (g i).sector = i.sector) :
    Ages s (s.setInodes (s.inodes.modify a g)) := by
  refine ⟨le_rfl, fun b j hj _ => ?_⟩
  obtain ⟨i, hi, rfl⟩ := Option.map_eq_some_iff.mp ((get?_modify ..).symm.trans hj)
  refine ⟨i, hi, ?_⟩
  split_ifs
  · exact (hg i).symm
  · rfl

variable {x : ℕ}

lemma Opened.ages (h : Opened s x a s') : Ages s s' := by
  refine .of_old ?_ fun b j hj hb => ?_
  · cases h with
    | reopened => exact le_rfl
    | loaded => exact Nat.le_succ _
  · exact (h.old hj).resolve_right fun hnew => hb.ne hnew.1

lemma ages_dropRef (s : Fs) (a : ℕ) (i : Inode) : Ages s (s.dropRef a i) := by
  refine .of_old ?_ fun b j hj _ => old_of_dropRef hj
  rw [dropRef]
  split_ifs
  · exact le_rfl
  · exact le_rfl

section

variable (h : Opened s x a s')

include h

lemma Opened.inode : ∃ i, s'.inodes.get? a = some i ∧ i.sector = x := by
  cases h with
  | reopened hi hx => exact ⟨_, get?_modify_self hi _, hx⟩
  | loaded => exact ⟨_, get?_alloc_self .., rfl⟩

lemma Opened.disk : s'.disk = s.disk := by
  cases h <;> rfl

lemma Opened.dirs : s'.dirs = s.dirs := by
  cases h <;> rfl

lemma Opened.freeMap : s'.freeMap = s.freeMap := by
  cases h <;> rfl

end

lemma Calm.trans (h : Calm L s s') (h' : Calm L s' s'') : Calm L s s'' :=
  ⟨h.ages.trans h'.ages, h.spares.trans h'.spares⟩

lemma Calm.mono (h : Calm L s s') (hL : ∀ x, L' x → L x) : Calm L' s s' :=
  ⟨h.ages, h.spares.mono hL⟩

lemma After.calm (h : After L K s s') : Calm L s s' :=
  ⟨.of_inodes (inodes_of_heaps h.heaps), h.spares⟩

lemma Opened.calm (h : Opened s x a s') (L : ℕ → Prop) : Calm L s s' :=
  ⟨h.ages, h.disk ▸ .refl _ _⟩

lemma slot_of_disk (h : s'.disk = s.disk) (D k : ℕ) : s'.slot D k = s.slot D k := by
  rw [slot, slot, h]

lemma calm_of_dropRef (hheaps : s'.heaps = (s.dropRef a i).heaps) (hd : s.disk.Spares L s'.disk) :
    Calm L s s' := ⟨(ages_dropRef s a i).trans (.of_inodes (inodes_of_heaps hheaps)), hd⟩

/-- A reference to the file in `x` is given up, and perhaps the file with it. -/
structure Closing (K K' : ℕ → Prop) (D x : ℕ) (s s' : Fs) : Prop where
  sub : ∀ y, K' y → K y
  rest : ∀ y, K y → y ≠ x → K' y
  calm : Calm (fun y => K y ∧ y ≠ freeMapSector ∧ y ≠ D) s s'
  files : s'.files = s.files
  dirs : s'.dirs = s.dirs
  removed : ∀ b j, s'.inodes.get? b = some j → j.removed = true → j.sector ≠ x → s.Old b j

lemma Opened.still_open (h : Opened s x a s') {b : ℕ} {j : Inode}
    (hj : s.inodes.get? b = some j) : ∃ j', s'.inodes.get? b = some j' ∧ j'.sector = j.sector := by
  cases h with
  | reopened =>
    refine ⟨_, (get?_modify ..).trans (congrArg _ hj), ?_⟩
    split_ifs <;> rfl
  | loaded => exact ⟨j, get?_alloc_of_some hj _, rfl⟩

lemma Closing.of_opened (h : Closing K K' D x s' s'') (ho : Opened s x a s') :
    Closing K K' D x s s'' := by
  refine ⟨h.sub, h.rest, (ho.calm _).trans h.calm, h.files.trans ho.files, h.dirs.trans ho.dirs, ?_⟩
  intro b j hj hr hne
  obtain ⟨j', hj', hr', hsector'⟩ := h.removed b j hj hr hne
  obtain ⟨j₀, hj₀, hr₀, hsector₀⟩ | ⟨-, hfresh⟩ := ho.old hj'
  · exact ⟨j₀, hj₀, hr₀.trans hr', hsector₀.trans hsector'⟩
  · rw [hr'.trans hr] at hfresh
    cases hfresh

/-! ## The calls -/

/-- The directory in sector `D` is open as `dir`. -/
def OpenDir (s : Fs) (dir D : ℕ) : Prop :=
  ∃ x i, s.dirs.get? dir = some x ∧ s.inodes.get? x.inode = some i ∧ i.sector = D

lemma OpenDir.ages {dir : ℕ} (h : s.OpenDir dir D) (hages : Ages s s') (hdirs : s'.dirs = s.dirs)
    (hc : Counted pend s') : s'.OpenDir dir D := by
  obtain ⟨x, i, hx, hi, hD⟩ := h
  rw [← hdirs] at hx
  obtain ⟨i', hi'⟩ := hc.inode_of_dir hx
  obtain ⟨j, hj, hsector⟩ := hages.sector _ i' hi' (lt_next hi)
  cases hi.symm.trans hj
  exact ⟨x, i', hx, hi', hsector.symm.trans hD⟩

/-- A name that a record has room for. -/
def GoodName (name : CString) : Prop := name.bytes ≠ [] ∧ name.bytes.length ≤ nameMax

/-- Record `k` is the first with the name, and for the file in sector `x`. -/
structure FirstNamed (s : Fs) (D : ℕ) (nm : List UInt8) (k x : ℕ) : Prop where
  slot : s.slot D k = some (nm, x)
  before : ∀ j < k, ∀ y, s.slot D j ≠ some (nm, y)

variable {nm : List UInt8}

lemma FirstNamed.of_disk {k x : ℕ} (h : FirstNamed s D nm k x) (hdisk : s'.disk = s.disk) :
    FirstNamed s' D nm k x := by
  refine ⟨?_, fun j hj y => ?_⟩
  · rw [slot_of_disk hdisk]
    exact h.slot
  · rw [slot_of_disk hdisk]
    exact h.before j hj y

lemma FirstNamed.unique {k k' x x' : ℕ} (h : FirstNamed s D nm k x)
    (h' : FirstNamed s D nm k' x') : x = x' := by
  have hk : k = k' := by
    refine Nat.le_antisymm (Nat.le_of_not_lt fun hlt => ?_) (Nat.le_of_not_lt fun hlt => ?_)
    · exact h.before k' hlt x' h'.slot
    · exact h'.before k hlt x h.slot
  subst hk
  exact (Prod.mk.inj (Option.some.inj (h.slot.symm.trans h'.slot))).2

namespace Volume

variable {dir : ℕ} {m : Mem} {name : CString}

section

variable (h : Volume K pend f₀ D n s)

include h

section

variable (hi : s.inodes.get? a = some i) (hD : i.sector = D)

include hi hD

lemma data : i.data = s.disk.inodeAt D := hD ▸ (h.sound.known a i hi).2

lemma inTable : InTable i.data k ↔ k < n := by
  have hn : (s.disk.inodeAt D).length = (20 * n : ℕ) := h.linked.capacity
  rw [inTable_iff, h.data hi hD]
  omega

lemma slot_eq (k : ℕ) : (entryAt s.disk i.data k).held = s.slot D k := by
  rw [h.data hi hD, slot]

lemma lookup (m : Mem) (name : CString) : ∃ r, (Fs.lookup m a name).run s = .ok r s ∧
      (∀ e ofs, r = some (e, ofs) → ∃ k < n, ofs = entrySize * k ∧
        e = entryAt s.disk (s.disk.inodeAt D) k ∧ FirstNamed s D name.bytes k e.inodeSector) ∧
      (r = none → m = .plenty → ∀ k < n, ∀ x, s.slot D k ≠ some (name.bytes, x)) := by
  obtain ⟨r, hrun, hsome, hnone⟩ := lookup_run hi (h.fits hi) m name
  refine ⟨r, hrun, fun e ofs hr => ?_, fun hr hm k hk x hx => ?_⟩
  · obtain ⟨k, hofs, htable, he, hheld, hbefore⟩ := hsome e ofs hr
    refine ⟨k, (h.inTable hi hD).mp htable, hofs, ?_, ?_, fun j hj y => ?_⟩
    · rw [he, h.data hi hD]
    · rwa [← h.slot_eq hi hD, ← he]
    · rw [← h.slot_eq hi hD]
      exact hbefore j hj y
  · refine hnone hr (fun j => hm ▸ rfl) k x ((h.inTable hi hD).mpr hk) ?_
    rwa [h.slot_eq hi hD]

end

/-- `dir_lookup` opens the file of the first record with the name. -/
lemma dirLookup (hdir : s.OpenDir dir D) (m : Mem) (name : CString) :
    Does (Fs.dirLookup m dir name) s fun r s' =>
      (r = none ∧ s' = s ∧ (m = .plenty → ∀ k < n, ∀ x, s.slot D k ≠ some (name.bytes, x))) ∨
      ∃ a k x, r = some a ∧ k < n ∧ FirstNamed s D name.bytes k x ∧ Opened s x a s' := by
  obtain ⟨x, i, hx, hi, hD⟩ := hdir
  obtain ⟨r, hrun, hsome, hnone⟩ := h.lookup hi hD (m.sub 0) name
  simp only [Fs.dirLookup, dirInode, does_bind, does_get, does_orThrow, does_pure]
  refine ⟨x, hx, does_of_run hrun ?_⟩
  cases r with
  | none =>
    rw [does_pure]
    exact .inl ⟨rfl, rfl, fun hm => hnone rfl (Mem.sub_of_plenty hm 0)⟩
  | some found =>
    obtain ⟨e, ofs⟩ := found
    obtain ⟨k, hk, -, -, hfirst⟩ := hsome e ofs rfl
    have hlt := h.sound.laid.sector_lt _ (h.linked.target k hk _ hfirst.slot).1
    refine (does_inodeOpen (m.sub 1) hlt).mono ?_
    rintro r s' (⟨rfl, rfl, hm⟩ | ⟨a, rfl, hopened⟩)
    · refine .inl ⟨rfl, rfl, fun hplenty => ?_⟩
      rw [hplenty] at hm
      cases hm
    · exact .inr ⟨a, k, _, rfl, hk, hfirst, hopened⟩

/-- `dir_add` writes one record, or nothing. -/
lemma dirAdd (hdir : s.OpenDir dir D) (m : Mem) (junk : Fin 15 → UInt8) (name : CString) (x : ℕ) :
    Does (Fs.dirAdd m junk dir name x) s fun r s' =>
      (r = false ∧ s' = s ∧ (m = .plenty → GoodName name →
        (∀ k < n, ∀ y, s.slot D k ≠ some (name.bytes, y)) → ∀ k < n, s.slot D k ≠ none)) ∨
      (r = true ∧ GoodName name ∧ ∃ k < n, s' = s.setEntry D k ⟨x, strlcpy junk name, true⟩ ∧
        (m = .plenty → s.slot D k = none ∧ ∀ j < n, ∀ y, s.slot D j ≠ some (name.bytes, y))) := by
  obtain ⟨d, i, hd, hi, hD⟩ := hdir
  simp only [Fs.dirAdd, dirInode, does_bind, does_get, does_orThrow, does_pure]
  refine ⟨d, hd, ?_⟩
  split_ifs with hbad
  · rw [does_pure]
    exact .inl ⟨rfl, rfl, fun _ hgood => absurd hbad (not_or.mpr ⟨hgood.1, Nat.not_lt.mpr hgood.2⟩)⟩
  have hgood : GoodName name := ⟨fun hnil => hbad (.inl hnil), Nat.not_lt.mp fun hlt => hbad (.inr hlt)⟩
  obtain ⟨r, hlookup, hsome, hnone⟩ := h.lookup hi hD (m.sub 0) name
  rw [does_bind]
  refine does_of_run hlookup ?_
  cases r with
  | some found =>
    obtain ⟨k, hk, -, -, hfirst⟩ := hsome found.1 found.2 rfl
    rw [does_pure]
    exact .inl ⟨rfl, rfl, fun _ _ habsent => absurd hfirst.slot (habsent k hk _)⟩
  | none =>
    obtain ⟨e, k, hscan, -, hbefore, hfound, hend⟩ :=
      scan_run hi (h.fits hi) (m.sub 1) (fun e => !e.inUse) 0
    have hlength : i.data.length = (entrySize * n : ℕ) := h.data hi hD ▸ h.linked.capacity
    have huse (j : ℕ) (hj : j < k) : s.slot D j ≠ none := by
      rw [← h.slot_eq hi hD, Ne, DirEntry.held_eq_none]
      simpa using (hbefore j (Nat.zero_le j) hj).2
    -- every record before `k` is there, and so `k` is no further than the end
    have hk : k ≤ n := by
      refine Nat.le_of_not_lt fun hlt => Nat.lt_irrefl n ?_
      exact (h.inTable hi hD).mp (hbefore n (Nat.zero_le n) hlt).1
    simp only [does_bind]
    refine (does_bind ..).mp (does_of_run hscan ?_)
    obtain ⟨hwrite, hlt⟩ | ⟨hwrite, hfull⟩ :=
      writeEntry_run hi (h.denyCnt hi) (h.fits hi) (m.sub 2) hlength hk ⟨x, strlcpy junk name, true⟩
    · refine does_of_run hwrite (.inr ⟨rfl, hgood, k, hlt, ?_, fun hm => ?_⟩)
      · rw [Fs.setEntry, h.data hi hD]
      · refine ⟨?_, hnone rfl (by rw [hm]; rfl)⟩
        obtain ⟨e, rfl⟩ : ∃ e', e = some e' := Option.ne_none_iff_exists'.mp fun hnone =>
          hend hnone (fun j => by rw [hm]; rfl) ((h.inTable hi hD).mpr hlt)
        obtain ⟨-, rfl, hfree⟩ := hfound e rfl
        rw [← h.slot_eq hi hD, DirEntry.held_eq_none]
        simpa using hfree
    · refine does_of_run hwrite (.inl ⟨rfl, rfl, fun hm _ _ j hj => ?_⟩)
      exact huse j (Nat.lt_of_lt_of_eq hj (hfull (by rw [hm]; rfl)).symm)

lemma closing (m : Mem) (hi : s.inodes.get? a = some i) (ha : pend a ≠ 0)
    (hsector : i.sector ≠ freeMapSector) : Does (inodeClose m a) s fun _ s' =>
      Volume (Surviving K i) (less pend a) f₀ D n s' ∧ Closing K (Surviving K i) D i.sector s s' ∧
        ∀ k < n, s'.slot D k = s.slot D k := by
  refine (h.close m hi ha hsector).mono ?_
  rintro _ s' ⟨hvolume, hheaps, hspares⟩
  have hinodes : s'.inodes = (s.dropRef a i).inodes := inodes_of_heaps hheaps
  refine ⟨hvolume, ⟨fun y hy => hy.1, fun y hy hne => ⟨hy, fun hgone => hne hgone.1⟩, ?_,
    (files_of_heaps hheaps).trans rfl, (dirs_of_heaps hheaps).trans rfl, fun b j hj _ _ => ?_⟩,
    fun k hk => ?_⟩
  · exact calm_of_dropRef hheaps (hspares.mono fun y hy => ⟨hy.1, hy.2.1⟩)
  · exact old_of_dropRef (hinodes ▸ hj)
  · exact slot_of_spares hspares h.others h.linked.capacity hk

/-- The end of `dir_remove`: the record is erased and the file removed, unless the write
fails. -/
lemma eraseEntry {t : ℕ} {j : Inode} {e : DirEntry} (m : Mem) (hi : s.inodes.get? a = some i)
    (hD : i.sector = D) (hk : k < n) (he : e.inodeSector < 2 ^ 32)
    (hslot : s.slot D k = some (nm, j.sector)) (hj : s.inodes.get? t = some j) (ht : pend t ≠ 0) :
    Does (Fs.eraseEntry m a (entrySize * k) e t) s fun r s' =>
      ∃ K', Volume K' (less pend t) f₀ D n s' ∧ Closing K K' D j.sector s s' ∧
        (∀ l < n, s'.slot D l = if r = true ∧ l = k then none else s.slot D l) ∧
        (m = .plenty → r = true) := by
  obtain ⟨-, hfree, hroot⟩ := h.linked.target k hk _ hslot
  have hlength : i.data.length = (entrySize * n : ℕ) := h.data hi hD ▸ h.linked.capacity
  rw [Fs.eraseEntry, does_bind]
  obtain ⟨hwrite, -⟩ | ⟨hwrite, hfull⟩ := writeEntry_run hi (h.denyCnt hi) (h.fits hi) (m.sub 0)
    hlength hk.le { e with inUse := false }
  · refine does_of_run hwrite ?_
    rw [h.data hi hD, if_pos rfl]
    have hslots (l : ℕ) := h.slot_setEntry (e := { e with inUse := false }) hk he l
    -- no other record links the file
    have hunlinked (l : ℕ) (hl : l < n) (p : List UInt8 × ℕ)
        (hp : (s.setEntry D k { e with inUse := false }).slot D l = some p) : p.2 ≠ j.sector := by
      intro hpj
      rw [hslots] at hp
      split_ifs at hp with hlk
      · cases hp
      · exact hlk (h.linked.distinct l hl k hk p _ hp hslot hpj)
    have hgone := (h.setEntry (e := { e with inUse := false }) hk he nofun).remove hj ⟨hfree, hroot⟩
      hunlinked
    simp only [does_bind, inodeRemove, does_get, does_orThrow, does_set, does_pure]
    refine ⟨j, hj, (hgone.closing (m.sub 1) (get?_modify_self hj _) ht hfree).mono ?_⟩
    rintro _ s' ⟨hvolume, hclosing, hsame⟩
    refine ⟨_, hvolume, ⟨hclosing.sub, hclosing.rest, ?_, hclosing.files, hclosing.dirs, ?_⟩, ?_, ?_⟩
    · refine Calm.trans ⟨?_, ?_⟩ hclosing.calm
      · refine Ages.trans ?_ (ages_modify fun _ => rfl)
        exact .of_inodes rfl
      · exact (h.spares_setEntry hk _).mono fun y hy => ⟨hy.1, hy.2.2⟩
    · intro b j' hj' hr hne
      obtain ⟨j₁, hj₁, hr₁, hs₁⟩ := hclosing.removed b j' hj' hr hne
      have hb : b ≠ t := by
        rintro rfl
        cases (get?_modify_self hj _).symm.trans hj₁
        exact hne hs₁.symm
      exact ⟨j₁, (get?_modify_of_ne hb _).symm.trans hj₁, hr₁, hs₁⟩
    · intro l hl
      refine (hsame l hl).trans ((hslots l).trans ?_)
      simp [DirEntry.held]
    · exact fun _ => trivial
  · refine does_of_run hwrite ?_
    rw [if_neg Bool.false_ne_true, does_bind]
    refine (h.closing (m.sub 1) hj ht hfree).mono fun _ s' hs' => ?_
    rw [does_pure]
    refine ⟨_, hs'.1, hs'.2.1, fun l hl => ?_, fun hm => ?_⟩
    · rw [hs'.2.2 l hl]
      simp
    · have hend := hfull (by rw [hm]; rfl)
      omega

lemma dirRemove (hdir : s.OpenDir dir D) (m : Mem) (name : CString) :
    Does (Fs.dirRemove m dir name) s fun r s' =>
      (r = false ∧ s' = s ∧ (m = .plenty → ∀ k < n, ∀ x, s.slot D k ≠ some (name.bytes, x))) ∨
      ∃ k x K', k < n ∧ s.slot D k = some (name.bytes, x) ∧ Volume K' pend f₀ D n s' ∧
        Closing K K' D x s s' ∧
        (∀ l < n, s'.slot D l = if r = true ∧ l = k then none else s.slot D l) ∧
        (m = .plenty → r = true) := by
  obtain ⟨d, i, hd, hi, hD⟩ := hdir
  obtain ⟨r, hrun, hsome, hnone⟩ := h.lookup hi hD (m.sub 0) name
  simp only [Fs.dirRemove, dirInode, does_bind, does_get, does_orThrow, does_pure]
  refine ⟨d, hd, does_of_run hrun ?_⟩
  cases r with
  | none =>
    rw [does_pure]
    exact .inl ⟨rfl, rfl, fun hm => hnone rfl (Mem.sub_of_plenty hm 0)⟩
  | some found =>
    obtain ⟨e, ofs⟩ := found
    obtain ⟨k, hk, rfl, he, hslot, -⟩ := hsome e ofs rfl
    obtain ⟨hK, hne⟩ := h.linked.target k hk _ hslot
    rw [does_bind]
    refine (does_inodeOpen (m.sub 1) (h.sound.laid.sector_lt _ hK)).mono ?_
    rintro r s₁ (⟨rfl, rfl, hm⟩ | ⟨t, rfl, hopened⟩)
    · rw [does_pure]
      refine .inl ⟨rfl, rfl, fun hplenty => ?_⟩
      rw [hplenty] at hm
      cases hm
    · obtain ⟨j, hj, hsector⟩ := hopened.inode
      obtain ⟨i₁, hi₁, hD₁⟩ := hopened.still_open hi
      have hslots (l : ℕ) : s₁.slot D l = s.slot D l := slot_of_disk hopened.disk D l
      have hlt : e.inodeSector < 2 ^ 32 := he ▸ entryAt_sector_lt ..
      refine ((h.opened hK hopened).eraseEntry (m.sub 2) hi₁ (hD₁.trans hD) hk hlt
        (by rw [hslots, hslot, hsector]) hj (by simp)).mono fun r s' hs' => .inr ?_
      obtain ⟨K', hvolume, hclosing, herased, hdone⟩ := hs'
      rw [less_more] at hvolume
      rw [hsector] at hclosing
      refine ⟨k, e.inodeSector, K', hk, hslot, hvolume, hclosing.of_opened hopened, fun l hl => ?_,
        fun hm => ?_⟩
      · rw [herased l hl, hslots]
      · exact hdone (by rw [hm]; rfl)

end

/-! ### The directory is opened and closed -/

lemma openDir (h : Volume K pend f₀ D n s) (m₀ m₁ : Mem) :
    Does (do let inode ← inodeOpen m₀ D; Fs.dirOpen m₁ inode) s fun r s' =>
      Volume K pend f₀ D n s' ∧ Ages s s' ∧ Keeps s s' ∧ s'.disk = s.disk ∧ s'.files = s.files ∧
        s'.freeMap = s.freeMap ∧ ((r = none ∧ s'.dirs = s.dirs ∧ (m₀ = .plenty → m₁ ≠ .plenty)) ∨
          ∃ a, r = some s.dirs.next ∧ s'.dirs = s.dirs.alloc ⟨a, 0⟩ ∧
            s'.OpenDir s.dirs.next D) := by
  rw [does_bind]
  refine (does_inodeOpen m₀ (h.sound.laid.sector_lt D h.linked.mem)).mono ?_
  rintro r s₁ (⟨rfl, rfl, hm⟩ | ⟨a, rfl, hopened⟩)
  · rw [Fs.dirOpen, does_pure]
    refine ⟨h, .of_inodes rfl, .of_inodes rfl, rfl, rfl, rfl, .inl ⟨rfl, rfl, fun hplenty => ?_⟩⟩
    rw [hplenty] at hm
    cases hm
  · obtain ⟨i, hi, hD⟩ := hopened.inode
    have hvolume := h.opened h.linked.mem hopened
    rw [Fs.dirOpen]
    split_ifs with hm
    · simp only [does_bind, does_get, does_set, does_pure]
      have hdir := hvolume.allocDir (a := a) (by simp)
      rw [less_more] at hdir
      refine ⟨hdir, hopened.ages.trans (.of_inodes rfl), hopened.keeps.trans (.of_inodes rfl),
        hopened.disk, hopened.files, hopened.freeMap, .inr ⟨a, ?_, ?_, ?_⟩⟩
      · rw [hopened.dirs]
      · exact congrArg (alloc · ⟨a, 0⟩) hopened.dirs
      · rw [← hopened.dirs]
        exact ⟨_, i, get?_alloc_self .., hi, hD⟩
    · rw [does_bind]
      refine does_of_run (inodeClose_kept (m₁.sub 0) hi (hvolume.not_removed hi hD)) ?_
      rw [does_pure]
      have hclosed := hvolume.dropRef hi (by simp) (hD ▸ h.linked.ne)
      rw [less_more] at hclosed
      refine ⟨hclosed, hopened.ages.trans (ages_dropRef s₁ a i),
        hopened.keeps.trans (keeps_dropRef s₁ a i), hopened.disk, hopened.files, hopened.freeMap,
        .inl ⟨rfl, hopened.dirs, fun _ hplenty => ?_⟩⟩
      rw [hplenty] at hm
      exact hm rfl

lemma dirClose (h : Volume K pend f₀ D n s) (hdir : s.OpenDir dir D) (m : Mem) :
    Does (Fs.dirClose m dir) s fun _ s' =>
      Volume K pend f₀ D n s' ∧ Ages s s' ∧ s'.disk = s.disk ∧ s'.files = s.files ∧
        s'.freeMap = s.freeMap := by
  obtain ⟨x, i, hx, hi, hD⟩ := hdir
  simp only [Fs.dirClose, does_bind, does_get, does_orThrow, does_modify]
  refine ⟨x, hx, does_of_run (inodeClose_kept m hi (h.not_removed hi hD)) ?_⟩
  -- the handle goes last; it could as well go first
  have hlast := (h.freeDir hx).dropRef hi (by simp) (hD ▸ h.linked.ne)
  rw [less_more] at hlast
  exact ⟨hlast, (ages_dropRef s x.inode i).trans (.of_inodes rfl), rfl, rfl, rfl⟩

end Volume

end

end Fs

end Pintos
