import Pintos.Filesys.Fsutil
import Pintos.Filesys.Room

/-!
# Filesys/Archive — what goes into an archive comes out of it

A file in an archive is a header and its bytes, with zeroes up to the end of a sector.
`fsutil_append` adds one at its position and touches no sector before it; `fsutil_extract` goes
along the archive, and what it has extracted so far is the listing of the root directory.

Names lose their antisocial prefixes on the way. And the marker behind the files is whole only if
the byte behind the buffer of `fsutil_append` is zero, and the sector behind the one it writes was.
-/

namespace Pintos

open Machinery Ustar Function List Block InodeDisk Nat Fs

namespace Block

variable {d : Block} {a k p : ℕ}

lemma slice_drop : (d.slice a k).drop p = d.slice (a + p) (k - p) := by
  refine ext_getElem (by simp) fun i hi hi' => ?_
  simp [slice, add_assoc]

lemma slice_take : (d.slice a k).take p = d.slice a (min p k) := by
  refine ext_getElem (by simp) fun i hi hi' => ?_
  simp [slice]

lemma slice_put_self (d : Block) (a : ℕ) (l : List UInt8) :
    (d.put a l.length fun i => l.getD i 0).slice a l.length = l := by
  refine ext_getElem (by simp) fun i hi hi' => ?_
  simp [slice, overwrite, hi']

def withSector (d : Block) (n : ℕ) (data : Sector) : Block :=
  { d with sector := update d.sector n data }

lemma sector_withSector (d : Block) (n : ℕ) (data : Sector) : (d.withSector n data).sector n = data :=
  update_self ..

lemma changedIn_withSector (d : Block) (n : ℕ) (data : Sector) :
    d.ChangedIn (· = n) (d.withSector n data) := ⟨rfl, fun _ hk => update_of_ne hk ..⟩

lemma withSector_withSector (d : Block) (n : ℕ) (data data' : Sector) :
    (d.withSector n data).withSector n data' = d.withSector n data' := by
  simp only [withSector, update_idem]

end Block

namespace Fs

/-- The bytes of the file with its inode in sector `x`. -/
def contents (s : Fs) (x : ℕ) : List UInt8 :=
  s.disk.slice (s.disk.inodeAt x).base (s.disk.inodeAt x).length.toNat

/-- The files in the root directory, each with its name and its bytes. -/
def listing (s : Fs) : List (List UInt8 × List UInt8) :=
  (entries 16 (s.slot rootDirSector)).map fun p => (p.1, s.contents p.2)

/-- The file called `nm` has those bytes. -/
def Has (s : Fs) (nm bytes : List UInt8) : Prop :=
  ∃ k < 16, ∃ x, FirstNamed s rootDirSector nm k x ∧ s.contents x = bytes

section

variable {K L : ℕ → Prop} {f₀ x : ℕ} {length : ℤ} {nm bytes : List UInt8} {s s' s'' : Fs}

lemma contents_of_spares (hd : s.disk.Spares L s'.disk) (hx : L x) :
    s'.contents x = s.contents x := by
  rw [contents, contents, hd.inodeAt hx]
  refine map_congr_left fun i hi => byte_of_spares hd hx ?_
  have hi := mem_range.mp hi
  omega

/-- A file is written from one end to the other, and no other. -/
lemma Mounted.fill (h : Mounted K f₀ s) (hx : K x)
    (hlen : (s.disk.inodeAt x).length = bytes.length)
    (hdisk : s'.disk = s.disk.put (s.disk.inodeAt x).base bytes.length fun i => bytes.getD i 0) :
    s.disk.Spares (fun y => K y ∧ y ≠ x) s'.disk ∧ s'.contents x = bytes := by
  have hall : bytes.length ≤ (s.disk.inodeAt x).avail bytes.length 0 := by
    rw [avail]
    omega
  have hchanged : s.disk.ChangedIn (s.disk.inodeAt x).Data s'.disk := by
    rw [hdisk]
    exact changedIn_put (h.sound.laid.nonneg x hx) (s.disk.length_inodeAt_lt x) hall _
  have hinode : s'.disk.inodeAt x = s.disk.inodeAt x :=
    congrArg _ (hchanged.sector x (h.sound.laid.not_data hx hx))
  refine ⟨h.spares_data hx hchanged, ?_⟩
  rw [contents, hinode, hlen, Int.toNat_natCast, hdisk, slice_put_self]

lemma NewFile.firstNamed (h : NewFile K f₀ x nm length s s')
    (hnew : ∀ k < 16, ∀ y, s.slot rootDirSector k ≠ some (nm, y)) :
    ∃ k < 16, FirstNamed s' rootDirSector nm k x := by
  obtain ⟨k, hk, -, hslot⟩ := h.slot
  refine ⟨k, hk, ?_, fun j hj y => ?_⟩
  · rw [hslot k hk, if_pos rfl]
  · rw [hslot j (hj.trans hk), if_neg hj.ne]
    exact hnew j (hj.trans hk) y

lemma NewFile.listing (h : NewFile K f₀ x nm length s s') (hv : Mounted K f₀ s)
    (hd : s'.disk.Spares (fun y => Also K x y ∧ y ≠ x) s''.disk) (hbytes : s''.contents x = bytes) :
    s''.listing.Perm ((nm, bytes) :: s.listing) := by
  obtain ⟨k, hk, hfree, hslot⟩ := h.slot
  have hroot : Also K x rootDirSector ∧ rootDirSector ≠ x :=
    ⟨.inl hv.linked.mem, fun heq => h.new (heq ▸ hv.linked.mem)⟩
  have hslots (j : ℕ) (hj : j < 16) : s''.slot rootDirSector j =
      update (s.slot rootDirSector) k (some (nm, x)) j := by
    rw [slot_of_spares hd hroot h.volume.linked.capacity hj, hslot j hj, update_apply]
  -- the other files have the bytes that they had
  have hothers : (entries 16 (s.slot rootDirSector)).map (fun p => (p.1, s''.contents p.2)) =
      s.listing := by
    refine map_congr_left fun p hp => ?_
    obtain ⟨j, hj, hp⟩ := mem_entries.mp hp
    obtain ⟨hK, hmap, hne⟩ := hv.linked.target j hj p hp
    have hold : Also K x p.2 ∧ p.2 ≠ x := ⟨.inl hK, fun heq => h.new (heq ▸ hK)⟩
    rw [contents_of_spares hd hold, contents_of_spares h.calm.spares ⟨hK, hmap, hne⟩]
  rw [Fs.listing, entries_congr hslots, ← hbytes, ← hothers]
  exact (entries_fill hk hfree (nm, x)).map _

end

lemma Has.of_disk {s s' : Fs} {nm bytes : List UInt8} (h : s.Has nm bytes)
    (hdisk : s'.disk = s.disk) : s'.Has nm bytes := by
  obtain ⟨k, hk, x, hnamed, hbytes⟩ := h
  refine ⟨k, hk, x, hnamed.of_disk hdisk, ?_⟩
  rwa [contents, hdisk]

end Fs

namespace Fsutil

/-! ## Rules -/

section Rules

variable {u : Fsutil}

lemma does_write {n : ℕ} {data : Sector} {Q : Unit → Fsutil → Prop} (hn : n < u.scratch.size)
    (hQ : Q () ⟨u.fs, u.scratch.withSector n data, u.appendSector, u.extractSector⟩) :
    Does (write n data) u Q := by
  simp only [write, does_bind, does_get, does_orThrow, does_set]
  exact ⟨_, if_pos hn, hQ⟩

lemma does_writeNext {data : Sector} {Q : Unit → Fsutil → Prop} (hn : u.appendSector < u.scratch.size)
    (hQ : ∀ d : Block, d.sector u.appendSector = data → u.scratch.ChangedIn (· = u.appendSector) d →
      Q () ⟨u.fs, d, u.appendSector + 1, u.extractSector⟩) : Does (writeNext data) u Q := by
  simp only [writeNext, does_bind, does_get, does_modify]
  exact does_write hn (hQ _ (sector_withSector ..) (changedIn_withSector ..))

lemma does_readNext {Q : Sector → Fsutil → Prop} (hn : u.extractSector < u.scratch.size)
    (hQ : Q (u.scratch.sector u.extractSector) { u with extractSector := u.extractSector + 1 }) :
    Does readNext u Q := by
  simp only [readNext, does_bind, does_get, does_orThrow, does_set, does_pure]
  exact ⟨_, if_pos hn, hQ⟩

end Rules

/-! ## Data on the device -/

/-- The sectors that `n` bytes take. -/
def dataSectors (n : ℕ) : ℕ := (n + (blockSectorSize - 1)) / blockSectorSize

/-- From sector `n` on, the bytes `l`, and zeroes up to the end of a sector. -/
def HasData (d : Block) (n : ℕ) (l : List UInt8) : Prop :=
  ∀ i < blockSectorSize * dataSectors l.length, d.byte (blockSectorSize * n + i) = l.getD i 0

lemma chunkSize_natCast (n : ℕ) : chunkSize n = (min blockSectorSize n : ℕ) := by
  show (if (n : ℤ) > 512 then (512 : ℤ) else n) = (min 512 n : ℕ)
  split_ifs <;> omega

section

variable {n : ℕ} {l : List UInt8} {d d' : Block}

lemma dataSectors_of_ne_nil (hl : l ≠ []) : dataSectors l.length =
    1 + dataSectors (l.drop (min blockSectorSize l.length)).length := by
  have hpos : 0 < l.length := length_pos_of_ne_nil hl
  rw [length_drop]
  show (l.length + 511) / 512 = 1 + (l.length - min 512 l.length + 511) / 512
  omega

lemma HasData.congr (h : HasData d n l)
    (hd : ∀ k, Extent n (dataSectors l.length) k → d'.sector k = d.sector k) : HasData d' n l := by
  intro i hi
  rw [← h i hi]
  show d'.sector _ _ = d.sector _ _
  rw [hd]
  have hi : i < 512 * dataSectors l.length := hi
  show n ≤ (512 * n + i) / 512 ∧ (512 * n + i) / 512 < n + dataSectors l.length
  omega

lemma bytesOf_of_lt {data : Sector} {i : ℕ} (hi : i < blockSectorSize) :
    bytesOf data i = data ⟨i, hi⟩ := congrArg data (Fin.ext (Nat.mod_eq_of_lt hi))

lemma getD_take_chunk {i : ℕ} (hi : i < blockSectorSize) :
    (l.take (min blockSectorSize l.length)).getD i 0 = l.getD i 0 := by
  rw [getD_eq_getElem?_getD, getD_eq_getElem?_getD, getElem?_take]
  split_ifs with h
  · rfl
  · rw [getElem?_eq_none (by omega)]

lemma getD_drop_chunk (i : ℕ) : (l.drop (min blockSectorSize l.length)).getD i 0 =
    l.getD (blockSectorSize + i) 0 := by
  rw [getD_eq_getElem?_getD, getD_eq_getElem?_getD, getElem?_drop]
  obtain hlong | hshort := le_total blockSectorSize l.length
  · rw [min_eq_left hlong]
  · rw [getElem?_eq_none (by omega), getElem?_eq_none (by omega)]

lemma length_sub_chunk : (l.length : ℤ) - (min blockSectorSize l.length : ℕ) =
    ((l.drop (min blockSectorSize l.length)).length : ℕ) := by
  rw [length_drop]
  omega

lemma length_drop_chunk_le {turns : ℕ} (hl : l ≠ []) (hturns : l.length ≤ turns + 1) :
    (l.drop (min blockSectorSize l.length)).length ≤ turns := by
  have hpos : 0 < l.length := length_pos_of_ne_nil hl
  have hmin : 0 < min blockSectorSize l.length := Nat.lt_min.mpr ⟨by decide, hpos⟩
  rw [length_drop]
  omega

/-- One sector, and then the rest. -/
lemma hasData_iff (hl : l ≠ []) : HasData d n l ↔
    (∀ i < blockSectorSize, bytesOf (d.sector n) i = l.getD i 0) ∧
      HasData d (n + 1) (l.drop (min blockSectorSize l.length)) := by
  have hfirst (i : ℕ) (hi : i < blockSectorSize) :
      bytesOf (d.sector n) i = d.byte (blockSectorSize * n + i) :=
    (bytesOf_of_lt hi).trans (d.byte_sector n ⟨i, hi⟩).symm
  have hplace (i : ℕ) : blockSectorSize * n + (blockSectorSize + i) = blockSectorSize * (n + 1) + i := by
    rw [Nat.mul_add_one, Nat.add_assoc]
  simp only [HasData, dataSectors_of_ne_nil hl]
  rw [Nat.mul_add]
  constructor
  · intro h
    refine ⟨fun i hi => ?_, fun i hi => ?_⟩
    · rw [hfirst i hi]
      exact h i (Nat.lt_add_right _ hi)
    · rw [getD_drop_chunk, ← hplace]
      exact h _ (Nat.add_lt_add_left hi _)
  · rintro ⟨h, hrest⟩ i hi
    obtain hlt | hge := Nat.lt_or_ge i blockSectorSize
    · rw [← hfirst i hlt]
      exact h i hlt
    · obtain ⟨j, rfl⟩ := Nat.exists_eq_add_of_le hge
      rw [hplace, ← getD_drop_chunk]
      exact hrest j (Nat.lt_of_add_lt_add_left hi)

end

/-! ## A file goes into the archive -/

section

variable {K : ℕ → Prop} {f₀ src x pos turns : ℕ} {rest : List UInt8} {u : Fsutil}

lemma read_left {s : Fs} {c : ℕ} (h : Mounted K f₀ s) (hf : OpenFile f₀ src x pos s)
    (hrest : (s.contents x).drop pos = rest) (hc : c ≤ rest.length) :
    Does (Fs.fileRead .plenty src c) s fun bytes s' =>
      bytes = rest.take c ∧ OpenFile f₀ src x (pos + c) s' ∧ Mounted K f₀ s' ∧ s'.disk = s.disk ∧
      (s'.contents x).drop (pos + c) = rest.drop c := by
  have hlen : rest.length = (s.disk.inodeAt x).length.toNat - pos := by
    rw [← hrest, length_drop, Fs.contents, length_slice]
  have havail : (s.disk.inodeAt x).avail c pos = c := by
    rw [avail]
    omega
  refine (hf.fileRead h c).mono ?_
  rintro bytes s' ⟨hbytes, hf', hm', hdisk⟩
  rw [havail] at hbytes hf'
  refine ⟨?_, hf', hm', hdisk, ?_⟩
  · have hmin : min c ((s.disk.inodeAt x).length.toNat - pos) = c := by omega
    rw [hbytes, ← hrest, Fs.contents, slice_drop, slice_take, hmin]
  · rw [← hrest, drop_drop, Fs.contents, Fs.contents, hdisk]

lemma does_appendLoop (h : Mounted K f₀ u.fs) (hf : OpenFile f₀ src x pos u.fs)
    (hrest : (u.fs.contents x).drop pos = rest) (hturns : rest.length ≤ turns)
    (hroom : u.appendSector + dataSectors rest.length ≤ u.scratch.size) :
    Does (appendLoop .plenty src turns rest.length) u fun _ u' =>
      (∃ pos', OpenFile f₀ src x pos' u'.fs) ∧ Mounted K f₀ u'.fs ∧
      u'.fs.disk = u.fs.disk ∧ HasData u'.scratch u.appendSector rest ∧
      u.scratch.ChangedIn (Extent u.appendSector (dataSectors rest.length)) u'.scratch ∧
      u'.appendSector = u.appendSector + dataSectors rest.length ∧
      u'.extractSector = u.extractSector := by
  induction turns generalizing u pos rest with
  | zero =>
    obtain rfl : rest = [] := length_eq_zero_iff.mp (le_zero.mp hturns)
    exact (does_pure ()).mpr ⟨⟨pos, hf⟩, h, rfl, nofun, .refl _ _, rfl, rfl⟩
  | succ turns ih =>
    rw [appendLoop]
    obtain rfl | hnil := eq_or_ne rest []
    · exact (does_pure ()).mpr ⟨⟨pos, hf⟩, h, rfl, nofun, .refl _ _, rfl, rfl⟩
    have hpos : 0 < rest.length := length_pos_of_ne_nil hnil
    have hsectors := dataSectors_of_ne_nil hnil
    rw [if_pos (by omega), chunkSize_natCast]
    simp only [does_bind, does_get, does_require, does_onPart]
    refine ⟨by omega, (read_left h hf hrest (min_le_right _ _)).mono fun bytes s' hs' => ?_⟩
    obtain ⟨rfl, hf', hm', hdisk, hrest'⟩ := hs'
    have hlen : (rest.take (min blockSectorSize rest.length)).length =
      min blockSectorSize rest.length := by simp
    refine ⟨by rw [hlen], does_writeNext (show u.appendSector < u.scratch.size by omega) ?_⟩
    intro d hsector (hfirst : u.scratch.ChangedIn (· = u.appendSector) d)
    rw [length_sub_chunk]
    have hspace : u.appendSector + 1 +
        dataSectors (rest.drop (min blockSectorSize rest.length)).length ≤ d.size := by
      rw [hfirst.size]
      omega
    refine (ih (u := ⟨s', d, u.appendSector + 1, u.extractSector⟩) hm' hf' hrest'
      (length_drop_chunk_le hnil hturns) hspace).mono ?_
    rintro _ u' ⟨hopen, hm₂, hdisk₂, hdata, hchanged, hnext, hext⟩
    refine ⟨hopen, hm₂, hdisk₂.trans hdisk, (hasData_iff hnil).mpr ⟨fun i hi => ?_, hdata⟩, ?_,
      ?_, hext⟩
    · rw [hchanged.sector _ fun hextent => not_succ_le_self _ hextent.1, hsector, bytesOf_of_lt hi]
      exact getD_take_chunk hi
    · refine (hfirst.trans hchanged).mono fun k hk => ?_
      rw [Extent, hsectors]
      obtain rfl | ⟨hlow, hhigh⟩ := hk
      · omega
      · exact ⟨le_of_succ_le hlow, lt_of_lt_of_eq hhigh (add_assoc ..)⟩
    · rw [hnext, hsectors]
      exact add_assoc ..

/-- The marker as `fsutil_append` writes it. -/
def marker (behind : UInt8) : Sector := fun i => if i.val = blockSectorSize - 1 then behind else 0

/-- One file more, from sector `n` on: its header, its data, and the marker. -/
structure Appended (name bytes : List UInt8) (behind : UInt8) (n : ℕ) (d d' : Block) : Prop where
  header : ustarParseHeader (bytesOf (d'.sector n)) = .ok ⟨some name, .regular, bytes.length⟩
  data : HasData d' (n + 1) bytes
  last : d'.sector (n + 1 + dataSectors bytes.length) = marker behind
  changed : d.ChangedIn (Extent n (1 + dataSectors bytes.length + 1)) d'

lemma does_writeMarker {behind : UInt8} {Q : Unit → Fsutil → Prop}
    (hn : u.appendSector < u.scratch.size)
    (hQ : Q () ⟨u.fs, u.scratch.withSector u.appendSector (marker behind), u.appendSector,
      u.extractSector⟩) : Does (writeMarker behind) u Q := by
  simp only [writeMarker, does_bind, does_get]
  refine does_write hn (does_write hn ?_)
  rwa [← withSector_withSector u.scratch u.appendSector fun _ => 0] at hQ

lemma Appended.of_steps {name bytes : List UInt8} {n : ℕ} {head : ℕ → UInt8} {d d₁ d₂ : Block}
    (behind : UInt8) (hparse : ustarParseHeader head = .ok ⟨some name, .regular, bytes.length⟩)
    (hhead : d₁.sector n = fun i => head i.val) (hfirst : d.ChangedIn (· = n) d₁)
    (hdata : HasData d₂ (n + 1) bytes)
    (hmiddle : d₁.ChangedIn (Extent (n + 1) (dataSectors bytes.length)) d₂) :
    Appended name bytes behind n d
      (d₂.withSector (n + 1 + dataSectors bytes.length) (marker behind)) := by
  have hlast := d₂.changedIn_withSector (n + 1 + dataSectors bytes.length) (marker behind)
  refine ⟨?_, hdata.congr fun k hk => hlast.sector k hk.2.ne, sector_withSector .., ?_⟩
  · rw [hlast.sector n (by omega), hmiddle.sector n fun hn => not_succ_le_self n hn.1, hhead,
      ustarParseHeader_congr fun i hi => bytesOf_of_lt hi, hparse]
  · refine ((hfirst.trans hmiddle).trans hlast).mono fun k hk => ?_
    obtain (rfl | ⟨hlow, hhigh⟩) | rfl := hk <;> exact ⟨by omega, by omega⟩

lemma length_stripAntisocialPrefixes_le {name : List UInt8} {n : ℕ} (hname : name.length ≤ n + 1) :
    (stripAntisocialPrefixes name).length ≤ n + 1 := by
  simp only [stripAntisocialPrefixes]
  split
  · exact le_add_left 1 n
  · exact (stripLoop_suffix _ _).length_le.trans hname

lemma does_fsutilAppend (h : Mounted K f₀ u.fs) {name : CString} {bytes : List UInt8}
    (hname : GoodName name) (hhas : u.fs.Has name.bytes bytes)
    (hroom : u.appendSector + 1 + dataSectors bytes.length + 1 ≤ u.scratch.size)
    (buffer : ℕ → UInt8) (behind : UInt8) :
    Does (fsutilAppend .plenty buffer behind name) u fun _ u' =>
      Mounted K f₀ u'.fs ∧ u'.fs.disk = u.fs.disk ∧
      Appended (stripAntisocialPrefixes name.bytes) bytes behind u.appendSector u.scratch u'.scratch ∧
      u'.appendSector = u.appendSector + 1 + dataSectors bytes.length := by
  obtain ⟨k, hk, x, hnamed, hbytes⟩ := hhas
  have hK : K x := (h.linked.target k hk _ hnamed.slot).1
  have hnonneg : 0 ≤ (u.fs.disk.inodeAt x).length := h.sound.laid.nonneg x hK
  have hlt := u.fs.disk.length_inodeAt_lt x
  have hlen : (u.fs.disk.inodeAt x).length = (bytes.length : ℤ) := by
    rw [← hbytes, Fs.contents, length_slice, Int.toNat_of_nonneg hnonneg]
  have hsize : bytes.length ≤ 2 ^ 31 - 1 := by omega
  have hshort : (stripAntisocialPrefixes name.bytes).length ≤ 99 :=
    (length_stripAntisocialPrefixes_le hname.2).trans (by decide)
  obtain ⟨head, hmake, hparse⟩ := ustarMakeHeader_of_le (.inl rfl) hshort hsize buffer
  simp only [fsutilAppend, does_bind, does_require, does_onPart, does_orThrow, Mem.sub_plenty]
  refine ⟨rfl, (h.filesysOpen_found hk hnamed).mono fun _ s₁ hs₁ => ?_⟩
  obtain ⟨src, rfl, hf₁, hm₁, hdisk₁, -⟩ := hs₁
  refine ⟨src, rfl, does_of_run (hf₁.fileLength_run hm₁) ?_⟩
  rw [hdisk₁, hlen]
  refine ⟨_, hmake, rfl, does_writeNext (show u.appendSector < u.scratch.size by omega) ?_⟩
  intro d₁ hsector (hfirst : u.scratch.ChangedIn (· = u.appendSector) d₁)
  have hspace : u.appendSector + 1 + dataSectors bytes.length ≤ d₁.size := by
    rw [hfirst.size]
    omega
  have hrest : (s₁.contents x).drop 0 = bytes := by
    rw [Fs.contents, hdisk₁]
    exact hbytes
  refine (does_appendLoop (u := ⟨s₁, d₁, u.appendSector + 1, u.extractSector⟩) hm₁ hf₁ hrest
    (Int.toNat_natCast _).ge hspace).mono ?_
  rintro _ ⟨s₂, d₂, n₂, e₂⟩ ⟨⟨pos, hf₂⟩, hm₂, hdisk₂, hdata, hchanged, hnext, -⟩
  subst hnext
  have hmarked : u.appendSector + 1 + dataSectors bytes.length < d₂.size := by
    rw [hchanged.size, hfirst.size]
    omega
  have hslot := (hnamed.of_disk (hdisk₂.trans hdisk₁)).slot
  refine does_writeMarker hmarked ((hf₂.fileClose hm₂ hk hslot).mono ?_)
  rintro _ s₃ ⟨hm₃, hdisk₃, -⟩
  exact ⟨hm₃, hdisk₃.trans (hdisk₂.trans hdisk₁),
    .of_steps behind hparse hsector hfirst hdata hchanged, rfl⟩

end

/-! ## An archive is made -/

/-- A call of `fsutil_append`: the file, and what is in its buffer and behind it. -/
structure Append where
  name : CString
  buffer : ℕ → UInt8
  behind : UInt8

/-- `fsutil_append` for each of the files, one after the other. -/
def appendAll (m : Mem) : List Append → FsutilM Unit
  | [] => return ()
  | call :: calls => do
    fsutilAppend (m.sub calls.length) call.buffer call.behind call.name
    appendAll m calls

/-- A file in an archive, with its name as the archive has it. -/
def stored (p : Append × List UInt8) : List UInt8 × List UInt8 :=
  (stripAntisocialPrefixes p.1.name.bytes, p.2)

def archiveSectors (files : List (List UInt8 × List UInt8)) : ℕ :=
  (files.map fun p => 1 + dataSectors p.2.length).sum

/-- The files are on the device, from sector `n` on and one behind the other. -/
def Holds (d : Block) : ℕ → List (List UInt8 × List UInt8) → Prop
  | _, [] => True
  | n, (name, bytes) :: files =>
    ustarParseHeader (bytesOf (d.sector n)) = .ok ⟨some name, .regular, bytes.length⟩ ∧
      HasData d (n + 1) bytes ∧ Holds d (n + 1 + dataSectors bytes.length) files

/-- What is in the sector behind the files: the last marker, if there is one. -/
def lastMarker (first : Sector) (calls : List Append) : Sector :=
  calls.foldl (fun _ call => marker call.behind) first

section

variable {K : ℕ → Prop} {f₀ : ℕ} {u : Fsutil}

lemma does_appendAll (h : Mounted K f₀ u.fs) {files : List (Append × List UInt8)}
    (hgood : ∀ p ∈ files, GoodName p.1.name)
    (hhas : ∀ p ∈ files, u.fs.Has p.1.name.bytes p.2)
    (hroom : u.appendSector + archiveSectors (files.map stored) + 1 ≤ u.scratch.size) :
    Does (appendAll .plenty (files.map Prod.fst)) u fun _ u' => u'.fs.disk = u.fs.disk ∧
      Holds u'.scratch u.appendSector (files.map stored) ∧
      u.scratch.ChangedIn (Extent u.appendSector (archiveSectors (files.map stored) + 1)) u'.scratch ∧
      u'.scratch.sector (u.appendSector + archiveSectors (files.map stored)) =
        lastMarker (u.scratch.sector u.appendSector) (files.map Prod.fst) := by
  induction files generalizing u with
  | nil => exact (does_pure ()).mpr ⟨rfl, trivial, .refl _ _, rfl⟩
  | cons p files ih =>
    have hsectors : archiveSectors ((p :: files).map stored) =
        1 + dataSectors p.2.length + archiveSectors (files.map stored) := rfl
    rw [hsectors] at hroom ⊢
    simp only [map_cons, appendAll, does_bind]
    refine (does_fsutilAppend h (hgood p mem_cons_self) (hhas p mem_cons_self) (by omega)
      p.1.buffer p.1.behind).mono fun _ u₁ hu₁ => ?_
    obtain ⟨hm₁, hdisk₁, happ, hnext⟩ := hu₁
    have hroom₁ : u₁.appendSector + archiveSectors (files.map stored) + 1 ≤ u₁.scratch.size := by
      rw [happ.changed.size]
      omega
    refine (ih hm₁ (fun q hq => hgood q (mem_cons_of_mem p hq))
      (fun q hq => (hhas q (mem_cons_of_mem p hq)).of_disk hdisk₁) hroom₁).mono ?_
    rintro _ u₂ ⟨hdisk₂, hholds, hchanged, hlast⟩
    rw [hnext] at hholds hchanged hlast
    -- the next calls write behind this file
    have hkept (k : ℕ) (hk : k < u.appendSector + 1 + dataSectors p.2.length) :
        u₂.scratch.sector k = u₁.scratch.sector k :=
      hchanged.sector k fun hextent => Nat.not_le_of_lt hk hextent.1
    refine ⟨hdisk₂.trans hdisk₁, ⟨?_, happ.data.congr fun k hk => hkept k hk.2, hholds⟩, ?_, ?_⟩
    · rw [hkept _ (by omega)]
      exact happ.header
    · refine (happ.changed.trans hchanged).mono fun k hk => ?_
      obtain ⟨hlow, hhigh⟩ | ⟨hlow, hhigh⟩ := hk <;> exact ⟨by omega, by omega⟩
    · rw [happ.last] at hlast
      rwa [← Nat.add_assoc, ← Nat.add_assoc]

end

/-! ## A file comes out of the archive -/

section

variable {K : ℕ → Prop} {f₀ dst x pos turns p : ℕ} {rest : List UInt8} {u : Fsutil}

lemma write_left {s : Fs} {c : ℕ} (h : Mounted K f₀ s) (hf : OpenFile f₀ dst x pos s)
    (hlen : (s.disk.inodeAt x).length = (pos + rest.length : ℕ)) (hc : c ≤ rest.length)
    {bytes : ℕ → UInt8} (hbytes : ∀ i < c, bytes i = rest.getD i 0) :
    Does (Fs.fileWrite .plenty dst bytes c) s fun k s' => k = c ∧
      OpenFile f₀ dst x (pos + c) s' ∧ Mounted K f₀ s' ∧
      s'.disk = s.disk.put ((s.disk.inodeAt x).base + pos) c (fun i => rest.getD i 0) ∧
      s'.disk.inodeAt x = s.disk.inodeAt x ∧ s'.freeMap = s.freeMap := by
  have havail : (s.disk.inodeAt x).avail c pos = c := by
    rw [avail]
    omega
  refine (hf.fileWrite h bytes c).mono ?_
  rintro k s' ⟨hk, hf', hm', hdisk, hinode, hmap⟩
  rw [hk, havail] at hf' hdisk
  refine ⟨hk.trans havail, hf', hm', ?_, hinode, hmap⟩
  rw [hdisk, put_congr hbytes]

lemma does_copyLoop (h : Mounted K f₀ u.fs) (hf : OpenFile f₀ dst x pos u.fs)
    (hlen : (u.fs.disk.inodeAt x).length = (pos + rest.length : ℕ))
    (hdata : HasData u.scratch u.extractSector rest) (hturns : rest.length ≤ turns)
    (hroom : u.extractSector + dataSectors rest.length ≤ u.scratch.size) :
    Does (copyLoop .plenty dst turns rest.length) u fun _ u' =>
      (∃ pos', OpenFile f₀ dst x pos' u'.fs) ∧ Mounted K f₀ u'.fs ∧
      u'.fs.disk = u.fs.disk.put ((u.fs.disk.inodeAt x).base + pos) rest.length
        (fun i => rest.getD i 0) ∧
      u'.fs.freeMap = u.fs.freeMap ∧ u'.scratch = u.scratch ∧
      u'.extractSector = u.extractSector + dataSectors rest.length := by
  induction turns generalizing u pos rest with
  | zero =>
    obtain rfl : rest = [] := length_eq_zero_iff.mp (Nat.le_zero.mp hturns)
    exact (does_pure ()).mpr ⟨⟨pos, hf⟩, h, put_zero.symm, rfl, rfl, rfl⟩
  | succ turns ih =>
    rw [copyLoop]
    obtain rfl | hnil := eq_or_ne rest []
    · exact (does_pure ()).mpr ⟨⟨pos, hf⟩, h, put_zero.symm, rfl, rfl, rfl⟩
    have hpos : 0 < rest.length := length_pos_of_ne_nil hnil
    have hsectors := dataSectors_of_ne_nil hnil
    obtain ⟨hfirst, hothers⟩ := (hasData_iff hnil).mp hdata
    rw [if_pos (by omega), chunkSize_natCast]
    simp only [does_bind, does_require, does_onPart]
    refine does_readNext (by omega) ((write_left h hf hlen (Nat.min_le_right _ _)
      fun i hi => hfirst i (hi.trans_le (Nat.min_le_left _ _))).mono ?_)
    rintro _ s' ⟨rfl, hf', hm', hdisk', hinode', hmap'⟩
    refine ⟨rfl, ?_⟩
    rw [length_sub_chunk]
    have hlen' : (s'.disk.inodeAt x).length = (pos + min blockSectorSize rest.length +
        (rest.drop (min blockSectorSize rest.length)).length : ℕ) := by
      rw [hinode', length_drop]
      omega
    refine (ih (u := ⟨s', u.scratch, u.appendSector, u.extractSector + 1⟩) hm' hf' hlen' hothers
      (length_drop_chunk_le hnil hturns) ?_).mono ?_
    · show u.extractSector + 1 + _ ≤ u.scratch.size
      omega
    rintro _ u' ⟨hopen, hm₂, hdisk₂, hmap₂, hscratch, hnext⟩
    refine ⟨hopen, hm₂, ?_, hmap₂.trans hmap', hscratch, ?_⟩
    · have htail (i : ℕ) : (rest.drop (min blockSectorSize rest.length)).getD i 0 =
          rest.getD (min blockSectorSize rest.length + i) 0 := by
        rw [getD_eq_getElem?_getD, getD_eq_getElem?_getD, getElem?_drop]
      simp only [htail, hinode', length_drop] at hdisk₂
      rw [hdisk₂, hdisk', ← Nat.add_assoc, put_append, Nat.add_sub_cancel' (Nat.min_le_right _ _)]
    · rw [hnext, hsectors]
      exact Nat.add_assoc ..

lemma does_extractFile (h : Mounted K f₀ u.fs) (hs : Spacious p u.fs) (junk : Fin 15 → UInt8)
    {name : CString} {bytes : List UInt8} (hgood : GoodName name)
    (hnew : ∀ q ∈ u.fs.listing, q.1 ≠ name.bytes)
    (hfree : u.fs.listing.length < 16) (hsize : bytes.length < 2 ^ 31)
    (hp : p + 1 + bytesToSectors bytes.length ≤ u.fs.disk.size)
    (hdata : HasData u.scratch u.extractSector bytes)
    (hroom : u.extractSector + dataSectors bytes.length ≤ u.scratch.size) :
    Does (extractFile .plenty junk name bytes.length) u fun _ u' =>
      (∃ K', Mounted K' f₀ u'.fs) ∧ Spacious (p + 1 + bytesToSectors bytes.length) u'.fs ∧
      u'.fs.disk.size = u.fs.disk.size ∧ u'.fs.listing.Perm ((name.bytes, bytes) :: u.fs.listing) ∧
      u'.scratch = u.scratch ∧ u'.extractSector = u.extractSector + dataSectors bytes.length := by
  have hslots (k : ℕ) (hk : k < 16) (y : ℕ) :
      u.fs.slot rootDirSector k ≠ some (name.bytes, y) := fun hslot =>
    hnew _ (mem_map_of_mem (mem_entries.mpr ⟨k, hk, hslot⟩)) rfl
  rw [listing, length_map] at hfree
  simp only [extractFile, does_bind, does_require, does_onPart, does_orThrow, Mem.sub_plenty]
  refine (h.filesysCreate_room hs junk ⟨hgood, hslots, exists_free_iff.mpr hfree⟩
    (Int.natCast_nonneg _) (by omega) hp).mono ?_
  rintro _ s₁ ⟨rfl, ⟨x, hfile⟩, hroom₁⟩
  obtain ⟨k, hk, hnamed⟩ := hfile.firstNamed hslots
  have hm₁ : Mounted (Also K x) f₀ s₁ := ⟨hfile.volume, hfile.users⟩
  refine ⟨rfl, (hm₁.filesysOpen_found hk hnamed).mono fun _ s₂ hs₂ => ?_⟩
  obtain ⟨dst, rfl, hf₂, hm₂, hdisk₂, hmap₂⟩ := hs₂
  refine ⟨dst, rfl, ?_⟩
  have hlen : (s₂.disk.inodeAt x).length = (0 + bytes.length : ℕ) := by
    rw [hdisk₂, hfile.length, zero_add]
  refine (does_copyLoop (u := ⟨s₂, u.scratch, u.appendSector, u.extractSector⟩) hm₂ hf₂ hlen hdata
    (Int.toNat_natCast _).ge hroom).mono ?_
  rintro _ ⟨s₃, d₃, n₃, e₃⟩ ⟨⟨pos, hf₃⟩, hm₃, hdisk₃, hmap₃, hscratch, hnext⟩
  obtain ⟨hspares, hbytes⟩ := hm₂.fill (.inr rfl) (hlen.trans (by rw [zero_add])) hdisk₃
  have hold (y : ℕ) (hy : K y) : Also K x y ∧ y ≠ x := ⟨.inl hy, fun heq => hfile.new (heq ▸ hy)⟩
  have hslot : s₃.slot rootDirSector k = some (name.bytes, x) := by
    rw [slot_of_spares hspares (hold _ h.linked.mem) hm₂.linked.capacity hk]
    exact (hnamed.of_disk hdisk₂).slot
  have hroom₃ := (hroom₁.of_eq hdisk₂ hmap₂).spares hspares (hold _ h.mem_map)
  refine (hf₃.fileClose hm₃ hk hslot).mono ?_
  rintro _ s₄ ⟨hm₄, hdisk₄, hmap₄⟩
  rw [hdisk₂, ← hdisk₄] at hspares
  refine ⟨⟨_, hm₄⟩, hroom₃.of_eq hdisk₄ (hmap₄.trans hmap₃), ?_,
    hfile.listing h hspares ?_, hscratch, hnext⟩
  · rw [hdisk₄, hdisk₃, size_put, hdisk₂, hfile.size]
  · rw [Fs.contents, hdisk₄]
    exact hbytes

/-- The sectors of the files in a file system. -/
def volumeSectors (files : List (List UInt8 × List UInt8)) : ℕ :=
  (files.map fun q => 1 + bytesToSectors q.2.length).sum

/-- A file that can be extracted: `dir_add` takes its name, and `off_t` its length. -/
structure Extractable (q : List UInt8 × List UInt8) : Prop where
  name : WellNamed q.1
  noNul : (0 : UInt8) ∉ q.1
  length : q.2.length < 2 ^ 31

lemma bytes_cString {l : List UInt8} (h : (0 : UInt8) ∉ l) : (cString l).bytes = l := by
  refine takeWhile_eq_self_iff.mpr fun b hb => ?_
  simp only [decide_eq_true_eq]
  rintro rfl
  exact h hb

lemma ustarParseHeader_zero : ustarParseHeader (bytesOf fun _ => 0) = .ok ⟨none, .eof, 0⟩ := by
  have hzeros : isAllZeros (bytesOf fun _ => 0) ustarHeaderSize = true :=
    all_eq_true.mpr fun _ _ => rfl
  rw [ustarParseHeader, if_pos hzeros]

lemma length_le_archiveSectors (files : List (List UInt8 × List UInt8)) :
    files.length ≤ archiveSectors files := by
  induction files with
  | nil => exact le_rfl
  | cons q files ih =>
    have hsectors : archiveSectors (q :: files) =
      1 + dataSectors q.2.length + archiveSectors files := rfl
    rw [length_cons]
    omega

variable (h : Mounted K f₀ u.fs) (hs : Spacious p u.fs) (junk : ℕ → Fin 15 → UInt8)
  {files : List (List UInt8 × List UInt8)} (hfiles : ∀ q ∈ files, Extractable q)
  (hnodup : ((files ++ u.fs.listing).map Prod.fst).Nodup)
  (hfree : files.length + u.fs.listing.length ≤ 16)
  (hp : p + volumeSectors files ≤ u.fs.disk.size) (hholds : Holds u.scratch u.extractSector files)
  (hend : u.scratch.sector (u.extractSector + archiveSectors files) = fun _ => 0)

include h hs hfiles hnodup hfree hp hholds hend

/-- The files come out, one turn after the other, and then the marker ends the loop. -/
lemma does_extractLoop
    (hroom : u.extractSector + archiveSectors files < u.scratch.size)
    (hturns : files.length < turns) :
    Does (extractLoop .plenty junk turns) u fun _ u' =>
      u'.fs.listing.Perm (files ++ u.fs.listing) ∧ u'.scratch = u.scratch := by
  induction turns generalizing K p u files with
  | zero => exact absurd hturns (not_lt_zero _)
  | succ turns ih =>
    rw [extractLoop, does_bind]
    cases files with
    | nil =>
      refine does_readNext hroom ?_
      have hend : u.scratch.sector u.extractSector = fun _ => 0 := hend
      rw [hend, ustarParseHeader_zero]
      exact (does_pure ()).mpr ⟨.refl _, rfl⟩
    | cons q files =>
      obtain ⟨nm, bytes⟩ := q
      obtain ⟨hheader, hdata, hrest⟩ := hholds
      have hsectors : archiveSectors ((nm, bytes) :: files) =
        1 + dataSectors bytes.length + archiveSectors files := rfl
      have hspace : volumeSectors ((nm, bytes) :: files) =
        1 + bytesToSectors bytes.length + volumeSectors files := rfl
      rw [hsectors] at hend hroom
      refine does_readNext (by omega) ?_
      rw [hheader]
      simp only [extractEntry, Option.getD_some, does_bind, Mem.sub_plenty]
      obtain ⟨hname, hnul, hlength⟩ := hfiles _ mem_cons_self
      have hlength : bytes.length < 2 ^ 31 := hlength
      have hbytes := bytes_cString hnul
      have hnew (q) (hq : q ∈ u.fs.listing) : q.1 ≠ (cString nm).bytes := by
        have hmem : q.1 ∈ (files ++ u.fs.listing).map Prod.fst :=
          mem_map_of_mem (mem_append_right files hq)
        rw [hbytes]
        exact fun heq => (nodup_cons.mp hnodup).1 (heq ▸ hmem)
      have hspot : u.fs.listing.length < 16 := by
        rw [length_cons] at hfree
        omega
      refine (does_extractFile (u := ⟨u.fs, u.scratch, u.appendSector, u.extractSector + 1⟩) h hs
        (junk turns) (show WellNamed (cString nm).bytes from hbytes.symm ▸ hname) hnew hspot hlength
        (show p + 1 + _ ≤ u.fs.disk.size by omega) hdata
        (show u.extractSector + 1 + _ ≤ u.scratch.size by omega)).mono ?_
      rintro _ ⟨s₁, d₁, n₁, e₁⟩ ⟨⟨K', hm₁⟩, hs₁, hsize₁, hlist, hscratch, hnext⟩
      dsimp only at hm₁ hs₁ hsize₁ hlist hscratch hnext
      subst hscratch hnext
      rw [hbytes] at hlist
      have hperm : (files ++ s₁.listing).Perm ((nm, bytes) :: files ++ u.fs.listing) :=
        (hlist.append_left files).trans perm_middle
      refine (ih (u := ⟨s₁, u.scratch, n₁, u.extractSector + 1 + dataSectors bytes.length⟩) hm₁ hs₁
        (fun q hq => hfiles q (mem_cons_of_mem _ hq)) ((hperm.map Prod.fst).nodup_iff.mpr hnodup)
        ?_ ?_ hrest ?_ ?_ ?_).mono ?_
      · rw [← length_append, hperm.length_eq, length_append]
        exact hfree
      · show p + 1 + _ + volumeSectors files ≤ s₁.disk.size
        omega
      · rw [← add_assoc, ← add_assoc] at hend
        exact hend
      · show u.extractSector + 1 + _ + archiveSectors files < u.scratch.size
        omega
      · exact lt_of_succ_lt_succ hturns
      · rintro _ u' ⟨hlist', hscratch'⟩
        exact ⟨hlist'.trans hperm, hscratch'⟩

lemma does_fsutilExtract
    (hroom : u.extractSector + archiveSectors files + 2 ≤ u.scratch.size) :
    Does (fsutilExtract .plenty junk) u fun _ u' => u'.fs.listing.Perm (files ++ u.fs.listing) := by
  have hturns : files.length < u.scratch.size + 1 := by
    have hle := length_le_archiveSectors files
    omega
  simp only [fsutilExtract, does_bind, does_require, does_get]
  refine ⟨⟨rfl, rfl⟩, (does_extractLoop h hs junk hfiles hnodup hfree hp hholds hend (by omega)
    hturns).mono ?_⟩
  rintro _ ⟨s', d', n', e'⟩ ⟨hlist, hscratch⟩
  subst hscratch
  exact does_write (show 0 < u.scratch.size by omega)
    (does_write (show 1 < u.scratch.size by omega) hlist)

end

/-! ## There and back -/

section

variable {s t : Fs}

/-- A file system that has just been formatted is empty, and has room. -/
lemma spacious_of_init (ht : fileSystem.init t) :
    Spacious (2 + bytesToSectors (Bitmap.byteCnt t.freeMap.bitCnt) + 1) t ∧ t.listing = [] := by
  obtain ⟨s₀, m, junk, hboot, hrun⟩ := ht
  obtain ⟨hformat, hvacant⟩ := gives_filesysInit_vacant m junk hboot _ _ hrun
  have hnone : entries 16 (t.slot rootDirSector) = [] :=
    eq_nil_iff_forall_not_mem.mpr fun p hp => by
      obtain ⟨k, hk, hslot⟩ := mem_entries.mp hp
      cases (hformat.slot hk).symm.trans hslot
  refine ⟨⟨hformat.roomy, hvacant⟩, ?_⟩
  rw [listing, hnone, map_nil]

/-- The end of an archive: two sectors of zeroes. -/
def Ends (d : Block) (n : ℕ) : Prop := (d.sector n = fun _ => 0) ∧ d.sector (n + 1) = fun _ => 0

/-- The byte behind the buffer is zero in the last call; and if there was no call, the sector
was. -/
lemma lastMarker_eq {first : Sector} {calls : List Append} (hnil : calls = [] → first = fun _ => 0)
    (hlast : ∀ call ∈ calls.getLast?, call.behind = 0) : lastMarker first calls = fun _ => 0 := by
  obtain rfl | ⟨calls, call, rfl⟩ := eq_nil_or_concat calls
  · exact hnil rfl
  · have hzero : call.behind = 0 := hlast call (by simp)
    funext i
    simp only [lastMarker, concat_eq_append, foldl_append, foldl_cons, foldl_nil,
      marker, hzero, ite_self]

variable {files : List (Append × List UInt8)} (hs : fileSystem.Reachable s)
  (hhas : ∀ p ∈ files, s.Has p.1.name.bytes p.2)

include hs hhas in
lemma does_appendAll_zero {scratch : Block}
    (hroom : archiveSectors (files.map stored) + 2 ≤ scratch.size) :
    Does (appendAll .plenty (files.map Prod.fst)) ⟨s, scratch, 0, 0⟩ fun _ u =>
      u.fs.disk = s.disk ∧ u.scratch.size = scratch.size ∧ Holds u.scratch 0 (files.map stored) ∧
      ((∀ call ∈ (files.map Prod.fst).getLast?, call.behind = 0) →
        (files = [] → scratch.sector 0 = fun _ => 0) →
        (scratch.sector (archiveSectors (files.map stored) + 1) = fun _ => 0) →
        Ends u.scratch (archiveSectors (files.map stored))) := by
  obtain ⟨K, f₀, hv, hu, hnames⟩ := volume_of_reachable hs
  have hgood (p) (hp : p ∈ files) : GoodName p.1.name := by
    obtain ⟨k, hk, x, hnamed, -⟩ := hhas p hp
    exact hnames k hk _ hnamed.slot
  refine (does_appendAll ⟨hv, hu⟩ hgood hhas
    (show 0 + _ + 1 ≤ scratch.size by omega)).mono ?_
  rintro _ u ⟨hdisk, hholds, hchanged, hlast⟩
  dsimp only at hdisk hholds hchanged hlast
  rw [zero_add] at hlast
  refine ⟨hdisk, hchanged.size, hholds, fun hbehind hnil hnext => ⟨?_, ?_⟩⟩
  · rw [hlast]
    exact lastMarker_eq (fun h => hnil (map_eq_nil_iff.mp h)) hbehind
  · rw [hchanged.sector _ fun hextent => absurd hextent.2 (by omega), hnext]

include hs hhas in
lemma extractable_stored : ∀ q ∈ files.map stored, Extractable q := by
  obtain ⟨K, f₀, hv, hu, hnames⟩ := volume_of_reachable hs
  rintro _ hq
  obtain ⟨p, hp, rfl⟩ := mem_map.mp hq
  obtain ⟨k, hk, x, hnamed, hbytes⟩ := hhas p hp
  have hlt := s.disk.length_inodeAt_lt x
  refine ⟨⟨(stripAntisocialPrefixes_social _).2.1,
    length_stripAntisocialPrefixes_le (hnames k hk _ hnamed.slot).2⟩,
    notMem_stripAntisocialPrefixes _, ?_⟩
  show p.2.length < 2 ^ 31
  rw [← hbytes, Fs.contents, length_slice]
  omega

include hhas in
lemma length_le_of_has (hnodup : (files.map fun p => p.1.name.bytes).Nodup) :
    files.length ≤ 16 := by
  have hsub : files.map (fun p => p.1.name.bytes) ⊆
      (entries 16 (s.slot rootDirSector)).map Prod.fst := by
    rintro _ hq
    obtain ⟨p, hp, rfl⟩ := mem_map.mp hq
    obtain ⟨k, hk, x, hnamed, -⟩ := hhas p hp
    exact mem_map_of_mem (mem_entries.mpr ⟨k, hk, hnamed.slot⟩)
  have hle := (hnodup.subperm hsub).length_le
  rw [length_map, length_map] at hle
  exact hle.trans (length_entries_le _ _)

include hs hhas in
lemma does_extract_stored (ht : fileSystem.init t)
    (hnodup : (files.map fun p => stripAntisocialPrefixes p.1.name.bytes).Nodup)
    (hlarge : 2 + bytesToSectors (Bitmap.byteCnt t.freeMap.bitCnt) + 1 +
      volumeSectors (files.map stored) ≤ t.disk.size) {d : Block}
    (hroom : archiveSectors (files.map stored) + 2 ≤ d.size) (hholds : Holds d 0 (files.map stored))
    (hend : Ends d (archiveSectors (files.map stored))) (junk : ℕ → Fin 15 → UInt8) :
    Does (fsutilExtract .plenty junk) ⟨t, d, 0, 0⟩ fun _ u => u.fs.listing.Perm (files.map stored) := by
  obtain ⟨K, f₀, hv, hu, -⟩ := volume_of_reachable (.start ht)
  obtain ⟨hspace, hempty⟩ := spacious_of_init ht
  have hnames : (files.map fun p => p.1.name.bytes).Nodup := by
    refine List.Nodup.of_map stripAntisocialPrefixes ?_
    rwa [map_map]
  have hstored : ((files.map stored ++ t.listing).map Prod.fst).Nodup := by
    rwa [hempty, append_nil, map_map]
  have hfew : (files.map stored).length + t.listing.length ≤ 16 := by
    rw [hempty, length_map]
    exact length_le_of_has hhas hnames
  have hzero : d.sector (0 + archiveSectors (files.map stored)) = fun _ => 0 := by
    rw [zero_add]
    exact hend.1
  refine (does_fsutilExtract (u := ⟨t, d, 0, 0⟩) ⟨hv, hu⟩ hspace junk (extractable_stored hs hhas) hstored
    hfew hlarge hholds hzero (show 0 + _ + 2 ≤ d.size by omega)).mono ?_
  intro _ u hlist
  rwa [hempty, append_nil] at hlist

end

lemma exists_files : ∃ s t : Fs, fileSystem.Reachable s ∧ fileSystem.init t ∧
    t.disk.size = 8 ∧ t.freeMap.bitCnt = 8 ∧ s.Has [97] [104, 105, 33] ∧ s.Has [47, 97] [] := by
  let a : CString := ⟨[97], by decide⟩
  let b : CString := ⟨[47, 97], by decide⟩
  have hrun : endsWith (fun _ (t : Fs) => decide (t.disk.size = 8 ∧ t.freeMap.bitCnt = 8) &&
      endsWith (fun _ s => endsWith (fun _ (s : Fs) =>
        decide (s.freeMapFile ≠ some 2 ∧ (s.files.get? 2).isSome) &&
      endsWith (fun _ s => endsWith (fun _ (s : Fs) =>
        s.slot rootDirSector 0 = some ([97], 4) ∧ s.contents 4 = [104, 105, 33] ∧
        s.slot rootDirSector 1 = some ([47, 97], 6) ∧ s.contents 6 = [])
      ((FileCall.create .plenty (fun _ => 7) b 0).run.run s))
      ((FileCall.write .plenty 2 (fun i => [104, 105, 33].getD i 0) 3).run.run s))
      ((FileCall.openFile .plenty a).run.run s))
      ((FileCall.create .plenty (fun _ => 7) a 3).run.run t))
      ((filesysInit .plenty (fun _ => 0) true).run
        { sixSectors with disk := ⟨8, fun _ _ => 0, by decide⟩ }) = true := by decide +kernel
  simp only [endsWith_iff, Bool.and_eq_true, decide_eq_true_eq] at hrun
  obtain ⟨_, t, h₀, ⟨hsize, hcnt⟩, _, s₁, h₁, _, s₂, h₂, ⟨hne, hopen⟩, _, s₃, h₃, _, s₄, h₄, hslot,
    hbytes, hslot', hbytes'⟩ := hrun
  have hinit : fileSystem.init t := ⟨_, _, _, ⟨fun _ => rfl, fun _ => rfl, rfl⟩, h₀⟩
  have hs : fileSystem.Reachable s₄ := by
    refine .next (.next (.next (.next (.start hinit) trivial ⟨?_, h₁⟩) trivial ⟨?_, h₂⟩) trivial
      ⟨?_, h₃⟩) trivial ⟨?_, h₄⟩
    · trivial
    · trivial
    · exact ⟨hne, Option.isSome_iff_exists.mp hopen⟩
    · trivial
  refine ⟨s₄, t, hs, hinit, hsize, hcnt, ⟨0, by decide, 4, ⟨hslot, fun j hj => ?_⟩, hbytes⟩,
    ⟨1, by decide, 6, ⟨hslot', fun j hj y hy => ?_⟩, hbytes'⟩⟩
  · exact absurd hj (Nat.not_lt_zero j)
  · obtain rfl : j = 0 := lt_one_iff.mp hj
    cases hslot.symm.trans hy

/-- **Archive round trip.** The device holds all files appended, under their names without
antisocial prefixes. If the marker is whole, the archive ends in two sectors of zeroes; and if the
names are still distinct, the files are what is extracted into an empty file system. -/
theorem archive_round_trip {s t : Fs} (hs : Fs.fileSystem.Reachable s) (ht : Fs.fileSystem.init t)
    (files : List (Append × List UInt8)) (hhas : ∀ p ∈ files, s.Has p.1.name.bytes p.2)
    (scratch : Block) (hroom : archiveSectors (files.map stored) + 2 ≤ scratch.size)
    (hlarge : 2 + Fs.bytesToSectors (Bitmap.byteCnt t.freeMap.bitCnt) + 1 +
      volumeSectors (files.map stored) ≤ t.disk.size) (junk : ℕ → Fin 15 → UInt8) :
    Does (appendAll .plenty (files.map Prod.fst)) ⟨s, scratch, 0, 0⟩ fun _ u =>
      u.fs.disk = s.disk ∧ Holds u.scratch 0 (files.map stored) ∧
      ((∀ call ∈ (files.map Prod.fst).getLast?, call.behind = 0) →
        (files = [] → scratch.sector 0 = fun _ => 0) →
        (scratch.sector (archiveSectors (files.map stored) + 1) = fun _ => 0) →
        Ends u.scratch (archiveSectors (files.map stored)) ∧
        ((files.map fun p => stripAntisocialPrefixes p.1.name.bytes).Nodup →
          Does (fsutilExtract .plenty junk) ⟨t, u.scratch, 0, 0⟩ fun _ v =>
            v.fs.listing.Perm (files.map stored))) := by
  refine (does_appendAll_zero hs hhas hroom).mono fun _ u hu => ?_
  obtain ⟨hdisk, hsize, hholds, hends⟩ := hu
  refine ⟨hdisk, hholds, fun hbehind hnil hnext => ?_⟩
  have hend := hends hbehind hnil hnext
  refine ⟨hend, fun hnodup => ?_⟩
  rw [← hsize] at hroom
  exact does_extract_stored hs hhas ht hnodup hlarge hroom hholds hend junk

/-- The file `a` is appended, with a zero behind the buffer, and extracted. -/
theorem archive_round_trip_a : ∃ s t : Fs, Fs.fileSystem.Reachable s ∧ Fs.fileSystem.init t ∧
    s.Has [97] [104, 105, 33] ∧
    Does (appendAll .plenty [⟨⟨[97], by decide⟩, fun _ => 255, 0⟩])
      ⟨s, ⟨4, fun _ _ => 0, by decide⟩, 0, 0⟩ fun _ u =>
      Does (fsutilExtract .plenty fun _ _ => 0) ⟨t, u.scratch, 0, 0⟩ fun _ v =>
        v.fs.listing.Perm [([97], [104, 105, 33])] := by
  obtain ⟨s, t, hs, ht, hsize, hcnt, ha, -⟩ := exists_files
  refine ⟨s, t, hs, ht, ha, ?_⟩
  have hround := archive_round_trip hs ht [(⟨⟨[97], by decide⟩, fun _ => 255, 0⟩, [104, 105, 33])]
    (forall_mem_singleton.mpr ha) ⟨4, fun _ _ => 0, by decide⟩ (by decide)
    (by rw [hsize, hcnt]; decide) fun _ _ => 0
  refine hround.mono fun _ u hu => ?_
  exact (hu.2.2 (by simp) nofun rfl).2 (nodup_singleton _)

/-- An antisocial name is lost: `/a` comes out as `a`, though every sector of the device and the
byte behind the buffer are zero. -/
theorem archive_round_trip_renames : ∃ s t : Fs, Fs.fileSystem.Reachable s ∧ Fs.fileSystem.init t ∧
    t.disk.size = 8 ∧ s.Has [47, 97] [] ∧
    Does (appendAll .plenty [⟨⟨[47, 97], by decide⟩, fun _ => 0, 0⟩])
      ⟨s, ⟨8, fun _ _ => 0, by decide⟩, 0, 0⟩ fun _ u =>
      Does (fsutilExtract .plenty fun _ _ => 0) ⟨t, u.scratch, 0, 0⟩ fun _ v =>
        v.fs.listing = [([97], [])] ∧ ¬ v.fs.listing.Perm [([47, 97], [])] := by
  obtain ⟨s, t, hs, ht, hsize, hcnt, -, hb⟩ := exists_files
  refine ⟨s, t, hs, ht, hsize, hb, ?_⟩
  have hhas : ∀ p ∈ [(Append.mk ⟨[47, 97], by decide⟩ (fun _ => 0) 0, ([] : List UInt8))],
    s.Has p.1.name.bytes p.2 := forall_mem_singleton.mpr hb
  have hroom : archiveSectors ([(Append.mk ⟨[47, 97], by decide⟩ (fun _ => 0) 0, [])].map stored) + 2 ≤
    (⟨8, fun _ _ => 0, by decide⟩ : Block).size := by decide
  refine (does_appendAll_zero hs hhas hroom).mono fun _ u hu => ?_
  obtain ⟨-, hscratch, hholds, hends⟩ := hu
  rw [← hscratch] at hroom
  refine (does_extract_stored hs hhas ht (nodup_singleton _) (by rw [hsize, hcnt]; decide) hroom
    hholds (hends (by simp) nofun rfl) fun _ _ => 0).mono fun _ v hv => ?_
  have hlist : v.fs.listing = [([97], [])] := perm_singleton.mp hv
  rw [hlist]
  exact ⟨rfl, fun hperm => absurd (perm_singleton.mp hperm) (by decide)⟩

end Fsutil

end Pintos
