import Pintos.Devices.Partition
import Mathlib.Data.Fintype.Prod

/-!
# Devices/PartitionScan — what a scan finds, and when it ends

Since every call reads sector 0, a call is known by its two sector numbers, and one for a sector that
is not 0 makes itself again if it makes a call within the device:

    0 --> o₁ --> o₁ + o₂ --> o₁ + o₂ --> …

A scan that ends has found the partitions of sector 0, and once more for every extended
partition, displaced.
-/

namespace Pintos.Partition

open Machinery List Nat

/-! ## Calls -/

variable {f : Entry → ScanM Unit}

section

variable {d : Block} {s : Scan} {Q : Unit → Scan → Prop} {depth sector primary : ℕ} {e : Entry}

@[simp] lemma does_emit {ev : Event} :
    Does (emit ev) s Q ↔ Q () { s with events := s.events ++ [ev] } := does_modify _

lemma blockRead_zero (hin : sector < d.size) : blockRead d 0 = pure (d.sector 0) := by
  rw [blockRead, Block.read, if_pos (zero_lt_of_lt hin)]

/-- The call that an extended partition leads to. -/
def follow (sector primary : ℕ) (e : Entry) : ℕ × ℕ :=
  if sector = 0 then (e.offset, e.offset) else ((e.offset + primary) % 2 ^ 32, primary)

lemma parseEntry_of_leads (read : ℕ → ℕ → ScanM Unit) (hleads : e.leads = true) :
    parseEntry read sector primary e = (emit (.extended sector) >>= fun _ =>
      read (follow sector primary e).1 (follow sector primary e).2) := by
  obtain ⟨hempty, hextended⟩ := Bool.and_eq_true_iff.mp hleads
  rw [Bool.not_eq_true'] at hempty
  rw [parseEntry, hempty, if_neg Bool.false_ne_true, hextended, if_pos rfl, follow]
  split <;> rfl

lemma readPartitionTable_of_lt (hin : sector < d.size) (hvalid : signature (d.sector 0) = 0xaa55) :
    readPartitionTable d (depth + 1) sector primary =
      (partitions (d.sector 0)).forM (parseEntry (readPartitionTable d depth) sector primary) := by
  rw [readPartitionTable, if_neg (not_le.mpr hin), blockRead_zero hin, pure_bind,
    if_neg (not_not.mpr hvalid)]

lemma readPartitionTable_of_ge (hout : d.size ≤ sector) :
    readPartitionTable d (depth + 1) sector primary = emit (.pastEnd sector) := by
  rw [readPartitionTable, if_pos hout]

lemma exists_does_of_forM {l : List Entry} (hdoes : Does (l.forM f) s Q) (he : e ∈ l) :
    ∃ s', Does (f e) s' fun _ _ => True := by
  induction l generalizing s with
  | nil => exact absurd he not_mem_nil
  | cons a l ih =>
    obtain ⟨_, s', hrun, hrest⟩ := does_bind.mp hdoes
    obtain rfl | he := mem_cons.mp he
    · exact ⟨s, _, s', hrun, trivial⟩
    · exact ih hrest he

end

/-! ## Without end -/

def leading (d : Block) : List Entry := (partitions (d.sector 0)).filter Entry.leads

/-- Counted from an extended partition, every extended partition begins past the device. -/
def LeadOut (d : Block) : Prop :=
  ∀ e ∈ leading d, e.offset < d.size →
    e.offset ≠ 0 ∧ ∀ e' ∈ leading d, d.size ≤ (e'.offset + e.offset) % 2 ^ 32

/-- A call that will be made again: for sector 0, or with an extended partition to count from. -/
def Circles (d : Block) (sector primary : ℕ) : Prop :=
  sector < d.size ∧ (sector ≠ 0 → (∃ e ∈ leading d, e.offset = primary ∧ e.offset < d.size) ∧
    ∃ e ∈ leading d, (e.offset + primary) % 2 ^ 32 < d.size)

section

variable {d : Block} {sector primary : ℕ}

lemma Circles.follow (hback : ¬ LeadOut d) (hc : Circles d sector primary) :
    ∃ e ∈ leading d, Circles d (follow sector primary e).1 (follow sector primary e).2 := by
  by_cases hzero : sector = 0
  · simp only [LeadOut, not_forall, not_and, not_le] at hback
    obtain ⟨e, he, hin, hagain⟩ := hback
    refine ⟨e, he, ?_⟩
    rw [Partition.follow, if_pos hzero]
    refine ⟨hin, fun hne => ⟨⟨e, he, rfl, hin⟩, ?_⟩⟩
    obtain ⟨e', he', hlt⟩ := hagain hne
    exact ⟨e', he', hlt⟩
  · obtain ⟨hfrom, e, he, hlt⟩ := hc.2 hzero
    refine ⟨e, he, ?_⟩
    rw [Partition.follow, if_neg hzero]
    exact ⟨hlt, fun _ => ⟨hfrom, e, he, hlt⟩⟩

/-- It never returns. -/
lemma Circles.not_does (hvalid : signature (d.sector 0) = 0xaa55) (hback : ¬ LeadOut d)
    (hc : Circles d sector primary) (depth : ℕ) (s : Scan) :
    ¬ Does (readPartitionTable d depth sector primary) s fun _ _ => True := by
  induction depth generalizing sector primary s with
  | zero =>
    rintro ⟨_, _, hrun, -⟩
    cases hrun
  | succ depth ih =>
    intro hdoes
    obtain ⟨e, he, hnext⟩ := hc.follow hback
    obtain ⟨hmem, hleads⟩ := mem_filter.mp he
    rw [readPartitionTable_of_lt hc.1 hvalid] at hdoes
    obtain ⟨s', hentry⟩ := exists_does_of_forM hdoes hmem
    rw [parseEntry_of_leads _ hleads, does_bind, does_emit] at hentry
    exact ih hnext _ hentry

end

/-! ## What is found -/

/-- The arguments of `found_partition`, without the number. -/
structure Found where
  type : UInt8
  start : ℕ
  size : ℕ
  deriving DecidableEq

/-- A partition with its number, if one is found. -/
def Event.partition : Event → Option (Found × ℕ)
  | .found type start size partNr => some (⟨type, start, size⟩, partNr)
  | _ => none

/-- The partitions that have been passed to `found_partition`. -/
def Scan.found (s : Scan) : List (Found × ℕ) := s.events.filterMap Event.partition

/-- Partitions, numbered from `n + 1` on. -/
def numbered : ℕ → List Found → List (Found × ℕ)
  | _, [] => []
  | n, f :: l => (f, n + 1) :: numbered (n + 1) l

/-- A call that ends, and finds partitions. -/
def Finds (x : ScanM Unit) (l : List Found) : Prop :=
  ∀ s, Does x s fun _ s' =>
    s'.partNr = s.partNr + l.length ∧ s'.found = s.found ++ numbered s.partNr l

/-- The partition of an entry, in the table at a sector. -/
def Entry.foundAt (e : Entry) (sector : ℕ) : Found := ⟨e.type, (e.offset + sector) % 2 ^ 32, e.size⟩

/-- What is found for an entry of the table at a sector; `inner` for an extended one. -/
def Entry.listed (e : Entry) (sector : ℕ) (inner : List Found) : List Found :=
  if e.isEmpty then [] else if e.isExtended then inner else [e.foundAt sector]

section

variable {d : Block} {x y : ScanM Unit} {l l' : List Found} {depth sector primary : ℕ} {e : Entry}

lemma numbered_append (n : ℕ) (l l' : List Found) :
    numbered n (l ++ l') = numbered n l ++ numbered (n + l.length) l' := by
  induction l generalizing n with
  | nil => rfl
  | cons f l ih =>
    rw [cons_append, numbered, ih, numbered, cons_append, length_cons, add_assoc,
      add_comm 1]

lemma map_fst_numbered (n : ℕ) (l : List Found) : (numbered n l).map Prod.fst = l := by
  induction l generalizing n with
  | nil => rfl
  | cons f l ih => exact congrArg (f :: ·) (ih (n + 1))

lemma finds_pure : Finds (pure ()) [] := fun _ =>
  (does_pure ()).mpr ⟨rfl, (append_nil _).symm⟩

lemma Finds.bind (hx : Finds x l) (hy : Finds y l') : Finds (x >>= fun _ => y) (l ++ l') := by
  intro s
  refine does_bind.mpr ((hx s).mono ?_)
  rintro - s₁ ⟨hnr₁, hfound₁⟩
  refine (hy s₁).mono ?_
  rintro - s₂ ⟨hnr₂, hfound₂⟩
  rw [hnr₁] at hnr₂ hfound₂
  constructor
  · rw [hnr₂, length_append, add_assoc]
  · rw [hfound₂, hfound₁, numbered_append, append_assoc]

lemma finds_emit {ev : Event} (hev : ev.partition = none) : Finds (emit ev) [] := by
  refine fun s => does_emit.mpr ⟨rfl, ?_⟩
  rw [Scan.found, filterMap_append, filterMap_cons_none hev]
  rfl

lemma finds_forM {es : List Entry} {g : Entry → List Found} (hf : ∀ e ∈ es, Finds (f e) (g e)) :
    Finds (es.forM f) (es.flatMap g) := by
  induction es with
  | nil => exact finds_pure
  | cons e es ih => exact (hf e mem_cons_self).bind (ih fun e' he' => hf e' (mem_cons_of_mem e he'))

lemma finds_parseEntry {read : ℕ → ℕ → ScanM Unit}
    (hread : e.leads = true → Finds (read (follow sector primary e).1 (follow sector primary e).2) l) :
    Finds (parseEntry read sector primary e) (e.listed sector l) := by
  rw [Entry.listed]
  by_cases hempty : e.isEmpty = true
  · rw [parseEntry, if_pos hempty, if_pos hempty]
    exact finds_pure
  · rw [if_neg hempty]
    by_cases hextended : e.isExtended = true
    · have hleads : e.leads = true := by
        rw [Entry.leads, hextended, (Bool.not_eq_true _).mp hempty]
        rfl
      rw [if_pos hextended, parseEntry_of_leads read hleads]
      exact (finds_emit rfl).bind (hread hleads)
    · rw [if_neg hextended, parseEntry, if_neg hempty, if_neg hextended]
      intro s
      simp only [does_bind, does_modify, does_get, does_emit]
      refine ⟨rfl, ?_⟩
      rw [Scan.found, filterMap_append]
      rfl

end

/-- What a scan finds that ends: what is in sector 0, and again for an extended one, displaced.
-/
def displaced (d : Block) : List Found :=
  (partitions (d.sector 0)).flatMap fun e => e.listed 0 <|
    if e.offset < d.size then (partitions (d.sector 0)).flatMap (Entry.listed · e.offset []) else []

variable {d : Block}

lemma finds_displaced (hpos : 0 < d.size) (hvalid : signature (d.sector 0) = 0xaa55)
    (hout : LeadOut d) (depth : ℕ) : Finds (partitionScan d (depth + 3)) (displaced d) := by
  rw [partitionScan, readPartitionTable_of_lt hpos hvalid]
  refine finds_forM fun e he => finds_parseEntry fun hleads => ?_
  have hmem : e ∈ leading d := mem_filter.mpr ⟨he, hleads⟩
  rw [follow, if_pos rfl]
  by_cases hin : e.offset < d.size
  · obtain ⟨hne, hpast⟩ := hout e hmem hin
    rw [if_pos hin, readPartitionTable_of_lt hin hvalid]
    refine finds_forM fun p hp => finds_parseEntry fun hleads' => ?_
    rw [follow, if_neg hne, readPartitionTable_of_ge (hpast p (mem_filter.mpr ⟨hp, hleads'⟩))]
    exact finds_emit rfl
  · rw [if_neg hin, readPartitionTable_of_ge (not_lt.mp hin)]
    exact finds_emit rfl

lemma leadOut_of_does (hpos : 0 < d.size) (hvalid : signature (d.sector 0) = 0xaa55) {depth : ℕ}
    (hdoes : Does (partitionScan d depth) ⟨[], 0⟩ fun _ _ => True) : LeadOut d := by
  by_contra hback
  have hcircles : Circles d 0 0 := ⟨hpos, fun hne => absurd rfl hne⟩
  exact hcircles.not_does hvalid hback depth _ hdoes

/-! ## Termination -/

/-- No sector, no table, or no extended partition that leads back. -/
def Halts (d : Block) : Prop := d.size = 0 ∨ signature (d.sector 0) ≠ 0xaa55 ∨ LeadOut d

/-- **When a scan ends.** -/
theorem partition_scan_ends_iff (d : Block) :
    (∃ enough, ∀ depth ≥ enough, Does (partitionScan d depth) ⟨[], 0⟩ fun _ _ => True) ↔ Halts d := by
  constructor
  · rintro ⟨enough, hends⟩
    by_contra hnot
    rw [Halts, not_or, not_or, not_not] at hnot
    obtain ⟨hsize, hvalid, hback⟩ := hnot
    exact hback (leadOut_of_does (Nat.pos_of_ne_zero hsize) hvalid (hends enough (Nat.le_refl _)))
  · intro hhalts
    refine ⟨3, fun depth hdepth => ?_⟩
    obtain ⟨depth, rfl⟩ := Nat.exists_eq_add_of_le' hdepth
    by_cases hsize : d.size = 0
    · rw [partitionScan, readPartitionTable_of_ge (Nat.le_of_eq hsize)]
      exact does_emit.mpr trivial
    · have hpos : 0 < d.size := Nat.pos_of_ne_zero hsize
      by_cases hvalid : signature (d.sector 0) = 0xaa55
      · have hout : LeadOut d := (hhalts.resolve_left hsize).resolve_left (not_not.mpr hvalid)
        exact (finds_displaced hpos hvalid hout depth ⟨[], 0⟩).mono fun _ _ _ => trivial
      · rw [partitionScan, readPartitionTable, if_neg (Nat.not_le.mpr hpos), blockRead_zero hpos,
          pure_bind, if_pos hvalid]
        exact does_emit.mpr trivial

/-- A sector of which some bytes are given, and the others are 0. -/
def sectorOf (bytes : List (ℕ × UInt8)) : Sector := fun i => (bytes.lookup i.val).getD 0

/-- 8 sectors: in sector 0 an extended partition at `o`, and there a partition at `o + 1`. -/
def extendedDevice (o : UInt8) : Block where
  size := 8
  sector n :=
    if n = 0 then sectorOf [(450, 0x05), (454, o), (458, 4), (510, 0x55), (511, 0xaa)]
    else if n = o.toNat then sectorOf [(450, 0x21), (454, 1), (458, 2), (510, 0x55), (511, 0xaa)]
    else sectorOf []
  size_lt := by decide

/-- In sector 1 there is no extended partition, but the scan of it does not end. -/
theorem partition_scan_endless :
    ¬ ∃ enough, ∀ depth ≥ enough,
      Does (partitionScan (extendedDevice 1) depth) ⟨[], 0⟩ fun _ _ => True := by
  rintro ⟨enough, hends⟩
  have hout := leadOut_of_does (by decide) (by decide) (hends enough (Nat.le_refl _))
  have hmem : entry ((extendedDevice 1).sector 0) 0 ∈ leading (extendedDevice 1) := by decide
  exact absurd ((hout _ hmem (by decide)).2 _ hmem) (by decide)

/-! ## Logical partitions -/

/-- The tables a table leads to, with their sectors and those to count from. -/
def children (d : Block) (t : ℕ × ℕ) : List (ℕ × ℕ) :=
  ((partitions (d.sector t.1)).filter Entry.leads).map (follow t.1 t.2)

/-- A table leads to another one. -/
def Child (d : Block) (t t' : ℕ × ℕ) : Prop := t' ∈ children d t

/-- The tables that are reached from sector 0, each read in its sector. -/
def Reached (d : Block) : ℕ × ℕ → Prop := Relation.ReflTransGen (Child d) (0, 0)

/-- A device with well-formed tables, with valid signatures and without a cycle. -/
structure Sound (d : Block) : Prop where
  inside : ∀ t, Reached d t → t.1 < d.size
  valid : ∀ t, Reached d t → signature (d.sector t.1) = 0xaa55
  acyclic : ∀ t t', Reached d t → Relation.TransGen (Child d) t t' → t'.1 ≠ t.1

/-- The partitions of the entries of a table, and of the tables they lead to, in order. -/
inductive Lists (d : Block) : ℕ → ℕ → List Entry → List Found → Prop
  | nil (sector primary : ℕ) : Lists d sector primary [] []
  | plain {sector primary : ℕ} {e : Entry} {es : List Entry} {l : List Found} (he : e.leads = false)
      (h : Lists d sector primary es l) : Lists d sector primary (e :: es) (e.listed sector [] ++ l)
  | extended {sector primary : ℕ} {e : Entry} {es : List Entry} {inner l : List Found}
      (he : e.leads = true)
      (hinner : Lists d (follow sector primary e).1 (follow sector primary e).2
        (partitions (d.sector (follow sector primary e).1)) inner)
      (h : Lists d sector primary es l) : Lists d sector primary (e :: es) (inner ++ l)

section

variable {d : Block} {t t' : ℕ × ℕ} {sector primary : ℕ} {es : List Entry} {l : List Found}

lemma offset_lt (pt : Sector) (i : ℕ) : (entry pt i).offset < 2 ^ 32 :=
  leWord_lt fun j => byteAt pt (446 + 16 * i + 8 + j)

lemma Reached.snd_lt (ht : Reached d t) : t.2 < 2 ^ 32 := by
  induction ht with
  | refl => decide
  | tail _ hchild ih =>
    obtain ⟨e, he, rfl⟩ := mem_map.mp hchild
    obtain ⟨i, -, rfl⟩ := mem_map.mp (mem_of_mem_filter he)
    rw [follow]
    split
    · exact offset_lt _ i
    · exact ih

lemma Sound.finite (hs : Sound d) : Finite { t // Reached d t } := by
  let place : { t // Reached d t } → Fin d.size × Fin (2 ^ 32) :=
    fun t => (⟨t.1.1, hs.inside t.1 t.2⟩, ⟨t.1.2, t.2.snd_lt⟩)
  refine Finite.of_injective place fun t t' heq => Subtype.ext (Prod.ext ?_ ?_)
  · exact congrArg (fun x => x.1.val) heq
  · exact congrArg (fun x => x.2.val) heq

lemma Sound.wellFounded (hs : Sound d) :
    WellFounded fun t t' : { t // Reached d t } => Child d t'.1 t.1 := by
  have := hs.finite
  let below : { t // Reached d t } → { t // Reached d t } → Prop :=
    fun t t' => Relation.TransGen (Child d) t'.1 t.1
  have : Std.Irrefl below := ⟨fun t h => hs.acyclic t.1 t.1 t.2 h rfl⟩
  have hsub : Subrelation (fun t t' => Child d t'.1 t.1) below := Relation.TransGen.single
  exact hsub.wf (Finite.wellFounded_of_trans_of_irrefl below)

lemma exists_lists_entries
    (hinner : ∀ e ∈ es, e.leads = true → ∃ l, Lists d (follow sector primary e).1
      (follow sector primary e).2 (partitions (d.sector (follow sector primary e).1)) l) :
    ∃ l, Lists d sector primary es l := by
  induction es with
  | nil => exact ⟨[], .nil sector primary⟩
  | cons e es ih =>
    obtain ⟨l, hl⟩ := ih fun e' he' => hinner e' (mem_cons_of_mem e he')
    by_cases he : e.leads = true
    · obtain ⟨inner, hlists⟩ := hinner e mem_cons_self he
      exact ⟨inner ++ l, .extended he hlists hl⟩
    · exact ⟨_, .plain ((Bool.not_eq_true _).mp he) hl⟩

lemma Sound.exists_lists (hs : Sound d) (ht : Reached d t) :
    ∃ l, Lists d t.1 t.2 (partitions (d.sector t.1)) l := by
  suffices hall : ∀ t : { t // Reached d t },
      ∃ l, Lists d t.1.1 t.1.2 (partitions (d.sector t.1.1)) l from
    hall ⟨t, ht⟩
  intro t
  induction t using hs.wellFounded.induction with
  | _ t ih =>
    refine exists_lists_entries fun e he hleads => ?_
    have hchild : Child d t.1 (follow t.1.1 t.1.2 e) :=
      mem_map_of_mem (List.mem_filter.mpr ⟨he, hleads⟩)
    exact ih ⟨follow t.1.1 t.1.2 e, t.2.tail hchild⟩ hchild

lemma Lists.eq_flatMap (h : Lists d sector primary es l) (hes : ∀ e ∈ es, e.leads = false)
    (inner : Entry → List Found) : l = es.flatMap fun e => e.listed sector (inner e) := by
  induction h with
  | nil => rfl
  | @plain sector _ e es l he _ ih =>
    have hlisted : e.listed sector [] = e.listed sector (inner e) := by
      rw [Entry.leads, Bool.and_eq_false_iff, Bool.not_eq_false'] at he
      rw [Entry.listed, Entry.listed]
      obtain hempty | hextended := he
      · rw [if_pos hempty, if_pos hempty]
      · rw [hextended, if_neg Bool.false_ne_true, if_neg Bool.false_ne_true]
    rw [flatMap_cons, ← ih fun e' he' => hes e' (mem_cons_of_mem e he'), hlisted]
  | extended he =>
    rw [hes _ mem_cons_self] at he
    exact absurd he Bool.false_ne_true

end

/-- A scan ends, and finds partitions, numbered from 1 on. -/
def ScanFinds (d : Block) (l : List Found) : Prop :=
  ∃ enough, ∀ depth ≥ enough, Does (partitionScan d depth) ⟨[], 0⟩ fun _ s => s.found = numbered 0 l

lemma ScanFinds.displaced {l : List Found} (h : ScanFinds d l) (hpos : 0 < d.size)
    (hvalid : signature (d.sector 0) = 0xaa55) : LeadOut d ∧ l = displaced d := by
  obtain ⟨enough, hfinds⟩ := h
  have hdoes := hfinds (enough + 3) (le_add_right _ _)
  have hout := leadOut_of_does hpos hvalid (hdoes.mono fun _ _ _ => trivial)
  refine ⟨hout, ?_⟩
  obtain ⟨_, s, hrun, hfound⟩ := hdoes
  have hfound' := ((finds_displaced hpos hvalid hout enough ⟨[], 0⟩).of_run hrun).2
  rw [← map_fst_numbered 0 l, ← hfound, hfound']
  exact map_fst_numbered 0 _

lemma sound_of_leading_eq_nil (hpos : 0 < d.size) (hvalid : signature (d.sector 0) = 0xaa55)
    (hnone : leading d = []) : Sound d := by
  have hchild : ∀ t, ¬ Child d (0, 0) t := by
    intro t ht
    obtain ⟨e, he, -⟩ := mem_map.mp ht
    exact absurd (hnone ▸ he : e ∈ ([] : List Entry)) not_mem_nil
  have honly : ∀ t, Reached d t → t = (0, 0) := by
    intro t ht
    induction ht with
    | refl => rfl
    | tail _ ht' ih => exact absurd (ih ▸ ht') (hchild _)
  refine ⟨fun t ht => ?_, fun t ht => ?_, fun t t' ht htrans => ?_⟩
  · rwa [honly t ht]
  · rwa [honly t ht]
  · rw [honly t ht] at htrans
    obtain ⟨t₁, ht₁, -⟩ := Relation.TransGen.head'_iff.mp htrans
    exact absurd ht₁ (hchild t₁)

lemma eq_of_child_extendedDevice {t t' : ℕ × ℕ} (ht : t = (0, 0) ∨ t = (4, 4))
    (hchild : Child (extendedDevice 4) t t') : t = (0, 0) ∧ t' = (4, 4) := by
  have hroot : children (extendedDevice 4) (0, 0) = [(4, 4)] := by decide
  have hleaf : children (extendedDevice 4) (4, 4) = [] := by decide
  obtain rfl | rfl := ht
  · exact ⟨rfl, mem_singleton.mp hchild⟩
  · exact absurd hchild not_mem_nil

lemma sound_extendedDevice : Sound (extendedDevice 4) := by
  have honly : ∀ t, Reached (extendedDevice 4) t → t = (0, 0) ∨ t = (4, 4) := by
    intro t ht
    induction ht with
    | refl => exact .inl rfl
    | tail _ hchild ih => exact .inr (eq_of_child_extendedDevice ih hchild).2
  refine ⟨fun t ht => ?_, fun t ht => ?_, fun t t' ht htrans => ?_⟩
  · obtain rfl | rfl := honly t ht <;> decide
  · obtain rfl | rfl := honly t ht <;> decide
  · have hends : t = (0, 0) ∧ t' = (4, 4) := by
      induction htrans with
      | single hchild => exact eq_of_child_extendedDevice (honly t ht) hchild
      | tail _ hchild ih =>
        obtain ⟨rfl, rfl⟩ := ih
        exact ⟨rfl, (eq_of_child_extendedDevice (.inr rfl) hchild).2⟩
    rw [hends.1, hends.2]
    decide

def primaryDevice : Block where
  size := 8
  sector _ := sectorOf [(450, 0x21), (454, 1), (458, 2), (510, 0x55), (511, 0xaa)]
  size_lt := by decide

/-- **When logical partitions are found where they are**: if there are none, or by coincidence. -/
theorem logical_partitions_found {d : Block} (hs : Sound d) :
    (∃ l, Lists d 0 0 (partitions (d.sector 0)) l) ∧
      ∀ l, Lists d 0 0 (partitions (d.sector 0)) l →
        (ScanFinds d l ↔ leading d = [] ∨ LeadOut d ∧ l = displaced d) := by
  have hpos : 0 < d.size := hs.inside (0, 0) .refl
  have hvalid := hs.valid (0, 0) .refl
  refine ⟨hs.exists_lists .refl, fun l hl => ?_⟩
  constructor
  · exact fun hfinds => .inr (hfinds.displaced hpos hvalid)
  · intro hcond
    have hout : LeadOut d ∧ l = displaced d := by
      obtain hnone | hout := hcond
      · refine ⟨fun e he => absurd (hnone ▸ he) not_mem_nil, hl.eq_flatMap (fun e he => ?_) _⟩
        exact (Bool.not_eq_true _).mp (filter_eq_nil_iff.mp hnone e he)
      · exact hout
    refine ⟨3, fun depth hdepth => ?_⟩
    obtain ⟨depth, rfl⟩ := Nat.exists_eq_add_of_le' hdepth
    rw [hout.2]
    exact (finds_displaced hpos hvalid hout.1 depth ⟨[], 0⟩).mono fun _ _ h => h.2

/-- The partition of `primaryDevice`. -/
theorem logical_partitions_found_primary : ScanFinds primaryDevice [⟨0x21, 1, 2⟩] := by
  have hnone : leading primaryDevice = [] := by decide
  have hs : Sound primaryDevice := sound_of_leading_eq_nil (by decide) (by decide) hnone
  obtain ⟨⟨l, hl⟩, hiff⟩ := logical_partitions_found hs
  have hl' : l = [⟨0x21, 1, 2⟩] := (hl.eq_flatMap (by decide) fun _ => []).trans (by decide)
  rw [← hl']
  exact (hiff l hl).mpr (.inl hnone)

/-- The partition in sector 4 is not found. -/
theorem logical_partition_missed :
    Sound (extendedDevice 4) ∧
      Lists (extendedDevice 4) 0 0 (partitions ((extendedDevice 4).sector 0)) [⟨0x21, 5, 2⟩] ∧
      ¬ ScanFinds (extendedDevice 4) [⟨0x21, 5, 2⟩] := by
  have hroot : partitions ((extendedDevice 4).sector 0) =
      [⟨5, 4, 4⟩, ⟨0, 0, 0⟩, ⟨0, 0, 0⟩, ⟨0, 0, 0⟩] := by decide
  have hleaf : partitions ((extendedDevice 4).sector 4) =
      [⟨0x21, 1, 2⟩, ⟨0, 0, 0⟩, ⟨0, 0, 0⟩, ⟨0, 0, 0⟩] := by decide
  have hempty : ∀ sector primary, Lists (extendedDevice 4) sector primary
      [⟨0, 0, 0⟩, ⟨0, 0, 0⟩, ⟨0, 0, 0⟩] [] :=
    fun sector primary => .plain rfl (.plain rfl (.plain rfl (.nil sector primary)))
  refine ⟨sound_extendedDevice, ?_, fun hfinds => ?_⟩
  · have hinner : Lists (extendedDevice 4) 4 4 (partitions ((extendedDevice 4).sector 4))
        [⟨0x21, 5, 2⟩] := by
      exact .plain rfl (hempty 4 4)
    exact .extended (e := ⟨5, 4, 4⟩) rfl hinner (hempty 0 0)
  · have hnone : displaced (extendedDevice 4) = [] := by decide
    have heq := (hfinds.displaced (by decide) (by decide)).2
    exact cons_ne_nil _ _ heq

end Pintos.Partition
