import Pintos.Userprog.Served

/-!
# Userprog/Below — how far up the kernel goes in a process's memory

A buffer, a word, a string and a name are gone through upwards until they end or an access fails.
What is touched is below `PHYS_BASE` exactly if one of the two happens there.
-/

namespace Pintos

open Machinery Traced

/-! ## Ranges -/

/-- The access is not done. -/
def Access.Fails {α : Type} (x : Access α) : Prop := ∀ a, x ≠ .ok a

/-- Going through `n` addresses from `a` on, until one fails, all are below `PHYS_BASE`; and `next`,
if none fails. -/
def Span (fails : ℕ → Prop) : ℕ → ℕ → Prop → Prop
  | _, 0, next => next
  | a, n + 1, next => a < physBase ∧ (¬ fails a → Span fails (a + 1) n next)

section

variable {fails : ℕ → Prop} {next : Prop}

lemma span_add (a m n : ℕ) :
    Span fails a (m + n) next ↔ Span fails a m (Span fails (a + m) n next) := by
  induction m generalizing a with
  | zero => rw [Nat.zero_add]; rfl
  | succ m ih => rw [Nat.add_right_comm, Span, Span, ih, Nat.add_right_comm a, ← Nat.add_assoc]

/-- A range stays below `PHYS_BASE` if it is empty, ends there, or is not gone through. -/
lemma span_iff (a n : ℕ) : Span fails a n True ↔
    n = 0 ∨ a + n ≤ physBase ∨ ∃ x, a ≤ x ∧ x < physBase ∧ fails x := by
  induction n generalizing a with
  | zero => exact iff_of_true trivial (.inl rfl)
  | succ n ih =>
    rw [Span, ih]
    by_cases hfails : fails a
    · refine ⟨fun h => .inr (.inr ⟨a, Nat.le_refl _, h.1, hfails⟩), fun h => ⟨?_, absurd hfails⟩⟩
      obtain h | h | ⟨x, hx, hx', -⟩ := h <;> omega
    · constructor
      · rintro ⟨ha, h⟩
        obtain h | h | ⟨x, hx, hx', hfx⟩ := h hfails
        · exact .inr (.inl (by omega))
        · exact .inr (.inl (by omega))
        · exact .inr (.inr ⟨x, by omega, hx', hfx⟩)
      · rintro (h | h | ⟨x, hx, hx', hfx⟩)
        · omega
        · exact ⟨by omega, fun _ => .inr (.inl (by omega))⟩
        · have hne : x ≠ a := fun hxa => hfails (hxa ▸ hfx)
          exact ⟨by omega, fun _ => .inr (.inr ⟨x, by omega, hx', hfx⟩)⟩

end

section

variable {σ : Type} {e : Env} {s : σ} {a : ℕ} {next : Prop}

lemma within_getByte {post : UInt8 → σ → Prop} :
    Within (· < physBase) (getByte e a) s post ↔
      a < physBase ∧ ∀ b, e.load a = .ok b → post b s := by
  simp only [Within, getByte]
  cases e.load a <;> simp [Access.toExcept]

lemma within_putByte {post : Unit → σ → Prop} :
    Within (· < physBase) (putByte e a) s post ↔
      a < physBase ∧ ∀ u, e.store a = .ok u → post u s := by
  simp only [Within, putByte]
  cases e.store a <;> simp [Access.toExcept]

lemma Access.not_fails {α : Type} {x : Access α} : ¬ x.Fails ↔ ∃ a, x = .ok a := by
  simp [Access.Fails]

lemma Access.ok_or_fails {α : Type} : ∀ x : Access α, (∃ a, x = .ok a) ∨ x.Fails
  | .ok a => .inl ⟨a, rfl⟩
  | .exits => .inr nofun
  | .panics => .inr nofun

variable {n : ℕ}

lemma within_getBytes : Within (· < physBase) (getBytes e a n) s (fun _ _ => next) ↔
      Span (fun x => (e.load x).Fails) a n next := by
  induction n generalizing a s with
  | zero => exact within_pure _
  | succ n ih =>
    rw [getBytes, within_bind, within_getByte, Span, Access.not_fails]
    simp only [within_bind, within_pure, ih, forall_exists_index]

lemma within_putBytes : Within (· < physBase) (putBytes e a n) s (fun _ _ => next) ↔
      Span (fun x => (e.store x).Fails) a n next := by
  induction n generalizing a s with
  | zero => exact within_pure _
  | succ n ih =>
    rw [putBytes, within_bind, within_putByte, Span, Access.not_fails]
    simp only [ih, forall_exists_index]

variable {k : Kernel}

lemma within_getWord {post : ℕ → Kernel → Prop} : Within (· < physBase) (getWord e a) k post ↔
      Span (fun x => (e.load x).Fails) a 4 True ∧ ∀ w, e.word a = some w → post w k := by
  have htrace : Within (· < physBase) (getWord e a) k (fun _ _ => True) ↔
      Span (fun x => (e.load x).Fails) a 4 True := by
    simp only [getWord, within_bind, within_getByte, within_pure, Span, Access.not_fails,
      forall_exists_index]
  rw [within_iff, htrace]
  have hstate : (getWord e a k).state = k := Keeps.state_eq (keeps_getWord fun _ _ _ => Access.fine_true)
  simp only [value_getWord, hstate]

/-- `n` bytes from `a` on are loaded below `PHYS_BASE`: they end there, or not all can be. -/
def Env.LoadsBelow (e : Env) (a n : ℕ) : Prop :=
  n = 0 ∨ a + n ≤ physBase ∨ ∃ x, a ≤ x ∧ x < physBase ∧ (e.load x).Fails

/-- …and so for stores. -/
def Env.StoresBelow (e : Env) (a n : ℕ) : Prop :=
  n = 0 ∨ a + n ≤ physBase ∨ ∃ x, a ≤ x ∧ x < physBase ∧ (e.store x).Fails

lemma spanLoads : Span (fun x => (e.load x).Fails) a n True ↔ e.LoadsBelow a n :=
  span_iff a n

/-- The string at `a` is gone through below `PHYS_BASE`: there it ends, or cannot be loaded. -/
def Env.StringBelow (e : Env) (a : ℕ) : Prop :=
  ∃ x, a ≤ x ∧ x < physBase ∧ ((e.load x).Fails ∨ e.load x = .ok 0)

lemma Env.stringBelow_succ {b : UInt8} (hb : e.load a = .ok b) (hb0 : b ≠ 0) :
    e.StringBelow (a + 1) ↔ e.StringBelow a := by
  constructor
  · rintro ⟨x, hx, hx', hend⟩
    exact ⟨x, by omega, hx', hend⟩
  · rintro ⟨x, hx, hx', hend⟩
    refine ⟨x, ?_, hx', hend⟩
    have hne : x ≠ a := by
      rintro rfl
      rw [hb] at hend
      obtain hfails | h0 := hend
      · exact hfails b rfl
      · exact hb0 (Access.ok.inj h0)
    omega

lemma within_getString (hn : physBase < a + n) (hpos : n ≠ 0) :
    Within (· < physBase) (getString e a n) s (fun _ _ => True) ↔ e.StringBelow a := by
  induction n generalizing a s with
  | zero => exact absurd rfl hpos
  | succ n ih =>
    rw [getString, within_bind, within_getByte]
    by_cases ha : a < physBase
    · obtain ⟨b, hload⟩ | hfails := (e.load a).ok_or_fails
      · rw [hload]
        by_cases hb0 : b = 0
        · refine iff_of_true ⟨ha, ?_⟩ ⟨a, Nat.le_refl _, ha, .inr (hb0 ▸ hload)⟩
          intro b' hb'
          cases hb'
          rw [if_pos hb0, within_pure]
          trivial
        · rw [← Env.stringBelow_succ hload hb0, ← ih (s := s) (by omega) (by omega)]
          simp [ha, hb0, within_bind, within_pure]
      · exact iff_of_true ⟨ha, fun b hb => absurd hb (hfails b)⟩ ⟨a, Nat.le_refl _, ha, .inl hfails⟩
    · refine iff_of_false (fun h => ha h.1) ?_
      rintro ⟨x, hx, hx', -⟩
      omega

/-- Comparing the string at `a` with `name` stays below `PHYS_BASE`: there they differ, or one
ends. -/
def Env.NameBelow (e : Env) (a : ℕ) (name : List UInt8) : Prop :=
  ∃ i, a + i < physBase ∧
    (e.load (a + i) = .ok 0 ∨ ∀ c, name[i]? = some c → e.load (a + i) ≠ .ok c)

lemma Env.nameBelow_cons {c : UInt8} (name : List UInt8) (hc : e.load a = .ok c)
    (hc0 : c ≠ 0) : e.NameBelow a (c :: name) ↔ e.NameBelow (a + 1) name := by
  have hshift (i : ℕ) : a + 1 + i = a + (i + 1) := by omega
  constructor
  · rintro ⟨i, hi, hend⟩
    cases i with
    | zero =>
      obtain h0 | hne := hend
      · exact absurd (Access.ok.inj (hc.symm.trans h0)) hc0
      · exact absurd hc (hne c rfl)
    | succ i =>
      rw [← hshift] at hi hend
      exact ⟨i, hi, hend⟩
  · rintro ⟨i, hi, hend⟩
    rw [hshift] at hi hend
    exact ⟨i + 1, hi, hend⟩

lemma within_strcmp (name : List UInt8) :
    Within (· < physBase) (strcmp e a name) s (fun _ _ => True) ↔ e.NameBelow a name := by
  have hlow {name : List UInt8} {a : ℕ} : e.NameBelow a name → a < physBase := by
    rintro ⟨i, hi, -⟩
    omega
  induction name generalizing a s with
  | nil =>
    rw [strcmp, within_bind, within_getByte]
    refine ⟨fun h => ⟨0, h.1, .inr nofun⟩, fun h => ⟨hlow h, fun b _ => ?_⟩⟩
    rw [within_pure]
    trivial
  | cons c name ih =>
    rw [strcmp, within_bind, within_getByte]
    by_cases hsame : e.load a = .ok c ∧ c ≠ 0
    · obtain ⟨hc, hc0⟩ := hsame
      rw [Env.nameBelow_cons name hc hc0]
      refine Iff.trans ?_ (ih (s := s))
      refine ⟨fun h => ?_, fun h => ⟨?_, fun b hb => ?_⟩⟩
      · simpa [hc0] using h.2 c hc
      · have hnext := hlow (ih.mp h)
        omega
      · rw [← Access.ok.inj (hc.symm.trans hb)]
        simpa [hc0] using h
    · refine ⟨fun h => ⟨0, h.1, ?_⟩, fun h => ⟨hlow h, fun b hb => ?_⟩⟩
      · by_cases hc : e.load a = .ok c
        · have hc0 : c = 0 := by simpa [hc] using hsame
          exact .inl (hc0 ▸ hc)
        · refine .inr fun c' hc' => ?_
          rwa [← Option.some.inj hc']
      · rw [if_neg, within_pure]
        · trivial
        · rintro ⟨hb0, rfl⟩
          exact hsame ⟨hb, hb0⟩

lemma Env.NameBelow.stringBelow {name : List UInt8} (h : e.NameBelow a name)
    (hv : (strcmp e a name s).value ≠ .ok false) : e.StringBelow a := by
  have hlow : a < physBase := by
    obtain ⟨i, hi, -⟩ := h
    omega
  induction name generalizing a with
  | nil =>
    refine ⟨a, Nat.le_refl _, hlow, ?_⟩
    obtain ⟨b, hload⟩ | hfails := (e.load a).ok_or_fails
    · rw [hload]
      refine .inr (congrArg _ ?_)
      by_contra hb0
      simp [strcmp, bind, getByte, hload, Access.toExcept, pure, hb0] at hv
    · exact .inl hfails
  | cons c name ih =>
    obtain ⟨b, hload⟩ | hfails := (e.load a).ok_or_fails
    · by_cases hsame : b ≠ 0 ∧ b = c
      · obtain ⟨hb0, rfl⟩ := hsame
        rw [← Env.stringBelow_succ hload hb0]
        rw [Env.nameBelow_cons name hload hb0] at h
        refine ih h ?_ ?_
        · simpa [strcmp, bind, getByte, hload, Access.toExcept, hb0] using hv
        · obtain ⟨i, hi, -⟩ := h
          omega
      · simp [strcmp, bind, getByte, hload, Access.toExcept, pure, hsame] at hv
    · exact ⟨a, Nat.le_refl _, hlow, .inl hfails⟩

lemma Env.StringBelow.nameBelow (h : e.StringBelow a) (name : List UInt8) :
    e.NameBelow a name := by
  obtain ⟨x, hx, hx', hend⟩ := h
  have hadd : a + (x - a) = x := by omega
  refine ⟨x - a, by omega, ?_⟩
  rw [hadd]
  exact hend.symm.imp id fun hfails c _ => hfails c

/-! ## The directory -/

/-- Names are compared until one agrees; if they agree below `PHYS_BASE`, no comparison gets
further. -/
lemma within_lookup {i : ℕ} (l : List DirEntry) :
    Within (· < physBase) (lookup e a i l) k (fun _ _ => True) ↔
      ∀ d ∈ l, d.inUse = true → e.NameBelow a d.name := by
  induction l generalizing i k with
  | nil => exact iff_of_true ((within_pure _).mpr trivial) nofun
  | cons d l ih =>
    rw [lookup, within_ite, List.forall_mem_cons, ih]
    by_cases huse : d.inUse = true
    · simp only [huse, true_imp_iff, not_true, false_imp_iff, and_true]
      rw [within_bind, within_iff, within_strcmp]
      refine and_congr_right fun hname => ?_
      by_cases hsame : (strcmp e a d.name k).value = .ok false
      · rw [hsame]
        simp [ih]
      · have hstring := hname.stringBelow hsame
        refine iff_of_true (fun same hv => ?_) fun d _ _ => hstring.nameBelow _
        cases same with
        | false => exact absurd hv hsame
        | true => exact (within_pure _).mpr trivial
    · simp [huse]

/-! ## Files -/

variable {bounce : Bool}

lemma within_transfer {fails : ℕ → Prop} {length : ℕ} {move : ℕ → ℕ → ℕ → Sys Unit}
    {buffer size offset turns : ℕ}
    (hmove : ∀ b n o k next, Within (· < physBase) (move b n o) k (fun _ _ => next) ↔ Span fails b n next)
    (hturns : size ≤ turns) :
    Within (· < physBase) (transfer bounce length move turns buffer size offset) k
      (fun _ _ => True) ↔ Span fails buffer (moved bounce length size offset) True := by
  induction turns generalizing buffer size offset k with
  | zero =>
    have hn : moved bounce length size offset = 0 :=
      moved_of_chunk_eq_zero (Nat.min_eq_zero_iff.mpr (.inl (by omega)))
    rw [transfer, within_pure, hn, Span]
  | succ turns ih =>
    rw [transfer]
    split
    · rename_i hchunk
      rw [within_pure, moved_of_chunk_eq_zero hchunk, Span]
    · rename_i hchunk
      split
      · rename_i hsector
        rw [hsector.2, within_pure, moved_of_chunk_lt hsector.1, Span]
      · rename_i hsector
        rw [← moved_chunk hsector, span_add, ← hmove _ _ offset k]
        simp only [within_bind, within_pure]
        exact within_congr fun _ _ => ih (by omega)

lemma within_writeChunk {inode b n o : ℕ} {next : Prop} :
    Within (· < physBase) (writeChunk e inode b n o) k (fun _ _ => next) ↔
      Span (fun x => (e.load x).Fails) b n next := by
  rw [writeChunk, within_bind]
  simp only [within_update]
  exact within_getBytes

lemma within_derefFile {ptr : ℕ} {post : File → Kernel → Prop} :
    Within (· < physBase) (derefFile ptr) k post ↔ ∀ f, k.file ptr = some f → post f k := by
  rw [derefFile, within_bind, within_read]
  cases k.file ptr with
  | none => simp [within_stop]
  | some f => simp [within_pure]

lemma within_fileRead {ptr buffer : ℕ} {size : ℤ} :
    Within (· < physBase) (fileRead e ptr buffer size) k (fun _ _ => True) ↔
      ∀ f, k.file ptr = some f →
        Span (fun x => (e.store x).Fails) buffer (e.moves k f size) True := by
  rw [fileRead, within_bind, within_derefFile]
  refine forall_congr' fun f => imp_congr_right fun _ => ?_
  simp only [within_bind, within_update, within_pure]
  exact within_transfer (fun _ _ _ _ _ => within_putBytes) (Nat.le_refl _)

lemma within_fileWrite {ptr buffer : ℕ} {size : ℤ} :
    Within (· < physBase) (fileWrite e ptr buffer size) k (fun _ _ => True) ↔
      ∀ f, k.file ptr = some f → (k.inode f.inode).denyWriteCnt = 0 →
        Span (fun x => (e.load x).Fails) buffer (e.moves k f size) True := by
  rw [fileWrite, within_bind, within_derefFile]
  refine forall_congr' fun f => imp_congr_right fun _ => ?_
  rw [within_bind, inodeWriteAt, within_bind, within_read, within_ite]
  simp only [within_bind, within_update, within_pure, implies_true, true_and, ne_eq, Decidable.not_not]
  refine imp_congr_right fun _ => ?_
  exact within_transfer (fun _ _ _ _ _ => within_writeChunk) (Nat.le_refl _)

end

end Pintos
