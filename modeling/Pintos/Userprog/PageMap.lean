import Pintos.Userprog.PageTables

/-!
# Userprog/PageMap — a page directory is a map with two bits for each page

`pagedir_get_page` answers the last mapping, with the offset; `pagedir_is_dirty` and
`pagedir_is_accessed` the last values that were set, for a page that was ever mapped; and a call on
one page changes the answers for no other.
-/

namespace Pintos

open Machinery

namespace Paging

/-- `pagedir_create`: a copy of the kernel's directory, in the page that `palloc_get_page` finds. -/
def pagedirCreate (initPageDir : Word) (found : Option Word) : PagingM (Option Word) :=
  match found with
  | none => return none
  | some pd => do
    modify fun mem a => if (a - pd).toNat < 4096 then mem (initPageDir + (a - pd)) else mem a
    return some pd

/-- The calls that change a directory. -/
inductive PageCall where
  | setPage (found : Option Word) (upage kpage : Word) (writable : Bool)
  | clearPage (upage : Word)
  | setDirty (vpage : Word) (dirty : Bool)
  | setAccessed (vpage : Word) (accessed : Bool)

/-- The number of the page a call is about. -/
def PageCall.page : PageCall → ℕ
  | .setPage _ upage _ _ => pgNo upage.toNat
  | .clearPage upage => pgNo upage.toNat
  | .setDirty vpage _ => pgNo vpage.toNat
  | .setAccessed vpage _ => pgNo vpage.toNat

/-! ## What the calls say -/

/-- What a process knows of a page. -/
structure PageView where
  frame : Option Word
  installed : Bool
  dirty : Bool
  accessed : Bool
  deriving DecidableEq, Repr

/-- A call that returned `r`, for the page it is about. -/
def PageCall.apply (v : PageView) : PageCall → Bool → PageView
  | .setPage _ _ kpage _, true => ⟨some kpage, true, false, false⟩
  | .setPage _ _ _ _, false => v
  | .clearPage _, _ => { v with frame := none }
  | .setDirty _ dirty, _ => { v with dirty := dirty }
  | .setAccessed _ accessed, _ => { v with accessed := accessed }

/-- Page `n` after the calls that were made, the last one first. -/
def view (n : ℕ) : List (PageCall × Bool) → PageView
  | [] => ⟨none, false, false, false⟩
  | (c, r) :: calls => if c.page = n then c.apply (view n calls) r else view n calls

/-! ## Runs -/

/-- Where the kernel's directory and the one at hand are, and how many pages there are. -/
structure Machine where
  initPageDir : Word
  pd : Word
  ramPages : ℕ

/-- Memory, and the calls that were made. -/
structure Called where
  mem : Words
  calls : List (PageCall × Bool)

namespace Machine

def run (M : Machine) : PageCall → PagingM Bool
  | .setPage found upage kpage writable =>
    pagedirSetPage M.initPageDir M.ramPages found M.pd upage kpage writable
  | .clearPage upage => do
    pagedirClearPage M.pd upage
    return true
  | .setDirty vpage dirty => do
    pagedirSetDirty M.pd vpage dirty
    return true
  | .setAccessed vpage accessed => do
    pagedirSetAccessed M.pd vpage accessed
    return true

/-- The calls that may be made: pages are mapped where none is, to pages that there are. -/
def Legal (M : Machine) (mem : Words) : PageCall → Prop
  | .setPage found upage kpage _ => pgOfs upage = 0 ∧ isUserVaddr upage = true ∧ IsPage kpage ∧
      frameNo kpage < M.ramPages ∧ (∀ pt, found = some pt → Fresh mem M.pd pt) ∧
      (pagedirGetPage M.pd upage).run mem = .ok 0 mem
  | .clearPage upage => pgOfs upage = 0 ∧ isUserVaddr upage = true
  | .setDirty _ _ | .setAccessed _ _ => True

/-- The kernel's directory, when a process gets its own: it has no user pages. -/
structure Booted (M : Machine) (mem : Words) : Prop where
  laid : Laid mem M.initPageDir
  kernel : ∀ i < 768, mem (slot M.initPageDir i) = 0
  fresh : Fresh mem M.initPageDir M.pd

/-- The system of the calls on one directory, from its creation on. -/
def system (M : Machine) : System Called PageCall where
  init w := ∃ mem, M.Booted mem ∧ (pagedirCreate M.initPageDir (some M.pd)).run mem =
    .ok (some M.pd) w.mem ∧ w.calls = []
  step w c w' := M.Legal w.mem c ∧ ∃ r, (M.run c).run w.mem = .ok r w'.mem ∧
    w'.calls = (c, r) :: w.calls

/-- What the directory answers for an address. -/
structure Answers (M : Machine) (mem : Words) (va page : Word) (dirty accessed : Bool) : Prop where
  page : (pagedirGetPage M.pd va).run mem = .ok page mem
  dirty : (pagedirIsDirty M.pd va).run mem = .ok dirty mem
  accessed : (pagedirIsAccessed M.pd va).run mem = .ok accessed mem

end Machine

/-! ## The calls on the map of entries -/

section

variable {mem mem' : Words} {pd va : Word} {n : ℕ} {M : Machine}

lemma isSome_updatePte (dir : PageDir) (va : ℕ) (f : Pte → Pte) (i : ℕ) :
    (updatePte dir va f i).isSome = (dir i).isSome := by
  rw [updatePte]
  cases hdir : dir (Pintos.pdNo va) with
  | none => rfl
  | some pt =>
    obtain rfl | hi := eq_or_ne i (Pintos.pdNo va)
    · rw [hdir]
      simp
    · simp [hi]

lemma isSome_of_pagedirSetPage {dir dir' : PageDir} {upage kpage i : ℕ} {writable alloc : Bool}
    (h : Pintos.pagedirSetPage dir upage kpage writable alloc = some dir') :
    ((dir i).isSome = true → (dir' i).isSome = true) ∧ (dir' (Pintos.pdNo upage)).isSome = true := by
  obtain ⟨created, hcreate, rfl⟩ := Option.map_eq_some_iff.mp h
  rw [isSome_updatePte, isSome_updatePte]
  refine ⟨fun hi => ?_, isSome_createTable hcreate⟩
  unfold createTable at hcreate
  split at hcreate
  · cases hcreate
    exact hi
  · cases hcreate
    rw [Function.update_apply]
    split_ifs
    · rfl
    · exact hi
  · cases hcreate

def entry (mem : Words) (pd : Word) (n : ℕ) : Pte := pteAt (pageDirOf mem pd) n

/-- There is a table for a page. -/
def HasTable (mem : Words) (pd : Word) (n : ℕ) : Prop := (pageDirOf mem pd (n / 1024)).isSome = true

lemma run_of_does {α : Type} {x : PagingM α} {a : α}
    (h : Does x mem fun r s => s = mem ∧ r = a) : x.run mem = .ok a mem := by
  obtain ⟨_, _, hrun, rfl, rfl⟩ := h
  exact hrun

lemma Laid.answers (h : Laid mem M.pd) (huser : isUserVaddr va = true)
    (hframe : (entry mem M.pd (pgNo va.toNat)).present = true →
      (entry mem M.pd (pgNo va.toNat)).page < 2 ^ 18) :
    M.Answers mem va
      (if (entry mem M.pd (pgNo va.toNat)).present
        then frameAt (entry mem M.pd (pgNo va.toNat)).page + pgOfs va else 0)
      (entry mem M.pd (pgNo va.toNat)).dirty (entry mem M.pd (pgNo va.toNat)).accessed := by
  refine ⟨run_of_does ?_, run_of_does ?_, run_of_does ?_⟩
  · refine (h.pagedirGetPage huser fun n hn => ?_).mono ?_
    · rw [pagedirGetPage_eq] at hn
      split_ifs at hn with hpresent
      cases hn
      exact hframe hpresent
    · rintro r s ⟨rfl, rfl⟩
      refine ⟨rfl, ?_⟩
      rw [pagedirGetPage_eq, entry]
      split_ifs <;> rfl
  · refine (h.pagedirIsFlag (fun w => pteD_ne_zero) va).mono ?_
    rintro r s ⟨rfl, rfl⟩
    refine ⟨rfl, ?_⟩
    rw [entry, pteAt_pgNo]
    cases Pintos.lookupPage (pageDirOf s M.pd) va.toNat <;> rfl
  · refine (h.pagedirIsFlag (fun w => pteA_ne_zero) va).mono ?_
    rintro r s ⟨rfl, rfl⟩
    refine ⟨rfl, ?_⟩
    rw [entry, pteAt_pgNo]
    cases Pintos.lookupPage (pageDirOf s M.pd) va.toNat <;> rfl

lemma Machine.Answers.unique {page page' : Word} {dirty dirty' accessed accessed' : Bool}
    (h : M.Answers mem va page dirty accessed) (h' : M.Answers mem va page' dirty' accessed') :
    page = page' ∧ dirty = dirty' ∧ accessed = accessed' := by
  have hpage := h.page.symm.trans h'.page
  have hdirty := h.dirty.symm.trans h'.dirty
  have haccessed := h.accessed.symm.trans h'.accessed
  cases hpage
  cases hdirty
  cases haccessed
  exact ⟨rfl, rfl, rfl⟩

lemma pgNo_lt_of_user (h : isUserVaddr va = true) : pgNo va.toNat < 3 * 2 ^ 18 := by
  have hlt := isUserVaddr_iff.mp h
  rw [Pintos.physBase] at hlt
  rw [pgNo, pgSize]
  omega

lemma IsPage.add_pgOfs_ne_zero {k : Word} (h : IsPage k) (va : Word) : k + pgOfs va ≠ 0 := by
  intro hzero
  have hnat := congrArg BitVec.toNat hzero
  have hdvd := h.dvd
  have hkernel := h.kernel
  rw [BitVec.toNat_add, toNat_pgOfs, Pintos.pgOfs, pgSize] at hnat
  rw [Pintos.physBase] at hkernel
  change _ = 0 at hnat
  omega

/-- What a call that returned `r` does to the entry of its page, if there is a table. -/
def PageCall.effect (e : Pte) : PageCall → Bool → Pte
  | .setPage _ _ kpage writable, true => Pintos.pteCreateUser (frameNo kpage) writable
  | .setPage _ _ _ _, false => e
  | .clearPage _, _ => { e with present := false }
  | .setDirty _ dirty, _ => { e with dirty := dirty }
  | .setAccessed _ accessed, _ => { e with accessed := accessed }

/-- What a call leaves: the entry of its page is changed, if there is a table for it, and no
other. -/
structure Left (pd : Word) (mem : Words) (c : PageCall) (r : Bool) (mem' : Words) : Prop where
  laid : Laid mem' pd
  table : ∀ n, HasTable mem pd n → HasTable mem' pd n
  other : ∀ n, n ≠ c.page ∨ ¬ HasTable mem' pd n → entry mem' pd n = entry mem pd n
  self : HasTable mem' pd c.page → entry mem' pd c.page = c.effect (entry mem pd c.page) r
  mapped : ∀ found upage kpage writable, c = .setPage found upage kpage writable → r = true →
    HasTable mem' pd c.page
  failed : r = false → mem' = mem
  unserved : ∀ upage kpage writable, c = .setPage none upage kpage writable →
    ¬ HasTable mem pd c.page → r = false

variable {c : PageCall}

lemma Left.of_updatePte {va : ℕ} {f : Pte → Pte} (hlaid : Laid mem' pd)
    (hdir : pageDirOf mem' pd = updatePte (pageDirOf mem pd) va f) (hpage : c.page = pgNo va)
    (hf : ∀ e, c.effect e true = f e)
    (hset : ∀ found upage kpage writable, c ≠ .setPage found upage kpage writable) :
    Left pd mem c true mem' := by
  have hsome (n : ℕ) : HasTable mem' pd n ↔ HasTable mem pd n := by
    rw [HasTable, HasTable, hdir, isSome_updatePte]
  refine ⟨hlaid, fun n => (hsome n).mpr, fun n hn => ?_, fun htable => ?_, ?_, nofun, ?_⟩
  · rw [entry, hdir, pteAt_updatePte, if_neg]
    · rfl
    · rintro ⟨rfl, htable⟩
      rw [hsome, HasTable, ← pdNo_eq] at hn
      obtain hn | hn := hn
      · exact hn hpage.symm
      · exact hn htable
  · rw [hsome, HasTable, hpage, ← pdNo_eq] at htable
    rw [entry, hdir, pteAt_updatePte, hpage, if_pos ⟨rfl, htable⟩, hf]
    rfl
  · exact fun found upage kpage writable hc => absurd hc (hset found upage kpage writable)
  · exact fun upage kpage writable hc => absurd hc (hset none upage kpage writable)

lemma entry_of_not_hasTable (h : ¬ HasTable mem pd n) : entry mem pd n = Pte.zero := by
  rw [HasTable, Bool.not_eq_true, Option.isSome_eq_false_iff, Option.isNone_iff_eq_none] at h
  rw [entry, pteAt, h]

lemma Laid.call (h : Laid mem M.pd) (hinit : M.pd ≠ M.initPageDir)
    (hframe : ∀ n < 3 * 2 ^ 18, (entry mem M.pd n).present = true → (entry mem M.pd n).page < 2 ^ 18)
    (hlegal : M.Legal mem c) : Does (M.run c) mem fun r mem' => Left M.pd mem c r mem' := by
  cases c with
  | setPage found upage kpage writable =>
    obtain ⟨haligned, huser, hkpage, hram, hfound, hnull⟩ := hlegal
    have hn := pgNo_lt_of_user huser
    have hfree : (entry mem M.pd (pgNo upage.toNat)).present = false := by
      refine Bool.not_eq_true _ ▸ fun hpresent => ?_
      have hpage := (h.answers huser (hframe _ hn)).page
      rw [hnull, if_pos hpresent, haligned] at hpage
      have hkernel := (isPage_frameAt (hframe _ hn hpresent)).kernel
      have hzero : 0#32 = frameAt (entry mem M.pd (pgNo upage.toNat)).page + 0#32 :=
        (EStateM.Result.ok.inj hpage).1
      rw [BitVec.add_zero] at hzero
      rw [← hzero] at hkernel
      exact absurd hkernel (by decide)
    refine (h.pagedirSetPage haligned huser hkpage hram hinit hfound hfree writable).mono ?_
    rintro r s (⟨rfl, rfl, -⟩ | ⟨rfl, hlaid, hset⟩)
    · refine ⟨h, fun _ => id, fun _ _ => rfl, fun _ => rfl, ?_, fun _ => rfl, fun _ _ _ _ _ => rfl⟩
      rintro _ _ _ _ _ ⟨⟩
    · have htable : HasTable s M.pd (pgNo upage.toNat) := by
        rw [HasTable, ← pdNo_eq]
        exact (isSome_of_pagedirSetPage (i := 0) hset).2
      refine ⟨hlaid, fun n => (isSome_of_pagedirSetPage hset).1, fun n hn => ?_, fun _ => ?_,
        fun _ _ _ _ _ _ => htable, Bool.noConfusion, ?_⟩
      · rw [entry, pteAt_pagedirSetPage hset, if_neg]
        · rfl
        · rintro rfl
          exact hn.elim (fun hne => hne rfl) fun hno => hno htable
      · rw [entry, PageCall.page, pteAt_pagedirSetPage hset, if_pos rfl]
        rfl
      · rintro _ _ _ ⟨⟩ hno
        have hnone : pageDirOf mem M.pd (Pintos.pdNo upage.toNat) = none := by
          rw [HasTable, PageCall.page, ← pdNo_eq] at hno
          simpa using hno
        simp [Pintos.pagedirSetPage, createTable, hnone] at hset
  | clearPage upage =>
    obtain ⟨haligned, huser⟩ := hlegal
    simp only [Machine.run, does_bind, does_pure]
    refine (h.pagedirClearPage haligned huser).mono ?_
    rintro _ s ⟨hlaid, hdir⟩
    exact .of_updatePte hlaid hdir rfl (fun _ => rfl) fun _ _ _ _ => PageCall.noConfusion
  | setDirty vpage dirty =>
    simp only [Machine.run, does_bind, does_pure]
    refine (h.pagedirSetFlag (f := fun b e => { e with dirty := b }) ofWord_or_pteD
      ofWord_and_not_pteD vpage dirty).mono ?_
    rintro _ s ⟨hlaid, hdir⟩
    exact .of_updatePte hlaid hdir rfl (fun _ => rfl) fun _ _ _ _ => PageCall.noConfusion
  | setAccessed vpage accessed =>
    simp only [Machine.run, does_bind, does_pure]
    refine (h.pagedirSetFlag (f := fun b e => { e with accessed := b }) ofWord_or_pteA
      ofWord_and_not_pteA vpage accessed).mono ?_
    rintro _ s ⟨hlaid, hdir⟩
    exact .of_updatePte hlaid hdir rfl (fun _ => rfl) fun _ _ _ _ => PageCall.noConfusion

/-! ## Every run -/

/-- An entry shows what is known of its page. -/
structure Shows (v : PageView) (e : Pte) (table : Prop) : Prop where
  mapped : ∀ k, v.frame = some k → IsPage k ∧ e.present = true ∧ e.page = frameNo k
  unmapped : v.frame = none → e.present = false
  bits : v.installed = true → table ∧ e.dirty = v.dirty ∧ e.accessed = v.accessed

variable {v : PageView}

lemma Shows.frame_lt {e : Pte} {table : Prop} (h : Shows v e table)
    (hpresent : e.present = true) : e.page < 2 ^ 18 := by
  match hv : v.frame with
  | none => exact absurd hpresent (by rw [h.unmapped hv]; exact Bool.false_ne_true)
  | some k =>
    obtain ⟨hk, -, hpage⟩ := h.mapped k hv
    rw [hpage]
    exact hk.frameNo_lt

lemma Shows.apply {e : Pte} {table table' : Prop} (h : Shows v e table)
    (htable : table → table') {mem : Words} (hlegal : M.Legal mem c) {r : Bool}
    (hmapped : ∀ found upage kpage writable, c = .setPage found upage kpage writable → r = true → table') :
    Shows (c.apply v r) (c.effect e r) table' := by
  have hbits (hv : v.installed = true) : table' := htable (h.bits hv).1
  match c, r with
  | .setPage found upage kpage writable, true =>
    refine ⟨?_, nofun, fun _ => ⟨hmapped _ _ _ _ rfl rfl, rfl, rfl⟩⟩
    rintro _ ⟨⟩
    exact ⟨hlegal.2.2.1, rfl, rfl⟩
  | .setPage _ _ _ _, false => exact ⟨h.mapped, h.unmapped, fun hv => ⟨hbits hv, (h.bits hv).2⟩⟩
  | .clearPage _, _ => exact ⟨nofun, fun _ => rfl, fun hv => ⟨hbits hv, (h.bits hv).2⟩⟩
  | .setDirty _ dirty, _ => exact ⟨h.mapped, h.unmapped, fun hv => ⟨hbits hv, rfl, (h.bits hv).2.2⟩⟩
  | .setAccessed _ accessed, _ =>
    exact ⟨h.mapped, h.unmapped, fun hv => ⟨hbits hv, (h.bits hv).2.1, rfl⟩⟩

lemma Shows.apply_of_not {table table' : Prop} (h : Shows v Pte.zero table)
    (htable : table → table') (hnot : ¬ table') {r : Bool}
    (hmapped : ∀ found upage kpage writable, c = .setPage found upage kpage writable → r = true → table') :
    Shows (c.apply v r) Pte.zero table' := by
  have hbits (hv : v.installed = true) : table' := htable (h.bits hv).1
  match c, r with
  | .setPage _ _ _ _, true => exact absurd (hmapped _ _ _ _ rfl rfl) hnot
  | .setPage _ _ _ _, false => exact ⟨h.mapped, h.unmapped, fun hv => absurd (hbits hv) hnot⟩
  | .clearPage _, _ => exact ⟨nofun, fun _ => rfl, fun hv => absurd (hbits hv) hnot⟩
  | .setDirty _ _, _ => exact ⟨h.mapped, h.unmapped, fun hv => absurd (hbits hv) hnot⟩
  | .setAccessed _ _, _ => exact ⟨h.mapped, h.unmapped, fun hv => absurd (hbits hv) hnot⟩

/-- The directory shows what was called, at every user page. -/
structure Tracks (M : Machine) (w : Called) : Prop where
  ne : M.pd ≠ M.initPageDir
  laid : Laid w.mem M.pd
  shows : ∀ n < 3 * 2 ^ 18, Shows (view n w.calls) (entry w.mem M.pd n) (HasTable w.mem M.pd n)

variable {w : Called}

lemma Tracks.frame_lt (h : Tracks M w) (hn : n < 3 * 2 ^ 18)
    (hpresent : (entry w.mem M.pd n).present = true) : (entry w.mem M.pd n).page < 2 ^ 18 :=
  (h.shows n hn).frame_lt hpresent

lemma Tracks.step {w w' : Called} (h : Tracks M w) (hstep : M.system.step w c w') :
    Tracks M w' := by
  obtain ⟨hlegal, r, hrun, hcalls⟩ := hstep
  have hleft := (h.laid.call h.ne (fun n => h.frame_lt) hlegal).of_run hrun
  refine ⟨h.ne, hleft.laid, fun n hn => ?_⟩
  rw [hcalls, view]
  have hshows := h.shows n hn
  split_ifs with hpage
  · subst hpage
    by_cases htable : HasTable w'.mem M.pd c.page
    · rw [hleft.self htable]
      exact hshows.apply (hleft.table c.page) hlegal hleft.mapped
    · have hzero := entry_of_not_hasTable htable
      rw [hleft.other c.page (.inr htable)] at hzero
      rw [hleft.other c.page (.inr htable), hzero]
      rw [hzero] at hshows
      exact hshows.apply_of_not (hleft.table c.page) htable hleft.mapped
  · rw [hleft.other n (.inl (Ne.symm hpage))]
    exact ⟨hshows.mapped, hshows.unmapped, fun hv =>
      ⟨hleft.table n (hshows.bits hv).1, (hshows.bits hv).2⟩⟩

lemma Machine.Booted.tracks (h : M.Booted mem)
    (hrun : (pagedirCreate M.initPageDir (some M.pd)).run mem = .ok (some M.pd) w.mem)
    (hcalls : w.calls = []) : Tracks M w := by
  have hmem := (EStateM.Result.ok.inj hrun).2.symm
  have hcopy (i : ℕ) (hi : i < 1024) : w.mem (slot M.pd i) = mem (slot M.initPageDir i) := by
    have hsub : slot M.pd i - M.pd = BitVec.ofNat 32 (4 * i) := by
      rw [slot, BitVec.add_comm, BitVec.add_sub_cancel]
    have hlt : (BitVec.ofNat 32 (4 * i)).toNat < 4096 := by
      rw [BitVec.toNat_ofNat]
      omega
    simp only [hmem, hsub, if_pos hlt]
    rfl
  have hat (i : ℕ) (hi : i < 1024) : tableAt w.mem M.pd i = tableAt mem M.initPageDir i := by
    rw [tableAt, tableAt, hcopy i hi]
  refine ⟨h.fresh.ne, ⟨h.fresh.isPage, fun i hi hne => ?_, fun i hi hne => ?_, fun i hi hne => ?_,
    fun i hi j hj hnei hnej heq => ?_⟩, fun n hn => ?_⟩
  · rw [hcopy i hi] at hne ⊢
    exact h.laid.present i hi hne
  · rw [hcopy i hi] at hne ⊢
    exact h.laid.frame i hi hne
  · rw [hcopy i hi] at hne
    rw [hat i hi]
    exact Ne.symm (h.fresh.table i hi hne)
  · rw [hcopy i hi] at hnei
    rw [hcopy j hj] at hnej
    rw [hat i hi, hat j hj] at heq
    exact h.laid.inj i hi j hj hnei hnej heq
  · have hd : n / 1024 < 768 := by omega
    have hzero : w.mem (slot M.pd (n / 1024)) = 0 := by
      rw [hcopy _ (by omega)]
      exact h.kernel _ hd
    have hentry : entry w.mem M.pd n = Pte.zero := by rw [entry, pteAt, pageDirOf_of_eq hzero]
    rw [hcalls, hentry]
    refine ⟨fun kpage hframe => ?_, fun _ => rfl, fun hpresent => ?_⟩
    · cases hframe
    · cases hpresent

lemma tracks_of_reachable (hw : M.system.Reachable w) : Tracks M w := by
  refine hw.invariant ?_ fun _ _ _ h _ hstep => h.step hstep
  rintro w ⟨mem, hbooted, hrun, hcalls⟩
  exact hbooted.tracks hrun hcalls

end

/-- **A page directory is a map with two bits for each page.** Every user address has its answers:
the page mapped last and not cleared since, and the last values of its bits. Every call comes to its
end; it changes the answers of its own page only, and without a page for a table, none. -/
theorem pagedir_is_map {M : Machine} {w : Called} (hw : M.system.Reachable w) :
    (∀ va, isUserVaddr va = true → ∃ dirty accessed,
      M.Answers w.mem va ((view (pgNo va.toNat) w.calls).frame.elim 0 (· + pgOfs va)) dirty accessed ∧
      ((view (pgNo va.toNat) w.calls).installed = true →
        dirty = (view (pgNo va.toNat) w.calls).dirty ∧
        accessed = (view (pgNo va.toNat) w.calls).accessed)) ∧
    (∀ va k, isUserVaddr va = true → (view (pgNo va.toNat) w.calls).frame = some k →
      k + pgOfs va ≠ 0) ∧
    ∀ c, M.Legal w.mem c → Does (M.run c) w.mem fun r mem' =>
      (∀ va page dirty accessed, isUserVaddr va = true → pgNo va.toNat ≠ c.page →
        M.Answers w.mem va page dirty accessed → M.Answers mem' va page dirty accessed) ∧
      (r = false → mem' = w.mem) ∧
      ∀ upage kpage writable, c = .setPage none upage kpage writable →
        w.mem (slot M.pd (pdNo upage).toNat) = 0 → r = false := by
  have h := tracks_of_reachable hw
  refine ⟨fun va huser => ?_, fun va k huser hk => ?_, fun c hlegal => ?_⟩
  · have hn := pgNo_lt_of_user huser
    have hshows := h.shows _ hn
    have hanswers := h.laid.answers huser (h.frame_lt hn)
    refine ⟨_, _, ?_, fun hinstalled => (hshows.bits hinstalled).2⟩
    match hframe : (view (pgNo va.toNat) w.calls).frame with
    | none =>
      rw [hshows.unmapped hframe] at hanswers
      exact hanswers
    | some k =>
      obtain ⟨hk, hpresent, hpage⟩ := hshows.mapped k hframe
      rw [if_pos hpresent, hpage, hk.frameAt] at hanswers
      exact hanswers
  · obtain ⟨hpage, -⟩ := (h.shows _ (pgNo_lt_of_user huser)).mapped k hk
    exact hpage.add_pgOfs_ne_zero va
  · refine (h.laid.call h.ne (fun n => h.frame_lt) hlegal).mono fun r mem' hleft => ?_
    refine ⟨fun va page dirty accessed huser hne hanswers => ?_, hleft.failed, ?_⟩
    · have hn := pgNo_lt_of_user huser
      have hsame := hleft.other _ (.inl hne)
      have hbefore := h.laid.answers huser (h.frame_lt hn)
      have hafter := hleft.laid.answers huser (by rw [hsame]; exact h.frame_lt hn)
      rw [hsame] at hafter
      obtain ⟨rfl, rfl, rfl⟩ := hanswers.unique hbefore
      exact hafter
    · rintro upage kpage writable rfl hzero
      refine hleft.unserved upage kpage writable rfl fun htable => ?_
      rw [toNat_pdNo] at hzero
      rw [HasTable, PageCall.page, ← pdNo_eq, pageDirOf_of_eq hzero] at htable
      cases htable

/-- A page is mapped, and found with its offset. -/
theorem pagedir_is_map_mapped : ∃ (M : Machine) (w : Called), M.system.Reachable w ∧
    ∃ accessed, M.Answers w.mem 0x08048123#32 0xc0200123#32 false accessed := by
  let M : Machine := ⟨0xc0100000#32, 0xc0101000#32, 1024⟩
  let c : PageCall := .setPage (some 0xc0102000#32) 0x08048000#32 0xc0200000#32 true
  let mem : Words := fun a => if (a - M.pd).toNat < 4096 then 0 else 0
  have hzero (a : Word) : mem a = 0 := ite_self 0
  have hpage (page : Word) (h : pgOfs page = 0 ∧ Pintos.physBase ≤ page.toNat) : IsPage page :=
    ⟨h.1, h.2⟩
  have hbooted : M.Booted fun _ => 0 := by
    refine ⟨⟨hpage _ (by decide), ?_, ?_, ?_, ?_⟩, fun _ _ => rfl, hpage _ (by decide), by decide, ?_⟩
    · exact fun i _ hne => absurd rfl hne
    · exact fun i _ hne => absurd rfl hne
    · exact fun i _ hne => absurd rfl hne
    · exact fun i _ j _ hne => absurd rfl hne
    · exact fun i _ hne => absurd rfl hne
  have hstart : M.system.Reachable ⟨mem, []⟩ := .start ⟨fun _ => 0, hbooted, rfl, rfl⟩
  obtain ⟨_, _, hnull, -⟩ := (pagedir_is_map hstart).1 0x08048000#32 (by decide)
  have hlegal : M.Legal mem c := by
    refine ⟨by decide, by decide, hpage _ (by decide), by decide, ?_, hnull.page⟩
    rintro _ ⟨⟩
    exact ⟨hpage _ (by decide), by decide, fun i _ hne => absurd (hzero _) hne⟩
  have hends : endsWith (fun r _ => r) ((M.run c).run mem) = true := by decide +kernel
  obtain ⟨_, mem', hrun, rfl⟩ := endsWith_iff.mp hends
  have hw : M.system.Reachable ⟨mem', [(c, true)]⟩ := hstart.next trivial ⟨hlegal, true, hrun, rfl⟩
  obtain ⟨dirty, accessed, hanswers, hbits⟩ := (pagedir_is_map hw).1 0x08048123#32 (by decide)
  obtain rfl : dirty = false := (hbits rfl).1
  exact ⟨M, _, hw, accessed, hanswers⟩

end Paging

end Pintos
