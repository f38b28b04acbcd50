import Pintos.Userprog.Descriptors

/-!
# Userprog/Panic — what brings the kernel down

The functions behind a system call assert what the handler should have checked, or follow a pointer
without asserting anything; so does `thread_exit`. `Harmless` lists what a process has to refrain
from, and what it has to be lucky with; then the kernel goes on until somebody switches it off.
-/

namespace Pintos

open Machinery Traced Function

/-- The kernel goes on, or is switched off. -/
def Survives (stop : SysStop) : Prop := stop ≠ .panic ∧ stop ≠ .wild

lemma survives_exit (status : ℤ) : Survives (.exit status) := ⟨nofun, nofun⟩

/-! ## Memory -/

/-- A load from `a` finds the page, or ends the process. -/
def Env.Loads (e : Env) (a : ℕ) : Prop :=
  a < physBase ∧ (e.mapped a = true ∨ e.pagedIn a = true ∨ e.stray a = true)

/-- …and so does a store. -/
def Env.Stores (e : Env) (a : ℕ) : Prop :=
  a < physBase ∧ ((e.mapped a || e.pagedIn a) = true ∧ e.writable a = true ∨
    e.mapped a = false ∧ e.stray a = true)

/-- The string at `a` is in such memory as far as it goes. -/
def Env.Reads (e : Env) (a : ℕ) : Prop :=
  ∀ n, (∀ i < n, ∃ b, e.load (a + i) = .ok b ∧ b ≠ 0) → e.Loads (a + n)

section

variable {e : Env} {a : ℕ}

lemma Env.Loads.fine (h : e.Loads a) : (e.load a).Fine Survives := by
  obtain ⟨ha, hpage⟩ := h
  by_cases hthere : (e.mapped a || e.pagedIn a) = true
  · obtain ⟨b, hb⟩ := e.load_mapped a ha hthere
    rw [hb]
    exact Access.fine_ok b
  · rw [e.load_stray a ha (by simp_all) (by simp_all)]
    intro stop hstop
    cases hstop
    exact survives_exit _

lemma Env.Stores.fine (h : e.Stores a) : (e.store a).Fine Survives := by
  obtain ⟨ha, ⟨hthere, hwrite⟩ | ⟨hno, hstray⟩⟩ := h
  · rw [e.store_mapped a ha hthere hwrite]
    exact Access.fine_ok ()
  · rw [e.store_stray a ha hno hstray]
    intro stop hstop
    cases hstop
    exact survives_exit _

lemma Env.Reads.readable (h : e.Reads a) : e.Readable Survives a :=
  fun n hn => ⟨(h n hn).fine, fun _ => survives_exit _⟩

end

/-! ## What is asked of a step -/

/-- The pointers among the arguments are good for the handler, and so is the memory they point to;
`exec` has its pages and its thread. -/
def Env.SafeArgs (e : Env) (esp : ℕ) : SysNr → Prop
  | .exec => ∀ cmdLine, e.word (esp + 4) = some cmdLine → isUserVaddr cmdLine = true →
      e.mapped cmdLine = true → cmdLine ≠ null ∧ e.Reads cmdLine ∧
        (e.argPage && e.fnPage && e.threadCreated) = true
  | .create => ∀ file, e.word (esp + 4) = some file → isUserVaddr file = true
  | .openFile => ∀ file, e.word (esp + 4) = some file → isUserVaddr file = true
  | .write => ∀ fd buffer size, e.word (esp + 4) = some fd → toInt32 fd = 1 →
      e.word (esp + 8) = some buffer → e.word (esp + 12) = some size →
      ∀ x, buffer ≤ x → x < buffer + size → e.Loads x
  | _ => True

/-- The number of the call and its arguments are in memory that can be loaded from, and they are
safe. -/
structure Env.SafeCall (e : Env) (esp : ℕ) : Prop where
  number : isUserVaddr esp = true → e.mapped esp = true → ∀ x, esp ≤ x → x < esp + 4 → e.Loads x
  words : ∀ nr, e.sysNr esp = some nr → isUserVaddr (esp + 4 * nr.argWidth) = true →
    ∀ x, esp + 4 ≤ x → x < esp + 4 + 4 * nr.argWidth → e.Loads x
  args : ∀ nr, e.sysNr esp = some nr → e.SafeArgs esp nr

/-- Behind the semaphore: the memory that is touched is there, sizes and positions are not
negative, the name to remove is not null; and `open` has a page and finds a free place. -/
def Critical.Safe (e : Env) (k : Kernel) : Critical → Prop
  | .create file size => e.Reads file ∧ 0 ≤ toInt32 size
  | .remove file => e.Reads file ∧ file ≠ null
  | .openFile file => (file ≠ null → e.Reads file) ∧ e.fdPage = true ∧
      ∃ i < fdMax, k.fileDescriptors i = none
  | .filesize _ => True
  | .read fd buffer length => ∀ x, e.Moves k fd buffer (toInt32 length) x → e.Stores x
  | .write fd buffer size => ∀ x, e.Moves k fd buffer (toInt32 size) x → e.Loads x
  | .seek _ _ position => 0 ≤ toInt32 position
  | .tell .. => True

/-- Process `p` may end: its children have ended, and the frames in its page directory are in use
and mapped once each. -/
structure World.MayExit (w : World) (p : ℕ) (e : Env) : Prop where
  children : ∀ c, w.parent c = some p → w.stage c = .ended
  once : e.frames.Nodup
  inUse : ∀ f ∈ e.frames, w.used f = true

/-- A step that asks nothing of the kernel that it does not survive. -/
def Harmless (w : World) : SysAct → Prop
  | .trap p e esp => e.SafeCall esp ∧
      ∀ status, (syscallHandler e esp w.kernel).value = .error (.exit status) → w.MayExit p e
  | .semaDown _ => True
  | .finish p e => ∀ c, w.stage p = .inside c → c.Safe e w.kernel ∧
      ∀ status, (c.run e w.kernel).value = .error (.exit status) → w.MayExit p e
  | .killed p e => w.MayExit p e

lemma Env.SafeCall.callFine {e : Env} {esp : ℕ} (h : e.SafeCall esp) : e.CallFine Survives esp where
  exit := survives_exit
  powerOff := ⟨nofun, nofun⟩
  number hu hm x hx hx' := (h.number hu hm x hx hx').fine
  words nr hnr hu x hx hx' := (h.words nr hnr hu x hx hx').fine
  args nr hnr := by
    have hargs := h.args nr hnr
    cases nr with
    | exec =>
      intro cmdLine hcmd hu hm
      obtain ⟨hnull, hread, hmem⟩ := hargs cmdLine hcmd hu hm
      exact ⟨fun h0 => absurd h0 hnull, hread.readable, .inl hmem⟩
    | create => exact fun file hfile hno => absurd (hargs file hfile) (by simp [hno])
    | openFile => exact fun file hfile hno => absurd (hargs file hfile) (by simp [hno])
    | write =>
      exact fun fd buffer size hfd h1 hb hs x hx hx' => (hargs fd buffer size hfd h1 hb hs x hx hx').fine
    | _ => trivial

lemma Critical.Safe.restFine {e : Env} {k : Kernel} {c : Critical} (h : c.Safe e k) :
    c.RestFine e Survives k := by
  cases c with
  | create => exact ⟨h.1.readable, fun hneg => absurd h.2 (Int.not_le.mpr hneg)⟩
  | remove => exact ⟨fun d _ _ => h.1.readable.compares d.name, fun h0 => absurd h0 h.2⟩
  | openFile =>
    obtain ⟨hread, hpage, i, hi, hfree⟩ := h
    refine ⟨fun hnull => ?_, .inl hpage, fun hfull => absurd hfree (hfull i hi)⟩
    exact ⟨(hread hnull).readable.head, fun d _ _ => (hread hnull).readable.compares d.name⟩
  | filesize => trivial
  | read => exact fun x hx => (h x hx).fine
  | write => exact fun x hx => (h x hx).fine
  | seek => exact fun hneg => absurd h (Int.not_le.mpr hneg)
  | tell => trivial

/-! ## One call -/

/-- Whatever is in the table is an open file. -/
def Kernel.TableOpen (k : Kernel) : Prop :=
  ∀ i ptr, k.fileDescriptors i = some ptr → k.file ptr ≠ none

variable {c : Critical}

section

variable {k : Kernel} {ptr : ℕ}

lemma Kernel.TableOpen.of_slot {fd : ℤ} (ht : k.TableOpen)
    (h : fdToFilePtr k.fileDescriptors fd = some ptr) :
    k.file ptr ≠ none := by
  obtain ⟨i, -, -, hi⟩ := fdToFilePtr_eq_some.mp h
  exact ht i ptr hi

lemma Kernel.TableOpen.found {e : Env} {esp : ℕ} (ht : k.TableOpen)
    (h : (syscallHandler e esp k).value = .ok (.locked c)) (hptr : c.found = some ptr) :
    k.file ptr ≠ none := by
  obtain ⟨-, h⟩ | ⟨nr, -, hserved⟩ := served_of_syscallHandler h
  · cases h
  obtain ⟨hno, -⟩ | ⟨v, -, -, -, -, hfound⟩ := hserved.fd_of_locked
  · rw [hno] at hptr
    cases hptr
  · exact ht.of_slot (hfound ptr hptr)

end

/-- A call that the kernel survives: the open files are still there, and so is everything that
the table speaks of. -/
structure Survived (k : Kernel) (r : Except SysStop (Option ℤ)) (k' : Kernel) : Prop where
  stop : ∀ stop, r = .error stop → Survives stop
  file : ∀ ptr, k.file ptr ≠ none → k'.file ptr ≠ none
  table : k'.TableOpen

/-- The table, and which addresses are those of open files. -/
def Kernel.handles (k : Kernel) : (ℕ → Option ℕ) × (ℕ → Bool) :=
  (k.fileDescriptors, fun ptr => (k.file ptr).isSome)

section

variable {e : Env} {k k' : Kernel}

lemma file_of_handles (h : k'.handles = k.handles) (ptr : ℕ) :
    k'.file ptr ≠ none ↔ k.file ptr ≠ none := by
  rw [← Option.isSome_iff_ne_none, ← Option.isSome_iff_ne_none]
  exact iff_of_eq (congrArg (· = true) (congrFun (congrArg Prod.snd h) ptr))

lemma survived_of_handles {r : Except SysStop (Option ℤ)} (ht : k.TableOpen)
    (hstop : ∀ stop, r = .error stop → Survives stop) (h : k'.handles = k.handles) :
    Survived k r k' := by
  refine ⟨hstop, fun ptr => (file_of_handles h ptr).mpr, fun i ptr hi => ?_⟩
  rw [show k'.fileDescriptors = k.fileDescriptors from congrArg Prod.fst h] at hi
  exact (file_of_handles h ptr).mpr (ht i ptr hi)

lemma handles_setPos (ptr pos : ℕ) : (k.setPos ptr pos).handles = k.handles := by
  refine congrArg (Prod.mk _) (funext fun ptr' => ?_)
  by_cases h : ptr' = ptr
  · simp [h, Kernel.setPos]
  · simp [h, Kernel.setPos]

variable (ht : k.TableOpen)

include ht

lemma Kernel.TableOpen.grown (h : k.Grown k') : k'.TableOpen := by
  intro i ptr hi
  rw [h.table] at hi
  exact h.file ptr (ht i ptr hi)

lemma survived_openFile {file : ℕ} (h : (Critical.openFile file).Safe e k) :
    Ends (Survived k) (openFile e file) k := by
  refine (opened_openFile h.restFine).mono fun r k' hopened => ?_
  cases hopened with
  | refused hg =>
    have htable := ht.grown hg
    exact ⟨nofun, hg.file, htable⟩
  | stopped hE hg =>
    refine ⟨fun stop hstop => ?_, hg.file, ht.grown hg⟩
    cases hstop
    exact hE
  | given hg hopen hgiven =>
    cases hgiven with
    | @filled i hi hfree =>
      refine ⟨nofun, hg.file, fun j ptr hj => ?_⟩
      by_cases hji : j = i
      · rw [hji] at hj
        cases (update_self ..).symm.trans hj
        exact hopen
      · exact ht.grown hg j ptr ((update_of_ne hji ..).symm.trans hj)
    | stopped hcan =>
      obtain ⟨-, hpage, i, hi, hfree⟩ := h
      exact absurd ⟨⟨i, hi, by rwa [hg.table]⟩, .inl hpage⟩ hcan

lemma Critical.survived (hsafe : c.Safe e k)
    (hfound : ∀ ptr, c.found = some ptr → k.file ptr ≠ none) : Ends (Survived k) (c.run e) k := by
  have hrest := hsafe.restFine
  have hderef (ptr : ℕ) (htarget : c.Targets k ptr) : k.file ptr ≠ none := by
    obtain hptr | ⟨fd, -, hptr⟩ := htarget
    · exact hfound ptr hptr
    · exact ht.of_slot hptr
  have hspares : c.Spares Kernel.handles k :=
    ⟨fun ptr _ _ pos => handles_setPos ptr pos, fun _ _ _ _ _ _ _ => rfl, fun _ _ _ h =>
      congrArg (fun v => (v.1.2, fun ptr => (v.2 ptr).isSome)) h⟩
  have hfine : c.Fine e Survives k :=
    ⟨hrest, fun ptr htarget hnone => absurd hnone (hderef ptr htarget)⟩
  cases c with
  | openFile file => exact survived_openFile ht hsafe
  | _ =>
    have hkeeps := hspares.keeps nofun hfine fun _ => rfl
    exact survived_of_handles ht hkeeps.2 hkeeps.1

end

/-! ## Whole runs -/

/-- A kernel that has survived so far: whatever file a call will follow is open, and whoever has
not ended has a parent that has not. -/
structure World.Alive (w : World) : Prop where
  up : w.down = none ∨ w.down = some .powerOff
  table : w.kernel.TableOpen
  found : ∀ p c ptr, (w.stage p).critical = some c → c.found = some ptr → w.kernel.file ptr ≠ none
  family : ∀ p q, w.parent p = some q → w.stage p ≠ .ended → w.stage q ≠ .ended

lemma World.Boot.alive {w : World} (h : w.Boot) : w.Alive where
  up := .inl h.up
  table i ptr hi := by simp [h.fileDescriptors] at hi
  found p c ptr hc := by simp [h.user, Stage.critical] at hc
  family p q hq := by simp [h.parent] at hq

lemma pallocFreeAll_of_nodup {l : List ℕ} {used : ℕ → Bool} (hl : l.Nodup)
    (h : ∀ f ∈ l, used f = true) : pallocFreeAll l used ≠ none := by
  induction l generalizing used with
  | nil => exact nofun
  | cons f l ih =>
    obtain ⟨hf, hl⟩ := List.nodup_cons.mp hl
    rw [pallocFreeAll, if_pos (h f List.mem_cons_self)]
    refine ih hl fun g hg => ?_
    rw [update_of_ne (ne_of_mem_of_not_mem hg hf)]
    exact h g (List.mem_cons_of_mem _ hg)

lemma SysStep.live {w w' : World} {a : SysAct} (h : SysStep w a w') : w.stage a.proc ≠ .ended := by
  cases h <;> simp_all [SysAct.proc]

namespace World

variable {w w' : World} {a : SysAct} {p : ℕ} {e : Env}

/-- A step of `p` leaves the kernel running or switched off, and no child without its parent. -/
structure Orderly (w : World) (p : ℕ) (w' : World) : Prop where
  up : w'.down = none ∨ w'.down = some .powerOff
  children : w'.stage p = .ended → ∀ c, w.parent c = some p → w.stage c = .ended
  parent : ∀ c q, w'.parent c = some q → w.parent c = some q ∨ q = p ∧ w'.stage p ≠ .ended

variable {owned : ℕ → ℤ → Bool} {kernel : Kernel}

lemma Alive.orderly_exit (h : w.Alive) (hup : w.down = none) (hp : w.stage p ≠ .ended)
    (hmay : w.MayExit p e) :
    w.Orderly p ({ w with owned, kernel }.threadExit p e.frames) := by
  have hparent : ¬ (w.parent p).any (fun q => w.stage q = .ended) = true := by
    simpa [Option.any_eq_true] using fun q hq => h.family p q hq hp
  rw [threadExit, if_neg hparent]
  cases hfree : pallocFreeAll e.frames w.used with
  | none => exact absurd hfree (pallocFreeAll_of_nodup hmay.once hmay.inUse)
  | some used => exact ⟨.inl hup, fun _ => hmay.children, fun _ _ => .inl⟩

lemma Alive.orderly_leave (h : w.Alive) (hup : w.down = none) (hp : w.stage p ≠ .ended)
    {stop : SysStop} (hstop : Survives stop)
    (hmay : ∀ status, stop = .exit status → w.MayExit p e) :
    w.Orderly p ({ w with owned, kernel }.leave p e stop) := by
  cases stop with
  | exit status => exact h.orderly_exit hup hp (hmay status rfl)
  | panic => exact absurd rfl hstop.1
  | powerOff => exact ⟨.inr rfl, fun hended => absurd hended hp, fun _ _ => .inl⟩
  | wild => exact absurd rfl hstop.2

lemma orderly_of_running (hup : w'.down = none) (hp : w'.stage p ≠ .ended)
    (hparent : ∀ c q, w'.parent c = some q → w.parent c = some q ∨ q = p) : w.Orderly p w' where
  up := .inl hup
  children hended := absurd hended hp
  parent c q hq := (hparent c q hq).imp_right fun h => ⟨h, hp⟩

lemma Alive.survived (h : w.Alive) (ha : Harmless w (.finish p e)) (hp : w.stage p = .inside c) :
    Ends (Survived w.kernel) (c.run e) w.kernel :=
  c.survived h.table (ha c hp).1 fun ptr => h.found p c ptr (congrArg Stage.critical hp)

lemma noteExec_cases (parent : ℕ → Option ℕ) (p : ℕ) (e : Env) (esp : ℕ) :
    noteExec parent p e esp = parent ∨ noteExec parent p e esp = update parent e.child (some p) := by
  rw [noteExec]
  split
  · split
    · exact .inr rfl
    · exact .inl rfl
  · exact .inl rfl

lemma of_noteExec {parent : ℕ → Option ℕ} {esp c q : ℕ}
    (h : noteExec parent p e esp c = some q) : parent c = some q ∨ q = p := by
  obtain hn | hn := noteExec_cases parent p e esp
  · exact .inl (hn ▸ h)
  · rw [hn] at h
    by_cases hc : c = e.child
    · rw [hc, update_self] at h
      exact .inr (Option.some.inj h).symm
    · rw [update_of_ne hc] at h
      exact .inl h

lemma Alive.orderly (h : w.Alive) (ha : Harmless w a) (hstep : SysStep w a w') :
    w.Orderly a.proc w' := by
  have hlive := hstep.live
  cases hstep with
  | ret hup => exact orderly_of_running hup (by simp [SysAct.proc]) fun _ _ => of_noteExec
  | locked hup => exact orderly_of_running hup (by simp [SysAct.proc]) fun _ _ => .inl
  | trapStop hup _ hval =>
    exact h.orderly_leave hup hlive ((goes_syscallHandler ha.1.callFine).1.2 _ hval)
      fun status hstop => ha.2 status (hstop ▸ hval)
  | semaDown hup => exact orderly_of_running hup (by simp [SysAct.proc]) fun _ _ => .inl
  | done hup => exact orderly_of_running hup (by simp [SysAct.proc]) fun _ _ => .inl
  | @doneStop p e c stop hup hp hval =>
    exact h.orderly_leave hup hlive ((h.survived ha hp).stop _ hval)
      fun status hstop => (ha c hp).2 status (hstop ▸ hval)
  | killed hup => exact h.orderly_exit hup hlive ha

lemma Alive.family_step (h : w.Alive) (hp : w.stage p ≠ .ended) (ho : w.Orderly p w')
    (hother : ∀ q, q ≠ p → w'.stage q = w.stage q) {c q : ℕ} (hq : w'.parent c = some q)
    (hc : w'.stage c ≠ .ended) : w'.stage q ≠ .ended := by
  obtain hq | ⟨rfl, hself⟩ := ho.parent c q hq
  · have hlive : w.stage c ≠ .ended := by
      by_cases hcp : c = p
      · rwa [hcp]
      · rwa [← hother c hcp]
    by_cases hqp : q = p
    · rw [hqp] at hq ⊢
      exact fun hended => hlive (ho.children hended c hq)
    · rw [hother q hqp]
      exact h.family c q hq hlive
  · exact hself

lemma Alive.step (h : w.Alive) (ha : Harmless w a) (hstep : SysStep w a w') : w'.Alive := by
  obtain ⟨hfile, htable⟩ : (∀ ptr, w.kernel.file ptr ≠ none → w'.kernel.file ptr ≠ none) ∧
      w'.kernel.TableOpen := by
    obtain ⟨n, hk⟩ | ⟨p, e, c, rfl, hp, hk⟩ := hstep.kernel_cases
    · rw [hk]
      exact ⟨fun _ => id, h.table⟩
    · rw [hk]
      exact ⟨(h.survived ha hp).file, (h.survived ha hp).table⟩
  have ho := h.orderly ha hstep
  refine ⟨ho.up, htable, fun p c ptr hc hptr => hfile ptr ?_, fun c q hq hc =>
    h.family_step hstep.live ho (fun q => hstep.stage_ne) hq hc⟩
  obtain ⟨hcrit, -⟩ | ⟨e, esp, -, hval, -⟩ := hstep.critical_cases hc
  · exact h.found p c ptr hcrit hptr
  · exact h.table.found hval hptr

end World

end Pintos
