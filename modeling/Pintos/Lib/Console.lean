import Pintos.Threads.Signals

/-!
# Lib/Console — the console lock

A thread that has the console lock may acquire it again. How often it has is counted in a plain
variable, by which alone it is decided whether a release gives up the lock:

    acquire_console   is the lock mine?   yes: console_lock_depth++    no: lock_acquire
    release_console   is the depth > 0?   yes: console_lock_depth--    no: lock_release

Threads may be interrupted between any two loads and stores. This is outside of interrupts and with
`use_console_lock` set; otherwise the calls do nothing. `vprintf`, `puts`, `putbuf` and `putchar` are
an acquire, characters, and a release. A nesting too deep for an `int` does not fit on a kernel stack,
and the depth is any whole number here.
-/

namespace Pintos

open Machinery Function Option Monitors

/-- Where a thread is in `acquire_console` or `release_console`. -/
inductive ConsoleStage
  | idle
  /-- Before `lock_acquire`. -/
  | entering
  | locking
  /-- Before `console_lock_depth++` and `console_lock_depth--`. -/
  | deepening
  | rising
  /-- Before `depth` is stored, with which the thread is `nesting` deep. -/
  | storing (depth : ℤ) (nesting : ℕ)
  /-- Before `lock_release`. -/
  | leaving
  | unlocking
  deriving DecidableEq

/-- The console lock and its depth. `nesting` is a note: how often a thread has acquired it and not
released it. -/
structure Console where
  monitors : Monitors
  depth : ℤ
  writeCnt : ℕ
  stage : ℕ → ConsoleStage
  nesting : ℕ → ℕ

/-- Calls of a thread, and going on in one. -/
inductive ConsoleLabel
  | acquireConsole (t : ℕ)
  | releaseConsole (t : ℕ)
  | putcharHaveLock (t : ℕ)
  | go (t : ℕ)

/-- `console_lock`, one of the locks. -/
def consoleLock : ℕ := 0

namespace Console

def moveTo (w : Console) (t : ℕ) (s : ConsoleStage) : Console := { w with stage := update w.stage t s }

def renest (w : Console) (t n : ℕ) : Console := { w with nesting := update w.nesting t n }

/-- `console_locked_by_current_thread`, for the thread `t`. -/
def lockedBy (w : Console) (t : ℕ) : Prop := w.monitors.lockHeldBy consoleLock t

instance (w : Console) (t : ℕ) : Decidable (w.lockedBy t) := inferInstanceAs (Decidable (_ = _))

/-- Going on, as far as the lock lets it and what it asserts is true. -/
def go (w : Console) (t : ℕ) : Option Console :=
  match w.stage t with
  | .idle => none
  | .entering => (w.monitors.act (.lockAcquire t consoleLock)).map fun m =>
      { w with monitors := m }.moveTo t .locking
  | .locking => (w.monitors.go t).map fun m =>
      if m.place t = .outside then ({ w with monitors := m }.renest t 1).moveTo t .idle
      else { w with monitors := m }.moveTo t .locking
  | .deepening => some (w.moveTo t (.storing (w.depth + 1) (w.nesting t + 1)))
  | .rising => some (w.moveTo t (.storing (w.depth - 1) (w.nesting t - 1)))
  | .storing depth nesting => some (({ w with depth := depth }.renest t nesting).moveTo t .idle)
  | .leaving => (w.monitors.act (.lockRelease t consoleLock)).map fun m =>
      ({ w with monitors := m }.renest t (w.nesting t - 1)).moveTo t .unlocking
  | .unlocking => (w.monitors.go t).map fun m => { w with monitors := m }.moveTo t .idle

/-- What a label does. A release, and a character, is for a thread that has acquired the console. -/
def act (w : Console) : ConsoleLabel → Option Console
  | .acquireConsole t =>
    if w.stage t = .idle then some (w.moveTo t (if w.lockedBy t then .deepening else .entering)) else none
  | .releaseConsole t =>
    if w.stage t = .idle ∧ 0 < w.nesting t then
      some (w.moveTo t (if 0 < w.depth then .rising else .leaving))
    else none
  | .putcharHaveLock t =>
    if w.stage t = .idle ∧ 0 < w.nesting t ∧ w.lockedBy t then
      some { w with writeCnt := w.writeCnt + 1 }
    else none
  | .go t => w.go t

/-- Every interleaving, from a console that nobody uses. -/
def system : System Console ConsoleLabel where
  init w := ∃ m, Monitors.system.init m ∧ w = ⟨m, 0, 0, fun _ => .idle, fun _ => 0⟩
  step w a w' := w.act a = some w'

/-! ## The invariant -/

/-- The place of a thread in the lock, and its nesting, fit its stage. -/
def Fits : ConsoleStage → Place → ℕ → Prop
  | .idle, p, _ => p = .outside
  | .entering, p, n => p = .outside ∧ n = 0
  | .locking, p, n => (p = .acquiring consoleLock none ∨ p = .acquireAsleep consoleLock none ∨
      p = .acquired consoleLock none) ∧ n = 0
  | .deepening, p, n => p = .outside ∧ 0 < n
  | .rising, p, n => p = .outside ∧ 1 < n
  | .storing depth nesting, p, n => p = .outside ∧ 0 < n ∧ 0 < nesting ∧ depth = nesting - 1
  | .leaving, p, n => p = .outside ∧ n = 1
  | .unlocking, p, n => p = .releasing consoleLock none ∧ n = 0

/-- Who is inside has the lock, and the depth is that thread's. -/
structure Ok (w : Console) : Prop where
  reachable : Monitors.system.Reachable w.monitors
  holder : ∀ t, w.lockedBy t ↔ 0 < w.nesting t
  depth : ∀ t, 0 < w.nesting t → w.depth = w.nesting t - 1
  free : (∀ t, w.nesting t = 0) → w.depth = 0
  fits : ∀ t, Fits (w.stage t) (w.monitors.place t) (w.nesting t)

lemma Fits.awake {s : ConsoleStage} {p : Place} {n : ℕ} (h : Fits s p n) : Fits s p.awake n := by
  cases s with
  | idle => rw [show p = .outside from h]; rfl
  | locking =>
    obtain ⟨rfl | rfl | rfl, hn⟩ := h
    · exact ⟨.inl rfl, hn⟩
    · exact ⟨.inl rfl, hn⟩
    · exact ⟨.inr (.inr rfl), hn⟩
  | _ => exact ⟨by rw [h.1]; rfl, h.2⟩

section

variable {w : Console} {m : Monitors} {s : ConsoleStage} {t n : ℕ} (h : Ok w)

include h

lemma Ok.one {u : ℕ} (ht : 0 < w.nesting t) (hu : 0 < w.nesting u) : t = u :=
  Option.some.inj (((h.holder t).mpr ht).symm.trans ((h.holder u).mpr hu))

/-- A step that changes neither the holder nor the nesting. -/
lemma Ok.same (hreach : Monitors.system.Reachable m)
    (hholder : (m.lock consoleLock).holder = (w.monitors.lock consoleLock).holder)
    (hplace : ∀ u ≠ t, m.place u = w.monitors.place u ∨ m.place u = (w.monitors.place u).awake)
    (hfit : Fits s (m.place t) (w.nesting t)) : Ok ({ w with monitors := m }.moveTo t s) := by
  refine ⟨hreach, fun u => ?_, h.depth, h.free, fun u => ?_⟩
  · have hiff := h.holder u
    rwa [lockedBy, lockHeldBy, ← hholder] at hiff
  · show Fits (update w.stage t s u) (m.place u) (w.nesting u)
    by_cases hu : u = t
    · rwa [hu, update_self]
    · rw [update_of_ne hu]
      obtain heq | heq := hplace u hu <;> rw [heq]
      · exact h.fits u
      · exact (h.fits u).awake

lemma Ok.moveTo (hfit : Fits s (w.monitors.place t) (w.nesting t)) : Ok (w.moveTo t s) :=
  h.same h.reachable rfl (fun _ _ => .inl rfl) hfit

/-- A step by which `t` is `n` deep, and nobody else is inside. -/
lemma Ok.renest {d : ℤ} (hreach : Monitors.system.Reachable m)
    (hholder : (m.lock consoleLock).holder = if 0 < n then some t else none)
    (hnone : ∀ u ≠ t, w.nesting u = 0) (hd : d = (n - 1 : ℕ))
    (hplace : ∀ u ≠ t, m.place u = w.monitors.place u) (hfit : Fits s (m.place t) n) :
    Ok (({ w with monitors := m, depth := d }.renest t n).moveTo t s) := by
  refine ⟨hreach, fun u => ?_, fun u hu => ?_, fun hzero => ?_, fun u => ?_⟩
  · show (m.lock consoleLock).holder = some u ↔ 0 < update w.nesting t n u
    rw [hholder]
    by_cases hu : u = t
    · rw [hu]
      split_ifs with hn <;> simp [hn]
    · rw [update_of_ne hu, hnone u hu]
      split_ifs <;> simp [Ne.symm hu]
  · have hu : 0 < update w.nesting t n u := hu
    have hut : u = t := by
      by_contra hne
      rw [update_of_ne hne, hnone u hne] at hu
      exact absurd hu (Nat.lt_irrefl 0)
    rw [hut, update_self] at hu
    show d = (update w.nesting t n u : ℕ) - 1
    rw [hut, update_self]
    omega
  · have hn : update w.nesting t n t = 0 := hzero t
    rw [update_self] at hn
    show d = 0
    omega
  · show Fits (update w.stage t s u) (m.place u) (update w.nesting t n u)
    by_cases hu : u = t
    · rwa [hu, update_self, update_self]
    · rw [update_of_ne hu, update_of_ne hu, hplace u hu]
      exact h.fits u

omit h in
lemma holder_setSemaphore (m : Monitors) (l : ℕ) (sema : Semaphore) :
    ((m.setSemaphore l sema).lock l).holder = (m.lock l).holder := by
  simp only [setSemaphore, update_self]

omit h in
lemma holder_note (m : Monitors) (l t : ℕ) (b : Bool) :
    ((m.note l t b).lock l).holder = if b then some t else none := by
  simp only [note, update_self]

omit h in
lemma testLock_spec (m : Monitors) (t l : ℕ) (why : Purpose) :
    ((m.testLock t l why).place t = .acquireAsleep l why ∨ (m.testLock t l why).place t = .acquired l why) ∧
      ((m.testLock t l why).lock l).holder = (m.lock l).holder ∧
      ∀ u ≠ t, (m.testLock t l why).place u = m.place u := by
  unfold testLock
  split
  · exact ⟨.inl (update_self ..), holder_setSemaphore .., fun _ hu => update_of_ne hu ..⟩
  · exact ⟨.inr (update_self ..), holder_setSemaphore .., fun _ hu => update_of_ne hu ..⟩

/-- Nobody is inside when the lock has been taken and its holder is not yet noted. -/
lemma Ok.nesting_eq_zero (ht : w.monitors.place t = .acquired consoleLock none) (u : ℕ) :
    w.nesting u = 0 := by
  have hexcl := (orderly_of_reachable h.reachable).exclusive consoleLock
  have hin : (w.monitors.place t).inside = some consoleLock := by rw [ht]; rfl
  by_contra hne
  have hhas := (hexcl.holder u).mp ((h.holder u).mpr (Nat.pos_of_ne_zero hne))
  obtain rfl := hexcl.one u t (.inl hhas) (.inr hin)
  exact absurd hhas (by rw [hexcl.unnoted u hin]; exact Bool.false_ne_true)

lemma Ok.others (ht : 0 < w.nesting t) (u : ℕ) (hu : u ≠ t) : w.nesting u = 0 := by
  by_contra hne
  exact hu (h.one (Nat.pos_of_ne_zero hne) ht)

variable {w' : Console}

lemma Ok.locking (hfits : Fits .locking (w.monitors.place t) (w.nesting t)) (hm : w.monitors.go t = some m) :
    Ok (if m.place t = .outside then ({ w with monitors := m }.renest t 1).moveTo t .idle
      else { w with monitors := m }.moveTo t .locking) := by
  have hreach : Monitors.system.Reachable m := .next h.reachable trivial (a := .go t) hm
  obtain ⟨hp | hp | hp, hn⟩ := hfits
  · have hgo : w.monitors.go t = some (w.monitors.testLock t consoleLock none) := by rw [Monitors.go, hp]
    cases hgo.symm.trans hm
    obtain ⟨hplace, hholder, hothers⟩ := testLock_spec w.monitors t consoleLock none
    rw [if_neg (by obtain heq | heq := hplace <;> rw [heq] <;> exact Place.noConfusion)]
    exact h.same hreach hholder (fun u hu => .inl (hothers u hu)) ⟨.inr hplace, hn⟩
  · rw [Monitors.go, hp] at hm
    cases hm
  · have hgo : w.monitors.go t = some ((w.monitors.note consoleLock t true).move t .outside) := by
      rw [Monitors.go, hp]
    cases hgo.symm.trans hm
    have hzero := h.nesting_eq_zero hp
    rw [if_pos (Monitors.place_move_self ..)]
    exact h.renest hreach (holder_note ..) (fun u _ => hzero u) (h.free hzero)
      (fun u hu => update_of_ne hu ..) (update_self ..)

lemma Ok.go (hstep : w.go t = some w') : Ok w' := by
  have hfits := h.fits t
  unfold Console.go at hstep
  generalize w.stage t = s at hfits hstep
  cases s with
  | idle => cases hstep
  | entering =>
    obtain ⟨m, hm, rfl⟩ := map_eq_some_iff.mp hstep
    obtain ⟨-, hmove⟩ := ite_none_right_eq_some.mp hm
    cases hmove
    exact h.same (.next h.reachable trivial hm) rfl (fun u hu => .inl (update_of_ne hu ..))
      ⟨.inl (update_self ..), hfits.2⟩
  | locking =>
    obtain ⟨m, hm, rfl⟩ := map_eq_some_iff.mp hstep
    exact h.locking hfits hm
  | deepening =>
    cases hstep
    have hd := h.depth t hfits.2
    exact h.moveTo ⟨hfits.1, hfits.2, Nat.succ_pos _, by omega⟩
  | rising =>
    cases hstep
    obtain ⟨hp, hn⟩ := hfits
    have hd := h.depth t (by omega)
    exact h.moveTo ⟨hp, by omega, by omega, by omega⟩
  | storing d n =>
    cases hstep
    obtain ⟨hp, ht, hn, hd⟩ := hfits
    refine h.renest h.reachable ?_ (h.others ht) (by omega) (fun _ _ => rfl) hp
    rw [if_pos hn]
    exact (h.holder t).mpr ht
  | leaving =>
    obtain ⟨m, hm, rfl⟩ := map_eq_some_iff.mp hstep
    obtain ⟨-, hmove⟩ := ite_none_right_eq_some.mp hm
    cases hmove
    obtain ⟨-, hn⟩ := hfits
    have hd := h.depth t (by omega)
    rw [hn] at hd ⊢
    exact h.renest (.next h.reachable trivial hm) (holder_note ..)
      (h.others (by omega)) (by omega) (fun u hu => update_of_ne hu ..) ⟨update_self .., rfl⟩
  | unlocking =>
    obtain ⟨m, hm, rfl⟩ := map_eq_some_iff.mp hstep
    have hgo : w.monitors.go t = some (w.monitors.upLock t consoleLock none) := by
      rw [Monitors.go, hfits.1]
    have hreach : Monitors.system.Reachable m := .next h.reachable trivial (a := .go t) hm
    cases hgo.symm.trans hm
    refine h.same hreach ?_ (fun u hu => ?_) (update_self ..)
    · show ((Monitors.wake _ _).lock consoleLock).holder = _
      rw [Monitors.lock_wake]
      exact holder_setSemaphore ..
    · rw [Monitors.upLock, Monitors.place_move_of_ne _ _ hu, Monitors.place_wake]
      split
      · exact .inr rfl
      · exact .inl rfl

lemma Ok.step {a : ConsoleLabel} (hstep : w.act a = some w') : Ok w' := by
  cases a with
  | acquireConsole t =>
    obtain ⟨hidle, hw⟩ := ite_none_right_eq_some.mp hstep
    cases hw
    have hfits := h.fits t
    rw [hidle] at hfits
    split_ifs with hl
    · exact h.moveTo ⟨hfits, (h.holder t).mp hl⟩
    · exact h.moveTo ⟨hfits, Nat.eq_zero_of_not_pos ((h.holder t).not.mp hl)⟩
  | releaseConsole t =>
    obtain ⟨⟨hidle, hpos⟩, hw⟩ := ite_none_right_eq_some.mp hstep
    cases hw
    have hfits := h.fits t
    have hd := h.depth t hpos
    rw [hidle] at hfits
    split_ifs with hdepth
    · exact h.moveTo ⟨hfits, by omega⟩
    · exact h.moveTo ⟨hfits, by omega⟩
  | putcharHaveLock t =>
    obtain ⟨-, hw⟩ := ite_none_right_eq_some.mp hstep
    cases hw
    exact ⟨h.reachable, h.holder, h.depth, h.free, h.fits⟩
  | go t => exact h.go hstep

end

lemma ok_of_reachable {w : Console} (hw : system.Reachable w) : Ok w := by
  refine hw.invariant (fun w hinit => ?_) fun _ _ _ h _ hstep => h.step hstep
  obtain ⟨m, hm, rfl⟩ := hinit
  have hreach := System.Reach.start (G := fun _ _ => True) hm
  obtain rfl := hm
  refine ⟨hreach, fun t => ?_, fun t ht => absurd ht (Nat.lt_irrefl 0), fun _ => rfl, fun t => rfl⟩
  exact iff_of_false (fun hholder => by cases hholder) (Nat.lt_irrefl 0)

/-- **Recursive console locking.** Who is inside has the lock; the depth is one less than its
nesting, and 0 if there is none; and one thread at most is inside. What `lock_release`,
`lock_acquire` and `putchar_have_lock` assert is true. -/
theorem console_lock_recursive {w : Console} (hw : system.Reachable w) :
    (∀ t, 0 < w.nesting t ↔ w.lockedBy t) ∧ (∀ t, w.lockedBy t → w.depth = w.nesting t - 1) ∧
      ((w.monitors.lock consoleLock).holder = none → w.depth = 0) ∧
      (∀ t, w.stage t = .rising ∨ w.stage t = .leaving → w.lockedBy t) ∧
      (∀ t, w.stage t = .leaving ∨ w.stage t = .entering → ∃ w', w.act (.go t) = some w') ∧
      (∀ t, w.stage t = .idle → 0 < w.nesting t → ∃ w', w.act (.putcharHaveLock t) = some w') ∧
      ∀ t u, 0 < w.nesting t → 0 < w.nesting u → t = u := by
  have h := ok_of_reachable hw
  refine ⟨fun t => (h.holder t).symm, fun t ht => h.depth t ((h.holder t).mp ht), fun hnone => h.free fun t => ?_,
    fun t ht => (h.holder t).mpr ?_, fun t ht => ?_, fun t hidle ht => ⟨_, if_pos ⟨hidle, ht, (h.holder t).mpr ht⟩⟩,
    fun t u => h.one⟩
  · refine Nat.eq_zero_of_not_pos fun ht => ?_
    cases hnone.symm.trans ((h.holder t).mpr ht)
  · have hfits := h.fits t
    obtain hs | hs := ht <;> rw [hs] at hfits
    · exact Nat.lt_of_succ_lt hfits.2
    · exact hfits.2 ▸ Nat.one_pos
  · have hfits := h.fits t
    show ∃ w', w.go t = some w'
    obtain hs | hs := ht <;> rw [hs] at hfits <;> rw [Console.go, hs]
    · have hheld : w.monitors.lockHeldBy consoleLock t := (h.holder t).mpr (hfits.2 ▸ Nat.one_pos)
      simp only [Monitors.act, if_pos (And.intro hfits.1 hheld), Option.map_some, Option.some.injEq, exists_eq']
    · have hheld : ¬ w.monitors.lockHeldBy consoleLock t := (h.holder t).not.mpr (hfits.2 ▸ Nat.lt_irrefl 0)
      simp only [Monitors.act, if_pos (And.intro hfits.1 hheld), Option.map_some, Option.some.injEq, exists_eq']

/-- Thread 0 acquires the console twice, and thread 1 has to wait. -/
theorem console_lock_recursive_twice : ∃ w, system.Reachable w ∧
    w.monitors.place 1 = .acquireAsleep consoleLock none ∧ w.nesting 0 = 2 ∧ w.depth = 1 := by
  obtain ⟨w, -, hw, hplace, hnesting⟩ := System.exists_of_run (T := system) (G := fun _ _ => True)
    (P := fun w => w.monitors.place 1 = .acquireAsleep consoleLock none ∧ w.nesting 0 = 2)
    (l := [.acquireConsole 0, .go 0, .go 0, .go 0, .acquireConsole 1, .acquireConsole 0, .go 1, .go 0, .go 1, .go 0])
    (fun _ _ _ h => h) ⟨_, rfl, rfl⟩ (by decide)
  obtain ⟨hinside, hdepth, -⟩ := console_lock_recursive hw
  refine ⟨w, hw, hplace, hnesting, ?_⟩
  rw [hdepth 0 ((hinside 0).mp (by omega)), hnesting]
  rfl

end Console

end Pintos
