import Mathlib.Logic.Relation
import Mathlib.Order.Defs.PartialOrder

/-!
# Machinery/Stopping — computations over a state that may stop

`EStateM ε σ` passes a state along, with early stops that keep it. The rules below take a finished
computation apart into the computations it is made of.
-/

namespace Machinery

open Relation

lemma succ_of_lt {i turns : Nat} (h : i < turns) : ∃ n, turns = n + 1 :=
  Nat.exists_eq_add_one_of_ne_zero (Nat.ne_zero_of_lt h)

variable {ε σ τ α β : Type} {x : EStateM ε σ α} {f : α → EStateM ε σ β}

/-- A sequence that ends well ended well twice. -/
lemma run_bind_ok {s s'' : σ} {b : β} :
    (x >>= f).run s = .ok b s'' ↔ ∃ a s', x.run s = .ok a s' ∧ (f a).run s' = .ok b s'' := by
  rw [EStateM.run_bind]
  cases x.run s with
  | ok a s' =>
    refine ⟨fun h => ⟨a, s', rfl, h⟩, ?_⟩
    rintro ⟨_, _, h, hf⟩
    cases h
    exact hf
  | error e s' => simp

/-- The state a computation ends in, well or not. -/
def final : EStateM.Result ε σ α → σ
  | .ok _ s => s
  | .error _ s => s

/-- The frame rule: a transitive relation of before and after holds of a sequence if of its parts.
-/
lemma final_bind {R : σ → σ → Prop} (htrans : ∀ a b c, R a b → R b c → R a c)
    {s : σ} (hx : R s (final (x.run s)))
    (hf : ∀ a s', x.run s = .ok a s' → R s' (final ((f a).run s'))) :
    R s (final ((x >>= f).run s)) := by
  rw [EStateM.run_bind]
  cases h : x.run s with
  | ok a s' =>
    rw [h] at hx
    exact htrans _ _ _ hx (hf a s' h)
  | error e s' =>
    rwa [h] at hx

lemma trail_bind {r : σ → σ → Prop} {s : σ}
    (hx : ReflTransGen r s (final (x.run s)))
    (hf : ∀ a s', x.run s = .ok a s' → ReflTransGen r s' (final ((f a).run s'))) :
    ReflTransGen r s (final ((x >>= f).run s)) := final_bind (fun _ _ _ => .trans) hx hf

lemma of_trail {r R : σ → σ → Prop} (hrefl : ∀ a, R a a) (htrans : ∀ a b c, R a b → R b c → R a c)
    (hstep : ∀ a b, r a b → R a b) {a b : σ} (h : ReflTransGen r a b) : R a b := by
  induction h with
  | refl => exact hrefl a
  | tail _ hlast ih => exact htrans _ _ _ ih (hstep _ _ hlast)

@[simp] lemma run_throw {e : ε} {s : σ} :
    (throw e : EStateM ε σ α).run s = .error e s := rfl

/-- A test of how a computation ended: well, and with `p`. -/
def endsWith (p : α → σ → Bool) : EStateM.Result ε σ α → Bool
  | .ok a s => p a s
  | .error _ _ => false

lemma endsWith_iff {p : α → σ → Bool} {r : EStateM.Result ε σ α} :
    endsWith p r = true ↔ ∃ a s, r = .ok a s ∧ p a s = true := by
  constructor
  · intro h
    rcases r with ⟨a, s⟩ | ⟨e, s⟩
    · exact ⟨a, s, rfl, h⟩
    · cases h
  · rintro ⟨a, s, rfl, h⟩
    exact h

lemma ok_of_endsWith {r : EStateM.Result ε σ α} (h : endsWith (fun _ _ => true) r = true) :
    ∃ a, r = .ok a (final r) := by
  obtain ⟨a, s, rfl, -⟩ := endsWith_iff.mp h
  exact ⟨a, rfl⟩

/-! ## What a computation never shrinks -/

/-- Wherever `x` ends from `s`, well or not, `f` is no less than it was. -/
def Grows {P : Type*} [Preorder P] (f : σ → P) (x : EStateM ε σ α) (s : σ) : Prop :=
  f s ≤ f (final (x.run s))

section Grows

variable {P : Type*} [Preorder P] {f : σ → P} {s : σ}

lemma grows_pure (a : α) : Grows f (pure a : EStateM ε σ α) s := le_rfl

lemma grows_throw (e : ε) : Grows f (throw e : EStateM ε σ α) s := le_rfl

lemma grows_bind {x : EStateM ε σ α} {k : α → EStateM ε σ β} (hx : Grows f x s)
    (hk : ∀ a s', x.run s = .ok a s' → Grows f (k a) s') : Grows f (x >>= k) s :=
  final_bind (R := fun s s' => f s ≤ f s') (fun _ _ _ => le_trans) hx hk

lemma grows_get_bind {k : σ → EStateM ε σ α} (hk : Grows f (k s) s) : Grows f (get >>= k) s := hk

lemma grows_modify {g : σ → σ} (h : f s ≤ f (g s)) :
    Grows f (modify g : EStateM ε σ PUnit) s := h

lemma grows_set {t : σ} (h : f s ≤ f t) : Grows f (set t : EStateM ε σ PUnit) s := h

end Grows

/-! ## Building blocks -/

/-- A computation that stops with `e` unless `c`. -/
def require (e : ε) (c : Prop) [Decidable c] : EStateM ε σ Unit := if c then pure () else throw e

/-- What an option holds; a stop with `e` if it holds nothing. -/
def orThrow (e : ε) : Option α → EStateM ε σ α
  | some a => pure a
  | none => throw e

/-- A computation over a part of the state. The part is put back, also after a stop. -/
def onPart (part : τ → σ) (put : τ → σ → τ) (x : EStateM ε σ α) : EStateM ε τ α := fun t =>
  match x.run (part t) with
  | .ok a s => .ok a (put t s)
  | .error e s => .error e (put t s)

section OnPart

variable {part : τ → σ} {put : τ → σ → τ} {x : EStateM ε σ α} {s : σ} {t : τ}

lemma run_onPart_ok {a : α} (h : x.run (part t) = .ok a s) :
    (onPart part put x).run t = .ok a (put t s) := by
  rw [EStateM.run, onPart, h]

lemma run_onPart_error {e : ε} (h : x.run (part t) = .error e s) :
    (onPart part put x).run t = .error e (put t s) := by
  rw [EStateM.run, onPart, h]

end OnPart

/-! ## Computations that end well -/

/-- From `s`, `x` ends well, with `Q`. -/
def Does (x : EStateM ε σ α) (s : σ) (Q : α → σ → Prop) : Prop :=
  ∃ a s', x.run s = .ok a s' ∧ Q a s'

section

variable {s s' : σ} {Q Q' : α → σ → Prop} {R : Unit → σ → Prop} {x y : EStateM ε σ α}
  {z : EStateM ε σ β} {a : α} {e : ε} {c : Prop} [Decidable c] {part : τ → σ} {put : τ → σ → τ}

lemma does_of_run (h : x.run s = .ok a s') (hQ : Q a s') : Does x s Q := ⟨a, s', h, hQ⟩

lemma Does.mono (h : Does x s Q) (hQ : ∀ a s', Q a s' → Q' a s') : Does x s Q' := by
  obtain ⟨a, s', hx, h⟩ := h
  exact ⟨a, s', hx, hQ a s' h⟩

/-- How the computation went, of one that is known to end well. -/
lemma Does.of_run (h : Does x s Q) (hx : x.run s = .ok a s') : Q a s' := by
  obtain ⟨b, t, hb, hQ⟩ := h
  cases hx.symm.trans hb
  exact hQ

/-- Of a computation whose end is known, that end is what there is to say. -/
lemma does_iff_of_run (h : x.run s = .ok a s') :
    Does x s Q ↔ Q a s' := ⟨fun hx => hx.of_run h, does_of_run h⟩

@[simp] lemma does_pure (a : α) : Does (pure a : EStateM ε σ α) s Q ↔ Q a s := does_iff_of_run rfl

/-- A sequence ends well if its parts do, one after the other. -/
@[simp] lemma does_bind {f : β → EStateM ε σ α} :
    Does (z >>= f) s Q ↔ Does z s fun b s' => Does (f b) s' Q := by
  constructor
  · rintro ⟨a, s'', h, hQ⟩
    obtain ⟨b, s', hx, hf⟩ := run_bind_ok.mp h
    exact ⟨b, s', hx, a, s'', hf, hQ⟩
  · rintro ⟨b, s', hx, a, s'', hf, hQ⟩
    exact ⟨a, s'', run_bind_ok.mpr ⟨b, s', hx, hf⟩, hQ⟩

@[simp] lemma does_get {Q : σ → σ → Prop} : Does (get : EStateM ε σ σ) s Q ↔ Q s s :=
  does_iff_of_run rfl

@[simp] lemma does_set (t : σ) :
    Does (set t : EStateM ε σ PUnit) s R ↔ R ⟨⟩ t := does_iff_of_run rfl

@[simp] lemma does_modify (f : σ → σ) :
    Does (modify f : EStateM ε σ PUnit) s R ↔ R ⟨⟩ (f s) := does_iff_of_run rfl

@[simp] lemma does_require : Does (require e c) s R ↔ c ∧ R () s := by
  by_cases hc : c
  · rw [require, if_pos hc, does_pure]
    exact (and_iff_right hc).symm
  · rw [require, if_neg hc]
    refine iff_of_false ?_ fun h => hc h.1
    rintro ⟨_, _, h, -⟩
    cases h

@[simp] lemma does_orThrow {o : Option α} :
    Does (orThrow e o) s Q ↔ ∃ a, o = some a ∧ Q a s := by
  cases o with
  | none => exact ⟨nofun, nofun⟩
  | some a => exact (does_pure a).trans (by simp)

@[simp] lemma does_onPart {t : τ} {Q : α → τ → Prop} :
    Does (onPart part put x) t Q ↔ Does x (part t) fun a s => Q a (put t s) := by
  cases h : x.run (part t) with
  | ok a s =>
    rw [does_iff_of_run h, does_iff_of_run (run_onPart_ok h)]
  | error e s => simp [Does, run_onPart_error h, h]

/-- What a computation returns is thrown away. -/
lemma does_discard : Does (do let _ ← z) s R ↔ Does z s fun _ s' => R () s' := by
  simp only [does_bind, does_pure]

lemma does_ite :
    Does (if c then x else y) s Q ↔ (c → Does x s Q) ∧ (¬ c → Does y s Q) := by
  split <;> simp [*]

/-! ## Computations that may stop -/

/-- If `x` ends well from `s`, then with `Q`. -/
def Gives (x : EStateM ε σ α) (s : σ) (Q : α → σ → Prop) : Prop :=
  ∀ a s', x.run s = .ok a s' → Q a s'

lemma Does.gives (h : Does x s Q) : Gives x s Q := fun _ _ hx => h.of_run hx

lemma Gives.does (h : Gives x s Q) (hx : Does x s fun _ _ => True) :
    Does x s Q := by
  obtain ⟨a, s', hrun, -⟩ := hx
  exact ⟨a, s', hrun, h a s' hrun⟩

lemma Gives.mono (h : Gives x s Q) (hQ : ∀ a s', Q a s' → Q' a s') :
    Gives x s Q' := fun a s' hx => hQ a s' (h a s' hx)

lemma gives_iff_of_run (h : x.run s = .ok a s') :
    Gives x s Q ↔ Q a s' := ⟨fun hx => hx a s' h, fun hQ => (does_of_run h hQ).gives⟩

@[simp] lemma gives_pure (a : α) : Gives (pure a : EStateM ε σ α) s Q ↔ Q a s :=
  gives_iff_of_run rfl

@[simp] lemma gives_throw (e : ε) : Gives (throw e : EStateM ε σ α) s Q ↔ True :=
  iff_of_true nofun trivial

@[simp] lemma gives_bind {f : β → EStateM ε σ α} :
    Gives (z >>= f) s Q ↔ Gives z s fun b s' => Gives (f b) s' Q := by
  constructor
  · intro h b s' hx a s'' hf
    exact h a s'' (run_bind_ok.mpr ⟨b, s', hx, hf⟩)
  · intro h a s'' hxf
    obtain ⟨b, s', hx, hf⟩ := run_bind_ok.mp hxf
    exact h b s' hx a s'' hf

@[simp] lemma gives_get {Q : σ → σ → Prop} : Gives (get : EStateM ε σ σ) s Q ↔ Q s s :=
  gives_iff_of_run rfl

@[simp] lemma gives_set (t : σ) :
    Gives (set t : EStateM ε σ PUnit) s R ↔ R ⟨⟩ t := gives_iff_of_run rfl

@[simp] lemma gives_modify (f : σ → σ) :
    Gives (modify f : EStateM ε σ PUnit) s R ↔ R ⟨⟩ (f s) := gives_iff_of_run rfl

lemma gives_discard : Gives (do let _ ← z) s R ↔ Gives z s fun _ s' => R () s' := by
  simp only [gives_bind, gives_pure]

lemma gives_ite :
    Gives (if c then x else y) s Q ↔ (c → Gives x s Q) ∧ (¬ c → Gives y s Q) := by
  split <;> simp [*]

@[simp] lemma gives_require : Gives (require e c) s R ↔ (c → R () s) := by
  rw [require, gives_ite]
  simp

@[simp] lemma gives_orThrow {o : Option α} :
    Gives (orThrow e o) s Q ↔ ∀ a, o = some a → Q a s := by
  cases o with
  | none => exact iff_of_true nofun nofun
  | some a => exact (gives_pure a).trans (by simp)

@[simp] lemma gives_onPart {t : τ} {Q : α → τ → Prop} :
    Gives (onPart part put x) t Q ↔ Gives x (part t) fun a s => Q a (put t s) := by
  cases h : x.run (part t) with
  | ok a s =>
    rw [gives_iff_of_run h, gives_iff_of_run (run_onPart_ok h)]
  | error e s => simp [Gives, run_onPart_error h, h]

end

end Machinery
