import Mathlib.Logic.Basic

/-!
# Machinery/Traced — computations that may stop and leave a trace

The record of a sequence is the records of its parts. Four readings of a computation, each with its
rule for sequences: `Within P`, everything on the record satisfies `P`; `Ends Q`, the way it ends
does; `Yields R`, what it returns does; and `Keeps view E`, it leaves what `view` sees as it is and
stops for reasons in `E` only.
-/

namespace Machinery

/-- How a computation went: what it recorded, its value or the reason it stopped, and the state. -/
structure Outcome (ε τ σ α : Type) where
  trace : List τ
  value : Except ε α
  state : σ

/-- Computations over `σ` that stop with an `ε` and record `τ`s. -/
def Traced (ε τ σ α : Type) : Type := σ → Outcome ε τ σ α

namespace Traced

variable {ε τ σ α β : Type}

instance : Monad (Traced ε τ σ) where
  pure a := fun s => ⟨[], .ok a, s⟩
  bind x f := fun s =>
    match x s with
    | ⟨l, .ok a, s'⟩ => ⟨l ++ (f a s').trace, (f a s').value, (f a s').state⟩
    | ⟨l, .error e, s'⟩ => ⟨l, .error e, s'⟩

def stop (e : ε) : Traced ε τ σ α := fun s => ⟨[], .error e, s⟩

def read : Traced ε τ σ σ := fun s => ⟨[], .ok s, s⟩

def update (f : σ → σ) : Traced ε τ σ Unit := fun s => ⟨[], .ok (), f s⟩

variable {x y : Traced ε τ σ α} {f : α → Traced ε τ σ β} {s : σ}

/-- A sequence that comes to its end came to it twice. -/
lemma value_bind {b : β} :
    ((x >>= f) s).value = .ok b ↔
      ∃ a, (x s).value = .ok a ∧ (f a (x s).state).value = .ok b := by
  simp only [bind]
  rcases x s with ⟨l, v, s'⟩
  cases v <;> simp

/-! ## What is recorded -/

/-- From `s` on, all that `x` records has `P`, and what it returns and leaves has `post`. -/
def Within (P : τ → Prop) (x : Traced ε τ σ α) (s : σ) (post : α → σ → Prop) : Prop :=
  (∀ t ∈ (x s).trace, P t) ∧ ∀ a, (x s).value = .ok a → post a (x s).state

section Within

variable {P : τ → Prop} {post post' : α → σ → Prop}

lemma within_true : Within P x s (fun _ _ => True) ↔ ∀ t ∈ (x s).trace, P t :=
  ⟨fun h => h.1, fun h => ⟨h, fun _ _ => trivial⟩⟩

lemma within_iff : Within P x s post ↔
    Within P x s (fun _ _ => True) ∧ ∀ a, (x s).value = .ok a → post a (x s).state :=
  and_congr_left fun _ => within_true.symm

@[simp] lemma within_pure (a : α) : Within P (pure a : Traced ε τ σ α) s post ↔ post a s :=
  ⟨fun h => h.2 a rfl, fun h => ⟨nofun, fun _ hb => Except.ok.inj hb ▸ h⟩⟩

@[simp] lemma within_stop (e : ε) : Within P (stop e : Traced ε τ σ α) s post ↔ True :=
  iff_of_true ⟨nofun, nofun⟩ trivial

@[simp] lemma within_update {g : σ → σ} {post : Unit → σ → Prop} :
    Within P (update g : Traced ε τ σ Unit) s post ↔ post () (g s) :=
  ⟨fun h => h.2 () rfl, fun h => ⟨nofun, fun _ _ => h⟩⟩

@[simp] lemma within_read {post : σ → σ → Prop} :
    Within P (read : Traced ε τ σ σ) s post ↔ post s s :=
  ⟨fun h => h.2 s rfl, fun h => ⟨nofun, fun _ hs => Except.ok.inj hs ▸ h⟩⟩

/-- The record of a sequence. -/
@[simp] lemma within_bind {post : β → σ → Prop} :
    Within P (x >>= f) s post ↔ Within P x s fun a s' => Within P (f a) s' post := by
  simp only [Within, bind]
  rcases x s with ⟨l, v, s'⟩
  cases v with
  | ok a => simp [or_imp, forall_and, and_assoc]
  | error e => simp

lemma within_ite {c : Prop} [Decidable c] :
    Within P (if c then x else y) s post ↔ (c → Within P x s post) ∧ (¬ c → Within P y s post) := by
  split <;> simp [*]

lemma within_congr (h : ∀ a s', post a s' ↔ post' a s') :
    Within P x s post ↔ Within P x s post' :=
  and_congr_right fun _ => forall_congr' fun a => imp_congr_right fun _ => h a _

end Within

/-! ## How it ends -/

/-- `x` ends, from `s`, with `Q`. -/
def Ends (Q : Except ε α → σ → Prop) (x : Traced ε τ σ α) (s : σ) : Prop :=
  Q (x s).value (x s).state

section Ends

variable {Q : Except ε α → σ → Prop}

@[simp] lemma ends_read {Q : Except ε σ → σ → Prop} :
    Ends Q (read : Traced ε τ σ σ) s ↔ Q (.ok s) s := Iff.rfl

lemma Ends.mono {Q' : Except ε α → σ → Prop} (h : Ends Q x s)
    (hQ : ∀ r s', Q r s' → Q' r s') : Ends Q' x s := hQ _ _ h

/-- What is asked of the first part of a sequence. -/
def Then (Q : Except ε β → σ → Prop) (f : α → Traced ε τ σ β) : Except ε α → σ → Prop
  | .ok a, s => Ends Q (f a) s
  | .error e, s => Q (.error e) s

/-- The end of a sequence. -/
lemma ends_bind {Q : Except ε β → σ → Prop} (x : Traced ε τ σ α) (f : α → Traced ε τ σ β) :
    Ends Q (x >>= f) s ↔ Ends (Then Q f) x s := by
  simp only [Ends, bind]
  rcases x s with ⟨l, v, s'⟩
  cases v <;> rfl

end Ends

/-! ## What it returns -/

/-- Whatever `x` returns from `s` satisfies `R`. -/
def Yields (R : α → Prop) (x : Traced ε τ σ α) (s : σ) : Prop := ∀ a, (x s).value = .ok a → R a

section Yields

variable {R : α → Prop}

lemma yields_pure {a : α} (h : R a) : Yields R (pure a : Traced ε τ σ α) s := by
  intro b hb
  rwa [← Except.ok.inj hb]

lemma yields_stop (e : ε) : Yields R (stop e : Traced ε τ σ α) s := nofun

/-- What a sequence returns, its second part does. -/
lemma Yields.bind {R : β → Prop}
    (h : ∀ a, (x s).value = .ok a → Yields R (f a) (x s).state) : Yields R (x >>= f) s := by
  intro b hb
  obtain ⟨a, ha, hb⟩ := value_bind.mp hb
  exact h a ha b hb

lemma yields_read_bind {f : σ → Traced ε τ σ α} (h : Yields R (f s) s) :
    Yields R (read >>= f) s := h

end Yields

/-! ## What it leaves alone -/

section Keeps

variable {ν μ : Type} {view : σ → ν} {E : ε → Prop}

/-- From `s` on, `x` leaves what `view` sees as it is, and stops only for the reasons in `E`. -/
def Keeps (view : σ → ν) (E : ε → Prop) (x : Traced ε τ σ α) (s : σ) : Prop :=
  view (x s).state = view s ∧ ∀ e, (x s).value = .error e → E e

lemma keeps_pure (a : α) : Keeps view E (pure a : Traced ε τ σ α) s := ⟨rfl, nofun⟩

lemma keeps_stop {e : ε} (he : E e) : Keeps view E (stop e : Traced ε τ σ α) s := by
  refine ⟨rfl, fun e' h => ?_⟩
  cases h
  exact he

lemma keeps_read : Keeps view E (read : Traced ε τ σ σ) s := ⟨rfl, nofun⟩

lemma keeps_update {f : σ → σ} (h : view (f s) = view s) :
    Keeps view E (update f : Traced ε τ σ Unit) s := ⟨h, nofun⟩

/-- A sequence leaves alone what its parts do. -/
lemma Keeps.bind (hx : Keeps view E x s)
    (hf : ∀ a, (x s).value = .ok a → Keeps view E (f a) (x s).state) :
    Keeps view E (x >>= f) s := by
  obtain ⟨hview, hE⟩ := hx
  simp only [Keeps, Bind.bind]
  rcases hxs : x s with ⟨l, v, s'⟩
  rw [hxs] at hview hE hf
  cases v with
  | ok a =>
    obtain ⟨hview', hE'⟩ := hf a rfl
    exact ⟨hview'.trans hview, hE'⟩
  | error e =>
    refine ⟨hview, fun e' h => hE e' ?_⟩
    cases h
    rfl

lemma keeps_read_bind {f : σ → Traced ε τ σ α} (h : Keeps view E (f s) s) :
    Keeps view E (read >>= f) s := h

/-- The end of a sequence whose first part leaves things alone. -/
lemma Keeps.ends_bind {Q : Except ε β → σ → Prop} (hx : Keeps view E x s)
    (hf : ∀ a, (x s).value = .ok a → view (x s).state = view s → Ends Q (f a) (x s).state)
    (he : ∀ e s', E e → view s' = view s → Q (.error e) s') : Ends Q (x >>= f) s := by
  obtain ⟨hview, hE⟩ := hx
  simp only [Ends, Bind.bind]
  rcases hxs : x s with ⟨l, v, s'⟩
  rw [hxs] at hview hE hf
  cases v with
  | ok a => exact hf a rfl hview
  | error e => exact he e s' (hE e rfl) hview

lemma Keeps.state_eq (h : Keeps id E x s) : (x s).state = s := h.1

/-- `x` changes nothing: it returns something with `R`, or stops for a reason in `E`. -/
def Goes (R : α → Prop) (E : ε → Prop) (x : Traced ε τ σ α) (s : σ) : Prop :=
  Keeps id E x s ∧ Yields R x s

variable {R : α → Prop}

lemma goes_pure {a : α} (h : R a) : Goes R E (pure a : Traced ε τ σ α) s :=
  ⟨keeps_pure a, yields_pure h⟩

lemma goes_stop {e : ε} (he : E e) : Goes R E (stop e : Traced ε τ σ α) s :=
  ⟨keeps_stop he, yields_stop e⟩

lemma Keeps.goes_bind {R : β → Prop} (hx : Keeps id E x s)
    (hf : ∀ a, (x s).value = .ok a → Goes R E (f a) s) : Goes R E (x >>= f) s := by
  have hs := hx.state_eq
  refine ⟨hx.bind fun a ha => ?_, .bind fun a ha => ?_⟩
  · rw [hs]
    exact (hf a ha).1
  · rw [hs]
    exact (hf a ha).2

end Keeps

end Traced

end Machinery
