import Mathlib.Data.List.Forall2

/-!
# Fallible state computations

`EStateM ε σ` keeps the state it reached when it fails, which is what code with early returns over
mutable locals does. A proof about such a computation needs one thing of each statement: what its
success says. The lemmas here answer that for the monad's own operations and for the two guards the
models use, so that a successful run is taken apart by `obtain` and never by unfolding the monad.
-/

namespace Fallible

open List

variable {ε σ α β : Type}

/-- Fails with `e` unless `p` holds. -/
def require (p : Prop) [Decidable p] (e : ε) : EStateM ε σ Unit :=
  if p then pure () else throw e

/-- The value of an option, or failure with `e`. -/
def expect (o : Option α) (e : ε) : EStateM ε σ α :=
  match o with
  | some a => pure a
  | none => throw e

/-- A pure computation that may fail. -/
def lift (r : Except ε α) : EStateM ε σ α :=
  match r with
  | .ok a => pure a
  | .error e => throw e

variable {f : α → EStateM ε σ β} {x : EStateM ε σ α} {b : β}

theorem bind_eq_ok {s s'' : σ} : (x >>= f) s = .ok b s'' ↔ ∃ a s', x s = .ok a s' ∧ f a s' = .ok b s'' := by
  change EStateM.bind x f s = _ ↔ _
  unfold EStateM.bind
  cases hx : x s with
  | ok a s' =>
    constructor
    · exact fun h => ⟨a, s', rfl, h⟩
    · rintro ⟨a', t, h, hf⟩
      cases h
      exact hf
  | error e s' => simp

variable {e : ε}

theorem bind_eq_error {s s'' : σ} :
    (x >>= f) s = .error e s'' ↔ x s = .error e s'' ∨ ∃ a s', x s = .ok a s' ∧ f a s' = .error e s'' := by
  change EStateM.bind x f s = _ ↔ _
  unfold EStateM.bind
  cases hx : x s with
  | ok a s' =>
    constructor
    · exact fun h => .inr ⟨a, s', rfl, h⟩
    · rintro (h | ⟨a', t, h, hf⟩)
      · cases h
      · cases h
        exact hf
  | error e' s' => simp

variable {s s' : σ}

theorem bind_of_ok {a : α} (hx : x s = .ok a s') : (x >>= f) s = f a s' := by
  change EStateM.bind x f s = _
  simp [EStateM.bind, hx]

theorem bind_of_error (hx : x s = .error e s') : (x >>= f) s = .error e s' :=
  bind_eq_error.mpr (.inl hx)

theorem pure_eq_ok {a b : α} : (pure a : EStateM ε σ α) s = .ok b s' ↔ b = a ∧ s' = s := by
  change EStateM.Result.ok a s = _ ↔ _
  simp [eq_comm]

theorem pure_eq_error {a : α} : (pure a : EStateM ε σ α) s = .error e s' ↔ False := by
  change EStateM.Result.ok a s = _ ↔ _
  simp

theorem throw_eq_error {e e' : ε} : (throw e : EStateM ε σ α) s = .error e' s' ↔ e' = e ∧ s' = s := by
  change EStateM.Result.error e s = _ ↔ _
  simp [eq_comm]

theorem throw_eq_ok {b : α} : (throw e : EStateM ε σ α) s = .ok b s' ↔ False := by
  change EStateM.Result.error e s = _ ↔ _
  simp

theorem get_eq_ok {t s s' : σ} : (get : EStateM ε σ σ) s = .ok t s' ↔ t = s ∧ s' = s := by
  change EStateM.Result.ok s s = _ ↔ _
  simp [eq_comm]

theorem set_eq_ok {t s s' : σ} {u : PUnit} : (set t : EStateM ε σ PUnit) s = .ok u s' ↔ s' = t := by
  change EStateM.Result.ok PUnit.unit t = _ ↔ _
  simp [eq_comm]

theorem modify_eq_ok {f : σ → σ} {u : PUnit} : (modify f : EStateM ε σ PUnit) s = .ok u s' ↔ s' = f s := by
  change EStateM.Result.ok PUnit.unit (f s) = _ ↔ _
  simp [eq_comm]

theorem modify_eq_error {f : σ → σ} : (modify f : EStateM ε σ PUnit) s = .error e s' ↔ False := by
  change EStateM.Result.ok PUnit.unit (f s) = _ ↔ _
  simp

variable {p : Prop}

theorem require_eq_error [Decidable p] {e e' : ε} :
    (require p e : EStateM ε σ Unit) s = .error e' s' ↔ ¬p ∧ e' = e ∧ s' = s := by
  unfold require
  split
  · rename_i hp
    simp [pure_eq_error, hp]
  · rename_i hp
    simp [throw_eq_error, hp]

theorem require_eq_ok [Decidable p] {u : Unit} : (require p e : EStateM ε σ Unit) s = .ok u s' ↔ p ∧ s' = s := by
  unfold require
  split
  · rename_i hp
    simp [pure_eq_ok, hp]
  · rename_i hp
    simp [throw_eq_ok, hp]

theorem require_of [Decidable p] (hp : p) (e : ε) (s : σ) : (require p e : EStateM ε σ Unit) s = .ok () s :=
  require_eq_ok.mpr ⟨hp, rfl⟩

theorem require_of_not [Decidable p] (hp : ¬p) (e : ε) (s : σ) : (require p e : EStateM ε σ Unit) s = .error e s :=
  require_eq_error.mpr ⟨hp, rfl, rfl⟩

variable {r : Except ε α}

theorem lift_eq_error : (lift r : EStateM ε σ α) s = .error e s' ↔ r = .error e ∧ s' = s := by
  cases r with
  | error e' => simp [lift, throw_eq_error, eq_comm]
  | ok b => simp [lift, pure_eq_error]

theorem lift_eq_ok {a : α} : (lift r : EStateM ε σ α) s = .ok a s' ↔ r = .ok a ∧ s' = s := by
  cases r with
  | error e => simp [lift, throw_eq_ok]
  | ok b => simp [lift, pure_eq_ok, eq_comm]

theorem lift_bind_eq_ok : (lift r >>= f) s = .ok b s' ↔ ∃ a, r = .ok a ∧ f a s = .ok b s' := by
  rw [bind_eq_ok]
  constructor
  · rintro ⟨a, t, hrun, hf⟩
    obtain ⟨hr, rfl⟩ := lift_eq_ok.mp hrun
    exact ⟨a, hr, hf⟩
  · rintro ⟨a, hr, hf⟩
    exact ⟨a, s, lift_eq_ok.mpr ⟨hr, rfl⟩, hf⟩

theorem require_bind_eq_ok [Decidable p] {f : Unit → EStateM ε σ β}
    : (require p e >>= f) s = .ok b s' ↔ p ∧ f () s = .ok b s' := by
  rw [bind_eq_ok]
  constructor
  · rintro ⟨_, t, hrun, hf⟩
    obtain ⟨hp, rfl⟩ := require_eq_ok.mp hrun
    exact ⟨hp, hf⟩
  · rintro ⟨hp, hf⟩
    exact ⟨(), s, require_eq_ok.mpr ⟨hp, rfl⟩, hf⟩

theorem get_bind_eq_ok {f : σ → EStateM ε σ β} : (get >>= f) s = .ok b s' ↔ f s s = .ok b s' := by
  rw [bind_eq_ok]
  constructor
  · rintro ⟨a, t, ha, hf⟩
    obtain ⟨rfl, rfl⟩ := get_eq_ok.mp ha
    exact hf
  · intro hf
    exact ⟨s, s, get_eq_ok.mpr ⟨rfl, rfl⟩, hf⟩

theorem get_bind_apply (f : σ → EStateM ε σ β) (s : σ) : (get >>= f) s = f s s := rfl

theorem modify_bind_apply (g : σ → σ) (f : PUnit → EStateM ε σ β) (s : σ) : (modify g >>= f) s = f ⟨⟩ (g s) := rfl

theorem require_bind [Decidable p] (hp : p) (e : ε) (f : Unit → EStateM ε σ β) (s : σ) :
    (require p e >>= f) s = f () s :=
  bind_of_ok (require_of hp e s)

theorem require_bind_not [Decidable p] (hp : ¬p) (e : ε) (f : Unit → EStateM ε σ β)
    (s : σ) : (require p e >>= f) s = .error e s :=
  bind_of_error (require_of_not hp e s)

/-! ### Working on a part of the state -/

/-- Run `x` and look at its outcome; what it did to the state stays either way. -/
def attempt (x : EStateM ε σ α) : EStateM ε σ (Except ε α) := fun s =>
  match x s with
  | .ok a s' => .ok (.ok a) s'
  | .error e s' => .ok (.error e) s'

/-! ### What every outcome keeps

A failed computation leaves its partial effects behind, so a fact about the state has to hold on both
outcomes. `Moves R x` says that; it is proved statement by statement. -/

/-- The state a computation ends in, whether it succeeds or fails. -/
def endState : EStateM.Result ε σ α → σ
  | .ok _ s => s
  | .error _ s => s

/-- Every run of `x`, failed or not, takes the state along `R`. -/
def Moves (R : σ → σ → Prop) (x : EStateM ε σ α) : Prop := ∀ s, R s (endState (x s))

namespace Moves

variable {R : σ → σ → Prop} {x : EStateM ε σ α}

theorem of_ok (hx : Moves R x) {s s' : σ} {a : α} (h : x s = .ok a s') : R s s' := by
  have hend := hx s
  rw [h] at hend
  exact hend

theorem bind [IsTrans σ R] {f : α → EStateM ε σ β} (hx : Moves R x)
    (hf : ∀ a, Moves R (f a)) : Moves R (x >>= f) := by
  intro s
  have hfirst := hx s
  cases hrun : x s with
  | ok a t =>
    rw [bind_of_ok hrun]
    rw [hrun] at hfirst
    exact trans_of R hfirst (hf a t)
  | error e t =>
    rw [bind_of_error hrun]
    rw [hrun] at hfirst
    exact hfirst

theorem pure [Std.Refl R] (a : α) : Moves R (Pure.pure a : EStateM ε σ α) := fun s => refl_of R s

theorem get [Std.Refl R] : Moves R (MonadState.get : EStateM ε σ σ) := fun s => refl_of R s

theorem modify {f : σ → σ} (h : ∀ s, R s (f s)) : Moves R (modifyGet fun s => (PUnit.unit, f s) : EStateM ε σ PUnit) := h

theorem require [Std.Refl R] (p : Prop) [Decidable p] (e : ε) :
    Moves R (Fallible.require p e : EStateM ε σ Unit) := by
  intro s
  by_cases hp : p
  · rw [require_of hp]
    exact refl_of R s
  · rw [require_of_not hp]
    exact refl_of R s

theorem lift [Std.Refl R] (r : Except ε α) : Moves R (Fallible.lift r : EStateM ε σ α) := by
  intro s
  cases r with
  | ok a => exact refl_of R s
  | error e => exact refl_of R s

theorem ite {p : Prop} [Decidable p] {x y : EStateM ε σ α} (hx : Moves R x) (hy : Moves R y) :
    Moves R (if p then x else y) := by
  by_cases hp : p
  · rw [if_pos hp]
    exact hx
  · rw [if_neg hp]
    exact hy

theorem get_bind {f : σ → EStateM ε σ β} (h : ∀ s, R s (endState (f s s))) : Moves R (MonadState.get >>= f) := h

theorem throw [Std.Refl R] (e : ε) : Moves R (MonadExcept.throw e : EStateM ε σ α) :=
  fun s => refl_of R s

theorem attempt (hx : Moves R x) : Moves R (Fallible.attempt x) := by
  intro s
  have hend := hx s
  unfold Fallible.attempt
  cases hrun : x s with
  | ok a t =>
    rw [hrun] at hend
    exact hend
  | error e t =>
    rw [hrun] at hend
    exact hend

end Moves

/-- `Moves R x`, read off the shape of `x` by instances. -/
class Moving (R : σ → σ → Prop) (x : EStateM ε σ α) : Prop where
  moves : Moves R x

namespace Moving

variable {R : σ → σ → Prop} {x : EStateM ε σ α}

theorem of_ok (R : σ → σ → Prop) [hx : Moving R x] {s s' : σ} {a : α} (h : x s = .ok a s') : R s s' :=
  hx.moves.of_ok h

theorem andThen [IsTrans σ R] {f : α → EStateM ε σ β} [hx : Moving R x] (hf : ∀ a, Moving R (f a)) :
    Moving R (x >>= f) := ⟨hx.moves.bind fun a => (hf a).moves⟩

instance [IsTrans σ R] {f : α → EStateM ε σ β} [Moving R x] [hf : ∀ a, Moving R (f a)] : Moving R (x >>= f) :=
  andThen hf

instance {p : Prop} [Decidable p] {y : EStateM ε σ α} [hx : Moving R x] [hy : Moving R y] :
    Moving R (if p then x else y) := ⟨hx.moves.ite hy.moves⟩

instance [hx : Moving R x] : Moving R (Fallible.attempt x) := ⟨hx.moves.attempt⟩

variable [Std.Refl R]

instance (a : α) : Moving R (Pure.pure a : EStateM ε σ α) := ⟨Moves.pure a⟩

instance : Moving R (MonadState.get : EStateM ε σ σ) := ⟨Moves.get⟩

instance (e : ε) : Moving R (MonadExcept.throw e : EStateM ε σ α) := ⟨Moves.throw e⟩

instance (p : Prop) [Decidable p] (e : ε) : Moving R (Fallible.require p e : EStateM ε σ Unit) :=
  ⟨Moves.require p e⟩

instance (r : Except ε α) : Moving R (Fallible.lift r : EStateM ε σ α) := ⟨Moves.lift r⟩

instance (o : Option α) (e : ε) : Moving R (Fallible.expect o e : EStateM ε σ α) where
  moves s := by
    cases o with
    | none => exact refl_of R s
    | some a => exact refl_of R s

end Moving

theorem bind_ok {x : Except ε α} {f : α → Except ε β} : (x >>= f) = .ok b ↔ ∃ a, x = .ok a ∧ f a = .ok b := by
  cases x with
  | error e => simp [bind, Except.bind]
  | ok a => simp [bind, Except.bind]

theorem of_bind {x : Except ε α} {f : α → Except ε β} (h : (x >>= f) = .ok b) : ∃ a, x = .ok a ∧ f a = .ok b :=
  bind_ok.mp h

theorem ok_bind (a : α) (f : α → Except ε β) : (Except.ok a >>= f) = f a := rfl

theorem check_ok {x : Except ε Unit} {f : Unit → Except ε α} {b : α} :
    (x >>= f) = .ok b ↔ x = .ok () ∧ f () = .ok b := by
  rw [bind_ok]
  exact ⟨fun ⟨_, hx, hf⟩ => ⟨hx, hf⟩, fun ⟨hx, hf⟩ => ⟨(), hx, hf⟩⟩

theorem after_check {x : Except ε Unit} {f : Unit → Except ε α} {b : α} (h : (x >>= f) = .ok b) : f () = .ok b :=
  (check_ok.mp h).2

theorem check_bind {x : Except ε Unit} (hx : x = .ok ()) (f : Unit → Except ε α) : (x >>= f) = f () := by
  rw [hx]
  rfl

theorem pure_ok {a b : α} : (pure a : Except ε α) = .ok b ↔ b = a := by
  simp [pure, Except.pure, eq_comm]

theorem pure_pair_eq_ok {a c : α} {b d : β} : (pure (a, b) : Except ε (α × β)) = .ok (c, d) ↔ c = a ∧ d = b := by
  rw [pure_ok, Prod.mk.injEq]

theorem mapError_eq_ok {ε' : Type} {f : ε → ε'} {a : α} : r.mapError f = .ok a ↔ r = .ok a := by
  cases r <;> simp [Except.mapError]

theorem mapM_eq_ok {f : α → Except ε β} {l : List α} {r : List β} :
    l.mapM f = .ok r ↔ Forall₂ (fun a b => f a = .ok b) l r := by
  induction l generalizing r with
  | nil =>
    rw [mapM_nil, pure_ok, forall₂_nil_left_iff]
  | cons a l ih =>
    rw [mapM_cons, bind_ok, forall₂_cons_left_iff]
    constructor
    · rintro ⟨b, hb, h⟩
      obtain ⟨rest, hrest, h⟩ := of_bind h
      exact ⟨b, rest, hb, ih.mp hrest, pure_ok.mp h⟩
    · rintro ⟨b, rest, hb, hrest, rfl⟩
      exact ⟨b, hb, bind_ok.mpr ⟨rest, ih.mpr hrest, rfl⟩⟩

/-- A step that checks `P` and computes `g` maps to a check of all elements and `map g`. -/
theorem mapM_eq_map {f : α → Except ε β} {P : α → Prop} {g : α → β}
    (hf : ∀ a b, f a = .ok b → P a ∧ b = g a) {l : List α} {r : List β} (h : l.mapM f = .ok r) :
    (∀ a ∈ l, P a) ∧ r = l.map g := by
  induction mapM_eq_ok.mp h with
  | nil => exact ⟨fun _ h => absurd h not_mem_nil, rfl⟩
  | cons hab hrest ih =>
    obtain ⟨hall, rfl⟩ := ih (mapM_eq_ok.mpr hrest)
    obtain ⟨ha, rfl⟩ := hf _ _ hab
    exact ⟨forall_mem_cons.mpr ⟨ha, hall⟩, rfl⟩

theorem mem_of_mapM {f : α → Except ε β} {l : List α} {r : List β} (h : l.mapM f = .ok r) :
    (∀ b ∈ r, ∃ a ∈ l, f a = .ok b) ∧ ∀ a ∈ l, ∃ b ∈ r, f a = .ok b := by
  induction mapM_eq_ok.mp h with
  | nil => simp
  | @cons a b l r hab hrest ih =>
    obtain ⟨hfrom, hto⟩ := ih (mapM_eq_ok.mpr hrest)
    constructor
    · intro b' hb'
      rcases mem_cons.mp hb' with rfl | hb'
      · exact ⟨a, mem_cons_self, hab⟩
      · obtain ⟨a', ha', heq⟩ := hfrom b' hb'
        exact ⟨a', mem_cons_of_mem _ ha', heq⟩
    · intro a' ha'
      rcases mem_cons.mp ha' with rfl | ha'
      · exact ⟨b, mem_cons_self, hab⟩
      · obtain ⟨b', hb', heq⟩ := hto a' ha'
        exact ⟨b', mem_cons_of_mem _ hb', heq⟩

/-- Fails with `e` if `p` holds. -/
def refuseIf (p : Prop) [Decidable p] (e : ε) : Except ε Unit :=
  if p then .error e else .ok ()

theorem refuseIf_eq_ok [Decidable p] {u : Unit} : refuseIf p e = .ok u ↔ ¬p := by
  unfold refuseIf
  split <;> simp [*]

theorem refuseIf_ok [Decidable p] {f : Unit → Except ε α} {b : α} :
    (refuseIf p e >>= f) = .ok b ↔ ¬p ∧ f () = .ok b := by
  unfold refuseIf
  split <;> simp [bind, Except.bind, *]

theorem of_refuse [Decidable p] {f : Unit → Except ε α} {b : α} (h : (refuseIf p e >>= f) = .ok b) :
    ¬p ∧ f () = .ok b :=
  refuseIf_ok.mp h

theorem refuseIf_bind [Decidable p] (hp : ¬p) (e : ε) (f : Unit → Except ε α) : (refuseIf p e >>= f) = f () := by
  rw [refuseIf, if_neg hp]
  rfl

theorem refuseIf_bind_error [Decidable p] (hp : p) (e : ε) (f : Unit → Except ε α) :
    (refuseIf p e >>= f) = .error e := by
  rw [refuseIf, if_pos hp]
  rfl

end Fallible
