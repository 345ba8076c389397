import Mathlib.Tactic.Common

/-!
# Computations that can fail

What a computation in steps gives if it succeeds, the errors and values among many results, and the
results of two computations side by side (`Agree`).
-/

namespace ProviderMigration

section
variable {ε α β : Type}

/-- Both steps succeed. -/
theorem bind_eq_ok {x : Except ε α} {f : α → Except ε β} {b : β} :
    x >>= f = .ok b ↔ ∃ a, x = .ok a ∧ f a = .ok b := by
  cases x with
  | error e => simp [bind, Except.bind]
  | ok a => simp [bind, Except.bind]

/-- One of the steps fails. -/
theorem bind_eq_error {x : Except ε α} {f : α → Except ε β} {e : ε} :
    x >>= f = .error e ↔ x = .error e ∨ ∃ a, x = .ok a ∧ f a = .error e := by
  cases x with
  | error e' => simp [bind, Except.bind]
  | ok a => simp [bind, Except.bind]

/-- Two computations that start alike and go on alike. -/
theorem bind_congr_ok {x y : Except ε α} {f g : α → Except ε β} (hxy : x = y)
    (hfg : ∀ a, x = .ok a → f a = g a) : x >>= f = y >>= g := by
  subst hxy
  cases x with
  | error e => rfl
  | ok a => exact hfg a rfl

theorem map_eq_error {x : Except ε α} {f : α → β} {e : ε} :
    x.map f = .error e ↔ x = .error e := by
  cases x with
  | error e' => simp [Except.map]
  | ok a => simp [Except.map]

theorem map_eq_ok {x : Except ε α} {f : α → β} {b : β} :
    x.map f = .ok b ↔ ∃ a, x = .ok a ∧ f a = b := by
  cases x with
  | error e => simp [Except.map]
  | ok a => simp [Except.map]

theorem toOption_eq_some {x : Except ε α} {a : α} : x.toOption = some a ↔ x = .ok a := by
  cases x with
  | error e => simp [Except.toOption]
  | ok a => simp [Except.toOption]

theorem eq_ok_of_isSome {x : Except ε α} (h : x.toOption.isSome = true) :
    x = .ok (x.toOption.get h) := by
  cases x with
  | error e => simp [Except.toOption] at h
  | ok value => rfl

/-- Whatever the computation gives has the property. -/
def Yields (x : Except ε α) (P : α → Prop) : Prop :=
  ∀ a, x = .ok a → P a

namespace Yields

variable {P : α → Prop} {Q : β → Prop}

theorem ok {a : α} (h : P a) : Yields (.ok a : Except ε α) P :=
  fun _ heq => Except.ok.inj heq ▸ h

theorem error (e : ε) : Yields (.error e) P :=
  fun _ heq => by simp at heq

theorem bind {x : Except ε α} {f : α → Except ε β} (hx : Yields x P)
    (hf : ∀ a, P a → Yields (f a) Q) : Yields (x >>= f) Q := by
  intro b hb
  obtain ⟨a, ha, hfa⟩ := bind_eq_ok.1 hb
  exact hf a (hx a ha) b hfa

/-- A first step about which nothing is needed. -/
theorem after {x : Except ε α} {f : α → Except ε β} (hf : ∀ a, Yields (f a) Q) :
    Yields (x >>= f) Q :=
  bind (P := fun _ => True) (fun _ _ => trivial) fun a _ => hf a

theorem map {x : Except ε α} {f : α → β} (hx : Yields x P) (hf : ∀ a, P a → Q (f a)) :
    Yields (x.map f) Q := by
  intro b hb
  obtain ⟨a, ha, rfl⟩ := map_eq_ok.1 hb
  exact hf a (hx a ha)

end Yields

/-- Whatever error the computation gives has the property. -/
def FailsAs (x : Except ε α) (P : ε → Prop) : Prop :=
  ∀ e, x = .error e → P e

namespace FailsAs

variable {P : ε → Prop}

theorem ok (a : α) : FailsAs (.ok a) P :=
  fun _ heq => by simp at heq

theorem error {e : ε} (h : P e) : FailsAs (.error e : Except ε α) P :=
  fun _ heq => Except.error.inj heq ▸ h

theorem bind {x : Except ε α} {f : α → Except ε β} (hx : FailsAs x P)
    (hf : ∀ a, x = .ok a → FailsAs (f a) P) : FailsAs (x >>= f) P := by
  intro e he
  rcases bind_eq_error.1 he with he | ⟨a, ha, he⟩
  · exact hx e he
  · exact hf a ha e he

theorem map {x : Except ε α} {f : α → β} (hx : FailsAs x P) : FailsAs (x.map f) P :=
  fun e he => hx e (map_eq_error.1 he)

end FailsAs

/-! ## Many results -/

/-- The errors among some results, in order. -/
def failures (results : List (Except ε α)) : List ε :=
  results.filterMap fun
    | .ok _ => none
    | .error e => some e

/-- The lists among some results, one after the other. -/
def successes (results : List (Except ε (List α))) : List α :=
  results.flatMap fun
    | .ok xs => xs
    | .error _ => []

theorem failures_append (xs ys : List (Except ε α)) :
    failures (xs ++ ys) = failures xs ++ failures ys :=
  List.filterMap_append

theorem failures_flatMap (f : β → List (Except ε α)) (xs : List β) :
    failures (xs.flatMap f) = xs.flatMap fun x => failures (f x) :=
  List.filterMap_flatMap

end

/-! ## Two computations -/

/-- Where both computations succeed, their values are related. -/
def Agree {ε α β : Type} (R : α → β → Prop) (x : Except ε α) (y : Except ε β) : Prop :=
  ∀ a b, x = .ok a → y = .ok b → R a b

namespace Agree

variable {ε α β γ δ : Type} {R : α → β → Prop} {Q : γ → δ → Prop} {x : Except ε α} {y : Except ε β}

theorem ok {a : α} {b : β} (h : R a b) : Agree R (.ok a : Except ε α) (.ok b) := by
  intro _ _ ha hb
  obtain rfl := Except.ok.inj ha
  obtain rfl := Except.ok.inj hb
  exact h

theorem error_left (e : ε) (y : Except ε β) : Agree R (.error e) y :=
  nofun

theorem error_right (x : Except ε α) (e : ε) : Agree R x (.error e) :=
  nofun

theorem bind {f : α → Except ε γ} {g : β → Except ε δ} (hx : Agree R x y)
    (hf : ∀ a b, R a b → Agree Q (f a) (g b)) : Agree Q (x >>= f) (y >>= g) := by
  intro c d hc hd
  obtain ⟨a, ha, hfa⟩ := bind_eq_ok.1 hc
  obtain ⟨b, hb, hgb⟩ := bind_eq_ok.1 hd
  exact hf a b (hx a b ha hb) c d hfa hgb

theorem map {f : α → γ} {g : β → δ} (hx : Agree R x y) (hf : ∀ a b, R a b → Q (f a) (g b)) :
    Agree Q (x.map f) (y.map g) := by
  intro c d hc hd
  obtain ⟨a, ha, rfl⟩ := map_eq_ok.1 hc
  obtain ⟨b, hb, rfl⟩ := map_eq_ok.1 hd
  exact hf a b (hx a b ha hb)

end Agree

end ProviderMigration
