import Mathlib.Data.List.Basic

/-! Programs that end, and what they pass through.

A program over a state either has a result or has none. `Runs past C p s Q` says that from `s`
it has one, that result and state satisfy `Q`, and that whatever the past of the state has been
extended by satisfies `C`. With the contents of a medium for the past, `C` is what a reader finds
if the program is cut off at any point. A rule for each way to put programs together. -/
namespace Backwash.Storage

variable {σ φ α β : Type} {past : σ → List φ} {C D : φ → Prop} {p : StateT σ Option α} {f : α → StateT σ Option β}
  {s : σ} {a : α} {Q R : α → σ → Prop} {T : β → σ → Prop}

def Runs (past : σ → List φ) (C : φ → Prop) (p : StateT σ Option α) (s : σ) (Q : α → σ → Prop) : Prop :=
  ∃ a s', p.run s = some (a, s') ∧ Q a s' ∧ ∀ x ∈ past s', x ∈ past s ∨ C x

theorem run_bind_of {s' : σ} (h : p.run s = some (a, s')) : (p >>= f).run s = (f a).run s' := by
  rw [StateT.run_bind, h]
  rfl

namespace Runs

/-- A program that only looks. -/
theorem of_run (h : p.run s = some (a, s)) (hq : Q a s) : Runs past C p s Q := ⟨a, s, h, hq, fun _ hx => .inl hx⟩

theorem pure (h : Q a s) : Runs past C (Pure.pure a : StateT σ Option α) s Q :=
  ⟨a, s, rfl, h, fun _ hx => .inl hx⟩

theorem bind (h : Runs past C p s fun a s' => Runs past C (f a) s' T) : Runs past C (p >>= f) s T := by
  obtain ⟨a, s', hrun, ⟨b, s'', hrun', ht, hpast'⟩, hpast⟩ := h
  refine ⟨b, s'', ?_, ht, fun x hx => ?_⟩
  · rw [StateT.run_bind, hrun]
    exact hrun'
  · rcases hpast' x hx with hx | hx
    · exact hpast x hx
    · exact .inr hx

theorem mono (h : Runs past C p s Q) (hqr : ∀ a s', Q a s' → R a s') : Runs past C p s R := by
  obtain ⟨a, s', hrun, hq, hpast⟩ := h
  exact ⟨a, s', hrun, hqr a s' hq, hpast⟩

/-- First one program, then the other. -/
theorem andThen (h : Runs past C p s R) (hf : ∀ a s', R a s' → Runs past C (f a) s' T) : Runs past C (p >>= f) s T :=
  bind (h.mono hf)

/-- First a program that only looks. -/
theorem look (h : p.run s = some (a, s)) (hf : Runs past C (f a) s T) : Runs past C (p >>= f) s T := bind (of_run h hf)

theorem map {g : α → β} (h : Runs past C p s fun a s' => T (g a) s') : Runs past C (g <$> p) s T := by
  obtain ⟨a, s', hrun, hq, hpast⟩ := h
  exact ⟨g a, s', by rw [StateT.run_map, hrun]; rfl, hq, hpast⟩

theorem get {T : σ → σ → Prop} (h : T s s) : Runs past C (MonadState.get : StateT σ Option σ) s T :=
  ⟨s, s, rfl, h, fun _ hx => .inl hx⟩

/-- A change that leaves the past. -/
theorem change {g : σ → σ} {T : PUnit → σ → Prop} (hpast : past (g s) = past s) (h : T ⟨⟩ (g s)) :
    Runs past C (modify g : StateT σ Option PUnit) s T :=
  ⟨⟨⟩, g s, rfl, h, fun _ hx => .inl (hpast ▸ hx)⟩

theorem ite {c : Prop} [Decidable c] {q : StateT σ Option α} (ht : c → Runs past C p s Q) (he : ¬ c → Runs past C q s Q) :
    Runs past C (if c then p else q) s Q := by
  split
  · exact ht ‹_›
  · exact he ‹_›

/-- One of two programs, and what follows both. -/
theorem joined {c : Prop} [Decidable c] {q : StateT σ Option α} (h : Runs past C (if c then p else q) s R)
    (hf : ∀ a s', R a s' → Runs past C (f a) s' T) : Runs past C (if c then p >>= f else q >>= f) s T := by
  split at h
  · rw [if_pos ‹c›]
    exact andThen h hf
  · rw [if_neg ‹¬ c›]
    exact andThen h hf

/-- A program that is run or not, and what follows. -/
theorem when {c : Prop} [Decidable c] {q : StateT σ Option β} {R : σ → Prop} (ht : c → Runs past C p s fun _ s' => R s')
    (he : ¬ c → R s) (hf : ∀ s', R s' → Runs past C q s' T) : Runs past C (if c then p >>= fun _ => q else q) s T := by
  split
  · exact andThen (ht ‹_›) fun _ => hf
  · exact hf s (he ‹_›)

end Runs

end Backwash.Storage
