import Backwash.Concurrent.Sight

/-! A part of the state that one thread owns.

Where only one thread changes what a property is about, and the others at most
loosen what is known of it, the owner's program can be run over its view alone. An
`Owner` is a view with what ties it to the state and the past: `Sees` relates them,
the owner's operations move the view as its sight says, every other operation
leaves the relation true, and a call of the owner begins with the view `first`. If
the body of each of its calls runs from there back to rest, every admitted run ends
in a configuration that some safe view sees (`Owner.run_sees`). -/
namespace Backwash.Concurrent

variable {Op T C S I X : Type} {Res : Op → Type} [DecidableEq T]

structure Owner (M : System Res T C S I) (X : Type) extends Sight Res X where
  thread : T
  may : T → Op → Prop
  Rule : Config Res T C S I → Action T C I → Prop
  Sees : X → S → List (Event Op T C I) → Prop
  Rest : X → Prop
  first : C → X → X
  body_may : ∀ {t : T} {c : C} {s : S}, M.ready t c s = true → (M.body c).All (may t)
  own : ∀ {cfg : Config Res T C S I} {x : X} {o : Op} {i : I}, may thread o → cfg.head thread = some o →
    Rule cfg (.step thread i) → Sees x cfg.state cfg.trace →
    can o x (M.exec thread o i cfg.state).2 ∧
      Sees (after o (M.exec thread o i cfg.state).2 x) (M.exec thread o i cfg.state).1 (.did thread o i :: cfg.trace)
  other : ∀ {cfg : Config Res T C S I} {x : X} {t : T} {o : Op} {i : I}, t ≠ thread → may t o →
    cfg.head t = some o → Rule cfg (.step t i) → Sees x cfg.state cfg.trace →
    Sees x (M.exec t o i cfg.state).1 (.did t o i :: cfg.trace)
  begins : ∀ {cfg : Config Res T C S I} {x : X} {c : C}, M.ready thread c cfg.state = true →
    Rule cfg (.start thread c) → Rest x → Safe x → Sees x cfg.state cfg.trace →
    Safe (first c x) ∧ Sees (first c x) (M.enter c cfg.state) (.began thread c :: cfg.trace)
  begins_other : ∀ {cfg : Config Res T C S I} {x : X} {t : T} {c : C}, t ≠ thread →
    M.ready t c cfg.state = true → Rule cfg (.start t c) → Sees x cfg.state cfg.trace →
    Sees x (M.enter c cfg.state) (.began t c :: cfg.trace)

namespace Owner
variable {M : System Res T C S I} (N : Owner M X)

/-- The owner carries its view as its mark. -/
def protocol : Protocol M X where
  Rule := N.Rule
  Inv := fun gs s tr => N.Safe (gs N.thread) ∧ N.Sees (gs N.thread) s tr
  At := fun t c x => t = N.thread → c = none → N.Rest x

variable {N}

theorem other_outline {t : T} {c : C} (ht : t ≠ N.thread) {p : Prog Res Unit} (hp : p.All (N.may t)) (g : X) :
    N.protocol.Outline t c p g fun _ _ => True := by
  refine Protocol.Outline.keep (fun e => absurd e ht) (hp.mono fun o ho cfg gs i _ hhead _ hold hr => ?_) fun _ => trivial
  exact ⟨hold.1.1, N.other ht ho hhead hr hold.1.2⟩

theorem own_outline {c : C} {p : Prog Res Unit} {x : X} {Q : Unit → X → Prop} (hmay : p.All (N.may N.thread))
    (hp : N.toSight.Run p x Q) : N.protocol.Outline N.thread c p x Q := by
  have hrun : N.protocol.Outline N.thread c p x fun a g => ∃ y, g = y ∧ Q a y := by
    refine Sight.Run.outline (m := id) (fun o x cfg gs i ho hcall hhead hg hold hr => ?_) hmay hp
    have hsees : N.Sees x cfg.state cfg.trace := by
      have := hold.1.2
      rwa [show gs N.thread = x from hg] at this
    obtain ⟨hcan, hafter⟩ := N.own ho hhead hr hsees
    refine ⟨hcan, fun hsafe => ⟨fun _ e => (by cases e), ?_⟩⟩
    show N.Safe (Function.update gs N.thread _ N.thread) ∧ N.Sees (Function.update gs N.thread _ N.thread) _ _
    rw [Function.update_self]
    exact ⟨hsafe, hafter⟩
  exact hrun.mono fun a g ⟨y, hg, hq⟩ => hg ▸ hq

theorem begins_protocol (hbody : ∀ c s x, M.ready N.thread c s = true → N.Rest x → N.Safe (N.first c x) →
    N.toSight.Run (M.body c) (N.first c x) fun _ y => N.Rest y) (t : T) (c : C) : N.protocol.Begins t c := by
  intro cfg gs hnone hready hold hr
  have hinv : N.Safe (gs N.thread) ∧ N.Sees (gs N.thread) cfg.state cfg.trace := hold.1
  by_cases ht : t = N.thread
  · subst ht
    have hrest : N.Rest (gs N.thread) := hold.2 N.thread rfl (by simp [Config.call, hnone])
    obtain ⟨hsafe, hsees⟩ := N.begins hready hr hrest hinv.1 hinv.2
    refine ⟨N.first c (gs N.thread), fun _ e => (by cases e), ?_, ?_⟩
    · show N.Safe (Function.update gs N.thread _ N.thread) ∧ N.Sees (Function.update gs N.thread _ N.thread) _ _
      rw [Function.update_self]
      exact ⟨hsafe, hsees⟩
    · exact (own_outline (N.body_may hready) (hbody c _ _ hready hrest hsafe)).mono fun _ _ h _ _ => h
  · refine ⟨gs t, fun e => absurd e ht, ?_, (other_outline ht (N.body_may hready) _).mono fun _ _ _ e => absurd e ht⟩
    rw [Function.update_eq_self]
    exact ⟨hinv.1, N.begins_other ht hready hr hinv.2⟩

/-- Every configuration of an admitted run is seen by a safe view, at rest between
two calls of the owner, if the run begins between two. -/
theorem run_sees_from (hbody : ∀ c s x, M.ready N.thread c s = true → N.Rest x → N.Safe (N.first c x) →
    N.toSight.Run (M.body c) (N.first c x) fun _ y => N.Rest y) {y : X} {cfg : Config Res T C S I}
    (hidle : cfg.task N.thread = none) (hleft : ∀ t c p, cfg.task t = some (c, p) → p.All (N.may t))
    (hrest : N.Rest y) (hsafe : N.Safe y) (hsees : N.Sees y cfg.state cfg.trace) {as : List (Action T C I)}
    (ha : M.Admits N.Rule cfg as) :
    ∃ x, N.Safe x ∧ N.Sees x (M.run cfg as).state (M.run cfg as).trace ∧
      ((M.run cfg as).task N.thread = none → N.Rest x) := by
  have hgood : N.protocol.Good (fun _ => y) cfg := by
    refine ⟨⟨hsafe, hsees⟩, fun t => ?_⟩
    cases htask : cfg.task t with
    | none => exact fun _ _ => hrest
    | some cp =>
      have ht : t ≠ N.thread := fun e => by rw [e, hidle] at htask; cases htask
      exact ⟨fun e => absurd e ht, (other_outline ht (hleft t _ _ htask) y).mono fun _ _ _ e => absurd e ht⟩
  obtain ⟨gs, hend⟩ := Protocol.run_good (begins_protocol hbody) hgood ha
  exact ⟨gs N.thread, hend.1.1, hend.1.2, fun h => hend.idle h rfl rfl⟩

/-- The same for a run from the start. -/
theorem run_sees (hbody : ∀ c s x, M.ready N.thread c s = true → N.Rest x → N.Safe (N.first c x) →
    N.toSight.Run (M.body c) (N.first c x) fun _ y => N.Rest y) {y : X} {s : S} (hrest : N.Rest y)
    (hsafe : N.Safe y) (hsees : N.Sees y s []) {as : List (Action T C I)} (ha : M.Admits N.Rule (.boot s) as) :
    ∃ x, N.Safe x ∧ N.Sees x (M.run (.boot s) as).state (M.run (.boot s) as).trace ∧
      ((M.run (.boot s) as).task N.thread = none → N.Rest x) :=
  run_sees_from hbody rfl (fun _ _ _ e => by cases e) hrest hsafe hsees ha

end Owner

end Backwash.Concurrent
