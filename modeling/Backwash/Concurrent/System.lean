import Backwash.Concurrent.Prog

/-! Threads that take turns.

A `System` is a set of threads over one shared state. An idle thread may begin
any call that is ready; a busy thread performs the next operation of its
program. One action of a run is one of the two, chosen by nobody in particular:
every order is a run. An action that is not possible leaves everything as it
is. The configuration keeps what has happened, latest first, so that a property
may speak about the past as well as about the state. -/
namespace Backwash.Concurrent

/-- Threads `T` run calls `C` over a state `S`; the outside world answers
operations with inputs `I`. A call may change the state at the moment it begins
(`enter`): an interrupt, which no thread can see half done, is all `enter`. -/
structure System {Op : Type} (Res : Op → Type) (T C S I : Type) where
  exec : T → (o : Op) → I → S → S × Res o
  body : C → Prog Res Unit
  ready : T → C → S → Bool
  enter : C → S → S

inductive Event (Op T C I : Type) where
  | began : T → C → Event Op T C I
  | did : T → Op → I → Event Op T C I

structure Config {Op : Type} (Res : Op → Type) (T C S I : Type) where
  state : S
  task : T → Option (C × Prog Res Unit)
  trace : List (Event Op T C I)

inductive Action (T C I : Type) where
  | start : T → C → Action T C I
  | step : T → I → Action T C I

variable {Op T C S I : Type} {Res : Op → Type}

/-- A call with nothing left to do is over. -/
def settle (c : C) : Prog Res Unit → Option (C × Prog Res Unit)
  | .ret _ => none
  | .op o k => some (c, .op o k)

namespace Config

/-- The call a thread is in. -/
def call (cfg : Config Res T C S I) (t : T) : Option C := (cfg.task t).map Prod.fst

/-- The operation a thread performs next. -/
def head (cfg : Config Res T C S I) (t : T) : Option Op := (cfg.task t).bind fun x => x.2.head

/-- Nothing is in progress and nothing has happened. -/
def boot (s : S) : Config Res T C S I := ⟨s, fun _ => none, []⟩

end Config

namespace System
variable [DecidableEq T] (M : System Res T C S I)

def next (cfg : Config Res T C S I) : Action T C I → Config Res T C S I
  | .start t c =>
    match cfg.task t with
    | some _ => cfg
    | none =>
      if M.ready t c cfg.state then
        { state := M.enter c cfg.state
          task := Function.update cfg.task t (settle c (M.body c))
          trace := .began t c :: cfg.trace }
      else cfg
  | .step t i =>
    match cfg.task t with
    | some (c, .op o k) =>
      { state := (M.exec t o i cfg.state).1
        task := Function.update cfg.task t (settle c (k (M.exec t o i cfg.state).2))
        trace := .did t o i :: cfg.trace }
    | _ => cfg

def run (cfg : Config Res T C S I) : List (Action T C I) → Config Res T C S I
  | [] => cfg
  | a :: rest => run (M.next cfg a) rest

/-- Every action of the run satisfies `Rule` in the configuration it is taken in. -/
def Admits (Rule : Config Res T C S I → Action T C I → Prop) (cfg : Config Res T C S I) :
    List (Action T C I) → Prop
  | [] => True
  | a :: rest => Rule cfg a ∧ Admits Rule (M.next cfg a) rest

instance decidableAdmits {Rule : Config Res T C S I → Action T C I → Prop} [∀ cfg a, Decidable (Rule cfg a)] :
    ∀ cfg as, Decidable (M.Admits Rule cfg as)
  | _, [] => isTrue trivial
  | cfg, a :: rest => @instDecidableAnd _ _ _ (decidableAdmits (M.next cfg a) rest)

variable {M}

theorem next_start {cfg : Config Res T C S I} {t : T} {c : C} (ht : cfg.task t = none)
    (hr : M.ready t c cfg.state = true) :
    M.next cfg (.start t c) =
      { state := M.enter c cfg.state
        task := Function.update cfg.task t (settle c (M.body c))
        trace := .began t c :: cfg.trace } := by
  simp only [next, ht, hr, if_true]

theorem next_step {cfg : Config Res T C S I} {t : T} {c : C} {o : Op} {k : Res o → Prog Res Unit}
    (ht : cfg.task t = some (c, .op o k)) (i : I) :
    M.next cfg (.step t i) =
      { state := (M.exec t o i cfg.state).1
        task := Function.update cfg.task t (settle c (k (M.exec t o i cfg.state).2))
        trace := .did t o i :: cfg.trace } := by
  simp only [next, ht]

theorem run_concat (cfg : Config Res T C S I) (as : List (Action T C I)) (a : Action T C I) :
    M.run cfg (as ++ [a]) = M.next (M.run cfg as) a := by
  induction as generalizing cfg with
  | nil => rfl
  | cons b rest ih => exact ih _

theorem run_append (cfg : Config Res T C S I) (as bs : List (Action T C I)) :
    M.run cfg (as ++ bs) = M.run (M.run cfg as) bs := by
  induction as generalizing cfg with
  | nil => rfl
  | cons a rest ih => exact ih _

/-- The next operation of a busy thread, performed. -/
theorem next_head {cfg : Config Res T C S I} {t : T} {o : Op} (h : cfg.head t = some o) (i : I) :
    (M.next cfg (.step t i)).state = (M.exec t o i cfg.state).1 ∧
      (M.next cfg (.step t i)).trace = .did t o i :: cfg.trace := by
  obtain ⟨⟨c, p⟩, htask, hp⟩ := Option.bind_eq_some_iff.mp h
  cases p with
  | ret u => cases hp
  | op o' k =>
    obtain rfl : o' = o := Option.some.inj hp
    rw [next_step htask]
    exact ⟨rfl, rfl⟩

/-- A rule that always holds admits every run. -/
theorem admits_of_forall {Rule : Config Res T C S I → Action T C I → Prop} (h : ∀ cfg a, Rule cfg a)
    (cfg : Config Res T C S I) (as : List (Action T C I)) : M.Admits Rule cfg as := by
  induction as generalizing cfg with
  | nil => trivial
  | cons a rest ih => exact ⟨h cfg a, ih _⟩

theorem admits_true (cfg : Config Res T C S I) (as : List (Action T C I)) : M.Admits (fun _ _ => True) cfg as :=
  admits_of_forall (fun _ _ => trivial) cfg as

/-- A rule on the configuration alone admits a run that satisfies it throughout. -/
theorem admits_of_run {Q : Config Res T C S I → Prop} {cfg : Config Res T C S I} {as : List (Action T C I)}
    (h : ∀ bs cs, as = bs ++ cs → Q (M.run cfg bs)) : M.Admits (fun cfg _ => Q cfg) cfg as := by
  induction as generalizing cfg with
  | nil => trivial
  | cons a rest ih => exact ⟨h [] (a :: rest) rfl, ih fun bs cs e => h (a :: bs) cs (congrArg (a :: ·) e)⟩

/-- Where a property holds all along a run, a rule may be replaced by what it implies there. -/
theorem Admits.mono_of_run {Rule Rule' : Config Res T C S I → Action T C I → Prop} {Q : Config Res T C S I → Prop}
    {cfg : Config Res T C S I} {as : List (Action T C I)} (ha : M.Admits Rule cfg as)
    (hQ : ∀ bs cs, as = bs ++ cs → Q (M.run cfg bs)) (h : ∀ cfg a, Q cfg → Rule cfg a → Rule' cfg a) :
    M.Admits Rule' cfg as := by
  induction as generalizing cfg with
  | nil => trivial
  | cons a rest ih =>
    exact ⟨h cfg a (hQ [] (a :: rest) rfl) ha.1, ih ha.2 fun bs cs e => hQ (a :: bs) cs (congrArg (a :: ·) e)⟩

/-- What an action can do: nothing, begin a ready call on an idle thread, or
perform the next operation of a busy one. -/
theorem next_cases (cfg : Config Res T C S I) (a : Action T C I) :
    M.next cfg a = cfg ∨
    (∃ t c, a = .start t c ∧ cfg.task t = none ∧ M.ready t c cfg.state = true) ∨
    (∃ t i c o k, a = .step t i ∧ cfg.task t = some (c, .op o k)) := by
  cases a with
  | start t c =>
    cases ht : cfg.task t with
    | some x => exact .inl (by simp only [next, ht])
    | none =>
      cases hr : M.ready t c cfg.state
      · exact .inl (by simp [next, ht, hr])
      · exact .inr (.inl ⟨t, c, rfl, ht, hr⟩)
  | step t i =>
    cases ht : cfg.task t with
    | none => exact .inl (by simp only [next, ht])
    | some x =>
      obtain ⟨c, p⟩ := x
      cases p with
      | ret u => exact .inl (by simp only [next, ht])
      | op o k => exact .inr (.inr ⟨t, i, c, o, k, rfl, ht⟩)

omit [DecidableEq T] in
theorem settle_eq_some {c d : C} {p q : Prog Res Unit} (h : settle c p = some (d, q)) : d = c ∧ q = p := by
  cases p with
  | ret a => cases h
  | op o k =>
    simp only [settle, Option.some.injEq, Prod.mk.injEq] at h
    exact ⟨h.1.symm, h.2.symm⟩

/-- Where that which a thread has left to do comes from. -/
theorem next_task {cfg : Config Res T C S I} {a : Action T C I} {t : T} {c : C} {p : Prog Res Unit}
    (h : (M.next cfg a).task t = some (c, p)) :
    cfg.task t = some (c, p) ∨ (M.ready t c cfg.state = true ∧ p = M.body c) ∨
    ∃ i o k, cfg.task t = some (c, .op o k) ∧ p = k (M.exec t o i cfg.state).2 := by
  rcases next_cases (M := M) cfg a with hsame | ⟨u, d, rfl, hu, hr⟩ | ⟨u, i, d, o, k, rfl, hu⟩
  · rw [hsame] at h
    exact .inl h
  · rw [next_start hu hr] at h
    by_cases htu : t = u
    · subst htu
      simp only [Function.update_self] at h
      obtain ⟨rfl, rfl⟩ := settle_eq_some h
      exact .inr (.inl ⟨hr, rfl⟩)
    · simp only [Function.update_of_ne htu] at h
      exact .inl h
  · rw [next_step hu] at h
    by_cases htu : t = u
    · subst htu
      simp only [Function.update_self] at h
      obtain ⟨rfl, rfl⟩ := settle_eq_some h
      exact .inr (.inr ⟨i, o, k, hu, rfl⟩)
    · simp only [Function.update_of_ne htu] at h
      exact .inl h

/-- A property of configurations that every admitted action preserves holds at
the end of every admitted run. -/
theorem run_invariant {Rule : Config Res T C S I → Action T C I → Prop}
    (Inv : Config Res T C S I → Prop) (hstep : ∀ cfg a, Inv cfg → Rule cfg a → Inv (M.next cfg a))
    {cfg : Config Res T C S I} (h : Inv cfg) {as : List (Action T C I)} (ha : M.Admits Rule cfg as) :
    Inv (M.run cfg as) := by
  induction as generalizing cfg with
  | nil => exact h
  | cons a rest ih => exact ih (hstep cfg a h ha.1) ha.2

theorem admits_append {Rule : Config Res T C S I → Action T C I → Prop} {cfg : Config Res T C S I}
    {as bs : List (Action T C I)} :
    M.Admits Rule cfg (as ++ bs) ↔ M.Admits Rule cfg as ∧ M.Admits Rule (M.run cfg as) bs := by
  induction as generalizing cfg with
  | nil => exact (and_iff_right trivial).symm
  | cons a rest ih => exact (and_congr_right fun _ => ih).trans and_assoc.symm

/-- Two rules that agree wherever an invariant holds admit the same runs. -/
theorem admits_congr {Rule Rule' : Config Res T C S I → Action T C I → Prop}
    {Inv : Config Res T C S I → Prop} (hstep : ∀ cfg a, Inv cfg → Inv (M.next cfg a))
    (heq : ∀ cfg a, Inv cfg → (Rule cfg a ↔ Rule' cfg a)) {cfg : Config Res T C S I} (h : Inv cfg)
    (as : List (Action T C I)) : M.Admits Rule cfg as ↔ M.Admits Rule' cfg as := by
  induction as generalizing cfg with
  | nil => rfl
  | cons a rest ih => exact and_congr (heq cfg a h) (ih (hstep cfg a h))

omit [DecidableEq T] in
@[simp] theorem head_settle (c : C) (p : Prog Res Unit) : ((settle c p).bind fun x => x.2.head) = p.head := by
  cases p <;> rfl

/-! ### A thread by itself -/

variable (M) in
/-- `Q` holds all the while thread `t` runs `p` without interruption, with input
`i` at each operation. -/
def Along (t : T) (i : I) (Q : S → List (Event Op T C I) → Prop) :
    Prog Res Unit → S → List (Event Op T C I) → Prop
  | .ret _, s, tr => Q s tr
  | .op o k, s, tr => Q s tr ∧ Along t i Q (k (M.exec t o i s).2) (M.exec t o i s).1 (.did t o i :: tr)

theorem along_iff {t : T} {c : C} {i : I} {Q : S → List (Event Op T C I) → Prop} {p : Prog Res Unit} {s : S}
    {task : T → Option (C × Prog Res Unit)} {tr : List (Event Op T C I)} :
    (∀ n, Q (M.run ⟨s, Function.update task t (settle c p), tr⟩ (List.replicate n (.step t i))).state
      (M.run ⟨s, Function.update task t (settle c p), tr⟩ (List.replicate n (.step t i))).trace) ↔
    M.Along t i Q p s tr := by
  induction p generalizing s tr with
  | ret a =>
    have hstay : ∀ n, M.run ⟨s, Function.update task t none, tr⟩ (List.replicate n (.step t i)) =
        ⟨s, Function.update task t none, tr⟩ := by
      intro n
      induction n with
      | zero => rfl
      | succ n ih =>
        simp only [List.replicate_succ, run]
        rw [show M.next ⟨s, Function.update task t none, tr⟩ (.step t i) = ⟨s, Function.update task t none, tr⟩ by
          simp [next]]
        exact ih
    simp only [settle, hstay, Along, forall_const]
  | op o k ih =>
    have hnext : M.next ⟨s, Function.update task t (settle c (.op o k)), tr⟩ (.step t i) =
        ⟨(M.exec t o i s).1, Function.update task t (settle c (k (M.exec t o i s).2)), .did t o i :: tr⟩ := by
      rw [next_step (c := c) (o := o) (k := k) (by simp [settle])]
      simp
    constructor
    · intro h
      refine ⟨h 0, (ih _).mp fun n => ?_⟩
      have := h (n + 1)
      simp only [List.replicate_succ, run, hnext] at this
      exact this
    · rintro ⟨h0, hrest⟩ n
      cases n with
      | zero => exact h0
      | succ n =>
        simp only [List.replicate_succ, run, hnext]
        exact (ih _).mpr hrest n

variable (M) in
/-- The state in which thread `t` leaves `p` if it runs it without interruption, with input
`i` at each operation. -/
def alone (t : T) (i : I) : Prog Res Unit → S → S
  | .ret _, s => s
  | .op o k, s => alone t i (k (M.exec t o i s).2) (M.exec t o i s).1

/-- Left to itself, a thread comes to the end of its call. -/
theorem run_alone (t : T) (c : C) (i : I) (p : Prog Res Unit) (s : S) (task : T → Option (C × Prog Res Unit))
    (tr : List (Event Op T C I)) :
    ∃ n past, M.run ⟨s, Function.update task t (settle c p), tr⟩ (List.replicate n (.step t i)) =
        ⟨M.alone t i p s, Function.update task t none, past ++ tr⟩ ∧ ∀ e ∈ past, ∃ o, e = .did t o i := by
  induction p generalizing s tr with
  | ret a => exact ⟨0, [], rfl, fun e he => absurd he List.not_mem_nil⟩
  | op o k ih =>
    have hnext : M.next ⟨s, Function.update task t (settle c (.op o k)), tr⟩ (.step t i) =
        ⟨(M.exec t o i s).1, Function.update task t (settle c (k (M.exec t o i s).2)), .did t o i :: tr⟩ := by
      rw [next_step (c := c) (o := o) (k := k) (by simp [settle])]
      simp
    obtain ⟨n, past, hrun, hpast⟩ := ih (M.exec t o i s).2 (M.exec t o i s).1 (.did t o i :: tr)
    refine ⟨n + 1, past ++ [.did t o i], ?_, fun e he => ?_⟩
    · rw [List.replicate_succ, run, hnext, hrun, List.append_assoc]
      rfl
    · rcases List.mem_append.mp he with he | he
      · exact hpast e he
      · exact ⟨o, List.mem_singleton.mp he⟩

omit [DecidableEq T] in
theorem Along.now {t : T} {i : I} {Q : S → List (Event Op T C I) → Prop} {p : Prog Res Unit} {s : S}
    {tr : List (Event Op T C I)} (h : M.Along t i Q p s tr) : Q s tr := by
  cases p with
  | ret a => exact h
  | op o k => exact h.1

omit [DecidableEq T] in
/-- What every operation of a program keeps holds all along it. -/
theorem Along.of_all {t : T} {i : I} {Q R : S → List (Event Op T C I) → Prop} {p : Prog Res Unit}
    (hp : p.All fun o => ∀ s tr, R s tr → R (M.exec t o i s).1 (.did t o i :: tr)) (hQ : ∀ s tr, R s tr → Q s tr)
    {s : S} {tr : List (Event Op T C I)} (h : R s tr) : M.Along t i Q p s tr := by
  induction p generalizing s tr with
  | ret a => exact hQ s tr h
  | op o k ih => exact ⟨hQ s tr h, ih _ (hp.2 _) (hp.1 s tr h)⟩

/-- What every busy thread has left to do satisfies `R`. -/
def Left (R : T → C → Prog Res Unit → Prop) (cfg : Config Res T C S I) : Prop :=
  ∀ t c p, cfg.task t = some (c, p) → p.Always (R t c)

omit [DecidableEq T] in
theorem Left.boot (R : T → C → Prog Res Unit → Prop) (s : S) : Left R (.boot s : Config Res T C S I) :=
  fun _ _ _ h => nomatch h

/-- If all that can be left of a call satisfies `R`, so does what is left in every run. -/
theorem Left.next {R : T → C → Prog Res Unit → Prop}
    (hbody : ∀ t c s, M.ready t c s = true → (M.body c).Always (R t c)) {cfg : Config Res T C S I}
    (h : Left R cfg) (a : Action T C I) : Left R (M.next cfg a) := by
  intro t c p htask
  rcases next_task htask with hsame | ⟨hready, rfl⟩ | ⟨i, o, k, hk, rfl⟩
  · exact h t c p hsame
  · exact hbody t c _ hready
  · exact (h t c _ hk).2 _

end System

end Backwash.Concurrent
