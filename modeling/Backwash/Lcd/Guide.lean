import Backwash.Lcd.Stack

/-! A guide through the window functions.

Every property of the stack needs the same walk through the 27 window functions,
with something of its own to keep on the way. A `Guide` says what that is, for a
window that draws itself and for one that reads its keys, and that single
operations keep it; a property may keep some windows to itself. The walk then
shows that a window function leaves a tidy stack behind. -/
namespace Backwash.Lcd
open Concurrent Prog Firmware

/-- Where the display thread is in a window function. -/
inductive Part where
  | draw (w : Win) | keys (w : Win)

/-- The operation concerns neither the stack nor the flags nor the tokens. -/
def still : Op → Bool
  | .store v _ => match v with
    | .firstFlag _ => false
    | _ => true
  | .semTake _ | .guiWinInit | .guiWinAdd _ | .guiWinDeleteTop | .memsetFirstFlag => false
  | _ => true

theorem Stack.after_still {o : Op} (h : still o = true) (r : Res o) (a : Stack) : a.after o r = a := by
  cases o with
  | store v n => cases v <;> first | rfl | cases h
  | semTake k => cases h
  | guiWinInit => cases h
  | guiWinAdd w => cases h
  | guiWinDeleteTop => cases h
  | memsetFirstFlag => cases h
  | _ => rfl

/-- What a window function does while it draws. -/
def drawMay (w : Win) (o : Op) : Bool :=
  winMay w o && match o with
    | .store (.firstFlag _) n => n == 1
    | .store .nowButtonId _ => menu w
    | o => still o

/-- What it does while it reads the keys. -/
def keysMay (w : Win) (o : Op) : Bool :=
  winMay w o && match o with
    | .store (.firstFlag _) n => n == 0
    | .store .nowButtonId _ => menu w
    | .guiWinAdd v => opens w v
    | _ => true

/-- A window is pushed over one it may cover, the main menu also over nothing. -/
def Placed (a : Stack) (v : Win) : Prop := (v = .w1 ∧ a.wins = []) ∨ ∃ u, a.wins.head? = some u ∧ covers v u = true

/-- What may be assumed where an operation of the keys is performed: a window is
pushed in its place and while it is not drawn, and only window 1 goes on with the
main menu drawn. -/
def Allowed (lax : Win → Bool) (w : Win) (a : Stack) (o : Op) : Prop :=
  (∀ v, o = .guiWinAdd v → (lax .w14 = true ∨ a.flag v = 0) ∧ Placed a v) ∧
  (inert o = false → still o = true → w = .w1 ∨ a.flag .w1 = 0)

theorem allowed_plain {lax : Win → Bool} {w : Win} {a : Stack} {o : Op} (hp : ∀ v, o ≠ .guiWinAdd v)
    (h : inert o = true ∨ still o = false) : Allowed lax w a o := by
  refine ⟨fun v e => absurd e (hp v), fun hi hst => ?_⟩
  rcases h with h | h
  · rw [h] at hi
    cases hi
  · rw [h] at hst
    cases hst

structure Guide {X : Type} (V : Sight Res X) (lax : Win → Bool) where
  stack : X → Stack
  Held : Part → X → Prop
  /-- The windows a property goes through itself. -/
  special : Win → Bool
  stack_after : ∀ (o : Op) (r : Res o) (x : X), stack (V.after o r x) = (stack x).after o r
  stack_can : ∀ {o : Op} {r : Res o} {x : X}, V.can o x r → (stack x).can o r
  draw : ∀ {w : Win} {o : Op} {x : X} {r : Res o}, special w = false → drawMay w o = true → Held (.draw w) x →
    V.can o x r → V.Safe (V.after o r x) ∧ Held (.draw w) (V.after o r x)
  keys : ∀ {w : Win} {o : Op} {x : X} {r : Res o}, special w = false → keysMay w o = true →
    Allowed lax w (stack x) o → Held (.keys w) x → V.can o x r →
    V.Safe (V.after o r x) ∧ Held (.keys w) (V.after o r x) ∧
      (o = .guiWinAdd .w14 → lax .w14 = true ∨ (stack x).took .k2 = false)
  turn : ∀ {w : Win} {x : X}, Held (.draw w) x → Held (.keys w) x
  /-- A window function displays the window on top. -/
  enter : ∀ {w v : Win} {x : X}, Held (.keys w) x → (stack x).wins.head? = some v →
    landing v = true → (v = .w1 ∨ (stack x).flag .w1 = 0) → V.can (.mark (.winFun v)) x () →
    V.Safe (V.after (.mark (.winFun v)) () x) ∧ Held (.draw v) (V.after (.mark (.winFun v)) () x)
  top : ∀ {w : Win} {x : X}, Held (.keys w) x → V.can .guiTop x (stack x).wins.head? →
    V.Safe (V.after .guiTop (stack x).wins.head? x) ∧ Held (.keys w) (V.after .guiTop (stack x).wins.head? x)
  /-- Window `w` goes on after the display of window `v`. -/
  leave : ∀ {v w : Win} {x y : X}, Held (.keys w) x → Held (.keys v) y → Held (.keys w) y
  special_draw : ∀ {v : Win} {x : X} (display : Code Unit), special v = true → Held (.draw v) x →
    (stack x).flag v = 0 → V.Run (winFun display v) x fun _ y =>
      Held (.draw v) y ∧ (stack y = stack x ∨ stack y = (stack x).set v 1)

namespace Guide
variable {X : Type} {V : Sight Res X} {lax : Win → Bool} (Γ : Guide V lax) {α β : Type}

/-- From a view with stack `a`, the program ends with a value and a stack that
satisfy `Q`, and the guide's invariant holds all along. -/
def Walk (g : Part) (p : Code α) (a : Stack) (Q : α → Stack → Prop) : Prop :=
  ∀ x, Γ.stack x = a → Γ.Held g x → V.Run p x fun r y => Γ.Held g y ∧ Q r (Γ.stack y)

variable {Γ} {g : Part} {a b : Stack}

theorem Walk.ret {v : α} {Q : α → Stack → Prop} (h : Q v a) : Γ.Walk g (pure v) a Q := by
  intro x hx hg
  exact ⟨hg, hx ▸ h⟩

theorem Walk.bind {p : Code α} {f : α → Code β} {R : α → Stack → Prop} {Q : β → Stack → Prop} (hp : Γ.Walk g p a R)
    (hf : ∀ r b, R r b → Γ.Walk g (f r) b Q) : Γ.Walk g (p >>= f) a Q :=
  fun x hx hg => (hp x hx hg).bind fun r y hy => hf r _ hy.2 y rfl hy.1

theorem Walk.seq {p : Code α} {f : α → Code β} {Q : β → Stack → Prop} (hp : Γ.Walk g p a fun _ c => c = b)
    (hf : ∀ r, Γ.Walk g (f r) b Q) : Γ.Walk g (p >>= f) a Q :=
  hp.bind fun r _ hc => hc ▸ hf r

theorem Walk.mono {p : Code α} {R Q : α → Stack → Prop} (hp : Γ.Walk g p a R) (h : ∀ r b, R r b → Q r b) :
    Γ.Walk g p a Q :=
  fun x hx hg => (hp x hx hg).mono fun r _ hy => ⟨hy.1, h r _ hy.2⟩

theorem Walk.ite {c : Prop} [Decidable c] {p q : Code α} {Q : α → Stack → Prop} (hp : c → Γ.Walk g p a Q)
    (hq : ¬ c → Γ.Walk g q a Q) : Γ.Walk g (if c then p else q) a Q := by
  split
  · exact hp ‹_›
  · exact hq ‹_›

theorem Walk.when {c : Prop} [Decidable c] {p : Code Unit} {Q : Unit → Stack → Prop} (hp : c → Γ.Walk g p a Q)
    (hq : ¬ c → Q () a) : Γ.Walk g (Prog.when c p) a Q :=
  Walk.ite hp fun h => Walk.ret (hq h)

/-- Programs that leave the stack as it is. -/
theorem Walk.compositional : Prog.Compositional fun (p : Code _) => Γ.Walk g p a fun _ b => b = a :=
  ⟨fun _ => Walk.ret rfl, Walk.seq⟩

/-! ### Single operations -/

section
variable {w : Win} (hs : Γ.special w = false)
include hs

theorem Walk.key {o : Op} (ho : keysMay w o = true) (hallow : Allowed lax w a o) :
    Γ.Walk (.keys w) (perform o) a fun r b => b = a.after o r ∧ a.can o r ∧
      (o = .guiWinAdd .w14 → lax .w14 = true ∨ a.took .k2 = false) := by
  intro x hx hg
  refine Sight.Run.perform fun r hcan => ?_
  subst hx
  obtain ⟨hsafe, hheld, h14⟩ := Γ.keys hs ho hallow hg hcan
  exact ⟨hsafe, hheld, Γ.stack_after o r x, Γ.stack_can hcan, h14⟩

/-- An operation that is none of the stack's business. -/
theorem Walk.still {o : Op} (ho : (keysMay w o && Lcd.still o) = true) (hq : w = .w1 ∨ a.flag .w1 = 0) :
    Γ.Walk (.keys w) (perform o) a fun _ b => b = a := by
  obtain ⟨hkeys, hstill⟩ := Bool.and_eq_true_iff.mp ho
  refine (Walk.key hs hkeys ⟨fun v e => ?_, fun _ _ => hq⟩).mono fun r b hb => ?_
  · rw [e] at hstill
    cases hstill
  · rw [hb.1, Stack.after_still hstill]

theorem Walk.skip {o : Op} {f : Res o → Code β} {Q : β → Stack → Prop} (hq : w = .w1 ∨ a.flag .w1 = 0)
    (ho : (keysMay w o && Lcd.still o) = true) (hf : ∀ r, Γ.Walk (.keys w) (f r) a Q) :
    Γ.Walk (.keys w) (perform o >>= f) a Q :=
  (Walk.still hs ho hq).seq hf

theorem Walk.clear : Γ.Walk (.keys w) (store (.firstFlag w) 0) a fun _ b => b = a.set w 0 := by
  have ho : keysMay w (.store (.firstFlag w) 0) = true := by simp [keysMay, winMay, ownMay, may, lcdMay]
  exact (Walk.key hs ho (allowed_plain (by simp) (.inr rfl))).mono fun _ _ hb => hb.1

theorem Walk.pop : Γ.Walk (.keys w) guiWinDeleteTop a fun _ b => b = a.pop :=
  (Walk.key hs rfl (allowed_plain (by simp) (.inr rfl))).mono fun _ _ hb => hb.1

theorem Walk.init (ho : keysMay w .guiWinInit = true) :
    Γ.Walk (.keys w) guiWinInit a fun _ b => b = {a with wins := []} :=
  (Walk.key hs ho (allowed_plain (by simp) (.inr rfl))).mono fun _ _ hb => hb.1

theorem Walk.push {v : Win} (ho : keysMay w (.guiWinAdd v) = true) (hv : lax .w14 = true ∨ a.flag v = 0)
    (hplace : Placed a v) :
    Γ.Walk (.keys w) (guiWinAdd v) a fun _ b => b = a.push v ∧ (v = .w14 → lax .w14 = true ∨ a.took .k2 = false) := by
  refine (Walk.key hs ho ⟨fun u e => ?_, fun _ e => absurd e Bool.false_ne_true⟩).mono fun _ _ hb =>
    ⟨hb.1, fun e => hb.2.2 (by rw [e])⟩
  cases e
  exact ⟨hv, hplace⟩

/-- Taking the keys changes neither windows nor flags. -/
theorem Walk.takeKeys :
    Γ.Walk (.keys w) takeKeys a fun k b => b.wins = a.wins ∧ b.flag = a.flag ∧ b.took .k2 = k.k2 := by
  have htake : ∀ (k : Sem) (c : Stack), k ≠ .rtcCheck → Γ.Walk (.keys w) (semTake k) c fun r b => b = c.take k r :=
    fun k c hk => by
      have ho : keysMay w (.semTake k) = true := by cases k <;> first | rfl | exact absurd rfl hk
      exact (Walk.key hs ho (allowed_plain (by simp) (.inr rfl))).mono fun _ _ hb => hb.1
  refine (htake .k0 a (by decide)).bind fun k0 b hb => ?_
  refine (htake .k1 b (by decide)).bind fun k1 c hc => ?_
  refine (htake .k2 c (by decide)).bind fun k2 d hd => ?_
  refine (htake .k2Long d (by decide)).bind fun k2Long e he => Walk.ret ?_
  subst hb hc hd he
  exact ⟨rfl, rfl, rfl⟩

/-- What the last takes have left. -/
theorem Walk.keyStatuses : Γ.Walk (.keys w) keyStatuses a fun k b => b = a ∧ k.k2 = a.took .k2 := by
  have hread : ∀ k : Sem, k ≠ .rtcCheck → Γ.Walk (.keys w) (keyStatus k) a fun r b => b = a ∧ r = a.took k :=
    fun k hk => by
      have ho : keysMay w (.keyStatus k) = true := by cases k <;> rfl
      exact (Walk.key hs ho (allowed_plain (by simp) (.inl rfl))).mono fun _ _ hb => ⟨hb.1, hb.2.1 hk⟩
  refine (hread .k0 (by decide)).bind fun k0 b hb => ?_
  obtain ⟨rfl, -⟩ := hb
  refine (hread .k1 (by decide)).bind fun k1 b hb => ?_
  obtain ⟨rfl, -⟩ := hb
  refine (hread .k2 (by decide)).bind fun k2 b hb => ?_
  obtain ⟨rfl, rfl⟩ := hb
  exact (hread .k2Long (by decide)).bind fun k2Long b hb => Walk.ret ⟨hb.1, rfl⟩

/-- A stretch of operations that only ever clears the window's own flag. -/
theorem Walk.clears {p : Code α} (hq : w = .w1 ∨ a.flag .w1 = 0)
    (hp : p.All fun o => (keysMay w o && (Lcd.still o || o == .store (.firstFlag w) 0)) = true) :
    Γ.Walk (.keys w) p a fun _ b => b = a ∨ b = a.set w 0 := by
  intro x hx hg
  refine Sight.Run.all (D := fun y => Γ.Held (.keys w) y ∧ (Γ.stack y = a ∨ Γ.stack y = a.set w 0))
    (hp.mono fun o ho y r hy hcan => ?_) ⟨hg, .inl hx⟩
  obtain ⟨hkeys, hstill⟩ := Bool.and_eq_true_iff.mp ho
  have hq' : w = .w1 ∨ (Γ.stack y).flag .w1 = 0 := by
    refine hq.imp_right fun h1 => ?_
    rcases hy.2 with e | e
    · rw [e, h1]
    · rw [e]
      by_cases hw : w = .w1
      · rw [hw]
        exact Stack.flag_set_self _ _ _
      · rw [Stack.flag_set_of_ne (Ne.symm hw), h1]
  rcases Bool.or_eq_true_iff.mp hstill with hst | hst
  · have hpush : ∀ v, o ≠ .guiWinAdd v := fun v e => by rw [e] at hst; cases hst
    obtain ⟨hsafe, hheld, -⟩ := Γ.keys hs hkeys ⟨fun v e => absurd e (hpush v), fun _ _ => hq'⟩ hy.1 hcan
    refine ⟨hsafe, hheld, ?_⟩
    rw [Γ.stack_after, Stack.after_still hst]
    exact hy.2
  · obtain rfl : o = .store (.firstFlag w) 0 := by simpa using hst
    obtain ⟨hsafe, hheld, -⟩ := Γ.keys hs hkeys (allowed_plain (by simp) (.inr rfl)) hy.1 hcan
    refine ⟨hsafe, hheld, .inr ?_⟩
    rw [Γ.stack_after]
    rcases hy.2 with e | e
    · rw [e]
      rfl
    · rw [e]
      simp [Stack.after, Stack.set]

/-- A stretch of operations that are none of the stack's business. -/
theorem Walk.stills {p : Code α} (hq : w = .w1 ∨ a.flag .w1 = 0)
    (hp : p.All fun o => (keysMay w o && Lcd.still o) = true) : Γ.Walk (.keys w) p a fun _ b => b = a := by
  induction p with
  | ret v => exact Walk.ret rfl
  | op o k ih => exact Walk.skip hs hq hp.1 fun r => ih r (hp.2 r)

/-- A window that is drawn goes on with its keys. -/
theorem Walk.window {draw keys : Code Unit} {Q : Unit → Stack → Prop} (hf : a.flag w ≠ 0)
    (hkeys : Γ.Walk (.keys w) keys a Q) :
    Γ.Walk (.keys w) (window w draw keys) a Q := by
  refine (Walk.key hs rfl (allowed_plain (by simp) (.inl rfl))).bind fun (n : Nat) b hb => ?_
  obtain ⟨rfl, hn, -⟩ := hb
  rw [if_neg (show n ≠ 0 from fun e => hf (hn ▸ e))]
  exact hkeys

end

/-! ### Drawing -/

/-- What every window function is: a drawing part and a part for the keys. -/
theorem winFun_draws (display : Code Unit) (w : Win) :
    ∃ draw keys, winFun display w = window w draw keys ∧ draw.All fun o => drawMay w o = true := by
  cases w
  all_goals
    refine ⟨_, _, rfl, ?_⟩
    repeat' first
      | with_reducible exact built_drawButtons (All.compositional _) (fun _ _ => ⟨All.perform rfl, All.perform rfl⟩) _
      | intro _ | with_reducible apply All.bind | with_reducible apply All.when | with_reducible exact All.pure _
      | exact All.perform rfl | unfold userMain1Draw | unfold userMain14Draw | unfold scheduleDraw | unfold drawButton
      | split

/-- A window that is not drawn only draws itself. -/
theorem winFun_draw (display : Code Unit) {w : Win} {x : X} (hg : Γ.Held (.draw w) x) (hf : (Γ.stack x).flag w = 0) :
    V.Run (winFun display w) x fun _ y =>
      Γ.Held (.draw w) y ∧ (Γ.stack y = Γ.stack x ∨ Γ.stack y = (Γ.stack x).set w 1) := by
  cases hs : Γ.special w with
  | true => exact Γ.special_draw display hs hg hf
  | false =>
    obtain ⟨draw, keys, heq, hdraw⟩ := winFun_draws display w
    rw [heq]
    have hload : drawMay w (.load (.firstFlag w)) = true := by cases w <;> rfl
    refine Sight.Run.bind (R := fun n y => n = 0 ∧ Γ.Held (.draw w) y ∧ Γ.stack y = Γ.stack x)
      (Sight.Run.perform fun n hcan => ?_) fun (n : Nat) y hy => ?_
    · obtain ⟨hsafe, hheld⟩ := Γ.draw hs hload hg hcan
      exact ⟨hsafe, (Γ.stack_can hcan).trans hf, hheld, Γ.stack_after _ n x⟩
    obtain ⟨rfl, hheld, hstack⟩ := hy
    rw [if_pos rfl, ← hstack]
    refine Sight.Run.all (D := fun z => Γ.Held (.draw w) z ∧ (Γ.stack z = Γ.stack y ∨ Γ.stack z = (Γ.stack y).set w 1))
      (hdraw.mono fun o ho z r hz hcan => ?_) ⟨hheld, .inl rfl⟩
    obtain ⟨hsafe, hheld'⟩ := Γ.draw hs ho hz.1 hcan
    refine ⟨hsafe, hheld', ?_⟩
    rw [Γ.stack_after]
    by_cases hst : still o = true
    · rw [Stack.after_still hst]
      exact hz.2
    · -- the flag is set, for the first time or again
      obtain rfl : o = .store (.firstFlag w) 1 := by
        cases o with
        | store v n =>
          cases v with
          | firstFlag u => simp_all [drawMay, winMay, ownMay]
          | _ => exact absurd rfl hst
        | semTake k => simp [drawMay, still] at ho
        | guiWinInit => simp [drawMay, still] at ho
        | guiWinAdd u => simp [drawMay, still] at ho
        | guiWinDeleteTop => simp [drawMay, still] at ho
        | memsetFirstFlag => simp [drawMay, still] at ho
        | _ => exact absurd rfl hst
      right
      rcases hz.2 with e | e
      · rw [e]
        rfl
      · rw [e]
        simp [Stack.after, Stack.set]

/-! ### The settings menu -/

/-- The settings menu with its keys: its flag is clear wherever the stack changes. -/
structure Menu14 (a b : Stack) : Prop where
  tree : Tree b.wins
  flag : ∀ u, u ≠ .w14 → b.flag u = a.flag u
  lit : b.flag .w14 ≠ 0 → b.wins = a.wins
  top : b.wins.head? = a.wins.head? ∨ ∃ v, b.wins.head? = some v ∧ basement v = true

theorem Menu14.tidy {b : Stack} (h : Menu14 a b) (ha : Tidy lax a) (hw : a.wins.head? = some .w14) : Tidy lax b := by
  refine ⟨h.tree, fun u hu => ?_⟩
  by_cases hu14 : u = .w14
  · subst hu14
    exact .inl (by rw [h.lit hu, hw])
  · exact .inr ((ha.lit hw (h.flag u hu14 ▸ hu)).resolve_left hu14)

section
variable (hs : Γ.special .w14 = false)
include hs

theorem walk_userMain14Entry {c : Stack} (page n : Nat) (h : Menu14 a c) (hw : c.wins.head? = some .w14)
    (hf : c.flag .w14 = 0) (hflags : lax .w14 = true ∨ ∀ u, u ≠ .w14 → u ≠ .w27 → c.flag u = 0) :
    Γ.Walk (.keys .w14) (userMain14Entry page n) c fun _ d => Menu14 a d := by
  have hpush : ∀ v, keysMay .w14 (.guiWinAdd v) = true → covers v .w14 = true → basement v = true → v ≠ .w14 → v ≠ .w27 →
      Γ.Walk (.keys .w14) (guiWinAdd v) c fun _ d => Menu14 a d := by
    intro v ho hv hb h14 h27
    refine (Walk.push hs ho (hflags.imp_right fun h => h v h14 h27) (.inr ⟨_, hw, hv⟩)).mono fun _ d hd => ?_
    obtain ⟨rfl, -⟩ := hd
    refine ⟨Stack.tree_push h.tree hw hv, h.flag, fun e => absurd hf e, ?_⟩
    rcases Stack.head_push c v with e | e
    · rw [e]
      exact h.top
    · exact .inr ⟨v, e, hb⟩
  have hpop : Γ.Walk (.keys .w14) guiWinDeleteTop c fun _ d => Menu14 a d := by
    refine (Walk.pop hs).mono fun _ d hd => ?_
    subst hd
    obtain ⟨v, hv, hover, htree⟩ := Stack.pop_below h.tree hw (by decide)
    obtain rfl : v = .w1 := by simpa [covers] using hover
    exact ⟨htree, h.flag, fun e => absurd hf e, .inr ⟨_, hv, rfl⟩⟩
  unfold userMain14Entry
  split
  all_goals first | exact hpush _ rfl rfl rfl (by decide) (by decide) | exact hpop | exact Walk.ret h

theorem walk_userMain14 (display : Code Unit) (ht : Tree a.wins) (hw : a.wins.head? = some .w14)
    (hf : a.flag .w14 ≠ 0) (h1 : a.flag .w1 = 0) (hflags : lax .w14 = true ∨ ∀ u, u ≠ .w14 → u ≠ .w27 → a.flag u = 0) :
    Γ.Walk (.keys .w14) (winFun display .w14) a fun _ b => Menu14 a b := by
  -- up to the last key the windows stay, and only the menu's own flag changes
  let Ready (c : Stack) : Prop := c.wins = a.wins ∧ ∀ u, u ≠ .w14 → c.flag u = a.flag u
  have hmenu : ∀ c, Ready c → Menu14 a c := fun c hc => ⟨hc.1 ▸ ht, hc.2, fun _ => hc.1, .inl (by rw [hc.1])⟩
  have hset : ∀ c, Ready c → Ready (c.set .w14 0) := fun c hc =>
    ⟨hc.1, fun u hu => (Stack.flag_set_of_ne hu c 0).trans (hc.2 u hu)⟩
  have hmove : ∀ {p : Code Unit} (c : Stack), Ready c →
      (p.All fun o => (keysMay .w14 o && (Lcd.still o || o == .store (.firstFlag .w14) 0)) = true) →
      Γ.Walk (.keys .w14) p c fun _ d => Ready d := by
    intro p c hc hp
    refine (Walk.clears hs (.inr ((hc.2 _ (by decide)).trans h1)) hp).mono fun _ d hd => ?_
    rcases hd with rfl | rfl
    · exact hc
    · exact hset c hc
  refine Walk.window hs hf ((Walk.takeKeys hs).bind fun k b hb => ?_)
  have hready : Ready b := ⟨hb.1, fun u _ => by rw [hb.2.1]⟩
  refine (Walk.when (fun _ => hmove b hready ?_) fun _ => hready).bind fun _ c hc => ?_
  · simp only [userMain14Up, storePage, drawNowButton, drawButton, decr]
    repeat' first
      | intro _ | with_reducible apply All.bind | with_reducible apply All.when | with_reducible exact All.pure _
      | split | exact All.perform rfl
  refine (Walk.when (fun _ => hmove c hc ?_) fun _ => hc).bind fun _ d hd => ?_
  · simp only [userMain14Down, storePage, drawNowButton, drawButton, incr]
    repeat' first
      | intro _ | with_reducible apply All.bind | with_reducible exact All.pure _ | split | exact All.perform rfl
  refine Walk.when (fun _ => ?_) fun _ => hmenu d hd
  have hq : ∀ e, Menu14 a e → (Win.w14 = .w1 ∨ e.flag .w1 = 0) := fun e he => .inr ((he.flag _ (by decide)).trans h1)
  have hd' := hset d hd
  refine (Walk.clear hs).seq fun _ => Walk.skip hs (hq _ (hmenu _ hd')) rfl fun (page : Nat) =>
    Walk.skip hs (hq _ (hmenu _ hd')) rfl fun (n : Nat) => ?_
  refine (Walk.when (fun _ => walk_userMain14Entry hs page n (hmenu _ hd') (hd'.1 ▸ hw) (Stack.flag_set_self d _ 0) ?_)
    fun _ => hmenu _ hd').bind fun _ e he => ?_
  · exact hflags.imp_right fun h u hu h27 => (hd'.2 u hu).trans (h u hu h27)
  · exact (Walk.stills hs (hq e he) (All.bind (All.perform rfl) fun _ => All.perform (o := Op.store .nowButtonId 0) rfl)).mono
      fun _ f hf => hf ▸ he

end

/-! ### Displays inside a window function -/

theorem Uncovers.refl (h : Tree a.wins) : Uncovers a a := ⟨h, fun _ hu => .inr hu, .inl rfl⟩

/-- The window on top is drawn. -/
theorem Uncovers.draw {v : Win} (h : Tree a.wins) (hv : a.wins.head? = some v) : Uncovers a (a.set v 1) := by
  refine ⟨h, fun u hu => ?_, .inl rfl⟩
  by_cases huv : u = v
  · subst huv
    exact .inl ⟨hv, hv⟩
  · exact .inr (by rwa [Stack.flag_set_of_ne huv] at hu)

theorem Menu14.uncovers {b : Stack} (h : Menu14 a b) (hw : a.wins.head? = some .w14) : Uncovers a b := by
  refine ⟨h.tree, fun u hu => ?_, h.top⟩
  by_cases hu14 : u = .w14
  · subst hu14
    exact .inl ⟨by rw [h.lit hu, hw], hw⟩
  · exact .inr (h.flag u hu14 ▸ hu)

/-- A window that is uncovered draws itself; the settings menu may be drawn already, and
then takes keys. -/
theorem walk_display_took (h14 : Γ.special .w14 = false) (n : Nat) {w : Win} (ht : Tree a.wins)
    (h1 : a.wins.head? = some .w1 ∨ a.flag .w1 = 0)
    (hland : ∀ v, a.wins.head? = some v → landing v = true)
    (hfresh : ∀ v, a.wins.head? = some v → a.flag v = 0 ∨ (lax .w14 = true ∧ v = .w14)) :
    Γ.Walk (.keys w) (guiWinDisplay n) a fun _ b => Uncovers a b ∧ (lax .w14 = true ∨ b.took = a.took) := by
  cases n with
  | zero => exact Walk.ret ⟨Uncovers.refl ht, .inr rfl⟩
  | succ n =>
    intro x hx hg
    subst hx
    obtain ⟨v, hv⟩ := ht.top
    refine Sight.Run.bind (R := fun top y => top = some v ∧ Γ.Held (.keys w) y ∧ Γ.stack y = Γ.stack x)
      (Sight.Run.perform fun r hcan => ?_) fun top y hy => ?_
    · have hr : r = (Γ.stack x).wins.head? := Γ.stack_can hcan
      subst hr
      obtain ⟨hsafe, hheld⟩ := Γ.top hg hcan
      exact ⟨hsafe, hv, hheld, Γ.stack_after .guiTop _ x⟩
    obtain ⟨rfl, hheld, hstack⟩ := hy
    rw [← hstack] at ht h1 hland hfresh hv ⊢
    refine Sight.Run.bind (R := fun _ z => Γ.Held (.draw v) z ∧ Γ.stack z = Γ.stack y)
      (Sight.Run.perform fun _ hcan => ?_) fun _ z hz => ?_
    · have hmain : v = .w1 ∨ (Γ.stack y).flag .w1 = 0 := h1.imp_left fun e => Option.some.inj (hv.symm.trans e)
      obtain ⟨hsafe, hheld'⟩ := Γ.enter hheld hv (hland v hv) hmain hcan
      exact ⟨hsafe, hheld', Γ.stack_after (.mark (.winFun v)) () y⟩
    obtain ⟨hdraw, hstack'⟩ := hz
    rw [← hstack'] at ht h1 hfresh hv ⊢
    by_cases hf : (Γ.stack z).flag v = 0
    · refine (winFun_draw (guiWinDisplay n) hdraw hf).mono fun _ u hu => ⟨Γ.leave hheld (Γ.turn hu.1), ?_⟩
      rcases hu.2 with e | e
      · rw [e]
        exact ⟨Uncovers.refl ht, .inr rfl⟩
      · rw [e]
        exact ⟨Uncovers.draw ht hv, .inr rfl⟩
    · obtain ⟨hlax, rfl⟩ := (hfresh v hv).resolve_left hf
      have hf1 : (Γ.stack z).flag .w1 = 0 := h1.resolve_left fun e => by rw [hv] at e; cases e
      refine (walk_userMain14 h14 (guiWinDisplay n) ht hv hf hf1 (.inl hlax) z rfl (Γ.turn hdraw)).mono fun _ u hu => ?_
      exact ⟨Γ.leave hheld hu.1, hu.2.uncovers hv, .inl hlax⟩

theorem walk_display (h14 : Γ.special .w14 = false) (n : Nat) {w : Win} (ht : Tree a.wins)
    (h1 : a.wins.head? = some .w1 ∨ a.flag .w1 = 0)
    (hland : ∀ v, a.wins.head? = some v → landing v = true)
    (hfresh : ∀ v, a.wins.head? = some v → a.flag v = 0 ∨ (lax .w14 = true ∧ v = .w14)) :
    Γ.Walk (.keys w) (guiWinDisplay n) a fun _ b => Uncovers a b :=
  (walk_display_took h14 n ht h1 hland hfresh).mono fun _ _ h => h.1

end Guide

end Backwash.Lcd
