import Backwash.Motor.Cycle

/-! The way back to sleep.

A display that is on goes out again through one of two timers, the one of its
supply and the low-power timer. Every key starts the screen timers, and so do
reminders and outcomes; a backwash stops them when it is accepted, and its outcome
starts them again. Requests for a backwash and battery alerts open the display and
start nothing. -/
namespace Backwash.Sleep
open Concurrent Prog Protocol Firmware Motor

/-! ### Requests and outcomes -/

/-- Requests accepted so far: to stop the screen timers is the first thing
`Moto_Cycle` does once it has accepted, and nothing else stops them. -/
def accepted : Trace → Nat
  | [] => 0
  | .did _ o _ :: tr => accepted tr + if o = .timerStop .screenVcc then 1 else 0
  | .began _ _ :: tr => accepted tr

/-- The requests accepted when the thread started the screen timers, until it posts
its outcome or goes on to its commands. -/
def seen (t : Thread) : Trace → Option Nat
  | [] => none
  | .began u _ :: tr => if u = t then none else seen t tr
  | .did u o _ :: tr => if u = t then seenAfter o (accepted tr) (seen t tr) else seen t tr
where
  seenAfter : Op → Nat → Option Nat → Option Nat
    | .timerStart .screenVcc, n, _ => some n
    | .jumpSend _, _, _ | .motoRecv, _, _ => none
    | _, _, x => x

/-- The requests that have posted their outcome. An outcome tells of those accepted
before its thread started the screen timers. -/
def told : Trace → Nat
  | [] => 0
  | .did t (.jumpSend b) _ :: tr => if isOutcome b then max (told tr) ((seen t tr).getD (accepted tr)) else told tr
  | _ :: tr => told tr

/-- Every accepted `Moto_Cycle` has posted its outcome. -/
def settled (tr : Trace) : Bool := accepted tr ≤ told tr

/-! ### Who starts a timer -/

/-- The call starts the screen timers, or takes the supply of the display. -/
def owes : Call → Bool
  | .key _ | .expire .screenVcc | .expire .lowPower => true
  | _ => false

/-- The thread has yet to do so. The overload branch posts before it starts the timers. -/
def due (t : Thread) : Trace → Bool
  | [] => false
  | .began u c :: tr => if u = t then owes c else due t tr
  | .did u o _ :: tr => if u = t then dueAfter o (due t tr) else due t tr
where
  dueAfter : Op → Bool → Bool
    | .timerStart .screenVcc, _ => false
    | .store .lcdFlag n, d => n != 3 && d
    | .jumpSend .stalling, _ => true
    | _, d => d

/-- A request will tell of its outcome, and nobody is about to tell who does not know of it. -/
def owed (tr : Trace) : Bool :=
  decide (told tr < accepted tr) && (seen .motor tr).all (· < accepted tr) && (seen .timer tr).all (· < accepted tr)

/-- A timer that leads to sleep runs, or someone will start one. -/
def wayBack (s : Device) (tr : Trace) : Bool :=
  s.armed .screenVcc || s.armed .lowPower || s.vars .jumptoReminderFlag == 1 || owed tr ||
    due .button tr || due .timer tr || due .motor tr

/-- The request or alert the display thread has taken up last is none that starts a
timer: an automatic backwash or a battery alert. -/
def bare : Trace → Bool
  | [] => false
  | .did .lcd o _ :: tr => bareAfter o (bare tr)
  | _ :: tr => bare tr
where
  bareAfter : Op → Bool → Bool
    | .store .jumptoReminderFlag 0, _ | .store .deltaPressWorkFlag 0, _ => false
    | .store .jumptoAutomaticFlag 0, _ | .store .jumpToBatteryEmptyFlag 0, _ | .store .jumpToBatteryNewFlag 0, _ => true
    | _, b => b

/-! ### The property -/

/-- With every thread at its loop head, the display on, no backwash in progress and
no request waiting, a timer that leads to sleep runs. -/
def Returns (cfg : Conf) : Prop :=
  cfg.task .lcd = none → cfg.task .motor = none → cfg.task .timer = none → cfg.task .button = none →
  cfg.state.vars .lcdFlag ≠ 3 → settled cfg.trace = true →
  (∀ v ∈ [Var.jumptoReminderFlag, .jumptoAutomaticFlag, .jumpToBatteryEmptyFlag, .jumpToBatteryNewFlag,
    .deltaPressWorkFlag], cfg.state.vars v = 0) →
  cfg.state.armed .screenVcc = true ∨ cfg.state.armed .lowPower = true

instance (cfg : Conf) : Decidable (Returns cfg) :=
  inferInstanceAs (Decidable (_ → _ → _ → _ → _ → _ → _ → _))

def atFlag : Option Op → Bool
  | some (.load v) | some (.store v _) => v == .lcdFlag
  | _ => false

/-- For an automatic backwash or a battery alert the display is opened only while
there is a way back, and the backlight timer does not bring back a display without
supply when there is none. -/
def ReturnRule (cfg : Conf) : Act → Prop
  | .step t _ =>
    t = .lcd ∧ bare cfg.trace = true ∧ atFlag (cfg.head .lcd) = true → wayBack cfg.state cfg.trace = true
  | .start _ c =>
    c = .expire .screenBacklight ∧ cfg.state.vars .lcdFlag = 3 → wayBack cfg.state cfg.trace = true

instance (cfg : Conf) : ∀ a, Decidable (ReturnRule cfg a)
  | .step _ _ => inferInstanceAs (Decidable (_ → _))
  | .start _ _ => inferInstanceAs (Decidable (_ → _))

/-! ### The invariant -/

inductive Stand where
  | idle
  -- yet to start the screen timers or to take the supply
  | due
  -- has started them and is about to post
  | posting
  -- the timer thread, darkening the display
  | dimming
  -- the display thread: has opened for the flow sensor, and asked for a backwash in turn
  | delta | asked
  -- serving a reminder, or a request that starts no timer: before and after the flag is read
  | reminding | served | opening
  deriving DecidableEq

/-- The display thread will see to the way back, or is held to it by the rule. -/
def Stand.bound : Stand → Bool
  | .delta | .asked | .reminding | .served => true
  | _ => false

structure Return (gs : Thread → Stand) (s : Device) (tr : Trace) : Prop where
  covered : (s.vars .lcdFlag = 3 ∧ gs .timer ≠ .dimming) ∨ wayBack s tr = true ∨ (gs .lcd).bound = true
  asked : gs .lcd = .asked → s.vars .jumptoAutomaticFlag = 1
  taken : gs .lcd = .served ∨ gs .lcd = .opening → bare tr = true
  owing : ∀ t, due t tr = true ↔ gs t = .due
  posting : ∀ t, gs t = .posting → (seen t tr).isSome = true

variable {depth : Nat}

def home (depth : Nat) : Protocol (board (fun _ => true) depth) Stand where
  Rule := ReturnRule
  Inv := Return
  At := fun _ c g => g = .idle ∨ c ≠ none

/-! ### The history, one event longer -/

section
variable {t u : Thread} {c : Call} {o : Op} {i : Input} {s : Device} {tr : Trace} {n : Nat}

theorem seen_did_of_ne (h : u ≠ t) : seen t (.did u o i :: tr) = seen t tr := if_neg h

@[simp] theorem seen_did_self : seen t (.did t o i :: tr) = seen.seenAfter o (accepted tr) (seen t tr) := if_pos rfl

theorem due_did_of_ne (h : u ≠ t) : due t (.did u o i :: tr) = due t tr := if_neg h

@[simp] theorem due_did_self : due t (.did t o i :: tr) = due.dueAfter o (due t tr) := if_pos rfl

/-- Only a start of the screen timers tells a thread more than it knew. -/
theorem seen_did (tr : Trace) (ho : o ≠ .timerStart .screenVcc) :
    seen t (.did u o i :: tr) = seen t tr ∨ seen t (.did u o i :: tr) = none := by
  by_cases hu : u = t
  · subst hu
    rw [seen_did_self]
    cases o with
    | timerStart x => cases x <;> first | exact .inl rfl | exact absurd rfl ho
    | jumpSend b => exact .inr rfl
    | motoRecv => exact .inr rfl
    | _ => exact .inl rfl
  · exact .inl (seen_did_of_ne hu)

theorem seen_le (t : Thread) (tr : Trace) : ∀ n, seen t tr = some n → n ≤ accepted tr := by
  induction tr with
  | nil => exact fun n h => by cases h
  | cons e tr ih =>
    intro n h
    cases e with
    | began u c =>
      by_cases hu : u = t
      · simp [seen, hu] at h
      · rw [seen, if_neg hu] at h
        exact ih n h
    | did u o i =>
      have hle : accepted tr ≤ accepted (.did u o i :: tr) := Nat.le_add_right _ _
      by_cases ho : u = t ∧ o = .timerStart .screenVcc
      · obtain ⟨rfl, rfl⟩ := ho
        rw [seen_did_self] at h
        cases h
        exact hle
      · have hsame : seen t (.did u o i :: tr) = seen t tr ∨ seen t (.did u o i :: tr) = none := by
          by_cases hu : u = t
          · exact seen_did _ fun e => ho ⟨hu, e⟩
          · exact .inl (seen_did_of_ne hu)
        rcases hsame with e | e
        · exact Nat.le_trans (ih n (e ▸ h)) hle
        · rw [e] at h
          cases h

theorem told_did (ho : ∀ b, o = .jumpSend b → isOutcome b = false) : told (.did t o i :: tr) = told tr := by
  cases o with
  | jumpSend b => simp [told, ho b rfl]
  | _ => rfl

theorem told_le (tr : Trace) : told tr ≤ accepted tr := by
  induction tr with
  | nil => exact Nat.le_refl 0
  | cons e tr ih =>
    cases e with
    | began u c => exact ih
    | did u o i =>
      have hle : accepted tr ≤ accepted (.did u o i :: tr) := Nat.le_add_right _ _
      refine Nat.le_trans ?_ hle
      by_cases hp : ∃ b, o = .jumpSend b ∧ isOutcome b = true
      · obtain ⟨b, rfl, hb⟩ := hp
        have hseen : (seen u tr).getD (accepted tr) ≤ accepted tr := by
          cases hs : seen u tr with
          | none => exact Nat.le_refl _
          | some n => exact seen_le u tr n hs
        simp only [told, hb, if_true]
        omega
      · rw [told_did fun b e => by simpa using fun hb => hp ⟨b, e, hb⟩]
        exact ih

/-! ### What keeps the way back -/

theorem wayBack_iff : wayBack s tr = true ↔
    s.armed .screenVcc = true ∨ s.armed .lowPower = true ∨ s.vars .jumptoReminderFlag = 1 ∨ owed tr = true ∨
      due .button tr = true ∨ due .timer tr = true ∨ due .motor tr = true := by
  simp [wayBack, or_assoc]

theorem owed_iff : owed tr = true ↔ told tr < accepted tr ∧ (∀ n, seen .motor tr = some n → n < accepted tr) ∧
    ∀ n, seen .timer tr = some n → n < accepted tr := by
  cases hm : seen .motor tr <;> cases ht : seen .timer tr <;> simp [owed, hm, ht, and_assoc]

/-- An accepted request has its outcome still to come. -/
theorem owed_accept : owed (.did t (.timerStop .screenVcc) i :: tr) = true := by
  have hacc : accepted (.did t (.timerStop .screenVcc) i :: tr) = accepted tr + 1 := rfl
  have hseen : ∀ u n, seen u (.did t (.timerStop .screenVcc) i :: tr) = some n →
      n < accepted (.did t (.timerStop .screenVcc) i :: tr) := by
    intro u n h
    rcases seen_did (t := u) (u := t) (o := .timerStop .screenVcc) (i := i) tr (by simp) with e | e
    · have hle := seen_le u tr n (e ▸ h)
      omega
    · rw [e] at h
      cases h
  refine owed_iff.mpr ⟨?_, hseen _, hseen _⟩
  have hle := told_le tr
  rw [told_did (by simp)]
  omega

/-- The thread may post: it tells of what it has seen, or it will start the timers. -/
def mayTell (t : Thread) (tr : Trace) (b : JumpBit) : Prop :=
  (t = .motor ∨ t = .timer) ∧ ((seen t tr).isSome = true ∨ (t = .motor ∧ b = .stalling))

theorem owed_did (h : owed tr = true) (ho : o ≠ .timerStart .screenVcc)
    (hp : ∀ b, o = .jumpSend b → isOutcome b = true → (t = .motor ∨ t = .timer) ∧ (seen t tr).isSome = true) :
    owed (.did t o i :: tr) = true := by
  obtain ⟨htold, hm, ht⟩ := owed_iff.mp h
  have hle : accepted tr ≤ accepted (.did t o i :: tr) := Nat.le_add_right _ _
  have hseen : ∀ u, (∀ n, seen u tr = some n → n < accepted tr) →
      ∀ n, seen u (.did t o i :: tr) = some n → n < accepted (.did t o i :: tr) := by
    intro u hu n hn
    rcases seen_did (t := u) (u := t) (i := i) tr ho with e | e
    · have hlt := hu n (e ▸ hn)
      omega
    · rw [e] at hn
      cases hn
  refine owed_iff.mpr ⟨?_, hseen _ hm, hseen _ ht⟩
  refine Nat.lt_of_lt_of_le ?_ hle
  by_cases hb : ∃ b, o = .jumpSend b ∧ isOutcome b = true
  · obtain ⟨b, rfl, hb⟩ := hb
    obtain ⟨hthread, hsome⟩ := hp b rfl hb
    obtain ⟨n, hn⟩ := Option.isSome_iff_exists.mp hsome
    have hlt : n < accepted tr := by
      rcases hthread with rfl | rfl
      · exact hm n hn
      · exact ht n hn
    simp only [told, hb, if_true, hn, Option.getD_some]
    omega
  · rw [told_did fun b e => by simpa using fun hb' => hb ⟨b, e, hb'⟩]
    exact htold

/-- The operation neither takes the supply nor withdraws a reminder nor stops the low-power timer. -/
def spares : Op → Bool
  | .store v n => match v with
    | .lcdFlag => n != 3
    | .jumptoReminderFlag => n == 1
    | _ => true
  | .timerStop x => x != .lowPower
  | _ => true

theorem exec_var_one {v : Var} (h : s.vars v = 1) (hw : 1 % 2 ^ v.width = 1) (hf : ∀ w, v ≠ .firstFlag w)
    (hb : v ≠ .buttonWakeupFlag) (ho : ∀ n, o = .store v n → n = 1) : (exec t o i s).1.vars v = 1 := by
  by_cases hs : ∃ n, o = .store v n
  · obtain ⟨n, rfl⟩ := hs
    simp [exec, Device.store, ho n rfl, hw]
  · rw [exec_vars (fun n e => hs ⟨n, e⟩) hf hb, h]

theorem due_did (h : due u tr = true) (hstart : o ≠ .timerStart .screenVcc) (ho : spares o = true) :
    due u (.did t o i :: tr) = true := by
  by_cases ht : t = u
  · subst ht
    rw [due_did_self, h]
    cases o with
    | timerStart x => cases x <;> first | rfl | exact absurd rfl hstart
    | store v n => cases v <;> first | rfl | simpa [due.dueAfter, spares] using ho
    | jumpSend b => cases b <;> rfl
    | _ => rfl
  · rw [due_did_of_ne ht, h]

theorem wayBack_did (h : wayBack s tr = true) (ho : spares o = true)
    (hp : ∀ b, o = .jumpSend b → isOutcome b = true → mayTell t tr b) :
    wayBack (exec t o i s).1 (.did t o i :: tr) = true := by
  rw [wayBack_iff]
  by_cases hstart : o = .timerStart .screenVcc
  · subst hstart
    exact .inl (by simp [exec, Device.armed, Device.setTimer])
  by_cases hstop : o = .timerStop .screenVcc
  · subst hstop
    exact .inr (.inr (.inr (.inl owed_accept)))
  rcases wayBack_iff.mp h with hv | hl | hr | hw | hd | hd | hd
  · exact .inl (by rw [exec_armed hstart hstop, hv])
  · by_cases hlow : o = .timerStart .lowPower
    · subst hlow
      exact .inr (.inl (by simp [exec, Device.armed, Device.setTimer]))
    · exact .inr (.inl (by rw [exec_armed hlow (fun e => by rw [e] at ho; cases ho), hl]))
  · refine .inr (.inr (.inl (exec_var_one hr rfl (by simp) (by decide) fun n e => ?_)))
    rw [e] at ho
    simpa [spares] using ho
  · by_cases hsend : t = .motor ∧ o = .jumpSend .stalling
    · -- the overload branch posts first and starts the timers then
      obtain ⟨rfl, rfl⟩ := hsend
      exact .inr (.inr (.inr (.inr (.inr (.inr rfl)))))
    · refine .inr (.inr (.inr (.inl (owed_did hw hstart fun b e hb => ?_))))
      obtain ⟨hthread, hsome | ⟨hmotor, hstall⟩⟩ := hp b e hb
      · exact ⟨hthread, hsome⟩
      · exact absurd ⟨hmotor, by rw [e, hstall]⟩ hsend
  · exact .inr (.inr (.inr (.inr (.inl (due_did hd hstart ho)))))
  · exact .inr (.inr (.inr (.inr (.inr (.inl (due_did hd hstart ho))))))
  · exact .inr (.inr (.inr (.inr (.inr (.inr (due_did hd hstart ho))))))

end

/-! ### One operation -/

section
variable {t : Thread} {o : Op} {i : Input} {s s' : Device} {tr : Trace} {gs : Thread → Stand} {m : Stand}

/-- The operation is of no concern to the way back. -/
def harmless : Op → Bool
  | .store v n => match v with
    | .lcdFlag => false
    | .jumptoReminderFlag | .jumptoAutomaticFlag | .jumpToBatteryEmptyFlag | .jumpToBatteryNewFlag
    | .deltaPressWorkFlag => n == 1
    | _ => true
  | .jumpSend b => !isOutcome b
  | .timerStart x => x != .screenVcc
  | .timerStop x => x != .lowPower
  | _ => true

/-- The operation leaves what its thread has seen. -/
def silent : Op → Bool
  | .jumpSend _ | .motoRecv => false
  | _ => true

theorem spares_of_harmless (h : harmless o = true) : spares o = true := by
  cases o with
  | store v n => cases v <;> first | rfl | exact h | cases h
  | timerStop x => exact h
  | _ => rfl

theorem bare_harmless (h : harmless o = true) : bare (.did t o i :: tr) = bare tr := by
  cases t with
  | lcd =>
    cases o with
    | store v n =>
      by_cases hn : n = 1
      · subst hn
        cases v <;> rfl
      · cases v <;> first | rfl | exact absurd (by simpa [harmless] using h) hn
    | _ => rfl
  | _ => rfl

theorem due_harmless (h : harmless o = true) : due t (.did t o i :: tr) = due t tr := by
  rw [due_did_self]
  cases o with
  | store v n => cases v <;> first | rfl | cases h
  | timerStart x => cases x <;> first | rfl | cases h
  | jumpSend b => cases b <;> first | rfl | cases h
  | _ => rfl

theorem seen_silent (h : harmless o = true) (hs : silent o = true) : seen t (.did t o i :: tr) = seen t tr := by
  rw [seen_did_self]
  cases o with
  | timerStart x => cases x <;> first | rfl | cases h
  | jumpSend b => cases hs
  | motoRecv => cases hs
  | _ => rfl

theorem flag_harmless (h : harmless o = true) : (exec t o i s).1.vars .lcdFlag = s.vars .lcdFlag :=
  exec_vars (fun n e => by rw [e] at h; cases h) (by simp) (by decide) i

theorem automatic_harmless (h : harmless o = true) (hs : s.vars .jumptoAutomaticFlag = 1) :
    (exec t o i s).1.vars .jumptoAutomaticFlag = 1 :=
  exec_var_one hs rfl (by simp) (by decide) fun n e => by rw [e] at h; simpa [harmless] using h

theorem wayBack_harmless (h : harmless o = true) (hw : wayBack s tr = true) :
    wayBack (exec t o i s).1 (.did t o i :: tr) = true :=
  wayBack_did hw (spares_of_harmless h) fun b e hb => by rw [e] at h; simp [harmless, hb] at h

/-- A step of one thread owes the display thread's promises and what the thread itself stands for. -/
theorem Return.did (h : Return gs s tr)
    (hcov : (s'.vars .lcdFlag = 3 ∧ Function.update gs t m .timer ≠ .dimming) ∨
      wayBack s' (.did t o i :: tr) = true ∨ (Function.update gs t m .lcd).bound = true)
    (hask : Function.update gs t m .lcd = .asked → s'.vars .jumptoAutomaticFlag = 1)
    (hbare : Function.update gs t m .lcd = .served ∨ Function.update gs t m .lcd = .opening →
      bare (.did t o i :: tr) = true)
    (hdue : due t (.did t o i :: tr) = true ↔ m = .due)
    (hpost : m = .posting → (seen t (.did t o i :: tr)).isSome = true) :
    Return (Function.update gs t m) s' (.did t o i :: tr) := by
  refine ⟨hcov, hask, hbare, fun u => ?_, fun u hu => ?_⟩
  · by_cases hut : u = t
    · subst hut
      rw [Function.update_self]
      exact hdue
    · rw [Function.update_of_ne hut, due_did_of_ne (Ne.symm hut)]
      exact h.owing u
  · by_cases hut : u = t
    · subst hut
      rw [Function.update_self] at hu
      exact hpost hu
    · rw [Function.update_of_ne hut] at hu
      rw [seen_did_of_ne (Ne.symm hut)]
      exact h.posting u hu

theorem Return.keep (h : Return gs s tr) (ho : harmless o = true) (hs : gs t = .posting → silent o = true) :
    Return gs (exec t o i s).1 (.did t o i :: tr) := by
  have hstep : Return (Function.update gs t (gs t)) (exec t o i s).1 (.did t o i :: tr) := by
    refine h.did ?_ ?_ ?_ ?_ fun e => ?_
    all_goals
      try rw [Function.update_eq_self]
    · rw [flag_harmless ho]
      exact h.covered.imp id fun hc => hc.imp (wayBack_harmless ho) id
    · exact fun e => automatic_harmless ho (h.asked e)
    · rw [bare_harmless ho]
      exact h.taken
    · rw [due_harmless ho]
      exact h.owing t
    · rw [seen_silent ho (hs e)]
      exact h.posting t e
  rwa [Function.update_eq_self] at hstep

/-- A start of the screen timers is itself the way back. -/
theorem Return.refresh (h : Return gs s tr) (hm : m = .idle ∨ m = .posting) (ht : t ≠ .lcd ∨ m = .idle) :
    Return (Function.update gs t m) (exec t (.timerStart .screenVcc) i s).1
      (.did t (.timerStart .screenVcc) i :: tr) := by
  have harmed : (exec t (.timerStart .screenVcc) i s).1.armed .screenVcc = true := by
    simp [exec, Device.armed, Device.setTimer]
  have hlcd : Function.update gs t m .lcd = gs .lcd ∨ Function.update gs t m .lcd = .idle := by
    by_cases hl : t = .lcd
    · subst hl
      exact .inr (by rw [Function.update_self]; exact ht.resolve_left (absurd rfl))
    · exact .inl (Function.update_of_ne (Ne.symm hl) _ _)
  refine h.did (.inr (.inl (wayBack_iff.mpr (.inl harmed)))) (fun e => ?_) (fun e => ?_) ?_ fun _ => ?_
  · rcases hlcd with hl | hl
    · exact h.asked (hl ▸ e)
    · rw [hl] at e
      cases e
  · have hb : bare (.did t (.timerStart .screenVcc) i :: tr) = bare tr := by cases t <;> rfl
    rw [hb]
    rcases hlcd with hl | hl
    · exact h.taken (hl ▸ e)
    · rw [hl] at e
      rcases e with e | e <;> cases e
  · rw [due_did_self]
    rcases hm with rfl | rfl <;> simp [due.dueAfter]
  · rw [seen_did_self]
    rfl

end

/-! ### Stretches of a program -/

section
variable {t : Thread} {c : Call} {o : Op} {g m : Stand}

theorem at_call (g : Stand) : (home depth).At t (some c) g := .inr nofun

theorem home_keep {α : Type} {p : Code α}
    (hp : p.All fun o => harmless o = true ∧ (g = .posting → silent o = true)) :
    (home depth).Outline t c p g fun _ x => x = g := by
  refine Outline.keep (at_call g) (hp.mono fun o ho cfg gs i _ _ hg hold _ => ?_) fun _ => rfl
  have hinv : Return gs cfg.state cfg.trace := hold.1
  exact hinv.keep ho.1 fun e => ho.2 (hg ▸ e)

theorem home_harmless {α : Type} {p : Code α} (hg : g ≠ .posting) (hp : p.All fun o => harmless o = true) :
    (home depth).Outline t c p g fun _ x => x = g :=
  home_keep (hp.mono fun _ ho => ⟨ho, fun e => absurd e hg⟩)

theorem home_refresh (hm : m = .idle ∨ m = .posting) (ht : t ≠ .lcd ∨ m = .idle) :
    (home depth).Outline t c (timerStart .screenVcc) g fun _ x => x = m :=
  Outline.move (at_call m) (fun _ _ _ _ _ _ hold _ => Return.refresh hold.1 hm ht) fun _ => rfl

/-- `ScreenTimerRefresh`: the supply's timer comes last. -/
theorem home_screenTimerRefresh (hg : g ≠ .posting) (hm : m = .idle ∨ m = .posting) (ht : t ≠ .lcd ∨ m = .idle) :
    (home depth).Outline t c screenTimerRefresh g fun _ x => x = m :=
  (home_harmless hg (All.perform rfl)).seq fun _ => home_refresh hm ht

/-- `OpenLcdDisplay`, read under one mark and written under another. -/
theorem home_openLcdDisplay (hm : m ≠ .posting)
    (hload : (home depth).Outline t c (load .lcdFlag) g fun _ x => x = m)
    (hstore : ∀ n, n = 0 ∨ n = 1 → (home depth).Outline t c (store .lcdFlag n) m fun _ x => x = m) :
    (home depth).Outline t c openLcdDisplay g fun _ x => x = m := by
  refine hload.seq fun (f : Nat) => ?_
  split
  · exact hstore 0 (.inl rfl)
  · exact (hstore 1 (.inr rfl)).seq fun _ => home_harmless hm (All.perform rfl)
  · refine (hstore 1 (.inr rfl)).seq fun _ => home_harmless hm ?_
    unfold lcdInit
    repeat' first | intro _ | with_reducible apply All.bind | exact All.perform rfl
  · rfl

/-! ### The display thread -/

/-- The display thread does nothing that makes it owe a timer to others. -/
theorem lcd_due {gs : Thread → Stand} {s : Device} {tr : Trace} {i : Input} (h : Return gs s tr)
    (hg : gs .lcd ≠ .due) (ho : o ≠ .jumpSend .stalling) : due .lcd (.did .lcd o i :: tr) = false := by
  have hd : due .lcd tr = false := by simpa using mt (h.owing .lcd).mp hg
  rw [due_did_self, hd]
  cases o with
  | timerStart x => cases x <;> rfl
  | store v n => cases v <;> simp [due.dueAfter]
  | jumpSend b => cases b <;> first | rfl | exact absurd rfl ho
  | _ => rfl

/-- An operation of the display thread that ends with a promise, or with a way back. -/
theorem lcd_move (hg : g ≠ .due) (hm : m ≠ .due ∧ m ≠ .posting) (ho : o ≠ .jumpSend .stalling)
    (hcov : m.bound = true ∨ ∀ gs s tr i, Return gs s tr → gs .lcd = g →
      (bare tr = true ∧ atFlag (some o) = true → wayBack s tr = true) →
      wayBack (exec .lcd o i s).1 (.did .lcd o i :: tr) = true)
    (hask : m = .asked → ∀ s i, (exec .lcd o i s).1.vars .jumptoAutomaticFlag = 1)
    (htaken : m = .served ∨ m = .opening → ∀ tr i, (g = .served ∨ g = .opening → bare tr = true) →
      bare (.did .lcd o i :: tr) = true) :
    (home depth).Outline .lcd c (perform o) g fun _ x => x = m := by
  refine Outline.move (at_call m) (fun cfg gs i _ hhead hgs hold hr => ?_) fun _ => rfl
  have hinv : Return gs cfg.state cfg.trace := hold.1
  have hrule : bare cfg.trace = true ∧ atFlag (some o) = true → wayBack cfg.state cfg.trace = true :=
    fun h => hr ⟨rfl, h.1, hhead ▸ h.2⟩
  refine hinv.did (.inr ?_) ?_ ?_ ?_ fun e => absurd e hm.2
  · rw [Function.update_self]
    rcases hcov with hb | hw
    · exact .inr hb
    · exact .inl (hw gs cfg.state cfg.trace i hinv hgs hrule)
  · rw [Function.update_self]
    exact fun e => hask e cfg.state i
  · rw [Function.update_self]
    refine fun e => htaken e cfg.trace i fun he => hinv.taken ?_
    rwa [hgs]
  · rw [lcd_due hinv (hgs ▸ hg) ho]
    exact ⟨fun e => absurd e Bool.false_ne_true, fun e => absurd e hm.1⟩

/-- Without a promise to keep, the display thread forgets what it has taken up. -/
theorem lcd_rest (hg : g = .idle ∨ g = .opening) (ho : harmless o = true) :
    (home depth).Outline .lcd c (perform o) g fun _ x => x = .idle := by
  refine Outline.move (at_call _) (fun cfg gs i _ _ hgs hold _ => ?_) fun _ => rfl
  have hinv : Return gs cfg.state cfg.trace := hold.1
  have hkeep := hinv.keep (i := i) ho fun e => by rw [hgs] at e; rcases hg with rfl | rfl <;> cases e
  have hbound : (gs .lcd).bound = false := by
    rw [hgs]
    rcases hg with rfl | rfl <;> rfl
  refine hinv.did ?_ ?_ ?_ ?_ fun e => by cases e
  · rcases hkeep.covered with hc | hc | hc
    · exact .inl hc
    · exact .inr (.inl hc)
    · exact absurd (hbound.symm.trans hc) Bool.false_ne_true
  · rw [Function.update_self]
    exact fun e => by cases e
  · rw [Function.update_self]
    exact fun e => by rcases e with e | e <;> cases e
  · rw [hkeep.owing .lcd, hgs]
    rcases hg with rfl | rfl <;> simp

theorem harmless_of_winMay {w : Win} (h : winMay w o = true) : harmless o = true := by
  obtain ⟨hmay, hown⟩ := Bool.and_eq_true_iff.mp h
  cases o with
  | store v n => cases v <;> simp_all [ownMay, harmless]
  | jumpSend b => cases b <;> simp_all [may, lcdMay, harmless, isOutcome]
  | timerStart x => cases x <;> simp_all [ownMay, requestMay, harmless]
  | timerStop x => cases x <;> simp_all [may, lcdMay, harmless]
  | _ => rfl

theorem harmless_motoCycle (caller : Caller) : (motoCycle caller).All fun o => harmless o = true :=
  built_motoCycle (All.compositional _) (fun _ h => All.perform (harmless_of_winMay (winMay_of_requestMay h)))
    fun _ hp => All.bind (All.perform rfl) fun _ => hp

theorem harmless_guiWinDisplay (n : Nat) : (guiWinDisplay n).All fun o => harmless o = true := by
  induction n with
  | zero => exact All.pure ()
  | succ n ih =>
    refine All.bind (All.perform rfl) fun top => ?_
    cases top with
    | none => exact All.pure ()
    | some w =>
      exact All.bind (All.perform rfl) fun _ =>
        built_winFun (All.compositional _) ih fun _ ho => All.perform (harmless_of_winMay ho)

/-- For the flow sensor the display is opened, and a reminder or a backwash is asked for. -/
theorem home_deltaPressWork :
    (home depth).Outline .lcd c deltaPressWork .idle fun _ x => x = .idle ∨ x = .asked := by
  have hload : (home depth).Outline .lcd c (load .lcdFlag) .idle fun _ x => x = .delta :=
    lcd_move (by decide) (by decide) (by decide) (.inl rfl) (by simp) (by simp)
  have hstore : ∀ n, n = 0 ∨ n = 1 → (home depth).Outline .lcd c (store .lcdFlag n) .delta fun _ x => x = .delta :=
    fun n _ => lcd_move (by decide) (by decide) (by simp) (.inl rfl) (by simp) (by simp)
  have hclear : (home depth).Outline .lcd c (store .deltaPressWorkFlag 0) .idle fun _ x => x = .idle := by
    refine Outline.move (at_call _) (fun cfg gs i _ _ hgs hold _ => ?_) fun _ => rfl
    have hinv : Return gs cfg.state cfg.trace := hold.1
    refine hinv.did ?_ ?_ ?_ ?_ fun e => by cases e
    · rcases hinv.covered with hc | hc | hc
      · exact .inl hc
      · exact .inr (.inl (wayBack_did hc rfl fun b e => by cases e))
      · rw [hgs] at hc
        cases hc
    · rw [Function.update_self]
      exact fun e => by cases e
    · rw [Function.update_self]
      exact fun e => by rcases e with e | e <;> cases e
    · rw [lcd_due hinv (by rw [hgs]; decide) (by decide)]
      simp
  refine (home_harmless (by decide) (All.perform rfl)).seq fun (f : Nat) => Outline.when (fun _ => ?_) fun _ => .inl rfl
  refine hclear.seq fun _ => (home_harmless (by decide) (All.perform rfl)).seq fun (e : Nat) => ?_
  refine Outline.when (fun _ => ?_) fun _ => .inl rfl
  refine Outline.seq (m := .idle) (home_harmless (by decide) ?_) fun _ => ?_
  · exact all_countUp rfl (fun _ => rfl) fun _ => all_flashSet rfl rfl rfl
  refine (home_openLcdDisplay (by decide) hload hstore).seq fun _ => ?_
  refine (home_harmless (by decide) (All.perform rfl)).seq fun (a : Nat) => Outline.ite (fun _ => ?_) fun _ => ?_
  · refine (home_harmless (by decide) (All.perform rfl)).seq fun _ => ?_
    refine Outline.seq (m := .delta) (home_harmless (by decide) ?_) fun _ => ?_
    · exact all_countUp rfl (fun _ => rfl) fun _ => all_flashSet rfl rfl rfl
    · have hask : (home depth).Outline .lcd c (store .jumptoAutomaticFlag 1) .delta fun _ x => x = .asked :=
        lcd_move (by decide) (by decide) (by decide) (.inl rfl) (fun _ _ _ => rfl) (by simp)
      exact hask.mono fun _ _ e => .inr e
  · refine (home_harmless (by decide) (All.perform rfl)).seq fun _ => ?_
    have hremind : (home depth).Outline .lcd c (store .jumptoReminderFlag 1) .delta fun _ x => x = .idle :=
      lcd_move (by decide) (by decide) (by decide) (.inr fun _ _ _ _ _ _ _ => wayBack_iff.mpr (.inr (.inr (.inl rfl)))) (by simp)
        (by simp)
    exact hremind.mono fun _ _ e => .inl e

theorem home_serveReminder (hg : g = .idle ∨ g = .asked) :
    (home depth).Outline .lcd c
      (serve .jumptoReminderFlag do
        lcdtoReminder
        openLcdDisplay
        screenTimerRefresh) g fun _ x => x = .idle ∨ x = .asked := by
  have hpost : g ≠ .posting := by rcases hg with rfl | rfl <;> decide
  have hclear : (home depth).Outline .lcd c (store .jumptoReminderFlag 0) g fun _ x => x = .reminding :=
    lcd_move (by rcases hg with rfl | rfl <;> decide) (by decide) (by decide) (.inl rfl) (by simp) (by simp)
  have hstore : ∀ n, n = 0 ∨ n = 1 →
      (home depth).Outline .lcd c (store .lcdFlag n) .reminding fun _ x => x = .reminding :=
    fun n _ => lcd_move (by decide) (by decide) (by simp) (.inl rfl) (by simp) (by simp)
  refine (home_harmless hpost (All.perform rfl)).seq fun (f : Nat) => Outline.when (fun _ => ?_) fun _ => hg
  refine hclear.seq fun _ => Outline.seq (m := .reminding) (home_harmless (by decide) ?_) fun _ => ?_
  · simp only [lcdtoReminder]
    repeat' first
      | intro _ | with_reducible apply All.bind | with_reducible apply All.ite | exact All.perform rfl
  refine (home_openLcdDisplay (by decide) (home_harmless (by decide) (All.perform rfl)) hstore).seq fun _ => ?_
  exact (home_screenTimerRefresh (by decide) (.inl rfl) (.inr rfl)).mono fun _ _ e => .inl e

/-- Where nothing starts a timer, the rule speaks when the flag is read and when it is written. -/
theorem home_openBare : (home depth).Outline .lcd c openLcdDisplay .served fun _ x => x = .opening := by
  refine home_openLcdDisplay (by decide) ?_ fun n hn => ?_
  · refine lcd_move (by decide) (by decide) (by decide) (.inr fun gs s tr i hinv hg hr => ?_) (by simp)
      fun _ tr i h => h (.inl rfl)
    exact wayBack_did (hr ⟨hinv.taken (.inl hg), rfl⟩) rfl fun b e => by cases e
  · refine lcd_move (by decide) (by decide) (by simp) (.inr fun gs s tr i hinv hg hr => ?_) (by simp) fun _ tr i h =>
      h (.inr rfl)
    exact wayBack_did (hr ⟨hinv.taken (.inr hg), rfl⟩) (by rcases hn with rfl | rfl <;> rfl) fun b e => by cases e

theorem home_serveAutomatic (hg : g = .idle ∨ g = .asked) :
    (home depth).Outline .lcd c
      (serve .jumptoAutomaticFlag do
        lcdtoBackwash
        openLcdDisplay) g fun _ x => x = .idle ∨ x = .opening := by
  have hclear : (home depth).Outline .lcd c (store .jumptoAutomaticFlag 0) g fun _ x => x = .served :=
    lcd_move (by rcases hg with rfl | rfl <;> decide) (by decide) (by decide) (.inl rfl) (by simp) fun _ _ _ _ => rfl
  -- what was asked for has not been taken back
  have hload : (home depth).Outline .lcd c (load .jumptoAutomaticFlag) g fun f x => x = g ∧ (g = .asked → f = 1) := by
    refine Outline.perform fun cfg gs i _ _ hgs hold _ => ⟨g, at_call g, ?_, rfl, fun e => ?_⟩
    · have hinv : Return gs cfg.state cfg.trace := hold.1
      rw [← hgs, Function.update_eq_self]
      exact hinv.keep rfl fun e => by rw [hgs] at e; rcases hg with rfl | rfl <;> cases e
    · have hinv : Return gs cfg.state cfg.trace := hold.1
      exact hinv.asked (hgs.trans e)
  refine hload.bind fun (f : Nat) x hx => ?_
  obtain ⟨rfl, hf⟩ := hx
  refine Outline.when (fun _ => ?_) fun hn => ?_
  · refine hclear.seq fun _ => Outline.seq (m := .served) (home_harmless (by decide) ?_) fun _ =>
      home_openBare.mono fun _ _ e => .inr e
    simp only [lcdtoBackwash]
    repeat' first
      | with_reducible exact harmless_motoCycle _ | intro _ | with_reducible apply All.bind
      | with_reducible apply All.ite | exact All.perform rfl
  · rcases hg with rfl | rfl
    · exact .inl rfl
    · exact absurd (hf rfl) hn

/-- The two battery alerts. -/
theorem home_serveAlert {flag : Var} {w : Win}
    (hf : flag = .jumpToBatteryEmptyFlag ∨ flag = .jumpToBatteryNewFlag) (hg : g = .idle ∨ g = .opening) :
    (home depth).Outline .lcd c (serve flag (pushAlert w)) g fun _ x => x = .idle ∨ x = .opening := by
  refine (lcd_rest hg rfl).seq fun (f : Nat) => Outline.when (fun _ => ?_) fun _ => .inl rfl
  have hclear : (home depth).Outline .lcd c (store flag 0) .idle fun _ x => x = .served :=
    lcd_move (by decide) (by decide) (by simp) (.inl rfl) (by simp) fun _ _ _ _ => by rcases hf with rfl | rfl <;> rfl
  refine hclear.seq fun _ => (home_harmless (by decide) (All.perform rfl)).seq fun _ => ?_
  exact (home_harmless (by decide) (All.perform rfl)).seq fun _ => home_openBare.mono fun _ _ e => .inr e

theorem home_lcdTaskEntry (n : Nat) : (home depth).Outline .lcd c (lcdTaskEntry n) .idle fun _ x => x = .idle := by
  refine (home_harmless (by decide) (harmless_guiWinDisplay n)).seq fun _ => ?_
  refine home_deltaPressWork.bind fun _ g hg => (home_serveReminder hg).bind fun _ g hg => ?_
  refine (home_serveAutomatic hg).bind fun _ g hg => (home_serveAlert (.inl rfl) hg).bind fun _ g hg => ?_
  exact (home_serveAlert (.inr rfl) hg).bind fun _ g hg => lcd_rest hg rfl

/-! ### The keys -/

theorem home_keyOpen : (home depth).Outline .button c openLcdDisplay .due fun _ x => x = .due := by
  refine home_openLcdDisplay (by decide) (home_harmless (by decide) (All.perform rfl)) fun n hn => ?_
  refine Outline.move (at_call _) (fun cfg gs i _ _ hgs hold _ => ?_) fun _ => rfl
  have hinv : Return gs cfg.state cfg.trace := hold.1
  have hdue : due .button cfg.trace = true := (hinv.owing .button).mpr hgs
  have hn3 : spares (.store .lcdFlag n) = true := by rcases hn with rfl | rfl <;> rfl
  have hstill : due .button (.did .button (.store .lcdFlag n) i :: cfg.trace) = true := due_did hdue (by simp) hn3
  refine hinv.did (.inr (.inl ?_)) ?_ ?_ ⟨fun _ => rfl, fun _ => hstill⟩ fun e => by cases e
  · exact wayBack_iff.mpr (.inr (.inr (.inr (.inr (.inl hstill)))))
  · rw [Function.update_of_ne (by decide)]
    exact fun e => exec_var_one (t := .button) (i := i) (hinv.asked e) rfl (by simp) (by decide) fun n e => by cases e
  · rw [Function.update_of_ne (by decide)]
    exact hinv.taken

theorem home_keyCallback (k : Key) : (home depth).Outline .button c (keyCallback k) .due fun _ x => x = .idle := by
  have hrefresh : (home depth).Outline .button c screenTimerRefresh .due fun _ x => x = .idle :=
    home_screenTimerRefresh (by decide) (.inl rfl) (.inl (by decide))
  cases k
  all_goals
    simp only [keyCallback, keySemRelease, k2LongSemRelease, k2LongFreeRelease, incr]
    refine home_keyOpen.seq fun _ => hrefresh.seq fun _ => home_harmless (by decide) ?_
    repeat' first
      | intro _ | with_reducible apply All.bind | with_reducible apply All.when | exact All.perform rfl

/-! ### Outcomes -/

/-- A thread posts an outcome after it has started the screen timers. -/
theorem home_post {b : JumpBit} (ht : t = .motor ∨ t = .timer) (hb : b ≠ .stalling) :
    (home depth).Outline t c (jumpSend b) .posting fun _ x => x = .idle := by
  refine Outline.move (at_call _) (fun cfg gs i _ _ hgs hold _ => ?_) fun _ => rfl
  have hinv : Return gs cfg.state cfg.trace := hold.1
  have hlcd : t ≠ .lcd := by rcases ht with rfl | rfl <;> decide
  have hdue : due t cfg.trace = false := by simpa [hgs] using mt (hinv.owing t).mp
  have htell : ∀ b', Op.jumpSend b = .jumpSend b' → isOutcome b' = true → mayTell t cfg.trace b' :=
    fun _ _ _ => ⟨ht, .inl (hinv.posting t hgs)⟩
  refine hinv.did ?_ ?_ ?_ ?_ fun e => by cases e
  · rcases hinv.covered with ⟨hflag, hdim⟩ | hw | hl
    · refine .inl ⟨hflag, ?_⟩
      by_cases hu : t = .timer
      · rw [hu, Function.update_self]
        decide
      · rw [Function.update_of_ne (Ne.symm hu)]
        exact hdim
    · exact .inr (.inl (wayBack_did hw rfl htell))
    · rw [Function.update_of_ne (Ne.symm hlcd)]
      exact .inr (.inr hl)
  · rw [Function.update_of_ne (Ne.symm hlcd)]
    exact hinv.asked
  · rw [Function.update_of_ne (Ne.symm hlcd)]
    have hbare : bare (.did t (.jumpSend b) i :: cfg.trace) = bare cfg.trace := by cases t <;> rfl
    rw [hbare]
    exact hinv.taken
  · have hsame : due t (.did t (.jumpSend b) i :: cfg.trace) = due t cfg.trace := by
      rw [due_did_self]
      cases b <;> first | rfl | exact absurd rfl hb
    simp [hsame, hdue]

/-- The overload branch posts first. -/
theorem home_postStalling : (home depth).Outline .motor c (jumpSend .stalling) .idle fun _ x => x = .due := by
  refine Outline.move (at_call _) (fun cfg gs i _ _ hgs hold _ => ?_) fun _ => rfl
  have hinv : Return gs cfg.state cfg.trace := hold.1
  have hdue : due .motor (.did .motor (.jumpSend .stalling) i :: cfg.trace) = true := rfl
  refine hinv.did (.inr (.inl ?_)) ?_ ?_ ⟨fun _ => rfl, fun _ => hdue⟩ fun e => by cases e
  · exact wayBack_iff.mpr (.inr (.inr (.inr (.inr (.inr (.inr hdue))))))
  · rw [Function.update_of_ne (by decide)]
    exact hinv.asked
  · rw [Function.update_of_ne (by decide)]
    exact hinv.taken

/-! ### The timer thread -/

theorem home_timerStore {n : Nat} (hm : m ≠ .due ∧ m ≠ .posting)
    (hn : (n = 3 ∧ m ≠ .dimming) ∨ (n = 2 ∧ g = .dimming ∧ m = .dimming)) :
    (home depth).Outline .timer c (store .lcdFlag n) g fun _ x => x = m := by
  refine Outline.move (at_call _) (fun cfg gs i _ _ hgs hold _ => ?_) fun _ => rfl
  have hinv : Return gs cfg.state cfg.trace := hold.1
  refine hinv.did ?_ ?_ ?_ ?_ fun e => absurd e hm.2
  · rcases hn with ⟨rfl, hd⟩ | ⟨rfl, hg, rfl⟩
    · exact .inl ⟨rfl, by rw [Function.update_self]; exact hd⟩
    · -- whoever darkens the display does so with a way back
      rcases hinv.covered with ⟨-, hd⟩ | hw | hl
      · exact absurd (hgs.trans hg) hd
      · exact .inr (.inl (wayBack_did hw rfl fun b e => by cases e))
      · refine .inr (.inr ?_)
        rw [Function.update_of_ne (by decide)]
        exact hl
  · rw [Function.update_of_ne (by decide)]
    exact fun e => exec_var_one (t := .timer) (i := i) (hinv.asked e) rfl (by simp) (by decide) fun n e => by cases e
  · rw [Function.update_of_ne (by decide)]
    exact hinv.taken
  · refine ⟨fun e => ?_, fun e => absurd e hm.1⟩
    rcases hn with ⟨rfl, -⟩ | ⟨rfl, hg, -⟩
    · rw [due_did_self] at e
      cases e
    · have hdue : due .timer cfg.trace = true := by
        rw [due_did_self] at e
        simpa [due.dueAfter] using e
      rw [(hinv.owing .timer).mp hdue] at hgs
      rw [← hgs] at hg
      cases hg

theorem home_enterLowPower (hg : g = .idle ∨ g = .due) :
    (home depth).Outline .timer c enterLowPower g fun _ x => x = .idle := by
  have hpost : g ≠ .posting := by rcases hg with rfl | rfl <;> decide
  refine (home_harmless hpost (All.perform rfl)).seq fun _ => ?_
  refine Outline.seq (m := .idle) ?_ fun _ => home_harmless (by decide) ?_
  · refine Outline.seq (m := g) (home_harmless hpost ?_) fun _ =>
      Outline.seq (m := g) (home_harmless hpost ?_) fun _ =>
      Outline.seq (m := g) (home_harmless hpost ?_) fun _ =>
      Outline.seq (m := g) (home_harmless hpost ?_) fun _ =>
      (home_timerStore (by decide) (.inl ⟨rfl, by decide⟩)).seq fun _ => home_harmless (by decide) ?_
    all_goals
      try simp only [ledInit, motoPinDeInit, flashDeInit, wifiDeInit]
      repeat' first | intro _ | with_reducible apply All.bind | exact All.perform rfl
  · refine All.bind (All.perform rfl) fun _ => All.bind (All.perform rfl) fun _ => All.bind (All.perform rfl) fun _ => ?_
    exact All.bind (built_afterWake (All.compositional _) fun p _ _ _ => All.perform (by cases p <;> rfl)) fun _ =>
      All.when (all_jumptoMainWin rfl rfl rfl)

theorem home_motoCycleTimerCallback :
    (home depth).Outline .timer c motoCycleTimerCallback .idle fun _ x => x = .idle := by
  refine (home_harmless (by decide) (All.perform rfl)).seq fun (right : Bool) => ?_
  refine Outline.ite (fun _ => home_harmless (by decide) (All.perform rfl)) fun _ => ?_
  refine (home_harmless (by decide) (All.perform rfl)).seq fun _ => ?_
  refine (home_screenTimerRefresh (m := .posting) (by decide) (.inr rfl) (.inl (by decide))).seq fun _ => ?_
  refine Outline.seq (m := .posting) (home_keep ?_) fun _ => home_post (.inr rfl) (by decide)
  exact all_countUp ⟨rfl, fun _ => rfl⟩ (fun _ => ⟨rfl, fun _ => rfl⟩) fun _ =>
    all_flashSet ⟨rfl, fun _ => rfl⟩ ⟨rfl, fun _ => rfl⟩ ⟨rfl, fun _ => rfl⟩

theorem home_lcdBacklightTimerCallback :
    (home depth).Outline .timer c lcdBacklightTimerCallback .dimming fun _ x => x = .idle := by
  have hstore : (home depth).Outline .timer c (store .lcdFlag 2) .dimming fun _ x => x = .dimming :=
    home_timerStore (by decide) (.inr ⟨rfl, rfl, rfl⟩)
  refine hstore.seq fun _ => hstore.seq fun _ => ?_
  refine Outline.move (at_call _) (fun cfg gs i _ _ hgs hold _ => ?_) fun _ => rfl
  have hinv : Return gs cfg.state cfg.trace := hold.1
  have hkeep := hinv.keep (t := .timer) (o := .pinWrite .lcdBl false) (i := i) rfl fun e => by rw [hgs] at e; cases e
  refine hinv.did ?_ ?_ ?_ ?_ fun e => by cases e
  · rw [Function.update_self, Function.update_of_ne (by decide)]
    exact hkeep.covered.imp (fun h => ⟨h.1, by decide⟩) id
  · rw [Function.update_of_ne (by decide)]
    exact hkeep.asked
  · rw [Function.update_of_ne (by decide)]
    exact hkeep.taken
  · rw [hkeep.owing .timer, hgs]
    simp

/-! ### The motor thread -/

theorem home_leftLimit : (home depth).Outline .motor c leftLimit .idle fun _ x => x = .idle := by
  refine (home_harmless (by decide) (All.perform rfl)).seq fun _ => ?_
  refine (home_harmless (by decide) (All.perform rfl)).seq fun _ => ?_
  refine (home_harmless (by decide) (All.perform rfl)).seq fun _ => ?_
  refine (home_screenTimerRefresh (m := .posting) (by decide) (.inr rfl) (.inl (by decide))).seq fun _ => ?_
  refine (home_keep (All.perform ⟨rfl, fun _ => rfl⟩)).seq fun (tds : Nat) => ?_
  refine (home_keep (All.perform ⟨rfl, fun _ => rfl⟩)).seq fun (hardness : Nat) => ?_
  exact Outline.ite (fun _ => home_post (.inl rfl) (by decide)) fun _ => home_post (.inl rfl) (by decide)

theorem home_motoOverload : (home depth).Outline .motor c motoOverload .idle fun _ x => x = .idle := by
  refine (home_harmless (by decide) (All.perform rfl)).seq fun _ => ?_
  refine (home_harmless (by decide) (All.perform rfl)).seq fun _ => ?_
  refine (home_harmless (by decide) (All.perform rfl)).seq fun _ => ?_
  refine Outline.seq (m := .due) (Outline.seq (m := .idle) (home_harmless (by decide) ?_) fun _ =>
    home_postStalling) fun _ => ?_
  · exact all_countUp rfl (fun _ => rfl) fun _ => all_flashSet rfl rfl rfl
  refine (home_harmless (by decide) (All.perform rfl)).seq fun _ => ?_
  refine (home_harmless (by decide) (All.perform rfl)).seq fun _ => ?_
  exact home_screenTimerRefresh (by decide) (.inl rfl) (.inl (by decide))

theorem home_motoFreeEventRelease :
    (home depth).Outline .motor c motoFreeEventRelease .idle fun _ x => x = .idle := by
  refine (home_harmless (by decide) (All.perform rfl)).seq fun (left : Bool) => ?_
  refine (home_harmless (by decide) (All.perform rfl)).seq fun _ => ?_
  refine (home_harmless (by decide) (All.perform rfl)).seq fun (right : Bool) => ?_
  refine (home_harmless (by decide) (All.perform rfl)).seq fun _ => ?_
  refine (home_harmless (by decide) (All.perform rfl)).seq fun (r : Nat) => ?_
  refine (home_harmless (by decide) (All.perform rfl)).seq fun (f : Nat) => ?_
  refine Outline.seq (m := .idle) (home_harmless (by decide) (All.when ?_)) fun _ => ?_
  · exact All.bind (All.perform rfl) fun _ => All.bind (All.perform rfl) fun _ => All.bind (All.perform rfl) fun _ =>
      All.bind (All.perform rfl) fun _ => All.bind (all_tdsWork rfl rfl rfl) fun _ => All.bind (All.perform rfl) fun _ =>
        All.bind (all_tdsWork rfl rfl rfl) fun _ => All.pure _
  refine (home_harmless (by decide) (All.perform rfl)).seq fun (l : Nat) => ?_
  refine (home_harmless (by decide) (All.perform rfl)).seq fun (f : Nat) => ?_
  exact Outline.when (fun _ => home_leftLimit) fun _ => rfl

theorem home_motoEntry : (home depth).Outline .motor c motoEntry .idle fun _ x => x = .idle := by
  refine Outline.seq (m := .idle) ?_ fun _ => home_harmless (by decide) ?_
  · refine (home_harmless (by decide) (All.perform rfl)).seq fun (working : Nat) => ?_
    refine Outline.when (fun _ => ?_) fun _ => rfl
    refine home_motoFreeEventRelease.seq fun _ => ?_
    refine (home_harmless (by decide) (All.perform rfl)).seq fun (voltage : Nat) => ?_
    exact Outline.when (fun _ => home_motoOverload) fun _ => rfl
  · simp only [motoSwitch, motoCaseFree, motoCaseForward, motoCaseBack]
    repeat' first
      | intro _ | with_reducible apply All.bind | with_reducible apply All.when | with_reducible apply All.ite
      | with_reducible exact All.pure _ | exact All.perform rfl

end

/-! ### Every call -/

section
variable {t : Thread} {c : Call} {s : Device} {tr : Trace} {gs : Thread → Stand} {m : Stand}

theorem owed_began (h : owed tr = true) : owed (.began t c :: tr) = true := by
  obtain ⟨htold, hm, ht⟩ := owed_iff.mp h
  have hseen : ∀ u, (∀ n, seen u tr = some n → n < accepted tr) →
      ∀ n, seen u (.began t c :: tr) = some n → n < accepted (.began t c :: tr) := by
    intro u hu n hn
    by_cases he : t = u
    · simp [seen, he] at hn
    · rw [seen, if_neg he] at hn
      exact hu n hn
  exact owed_iff.mpr ⟨htold, hseen _ hm, hseen _ ht⟩

/-- A call that expires neither of the two timers leaves the way back. -/
theorem wayBack_began (hv : c ≠ .expire .screenVcc) (hl : c ≠ .expire .lowPower) (hd : due t tr = false)
    (h : wayBack s tr = true) : wayBack (enter c s) (.began t c :: tr) = true := by
  have hdue : ∀ u, due u tr = true → due u (.began t c :: tr) = true := by
    intro u hu
    by_cases he : t = u
    · rw [← he, hd] at hu
      cases hu
    · rw [due, if_neg he]
      exact hu
  rw [wayBack_iff]
  rcases wayBack_iff.mp h with h | h | h | h | h | h | h
  · exact .inl (by rw [Device.armed, enter_timer hv]; exact h)
  · exact .inr (.inl (by rw [Device.armed, enter_timer hl]; exact h))
  · exact .inr (.inr (.inl (by rw [enter_vars (by simp) (by decide)]; exact h)))
  · exact .inr (.inr (.inr (.inl (owed_began h))))
  · exact .inr (.inr (.inr (.inr (.inl (hdue _ h)))))
  · exact .inr (.inr (.inr (.inr (.inr (.inl (hdue _ h))))))
  · exact .inr (.inr (.inr (.inr (.inr (.inr (hdue _ h))))))

/-- A call begins under the mark of what it owes. -/
theorem Return.began (h : Return gs s tr) (hidle : gs t = .idle) (hm : m = .due ↔ owes c = true)
    (hlcd : t = .lcd → m = .idle) (hpost : m ≠ .posting)
    (hcov : (s.vars .lcdFlag = 3 ∧ (t = .timer → m ≠ .dimming) ∧ gs .timer ≠ .dimming) ∨
      wayBack (enter c s) (.began t c :: tr) = true ∨ (gs .lcd).bound = true) :
    Return (Function.update gs t m) (enter c s) (.began t c :: tr) := by
  have hgs : Function.update gs t m .lcd = gs .lcd := by
    by_cases hl : t = .lcd
    · subst hl
      rw [Function.update_self, hlcd rfl, hidle]
    · exact Function.update_of_ne (Ne.symm hl) _ _
  refine ⟨?_, ?_, ?_, fun u => ?_, fun u hu => ?_⟩
  · rw [hgs, enter_vars (by simp) (by decide)]
    refine hcov.imp (fun ⟨hf, hd, hd'⟩ => ⟨hf, ?_⟩) id
    by_cases ht : t = .timer
    · subst ht
      rw [Function.update_self]
      exact hd rfl
    · rw [Function.update_of_ne (Ne.symm ht)]
      exact hd'
  · rw [hgs, enter_vars (by simp) (by decide)]
    exact h.asked
  · rw [hgs]
    exact h.taken
  · by_cases hut : u = t
    · subst hut
      rw [Function.update_self, due, if_pos rfl]
      exact hm.symm
    · rw [Function.update_of_ne hut, due, if_neg (Ne.symm hut)]
      exact h.owing u
  · by_cases hut : u = t
    · subst hut
      rw [Function.update_self] at hu
      exact absurd hu hpost
    · rw [Function.update_of_ne hut] at hu
      rw [seen, if_neg (Ne.symm hut)]
      exact h.posting u hu

end

theorem harmless_of_serialMay {o : Op} (h : may .serial o = true) : harmless o = true := by
  cases o with
  | store v n => cases v <;> first | rfl | cases h
  | jumpSend b => cases h
  | timerStart x => cases h
  | timerStop x => cases h
  | _ => rfl

/-- What a call's thread stands for as the call begins. -/
def firstStand (c : Call) : Stand :=
  if owes c = true then .due else if c = .expire .screenBacklight then .dimming else .idle

theorem home_body (n : Nat) (c : Call) :
    (home depth).Outline c.thread c (body n c) (firstStand c) fun _ x => x = .idle := by
  have harmless_perform : ∀ {t : Thread} {o : Op}, harmless o = true →
      (home depth).Outline t c (perform o) .idle fun _ x => x = .idle := fun ho =>
    home_harmless (by decide) (All.perform ho)
  cases c with
  | motoEntry => exact home_motoEntry
  | expire x =>
    cases x with
    | motoCycle => exact home_motoCycleTimerCallback
    | screenBacklight => exact home_lcdBacklightTimerCallback
    | screenVcc =>
      exact (home_timerStore (by decide) (.inl ⟨rfl, by decide⟩)).seq fun _ => home_enterLowPower (.inl rfl)
    | lowPower => exact home_enterLowPower (.inr rfl)
  | expireSemJump => exact harmless_perform rfl
  | enterLowPower => exact home_enterLowPower (.inl rfl)
  | key k => exact home_keyCallback k
  | rtcAlarm => rfl
  | waterFlow => rfl
  | rtcCheck =>
    refine home_harmless (by decide) ?_
    simp only [body, rtcCheckCallback, rtcCheckSchedule, lowPowerTimerStart, Schedule.jump, jumptoReminder,
      jumptoAutomatic, countUp, flashSet]
    repeat' first
      | intro _ | with_reducible apply All.bind | with_reducible apply All.when | with_reducible apply All.ite
      | split | exact All.perform rfl
  | lcdTask => exact home_lcdTaskEntry n
  | motoCycle caller => exact home_harmless (g := .idle) (by decide) (harmless_motoCycle caller)
  | scheduleSave k =>
    exact home_harmless (g := .idle) (by decide) (built_scheduleSave (All.compositional _) k fun _ ho =>
      All.perform (harmless_of_winMay ho))
  | dataParsing ch =>
    exact home_harmless (g := .idle) (by decide) ((keeps_dataParsing ch).mono fun _ => harmless_of_serialMay)
  | battery =>
    refine home_harmless (by decide) ?_
    simp only [body, batteryWatcherCallback, jumpToBatteryNew, jumpToBatteryEmpty]
    repeat' first
      | intro _ | with_reducible apply All.bind | with_reducible apply All.when | with_reducible apply All.ite
      | exact All.perform rfl
  | shell k =>
    cases k with
    | motoCycle => exact home_harmless (by decide) (harmless_motoCycle .shell)
    | _ => exact harmless_perform rfl
  | tick n => rfl

theorem home_begins (c : Call) : (home depth).Begins c.thread c := by
  intro cfg gs hnone hready hold hr
  have hidle : gs c.thread = .idle := by
    have hat := hold.2 c.thread
    rw [show cfg.call c.thread = none by simp [Config.call, hnone]] at hat
    simpa [home] using hat
  have hinv : Return gs cfg.state cfg.trace := hold.1
  have hdue : due c.thread cfg.trace = false := by simpa [hidle] using mt (hinv.owing c.thread).mp
  refine ⟨firstStand c, at_call _, ?_, (home_body depth c).mono fun _ _ e => .inl e⟩
  refine hinv.began hidle ?_ ?_ ?_ ?_
  · unfold firstStand
    split
    · next h => simp [h]
    · next h => split <;> simp [h]
  · intro hl
    cases c <;> first | rfl | cases hl
  · unfold firstStand
    repeat' split
    all_goals decide
  by_cases ho : owes c = true
  · -- a key, or a timer whose callback takes the supply
    refine .inr (.inl (wayBack_iff.mpr ?_))
    cases c with
    | key k => exact .inr (.inr (.inr (.inr (.inl rfl))))
    | expire x =>
      have hx : due .timer (.began .timer (.expire x) :: cfg.trace) = true := ho
      exact .inr (.inr (.inr (.inr (.inr (.inl hx)))))
    | _ => cases ho
  have hkeep : wayBack cfg.state cfg.trace = true →
      wayBack (enter c cfg.state) (.began c.thread c :: cfg.trace) = true :=
    wayBack_began (fun e => ho (by rw [e]; rfl)) (fun e => ho (by rw [e]; rfl)) hdue
  rcases hinv.covered with ⟨hf, hd⟩ | hw | hl
  · by_cases hb : c = .expire .screenBacklight
    · exact .inr (.inl (hkeep (hr ⟨hb, hf⟩)))
    · exact .inl ⟨hf, fun _ => by simp [firstStand, ho, hb], hd⟩
  · exact .inr (.inl (hkeep hw))
  · exact .inr (.inr hl)

theorem return_boot (flash : Nat → Nat) : Return (fun _ => .idle) (boot flash) [] := by
  refine ⟨.inr (.inl (wayBack_iff.mpr (.inl ?_))), by simp, by simp, fun _ => by simp [due], by simp⟩
  rw [Device.armed, boot_timer]
  rfl

/-- The device finds its way back to sleep, in a run that keeps to the rule. -/
theorem returns_to_sleep (depth : Nat) (flash : Nat → Nat) (as : List Act)
    (h : (board (fun _ => true) depth).Admits ReturnRule (start flash) as) :
    Returns ((board (fun _ => true) depth).run (start flash) as) := by
  have hstart : (home depth).Good (fun _ => .idle) (start flash) :=
    Good.boot (return_boot flash) fun _ => .inl rfl
  obtain ⟨gs, hgood⟩ := run_good (begins_board fun c _ => home_begins c) hstart h
  intro hlcd hmotor htimer hbutton hflag hsettled hnone
  have hinv : Return gs _ _ := hgood.1
  have hidle : ∀ t, ((board (fun _ => true) depth).run (start flash) as).task t = none → gs t = .idle := fun t ht => by
    simpa [home] using hgood.idle ht
  have hdue : ∀ t, gs t = .idle → due t ((board (fun _ => true) depth).run (start flash) as).trace = false :=
    fun t ht => by simpa [ht] using mt (hinv.owing t).mp
  rcases hinv.covered with ⟨hf, -⟩ | hw | hl
  · exact absurd hf hflag
  · rcases wayBack_iff.mp hw with hw | hw | hw | hw | hw | hw | hw
    · exact .inl hw
    · exact .inr hw
    · exact absurd ((hnone _ (by simp)).symm.trans hw) (by decide)
    · exact absurd (of_decide_eq_true hsettled) (Nat.not_le.mpr (owed_iff.mp hw).1)
    · exact absurd ((hdue _ (hidle _ hbutton)).symm.trans hw) Bool.false_ne_true
    · exact absurd ((hdue _ (hidle _ htimer)).symm.trans hw) Bool.false_ne_true
    · exact absurd ((hdue _ (hidle _ hmotor)).symm.trans hw) Bool.false_ne_true
  · rw [hidle _ hlcd] at hl
    cases hl

/-- The battery runs low before the screen has gone out. -/
def lowWhileLit : List Act := batteryReads 2000 ++ lcdPass

theorem returns_to_sleep_lowWhileLit :
    (board (fun _ => true) 2).Admits ReturnRule (start fun _ => 0) lowWhileLit ∧
    Returns ((board (fun _ => true) 2).run (start fun _ => 0) lowWhileLit) :=
  ⟨by decide +kernel, returns_to_sleep 2 (fun _ => 0) lowWhileLit (by decide +kernel)⟩

/-- The screen has gone out, and the alarm wakes the controller to a battery that
has run low meanwhile. -/
def lowAfterSleep : List Act := alone (.expire .screenVcc) {} 40 ++ batteryReads 2000 ++ lcdPass

theorem not_returns_lowAfterSleep :
    ¬ Returns ((board (fun _ => true) 2).run (start fun _ => 0) lowAfterSleep) := by
  decide +kernel

end Backwash.Sleep
