import Backwash.Lcd.Progress
import Backwash.Motor.Outcome
import Backwash.Sleep.Flash

/-! Outcomes on their way to the screen.

An outcome is a bit of `lcd_jump_event`. Window 3 reads the whole set at once and
shows a set of one bit; it reads only while it is on top and drawn. Whatever is
posted twice before it is read, read together with another bit, read in the next
backwash or posted with no window 3 on the stack does not reach the user. -/
namespace Backwash.Lcd
open Concurrent Prog Protocol Firmware Motor

/-! ### The property -/

/-- The bits that have been posted and not yet read. -/
def posted : Trace → JumpBits
  | [] => .empty
  | .did _ (.jumpSend b) _ :: tr => (posted tr).send b
  | .did _ .jumpRecv _ :: _ => .empty
  | _ :: tr => posted tr

/-- A bit that has not been read was posted before the last backwash was accepted. -/
def stale : Trace → Bool
  | [] => false
  | .did _ .jumpRecv _ :: _ => false
  | e :: tr => if accepts e then posted tr != .empty else stale tr

/-- No post falls together with an earlier one, and no receive is stale. -/
def eachOnce : Trace → Bool
  | [] => true
  | .did _ (.jumpSend b) _ :: tr => (posted tr).send b != posted tr && eachOnce tr
  | .did _ .jumpRecv _ :: tr => !stale tr && eachOnce tr
  | _ :: tr => eachOnce tr

/-- The display thread has received bits and has not executed a case for them: each
of the cases sets `Jump_Flag`, and nothing else does. -/
def unhandled : Trace → Bool
  | [] => false
  | .did _ .jumpRecv _ :: tr => posted tr != .empty
  | .did _ (.store .jumpFlag 1) _ :: _ => false
  | _ :: tr => unhandled tr

/-- Every bit posted so far was received by itself, after the backwash it belongs to
was accepted and before the next one, in a pass that executed its case; or it is
still pending, with window 3 on the stack to receive it. -/
def OutcomesShown (cfg : Conf) : Prop :=
  eachOnce cfg.trace = true ∧
  (cfg.task .lcd = none → unhandled cfg.trace = false ∧ (cfg.state.jump ≠ .empty → Win.w3 ∈ cfg.state.wins))

instance (cfg : Conf) : Decidable (OutcomesShown cfg) :=
  decidable_of_iff (eachOnce cfg.trace = true ∧ ((cfg.task .lcd).isNone = true →
    unhandled cfg.trace = false ∧ (cfg.state.jump ≠ .empty → Win.w3 ∈ cfg.state.wins)))
    (by rw [Option.isNone_iff_eq_none]; rfl)

/-! ### The rule -/

/-- Window 2 has made its request and not yet pushed window 3. -/
def manualRequest : Trace → Bool
  | [] => false
  | .did .lcd o _ :: tr =>
    if o = .mark (.motoCycle .userMain2WinFun) then true
    else if o = .guiWinAdd .w3 then false
    else manualRequest tr
  | _ :: tr => manualRequest tr

def isPost : Op → Bool
  | .jumpSend _ => true
  | _ => false

/-- The display thread has taken an automatic request and is not yet done with it. -/
def serving : Trace → Bool
  | [] => false
  | .did .lcd o _ :: tr =>
    if o = .store .jumptoAutomaticFlag 0 then true else if o = .load .lcdFlag then false else serving tr
  | _ :: tr => serving tr

/-- The operation makes a request: it sets `JumptoAutomatic_Flag`, or window 2 enters
`Moto_Cycle`. -/
def asks : Op → Bool
  | .store .jumptoAutomaticFlag n => n != 0
  | .mark (.motoCycle .userMain2WinFun) => true
  | _ => false

/-- The timer thread is in a callback that goes to stop mode, from which a key wakes
the controller in the main menu. -/
def sleeping (cfg : Conf) : Bool := (cfg.call .timer).any Sleep.leadsToStop

/-- The motor and its timer report with window 3 drawn for the backwash, between two
requests and awake, when all that was posted before has been shown. A request is
refused awake, with window 3 on the stack or about to be pushed by window 2, and
before the next one is made. -/
structure PostRule (cfg : Conf) (t : Thread) : Prop where
  awake : sleeping cfg = false
  asked : cfg.state.vars .jumptoAutomaticFlag = 0
  stack : Win.w3 ∈ cfg.state.wins ∨ (t = .lcd ∧ manualRequest cfg.trace = true)
  between : t ≠ .lcd → serving cfg.trace = false ∧ manualRequest cfg.trace = false
  shown : t ≠ .lcd → cfg.state.vars .jumpFlag = 0 ∧ cfg.state.jump = .empty ∧ unhandled cfg.trace = false

instance (cfg : Conf) (t : Thread) : Decidable (PostRule cfg t) :=
  decidable_of_iff (sleeping cfg = false ∧ cfg.state.vars .jumptoAutomaticFlag = 0 ∧
      (Win.w3 ∈ cfg.state.wins ∨ (t = .lcd ∧ manualRequest cfg.trace = true)) ∧
      (t ≠ .lcd → serving cfg.trace = false ∧ manualRequest cfg.trace = false) ∧
      (t ≠ .lcd → cfg.state.vars .jumpFlag = 0 ∧ cfg.state.jump = .empty ∧ unhandled cfg.trace = false))
    ⟨fun ⟨h1, h2, h3, h4, h5⟩ => ⟨h1, h2, h3, h4, h5⟩, fun h => ⟨h.awake, h.asked, h.stack, h.between, h.shown⟩⟩

/-- The pass of the display thread has closed a window or pushed window 3. -/
def shifted : Trace → Bool
  | [] => false
  | .began t _ :: tr => t != .lcd && shifted tr
  | .did .lcd o _ :: tr => o = .guiWinDeleteTop || o = .guiWinAdd .w3 || shifted tr
  | .did _ _ _ :: tr => shifted tr

/-- Besides, requests are made, and the controller goes to sleep, while no outcome is
pending; and while one is, K0 does not leave the reminder window, a pass that has closed a
window or pushed window 3 closes no other, and the stack has room for window 2's push. -/
def OutcomeRule (cfg : Conf) : Act → Prop
  | .start _ c => Sleep.leadsToStop c = true → cfg.state.jump = .empty
  | .step t _ =>
    ((cfg.head t).any isPost = true → PostRule cfg t) ∧
    ((cfg.head t).any asks = true → cfg.state.jump = .empty) ∧
    (t = .lcd → cfg.state.jump ≠ .empty →
      (cfg.head t = some .guiWinInit → lastOp t cfg.trace ≠ some (.store (.firstFlag .w25) 0)) ∧
      (cfg.head t = some .guiWinDeleteTop → shifted cfg.trace = false) ∧
      (cfg.head t = some (.guiWinAdd .w3) → cfg.state.wins.length < guiWinManageNum))

instance (cfg : Conf) : ∀ a, Decidable (OutcomeRule cfg a)
  | .start _ _ => inferInstanceAs (Decidable (_ → _))
  | .step _ _ => inferInstanceAs (Decidable (_ ∧ _))

/-- Everything but the shell; the display thread runs nothing but its passes. -/
def screenCalls : Call → Bool
  | .shell _ | .motoCycle _ | .scheduleSave _ => false
  | _ => true

/-! ### Closing a window

A window function runs with its own window on top and closes that one first; that of window
3 closes none. So the first window that a pass closes is not window 3. -/

/-- The program knows that another window than 3 is on top, or has pushed window 3 itself. -/
def looks : (o : Op) → Res o → Bool
  | .guiTop, top => top != some .w3
  | .guiWinAdd w, _ => w == .w3
  | _, _ => false

/-- The program looks before it closes a window. -/
def Looks {α : Type} : Code α → Prop
  | .ret _ => True
  | .op o k => o ≠ .guiWinDeleteTop ∧ ∀ r, looks o r = false → Looks (k r)

theorem looks_compositional : Compositional fun {α} (p : Code α) => Looks p where
  pure _ := trivial
  bind {α β p f} hp hf := by
    induction p with
    | ret a => exact hf a
    | op o k ih => exact ⟨hp.1, fun r hr => ih r (hp.2 r hr)⟩

theorem looks_of_all {α : Type} {p : Code α} (h : p.All (· ≠ .guiWinDeleteTop)) : Looks p := by
  induction p with
  | ret a => trivial
  | op o k ih => exact ⟨h.1, fun r _ => ih r (h.2 r)⟩

theorem looks_perform {o : Op} (h : o ≠ .guiWinDeleteTop) : Looks (perform o) := looks_of_all (All.perform h)

theorem looks_userMain3WinFun : Looks userMain3WinFun := by
  have hkeys : Looks takeKeys := built_takeKeys looks_compositional fun _ => looks_perform (by simp)
  simp only [userMain3WinFun, window, showOutcome, leaveProgress, redLight, redOff, greenOff]
  repeat' first
    | with_reducible exact hkeys | intro _ | with_reducible apply looks_compositional.bind
    | with_reducible apply looks_compositional.when | with_reducible exact looks_compositional.pure _ | split
    | exact looks_perform (by simp)

theorem looks_guiWinDisplay (n : Nat) : Looks (guiWinDisplay n) := by
  cases n with
  | zero => trivial
  | succ n =>
    refine ⟨by simp, fun (top : Option Win) hr => ?_⟩
    obtain rfl : top = some .w3 := by simpa [looks] using hr
    exact ⟨by simp, fun _ _ => looks_userMain3WinFun⟩

theorem looks_lcdTaskEntry (depth : Nat) : Looks (lcdTaskEntry depth) := by
  have hop : ∀ o, requestMay o = true → Looks (perform o) := fun o ho => looks_perform (by rintro rfl; cases ho)
  refine built_lcdTaskEntry looks_compositional (looks_guiWinDisplay depth) ?_ ?_ ?_
  · exact built_openLcdDisplay looks_compositional fun o ho => looks_perform (by rintro rfl; cases ho)
  · exact built_motoCycle looks_compositional hop fun _ hp => looks_compositional.bind (looks_perform (by simp)) fun _ => hp
  · exact fun o ho => looks_perform (by rintro rfl; cases ho)

/-- Of the display thread's calls only the pass is among those of the screen. -/
theorem lcdTask_of_screenCalls {c : Call} (hc : c.thread = .lcd) (h : screenCalls c = true) : c = .lcdTask := by
  cases c with
  | lcdTask => rfl
  | motoCycle caller => cases h
  | scheduleSave k => cases h
  | _ => cases hc

theorem shifted_did_of_ne {t : Thread} (ht : t ≠ .lcd) (o : Op) (i : Input) (tr : Trace) :
    shifted (.did t o i :: tr) = shifted tr := by
  cases t <;> first | rfl | exact absurd rfl ht

/-- Window 3 comes to be on top only if it is pushed or a window is closed. -/
theorem top_kept {t : Thread} {o : Op} {s : Device} (i : Input) (hd : o ≠ .guiWinDeleteTop) (ha : o ≠ .guiWinAdd .w3)
    (h : s.wins.head? ≠ some .w3) : (exec t o i s).1.wins.head? ≠ some .w3 := by
  by_cases hi : o = .guiWinInit
  · subst hi
    simp [exec]
  by_cases hw : ∃ w, o = .guiWinAdd w
  · obtain ⟨w, rfl⟩ := hw
    simp only [exec]
    split
    · exact h
    · simpa using ha
  · rw [exec_wins hi (fun w e => hw ⟨w, e⟩) hd]
    exact h

theorem top_own {o : Op} {i : Input} {s : Device} {tr : Trace} (h : shifted tr = true ∨ s.wins.head? ≠ some .w3) :
    shifted (.did .lcd o i :: tr) = true ∨ (exec .lcd o i s).1.wins.head? ≠ some .w3 := by
  rcases h with h | h
  · exact .inl (by simp [shifted, h])
  by_cases hd : o = .guiWinDeleteTop
  · exact .inl (by simp [shifted, hd])
  by_cases ha : o = .guiWinAdd .w3
  · exact .inl (by simp [shifted, ha])
  · exact .inr (top_kept i hd ha h)

theorem top_of_looks {o : Op} {i : Input} {s : Device} {tr : Trace} (h : looks o (exec .lcd o i s).2 = true) :
    shifted (.did .lcd o i :: tr) = true ∨ (exec .lcd o i s).1.wins.head? ≠ some .w3 := by
  cases o with
  | guiTop => exact .inr (by simpa [looks, exec] using h)
  | guiWinAdd w =>
    obtain rfl : w = .w3 := by simpa [looks] using h
    exact .inl (by simp [shifted])
  | _ => cases h

theorem top_other {t : Thread} {o : Op} {s : Device} (i : Input) (ht : t ≠ .lcd) (hmay : may t o = true)
    (h : s.wins.head? ≠ some .w3) : (exec t o i s).1.wins.head? ≠ some .w3 := by
  refine top_kept i ?_ ?_ h
  all_goals
    rintro rfl
    cases t <;> first | exact absurd rfl ht | cases hmay

/-- The rest of the display thread's pass looks before it closes a window, if the pass has
not shifted the stack and window 3 is on top. -/
structure Watched (cfg : Conf) : Prop where
  may : System.Left (fun t _ p => ∀ o, p.head = some o → Firmware.may t o = true) cfg
  ahead : ∀ c p, cfg.task .lcd = some (c, p) → (shifted cfg.trace = true ∨ cfg.state.wins.head? ≠ some .w3) ∨ Looks p

theorem Watched.next {depth : Nat} {cfg : Conf} (h : Watched cfg) (a : Act) :
    Watched ((board screenCalls depth).next cfg a) := by
  refine ⟨h.may.next body_heads a, ?_⟩
  rcases System.next_cases (M := board screenCalls depth) cfg a with hsame | ⟨t, c, rfl, ht, hready⟩ | ⟨t, i, c, o, k, rfl, ht⟩
  · rw [hsame]
    exact h.ahead
  · rw [System.next_start ht hready]
    intro c' p' htask
    by_cases hl : t = .lcd
    · subst hl
      have hr : (Thread.lcd = c.thread ∧ screenCalls c = true) ∧ c.enabled cfg.state = true := by simpa [board] using hready
      obtain rfl := lcdTask_of_screenCalls hr.1.1.symm hr.1.2
      simp only [Function.update_self] at htask
      obtain ⟨-, rfl⟩ := System.settle_eq_some htask
      exact .inr (looks_lcdTaskEntry depth)
    · simp only [Function.update_of_ne (Ne.symm hl)] at htask
      have hwins : ((board screenCalls depth).enter c cfg.state).wins = cfg.state.wins := enter_wins c cfg.state
      rw [hwins, show shifted (.began t c :: cfg.trace) = shifted cfg.trace by simp [shifted, hl]]
      exact h.ahead c' p' htask
  · rw [System.next_step ht]
    intro c' p' htask
    have hhead : cfg.head t = some o := by simp [Config.head, ht, Prog.head]
    have hmay : Firmware.may t o = true := head_may h.may hhead
    by_cases hl : t = .lcd
    · subst hl
      simp only [Function.update_self] at htask
      obtain ⟨-, rfl⟩ := System.settle_eq_some htask
      rcases h.ahead c _ ht with htop | hlooks
      · exact .inl (top_own htop)
      · by_cases hr : looks o (exec .lcd o i cfg.state).2 = true
        · exact .inl (top_of_looks hr)
        · exact .inr (hlooks.2 _ (Bool.eq_false_iff.mpr hr))
    · simp only [Function.update_of_ne (Ne.symm hl)] at htask
      rw [shifted_did_of_ne hl]
      exact (h.ahead c' p' htask).imp_left (Or.imp_right (top_other i hl hmay))

/-- The first window that a pass closes is not window 3. -/
theorem first_closed {depth : Nat} {flash : Nat → Nat} {as : List Act} {cfg : Conf}
    (hcfg : cfg = (board screenCalls depth).run (start flash) as) (hclose : cfg.head .lcd = some .guiWinDeleteTop)
    (hs : shifted cfg.trace = false) : cfg.state.wins.head? ≠ some .w3 := by
  have hboot : Watched (start flash) := ⟨System.Left.boot _ _, fun _ _ e => by cases e⟩
  have hend := System.run_invariant Watched (fun _ a h _ => h.next a) hboot (System.admits_true (M := board screenCalls depth) _ as)
  rw [← hcfg] at hend
  obtain ⟨⟨c, p⟩, htask, hp⟩ := Option.bind_eq_some_iff.mp hclose
  rcases hend.ahead c p htask with (hshift | htop) | hlooks
  · exact absurd (hs.symm.trans hshift) Bool.false_ne_true
  · exact htop
  · cases p with
    | ret a => cases hp
    | op o k => exact absurd (Option.some.inj hp) hlooks.1

/-- What the rule comes to: while an outcome is pending no window but the one on top, which is
not window 3, is closed. -/
def KeptRule (cfg : Conf) (a : Act) : Prop :=
  OutcomeRule cfg a ∧
    (cfg.state.jump ≠ .empty → (∃ i, a = .step .lcd i) → cfg.head .lcd = some .guiWinDeleteTop →
      cfg.state.wins.head? ≠ some .w3)

theorem keptRule_of_outcomeRule {depth : Nat} {flash : Nat → Nat} {as : List Act}
    (h : (board screenCalls depth).Admits OutcomeRule (start flash) as) :
    (board screenCalls depth).Admits KeptRule (start flash) as := by
  refine h.mono_of_run (Q := fun cfg => cfg.head .lcd = some .guiWinDeleteTop → shifted cfg.trace = false →
    cfg.state.wins.head? ≠ some .w3) (fun bs _ _ => first_closed rfl) ?_
  rintro cfg a hfirst hr
  refine ⟨hr, fun he ⟨i, ha⟩ hclose => ?_⟩
  subst ha
  exact hfirst hclose ((hr.2.2 rfl he).2.1 hclose)

/-! ### The invariant -/

/-- Where the display thread is: in window 2's request, with the outcome not yet posted or
posted; about to take an automatic request, or serving it; with an outcome to show, or
past that in window 3; about to leave window 3 or window 25. The timer thread may be
asleep. -/
inductive Post where
  | idle | manual | refused | called | serving | served | received | read | leaving | closing | asleep
  deriving DecidableEq

/-- Nothing is pending there. -/
def Post.clear : Post → Bool
  | .manual | .serving | .received | .leaving | .asleep => true
  | _ => false

def Post.Knows (l : Post) (s : Device) (tr : Trace) : Prop :=
  match l with
  | .called => s.vars .jumptoAutomaticFlag ≠ 0
  | .read => s.vars .jumpFlag ≠ 0 → s.jump = .empty
  | .leaving => s.vars .jumpFlag ≠ 0
  | .closing => lastOp .lcd tr = some (.store (.firstFlag .w25) 0)
  | _ => True

structure Posted (l z : Post) (s : Device) (tr : Trace) : Prop where
  replay : posted tr = s.jump
  once : eachOnce tr = true
  fresh : stale tr = false
  single : single s.jump = true
  handled : unhandled tr = decide (l = .received)
  manual : manualRequest tr = decide (l = .manual ∨ l = .refused)
  serving : serving tr = decide (l = .serving ∨ l = .served)
  flagged : s.vars .jumptoAutomaticFlag ≠ 0 → s.jump = .empty
  stack : l ≠ .refused → s.jump ≠ .empty → Win.w3 ∈ s.wins
  clear : l.clear = true → s.jump = .empty
  asleep : z.clear = true → s.jump = .empty
  knows : l.Knows s tr

variable {depth : Nat}

def outcomes (depth : Nat) : Protocol (board screenCalls depth) Post where
  Rule := KeptRule
  Inv := fun gs s tr => Posted (gs .lcd) (gs .timer) s tr
  At := fun t c g => g = .idle ∨ (t = .lcd ∧ c ≠ none ∧ g ≠ .asleep) ∨ (t = .timer ∧ c.any Sleep.leadsToStop = true)

section
variable {t : Thread} {o : Op} {i : Input} {s : Device} {tr : Trace} {l z : Post}

/-- The operation has nothing to do with outcomes, requests or the stack. -/
def mute : Op → Bool
  | .jumpSend _ | .jumpRecv | .guiWinInit | .guiWinDeleteTop => false
  | .motoSend b => b != .forward
  | .load v => v != .lcdFlag
  | .store v _ => v != .jumpFlag && v != .jumptoAutomaticFlag
  | .guiWinAdd w => w != .w3
  | .mark m => m != .motoCycle .userMain2WinFun
  | _ => true

theorem posted_did (hs : ∀ b, o ≠ .jumpSend b) (hr : o ≠ .jumpRecv) : posted (.did t o i :: tr) = posted tr := by
  cases o with
  | jumpSend b => exact absurd rfl (hs b)
  | jumpRecv => exact absurd rfl hr
  | _ => rfl

theorem eachOnce_did (hs : ∀ b, o ≠ .jumpSend b) (hr : o ≠ .jumpRecv) : eachOnce (.did t o i :: tr) = eachOnce tr := by
  cases o with
  | jumpSend b => exact absurd rfl (hs b)
  | jumpRecv => exact absurd rfl hr
  | _ => rfl

theorem stale_did (hr : o ≠ .jumpRecv) (ha : accepts (.did t o i) = false) : stale (.did t o i :: tr) = stale tr := by
  have hstep : stale (.did t o i :: tr) = if accepts (.did t o i) then posted tr != .empty else stale tr := by
    cases o with
    | jumpRecv => exact absurd rfl hr
    | _ => rfl
  simp [hstep, ha]

theorem unhandled_did (hr : o ≠ .jumpRecv) (hs : ∀ n, o ≠ .store .jumpFlag n) :
    unhandled (.did t o i :: tr) = unhandled tr := by
  cases o with
  | jumpRecv => exact absurd rfl hr
  | store v n => cases v <;> first | rfl | exact absurd rfl (hs n)
  | _ => rfl

theorem manualRequest_did (h : t = .lcd → o ≠ .mark (.motoCycle .userMain2WinFun) ∧ o ≠ .guiWinAdd .w3) :
    manualRequest (.did t o i :: tr) = manualRequest tr := by
  cases t with
  | lcd => simp [manualRequest, h rfl]
  | _ => rfl

theorem serving_did (h : t = .lcd → o ≠ .store .jumptoAutomaticFlag 0 ∧ o ≠ .load .lcdFlag) :
    serving (.did t o i :: tr) = serving tr := by
  cases t with
  | lcd => simp [serving, h rfl]
  | _ => rfl

theorem accepts_of_ne (h : t = .lcd → o ≠ .motoSend .forward) : accepts (.did t o i) = false := by
  unfold accepts
  split
  · next heq => cases heq; exact absurd rfl (h rfl)
  · rfl

/-- Pushing a window keeps window 3 on the stack. -/
theorem mem_guiWinAdd (w : Win) (h : Win.w3 ∈ s.wins) : Win.w3 ∈ (exec t (.guiWinAdd w) i s).1.wins := by
  simp only [exec]
  split
  · exact h
  · exact List.mem_cons_of_mem _ h

/-- The flags of the requests and of the outcome stay as they are. -/
theorem exec_flags (hj : ∀ n, o ≠ .store .jumpFlag n) (ha : ∀ n, o ≠ .store .jumptoAutomaticFlag n) :
    (exec t o i s).1.vars .jumpFlag = s.vars .jumpFlag ∧
      (exec t o i s).1.vars .jumptoAutomaticFlag = s.vars .jumptoAutomaticFlag :=
  ⟨exec_vars hj (by simp) (by simp) i, exec_vars ha (by simp) (by simp) i⟩

/-- What the display thread knows stays true while the flags and the pending bits do. -/
theorem Post.Knows.keep (h : l.Knows s tr) {s' : Device} (hj : s'.vars .jumpFlag = s.vars .jumpFlag)
    (ha : s'.vars .jumptoAutomaticFlag = s.vars .jumptoAutomaticFlag) (hjump : s'.jump = s.jump)
    (hl : l = .closing → t ≠ .lcd) : l.Knows s' (.did t o i :: tr) := by
  cases l with
  | called => exact fun e => h (ha.symm.trans e)
  | read => exact fun e => hjump.trans (h fun e' => e (hj.trans e'))
  | leaving => exact fun e => h (hj.symm.trans e)
  | closing => exact (lastOp_did_of_ne (hl rfl) o i tr).trans h
  | _ => trivial

namespace Posted

/-- An operation that neither posts nor receives nor accepts, leaves the two flags, and
keeps window 3 where it is. -/
theorem keep (h : Posted l z s tr) (hsend : ∀ b, o ≠ .jumpSend b) (hrecv : o ≠ .jumpRecv)
    (haccept : t = .lcd → o ≠ .motoSend .forward) (hj : ∀ n, o ≠ .store .jumpFlag n)
    (ha : ∀ n, o ≠ .store .jumptoAutomaticFlag n)
    (hmanual : t = .lcd → o ≠ .mark (.motoCycle .userMain2WinFun) ∧ (o = .guiWinAdd .w3 → l ≠ .manual ∧ l ≠ .refused))
    (hserving : t = .lcd → o = .load .lcdFlag → l ≠ .serving ∧ l ≠ .served) (hl : l = .closing → t ≠ .lcd)
    (hwins : s.jump ≠ .empty → Win.w3 ∈ s.wins → Win.w3 ∈ (exec t o i s).1.wins) :
    Posted l z (exec t o i s).1 (.did t o i :: tr) := by
  have hjump : (exec t o i s).1.jump = s.jump := exec_jump hsend hrecv i
  obtain ⟨hflag, hauto⟩ := exec_flags (t := t) (s := s) (i := i) hj ha
  constructor
  · rw [posted_did hsend hrecv, hjump]
    exact h.replay
  · rw [eachOnce_did hsend hrecv]
    exact h.once
  · rw [stale_did hrecv (accepts_of_ne haccept)]
    exact h.fresh
  · rw [hjump]
    exact h.single
  · rw [unhandled_did hrecv hj]
    exact h.handled
  · rw [← h.manual]
    by_cases ht : t = .lcd ∧ o = .guiWinAdd .w3
    · obtain ⟨rfl, rfl⟩ := ht
      have hl := (hmanual rfl).2 rfl
      rw [h.manual]
      simp [manualRequest, hl.1, hl.2]
    · exact manualRequest_did fun e => ⟨(hmanual e).1, fun e' => ht ⟨e, e'⟩⟩
  · rw [← h.serving]
    by_cases ht : t = .lcd ∧ o = .load .lcdFlag
    · obtain ⟨rfl, rfl⟩ := ht
      have hl := hserving rfl rfl
      rw [h.serving]
      simp [Lcd.serving, hl.1, hl.2]
    · exact serving_did fun e => ⟨ha 0, fun e' => ht ⟨e, e'⟩⟩
  · rw [hauto, hjump]
    exact h.flagged
  · rw [hjump]
    exact fun hl he => hwins he (h.stack hl he)
  · rw [hjump]
    exact h.clear
  · rw [hjump]
    exact h.asleep
  · exact h.knows.keep hflag hauto hjump hl

theorem mute (h : Posted l z s tr) (ho : mute o = true) (hl : l = .closing → t ≠ .lcd) :
    Posted l z (exec t o i s).1 (.did t o i :: tr) := by
  refine h.keep (fun b e => ?_) (fun e => ?_) (fun _ e => ?_) (fun n e => ?_) (fun n e => ?_)
    (fun _ => ⟨fun e => ?_, fun e => ?_⟩) (fun _ e => ?_) hl fun _ hmem => ?_
  all_goals try (rw [e] at ho; cases ho)
  by_cases ha : ∃ w, o = .guiWinAdd w
  · obtain ⟨w, rfl⟩ := ha
    exact mem_guiWinAdd w hmem
  · rw [exec_wins (fun e => by rw [e] at ho; cases ho) (fun w e => ha ⟨w, e⟩) fun e => by rw [e] at ho; cases ho]
    exact hmem

/-- A post that finds nothing pending, from outside the display thread. -/
theorem post (h : Posted l z s tr) (ht : t ≠ .lcd) (b : JumpBit) (he : s.jump = .empty) (hw : Win.w3 ∈ s.wins)
    (hj : s.vars .jumpFlag = 0) (ha : s.vars .jumptoAutomaticFlag = 0) (hl : l.clear = false) (hz : z.clear = false) :
    Posted l z (exec t (.jumpSend b) i s).1 (.did t (.jumpSend b) i :: tr) := by
  have hposted : posted tr = .empty := h.replay.trans he
  constructor
  · show (posted tr).send b = s.jump.send b
    rw [h.replay]
  · show ((posted tr).send b != posted tr && eachOnce tr) = true
    rw [hposted, h.once]
    cases b <;> rfl
  · rw [stale_did (by simp) (accepts_of_ne (by simp))]
    exact h.fresh
  · show Lcd.single (s.jump.send b) = true
    rw [he]
    cases b <;> rfl
  · rw [unhandled_did (by simp) (by simp)]
    exact h.handled
  · rw [manualRequest_did (by simp)]
    exact h.manual
  · rw [serving_did (by simp)]
    exact h.serving
  · exact fun e => absurd ha e
  · exact fun _ _ => hw
  · exact fun e => absurd (hl.symm.trans e) Bool.false_ne_true
  · exact fun e => absurd (hz.symm.trans e) Bool.false_ne_true
  · cases l with
    | called => exact h.knows
    | read => exact fun e => absurd hj e
    | leaving => cases hl
    | closing => exact (lastOp_did_of_ne ht _ i tr).trans h.knows
    | _ => trivial

/-- An automatic request, made while nothing is pending. -/
theorem request (h : Posted l z s tr) (he : s.jump = .empty) (hl : l = .closing → t ≠ .lcd) :
    Posted l z (exec t (.store .jumptoAutomaticFlag 1) i s).1 (.did t (.store .jumptoAutomaticFlag 1) i :: tr) := by
  refine ⟨h.replay, h.once, ?_, h.single, ?_, ?_, ?_, fun _ => he, h.stack, h.clear, h.asleep, ?_⟩
  · rw [stale_did (by simp) (accepts_of_ne (by simp))]
    exact h.fresh
  · rw [unhandled_did (by simp) (by simp)]
    exact h.handled
  · rw [manualRequest_did (by simp)]
    exact h.manual
  · rw [serving_did (by simp)]
    exact h.serving
  · cases l with
    | called => simp [Post.Knows, exec, Device.store, Var.width]
    | read => exact h.knows
    | leaving => exact h.knows
    | closing => exact (lastOp_did_of_ne (hl rfl) _ i tr).trans h.knows
    | _ => trivial

/-- A backwash accepted while nothing is pending. -/
theorem accept (h : Posted l z s tr) (hl : l.clear = true) :
    Posted l z (exec .lcd (.motoSend .forward) i s).1 (.did .lcd (.motoSend .forward) i :: tr) := by
  have hposted : posted tr = .empty := h.replay.trans (h.clear hl)
  refine ⟨h.replay, h.once, ?_, h.single, ?_, ?_, ?_, h.flagged, h.stack, h.clear, h.asleep, ?_⟩
  · show (posted tr != .empty) = false
    rw [hposted]
    rfl
  · rw [unhandled_did (by simp) (by simp)]
    exact h.handled
  · rw [manualRequest_did (by simp)]
    exact h.manual
  · rw [serving_did (by simp)]
    exact h.serving
  · exact h.knows.keep rfl rfl rfl fun e => by rw [e] at hl; cases hl

end Posted

/-! ### The other threads -/

/-- The timer thread carries no mark of sleep unless it is going to stop mode. -/
theorem awake_of_rule {cfg : Conf} {gs : Thread → Post} (hold : (outcomes depth).Holds gs cfg)
    (h : sleeping cfg = false) : (gs .timer).clear = false := by
  rcases hold.2 .timer with hz | ⟨hz, -⟩ | ⟨-, hz⟩
  · rw [hz]
    rfl
  · cases hz
  · exact absurd (h.symm.trans hz) Bool.false_ne_true

/-- Where the rule lets others post, the display thread relies on nothing. -/
theorem clear_of_rule {cfg : Conf} {gs : Thread → Post} (hold : (outcomes depth).Holds gs cfg) (ht : t ≠ .lcd)
    (h : PostRule cfg t) : (gs .lcd).clear = false := by
  have hinv : Posted (gs .lcd) (gs .timer) cfg.state cfg.trace := hold.1
  obtain ⟨hserving, hmanual⟩ := h.between ht
  obtain ⟨hflag, -, hhandled⟩ := h.shown ht
  have hasleep : gs .lcd ≠ .asleep := by
    rcases hold.2 .lcd with hl | ⟨-, -, hl⟩ | ⟨hl, -⟩
    · rw [hl]
      decide
    · exact hl
    · cases hl
  cases hl : gs .lcd with
  | manual =>
    have := hinv.manual
    simp [hl, hmanual] at this
  | serving =>
    have := hinv.serving
    simp [hl, hserving] at this
  | received =>
    have := hinv.handled
    simp [hl, hhandled] at this
  | leaving =>
    have hknows := hinv.knows
    rw [hl] at hknows
    exact absurd hflag hknows
  | asleep => exact absurd hl hasleep
  | _ => rfl

theorem outcomes_other {c : Call} {g : Post} (ht : t ≠ .lcd ∧ t ≠ .shell) (hmay : may t o = true)
    (hinit : o ≠ .guiWinInit) : (outcomes depth).Keeps t c g o := by
  intro cfg gs i _ hhead _ hold hr
  have hinv : Posted (gs .lcd) (gs .timer) cfg.state cfg.trace := hold.1
  show Posted (gs .lcd) (gs .timer) (exec t o i cfg.state).1 (.did t o i :: cfg.trace)
  by_cases ho : mute o = true
  · exact hinv.mute ho fun _ => ht.1
  cases o with
  | jumpSend b =>
    have hpost : PostRule cfg t := hr.1.1 (by rw [hhead]; rfl)
    obtain ⟨hflag, hempty, -⟩ := hpost.shown ht.1
    exact hinv.post ht.1 b hempty (hpost.stack.resolve_right fun e => ht.1 e.1) hflag hpost.asked
      (clear_of_rule hold ht.1 hpost) (awake_of_rule hold hpost.awake)
  | load v =>
    refine hinv.keep (by simp) (by simp) (by simp) (by simp) (by simp) (fun e => absurd e ht.1) (fun e => absurd e ht.1)
      (fun _ => ht.1) fun _ => id
  | guiWinInit => exact absurd rfl hinit
  | jumpRecv => cases t <;> first | exact absurd rfl ht.1 | cases hmay
  | guiWinDeleteTop => cases t <;> first | exact absurd rfl ht.1 | cases hmay
  | motoSend b =>
    obtain rfl : b = .forward := by simpa [mute] using ho
    cases t <;> first | exact absurd rfl ht.1 | exact absurd rfl ht.2 | cases hmay
  | store v n =>
    have hv : v = .jumpFlag ∨ v = .jumptoAutomaticFlag := by simpa [mute, or_iff_not_imp_left] using ho
    rcases hv with rfl | rfl
    · cases t <;> first | exact absurd rfl ht.1 | cases hmay
    · have hn : t = .rtcCheck ∧ n = 1 := by
        cases t <;> first | exact absurd rfl ht.1 | exact ⟨rfl, by simpa [may, rtcCheckMay] using hmay⟩ | cases hmay
      obtain ⟨-, rfl⟩ := hn
      exact hinv.request (hr.1.2.1 (by rw [hhead]; rfl)) fun _ => ht.1
  | guiWinAdd w =>
    obtain rfl : w = .w3 := by simpa [mute] using ho
    cases t <;> first | exact absurd rfl ht.1 | cases hmay
  | mark m =>
    obtain rfl : m = .motoCycle .userMain2WinFun := by simpa [mute] using ho
    cases t <;> first | exact absurd rfl ht.1 | cases hmay
  | _ => exact absurd rfl ho

end

/-! ### The timer thread -/

section
variable {c : Call}

theorem at_asleep (hc : Sleep.leadsToStop c = true) (g : Post) : (outcomes depth).At .timer (some c) g :=
  .inr (.inr ⟨rfl, hc⟩)

theorem asleep_keep {α : Type} {p : Code α} (hc : Sleep.leadsToStop c = true)
    (hp : p.All fun o => may .timer o = true ∧ o ≠ .guiWinInit) :
    (outcomes depth).Outline .timer c p .asleep fun _ x => x = .asleep :=
  Outline.keep (at_asleep hc _) (hp.mono fun _ ho => outcomes_other (by decide) ho.1 ho.2) fun _ => rfl

/-- The last operation of a callback: the thread is awake. -/
theorem asleep_last {o : Op} (hmute : mute o = true) :
    (outcomes depth).Outline .timer c (perform o) .asleep fun _ x => x = .idle := by
  refine Outline.move (.inl rfl) (fun cfg gs i _ _ _ hold _ => ?_) fun _ => rfl
  have hinv : Posted (gs .lcd) (gs .timer) cfg.state cfg.trace := hold.1
  show Posted (Function.update gs .timer .idle .lcd) (Function.update gs .timer .idle .timer) _ _
  rw [Function.update_of_ne (by decide), Function.update_self]
  exact {hinv.mute (t := .timer) (i := i) hmute fun _ => by decide with asleep := fun e => by cases e}

/-- Asleep nothing is pending, and window 3 may go. -/
theorem asleep_reset (hc : Sleep.leadsToStop c = true) :
    (outcomes depth).Outline .timer c guiWinInit .asleep fun _ x => x = .asleep := by
  refine Outline.keep (at_asleep hc _) (All.perform fun cfg gs i _ _ hg hold _ => ?_) fun _ => rfl
  have hinv : Posted (gs .lcd) (gs .timer) cfg.state cfg.trace := hold.1
  refine hinv.keep (by simp) (by simp) (by simp) (by simp) (by simp) (fun e => by cases e) (fun e => by cases e)
    (fun _ => by decide) fun he _ => ?_
  exact absurd (hinv.asleep (by rw [hg]; rfl)) he

theorem outcomes_enterLowPower (hc : Sleep.leadsToStop c = true) :
    (outcomes depth).Outline .timer c enterLowPower .asleep fun _ x => x = .idle := by
  have hop : ∀ o, may .timer o = true → o ≠ .guiWinInit →
      (outcomes depth).Outline .timer c (perform o) .asleep fun _ x => x = .asleep := fun o ho hi =>
    asleep_keep hc (All.perform ⟨ho, hi⟩)
  have hbefore : (outcomes depth).Outline .timer c beforSleep .asleep fun _ x => x = .asleep := by
    refine asleep_keep hc (built_beforSleep (All.compositional _) (fun p b hp => All.perform ⟨?_, by simp⟩)
      (All.perform ⟨rfl, by simp⟩))
    cases p <;> first | rfl | exact hp
  refine (hop _ rfl (by simp)).seq fun _ => hbefore.seq fun _ => (hop _ rfl (by simp)).seq fun _ => ?_
  refine (hop _ rfl (by simp)).seq fun _ => (hop _ rfl (by simp)).seq fun (woken : Nat) => ?_
  have hled : (outcomes depth).Outline .timer c ledInit .asleep fun _ x => x = .asleep :=
    (hop (.pinWrite .ledG true) rfl (by simp)).seq fun _ => (hop (.pinWrite .ledR true) rfl (by simp)).seq fun _ =>
      hop (.pinWrite .ledB true) rfl (by simp)
  have hmoto : (outcomes depth).Outline .timer c motoPinInit .asleep fun _ x => x = .asleep :=
    (hop (.pinWrite .motoMode false) rfl (by simp)).seq fun _ => (hop (.pinWrite .motoIn1 false) rfl (by simp)).seq
      fun _ => (hop (.pinWrite .motoIn2 false) rfl (by simp)).seq fun _ => hop (.pinWrite .motoVcc true) rfl (by simp)
  have hflash : (outcomes depth).Outline .timer c flashInit .asleep fun _ x => x = .asleep :=
    hop (.pinWrite .flashEn true) rfl (by simp)
  have hlast : (outcomes depth).Outline .timer c flashInit .asleep fun _ x => x = .idle :=
    asleep_last (o := .pinWrite .flashEn true) rfl
  by_cases hw : woken ≠ 0
  · -- a key woke the controller: the stack is built anew
    refine Outline.seq (m := .asleep) (hled.seq fun _ => hmoto.seq fun _ => hflash) fun _ => ?_
    refine Outline.when (fun _ => ?_) fun hn => absurd hw hn
    exact (hop _ rfl (by simp)).seq fun _ => (asleep_reset hc).seq fun _ => asleep_last (o := .guiWinAdd .w1) rfl
  · refine Outline.seq (m := .idle) (hled.seq fun _ => hmoto.seq fun _ => hlast) fun _ => ?_
    exact Outline.when (fun h => absurd h hw) fun _ => rfl

/-- Where a callback of the timer thread begins. -/
def onset (c : Call) : Post := if Sleep.leadsToStop c = true then .asleep else .idle

theorem outcomes_timer (hc : c.thread = .timer) :
    (outcomes depth).Outline .timer c (body depth c) (onset c) fun _ x => x = .idle := by
  have hawake : ∀ {p : Code Unit}, (p.All fun o => may .timer o = true ∧ o ≠ .guiWinInit) →
      (outcomes depth).Outline .timer c p .idle fun _ x => x = .idle := fun hp =>
    Outline.keep (.inl rfl) (hp.mono fun _ ho => outcomes_other (by decide) ho.1 ho.2) fun _ => rfl
  cases c with
  | expire x =>
    cases x with
    | motoCycle =>
      refine hawake (all_motoCycleTimerCallback ⟨rfl, by simp⟩ ⟨rfl, by simp⟩ ⟨rfl, by simp⟩ ?_ ?_ ⟨rfl, by simp⟩)
      · rintro x (rfl | rfl) <;> exact ⟨rfl, by simp⟩
      · exact all_countUp ⟨rfl, by simp⟩ (fun _ => ⟨rfl, by simp⟩) fun _ =>
          all_flashSet ⟨rfl, by simp⟩ ⟨rfl, by simp⟩ ⟨rfl, by simp⟩
    | screenBacklight =>
      exact hawake (All.bind (All.perform ⟨rfl, by simp⟩) fun _ => All.bind (All.perform ⟨rfl, by simp⟩) fun _ =>
        All.perform (o := Op.pinWrite .lcdBl false) ⟨rfl, by simp⟩)
    | screenVcc => exact (asleep_keep rfl (All.perform ⟨rfl, by simp⟩)).seq fun _ => outcomes_enterLowPower rfl
    | lowPower => exact outcomes_enterLowPower rfl
  | expireSemJump => exact hawake (All.perform ⟨rfl, by simp⟩)
  | enterLowPower => exact outcomes_enterLowPower rfl
  | _ => cases hc

end

/-! ### The display thread -/

section
variable {c : Call} {g : Post}

theorem at_outcomes (hg : g ≠ .asleep) : (outcomes depth).At .lcd (some c) g :=
  .inr (.inl ⟨rfl, Option.some_ne_none c, hg⟩)

/-- One operation that takes the display thread from mark `g` to mark `m`. -/
theorem outcomes_move {o : Op} {g m : Post} {Q : Res o → Post → Prop} (hm : m ≠ .asleep)
    (h : ∀ {cfg : Conf} {z : Post} {i : Input}, cfg.head .lcd = some o → (sleeping cfg = false → z.clear = false) →
      KeptRule cfg (.step .lcd i) → Posted g z cfg.state cfg.trace →
      Posted m z (exec .lcd o i cfg.state).1 (.did .lcd o i :: cfg.trace)) (hq : ∀ r, Q r m) :
    (outcomes depth).Outline .lcd c (perform o) g Q := by
  refine Outline.move (at_outcomes hm) (fun cfg gs i _ hhead hg hold hr => ?_) hq
  have hinv : Posted (gs .lcd) (gs .timer) cfg.state cfg.trace := hold.1
  show Posted (Function.update gs .lcd m .lcd) (Function.update gs .lcd m .timer) _ _
  rw [Function.update_self, Function.update_of_ne (by decide)]
  exact h hhead (awake_of_rule hold) hr (hg ▸ hinv)

theorem outcomes_keep {α : Type} {p : Code α} (hg : g ≠ .asleep) (hl : g ≠ .closing)
    (hp : p.All fun o => mute o = true) : (outcomes depth).Outline .lcd c p g fun _ x => x = g := by
  refine Outline.keep (at_outcomes hg) (hp.mono fun o ho cfg gs i _ _ hgs hold _ => ?_) fun _ => rfl
  have hinv : Posted (gs .lcd) (gs .timer) cfg.state cfg.trace := hold.1
  exact hinv.mute ho fun e => absurd (hgs.symm.trans e) hl

/-- What the display thread does outside window 3, its requests and its answer to one. -/
def plain : Op → Bool
  | .jumpSend _ | .jumpRecv | .guiWinInit => false
  | .motoSend b => b != .forward
  | .store v n => v != .jumpFlag && (v != .jumptoAutomaticFlag || n == 1)
  | .mark m => m != .motoCycle .userMain2WinFun
  | _ => true

theorem outcomes_plain {o : Op} (ho : plain o = true) :
    (outcomes depth).Outline .lcd c (perform o) .idle fun _ x => x = .idle := by
  by_cases hmute : mute o = true
  · exact outcomes_keep (by decide) (by decide) (All.perform hmute)
  refine outcomes_move (by decide) (fun {cfg z i} hhead _ hr hinv => ?_) fun _ => rfl
  cases o with
  | load v =>
    exact hinv.keep (by simp) (by simp) (by simp) (by simp) (by simp) (by simp) (by simp) (by simp) fun _ => id
  | guiWinDeleteTop =>
    refine hinv.keep (by simp) (by simp) (by simp) (by simp) (by simp) (by simp) (by simp) (by simp) fun he hmem => ?_
    have htop : cfg.state.wins.head? ≠ some .w3 := hr.2 he ⟨i, rfl⟩ hhead
    simp only [exec]
    split
    · exact hmem
    · cases hwins : cfg.state.wins with
      | nil => rw [hwins] at hmem; cases hmem
      | cons w rest =>
        rw [hwins] at hmem htop
        refine (List.mem_cons.mp hmem).resolve_left fun e => htop ?_
        rw [← e]
        rfl
  | guiWinAdd w =>
    exact hinv.keep (by simp) (by simp) (by simp) (by simp) (by simp) (by simp) (by simp) (by simp) fun _ => mem_guiWinAdd _
  | store v n =>
    have hv : v = .jumptoAutomaticFlag := by
      cases v <;> first | rfl | exact absurd rfl hmute | cases ho
    subst hv
    obtain rfl : n = 1 := by simpa [plain] using ho
    exact hinv.request (hr.1.2.1 (by rw [hhead]; rfl)) (by simp)
  | jumpSend b => cases ho
  | jumpRecv => cases ho
  | guiWinInit => cases ho
  | motoSend b => exact absurd ho hmute
  | mark m => exact absurd ho hmute
  | _ => exact absurd rfl hmute

/-! ### Window 3 -/

/-- What is received is one bit or none, of the present backwash. -/
theorem outcomes_receive :
    (outcomes depth).Outline .lcd c jumpRecv .idle
      fun e x => single e = true ∧ x = if e = .empty then .read else .received := by
  refine Outline.perform fun cfg gs i _ _ hg hold _ =>
    ⟨if cfg.state.jump = .empty then .read else .received, at_outcomes (by split <;> decide), ?_, hold.1.single, rfl⟩
  have hinv : Posted .idle (gs .timer) cfg.state cfg.trace := hg ▸ hold.1
  show Posted (Function.update gs .lcd _ .lcd) (Function.update gs .lcd _ .timer) _ _
  rw [Function.update_self, Function.update_of_ne (by decide)]
  refine ⟨rfl, ?_, rfl, rfl, ?_, ?_, ?_, fun _ => rfl, fun _ he => absurd rfl he, fun _ => rfl, fun _ => rfl, ?_⟩
  · show (!stale cfg.trace && eachOnce cfg.trace) = true
    rw [hinv.fresh, hinv.once]
    rfl
  · show (posted cfg.trace != .empty) = _
    rw [hinv.replay]
    by_cases he : cfg.state.jump = .empty <;> simp [he]
  · rw [manualRequest_did (by simp), hinv.manual]
    split <;> rfl
  · rw [serving_did (by simp), hinv.serving]
    split <;> rfl
  · split
    · exact fun _ => rfl
    · trivial

/-- A case of the switch is executed. -/
theorem outcomes_set : (outcomes depth).Outline .lcd c (store .jumpFlag 1) .received fun _ x => x = .read := by
  refine outcomes_move (by decide) (fun _ _ _ hinv => ?_) fun _ => rfl
  have hempty := hinv.clear rfl
  refine ⟨hinv.replay, hinv.once, hinv.fresh, hinv.single, rfl, ?_, ?_, fun _ => hempty, fun _ he => absurd hempty he, nofun,
    hinv.asleep, fun _ => hempty⟩
  · rw [manualRequest_did (by simp)]
    exact hinv.manual
  · rw [serving_did (by simp)]
    exact hinv.serving

theorem outcomes_clear : (outcomes depth).Outline .lcd c (store .jumpFlag 0) .idle fun _ x => x = .idle := by
  refine outcomes_move (by decide) (fun _ _ _ hinv => ?_) fun _ => rfl
  refine ⟨hinv.replay, hinv.once, hinv.fresh, hinv.single, hinv.handled, ?_, ?_, hinv.flagged, hinv.stack, hinv.clear,
    hinv.asleep, trivial⟩
  · rw [manualRequest_did (by simp)]
    exact hinv.manual
  · rw [serving_did (by simp)]
    exact hinv.serving

/-- With `Jump_Flag` set nothing is pending, and K2 may leave window 3. -/
theorem outcomes_test (k : Keys) :
    (outcomes depth).Outline .lcd c (load .jumpFlag) .read
      fun (j : Nat) x => x = if k.k2 = true ∧ j = 1 then .leaving else .idle := by
  refine Outline.perform fun cfg gs i _ _ hg hold _ => ⟨if k.k2 = true ∧ cfg.state.vars .jumpFlag = 1 then .leaving else .idle,
    at_outcomes (by split <;> decide), ?_, rfl⟩
  have hinv : Posted .read (gs .timer) cfg.state cfg.trace := hg ▸ hold.1
  have hdid : Posted .read (gs .timer) cfg.state (.did .lcd (.load .jumpFlag) i :: cfg.trace) :=
    hinv.mute (t := .lcd) (o := .load .jumpFlag) (i := i) rfl (by simp)
  show Posted (Function.update gs .lcd _ .lcd) (Function.update gs .lcd _ .timer) _ _
  rw [Function.update_self, Function.update_of_ne (by decide)]
  split
  · next hk =>
    have hj : cfg.state.vars .jumpFlag ≠ 0 := by omega
    exact {hdid with
      handled := hdid.handled, manual := hdid.manual, serving := hdid.serving, stack := fun _ => hdid.stack (by decide)
      clear := fun _ => hdid.knows hj, knows := hj}
  · exact {hdid with
      handled := hdid.handled, manual := hdid.manual, serving := hdid.serving, stack := fun _ => hdid.stack (by decide)
      clear := nofun, knows := trivial}

/-- Window 3 takes itself off the stack. -/
theorem outcomes_dismiss (hg : g = .received ∨ g = .leaving) :
    (outcomes depth).Outline .lcd c guiWinInit g fun _ x => x = g := by
  have hclear : g.clear = true ∧ g ≠ .asleep ∧ g ≠ .closing := by rcases hg with rfl | rfl <;> decide
  refine outcomes_move hclear.2.1 (fun _ _ _ hinv => ?_) fun _ => rfl
  refine hinv.keep (by simp) (by simp) (by simp) (by simp) (by simp) (by simp) (by simp)
    (fun e => absurd e hclear.2.2) fun he _ => ?_
  exact absurd (hinv.clear hclear.1) he

/-- Back to the main menu, up to the last LED. -/
theorem outcomes_leaveProgress (hg : g = .received ∨ g = .leaving) {Q : Unit → Post → Prop}
    (hlast : (outcomes depth).Outline .lcd c (pinWrite .ledG true) g Q) :
    (outcomes depth).Outline .lcd c leaveProgress g Q := by
  have hmute : ∀ o, mute o = true → (outcomes depth).Outline .lcd c (perform o) g fun _ x => x = g := fun o ho =>
    outcomes_keep (by rcases hg with rfl | rfl <;> decide) (by rcases hg with rfl | rfl <;> decide) (All.perform ho)
  exact (hmute _ rfl).seq fun _ => (outcomes_dismiss hg).seq fun _ => (hmute _ rfl).seq fun _ => (hmute _ rfl).seq
    fun _ => hlast

/-- The last LED: window 3 is gone. -/
theorem outcomes_awayLed :
    (outcomes depth).Outline .lcd c (pinWrite .ledG true) .leaving fun _ x => x = .idle := by
  refine outcomes_move (by decide) (fun {cfg z i} _ _ _ hinv => ?_) fun _ => rfl
  have hdid := hinv.mute (t := .lcd) (o := .pinWrite .ledG true) (i := i) rfl (by simp)
  exact {hdid with
    handled := hdid.handled, manual := hdid.manual, serving := hdid.serving, stack := fun _ => hdid.stack (by decide)
    clear := nofun, knows := trivial}

theorem outcomes_redLight : (outcomes depth).Outline .lcd c redLight .received fun _ x => x = .received :=
  outcomes_keep (by decide) (by decide) (all_light fun _ _ _ => rfl).1

theorem outcomes_showOutcome {e : JumpBits} (h : single e = true) (he : e ≠ .empty) :
    (outcomes depth).Outline .lcd c (showOutcome e) .received fun _ x => x = .read := by
  have hset : (outcomes depth).Outline .lcd c (store .jumpFlag 1) .received fun _ x => x = .read := outcomes_set
  rcases single_cases h he with rfl | rfl | rfl | rfl | rfl
  · exact hset
  · exact outcomes_redLight.seq fun _ => hset
  · exact hset.seq fun _ => outcomes_keep (by decide) (by decide) (All.perform rfl)
  · exact outcomes_redLight.seq fun _ => hset
  · refine Outline.seq (m := .received) (outcomes_leaveProgress (.inl rfl) ?_) fun _ => hset
    exact outcomes_keep (by decide) (by decide) (All.perform rfl)

theorem mute_takeKeys : takeKeys.All fun o => mute o = true :=
  built_takeKeys (All.compositional _) fun _ => All.perform rfl

theorem outcomes_userMain3WinFun :
    (outcomes depth).Outline .lcd c userMain3WinFun .idle fun _ x => x = .idle := by
  refine (outcomes_plain rfl).seq fun (f : Nat) => Outline.ite (fun _ => ?_) fun _ => ?_
  · exact (outcomes_plain rfl).seq fun _ => outcomes_clear
  refine outcomes_receive.bind fun (e : JumpBits) g hg => ?_
  obtain ⟨hsingle, rfl⟩ := hg
  refine Outline.seq (m := .read) (Outline.when (fun he => ?_) fun he => ?_) fun _ => ?_
  · rw [if_neg he]
    exact outcomes_showOutcome hsingle he
  · exact if_pos (not_not.mp he)
  refine Outline.seq (m := .read) (outcomes_keep (by decide) (by decide) mute_takeKeys) fun k => ?_
  refine (outcomes_test k).bind fun (j : Nat) x hx => ?_
  subst hx
  refine Outline.when (fun hk => ?_) fun hk => if_neg hk
  rw [if_pos hk]
  exact outcomes_leaveProgress (.inr rfl) outcomes_awayLed

end

/-! ### Requests -/

section
variable {c : Call}

/-- Window 2 enters `Moto_Cycle`. -/
theorem outcomes_request :
    (outcomes depth).Outline .lcd c (mark (.motoCycle .userMain2WinFun)) .idle fun _ x => x = .manual := by
  refine outcomes_move (by decide) (fun hhead _ hr hinv => ?_) fun _ => rfl
  have hempty := hr.1.2.1 (by rw [hhead]; rfl)
  refine ⟨hinv.replay, hinv.once, hinv.fresh, hinv.single, hinv.handled, rfl, ?_, hinv.flagged,
    fun _ he => absurd hempty he, fun _ => hempty, hinv.asleep, trivial⟩
  rw [serving_did (by simp)]
  exact hinv.serving

/-- A backwash is accepted: nothing has been pending since the request was made. -/
theorem outcomes_accept {g : Post} (hg : g = .manual ∨ g = .serving) :
    (outcomes depth).Outline .lcd c (motoSend .forward) g fun _ x => x = g :=
  outcomes_move (by rcases hg with rfl | rfl <;> decide)
    (fun _ _ _ hinv => hinv.accept (by rcases hg with rfl | rfl <;> rfl)) fun _ => rfl

/-- The request has been refused with `JUMP_EXIT`. -/
def Post.exit : Post → Post
  | .manual => .refused
  | .serving => .served
  | l => l

theorem outcomes_exit {g : Post} (hg : g = .manual ∨ g = .serving) :
    (outcomes depth).Outline .lcd c (jumpSend .exit) g fun _ x => x = g.exit := by
  refine outcomes_move (by rcases hg with rfl | rfl <;> decide) (fun {cfg z i} hhead hz hr hinv => ?_) fun _ => rfl
  have hpost : PostRule cfg .lcd := hr.1.1 (by rw [hhead]; rfl)
  have hempty : cfg.state.jump = .empty := hinv.clear (by rcases hg with rfl | rfl <;> rfl)
  have hposted : posted cfg.trace = .empty := hinv.replay.trans hempty
  refine ⟨?_, ?_, ?_, ?_, ?_, ?_, ?_, fun e => absurd hpost.asked e, fun hl _ => ?_, fun e => ?_, fun e => ?_, ?_⟩
  · show (posted cfg.trace).send .exit = cfg.state.jump.send .exit
    rw [hinv.replay]
  · show ((posted cfg.trace).send .exit != posted cfg.trace && eachOnce cfg.trace) = true
    rw [hposted, hinv.once]
    rfl
  · rw [stale_did (by simp) (accepts_of_ne (by simp))]
    exact hinv.fresh
  · show Lcd.single (cfg.state.jump.send .exit) = true
    rw [hempty]
    rfl
  · rw [unhandled_did (by simp) (by simp), hinv.handled]
    rcases hg with rfl | rfl <;> rfl
  · rw [manualRequest_did (by simp), hinv.manual]
    rcases hg with rfl | rfl <;> rfl
  · rw [serving_did (by simp), hinv.serving]
    rcases hg with rfl | rfl <;> rfl
  · refine hpost.stack.resolve_right fun e => ?_
    have hmanual := e.2
    rw [hinv.manual] at hmanual
    rcases hg with rfl | rfl
    · exact hl rfl
    · cases hmanual
  · rcases hg with rfl | rfl <;> cases e
  · exact absurd ((hz hpost.awake).symm.trans e) Bool.false_ne_true
  · rcases hg with rfl | rfl <;> trivial

/-- A call of `Moto_Cycle`, once entered. -/
theorem outcomes_motoCycle {g : Post} (hg : g = .manual ∨ g = .serving) {caller : Caller} {g₀ : Post}
    (henter : (outcomes depth).Outline .lcd c (mark (.motoCycle caller)) g₀ fun _ x => x = g) :
    (outcomes depth).Outline .lcd c (motoCycle caller) g₀ fun _ x => x = g ∨ x = g.exit := by
  have hne : g ≠ .asleep ∧ g ≠ .closing := by rcases hg with rfl | rfl <;> decide
  have hkeep : ∀ {α : Type} {p : Code α}, (p.All fun o => mute o = true) →
      (outcomes depth).Outline .lcd c p g fun _ x => x = g := outcomes_keep hne.1 hne.2
  have hexit : (outcomes depth).Outline .lcd c jumpToBatteryEmpty g.exit fun _ x => x = g.exit :=
    outcomes_keep (by rcases hg with rfl | rfl <;> decide) (by rcases hg with rfl | rfl <;> decide) (All.perform rfl)
  have hclear : rtcClear.All fun o => mute o = true :=
    All.bind (All.perform rfl) fun _ => All.perform (o := Op.store (.rtcTime .automatic) 0) rfl
  have hsupplied : motoCycleSupplied.All fun o => mute o = true :=
    All.bind (All.perform rfl) fun _ => All.ite (All.pure _)
      (All.bind (All.bind (All.perform rfl) fun _ => All.pure _) fun _ => All.pure _)
  refine henter.seq fun _ => (hkeep hclear).seq fun _ => (hkeep hsupplied).seq fun supplied => ?_
  refine Outline.ite (fun _ => ?_) fun _ => ?_
  · refine (hkeep (All.perform rfl)).seq fun (working : Nat) => Outline.when (fun _ => ?_) fun _ => .inl rfl
    refine (hkeep ?_).seq fun _ => (outcomes_accept hg).seq fun _ => (hkeep ?_).mono fun _ _ e => .inl e
    · exact All.bind (All.perform rfl) fun _ => All.perform (o := Op.timerStop .screenVcc) rfl
    · exact All.bind (All.perform rfl) fun _ => All.bind (All.perform rfl) fun _ => All.bind (All.perform rfl) fun _ =>
        (all_light fun _ _ _ => rfl).2
  · exact (outcomes_exit hg).seq fun _ => hexit.mono fun _ _ e => .inr e

/-- Window 2 pushes window 3 over itself. -/
theorem outcomes_push {g : Post} (hg : g = .manual ∨ g = .refused) :
    (outcomes depth).Outline .lcd c (guiWinAdd .w3) g fun _ x => x = .idle := by
  refine outcomes_move (by decide) (fun {cfg z i} hhead _ hr hinv => ?_) fun _ => rfl
  refine ⟨hinv.replay, hinv.once, hinv.fresh, hinv.single, ?_, rfl, ?_, hinv.flagged, fun _ he => ?_, nofun, hinv.asleep,
    trivial⟩
  · rw [unhandled_did (by simp) (by simp), hinv.handled]
    rcases hg with rfl | rfl <;> rfl
  · rw [serving_did (by simp), hinv.serving]
    rcases hg with rfl | rfl <;> rfl
  · have hroom : cfg.state.wins.length < guiWinManageNum := (hr.1.2.2 rfl he).2.2 hhead
    show Win.w3 ∈ if cfg.state.wins.length ≥ guiWinManageNum then cfg.state.wins else .w3 :: cfg.state.wins
    rw [if_neg (Nat.not_le.mpr hroom)]
    exact List.mem_cons_self

theorem outcomes_requestManual :
    (outcomes depth).Outline .lcd c (do motoCycle .userMain2WinFun; guiWinAdd .w3) .idle fun _ x => x = .idle :=
  (outcomes_motoCycle (.inl rfl) outcomes_request).bind fun _ _ hx => outcomes_push hx

/-! ### The answer to an automatic request -/

/-- The flag is set, so nothing is pending. -/
theorem outcomes_take :
    (outcomes depth).Outline .lcd c (load .jumptoAutomaticFlag) .idle
      fun (f : Nat) x => x = if f = 1 then .called else .idle := by
  refine Outline.perform fun cfg gs i _ _ hg hold _ => ⟨if cfg.state.vars .jumptoAutomaticFlag = 1 then .called else .idle,
    at_outcomes (by split <;> decide), ?_, rfl⟩
  have hinv : Posted .idle (gs .timer) cfg.state cfg.trace := hg ▸ hold.1
  have hdid : Posted .idle (gs .timer) cfg.state (.did .lcd (.load .jumptoAutomaticFlag) i :: cfg.trace) :=
    hinv.mute (t := .lcd) (o := .load .jumptoAutomaticFlag) (i := i) rfl (by simp)
  show Posted (Function.update gs .lcd _ .lcd) (Function.update gs .lcd _ .timer) _ _
  rw [Function.update_self, Function.update_of_ne (by decide)]
  split
  · next hf =>
    have hset : cfg.state.vars .jumptoAutomaticFlag ≠ 0 := by omega
    exact {hdid with
      handled := hdid.handled, manual := hdid.manual, serving := hdid.serving, stack := fun _ => hdid.stack (by decide)
      clear := nofun, knows := hset}
  · exact hdid

theorem outcomes_answer :
    (outcomes depth).Outline .lcd c (store .jumptoAutomaticFlag 0) .called fun _ x => x = .serving := by
  refine outcomes_move (by decide) (fun _ _ _ hinv => ?_) fun _ => rfl
  have hempty := hinv.flagged hinv.knows
  refine ⟨hinv.replay, hinv.once, hinv.fresh, hinv.single, hinv.handled, ?_, rfl, fun _ => hempty,
    fun _ he => absurd hempty he, fun _ => hempty, hinv.asleep, trivial⟩
  rw [manualRequest_did (by simp)]
  exact hinv.manual

/-- The display is opened once the request is through. -/
theorem outcomes_through {g : Post} (hg : g = .serving ∨ g = .served) :
    (outcomes depth).Outline .lcd c (load .lcdFlag) g fun _ x => x = .idle := by
  refine outcomes_move (by decide) (fun _ _ _ hinv => ?_) fun _ => rfl
  have hstack := hinv.stack (by rcases hg with rfl | rfl <;> decide)
  refine ⟨hinv.replay, hinv.once, hinv.fresh, hinv.single, ?_, ?_, rfl, hinv.flagged, fun _ => hstack, nofun, hinv.asleep,
    trivial⟩
  · rw [unhandled_did (by simp) (by simp), hinv.handled]
    rcases hg with rfl | rfl <;> rfl
  · rw [manualRequest_did (by simp), hinv.manual]
    rcases hg with rfl | rfl <;> rfl

theorem outcomes_plains {α : Type} {p : Code α} (hp : p.All fun o => plain o = true) :
    (outcomes depth).Outline .lcd c p .idle fun _ x => x = .idle := by
  induction p with
  | ret a => rfl
  | op o k ih => exact (outcomes_plain hp.1).bind fun r _ hx => hx ▸ ih r (hp.2 r)

theorem plain_openLcdDisplay : openLcdDisplay.All fun o => plain o = true := by
  refine built_openLcdDisplay (All.compositional _) fun o ho => All.perform ?_
  cases o with
  | store v n => cases v <;> first | rfl | cases ho
  | mark m => cases m <;> first | rfl | cases ho
  | load v => rfl
  | pinWrite p b => rfl
  | _ => cases ho

theorem outcomes_serve :
    (outcomes depth).Outline .lcd c (serve .jumptoAutomaticFlag do lcdtoBackwash; openLcdDisplay) .idle
      fun _ x => x = .idle := by
  have hserving : ∀ {α : Type} {p : Code α}, (p.All fun o => mute o = true) →
      (outcomes depth).Outline .lcd c p .serving fun _ x => x = .serving := outcomes_keep (by decide) (by decide)
  have hadd : (outcomes depth).Outline .lcd c (guiWinAdd .w3) .serving fun _ x => x = .serving := by
    refine outcomes_move (by decide) (fun _ _ _ hinv => ?_) fun _ => rfl
    exact hinv.keep (by simp) (by simp) (by simp) (by simp) (by simp) (by simp) (by simp) (by simp) fun _ => mem_guiWinAdd _
  have hback : (outcomes depth).Outline .lcd c lcdtoBackwash .serving fun _ x => x = .serving ∨ x = .served := by
    refine (hserving (All.perform rfl)).seq fun (f : Nat) => Outline.seq (m := .serving) (Outline.ite (fun _ => ?_)
      fun _ => ?_) fun _ => outcomes_motoCycle (.inr rfl) (hserving (All.perform rfl))
    · exact (hserving (All.perform rfl)).seq fun _ => hadd
    · exact hserving (All.perform rfl)
  refine outcomes_take.bind fun (f : Nat) x hx => ?_
  subst hx
  refine Outline.when (fun hf => ?_) fun hf => if_neg hf
  rw [if_pos hf]
  refine outcomes_answer.seq fun _ => hback.bind fun _ x hx => ?_
  exact (outcomes_through hx).seq fun f => outcomes_plains (plain_openLcdDisplay.2 f)

end

/-! ### Every call -/

section
variable {c : Call}

theorem plain_of_winMay {w : Win} {o : Op} (hw : w ≠ .w2 ∧ w ≠ .w3 ∧ w ≠ .w25) (h : winMay w o = true) :
    plain o = true := by
  have hown := (Bool.and_eq_true_iff.mp h).2
  have h2 : (w == .w2) = false := by simpa using hw.1
  have h3 : (w == .w3) = false := by simpa using hw.2.1
  have h25 : (w == .w25) = false := by simpa using hw.2.2
  cases o with
  | jumpSend b => simp [ownMay, h2] at hown
  | jumpRecv => simp [ownMay, h3] at hown
  | guiWinInit => simp [ownMay, h3, h25] at hown
  | motoSend b => simp [ownMay, h2] at hown
  | store v n => cases v <;> first | rfl | simp [ownMay, h3, h25] at hown
  | mark m => cases m <;> first | rfl | simp [ownMay, h2] at hown
  | _ => rfl

theorem plain_of_taskMay {o : Op} (h : (taskMay o && !isAutomatic o) = true) : plain o = true := by
  obtain ⟨hmay, hauto⟩ := Bool.and_eq_true_iff.mp h
  cases o with
  | jumpSend b => cases hmay
  | jumpRecv => cases hmay
  | guiWinInit => cases hmay
  | motoSend b => cases hmay
  | store v n => cases v <;> first | rfl | cases hmay | cases hauto
  | mark m => cases m <;> first | rfl | cases hmay
  | _ => rfl

theorem plain_jumptoAutomatic : jumptoAutomatic.All fun o => plain o = true :=
  All.bind (All.perform rfl) fun _ => All.bind
    (all_countUp rfl (fun _ => rfl) fun _ => all_flashSet rfl rfl rfl) fun _ =>
      All.perform (o := Op.store .jumptoAutomaticFlag 1) rfl

theorem outcomes_userMain2WinFun :
    (outcomes depth).Outline .lcd c userMain2WinFun .idle fun _ x => x = .idle := by
  have hplain : ∀ {α : Type} {p : Code α}, (p.All fun o => plain o = true) →
      (outcomes depth).Outline .lcd c p .idle fun _ x => x = .idle := outcomes_plains
  have hkeys : takeKeys.All fun o => plain o = true :=
    built_takeKeys (All.compositional _) fun _ => All.perform rfl
  have htoggle : toggleTwo.All fun o => plain o = true :=
    built_toggleTwo (All.compositional _) (All.perform rfl) (fun _ _ => All.perform rfl)
      (fun _ _ _ => All.perform rfl) fun _ _ => All.perform rfl
  have hdraw : (drawButtons [1, 0, 1]).All fun o => plain o = true :=
    built_drawButtons (All.compositional _) (fun _ _ => ⟨All.perform rfl, All.perform rfl⟩) _
  have hcount : (countUp .manual 8).All fun o => plain o = true :=
    all_countUp rfl (fun _ => rfl) fun _ => all_flashSet rfl rfl rfl
  refine (outcomes_plain rfl).seq fun (f : Nat) => Outline.ite (fun _ => ?_) fun _ => ?_
  · exact (outcomes_plain rfl).seq fun _ => (outcomes_plain rfl).seq fun _ => hplain hdraw
  refine (hplain hkeys).seq fun k => Outline.seq (Outline.when (fun _ => hplain htoggle) fun _ => rfl) fun _ => ?_
  refine Outline.seq (Outline.when (fun _ => hplain htoggle) fun _ => rfl) fun _ => Outline.when (fun _ => ?_) fun _ => rfl
  refine (outcomes_plain rfl).seq fun (b : Nat) => Outline.ite (fun _ => ?_) fun _ => ?_
  · exact (outcomes_plain rfl).seq fun _ => (hplain hcount).seq fun _ => outcomes_requestManual
  · exact (outcomes_plain rfl).seq fun _ => outcomes_plain (o := .store (.firstFlag .w2) 0) rfl

/-- K0 leaves the reminder window while nothing is pending. -/
theorem outcomes_leaveReminder :
    (outcomes depth).Outline .lcd c (do store (.firstFlag .w25) 0; guiWinInit) .idle fun _ x => x = .idle := by
  have hstore : (outcomes depth).Outline .lcd c (store (.firstFlag .w25) 0) .idle fun _ x => x = .closing := by
    refine outcomes_move (by decide) (fun {cfg z i} _ _ _ hinv => ?_) fun _ => rfl
    have hdid := hinv.mute (t := .lcd) (o := .store (.firstFlag .w25) 0) (i := i) rfl (by simp)
    exact {hdid with
      handled := hdid.handled, manual := hdid.manual, serving := hdid.serving, stack := fun _ => hdid.stack (by decide)
      clear := nofun, knows := lastOp_did_self _ _ _ _}
  refine hstore.seq fun _ => outcomes_move (by decide) (fun {cfg z i} hhead _ hr hinv => ?_) fun _ => rfl
  have hempty : cfg.state.jump = .empty := by
    by_contra he
    exact (hr.1.2.2 rfl he).1 hhead hinv.knows
  refine ⟨hinv.replay, hinv.once, hinv.fresh, hinv.single, hinv.handled, ?_, ?_, hinv.flagged,
    fun _ he => absurd hempty he, nofun, hinv.asleep, trivial⟩
  · rw [manualRequest_did (by simp)]
    exact hinv.manual
  · rw [serving_did (by simp)]
    exact hinv.serving

theorem outcomes_userMain25WinFun {display : Code Unit}
    (hd : (outcomes depth).Outline .lcd c display .idle fun _ x => x = .idle) :
    (outcomes depth).Outline .lcd c (userMain25WinFun display) .idle fun _ x => x = .idle := by
  have hkeys : takeKeys.All fun o => plain o = true := built_takeKeys (All.compositional _) fun _ => All.perform rfl
  have hdraw : (drawButton 3 1).All fun o => plain o = true :=
    all_drawButton rfl rfl
  refine (outcomes_plain rfl).seq fun (f : Nat) => Outline.ite (fun _ => ?_) fun _ => ?_
  · exact (outcomes_plain rfl).seq fun _ => (outcomes_plain rfl).seq fun _ => outcomes_plains hdraw
  refine (outcomes_plains hkeys).seq fun k => Outline.seq (Outline.when (fun _ => ?_) fun _ => rfl) fun _ =>
    Outline.when (fun _ => outcomes_plains plain_jumptoAutomatic) fun _ => rfl
  exact outcomes_leaveReminder.seq fun _ => (outcomes_plain (o := .guiWinAdd .w1) rfl).seq fun _ => hd

theorem outcomes_guiWinDisplay (n : Nat) :
    (outcomes depth).Outline .lcd c (guiWinDisplay n) .idle fun _ x => x = .idle := by
  induction n with
  | zero => rfl
  | succ n ih =>
    refine (outcomes_plain rfl).seq fun (top : Option Win) => ?_
    cases top with
    | none => rfl
    | some w =>
      refine (outcomes_plain rfl).seq fun _ => ?_
      by_cases h2 : w = .w2
      · subst h2
        exact outcomes_userMain2WinFun
      by_cases h3 : w = .w3
      · subst h3
        exact outcomes_userMain3WinFun
      by_cases h25 : w = .w25
      · subst h25
        exact outcomes_userMain25WinFun ih
      · exact built_winFun Outline.compositional ih fun o ho => outcomes_plain (plain_of_winMay ⟨h2, h3, h25⟩ ho)

theorem outcomes_lcd (hc : c.thread = .lcd) (hallowed : screenCalls c = true) :
    (outcomes depth).Outline .lcd c (body depth c) .idle fun _ x => x = .idle := by
  obtain rfl := lcdTask_of_screenCalls hc hallowed
  exact built_answeringTask Outline.compositional (outcomes_guiWinDisplay depth) (outcomes_plains plain_openLcdDisplay)
    (outcomes_plains plain_jumptoAutomatic) outcomes_serve fun o ho => outcomes_plain (plain_of_taskMay ho)

end

/-- Beginning a call leaves the outcomes as they are. -/
theorem Posted.began {l z : Post} {s : Device} {tr : Trace} {t : Thread} {c : Call} (h : Posted l z s tr)
    (hl : l = .closing → t ≠ .lcd) : Posted l z (enter c s) (.began t c :: tr) := by
  have hflag : ∀ v, v = .jumpFlag ∨ v = .jumptoAutomaticFlag → (enter c s).vars v = s.vars v := fun v hv =>
    enter_vars (fun _ => by rcases hv with rfl | rfl <;> simp) (by rcases hv with rfl | rfl <;> decide) c s
  have hjump : (enter c s).jump = s.jump := enter_jump c s
  refine ⟨?_, h.once, h.fresh, ?_, h.handled, h.manual, h.serving, ?_, ?_, ?_, ?_, ?_⟩
  · rw [hjump]
    exact h.replay
  · rw [hjump]
    exact h.single
  · rw [hjump, hflag _ (.inr rfl)]
    exact h.flagged
  · rw [hjump, enter_wins]
    exact h.stack
  · rw [hjump]
    exact h.clear
  · rw [hjump]
    exact h.asleep
  · cases l with
    | called => exact fun e => h.knows ((hflag _ (.inr rfl)).symm.trans e)
    | read => exact fun e => hjump.trans (h.knows fun e' => e ((hflag _ (.inl rfl)).trans e'))
    | leaving => exact fun e => h.knows ((hflag _ (.inl rfl)).symm.trans e)
    | closing => exact (lastOp_began_of_ne (hl rfl) c tr).trans h.knows
    | _ => trivial

theorem outcomes_begins (c : Call) (hc : screenCalls c = true) : (outcomes depth).Begins c.thread c := by
  have hidle : ∀ x, (outcomes depth).At c.thread none x → x = .idle := fun x hx => by simpa [outcomes] using hx
  have henter : ∀ cfg gs, (outcomes depth).Holds gs cfg → (outcomes depth).Rule cfg (.start c.thread c) →
      gs c.thread = .idle → c.enabled cfg.state = true →
      (outcomes depth).Inv gs (enter c cfg.state) (.began c.thread c :: cfg.trace) := by
    intro cfg gs hold _ hidle _
    have hinv : Posted (gs .lcd) (gs .timer) cfg.state cfg.trace := hold.1
    exact hinv.began fun e et => by rw [et, e] at hidle; cases hidle
  by_cases hl : c.thread = .lcd
  · refine begins_outline hidle (.inl rfl) henter ?_
    rw [hl]
    exact (outcomes_lcd hl hc).mono fun _ _ e => .inl e
  by_cases ht : c.thread = .timer
  · intro cfg gs hnone _ hold hr
    have hinv : Posted (gs .lcd) (gs .timer) cfg.state cfg.trace := hold.1
    refine ⟨onset c, ?_, ?_, ?_⟩
    · unfold onset
      split
      · next hc => exact .inr (.inr ⟨ht, hc⟩)
      · exact .inl rfl
    · rw [ht]
      show Posted (Function.update gs .timer (onset c) .lcd) (Function.update gs .timer (onset c) .timer) _ _
      rw [Function.update_of_ne (by decide), Function.update_self]
      have hbegan : Posted (gs .lcd) (gs .timer) (enter c cfg.state) (.began .timer c :: cfg.trace) :=
        hinv.began fun _ => by decide
      have hempty (hz : (onset c).clear = true) : cfg.state.jump = .empty := by
        refine hr.1 ?_
        by_contra hc
        rw [onset, if_neg hc] at hz
        cases hz
      exact {hbegan with asleep := fun hz => (enter_jump c cfg.state).trans (hempty hz)}
    · rw [ht]
      exact (outcomes_timer ht).mono fun _ _ e => .inl e
  · have hshell : c.thread ≠ .shell := by
      intro e
      cases c with
      | shell x => cases hc
      | _ => cases e
    refine begins_quiet hidle (fun _ => .inl rfl) henter fun o ho => outcomes_other ⟨hl, hshell⟩ ho fun e => ?_
    subst e
    cases hct : c.thread <;> rw [hct] at ho <;> first | cases ho; done | exact absurd hct ht | exact absurd hct hl

/-- Every outcome is shown once, for the backwash that produced it, in a run that
keeps to the rule. -/
theorem outcomes_shown_once (depth : Nat) (flash : Nat → Nat) (as : List Act)
    (h : (board screenCalls depth).Admits OutcomeRule (start flash) as) :
    OutcomesShown ((board screenCalls depth).run (start flash) as) := by
  have hempty : (boot flash).jump = .empty := boot_jump flash
  have hstart : (outcomes depth).Good (fun _ => .idle) (start flash) := by
    refine Good.boot ⟨hempty.symm, rfl, rfl, ?_, rfl, rfl, rfl, fun _ => hempty, fun _ he => absurd hempty he, nofun, nofun,
      trivial⟩ fun _ => .inl rfl
    rw [hempty]
    rfl
  obtain ⟨gs, hgood⟩ := run_good (begins_board outcomes_begins) hstart (keptRule_of_outcomeRule h)
  have hinv : Posted (gs .lcd) (gs .timer) _ _ := hgood.1
  refine ⟨hinv.once, fun hidle => ?_⟩
  have hl : gs .lcd = .idle := by simpa [outcomes] using hgood.idle hidle
  exact ⟨by rw [hinv.handled, hl]; rfl, hinv.stack (by rw [hl]; decide)⟩

/-- A backwash started by hand, after which the water is still too hard. -/
def tooHard : List Act :=
  byHand ++ lcdPass ++ openPass 8 ++ rightPass 26 ++ expiry ++ openPass 8 ++ answer ++ leftPass 0

theorem outcomes_shown_once_tooHard :
    ((board screenCalls 2).run (start fun _ => 0) tooHard).state.jump = .only .tds ∧
    (board screenCalls 2).Admits OutcomeRule (start fun _ => 0) (tooHard ++ lcdPass) ∧
    OutcomesShown ((board screenCalls 2).run (start fun _ => 0) (tooHard ++ lcdPass)) :=
  ⟨by decide +kernel, by decide +kernel, outcomes_shown_once 2 (fun _ => 0) (tooHard ++ lcdPass) (by decide +kernel)⟩

/-- The left limit and an overload in one pass: two outcomes are received together and
match no case. -/
theorem outcomes_lost_overload :
    ¬ OutcomesShown ((board screenCalls 2).run (start fun _ => 0)
      (byHand ++ openPass 8 ++ rightPass 26 ++ expiry ++ openPass 8 ++ leftPass 201 ++ lcdPass ++ lcdPass)) := by
  decide +kernel

end Backwash.Lcd
