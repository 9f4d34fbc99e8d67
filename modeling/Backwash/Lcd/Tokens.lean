import Backwash.Motor.Cycle

/-! Who presses K2.

`K2_Sem` is released by the key and, four seconds after a backwash has finished,
by a timer that is to dismiss the finish screen. The timer is never stopped, and
every window takes the same semaphore: a token that the finish screen did not get
is a key press to whatever window comes next. -/
namespace Backwash.Lcd
open Concurrent Prog Protocol Firmware Motor

/-- If `Moto_Cycle` was called from window 2 just now, it was on a token of the key. -/
def startedByKey (s : Device) : Trace → Bool
  | .did .lcd (.mark (.motoCycle .userMain2WinFun)) _ :: _ => s.taken .k2 == some .button
  | _ => true

/-- `UserMain2WinFun` was entered and has not taken `K2_Sem` yet. -/
def entered2 : Trace → Bool
  | [] => false
  | .did .lcd (.mark (.winFun w)) _ :: _ => w == .w2
  | .did .lcd (.semTake .k2) _ :: _ | .began .lcd _ :: _ => false
  | _ :: tr => entered2 tr

/-- Window 2 is not entered with a token of the dismissal pending, and none is
released between its entry and its take. -/
def DismissRule (cfg : Conf) : Act → Prop
  | .step t _ =>
    (t = .lcd ∧ cfg.head t = some (.mark (.winFun .w2)) → Thread.timer ∉ cfg.state.sem .k2) ∧
    ¬ (t = .timer ∧ cfg.head t = some (.semRelease .k2) ∧ entered2 cfg.trace = true)
  | .start _ _ => True

instance (cfg : Conf) : ∀ a, Decidable (DismissRule cfg a)
  | .step _ _ => inferInstanceAs (Decidable (_ ∧ _))
  | .start _ _ => inferInstanceAs (Decidable True)

/-- Everything but a bare `Moto_Cycle`. -/
def windowCalls : Call → Bool
  | .motoCycle _ => false
  | _ => true

/-! ### The invariant -/

/-- Where the display thread is: in window 2 before its take, or with a token from it. -/
inductive Place where
  | idle | entered | took
  deriving DecidableEq

structure Tokens (l : Place) (s : Device) (tr : Trace) : Prop where
  known : ∀ t ∈ s.sem .k2, t = .button ∨ t = .timer
  entered : l = .entered → entered2 tr = true ∧ Thread.timer ∉ s.sem .k2
  took : l = .took → s.taken .k2 = some .button
  started : startedByKey s tr = true

variable {depth : Nat}

def tokens (depth : Nat) : Protocol (board windowCalls depth) Place where
  Rule := DismissRule
  Inv := fun gs s tr => Tokens (gs .lcd) s tr
  At := fun t c g => g = .idle ∨ (t = .lcd ∧ c ≠ none)

section
variable {t : Thread} {o : Op} {i : Input} {s : Device} {tr : Trace} {l : Place}

theorem entered2_other (ht : t ≠ .lcd) : entered2 (.did t o i :: tr) = entered2 tr := by
  cases t <;> first | rfl | exact absurd rfl ht

theorem startedByKey_did (h : t = .lcd → o ≠ .mark (.motoCycle .userMain2WinFun)) :
    startedByKey s (.did t o i :: tr) = true := by
  unfold startedByKey
  split
  · next heq => cases heq; exact absurd rfl (h rfl)
  · rfl

/-- An operation that touches neither the tokens nor what the display has entered. -/
theorem Tokens.keep (h : Tokens l s tr) (ht : o ≠ .semTake .k2) (hr : o ≠ .semRelease .k2)
    (hm : t = .lcd → o ≠ .mark (.motoCycle .userMain2WinFun))
    (he : entered2 (.did t o i :: tr) = entered2 tr) : Tokens l (exec t o i s).1 (.did t o i :: tr) := by
  refine ⟨?_, ?_, ?_, startedByKey_did hm⟩
  · rw [exec_sem ht hr]
    exact h.known
  · rw [exec_sem ht hr, he]
    exact h.entered
  · rw [exec_taken ht]
    exact h.took

/-- A key adds a token of its own. -/
theorem Tokens.press (h : Tokens l s tr) :
    Tokens l (exec .button (.semRelease .k2) i s).1 (.did .button (.semRelease .k2) i :: tr) := by
  refine ⟨fun t ht => ?_, fun e => ?_, h.took, rfl⟩
  · have : t ∈ s.sem .k2 ∨ t = .button := by simpa [exec] using ht
    exact this.elim (h.known t) .inl
  · refine ⟨(h.entered e).1, fun ht => ?_⟩
    have : Thread.timer ∈ s.sem .k2 := by simpa [exec] using ht
    exact (h.entered e).2 this

/-- The timer adds a token while window 2 is not about to take one. -/
theorem Tokens.dismiss (h : Tokens l s tr) (he : entered2 tr = false) :
    Tokens l (exec .timer (.semRelease .k2) i s).1 (.did .timer (.semRelease .k2) i :: tr) := by
  refine ⟨fun t ht => ?_, fun e => ?_, h.took, rfl⟩
  · have : t ∈ s.sem .k2 ∨ t = .timer := by simpa [exec] using ht
    exact this.elim (h.known t) .inr
  · exact absurd (he.symm.trans (h.entered e).1) nofun

end

/-! ### The other threads -/

theorem other_keeps {t : Thread} {c : Call} {o : Op} (ht : t ≠ .lcd) (hmay : may t o = true) :
    (tokens depth).Keeps t c .idle o := by
  intro cfg gs i _ hhead _ hold hr
  have hinv : Tokens (gs .lcd) cfg.state cfg.trace := hold.1
  show Tokens (gs .lcd) (exec t o i cfg.state).1 (.did t o i :: cfg.trace)
  have htake : o ≠ .semTake .k2 := by
    rintro rfl
    cases t <;> first | exact absurd rfl ht | cases hmay
  by_cases hrel : o = .semRelease .k2
  · subst hrel
    have hwho : t = .button ∨ t = .timer := by
      cases t <;> first | exact .inl rfl | exact .inr rfl | exact absurd rfl ht | cases hmay
    rcases hwho with rfl | rfl
    · exact hinv.press
    · exact hinv.dismiss (by simpa [hhead] using hr.2)
  · exact hinv.keep htake hrel (fun e => absurd e ht) (entered2_other ht)

/-! ### The display thread -/

/-- The operation neither takes a token of K2 nor enters a window nor requests. -/
def untouched (o : Op) : Bool := windowMay o && o != .semTake .k2

theorem entered2_untouched {o : Op} {i : Input} {tr : Trace} (h : untouched o = true) :
    entered2 (.did .lcd o i :: tr) = entered2 tr := by
  cases o with
  | mark m => cases m <;> first | rfl | cases h
  | semTake k => cases k <;> first | rfl | cases h
  | _ => rfl

theorem Tokens.untouched {l : Place} {o : Op} {i : Input} {s : Device} {tr : Trace} (h : Tokens l s tr)
    (ho : untouched o = true) : Tokens l (exec .lcd o i s).1 (.did .lcd o i :: tr) :=
  h.keep (fun e => by rw [e] at ho; cases ho) (fun e => by rw [e] at ho; cases ho)
    (fun _ e => by rw [e] at ho; cases ho) (entered2_untouched ho)

variable {c : Call}

theorem at_lcd (g : Place) : (tokens depth).At .lcd (some c) g := .inr ⟨rfl, nofun⟩

theorem tokens_keep {α : Type} {p : Code α} {g : Place} (hp : p.All fun o => untouched o = true) :
    (tokens depth).Outline .lcd c p g fun _ x => x = g := by
  refine Outline.keep (at_lcd g) (hp.mono fun o ho cfg gs i _ _ _ hold _ => ?_) fun _ => rfl
  exact hold.1.untouched ho

/-- The thread gives up what it has. -/
theorem tokens_leave {g : Place} {o : Op} (h : untouched o = true) :
    (tokens depth).Outline .lcd c (perform o) g fun _ x => x = .idle := by
  refine Outline.move (at_lcd _) (fun cfg gs i _ _ _ hold _ => ?_) fun _ => rfl
  have hnext : Tokens (gs .lcd) (exec .lcd o i cfg.state).1 (.did .lcd o i :: cfg.trace) := hold.1.untouched h
  exact ⟨hnext.known, nofun, nofun, hnext.started⟩

/-- A window other than 2 may take what it finds. -/
theorem tokens_window {o : Op} (h : windowMay o = true) :
    (tokens depth).Outline .lcd c (perform o) .idle fun _ x => x = .idle := by
  by_cases ho : o = .semTake .k2
  · subst ho
    refine Outline.move (at_lcd _) (fun cfg gs i _ _ _ hold _ => ?_) fun _ => rfl
    refine ⟨fun t ht => ?_, nofun, nofun, rfl⟩
    have htail : t ∈ (cfg.state.sem .k2).tail := by simpa [exec] using ht
    exact hold.1.known t (List.mem_of_mem_tail htail)
  · exact tokens_keep (All.perform (by simp [untouched, h, ho]))

/-- The take of window 2 gets a token of the key or none. -/
theorem tokens_take :
    (tokens depth).Outline .lcd c (semTake .k2) .entered
      fun got x => x = if got = true then .took else .idle := by
  refine Outline.perform fun cfg gs i _ _ hg hold _ => ?_
  have hinv : Tokens .entered cfg.state cfg.trace := hg ▸ hold.1
  have hnotimer : Thread.timer ∉ cfg.state.sem .k2 := (hinv.entered rfl).2
  show ∃ g', _ ∧ Tokens g' (exec .lcd (.semTake .k2) i cfg.state).1 (.did .lcd (.semTake .k2) i :: cfg.trace) ∧ _
  cases hsem : cfg.state.sem .k2 with
  | nil => exact ⟨.idle, .inl rfl, ⟨by simp [exec, hsem], nofun, nofun, rfl⟩, by simp [exec, hsem]⟩
  | cons t rest =>
    have ht : t = .button := by
      refine (hinv.known t (by simp [hsem])).resolve_right ?_
      rintro rfl
      exact hnotimer (by simp [hsem])
    refine ⟨.took, at_lcd _, ⟨fun u hu => ?_, nofun, fun _ => ?_, rfl⟩, by simp [exec, hsem]⟩
    · have : u ∈ rest := by simpa [exec, hsem] using hu
      exact hinv.known u (by simp [hsem, this])
    · simp [exec, hsem, ht]

theorem tokens_request :
    (tokens depth).Outline .lcd c (mark (.motoCycle .userMain2WinFun)) .took fun _ x => x = .idle := by
  refine Outline.move (at_lcd _) (fun cfg gs i _ _ hg hold _ => ?_) fun _ => rfl
  have hinv : Tokens .took cfg.state cfg.trace := hg ▸ hold.1
  refine ⟨hinv.known, nofun, nofun, ?_⟩
  have htaken : cfg.state.taken .k2 = some .button := hinv.took rfl
  show (cfg.state.taken .k2 == some .button) = true
  rw [htaken]
  rfl

theorem tokens_enter2 :
    (tokens depth).Outline .lcd c (mark (.winFun .w2)) .idle fun _ x => x = .entered := by
  refine Outline.move (at_lcd _) (fun cfg gs i _ hhead _ hold hr => ?_) fun _ => rfl
  exact ⟨hold.1.known, fun _ => ⟨rfl, hr.1 ⟨rfl, hhead⟩⟩, nofun, rfl⟩

theorem tokens_enter (w : Win) :
    (tokens depth).Outline .lcd c (mark (.winFun w)) .idle fun _ x => x = .idle := by
  refine Outline.move (at_lcd _) (fun cfg gs i _ _ _ hold _ => ?_) fun _ => rfl
  exact ⟨hold.1.known, nofun, nofun, rfl⟩

/-! ### Window 2 -/

theorem tokens_takeKeys :
    (tokens depth).Outline .lcd c takeKeys .entered fun k x => x = if k.k2 = true then .took else .idle := by
  refine (tokens_keep (All.perform rfl)).seq fun (k0 : Bool) => ?_
  refine (tokens_keep (All.perform rfl)).seq fun (k1 : Bool) => ?_
  refine tokens_take.bind fun (k2 : Bool) g hg => ?_
  exact (tokens_keep (All.perform rfl)).seq fun (_ : Bool) => hg

theorem tokens_toggleTwo (g : Place) : (tokens depth).Outline .lcd c toggleTwo g fun _ x => x = g := by
  exact tokens_keep (built_toggleTwo (All.compositional _) (All.perform rfl) (fun _ _ => All.perform rfl)
    (fun _ _ _ => All.perform rfl) fun _ _ => All.perform rfl)

theorem tokens_countUp (g : Place) : (tokens depth).Outline .lcd c (countUp .manual 8) g fun _ x => x = g := by
  refine tokens_keep ?_
  exact all_countUp rfl (fun _ => rfl) fun _ => all_flashSet rfl rfl rfl

theorem tokens_userMain2WinFun :
    (tokens depth).Outline .lcd c userMain2WinFun .entered fun _ x => x = .idle := by
  have hP : Compositional fun (p : Code _) => (tokens depth).Outline .lcd c p .idle fun _ x => x = .idle :=
    Outline.compositional
  have hop : ∀ o, windowMay o = true → (tokens depth).Outline .lcd c (perform o) .idle fun _ x => x = .idle :=
    fun _ => tokens_window
  refine (tokens_keep (All.perform rfl)).seq fun (f : Nat) => Outline.ite (fun _ => ?_) fun _ => ?_
  · exact (tokens_leave rfl).seq fun _ => (hop _ rfl).seq fun _ =>
      built_drawButtons hP (fun i n => ⟨hop (.setButton i n) rfl, hop (.guiButton i) rfl⟩) _
  refine tokens_takeKeys.bind fun k g hg => ?_
  refine Outline.seq (m := g) (Outline.when (fun _ => tokens_toggleTwo g) fun _ => rfl) fun _ => ?_
  refine Outline.seq (m := g) (Outline.when (fun _ => tokens_toggleTwo g) fun _ => rfl) fun _ => ?_
  refine Outline.when (fun hk => ?_) fun hk => by rw [hg, if_neg hk]
  -- K2 was taken, so the token is the key's
  rw [if_pos hk] at hg
  subst hg
  refine (tokens_keep (All.perform rfl)).seq fun (b : Nat) => Outline.ite (fun _ => ?_) fun _ => ?_
  · refine (tokens_keep (All.perform rfl)).seq fun _ => (tokens_countUp _).seq fun _ => ?_
    refine Outline.seq (m := .idle) ?_ fun _ => hop (.guiWinAdd .w3) rfl
    exact built_motoCycle (Q := fun p => (tokens depth).Outline .lcd c p .took fun _ x => x = .idle) hP
      (fun o ho => hop o (windowMay_of_requestMay ho)) fun p hp => tokens_request.seq fun _ => hp
  · exact (tokens_leave rfl).seq fun _ => hop (.store (.firstFlag .w2) 0) rfl

/-! ### Every call -/

theorem tokens_guiWinDisplay (n : Nat) :
    (tokens depth).Outline .lcd c (guiWinDisplay n) .idle fun _ x => x = .idle := by
  induction n with
  | zero => rfl
  | succ n ih =>
    refine (tokens_window rfl).seq fun (top : Option Win) => ?_
    cases top with
    | none => rfl
    | some w =>
      by_cases hw : w = .w2
      · subst hw
        exact tokens_enter2.seq fun _ => tokens_userMain2WinFun
      · exact (tokens_enter w).seq fun _ =>
          built_winFun Outline.compositional ih fun _ ho => tokens_window (windowMay_of_winMay hw ho)

theorem tokens_began {t : Thread} {s : Device} {tr : Trace} {l : Place} (h : Tokens l s tr) (hl : t = .lcd → l = .idle) :
    Tokens l (enter c s) (.began t c :: tr) := by
  refine ⟨?_, fun e => ?_, ?_, rfl⟩
  · rw [enter_sem (by decide)]
    exact h.known
  · rw [enter_sem (by decide)]
    refine ⟨?_, (h.entered e).2⟩
    have ht : t ≠ .lcd := fun h => by rw [hl h] at e; cases e
    rw [← (h.entered e).1]
    cases t <;> first | rfl | exact absurd rfl ht
  · rw [enter_taken]
    exact h.took

theorem tokens_begins (c : Call) (hc : windowCalls c = true) : (tokens depth).Begins c.thread c := by
  have hidle : ∀ x, (tokens depth).At c.thread none x → x = .idle := fun x hx => by simpa [tokens] using hx
  have henter : ∀ cfg gs, (tokens depth).Holds gs cfg → (tokens depth).Rule cfg (.start c.thread c) →
      gs c.thread = .idle → c.enabled cfg.state = true →
      (tokens depth).Inv gs (enter c cfg.state) (.began c.thread c :: cfg.trace) := fun cfg gs hold _ hg _ =>
    tokens_began hold.1 fun e => e ▸ hg
  by_cases ht : c.thread = .lcd
  · have hbody : (tokens depth).Outline .lcd c (body depth c) .idle fun _ x => x = .idle := by
      have hop : ∀ o, windowMay o = true → (tokens depth).Outline .lcd c (perform o) .idle fun _ x => x = .idle :=
        fun _ => tokens_window
      cases c with
      | lcdTask =>
        refine built_lcdTaskEntry Outline.compositional (tokens_guiWinDisplay depth) ?_ ?_
          fun o ho => hop o (windowMay_of_taskMay ho)
        · exact built_openLcdDisplay Outline.compositional fun o ho => hop o (windowMay_of_openMay ho)
        · refine built_motoCycle (Q := fun p => (tokens depth).Outline .lcd .lcdTask p .idle fun _ x => x = .idle)
            Outline.compositional (fun o ho => hop o (windowMay_of_requestMay ho)) fun p hp => ?_
          exact (hop (.mark (.motoCycle .lcdtoBackwash)) rfl).seq fun _ => hp
      | scheduleSave k =>
        exact built_scheduleSave Outline.compositional k fun o ho =>
          hop o (windowMay_of_winMay (by cases k <;> decide) ho)
      | motoCycle caller => cases hc
      | _ => cases ht
    refine begins_outline hidle (.inl rfl) henter ?_
    rw [ht]
    exact hbody.mono fun _ _ e => .inl e
  · exact begins_quiet hidle (fun _ => .inl rfl) henter fun o ho => other_keeps ht ho

/-- A backwash that window 2 starts is started by the key, in a run that keeps to
the rule. -/
theorem manual_started_by_key (depth : Nat) (flash : Nat → Nat) (as : List Act)
    (h : (board windowCalls depth).Admits DismissRule (start flash) as) :
    startedByKey ((board windowCalls depth).run (start flash) as).state
      ((board windowCalls depth).run (start flash) as).trace = true := by
  have hstart : (tokens depth).Good (fun _ => .idle) (start flash) := by
    refine Good.boot ⟨?_, nofun, nofun, rfl⟩ fun _ => .inl rfl
    rw [boot_sem]
    exact nofun
  obtain ⟨gs, hgood⟩ := run_good (begins_board tokens_begins) hstart h
  exact hgood.1.started

/-- A backwash started by hand, up to its finish screen. -/
def finished : List Act :=
  byHand ++ openPass 8 ++ rightPass 26 ++ expiry ++ openPass 8 ++ leftPass 0 ++ lcdPass ++ lcdPass

/-- The timer of the finish screen expires. -/
def dismissal : List Act := alone .expireSemJump {} 1

/-- From the main menu into window 2, with one press of the key. -/
def toWindow2 : List Act := lcdPass ++ press .k2 ++ lcdPass ++ lcdPass

/-- A pass in window 2 up to its call of `Moto_Cycle`. -/
def requestPass : List Act := alone .lcdTask {} 16

/-- The finish screen is dismissed by its timer, and the next backwash is started by hand. -/
def dismissed : List Act := finished ++ dismissal ++ lcdPass ++ toWindow2 ++ press .k2 ++ requestPass

theorem manual_started_by_key_dismissed :
    (board windowCalls 2).Admits DismissRule (start fun _ => 0) dismissed ∧
    startedByKey ((board windowCalls 2).run (start fun _ => 0) dismissed).state
      ((board windowCalls 2).run (start fun _ => 0) dismissed).trace = true :=
  ⟨by decide +kernel, manual_started_by_key 2 (fun _ => 0) dismissed (by decide +kernel)⟩

/-- The finish screen is left with the key: its timer, still running, starts another
backwash from window 2. -/
theorem manual_started_by_dismissal :
    startedByKey
      ((board windowCalls 2).run (start fun _ => 0)
        (finished ++ press .k2 ++ lcdPass ++ toWindow2 ++ dismissal ++ requestPass)).state
      ((board windowCalls 2).run (start fun _ => 0)
        (finished ++ press .k2 ++ lcdPass ++ toWindow2 ++ dismissal ++ requestPass)).trace = false := by
  decide +kernel

end Backwash.Lcd
