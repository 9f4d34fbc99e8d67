import Mathlib.Tactic.ByContra

/-! The account of accepted backwashes.

A backwash that is accepted owes one outcome, and the debt is handed on: from the
request that posts `Forward` to the cycle timer, to its callback, to the posted
`Back`, to return travel, to the branch that reports. `Ledger` says that the
accepted cycles are the reported ones and the debts, and that there is never more
than one debt. It is about counts and flags only; each lemma below is one move of
the account. -/
namespace Backwash.Motor

/-- What the account reads of a configuration. -/
structure Books where
  accepted : Nat
  outcomes : Nat
  flag : Nat
  back : Bool
  free : Bool
  forward : Bool
  armed : Bool
  /-- The motor's present pass has measured an overload and not received since. -/
  stalling : Bool
  /-- … and has not stopped the timer either. -/
  stopping : Bool
  /-- The motor thread has just entered the `Back` case. -/
  backCase : Bool

/-- A receive takes all pending bits. -/
def Books.received (v : Books) : Books :=
  {v with back := false, free := false, forward := false, stalling := false, stopping := false, backCase := false}

/-- What a thread has taken over, or knows. -/
inductive Duty where
  | idle
  -- the display thread: in `Moto_Cycle` before and after the post
  | calling | accepted
  -- the timer thread: in `Moto_Cycle_Timer_Callback`
  | due
  -- the motor thread: in travel, with an outcome to report, in the switch
  | sawForward | sawReturn | owes | gotBack | inBack | dispatch
  -- the motor thread in the overload branch: before and after the flag, the report, the timer and `Free`
  | stallReturn | stallOwes | stall | stalled | stopped | freed
  deriving DecidableEq

namespace Duty

/-- The thread itself owes the outcome. -/
def weight : Duty → Nat
  | .accepted | .due | .owes | .gotBack | .inBack | .stallOwes => 1
  | _ => 0

/-- A pending `Back` will be received together with `Free`. -/
def dropsBack : Duty → Bool
  | .stalled | .stopped | .freed => true
  | _ => false

/-- A running timer is about to be stopped. -/
def stopsTimer : Duty → Bool
  | .stalled => true
  | _ => false

/-- The motor thread is in the overload branch. -/
def stalls : Duty → Bool
  | .stallReturn | .stallOwes | .stall | .stalled | .stopped | .freed => true
  | _ => false

/-- The thread neither owes an outcome nor keeps a debt of others from counting. -/
def Light (m : Duty) : Prop := m.weight = 0 ∧ m.dropsBack = false ∧ m.stopsTimer = false ∧ m.stalls = false

instance (m : Duty) : Decidable m.Light := inferInstanceAs (Decidable (_ ∧ _))

/-- What the motor thread's duty says about the flag and the bits. -/
def Knows : Duty → Books → Prop
  | .sawForward, v => v.flag = 1
  | .sawReturn, v => v.flag = 2
  | .owes, v | .dispatch, v => v.flag ≠ 2
  | .inBack, v => v.backCase = true
  | .stallReturn, v => v.flag = 2 ∧ v.stalling = true ∧ v.stopping = true
  | .stallOwes, v | .stalled, v => v.flag ≠ 2 ∧ v.stalling = true ∧ v.stopping = true
  | .stall, v => v.flag ≠ 2 ∧ (v.armed = true ∨ v.back = true) ∧ v.stalling = true ∧ v.stopping = true
  | .stopped, v => v.flag ≠ 2 ∧ v.stalling = true
  | .freed, v => v.flag ≠ 2 ∧ v.stalling = true ∧ v.free = true
  | _, _ => True

end Duty

/-- The debts: of the display, timer and motor thread (`l`, `d`, `m`), of return
travel, of a pending `Back` and of the running timer. -/
def owed (l d m : Duty) (v : Books) : Nat :=
  l.weight + d.weight + m.weight + (v.flag == 2).toNat + (!m.dropsBack && v.back).toNat +
    (!m.stopsTimer && v.armed).toNat

structure Ledger (l d m : Duty) (v : Books) : Prop where
  count : v.accepted = v.outcomes + owed l d m v
  single : v.accepted ≤ v.outcomes + 1
  calling : l = .calling → v.accepted = v.outcomes
  clear : v.free = true ∨ v.forward = true → v.flag ≠ 2 ∧ m ≠ .gotBack ∧ m ≠ .inBack
  dropped : m.dropsBack = true → d.weight = 0
  knows : m.Knows v
  calm : m.stalls = false → v.stalling = false

namespace Ledger
variable {l d m : Duty} {v : Books}

theorem owed_le (h : Ledger l d m v) : owed l d m v ≤ 1 := by
  have := h.count
  have := h.single
  omega

/-- Before the timer is stopped in the overload branch is the only place where a
running timer does not count. -/
theorem counts_timer (h : Ledger l d m v) (hs : v.stopping = false) : m.stopsTimer = false := by
  have hk := h.knows
  cases m <;> simp_all [Duty.stopsTimer, Duty.Knows]

/-- With no debt, or with the debt at the display or the timer thread, the valve is
not on its way back. -/
theorem not_returning (h : Ledger l d m v) (hw : v.accepted = v.outcomes ∨ 0 < l.weight + d.weight) :
    v.flag ≠ 2 ∧ m ≠ .gotBack ∧ m ≠ .inBack := by
  have hc := h.count
  have ho := h.owed_le
  simp only [owed] at hc ho
  have hrest : m.weight + (v.flag == 2).toNat = 0 := by omega
  refine ⟨fun h2 => ?_, ?_, ?_⟩
  · simp [h2] at hrest
  · rintro rfl
    simp [Duty.weight] at hrest
  · rintro rfl
    simp [Duty.weight] at hrest

/-! ### The request -/

theorem call (h : Ledger .idle d m v) (hv : v.accepted = v.outcomes) : Ledger .calling d m v :=
  {h with count := h.count, calling := fun _ => hv}

theorem hang_up (h : Ledger .calling d m v) : Ledger .idle d m v :=
  {h with count := h.count, calling := nofun}

/-- With no debt open, a request opens one. -/
theorem accept (h : Ledger .calling d m v) :
    Ledger .accepted d m {v with accepted := v.accepted + 1, forward := true} := by
  have hv := h.calling rfl
  have hc := h.count
  refine ⟨?_, Nat.le_of_eq (congrArg (· + 1) hv), nofun, fun _ => h.not_returning (.inl hv), h.dropped, ?_, h.calm⟩
  · simp only [owed, Duty.weight] at hc ⊢
    omega
  · have hk := h.knows
    cases m <;> exact hk

/-- The request hands its debt to the timer. -/
theorem arm (h : Ledger .accepted d m v) (hs : v.stopping = false) : Ledger .idle d m {v with armed := true} := by
  have hm := h.counts_timer hs
  have hc := h.count
  have ho := h.owed_le
  refine ⟨?_, h.single, nofun, h.clear, h.dropped, ?_, h.calm⟩
  · simp only [owed, Duty.weight, hm, Bool.not_false, Bool.true_and, Bool.toNat_true] at hc ho ⊢
    omega
  · have hk := h.knows
    cases m <;> simp_all [Duty.Knows]

/-! ### The timer -/

/-- The timer hands its debt to its callback. -/
theorem expire (h : Ledger l .idle m v) (ha : v.armed = true) (hs : v.stalling = false) :
    Ledger l .due m {v with armed := false} := by
  have hk := h.knows
  have hm : m.dropsBack = false ∧ m.stopsTimer = false := by
    cases m <;> simp_all [Duty.dropsBack, Duty.stopsTimer, Duty.Knows]
  have hc := h.count
  refine ⟨?_, h.single, h.calling, h.clear, fun e => by simp [hm.1] at e, ?_, h.calm⟩
  · simp only [owed, Duty.weight, ha, hm.2, Bool.not_false, Bool.and_self, Bool.toNat_true, Bool.and_false,
      Bool.toNat_false] at hc ⊢
    omega
  · cases m <;> simp_all [Duty.Knows]

/-- The callback hands its debt to the posted `Back`. -/
theorem post_back (h : Ledger l .due m v) : Ledger l .idle m {v with back := true} := by
  have hm : m.dropsBack = false := by
    by_contra hn
    exact Nat.one_ne_zero (h.dropped (by simpa using hn))
  have hc := h.count
  have ho := h.owed_le
  refine ⟨?_, h.single, h.calling, h.clear, fun _ => rfl, ?_, h.calm⟩
  · simp only [owed, Duty.weight, hm, Bool.not_false, Bool.true_and, Bool.toNat_true] at hc ho ⊢
    omega
  · have hk := h.knows
    cases m <;> simp_all [Duty.Knows]

/-- `Free` posted by the callback finds no return travel. -/
theorem post_free (h : Ledger l .due m v) : Ledger l .due m {v with free := true} := by
  refine ⟨h.count, h.single, h.calling, fun _ => h.not_returning (.inr ?_), h.dropped, ?_, h.calm⟩
  · simp [Duty.weight]
  · have hk := h.knows
    cases m <;> simp_all [Duty.Knows]

/-- A report by the timer's callback. -/
theorem report_due (h : Ledger l .due m v) : Ledger l .idle m {v with outcomes := v.outcomes + 1} := by
  have hc := h.count
  have hs := h.single
  refine ⟨?_, Nat.le_succ_of_le hs, fun hl => ?_, h.clear, fun _ => rfl, ?_, h.calm⟩
  · simp only [owed, Duty.weight] at hc ⊢
    omega
  · have := h.calling hl
    simp only [owed, Duty.weight] at hc
    omega
  · have hk := h.knows
    cases m <;> exact hk

/-! ### The motor thread -/

/-- An operation that moves nothing; only the entry into the `Back` case is no longer the last one. -/
theorem pass (h : Ledger l d m v) (hm : m ≠ .inBack) (b : Bool) : Ledger l d m {v with backCase := b} := by
  refine ⟨h.count, h.single, h.calling, h.clear, h.dropped, ?_, h.calm⟩
  have hk := h.knows
  cases m <;> first | exact hk | exact absurd rfl hm

/-- A thread may come to know something, or forget it. -/
theorem know {m' : Duty} (h : Ledger l d m v) (hm : m.Light) (hm' : m'.Light) (hk : m'.Knows v) : Ledger l d m' v := by
  obtain ⟨hw, hd, ht, hs⟩ := hm
  obtain ⟨hw', hd', ht', -⟩ := hm'
  refine ⟨?_, h.single, h.calling, fun hf => ⟨(h.clear hf).1, ?_, ?_⟩, fun e => by simp [hd'] at e, hk,
    fun _ => h.calm hs⟩
  · rw [h.count]
    simp only [owed, hw, hd, ht, hw', hd', ht']
  · rintro rfl
    cases hw'
  · rintro rfl
    cases hw'

theorem forget (h : Ledger l d m v) (hm : m.Light) : Ledger l d .idle v := h.know hm (by decide) trivial

/-- The flag is written outside return travel. -/
theorem set_flag (h : Ledger l d m v) (hm : m.Light) (hf : v.flag ≠ 2) {n : Nat} (hn : n ≠ 2) :
    Ledger l d .idle {v with flag := n} := by
  obtain ⟨hw, hd, ht, hs⟩ := hm
  refine ⟨?_, h.single, h.calling, fun _ => ⟨hn, nofun, nofun⟩, nofun, trivial, fun _ => h.calm hs⟩
  have hc := h.count
  have hflag : ∀ k : Nat, k ≠ 2 → (k == 2).toNat = 0 := fun k hk => by simp [hk]
  simp only [owed, hw, hd, ht, hflag _ hf] at hc
  simp only [owed, hflag n hn, Duty.weight, Duty.dropsBack, Duty.stopsTimer]
  exact hc

/-- The right limit posts `Free` in forward travel. -/
theorem right_free (h : Ledger l d .sawForward v) : Ledger l d .sawForward {v with free := true} := by
  have hk : v.flag = 1 := h.knows
  exact ⟨h.count, h.single, h.calling, fun _ => ⟨by simp [hk], nofun, nofun⟩, h.dropped, hk, h.calm⟩

/-- Return travel hands its debt to the branch that ends it. -/
theorem left_stop (h : Ledger l d .sawReturn v) : Ledger l d .owes {v with flag := 0} := by
  have hk : v.flag = 2 := h.knows
  refine ⟨?_, h.single, h.calling, fun _ => ⟨by simp, nofun, nofun⟩, nofun, by simp [Duty.Knows], h.calm⟩
  have hc := h.count
  simp only [owed, hk, Duty.weight, Duty.dropsBack, Duty.stopsTimer] at hc ⊢
  exact hc

/-- A report at the left limit. -/
theorem report (h : Ledger l d .owes v) : Ledger l d .idle {v with outcomes := v.outcomes + 1} := by
  have hc := h.count
  refine ⟨?_, Nat.le_succ_of_le h.single, fun hl => ?_, fun hf => ⟨(h.clear hf).1, nofun, nofun⟩, nofun, trivial,
    h.calm⟩
  · simp only [owed, Duty.weight, Duty.dropsBack, Duty.stopsTimer] at hc ⊢
    omega
  · have := h.calling hl
    simp only [owed, Duty.weight] at hc
    omega

/-! ### The overload branch -/

/-- The current is measured. An overload is the motor thread's to report when the
debt is return travel's, the timer's or a pending `Back`'s. -/
theorem measure (h : Ledger l d m v) (hm : m.Light) (b : Bool)
    (hb : b = true → v.flag = 2 ∨ v.armed = true ∨ v.back = true) :
    Ledger l d (if b then if v.flag = 2 then .stallReturn else .stall else .idle)
      {v with stalling := b, stopping := b, backCase := false} := by
  have hidle := h.forget hm
  have hclear : ∀ x : Duty, x ≠ .gotBack ∧ x ≠ .inBack → v.free = true ∨ v.forward = true →
      v.flag ≠ 2 ∧ x ≠ .gotBack ∧ x ≠ .inBack := fun x hx hf => ⟨(hidle.clear hf).1, hx⟩
  cases b with
  | false => exact ⟨hidle.count, hidle.single, hidle.calling, hidle.clear, nofun, trivial, fun _ => rfl⟩
  | true =>
    by_cases hf : v.flag = 2
    · rw [if_pos rfl, if_pos hf]
      exact ⟨hidle.count, hidle.single, hidle.calling, hclear _ (by decide), nofun, ⟨hf, rfl, rfl⟩, nofun⟩
    · rw [if_pos rfl, if_neg hf]
      exact ⟨hidle.count, hidle.single, hidle.calling, hclear _ (by decide), nofun,
        ⟨hf, (hb rfl).resolve_left hf, rfl, rfl⟩, nofun⟩

theorem stall_return (h : Ledger l d .stallReturn v) : Ledger l d .stallOwes {v with flag := 0} := by
  have hk := h.knows
  have hf : v.flag = 2 := hk.1
  refine ⟨?_, h.single, h.calling, fun _ => ⟨by simp, nofun, nofun⟩, nofun, ⟨by simp, hk.2⟩, nofun⟩
  have hc := h.count
  simp only [owed, hf, Duty.weight, Duty.dropsBack, Duty.stopsTimer] at hc ⊢
  exact hc

theorem stall_flag (h : Ledger l d .stall v) : Ledger l d .stall {v with flag := 0} := by
  have hk := h.knows
  refine ⟨?_, h.single, h.calling, fun _ => ⟨by simp, nofun, nofun⟩, nofun, ⟨by simp, hk.2⟩, nofun⟩
  have hc := h.count
  have hflag : (v.flag == 2).toNat = 0 := by simp [hk.1]
  simp only [owed, hflag] at hc
  exact hc

/-- After the report of an overload neither the timer nor a pending `Back` counts:
the branch stops the one and drops the other. -/
theorem report_overload (h : Ledger l d m v) (hm : m = .stallOwes ∨ m = .stall) :
    Ledger l d .stalled {v with outcomes := v.outcomes + 1} := by
  have hc := h.count
  have ho := h.owed_le
  rcases hm with rfl | rfl
  · have hk := h.knows
    simp only [owed, Duty.weight, Duty.dropsBack, Duty.stopsTimer, Bool.not_false, Bool.true_and] at hc ho
    refine ⟨?_, Nat.le_succ_of_le h.single, fun hl => ?_, fun hf => ⟨(h.clear hf).1, nofun, nofun⟩, fun _ => ?_, hk,
      nofun⟩
    · simp only [owed, Duty.weight, Duty.dropsBack, Duty.stopsTimer, Bool.not_true, Bool.false_and, Bool.toNat_false]
      omega
    · have := h.calling hl
      omega
    · simp only [Duty.weight]
      omega
  · have hk := h.knows
    -- the one debt is the timer's or the pending bit's
    have hone : 1 ≤ v.back.toNat + v.armed.toNat := by
      rcases hk.2.1 with e | e <;> simp [e]
    simp only [owed, Duty.weight, Duty.dropsBack, Duty.stopsTimer, Bool.not_false, Bool.true_and] at hc ho
    refine ⟨?_, Nat.le_succ_of_le h.single, fun hl => ?_, fun hf => ⟨(h.clear hf).1, nofun, nofun⟩, fun _ => ?_,
      ⟨hk.1, hk.2.2⟩, nofun⟩
    · simp only [owed, Duty.weight, Duty.dropsBack, Duty.stopsTimer, Bool.not_true, Bool.false_and, Bool.toNat_false]
      omega
    · have := h.calling hl
      omega
    · simp only [Duty.weight]
      omega

theorem stop_timer (h : Ledger l d .stalled v) :
    Ledger l d .stopped {v with armed := false, stopping := false, backCase := false} := by
  have hk := h.knows
  refine ⟨?_, h.single, h.calling, fun hf => ⟨(h.clear hf).1, nofun, nofun⟩, h.dropped, ⟨hk.1, hk.2.1⟩, nofun⟩
  have hc := h.count
  simp only [owed, Duty.weight, Duty.dropsBack, Duty.stopsTimer, Bool.not_true, Bool.false_and, Bool.toNat_false,
    Bool.and_false] at hc ⊢
  exact hc

theorem overload_free (h : Ledger l d .stopped v) : Ledger l d .freed {v with free := true} := by
  have hk := h.knows
  exact ⟨h.count, h.single, h.calling, fun _ => ⟨hk.1, nofun, nofun⟩, h.dropped, ⟨hk.1, hk.2, rfl⟩, nofun⟩

/-! ### The receive and the switch -/

theorem receive_freed (h : Ledger l d .freed v) : Ledger l d .dispatch v.received := by
  have hk := h.knows
  refine ⟨?_, h.single, h.calling, by simp [Books.received], nofun, hk.1, fun _ => rfl⟩
  have hc := h.count
  simp only [owed, Books.received, Duty.weight, Duty.dropsBack, Duty.stopsTimer, Bool.not_true, Bool.false_and,
    Bool.toNat_false, Bool.and_false] at hc ⊢
  exact hc

/-- A `Back` received alone hands its debt to the motor thread. -/
theorem receive_back (h : Ledger l d .idle v) (hb : v.back = true) : Ledger l d .gotBack v.received := by
  refine ⟨?_, h.single, h.calling, by simp [Books.received], nofun, trivial, fun _ => rfl⟩
  have hc := h.count
  simp only [owed, Books.received, hb, Duty.weight, Duty.dropsBack, Duty.stopsTimer, Bool.not_false, Bool.and_self,
    Bool.toNat_true, Bool.toNat_false, Bool.and_false] at hc ⊢
  omega

/-- Without a `Back`, a receive of `Free` or `Forward` finds no return travel. -/
theorem receive_other (h : Ledger l d .idle v) (hb : v.back = false) :
    Ledger l d (if v.free = true ∨ v.forward = true then .dispatch else .idle) v.received := by
  have hbase : Ledger l d .idle v.received := by
    refine ⟨?_, h.single, h.calling, by simp [Books.received], nofun, trivial, fun _ => rfl⟩
    have hc := h.count
    simp only [owed, Books.received, hb] at hc ⊢
    exact hc
  split
  · next hf => exact hbase.know (by decide) (by decide) (h.clear hf).1
  · exact hbase

theorem enter_back (h : Ledger l d .gotBack v) : Ledger l d .inBack {v with backCase := true} :=
  ⟨h.count, h.single, h.calling, fun hf => absurd rfl (h.clear hf).2.1, h.dropped, rfl, h.calm⟩

theorem read_left (h : Ledger l d .inBack v) : Ledger l d .gotBack {v with backCase := false} :=
  ⟨h.count, h.single, h.calling, fun hf => absurd rfl (h.clear hf).2.2, h.dropped, trivial, h.calm⟩

/-- The `Back` case hands its debt to return travel. -/
theorem go_back (h : Ledger l d .gotBack v) : Ledger l d .idle {v with flag := 2} := by
  refine ⟨?_, h.single, h.calling, fun hf => absurd rfl (h.clear hf).2.1, nofun, trivial, h.calm⟩
  have hc := h.count
  have ho := h.owed_le
  simp only [owed, Duty.weight, Duty.dropsBack, Duty.stopsTimer, BEq.rfl, Bool.toNat_true] at hc ho ⊢
  omega

/-- With nobody at work and nothing pending, every accepted cycle has reported. -/
theorem settled (h : Ledger .idle .idle .idle v) (hf : v.flag = 0) (hb : v.back = false) (ha : v.armed = false) :
    v.outcomes = v.accepted := by
  have hc := h.count
  simp [owed, hf, hb, ha, Duty.weight] at hc
  exact hc.symm

end Ledger

end Backwash.Motor
