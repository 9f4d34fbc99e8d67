import Backwash.Firmware.Tally
import Backwash.Motor.Bridge

/-! The stored counters.

Four counters live in RAM and, under an id each, in the store. Who changes a counter
reads it back and hands what it has read to `Flash_Set`. Two of them are changed by more
than one thread: between the reading and the landing of the value another thread may
change the counter and store its own, and then an old value lands over a new one. -/
namespace Backwash.Counters
open Concurrent Prog Protocol Firmware Motor

/-! ### Who has changed, read and stored a counter -/

def changes (c : Counter) : Op → Bool
  | .store v _ => v == .counter c
  | _ => false

def reads (c : Counter) : Op → Bool
  | .load v => v == .counter c
  | _ => false

def lands (c : Counter) : Op → Bool
  | .efSet id _ => id == c.entry
  | _ => false

/-- The thread that changed the counter last. -/
def changer (c : Counter) : Trace → Option Thread
  | [] => none
  | .began _ _ :: tr => changer c tr
  | .did u o _ :: tr => if changes c o then some u else changer c tr

/-- The thread has changed the counter, and its `Flash_Set` has not landed. -/
def flying (c : Counter) (t : Thread) : Trace → Bool
  | [] => false
  | .began _ _ :: tr => flying c t tr
  | .did u o _ :: tr => if u = t ∧ changes c o then true else if u = t ∧ lands c o then false else flying c t tr

/-- Another thread has changed the counter since the thread changed or read it. -/
def stale (c : Counter) (t : Thread) : Trace → Bool
  | [] => false
  | .began _ _ :: tr => stale c t tr
  | .did u o _ :: tr => if changes c o then u != t else if u = t ∧ reads c o then false else stale c t tr

/-- `Flash_Factory` has begun to clear the store. -/
def cleared : Trace → Bool
  | [] => false
  | .began _ _ :: tr => cleared tr
  | .did _ o _ :: tr => o == .mark .flashFactory || cleared tr

/-- While no thread has a change of a counter to store, RAM and store agree on it. -/
def CountersStored (cfg : Conf) : Prop :=
  cleared cfg.trace = false → ∀ c, (∀ t, flying c t cfg.trace = false) →
    cfg.state.flash c.entry = cfg.state.vars (.counter c)

/-- A value lands in the entry of a counter only if no other thread has changed the counter
since the value was read, or the thread that changed it last has yet to store its own. -/
def LandsInTime (cfg : Conf) : Act → Prop
  | .step t _ => cleared cfg.trace = false → ∀ c, (cfg.head t).any (lands c) = true →
      stale c t cfg.trace = false ∨ (changer c cfg.trace).any (flying c · cfg.trace) = true
  | .start _ _ => True

/-- The stored counters fit the variables they are loaded to. -/
def StoredFits (flash : Nat → Nat) : Prop := ∀ c : Counter, flash c.entry < 2 ^ 16

instance {p : Counter → Prop} [DecidablePred p] : Decidable (∀ c, p c) :=
  decidable_of_iff (p .manual ∧ p .automatic ∧ p .deltapress ∧ p .error)
    ⟨fun ⟨hm, ha, hd, he⟩ c => by cases c <;> assumption, fun h => ⟨h _, h _, h _, h _⟩⟩

instance (cfg : Conf) (a : Act) : Decidable (LandsInTime cfg a) := by
  cases a <;> unfold LandsInTime <;> infer_instance

/-! ### The books -/

/-- What a thread has in hand: a value to store for a counter, or the whole store to clear. -/
inductive Hand where
  | free
  | holds (c : Counter) (v : Nat)
  | clearing

/-- The entry of a counter is the counter unless its last changer has yet to store it, and a
value that is not stale is the counter's. -/
structure Books (gs : Thread → Hand) (s : Device) (tr : Trace) : Prop where
  stored : cleared tr = false → ∀ c, s.flash c.entry = s.vars (.counter c) ∨
    ∃ u, changer c tr = some u ∧ flying c u tr = true
  held : ∀ t c v, gs t = .holds c v → stale c t tr = false → s.vars (.counter c) = v
  clearing : ∀ t, gs t = .clearing → cleared tr = true
  fits : ∀ c, s.vars (.counter c) < 2 ^ 16

def books (allowed : Call → Bool) (depth : Nat) : Protocol (board allowed depth) Hand where
  Rule := LandsInTime
  Inv := Books
  At := fun _ c g => c = none → g = .free

section
variable {gs : Thread → Hand} {s : Device} {tr : Trace} {t : Thread} {o : Op} {i : Input}

theorem changes_plain (h : tallies o = false) (c : Counter) : changes c o = false := by
  cases o with
  | store v n => cases v <;> first | rfl | cases h
  | _ => rfl

theorem lands_plain (h : tallies o = false) (c : Counter) : lands c o = false := by
  cases o with
  | efSet id n =>
    have hid : id < 8 ∨ 11 < id := by simp only [tallies, Bool.and_eq_false_iff, decide_eq_false_iff_not] at h; omega
    have hne : id ≠ c.entry := by cases c <;> simp only [Counter.entry] <;> omega
    simp [lands, hne]
  | _ => rfl

theorem cleared_plain (h : tallies o = false) : cleared (.did t o i :: tr) = cleared tr := by
  cases o with
  | mark m => cases m <;> first | rfl | cases h
  | _ => rfl

/-- An operation that does not store a counter leaves the counters. -/
theorem exec_counter {c : Counter} (h : changes c o = false) : (exec t o i s).1.vars (.counter c) = s.vars (.counter c) := by
  refine exec_vars (fun n e => ?_) (fun _ => by simp) (by simp) i
  subst e
  simp [changes] at h

theorem exec_entry {c : Counter} (h : lands c o = false) : (exec t o i s).1.flash c.entry = s.flash c.entry := by
  refine exec_flash (fun n e => ?_) i
  subst e
  simp [lands] at h

/-- Who changed a counter last has no old value of it. -/
theorem stale_changer {c : Counter} (h : changer c tr = some t) : stale c t tr = false := by
  induction tr with
  | nil => rfl
  | cons e tr ih =>
    cases e with
    | began u d => exact ih h
    | did u o i =>
      simp only [changer] at h
      simp only [stale]
      split
      · rw [if_pos ‹_›] at h
        simpa using h
      · rw [if_neg ‹_›] at h
        split
        · rfl
        · exact ih h

theorem Books.plain (h : Books gs s tr) (ho : tallies o = false) (hr : ∀ c v, gs t = .holds c v → reads c o = false) :
    Books gs (exec t o i s).1 (.did t o i :: tr) := by
  refine ⟨fun hc c => ?_, fun u c v hu hstale => ?_, fun u hu => ?_, fun c => ?_⟩
  · rw [cleared_plain ho] at hc
    rw [exec_counter (changes_plain ho c), exec_entry (lands_plain ho c)]
    simpa [changer, flying, changes_plain ho, lands_plain ho] using h.stored hc c
  · rw [exec_counter (changes_plain ho c)]
    refine h.held u c v hu ?_
    have hread : ¬ (t = u ∧ reads c o = true) := fun e => by
      rw [hr c v (e.1 ▸ hu)] at e
      exact absurd e.2 Bool.false_ne_true
    simpa [stale, changes_plain ho, hread] using hstale
  · rw [cleared_plain ho]
    exact h.clearing u hu
  · rw [exec_counter (changes_plain ho c)]
    exact h.fits c

theorem Books.change (h : Books gs s tr) (c : Counter) (n : Nat) :
    Books (Function.update gs t (.holds c (n % 2 ^ 16))) (s.store (.counter c) n)
      (.did t (.store (.counter c) n) i :: tr) := by
  have hself : (s.store (.counter c) n).vars (.counter c) = n % 2 ^ 16 := by simp [Device.store, Var.width]
  have hother : ∀ d, d ≠ c → (s.store (.counter c) n).vars (.counter d) = s.vars (.counter d) := fun d hd => by
    simp [Device.store, hd]
  refine ⟨fun hc d => ?_, fun u d v hu hstale => ?_, fun u hu => ?_, fun d => ?_⟩
  · by_cases hd : d = c
    · subst hd
      exact .inr ⟨t, by simp [changer, changes], by simp [flying, changes]⟩
    · have hd' : c ≠ d := Ne.symm hd
      rw [hother d hd, show (s.store (.counter c) n).flash d.entry = s.flash d.entry from rfl]
      simpa [changer, flying, changes, lands, hd'] using h.stored hc d
  · by_cases hut : u = t
    · subst hut
      obtain ⟨rfl, rfl⟩ : c = d ∧ n % 2 ^ 16 = v := by simpa using hu
      exact hself
    · rw [Function.update_of_ne hut] at hu
      have hd : d ≠ c := by
        rintro rfl
        simp [stale, changes, Ne.symm hut] at hstale
      rw [hother d hd]
      refine h.held u d v hu ?_
      simpa [stale, changes, reads, Ne.symm hd] using hstale
  · refine h.clearing u ?_
    by_cases hut : u = t
    · subst hut
      simp at hu
    · rwa [Function.update_of_ne hut] at hu
  · by_cases hd : d = c
    · subst hd
      rw [hself]
      exact Nat.mod_lt n (by decide)
    · rw [hother d hd]
      exact h.fits d

theorem Books.read (h : Books gs s tr) (c : Counter) :
    Books (Function.update gs t (.holds c (s.vars (.counter c)))) s (.did t (.load (.counter c)) i :: tr) := by
  refine ⟨fun hc d => ?_, fun u d v hu hstale => ?_, fun u hu => ?_, h.fits⟩
  · simpa [changer, flying, changes, lands] using h.stored hc d
  · by_cases hut : u = t
    · subst hut
      obtain ⟨rfl, rfl⟩ : c = d ∧ s.vars (.counter c) = v := by simpa using hu
      rfl
    · rw [Function.update_of_ne hut] at hu
      exact h.held u d v hu (by simpa [stale, changes, Ne.symm hut] using hstale)
  · refine h.clearing u ?_
    by_cases hut : u = t
    · subst hut
      simp at hu
    · rwa [Function.update_of_ne hut] at hu

/-- A value lands: it is the counter's, or the last changer's is still to come. -/
theorem Books.land (h : Books gs s tr) {c : Counter} {v : Nat} (hg : gs t = .holds c v)
    (hr : cleared tr = false → stale c t tr = false ∨ (changer c tr).any (flying c · tr) = true) :
    Books (Function.update gs t .free) (exec t (.efSet c.entry v) i s).1 (.did t (.efSet c.entry v) i :: tr) := by
  refine ⟨fun hc d => ?_, fun u d w hu hstale => ?_, fun u hu => ?_, h.fits⟩
  · by_cases hd : d = c
    · subst hd
      have hfresh : stale d t tr = false → s.vars (.counter d) = v := h.held t d v hg
      have hself : (exec t (.efSet d.entry v) i s).1.flash d.entry = v % 2 ^ 32 := by simp [exec]
      by_cases hstale : stale d t tr = false
      · left
        have hv := hfresh hstale
        have hlt := h.fits d
        rw [hself, Nat.mod_eq_of_lt (by omega)]
        exact hv.symm
      · right
        obtain ⟨u, hu, hfly⟩ := (Option.any_eq_true _ _).mp ((hr hc).resolve_left hstale)
        have hut : t ≠ u := fun e => hstale (stale_changer (e ▸ hu))
        exact ⟨u, by simpa [changer, changes] using hu, by simpa [flying, changes, hut] using hfly⟩
    · have hentry : c.entry ≠ d.entry := fun e => hd (Counter.entry_injective e).symm
      rw [exec_entry (by simpa [lands] using hentry), exec_counter rfl]
      simpa [changer, flying, changes, lands, hentry] using h.stored hc d
  · by_cases hut : u = t
    · subst hut
      simp at hu
    · rw [Function.update_of_ne hut] at hu
      exact h.held u d w hu (by simpa [stale, changes, reads] using hstale)
  · refine h.clearing u ?_
    by_cases hut : u = t
    · subst hut
      simp at hu
    · rwa [Function.update_of_ne hut] at hu

/-- Once the store is being cleared its entries do not matter. -/
theorem Books.clears (h : Books gs s tr) (hcleared : cleared (.did t o i :: tr) = true)
    (ho : ∀ c, changes c o = false ∧ reads c o = false) : Books gs (exec t o i s).1 (.did t o i :: tr) := by
  refine ⟨fun hc => ?_, fun u c v hu hstale => ?_, fun _ _ => hcleared, fun c => ?_⟩
  · rw [hcleared] at hc
    cases hc
  · rw [exec_counter (ho c).1]
    exact h.held u c v hu (by simpa [stale, ho] using hstale)
  · rw [exec_counter (ho c).1]
    exact h.fits c

/-- A thread may put down what it has in hand. -/
theorem Books.hand (h : Books gs s tr) {g : Hand} (hheld : ∀ c v, g ≠ .holds c v)
    (hclearing : g = .clearing → cleared tr = true) : Books (Function.update gs t g) s tr := by
  refine ⟨h.stored, fun u c v hu => ?_, fun u hu => ?_, h.fits⟩
  · by_cases hut : u = t
    · subst hut
      exact absurd (by simpa using hu) (hheld c v)
    · rw [Function.update_of_ne hut] at hu
      exact h.held u c v hu
  · by_cases hut : u = t
    · subst hut
      exact hclearing (by simpa using hu)
    · rw [Function.update_of_ne hut] at hu
      exact h.clearing u hu

theorem Books.began (h : Books gs s tr) (c : Call) : Books gs (enter c s) (.began t c :: tr) := by
  have hvars : ∀ d, (enter c s).vars (.counter d) = s.vars (.counter d) := fun d =>
    enter_vars (fun _ => by simp) (by simp) c s
  refine ⟨fun hc d => ?_, fun u d v hu hstale => ?_, h.clearing, fun d => ?_⟩
  · rw [hvars, enter_flash]
    exact h.stored hc d
  · rw [hvars]
    exact h.held u d v hu hstale
  · rw [hvars]
    exact h.fits d

end

/-! ### Counting and resetting -/

section
variable {allowed : Call → Bool} {depth : Nat} {t : Thread} {x : Call}

theorem at_books (g : Hand) : (books allowed depth).At t (some x) g := fun e => nomatch e

theorem books_plain {α : Type} {p : Code α} {g : Hand} (hg : ∀ c v, g ≠ .holds c v) (hp : p.All fun o => tallies o = false) :
    (books allowed depth).Outline t x p g fun _ y => y = g := by
  refine Outline.keep (at_books g) (hp.mono fun o ho cfg gs i _ _ hmark hold _ => ?_) fun _ => rfl
  exact hold.1.plain ho fun c v e => absurd (hmark ▸ e) (hg c v)

theorem books_flashSet (c : Counter) (v : Nat) :
    (books allowed depth).Outline t x (flashSet c.entry v) (.holds c v) fun _ y => y = .free := by
  refine Outline.seq (m := .holds c v) ?_ fun _ => Outline.seq (m := .free) ?_ fun _ => books_plain (by simp) (All.perform rfl)
  · refine Outline.keep (at_books _) (All.perform fun cfg gs i _ _ _ hold _ => ?_) fun _ => rfl
    exact hold.1.plain rfl fun _ _ _ => rfl
  · refine Outline.move (at_books _) (fun cfg gs i _ hhead hg hold hr => ?_) fun _ => rfl
    exact hold.1.land hg fun hc => hr hc c (by simp [hhead, lands])

theorem books_store (c : Counter) (n : Nat) (g : Hand) :
    (books allowed depth).Outline t x (store (.counter c) n) g fun _ y => y = .holds c (n % 2 ^ 16) :=
  Outline.move (at_books _) (fun _ _ _ _ _ _ hold _ => hold.1.change c n) fun _ => rfl

theorem books_countUp (c : Counter) :
    (books allowed depth).Outline t x (countUp c c.entry) .free fun _ y => y = .free := by
  refine (books_plain (by simp) (All.perform rfl)).seq fun (n : Nat) => (books_store c (n + 1) _).seq fun _ => ?_
  refine Outline.bind (R := fun (v : Nat) y => y = .holds c v) ?_ fun (v : Nat) g hg => hg ▸ books_flashSet c v
  exact Outline.perform fun cfg gs i _ _ _ hold _ => ⟨_, at_books _, hold.1.read c, rfl⟩

theorem books_reset (c : Counter) :
    (books allowed depth).Outline t x (resetCounter c) .free fun _ y => y = .free :=
  (books_store c 0 _).seq fun _ => (books_flashSet c 0).seq fun _ => books_plain (by simp) (All.perform rfl)

theorem books_factoryReset : (books allowed depth).Outline t x factoryReset .free fun _ y => y = .free := by
  have hclears : ∀ {α : Type} {p : Code α}, (p.All fun o => ∀ c, changes c o = false ∧ reads c o = false) →
      (books allowed depth).Outline t x p .clearing fun _ y => y = .clearing := fun hp =>
    Outline.keep (at_books _) (hp.mono fun o ho cfg gs i _ _ hg hold _ =>
      hold.1.clears (by simp [cleared, hold.1.clearing _ hg]) ho) fun _ => rfl
  refine Outline.seq (m := .clearing) ?_ fun _ => ?_
  · refine Outline.seq (m := .clearing) ?_ fun _ => hclears ((All.compositional _).foldr (fun _ => ?_) _)
    · refine Outline.move (at_books _) (fun cfg gs i _ _ _ hold _ => ?_) fun _ => rfl
      exact (hold.1.clears rfl fun _ => ⟨rfl, rfl⟩).hand (by simp) fun _ => rfl
    · exact All.bind (All.perform fun _ => ⟨rfl, rfl⟩) fun _ => All.bind (All.perform fun _ => ⟨rfl, rfl⟩) fun _ =>
        All.perform fun _ => ⟨rfl, rfl⟩
  · refine Outline.move (at_books _) (fun cfg gs i _ _ hg hold _ => ?_) fun _ => rfl
    exact (hold.1.clears (by simp [cleared, hold.1.clearing _ hg]) fun _ => ⟨rfl, rfl⟩).hand (by simp) (by simp)

theorem books_perform {o : Op} (h : tallies o = false) :
    (books allowed depth).Outline t x (perform o) .free fun _ y => y = .free :=
  books_plain (by simp) (All.perform h)

theorem books_motoCycle (k : Caller) : (books allowed depth).Outline t x (motoCycle k) .free fun _ y => y = .free := by
  refine built_motoCycle (Q := fun p => (books allowed depth).Outline t x p .free fun _ y => y = .free)
    Outline.compositional (fun o ho => books_perform ?_) fun _ hp => (books_perform rfl).seq fun _ => hp
  cases o with
  | store v n => cases v <;> first | rfl | cases ho
  | _ => first | rfl | cases ho

theorem books_serveAutomatic : (books allowed depth).Outline t x serveAutomatic .free fun _ y => y = .free := by
  have hopen : (books allowed depth).Outline t x openLcdDisplay .free fun _ y => y = .free := by
    refine built_openLcdDisplay Outline.compositional fun o ho => books_perform ?_
    exact (by simpa using (Bool.and_eq_true_iff.mp (plainOp_openMay ho)).1)
  refine (books_perform rfl).seq fun (f : Nat) => Outline.when (fun _ => ?_) fun _ => rfl
  refine (books_perform rfl).seq fun _ => Outline.seq (m := .free) ?_ fun _ => hopen
  refine (books_perform rfl).seq fun (f : Nat) => Outline.seq (m := .free) ?_ fun _ => books_motoCycle _
  exact Outline.ite (fun _ => (books_perform rfl).seq fun _ => books_perform rfl) fun _ => books_perform rfl

theorem books_counted : Counted fun {α} (p : Code α) => (books allowed depth).Outline t x p .free fun _ y => y = .free where
  error := books_countUp .error
  press := books_countUp .deltapress
  jump := (books_perform rfl).seq fun _ => (books_countUp .automatic).seq fun _ => books_perform rfl
  manual := (books_countUp .manual).seq fun _ => (books_motoCycle _).seq fun _ => books_perform rfl
  serve := books_serveAutomatic
  reset := books_reset
  factory := books_factoryReset
  op := fun o h => books_perform (by simpa using (Bool.and_eq_true_iff.mp h).1)

end

/-! ### Every run -/

theorem books_begins (allowed : Call → Bool) (depth : Nat) (c : Call) : (books allowed depth).Begins c.thread c := by
  refine begins_outline (g := .free) (fun _ h => h rfl) (at_books _) (fun cfg gs hold _ _ _ => hold.1.began c) ?_
  have hbody : (books allowed depth).Outline c.thread c (body depth c) .free fun _ y => y = .free := by
    by_cases hmoto : ∃ k, c = .motoCycle k
    · obtain ⟨k, rfl⟩ := hmoto
      exact books_motoCycle k
    · by_cases hc : counting c.thread = true
      · exact counted_body Outline.compositional books_counted depth hc fun k e => hmoto ⟨k, e⟩
      · have hplain : counting c.thread = false := by simpa using hc
        exact books_plain (by simp) ((body_may depth c).mono fun o ho => (plainOp_may hplain ho).1)
  exact hbody.mono fun _ _ e _ => e

/-- A counter is loaded from its entry. -/
theorem boot_counter (flash : Nat → Nat) (c : Counter) : (boot flash).vars (.counter c) = flash c.entry % 2 ^ 16 := by
  have hentry : loadedFrom (.counter c) = some c.entry := by cases c <;> rfl
  exact boot_loaded hentry flash

/-- RAM and store agree on a counter whenever no thread has a change of it to store, in
every run whose values land in time. -/
theorem counters_stored (allowed : Call → Bool) (depth : Nat) (flash : Nat → Nat) (h : StoredFits flash) (as : List Act)
    (ha : (board allowed depth).Admits LandsInTime (start flash) as) :
    CountersStored ((board allowed depth).run (start flash) as) := by
  have hstart : (books allowed depth).Good (fun _ => .free) (start flash) := by
    have hload : ∀ c, (boot flash).vars (.counter c) = flash c.entry := fun c => by
      rw [boot_counter, Nat.mod_eq_of_lt (h c)]
    refine Good.boot ⟨fun _ c => .inl ?_, by simp, by simp, fun c => ?_⟩ fun _ _ => rfl
    · rw [hload, boot_flash _ (by cases c <;> decide) (by cases c <;> decide)]
    · rw [hload]
      exact h c
  obtain ⟨gs, hgood⟩ := run_good (begins_board fun c _ => books_begins allowed depth c) hstart ha
  intro hc c hnone
  refine (hgood.1.stored hc c).resolve_right ?_
  rintro ⟨u, -, hfly⟩
  rw [hnone u] at hfly
  cases hfly

/-! ### Two reports of one error -/

/-- A pass that finds the valve overloaded, with the switches open: it has the counter in
hand after seventeen operations. -/
def overload (n : Nat) : List Act := .start .motor .motoEntry :: turns .motor {level := true, value := 201} n

/-- `Moto_Cycle_Timer` expires with the right switch open. -/
def timedOut : List Act := .start .timer (.expire .motoCycle) :: turns .timer {level := true} 11

theorem counters_stored_overload :
    StoredFits (fun _ => 0) ∧
    (board motorCalls 0).Admits LandsInTime (start fun _ => 0) (request ++ openPass 8 ++ overload 30) ∧
    CountersStored ((board motorCalls 0).run (start fun _ => 0) (request ++ openPass 8 ++ overload 30)) := by
  have hfits : StoredFits fun _ => 0 := fun _ => by simp
  have hadmits : (board motorCalls 0).Admits LandsInTime (start fun _ => 0) (request ++ openPass 8 ++ overload 30) := by
    decide +kernel
  exact ⟨hfits, hadmits, counters_stored motorCalls 0 (fun _ => 0) hfits _ hadmits⟩

/-- The timer reports its error while the overload's is being stored: the motor thread
stores 1 over 2. -/
theorem counters_stored_timedOut :
    StoredFits (fun _ => 0) ∧
    ¬ CountersStored ((board motorCalls 0).run (start fun _ => 0)
      (request ++ openPass 8 ++ overload 17 ++ timedOut ++ turns .motor {} 20)) := by
  refine ⟨fun _ => by simp, fun h => absurd (h (by decide +kernel) .error fun t => ?_) (by decide +kernel)⟩
  cases t <;> decide +kernel

end Backwash.Counters
