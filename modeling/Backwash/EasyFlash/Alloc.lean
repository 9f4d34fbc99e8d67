import Backwash.EasyFlash.Walk

/-! Where the next node goes.

`sector_iterator` visits the two sectors one after the other; `alloc_env` takes the first
sector in use that leaves the space and, if none does, an empty one, but not the last that
is empty unless a collection is on. -/
namespace Backwash.EasyFlash
open Storage

variable {S : State} {s : Store} {C : Flash → Prop} {h full : Bool} {dt : DirtyStatus} {items : Items}
  {e size : Nat} {sector : SectorMeta} {α : Type} {status : StoreStatus} {callback : Callback SectorMeta α} {trav : Bool} {arg : α}

/-! ### The two sectors -/

/-- Both sectors are visited, unless the callback has had enough after the first. -/
theorem Does.iterate {T : SectorMeta × α → Store → Prop} (sector : SectorMeta)
    (hlow : Does C (sectorIteratorRound status callback trav (base false) {sector with addr := failedAddr} arg) s fun r s' =>
      if r.1 then T r.2 s'
      else r.2.1.addr = base false ∧ r.2.1.combined = sectorNotCombined ∧
        Does C (sectorIteratorRound status callback trav (base true) r.2.1 r.2.2) s' fun r' s'' =>
          (r'.1 = false → r'.2.1.addr = base true ∧ r'.2.1.combined = sectorNotCombined) ∧ T r'.2 s'') :
    Does C (sectorIterator sector status arg callback trav) s T := by
  unfold sectorIterator
  rw [show rounds = 8189 + 1 + 1 + 1 from rfl, sectorIteratorFrom, getNextSectorAddr_first, if_neg (by decide)]
  refine Runs.andThen hlow fun r s' hr => ?_
  obtain ⟨stop, m, arg'⟩ := r
  dsimp only at hr ⊢
  cases stop with
  | true =>
    rw [if_pos rfl] at hr ⊢
    exact Runs.pure hr
  | false =>
    rw [if_neg (by decide)] at hr ⊢
    obtain ⟨haddr, hc, hhigh⟩ := hr
    rw [sectorIteratorFrom, getNextSectorAddr_low haddr hc, if_neg (by decide)]
    refine Runs.andThen hhigh fun r s'' hr => ?_
    obtain ⟨stop, m', arg''⟩ := r
    dsimp only at hr ⊢
    obtain ⟨hlast, ht⟩ := hr
    cases stop with
    | true =>
      rw [if_pos rfl]
      exact Runs.pure ht
    | false =>
      obtain ⟨haddr, hc⟩ := hlast rfl
      rw [if_neg (by decide), sectorIteratorFrom, getNextSectorAddr_high haddr hc, if_pos rfl]
      exact Runs.pure ht

/-- A sector of another status is passed over. -/
theorem Rep.skip (hr : Rep S s) (hall : status ≠ .unused) (hne : status ≠ (S.area h).status) (sector : SectorMeta) (arg : α) :
    (sectorIteratorRound status callback trav (base h) sector arg).run s =
      some ((false, headed sector h (S.area h), arg), s) := by
  unfold sectorIteratorRound
  rw [run_bind_of (hr.readHeader h sector)]
  dsimp only
  rw [if_neg (show ¬ (status = .unused ∨ status = (headed sector h (S.area h)).store) from not_or.mpr ⟨hall, hne⟩)]
  rfl

/-- A sector is handed to the callback by its header. -/
theorem Rep.visit (hr : Rep S s) (hst : status = .unused ∨ status = (S.area h).status)
    {Q : Bool × SectorMeta × α → Store → Prop}
    (hcb : Does C (callback (headed sector h (S.area h)) arg) s fun r s' => Q (r.1, headed sector h (S.area h), r.2) s') :
    Does C (sectorIteratorRound status callback false (base h) sector arg) s Q := by
  unfold sectorIteratorRound
  refine Runs.andThen (R := fun r s' => r = (.noErr, headed sector h (S.area h)) ∧ s' = s)
    (Runs.of_run (hr.readHeader h sector) ⟨rfl, rfl⟩) fun r s' ⟨hreq, hseq⟩ => ?_
  subst hreq hseq
  dsimp only
  rw [if_pos (show status = .unused ∨ status = (headed sector h (S.area h)).store from hst), if_neg (by decide)]
  refine Runs.andThen (R := fun m t => m = headed sector h (S.area h) ∧ t = s') (Runs.pure ⟨rfl, rfl⟩) fun m t ⟨hm, ht⟩ => ?_
  subst hm ht
  exact Runs.andThen hcb fun r s' hq => Runs.pure hq

/-- A sector that is not full is gone through. -/
theorem Rep.readTraversed (hr : Rep S s) (hst : (S.area h).status ≠ .full) (sector : SectorMeta) :
    Does C (readSectorMetaData (base h) sector true) s fun r s' => r = (.noErr, traversed h (S.area h)) ∧ Rep S s' := by
  cases ha : S.area h with
  | empty => exact Runs.of_run (hr.readEmpty ha sector) ⟨rfl, hr⟩
  | used full dt items e =>
    cases full with
    | false =>
      rw [← ha]
      exact hr.readUsed ha sector
    | true =>
      rw [ha] at hst
      exact absurd rfl hst

/-- A sector is handed to the callback with the space it leaves. -/
theorem Rep.visitTraversed (hr : Rep S s) (hst : status = (S.area h).status) (hfull : status ≠ .full)
    {Q : Bool × SectorMeta × α → Store → Prop}
    (hcb : ∀ s', Rep S s' → Does C (callback (traversed h (S.area h)) arg) s' fun r s'' => Q (r.1, traversed h (S.area h), r.2) s'') :
    Does C (sectorIteratorRound status callback true (base h) sector arg) s Q := by
  unfold sectorIteratorRound
  refine Runs.andThen (R := fun r s' => r = (.noErr, headed sector h (S.area h)) ∧ s' = s)
    (Runs.of_run (hr.readHeader h sector) ⟨rfl, rfl⟩) fun r s' ⟨hreq, hseq⟩ => ?_
  subst hreq hseq
  dsimp only
  rw [if_pos (show status = .unused ∨ status = (headed sector h (S.area h)).store from .inr hst), if_pos rfl]
  refine Runs.andThen (R := fun m s' => m = traversed h (S.area h) ∧ Rep S s')
    (Runs.map ((hr.readTraversed (hst ▸ hfull) _).mono fun r s' ⟨hreq, hrep⟩ => ⟨by rw [hreq], hrep⟩)) fun m s' ⟨hm, hrep⟩ => ?_
  subst hm
  exact Runs.andThen (hcb s' hrep) fun r s'' hq => Runs.pure hq

/-! ### Space -/

namespace State

def isEmpty (S : State) (h : Bool) : Bool :=
  match S.area h with
  | .empty => true
  | _ => false

/-- The sector is in use and takes a node of this size. -/
def takes (S : State) (size : Nat) (h : Bool) : Bool :=
  match S.area h with
  | .used false dt _ e => decide (size < 4096 - (e - base h)) && (dt == .false || dt == .true && !S.gcRequest)
  | _ => false

/-- The sector that the next node of this size goes to. -/
def pick (S : State) (size : Nat) : Option Bool :=
  if S.takes size false then some false
  else if S.takes size true then some true
  else if S.gcRequest || (S.isEmpty false && S.isEmpty true) then
    if S.isEmpty false then some false else if S.isEmpty true then some true else none
  else none

/-- Where there is no space a collection is asked for. -/
def afterAlloc (S : State) (size : Nat) : State :=
  {S with gcRequest := S.gcRequest || ((S.pick size).isNone && (S.isEmpty false || S.isEmpty true))}

end State

theorem isEmpty_iff : S.isEmpty h = true ↔ (S.area h).status = .empty := by
  unfold State.isEmpty
  cases S.area h with
  | empty => exact ⟨fun _ => rfl, fun _ => rfl⟩
  | used full dt items e => cases full <;> exact ⟨fun h => (by cases h), fun h => (by cases h)⟩

theorem area_of_isEmpty (he : S.isEmpty h = true) : S.area h = .empty := by
  unfold State.isEmpty at he
  cases ha : S.area h with
  | empty => rfl
  | used full dt items e =>
    rw [ha] at he
    cases he

/-- How many sectors have a status. -/
def State.count (S : State) (st : StoreStatus) : Nat :=
  (if (S.area false).status = st then 1 else 0) + (if (S.area true).status = st then 1 else 0)

theorem sectorStatisticsCb_headed (sector : SectorMeta) (h : Bool) (x : SecState) (arg : Nat × Nat) :
    sectorStatisticsCb (headed sector h x) arg = (return (false, arg.1 + (if x.status = .empty then 1 else 0),
      arg.2 + (if x.status = .inUse then 1 else 0))) := by
  cases x with
  | empty => rfl
  | used full dt items e => cases full <;> rfl

theorem Rep.statistics (hr : Rep S s) (sector : SectorMeta) :
    Does C (sectorIterator sector .unused (0, 0) sectorStatisticsCb false) s fun r s' =>
      s' = s ∧ r.2 = (S.count .empty, S.count .inUse) := by
  refine Does.iterate sector (hr.visit (.inl rfl) ?_)
  rw [sectorStatisticsCb_headed]
  refine Runs.pure ?_
  rw [if_neg Bool.false_ne_true]
  refine ⟨rfl, rfl, hr.visit (.inl rfl) ?_⟩
  rw [sectorStatisticsCb_headed]
  refine Runs.pure ⟨fun _ => ⟨rfl, rfl⟩, rfl, ?_⟩
  rw [State.count, State.count, Nat.zero_add, Nat.zero_add]

/-- The callback of `alloc_env` takes a sector with space. -/
theorem Rep.allocCb (hr : Rep S s) (hst : (S.area h).status = .inUse) (a : Nat) :
    (allocEnvCb size (traversed h (S.area h)) a).run s =
      some ((S.takes size h, if S.takes size h then (S.area h).next (base h) else a), s) := by
  have hiff : ((traversed h (S.area h)).checkOk = true ∧ size < (traversed h (S.area h)).remain ∧
      ((traversed h (S.area h)).dirty = .false ∨ (traversed h (S.area h)).dirty = .true ∧ ¬ s.gcRequest = true)) ↔
      S.takes size h = true := by
    rw [hr.gcRequest]
    unfold State.takes
    cases ha : S.area h with
    | empty =>
      rw [ha] at hst
      cases hst
    | used full dt items e =>
      obtain rfl : full = false := by
        rw [ha] at hst
        cases full
        · rfl
        · cases hst
      simp only [traversed, SecState.next, SecState.dirty, true_and, Bool.and_eq_true, decide_eq_true_eq, Bool.or_eq_true,
        beq_iff_eq, Bool.not_eq_true, Bool.not_eq_eq_eq_not, Bool.not_true]
  unfold allocEnvCb
  rw [run_bind_of (show (get : Code Store).run s = some (s, s) from rfl)]
  cases ht : S.takes size h with
  | true =>
    rw [if_pos (hiff.mpr ht)]
    rfl
  | false =>
    rw [if_neg fun hc => Bool.false_ne_true (ht.symm.trans (hiff.mp hc))]
    rfl

theorem takes_status (ht : S.takes size h = true) : (S.area h).status = .inUse := by
  unfold State.takes at ht
  cases ha : S.area h with
  | empty =>
    rw [ha] at ht
    cases ht
  | used full dt items e =>
    rw [ha] at ht
    cases full
    · rfl
    · cases ht

/-- The first sector in use that takes the node, if one does. -/
theorem Rep.allocUsed (hr : Rep S s) (sector : SectorMeta) :
    Does C (sectorIterator sector .inUse failedAddr (allocEnvCb size) true) s fun r s' => Rep S s' ∧
      if S.takes size false then r = (traversed false (S.area false), (S.area false).next (base false))
      else if S.takes size true then r = (traversed true (S.area true), (S.area true).next (base true))
      else r.2 = failedAddr := by
  have hhigh : ∀ {s' : Store} (m : SectorMeta), Rep S s' →
      Does C (sectorIteratorRound .inUse (allocEnvCb size) true (base true) m failedAddr) s' fun r s'' =>
        (r.1 = false → r.2.1.addr = base true ∧ r.2.1.combined = sectorNotCombined) ∧ Rep S s'' ∧
          if S.takes size true then r.2 = (traversed true (S.area true), (S.area true).next (base true)) else r.2.2 = failedAddr := by
    intro s' m hr'
    by_cases hst : StoreStatus.inUse = (S.area true).status
    · refine hr'.visitTraversed hst (by decide) fun s'' hr'' => Runs.of_run (hr''.allocCb hst.symm _) ⟨fun _ => ⟨rfl, rfl⟩, hr'', ?_⟩
      split <;> rfl
    · refine Runs.of_run (hr'.skip (by decide) hst m failedAddr) ⟨fun _ => ⟨rfl, rfl⟩, hr', ?_⟩
      rw [if_neg fun ht => hst (takes_status ht).symm]
  refine Does.iterate sector ?_
  by_cases hst : StoreStatus.inUse = (S.area false).status
  · refine hr.visitTraversed hst (by decide) fun s' hr' => Runs.of_run (hr'.allocCb hst.symm _) ?_
    dsimp only
    cases ht : S.takes size false with
    | true =>
      simp only [if_true]
      exact ⟨hr', trivial⟩
    | false =>
      rw [if_neg (by decide)]
      refine ⟨rfl, rfl, (hhigh _ hr').mono fun r s'' ⟨hlast, hr'', hres⟩ => ⟨hlast, hr'', ?_⟩⟩
      rw [if_neg (by decide)]
      exact hres
  · have ht : ¬ S.takes size false = true := fun ht => hst (takes_status ht).symm
    refine Runs.of_run (hr.skip (by decide) hst _ failedAddr) ?_
    dsimp only
    rw [if_neg (by decide)]
    refine ⟨rfl, rfl, (hhigh _ hr).mono fun r s'' ⟨hlast, hr'', hres⟩ => ⟨hlast, hr'', ?_⟩⟩
    rw [if_neg ht]
    exact hres

/-- The first empty sector, if one is empty. -/
theorem Rep.allocEmpty (hr : Rep S s) (hsize : size < 4080) (sector : SectorMeta) :
    Does C (sectorIterator sector .empty failedAddr (allocEnvCb size) true) s fun r s' => Rep S s' ∧
      if S.isEmpty false then r = (traversed false .empty, base false + 16)
      else if S.isEmpty true then r = (traversed true .empty, base true + 16)
      else r.2 = failedAddr := by
  have hcb : ∀ {s' : Store} {h : Bool}, Rep S s' → S.area h = .empty →
      (allocEnvCb size (traversed h (S.area h)) failedAddr).run s' = some ((true, base h + 16), s') := by
    intro s' h _ ha
    unfold allocEnvCb
    have hremain : size < (traversed h .empty).remain := by
      simp only [traversed, SecState.next]
      omega
    rw [run_bind_of (show (get : Code Store).run s' = some (s', s') from rfl), ha, if_pos ⟨rfl, hremain, .inl rfl⟩]
    rfl
  have hhigh : ∀ {s' : Store} (m : SectorMeta), Rep S s' →
      Does C (sectorIteratorRound .empty (allocEnvCb size) true (base true) m failedAddr) s' fun r s'' =>
        (r.1 = false → r.2.1.addr = base true ∧ r.2.1.combined = sectorNotCombined) ∧ Rep S s'' ∧
          if S.isEmpty true then r.2 = (traversed true .empty, base true + 16) else r.2.2 = failedAddr := by
    intro s' m hr'
    by_cases he : S.isEmpty true = true
    · have ha := area_of_isEmpty he
      refine hr'.visitTraversed (isEmpty_iff.mp he).symm (by decide) fun s'' hr'' =>
        Runs.of_run (hcb hr'' ha) ⟨fun _ => ⟨rfl, rfl⟩, hr'', ?_⟩
      rw [if_pos he, ha]
    · refine Runs.of_run (hr'.skip (by decide) (fun hst => he (isEmpty_iff.mpr hst.symm)) m failedAddr)
        ⟨fun _ => ⟨rfl, rfl⟩, hr', ?_⟩
      rw [if_neg he]
  refine Does.iterate sector ?_
  by_cases he : S.isEmpty false = true
  · have ha := area_of_isEmpty he
    refine hr.visitTraversed (isEmpty_iff.mp he).symm (by decide) fun s' hr' => Runs.of_run (hcb hr' ha) ?_
    rw [if_pos rfl]
    refine ⟨hr', ?_⟩
    rw [if_pos he, ha]
  · refine Runs.of_run (hr.skip (by decide) (fun hst => he (isEmpty_iff.mpr hst.symm)) _ failedAddr) ?_
    rw [if_neg Bool.false_ne_true]
    refine ⟨rfl, rfl, (hhigh _ hr).mono ?_⟩
    rintro r s'' ⟨hlast, hr'', hres⟩
    refine ⟨hlast, hr'', ?_⟩
    rw [if_neg he]
    exact hres

/-! ### `alloc_env` -/

theorem count_empty (S : State) : S.count .empty = (if S.isEmpty false then 1 else 0) + (if S.isEmpty true then 1 else 0) := by
  unfold State.count
  simp only [← isEmpty_iff]

theorem next_ne_failed (hr : Rep S s) (h : Bool) : (S.area h).next (base h) ≠ failedAddr := by
  have hb := base_le h
  have hle : (S.area h).next (base h) ≤ base h + 4096 := by
    cases ha : S.area h with
    | empty =>
      show base h + 16 ≤ base h + 4096
      omega
    | used full dt items e => exact (hr.used ha).le
  simp only [failedAddr]
  omega

theorem Rep.request (hr : Rep S s) (b : Bool) : Rep {S with gcRequest := b} {s with gcRequest := b} :=
  ⟨hr.area, hr.sectors, hr.names, hr.initOk, rfl, hr.inRecoveryCheck, hr.lastIsCompleteDel⟩

/-- A sector in use is looked for before an empty one is taken. -/
theorem Rep.allocFirst (hr : Rep S s) (sector : SectorMeta) :
    Does C (if 0 < S.count .inUse then sectorIterator sector .inUse failedAddr (allocEnvCb size) true
        else pure (sector, failedAddr)) s fun r s' => Rep S s' ∧
      if S.takes size false then r = (traversed false (S.area false), (S.area false).next (base false))
      else if S.takes size true then r = (traversed true (S.area true), (S.area true).next (base true))
      else r.2 = failedAddr := by
  refine Runs.ite (fun _ => hr.allocUsed sector) fun hnone => Runs.pure ⟨hr, ?_⟩
  have hno : ∀ h, ¬ S.takes size h = true := by
    intro h ht
    have hst := takes_status ht
    apply hnone
    unfold State.count
    cases h
    · rw [if_pos hst]
      omega
    · rw [if_pos hst]
      omega
  rw [if_neg (hno false), if_neg (hno true)]

theorem afterAlloc_of_some (hp : S.pick size = some h) : S.afterAlloc size = S := by
  unfold State.afterAlloc
  rw [hp, Option.isNone_some, Bool.false_and, Bool.or_false]

theorem pick_of_not_takes (hlow : ¬ S.takes size false = true) (hhigh : ¬ S.takes size true = true) :
    S.pick size = if S.gcRequest || (S.isEmpty false && S.isEmpty true) then
      if S.isEmpty false then some false else if S.isEmpty true then some true else none else none := by
  rw [State.pick, if_neg hlow, if_neg hhigh]

theorem more_empty_iff (hr : Rep S s) : efGcEmptySecThreshold < S.count .empty ∨ s.gcRequest = true ↔
    (S.gcRequest || (S.isEmpty false && S.isEmpty true)) = true := by
  rw [hr.gcRequest, count_empty]
  cases S.gcRequest <;> cases S.isEmpty false <;> cases S.isEmpty true <;> decide

/-- Where no sector in use takes the node, an empty one is taken or a collection asked for. -/
theorem Rep.allocLast (hr : Rep S s) (hsize : size < 4080) (hlow : ¬ S.takes size false = true)
    (hhigh : ¬ S.takes size true = true) (m : SectorMeta) :
    Does C (allocFromEmpty m (S.count .empty) failedAddr size) s fun r s' => Rep (S.afterAlloc size) s' ∧
      match S.pick size with
      | some h => r = ((S.area h).next (base h), traversed h (S.area h))
      | none => r.1 = failedAddr := by
  have hpick := pick_of_not_takes hlow hhigh
  unfold allocFromEmpty
  by_cases hany : (S.isEmpty false || S.isEmpty true) = true
  · have hcount : 0 < S.count .empty := by
      rw [count_empty]
      cases h0 : S.isEmpty false
      · rw [h0, Bool.false_or] at hany
        rw [hany]
        decide
      · exact Nat.lt_of_lt_of_le Nat.one_pos (Nat.le_add_right ..)
    rw [if_pos ⟨hcount, rfl⟩]
    refine Runs.andThen (R := fun t s' => t = s ∧ s' = s) (Runs.get ⟨rfl, rfl⟩) fun t s' ⟨ht, hs⟩ => ?_
    subst ht hs
    by_cases hgo : (S.gcRequest || (S.isEmpty false && S.isEmpty true)) = true
    · rw [if_pos hgo] at hpick
      rw [if_pos ((more_empty_iff hr).mpr hgo)]
      refine Runs.andThen (hr.allocEmpty hsize m) fun r t ⟨hrt, hrest⟩ => Runs.pure ?_
      by_cases h0 : S.isEmpty false = true
      · rw [if_pos h0] at hpick hrest
        rw [afterAlloc_of_some hpick, hpick, hrest]
        refine ⟨hrt, ?_⟩
        dsimp only
        rw [area_of_isEmpty h0]
        rfl
      · have h1 : S.isEmpty true = true := by simpa [h0] using hany
        rw [if_neg h0, if_pos h1] at hpick hrest
        rw [afterAlloc_of_some hpick, hpick, hrest]
        refine ⟨hrt, ?_⟩
        dsimp only
        rw [area_of_isEmpty h1]
        rfl
    · rw [if_neg hgo] at hpick
      rw [if_neg fun hc => hgo ((more_empty_iff hr).mp hc), hpick]
      refine Runs.andThen (R := fun _ t => t = {s' with gcRequest := true}) (Runs.change rfl rfl) fun _ t ht => Runs.pure ?_
      subst ht
      refine ⟨?_, rfl⟩
      have hafter : S.afterAlloc size = {S with gcRequest := true} := by
        unfold State.afterAlloc
        rw [hpick, Option.isNone_none, Bool.true_and, hany, Bool.or_true]
      rw [hafter]
      exact hr.request true
  · obtain ⟨h0, h1⟩ := Bool.or_eq_false_iff.mp (Bool.eq_false_iff.mpr hany)
    rw [h0, h1] at hpick
    have hp : S.pick size = none := by
      rw [hpick, if_neg Bool.false_ne_true, if_neg Bool.false_ne_true, ite_self]
    rw [if_neg fun hc => by rw [count_empty, h0, h1] at hc; exact absurd hc.1 (by decide), hp]
    refine Runs.pure ⟨?_, rfl⟩
    unfold State.afterAlloc
    rw [h0, h1, Bool.or_false, Bool.and_false, Bool.or_false]
    exact hr

/-- `alloc_env` picks a sector, or asks for a collection. -/
theorem Rep.alloc (hr : Rep S s) (hsize : size < 4080) (sector : SectorMeta) :
    Does C (allocEnv sector size) s fun r s' => Rep (S.afterAlloc size) s' ∧
      match S.pick size with
      | some h => r = ((S.area h).next (base h), traversed h (S.area h))
      | none => r.1 = failedAddr := by
  unfold allocEnv
  refine Runs.andThen (hr.statistics sector) fun r s' ⟨hseq, hcount⟩ => ?_
  subst hseq
  obtain ⟨m, empties, usings⟩ := r
  cases hcount
  dsimp only
  refine Runs.joined (hr.allocFirst m) fun r s' ⟨hr', hres⟩ => ?_
  obtain ⟨m', a⟩ := r
  dsimp only
  by_cases hlow : S.takes size false = true
  · have hp : S.pick size = some false := if_pos hlow
    rw [if_pos hlow] at hres
    cases hres
    unfold allocFromEmpty
    rw [if_neg fun hc => next_ne_failed hr' false hc.2, afterAlloc_of_some hp, hp]
    exact Runs.pure ⟨hr', rfl⟩
  · rw [if_neg hlow] at hres
    by_cases hhigh : S.takes size true = true
    · have hp : S.pick size = some true := by rw [State.pick, if_neg hlow, if_pos hhigh]
      rw [if_pos hhigh] at hres
      cases hres
      unfold allocFromEmpty
      rw [if_neg fun hc => next_ne_failed hr' true hc.2, afterAlloc_of_some hp, hp]
      exact Runs.pure ⟨hr', rfl⟩
    · rw [if_neg hhigh] at hres
      obtain rfl : a = failedAddr := hres
      exact hr'.allocLast hsize hlow hhigh m'

end Backwash.EasyFlash
