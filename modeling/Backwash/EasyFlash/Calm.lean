import Backwash.EasyFlash.Collect

/-! What holds between two calls.

One sector has everything, the other is empty; nothing is half done, and a sector without a
deleted node is clean. Space is found as long as all the nodes with the new one leave the
threshold free, if need be after a collection. -/
namespace Backwash.EasyFlash
open Storage

variable {S : State} {s : Store} {h full : Bool} {x : SecState} {dt : DirtyStatus} {items : Items} {e p size : Nat} {n : Node}
  {key : List Byte}

/-! ### The invariant -/

/-- The sector `h` has everything. -/
structure Sound (S : State) (h : Bool) : Prop where
  other : S.area (!h) = .empty
  dirty : (S.area h).dirty = .false ∨ (S.area h).dirty = .true
  tight : (S.area h).Tight (base h)
  settled : ∀ y ∈ (S.area h).items, y.2.Settled
  clean : (S.area h).dirty = .false → ∀ y ∈ (S.area h).items, ∃ n, y.2 = .node n ∧ n.status = 0x3F
  unique : S.Unique
  placed : S.Placed
  lastIsCompleteDel : S.lastIsCompleteDel = false

/-- And it takes nodes. -/
structure Ready (S : State) (h : Bool) : Prop extends Sound S h where
  status : (S.area h).status ≠ .full
  gcRequest : S.gcRequest = false

theorem Moved.unique {S' : State} (hm : Moved S S') (hu : S.Unique) : S'.Unique := by
  have hperm := hm.live.map Node.name
  rw [List.map_map, List.map_map] at hperm
  exact hperm.nodup_iff.mpr hu

/-- The sector has all that is there. -/
theorem Sound.live (hs : Sound S h) : S.live.Perm (S.area h).items.live := by
  refine (S.live_perm h).trans ?_
  rw [hs.other, SecState.items, Items.live_nil, List.append_nil]

/-- Without a deleted node the items are the nodes that are there. -/
theorem span_eq_cost (hclean : ∀ y ∈ items, ∃ n, y.2 = .node n ∧ n.status = 0x3F) : span items = cost items.live := by
  induction items with
  | nil => rfl
  | cons y items ih =>
    obtain ⟨p, i⟩ := y
    obtain ⟨⟨n, rfl, hn⟩, hrest⟩ := List.forall_mem_cons.mp hclean
    rw [span_cons, ih hrest, Items.live_cons, Item.live_node (n.state_written hn), cost_append]
    rfl

/-- A sector that holds more than what is there is dirty. -/
theorem Sound.dirty_of_more (hs : Sound S h) (hmore : (S.area h).next (base h) ≠ base h + 16 + cost S.live) :
    (S.area h).dirty = .true := by
  refine hs.dirty.resolve_left fun hd => hmore ?_
  have htight := hs.tight
  rwa [SecState.Tight, span_eq_cost (hs.clean hd), ← cost_perm hs.live, eq_comm] at htight

/-- After a collection the other sector has everything. -/
theorem Collected.sound {S' : State} (hc : Collected S h S') (hs : Sound S h) (hgc : S'.gcRequest = false) : Ready S' (!h) := by
  have hm := hc.moved
  refine ⟨⟨by rw [Bool.not_not, hc.emptied], .inl hc.other.dirty, hc.other.tight, fun y hy => ?_, fun _ => hc.other.clean,
    hm.unique hs.unique, hm.placed, hm.lastIsCompleteDel⟩, hc.other.status, hgc⟩
  obtain ⟨p, i⟩ := y
  obtain ⟨n, hi, hn⟩ := hc.other.clean _ hy
  obtain rfl : i = .node n := hi
  exact .inl hn

/-- Where both sectors are empty either of them has everything. -/
theorem Ready.swap (hs : Ready S h) (he : S.area h = .empty) : Ready S (!h) := by
  have hother := hs.other
  refine ⟨⟨by rw [Bool.not_not, he], .inl (by rw [hother]; rfl), by rw [hother]; rfl, ?_, ?_, hs.unique, hs.placed,
    hs.lastIsCompleteDel⟩, by rw [hother]; decide, hs.gcRequest⟩
  · rw [hother]
    exact nofun
  · rw [hother]
    exact fun _ => nofun

/-! ### Space -/

theorem takes_empty (he : S.area h = .empty) : S.takes size h = false := by
  unfold State.takes
  rw [he]

theorem isEmpty_empty (he : S.area h = .empty) : S.isEmpty h = true := by
  unfold State.isEmpty
  rw [he]

theorem isEmpty_used (ha : S.area h = .used full dt items e) : S.isEmpty h = false := by
  unfold State.isEmpty
  rw [ha]

/-- Without a collection a sector takes nodes while there is space. -/
theorem Ready.takes (hs : Ready S h) (ha : S.area h = .used full dt items e) :
    S.takes size h = decide (size < 4096 - (e - base h)) := by
  have hst := hs.status
  have hd := hs.dirty
  rw [ha] at hst hd
  obtain rfl : full = false := by
    cases full
    · rfl
    · exact absurd rfl hst
  unfold State.takes
  rw [ha]
  rcases hd with hd | hd
  · obtain rfl : dt = .false := hd
    exact Bool.and_true _
  · obtain rfl : dt = .true := hd
    simp only [hs.gcRequest]
    exact Bool.and_true _

/-- A sector has room for a node, with at least a byte left. -/
def State.Fitting (S : State) (h : Bool) (size : Nat) : Prop := (S.area h).next (base h) + size < base h + 4096

theorem Ready.pick (hs : Ready S h) (hfit : S.Fitting h size) (hge : base h ≤ (S.area h).next (base h)) :
    ∃ t, S.pick size = some t ∧ Ready S t ∧ S.Fitting t size := by
  have hother := hs.other
  cases ha : S.area h with
  | empty =>
    have hboth := both (fun h' => S.area h' = .empty) h ha hother
    refine ⟨false, ?_, ?_, ?_⟩
    · unfold State.pick
      rw [takes_empty (hboth false), takes_empty (hboth true), isEmpty_empty (hboth false), isEmpty_empty (hboth true), hs.gcRequest]
      rfl
    · cases h
      · exact hs
      · exact hs.swap ha
    · unfold State.Fitting at hfit ⊢
      rw [hboth] at hfit ⊢
      simp only [SecState.next] at hfit ⊢
      omega
  | used full dt items e =>
    have htakes : S.takes size h = _ := hs.takes ha
    unfold State.Fitting at hfit
    rw [ha] at hfit hge
    have hfit' : e + size < base h + 4096 := hfit
    have hge' : base h ≤ e := hge
    rw [decide_eq_true (by omega)] at htakes
    refine ⟨h, ?_, hs, by unfold State.Fitting; rw [ha]; exact hfit⟩
    unfold State.pick
    cases h
    · rw [if_pos htakes]
    · rw [takes_empty (show S.area false = .empty from hother), if_neg Bool.false_ne_true, if_pos htakes]

/-- Where there is no space a collection is asked for. -/
theorem Ready.pick_none (hs : Ready S h) (ha : S.area h = .used full dt items e) (hfit : ¬ S.Fitting h size) :
    S.pick size = none ∧ S.afterAlloc size = {S with gcRequest := true} := by
  have htakes : S.takes size h = _ := hs.takes ha
  unfold State.Fitting at hfit
  rw [ha] at hfit
  have hfit' : ¬ e + size < base h + 4096 := hfit
  rw [decide_eq_false (by omega)] at htakes
  have hno := both (fun h' => S.takes size h' = false) h htakes (takes_empty hs.other)
  have hpick : S.pick size = none := by
    unfold State.pick
    rw [hno false, hno true, hs.gcRequest]
    cases h
    · rw [isEmpty_used ha]
      rfl
    · rw [isEmpty_used ha, Bool.and_false]
      rfl
  refine ⟨hpick, ?_⟩
  unfold State.afterAlloc
  rw [hpick]
  cases h
  · rw [isEmpty_empty (show S.area true = .empty from hs.other)]
    simp
  · rw [isEmpty_empty (show S.area false = .empty from hs.other)]
    simp

theorem Moved.refl (hs : Sound S h) : Moved S S := ⟨List.Perm.refl _, hs.placed, rfl, rfl, hs.lastIsCompleteDel⟩

/-- A place for a node of this size is found, if need be after a collection. -/
theorem Rep.newEnv (hr : Rep S s) (hs : Ready S h) (hrec : S.inRecoveryCheck = false) (hcap : cost S.live + size ≤ 3928)
    (sector : SectorMeta) :
    Ends (newEnv sector size) s fun r s' => ∃ S' t, Rep S' s' ∧ Ready S' t ∧ Moved S S' ∧ S'.Fitting t size ∧
      r = ((S'.area t).next (base t), traversed t (S'.area t)) := by
  have hsize : size < 4080 := by omega
  have hfound : ∀ {S' : State} {t : Bool} {s' : Store}, Rep S' s' → Ready S' t → S'.Fitting t size → ∀ m,
      Ends (allocEnv m size) s' fun r s'' => ∃ t', Rep S' s'' ∧ Ready S' t' ∧ S'.Fitting t' size ∧
        r = ((S'.area t').next (base t'), traversed t' (S'.area t')) := by
    intro S' t s' hr' hs' hfit m
    have hge := (hr'.area t).next_gt
    obtain ⟨t', hpick, hs'', hfit'⟩ := hs'.pick hfit (by omega)
    refine (hr'.alloc hsize m).mono fun r s'' ⟨hr'', hres⟩ => ⟨t', ?_, hs'', hfit', ?_⟩
    · rwa [afterAlloc_of_some hpick] at hr''
    · rwa [hpick] at hres
  unfold EasyFlash.newEnv
  by_cases hfit : S.Fitting h size
  · refine Runs.andThen (hfound hr hs hfit sector) ?_
    rintro r s₁ ⟨t, hr₁, hs₁, hfit₁, rfl⟩
    refine Runs.bind (Runs.get ?_)
    rw [if_neg fun hc => next_ne_failed hr₁ t hc.1]
    exact Runs.pure ⟨S, t, hr₁, hs₁, Moved.refl hs.toSound, hfit₁, rfl⟩
  · have hge := (hr.area h).next_gt
    cases ha : S.area h with
    | empty =>
      refine absurd ?_ hfit
      unfold State.Fitting
      rw [ha, SecState.next]
      omega
    | used full dt items e =>
      obtain ⟨hpick, hafter⟩ := hs.pick_none ha hfit
      have hdirty : dt = .true := by
        have := hs.dirty_of_more (by unfold State.Fitting at hfit; omega)
        rwa [ha] at this
      have hsettled := hs.settled
      rw [ha] at hsettled
      refine Runs.andThen (hr.alloc hsize sector) ?_
      rintro ⟨a, m⟩ s₁ ⟨hr₁, hres⟩
      rw [hafter] at hr₁
      rw [hpick] at hres
      obtain rfl : a = failedAddr := hres
      refine Runs.bind (Runs.get ?_)
      rw [if_pos ⟨rfl, hr₁.gcRequest⟩]
      refine Runs.andThen (hr₁.collect rfl hrec hs.lastIsCompleteDel ha (.inl hdirty) hsettled hs.other
        (show cost S.live + 152 ≤ 4080 by omega) hs.placed) ?_
      rintro _ s₂ ⟨S₂, hr₂, hgc₂, hcol⟩
      have hs₁ : Sound {S with gcRequest := true} h :=
        ⟨hs.other, hs.dirty, hs.tight, hs.settled, hs.clean, hs.unique, hs.placed, hs.lastIsCompleteDel⟩
      have hs₂ := hcol.sound hs₁ hgc₂
      have hfit₂ : S₂.Fitting (!h) size := by
        unfold State.Fitting
        rw [hcol.next]
        show base (!h) + 16 + cost S.live + size < _
        omega
      refine (hfound hr₂ hs₂ hfit₂ m).mono ?_
      rintro r s₃ ⟨t, hr₃, hs₃, hfit₃, rfl⟩
      exact ⟨S₂, t, hr₃, hs₃, ⟨hcol.moved.live, hcol.moved.placed, hcol.moved.initOk, hcol.moved.inRecoveryCheck,
        hcol.moved.lastIsCompleteDel⟩, hfit₃, rfl⟩

end Backwash.EasyFlash
