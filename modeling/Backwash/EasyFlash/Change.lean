import Backwash.EasyFlash.Alloc

/-! What a write does to the two sectors.

A status write is a mark on a header or on an item. Of everything the chip passes through on
the way, `Covers` says that `C` allows it as one of the states the library knows. -/
namespace Backwash.EasyFlash
open Storage

variable {S : State} {s : Store} {C : Flash → Prop} {f g : Flash} {h full : Bool} {x : SecState} {dt : DirtyStatus}
  {items : Items} {e p b : Nat} {n : Node} {m : Byte}

/-! ### Status writes -/

/-- What is programmed for a status. -/
def statusMask (index : Nat) : Byte := ~~~((0x80 : Byte) >>> (index - 1))

theorem run_writeStatus (s : Store) (addr : Nat) {num index : Nat} (hpos : 0 < index) (hlt : index < num) (hnum : num ≤ 8) :
    (writeStatus addr num index).run s = some (.noErr, s.program addr [statusMask index]) := by
  have hsize : statusTableSize num = 1 := by
    simp only [statusTableSize]
    omega
  have hdiv : (index - 1) / 8 = 0 := by omega
  have hmod : (index - 1) % 8 = index - 1 := Nat.mod_eq_of_lt (by omega)
  have hset : setStatus num index = ([statusMask index], some 0) := by
    rw [setStatus, if_pos hpos, hsize, hdiv, hmod]
    exact congrArg (fun b => ([b], some 0)) BitVec.allOnes_and
  unfold writeStatus
  rw [if_pos hlt, hset]
  rfl

/-- A status is written. -/
theorem Does.status {addr num index : Nat} {Q : EfErrCode → Store → Prop} (hpos : 0 < index) (hlt : index < num) (hnum : num ≤ 8)
    (hc : C (s.flash.clear addr (statusMask index)))
    (hq : ∀ past, Q .noErr {s with flash := s.flash.clear addr (statusMask index), past := past}) :
    Does C (writeStatus addr num index) s Q := by
  refine ⟨_, _, run_writeStatus s addr hpos hlt hnum, hq _, fun y hy => ?_⟩
  rcases List.mem_append.mp hy with hy | hy
  · exact .inl hy
  · obtain rfl := List.mem_singleton.mp hy
    exact .inr hc

/-! ### The sectors after a change -/

theorem SecState.Of.congr (hx : x.Of f b) (hs : f.Same g b (b + 4096)) : x.Of g b := by
  cases x with
  | empty =>
    refine ⟨hx.1.congr (hs.mono (Nat.le_refl _) ?_), hx.2.congr (hs.mono (by omega) (Nat.le_refl _))⟩
    show b + 16 ≤ b + 4096
    omega
  | used full dt items e =>
    have hstart := Used.start_le hx
    exact Used.congr hx hs (by omega)

namespace State

/-- The sector on one side is another. -/
def put (S : State) (h : Bool) (x : SecState) : State := {S with area := Function.update S.area h x}

@[simp] theorem put_area (S : State) (h : Bool) (x : SecState) : (S.put h x).area h = x := Function.update_self ..

theorem put_area_of_ne (S : State) {h h' : Bool} (hne : h' ≠ h) (x : SecState) : (S.put h x).area h' = S.area h' :=
  Function.update_of_ne hne ..

@[simp] theorem put_area_not (S : State) (h : Bool) (x : SecState) : (S.put h x).area (!h) = S.area (!h) :=
  S.put_area_of_ne (by cases h <;> decide) x

theorem put_self (S : State) (h : Bool) : S.put h (S.area h) = S := by
  simp [put]

/-- The chip holds the two sectors. -/
def On (S : State) (f : Flash) : Prop := ∀ h, (S.area h).Of f (base h)

end State

/-- Wherever the chip holds these two sectors, it is allowed. -/
def Covers (C : Flash → Prop) (S : State) : Prop := ∀ f, S.On f → C f

theorem both (P : Bool → Prop) (h : Bool) (hh : P h) (hn : P (!h)) : ∀ h', P h' := by
  intro h'
  cases h <;> cases h' <;> assumption

/-- A change within one sector. -/
theorem Rep.on_put (hr : Rep S s) (hx : x.Of g (base h)) (hs : s.flash.Same g (base (!h)) (base (!h) + 4096)) :
    (S.put h x).On g := by
  refine both _ h ?_ ?_
  · rw [State.put_area]
    exact hx
  · rw [State.put_area_not]
    exact (hr.area (!h)).congr hs

/-- The other sector lies elsewhere. -/
theorem same_other (f : Flash) (m : Byte) (hge : base h ≤ p) (hlt : p < base h + 4096) :
    f.Same (f.clear p m) (base (!h)) (base (!h) + 4096) := by
  have hb := base_cases h
  exact same_clear f p m (by omega)

/-- What is cached stays true while the end stays where it is. -/
theorem cached_put (hc : ∀ dt items e, S.area h = .used false dt items e → ∃ dt' items', x = .used false dt' items' e) {a y : Nat}
    (ht : Cached S.area a y) : Cached (S.put h x).area a y := by
  obtain ⟨h', dt, items, rfl, ha⟩ := ht
  by_cases heq : h' = h
  · subst heq
    obtain ⟨dt', items', rfl⟩ := hc dt items y ha
    exact ⟨h', dt', items', rfl, State.put_area ..⟩
  · refine ⟨h', dt, items, rfl, ?_⟩
    exact (Function.update_of_ne heq x S.area).trans ha

theorem Rep.put (hr : Rep S s) {past : List Flash} (hx : x.Of g (base h))
    (hs : s.flash.Same g (base (!h)) (base (!h) + 4096))
    (hc : ∀ dt items e, S.area h = .used false dt items e → ∃ dt' items', x = .used false dt' items' e) :
    Rep (S.put h x) {s with flash := g, past := past} :=
  ⟨hr.on_put hx hs, hr.sectors.mono fun _ _ => cached_put hc, hr.names, hr.initOk, hr.gcRequest, hr.inRecoveryCheck, hr.lastIsCompleteDel⟩

/-! ### Deleting a node -/

/-- A sector that was clean is dirty. -/
def DirtyStatus.dirtied : DirtyStatus → DirtyStatus
  | .false => .true
  | d => d

theorem getStatus_dirty (d : DirtyStatus) : getStatus [d.byte] DirtyStatus.num = DirtyStatus.false.index ↔ d = .false := by
  cases d <;> decide

/-- The sector of a node becomes dirty. -/
theorem Rep.makeDirty (hr : Rep S s) (env : EnvNode) (ha : S.area h = .used full dt items e) (hge : base h ≤ env.start)
    (hlt : env.start < base h + 4096) (hC : Covers C (S.put h (.used full dt.dirtied items e))) :
    Does C (makeDirty env .noErr) s fun r s' => r = .noErr ∧ Rep (S.put h (.used full dt.dirtied items e)) s' := by
  have hread : (readStatus (base h + 1) DirtyStatus.num).run s = some (getStatus [dt.byte] DirtyStatus.num, s) := by
    have hhdr := (hr.area h).header
    obtain ⟨-, hrest⟩ := Flash.holds_cons.mp hhdr
    obtain ⟨hd, -⟩ := Flash.holds_cons.mp hrest
    rw [ha] at hd
    unfold readStatus
    rw [run_bind_of (run_efPortRead ..)]
    exact congrArg (fun b => some (getStatus [b] DirtyStatus.num, s)) hd
  unfold EasyFlash.makeDirty
  rw [if_pos rfl, alignDown_eq hge hlt]
  refine Runs.andThen (R := fun r s' => r = getStatus [dt.byte] DirtyStatus.num ∧ s' = s) (Runs.of_run hread ⟨rfl, rfl⟩)
    fun r s' ⟨hreq, hseq⟩ => ?_
  subst hreq hseq
  by_cases hd : dt = .false
  · subst hd
    rw [if_pos ((getStatus_dirty _).mpr rfl)]
    have hx : (SecState.used full .true items e).Of (s'.flash.clear (base h + 1) 0xBF) (base h) :=
      (hr.used ha).dirty 0xBF
    have hs := same_other (h := h) s'.flash (p := base h + 1) 0xBF (by omega) (by omega)
    refine Does.status (by decide) (by decide) (by decide) (hC _ (hr.on_put hx hs)) fun past => ⟨rfl, ?_⟩
    exact hr.put hx hs fun dt' items' e' ha' => by
      rw [ha] at ha'
      cases ha'
      exact ⟨_, _, rfl⟩
  · rw [if_neg fun hc => hd ((getStatus_dirty _).mp hc)]
    have hsame : dt.dirtied = dt := by cases dt <;> first | rfl | exact absurd rfl hd
    rw [hsame, ← ha, State.put_self]
    exact Runs.pure ⟨rfl, hr⟩

/-- A node is marked. -/
theorem Rep.markNode (hr : Rep S s) (ha : S.area h = .used full dt items e) (hmem : (p, Item.node n) ∈ items)
    (hp : Plain (n.status &&& m)) :
    (S.put h (.used full dt (items.mark p m) e)).On (s.flash.clear p m) ∧
      ∀ past, Rep (S.put h (.used full dt (items.mark p m) e)) {s with flash := s.flash.clear p m, past := past} := by
  have hused := hr.used ha
  obtain ⟨hge, hend, -⟩ := hused.walk.mem _ hmem
  have hsize := n.size_ge
  have hle := hused.le
  have hend' : p + n.size ≤ e := hend
  have hx : (SecState.used full dt (items.mark p m) e).Of (s.flash.clear p m) (base h) := hused.mark hmem hp
  have hs := same_other (h := h) s.flash (p := p) m (by simp only at hge; omega) (by omega)
  refine ⟨hr.on_put hx hs, fun past => hr.put hx hs fun dt' items' e' ha' => ?_⟩
  rw [ha] at ha'
  cases ha'
  exact ⟨_, _, rfl⟩

theorem Rep.setLast (hr : Rep S s) (b : Bool) : Rep {S with lastIsCompleteDel := b} {s with lastIsCompleteDel := b} :=
  ⟨hr.area, hr.sectors, hr.names, hr.initOk, hr.gcRequest, hr.inRecoveryCheck, rfl⟩

theorem Rep.item_bounds (hr : Rep S s) (ha : S.area h = .used full dt items e) (hmem : (p, Item.node n) ∈ items) :
    base h + 16 ≤ p ∧ p + n.size ≤ e ∧ e ≤ base h + 4096 ∧ (Item.node n).Shows s.flash p := by
  have hused := hr.used ha
  obtain ⟨hge, hend, hshows⟩ := hused.walk.mem _ hmem
  exact ⟨hge, hend, hused.le, hshows⟩

/-- A node that is to be replaced. -/
theorem Rep.preDelete (hr : Rep S s) (ha : S.area h = .used full dt items e) (hmem : (p, Item.node n) ∈ items)
    (hp : Plain (n.status &&& 0xDF)) (key : Option (List Byte)) {env : EnvNode} (hstart : env.start = p)
    (hC₁ : Covers C (S.put h (.used full dt (items.mark p 0xDF) e)))
    (hC₂ : Covers C (S.put h (.used full dt.dirtied (items.mark p 0xDF) e))) :
    Does C (delEnvFound key env false) s fun r s' => r = .noErr ∧
      Rep {S.put h (.used full dt.dirtied (items.mark p 0xDF) e) with lastIsCompleteDel := true} s' := by
  obtain ⟨hge, hend, hle, -⟩ := hr.item_bounds ha hmem
  have hsize := n.size_ge
  obtain ⟨hon, hrep⟩ := hr.markNode ha hmem hp
  unfold delEnvFound
  rw [if_pos Bool.false_ne_true, hstart]
  refine Runs.andThen (R := fun r s' => r = .noErr ∧ Rep (S.put h (.used full dt (items.mark p 0xDF) e)) s')
    (Does.status (by decide) (by decide) (by decide) (hC₁ _ hon) fun past => ⟨rfl, hrep past⟩) fun r s₁ ⟨hr₁, hrep₁⟩ => ?_
  subst hr₁
  refine Runs.andThen (R := fun _ s₂ => Rep {S.put h (.used full dt (items.mark p 0xDF) e) with lastIsCompleteDel := true} s₂)
    (Runs.change rfl (hrep₁.setLast true)) fun _ s₂ hrep₂ => ?_
  refine (hrep₂.makeDirty env (State.put_area S h (.used full dt (items.mark p 0xDF) e)) (by omega) (by omega)
    fun f hf => hC₂ f fun h' => ?_).mono fun r s' ⟨hreq, hrep'⟩ => ⟨hreq, ?_⟩
  · have := hf h'
    simpa [State.put] using this
  · simpa [State.put] using hrep'

/-- A node is deleted. -/
theorem Rep.delete (hr : Rep S s) (ha : S.area h = .used full dt items e) (hmem : (p, Item.node n) ∈ items)
    (hp : Plain (n.status &&& 0xEF)) (key : Option (List Byte)) {env : EnvNode} (hstart : env.start = p)
    (hC₁ : Covers C (S.put h (.used full dt (items.mark p 0xEF) e)))
    (hC₂ : Covers C (S.put h (.used full dt.dirtied (items.mark p 0xEF) e))) :
    Does C (delEnvFound key env true) s fun r s' => r = .noErr ∧
      Rep {S.put h (.used full dt.dirtied (items.mark p 0xEF) e) with
        loc := if S.lastIsCompleteDel then S.loc else Function.update S.loc (key.getD env.name) none, lastIsCompleteDel := false} s' := by
  obtain ⟨hge, hend, hle, -⟩ := hr.item_bounds ha hmem
  have hsize := n.size_ge
  obtain ⟨hon, hrep⟩ := hr.markNode ha hmem hp
  unfold delEnvFound
  rw [if_neg (not_not_intro rfl), hstart]
  refine Runs.andThen (R := fun r s' => r = .noErr ∧ Rep (S.put h (.used full dt (items.mark p 0xEF) e)) s')
    (Does.status (by decide) (by decide) (by decide) (hC₁ _ hon) fun past => ⟨rfl, hrep past⟩) fun r s₁ ⟨hr₁, hrep₁⟩ => ?_
  subst hr₁
  refine Runs.andThen (R := fun t s' => t = s₁ ∧ s' = s₁) (Runs.get ⟨rfl, rfl⟩) fun t s' ⟨ht, hs⟩ => ?_
  subst ht hs
  dsimp only
  have hlast : s'.lastIsCompleteDel = S.lastIsCompleteDel := hrep₁.lastIsCompleteDel
  have hdirty : ∀ {loc : List Byte → Option Nat} {s₂ : Store},
      Rep {S.put h (.used full dt (items.mark p 0xEF) e) with loc := loc} s₂ →
      Does C (do
        modify fun s => {s with lastIsCompleteDel := false}
        EasyFlash.makeDirty env .noErr) s₂ fun r s' => r = .noErr ∧
          Rep {S.put h (.used full dt.dirtied (items.mark p 0xEF) e) with loc := loc, lastIsCompleteDel := false} s' := by
    intro loc s₂ hrep₂
    refine Runs.andThen (R := fun _ s₃ => Rep {S.put h (.used full dt (items.mark p 0xEF) e) with loc := loc, lastIsCompleteDel := false} s₃)
      (Runs.change rfl (hrep₂.setLast false)) fun _ s₃ hrep₃ => ?_
    refine (hrep₃.makeDirty env (State.put_area S h (.used full dt (items.mark p 0xEF) e)) (by omega) (by omega)
      fun f hf => hC₂ f fun h' => ?_).mono fun r s' ⟨hreq, hrep'⟩ => ⟨hreq, ?_⟩
    · have := hf h'
      simpa [State.put] using this
    · simpa [State.put] using hrep'
  cases hl : S.lastIsCompleteDel with
  | true =>
    rw [if_neg (by rw [hlast, hl]; exact fun hc => hc.1 rfl), if_pos rfl]
    exact hdirty hrep₁
  | false =>
    rw [if_pos (by rw [hlast, hl]; exact ⟨Bool.false_ne_true, rfl⟩), if_neg Bool.false_ne_true]
    refine Runs.andThen (R := fun _ s₂ => Rep {S.put h (.used full dt (items.mark p 0xEF) e) with
      loc := Function.update S.loc (key.getD env.name) none} s₂) (Runs.change rfl ?_) fun _ s₂ hrep₂ => hdirty hrep₂
    exact hrep₁.setNames hrep₁.names.delete

end Backwash.EasyFlash
