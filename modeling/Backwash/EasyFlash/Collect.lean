import Backwash.EasyFlash.Live
import Mathlib.Data.List.TakeWhile

/-! The collection.

The nodes of a dirty sector that are there are moved to the other one, each copied and only
then deleted, and the sector is formatted. What is there afterwards is what was there before,
in other places. -/
namespace Backwash.EasyFlash
open Storage

variable {S : State} {s : Store} {C : Flash → Prop} {f g : Flash} {h full : Bool} {x : SecState} {dt : DirtyStatus}
  {items done rest : Items} {e p q b size : Nat} {n : Node}

/-! ### Copying a node -/

theorem Node.length_pending (n : Node) : n.pending.bytes.length = n.size := n.pending.length_bytes

/-- A node's bytes up to a point and the next of its body. -/
theorem Node.take_pending (n : Node) (len k : Nat) :
    n.pending.bytes.take (4 + len) ++ (n.body.drop len).take k = n.pending.bytes.take (4 + (len + k)) := by
  have hbytes : n.pending.bytes = [0x7F, 0xFF, 0xFF, 0xFF] ++ n.body := rfl
  have htake : ∀ j, n.pending.bytes.take (4 + j) = [0x7F, 0xFF, 0xFF, 0xFF] ++ n.body.take j := fun j => by
    rw [hbytes]
    show List.take (([0x7F, 0xFF, 0xFF, 0xFF] : List Byte).length + j) _ = _
    exact List.take_length_add_append j
  rw [htake, htake, List.append_assoc, List.take_add]

/-- The node behind its status is copied, bytes that are read while others are written. -/
theorem Does.copy (f : Flash) {src dst : Nat} (hsrc : f.Holds (src + 4) n.body) (hapart : src + n.size ≤ dst ∨ dst + n.size ≤ src)
    (hC : ∀ cs, cs <+: n.pending.bytes → C (f.program dst cs)) {fuel len : Nat} (hfuel : n.size - 4 - len < fuel)
    (hlen : len ≤ n.size - 4) {Q : EfErrCode → Store → Prop} (hs : s.flash = f.program dst (n.pending.bytes.take (4 + len)))
    (hq : ∀ past, Q .noErr {s with flash := f.program dst n.pending.bytes, past := past}) :
    Does C (copyFrom src dst (n.size - 4) fuel len .noErr) s Q := by
  have hsize := n.size_ge
  induction fuel generalizing s len with
  | zero => omega
  | succ fuel ih =>
    rw [copyFrom]
    by_cases hlt : len < n.size - 4
    · rw [if_pos hlt]
      -- a round with `k` bytes
      have hround : ∀ k, 0 < k → len + k ≤ n.size - 4 → Does C (do
          let buf ← efPortRead (src + envMagicOffset + len) k
          let result ← efPortWrite (dst + envMagicOffset + len) buf
          copyFrom src dst (n.size - 4) fuel (len + k) result) s Q := by
        intro k hk hle
        have hsame : f.Same s.flash (src + 4) (src + 4 + n.body.length) := by
          rw [hs]
          refine Flash.same_program ?_
          rw [n.length_body, List.length_take, n.length_pending]
          omega
        have hread : s.flash.read (src + envMagicOffset + len) k = (n.body.drop len).take k := by
          have hbody := hsrc.congr hsame
          rw [Flash.Holds, n.length_body] at hbody
          have hdrop : len ≤ n.size - 4 := by omega
          rw [← hbody, Flash.drop_read _ _ hdrop, Flash.take_read _ _ (by omega)]
          rfl
        refine Runs.andThen (R := fun buf t => buf = (n.body.drop len).take k ∧ t = s) (Runs.of_run (run_efPortRead ..) ⟨hread, rfl⟩) ?_
        rintro buf t ⟨rfl, rfl⟩
        have haddr : dst + envMagicOffset + len = dst + (n.pending.bytes.take (4 + len)).length := by
          rw [List.length_take, n.length_pending, Nat.min_eq_left (by omega), Nat.add_assoc]
          rfl
        refine Runs.bind (Does.write f dst _ hs haddr (n.take_pending len k) (List.take_prefix _ _) hC fun past => ?_)
        exact ih (s := {t with flash := _, past := past}) (by omega) hle rfl hq
      split
      · exact hround 32 (by omega) (by omega)
      · have hk : len + (n.size - 4 - len) = n.size - 4 := by omega
        exact hround (n.size - 4 - len) (by omega) (by omega)
    · have hall : n.pending.bytes.take (4 + len) = n.pending.bytes := by
        rw [List.take_of_length_le]
        rw [n.length_pending]
        omega
      rw [hall] at hs
      rw [if_neg hlt]
      exact Runs.pure (by have := hq s.past; rwa [← hs] at this)

/-! ### Moving a node -/

theorem cStr_eq {name : List Byte} (h : ∀ b ∈ name, b ≠ 0) : cStr name = name :=
  List.takeWhile_eq_self_iff.mpr fun b hb => by simpa using h b hb

/-- Where an item lies. -/
theorem Rep.place (hr : Rep S s) (hmem : (p, Item.node n) ∈ (S.area h).items) :
    base h + 16 ≤ p ∧ p + n.size ≤ (S.area h).next (base h) ∧ (S.area h).next (base h) ≤ base h + 4096 := by
  cases ha : S.area h with
  | empty =>
    rw [ha] at hmem
    cases hmem
  | used full dt items e =>
    rw [ha] at hmem
    obtain ⟨hge, hend, hle, -⟩ := hr.item_bounds ha hmem
    exact ⟨hge, hend, hle⟩

/-- The node that is moved is out of the way of its copy, and opening the sector for that leaves its bytes alone. -/
theorem Rep.source (hr : Rep S s) {h' t : Bool} (hold : (p, Item.node n) ∈ (S.area h').items) (hgt : base t + 16 ≤ (S.area t).next (base t))
    (hfit : (S.area t).next (base t) + n.size ≤ base t + 4096) :
    (p + n.size ≤ (S.area t).next (base t) ∨ (S.area t).next (base t) + n.size ≤ p) ∧
      ((S.area t).opened s.flash (base t) false).Holds (p + 4) n.body := by
  obtain ⟨hge, hle, hle'⟩ := hr.place hold
  have hsize := n.size_ge
  have hsides := base_cases t
  have hside : h' = t ∨ h' = !t := by cases h' <;> cases t <;> simp
  refine ⟨?_, ?_⟩
  · rcases hside with rfl | rfl
    · exact .inl hle
    · omega
  · have hbody : s.flash.Holds (p + 4) n.body := by
      have hbytes : n.bytes = [n.status, 0xFF, 0xFF, 0xFF] ++ n.body := rfl
      have := (hr.shows hold).1
      rw [hbytes, Flash.holds_append] at this
      exact this.2
    refine hbody.congr (SecState.same_opened s.flash false (S.area t) ?_)
    rcases hside with rfl | rfl
    · exact .inl (by omega)
    · rw [n.length_body]
      omega

/-- In a recovery, the search for a node that has been written again already finds none. -/
theorem Rep.notAgain (hr : Rep S s) (hn : ∀ b ∈ n.name, b ≠ 0) (hnone : locateIn S.area n.name = none) :
    Does C (Prod.fst <$> findEnvNoCache (cStr n.name) EnvNode.fresh) s fun present s' => present = false ∧ s' = s := by
  obtain ⟨env', hrun, -⟩ := hr.findNoCache hn EnvNode.fresh
  rw [cStr_eq hn]
  refine Runs.map (Runs.of_run hrun ⟨?_, rfl⟩)
  rw [hnone]
  rfl

/-- A node is moved: a copy is written where there is room, and then the node is deleted. -/
theorem Rep.moveEnv {t : Bool} {st : Byte} {env : EnvNode} (henv : env = ({n with status := st} : Node).env p)
    (hfirst : env.status = .write → Does C (delEnvFound none env false) s fun _ s' => Rep S s') (hstay : env.status ≠ .write → Rep S s)
    {h' : Bool} (hold : (p, Item.node n) ∈ (S.area h').items) (hpick : S.pick n.size = some t) (hlt : n.size ≤ 4079)
    (hroom : S.Room t n.size) (hfill : (S.area t).fills (base t) n.size = false) (hends : (S.area t).Tight (base t) ∨ n.Ends)
    (hnone : S.inRecoveryCheck = true → locateIn S.area n.name = none)
    (hC : ∀ f, S.On f → ∀ g, (S.area t).Passes f (base t) false n g → C g)
    (hsrc : (S.added t false n).area h = .used full dt items e) (hmem : (p, Item.node n) ∈ items) (hp : Plain (n.status &&& 0xEF))
    (hC₁ : Covers C ((S.added t false n).put h (.used full dt (items.mark p 0xEF) e)))
    (hC₂ : Covers C ((S.added t false n).put h (.used full dt.dirtied (items.mark p 0xEF) e))) :
    Does C (moveEnv env) s fun r s' => r = .noErr ∧
      Rep {(S.added t false n).put h (.used full dt.dirtied (items.mark p 0xEF) e) with
        loc := if S.lastIsCompleteDel then (S.added t false n).loc else Function.update (S.added t false n).loc n.name none
        lastIsCompleteDel := false} s' := by
  have hstart : env.start = p := by rw [henv]; rfl
  have hlen : env.len = n.size := by rw [henv]; rfl
  have hname : env.name = n.name := by rw [henv]; rfl
  have hend : ∀ a, a + envHdrDataSize + env.nameLen + env.valueLen = a + n.size := fun a => by
    rw [Nat.add_assoc, Nat.add_assoc, henv]
    exact congrArg (a + ·) (Nat.add_assoc ..).symm
  unfold EasyFlash.moveEnv
  refine Runs.when (R := Rep S) hfirst hstay fun s₁ hr => ?_
  clear hfirst hstay henv
  obtain ⟨hbytes, hn⟩ := hr.shows hold
  rw [hstart, hlen, hname]
  refine Runs.andThen (hr.alloc (show n.size < 4080 by omega) _) ?_
  rintro ⟨envAddr, sector⟩ s₂ ⟨hr₂, hres⟩
  rw [afterAlloc_of_some hpick] at hr₂
  rw [hpick] at hres
  cases hres
  have hgt := (hr₂.area t).next_gt
  have hne := next_ne_failed hr₂ t
  obtain ⟨q, hq⟩ : ∃ q, (S.area t).next (base t) = q := ⟨_, rfl⟩
  obtain ⟨f, hf⟩ : ∃ f, (S.area t).opened s₂.flash (base t) false = f := ⟨_, rfl⟩
  have hcut : ∀ cs, cs <+: n.pending.bytes → C (f.program q cs) := fun cs hcs =>
    hC _ hr₂.area _ (.inl ⟨cs, hcs, by rw [hf, hq]⟩)
  have hwritten : (S.area t).written s₂.flash (base t) false n = (f.program q n.pending.bytes).clear q 0xBF := by
    rw [SecState.written, hf, hq]
  rw [hq] at hne ⊢
  dsimp only
  rw [if_neg hne]
  refine Runs.bind (Runs.get ?_)
  refine Runs.joined (R := fun present s₃ => present = false ∧ s₃ = s₂) ?_ ?_
  · refine Runs.ite (fun hrec => ?_) fun _ => Runs.pure ⟨rfl, rfl⟩
    exact hr₂.notAgain hn.name_ne (hnone (hr₂.inRecoveryCheck.symm.trans hrec))
  rintro present s₃ ⟨rfl, rfl⟩
  rw [if_neg Bool.false_ne_true]
  refine Runs.bind (Does.updateSecStatus (fits_traversed t _) hroom.status hroom.fit hgt ?_ fun past => ?_)
  · rw [hfill, hf]
    exact hcut [] (List.nil_prefix ..)
  rw [hfill, hf]
  refine Runs.bind (Does.status (by decide) (by decide) (by decide) ?_ fun past => ?_)
  · rw [show statusMask EnvStatus.preWrite.index = 0x7F by decide]
    dsimp only
    rw [clear_pending]
    exact hcut _ ⟨n.body, rfl⟩
  rw [show statusMask EnvStatus.preWrite.index = 0x7F by decide]
  dsimp only
  rw [clear_pending]
  obtain ⟨hapart, hbody⟩ := hr₂.source hold hgt hroom.fit
  have hsize := n.size_ge
  have hfit := hroom.fit
  rw [hf] at hbody
  rw [hq] at hgt hfit hapart
  have hsides := base_cases t
  have hfuel : n.size - 4 - 0 < rounds := by
    simp only [rounds, envAreaSize]
    omega
  refine Runs.bind (Does.copy f hbody hapart hcut hfuel (Nat.zero_le _) ?_ fun past => ?_)
  · dsimp only
    rfl
  refine Runs.bind (Does.status (by decide) (by decide) (by decide) ?_ fun past => ?_)
  · rw [show statusMask EnvStatus.write.index = 0xBF by decide]
    dsimp only
    rw [← hwritten]
    exact hC _ hr₂.area _ (.inr rfl)
  rw [show statusMask EnvStatus.write.index = 0xBF by decide, hend, alignDown_eq (h := t) (by omega) (by omega)]
  dsimp only
  refine Runs.bind (Runs.change rfl ?_)
  refine Runs.bind (Runs.change rfl ?_)
  dsimp only
  have hadded : Rep (S.added t false n) {s₃ with
      flash := (f.program q n.pending.bytes).clear q 0xBF, past := past,
      sectorCacheTable := updateSectorCacheTable (base t) (q + n.size) s₃.sectorCacheTable,
      envCacheTable := updateEnvCacheTable n.name q s₃.envCacheTable} := by
    refine hr₂.added hn hroom (fun _ => rfl) (fun hno => ?_) hends hwritten.symm ?_ ?_ rfl rfl rfl rfl
    · exact fills_not_end (hq ▸ hgt) hroom.fit hlt hfill
    · rw [hq, if_neg Bool.false_ne_true]
    · rw [hq]
  refine Runs.andThen (hadded.delete hsrc hmem hp none hstart hC₁ hC₂) ?_
  rintro r s' ⟨rfl, hr'⟩
  rw [Option.getD_none, hname] at hr'
  exact Runs.pure ⟨rfl, hr'⟩

/-! ### A sector that is collected -/

/-- Nodes go to such a sector while another is collected. -/
structure SecState.Open (x : SecState) (b : Nat) : Prop where
  status : x.status ≠ .full
  dirty : x.dirty = .false
  tight : x.Tight b
  clean : ∀ y ∈ x.items, ∃ n, y.2 = .node n ∧ n.status = 0x3F

theorem SecState.Open.add (hx : x.Open b) (hn : n.status = 0x3F) : (x.add b false n).Open b := by
  refine ⟨by rw [SecState.add_status]; decide, by rw [SecState.add_dirty, hx.dirty], hx.tight.add false n, fun y hy => ?_⟩
  rw [SecState.add_items] at hy
  rcases List.mem_append.mp hy with hy | hy
  · exact hx.clean y hy
  · exact ⟨n, by rw [List.mem_singleton.mp hy], hn⟩

theorem open_empty (b : Nat) : SecState.empty.Open b := ⟨by decide, rfl, rfl, nofun⟩

/-- The bytes that nodes take. -/
def cost (nodes : List (Nat × Node)) : Nat := (nodes.map fun q => q.2.size).sum

@[simp] theorem cost_nil : cost [] = 0 := rfl

@[simp] theorem cost_cons (q : Nat × Node) (nodes : List (Nat × Node)) : cost (q :: nodes) = q.2.size + cost nodes := List.sum_cons

@[simp] theorem cost_append (xs ys : List (Nat × Node)) : cost (xs ++ ys) = cost xs + cost ys := by simp [cost]

/-- A node with space behind it leaves its sector open. -/
theorem fills_of_room {x : SecState} (hgt : b + 16 ≤ x.next b) (hcap : x.next b + size + 152 ≤ b + 4096) : x.fills b size = false := by
  cases x with
  | empty => rfl
  | used full dt items e =>
    have hgt' : b + 16 ≤ e := hgt
    have hcap' : e + size + 152 ≤ b + 4096 := hcap
    refine decide_eq_false ?_
    simp only [efSecRemainThreshold, envHdrDataSize, efEnvNameMax]
    omega

theorem cost_perm {xs ys : List (Nat × Node)} (hp : xs.Perm ys) : cost xs = cost ys := (hp.map _).sum_nat

theorem cost_moved {xs ys : List (Nat × Node)} (hp : (xs.map Prod.snd).Perm (ys.map Prod.snd)) : cost xs = cost ys := by
  have := (hp.map Node.size).sum_nat
  rwa [List.map_map, List.map_map] at this

/-- During a collection nodes go to the other sector. -/
theorem pick_other (hgc : S.gcRequest = true) (ha : S.area h = .used full .gc items e) (ho : (S.area (!h)).Open (base (!h)))
    (hsize : size + (S.area (!h)).next (base (!h)) < base (!h) + 4096) (hge : base (!h) ≤ (S.area (!h)).next (base (!h))) :
    S.pick size = some (!h) := by
  have hno : S.takes size h = false := by
    unfold State.takes
    rw [ha]
    cases full
    · exact Bool.and_false _
    · rfl
  have hne : S.isEmpty h = false := by
    unfold State.isEmpty
    rw [ha]
  cases hy : S.area (!h) with
  | empty =>
    have hno' : S.takes size (!h) = false := by
      unfold State.takes
      rw [hy]
    have hempty : S.isEmpty (!h) = true := by
      unfold State.isEmpty
      rw [hy]
    unfold State.pick
    rw [hgc]
    cases h <;> simp_all
  | used full' dt' items' e' =>
    rw [hy] at ho hsize hge
    obtain rfl : full' = false := by
      cases full'
      · rfl
      · exact absurd rfl ho.status
    obtain rfl : dt' = .false := ho.dirty
    have hyes : S.takes size (!h) = true := by
      unfold State.takes
      rw [hy]
      have hsize' : size + e' < base (!h) + 4096 := hsize
      have hge' : base (!h) ≤ e' := hge
      simp only [beq_self_eq_true, Bool.true_or, Bool.and_true, decide_eq_true_eq]
      omega
    unfold State.pick
    cases h <;> simp_all

/-- A program ends, whatever the chip is like on the way. -/
abbrev Ends {α : Type} (p : Code α) (s : Store) (Q : α → Store → Prop) : Prop := Does (fun _ => True) p s Q

/-- `S'` is `S` with its nodes in other places. -/
structure Moved (S S' : State) : Prop where
  live : (S'.live.map Prod.snd).Perm (S.live.map Prod.snd)
  placed : S'.Placed
  initOk : S'.initOk = S.initOk
  inRecoveryCheck : S'.inRecoveryCheck = S.inRecoveryCheck
  lastIsCompleteDel : S'.lastIsCompleteDel = false

theorem Moved.trans {S₁ S₂ S₃ : State} (h : Moved S₁ S₂) (h' : Moved S₂ S₃) : Moved S₁ S₃ :=
  ⟨h'.live.trans h.live, h'.placed, h'.initOk.trans h.initOk, h'.inRecoveryCheck.trans h.inRecoveryCheck, h'.lastIsCompleteDel⟩

/-! ### The first mark

A node that is to be replaced is marked before the new one is written, and the driver remembers
that the deletion is to be completed. -/

/-- Sector `h` is now `x`, with a node that is marked. -/
def State.leave (S : State) (h : Bool) (x : SecState) : State := {S.put h x with lastIsCompleteDel := true}

theorem State.leave_area (S : State) (h : Bool) (x : SecState) : (S.leave h x).area h = x := State.put_area ..

theorem State.leave_area_not (S : State) (h : Bool) (x : SecState) : (S.leave h x).area (!h) = S.area (!h) := State.put_area_not ..

theorem Rep.leave (hr : Rep S s) (ha : S.area h = .used full dt (done ++ (p, Item.node n) :: rest) e) (hn : n.status = 0x3F)
    (key : Option (List Byte)) :
    Ends (delEnvFound key (n.env p) false) s fun r s' => r = .noErr ∧
      Rep (S.leave h (.used full dt.dirtied (done ++ (p, Item.node n.leaving) :: rest) e)) s' := by
  have hapart := (hr.used ha).walk.apart
  have hmem : (p, Item.node n) ∈ done ++ (p, Item.node n) :: rest := List.mem_append_right _ (List.mem_cons_self ..)
  refine (hr.preDelete ha hmem (by rw [hn]; decide) key rfl (fun _ _ => trivial) fun _ _ => trivial).mono ?_
  rintro r s' ⟨rfl, hr'⟩
  rw [Items.mark_split hapart, Item.mark, n.mark_leaving hn] at hr'
  exact ⟨rfl, hr'⟩

/-- The node is there no longer. -/
theorem leave_live (S : State) {dt : DirtyStatus} (ha : S.area h = .used full dt (done ++ (p, Item.node n) :: rest) e)
    (hn : n.status = 0x3F) (dt' : DirtyStatus) :
    S.live.Perm ((p, n) :: (S.leave h (.used full dt' (done ++ (p, Item.node n.leaving) :: rest) e)).live) :=
  live_marked S ha (n.state_written hn) (by rw [Node.state_leaving]; decide) dt'

/-- Where a node leaves a sector that is collected, the other one takes it. -/
theorem leave_pick (hgc : S.gcRequest = true) (ho : (S.area (!h)).Open (base (!h)))
    (hcap : (S.area (!h)).next (base (!h)) + n.size + 152 ≤ base (!h) + 4096) (hge : base (!h) ≤ (S.area (!h)).next (base (!h))) :
    (S.leave h (.used full .gc items e)).pick n.size = some (!h) := by
  refine pick_other (h := h) hgc (S.leave_area ..) ?_ ?_ ?_
  · rwa [S.leave_area_not]
  · rw [S.leave_area_not]
    omega
  · rwa [S.leave_area_not]

/-- The other sector has the room. -/
theorem leave_room (ho : (S.area (!h)).Open (base (!h)))
    (hcap : (S.area (!h)).next (base (!h)) + n.size + 152 ≤ base (!h) + 4096) (x : SecState) :
    (S.leave h x).Room (!h) n.size := by
  refine ⟨?_, ?_⟩
  · rw [S.leave_area_not]
    exact ho.status
  · rw [S.leave_area_not]
    omega

/-- A node that was marked in one sector and written to the other has moved. -/
theorem moved_of_leave (ha : S.area h = .used full .gc (done ++ (p, Item.node n) :: rest) e) (hn : n.status = 0x3F)
    (hplaced : S.Placed) {S₁ S' : State} (hS₁ : S₁ = S.leave h (.used full .gc (done ++ (p, Item.node n.leaving) :: rest) e))
    (hlive : S'.live = (S₁.added (!h) false n.leaving).live) (hloc : S'.loc = (S₁.added (!h) false n.leaving).loc)
    (hinit : S'.initOk = S.initOk) (hrec : S'.inRecoveryCheck = S.inRecoveryCheck) (hlast : S'.lastIsCompleteDel = false) :
    Moved S S' := by
  have hhigh : S₁.area (!h) = S.area (!h) := hS₁ ▸ S.leave_area_not ..
  have hlive₁ : S.live.Perm ((p, n) :: S₁.live) := hS₁ ▸ leave_live S ha hn .gc
  have hlive₂ := live_added S₁ (!h) false n.leaving
  rw [← hlive, show n.leaving.written = n from n.written_eq hn, hhigh] at hlive₂
  have hloc' : S'.loc = Function.update S.loc n.name (some ((S.area (!h)).next (base (!h)))) := by
    rw [hloc]
    show Function.update S₁.loc n.name (some ((S₁.area (!h)).next (base (!h)))) = _
    rw [hhigh, hS₁]
    rfl
  refine ⟨(hlive₂.map _).trans (hlive₁.map Prod.snd).symm, hplaced.update hloc' ?_ fun q hq hne => ?_, hinit, hrec, hlast⟩
  · exact hlive₂.mem_iff.mpr (List.mem_cons_self ..)
  · rcases List.mem_cons.mp (hlive₁.mem_iff.mp hq) with rfl | hq
    · exact absurd rfl hne
    · exact hlive₂.mem_iff.mpr (List.mem_cons_of_mem _ hq)

/-- A node of the sector that is collected is moved to the other one. -/
theorem Rep.collectNode (hr : Rep S s) (hgc : S.gcRequest = true) (hrec : S.inRecoveryCheck = false)
    (ha : S.area h = .used full .gc (done ++ (p, Item.node n) :: rest) e) (hn : n.status = 0x3F)
    (ho : (S.area (!h)).Open (base (!h))) (hcap : (S.area (!h)).next (base (!h)) + n.size + 152 ≤ base (!h) + 4096)
    (hplaced : S.Placed) :
    Ends (EasyFlash.moveEnv (n.env p)) s fun _ s' => ∃ S', Rep S' s' ∧
      S'.area h = .used full .gc (done ++ (p, Item.node n.replaced) :: rest) e ∧
      S'.area (!h) = (S.area (!h)).add (base (!h)) false n ∧ S'.gcRequest = true ∧ Moved S S' := by
  have hapart := (hr.used ha).walk.apart
  have hmem : (p, Item.node n) ∈ done ++ (p, Item.node n) :: rest := List.mem_append_right _ (List.mem_cons_self ..)
  obtain ⟨hge, hend, hle, hshows⟩ := hr.item_bounds ha hmem
  have hw := n.state_written hn
  have hgt := (hr.area (!h)).next_gt
  obtain ⟨S₁, hS₁⟩ : ∃ S₁, S.leave h (.used full .gc (done ++ (p, Item.node n.leaving) :: rest) e) = S₁ := ⟨_, rfl⟩
  have hlow : S₁.area h = .used full .gc (done ++ (p, Item.node n.leaving) :: rest) e := hS₁ ▸ S.leave_area ..
  have hhigh : S₁.area (!h) = S.area (!h) := hS₁ ▸ S.leave_area_not ..
  have hfirst : Ends (delEnvFound none (n.env p) false) s fun _ s' => Rep S₁ s' := by
    refine (hr.leave ha hn none).mono fun r s' ⟨_, hr'⟩ => ?_
    rwa [show DirtyStatus.gc.dirtied = .gc from rfl, hS₁] at hr'
  have hpick : S₁.pick n.leaving.size = some (!h) := hS₁ ▸ leave_pick hgc ho hcap (Nat.le_of_add_right_le hgt)
  have hroom : S₁.Room (!h) n.leaving.size := hS₁ ▸ leave_room ho hcap _
  have hfill : (S₁.area (!h)).fills (base (!h)) n.leaving.size = false := hhigh ▸ fills_of_room hgt hcap
  have hmem₁ : (p, Item.node n.leaving) ∈ done ++ (p, Item.node n.leaving) :: rest := List.mem_append_right _ (List.mem_cons_self ..)
  have hold : (p, Item.node n.leaving) ∈ (S₁.area h).items := by
    rw [hlow]
    exact hmem₁
  have hsrc : (S₁.added (!h) false n.leaving).area h = .used full .gc (done ++ (p, Item.node n.leaving) :: rest) e := by
    rw [S₁.added_not_area, hlow]
  have hnone : S₁.inRecoveryCheck = true → locateIn S₁.area n.leaving.name = none := by
    rw [← hS₁]
    exact fun hc => absurd (hrec.symm.trans hc) Bool.false_ne_true
  have hsize : n.leaving.size = n.size := rfl
  have henv : n.env p = ({n.leaving with status := n.status} : Node).env p := rfl
  refine (Rep.moveEnv henv (fun _ => hfirst) (fun hc => absurd hw hc) hold hpick (by omega) hroom hfill
    (.inl (hhigh ▸ ho.tight)) hnone (fun _ _ _ _ => trivial) hsrc hmem₁ (by decide : Plain (0x1F &&& 0xEF))
    (fun _ _ => trivial) fun _ _ => trivial).mono fun r s' ⟨_, hr'⟩ => ⟨_, hr', ?_⟩
  have hlast : S₁.lastIsCompleteDel = true := by rw [← hS₁]; rfl
  rw [hlast, if_pos rfl, Items.mark_split hapart, Item.mark, n.mark_replaced, show DirtyStatus.gc.dirtied = .gc from rfl]
  have hlive : ((S₁.added (!h) false n.leaving).put h
      (.used full .gc (done ++ (p, Item.node n.replaced) :: rest) e)).live = (S₁.added (!h) false n.leaving).live := by
    refine live_put _ ?_
    rw [hsrc]
    exact live_replace (by rw [Node.state_leaving]; decide) (by rw [Node.state_replaced]; decide)
  refine ⟨State.put_area .., ?_, ?_, moved_of_leave ha hn hplaced hS₁.symm hlive rfl ?_ ?_ rfl⟩
  · refine (State.put_area_not ..).trans ?_
    rw [S₁.added_area, hhigh]
    exact congrArg (fun m => SecState.add (base !h) false m (S.area !h)) (n.written_eq hn)
  · rw [← hgc, ← hS₁]
    rfl
  · rw [← hS₁]
    rfl
  · rw [← hS₁]
    rfl

/-- The nodes of the sector that are there are moved to the other one. -/
theorem Rep.collectFrom (hr : Rep S s) (hgc : S.gcRequest = true) (hrec : S.inRecoveryCheck = false)
    (hlast : S.lastIsCompleteDel = false) (done : Items) (ha : S.area h = .used full .gc (done ++ rest) e)
    (hdone : done.live = []) (hsettled : ∀ x ∈ rest, x.2.Settled) (ho : (S.area (!h)).Open (base (!h)))
    (hcap : (S.area (!h)).next (base (!h)) + cost rest.live + 152 ≤ base (!h) + 4096) (hplaced : S.Placed)
    {sector : SectorMeta} (hsec : sector.addr = base h) (hstore : sector.store ≠ .empty) {fuel : Nat} (hfuel : rest.length < fuel)
    {env : EnvNode} (hnext : (getNextEnvAddr sector env).run s = some (nextAddr rest, s)) :
    Ends (doGcFrom sector fuel env) s fun _ s' => ∃ S' items', Rep S' s' ∧ S'.area h = .used full .gc items' e ∧
      items'.live = [] ∧ (S'.area (!h)).Open (base (!h)) ∧ S'.gcRequest = true ∧ Moved S S' ∧
      (S'.area (!h)).next (base (!h)) = (S.area (!h)).next (base (!h)) + cost rest.live := by
  induction rest generalizing S s done fuel env with
  | nil =>
    obtain ⟨fuel, rfl⟩ : ∃ k, fuel = k + 1 := ⟨fuel - 1, by omega⟩
    rw [doGcFrom]
    refine Runs.look hnext ?_
    rw [if_pos (show nextAddr [] = failedAddr from rfl)]
    refine Runs.pure ⟨S, done, hr, by rw [ha, List.append_nil], hdone, ho, hgc, ⟨List.Perm.refl _, hplaced, rfl, rfl, hlast⟩, rfl⟩
  | cons x rest ih =>
    obtain ⟨p, i⟩ := x
    obtain ⟨fuel, rfl⟩ : ∃ k, fuel = k + 1 := ⟨fuel - 1, by omega⟩
    obtain ⟨r, hread⟩ := hr.readItem ha env
    obtain ⟨hi, hrest⟩ := List.forall_mem_cons.mp hsettled
    have hlen : rest.length < fuel := Nat.lt_of_succ_lt_succ hfuel
    rw [Items.live_cons, cost_append] at hcap ⊢
    rw [doGcFrom]
    refine Runs.look hnext ?_
    rw [nextAddr_cons, if_neg (hr.nextAddr_ne ha)]
    refine Runs.look hread ?_
    cases i with
    | torn st len => exact hi.elim
    | node n =>
      dsimp only
      rw [show (Item.node n).env p env = n.env p from rfl]
      rcases hi with hn | hn
      · have hw := n.state_written hn
        rw [Item.live_node hw] at hcap ⊢
        have hcost : cost (some (p, n)).toList = n.size := by simp
        rw [hcost] at hcap ⊢
        rw [if_pos ⟨rfl, .inl hw⟩]
        refine Runs.andThen (hr.collectNode hgc hrec ha hn ho (by omega) hplaced) ?_
        rintro _ s' ⟨S', hr', ha', ho', hgc', hmoved⟩
        have hsplit : done ++ (p, Item.node n.replaced) :: rest = (done ++ [(p, Item.node n.replaced)]) ++ rest := by simp
        have hnext' : (getNextEnvAddr sector (n.env p)).run s' = some (nextAddr rest, s') :=
          hr'.getNext ha' hsec hstore rfl rfl rfl
        rw [hsplit] at ha'
        refine (ih hr' hgc' (hmoved.inRecoveryCheck.trans hrec) hmoved.lastIsCompleteDel _ ha' ?_ hrest ?_ ?_ hmoved.placed hlen
          hnext').mono ?_
        · rw [Items.live_append, hdone, Items.live_cons, Item.dead_node (by rw [Node.state_replaced]; decide)]
          rfl
        · rw [ho']
          exact ho.add hn
        · rw [ho', SecState.add_next]
          omega
        · rintro _ s'' ⟨S'', items', hr'', ha'', hlive, hopen, hgc'', hmoved', hnext''⟩
          refine ⟨S'', items', hr'', ha'', hlive, hopen, hgc'', hmoved.trans hmoved', ?_⟩
          rw [hnext'', ho', SecState.add_next, Nat.add_assoc]
      · have hw : n.state ≠ .write := by rw [hn]; decide
        have hnot : ¬ ((n.env p).crcIsOk = true ∧ ((n.env p).status = .write ∨ (n.env p).status = .preDelete)) := by
          show ¬ (true = true ∧ (n.state = .write ∨ n.state = .preDelete))
          rw [hn]
          decide
        rw [Item.dead_node hw] at hcap ⊢
        have hcost : cost (none : Option (Nat × Node)).toList = 0 := rfl
        rw [hcost, Nat.zero_add] at hcap ⊢
        rw [if_neg hnot]
        have hsplit : done ++ (p, Item.node n) :: rest = (done ++ [(p, Item.node n)]) ++ rest := by simp
        have hnext' : (getNextEnvAddr sector (n.env p)).run s = some (nextAddr rest, s) := hr.getNext ha hsec hstore rfl rfl rfl
        rw [hsplit] at ha
        refine ih hr hgc hrec hlast _ ha ?_ hrest ho hcap hplaced hlen hnext'
        rw [Items.live_append, hdone, Items.live_cons, Item.dead_node hw]
        rfl

/-! ### Formatting -/

/-- The chip with an empty sector at `b`. -/
def formatted (f : Flash) (b : Nat) : Flash := (f.erase b 4096).program b (0x7F :: 0x7F :: sectorHdrRest)

theorem Does.formatSector {Q : EfErrCode → Store → Prop} (h : Bool) (hC : C (s.flash.erase (base h) 4096))
    (hC₁ : ∀ cs, cs <+: 0x7F :: 0x7F :: sectorHdrRest → C ((s.flash.erase (base h) 4096).program (base h) cs))
    (hq : ∀ past, Q .noErr {s with
      flash := formatted s.flash (base h), past := past,
      sectorCacheTable := updateSectorCacheTable (base h) (base h + 4096) s.sectorCacheTable}) :
    Does C (formatSector (base h) sectorNotCombined) s Q := by
  have hhdr : sectorHdr sectorNotCombined = 0x7F :: 0x7F :: sectorHdrRest := by decide
  have herase : Does C (efPortErase (base h) sectorSize) s fun r s' => r = .noErr ∧ ∃ past, s' = {s with
      flash := s.flash.erase (base h) 4096, past := past} := by
    unfold efPortErase
    rw [if_pos (base_mod h)]
    refine ⟨.noErr, s.erase (base h) sectorSize, rfl, ⟨rfl, _, rfl⟩, fun y hy => ?_⟩
    rcases List.mem_append.mp hy with hy | hy
    · exact .inl hy
    · exact .inr (List.mem_singleton.mp hy ▸ hC)
  unfold EasyFlash.formatSector
  rw [if_neg (not_not_intro (base_mod h))]
  refine Runs.andThen herase ?_
  rintro r s' ⟨rfl, past, rfl⟩
  rw [if_pos rfl, hhdr]
  refine Runs.bind (Does.write (s.flash.erase (base h) 4096) (base h) [] rfl rfl rfl (List.prefix_refl _) hC₁ fun past => ?_)
  exact Runs.bind (Runs.change rfl (Runs.pure (hq past)))

theorem same_formatted (f : Flash) (h : Bool) : f.Same (formatted f (base h)) (base (!h)) (base (!h) + 4096) := by
  have hb := base_cases h
  refine (Flash.same_erase (by omega)).trans (Flash.same_program ?_)
  show _ ∨ base h + 16 ≤ _
  omega

theorem of_formatted (f : Flash) (b : Nat) : SecState.empty.Of (formatted f b) b := by
  have hblank := f.blank_erase b 4096
  refine ⟨Flash.holds_program (hblank.mono (Nat.le_refl _) ?_), (hblank.mono (by omega) (Nat.le_refl _)).congr (Flash.same_program (.inr ?_))⟩
  · show b + 16 ≤ b + 4096
    omega
  · exact Nat.le_refl _

/-- A sector is formatted. -/
theorem Rep.format (hr : Rep S s) (h : Bool) :
    Ends (formatSector (base h) sectorNotCombined) s fun r s' => r = .noErr ∧ Rep (S.put h .empty) s' := by
  refine Does.formatSector h trivial (fun _ _ => trivial) fun past => ⟨rfl, ?_⟩
  refine ⟨?_, sectors_full hr.sectors, hr.names, hr.initOk, hr.gcRequest, hr.inRecoveryCheck, hr.lastIsCompleteDel⟩
  exact hr.on_put (of_formatted s.flash (base h)) (same_formatted s.flash h)

/-! ### `gc_collect` -/

/-- The sector is collected: it is empty, and its nodes are in the other one. -/
structure Collected (S : State) (h : Bool) (S' : State) : Prop where
  emptied : S'.area h = .empty
  other : (S'.area (!h)).Open (base (!h))
  next : (S'.area (!h)).next (base (!h)) = base (!h) + 16 + cost S.live
  moved : Moved S S'

/-- A dirty sector is collected. -/
theorem Rep.gcSector (hr : Rep S s) (hgc : S.gcRequest = true) (hrec : S.inRecoveryCheck = false)
    (hlast : S.lastIsCompleteDel = false) (ha : S.area h = .used full dt items e) (hdirty : dt = .true ∨ dt = .gc)
    (hsettled : ∀ x ∈ items, x.2.Settled) (hother : S.area (!h) = .empty) (hcap : cost S.live + 152 ≤ 4080)
    (hplaced : S.Placed) (sector : SectorMeta) :
    Ends (doGc (headed sector h (S.area h)) ()) s fun r s' => r.1 = false ∧ ∃ S', Rep S' s' ∧ S'.gcRequest = true ∧
      Collected S h S' := by
  have hlive : cost S.live = cost items.live := by
    have hperm := S.live_perm h
    rw [hother, ha] at hperm
    rw [cost_perm hperm, SecState.items, SecState.items, Items.live_nil, List.append_nil]
  have hstore : (headed sector h (S.area h)).store ≠ .empty := by
    rw [ha]
    cases full <;> exact StoreStatus.noConfusion
  have hd : (headed sector h (S.area h)).dirty = .true ∨ (headed sector h (S.area h)).dirty = .gc := by
    rw [ha]
    exact hdirty
  obtain ⟨sec, hsec⟩ : ∃ m, headed sector h (S.area h) = m := ⟨_, rfl⟩
  have haddr : sec.addr = base h := by rw [← hsec]; rfl
  rw [hsec] at hstore hd ⊢
  have hcheck : sec.checkOk = true := by rw [← hsec]; rfl
  have hmark : (SecState.used full .gc items e).Of (s.flash.clear (base h + 1) 0xDF) (base h) := by
    have := (hr.used ha).dirty 0xDF
    rcases hdirty with rfl | rfl <;> exact this
  have hs := same_other (h := h) s.flash (p := base h + 1) 0xDF (by omega) (by omega)
  have hput : ∀ past, Rep (S.put h (.used full .gc items e)) {s with flash := s.flash.clear (base h + 1) 0xDF, past := past} :=
    fun past => hr.put hmark hs fun dt' items' e' ha' => by
      rw [ha] at ha'
      cases ha'
      exact ⟨_, _, rfl⟩
  have hmoved : Moved S (S.put h (.used full .gc items e)) := by
    have hsame : (S.put h (.used full .gc items e)).live = S.live := live_put S (by rw [ha]; rfl)
    exact ⟨by rw [hsame], fun k p hk => hsame ▸ hplaced k p hk, rfl, rfl, hlast⟩
  unfold doGc
  rw [if_pos ⟨hcheck, hd⟩, haddr]
  refine Runs.bind (Does.status (by decide) (by decide) (by decide) trivial fun past => ?_)
  rw [show statusMask DirtyStatus.gc.index = 0xDF by decide]
  have hr₁ := hput past
  have harea : (S.put h (.used full .gc items e)).area h = .used full .gc ([] ++ items) e := State.put_area ..
  have hopen := hother ▸ open_empty (base (!h))
  rw [← State.put_area_not S h (.used full .gc items e)] at hopen
  refine Runs.andThen (hr₁.collectFrom hgc hrec hlast [] harea rfl hsettled hopen ?_ hmoved.placed haddr hstore
    (hr.used ha).length_lt (hr₁.getFirst harea haddr hstore rfl)) ?_
  · rw [State.put_area_not, hother, SecState.next]
    omega
  rintro _ s₂ ⟨S₂, items', hr₂, ha₂, hlive₂, hopen₂, hgc₂, hmoved₂, hnext₂⟩
  refine Runs.andThen (hr₂.format h) ?_
  rintro r s₃ ⟨rfl, hr₃⟩
  refine Runs.pure ⟨rfl, S₂.put h .empty, hr₃, hgc₂, State.put_area .., ?_, ?_, hmoved.trans ?_⟩
  · rwa [State.put_area_not]
  · rw [State.put_area_not, hnext₂, State.put_area_not, hother, SecState.next, hlive]
  · have hsame : (S₂.put h .empty).live = S₂.live := live_put S₂ (by rw [ha₂, SecState.items, SecState.items, hlive₂]; rfl)
    exact ⟨hsame ▸ hmoved₂.live, fun k p hk => hsame ▸ hmoved₂.placed k p hk, hmoved₂.initOk, hmoved₂.inRecoveryCheck,
      hmoved₂.lastIsCompleteDel⟩

/-- A sector that is not dirty is left. -/
theorem run_doGc_clean (sector : SectorMeta) (h : Bool) (x : SecState) (hd : x.dirty = .false) (s : Store) :
    (doGc (headed sector h x) ()).run s = some ((false, ()), s) := by
  unfold doGc
  rw [if_neg fun hc => ?_]
  · rfl
  · have hx : x.dirty = .true ∨ x.dirty = .gc := hc.2
    rw [hd] at hx
    exact absurd hx (by decide)

theorem Rep.gcCheck (hr : Rep S s) (sector : SectorMeta) :
    Ends (sectorIterator sector .empty 0 gcCheckCb false) s fun r s' => s' = s ∧ r.2 = S.count .empty := by
  have hround : ∀ (h : Bool) (m : SectorMeta) (k : Nat), Ends (sectorIteratorRound .empty gcCheckCb false (base h) m k) s
      fun r s' => r = (false, headed m h (S.area h), k + if (S.area h).status = .empty then 1 else 0) ∧ s' = s := by
    intro h m k
    by_cases hst : StoreStatus.empty = (S.area h).status
    · rw [if_pos hst.symm]
      exact hr.visit (.inr hst) (Runs.pure ⟨rfl, rfl⟩)
    · rw [if_neg (Ne.symm hst)]
      exact Runs.of_run (hr.skip (by decide) hst m k) ⟨rfl, rfl⟩
  refine Does.iterate sector ((hround false _ 0).mono ?_)
  rintro r s' ⟨rfl, rfl⟩
  rw [if_neg Bool.false_ne_true]
  refine ⟨rfl, rfl, (hround true _ _).mono ?_⟩
  rintro r s'' ⟨rfl, rfl⟩
  refine ⟨fun _ => ⟨rfl, rfl⟩, rfl, ?_⟩
  rw [State.count, Nat.zero_add]

/-- A collection moves the nodes of the dirty sector to the empty one, and is not asked for any more. -/
theorem Rep.collect (hr : Rep S s) (hgc : S.gcRequest = true) (hrec : S.inRecoveryCheck = false)
    (hlast : S.lastIsCompleteDel = false) (ha : S.area h = .used full dt items e) (hdirty : dt = .true ∨ dt = .gc)
    (hsettled : ∀ x ∈ items, x.2.Settled) (hother : S.area (!h) = .empty) (hcap : cost S.live + 152 ≤ 4080)
    (hplaced : S.Placed) :
    Ends gcCollect s fun _ s' => ∃ S', Rep S' s' ∧ S'.gcRequest = false ∧ Collected S h S' := by
  have hcount : S.count .empty ≤ efGcEmptySecThreshold := by
    have hne : (S.area h).status ≠ .empty := by
      rw [ha]
      cases full <;> exact StoreStatus.noConfusion
    unfold State.count
    cases h
    · rw [if_neg hne, Nat.zero_add]
      split <;> decide
    · rw [if_neg hne, Nat.add_zero]
      split <;> decide
  have hcollect : ∀ sector, Ends (sectorIterator sector .unused () doGc false) s
      fun _ s' => ∃ S', Rep S' s' ∧ S'.gcRequest = true ∧ Collected S h S' := by
    intro sector
    have hsector := fun m => hr.gcSector hgc hrec hlast ha hdirty hsettled hother hcap hplaced m
    cases h with
    | false =>
      refine Does.iterate sector (hr.visit (.inl rfl) ((hsector _).mono ?_))
      rintro ⟨stop, -⟩ s₁ ⟨rfl, S₁, hr₁, hgc₁, hcol⟩
      rw [if_neg Bool.false_ne_true]
      refine ⟨rfl, rfl, hr₁.visit (.inl rfl) (Runs.of_run (run_doGc_clean _ _ _ hcol.other.dirty _) ?_)⟩
      exact ⟨fun _ => ⟨rfl, rfl⟩, S₁, hr₁, hgc₁, hcol⟩
    | true =>
      have hclean : (S.area false).dirty = .false := by
        rw [show S.area false = .empty from hother]
        rfl
      refine Does.iterate sector (hr.visit (.inl rfl) (Runs.of_run (run_doGc_clean _ _ _ hclean _) ?_))
      rw [if_neg Bool.false_ne_true]
      refine ⟨rfl, rfl, hr.visit (.inl rfl) ((hsector _).mono ?_)⟩
      rintro ⟨stop, -⟩ s₁ ⟨rfl, S₁, hr₁, hgc₁, hcol⟩
      exact ⟨fun _ => ⟨rfl, rfl⟩, S₁, hr₁, hgc₁, hcol⟩
  unfold gcCollect
  refine Runs.andThen (hr.gcCheck _) ?_
  rintro ⟨sector, k⟩ s₁ ⟨rfl, rfl⟩
  dsimp only
  rw [if_pos hcount]
  refine Runs.andThen (hcollect sector) ?_
  rintro _ s₂ ⟨S₂, hr₂, hgc₂, hcol⟩
  refine Runs.change rfl ⟨{S₂ with gcRequest := false}, hr₂.request false, rfl, ?_⟩
  exact ⟨hcol.emptied, hcol.other, hcol.next, ⟨hcol.moved.live, hcol.moved.placed, hcol.moved.initOk, hcol.moved.inRecoveryCheck,
    hcol.moved.lastIsCompleteDel⟩⟩

end Backwash.EasyFlash
