import Backwash.EasyFlash.Calm

/-! Setting, deleting and reading.

A new value is written as a new node, between two marks on the old one: first that it is to be
replaced, then that it is. Each call leaves the area as calm as it found it. -/
namespace Backwash.EasyFlash
open Storage

variable {S : State} {s : Store} {h full : Bool} {x : SecState} {dt : DirtyStatus} {items done rest : Items} {e p size : Nat}
  {n : Node} {key value : List Byte} {K : Set (List Byte)}

/-! ### Names -/

/-- The names in use: C strings of at most 128 bytes, told apart by 16 bits of their checksums. -/
structure Names (K : Set (List Byte)) : Prop where
  inj : Set.InjOn nameCrc K
  str : ∀ k ∈ K, ∀ b ∈ k, b ≠ 0
  length : ∀ k ∈ K, k.length ≤ efEnvNameMax

/-- What is there is under such names. -/
def State.Named (S : State) (K : Set (List Byte)) : Prop := ∀ q ∈ S.live, q.2.name ∈ K

theorem Moved.named {S' : State} (hm : Moved S S') (hn : S.Named K) : S'.Named K := by
  intro q hq
  obtain ⟨q', hq', heq⟩ := List.mem_map.mp (hm.live.mem_iff.mp (List.mem_map_of_mem hq))
  exact heq ▸ hn q' hq'

theorem State.Placed.told (hp : S.Placed) (hn : S.Named K) (hK : Names K) (hkey : key ∈ K) : S.Told key := by
  intro k hloc hcrc
  obtain ⟨p, hk⟩ := Option.ne_none_iff_exists'.mp hloc
  obtain ⟨n, hmem, rfl⟩ := hp k p hk
  exact hK.inj (hn _ hmem) hkey hcrc

/-- The search between two calls. -/
theorem Rep.findKey (hr : Rep S s) (hs : Ready S h) (hK : Names K) (hn : S.Named K) (hkey : key ∈ K) (env : EnvNode) :
    Ends (findEnv key env) s fun r s' => ∃ S', S'.area = S.area ∧ Rep S' s' ∧ Ready S' h ∧ Moved S S' ∧
      ((r.1 = false ∧ ∀ q ∈ S'.live, q.2.name ≠ key) ∨ ∃ q ∈ S'.live, q.2.name = key ∧ r = (true, q.2.env q.1)) := by
  refine (hr.find (hK.str key hkey) (hs.placed.told hn hK hkey) (hs.unique.fresh hs.placed) env).mono ?_
  rintro ⟨found, env'⟩ s' ⟨⟨loc, hr', hfresh⟩, rfl, henv⟩
  have hplaced : ({S with loc := loc} : State).Placed := by
    intro k p hk
    obtain ⟨n, hl⟩ := hfresh k p hk
    have hl' : locateIn ({S with loc := loc} : State).area k = some (p, n) := hl
    rw [locateIn_eq_find] at hl'
    exact ⟨n, List.mem_of_find?_eq_some hl', by simpa using List.find?_some hl'⟩
  refine ⟨{S with loc := loc}, rfl, hr', ⟨⟨hs.other, hs.dirty, hs.tight, hs.settled, hs.clean, hs.unique, hplaced,
    hs.lastIsCompleteDel⟩, hs.status, hs.gcRequest⟩, ⟨List.Perm.refl _, hplaced, rfl, rfl,
    hs.lastIsCompleteDel⟩, ?_⟩
  cases hl : locateIn S.area key with
  | none =>
    refine .inl ⟨rfl, fun q hq hname => ?_⟩
    have hu := hs.unique.locate (q := q) hq
    rw [hname, hl] at hu
    cases hu
  | some q =>
    have hl' := hl
    rw [locateIn_eq_find] at hl'
    exact .inr ⟨q, List.mem_of_find?_eq_some hl', by simpa using List.find?_some hl', congrArg (Prod.mk true) (henv q hl)⟩

/-- A request is followed by a collection, which there is something to do for. -/
theorem Rep.finish (hr : Rep S s) (hs : Sound S h) (hrec : S.inRecoveryCheck = false) (hstatus : S.gcRequest = false → (S.area h).status ≠ .full)
    (hdirty : S.gcRequest = true → (S.area h).dirty = .true) (hcap : cost S.live ≤ 3928) {α : Type} (r : α) :
    Ends (do
      if (← get).gcRequest then gcCollect
      return r) s fun r' s' => r' = r ∧ ∃ S' t, Rep S' s' ∧ Ready S' t ∧ Moved S S' := by
  refine Runs.bind (Runs.get ?_)
  refine Runs.when (R := fun s' => ∃ S' t, Rep S' s' ∧ Ready S' t ∧ Moved S S') (fun hgc => ?_) (fun hgc => ?_)
    fun s' hs' => Runs.pure ⟨rfl, hs'⟩
  · have hreq : S.gcRequest = true := hr.gcRequest.symm.trans hgc
    have hd := hdirty hreq
    cases ha : S.area h with
    | empty =>
      rw [ha] at hd
      cases hd
    | used full dt items e =>
      rw [ha] at hd
      obtain rfl : dt = .true := hd
      have hsettled := hs.settled
      rw [ha] at hsettled
      refine (hr.collect hreq hrec hs.lastIsCompleteDel ha (.inl rfl) hsettled hs.other (by omega) hs.placed).mono ?_
      rintro _ s' ⟨S', hr', hgc', hcol⟩
      exact ⟨S', !h, hr', hcol.sound hs hgc', hcol.moved⟩
  · have hreq : S.gcRequest = false := hr.gcRequest.symm.trans (Bool.eq_false_iff.mpr hgc)
    exact ⟨S, h, hr, ⟨hs, hstatus hreq, hreq⟩, Moved.refl hs⟩

/-! ### A new value -/

/-- A node is written behind the others. -/
theorem Does.create (hst : (S.area h).status ≠ .full) (hreq : S.gcRequest = false) (htight : (S.area h).Tight (base h))
    (hn : (Node.new key value).Ok) (hlt : (Node.new key value).size ≤ 4079) (hfit : S.Fitting h (Node.new key value).size)
    {sector : SectorMeta} (hplace : Places (fun _ => True) S s h sector (Node.new key value).size) :
    Ends (EasyFlash.createEnvBlob sector key value) s fun r s' => r.1 = .noErr ∧ ∃ full,
      (S.area h).fills (base h) (Node.new key value).size = full ∧
      Rep {S.added h full (Node.new key value) with gcRequest := full} s' := by
  have hroom : S.Room h (Node.new key value).size := ⟨hst, Nat.le_of_lt hfit⟩
  refine (Does.createEnvBlob hn hroom hlt hplace rfl (.inl htight) fun _ _ _ _ => trivial).mono ?_
  rintro r s' ⟨hres, hr'⟩
  refine ⟨hres, _, rfl, ?_⟩
  rwa [hreq, Bool.false_or] at hr'

/-- A node that fills its sector leaves less than the threshold. -/
theorem fills_more (hf : x.fills (base h) size = true) (hgt : base h + 16 ≤ x.next (base h)) :
    base h + 4096 < x.next (base h) + size + 152 := by
  cases x with
  | empty => cases hf
  | used full dt items e =>
    have hf' := of_decide_eq_true hf
    have hgt' : base h + 16 ≤ e := hgt
    show base h + 4096 < e + size + 152
    simp only [efSecRemainThreshold, envHdrDataSize, efEnvNameMax] at hf'
    omega

theorem Node.new_ok (hK : Names K) (hkey : key ∈ K) (hsize : (Node.new key value).size ≤ 3928) : (Node.new key value).Ok :=
  ⟨(by decide : Plain 0x3F), hK.length key hkey, hK.str key hkey, Nat.le_trans hsize (by decide)⟩

/-- The nodes, wherever they lie. -/
def State.nodes (S : State) : List Node := S.live.map Prod.snd

theorem State.unique_iff : S.Unique ↔ (S.nodes.map Node.name).Nodup := by
  rw [State.Unique, State.nodes, List.map_map]
  rfl

/-- The variables that only the initialisation writes are as they were. -/
structure State.Like (S' S : State) : Prop where
  initOk : S'.initOk = S.initOk
  inRecoveryCheck : S'.inRecoveryCheck = S.inRecoveryCheck

theorem State.Like.trans {S₁ S₂ S₃ : State} (h : S₁.Like S₂) (h' : S₂.Like S₃) : S₁.Like S₃ :=
  ⟨h.initOk.trans h'.initOk, h.inRecoveryCheck.trans h'.inRecoveryCheck⟩

theorem Moved.like {S' : State} (hm : Moved S S') : S'.Like S := ⟨hm.initOk, hm.inRecoveryCheck⟩

/-- A value under a name that is not there yet. -/
theorem Rep.setFresh (hr : Rep S s) (hs : Ready S h) (hn : (Node.new key value).Ok)
    (hcap : cost S.live + (Node.new key value).size ≤ 3928) (hnot : ∀ q ∈ S.live, q.2.name ≠ key)
    (hfit : S.Fitting h (Node.new key value).size) {sector : SectorMeta}
    (hplace : Places (fun _ => True) S s h sector (Node.new key value).size) :
    Ends (EasyFlash.createEnvBlob sector key value) s fun r s' => r.1 = .noErr ∧ ∃ S', Rep S' s' ∧ Sound S' h ∧
      (S'.gcRequest = false → (S'.area h).status ≠ .full) ∧ (S'.gcRequest = true → (S.area h).dirty = .true) ∧
      (S'.area h).dirty = (S.area h).dirty ∧ S'.Like S ∧ S'.nodes.Perm (Node.new key value :: S.nodes) := by
  refine (Does.create hs.status hs.gcRequest hs.tight hn (by omega) hfit hplace).mono ?_
  rintro r s' ⟨hres, full, hfull, hr'⟩
  have harea := S.added_area h full (Node.new key value)
  have hwritten : (Node.new key value).written = Node.new key value := rfl
  have hlive := live_added S h full (Node.new key value)
  rw [hwritten] at harea hlive
  have hnames := hlive.map fun q => q.2.name
  refine ⟨hres, _, hr', ⟨?_, ?_, ?_, ?_, ?_, ?_, ?_, hs.lastIsCompleteDel⟩, ?_, ?_, ?_, ⟨rfl, rfl⟩, hlive.map Prod.snd⟩
  · exact (S.added_area_not h full _).trans hs.other
  · rw [harea, SecState.add_dirty]
    exact hs.dirty
  · rw [harea]
    exact hs.tight.add full _
  · rw [harea, SecState.add_items]
    exact List.forall_mem_append.mpr ⟨hs.settled, List.forall_mem_singleton.mpr (.inl rfl)⟩
  · rw [harea, SecState.add_dirty, SecState.add_items]
    exact fun hd => List.forall_mem_append.mpr ⟨hs.clean hd, List.forall_mem_singleton.mpr ⟨_, rfl, rfl⟩⟩
  · refine hnames.nodup_iff.mpr (List.nodup_cons.mpr ⟨fun hmem => ?_, hs.unique⟩)
    obtain ⟨q, hq, hname⟩ := List.mem_map.mp hmem
    exact hnot q hq hname
  · exact hs.placed.update (n := Node.new key value) rfl (hlive.mem_iff.mpr (List.mem_cons_self ..)) fun q hq _ =>
      hlive.mem_iff.mpr (List.mem_cons_of_mem _ hq)
  · rintro rfl
    rw [harea, SecState.add_status]
    decide
  · rintro rfl
    have hmore := fills_more hfull (hr.area h).next_gt
    exact hs.dirty_of_more (by omega)
  · rw [harea, SecState.add_dirty]

theorem DirtyStatus.dirtied_eq {d : DirtyStatus} (hd : d = .false ∨ d = .true) : d.dirtied = .true := by
  rcases hd with rfl | rfl <;> rfl

/-! The second mark. -/

/-- Sector `h` is now `x`, with a node that has been replaced. -/
def State.settle (S : State) (h : Bool) (x : SecState) : State := {S.put h x with lastIsCompleteDel := false}

theorem State.settle_area (S : State) (h : Bool) (x : SecState) : (S.settle h x).area h = x := State.put_area ..

theorem State.settle_area_not (S : State) (h : Bool) (x : SecState) : (S.settle h x).area (!h) = S.area (!h) :=
  State.put_area_not ..

/-- A node that was marked before is deleted, and the cache keeps the place of the new one. -/
theorem Rep.settle (hr : Rep S s) (ha : S.area h = .used full dt (done ++ (p, Item.node n.leaving) :: rest) e)
    (hlast : S.lastIsCompleteDel = true) (key : Option (List Byte)) :
    Ends (delEnvFound key (n.env p) true) s fun r s' => r = .noErr ∧
      Rep (S.settle h (.used full dt.dirtied (done ++ (p, Item.node n.replaced) :: rest) e)) s' := by
  have hapart := (hr.used ha).walk.apart
  have hmem : (p, Item.node n.leaving) ∈ done ++ (p, Item.node n.leaving) :: rest :=
    List.mem_append_right _ (List.mem_cons_self ..)
  refine (hr.delete ha hmem (by decide : Plain (0x1F &&& 0xEF)) key rfl (fun _ _ => trivial) fun _ _ => trivial).mono ?_
  rintro r s' ⟨rfl, hr'⟩
  rw [Items.mark_split hapart, Item.mark, n.mark_replaced, hlast, if_pos rfl] at hr'
  exact ⟨rfl, hr'⟩

/-- A node that is marked leaves its sector as tight. -/
theorem tight_leaving (htight : (SecState.used false dt (done ++ (p, Item.node n) :: rest) e).Tight b) (dt' : DirtyStatus) :
    (SecState.used false dt' (done ++ (p, Item.node n.leaving) :: rest) e).Tight b := by
  unfold SecState.Tight SecState.items SecState.next at htight ⊢
  rw [span_append, span_cons] at htight ⊢
  exact htight

/-- The new node is written behind the marked one. -/
theorem added_leaving (ha : S.area h = .used false dt (done ++ (p, Item.node n.leaving) :: rest) e) (full : Bool) (m : Node) :
    (S.added h full m).area h =
      .used full dt (done ++ (p, Item.node n.leaving) :: (rest ++ [(e, Item.node m.written)])) (e + m.size) := by
  refine (S.added_area h full m).trans ?_
  rw [ha, SecState.add, List.append_assoc]
  rfl

/-- Where the sector has the new node and the old one replaced, the area is as calm as before. -/
theorem Ready.renewed (hs : Ready S h) (ha : S.area h = .used false dt (done ++ (p, Item.node n) :: rest) e)
    (hn : n.status = 0x3F) (hname : n.name = key) {S' : State} (hother : S'.area (!h) = .empty)
    (ha' : S'.area h = .used full .true (done ++ (p, Item.node n.replaced) :: (rest ++ [(e, Item.node (Node.new key value))]))
      (e + (Node.new key value).size))
    (hloc : S'.loc = Function.update S.loc key (some e)) (hlast : S'.lastIsCompleteDel = false) :
    Sound S' h ∧ ∃ others, S.nodes.Perm (n :: others) ∧ S'.nodes.Perm (Node.new key value :: others) := by
  have hlive : S.live.Perm ((p, n) :: (done.live ++ rest.live)) := by
    refine hs.live.trans ?_
    rw [ha, SecState.items, Items.live_append, Items.live_cons, Item.live_node (n.state_written hn)]
    exact List.perm_middle
  have hlive' : S'.live.Perm ((e, Node.new key value) :: (done.live ++ rest.live)) := by
    refine (S'.live_perm h).trans ?_
    rw [hother, ha', SecState.items, SecState.items, Items.live_append, Items.live_cons, Items.live_append, Items.live_cons,
      Item.dead_node (by rw [Node.state_replaced]; decide), Item.live_node ((Node.new key value).state_written rfl),
      Items.live_nil]
    simp only [Option.toList_none, Option.toList_some, List.nil_append, List.append_nil]
    rw [← List.append_assoc]
    exact List.perm_append_singleton _ _
  have htight := hs.tight
  have hsettled := hs.settled
  rw [ha] at htight
  rw [ha, SecState.items, List.forall_mem_append, List.forall_mem_cons] at hsettled
  refine ⟨⟨hother, ?_, ?_, ?_, ?_, ?_, ?_, hlast⟩, (done.live ++ rest.live).map Prod.snd, hlive.map Prod.snd, hlive'.map Prod.snd⟩
  · rw [ha']
    exact .inr rfl
  · rw [ha']
    unfold SecState.Tight SecState.items SecState.next at htight ⊢
    rw [span_append, span_cons] at htight ⊢
    rw [span_append, span_cons, span_nil]
    simp only [Item.len] at htight ⊢
    have : n.replaced.size = n.size := rfl
    omega
  · rw [ha', SecState.items, List.forall_mem_append, List.forall_mem_cons, List.forall_mem_append]
    exact ⟨hsettled.1, .inr n.state_replaced, hsettled.2.2, List.forall_mem_singleton.mpr (.inl rfl)⟩
  · rw [ha']
    intro hd
    cases hd
  · have hnames := hlive.map fun q => q.2.name
    have hnames' := hlive'.map fun q => q.2.name
    rw [List.map_cons] at hnames hnames'
    refine (hnames'.trans ?_).nodup_iff.mpr hs.unique
    rw [Node.new_name, ← hname]
    exact hnames.symm
  · refine hs.placed.update (n := Node.new key value) hloc (hlive'.mem_iff.mpr (List.mem_cons_self ..)) fun q hq hne => ?_
    refine hlive'.mem_iff.mpr (List.mem_cons_of_mem _ ?_)
    rcases List.mem_cons.mp (hlive.mem_iff.mp hq) with rfl | hq
    · exact absurd hname hne
    · exact hq

/-- A new value under a name that is there: the old node is marked before the new one is written, and again after. -/
theorem Rep.setAgain (hr : Rep S s) (hs : Ready S h) (hnew : (Node.new key value).Ok)
    (hcap : cost S.live + (Node.new key value).size ≤ 3928) (ha : S.area h = .used false dt (done ++ (p, Item.node n) :: rest) e)
    (hn : n.status = 0x3F) (hname : n.name = key) (hfit : S.Fitting h (Node.new key value).size) {sector : SectorMeta}
    (hempty : sector.emptyEnv = (S.area h).next (base h)) (hsec : Fits sector h (S.area h)) :
    Ends (delEnvFound (some key) (n.env p) false) s fun r s₁ => r = .noErr ∧
      Ends (EasyFlash.createEnvBlob sector key value) s₁ fun r s₂ => r.1 = .noErr ∧
        Ends (delEnvFound (some key) (n.env p) true) s₂ fun r s₃ => r = .noErr ∧ ∃ S', Rep S' s₃ ∧ Sound S' h ∧
          (S'.gcRequest = false → (S'.area h).status ≠ .full) ∧ (S'.gcRequest = true → (S'.area h).dirty = .true) ∧
          S'.Like S ∧ ∃ others, S.nodes.Perm (n :: others) ∧ S'.nodes.Perm (Node.new key value :: others) := by
  have hd : dt = .false ∨ dt = .true := by
    have := hs.dirty
    rwa [ha] at this
  have htight := hs.tight
  unfold State.Fitting at hfit
  rw [ha] at hsec htight hfit hempty
  obtain ⟨S₁, hS₁⟩ : ∃ S₁, S.leave h (.used false .true (done ++ (p, Item.node n.leaving) :: rest) e) = S₁ := ⟨_, rfl⟩
  have ha₁ : S₁.area h = .used false .true (done ++ (p, Item.node n.leaving) :: rest) e := hS₁ ▸ S.leave_area ..
  have hother₁ : S₁.area (!h) = .empty := hS₁ ▸ (S.leave_area_not ..).trans hs.other
  refine (hr.leave ha hn (some key)).mono ?_
  rintro r s₁ ⟨rfl, hr₁⟩
  rw [DirtyStatus.dirtied_eq hd, hS₁] at hr₁
  refine ⟨rfl, (Does.create (by rw [ha₁]; exact (by decide : StoreStatus.inUse ≠ .full)) ?_ ?_ hnew (by omega) ?_
    (hr₁.places ?_ ?_ _)).mono ?_⟩
  · rw [← hS₁]
    exact hs.gcRequest
  · rw [ha₁]
    exact tight_leaving htight .true
  · unfold State.Fitting
    rw [ha₁]
    exact hfit
  · rw [ha₁]
    exact hempty
  · rw [ha₁]
    exact ⟨hsec.addr, hsec.store, hsec.remain⟩
  rintro r s₂ ⟨hres, full, hfull, hr₂⟩
  refine ⟨hres, ?_⟩
  obtain ⟨S₂, hS₂⟩ : ∃ S₂, ({S₁.added h full (Node.new key value) with gcRequest := full} : State) = S₂ := ⟨_, rfl⟩
  rw [hS₂] at hr₂
  have ha₂ : S₂.area h = .used full .true (done ++ (p, Item.node n.leaving) :: (rest ++ [(e, .node (Node.new key value))]))
      (e + (Node.new key value).size) := hS₂ ▸ added_leaving ha₁ full _
  have hother₂ : S₂.area (!h) = .empty := hS₂ ▸ (S₁.added_area_not h full _).trans hother₁
  have hlast₂ : S₂.lastIsCompleteDel = true := by rw [← hS₂, ← hS₁]; rfl
  refine (hr₂.settle ha₂ hlast₂ (some key)).mono ?_
  rintro r s₃ ⟨rfl, hr₃⟩
  obtain ⟨S₃, hS₃⟩ : ∃ S₃, S₂.settle h (.used full .true
    (done ++ (p, Item.node n.replaced) :: (rest ++ [(e, .node (Node.new key value))])) (e + (Node.new key value).size)) = S₃ :=
    ⟨_, rfl⟩
  have ha₃ : S₃.area h = .used full .true (done ++ (p, Item.node n.replaced) :: (rest ++ [(e, .node (Node.new key value))]))
      (e + (Node.new key value).size) := hS₃ ▸ S₂.settle_area ..
  have hloc : S₃.loc = Function.update S.loc key (some e) := by
    rw [← hS₃, ← hS₂]
    show Function.update S₁.loc key (some ((S₁.area h).next (base h))) = _
    rw [ha₁, ← hS₁]
    rfl
  have hlast₃ : S₃.lastIsCompleteDel = false := by rw [← hS₃]; rfl
  have hother₃ : S₃.area (!h) = .empty := hS₃ ▸ (S₂.settle_area_not ..).trans hother₂
  obtain ⟨hsound, hnodes⟩ := hs.renewed ha hn hname hother₃ ha₃ hloc hlast₃
  refine ⟨rfl, S₃, hS₃ ▸ hr₃, hsound, fun hreq => ?_, fun _ => ?_, ?_, hnodes⟩
  · rw [← hS₃, ← hS₂] at hreq
    obtain rfl : full = false := hreq
    rw [ha₃]
    exact (by decide : StoreStatus.inUse ≠ .full)
  · rw [ha₃]
    rfl
  · rw [← hS₃, ← hS₂, ← hS₁]
    exact ⟨rfl, rfl⟩

/-- Where a node that is there lies. -/
theorem Ready.locate (hs : Ready S h) {q : Nat × Node} (hq : q ∈ S.live) :
    q.2.status = 0x3F ∧ ∃ dt done rest e, S.area h = .used false dt (done ++ (q.1, Item.node q.2) :: rest) e := by
  have hq' := hs.live.mem_iff.mp hq
  obtain ⟨hmem, hw⟩ := Items.mem_live.mp hq'
  have hstatus : q.2.status = 0x3F := by
    refine (hs.settled _ hmem).resolve_right fun hd => ?_
    rw [hw] at hd
    cases hd
  refine ⟨hstatus, ?_⟩
  have hst := hs.status
  cases ha : S.area h with
  | empty =>
    rw [ha] at hmem
    cases hmem
  | used full dt items e =>
    rw [ha] at hmem hst
    obtain ⟨done, rest, hsplit⟩ := List.append_of_mem hmem
    obtain rfl : items = _ := hsplit
    cases full
    · exact ⟨dt, done, rest, e, rfl⟩
    · exact absurd rfl hst

/-- What there is once a value is set. -/
structure Replaced (S S' : State) (key value : List Byte) : Prop where
  like : S'.Like S
  nodes : ∃ others, (∀ m ∈ others, m.name ≠ key) ∧ S'.nodes.Perm (Node.new key value :: others) ∧
    (S.nodes.Perm others ∨ ∃ n, n.name = key ∧ S.nodes.Perm (n :: others))

theorem Replaced.trans {S₁ S₂ S₃ : State} (hr : Replaced S₁ S₂ key value) (hm : Moved S₂ S₃) : Replaced S₁ S₃ key value := by
  obtain ⟨hlike, others, hne, hnew, hold⟩ := hr
  exact ⟨hm.like.trans hlike, others, hne, List.Perm.trans hm.live hnew, hold⟩

theorem Replaced.of_moved {S₁ S₂ S₃ : State} (hm : Moved S₁ S₂) (hr : Replaced S₂ S₃ key value) : Replaced S₁ S₃ key value := by
  obtain ⟨hlike, others, hne, hnew, hold⟩ := hr
  exact ⟨hlike.trans hm.like, others, hne, hnew, hold.imp (hm.live.symm.trans ·) fun ⟨n, hn, hp⟩ => ⟨n, hn, hm.live.symm.trans hp⟩⟩

theorem cost_nodes (S : State) : cost S.live = (S.nodes.map Node.size).sum := by
  rw [State.nodes, List.map_map]
  rfl

/-- `set_env` with a value: the name has the value, and the others have theirs. -/
theorem Rep.setEnv (hr : Rep S s) (hs : Ready S h) (hrec : S.inRecoveryCheck = false) (hK : Names K) (hn : S.Named K) (hkey : key ∈ K)
    (hcap : cost S.live + (Node.new key value).size ≤ 3928) :
    Ends (setEnv key (some value)) s fun r s' => r = .noErr ∧ ∃ S' t, Rep S' s' ∧ Ready S' t ∧ Replaced S S' key value := by
  have hnew : (Node.new key value).Ok := Node.new_ok hK hkey (by omega)
  unfold EasyFlash.setEnv newEnvByKv
  dsimp only
  rw [← Node.new_size key value]
  refine Runs.andThen (hr.newEnv hs hrec hcap _) ?_
  rintro r s₁ ⟨S₁, t, hr₁, hs₁, hm₁, hfit₁, rfl⟩
  dsimp only
  rw [if_neg (next_ne_failed hr₁ t)]
  refine Runs.andThen (hr₁.findKey hs₁ hK (hm₁.named hn) hkey _) ?_
  rintro ⟨found, env⟩ s₂ ⟨S₂, harea, hr₂, hs₂, hm₂, hfind⟩
  have hcap₂ : cost S₂.live + (Node.new key value).size ≤ 3928 := by
    rw [cost_moved (hm₁.trans hm₂).live]
    exact hcap
  have hfit₂ : S₂.Fitting t (Node.new key value).size := by
    unfold State.Fitting at hfit₁ ⊢
    rwa [harea]
  rw [← harea]
  have hsec := fits_traversed t (S₂.area t)
  have hplace := hr₂.places (C := fun _ => True) rfl hsec (Node.new key value).size
  -- what is left once the new node is there
  have hend : ∀ {S₃ : State} {s₃ : Store}, Rep S₃ s₃ → Sound S₃ t → (S₃.gcRequest = false → (S₃.area t).status ≠ .full) →
      (S₃.gcRequest = true → (S₃.area t).dirty = .true) → Replaced S₂ S₃ key value → cost S₃.live ≤ 3928 →
      Ends (do
        if (← get).gcRequest then gcCollect
        return EfErrCode.noErr) s₃ fun r s' => r = .noErr ∧ ∃ S' t, Rep S' s' ∧ Ready S' t ∧ Replaced S S' key value := by
    intro S₃ s₃ hr₃ hs₃ hstatus hdirty hrep hcap₃
    have hrec₃ := (hrep.like.trans (hm₁.trans hm₂).like).inRecoveryCheck.trans hrec
    refine (hr₃.finish hs₃ hrec₃ hstatus hdirty hcap₃ _).mono ?_
    rintro r s' ⟨rfl, S', t', hr', hs', hm'⟩
    exact ⟨rfl, S', t', hr', hs', .of_moved (hm₁.trans hm₂) (hrep.trans hm')⟩
  rcases hfind with ⟨hfound, hnot⟩ | ⟨q, hq, hname, hfound⟩
  · obtain rfl : found = false := hfound
    dsimp only
    rw [if_neg Bool.false_ne_true]
    refine Runs.bind (Runs.pure ?_)
    rw [if_pos rfl]
    refine Runs.bind (Runs.map ((hr₂.setFresh hs₂ hnew hcap₂ hnot hfit₂ hplace).mono ?_))
    rintro ⟨r, m⟩ s₃ ⟨hres, S₃, hr₃, hs₃, hstatus, hdirty, hsame, hlike, hnodes⟩
    obtain rfl : r = .noErr := hres
    dsimp only
    rw [if_neg fun hc => Bool.false_ne_true hc.1]
    refine Runs.bind (Runs.pure ?_)
    refine hend hr₃ hs₃ hstatus (fun hreq => hsame.trans (hdirty hreq)) ⟨hlike, S₂.nodes, fun m hm => ?_, hnodes, .inl (List.Perm.refl _)⟩ ?_
    · obtain ⟨q, hq, rfl⟩ := List.mem_map.mp hm
      exact hnot q hq
    · rw [cost_nodes, (hnodes.map Node.size).sum_nat, List.map_cons, List.sum_cons, ← cost_nodes]
      omega
  · cases hfound
    obtain ⟨hstatus, dt, done, rest, e, ha⟩ := hs₂.locate hq
    dsimp only
    rw [if_pos rfl]
    refine Runs.andThen (hr₂.setAgain hs₂ hnew hcap₂ ha hstatus hname hfit₂ rfl hsec) ?_
    rintro r s₃ ⟨rfl, hcreate⟩
    rw [if_pos rfl]
    refine Runs.bind (Runs.map (hcreate.mono ?_))
    rintro ⟨r, m⟩ s₄ ⟨hres, hdelete⟩
    obtain rfl : r = .noErr := hres
    dsimp only
    rw [if_pos ⟨rfl, rfl⟩]
    refine Runs.andThen hdelete ?_
    rintro r s₅ ⟨rfl, S₃, hr₃, hs₃, hst₃, hd₃, hlike, others, hold, hnodes⟩
    have hcost := (hold.map Node.size).sum_nat
    rw [List.map_cons, List.sum_cons, ← cost_nodes] at hcost
    refine hend hr₃ hs₃ hst₃ hd₃ ⟨hlike, others, fun m hm hmk => ?_, hnodes, .inr ⟨q.2, hname, hold⟩⟩ ?_
    · have hnodup := (hold.map Node.name).nodup_iff.mp (State.unique_iff.mp hs₂.unique)
      rw [List.map_cons, List.nodup_cons, hname, ← hmk] at hnodup
      exact hnodup.1 (List.mem_map_of_mem hm)
    · rw [cost_nodes, (hnodes.map Node.size).sum_nat, List.map_cons, List.sum_cons]
      omega

/-! ### Deleting -/

/-- What there is once a name is deleted. -/
def Removed (S S' : State) (key : List Byte) (r : EfErrCode) : Prop :=
  (r = .envNameErr ∧ (∀ m ∈ S.nodes, m.name ≠ key) ∧ S'.nodes.Perm S.nodes) ∨
    (r = .noErr ∧ ∃ n others, n.name = key ∧ S.nodes.Perm (n :: others) ∧ S'.nodes.Perm others)

/-- `del_env`: the name is not there any more. -/
theorem Rep.delEnv (hr : Rep S s) (hs : Ready S h) (hK : Names K) (hn : S.Named K) (hkey : key ∈ K) :
    Ends (delEnv key true) s fun r s' => ∃ S', Rep S' s' ∧ Ready S' h ∧ S'.Like S ∧ Removed S S' key r := by
  unfold EasyFlash.delEnv
  refine Runs.andThen (hr.findKey hs hK hn hkey _) ?_
  rintro ⟨found, env⟩ s₁ ⟨S₁, -, hr₁, hs₁, hm₁, hfind⟩
  rcases hfind with ⟨hfound, hnot⟩ | ⟨q, hq, hname, hfound⟩
  · obtain rfl : found = false := hfound
    dsimp only
    rw [if_neg Bool.false_ne_true]
    refine Runs.pure ⟨S₁, hr₁, hs₁, hm₁.like, .inl ⟨rfl, fun m hm => ?_, hm₁.live⟩⟩
    obtain ⟨q, hq, rfl⟩ := List.mem_map.mp (hm₁.live.mem_iff.mpr hm)
    exact hnot q hq
  · cases hfound
    obtain ⟨hstatus, dt, done, rest, e, ha⟩ := hs₁.locate hq
    have hw := q.2.state_written hstatus
    have hmem : (q.1, Item.node q.2) ∈ done ++ (q.1, Item.node q.2) :: rest := List.mem_append_right _ (List.mem_cons_self ..)
    have hapart := (hr₁.used ha).walk.apart
    have hd : dt = .false ∨ dt = .true := by
      have := hs₁.dirty
      rwa [ha] at this
    have hgone : q.2.gone.state ≠ .write := by rw [Node.state_gone]; decide
    have hlive := live_marked S₁ ha hw hgone .true
    dsimp only
    rw [if_pos rfl]
    refine (hr₁.delete ha hmem (by rw [hstatus]; decide) (some key) rfl (fun _ _ => trivial) fun _ _ => trivial).mono ?_
    rintro r s₂ ⟨rfl, hr₂⟩
    rw [Items.mark_split hapart, Item.mark, q.2.mark_gone hstatus, DirtyStatus.dirtied_eq hd, hs₁.lastIsCompleteDel,
      if_neg Bool.false_ne_true, Option.getD_some] at hr₂
    obtain ⟨S₂, hS₂⟩ : ∃ S₂, ({S₁.put h (.used false .true (done ++ (q.1, Item.node q.2.gone) :: rest) e) with
      loc := Function.update S₁.loc key none, lastIsCompleteDel := false} : State) = S₂ := ⟨_, rfl⟩
    have ha₂ : S₂.area h = .used false .true (done ++ (q.1, Item.node q.2.gone) :: rest) e := by
      rw [← hS₂]
      exact State.put_area ..
    have hlive₂ : S₁.live.Perm (q :: S₂.live) := by
      rw [← hS₂]
      exact hlive
    have htight := hs₁.tight
    have hsettled := hs₁.settled
    rw [ha] at htight hsettled
    rw [SecState.items, List.forall_mem_append, List.forall_mem_cons] at hsettled
    have hnodes : S.nodes.Perm (q.2 :: S₂.nodes) := hm₁.live.symm.trans (hlive₂.map Prod.snd)
    refine ⟨S₂, hS₂ ▸ hr₂, ⟨⟨?_, ?_, ?_, ?_, ?_, ?_, ?_, ?_⟩, ?_, ?_⟩, ?_, .inr ⟨rfl, q.2, S₂.nodes, hname, hnodes, List.Perm.refl _⟩⟩
    · rw [← hS₂]
      exact (State.put_area_not ..).trans hs₁.other
    · rw [ha₂]
      exact .inr rfl
    · rw [ha₂]
      unfold SecState.Tight SecState.items SecState.next at htight ⊢
      rw [span_append, span_cons] at htight ⊢
      exact htight
    · rw [ha₂, SecState.items, List.forall_mem_append, List.forall_mem_cons]
      exact ⟨hsettled.1, .inr q.2.state_gone, hsettled.2.2⟩
    · rw [ha₂]
      intro hd
      cases hd
    · have hnames := hlive₂.map fun r => r.2.name
      exact (List.nodup_cons.mp (hnames.nodup_iff.mp hs₁.unique)).2
    · intro k p hk
      rw [← hS₂] at hk
      have hk' : Function.update S₁.loc key none k = some p := hk
      have hne : k ≠ key := by
        rintro rfl
        rw [Function.update_self] at hk'
        cases hk'
      rw [Function.update_of_ne hne] at hk'
      obtain ⟨m, hmem', hmk⟩ := hs₁.placed k p hk'
      rcases List.mem_cons.mp (hlive₂.mem_iff.mp hmem') with heq | hmem'
      · exact absurd (hmk.symm.trans ((congrArg (fun r => r.2.name) heq).trans hname)) hne
      · exact ⟨m, hmem', hmk⟩
    · rw [← hS₂]
    · rw [ha₂]
      exact (by decide : StoreStatus.inUse ≠ .full)
    · rw [← hS₂]
      exact hs₁.gcRequest
    · rw [← hS₂]
      exact ⟨hm₁.initOk, hm₁.inRecoveryCheck⟩

/-! ### Reading -/

/-- `get_env`: as much of the value as there is room for. -/
theorem Rep.getEnv (hr : Rep S s) (hs : Ready S h) (hK : Names K) (hn : S.Named K) (hkey : key ∈ K) (bufLen : Nat) :
    Ends (getEnv key bufLen) s fun r s' => ∃ S', Rep S' s' ∧ Ready S' h ∧ Moved S S' ∧
      ((r = [] ∧ ∀ m ∈ S.nodes, m.name ≠ key) ∨ ∃ m ∈ S.nodes, m.name = key ∧ r = m.value.take bufLen) := by
  unfold EasyFlash.getEnv
  refine Runs.andThen (hr.findKey hs hK hn hkey _) ?_
  rintro ⟨found, env⟩ s₁ ⟨S₁, -, hr₁, hs₁, hm₁, hfind⟩
  rcases hfind with ⟨hfound, hnot⟩ | ⟨q, hq, hname, hfound⟩
  · obtain rfl : found = false := hfound
    dsimp only
    rw [if_neg Bool.false_ne_true]
    refine Runs.pure ⟨S₁, hr₁, hs₁, hm₁, .inl ⟨rfl, fun m hm => ?_⟩⟩
    obtain ⟨q, hq, rfl⟩ := List.mem_map.mp (hm₁.live.mem_iff.mpr hm)
    exact hnot q hq
  · cases hfound
    obtain ⟨hstatus, dt, done, rest, e, ha⟩ := hs₁.locate hq
    have hmem : (q.1, Item.node q.2) ∈ (S₁.area h).items := by
      rw [ha]
      exact List.mem_append_right _ (List.mem_cons_self ..)
    have hvalue := Node.read_value (hr₁.shows hmem).1
    have hlen : (if (q.2.env q.1).valueLen < bufLen then (q.2.env q.1).valueLen else bufLen) = min bufLen q.2.value.length := by
      show (if q.2.value.length < bufLen then q.2.value.length else bufLen) = _
      split <;> omega
    dsimp only
    rw [if_pos rfl, hlen]
    refine Runs.of_run (run_efPortRead ..) ⟨S₁, hr₁, hs₁, hm₁, .inr ⟨q.2, hm₁.live.mem_iff.mp (List.mem_map_of_mem hq), hname, ?_⟩⟩
    rw [← Flash.take_read _ _ (Nat.min_le_right ..)]
    show ((s₁.flash.read (q.1 + envHdrDataSize + q.2.name.length) q.2.value.length).take _) = _
    rw [hvalue, ← List.take_eq_take_min]

end Backwash.EasyFlash
