import Backwash.EasyFlash.Operations

/-! The initialisation.

The caches are emptied and the area is looked through. A chip that was left between two calls
is taken as it is; one without a single sector header is formatted and gets the defaults. -/
namespace Backwash.EasyFlash
open Storage

variable {S : State} {s : Store} {f : Flash} {h full : Bool} {x : SecState} {dt : DirtyStatus} {items done rest : Items} {e p size : Nat}
  {n : Node} {key value : List Byte} {K : Set (List Byte)} {sector : SectorMeta} {α : Type} {arg : α}

/-! ### Looking through the area -/

theorem Rep.iterateSector {callback : Callback EnvNode α} (hr : Rep S s) (done : Items) (ha : S.area h = .used full dt (done ++ rest) e)
    (hsec : sector.addr = base h) (hstore : sector.store ≠ .empty)
    (hcb : ∀ y ∈ rest, ∀ old, (callback (y.2.env y.1 old) arg).run s = some ((false, arg), s)) {fuel : Nat} (hfuel : rest.length < fuel)
    {env : EnvNode} (hnext : (getNextEnvAddr sector env).run s = some (nextAddr rest, s)) :
    ∃ env', (envIteratorSector callback sector fuel env arg).run s = some ((false, env', arg), s) := by
  induction rest generalizing done fuel env with
  | nil =>
    obtain ⟨fuel, rfl⟩ : ∃ k, fuel = k + 1 := ⟨fuel - 1, by omega⟩
    refine ⟨{env with start := failedAddr}, ?_⟩
    rw [envIteratorSector, run_bind_of hnext, if_pos (show nextAddr [] = failedAddr from rfl)]
    rfl
  | cons y rest ih =>
    obtain ⟨p, i⟩ := y
    obtain ⟨fuel, rfl⟩ : ∃ k, fuel = k + 1 := ⟨fuel - 1, by omega⟩
    obtain ⟨r, hread⟩ := hr.readItem ha env
    obtain ⟨hi, hrest⟩ := List.forall_mem_cons.mp hcb
    have ha' : S.area h = .used full dt ((done ++ [(p, i)]) ++ rest) e := by rw [ha, List.append_assoc]; rfl
    obtain ⟨env', hrun⟩ := ih (done ++ [(p, i)]) ha' hrest (Nat.lt_of_succ_lt_succ hfuel) (hr.getNext_env ha hsec hstore env)
    refine ⟨env', ?_⟩
    rw [envIteratorSector, run_bind_of hnext, nextAddr_cons, if_neg (hr.nextAddr_ne ha), run_bind_of hread]
    dsimp only
    rw [run_bind_of (hi env)]
    exact hrun

theorem Rep.iterateRound {callback : Callback EnvNode α} (hr : Rep S s) (h : Bool)
    (hcb : ∀ y ∈ (S.area h).items, ∀ old, (callback (y.2.env y.1 old) arg).run s = some ((false, arg), s)) (sector : SectorMeta)
    (env : EnvNode) :
    ∃ env', (envIteratorRound callback (base h) sector env arg).run s = some ((false, headed sector h (S.area h), env', arg), s) := by
  unfold envIteratorRound
  rw [run_bind_of (hr.readHeader h sector)]
  dsimp only
  rw [if_neg (by decide)]
  cases ha : S.area h with
  | empty =>
    rw [if_neg (by show ¬ (StoreStatus.empty = .inUse ∨ StoreStatus.empty = .full); decide)]
    exact ⟨env, rfl⟩
  | used full dt items e =>
    rw [ha] at hcb
    have hstore : (headed sector h (.used full dt items e)).store = if full then .full else .inUse := rfl
    have hstatus : (headed sector h (.used full dt items e)).store = .inUse ∨
        (headed sector h (.used full dt items e)).store = .full := by
      rw [hstore]
      cases full
      · exact .inl rfl
      · exact .inr rfl
    have hne : (headed sector h (.used full dt items e)).store ≠ .empty := by
      rw [hstore]
      cases full <;> decide
    have hfirst : (getNextEnvAddr (headed sector h (.used full dt items e)) {env with start := failedAddr}).run s = _ :=
      hr.getFirst ha rfl hne rfl
    obtain ⟨env', hrun⟩ := hr.iterateSector [] ha rfl hne hcb (hr.used ha).length_lt hfirst
    rw [if_pos hstatus, run_bind_of hrun]
    exact ⟨env', rfl⟩

/-- A walk whose callback only looks. -/
theorem Rep.iterateEnvs {callback : Callback EnvNode α} (hr : Rep S s)
    (hcb : ∀ h, ∀ y ∈ (S.area h).items, ∀ old, (callback (y.2.env y.1 old) arg).run s = some ((false, arg), s)) (env : EnvNode) :
    ∃ env', (envIterator callback env arg).run s = some ((env', arg), s) := by
  obtain ⟨env₀, hlow⟩ := hr.iterateRound false (hcb false) SectorMeta.fresh env
  obtain ⟨env₁, hhigh⟩ := hr.iterateRound true (hcb true) (headed SectorMeta.fresh false (S.area false)) env₀
  refine ⟨env₁, ?_⟩
  unfold envIterator
  rw [show rounds = 8189 + 1 + 1 + 1 from rfl, envIteratorFrom, if_neg (by decide),
    show getNextSectorAddr SectorMeta.fresh = base false from rfl, run_bind_of hlow]
  dsimp only
  rw [if_neg Bool.false_ne_true, envIteratorFrom, getNextSectorAddr_low rfl rfl, if_neg (by decide), run_bind_of hhigh]
  dsimp only
  rw [if_neg Bool.false_ne_true, envIteratorFrom, getNextSectorAddr_high rfl rfl, if_pos rfl]
  rfl

/-- Both sectors are handed to a callback that only looks. -/
theorem Rep.iterateHeaders {callback : Callback SectorMeta α} (hr : Rep S s)
    (hcb : ∀ h m, (callback (headed m h (S.area h)) arg).run s = some ((false, arg), s)) (sector : SectorMeta) :
    Ends (sectorIterator sector .unused arg callback false) s fun r s' => s' = s ∧ r.2 = arg := by
  refine Does.iterate sector (hr.visit (.inl rfl) (Runs.of_run (hcb false _) ?_))
  rw [if_neg Bool.false_ne_true]
  exact ⟨rfl, rfl, hr.visit (.inl rfl) (Runs.of_run (hcb true _) ⟨fun _ => ⟨rfl, rfl⟩, rfl, rfl⟩)⟩

/-! ### A chip that was left between two calls -/

theorem Ready.dirty_ne_gc (hs : Ready S h) (h' : Bool) : (S.area h').dirty ≠ .gc := by
  refine both (fun h' => (S.area h').dirty ≠ .gc) h ?_ ?_ h'
  · rcases hs.dirty with hd | hd <;> rw [hd] <;> decide
  · rw [hs.other]
    decide

theorem Ready.settled_all (hs : Ready S h) (h' : Bool) : ∀ y ∈ (S.area h').items, y.2.Settled := by
  refine both (fun h' => ∀ y ∈ (S.area h').items, y.2.Settled) h hs.settled ?_ h'
  rw [hs.other]
  exact nofun

/-- Nothing is to be recovered. -/
theorem run_checkAndRecoveryEnvCb {i : Item} (hi : i.Settled) (p : Nat) (old : EnvNode) (s : Store) :
    (checkAndRecoveryEnvCb (i.env p old) ()).run s = some ((false, ()), s) := by
  cases i with
  | torn st len => exact hi.elim
  | node n =>
    have hstate : n.state = .write ∨ n.state = .deleted := hi.imp_left n.state_written
    unfold checkAndRecoveryEnvCb
    rw [if_neg, if_neg]
    · rfl
    · show ¬ n.state = .preWrite
      rcases hstate with hn | hn <;> rw [hn] <;> decide
    · show ¬ (true = true ∧ n.state = .preDelete)
      rcases hstate with hn | hn <;> rw [hn] <;> decide

/-- The end of `ef_load_env`, with nothing to recover. -/
theorem Rep.recover (hr : Rep S s) (hs : Ready S h) (sector : SectorMeta) :
    Ends (do
      let _ ← sectorIterator sector .unused () checkAndRecoveryGcCb false
      recoverFrom rounds EnvNode.fresh
      modify fun s => {s with inRecoveryCheck := false}
      return EfErrCode.noErr) s fun r s' => r = .noErr ∧ Rep {S with inRecoveryCheck := false} s' := by
  have hgc : ∀ h m, (checkAndRecoveryGcCb (headed m h (S.area h)) ()).run s = some ((false, ()), s) := fun h' m => by
    unfold checkAndRecoveryGcCb
    rw [if_neg fun hc => hs.dirty_ne_gc h' hc.2]
    rfl
  obtain ⟨env', hrun⟩ : ∃ env', (envIterator checkAndRecoveryEnvCb EnvNode.fresh ()).run s = some ((env', ()), s) :=
    hr.iterateEnvs (fun h' y hy old => run_checkAndRecoveryEnvCb (hs.settled_all h' y hy) y.1 old s) EnvNode.fresh
  refine Runs.andThen (hr.iterateHeaders hgc sector) ?_
  rintro r s' ⟨rfl, -⟩
  refine Runs.andThen (R := fun _ s'' => s'' = s') ?_ ?_
  · rw [show rounds = 8191 + 1 from rfl, recoverFrom]
    refine Runs.look hrun (Runs.bind (Runs.get ?_))
    rw [if_neg]
    · exact Runs.pure rfl
    · rw [hr.gcRequest, hs.gcRequest]
      exact Bool.false_ne_true
  rintro _ s'' rfl
  exact Runs.bind (Runs.change rfl (Runs.pure ⟨rfl, hr.area, hr.sectors, hr.names, hr.initOk, hr.gcRequest, rfl, hr.lastIsCompleteDel⟩))

/-- What is known when the initialisation begins. -/
def State.booting (S : State) : State :=
  {S with loc := fun _ => none, initOk := false, gcRequest := false, inRecoveryCheck := true, lastIsCompleteDel := false}

/-- The state in which `ef_load_env` looks through the area. -/
def Store.loading (f : Flash) : Store :=
  {Store.reset f with
    inRecoveryCheck := true
    sectorCacheTable := (Store.reset f).sectorCacheTable.map fun x => {x with addr := failedAddr}
    envCacheTable := (Store.reset f).envCacheTable.map fun x => {x with addr := failedAddr}}

@[simp] theorem loading_flash (f : Flash) : (Store.loading f).flash = f := rfl

theorem loading_sectors (f : Flash) (T : Nat → Nat → Prop) : SectorCacheOk T (Store.loading f).sectorCacheTable := by
  have hall : ∀ x ∈ (Store.loading f).sectorCacheTable, x.addr = failedAddr := by
    intro x hx
    obtain ⟨y, -, rfl⟩ := List.mem_map.mp hx
    rfl
  exact ⟨fun x hx hne => absurd (hall x hx) hne, fun hx _ _ hne => absurd (hall _ (List.mem_of_getElem? hx)) hne⟩

theorem loading_names (f : Flash) (loc : List Byte → Option Nat) : EnvCacheOk loc (cacheKeys (Store.loading f).envCacheTable) := by
  have hall : ∀ x ∈ cacheKeys (Store.loading f).envCacheTable, x.2 = failedAddr := by
    intro x hx
    obtain ⟨y, hy, rfl⟩ := List.mem_map.mp hx
    obtain ⟨z, -, rfl⟩ := List.mem_map.mp hy
    rfl
  exact ⟨fun x hx hne => absurd (hall x hx) hne, fun _ _ hy _ => hall _ (List.mem_of_getElem? hy)⟩

theorem rep_loading (hf : S.On f) : Rep S.booting (Store.loading f) :=
  ⟨hf, loading_sectors f _, loading_names f _, rfl, rfl, rfl, rfl⟩

/-- The rest of the initialisation, from the store on in which the area is looked through. -/
theorem Does.init {defaults : List (List Byte × List Byte)}
    {Q : EfErrCode → Store → Prop} (hload : Ends (do
      let (sector, checkFailedCount) ← sectorIterator SectorMeta.fresh .unused 0 checkSecHdrCb false
      if checkFailedCount = sectorNum then
        let _ ← efEnvSetDefault defaults
      let _ ← sectorIterator sector .unused () checkAndRecoveryGcCb false
      recoverFrom rounds EnvNode.fresh
      modify fun s => {s with inRecoveryCheck := false}
      return EfErrCode.noErr) (Store.loading f) fun r s' => r = .noErr ∧ Q .noErr {s' with initOk := true}) :
    Ends (efEnvInit defaults) (Store.reset f) Q := by
  unfold efEnvInit efLoadEnv
  refine Runs.bind (Runs.get ?_)
  rw [if_neg (show ¬ (Store.reset f).initOk = true from Bool.false_ne_true)]
  refine Runs.bind (Runs.change rfl ?_)
  refine Runs.andThen (Runs.bind (Runs.change rfl hload)) ?_
  rintro r s' ⟨rfl, hq⟩
  rw [if_pos rfl]
  exact Runs.bind (Runs.change rfl (Runs.pure hq))

/-- A chip that was left between two calls is taken as it is. -/
theorem Does.restart (hf : S.On f) (hs : Ready S.booting h) (defaults : List (List Byte × List Byte)) :
    Ends (efEnvInit defaults) (Store.reset f) fun r s' => r = .noErr ∧
      Rep {S.booting with initOk := true, inRecoveryCheck := false} s' := by
  have hr := rep_loading hf
  refine Does.init (Runs.andThen (hr.iterateHeaders (fun _ _ => rfl) _) ?_)
  rintro ⟨sector, count⟩ s' ⟨rfl, hcount⟩
  obtain rfl : count = 0 := hcount
  dsimp only
  rw [if_neg (by decide)]
  refine (hr.recover hs sector).mono ?_
  rintro r s' ⟨rfl, hr'⟩
  exact ⟨rfl, rfl, hr'.area, hr'.sectors, hr'.names, rfl, hr'.gcRequest, hr'.inRecoveryCheck, hr'.lastIsCompleteDel⟩

/-! ### A chip without a header -/

/-- A sector without a header. -/
def NoHeader (f : Flash) (b : Nat) : Prop := le32 (f.read b sectorHdrDataSize) 4 ≠ sectorMagicWord

/-- A sector without a header is formatted. -/
theorem Does.checkNoHeader (hs : s.flash = f) (hno : NoHeader f (base h)) (sector : SectorMeta) (k : Nat)
    {Q : Bool × SectorMeta × Nat → Store → Prop} (hq : ∀ m past, m.addr = base h → m.combined = sectorNotCombined →
      Q (false, m, k + 1) {s with
        flash := formatted f (base h), past := past
        sectorCacheTable := updateSectorCacheTable (base h) (base h + 4096) s.sectorCacheTable}) :
    Ends (sectorIteratorRound .unused checkSecHdrCb false (base h) sector k) s Q := by
  subst hs
  have hbad : le32 (s.flash.read (base h) sectorHdrDataSize) 4 ≠ sectorMagicWord := hno
  have hread : (readSectorMetaData (base h) sector false).run s = some ((.envInitFailed, {sector with
      addr := base h, magic := le32 (s.flash.read (base h) sectorHdrDataSize) 4, checkOk := false, combined := sectorNotCombined}), s) := by
    unfold readSectorMetaData
    rw [if_neg (not_not_intro (base_mod h)), run_bind_of (run_efPortRead ..)]
    dsimp only
    rw [if_pos hbad]
    rfl
  unfold sectorIteratorRound
  refine Runs.look hread ?_
  dsimp only
  rw [if_pos (.inl rfl), if_neg Bool.false_ne_true]
  refine Runs.bind (Runs.pure (Runs.bind ?_))
  unfold checkSecHdrCb
  rw [if_neg Bool.false_ne_true]
  exact Runs.bind (Does.formatSector h trivial (fun _ _ => trivial) fun past => Runs.pure (Runs.pure (hq _ past rfl rfl)))

/-- Nothing is there. -/
def State.blank : State := State.booting ⟨fun _ => .empty, fun _ => none, false, false, false, false⟩

theorem ready_blank (h : Bool) : Ready State.blank h :=
  ⟨⟨rfl, .inl rfl, rfl, nofun, fun _ => nofun, List.nodup_nil, nofun, rfl⟩, (by decide : StoreStatus.empty ≠ .full), rfl⟩

/-- Where no sector has a header both are formatted. -/
theorem Does.checkNone (hno : ∀ h, NoHeader f (base h)) :
    Ends (sectorIterator SectorMeta.fresh .unused 0 checkSecHdrCb false) (Store.loading f) fun r s' =>
      r.2 = sectorNum ∧ Rep State.blank s' := by
  refine Does.iterate _ (Does.checkNoHeader (loading_flash f) (hno false) _ 0 fun m past haddr hcombined => ?_)
  rw [if_neg Bool.false_ne_true]
  have hsame : f.Same (formatted f (base false)) (base true) (base true + 4096) := same_formatted f false
  have hno' : NoHeader (formatted f (base false)) (base true) := by
    unfold NoHeader
    rw [← Flash.read_congr (hsame.mono (Nat.le_refl _) (by simp only [sectorHdrDataSize]; omega))]
    exact hno true
  refine ⟨haddr, hcombined, Does.checkNoHeader (f := formatted f (base false)) ?_ hno' _ _ fun m' past' haddr' hcombined' =>
    ⟨fun _ => ⟨haddr', hcombined'⟩, rfl, ?_⟩⟩
  · dsimp only
  have hlow : SecState.empty.Of (formatted (formatted f (base false)) (base true)) (base false) :=
    SecState.Of.congr (of_formatted f (base false)) (same_formatted _ true)
  have hboth : State.blank.On (formatted (formatted f (base false)) (base true)) :=
    both _ false hlow (of_formatted _ (base true))
  refine ⟨hboth, ?_, loading_names f _, rfl, rfl, rfl, rfl⟩
  have hdrop : ∀ (h : Bool) {table : List SectorCacheNode}, SectorCacheOk (fun _ _ => False) table →
      SectorCacheOk (fun _ _ => False) (updateSectorCacheTable (base h) (base h + 4096) table) := fun h _ hok =>
    hok.drop (fun hc => Nat.lt_irrefl _ hc.2) fun _ _ _ hc => hc
  exact (hdrop true (hdrop false (loading_sectors f _))).mono fun _ _ hc => hc.elim

/-- Where there is space the place of a node is found without a collection. -/
theorem Rep.placesNew (hr : Rep S s) (hs : Ready S h) (hfit : S.Fitting h size) (hsize : size < 4080) {sector : SectorMeta}
    (hempty : sector.emptyEnv = failedAddr) :
    ∃ t, Ready S t ∧ S.Fitting t size ∧ Places (fun _ => True) S s t sector size := by
  have hge := (hr.area h).next_gt
  obtain ⟨t, hpick, hs', hfit'⟩ := hs.pick hfit (by omega)
  refine ⟨t, hs', hfit', ?_⟩
  unfold Places
  rw [if_neg (not_not_intro hempty)]
  unfold EasyFlash.newEnv
  refine Runs.andThen (hr.alloc hsize sector) ?_
  rintro r s₁ ⟨hr₁, hres⟩
  rw [afterAlloc_of_some hpick] at hr₁
  rw [hpick] at hres
  obtain rfl : r = _ := hres
  refine Runs.bind (Runs.get ?_)
  rw [if_neg fun hc => next_ne_failed hr₁ t hc.1]
  exact Runs.pure ⟨hr₁, rfl, fits_traversed t _⟩

/-- The nodes of the defaults. -/
def defaultNodes (defaults : List (List Byte × List Byte)) : List Node := defaults.map fun d => Node.new d.1 d.2

/-- The defaults are created one after the other. -/
theorem Rep.createDefaults {defaults : List (List Byte × List Byte)} (hr : Rep S s) (hs : Ready S h)
    (hclean : ∀ h', (S.area h').dirty = .false) (hK : Names K) (hkeys : ∀ d ∈ defaults, d.1 ∈ K)
    (hcap : cost S.live + ((defaultNodes defaults).map Node.size).sum ≤ 3928)
    (hnodup : ((defaultNodes defaults ++ S.nodes).map Node.name).Nodup) :
    Ends (createDefaults defaults) s fun _ s' => ∃ S' t, Rep S' s' ∧ Ready S' t ∧ S'.Like S ∧
      S'.nodes.Perm (defaultNodes defaults ++ S.nodes) := by
  induction defaults generalizing S s h with
  | nil => exact Runs.pure ⟨S, h, hr, hs, ⟨rfl, rfl⟩, List.Perm.refl _⟩
  | cons d defaults ih =>
    obtain ⟨key, value⟩ := d
    obtain ⟨hkey, hrest⟩ := List.forall_mem_cons.mp hkeys
    replace hkey : key ∈ K := hkey
    have hnodes : defaultNodes ((key, value) :: defaults) = Node.new key value :: defaultNodes defaults := rfl
    rw [hnodes, List.map_cons, List.sum_cons] at hcap
    have hfit : S.Fitting h (Node.new key value).size := by
      have htight := hs.tight
      rw [SecState.Tight, span_eq_cost (hs.clean (hclean h)), ← cost_perm hs.live] at htight
      unfold State.Fitting
      omega
    obtain ⟨t, ht, hfit', hplace⟩ : ∃ t, Ready S t ∧ S.Fitting t (Node.new key value).size ∧
        Places (fun _ => True) S s t {SectorMeta.fresh with emptyEnv := failedAddr} (Node.new key value).size :=
      hr.placesNew hs hfit (by omega) rfl
    have hnot : ∀ q ∈ S.live, q.2.name ≠ key := by
      rw [hnodes, List.cons_append, List.map_cons, List.nodup_cons] at hnodup
      exact fun q hq hname => hnodup.1 (List.mem_map.mpr ⟨q.2, List.mem_append_right _ (List.mem_map_of_mem hq), hname⟩)
    unfold EasyFlash.createDefaults
    refine Runs.andThen (hr.setFresh ht (Node.new_ok hK hkey (by omega)) (by omega) hnot hfit' hplace) ?_
    rintro r s₁ ⟨-, S₁, hr₁, hs₁, hstatus₁, hdirty₁, hsame₁, hlike₁, hnodes₁⟩
    have hreq₁ : S₁.gcRequest = false := by
      refine Bool.eq_false_iff.mpr fun hreq => ?_
      have := (hclean t).symm.trans (hdirty₁ hreq)
      cases this
    have hclean₁ : ∀ h', (S₁.area h').dirty = .false :=
      both _ t (hsame₁.trans (hclean t)) (by rw [hs₁.other]; rfl)
    have hperm : (defaultNodes defaults ++ S₁.nodes).Perm (defaultNodes ((key, value) :: defaults) ++ S.nodes) := by
      refine (hnodes₁.append_left _).trans ?_
      rw [hnodes]
      exact List.perm_middle
    have hcap₁ : cost S₁.live + ((defaultNodes defaults).map Node.size).sum ≤ 3928 := by
      rw [cost_nodes, (hnodes₁.map Node.size).sum_nat, List.map_cons, List.sum_cons, ← cost_nodes]
      omega
    refine (ih hr₁ ⟨hs₁, hstatus₁ hreq₁, hreq₁⟩ hclean₁ hrest hcap₁ ((hperm.map Node.name).nodup_iff.mpr hnodup)).mono ?_
    rintro _ s₂ ⟨S₂, t₂, hr₂, hs₂, hlike₂, hnodes₂⟩
    exact ⟨S₂, t₂, hr₂, hs₂, hlike₂.trans hlike₁, hnodes₂.trans hperm⟩

theorem put_blank (h : Bool) : State.blank.put h .empty = State.blank := State.put_self State.blank h

/-- `ef_env_set_default` on an area that is empty already. -/
theorem Rep.setDefault {defaults : List (List Byte × List Byte)} (hr : Rep State.blank s) (hne : defaults ≠ []) (hK : Names K)
    (hkeys : ∀ d ∈ defaults, d.1 ∈ K) (hcap : ((defaultNodes defaults).map Node.size).sum ≤ 3928)
    (hnodup : ((defaultNodes defaults).map Node.name).Nodup) :
    Ends (efEnvSetDefault defaults) s fun _ s' => ∃ S' t, Rep S' s' ∧ Ready S' t ∧ S'.Like State.blank ∧
      S'.nodes.Perm (defaultNodes defaults) := by
  have hformat : Ends (formatSectors sectorNum envStartAddr) s fun r s' => r = .noErr ∧ Rep State.blank s' := by
    rw [show sectorNum = 1 + 1 from rfl, formatSectors]
    refine Runs.andThen (hr.format false) ?_
    rintro r s₁ ⟨rfl, hr₁⟩
    rw [put_blank] at hr₁
    rw [if_neg (not_not_intro rfl), show (1 : Nat) = 0 + 1 from rfl, formatSectors]
    refine Runs.andThen (hr₁.format true) ?_
    rintro r s₂ ⟨rfl, hr₂⟩
    rw [put_blank] at hr₂
    rw [if_neg (not_not_intro rfl)]
    exact Runs.pure ⟨rfl, hr₂⟩
  unfold efEnvSetDefault
  rw [if_neg hne]
  refine Runs.andThen hformat ?_
  rintro r s₁ ⟨rfl, hr₁⟩
  rw [if_neg (not_not_intro rfl)]
  have hnil : State.blank.nodes = [] := rfl
  refine Runs.andThen (hr₁.createDefaults (ready_blank false) (fun _ => rfl) hK hkeys (by rwa [show cost State.blank.live = 0 from rfl, Nat.zero_add])
    (by rwa [hnil, List.append_nil])) ?_
  rintro _ s₂ ⟨S', t, hr', hs', hlike, hnodes⟩
  rw [hnil, List.append_nil] at hnodes
  exact Runs.pure ⟨S', t, hr', hs', hlike, hnodes⟩

/-- A chip without a header is formatted, and gets the defaults. -/
theorem Does.firstBoot {defaults : List (List Byte × List Byte)} (hno : ∀ h, NoHeader f (base h)) (hne : defaults ≠ []) (hK : Names K)
    (hkeys : ∀ d ∈ defaults, d.1 ∈ K) (hcap : ((defaultNodes defaults).map Node.size).sum ≤ 3928)
    (hnodup : ((defaultNodes defaults).map Node.name).Nodup) :
    Ends (efEnvInit defaults) (Store.reset f) fun r s' => r = .noErr ∧ ∃ S' t, Rep S' s' ∧ Ready S' t ∧
      S'.initOk = true ∧ S'.inRecoveryCheck = false ∧ S'.nodes.Perm (defaultNodes defaults) := by
  refine Does.init (Runs.andThen (Does.checkNone hno) ?_)
  rintro ⟨sector, count⟩ s₁ ⟨hcount, hr₁⟩
  obtain rfl : count = sectorNum := hcount
  dsimp only
  rw [if_pos rfl]
  refine Runs.andThen (hr₁.setDefault hne hK hkeys hcap hnodup) ?_
  rintro _ s₂ ⟨S', t, hr₂, hs₂, hlike, hnodes⟩
  refine (hr₂.recover hs₂ sector).mono ?_
  rintro r s₃ ⟨rfl, hr₃⟩
  refine ⟨rfl, rfl, {S' with inRecoveryCheck := false, initOk := true}, t, ?_, ?_, rfl, rfl, hnodes⟩
  · exact ⟨hr₃.area, hr₃.sectors, hr₃.names, rfl, hr₃.gcRequest, hr₃.inRecoveryCheck, hr₃.lastIsCompleteDel⟩
  · exact ⟨⟨hs₂.other, hs₂.dirty, hs₂.tight, hs₂.settled, hs₂.clean, hs₂.unique, hs₂.placed, hs₂.lastIsCompleteDel⟩,
      hs₂.status, hs₂.gcRequest⟩

end Backwash.EasyFlash
