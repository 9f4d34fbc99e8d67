import Backwash.EasyFlash.Area
import Backwash.Storage.Runs

/-! What walks through the area find.

The space a sector leaves is what lies behind the last item; the node of a name is the first
that is written under it and not deleted. The cache only shortens the search. -/
namespace Backwash.EasyFlash
open Storage

variable {S : State} {s : Store} {C : Flash → Prop} {h full : Bool} {x : SecState} {dt : DirtyStatus} {items done rest : Items}
  {e p : Nat} {i : Item} {sector : SectorMeta} {key : List Byte}

/-! ### Space -/

theorem Rep.traverse (hr : Rep S s) (sector : SectorMeta) (done : Items) (ha : S.area h = .used full dt (done ++ rest) e) (hsec : sector.addr = base h)
    (hstore : sector.store ≠ .empty) {fuel : Nat} (hfuel : rest.length < fuel) {env : EnvNode}
    (hnext : (getNextEnvAddr sector env).run s = some (nextAddr rest, s)) (hremain : span rest ≤ sector.remain)
    (hlt : sector.remain < 2 ^ 32) :
    (traverseFrom fuel sector env).run s = some ((.noErr,
      {sector with emptyEnv := sector.emptyEnv + span rest, remain := sector.remain - span rest}), s) := by
  induction rest generalizing done sector fuel env with
  | nil =>
    obtain ⟨fuel, rfl⟩ : ∃ n, fuel = n + 1 := ⟨fuel - 1, by omega⟩
    rw [traverseFrom, run_bind_of hnext, if_pos (show nextAddr [] = failedAddr from rfl)]
    rfl
  | cons x rest ih =>
    obtain ⟨p, i⟩ := x
    obtain ⟨fuel, rfl⟩ : ∃ n, fuel = n + 1 := ⟨fuel - 1, by omega⟩
    obtain ⟨r, hread⟩ := hr.readItem ha env
    have hok : ¬ (¬ (i.env p env).crcIsOk = true ∧ (i.env p env).status ≠ .preWrite ∧ (i.env p env).status ≠ .errHdr) := by
      have hi := (hr.used ha).walk.split.1
      cases i with
      | node n => exact fun hc => hc.1 rfl
      | torn ts len => exact fun hc => hi.settled.elim hc.2.1 hc.2.2
    have hlen : (i.env p env).len = i.len := by cases i <;> rfl
    rw [span_cons] at hremain
    simp only at hremain
    have hsub : sub32 sector.remain i.len = sector.remain - i.len := by
      simp only [sub32]
      omega
    have ha' : S.area h = .used full dt ((done ++ [(p, i)]) ++ rest) e := by rw [ha, List.append_assoc]; rfl
    have hih := ih {sector with emptyEnv := sector.emptyEnv + i.len, remain := sector.remain - i.len}
      (done ++ [(p, i)]) ha' hsec hstore (show rest.length < fuel by simp only [List.length_cons] at hfuel; omega)
      (hr.getNext_env ha hsec hstore env) (by simp only; omega) (by simp only; omega)
    rw [traverseFrom, run_bind_of hnext, nextAddr_cons, if_neg (hr.nextAddr_ne ha), run_bind_of hread]
    dsimp only
    rw [if_neg hok, hlen, hsub, hih, span_cons]
    simp only [Nat.add_assoc, Nat.sub_sub]

/-- A sector with the space it leaves. -/
def traversed (h : Bool) (x : SecState) : SectorMeta :=
  ⟨true, x.status, x.dirty, base h, sectorMagicWord, sectorNotCombined, 4096 - (x.next (base h) - base h), x.next (base h)⟩

/-- The address where a sector goes on is cached. -/
theorem Rep.cacheSector (hr : Rep S s) (ha : S.area h = .used false dt items e) :
    Rep S {s with sectorCacheTable := updateSectorCacheTable (base h) e s.sectorCacheTable} := by
  refine ⟨hr.area, ?_, hr.names, hr.initOk, hr.gcRequest, hr.inRecoveryCheck, hr.lastIsCompleteDel⟩
  by_cases hin : base h < e ∧ e < base h + sectorSize
  · exact hr.sectors.update hin ⟨h, dt, items, rfl, ha⟩ fun _ _ _ hc => hc
  · exact hr.sectors.drop hin fun _ _ _ hc => hc

theorem Rep.traverseUsed (hr : Rep S s) (ha : S.area h = .used false dt items e)
    (sector : SectorMeta) (haddr : sector.addr = base h) (hstore : sector.store = .inUse) :
    Does C (traverseSector sector) s fun r s' =>
      r = (.noErr, {sector with remain := 4096 - (e - base h), emptyEnv := e}) ∧ Rep S s' := by
  obtain ⟨checkOk, store, dirty, addr, magic, combined, remain, emptyEnv⟩ := sector
  obtain rfl : addr = base h := haddr
  obtain rfl : store = .inUse := hstore
  have hused := hr.used ha
  have hstart := hused.start_le
  have hle := hused.le
  have hspan := hused.span_eq
  have hb := base_le h
  have hsub : sub32 sectorSize (sub32 e (base h)) = 4096 - (e - base h) := by
    simp only [sub32, sectorSize]
    omega
  have hrun : (traverseSector ⟨checkOk, .inUse, dirty, base h, magic, combined, remain, emptyEnv⟩).run s = _ :=
    run_bind_of (run_getSectorFromCache s (base h))
  cases hcache : (s.sectorCacheTable.find? fun x => x.addr = base h).map SectorCacheNode.emptyAddr with
  | some a =>
    obtain ⟨h', dt', items', hbase, ha'⟩ := hr.sectors.find (by simp only [failedAddr]; omega) hcache
    obtain rfl := base_injective hbase
    rw [ha] at ha'
    cases ha'
    rw [hcache] at hrun
    exact Runs.of_run hrun ⟨by rw [hsub], hr⟩
  | none =>
    rw [hcache] at hrun
    have hfirst : (getNextEnvAddr ⟨checkOk, .inUse, dirty, base h, magic, combined, 4080, base h + 16⟩ EnvNode.fresh).run s = _ :=
      hr.getFirst ha rfl (show StoreStatus.inUse ≠ .empty by decide) rfl
    have htraverse := hr.traverse _ [] ha rfl (show StoreStatus.inUse ≠ .empty by decide) hused.length_lt hfirst (by simp only; omega) (by simp only; omega)
    have hff := continueFfAddr_run (s := s) (show base h + 16 + span items ≤ e by omega) hle
      hused.blank (fun hlt => hspan.elim (fun heq => by omega) fun hlast => hlast.2) (by simp only [rounds, envAreaSize]; omega)
    refine ⟨_, _, hrun.trans ((run_bind_of htraverse).trans ((run_bind_of hff).trans ?_)),
      ⟨rfl, hr.cacheSector ha⟩, fun _ hx => .inl hx⟩
    dsimp only
    by_cases heq : base h + 16 + span items = e
    · rw [if_neg (not_not_intro heq), heq]
      have hremain : 4080 - span items = 4096 - (e - base h) := by omega
      rw [hremain]
      rfl
    · rw [if_pos heq, hsub]
      rfl

/-- A sector that takes nodes is gone through. -/
theorem Rep.readUsed (hr : Rep S s) (ha : S.area h = .used false dt items e) (sector : SectorMeta) :
    Does C (readSectorMetaData (base h) sector true) s fun r s' => r = (.noErr, traversed h (S.area h)) ∧ Rep S s' := by
  obtain ⟨r, s', hrun, ⟨rfl, hr'⟩, hpast⟩ := hr.traverseUsed (C := C) ha (headed sector h (S.area h)) rfl (by rw [ha]; rfl)
  refine ⟨_, s', (hr.readSector h sector true).trans hrun, ⟨?_, hr'⟩, hpast⟩
  rw [ha]
  rfl

theorem Rep.readEmpty (hr : Rep S s) (ha : S.area h = .empty) (sector : SectorMeta) :
    (readSectorMetaData (base h) sector true).run s = some ((.noErr, traversed h .empty), s) := by
  have hremain : 4096 - (base h + 16 - base h) = 4080 := by omega
  rw [hr.readSector h sector true, ha, traversed, SecState.next, hremain]
  rfl

/-! ### Names -/

/-- The first node that is written under a name. -/
def locate (key : List Byte) : Items → Option (Nat × Node)
  | [] => none
  | (p, .node n) :: rest => if n.state = .write ∧ n.name = key then some (p, n) else locate key rest
  | (_, .torn _ _) :: rest => locate key rest

def locateIn (area : Bool → SecState) (key : List Byte) : Option (Nat × Node) :=
  (locate key (area false).items).or (locate key (area true).items)

theorem locate_spec {q : Nat × Node} (hl : locate key items = some q) :
    (q.1, Item.node q.2) ∈ items ∧ q.2.state = .write ∧ q.2.name = key := by
  fun_induction locate key items with
  | case1 => cases hl
  | case2 p n rest hn =>
    cases hl
    exact ⟨List.mem_cons_self .., hn⟩
  | case3 p n rest hn ih =>
    obtain ⟨hmem, hq⟩ := ih hl
    exact ⟨List.mem_cons_of_mem _ hmem, hq⟩
  | case4 p st len rest ih =>
    obtain ⟨hmem, hq⟩ := ih hl
    exact ⟨List.mem_cons_of_mem _ hmem, hq⟩

theorem findEnvCb_node (hkey : ∀ b ∈ key, b ≠ 0) (n : Node) (p : Nat) :
    findEnvCb key (n.env p) false = (if n.state = .write ∧ n.name = key then return (true, true) else return (false, false)) := by
  unfold findEnvCb
  by_cases hlen : key.length = n.name.length
  · have hcmp : strncmpEq n.name key key.length = true ↔ n.name = key := strncmpEq_iff hlen.symm rfl hkey
    rw [if_neg (show ¬ key.length ≠ (n.env p).nameLen from not_not_intro hlen)]
    by_cases hn : n.state = .write ∧ n.name = key
    · rw [if_pos hn, if_pos ⟨rfl, hn.1, hcmp.mpr hn.2⟩]
    · rw [if_neg hn, if_neg fun hc => hn ⟨hc.2.1, hcmp.mp hc.2.2⟩]
  · rw [if_pos (show key.length ≠ (n.env p).nameLen from hlen), if_neg fun hn => hlen (congrArg _ hn.2.symm)]

theorem findEnvCb_torn (st : EnvStatus) (len : Nat) (old : EnvNode) :
    findEnvCb key ((Item.torn st len).env p old) false = (return (false, false)) := by
  unfold findEnvCb
  split
  · rfl
  · exact if_neg fun hc => Bool.false_ne_true hc.1

/-- A sector is searched for a name. -/
theorem Rep.findSector (hr : Rep S s) (hkey : ∀ b ∈ key, b ≠ 0) (done : Items) (ha : S.area h = .used full dt (done ++ rest) e)
    (hsec : sector.addr = base h) (hstore : sector.store ≠ .empty) {fuel : Nat} (hfuel : rest.length < fuel) {env : EnvNode}
    (hnext : (getNextEnvAddr sector env).run s = some (nextAddr rest, s)) :
    ∃ env', (envIteratorSector (findEnvCb key) sector fuel env false).run s =
        some (((locate key rest).isSome, env', (locate key rest).isSome), s) ∧
      ∀ q, locate key rest = some q → env' = q.2.env q.1 := by
  induction rest generalizing done fuel env with
  | nil =>
    obtain ⟨fuel, rfl⟩ : ∃ n, fuel = n + 1 := ⟨fuel - 1, by omega⟩
    refine ⟨{env with start := failedAddr}, ?_, nofun⟩
    rw [envIteratorSector, run_bind_of hnext, if_pos (show nextAddr [] = failedAddr from rfl)]
    rfl
  | cons x rest ih =>
    obtain ⟨p, i⟩ := x
    obtain ⟨fuel, rfl⟩ : ∃ n, fuel = n + 1 := ⟨fuel - 1, by omega⟩
    obtain ⟨r, hread⟩ := hr.readItem ha env
    have ha' : S.area h = .used full dt ((done ++ [(p, i)]) ++ rest) e := by rw [ha, List.append_assoc]; rfl
    obtain ⟨env', hrun, henv⟩ := ih (done ++ [(p, i)]) ha' (show rest.length < fuel by simp only [List.length_cons] at hfuel; omega)
      (hr.getNext_env ha hsec hstore env)
    rw [envIteratorSector, run_bind_of hnext, nextAddr_cons, if_neg (hr.nextAddr_ne ha), run_bind_of hread]
    dsimp only
    cases i with
    | torn ts len =>
      rw [findEnvCb_torn, locate]
      exact ⟨env', hrun, henv⟩
    | node n =>
      rw [show (Item.node n).env p env = n.env p from rfl] at hrun ⊢
      rw [findEnvCb_node hkey, locate]
      by_cases hn : n.state = .write ∧ n.name = key
      · rw [if_pos hn, if_pos hn]
        exact ⟨n.env p, rfl, fun q hq => by cases hq; rfl⟩
      · rw [if_neg hn, if_neg hn]
        exact ⟨env', hrun, henv⟩

/-- One sector of the search. -/
theorem Rep.findRound (hr : Rep S s) (hkey : ∀ b ∈ key, b ≠ 0) (h : Bool) (sector : SectorMeta) (env : EnvNode) :
    ∃ env', (envIteratorRound (findEnvCb key) (base h) sector env false).run s =
        some (((locate key (S.area h).items).isSome, headed sector h (S.area h), env', (locate key (S.area h).items).isSome), s) ∧
      ∀ q, locate key (S.area h).items = some q → env' = q.2.env q.1 := by
  unfold envIteratorRound
  rw [run_bind_of (hr.readHeader h sector)]
  dsimp only
  rw [if_neg (by decide)]
  cases ha : S.area h with
  | empty =>
    rw [if_neg (by show ¬ (StoreStatus.empty = .inUse ∨ StoreStatus.empty = .full); decide)]
    exact ⟨env, rfl, nofun⟩
  | used full dt items e =>
    have hstore : (headed sector h (.used full dt items e)).store = if full then .full else .inUse := rfl
    have hstatus : (headed sector h (.used full dt items e)).store = .inUse ∨
        (headed sector h (.used full dt items e)).store = .full := by
      rw [hstore]
      cases full
      · exact .inl rfl
      · exact .inr rfl
    have hne : (headed sector h (.used full dt items e)).store ≠ .empty := by
      rw [hstore]
      cases full <;> decide
    obtain ⟨env', hrun, henv⟩ := hr.findSector hkey [] ha rfl hne (hr.used ha).length_lt
      (show (getNextEnvAddr _ {env with start := failedAddr}).run s = _ from hr.getFirst ha rfl hne rfl)
    rw [if_pos hstatus, run_bind_of hrun]
    exact ⟨env', rfl, henv⟩

/-- The search without the cache finds the node that is written under the name. -/
theorem Rep.findNoCache (hr : Rep S s) (hkey : ∀ b ∈ key, b ≠ 0) (env : EnvNode) :
    ∃ env', (findEnvNoCache key env).run s = some (((locateIn S.area key).isSome, env'), s) ∧
      ∀ q, locateIn S.area key = some q → env' = q.2.env q.1 := by
  obtain ⟨env₀, hlow, henv₀⟩ := hr.findRound hkey false SectorMeta.fresh env
  obtain ⟨env₁, hhigh, henv₁⟩ := hr.findRound hkey true (headed SectorMeta.fresh false (S.area false)) env₀
  have hiter : ∃ env', (envIterator (findEnvCb key) env false).run s =
      some ((env', (locateIn S.area key).isSome), s) ∧ ∀ q, locateIn S.area key = some q → env' = q.2.env q.1 := by
    unfold envIterator
    rw [show rounds = 8189 + 1 + 1 + 1 from rfl, envIteratorFrom, if_neg (by decide),
      show getNextSectorAddr SectorMeta.fresh = base false from rfl, run_bind_of hlow]
    dsimp only
    cases hl : locate key (S.area false).items with
    | some q =>
      refine ⟨env₀, ?_, ?_⟩
      · rw [locateIn, hl]
        rfl
      · rw [locateIn, hl]
        exact fun q' hq => henv₀ q' (hl.trans hq)
    | none =>
      rw [if_neg (by decide), envIteratorFrom, getNextSectorAddr_low rfl rfl, if_neg (by decide), Option.isSome_none, run_bind_of hhigh]
      dsimp only
      rw [locateIn, hl, Option.none_or]
      cases hl' : locate key (S.area true).items with
      | some q => exact ⟨env₁, rfl, fun q' hq => henv₁ q' (hl'.trans hq)⟩
      | none =>
        rw [if_neg (by decide), envIteratorFrom, getNextSectorAddr_high rfl rfl, if_pos rfl]
        exact ⟨env₁, rfl, nofun⟩
  obtain ⟨env', hrun, henv⟩ := hiter
  unfold findEnvNoCache
  rw [run_bind_of hrun]
  exact ⟨env', rfl, henv⟩

/-! ### The search with the cache -/

/-- The cache knows no place but that of a node that is written. -/
def State.Fresh (S : State) : Prop := ∀ k p, S.loc k = some p → ∃ n, locateIn S.area k = some (p, n)

/-- A name is told from the others by its checksum. -/
def State.Told (S : State) (key : List Byte) : Prop := ∀ k, S.loc k ≠ none → nameCrc k = nameCrc key → k = key

theorem locateIn_spec {area : Bool → SecState} {q : Nat × Node} (hl : locateIn area key = some q) :
    ∃ h, (q.1, Item.node q.2) ∈ (area h).items ∧ q.2.state = .write ∧ q.2.name = key := by
  rcases Option.or_eq_some_iff.mp hl with hl | ⟨-, hl⟩
  · exact ⟨false, locate_spec hl⟩
  · exact ⟨true, locate_spec hl⟩

/-- An item that is known of is on the chip. -/
theorem Rep.shows (hr : Rep S s) (hmem : (p, i) ∈ (S.area h).items) : i.Shows s.flash p := by
  cases ha : S.area h with
  | empty =>
    rw [ha] at hmem
    cases hmem
  | used full dt items e =>
    rw [ha] at hmem
    exact ((hr.used ha).walk.mem _ hmem).2.2

theorem Rep.setNames (hr : Rep S s) {loc : List Byte → Option Nat} {table : List EnvCacheNode}
    (hn : EnvCacheOk loc (cacheKeys table)) : Rep {S with loc := loc} {s with envCacheTable := table} :=
  ⟨hr.area, hr.sectors, hn, hr.initOk, hr.gcRequest, hr.inRecoveryCheck, hr.lastIsCompleteDel⟩

/-- The search finds the node that is written under the name, from the cache or without it. -/
theorem Rep.find (hr : Rep S s) (hkey : ∀ b ∈ key, b ≠ 0) (htold : S.Told key) (hfresh : S.Fresh) (env : EnvNode) :
    Does C (findEnv key env) s fun r s' => (∃ loc, Rep {S with loc := loc} s' ∧ ({S with loc := loc} : State).Fresh) ∧
      r.1 = (locateIn S.area key).isSome ∧ ∀ q, locateIn S.area key = some q → r.2 = q.2.env q.1 := by
  rcases getEnvFromCacheFrom_spec s.flash hr.names htold s.envCacheTable (i := 0) rfl with hmiss | ⟨p, table, hloc, hkeys, hhit⟩
  · have hcache : (getEnvFromCache key).run s = some (none, s) := by
      unfold getEnvFromCache
      rw [run_bind_of (show (get : Code Store).run s = some (s, s) from rfl), hmiss]
      rfl
    obtain ⟨env', hrun, henv⟩ := hr.findNoCache hkey env
    cases hl : locateIn S.area key with
    | none =>
      refine Runs.of_run (a := (false, env')) ?_ ⟨⟨S.loc, hr, hfresh⟩, rfl, nofun⟩
      unfold findEnv
      rw [run_bind_of hcache, run_bind_of hrun, hl]
      rfl
    | some q =>
      obtain rfl := henv q hl
      have hq : q.1 ≠ failedAddr := by
        obtain ⟨h, hmem, -⟩ := locateIn_spec hl
        cases ha : S.area h with
        | empty =>
          rw [ha] at hmem
          cases hmem
        | used full dt items e =>
          rw [ha] at hmem
          obtain ⟨done, rest, hsplit⟩ := List.append_of_mem hmem
          have ha' : S.area h = .used full dt (done ++ (q.1, Item.node q.2) :: rest) e := by
            rw [ha]
            exact congrArg (fun l => SecState.used full dt l e) hsplit
          exact hr.nextAddr_ne ha'
      refine ⟨(true, q.2.env q.1), {s with envCacheTable := updateEnvCacheTable key q.1 s.envCacheTable}, ?_,
        ⟨⟨_, hr.setNames (hr.names.update hq), ?_⟩, rfl, fun q' hq' => by cases hq'; rfl⟩, fun _ hx => .inl hx⟩
      · unfold findEnv
        rw [run_bind_of hcache, run_bind_of hrun, hl]
        rfl
      · intro k p hp
        by_cases hk : k = key
        · subst hk
          have hp' : some q.1 = some p := (Function.update_self k (some q.1) S.loc).symm.trans hp
          cases hp'
          exact ⟨q.2, hl⟩
        · exact hfresh k p ((Function.update_of_ne hk (some q.1) S.loc).symm.trans hp)
  · have hcache : (getEnvFromCache key).run s = some (some p, {s with envCacheTable := table}) := by
      unfold getEnvFromCache
      rw [run_bind_of (show (get : Code Store).run s = some (s, s) from rfl), hhit]
      rfl
    obtain ⟨n, hl⟩ := hfresh key p hloc
    obtain ⟨h, hmem, -⟩ := locateIn_spec hl
    obtain ⟨hbytes, hok⟩ := hr.shows hmem
    have hread := readEnv_node (s := {s with envCacheTable := table}) hok hbytes env
    refine ⟨(true, n.env p), {s with envCacheTable := table}, ?_, ⟨⟨S.loc, hr.setNames (hkeys ▸ hr.names), hfresh⟩, ?_, ?_⟩,
      fun _ hx => .inl hx⟩
    · unfold findEnv
      rw [run_bind_of hcache, run_bind_of hread]
      rfl
    · rw [hl]
      rfl
    · intro q hq
      rw [hl] at hq
      cases hq
      rfl

end Backwash.EasyFlash
