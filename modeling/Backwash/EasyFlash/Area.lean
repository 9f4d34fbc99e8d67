import Backwash.EasyFlash.Sector

/-! The area: two sectors, each empty or in use.

`Rep S s` ties the state of the library to what it stands for: how the items lie in the two
sectors, and where the names are that the cache may answer for. Under it the functions that
only look find what is there. -/
namespace Backwash.EasyFlash
open Storage

/-- Where the two sectors begin. -/
def base (h : Bool) : Nat := if h then 4096 else 0

/-- The byte of a dirty status, reached bit by bit. -/
def DirtyStatus.byte : DirtyStatus → Byte
  | .unused => 0xFF
  | .false => 0x7F
  | .true => 0x3F
  | .gc => 0x1F

theorem DirtyStatus.ofIndex_byte (d : DirtyStatus) : DirtyStatus.ofIndex (getStatus [d.byte] DirtyStatus.num) = d := by
  cases d <;> decide

/-- A sector in use takes nodes or is full. -/
def usedByte (full : Bool) : Byte := if full then 0x1F else 0x3F

inductive SecState
  | empty
  | used (full : Bool) (dirty : DirtyStatus) (items : Items) (e : Nat)

namespace SecState

def store : SecState → Byte
  | empty => 0x7F
  | used full _ _ _ => usedByte full

def status : SecState → StoreStatus
  | empty => .empty
  | used full _ _ _ => if full then .full else .inUse

def dirty : SecState → DirtyStatus
  | empty => .false
  | used _ dirty _ _ => dirty

def items : SecState → Items
  | empty => []
  | used _ _ items _ => items

/-- Where the next node goes in the sector at `b`. -/
def next (b : Nat) : SecState → Nat
  | empty => b + 16
  | used _ _ _ e => e

/-- The bytes at `b` are such a sector. -/
def Of (f : Flash) (b : Nat) : SecState → Prop
  | empty => f.Holds b (0x7F :: 0x7F :: sectorHdrRest) ∧ f.Blank (b + 16) (b + 4096)
  | used full dirty items e => Used f b (usedByte full) dirty.byte items e

theorem status_eq (x : SecState) : StoreStatus.ofIndex (getStatus [x.store] StoreStatus.num) = x.status := by
  have hused : ∀ full, StoreStatus.ofIndex (getStatus [usedByte full] StoreStatus.num) = if full then .full else .inUse := by
    decide
  cases x with
  | empty => exact (by decide : StoreStatus.ofIndex (getStatus [0x7F] StoreStatus.num) = .empty)
  | used full dirty items e => exact hused full

end SecState

/-- What the library knows. -/
structure State where
  area : Bool → SecState
  loc : List Byte → Option Nat
  initOk : Bool
  gcRequest : Bool
  inRecoveryCheck : Bool
  lastIsCompleteDel : Bool

/-- The erased bytes of the sector at `a`, which takes nodes, begin at `x`. -/
def Cached (area : Bool → SecState) (a x : Nat) : Prop :=
  ∃ h dirty items, a = base h ∧ area h = .used false dirty items x

structure Rep (S : State) (s : Store) : Prop where
  area : ∀ h, (S.area h).Of s.flash (base h)
  sectors : SectorCacheOk (Cached S.area) s.sectorCacheTable
  names : EnvCacheOk S.loc (cacheKeys s.envCacheTable)
  initOk : s.initOk = S.initOk
  gcRequest : s.gcRequest = S.gcRequest
  inRecoveryCheck : s.inRecoveryCheck = S.inRecoveryCheck
  lastIsCompleteDel : s.lastIsCompleteDel = S.lastIsCompleteDel

/-- What a program does to a store; `C` holds of what the chip is like on the way. -/
abbrev Does {α : Type} (C : Flash → Prop) (p : Code α) (s : Store) (Q : α → Store → Prop) : Prop :=
  Runs Store.past C p s Q

variable {S : State} {s : Store} {C : Flash → Prop} {h full : Bool} {x : SecState} {dt : DirtyStatus} {items done rest : Items}
  {e p : Nat} {i : Item} {sector : SectorMeta}

theorem base_mod (h : Bool) : base h % sectorSize = 0 := by cases h <;> rfl

theorem base_le (h : Bool) : base h ≤ 4096 := by cases h <;> decide

theorem base_cases (h : Bool) : base h = 0 ∧ base (!h) = 4096 ∨ base h = 4096 ∧ base (!h) = 0 := by
  cases h
  · exact .inl ⟨rfl, rfl⟩
  · exact .inr ⟨rfl, rfl⟩

theorem base_injective {h h' : Bool} (he : base h = base h') : h = h' := by
  cases h <;> cases h' <;> first | rfl | cases he

theorem alignDown_eq {a : Nat} (ha : base h ≤ a) (ha' : a < base h + 4096) : alignDown a = base h := by
  have := base_cases h
  simp only [alignDown, sectorSize]
  omega

/-! ### Headers -/

/-- The header of a sector as `read_sector_meta_data` fills it in. -/
def headed (sector : SectorMeta) (h : Bool) (x : SecState) : SectorMeta :=
  {sector with
    addr := base h, magic := sectorMagicWord, checkOk := true, combined := sectorNotCombined, store := x.status, dirty := x.dirty}

theorem SecState.Of.header {f : Flash} {b : Nat} (hx : x.Of f b) : f.Holds b (x.store :: x.dirty.byte :: sectorHdrRest) := by
  cases x with
  | empty => exact hx.1
  | used full dt items e => exact hx.header

theorem read_header {f : Flash} {b : Nat} (hx : x.Of f b) :
    f.read b sectorHdrDataSize = x.store :: x.dirty.byte :: sectorHdrRest := hx.header.read_eq rfl

theorem le32_header_magic (st dt : Byte) : le32 (st :: dt :: sectorHdrRest) 4 = sectorMagicWord :=
  (le32_drop _ 4 0).symm.trans (le32_toLe32 (by decide) _)

theorem le32_header_combined (st dt : Byte) : le32 (st :: dt :: sectorHdrRest) 8 = sectorNotCombined :=
  (le32_drop _ 8 0).symm.trans (le32_toLe32 (by simp only [sectorNotCombined]; omega) _)

/-- A header is read, and then the sector is gone through or not. -/
theorem Rep.readSector (hr : Rep S s) (h : Bool) (sector : SectorMeta) (traversal : Bool) :
    (readSectorMetaData (base h) sector traversal).run s =
      (if traversal then traverseSector (headed sector h (S.area h))
        else return (.noErr, headed sector h (S.area h)) : Code (EfErrCode × SectorMeta)).run s := by
  unfold readSectorMetaData
  rw [if_neg (not_not_intro (base_mod h)), run_bind_of (run_efPortRead ..), read_header (hr.area h)]
  dsimp only
  rw [if_neg (not_not_intro (le32_header_magic ..)), le32_header_magic, le32_header_combined, getStatus_cons _ _ (by decide)]
  rw [show List.drop sectorDirtyOffset ((S.area h).store :: (S.area h).dirty.byte :: sectorHdrRest) =
    (S.area h).dirty.byte :: sectorHdrRest from rfl, getStatus_cons _ sectorHdrRest (by decide), SecState.status_eq, DirtyStatus.ofIndex_byte]
  rfl

theorem Rep.readHeader (hr : Rep S s) (h : Bool) (sector : SectorMeta) :
    (readSectorMetaData (base h) sector false).run s = some ((.noErr, headed sector h (S.area h)), s) :=
  hr.readSector h sector false

theorem getNextSectorAddr_first (sector : SectorMeta) : getNextSectorAddr {sector with addr := failedAddr} = base false :=
  if_pos rfl

theorem getNextSectorAddr_low (haddr : sector.addr = base false) (hc : sector.combined = sectorNotCombined) :
    getNextSectorAddr sector = base true := by
  rw [getNextSectorAddr, haddr, hc]
  rfl

theorem getNextSectorAddr_high (haddr : sector.addr = base true) (hc : sector.combined = sectorNotCombined) :
    getNextSectorAddr sector = failedAddr := by
  rw [getNextSectorAddr, haddr, hc]
  rfl

/-! ### The walk -/

def nextAddr : Items → Nat
  | [] => failedAddr
  | (p, _) :: _ => p

@[simp] theorem nextAddr_cons (p : Nat) (i : Item) (rest : Items) : nextAddr ((p, i) :: rest) = p := rfl

theorem run_getSectorFromCache (s : Store) (sec : Nat) : (getSectorFromCache sec).run s =
    some ((s.sectorCacheTable.find? fun x => x.addr = sec).map SectorCacheNode.emptyAddr, s) := rfl

theorem Rep.used (hr : Rep S s) (ha : S.area h = .used full dt items e) : Used s.flash (base h) (usedByte full) dt.byte items e := by
  have := hr.area h
  rwa [ha] at this

/-- The cache takes no address with something behind it for the end of a sector. -/
theorem Rep.not_cached_end (hr : Rep S s) (ha : S.area h = .used full dt items e) {a : Nat} (hge : base h ≤ a) (hlt : a < e) :
    (s.sectorCacheTable.find? fun x => x.addr = alignDown a).map SectorCacheNode.emptyAddr ≠ some a := by
  intro hfind
  have hle := (hr.used ha).le
  rw [alignDown_eq hge (by omega)] at hfind
  have hb : base h ≠ failedAddr := by
    have := base_le h
    simp only [failedAddr]
    omega
  obtain ⟨h', dt', items', hbase, harea⟩ := hr.sectors.find hb hfind
  obtain rfl := base_injective hbase
  rw [ha] at harea
  cases harea
  omega

/-- Behind an item the walk comes to the next. -/
theorem Rep.getNext (hr : Rep S s) (ha : S.area h = .used full dt (done ++ (p, i) :: rest) e) (hsec : sector.addr = base h)
    (hstore : sector.store ≠ .empty) {env : EnvNode} (hstart : env.start = p) (hlen : env.len = i.len)
    (hstep : (if env.crcIsOk then p + env.len else p + 1) = p + i.step) :
    (getNextEnvAddr sector env).run s = some (nextAddr rest, s) := by
  have hused := hr.used ha
  obtain ⟨hi, hchain⟩ := hused.walk.split
  obtain ⟨hge, hend, -⟩ := hused.walk.mem (p, i) (List.mem_append_right _ (List.mem_cons_self ..))
  have hlenge := i.len_ge hi
  have hpos := i.step_pos hi
  have hle := hused.le
  have hb := base_le h
  simp only at hge hend
  have hsize : sector.addr + sectorSize = base h + 4096 := by rw [hsec]; rfl
  have hlimit : base h + 4096 - sectorHdrDataSize = base h + 4080 := rfl
  unfold getNextEnvAddr
  rw [if_neg hstore, if_neg (by rw [hstart]; simp only [failedAddr]; omega), hsize, hlimit,
    if_pos (by rw [hstart]; omega)]
  dsimp only
  rw [hstart, hstep]
  have hfind : (findNextEnvAddr (p + i.step) (base h + 4080)).run s = some (nextAddr rest, s) := by
    unfold findNextEnvAddr
    rw [run_bind_of (run_getSectorFromCache ..)]
    cases hchain with
    | nil ha hz hquiet =>
      split
      · rfl
      · exact findNextFrom_none (by omega) hquiet (Nat.le_refl _) (by simp only [rounds, envAreaSize]; omega)
    | @cons _ _ p' i' rest' _ hz hquiet hmagic hi' hrest =>
      have hend' := hrest.le_end
      have hlenge' := i'.len_ge hi'
      rw [if_neg (hr.not_cached_end ha (by omega) (by omega))]
      show (findNextFrom (base h + 4080) (p + i.step) rounds (p + i.step)).run s = some (p', s)
      exact findNextFrom_some (by omega) (by omega) hquiet hmagic (by omega) (Nat.le_refl _) (by omega)
        (by simp only [rounds, envAreaSize]; omega)
  rw [run_bind_of hfind, hlen]
  cases hchain with
  | nil _ _ _ => exact congrArg (fun r => some (r, s)) (ite_self _)
  | cons _ hz _ _ hi' hrest =>
    have hend' := hrest.le_end
    have hlenge' := Item.len_ge hi'
    rw [if_neg (by simp only [nextAddr]; omega)]
    rfl

/-- The walk begins where the header ends. -/
theorem Rep.getFirst (hr : Rep S s) (ha : S.area h = .used full dt items e) (hsec : sector.addr = base h)
    (hstore : sector.store ≠ .empty) {env : EnvNode} (hstart : env.start = failedAddr) :
    (getNextEnvAddr sector env).run s = some (nextAddr items, s) := by
  unfold getNextEnvAddr
  rw [if_neg hstore, if_pos hstart, hsec]
  have hwalk := (hr.used ha).walk
  match items, hwalk with
  | (p, i) :: rest, ⟨hp, _, _⟩ => exact congrArg (fun r => some (r, s)) hp.symm

theorem Rep.nextAddr_ne (hr : Rep S s) (ha : S.area h = .used full dt (done ++ (p, i) :: rest) e) : p ≠ failedAddr := by
  have hused := hr.used ha
  obtain ⟨-, hend, -⟩ := hused.walk.mem (p, i) (List.mem_append_right _ (List.mem_cons_self ..))
  have hle := hused.le
  have hb := base_le h
  simp only at hend
  simp only [failedAddr]
  omega

/-- After an item has been read the walk comes to the next. -/
theorem Rep.getNext_env (hr : Rep S s) (ha : S.area h = .used full dt (done ++ (p, i) :: rest) e) (hsec : sector.addr = base h)
    (hstore : sector.store ≠ .empty) (old : EnvNode) :
    (getNextEnvAddr sector (i.env p old)).run s = some (nextAddr rest, s) := by
  cases i with
  | node n => exact hr.getNext ha hsec hstore rfl rfl rfl
  | torn ts len => exact hr.getNext ha hsec hstore rfl rfl rfl

theorem Rep.readItem (hr : Rep S s) (ha : S.area h = .used full dt (done ++ (p, i) :: rest) e) (env : EnvNode) :
    ∃ r, (readEnv {env with start := p}).run s = some ((r, i.env p env), s) :=
  readEnv_item (hr.used ha).walk.split.1 env

/-- A sector has no more items than a loop has rounds. -/
theorem Used.length_lt {f : Flash} {b : Nat} {st dt : Byte} (hu : Used f b st dt items e) : items.length < rounds := by
  have hlen : ∀ x ∈ items, 24 ≤ x.2.len := fun x hx => x.2.len_ge (hu.walk.mem x hx).2.2
  have hspan : items.length ≤ span items := by
    clear hu
    induction items with
    | nil => exact Nat.le_refl _
    | cons x items ih =>
      have hx := hlen x (List.mem_cons_self ..)
      have := ih fun y hy => hlen y (List.mem_cons_of_mem x hy)
      rw [List.length_cons, span_cons]
      omega
  have hle := hu.le
  have heq := hu.span_eq
  simp only [rounds, envAreaSize]
  omega

end Backwash.EasyFlash
