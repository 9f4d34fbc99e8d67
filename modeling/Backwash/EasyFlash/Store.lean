import Backwash.EasyFlash.Crc

/-! The state of EasyFlash: the chip, and what the library keeps in RAM.

ef_env.c is compiled for a chip that can write single bits, 4096 bytes to the sector and two
sectors to the area, which starts at address 0. A status is one byte, of which each step
clears one more bit. A function that waits for ever, in a loop or in an assertion that
fails, has no result. -/
namespace Backwash.EasyFlash
open Storage

def sectorMagicWord : Nat := 0x30344645
def envMagicWord : Nat := 0x3034564B
def sectorSize : Nat := 4096
def envAreaSize : Nat := 8192
def sectorNum : Nat := 2
def sectorHdrDataSize : Nat := 16
def sectorDirtyOffset : Nat := 1
def envHdrDataSize : Nat := 24
def envMagicOffset : Nat := 4
def envNameLenOffset : Nat := 16
def efEnvNameMax : Nat := 128
def efSecRemainThreshold : Nat := envHdrDataSize + efEnvNameMax
def efGcEmptySecThreshold : Nat := 1
def efEnvCacheTableSize : Nat := 16
def efSectorCacheTableSize : Nat := 4
def sectorNotCombined : Nat := 0xFFFFFFFF
def failedAddr : Nat := 0xFFFFFFFF
def envStartAddr : Nat := 0

inductive EfErrCode
  | noErr | eraseErr | readErr | writeErr | envNameErr | envNameExist | envFull | envInitFailed
  deriving DecidableEq

/-- `enum sector_store_status`. -/
inductive StoreStatus
  | unused | empty | inUse | full
  deriving DecidableEq

/-- `enum sector_dirty_status`. -/
inductive DirtyStatus
  | unused | false | true | gc
  deriving DecidableEq

inductive EnvStatus
  | unused | preWrite | write | preDelete | deleted | errHdr
  deriving DecidableEq

namespace StoreStatus

def num : Nat := 4

def index : StoreStatus → Nat
  | unused => 0
  | empty => 1
  | inUse => 2
  | full => 3

def ofIndex : Nat → StoreStatus
  | 0 => unused
  | 1 => empty
  | 2 => inUse
  | _ => full

end StoreStatus

namespace DirtyStatus

def num : Nat := 4

def index : DirtyStatus → Nat
  | unused => 0
  | false => 1
  | true => 2
  | gc => 3

def ofIndex : Nat → DirtyStatus
  | 0 => unused
  | 1 => .false
  | 2 => .true
  | _ => gc

end DirtyStatus

namespace EnvStatus

def num : Nat := 6

def index : EnvStatus → Nat
  | unused => 0
  | preWrite => 1
  | write => 2
  | preDelete => 3
  | deleted => 4
  | errHdr => 5

def ofIndex : Nat → EnvStatus
  | 0 => unused
  | 1 => preWrite
  | 2 => write
  | 3 => preDelete
  | 4 => deleted
  | _ => errHdr

end EnvStatus

/-- `struct env_node_obj`; the name is as long as `name_len` says. -/
structure EnvNode where
  status : EnvStatus
  crcIsOk : Bool
  nameLen : Nat
  len : Nat
  valueLen : Nat
  name : List Byte
  start : Nat
  value : Nat

/-- `struct sector_meta_data`. -/
structure SectorMeta where
  checkOk : Bool
  store : StoreStatus
  dirty : DirtyStatus
  addr : Nat
  magic : Nat
  combined : Nat
  remain : Nat
  emptyEnv : Nat

/-- `struct env_cache_node`. -/
structure EnvCacheNode where
  nameCrc : BitVec 16
  active : Nat
  addr : Nat

/-- `struct sector_cache_node`. -/
structure SectorCacheNode where
  addr : Nat
  emptyAddr : Nat

/-- The chip, what it has held, one byte after the other, since the device was switched on,
and the static variables. -/
structure Store where
  flash : Flash
  past : List Flash
  initOk : Bool
  gcRequest : Bool
  inRecoveryCheck : Bool
  lastIsCompleteDel : Bool
  envCacheTable : List EnvCacheNode
  sectorCacheTable : List SectorCacheNode

/-- After a reset the static variables are zero. -/
def Store.reset (flash : Flash) : Store where
  flash := flash
  past := []
  initOk := false
  gcRequest := false
  inRecoveryCheck := false
  lastIsCompleteDel := false
  envCacheTable := List.replicate efEnvCacheTableSize ⟨0, 0, 0⟩
  sectorCacheTable := List.replicate efSectorCacheTableSize ⟨0, 0⟩

abbrev Code := StateT Store Option

/-- An automatic variable that has not been written to. -/
def EnvNode.fresh : EnvNode := ⟨.unused, false, 0, 0, 0, [], failedAddr, 0⟩

def SectorMeta.fresh : SectorMeta := ⟨false, .unused, .unused, failedAddr, 0, 0, 0, 0⟩

/-! ### The port -/

def Store.program (s : Store) (addr : Nat) (buf : List Byte) : Store :=
  {s with flash := s.flash.program addr buf, past := s.past ++ s.flash.passed addr buf}

def Store.erase (s : Store) (addr size : Nat) : Store :=
  {s with flash := s.flash.erase addr size, past := s.past ++ [s.flash.erase addr size]}

def efPortRead (addr size : Nat) : Code (List Byte) := do return (← get).flash.read addr size

def efPortWrite (addr : Nat) (buf : List Byte) : Code EfErrCode := do
  modify fun s => s.program addr buf
  return .noErr

def efPortErase (addr size : Nat) : Code EfErrCode := do
  if addr % sectorSize = 0 then
    modify fun s => s.erase addr size
    return .noErr
  else failure

/-! ### Statuses -/

/-- `STATUS_TABLE_SIZE` with a write granularity of one bit. -/
def statusTableSize (statusNum : Nat) : Nat := (statusNum + 7) / 8

/-- `set_status`: the table, and the index of the byte that differs from all ones, if any does. -/
def setStatus (statusNum statusIndex : Nat) : List Byte × Option Nat :=
  let table := List.replicate (statusTableSize statusNum) 0xFF
  if 0 < statusIndex then
    let i := (statusIndex - 1) / 8
    (table.modify i (· &&& ~~~((0x80 : Byte) >>> ((statusIndex - 1) % 8))), some i)
  else (table, none)

/-- `get_status`: one more than the position of the last bit that is zero. -/
def getStatusFrom (table : List Byte) : Nat → Nat
  | 0 => 0
  | n + 1 => if table.getD (n / 8) 0 &&& ((0x80 : Byte) >>> (n % 8)) = 0 then n + 1 else getStatusFrom table n

def getStatus (table : List Byte) (statusNum : Nat) : Nat := getStatusFrom table (statusNum - 1)

def writeStatus (addr statusNum statusIndex : Nat) : Code EfErrCode :=
  if statusIndex < statusNum then
    match setStatus statusNum statusIndex with
    | (_, none) => return .noErr
    | (table, some i) => efPortWrite (addr + i) [table.getD i 0]
  else failure

def readStatus (addr totalNum : Nat) : Code Nat := do
  return getStatus (← efPortRead addr (statusTableSize totalNum)) totalNum

/-! ### Words

Unsigned numbers of 32 bits, low byte first. -/

def le32 (bs : List Byte) (i : Nat) : Nat :=
  (bs.getD i 0).toNat + (bs.getD (i + 1) 0).toNat * 0x100 + (bs.getD (i + 2) 0).toNat * 0x10000 +
    (bs.getD (i + 3) 0).toNat * 0x1000000

def toLe32 (n : Nat) : List Byte :=
  [BitVec.ofNat 8 n, BitVec.ofNat 8 (n / 0x100), BitVec.ofNat 8 (n / 0x10000), BitVec.ofNat 8 (n / 0x1000000)]

def sub32 (a b : Nat) : Nat := (a + 2 ^ 32 - b) % 2 ^ 32

/-- `EF_ALIGN_DOWN(addr, SECTOR_SIZE)`. -/
def alignDown (addr : Nat) : Nat := addr - addr % sectorSize

/-- `!strncmp(a, b, n)`. -/
def strncmpEq (a b : List Byte) : Nat → Bool
  | 0 => true
  | n + 1 =>
    if a.headD 0 = b.headD 0 then
      if a.headD 0 = 0 then true else strncmpEq a.tail b.tail n
    else false

/-! ### The sector cache -/

/-- The loop of `update_sector_cache` over what is left of the table from index `i` on. -/
def updateSectorCacheFrom (secAddr emptyAddr : Nat) (table : List SectorCacheNode) :
    List SectorCacheNode → Nat → Nat → List SectorCacheNode
  | [], _, emptyIndex =>
    if emptyIndex < efSectorCacheTableSize then table.set emptyIndex ⟨secAddr, emptyAddr⟩ else table
  | x :: rest, i, emptyIndex =>
    if secAddr < emptyAddr ∧ emptyAddr < secAddr + sectorSize then
      if x.addr = secAddr then table.set i ⟨secAddr, emptyAddr⟩
      else if x.addr = failedAddr ∧ emptyIndex = efSectorCacheTableSize then
        updateSectorCacheFrom secAddr emptyAddr table rest (i + 1) i
      else updateSectorCacheFrom secAddr emptyAddr table rest (i + 1) emptyIndex
    else if x.addr = secAddr then table.set i {x with addr := failedAddr}
    else updateSectorCacheFrom secAddr emptyAddr table rest (i + 1) emptyIndex

def updateSectorCacheTable (secAddr emptyAddr : Nat) (table : List SectorCacheNode) : List SectorCacheNode :=
  updateSectorCacheFrom secAddr emptyAddr table table 0 efSectorCacheTableSize

def updateSectorCache (secAddr emptyAddr : Nat) : Code Unit :=
  modify fun s => {s with sectorCacheTable := updateSectorCacheTable secAddr emptyAddr s.sectorCacheTable}

/-- `get_sector_from_cache`: the empty address, if the cache is hit. -/
def getSectorFromCache (secAddr : Nat) : Code (Option Nat) := do
  return ((← get).sectorCacheTable.find? fun x => x.addr = secAddr).map SectorCacheNode.emptyAddr

/-! ### The cache of names -/

/-- The loop of `update_env_cache` over what is left of the table from index `i` on. -/
def updateEnvCacheFrom (nameCrc : BitVec 16) (addr : Nat) :
    List EnvCacheNode → List EnvCacheNode → Nat → Nat → Nat → Nat → List EnvCacheNode
  | table, [], _, emptyIndex, minActivityIndex, _ =>
    if emptyIndex < efEnvCacheTableSize then table.set emptyIndex ⟨nameCrc, 0, addr⟩
    else if minActivityIndex < efEnvCacheTableSize then table.set minActivityIndex ⟨nameCrc, 0, addr⟩
    else table
  | table, x :: rest, i, emptyIndex, minActivityIndex, minActivity =>
    if addr ≠ failedAddr then
      if x.nameCrc = nameCrc then table.set i {x with addr := addr}
      else if x.addr = failedAddr ∧ emptyIndex = efEnvCacheTableSize then
        updateEnvCacheFrom nameCrc addr table rest (i + 1) i minActivityIndex minActivity
      else if x.addr ≠ failedAddr then
        let x' := {x with active := x.active - 1}
        if x'.active < minActivity then
          updateEnvCacheFrom nameCrc addr (table.set i x') rest (i + 1) emptyIndex i x'.active
        else updateEnvCacheFrom nameCrc addr (table.set i x') rest (i + 1) emptyIndex minActivityIndex minActivity
      else updateEnvCacheFrom nameCrc addr table rest (i + 1) emptyIndex minActivityIndex minActivity
    else if x.nameCrc = nameCrc then table.set i {x with addr := failedAddr, active := 0}
    else updateEnvCacheFrom nameCrc addr table rest (i + 1) emptyIndex minActivityIndex minActivity

def updateEnvCacheTable (name : List Byte) (addr : Nat) (table : List EnvCacheNode) : List EnvCacheNode :=
  updateEnvCacheFrom (nameCrc name) addr table table 0 efEnvCacheTableSize efEnvCacheTableSize 0xFFFF

def updateEnvCache (name : List Byte) (addr : Nat) : Code Unit :=
  modify fun s => {s with envCacheTable := updateEnvCacheTable name addr s.envCacheTable}

/-- A hit makes an entry more active, up to a limit. -/
def EnvCacheNode.touch (x : EnvCacheNode) : EnvCacheNode :=
  {x with active := if 0xFFFF - efEnvCacheTableSize ≤ x.active then 0xFFFF else x.active + efEnvCacheTableSize}

/-- The loop of `get_env_from_cache` over what is left of the table from index `i` on. -/
def getEnvFromCacheFrom (flash : Flash) (name : List Byte) (table : List EnvCacheNode) :
    List EnvCacheNode → Nat → Option (Nat × List EnvCacheNode)
  | [], _ => none
  | x :: rest, i =>
    if x.addr ≠ failedAddr ∧ x.nameCrc = nameCrc name then
      if strncmpEq name (flash.read (x.addr + envHdrDataSize) efEnvNameMax) name.length then
        some (x.addr, table.set i x.touch)
      else getEnvFromCacheFrom flash name table rest (i + 1)
    else getEnvFromCacheFrom flash name table rest (i + 1)

/-- `get_env_from_cache`: the address, if the cache is hit. -/
def getEnvFromCache (name : List Byte) : Code (Option Nat) := do
  let s ← get
  match getEnvFromCacheFrom s.flash name s.envCacheTable s.envCacheTable 0 with
  | none => return none
  | some (addr, table) =>
    set {s with envCacheTable := table}
    return some addr

end Backwash.EasyFlash
