import Backwash.EasyFlash.Store

/-! The functions of ef_env.c.

A loop has as many rounds as the area has bytes; one that needs more has no result. What a
function is handed by reference and changes is among its results. -/
namespace Backwash.EasyFlash
open Storage

/-- More rounds than any loop that ends goes through. -/
def rounds : Nat := envAreaSize

/-! ### Reading -/

/-- One buffer of `continue_ff_addr`: `addr` and `last_data` after it. -/
def scanFf (start : Nat) : List Byte → Nat → Byte → Nat × Byte
  | [], addr, last => (addr, last)
  | x :: rest, addr, last => scanFf (start + 1) rest (if last ≠ 0xFF ∧ x = 0xFF then start else addr) x

/-- The loop of `continue_ff_addr`. -/
def continueFfFrom (endAddr : Nat) : Nat → Nat → Nat → Byte → Code (Nat × Byte)
  | 0, _, _, _ => failure
  | n + 1, start, addr, last =>
    if start < endAddr then do
      let buf ← efPortRead start (if start + 32 < endAddr then 32 else endAddr - start)
      let (addr, last) := scanFf start buf addr last
      continueFfFrom endAddr n (start + 32) addr last
    else return (addr, last)

def continueFfAddr (start endAddr : Nat) : Code Nat := do
  let (addr, last) ← continueFfFrom endAddr rounds start start 0
  return if last = 0xFF then addr else endAddr

/-- The search for the magic word through one buffer, `n` positions of it left. -/
def scanMagic (buf : List Byte) (start endAddr startBak : Nat) : Nat → Nat → Option Nat
  | _, 0 => none
  | i, n + 1 =>
    if start + i < endAddr then
      if le32 buf i = envMagicWord ∧ startBak ≤ start + i - envMagicOffset then some (start + i - envMagicOffset)
      else scanMagic buf start endAddr startBak (i + 1) n
    else none

def findNextFrom (endAddr startBak : Nat) : Nat → Nat → Code Nat
  | 0, _ => failure
  | n + 1, start =>
    if start < endAddr then do
      let buf ← efPortRead start 32
      match scanMagic buf start endAddr startBak 0 28 with
      | some addr => return addr
      | none => findNextFrom endAddr startBak n (start + 28)
    else return failedAddr

def findNextEnvAddr (start endAddr : Nat) : Code Nat := do
  if (← getSectorFromCache (alignDown start)) = some start then return failedAddr
  else findNextFrom endAddr start rounds start

def getNextEnvAddr (sector : SectorMeta) (preEnv : EnvNode) : Code Nat :=
  if sector.store = .empty then return failedAddr
  else if preEnv.start = failedAddr then return sector.addr + sectorHdrDataSize
  else if preEnv.start ≤ sector.addr + sectorSize then do
    let addr := if preEnv.crcIsOk then preEnv.start + preEnv.len else preEnv.start + 1
    let addr ← findNextEnvAddr addr (sector.addr + sectorSize - sectorHdrDataSize)
    return if sector.addr + sectorSize < addr ∨ preEnv.len = 0 then failedAddr else addr
  else return failedAddr

/-- The checksum of what follows `len` bytes of a node's checked part. -/
def crcFrom (addr crcDataLen : Nat) : Nat → Nat → BitVec 32 → Code (BitVec 32)
  | 0, _, _ => failure
  | n + 1, len, crc =>
    if len < crcDataLen then do
      let size := if len + 32 < crcDataLen then 32 else crcDataLen - len
      let buf ← efPortRead (addr + len) size
      crcFrom addr crcDataLen n (len + size) (efCalcCrc32 crc buf)
    else return crc

def readEnv (env : EnvNode) : Code (EfErrCode × EnvNode) := do
  let hdr ← efPortRead env.start envHdrDataSize
  let status := EnvStatus.ofIndex (getStatus hdr EnvStatus.num)
  let len := le32 hdr 8
  if len = 0xFFFFFFFF ∨ envAreaSize < len ∨ len < envNameLenOffset then
    if status ≠ .errHdr then
      let _ ← writeStatus env.start EnvStatus.num EnvStatus.errHdr.index
    return (.readErr, {env with status := .errHdr, len := envHdrDataSize, crcIsOk := false})
  else if sectorSize - sectorHdrDataSize < len ∧ len < envAreaSize then failure
  else
    let env := {env with status := status, len := len}
    let calcCrc32 ← crcFrom (env.start + envNameLenOffset) (len - envNameLenOffset) rounds 0 0
    if calcCrc32.toNat ≠ le32 hdr 12 then return (.readErr, {env with crcIsOk := false})
    else
      let nameLen := (hdr.getD 16 0).toNat
      let envNameAddr := env.start + envHdrDataSize
      let name ← efPortRead envNameAddr nameLen
      -- a longer name does not fit the node
      if efEnvNameMax < nameLen then failure
      else
        let env := {env with crcIsOk := true, nameLen := nameLen, valueLen := le32 hdr 20, name := name}
        return (.noErr, {env with value := envNameAddr + nameLen})

def getNextSectorAddr (preSec : SectorMeta) : Nat :=
  if preSec.addr = failedAddr then envStartAddr
  else
    let nextAddr :=
      if preSec.combined = sectorNotCombined then (preSec.addr + sectorSize) % 2 ^ 32
      else (preSec.addr + preSec.combined * sectorSize) % 2 ^ 32
    if nextAddr < envStartAddr + envAreaSize then nextAddr else failedAddr

/-- The nodes of a sector are gone through for the space they leave. -/
def traverseFrom : Nat → SectorMeta → EnvNode → Code (EfErrCode × SectorMeta)
  | 0, _, _ => failure
  | n + 1, sector, env => do
    let addr ← getNextEnvAddr sector env
    if addr = failedAddr then return (.noErr, sector)
    else
      let (_, env) ← readEnv {env with start := addr}
      if ¬ env.crcIsOk ∧ env.status ≠ .preWrite ∧ env.status ≠ .errHdr then
        return (.readErr, {sector with remain := 0})
      else
        traverseFrom n {sector with emptyEnv := sector.emptyEnv + env.len, remain := sub32 sector.remain env.len} env

/-- The space a sector leaves, and where the next node goes. -/
def traverseSector (sector : SectorMeta) : Code (EfErrCode × SectorMeta) :=
  let sector := {sector with remain := 0, emptyEnv := sector.addr + sectorHdrDataSize}
  match sector.store with
  | .empty => return (.noErr, {sector with remain := sectorSize - sectorHdrDataSize})
  | .inUse => do
    match ← getSectorFromCache sector.addr with
    | some emptyEnv =>
      return (.noErr, {sector with emptyEnv := emptyEnv, remain := sub32 sectorSize (sub32 emptyEnv sector.addr)})
    | none =>
      let (result, sector) ← traverseFrom rounds {sector with remain := sectorSize - sectorHdrDataSize} EnvNode.fresh
      let ffAddr ← continueFfAddr sector.emptyEnv (sector.addr + sectorSize)
      let sector :=
        if sector.emptyEnv ≠ ffAddr then
          {sector with emptyEnv := ffAddr, remain := sub32 sectorSize (sub32 ffAddr sector.addr)}
        else sector
      updateSectorCache sector.addr sector.emptyEnv
      return (result, sector)
  | _ => return (.noErr, sector)

def readSectorMetaData (addr : Nat) (sector : SectorMeta) (traversal : Bool) : Code (EfErrCode × SectorMeta) := do
  if addr % sectorSize ≠ 0 then failure
  else
    let hdr ← efPortRead addr sectorHdrDataSize
    let sector := {sector with addr := addr, magic := le32 hdr 4}
    if sector.magic ≠ sectorMagicWord then
      return (.envInitFailed, {sector with checkOk := false, combined := sectorNotCombined})
    else
      let sector := {sector with
        checkOk := true, combined := le32 hdr 8, store := StoreStatus.ofIndex (getStatus hdr StoreStatus.num),
        dirty := DirtyStatus.ofIndex (getStatus (hdr.drop sectorDirtyOffset) DirtyStatus.num)}
      if traversal then traverseSector sector else return (.noErr, sector)

/-- A callback tells whether it has had enough. -/
abbrev Callback (X α : Type) := X → α → Code (Bool × α)

/-- The nodes of one sector. -/
def envIteratorSector {α : Type} (callback : Callback EnvNode α) (sector : SectorMeta) :
    Nat → EnvNode → α → Code (Bool × EnvNode × α)
  | 0, _, _ => failure
  | n + 1, env, arg => do
    let addr ← getNextEnvAddr sector env
    let env := {env with start := addr}
    if addr = failedAddr then return (false, env, arg)
    else
      let (_, env) ← readEnv env
      let (stop, arg) ← callback env arg
      if stop then return (true, env, arg) else envIteratorSector callback sector n env arg

/-- One sector of `env_iterator`; the first result tells whether the callback has had enough. -/
def envIteratorRound {α : Type} (callback : Callback EnvNode α) (secAddr : Nat) (sector : SectorMeta) (env : EnvNode)
    (arg : α) : Code (Bool × SectorMeta × EnvNode × α) := do
  let (result, sector) ← readSectorMetaData secAddr sector false
  if result ≠ .noErr then return (false, sector, env, arg)
  else if sector.store = .inUse ∨ sector.store = .full then
    let (stop, env, arg) ← envIteratorSector callback sector rounds {env with start := failedAddr} arg
    return (stop, sector, env, arg)
  else return (false, sector, env, arg)

def envIteratorFrom {α : Type} (callback : Callback EnvNode α) :
    Nat → SectorMeta → EnvNode → α → Code (EnvNode × α)
  | 0, _, _, _ => failure
  | n + 1, sector, env, arg =>
    if getNextSectorAddr sector = failedAddr then return (env, arg)
    else do
      let (stop, sector, env, arg) ← envIteratorRound callback (getNextSectorAddr sector) sector env arg
      if stop then return (env, arg) else envIteratorFrom callback n sector env arg

def envIterator {α : Type} (callback : Callback EnvNode α) (env : EnvNode) (arg : α) : Code (EnvNode × α) :=
  envIteratorFrom callback rounds SectorMeta.fresh env arg

def findEnvCb (key : List Byte) : Callback EnvNode Bool := fun env findOk =>
  if key.length ≠ env.nameLen then return (false, findOk)
  else if env.crcIsOk ∧ env.status = .write ∧ strncmpEq env.name key key.length then return (true, true)
  else return (false, findOk)

def findEnvNoCache (key : List Byte) (env : EnvNode) : Code (Bool × EnvNode) := do
  let (env, findOk) ← envIterator (findEnvCb key) env false
  return (findOk, env)

def findEnv (key : List Byte) (env : EnvNode) : Code (Bool × EnvNode) := do
  match ← getEnvFromCache key with
  | some addr =>
    let (_, env) ← readEnv {env with start := addr}
    return (true, env)
  | none =>
    let (findOk, env) ← findEnvNoCache key env
    if findOk then updateEnvCache key env.start
    return (findOk, env)

def isPrint (ch : Byte) : Bool := decide ((ch.toNat + (2 ^ 32 - 32)) % 2 ^ 32 < 127 - 32)

def efIsStr (value : List Byte) : Bool := value.all isPrint

/-- What is read of the value, into a buffer of `bufLen` bytes. -/
def getEnv (key : List Byte) (bufLen : Nat) : Code (List Byte) := do
  let (found, env) ← findEnv key EnvNode.fresh
  if found then efPortRead env.value (if env.valueLen < bufLen then env.valueLen else bufLen)
  else return []

def efGetEnvBlob (key : List Byte) (bufLen : Nat) : Code (List Byte) := do
  if ¬ (← get).initOk then return []
  else getEnv key bufLen

/-- `EF_STR_ENV_VALUE_MAX_SIZE`. -/
def efStrEnvValueMaxSize : Nat := 128

/-- `ef_get_env`; there is nothing where it answers NULL. -/
def efGetEnv (key : List Byte) : Code (Option (List Byte)) := do
  let value ← efGetEnvBlob key efStrEnvValueMaxSize
  return if 0 < value.length ∧ efIsStr value then some value else none

/-! ### Writing -/

/-- The header of a node, apart from the status. -/
def envHdr (crc32 nameLen valueLen : Nat) : List Byte :=
  toLe32 envMagicWord ++ toLe32 (envHdrDataSize + nameLen + valueLen) ++ toLe32 crc32 ++
    [BitVec.ofNat 8 nameLen, 0xFF, 0xFF, 0xFF] ++ toLe32 valueLen

def writeEnvHdr (addr : Nat) (envHdr : List Byte) : Code EfErrCode := do
  let result ← writeStatus addr EnvStatus.num EnvStatus.preWrite.index
  if result ≠ .noErr then return result
  else efPortWrite (addr + envMagicOffset) envHdr

def sectorHdr (combinedValue : Nat) : List Byte :=
  (setStatus StoreStatus.num StoreStatus.empty.index).1 ++ (setStatus DirtyStatus.num DirtyStatus.false.index).1 ++
    [0xFF, 0xFF] ++ toLe32 sectorMagicWord ++ toLe32 combinedValue ++ toLe32 0xFFFFFFFF

def formatSector (addr combinedValue : Nat) : Code EfErrCode := do
  if addr % sectorSize ≠ 0 then failure
  else
    let result ← efPortErase addr sectorSize
    if result = .noErr then
      let result ← efPortWrite addr (sectorHdr combinedValue)
      updateSectorCache addr (addr + sectorSize)
      return result
    else return result

/-- `update_sec_status`, and what becomes of `is_full`. -/
def updateSecStatus (sector : SectorMeta) (newEnvLen : Nat) (isFull : Bool) : Code (EfErrCode × Bool) := do
  match sector.store with
  | .empty => return (← writeStatus sector.addr StoreStatus.num StoreStatus.inUse.index, isFull)
  | .inUse =>
    if sector.remain < efSecRemainThreshold ∨ sub32 sector.remain newEnvLen < efSecRemainThreshold then
      let result ← writeStatus sector.addr StoreStatus.num StoreStatus.full.index
      updateSectorCache sector.addr (sector.addr + sectorSize)
      return (result, true)
    else return (.noErr, false)
  | _ => return (.noErr, isFull)

/-- One sector of `sector_iterator`. -/
def sectorIteratorRound {α : Type} (status : StoreStatus) (callback : Callback SectorMeta α) (traversalEnv : Bool)
    (secAddr : Nat) (sector : SectorMeta) (arg : α) : Code (Bool × SectorMeta × α) := do
  let (_, sector) ← readSectorMetaData secAddr sector false
  if status = .unused ∨ status = sector.store then
    let sector ← if traversalEnv then Prod.snd <$> readSectorMetaData secAddr sector true else pure sector
    let (stop, arg) ← callback sector arg
    return (stop, sector, arg)
  else return (false, sector, arg)

def sectorIteratorFrom {α : Type} (status : StoreStatus) (callback : Callback SectorMeta α) (traversalEnv : Bool) :
    Nat → SectorMeta → α → Code (SectorMeta × α)
  | 0, _, _ => failure
  | n + 1, sector, arg =>
    if getNextSectorAddr sector = failedAddr then return (sector, arg)
    else do
      let (stop, sector, arg) ←
        sectorIteratorRound status callback traversalEnv (getNextSectorAddr sector) sector arg
      if stop then return (sector, arg) else sectorIteratorFrom status callback traversalEnv n sector arg

def sectorIterator {α : Type} (sector : SectorMeta) (status : StoreStatus) (arg : α) (callback : Callback SectorMeta α)
    (traversalEnv : Bool) : Code (SectorMeta × α) :=
  sectorIteratorFrom status callback traversalEnv rounds {sector with addr := failedAddr} arg

def sectorStatisticsCb : Callback SectorMeta (Nat × Nat) := fun sector arg =>
  if sector.checkOk ∧ sector.store = .empty then return (false, arg.1 + 1, arg.2)
  else if sector.checkOk ∧ sector.store = .inUse then return (false, arg.1, arg.2 + 1)
  else return (false, arg)

def allocEnvCb (envSize : Nat) : Callback SectorMeta Nat := fun sector emptyEnv => do
  if sector.checkOk ∧ envSize < sector.remain ∧
      (sector.dirty = .false ∨ (sector.dirty = .true ∧ ¬ (← get).gcRequest)) then return (true, sector.emptyEnv)
  else return (false, emptyEnv)

/-- The end of `alloc_env`: an empty sector is taken, or a collection asked for. -/
def allocFromEmpty (sector : SectorMeta) (emptySector emptyEnv envSize : Nat) : Code (Nat × SectorMeta) := do
  if 0 < emptySector ∧ emptyEnv = failedAddr then
    if efGcEmptySecThreshold < emptySector ∨ (← get).gcRequest then
      let (sector, emptyEnv) ← sectorIterator sector .empty emptyEnv (allocEnvCb envSize) true
      return (emptyEnv, sector)
    else
      modify fun s => {s with gcRequest := true}
      return (emptyEnv, sector)
  else return (emptyEnv, sector)

/-- `alloc_env`: the address, and the sector it lies in. -/
def allocEnv (sector : SectorMeta) (envSize : Nat) : Code (Nat × SectorMeta) := do
  let (sector, emptySector, usingSector) ← sectorIterator sector .unused (0, 0) sectorStatisticsCb false
  let (sector, emptyEnv) ←
    if 0 < usingSector then sectorIterator sector .inUse failedAddr (allocEnvCb envSize) true
    else pure (sector, failedAddr)
  allocFromEmpty sector emptySector emptyEnv envSize

/-- The end of `del_env`: the sector becomes dirty. -/
def makeDirty (oldEnv : EnvNode) (result : EfErrCode) : Code EfErrCode := do
  let dirtyStatusAddr := alignDown oldEnv.start + sectorDirtyOffset
  if result = .noErr then
    if (← readStatus dirtyStatusAddr DirtyStatus.num) = DirtyStatus.false.index then
      writeStatus dirtyStatusAddr DirtyStatus.num DirtyStatus.true.index
    else return result
  else return result

/-- `del_env` once the node is found; without a key the name is that of the node. -/
def delEnvFound (key : Option (List Byte)) (oldEnv : EnvNode) (completeDel : Bool) : Code EfErrCode := do
  if ¬ completeDel then
    let result ← writeStatus oldEnv.start EnvStatus.num EnvStatus.preDelete.index
    modify fun s => {s with lastIsCompleteDel := true}
    makeDirty oldEnv result
  else
    let result ← writeStatus oldEnv.start EnvStatus.num EnvStatus.deleted.index
    if ¬ (← get).lastIsCompleteDel ∧ result = .noErr then updateEnvCache (key.getD oldEnv.name) failedAddr
    modify fun s => {s with lastIsCompleteDel := false}
    makeDirty oldEnv result

def delEnv (key : List Byte) (completeDel : Bool) : Code EfErrCode := do
  let (found, env) ← findEnv key EnvNode.fresh
  if found then delEnvFound (some key) env completeDel
  else return .envNameErr

/-- The node is copied, 32 bytes at a time, from `len` bytes behind its status on. -/
def copyFrom (src dst envLen : Nat) : Nat → Nat → EfErrCode → Code EfErrCode
  | 0, _, _ => failure
  | n + 1, len, result =>
    if len < envLen then do
      let size := if len + 32 < envLen then 32 else envLen - len
      let buf ← efPortRead (src + envMagicOffset + len) size
      let result ← efPortWrite (dst + envMagicOffset + len) buf
      copyFrom src dst envLen n (len + size) result
    else return result

/-- The C string a buffer begins with. -/
def cStr (bs : List Byte) : List Byte := bs.takeWhile (· ≠ 0)

def moveEnv (env : EnvNode) : Code EfErrCode := do
  if env.status = .write then
    let _ ← delEnvFound none env false
  let (envAddr, sector) ← allocEnv SectorMeta.fresh env.len
  if envAddr = failedAddr then return .envFull
  else
    let present ← if (← get).inRecoveryCheck then Prod.fst <$> findEnvNoCache (cStr env.name) EnvNode.fresh else pure false
    if present then
      let _ ← delEnvFound none env true
      return .noErr
    else
      let _ ← updateSecStatus sector env.len false
      let _ ← writeStatus envAddr EnvStatus.num EnvStatus.preWrite.index
      let result ← copyFrom env.start envAddr (env.len - envMagicOffset) rounds 0 .noErr
      let _ ← writeStatus envAddr EnvStatus.num EnvStatus.write.index
      updateSectorCache (alignDown envAddr) (envAddr + envHdrDataSize + env.nameLen + env.valueLen)
      updateEnvCache env.name envAddr
      let _ ← delEnvFound none env true
      return result

/-- The nodes of a sector are moved. -/
def doGcFrom (sector : SectorMeta) : Nat → EnvNode → Code Unit
  | 0, _ => failure
  | n + 1, env => do
    let addr ← getNextEnvAddr sector env
    if addr = failedAddr then return ()
    else
      let (_, env) ← readEnv {env with start := addr}
      if env.crcIsOk ∧ (env.status = .write ∨ env.status = .preDelete) then
        let _ ← moveEnv env
      doGcFrom sector n env

def doGc : Callback SectorMeta Unit := fun sector _ => do
  if sector.checkOk ∧ (sector.dirty = .true ∨ sector.dirty = .gc) then
    let _ ← writeStatus (sector.addr + sectorDirtyOffset) DirtyStatus.num DirtyStatus.gc.index
    doGcFrom sector rounds EnvNode.fresh
    let _ ← formatSector sector.addr sectorNotCombined
  return (false, ())

def gcCheckCb : Callback SectorMeta Nat := fun sector emptySec =>
  return (false, if sector.checkOk then emptySec + 1 else emptySec)

def gcCollect : Code Unit := do
  let (sector, emptySec) ← sectorIterator SectorMeta.fresh .empty 0 gcCheckCb false
  if emptySec ≤ efGcEmptySecThreshold then
    let _ ← sectorIterator sector .unused () doGc false
  modify fun s => {s with gcRequest := false}

def newEnv (sector : SectorMeta) (envSize : Nat) : Code (Nat × SectorMeta) := do
  let (emptyEnv, sector) ← allocEnv sector envSize
  if emptyEnv = failedAddr ∧ (← get).gcRequest then
    gcCollect
    allocEnv sector envSize
  else return (emptyEnv, sector)

def newEnvByKv (sector : SectorMeta) (keyLen bufLen : Nat) : Code (Nat × SectorMeta) :=
  newEnv sector (envHdrDataSize + keyLen + bufLen)

def alignWrite (addr : Nat) (buf : List Byte) : Code EfErrCode := efPortWrite addr buf

/-- The checksum of a node: the lengths, the name and the value. -/
def nodeCrc (key value : List Byte) : BitVec 32 :=
  efCalcCrc32 (efCalcCrc32 (efCalcCrc32 0 ([BitVec.ofNat 8 key.length, 0xFF, 0xFF, 0xFF] ++ toLe32 value.length)) key) value

def createEnvBlob (sector : SectorMeta) (key value : List Byte) : Code (EfErrCode × SectorMeta) := do
  if efEnvNameMax < key.length then return (.envNameErr, sector)
  else
    let len := envHdrDataSize + key.length + value.length
    if sectorSize - sectorHdrDataSize < len then return (.envFull, sector)
    else
      let (envAddr, sector) ← if sector.emptyEnv ≠ failedAddr then pure (sector.emptyEnv, sector) else newEnv sector len
      if envAddr = failedAddr then return (.envFull, sector)
      else
        let (result, isFull) ← updateSecStatus sector len false
        let result ← if result = .noErr then
            writeEnvHdr envAddr (envHdr (nodeCrc key value).toNat key.length value.length)
          else pure result
        let result ← if result = .noErr then do
            let result ← alignWrite (envAddr + envHdrDataSize) key
            if ¬ isFull then updateSectorCache sector.addr (envAddr + envHdrDataSize + key.length + value.length)
            updateEnvCache key envAddr
            pure result
          else pure result
        let result ← if result = .noErr then alignWrite (envAddr + envHdrDataSize + key.length) value else pure result
        let result ← if result = .noErr then writeStatus envAddr EnvStatus.num EnvStatus.write.index else pure result
        if result = .noErr ∧ isFull then modify fun s => {s with gcRequest := true}
        return (result, sector)

def efDelEnv (key : List Byte) : Code EfErrCode := do
  if ¬ (← get).initOk then return .envInitFailed
  else delEnv key true

/-- `set_env`; the value may be NULL. -/
def setEnv (key : List Byte) : Option (List Byte) → Code EfErrCode
  | none => delEnv key true
  | some value => do
    let (emptyEnv, sector) ← newEnvByKv SectorMeta.fresh key.length value.length
    if emptyEnv = failedAddr then return .envFull
    else
      let (envIsFound, env) ← findEnv key EnvNode.fresh
      let result ← if envIsFound then delEnvFound (some key) env false else pure .noErr
      let result ← if result = .noErr then Prod.fst <$> createEnvBlob sector key value else pure result
      let result ← if envIsFound ∧ result = .noErr then delEnvFound (some key) env true else pure result
      if (← get).gcRequest then gcCollect
      return result

def efSetEnvBlob (key : List Byte) (value : Option (List Byte)) : Code EfErrCode := do
  if ¬ (← get).initOk then return .envInitFailed
  else setEnv key value

/-- `ef_set_env`: the value is a C string. -/
def efSetEnv (key value : List Byte) : Code EfErrCode := efSetEnvBlob key (some value)

/-! ### Initialisation -/

def createDefaults : List (List Byte × List Byte) → Code Unit
  | [] => return ()
  | (key, value) :: rest => do
    let _ ← createEnvBlob {SectorMeta.fresh with emptyEnv := failedAddr} key value
    createDefaults rest

def formatSectors : Nat → Nat → Code EfErrCode
  | 0, _ => return .noErr
  | n + 1, addr => do
    let result ← formatSector addr sectorNotCombined
    if result ≠ .noErr then return result else formatSectors n (addr + sectorSize)

def efEnvSetDefault (defaultEnvSet : List (List Byte × List Byte)) : Code EfErrCode := do
  if defaultEnvSet = [] then failure
  else
    let result ← formatSectors sectorNum envStartAddr
    if result ≠ .noErr then return result
    else
      createDefaults defaultEnvSet
      return result

def checkSecHdrCb : Callback SectorMeta Nat := fun sector failedCount => do
  if sector.checkOk then return (false, failedCount)
  else
    let _ ← formatSector sector.addr sectorNotCombined
    return (false, failedCount + 1)

def checkAndRecoveryGcCb : Callback SectorMeta Unit := fun sector _ => do
  if sector.checkOk ∧ sector.dirty = .gc then
    modify fun s => {s with gcRequest := true}
    gcCollect
  return (false, ())

def checkAndRecoveryEnvCb : Callback EnvNode Unit := fun env _ => do
  if env.crcIsOk ∧ env.status = .preDelete then
    let result ← moveEnv env
    return (if result = .noErr then false else true, ())
  else if env.status = .preWrite then
    let _ ← writeStatus env.start EnvStatus.num EnvStatus.errHdr.index
    return (true, ())
  else return (false, ())

/-- `__retry` of `ef_load_env`. -/
def recoverFrom : Nat → EnvNode → Code Unit
  | 0, _ => failure
  | n + 1, env => do
    let (env, _) ← envIterator checkAndRecoveryEnvCb env ()
    if (← get).gcRequest then
      gcCollect
      recoverFrom n env

def efLoadEnv (defaultEnvSet : List (List Byte × List Byte)) : Code EfErrCode := do
  modify fun s => {s with inRecoveryCheck := true}
  let (sector, checkFailedCount) ← sectorIterator SectorMeta.fresh .unused 0 checkSecHdrCb false
  if checkFailedCount = sectorNum then
    let _ ← efEnvSetDefault defaultEnvSet
  let _ ← sectorIterator sector .unused () checkAndRecoveryGcCb false
  recoverFrom rounds EnvNode.fresh
  modify fun s => {s with inRecoveryCheck := false}
  return .noErr

def efEnvInit (defaultEnvSet : List (List Byte × List Byte)) : Code EfErrCode := do
  if (← get).initOk then return .noErr
  else
    modify fun s => {s with
      sectorCacheTable := s.sectorCacheTable.map fun x => {x with addr := failedAddr}
      envCacheTable := s.envCacheTable.map fun x => {x with addr := failedAddr}}
    let result ← efLoadEnv defaultEnvSet
    if result = .noErr then modify fun s => {s with initOk := true}
    return result

end Backwash.EasyFlash
