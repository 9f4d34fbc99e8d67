import Backwash.EasyFlash.Env
import Backwash.Storage.Runs

/-! How the nodes lie on the chip.

A node is a status byte, three bytes that are never written, and a body: the rest of the
header, the name and the value. The body never changes; what reads a node finds its name and
value whatever its status. -/
namespace Backwash.EasyFlash
open Storage

/-! ### Words and statuses -/

theorem le32_toLe32 {n : Nat} (h : n < 2 ^ 32) (rest : List Byte) : le32 (toLe32 n ++ rest) 0 = n := by
  simp only [le32, toLe32, List.cons_append, List.nil_append, List.getD_cons_zero, List.getD_cons_succ, BitVec.toNat_ofNat]
  omega

theorem le32_drop (bs : List Byte) (k i : Nat) : le32 (bs.drop k) i = le32 bs (k + i) := by
  simp only [le32, List.getD_eq_getElem?_getD, List.getElem?_drop, Nat.add_assoc]

@[simp] theorem length_toLe32 (n : Nat) : (toLe32 n).length = 4 := rfl

theorem getStatusFrom_cons (st : Byte) (rest : List Byte) {n : Nat} (h : n ≤ 8) :
    getStatusFrom (st :: rest) n = getStatusFrom [st] n := by
  induction n with
  | zero => rfl
  | succ n ih =>
    have hn : n / 8 = 0 := by omega
    rw [getStatusFrom, getStatusFrom, ih (by omega), hn]
    rfl

/-- A status is read from one byte. -/
theorem getStatus_cons (st : Byte) (rest : List Byte) {num : Nat} (h : num ≤ 8) :
    getStatus (st :: rest) num = getStatus [st] num := getStatusFrom_cons st rest (by omega)

/-- A byte that is no byte of the magic word. -/
def Plain (b : Byte) : Prop := b ≠ 0x4B ∧ b ≠ 0x56 ∧ b ≠ 0x34 ∧ b ≠ 0x30

instance (b : Byte) : Decidable (Plain b) := inferInstanceAs (Decidable (_ ∧ _))

/-! ### Nodes -/

structure Node where
  status : Byte
  name : List Byte
  value : List Byte

namespace Node

def size (n : Node) : Nat := envHdrDataSize + n.name.length + n.value.length

def hdr (n : Node) : List Byte := envHdr (nodeCrc n.name n.value).toNat n.name.length n.value.length

def body (n : Node) : List Byte := n.hdr ++ (n.name ++ n.value)

def bytes (n : Node) : List Byte := n.status :: 0xFF :: 0xFF :: 0xFF :: n.body

def state (n : Node) : EnvStatus := EnvStatus.ofIndex (getStatus [n.status] EnvStatus.num)

/-- What `read_env` fills in for a node at `p`. -/
def env (n : Node) (p : Nat) : EnvNode :=
  ⟨n.state, true, n.name.length, n.size, n.value.length, n.name, p, p + envHdrDataSize + n.name.length⟩

/-- A node that a sector has room for, under a name that is a C string. -/
structure Ok (n : Node) : Prop where
  status : Plain n.status
  name_le : n.name.length ≤ efEnvNameMax
  name_ne : ∀ b ∈ n.name, b ≠ 0
  size_le : n.size ≤ sectorSize - sectorHdrDataSize

variable {n : Node} {f : Flash} {p : Nat}

@[simp] theorem length_hdr (n : Node) : n.hdr.length = 20 := rfl

theorem length_body (n : Node) : n.body.length = n.size - 4 := by
  simp only [body, List.length_append, length_hdr, size, envHdrDataSize]
  omega

theorem size_ge (n : Node) : 24 ≤ n.size := by
  simp only [size, envHdrDataSize]
  omega

@[simp] theorem length_bytes (n : Node) : n.bytes.length = n.size := by
  have hsize := n.size_ge
  simp only [bytes, List.length_cons, length_body]
  omega

theorem read_hdr (h : f.Holds p n.bytes) : f.read p envHdrDataSize = n.status :: 0xFF :: 0xFF :: 0xFF :: n.hdr := by
  have hbytes : n.bytes = (n.status :: 0xFF :: 0xFF :: 0xFF :: n.hdr) ++ (n.name ++ n.value) := by simp [bytes, body]
  rw [hbytes, Flash.holds_append] at h
  exact h.1.read_eq (by simp [envHdrDataSize])

theorem read_name (h : f.Holds p n.bytes) : f.Holds (p + envHdrDataSize) n.name := by
  have hbytes : n.bytes = (n.status :: 0xFF :: 0xFF :: 0xFF :: n.hdr) ++ (n.name ++ n.value) := by simp [bytes, body]
  rw [hbytes, Flash.holds_append, Flash.holds_append] at h
  exact h.2.1

theorem read_value (h : f.Holds p n.bytes) : f.Holds (p + envHdrDataSize + n.name.length) n.value := by
  have hbytes : n.bytes = (n.status :: 0xFF :: 0xFF :: 0xFF :: n.hdr) ++ (n.name ++ n.value) := by simp [bytes, body]
  rw [hbytes, Flash.holds_append, Flash.holds_append] at h
  exact h.2.2

/-- The checked part: the lengths, the name and the value. -/
def checked (n : Node) : List Byte :=
  [BitVec.ofNat 8 n.name.length, 0xFF, 0xFF, 0xFF] ++ toLe32 n.value.length ++ (n.name ++ n.value)

theorem crc_checked (n : Node) : efCalcCrc32 0 n.checked = nodeCrc n.name n.value := by
  rw [checked, efCalcCrc32_append, efCalcCrc32_append, nodeCrc]

theorem read_checked (h : f.Holds p n.bytes) : f.Holds (p + envNameLenOffset) n.checked := by
  have hbytes : n.bytes = (n.status :: 0xFF :: 0xFF :: 0xFF :: (toLe32 envMagicWord ++ toLe32 n.size ++
      toLe32 (nodeCrc n.name n.value).toNat)) ++ n.checked := by
    simp [bytes, body, hdr, envHdr, checked, size]
  rw [hbytes, Flash.holds_append] at h
  exact h.2

theorem length_checked (n : Node) : n.checked.length = n.size - envNameLenOffset := by
  simp only [checked, List.length_append, List.length_cons, List.length_nil, length_toLe32, size, envHdrDataSize, envNameLenOffset]
  omega

theorem le32_hdr_len (h : n.Ok) : le32 (n.status :: 0xFF :: 0xFF :: 0xFF :: n.hdr) 8 = n.size := by
  refine (le32_drop _ 8 0).symm.trans (le32_toLe32 (Nat.lt_of_le_of_lt h.size_le (by decide)) _)

theorem le32_hdr_crc (n : Node) : le32 (n.status :: 0xFF :: 0xFF :: 0xFF :: n.hdr) 12 = (nodeCrc n.name n.value).toNat := by
  exact (le32_drop _ 12 0).symm.trans (le32_toLe32 (BitVec.isLt _) _)

theorem le32_hdr_valueLen (h : n.Ok) : le32 (n.status :: 0xFF :: 0xFF :: 0xFF :: n.hdr) 20 = n.value.length := by
  have hsize := h.size_le
  simp only [size, sectorSize, sectorHdrDataSize] at hsize
  exact (le32_drop _ 20 0).symm.trans (le32_toLe32 (by omega) [])

end Node

/-! ### Reading a node -/

theorem crcFrom_eq (s : Store) (addr total : Nat) {fuel : Nat} (len : Nat) (crc : BitVec 32) (hfuel : total - len < fuel)
    (hlen : len ≤ total) :
    (crcFrom addr total fuel len crc).run s =
      some (efCalcCrc32 crc (s.flash.read (addr + len) (total - len)), s) := by
  induction fuel generalizing len crc with
  | zero => omega
  | succ fuel ih =>
    by_cases hlt : len < total
    · simp only [crcFrom, hlt, if_true]
      have hread : ∀ k, 0 < k → len + k ≤ total →
          (do let buf ← efPortRead (addr + len) k
              crcFrom addr total fuel (len + k) (efCalcCrc32 crc buf)).run s =
            some (efCalcCrc32 crc (s.flash.read (addr + len) (total - len)), s) := by
        intro k hk hle
        have hrest := ih (len + k) (efCalcCrc32 crc (s.flash.read (addr + len) k)) (by omega) hle
        rw [show total - len = k + (total - (len + k)) by omega, Flash.read_add, efCalcCrc32_append, Nat.add_assoc addr]
        exact hrest
      split
      · exact hread 32 (by omega) (by omega)
      · exact hread (total - len) (by omega) (by omega)
    · have : len = total := by omega
      subst this
      simp [crcFrom, Flash.read]

theorem run_efPortRead (s : Store) (addr size : Nat) :
    (efPortRead addr size).run s = some (s.flash.read addr size, s) := rfl

/-- A node is read as it was written. -/
theorem readEnv_node {s : Store} {n : Node} {p : Nat} (hn : n.Ok) (h : s.flash.Holds p n.bytes) (env : EnvNode) :
    (readEnv {env with start := p}).run s = some ((.noErr, n.env p), s) := by
  have hsize := hn.size_le
  have hge := n.size_ge
  have hname := hn.name_le
  simp only [sectorSize, sectorHdrDataSize, efEnvNameMax] at hsize hname
  have hlen := Node.le32_hdr_len hn
  have hnlen : ((n.status :: 0xFF :: 0xFF :: 0xFF :: n.hdr).getD 16 0).toNat = n.name.length := by
    show (BitVec.ofNat 8 n.name.length).toNat = n.name.length
    rw [BitVec.toNat_ofNat]
    omega
  have hcrc := crcFrom_eq s (p + envNameLenOffset) (n.size - envNameLenOffset) 0 0
    (show _ < rounds by simp only [rounds, envAreaSize, envNameLenOffset]; omega) (Nat.zero_le _)
  rw [Nat.add_zero, Nat.sub_zero, (Node.read_checked h).read_eq n.length_checked.symm, n.crc_checked] at hcrc
  unfold readEnv
  rw [run_bind_of (run_efPortRead ..), Node.read_hdr h,
    if_neg (by rw [hlen]; simp only [envAreaSize, envNameLenOffset]; omega),
    if_neg (by rw [hlen]; simp only [sectorSize, sectorHdrDataSize, envAreaSize]; omega), hlen, run_bind_of hcrc,
    if_neg (by rw [Node.le32_hdr_crc]; exact not_not_intro rfl), run_bind_of (run_efPortRead ..), hnlen,
    if_neg (by simp only [efEnvNameMax]; omega), Node.read_name h, Node.le32_hdr_valueLen hn,
    getStatus_cons _ _ (by decide)]
  rfl

end Backwash.EasyFlash
