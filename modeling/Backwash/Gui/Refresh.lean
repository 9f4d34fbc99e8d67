import Backwash.Firmware.Device
import Backwash.Gui.Canvas

/-! A refresh: 12864.c and GuiUpdateDisplayAll.

The controller behind the pins takes SDA at every rising edge of CLK, eight bits for a byte,
the most significant first. A trace of pin writes is said to do to the controller's memory
what its bytes say; three writes are a bit, eight bits a byte, 131 bytes a page. -/
namespace Backwash.Gui
open Firmware (Pin)

/-! ### The driver -/

/-- The loop of `WriteLcdCommand` and `WriteLcdData`, for its last `n` rounds. -/
def writeBits : Nat → BitVec 8 → List (Pin × Bool)
  | 0, _ => []
  | n + 1, data =>
    (.lcdClk, false) :: (.lcdSda, data &&& 0x80 != 0) :: (.lcdClk, true) :: writeBits n (data <<< 1)

def writeLcdCommand (cmd : BitVec 8) : List (Pin × Bool) := (.lcdCs, false) :: writeBits 8 cmd

def writeLcdData (data : BitVec 8) : List (Pin × Bool) := (.lcdCs, true) :: writeBits 8 data

def lcdAddress (page column : BitVec 8) : List (Pin × Bool) :=
  writeLcdCommand (0xb0 + page) ++ writeLcdCommand (((column >>> 4) &&& 0x0f) + 0x10) ++
    writeLcdCommand (column &&& 0x0f)

/-- `GuiUpdateDisplayAll`. -/
def guiUpdateDisplayAll (xToPage : Buffer) : List (Pin × Bool) :=
  (List.range 8).flatMap fun y =>
    lcdAddress (.ofNat 8 y) 0 ++ (List.range 128).flatMap fun x => writeLcdData (xToPage x y)

/-! ### The controller -/

/-- The display memory and the address of the next byte. -/
structure Memory where
  page : BitVec 4
  column : BitVec 8
  ram : BitVec 4 → BitVec 8 → BitVec 8

namespace Memory

/-- A command: a page, or a half of the column. Others do nothing to the memory. -/
def command (s : Memory) (cmd : BitVec 8) : Memory :=
  if cmd >>> 4 = 0xb then {s with page := cmd.setWidth 4}
  else if cmd >>> 4 = 0x1 then {s with column := (cmd &&& 0x0f) <<< 4 ||| (s.column &&& 0x0f)}
  else if cmd >>> 4 = 0x0 then {s with column := (s.column &&& 0xf0) ||| (cmd &&& 0x0f)}
  else s

def data (s : Memory) (b : BitVec 8) : Memory :=
  {s with
    column := s.column + 1
    ram := fun p c => if p = s.page ∧ c = s.column then b else s.ram p c}

end Memory

structure Controller where
  cs : Bool
  sda : Bool
  clk : Bool
  /-- What has come of the next byte. -/
  bits : List Bool
  memory : Memory

/-- The byte of eight bits, the most significant first. -/
def byteOf (bits : List Bool) : BitVec 8 := bits.foldl BitVec.shiftConcat 0

/-- A rising edge of CLK. -/
def Controller.sample (s : Controller) : Controller :=
  let bits := s.bits ++ [s.sda]
  if bits.length < 8 then {s with bits}
  else {s with bits := [], memory := if s.cs then s.memory.data (byteOf bits) else s.memory.command (byteOf bits)}

def next (s : Controller) : Pin × Bool → Controller
  | (.lcdCs, level) => {s with cs := level}
  | (.lcdSda, level) => {s with sda := level}
  | (.lcdClk, level) => if level && !s.clk then {s with clk := level}.sample else {s with clk := level}
  | _ => s

def run (s : Controller) : List (Pin × Bool) → Controller
  | [] => s
  | w :: rest => run (next s w) rest

theorem run_append (s : Controller) (a b : List (Pin × Bool)) : run s (a ++ b) = run (run s a) b := by
  induction a generalizing s with
  | nil => rfl
  | cons w rest ih => exact ih _

/-! ### Bytes -/

/-- The bits that `writeBits` puts on SDA. -/
def sentBits : Nat → BitVec 8 → List Bool
  | 0, _ => []
  | n + 1, data => (data &&& 0x80 != 0) :: sentBits n (data <<< 1)

theorem byteOf_sentBits : ∀ data : BitVec 8, byteOf (sentBits 8 data) = data := by
  decide +kernel

/-- Three writes are one sample, whatever the clock was. -/
theorem run_bit (s : Controller) (n : Nat) (data : BitVec 8) :
    run s (writeBits (n + 1) data) =
      run {s with sda := data &&& 0x80 != 0, clk := true}.sample (writeBits n (data <<< 1)) := rfl

/-- The last bits of a byte complete it. -/
theorem run_writeBits (s : Controller) (n : Nat) (data : BitVec 8) (h : s.bits.length + (n + 1) = 8) :
    (run s (writeBits (n + 1) data)).bits = [] ∧
    (run s (writeBits (n + 1) data)).memory =
      if s.cs then s.memory.data (byteOf (s.bits ++ sentBits (n + 1) data))
      else s.memory.command (byteOf (s.bits ++ sentBits (n + 1) data)) := by
  induction n generalizing s data with
  | zero =>
    have hlast : ¬ (s.bits ++ [data &&& 0x80 != 0]).length < 8 := by
      rw [List.length_append, List.length_singleton]
      omega
    rw [run_bit, Controller.sample, if_neg hlast]
    exact ⟨rfl, rfl⟩
  | succ n ih =>
    have hmore : (s.bits ++ [data &&& 0x80 != 0]).length < 8 := by
      rw [List.length_append, List.length_singleton]
      omega
    rw [run_bit, Controller.sample, if_pos hmore]
    obtain ⟨hbits, hmemory⟩ :=
      ih {s with sda := data &&& 0x80 != 0, clk := true, bits := s.bits ++ [data &&& 0x80 != 0]} (data <<< 1)
        (by rw [List.length_append, List.length_singleton]; omega)
    refine ⟨hbits, hmemory.trans ?_⟩
    simp only [List.append_assoc, List.singleton_append, sentBits]

/-! ### What a trace does to the memory -/

/-- From any state of the pins at the beginning of a byte, the trace ends at the beginning of a
byte and has done `f` to the memory. -/
def Does (trace : List (Pin × Bool)) (f : Memory → Memory) : Prop :=
  ∀ s : Controller, s.bits = [] → (run s trace).bits = [] ∧ (run s trace).memory = f s.memory

theorem does_writeLcdCommand (cmd : BitVec 8) : Does (writeLcdCommand cmd) (·.command cmd) := by
  intro s hs
  have hselect : run s (writeLcdCommand cmd) = run {s with cs := false} (writeBits (7 + 1) cmd) := by
    rw [writeLcdCommand, run, next]
  obtain ⟨hbits, hmemory⟩ := run_writeBits {s with cs := false} 7 cmd (by rw [hs]; rfl)
  rw [hselect]
  refine ⟨hbits, hmemory.trans ?_⟩
  rw [if_neg Bool.false_ne_true, hs, List.nil_append, byteOf_sentBits]

theorem does_writeLcdData (data : BitVec 8) : Does (writeLcdData data) (·.data data) := by
  intro s hs
  have hselect : run s (writeLcdData data) = run {s with cs := true} (writeBits (7 + 1) data) := by
    rw [writeLcdData, run, next]
  obtain ⟨hbits, hmemory⟩ := run_writeBits {s with cs := true} 7 data (by rw [hs]; rfl)
  rw [hselect]
  refine ⟨hbits, hmemory.trans ?_⟩
  rw [if_pos rfl, hs, List.nil_append, byteOf_sentBits]

theorem Does.append {a b : List (Pin × Bool)} {f g : Memory → Memory} (ha : Does a f) (hb : Does b g) :
    Does (a ++ b) (g ∘ f) := by
  intro s hs
  obtain ⟨hbits, hmemory⟩ := ha s hs
  obtain ⟨hbits', hmemory'⟩ := hb (run s a) hbits
  rw [run_append]
  exact ⟨hbits', by rw [hmemory', hmemory]; rfl⟩

theorem Does.flatMap {t : Nat → List (Pin × Bool)} {f : Nat → Memory → Memory} (n : Nat)
    (h : ∀ k < n, Does (t k) (f k)) :
    Does ((List.range n).flatMap t) fun s => (List.range n).foldl (fun s k => f k s) s := by
  induction n with
  | zero => exact fun s hs => ⟨hs, rfl⟩
  | succ n ih =>
    have hrest := ih fun k hk => h k (Nat.lt_succ_of_lt hk)
    simp only [List.range_succ, List.flatMap_append, List.flatMap_singleton, List.foldl_append, List.foldl_cons,
      List.foldl_nil]
    exact hrest.append (h n (Nat.lt_succ_self n))

/-! ### The refresh -/

section Command
variable (s : Memory) {n : BitVec 8}

theorem command_page (h : n < 16) : s.command (0xb0 + n) = {s with page := n.setWidth 4} := by
  have hcode : ∀ n : BitVec 8, n < 16 → (0xb0 + n) >>> 4 = 0xb ∧ (0xb0 + n).setWidth 4 = n.setWidth 4 := by
    decide +kernel
  rw [Memory.command, if_pos (hcode n h).1, (hcode n h).2]

theorem command_high (h : n < 16) : s.command (n + 0x10) = {s with column := n <<< 4 ||| (s.column &&& 0x0f)} := by
  have hcode : ∀ n : BitVec 8, n < 16 → (n + 0x10) >>> 4 = 0x1 ∧ (n + 0x10) &&& 0x0f = n := by decide +kernel
  rw [Memory.command, (hcode n h).1, if_neg (by decide), if_pos rfl, (hcode n h).2]

theorem command_low (h : n < 16) : s.command n = {s with column := (s.column &&& 0xf0) ||| n} := by
  have hcode : ∀ n : BitVec 8, n < 16 → n >>> 4 = 0x0 ∧ n &&& 0x0f = n := by decide +kernel
  rw [Memory.command, (hcode n h).1, if_neg (by decide), if_neg (by decide), if_pos rfl, (hcode n h).2]

end Command

/-- The two halves of a column, of which the second write keeps the first. -/
theorem column_halves (old column : BitVec 8) :
    ((((column >>> 4) &&& 0x0f) <<< 4 ||| (old &&& 0x0f)) &&& 0xf0) ||| (column &&& 0x0f) = column := by
  have hnew : ∀ c : BitVec 8, ((((c >>> 4) &&& 0x0f) <<< 4) &&& 0xf0) ||| (c &&& 0x0f) = c := by decide +kernel
  have hold : (old &&& 0x0f) &&& 0xf0 = 0#8 := by
    rw [BitVec.and_assoc]
    exact BitVec.and_zero
  rw [BitVec.and_or_distrib_right, hold, BitVec.or_zero, hnew]

/-- The three commands set page and column, whatever they were. -/
theorem does_lcdAddress (page column : BitVec 8) (hpage : page < 16) :
    Does (lcdAddress page column) ({· with page := page.setWidth 4, column}) := by
  have hnibble : ∀ n : BitVec 8, n &&& 0x0f < 16 := by decide +kernel
  intro s hs
  obtain ⟨hbits, hmemory⟩ := (((does_writeLcdCommand (0xb0 + page)).append
    (does_writeLcdCommand (((column >>> 4) &&& 0x0f) + 0x10))).append (does_writeLcdCommand (column &&& 0x0f))) s hs
  refine ⟨hbits, hmemory.trans ?_⟩
  simp only [Function.comp_apply, command_page _ hpage, command_high _ (hnibble _), command_low _ (hnibble _),
    column_halves]

/-- The bytes of a page, from its first column on. -/
theorem data_foldl (xToPage : Buffer) (y : Nat) (s : Memory) (hs : s.column = 0) (n : Nat) (hn : n ≤ 128) :
    (List.range n).foldl (fun s (x : Nat) => s.data (xToPage x y)) s =
      {s with
        column := .ofNat 8 n
        ram := fun p c => if p = s.page ∧ c.toNat < n then xToPage c.toNat y else s.ram p c} := by
  induction n with
  | zero =>
    have hs : s.column = 0#8 := hs
    simp only [Nat.not_lt_zero, and_false, if_false]
    rw [← hs]
    rfl
  | succ n ih =>
    have hcolumn : (BitVec.ofNat 8 n).toNat = n := by rw [BitVec.toNat_ofNat, Nat.mod_eq_of_lt (by omega)]
    rw [List.range_succ, List.foldl_append, ih (by omega), List.foldl_cons, List.foldl_nil, Memory.data]
    simp only [Memory.mk.injEq, true_and]
    refine ⟨(BitVec.ofNat_add n 1).symm, ?_⟩
    funext p c
    by_cases hp : p = s.page
    · by_cases hc : c = .ofNat 8 n
      · have htoNat : c.toNat = n := by rw [hc, hcolumn]
        rw [if_pos ⟨hp, hc⟩, if_pos ⟨hp, by omega⟩, htoNat]
      · have hne : c.toNat ≠ n := fun h => hc (BitVec.eq_of_toNat_eq (h.trans hcolumn.symm))
        rw [if_neg fun h => hc h.2]
        refine if_congr (and_congr_right fun _ => ?_) rfl rfl
        exact ⟨Nat.lt_succ_of_lt, fun h => Nat.lt_of_le_of_ne (Nat.le_of_lt_succ h) hne⟩
    · rw [if_neg fun h => hp h.1, if_neg fun h => hp h.1, if_neg fun h => hp h.1]

/-- What a page of the refresh leaves. -/
def Memory.paged (xToPage : Buffer) (y : Nat) (s : Memory) : Memory where
  page := .ofNat 4 y
  column := .ofNat 8 128
  ram := fun p c => if p = .ofNat 4 y ∧ c.toNat < 128 then xToPage c.toNat y else s.ram p c

theorem does_page (xToPage : Buffer) (y : Nat) (hy : y < 16) :
    Does (lcdAddress (.ofNat 8 y) 0 ++ (List.range 128).flatMap fun x => writeLcdData (xToPage x y))
      (.paged xToPage y) := by
  have hpage : BitVec.ofNat 8 y < 16 := by
    rw [BitVec.lt_def, BitVec.toNat_ofNat, Nat.mod_eq_of_lt (by omega)]
    exact hy
  have hnibble : (BitVec.ofNat 8 y).setWidth 4 = BitVec.ofNat 4 y := BitVec.setWidth_ofNat_of_le (by decide) y
  intro s hs
  obtain ⟨hbits, hmemory⟩ := ((does_lcdAddress (.ofNat 8 y) 0 hpage).append
    (Does.flatMap 128 fun x _ => does_writeLcdData (xToPage x y))) s hs
  refine ⟨hbits, hmemory.trans ?_⟩
  rw [Function.comp_apply, data_foldl xToPage y _ rfl 128 (Nat.le_refl 128)]
  simp only [hnibble, Memory.paged]

/-- The pages below `n` are as in the buffer after `n` of them. -/
theorem paged_foldl (xToPage : Buffer) (s : Memory) (n : Nat) (hn : n ≤ 16) (p c : Nat) (hp : p < n) (hc : c < 128) :
    ((List.range n).foldl (fun s y => s.paged xToPage y) s).ram (.ofNat 4 p) (.ofNat 8 c) = xToPage c p := by
  have hcolumn : (BitVec.ofNat 8 c).toNat = c := by rw [BitVec.toNat_ofNat, Nat.mod_eq_of_lt (by omega)]
  induction n with
  | zero => exact absurd hp (Nat.not_lt_zero p)
  | succ n ih =>
    rw [List.range_succ, List.foldl_append, List.foldl_cons, List.foldl_nil, Memory.paged]
    simp only [hcolumn]
    by_cases hlast : p = n
    · rw [if_pos ⟨by rw [hlast], hc⟩, hlast]
    · have hne : BitVec.ofNat 4 p ≠ BitVec.ofNat 4 n := by
        intro h
        have htoNat := congrArg BitVec.toNat h
        simp only [BitVec.toNat_ofNat] at htoNat
        omega
      rw [if_neg fun h => hne h.1, ih (by omega) (by omega)]

/-- **A refresh transfers the buffer**, from every state at the beginning of a byte. -/
theorem refresh_is_exact (xToPage : Buffer) (s : Controller) (hs : s.bits = []) (p c : Nat) (hp : p < 8)
    (hc : c < 128) :
    (run s (guiUpdateDisplayAll xToPage)).memory.ram (.ofNat 4 p) (.ofNat 8 c) = xToPage c p := by
  have hrefresh : Does (guiUpdateDisplayAll xToPage) fun s => (List.range 8).foldl (fun s y => s.paged xToPage y) s :=
    Does.flatMap 8 fun y hy => does_page xToPage y (by omega)
  rw [(hrefresh s hs).2]
  exact paged_foldl xToPage s.memory 8 (by decide) p c hp hc

/-- From a controller with the clock high and the chip selected. -/
theorem refresh_is_exact_clock_high :
    (run ⟨false, true, true, [], ⟨3, 77, fun _ _ => 0⟩⟩ (guiUpdateDisplayAll fun a b => .ofInt 8 (a + b))).memory.ram
      (.ofNat 4 7) (.ofNat 8 127) = .ofInt 8 ((127 : Nat) + (7 : Nat)) :=
  refresh_is_exact (fun a b => .ofInt 8 (a + b)) ⟨false, true, true, [], ⟨3, 77, fun _ _ => 0⟩⟩ rfl 7 127
    (by decide) (by decide)

end Backwash.Gui
