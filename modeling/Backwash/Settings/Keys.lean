import Backwash.Firmware.Device
import Backwash.Text.Decimal

/-! The names the settings are stored under.

`Flash_Get` and `Flash_Set` hand EasyFlash the address of an entry of `Key_list`
where its text is meant: the key is what the bytes of the table spell from that
entry on, pointers in little-endian order, up to the first zero byte. EasyFlash is
a map from C strings to C strings. -/
namespace Backwash.Settings.Keys
open Text

/-- `MEMORY` of link.lds: 256K of ROM, 48K of RAM. -/
def InMemory (a : Nat) : Prop :=
  (0x08000000 ≤ a ∧ a < 0x08040000) ∨ (0x20000000 ≤ a ∧ a < 0x2000C000)

/-- Where a build places the nineteen texts of `Key_list`. -/
structure Placement where
  addr : Fin 19 → Nat
  inMemory : ∀ i, InMemory (addr i)

/-- `Key_list[20]`; the last entry has no initializer. -/
def Placement.keyList (p : Placement) : List Nat := List.ofFn p.addr ++ [0]

/-- A pointer in memory, low byte first. -/
def pointerBytes (a : Nat) : List Char :=
  [Char.ofNat (a % 256), Char.ofNat (a / 0x100 % 256), Char.ofNat (a / 0x10000 % 256), Char.ofNat (a / 0x1000000 % 256)]

/-- The C string at an address, given the bytes from there on. -/
def cString (bytes : List Char) : List Char := bytes.takeWhile fun c => c != Char.ofNat 0

/-- `(const char*)&Key_list[id]`. -/
def key (p : Placement) (id : Fin 19) : List Char := cString ((p.keyList.drop id).flatMap pointerBytes)

/-! ### EasyFlash -/

abbrev Env := List Char → Option (List Char)

/-- `default_env_set` of ef_sfud_port.c. -/
def defaultEnvSet : List (String × String) := [
  ("boot_times", "0"),
  ("Reminder_Week", "0"),
  ("Reminder_Day", "0"),
  ("Reminder_Enable", "0"),
  ("Automatic_Week", "0"),
  ("Automatic_Day", "0"),
  ("Automatic_Enable", "0"),
  ("Deltapress_Enable", "0"),
  ("Counter_Manual", "0"),
  ("Counter_Automatic", "0"),
  ("Counter_Deltapress", "0"),
  ("Counter_Error", "0"),
  ("Setting_Deltapress", "0"),
  ("Setting_Hardness", "0"),
  ("Setting_Backwashtime", "0"),
  ("Setting_Language", "0"),
  ("RTC_Reminder_Time", "0"),
  ("RTC_Automatic_Time", "0"),
  ("TDS_Offset", "0")]

def efGetEnv (env : Env) (k : List Char) : Option (List Char) := env k

def efSetEnv (env : Env) (k s : List Char) : Env := Function.update env k (some s)

/-- A blank store, as it is initialised. -/
def blank : Env := fun k => (defaultEnvSet.find? fun e => e.1.toList == k).map fun e => e.2.toList

/-- `Flash_Get`; there is no value where EasyFlash answers NULL. -/
def flashGet (p : Placement) (env : Env) (id : Fin 19) : Option (BitVec 32) :=
  (efGetEnv env (key p id)).map fun s => BitVec.ofInt 32 (atol s)

def flashSet (p : Placement) (env : Env) (id : Fin 19) (value : BitVec 32) : Env :=
  efSetEnv env (key p id) (snprintf 32 (formatLong value.toInt))

/-! ### What a key looks like -/

theorem drop_keyList (p : Placement) (id : Fin 19) :
    p.keyList.drop id = p.addr id :: p.keyList.drop (id + 1) := by
  have hlength : (id : Nat) < p.keyList.length := by
    simp only [Placement.keyList, List.length_append, List.length_ofFn, List.length_singleton]
    omega
  rw [List.drop_eq_getElem_cons hlength]
  congr 1
  exact (List.getElem_append_left (by simp)).trans (List.getElem_ofFn _)

theorem key_eq (p : Placement) (id : Fin 19) :
    ∃ rest, key p id = cString (pointerBytes (p.addr id) ++ rest) :=
  ⟨_, by rw [key, drop_keyList, List.flatMap_cons]⟩

/-- The fourth character of a key, if it has one, is the high byte of an address. -/
theorem key_fourth (p : Placement) (id : Fin 19) {c : Char} (h : (key p id)[3]? = some c) :
    c = Char.ofNat 0x08 ∨ c = Char.ofNat 0x20 := by
  obtain ⟨rest, hkey⟩ := key_eq p id
  have hprefix : key p id <+: pointerBytes (p.addr id) ++ rest := hkey ▸ List.takeWhile_prefix _
  obtain ⟨hlt, hc⟩ := List.getElem?_eq_some_iff.mp h
  have hbyte : c = Char.ofNat (p.addr id / 0x1000000 % 256) := by
    rw [← hc, hprefix.getElem hlt]
    rfl
  have hhigh : p.addr id / 0x1000000 % 256 = 0x08 ∨ p.addr id / 0x1000000 % 256 = 0x20 := by
    have hmem := p.inMemory id
    unfold InMemory at hmem
    omega
  rw [hbyte]
  exact hhigh.imp (congrArg Char.ofNat) (congrArg Char.ofNat)

/-- No key is the name of a default entry: those have letters all along. -/
theorem blank_key (p : Placement) (id : Fin 19) : efGetEnv blank (key p id) = none := by
  have hnames : ∀ e ∈ defaultEnvSet, 3 < e.1.toList.length ∧
      e.1.toList[3]? ≠ some (Char.ofNat 0x08) ∧ e.1.toList[3]? ≠ some (Char.ofNat 0x20) := by
    decide
  have hfind : (defaultEnvSet.find? fun e => e.1.toList == key p id) = none := by
    rw [List.find?_eq_none]
    intro e he heq
    obtain ⟨hlength, h8, h20⟩ := hnames e he
    rw [beq_iff_eq.mp heq] at hlength h8 h20
    have hfourth := List.getElem?_eq_getElem hlength
    rcases key_fourth p id hfourth with hc | hc
    · exact h8 (hfourth.trans (congrArg some hc))
    · exact h20 (hfourth.trans (congrArg some hc))
  rw [efGetEnv, blank, hfind]
  rfl

/-! ### What becomes of a setting -/

/-- On a freshly initialised store the default entry is found, and reads 0. -/
def FreshDefault (p : Placement) (id : Fin 19) : Prop :=
  efGetEnv blank (key p id) = some "0".toList ∧ flashGet p blank id = some 0

/-- A run of `Flash_Set`. -/
def setAll (p : Placement) (env : Env) (sets : List (Fin 19 × BitVec 32)) : Env :=
  sets.foldl (fun env x => flashSet p env x.1 x.2) env

/-- A setting is still there after other settings were stored and another build was
flashed, whatever the store held before. -/
def Survives (p p' : Placement) (id : Fin 19) (value : BitVec 32) : Prop :=
  ∀ (env : Env) (later : List (Fin 19 × BitVec 32)), (∀ x ∈ later, x.1 ≠ id) →
    flashGet p' (setAll p (flashSet p env id value) later) id = some value

/-- No setting of any build is stored under its name. -/
theorem settings_not_under_name (p p' : Placement) (id : Fin 19) (value : BitVec 32) :
    ¬ (FreshDefault p id ∧ Survives p p' id value) := by
  rintro ⟨⟨hfound, -⟩, -⟩
  rw [blank_key] at hfound
  cases hfound

/-- What is stored under a key is what is read under it. -/
theorem flashGet_flashSet {p p' : Placement} {id j : Fin 19} (env : Env) (value : BitVec 32)
    (h : key p' id = key p j) : flashGet p' (flashSet p env j value) id = some value := by
  simp [flashGet, flashSet, efGetEnv, efSetEnv, h, atol_snprintf]

theorem flashSet_of_ne (p : Placement) (env : Env) {id : Fin 19} (value : BitVec 32) {k : List Char}
    (h : k ≠ key p id) : flashSet p env id value k = env k := Function.update_of_ne h _ _

theorem setAll_of_ne (p : Placement) {sets : List (Fin 19 × BitVec 32)} (env : Env) {k : List Char}
    (h : ∀ x ∈ sets, k ≠ key p x.1) : setAll p env sets k = env k := by
  induction sets generalizing env with
  | nil => rfl
  | cons x rest ih =>
    have hrest := ih (flashSet p env x.1 x.2) fun y hy => h y (List.mem_cons_of_mem x hy)
    exact hrest.trans (flashSet_of_ne p env x.2 (h x (List.mem_cons_self ..)))

/-- A setting survives exactly when both builds spell its key alike and no other
setting of the first has the same key. -/
theorem survives_iff (p p' : Placement) (id : Fin 19) (value : BitVec 32) :
    Survives p p' id value ↔ key p' id = key p id ∧ ∀ j, j ≠ id → key p j ≠ key p id := by
  constructor
  · intro h
    have hsame : key p' id = key p id := by
      by_contra hne
      have hnone := h (fun _ => none) [] nofun
      simp [flashGet, setAll, efGetEnv, flashSet_of_ne p _ value hne] at hnone
    refine ⟨hsame, fun j hj hkey => ?_⟩
    -- the other setting's value is read in place of this one's
    have hother := h (fun _ => none) [(j, value + 1)] fun x hx => by
      rw [List.mem_singleton.mp hx]
      exact hj
    have hread := flashGet_flashSet (flashSet p (fun _ => none) id value) (value + 1) (hsame.trans hkey.symm)
    have hval : value + 1 = value := Option.some.inj (hread.symm.trans hother)
    simp at hval
  · rintro ⟨hsame, hother⟩ env later hlater
    have hkeep : setAll p (flashSet p env id value) later (key p' id) = flashSet p env id value (key p' id) := by
      refine setAll_of_ne p _ fun x hx => ?_
      rw [hsame]
      exact (hother x.1 (hlater x hx)).symm
    have hget := flashGet_flashSet env value hsame
    rw [← hget, flashGet, flashGet, efGetEnv, efGetEnv, hkeep]

/-- The texts one after the other in ROM, from an address on. -/
def rom (base : Nat) (hlo : 0x08000000 ≤ base) (hhi : base + 18 * 24 < 0x08040000) : Placement where
  addr := fun i => base + i * 24
  inMemory := fun i => .inl (by omega)

/-- A build with the texts from 0x08012344 on, and one with them four bytes further:
`Reminder_Week` has no default entry in the first, and what the first stores the
second does not find. -/
theorem reminderWeek_lost :
    ¬ FreshDefault (rom 0x08012344 (by decide) (by decide)) 1 ∧
    ¬ Survives (rom 0x08012344 (by decide) (by decide)) (rom 0x08012348 (by decide) (by decide)) 1 5 := by
  refine ⟨fun h => absurd h.1 (by decide), fun h => absurd (h (fun _ => none) [] nofun) (by decide)⟩

/-! ### The store by index

The rest of the firmware is modelled over a store by index. That is what EasyFlash
provides as long as the keys of a build differ. -/

/-- The store by index is what `Flash_Get` reads. -/
def Represents (p : Placement) (env : Env) (s : Firmware.Device) : Prop :=
  ∀ id : Fin 19, (flashGet p env id).map BitVec.toNat = some (s.flash id)

theorem represents_efSet {p : Placement} (hkey : Function.Injective (key p)) {env : Env} {s : Firmware.Device}
    (h : Represents p env s) (t : Firmware.Thread) (i : Firmware.Input) (id : Fin 19) (n : Nat) :
    Represents p (flashSet p env id (BitVec.ofNat 32 n)) (Firmware.exec t (.efSet id n) i s).1 := by
  intro j
  by_cases hj : j = id
  · subst hj
    simp [flashGet_flashSet, Firmware.exec]
  · have hne : key p j ≠ key p id := fun e => hj (hkey e)
    have hflash : (Firmware.exec t (.efSet id n) i s).1.flash j = s.flash j := by
      simp [Firmware.exec, Fin.val_ne_of_ne hj]
    rw [hflash, ← h j, flashGet, flashGet, efGetEnv, efGetEnv, flashSet_of_ne p env _ hne]

theorem cString_cons {c : Char} (hc : c ≠ Char.ofNat 0) (rest : List Char) : cString (c :: rest) = c :: cString rest := by
  simp [cString, hc]

theorem byte_injective {a b : Nat} (ha : a < 256) (hb : b < 256) (h : Char.ofNat a = Char.ofNat b) : a = b := by
  have hval : ∀ n < 256, (Char.ofNat n).toNat = n := by decide +kernel
  rw [← hval a ha, ← hval b hb, h]

/-- In ROM the keys differ as soon as no text lies at an address with a zero in its
low two bytes. -/
theorem key_injective {p : Placement} (hrom : ∀ i, p.addr i < 0x08040000)
    (hlow : ∀ i, p.addr i % 256 ≠ 0 ∧ p.addr i / 0x100 % 256 ≠ 0) (hd : Function.Injective p.addr) :
    Function.Injective (key p) := by
  have hbyte : ∀ {n : Nat}, n % 256 ≠ 0 → Char.ofNat (n % 256) ≠ Char.ofNat 0 := fun hn e =>
    hn (byte_injective (by omega) (by omega) e)
  have hkey : ∀ i, ∃ rest, key p i = Char.ofNat (p.addr i % 256) :: Char.ofNat (p.addr i / 0x100 % 256) ::
      cString (Char.ofNat (p.addr i / 0x10000 % 256) :: rest) := by
    intro i
    obtain ⟨rest, h⟩ := key_eq p i
    refine ⟨Char.ofNat (p.addr i / 0x1000000 % 256) :: rest, ?_⟩
    rw [h, ← cString_cons (hbyte (hlow i).2), ← cString_cons (hbyte (hlow i).1)]
    rfl
  intro i j h
  obtain ⟨ri, hi⟩ := hkey i
  obtain ⟨rj, hj⟩ := hkey j
  rw [hi, hj] at h
  injection h with h0 h
  injection h with h1 h
  have e0 := byte_injective (by omega) (by omega) h0
  have e1 := byte_injective (by omega) (by omega) h1
  -- a zero third byte ends both keys or none
  have e2 : p.addr i / 0x10000 % 256 = p.addr j / 0x10000 % 256 := by
    by_cases hzi : p.addr i / 0x10000 % 256 = 0
    · by_cases hzj : p.addr j / 0x10000 % 256 = 0
      · rw [hzi, hzj]
      · rw [hzi, cString_cons (hbyte hzj)] at h
        cases h
    · by_cases hzj : p.addr j / 0x10000 % 256 = 0
      · rw [hzj, cString_cons (hbyte hzi)] at h
        cases h
      · rw [cString_cons (hbyte hzi), cString_cons (hbyte hzj)] at h
        injection h with h2 h
        exact byte_injective (by omega) (by omega) h2
  refine hd ?_
  have hmi := p.inMemory i
  have hmj := p.inMemory j
  have hri := hrom i
  have hrj := hrom j
  unfold InMemory at hmi hmj
  omega

end Backwash.Settings.Keys
