import Backwash.EasyFlash.Defaults

/-! The settings on the chip.

`Flash_Set`, `Flash_Get` and `boot_time` over the bytes of the chip. The texts they store are
short and the names are few, so there is always space; what is read is what was set last, and
the boots are counted, whatever else is stored and however often the device is switched off
between two calls. -/
namespace Backwash.Settings.Chip
open Storage EasyFlash Keys Text

/-! ### The functions -/

def toChars (bs : List Byte) : List Char := bs.map fun b => Char.ofNat b.toNat

/-- The name a setting is stored under. -/
def name (p : Placement) (id : Fin 19) : List Byte := toBytes (key p id)

/-- `Flash_Set`. -/
def flashSet (p : Placement) (id : Fin 19) (value : BitVec 32) : EasyFlash.Code Unit := do
  let _ ← EasyFlash.efSetEnv (name p id) (toBytes (Encoding.text value))

/-- `Flash_Get`; there is no value where EasyFlash answers NULL. -/
def flashGet (p : Placement) (id : Fin 19) : EasyFlash.Code (Option (BitVec 32)) := do
  return (← EasyFlash.efGetEnv (name p id)).map fun s => atolLong (toChars s)

def bootName : List Byte := toBytes "boot_times".toList

/-- `boot_time`, with the number that it prints; where there is none a NULL is written to. -/
def bootTime : EasyFlash.Code (BitVec 32) := do
  match ← EasyFlash.efGetEnv bootName with
  | none => failure
  | some old =>
    let times := atolLong (toChars old) + 1
    let _ ← EasyFlash.efSetEnv bootName (toBytes (formatLong times.toInt))
    return times

/-- What `main` does with the storage. -/
def storageInit : EasyFlash.Code (BitVec 32) := do
  let _ ← efEnvInit defaultDict.pairs
  bootTime

/-! ### What they are for -/

inductive Call
  | set (id : Fin 19) (value : BitVec 32)
  | get (id : Fin 19)
  | powerUp

/-- What is stored: a value for each setting that was set, and how often the device was switched on. -/
structure Stored where
  value : Fin 19 → Option (BitVec 32)
  boots : BitVec 32

def next (v : Stored) : Call → Stored
  | .set id value => {v with value := Function.update v.value id (some value)}
  | .get _ => v
  | .powerUp => {v with boots := v.boots + 1}

def answer (v : Stored) : Call → Option (BitVec 32)
  | .set .. => none
  | .get id => v.value id
  | .powerUp => some (v.boots + 1)

def machine : Machine Stored Call (Option (BitVec 32)) := ⟨fun _ _ => True, answer, next⟩

def call (p : Placement) : Call → EasyFlash.Code (Option (BitVec 32))
  | .set id value => do
    flashSet p id value
    return none
  | .get id => flashGet p id
  | .powerUp => do
    modify fun s => Store.reset s.flash
    return some (← storageInit)

/-! ### Texts and names -/

theorem toChars_toBytes {cs : List Char} (h : ∀ c ∈ cs, c.toNat < 256) : toChars (toBytes cs) = cs := by
  rw [toChars, toBytes, List.map_map]
  refine (List.map_congr_left fun c hc => ?_).trans (List.map_id cs)
  show Char.ofNat (BitVec.ofNat 8 c.toNat).toNat = c
  rw [BitVec.toNat_ofNat, Nat.mod_eq_of_lt (h c hc), Char.ofNat_toNat]

/-- The characters of a number. -/
theorem mem_text {value : BitVec 32} {c : Char} (h : c ∈ Encoding.text value) : 32 ≤ c.toNat ∧ c.toNat < 127 := by
  rw [Encoding.text_eq] at h
  rcases Encoding.mem_formatLong h with rfl | hc
  · decide
  · have hdigit : 48 ≤ c.toNat ∧ c.toNat ≤ 57 := Char.isDigit_iff_toNat.mp hc
    omega

theorem length_text (value : BitVec 32) : (Encoding.text value).length ≤ 11 := by
  rw [Encoding.text_eq]
  exact length_formatLong value

/-- The text of a number as EasyFlash keeps it. -/
def stored (value : BitVec 32) : List Byte := toBytes (Encoding.text value)

theorem length_stored (value : BitVec 32) : (stored value).length ≤ 11 := by
  rw [stored, toBytes, List.length_map]
  exact length_text value

theorem atolLong_stored (value : BitVec 32) : atolLong (toChars (stored value)) = value := by
  rw [stored, toChars_toBytes fun c hc => Nat.lt_trans (mem_text hc).2 (by decide), Encoding.atolLong_text]

theorem isPrint_of {b : Byte} (hlo : 32 ≤ b.toNat) (hhi : b.toNat < 127) : EasyFlash.isPrint b = true := by
  unfold EasyFlash.isPrint
  rw [decide_eq_true_eq]
  omega

theorem efIsStr_stored (value : BitVec 32) : EasyFlash.efIsStr (stored value) = true := by
  refine List.all_eq_true.mpr fun b hb => ?_
  obtain ⟨c, hc, rfl⟩ := List.mem_map.mp hb
  obtain ⟨hlo, hhi⟩ := mem_text hc
  have hval : (BitVec.ofNat 8 c.toNat).toNat = c.toNat := by
    rw [BitVec.toNat_ofNat]
    omega
  exact isPrint_of (by omega) (by omega)

/-- A number that is stored is found as it is. -/
theorem string_stored {d : Dict} {k : List Byte} {value : BitVec 32} (h : d.lookup k = some (stored value)) :
    d.string k = some (stored value) := by
  have hlen := length_stored value
  have hpos : 0 < (stored value).length := by
    rw [stored, toBytes, List.length_map, Encoding.text_eq]
    exact List.length_pos_iff.mpr (Encoding.formatLong_ne_nil _)
  have hread : d.read k efStrEnvValueMaxSize = stored value := by
    rw [Dict.read, h]
    exact List.take_of_length_le (Nat.le_trans hlen (by decide))
  unfold Dict.string
  rw [hread]
  exact if_pos ⟨hpos, efIsStr_stored value⟩

theorem string_none {d : Dict} {k : List Byte} (h : d.lookup k = none) : d.string k = none := by
  have hread : d.read k efStrEnvValueMaxSize = [] := by
    rw [Dict.read, h]
    exact List.take_nil
  unfold Dict.string
  rw [hread]
  rfl

/-- All the names that the firmware stores under. -/
def names (p : Placement) : List (List Byte) := defaultDict.keys ++ List.ofFn (name p)

/-- EasyFlash tells the names of the build apart. -/
def ToldApart (p : Placement) : Prop := ((names p).map nameCrc).Nodup

variable {p : Placement} {s : Store} {f : Flash} {d : Dict} {k : List Byte} {v : Stored}

theorem key_char {id : Fin 19} {c : Char} (h : c ∈ key p id) : c.toNat < 256 ∧ c ≠ Char.ofNat 0 := by
  have hne := List.mem_takeWhile_imp h
  obtain ⟨a, -, hc⟩ := List.mem_flatMap.mp ((List.takeWhile_sublist _).subset h)
  have hval : ∀ n < 256, (Char.ofNat n).toNat < 256 := by decide +kernel
  have hbyte : ∀ n, (Char.ofNat (n % 256)).toNat < 256 := fun n => hval _ (Nat.mod_lt n (by decide))
  refine ⟨?_, by simpa using hne⟩
  simp only [pointerBytes, List.mem_cons, List.not_mem_nil, or_false] at hc
  rcases hc with rfl | rfl | rfl | rfl <;> exact hbyte _

theorem length_key (id : Fin 19) : (key p id).length ≤ 80 := by
  have hall : ((p.keyList.drop id).flatMap pointerBytes).length = 4 * (20 - id) := by
    have hkeys : p.keyList.length = 20 := by simp [Placement.keyList]
    have hfour : ∀ l : List Nat, (l.flatMap pointerBytes).length = 4 * l.length := by
      intro l
      induction l with
      | nil => rfl
      | cons a l ih =>
        rw [List.flatMap_cons, List.length_append, ih, List.length_cons]
        show 4 + _ = _
        omega
    rw [hfour, List.length_drop, hkeys]
  exact Nat.le_trans (List.takeWhile_sublist _).length_le (by omega)

theorem length_name (id : Fin 19) : (name p id).length ≤ 80 := by
  rw [name, toBytes, List.length_map]
  exact length_key id

theorem ToldApart.names (hp : ToldApart p) : Names {k | k ∈ names p} where
  inj k hk k' hk' h := List.inj_on_of_nodup_map hp hk hk' h
  str k hk b hb := by
    rcases List.mem_append.mp hk with hk | hk
    · exact names_default.str k hk b hb
    · obtain ⟨id, rfl⟩ := List.mem_ofFn.mp hk
      obtain ⟨c, hc, rfl⟩ := List.mem_map.mp hb
      obtain ⟨hlt, hne⟩ := key_char hc
      intro hzero
      have hval := congrArg BitVec.toNat hzero
      rw [BitVec.toNat_ofNat, Nat.mod_eq_of_lt hlt] at hval
      exact hne ((Char.ofNat_toNat c).symm.trans (congrArg Char.ofNat hval))
  length k hk := by
    rcases List.mem_append.mp hk with hk | hk
    · exact names_default.length k hk
    · obtain ⟨id, rfl⟩ := List.mem_ofFn.mp hk
      exact Nat.le_trans (length_name id) (by decide)

theorem ToldApart.nodup (hp : ToldApart p) : (Chip.names p).Nodup := List.Nodup.of_map _ hp

theorem ToldApart.name_injective (hp : ToldApart p) : Function.Injective (name p) :=
  List.nodup_ofFn.mp (List.nodup_append.mp hp.nodup).2.1

theorem ToldApart.name_notMem (hp : ToldApart p) (id : Fin 19) : name p id ∉ defaultDict := fun hmem =>
  (List.nodup_append.mp hp.nodup).2.2 _ hmem _ (List.mem_ofFn.mpr ⟨id, rfl⟩) rfl

theorem bootName_mem : bootName ∈ defaultDict := by decide +kernel

theorem ToldApart.bootName_ne (hp : ToldApart p) (id : Fin 19) : name p id ≠ bootName := fun h =>
  hp.name_notMem id (h ▸ bootName_mem)

/-! ### Space -/

/-- A dictionary with numbers under the names of the firmware. -/
structure Numbers (p : Placement) (d : Dict) : Prop where
  names : ∀ k ∈ d, k ∈ names p
  short : ∀ x ∈ d.entries, x.2.length ≤ 11

theorem Numbers.insert (hd : Numbers p d) (hk : k ∈ Chip.names p) (value : BitVec 32) : Numbers p (d.insert k (stored value)) := by
  refine ⟨fun k' hk' => ?_, fun x hx => ?_⟩
  · rcases (AList.mem_insert d).mp hk' with rfl | hk'
    · exact hk
    · exact hd.names k' hk'
  · rw [AList.entries_insert] at hx
    rcases List.mem_cons.mp hx with rfl | hx
    · exact length_stored value
    · exact hd.short x ((List.kerase_sublist k d.entries).subset hx)

/-- There is always space for one more. -/
theorem Numbers.size (hd : Numbers p d) (hk : k ∈ Chip.names p) (value : BitVec 32) :
    d.size + (envHdrDataSize + k.length + (stored value).length) ≤ 3928 := by
  have hdefault : (defaultDict.keys.map fun k => envHdrDataSize + k.length + 11).sum ≤ 1100 := by decide +kernel
  have hown : ((List.ofFn (name p)).map fun k => envHdrDataSize + k.length + 11).sum ≤ 19 * 115 := by
    rw [List.map_ofFn]
    refine (List.sum_le_card_nsmul _ 115 fun n hn => ?_).trans (by rw [List.length_ofFn]; exact Nat.le_refl _)
    obtain ⟨id, rfl⟩ := List.mem_ofFn.mp hn
    have hlen : (name p id).length ≤ 80 := length_name id
    show envHdrDataSize + (name p id).length + 11 ≤ 115
    simp only [envHdrDataSize]
    omega
  have hall := d.size_le hd.names hd.short
  rw [Chip.names, List.map_append, List.sum_append] at hall
  have hlen : k.length ≤ 128 := by
    rcases List.mem_append.mp hk with hk | hk
    · exact names_default.length k hk
    · obtain ⟨id, rfl⟩ := List.mem_ofFn.mp hk
      exact Nat.le_trans (length_name id) (by decide)
  have hvalue := length_stored value
  simp only [envHdrDataSize] at hall hdefault hown ⊢
  omega

/-! ### Call by call -/

/-- The chip has the settings and the number of boots. -/
def Holds (p : Placement) (v : Stored) (s : Store) : Prop :=
  ∃ d, Stores {k | k ∈ names p} d s ∧ Numbers p d ∧ d.lookup bootName = some (stored v.boots) ∧
    ∀ id, d.lookup (name p id) = (v.value id).map stored

/-- A number is set. -/
theorem set_number (hp : ToldApart p) (hs : Stores {k | k ∈ names p} d s) (hd : Numbers p d) (hk : k ∈ names p) (value : BitVec 32) :
    Ends (EasyFlash.efSetEnv k (stored value)) s fun r s' => r = .noErr ∧ Stores {k | k ∈ names p} (d.insert k (stored value)) s' :=
  hs.whenInit (hs.set hp.names hk (hd.size hk value))

theorem mem_names (id : Fin 19) : name p id ∈ names p := List.mem_append_right _ (List.mem_ofFn.mpr ⟨id, rfl⟩)

theorem bootName_mem_names : bootName ∈ names p := List.mem_append_left _ bootName_mem

theorem Holds.set (hp : ToldApart p) (hs : Holds p v s) (id : Fin 19) (value : BitVec 32) :
    Ends (flashSet p id value) s fun _ s' => Holds p (next v (.set id value)) s' := by
  obtain ⟨d, hs, hd, hboots, hvalue⟩ := hs
  refine Runs.andThen (set_number hp hs hd (mem_names id) value) ?_
  rintro r s' ⟨-, hs'⟩
  refine Runs.pure ⟨_, hs', hd.insert (mem_names id) value, ?_, fun j => ?_⟩
  · rw [AList.lookup_insert_ne (hp.bootName_ne id).symm]
    exact hboots
  · show _ = (Function.update v.value id (some value) j).map stored
    by_cases hj : j = id
    · subst hj
      rw [AList.lookup_insert, Function.update_self]
      rfl
    · rw [AList.lookup_insert_ne (hp.name_injective.ne hj), Function.update_of_ne hj]
      exact hvalue j

theorem Holds.get (hp : ToldApart p) (hs : Holds p v s) (id : Fin 19) :
    Ends (flashGet p id) s fun r s' => r = v.value id ∧ Holds p v s' := by
  obtain ⟨d, hs, hd, hboots, hvalue⟩ := hs
  refine Runs.andThen (hs.get hp.names (mem_names id)) ?_
  rintro r s' ⟨rfl, hs'⟩
  refine Runs.pure ⟨?_, d, hs', hd, hboots, hvalue⟩
  have hid := hvalue id
  cases hv : v.value id with
  | none =>
    rw [hv] at hid
    rw [string_none hid]
    rfl
  | some value =>
    rw [hv] at hid
    rw [string_stored hid]
    exact congrArg some (atolLong_stored value)

/-- The boots are counted. -/
theorem Holds.bootTime (hp : ToldApart p) (hs : Holds p v s) :
    Ends bootTime s fun r s' => r = v.boots + 1 ∧ Holds p (next v .powerUp) s' := by
  obtain ⟨d, hs, hd, hboots, hvalue⟩ := hs
  refine Runs.andThen (hs.get hp.names bootName_mem_names) ?_
  rintro r s₁ ⟨rfl, hs₁⟩
  rw [string_stored hboots]
  dsimp only
  rw [atolLong_stored, ← Encoding.text_eq]
  refine Runs.andThen (set_number hp hs₁ hd bootName_mem_names (v.boots + 1)) ?_
  rintro r s₂ ⟨-, hs₂⟩
  refine Runs.pure ⟨rfl, _, hs₂, hd.insert bootName_mem_names _, AList.lookup_insert d, fun id => ?_⟩
  rw [AList.lookup_insert_ne (hp.bootName_ne id)]
  exact hvalue id

theorem follows_stored (hp : ToldApart p) : machine.Follows Store.past (fun _ => True) (call p) (Holds p) := by
  intro v s c hs _
  cases c with
  | set id value => exact Runs.andThen (hs.set hp id value) fun _ s' hs' => Runs.pure ⟨rfl, hs'⟩
  | get id => exact hs.get hp id
  | powerUp =>
    obtain ⟨d, hs, hd, hboots, hvalue⟩ := hs
    refine Does.reset (Runs.bind (Runs.andThen (hs.restart _) ?_))
    rintro r s₁ ⟨-, hs₁⟩
    have hholds : Holds p v s₁ := ⟨d, hs₁, hd, hboots, hvalue⟩
    refine (hholds.bootTime hp).mono ?_
    rintro r s' ⟨rfl, hs'⟩
    exact Runs.pure ⟨rfl, hs'⟩

/-- The first start, on a chip without a header. -/
theorem first_powerUp (hp : ToldApart p) (hno : ∀ h, NoHeader f (base h)) :
    Ends (call p .powerUp) (Store.reset f) fun r s' => r = some 1 ∧ Holds p ⟨fun _ => none, 1⟩ s' := by
  have hdefault : Numbers p defaultDict :=
    ⟨fun k hk => List.mem_append_left _ hk, show ∀ x ∈ defaultDict.entries, x.2.length ≤ 11 by decide +kernel⟩
  have hboots : defaultDict.lookup bootName = some (stored 0) := by decide +kernel
  refine Does.reset (Runs.bind (Runs.andThen
    (Stores.firstBoot hno (by decide) hp.names (fun k hk => List.mem_append_left _ hk) size_default) ?_))
  rintro r s₁ ⟨-, hs₁⟩
  have hholds : Holds p ⟨fun _ => none, 0⟩ s₁ :=
    ⟨defaultDict, hs₁, hdefault, hboots, fun id => AList.lookup_eq_none.mpr (hp.name_notMem id)⟩
  refine (hholds.bootTime hp).mono ?_
  rintro r s' ⟨rfl, hs'⟩
  exact Runs.pure ⟨rfl, hs'⟩

/-- From the first start on every setting is read as it was set last, and the boots are counted,
over any sequence of readings, settings and restarts. -/
theorem chip_keeps_settings (hp : ToldApart p) (hno : ∀ h, NoHeader f (base h)) (calls : List Call) :
    ∃ s', ((Call.powerUp :: calls).mapM (call p)).run (Store.reset f) =
      some (machine.answers ⟨fun _ => none, 0⟩ (.powerUp :: calls), s') := by
  have hadmits : ∀ v, machine.Admits v calls := by
    induction calls with
    | nil => exact fun _ => trivial
    | cons c calls ih => exact fun v => ⟨trivial, ih _⟩
  have hall : Ends ((Call.powerUp :: calls).mapM (call p)) (Store.reset f) fun answers _ =>
      answers = machine.answers ⟨fun _ => none, 0⟩ (.powerUp :: calls) := by
    rw [List.mapM_cons]
    refine Runs.andThen (first_powerUp hp hno) ?_
    rintro r s₁ ⟨rfl, hs₁⟩
    refine Runs.andThen ((follows_stored hp).run hs₁ (hadmits _)) ?_
    rintro answers s₂ ⟨rfl, -⟩
    exact Runs.pure rfl
  obtain ⟨_, s', hrun, rfl, -⟩ := hall
  exact ⟨s', hrun⟩

/-- A build with the texts from 0x08001234 on. -/
def early : Placement := rom 0x08001234 (by decide) (by decide)

theorem nameCrc_early : (List.ofFn (name early)).map (fun k => (nameCrc k).toNat) =
    [2378, 61100, 46065, 12778, 42829, 45266, 7670, 40941, 49840, 27090, 13455, 46740, 7088, 3119, 39560, 6291, 17870,
      41512, 65397] := by decide +kernel

theorem toldApart_early : ToldApart early := by
  refine List.Nodup.of_map BitVec.toNat ?_
  rw [names, List.map_map, List.map_append]
  show ((defaultDict.keys.map fun k => (nameCrc k).toNat) ++ (List.ofFn (name early)).map fun k => (nameCrc k).toNat).Nodup
  rw [nameCrc_default, nameCrc_early]
  decide

theorem chip_keeps_settings_early :
    ∃ s', ([Call.powerUp, .set 3 7, .powerUp, .get 3].mapM (call early)).run (Store.reset erased) =
      some (machine.answers ⟨fun _ => none, 0⟩ [.powerUp, .set 3 7, .powerUp, .get 3], s') :=
  chip_keeps_settings toldApart_early noHeader_erased [.set 3 7, .powerUp, .get 3]

end Backwash.Settings.Chip
