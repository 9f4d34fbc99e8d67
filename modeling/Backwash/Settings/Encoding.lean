import Backwash.Settings.Keys

/-! The texts the settings are stored as.

`Flash_Set` prints a value as a signed decimal number and stores the text;
`Flash_Get` finds it only if EasyFlash takes it for a string, and reads it back
through a signed type. Nothing is lost on the way, and so a store that only
`Flash_Set` writes is the map from names to texts that the keys are discussed over. -/
namespace Backwash.Settings.Encoding
open Text Keys

/-- The text in the buffer of `Flash_Set`: `snprintf(Counter_Temp, 32, "%ld", value)`. -/
def text (value : BitVec 32) : List Char := snprintf 32 (formatLong value.toInt)

/-! ### Strings of EasyFlash -/

/-- `__is_print`: the difference is unsigned, so what lies below the blank comes out large. -/
def isPrint (c : Char) : Bool := decide ((c.toNat + (2 ^ 32 - 32)) % 2 ^ 32 < 127 - 32)

def efIsStr (value : List Char) : Bool := value.all isPrint

/-- `EF_STR_ENV_VALUE_MAX_SIZE`. -/
def efStrEnvValueMaxSize : Nat := 128

/-- What `ef_get_env` answers for a value it has found. -/
def readValue (value : List Char) : Option (List Char) :=
  let got := value.take efStrEnvValueMaxSize
  if 0 < got.length ∧ efIsStr got = true then some got else none

/-- `ef_get_env` with its check of the value. -/
def efGetEnvString (env : Env) (k : List Char) : Option (List Char) := (efGetEnv env k).bind readValue

/-- `Flash_Get` over it. -/
def flashGetString (p : Placement) (env : Env) (id : Fin 19) : Option (BitVec 32) :=
  (efGetEnvString env (key p id)).map atolLong

/-! ### One value -/

/-- A minus sign or a digit. -/
theorem mem_formatLong {n : Int} {c : Char} (h : c ∈ formatLong n) : c = '-' ∨ c.isDigit = true := by
  unfold formatLong at h
  split at h
  · rcases List.mem_cons.mp h with rfl | h
    · exact .inl rfl
    · exact .inr (isDigit_toDigits h)
  · exact .inr (isDigit_toDigits h)

theorem isPrint_of_mem {n : Int} {c : Char} (h : c ∈ formatLong n) : isPrint c = true := by
  rcases mem_formatLong h with rfl | hc
  · decide
  · have hdigit : 48 ≤ c.toNat ∧ c.toNat ≤ 57 := Char.isDigit_iff_toNat.mp hc
    simp only [isPrint, decide_eq_true_eq]
    omega

theorem formatLong_ne_nil (n : Int) : formatLong n ≠ [] := by
  unfold formatLong
  split
  · exact List.cons_ne_nil _ _
  · exact Nat.toDigits_ne_nil

/-- Nothing is cut off. -/
theorem text_eq (value : BitVec 32) : text value = formatLong value.toInt := by
  have hlength := length_formatLong value
  exact List.take_of_length_le (by omega)

theorem efIsStr_text (value : BitVec 32) : efIsStr (text value) = true := by
  rw [text_eq, efIsStr, List.all_eq_true]
  exact fun c hc => isPrint_of_mem hc

/-- A string that is neither empty nor too long is found as it is. -/
theorem readValue_eq {value : List Char} (hne : value ≠ []) (hlen : value.length ≤ efStrEnvValueMaxSize)
    (hstr : efIsStr value = true) : readValue value = some value := by
  have hgot : value.take efStrEnvValueMaxSize = value := List.take_of_length_le hlen
  have hpos : 0 < value.length := List.length_pos_iff.mpr hne
  simp only [readValue, hgot, hpos, hstr, and_self, if_true]

theorem readValue_text (value : BitVec 32) : readValue (text value) = some (text value) := by
  have hlength := length_formatLong value
  refine readValue_eq ?_ ?_ (efIsStr_text value)
  · rw [text_eq]
    exact formatLong_ne_nil _
  · rw [text_eq, efStrEnvValueMaxSize]
    omega

theorem atolLong_text (value : BitVec 32) : atolLong (text value) = value := by
  rw [text_eq, atolLong_formatLong]

/-- The text of a value fits its buffer whole, with the terminating zero, is a string for
EasyFlash, and is read back as the value. -/
structure Lossless (value : BitVec 32) : Prop where
  fits : (formatLong value.toInt).length + 1 ≤ 32
  whole : text value = formatLong value.toInt
  printable : efIsStr (text value) = true
  found : readValue (text value) = some (text value)
  back : atolLong (text value) = value

theorem lossless (value : BitVec 32) : Lossless value where
  fits := by
    have hlength := length_formatLong value
    omega
  whole := text_eq value
  printable := efIsStr_text value
  found := readValue_text value
  back := atolLong_text value

theorem text_injective : Function.Injective text := fun a b h => by
  rw [← atolLong_text a, h, atolLong_text]

/-- `Flash_Get` gives back what `Flash_Set` stored. -/
theorem flashGetString_flashSet (p : Placement) (env : Env) (id : Fin 19) (value : BitVec 32) :
    flashGetString p (flashSet p env id value) id = some value := by
  have hstored : efGetEnv (flashSet p env id value) (key p id) = some (text value) := Function.update_self ..
  simp [flashGetString, efGetEnvString, hstored, readValue_text, atolLong_text]

/-- The decimal encoding of the stored values is lossless. -/
theorem decimal_lossless :
    (∀ value : BitVec 32, Lossless value) ∧ (∀ a b : BitVec 32, a ≠ b → text a ≠ text b) ∧
      ∀ (p : Placement) (env : Env) (id : Fin 19) (value : BitVec 32),
        flashGetString p (flashSet p env id value) id = some value :=
  ⟨lossless, fun _ _ h => text_injective.ne h, flashGetString_flashSet⟩

/-- The most negative `long`. -/
example : text 0x80000000 = "-2147483648".toList := by decide

/-! ### A store that holds nothing else -/

/-- Every value is one that `Flash_Set` can have stored. -/
def Written (env : Env) : Prop := ∀ k s, env k = some s → ∃ value, s = text value

theorem written_flashSet (p : Placement) {env : Env} (h : Written env) (id : Fin 19) (value : BitVec 32) :
    Written (flashSet p env id value) := by
  intro k s hs
  by_cases hk : k = key p id
  · subst hk
    have hstored : flashSet p env id value (key p id) = some (text value) := Function.update_self ..
    exact ⟨value, Option.some.inj (hs.symm.trans hstored)⟩
  · rw [flashSet_of_ne p env value hk] at hs
    exact h k s hs

theorem written_setAll (p : Placement) {env : Env} (h : Written env) (sets : List (Fin 19 × BitVec 32)) :
    Written (setAll p env sets) := by
  induction sets generalizing env with
  | nil => exact h
  | cons x rest ih => exact ih (written_flashSet p h x.1 x.2)

/-- The default entries are among them. -/
theorem written_blank : Written blank := by
  intro k s hs
  obtain ⟨e, he, rfl⟩ := Option.map_eq_some_iff.mp hs
  have hzero : ∀ e ∈ defaultEnvSet, e.2.toList = text 0 := by decide
  exact ⟨0, hzero e (List.mem_of_find?_eq_some he)⟩

/-- Over such a store EasyFlash is a map from names to texts. -/
theorem flashGetString_eq {env : Env} (h : Written env) (p : Placement) (id : Fin 19) :
    flashGetString p env id = flashGet p env id := by
  unfold flashGetString flashGet efGetEnvString
  cases hs : efGetEnv env (key p id) with
  | none => rfl
  | some s =>
    obtain ⟨value, rfl⟩ := h _ s hs
    simp only [Option.bind_some, readValue_text, Option.map_some, atolLong_text]
    exact congrArg some (atol_snprintf value).symm

/-- In every run of `Flash_Set` from a blank store. -/
theorem run_flashGetString (p : Placement) (sets : List (Fin 19 × BitVec 32)) (id : Fin 19) :
    flashGetString p (setAll p blank sets) id = flashGet p (setAll p blank sets) id :=
  flashGetString_eq (written_setAll p written_blank sets) p id

end Backwash.Settings.Encoding
