import Backwash.EasyFlash.Layout

/-! The two searches through a sector.

`find_next_env_addr` looks for the next magic word, 28 positions to the buffer;
`continue_ff_addr` for the erased bytes a sector ends with. -/
namespace Backwash.EasyFlash
open Storage

/-! ### The magic word -/

def magicBytes : List Byte := [0x4B, 0x56, 0x34, 0x30]

def Magic (f : Flash) (x : Nat) : Prop := f.Holds x magicBytes

instance (f : Flash) (x : Nat) : Decidable (Magic f x) := inferInstanceAs (Decidable (_ = _))

/-- No magic word begins from `a` up to `b`. -/
def Quiet (f : Flash) (a b : Nat) : Prop := ∀ x, a ≤ x → x < b → ¬ Magic f x

variable {f g : Flash} {s : Store} {a b x y start endAddr startBak q fuel : Nat}

theorem toLe32_magic : toLe32 envMagicWord = magicBytes := by decide

theorem magic_iff : Magic f x ↔ f x = 0x4B ∧ f (x + 1) = 0x56 ∧ f (x + 2) = 0x34 ∧ f (x + 3) = 0x30 := by
  simp only [Magic, magicBytes, Flash.holds_cons, Flash.holds_nil, and_true, Nat.add_assoc, Nat.reduceAdd]

theorem word_eq_magic (w x y z : Byte) :
    w.toNat + x.toNat * 0x100 + y.toNat * 0x10000 + z.toNat * 0x1000000 = envMagicWord ↔
      w = 0x4B ∧ x = 0x56 ∧ y = 0x34 ∧ z = 0x30 := by
  have hw := w.isLt
  have hx := x.isLt
  have hy := y.isLt
  have hz := z.isLt
  simp only [← BitVec.toNat_inj, envMagicWord, BitVec.reduceToNat]
  omega

theorem getD_read (f : Flash) (a : Nat) {n i : Nat} (h : i < n) : (f.read a n).getD i 0 = f (a + i) := by
  rw [List.getD_eq_getElem?_getD, List.getElem?_eq_getElem (by simpa using h), Option.getD_some, Flash.getElem_read]

/-- A word of a buffer is the magic word where one begins on the chip. -/
theorem le32_read {n i : Nat} (h : i + 4 ≤ n) : le32 (f.read a n) i = envMagicWord ↔ Magic f (a + i) := by
  rw [le32, getD_read f a (by omega), getD_read f a (by omega), getD_read f a (by omega), getD_read f a (by omega),
    word_eq_magic, magic_iff]
  rfl

/-- A plain byte is in no magic word. -/
theorem not_magic_of_plain (hxy : x ≤ y) (hy : y ≤ x + 3) (h : Plain (f y)) : ¬ Magic f x := by
  intro hm
  obtain ⟨h0, h1, h2, h3⟩ := magic_iff.mp hm
  obtain rfl | rfl | rfl | rfl : y = x ∨ y = x + 1 ∨ y = x + 2 ∨ y = x + 3 := by omega
  · exact h.1 h0
  · exact h.2.1 h1
  · exact h.2.2.1 h2
  · exact h.2.2.2 h3

theorem magic_congr (h : f.Same g x (x + 4)) : Magic f x ↔ Magic g x :=
  ⟨fun hm => Flash.Holds.congr hm h, fun hm => Flash.Holds.congr hm h.symm⟩

/-- Bytes that change to plain ones make no magic word. -/
theorem Quiet.congr (h : Quiet f a b) (hs : ∀ y, a ≤ y → y < b + 3 → f y = g y ∨ Plain (g y)) : Quiet g a b := by
  intro x hx hxb hm
  by_cases hplain : ∃ y, x ≤ y ∧ y ≤ x + 3 ∧ Plain (g y)
  · obtain ⟨y, hxy, hy, hp⟩ := hplain
    exact not_magic_of_plain hxy hy hp hm
  · refine h x hx hxb ((magic_congr fun y hy hy' => ?_).mpr hm)
    exact (hs y (by omega) (by omega)).resolve_right fun hp => hplain ⟨y, hy, by omega, hp⟩

theorem Quiet.mono (h : Quiet f a b) {a' b' : Nat} (ha : a ≤ a') (hb : b' ≤ b) : Quiet f a' b' :=
  fun x hx hx' => h x (by omega) (by omega)

/-- Erased bytes spell no magic word. -/
theorem quiet_of_blank (h : f.Blank a b) : Quiet f a b := fun x hx hxb =>
  not_magic_of_plain (Nat.le_refl x) (by omega) (by rw [h x hx hxb]; decide)

/-! ### The next node -/

theorem scanMagic_none {i n : Nat} (hn : i + n ≤ 28)
    (h : ∀ j, i ≤ j → j < i + n → start + j < endAddr → ¬ (Magic f (start + j) ∧ startBak ≤ start + j - envMagicOffset)) :
    scanMagic (f.read start 32) start endAddr startBak i n = none := by
  induction n generalizing i with
  | zero => rfl
  | succ n ih =>
    rw [scanMagic]
    by_cases hlt : start + i < endAddr
    · rw [if_pos hlt, if_neg (by rw [le32_read (by omega)]; exact h i (by omega) (by omega) hlt)]
      exact ih (by omega) fun j hj hj' => h j (by omega) (by omega)
    · rw [if_neg hlt]

theorem scanMagic_some {i n j : Nat} (hn : i + n ≤ 28) (hij : i ≤ j) (hj : j < i + n) (hlt : start + j < endAddr)
    (hm : Magic f (start + j)) (hbak : startBak ≤ start + j - envMagicOffset)
    (h : ∀ k, i ≤ k → k < j → ¬ (Magic f (start + k) ∧ startBak ≤ start + k - envMagicOffset)) :
    scanMagic (f.read start 32) start endAddr startBak i n = some (start + j - envMagicOffset) := by
  induction n generalizing i with
  | zero => omega
  | succ n ih =>
    rw [scanMagic, if_pos (by omega)]
    by_cases he : i = j
    · subst he
      rw [if_pos ⟨(le32_read (by omega)).mpr hm, hbak⟩]
    · rw [if_neg (by rw [le32_read (by omega)]; exact h i (by omega) (by omega))]
      exact ih (by omega) (by omega) (by omega) fun k hk hk' => h k (by omega) hk'

theorem findNextFrom_none (hbak : 16 ≤ startBak) (h : Quiet s.flash (startBak + 4) endAddr) (hstart : startBak ≤ start)
    (hfuel : endAddr - start < fuel) : (findNextFrom endAddr startBak fuel start).run s = some (failedAddr, s) := by
  induction fuel generalizing start with
  | zero => omega
  | succ fuel ih =>
    rw [findNextFrom]
    by_cases hlt : start < endAddr
    · rw [if_pos hlt, run_bind_of (run_efPortRead ..), scanMagic_none (by omega)]
      · exact ih (by omega) (by omega)
      · rintro j - - hj ⟨hm, hle⟩
        simp only [envMagicOffset] at hle
        exact h _ (by omega) hj hm
    · rw [if_neg hlt]
      rfl

theorem findNextFrom_some (hbak : 16 ≤ startBak) (hq : startBak ≤ q) (h : Quiet s.flash (startBak + 4) (q + 4))
    (hm : Magic s.flash (q + 4)) (hend : q + 4 < endAddr) (hstart : startBak ≤ start) (hle : start ≤ q + 4)
    (hfuel : q + 4 - start < fuel) : (findNextFrom endAddr startBak fuel start).run s = some (q, s) := by
  have hnot : ∀ x, x < q + 4 → ¬ (Magic s.flash x ∧ startBak ≤ x - envMagicOffset) := by
    rintro x hx ⟨hmx, hxb⟩
    simp only [envMagicOffset] at hxb
    exact h x (by omega) hx hmx
  induction fuel generalizing start with
  | zero => omega
  | succ fuel ih =>
    rw [findNextFrom, if_pos (by omega), run_bind_of (run_efPortRead ..)]
    by_cases hin : q + 4 < start + 28
    · have hj : start + (q + 4 - start) = q + 4 := by omega
      rw [scanMagic_some (j := q + 4 - start) (by omega) (by omega) (by omega) (by omega) (by rwa [hj])
        (by rw [hj]; exact hq) fun k _ hk => hnot _ (by omega), hj]
      rfl
    · rw [scanMagic_none (by omega) fun j _ hj _ => hnot _ (by omega)]
      exact ih (by omega) (by omega) (by omega)

/-! ### The erased bytes at the end -/

/-- How far `continue_ff_addr` is after the bytes before `x`, if the erased bytes begin at `e`. -/
structure FfAt (e x : Nat) (r : Nat × Byte) : Prop where
  before : x = e → r.2 ≠ 0xFF
  after : e < x → r.2 = 0xFF ∧ r.1 = e

theorem ffAt_scanFf {e : Nat} {bs : List Byte} {x addr : Nat} {last : Byte} (hbs : f.Holds x bs)
    (hblank : f.Blank e (x + bs.length)) (hlast : x < e → f (e - 1) ≠ 0xFF) (h : FfAt e x (addr, last)) :
    FfAt e (x + bs.length) (scanFf x bs addr last) := by
  induction bs generalizing x addr last with
  | nil => exact h
  | cons b bs ih =>
    obtain ⟨hb, hrest⟩ := Flash.holds_cons.mp hbs
    rw [List.length_cons, show x + (bs.length + 1) = x + 1 + bs.length by omega] at hblank ⊢
    rw [scanFf]
    refine ih hrest hblank (fun hx => hlast (by omega)) ⟨fun hx => ?_, fun hx => ?_⟩
    · have : f (e - 1) = b := by rw [← hb]; congr 1; omega
      exact this ▸ hlast (by omega)
    · have hff : b = 0xFF := hb.symm.trans (hblank x (by omega) (by omega))
      refine ⟨hff, ?_⟩
      by_cases hxe : x = e
      · subst hxe
        exact if_pos ⟨h.before rfl, hff⟩
      · obtain ⟨hl, ha⟩ := h.after (by omega)
        rw [if_neg fun hc => hc.1 hl]
        exact ha

theorem continueFfFrom_run {e : Nat} (addr : Nat) (last : Byte) (hstart : start ≤ endAddr)
    (hblank : s.flash.Blank e endAddr) (hlast : start < e → s.flash (e - 1) ≠ 0xFF) (h : FfAt e start (addr, last))
    (hfuel : endAddr - start < fuel) :
    ∃ r, (continueFfFrom endAddr fuel start addr last).run s = some (r, s) ∧ FfAt e endAddr r := by
  induction fuel generalizing start addr last with
  | zero => omega
  | succ fuel ih =>
    rw [continueFfFrom]
    by_cases hlt : start < endAddr
    · have hstep : ∀ k, 0 < k → start + k ≤ endAddr →
          FfAt e (start + k) (scanFf start (s.flash.read start k) addr last) := fun k _ hk => by
        have hholds : s.flash.Holds start (s.flash.read start k) := by rw [Flash.Holds, Flash.length_read]
        have := ffAt_scanFf hholds (by rw [Flash.length_read]; exact hblank.mono (Nat.le_refl _) hk) hlast h
        rwa [Flash.length_read] at this
      rw [if_pos hlt, run_bind_of (run_efPortRead ..)]
      by_cases hin : start + 32 < endAddr
      · rw [if_pos hin]
        exact ih _ _ (by omega) (fun hx => hlast (by omega)) (hstep 32 (by omega) (by omega)) (by omega)
      · rw [if_neg hin]
        have hend := hstep (endAddr - start) (by omega) (by omega)
        rw [show start + (endAddr - start) = endAddr by omega] at hend
        -- the last buffer reaches the end, and the next round is the last
        obtain ⟨m, rfl⟩ : ∃ m, fuel = m + 1 := ⟨fuel - 1, by omega⟩
        refine ⟨_, ?_, hend⟩
        show (continueFfFrom endAddr (m + 1) (start + 32) _ _).run s = _
        rw [continueFfFrom, if_neg (by omega)]
        rfl
    · obtain rfl : start = endAddr := by omega
      rw [if_neg hlt]
      exact ⟨(addr, last), rfl, h⟩

/-- The address from which on a sector is erased. -/
theorem continueFfAddr_run {e : Nat} (hstart : start ≤ e) (he : e ≤ endAddr)
    (hblank : s.flash.Blank e endAddr) (hlast : start < e → s.flash (e - 1) ≠ 0xFF) (hfuel : endAddr - start < rounds) :
    (continueFfAddr start endAddr).run s = some (e, s) := by
  obtain ⟨r, hrun, hr⟩ := continueFfFrom_run start 0 (by omega) hblank hlast
    ⟨fun _ => (by decide : (0 : Byte) ≠ 0xFF), fun h => by omega⟩ hfuel
  unfold continueFfAddr
  rw [run_bind_of hrun]
  obtain ⟨addr, last⟩ := r
  by_cases hend : endAddr = e
  · show some ((if last = 0xFF then addr else endAddr), s) = _
    rw [if_neg (hr.before hend), hend]
  · obtain ⟨hl, ha⟩ := hr.after (by omega)
    show some ((if last = 0xFF then addr else endAddr), s) = _
    rw [if_pos hl]
    exact congrArg (fun r => some (r, s)) ha

end Backwash.EasyFlash
