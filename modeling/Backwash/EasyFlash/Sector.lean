import Backwash.EasyFlash.Cache
import Backwash.EasyFlash.Search

/-! A sector that is in use, as a walk through it sees it.

From the header on the walk meets one item after the other: nodes, and what is left of a write
that power was lost over. The next item is where the next magic word is, behind a node or,
where the checksum fails, one byte further. A sector in use is its header, its items and
the erased bytes behind them. -/
namespace Backwash.EasyFlash
open Storage

/-! ### Items -/

inductive Item
  | node (n : Node)
  | torn (st : EnvStatus) (len : Nat)

/-- No length of a node. -/
def BadLen (len : Nat) : Prop := len = 0xFFFFFFFF ∨ envAreaSize < len ∨ len < envNameLenOffset

instance (len : Nat) : Decidable (BadLen len) := inferInstanceAs (Decidable (_ ∨ _))

/-- The beginning of a node, known to be none: its length is no length or its checksum fails. -/
structure Torn (f : Flash) (p : Nat) (st : EnvStatus) (len : Nat) : Prop where
  settled : st = .preWrite ∨ st = .errHdr
  status : EnvStatus.ofIndex (getStatus (f.read p envHdrDataSize) EnvStatus.num) = st
  ge : 24 ≤ len
  le : len ≤ 4080
  bad : (BadLen (le32 (f.read p envHdrDataSize) 8) ∧ len = 24 ∧ st = .errHdr) ∨
    (le32 (f.read p envHdrDataSize) 8 = len ∧
      (efCalcCrc32 0 (f.read (p + envNameLenOffset) (len - envNameLenOffset))).toNat ≠ le32 (f.read p envHdrDataSize) 12)

namespace Item

def len : Item → Nat
  | node n => n.size
  | torn _ len => len

/-- From an item to where the next is looked for. -/
def step : Item → Nat
  | node n => n.size
  | torn _ _ => 1

def Shows (f : Flash) (p : Nat) : Item → Prop
  | node n => f.Holds p n.bytes ∧ n.Ok
  | torn st len => Torn f p st len

/-- What `read_env` makes of an item at `p`. -/
def env (i : Item) (p : Nat) (old : EnvNode) : EnvNode :=
  match i with
  | node n => n.env p
  | torn st len => {old with status := st, crcIsOk := false, len := len, start := p}

theorem len_ge {f : Flash} {p : Nat} : ∀ {i : Item}, i.Shows f p → 24 ≤ i.len
  | node n, _ => n.size_ge
  | torn _ _, h => h.ge

theorem step_pos {f : Flash} {p : Nat} {i : Item} (h : i.Shows f p) : 0 < i.step := by
  cases i with
  | node n =>
    have := n.size_ge
    show 0 < n.size
    omega
  | torn st len => exact Nat.one_pos

/-- An item is made of its own bytes. -/
theorem Shows.congr {f g : Flash} {p : Nat} {i : Item} (h : i.Shows f p) (hs : f.Same g p (p + i.len)) : i.Shows g p := by
  cases i with
  | node n => exact ⟨h.1.congr (by rwa [n.length_bytes]), h.2⟩
  | torn st len =>
    obtain ⟨hsettled, hstatus, hge, hle, hbad⟩ := h
    have hs' : f.Same g p (p + len) := hs
    have hhdr : f.read p envHdrDataSize = g.read p envHdrDataSize :=
      Flash.read_congr (hs'.mono (Nat.le_refl _) (by simp only [envHdrDataSize]; omega))
    have hdata : f.read (p + envNameLenOffset) (len - envNameLenOffset) = g.read (p + envNameLenOffset) (len - envNameLenOffset) :=
      Flash.read_congr (hs'.mono (by omega) (by simp only [envNameLenOffset]; omega))
    rw [hhdr] at hstatus hbad
    rw [hdata] at hbad
    exact ⟨hsettled, hstatus, hge, hle, hbad⟩

theorem node_magic {f : Flash} {p : Nat} {n : Node} (h : f.Holds p n.bytes) : Magic f (p + 4) := by
  have hbytes : n.bytes = [n.status, 0xFF, 0xFF, 0xFF] ++ (magicBytes ++ (toLe32 n.size ++
      (toLe32 (nodeCrc n.name n.value).toNat ++ n.checked))) := by
    rw [← toLe32_magic]
    simp [Node.bytes, Node.body, Node.hdr, envHdr, Node.checked, Node.size]
  rw [hbytes, Flash.holds_append, Flash.holds_append] at h
  exact h.2.1

end Item

/-- An item is read, and the chip is left as it is. -/
theorem readEnv_item {s : Store} {i : Item} {p : Nat} (h : i.Shows s.flash p) (env : EnvNode) :
    ∃ r, (readEnv {env with start := p}).run s = some ((r, i.env p env), s) := by
  cases i with
  | node n => exact ⟨_, readEnv_node h.2 h.1 env⟩
  | torn st len =>
    obtain ⟨-, hstatus, hge, hle, hbad⟩ := h
    refine ⟨.readErr, ?_⟩
    unfold readEnv
    rw [run_bind_of (run_efPortRead ..)]
    dsimp only
    rcases hbad with ⟨hlen, rfl, rfl⟩ | ⟨hlen, hcrc⟩
    · rw [if_pos (show _ ∨ _ from hlen), if_neg (not_not_intro hstatus)]
      rfl
    · have hcalc := crcFrom_eq s (p + envNameLenOffset) (len - envNameLenOffset) 0 0
        (show _ < rounds by simp only [rounds, envAreaSize, envNameLenOffset]; omega) (Nat.zero_le _)
      rw [Nat.add_zero, Nat.sub_zero] at hcalc
      rw [hlen, if_neg (by simp only [envAreaSize, envNameLenOffset]; omega),
        if_neg (by simp only [sectorSize, sectorHdrDataSize, envAreaSize]; omega), run_bind_of hcalc, if_pos hcrc, hstatus]
      rfl

/-! ### Chains -/

abbrev Items := List (Nat × Item)

/-- The items that a walk finds from `a` on, the bytes before `z` taken, all before `e`. -/
inductive Chain (f : Flash) (limit e : Nat) : Nat → Nat → Items → Prop
  | nil {a z : Nat} : a ≤ z → z ≤ e → Quiet f (a + 4) limit → Chain f limit e a z []
  | cons {a z p : Nat} {i : Item} {rest : Items} : a ≤ z → z ≤ p → Quiet f (a + 4) (p + 4) → Magic f (p + 4) →
      i.Shows f p → Chain f limit e (p + i.step) (p + i.len) rest → Chain f limit e a z ((p, i) :: rest)

variable {f g : Flash} {s : Store} {limit e a z b p : Nat} {i : Item} {items rest : Items}

namespace Chain

theorem le_end (h : Chain f limit e a z items) : z ≤ e := by
  induction h with
  | nil _ hz _ => exact hz
  | cons _ hz _ _ _ _ ih => omega

theorem start_le (h : Chain f limit e a z items) : a ≤ z := by
  cases h with
  | nil ha _ _ => exact ha
  | cons ha _ _ _ _ _ => exact ha

/-- Every item lies between what is taken and the end. -/
theorem mem (h : Chain f limit e a z items) : ∀ x ∈ items, z ≤ x.1 ∧ x.1 + x.2.len ≤ e ∧ x.2.Shows f x.1 := by
  induction h with
  | nil _ _ _ => exact fun _ hx => by cases hx
  | cons _ hz _ _ hi hrest ih =>
    intro x hx
    rcases List.mem_cons.mp hx with rfl | hx
    · exact ⟨hz, hrest.le_end, hi⟩
    · obtain ⟨hle, hend⟩ := ih x hx
      exact ⟨by omega, hend⟩

/-- A change behind the end, where a node now begins. -/
theorem append (h : Chain f limit e a z items) {n : Node} (hn : n.Ok) (hbytes : g.Holds e n.bytes)
    (hs : ∀ x, a ≤ x → x < e → f x = g x) (hlimit : e + 4 ≤ limit) (hblank : g.Blank (e + n.size) limit) :
    Chain g limit (e + n.size) a z (items ++ [(e, .node n)]) := by
  induction h with
  | @nil a z ha hz hquiet =>
    refine .cons ha hz ?_ (Item.node_magic hbytes) ⟨hbytes, hn⟩ (.nil (Nat.le_refl _) (Nat.le_refl _)
      (quiet_of_blank (hblank.mono (by simp only [Item.step]; omega) (Nat.le_refl _))))
    have hbefore : Quiet f (a + 4) (e + 4) := hquiet.mono (Nat.le_refl _) hlimit
    have hplain : ∀ y, e ≤ y → y < e + 4 → Plain (g y) := by
      intro y hy hy'
      have hlen := n.length_bytes
      have hsize := n.size_ge
      obtain ⟨k, rfl⟩ := Nat.exists_eq_add_of_le hy
      rw [hbytes.get (by omega)]
      obtain rfl | rfl | rfl | rfl : k = 0 ∨ k = 1 ∨ k = 2 ∨ k = 3 := by omega
      · exact hn.status
      all_goals exact (by decide : Plain 0xFF)
    intro x hx hxe hm
    by_cases hxe' : x + 3 < e
    · exact hbefore x hx hxe ((magic_congr fun y hy hy' => hs y (by omega) (by omega)).mpr hm)
    · exact not_magic_of_plain (y := max x e) (by omega) (by omega) (hplain _ (by omega) (by omega)) hm
  | @cons a z p i rest ha hz hquiet hmagic hi hrest ih =>
    have hend := hrest.le_end
    have hge := i.len_ge hi
    have hpos := i.step_pos hi
    refine .cons ha hz (hquiet.congr fun y hy hy' => .inl (hs y (by omega) (by omega)))
      ((magic_congr fun y hy hy' => hs y (by omega) (by omega)).mp hmagic)
      (hi.congr fun y hy hy' => hs y (by omega) (by omega)) (ih fun x hx hx' => hs x (by omega) hx')

/-- A chain is made of the bytes from its start to the limit. -/
theorem congr (h : Chain f limit e a z items) (hs : f.Same g a (max e (limit + 3))) : Chain g limit e a z items := by
  induction h with
  | nil ha hz hquiet => exact .nil ha hz (hquiet.congr fun y hy hy' => .inl (hs y (by omega) (by omega)))
  | @cons a z p i rest ha hz hquiet hmagic hi hrest ih =>
    have hend := hrest.le_end
    have hge := i.len_ge hi
    have hpos := i.step_pos hi
    exact .cons ha hz (hquiet.congr fun y hy hy' => .inl (hs y (by omega) (by omega)))
      ((magic_congr fun y hy hy' => hs y (by omega) (by omega)).mp hmagic)
      (hi.congr fun y hy hy' => hs y (by omega) (by omega)) (ih (hs.mono (by omega) (Nat.le_refl _)))

/-- From an item on the chain goes on behind it. -/
theorem split {done : Items} (h : Chain f limit e a z (done ++ (p, i) :: rest)) :
    i.Shows f p ∧ Chain f limit e (p + i.step) (p + i.len) rest := by
  induction done generalizing a z with
  | nil =>
    cases h with
    | cons _ _ _ _ hi hrest => exact ⟨hi, hrest⟩
  | cons x done ih =>
    cases h with
    | cons _ _ _ _ _ hrest => exact ih hrest

end Chain

/-! ### Marks

A status is changed by clearing bits of it. -/

def Node.mark (n : Node) (m : Byte) : Node := {n with status := n.status &&& m}

@[simp] theorem Node.mark_name (n : Node) (m : Byte) : (n.mark m).name = n.name := rfl

@[simp] theorem Node.mark_value (n : Node) (m : Byte) : (n.mark m).value = n.value := rfl

@[simp] theorem Node.mark_size (n : Node) (m : Byte) : (n.mark m).size = n.size := rfl

def Item.mark (m : Byte) : Item → Item
  | node n => node (n.mark m)
  | torn st len => torn st len

@[simp] theorem Item.mark_len (m : Byte) (i : Item) : (i.mark m).len = i.len := by cases i <;> rfl

@[simp] theorem Item.mark_step (m : Byte) (i : Item) : (i.mark m).step = i.step := by cases i <;> rfl

/-- The item at `p` is marked. -/
def Items.mark (items : Items) (p : Nat) (m : Byte) : Items :=
  items.map fun x => if x.1 = p then (x.1, x.2.mark m) else x

theorem Items.mark_eq_self {items : Items} {m : Byte} (h : ∀ x ∈ items, x.1 ≠ p) : Items.mark items p m = items := by
  conv_rhs => rw [← List.map_id items]
  exact List.map_congr_left fun x hx => if_neg (h x hx)

theorem Items.mark_append (xs ys : Items) (p : Nat) (m : Byte) :
    Items.mark (xs ++ ys) p m = Items.mark xs p m ++ Items.mark ys p m := List.map_append

theorem Item.mark_shows {n : Node} {m : Byte} (h : (Item.node n).Shows f p) (hp : Plain (n.status &&& m)) :
    (Item.node (n.mark m)).Shows (f.clear p m) p := by
  obtain ⟨hbytes, hok⟩ := h
  refine ⟨?_, ⟨hp, hok.name_le, hok.name_ne, hok.size_le⟩⟩
  obtain ⟨hst, hrest⟩ := Flash.holds_cons.mp hbytes
  refine Flash.holds_cons.mpr ⟨by rw [Flash.clear_self, hst]; rfl, hrest.congr fun x hx _ => ?_⟩
  rw [Flash.clear_of_ne m (by omega)]

theorem same_clear (f : Flash) (p : Nat) (m : Byte) {a b : Nat} (h : p < a ∨ b ≤ p) : f.Same (f.clear p m) a b := by
  intro x hx hx'
  rw [Flash.clear_of_ne m (by omega)]

namespace Chain

theorem mark {n : Node} {m : Byte} (h : Chain f limit e a z items) (hmem : (p, Item.node n) ∈ items)
    (hp : Plain (n.status &&& m)) : Chain (f.clear p m) limit e a z (items.mark p m) := by
  have hplain : ∀ {x y}, (∀ w, x ≤ w → w < y → w = p → f p = n.status) → ∀ w, x ≤ w → w < y →
      f w = f.clear p m w ∨ Plain (f.clear p m w) := by
    intro x y hst w hw hw'
    by_cases he : w = p
    · subst he
      right
      rwa [Flash.clear_self, hst w hw hw' rfl]
    · exact .inl (Flash.clear_of_ne m he).symm
  have hst : f p = n.status := (Flash.holds_cons.mp (h.mem _ hmem).2.2.1).1
  induction h with
  | nil _ _ _ => cases hmem
  | @cons a z p' i rest ha hz hquiet hmagic hi hrest ih =>
    have hge := i.len_ge hi
    have hpos := i.step_pos hi
    have hquiet' : Quiet (f.clear p m) (a + 4) (p' + 4) := hquiet.congr (hplain fun _ _ _ _ => hst)
    rcases List.mem_cons.mp hmem with heq | hmem
    · cases heq
      have hmark : Items.mark ((p, Item.node n) :: rest) p m = (p, Item.node (n.mark m)) :: rest := by
        rw [Items.mark, List.map_cons, if_pos rfl]
        refine congrArg _ (Items.mark_eq_self fun x hx => ?_)
        have := (hrest.mem x hx).1
        omega
      rw [hmark]
      refine .cons ha hz hquiet' ((magic_congr (same_clear f p m (.inl (by omega)))).mp hmagic) (Item.mark_shows hi hp) ?_
      exact hrest.congr (same_clear f p m (.inl (by omega)))
    · have hafter := (hrest.mem _ hmem).1
      have hmark : Items.mark ((p', i) :: rest) p m = (p', i) :: Items.mark rest p m := by
        rw [Items.mark, List.map_cons, if_neg (by simp only; omega)]
        rfl
      rw [hmark]
      refine .cons ha hz hquiet' ((magic_congr (same_clear f p m (.inr (by omega)))).mp hmagic)
        (hi.congr (same_clear f p m (.inr (by omega)))) (ih hmem)

end Chain

/-! ### Sectors in use -/

/-- The walk through a sector: the first item is where the header ends, whatever is there. -/
def Walk (f : Flash) (b e : Nat) : Items → Prop
  | [] => False
  | (p, i) :: rest => p = b + sectorHdrDataSize ∧ i.Shows f p ∧ Chain f (b + 4080) e (p + i.step) (p + i.len) rest

/-- The bytes of a header behind the two statuses. -/
def sectorHdrRest : List Byte :=
  0xFF :: 0xFF :: (toLe32 sectorMagicWord ++ (toLe32 sectorNotCombined ++ toLe32 0xFFFFFFFF))

/-- The bytes that the items of a sector are counted for. -/
def span (items : Items) : Nat := (items.map fun x => x.2.len).sum

@[simp] theorem span_nil : span [] = 0 := rfl

@[simp] theorem span_cons (x : Nat × Item) (items : Items) : span (x :: items) = x.2.len + span items := List.sum_cons

@[simp] theorem span_append (xs ys : Items) : span (xs ++ ys) = span xs + span ys := by simp [span]

@[simp] theorem span_mark (items : Items) (p : Nat) (m : Byte) : span (items.mark p m) = span items := by
  rw [span, span, Items.mark, List.map_map]
  congr 1
  refine List.map_congr_left fun x _ => ?_
  simp only [Function.comp]
  split
  · exact Item.mark_len m x.2
  · rfl

/-- The sector at `b`, with these statuses and items, is erased from `e` on. -/
structure Used (f : Flash) (b : Nat) (st dt : Byte) (items : Items) (e : Nat) : Prop where
  header : f.Holds b (st :: dt :: sectorHdrRest)
  walk : Walk f b e items
  blank : f.Blank e (b + 4096)
  le : e ≤ b + 4096
  span_eq : b + 16 + span items = e ∨ (b + 16 + span items < e ∧ f (e - 1) ≠ 0xFF)

namespace Walk

theorem congr (h : Walk f b e items) (he : e ≤ b + 4096) (hs : f.Same g (b + 16) (b + 4096)) : Walk g b e items := by
  cases items with
  | nil => exact h
  | cons x rest =>
    obtain ⟨hx, hi, hrest⟩ := h
    have hend := hrest.le_end
    simp only [sectorHdrDataSize] at hx
    exact ⟨hx, hi.congr (hs.mono (by omega) (by omega)), hrest.congr (hs.mono (by omega) (by omega))⟩

theorem mem (h : Walk f b e items) : ∀ x ∈ items, b + 16 ≤ x.1 ∧ x.1 + x.2.len ≤ e ∧ x.2.Shows f x.1 := by
  cases items with
  | nil => exact fun _ hx => by cases hx
  | cons y rest =>
    obtain ⟨hy, hi, hrest⟩ := h
    have hend := hrest.le_end
    simp only [sectorHdrDataSize] at hy
    intro x hx
    rcases List.mem_cons.mp hx with rfl | hx
    · exact ⟨by omega, hend, hi⟩
    · obtain ⟨hle, hx⟩ := hrest.mem x hx
      exact ⟨by omega, hx⟩

theorem append (h : Walk f b e items) {n : Node} (hn : n.Ok) (hbytes : g.Holds e n.bytes)
    (hs : f.Same g (b + 16) e) (he : e + n.size ≤ b + 4096) (hblank : g.Blank (e + n.size) (b + 4096)) :
    Walk g b (e + n.size) (items ++ [(e, .node n)]) := by
  cases items with
  | nil => exact h.elim
  | cons y rest =>
    obtain ⟨hy, hi, hrest⟩ := h
    have hend := hrest.le_end
    have hsize := n.size_ge
    simp only [sectorHdrDataSize] at hy
    exact ⟨hy, hi.congr (hs.mono (by omega) (by omega)),
      hrest.append hn hbytes (fun x hx hx' => hs x (by omega) hx') (by omega) (hblank.mono (Nat.le_refl _) (by omega))⟩

/-- The first node of a sector. -/
theorem first {n : Node} (hn : n.Ok) (hbytes : g.Holds (b + 16) n.bytes) (hblank : g.Blank (b + 16 + n.size) (b + 4096)) :
    Walk g b (b + 16 + n.size) [(b + 16, .node n)] :=
  ⟨rfl, ⟨hbytes, hn⟩, .nil (Nat.le_refl _) (Nat.le_refl _) (quiet_of_blank (hblank.mono (by simp only [Item.step]; omega) (by omega)))⟩

theorem mark {n : Node} {m : Byte} (h : Walk f b e items) (hmem : (p, Item.node n) ∈ items)
    (hp : Plain (n.status &&& m)) : Walk (f.clear p m) b e (items.mark p m) := by
  cases items with
  | nil => exact h.elim
  | cons y rest =>
    obtain ⟨hy, hi, hrest⟩ := h
    have hge := y.2.len_ge hi
    have hpos := y.2.step_pos hi
    rcases List.mem_cons.mp hmem with rfl | hmem
    · have hrest' : Items.mark rest p m = rest := Items.mark_eq_self fun x hx => by
        have := (hrest.mem x hx).1
        simp only at hge this ⊢
        omega
      rw [Items.mark, List.map_cons, if_pos rfl]
      refine ⟨hy, Item.mark_shows hi hp, ?_⟩
      rw [show List.map _ rest = rest from hrest', Item.mark_step, Item.mark_len]
      exact hrest.congr (same_clear f p m (.inl (Nat.lt_add_of_pos_right hpos)))
    · have hafter := (hrest.mem _ hmem).1
      rw [Items.mark, List.map_cons, if_neg (by omega)]
      exact ⟨hy, hi.congr (same_clear f p m (.inr (by omega))), hrest.mark hmem hp⟩

theorem split {done : Items} (h : Walk f b e (done ++ (p, i) :: rest)) :
    i.Shows f p ∧ Chain f (b + 4080) e (p + i.step) (p + i.len) rest := by
  cases done with
  | nil => exact h.2
  | cons y done => exact h.2.2.split

end Walk

namespace Used
variable {st dt m : Byte} {n : Node}

theorem congr (h : Used f b st dt items e) (hs : f.Same g b (b + 4096)) (he : 0 < e) : Used g b st dt items e := by
  have hle := h.le
  refine ⟨h.header.congr (hs.mono (Nat.le_refl _) ?_), h.walk.congr hle (hs.mono (by omega) (Nat.le_refl _)),
    h.blank.congr (hs.mono ?_ (Nat.le_refl _)), hle, ?_⟩
  · show b + 16 ≤ b + 4096
    omega
  · have := h.span_eq
    omega
  · refine h.span_eq.imp_right fun ⟨hlt, hlast⟩ => ⟨hlt, ?_⟩
    rwa [← hs (e - 1) (by omega) (by omega)]

/-- The walk ends behind the header. -/
theorem start_le (h : Used f b st dt items e) : b + 40 ≤ e := by
  have hwalk := h.walk
  match items, hwalk with
  | (p, i) :: rest, ⟨hp, hi, hrest⟩ =>
    have hend := hrest.le_end
    have hge := i.len_ge hi
    simp only [sectorHdrDataSize] at hp
    omega

theorem append (h : Used f b st dt items e) (hn : n.Ok) (hbytes : g.Holds e n.bytes) (hs : f.Same g b e)
    (he : e + n.size ≤ b + 4096) (hblank : g.Blank (e + n.size) (b + 4096))
    (hlast : b + 16 + span items = e ∨ g (e + n.size - 1) ≠ 0xFF) :
    Used g b st dt (items ++ [(e, .node n)]) (e + n.size) := by
  have hstart := h.start_le
  have hspan := h.span_eq
  refine ⟨h.header.congr (hs.mono (Nat.le_refl _) ?_), h.walk.append hn hbytes (hs.mono (by omega) (Nat.le_refl _)) he hblank,
    hblank, he, ?_⟩
  · show b + 16 ≤ e
    omega
  · simp only [span_append, span_cons, span_nil, Item.len]
    rcases hlast with hlast | hlast
    · left
      omega
    · rcases hspan with hspan | ⟨hspan, -⟩
      · left
        omega
      · exact .inr ⟨by omega, hlast⟩

theorem mark (h : Used f b st dt items e) (hmem : (p, Item.node n) ∈ items) (hp : Plain (n.status &&& m)) :
    Used (f.clear p m) b st dt (items.mark p m) e := by
  obtain ⟨hge, hend, -⟩ := h.walk.mem _ hmem
  have hsize := n.size_ge
  have hend' : p + n.size ≤ e := hend
  refine ⟨h.header.congr (same_clear f p m (.inr ?_)), h.walk.mark hmem hp, h.blank.congr (same_clear f p m (.inl ?_)), h.le, ?_⟩
  · exact hge
  · omega
  · rw [span_mark, Flash.clear_of_ne m (by omega)]
    exact h.span_eq

theorem store (h : Used f b st dt items e) (m : Byte) : Used (f.clear b m) b (st &&& m) dt items e := by
  have hstart := h.start_le
  obtain ⟨hst, hrest⟩ := Flash.holds_cons.mp h.header
  refine ⟨Flash.holds_cons.mpr ⟨by rw [Flash.clear_self, hst], hrest.congr (same_clear f b m (.inl (by omega)))⟩,
    h.walk.congr h.le (same_clear f b m (.inl (by omega))), h.blank.congr (same_clear f b m (.inl (by omega))), h.le, ?_⟩
  rw [Flash.clear_of_ne m (by omega)]
  exact h.span_eq

theorem dirty (h : Used f b st dt items e) (m : Byte) : Used (f.clear (b + 1) m) b st (dt &&& m) items e := by
  have hstart := h.start_le
  obtain ⟨hst, hrest⟩ := Flash.holds_cons.mp h.header
  obtain ⟨hdt, hrest⟩ := Flash.holds_cons.mp hrest
  refine ⟨Flash.holds_cons.mpr ⟨by rw [Flash.clear_of_ne m (by omega), hst], Flash.holds_cons.mpr
      ⟨by rw [Flash.clear_self, hdt], hrest.congr (same_clear f _ m (.inl (by omega)))⟩⟩,
    h.walk.congr h.le (same_clear f _ m (.inl (by omega))), h.blank.congr (same_clear f _ m (.inl (by omega))), h.le, ?_⟩
  rw [Flash.clear_of_ne m (by omega)]
  exact h.span_eq

end Used

end Backwash.EasyFlash
