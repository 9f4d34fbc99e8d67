import Backwash.EasyFlash.Env

/-! The two caches.

The sector cache remembers where the erased bytes of a sector begin, the cache of names where
the node of a name lies, by sixteen bits of the name's checksum. Each is right as long as
it is told of every change: an update replaces what is cached for its key and adds nothing twice.
Names with one checksum are taken for each other, so nothing holds of two of those. -/
namespace Backwash.EasyFlash
open Storage

/-! ### Sectors -/

/-- What is cached is true, and once. -/
structure SectorCacheOk (T : Nat → Nat → Prop) (table : List SectorCacheNode) : Prop where
  holds : ∀ x ∈ table, x.addr ≠ failedAddr → T x.addr x.emptyAddr
  once : ∀ {i j : Nat} {x y : SectorCacheNode}, table[i]? = some x → table[j]? = some y → x.addr = y.addr →
    x.addr ≠ failedAddr → i = j

section
variable {T T' : Nat → Nat → Prop} {table : List SectorCacheNode} {sec e : Nat}

theorem SectorCacheOk.mono (h : SectorCacheOk T table) (ht : ∀ a x, T a x → T' a x) : SectorCacheOk T' table :=
  ⟨fun x hx hne => ht _ _ (h.holds x hx hne), h.once⟩

theorem drop_cons {α : Type} {l rest : List α} {x : α} {i : Nat} (h : l.drop i = x :: rest) :
    l[i]? = some x ∧ l.drop (i + 1) = rest := by
  refine ⟨?_, ?_⟩
  · rw [← List.head?_drop, h]
    rfl
  · rw [← List.tail_drop, h]
    rfl

theorem mem_of_before {α : Type} {l : List α} {i : Nat} {P : α → Prop} (h : l.drop i = [])
    (hp : ∀ j x, j < i → l[j]? = some x → P x) : ∀ x ∈ l, P x := by
  intro x hx
  obtain ⟨j, hj, rfl⟩ := List.getElem_of_mem hx
  have hlen : l.length ≤ i := List.drop_eq_nil_iff.mp h
  exact hp j _ (by omega) (List.getElem?_eq_getElem hj)

/-- Where an update of the sector cache with a true address goes. -/
theorem updateSectorCacheFrom_set (hin : sec < e ∧ e < sec + sectorSize) (rest : List SectorCacheNode) {i k : Nat}
    (hrest : table.drop i = rest) (hbefore : ∀ j x, j < i → table[j]? = some x → x.addr ≠ sec)
    (hk : k = efSectorCacheTableSize ∨ ∃ x, table[k]? = some x ∧ x.addr = failedAddr) :
    (∃ j x, table[j]? = some x ∧ (x.addr = sec ∨ (x.addr = failedAddr ∧ ∀ y ∈ table, y.addr ≠ sec)) ∧
        updateSectorCacheFrom sec e table rest i k = table.set j ⟨sec, e⟩) ∨
      ((∀ y ∈ table, y.addr ≠ sec) ∧ updateSectorCacheFrom sec e table rest i k = table) := by
  induction rest generalizing i k with
  | nil =>
    have hnone := mem_of_before hrest hbefore
    by_cases hlt : k < efSectorCacheTableSize
    · obtain ⟨x, hx, hfailed⟩ := hk.resolve_left (by omega)
      exact .inl ⟨k, x, hx, .inr ⟨hfailed, hnone⟩, by rw [updateSectorCacheFrom, if_pos hlt]⟩
    · exact .inr ⟨hnone, by rw [updateSectorCacheFrom, if_neg hlt]⟩
  | cons x rest ih =>
    obtain ⟨hx, hrest⟩ := drop_cons hrest
    by_cases hsec : x.addr = sec
    · exact .inl ⟨i, x, hx, .inl hsec, by rw [updateSectorCacheFrom, if_pos hin, if_pos hsec]⟩
    · have hbefore' : ∀ j y, j < i + 1 → table[j]? = some y → y.addr ≠ sec := by
        intro j y hj hy
        rcases Nat.lt_succ_iff_lt_or_eq.mp hj with hj | rfl
        · exact hbefore j y hj hy
        · rw [hx] at hy
          cases hy
          exact hsec
      rw [updateSectorCacheFrom, if_pos hin, if_neg hsec]
      split
      · exact ih hrest hbefore' (.inr ⟨x, hx, (‹_ ∧ _› : _ ∧ _).1⟩)
      · exact ih hrest hbefore' hk

theorem set_once {j : Nat} {y : SectorCacheNode} (h : SectorCacheOk T table) (ht : T' y.addr y.emptyAddr)
    (hother : ∀ i x, i ≠ j → table[i]? = some x → x.addr ≠ failedAddr → x.addr ≠ y.addr ∧ T' x.addr x.emptyAddr) :
    SectorCacheOk T' (table.set j y) := by
  refine ⟨fun x hx hne => ?_, fun {i k u v} hu hv huv hne => ?_⟩
  · obtain ⟨i, hi⟩ := List.getElem?_of_mem hx
    rw [List.getElem?_set] at hi
    split at hi
    · split at hi
      · cases hi
        exact ht
      · cases hi
    · exact (hother i x (fun e => absurd e.symm ‹_›) hi hne).2
  · rw [List.getElem?_set] at hu hv
    split at hu
    · split at hu
      · obtain rfl := Option.some.inj hu
        split at hv
        · omega
        · exact absurd huv.symm (hother k v (fun e => absurd e.symm ‹_›) hv (huv ▸ hne)).1
      · cases hu
    · split at hv
      · split at hv
        · obtain rfl := Option.some.inj hv
          exact absurd huv (hother i u (fun e => absurd e.symm ‹_›) hu hne).1
        · cases hv
      · exact h.once hu hv huv hne

/-- A sector's erased bytes begin elsewhere. -/
theorem SectorCacheOk.update (h : SectorCacheOk T table) (hin : sec < e ∧ e < sec + sectorSize)
    (ht : T' sec e) (hother : ∀ a x, a ≠ sec → T a x → T' a x) :
    SectorCacheOk T' (updateSectorCacheTable sec e table) := by
  rcases updateSectorCacheFrom_set hin table (i := 0) (k := efSectorCacheTableSize) rfl
    (fun _ _ hj => absurd hj (by omega)) (.inl rfl) with ⟨j, x, hx, hcase, heq⟩ | ⟨hnone, heq⟩
  · rw [updateSectorCacheTable, heq]
    refine set_once h ht fun i y hij hy hne => ?_
    have hy' : y.addr ≠ sec := by
      rcases hcase with hxs | ⟨-, hnone⟩
      · exact fun hys => hij (h.once hy hx (hys.trans hxs.symm) hne)
      · exact hnone y (List.mem_of_getElem? hy)
    exact ⟨hy', hother _ _ hy' (h.holds y (List.mem_of_getElem? hy) hne)⟩
  · rw [updateSectorCacheTable, heq]
    exact ⟨fun x hx hne => hother _ _ (hnone x hx) (h.holds x hx hne), h.once⟩

theorem updateSectorCacheFrom_drop (hin : ¬ (sec < e ∧ e < sec + sectorSize)) (rest : List SectorCacheNode) {i : Nat}
    (hrest : table.drop i = rest) (hbefore : ∀ j x, j < i → table[j]? = some x → x.addr ≠ sec) :
    (∃ j x, table[j]? = some x ∧ x.addr = sec ∧ updateSectorCacheFrom sec e table rest i efSectorCacheTableSize =
        table.set j {x with addr := failedAddr}) ∨
      ((∀ y ∈ table, y.addr ≠ sec) ∧ updateSectorCacheFrom sec e table rest i efSectorCacheTableSize = table) := by
  induction rest generalizing i with
  | nil => exact .inr ⟨mem_of_before hrest hbefore, rfl⟩
  | cons x rest ih =>
    obtain ⟨hx, hrest⟩ := drop_cons hrest
    rw [updateSectorCacheFrom, if_neg hin]
    by_cases hsec : x.addr = sec
    · exact .inl ⟨i, x, hx, hsec, by rw [if_pos hsec]⟩
    · rw [if_neg hsec]
      refine ih hrest fun j y hj hy => ?_
      rcases Nat.lt_succ_iff_lt_or_eq.mp hj with hj | rfl
      · exact hbefore j y hj hy
      · rw [hx] at hy
        cases hy
        exact hsec

/-- A sector is not cached any more. -/
theorem SectorCacheOk.drop (h : SectorCacheOk T table) (hin : ¬ (sec < e ∧ e < sec + sectorSize))
    (hother : ∀ a x, a ≠ sec → T a x → T' a x) : SectorCacheOk T' (updateSectorCacheTable sec e table) := by
  rcases updateSectorCacheFrom_drop hin table (i := 0) rfl
    (fun _ _ hj => absurd hj (by omega)) with ⟨j, x, hx, hxs, heq⟩ | ⟨hnone, heq⟩
  · rw [updateSectorCacheTable, heq]
    refine ⟨fun y hy hne => ?_, fun {i k u v} hu hv huv hne => ?_⟩
    · obtain ⟨i, hi⟩ := List.getElem?_of_mem hy
      rw [List.getElem?_set] at hi
      split at hi
      · split at hi
        · cases hi
          exact absurd rfl hne
        · cases hi
      · have hmem := List.mem_of_getElem? hi
        exact hother _ _ (fun hys => absurd (h.once hx hi (hxs.trans hys.symm) (by rw [hxs, ← hys]; exact hne)) ‹_›) (h.holds y hmem hne)
    · rw [List.getElem?_set] at hu hv
      split at hu
      · split at hu
        · cases hu
          exact absurd rfl hne
        · cases hu
      · split at hv
        · split at hv
          · cases hv
            exact absurd huv hne
          · cases hv
        · exact h.once hu hv huv hne
  · rw [updateSectorCacheTable, heq]
    exact ⟨fun x hx hne => hother _ _ (hnone x hx) (h.holds x hx hne), h.once⟩

/-- What the cache answers for a sector is true. -/
theorem SectorCacheOk.find (h : SectorCacheOk T table) (hsec : sec ≠ failedAddr)
    (hfind : (table.find? fun x => x.addr = sec).map SectorCacheNode.emptyAddr = some e) : T sec e := by
  obtain ⟨x, hx, rfl⟩ := Option.map_eq_some_iff.mp hfind
  have hsecx : x.addr = sec := by simpa using List.find?_some hx
  rw [← hsecx]
  exact h.holds x (List.mem_of_find?_eq_some hx) (hsecx ▸ hsec)

end

/-! ### Names -/

def cacheKeys (table : List EnvCacheNode) : List (BitVec 16 × Nat) := table.map fun x => (x.nameCrc, x.addr)

/-- `loc` is where the names are: an entry is the place of a name with its checksum, and no
valid entry has another with the same checksum before it. -/
structure EnvCacheOk (loc : List Byte → Option Nat) (keys : List (BitVec 16 × Nat)) : Prop where
  holds : ∀ x ∈ keys, x.2 ≠ failedAddr → ∃ name, loc name = some x.2 ∧ nameCrc name = x.1
  first : ∀ {i j : Nat} {x y : BitVec 16 × Nat}, i < j → keys[i]? = some x → keys[j]? = some y → x.1 = y.1 →
    y.2 = failedAddr

section
variable {loc : List Byte → Option Nat} {keys : List (BitVec 16 × Nat)} {c : BitVec 16} {addr : Nat} {name : List Byte}

theorem cacheKeys_set_active {table : List EnvCacheNode} {i : Nat} {x x' : EnvCacheNode} (hx : table[i]? = some x)
    (hcrc : x'.nameCrc = x.nameCrc) (haddr : x'.addr = x.addr) : cacheKeys (table.set i x') = cacheKeys table := by
  refine List.ext_getElem? fun j => ?_
  simp only [cacheKeys, List.getElem?_map, List.getElem?_set]
  split
  · subst_vars
    rw [hx, if_pos (List.getElem?_eq_some_iff.mp hx).1, Option.map_some, Option.map_some, hcrc, haddr]
  · rfl

theorem cacheKeys_set (table : List EnvCacheNode) (i : Nat) (x : EnvCacheNode) :
    cacheKeys (table.set i x) = (cacheKeys table).set i (x.nameCrc, x.addr) := List.map_set

/-- Where an update of the cache of names goes: to the first entry with the checksum, or, if
there is none, anywhere or nowhere. -/
theorem updateEnvCacheFrom_keys (haddr : addr ≠ failedAddr) (table rest : List EnvCacheNode)
    (i emptyIndex minIndex minActivity : Nat) (hrest : (cacheKeys table).drop i = cacheKeys rest)
    (hdrop : table.drop i = rest)
    (hbefore : ∀ j x, j < i → (cacheKeys table)[j]? = some x → x.1 ≠ c) :
    (∃ j, (∀ k x, k < j → (cacheKeys table)[k]? = some x → x.1 ≠ c) ∧
        ((∃ x, (cacheKeys table)[j]? = some x ∧ x.1 = c) ∨ ∀ x ∈ cacheKeys table, x.1 ≠ c) ∧
        cacheKeys (updateEnvCacheFrom c addr table rest i emptyIndex minIndex minActivity) =
          (cacheKeys table).set j (c, addr)) ∨
      ((∀ x ∈ cacheKeys table, x.1 ≠ c) ∧
        cacheKeys (updateEnvCacheFrom c addr table rest i emptyIndex minIndex minActivity) = cacheKeys table) := by
  induction rest generalizing table i emptyIndex minIndex minActivity with
  | nil =>
    have hnone := mem_of_before hrest hbefore
    have hbefore' : ∀ j k (x : BitVec 16 × Nat), k < j → (cacheKeys table)[k]? = some x → x.1 ≠ c := fun _ _ x _ hx =>
      hnone x (List.mem_of_getElem? hx)
    rw [updateEnvCacheFrom]
    split
    · exact .inl ⟨emptyIndex, hbefore' _, .inr hnone, cacheKeys_set ..⟩
    · split
      · exact .inl ⟨minIndex, hbefore' _, .inr hnone, cacheKeys_set ..⟩
      · exact .inr ⟨hnone, rfl⟩
  | cons x rest ih =>
    obtain ⟨hx, hdrop'⟩ := drop_cons hdrop
    obtain ⟨hkx, hrest'⟩ := drop_cons hrest
    rw [updateEnvCacheFrom, if_pos haddr]
    by_cases hcrc : x.nameCrc = c
    · rw [if_pos hcrc]
      refine .inl ⟨i, hbefore, .inl ⟨_, hkx, hcrc⟩, ?_⟩
      rw [cacheKeys_set, hcrc]
    · have hbefore' : ∀ j y, j < i + 1 → (cacheKeys table)[j]? = some y → y.1 ≠ c := by
        intro j y hj hy
        rcases Nat.lt_succ_iff_lt_or_eq.mp hj with hj | rfl
        · exact hbefore j y hj hy
        · rw [hkx] at hy
          cases hy
          exact hcrc
      rw [if_neg hcrc]
      -- an entry that becomes less active stays what it is
      have hkeys : cacheKeys (table.set i {x with active := x.active - 1}) = cacheKeys table :=
        cacheKeys_set_active hx rfl rfl
      have hactive := fun ei mi ma => ih (table.set i {x with active := x.active - 1}) (i + 1) ei mi ma
        (by rw [hkeys]; exact hrest')
        (by rw [List.drop_set_of_lt (by omega)]; exact hdrop') (by rw [hkeys]; exact hbefore')
      rw [hkeys] at hactive
      split
      · exact ih _ _ _ _ _ hrest' hdrop' hbefore'
      · split
        · simp only
          split
          · exact hactive ..
          · exact hactive ..
        · exact ih _ _ _ _ _ hrest' hdrop' hbefore'

theorem updateEnvCacheFrom_del (table rest : List EnvCacheNode) {i : Nat}
    (hrest : (cacheKeys table).drop i = cacheKeys rest)
    (hbefore : ∀ j x, j < i → (cacheKeys table)[j]? = some x → x.1 ≠ c) :
    (∃ j x, (∀ k x, k < j → (cacheKeys table)[k]? = some x → x.1 ≠ c) ∧ (cacheKeys table)[j]? = some x ∧ x.1 = c ∧
        cacheKeys (updateEnvCacheFrom c failedAddr table rest i efEnvCacheTableSize efEnvCacheTableSize 0xFFFF) =
          (cacheKeys table).set j (c, failedAddr)) ∨
      ((∀ x ∈ cacheKeys table, x.1 ≠ c) ∧
        cacheKeys (updateEnvCacheFrom c failedAddr table rest i efEnvCacheTableSize efEnvCacheTableSize 0xFFFF) =
          cacheKeys table) := by
  induction rest generalizing i with
  | nil => exact .inr ⟨mem_of_before hrest hbefore, rfl⟩
  | cons x rest ih =>
    obtain ⟨hkx, hrest'⟩ := drop_cons hrest
    rw [updateEnvCacheFrom, if_neg (not_not_intro rfl)]
    by_cases hcrc : x.nameCrc = c
    · rw [if_pos hcrc]
      exact .inl ⟨i, _, hbefore, hkx, hcrc, by rw [cacheKeys_set, hcrc]⟩
    · rw [if_neg hcrc]
      refine ih hrest' fun j y hj hy => ?_
      rcases Nat.lt_succ_iff_lt_or_eq.mp hj with hj | rfl
      · exact hbefore j y hj hy
      · rw [hkx] at hy
        cases hy
        exact hcrc

/-- The first entry with a checksum, or any entry where there is none, becomes the place of
the name; a place that is none is no place. -/
theorem EnvCacheOk.set {j : Nat} (h : EnvCacheOk loc keys) (hc : nameCrc name = c) {new : Option Nat}
    (hnew : addr ≠ failedAddr → new = some addr) (hfirst : ∀ k x, k < j → keys[k]? = some x → x.1 ≠ c)
    (hcase : (∃ x, keys[j]? = some x ∧ x.1 = c) ∨ ∀ x ∈ keys, x.1 ≠ c) :
    EnvCacheOk (Function.update loc name new) (keys.set j (c, addr)) := by
  refine ⟨fun x hx hne => ?_, fun {i k u v} hik hu hv huv => ?_⟩
  · obtain ⟨i, hi⟩ := List.getElem?_of_mem hx
    rw [List.getElem?_set] at hi
    split at hi
    · split at hi
      · cases hi
        exact ⟨name, by rw [Function.update_self, hnew hne], hc⟩
      · cases hi
    · have hij : ¬ j = i := ‹_›
      obtain ⟨name', hloc, hcrc⟩ := h.holds x (List.mem_of_getElem? hi) hne
      refine ⟨name', ?_, hcrc⟩
      rw [Function.update_of_ne, hloc]
      rintro rfl
      have hxc : x.1 = c := hcrc.symm.trans hc
      rcases hcase with ⟨y, hy, hyc⟩ | hnone
      · rcases Nat.lt_or_gt_of_ne hij with hlt | hlt
        · exact hne (h.first hlt hy hi (hyc.trans hxc.symm))
        · exact hfirst i x hlt hi hxc
      · exact hnone x (List.mem_of_getElem? hi) hxc
  · rw [List.getElem?_set] at hu hv
    split at hu
    · split at hu
      · obtain rfl := Option.some.inj hu
        rw [if_neg (by omega)] at hv
        rcases hcase with ⟨y, hy, hyc⟩ | hnone
        · exact h.first (by omega : j < k) hy hv (hyc.trans huv)
        · exact absurd huv.symm (hnone v (List.mem_of_getElem? hv))
      · cases hu
    · split at hv
      · split at hv
        · obtain rfl := Option.some.inj hv
          exact absurd huv (hfirst i u (by omega) hu)
        · cases hv
      · exact h.first hik hu hv huv

theorem EnvCacheOk.forget (h : EnvCacheOk loc keys) (hnone : ∀ x ∈ keys, x.1 ≠ nameCrc name) (new : Option Nat) :
    EnvCacheOk (Function.update loc name new) keys := by
  refine ⟨fun x hx hne => ?_, h.first⟩
  obtain ⟨name', hloc, hcrc⟩ := h.holds x hx hne
  refine ⟨name', ?_, hcrc⟩
  rw [Function.update_of_ne, hloc]
  rintro rfl
  exact hnone x hx hcrc.symm

/-- A name has a new place. -/
theorem EnvCacheOk.update {table : List EnvCacheNode} (h : EnvCacheOk loc (cacheKeys table)) (haddr : addr ≠ failedAddr) :
    EnvCacheOk (Function.update loc name (some addr)) (cacheKeys (updateEnvCacheTable name addr table)) := by
  rcases updateEnvCacheFrom_keys (c := nameCrc name) haddr table table 0 efEnvCacheTableSize efEnvCacheTableSize 0xFFFF rfl rfl (fun _ _ hj => absurd hj (by omega)) with
    ⟨j, hfirst, hcase, heq⟩ | ⟨hnone, heq⟩
  · rw [updateEnvCacheTable, heq]
    exact h.set rfl (fun _ => rfl) hfirst hcase
  · rw [updateEnvCacheTable, heq]
    exact h.forget hnone _

/-- A name has no place any more. -/
theorem EnvCacheOk.delete {table : List EnvCacheNode} (h : EnvCacheOk loc (cacheKeys table)) :
    EnvCacheOk (Function.update loc name none) (cacheKeys (updateEnvCacheTable name failedAddr table)) := by
  rcases updateEnvCacheFrom_del (c := nameCrc name) table table (i := 0) rfl
    (fun _ _ hj => absurd hj (by omega)) with ⟨j, x, hfirst, hx, hxc, heq⟩ | ⟨hnone, heq⟩
  · rw [updateEnvCacheTable, heq]
    exact h.set rfl (fun hne => absurd rfl hne) hfirst (.inl ⟨x, hx, hxc⟩)
  · rw [updateEnvCacheTable, heq]
    exact h.forget hnone _

/-! ### Looking up a name -/

theorem strncmpEq_iff {xs ys : List Byte} {n : Nat} (hxs : xs.length = n) (hys : ys.length = n) (hne : ∀ b ∈ ys, b ≠ 0) :
    strncmpEq xs ys n = true ↔ xs = ys := by
  induction n generalizing xs ys with
  | zero => simp_all [strncmpEq]
  | succ n ih =>
    obtain ⟨x, xs, rfl⟩ := List.exists_cons_of_length_eq_add_one hxs
    obtain ⟨y, ys, rfl⟩ := List.exists_cons_of_length_eq_add_one hys
    obtain ⟨hy, hne⟩ := List.forall_mem_cons.mp hne
    have hrest := ih (by simpa using hxs) (by simpa using hys) hne
    rw [strncmpEq, List.cons.injEq]
    by_cases hxy : x = y
    · subst hxy
      rw [if_pos (show (x :: xs).headD 0 = (x :: ys).headD 0 from rfl), if_neg (show (x :: xs).headD 0 ≠ 0 from hy)]
      exact hrest.trans ⟨fun h => ⟨rfl, h⟩, fun h => h.2⟩
    · rw [if_neg (show (x :: xs).headD 0 ≠ (y :: ys).headD 0 from hxy)]
      exact ⟨fun h => (by cases h), fun h => absurd h.1 hxy⟩

/-- The cache answers with the place of the name, or not at all. -/
theorem getEnvFromCacheFrom_spec (flash : Flash) {table : List EnvCacheNode} (h : EnvCacheOk loc (cacheKeys table))
    (hinj : ∀ name', loc name' ≠ none → nameCrc name' = nameCrc name → name' = name)
    (rest : List EnvCacheNode) {i : Nat} (hrest : table.drop i = rest) :
    getEnvFromCacheFrom flash name table rest i = none ∨ ∃ p table', loc name = some p ∧ cacheKeys table' = cacheKeys table ∧
      getEnvFromCacheFrom flash name table rest i = some (p, table') := by
  induction rest generalizing i with
  | nil => exact .inl rfl
  | cons x rest ih =>
    obtain ⟨hx, hrest⟩ := drop_cons hrest
    rw [getEnvFromCacheFrom]
    split
    · rename_i hvalid
      split
      · refine .inr ⟨x.addr, table.set i x.touch, ?_, cacheKeys_set_active hx rfl rfl, rfl⟩
        have hmem : (x.nameCrc, x.addr) ∈ cacheKeys table := List.mem_map.mpr ⟨x, List.mem_of_getElem? hx, rfl⟩
        obtain ⟨name', hloc, hcrc⟩ := h.holds _ hmem hvalid.1
        have : name' = name := hinj name' (by rw [hloc]; exact Option.some_ne_none _) (hcrc.trans hvalid.2)
        exact this ▸ hloc
      · exact ih hrest
    · exact ih hrest

end

end Backwash.EasyFlash
