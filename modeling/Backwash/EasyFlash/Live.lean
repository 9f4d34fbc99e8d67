import Backwash.EasyFlash.Write

/-! What the two sectors hold for a reader: the nodes that are written and not deleted.

Deleting a node takes it from them, adding one puts it behind them. Where every name is
there once, the search for a name finds its node, and the cache of names may hold any
place that is among them. -/
namespace Backwash.EasyFlash
open Storage

variable {S : State} {h full : Bool} {x : SecState} {items done rest : Items} {e p b : Nat} {n : Node} {m : Byte}
  {key : List Byte}

/-! ### Nodes that are there -/

namespace Node

/-- A node that a new one is to replace. -/
def leaving (n : Node) : Node := {n with status := 0x1F}

/-- A node that a new one has replaced. -/
def replaced (n : Node) : Node := {n with status := 0x0F}

/-- A node that was deleted. -/
def gone (n : Node) : Node := {n with status := 0x2F}

@[simp] theorem written_name (n : Node) : n.written.name = n.name := rfl

theorem written_eq (hn : n.status = 0x3F) : n.written = n := by
  cases n
  cases hn
  rfl

theorem mark_leaving (hn : n.status = 0x3F) : n.mark 0xDF = n.leaving := by
  rw [mark, leaving, hn]
  exact congrArg (fun b => (⟨b, n.name, n.value⟩ : Node)) (by decide)

theorem mark_replaced (n : Node) : n.leaving.mark 0xEF = n.replaced :=
  congrArg (fun b => (⟨b, n.name, n.value⟩ : Node)) (by decide : (0x1F &&& 0xEF : Byte) = 0x0F)

theorem mark_gone (hn : n.status = 0x3F) : n.mark 0xEF = n.gone := by
  rw [mark, gone, hn]
  exact congrArg (fun b => (⟨b, n.name, n.value⟩ : Node)) (by decide)

theorem state_of_status {m : Node} {st : EnvStatus} (hm : m.status = b) (hb : EnvStatus.ofIndex (getStatus [b] EnvStatus.num) = st) :
    m.state = st := by
  rw [state, hm, hb]

theorem state_written (hn : n.status = 0x3F) : n.state = .write := state_of_status hn (by decide)

@[simp] theorem state_leaving (n : Node) : n.leaving.state = .preDelete := state_of_status (b := 0x1F) rfl (by decide)

@[simp] theorem state_replaced (n : Node) : n.replaced.state = .deleted := state_of_status (b := 0x0F) rfl (by decide)

@[simp] theorem state_gone (n : Node) : n.gone.state = .deleted := state_of_status (b := 0x2F) rfl (by decide)

end Node

/-- Nothing is going on: a node is there or deleted. -/
def Item.Settled : Item → Prop
  | node n => n.status = 0x3F ∨ n.state = .deleted
  | torn _ _ => False

/-- The node, if it is there. -/
def Item.live (p : Nat) : Item → Option (Nat × Node)
  | node n => if n.state = .write then some (p, n) else none
  | torn _ _ => none

def Items.live (items : Items) : List (Nat × Node) := items.filterMap fun x => x.2.live x.1

@[simp] theorem Items.live_nil : Items.live [] = [] := rfl

@[simp] theorem Items.live_append (xs ys : Items) : Items.live (xs ++ ys) = xs.live ++ ys.live := List.filterMap_append

theorem Items.live_cons (p : Nat) (i : Item) (rest : Items) : Items.live ((p, i) :: rest) = (i.live p).toList ++ rest.live := by
  rw [Items.live, List.filterMap_cons]
  cases i.live p with
  | none => simp only [Option.toList_none, List.nil_append, Items.live]
  | some q => simp only [Option.toList_some, List.singleton_append, Items.live]

theorem Item.live_node (hn : n.state = .write) : (Item.node n).live p = some (p, n) := if_pos hn

theorem Item.dead_node (hn : n.state ≠ .write) : (Item.node n).live p = none := if_neg hn

theorem Items.mem_live {q : Nat × Node} : q ∈ items.live ↔ (q.1, Item.node q.2) ∈ items ∧ q.2.state = .write := by
  rw [Items.live, List.mem_filterMap]
  refine ⟨fun ⟨x, hx, hq⟩ => ?_, fun ⟨hmem, hw⟩ => ⟨_, hmem, if_pos hw⟩⟩
  obtain ⟨p, i⟩ := x
  cases i with
  | torn st len => cases hq
  | node n =>
    simp only [Item.live] at hq
    split at hq
    · cases hq
      exact ⟨hx, ‹_›⟩
    · cases hq

theorem locate_eq_find (key : List Byte) (items : Items) : locate key items = items.live.find? fun q => q.2.name = key := by
  induction items with
  | nil => rfl
  | cons x items ih =>
    obtain ⟨p, i⟩ := x
    rw [Items.live_cons]
    cases i with
    | torn st len => exact ih
    | node n =>
      rw [locate, ih]
      by_cases hw : n.state = .write
      · rw [Item.live_node hw]
        by_cases hk : n.name = key
        · rw [if_pos ⟨hw, hk⟩]
          simp [hk]
        · rw [if_neg fun hc => hk hc.2]
          simp [hk]
      · rw [Item.dead_node hw, if_neg fun hc => hw hc.1]
        rfl

/-- The nodes that are there, sector after sector. -/
def State.live (S : State) : List (Nat × Node) := (S.area false).items.live ++ (S.area true).items.live

theorem locateIn_eq_find (S : State) (key : List Byte) : locateIn S.area key = S.live.find? fun q => q.2.name = key := by
  rw [locateIn, locate_eq_find, locate_eq_find, State.live, List.find?_append]

theorem State.mem_live {q : Nat × Node} : q ∈ S.live ↔ ∃ h, q ∈ (S.area h).items.live := by
  rw [State.live, List.mem_append]
  exact ⟨fun hq => hq.elim (fun hq => ⟨false, hq⟩) fun hq => ⟨true, hq⟩, fun ⟨h, hq⟩ => by cases h <;> simp [hq]⟩

theorem State.live_perm (S : State) (h : Bool) : S.live.Perm ((S.area h).items.live ++ (S.area (!h)).items.live) := by
  cases h
  · exact List.Perm.refl _
  · exact List.perm_append_comm

/-- Every name is there once. -/
def State.Unique (S : State) : Prop := (S.live.map fun q => q.2.name).Nodup

/-- The cache of names knows places of nodes that are there. -/
def State.Placed (S : State) : Prop := ∀ k p, S.loc k = some p → ∃ n, (p, n) ∈ S.live ∧ n.name = k

/-- A node that is there is found by its name. -/
theorem State.Unique.locate (hu : S.Unique) {q : Nat × Node} (hq : q ∈ S.live) : locateIn S.area q.2.name = some q := by
  rw [locateIn_eq_find]
  obtain ⟨q', hfind⟩ : ∃ q', S.live.find? (fun r => r.2.name = q.2.name) = some q' :=
    Option.isSome_iff_exists.mp (List.find?_isSome.mpr ⟨q, hq, by simp⟩)
  have hname : q'.2.name = q.2.name := by simpa using List.find?_some hfind
  rw [hfind, List.inj_on_of_nodup_map hu (List.mem_of_find?_eq_some hfind) hq hname]

theorem State.Unique.fresh (hu : S.Unique) (hp : S.Placed) : S.Fresh := by
  intro k p hk
  obtain ⟨n, hmem, rfl⟩ := hp k p hk
  exact ⟨n, hu.locate hmem⟩

/-- The cache is told of a new place, and all other names stay where they are. -/
theorem State.Placed.update (hp : S.Placed) {S' : State} (hloc : S'.loc = Function.update S.loc n.name (some p))
    (hnew : (p, n) ∈ S'.live) (hold : ∀ q ∈ S.live, q.2.name ≠ n.name → q ∈ S'.live) : S'.Placed := by
  intro k p' hk
  rw [hloc] at hk
  by_cases hkn : k = n.name
  · subst hkn
    rw [Function.update_self] at hk
    cases hk
    exact ⟨n, hnew, rfl⟩
  · rw [Function.update_of_ne hkn] at hk
    obtain ⟨n', hmem, rfl⟩ := hp k p' hk
    exact ⟨n', hold _ hmem hkn, rfl⟩

/-! ### Changes -/

/-- The items before one end before it. -/
theorem Chain.before {f : Flash} {limit a z : Nat} {i : Item} (hc : Chain f limit e a z (done ++ (p, i) :: rest)) :
    z ≤ p ∧ ∀ x ∈ done, x.1 + x.2.len ≤ p := by
  induction done generalizing a z with
  | nil =>
    cases hc with
    | cons _ hz _ _ _ _ => exact ⟨hz, nofun⟩
  | cons x done ih =>
    cases hc with
    | cons _ hz _ _ _ hrest =>
      obtain ⟨hend, hbefore⟩ := ih hrest
      exact ⟨by omega, List.forall_mem_cons.mpr ⟨hend, hbefore⟩⟩

theorem Walk.before {f : Flash} {i : Item} (hw : Walk f b e (done ++ (p, i) :: rest)) : ∀ x ∈ done, x.1 + x.2.len ≤ p := by
  cases done with
  | nil => exact nofun
  | cons x done =>
    obtain ⟨hend, hbefore⟩ := hw.2.2.before
    exact List.forall_mem_cons.mpr ⟨hend, hbefore⟩

/-- No two items begin at one place. -/
theorem Walk.apart {f : Flash} {i : Item} (hw : Walk f b e (done ++ (p, i) :: rest)) :
    (∀ x ∈ done, x.1 ≠ p) ∧ ∀ x ∈ rest, x.1 ≠ p := by
  obtain ⟨hi, hrest⟩ := hw.split
  have hge := i.len_ge hi
  refine ⟨fun x hx => ?_, fun x hx => ?_⟩
  · have hlen := x.2.len_ge (hw.mem x (List.mem_append_left _ hx)).2.2
    have := hw.before x hx
    omega
  · have := (hrest.mem x hx).1
    omega

/-- A mark changes one item. -/
theorem Items.mark_split {i : Item} (hapart : (∀ x ∈ done, x.1 ≠ p) ∧ ∀ x ∈ rest, x.1 ≠ p) (m : Byte) :
    Items.mark (done ++ (p, i) :: rest) p m = done ++ (p, i.mark m) :: rest := by
  rw [Items.mark_append, Items.mark_eq_self hapart.1, Items.mark, List.map_cons, if_pos rfl]
  exact congrArg (fun l => done ++ (p, i.mark m) :: l) (Items.mark_eq_self hapart.2)

theorem live_put (S : State) (hx : x.items.live = (S.area h).items.live) : (S.put h x).live = S.live := by
  cases h <;> simp only [State.live, State.put_area, State.put_area_of_ne _ (by decide : false ≠ true),
    State.put_area_of_ne _ (by decide : true ≠ false), hx]

theorem live_replace (hn : n.state ≠ .write) {n' : Node} (hn' : n'.state ≠ .write) :
    Items.live (done ++ (p, Item.node n') :: rest) = Items.live (done ++ (p, Item.node n) :: rest) := by
  rw [Items.live_append, Items.live_append, Items.live_cons, Items.live_cons, Item.dead_node hn, Item.dead_node hn']

/-- A node that is there no longer. -/
theorem live_marked (S : State) {dt : DirtyStatus} (ha : S.area h = .used full dt (done ++ (p, Item.node n) :: rest) e) (hn : n.state = .write) {n' : Node}
    (hn' : n'.state ≠ .write) (dt' : DirtyStatus) :
    S.live.Perm ((p, n) :: (S.put h (.used full dt' (done ++ (p, Item.node n') :: rest) e)).live) := by
  have hold : (S.area h).items.live = done.live ++ (p, n) :: rest.live := by
    rw [ha, SecState.items, Items.live_append, Items.live_cons, Item.live_node hn]
    rfl
  have hnew : (SecState.used full dt' (done ++ (p, Item.node n') :: rest) e).items.live = done.live ++ rest.live := by
    rw [SecState.items, Items.live_append, Items.live_cons, Item.dead_node hn']
    rfl
  refine (S.live_perm h).trans ?_
  have hput := State.live_perm (S.put h (.used full dt' (done ++ (p, Item.node n') :: rest) e)) h
  rw [State.put_area, State.put_area_not, hnew] at hput
  rw [hold]
  refine List.Perm.trans ?_ (hput.cons (p, n)).symm
  rw [← List.cons_append]
  exact List.perm_middle.append_right _

namespace SecState

@[simp] theorem add_items (b : Nat) (full : Bool) (n : Node) (x : SecState) :
    (x.add b full n).items = x.items ++ [(x.next b, .node n)] := by
  cases x <;> rfl

@[simp] theorem add_next (b : Nat) (full : Bool) (n : Node) (x : SecState) : (x.add b full n).next b = x.next b + n.size := by
  cases x <;> rfl

@[simp] theorem add_dirty (b : Nat) (full : Bool) (n : Node) (x : SecState) : (x.add b full n).dirty = x.dirty := by
  cases x <;> rfl

theorem add_status (b : Nat) (full : Bool) (n : Node) (x : SecState) :
    (x.add b full n).status = if full then .full else .inUse := by
  cases x <;> rfl

theorem Tight.add {b : Nat} {x : SecState} (hx : x.Tight b) (full : Bool) (n : Node) : (x.add b full n).Tight b := by
  unfold Tight at hx ⊢
  rw [add_items, add_next, span_append, span_cons, span_nil]
  show b + 16 + (span x.items + (n.size + 0)) = x.next b + n.size
  omega

end SecState

/-- A node that is there now. -/
theorem live_added (S : State) (h full : Bool) (n : Node) :
    (S.added h full n).live.Perm (((S.area h).next (base h), n.written) :: S.live) := by
  have hput := State.live_perm (S.added h full n) h
  rw [S.added_area, S.added_area_not, SecState.add_items, Items.live_append, Items.live_cons,
    Item.live_node (n.written.state_written rfl)] at hput
  refine hput.trans (List.Perm.trans ?_ ((S.live_perm h).symm.cons _))
  rw [← List.cons_append]
  exact (List.perm_append_singleton _ _).append_right _

end Backwash.EasyFlash
