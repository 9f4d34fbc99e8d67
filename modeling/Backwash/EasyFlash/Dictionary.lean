import Backwash.EasyFlash.Boot
import Backwash.Storage.Machine
import Mathlib.Algebra.Order.BigOperators.Group.List
import Mathlib.Algebra.Order.Group.Nat
import Mathlib.Data.List.AList

/-! EasyFlash is a dictionary.

What the library is for: a value for each name, that stays over a reset. The chip and the caches
follow the dictionary call by call, so they follow it over any sequence of calls, however often
the sectors are collected and the device is reset on the way. -/
namespace Backwash.EasyFlash
open Storage

variable {S : State} {s : Store} {f : Flash} {h : Bool} {n : Node} {key value : List Byte} {K : Set (List Byte)}
  {defaults : List (List Byte × List Byte)}

/-! ### The dictionary -/

/-- A value for each of finitely many names. -/
abbrev Dict := AList fun _ : List Byte => List Byte

namespace Dict

/-- What a value takes on the chip. -/
def entrySize (x : Sigma fun _ : List Byte => List Byte) : Nat := envHdrDataSize + x.1.length + x.2.length

/-- What all the values take. -/
def size (d : Dict) : Nat := (d.entries.map entrySize).sum

/-- What there is to read of a value, none being read as an empty one. -/
def read (d : Dict) (key : List Byte) (bufLen : Nat) : List Byte := ((d.lookup key).getD []).take bufLen

/-- With names from a list and short values there is a bound on what they take. -/
theorem size_le {d : Dict} {L : List (List Byte)} {m : Nat} (hkeys : ∀ k ∈ d, k ∈ L) (hshort : ∀ x ∈ d.entries, x.2.length ≤ m) :
    d.size ≤ (L.map fun k => envHdrDataSize + k.length + m).sum := by
  obtain ⟨l, hperm, hsub⟩ : d.keys.Subperm L := List.subperm_of_subset d.keys_nodup fun k hk => hkeys k (AList.mem_keys.mpr hk)
  calc d.size ≤ (d.entries.map fun x => envHdrDataSize + x.1.length + m).sum :=
        List.sum_le_sum fun x hx => Nat.add_le_add_left (hshort x hx) _
    _ = (d.keys.map fun k => envHdrDataSize + k.length + m).sum := by
        rw [AList.keys, List.keys, List.map_map]
        rfl
    _ = (l.map fun k => envHdrDataSize + k.length + m).sum := (hperm.map _).symm.sum_nat
    _ ≤ (L.map fun k => envHdrDataSize + k.length + m).sum := (hsub.map _).sum_le_sum fun _ _ => Nat.zero_le _

end Dict

/-- What `ef_get_env` makes of it. -/
def Dict.string (d : Dict) (key : List Byte) : Option (List Byte) :=
  let value := d.read key efStrEnvValueMaxSize
  if 0 < value.length ∧ efIsStr value then some value else none

inductive Call
  | setBlob (key : List Byte) (value : Option (List Byte))
  | del (key : List Byte)
  | getBlob (key : List Byte) (bufLen : Nat)
  | get (key : List Byte)
  | restart

inductive Answer
  | code (result : EfErrCode)
  | blob (value : List Byte)
  | string (value : Option (List Byte))
  deriving DecidableEq

namespace Dict

/-- Whether a name was there. -/
def removal (d : Dict) (key : List Byte) : EfErrCode := if key ∈ d then .noErr else .envNameErr

def next (d : Dict) : Call → Dict
  | .setBlob key (some value) => d.insert key value
  | .setBlob key none => d.erase key
  | .del key => d.erase key
  | _ => d

def answer (d : Dict) : Call → Answer
  | .setBlob _ (some _) => .code .noErr
  | .setBlob key none => .code (d.removal key)
  | .del key => .code (d.removal key)
  | .getBlob key bufLen => .blob (d.read key bufLen)
  | .get key => .string (d.string key)
  | .restart => .code .noErr

/-- The names are the ones in use, and a new value fits beside all the others and the one it is to replace. -/
def admits (K : Set (List Byte)) (d : Dict) : Call → Prop
  | .setBlob key (some value) => key ∈ K ∧ d.size + (envHdrDataSize + key.length + value.length) ≤ 3928
  | .setBlob key none => key ∈ K
  | .del key => key ∈ K
  | .getBlob key _ => key ∈ K
  | .get key => key ∈ K
  | .restart => True

/-- What EasyFlash is for. -/
def machine (K : Set (List Byte)) : Machine Dict Call Answer := ⟨admits K, answer, next⟩

end Dict

/-- What EasyFlash does; a restart forgets everything but the chip. -/
def call (defaults : List (List Byte × List Byte)) : Call → Code Answer
  | .setBlob key value => .code <$> efSetEnvBlob key value
  | .del key => .code <$> efDelEnv key
  | .getBlob key bufLen => .blob <$> efGetEnvBlob key bufLen
  | .get key => .string <$> efGetEnv key
  | .restart => do
    modify fun s => Store.reset s.flash
    .code <$> efEnvInit defaults

/-! ### Nodes and entries -/

def Node.entry (n : Node) : Sigma fun _ : List Byte => List Byte := ⟨n.name, n.value⟩

/-- The nodes are the entries. -/
def State.Has (S : State) (d : Dict) : Prop := (S.nodes.map Node.entry).Perm d.entries

/-- The chip and the variables stand for the dictionary. -/
def Stores (K : Set (List Byte)) (d : Dict) (s : Store) : Prop :=
  ∃ S h, Rep S s ∧ Ready S h ∧ S.initOk = true ∧ S.inRecoveryCheck = false ∧ S.Named K ∧ S.Has d

variable {d : Dict}

theorem State.Has.size (hd : S.Has d) : cost S.live = d.size := by
  have hsum := (hd.map Dict.entrySize).sum_nat
  rw [List.map_map] at hsum
  rw [cost_nodes]
  exact hsum

theorem State.named_iff : S.Named K ↔ ∀ n ∈ S.nodes, n.name ∈ K := by
  rw [State.Named, State.nodes, List.forall_mem_map]

theorem State.Has.lookup (hd : S.Has d) (hn : n ∈ S.nodes) : d.lookup n.name = some n.value :=
  AList.mem_lookup_iff.mpr (hd.mem_iff.mp (List.mem_map_of_mem hn))

theorem State.Has.notMem (hd : S.Has d) (hnot : ∀ m ∈ S.nodes, m.name ≠ key) : key ∉ d := by
  intro hmem
  obtain ⟨x, hx, rfl⟩ := List.mem_map.mp (AList.mem_keys.mp hmem)
  obtain ⟨m, hm, rfl⟩ := List.mem_map.mp (hd.mem_iff.mpr hx)
  exact hnot m hm rfl

/-- Without the node of a name the entries are those without the name. -/
theorem State.Has.erase {others : List Node} (hd : S.Has d) (hn : S.nodes.Perm (n :: others)) :
    (others.map Node.entry).Perm (d.erase n.name).entries := by
  have hperm := ((hn.map Node.entry).symm.trans hd).symm.kerase (a := n.name) d.nodupKeys
  rw [List.map_cons, List.kerase_cons_eq (show n.name = n.entry.1 from rfl)] at hperm
  exact hperm.symm

theorem Replaced.has {S' : State} (hr : Replaced S S' key value) (hd : S.Has d) : S'.Has (d.insert key value) := by
  obtain ⟨others, hne, hnew, hold⟩ := hr.nodes
  have hothers : (others.map Node.entry).Perm (d.entries.kerase key) := by
    rcases hold with hold | ⟨n, rfl, hold⟩
    · have hnot : key ∉ d := hd.notMem fun m hm => hne m (hold.mem_iff.mp hm)
      rw [List.kerase_of_notMem_keys hnot]
      exact (hold.symm.map Node.entry).trans hd
    · exact hd.erase hold
  exact (hnew.map Node.entry).trans (hothers.cons _)

theorem Replaced.named {S' : State} (hr : Replaced S S' key value) (hn : S.Named K) (hkey : key ∈ K) : S'.Named K := by
  obtain ⟨others, -, hnew, hold⟩ := hr.nodes
  rw [State.named_iff] at hn ⊢
  have hothers : ∀ m ∈ others, m.name ∈ K := by
    rcases hold with hold | ⟨n, -, hold⟩
    · exact fun m hm => hn m (hold.mem_iff.mpr hm)
    · exact fun m hm => hn m (hold.mem_iff.mpr (List.mem_cons_of_mem n hm))
  intro m hm
  rcases List.mem_cons.mp (hnew.mem_iff.mp hm) with rfl | hm
  · exact hkey
  · exact hothers m hm

theorem Removed.has {S' : State} {r : EfErrCode} (hr : Removed S S' key r) (hd : S.Has d) :
    S'.Has (d.erase key) ∧ r = d.removal key := by
  rcases hr with ⟨rfl, hnot, hsame⟩ | ⟨rfl, n, others, rfl, hold, hnew⟩
  · have hnotMem := hd.notMem hnot
    refine ⟨?_, (if_neg hnotMem).symm⟩
    show (S'.nodes.map Node.entry).Perm (d.entries.kerase key)
    rw [List.kerase_of_notMem_keys hnotMem]
    exact (hsame.map Node.entry).trans hd
  · have hmem : n.name ∈ d := AList.lookup_isSome.mp (Option.isSome_of_eq_some (hd.lookup (hold.mem_iff.mpr (List.mem_cons_self ..))))
    exact ⟨(hnew.map Node.entry).trans (hd.erase hold), (if_pos hmem).symm⟩

theorem Removed.named {S' : State} {r : EfErrCode} (hr : Removed S S' key r) (hn : S.Named K) : S'.Named K := by
  rw [State.named_iff] at hn ⊢
  rcases hr with ⟨-, -, hsame⟩ | ⟨-, n, others, -, hold, hnew⟩
  · exact fun m hm => hn m (hsame.mem_iff.mp hm)
  · exact fun m hm => hn m (hold.mem_iff.mpr (List.mem_cons_of_mem n (hnew.mem_iff.mp hm)))

theorem Moved.has {S' : State} (hm : Moved S S') (hd : S.Has d) : S'.Has d := (hm.live.map Node.entry).trans hd

/-! ### The calls -/

/-- The functions that ask whether the library is initialised go on. -/
theorem Stores.whenInit {α : Type} {p q : Code α} {Q : α → Store → Prop} (hs : Stores K d s) (h : Ends p s Q) :
    Ends (do if ¬ (← get).initOk then q else p) s Q := by
  obtain ⟨S, -, hr, -, hinit, -⟩ := hs
  refine Runs.bind (Runs.get ?_)
  rw [hr.initOk, hinit, if_neg (not_not_intro rfl)]
  exact h

theorem Stores.set (hK : Names K) (hs : Stores K d s) (hkey : key ∈ K)
    (hcap : d.size + (envHdrDataSize + key.length + value.length) ≤ 3928) :
    Ends (setEnv key (some value)) s fun r s' => r = .noErr ∧ Stores K (d.insert key value) s' := by
  obtain ⟨S, h, hr, hready, hinit, hrec, hn, hd⟩ := hs
  rw [← hd.size] at hcap
  refine (hr.setEnv hready hrec hK hn hkey hcap).mono ?_
  rintro r s' ⟨rfl, S', t, hr', hready', hrep⟩
  exact ⟨rfl, S', t, hr', hready', hrep.like.initOk.trans hinit, hrep.like.inRecoveryCheck.trans hrec, hrep.named hn hkey, hrep.has hd⟩

theorem Stores.del (hK : Names K) (hs : Stores K d s) (hkey : key ∈ K) :
    Ends (delEnv key true) s fun r s' => r = d.removal key ∧ Stores K (d.erase key) s' := by
  obtain ⟨S, h, hr, hready, hinit, hrec, hn, hd⟩ := hs
  refine (hr.delEnv hready hK hn hkey).mono ?_
  rintro r s' ⟨S', hr', hready', hlike, hrem⟩
  obtain ⟨hd', hres⟩ := hrem.has hd
  exact ⟨hres, S', h, hr', hready', hlike.initOk.trans hinit, hlike.inRecoveryCheck.trans hrec, hrem.named hn, hd'⟩

theorem Stores.getBlob (hK : Names K) (hs : Stores K d s) (hkey : key ∈ K) (bufLen : Nat) :
    Ends (efGetEnvBlob key bufLen) s fun r s' => r = d.read key bufLen ∧ Stores K d s' := by
  refine hs.whenInit ?_
  obtain ⟨S, h, hr, hready, hinit, hrec, hn, hd⟩ := hs
  refine (hr.getEnv hready hK hn hkey bufLen).mono ?_
  rintro r s' ⟨S', hr', hready', hm, hres⟩
  refine ⟨?_, S', h, hr', hready', hm.initOk.trans hinit, hm.inRecoveryCheck.trans hrec, hm.named hn, hm.has hd⟩
  rcases hres with ⟨rfl, hnot⟩ | ⟨m, hmem, rfl, rfl⟩
  · rw [Dict.read, AList.lookup_eq_none.mpr (hd.notMem hnot)]
    exact List.take_nil.symm
  · rw [Dict.read, hd.lookup hmem]
    rfl

theorem Stores.get (hK : Names K) (hs : Stores K d s) (hkey : key ∈ K) :
    Ends (efGetEnv key) s fun r s' => r = d.string key ∧ Stores K d s' := by
  refine Runs.andThen (hs.getBlob hK hkey efStrEnvValueMaxSize) ?_
  rintro value s' ⟨rfl, hs'⟩
  exact Runs.pure ⟨rfl, hs'⟩

theorem Does.reset {α : Type} {p : Code α} {Q : α → Store → Prop} (h : Ends p (Store.reset s.flash) Q) :
    Ends (do
      modify fun s => Store.reset s.flash
      p) s Q := by
  obtain ⟨a, s', hrun, hq, -⟩ := h
  exact ⟨a, s', hrun, hq, fun _ _ => .inr trivial⟩

/-- After a reset the chip is all that is left, and it is enough. -/
theorem Stores.restart (hs : Stores K d s) (defaults : List (List Byte × List Byte)) :
    Ends (efEnvInit defaults) (Store.reset s.flash) fun r s' => r = .noErr ∧ Stores K d s' := by
  obtain ⟨S, h, hr, hready, -, -, hn, hd⟩ := hs
  have hbooting : Ready S.booting h := ⟨⟨hready.other, hready.dirty, hready.tight, hready.settled, hready.clean, hready.unique,
    nofun, rfl⟩, hready.status, rfl⟩
  refine (Does.restart hr.area hbooting defaults).mono ?_
  rintro r s' ⟨hres, hr'⟩
  refine ⟨hres, _, h, hr', ?_, rfl, rfl, hn, hd⟩
  exact ⟨⟨hready.other, hready.dirty, hready.tight, hready.settled, hready.clean, hready.unique, nofun, rfl⟩, hready.status, rfl⟩

/-- Call by call EasyFlash follows the dictionary. -/
theorem follows_dict (hK : Names K) (defaults : List (List Byte × List Byte)) :
    (Dict.machine K).Follows Store.past (fun _ => True) (call defaults) (Stores K) := by
  intro d s c hs hadmits
  cases c with
  | setBlob key value =>
    refine Runs.map (hs.whenInit ?_)
    cases value with
    | none =>
      refine (hs.del hK hadmits).mono ?_
      rintro r s' ⟨rfl, hs'⟩
      exact ⟨rfl, hs'⟩
    | some value =>
      refine (hs.set hK hadmits.1 hadmits.2).mono ?_
      rintro r s' ⟨rfl, hs'⟩
      exact ⟨rfl, hs'⟩
  | del key =>
    refine Runs.map (hs.whenInit ((hs.del hK hadmits).mono ?_))
    rintro r s' ⟨rfl, hs'⟩
    exact ⟨rfl, hs'⟩
  | getBlob key bufLen =>
    refine Runs.map ((hs.getBlob hK hadmits bufLen).mono ?_)
    rintro r s' ⟨rfl, hs'⟩
    exact ⟨rfl, hs'⟩
  | get key =>
    refine Runs.map ((hs.get hK hadmits).mono ?_)
    rintro r s' ⟨rfl, hs'⟩
    exact ⟨rfl, hs'⟩
  | restart =>
    refine Does.reset (Runs.map ((hs.restart defaults).mono ?_))
    rintro r s' ⟨rfl, hs'⟩
    exact ⟨rfl, hs'⟩

/-! ### From the first start on -/

/-- A dictionary as `default_env_set` lists it. -/
def Dict.pairs (d : Dict) : List (List Byte × List Byte) := d.entries.map fun x => (x.1, x.2)

theorem Dict.nodes_pairs (d : Dict) : (defaultNodes d.pairs).map Node.entry = d.entries := by
  rw [defaultNodes, Dict.pairs, List.map_map, List.map_map]
  exact List.map_id _

/-- On a chip without a header the defaults are what is stored. -/
theorem Stores.firstBoot (hno : ∀ h, NoHeader f (base h)) (hne : d.entries ≠ []) (hK : Names K) (hkeys : ∀ k ∈ d, k ∈ K)
    (hcap : d.size ≤ 3928) : Ends (efEnvInit d.pairs) (Store.reset f) fun r s' => r = .noErr ∧ Stores K d s' := by
  have hsize : (defaultNodes d.pairs).map Node.size = d.entries.map Dict.entrySize := by
    rw [← d.nodes_pairs, List.map_map]
    rfl
  have hnames : (defaultNodes d.pairs).map Node.name = d.keys := by
    rw [AList.keys, List.keys, ← d.nodes_pairs, List.map_map]
    rfl
  have hmem : ∀ x ∈ d.pairs, x.1 ∈ K := by
    rintro x hx
    obtain ⟨y, hy, rfl⟩ := List.mem_map.mp hx
    exact hkeys _ (AList.mem_keys.mpr (List.mem_map_of_mem hy))
  have hpairs : d.pairs ≠ [] := fun hnil => hne (List.map_eq_nil_iff.mp hnil)
  refine (Does.firstBoot hno hpairs hK hmem (by rwa [hsize]) (by rw [hnames]; exact d.keys_nodup)).mono ?_
  rintro r s' ⟨hres, S, h, hr, hready, hinit, hrec, hnodes⟩
  refine ⟨hres, S, h, hr, hready, hinit, hrec, State.named_iff.mpr fun n hn => hkeys _ ?_, ?_⟩
  · rw [AList.mem_keys, ← hnames]
    exact List.mem_map_of_mem (hnodes.mem_iff.mp hn)
  · exact (hnodes.map Node.entry).trans (List.Perm.of_eq d.nodes_pairs)

/-- The device from its first start on. -/
def session (d : Dict) (calls : List Call) : Code (EfErrCode × List Answer) := do
  let result ← efEnvInit d.pairs
  let answers ← calls.mapM (call d.pairs)
  return (result, answers)

theorem session_stores (hno : ∀ h, NoHeader f (base h)) (hne : d.entries ≠ []) (hK : Names K) (hkeys : ∀ k ∈ d, k ∈ K)
    (hcap : d.size ≤ 3928) {calls : List Call} (hadmits : (Dict.machine K).Admits d calls) :
    ∃ s', (session d calls).run (Store.reset f) = some ((.noErr, (Dict.machine K).answers d calls), s') ∧
      Stores K ((Dict.machine K).after d calls) s' := by
  have hruns : Ends (session d calls) (Store.reset f) fun r s' =>
      r = (.noErr, (Dict.machine K).answers d calls) ∧ Stores K ((Dict.machine K).after d calls) s' := by
    refine Runs.andThen (Stores.firstBoot hno hne hK hkeys hcap) ?_
    rintro r s₁ ⟨rfl, hs₁⟩
    refine Runs.andThen ((follows_dict hK d.pairs).run hs₁ hadmits) ?_
    rintro answers s₂ ⟨rfl, hs₂⟩
    exact Runs.pure ⟨rfl, hs₂⟩
  obtain ⟨_, s', hrun, ⟨rfl, hs'⟩, -⟩ := hruns
  exact ⟨s', hrun, hs'⟩

/-- On a chip without a header EasyFlash starts as the dictionary of the defaults, and any
sequence of calls, restarts among them, is answered as that dictionary answers it. -/
theorem env_answers_as_dict (hno : ∀ h, NoHeader f (base h)) (hne : d.entries ≠ []) (hK : Names K) (hkeys : ∀ k ∈ d, k ∈ K)
    (hcap : d.size ≤ 3928) (calls : List Call) (hadmits : (Dict.machine K).Admits d calls) :
    ∃ s', (session d calls).run (Store.reset f) = some ((.noErr, (Dict.machine K).answers d calls), s') ∧
      Stores K ((Dict.machine K).after d calls) s' := session_stores hno hne hK hkeys hcap hadmits

/-! ### Between two calls -/

/-- A sector with a header and nothing behind it. -/
def Formatted (f : Flash) (b : Nat) : Prop :=
  f.Holds b (sectorHdr sectorNotCombined) ∧ f.Blank (b + sectorHdrDataSize) (b + sectorSize)

theorem Stores.spare (hs : Stores K d s) : ∃ h, Formatted s.flash (base h) := by
  obtain ⟨S, h, hr, hready, -⟩ := hs
  have harea := hr.area (!h)
  rw [hready.other] at harea
  exact ⟨!h, harea⟩

/-- However many values are set, replaced and deleted, as long as each fits beside what is stored
(`Admits`) and the names are told apart (`Names`), one of the two sectors is empty between two
calls, so that the next collection has where to go. A value that does not fit can end this: the
room that its refusal leaves to be collected is then taken from the spare sector. -/
theorem one_sector_spare (hno : ∀ h, NoHeader f (base h)) (hne : d.entries ≠ []) (hK : Names K) (hkeys : ∀ k ∈ d, k ∈ K)
    (hcap : d.size ≤ 3928) (calls : List Call) (hadmits : (Dict.machine K).Admits d calls) :
    ∃ r s', (session d calls).run (Store.reset f) = some (r, s') ∧ ∃ h, Formatted s'.flash (base h) := by
  obtain ⟨s', hrun, hs'⟩ := session_stores hno hne hK hkeys hcap hadmits
  exact ⟨_, s', hrun, hs'.spare⟩

/-- The search through the cache against the search through the area. -/
theorem Stores.search (hK : Names K) (hs : Stores K d s) (hkey : key ∈ K) (env : EnvNode) :
    ∃ found e₁ e₂ s', (findEnv key env).run s = some ((found, e₁), s') ∧
      (findEnvNoCache key env).run s = some ((found, e₂), s) ∧ (found = true → e₁ = e₂) := by
  obtain ⟨S, h, hr, hready, -, -, hn, -⟩ := hs
  obtain ⟨⟨found, e₁⟩, s', hrun, ⟨-, hfound, henv⟩, -⟩ :=
    hr.find (C := fun _ => True) (hK.str key hkey) (hready.placed.told hn hK hkey) (hready.unique.fresh hready.placed) env
  obtain ⟨e₂, hrun₂, henv₂⟩ := hr.findNoCache (hK.str key hkey) env
  obtain rfl : found = (locateIn S.area key).isSome := hfound
  refine ⟨_, e₁, e₂, s', hrun, hrun₂, fun hsome => ?_⟩
  obtain ⟨q, hq⟩ := Option.isSome_iff_exists.mp hsome
  exact (henv q hq).trans (henv₂ q hq).symm

/-- Between two such calls the search by way of the cache of names finds what the search through
the whole area finds. The cache knows a name by 16 bits of its checksum, so this needs names that
differ there. -/
theorem cached_search_agrees (hno : ∀ h, NoHeader f (base h)) (hne : d.entries ≠ []) (hK : Names K) (hkeys : ∀ k ∈ d, k ∈ K)
    (hcap : d.size ≤ 3928) (calls : List Call) (hadmits : (Dict.machine K).Admits d calls) :
    ∃ r s, (session d calls).run (Store.reset f) = some (r, s) ∧ ∀ key ∈ K, ∀ env, ∃ found e₁ e₂ s',
      (findEnv key env).run s = some ((found, e₁), s') ∧ (findEnvNoCache key env).run s = some ((found, e₂), s) ∧
        (found = true → e₁ = e₂) := by
  obtain ⟨s, hrun, hs⟩ := session_stores hno hne hK hkeys hcap hadmits
  exact ⟨_, s, hrun, fun key hkey env => hs.search hK hkey env⟩

end Backwash.EasyFlash
