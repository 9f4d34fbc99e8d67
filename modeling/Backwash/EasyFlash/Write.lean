import Backwash.EasyFlash.Change

/-! How a node is added to a sector.

Its header, its name and its value are written one behind the other, and only then its status
says that it is there. Until then the chip has the first bytes of a node that is pending. -/
namespace Backwash.EasyFlash
open Storage

variable {S : State} {s : Store} {C : Flash → Prop} {f g : Flash} {h full : Bool} {x : SecState} {dt : DirtyStatus}
  {items : Items} {e p b size : Nat} {n : Node}

/-! ### The bytes of a node -/

/-- A node that is being written. -/
def Node.pending (n : Node) : Node := {n with status := 0x7F}

/-- A node that is written. -/
def Node.written (n : Node) : Node := {n with status := 0x3F}

@[simp] theorem Node.pending_size (n : Node) : n.pending.size = n.size := rfl

@[simp] theorem Node.written_size (n : Node) : n.written.size = n.size := rfl

@[simp] theorem Node.pending_body (n : Node) : n.pending.body = n.body := rfl

/-- The last byte of a node is no erased byte. -/
def Node.Ends (n : Node) : Prop := n.body.getLast? ≠ some 0xFF

theorem Node.Ok.written (hn : n.Ok) : n.written.Ok :=
  ⟨(by decide : Plain 0x3F), hn.name_le, hn.name_ne, hn.size_le⟩

/-- The three bytes behind a status are left out. -/
theorem program_body (f : Flash) (p : Nat) (cs : List Byte) :
    (f.clear p 0x7F).program (p + 4) cs = f.program p ([0x7F, 0xFF, 0xFF, 0xFF] ++ cs) := by
  have hones := (f.clear p 0x7F).program_ones (p + 1) 3
  rw [Flash.program_append]
  exact congrArg (fun g => Flash.program g (p + 4) cs) hones.symm

theorem clear_pending (f : Flash) (p : Nat) : f.clear p 0x7F = f.program p [0x7F, 0xFF, 0xFF, 0xFF] := by
  rw [← List.append_nil [0x7F, 0xFF, 0xFF, 0xFF], ← program_body]
  rfl

theorem Node.pending_bytes (n : Node) : n.pending.bytes = [0x7F, 0xFF, 0xFF, 0xFF] ++ (n.hdr ++ (n.name ++ n.value)) := rfl

theorem same_pending (f : Flash) (p : Nat) (n : Node) {a' b' : Nat} (hp : b' ≤ p ∨ p + n.size ≤ a') :
    f.Same (f.program p n.pending.bytes) a' b' := by
  refine Flash.same_program ?_
  rw [Node.length_bytes]
  exact hp

/-- A write that goes on where the last one ended. -/
theorem Does.write (f : Flash) (p : Nat) (pre : List Byte) {bs post whole : List Byte} {addr : Nat} {Q : EfErrCode → Store → Prop} (hs : s.flash = f.program p pre)
    (haddr : addr = p + pre.length) (hpost : pre ++ bs = post) (hwhole : post <+: whole)
    (hC : ∀ cs, cs <+: whole → C (f.program p cs)) (hq : ∀ past, Q .noErr {s with flash := f.program p post, past := past}) :
    Does C (efPortWrite addr bs) s Q := by
  subst haddr hpost
  have hprog : ∀ cs, s.flash.program (p + pre.length) cs = f.program p (pre ++ cs) := fun cs => by
    rw [hs, Flash.program_append]
  refine ⟨.noErr, s.program (p + pre.length) bs, rfl, ?_, fun y hy => ?_⟩
  · rw [Store.program, hprog]
    exact hq _
  · rcases List.mem_append.mp hy with hy | hy
    · exact .inl hy
    · obtain ⟨cs, hcs, -, rfl⟩ := Flash.mem_passed hy
      rw [hprog]
      exact .inr (hC _ (((List.prefix_append_right_inj pre).mpr hcs).trans hwhole))

/-! ### The sector of a new node -/

namespace SecState

/-- A node of this size leaves too little space behind it. -/
def fills (b size : Nat) : SecState → Bool
  | empty => false
  | used _ _ _ e => decide (4096 - (e - b) < efSecRemainThreshold ∨ 4096 - (e - b) - size < efSecRemainThreshold)

/-- The chip once the sector takes the node. -/
def opened (f : Flash) (b : Nat) (full : Bool) : SecState → Flash
  | empty => f.clear b 0xBF
  | used _ _ _ _ => if full then f.clear b 0xDF else f

def add (b : Nat) (full : Bool) (n : Node) : SecState → SecState
  | empty => used full .false [(b + 16, .node n)] (b + 16 + n.size)
  | used _ dt items e => used full dt (items ++ [(e, .node n)]) (e + n.size)

/-- The erased bytes begin where the last item ends. -/
def Tight (b : Nat) (x : SecState) : Prop := b + 16 + span x.items = x.next b

/-- The chip with a node behind the items. -/
def written (f : Flash) (b : Nat) (full : Bool) (n : Node) (x : SecState) : Flash :=
  ((x.opened f b full).program (x.next b) n.pending.bytes).clear (x.next b) 0xBF

/-- What the chip passes through while a node is added. -/
def Passes (f : Flash) (b : Nat) (full : Bool) (n : Node) (x : SecState) (g : Flash) : Prop :=
  (∃ cs, cs <+: n.pending.bytes ∧ g = (x.opened f b full).program (x.next b) cs) ∨ g = x.written f b full n

theorem same_opened (f : Flash) (full : Bool) (x : SecState) {a' b' : Nat} (hb : b < a' ∨ b' ≤ b) :
    f.Same (x.opened f b full) a' b' := by
  cases x with
  | empty => exact same_clear f b 0xBF hb
  | used _ _ _ _ =>
    cases full
    · exact Flash.Same.refl f a' b'
    · exact same_clear f b 0xDF hb

/-- Only the status of the sector and the bytes of the node are touched. -/
theorem same_written (f : Flash) (full : Bool) (n : Node) (x : SecState) {a' b' : Nat} (hb : b < a' ∨ b' ≤ b)
    (hp : b' ≤ x.next b ∨ x.next b + n.size ≤ a') : f.Same (x.written f b full n) a' b' := by
  have hsize := n.size_ge
  exact (x.same_opened f full hb).trans ((same_pending _ _ n hp).trans (same_clear _ _ _ (by omega)))

end SecState

theorem SecState.Of.blank (hx : x.Of f b) : f.Blank (x.next b) (b + 4096) := by
  cases x with
  | empty => exact hx.2
  | used full dt items e => exact hx.blank

theorem SecState.Of.next_gt (hx : x.Of f b) : b + 16 ≤ x.next b := by
  cases x with
  | empty => exact Nat.le_refl _
  | used full dt items e =>
    have := Used.start_le hx
    show b + 16 ≤ e
    omega

/-- The bytes of the node are where they were written. -/
theorem SecState.Of.holds (hx : x.Of f b) (full : Bool) (hfit : x.next b + n.size ≤ b + 4096) :
    (x.written f b full n).Holds (x.next b) n.written.bytes := by
  have hgt := hx.next_gt
  have hsize := n.size_ge
  have hblank : (x.opened f b full).Blank (x.next b) (x.next b + n.pending.bytes.length) := by
    rw [Node.length_bytes]
    exact (hx.blank.mono (Nat.le_refl _) hfit).congr (x.same_opened f full (.inl (by omega)))
  have hpending := Flash.holds_program hblank
  obtain ⟨hst, hrest⟩ := Flash.holds_cons.mp hpending
  refine Flash.holds_cons.mpr ⟨?_, hrest.congr (same_clear _ _ _ (.inl (by omega)))⟩
  rw [SecState.written, Flash.clear_self, hst]
  exact (by decide : (0x7F &&& 0xBF : Byte) = 0x3F)

/-- The last byte of a node on the chip. -/
theorem Node.Ends.last (hn : n.Ends) (hf : f.Holds p n.written.bytes) : f (p + n.size - 1) ≠ 0xFF := by
  have hsize := n.size_ge
  have hlen := n.length_body
  have hbody : f.Holds (p + 4) n.body := by
    have hbytes : n.written.bytes = [0x3F, 0xFF, 0xFF, 0xFF] ++ n.body := rfl
    rw [hbytes, Flash.holds_append] at hf
    exact hf.2
  have hget := hbody.get (i := n.size - 5) (by omega)
  rw [show p + 4 + (n.size - 5) = p + n.size - 1 by omega] at hget
  rw [hget]
  intro hff
  refine hn ?_
  rw [List.getLast?_eq_getElem?, List.getElem?_eq_getElem (by omega)]
  have hlast : n.body.length - 1 = n.size - 5 := by omega
  simpa only [hlast] using congrArg some hff

/-- The sector has the node behind its items. -/
theorem SecState.Of.add (hx : x.Of f b) (hn : n.Ok) (hst : x.status ≠ .full) (hfit : x.next b + n.size ≤ b + 4096)
    (hfull : x = .empty → full = false) (hends : x.Tight b ∨ n.Ends) :
    (x.add b full n.written).Of (x.written f b full n) b := by
  have hgt := hx.next_gt
  have hsize := n.size_ge
  have hbytes := hx.holds full hfit
  have hlast := hends.imp_right fun hends => hends.last hbytes
  have hblank : (x.written f b full n).Blank (x.next b + n.size) (b + 4096) :=
    (hx.blank.mono (by omega) (Nat.le_refl _)).congr (x.same_written f full n (.inl (by omega)) (.inr (Nat.le_refl _)))
  cases x with
  | empty =>
    obtain rfl := hfull rfl
    have hhdr : (SecState.written f b false n .empty) b = usedByte false := by
      have hp : b < SecState.next b .empty := by omega
      rw [SecState.written, Flash.clear_of_ne _ (Nat.ne_of_lt hp), Flash.program_of_lt hp, SecState.opened, Flash.clear_self,
        (Flash.holds_cons.mp hx.1).1]
      rfl
    refine ⟨Flash.holds_cons.mpr ⟨hhdr, (Flash.holds_cons.mp hx.1).2.congr ?_⟩, Walk.first hn.written hbytes hblank, hblank, hfit,
      .inl ?_⟩
    · exact SecState.same_written f false n .empty (.inl (Nat.lt_succ_self b)) (.inl (Nat.le_refl _))
    · rw [span_cons, span_nil]
      rfl
  | used full' dt items e =>
    obtain rfl : full' = false := by
      cases full'
      · rfl
      · exact absurd rfl hst
    have hused : Used ((SecState.used false dt items e).opened f b full) b (usedByte full) dt.byte items e := by
      cases full
      · exact hx
      · exact Used.store hx 0xDF
    have hs : ((SecState.used false dt items e).opened f b full).Same ((SecState.used false dt items e).written f b full n) b e := by
      exact (same_pending _ e n (.inl (Nat.le_refl e))).trans (same_clear _ _ _ (.inr (Nat.le_refl e)))
    exact hused.append hn.written hbytes hs hfit hblank hlast

/-! ### The status of the sector -/

/-- The sector cache once the sector takes the node. -/
def openedTable (h full : Bool) (table : List SectorCacheNode) : List SectorCacheNode :=
  if full then updateSectorCacheTable (base h) (base h + 4096) table else table

/-- What is known of the sector a node goes to. -/
structure Fits (sector : SectorMeta) (h : Bool) (x : SecState) : Prop where
  addr : sector.addr = base h
  store : sector.store = x.status
  remain : sector.remain = 4096 - (x.next (base h) - base h)

theorem fits_traversed (h : Bool) (x : SecState) : Fits (traversed h x) h x := ⟨rfl, rfl, rfl⟩

/-- `update_sec_status` for a sector that has space for the node. -/
theorem Does.updateSecStatus {sector : SectorMeta} (hsec : Fits sector h x) (hst : x.status ≠ .full) (hfit : x.next (base h) + size ≤ base h + 4096)
    (hgt : base h + 16 ≤ x.next (base h)) (hC : C (x.opened s.flash (base h) (x.fills (base h) size)))
    {Q : EfErrCode × Bool → Store → Prop}
    (hq : ∀ past, Q (.noErr, x.fills (base h) size) {s with
      flash := x.opened s.flash (base h) (x.fills (base h) size), past := past,
      sectorCacheTable := openedTable h (x.fills (base h) size) s.sectorCacheTable}) :
    Does C (updateSecStatus sector size false) s Q := by
  obtain ⟨checkOk, store, dirty, addr, magic, combined, remain, emptyEnv⟩ := sector
  obtain ⟨rfl, rfl, rfl⟩ := hsec
  cases x with
  | empty =>
    exact Runs.bind (Does.status (by decide) (by decide) (by decide) hC fun past => Runs.pure (hq past))
  | used full dt items e =>
    obtain rfl : full = false := by
      cases full
      · rfl
      · exact absurd rfl hst
    have hfit' : e + size ≤ base h + 4096 := hfit
    have hgt' : base h + 16 ≤ e := hgt
    have hb := base_le h
    have hsub : sub32 (4096 - (e - base h)) size = 4096 - (e - base h) - size := by
      simp only [sub32]
      omega
    show Does C (if 4096 - (e - base h) < efSecRemainThreshold ∨ sub32 (4096 - (e - base h)) size < efSecRemainThreshold then _
      else _) s Q
    rw [hsub]
    by_cases hfull : 4096 - (e - base h) < efSecRemainThreshold ∨ 4096 - (e - base h) - size < efSecRemainThreshold
    · have hf : (SecState.used false dt items e).fills (base h) size = true := decide_eq_true hfull
      rw [hf] at hC hq
      rw [if_pos hfull]
      exact Runs.bind (Does.status (by decide) (by decide) (by decide) hC fun past => Runs.bind (Runs.change rfl (Runs.pure (hq past))))
    · have hf : (SecState.used false dt items e).fills (base h) size = false := decide_eq_false hfull
      rw [hf] at hq
      rw [if_neg hfull]
      exact Runs.pure (hq s.past)

/-! ### The area with the node -/

/-- The other sector is cached as before. -/
theorem cached_other {a y : Nat} (ha : a ≠ base h) (ht : Cached S.area a y) : Cached (S.put h x).area a y := by
  obtain ⟨h', dt, items, rfl, hu⟩ := ht
  have hne : h' ≠ h := fun heq => ha (congrArg base heq)
  refine ⟨h', dt, items, rfl, ?_⟩
  exact (Function.update_of_ne hne x S.area).trans hu

/-- A sector that is full is not cached. -/
theorem sectors_full {table : List SectorCacheNode} (hok : SectorCacheOk (Cached S.area) table) :
    SectorCacheOk (Cached (S.put h x).area) (updateSectorCacheTable (base h) (base h + 4096) table) :=
  hok.drop (fun hc => Nat.lt_irrefl _ hc.2) fun _ _ => cached_other

/-- Where the node of a name is now. -/
def State.added (S : State) (h full : Bool) (n : Node) : State :=
  {S.put h ((S.area h).add (base h) full n.written) with
    loc := Function.update S.loc n.name (some ((S.area h).next (base h)))}

theorem State.added_area (S : State) (h full : Bool) (n : Node) :
    (S.added h full n).area h = (S.area h).add (base h) full n.written := S.put_area ..

theorem State.added_area_not (S : State) (h full : Bool) (n : Node) : (S.added h full n).area (!h) = S.area (!h) :=
  S.put_area_not ..

theorem State.added_not_area (S : State) (h full : Bool) (n : Node) : (S.added (!h) full n).area h = S.area h :=
  S.put_area_of_ne (by cases h <;> decide) _

/-- The sector has room for a node of this size. -/
structure State.Room (S : State) (h : Bool) (size : Nat) : Prop where
  status : (S.area h).status ≠ .full
  fit : (S.area h).next (base h) + size ≤ base h + 4096

theorem fills_not_end {x : SecState} (hgt : base h + 16 ≤ x.next (base h)) (hfit : x.next (base h) + size ≤ base h + 4096) (hsize : size ≤ 4079)
    (hf : x.fills (base h) size = false) : x.next (base h) + size < base h + 4096 := by
  cases x with
  | empty =>
    show base h + 16 + size < base h + 4096
    omega
  | used full dt items e =>
    have hf' := of_decide_eq_false hf
    have hgt' : base h + 16 ≤ e := hgt
    show e + size < base h + 4096
    simp only [efSecRemainThreshold, envHdrDataSize, efEnvNameMax] at hf'
    omega

/-- The node is written, and its status says so; the caches are told. -/
theorem Rep.added (hr : Rep S s) (hn : n.Ok) (hroom : S.Room h n.size) (hfull : S.area h = .empty → full = false)
    (hend : full = false → (S.area h).next (base h) + n.size < base h + 4096)
    (hends : (S.area h).Tight (base h) ∨ n.Ends) {s' : Store}
    (hflash : s'.flash = (S.area h).written s.flash (base h) full n)
    (hsectors : s'.sectorCacheTable = if full then updateSectorCacheTable (base h) (base h + 4096) s.sectorCacheTable
      else updateSectorCacheTable (base h) ((S.area h).next (base h) + n.size) s.sectorCacheTable)
    (hnames : s'.envCacheTable = updateEnvCacheTable n.name ((S.area h).next (base h)) s.envCacheTable)
    (hinit : s'.initOk = s.initOk) (hgc : s'.gcRequest = s.gcRequest) (hrec : s'.inRecoveryCheck = s.inRecoveryCheck)
    (hdel : s'.lastIsCompleteDel = s.lastIsCompleteDel) : Rep (S.added h full n) s' := by
  obtain ⟨hst, hfit⟩ := hroom
  have hx := hr.area h
  have hgt := hx.next_gt
  have hsize := n.size_ge
  have hb := base_cases h
  have hof := hx.add hn hst hfit hfull hends
  have hother : s.flash.Same ((S.area h).written s.flash (base h) full n) (base (!h)) (base (!h) + 4096) :=
    SecState.same_written _ _ _ _ (by omega) (by omega)
  refine ⟨?_, ?_, ?_, hinit.trans hr.initOk, hgc.trans hr.gcRequest, hrec.trans hr.inRecoveryCheck, hdel.trans hr.lastIsCompleteDel⟩
  · rw [hflash]
    exact hr.on_put hof hother
  · rw [hsectors]
    cases full with
    | true =>
      rw [if_pos rfl]
      exact sectors_full hr.sectors
    | false =>
      rw [if_neg Bool.false_ne_true]
      have hin := hend rfl
      have harea := S.added_area h false n
      have hcached : Cached (S.added h false n).area (base h) ((S.area h).next (base h) + n.size) := by
        cases ha : S.area h with
        | empty => exact ⟨h, _, _, rfl, by rw [harea, ha]; rfl⟩
        | used full' dt items e => exact ⟨h, _, _, rfl, by rw [harea, ha]; rfl⟩
      exact hr.sectors.update ⟨by omega, hin⟩ hcached fun _ _ => cached_other
  · rw [hnames]
    exact hr.names.update (next_ne_failed hr h)

/-! ### `create_env_blob` -/

/-- A node as it is created. -/
def Node.new (key value : List Byte) : Node := ⟨0x3F, key, value⟩

@[simp] theorem Node.new_name (key value : List Byte) : (Node.new key value).name = key := rfl

@[simp] theorem Node.new_size (key value : List Byte) : (Node.new key value).size = envHdrDataSize + key.length + value.length := rfl

/-- The bytes of a node that is being written, up to its name and up to its value. -/
def Node.toName (n : Node) : List Byte := [0x7F, 0xFF, 0xFF, 0xFF] ++ n.hdr

def Node.toValue (n : Node) : List Byte := n.toName ++ n.name

theorem Node.length_toName (n : Node) : n.toName.length = envHdrDataSize := rfl

theorem Node.length_toValue (n : Node) : n.toValue.length = envHdrDataSize + n.name.length := by
  rw [toValue, List.length_append, length_toName]

theorem Node.toValue_append (n : Node) : n.toValue ++ n.value = n.pending.bytes := by
  rw [toValue, toName, pending_bytes, List.append_assoc, List.append_assoc]

theorem Node.toValue_prefix (n : Node) : n.toValue <+: n.pending.bytes := ⟨n.value, n.toValue_append⟩

theorem Node.toName_prefix (n : Node) : n.toName <+: n.pending.bytes :=
  (List.prefix_append n.toName n.name).trans n.toValue_prefix

theorem Does.writeEnvHdr {Q : EfErrCode → Store → Prop} (hs : s.flash = f) (hC : ∀ cs, cs <+: n.pending.bytes → C (f.program p cs))
    (hq : ∀ past, Q .noErr {s with flash := f.program p n.toName, past := past}) :
    Does C (writeEnvHdr p n.hdr) s Q := by
  have hstatus : s.flash.clear p 0x7F = f.program p [0x7F, 0xFF, 0xFF, 0xFF] := by
    rw [hs, clear_pending]
  have hC₁ : C (s.flash.clear p 0x7F) := by
    rw [hstatus]
    exact hC _ ⟨n.body, rfl⟩
  unfold EasyFlash.writeEnvHdr
  refine Runs.bind (Does.status (by decide) (by decide) (by decide) hC₁ fun past => ?_)
  rw [if_neg (not_not_intro rfl)]
  exact Does.write f p _ hstatus rfl rfl n.toName_prefix hC hq

/-- The sector cache once the node is written, up to `e`. -/
def addedTable (h full : Bool) (e : Nat) (table : List SectorCacheNode) : List SectorCacheNode :=
  if full then updateSectorCacheTable (base h) (base h + 4096) table else updateSectorCacheTable (base h) e table

/-- The place of a new node is given, or found. -/
def Places (C : Flash → Prop) (S : State) (s : Store) (h : Bool) (sector : SectorMeta) (size : Nat) : Prop :=
  Does C (if sector.emptyEnv ≠ failedAddr then pure (sector.emptyEnv, sector) else newEnv sector size) s fun r s' =>
    Rep S s' ∧ r.1 = (S.area h).next (base h) ∧ Fits r.2 h (S.area h)

theorem Rep.places (hr : Rep S s) {sector : SectorMeta} (hempty : sector.emptyEnv = (S.area h).next (base h))
    (hsec : Fits sector h (S.area h)) (size : Nat) : Places C S s h sector size := by
  unfold Places
  rw [if_pos (hempty ▸ next_ne_failed hr h)]
  exact Runs.pure ⟨hr, hempty, hsec⟩

theorem Does.createEnvBlob {key value : List Byte} (hn : (Node.new key value).Ok)
    (hroom : S.Room h (Node.new key value).size) (hlt : (Node.new key value).size ≤ 4079) {sector : SectorMeta}
    (hplace : Places C S s h sector (Node.new key value).size) (hfull : (S.area h).fills (base h) (Node.new key value).size = full)
    (hends : (S.area h).Tight (base h) ∨ (Node.new key value).Ends)
    (hC : ∀ f, S.On f → ∀ g, (S.area h).Passes f (base h) full (Node.new key value) g → C g) :
    Does C (createEnvBlob sector key value) s fun r s' => r.1 = .noErr ∧
      Rep {S.added h full (Node.new key value) with gcRequest := S.gcRequest || full} s' := by
  have hname : key.length ≤ efEnvNameMax := hn.name_le
  have hlen : envHdrDataSize + key.length + value.length ≤ sectorSize - sectorHdrDataSize := hn.size_le
  unfold EasyFlash.createEnvBlob
  rw [if_neg (Nat.not_lt.mpr hname)]
  dsimp only
  rw [if_neg (Nat.not_lt.mpr hlen), ← Node.new_size key value]
  refine Runs.joined hplace ?_
  rintro ⟨a, sector⟩ s ⟨hr, rfl, hsec⟩
  have hgt := (hr.area h).next_gt
  have hne := next_ne_failed hr h
  dsimp only at hsec ⊢
  rw [if_neg hne]
  obtain ⟨n, hneq⟩ : ∃ n, Node.new key value = n := ⟨_, rfl⟩
  obtain ⟨p, hp⟩ : ∃ p, (S.area h).next (base h) = p := ⟨_, rfl⟩
  obtain ⟨f, hf⟩ : ∃ f, (S.area h).opened s.flash (base h) full = f := ⟨_, rfl⟩
  have hnk : n.name = key := hneq ▸ rfl
  have hnv : n.value = value := hneq ▸ rfl
  have hcut : ∀ cs, cs <+: n.pending.bytes → C (f.program p cs) := fun cs hcs =>
    hC _ hr.area _ (.inl ⟨cs, by rwa [hneq], by rw [hf, hp]⟩)
  have hhdr : envHdr (nodeCrc key value).toNat key.length value.length = n.hdr := by rw [← hneq]; rfl
  have hnsize : envHdrDataSize + key.length + value.length = n.size := by rw [← hneq]; rfl
  refine Runs.bind (Does.updateSecStatus hsec hroom.status hroom.fit hgt ?_ fun past => ?_)
  · rw [hfull, hf]
    exact hcut [] (List.nil_prefix ..)
  rw [hfull, hf, hp, hhdr]
  dsimp only
  rw [if_pos rfl]
  refine Runs.bind (Does.writeEnvHdr (f := f) rfl hcut fun past => ?_)
  rw [if_pos rfl]
  refine Runs.bind (Does.write f p n.toName rfl (by rw [Node.length_toName]) (by rw [Node.toValue, hnk]) n.toValue_prefix hcut fun past => ?_)
  dsimp only
  have hadd : p + envHdrDataSize + key.length + value.length = p + n.size := by rw [← hnsize, Nat.add_assoc, Nat.add_assoc, Nat.add_assoc]
  rw [hadd, hsec.addr]
  refine Runs.when (R := fun s₁ => s₁ = {s with
      flash := f.program p n.toValue, past := past, sectorCacheTable := addedTable h full (p + n.size) s.sectorCacheTable})
    (fun hnot => Runs.change rfl ?_) (fun hyes => ?_) ?_
  · rw [addedTable, openedTable, if_neg hnot, if_neg hnot]
  · rw [addedTable, openedTable, if_pos (not_not.mp hyes), if_pos (not_not.mp hyes)]
  rintro s₁ rfl
  refine Runs.bind (Runs.change rfl ?_)
  refine Runs.bind (Runs.pure ?_)
  rw [if_pos rfl]
  have haddr : p + envHdrDataSize + key.length = p + n.toValue.length := by rw [Node.length_toValue, hnk, Nat.add_assoc]
  have hend : n.toValue ++ value = n.pending.bytes := by rw [← hnv, n.toValue_append]
  have hall : n.pending.bytes <+: n.pending.bytes := List.prefix_refl _
  refine Runs.bind (Does.write f p n.toValue ?_ haddr hend hall hcut fun past => ?_)
  · dsimp only
  rw [if_pos rfl]
  have hmask : statusMask EnvStatus.write.index = 0xBF := by decide
  have hwritten : (S.area h).written s.flash (base h) full n = (f.program p n.pending.bytes).clear p 0xBF := by
    rw [SecState.written, hf, hp]
  refine Runs.bind (Does.status (by decide) (by decide) (by decide) ?_ fun past => ?_)
  · rw [hmask, ← hwritten, ← hneq]
    exact hC _ hr.area _ (.inr rfl)
  rw [hmask]
  subst hneq
  dsimp only
  have hrep : ∀ past, Rep (S.added h full (Node.new key value)) {s with
      flash := (f.program p (Node.new key value).pending.bytes).clear p 0xBF, past := past,
      sectorCacheTable := addedTable h full (p + (Node.new key value).size) s.sectorCacheTable,
      envCacheTable := updateEnvCacheTable key p s.envCacheTable} := by
    intro past
    refine hr.added hn hroom (fun he => ?_) (fun hno => ?_) hends hwritten.symm ?_ ?_ rfl rfl rfl rfl
    · rw [← hfull, he, SecState.fills]
    · exact fills_not_end hgt hroom.fit hlt (hfull.trans hno)
    · rw [hp, addedTable]
    · rw [hp, Node.new_name]
  refine Runs.when (R := fun s₁ => Rep {S.added h full (Node.new key value) with gcRequest := S.gcRequest || full} s₁)
    (fun hyes => Runs.change rfl ?_) (fun hnot => ?_) fun s₁ hrep₁ => Runs.pure ⟨rfl, hrep₁⟩
  · rw [hyes.2, Bool.or_true]
    exact (hyes.2 ▸ hrep _).request true
  · obtain rfl : full = false := Bool.eq_false_iff.mpr fun hyes => hnot ⟨rfl, hyes⟩
    rw [Bool.or_false]
    exact hrep _

end Backwash.EasyFlash
