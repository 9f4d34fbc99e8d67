import Backwash.Concurrent.Owner
import Backwash.Sensor.Frames

/-! The parser step by step.

A pass of `data_parsing` is not one step: it reads the index, stores it one higher and
writes the buffer, reads it again to see whether the buffer is full, and sets it back,
and between any two of these `Tds_Work` may set it back in another thread. Here each of
these is a step of its own. The parser carries a bound on the index, which the others
only ever lower. -/
namespace Backwash.Sensor
open Concurrent Prog Firmware

/-- The firmware's variables and the parser's buffer. -/
structure Parser where
  device : Device
  data : Nat → UInt8

namespace Parser

/-- `data_parsing_id`. -/
def id (s : Parser) : Nat := s.device.vars .dataParsingId

end Parser

/-! ### The threads -/

inductive ParserThread where
  | caller (t : Thread) | serial
  deriving DecidableEq, Repr

/-- `getChar` waits for a character and takes it; `setData` and `getData` are accesses to the
buffer, `deviceWrite` is the request. -/
inductive ParserOp where
  | device (o : Op) | getChar | setData (i : Nat) (ch : UInt8) | getData (i : Nat) | deviceWrite
  deriving DecidableEq, Repr

@[reducible] def ParserRes : ParserOp → Type
  | .device o => Res o
  | .getChar | .getData _ => UInt8
  | _ => Unit

/-- A step of the parser or of a caller; `ch` is the next character of the stream. -/
def parserExec : (o : ParserOp) → UInt8 → Parser → Parser × ParserRes o
  -- only a semaphore would remember which thread it is
  | .device o, _, s => ({s with device := (exec .shell o {} s.device).1}, (exec .shell o {} s.device).2)
  | .getChar, ch, s => (s, ch)
  | .setData i ch, _, s => ({s with data := Function.update s.data i ch}, ())
  | .getData i, _, s => (s, s.data i)
  | .deviceWrite, _, s => (s, ())

/-- A function of the firmware, run beside the parser. -/
def beside {α : Type} : Code α → Prog ParserRes α
  | .ret a => .ret a
  | .op o k => .op (.device o) fun r => beside (k r)

def getChar : Prog ParserRes UInt8 := perform ParserOp.getChar
def setData (i : Nat) (ch : UInt8) : Prog ParserRes Unit := perform (ParserOp.setData i ch)
def getData (i : Nat) : Prog ParserRes UInt8 := perform (ParserOp.getData i)

/-- `data[data_parsing_id++] = ch`: C leaves open whether the index or the array is written first. -/
def append (writeFirst : Bool) (i : Nat) (ch : UInt8) : Prog ParserRes Unit :=
  if writeFirst = true then do
    setData i ch
    beside (store .dataParsingId (i + 1))
  else do
    beside (store .dataParsingId (i + 1))
    setData i ch

/-- `TDS_Value = (data[4]<<8) + data[5]`, then a tenth of it, if the buffer holds an answer. -/
def publish : Prog ParserRes Unit := do
  let begin ← getData 0
  when (begin = dataCmdBegin) do
    let high ← getData 4
    let low ← getData 5
    beside (store .tdsValue (high.toNat * 2 ^ 8 + low.toNat))
    let v ← beside (load .tdsValue)
    beside (store .tdsValue (timesTenth v))

/-- A pass of the loop of `data_parsing`. -/
def dataParsing (writeFirst : Bool) : Prog ParserRes Unit := do
  let ch ← getChar
  let i ← beside (load .dataParsingId)
  append writeFirst i ch
  let n ← beside (load .dataParsingId)
  when (n = oneDataMaxlen) do
    publish
    beside (store .dataParsingId 0)

inductive ParserCall where
  | tdsWork (t : Thread) | dataParsing
  deriving DecidableEq, Repr

/-- `Tds_Work` is called in the motor thread, in window 23 and from the shell. -/
def ParserCall.runs : ParserCall → ParserThread → Bool
  | .tdsWork t, u => u == .caller t && (t == .motor || t == .lcd || t == .shell)
  | .dataParsing, u => u == .serial

/-- `Tds_Work`: the variables, then the request. -/
def tdsRequestBeside : Prog ParserRes Unit := do
  let _ ← beside tdsWork
  perform ParserOp.deviceWrite

def parserBody (writeFirst : Bool) : ParserCall → Prog ParserRes Unit
  | .tdsWork _ => tdsRequestBeside
  | .dataParsing => dataParsing writeFirst

def parser (writeFirst : Bool) : System ParserRes ParserThread ParserCall Parser UInt8 where
  exec := fun _ => parserExec
  body := parserBody writeFirst
  ready := fun t c _ => c.runs t
  enter := fun _ s => s

abbrev ParserConf := Config ParserRes ParserThread ParserCall Parser UInt8
abbrev ParserAct := Action ParserThread ParserCall UInt8
abbrev ParserTrace := List (Event ParserOp ParserThread ParserCall UInt8)

/-- The firmware's variables as they are at the start, with whatever is on the parser's stack. -/
def parserStart (flash : Nat → Nat) (data : Nat → UInt8) : ParserConf := .boot ⟨boot flash, data⟩

/-! ### A pass without interruption -/

/-- The link with this parser, and nothing on the line. -/
def Parser.link (s : Parser) : Link := ⟨s.device, s.data, [], []⟩

def Parser.ofLink (s : Link) : Parser := ⟨s.device, s.data⟩

/-- The reading goes through `TDS_Value` twice. -/
theorem store_reading (s : Device) (high low : UInt8) :
    (s.store .tdsValue (high.toNat * 2 ^ 8 + low.toNat)).store .tdsValue
        (timesTenth ((s.store .tdsValue (high.toNat * 2 ^ 8 + low.toNat)).vars .tdsValue)) =
      s.store .tdsValue (timesTenth (high.toNat * 2 ^ 8 + low.toNat)) := by
  have hhigh := high.toNat_lt
  have hlow := low.toNat_lt
  have hword : high.toNat * 256 + low.toNat < 4294967296 := by omega
  simp [Device.store, Var.width, Nat.mod_eq_of_lt hword]

theorem publish_alone (writeFirst : Bool) (ch : UInt8) (s : Parser) :
    (parser writeFirst).alone .serial ch (do publish; beside (store .dataParsingId 0)) s =
      .ofLink s.link.publish.restart := by
  by_cases hbegin : s.data 0 = dataCmdBegin
  · have hread : (parser writeFirst).alone .serial ch (do publish; beside (store .dataParsingId 0)) s =
        ⟨((s.device.store .tdsValue ((s.data 4).toNat * 2 ^ 8 + (s.data 5).toNat)).store .tdsValue
          (timesTenth ((s.device.store .tdsValue ((s.data 4).toNat * 2 ^ 8 + (s.data 5).toNat)).vars .tdsValue))).store
            .dataParsingId 0, s.data⟩ := by
      simp only [publish, getData, perform, bind_eq, op_bind, ret_bind, System.alone, parser, parserExec, hbegin,
        Prog.when, if_true]
      rfl
    rw [hread, store_reading]
    simp [Parser.ofLink, Parser.link, Link.publish, Link.restart, hbegin]
  · have hpass : s.link.publish = s.link := if_neg hbegin
    rw [hpass]
    simp only [publish, getData, perform, bind_eq, op_bind, ret_bind, System.alone, parser, parserExec, hbegin,
      Prog.when, if_false]
    rfl

/-- Run without interruption, a pass is the one step that the link takes it for. -/
theorem dataParsing_alone (writeFirst : Bool) (ch : UInt8) (s : Parser) :
    (parser writeFirst).alone .serial ch (dataParsing writeFirst) s = .ofLink (Link.dataParsing ch s.link) := by
  have happend : (parser writeFirst).alone .serial ch (dataParsing writeFirst) s =
      (parser writeFirst).alone .serial ch
        (when ((s.link.append ch).id = oneDataMaxlen) do publish; beside (store .dataParsingId 0))
        (.ofLink (s.link.append ch)) := by
    cases writeFirst <;> rfl
  rw [happend]
  unfold Link.dataParsing Prog.when
  split
  · exact publish_alone writeFirst ch (.ofLink (s.link.append ch))
  · rfl

/-! ### The parser on the board -/

/-- The board keeps the parser's buffer among its variables. -/
structure Holds (d : Device) (s : Link) : Prop where
  id : d.vars .dataParsingId = s.id
  value : d.vars .tdsValue = s.value
  data : ∀ i, d.vars (.data i) = (s.data i).toNat

section
variable {d : Device} {s : Link}

theorem Holds.append (h : Holds d s) (ch : UInt8) :
    Holds ((d.store .dataParsingId (d.vars .dataParsingId + 1)).store (.data (d.vars .dataParsingId)) ch.toNat)
      (s.append ch) := by
  refine ⟨?_, ?_, fun i => ?_⟩
  · simp [Device.store, Link.append, Link.id, h.id]
  · simpa [Device.store, Link.append, Link.value] using h.value
  · by_cases hi : i = s.id
    · simp [Device.store, Link.append, h.id, hi, Var.width]
    · simpa [Device.store, Link.append, h.id, hi] using h.data i

theorem Holds.restart (h : Holds d s) : Holds (d.store .dataParsingId 0) s.restart := by
  refine ⟨by simp [Device.store, Link.restart, Link.id], ?_, fun i => ?_⟩
  · simpa [Device.store, Link.restart, Link.value] using h.value
  · simpa [Device.store, Link.restart] using h.data i

theorem Holds.publish (h : Holds d s) (n : Nat) : Holds (d.store .tdsValue n) {s with device := s.device.store .tdsValue n} := by
  refine ⟨?_, by simp [Device.store, Link.value], fun i => ?_⟩
  · simpa [Device.store, Link.id] using h.id
  · simpa [Device.store] using h.data i

/-- The board's full buffer is read, and the index set back. -/
def readBuffer : Code Unit := do
  let begin ← load (.data 0)
  when (begin = dataCmdBegin.toNat) do
    let high ← load (.data 4)
    let low ← load (.data 5)
    store .tdsValue (high * 2 ^ 8 + low)
    let v ← load .tdsValue
    store .tdsValue (timesTenth v)
  store .dataParsingId 0

theorem Holds.readBuffer (h : Holds d s) (allowed : Call → Bool) (depth : Nat) (i : Input) :
    Holds ((board allowed depth).alone .serial i readBuffer d) s.publish.restart := by
  have hbegin : d.vars (.data 0) = dataCmdBegin.toNat ↔ s.data 0 = dataCmdBegin := by
    rw [h.data 0]
    exact UInt8.toNat_inj
  unfold Link.publish
  by_cases hb : s.data 0 = dataCmdBegin
  · have hread : (board allowed depth).alone .serial i Sensor.readBuffer d =
        ((d.store .tdsValue ((s.data 4).toNat * 2 ^ 8 + (s.data 5).toNat)).store .tdsValue
          (timesTenth ((d.store .tdsValue ((s.data 4).toNat * 2 ^ 8 + (s.data 5).toNat)).vars .tdsValue))).store
            .dataParsingId 0 := by
      simp only [Sensor.readBuffer, perform, bind_eq, op_bind, ret_bind, System.alone, board, exec, hbegin.mpr hb, h.data,
        Prog.when, if_true]
    rw [hread, store_reading, if_pos hb]
    exact (h.publish _).restart
  · have hread : (board allowed depth).alone .serial i Sensor.readBuffer d = d.store .dataParsingId 0 := by
      simp only [Sensor.readBuffer, perform, bind_eq, op_bind, ret_bind, System.alone, board, exec, mt hbegin.mp hb,
        Prog.when, if_false]
    rw [hread, if_neg hb]
    exact h.restart

/-- Left to itself, a pass of the board's parser does what `data_parsing` does to its buffer. -/
theorem Holds.dataParsing (h : Holds d s) (ch : UInt8) (allowed : Call → Bool) (depth : Nat) (i : Input) :
    Holds ((board allowed depth).alone .serial i (Firmware.dataParsing ch) d) (s.dataParsing ch) := by
  have happend := h.append ch
  have hpass : (board allowed depth).alone .serial i (Firmware.dataParsing ch) d =
      (board allowed depth).alone .serial i (when ((s.append ch).id = oneDataMaxlen) Sensor.readBuffer)
        ((d.store .dataParsingId (d.vars .dataParsingId + 1)).store (.data (d.vars .dataParsingId)) ch.toNat) := by
    rw [← happend.id]
    rfl
  rw [hpass]
  unfold Link.dataParsing Prog.when
  split
  · exact happend.readBuffer allowed depth i
  · exact happend

end

/-! ### The bound that the parser carries -/

/-- What the parser's own steps make of its bound: the index it has read, the index it has
stored, and the length of the buffer that a write needs. -/
def top : (o : ParserOp) → ParserRes o → Nat → Nat
  | .device (.load .dataParsingId), n, _ => n
  | .device (.store .dataParsingId n), _, _ => n
  | .setData i _, _, x => max x (i + 1)
  | _, _, x => x

/-- The answers a bound admits: an index up to it. -/
def within : (o : ParserOp) → Nat → ParserRes o → Prop
  | .device (.load .dataParsingId), x, n => n ≤ x
  | _, _, _ => True

def buffer : Sight ParserRes Nat where
  can := within
  after := top
  Safe := fun x => x ≤ oneDataMaxlen

/-- The index is under the bound, and so is the place of the last write. -/
structure Bounded (x : Nat) (s : Parser) (tr : ParserTrace) : Prop where
  id_le : s.id ≤ x
  write_lt : ∀ t i ch u, tr.head? = some (.did t (.setData i ch) u) → i < x

/-- What the parser and the callers of `Tds_Work` do. -/
def parserMay : ParserThread → ParserOp → Bool
  | .caller _, .device (.load _) | .caller _, .deviceWrite => true
  | .caller _, .device (.store _ n) => n == 0
  | .caller _, _ => false
  | .serial, .device (.load _) | .serial, .device (.store _ _) => true
  | .serial, .device _ => false
  | .serial, _ => true

theorem parser_may (writeFirst : Bool) {t : ParserThread} {c : ParserCall} (h : c.runs t = true) :
    (parserBody writeFirst c).All fun o => parserMay t o = true := by
  cases c with
  | tdsWork u =>
    obtain rfl : t = .caller u := by simpa using (Bool.and_eq_true_iff.mp h).1
    exact ⟨rfl, fun _ => ⟨rfl, fun _ => ⟨rfl, fun _ => ⟨rfl, fun _ => trivial⟩⟩⟩⟩
  | dataParsing =>
    obtain rfl : t = .serial := by simpa [ParserCall.runs] using h
    have hone : ∀ o, parserMay .serial o = true →
        (perform o : Prog ParserRes (ParserRes o)).All fun o => parserMay .serial o = true := fun _ ho => All.perform ho
    have happend : ∀ i ch, (append writeFirst i ch).All fun o => parserMay .serial o = true := fun i ch =>
      All.ite (All.bind (hone _ rfl) fun _ => hone _ rfl) (All.bind (hone _ rfl) fun _ => hone _ rfl)
    have hpublish : publish.All fun o => parserMay .serial o = true :=
      All.bind (hone _ rfl) fun _ => All.when (All.bind (hone _ rfl) fun _ => All.bind (hone _ rfl) fun _ =>
        All.bind (hone _ rfl) fun _ => All.bind (hone _ rfl) fun _ => hone _ rfl)
    exact All.bind (hone _ rfl) fun _ => All.bind (hone _ rfl) fun _ => All.bind (happend _ _) fun _ =>
      All.bind (hone _ rfl) fun _ => All.when (All.bind hpublish fun _ => hone _ rfl)

section
variable {x : Nat} {s : Parser} {tr : ParserTrace}

/-- A step that leaves the index and writes nothing into the buffer. -/
theorem Bounded.same (h : Bounded x s tr) {s' : Parser} (hid : s'.id = s.id) {e : Event ParserOp ParserThread ParserCall UInt8}
    (he : ∀ t i ch u, e ≠ .did t (.setData i ch) u) : Bounded x s' (e :: tr) :=
  ⟨hid ▸ h.id_le, fun t i ch u hlast => absurd (Option.some.inj hlast) (he t i ch u)⟩

/-- The index is stored. -/
theorem Bounded.stored {s' : Parser} {n m : Nat} (hid : s'.id = n % 2 ^ 8) (hm : n ≤ m)
    {e : Event ParserOp ParserThread ParserCall UInt8} (he : ∀ t i ch u, e ≠ .did t (.setData i ch) u) :
    Bounded m s' (e :: tr) :=
  ⟨hid ▸ Nat.le_trans (Nat.mod_le _ _) hm, fun t i ch u hlast => absurd (Option.some.inj hlast) (he t i ch u)⟩

theorem id_store (s : Parser) (v : Var) (n : Nat) :
    Parser.id {s with device := s.device.store v n} = if v = .dataParsingId then n % 2 ^ 8 else s.id := by
  unfold Parser.id Device.store
  split
  · next hv =>
    subst hv
    simp [Var.width]
  · next hv => exact Function.update_of_ne (Ne.symm hv) _ _

/-- The parser's own step. -/
theorem Bounded.own (h : Bounded x s tr) {o : ParserOp} (ho : parserMay .serial o = true) {ch : UInt8} :
    within o x (parserExec o ch s).2 ∧
      Bounded (top o (parserExec o ch s).2 x) (parserExec o ch s).1 (.did .serial o ch :: tr) := by
  cases o with
  | device o =>
    cases o with
    | load v =>
      by_cases hv : v = .dataParsingId
      · subst hv
        exact ⟨h.id_le, Nat.le_refl _, fun _ _ _ _ hlast => by cases hlast⟩
      · have hsame := h.same (rfl : s.id = s.id) (e := .did .serial (.device (.load v)) ch) fun _ _ _ _ e => by cases e
        cases v with
        | dataParsingId => exact absurd rfl hv
        | _ => exact ⟨trivial, hsame⟩
    | store v n =>
      have hid := id_store s v n
      by_cases hv : v = .dataParsingId
      · subst hv
        exact ⟨trivial, .stored hid (Nat.le_refl n) fun _ _ _ _ e => by cases e⟩
      · rw [if_neg hv] at hid
        have hsame := h.same hid (e := .did .serial (.device (.store v n)) ch) fun _ _ _ _ e => by cases e
        cases v with
        | dataParsingId => exact absurd rfl hv
        | _ => exact ⟨trivial, hsame⟩
    | _ => cases ho
  | setData i b =>
    refine ⟨trivial, Nat.le_trans h.id_le (Nat.le_max_left x (i + 1)), fun t j c u hlast => ?_⟩
    obtain ⟨-, hop, -⟩ : ParserThread.serial = t ∧ ParserOp.setData i b = .setData j c ∧ ch = u := by
      simpa using hlast
    obtain ⟨rfl, -⟩ : i = j ∧ b = c := by simpa using hop
    exact Nat.le_max_right x (i + 1)
  | _ => exact ⟨trivial, h.same rfl fun _ _ _ _ e => by cases e⟩

/-- A step of `Tds_Work` in another thread: the index is left or set back. -/
theorem Bounded.other (h : Bounded x s tr) {t : Thread} {o : ParserOp} (ho : parserMay (.caller t) o = true) {ch : UInt8} :
    Bounded x (parserExec o ch s).1 (.did (.caller t) o ch :: tr) := by
  cases o with
  | device o =>
    cases o with
    | load v => exact h.same rfl fun _ _ _ _ e => by cases e
    | store v n =>
      obtain rfl : n = 0 := by simpa [parserMay] using ho
      have hid := id_store s v 0
      by_cases hv : v = .dataParsingId
      · rw [if_pos hv] at hid
        exact .stored hid (Nat.zero_le x) fun _ _ _ _ e => by cases e
      · rw [if_neg hv] at hid
        exact h.same hid fun _ _ _ _ e => by cases e
    | _ => cases ho
  | deviceWrite => exact h.same rfl fun _ _ _ _ e => by cases e
  | _ => cases ho

end

/-- The parser carries the bound; everyone else lowers the index. -/
def bufferOwner (writeFirst : Bool) : Owner (parser writeFirst) Nat where
  toSight := buffer
  thread := .serial
  may := fun t o => parserMay t o = true
  Rule := fun _ _ => True
  Sees := Bounded
  Rest := fun x => x < oneDataMaxlen
  first := fun _ x => x
  body_may := fun hready => parser_may writeFirst hready
  own := fun ho _ _ h => h.own ho
  other := by
    intro cfg x t o i ht ho _ _ h
    cases t with
    | serial => exact absurd rfl ht
    | caller t => exact h.other ho
  begins := fun _ _ _ hsafe h => ⟨hsafe, h.same rfl fun _ _ _ _ e => by cases e⟩
  begins_other := fun _ _ _ h => h.same rfl fun _ _ _ _ e => by cases e

/-- A write of the buffer and the index stored one higher, in either order. -/
theorem run_append (writeFirst : Bool) {i : Nat} (hi : i < oneDataMaxlen) (ch : UInt8) :
    buffer.Run (append writeFirst i ch) i fun _ x => x = i + 1 := by
  have hle : i + 1 ≤ oneDataMaxlen := hi
  refine Sight.Run.ite (fun _ => ?_) fun _ => ?_
  · refine Sight.Run.step fun _ _ => ⟨?_, Sight.Run.perform fun _ _ => ⟨hle, rfl⟩⟩
    exact Nat.max_le.mpr ⟨Nat.le_of_lt hi, hle⟩
  · refine Sight.Run.step fun _ _ => ⟨hle, Sight.Run.perform fun _ _ => ?_⟩
    have hmax : max (i + 1) (i + 1) = i + 1 := Nat.max_self _
    exact ⟨Nat.le_trans (Nat.le_of_eq hmax) hle, hmax⟩

/-- Reading the buffer and storing the value leave the bound. -/
theorem run_publish {x : Nat} (hx : x ≤ oneDataMaxlen) : buffer.Run publish x fun _ y => y = x := by
  refine Sight.Run.step fun b _ => ⟨hx, Sight.Run.when (fun _ => ?_) fun _ => rfl⟩
  refine Sight.Run.step fun _ _ => ⟨hx, Sight.Run.step fun _ _ => ⟨hx, Sight.Run.step fun _ _ => ⟨hx, ?_⟩⟩⟩
  exact Sight.Run.step fun _ _ => ⟨hx, Sight.Run.perform fun _ _ => ⟨hx, rfl⟩⟩

/-- A pass finds the index below the length and leaves it there: an index that is not the length
after the write is below it, and only the parser makes it larger. -/
theorem run_dataParsing (writeFirst : Bool) {x : Nat} (hx : x < oneDataMaxlen) :
    buffer.Run (dataParsing writeFirst) x fun _ y => y < oneDataMaxlen := by
  refine Sight.Run.step fun ch _ => ⟨Nat.le_of_lt hx, Sight.Run.step fun i hi => ?_⟩
  have hlt : i < oneDataMaxlen := Nat.lt_of_le_of_lt hi hx
  refine ⟨Nat.le_of_lt hlt, (run_append writeFirst hlt ch).bind fun _ y hy => ?_⟩
  subst hy
  refine Sight.Run.step fun n hn => ?_
  have hle : n ≤ oneDataMaxlen := Nat.le_trans hn hlt
  refine ⟨hle, Sight.Run.when (fun hfull => ?_) fun hfull => Nat.lt_of_le_of_ne hle hfull⟩
  refine (run_publish hle).bind fun _ z hz => ?_
  exact Sight.Run.perform fun _ _ => ⟨Nat.zero_le _, (by decide : 0 < oneDataMaxlen)⟩

/-- Wherever `Tds_Work` sets the index back, it stays within the buffer, and so does every write. -/
theorem buffer_not_overrun (writeFirst : Bool) (flash : Nat → Nat) (data : Nat → UInt8) (as : List ParserAct) :
    ((parser writeFirst).run (parserStart flash data) as).state.id ≤ oneDataMaxlen ∧
      ∀ t i ch, ((parser writeFirst).run (parserStart flash data) as).head t = some (.setData i ch) → i ≤ 10 := by
  have hstart : Bounded 0 (⟨boot flash, data⟩ : Parser) [] := by
    have hid : (boot flash).vars .dataParsingId = 0 := boot_vars (fun _ => rfl) (fun _ => by simp) (by decide) flash
    exact ⟨Nat.le_of_eq hid, fun _ _ _ _ e => by cases e⟩
  have hruns : ∀ bs, ∃ x ≤ oneDataMaxlen, Bounded x ((parser writeFirst).run (parserStart flash data) bs).state
      ((parser writeFirst).run (parserStart flash data) bs).trace := by
    intro bs
    obtain ⟨x, hsafe, hsees, -⟩ := Owner.run_sees (N := bufferOwner writeFirst) (y := 0) (fun c s x hready hrest _ => by
      cases c with
      | tdsWork t => cases hready
      | dataParsing => exact run_dataParsing writeFirst hrest) (by decide : 0 < oneDataMaxlen) (Nat.zero_le _) hstart
      (System.admits_true (parserStart flash data) bs)
    exact ⟨x, hsafe, hsees⟩
  obtain ⟨x, hx, hbounded⟩ := hruns as
  refine ⟨Nat.le_trans hbounded.id_le hx, fun t i ch hhead => ?_⟩
  -- the write that comes next is the last one a step later
  obtain ⟨y, hy, hnext⟩ := hruns (as ++ [.step t 0])
  have hlast := (System.next_head (M := parser writeFirst) hhead 0).2
  rw [System.run_concat, hlast] at hnext
  have hlt : i < y := hnext.write_lt t i ch 0 rfl
  have hmax : y ≤ 11 := hy
  omega

end Backwash.Sensor
