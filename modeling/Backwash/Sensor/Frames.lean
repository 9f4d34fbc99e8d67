import Backwash.Firmware.Obligations
import Backwash.Sensor.Double

/-! TdsWork.c: the water-hardness sensor.

`Tds_Work` asks the sensor for a reading and sets the parser's index back; the sensor
answers each request with a frame of eleven bytes, which come in through the serial
driver's queue; `data_parsing` fills its buffer from the queue and reads the value off it
when it is full. The index is set back by other threads, in the middle of an answer too, and
then the buffer holds the end of one answer and the beginning of the next. -/
namespace Backwash.Sensor
open Concurrent Prog Firmware

/-- An answer of the sensor. -/
structure Frame where
  bytes : List UInt8
  length_bytes : bytes.length = oneDataMaxlen
  begins : bytes.head? = some dataCmdBegin

/-- The reading in a buffer: bytes 4 and 5, in tenths. -/
def reading (b4 b5 : UInt8) : Nat := (256 * b4.toNat + b5.toNat) / 10

def Frame.reading (f : Frame) : Nat := Sensor.reading (f.bytes.getD 4 0) (f.bytes.getD 5 0)

/-! ### The parser and its line -/

/-- The firmware's variables, the parser's buffer and the bytes on their way to it. -/
structure Link where
  device : Device
  /-- `data`, the buffer on the stack of `data_parsing`. -/
  data : Nat → UInt8
  /-- What the serial driver has received and nobody has read. -/
  fifo : List UInt8
  /-- What the sensor has still to send. -/
  line : List UInt8

namespace Link

/-- `data_parsing_id`. -/
def id (s : Link) : Nat := s.device.vars .dataParsingId

/-- `TDS_Value`. -/
def value (s : Link) : Nat := s.device.vars .tdsValue

/-- The full buffer is read: `TDS_Value = (data[4]<<8)+data[5]`, then a tenth of it. -/
def publish (s : Link) : Link :=
  if s.data 0 = dataCmdBegin then
    {s with device := s.device.store .tdsValue (timesTenth ((s.data 4).toNat * 2 ^ 8 + (s.data 5).toNat))}
  else s

/-- `data[data_parsing_id++] = ch`. -/
def append (ch : UInt8) (s : Link) : Link :=
  {s with data := Function.update s.data s.id ch, device := s.device.store .dataParsingId (s.id + 1)}

/-- `data_parsing_id = 0`. -/
def restart (s : Link) : Link := {s with device := s.device.store .dataParsingId 0}

/-- A pass of the loop of `data_parsing`, with the character read. -/
def dataParsing (ch : UInt8) (s : Link) : Link :=
  if (s.append ch).id = oneDataMaxlen then (s.append ch).publish.restart else s.append ch

end Link

/-! ### The threads -/

/-- The threads of the firmware, the parser's, and the serial driver with the sensor behind it. -/
inductive LinkThread where
  | caller (t : Thread) | serial | uart
  deriving DecidableEq, Repr

/-- `rt_device_write` is the request, which the sensor will answer; `receive` is a byte of an
answer coming in; `parse` is a pass of `data_parsing`. -/
inductive LinkOp where
  | device (t : Thread) (o : Op) | deviceWrite | receive | parse
  deriving DecidableEq, Repr

@[reducible] def LinkRes : LinkOp → Type
  | .device _ o => Res o
  | _ => Unit

/-- A step of the link; `f` is the answer to a request. -/
def linkExec : (o : LinkOp) → Frame → Link → Link × LinkRes o
  | .device t o, _, s => ({s with device := (exec t o {} s.device).1}, (exec t o {} s.device).2)
  | .deviceWrite, f, s => ({s with line := s.line ++ f.bytes}, ())
  | .receive, _, s =>
    match s.line with
    | [] => (s, ())
    | b :: rest => ({s with line := rest, fifo := s.fifo ++ [b]}, ())
  -- without a character `uart_sample_get_char` waits
  | .parse, _, s =>
    match s.fifo with
    | [] => (s, ())
    | ch :: rest => (Link.dataParsing ch {s with fifo := rest}, ())

inductive LinkCall where
  | tdsWork (t : Thread) | dataParsing | receive
  deriving DecidableEq, Repr

/-- A function of the firmware, run by thread `t` of the link. -/
def lift (t : Thread) {α : Type} : Code α → Prog LinkRes α
  | .ret a => .ret a
  | .op o k => .op (.device t o) fun r => lift t (k r)

/-- `Tds_Work`: the variables, then the request. -/
def tdsRequest (t : Thread) : Prog LinkRes Unit := do
  let _ ← lift t tdsWork
  perform LinkOp.deviceWrite

/-- `Tds_Work` is called in the motor thread, in window 23 and from the shell. -/
def LinkCall.runs : LinkCall → LinkThread → Bool
  | .tdsWork t, u => u == .caller t && (t == .motor || t == .lcd || t == .shell)
  | .dataParsing, u => u == .serial
  | .receive, u => u == .uart

def link : System LinkRes LinkThread LinkCall Link Frame where
  exec := fun _ => linkExec
  body := fun c => match c with
    | .tdsWork t => tdsRequest t
    | .dataParsing => perform LinkOp.parse
    | .receive => perform LinkOp.receive
  ready := fun t c _ => c.runs t
  enter := fun _ s => s

abbrev LinkConf := Config LinkRes LinkThread LinkCall Link Frame
abbrev LinkAct := Action LinkThread LinkCall Frame
abbrev LinkTrace := List (Event LinkOp LinkThread LinkCall Frame)

/-- The link as the firmware starts it, with whatever is on the parser's stack. -/
def linkStart (flash : Nat → Nat) (data : Nat → UInt8) : LinkConf := .boot ⟨boot flash, data, [], []⟩

/-- The frames that the sensor has sent or begun to send. -/
def sent : LinkTrace → List Frame
  | [] => []
  | .did _ .deviceWrite f :: tr => sent tr ++ [f]
  | _ :: tr => sent tr

/-- `TDS_Value` becomes 0, stays, or becomes the reading of one frame. -/
def FromOneFrame (cfg cfg' : LinkConf) : Prop :=
  cfg'.state.value = 0 ∨ cfg'.state.value = cfg.state.value ∨ ∃ f ∈ sent cfg'.trace, cfg'.state.value = f.reading

instance (cfg cfg' : LinkConf) : Decidable (FromOneFrame cfg cfg') := inferInstanceAs (Decidable (_ ∨ _ ∨ ∃ _ ∈ _, _))

/-- A byte 0x55 that the parser takes as the first of its buffer is the first of an answer:
what is outstanding with it makes up whole answers. -/
def BeginsAnswer (cfg : LinkConf) : LinkAct → Prop
  | .step t _ => cfg.head t = some .parse → cfg.state.id = 0 → cfg.state.fifo.head? = some dataCmdBegin →
      oneDataMaxlen ∣ cfg.state.fifo.length + cfg.state.line.length
  | .start _ _ => True

instance (cfg : LinkConf) (a : LinkAct) : Decidable (BeginsAnswer cfg a) := by
  cases a <;> unfold BeginsAnswer <;> infer_instance

/-! ### Answers in a stream of bytes -/

/-- Among blocks of one length, as many bytes as a block has, where a block begins, are a block. -/
theorem mem_of_flatMap {α β : Type} {g : α → List β} {n : Nat} (hn : 0 < n) {xs : List α} (hg : ∀ x ∈ xs, (g x).length = n)
    {before block rest : List β} (h : xs.flatMap g = before ++ (block ++ rest)) (hb : n ∣ before.length)
    (hlen : block.length = n) : ∃ x ∈ xs, g x = block := by
  induction xs generalizing before with
  | nil =>
    have : (before ++ (block ++ rest)).length = 0 := by rw [← h]; rfl
    simp only [List.length_append] at this
    omega
  | cons x xs ih =>
    rw [List.flatMap_cons] at h
    have hx : (g x).length = n := hg x (List.mem_cons_self ..)
    rcases Nat.eq_zero_or_pos before.length with hzero | hpos
    · obtain rfl := List.eq_nil_of_length_eq_zero hzero
      rw [List.nil_append] at h
      exact ⟨x, List.mem_cons_self .., (List.append_inj h (by rw [hx, hlen])).1⟩
    · -- the block is not the first one
      have hle : n ≤ before.length := Nat.le_of_dvd hpos hb
      have hsplit : g x = before.take n ∧ xs.flatMap g = before.drop n ++ (block ++ rest) := by
        refine List.append_inj ?_ ?_
        · rw [h, ← List.append_assoc (before.take n), List.take_append_drop]
        · rw [hx, List.length_take, Nat.min_eq_left hle]
      obtain ⟨y, hy, hyb⟩ := ih (fun y hy => hg y (List.mem_cons_of_mem x hy)) hsplit.2
        (by rw [List.length_drop]; exact Nat.dvd_sub hb (Nat.dvd_refl n))
      exact ⟨y, List.mem_cons_of_mem x hy, hyb⟩

/-! ### The buffer -/

section
variable {s : Link}

/-- The bytes that the parser has put into its buffer. -/
def Link.window (s : Link) : List UInt8 := (List.range s.id).map s.data

theorem Link.length_window : s.window.length = s.id := by simp [Link.window]

theorem Link.id_append (h : s.id < oneDataMaxlen) (ch : UInt8) : (s.append ch).id = s.id + 1 := by
  have hlt : s.id + 1 < 2 ^ 8 := by unfold oneDataMaxlen at h; omega
  simpa [Link.append, Link.id, Device.store, Var.width] using Nat.mod_eq_of_lt hlt

theorem Link.window_append (h : s.id < oneDataMaxlen) (ch : UInt8) : (s.append ch).window = s.window ++ [ch] := by
  unfold Link.window
  rw [Link.id_append h, List.range_succ, List.map_append]
  have hkeep : ∀ i ∈ List.range s.id, (s.append ch).data i = s.data i := fun i hi => by
    have hlt : i < s.id := List.mem_range.mp hi
    simp [Link.append, Nat.ne_of_lt hlt]
  rw [List.map_congr_left hkeep]
  simp [Link.append]

theorem Link.window_get {i : Nat} (h : i < s.id) : s.window.getD i 0 = s.data i := by
  simp [Link.window, h]

/-- What is read off a buffer is the reading of its bytes. -/
theorem Link.value_publish : s.publish.value =
    if s.data 0 = dataCmdBegin then reading (s.data 4) (s.data 5) else s.value := by
  unfold Link.publish
  split
  · have h4 := (s.data 4).toNat_lt
    have h5 := (s.data 5).toNat_lt
    have htenth := timesTenth_eq (n := (s.data 4).toNat * 2 ^ 8 + (s.data 5).toNat) (by omega)
    simp only [Link.value, Device.store, Function.update_self, Var.width, htenth, reading]
    omega
  · rfl

@[simp] theorem Link.fifo_publish : s.publish.fifo = s.fifo := by unfold Link.publish; split <;> rfl
@[simp] theorem Link.line_publish : s.publish.line = s.line := by unfold Link.publish; split <;> rfl

@[simp] theorem Link.id_restart : s.restart.id = 0 := by simp [Link.restart, Link.id, Device.store]
@[simp] theorem Link.value_restart : s.restart.value = s.value := by simp [Link.restart, Link.value, Device.store]

theorem Link.window_nil (h : s.id = 0) : s.window = [] := by simp [Link.window, h]

theorem Link.head_window (h : 0 < s.id) : s.window.head? = some (s.data 0) := by
  unfold Link.window
  obtain ⟨n, hn⟩ := Nat.exists_eq_succ_of_ne_zero (Nat.ne_of_gt h)
  simp [hn, List.range_succ_eq_map]

end

/-! ### Where the parser is in the stream -/

/-- The bytes sent are those the parser has done with, those in its buffer and those on their
way; a buffer that begins with 0x55 begins with an answer. -/
structure InStream (s : Link) (tr : LinkTrace) (done : List UInt8) : Prop where
  stream : (sent tr).flatMap Frame.bytes = done ++ (s.window ++ (s.fifo ++ s.line))
  short : s.id < oneDataMaxlen
  begins : s.window.head? = some dataCmdBegin → oneDataMaxlen ∣ done.length

section
variable {s : Link} {tr : LinkTrace} {done : List UInt8}

theorem length_sent (tr : LinkTrace) : oneDataMaxlen ∣ ((sent tr).flatMap Frame.bytes).length := by
  induction sent tr with
  | nil => exact Nat.dvd_zero _
  | cons f fs ih =>
    rw [List.flatMap_cons, List.length_append, f.length_bytes]
    exact Nat.dvd_add (Nat.dvd_refl _) ih

/-- A step that leaves the index, the buffer and the bytes on their way. -/
theorem InStream.same {s' : Link} {tr' : LinkTrace} (h : InStream s tr done) (hid : s'.id = s.id) (hdata : s'.data = s.data)
    (hfifo : s'.fifo = s.fifo) (hline : s'.line = s.line) (hsent : sent tr' = sent tr) : InStream s' tr' done := by
  have hwindow : s'.window = s.window := by rw [Link.window, Link.window, hid, hdata]
  refine ⟨?_, by rw [hid]; exact h.short, by rw [hwindow]; exact h.begins⟩
  rw [hsent, hwindow, hfifo, hline]
  exact h.stream

/-- The index is set back: the buffer is given up. -/
theorem InStream.reset {s' : Link} {tr' : LinkTrace} (h : InStream s tr done) (hid : s'.id = 0) (hfifo : s'.fifo = s.fifo)
    (hline : s'.line = s.line) (hsent : sent tr' = sent tr) : InStream s' tr' (done ++ s.window) := by
  have hwindow := Link.window_nil hid
  refine ⟨?_, by rw [hid]; decide, by simp [hwindow]⟩
  rw [hsent, hwindow, hfifo, hline, List.nil_append, List.append_assoc]
  exact h.stream

theorem InStream.request (h : InStream s tr done) (t : LinkThread) (f : Frame) :
    InStream {s with line := s.line ++ f.bytes} (.did t .deviceWrite f :: tr) done := by
  refine ⟨?_, h.short, h.begins⟩
  show (sent tr ++ [f]).flatMap Frame.bytes = done ++ (s.window ++ (s.fifo ++ (s.line ++ f.bytes)))
  rw [List.flatMap_append, h.stream]
  simp

theorem InStream.receive (h : InStream s tr done) {b : UInt8} {rest : List UInt8} (hline : s.line = b :: rest)
    {t : LinkThread} {f : Frame} :
    InStream {s with line := rest, fifo := s.fifo ++ [b]} (.did t .receive f :: tr) done := by
  refine ⟨?_, h.short, h.begins⟩
  show (sent tr).flatMap Frame.bytes = done ++ (s.window ++ (s.fifo ++ [b] ++ rest))
  rw [h.stream, hline]
  simp

/-- With an empty buffer, what is done is whole answers if what is outstanding is. -/
theorem InStream.outstanding (h : InStream s tr done) (hid : s.id = 0) :
    oneDataMaxlen ∣ done.length ↔ oneDataMaxlen ∣ s.fifo.length + s.line.length := by
  have hall := length_sent tr
  rw [h.stream, Link.window_nil hid, List.nil_append, List.length_append, List.length_append] at hall
  exact ⟨fun hd => (Nat.dvd_add_right hd).mp hall, fun ho => (Nat.dvd_add_left ho).mp hall⟩

/-- A character is appended to the buffer. -/
theorem InStream.append (h : InStream s tr done) {ch : UInt8} {rest : List UInt8} (hfifo : s.fifo = ch :: rest)
    (hbegins : s.id = 0 → ch = dataCmdBegin → oneDataMaxlen ∣ s.fifo.length + s.line.length) :
    (sent tr).flatMap Frame.bytes = done ++ (({s with fifo := rest}.append ch).window ++ (rest ++ s.line)) ∧
      (({s with fifo := rest}.append ch).window.head? = some dataCmdBegin → oneDataMaxlen ∣ done.length) := by
  have hwindow : ({s with fifo := rest}.append ch).window = s.window ++ [ch] :=
    Link.window_append (s := {s with fifo := rest}) h.short ch
  rw [hwindow]
  refine ⟨by rw [h.stream, hfifo]; simp, fun hhead => ?_⟩
  rcases Nat.eq_zero_or_pos s.id with hzero | hpos
  · -- the first of a buffer: what is done makes up whole answers as well
    have hch : ch = dataCmdBegin := by simpa [Link.window_nil hzero] using hhead
    exact (h.outstanding hzero).mpr (hbegins hzero hch)
  · have hfirst := Link.head_window hpos
    rw [List.head?_append, hfirst] at hhead
    exact h.begins (hfirst.trans hhead)

/-- A full buffer that begins with 0x55 is an answer. -/
theorem reading_full {data : Nat → UInt8} {bytes rest : List UInt8}
    (hstream : (sent tr).flatMap Frame.bytes = done ++ (bytes ++ rest))
    (hlen : bytes.length = oneDataMaxlen) (hdata : ∀ i < oneDataMaxlen, bytes.getD i 0 = data i)
    (hbegins : oneDataMaxlen ∣ done.length) : ∃ f ∈ sent tr, reading (data 4) (data 5) = f.reading := by
  obtain ⟨f, hf, rfl⟩ := mem_of_flatMap (by decide) (fun f _ => f.length_bytes) hstream hbegins hlen
  refine ⟨f, hf, ?_⟩
  rw [← hdata 4 (by decide), ← hdata 5 (by decide)]
  rfl

theorem InStream.parse (h : InStream s tr done) {ch : UInt8} {rest : List UInt8} (hfifo : s.fifo = ch :: rest)
    (hbegins : s.id = 0 → ch = dataCmdBegin → oneDataMaxlen ∣ s.fifo.length + s.line.length) {t : LinkThread} {f : Frame} :
    (∃ done', InStream (Link.dataParsing ch {s with fifo := rest}) (.did t .parse f :: tr) done' ∧
        (oneDataMaxlen ∣ done.length → oneDataMaxlen ∣ done'.length)) ∧
      ((Link.dataParsing ch {s with fifo := rest}).value = s.value ∨
        ∃ f ∈ sent tr, (Link.dataParsing ch {s with fifo := rest}).value = f.reading) := by
  obtain ⟨hstream, hbegin⟩ := h.append hfifo hbegins
  have hid : ({s with fifo := rest}.append ch).id = s.id + 1 := Link.id_append (s := {s with fifo := rest}) h.short ch
  generalize hs' : Link.append ch {s with fifo := rest} = s' at *
  have hfifo' : s'.fifo = rest := by rw [← hs']; rfl
  have hline' : s'.line = s.line := by rw [← hs']; rfl
  have hvalue' : s'.value = s.value := by rw [← hs']; simp [Link.append, Link.value, Device.store]
  unfold Link.dataParsing
  rw [hs']
  split
  · next hfull =>
    have hnil : s'.publish.restart.window = [] := Link.window_nil Link.id_restart
    refine ⟨⟨done ++ s'.window, ⟨?_, by rw [Link.id_restart]; decide, by simp [hnil]⟩, fun hd => ?_⟩, ?_⟩
    · show (sent tr).flatMap Frame.bytes = _ ++ (s'.publish.restart.window ++ (s'.publish.fifo ++ s'.publish.line))
      rw [hnil, Link.fifo_publish, Link.line_publish, hfifo', hline', hstream]
      simp
    · rw [List.length_append, Link.length_window, hfull]
      exact Nat.dvd_add hd (Nat.dvd_refl _)
    · rw [Link.value_restart, Link.value_publish]
      split
      · next hfirst =>
        right
        have hpos : 0 < s'.id := by omega
        refine reading_full hstream (Link.length_window.trans hfull) (fun i hi => Link.window_get (by omega)) ?_
        exact hbegin (by rw [Link.head_window hpos, hfirst])
      · exact .inl hvalue'
  · next hfull =>
    have hshort : s.id < oneDataMaxlen := h.short
    refine ⟨⟨done, ⟨?_, by omega, hbegin⟩, id⟩, .inl hvalue'⟩
    rw [hfifo', hline']
    exact hstream

end

/-! ### Every run -/

/-- What the threads of the link do. -/
def linkMay : LinkOp → Bool
  | .device _ (.load _) => true
  | .device _ (.store v n) => (v == .tdsValue || v == .dataParsingId) && n == 0
  | .device _ _ => false
  | _ => true

theorem link_may (c : LinkCall) : (link.body c).All fun o => linkMay o = true := by
  cases c with
  | tdsWork t => exact ⟨rfl, fun _ => ⟨rfl, fun _ => ⟨rfl, fun _ => ⟨rfl, fun _ => trivial⟩⟩⟩⟩
  | _ => exact All.perform rfl

theorem link_heads (c : LinkCall) : (link.body c).Always fun p => ∀ o, p.head = some o → linkMay o = true := by
  refine Always.of_all (link_may c) (fun _ _ e => (by cases e)) fun o k ho o' e => ?_
  obtain rfl : o = o' := Option.some.inj e
  exact ho

/-- The index is set back. -/
def resets : LinkOp → Bool
  | .device _ (.store v _) => v == .dataParsingId
  | _ => false

/-- The threads keep to the table, and the parser is somewhere in the stream. -/
structure Tracked (cfg : LinkConf) (done : List UInt8) : Prop where
  may : System.Left (fun _ _ p => ∀ o, p.head = some o → linkMay o = true) cfg
  stream : InStream cfg.state cfg.trace done

/-- The index is set back only while the buffer is empty. -/
def ResetsBetween (cfg : LinkConf) : LinkAct → Prop
  | .step t _ => (cfg.head t).any resets = true → cfg.state.id = 0
  | .start _ _ => True

section
variable {cfg : LinkConf} {s : Link} {tr : LinkTrace} {done : List UInt8}

/-- What `Tds_Work` does to the firmware's variables. -/
theorem InStream.device (h : InStream s tr done) {t : Thread} {o : Op} (ho : linkMay (.device t o) = true) {u : LinkThread}
    {f : Frame} : (∃ done', InStream (linkExec (.device t o) f s).1 (.did u (.device t o) f :: tr) done' ∧
        ((resets (.device t o) = true → s.id = 0) → oneDataMaxlen ∣ done.length → oneDataMaxlen ∣ done'.length)) ∧
      ((linkExec (.device t o) f s).1.value = 0 ∨ (linkExec (.device t o) f s).1.value = s.value) := by
  cases o with
  | load v => exact ⟨⟨done, h.same rfl rfl rfl rfl rfl, fun _ => id⟩, .inr rfl⟩
  | store v n =>
    obtain ⟨hv, hn⟩ := Bool.and_eq_true_iff.mp ho
    obtain rfl : n = 0 := by simpa using hn
    rcases Bool.or_eq_true_iff.mp hv with hv | hv
    · obtain rfl : v = .tdsValue := by simpa using hv
      refine ⟨⟨done, h.same ?_ rfl rfl rfl rfl, fun _ => id⟩, .inl ?_⟩
      · simp [linkExec, exec, Link.id, Device.store]
      · simp [linkExec, exec, Link.value, Device.store]
    · obtain rfl : v = .dataParsingId := by simpa using hv
      refine ⟨⟨_, h.reset ?_ rfl rfl rfl, fun hid hd => ?_⟩, .inr ?_⟩
      · simp [linkExec, exec, Link.id, Device.store]
      · rw [Link.window_nil (hid rfl), List.append_nil]
        exact hd
      · simp [linkExec, exec, Link.value, Device.store]
  | _ => cases ho

theorem InStream.step (h : InStream s tr done) {o : LinkOp} (ho : linkMay o = true) {t : LinkThread} {f : Frame}
    (hr : o = .parse → s.id = 0 → s.fifo.head? = some dataCmdBegin → oneDataMaxlen ∣ s.fifo.length + s.line.length) :
    (∃ done', InStream (linkExec o f s).1 (.did t o f :: tr) done' ∧
        ((resets o = true → s.id = 0) → oneDataMaxlen ∣ done.length → oneDataMaxlen ∣ done'.length)) ∧
      ((linkExec o f s).1.value = 0 ∨ (linkExec o f s).1.value = s.value ∨
        ∃ f' ∈ sent (.did t o f :: tr), (linkExec o f s).1.value = f'.reading) := by
  cases o with
  | device u o =>
    obtain ⟨hstream, hvalue⟩ := h.device ho (u := t) (f := f)
    exact ⟨hstream, hvalue.imp id .inl⟩
  | deviceWrite => exact ⟨⟨done, h.request t f, fun _ => id⟩, .inr (.inl rfl)⟩
  | receive =>
    cases hline : s.line with
    | nil =>
      rw [show linkExec .receive f s = (s, ()) by simp [linkExec, hline]]
      exact ⟨⟨done, h.same rfl rfl rfl rfl rfl, fun _ => id⟩, .inr (.inl rfl)⟩
    | cons b rest =>
      rw [show linkExec .receive f s = ({s with line := rest, fifo := s.fifo ++ [b]}, ()) by simp [linkExec, hline]]
      exact ⟨⟨done, h.receive hline, fun _ => id⟩, .inr (.inl rfl)⟩
  | parse =>
    cases hfifo : s.fifo with
    | nil =>
      rw [show linkExec .parse f s = (s, ()) by simp [linkExec, hfifo]]
      exact ⟨⟨done, h.same rfl rfl rfl rfl rfl, fun _ => id⟩, .inr (.inl rfl)⟩
    | cons ch rest =>
      rw [show linkExec .parse f s = (Link.dataParsing ch {s with fifo := rest}, ()) by simp [linkExec, hfifo]]
      obtain ⟨hstream, hvalue⟩ := h.parse hfifo (fun hid hch => hr rfl hid (by rw [hfifo, hch]; rfl)) (t := t) (f := f)
      obtain ⟨done', hstream, hkeeps⟩ := hstream
      exact ⟨⟨done', hstream, fun _ => hkeeps⟩, .inr hvalue⟩

theorem Tracked.next (h : Tracked cfg done) {a : LinkAct} (hr : BeginsAnswer cfg a) :
    (∃ done', Tracked (link.next cfg a) done' ∧
      (ResetsBetween cfg a → oneDataMaxlen ∣ done.length → oneDataMaxlen ∣ done'.length)) ∧
    FromOneFrame cfg (link.next cfg a) := by
  have hleft := h.may.next (M := link) (fun _ c _ _ => link_heads c) a
  rcases System.next_cases (M := link) cfg a with hsame | ⟨t, c, rfl, ht, hready⟩ | ⟨t, f, c, o, k, rfl, ht⟩
  · rw [hsame]
    exact ⟨⟨done, h, fun _ => id⟩, .inr (.inl rfl)⟩
  · rw [System.next_start ht hready] at hleft ⊢
    exact ⟨⟨done, ⟨hleft, h.stream.same rfl rfl rfl rfl rfl⟩, fun _ => id⟩, .inr (.inl rfl)⟩
  · have hhead : cfg.head t = some o := by simp [Config.head, ht, Prog.head]
    have ho : linkMay o = true := (h.may t c _ ht).1 o rfl
    obtain ⟨⟨done', hstep, hkeeps⟩, hvalue⟩ := h.stream.step ho (t := t) (f := f) fun e => hr (e ▸ hhead)
    rw [System.next_step ht] at hleft ⊢
    exact ⟨⟨done', ⟨hleft, hstep⟩, fun hreset => hkeeps fun he => hreset (by simp [hhead, he])⟩, hvalue⟩

/-- With the parser between answers a buffer begins where an answer does. -/
theorem Tracked.beginsAnswer (h : Tracked cfg done) (hd : oneDataMaxlen ∣ done.length) (a : LinkAct) :
    BeginsAnswer cfg a := by
  cases a with
  | start t c => trivial
  | step t f => exact fun _ hid _ => (h.stream.outstanding hid).mp hd

end

theorem tracked_boot {s : Link} (hid : s.id = 0) (hfifo : s.fifo = []) (hline : s.line = []) : Tracked (.boot s) [] := by
  have hnil := Link.window_nil hid
  refine ⟨System.Left.boot _ _, ?_, by show s.id < oneDataMaxlen; rw [hid]; decide, ?_⟩
  · show [] = [] ++ (s.window ++ (s.fifo ++ s.line))
    rw [hnil, hfifo, hline]
    rfl
  · show s.window.head? = some dataCmdBegin → _
    simp [hnil]

theorem tracked_start (flash : Nat → Nat) (data : Nat → UInt8) : Tracked (linkStart flash data) [] := by
  have hid : (boot flash).vars .dataParsingId = 0 := boot_vars (fun _ => rfl) (fun _ => by simp) (by decide) flash
  unfold linkStart
  exact tracked_boot hid rfl rfl

/-- `TDS_Value` always comes from one frame, in every run where the parser takes no other
0x55 for the first byte of an answer. -/
theorem reading_from_one_frame (flash : Nat → Nat) (data : Nat → UInt8) (as : List LinkAct) (a : LinkAct)
    (h : link.Admits BeginsAnswer (linkStart flash data) (as ++ [a])) :
    FromOneFrame (link.run (linkStart flash data) as) (link.run (linkStart flash data) (as ++ [a])) := by
  obtain ⟨has, ha⟩ := System.admits_append.mp h
  obtain ⟨done, htracked⟩ := System.run_invariant (fun cfg => ∃ done, Tracked cfg done)
    (fun _ _ ⟨_, ht⟩ hr => (ht.next hr).1.imp fun _ h => h.1) ⟨[], tracked_start flash data⟩ has
  rw [System.run_concat]
  exact (htracked.next ha.1).2

/-- It does as long as `Tds_Work` sets the index back between two answers only. -/
theorem admits_of_resetsBetween {cfg : LinkConf} {done : List UInt8} (h : Tracked cfg done) (hd : oneDataMaxlen ∣ done.length)
    {as : List LinkAct} (ha : link.Admits ResetsBetween cfg as) : link.Admits BeginsAnswer cfg as := by
  induction as generalizing cfg done with
  | nil => trivial
  | cons a rest ih =>
    have hbegins := h.beginsAnswer hd a
    obtain ⟨⟨done', hnext, hkeeps⟩, -⟩ := h.next hbegins
    exact ⟨hbegins, ih hnext (hkeeps ha.1 hd) ha.2⟩

/-! ### Some runs -/

/-- Hardness 100, and one with a 0x55 and another number inside. -/
def hundred : Frame := ⟨[0x55, 7, 5, 1, 3, 0xe8, 0, 0, 0, 0, 0x62], rfl, rfl⟩
def misleading : Frame := ⟨[0x55, 7, 5, 0x55, 0, 0, 0, 1, 0, 0, 0x62], rfl, rfl⟩

/-- Thread `t` asks, and the sensor will answer with `f`. -/
def asks (t : Thread) (f : Frame) : List LinkAct :=
  .start (.caller t) (.tdsWork t) :: List.replicate 4 (.step (.caller t) f)

def receives (n : Nat) : List LinkAct :=
  (List.replicate n [.start .uart .receive, .step .uart hundred]).flatten

def parses (n : Nat) : List LinkAct :=
  (List.replicate n [.start .serial .dataParsing, .step .serial hundred]).flatten

theorem reading_from_one_frame_hundred :
    link.Admits BeginsAnswer (linkStart (fun _ => 0) fun _ => 0)
      (asks .motor hundred ++ receives 11 ++ parses 10 ++ [.start .serial .dataParsing] ++ [.step .serial hundred]) ∧
    FromOneFrame
      (link.run (linkStart (fun _ => 0) fun _ => 0)
        (asks .motor hundred ++ receives 11 ++ parses 10 ++ [.start .serial .dataParsing]))
      (link.run (linkStart (fun _ => 0) fun _ => 0)
        (asks .motor hundred ++ receives 11 ++ parses 10 ++ [.start .serial .dataParsing] ++ [.step .serial hundred])) :=
  ⟨by decide +kernel, reading_from_one_frame (fun _ => 0) (fun _ => 0) _ _ (by decide +kernel)⟩

/-- Window 23 asks when the parser has taken three bytes of the motor thread's answer: it goes
on with the second 0x55 of that answer and ends in the next one. -/
theorem reading_from_two_frames :
    ¬ FromOneFrame
      (link.run (linkStart (fun _ => 0) fun _ => 0)
        (asks .motor misleading ++ receives 11 ++ parses 3 ++ asks .lcd hundred ++ receives 11 ++ parses 10 ++
          [.start .serial .dataParsing]))
      (link.run (linkStart (fun _ => 0) fun _ => 0)
        (asks .motor misleading ++ receives 11 ++ parses 3 ++ asks .lcd hundred ++ receives 11 ++ parses 10 ++
          [.start .serial .dataParsing] ++ [.step .serial hundred])) := by
  decide +kernel

end Backwash.Sensor
