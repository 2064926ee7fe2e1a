import Uniset.Modbus.Calls
import Uniset.ModbusSlave.ForceCoils
import Uniset.ModbusSlave.WriteThenRead

/-! The registers of a slave as a client on the line sees them. -/

namespace Uniset.ModbusSlave

open Uniset.Lib Uniset.Modbus Uniset.Extensions SlaveFunctionCode ModbusServer

section Handlers

variable (conf : MBSlave) (iomap : ModbusAddr → Option RegMap) (myaddr : ModbusAddr) (s : Sensors)

/-- The handlers of a slave for the requests of several registers.  The other requests are left to
`other`, and so is what a handler would do outside of its buffers. -/
def handlers (other : Handlers) : Handlers :=
  { other with
    readOutputRegisters query :=
      match regmapOf iomap myaddr query.addr with
      | none => (erTimeOut, .ofData [])
      | some m => (readRegisters conf s m fnReadOutputRegisters query.body.start query.body.count
          (.ofData [])).getD (other.readOutputRegisters query)
    readInputRegisters query :=
      match regmapOf iomap myaddr query.addr with
      | none => (erTimeOut, .ofData [])
      | some m => (readRegisters conf s m fnReadInputRegisters query.body.start query.body.count
          (.ofData [])).getD (other.readInputRegisters query)
    readCoilStatus query :=
      match regmapOf iomap myaddr query.addr with
      | none => (erTimeOut, .clear)
      | some m => readStatus conf s m fnReadCoilStatus query.body.start query.body.count .clear
    readInputStatus query :=
      match regmapOf iomap myaddr query.addr with
      | none => (erTimeOut, .clear)
      | some m => readStatus conf s m fnReadInputStatus query.body.start query.body.count .clear
    forceMultipleCoils query :=
      match forceMultipleCoils conf iomap myaddr query.addr query.body ⟨0, 0⟩ with
      | some res => (res.code, res.reply)
      | none => other.forceMultipleCoils query
    writeOutputRegisters query :=
      match regmapOf iomap myaddr query.addr with
      | none => (erTimeOut, ⟨0, 0⟩)
      | some m =>
        match writeOutputRegisters query.body.data conf m query.body.start with
        | some (ret, _) =>
          (ret, if ret = erNoError then ⟨query.body.start, query.body.quant⟩ else ⟨0, 0⟩)
        | none => other.writeOutputRegisters query }

/-- What the slave has for the registers of a range that lies inside of its function. -/
def rangeWords (m : RegMap) (f : SlaveFunctionCode) (start count : ModbusData) :
    Except mbErrCode (List ModbusData) :=
  if count = 0 then .error erBadDataValue
  else if count = 1 then (real_read conf s m start f.code).map fun d => [d]
  else if (List.range count.toNat).any fun i => (registerAt conf m f start i).isSome then
    .ok ((List.range count.toNat).map (singleRead conf s m f start))
  else .error erBadDataAddress

end Handlers

/-- What a client gets for words, or for an error of which it may not be told. -/
def received (addr : ModbusAddr) (f : SlaveFunctionCode) :
    Except mbErrCode (List ModbusData) → Except mbErrCode (Message WordsRet)
  | .ok ds => .ok ⟨addr, f.code, .ofData ds, 0⟩
  | .error err => .error (if err.code < erInternalErrorCode.code then err else erTimeOut)

section Reading

variable {conf : MBSlave} {iomap : ModbusAddr → Option RegMap} {myaddr : ModbusAddr}
  {s : Sensors} {m : RegMap} {f : SlaveFunctionCode} {start count : ModbusData}

theorem inside_of_le (hinside : start.toNat + count.toNat ≤ 65536) :
    EndsInside conf m f start count := by
  constructor
  · intro i hi hpast
    omega
  · rintro ⟨i, hi, hpast, -⟩
    omega

theorem found_iff_any (hinside : start.toNat + count.toNat ≤ 65536) :
    Found conf m f start count ↔
      (List.range count.toNat).any (fun i => (registerAt conf m f start i).isSome) = true := by
  rw [(inside_of_le hinside).found_iff, List.any_eq_true]
  simp only [List.mem_range]

/-- A handler has put these words into its reply, or returns this error. -/
def AnsweredAs (count : ModbusData) (handled : mbErrCode × WordsRet) :
    Except mbErrCode (List ModbusData) → Prop
  | .ok ds => handled.1 = erNoError ∧ handled.2 = .ofData ds ∧ ds.length = count.toNat
  | .error err => handled.1 = err ∧ err ≠ erNoError

/-- The handler of a request for words answers with what the slave has for them. -/
theorem readRegisters_rangeWords (hlimit : count.toNat ≤ MAXDATALEN)
    (hinside : start.toNat + count.toNat ≤ 65536)
    (hread : real_read conf s m start f.code ≠ .error erNoError) :
    ∃ handled, readRegisters conf s m f start count (.ofData []) = some handled ∧
      AnsweredAs count handled (rangeWords conf s m f start count) := by
  unfold rangeWords
  by_cases hzero : count = 0
  · exact ⟨_, if_pos hzero, by rw [if_pos hzero]; exact ⟨rfl, by decide⟩⟩
  by_cases hone : count = 1
  · rw [if_neg hzero, if_pos hone, readRegisters, if_neg hzero, if_pos hone]
    cases h : real_read conf s m start f.code with
    | ok d => exact ⟨_, rfl, rfl, rfl, by rw [hone]; rfl⟩
    | error err => exact ⟨_, rfl, rfl, fun herr => hread (h.trans (congrArg Except.error herr))⟩
  have htwo : 2 ≤ count.toNat := by
    have h0 : count.toNat ≠ 0 := fun h => hzero (UInt16.toNat_inj.mp h)
    have h1 : count.toNat ≠ 1 := fun h => hone (UInt16.toNat_inj.mp h)
    omega
  rw [if_neg hzero, if_neg hone, readRegisters_eq conf s m f start htwo hlimit]
  by_cases hfound : Found conf m f start count
  · rw [if_pos hfound, if_pos ((found_iff_any hinside).mp hfound)]
    refine ⟨_, rfl, rfl, congrArg WordsRet.ofData (List.map_congr_left fun i hi => ?_), by simp⟩
    exact (inside_of_le hinside).rangeValue_eq (List.mem_range.mp hi)
  · rw [if_neg hfound, if_neg fun hany => hfound ((found_iff_any hinside).mpr hany)]
    exact ⟨_, rfl, rfl, by decide⟩

variable {addr : ModbusAddr} {handled : mbErrCode × WordsRet}
  {x : Except mbErrCode (List ModbusData)}

/-- What the handler returns goes to the client, or an error of it. -/
theorem AnsweredAs.outcome (h : AnsweredAs count handled x) (haddr : addr ≠ BroadcastAddr) :
    (if handled.1 = erNoError then
      if decide (handled.2.data.length = count.toNat) then
        Except.ok (⟨addr, f.code, handled.2, 0⟩ : Message WordsRet)
      else .error erBadDataValue
    else if handled.1.code < erInternalErrorCode.code ∧ addr ≠ BroadcastAddr then
      .error handled.1
    else .error erTimeOut) = received addr f x := by
  cases x with
  | ok ds =>
    obtain ⟨hcode, hreply, hlen⟩ := h
    rw [if_pos hcode, hreply]
    exact if_pos (decide_eq_true hlen)
  | error err =>
    obtain ⟨hcode, hne⟩ := h
    rw [hcode, if_neg hne, received]
    simp only [and_iff_left haddr]
    split <;> rfl

theorem AnsweredAs.fits (h : AnsweredAs count handled x) (hlimit : count.toNat ≤ MAXDATALEN)
    (hok : handled.1 = erNoError) : ∃ ds, handled.2 = .ofData ds ∧ ds.length ≤ 127 := by
  cases x with
  | ok ds => exact ⟨ds, h.2.1, by rw [h.2.2]; exact Nat.le_trans hlimit (by decide)⟩
  | error err => exact absurd (h.1.symm.trans hok) h.2

variable {vaddr : List ModbusAddr} {other : Handlers} {qbuf : ModbusMessage}

section Calls

variable (hmap : regmapOf iomap myaddr addr = some m) (haddr : checkAddr vaddr addr)
  (hbroadcast : addr ≠ BroadcastAddr) (hinside : start.toNat + count.toNat ≤ 65536)
  (hread : ∀ g : SlaveFunctionCode, real_read conf s m start g.code ≠ .error erNoError)
  (hhead : qbuf.mbaphead.len = 0) (qreply : ModbusMessage)
include hmap haddr hbroadcast hinside hread hhead

theorem read03_returns :
    (ModbusClient.read03 addr start count).returns ((ModbusClient.read03 addr start count).call
        false (realReceive false vaddr (handlers conf iomap myaddr s other)) qbuf qreply) =
      if count.toNat ≤ MAXDATALEN then
        received addr fnReadOutputRegisters (rangeWords conf s m fnReadOutputRegisters start count)
      else .error erTimeOut := by
  by_cases hlimit : count.toNat ≤ MAXDATALEN
  · obtain ⟨handled, heq, hanswered⟩ := readRegisters_rangeWords hlimit hinside (hread _)
    have hhandler : ∀ v, v.Same (ModbusClient.read03 addr start count).msg →
        (handlers conf iomap myaddr s other).readOutputRegisters v = handled := by
      rintro v ⟨haddr', -, hbody⟩
      simp only [handlers]
      rw [show v.addr = addr from haddr', show v.body = ⟨start, count⟩ from hbody, hmap]
      dsimp only
      rw [heq, Option.getD_some]
    rw [if_pos hlimit]
    exact ((Call.read03 addr start count).returns_of_handled (h := handlers conf iomap myaddr s other)
      SlaveFunctionCode.noConfusion hlimit haddr hhandler (hanswered.fits hlimit) hhead
      qreply).trans (hanswered.outcome hbroadcast)
  · rw [if_neg hlimit]
    exact (Call.read03 addr start count).returns_refused hlimit haddr hhead qreply

theorem read04_returns :
    (ModbusClient.read04 addr start count).returns ((ModbusClient.read04 addr start count).call
        false (realReceive false vaddr (handlers conf iomap myaddr s other)) qbuf qreply) =
      if count.toNat ≤ MAXDATALEN then
        received addr fnReadInputRegisters (rangeWords conf s m fnReadInputRegisters start count)
      else .error erTimeOut := by
  by_cases hlimit : count.toNat ≤ MAXDATALEN
  · obtain ⟨handled, heq, hanswered⟩ := readRegisters_rangeWords hlimit hinside (hread _)
    have hhandler : ∀ v, v.Same (ModbusClient.read04 addr start count).msg →
        (handlers conf iomap myaddr s other).readInputRegisters v = handled := by
      rintro v ⟨haddr', -, hbody⟩
      simp only [handlers]
      rw [show v.addr = addr from haddr', show v.body = ⟨start, count⟩ from hbody, hmap]
      dsimp only
      rw [heq, Option.getD_some]
    rw [if_pos hlimit]
    exact ((Call.read04 addr start count).returns_of_handled (h := handlers conf iomap myaddr s other)
      SlaveFunctionCode.noConfusion hlimit haddr hhandler (hanswered.fits hlimit) hhead
      qreply).trans (hanswered.outcome hbroadcast)
  · rw [if_neg hlimit]
    exact (Call.read04 addr start count).returns_refused hlimit haddr hhead qreply

end Calls

/-- A client that reads words of a slave gets what the slave has for them: the words of the registers
that exist and zeros between them, an error if there is no register or the only one cannot be read,
and nothing if it asks for too many. -/
theorem read_returns (hmap : regmapOf iomap myaddr addr = some m) (haddr : checkAddr vaddr addr)
    (hbroadcast : addr ≠ BroadcastAddr) (hinside : start.toNat + count.toNat ≤ 65536)
    (hread : ∀ g : SlaveFunctionCode, real_read conf s m start g.code ≠ .error erNoError)
    (hhead : qbuf.mbaphead.len = 0) (qreply : ModbusMessage) :
    let line := realReceive false vaddr (handlers conf iomap myaddr s other)
    let read03 := ModbusClient.read03 addr start count
    let read04 := ModbusClient.read04 addr start count
    (read03.returns (read03.call false line qbuf qreply) =
      if count.toNat ≤ MAXDATALEN then
        received addr fnReadOutputRegisters (rangeWords conf s m fnReadOutputRegisters start count)
      else .error erTimeOut) ∧
    (read04.returns (read04.call false line qbuf qreply) =
      if count.toNat ≤ MAXDATALEN then
        received addr fnReadInputRegisters (rangeWords conf s m fnReadInputRegisters start count)
      else .error erTimeOut) :=
  ⟨read03_returns hmap haddr hbroadcast hinside hread hhead qreply,
    read04_returns hmap haddr hbroadcast hinside hread hhead qreply⟩

end Reading

/-- A slave with register 1 of function 4, whose sensors have the value 7. -/
theorem read_returns_two :
    let line := realReceive false [5] (handlers ⟨true, false, 0⟩ (fun _ => some inputRegister) 5
      ⟨fun _ => .ok false, fun _ => .ok 7, fun _ => .ok 0⟩ .unset)
    let read03 := ModbusClient.read03 5 1 2
    let read04 := ModbusClient.read04 5 1 2
    read03.returns (read03.call false line .new .new) = .error erBadDataAddress ∧
      read04.returns (read04.call false line .new .new) =
        .ok ⟨5, fnReadInputRegisters.code, .ofData [7, 0], 0⟩ :=
  @read_returns ⟨true, false, 0⟩ _ _ ⟨fun _ => .ok false, fun _ => .ok 7, fun _ => .ok 0⟩
    inputRegister 1 2 5 [5] .unset .new rfl (by decide)
    (by decide) (by decide) (by intro g; cases g <;> decide) rfl .new

section Writing

open WriteOutputMessage in
/-- The words that have been added to a request. -/
theorem foldl_addData {w : WriteRequest ModbusData} (h : Counted w) (ds : List ModbusData)
    (hlen : w.data.length + ds.length ≤ MAXDATALEN) :
    (ds.foldl addData w).start = w.start ∧ (ds.foldl addData w).data = w.data ++ ds := by
  induction ds generalizing w with
  | nil => exact ⟨rfl, (List.append_nil _).symm⟩
  | cons d ds ih =>
    have hroom : ¬isFull w := by
      rw [List.length_cons] at hlen
      unfold isFull
      rw [h.quant]
      omega
    have hadd : addData w d = { w with
        data := w.data ++ [d]
        quant := w.quant + 1
        bcnt := UInt8.ofNat ((w.quant + 1).toNat * sizeofModbusData) } := if_neg hroom
    obtain ⟨hstart, hdata⟩ := ih (counted_addData h d) (by
      rw [hadd, List.length_append, List.length_singleton]
      rw [List.length_cons] at hlen
      omega)
    rw [List.foldl_cons, hstart, hdata, hadd]
    exact ⟨rfl, List.append_assoc _ _ _⟩

variable {conf : MBSlave} {iomap : ModbusAddr → Option RegMap} {myaddr addr : ModbusAddr}
  {m : RegMap} {s : Sensors} {vaddr : List ModbusAddr} {other : Handlers} {qbuf : ModbusMessage}
  {it : Item} {b : IOBase} {v : VType} {dat : List ModbusData}

/-- The request for words with all of these. -/
def writeRequest (start : ModbusData) (dat : List ModbusData) : WriteRequest ModbusData :=
  dat.foldl WriteOutputMessage.addData (WriteOutputMessage.new start)

theorem writeRequest_eq {start : ModbusData} (hlen : dat.length ≤ MAXDATALEN) :
    (writeRequest start dat).start = start ∧ (writeRequest start dat).data = dat ∧
      (writeRequest start dat).quant = UInt16.ofNat dat.length := by
  obtain ⟨hstart, hdata⟩ := foldl_addData (WriteOutputMessage.counted_new start) dat
    (by rw [Nat.add_comm]; exact hlen)
  have hquant := (Call.counted_registers start dat).quant
  refine ⟨hstart, hdata, ?_⟩
  rw [← UInt16.toNat_inj, UInt16.toNat_ofNat']
  rw [hdata] at hquant
  have hlen' : dat.length ≤ 125 := hlen
  refine hquant.trans ?_
  change dat.length = _
  omega

/-- A client that writes words to a slave is told so. -/
theorem write10_returns {start : ModbusData} {ws : List Write}
    (hmap : regmapOf iomap myaddr addr = some m) (haddr : checkAddr vaddr addr)
    (hlen : dat.length ≤ MAXDATALEN)
    (hwrite : writeOutputRegisters dat conf m start = some (erNoError, ws))
    (hhead : qbuf.mbaphead.len = 0) (qreply : ModbusMessage) :
    (ModbusClient.write10 addr (writeRequest start dat)).returns
        ((ModbusClient.write10 addr (writeRequest start dat)).call false
          (realReceive false vaddr (handlers conf iomap myaddr s other)) qbuf qreply) =
      .ok ⟨addr, fnWriteOutputRegisters.code, ⟨start, UInt16.ofNat dat.length⟩, 0⟩ := by
  obtain ⟨hstart, hdata, hquant⟩ := @writeRequest_eq _ start hlen
  have hhandler : ∀ v, v.Same (ModbusClient.write10 addr (writeRequest start dat)).msg →
      (handlers conf iomap myaddr s other).writeOutputRegisters v =
        (erNoError, ⟨start, UInt16.ofNat dat.length⟩) := by
    rintro v ⟨haddr', -, hbody⟩
    simp only [handlers]
    rw [show v.addr = addr from haddr', show v.body = writeRequest start dat from hbody, hmap]
    dsimp only
    rw [hdata, hstart, hwrite, hquant]
    rfl
  refine ((Call.write10 addr start dat).returns_of_handled
    (h := handlers conf iomap myaddr s other) SlaveFunctionCode.noConfusion trivial haddr hhandler
    (fun _ => trivial) hhead qreply).trans ?_
  exact if_pos (decide_eq_true ⟨hstart.symm, hquant.symm⟩)

/-- The sensors of a register that may be read give a word. -/
theorem exists_real_read_prop {p : IOProperty} (hmode : p.amode ≠ .amWO) (mode : Mode)
    (before after : Int) : ∃ d, real_read_prop (sensorsAfter b mode before after) p = .ok d := by
  unfold real_read_prop
  rw [if_neg hmode]
  split
  · exact ⟨_, rfl⟩
  · unfold analogWord
    split <;> exact ⟨_, rfl⟩

/-- The handler of a request for the registers of one sensor. -/
theorem readRegisters_sensor {f : SlaveFunctionCode} (hreach : Reaches conf m it f.code)
    (hmode : it.amode = .amRW) (mode : Mode) (before after : Int) :
    readRegisters conf (sensorsAfter b mode before after) m f it.mbreg (UInt16.ofNat it.wsize)
        (.ofData []) = some (erNoError, .ofData (wordsRead b mode it before after)) := by
  have hpos := wsize_pos it
  have hle : it.wsize ≤ 4 := VType.wsize_le _
  have hcount : (UInt16.ofNat it.wsize).toNat = it.wsize := by
    rw [UInt16.toNat_ofNat']
    omega
  have hzero : UInt16.ofNat it.wsize ≠ 0 := fun h => by
    rw [h] at hcount
    exact absurd hcount.symm (Nat.ne_of_gt hpos)
  have hlength : (wordsRead b mode it before after).length = it.wsize := by simp [wordsRead]
  by_cases hone : it.wsize = 1
  · have hmode' : (it.word 0).amode ≠ .amWO := by
      change it.amode ≠ _
      rw [hmode]
      decide
    obtain ⟨d, hd⟩ := exists_real_read_prop (b := b) hmode' mode before after
    have hread : real_read conf (sensorsAfter b mode before after) m it.mbreg f.code = .ok d := by
      have hfirst := hreach 0 hpos
      rw [Nat.add_zero] at hfirst
      rw [real_read, hfirst]
      exact hd
    have hwords : wordsRead b mode it before after = [d] := by
      unfold wordsRead
      rw [hone]
      exact congrArg (fun x => [readValue x]) hd
    have hcount' : UInt16.ofNat it.wsize = 1 := congrArg UInt16.ofNat hone
    rw [readRegisters, if_neg hzero, if_pos hcount', hread, hwords]
    rfl
  · have hone' : UInt16.ofNat it.wsize ≠ 1 := fun h => by
      rw [h] at hcount
      exact hone hcount.symm
    rw [readRegisters, if_neg hzero, if_neg hone', hcount, much_read_eq hreach]
    change (if bufLength < (wordsRead b mode it before after).length then none
      else if erNoError = erNoError then
        some (erNoError, (wordsRead b mode it before after).foldl WordsRet.addData (.ofData []))
      else _) = _
    have hbuf : ¬bufLength < it.wsize := Nat.not_lt_of_le (Nat.le_trans hle (by decide))
    rw [hlength, if_neg hbuf, if_pos rfl, WordsRet.foldl_addData (Nat.zero_le _), List.nil_append,
      List.take_of_length_le]
    rw [hlength]
    exact Nat.le_trans hle (by decide)

/-- A client that reads the registers of one sensor. -/
theorem read03_sensor (hmap : regmapOf iomap myaddr addr = some m) (haddr : checkAddr vaddr addr)
    (hreach : Reaches conf m it fnReadOutputRegisters.code) (hmode : it.amode = .amRW)
    (mode : Mode) (before after : Int) (hhead : qbuf.mbaphead.len = 0) (qreply : ModbusMessage) :
    (ModbusClient.read03 addr it.mbreg (UInt16.ofNat it.wsize)).returns
        ((ModbusClient.read03 addr it.mbreg (UInt16.ofNat it.wsize)).call false
          (realReceive false vaddr
            (handlers conf iomap myaddr (sensorsAfter b mode before after) other)) qbuf qreply) =
      .ok ⟨addr, fnReadOutputRegisters.code, .ofData (wordsRead b mode it before after), 0⟩ := by
  have hle : it.wsize ≤ 4 := VType.wsize_le _
  have hcount : (UInt16.ofNat it.wsize).toNat = it.wsize := by
    rw [UInt16.toNat_ofNat']
    omega
  have hlength : (wordsRead b mode it before after).length = it.wsize := by simp [wordsRead]
  have hhandler : ∀ v, v.Same (ModbusClient.read03 addr it.mbreg (UInt16.ofNat it.wsize)).msg →
      (handlers conf iomap myaddr (sensorsAfter b mode before after) other).readOutputRegisters v =
        (erNoError, .ofData (wordsRead b mode it before after)) := by
    rintro v ⟨haddr', -, hbody⟩
    simp only [handlers]
    rw [show v.addr = addr from haddr',
      show v.body = ⟨it.mbreg, UInt16.ofNat it.wsize⟩ from hbody, hmap]
    dsimp only
    rw [readRegisters_sensor hreach hmode, Option.getD_some]
  refine ((Call.read03 addr it.mbreg (UInt16.ofNat it.wsize)).returns_of_handled
    (h := handlers conf iomap myaddr (sensorsAfter b mode before after) other)
    SlaveFunctionCode.noConfusion ?_ haddr hhandler (fun _ => ⟨_, rfl, ?_⟩) hhead qreply).trans ?_
  · change (UInt16.ofNat it.wsize).toNat ≤ 125
    omega
  · rw [hlength]
    exact Nat.le_trans hle (by decide)
  · exact if_pos (decide_eq_true (hlength.trans hcount.symm))

/-- A client writes the words of a sensor and reads them again: it is told that they are written, and
gets the words it wrote, whatever the sensor had before, exactly if they can come back. -/
theorem write_read_iff {mode : Mode} (hmap : regmapOf iomap myaddr addr = some m)
    (haddr : checkAddr vaddr addr)
    (hwrite : Reaches conf m it (conf.getOptimizeWriteFunction fnWriteOutputRegisters.code))
    (hread : Reaches conf m it fnReadOutputRegisters.code) (hmode : it.amode = .amRW)
    (hstype : b.stype = it.stype) (hv : it.vtype = some v) (hne : v ≠ .vtUnknown)
    (hlength : dat.length = it.wsize) (hhead : qbuf.mbaphead.len = 0) (qreply : ModbusMessage) :
    let slave := fun s => realReceive false vaddr (handlers conf iomap myaddr s other)
    let write10 := ModbusClient.write10 addr (writeRequest it.mbreg dat)
    let read03 := ModbusClient.read03 addr it.mbreg (UInt16.ofNat it.wsize)
    ∃ w, writeOutputRegisters dat conf m it.mbreg = some (erNoError, [w]) ∧
      (∀ s, write10.returns (write10.call false (slave s) qbuf qreply) =
        .ok ⟨addr, fnWriteOutputRegisters.code, ⟨it.mbreg, UInt16.ofNat it.wsize⟩, 0⟩) ∧
      ((∀ before, read03.returns (read03.call false
          (slave (sensorsAfter b mode before (processed b w.value))) qbuf qreply) =
        .ok ⟨addr, fnReadOutputRegisters.code, .ofData dat, 0⟩) ↔ CanComeBack b mode it dat) := by
  have hwritten := writeOutputRegisters_eq hwrite hmode hlength
  have hle : it.wsize ≤ 4 := VType.wsize_le _
  refine ⟨_, hwritten, fun s => ?_, ?_⟩
  · rw [← hlength]
    refine write10_returns hmap haddr ?_ hwritten hhead qreply
    rw [hlength]
    exact Nat.le_trans hle (by decide)
  · rw [← readsBack_iff_kept hwrite hread hmode hstype hv hne hlength,
      readsBack_iff hwrite hread hmode hlength]
    refine forall_congr' fun before => ?_
    rw [read03_sensor hmap haddr hread hmode mode before _ hhead qreply]
    constructor
    · intro h
      exact congrArg (fun x : Message WordsRet => x.body.data) (Except.ok.inj h)
    · intro h
      rw [h]

end Writing

/-- The float 2 is written to register 5 and read again. -/
theorem write_read_two :
    let slave := fun s =>
      realReceive false [5] (handlers ⟨false, false, 0⟩ (fun _ => some floatMap) 5 s .unset)
    let write10 := ModbusClient.write10 5 (writeRequest 5 [0, 0x4000])
    let read03 := ModbusClient.read03 5 5 2
    ∃ w, writeOutputRegisters [0, 0x4000] ⟨false, false, 0⟩ floatMap 5 = some (erNoError, [w]) ∧
      (∀ s, write10.returns (write10.call false (slave s) .new .new) =
        .ok ⟨5, fnWriteOutputRegisters.code, ⟨5, 2⟩, 0⟩) ∧
      ((∀ before, read03.returns (read03.call false (slave (sensorsAfter
          ⟨.AI, false, false, false, 1⟩ ⟨true, false⟩ before
          (processed ⟨.AI, false, false, false, 1⟩ w.value))) .new .new) =
        .ok ⟨5, fnReadOutputRegisters.code, .ofData [0, 0x4000], 0⟩) ↔
        CanComeBack ⟨.AI, false, false, false, 1⟩ ⟨true, false⟩ floatItem [0, 0x4000]) :=
  @write_read_iff _ _ _ _ _ _ _ _ floatItem _ _ _ _ rfl (by decide) (reaches_floatItem _) (reaches_floatItem 3) rfl
    rfl rfl nofun rfl rfl .new

end Uniset.ModbusSlave
