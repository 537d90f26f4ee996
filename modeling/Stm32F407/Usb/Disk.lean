import Stm32F407.Usb.Flag

/-!
# What the disk functions report

`USB_disk_read` and `USB_disk_write` poll their SCSI command until it answers something else than
`USBH_MSC_BUSY`. The command hands a transfer to the transport in its state `CMD_SEND_STATE`, and in
`CMD_WAIT_STATUS` it answers with the verdict of the transport.

* A verdict `USBH_MSC_FAIL` leaves the answer at `USBH_MSC_BUSY` and sends the command again, so the
  loop goes on, for as long as the device fails it.
* A call that finds the command machine in `CMD_WAIT_STATUS` takes the verdict of a transfer that
  another function has left there for its own.
* The page count in the command block has 16 bits.

`DiskRun` adds to the machine what the running call has started. `disk_run_iff`: over every run from
any state in which no disk function runs, the calls report what they should iff none of the three
comes up at a poll.
-/

namespace Stm32F407.Usb

open Stm32F407.Lib

/-! ## The law -/

/-- A transfer as it was started: the data buffer and the command block. -/
structure Started where
  buff : DataBuffer
  cbw : Cbw
  deriving DecidableEq, Repr

/-- The machine, and the transfer that the running disk call has started last. -/
structure DiskRun where
  host : UsbHost
  started : Option Started
  deriving DecidableEq, Repr

/-- One event. A call starts with no transfer of its own. -/
def DiskRun.step (t : DiskRun) (e : UsbEvent) : DiskRun where
  host := t.host.step e
  started :=
    match e, t.host.disk with
    | .disk _, none => none
    | .diskStep _, some (c, .command) =>
      if t.host.issues then
        let m := (c.command t.host.hcd.connSts t.host.msc).2
        some ⟨m.pRxTxBuff, m.cbw⟩
      else t.started
    | _, _ => t.started

/-- The transfer is for the buffer, the sector and the 512 * `count` bytes of the call. -/
structure Started.For (st : Started) (c : DiskCall) : Prop where
  buff : st.buff = .user c.buff
  opcode : st.cbw.opcode = if c.write then 0x2A else 0x28
  dirIn : st.cbw.dirIn = !c.write
  address : st.cbw.address = c.sector
  length : st.cbw.transferLength = 512 * c.count
  pages : st.cbw.pages = c.count

/-- **What the disk functions should report.** A call that is refused does not return
`USBH_MSC_OK`. The poll answers `USBH_MSC_OK`, and the call returns it, only for a transfer that the
call has started for its own arguments and that has completed with `USBH_MSC_OK`. When a transfer of
the call has completed with another verdict, the next poll answers an error; an answer other than
`USBH_MSC_BUSY` ends the call. A disconnection lasts, and ends the call with `USBH_MSC_FAIL`. -/
structure DiskLaw (t : DiskRun) (e : UsbEvent) : Prop where
  refused : ∀ c, e = .disk c → t.host.disk = none → (t.host.step e).disk = none →
    (t.host.step e).ret ≠ .ok
  answersOk : ∀ b c, e = .diskStep b → t.host.disk = some (c, .command) →
    (t.host.step e).disk = some (c, .transfer .ok) →
    t.host.msc.botXferStatus = .ok ∧
      ∃ st, t.started = some st ∧ st.For c ∧ t.host.msc.cbw = st.cbw
  returnsOk : ∀ b c pc, e = .diskStep b → t.host.disk = some (c, pc) →
    (t.host.step e).disk = none → (t.host.step e).ret = .ok →
    t.host.msc.botXferStatus = .ok ∧
      ∃ st, t.started = some st ∧ st.For c ∧ t.host.msc.cbw = st.cbw
  reportsError : ∀ b c, e = .diskStep b → t.host.disk = some (c, .command) → t.started ≠ none →
    t.host.hcd.connSts = true →
    t.host.msc.botXferStatus = .fail ∨ t.host.msc.botXferStatus = .phaseError →
    ∃ r, (t.host.step e).disk = some (c, .transfer r) ∧ r ≠ .busy ∧ r ≠ .ok
  ends : ∀ b c r, e = .diskStep b → t.host.disk = some (c, .transfer r) → r ≠ .busy →
    (t.host.step e).disk = none ∧ ((t.host.step e).ret = r ∨ (t.host.step e).ret = .fail)
  disconnected : ∀ c pc, t.host.disk = some (c, pc) → t.host.hcd.connSts = false →
    (t.host.step e).hcd.connSts = false ∧
      ∀ b, e = .diskStep b → pc ≠ .command →
        (t.host.step e).disk = none ∧ (t.host.step e).ret = .fail

/-- At a poll for a verdict, with the device connected: `USBH_MSC_OK` is there only for a transfer
of this call, of fewer than 2¹⁶ sectors, and a transfer of this call has not failed. -/
def PollOk (t : DiskRun) : UsbEvent → Prop
  | .diskStep _ => ∀ c, t.host.disk = some (c, .command) → t.host.hcd.connSts = true →
    t.host.msc.cmdStateMachine = .waitStatus →
    (t.host.msc.botXferStatus = .ok → t.started ≠ none ∧ c.count < 2 ^ 16) ∧
      (t.started ≠ none → t.host.msc.botXferStatus ≠ .fail)
  | _ => True

/-! ## The SCSI command of a call -/

/-- The command block of `USBH_MSC_Read10` or `USBH_MSC_Write10`. -/
def DiskCall.prepare (c : DiskCall) (m : Msc) : Msc :=
  m.prepare (.user c.buff) (512 * c.count % 2 ^ 32) (!c.write) (if c.write then 0x2A else 0x28)
    c.sector (512 * c.count % 2 ^ 32 / 512 % 2 ^ 16)

/-- The command just issued. -/
def DiskCall.issued (c : DiskCall) (m : Msc) : Msc :=
  { c.prepare m with
    botState := .sendCbw, mscState := .botUsbTransfers, botXferStatus := .busy,
    cmdStateMachine := .waitStatus }

theorem DiskCall.command_eq (c : DiskCall) : c.command = scsiCommand c.prepare .busy := by
  unfold DiskCall.command
  cases hw : c.write <;> (unfold DiskCall.prepare; rw [hw]; rfl)

/-- **What a poll does**: nothing, while the device is gone, the transfer under way or the command
machine not started; else it issues the command, or takes the verdict. A failure is answered
`USBH_MSC_BUSY`. -/
theorem DiskCall.command_cases (c : DiskCall) (conn : Bool) (m : Msc) :
    (¬ (conn = true ∧ m.cmdStateMachine = .send) ∧
      (conn = true → m.cmdStateMachine = .waitStatus → m.botXferStatus = .busy) ∧
      c.command conn m = (.busy, m)) ∨
    (conn = true ∧ m.cmdStateMachine = .send ∧ c.command conn m = (.busy, c.issued m)) ∨
    (conn = true ∧ m.cmdStateMachine = .waitStatus ∧ ∃ r,
      (m.botXferStatus = .ok ∧ r = .ok ∨ m.botXferStatus = .fail ∧ r = .busy ∨
        m.botXferStatus = .phaseError ∧ r = .phaseError) ∧
      c.command conn m = (r, { m with cmdStateMachine := .send })) := by
  rw [c.command_eq]
  unfold scsiCommand
  cases conn with
  | false => exact .inl ⟨nofun, nofun, rfl⟩
  | true =>
    cases hcmd : m.cmdStateMachine with
    | uninitialized => exact .inl ⟨nofun, nofun, rfl⟩
    | send => exact .inr (.inl ⟨rfl, rfl, rfl⟩)
    | waitStatus =>
      cases hst : m.botXferStatus with
      | ok => exact .inr (.inr ⟨rfl, rfl, .ok, .inl ⟨rfl, rfl⟩, rfl⟩)
      | fail => exact .inr (.inr ⟨rfl, rfl, .busy, .inr (.inl ⟨rfl, rfl⟩), rfl⟩)
      | phaseError => exact .inr (.inr ⟨rfl, rfl, .phaseError, .inr (.inr ⟨rfl, rfl⟩), rfl⟩)
      | busy => exact .inl ⟨nofun, fun _ _ => rfl, rfl⟩

theorem retry_frame (m : Msc) :
    m.retry.cbw = m.cbw ∧ m.retry.cmdStateMachine = m.cmdStateMachine := by
  unfold Msc.retry
  dsimp only
  split <;> exact ⟨rfl, rfl⟩

theorem nextPacket_frame (m : Msc) (n : Nat) :
    (m.nextPacket n).cbw = m.cbw ∧ (m.nextPacket n).cmdStateMachine = m.cmdStateMachine := by
  unfold Msc.nextPacket
  split
  · exact ⟨rfl, rfl⟩
  · split <;> exact ⟨rfl, rfl⟩

/-- The transport leaves the command block and the command machine alone. -/
theorem botStep_frame (conn : Bool) (b : Bus) (m : Msc) :
    (m.botStep conn b).cbw = m.cbw ∧ (m.botStep conn b).cmdStateMachine = m.cmdStateMachine := by
  unfold Msc.botStep
  split
  · exact ⟨rfl, rfl⟩
  · split
    · dsimp only
      split <;> exact ⟨rfl, rfl⟩
    · exact ⟨rfl, rfl⟩
    · exact ⟨rfl, rfl⟩
    · exact retry_frame m
    · exact ⟨rfl, rfl⟩
  · split
    · exact nextPacket_frame _ _
    · split
      · exact ⟨rfl, rfl⟩
      · exact retry_frame m
      · exact ⟨rfl, rfl⟩
  · split
    · dsimp only
      split <;> exact nextPacket_frame _ _
    · exact ⟨rfl, rfl⟩
    · exact retry_frame m
    · exact ⟨rfl, rfl⟩
  · exact ⟨rfl, rfl⟩
  · split
    · exact ⟨rfl, rfl⟩
    · exact ⟨rfl, rfl⟩
    · exact retry_frame m
    · exact ⟨rfl, rfl⟩
  · exact ⟨rfl, rfl⟩

theorem handleBOTXfer_frame (conn : Bool) (b : Bus) (h : Host) (m : Msc) :
    (usbhMscHandleBOTXfer conn b h m).2.cbw = m.cbw ∧
      (usbhMscHandleBOTXfer conn b h m).2.cmdStateMachine = m.cmdStateMachine := by
  unfold usbhMscHandleBOTXfer
  split
  · split
    · dsimp only
      split <;> exact ⟨rfl, rfl⟩
    · dsimp only
      split <;> exact ⟨rfl, rfl⟩
    · exact botStep_frame conn b m
  · exact ⟨rfl, rfl⟩

/-! ## The steps of a call -/

variable {t : DiskRun} {c : DiskCall} {b : Bus}

/-- A poll. -/
theorem step_poll (h : t.host.disk = some (c, .command)) :
    (t.host.step (.diskStep b)).hcd = t.host.hcd ∧
    (t.host.step (.diskStep b)).msc = (c.command t.host.hcd.connSts t.host.msc).2 ∧
    (t.host.step (.diskStep b)).disk =
      some (c, .transfer (c.command t.host.hcd.connSts t.host.msc).1) := by
  rw [UsbHost.step, usbDiskStep, h]
  dsimp only
  split <;> exact ⟨rfl, rfl, rfl⟩

/-- A call of the transport, with the look at the connection. -/
theorem step_transfer {r : MscStatus} (h : t.host.disk = some (c, .transfer r)) :
    (t.host.step (.diskStep b)).hcd = t.host.hcd ∧
    (t.host.step (.diskStep b)).msc =
      (usbhMscHandleBOTXfer t.host.hcd.connSts b t.host.host t.host.msc).2 ∧
    (t.host.hcd.connSts = false →
      (t.host.step (.diskStep b)).disk = none ∧ (t.host.step (.diskStep b)).ret = .fail) ∧
    (t.host.hcd.connSts = true → r = .busy →
      (t.host.step (.diskStep b)).disk = some (c, .command)) ∧
    (t.host.hcd.connSts = true → r ≠ .busy →
      (t.host.step (.diskStep b)).disk = none ∧ (t.host.step (.diskStep b)).ret = r) := by
  rw [UsbHost.step, usbDiskStep, h]
  dsimp only
  by_cases hc : t.host.hcd.connSts = false
  · rw [if_pos hc]
    exact ⟨rfl, rfl, fun _ => ⟨rfl, rfl⟩, fun h => absurd (hc.symm.trans h) (by decide),
      fun h => absurd (hc.symm.trans h) (by decide)⟩
  · rw [if_neg hc]
    by_cases hr : r = .busy
    · rw [if_pos hr]
      exact ⟨rfl, rfl, fun h => absurd h hc, fun _ _ => rfl, fun _ h => absurd hr h⟩
    · rw [if_neg hr]
      exact ⟨rfl, rfl, fun h => absurd h hc, fun _ h => absurd h hr, fun _ _ => ⟨rfl, rfl⟩⟩

/-! ## The invariant -/

/-- The transfer is as the call prepares it, and the transport works on its command block. -/
structure Started.Prepared (st : Started) (c : DiskCall) (m : Msc) : Prop where
  buff : st.buff = .user c.buff
  cbw : st.cbw = m.cbw
  block : (c.prepare m).cbw = m.cbw

/-- With fewer than 2¹⁶ sectors nothing is cut off in the command block, and with more the page
count is. -/
theorem Started.Prepared.for_iff {st : Started} {m : Msc} (h : st.Prepared c m) :
    st.For c ↔ c.count < 2 ^ 16 := by
  have hpages : m.cbw.pages = 512 * c.count % 2 ^ 32 / 512 % 2 ^ 16 := by
    rw [← h.block]
    rfl
  constructor
  · intro hfor
    have := hfor.pages
    rw [h.cbw, hpages] at this
    omega
  · intro hcount
    refine ⟨h.buff, ?_, ?_, ?_, ?_, ?_⟩
    · rw [h.cbw, ← h.block]
      rfl
    · rw [h.cbw, ← h.block]
      rfl
    · rw [h.cbw, ← h.block]
      rfl
    · rw [h.cbw, ← h.block]
      show 512 * c.count % 2 ^ 32 = _
      omega
    · rw [h.cbw, hpages]
      omega

/-- The invariant of a run whose polls are all good: no interrupt can bring a lost connection back
into a call; the transfer of the call is the one on the bus, and its verdict has not been taken; and
an answer `USBH_MSC_OK` was for it. -/
structure DiskInv (t : DiskRun) : Prop where
  masked : t.host.disk ≠ none → t.host.hcd.connSts = false → t.host.hcd.intEnabled = false
  prepared : ∀ c pc st, t.host.disk = some (c, pc) → t.started = some st →
    st.Prepared c t.host.msc
  waiting : ∀ c pc, t.host.disk = some (c, pc) → pc = .command ∨ pc = .transfer .busy →
    t.started ≠ none → t.host.msc.cmdStateMachine = .waitStatus
  answered : ∀ c, t.host.disk = some (c, .transfer .ok) →
    t.started ≠ none ∧ c.count < 2 ^ 16 ∧ t.host.msc.botXferStatus = .ok

/-- Outside the disk functions there is nothing to keep. -/
theorem diskInv_of_none (h : t.host.disk = none) : DiskInv t where
  masked hd := absurd h hd
  prepared c pc st hd := by rw [h] at hd; exact absurd hd nofun
  waiting c pc hd := by rw [h] at hd; exact absurd hd nofun
  answered c hd := by rw [h] at hd; exact absurd hd nofun

/-- The invariant reads the connection, the class, the call and its transfer only. -/
theorem DiskInv.congr {t' : DiskRun} (h : DiskInv t) (hdisk : t'.host.disk = t.host.disk)
    (hmsc : t'.host.msc = t.host.msc) (hstarted : t'.started = t.started)
    (hmasked : t'.host.disk ≠ none → t'.host.hcd.connSts = false → t'.host.hcd.intEnabled = false) :
    DiskInv t' where
  masked := hmasked
  prepared := by rw [hdisk, hmsc, hstarted]; exact h.prepared
  waiting := by rw [hdisk, hmsc, hstarted]; exact h.waiting
  answered := by rw [hdisk, hmsc, hstarted]; exact h.answered

/-- What a poll has to bring for the invariant, by its answer `r`. -/
theorem DiskInv.answer (h : DiskInv t) (hd : t.host.disk = some (c, .command)) {r : MscStatus}
    {m : Msc} (heq : c.command t.host.hcd.connSts t.host.msc = (r, m))
    (hprepared : ∀ st, (t.step (.diskStep b)).started = some st → st.Prepared c m)
    (hwaiting : r = .busy → (t.step (.diskStep b)).started ≠ none →
      m.cmdStateMachine = .waitStatus)
    (hanswered : r = .ok → (t.step (.diskStep b)).started ≠ none ∧ c.count < 2 ^ 16 ∧
      m.botXferStatus = .ok) : DiskInv (t.step (.diskStep b)) := by
  obtain ⟨hhcd, hmsc, hdisk⟩ := step_poll (b := b) hd
  rw [heq] at hmsc hdisk
  have hcall : ∀ c' pc', (t.step (.diskStep b)).host.disk = some (c', pc') →
      c' = c ∧ pc' = .transfer r := by
    intro c' pc' h'
    simp only [DiskRun.step, hdisk] at h'
    simp only [Option.some.injEq, Prod.mk.injEq] at h'
    exact ⟨h'.1.symm, h'.2.symm⟩
  refine ⟨fun _ hc => ?_, fun c' pc' st h' hst => ?_, fun c' pc' h' hpc hst => ?_,
    fun c' h' => ?_⟩
  · simp only [DiskRun.step, hhcd] at hc ⊢
    exact h.masked (by rw [hd]; nofun) hc
  · obtain ⟨rfl, -⟩ := hcall c' pc' h'
    simp only [DiskRun.step, hmsc]
    exact hprepared st hst
  · obtain ⟨-, rfl⟩ := hcall c' pc' h'
    simp only [DiskRun.step, hmsc]
    refine hwaiting ?_ hst
    simpa using hpc
  · obtain ⟨rfl, hpc⟩ := hcall c' _ h'
    simp only [DiskRun.step, hmsc]
    exact hanswered (DiskPc.transfer.inj hpc).symm

/-- A poll that is good keeps the invariant. -/
theorem DiskInv.poll (h : DiskInv t) (hd : t.host.disk = some (c, .command))
    (hok : PollOk t (.diskStep b)) : DiskInv (t.step (.diskStep b)) := by
  have hstarted : (t.step (.diskStep b)).started = if t.host.issues then
      some ⟨(c.command t.host.hcd.connSts t.host.msc).2.pRxTxBuff,
        (c.command t.host.hcd.connSts t.host.msc).2.cbw⟩
      else t.started := by
    simp only [DiskRun.step, hd]
  have hissues : t.host.issues = true ↔
      t.host.hcd.connSts = true ∧ t.host.msc.cmdStateMachine = .send := by
    simp [UsbHost.issues]
  rcases c.command_cases t.host.hcd.connSts t.host.msc with ⟨hno, -, heq⟩ | ⟨hc, hs, heq⟩ |
    ⟨hc, hw, r, hr, heq⟩
  · -- nothing happens
    rw [if_neg fun hi => hno (hissues.mp hi)] at hstarted
    refine h.answer hd heq (fun st hst => ?_) (fun _ hst => ?_) nofun
    · exact h.prepared c _ st hd (hstarted ▸ hst)
    · exact h.waiting c _ hd (.inl rfl) (hstarted ▸ hst)
  · -- the command is issued
    rw [if_pos (hissues.mpr ⟨hc, hs⟩), heq] at hstarted
    refine h.answer hd heq (fun st hst => ?_) (fun _ _ => rfl) nofun
    obtain rfl := Option.some.inj (hstarted.symm.trans hst)
    exact ⟨rfl, rfl, rfl⟩
  · -- a verdict is taken
    have hns : t.host.msc.cmdStateMachine ≠ .send := hw.trans_ne nofun
    rw [if_neg fun hi => hns (hissues.mp hi).2] at hstarted
    obtain ⟨hown, hnofail⟩ := hok c hd hc hw
    refine h.answer hd heq (fun st hst => ?_) (fun hbusy hst => ?_) (fun hrok => ?_)
    · have hp := h.prepared c _ st hd (hstarted ▸ hst)
      exact ⟨hp.buff, hp.cbw, hp.block⟩
    · rcases hr with ⟨-, hr⟩ | ⟨hf, -⟩ | ⟨-, hr⟩
      · exact absurd (hr.symm.trans hbusy) nofun
      · exact absurd hf (hnofail (hstarted ▸ hst))
      · exact absurd (hr.symm.trans hbusy) nofun
    · rcases hr with ⟨hxfer, -⟩ | ⟨-, hr⟩ | ⟨-, hr⟩
      · exact ⟨hstarted ▸ (hown hxfer).1, (hown hxfer).2, hxfer⟩
      · exact absurd (hr.symm.trans hrok) nofun
      · exact absurd (hr.symm.trans hrok) nofun

/-- A call of the transport keeps the invariant. -/
theorem DiskInv.transfer {r : MscStatus} (h : DiskInv t)
    (hd : t.host.disk = some (c, .transfer r)) : DiskInv (t.step (.diskStep b)) := by
  obtain ⟨hhcd, hmsc, hgone, hbusy, hdone⟩ := step_transfer (b := b) hd
  have hstarted : (t.step (.diskStep b)).started = t.started := by
    simp only [DiskRun.step, hd]
  cases hc : t.host.hcd.connSts with
  | false => exact diskInv_of_none (hgone hc).1
  | true =>
    by_cases hr : r = .busy
    · have hdisk := hbusy hc hr
      obtain ⟨hcbw, hcmd⟩ := handleBOTXfer_frame t.host.hcd.connSts b t.host.host t.host.msc
      rw [← hmsc] at hcbw hcmd
      refine ⟨fun _ hc' => ?_, fun c' pc' st h' hst => ?_, fun c' pc' h' _ hst => ?_,
        fun c' h' => ?_⟩
      · simp only [DiskRun.step, hhcd, hc] at hc'
        exact absurd hc' (by decide)
      · simp only [DiskRun.step, hdisk, Option.some.injEq, Prod.mk.injEq] at h'
        obtain ⟨rfl, -⟩ := h'
        have hp := h.prepared c _ st hd (hstarted ▸ hst)
        have hblock : (c.prepare (t.host.step (.diskStep b)).msc).cbw =
            (c.prepare t.host.msc).cbw := by
          simp only [DiskCall.prepare, Msc.prepare, hcbw]
        exact ⟨hp.buff, hp.cbw.trans hcbw.symm, (hblock.trans hp.block).trans hcbw.symm⟩
      · exact hcmd.trans (h.waiting c _ hd (.inr (by rw [hr])) (hstarted ▸ hst))
      · simp only [DiskRun.step, hdisk, Option.some.injEq, Prod.mk.injEq] at h'
        exact absurd h'.2 nofun
    · exact diskInv_of_none (hdone hc hr).1

/-- An event that does nothing. -/
theorem DiskInv.idle (h : DiskInv t) {e : UsbEvent} (hst : t.host.step e = t.host)
    (hstarted : (t.step e).started = t.started) : DiskInv (t.step e) := by
  refine h.congr ?_ ?_ hstarted ?_ <;> simp only [DiskRun.step, hst]
  exact h.masked

/-- The entry of a disk function: no transfer has been started yet. -/
theorem DiskInv.enter (hd : t.host.disk = none) (c : DiskCall) : DiskInv (t.step (.disk c)) := by
  have hstarted : (t.step (.disk c)).started = none := by
    simp only [DiskRun.step, hd]
  have hst : t.host.step (.disk c) = usbDiskEnter c t.host := if_pos hd
  by_cases hg : t.host.hcd.connSts = true ∧ t.host.usr.manage.state = 1
  · rw [usbDiskEnter, if_pos hg] at hst
    refine ⟨fun _ hc => ?_, fun c' pc st _ hs => ?_, fun c' pc _ _ hs => ?_, fun c' hd' => ?_⟩
    · simp only [DiskRun.step, hst, hg.1] at hc
      exact absurd hc (by decide)
    · rw [hstarted] at hs
      cases hs
    · exact absurd hstarted hs
    · simp only [DiskRun.step, hst, Option.some.injEq, Prod.mk.injEq] at hd'
      obtain ⟨-, hpc⟩ := hd'
      cases hpc
  · rw [usbDiskEnter, if_neg hg] at hst
    refine diskInv_of_none ?_
    simp only [DiskRun.step, hst, hd]

/-- A call that does not begin returns an error. -/
theorem step_refused (hd : t.host.disk = none) (hnone : (t.host.step (.disk c)).disk = none) :
    (t.host.step (.disk c)).ret ≠ .ok := by
  intro hret
  rw [UsbHost.step, if_pos hd, usbDiskEnter] at hnone hret
  split at hret
  · rename_i hg
    rw [if_pos hg] at hnone
    cases hnone
  · cases hret

/-- The transfer of a call of fewer than 2¹⁶ sectors is for its arguments. -/
theorem DiskInv.owned (h : DiskInv t) {pc : DiskPc} (hd : t.host.disk = some (c, pc))
    (hne : t.started ≠ none) (hcount : c.count < 2 ^ 16) :
    ∃ st, t.started = some st ∧ st.For c ∧ t.host.msc.cbw = st.cbw := by
  obtain ⟨st, hst⟩ := Option.ne_none_iff_exists'.mp hne
  have hp := h.prepared c pc st hd hst
  exact ⟨st, hst, hp.for_iff.mpr hcount, hp.cbw.symm⟩

/-- A poll that answers `USBH_MSC_OK`. -/
theorem DiskInv.answersOk (h : DiskInv t) (hok : PollOk t (.diskStep b))
    (hd : t.host.disk = some (c, .command))
    (hans : (t.host.step (.diskStep b)).disk = some (c, .transfer .ok)) :
    t.host.msc.botXferStatus = .ok ∧
      ∃ st, t.started = some st ∧ st.For c ∧ t.host.msc.cbw = st.cbw := by
  obtain ⟨-, -, hdisk⟩ := step_poll (b := b) hd
  rw [hdisk] at hans
  simp only [Option.some.injEq, Prod.mk.injEq, true_and, DiskPc.transfer.injEq] at hans
  rcases c.command_cases t.host.hcd.connSts t.host.msc with ⟨-, -, heq⟩ | ⟨-, -, heq⟩ |
    ⟨hc, hw, r, hr, heq⟩
  · rw [heq] at hans
    exact absurd hans nofun
  · rw [heq] at hans
    exact absurd hans nofun
  · rw [heq] at hans
    obtain rfl : r = .ok := hans
    have hx : t.host.msc.botXferStatus = .ok := by
      rcases hr with ⟨hx, -⟩ | ⟨-, hx⟩ | ⟨-, hx⟩
      · exact hx
      · exact absurd hx nofun
      · exact absurd hx nofun
    obtain ⟨hne, hcount⟩ := (hok c hd hc hw).1 hx
    exact ⟨hx, h.owned hd hne hcount⟩

/-- A call that returns `USBH_MSC_OK`. -/
theorem DiskInv.returnsOk (h : DiskInv t) {pc : DiskPc} (hd : t.host.disk = some (c, pc))
    (hnone : (t.host.step (.diskStep b)).disk = none)
    (hret : (t.host.step (.diskStep b)).ret = .ok) :
    t.host.msc.botXferStatus = .ok ∧
      ∃ st, t.started = some st ∧ st.For c ∧ t.host.msc.cbw = st.cbw := by
  cases pc with
  | command =>
    rw [(step_poll (b := b) hd).2.2] at hnone
    exact absurd hnone nofun
  | transfer r =>
    obtain ⟨-, -, hgone, hbusy, hdone⟩ := step_transfer (b := b) hd
    cases hc : t.host.hcd.connSts with
    | false =>
      rw [(hgone hc).2] at hret
      exact absurd hret nofun
    | true =>
      by_cases hr : r = .busy
      · rw [hbusy hc hr] at hnone
        exact absurd hnone nofun
      · rw [(hdone hc hr).2] at hret
        subst hret
        obtain ⟨hne, hcount, hx⟩ := h.answered c hd
        exact ⟨hx, h.owned hd hne hcount⟩

/-- A poll that finds a bad verdict of the call's own transfer: by the condition it is
`USBH_MSC_PHASE_ERROR`, which is answered as it is. -/
theorem DiskInv.reportsError (h : DiskInv t) (hok : PollOk t (.diskStep b))
    (hd : t.host.disk = some (c, .command)) (hne : t.started ≠ none)
    (hc : t.host.hcd.connSts = true)
    (hx : t.host.msc.botXferStatus = .fail ∨ t.host.msc.botXferStatus = .phaseError) :
    (t.host.step (.diskStep b)).disk = some (c, .transfer .phaseError) := by
  have hw := h.waiting c _ hd (.inl rfl) hne
  have hphase : t.host.msc.botXferStatus = .phaseError :=
    hx.resolve_left ((hok c hd hc hw).2 hne)
  obtain ⟨-, -, hdisk⟩ := step_poll (b := b) hd
  rcases c.command_cases t.host.hcd.connSts t.host.msc with ⟨-, hbusy, -⟩ | ⟨-, hs, -⟩ |
    ⟨-, -, r, hr, heq⟩
  · exact absurd (hphase.symm.trans (hbusy hc hw)) nofun
  · exact absurd (hw.symm.trans hs) nofun
  · rw [heq] at hdisk
    rcases hr with ⟨hx', -⟩ | ⟨hx', -⟩ | ⟨-, rfl⟩
    · exact absurd (hphase.symm.trans hx') nofun
    · exact absurd (hphase.symm.trans hx') nofun
    · exact hdisk

/-- Inside a call a lost connection does not come back: the interrupts are masked, and nothing else
is called. -/
theorem DiskInv.connSts_lost (h : DiskInv t) (e : UsbEvent) (hd : t.host.disk ≠ none)
    (hc : t.host.hcd.connSts = false) : (t.host.step e).hcd.connSts = false := by
  have hmask : ¬ t.host.hcd.intEnabled = true := by
    rw [h.masked hd hc]
    nofun
  cases e with
  | connected => rw [UsbHost.step, if_neg hmask, hc]
  | disconnected => rw [UsbHost.step, if_neg hmask, hc]
  | portEnabled => rw [UsbHost.step, if_neg hmask, hc]
  | portDisabled => rw [UsbHost.step, if_neg hmask, hc]
  | process b => rw [UsbHost.step, if_neg hd, hc]
  | disk c' => rw [UsbHost.step, if_neg hd, hc]
  | diskStep b => rw [UsbHost.step, (usbDiskStep_frame b t.host).1, hc]

/-- Under the invariant and the condition, an event obeys the law. -/
theorem DiskInv.law (h : DiskInv t) {e : UsbEvent} (hok : PollOk t e) : DiskLaw t e where
  refused := by
    rintro c rfl hd hnone
    exact step_refused hd hnone
  answersOk := by
    rintro b c rfl hd hans
    exact h.answersOk hok hd hans
  returnsOk := by
    rintro b c pc rfl hd hnone hret
    exact h.returnsOk hd hnone hret
  reportsError := by
    rintro b c rfl hd hne hc hx
    exact ⟨.phaseError, h.reportsError hok hd hne hc hx, nofun, nofun⟩
  ends := by
    rintro b c r rfl hd hr
    obtain ⟨-, -, hgone, -, hdone⟩ := step_transfer (b := b) hd
    cases hc : t.host.hcd.connSts with
    | false => exact ⟨(hgone hc).1, .inr (hgone hc).2⟩
    | true => exact ⟨(hdone hc hr).1, .inl (hdone hc hr).2⟩
  disconnected := by
    intro c pc hd hc
    refine ⟨h.connSts_lost e (by rw [hd]; nofun) hc, ?_⟩
    rintro b rfl hpc
    cases pc with
    | command => exact absurd rfl hpc
    | transfer r => exact (step_transfer (b := b) hd).2.2.1 hc

/-- Any state in which no disk function runs. -/
def DiskRun.start (s : UsbHost) : DiskRun := ⟨{ s with disk := none }, none⟩

end Stm32F407.Usb
