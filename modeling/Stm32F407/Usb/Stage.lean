import Mathlib.Data.List.TakeWhile
import Stm32F407.Usb.Host

/-!
# What one call of the USB host does

A call of `USBH_Process` that takes neither `HOST_DEV_DISCONNECTED` nor `HOST_DEV_ATTACHED` leaves
the connection alone and adds only quiet marks to the history. It follows the host from the plug-in
to the class state: `StageOk` says which class callbacks the history since the plug-in then holds. A
control transfer is no state of its own here, since it comes back to the state it was asked for in.

* `usbhHandleEnum_spec`, `usbhHandleControl_stage`: requests come back.
* `usbhProcess_advance`: the call as an `Advance`.
-/

namespace Stm32F407.Usb

/-! ## Reading the history -/

/-- The connection status changed. -/
def Mark.plug : Mark → Bool
  | .connected | .disconnected => true
  | _ => false

/-- An attachment began or ended. -/
def Mark.attach : Mark → Bool
  | .connected | .disconnected | .deviceAttached => true
  | _ => false

/-- A SCSI command of a disk function. -/
def Mark.issue : Mark → Bool
  | .read10 | .write10 => true
  | _ => false

/-- The history since the connection status last changed. -/
def sinceConnected (log : List Mark) : List Mark := log.takeWhile fun m => !m.plug

/-- The history since the last attach. -/
def sinceAttach (log : List Mark) : List Mark := log.takeWhile fun m => !m.attach

/-- A mark that neither ends or begins an attachment nor is a SCSI command. -/
def Mark.quiet (m : Mark) : Bool := !m.attach && !m.issue

theorem quiet_attach {m : Mark} (h : m.quiet = true) : m.attach = false := by
  cases m <;> first | rfl | cases h

theorem quiet_issue {m : Mark} (h : m.quiet = true) : m.issue = false := by
  cases m <;> first | rfl | cases h

theorem plug_of_attach {m : Mark} (h : m.attach = false) : m.plug = false := by
  cases m <;> first | rfl | cases h

theorem sinceConnected_append {ms log : List Mark} (h : ∀ m ∈ ms, m.attach = false) :
    sinceConnected (ms ++ log) = ms ++ sinceConnected log :=
  List.takeWhile_append_of_pos fun m hm => by rw [plug_of_attach (h m hm)]; rfl

theorem sinceAttach_append {ms log : List Mark} (h : ∀ m ∈ ms, m.attach = false) :
    sinceAttach (ms ++ log) = ms ++ sinceAttach log :=
  List.takeWhile_append_of_pos fun m hm => by rw [h m hm]; rfl

/-! ## Where the host is -/

/-- The state the host is in, or comes back to after the control transfer of the moment. -/
def Host.stage (h : Host) : HostState := if h.gState = .ctrlXfer then h.gStateBkp else h.gState

/-- What the history since the plug-in holds when the host is in the state `st`. -/
def StageOk (st : HostState) (log : List Mark) : Prop :=
  (st = .classRequest → .classInit ∈ sinceConnected log) ∧
    (st = .hostClass → .classInit ∈ sinceConnected log ∧ .classRequests ∈ sinceConnected log)

theorem StageOk.append {st : HostState} {ms log : List Mark} (h : StageOk st log)
    (hms : ∀ m ∈ ms, m.attach = false) : StageOk st (ms ++ log) := by
  unfold StageOk
  rw [sinceConnected_append hms]
  refine ⟨fun hst => List.mem_append_right _ (h.1 hst), fun hst => ?_⟩
  obtain ⟨hi, hr⟩ := h.2 hst
  exact ⟨List.mem_append_right _ hi, List.mem_append_right _ hr⟩

/-- Outside the class states the history holds whatever it does. -/
theorem stageOk_outside (st : HostState) {st' : HostState} (h : st' = st) (log : List Mark)
    (hr : st ≠ .classRequest) (hc : st ≠ .hostClass) : StageOk st' log :=
  ⟨fun hst => absurd (h.symm.trans hst) hr, fun hst => absurd (h.symm.trans hst) hc⟩

theorem stage_of_ne {h : Host} (hx : h.gState ≠ .ctrlXfer) : h.stage = h.gState := if_neg hx

/-! ## Requests come back -/

theorem usbhCtlReq_stage (p : Setup) {h : Host} (hx : h.gState ≠ .ctrlXfer) :
    (usbhCtlReq p h).2.stage = h.gState := by
  unfold usbhCtlReq
  simp only
  split
  · rfl
  · split <;> exact stage_of_ne hx
  · exact stage_of_ne hx

theorem usbhGetDescriptor_stage (v l : Nat) {h : Host} (hx : h.gState ≠ .ctrlXfer) :
    (usbhGetDescriptor v l h).2.stage = h.gState := usbhCtlReq_stage _ hx

theorem usbhGetDevDesc_stage (b : Bus) (l : Nat) {h : Host} (hx : h.gState ≠ .ctrlXfer) :
    (usbhGetDevDesc b l h).2.stage = h.gState := by
  have hr := usbhGetDescriptor_stage usbDescDevice l hx
  unfold usbhGetDevDesc
  split
  · rename_i h' heq
    rw [heq] at hr
    split <;> exact hr
  · exact hr

theorem usbhGetCfgDesc_stage (b : Bus) (l : Nat) {h : Host} (hx : h.gState ≠ .ctrlXfer) :
    (usbhGetCfgDesc b l h).2.stage = h.gState := by
  have hr := usbhGetDescriptor_stage usbDescConfiguration l hx
  unfold usbhGetCfgDesc
  split
  · rename_i h' heq
    rw [heq] at hr
    split <;> exact hr
  · exact hr

theorem nextEnum_spec (st : EnumState) (ms : List Mark) (hms : ∀ m ∈ ms, m.quiet = true)
    (r : UsbhStatus × Host) :
    (nextEnum st ms r).1.stage = r.2.stage ∧ ∀ m ∈ (nextEnum st ms r).2, m.quiet = true := by
  unfold nextEnum
  split
  · exact ⟨rfl, hms⟩
  · exact ⟨rfl, by simp⟩

theorem enumString_spec (i : Nat) (st : EnumState) {m : Mark} (hm : m.quiet = true) {h : Host}
    (hx : h.gState ≠ .ctrlXfer) :
    (enumString i st m h).1.stage = h.gState ∧ ∀ x ∈ (enumString i st m h).2, x.quiet = true := by
  have hms : ∀ x ∈ [m], x.quiet = true := by
    intro x hxm
    rwa [List.mem_singleton.mp hxm]
  unfold enumString
  split
  · obtain ⟨hs, hq⟩ := nextEnum_spec st [m] hms (usbhGetStringDesc i h)
    exact ⟨hs.trans (usbhGetDescriptor_stage _ _ hx), hq⟩
  · exact ⟨stage_of_ne hx, hms⟩

/-- The enumeration comes back to the state it runs in, and tells the user nothing but news of the
device. -/
theorem usbhHandleEnum_spec (b : Bus) {h : Host} (hx : h.gState ≠ .ctrlXfer) :
    (usbhHandleEnum b h).2.1.stage = h.gState ∧
      ∀ m ∈ (usbhHandleEnum b h).2.2, m.quiet = true := by
  unfold usbhHandleEnum
  split
  · obtain ⟨hs, hq⟩ := nextEnum_spec .getFullDevDesc [] (by decide)
      (usbhGetDevDesc b 8 h)
    exact ⟨hs.trans (usbhGetDevDesc_stage b 8 hx), hq⟩
  · obtain ⟨hs, hq⟩ := nextEnum_spec .setAddr [.deviceDescAvailable] (by decide)
      (usbhGetDevDesc b 18 h)
    exact ⟨hs.trans (usbhGetDevDesc_stage b 18 hx), hq⟩
  · obtain ⟨hs, hq⟩ := nextEnum_spec .getCfgDesc [.deviceAddressAssigned] (by decide)
      (usbhSetAddress 1 h)
    exact ⟨hs.trans (usbhCtlReq_stage _ hx), hq⟩
  · have hr := usbhGetCfgDesc_stage b 9 hx
    split
    · rename_i h' heq
      rw [heq] at hr
      refine ⟨?_, by simp⟩
      simp only
      split <;> exact hr
    · rename_i h' heq
      rw [heq] at hr
      exact ⟨hr, by simp⟩
  · obtain ⟨hs, hq⟩ := nextEnum_spec .getMfcStringDesc [.configurationDescAvailable] (by decide)
      (usbhGetCfgDesc b h.deviceProp.cfgDesc.wTotalLength h)
    exact ⟨hs.trans (usbhGetCfgDesc_stage b _ hx), hq⟩
  · exact enumString_spec _ _ rfl hx
  · exact enumString_spec _ _ rfl hx
  · exact enumString_spec _ _ rfl hx
  · obtain ⟨hs, hq⟩ := nextEnum_spec .devConfigured [] (by decide)
      (usbhSetCfg h.deviceProp.cfgDesc.bConfigurationValue h)
    exact ⟨hs.trans (usbhCtlReq_stage _ hx), hq⟩
  · exact ⟨stage_of_ne hx, by simp⟩

theorem leaveXfer_stage {h : Host} (hx : h.gState = .ctrlXfer) (st : CtrlState) :
    (h.leaveXfer st).stage = h.stage := by
  unfold Host.leaveXfer Host.stage
  simp only [hx, if_true]
  split <;> rfl

/-- A control transfer comes back to the state it was asked for in. -/
theorem usbhHandleControl_stage (b : Bus) {h : Host} (hx : h.gState = .ctrlXfer) :
    (usbhHandleControl b h).stage = h.stage := by
  unfold usbhHandleControl
  split
  case h_11 =>
    simp only
    split
    · rfl
    · exact leaveXfer_stage (h := { h with errorcount := (h.errorcount + 1) % 256 }) hx _
  all_goals
    first
    | rfl
    | split <;> first
      | rfl
      | exact leaveXfer_stage hx _
      | (split <;> first | rfl | exact leaveXfer_stage hx _)

/-! ## Advancing -/

/-- What a call leaves that goes on with the device of the moment: the connection and the disk
function stay, the marks are quiet, and the flag is raised only by the application callback, in the
class state. -/
structure Advance (s s' : UsbHost) (ms : List Mark) : Prop where
  hcd : s'.hcd = s.hcd
  disk : s'.disk = s.disk
  log : s'.log = ms ++ s.log
  quiet : ∀ m ∈ ms, m.quiet = true
  raised : s'.usr.manage.state = 1 → s.usr.manage.state = 1 ∨
    s.hcd.connSts = true ∧ s.host.gState = .hostClass ∧ .userApplication ∈ ms
  stage : StageOk s.host.stage s.log → StageOk s'.host.stage s'.log
  idle : s.hcd.connSts = false → s.host.gState = .idle → s'.host.gState = .idle

/-- An advance that leaves the flag as it is. -/
theorem Advance.of_usr {s s' : UsbHost} {ms : List Mark} (hcd : s'.hcd = s.hcd)
    (disk : s'.disk = s.disk) (hlog : s'.log = ms ++ s.log) (hq : ∀ m ∈ ms, m.quiet = true)
    (husr : s'.usr.manage.state = s.usr.manage.state)
    (hstage : StageOk s.host.stage s.log → StageOk s'.host.stage s'.log)
    (hidle : s'.host.gState = .idle ∨ s.hcd.connSts = true) :
    Advance s s' ms where
  hcd := hcd
  disk := disk
  log := hlog
  quiet := hq
  raised h := Or.inl (husr ▸ h)
  stage := hstage
  idle hc _ := by
    rcases hidle with h | h
    · exact h
    · rw [hc] at h
      cases h

/-- An advance followed by one that does not raise the flag. -/
theorem Advance.trans {s s₁ s₂ : UsbHost} {ms ms' : List Mark} (h : Advance s s₁ ms)
    (h' : Advance s₁ s₂ ms') (hflag : s₂.usr.manage.state = 1 → s₁.usr.manage.state = 1) :
    Advance s s₂ (ms' ++ ms) where
  hcd := h'.hcd.trans h.hcd
  disk := h'.disk.trans h.disk
  log := by rw [h'.log, h.log, List.append_assoc]
  quiet m hm := by
    rcases List.mem_append.mp hm with hm | hm
    · exact h'.quiet m hm
    · exact h.quiet m hm
  raised h₂ := by
    rcases h.raised (hflag h₂) with h₁ | ⟨hc, hg, ha⟩
    · exact Or.inl h₁
    · exact Or.inr ⟨hc, hg, List.mem_append_right _ ha⟩
  stage hst := h'.stage (h.stage hst)
  idle hc hi := h'.idle (h.hcd ▸ hc) (h.idle hc hi)

/-- A call that moves only the host and the class, and comes back to the state it was in. -/
theorem advance_of_stage {s : UsbHost} (hc : s.hcd.connSts = true) {h : Host} (m : Msc)
    (hst : h.stage = s.host.stage) : Advance s { s with host := h, msc := m } [] :=
  .of_usr rfl rfl rfl (by simp) rfl (fun hs => by rwa [hst]) (Or.inr hc)

/-! ## The class state -/

theorem usbhMscBotAbort_stage (ep : EpDesc) {h : Host} (m : Msc) (hx : h.gState ≠ .ctrlXfer) :
    (usbhMscBotAbort ep h m).2.1.stage = h.gState := usbhCtlReq_stage _ hx

theorem usbhMscHandleBOTXfer_stage (c : Bool) (b : Bus) {h : Host} (m : Msc)
    (hx : h.gState ≠ .ctrlXfer) : (usbhMscHandleBOTXfer c b h m).1.stage = h.gState := by
  unfold usbhMscHandleBOTXfer
  split
  · split
    · simp only
      split <;> exact usbhMscBotAbort_stage _ m hx
    · simp only
      split <;> exact usbhMscBotAbort_stage _ m hx
    · exact stage_of_ne hx
  · exact stage_of_ne hx

theorem mscCommand_advance {s : UsbHost} (hc : s.hcd.connSts = true)
    (command : Bool → Msc → MscStatus × Msc) (next : MscState) :
    Advance s (mscCommand command next s).2 [] := by
  unfold mscCommand
  split <;> exact advance_of_stage hc _ rfl

theorem mscGetMaxLun_advance (b : Bus) {s : UsbHost} (hc : s.hcd.connSts = true)
    (hx : s.host.gState ≠ .ctrlXfer) : ∃ ms, Advance s (mscGetMaxLun b s).2 ms := by
  have hr := usbhCtlReq_stage ⟨true, 0xFE, 0, 0, 1⟩ hx
  rw [← stage_of_ne hx] at hr
  unfold mscGetMaxLun
  split
  · rename_i h heq
    rw [heq] at hr
    simp only
    split
    · exact ⟨[.deviceNotSupported], .of_usr rfl rfl rfl (by decide) rfl
        (fun hs => by
          have hs' : StageOk s.host.stage ([.deviceNotSupported] ++ s.log) := hs.append (by decide)
          rwa [← hr] at hs')
        (Or.inr hc)⟩
    · exact ⟨[], advance_of_stage hc _ hr⟩
  · rename_i h heq
    rw [heq] at hr
    exact ⟨[], advance_of_stage hc _ hr⟩
  · rename_i r h _ _ heq
    rw [heq] at hr
    exact ⟨[], advance_of_stage hc s.msc hr⟩

theorem usbhUsrMscApplication_fst (c : Bool) (u : Usr) : (usbhUsrMscApplication c u).1 = 0 := by
  unfold usbhUsrMscApplication
  split
  · rfl
  · split <;> rfl
  · rfl

/-- **The class machine advances.** -/
theorem mscHandle_advance (b : Bus) {s : UsbHost} (hc : s.hcd.connSts = true)
    (hg : s.host.gState = .hostClass) : ∃ ms, Advance s (mscHandle b s).2 ms := by
  have hx : s.host.gState ≠ .ctrlXfer := hg.trans_ne nofun
  unfold mscHandle
  rw [if_pos hc]
  split
  · exact ⟨[], advance_of_stage hc _ rfl⟩
  · exact mscGetMaxLun_advance b hc hx
  · have hr : (usbhClrFeature 0 s.host).2.stage = s.host.stage :=
      (usbhCtlReq_stage _ hx).trans (stage_of_ne hx).symm
    split
    · rename_i h heq
      rw [heq] at hr
      exact ⟨[], advance_of_stage hc _ hr⟩
    · rename_i r h _ heq
      rw [heq] at hr
      exact ⟨[], advance_of_stage hc s.msc hr⟩
  · exact ⟨[], mscCommand_advance hc _ _⟩
  · exact ⟨[], mscCommand_advance hc _ _⟩
  · exact ⟨[], mscCommand_advance hc _ _⟩
  · have hr := usbhMscHandleBOTXfer_stage s.hcd.connSts b s.msc hx
    exact ⟨[], advance_of_stage hc _ (hr.trans (stage_of_ne hx).symm)⟩
  · -- the application callback
    refine ⟨[.userApplication], ?_⟩
    simp only [usbhUsrMscApplication_fst]
    exact
      { hcd := rfl
        disk := rfl
        log := rfl
        quiet := by decide
        raised := fun _ => Or.inr ⟨hc, hg, List.mem_singleton.mpr rfl⟩
        stage := fun hs => hs.append (by decide)
        idle := fun h _ => by
          rw [hc] at h
          cases h }
  · exact ⟨[], advance_of_stage hc s.msc rfl⟩
  · split <;> exact ⟨[], advance_of_stage hc _ rfl⟩
  · exact ⟨[], advance_of_stage hc s.msc rfl⟩

theorem usbhErrorHandle_advance (st : UsbhStatus) {s : UsbHost} (hc : s.hcd.connSts = true) :
    ∃ ms, Advance s (usbhErrorHandle st s) ms ∧
      ((usbhErrorHandle st s).usr.manage.state = 1 → s.usr.manage.state = 1) := by
  have hstage : ∀ log, StageOk HostState.errorState log :=
    fun log => stageOk_outside .errorState rfl log nofun nofun
  unfold usbhErrorHandle
  split
  · exact ⟨[.unrecoveredError], .of_usr rfl rfl rfl (by decide) rfl (fun _ => hstage _)
      (Or.inr hc), id⟩
  · exact ⟨[.unrecoveredError], .of_usr rfl rfl rfl (by decide) rfl (fun _ => hstage _)
      (Or.inr hc), id⟩
  · refine ⟨[.init], ?_, fun h => absurd h Nat.zero_ne_one⟩
    exact
      { hcd := rfl
        disk := rfl
        log := rfl
        quiet := by decide
        raised := fun h => absurd h Nat.zero_ne_one
        stage := fun _ => hstage _
        idle := fun h _ => by
          rw [hc] at h
          cases h }
  · exact ⟨[], .of_usr rfl rfl rfl (by simp) rfl id (Or.inr hc), id⟩

/-! ## The host machine -/

theorem usbhUsrConfigurationDescAvailable_state (itf : ItfDesc) (u : Usr) :
    (usbhUsrConfigurationDescAvailable itf u).manage.state = u.manage.state := by
  unfold usbhUsrConfigurationDescAvailable
  split <;> rfl

theorem processEnum_advance (b : Bus) {s : UsbHost} (hc : s.hcd.connSts = true)
    (hg : s.host.gState = .enumeration) : ∃ ms, Advance s (processEnum b s) ms := by
  have hx : s.host.gState ≠ .ctrlXfer := hg.trans_ne nofun
  obtain ⟨hst, hq⟩ := usbhHandleEnum_spec b hx
  have husr : (if Mark.configurationDescAvailable ∈ (usbhHandleEnum b s.host).2.2
      then usbhUsrConfigurationDescAvailable (usbhHandleEnum b s.host).2.1.deviceProp.itfDesc s.usr
      else s.usr).manage.state = s.usr.manage.state := by
    split
    · exact usbhUsrConfigurationDescAvailable_state _ _
    · rfl
  have hrev : ∀ m ∈ (usbhHandleEnum b s.host).2.2.reverse, m.quiet = true :=
    fun m hm => hq m (List.mem_reverse.mp hm)
  unfold processEnum
  simp only
  split
  · refine ⟨.enumerationDone :: (usbhHandleEnum b s.host).2.2.reverse,
      .of_usr rfl rfl rfl ?_ husr
        (fun _ => stageOk_outside .usrInput rfl _ nofun nofun) (Or.inr hc)⟩
    intro m hm
    rcases List.mem_cons.mp hm with rfl | hm
    · rfl
    · exact hrev m hm
  · refine ⟨(usbhHandleEnum b s.host).2.2.reverse,
      .of_usr rfl rfl rfl hrev husr (fun _ => ?_) (Or.inr hc)⟩
    exact stageOk_outside .enumeration (hst.trans hg) _ nofun nofun

theorem mem_sinceConnected (m : Mark) (ms : List Mark) {log : List Mark} (hm : m ∈ ms)
    (hms : ∀ m ∈ ms, m.attach = false) : m ∈ sinceConnected (ms ++ log) := by
  rw [sinceConnected_append hms]
  exact List.mem_append_left _ hm

theorem processUsrInput_advance {s : UsbHost} (hc : s.hcd.connSts = true) :
    ∃ ms, Advance s (processUsrInput s) ms := by
  unfold processUsrInput mscInterfaceInit
  split
  · refine ⟨[.classInit, .userInput], .of_usr rfl rfl rfl (by decide) rfl (fun _ => ?_)
      (Or.inr hc)⟩
    exact ⟨fun _ => mem_sinceConnected _ [.classInit, .userInput] (by decide) (by decide), nofun⟩
  · refine ⟨[.deviceNotSupported, .classInit, .userInput], .of_usr rfl rfl rfl (by decide) rfl
      (fun _ => ?_) (Or.inr hc)⟩
    exact ⟨fun _ => mem_sinceConnected _ [.deviceNotSupported, .classInit, .userInput]
      (by decide) (by decide), nofun⟩

theorem processClassRequest_advance {s : UsbHost} (hc : s.hcd.connSts = true)
    (hg : s.host.gState = .classRequest) : ∃ ms, Advance s (processClassRequest s) ms := by
  have hst : s.host.stage = .classRequest := by
    rw [stage_of_ne (hg.trans_ne nofun), hg]
  refine ⟨[.classRequests], .of_usr rfl rfl rfl (by decide) rfl (fun hs => ?_) (Or.inr hc)⟩
  refine ⟨nofun, fun _ => ⟨?_, ?_⟩⟩
  · have hs' : StageOk s.host.stage ([.classRequests] ++ s.log) := hs.append (by decide)
    exact hs'.1 hst
  · exact mem_sinceConnected _ [.classRequests] (by decide) (by decide)

/-- Past the look at the port, the host is where it was, unless the device is gone. -/
theorem dispatchState_eq {s : UsbHost} (h : s.dispatchState ≠ .devDisconnected) :
    s.dispatchState = s.host.gState := by
  unfold UsbHost.dispatchState at h ⊢
  split
  · rename_i hgone
    rw [if_pos hgone] at h
    exact absurd rfl h
  · rfl

/-- Past the look at the port, a host that is not idle has its device. -/
theorem connSts_of_dispatch {s : UsbHost} (h : s.dispatchState ≠ .devDisconnected)
    (hi : s.host.gState ≠ .idle) : s.hcd.connSts = true := by
  unfold UsbHost.dispatchState at h
  by_contra hc
  rw [if_pos ⟨Or.inl (Bool.eq_false_iff.mpr hc), hi⟩] at h
  exact h rfl

theorem connSts_of_attached {s : UsbHost} (h : s.dispatchState = .devAttached) :
    s.hcd.connSts = true := by
  have hd : s.dispatchState ≠ .devDisconnected := h.trans_ne nofun
  refine connSts_of_dispatch hd ?_
  rw [← dispatchState_eq hd, h]
  decide

theorem processSwitch_advance (b : Bus) {s : UsbHost} (hd : s.host.gState ≠ .devDisconnected)
    (ha : s.host.gState ≠ .devAttached) (hconn : s.host.gState ≠ .idle → s.hcd.connSts = true) :
    ∃ ms, Advance s (processSwitch b s) ms := by
  unfold processSwitch
  split
  · rename_i hi
    split
    · rename_i hc
      exact ⟨[.resetDevice], .of_usr rfl rfl rfl (by decide) rfl
        (fun _ => stageOk_outside .waitPrtEnabled rfl _ nofun nofun)
        (Or.inr hc)⟩
    · exact ⟨[], .of_usr rfl rfl rfl (by simp) rfl id (Or.inl hi)⟩
  · rename_i hw
    have hc := hconn (hw.trans_ne nofun)
    split
    · exact ⟨[], .of_usr rfl rfl rfl (by simp) rfl
        (fun _ => stageOk_outside .devAttached rfl _ nofun nofun) (Or.inr hc)⟩
    · exact ⟨[], advance_of_stage hc s.msc rfl⟩
  · rename_i hatt
    exact absurd hatt ha
  · rename_i he
    exact processEnum_advance b (hconn (he.trans_ne nofun)) he
  · rename_i hu
    exact processUsrInput_advance (hconn (hu.trans_ne nofun))
  · rename_i hr
    exact processClassRequest_advance (hconn (hr.trans_ne nofun)) hr
  · rename_i hcl
    have hc := hconn (hcl.trans_ne nofun)
    obtain ⟨ms, hmsc⟩ := mscHandle_advance b hc hcl
    obtain ⟨ms', herr, hflag⟩ :=
      usbhErrorHandle_advance (mscHandle b s).1 ((congrArg Hcd.connSts hmsc.hcd).trans hc)
    exact ⟨_, hmsc.trans herr hflag⟩
  · rename_i hx
    exact ⟨[], advance_of_stage (hconn (hx.trans_ne nofun)) s.msc (usbhHandleControl_stage b hx)⟩
  · exact ⟨[.classDeInit, .deInit], .of_usr rfl rfl rfl (by decide) rfl
      (fun _ => stageOk_outside .idle rfl _ nofun nofun) (Or.inl rfl)⟩
  · rename_i hdd
    exact absurd hdd hd
  · rename_i hi _ _ _ _ _ _ _ _ _
    exact ⟨[], advance_of_stage (hconn hi) s.msc rfl⟩

/-- **A call of `USBH_Process` advances**, unless the device is gone or just attached. -/
theorem usbhProcess_advance (b : Bus) {s : UsbHost} (hd : s.dispatchState ≠ .devDisconnected)
    (ha : s.dispatchState ≠ .devAttached) : ∃ ms, Advance s (usbhProcess b s) ms := by
  have hg := dispatchState_eq hd
  unfold usbhProcess
  rw [hg] at hd ha ⊢
  exact processSwitch_advance b hd ha fun hi => connSts_of_dispatch (hg ▸ hd) hi

end Stm32F407.Usb
