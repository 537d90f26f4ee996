import Stm32F407.Lib.Runs
import Stm32F407.Usb.Stage

/-!
# The connection flag of the USB host

`USB_Manage.State` is set by `USBH_USR_MSC_Application` and read by the disk functions; `usbh_usr.h`
reads 0 as disconnected and 1 as connected. Only `USBH_USR_Init` takes it back, and `USBH_Init`
alone calls that: neither `USBH_USR_DeviceDisconnected` nor `USBH_USR_DeInit` does. So the flag
outlives the device it was set for.

The law is read off the history. `Reached` says that the application callback has come since the
last attach, that is since the last change of the connection status and the last `DeviceAttached`;
`ClassSetUp` says that the class has been initialised, and the application reached, since the device
was plugged in.

* `flag_run_iff`: in a run the flag always tells the truth, and every `Read10` and `Write10` goes to
  a device whose class is set up, iff no step ends or restarts the attachment while the flag is 1.
* `flag_attached_run_iff`: asked only while a device is attached, the flag is right throughout iff
  no device is attached while it is 1.
-/

namespace Stm32F407.Usb

open Stm32F407.Lib

/-! ## The law and when it holds -/

/-- The application callback has come since the last attach. -/
def Reached (log : List Mark) : Prop := .userApplication ∈ sinceAttach log

/-- The class has been set up since the device was plugged in. -/
def ClassSetUp (log : List Mark) : Prop :=
  .classInit ∈ sinceConnected log ∧ .classRequests ∈ sinceConnected log ∧
    .userApplication ∈ sinceConnected log

/-- Every SCSI command of a disk function went to a device whose class was set up. -/
def IssuesSetUp : List Mark → Prop
  | [] => True
  | m :: log => (m.issue = true → ClassSetUp log) ∧ IssuesSetUp log

instance (log : List Mark) : Decidable (Reached log) :=
  inferInstanceAs (Decidable (_ ∈ _))

instance (log : List Mark) : Decidable (ClassSetUp log) :=
  inferInstanceAs (Decidable (_ ∧ _ ∧ _))

instance IssuesSetUp.instDecidable : ∀ log, Decidable (IssuesSetUp log)
  | [] => isTrue trivial
  | _ :: log => @instDecidableAnd _ _ _ (IssuesSetUp.instDecidable log)

/-- The flag is 1 only with a device attached that has reached the application since its last
attach, and the disk functions talk only to a device that is set up. -/
def Truthful (s : UsbHost) : Prop :=
  (s.usr.manage.state = 1 → s.hcd.connSts = true ∧ Reached s.log) ∧ IssuesSetUp s.log

instance (s : UsbHost) : Decidable (Truthful s) := inferInstanceAs (Decidable (_ ∧ _))

/-- The step neither ends nor restarts the attachment while the flag is 1: no disconnect interrupt
arrives, and `USBH_Process` takes neither `HOST_DEV_DISCONNECTED` nor `HOST_DEV_ATTACHED`. -/
def KeepsAttachment (s : UsbHost) : UsbEvent → Prop
  | .disconnected => s.usr.manage.state = 1 → s.hcd.intEnabled = false
  | .process _ =>
    s.usr.manage.state = 1 → s.disk = none →
      s.dispatchState ≠ .devDisconnected ∧ s.dispatchState ≠ .devAttached
  | _ => True

/-- The law, asked only while a device is attached. -/
def TruthfulAttached (s : UsbHost) : Prop :=
  (s.hcd.connSts = true → s.usr.manage.state = 1 → Reached s.log) ∧ IssuesSetUp s.log

/-- No device is attached while the flag is 1. -/
def NoReattach (s : UsbHost) : UsbEvent → Prop
  | .connected => s.usr.manage.state = 1 → s.hcd.intEnabled = true → s.hcd.connSts = true
  | .process _ => s.usr.manage.state = 1 → s.disk = none → s.dispatchState ≠ .devAttached
  | _ => True

/-! ## Adding to the history -/

theorem Reached.append {ms log : List Mark} (h : Reached log) (hms : ∀ m ∈ ms, m.attach = false) :
    Reached (ms ++ log) := by
  unfold Reached
  rw [sinceAttach_append hms]
  exact List.mem_append_right _ h

theorem ClassSetUp.append {ms log : List Mark} (h : ClassSetUp log)
    (hms : ∀ m ∈ ms, m.attach = false) : ClassSetUp (ms ++ log) := by
  obtain ⟨hi, hr, ha⟩ := h
  unfold ClassSetUp
  rw [sinceConnected_append hms]
  exact ⟨List.mem_append_right _ hi, List.mem_append_right _ hr, List.mem_append_right _ ha⟩

theorem issuesSetUp_append {ms log : List Mark} (hms : ∀ m ∈ ms, m.issue = false) :
    IssuesSetUp (ms ++ log) ↔ IssuesSetUp log := by
  induction ms with
  | nil => rfl
  | cons m ms ih =>
    have hm : m.issue = false := hms m List.mem_cons_self
    rw [List.cons_append, IssuesSetUp, ih fun x hx => hms x (List.mem_cons_of_mem _ hx), hm]
    simp

/-- Right after the connection status has changed nothing has been reached. -/
theorem not_reached_cons {m : Mark} (log : List Mark) (hm : m.attach = true) :
    ¬ Reached (m :: log) := by
  unfold Reached sinceAttach
  rw [List.takeWhile_cons, hm]
  exact List.not_mem_nil

theorem ClassSetUp.stageOk {log : List Mark} (h : ClassSetUp log) (st : HostState) :
    StageOk st log :=
  ⟨fun _ => h.1, fun _ => ⟨h.1, h.2.1⟩⟩

/-! ## The invariant -/

/-- What holds of the host, whether or not a device is attached. -/
structure FlagInv (s : UsbHost) : Prop where
  /-- With a device attached, the flag is right about it. -/
  flag : s.hcd.connSts = true → s.usr.manage.state = 1 → Reached s.log ∧ ClassSetUp s.log
  /-- A disk function is entered with the flag at 1, and nothing takes it back meanwhile. -/
  disk : s.disk ≠ none → s.usr.manage.state = 1
  /-- A device can only be plugged in while the host is idle. -/
  idle : s.hcd.connSts = false → s.hcd.intEnabled = true → s.host.gState = .idle
  /-- The state of the host tells which class callbacks the device has had. -/
  stage : s.hcd.connSts = true → StageOk s.host.stage s.log
  issues : IssuesSetUp s.log

theorem flagInv_init : FlagInv (usbhInit .zero) where
  flag := nofun
  disk := nofun
  idle _ _ := rfl
  stage := nofun
  issues := ⟨nofun, trivial⟩

theorem FlagInv.advance {s s' : UsbHost} {ms : List Mark} (hs : FlagInv s) (h : Advance s s' ms)
    (hd : s.disk = none) : FlagInv s' where
  flag hc hf := by
    have hms : ∀ m ∈ ms, m.attach = false := fun m hm => quiet_attach (h.quiet m hm)
    rw [h.hcd] at hc
    rw [h.log]
    rcases h.raised hf with hf | ⟨-, hg, ha⟩
    · obtain ⟨hr, hcl⟩ := hs.flag hc hf
      exact ⟨hr.append hms, hcl.append hms⟩
    · -- the flag is raised by this call, in the class state
      have hst : s.host.stage = .hostClass := by
        rw [stage_of_ne (hg.trans_ne nofun), hg]
      obtain ⟨hi, hr⟩ := (hs.stage hc).2 hst
      unfold Reached ClassSetUp
      rw [sinceAttach_append hms, sinceConnected_append hms]
      exact ⟨List.mem_append_left _ ha, List.mem_append_right _ hi, List.mem_append_right _ hr,
        List.mem_append_left _ ha⟩
  disk hne := absurd (h.disk.trans hd) hne
  idle hc hi := by
    rw [h.hcd] at hc hi
    exact h.idle hc (hs.idle hc hi)
  stage hc := h.stage (hs.stage (h.hcd ▸ hc))
  issues := by
    rw [h.log, issuesSetUp_append fun m hm => quiet_issue (h.quiet m hm)]
    exact hs.issues

/-! ## Attaching and detaching -/

/-- The marks of a change of the connection status. -/
theorem issuesSetUp_cons {m : Mark} {log : List Mark} (hm : m.issue = false) :
    IssuesSetUp (m :: log) ↔ IssuesSetUp log := by
  rw [IssuesSetUp, hm]
  simp

/-- The host goes without a device, its flag as it was. -/
theorem FlagInv.detach {s s' : UsbHost} (hs : FlagInv s) (hc : s'.hcd.connSts = false)
    (hdisk : s'.disk = s.disk) (hf : s'.usr.manage.state = s.usr.manage.state)
    (hidle : s'.hcd.intEnabled = true → s'.host.gState = .idle)
    (hlog : IssuesSetUp s'.log ↔ IssuesSetUp s.log) : FlagInv s' where
  flag h := by
    rw [hc] at h
    cases h
  disk h := hf.trans (hs.disk (hdisk ▸ h))
  idle _ hi := hidle hi
  stage h := by
    rw [hc] at h
    cases h
  issues := hlog.mpr hs.issues

theorem usbhDisconnected_spec (s : UsbHost) :
    (usbhDisconnected s).hcd.connSts = false ∧ (usbhDisconnected s).hcd.intEnabled = false ∧
      (usbhDisconnected s).disk = s.disk ∧
      (usbhDisconnected s).usr.manage.state = s.usr.manage.state ∧
      (IssuesSetUp (usbhDisconnected s).log ↔ IssuesSetUp s.log) := by
  unfold usbhDisconnected
  by_cases hc : s.hcd.connSts = true
  · rw [if_pos hc]
    exact ⟨rfl, rfl, rfl, rfl, issuesSetUp_cons rfl⟩
  · rw [if_neg hc]
    exact ⟨rfl, rfl, rfl, rfl, Iff.rfl⟩

theorem hcdInit_spec (s : UsbHost) :
    (hcdInit s).hcd.connSts = false ∧ (hcdInit s).host = s.host ∧ (hcdInit s).disk = s.disk ∧
      (hcdInit s).usr = s.usr ∧ (IssuesSetUp (hcdInit s).log ↔ IssuesSetUp s.log) := by
  unfold hcdInit
  by_cases hc : s.hcd.connSts = true
  · rw [if_pos hc]
    exact ⟨rfl, rfl, rfl, rfl, issuesSetUp_cons rfl⟩
  · rw [if_neg hc]
    exact ⟨rfl, rfl, rfl, rfl, Iff.rfl⟩

theorem usbhProcess_disconnected_spec (b : Bus) {s : UsbHost}
    (hd : s.dispatchState = .devDisconnected) :
    (usbhProcess b s).hcd.connSts = false ∧ (usbhProcess b s).host.gState = .idle ∧
      (usbhProcess b s).disk = s.disk ∧
      (usbhProcess b s).usr.manage.state = s.usr.manage.state ∧
      (IssuesSetUp (usbhProcess b s).log ↔ IssuesSetUp s.log) := by
  unfold usbhProcess processSwitch
  simp only [hd]
  obtain ⟨hc, hh, hdk, hu, hl⟩ := hcdInit_spec
    ({ s with
      host := usbhDeInit { s.host with gState := .devDisconnected }
      usr := usbhUsrDeInit s.usr }.mark [.deviceDisconnected, .deInit, .classDeInit])
  refine ⟨hc, ?_, hdk, ?_, hl.trans ?_⟩
  · rw [hh]
    rfl
  · rw [hu]
    rfl
  · have hms : ∀ m ∈ [Mark.classDeInit, .deInit, .deviceDisconnected], m.issue = false := by decide
    exact issuesSetUp_append hms

theorem usbhProcess_attached_eq (b : Bus) {s : UsbHost} (ha : s.dispatchState = .devAttached) :
    usbhProcess b s = { s with host := { s.host with gState := .enumeration } }.mark
      [.deviceAttached, .resetDevice, .deviceSpeedDetected] := by
  unfold usbhProcess processSwitch
  simp only [ha]

theorem FlagInv.connect {s : UsbHost} (hs : FlagInv s) (hi : s.hcd.intEnabled = true)
    (hok : s.usr.manage.state = 1 → s.hcd.connSts = true) : FlagInv (usbhConnected s) := by
  unfold usbhConnected
  by_cases hc : s.hcd.connSts = true
  · rw [if_pos hc]
    exact ⟨fun _ => hs.flag hc, hs.disk, nofun, fun _ => hs.stage hc, hs.issues⟩
  · rw [if_neg hc]
    have hidle := hs.idle (Bool.eq_false_iff.mpr hc) hi
    have hst : s.host.stage = .idle := by
      rw [stage_of_ne (hidle.trans_ne nofun), hidle]
    refine ⟨fun _ hf => absurd (hok hf) hc, hs.disk, nofun, fun _ => ?_, ?_⟩
    · exact stageOk_outside .idle hst _ nofun nofun
    · exact (issuesSetUp_cons rfl).mpr hs.issues

theorem FlagInv.attach (b : Bus) {s : UsbHost} (hs : FlagInv s) (hd : s.disk = none)
    (ha : s.dispatchState = .devAttached) (hok : s.usr.manage.state ≠ 1) :
    FlagInv (usbhProcess b s) := by
  have hc := connSts_of_attached ha
  have hms : ∀ m ∈ [Mark.deviceSpeedDetected, .resetDevice, .deviceAttached], m.issue = false := by
    decide
  rw [usbhProcess_attached_eq b ha]
  refine ⟨fun _ hf => absurd hf hok, fun h => absurd hd h, fun h => ?_, fun _ => ?_, ?_⟩
  · exact absurd (hc.symm.trans h) (by decide)
  · exact stageOk_outside .enumeration rfl _ nofun nofun
  · exact (issuesSetUp_append hms).mpr hs.issues

/-! ## The disk functions -/

/-- The transport of a disk function runs on a device that is set up, so the host may be left in
any state. -/
theorem FlagInv.transfer {s s' : UsbHost} (b : Bus) (hs : FlagInv s) (hrun : s.disk ≠ none)
    (hhcd : s'.hcd = s.hcd) (husr : s'.usr = s.usr) (hlog : s'.log = s.log)
    (hhost : s'.host = (usbhMscHandleBOTXfer s.hcd.connSts b s.host s.msc).1) : FlagInv s' := by
  have hf := hs.disk hrun
  refine ⟨fun hc hf => ?_, fun _ => by rwa [husr], fun hc hi => ?_, fun hc => ?_, by
    rw [hlog]; exact hs.issues⟩
  · rw [hhcd] at hc
    rw [husr] at hf
    rw [hlog]
    exact hs.flag hc hf
  · rw [hhcd] at hc hi
    rw [hhost, hc]
    exact hs.idle hc hi
  · rw [hhcd] at hc
    rw [hlog]
    exact (hs.flag hc hf).2.stageOk _

/-- The SCSI command of a disk function goes to a device that is set up. -/
theorem FlagInv.command {s : UsbHost} (hs : FlagInv s) (hrun : s.disk ≠ none) (c : DiskCall) :
    FlagInv (if s.issues then s.mark [c.mark] else s) := by
  split
  · rename_i hiss
    have hc : s.hcd.connSts = true := ((Bool.and_eq_true _ _).mp hiss).1
    obtain ⟨hr, hcl⟩ := hs.flag hc (hs.disk hrun)
    have hms : ∀ m ∈ [c.mark], m.attach = false := by
      intro m hm
      rw [List.mem_singleton.mp hm]
      unfold DiskCall.mark
      split <;> rfl
    exact ⟨fun _ _ => ⟨hr.append hms, hcl.append hms⟩, hs.disk, hs.idle,
      fun _ => (hs.stage hc).append hms, fun _ => hcl, hs.issues⟩
  · exact hs

theorem FlagInv.diskStep (b : Bus) {s : UsbHost} (hs : FlagInv s) : FlagInv (usbDiskStep b s) := by
  unfold usbDiskStep
  split
  · exact hs
  · rename_i c hdisk
    have hrun : s.disk ≠ none := by
      rw [hdisk]
      nofun
    have h := hs.command hrun c
    refine ⟨h.flag, fun _ => ?_, h.idle, h.stage, h.issues⟩
    split <;> exact hs.disk hrun
  · rename_i c result hdisk
    have hrun : s.disk ≠ none := by
      rw [hdisk]
      nofun
    simp only
    split
    · exact hs.transfer b hrun rfl rfl rfl rfl
    · split <;> exact hs.transfer b hrun rfl rfl rfl rfl

/-! ## One step -/

/-- **One step keeps the invariant**, unless it attaches a device while the flag is 1. -/
theorem flagInv_step (s : UsbHost) (e : UsbEvent) (hs : FlagInv s) (hok : NoReattach s e) :
    FlagInv (s.step e) := by
  cases e with
  | connected =>
    rw [UsbHost.step]
    split
    · rename_i hi
      exact hs.connect hi fun hf => hok hf hi
    · exact hs
  | disconnected =>
    rw [UsbHost.step]
    split
    · obtain ⟨hc, hi, hd, hf, hl⟩ := usbhDisconnected_spec s
      refine hs.detach hc hd hf (fun h => ?_) hl
      rw [hi] at h
      cases h
    · exact hs
  | portEnabled =>
    rw [UsbHost.step]
    split
    · exact ⟨hs.flag, hs.disk, hs.idle, hs.stage, hs.issues⟩
    · exact hs
  | portDisabled =>
    rw [UsbHost.step]
    split
    · exact ⟨hs.flag, hs.disk, hs.idle, hs.stage, hs.issues⟩
    · exact hs
  | process b =>
    rw [UsbHost.step]
    split
    · rename_i hd
      by_cases hdis : s.dispatchState = .devDisconnected
      · obtain ⟨hc, hg, hdk, hf, hl⟩ := usbhProcess_disconnected_spec b hdis
        exact hs.detach hc hdk hf (fun _ => hg) hl
      by_cases hatt : s.dispatchState = .devAttached
      · exact hs.attach b hd hatt fun hf => hok hf hd hatt
      obtain ⟨ms, hadv⟩ := usbhProcess_advance b hdis hatt
      exact hs.advance hadv hd
    · exact hs
  | disk c =>
    rw [UsbHost.step, usbDiskEnter]
    split
    · split
      · rename_i hguard
        exact ⟨hs.flag, fun _ => hguard.2, hs.idle, hs.stage, hs.issues⟩
      · exact ⟨hs.flag, hs.disk, hs.idle, hs.stage, hs.issues⟩
    · exact hs
  | diskStep b => exact hs.diskStep b

theorem usbDiskStep_frame (b : Bus) (s : UsbHost) :
    (usbDiskStep b s).hcd = s.hcd ∧ (usbDiskStep b s).usr = s.usr := by
  unfold usbDiskStep
  split
  · exact ⟨rfl, rfl⟩
  · simp only
    split <;> exact ⟨rfl, rfl⟩
  · simp only
    split
    · exact ⟨rfl, rfl⟩
    · split <;> exact ⟨rfl, rfl⟩

/-- A step that keeps the attachment leaves the flag at 1 only with a device attached. -/
theorem connSts_step (s : UsbHost) (e : UsbEvent)
    (hs : s.usr.manage.state = 1 → s.hcd.connSts = true) (hok : KeepsAttachment s e) :
    (s.step e).usr.manage.state = 1 → (s.step e).hcd.connSts = true := by
  cases e with
  | connected =>
    rw [UsbHost.step]
    split
    · exact fun _ => rfl
    · exact hs
  | disconnected =>
    rw [UsbHost.step]
    split
    · rename_i hi
      intro hf
      rw [(usbhDisconnected_spec s).2.2.2.1] at hf
      rw [hok hf] at hi
      cases hi
    · exact hs
  | portEnabled =>
    rw [UsbHost.step]
    split <;> exact hs
  | portDisabled =>
    rw [UsbHost.step]
    split <;> exact hs
  | process b =>
    rw [UsbHost.step]
    split
    · rename_i hd
      intro hf
      by_cases hdis : s.dispatchState = .devDisconnected
      · rw [(usbhProcess_disconnected_spec b hdis).2.2.2.1] at hf
        exact absurd hdis (hok hf hd).1
      by_cases hatt : s.dispatchState = .devAttached
      · rw [usbhProcess_attached_eq b hatt] at hf
        exact absurd hatt (hok hf hd).2
      obtain ⟨ms, hadv⟩ := usbhProcess_advance b hdis hatt
      rw [hadv.hcd]
      rcases hadv.raised hf with hf | ⟨hc, -, -⟩
      · exact hs hf
      · exact hc
    · exact hs
  | disk c =>
    rw [UsbHost.step, usbDiskEnter]
    split
    · split <;> exact hs
    · exact hs
  | diskStep b =>
    obtain ⟨hhcd, husr⟩ := usbDiskStep_frame b s
    rw [UsbHost.step, hhcd, husr]
    exact hs

theorem KeepsAttachment.noReattach {s : UsbHost} {e : UsbEvent}
    (hs : s.usr.manage.state = 1 → s.hcd.connSts = true) (h : KeepsAttachment s e) :
    NoReattach s e := by
  cases e with
  | connected => exact fun hf _ => hs hf
  | process b => exact fun hf hd => (h hf hd).2
  | _ => trivial

/-! ## Runs -/

/-- Right after `HOST_DEV_ATTACHED` the device has not reached the application. -/
theorem not_reached_attached (b : Bus) {s : UsbHost} (ha : s.dispatchState = .devAttached) :
    ¬ Reached (usbhProcess b s).log := by
  have hms : ∀ m ∈ [Mark.deviceSpeedDetected, .resetDevice], m.attach = false := by decide
  have hlog : (usbhProcess b s).log =
      [Mark.deviceSpeedDetected, .resetDevice] ++ .deviceAttached :: s.log := by
    rw [usbhProcess_attached_eq b ha]
    rfl
  intro hr
  unfold Reached at hr
  rw [hlog, sinceAttach_append hms] at hr
  rcases List.mem_append.mp hr with hr | hr
  · exact absurd hr (by decide)
  · exact not_reached_cons s.log rfl hr

theorem truthful_iff (s : UsbHost) (e : UsbEvent)
    (hs : FlagInv s ∧ (s.usr.manage.state = 1 → s.hcd.connSts = true)) :
    Truthful (s.step e) ↔ KeepsAttachment s e := by
  obtain ⟨hinv, hconn⟩ := hs
  constructor
  · intro ht
    cases e with
    | disconnected =>
      intro hf
      by_contra hi
      obtain ⟨hc, -, -, hstate, -⟩ := usbhDisconnected_spec s
      rw [UsbHost.step, if_pos (Bool.of_not_eq_false hi)] at ht
      rw [(ht.1 (hstate.trans hf)).1] at hc
      cases hc
    | process b =>
      intro hf hd
      rw [UsbHost.step, if_pos hd] at ht
      refine ⟨fun hdis => ?_, fun hatt => ?_⟩
      · obtain ⟨hc, -, -, hstate, -⟩ := usbhProcess_disconnected_spec b hdis
        rw [(ht.1 (hstate.trans hf)).1] at hc
        cases hc
      · refine not_reached_attached b hatt (ht.1 ?_).2
        rw [usbhProcess_attached_eq b hatt]
        exact hf
    | _ => trivial
  · intro hok
    have hinv' := flagInv_step s e hinv (hok.noReattach hconn)
    have hconn' := connSts_step s e hconn hok
    exact ⟨fun hf => ⟨hconn' hf, (hinv'.flag (hconn' hf) hf).1⟩, hinv'.issues⟩

theorem truthfulAttached_iff (s : UsbHost) (e : UsbEvent) (hs : FlagInv s) :
    TruthfulAttached (s.step e) ↔ NoReattach s e := by
  constructor
  · intro ht
    cases e with
    | connected =>
      intro hf hi
      by_contra hc
      rw [UsbHost.step, if_pos hi, usbhConnected, if_neg hc] at ht
      exact not_reached_cons s.log rfl (ht.1 rfl hf)
    | process b =>
      intro hf hd hatt
      have hc := connSts_of_attached hatt
      rw [UsbHost.step, if_pos hd] at ht
      refine not_reached_attached b hatt (ht.1 ?_ ?_)
      · rw [usbhProcess_attached_eq b hatt]
        exact hc
      · rw [usbhProcess_attached_eq b hatt]
        exact hf
    | _ => trivial
  · intro hok
    have hinv := flagInv_step s e hs hok
    exact ⟨fun hc hf => (hinv.flag hc hf).1, hinv.issues⟩

/-- **The flag tells the truth throughout a run**, and the disk functions talk only to a device that
is set up, iff no step of the run ends or restarts the attachment while the flag is 1. -/
theorem flag_run_iff (es : List UsbEvent) :
    AllSteps UsbHost.step (fun s e => Truthful (s.step e)) (usbhInit .zero) es ↔
      AllSteps UsbHost.step KeepsAttachment (usbhInit .zero) es :=
  allSteps_iff
    (fun s e hs hok =>
      ⟨flagInv_step s e hs.1 (hok.noReattach hs.2), connSts_step s e hs.2 hok⟩)
    truthful_iff ⟨flagInv_init, nofun⟩

/-- A memory stick without strings. -/
def stick : DeviceProp := ⟨⟨0, 0, 0⟩, ⟨32, 1⟩, ⟨0x08, 0x50⟩, ⟨0x81, 64⟩, ⟨0x02, 64⟩⟩

/-- A bus on which every transfer of the stick succeeds. -/
def answering : Bus := ⟨.done, false, stick, .ok, 0, ⟨13, 0x53425355, 0x20304050, 0⟩⟩

/-- The stick is plugged in and set up, pulled out, and another one plugged in; before the host
looks at it, a file is read. -/
def replug : List UsbEvent :=
  [.connected, .portEnabled] ++ List.replicate 90 (.process answering) ++
    [.disconnected, .process answering, .connected, .disk ⟨false, 0, 0, 1⟩, .diskStep answering]

/-- The flag is still 1 for the new stick, and the disk function sends it a `Read10`. -/
theorem flag_run_replug_reads :
    ¬ AllSteps UsbHost.step (fun s e => Truthful (s.step e)) (usbhInit .zero) replug ∧
      (run UsbHost.step (usbhInit .zero) replug).usr.manage.state = 1 ∧
      (run UsbHost.step (usbhInit .zero) replug).host.gState = .idle ∧
      (run UsbHost.step (usbhInit .zero) replug).log.take 2 = [.read10, .connected] := by
  decide +kernel

/-- **Asked only while a device is attached**, the flag is right throughout a run iff no device is
attached while it is 1. -/
theorem flag_attached_run_iff (es : List UsbEvent) :
    AllSteps UsbHost.step (fun s e => TruthfulAttached (s.step e)) (usbhInit .zero) es ↔
      AllSteps UsbHost.step NoReattach (usbhInit .zero) es :=
  allSteps_iff flagInv_step truthfulAttached_iff flagInv_init

end Stm32F407.Usb
