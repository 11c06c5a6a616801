import PathAccelerator.Display.Mouse
import PathAccelerator.Display.Seg7
import PathAccelerator.Usb.Transfers

/-! The USB part of main.

main is followed from one read of the port to the next. The point names the read that
comes next; its value decides what main does until the read after it. Messages printed on
the console are left out.
-/

set_option autoImplicit false

namespace PathAccelerator.Usb

open Display

/-! ## Registers and flags -/

def hpiSie2MsgAdr : BitVec 16 := 0x0148
def hpiIrqRoutingReg : BitVec 16 := 0x0142
def husbPEOT : BitVec 16 := 0x01B4
def host1StatReg : BitVec 16 := 0xC090
def host2StatReg : BitVec 16 := 0xC0B0
def host1IrqEnReg : BitVec 16 := 0xC08C
def usb1CtlReg : BitVec 16 := 0xC08A

def commReset : BitVec 16 := 0xFA50
def commAck : BitVec 16 := 0x0FED
def commIntNum : BitVec 16 := 0x01C2
def husbSie1InitInt : BitVec 16 := 0x0072
def husbResetInt : BitVec 16 := 0x0074

/-- The registers COMM_R0 to COMM_R13. -/
def commR (i : ℕ) : BitVec 16 := 0x01C4 + BitVec.ofNat 16 (2 * i)

/-- HPI_STATUS_SIE1msg_FLAG is set. -/
def Flagged (status : BitVec 16) : Prop := status &&& 0x0010 ≠ 0

/-- `usb_ctl_val & no_device`, that is, A_DP_STAT or A_DM_STAT is set. -/
def Present (usbCtlVal : BitVec 16) : Prop := usbCtlVal &&& (0x2000 ||| 0x1000) ≠ 0

instance (status : BitVec 16) : Decidable (Flagged status) := inferInstanceAs (Decidable (_ ≠ _))
instance (usbCtlVal : BitVec 16) : Decidable (Present usbCtlVal) :=
  inferInstanceAs (Decidable (_ ≠ _))

/-! ## Points -/

inductive Transfer where
  | request (r : Request)
  | report
  deriving DecidableEq

inductive Point where
  /-- In UsbSoftReset. -/
  | clearMailbox
  | clearStatus
  | clearMessage1
  | clearMessage2
  /-- After the commands HUSB_SIE1_INIT_INT and HUSB_RESET_INT. -/
  | initStatus
  | initAck
  | initFault
  | resetAck
  | resetFault
  | device
  | insertion
  /-- In a transfer. -/
  | await (x : Transfer)
  | message (x : Transfer)
  | tdStatus (r : Request)
  | control (x : Transfer)
  | retryStatus (r : Request)
  | retryMessage (r : Request)
  | retryAwait (r : Request)
  | retryControl (r : Request)
  /-- After the second configuration descriptor. -/
  | interface
  | packetSize
  /-- In the mouse loop. -/
  | firstWord
  | secondWord
  | port (left : ℕ)
  | removed (left : ℕ)
  deriving DecidableEq

def Point.reads : Point → Port
  | .clearMailbox | .initAck | .initFault | .resetAck | .resetFault => .mailbox
  | .clearStatus | .initStatus | .await _ | .retryStatus _ | .retryAwait _ => .status
  | _ => .data

structure Main where
  point : Point
  dataSize : BitVec 8
  toggle : BitVec 8
  buttonValue : BitVec 32
  mouse : Mouse

/-- main at USB_HOT_PLUG for the first time; two locals are not initialized. -/
def Main.initial (dataSize : BitVec 8) (buttonValue : BitVec 32) : Main :=
  ⟨.clearMailbox, dataSize, 0, buttonValue, Mouse.initial⟩

def Main.goto (σ : Main) (point : Point) : Main := { σ with point }

section Goto

variable (σ : Main) (p : Point)

@[simp] theorem goto_point : (σ.goto p).point = p := rfl
@[simp] theorem goto_dataSize : (σ.goto p).dataSize = σ.dataSize := rfl
@[simp] theorem goto_toggle : (σ.goto p).toggle = σ.toggle := rfl
@[simp] theorem goto_mouse : (σ.goto p).mouse = σ.mouse := rfl

end Goto

/-! ## From one read to the next -/

def Main.hotPlug (σ : Main) : List Action × Main :=
  ([.iowr .mailbox commReset, .usleep 100000, .usleep 500000], σ.goto .clearMailbox)

/-- COMM_R0 to COMM_R13, the first of them with the reset time. -/
def commRegisters (resetTime : BitVec 16) : List Action :=
  usbWrite (commR 0) resetTime ++ (List.range 13).flatMap fun i => usbWrite (commR (i + 1)) 0x0000

def sie1Init : List Action :=
  usbWrite hpiSie1MsgAdr 0 ++ usbWrite host1StatReg 0xFFFF ++ usbWrite husbPEOT 600 ++
    usbWrite hpiIrqRoutingReg (0x0400 ||| 0x0040) ++ usbWrite host1IrqEnReg (0x0010 ||| 0x0200) ++
    commRegisters 0x0000 ++ usbWrite commIntNum husbSie1InitInt ++
    [.iowr .mailbox 0xCE01]

def husbReset : List Action :=
  usbWrite commIntNum husbResetInt ++ commRegisters 0x003c ++ [.iowr .mailbox 0xCE01]

def Main.words (σ : Main) : Transfer → List (BitVec 16)
  | .request r => r.transfer.words
  | .report => (reportTd σ.dataSize σ.toggle).words

@[simp] theorem goto_words (σ : Main) (p : Point) (x : Transfer) : (σ.goto p).words x = σ.words x := by
  cases x <;> rfl

def Main.request (σ : Main) (r : Request) : List Action × Main :=
  (submit r.transfer.words ++
    if r = .configurationDescriptor2 then [.usleep 100000] else [], σ.goto (.await (.request r)))

/-- The top of the mouse loop. -/
def Main.poll (σ : Main) : List Action × Main :=
  let σ := { σ with toggle := σ.toggle + 1 }
  (submit (σ.words .report), σ.goto (.await .report))

/-- The control word of a request is 0x03. -/
def Main.pass (σ : Main) : Request → List Action × Main
  | .setAddress => σ.request .deviceDescriptor1
  | .deviceDescriptor1 => σ.request .deviceDescriptor2
  | .deviceDescriptor2 => σ.request .configurationDescriptor1
  | .configurationDescriptor1 => σ.request .configurationDescriptor2
  | .configurationDescriptor2 => (usbRead 0x056c, σ.goto .interface)
  | .setConfiguration => σ.request .classRequestOut
  | .classRequestOut => σ.request .classDescriptor21
  | .classDescriptor21 => σ.request .classDescriptor22
  | .classDescriptor22 => (.usleep 10000 :: σ.poll.1, σ.poll.2)

def Transfer.finished : Transfer → BitVec 16 × Point
  | .request r => (0x0506, .tdStatus r)
  | .report => (0x0508, .control .report)

def shows (m : Mouse) : List Action :=
  (seg7Hex ((m.px.setWidth 32 <<< 16) + m.py.setWidth 32) 0).map (fun call => .seg7Set call.1 call.2) ++
    [.ledr m.px, .ledg m.py] ++ m.shown.map Action.vpg

/-- The end of a turn, once the report is known. -/
def Main.turned (σ : Main) (p : Poll) : List Action × Main :=
  (shows (turn p σ.mouse) ++ .usleep 5000 :: usbRead usb1CtlReg,
    { σ with point := .port 6, mouse := turn p σ.mouse })

def Main.step (v : BitVec 16) (σ : Main) : List Action × Main :=
  match σ.point with
  | .clearMailbox => ([], σ.goto .clearStatus)
  | .clearStatus => (usbRead hpiSie1MsgAdr, σ.goto .clearMessage1)
  | .clearMessage1 => (usbWrite hpiSie1MsgAdr 0 ++ usbRead hpiSie2MsgAdr, σ.goto .clearMessage2)
  | .clearMessage2 =>
    (usbWrite hpiSie2MsgAdr 0 ++ usbWrite host1StatReg 0xFFFF ++ usbWrite host2StatReg 0xFFFF ++
      sie1Init, σ.goto .initStatus)
  | .initStatus => ([], if v &&& 0xFFFF ≠ 0 then σ.goto .initAck else σ)
  | .initAck => if v = commAck then (husbReset, σ.goto .resetAck) else ([], σ.goto .initFault)
  | .initFault => σ.hotPlug
  | .resetAck =>
    if v = commAck then (usbRead usb1CtlReg, σ.goto .device) else ([], σ.goto .resetFault)
  | .resetFault => σ.hotPlug
  | .device =>
    if Present v then σ.request .setAddress else (usbRead usb1CtlReg, σ.goto .insertion)
  | .insertion => if Present v then σ.hotPlug else (.usleep 2000 :: usbRead usb1CtlReg, σ)
  | .await x =>
    if Flagged v then (usbRead hpiSie1MsgAdr, σ.goto (.message x))
    else (submit (σ.words x) ++ [.usleep 10000], σ)
  | .message x =>
    if v = 0x1000 then (usbWrite hpiSie1MsgAdr 0 ++ usbRead x.finished.1, σ.goto x.finished.2)
    else (usbWrite hpiSie1MsgAdr 0 ++ usbRead hpiSie1MsgAdr, σ)
  | .tdStatus r => (usbRead 0x0508, σ.goto (.control (.request r)))
  | .control (.request r) => if v = 0x03 then σ.pass r else ([], σ.goto (.retryStatus r))
  | .retryStatus r => (usbRead hpiSie1MsgAdr, σ.goto (.retryMessage r))
  | .retryMessage r =>
    if v = 0x1000 then (usbWrite hpiSie1MsgAdr 0, σ.goto (.retryAwait r))
    else (usbRead 0x0508, σ.goto (.retryControl r))
  | .retryAwait r => if Flagged v then (usbRead 0x0508, σ.goto (.retryControl r)) else ([], σ)
  | .retryControl r =>
    -- Only the set address request gives up here.
    if r = .setAddress then σ.hotPlug
    else if v = 0x03 then σ.pass r else ([], σ.goto (.retryStatus r))
  | .interface => (usbRead 0x057a, σ.goto .packetSize)
  | .packetSize => { σ with dataSize := (v >>> 8).setWidth 8 }.request .setConfiguration
  | .control .report =>
    if v ≠ 0x03 then σ.turned ⟨v, σ.dataSize, 0, 0⟩ else (usbRead 0x051c, σ.goto .firstWord)
  | .firstWord => ([], { σ with buttonValue := v.setWidth 32, point := .secondWord })
  | .secondWord => σ.turned ⟨0x03, σ.dataSize, σ.buttonValue, v.setWidth 32⟩
  | .port (left + 1) =>
    ((if left = 0 then [.usleep 5000, .usleep 5000] else [.usleep 5000]) ++ usbRead usb1CtlReg,
      σ.goto (.port left))
  | .port 0 => if Present v then σ.poll else (usbRead usb1CtlReg, σ.goto (.removed 2))
  | .removed (left + 1) => (.usleep 5000 :: usbRead usb1CtlReg, σ.goto (.removed left))
  | .removed 0 =>
    if Present v then (.usleep 5000 :: σ.hotPlug.1, σ.hotPlug.2)
    else (.usleep 5000 :: .usleep 200 :: usbRead usb1CtlReg, σ.goto (.removed 2))

def Main.next (v : BitVec 16) (σ : Main) : Main := (σ.step v).2

/-! ## The flow of control

No local of main has a part in where it goes.
-/

def Request.after : Request → Point
  | .setAddress => .await (.request .deviceDescriptor1)
  | .deviceDescriptor1 => .await (.request .deviceDescriptor2)
  | .deviceDescriptor2 => .await (.request .configurationDescriptor1)
  | .configurationDescriptor1 => .await (.request .configurationDescriptor2)
  | .configurationDescriptor2 => .interface
  | .setConfiguration => .await (.request .classRequestOut)
  | .classRequestOut => .await (.request .classDescriptor21)
  | .classDescriptor21 => .await (.request .classDescriptor22)
  | .classDescriptor22 => .await .report

def Point.next (v : BitVec 16) : Point → Point
  | .clearMailbox => .clearStatus
  | .clearStatus => .clearMessage1
  | .clearMessage1 => .clearMessage2
  | .clearMessage2 => .initStatus
  | .initStatus => if v ≠ 0 then .initAck else .initStatus
  | .initAck => if v = commAck then .resetAck else .initFault
  | .initFault => .clearMailbox
  | .resetAck => if v = commAck then .device else .resetFault
  | .resetFault => .clearMailbox
  | .device => if Present v then .await (.request .setAddress) else .insertion
  | .insertion => if Present v then .clearMailbox else .insertion
  | .await x => if Flagged v then .message x else .await x
  | .message x => if v = 0x1000 then x.finished.2 else .message x
  | .tdStatus r => .control (.request r)
  | .control (.request r) => if v = 0x03 then r.after else .retryStatus r
  | .retryStatus r => .retryMessage r
  | .retryMessage r => if v = 0x1000 then .retryAwait r else .retryControl r
  | .retryAwait r => if Flagged v then .retryControl r else .retryAwait r
  | .retryControl r =>
    if r = .setAddress then .clearMailbox else if v = 0x03 then r.after else .retryStatus r
  | .interface => .packetSize
  | .packetSize => .await (.request .setConfiguration)
  | .control .report => if v = 0x03 then .firstWord else .port 6
  | .firstWord => .secondWord
  | .secondWord => .port 6
  | .port (left + 1) => .port left
  | .port 0 => if Present v then .await .report else .removed 2
  | .removed (left + 1) => .removed left
  | .removed 0 => if Present v then .clearMailbox else .removed 2

theorem pass_point (σ : Main) (r : Request) : (σ.pass r).2.point = r.after := by
  cases r <;> rfl

theorem next_point (v : BitVec 16) (σ : Main) : (σ.next v).point = σ.point.next v := by
  have masked : v &&& 0xFFFF = v := BitVec.and_allOnes
  unfold Main.next Main.step
  split <;> rename_i at_point <;> rw [at_point, Point.next]
  all_goals try split_ifs
  all_goals simp_all [Main.hotPlug, Main.request, Main.poll, Main.turned, pass_point]

end PathAccelerator.Usb
