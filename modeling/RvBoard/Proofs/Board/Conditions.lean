import RvBoard.Proofs.Board.PowerOn

/-!
# What devices ask for

A serial port asks to be heard while an enabled source of it is active, a clock while its alarm has gone off and is
enabled, a virtio device while its interrupt status is not zero. Each register handler moves the interrupt line, or
changes nothing of what the device asks for.
-/

set_option autoImplicit false

namespace RvBoard

namespace Wires

-- The level of a line.
def level (wires : Wires) (line : Line) : Bool :=
  wires.signals.plic.level.get line

-- Who has bound the lines.
def owners (wires : Wires) : Vector (Option String) 64 :=
  wires.signals.plic.owners

variable (wires : Wires) (line : Line) (level : Bool)

theorem level_drive : (wires.drive line level).level line = level :=
  wires.signals.drive_level line level

theorem level_drive_other {other : Line} (apart : line ≠ other) : (wires.drive line level).level other = wires.level other :=
  wires.signals.drive_others level apart

theorem drive_level {level : Bool} (told : wires.level line = level) : wires.drive line level = wires := by
  have same : (wires.signals.plic.level[line] == level) = true := beq_iff_eq.mpr told
  rw [drive, Plic.Signals.drive, if_pos same]

theorem level_same {before after : Wires} (same : after.signals.plic = before.signals.plic) :
    after.level line = before.level line :=
  congrArg (fun plic => plic.level.get line) same

theorem owners_drive : (wires.drive line level).owners = wires.owners :=
  wires.signals.drive_owners line level

end Wires

namespace Uart

theorem interrupt_eq (uart : Uart) : uart.interrupt =
    (uart.ier &&& ierData != 0 && !uart.rx.isEmpty || uart.ier &&& ierThre != 0 && uart.threPending) := by
  unfold interrupt cause
  cases uart.ier &&& ierData != 0 && !uart.rx.isEmpty with
  | true => rfl
  | false => cases uart.ier &&& ierThre != 0 && uart.threPending <;> rfl

theorem read_silent {uart : Uart} {offset : UInt64} (silent : uart.readUpdates offset = false) :
    (uart.read offset).2 = uart := by
  unfold readUpdates at silent
  unfold read
  split
  · simp_all
  · rfl
  · simp_all [identify]
  all_goals rfl

theorem fold_full {uart : Uart} (full : uart.canPut = false) (bytes : List UInt8) : bytes.foldl put uart = uart := by
  induction bytes with
  | nil => rfl
  | cons byte rest ih =>
    rw [List.foldl_cons, put, full, if_neg Bool.false_ne_true]
    exact ih

theorem put_silent {uart : Uart} {bytes : List UInt8} (silent : uart.takes bytes = false) : bytes.foldl put uart = uart := by
  rcases Bool.and_eq_false_iff.mp silent with full | nothing
  · exact fold_full full bytes
  · have none : bytes = [] := by simpa using nothing
    rw [none]
    rfl

theorem interrupt_reset (uart : Uart) : uart.reset.interrupt = false := by
  simp [interrupt_eq, reset]

end Uart

theorem Console.pump_silent {console : Console} {port : Uart} (silent : port.takes console.collect.pending = false) :
    (console.pump port).2.2.interrupt = port.interrupt := by
  have left : (fill console.collect.pending (port.drain port.tx.size).2).2 = (port.drain port.tx.size).2 := by
    cases waiting : console.collect.pending with
    | nil => rfl
    | cons byte rest =>
      rw [waiting] at silent
      have full : (port.drain port.tx.size).2.canPut = false := (Bool.and_true port.canPut).symm.trans silent
      rw [fill, full, if_neg Bool.false_ne_true]
  have same := congrArg Uart.interrupt left
  exact same

theorem Clint.store_plic (wires : Wires) (offset : UInt64) (size : Nat) (value : UInt64) :
    (store wires offset size value).2.signals.plic = wires.signals.plic := by
  unfold store
  split
  · rfl
  split
  · rfl
  · rename_i register _
    unfold write
    cases register with
    | mtimecmp =>
      dsimp only
      split <;> rfl
    | _ => rfl

namespace Rtc

theorem interrupt_load (rtc : Rtc) (now offset : UInt64) (size : Nat) :
    (rtc.load now offset size).2.interrupt = rtc.interrupt := by
  unfold load
  split
  · split
    · rename_i register _
      cases register <;> rfl
    · rfl
  · rfl

theorem check_silent {rtc : Rtc} {now : UInt64} (silent : rtc.due now = false) : rtc.check now = rtc := by
  rw [check, silent, if_neg Bool.false_ne_true]

theorem write_silent {rtc : Rtc} {now : UInt64} {value : UInt32} {register : Register}
    (silent : rtc.writeUpdates now value register = false) : (rtc.write now value register).interrupt = rtc.interrupt := by
  cases register with
  | alarmLow =>
    have same := congrArg interrupt (check_silent silent)
    exact same
  | irqEnabled => cases silent
  | clearInterrupt => cases silent
  | _ => rfl

theorem store_silent {rtc : Rtc} {now offset : UInt64} {size : Nat} {value : UInt64}
    (silent : (rtc.store now offset size value).2.2 = false) :
    (rtc.store now offset size value).2.1.interrupt = rtc.interrupt := by
  unfold store at silent ⊢
  split
  · rename_i word
    rw [if_pos word] at silent
    cases register : Register.ofOffset? offset with
    | some register =>
      rw [register] at silent
      exact write_silent silent
    | none => rfl
  · rfl

end Rtc

namespace Virtio.Transport

variable {δ : Type} [Backend δ] {transport : Transport δ}

omit [Backend δ] in
theorem interrupt_writeFeatures (value : UInt32) : (transport.writeFeatures value).interrupt = transport.interrupt := by
  unfold writeFeatures
  split
  · rfl
  split
  · rfl
  split <;> rfl

omit [Backend δ] in
theorem interrupt_notify (queue : UInt32) : (transport.notify queue).interrupt = transport.interrupt := by
  unfold notify
  split <;> rfl

theorem interrupt_writeStatus {value : UInt32} (some : value ≠ 0) :
    (transport.writeStatus value).interrupt = transport.interrupt := by
  unfold writeStatus
  rw [if_neg some]
  dsimp only
  split <;> rfl

omit [Backend δ] in
theorem interrupt_acknowledge {value : UInt32} (remains : (transport.acknowledge value).interrupt = true) :
    transport.interrupt = true := by
  refine bne_iff_ne.mpr fun none => bne_iff_ne.mp remains ?_
  change transport.interruptStatus &&& ~~~(value &&& interruptMask) = 0
  rw [none, UInt32.zero_and]

theorem write_lowers {value : UInt32} {register : Register} (lowers : transport.lowers value register = true) :
    (transport.write value register).interrupt = false := by
  cases register with
  | status =>
    have zero : value = 0 := eq_of_beq lowers
    change (transport.writeStatus value).interrupt = false
    unfold writeStatus
    rw [if_pos zero]
    rfl
  | interruptAck => exact Bool.not_inj (y := false) lowers
  | _ => cases lowers

theorem write_silent {value : UInt32} {register : Register} (silent : transport.lowers value register = false) :
    (transport.write value register).interrupt = transport.interrupt := by
  cases register with
  | status => exact interrupt_writeStatus (ne_of_beq_false silent)
  | interruptAck =>
    have remains : (transport.acknowledge value).interrupt = true := Bool.not_inj (y := true) silent
    exact remains.trans (interrupt_acknowledge remains).symm
  | driverFeatures => exact interrupt_writeFeatures value
  | queueNotify => exact interrupt_notify value
  | _ => rfl

theorem store_lowers {offset : UInt64} {size : Nat} {value : UInt64}
    (lowers : (transport.store offset size value).2.2 = true) :
    (transport.store offset size value).2.1.interrupt = false := by
  unfold store at lowers ⊢
  split at lowers
  · cases lowers
  · rename_i register
    split at lowers
    · rename_i word
      rw [if_neg register, if_pos word]
      cases found : Register.ofOffset? offset with
      | some register =>
        rw [found] at lowers
        exact write_lowers lowers
      | none =>
        rw [found] at lowers
        cases lowers
    · cases lowers

theorem store_silent {offset : UInt64} {size : Nat} {value : UInt64}
    (silent : (transport.store offset size value).2.2 = false) :
    (transport.store offset size value).2.1.interrupt = transport.interrupt := by
  unfold store at silent ⊢
  split
  · rfl
  · rename_i register
    split
    · rename_i word
      rw [if_neg register, if_pos word] at silent
      cases found : Register.ofOffset? offset with
      | some register =>
        rw [found] at silent
        exact write_silent silent
      | none => rfl
    · rfl

end Virtio.Transport

namespace Device

open Virtio (Transport)

-- The line that a device drives.
def line? (device : Device) : Option Line :=
  device.shape.line?

-- Whether a device asks to be heard.
def asks : Device → Bool
  | .uart _ port => port.ier &&& Uart.ierData != 0 && !port.rx.isEmpty || port.ier &&& Uart.ierThre != 0 && port.threPending
  | .rtc _ clock => clock.enabled && clock.pending
  | .block _ transport => transport.interruptStatus != 0
  | .share _ transport => transport.interruptStatus != 0
  | .echo _ transport => transport.interruptStatus != 0
  | _ => false

structure Honest (device : Device) (wires : Wires) (next : Device) (after : Wires) : Prop where
  line : next.line? = device.line?
  own : ∀ line, device.line? = some line → wires.level line = device.asks → after.level line = next.asks
  others : ∀ line, device.line? ≠ some line → after.level line = wires.level line
  owners : after.owners = wires.owners

namespace Honest

variable {device next last : Device} {wires after final : Wires}

theorem quiet (line : next.line? = device.line?) (asks : next.asks = device.asks) : Honest device wires next wires :=
  { line, own := fun _ _ told => told.trans asks.symm, others := fun _ _ => rfl, owners := rfl }

theorem refl (device : Device) (wires : Wires) : Honest device wires device wires :=
  quiet rfl rfl

theorem trans (first : Honest device wires next after) (second : Honest next after last final) :
    Honest device wires last final where
  line := second.line.trans first.line
  own line here told := second.own line (first.line.trans here) (first.own line here told)
  others line apart := (second.others line (first.line ▸ apart)).trans (first.others line apart)
  owners := second.owners.trans first.owners

theorem lineless (here : device.line? = none) (there : next.line? = none) (level : ∀ line, after.level line = wires.level line)
    (owners : after.owners = wires.owners) : Honest device wires next after :=
  ⟨there.trans here.symm, fun _ own _ => (nomatch here.symm.trans own), fun line _ => level line, owners⟩

variable {line : Line}

theorem driven (here : device.line? = some line) (there : next.line? = some line) :
    Honest device wires next (wires.drive line next.asks) where
  line := there.trans here.symm
  own other own _ := by
    cases here.symm.trans own
    exact wires.level_drive line next.asks
  others other apart := wires.level_drive_other line next.asks fun same => apart (same ▸ here)
  owners := wires.owners_drive line next.asks

-- A handler that updates the line tells what the device now asks for; one that does not has changed nothing of it.
theorem updated {changed level : Bool} (here : device.line? = some line) (there : next.line? = some line)
    (tells : changed = true → level = next.asks) (silent : changed = false → next.asks = device.asks) :
    Honest device wires next (wires.update line changed level) := by
  cases changed with
  | true =>
    rw [tells rfl]
    exact driven here there
  | false => exact quiet (there.trans here.symm) (silent rfl)

end Honest

theorem uart_updated {line : Line} {port next : Uart} {wires : Wires} (changed : Bool)
    (silent : changed = false → next.interrupt = port.interrupt) :
    Honest (.uart line port) wires (.uart line next) (wires.update line changed next.interrupt) :=
  Honest.updated rfl rfl (fun _ => next.interrupt_eq)
    fun same => next.interrupt_eq.symm.trans ((silent same).trans port.interrupt_eq)

theorem load_honest (device : Device) (wires : Wires) (offset : UInt64) (size : Nat) :
    Honest device wires (device.load wires offset size).2.1 (device.load wires offset size).2.2 := by
  cases device with
  | plic =>
    have tame := wires.signals.load_tame offset size
    exact Honest.lineless rfl rfl (fun line => congrArg (Vector.get · line) tame.level) tame.owners
  | uart line port => exact uart_updated _ fun silent => congrArg Uart.interrupt (Uart.read_silent silent)
  | rtc line clock => exact Honest.quiet rfl (clock.interrupt_load wires.wallTime offset size)
  | _ => exact Honest.refl _ wires

theorem store_honest (device : Device) (wires : Wires) (offset : UInt64) (size : Nat) (value : UInt64) :
    Honest device wires (device.store wires offset size value).2.1 (device.store wires offset size value).2.2 := by
  cases device with
  | ram memory => exact Honest.quiet rfl rfl
  | bootRom rom => exact Honest.refl _ wires
  | controller state =>
    have same := congrArg Plic.Signals.plic (state.store_signals wires offset size value)
    exact Honest.lineless rfl rfl (fun line => Wires.level_same line same) (congrArg Plic.owners same)
  | clint =>
    have same := Clint.store_plic wires offset size value
    exact Honest.lineless rfl rfl (fun line => Wires.level_same line same) (congrArg Plic.owners same)
  | plic =>
    have tame := wires.signals.store_tame offset size value
    exact Honest.lineless rfl rfl (fun line => congrArg (Vector.get · line) tame.level) tame.owners
  | uart line port => exact uart_updated true nofun
  | rtc line clock => exact Honest.updated rfl rfl (fun _ => rfl) Rtc.store_silent
  | block line transport => exact Honest.updated rfl rfl (fun lowers => (Transport.store_lowers lowers).symm) Transport.store_silent
  | share line transport => exact Honest.updated rfl rfl (fun lowers => (Transport.store_lowers lowers).symm) Transport.store_silent
  | echo line transport => exact Honest.updated rfl rfl (fun lowers => (Transport.store_lowers lowers).symm) Transport.store_silent

theorem honest_closed : Closed Honest where
  refl := Honest.refl
  trans := Honest.trans
  load := load_honest
  store := store_honest
  written _ _ _ := Honest.quiet rfl rfl

theorem reset_honest (device : Device) (wires : Wires) : Honest device wires (device.reset wires).1 (device.reset wires).2 := by
  cases device with
  | clint => exact Honest.lineless rfl rfl (fun _ => rfl) rfl
  | plic => exact Honest.lineless rfl rfl (fun _ => rfl) rfl
  | controller state => exact Honest.quiet rfl rfl
  | ram memory => exact Honest.refl _ wires
  | bootRom rom => exact Honest.refl _ wires
  | uart line port =>
    have told := port.reset.interrupt_eq.symm.trans port.interrupt_reset
    have lowered : Honest (.uart line port) wires (.uart line port.reset) (wires.update line true false) :=
      Honest.updated rfl rfl (fun _ => told.symm) nofun
    exact lowered
  | _ line _ => exact Honest.driven rfl rfl

theorem put_honest (bytes : List UInt8) (device : Device) (wires : Wires) :
    Honest device wires (device.put bytes wires).2.1 (device.put bytes wires).2.2 := by
  cases device with
  | uart line port => exact uart_updated _ fun silent => congrArg Uart.interrupt (Uart.put_silent silent)
  | _ => exact Honest.refl _ wires

theorem pump_honest (console : Console) (device : Device) (wires : Wires) :
    Honest device wires (device.pump console wires).2.1 (device.pump console wires).2.2 := by
  cases device with
  | uart line port => exact uart_updated _ Console.pump_silent
  | _ => exact Honest.refl _ wires

theorem drain_honest (limit : Option Nat) (device : Device) (wires : Wires) :
    Honest device wires (device.drain limit wires).2.1 (device.drain limit wires).2.2 := by
  cases device with
  | uart line port => exact Honest.quiet rfl rfl
  | _ => exact Honest.refl _ wires

theorem mapStore_honest (change : BlockStore → BlockStore) (device : Device) (wires : Wires) :
    Honest device wires (device.mapStore change) wires := by
  cases device with
  | block line transport => exact Honest.quiet rfl rfl
  | _ => exact Honest.refl _ wires

theorem Fresh.asks {device : Device} (fresh : device.Fresh) : device.asks = false := by
  cases fresh <;> rfl

end Device

end RvBoard
