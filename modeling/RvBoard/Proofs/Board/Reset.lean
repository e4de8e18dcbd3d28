import RvBoard.Proofs.Board.History

/-!
# Reset of a board

A reset brings a board back to power-on, whatever has become of it. What survives is listed in one
place, and the board after the reset is the board as it was made with that put into it.
-/

set_option autoImplicit false

namespace RvBoard

namespace Bus

theorem resetDevice_row (windows : Array Window) (done rest : List Device) (device : Device) (wires : Wires)
    (held : Option DeviceId) :
    resetDevice done.length ⟨windows, (done ++ device :: rest).toArray, wires, held⟩ =
      ⟨windows, (done ++ device.rested :: rest).toArray, (device.reset wires).2, held⟩ := by
  have known : done.length < (done ++ device :: rest).toArray.size := by simp
  unfold resetDevice mapDevice
  rw [dif_pos known]
  simp [Device.reset_rested]

theorem resetDevices_row (windows : Array Window) (rest done : List Device) (wires : Wires) (held : Option DeviceId) :
    (List.range' done.length rest.length).foldl (fun bus id => bus.resetDevice id)
        (⟨windows, (done ++ rest).toArray, wires, held⟩ : Bus) =
      ⟨windows, (done ++ rest.map Device.rested).toArray, Device.resetWires rest wires, held⟩ := by
  induction rest generalizing done wires with
  | nil => rfl
  | cons device rest ih =>
    rw [List.length_cons, List.range'_succ, List.foldl_cons, resetDevice_row]
    have later := ih (done ++ [device.rested]) (device.reset wires).2
    rw [List.length_append, List.append_assoc, List.append_assoc] at later
    exact later

theorem resetAll_eq (bus : Bus) :
    bus.resetAll (List.range bus.devices.size) =
      { bus with
        devices := bus.devices.map Device.rested
        wires := Device.resetWires bus.devices.toList
          { bus.wires with control := none, signals := { bus.wires.signals with pins := {} } } } := by
  have all := resetDevices_row bus.windows bus.devices.toList []
    { bus.wires with control := none, signals := { bus.wires.signals with pins := {} } } bus.held
  have rested : (bus.devices.toList.map Device.rested).toArray = bus.devices.map Device.rested := by
    rw [← List.map_toArray, Array.toArray_toList]
  rw [List.nil_append, List.nil_append, rested] at all
  rw [List.range_eq_range']
  exact all

end Bus

-- What outlives a reset: contents of devices and output that nobody has taken, time, breakpoints, who has bound a
-- line, and the levels of the lines that no device of the board drives.
structure Survivors where
  relics : Array Device.Relic
  clock : UInt64
  wallTime : UInt64
  breakpoints : List UInt64
  owners : Vector (Option String) 64
  levels : Vector Bool 64

namespace Board

def survivors (board : Board) : Survivors where
  relics := board.bus.devices.map Device.relic
  clock := board.wires.clock
  wallTime := board.wires.wallTime
  breakpoints := board.hart.breakpoints
  owners := board.wires.signals.plic.owners
  levels := Device.outside board.bus.devices.toList board.wires.signals.plic.level

end Board

def Bus.carrying (bus : Bus) (survivors : Survivors) : Bus :=
  let plic := { bus.wires.signals.plic with level := survivors.levels, owners := survivors.owners }
  { bus with
    devices := Array.zipWith Device.carrying bus.devices survivors.relics
    wires := { bus.wires with
      clock := survivors.clock
      wallTime := survivors.wallTime
      signals := { bus.wires.signals with plic := plic } } }

def Hart.carrying (hart : Hart) (survivors : Survivors) : Hart :=
  { hart with
    memory := { hart.memory with bus := hart.memory.bus.carrying survivors }
    cycleOffset := 0 - survivors.clock
    breakpoints := survivors.breakpoints }

namespace Board

theorem rested_devices {start now : Array Device} (fresh : ∀ device ∈ start, device.Fresh)
    (shapes : now.map Device.shape = start.map Device.shape) :
    now.map Device.rested = Array.zipWith Device.carrying start (now.map Device.relic) := by
  apply Array.ext_getElem?
  intro id
  have same := congrArg (fun shapes => shapes[id]?) shapes
  rw [Array.getElem?_map, Array.getElem?_map] at same
  rw [Array.getElem?_map, Array.getElem?_zipWith, Array.getElem?_map]
  cases made : start[id]? with
  | none =>
    rw [made] at same
    rw [Option.map_eq_none_iff.mp same]
    rfl
  | some device =>
    rw [made] at same
    obtain ⟨next, present, shape⟩ := Option.map_eq_some_iff.mp same
    rw [present]
    exact congrArg some (Device.rested_carrying (fresh device (Array.mem_of_getElem? made)) shape)

variable {start board : Board}

theorem Reached.order (reached : Reached start board) : board.devices.toList = List.range board.bus.devices.size := by
  have fits := reached.fits
  rw [fits.devices, fits.size, reached.configuration.blank.1.order, Array.toList_range]

theorem Reached.plic (reached : Reached start board) : .plic ∈ board.bus.devices.toList := by
  obtain ⟨id, present⟩ := List.getElem?_of_mem reached.configuration.plic
  have same := congrArg (fun shapes => shapes[id]?) reached.fits.shapes
  rw [Array.getElem?_map, Array.getElem?_map, ← Array.getElem?_toList, ← Array.getElem?_toList, present] at same
  obtain ⟨device, here, shape⟩ := Option.map_eq_some_iff.mp same
  have plic : device = .plic := by
    cases device <;> first | rfl | cases shape
  exact List.mem_of_getElem? (plic ▸ here)

theorem Reached.rests (reached : Reached start board) :
    board.bus.resetAll board.devices.toList =
      ⟨board.bus.windows, board.bus.devices.map Device.rested,
        { clock := board.wires.clock
          wallTime := board.wires.wallTime
          signals := { plic := { level := board.survivors.levels, owners := board.survivors.owners } } },
        board.bus.held⟩ := by
  have low : ({ board.wires.signals with pins := {} } : Plic.Signals).Quiet := ⟨UInt64.zero_and, rfl⟩
  have wires := @Device.resetWires_eq board.bus.devices.toList reached.plic
    { board.wires with control := none, signals := { board.wires.signals with pins := {} } } low
  rw [reached.order, Bus.resetAll_eq]
  exact congrArg (Bus.mk board.bus.windows (board.bus.devices.map Device.rested) · board.bus.held) wires

theorem reset_bus (reached : Reached start board) :
    board.bus.resetAll board.devices.toList = start.bus.carrying board.survivors := by
  have fits := reached.fits
  have blank := reached.configuration.blank.1
  obtain ⟨windows, devices, owners, same⟩ := blank.hart
  have made : start.bus = ⟨windows, devices, { signals := { plic := { owners } } }, none⟩ := congrArg Hart.bus same
  have places : board.bus.windows = start.bus.windows := congrArg (fun shape => shape.1) fits.shape
  have held : board.bus.held = start.bus.held := congrArg (fun shape => shape.2.2) fits.shape
  rw [reached.rests, rested_devices blank.fresh fits.shapes, places, held, made]
  rfl

theorem reset_hart (reached : Reached start board) : board.reset.hart = start.hart.carrying board.survivors := by
  have bus := reset_bus reached
  obtain ⟨windows, devices, owners, same⟩ := reached.configuration.blank.1.hart
  rw [Bus.reset_hart]
  change ({ memory := ⟨board.bus.resetAll board.devices.toList, Tlb.empty, .bare, 0⟩
            cycleOffset := 0 - board.wires.clock
            breakpoints := board.hart.breakpoints } : Hart) = _
  rw [bus]
  unfold Hart.carrying Board.bus Hart.bus
  rw [same]
  rfl

theorem reset_eq (reached : Reached start board) :
    board.reset = { board with hart := start.hart.carrying board.survivors, wasReset := true, exitCode := none } := by
  rw [← reset_hart reached]
  rfl

theorem reset_survivors (reached : Reached start board) : board.reset.survivors = board.survivors := by
  have bus : board.reset.bus = board.bus.resetAll board.devices.toList := congrArg Hart.bus (Bus.reset_hart board)
  rw [reached.rests] at bus
  have relics : (board.bus.devices.map Device.rested).map Device.relic = board.bus.devices.map Device.relic := by
    rw [Array.map_map]
    exact congrArg (board.bus.devices.map ·) (funext Device.rested_relic)
  have levels : Device.outside (board.bus.devices.map Device.rested).toList board.survivors.levels =
      board.survivors.levels := by
    rw [Array.toList_map]
    exact Device.outside_again board.bus.devices.toList _
  change (⟨board.reset.bus.devices.map Device.relic, board.reset.bus.wires.clock, board.reset.bus.wires.wallTime,
    board.hart.breakpoints, board.reset.bus.wires.signals.plic.owners,
    Device.outside board.reset.bus.devices.toList board.reset.bus.wires.signals.plic.level⟩ : Survivors) = _
  rw [bus]
  dsimp only
  rw [relics, levels]
  rfl

theorem reset_cycles (reached : Reached start board) : board.reset.hart.csrValue .mcycle = 0 := by
  rw [reset_hart reached]
  change board.wires.clock + (0 - board.wires.clock) = 0
  rw [UInt64.add_comm, UInt64.sub_add_cancel]

theorem Configured.carries (configured : start.Configured) : start.hart.carrying start.survivors = start.hart := by
  obtain ⟨windows, devices, owners, same⟩ := configured.blank.1.hart
  have relics : Array.zipWith Device.carrying devices (devices.map Device.relic) = devices := by
    rw [Array.zipWith_map_right, Array.zipWith_self]
    exact (congrArg (devices.map ·) (funext Device.carrying_relic)).trans (Array.map_id' devices)
  unfold survivors wires bus Hart.wires Hart.bus Hart.carrying Bus.carrying
  rw [same]
  dsimp only
  rw [relics, Device.outside_low]
  rfl

/-- Whatever has happened to a board, a reset makes it the board that it was at power-on, with what survives put into
it. So two boards of one make with the same survivors are the same after a reset, in all that the guest can see of it:
registers, privilege and control registers, address translation, what waits and what is reserved; the pins and the
interrupt controller; the timer, the serial port, the clock, the system controller; the transports and devices of
virtio. A second reset changes nothing more. -/
theorem reset_complete (reached : Reached start board) :
    board.reset = { board with hart := start.hart.carrying board.survivors, wasReset := true, exitCode := none } ∧
      start.hart.carrying start.survivors = start.hart ∧
      (∀ other, Reached start other → other.survivors = board.survivors → other.reset.hart = board.reset.hart) ∧
      board.reset.survivors = board.survivors ∧
      board.reset.hart.csrValue .mcycle = 0 ∧
      board.reset.reset = board.reset := by
  refine ⟨reset_eq reached, reached.configuration.carries, ?_, reset_survivors reached, reset_cycles reached, ?_⟩
  · intro other there same
    rw [reset_hart there, reset_hart reached, same]
  · rw [reset_eq reached.reset, reset_survivors reached, ← reset_hart reached]
    rfl

-- A board that nobody has touched.
def idleBoard : Board :=
  match new with
  | .ok board => board
  | .error _ => {}

theorem new_idle : new = .ok idleBoard := by
  have makes : new.isOk = true := by decide +kernel
  unfold idleBoard
  cases built : new with
  | ok board => rfl
  | error error =>
    rw [built] at makes
    cases makes

theorem idle_configured : idleBoard.Configured :=
  .new new_idle

def serialBoard : Board :=
  match idleBoard.addDevice (some 0x10000000) (.uart (Fin.last 63) {}) with
  | .ok (_, board) => board
  | .error _ => idleBoard

theorem serial_configured : serialBoard.Configured := by
  unfold serialBoard
  split
  · rename_i done
    exact .added idle_configured (.uart _) done
  · exact idle_configured

def ringingBoard : Board :=
  let board := serialBoard.mapBus fun bus => left (Bus.access 0x10000001 0 true 1 bus)
  board.mapBus fun bus => (bus.touch 4 false (Device.put [65])).2

theorem ringing_reached : Reached serialBoard ringingBoard :=
  .worked (.worked (.configured serial_configured) (.accessed 0x10000001 0 true 1)) (.put 4 [65])

theorem reset_complete_ringing :
    Reached serialBoard ringingBoard ∧ ringingBoard.wires.signals.plic.level.get (Fin.last 63) = true ∧
      ringingBoard.reset.hart = serialBoard.hart.carrying ringingBoard.survivors ∧
      ringingBoard.reset.wires.signals.plic.level.get (Fin.last 63) = false := by
  have complete := reset_complete ringing_reached
  refine ⟨ringing_reached, by decide +kernel, ?_, by decide +kernel⟩
  exact congrArg Board.hart complete.1

def heldBoard : Board :=
  match idleBoard.bindLine 5 "probe" with
  | .ok (line, board) => board.mapWires fun wires => wires.drive line true
  | .error _ => idleBoard

def pendingSources (board : Board) : Option UInt64 :=
  value? (Bus.load 0xc001000 2 board.bus)

theorem held_reached : Reached idleBoard heldBoard := by
  have start : Reached idleBoard idleBoard := .configured idle_configured
  unfold heldBoard
  split
  · rename_i done
    obtain ⟨owners, rfl⟩ := bindLine_ok done
    exact .worked (.worked start (.wired _)) (.wired _)
  · exact start

theorem held_same :
    heldBoard.bus.devices = idleBoard.bus.devices ∧ heldBoard.wires.clock = idleBoard.wires.clock ∧
      heldBoard.hart.breakpoints = idleBoard.hart.breakpoints := by
  unfold heldBoard
  split
  · rename_i done
    obtain ⟨owners, rfl⟩ := bindLine_ok done
    exact ⟨rfl, rfl, rfl⟩
  · exact ⟨rfl, rfl, rfl⟩

theorem held_line_outlives_reset :
    Reached idleBoard idleBoard ∧ Reached idleBoard heldBoard ∧
      (heldBoard.bus.devices = idleBoard.bus.devices ∧ heldBoard.wires.clock = idleBoard.wires.clock ∧
        heldBoard.hart.breakpoints = idleBoard.hart.breakpoints) ∧
      pendingSources idleBoard.reset = some 0 ∧ pendingSources heldBoard.reset = some 0x20 ∧
      (idleBoard.reset.bindLine 5 "other").isOk = true ∧ (heldBoard.reset.bindLine 5 "other").isOk = false :=
  ⟨.configured idle_configured, held_reached, held_same, by decide +kernel, by decide +kernel, by decide +kernel,
    by decide +kernel⟩

end Board

end RvBoard
