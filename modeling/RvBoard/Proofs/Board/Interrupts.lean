import RvBoard.Proofs.Board.Lines
import RvBoard.Proofs.Board.Reset

/-!
# Lines of a board in use

A host builds a board: it binds lines, gives each to at most one device, and may keep some for itself. From then on the
guest runs, devices make steps and are reset, and the host reads and writes. At any time every line of a device shows
what the device asks for.
-/

set_option autoImplicit false

namespace RvBoard

namespace Bus

-- What guest, devices and host do to a bus. The host drives only lines that it has kept.
inductive Serves (spare : List Line) (bus : Bus) : Bus → Prop
  | accessed (address : UInt64) (size : Nat) (write : Bool) (value : UInt64) :
      Serves spare bus (left (access address size write value bus))
  | copiedOut (address : UInt64) (n : Nat) : Serves spare bus (left (readBytes address n bus))
  | copiedIn (address : UInt64) (bytes : ByteArray) : Serves spare bus (left (writeBytes address bytes bus))
  | stepped (id : DeviceId) : Serves spare bus (bus.stepDevice id)
  | reset (id : DeviceId) : Serves spare bus (bus.resetDevice id)
  | put (id : DeviceId) (bytes : List UInt8) : Serves spare bus (bus.touch id false (Device.put bytes)).2
  | pumped (id : DeviceId) (console : Console) : Serves spare bus (bus.touch id ([], console) (Device.pump console)).2
  | drained (id : DeviceId) (limit : Option Nat) : Serves spare bus (bus.touch id [] (Device.drain limit)).2
  | broken (id : DeviceId) (change : BlockStore → BlockStore) :
      Serves spare bus (bus.mapDevice id fun device wires => (device.mapStore change, wires))
  | timed (clock wallTime : UInt64) :
      Serves spare bus (bus.mapWires fun wires => { wires with clock := clock, wallTime := wallTime })
  | driven {line : Line} (kept : line ∈ spare) (level : Bool) :
      Serves spare bus (bus.mapWires fun wires => wires.drive line level)

theorem Serves.told {spare : List Line} {bus next : Bus} (serves : bus.Serves spare next) (apart : bus.Unshared)
    (tells : bus.Tells) (free : ∀ line ∈ spare, ¬bus.Drives line) :
    next.shape = bus.shape ∧ next.Tells ∧ next.wires.owners = bus.wires.owners := by
  have start : bus.Told bus := Told.refl tells
  have steady := told_steady apart
  have told (told : bus.Told next) : next.shape = bus.shape ∧ next.Tells ∧ next.wires.owners = bus.wires.owners :=
    ⟨told.shape, told.tells, told.owners⟩
  cases serves with
  | accessed address size write value => exact told (access_keeps steady address size write value bus start)
  | copiedOut address n => exact told (steady.readBytes address n bus start)
  | copiedIn address bytes => exact told (steady.writeBytes address bytes bus start)
  | stepped id => exact told ((told_enduring apart).stepped id bus start)
  | reset id => exact told ((told_enduring apart).reset id bus start)
  | put id bytes =>
    exact told (start.touch apart id false (Device.put_shape bytes) (Device.put_honest bytes))
  | pumped id console =>
    exact told (start.touch apart id ([], console) (Device.pump_shape console) (Device.pump_honest console))
  | drained id limit =>
    exact told (start.touch apart id [] (Device.drain_shape limit) (Device.drain_honest limit))
  | broken id change =>
    exact told (start.mapDevice apart id (fun device _ => device.mapStore_shape change)
      fun device _ => device.mapStore_honest change bus.wires)
  | timed clock wallTime => exact told (start.wired _ rfl)
  | @driven line kept level =>
    refine ⟨rfl, fun present own => ?_, bus.wires.owners_drive line level⟩
    have away : line ≠ _ := fun same => free line kept (same ▸ ⟨_, start.listed present own⟩)
    exact (bus.wires.level_drive_other line level away).trans (tells present own)

end Bus

namespace Board

theorem bindLine_unowned {board next : Board} {number : UInt32} {owner : String} {line : Line}
    (done : board.bindLine number owner = .ok (line, next)) :
    board.wires.owners.get line = none ∧ next = board.mapWires fun wires =>
      { wires with signals := { wires.signals with plic := { wires.signals.plic with
          owners := wires.signals.plic.owners.set line (some owner) line.isLt } } } := by
  unfold bindLine at done
  cases outcome : board.wires.signals.plic.bind number owner with
  | error error =>
    rw [outcome] at done
    cases done
  | ok bound =>
    rw [outcome] at done
    obtain ⟨unowned, same⟩ := Plic.bind_unowned outcome
    cases done
    rw [same]
    exact ⟨unowned, rfl⟩

-- A board as its host has built and used it, and the lines that the host has bound and not given to a device. A line
-- that is given away is low.
inductive Operated : List Line → Board → Prop
  | new {board : Board} (built : Board.new = .ok board) : Operated [] board
  | bound {spare : List Line} {board next : Board} {number : UInt32} {owner : String} {line : Line}
      (before : Operated spare board) (done : board.bindLine number owner = .ok (line, next)) :
      Operated (line :: spare) next
  | added {spare : List Line} {board next : Board} {base : Option UInt64} {device : Device} {id : DeviceId}
      (before : Operated spare board) (fresh : device.Fresh)
      (given : ∀ line, device.line? = some line → line ∈ spare ∧ board.wires.level line = false)
      (done : board.addDevice base device = .ok (id, next)) :
      Operated (spare.filter fun line => device.line? != some line) next
  | stepped {spare : List Line} {board : Board} (before : Operated spare board) (cycles : UInt64) :
      Operated spare (board.step cycles)
  | reset {spare : List Line} {board : Board} (before : Operated spare board) : Operated spare board.reset
  | prepared {spare : List Line} {board next : Board} (before : Operated spare board)
      (done : board.prepareBoot = .ok next) : Operated spare next
  | moved {spare : List Line} {board : Board} (before : Operated spare board) (move : Hart.Move)
      (own : ∀ change, move ≠ .devices change) : Operated spare (board.mapHart fun hart => move.apply hart)
  | served {spare : List Line} {board : Board} (before : Operated spare board) {change : Bus → Bus}
      (serves : board.bus.Serves spare (change board.bus)) : Operated spare (board.mapBus change)
  | hosted {spare : List Line} {board next : Board} (before : Operated spare board) (hart : next.hart = board.hart)
      (devices : next.devices = board.devices) : Operated spare next

structure Wired (spare : List Line) (board : Board) : Prop where
  rom : (board.bus.devices[bootRomId]?).map Device.shape = some .bootRom
  apart : board.bus.Unshared
  tells : board.bus.Tells
  distinct : spare.Nodup
  free : ∀ line ∈ spare, ¬board.bus.Drives line
  owned : ∀ line, line ∈ spare ∨ board.bus.Drives line → board.wires.owners.get line ≠ none

section Wired

variable {spare : List Line} {board next : Board} (wired : Wired spare board)

include wired

theorem Wired.kept (shape : next.bus.shape = board.bus.shape) (tells : next.bus.Tells)
    (owners : next.bus.wires.owners = board.bus.wires.owners) : Wired spare next := by
  have lines := Bus.lines_of_shape shape
  have shapes := congrArg (fun shape => shape.2.1[bootRomId]?) shape
  dsimp only [Bus.shape] at shapes
  rw [Array.getElem?_map, Array.getElem?_map] at shapes
  refine ⟨shapes.trans wired.rom, ?_, tells, wired.distinct, ?_, ?_⟩
  · intro first second line here there
    exact wired.apart (lines ▸ here) (lines ▸ there)
  · rintro line member ⟨id, there⟩
    exact wired.free line member ⟨id, lines ▸ there⟩
  · intro line taken
    have same : next.wires.owners = board.wires.owners := owners
    rw [same]
    refine wired.owned line (taken.imp id ?_)
    rintro ⟨id, there⟩
    exact ⟨id, lines ▸ there⟩

theorem Wired.told (told : board.bus.Told next.bus) : Wired spare next :=
  wired.kept told.shape told.tells told.owners

theorem Wired.same (bus : next.bus = board.bus) : Wired spare next := by
  have told := Bus.Told.refl wired.tells
  exact wired.told (bus.symm ▸ told)

theorem Wired.bound {number : UInt32} {owner : String} {line : Line}
    (done : board.bindLine number owner = .ok (line, next)) : Wired (line :: spare) next := by
  obtain ⟨unowned, same⟩ := bindLine_unowned done
  have bus : next.bus = board.bus.mapWires fun wires =>
      { wires with signals := { wires.signals with plic := { wires.signals.plic with
          owners := wires.signals.plic.owners.set line (some owner) line.isLt } } } := congrArg Board.bus same
  have devices : next.bus.devices = board.bus.devices := by
    rw [bus]
    rfl
  have lines : next.bus.lines = board.bus.lines := congrArg (Array.map Device.line?) devices
  have owners : next.wires.owners = board.wires.owners.set line (some owner) line.isLt :=
    (congrArg (fun bus => bus.wires.owners) bus).trans rfl
  have unused : ¬board.bus.Drives line := fun drives => wired.owned line (.inr drives) unowned
  have drives {other : Line} : next.bus.Drives other ↔ board.bus.Drives other := by
    unfold Bus.Drives
    rw [lines]
  refine ⟨devices ▸ wired.rom, ?_, ?_, ?_, ?_, ?_⟩
  · intro first second line here there
    exact wired.apart (lines ▸ here) (lines ▸ there)
  · intro id device line present own
    rw [devices] at present
    rw [bus]
    exact wired.tells present own
  · exact List.nodup_cons.mpr ⟨fun member => wired.owned line (.inl member) unowned, wired.distinct⟩
  · intro other member
    rw [drives]
    rcases List.mem_cons.mp member with rfl | before
    · exact unused
    · exact wired.free other before
  · intro other taken
    rw [owners]
    by_cases same : line = other
    · subst same
      exact fun none => nomatch (Vector.getElem_set_self line.isLt).symm.trans none
    · have kept : (board.wires.owners.set line (some owner) line.isLt).get other = board.wires.owners.get other :=
        Vector.getElem_set_ne line.isLt other.isLt fun equal => same (Fin.ext equal)
      have before : other ∈ spare ∨ board.bus.Drives other := by
        rcases taken with member | driven
        · exact .inl ((List.mem_cons.mp member).resolve_left fun equal => same equal.symm)
        · exact .inr (drives.mp driven)
      exact fun none => wired.owned other before (kept.symm.trans none)

theorem Wired.added {base : Option UInt64} {device : Device} {id : DeviceId} (fresh : device.Fresh)
    (given : ∀ line, device.line? = some line → line ∈ spare ∧ board.wires.level line = false)
    (done : board.addDevice base device = .ok (id, next)) :
    Wired (spare.filter fun line => device.line? != some line) next := by
  have devices : next.bus.devices = board.bus.devices.push device := by
    cases addDevice_ok done
    rfl
  have wires : next.wires = board.wires := by
    cases addDevice_ok done
    rfl
  have lines : next.bus.lines = board.bus.lines.push device.line? := by
    rw [Bus.lines, devices, Array.map_push]
    rfl
  have size : board.bus.lines.size = board.bus.devices.size := Array.size_map
  have listed {id : DeviceId} {line : Line} (there : next.bus.lines[id]? = some (some line)) :
      (id = board.bus.lines.size ∧ device.line? = some line) ∨ board.bus.lines[id]? = some (some line) := by
    rw [lines, Array.getElem?_push] at there
    split at there
    · rename_i last
      exact .inl ⟨last, Option.some.inj there⟩
    · exact .inr there
  have remains {line : Line} (member : line ∈ spare.filter fun line => device.line? != some line) :
      line ∈ spare ∧ device.line? ≠ some line := by
    obtain ⟨before, other⟩ := List.mem_filter.mp member
    exact ⟨before, bne_iff_ne.mp other⟩
  have unused {other : DeviceId} {line : Line} (own : device.line? = some line)
      (there : board.bus.lines[other]? = some (some line)) : False :=
    wired.free line (given line own).1 ⟨other, there⟩
  refine ⟨?_, ?_, ?_, wired.distinct.filter _, ?_, ?_⟩
  · obtain ⟨rom, present, shape⟩ := Option.map_eq_some_iff.mp wired.rom
    have known := (Array.getElem?_eq_some_iff.mp present).1
    rw [devices, Array.getElem?_push, if_neg (Nat.ne_of_lt known), present, Option.map_some, shape]
  · intro first second line here there
    rcases listed here with ⟨last, own⟩ | here <;> rcases listed there with ⟨final, own⟩ | there
    · exact last.trans final.symm
    · exact (unused own there).elim
    · exact (unused own here).elim
    · exact wired.apart here there
  · intro other found line present own
    rw [devices, Array.getElem?_push] at present
    have level : next.bus.wires.level line = board.wires.level line := congrArg (fun wires => wires.level line) wires
    rw [level]
    split at present
    · cases present
      rw [fresh.asks]
      exact (given line own).2
    · exact wired.tells present own
  · rintro line member ⟨other, there⟩
    obtain ⟨before, apart⟩ := remains member
    rcases listed there with ⟨_, own⟩ | there
    · exact apart own
    · exact wired.free line before ⟨other, there⟩
  · intro line taken
    rw [wires]
    rcases taken with member | ⟨other, there⟩
    · exact wired.owned line (.inl (remains member).1)
    · rcases listed there with ⟨_, own⟩ | there
      · exact wired.owned line (.inl (given line own).1)
      · exact wired.owned line (.inr ⟨other, there⟩)

theorem Wired.prepared (done : board.prepareBoot = .ok next) : Wired spare next := by
  obtain ⟨written, bus, _⟩ := prepareBoot_ok done
  have start := Bus.Told.refl wired.tells
  have lineless {device : Device} (present : board.bus.devices[bootRomId]? = some device) : device.line? = none :=
    (congrArg Device.Shape.line? (bootRom_shape wired.rom present)).symm
  have told := @Bus.Told.mapDevice _ _ start wired.apart (fun _ wires => (.bootRom written, wires)) bootRomId
    (fun device present => bootRom_shape wired.rom present)
    (fun device present => Device.Honest.lineless (lineless present) rfl (fun _ => rfl) rfl)
  exact wired.told (bus ▸ told)

theorem Wired.moved (move : Hart.Move) (own : ∀ change, move ≠ .devices change) :
    Wired spare (board.mapHart fun hart => move.apply hart) := by
  have start : board.bus.Told board.hart.memory.bus := Bus.Told.refl wired.tells
  exact wired.told (Hart.move_endures (Bus.told_enduring wired.apart) move own start)

end Wired

theorem firstDevices_lineless : ∀ device ∈ firstDevices, device.line? = none := by
  intro device member
  simp only [firstDevices, builtIn, List.map_cons, List.map_nil, List.mem_cons, List.not_mem_nil, or_false] at member
  rcases member with rfl | rfl | rfl | rfl <;> rfl

theorem new_wired {board : Board} (built : Board.new = .ok board) : Wired [] board := by
  have devices := (new_blank built).2
  have lineless {id : DeviceId} {device : Device} (present : board.bus.devices[id]? = some device) : device.line? = none := by
    rw [← Array.getElem?_toList, devices] at present
    exact firstDevices_lineless device (List.mem_of_getElem? present)
  have unlisted {id : DeviceId} {line : Line} (there : board.bus.lines[id]? = some (some line)) : False := by
    obtain ⟨device, present, own⟩ := Option.map_eq_some_iff.mp (Array.getElem?_map.symm.trans there)
    exact nomatch (lineless present).symm.trans own
  refine ⟨?_, ?_, ?_, List.nodup_nil, ?_, ?_⟩
  · rw [← Array.getElem?_toList, devices]
    rfl
  · exact fun here _ => (unlisted here).elim
  · exact fun present own => nomatch (lineless present).symm.trans own
  · exact fun _ member => nomatch member
  · rintro line (member | ⟨id, there⟩)
    · cases member
    · exact (unlisted there).elim

theorem Operated.wired {spare : List Line} {board : Board} (operated : Operated spare board) : Wired spare board := by
  induction operated with
  | new built => exact new_wired built
  | bound before done ih => exact ih.bound done
  | added before fresh given done ih => exact ih.added fresh given done
  | stepped before cycles ih =>
    have kept : Kept _ _ _ := ⟨Bus.Told.refl ih.tells, rfl⟩
    exact ih.told (kept.runFor (Bus.told_enduring ih.apart) _ cycles).bus
  | reset before ih =>
    have kept : Kept _ _ _ := ⟨Bus.Told.refl ih.tells, rfl⟩
    exact ih.told (kept.reset (Bus.told_enduring ih.apart)).bus
  | prepared before done ih => exact ih.prepared done
  | moved before move own ih => exact ih.moved move own
  | served before serves ih =>
    obtain ⟨shape, tells, owners⟩ := serves.told ih.apart ih.tells ih.free
    exact ih.kept shape tells owners
  | hosted before hart devices ih =>
    exact ih.same (congrArg Hart.bus hart)

/-- The line of every device shows what the device asks for: a serial port, that it has received bytes and may say so, or
that its transmitter has come free and may say so; a clock, that its alarm has gone off and is enabled; a virtio device,
that its interrupt status is not zero. It does so whatever the guest, the devices and the host have done to the board
since it was made. -/
theorem lines_tell {spare : List Line} {board : Board} (operated : Operated spare board) {id : DeviceId} {device : Device}
    (present : board.bus.devices[id]? = some device) {line : Line} (own : device.line? = some line) :
    board.wires.signals.plic.level.get line = device.asks :=
  operated.wired.tells present own

-- A board with a serial port on line 10.
def portBoard : Board :=
  match idleBoard.bindLine 10 Uart.name with
  | .error _ => idleBoard
  | .ok (line, board) =>
    match board.addDevice (some 0x10000000) (.uart line {}) with
    | .error _ => board
    | .ok (_, board) => board

-- After a reset the guest lets received data interrupt, and a byte comes in.
def callingBoard : Board :=
  let board := portBoard.reset.mapBus fun bus => left (Bus.access 0x10000001 0 true 1 bus)
  board.mapBus fun bus => (bus.touch 4 false (Device.put [65])).2

theorem idle_operated : Operated [] idleBoard :=
  .new new_idle

theorem port_operated : ∃ spare, Operated spare portBoard := by
  unfold portBoard
  split
  · exact ⟨[], idle_operated⟩
  · rename_i line board bound
    split
    · exact ⟨[line], .bound idle_operated bound⟩
    · rename_i done
      refine ⟨_, .added (.bound idle_operated bound) (.uart line) ?_ done⟩
      intro other own
      cases own
      refine ⟨List.mem_singleton_self line, ?_⟩
      rw [(bindLine_unowned bound).2]
      have low : ∀ line, idleBoard.wires.level line = false := by decide +kernel
      exact low line

theorem calling_operated : ∃ spare, Operated spare callingBoard := by
  obtain ⟨spare, operated⟩ := port_operated
  exact ⟨spare, .served (.served (.reset operated) (.accessed 0x10000001 0 true 1)) (.put 4 [65])⟩

theorem lines_tell_calling :
    (∃ spare, Operated spare callingBoard) ∧ callingBoard.wires.signals.plic.level.get 10 = true ∧
      ∃ device, callingBoard.bus.devices[4]? = some device ∧ device.line? = some 10 ∧ device.asks = true := by
  obtain ⟨spare, operated⟩ := calling_operated
  have lines : (callingBoard.bus.devices[4]?).map Device.line? = some (some 10) := by decide +kernel
  have asked : (callingBoard.bus.devices[4]?).map Device.asks = some true := by decide +kernel
  obtain ⟨device, present, own⟩ := Option.map_eq_some_iff.mp lines
  rw [present] at asked
  have asks := Option.some.inj asked
  exact ⟨⟨spare, operated⟩, (lines_tell operated present own).trans asks, device, present, own, asks⟩

end Board

end RvBoard
