import RvBoard.Proofs.AddressMap
import RvBoard.Proofs.Board.Activity
import RvBoard.Proofs.Board.PowerOn
import RvBoard.Proofs.Hart.Steady

/-!
# Histories of a board

A board is given its devices, and then it is run, debugged and served by its host. Whatever happens
to it, it stays the board that it was made: the same devices at the same addresses.
-/

set_option autoImplicit false

namespace RvBoard

namespace Bus

structure Enduring (Holds : Bus → Prop) : Prop where
  steady : Steady Holds
  wired : ∀ (bus : Bus) (change : Wires → Wires), (∀ wires, (change wires).signals.plic = wires.signals.plic) →
    Holds bus → Holds (bus.mapWires change)
  stepped : ∀ id bus, Holds bus → Holds (bus.stepDevice id)
  reset : ∀ id bus, Holds bus → Holds (bus.resetDevice id)

theorem resetDevice_shape (id : DeviceId) (bus : Bus) : (bus.resetDevice id).shape = bus.shape :=
  mapDevice_shape id bus fun device _ => device.reset_shape bus.wires

theorem shape_enduring (start : Bus) : Enduring fun bus => bus.shape = start.shape where
  steady := start.shape_steady
  wired _ _ _ same := same
  stepped id bus same := (stepDevice_shape id bus).trans same
  reset id bus same := (resetDevice_shape id bus).trans same

variable {Holds : Bus → Prop} (enduring : Enduring Holds)

include enduring

theorem Enduring.stepAll (ids : List DeviceId) {bus : Bus} (start : Holds bus) :
    Holds (ids.foldl (fun bus id => bus.stepDevice id) bus) := by
  induction ids generalizing bus with
  | nil => exact start
  | cons id rest ih => exact ih (enduring.stepped id bus start)

theorem Enduring.resetAll (ids : List DeviceId) {bus : Bus} (start : Holds bus) : Holds (bus.resetAll ids) := by
  have quiet := enduring.wired bus
    (fun wires => { wires with control := none, signals := { wires.signals with pins := {} } }) (fun _ => rfl) start
  unfold Bus.resetAll
  generalize bus.mapWires _ = first at quiet
  induction ids generalizing first with
  | nil => exact quiet
  | cons id rest ih => exact ih _ (enduring.reset id first quiet)

end Bus

namespace Hart

variable {Holds : Bus → Prop} (enduring : Bus.Enduring Holds)

include enduring

theorem move_endures {hart : Hart} (move : Move) (own : ∀ change, move ≠ .devices change)
    (start : Holds hart.memory.bus) : Holds (move.apply hart).memory.bus :=
  move_steady enduring.steady (fun bus _ => enduring.wired bus _ fun _ => rfl) move
    (fun change same => absurd same (own change)) start

theorem run_endures {hart : Hart} (cycles : UInt64) (start : Holds hart.memory.bus) :
    Holds (hart.run cycles).2.memory.bus := by
  have turns : ∀ next stop, Holds next.memory.bus → Holds (afterTurn next stop).memory.bus :=
    fun next stop before => move_endures enduring (.turn stop) nofun before
  exact runTo_keeps turns (saturatingAdd hart.clock cycles) (cycles.toNat + 1) start

theorem enduring_lasting : Debug.Lasting fun hart : Hart => Holds hart.memory.bus :=
  steady_lasting enduring.steady fun bus _ => enduring.wired bus _ fun _ => rfl

end Hart

namespace Bus

-- What devices and the host do to the bus of a board. The wires are free: lines are driven and bound, and time passes.
inductive Works (bus : Bus) : Bus → Prop
  | wired (change : Wires → Wires) : Works bus (bus.mapWires change)
  | stepped (id : DeviceId) : Works bus (bus.stepDevice id)
  | reset (id : DeviceId) : Works bus (bus.resetDevice id)
  | put (id : DeviceId) (bytes : List UInt8) : Works bus (bus.touch id false (Device.put bytes)).2
  | pumped (id : DeviceId) (console : Console) : Works bus (bus.touch id ([], console) (Device.pump console)).2
  | drained (id : DeviceId) (limit : Option Nat) : Works bus (bus.touch id [] (Device.drain limit)).2
  | broken (id : DeviceId) (change : BlockStore → BlockStore) :
      Works bus (bus.mapDevice id fun device wires => (device.mapStore change, wires))
  | accessed (address : UInt64) (size : Nat) (write : Bool) (value : UInt64) :
      Works bus (left (access address size write value bus))
  | copiedOut (address : UInt64) (n : Nat) : Works bus (left (readBytes address n bus))
  | copiedIn (address : UInt64) (bytes : ByteArray) : Works bus (left (writeBytes address bytes bus))

theorem Works.shape {bus next : Bus} (works : Works bus next) : next.shape = bus.shape := by
  have steady := bus.shape_steady
  cases works with
  | wired change => rfl
  | stepped id => exact stepDevice_shape id bus
  | reset id => exact resetDevice_shape id bus
  | put id bytes => exact touch_shape (fun device => device.put_shape bytes) id false bus
  | pumped id console => exact touch_shape (fun device => device.pump_shape console) id ([], console) bus
  | drained id limit => exact touch_shape (fun device => device.drain_shape limit) id [] bus
  | broken id change => exact mapDevice_shape id bus fun device _ => device.mapStore_shape change
  | accessed address size write value => exact access_keeps steady address size write value bus rfl
  | copiedOut address n => exact steady.readBytes address n bus rfl
  | copiedIn address bytes => exact steady.writeBytes address bytes bus rfl

def windowsWith (bus : Bus) (base : Option UInt64) (device : Device) : Array Window :=
  match base with
  | none => bus.windows
  | some base => bus.windows.insertIdxIfInBounds (rank bus.windows base) ⟨base, device.size, bus.devices.size⟩

end Bus

namespace Board

theorem addDevice_ok {board next : Board} {base : Option UInt64} {device : Device} {id : DeviceId}
    (done : board.addDevice base device = .ok (id, next)) :
    next = { board with
      hart := board.hart.mapBus fun bus =>
        { bus with windows := bus.windowsWith base device, devices := bus.devices.push device }
      devices := board.devices.push board.bus.devices.size } := by
  unfold addDevice at done
  by_cases closed : board.wasReset = true
  · rw [if_pos closed] at done
    cases done
  · rw [if_neg closed] at done
    cases base with
    | none =>
      cases done
      rfl
    | some base =>
      have placed : (board.bus.addDevice device).2.asked base board.bus.devices.size =
          ⟨base, device.size, board.bus.devices.size⟩ := by
        unfold Bus.asked Bus.device? Bus.addDevice
        dsimp only
        rw [Array.getElem?_push_size]
        rfl
      change (do
        let bus ← ((board.bus.addDevice device).2.bind base board.bus.devices.size).mapError BoardError.overlap
        return (board.bus.devices.size,
          { board.mapBus (fun _ => bus) with devices := board.devices.push board.bus.devices.size })) = _ at done
      rcases Bus.bind_cases (board.bus.addDevice device).2 base board.bus.devices.size with ⟨⟨error, refused⟩, _⟩ | ⟨_, bound⟩
      · rw [refused] at done
        cases done
      · rw [bound, placed] at done
        cases done
        rfl

theorem bindLine_ok {board next : Board} {number : UInt32} {owner : String} {line : Line}
    (done : board.bindLine number owner = .ok (line, next)) :
    ∃ owners, next = board.mapWires fun wires =>
      { wires with signals := { wires.signals with plic := { wires.signals.plic with owners := owners } } } := by
  unfold bindLine at done
  cases outcome : board.wires.signals.plic.bind number owner with
  | error error =>
    rw [outcome] at done
    cases done
  | ok bound =>
    rw [outcome] at done
    obtain ⟨_, same⟩ := Plic.bind_unowned outcome
    cases done
    rw [same]
    exact ⟨_, rfl⟩

structure Blank (board : Board) : Prop where
  hart : ∃ windows devices owners,
    board.hart = { memory := { bus := { windows, devices, wires := { signals := { plic := { owners } } } } } }
  order : board.devices = Array.range board.bus.devices.size
  fresh : ∀ device ∈ board.bus.devices, device.Fresh

theorem Blank.added {board next : Board} (blank : board.Blank) {base : Option UInt64} {device : Device} {id : DeviceId}
    (fresh : device.Fresh) (done : board.addDevice base device = .ok (id, next)) :
    next.Blank ∧ next.bus.devices = board.bus.devices.push device := by
  cases addDevice_ok done
  obtain ⟨windows, devices, owners, same⟩ := blank.hart
  refine ⟨⟨⟨board.bus.windowsWith base device, devices.push device, owners, ?_⟩, ?_, ?_⟩, rfl⟩
  · dsimp only
    unfold bus Hart.bus
    rw [same]
    rfl
  · rw [blank.order]
    change _ = Array.range (board.bus.devices.push device).size
    rw [Array.size_push, Array.range_succ]
    exact Array.push_eq_append
  · intro other member
    rcases Array.mem_push.mp member with before | rfl
    · exact blank.fresh other before
    · exact fresh

theorem Blank.bound {board next : Board} (blank : board.Blank) {number : UInt32} {owner : String} {line : Line}
    (done : board.bindLine number owner = .ok (line, next)) : next.Blank ∧ next.bus.devices = board.bus.devices := by
  obtain ⟨owners, rfl⟩ := bindLine_ok done
  obtain ⟨windows, devices, old, same⟩ := blank.hart
  refine ⟨⟨⟨windows, devices, owners, ?_⟩, blank.order, blank.fresh⟩, rfl⟩
  unfold mapWires mapHart takeHart
  dsimp only
  rw [same]
  rfl

theorem Blank.hosted {board next : Board} (blank : board.Blank) (hart : next.hart = board.hart)
    (devices : next.devices = board.devices) : next.Blank ∧ next.bus.devices = board.bus.devices := by
  have bus : next.bus = board.bus := congrArg Hart.bus hart
  refine ⟨⟨?_, ?_, ?_⟩, congrArg Bus.devices bus⟩
  · rw [hart]
    exact blank.hart
  · rw [devices, bus]
    exact blank.order
  · rw [bus]
    exact blank.fresh

def firstDevices : List Device :=
  builtIn.map Prod.snd

theorem places_added (places : List (UInt64 × Device)) (fresh : ∀ place ∈ places, place.2.Fresh) {board final : Board}
    (blank : board.Blank)
    (done : places.foldlM (fun board (base, device) => do return (← board.addDevice (some base) device).2) board = .ok final) :
    final.Blank ∧ final.bus.devices.toList = board.bus.devices.toList ++ places.map Prod.snd := by
  induction places generalizing board with
  | nil =>
    cases done
    exact ⟨blank, (List.append_nil _).symm⟩
  | cons place rest ih =>
    rw [List.foldlM_cons] at done
    cases outcome : board.addDevice (some place.1) place.2 with
    | error error =>
      dsimp only at done
      rw [outcome] at done
      cases done
    | ok added =>
      dsimp only at done
      rw [outcome] at done
      obtain ⟨next, devices⟩ := blank.added (fresh place List.mem_cons_self) outcome
      obtain ⟨after, list⟩ := ih (fun other member => fresh other (List.mem_cons_of_mem _ member)) next done
      refine ⟨after, list.trans ?_⟩
      rw [devices, Array.toList_push, List.append_assoc]
      rfl

theorem builtIn_fresh : ∀ place ∈ builtIn, place.2.Fresh := by
  intro place member
  simp only [builtIn, List.mem_cons, List.not_mem_nil, or_false] at member
  rcases member with rfl | rfl | rfl | rfl
  · exact .bootRom _
  · exact .controller
  · exact .clint
  · exact .plic

theorem new_blank {board : Board} (built : new = .ok board) : board.Blank ∧ board.bus.devices.toList = firstDevices :=
  places_added builtIn builtIn_fresh ⟨⟨#[], #[], _, rfl⟩, rfl, fun _ member => absurd member (Array.not_mem_empty _)⟩ built

-- A board that has been made and given devices.
inductive Configured : Board → Prop
  | new {board : Board} (built : Board.new = .ok board) : Configured board
  | added {board next : Board} {base : Option UInt64} {device : Device} {id : DeviceId} (before : Configured board)
      (fresh : device.Fresh) (done : board.addDevice base device = .ok (id, next)) : Configured next
  | bound {board next : Board} {number : UInt32} {owner : String} {line : Line} (before : Configured board)
      (done : board.bindLine number owner = .ok (line, next)) : Configured next
  | hosted {board next : Board} (before : Configured board) (hart : next.hart = board.hart)
      (devices : next.devices = board.devices) : Configured next

theorem Configured.blank {board : Board} (configured : board.Configured) :
    board.Blank ∧ firstDevices <+: board.bus.devices.toList := by
  induction configured with
  | new built =>
    obtain ⟨blank, devices⟩ := new_blank built
    rw [devices]
    exact ⟨blank, List.prefix_rfl⟩
  | added before fresh done ih =>
    obtain ⟨next, devices⟩ := ih.1.added fresh done
    rw [devices, Array.toList_push]
    exact ⟨next, ih.2.trans (List.prefix_append _ _)⟩
  | bound before done ih =>
    obtain ⟨next, devices⟩ := ih.1.bound done
    rw [devices]
    exact ⟨next, ih.2⟩
  | hosted before hart devices ih =>
    obtain ⟨next, devices⟩ := ih.1.hosted hart devices
    rw [devices]
    exact ⟨next, ih.2⟩

-- The board is made as another one, whatever state it is in.
structure Fits (start board : Board) : Prop where
  shape : board.bus.shape = start.bus.shape
  devices : board.devices = start.devices

theorem Fits.refl (board : Board) : board.Fits board :=
  ⟨rfl, rfl⟩

theorem Fits.trans {start middle board : Board} (first : start.Fits middle) (second : middle.Fits board) :
    start.Fits board :=
  ⟨second.shape.trans first.shape, second.devices.trans first.devices⟩

structure Kept (Holds : Bus → Prop) (start board : Board) : Prop where
  bus : Holds board.bus
  devices : board.devices = start.devices

section Kept

variable {Holds : Bus → Prop} (enduring : Bus.Enduring Holds) {start board : Board}

include enduring

theorem Kept.reset (kept : Kept Holds start board) : Kept Holds start board.reset where
  bus := by
    change Holds board.reset.hart.memory.bus
    rw [Bus.reset_hart]
    exact enduring.resetAll board.devices.toList kept.bus
  devices := kept.devices

theorem Kept.stepDevices (kept : Kept Holds start board) : Kept Holds start board.stepDevices where
  bus := by
    change Holds (board.devices.foldl (fun bus id => bus.stepDevice id) board.bus)
    rw [← Array.foldl_toList]
    exact enduring.stepAll board.devices.toList kept.bus
  devices := kept.devices

theorem Kept.handleRequest (kept : Kept Holds start board) : Kept Holds start board.handleRequest := by
  have cleared : Kept Holds start (board.mapWires fun wires => { wires with control := none }) :=
    ⟨enduring.wired board.bus (fun wires => { wires with control := none }) (fun _ => rfl) kept.bus, kept.devices⟩
  unfold Board.handleRequest
  dsimp only
  cases board.wires.control with
  | none => exact cleared
  | some request =>
    cases request with
    | powerOff => exact ⟨cleared.bus, cleared.devices⟩
    | fail code => exact ⟨cleared.bus, cleared.devices⟩
    | reset =>
      have kept := cleared.reset enduring
      exact ⟨kept.bus, kept.devices⟩

theorem Kept.pollDebugger (kept : Kept Holds start board) : Kept Holds start board.pollDebugger.2 := by
  unfold Board.pollDebugger
  cases board.stub with
  | none => exact kept
  | some stub => exact ⟨stub.poll_keeps (Hart.enduring_lasting enduring) board.network kept.bus, kept.devices⟩

omit enduring in
theorem Kept.reportBreakpoint (kept : Kept Holds start board) : Kept Holds start board.reportBreakpoint := by
  unfold Board.reportBreakpoint
  cases board.stub with
  | none => exact kept
  | some stub => exact ⟨kept.bus, kept.devices⟩

theorem Kept.slice (kept : Kept Holds start board) (cycles : UInt64) : Kept Holds start (board.slice cycles).2 := by
  have ran := Hart.run_endures enduring (min cycles pollInterval) kept.bus
  unfold Board.slice takeHart
  dsimp only
  change Holds (board.hart.run (min cycles pollInterval)).2.memory.bus at ran
  generalize board.hart.run (min cycles pollInterval) = outcome at ran
  obtain ⟨⟨spent, reason⟩, hart⟩ := outcome
  have moved : Kept Holds start { board with hart := hart } := ⟨ran, kept.devices⟩
  have stepped := moved.stepDevices enduring
  cases reason with
  | budget => exact stepped
  | breakpoint => exact stepped.reportBreakpoint
  | yield => exact stepped.handleRequest enduring

theorem Kept.runFor (n : Nat) (cycles : UInt64) {board : Board} (kept : Kept Holds start board) :
    Kept Holds start (runFor n cycles board) := by
  induction n generalizing cycles board with
  | zero => exact kept
  | succ n ih =>
    unfold Board.runFor
    split
    · exact kept
    · have polled := kept.pollDebugger enduring
      generalize board.pollDebugger = outcome at polled
      obtain ⟨halted, board⟩ := outcome
      cases halted with
      | true => exact polled
      | false =>
        have sliced := polled.slice enduring cycles
        dsimp only at sliced ⊢
        generalize board.slice cycles = outcome at sliced
        obtain ⟨spent, board⟩ := outcome
        cases spent with
        | none => exact sliced
        | some spent => exact ih _ sliced

end Kept

theorem Fits.kept (board : Board) : Kept (fun bus => bus.shape = board.bus.shape) board board :=
  ⟨rfl, rfl⟩

theorem Kept.fits {start board : Board} (kept : Kept (fun bus => bus.shape = start.bus.shape) start board) :
    start.Fits board :=
  ⟨kept.bus, kept.devices⟩

theorem reset_fits (board : Board) : board.Fits board.reset :=
  ((Fits.kept board).reset board.bus.shape_enduring).fits

theorem runFor_fits (n : Nat) (cycles : UInt64) (board : Board) : board.Fits (runFor n cycles board) :=
  ((Fits.kept board).runFor board.bus.shape_enduring n cycles).fits

theorem prepareBoot_eq {board next : Board} (done : board.prepareBoot = .ok next) :
    board.wasReset = true ∧ ∃ written, BootRom.bootInfo? board.firmwareEntry (Fdt.blob board.deviceTree) = some written ∧
      next = { board.mapBus (Bus.mapDevice bootRomId fun _ wires => (.bootRom written.2, wires)) with
        state := if board.isRestarting then .running else board.state } := by
  unfold prepareBoot at done
  cases ready : board.wasReset with
  | false =>
    rw [ready] at done
    cases done
  | true =>
    rw [ready] at done
    dsimp only at done
    cases info : BootRom.bootInfo? board.firmwareEntry (Fdt.blob board.deviceTree) with
    | none =>
      rw [info] at done
      cases done
    | some written =>
      rw [info] at done
      cases done
      exact ⟨rfl, written, rfl, rfl⟩

theorem prepareBoot_ok {board next : Board} (done : board.prepareBoot = .ok next) :
    ∃ rom, next.bus = board.bus.mapDevice bootRomId (fun _ wires => (.bootRom rom, wires)) ∧
      next.devices = board.devices := by
  obtain ⟨_, written, _, rfl⟩ := prepareBoot_eq done
  exact ⟨written.2, rfl, rfl⟩

theorem bootRom_shape {board : Board} (rom : (board.bus.devices[bootRomId]?).map Device.shape = some .bootRom)
    {device : Device} (present : board.bus.devices[bootRomId]? = some device) : Device.Shape.bootRom = device.shape := by
  rw [present] at rom
  exact (Option.some.inj rom).symm

theorem prepareBoot_fits {board next : Board} (rom : (board.bus.devices[bootRomId]?).map Device.shape = some .bootRom)
    (done : board.prepareBoot = .ok next) : board.Fits next := by
  obtain ⟨written, bus, devices⟩ := prepareBoot_ok done
  have shape := @Bus.mapDevice_shape (fun _ wires => (.bootRom written, wires)) bootRomId board.bus
    fun device present => bootRom_shape rom present
  exact ⟨(congrArg Bus.shape bus).trans shape, devices⟩

-- Boards that come from one that was made and given devices: from where they were once made to where they are now.
-- A device is added to both. Everything else happens to the one in use.
inductive Reached : Board → Board → Prop
  | configured {board : Board} (configured : board.Configured) : Reached board board
  | added {start board next other : Board} {base : Option UInt64} {device : Device} {id number : DeviceId}
      (before : Reached start board) (fresh : device.Fresh) (there : start.addDevice base device = .ok (id, next))
      (here : board.addDevice base device = .ok (number, other)) : Reached next other
  | stepped {start board : Board} (before : Reached start board) (cycles : UInt64) : Reached start (board.step cycles)
  | reset {start board : Board} (before : Reached start board) : Reached start board.reset
  | prepared {start board next : Board} (before : Reached start board) (done : board.prepareBoot = .ok next) :
      Reached start next
  | moved {start board : Board} (before : Reached start board) (move : Hart.Move) (own : ∀ change, move ≠ .devices change) :
      Reached start (board.mapHart fun hart => move.apply hart)
  | worked {start board : Board} (before : Reached start board) {change : Bus → Bus}
      (works : board.bus.Works (change board.bus)) : Reached start (board.mapBus change)
  | hosted {start board next : Board} (before : Reached start board) (hart : next.hart = board.hart)
      (devices : next.devices = board.devices) : Reached start next

variable {start board : Board}

theorem Reached.configuration (reached : Reached start board) : start.Configured := by
  induction reached with
  | configured configured => exact configured
  | added before fresh there here ih => exact .added ih fresh there
  | _ => assumption

theorem Configured.bootRom (configured : start.Configured) :
    (start.bus.devices[bootRomId]?).map Device.shape = some .bootRom := by
  obtain ⟨rest, devices⟩ := configured.blank.2
  rw [← Array.getElem?_toList, ← devices]
  rfl

theorem Configured.plic (configured : start.Configured) : .plic ∈ start.bus.devices.toList := by
  obtain ⟨rest, devices⟩ := configured.blank.2
  rw [← devices]
  exact List.mem_append_left rest (.tail _ (.tail _ (.tail _ (.head _))))

theorem Fits.shapes (fits : start.Fits board) :
    board.bus.devices.map Device.shape = start.bus.devices.map Device.shape :=
  congrArg (fun shape => shape.2.1) fits.shape

theorem Fits.size (fits : start.Fits board) : board.bus.devices.size = start.bus.devices.size := by
  have sizes := congrArg Array.size fits.shapes
  rw [Array.size_map, Array.size_map] at sizes
  exact sizes

theorem Fits.bootRom (fits : start.Fits board) (configured : start.Configured) :
    (board.bus.devices[bootRomId]?).map Device.shape = some .bootRom := by
  have same := congrArg (fun shapes => shapes[bootRomId]?) fits.shapes
  rw [Array.getElem?_map, Array.getElem?_map, configured.bootRom] at same
  exact same

theorem Fits.added {next other : Board} (fits : start.Fits board) {base : Option UInt64} {device : Device}
    {id number : DeviceId} (there : start.addDevice base device = .ok (id, next))
    (here : board.addDevice base device = .ok (number, other)) : next.Fits other := by
  have windows : board.bus.windows = start.bus.windows := congrArg (fun shape => shape.1) fits.shape
  have held : board.bus.held = start.bus.held := congrArg (fun shape => shape.2.2) fits.shape
  have placed : board.bus.windowsWith base device = start.bus.windowsWith base device := by
    unfold Bus.windowsWith
    rw [windows, fits.size]
  cases addDevice_ok there
  cases addDevice_ok here
  refine ⟨?_, ?_⟩
  · change (board.bus.windowsWith base device, (board.bus.devices.push device).map Device.shape, board.bus.held) =
      (start.bus.windowsWith base device, (start.bus.devices.push device).map Device.shape, start.bus.held)
    rw [placed, Array.map_push, Array.map_push, fits.shapes, held]
  · dsimp only
    rw [fits.devices, fits.size]

theorem Reached.fits (reached : Reached start board) : start.Fits board := by
  induction reached with
  | configured configured => exact Fits.refl _
  | added before fresh there here ih => exact ih.added there here
  | stepped before cycles ih => exact ih.trans (runFor_fits _ cycles _)
  | reset before ih => exact ih.trans (reset_fits _)
  | prepared before done ih => exact ih.trans (prepareBoot_fits (ih.bootRom before.configuration) done)
  | moved before move own ih => exact ih.trans ⟨Hart.move_endures (Bus.shape_enduring _) move own rfl, rfl⟩
  | worked before works ih => exact ih.trans ⟨works.shape, rfl⟩
  | hosted before hart devices ih => exact ih.trans ⟨congrArg (fun hart => hart.memory.bus.shape) hart, devices⟩

end Board

end RvBoard
