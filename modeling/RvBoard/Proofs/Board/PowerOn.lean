import RvBoard.Proofs.Board.Activity
import RvBoard.Proofs.Board.Shapes
import RvBoard.Proofs.Plic.Candidates

/-!
# Power-on state

A board is built of fresh devices and has idle wires. A reset of all devices, one after the other,
brings whatever has become of it back there, and leaves it what is meant to survive.
-/

set_option autoImplicit false

namespace RvBoard

namespace Plic.Signals

structure Quiet (signals : Signals) : Prop where
  pending : signals.pins.pending &&& ~~~(Mip.meip ||| Mip.seip) = 0
  compare : signals.pins.mtimecmp = 0xffffffffffffffff

-- No pin is high, and the controller is as it was built, but for the levels and owners of the lines.
structure Calm (signals : Signals) : Prop where
  pins : signals.pins = {}
  priority : signals.plic.priority = ({} : Plic).priority
  inService : signals.plic.inService = ({} : Plic).inService
  contexts : signals.plic.contexts = ({} : Plic).contexts

theorem set_quiet {pins : Pins} (context : Fin 2) (level : Bool) :
    (pins.set (contextPin context) level).pending &&& ~~~(Mip.meip ||| Mip.seip) =
      pins.pending &&& ~~~(Mip.meip ||| Mip.seip) := by
  have apart : ∀ context, contextPin context &&& ~~~(Mip.meip ||| Mip.seip) = 0 := by decide
  exact Pins.set_apart pins level (apart context)

theorem Quiet.update {signals : Signals} (quiet : signals.Quiet) : signals.update.Quiet where
  pending := (set_quiet 1 _).trans ((set_quiet 0 _).trans quiet.pending)
  compare := quiet.compare

theorem Quiet.drive {signals : Signals} (quiet : signals.Quiet) (line : Line) (level : Bool) :
    (signals.drive line level).Quiet := by
  unfold Signals.drive
  cases signals.plic.level[line] == level with
  | true => exact quiet
  | false => exact Quiet.update ⟨quiet.pending, quiet.compare⟩

theorem candidate_disabled {plic : Plic} (off : plic.contexts = ({} : Plic).contexts) (context : Fin 2) :
    plic.candidate context = none := by
  have best := candidate_best plic context
  cases found : plic.candidate context with
  | none => rfl
  | some line =>
    rw [found] at best
    have enabled := best.2.1.enabled
    rw [off] at enabled
    have none : ∀ context word : Fin 2, (({} : Plic).contexts.get context).enable.get word = 0 := by decide
    rw [none] at enabled
    simp at enabled

theorem Quiet.lowered {signals : Signals} (quiet : signals.Quiet) (off : signals.plic.contexts = ({} : Plic).contexts) :
    signals.update.pins = {} := by
  have pending := quiet.pending
  have masks : ~~~(Mip.meip ||| Mip.seip) = ~~~Mip.meip &&& ~~~Mip.seip := by decide
  rw [masks, ← UInt64.and_assoc] at pending
  unfold Signals.update updatePins
  rw [candidate_disabled off, candidate_disabled off]
  exact congr (congrArg Pins.mk pending) quiet.compare

theorem Quiet.reset {signals : Signals} (quiet : signals.Quiet) : signals.reset.Calm where
  pins := Quiet.lowered ⟨quiet.pending, quiet.compare⟩ rfl
  priority := rfl
  inService := rfl
  contexts := rfl

theorem Calm.quiet {signals : Signals} (calm : signals.Calm) : signals.Quiet where
  pending := by
    rw [calm.pins]
    rfl
  compare := congrArg Pins.mtimecmp calm.pins

theorem Calm.drive {signals : Signals} (calm : signals.Calm) (line : Line) (level : Bool) :
    (signals.drive line level).Calm := by
  unfold Signals.drive
  cases signals.plic.level[line] == level with
  | true => exact calm
  | false =>
    refine ⟨?_, calm.priority, calm.inService, calm.contexts⟩
    exact Quiet.lowered ⟨calm.quiet.pending, calm.quiet.compare⟩ calm.contexts

end Plic.Signals

theorem Virtio.Transport.reset_fresh {δ : Type} [Processor δ] [Marked δ] {transport : Transport δ} {backend : δ}
    (same : transport.shape = (Transport.ofBackend backend).shape) :
    transport.reset = .ofBackend (Backend.reset transport.backend) := by
  have size : transport.slots.size = Backend.queueCount δ := (Prod.ext_iff.mp same).1.trans Array.size_replicate
  unfold reset ofBackend
  rw [Array.map_const', size]

namespace Device

open Plic (Signals)
open Virtio (Transport Block)

-- A device as it is built.
inductive Fresh : Device → Prop
  | ram (memory : Ram) : Fresh (.ram memory)
  | bootRom (rom : BootRom) : Fresh (.bootRom rom)
  | controller : Fresh (.controller {})
  | clint : Fresh .clint
  | plic : Fresh .plic
  | uart (line : Line) : Fresh (.uart line {})
  | rtc (line : Line) : Fresh (.rtc line {})
  | block (line : Line) (block : Block) : Fresh (.block line (.ofBackend block))
  | share (line : Line) (tag : String) (fs : HostShare) : Fresh (.share line (.ofBackend (NineP.Server.withTag tag fs)))
  | echo (line : Line) : Fresh (.echo line (.ofBackend {}))

inductive Relic where
  | nothing
  | memory (data : ByteArray)
  | output (bytes : Array UInt8)
  | disk (store : BlockStore)
  | tree (fs : HostShare)

def relic : Device → Relic
  | .ram memory => .memory memory.data
  | .bootRom rom => .memory rom.data
  | .uart _ port => .output port.tx
  | .block _ transport => .disk transport.backend.store
  | .share _ transport => .tree transport.backend.fs
  | _ => .nothing

def carrying (device : Device) (relic : Relic) : Device :=
  match device, relic with
  | .ram _, .memory data => .ram ⟨data⟩
  | .bootRom _, .memory data => .bootRom ⟨data⟩
  | .uart line port, .output bytes => .uart line { port with tx := bytes }
  | .block line transport, .disk store => .block line { transport with backend := ⟨store⟩ }
  | .share line transport, .tree fs => .share line { transport with backend := { transport.backend with fs := fs } }
  | device, _ => device

theorem carrying_relic (device : Device) : device.carrying device.relic = device := by
  cases device <;> rfl

def rested (device : Device) : Device :=
  (device.reset {}).1

theorem reset_rested (device : Device) (wires : Wires) : (device.reset wires).1 = device.rested := by
  cases device <;> rfl

theorem rested_shape (device : Device) : device.rested.shape = device.shape :=
  device.reset_shape {}

theorem rested_relic (device : Device) : device.rested.relic = device.relic := by
  cases device <;> rfl

theorem rested_carrying {start now : Device} (fresh : start.Fresh) (same : now.shape = start.shape) :
    now.rested = start.carrying now.relic := by
  cases fresh with
  | block line block =>
    cases now with
    | block other transport =>
      obtain ⟨rfl, shape⟩ := Shape.block.inj same
      exact congrArg (Device.block other) (Transport.reset_fresh shape)
    | _ => cases same
  | share line tag fs =>
    cases now with
    | share other transport =>
      obtain ⟨rfl, shape⟩ := Shape.share.inj same
      have server : transport.backend.reset = { NineP.Server.withTag tag fs with fs := transport.backend.fs } :=
        congrArg (fun mark => ({ fs := transport.backend.fs, tag := mark } : Virtio.Share)) (Prod.ext_iff.mp shape).2
      exact congrArg (Device.share other) ((Transport.reset_fresh shape).trans (congrArg Transport.ofBackend server))
    | _ => cases same
  | echo line =>
    cases now with
    | echo other transport =>
      obtain ⟨rfl, shape⟩ := Shape.echo.inj same
      exact congrArg (Device.echo other) (Transport.reset_fresh shape)
    | _ => cases same
  | _ =>
    cases now <;> cases same
    rfl

-- The line that a device drives.
def Shape.line? : Shape → Option Line
  | .uart line | .rtc line | .block line _ | .share line _ | .echo line _ => some line
  | _ => none

def foreign (devices : List Device) (line : Line) : Bool :=
  devices.all fun device => device.shape.line? != some line

structure Cleared (devices : List Device) (before after : Wires) : Prop where
  frame : after = { before with signals := after.signals }
  owners : after.signals.plic.owners = before.signals.plic.owners
  level : ∀ line, after.signals.plic.level.get line = (before.signals.plic.level.get line && foreign devices line)

theorem Cleared.append {first second : List Device} {before middle after : Wires} (one : Cleared first before middle)
    (two : Cleared second middle after) : Cleared (first ++ second) before after where
  frame := by
    have frame := two.frame
    rw [one.frame] at frame
    exact frame
  owners := two.owners.trans one.owners
  level line := by
    unfold foreign
    rw [two.level line, one.level line, List.all_append, Bool.and_assoc]
    rfl

theorem driven_cleared {device : Device} {line : Line} (drives : device.shape.line? = some line) (wires : Wires) :
    Cleared [device] wires (wires.drive line false) where
  frame := rfl
  owners := wires.signals.drive_owners line false
  level other := by
    unfold foreign
    rw [List.all_cons, List.all_nil, Bool.and_true, drives]
    by_cases same : line = other
    · subst same
      rw [bne_self_eq_false, Bool.and_false]
      exact wires.signals.drive_level line false
    · have apart : (some line != some other) = true := bne_iff_ne.mpr fun equal => same (Option.some.inj equal)
      rw [apart, Bool.and_true]
      exact wires.signals.drive_others false same

theorem reset_cleared (device : Device) (wires : Wires) : Cleared [device] wires (device.reset wires).2 := by
  cases device with
  | uart line port => exact driven_cleared rfl wires
  | rtc line clock => exact driven_cleared rfl wires
  | block line transport => exact driven_cleared rfl wires
  | share line transport => exact driven_cleared rfl wires
  | echo line transport => exact driven_cleared rfl wires
  | _ => exact ⟨rfl, rfl, fun line => (Bool.and_true _).symm⟩

theorem reset_quiet (device : Device) {wires : Wires} (quiet : wires.signals.Quiet) :
    (device.reset wires).2.signals.Quiet := by
  cases device with
  | ram memory => exact quiet
  | bootRom rom => exact quiet
  | controller state => exact quiet
  | clint =>
    refine ⟨?_, rfl⟩
    change wires.signals.pins.pending &&& ~~~Mip.msip &&& ~~~(Mip.meip ||| Mip.seip) = 0
    rw [UInt64.and_assoc, UInt64.and_comm (~~~Mip.msip), ← UInt64.and_assoc, quiet.pending, UInt64.zero_and]
  | plic => exact quiet.reset.quiet
  | _ line _ => exact quiet.drive line false

theorem reset_calm (device : Device) {wires : Wires} (calm : wires.signals.Calm) :
    (device.reset wires).2.signals.Calm := by
  cases device with
  | ram memory => exact calm
  | bootRom rom => exact calm
  | controller state => exact calm
  | clint =>
    refine ⟨?_, calm.priority, calm.inService, calm.contexts⟩
    change ({ wires.signals.pins.set Mip.msip false with mtimecmp := 0xffffffffffffffff } : Pins) = {}
    rw [calm.pins]
    rfl
  | plic => exact calm.quiet.reset
  | _ line _ => exact calm.drive line false

def resetWires (devices : List Device) (wires : Wires) : Wires :=
  devices.foldl (fun wires device => (device.reset wires).2) wires

theorem resets_cleared (devices : List Device) (wires : Wires) : Cleared devices wires (resetWires devices wires) := by
  induction devices generalizing wires with
  | nil => exact ⟨rfl, rfl, fun line => (Bool.and_true _).symm⟩
  | cons device rest ih => exact (reset_cleared device wires).append (ih _)

theorem resets_calm (devices : List Device) {wires : Wires} (calm : wires.signals.Calm) :
    (resetWires devices wires).signals.Calm := by
  induction devices generalizing wires with
  | nil => exact calm
  | cons device rest ih => exact ih (device.reset_calm calm)

theorem resets_controller {devices : List Device} (member : .plic ∈ devices) {wires : Wires} (quiet : wires.signals.Quiet) :
    (resetWires devices wires).signals.Calm := by
  induction devices generalizing wires with
  | nil => cases member
  | cons device rest ih =>
    rcases List.mem_cons.mp member with rfl | later
    · exact resets_calm rest quiet.reset
    · exact ih later (device.reset_quiet quiet)

def outside (devices : List Device) (level : Vector Bool 64) : Vector Bool 64 :=
  Vector.ofFn fun line => level.get line && foreign devices line

theorem outside_get (devices : List Device) (level : Vector Bool 64) (line : Line) :
    (outside devices level).get line = (level.get line && foreign devices line) :=
  Vector.getElem_ofFn line.isLt

theorem foreign_rested (devices : List Device) (line : Line) : foreign (devices.map rested) line = foreign devices line := by
  unfold foreign
  rw [List.all_map]
  exact congrArg devices.all (funext fun device => congrArg (fun shape : Shape => shape.line? != some line) device.rested_shape)

theorem outside_again (devices : List Device) (level : Vector Bool 64) :
    outside (devices.map rested) (outside devices level) = outside devices level := by
  apply Vector.ext
  intro line bound
  change (outside (devices.map rested) (outside devices level)).get ⟨line, bound⟩ = (outside devices level).get ⟨line, bound⟩
  rw [outside_get, outside_get, foreign_rested, Bool.and_assoc, Bool.and_self]

theorem outside_low (devices : List Device) : outside devices ({} : Plic).level = ({} : Plic).level := by
  apply Vector.ext
  intro line bound
  have low : ({} : Plic).level.get ⟨line, bound⟩ = false := Vector.getElem_replicate bound
  refine (outside_get devices ({} : Plic).level ⟨line, bound⟩).trans ?_
  rw [low, Bool.false_and]
  exact low.symm

theorem resetWires_eq {devices : List Device} (member : .plic ∈ devices) {wires : Wires} (quiet : wires.signals.Quiet) :
    resetWires devices wires = { wires with signals := { plic := {
      level := outside devices wires.signals.plic.level, owners := wires.signals.plic.owners } } } := by
  have cleared := resets_cleared devices wires
  have calm := resets_controller member quiet
  generalize resetWires devices wires = after at cleared calm
  have level : after.signals.plic.level = outside devices wires.signals.plic.level := by
    apply Vector.ext
    intro line bound
    exact (cleared.level ⟨line, bound⟩).trans (outside_get devices wires.signals.plic.level ⟨line, bound⟩).symm
  rw [cleared.frame, ← level, ← cleared.owners]
  have pins := calm.pins
  have priority := calm.priority
  have inService := calm.inService
  have contexts := calm.contexts
  obtain ⟨clock, ⟨⟨_, _, _, _, _⟩, _⟩, control, time⟩ := after
  cases pins
  cases priority
  cases inService
  cases contexts
  rfl

end Device

end RvBoard
