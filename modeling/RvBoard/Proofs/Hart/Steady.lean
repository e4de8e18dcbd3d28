import RvBoard.Proofs.Debug.Targets
import RvBoard.Proofs.Hart.Moves
import RvBoard.Proofs.Hart.TrapEntry
import RvBoard.Proofs.Steady

/-!
# What a hart keeps of its bus

An instruction reaches the bus by fetching and by its one access to memory. What every access to the
bus keeps, and the passing of time keeps, is kept by whatever a hart does.
-/

set_option autoImplicit false

namespace RvBoard.Hart

section Kept

variable {Holds : Bus → Prop} (steady : Bus.Steady Holds)

include steady

theorem executes_steady {hart : Hart} {instr : Instr} {result : EStateM.Result Exception Hart Unit}
    (executes : Executes hart instr result) (start : Holds hart.memory.bus) : Holds (left result).memory.bus := by
  cases executes with
  | accessed asked done registers pc reservation =>
    exact keeps_left (Memory.run_steady steady _ hart.dataContext) start done
  | faulted asked failed reservation =>
    exact keeps_left (Memory.run_steady steady _ hart.dataContext) start failed
  | wrote found allowed written writable registers =>
    change Holds (hart.writeCsr _ _).memory.bus
    rw [writeCsr_bus]
    exact start
  | supervisorReturned allowed =>
    obtain ⟨csrs, same, _⟩ := hart.returnSupervisor_eq
    rw [same]
    exact start
  | machineReturned allowed =>
    obtain ⟨csrs, same, _⟩ := hart.returnMachine_eq
    rw [same]
    exact start
  | _ => exact start

theorem fetched_steady {hart : Hart} {raw length : UInt64} {word : Option UInt32} {parcels : List UInt64}
    {memory : Memory} (read : Fetched hart raw word length parcels memory) (start : Holds hart.memory.bus) :
    Holds memory.bus := by
  cases read with
  | short read alone => exact keeps_left (Memory.fetch_steady steady hart.pc hart.fetchContext) start read
  | long first ones second =>
    have middle := keeps_left (Memory.fetch_steady steady hart.pc hart.fetchContext) start first
    exact keeps_left (Memory.fetch_steady steady (hart.pc + 2) hart.fetchContext) middle second

theorem instructs_steady {hart : Hart} {result : EStateM.Result Exception Hart Unit} (instructs : Instructs hart result)
    (start : Holds hart.memory.bus) : Holds (left result).memory.bus := by
  cases instructs with
  | firstFaulted failed => exact keeps_left (Memory.fetch_steady steady hart.pc hart.fetchContext) start failed
  | secondFaulted first ones failed =>
    have middle := keeps_left (Memory.fetch_steady steady hart.pc hart.fetchContext) start first
    exact keeps_left (Memory.fetch_steady steady (hart.pc + 2) hart.fetchContext) middle failed
  | undecoded read meaningless => exact fetched_steady steady read start
  | executed read meaning outcome executes => exact executes_steady steady executes (fetched_steady steady read start)

omit steady in
theorem trap_bus (hart : Hart) (trap : Trap) : (hart.trap trap).memory.bus = hart.memory.bus := by
  obtain ⟨csrs, pc, same⟩ := (hart.trap_entered trap).frame
  rw [same]

theorem executeOne_steady {hart : Hart} (start : Holds hart.memory.bus) : Holds hart.executeOne.memory.bus := by
  have after := instructs_steady steady (instruction_cases hart) start
  unfold executeOne
  cases outcome : instruction hart with
  | ok done next =>
    rw [outcome] at after
    exact after
  | error why mid =>
    rw [outcome] at after
    dsimp only
    rw [trap_bus]
    exact after

theorem steady_editing : Debug.Editing fun hart : Hart => Holds hart.memory.bus where
  setPc _ _ start := start
  setReg _ _ _ start := start
  setCsr address value hart start := by
    change Holds (hart.debugSetCsr address value).memory.bus
    unfold debugSetCsr
    cases Csr.ofAddress? address with
    | none => exact start
    | some csr =>
      dsimp only
      rw [writeCsr_bus]
      exact start
  readMemory vaddr n hart start := by
    change Holds (hart.runMemory _).2.memory.bus
    rw [runMemory_frame]
    exact Memory.readPages_steady steady hart.dataContext ByteArray.empty vaddr n hart.memory start
  writeMemory vaddr bytes hart start := by
    change Holds (hart.runMemory _).2.memory.bus
    rw [runMemory_frame]
    exact Memory.writePages_steady steady hart.dataContext bytes vaddr 0 hart.memory start
  setBreakpoint _ _ start := start
  clearBreakpoint _ _ start := start
  clearBreakpoints _ start := start

variable (timeless : ∀ (bus : Bus) time, Holds bus → Holds (bus.mapWires fun wires => { wires with clock := time }))

include timeless

theorem progresses_steady {hart next : Hart} {move : Move} (progresses : Progresses hart move next)
    (start : Holds hart.memory.bus) : Holds next.memory.bus := by
  cases progresses with
  | executed now =>
    have resumed : Holds hart.resumed.memory.bus := start
    exact timeless _ _ (executeOne_steady steady resumed)
  | interrupted which resumeFrom =>
    have trapped : Holds ({ hart with waiting := false, resumeFrom := resumeFrom }.trap (.interrupt which)).memory.bus := by
      rw [trap_bus]
      exact start
    exact timeless _ _ trapped
  | slept time => exact timeless _ time start
  | stopped waiting resumeFrom => exact start

theorem move_steady {hart : Hart} (move : Move) (outside : ∀ change, move = .devices change → Holds (change hart.memory.bus))
    (start : Holds hart.memory.bus) : Holds (move.apply hart).memory.bus := by
  have editing := steady_editing steady
  cases move with
  | step deliver => exact progresses_steady steady timeless (step_progresses hart deliver) start
  | turn stop => exact progresses_steady steady timeless (turn_progresses hart stop) start
  | reset => exact start
  | devices change => exact outside change rfl
  | setPc pc => exact start
  | setReg reg value => exact start
  | setCsr address value => exact editing.setCsr address value hart start
  | readMemory vaddr n => exact editing.readMemory vaddr n hart start
  | writeMemory vaddr bytes => exact editing.writeMemory vaddr bytes hart start
  | setBreakpoints breakpoints => exact start

theorem steady_lasting : Debug.Lasting fun hart : Hart => Holds hart.memory.bus where
  toEditing := steady_editing steady
  step _ start := move_steady steady timeless (.step false) nofun start

end Kept

end RvBoard.Hart
