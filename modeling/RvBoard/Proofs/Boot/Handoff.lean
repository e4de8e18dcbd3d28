import RvBoard.Proofs.Board.Lifecycle
import RvBoard.Proofs.Boot.Rom
import RvBoard.Proofs.Even
import RvBoard.Proofs.Hart.Slicing

/-!
# Handing over to the firmware

From reset a hart executes five instructions of the boot ROM, whatever shows at its pins. Then it is at the entry address in
machine mode, has taken no trap, and its registers tell which hart it is and where the device tree is.
-/

set_option autoImplicit false

namespace RvBoard.Hart

open BootRom (trampoline parcelAt entryOffset treeOffset base)

abbrev a0 : Reg := .ofNat 10
abbrev a1 : Reg := .ofNat 11
abbrev t0 : Reg := .ofNat 5

-- Steps and runs of a hart, between which its pins change. A run has time, no request and no breakpoint to stop at, and
-- counts as many steps as it has cycles.
inductive Steps (start : Hart) : Nat → Hart → Prop
  | refl : Steps start 0 start
  | pins {n : Nat} {hart : Hart} (before : Steps start n hart) (pins : Pins) :
      Steps start n (hart.mapWires fun wires => { wires with signals := { wires.signals with pins := pins } })
  | step {n : Nat} {hart : Hart} (before : Steps start n hart) (deliver : Bool) :
      Steps start (n + 1) (hart.stepInstruction deliver)
  | run {n : Nat} {hart : Hart} (before : Steps start n hart) (cycles : Nat) (unbroken : hart.breakpoints = [])
      (unasked : hart.wires.control = none) (time : hart.clock.toNat + cycles < 2 ^ 64) :
      Steps start (n + cycles) (hart.run (UInt64.ofNat cycles)).2

structure HandedOver (entry : UInt64) (tree : ByteArray) (hart : Hart) : Prop where
  pc : hart.pc = entry
  number : hart.reg a0 = 0
  address : hart.reg a1 = base + UInt64.ofNat treeOffset
  described : Bus.readBytes (hart.reg a1) tree.size hart.bus = .ok tree hart.bus
  blank : Bus.readBytes (hart.reg a1 + UInt64.ofNat tree.size) (BootRom.size - (treeOffset + tree.size)) hart.bus =
    .ok (Bytes.zeros (BootRom.size - (treeOffset + tree.size))) hart.bus
  machine : hart.privilege = .machine
  untrapped : hart.csrs = CsrFile.initial
  retired : hart.instret = 5

def effects (entry : UInt64) : List (Reg × UInt64) :=
  [(t0, base), (a1, base + UInt64.ofNat treeOffset), (a0, 0), (t0, entry), (.zero, base + 20)]

def bootRegisters (entry : UInt64) (n : Nat) : Registers :=
  ((effects entry).take n).foldl (fun registers effect => registers.write effect.1 effect.2) {}

def bootPc (entry : UInt64) (n : Nat) : UInt64 :=
  if n < 5 then base + UInt64.ofNat (4 * n) else entry

structure Booting (entry : UInt64) (tree : ByteArray) (n : Nat) (hart : Hart) : Prop where
  rom : ∃ id rom, hart.bus.HasRom id rom ∧ rom.Holds entry tree
  pc : hart.pc = bootPc entry n
  registers : hart.registers = bootRegisters entry n
  machine : hart.privilege = .machine
  csrs : hart.csrs = CsrFile.initial
  retired : hart.instret = UInt64.ofNat n
  active : hart.waiting = false

section Booting

variable {entry : UInt64} {tree : ByteArray} {n : Nat} {hart : Hart}

theorem code_decodes : ∀ n < 5, parcelAt (4 * n) &&& 3 = 3 ∧
    decode (wordOf (parcelAt (4 * n)) (parcelAt (4 * n + 2))) = trampoline[n]? := by
  decide +kernel

theorem Booting.mapWires (booting : Booting entry tree n hart) (change : Wires → Wires) :
    Booting entry tree n (hart.mapWires change) := by
  obtain ⟨⟨id, rom, has, holds⟩, pc, registers, machine, csrs, retired, active⟩ := booting
  exact ⟨⟨id, rom, has.mapWires change, holds⟩, pc, registers, machine, csrs, retired, active⟩

theorem Booting.resumed (booting : Booting entry tree n hart) : Booting entry tree n hart.resumed := by
  obtain ⟨rom, pc, registers, machine, csrs, retired, _⟩ := booting
  exact ⟨rom, pc, registers, machine, csrs, retired, rfl⟩

theorem Booting.uninterrupted (booting : Booting entry tree n hart) : hart.interrupt? = none := by
  have enabled : hart.csrs.get .mie = 0 := by
    rw [booting.csrs]
    decide +kernel
  unfold interrupt?
  rw [enabled, UInt64.and_zero]
  rfl

theorem Booting.fetch (booting : Booting entry tree n hart) (place : Nat) (inside : place + 2 ≤ entryOffset)
    (fair : aligned 1 (base + UInt64.ofNat place) = true) :
    Memory.fetch (base + UInt64.ofNat place) hart.fetchContext hart.memory = .ok (parcelAt place) hart.memory := by
  obtain ⟨id, rom, has, holds⟩ := booting.rom
  have small : entryOffset ≤ BootRom.size := by decide
  have read := has.load holds.size 1 (by decide) fair (Nat.le_trans inside small)
  rw [Memory.fetch_through]
  refine Memory.through_machine booting.machine fair ((bind_of_ok read).trans ?_)
  change EStateM.Result.ok (Bytes.wordAt rom.data place 2).toUInt16 _ = _
  rw [holds.parcel inside]
  rfl

theorem places_aligned : ∀ n < 5, aligned 1 (base + UInt64.ofNat (4 * n)) = true ∧
    aligned 1 (base + UInt64.ofNat (4 * n + 2)) = true := by
  decide +kernel

theorem Booting.decoded (booting : Booting entry tree n hart) (before : n < 5) :
    ∃ instr, trampoline[n]? = some instr ∧ Decoded hart instr (hart.fetched 4 hart.memory) := by
  obtain ⟨ones, decodes⟩ := code_decodes n before
  obtain ⟨fairLow, fairHigh⟩ := places_aligned n before
  have code : 4 * n + 4 ≤ entryOffset := by
    change _ ≤ 24
    omega
  have pc : hart.pc = base + UInt64.ofNat (4 * n) := booting.pc.trans (if_pos before)
  have low := booting.fetch (4 * n) (by omega) fairLow
  have high := booting.fetch (4 * n + 2) (by omega) fairHigh
  have behind : hart.pc + 2 = base + UInt64.ofNat (4 * n + 2) := by
    rw [pc, UInt64.add_assoc, UInt64.ofNat_add]
    rfl
  have known : n < trampoline.length := Nat.lt_trans before (by decide)
  rw [← pc] at low
  rw [← behind] at high
  rw [List.getElem?_eq_getElem known] at decodes ⊢
  exact ⟨_, rfl, _, _, _, _, _, .long low ones high, decodes, rfl⟩

theorem Booting.number (booting : Booting entry tree n hart) (args : IArgs) (named : args.imm = 0xf14)
    (nothing : args.rs1 = .zero) :
    csr .set false args hart = .ok () { hart with registers := hart.registers.write args.rd 0, pc := hart.next } := by
  have found : Csr.ofAddress? args.imm = some .mhartid := by
    rw [named]
    decide +kernel
  have allowed : hart.mayAccess .mhartid = true := by
    unfold mayAccess counterOpen
    rw [booting.machine]
    rfl
  have value : hart.csrValue .mhartid = 0 := by
    change hart.csrs.get .mhartid = 0
    rw [booting.csrs]
    decide +kernel
  rw [← value]
  exact csrChange_read hart false args _ (namedCsr_ok hart found allowed) nothing

theorem Booting.loaded (booting : Booting entry tree n hart) (args : IArgs)
    (place : hart.reg args.rs1 + immediate args.imm = base + UInt64.ofNat entryOffset) :
    load .ld args hart = .ok () { hart with registers := hart.registers.write args.rd entry, pc := hart.next } := by
  obtain ⟨id, rom, has, holds⟩ := booting.rom
  have fair : aligned 3 (base + UInt64.ofNat entryOffset) = true := by decide
  have read := has.load holds.size 3 (by decide) fair (by decide)
  have user : hart.dataContext.privilege = .machine := by
    have unmodified : hart.status Mstatus.mprv = false := by
      unfold status
      rw [booting.csrs]
      decide +kernel
    unfold dataContext
    rw [unmodified]
    exact booting.machine
  refine load_completes hart .ld args ?_
  rw [place, DataAccess.run_through]
  refine Memory.through_machine user fair ((bind_of_ok read).trans ?_)
  change EStateM.Result.ok (Bytes.wordAt rom.data entryOffset 8) _ = _
  rw [holds.word_entry]
  rfl

theorem auipc_run (hart : Hart) (args : UArgs) : execute ⟨.auipc, args⟩ hart = .ok () { hart with
    registers := hart.registers.write args.rd (hart.pc + signExtend 32 args.imm), pc := hart.next } := rfl

theorem aluImm_run (hart : Hart) (op : ImmAlu) (args : IArgs) : execute ⟨.aluImm op, args⟩ hart = .ok () { hart with
    registers := hart.registers.write args.rd (op.register.apply (hart.reg args.rs1) (immediate args.imm))
    pc := hart.next } := rfl

theorem jalr_run (hart : Hart) (args : IArgs) : execute ⟨.jalr, args⟩ hart = .ok () { hart with
    registers := hart.registers.write args.rd hart.next
    pc := (hart.reg args.rs1 + immediate args.imm) &&& ~~~1 } := rfl

theorem Booting.executes (booting : Booting entry tree n hart) (even : IsEven entry) (length : hart.instrLength = 4)
    {instr : Instr} (before : n < 5) (here : trampoline[n]? = some instr) :
    execute instr hart = .ok () { hart with registers := bootRegisters entry (n + 1), pc := bootPc entry (n + 1) } := by
  have pc := booting.pc
  have registers := booting.registers
  have behind : hart.next = bootPc entry n + 4 := by
    rw [Hart.next, pc, length]
  match n, before with
  | 0, _ =>
    cases here
    refine (auipc_run hart _).trans ?_
    rw [behind, pc, registers]
    rfl
  | 1, _ =>
    cases here
    refine (aluImm_run hart .addi _).trans ?_
    rw [reg, behind, registers]
    rfl
  | 2, _ =>
    cases here
    refine (booting.number _ rfl rfl).trans ?_
    rw [behind, registers]
    rfl
  | 3, _ =>
    cases here
    refine (booting.loaded _ ?_).trans ?_
    · rw [reg, registers]
      rfl
    · rw [behind, registers]
      rfl
  | 4, _ =>
    cases here
    have target : hart.reg t0 + immediate 0 = entry := by
      rw [reg, registers]
      exact UInt64.add_zero entry
    refine (jalr_run hart _).trans ?_
    dsimp only
    rw [target, even_masked even, behind, registers]
    rfl

theorem Booting.executeOne_eq (booting : Booting entry tree n hart) (even : IsEven entry) (before : n < 5) :
    hart.executeOne = { hart with
      registers := bootRegisters entry (n + 1)
      pc := bootPc entry (n + 1)
      instrLength := 4
      instret := UInt64.ofNat (n + 1) } := by
  obtain ⟨instr, here, decoded⟩ := booting.decoded before
  obtain ⟨rom, pc, registers, machine, csrs, retired, active⟩ := booting
  have fetched : Booting entry tree n (hart.fetched 4 hart.memory) :=
    ⟨rom, pc, registers, machine, csrs, retired, active⟩
  have executed := (instruction_decoded decoded).trans (fetched.executes even rfl before here)
  rw [executeOne_ok executed, UInt64.ofNat_add, ← retired]
  rfl

theorem Booting.next (booting : Booting entry tree n hart) (even : IsEven entry) (before : n < 5) :
    Booting entry tree (n + 1) hart.resumed.executeOne.advance := by
  refine Booting.mapWires ?_ fun wires => { wires with clock := wires.clock + 1 }
  rw [booting.resumed.executeOne_eq even before]
  obtain ⟨rom, _, _, machine, csrs, _, _⟩ := booting
  exact ⟨rom, rfl, rfl, machine, csrs, rfl, rfl⟩

theorem Booting.step (booting : Booting entry tree n hart) (even : IsEven entry) (before : n < 5) (deliver : Bool) :
    Booting entry tree (n + 1) (hart.stepInstruction deliver) := by
  have quiet : (if deliver then hart.resumed.interrupt? else none) = none := by
    cases deliver with
    | false => rfl
    | true => exact booting.resumed.uninterrupted
  rw [step_executes quiet]
  exact booting.next even before

theorem Booting.turn (booting : Booting entry tree n hart) {stop : UInt64} (early : hart.clock < stop)
    (unbroken : hart.breakpoints = []) (unasked : hart.wires.control = none) : hart.turn stop = .instruction := by
  have awake : hart.awake = true := by
    unfold awake
    rw [booting.active]
    rfl
  have passing : hart.atBreakpoint = false := by
    unfold atBreakpoint
    rw [unbroken]
    rfl
  unfold Hart.turn
  rw [if_neg (UInt64.not_le.mpr early), unasked, awake, booting.uninterrupted, passing]
  rfl

theorem Booting.runTo (booting : Booting entry tree n hart) (even : IsEven entry) {cycles : Nat} (within : n + cycles ≤ 5)
    (unbroken : hart.breakpoints = []) (unasked : hart.wires.control = none) {stop : UInt64}
    (time : hart.clock.toNat + cycles = stop.toNat) :
    Booting entry tree (n + cycles) (hart.runTo stop (cycles + 1)).2 := by
  induction cycles generalizing n hart with
  | zero =>
    have late : stop ≤ hart.clock := UInt64.le_iff_toNat_le.mpr (Nat.le_of_eq time.symm)
    rw [runTo_stops (turn_over late), afterTurn_over late]
    exact booting
  | succ cycles ih =>
    have early : hart.clock < stop := UInt64.lt_iff_toNat_lt.mpr (by omega)
    have now := booting.turn early unbroken unasked
    have goes : ∀ why, hart.turn stop ≠ .stop why := by
      intro why
      rw [now]
      exact Turn.noConfusion
    have next := booting.next even (by omega)
    have same := booting.resumed.executeOne_eq even (by omega)
    have steps : n + (cycles + 1) = n + 1 + cycles := by omega
    rw [runTo_goes goes, turn_executes now, steps]
    refine ih next (by omega) ?_ ?_ ?_
    · rw [same]
      exact unbroken
    · rw [same]
      exact unasked
    · have clock : hart.resumed.executeOne.advance.clock = hart.clock + 1 := by
        rw [advance_clock, executeOne_clock]
        rfl
      rw [clock, toNat_after (by have := stop.toNat_lt; change _ + 1 < _; omega)]
      change _ + 1 + _ = _
      omega

theorem Booting.run (booting : Booting entry tree n hart) (even : IsEven entry) {cycles : Nat} (within : n + cycles ≤ 5)
    (unbroken : hart.breakpoints = []) (unasked : hart.wires.control = none) (time : hart.clock.toNat + cycles < 2 ^ 64) :
    Booting entry tree (n + cycles) (hart.run (UInt64.ofNat cycles)).2 := by
  have small : (UInt64.ofNat cycles).toNat = cycles := UInt64.toNat_ofNat_of_lt' (show cycles < 2 ^ 64 by omega)
  have fits : hart.clock.toNat + (UInt64.ofNat cycles).toNat < 2 ^ 64 := by omega
  have stop : saturatingAdd hart.clock (UInt64.ofNat cycles) = hart.clock + UInt64.ofNat cycles := if_pos fits
  unfold Hart.run
  dsimp only
  rw [stop, small]
  exact booting.runTo even within unbroken unasked (by rw [toNat_after fits, small])

theorem Steps.booting {start : Hart} {k : Nat} (steps : Steps start k hart) (even : IsEven entry)
    (booting : Booting entry tree n start) (within : n + k ≤ 5) : Booting entry tree (n + k) hart := by
  induction steps with
  | refl => exact booting
  | pins before pins ih => exact (ih within).mapWires _
  | step before deliver ih => exact (ih (by omega)).step even (by omega) deliver
  | run before cycles unbroken unasked time ih =>
    rw [← Nat.add_assoc]
    exact (ih (by omega)).run even (by omega) unbroken unasked time

theorem Booting.done (booting : Booting entry tree 5 hart) : HandedOver entry tree hart := by
  obtain ⟨⟨id, rom, has, holds⟩, pc, registers, machine, csrs, retired, active⟩ := booting
  have fits := holds.fits
  have address : hart.reg a1 = base + UInt64.ofNat treeOffset := by
    rw [reg, registers]
    rfl
  refine ⟨pc, ?_, address, ?_, ?_, machine, csrs, retired⟩
  · rw [reg, registers]
    rfl
  · rw [address, has.readBytes holds.size (by omega), holds.extract_tree]
  · rw [address, UInt64.add_assoc, ← UInt64.ofNat_add, has.readBytes holds.size (by omega), Nat.add_sub_cancel' fits,
      holds.extract_blank]

inductive Readied (hart : Hart) (id : DeviceId) (rom : BootRom) : Hart → Prop
  | written : Readied hart id rom (hart.mapBus (Bus.writeRom id rom)).reset
  | reset : Readied hart id rom (hart.reset.mapBus (Bus.writeRom id rom))

theorem Readied.booting {ready : Hart} {id : DeviceId} {old rom : BootRom} (readied : Readied hart id rom ready)
    (has : hart.bus.HasRom id old) (holds : rom.Holds entry tree) : Booting entry tree 0 ready := by
  have written := has.written rom
  cases readied with
  | written => exact ⟨⟨id, rom, written, holds⟩, rfl, rfl, rfl, rfl, rfl, rfl⟩
  | reset => exact ⟨⟨id, rom, written, holds⟩, rfl, rfl, rfl, rfl, rfl, rfl⟩

end Booting

-- Boot information that fits is written into the ROM, from which a hart then comes to the firmware.
structure Accepted (entry : UInt64) (tree : ByteArray) (rom : BootRom) : Prop where
  info : BootRom.bootInfo? entry tree = some (treeOffset + tree.size, rom)
  prepared : ∀ board : Board, board.wasReset = true → board.firmwareEntry = entry → Fdt.blob board.deviceTree = tree →
    ∃ next, board.prepareBoot = .ok next ∧ next.hart = board.hart.mapBus (Bus.writeRom Board.bootRomId rom)
  handedOver : IsEven entry → ∀ (hart : Hart) (id : DeviceId) (old : BootRom), hart.bus.HasRom id old →
    ∀ ready, Readied hart id rom ready → ∀ last, Steps ready 5 last → HandedOver entry tree last

-- Boot information that does not fit is refused, and nothing is written.
structure Refused (entry : UInt64) (tree : ByteArray) : Prop where
  info : BootRom.bootInfo? entry tree = none
  unprepared : ∀ board : Board, board.wasReset = true → board.firmwareEntry = entry → Fdt.blob board.deviceTree = tree →
    board.prepareBoot = .error (.bootInfoTooLarge (tree.size + treeOffset)) ∧
      Board.Deed.apply board .prepareBoot = board

section Handoff

variable {entry : UInt64} {tree : ByteArray}

theorem accepted (fits : treeOffset + tree.size ≤ BootRom.size) : ∃ rom, Accepted entry tree rom := by
  obtain ⟨rom, info, holds⟩ := BootRom.bootInfo_fits entry fits
  refine ⟨rom, info, ?_, ?_⟩
  · rintro board ready rfl rfl
    obtain ⟨next, done⟩ := Board.prepareBoot_fitting ready (Option.isSome_iff_exists.mpr ⟨_, info⟩)
    obtain ⟨_, written, same, rfl⟩ := Board.prepareBoot_eq done
    cases info.symm.trans same
    exact ⟨_, done, rfl⟩
  · intro even hart id old has ready readied last steps
    exact (steps.booting even (readied.booting has holds) (Nat.le_refl 5)).done

theorem refused (large : BootRom.size < treeOffset + tree.size) : Refused entry tree := by
  have info := BootRom.bootInfo_large entry large
  refine ⟨info, ?_⟩
  rintro board ready rfl rfl
  have failed : board.prepareBoot = .error (.bootInfoTooLarge ((Fdt.blob board.deviceTree).size + treeOffset)) := by
    unfold Board.prepareBoot
    rw [ready]
    dsimp only
    rw [info]
    rfl
  refine ⟨failed, ?_⟩
  unfold Board.Deed.apply
  rw [failed]

/-- A device tree that fits is handed over: whatever the entry, if it is even, and whatever shows at the pins, five steps
after the ROM has been written and the hart reset the hart is at the entry in machine mode, has taken no trap, and its
registers give its number and the address at which the ROM has this tree and zeros behind it. A tree that does not fit is
refused, and the ROM keeps what it has. -/
theorem firmware_handed_over (entry : UInt64) (tree : ByteArray) :
    (treeOffset + tree.size ≤ BootRom.size → ∃ rom, Accepted entry tree rom) ∧
      (BootRom.size < treeOffset + tree.size → Refused entry tree) :=
  ⟨accepted, refused⟩

-- A hart before a bus with nothing on it but a boot ROM.
def withRom : Hart :=
  { memory := { bus := {
      windows := #[⟨base, UInt64.ofNat BootRom.size, 0⟩]
      devices := #[.bootRom BootRom.empty] } } }

theorem withRom_has : withRom.bus.HasRom 0 BootRom.empty where
  mapped := by
    refine ⟨List.pairwise_singleton _ _, Bus.Spread.disjoint (List.pairwise_singleton _ _), ?_, ?_⟩
    · change ∀ window ∈ #[_], _
      decide
    · change ∀ window ∈ #[_], _ < 1
      decide
  bound := Array.mem_singleton.mpr rfl
  present := rfl
  free := by decide

theorem firmware_handed_over_raised :
    (∃ rom, BootRom.bootInfo? 0x80000000 (Bytes.ofList [0xd0, 0x0d, 0xfe, 0xed]) = some (36, rom) ∧
      ∀ ready, Readied withRom 0 rom ready → ∃ stepped ran,
        Steps ready 5 stepped ∧ HandedOver 0x80000000 (Bytes.ofList [0xd0, 0x0d, 0xfe, 0xed]) stepped ∧
        Steps ready 5 ran ∧ HandedOver 0x80000000 (Bytes.ofList [0xd0, 0x0d, 0xfe, 0xed]) ran) ∧
      Refused 0x80000000 (Bytes.zeros BootRom.size) := by
  refine ⟨?_, (firmware_handed_over 0x80000000 (Bytes.zeros BootRom.size)).2 (by rw [Bytes.size_zeros]; decide)⟩
  obtain ⟨rom, info, _, handed⟩ :=
    (firmware_handed_over 0x80000000 (Bytes.ofList [0xd0, 0x0d, 0xfe, 0xed])).1 (by decide)
  have last := handed (by decide) withRom 0 BootRom.empty withRom_has
  refine ⟨rom, info, fun ready readied => ?_⟩
  have raised : Steps ready 0 _ := Steps.refl.pins ⟨0xffffffffffffffff, 0⟩
  have stepped := ((((raised.step true).step true).step true).step true).step true
  have timely : (0 : UInt64).toNat + 5 < 2 ^ 64 := by decide
  have ran : Steps ready 5 _ :=
    raised.run 5 (by cases readied <;> rfl) (by cases readied <;> rfl) (by cases readied <;> exact timely)
  exact ⟨_, _, stepped, last ready readied _ stepped, ran, last ready readied _ ran⟩

end Handoff

end RvBoard.Hart
