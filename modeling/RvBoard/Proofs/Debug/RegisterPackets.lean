import RvBoard.Proofs.Debug.Targets
import RvBoard.Proofs.Debug.WordTexts
import RvBoard.Proofs.Hart.ZeroRegister

/-!
# Commands that are not understood, and packets of registers

A payload is read to its end before anything is done: the answer that it is malformed comes of just the payloads that spell
no command, and the target is left alone. The registers are told as a row of words, and a row of words that is long enough
sets them.
-/

set_option autoImplicit false

namespace RvBoard.Debug

section Malformed

theorem refused_iff {text : List UInt8} : Action.reply text = Refusal.malformed.reply ↔ text = ascii "E01" :=
  ⟨fun same => by cases same; rfl, fun same => by rw [same]; rfl⟩

theorem encodeBytes_ne (block : List UInt8) : encodeBytes block ≠ ascii "E01" := by
  intro same
  have length := congrArg List.length same
  rw [length_encodeBytes] at length
  have three : (ascii "E01").length = 3 := rfl
  omega

namespace Command

section Spelling

variable {args reply : List UInt8}

theorem parseWriteAll_ne : parseWriteAll args ≠ some (.say reply) := by
  intro spelled
  unfold parseWriteAll at spelled
  simp only [Option.bind_eq_bind, Option.bind_eq_some_iff] at spelled
  obtain ⟨words, _, made⟩ := spelled
  split at made <;> cases made

theorem parseReadRegister_ne : parseReadRegister args ≠ some (.say reply) := by
  simp [parseReadRegister, Option.bind_eq_some_iff]

theorem parseWriteRegister_ne : parseWriteRegister args ≠ some (.say reply) := by
  simp [parseWriteRegister, Option.bind_eq_some_iff]

theorem parseReadMemory_ne : parseReadMemory args ≠ some (.say reply) := by
  simp [parseReadMemory, Option.bind_eq_some_iff]

theorem parseWriteMemory_ne : parseWriteMemory args ≠ some (.say reply) := by
  simp [parseWriteMemory, Option.bind_eq_some_iff]

theorem parseBreakpoint_means (make : UInt64 → Command) (other : ∀ address, make address ≠ .say reply)
    (spelled : parseBreakpoint make args = some (.say reply)) : reply = [] := by
  unfold parseBreakpoint at spelled
  simp only [Option.bind_eq_bind, Option.bind_eq_some_iff, Option.pure_def, Option.some.injEq] at spelled
  obtain ⟨⟨kind, rest⟩, _, address, _, made⟩ := spelled
  split at made
  · exact absurd made (other address)
  · cases made
    rfl

theorem parseQuery_means (spelled : parseQuery args = .say reply) :
    reply ∈ [features, ascii "1", ascii "QC1", ascii "m1", ascii "l", []] := by
  unfold parseQuery at spelled
  repeat' split at spelled
  all_goals cases spelled <;> simp

theorem parseContinue_means (spelled : parseContinue args = some (.say reply)) :
    reply ∈ [ascii "vCont;c;C;s;S", []] := by
  unfold parseContinue at spelled
  dsimp only at spelled
  repeat' split at spelled
  all_goals cases spelled <;> simp

theorem parse_means {payload : List UInt8} (spelled : parse payload = some (.say reply)) : reply ≠ ascii "E01" := by
  have unknown : ([] : List UInt8) ≠ ascii "E01" := by decide
  have queries : ∀ said ∈ [features, ascii "1", ascii "QC1", ascii "m1", ascii "l", []], said ≠ ascii "E01" := by
    decide +kernel
  have actions : ∀ said ∈ [ascii "vCont;c;C;s;S", []], said ≠ ascii "E01" := by decide
  unfold parse at spelled
  split at spelled
  · cases spelled
    exact unknown
  · split at spelled
    · cases spelled
      decide
    · cases spelled
    · exact absurd spelled parseWriteAll_ne
    · exact absurd spelled parseReadRegister_ne
    · exact absurd spelled parseWriteRegister_ne
    · exact absurd spelled parseReadMemory_ne
    · exact absurd spelled parseWriteMemory_ne
    · rw [parseBreakpoint_means .setBreakpoint (fun _ made => by cases made) spelled]
      exact unknown
    · rw [parseBreakpoint_means .clearBreakpoint (fun _ made => by cases made) spelled]
      exact unknown
    · obtain ⟨_, _, made⟩ := Option.map_eq_some_iff.mp spelled
      cases made
    · obtain ⟨_, _, made⟩ := Option.map_eq_some_iff.mp spelled
      cases made
    · cases spelled
    · cases spelled
    · cases spelled
      decide
    · exact queries reply (parseQuery_means (Option.some.inj spelled))
    · exact queries reply (parseQuery_means (Option.some.inj spelled))
    · exact actions reply (parseContinue_means spelled)
    · cases spelled
      exact unknown

end Spelling

section Answers

variable {τ : Type} [DebugTarget τ]

theorem assign_understood (value : UInt64) (target : τ) (register : Register) :
    (assign value target register).1 ≠ Refusal.malformed.reply := by
  cases register with
  | csr address =>
    unfold assign
    dsimp only
    cases DebugTarget.csr? target address <;> exact nofun
  | _ => exact nofun

theorem run_understood {payload : List UInt8} {command : Command} (spelled : parse payload = some command) (target : τ) :
    (command.run target).1 ≠ Refusal.malformed.reply := by
  cases command with
  | say reply => exact fun same => parse_means spelled (refused_iff.mp same)
  | readAll =>
    intro same
    have length := congrArg List.length (refused_iff.mp same)
    have three : (ascii "E01").length = 3 := rfl
    unfold allRegisters at length
    rw [List.length_append, (encodeWord_spelled _).1] at length
    omega
  | readRegister register =>
    unfold run
    dsimp only
    cases registerValue? target register with
    | none => exact nofun
    | some value => exact fun same => encodeBytes_ne _ (refused_iff.mp same)
  | writeRegister register value => exact assign_understood value target register
  | readMemory address size =>
    unfold run
    dsimp only
    generalize DebugTarget.readMemory address size target = outcome
    obtain ⟨result, target⟩ := outcome
    cases result with
    | error _ => exact nofun
    | ok bytes => exact fun same => encodeBytes_ne _ (refused_iff.mp same)
  | writeMemory address bytes =>
    unfold run
    dsimp only
    generalize DebugTarget.writeMemory address (Bytes.ofList bytes) target = outcome
    obtain ⟨result, target⟩ := outcome
    cases result <;> exact nofun
  | _ => exact nofun

end Answers

end Command

theorem dispatch_malformed_iff {τ : Type} [DebugTarget τ] (payload : List UInt8) (target : τ) :
    (dispatch payload target).1 = Refusal.malformed.reply ↔ Command.parse payload = none := by
  unfold dispatch
  cases spelled : Command.parse payload with
  | none => exact ⟨fun _ => rfl, fun _ => rfl⟩
  | some command => exact ⟨fun same => absurd same (command.run_understood spelled target), nofun⟩

theorem dispatch_unspelled {τ : Type} [DebugTarget τ] {payload : List UInt8} (none : Command.parse payload = none) (target : τ) :
    dispatch payload target = (Refusal.malformed.reply, target) := by
  rw [dispatch, none]

end Malformed

section Registers

-- The words that a debugger is told of a hart: its registers in order, then where it is.
def told (hart : Hart) : List UInt64 :=
  (List.finRange 32).map hart.reg ++ [hart.pc]

theorem allRegisters_eq (hart : Hart) : Command.allRegisters hart = (told hart).flatMap encodeWord := by
  unfold Command.allRegisters told
  rw [List.flatMap_append, List.flatMap_map, List.flatMap_singleton]
  rfl

-- The registers after a row of values was written to them.
def Registers.updated (registers : Registers) (values : Vector UInt64 32) (regs : List Reg) : Registers :=
  regs.foldl (fun registers reg => registers.write reg (values.get reg)) registers

theorem get_updated (registers : Registers) (values : Vector UInt64 32) (regs : List Reg) (reg : Reg) :
    (reg ∈ regs ∧ reg ≠ .zero → (Registers.updated registers values regs).get reg = values.get reg) ∧
      (¬ (reg ∈ regs ∧ reg ≠ .zero) → (Registers.updated registers values regs).get reg = registers.get reg) := by
  induction regs generalizing registers with
  | nil => exact ⟨fun both => absurd both.1 List.not_mem_nil, fun _ => rfl⟩
  | cons first rest ih =>
    have others := ih (registers.write first (values.get first))
    change (_ → (Registers.updated (registers.write first (values.get first)) values rest).get reg = _) ∧
      (_ → (Registers.updated (registers.write first (values.get first)) values rest).get reg = _)
    rw [Registers.get_write] at others
    by_cases later : reg ∈ rest <;> by_cases now : first = reg <;> by_cases zero : reg = .zero <;> grind

theorem map_get_updated (registers : Registers) (values : Vector UInt64 32) :
    (List.finRange 32).map (Registers.updated registers values (List.finRange 32)).get =
      registers.get .zero :: values.toList.tail := by
  refine List.ext_getElem (by simp) fun i short _ => ?_
  rw [List.length_map, List.length_finRange] at short
  rw [List.getElem_map, List.getElem_finRange]
  have updated := get_updated registers values (List.finRange 32) (Fin.cast List.length_finRange.symm ⟨i, short⟩)
  cases i with
  | zero => exact updated.2 fun both => both.2 rfl
  | succ i =>
    refine (updated.1 ⟨List.mem_finRange _, fun same => nomatch congrArg Fin.val same⟩).trans ?_
    simp only [List.getElem_cons_succ, List.getElem_tail, Vector.getElem_toList]
    rfl

theorem assignAll_eq (values : Vector UInt64 32) (hart : Hart) :
    Command.assignAll values hart =
      { hart with registers := Registers.updated hart.registers values (List.finRange 32) } := by
  unfold Command.assignAll Registers.updated
  generalize List.finRange 32 = regs
  induction regs generalizing hart with
  | nil => rfl
  | cons first rest ih => exact ih (hart.setReg first (values.get first))

-- The registers of a packet that has enough of them.
def Command.row (words : List UInt64) (enough : 32 ≤ words.length) : Vector UInt64 32 :=
  ⟨(words.take 32).toArray, by rw [List.size_toArray, List.length_take, Nat.min_eq_left enough]⟩

theorem parseWriteAll_spelled {args : List UInt8} {words : List UInt64} (spells : Spells args words)
    (enough : 32 ≤ words.length) : Command.parseWriteAll args = some (.writeAll (Command.row words enough) words[32]?) := by
  unfold Command.parseWriteAll
  rw [spells.read]
  exact dif_pos (Command.row words enough).size_toArray

theorem parseWriteAll_unspelled {args : List UInt8} (other : ¬ ∃ words, Spells args words ∧ 32 ≤ words.length) :
    Command.parseWriteAll args = none := by
  unfold Command.parseWriteAll
  cases read : (wordTexts args).mapM decodeWord? with
  | none => rfl
  | some words =>
    refine dif_neg fun full => other ⟨words, wordTexts_iff.mp read, ?_⟩
    rw [List.size_toArray, List.length_take] at full
    omega

def assigned (hart : Hart) (words : List UInt64) (enough : 32 ≤ words.length) : Hart :=
  { hart with
    registers := Registers.updated hart.registers (Command.row words enough) (List.finRange 32)
    pc := words[32]?.getD hart.pc }

theorem goTo_assignAll (hart : Hart) {words : List UInt64} (enough : 32 ≤ words.length) :
    Command.goTo words[32]? (Command.assignAll (Command.row words enough) hart) = assigned hart words enough := by
  rw [assignAll_eq, assigned]
  cases words[32]? <;> rfl

theorem told_assigned (hart : Hart) {words : List UInt64} (enough : 32 ≤ words.length) :
    told (assigned hart words enough) = hart.reg .zero :: (words.take 32).tail ++ [words[32]?.getD hart.pc] := by
  have regs := map_get_updated hart.registers (Command.row words enough)
  have row : (Command.row words enough).toList = words.take 32 := by
    unfold Command.row
    rw [Vector.toList_mk]
  rw [row] at regs
  exact congrArg (· ++ [words[32]?.getD hart.pc]) regs

theorem length_told (hart : Hart) : (told hart).length = 33 := by
  simp [told]

theorem registers_ext {one two : Registers} (same : ∀ reg, one.get reg = two.get reg) : one = two := by
  cases one
  cases two
  exact congrArg Registers.mk (Vector.ext fun i short => same ⟨i, short⟩)

theorem assigned_told (hart : Hart) (enough : 32 ≤ (told hart).length) : assigned hart (told hart) enough = hart := by
  have own (reg : Reg) : (Command.row (told hart) enough).get reg = hart.registers.get reg := by
    change (Command.row (told hart) enough)[reg.val] = hart.reg reg
    simp [Command.row, told]
  have registers : Registers.updated hart.registers (Command.row (told hart) enough) (List.finRange 32) = hart.registers := by
    refine registers_ext fun reg => ?_
    have updated := get_updated hart.registers (Command.row (told hart) enough) (List.finRange 32) reg
    rw [own] at updated
    exact (Decidable.em _).elim updated.1 updated.2
  have pc : (told hart)[32]? = some hart.pc := by
    simp [told]
  rw [assigned, registers, pc]
  rfl

theorem dispatch_readAll (hart : Hart) : dispatch (ascii "g") hart = (.reply ((told hart).flatMap encodeWord), hart) := by
  have spelled : Command.parse (ascii "g") = some .readAll := rfl
  rw [dispatch, spelled, ← allRegisters_eq]
  rfl

theorem dispatch_writeAll {args : List UInt8} {words : List UInt64} (spells : Spells args words)
    (enough : 32 ≤ words.length) (hart : Hart) :
    dispatch (ascii "G" ++ args) hart = (.done, assigned hart words enough) := by
  have spelled : Command.parse (ascii "G" ++ args) = some (.writeAll (Command.row words enough) words[32]?) :=
    parseWriteAll_spelled spells enough
  rw [dispatch, spelled, ← goTo_assignAll]
  rfl

theorem writeAll_accepted {args : List UInt8} {hart : Hart} (accepted : (dispatch (ascii "G" ++ args) hart).1 = .done) :
    ∃ words, Spells args words ∧ 32 ≤ words.length := by
  by_cases spelled : ∃ words, Spells args words ∧ 32 ≤ words.length
  · exact spelled
  · have unspelled : Command.parse (ascii "G" ++ args) = none := parseWriteAll_unspelled spelled
    rw [dispatch_unspelled unspelled] at accepted
    cases accepted

/-- A packet is answered as malformed if it spells no command, and then the target is as it was. What is told of the
registers can be sent back to no effect; and after every packet of registers that is accepted, its words are told, but for
that of register 0, which stays zero, and the hart is otherwise as it was. -/
theorem dispatch_atomic_faithful {τ : Type} [DebugTarget τ] (payload : List UInt8) (target : τ) (args : List UInt8)
    (hart : Hart) :
    ((dispatch payload target).1 = Refusal.malformed.reply ↔ Command.parse payload = none) ∧
      ((dispatch payload target).1 = Refusal.malformed.reply → (dispatch payload target).2 = target) ∧
      (∀ text, dispatch (ascii "g") hart = (.reply text, hart) → dispatch (ascii "G" ++ text) hart = (.done, hart)) ∧
      dispatch (ascii "g") hart = (.reply ((told hart).flatMap encodeWord), hart) ∧
      ((dispatch (ascii "G" ++ args) hart).1 = .done ↔ ∃ words, Spells args words ∧ 32 ≤ words.length) ∧
      (∀ after, dispatch (ascii "G" ++ args) hart = (.done, after) → ∃ words, Spells args words ∧ 32 ≤ words.length ∧
        dispatch (ascii "g") after =
          (.reply ((hart.reg .zero :: (words.take 32).tail ++ [words[32]?.getD hart.pc]).flatMap encodeWord), after) ∧
        after = { hart with registers := after.registers, pc := after.pc }) ∧
      (Hart.Reachable Hart.AnyBus Hart.AnyMove hart → hart.reg .zero = 0) := by
  have unspelled := dispatch_malformed_iff payload target
  refine ⟨unspelled, fun refused => ?_, fun text asked => ?_, dispatch_readAll hart, ?_, fun after accepted => ?_,
    Hart.reachable_zeroed⟩
  · rw [dispatch_unspelled (unspelled.mp refused)]
  · rw [dispatch_readAll] at asked
    cases asked
    rw [dispatch_writeAll (encodeWords_spell (told hart)) (by rw [length_told]; decide), assigned_told]
  · refine ⟨writeAll_accepted, ?_⟩
    rintro ⟨words, spells, enough⟩
    rw [dispatch_writeAll spells enough]
  · obtain ⟨words, spells, enough⟩ := writeAll_accepted (congrArg Prod.fst accepted)
    rw [dispatch_writeAll spells enough] at accepted
    obtain rfl : assigned hart words enough = after := (Prod.mk.inj accepted).2
    refine ⟨words, spells, enough, ?_, rfl⟩
    rw [dispatch_readAll, told_assigned]

end Registers

end RvBoard.Debug
