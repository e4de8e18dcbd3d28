import RvBoard.Hart.Step
import RvBoard.Proofs.Hart.Execution
import RvBoard.Proofs.Memory.Marking

/-!
# Instructions from fetch to execution

What the instruction at the program counter comes to: its first or second parcel cannot be fetched,
what was fetched is no instruction, or it is executed.
-/

set_option autoImplicit false

namespace RvBoard.Hart

-- The instruction word that two parcels make.
def wordOf (low high : UInt16) : UInt32 :=
  low.toUInt32 ||| (high.toUInt32 <<< 16)

-- What has been fetched: the encoding as it stands in memory, the word to decode if there is one,
-- the length, the addresses of the parcels, and the memory after the fetches.
inductive Fetched (hart : Hart) : UInt64 → Option UInt32 → UInt64 → List UInt64 → Memory → Prop
  | short {low : UInt16} {memory : Memory}
      (read : Memory.fetch hart.pc hart.fetchContext hart.memory = .ok low memory) (alone : low &&& 3 ≠ 3) :
      Fetched hart low.toUInt64 (Compressed.expand low) 2 [hart.pc] memory
  | long {low high : UInt16} {mid memory : Memory}
      (first : Memory.fetch hart.pc hart.fetchContext hart.memory = .ok low mid) (ones : low &&& 3 = 3)
      (second : Memory.fetch (hart.pc + 2) hart.fetchContext mid = .ok high memory) :
      Fetched hart (wordOf low high).toUInt64 (some (wordOf low high)) 4 [hart.pc, hart.pc + 2] memory

-- The hart that has fetched an instruction and is about to execute it.
def fetched (hart : Hart) (length : UInt64) (memory : Memory) : Hart :=
  { hart with memory := memory, instrLength := length }

inductive Instructs (hart : Hart) : EStateM.Result Exception Hart Unit → Prop
  | firstFaulted {fault : MemFault} {memory : Memory}
      (failed : Memory.fetch hart.pc hart.fetchContext hart.memory = .error fault memory) :
      Instructs hart (.error (.ofFetchFault fault) { hart with memory := memory, pendingTval := some hart.pc })
  | secondFaulted {low : UInt16} {mid memory : Memory} {fault : MemFault}
      (first : Memory.fetch hart.pc hart.fetchContext hart.memory = .ok low mid) (ones : low &&& 3 = 3)
      (failed : Memory.fetch (hart.pc + 2) hart.fetchContext mid = .error fault memory) :
      Instructs hart (.error (.ofFetchFault fault) { hart with memory := memory, pendingTval := some (hart.pc + 2) })
  | undecoded {raw : UInt64} {word : Option UInt32} {length : UInt64} {parcels : List UInt64} {memory : Memory}
      (read : Fetched hart raw word length parcels memory) (meaningless : word.bind decode = none) :
      Instructs hart (.error .illegalInstruction { hart.fetched length memory with pendingTval := some raw })
  | executed {raw : UInt64} {word : Option UInt32} {length : UInt64} {parcels : List UInt64} {memory : Memory}
      {instr : Instr} {result : EStateM.Result Exception Hart Unit} (read : Fetched hart raw word length parcels memory)
      (meaning : word.bind decode = some instr) (outcome : execute instr (hart.fetched length memory) = result)
      (executes : Executes (hart.fetched length memory) instr result) : Instructs hart result

variable {hart : Hart}

theorem fetched_translated {raw length : UInt64} {word : Option UInt32} {parcels : List UInt64}
    {memory : Memory} (read : Fetched hart raw word length parcels memory) :
    Memory.SamePaging hart.memory memory ∧ Bus.Translated hart.memory.table? parcels hart.memory.bus memory.bus := by
  cases read with
  | short read alone => exact Memory.fetch_left read
  | long first ones second =>
    obtain ⟨pagingFirst, throughFirst⟩ := Memory.fetch_left first
    obtain ⟨pagingSecond, throughSecond⟩ := Memory.fetch_left second
    rw [left_ok] at pagingFirst throughFirst pagingSecond throughSecond
    rw [pagingFirst.table] at throughSecond
    refine ⟨⟨pagingSecond.mode.trans pagingFirst.mode, pagingSecond.root.trans pagingFirst.root⟩, ?_⟩
    exact (throughFirst.mono (by simp)).trans (throughSecond.mono (by simp))

theorem fetchParcel_ok {vaddr : UInt64} {parcel : UInt16} {memory : Memory}
    (read : Memory.fetch vaddr hart.fetchContext hart.memory = .ok parcel memory) :
    fetchParcel vaddr hart = .ok parcel { hart with memory := memory } :=
  (bind_of_ok (get_run hart)).trans (accessMemory_ok .ofFetchFault read)

theorem fetchParcel_error {vaddr : UInt64} {fault : MemFault} {memory : Memory}
    (failed : Memory.fetch vaddr hart.fetchContext hart.memory = .error fault memory) :
    fetchParcel vaddr hart = .error (.ofFetchFault fault) { hart with memory := memory, pendingTval := some vaddr } :=
  (bind_of_ok (get_run hart)).trans (accessMemory_error .ofFetchFault failed)

theorem decodeOr_some {word : UInt32} {instr : Instr} (raw : UInt64) (meaning : decode word = some instr) :
    decodeOr word raw hart = .ok instr hart := by
  unfold decodeOr
  generalize decode word = found at meaning
  subst meaning
  rfl

theorem decodeOr_none {word : UInt32} (raw : UInt64) (meaningless : decode word = none) :
    decodeOr word raw hart = .error .illegalInstruction { hart with pendingTval := some raw } := by
  unfold decodeOr
  generalize decode word = found at meaningless
  subst meaningless
  rfl

theorem fetchInstr_short {low : UInt16} {memory : Memory}
    (read : Memory.fetch hart.pc hart.fetchContext hart.memory = .ok low memory) (alone : low &&& 3 ≠ 3) :
    fetchInstr hart =
      (match Compressed.expand low with
        | some word => decodeOr word low.toUInt64
        | none => illegal low.toUInt64 : HartM Instr) (hart.fetched 2 memory) := by
  refine (bind_of_ok (get_run hart)).trans ((bind_of_ok (fetchParcel_ok read)).trans ?_)
  rw [if_neg alone]
  exact bind_of_ok (modify_run _ _)

theorem fetchInstr_long {low high : UInt16} {mid memory : Memory}
    (first : Memory.fetch hart.pc hart.fetchContext hart.memory = .ok low mid) (ones : low &&& 3 = 3)
    (second : Memory.fetch (hart.pc + 2) hart.fetchContext mid = .ok high memory) :
    fetchInstr hart = decodeOr (wordOf low high) (wordOf low high).toUInt64 (hart.fetched 4 memory) := by
  have after : fetchParcel (hart.pc + 2) { hart with memory := mid } = .ok high { hart with memory := memory } :=
    fetchParcel_ok second
  refine (bind_of_ok (get_run hart)).trans ((bind_of_ok (fetchParcel_ok first)).trans ?_)
  rw [if_pos ones]
  exact (bind_of_ok after).trans (bind_of_ok (modify_run _ _))

theorem fetchInstr_known {raw length : UInt64} {word : Option UInt32} {parcels : List UInt64} {memory : Memory}
    {instr : Instr} (read : Fetched hart raw word length parcels memory) (meaning : word.bind decode = some instr) :
    fetchInstr hart = .ok instr (hart.fetched length memory) := by
  cases read with
  | short read alone =>
    obtain ⟨word, expanded, decoded⟩ := Option.bind_eq_some_iff.mp meaning
    rw [fetchInstr_short read alone, expanded]
    exact decodeOr_some _ decoded
  | long first ones second =>
    rw [fetchInstr_long first ones second]
    exact decodeOr_some _ meaning

theorem fetchInstr_unknown {raw length : UInt64} {word : Option UInt32} {parcels : List UInt64} {memory : Memory}
    (read : Fetched hart raw word length parcels memory) (meaningless : word.bind decode = none) :
    fetchInstr hart = .error .illegalInstruction { hart.fetched length memory with pendingTval := some raw } := by
  cases read with
  | @short low memory read alone =>
    rw [fetchInstr_short read alone]
    cases expanded : Compressed.expand low with
    | none => rfl
    | some word =>
      rw [expanded] at meaningless
      exact decodeOr_none _ meaningless
  | long first ones second =>
    rw [fetchInstr_long first ones second]
    exact decodeOr_none _ meaningless

-- The hart that has fetched an instruction and is about to execute it.
def Decoded (hart : Hart) (instr : Instr) (ready : Hart) : Prop :=
  ∃ raw word length parcels memory, Fetched hart raw word length parcels memory ∧ word.bind decode = some instr ∧
    ready = hart.fetched length memory

theorem fetchInstr_decoded {instr : Instr} {ready : Hart} (done : fetchInstr hart = .ok instr ready) :
    Decoded hart instr ready := by
  have decoded : ∀ {raw length word parcels memory}, Fetched hart raw word length parcels memory →
      Decoded hart instr ready := by
    intro raw length word parcels memory read
    cases meaning : word.bind decode with
    | none => cases done.symm.trans (fetchInstr_unknown read meaning)
    | some other =>
      cases done.symm.trans (fetchInstr_known read meaning)
      exact ⟨raw, word, length, parcels, memory, read, meaning, rfl⟩
  obtain ⟨pc, same, started, parsed⟩ := bind_ok.mp done
  cases started
  obtain ⟨low, mid, first, rest⟩ := bind_ok.mp parsed
  cases read : Memory.fetch hart.pc hart.fetchContext hart.memory with
  | error fault memory => cases first.symm.trans (fetchParcel_error read)
  | ok parcel memory =>
    cases first.symm.trans (fetchParcel_ok read)
    by_cases ones : low &&& 3 = 3
    · rw [if_pos ones] at rest
      obtain ⟨high, last, second, _⟩ := bind_ok.mp rest
      cases again : Memory.fetch (hart.pc + 2) hart.fetchContext memory with
      | error fault after =>
        have failed : fetchParcel (hart.pc + 2) { hart with memory := memory } =
            .error (.ofFetchFault fault) { hart with memory := after, pendingTval := some (hart.pc + 2) } :=
          fetchParcel_error again
        cases second.symm.trans failed
      | ok parcel after => exact decoded (.long read ones again)
    · exact decoded (.short read ones)

theorem instruction_decoded {instr : Instr} {ready : Hart} (decoded : Decoded hart instr ready) :
    instruction hart = execute instr ready := by
  obtain ⟨raw, word, length, parcels, memory, read, meaning, rfl⟩ := decoded
  exact bind_of_ok (fetchInstr_known read meaning)

theorem executeOne_ok {next : Hart} (done : instruction hart = .ok () next) :
    hart.executeOne = { next with instret := next.instret + 1 } := by
  unfold executeOne
  rw [done]

theorem executeOne_error {mid : Hart} {why : Exception} (raised : instruction hart = .error why mid) :
    hart.executeOne = mid.trap (.exception why) := by
  unfold executeOne
  rw [raised]

theorem instructs_fetched {raw length : UInt64} {word : Option UInt32} {parcels : List UInt64} {memory : Memory}
    (read : Fetched hart raw word length parcels memory) : Instructs hart (instruction hart) := by
  cases meaning : word.bind decode with
  | none =>
    have failed : instruction hart =
        .error .illegalInstruction { hart.fetched length memory with pendingTval := some raw } :=
      bind_of_error (fetchInstr_unknown read meaning)
    rw [failed]
    exact .undecoded read meaning
  | some instr =>
    rw [instruction_decoded ⟨raw, word, length, parcels, memory, read, meaning, rfl⟩]
    exact .executed read meaning rfl (execute_cases _ instr)

theorem instruction_unfetched {fault : MemFault} {memory : Memory}
    (failed : Memory.fetch hart.pc hart.fetchContext hart.memory = .error fault memory) :
    instruction hart = .error (.ofFetchFault fault) { hart with memory := memory, pendingTval := some hart.pc } :=
  bind_of_error ((bind_of_ok (get_run hart)).trans (bind_of_error (fetchParcel_error failed)))

theorem instruction_cases (hart : Hart) : Instructs hart (instruction hart) := by
  cases first : Memory.fetch hart.pc hart.fetchContext hart.memory with
  | error fault memory =>
    rw [instruction_unfetched first]
    exact .firstFaulted first
  | ok low mid =>
    by_cases ones : low &&& 3 = 3
    · cases second : Memory.fetch (hart.pc + 2) hart.fetchContext mid with
      | error fault memory =>
        have after : fetchParcel (hart.pc + 2) { hart with memory := mid } =
            .error (.ofFetchFault fault) { hart with memory := memory, pendingTval := some (hart.pc + 2) } :=
          fetchParcel_error second
        have unfetched : fetchInstr hart =
            .error (.ofFetchFault fault) { hart with memory := memory, pendingTval := some (hart.pc + 2) } := by
          refine (bind_of_ok (get_run hart)).trans ((bind_of_ok (fetchParcel_ok first)).trans ?_)
          rw [if_pos ones]
          exact bind_of_error after
        have failed : instruction hart =
            .error (.ofFetchFault fault) { hart with memory := memory, pendingTval := some (hart.pc + 2) } :=
          bind_of_error unfetched
        rw [failed]
        exact .secondFaulted first ones second
      | ok high memory => exact instructs_fetched (.long first ones second)
    · exact instructs_fetched (.short first ones)

theorem instructs_error_frame {hart mid : Hart} {why : Exception} (instructs : Instructs hart (.error why mid)) :
    mid.csrs = hart.csrs ∧ mid.privilege = hart.privilege := by
  cases instructs with
  | executed read meaning outcome executes => cases executes <;> exact ⟨rfl, rfl⟩
  | _ => exact ⟨rfl, rfl⟩

end RvBoard.Hart
