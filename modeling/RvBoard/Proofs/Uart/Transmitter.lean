import RvBoard.Proofs.Uart.Output

/-!
# The interrupt of the transmitter

A write to the transmitter makes its interrupt pending, as enabling it does, and reading the identification takes it
back when this is what it reports. Whether the transmitter is ready does not come into it: the interrupt is pending when
the last byte has filled the buffer, and it does not come when the host makes room.
-/

set_option autoImplicit false

namespace RvBoard.Uart

section Registers

variable (port : Uart)

def Reports : Prop :=
  (port.read 2).1 &&& 0x0f = 0x02

def Enabled : Prop :=
  port.ier &&& ierThre ≠ 0

instance : Decidable port.Enabled :=
  inferInstanceAs (Decidable (_ ≠ _))

def HearsData : Prop :=
  port.ier &&& ierData ≠ 0 ∧ port.rx ≠ []

def Pends : Prop :=
  port.threPending = true

variable {port}

theorem id_masked (cause : Cause) : (cause.id ||| port.fifoBits) &&& 0x0f = cause.id := by
  unfold fifoBits
  cases cause <;> split <;> rfl

theorem cause_transmitter : port.cause = .transmitter ↔ port.Enabled ∧ port.Pends ∧ ¬ port.HearsData := by
  unfold cause Enabled Pends HearsData
  simp only [Bool.and_eq_true, bne_iff_ne, Bool.not_eq_true', List.isEmpty_eq_false_iff]
  by_cases data : port.ier &&& ierData ≠ 0 ∧ port.rx ≠ []
  · rw [if_pos data]
    exact ⟨nofun, fun holds => absurd data holds.2.2⟩
  · rw [if_neg data]
    by_cases asked : port.ier &&& ierThre ≠ 0 ∧ port.threPending = true
    · rw [if_pos asked]
      exact ⟨fun _ => ⟨asked.1, asked.2, data⟩, fun _ => rfl⟩
    · rw [if_neg asked]
      exact ⟨nofun, fun holds => absurd ⟨holds.1, holds.2.1⟩ asked⟩

theorem reports_cause : port.Reports ↔ port.cause = .transmitter := by
  change (port.cause.id ||| port.fifoBits) &&& 0x0f = 0x02 ↔ _
  rw [id_masked]
  cases port.cause <;> decide

theorem reports_iff : port.Reports ↔ port.Enabled ∧ port.Pends ∧ ¬ port.HearsData :=
  reports_cause.trans cause_transmitter

end Registers

namespace Moment

def Raises (moment : Moment) : Prop :=
  match moment.deed with
  | .store offset _ value =>
    ¬ moment.port.Latched ∧ (offset = 0 ∨ offset = 1 ∧ ¬ moment.port.Enabled ∧ value.toUInt8 &&& ierThre ≠ 0)
  | _ => False

-- The identification is read and reports the transmitter, or the port is reset.
def TakesBack (moment : Moment) : Prop :=
  match moment.deed with
  | .load offset _ => offset = 2 ∧ moment.port.Reports
  | .reset => True
  | _ => False

end Moment

section Steps

variable (port : Uart)

theorem read_pends (offset : UInt64) :
    (port.read offset).2.Pends ↔ port.Pends ∧ ¬ (offset = 2 ∧ port.Reports) := by
  by_cases control : offset = 2
  · subst control
    change (if port.cause = .transmitter then { port with threPending := false } else port : Uart).Pends ↔ _
    by_cases told : port.Reports
    · rw [if_pos (reports_cause.mp told)]
      simp [told, Pends]
    · rw [if_neg fun transmitter => told (reports_cause.mpr transmitter)]
      simp [told]
  · have same : (port.read offset).2.threPending = port.threPending := by
      unfold read receive
      split
      · split
        · rfl
        · split <;> rfl
      · rfl
      · exact absurd rfl control
      all_goals rfl
    simp [Pends, same, control]

theorem setIer_pends (byte : UInt8) :
    (port.setIer byte).Pends ↔ (¬ port.Enabled ∧ byte &&& ierThre ≠ 0) ∨ port.Pends := by
  have masked : byte &&& 0x0f &&& ierThre = byte &&& ierThre := UInt8.and_assoc byte 0x0f ierThre
  change (port.threPending || (port.ier &&& ierThre == 0 && byte &&& 0x0f &&& ierThre != 0)) = true ↔ _
  rw [masked, Bool.or_eq_true, Bool.and_eq_true, beq_iff_eq, bne_iff_ne, Enabled, Decidable.not_not, Pends]
  exact or_comm

theorem transmit_pends (byte : UInt8) : (port.transmit byte).Pends := by
  unfold transmit
  split <;> rfl

theorem write_pends (offset : UInt64) (size : Nat) (value : UInt64) :
    (port.write offset value.toUInt8).Pends ↔ Moment.Raises ⟨port, .store offset size value⟩ ∨ port.Pends := by
  unfold Moment.Raises
  by_cases first : offset = 0
  · subst first
    by_cases latched : port.Latched
    · rw [write_latches latched]
      simp [latched, Pends]
    · rw [write_transmits latched]
      simp [latched, transmit_pends]
  by_cases second : offset = 1
  · subst second
    change (if port.dlab then { port with dlm := _ } else port.setIer _ : Uart).Pends ↔ _
    by_cases latched : port.Latched
    · rw [if_pos (latched_iff.mp latched)]
      simp [latched, Pends]
    · rw [if_neg fun latch => latched (latched_iff.mpr latch), setIer_pends]
      simp [latched]
  · have same : (port.write offset value.toUInt8).threPending = port.threPending := by
      unfold write
      split
      · exact absurd rfl first
      · exact absurd rfl second
      all_goals rfl
    simp [Pends, same, first, second]

theorem puts_pends (bytes : List UInt8) : (bytes.foldl put port).Pends ↔ port.Pends := by
  induction bytes generalizing port with
  | nil => exact Iff.rfl
  | cons byte rest ih =>
    rw [List.foldl_cons, ih]
    unfold put
    split <;> rfl

theorem fill_pends (bytes : List UInt8) : (Console.fill bytes port).2.Pends ↔ port.Pends := by
  induction bytes generalizing port with
  | nil => exact Iff.rfl
  | cons byte rest ih =>
    unfold Console.fill
    split
    · rw [ih]
      unfold put
      split <;> rfl
    · rfl

theorem deed_pends (deed : Deed) :
    (port.after deed).Pends ↔ Moment.Raises ⟨port, deed⟩ ∨ port.Pends ∧ ¬ Moment.TakesBack ⟨port, deed⟩ := by
  cases deed with
  | load offset size =>
    rw [Moment.Raises, false_or]
    exact read_pends port offset
  | store offset size value =>
    rw [Moment.TakesBack, not_false_eq_true, and_true]
    exact write_pends port offset size value
  | drain limit => simp [Moment.Raises, Moment.TakesBack, after, drain, Pends]
  | put bytes =>
    simp only [Moment.Raises, Moment.TakesBack, false_or, not_false_eq_true, and_true]
    exact puts_pends port bytes
  | pump console =>
    simp only [Moment.Raises, Moment.TakesBack, false_or, not_false_eq_true, and_true]
    exact fill_pends (port.drain port.tx.size).2 _
  | reset => simp [Moment.Raises, Moment.TakesBack, after, reset, Pends]

theorem gone_pends (deed : Deed) (some : Moment.gone ⟨port, deed⟩ ≠ []) : (port.after deed).Pends ↔ port.Pends := by
  have quiet : ¬ Moment.Raises ⟨port, deed⟩ ∧ ¬ Moment.TakesBack ⟨port, deed⟩ := by
    cases deed with
    | store offset size value =>
      by_cases control : offset = 2
      · subst control
        exact ⟨by simp [Moment.Raises], not_false⟩
      · simp [Moment.gone, Moment.cleared, Moment.taken, control] at some
    | drain limit => exact ⟨not_false, not_false⟩
    | pump console => exact ⟨not_false, not_false⟩
    | load offset size => exact absurd rfl some
    | put bytes => exact absurd rfl some
    | reset => exact absurd rfl some
  rw [deed_pends]
  simp [quiet]

theorem written_raises (moment : Moment) (some : moment.written ≠ []) : moment.Raises := by
  obtain ⟨port, deed⟩ := moment
  cases deed with
  | store offset size value =>
    by_cases kept : offset = 0 ∧ ¬ port.Latched ∧ port.Ready
    · exact ⟨kept.2.1, .inl kept.1⟩
    · simp [Moment.written, kept] at some
  | load offset size => exact absurd rfl some
  | drain limit => exact absurd rfl some
  | put bytes => exact absurd rfl some
  | pump console => exact absurd rfl some
  | reset => exact absurd rfl some

theorem deed_sizes (deed : Deed) :
    port.tx.size + (Moment.written ⟨port, deed⟩).length =
      (Moment.gone ⟨port, deed⟩).length + (port.after deed).tx.size := by
  simpa using congrArg List.length (deed_splits port deed)

theorem filled_pends (deed : Deed) (room : port.Ready) (full : ¬ (port.after deed).Ready) :
    (port.after deed).Pends := by
  have sizes := deed_sizes port deed
  rw [ready_iff] at room full
  have some : Moment.written ⟨port, deed⟩ ≠ [] := List.ne_nil_of_length_pos (by omega)
  exact (deed_pends port deed).mpr (.inl (written_raises ⟨port, deed⟩ some))

theorem freed_pends (deed : Deed) (full : ¬ port.Ready) (room : (port.after deed).Ready) :
    (port.after deed).Pends ↔ port.Pends := by
  have sizes := deed_sizes port deed
  rw [ready_iff] at room full
  exact gone_pends port deed (List.ne_nil_of_length_pos (by omega))

end Steps

def Outstanding (row : List Moment) : Prop :=
  ∃ before moment later, row = before ++ moment :: later ∧ moment.Raises ∧ ∀ other ∈ later, ¬ other.TakesBack

theorem outstanding_cons (moment : Moment) (row : List Moment) :
    Outstanding (moment :: row) ↔ (moment.Raises ∧ ∀ other ∈ row, ¬ other.TakesBack) ∨ Outstanding row := by
  constructor
  · rintro ⟨before, raising, later, same, raises, kept⟩
    cases before with
    | nil =>
      obtain ⟨rfl, rfl⟩ := List.cons.inj same
      exact .inl ⟨raises, kept⟩
    | cons first before =>
      obtain ⟨rfl, rfl⟩ := List.cons.inj same
      exact .inr ⟨before, raising, later, rfl, raises, kept⟩
  · rintro (⟨raises, kept⟩ | ⟨before, raising, later, rfl, raises, kept⟩)
    · exact ⟨[], moment, row, rfl, raises, kept⟩
    · exact ⟨moment :: before, raising, later, rfl, raises, kept⟩

theorem course_pends (port : Uart) (deeds : List Deed) :
    (deeds.foldl after port).Pends ↔
      Outstanding (course port deeds) ∨ port.Pends ∧ ∀ moment ∈ course port deeds, ¬ moment.TakesBack := by
  induction deeds generalizing port with
  | nil => simp [course, Outstanding]
  | cons deed rest ih =>
    rw [List.foldl_cons, ih, course, outstanding_cons, deed_pends, List.forall_mem_cons]
    -- The interrupt is raised later, or by this deed, or was pending before.
    constructor
    · rintro (later | ⟨raised | ⟨pends, kept⟩, quiet⟩)
      · exact .inl (.inr later)
      · exact .inl (.inl ⟨raised, quiet⟩)
      · exact .inr ⟨pends, kept, quiet⟩
    · rintro ((⟨raised, quiet⟩ | later) | ⟨pends, kept, quiet⟩)
      · exact .inr ⟨.inl raised, quiet⟩
      · exact .inl later
      · exact .inr ⟨.inr ⟨pends, kept⟩, quiet⟩

theorem pends_outstanding (deeds : List Deed) : (deeds.foldl after {}).Pends ↔ Outstanding (course {} deeds) := by
  have clear : ¬ Pends {} := Bool.false_ne_true
  rw [course_pends]
  simp [clear]

/-- Whatever guest and host do at a port from power-on, the identification reports the transmitter when its interrupt is
enabled, the last that raised the interrupt has not been taken back, and no received data comes first. The deed that
fills the buffer leaves the interrupt pending, though the transmitter is not ready then. After the deed that makes it
ready again the interrupt is pending if the guest has not taken it back before, and not otherwise. -/
theorem transmitter_interrupt (line : Line) (wires : Wires) (deeds : List Deed) :
    let row := course {} deeds
    let last := deeds.foldl after {}
    (∃ next, deeds.foldl Deed.apply (.uart line {}, wires) = (.uart line last, next)) ∧
      (last.Ready ↔ last.tx.size < 4096) ∧
      (last.Reports ↔ last.Enabled ∧ Outstanding row ∧ ¬ last.HearsData) ∧
      ∀ deed,
        (last.Ready → ¬ (last.after deed).Ready → (last.after deed).Pends) ∧
          (¬ last.Ready → (last.after deed).Ready → ((last.after deed).Pends ↔ Outstanding row)) := by
  intro row last
  have pends : last.Pends ↔ Outstanding row := pends_outstanding deeds
  refine ⟨applied_port line deeds {} wires, ready_iff, ?_, fun deed => ⟨filled_pends last deed, ?_⟩⟩
  · rw [reports_iff, pends]
  · intro full room
    exact (freed_pends last deed full room).trans pends

theorem told_unwoken {port : Uart} (reports : port.Reports) (full : port.tx.size = 4096) :
    let read := port.after (.load 2 0)
    let freed := read.after (.drain (some 1))
    ¬ read.Ready ∧ freed.Ready ∧ freed.Enabled ∧ ¬ freed.Pends := by
  intro read freed
  have size : read.tx.size = 4096 := by rw [← full, show read.tx = port.tx from read_tx port 2]
  have same : freed.ier = port.ier := by
    change (if port.cause = .transmitter then { port with threPending := false } else port : Uart).ier = port.ier
    rw [if_pos (reports_cause.mp reports)]
  refine ⟨?_, ?_, ?_, ?_⟩
  · rw [ready_iff, size]
    exact Nat.lt_irrefl 4096
  · have left : freed.tx.size = 4095 := by
      change (read.tx.extract 1 read.tx.size).size = 4095
      rw [Array.size_extract, size, Nat.min_self]
    rw [ready_iff, left]
    decide
  · rw [Enabled, same]
    exact (reports_iff.mp reports).1
  · intro pends
    exact ((read_pends port 2).mp pends).2 ⟨rfl, reports⟩

theorem writes_fill {n : Nat} (room : n ≤ 4096) :
    (Deed.store 1 0 2 :: List.replicate n (.store 0 0 0)).foldl after {} =
      { ier := 2, threPending := true, tx := Array.replicate n 0 } := by
  induction n with
  | zero => decide
  | succ n ih =>
    have free : Uart.canTransmit { ier := 2, threPending := true, tx := Array.replicate n 0 } = true :=
      canTransmit_iff.mpr (ready_iff.mpr (by rw [Array.size_replicate]; exact room))
    rw [List.replicate_succ', ← List.cons_append, List.foldl_append, ih (Nat.le_of_succ_le room), List.foldl_cons,
      List.foldl_nil]
    have unlatched : ¬ Uart.Latched { ier := 2, threPending := true, tx := Array.replicate n 0 } :=
      show ¬ Uart.Latched {} by decide
    rw [after, write_transmits unlatched, transmit, if_pos free, Array.replicate_succ]
    rfl

theorem full_transmitter_reported :
    let full := (Deed.store 1 0 2 :: List.replicate 4096 (.store 0 0 0)).foldl after {}
    let read := full.after (.load 2 0)
    let freed := read.after (.drain (some 1))
    full.Reports ∧ ¬ full.Ready ∧ ¬ read.Ready ∧ freed.Ready ∧ freed.Enabled ∧ ¬ freed.Pends := by
  rw [writes_fill (Nat.le_refl 4096)]
  intro full read freed
  have size : full.tx.size = 4096 := Array.size_replicate
  have enabled : full.Enabled := by decide
  have reports : full.Reports := reports_iff.mpr ⟨enabled, rfl, fun data => data.2 rfl⟩
  refine ⟨reports, ?_, told_unwoken reports size⟩
  rw [ready_iff, size]
  exact Nat.lt_irrefl 4096

end RvBoard.Uart
