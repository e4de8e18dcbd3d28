import RvBoard.Board.Host

/-!
# Deeds at a serial port

The guest reads and writes the registers of a port, and the host takes its output and gives it input. A course is a row
of such deeds, each with the port that it meets.
-/

set_option autoImplicit false

namespace RvBoard.Uart

/-- What is done to a port. The guest's accesses have the binary logarithm of a size, and any offset. -/
inductive Deed where
  | load (offset : UInt64) (size : Nat)
  | store (offset : UInt64) (size : Nat) (value : UInt64)
  | drain (limit : Option Nat)
  | put (bytes : List UInt8)
  | pump (console : Console)
  | reset

def after (port : Uart) : Deed → Uart
  | .load offset _ => (port.read offset).2
  | .store offset _ value => port.write offset value.toUInt8
  | .drain limit => (port.drain (limit.getD port.tx.size)).2
  | .put bytes => bytes.foldl put port
  | .pump console => (console.pump port).2.2
  | .reset => port.reset

-- The same is done to a device on its wires.
def Deed.apply (place : Device × Wires) : Deed → Device × Wires
  | .load offset size => (place.1.load place.2 offset size).2
  | .store offset size value => (place.1.store place.2 offset size value).2
  | .drain limit => (place.1.drain limit place.2).2
  | .put bytes => (place.1.put bytes place.2).2
  | .pump console => (place.1.pump console place.2).2
  | .reset => place.1.reset place.2

theorem apply_port (line : Line) (port : Uart) (wires : Wires) (deed : Deed) :
    ∃ next, deed.apply (.uart line port, wires) = (.uart line (port.after deed), next) := by
  cases deed <;> exact ⟨_, rfl⟩

theorem applied_port (line : Line) (deeds : List Deed) (port : Uart) (wires : Wires) :
    ∃ next, deeds.foldl Deed.apply (.uart line port, wires) = (.uart line (deeds.foldl after port), next) := by
  induction deeds generalizing port wires with
  | nil => exact ⟨wires, rfl⟩
  | cons deed rest ih =>
    obtain ⟨mid, first⟩ := apply_port line port wires deed
    rw [List.foldl_cons, List.foldl_cons, first]
    exact ih (port.after deed) mid

/-- A deed and the port that it meets. -/
structure Moment where
  port : Uart
  deed : Deed

def course (port : Uart) : List Deed → List Moment
  | [] => []
  | deed :: rest => ⟨port, deed⟩ :: course (port.after deed) rest

section Rows

variable {α : Type} (lost kept : α → List UInt8) (row : List α)

theorem kept_sublist : (row.flatMap kept).Sublist (row.flatMap fun moment => lost moment ++ kept moment) := by
  induction row with
  | nil => exact List.Sublist.slnil
  | cons moment rest ih => exact (List.sublist_append_right (lost moment) (kept moment)).append ih

theorem all_kept_iff :
    (row.flatMap fun moment => lost moment ++ kept moment) = row.flatMap kept ↔ ∀ moment ∈ row, lost moment = [] := by
  induction row with
  | nil => simp
  | cons moment rest ih =>
    rw [List.forall_mem_cons, ← ih, List.flatMap_cons, List.flatMap_cons]
    constructor
    · intro same
      have fewer := (kept_sublist lost kept rest).length_le
      have lengths := congrArg List.length same
      simp only [List.length_append] at lengths
      have none : lost moment = [] := List.eq_nil_of_length_eq_zero (by omega)
      refine ⟨none, ?_⟩
      rw [none, List.nil_append] at same
      exact List.append_cancel_left same
    · rintro ⟨none, same⟩
      rw [none, List.nil_append, same]

end Rows

section Registers

variable (port : Uart)

def Ready : Prop :=
  (port.read 5).1 &&& 0x20 ≠ 0

def Sent : Prop :=
  (port.read 5).1 &&& 0x40 ≠ 0

-- What the line control says: the divisor latch is in front of the first two registers.
def Latched : Prop :=
  (port.read 3).1 &&& 0x80 ≠ 0

instance : Decidable port.Ready :=
  inferInstanceAs (Decidable (_ ≠ _))

instance : Decidable port.Latched :=
  inferInstanceAs (Decidable (_ ≠ _))

variable {port}

theorem latched_iff : port.Latched ↔ port.dlab = true := by
  rw [dlab, bne_iff_ne]
  rfl

theorem write_transmits (unlatched : ¬ port.Latched) (byte : UInt8) : port.write 0 byte = port.transmit byte := by
  change (if port.dlab then { port with dll := byte } else port.transmit byte : Uart) = _
  rw [if_neg fun latch => unlatched (latched_iff.mpr latch)]

theorem write_latches (latched : port.Latched) (byte : UInt8) : port.write 0 byte = { port with dll := byte } := by
  change (if port.dlab then { port with dll := byte } else port.transmit byte : Uart) = _
  rw [if_pos (latched_iff.mp latched)]

theorem lineStatus_bits (bit : UInt8) (empty : bit = 0x20 ∨ bit = 0x40) :
    (port.read 5).1 &&& bit ≠ 0 ↔ port.tx.size < 4096 := by
  change port.lineStatus &&& bit ≠ 0 ↔ port.tx.size < txCapacity
  rw [← decide_eq_true_iff (p := port.tx.size < txCapacity)]
  change _ ↔ port.canTransmit = true
  unfold lineStatus
  cases port.canTransmit <;> cases port.rx.isEmpty <;> rcases empty with rfl | rfl <;> decide

theorem ready_iff : port.Ready ↔ port.tx.size < 4096 :=
  lineStatus_bits 0x20 (.inl rfl)

theorem sent_iff : port.Sent ↔ port.tx.size < 4096 :=
  lineStatus_bits 0x40 (.inr rfl)

theorem canTransmit_iff : port.canTransmit = true ↔ port.Ready := by
  rw [ready_iff]
  exact decide_eq_true_iff

end Registers

section Output

variable (port : Uart)

theorem read_tx (offset : UInt64) : (port.read offset).2.tx = port.tx := by
  unfold read receive identify
  split
  · split
    · rfl
    · split <;> rfl
  · rfl
  · dsimp only
    split <;> rfl
  all_goals rfl

theorem put_tx (byte : UInt8) : (port.put byte).tx = port.tx := by
  unfold put
  split <;> rfl

theorem puts_tx (bytes : List UInt8) : (bytes.foldl put port).tx = port.tx := by
  induction bytes generalizing port with
  | nil => rfl
  | cons byte rest ih => rw [List.foldl_cons, ih, put_tx]

theorem fill_tx (bytes : List UInt8) : (Console.fill bytes port).2.tx = port.tx := by
  induction bytes generalizing port with
  | nil => rfl
  | cons byte rest ih =>
    unfold Console.fill
    split
    · rw [ih, put_tx]
    · rfl

end Output

end RvBoard.Uart
