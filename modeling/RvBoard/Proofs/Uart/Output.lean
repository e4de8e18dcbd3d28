import RvBoard.Proofs.Uart.Deeds

/-!
# Output of a serial port

A byte that the guest writes while the transmitter is ready waits in a buffer until the host takes it or the guest
clears the transmitter. Bytes leave the buffer in the order in which they came, and each of them once.
-/

set_option autoImplicit false

namespace RvBoard.Uart

namespace Moment

-- What the guest writes to the transmitter while the line status says that it is ready.
def written (moment : Moment) : List UInt8 :=
  match moment.deed with
  | .store offset _ value =>
    if offset = 0 ∧ ¬ moment.port.Latched ∧ moment.port.Ready then [value.toUInt8] else []
  | _ => []

def taken (moment : Moment) : List UInt8 :=
  match moment.deed with
  | .drain limit => (moment.port.drain (limit.getD moment.port.tx.size)).1.toList
  | .pump console => (console.pump moment.port).1
  | _ => []

-- What the guest clears out of the transmitter.
def cleared (moment : Moment) : List UInt8 :=
  match moment.deed with
  | .store offset _ value => if offset = 2 ∧ value.toUInt8 &&& 4 ≠ 0 then moment.port.tx.toList else []
  | _ => []

-- What leaves the buffer, by either way.
def gone (moment : Moment) : List UInt8 :=
  moment.cleared ++ moment.taken

end Moment

section Steps

variable (port : Uart)

theorem drain_splits (limit : Nat) :
    port.tx.toList = (port.drain limit).1.toList ++ (port.drain limit).2.tx.toList := by
  have rest : (port.tx.toList.drop limit).length ≤ port.tx.size - limit := by simp
  simp [drain, List.take_of_length_le rest]

theorem pump_splits (console : Console) :
    port.tx.toList = (console.pump port).1 ++ (console.pump port).2.2.tx.toList := by
  change _ = (port.drain port.tx.size).1.toList ++ (Console.fill _ (port.drain port.tx.size).2).2.tx.toList
  rw [fill_tx]
  exact drain_splits port _

theorem transmit_adds (byte : UInt8) :
    (port.transmit byte).tx.toList = port.tx.toList ++ if port.Ready then [byte] else [] := by
  unfold transmit
  by_cases room : port.Ready
  · rw [if_pos (canTransmit_iff.mpr room), if_pos room]
    exact Array.toList_push
  · rw [if_neg fun free => room (canTransmit_iff.mp free), if_neg room, List.append_nil]

theorem write_first (byte : UInt8) :
    (port.write 0 byte).tx.toList = port.tx.toList ++ if ¬ port.Latched ∧ port.Ready then [byte] else [] := by
  by_cases latched : port.Latched
  · rw [write_latches latched, if_neg fun both => both.1 latched, List.append_nil]
  · rw [write_transmits latched, transmit_adds]
    simp only [latched, not_false_eq_true, true_and]

theorem write_control (byte : UInt8) :
    (port.write 2 byte).tx.toList = if byte &&& 4 ≠ 0 then [] else port.tx.toList := by
  change (if byte &&& 4 != 0 then #[] else port.tx).toList = _
  by_cases kept : byte &&& 4 = 0
  · simp [kept]
  · simp [kept]

theorem write_tx {offset : UInt64} (byte : UInt8) (first : offset ≠ 0) (control : offset ≠ 2) :
    (port.write offset byte).tx = port.tx := by
  unfold write
  split
  · exact absurd rfl first
  · split <;> rfl
  · exact absurd rfl control
  all_goals rfl

theorem store_splits (offset : UInt64) (size : Nat) (value : UInt64) :
    port.tx.toList ++ Moment.written ⟨port, .store offset size value⟩ =
      Moment.cleared ⟨port, .store offset size value⟩ ++ (port.write offset value.toUInt8).tx.toList := by
  unfold Moment.written Moment.cleared
  by_cases first : offset = 0
  · subst first
    rw [write_first]
    simp
  by_cases control : offset = 2
  · subst control
    rw [write_control]
    by_cases kept : value.toUInt8 &&& 4 = 0
    · simp [kept]
    · simp [kept]
  · rw [write_tx port _ first control]
    simp [first, control]

theorem deed_splits (deed : Deed) :
    port.tx.toList ++ Moment.written ⟨port, deed⟩ = Moment.gone ⟨port, deed⟩ ++ (port.after deed).tx.toList := by
  unfold Moment.gone
  cases deed with
  | load offset size =>
    change port.tx.toList ++ [] = [] ++ (port.read offset).2.tx.toList
    rw [read_tx, List.append_nil, List.nil_append]
  | store offset size value =>
    change _ = (_ ++ []) ++ _
    rw [List.append_nil]
    exact store_splits port offset size value
  | drain limit => exact (List.append_nil _).trans (drain_splits port _)
  | put bytes =>
    change port.tx.toList ++ [] = [] ++ (bytes.foldl put port).tx.toList
    rw [puts_tx, List.append_nil, List.nil_append]
  | pump console => exact (List.append_nil _).trans (pump_splits port console)
  | reset => exact List.append_nil _

end Steps

theorem course_splits (port : Uart) (deeds : List Deed) :
    port.tx.toList ++ (course port deeds).flatMap Moment.written =
      (course port deeds).flatMap Moment.gone ++ (deeds.foldl after port).tx.toList := by
  induction deeds generalizing port with
  | nil => exact List.append_nil _
  | cons deed rest ih =>
    rw [course, List.flatMap_cons, List.flatMap_cons, List.foldl_cons, ← List.append_assoc, deed_splits,
      List.append_assoc, ih, List.append_assoc]

theorem taken_sublist (row : List Moment) : (row.flatMap Moment.taken).Sublist (row.flatMap Moment.gone) :=
  kept_sublist Moment.cleared Moment.taken row

theorem gone_taken_iff (row : List Moment) :
    row.flatMap Moment.gone = row.flatMap Moment.taken ↔ ∀ moment ∈ row, moment.cleared = [] :=
  all_kept_iff Moment.cleared Moment.taken row

/-- Whatever guest and host do at a port, the guest's bytes go to the host in order and once each, but for those that
the guest clears out of the transmitter before the host has taken them. The line status says that the transmitter is
ready, and that all has been sent, as long as fewer than 4096 bytes wait. -/
theorem output_accounted (line : Line) (wires : Wires) (port : Uart) (deeds : List Deed) :
    let row := course port deeds
    let last := deeds.foldl after port
    let written := row.flatMap Moment.written
    let taken := row.flatMap Moment.taken
    (∃ next, deeds.foldl Deed.apply (.uart line port, wires) = (.uart line last, next)) ∧
      (last.Ready ↔ last.tx.size < 4096) ∧ (last.Sent ↔ last.Ready) ∧
      port.tx.toList ++ written = row.flatMap Moment.gone ++ last.tx.toList ∧
      (taken ++ last.tx.toList).Sublist (port.tx.toList ++ written) ∧
      (taken ++ last.tx.toList = port.tx.toList ++ written ↔ ∀ moment ∈ row, moment.cleared = []) := by
  intro row last written taken
  have splits : port.tx.toList ++ written = row.flatMap Moment.gone ++ last.tx.toList := course_splits port deeds
  refine ⟨applied_port line deeds port wires, ready_iff, sent_iff.trans ready_iff.symm, splits, ?_, ?_⟩
  · rw [splits]
    exact (taken_sublist row).append (List.Sublist.refl _)
  · rw [splits, List.append_left_inj, eq_comm]
    exact gone_taken_iff row

theorem cleared_output_lost :
    let row := course {} [.store 0 0 0x61, .store 2 0 4]
    let last := [Deed.store 0 0 0x61, .store 2 0 4].foldl after {}
    (after {} (.store 0 0 0x61)).Sent ∧ row.flatMap Moment.written = [0x61] ∧ row.flatMap Moment.taken = [] ∧
      last.tx.toList = [] := by
  refine ⟨sent_iff.mpr ?_, ?_, ?_, ?_⟩ <;> decide

end RvBoard.Uart
