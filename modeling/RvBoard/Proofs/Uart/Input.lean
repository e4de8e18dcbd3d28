import RvBoard.Proofs.Uart.Deeds

/-!
# Input of a serial port

What is typed waits at the console until the line is served, then for room in the receive FIFO, and in the FIFO for the
guest. Bytes pass from one place to the next in the order in which they were typed, and each of them once. Only a reset
of the port or of its FIFO takes any of them away.
-/

set_option autoImplicit false

namespace RvBoard.Uart

section Registers

variable (port : Uart)

def DataReady : Prop :=
  (port.read 5).1 &&& 0x01 ≠ 0

instance : Decidable port.DataReady :=
  inferInstanceAs (Decidable (_ ≠ _))

variable {port}

theorem dataReady_iff : port.DataReady ↔ port.rx ≠ [] := by
  change port.lineStatus &&& 0x01 ≠ 0 ↔ _
  unfold lineStatus
  rw [← List.isEmpty_eq_false_iff]
  cases port.rx.isEmpty <;> cases port.canTransmit <;> decide

theorem read_receives (unlatched : ¬ port.Latched) : port.read 0 = port.receive := by
  change (if port.dlab then (port.dll, port) else port.receive) = _
  rw [if_neg fun latch => unlatched (latched_iff.mpr latch)]

theorem read_latched (latched : port.Latched) : port.read 0 = (port.dll, port) := by
  change (if port.dlab then (port.dll, port) else port.receive) = _
  rw [if_pos (latched_iff.mp latched)]

end Registers

section Receiver

variable (port : Uart)

theorem receive_cons {byte : UInt8} {rest : List UInt8} (holds : port.rx = byte :: rest) :
    port.receive = (byte, { port with rx := rest }) := by
  simp only [receive, holds]

theorem receive_nil (dry : port.rx = []) : port.receive = (0, port) := by
  simp only [receive, dry]

theorem read_rx {offset : UInt64} (other : offset ≠ 0) : (port.read offset).2.rx = port.rx := by
  unfold read identify
  split
  · exact absurd rfl other
  · rfl
  · dsimp only
    split <;> rfl
  all_goals rfl

theorem write_rx (offset : UInt64) (byte : UInt8) :
    (port.write offset byte).rx = if offset = 2 ∧ byte &&& 2 ≠ 0 then [] else port.rx := by
  by_cases control : offset = 2
  · subst control
    change (if byte &&& 2 != 0 then [] else port.rx) = _
    by_cases kept : byte &&& 2 = 0
    · simp [kept]
    · simp [kept]
  · rw [if_neg fun both => control both.1]
    unfold write transmit
    split
    · split
      · rfl
      · split <;> rfl
    · split <;> rfl
    · exact absurd rfl control
    all_goals rfl

theorem put_rx (room : port.canPut = true) (byte : UInt8) : (port.put byte).rx = port.rx ++ [byte] := by
  unfold put
  rw [if_pos room]

theorem canPut_iff : port.canPut = true ↔ port.rx.length < 16 :=
  decide_eq_true_iff

end Receiver

-- Every one of some bytes that are put one after the other finds room.
def Takes : List UInt8 → Uart → Prop
  | [], _ => True
  | byte :: rest, port => port.canPut = true ∧ Takes rest (port.put byte)

structure Fed (port next : Uart) (waiting rest : List UInt8) : Prop where
  fed : ∃ bytes, waiting = bytes ++ rest ∧ Takes bytes port ∧ next = bytes.foldl put port ∧ next.rx = port.rx ++ bytes
  full : rest ≠ [] → 16 ≤ next.rx.length

theorem fill_feeds (bytes : List UInt8) (port : Uart) :
    Fed port (Console.fill bytes port).2 bytes (Console.fill bytes port).1 := by
  induction bytes generalizing port with
  | nil => exact ⟨⟨[], rfl, trivial, rfl, (List.append_nil _).symm⟩, fun some => absurd rfl some⟩
  | cons byte rest ih =>
    unfold Console.fill
    by_cases room : port.canPut = true
    · rw [if_pos room]
      obtain ⟨⟨front, split, takes, same, grown⟩, full⟩ := ih (port.put byte)
      refine ⟨⟨byte :: front, congrArg (byte :: ·) split, ⟨room, takes⟩, same, ?_⟩, full⟩
      rw [grown, put_rx port room, List.append_assoc]
      rfl
    · rw [if_neg room]
      refine ⟨⟨[], rfl, trivial, rfl, (List.append_nil _).symm⟩, fun _ => ?_⟩
      exact Nat.le_of_not_lt (mt (canPut_iff port).mpr room)

theorem Takes.bounded {bytes : List UInt8} {port : Uart} (takes : Takes bytes port) (fits : port.rx.length ≤ 16) :
    (bytes.foldl put port).rx.length ≤ 16 := by
  induction bytes generalizing port with
  | nil => exact fits
  | cons byte rest ih =>
    refine ih takes.2 ?_
    rw [put_rx port takes.1, List.length_append]
    exact (canPut_iff port).mp takes.1

structure Station where
  console : Console := {}
  port : Uart := {}

namespace Station

/-- What happens at a station: something is typed, the console serves the line, the guest reads and writes registers, the
host takes output, the port is reset. -/
inductive Event where
  | typed (bytes : List UInt8)
  | pumped
  | loaded (offset : UInt64) (size : Nat)
  | stored (offset : UInt64) (size : Nat) (value : UInt64)
  | drained (limit : Option Nat)
  | reset

def after (station : Station) : Event → Station
  | .typed bytes => ⟨station.console.type bytes, station.port⟩
  | .pumped => ⟨(station.console.pump station.port).2.1, (station.console.pump station.port).2.2⟩
  | .loaded offset size => ⟨station.console, station.port.after (.load offset size)⟩
  | .stored offset size value => ⟨station.console, station.port.after (.store offset size value)⟩
  | .drained limit => ⟨station.console, station.port.after (.drain limit)⟩
  | .reset => ⟨station.console, station.port.after .reset⟩

def Event.apply (place : Console × Device × Wires) : Event → Console × Device × Wires
  | .typed bytes => (place.1.type bytes, place.2)
  | .pumped => ((place.2.1.pump place.1 place.2.2).1.2, (place.2.1.pump place.1 place.2.2).2)
  | .loaded offset size => (place.1, Deed.apply place.2 (.load offset size))
  | .stored offset size value => (place.1, Deed.apply place.2 (.store offset size value))
  | .drained limit => (place.1, Deed.apply place.2 (.drain limit))
  | .reset => (place.1, Deed.apply place.2 .reset)

theorem apply_station (line : Line) (station : Station) (wires : Wires) (event : Event) :
    ∃ next, event.apply (station.console, .uart line station.port, wires) =
      ((station.after event).console, .uart line (station.after event).port, next) := by
  cases event <;> exact ⟨_, rfl⟩

theorem applied_station (line : Line) (events : List Event) (station : Station) (wires : Wires) :
    ∃ next, events.foldl Event.apply (station.console, .uart line station.port, wires) =
      ((events.foldl after station).console, .uart line (events.foldl after station).port, next) := by
  induction events generalizing station wires with
  | nil => exact ⟨wires, rfl⟩
  | cons event rest ih =>
    obtain ⟨mid, first⟩ := apply_station line station wires event
    rw [List.foldl_cons, List.foldl_cons, first]
    exact ih (station.after event) mid

-- What was typed and has not come to the guest yet: in the FIFO, pending at the console, or not yet looked at.
def waiting (station : Station) : List UInt8 :=
  station.port.rx ++ station.console.pending ++ station.console.typed

structure Moment where
  station : Station
  event : Event

def course (station : Station) : List Event → List Moment
  | [] => []
  | event :: rest => ⟨station, event⟩ :: course (station.after event) rest

namespace Moment

def typed (moment : Moment) : List UInt8 :=
  match moment.event with
  | .typed bytes => bytes
  | _ => []

-- What the guest reads from the receiver while the line status says that there is data.
def read (moment : Moment) : List UInt8 :=
  match moment.event with
  | .loaded offset _ =>
    if offset = 0 ∧ ¬ moment.station.port.Latched ∧ moment.station.port.DataReady then [(moment.station.port.read 0).1]
    else []
  | _ => []

def discarded (moment : Moment) : List UInt8 :=
  match moment.event with
  | .stored offset _ value => if offset = 2 ∧ value.toUInt8 &&& 2 ≠ 0 then moment.station.port.rx else []
  | .reset => moment.station.port.rx
  | _ => []

def gone (moment : Moment) : List UInt8 :=
  moment.discarded ++ moment.read

end Moment

section Steps

variable (station : Station)

theorem pump_feeds : Fed (station.port.drain station.port.tx.size).2 (station.after .pumped).port
    (station.console.pending ++ station.console.typed) (station.after .pumped).console.pending :=
  fill_feeds _ _

theorem pump_splits_input : station.waiting = (station.after .pumped).waiting := by
  obtain ⟨⟨bytes, split, _, _, grown⟩, _⟩ := station.pump_feeds
  have looked : (station.after .pumped).console.typed = [] := rfl
  have undrained : (station.port.drain station.port.tx.size).2.rx = station.port.rx := rfl
  unfold waiting
  rw [looked, List.append_nil, List.append_assoc, split, grown, undrained, List.append_assoc]

theorem load_splits (offset : UInt64) (size : Nat) :
    station.port.rx = Moment.read ⟨station, .loaded offset size⟩ ++ (station.port.read offset).2.rx := by
  unfold Moment.read
  dsimp only
  by_cases first : offset = 0
  · subst first
    by_cases latched : station.port.Latched
    · rw [if_neg fun all => all.2.1 latched, read_latched latched]
      rfl
    · cases held : station.port.rx with
      | nil =>
        rw [if_neg fun all => dataReady_iff.mp all.2.2 held, read_receives latched, receive_nil _ held, held]
        rfl
      | cons byte rest =>
        have ready : station.port.DataReady := dataReady_iff.mpr (by simp [held])
        rw [if_pos ⟨rfl, latched, ready⟩, read_receives latched, receive_cons _ held]
        rfl
  · rw [if_neg fun all => first all.1, read_rx _ first]
    rfl

theorem event_splits (event : Event) :
    station.waiting ++ Moment.typed ⟨station, event⟩ = Moment.gone ⟨station, event⟩ ++ (station.after event).waiting := by
  cases event with
  | typed bytes => exact List.append_assoc _ _ _
  | pumped => exact (List.append_nil _).trans station.pump_splits_input
  | loaded offset size =>
    change (station.port.rx ++ _ ++ _) ++ [] =
      ([] ++ Moment.read _) ++ ((station.port.read offset).2.rx ++ station.console.pending ++ station.console.typed)
    rw [List.append_nil, List.nil_append, ← List.append_assoc, ← List.append_assoc, ← station.load_splits offset size]
  | stored offset size value =>
    change (station.port.rx ++ _ ++ _) ++ [] = (_ ++ []) ++ ((station.port.write offset value.toUInt8).rx ++ _ ++ _)
    rw [List.append_nil, List.append_nil, write_rx]
    unfold Moment.discarded
    dsimp only
    split
    · exact List.append_assoc _ _ _
    · rfl
  | drained limit => exact List.append_nil _
  | reset =>
    change (station.port.rx ++ _ ++ _) ++ [] =
      (station.port.rx ++ []) ++ ([] ++ station.console.pending ++ station.console.typed)
    rw [List.append_nil, List.append_nil, List.nil_append, List.append_assoc]

theorem event_bounded (fits : station.port.rx.length ≤ 16) (event : Event) : (station.after event).port.rx.length ≤ 16 := by
  cases event with
  | pumped =>
    obtain ⟨⟨bytes, _, takes, same, _⟩, _⟩ := station.pump_feeds
    rw [same]
    exact takes.bounded fits
  | loaded offset size =>
    have split := congrArg List.length (station.load_splits offset size)
    rw [List.length_append] at split
    change (station.port.read offset).2.rx.length ≤ 16
    omega
  | stored offset size value =>
    change (station.port.write offset value.toUInt8).rx.length ≤ 16
    rw [write_rx]
    split
    · exact Nat.zero_le _
    · exact fits
  | reset => exact Nat.zero_le _
  | _ => exact fits

end Steps

theorem course_splits_input (station : Station) (events : List Event) :
    station.waiting ++ (course station events).flatMap Moment.typed =
      (course station events).flatMap Moment.gone ++ (events.foldl after station).waiting := by
  induction events generalizing station with
  | nil => exact List.append_nil _
  | cons event rest ih =>
    rw [course, List.flatMap_cons, List.flatMap_cons, List.foldl_cons, ← List.append_assoc, event_splits,
      List.append_assoc, ih, List.append_assoc]

theorem events_bounded {station : Station} (fits : station.port.rx.length ≤ 16) (events : List Event) :
    (events.foldl after station).port.rx.length ≤ 16 := by
  induction events generalizing station with
  | nil => exact fits
  | cons event rest ih => exact ih (station.event_bounded fits event)

theorem ready_iff_first {station : Station} (unlatched : ¬ station.port.Latched) (size : Nat) :
    station.port.DataReady ↔
      station.waiting = (station.port.read 0).1 :: (station.after (.loaded 0 size)).waiting := by
  have left : (station.after (.loaded 0 size)).waiting =
    (station.port.read 0).2.rx ++ station.console.pending ++ station.console.typed := rfl
  rw [dataReady_iff, left, read_receives unlatched]
  unfold waiting
  cases held : station.port.rx with
  | nil =>
    rw [receive_nil _ held, held]
    exact ⟨fun some => absurd rfl some, fun same => absurd same.symm (List.cons_ne_self _ _)⟩
  | cons byte rest =>
    rw [receive_cons _ held]
    exact ⟨fun _ => rfl, fun _ => List.cons_ne_nil _ _⟩

/-- Whatever is typed, whenever the console serves the line and whatever the guest does at the port, what is typed comes to
the guest in order and once each, but for what a reset or the clearing of the FIFO discards. The FIFO holds at most 16
bytes, the console puts no byte for which there is no room, and the line status says that there is data just when the
next read of the receiver gives a byte that was typed. -/
theorem input_in_order (line : Line) (wires : Wires) (events : List Event) :
    let row := course {} events
    let last := events.foldl after {}
    let typed := row.flatMap Moment.typed
    let read := row.flatMap Moment.read
    (∃ next, events.foldl Event.apply ({}, .uart line {}, wires) = (last.console, .uart line last.port, next)) ∧
      typed = row.flatMap Moment.gone ++ last.waiting ∧
      (read ++ last.waiting).Sublist typed ∧
      (read ++ last.waiting = typed ↔ ∀ moment ∈ row, moment.discarded = []) ∧
      last.port.rx.length ≤ 16 ∧
      Fed (last.port.drain last.port.tx.size).2 (last.after .pumped).port (last.console.pending ++ last.console.typed)
        (last.after .pumped).console.pending ∧
      (last.port.DataReady ↔ last.port.rx ≠ []) ∧
      ∀ size, ¬ last.port.Latched → (last.port.DataReady ↔
        typed = row.flatMap Moment.gone ++ (last.port.read 0).1 :: (last.after (.loaded 0 size)).waiting) := by
  intro row last typed read
  have splits : typed = row.flatMap Moment.gone ++ last.waiting := course_splits_input {} events
  refine ⟨applied_station line events {} wires, splits, ?_, ?_, @events_bounded {} (Nat.zero_le 16) events,
    last.pump_feeds, dataReady_iff, ?_⟩
  · rw [splits]
    exact (kept_sublist Moment.discarded Moment.read row).append (List.Sublist.refl _)
  · rw [splits, List.append_left_inj, eq_comm]
    exact all_kept_iff Moment.discarded Moment.read row
  · intro size unlatched
    rw [splits, List.append_right_inj]
    exact ready_iff_first unlatched size

end Station

end RvBoard.Uart
