import RvBoard.Proofs.Cells
import RvBoard.Proofs.Memory.Grants

/-!
# What accesses depend on

Where two buses differ in hidden bytes of memories only, an access that succeeds on the one and reads
nothing hidden does the same on the other, and leaves them different in hidden bytes only. A walk
reads the entries that it passes.
-/

set_option autoImplicit false

namespace RvBoard

-- Two devices are the same, but for hidden bytes where they are memories.
inductive Device.Veiled (hidden : Nat → Prop) : Device → Device → Prop
  | same (device : Device) : Veiled hidden device device
  | memory {a b : Ram} (size : b.data.size = a.data.size)
      (shown : ∀ i, ¬ hidden i → b.data.get! i = a.data.get! i) : Veiled hidden (.ram a) (.ram b)

namespace Device

variable {hidden : Nat → Prop} {device other : Device}

theorem Veiled.load (veiled : Veiled hidden device other) (wires : Wires) {offset : UInt64} {size : Nat}
    (shown : ∀ i, offset.toNat ≤ i → i < offset.toNat + byteCount size → ¬ hidden i) :
    (other.load wires offset size).1 = (device.load wires offset size).1 ∧
      Veiled hidden (device.load wires offset size).2.1 (other.load wires offset size).2.1 ∧
      (other.load wires offset size).2.2 = (device.load wires offset size).2.2 := by
  cases veiled with
  | same device => exact ⟨rfl, .same _, rfl⟩
  | @memory a b length kept =>
    refine ⟨?_, .memory length kept, rfl⟩
    have word : Bytes.wordAt b.data offset.toNat (byteCount size) = Bytes.wordAt a.data offset.toNat (byteCount size) := by
      apply Bytes.wordAt_congr
      intro k inside
      exact kept _ (shown _ (by omega) (by omega))
    have same : Bytes.word? b.data offset.toNat size = Bytes.word? a.data offset.toNat size := by
      unfold Bytes.word? Bytes.holds
      rw [length, word]
    change Ram.load b offset size = Ram.load a offset size
    rw [Ram.load, Ram.load, same]

theorem Veiled.store (veiled : Veiled hidden device other) (wires : Wires) (offset : UInt64) (size : Nat) (value : UInt64) :
    (other.store wires offset size value).1 = (device.store wires offset size value).1 ∧
      Veiled hidden (device.store wires offset size value).2.1 (other.store wires offset size value).2.1 ∧
      (other.store wires offset size value).2.2 = (device.store wires offset size value).2.2 := by
  cases veiled with
  | same device => exact ⟨rfl, .same _, rfl⟩
  | @memory a b length kept =>
    have held : Bytes.holds b.data offset.toNat (byteCount size) = Bytes.holds a.data offset.toNat (byteCount size) := by
      unfold Bytes.holds
      rw [length]
    simp only [Device.store, Ram.store, held]
    by_cases inside : Bytes.holds a.data offset.toNat (byteCount size) = true
    · have fits : offset.toNat + byteCount size ≤ a.data.size := of_decide_eq_true inside
      rw [if_pos inside, if_pos inside]
      refine ⟨rfl, .memory (by rw [Bytes.size_putWord, Bytes.size_putWord, length]) ?_, trivial⟩
      intro i shown
      rw [Bytes.get_putWord _ _ _ _ _ fits, Bytes.get_putWord _ _ _ _ _ (length ▸ fits), kept i shown]
    · rw [if_neg inside, if_neg inside]
      exact ⟨rfl, .memory length kept, trivial⟩

end Device

namespace Bus

-- Two buses are the same, but for hidden bytes of memories.
structure Veiled (hidden : Cell → Prop) (bus other : Bus) : Prop where
  windows : other.windows = bus.windows
  wires : other.wires = bus.wires
  held : other.held = bus.held
  known : other.devices.size = bus.devices.size
  devices : ∀ id device, bus.devices[id]? = some device →
    ∃ twin, other.devices[id]? = some twin ∧ Device.Veiled (fun i => hidden (id, i)) device twin

def Shown (hidden : Cell → Prop) (bus : Bus) (area : Area) : Prop :=
  ∀ cell, bus.Covers area cell → ¬ hidden cell

section Veils

variable {hidden : Cell → Prop} {bus other next : Bus}

theorem Veiled.window (veiled : Veiled hidden bus other) (address : UInt64) (n : Nat) :
    other.window? address n = bus.window? address n := by
  unfold window? find?
  rw [veiled.windows]

theorem Veiled.reached (veiled : Veiled hidden bus other) {address : UInt64} {size : Nat} {window : Window}
    {device : Device} (reached : Reached bus address size window device) :
    ∃ twin, Reached other address size window twin ∧ Device.Veiled (fun i => hidden (window.device, i)) device twin := by
  obtain ⟨twin, present, alike⟩ := veiled.devices _ _ reached.present
  refine ⟨twin, ⟨reached.small, reached.fair, ?_, ?_, present⟩, alike⟩
  · rw [veiled.window]
    exact reached.found
  · rw [veiled.held]
    exact reached.free

theorem Veiled.replace (veiled : Veiled hidden bus other) {id : DeviceId} {device twin : Device}
    (alike : Device.Veiled (fun i => hidden (id, i)) device twin) (wires : Wires) :
    Veiled hidden (bus.replace id device wires) (other.replace id twin wires) := by
  refine ⟨veiled.windows, rfl, veiled.held, ?_, ?_⟩
  · simp only [Bus.replace, Array.size_setIfInBounds, veiled.known]
  · intro j found present
    simp only [Bus.replace, Array.getElem?_setIfInBounds, veiled.known] at present ⊢
    by_cases here : id = j
    · subst here
      rw [if_pos rfl] at present ⊢
      by_cases known : id < bus.devices.size
      · rw [if_pos known] at present ⊢
        cases present
        exact ⟨twin, rfl, alike⟩
      · rw [if_neg known] at present
        cases present
    · rw [if_neg here] at present ⊢
      exact veiled.devices j found present

theorem Veiled.settle {α : Type} (veiled : Veiled hidden bus other) {id : DeviceId} {mine yours : Access α} {value : α}
    (alike : yours.1 = mine.1 ∧ Device.Veiled (fun i => hidden (id, i)) mine.2.1 yours.2.1 ∧ yours.2.2 = mine.2.2)
    (done : bus.settle id mine = .ok value next) :
    ∃ after, other.settle id yours = .ok value after ∧ Veiled hidden next after := by
  obtain ⟨mine, device, wires⟩ := mine
  obtain ⟨yours, twin, others⟩ := yours
  obtain ⟨result, veiledDevice, same⟩ := alike
  dsimp only at result veiledDevice same
  subst result same
  cases yours with
  | ok given =>
    cases done
    exact ⟨_, rfl, veiled.replace veiledDevice others⟩
  | error fault => cases done

theorem Veiled.load (veiled : Veiled hidden bus other) {address : UInt64} {size : Nat} {value : UInt64}
    (shown : bus.Shown hidden ⟨address, byteCount size⟩) (done : load address size bus = .ok value next) :
    ∃ after, load address size other = .ok value after ∧ Veiled hidden next after := by
  rcases load_reaches address size bus with ⟨fault, failed⟩ | ⟨window, device, reached⟩
  · cases failed.symm.trans done
  obtain ⟨twin, found, alike⟩ := veiled.reached reached
  rw [load_reached reached] at done
  rw [load_reached found, veiled.wires]
  refine veiled.settle (alike.load bus.wires ?_) done
  intro i above below
  exact shown _ (.reach (UInt64.le_refl _) (Nat.le_refl _) reached.found ⟨above, below⟩)

theorem Veiled.store (veiled : Veiled hidden bus other) {address : UInt64} {size : Nat} {value : UInt64}
    (done : store address size value bus = .ok () next) :
    ∃ after, store address size value other = .ok () after ∧ Veiled hidden next after := by
  rcases store_reaches address size value bus with ⟨fault, failed⟩ | ⟨window, device, reached⟩
  · cases failed.symm.trans done
  obtain ⟨twin, found, alike⟩ := veiled.reached reached
  rw [store_reached value reached] at done
  rw [store_reached value found, veiled.wires]
  exact veiled.settle (alike.store bus.wires _ size value) done

theorem Shown.after {address : UInt64} {size : Nat} {value : UInt64} {area : Area} (shown : bus.Shown hidden area)
    (done : load address size bus = .ok value next) : next.Shown hidden area :=
  fun cell covered => shown cell ((loaded_confined (fun _ => False) done).covers covered)

end Veils

end Bus

open Bus

namespace Sv39

inductive Passes (vaddr : UInt64) : Bus → Nat → UInt64 → UInt64 → Prop
  | first {bus : Bus} {level : Nat} {table : UInt64} : Passes vaddr bus (level + 1) table (entryAt vaddr level table)
  | beyond {bus next : Bus} {level : Nat} {table address : UInt64} {pte : Pte}
      (read : Bus.load (entryAt vaddr level table) 3 bus = .ok pte.bits next) (fair : pte.isMalformed = false)
      (inner : pte.isLeaf = false) (rest : Passes vaddr next level pte.address address) :
      Passes vaddr bus (level + 1) table address

section Walks

variable {hidden : Cell → Prop} {bus other next : Bus} {vaddr table entry : UInt64} {level leafLevel : Nat} {leaf : Pte}

theorem leads_veiled (leads : Leads vaddr bus level table next entry leaf leafLevel) (veiled : Veiled hidden bus other)
    (shown : ∀ address, Passes vaddr bus level table address → bus.Shown hidden ⟨address, 8⟩) :
    ∃ after, Leads vaddr other level table after entry leaf leafLevel ∧ Veiled hidden next after := by
  induction leads generalizing other with
  | leaf read fair last =>
    obtain ⟨after, alike, kept⟩ := veiled.load (shown _ .first) read
    exact ⟨after, .leaf alike fair last, kept⟩
  | down read fair inner rest ih =>
    obtain ⟨mid, alike, kept⟩ := veiled.load (shown _ .first) read
    obtain ⟨after, leads, final⟩ := ih kept (fun address passes => (shown address (.beyond read fair inner passes)).after read)
    exact ⟨after, .down alike fair inner leads, final⟩

theorem Marking.veiled {kind : AccessKind} (marking : Marking kind entry leaf bus next) (veiled : Veiled hidden bus other) :
    ∃ after, Marking kind entry leaf other after ∧ Veiled hidden next after := by
  cases marking with
  | there present => exact ⟨other, .there present, veiled⟩
  | set absent stored =>
    obtain ⟨after, alike, kept⟩ := veiled.store stored
    exact ⟨after, .set absent alike, kept⟩

theorem walk_veiled {root : UInt64} {kind : AccessKind} {context : AccessContext} {translation : Translation}
    (walked : walk root vaddr kind context bus = .ok translation next) (veiled : Veiled hidden bus other)
    (shown : ∀ address, Passes vaddr bus levels root address → bus.Shown hidden ⟨address, 8⟩) :
    ∃ after, walk root vaddr kind context other = .ok translation after ∧ Veiled hidden next after := by
  obtain ⟨canonical, mid, entry, leaf, level, leads, usable, same, marking⟩ := walk_ok_iff.mp walked
  obtain ⟨between, alike, kept⟩ := leads_veiled leads veiled shown
  obtain ⟨after, marked, final⟩ := marking.veiled kept
  exact ⟨after, walk_ok_iff.mpr ⟨canonical, between, entry, leaf, level, alike, usable, same, marked⟩, final⟩

end Walks

end Sv39

namespace Memory

theorem Translates.veiled {hidden : Cell → Prop} {other : Bus} {vaddr paddr : UInt64} {kind : AccessKind}
    {context : AccessContext} {memory next : Memory} (translates : Translates vaddr kind context memory paddr next)
    (veiled : Veiled hidden memory.bus other)
    (shown : ∀ address, Sv39.Passes vaddr memory.bus Sv39.levels memory.root address →
      memory.bus.Shown hidden ⟨address, 8⟩) :
    ∃ after, Translates vaddr kind context { memory with bus := other } paddr { next with bus := after } ∧
      Veiled hidden next.bus after := by
  let moved : Memory := { memory with bus := other }
  cases translates with
  | cached hit => exact ⟨other, @Translates.cached vaddr kind context moved _ hit, veiled⟩
  | walked missed done =>
    obtain ⟨after, alike, kept⟩ := Sv39.walk_veiled done veiled shown
    exact ⟨after, @Translates.walked vaddr kind context moved _ _ missed alike, kept⟩

end Memory

theorem DataAccess.operation_veiled {hidden : Cell → Prop} {bus other next : Bus} {access : DataAccess}
    {paddr value : UInt64} (done : access.operation paddr bus = .ok value next) (veiled : Veiled hidden bus other)
    (shown : bus.Shown hidden ⟨paddr, byteCount access.size⟩) :
    ∃ after, access.operation paddr other = .ok value after ∧ Veiled hidden next after := by
  cases access with
  | load vaddr size =>
    obtain ⟨word, mid, read, same⟩ := bind_ok.mp done
    cases same
    obtain ⟨after, alike, kept⟩ := veiled.load shown read
    exact ⟨after, bind_of_ok alike, kept⟩
  | store vaddr size stored =>
    obtain ⟨_, mid, written, same⟩ := bind_ok.mp done
    cases same
    obtain ⟨after, alike, kept⟩ := veiled.store written
    exact ⟨after, bind_of_ok alike, kept⟩
  | update vaddr size change =>
    obtain ⟨old, mid, read, rest⟩ := bind_ok.mp done
    obtain ⟨_, last, written, same⟩ := bind_ok.mp rest
    cases same
    obtain ⟨between, alike, kept⟩ := veiled.load shown (Memory.loadForStore_ok_iff.mp read)
    obtain ⟨after, again, final⟩ := kept.store written
    exact ⟨after, (bind_of_ok (Memory.loadForStore_ok_iff.mpr alike)).trans (bind_of_ok again), final⟩

end RvBoard
