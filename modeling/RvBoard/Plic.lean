import RvBoard.Fdt
import RvBoard.MemFault
import RvBoard.Pins

/-!
# Platform-level interrupt controller

Sixty-four sources, of which source 0 does not exist, and two contexts: machine and supervisor
mode of the hart. A context's pin is high exactly while it has a deliverable source, and a claim
takes the deliverable source of greatest priority, the lowest number on ties.

    priority    base + 0x000004 * source          (source 0 does not exist)
    pending     base + 0x001000 + 4 * word        (read-only)
    enable      base + 0x002000 + 0x80 * context + 4 * word
    threshold   base + 0x200000 + 0x1000 * context
    claim       base + 0x200004 + 0x1000 * context (read: claim, write: complete)
-/

set_option autoImplicit false

namespace RvBoard

abbrev Line := Fin 64

namespace Plic

structure Context where
  enable : Vector UInt32 2 := Vector.replicate 2 0
  threshold : UInt32 := 0
deriving DecidableEq, Repr

def Context.enabled (context : Context) (line : Line) : Bool :=
  let word := if line.val < 32 then context.enable[0] else context.enable[1]
  word &&& (1 <<< UInt32.ofNat (line.val % 32)) != 0

end Plic

structure Plic where
  priority : Vector UInt32 64 := Vector.replicate 64 1
  level : Vector Bool 64 := Vector.replicate 64 false
  inService : Vector Bool 64 := Vector.replicate 64 false
  owners : Vector (Option String) 64 := Vector.replicate 64 none
  contexts : Vector Plic.Context 2 := Vector.replicate 2 {}

namespace Plic

def name : String := "plic"
def base : UInt64 := 0xc000000
def size : UInt64 := 0x4000000

def pendingOffset : Nat := 0x1000
def enableOffset : Nat := 0x2000
def enableStride : Nat := 0x80
def contextOffset : Nat := 0x200000
def contextStride : Nat := 0x1000

def isPending (plic : Plic) (line : Line) : Bool :=
  plic.level[line] && !plic.inService[line]

def deliverable (plic : Plic) (context : Fin 2) (line : Line) : Bool :=
  plic.isPending line && plic.contexts[context].enabled line &&
    plic.contexts[context].threshold < plic.priority[line]

/-- Of two candidates the later one wins only with a greater priority. -/
def better (plic : Plic) (best : Option Line) (line : Line) : Option Line :=
  match best with
  | none => some line
  | some other => if plic.priority[other] < plic.priority[line] then some line else best

def candidate (plic : Plic) (context : Fin 2) : Option Line :=
  (List.finRange 64).foldl
    (fun best line => if plic.deliverable context line then plic.better best line else best) none

def contextPin (context : Fin 2) : UInt64 :=
  if context = 0 then Mip.meip else Mip.seip

def updatePins (plic : Plic) (pins : Pins) : Pins :=
  let pins := pins.set (contextPin 0) (plic.candidate 0).isSome
  pins.set (contextPin 1) (plic.candidate 1).isSome

inductive BindError where
  | duplicate (line : UInt32) (owner : String)
  | outOfRange (line : UInt32)

def BindError.message : BindError → String
  | .duplicate line owner =>
    "interrupt line " ++ toString line.toNat ++ " is already bound to \x60" ++ owner ++ "\x60"
  | .outOfRange line => "interrupt line " ++ toString line.toNat ++ " is out of range 1..64"

def bind (plic : Plic) (number : UInt32) (owner : String) : Except BindError (Line × Plic) :=
  if inRange : 0 < number.toNat ∧ number.toNat < 64 then
    let line : Line := ⟨number.toNat, inRange.2⟩
    match plic.owners[line] with
    | none => .ok (line, { plic with owners := plic.owners.set line (some owner) })
    | some existing => .error (.duplicate number existing)
  else .error (.outOfRange number)

def lineText (line : Line) : String :=
  "IrqLine \x7b line: " ++ toString line.val ++ " \x7d"

def pendingWord (plic : Plic) (word : Fin 2) : UInt32 :=
  (List.finRange 32).foldl
    (fun bits bit =>
      if plic.isPending ⟨32 * word.val + bit.val, by omega⟩ then
        bits ||| (1 <<< UInt32.ofNat bit.val)
      else bits) 0

def enableIndex? (offset : Nat) : Option (Fin 2 × Fin 2) :=
  let relative := offset - enableOffset
  let context := relative / enableStride
  let word := relative % enableStride / 4
  if inRange : context < 2 ∧ word < 2 then some (⟨context, inRange.1⟩, ⟨word, inRange.2⟩) else none

def contextIndex? (offset : Nat) : Option (Fin 2 × Nat) :=
  let relative := offset - contextOffset
  let context := relative / contextStride
  if inRange : context < 2 then some (⟨context, inRange⟩, relative % contextStride) else none

structure Signals where
  plic : Plic := {}
  pins : Pins := {}

namespace Signals

def update (signals : Signals) : Signals :=
  { signals with pins := signals.plic.updatePins signals.pins }

def drive (signals : Signals) (line : Line) (level : Bool) : Signals :=
  if signals.plic.level[line] == level then signals
  else
    let plic := { signals.plic with level := signals.plic.level.set line level }
    { signals with plic := plic }.update

def claim (signals : Signals) (context : Fin 2) : UInt32 × Signals :=
  match signals.plic.candidate context with
  | none => (0, signals)
  | some line =>
    let plic := { signals.plic with inService := signals.plic.inService.set line true }
    (UInt32.ofNat line.val, { signals with plic := plic }.update)

def complete (signals : Signals) (number : UInt32) : Signals :=
  if inRange : number.toNat < 64 then
    let line : Line := ⟨number.toNat, inRange⟩
    if signals.plic.inService[line] then
      let plic := { signals.plic with inService := signals.plic.inService.set line false }
      { signals with plic := plic }.update
    else signals
  else signals

def read (signals : Signals) (offset : Nat) : UInt32 × Signals :=
  let plic := signals.plic
  if offset < pendingOffset then
    (if inRange : offset / 4 < 64 then plic.priority[offset / 4] else 0, signals)
  else if offset < enableOffset then
    let word := (offset - pendingOffset) / 4
    (if inRange : word < 2 then plic.pendingWord ⟨word, inRange⟩ else 0, signals)
  else if offset < contextOffset then
    match enableIndex? offset with
    | some (context, word) => (plic.contexts[context].enable[word], signals)
    | none => (0, signals)
  else
    match contextIndex? offset with
    | some (context, 0) => (plic.contexts[context].threshold, signals)
    | some (context, 4) => signals.claim context
    | _ => (0, signals)

def setContext (signals : Signals) (context : Fin 2) (value : Context) : Signals :=
  let plic := { signals.plic with contexts := signals.plic.contexts.set context value }
  { signals with plic := plic }.update

def write (signals : Signals) (offset : Nat) (value : UInt32) : Signals :=
  let plic := signals.plic
  if offset < pendingOffset then
    if inRange : 0 < offset / 4 ∧ offset / 4 < 64 then
      let priority := plic.priority.set (offset / 4) value inRange.2
      { signals with plic := { plic with priority := priority } }.update
    else signals
  else if offset < enableOffset then signals
  else if offset < contextOffset then
    match enableIndex? offset with
    | some (context, word) =>
      let value := if word = 0 then value &&& 0xfffffffe else value
      let old := plic.contexts[context]
      signals.setContext context { old with enable := old.enable.set word value }
    | none => signals
  else
    match contextIndex? offset with
    | some (context, 0) =>
      signals.setContext context { plic.contexts[context] with threshold := value }
    | some (_, 4) => signals.complete value
    | _ => signals

def load (signals : Signals) (offset : UInt64) (size : Nat) : Except MemFault UInt64 × Signals :=
  if size = 2 then
    let (value, signals) := signals.read offset.toNat
    (.ok value.toUInt64, signals)
  else (.error .loadAccess, signals)

def store (signals : Signals) (offset : UInt64) (size : Nat) (value : UInt64) :
    Except MemFault Unit × Signals :=
  if size = 2 then (.ok (), signals.write offset.toNat value.toUInt32)
  else (.error .storeAccess, signals)

/-- Priorities, enables, thresholds and claims are cleared; the lines stay as they are driven. -/
def reset (signals : Signals) : Signals :=
  let initial : Plic := {}
  { signals with plic := { signals.plic with
      priority := initial.priority
      inService := initial.inService
      contexts := initial.contexts } }.update

end Signals

def describe (base : UInt64) : List Fdt.Token :=
  Fdt.node (name ++ "@" ++ String.ofList (Nat.toDigits 16 base.toNat)) [
    .texts "compatible" ["sifive,plic-1.0.0", "riscv,plic0"],
    .reg base size,
    .u32 "#address-cells" 0,
    .u32 "#interrupt-cells" 1,
    .flag "interrupt-controller",
    .cells "interrupts-extended" [Fdt.hartHandle, 11, Fdt.hartHandle, 9],
    .u32 "riscv,ndev" 63,
    .u32 "phandle" Fdt.plicHandle]

end Plic

end RvBoard
