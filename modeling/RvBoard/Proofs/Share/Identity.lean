import Mathlib
import RvBoard.Proofs.Share.Numbers

/-!
# Numbers identify files

Whatever is done to a share and whatever becomes of the files under it: no two paths have the same number, and a
number that has gone out of use does not come back. A move takes the numbers at and below a path along, but for those
that are listed before another one that leaves the path to which they go.
-/

set_option autoImplicit false

namespace RvBoard.HostShare

-- What is asked of a share, or happens to its files. Its numbers are listed in an order that may change at any time.
inductive Deed where
  | getattr (path : Path)
  | readDir (path : Path)
  | create (path : Path)
  | mkdir (path : Path)
  | remove (path : Path)
  | rename (old new : Path)
  | changed (change : Host → Host)
  | shuffled (order : Numbers → Numbers) (same : ∀ table, (order table).Perm table)

def after (share : HostShare) : Deed → HostShare
  | .getattr path => left (HostShare.getattr path share)
  | .readDir path => left (HostShare.readDir path share)
  | .create path => left (HostShare.create path share)
  | .mkdir path => left (HostShare.mkdir path share)
  | .remove path => left (HostShare.remove path share)
  | .rename old new => left (HostShare.rename old new share)
  | .changed change => { share with host := change share.host }
  | .shuffled order _ => { share with inodes := order share.inodes }

def Deed.Succeeds (share : HostShare) : Deed → Prop
  | .remove path => (value? (HostShare.remove path share)).isSome
  | .rename old new => (value? (HostShare.rename old new share)).isSome
  | _ => True

def Deed.Touches (share : HostShare) (deed : Deed) (place : List String) : Prop :=
  deed.Succeeds share ∧
    match deed with
    | .remove path => place = path.names
    | .rename old new => old.names <+: place ∨ new.names <+: place
    | _ => False

-- How many numbers are handed out.
def handedOut (share : HostShare) : List Deed → Nat
  | [] => 0
  | deed :: rest => ((share.after deed).inodes.length - share.inodes.length) + handedOut (share.after deed) rest

theorem handedOut_append (share : HostShare) (deeds later : List Deed) :
    handedOut share (deeds ++ later) = handedOut share deeds + handedOut (deeds.foldl after share) later := by
  induction deeds generalizing share with
  | nil => simp [handedOut]
  | cons deed rest ih => simp [handedOut, ih, Nat.add_assoc]

inductive Effect (share : HostShare) (deed : Deed) : Numbers × UInt64 → Prop
  | sights {last : Numbers × UInt64} (sights : Sights share.register last) : Effect share deed last
  | removed {path : Path} (removes : deed = .remove path) (done : deed.Succeeds share) (named : path.names ≠ []) :
      Effect share deed (share.inodes.filter fun entry => entry.1 != path.names, share.nextInode)
  | moved {old new : Path} (moves : deed = .rename old new) (done : deed.Succeeds share) (source : old.names ≠ [])
      (dest : new.names ≠ []) : Effect share deed (moveInodes old.names new.names share.inodes, share.nextInode)
  | shuffled {table : Numbers} (same : table.Perm share.inodes) : Effect share deed (table, share.nextInode)

theorem after_effect (share : HostShare) (deed : Deed) : Effect share deed (share.after deed).register := by
  cases deed with
  | getattr path => exact .sights (getattr_sights path share .none)
  | readDir path => exact .sights (readDir_sights path share .none)
  | create path => exact .sights (create_sights path share .none)
  | mkdir path => exact .sights (mkdir_sights path share .none)
  | remove path =>
    change Effect share _ (left (HostShare.remove path share)).register
    cases outcome : HostShare.remove path share with
    | ok done next =>
      obtain ⟨named, register⟩ := remove_ok outcome
      rw [left_ok, register]
      exact .removed rfl (by simp [Deed.Succeeds, outcome, value?]) named
    | error errno next =>
      rw [left_error, remove_failed outcome]
      exact .sights .none
  | rename old new =>
    change Effect share _ (left (HostShare.rename old new share)).register
    cases outcome : HostShare.rename old new share with
    | ok done next =>
      obtain ⟨source, dest, register⟩ := rename_ok outcome
      rw [left_ok, register]
      exact .moved rfl (by simp [Deed.Succeeds, outcome, value?]) source dest
    | error errno next =>
      rw [left_error, rename_failed outcome]
      exact .sights .none
  | changed change => exact .sights .none
  | shuffled order same => exact .shuffled (same share.inodes)

structure Sound (register : Numbers × UInt64) : Prop where
  keys : (register.1.map Prod.fst).Nodup
  values : (register.1.map Prod.snd).Nodup
  below : ∀ entry ∈ register.1, entry.2 < register.2
  root : register.1.lookup [] = some 1

theorem Sound.unique {register : Numbers × UInt64} (sound : Sound register) {place other : List String} {n : UInt64}
    (first : register.1.lookup place = some n) (second : register.1.lookup other = some n) : place = other := by
  have here := (lookup_iff_mem sound.keys).mp first
  have there := (lookup_iff_mem sound.keys).mp second
  exact congrArg Prod.fst (List.inj_on_of_nodup_map sound.values here there rfl)

structure Spent (register : Numbers × UInt64) (n : UInt64) : Prop where
  below : n < register.2
  unused : n ∉ register.1.map Prod.snd

theorem Spent.lookup {register : Numbers × UInt64} {n : UInt64} (spent : Spent register n) (place : List String) :
    register.1.lookup place ≠ some n := by
  intro found
  obtain ⟨front, back, same, _⟩ := List.lookup_eq_some_iff.mp found
  exact spent.unused (by simp [same])

theorem Sights.counted {start last : Numbers × UInt64} (sights : Sights start last)
    (plenty : start.2.toNat + (last.1.length - start.1.length) < 2 ^ 64) :
    start.1.length ≤ last.1.length ∧ last.2.toNat = start.2.toNat + (last.1.length - start.1.length) := by
  induction sights with
  | none => simp
  | @seen table next place before unseen ih =>
    simp only [List.length_cons] at plenty ih ⊢
    obtain ⟨longer, same⟩ := ih (by omega)
    refine ⟨by omega, ?_⟩
    rw [UInt64.toNat_add, same]
    simp only [UInt64.toNat_one]
    omega

theorem Sights.sound {start last : Numbers × UInt64} (sights : Sights start last) (sound : Sound start)
    (plenty : start.2.toNat + (last.1.length - start.1.length) < 2 ^ 64) : Sound last := by
  induction sights with
  | none => exact sound
  | @seen table next place before unseen ih =>
    simp only [List.length_cons] at plenty
    obtain ⟨longer, same⟩ := before.counted (by simp only; omega)
    simp only at longer same
    have start := ih (by simp only; omega)
    have higher : next < next + 1 := by
      rw [UInt64.lt_iff_toNat_lt, UInt64.toNat_add]
      simp only [UInt64.toNat_one]
      omega
    refine ⟨?_, ?_, ?_, ?_⟩
    · refine List.nodup_cons.mpr ⟨fun present => ?_, start.keys⟩
      rw [← lookup_isSome, unseen] at present
      cases present
    · refine List.nodup_cons.mpr ⟨fun present => ?_, start.values⟩
      obtain ⟨entry, member, same⟩ := List.mem_map.mp present
      exact absurd (start.below entry member) (by rw [same]; exact UInt64.lt_irrefl _)
    · intro entry member
      rcases List.mem_cons.mp member with rfl | earlier
      · exact higher
      · exact UInt64.lt_trans (start.below entry earlier) higher
    · have root := start.root
      rw [lookup_entry, if_neg, root]
      rintro rfl
      rw [root] at unseen
      cases unseen

theorem Sights.spent {start last : Numbers × UInt64} (sights : Sights start last)
    (plenty : start.2.toNat + (last.1.length - start.1.length) < 2 ^ 64) {n : UInt64} (spent : Spent start n) :
    Spent last n := by
  induction sights with
  | none => exact spent
  | @seen table next place before unseen ih =>
    simp only [List.length_cons] at plenty
    obtain ⟨longer, same⟩ := before.counted (by simp only; omega)
    simp only at longer same
    have still := ih (by simp only; omega)
    have below := UInt64.lt_iff_toNat_lt.mp still.below
    refine ⟨?_, ?_⟩
    · rw [UInt64.lt_iff_toNat_lt, UInt64.toNat_add]
      simp only [UInt64.toNat_one] at below ⊢
      omega
    · rw [List.map_cons, List.mem_cons, not_or]
      exact ⟨UInt64.ne_of_lt still.below, still.unused⟩

section Effects

variable {share : HostShare} {deed : Deed} {last : Numbers × UInt64} (effect : Effect share deed last)
  (plenty : share.nextInode.toNat + (last.1.length - share.inodes.length) < 2 ^ 64)

include effect plenty

theorem Effect.counted : last.2.toNat ≤ share.nextInode.toNat + (last.1.length - share.inodes.length) := by
  cases effect with
  | sights sights => exact Nat.le_of_eq (sights.counted plenty).2
  | removed removes done named => exact Nat.le_add_right ..
  | moved moves done source dest => exact Nat.le_add_right ..
  | shuffled same => exact Nat.le_add_right ..

theorem Effect.sound (sound : Sound share.register) : Sound last := by
  cases effect with
  | sights sights => exact sights.sound sound plenty
  | @removed path removes done named =>
    refine ⟨sound.keys.sublist (List.filter_sublist.map _), sound.values.sublist (List.filter_sublist.map _), ?_, ?_⟩
    · exact fun entry member => sound.below entry (List.mem_of_mem_filter member)
    · rw [lookup_filter share.inodes (· != path.names) [], if_pos (by simpa using Ne.symm named)]
      exact sound.root
  | @moved old new moves done source dest =>
    obtain ⟨values, among⟩ := values_moved old.names new.names sound.values
    refine ⟨keys_moved sound.keys, values, fun entry member => ?_, ?_⟩
    · obtain ⟨other, present, same⟩ := List.mem_map.mp (among entry member)
      exact same ▸ sound.below other present
    · have apart {path : Path} (named : path.names ≠ []) : ¬ path.names <+: [] := fun below =>
        named (List.prefix_nil.mp below)
      rw [lookup_moved_apart _ (apart dest), if_neg (apart source)]
      exact sound.root
  | @shuffled table same =>
    have keys := (same.map Prod.fst).nodup_iff.mpr sound.keys
    refine ⟨keys, (same.map Prod.snd).nodup_iff.mpr sound.values, ?_, ?_⟩
    · exact fun entry member => sound.below entry (same.mem_iff.mp member)
    · exact (lookup_iff_mem keys).mpr (same.mem_iff.mpr ((lookup_iff_mem sound.keys).mp sound.root))

theorem Effect.spent (sound : Sound share.register) {n : UInt64} (spent : Spent share.register n) : Spent last n := by
  cases effect with
  | sights sights => exact sights.spent plenty spent
  | removed removes done named =>
    exact ⟨spent.below, fun present => spent.unused ((List.filter_sublist.map _).subset present)⟩
  | @moved old new moves done source dest =>
    refine ⟨spent.below, fun present => ?_⟩
    obtain ⟨entry, member, rfl⟩ := List.mem_map.mp present
    exact spent.unused ((values_moved _ _ sound.values).2 entry member)
  | shuffled same => exact ⟨spent.below, fun present => spent.unused ((same.map Prod.snd).mem_iff.mp present)⟩

end Effects

theorem Effect.untouched {share : HostShare} {deed : Deed} {last : Numbers × UInt64} (effect : Effect share deed last)
    (sound : Sound share.register) {place : List String} (apart : ¬ deed.Touches share place) {n : UInt64}
    (numbered : share.inodes.lookup place = some n) : last.1.lookup place = some n := by
  cases effect with
  | sights sights => exact sights.lookup numbered
  | @removed path removes done named =>
    have away : place ≠ path.names := by
      rintro rfl
      exact apart ⟨done, by rw [removes]⟩
    rw [lookup_filter share.inodes (· != path.names) place, if_pos (by simpa using away), numbered]
  | @moved old new moves done source dest =>
    have away : ¬ old.names <+: place ∧ ¬ new.names <+: place := by
      rw [← not_or]
      exact fun below => apart ⟨done, by rw [moves]; exact below⟩
    rw [lookup_moved_apart _ away.2, if_neg away.1, numbered]
  | @shuffled table same =>
    have keys := (same.map Prod.fst).nodup_iff.mpr sound.keys
    exact (lookup_iff_mem keys).mpr (same.mem_iff.mpr ((lookup_iff_mem sound.keys).mp numbered))

theorem room_after {share : HostShare} {deed : Deed} {rest : List Deed}
    (plenty : share.nextInode.toNat + handedOut share (deed :: rest) < 2 ^ 64) :
    share.nextInode.toNat + ((share.after deed).inodes.length - share.inodes.length) < 2 ^ 64 ∧
      (share.after deed).nextInode.toNat + handedOut (share.after deed) rest ≤
        share.nextInode.toNat + handedOut share (deed :: rest) := by
  rw [handedOut] at plenty ⊢
  have room : share.nextInode.toNat + ((share.after deed).inodes.length - share.inodes.length) < 2 ^ 64 := by omega
  have counted : (share.after deed).nextInode.toNat ≤ _ := (after_effect share deed).counted room
  simp only [register] at counted
  exact ⟨room, by omega⟩

section Runs

variable {share : HostShare} (deeds : List Deed) (plenty : share.nextInode.toNat + handedOut share deeds < 2 ^ 64)
  (sound : Sound share.register)

include plenty sound

theorem run_sound : Sound (deeds.foldl after share).register ∧
    (deeds.foldl after share).nextInode.toNat ≤ share.nextInode.toNat + handedOut share deeds := by
  induction deeds generalizing share with
  | nil => exact ⟨sound, Nat.le_refl _⟩
  | cons deed rest ih =>
    obtain ⟨room, onward⟩ := room_after plenty
    obtain ⟨done, most⟩ := ih (Nat.lt_of_le_of_lt onward plenty) ((after_effect share deed).sound room sound)
    exact ⟨done, Nat.le_trans most onward⟩

theorem run_spent {n : UInt64} (spent : Spent share.register n) : Spent (deeds.foldl after share).register n := by
  induction deeds generalizing share with
  | nil => exact spent
  | cons deed rest ih =>
    obtain ⟨room, onward⟩ := room_after plenty
    have effect := after_effect share deed
    exact ih (Nat.lt_of_le_of_lt onward plenty) (effect.sound room sound) (effect.spent room sound spent)

end Runs

-- How the numbers change when a move succeeds. A number comes along in full where neither path is below the other; else
-- it is lost where the path to which it goes is itself listed later among those that move.
structure Carried (old new : List String) (before after : Numbers) : Prop where
  parted : old = new ∨ ¬ old <+: new ∧ ¬ new <+: old → ∀ rest, after.lookup (new ++ rest) = before.lookup (old ++ rest)
  missing : ∀ rest, before.lookup (old ++ rest) = none → after.lookup (new ++ rest) = none
  listed : ∀ front back rest n, before = front ++ (old ++ rest, n) :: back →
    after.lookup (new ++ rest) = if old <+: new ++ rest ∧ new ++ rest ∈ back.map Prod.fst then none else some n
  left : ∀ place, old <+: place → ¬ new <+: place → after.lookup place = none

theorem rename_carried {share next : HostShare} {old new : Path} (sound : Sound share.register)
    (done : rename old new share = .ok () next) : Carried old.names new.names share.inodes next.inodes := by
  have table : next.inodes = _ := congrArg Prod.fst (rename_ok done).2.2
  rw [table]
  refine ⟨fun parted rest => lookup_moved sound.keys parted rest, fun rest => lookup_moved_missing _, ?_, ?_⟩
  · intro front back rest n order
    have keys := sound.keys
    simp only [register, order] at keys ⊢
    exact lookup_moved_listed keys
  · intro place below apart
    rw [lookup_moved_apart _ apart, if_pos below]

theorem Sound.spent {share : HostShare} (sound : Sound share.register) {n : UInt64} (below : n < share.nextInode)
    (unused : ∀ place, share.inodes.lookup place ≠ some n) : Spent share.register n := by
  refine ⟨below, fun present => ?_⟩
  obtain ⟨⟨place, _⟩, member, rfl⟩ := List.mem_map.mp present
  exact unused place ((lookup_iff_mem sound.keys).mpr member)

theorem remove_spent {share next : HostShare} {path : Path} {n : UInt64} (sound : Sound share.register)
    (done : remove path share = .ok () next) (numbered : share.inodes.lookup path.names = some n) :
    Spent next.register n := by
  rw [(remove_ok done).2]
  refine ⟨sound.below _ ((lookup_iff_mem sound.keys).mp numbered), fun present => ?_⟩
  obtain ⟨⟨place, _⟩, member, rfl⟩ := List.mem_map.mp present
  obtain ⟨member, differs⟩ := List.mem_filter.mp member
  have same := sound.unique ((lookup_iff_mem sound.keys).mpr member) numbered
  simp [same] at differs

-- What the numbers say at a moment, about something that happens then, and about whatever happens after that.
structure Identified (share : HostShare) (deed : Deed) (later : List Deed) : Prop where
  apart : ∀ place other n, share.inodes.lookup place = some n → share.inodes.lookup other = some n → place = other
  root : share.inodes.lookup [] = some 1
  below : ∀ place n, share.inodes.lookup place = some n → n < share.nextInode
  kept : ∀ place n, share.inodes.lookup place = some n → ¬ deed.Touches share place →
    (share.after deed).inodes.lookup place = some n
  spent : ∀ n < share.nextInode, (∀ place, share.inodes.lookup place ≠ some n) →
    ∀ place, (later.foldl after (share.after deed)).inodes.lookup place ≠ some n
  removed : ∀ path next n, deed = .remove path → remove path share = .ok () next →
    share.inodes.lookup path.names = some n →
    ∀ place, (later.foldl after next).inodes.lookup place ≠ some n
  carried : ∀ old new next, deed = .rename old new → rename old new share = .ok () next →
    Carried old.names new.names share.inodes next.inodes

/-- As long as the numbers last, at every moment of a share's life no two paths have the same number, the root has the
first one, and the numbers in use are below the next one. A path keeps its number until it is removed, moved or replaced,
a number that is out of use, as by a removal, is never used again, and a move takes the numbers along. -/
theorem numbers_identify (host : Host) (root : Location) (deeds : List Deed) (deed : Deed) (later : List Deed)
    (plenty : 2 + handedOut { host, root } (deeds ++ deed :: later) < 2 ^ 64) :
    Identified (deeds.foldl after { host, root }) deed later := by
  rw [handedOut_append] at plenty
  have start : Sound (register { host, root }) := by
    refine ⟨by simp [register], by simp [register], ?_, rfl⟩
    intro entry member
    simp only [register, List.mem_singleton] at member ⊢
    exact member ▸ by decide
  obtain ⟨sound, most⟩ := run_sound deeds (by change 2 + _ < _; omega) start
  generalize deeds.foldl after { host, root } = share at plenty sound most ⊢
  change share.nextInode.toNat ≤ 2 + _ at most
  have room : share.nextInode.toNat + handedOut share (deed :: later) < 2 ^ 64 := by omega
  have goes : later.foldl after (share.after deed) = (deed :: later).foldl after share := rfl
  refine ⟨fun _ _ _ => sound.unique, sound.root, ?_, ?_, ?_, ?_, fun old new next moves done => rename_carried sound done⟩
  · exact fun place n numbered => sound.below _ ((lookup_iff_mem sound.keys).mp numbered)
  · exact fun place n numbered apart => (after_effect share deed).untouched sound apart numbered
  · intro n below unused
    rw [goes]
    exact (run_spent _ room sound (sound.spent below unused)).lookup
  · rintro path next n rfl done numbered
    have same : share.after (.remove path) = next := by rw [after, done, left_ok]
    obtain ⟨fits, onward⟩ := room_after room
    have still := (after_effect share (.remove path)).sound fits sound
    rw [same] at still onward
    exact (run_spent later (Nat.lt_of_le_of_lt onward room) still (remove_spent sound done numbered)).lookup

def nested : Host where
  tree := .directory [
    (.text "x", .directory [(.text "a", .link "../y")] false),
    (.text "y", .directory [(.text "b", .link "../z")] false),
    (.text "z", .directory [(.text "b", .file (.ofBytes "abc".toUTF8) false)] false)] false

def outer : Path := ["x", "a"]
def middle : Path := ["x", "a", "b"]
def inner : Path := ["x", "a", "b", "b"]

def looks : List Deed := [.getattr middle, .getattr inner]

theorem numbers_identify_nested :
    2 + handedOut { host := nested, root := [] } (looks ++ .rename middle outer :: looks) < 2 ^ 64 ∧
      Identified (looks.foldl after { host := nested, root := [] }) (.rename middle outer) looks := by
  have plenty : 2 + handedOut { host := nested, root := [] } (looks ++ .rename middle outer :: looks) < 2 ^ 64 := by cbv
  exact ⟨plenty, numbers_identify nested [] looks (.rename middle outer) looks plenty⟩

def looked : HostShare := looks.foldl after { host := nested, root := [] }

theorem looked_numbers : looked = ⟨nested, [], [(inner, 3), (middle, 2), ([], 1)], 4⟩ := by cbv

theorem rename_loses_number :
    Deed.Succeeds looked (.rename middle outer) ∧ looked.inodes.lookup inner.names = some 3 ∧
      (looked.after (.rename middle outer)).inodes.lookup middle.names = none := by
  rw [looked_numbers]
  refine ⟨?_, ?_, ?_⟩
  · cbv
  · cbv
  · cbv

end RvBoard.HostShare
