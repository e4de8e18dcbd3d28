import Mathlib.Data.List.Nodup
import RvBoard.Proofs.Outcome
import RvBoard.Share.HostShare

/-!
# The numbers of a share

What the operations of a share do to the table of its numbers. Looking at paths numbers the unseen ones among
them, a removal forgets one number, and a move takes the numbers at and below a path along.
-/

set_option autoImplicit false

namespace RvBoard.HostShare

-- The numbers of paths, each path given by its names.
abbrev Numbers := List (List String × UInt64)

theorem lookup_entry (table : Numbers) (key place : List String) (n : UInt64) :
    ((key, n) :: table).lookup place = if place = key then some n else table.lookup place := by
  by_cases here : place = key
  · simp [here]
  · rw [if_neg here, List.lookup_cons, beq_eq_false_iff_ne.mpr here]

theorem lookup_iff_mem {table : Numbers} (keys : (table.map Prod.fst).Nodup) {place : List String} {n : UInt64} :
    table.lookup place = some n ↔ (place, n) ∈ table := by
  induction table with
  | nil => simp
  | cons first rest ih =>
    obtain ⟨key, value⟩ := first
    obtain ⟨fresh, keys⟩ := List.nodup_cons.mp keys
    rw [lookup_entry]
    by_cases here : place = key
    · subst here
      have apart : (place, n) ∉ rest := fun member => fresh (List.mem_map.mpr ⟨_, member, rfl⟩)
      simp [apart, eq_comm]
    · simp [here, ih keys]

theorem lookup_isSome {table : Numbers} {place : List String} :
    (table.lookup place).isSome ↔ place ∈ table.map Prod.fst := by
  induction table with
  | nil => simp
  | cons first rest ih =>
    rw [lookup_entry]
    by_cases here : place = first.1
    · simp [here]
    · rw [if_neg here, ih, List.map_cons, List.mem_cons]
      simp [here]

theorem lookup_filter (table : Numbers) (keep : List String → Bool) (place : List String) :
    (table.filter fun entry => keep entry.1).lookup place = if keep place then table.lookup place else none := by
  induction table with
  | nil => simp
  | cons first rest ih =>
    obtain ⟨key, value⟩ := first
    rw [lookup_entry]
    by_cases kept : keep key = true
    · rw [List.filter_cons, if_pos kept, lookup_entry, ih]
      by_cases here : place = key
      · simp [here, kept]
      · simp [here]
    · rw [List.filter_cons, if_neg kept, ih]
      by_cases here : place = key
      · simp [here, kept]
      · simp [here]

section Moving

variable {old new : List String}

theorem lookup_carry (table : Numbers) (entry : List String × UInt64) (place : List String) :
    (carry old new table entry).lookup place =
      if place = new ++ entry.1.drop old.length then some entry.2
      else if place = entry.1 then none
      else table.lookup place := by
  have others := lookup_filter table (fun key => key != entry.1 && key != new ++ entry.1.drop old.length) place
  change ((_, _) :: _ : Numbers).lookup place = _
  rw [lookup_entry]
  by_cases here : place = new ++ entry.1.drop old.length
  · rw [if_pos here, if_pos here]
  · rw [if_neg here, if_neg here, others]
    by_cases left : place = entry.1
    · simp [left]
    · simp [left, here]

-- Numbers that go elsewhere leave their own paths only. The induction is on the numbers that are still to go.
theorem lookup_apart (moved table : Numbers) {place : List String}
    (elsewhere : ∀ entry ∈ moved, place ≠ new ++ entry.1.drop old.length) :
    (moved.foldl (carry old new) table).lookup place =
      if place ∈ moved.map Prod.fst then none else table.lookup place := by
  induction moved generalizing table with
  | nil => simp
  | cons entry rest ih =>
    have here := elsewhere entry List.mem_cons_self
    rw [List.foldl_cons, ih _ fun other member => elsewhere other (List.mem_cons_of_mem _ member), lookup_carry, if_neg here]
    by_cases left : place = entry.1
    · simp [left]
    · simp only [List.map_cons, List.mem_cons, left, false_or, if_false]

theorem landing_iff {path rest : List String} (below : old <+: path) :
    new ++ rest = new ++ path.drop old.length ↔ path = old ++ rest := by
  obtain ⟨names, rfl⟩ := below
  simp [eq_comm]

theorem mem_moved {table : Numbers} {entry : List String × UInt64} :
    entry ∈ table.filter (fun entry => old.isPrefixOf entry.1) ↔ entry ∈ table ∧ old <+: entry.1 := by
  rw [List.mem_filter, List.isPrefixOf_iff_prefix]

theorem lookup_moved_apart (table : Numbers) {place : List String} (apart : ¬ new <+: place) :
    (moveInodes old new table).lookup place = if old <+: place then none else table.lookup place := by
  have elsewhere : ∀ entry ∈ table.filter (fun entry => old.isPrefixOf entry.1), place ≠ new ++ entry.1.drop old.length :=
    fun entry _ same => apart ⟨_, same.symm⟩
  have kept := lookup_filter table (fun key => !new.isPrefixOf key) place
  have stays : (!new.isPrefixOf place) = true := by
    rw [Bool.not_eq_true', ← Bool.not_eq_true, List.isPrefixOf_iff_prefix]
    exact apart
  rw [if_pos stays] at kept
  rw [moveInodes, lookup_apart _ _ elsewhere, kept]
  by_cases below : old <+: place
  · rw [if_pos below]
    split
    · rfl
    · rename_i absent
      rw [← Option.not_isSome_iff_eq_none, lookup_isSome]
      intro present
      obtain ⟨entry, member, rfl⟩ := List.mem_map.mp present
      exact absent (List.mem_map.mpr ⟨entry, mem_moved.mpr ⟨member, below⟩, rfl⟩)
  · rw [if_neg below, if_neg]
    intro present
    obtain ⟨entry, member, rfl⟩ := List.mem_map.mp present
    exact below (mem_moved.mp member).2

theorem lookup_moved_missing (table : Numbers) {rest : List String} (missing : table.lookup (old ++ rest) = none) :
    (moveInodes old new table).lookup (new ++ rest) = none := by
  have elsewhere : ∀ entry ∈ table.filter (fun entry => old.isPrefixOf entry.1),
      new ++ rest ≠ new ++ entry.1.drop old.length := by
    intro entry member same
    obtain ⟨present, below⟩ := mem_moved.mp member
    have key := (landing_iff below).mp same
    have some : (table.lookup entry.1).isSome := lookup_isSome.mpr (List.mem_map.mpr ⟨entry, present, rfl⟩)
    rw [key, missing] at some
    cases some
  have kept := lookup_filter table (fun key => !new.isPrefixOf key) (new ++ rest)
  have dropped : (!new.isPrefixOf (new ++ rest)) = false := by simp [List.isPrefixOf_iff_prefix]
  rw [dropped] at kept
  rw [moveInodes, lookup_apart _ _ elsewhere, kept]
  split <;> rfl

theorem lookup_moved_listed {front back : Numbers} {rest : List String} {n : UInt64}
    (keys : ((front ++ (old ++ rest, n) :: back).map Prod.fst).Nodup) :
    (moveInodes old new (front ++ (old ++ rest, n) :: back)).lookup (new ++ rest) =
      if old <+: new ++ rest ∧ new ++ rest ∈ back.map Prod.fst then none else some n := by
  have later : old ++ rest ∉ back.map Prod.fst := by
    rw [List.map_append, List.map_cons] at keys
    exact (List.nodup_cons.mp (List.nodup_append.mp keys).2.1).1
  have elsewhere : ∀ entry ∈ back.filter (fun entry => old.isPrefixOf entry.1),
      new ++ rest ≠ new ++ entry.1.drop old.length := by
    intro entry member same
    obtain ⟨present, below⟩ := mem_moved.mp member
    exact later (List.mem_map.mpr ⟨entry, present, (landing_iff below).mp same⟩)
  have here : old.isPrefixOf (old ++ rest) = true := List.isPrefixOf_iff_prefix.mpr (List.prefix_append ..)
  have leaves : new ++ rest ∈ (back.filter fun entry => old.isPrefixOf entry.1).map Prod.fst ↔
      old <+: new ++ rest ∧ new ++ rest ∈ back.map Prod.fst := by
    simp only [List.mem_map, mem_moved]
    constructor
    · rintro ⟨entry, ⟨present, below⟩, same⟩
      exact ⟨same ▸ below, entry, present, same⟩
    · rintro ⟨below, entry, present, same⟩
      exact ⟨entry, ⟨present, same.symm ▸ below⟩, same⟩
  have order : (front ++ (old ++ rest, n) :: back).filter (fun entry => old.isPrefixOf entry.1) =
      front.filter (fun entry => old.isPrefixOf entry.1) ++
        (old ++ rest, n) :: back.filter fun entry => old.isPrefixOf entry.1 := by
    rw [List.filter_append, List.filter_cons, if_pos here]
  rw [moveInodes, order, List.foldl_append, List.foldl_cons, lookup_apart _ _ elsewhere, lookup_carry, List.drop_left,
    if_pos rfl]
  simp only [leaves]

theorem lookup_moved {table : Numbers} (keys : (table.map Prod.fst).Nodup)
    (parted : old = new ∨ ¬ old <+: new ∧ ¬ new <+: old) (rest : List String) :
    (moveInodes old new table).lookup (new ++ rest) = table.lookup (old ++ rest) := by
  cases found : table.lookup (old ++ rest) with
  | none => exact lookup_moved_missing table found
  | some n =>
    obtain ⟨front, back, rfl, _⟩ := List.lookup_eq_some_iff.mp found
    rw [lookup_moved_listed keys, if_neg]
    rintro ⟨below, later⟩
    rcases parted with rfl | ⟨apart, away⟩
    · rw [List.map_append, List.map_cons] at keys
      exact (List.nodup_cons.mp (List.nodup_append.mp keys).2.1).1 later
    · exact (List.prefix_or_prefix_of_prefix below (List.prefix_append new rest)).elim apart away

theorem keys_carry {table : Numbers} (keys : (table.map Prod.fst).Nodup) (entry : List String × UInt64) :
    ((carry old new table entry).map Prod.fst).Nodup := by
  rw [carry, List.map_cons, List.nodup_cons]
  refine ⟨?_, keys.sublist (List.filter_sublist.map _)⟩
  intro member
  obtain ⟨other, kept, same⟩ := List.mem_map.mp member
  simp [same] at kept

theorem keys_moved {table : Numbers} (keys : (table.map Prod.fst).Nodup) :
    ((moveInodes old new table).map Prod.fst).Nodup := by
  unfold moveInodes
  have start : ((table.filter fun entry => !new.isPrefixOf entry.1).map Prod.fst).Nodup :=
    keys.sublist (List.filter_sublist.map _)
  generalize (table.filter fun entry => !new.isPrefixOf entry.1) = kept at start ⊢
  induction table.filter (fun entry => old.isPrefixOf entry.1) generalizing kept with
  | nil => exact start
  | cons entry rest ih => exact ih _ (keys_carry start entry)

theorem mem_carry {table : Numbers} {moving entry : List String × UInt64} (member : entry ∈ carry old new table moving) :
    entry.2 = moving.2 ∨ entry ∈ table ∧ entry.1 ≠ moving.1 := by
  rcases List.mem_cons.mp member with rfl | kept
  · exact .inl rfl
  · obtain ⟨present, differs⟩ := List.mem_filter.mp kept
    exact .inr ⟨present, by simpa using (Bool.and_eq_true_iff.mp differs).1⟩

theorem values_carry {table : Numbers} {moving : List String × UInt64} (values : (table.map Prod.snd).Nodup)
    (alone : ∀ place, (place, moving.2) ∈ table → place = moving.1) :
    ((carry old new table moving).map Prod.snd).Nodup := by
  rw [carry, List.map_cons, List.nodup_cons]
  refine ⟨?_, values.sublist (List.filter_sublist.map _)⟩
  intro member
  obtain ⟨⟨place, n⟩, kept, rfl⟩ := List.mem_map.mp member
  obtain ⟨present, differs⟩ := List.mem_filter.mp kept
  simp [alone place present] at differs

-- A number goes along once. The invariant is that no number that is still to go stands anywhere but at its old path.
theorem values_carried (old new : List String) {moved table : Numbers} (values : (table.map Prod.snd).Nodup)
    (apart : (moved.map Prod.snd).Nodup)
    (still : ∀ entry ∈ moved, ∀ place, (place, entry.2) ∈ table → place = entry.1) :
    ((moved.foldl (carry old new) table).map Prod.snd).Nodup ∧
      ∀ entry ∈ moved.foldl (carry old new) table, entry.2 ∈ table.map Prod.snd ∨ entry.2 ∈ moved.map Prod.snd := by
  induction moved generalizing table with
  | nil => exact ⟨values, fun entry member => .inl (List.mem_map.mpr ⟨entry, member, rfl⟩)⟩
  | cons first rest ih =>
    obtain ⟨fresh, apart⟩ := List.nodup_cons.mp apart
    have onward : ∀ entry ∈ rest, ∀ place, (place, entry.2) ∈ carry old new table first → place = entry.1 := by
      intro entry member place present
      rcases mem_carry present with same | ⟨before, _⟩
      · exact absurd (List.mem_map.mpr ⟨entry, member, same⟩) fresh
      · exact still entry (List.mem_cons_of_mem _ member) place before
    obtain ⟨done, among⟩ := ih (values_carry values (still first List.mem_cons_self)) apart onward
    refine ⟨done, fun entry member => ?_⟩
    rcases among entry member with before | later
    · obtain ⟨other, present, same⟩ := List.mem_map.mp before
      rcases mem_carry present with moved | ⟨kept, _⟩
      · exact .inr (List.mem_map.mpr ⟨first, List.mem_cons_self, moved.symm.trans same⟩)
      · exact .inl (List.mem_map.mpr ⟨other, kept, same⟩)
    · rw [List.map_cons]
      exact .inr (List.mem_cons_of_mem _ later)

theorem values_moved (old new : List String) {table : Numbers} (values : (table.map Prod.snd).Nodup) :
    ((moveInodes old new table).map Prod.snd).Nodup ∧
      ∀ entry ∈ moveInodes old new table, entry.2 ∈ table.map Prod.snd := by
  have still : ∀ entry ∈ table.filter (fun entry => old.isPrefixOf entry.1), ∀ place,
      (place, entry.2) ∈ table.filter (fun entry => !new.isPrefixOf entry.1) → place = entry.1 := by
    intro entry member place present
    exact congrArg Prod.fst (List.inj_on_of_nodup_map values (List.mem_of_mem_filter present) (mem_moved.mp member).1 rfl)
  obtain ⟨done, among⟩ := values_carried old new (values.sublist (List.filter_sublist.map _))
    (values.sublist (List.filter_sublist.map _)) still
  refine ⟨done, fun entry member => ?_⟩
  rcases among entry member with kept | moved
  · exact (List.filter_sublist.map _).subset kept
  · exact (List.filter_sublist.map _).subset moved

end Moving

-- The numbers of a share, and the one that is handed out next.
def register (share : HostShare) : Numbers × UInt64 :=
  (share.inodes, share.nextInode)

inductive Sights (start : Numbers × UInt64) : Numbers × UInt64 → Prop
  | none : Sights start start
  | seen {table : Numbers} {next : UInt64} {place : List String} (before : Sights start (table, next))
      (unseen : table.lookup place = none) : Sights start ((place, next) :: table, next + 1)

theorem Sights.trans {first second third : Numbers × UInt64} (before : Sights first second) (after : Sights second third) :
    Sights first third := by
  induction after with
  | none => exact before
  | seen _ unseen ih => exact .seen ih unseen

theorem Sights.lookup {start last : Numbers × UInt64} (sights : Sights start last) {place : List String} {n : UInt64}
    (numbered : start.1.lookup place = some n) : last.1.lookup place = some n := by
  induction sights with
  | none => exact numbered
  | seen before unseen ih =>
    rw [lookup_entry, if_neg, ih]
    rintro rfl
    rw [unseen] at ih
    cases ih

section Operations

variable {start : Numbers × UInt64} {Holds : HostShare → Prop}

theorem ask_keeps {α : Type} (question : HostShare → Except Errno α) : Keeps Holds (ask question) := by
  intro share holds
  unfold ask
  cases question share <;> exact holds

theorem asked_same {α : Type} {question : HostShare → Except Errno α} {share next : HostShare} {value : α}
    (asked : ask question share = .ok value next) : share = next := by
  unfold ask at asked
  cases answer : question share with
  | ok other =>
    rw [answer] at asked
    cases asked
    rfl
  | error errno =>
    rw [answer] at asked
    cases asked

theorem change_keeps (Numbered : Numbers × UInt64 → Prop) (operation : Host → Except Errno Host) :
    Keeps (fun share => Numbered share.register) (change operation) := by
  intro share holds
  unfold change
  cases operation share.host <;> exact holds

theorem changed_register {operation : Host → Except Errno Host} {share next : HostShare}
    (changed : change operation share = .ok () next) : next.register = share.register :=
  keeps_left (change_keeps (· = share.register) operation) rfl changed

theorem inode_sights (path : Path) : Keeps (fun share => Sights start share.register) (inode path) := by
  intro share sights
  unfold inode
  cases unseen : share.inodes.lookup path.names with
  | none => exact .seen sights unseen
  | some n => exact sights

theorem attrOf_sights (path : Path) (node : Node) : Keeps (fun share => Sights start share.register) (attrOf path node) :=
  keeps_bind (inode_sights path) fun _ => keeps_pure _

theorem getattr_sights (path : Path) : Keeps (fun share => Sights start share.register) (getattr path) :=
  keeps_bind (ask_keeps _) fun _ => keeps_bind (ask_keeps _) fun _ => attrOf_sights path _

theorem readDir_sights (path : Path) : Keeps (fun share => Sights start share.register) (readDir path) := by
  refine keeps_bind (ask_keeps _) fun _ => keeps_bind (ask_keeps _) fun _ => keeps_mapM _ fun entry => ?_
  exact keeps_bind (attrOf_sights _ _) fun _ => keeps_pure _

theorem create_sights (path : Path) : Keeps (fun share => Sights start share.register) (create path) :=
  keeps_bind (ask_keeps _) fun _ => keeps_bind (change_keeps (Sights start) _) fun _ => getattr_sights path

theorem mkdir_sights (path : Path) : Keeps (fun share => Sights start share.register) (mkdir path) :=
  keeps_bind (ask_keeps _) fun _ => keeps_bind (change_keeps (Sights start) _) fun _ => getattr_sights path

theorem checked_names {path full : Path} {share next : HostShare} (allowed : checked path share = .ok full next)
    (some : path.isEmpty = false) : path.names ≠ [] := by
  have plain : path.isPlain = true := by
    unfold checked ask checkedPath at allowed
    cases plain : path.isPlain with
    | true => rfl
    | false =>
      rw [plain] at allowed
      cases allowed
  cases path with
  | nil => cases some
  | cons first rest =>
    intro empty
    have leading : first ≠ "" → first = "." := by
      simpa using List.filter_eq_nil_iff.mp empty first List.mem_cons_self
    by_cases dots : first = ""
    · subst dots
      cases plain
    · have dot := leading dots
      subst dot
      cases plain

theorem remove_failed {path : Path} {share next : HostShare} {errno : Errno}
    (failed : remove path share = .error errno next) :
    next.register = share.register := by
  have same : FailsKeeping (fun other => other.register = share.register) (remove path) := by
    unfold remove
    refine failsKeeping_when (keeps_throw _) (failsKeeping_bind (ask_keeps _) fun full => ?_)
    refine failsKeeping_bind (ask_keeps _) fun node => ?_
    dsimp only
    split
    · exact failsKeeping_bind (change_keeps (· = share.register) _) fun _ => failsKeeping_of_never (fails_modify _)
    · exact failsKeeping_bind (change_keeps (· = share.register) _) fun _ => failsKeeping_of_never (fails_modify _)
  exact same share rfl errno next failed

theorem remove_ok {path : Path} {share next : HostShare} (done : remove path share = .ok () next) :
    path.names ≠ [] ∧ next.register = (share.inodes.filter fun entry => entry.1 != path.names, share.nextInode) := by
  unfold remove at done
  obtain ⟨some, done⟩ := unless_ok.mp done
  obtain ⟨full, _, allowed, done⟩ := bind_ok.mp done
  obtain rfl := asked_same allowed
  obtain ⟨node, _, found, done⟩ := bind_ok.mp done
  obtain rfl := asked_same found
  refine ⟨checked_names allowed (by simpa using some), ?_⟩
  dsimp only at done
  split at done
  all_goals
    obtain ⟨_, last, changed, ends⟩ := bind_ok.mp done
    obtain ⟨table, number⟩ := Prod.mk.inj (changed_register changed)
    cases ends
    exact Prod.ext (by rw [← table]; rfl) number

theorem rename_failed {old new : Path} {share next : HostShare} {errno : Errno}
    (failed : rename old new share = .error errno next) : next.register = share.register := by
  have same : FailsKeeping (fun other => other.register = share.register) (rename old new) := by
    unfold rename
    refine failsKeeping_when (keeps_throw _) (failsKeeping_bind (ask_keeps _) fun source => ?_)
    refine failsKeeping_bind (ask_keeps _) fun dest => ?_
    exact failsKeeping_bind (change_keeps (· = share.register) _) fun _ => failsKeeping_of_never (fails_modify _)
  exact same share rfl errno next failed

theorem rename_ok {old new : Path} {share next : HostShare} (done : rename old new share = .ok () next) :
    old.names ≠ [] ∧ new.names ≠ [] ∧ next.register = (moveInodes old.names new.names share.inodes, share.nextInode) := by
  unfold rename at done
  obtain ⟨some, done⟩ := unless_ok.mp done
  obtain ⟨source, _, allowed, done⟩ := bind_ok.mp done
  obtain rfl := asked_same allowed
  obtain ⟨dest, _, also, done⟩ := bind_ok.mp done
  obtain rfl := asked_same also
  obtain ⟨_, last, changed, ends⟩ := bind_ok.mp done
  obtain ⟨table, number⟩ := Prod.mk.inj (changed_register changed)
  cases ends
  simp only [Bool.or_eq_true, not_or, Bool.not_eq_true] at some
  exact ⟨checked_names allowed some.1, checked_names also some.2, Prod.ext (by rw [← table]; rfl) number⟩

end Operations

end RvBoard.HostShare
