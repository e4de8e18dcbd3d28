/-!
# Outcomes of operations

An operation on a state either succeeds or fails, and leaves a state in both cases. The laws below
take the outcome of a sequence apart into the outcomes of its parts.
-/

set_option autoImplicit false

namespace RvBoard

variable {ε σ α β : Type}

theorem bind_ok {first : EStateM ε σ α} {rest : α → EStateM ε σ β} {start final : σ} {result : β} :
    (first >>= rest) start = .ok result final ↔
      ∃ value mid, first start = .ok value mid ∧ rest value mid = .ok result final := by
  change EStateM.bind first rest start = _ ↔ _
  unfold EStateM.bind
  cases first start with
  | ok value mid =>
    constructor
    · intro done
      exact ⟨value, mid, rfl, done⟩
    · rintro ⟨_, _, same, done⟩
      cases same
      exact done
  | error why mid => simp

theorem bind_error {first : EStateM ε σ α} {rest : α → EStateM ε σ β} {start final : σ} {fault : ε} :
    (first >>= rest) start = .error fault final ↔
      first start = .error fault final ∨
        ∃ value mid, first start = .ok value mid ∧ rest value mid = .error fault final := by
  change EStateM.bind first rest start = _ ↔ _
  unfold EStateM.bind
  cases first start with
  | ok value mid =>
    constructor
    · intro failed
      exact .inr ⟨value, mid, rfl, failed⟩
    · rintro (same | ⟨_, _, same, failed⟩)
      · cases same
      · cases same
        exact failed
  | error why mid => simp

theorem bind_of_ok {first : EStateM ε σ α} {rest : α → EStateM ε σ β} {start mid : σ} {value : α}
    (done : first start = .ok value mid) : (first >>= rest) start = rest value mid := by
  change EStateM.bind first rest start = _
  simp only [EStateM.bind, done]

theorem bind_of_error {first : EStateM ε σ α} {rest : α → EStateM ε σ β} {start mid : σ} {fault : ε}
    (failed : first start = .error fault mid) : (first >>= rest) start = .error fault mid := by
  change EStateM.bind first rest start = _
  simp only [EStateM.bind, failed]

@[simp] theorem pure_run (value : α) (state : σ) :
    (pure value : EStateM ε σ α) state = .ok value state := rfl

@[simp] theorem throw_run (fault : ε) (state : σ) :
    (throw fault : EStateM ε σ α) state = .error fault state := rfl

@[simp] theorem get_run (state : σ) : (get : EStateM ε σ σ) state = .ok state state := rfl

@[simp] theorem set_run (next state : σ) :
    (set next : EStateM ε σ PUnit) state = .ok ⟨⟩ next := rfl

@[simp] theorem modify_run (change : σ → σ) (state : σ) :
    (modify change : EStateM ε σ PUnit) state = .ok ⟨⟩ (change state) := rfl

theorem unless_ok {condition : Prop} [Decidable condition] {fault : ε} {rest : Unit → EStateM ε σ α} {start final : σ}
    {result : α} : (if condition then throw fault >>= rest else rest ()) start = .ok result final ↔
      ¬ condition ∧ rest () start = .ok result final := by
  by_cases holds : condition
  · rw [if_pos holds]
    constructor
    · intro done
      cases done
    · rintro ⟨fails, _⟩
      exact absurd holds fails
  · rw [if_neg holds]
    exact ⟨fun done => ⟨holds, done⟩, And.right⟩

theorem unless_error {condition : Prop} [Decidable condition] {fault error : ε} {rest : Unit → EStateM ε σ α}
    {start final : σ} : (if condition then throw fault >>= rest else rest ()) start = .error error final ↔
      (condition ∧ error = fault ∧ final = start) ∨ (¬ condition ∧ rest () start = .error error final) := by
  by_cases holds : condition
  · rw [if_pos holds]
    constructor
    · intro failed
      cases failed
      exact .inl ⟨holds, rfl, rfl⟩
    · rintro (⟨_, rfl, rfl⟩ | ⟨fails, _⟩)
      · rfl
      · exact absurd holds fails
  · rw [if_neg holds]
    constructor
    · exact fun failed => .inr ⟨holds, failed⟩
    · rintro (⟨always, _⟩ | ⟨_, failed⟩)
      · exact absurd always holds
      · exact failed

/-- The state that an operation leaves, whether it succeeds or fails. -/
def left : EStateM.Result ε σ α → σ
  | .ok _ state => state
  | .error _ state => state

@[simp] theorem left_ok (value : α) (state : σ) : left (.ok value state : EStateM.Result ε σ α) = state := rfl

@[simp] theorem left_error (fault : ε) (state : σ) :
    left (.error fault state : EStateM.Result ε σ α) = state := rfl

-- The value of an operation that succeeds.
def value? : EStateM.Result ε σ α → Option α
  | .ok value _ => some value
  | .error _ _ => none

theorem value_ok {outcome : EStateM.Result ε σ α} {value : α} (gives : value? outcome = some value) :
    outcome = .ok value (left outcome) := by
  cases outcome with
  | ok other state =>
    cases gives
    rfl
  | error fault state => cases gives

-- What an operation gives, a value or an error.
def given : EStateM.Result ε σ α → Except ε α
  | .ok value _ => .ok value
  | .error fault _ => .error fault

-- What holds before an operation holds after it, whether it succeeds or fails.
def Keeps (Holds : σ → Prop) (operation : EStateM ε σ α) : Prop :=
  ∀ state, Holds state → Holds (left (operation state))

section Kept

variable {Holds : σ → Prop}

theorem keeps_left {operation : EStateM ε σ α} {state : σ} {outcome : EStateM.Result ε σ α}
    (kept : Keeps Holds operation) (start : Holds state) (run : operation state = outcome) : Holds (left outcome) :=
  run ▸ kept state start

theorem keeps_pure (value : α) : Keeps Holds (pure value : EStateM ε σ α) :=
  fun _ start => start

theorem keeps_throw (fault : ε) : Keeps Holds (throw fault : EStateM ε σ α) :=
  fun _ start => start

theorem keeps_get : Keeps Holds (get : EStateM ε σ σ) :=
  fun _ start => start

theorem keeps_modify {change : σ → σ} (kept : ∀ state, Holds state → Holds (change state)) :
    Keeps Holds (modify change : EStateM ε σ PUnit) :=
  kept

theorem keeps_bind {first : EStateM ε σ α} {rest : α → EStateM ε σ β} (starts : Keeps Holds first)
    (follows : ∀ value, Keeps Holds (rest value)) : Keeps Holds (first >>= rest) := by
  intro state start
  have middle := starts state start
  cases outcome : first state with
  | ok value mid =>
    rw [outcome] at middle
    rw [bind_of_ok outcome]
    exact follows value mid middle
  | error fault mid =>
    rw [outcome] at middle
    rw [bind_of_error outcome]
    exact middle

theorem keeps_ite {condition : Prop} [Decidable condition] {yes no : EStateM ε σ α} (keepsYes : Keeps Holds yes)
    (keepsNo : Keeps Holds no) : Keeps Holds (if condition then yes else no) := by
  by_cases holds : condition
  · rw [if_pos holds]
    exact keepsYes
  · rw [if_neg holds]
    exact keepsNo

theorem keeps_when {condition : Prop} [Decidable condition] {step : EStateM ε σ Unit} {rest : Unit → EStateM ε σ α}
    (steps : Keeps Holds step) (follows : Keeps Holds (rest ())) :
    Keeps Holds (if condition then step >>= rest else rest ()) :=
  keeps_ite (keeps_bind steps fun _ => follows) follows

theorem keeps_mapM {operation : α → EStateM ε σ β} (values : List α) (each : ∀ value, Keeps Holds (operation value)) :
    Keeps Holds (values.mapM operation) := by
  induction values with
  | nil => exact keeps_pure _
  | cons value rest ih =>
    rw [List.mapM_cons]
    exact keeps_bind (each value) fun _ => keeps_bind ih fun _ => keeps_pure _

theorem keeps_tryCatch {operation : EStateM ε σ α} {handle : ε → EStateM ε σ α} (tries : Keeps Holds operation)
    (handles : ∀ fault, Keeps Holds (handle fault)) : Keeps Holds (tryCatch operation handle) := by
  intro state start
  have middle := tries state start
  change Holds (left (EStateM.tryCatch operation handle state))
  unfold EStateM.tryCatch
  cases outcome : operation state with
  | ok value mid =>
    rw [outcome] at middle
    exact middle
  | error fault mid =>
    rw [outcome] at middle
    exact handles fault mid middle

end Kept

def Ensures (Holds : σ → Prop) (Gives : α → Prop) (operation : EStateM ε σ α) : Prop :=
  ∀ state, Holds state → Holds (left (operation state)) ∧ ∀ value, value? (operation state) = some value → Gives value

section Ensured

variable {Holds : σ → Prop} {Gives : α → Prop} {Ends : β → Prop}

theorem ensures_pure {value : α} (gives : Gives value) : Ensures Holds Gives (pure value : EStateM ε σ α) := by
  intro state start
  refine ⟨start, fun other same => ?_⟩
  cases same
  exact gives

theorem ensures_throw (fault : ε) : Ensures Holds Gives (throw fault : EStateM ε σ α) := by
  intro state start
  refine ⟨start, fun other same => ?_⟩
  cases same

theorem ensures_of_keeps {operation : EStateM ε σ α} (kept : Keeps Holds operation) :
    Ensures Holds (fun _ => True) operation :=
  fun state start => ⟨kept state start, fun _ _ => trivial⟩

theorem ensures_modify {change : σ → σ} (kept : ∀ state, Holds state → Holds (change state)) :
    Ensures Holds (fun _ => True) (modify change : EStateM ε σ PUnit) :=
  ensures_of_keeps (keeps_modify kept)

theorem ensures_get : Ensures Holds Holds (get : EStateM ε σ σ) := by
  intro state start
  refine ⟨start, fun other same => ?_⟩
  cases same
  exact start

theorem ensures_bind {first : EStateM ε σ α} {rest : α → EStateM ε σ β} (starts : Ensures Holds Gives first)
    (follows : ∀ value, Gives value → Ensures Holds Ends (rest value)) : Ensures Holds Ends (first >>= rest) := by
  intro state start
  obtain ⟨middle, given⟩ := starts state start
  cases outcome : first state with
  | ok value mid =>
    rw [outcome] at middle given
    rw [bind_of_ok outcome]
    exact follows value (given value rfl) mid middle
  | error fault mid =>
    rw [outcome] at middle
    rw [bind_of_error outcome]
    refine ⟨middle, fun value same => ?_⟩
    cases same

theorem ensures_map {first : EStateM ε σ α} {f : α → β} (starts : Ensures Holds Gives first)
    (follows : ∀ value, Gives value → Ends (f value)) : Ensures Holds Ends (f <$> first) := by
  rw [map_eq_pure_bind]
  exact ensures_bind starts (fun value given => ensures_pure (follows value given))

theorem ensures_ite {condition : Prop} [Decidable condition] {yes no : EStateM ε σ α}
    (ensuresYes : condition → Ensures Holds Gives yes) (ensuresNo : ¬ condition → Ensures Holds Gives no) :
    Ensures Holds Gives (if condition then yes else no) := by
  by_cases holds : condition
  · rw [if_pos holds]
    exact ensuresYes holds
  · rw [if_neg holds]
    exact ensuresNo holds

theorem ensures_tryCatch {operation : EStateM ε σ α} {handle : ε → EStateM ε σ α} (tries : Ensures Holds Gives operation)
    (handles : ∀ fault, Ensures Holds Gives (handle fault)) : Ensures Holds Gives (tryCatch operation handle) := by
  intro state start
  have middle := tries state start
  change Holds (left (EStateM.tryCatch operation handle state)) ∧
    ∀ value, value? (EStateM.tryCatch operation handle state) = some value → Gives value
  unfold EStateM.tryCatch
  cases outcome : operation state with
  | ok value mid =>
    rw [outcome] at middle
    exact middle
  | error fault mid =>
    rw [outcome] at middle
    exact handles fault mid middle.1

theorem ensures_when {condition : Prop} [Decidable condition] {step : EStateM ε σ Unit} {rest : Unit → EStateM ε σ α}
    (steps : Ensures Holds (fun _ => True) step) (follows : Ensures Holds Gives (rest ())) :
    Ensures Holds Gives (if condition then step >>= rest else rest ()) :=
  ensures_ite (fun _ => ensures_bind steps (fun _ _ => follows)) (fun _ => follows)

end Ensured

def Fails (How : ε → Prop) (operation : EStateM ε σ α) : Prop :=
  ∀ state fault final, operation state = .error fault final → How fault

section Failures

variable {How : ε → Prop}

theorem fails_bind {first : EStateM ε σ α} {rest : α → EStateM ε σ β} (starts : Fails How first)
    (follows : ∀ value, Fails How (rest value)) : Fails How (first >>= rest) := by
  intro state fault final failed
  rcases bind_error.mp failed with before | ⟨value, mid, _, after⟩
  · exact starts state fault final before
  · exact follows value mid fault final after

theorem fails_throw {fault : ε} (how : How fault) : Fails How (throw fault : EStateM ε σ α) := by
  rintro state other final failed
  cases failed
  exact how

theorem fails_get : Fails How (get : EStateM ε σ σ) :=
  fun _ _ _ failed => nomatch failed

theorem fails_modify (change : σ → σ) : Fails How (modify change : EStateM ε σ PUnit) :=
  fun _ _ _ failed => nomatch failed

theorem fails_pure (value : α) : Fails How (pure value : EStateM ε σ α) :=
  fun _ _ _ failed => nomatch failed

theorem fails_mono {How Less : ε → Prop} {operation : EStateM ε σ α} (less : Fails Less operation)
    (how : ∀ fault, Less fault → How fault) : Fails How operation :=
  fun state fault final failed => how fault (less state fault final failed)

theorem fails_tryCatch {operation : EStateM ε σ α} {handle : ε → EStateM ε σ α}
    (handles : ∀ fault, Fails How (handle fault)) : Fails How (tryCatch operation handle) := by
  intro state fault final failed
  change EStateM.tryCatch operation handle state = _ at failed
  unfold EStateM.tryCatch at failed
  cases outcome : operation state with
  | ok value mid =>
    rw [outcome] at failed
    cases failed
  | error first mid =>
    rw [outcome] at failed
    exact handles first mid fault final failed

theorem fails_ite {condition : Prop} [Decidable condition] {yes no : EStateM ε σ α} (failsYes : Fails How yes)
    (failsNo : Fails How no) : Fails How (if condition then yes else no) := by
  by_cases holds : condition
  · rw [if_pos holds]
    exact failsYes
  · rw [if_neg holds]
    exact failsNo

theorem fails_when {condition : Prop} [Decidable condition] {step : EStateM ε σ Unit} {rest : Unit → EStateM ε σ α}
    (steps : Fails How step) (follows : Fails How (rest ())) : Fails How (if condition then step >>= rest else rest ()) :=
  fails_ite (fails_bind steps fun _ => follows) follows

end Failures

def FailsKeeping (Holds : σ → Prop) (operation : EStateM ε σ α) : Prop :=
  ∀ state, Holds state → ∀ fault final, operation state = .error fault final → Holds final

section Failing

variable {Holds : σ → Prop}

theorem failsKeeping_of_never {operation : EStateM ε σ α} (never : Fails (fun _ => False) operation) :
    FailsKeeping Holds operation :=
  fun state _ fault final failed => (never state fault final failed).elim

theorem failsKeeping_bind {first : EStateM ε σ α} {rest : α → EStateM ε σ β} (starts : Keeps Holds first)
    (follows : ∀ value, FailsKeeping Holds (rest value)) : FailsKeeping Holds (first >>= rest) := by
  intro state start fault final failed
  rcases bind_error.mp failed with before | ⟨value, mid, before, after⟩
  · exact keeps_left starts start before
  · exact follows value mid (keeps_left starts start before) fault final after

theorem failsKeeping_when {condition : Prop} [Decidable condition] {step : EStateM ε σ Unit} {rest : Unit → EStateM ε σ α}
    (steps : Keeps Holds step) (follows : FailsKeeping Holds (rest ())) :
    FailsKeeping Holds (if condition then step >>= rest else rest ()) := by
  by_cases holds : condition
  · rw [if_pos holds]
    exact failsKeeping_bind steps fun _ => follows
  · rw [if_neg holds]
    exact follows

end Failing

def resultAt : Except ε α → σ → EStateM.Result ε σ α
  | .ok value, state => .ok value state
  | .error fault, state => .error fault state

-- An operation gives the same in two states and changes neither.
def Alike (operation : EStateM ε σ α) (a b : σ) : Prop :=
  ∃ result : Except ε α, operation a = resultAt result a ∧ operation b = resultAt result b

section Alikeness

variable {a b : σ}

theorem alike_pure (value : α) : Alike (pure value : EStateM ε σ α) a b :=
  ⟨.ok value, rfl, rfl⟩

theorem alike_throw (fault : ε) : Alike (throw fault : EStateM ε σ α) a b :=
  ⟨.error fault, rfl, rfl⟩

theorem alike_bind {first : EStateM ε σ α} {rest : α → EStateM ε σ β} (starts : Alike first a b)
    (follows : ∀ value, value? (first a) = some value → Alike (rest value) a b) : Alike (first >>= rest) a b := by
  obtain ⟨result, left, right⟩ := starts
  cases result with
  | ok value =>
    obtain ⟨last, leftLast, rightLast⟩ := follows value (by rw [left]; rfl)
    exact ⟨last, (bind_of_ok left).trans leftLast, (bind_of_ok right).trans rightLast⟩
  | error fault => exact ⟨.error fault, bind_of_error left, bind_of_error right⟩

theorem alike_ite {condition : Prop} [Decidable condition] {yes no : EStateM ε σ α} (alikeYes : condition → Alike yes a b)
    (alikeNo : ¬ condition → Alike no a b) : Alike (if condition then yes else no) a b := by
  by_cases holds : condition
  · rw [if_pos holds]
    exact alikeYes holds
  · rw [if_neg holds]
    exact alikeNo holds

end Alikeness

end RvBoard
