import ChordServer.RWMutex
import ChordServer.Transition
import Mathlib.Logic.Function.Basic
import Mathlib.Logic.Relation
import Mathlib.Order.Nat

set_option autoImplicit false

/- Programs that take scoped locks around accesses to shared data, and threads that run
them side by side. Locks that are only taken in the order of a rank cannot deadlock.
Nothing below is specific to one program. -/

/-- How a lock is taken. -/
inductive LockMode
  | read
  | write
  deriving DecidableEq, Repr

/-- What is left of the code of one thread. An access reads the shared data and
changes it in one step; a crash is the end of the process. -/
inductive LockProgram (Lock Shared Fault α : Type) : Type
  | done (result : α)
  | crash (fault : Fault)
  | acquire (lock : Lock) (mode : LockMode) (rest : LockProgram Lock Shared Fault α)
  | release (lock : Lock) (rest : LockProgram Lock Shared Fault α)
  | access (update : Shared → Shared) (rest : Shared → LockProgram Lock Shared Fault α)

namespace LockProgram

variable {Lock Shared Fault α β : Type}

protected def bind (next : α → LockProgram Lock Shared Fault β) :
    LockProgram Lock Shared Fault α → LockProgram Lock Shared Fault β
  | .done result => next result
  | .crash fault => .crash fault
  | .acquire lock mode rest => .acquire lock mode (rest.bind next)
  | .release lock rest => .release lock (rest.bind next)
  | .access update rest => .access update fun shared => (rest shared).bind next

instance : Monad (LockProgram Lock Shared Fault) where
  pure := .done
  bind program next := program.bind next

/-- Reads the shared data. -/
def read (f : Shared → α) : LockProgram Lock Shared Fault α :=
  .access id fun shared => .done (f shared)

/-- Changes the shared data. -/
def modify (f : Shared → Shared) : LockProgram Lock Shared Fault Unit :=
  .access f fun _ => .done ()

/-- Changes the shared data and returns what that gives. -/
def call (f : Shared → Shared × α) : LockProgram Lock Shared Fault α :=
  .access (fun shared => (f shared).1) fun shared => .done (f shared).2

/-- A scope in which the lock is held. -/
def locked (lock : Lock) (mode : LockMode) (body : LockProgram Lock Shared Fault α) :
    LockProgram Lock Shared Fault α :=
  .acquire lock mode (body.bind fun result => .release lock (.done result))

/-- The program as the only thread runs it. -/
def alone : LockProgram Lock Shared Fault α → Shared → Except Fault (α × Shared)
  | .done result, shared => .ok (result, shared)
  | .crash fault, _ => .error fault
  | .acquire _ _ rest, shared => rest.alone shared
  | .release _ rest, shared => rest.alone shared
  | .access update rest, shared => (rest shared).alone (update shared)

/-- The program with its locks among others and its data a part of other data. -/
def zoom {Lock' Shared' : Type} (lockOf : Lock → Lock') (get : Shared' → Shared)
    (set : Shared → Shared' → Shared') :
    LockProgram Lock Shared Fault α → LockProgram Lock' Shared' Fault α
  | .done result => .done result
  | .crash fault => .crash fault
  | .acquire lock mode rest => .acquire (lockOf lock) mode (rest.zoom lockOf get set)
  | .release lock rest => .release (lockOf lock) (rest.zoom lockOf get set)
  | .access update rest =>
      .access (fun shared => set (update (get shared)) shared)
        fun shared => (rest (get shared)).zoom lockOf get set

section Alone
variable (shared : Shared)

@[simp] theorem alone_pure (result : α) :
    (pure result : LockProgram Lock Shared Fault α).alone shared = .ok (result, shared) := rfl

@[simp] theorem alone_read (f : Shared → α) :
    (read f : LockProgram Lock Shared Fault α).alone shared = .ok (f shared, shared) := rfl

@[simp] theorem alone_modify (f : Shared → Shared) :
    (modify f : LockProgram Lock Shared Fault Unit).alone shared = .ok ((), f shared) := rfl

@[simp] theorem alone_call (f : Shared → Shared × α) :
    (call f : LockProgram Lock Shared Fault α).alone shared = .ok ((f shared).2, (f shared).1) :=
  rfl

theorem alone_bind' (program : LockProgram Lock Shared Fault α)
    (next : α → LockProgram Lock Shared Fault β) :
    (program.bind next).alone shared =
      (program.alone shared).bind fun result => (next result.1).alone result.2 := by
  induction program generalizing shared with
  | done result => rfl
  | crash fault => rfl
  | acquire lock mode rest ih => exact ih shared
  | release lock rest ih => exact ih shared
  | access update rest ih => exact ih shared (update shared)

@[simp] theorem alone_bind (program : LockProgram Lock Shared Fault α)
    (next : α → LockProgram Lock Shared Fault β) :
    (program >>= next).alone shared =
      (program.alone shared).bind fun result => (next result.1).alone result.2 :=
  alone_bind' shared program next

@[simp] theorem alone_locked (lock : Lock) (mode : LockMode)
    (body : LockProgram Lock Shared Fault α) :
    (locked lock mode body).alone shared = body.alone shared := by
  rw [locked, alone, alone_bind']
  cases body.alone shared <;> rfl

/-- A program on a part of the data does to the part what it does to the data of its own. -/
theorem alone_zoom {Lock' Shared' : Type} {lockOf : Lock → Lock'} {get : Shared' → Shared}
    {set : Shared → Shared' → Shared'} (get_set : ∀ part s, get (set part s) = part)
    (set_set : ∀ first second s, set second (set first s) = set second s)
    (set_get : ∀ s, set (get s) s = s) (program : LockProgram Lock Shared Fault α) (s : Shared') :
    (program.zoom lockOf get set).alone s =
      (program.alone (get s)).map fun result => (result.1, set result.2 s) := by
  induction program generalizing s with
  | done result =>
    show Except.ok (result, s) = Except.ok (result, set (get s) s)
    rw [set_get]
  | crash fault => rfl
  | acquire lock mode rest ih => exact ih s
  | release lock rest ih => exact ih s
  | access update rest ih =>
    show ((rest (get s)).zoom lockOf get set).alone (set (update (get s)) s) = _
    rw [ih, get_set]
    simp only [set_set]
    rfl

/-- A loop whose rounds do to the shared data what the rounds of a fold do. -/
theorem alone_forM {round : α → LockProgram Lock Shared Fault Unit}
    {effect : Shared → α → Except Fault Shared} (items : List α)
    (same : ∀ item ∈ items, ∀ shared,
      (round item).alone shared = (effect shared item).map fun next => ((), next)) :
    ∀ shared, (items.forM round).alone shared =
      (items.foldlM effect shared).map fun next => ((), next) := by
  induction items with
  | nil => exact fun _ => rfl
  | cons item rest ih =>
    intro shared
    obtain ⟨here, later⟩ := List.forall_mem_cons.mp same
    change (round item >>= fun _ => rest.forM round).alone shared = _
    rw [alone_bind, here shared, List.foldlM_cons]
    cases effect shared item with
    | error fault => rfl
    | ok next => exact ih later next

/-- A loop whose rounds only compute. -/
theorem alone_foldlM {round : β → α → LockProgram Lock Shared Fault β} {f : β → α → β}
    (items : List α) {shared : Shared}
    (same : ∀ state, ∀ item ∈ items, (round state item).alone shared = .ok (f state item, shared)) :
    ∀ state, (items.foldlM round state).alone shared = .ok (items.foldl f state, shared) := by
  induction items with
  | nil => exact fun _ => rfl
  | cons item rest ih =>
    intro state
    rw [List.foldlM_cons, alone_bind, same state item List.mem_cons_self]
    exact ih (fun state other member => same state other (List.mem_cons_of_mem _ member)) _

end Alone

section Order
variable (rank : Lock → Nat) (valid : Shared → Prop)

/-- Every lock that the program takes has at least the rank `floor` and a higher rank than
those held, the locks are given up in the reverse order until `final` are left, and the
accesses keep the shared data valid. -/
def Ordered (floor : Nat) (final : List Lock) :
    List Lock → LockProgram Lock Shared Fault α → Prop
  | held, .done _ => held = final
  | _, .crash _ => True
  | held, .acquire lock _ rest =>
      floor ≤ rank lock ∧ (∀ other ∈ held, rank other < rank lock) ∧
        rest.Ordered floor final (lock :: held)
  | held, .release lock rest => ∃ outer, held = lock :: outer ∧ rest.Ordered floor final outer
  | held, .access update rest => ∀ shared, valid shared →
      valid (update shared) ∧ (rest shared).Ordered floor final held

/-- The program takes locks of rank `floor` and above, and gives all of them up. -/
def Above (floor : Nat) (program : LockProgram Lock Shared Fault α) : Prop :=
  program.Ordered rank valid floor [] []

variable {rank valid} {floor : Nat} {program : LockProgram Lock Shared Fault α}

theorem Ordered.bind {final middle : List Lock} {next : α → LockProgram Lock Shared Fault β}
    (following : ∀ result, (next result).Ordered rank valid floor final middle) :
    ∀ {held : List Lock}, program.Ordered rank valid floor middle held →
      (program.bind next).Ordered rank valid floor final held := by
  induction program with
  | done result =>
    rintro held rfl
    exact following result
  | crash fault => exact fun _ => trivial
  | acquire lock mode rest ih => exact fun ⟨above, higher, ordered⟩ => ⟨above, higher, ih ordered⟩
  | release lock rest ih => exact fun ⟨outer, shape, ordered⟩ => ⟨outer, shape, ih ordered⟩
  | access update rest ih =>
    exact fun ordered shared sound =>
      ⟨(ordered shared sound).1, ih shared (ordered shared sound).2⟩

/-- A program that takes its locks in order does so under locks of a lower rank. -/
theorem Ordered.under {outer final : List Lock} {lower : Nat} (below : lower ≤ floor)
    (under : ∀ lock ∈ outer, rank lock < floor) :
    ∀ {held : List Lock}, program.Ordered rank valid floor final held →
      program.Ordered rank valid lower (final ++ outer) (held ++ outer) := by
  induction program with
  | done result =>
    rintro held rfl
    rfl
  | crash fault => exact fun _ => trivial
  | acquire lock mode rest ih =>
    rintro held ⟨above, higher, ordered⟩
    refine ⟨below.trans above, fun other member => ?_, ih ordered⟩
    rcases List.mem_append.mp member with inner | outside
    · exact higher other inner
    · exact (under other outside).trans_le above
  | release lock rest ih =>
    rintro held ⟨inner, rfl, ordered⟩
    exact ⟨inner ++ outer, rfl, ih ordered⟩
  | access update rest ih =>
    exact fun ordered shared sound =>
      ⟨(ordered shared sound).1, ih shared (ordered shared sound).2⟩

theorem above_pure (result : α) :
    Above rank valid floor (pure result : LockProgram Lock Shared Fault α) := rfl

theorem above_crash (fault : Fault) :
    Above rank valid floor (crash fault : LockProgram Lock Shared Fault α) := trivial

theorem above_bind {next : α → LockProgram Lock Shared Fault β}
    (first : Above rank valid floor program)
    (later : ∀ result, Above rank valid floor (next result)) :
    Above rank valid floor (program >>= next) := Ordered.bind later first

theorem Above.mono {lower : Nat} (below : lower ≤ floor) (above : Above rank valid floor program) :
    Above rank valid lower program := by
  have none : ∀ lock ∈ ([] : List Lock), rank lock < floor :=
    fun _ member => absurd member List.not_mem_nil
  exact Ordered.under below none above

theorem above_access {update : Shared → Shared} {rest : Shared → LockProgram Lock Shared Fault α}
    (keeps : ∀ shared, valid shared → valid (update shared))
    (later : ∀ shared, valid shared → Above rank valid floor (rest shared)) :
    Above rank valid floor (access update rest) :=
  fun shared sound => ⟨keeps shared sound, later shared sound⟩

theorem above_read (f : Shared → α) :
    Above rank valid floor (read f : LockProgram Lock Shared Fault α) :=
  above_access (fun _ sound => sound) fun _ _ => above_pure _

/-- What is read from valid data may be used in what follows. -/
theorem above_read_bind {f : Shared → α} {next : α → LockProgram Lock Shared Fault β}
    (later : ∀ shared, valid shared → Above rank valid floor (next (f shared))) :
    Above rank valid floor (read f >>= next) := above_access (fun _ sound => sound) later

theorem above_modify {f : Shared → Shared} (keeps : ∀ shared, valid shared → valid (f shared)) :
    Above rank valid floor (modify f : LockProgram Lock Shared Fault Unit) :=
  above_access keeps fun _ _ => above_pure _

theorem above_call {f : Shared → Shared × α}
    (keeps : ∀ shared, valid shared → valid (f shared).1) :
    Above rank valid floor (call f : LockProgram Lock Shared Fault α) :=
  above_access keeps fun _ _ => above_pure _

/-- In a scope of a lock the body takes locks of higher ranks. -/
theorem above_locked {lock : Lock} {mode : LockMode} (high : floor ≤ rank lock)
    (body : Above rank valid (rank lock + 1) program) :
    Above rank valid floor (locked lock mode program) := by
  refine ⟨high, fun _ member => absurd member List.not_mem_nil, ?_⟩
  have under : ∀ other ∈ [lock], rank other < rank lock + 1 := by
    intro other member
    rw [List.mem_singleton.mp member]
    exact Nat.lt_succ_self _
  have closing : ∀ result : α, (.release lock (.done result) :
      LockProgram Lock Shared Fault α).Ordered rank valid floor [] [lock] :=
    fun _ => ⟨[], rfl, rfl⟩
  exact Ordered.bind closing (Ordered.under (high.trans (Nat.le_succ _)) under body)

/-- Among other locks and data the ranks are shifted. -/
theorem Ordered.zoom {Lock' Shared' : Type} {lockOf : Lock → Lock'} {get : Shared' → Shared}
    {set : Shared → Shared' → Shared'} {rank' : Lock' → Nat} {valid' : Shared' → Prop}
    {shift : Nat} {final : List Lock} (ranks : ∀ lock, rank' (lockOf lock) = shift + rank lock)
    (part : ∀ shared, valid' shared → valid (get shared))
    (whole : ∀ shared inner, valid' shared → valid inner → valid' (set inner shared)) :
    ∀ {held : List Lock}, program.Ordered rank valid floor final held →
      (program.zoom lockOf get set).Ordered rank' valid' (shift + floor) (final.map lockOf)
        (held.map lockOf) := by
  induction program with
  | done result =>
    rintro held rfl
    rfl
  | crash fault => exact fun _ => trivial
  | acquire lock mode rest ih =>
    rintro held ⟨above, higher, ordered⟩
    refine ⟨by rw [ranks]; exact Nat.add_le_add_left above shift, fun other member => ?_,
      ih ordered⟩
    obtain ⟨inner, held, rfl⟩ := List.mem_map.mp member
    rw [ranks, ranks]
    exact Nat.add_lt_add_left (higher inner held) shift
  | release lock rest ih =>
    rintro held ⟨outer, rfl, ordered⟩
    exact ⟨outer.map lockOf, rfl, ih ordered⟩
  | access update rest ih =>
    intro held ordered shared sound
    obtain ⟨kept, later⟩ := ordered (get shared) (part shared sound)
    exact ⟨whole shared _ sound kept, ih _ later⟩

theorem above_foldlM {round : β → α → LockProgram Lock Shared Fault β} {items : List α}
    (rounds : ∀ state, ∀ item ∈ items, Above rank valid floor (round state item)) (initial : β) :
    Above rank valid floor (items.foldlM round initial) := by
  induction items generalizing initial with
  | nil => exact above_pure initial
  | cons item rest ih =>
    rw [List.foldlM_cons]
    exact above_bind (rounds initial item List.mem_cons_self) fun state =>
      ih (fun state other member => rounds state other (List.mem_cons_of_mem _ member)) state

theorem above_forM {round : α → LockProgram Lock Shared Fault Unit} {items : List α}
    (rounds : ∀ item ∈ items, Above rank valid floor (round item)) :
    Above rank valid floor (items.forM round) := by
  induction items with
  | nil => exact above_pure ()
  | cons item rest ih =>
    obtain ⟨here, later⟩ := List.forall_mem_cons.mp rounds
    exact above_bind here fun _ => ih later

end Order

end LockProgram
